import Assignment.Socket.Client

/-!
# What the client transmits (Client.cpp)

`send` is given all `ByteSize()+4` bytes of `pkt`. The varint and the packet
overwrite them all exactly when the varint takes four bytes or more, that
is, from a packet of `2^21` bytes on (`sent_same_iff`). A shorter packet is
followed by what the heap block held before.
-/

namespace Assignment.Socket.Client

open Buffer

/-- The bytes of `send(sock, (void*)pkt, siz, 0)`; there are none where
`ByteSize()+4` is no `int`, as `new char [siz]` then has no size. -/
def sent (rt : Runtime) (payload : LogPacket) (heap : Nat → UInt8) : Option Bytes :=
  if siz rt payload ≤ 2 ^ 31 - 1 then some (pkt rt payload heap) else none

/-- The block over a heap of one byte value. -/
theorem block_const (rt : Runtime) (payload : LogPacket) (b : UInt8) :
    block rt payload (fun _ => b) = List.replicate (siz rt payload) b := by
  rw [List.eq_replicate_iff]
  refine ⟨block_length rt payload _, fun x hx => ?_⟩
  obtain ⟨i, -, rfl⟩ := List.mem_map.mp hx
  rfl

section
variable {rt : Runtime} (hrt : rt.Documented)
include hrt

/-- A varint of less than four bytes leaves filler of the heap's choosing. -/
theorem header_length_of_same {payload : LogPacket} (hn : payload.byteSizeLong rt < 2 ^ 28)
    (h : pkt rt payload (fun _ => 0) = pkt rt payload (fun _ => 1)) :
    4 ≤ (header rt payload).length := by
  rw [pkt_filler hrt _ hn, pkt_filler hrt _ hn, List.append_cancel_left_eq,
    List.append_cancel_left_eq, block_const, block_const, List.drop_replicate,
    List.drop_replicate, siz] at h
  by_contra hlt
  have hne : payload.byteSizeLong rt + 4
      - ((header rt payload).length + payload.byteSizeLong rt) ≠ 0 := by omega
  exact absurd (List.replicate_right_inj hne |>.mp h) (by decide)

/-- A varint of four bytes or more leaves no filler: the packet fills the
block, and is cut where the varint takes five. -/
theorem pkt_no_filler {payload : LogPacket} (heap : Nat → UInt8)
    (hexhausted : ∀ array written, array.length ≤ written.length →
      rt.writeArray array written = written.take array.length)
    (hn : payload.byteSizeLong rt < 2 ^ 31) (h4 : 4 ≤ (header rt payload).length) :
    pkt rt payload heap = header rt payload ++ (payload.serializeWithCachedSizes rt).take
      (siz rt payload - (header rt payload).length) := by
  have hbody := payload.byteSizeLong_eq hrt hn
  have hfull : ((block rt payload heap).drop (header rt payload).length).length
      ≤ (payload.serializeWithCachedSizes rt).length := by
    rw [List.length_drop, block_length, hbody, siz]
    omega
  rw [pkt_eq hrt heap (by omega), hexhausted _ _ hfull, List.length_drop, block_length]

/-- **What is transmitted depends on the message alone exactly from `2^21`
bytes on**: given that a full array holds the bytes that fit, two heap
blocks make no difference to what is sent if and only if the packet is so
large that its varint takes up the four bytes reserved for it. -/
theorem sent_same_iff (hexhausted : ∀ array written, array.length ≤ written.length →
      rt.writeArray array written = written.take array.length) (payload : LogPacket) :
    (∀ heap heap', sent rt payload heap = sent rt payload heap')
      ↔ 2 ^ 21 ≤ payload.byteSizeLong rt := by
  by_cases hsiz : siz rt payload ≤ 2 ^ 31 - 1
  · have hn : payload.byteSizeLong rt < 2 ^ 31 := by
      rw [siz] at hsiz
      omega
    have hheader := header_length_le_iff hrt payload (by omega) 2
    simp only [sent, if_pos hsiz, Option.some.injEq]
    constructor
    · intro hsame
      by_contra hlt
      have h4 := header_length_of_same hrt (by omega) (hsame (fun _ => 0) fun _ => 1)
      omega
    · intro hlarge heap heap'
      have h4 : 4 ≤ (header rt payload).length := by omega
      rw [pkt_no_filler hrt heap hexhausted hn h4, pkt_no_filler hrt heap' hexhausted hn h4]
  · have hlarge : 2 ^ 21 ≤ payload.byteSizeLong rt := by
      rw [siz] at hsiz
      omega
    simp only [sent, if_neg hsiz, implies_true, hlarge]

end

theorem sent_same_iff_hello :
    (∀ heap heap', sent reference ⟨[0x68, 0x69], []⟩ heap
        = sent reference ⟨[0x68, 0x69], []⟩ heap')
      ↔ 2 ^ 21 ≤ LogPacket.byteSizeLong reference ⟨[0x68, 0x69], []⟩ := by
  refine sent_same_iff reference_documented (fun array written h => ?_) ⟨[0x68, 0x69], []⟩
  change overwrite array written = _
  rw [overwrite, List.drop_eq_nil_of_le h, List.append_nil]

/-- A packet of four bytes goes out with three bytes of the heap. -/
theorem heap_sent : ¬ ∀ (payload : LogPacket) (heap heap' : Nat → UInt8),
    sent reference payload heap = sent reference payload heap' := by
  intro h
  exact absurd (h ⟨[0x68, 0x69], []⟩ (fun _ => 0) fun _ => 1) (by decide +kernel)

end Assignment.Socket.Client
