import Assignment.Reference
import Assignment.Socket.Server

/-!
# The frame encoder (Client.cpp)

The client allocates `ByteSize()+4` bytes, writes the size as a varint and
the packet behind it, and sends the whole block. The server peeks at four
bytes and receives `4+siz`. `roundTrip_iff` is the exact condition under
which the three places agree: the varint takes at most the four bytes
reserved for it, that is, the packet has less than `2^28` bytes.
-/

namespace Assignment.Socket

open Buffer

namespace Client

/-- `payload.ByteSize()` as the varint that `WriteVarint32` is given. -/
def header (rt : Runtime) (payload : LogPacket) : Bytes :=
  rt.writeVarint32 (UInt32.ofNat (payload.byteSizeLong rt))

/-- `int siz = payload.ByteSize()+4;` -/
def siz (rt : Runtime) (payload : LogPacket) : Nat := payload.byteSizeLong rt + 4

/-- `new char [siz]` as the heap left it. -/
def block (rt : Runtime) (payload : LogPacket) (heap : Nat → UInt8) : Bytes :=
  (List.range (siz rt payload)).map heap

/-- The block `pkt` after `WriteVarint32` and `SerializeToCodedStream`. -/
def pkt (rt : Runtime) (payload : LogPacket) (heap : Nat → UInt8) : Bytes :=
  let written := rt.writeArray (block rt payload heap) (header rt payload)
  let position := (header rt payload).length
  written.take position
    ++ rt.writeArray (written.drop position) (payload.serializeWithCachedSizes rt)

/-! ## The block that is sent -/

@[simp] theorem block_length (rt : Runtime) (payload : LogPacket) (heap : Nat → UInt8) :
    (block rt payload heap).length = siz rt payload := by
  rw [block, List.length_map, List.length_range]

section
variable {rt : Runtime} (hrt : rt.Documented)
include hrt

theorem header_length_le_iff (payload : LogPacket) (hn : payload.byteSizeLong rt < 2 ^ 32)
    (k : Nat) : (header rt payload).length ≤ k + 1
      ↔ payload.byteSizeLong rt < 2 ^ (7 * (k + 1)) := by
  rw [header, hrt.varint_minimal, UInt32.toNat_ofNat_of_lt' hn]

theorem header_length_le_siz {payload : LogPacket} (hn : payload.byteSizeLong rt < 2 ^ 32) :
    (header rt payload).length ≤ siz rt payload := by
  have h5 := (header_length_le_iff hrt payload hn 4).mpr (by omega)
  by_cases hlt : payload.byteSizeLong rt < 2 ^ 28
  · have h4 := (header_length_le_iff hrt payload hn 3).mpr (by omega)
    rw [siz]
    omega
  · rw [siz]
    omega

/-- The varint alone always fits: the block starts with it. -/
theorem pkt_eq {payload : LogPacket} (heap : Nat → UInt8)
    (hn : payload.byteSizeLong rt < 2 ^ 32) :
    pkt rt payload heap = header rt payload
      ++ rt.writeArray ((block rt payload heap).drop (header rt payload).length)
          (payload.serializeWithCachedSizes rt) := by
  have hfit : (header rt payload).length ≤ (block rt payload heap).length := by
    rw [block_length]
    exact header_length_le_siz hrt hn
  rw [pkt, hrt.array_fits _ _ hfit, take_overwrite hfit, overwrite_of_le hfit, List.drop_left]

theorem pkt_length {payload : LogPacket} (heap : Nat → UInt8)
    (hn : payload.byteSizeLong rt < 2 ^ 32) : (pkt rt payload heap).length = siz rt payload := by
  have hfit := header_length_le_siz hrt hn
  rw [pkt_eq hrt heap hn, List.length_append, hrt.array_length, List.length_drop, block_length]
  omega

/-- Varint, packet, and the old heap content up to `ByteSize()+4` bytes. -/
theorem pkt_filler {payload : LogPacket} (heap : Nat → UInt8)
    (hn : payload.byteSizeLong rt < 2 ^ 28) :
    pkt rt payload heap = header rt payload ++ (payload.serializeWithCachedSizes rt
      ++ (block rt payload heap).drop
        ((header rt payload).length + payload.byteSizeLong rt)) := by
  have h4 := (header_length_le_iff hrt payload (by omega) 3).mpr (by omega)
  have hbody := payload.byteSizeLong_eq hrt (by omega)
  have hfit : (payload.serializeWithCachedSizes rt).length
      ≤ ((block rt payload heap).drop (header rt payload).length).length := by
    rw [List.length_drop, hbody, block_length, siz]
    omega
  rw [pkt_eq hrt heap (by omega), hrt.array_fits _ _ hfit, overwrite_of_le hfit, List.drop_drop,
    hbody]

/-- The filler takes what the varint leaves of the four bytes. -/
theorem pkt_fits {payload : LogPacket} (heap : Nat → UInt8)
    (hn : payload.byteSizeLong rt < 2 ^ 28) :
    ∃ filler, pkt rt payload heap
        = header rt payload ++ (payload.serializeWithCachedSizes rt ++ filler)
      ∧ (header rt payload).length + filler.length = 4 := by
  have h4 := (header_length_le_iff hrt payload (by omega) 3).mpr (by omega)
  refine ⟨_, pkt_filler hrt heap hn, ?_⟩
  rw [List.length_drop, block_length, siz]
  omega

/-- What the server reads at the start of such a block. -/
theorem readVarint32_pkt (payload : LogPacket) (more : Bytes) :
    rt.readVarint32 (header rt payload ++ more)
      = ⟨true, UInt32.ofNat (payload.byteSizeLong rt), more⟩ :=
  hrt.varint_roundTrip _ _

/-- From `2^28` bytes on, the four bytes that the server peeks at hold no
complete varint. -/
theorem readHdr_pkt_large {payload : LogPacket} (heap : Nat → UInt8)
    (hn : payload.byteSizeLong rt < 2 ^ 32) (hlarge : 2 ^ 28 ≤ payload.byteSizeLong rt) :
    readHdr rt (pkt rt payload heap) = 0xFFFFFFFF := by
  have h5 : 4 < (header rt payload).length := by
    have := header_length_le_iff hrt payload hn 3
    omega
  have htake : (pkt rt payload heap).take 4 = (header rt payload).take 4 := by
    rw [pkt_eq hrt heap hn, List.take_append_of_le_length (by omega)]
  have hfour : ((header rt payload).take 4).length ≤ 4 := by
    rw [List.length_take]
    omega
  rw [readHdr, htake]
  rcases hrt.readVarint32_four hfour with ⟨v, rest, hread, hv, -⟩ | ⟨-, hvalue⟩
  · -- a value of 28 bits would be the value of the whole varint
    have hwhole := hrt.varint_local _ _ _ ((header rt payload).drop 4) hread
    rw [List.take_append_drop, ← List.append_nil (header rt payload),
      readVarint32_pkt hrt payload] at hwhole
    simp only [VarintRead.mk.injEq, true_and] at hwhole
    rw [← hwhole.1, UInt32.toNat_ofNat_of_lt' hn] at hv
    omega
  · exact hvalue

end

/-! ## The round trip of one frame -/

/-- The frame of `payload` passes from the client's block through `readHdr`
and `readBody`: everything fits into the block, the header reads as the
size, the body receive takes exactly the block off the stream, and the
packet comes out. -/
structure RoundTrip (rt : Runtime) (payload : LogPacket) (heap : Nat → UInt8) : Prop where
  fits : (header rt payload).length + (payload.serializeWithCachedSizes rt).length
    ≤ siz rt payload
  header : (readHdr rt ((pkt rt payload heap).take 4)).toNat = payload.byteSizeLong rt
  receives : ∀ more, (pkt rt payload heap ++ more).take
    (4 + UInt32.ofNat (payload.byteSizeLong rt)).toNat = pkt rt payload heap
  packet : ∀ stack, messages (readBody rt (UInt32.ofNat (payload.byteSizeLong rt)) stack
    (.received (pkt rt payload heap))) = [payload]

section
variable {rt : Runtime} (hrt : rt.Documented)
include hrt

/-- The packet in a block of less than `2^28` bytes is decoded from the
block alone. -/
theorem decodeBody_pkt {payload : LogPacket} (heap : Nat → UInt8) (ht : payload.Text rt)
    (hn : payload.byteSizeLong rt < 2 ^ 28) (more : Bytes) :
    decodeBody rt (pkt rt payload heap ++ more) = payload := by
  obtain ⟨filler, hpkt, -⟩ := pkt_fits hrt heap hn
  have hbody := payload.byteSizeLong_eq hrt (by omega)
  have hsize : (UInt32.ofNat (payload.byteSizeLong rt)).toNat = payload.byteSizeLong rt :=
    UInt32.toNat_ofNat_of_lt' (show _ < 2 ^ 32 by omega)
  rw [hpkt, decodeBody_complete hrt (readVarint32_pkt hrt payload _) (by omega)
      (by rw [hsize, List.length_append]; omega), hsize, ← hbody, List.take_left,
    LogPacket.parse_serialize hrt ht (by omega)]

theorem readHdr_pkt {payload : LogPacket} (heap : Nat → UInt8)
    (hn : payload.byteSizeLong rt < 2 ^ 28) (more : Bytes) :
    readHdr rt (pkt rt payload heap ++ more) = UInt32.ofNat (payload.byteSizeLong rt) := by
  obtain ⟨filler, hpkt, -⟩ := pkt_fits hrt heap hn
  have h4 := (header_length_le_iff hrt payload (by omega) 3).mpr (by omega)
  have hread := readVarint32_pkt hrt payload []
  rw [List.append_nil] at hread
  rw [hpkt, List.append_assoc]
  exact readHdr_complete hrt h4 hread _

omit hrt in
theorem readHdr_take (buf : Bytes) : readHdr rt (buf.take 4) = readHdr rt buf := by
  rw [readHdr, readHdr, List.take_take, Nat.min_self]

/-- A block of less than `2^28` bytes goes through. -/
theorem roundTrip_of_lt {payload : LogPacket} (heap : Nat → UInt8) (ht : payload.Text rt)
    (hn : payload.byteSizeLong rt < 2 ^ 28) : RoundTrip rt payload heap := by
  have hsize : (UInt32.ofNat (payload.byteSizeLong rt)).toNat = payload.byteSizeLong rt :=
    UInt32.toNat_ofNat_of_lt' (show _ < 2 ^ 32 by omega)
  have hlen : (4 + UInt32.ofNat (payload.byteSizeLong rt)).toNat
      = (pkt rt payload heap).length := by
    rw [bodyLength_of_lt (by omega), hsize, pkt_length hrt heap (by omega), siz]
  refine ⟨?_, ?_, ?_, ?_⟩
  · have h4 := (header_length_le_iff hrt payload (by omega) 3).mpr (by omega)
    rw [payload.byteSizeLong_eq hrt (by omega), siz]
    omega
  · have hread := readHdr_pkt hrt heap hn []
    rw [List.append_nil] at hread
    rw [readHdr_take, hread, hsize]
  · intro more
    rw [hlen, List.take_left]
  · intro stack
    have hfull : (pkt rt payload heap).length
        = (uninitialised (UInt32.ofNat (payload.byteSizeLong rt)) stack).length := by
      rw [uninitialised_length, bufferLength_eq, hlen]
    have hdecode := decodeBody_pkt hrt heap ht hn []
    rw [List.append_nil] at hdecode
    rw [messages_readBody, RecvResult.bytes, overwrite_of_length_eq hfull, hdecode]

/-- A block of `2^28` bytes or more does not: its header is not read. -/
theorem not_roundTrip_of_ge {payload : LogPacket} (heap : Nat → UInt8)
    (hn : payload.byteSizeLong rt + 4 ≤ 2 ^ 31 - 1) (hlarge : 2 ^ 28 ≤ payload.byteSizeLong rt) :
    ¬ RoundTrip rt payload heap := by
  intro h
  have hheader := h.header
  rw [readHdr_take, readHdr_pkt_large hrt heap (by omega) hlarge] at hheader
  have hmax : (0xFFFFFFFF : UInt32).toNat = 2 ^ 32 - 1 := rfl
  omega

/-- **The frame codec round trip, exactly**: over the sizes that do not
overflow `int siz`, a text packet survives for every content of the heap
block if and only if it has less than `2^28` bytes. -/
theorem roundTrip_iff {payload : LogPacket} (ht : payload.Text rt)
    (hn : payload.byteSizeLong rt + 4 ≤ 2 ^ 31 - 1) :
    (∀ heap, RoundTrip rt payload heap) ↔ payload.byteSizeLong rt < 2 ^ 28 := by
  constructor
  · intro h
    by_contra hlarge
    exact not_roundTrip_of_ge hrt (fun _ => 0) hn (by omega) (h fun _ => 0)
  · intro hlt heap
    exact roundTrip_of_lt hrt heap ht hlt

end

theorem roundTrip_iff_hello :
    (∀ heap, RoundTrip reference ⟨[0x68, 0x69], []⟩ heap)
      ↔ LogPacket.byteSizeLong reference ⟨[0x68, 0x69], []⟩ < 2 ^ 28 :=
  roundTrip_iff reference_documented ⟨by decide, rfl⟩ (by decide)

theorem byteSizeLong_text {s : Bytes} (hs : 0 < s.length) :
    LogPacket.byteSizeLong reference ⟨s, []⟩
      = 1 + (Reference.writeVarint32 (UInt32.ofNat s.length)).length + s.length := by
  have hsize : reference.stringSize s
      = (Reference.writeVarint32 (UInt32.ofNat s.length)).length + s.length := List.length_append
  simp only [LogPacket.byteSizeLong, if_pos hs, hsize, writeUnknownFields, ne_eq,
    not_true_eq_false, false_and, if_false, List.length_nil]
  omega

/-- A text of `2^28` letters, whose packet has a varint of five bytes, does
not overflow `int siz` and does not survive. -/
theorem oversize_not_roundTrip :
    ¬ ∀ payload : LogPacket, payload.Text reference →
      payload.byteSizeLong reference + 4 ≤ 2 ^ 31 - 1 →
      ∀ heap, RoundTrip reference payload heap := by
  intro h
  obtain ⟨s, hs⟩ : ∃ s : Bytes, s = List.replicate (2 ^ 28) 0x61 := ⟨_, rfl⟩
  have hlen : s.length = 2 ^ 28 := by rw [hs, List.length_replicate]
  have hsize := byteSizeLong_text (s := s) (by omega)
  have hprefix := (Reference.varint_minimal (UInt32.ofNat s.length) 4).mpr
    (by have := (UInt32.ofNat s.length).toNat_lt; omega)
  have htext : LogPacket.Text reference ⟨s, []⟩ := by
    refine ⟨Utf8.valid_of_ascii (fun b hb => ?_), rfl⟩
    change b ∈ s at hb
    rw [hs] at hb
    rw [List.eq_of_mem_replicate hb]
    decide
  exact not_roundTrip_of_ge reference_documented (fun _ => 0) (by omega) (by omega)
    (h ⟨s, []⟩ htext (by omega) fun _ => 0)

end Client

end Assignment.Socket
