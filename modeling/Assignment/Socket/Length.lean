import Assignment.Reference
import Assignment.Socket.Server

/-!
# The length of the body receive (Server.cpp)

`readHdr` drops the result of `ReadVarint32`, and `readBody` adds four to
whatever it returned, in 32 bits: for its array, for its `recv` and for the
stream over the array. The sum is the length of the frame for every header
that holds a complete varint. For the others `readHdr` returns `0xFFFFFFFF`
and the sum is three.
-/

namespace Assignment.Socket

/-- `readBody` is told a length that is right for these four bytes. -/
structure LengthSound (rt : Runtime) (h : Header) : Prop where
  /-- `recv(csock, (void *)buffer, 4+siz, MSG_WAITALL)` -/
  recv : (4 + readHdr rt h.bytes).toNat = (readHdr rt h.bytes).toNat + 4
  /-- `char buffer [siz+4]` and `ArrayInputStream ais(buffer,siz+4)` -/
  buffer : (readHdr rt h.bytes + 4).toNat = (readHdr rt h.bytes).toNat + 4
  /-- The bytes of the header and the body they declare fit. -/
  fits : (4 - (rt.readVarint32 h.bytes).rest.length) + (readHdr rt h.bytes).toNat
    ≤ (4 + readHdr rt h.bytes).toNat
  /-- A peek that leaves these bytes leads to a body receive only after a
  successful decode. -/
  decoded : ∀ (handler : Handler) (stack : Nat → UInt8) (r : RecvResult), handler.pc = .peek →
    handler.buffer.fill r.bytes = h →
    ∀ siz, (handler.onRecv rt stack r).pc = .body siz → (rt.readVarint32 h.bytes).ok = true

section
variable {rt : Runtime} (hrt : rt.Documented)
include hrt

/-- A complete varint of four bytes is far from the top of the range. -/
theorem lengthSound_of_last {h : Header} (hlast : ∃ b ∈ h.bytes, b < 0x80) :
    LengthSound rt h := by
  obtain ⟨n, rest, hread, hn, front, hsplit, hne⟩ :=
    hrt.readVarint32_complete (Nat.le_of_eq h.length_eq) hlast
  have hhdr : readHdr rt h.bytes = n := by
    rw [readHdr, List.take_of_length_le (Nat.le_of_eq h.length_eq), hread]
  have hrecv := bodyLength_of_lt hn
  refine ⟨?_, ?_, ?_, ?_⟩
  · rw [hhdr, hrecv]
  · rw [hhdr, bufferLength_eq, hrecv]
  · rw [hhdr, hrecv]
    omega
  · intro handler stack r _ _ siz _
    rw [hread]

/-- Four continuation bytes: `readHdr` fails, and `readBody` receives three
bytes for them. -/
theorem readHdr_continuation {h : Header} (hall : ∀ b ∈ h.bytes, 0x80 ≤ b) :
    readHdr rt h.bytes = 0xFFFFFFFF := by
  rw [readHdr, List.take_of_length_le (Nat.le_of_eq h.length_eq)]
  exact (hrt.varint_incomplete _ hall).2

/-- **The body length does not wrap exactly on decodable headers**: the
length that `readBody` computes is the size plus four, holds the frame and
stems from a successful decode if and only if one of the four peeked bytes
has its top bit clear. -/
theorem lengthSound_iff (h : Header) : LengthSound rt h ↔ ∃ b ∈ h.bytes, b < 0x80 := by
  constructor
  · intro hsound
    by_contra hlast
    have hall : ∀ b ∈ h.bytes, 0x80 ≤ b :=
      fun b hb => UInt8.not_lt.mp fun hlt => hlast ⟨b, hb, hlt⟩
    have hrecv := hsound.recv
    rw [readHdr_continuation hrt hall, bodyLength_incomplete] at hrecv
    have hmax : (0xFFFFFFFF : UInt32).toNat = 2 ^ 32 - 1 := rfl
    omega
  · exact lengthSound_of_last hrt

end

theorem lengthSound_iff_short :
    LengthSound reference ⟨[0x96, 0x01, 0, 0], rfl⟩ ↔ ∃ b ∈ [0x96, 0x01, 0, 0], b < (0x80 : UInt8) :=
  lengthSound_iff reference_documented ⟨[0x96, 0x01, 0, 0], rfl⟩

/-- Four continuation bytes announce a body of `2^32 - 1` bytes, for which
three are received. -/
theorem continuation_wraps : ¬ ∀ h : Header, LengthSound reference h := by
  intro h
  have hrecv := (h ⟨[0x80, 0x80, 0x80, 0x80], rfl⟩).recv
  exact absurd hrecv (by decide +kernel)

end Assignment.Socket
