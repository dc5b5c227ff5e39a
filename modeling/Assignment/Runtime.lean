import Assignment.Lib.Buffer

/-!
# The part of libprotobuf that the programs call

libprotobuf 3.5 is not in the repository. What the generated code, the
server and the client use of it is a parameter, `Runtime`, and what its
documentation promises of those calls is `Runtime.Documented`. A
`CodedInputStream` is the list of bytes between its read position and the
limit in force (or the end of the data); a read returns what is left of it.
-/

namespace Assignment

abbrev Bytes := List UInt8

/-- `ReadVarint32(&value)`: the returned flag, the output variable, and the
rest of the input. -/
structure VarintRead where
  ok : Bool
  value : UInt32
  rest : Bytes
deriving DecidableEq, Repr

/-- `ReadTagWithCutoffNoLastTag(127u)`: the tag (`0` at the end of the input
and on a malformed tag), whether it is known to lie in `1..127`, and the
rest of the input. `atEnd` is the flag behind `ConsumedEntireMessage`: a
tag of `0` because the input ended exactly here. -/
structure TagRead where
  tag : UInt32
  known : Bool
  rest : Bytes
  atEnd : Bool
deriving DecidableEq, Repr

/-- The calls into libprotobuf. A reader of a field returns the new value of
the variable it fills (kept also when it fails half-way) and the rest of
the input, or `none` where the C++ function returns `false`. -/
structure Runtime where
  /-- `CodedInputStream::ReadVarint32` -/
  readVarint32 : Bytes → VarintRead
  /-- `CodedOutputStream::WriteVarint32` -/
  writeVarint32 : UInt32 → Bytes
  /-- `CodedInputStream::PushLimit`: what may be read under the limit. -/
  pushLimit : Int → Bytes → Bytes
  /-- `CodedInputStream::ReadTagWithCutoffNoLastTag(127u)` -/
  readTag : Bytes → TagRead
  /-- `WireFormatLite::ReadString` over the string's present value. -/
  readString : Bytes → Bytes → Bytes × Option Bytes
  /-- `WireFormatLite::WriteStringMaybeAliased` -/
  writeString : Nat → Bytes → Bytes
  /-- `WireFormatLite::StringSize` -/
  stringSize : Bytes → Nat
  /-- `WireFormatLite::VerifyUtf8String` -/
  verifyUtf8String : Bytes → Bool
  /-- `WireFormat::SkipField(input, tag, unknown)`; an `UnknownFieldSet` is
  the bytes it serialises to. -/
  skipField : UInt32 → Bytes → Bytes → Bytes × Option Bytes
  /-- `GetProto3PreserveUnknownsDefault()` -/
  preserveUnknowns : Bool
  /-- The array behind an `ArrayOutputStream` after a `CodedOutputStream`
  over it was given these bytes. -/
  writeArray : Bytes → Bytes → Bytes

/-- The tag of a length-delimited field. -/
def lengthDelimitedTag (field : Nat) : UInt32 := UInt32.ofNat (8 * field + 2)

/-- What the documentation of libprotobuf 3.5 says of these calls. -/
structure Runtime.Documented (rt : Runtime) : Prop where
  /-- A written varint reads back, whatever follows it. -/
  varint_roundTrip : ∀ n rest, rt.readVarint32 (rt.writeVarint32 n ++ rest) = ⟨true, n, rest⟩
  /-- Varints are written in the fewest groups of seven bits. -/
  varint_minimal : ∀ n k, (rt.writeVarint32 n).length ≤ k + 1 ↔ n.toNat < 2 ^ (7 * (k + 1))
  /-- An input of continuation bytes only holds no complete varint: the call
  returns `false` and leaves `0xFFFFFFFF` in its output. -/
  varint_incomplete : ∀ input, (∀ b ∈ input, 0x80 ≤ b) →
    (rt.readVarint32 input).ok = false ∧ (rt.readVarint32 input).value = 0xFFFFFFFF
  /-- Up to four bytes of which the last alone has its top bit clear are a
  complete varint of seven bits a byte. -/
  varint_complete : ∀ front b, front.length ≤ 3 → (∀ x ∈ front, 0x80 ≤ x) → b < 0x80 →
    ∃ n, n.toNat < 2 ^ (7 * (front.length + 1)) ∧ rt.readVarint32 (front ++ [b]) = ⟨true, n, []⟩
  /-- A complete varint is decoded from its own bytes. -/
  varint_local : ∀ input n rest more, rt.readVarint32 input = ⟨true, n, rest⟩ →
    rt.readVarint32 (input ++ more) = ⟨true, n, rest ++ more⟩
  /-- Reading a varint does not move backward. -/
  varint_le : ∀ input, (rt.readVarint32 input).rest.length ≤ input.length
  /-- A limit is the number of bytes that may still be read. -/
  limit_take : ∀ n input, 0 ≤ n → rt.pushLimit n input = input.take n.toNat
  /-- No tag at the end of the input, which is a legitimate end. -/
  tag_end : rt.readTag [] = ⟨0, false, [], true⟩
  /-- Reading a tag moves forward. -/
  tag_shortens : ∀ input, (rt.readTag input).tag ≠ 0 →
    (rt.readTag input).rest.length < input.length
  /-- A written string field is found under its tag and reads back. -/
  string_roundTrip : ∀ field s rest old, 1 ≤ field → field ≤ 15 → s.length < 2 ^ 31 →
    ∃ payload, rt.readTag (rt.writeString field s ++ rest)
        = ⟨lengthDelimitedTag field, true, payload, false⟩
      ∧ rt.readString payload old = (s, some rest)
  /-- `StringSize` counts the field without its one-byte tag. -/
  string_size : ∀ field s, 1 ≤ field → field ≤ 15 → s.length < 2 ^ 31 →
    (rt.writeString field s).length = 1 + rt.stringSize s
  /-- The length prefix comes on top of the string. -/
  string_size_gt : ∀ s, s.length < rt.stringSize s
  /-- Reading a string does not move backward. -/
  string_le : ∀ input old s rest, rt.readString input old = (s, some rest) →
    rest.length ≤ input.length
  /-- The empty string is valid UTF-8. -/
  utf8_empty : rt.verifyUtf8String [] = true
  /-- A skipped field joins the unknown fields in an encoding that is itself
  read and skipped to the same effect. -/
  skip_reencodes : ∀ input kept kept' rest, (rt.readTag input).tag ≠ 0 →
    rt.skipField (rt.readTag input).tag (rt.readTag input).rest kept = (kept', some rest) →
    ∃ field, kept' = kept ++ field ∧ ∀ rest₁ kept₁, ∃ payload,
      rt.readTag (field ++ rest₁)
          = ⟨(rt.readTag input).tag, (rt.readTag input).known, payload, false⟩
      ∧ rt.skipField (rt.readTag input).tag payload kept₁ = (kept₁ ++ field, some rest₁)
  /-- Skipping a field does not move backward. -/
  skip_le : ∀ tag input kept kept' rest, rt.skipField tag input kept = (kept', some rest) →
    rest.length ≤ input.length
  /-- Since 3.5 proto3 messages keep their unknown fields. -/
  unknowns_kept : rt.preserveUnknowns = true
  /-- Bytes that fit are stored from the start of the array on. -/
  array_fits : ∀ array written, written.length ≤ array.length →
    rt.writeArray array written = Buffer.overwrite array written
  /-- An exhausted array is not written past its end. -/
  array_length : ∀ array written, (rt.writeArray array written).length = array.length

namespace Runtime.Documented

variable {rt : Runtime} (hrt : rt.Documented)
include hrt

/-- Four bytes that are not all continuation bytes hold a complete varint,
of at most 28 bits. -/
theorem readVarint32_complete {four : Bytes} (h4 : four.length ≤ 4) (h : ∃ b ∈ four, b < 0x80) :
    ∃ n rest, rt.readVarint32 four = ⟨true, n, rest⟩ ∧ n.toNat < 2 ^ 28
      ∧ ∃ front, four = front ++ rest ∧ front ≠ [] := by
  have hlast : ∃ b ∈ four, ¬ 0x80 ≤ b := by simpa only [UInt8.not_le] using h
  obtain ⟨front, b, rest, rfl, hfront, hb⟩ := Buffer.cut_at_first hlast
  rw [UInt8.not_le] at hb
  have hlen : front.length ≤ 3 := by
    simp only [List.length_append, List.length_cons] at h4
    omega
  obtain ⟨n, hn, hread⟩ := hrt.varint_complete front b hlen hfront hb
  have hwhole := hrt.varint_local _ _ _ rest hread
  rw [List.append_assoc, List.singleton_append, List.nil_append] at hwhole
  refine ⟨n, rest, hwhole, ?_, front ++ [b], by simp, by simp⟩
  calc n.toNat < 2 ^ (7 * (front.length + 1)) := hn
    _ ≤ 2 ^ 28 := Nat.pow_le_pow_right (by omega) (by omega)

/-- Four bytes either hold a complete varint, of at most 28 bits, or
continuation bytes only. -/
theorem readVarint32_four {four : Bytes} (h4 : four.length ≤ 4) :
    (∃ n rest, rt.readVarint32 four = ⟨true, n, rest⟩ ∧ n.toNat < 2 ^ 28
        ∧ ∃ front, four = front ++ rest ∧ front ≠ [])
      ∨ ((rt.readVarint32 four).ok = false ∧ (rt.readVarint32 four).value = 0xFFFFFFFF) := by
  by_cases hlast : ∃ b ∈ four, b < 0x80
  · exact .inl (readVarint32_complete hrt h4 hlast)
  · have hall : ∀ b ∈ four, 0x80 ≤ b :=
      fun b hb => UInt8.not_lt.mp fun hlt => hlast ⟨b, hb, hlt⟩
    exact .inr (hrt.varint_incomplete four hall)

end Runtime.Documented

end Assignment
