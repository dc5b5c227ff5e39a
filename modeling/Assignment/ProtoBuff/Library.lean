import Assignment.Merge
import Assignment.Reference

/-!
# More of libprotobuf: numbers, nested messages, timestamps

What `addressbook.pb.cc` and `add_person.cc` call beyond `Runtime`. The
well-known type `google.protobuf.Timestamp` is not in the repository: `T` is
the type of its messages, and its parser, serialiser and size are among the
calls. `bookReference` extends `reference` with them.
-/

namespace Assignment.ProtoBuff

/-- The further calls; `T` is the type of timestamp messages. -/
structure Library (T : Type) extends Runtime where
  /-- `WireFormatLite::WriteInt32` -/
  writeInt32 : Nat → Int32 → Bytes
  /-- `WireFormatLite::Int32Size` -/
  int32Size : Int32 → Nat
  /-- `WireFormatLite::WriteEnum` -/
  writeEnum : Nat → Int32 → Bytes
  /-- `WireFormatLite::EnumSize` -/
  enumSize : Int32 → Nat
  /-- `WireFormatLite::ReadMessage`, given the `MergePartialFromCodedStream`
  of the message and its present value. -/
  readMessage : {M : Type} → (Bytes → M → M × MergeEnd) → Bytes → M → M × Option Bytes
  /-- `WireFormatLite::WriteMessageMaybeToArray`, given the cached size of the
  message and what it serialises to. -/
  writeMessage : Nat → Nat → Bytes → Bytes
  /-- `WireFormatLite::MessageSize`, given the message's `ByteSizeLong`. -/
  messageSize : Nat → Nat
  /-- `Timestamp()` -/
  timestamp : T
  /-- `Timestamp::MergePartialFromCodedStream` -/
  mergeTimestamp : Bytes → T → T × MergeEnd
  /-- `Timestamp::SerializeWithCachedSizes` -/
  serializeTimestamp : T → Bytes
  /-- `Timestamp::ByteSizeLong` -/
  timestampSize : T → Nat
  /-- `TimeUtil::SecondsToTimestamp` -/
  secondsToTimestamp : Int → T
  /-- The largest message that is serialised. -/
  sizeLimit : Nat

/-- The tag of a varint field. -/
def varintTag (field : Nat) : UInt32 := UInt32.ofNat (8 * field)

/-- `ReadPrimitive<int32, TYPE_INT32>` and `ReadPrimitive<int, TYPE_ENUM>`: a
varint truncated to 32 bits. -/
def readInt32 (rt : Runtime) (input : Bytes) : Option (Int32 × Bytes) :=
  let v := rt.readVarint32 input
  if v.ok then some (v.value.toInt32, v.rest) else none

variable {T : Type}

/-- A number field with a one-byte tag, as `write` writes it and `size`
counts it. -/
structure Library.NumberField (lib : Library T) (write : Nat → Int32 → Bytes)
    (size : Int32 → Nat) : Prop where
  /-- The field is found under its tag and reads back. -/
  roundTrip : ∀ field v rest, 1 ≤ field → field ≤ 15 → ∃ payload,
    lib.readTag (write field v ++ rest) = ⟨varintTag field, true, payload, false⟩
      ∧ readInt32 lib.toRuntime payload = some (v, rest)
  /-- The size leaves out the tag. -/
  length : ∀ field v, 1 ≤ field → field ≤ 15 → (write field v).length = 1 + size v

/-- What the documentation says of these calls. -/
structure Library.Documented (lib : Library T) : Prop extends lib.toRuntime.Documented where
  int32 : lib.NumberField lib.writeInt32 lib.int32Size
  enum : lib.NumberField lib.writeEnum lib.enumSize
  /-- A nested message is found under its tag; reading it parses its bytes
  into the present value, and fails unless they are consumed entirely. -/
  message_roundTrip : ∀ {M : Type} (merge : Bytes → M → M × MergeEnd) field body rest m,
    1 ≤ field → field ≤ 15 → body.length < 2 ^ 31 → ∃ payload,
      lib.readTag (lib.writeMessage field body.length body ++ rest)
          = ⟨lengthDelimitedTag field, true, payload, false⟩
        ∧ lib.readMessage merge payload m
          = ((merge body m).1, if (merge body m).2 = .success true then some rest else none)
  /-- Whatever is read as a nested message was parsed from some bytes. -/
  message_sound : ∀ {M : Type} (merge : Bytes → M → M × MergeEnd) input m m' rest,
    lib.readMessage merge input m = (m', some rest) → rest.length ≤ input.length
      ∧ ∃ body, merge body m = (m', .success true)
  /-- `MessageSize` counts the field without its tag. -/
  message_size : ∀ field body, 1 ≤ field → field ≤ 15 → body.length < 2 ^ 31 →
    (lib.writeMessage field body.length body).length = 1 + lib.messageSize body.length
  /-- The length prefix comes on top of the message. -/
  message_size_gt : ∀ n, n < lib.messageSize n
  /-- A serialised timestamp parses as itself. -/
  timestamp_roundTrip : ∀ t,
    lib.mergeTimestamp (lib.serializeTimestamp t) lib.timestamp = (t, .success true)
  timestamp_size : ∀ t, (lib.serializeTimestamp t).length = lib.timestampSize t
  /-- Messages of 2 GB and more are refused. -/
  size_limit : lib.sizeLimit < 2 ^ 31

/-! ## The reference -/

namespace Reference

open Assignment.Reference

/-- `WriteVarint32SignExtended`: a negative number takes ten bytes. -/
def signExtended (v : Int32) : Bytes := Varint.encode 9 v.toInt64.toUInt64.toNat

def writeInt32 (field : Nat) (v : Int32) : Bytes := writeTag field 0 ++ signExtended v

def int32Size (v : Int32) : Nat := (signExtended v).length

/-- A length, and a parse of that many bytes. -/
def readMessage {M : Type} (merge : Bytes → M → M × MergeEnd) (input : Bytes) (m : M) :
    M × Option Bytes :=
  let v := readVarint32 input
  if v.ok = true ∧ v.value.toNat < 2 ^ 31 then
    let r := merge (v.rest.take v.value.toNat) m
    (r.1, if r.2 = .success true then some (v.rest.drop v.value.toNat) else none)
  else (m, none)

def writeMessage (field size : Nat) (body : Bytes) : Bytes :=
  writeTag field 2 ++ (writeVarint32 (UInt32.ofNat size) ++ body)

def messageSize (n : Nat) : Nat := (writeVarint32 (UInt32.ofNat n)).length + n

/-- Whole seconds, as `int64 seconds = 1`. -/
def mergeTimestamp (input : Bytes) (t : UInt64) : UInt64 × MergeEnd :=
  match input with
  | [] => (t, .success true)
  | 8 :: payload => match Varint.decode 9 payload with
      | some (n, []) => (UInt64.ofNat n, .success true)
      | _ => (t, .failure)
  | _ => (t, .failure)

def serializeTimestamp (t : UInt64) : Bytes :=
  if t = 0 then [] else 8 :: Varint.encode 9 t.toNat

theorem truncate_signExtend (v : Int32) : v.toInt64.toUInt64.toUInt32.toInt32 = v := by
  apply Int32.toBitVec_inj.mp
  simp only [UInt32.toBitVec_toInt32, UInt64.toBitVec_toUInt32, Int64.toBitVec_toUInt64,
    Int32.toBitVec_toInt64]
  ext i hi
  rw [BitVec.getElem_setWidth, BitVec.getLsbD_signExtend]
  simp only [BitVec.getElem_eq_testBit_toNat, hi, if_true]
  exact (decide_eq_true (show i < 64 by omega)).symm ▸ Bool.true_and _

theorem decode_signExtended (v : Int32) (rest : Bytes) :
    readVarint32 (signExtended v ++ rest) = ⟨true, v.toInt64.toUInt64.toUInt32, rest⟩ := by
  have hlt := v.toInt64.toUInt64.toNat_lt
  exact readVarint32_of_decode (Varint.decode_encode 9 _ rest (by omega))

theorem serializeTimestamp_roundTrip (t : UInt64) :
    mergeTimestamp (serializeTimestamp t) 0 = (t, .success true) := by
  by_cases h : t = 0
  · simp [serializeTimestamp, h, mergeTimestamp]
  · have hlt : t.toNat < 2 ^ (7 * (9 + 1)) := by have := t.toNat_lt; omega
    have hd := Varint.decode_encode 9 t.toNat [] hlt
    rw [List.append_nil] at hd
    rw [serializeTimestamp, if_neg h, mergeTimestamp, hd]
    simp

theorem readMessage_sound {M : Type} {merge : Bytes → M → M × MergeEnd} {input rest : Bytes}
    {m m' : M} (h : readMessage merge input m = (m', some rest)) :
    rest.length ≤ input.length ∧ ∃ body, merge body m = (m', .success true) := by
  simp only [readMessage] at h
  split at h
  · rename_i hv
    have hlt := readVarint32_shortens hv.1
    simp only [Prod.mk.injEq, Option.ite_none_right_eq_some, Option.some.injEq] at h
    obtain ⟨hm, hend, rfl⟩ := h
    refine ⟨?_, _, Prod.ext hm hend⟩
    rw [List.length_drop]
    omega
  · simp at h

end Reference

/-- `reference` with the further calls. -/
def bookReference : Library UInt64 where
  toRuntime := reference
  writeInt32 := Reference.writeInt32
  int32Size := Reference.int32Size
  writeEnum := Reference.writeInt32
  enumSize := Reference.int32Size
  readMessage := Reference.readMessage
  writeMessage := Reference.writeMessage
  messageSize := Reference.messageSize
  timestamp := 0
  mergeTimestamp := Reference.mergeTimestamp
  serializeTimestamp := Reference.serializeTimestamp
  timestampSize t := (Reference.serializeTimestamp t).length
  secondsToTimestamp n := UInt64.ofInt n
  sizeLimit := 2 ^ 31 - 1

open Assignment.Reference in
theorem bookReference_number :
    bookReference.NumberField Reference.writeInt32 Reference.int32Size where
  roundTrip field v rest h1 h15 := by
    refine ⟨Reference.signExtended v ++ rest, ?_, ?_⟩
    · change readTag (writeTag field 0 ++ Reference.signExtended v ++ rest) = _
      rw [List.append_assoc, readTag_writeTag h1 h15 (by omega)]
      rfl
    · have hread : bookReference.readVarint32 (Reference.signExtended v ++ rest) = _ :=
        Reference.decode_signExtended v rest
      simp only [readInt32, hread, if_true, Reference.truncate_signExtend]
  length field v h1 h15 := by
    rw [Reference.writeInt32, List.length_append, writeTag_length h1 h15 (by omega)]
    rfl

open Assignment.Reference in
theorem bookReference_documented : bookReference.Documented where
  toDocumented := reference_documented
  int32 := bookReference_number
  enum := bookReference_number
  message_roundTrip merge field body rest m h1 h15 hbody := by
    have hn : (UInt32.ofNat body.length).toNat = body.length := toNat_ofNat (by omega)
    refine ⟨writeVarint32 (UInt32.ofNat body.length) ++ body ++ rest, ?_, ?_⟩
    · change readTag (writeTag field 2 ++ (writeVarint32 (UInt32.ofNat body.length) ++ body)
        ++ rest) = _
      rw [List.append_assoc, readTag_writeTag h1 h15 (by omega)]
      rfl
    · change Reference.readMessage merge _ m = _
      rw [Reference.readMessage, List.append_assoc, varint_roundTrip]
      simp only [hn, true_and, if_pos hbody, List.take_left, List.drop_left]
  message_sound merge input m m' rest h := Reference.readMessage_sound h
  message_size field body h1 h15 _ := by
    change (writeTag field 2 ++ (writeVarint32 (UInt32.ofNat body.length) ++ body)).length = _
    rw [List.length_append, writeTag_length h1 h15 (by omega), List.length_append]
    rfl
  message_size_gt n := by
    have hpos := List.length_pos_iff.mpr (Varint.encode_ne_nil 4 (UInt32.ofNat n).toNat)
    change n < (writeVarint32 (UInt32.ofNat n)).length + n
    rw [writeVarint32]
    omega
  timestamp_roundTrip := Reference.serializeTimestamp_roundTrip
  timestamp_size _ := rfl
  size_limit := by decide

end Assignment.ProtoBuff
