import Assignment.Merge

/-!
# `log_packet` (message.proto, message.pb.cc)

The message with its generated parser, serialiser and size. The fields are
bytes, not text: `set_log_msg` and `ReadString` take any `std::string`, and
only the parser rejects one that is not UTF-8.
-/

namespace Assignment.Socket

/-- `message log_packet { string log_msg = 1; }` -/
structure LogPacket where
  logMsg : Bytes := []
  unknownFields : Bytes := []
deriving DecidableEq, Repr

namespace LogPacket

def logMsgSlot : Slot LogPacket Bytes where
  get m := m.logMsg
  set s m := { m with logMsg := s }

def unknownSlot : Slot LogPacket Bytes where
  get m := m.unknownFields
  set s m := { m with unknownFields := s }

/-- The `switch` of `log_packet::MergePartialFromCodedStream`. -/
def generated (rt : Runtime) : Generated LogPacket where
  field tag :=
    if tag >>> 3 = 1 then
      if tag.toUInt8 = 10 then some (readText rt logMsgSlot) else none
    else none
  unknownFields := unknownSlot

/-- `log_packet::MergePartialFromCodedStream` -/
def mergePartialFromCodedStream (rt : Runtime) (input : Bytes) (m : LogPacket) :
    LogPacket × MergeEnd :=
  mergeFrom rt (generated rt) input m

/-- `ParseFromCodedStream` into a fresh message: the message, with whatever
a failed parse has read so far, and the returned flag. -/
def parseFromCodedStream (rt : Runtime) (input : Bytes) : LogPacket × Bool :=
  let r := mergePartialFromCodedStream rt input {}
  (r.1, decide (r.2 ≠ .failure))

/-- `log_packet::SerializeWithCachedSizes` -/
def serializeWithCachedSizes (rt : Runtime) (m : LogPacket) : Bytes :=
  (if m.logMsg.length > 0 then rt.writeString 1 m.logMsg else [])
    ++ writeUnknownFields rt m.unknownFields

/-- `log_packet::ByteSizeLong` -/
def byteSizeLong (rt : Runtime) (m : LogPacket) : Nat :=
  (writeUnknownFields rt m.unknownFields).length
    + (if m.logMsg.length > 0 then 1 + rt.stringSize m.logMsg else 0)

/-- `log_packet::MergeFrom` -/
protected def mergeFrom (m source : LogPacket) : LogPacket :=
  let m := { m with unknownFields := m.unknownFields ++ source.unknownFields }
  mergeString logMsgSlot source.logMsg m

/-- A packet built by `set_log_msg` from text. -/
structure Text (rt : Runtime) (m : LogPacket) : Prop where
  utf8 : rt.verifyUtf8String m.logMsg = true
  noUnknown : m.unknownFields = []

section
variable {rt : Runtime}

theorem generated_forward (hrt : rt.Documented) : (generated rt).Forward where
  field_zero := rfl
  field_le := by
    intro tag read h input m m' rest hread
    simp only [generated, Option.ite_none_right_eq_some, Option.some.injEq] at h
    obtain ⟨-, -, rfl⟩ := h
    exact readText_le hrt hread

theorem generated_logMsg :
    (generated rt).field (lengthDelimitedTag 1) = some (readText rt logMsgSlot) := rfl

/-- The text is never longer than the packet. -/
theorem logMsg_length_le (hrt : rt.Documented) (m : LogPacket) :
    m.logMsg.length ≤ byteSizeLong rt m := by
  have hgt := hrt.string_size_gt m.logMsg
  by_cases h : m.logMsg.length > 0
  · simp only [byteSizeLong, if_pos h]
    omega
  · omega

/-- `ByteSizeLong` announces what `SerializeWithCachedSizes` writes. -/
theorem byteSizeLong_eq (hrt : rt.Documented) (m : LogPacket)
    (hm : byteSizeLong rt m < 2 ^ 31) :
    (serializeWithCachedSizes rt m).length = byteSizeLong rt m := by
  have hlen := logMsg_length_le hrt m
  rw [serializeWithCachedSizes, byteSizeLong, List.length_append,
    text_length hrt (by omega) (by omega) (by omega), Nat.add_comm]

/-- **The codec round trip**: a serialised text packet parses as itself. -/
theorem parse_serialize (hrt : rt.Documented) {m : LogPacket} (ht : Text rt m)
    (hm : byteSizeLong rt m < 2 ^ 31) :
    parseFromCodedStream rt (serializeWithCachedSizes rt m) = (m, true) := by
  have hlen := logMsg_length_le hrt m
  have hmerge : mergeFrom rt (generated rt) (serializeWithCachedSizes rt m) {}
      = (m, .success true) := by
    rw [serializeWithCachedSizes, writeUnknownFields_eq hrt, ht.noUnknown,
      mergeFrom_text hrt (generated_forward hrt) (by omega) (by omega) generated_logMsg (by omega)
        _ rfl, if_pos ht.utf8, mergeFrom_nil hrt]
    cases m
    simp only [logMsgSlot, ← ht.noUnknown]
  simp [parseFromCodedStream, mergePartialFromCodedStream, hmerge]

/-- Parsing a packet into another one merges the two. -/
theorem mergeFrom_serialize (hrt : rt.Documented) {source : LogPacket}
    (hsize : byteSizeLong rt source < 2 ^ 31)
    (hstored : UnknownFields rt (generated rt) source.unknownFields)
    (htext : rt.verifyUtf8String source.logMsg = true) (m : LogPacket) :
    mergePartialFromCodedStream rt (serializeWithCachedSizes rt source) m
      = (m.mergeFrom source, .success true) := by
  have hlen := logMsg_length_le hrt source
  have hforward := generated_forward hrt
  rw [mergePartialFromCodedStream, serializeWithCachedSizes,
    mergeFrom_mergeString hrt hforward (by omega) (by omega) generated_logMsg (by omega) htext,
    writeUnknownFields_eq hrt, ← List.append_nil source.unknownFields,
    mergeFrom_unknownFields hrt hforward hstored, mergeFrom_nil hrt]
  simp only [LogPacket.mergeFrom, mergeString]
  split <;> rfl

end

end LogPacket

end Assignment.Socket
