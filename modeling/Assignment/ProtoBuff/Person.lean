import Assignment.ProtoBuff.Fields

/-!
# `Person` and its phone numbers (addressbook.proto, addressbook.pb.cc)

The two messages with their generated parsers, serialisers and sizes. A
serialised person parses as itself when its strings are valid UTF-8, and
does not parse when one of them is not: `SerializeWithCachedSizes` only
logs what `MergePartialFromCodedStream` refuses.
-/

namespace Assignment.ProtoBuff

/-- `enum PhoneType` -/
inductive PhoneType
  | mobile
  | home
  | work
deriving DecidableEq, Repr

def PhoneType.number : PhoneType → Int32
  | mobile => 0
  | home => 1
  | work => 2

/-- `message PhoneNumber`. The type is any number: proto3 enums are open. -/
structure PhoneNumber where
  number : Bytes := []
  type : Int32 := PhoneType.mobile.number
  unknownFields : Bytes := []
deriving DecidableEq, Repr

namespace PhoneNumber

def numberSlot : Slot PhoneNumber Bytes where
  get n := n.number
  set s n := { n with number := s }

def typeSlot : Slot PhoneNumber Int32 where
  get n := n.type
  set v n := { n with type := v }

def unknownSlot : Slot PhoneNumber Bytes where
  get n := n.unknownFields
  set s n := { n with unknownFields := s }

/-- The `switch` of `Person_PhoneNumber::MergePartialFromCodedStream`. -/
def generated (rt : Runtime) : Generated PhoneNumber where
  field tag :=
    if tag >>> 3 = 1 then
      if tag.toUInt8 = 10 then some (readText rt numberSlot) else none
    else if tag >>> 3 = 2 then
      if tag.toUInt8 = 16 then some (readNumber rt typeSlot) else none
    else none
  unknownFields := unknownSlot

variable {T : Type}

/-- `Person_PhoneNumber::MergePartialFromCodedStream` -/
def mergePartialFromCodedStream (rt : Runtime) (input : Bytes) (n : PhoneNumber) :
    PhoneNumber × MergeEnd :=
  mergeFrom rt (generated rt) input n

/-- `Person_PhoneNumber::SerializeWithCachedSizes` -/
def serializeWithCachedSizes (lib : Library T) (n : PhoneNumber) : Bytes :=
  (if n.number.length > 0 then lib.writeString 1 n.number else [])
    ++ ((if n.type ≠ 0 then lib.writeEnum 2 n.type else [])
    ++ writeUnknownFields lib.toRuntime n.unknownFields)

/-- `Person_PhoneNumber::ByteSizeLong` -/
def byteSizeLong (lib : Library T) (n : PhoneNumber) : Nat :=
  (writeUnknownFields lib.toRuntime n.unknownFields).length
    + (if n.number.length > 0 then 1 + lib.stringSize n.number else 0)
    + (if n.type ≠ 0 then 1 + lib.enumSize n.type else 0)

/-- The unknown fields are such as parsing leaves. -/
def Stored (rt : Runtime) (n : PhoneNumber) : Prop :=
  UnknownFields rt (generated rt) n.unknownFields

/-- The number is valid UTF-8. -/
def Text (rt : Runtime) (n : PhoneNumber) : Prop := rt.verifyUtf8String n.number = true

instance (rt : Runtime) (n : PhoneNumber) : Decidable (n.Text rt) :=
  inferInstanceAs (Decidable (_ = _))

section
variable {lib : Library T} (hlib : lib.Documented)
include hlib

theorem generated_forward : (generated lib.toRuntime).Forward where
  field_zero := rfl
  field_le := by
    intro tag read h input n n' rest hread
    simp only [generated] at h
    split at h
    · obtain ⟨-, hr⟩ := Option.ite_none_right_eq_some.mp h
      cases hr
      exact readText_le hlib.toDocumented hread
    · split at h
      · obtain ⟨-, hr⟩ := Option.ite_none_right_eq_some.mp h
        cases hr
        exact readNumber_le hlib hread
      · cases h

theorem number_length_le (n : PhoneNumber) : n.number.length ≤ byteSizeLong lib n := by
  have hgt := hlib.string_size_gt n.number
  by_cases h : n.number.length > 0
  · simp only [byteSizeLong, if_pos h]
    omega
  · omega

/-- `ByteSizeLong` counts what is written. -/
theorem serialize_length {n : PhoneNumber} (hn : byteSizeLong lib n < 2 ^ 31) :
    (serializeWithCachedSizes lib n).length = byteSizeLong lib n := by
  have hlen := number_length_le hlib n
  rw [serializeWithCachedSizes, byteSizeLong, List.length_append, List.length_append,
    text_length hlib.toDocumented (by omega) (by omega) (by omega),
    number_length (by omega) (by omega) hlib.enum]
  omega

omit hlib in
theorem generated_number : (generated lib.toRuntime).field (lengthDelimitedTag 1)
    = some (readText lib.toRuntime numberSlot) := rfl

omit hlib in
theorem generated_type : (generated lib.toRuntime).field (varintTag 2)
    = some (readNumber lib.toRuntime typeSlot) := rfl

/-- A serialised phone number parses as itself, or not at all. -/
theorem merge_serialize {n : PhoneNumber} (hn : byteSizeLong lib n < 2 ^ 31)
    (hstored : Stored lib.toRuntime n) :
    mergePartialFromCodedStream lib.toRuntime (serializeWithCachedSizes lib n) {}
      = if lib.verifyUtf8String n.number then (n, .success true)
        else ({ number := n.number }, .failure) := by
  have hlen := number_length_le hlib n
  have hforward := generated_forward hlib
  rw [mergePartialFromCodedStream, serializeWithCachedSizes,
    mergeFrom_text hlib.toDocumented hforward (by omega) (by omega) generated_number (by omega) _
      rfl,
    mergeFrom_number hlib hforward (by omega) (by omega) hlib.enum generated_type _ _ rfl,
    writeUnknownFields_eq hlib.toDocumented, ← List.append_nil n.unknownFields,
    mergeFrom_unknownFields hlib.toDocumented hforward hstored, mergeFrom_nil hlib.toDocumented]
  rfl

theorem parses {n : PhoneNumber} (hn : byteSizeLong lib n < 2 ^ 31)
    (hstored : Stored lib.toRuntime n) (htext : Text lib.toRuntime n) :
    mergePartialFromCodedStream lib.toRuntime (serializeWithCachedSizes lib n) {}
      = (n, .success true) :=
  (merge_serialize hlib hn hstored).trans (if_pos htext)

/-- Whatever parses is valid. -/
theorem valid_of_parse {input : Bytes} {n : PhoneNumber}
    (h : mergePartialFromCodedStream lib.toRuntime input {} = (n, .success true)) :
    Stored lib.toRuntime n ∧ Text lib.toRuntime n := by
  have hnew : Stored lib.toRuntime {} ∧ Text lib.toRuntime {} := ⟨.nil, hlib.utf8_empty⟩
  refine mergeFrom_invariant hlib.toDocumented (generated_forward hlib)
    (fun n => Stored lib.toRuntime n ∧ Text lib.toRuntime n) ?_ hnew h
  intro input n n' rest ⟨hstored, htext⟩ hturn
  rcases mergeTurn_more hlib.toDocumented hturn with
    ⟨tag, read, payload, hread, hn'⟩ | ⟨field, hfield, rfl⟩
  · simp only [generated] at hread
    split at hread
    · obtain ⟨-, hr⟩ := Option.ite_none_right_eq_some.mp hread
      cases hr
      obtain ⟨s, rfl, hutf⟩ := readText_valid hn'
      exact ⟨hstored, hutf⟩
    · split at hread
      · obtain ⟨-, hr⟩ := Option.ite_none_right_eq_some.mp hread
        cases hr
        obtain ⟨v, rfl⟩ := readNumber_sound hn'
        exact ⟨hstored, htext⟩
      · cases hread
  · exact ⟨.append hstored hfield, htext⟩

end

end PhoneNumber

/-- `message Person` -/
structure Person (T : Type) where
  name : Bytes := []
  id : Int32 := 0
  email : Bytes := []
  phones : List PhoneNumber := []
  lastUpdated : Option T := none
  unknownFields : Bytes := []
deriving DecidableEq, Repr

namespace Person

variable {T : Type}

def nameSlot : Slot (Person T) Bytes where
  get p := p.name
  set s p := { p with name := s }

def idSlot : Slot (Person T) Int32 where
  get p := p.id
  set v p := { p with id := v }

def emailSlot : Slot (Person T) Bytes where
  get p := p.email
  set s p := { p with email := s }

def phonesSlot : Slot (Person T) (List PhoneNumber) where
  get p := p.phones
  set ns p := { p with phones := ns }

def unknownSlot : Slot (Person T) Bytes where
  get p := p.unknownFields
  set s p := { p with unknownFields := s }

/-- `ReadMessage(input, mutable_last_updated())` -/
def readLastUpdated (lib : Library T) : Bytes → Person T → Person T × Option Bytes :=
  readSub lib lib.mergeTimestamp (fun p => p.lastUpdated.getD lib.timestamp)
    fun t p => { p with lastUpdated := some t }

/-- The `switch` of `Person::MergePartialFromCodedStream`. -/
def generated (lib : Library T) : Generated (Person T) where
  field tag :=
    if tag >>> 3 = 1 then
      if tag.toUInt8 = 10 then some (readText lib.toRuntime nameSlot) else none
    else if tag >>> 3 = 2 then
      if tag.toUInt8 = 16 then some (readNumber lib.toRuntime idSlot) else none
    else if tag >>> 3 = 3 then
      if tag.toUInt8 = 26 then some (readText lib.toRuntime emailSlot) else none
    else if tag >>> 3 = 4 then
      if tag.toUInt8 = 34 then
        some (readElement lib (PhoneNumber.mergePartialFromCodedStream lib.toRuntime) {} phonesSlot)
      else none
    else if tag >>> 3 = 5 then
      if tag.toUInt8 = 42 then some (readLastUpdated lib) else none
    else none
  unknownFields := unknownSlot

/-- `Person::MergePartialFromCodedStream` -/
def mergePartialFromCodedStream (lib : Library T) (input : Bytes) (p : Person T) :
    Person T × MergeEnd :=
  mergeFrom lib.toRuntime (generated lib) input p

/-- The bytes of the field `last_updated`, if it is set. -/
def writeLastUpdated (lib : Library T) : Option T → Bytes
  | some t => lib.writeMessage 5 (lib.timestampSize t) (lib.serializeTimestamp t)
  | none => []

/-- `Person::SerializeWithCachedSizes` -/
def serializeWithCachedSizes (lib : Library T) (p : Person T) : Bytes :=
  (if p.name.length > 0 then lib.writeString 1 p.name else [])
    ++ ((if p.id ≠ 0 then lib.writeInt32 2 p.id else [])
    ++ ((if p.email.length > 0 then lib.writeString 3 p.email else [])
    ++ (writeElements lib 4 (PhoneNumber.byteSizeLong lib)
        (PhoneNumber.serializeWithCachedSizes lib) p.phones
    ++ (writeLastUpdated lib p.lastUpdated
    ++ writeUnknownFields lib.toRuntime p.unknownFields))))

/-- `Person::ByteSizeLong` -/
def byteSizeLong (lib : Library T) (p : Person T) : Nat :=
  (writeUnknownFields lib.toRuntime p.unknownFields).length
    + elementsSize lib (PhoneNumber.byteSizeLong lib) p.phones
    + (if p.name.length > 0 then 1 + lib.stringSize p.name else 0)
    + (if p.email.length > 0 then 1 + lib.stringSize p.email else 0)
    + (match p.lastUpdated with
      | some t => 1 + lib.messageSize (lib.timestampSize t)
      | none => 0)
    + (if p.id ≠ 0 then 1 + lib.int32Size p.id else 0)

/-- The unknown fields, also those of the phones, are such as parsing leaves. -/
def Stored (lib : Library T) (p : Person T) : Prop :=
  UnknownFields lib.toRuntime (generated lib) p.unknownFields
    ∧ ∀ n ∈ p.phones, n.Stored lib.toRuntime

/-- All strings are valid UTF-8. -/
def Text (rt : Runtime) (p : Person T) : Prop :=
  rt.verifyUtf8String p.name = true ∧ rt.verifyUtf8String p.email = true
    ∧ ∀ n ∈ p.phones, n.Text rt

instance (rt : Runtime) (p : Person T) : Decidable (p.Text rt) :=
  inferInstanceAs (Decidable (_ ∧ _ ∧ _))

/-- The id that is read back: the name comes before it, and an invalid name
ends the parse. -/
def storedId (rt : Runtime) (name : Bytes) (id : Int32) : Int32 :=
  if rt.verifyUtf8String name = true then id else 0

section
variable {lib : Library T} (hlib : lib.Documented)
include hlib

theorem generated_forward : (generated lib).Forward where
  field_zero := rfl
  field_le := by
    intro tag read h input p p' rest hread
    simp only [generated] at h
    repeat' split at h
    all_goals cases h
    · exact readText_le hlib.toDocumented hread
    · exact readNumber_le hlib hread
    · exact readText_le hlib.toDocumented hread
    · exact readSub_le hlib hread
    · exact readSub_le hlib hread

/-- No part is larger than the person. -/
theorem parts_lt {p : Person T} (hp : byteSizeLong lib p < 2 ^ 31) :
    p.name.length < 2 ^ 31 ∧ p.email.length < 2 ^ 31
      ∧ (∀ n ∈ p.phones, n.byteSizeLong lib < 2 ^ 31)
      ∧ ∀ t, p.lastUpdated = some t → lib.timestampSize t < 2 ^ 31 := by
  have hname := hlib.string_size_gt p.name
  have hemail := hlib.string_size_gt p.email
  rw [byteSizeLong] at hp
  refine ⟨?_, ?_, fun n hn => ?_, fun t ht => ?_⟩
  · split at hp <;> omega
  · split at hp <;> split at hp <;> omega
  · have hlt := size_lt_elementsSize hlib (PhoneNumber.byteSizeLong lib) hn
    omega
  · have hgt := hlib.message_size_gt (lib.timestampSize t)
    rw [ht] at hp
    simp only at hp
    omega

theorem phones_length {p : Person T} (hp : byteSizeLong lib p < 2 ^ 31) : ∀ n ∈ p.phones,
    (n.serializeWithCachedSizes lib).length = n.byteSizeLong lib ∧ n.byteSizeLong lib < 2 ^ 31 := by
  intro n hn
  have hlt := (parts_lt hlib hp).2.2.1 n hn
  exact ⟨PhoneNumber.serialize_length hlib hlt, hlt⟩

/-- `ByteSizeLong` counts what is written. -/
theorem serialize_length {p : Person T} (hp : byteSizeLong lib p < 2 ^ 31) :
    (serializeWithCachedSizes lib p).length = byteSizeLong lib p := by
  obtain ⟨hname, hemail, -, hstamp⟩ := parts_lt hlib hp
  have hwstamp : (writeLastUpdated lib p.lastUpdated).length
      = match p.lastUpdated with
        | some t => 1 + lib.messageSize (lib.timestampSize t)
        | none => 0 := by
    cases ht : p.lastUpdated with
    | none => rfl
    | some t =>
        have hlen := hlib.timestamp_size t
        have hlt := hstamp t ht
        change _ = 1 + lib.messageSize (lib.timestampSize t)
        rw [writeLastUpdated, ← hlen, hlib.message_size 5 _ (by omega) (by omega) (by omega)]
  simp only [serializeWithCachedSizes, byteSizeLong, List.length_append, hwstamp,
    text_length hlib.toDocumented (show 1 ≤ 1 by omega) (by omega) hname,
    text_length hlib.toDocumented (show 1 ≤ 3 by omega) (by omega) hemail,
    number_length (show 1 ≤ 2 by omega) (by omega) hlib.int32,
    writeElements_length hlib (show 1 ≤ 4 by omega) (by omega) (phones_length hlib hp)]
  omega

omit hlib in
theorem generated_name : (generated lib).field (lengthDelimitedTag 1)
    = some (readText lib.toRuntime nameSlot) := rfl

omit hlib in
theorem generated_id : (generated lib).field (varintTag 2)
    = some (readNumber lib.toRuntime idSlot) := rfl

omit hlib in
theorem generated_email : (generated lib).field (lengthDelimitedTag 3)
    = some (readText lib.toRuntime emailSlot) := rfl

omit hlib in
theorem generated_phones : (generated lib).field (lengthDelimitedTag 4)
    = some (readElement lib (PhoneNumber.mergePartialFromCodedStream lib.toRuntime) {}
        phonesSlot) := rfl

omit hlib in
theorem generated_lastUpdated : (generated lib).field (lengthDelimitedTag 5)
    = some (readLastUpdated lib) := rfl

theorem mergeFrom_lastUpdated {stamp : Option T}
    (hstamp : ∀ t, stamp = some t → lib.timestampSize t < 2 ^ 31) (rest : Bytes) {p : Person T}
    (hp : p.lastUpdated = none) :
    mergeFrom lib.toRuntime (generated lib) (writeLastUpdated lib stamp ++ rest) p
      = mergeFrom lib.toRuntime (generated lib) rest { p with lastUpdated := stamp } := by
  cases stamp with
  | none => rw [writeLastUpdated, List.nil_append, ← hp]
  | some t =>
      have hlen := hlib.timestamp_size t
      have hlt := hstamp t rfl
      have hget : p.lastUpdated.getD lib.timestamp = lib.timestamp := by rw [hp]; rfl
      rw [writeLastUpdated, ← hlen, mergeFrom_sub hlib (generated_forward hlib) (by omega)
        (by omega) generated_lastUpdated (by omega)]
      simp only [hget, hlib.timestamp_roundTrip, if_true]

/-- **The codec round trip**: a serialised person with valid text parses as
itself. -/
theorem parses {p : Person T} (hp : byteSizeLong lib p < 2 ^ 31) (hstored : Stored lib p)
    (htext : Text lib.toRuntime p) :
    mergePartialFromCodedStream lib (serializeWithCachedSizes lib p) {} = (p, .success true) := by
  obtain ⟨hname, hemail, hphones, hstamp⟩ := parts_lt hlib hp
  have hforward := generated_forward hlib
  have hns : ∀ n ∈ p.phones, PhoneNumber.mergePartialFromCodedStream lib.toRuntime
      (n.serializeWithCachedSizes lib) {} = (n, .success true) := fun n hn =>
    PhoneNumber.parses hlib (hphones n hn) (hstored.2 n hn) (htext.2.2 n hn)
  rw [mergePartialFromCodedStream, serializeWithCachedSizes,
    mergeFrom_text hlib.toDocumented hforward (by omega) (by omega) generated_name hname _ rfl,
    if_pos htext.1,
    mergeFrom_number hlib hforward (by omega) (by omega) hlib.int32 generated_id _ _ rfl,
    mergeFrom_text hlib.toDocumented hforward (by omega) (by omega) generated_email hemail _ rfl,
    if_pos htext.2.1,
    mergeFrom_elements hlib hforward (by omega) (by omega) generated_phones
      (phones_length hlib hp) hns,
    mergeFrom_lastUpdated hlib hstamp _ rfl, writeUnknownFields_eq hlib.toDocumented,
    ← List.append_nil p.unknownFields,
    mergeFrom_unknownFields hlib.toDocumented hforward hstored.1, mergeFrom_nil hlib.toDocumented]
  rfl

/-- **The first string that is not valid UTF-8 fails the parse**, which keeps
the fields up to it. -/
theorem cut {p : Person T} (hp : byteSizeLong lib p < 2 ^ 31) (hstored : Stored lib p)
    (htext : ¬ Text lib.toRuntime p) :
    ∃ p', mergePartialFromCodedStream lib (serializeWithCachedSizes lib p) {} = (p', .failure)
      ∧ Stored lib p' ∧ p'.name = p.name ∧ p'.id = storedId lib.toRuntime p.name p.id := by
  obtain ⟨hname, hemail, hphones, -⟩ := parts_lt hlib hp
  have hforward := generated_forward hlib
  rw [mergePartialFromCodedStream, serializeWithCachedSizes,
    mergeFrom_text hlib.toDocumented hforward (by omega) (by omega) generated_name hname _ rfl]
  by_cases hutfName : lib.verifyUtf8String p.name = true
  · rw [if_pos hutfName, storedId, if_pos hutfName,
      mergeFrom_number hlib hforward (by omega) (by omega) hlib.int32 generated_id _ _ rfl,
      mergeFrom_text hlib.toDocumented hforward (by omega) (by omega) generated_email hemail _ rfl]
    by_cases hutfEmail : lib.verifyUtf8String p.email = true
    · have hbad : ∃ n ∈ p.phones, ¬ n.Text lib.toRuntime := by
        by_contra hall
        push Not at hall
        exact htext ⟨hutfName, hutfEmail, hall⟩
      obtain ⟨good, n, more, hsplit, hgood, hn⟩ := Buffer.cut_at_first hbad
      have hmem : ∀ n' ∈ good ++ n :: more, n' ∈ p.phones := by simp [hsplit]
      have hgoodMem : ∀ n' ∈ good, n' ∈ p.phones := fun n' hn' =>
        hmem n' (List.mem_append_left _ hn')
      have hmerge := PhoneNumber.merge_serialize hlib (hphones n (hmem n (by simp)))
        (hstored.2 n (hmem n (by simp)))
      rw [if_neg (show ¬ lib.verifyUtf8String n.number = true from hn)] at hmerge
      rw [if_pos hutfEmail, hsplit,
        mergeFrom_elements_cut hlib hforward (by omega) (by omega) generated_phones
          (fun n' hn' => phones_length hlib hp n' (hmem n' hn'))
          (fun n' hn' => PhoneNumber.parses hlib (hphones n' (hgoodMem n' hn'))
            (hstored.2 n' (hgoodMem n' hn')) (hgood n' hn'))
          (by simp [hmerge]), hmerge]
      refine ⟨_, rfl, ⟨.nil, ?_⟩, rfl, rfl⟩
      exact List.forall_mem_append.mpr ⟨fun n' hn' => hstored.2 n' (hgoodMem n' hn'),
        List.forall_mem_singleton.mpr .nil⟩
    · rw [if_neg hutfEmail]
      exact ⟨_, rfl, ⟨.nil, by simp [emailSlot, idSlot, nameSlot]⟩, rfl, rfl⟩
  · rw [if_neg hutfName, storedId, if_neg hutfName]
    exact ⟨_, rfl, ⟨.nil, by simp [nameSlot]⟩, rfl, rfl⟩

/-- Whatever parses is valid. -/
theorem valid_of_parse {input : Bytes} {p : Person T}
    (h : mergePartialFromCodedStream lib input {} = (p, .success true)) :
    Stored lib p ∧ Text lib.toRuntime p := by
  have hnew : Stored lib {} ∧ Text lib.toRuntime ({} : Person T) :=
    ⟨⟨.nil, by simp⟩, hlib.utf8_empty, hlib.utf8_empty, by simp⟩
  refine mergeFrom_invariant hlib.toDocumented (generated_forward hlib)
    (fun p => Stored lib p ∧ Text lib.toRuntime p) ?_ hnew h
  intro input p p' rest ⟨hstored, htext⟩ hturn
  rcases mergeTurn_more hlib.toDocumented hturn with
    ⟨tag, read, payload, hread, hp'⟩ | ⟨field, hfield, rfl⟩
  · simp only [generated] at hread
    repeat' split at hread
    all_goals cases hread
    · obtain ⟨s, rfl, hutf⟩ := readText_valid hp'
      exact ⟨hstored, hutf, htext.2⟩
    · obtain ⟨v, rfl⟩ := readNumber_sound hp'
      exact ⟨hstored, htext⟩
    · obtain ⟨s, rfl, hutf⟩ := readText_valid hp'
      exact ⟨hstored, htext.1, hutf, htext.2.2⟩
    · -- a phone number joins the list only when its own bytes parse
      obtain ⟨body, n, hbody, rfl⟩ := readSub_sound hlib hp'
      obtain ⟨hnstored, hntext⟩ := PhoneNumber.valid_of_parse hlib hbody
      refine ⟨⟨hstored.1, ?_⟩, htext.1, htext.2.1, ?_⟩
      · exact List.forall_mem_append.mpr ⟨hstored.2, List.forall_mem_singleton.mpr hnstored⟩
      · exact List.forall_mem_append.mpr ⟨htext.2.2, List.forall_mem_singleton.mpr hntext⟩
    · obtain ⟨body, t, -, rfl⟩ := readSub_sound hlib hp'
      exact ⟨hstored, htext⟩
  · exact ⟨⟨.append hstored.1 hfield, hstored.2⟩, htext⟩

end

end Person

end Assignment.ProtoBuff
