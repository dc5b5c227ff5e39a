import Assignment.ProtoBuff.Person

/-!
# `AddressBook` (addressbook.proto, addressbook.pb.cc)

The message that an address book file holds. A book parses back from the
bytes it serialises to exactly when all its strings are valid UTF-8
(`parses`, `fails`), and whatever parses is such a book (`valid_of_parse`).
-/

namespace Assignment.ProtoBuff

/-- `message AddressBook` -/
structure AddressBook (T : Type) where
  people : List (Person T) := []
  unknownFields : Bytes := []
deriving DecidableEq, Repr

namespace AddressBook

variable {T : Type}

def peopleSlot : Slot (AddressBook T) (List (Person T)) where
  get b := b.people
  set ps b := { b with people := ps }

def unknownSlot : Slot (AddressBook T) Bytes where
  get b := b.unknownFields
  set s b := { b with unknownFields := s }

/-- The `switch` of `AddressBook::MergePartialFromCodedStream`. -/
def generated (lib : Library T) : Generated (AddressBook T) where
  field tag :=
    if tag >>> 3 = 1 then
      if tag.toUInt8 = 10 then
        some (readElement lib (Person.mergePartialFromCodedStream lib) {} peopleSlot)
      else none
    else none
  unknownFields := unknownSlot

/-- `AddressBook::MergePartialFromCodedStream` -/
def mergePartialFromCodedStream (lib : Library T) (input : Bytes) (b : AddressBook T) :
    AddressBook T × MergeEnd :=
  mergeFrom lib.toRuntime (generated lib) input b

/-- `ParseFromIstream` into a fresh message: the message, with whatever a
failed parse has read so far, and the returned flag. -/
def parseFromIstream (lib : Library T) (file : Bytes) : AddressBook T × Bool :=
  let r := mergePartialFromCodedStream lib file {}
  (r.1, decide (r.2 = .success true))

/-- `AddressBook::SerializeWithCachedSizes` -/
def serializeWithCachedSizes (lib : Library T) (b : AddressBook T) : Bytes :=
  writeElements lib 1 (Person.byteSizeLong lib) (Person.serializeWithCachedSizes lib) b.people
    ++ writeUnknownFields lib.toRuntime b.unknownFields

/-- `AddressBook::ByteSizeLong` -/
def byteSizeLong (lib : Library T) (b : AddressBook T) : Nat :=
  (writeUnknownFields lib.toRuntime b.unknownFields).length
    + elementsSize lib (Person.byteSizeLong lib) b.people

/-- The unknown fields, at every level, are such as parsing leaves. -/
def Stored (lib : Library T) (b : AddressBook T) : Prop :=
  UnknownFields lib.toRuntime (generated lib) b.unknownFields ∧ ∀ p ∈ b.people, p.Stored lib

/-- All strings are valid UTF-8. -/
def Text (rt : Runtime) (b : AddressBook T) : Prop := ∀ p ∈ b.people, p.Text rt

section
variable {lib : Library T} (hlib : lib.Documented)
include hlib

theorem generated_forward : (generated lib).Forward where
  field_zero := rfl
  field_le := by
    intro tag read h input b b' rest hread
    simp only [generated] at h
    repeat' split at h
    all_goals cases h
    exact readSub_le hlib hread

omit hlib in
theorem generated_people : (generated lib).field (lengthDelimitedTag 1)
    = some (readElement lib (Person.mergePartialFromCodedStream lib) {} peopleSlot) := rfl

theorem people_length {b : AddressBook T} (hb : byteSizeLong lib b < 2 ^ 31) : ∀ p ∈ b.people,
    (p.serializeWithCachedSizes lib).length = p.byteSizeLong lib ∧ p.byteSizeLong lib < 2 ^ 31 := by
  intro p hp
  have hlt := size_lt_elementsSize hlib (Person.byteSizeLong lib) hp
  rw [byteSizeLong] at hb
  exact ⟨Person.serialize_length hlib (by omega), by omega⟩

/-- **The file round trip**: a serialised book with valid text parses as
itself. -/
theorem parses {b : AddressBook T} (hb : byteSizeLong lib b < 2 ^ 31) (hstored : Stored lib b)
    (htext : Text lib.toRuntime b) :
    parseFromIstream lib (serializeWithCachedSizes lib b) = (b, true) := by
  have hforward := generated_forward hlib
  have hsize := people_length hlib hb
  have hps : ∀ p ∈ b.people, Person.mergePartialFromCodedStream lib
      (p.serializeWithCachedSizes lib) {} = (p, .success true) := fun p hp =>
    Person.parses hlib (hsize p hp).2 (hstored.2 p hp) (htext p hp)
  have hmerge : mergePartialFromCodedStream lib (serializeWithCachedSizes lib b) {}
      = (b, .success true) := by
    rw [mergePartialFromCodedStream, serializeWithCachedSizes,
      mergeFrom_elements hlib hforward (by omega) (by omega) generated_people hsize hps,
      writeUnknownFields_eq hlib.toDocumented, ← List.append_nil b.unknownFields,
      mergeFrom_unknownFields hlib.toDocumented hforward hstored.1,
      mergeFrom_nil hlib.toDocumented]
    rfl
  rw [parseFromIstream, hmerge]
  rfl

/-- **The first person whose strings are not all valid UTF-8** is the last
that is read of the file. -/
theorem cut {b : AddressBook T} (hb : byteSizeLong lib b < 2 ^ 31) (hstored : Stored lib b)
    {good more : List (Person T)} {p : Person T} (hsplit : b.people = good ++ p :: more)
    (hgood : ∀ q ∈ good, q.Text lib.toRuntime) (hbad : ¬ p.Text lib.toRuntime) :
    ∃ p', parseFromIstream lib (serializeWithCachedSizes lib b)
        = ({ people := good ++ [p'] }, false)
      ∧ p'.Stored lib ∧ p'.name = p.name
      ∧ p'.id = Person.storedId lib.toRuntime p.name p.id := by
  have hsize := people_length hlib hb
  have hp : p ∈ b.people := by simp [hsplit]
  have hgoodMem : ∀ q ∈ good, q ∈ b.people := by
    intro q hq
    simp [hsplit, hq]
  obtain ⟨p', hmerge, hcut⟩ := Person.cut hlib (hsize p hp).2 (hstored.2 p hp) hbad
  refine ⟨p', ?_, hcut⟩
  have hbook : mergePartialFromCodedStream lib (serializeWithCachedSizes lib b) {}
      = ({ people := good ++ [p'] }, .failure) := by
    rw [mergePartialFromCodedStream, serializeWithCachedSizes, hsplit,
      mergeFrom_elements_cut hlib (generated_forward hlib) (by omega) (by omega) generated_people
        (fun q hq => hsize q (hsplit ▸ hq))
        (fun q hq => Person.parses hlib (hsize q (hgoodMem q hq)).2 (hstored.2 q (hgoodMem q hq))
          (hgood q hq))
        (by simp [hmerge]), hmerge]
    rfl
  rw [parseFromIstream, hbook]
  rfl

/-- **One string that is not valid UTF-8** makes the whole file unreadable. -/
theorem fails {b : AddressBook T} (hb : byteSizeLong lib b < 2 ^ 31) (hstored : Stored lib b)
    (htext : ¬ Text lib.toRuntime b) :
    (parseFromIstream lib (serializeWithCachedSizes lib b)).2 = false := by
  obtain ⟨good, p, more, hsplit, hgood, hbad⟩ :=
    Buffer.cut_at_first (show ∃ p ∈ b.people, ¬ p.Text lib.toRuntime by simpa [Text] using htext)
  obtain ⟨p', hparse, -⟩ := cut hlib hb hstored hsplit hgood hbad
  rw [hparse]

/-- Whatever parses is valid. -/
theorem valid_of_parse {file : Bytes} {b : AddressBook T}
    (h : parseFromIstream lib file = (b, true)) : Stored lib b ∧ Text lib.toRuntime b := by
  have hmerge : mergeFrom lib.toRuntime (generated lib) file {} = (b, .success true) := by
    obtain ⟨hb, hend⟩ := Prod.mk.inj h
    exact Prod.ext hb (of_decide_eq_true hend)
  have hnew : Stored lib {} ∧ Text lib.toRuntime ({} : AddressBook T) :=
    ⟨⟨.nil, by simp⟩, by simp [Text]⟩
  refine mergeFrom_invariant hlib.toDocumented (generated_forward hlib)
    (fun b => Stored lib b ∧ Text lib.toRuntime b) ?_ hnew hmerge
  intro input b b' rest ⟨hstored, htext⟩ hturn
  rcases mergeTurn_more hlib.toDocumented hturn with
    ⟨tag, read, payload, hread, hb'⟩ | ⟨field, hfield, rfl⟩
  · simp only [generated] at hread
    repeat' split at hread
    all_goals cases hread
    obtain ⟨body, p, hbody, rfl⟩ := readSub_sound hlib hb'
    obtain ⟨hpstored, hptext⟩ := Person.valid_of_parse hlib hbody
    refine ⟨⟨hstored.1, ?_⟩, ?_⟩
    · exact List.forall_mem_append.mpr ⟨hstored.2, List.forall_mem_singleton.mpr hpstored⟩
    · exact List.forall_mem_append.mpr ⟨htext, List.forall_mem_singleton.mpr hptext⟩
  · exact ⟨⟨.append hstored.1 hfield, hstored.2⟩, htext⟩

end

end AddressBook

end Assignment.ProtoBuff
