import Assignment.ProtoBuff.AddressBook

/-!
# `MergeFrom` (addressbook.pb.cc)

The generated `MergeFrom` of the three messages, and what it has to do with
the wire: to parse the bytes of one message into
another is to merge the two (`Person.merge_serialize`). Messages written back
to back are therefore one message; for address books that means that files
can be concatenated (`AddressBook.concatenated`).
-/

namespace Assignment.ProtoBuff

variable {T : Type}

theorem mergeFrom_mergeNumber {M : Type} {lib : Library T} (hlib : lib.Documented)
    {msg : Generated M} (hmsg : msg.Forward) {field : Nat} (h1 : 1 ≤ field) (h15 : field ≤ 15)
    {write : Nat → Int32 → Bytes} {size : Int32 → Nat} (hwrite : lib.NumberField write size)
    {slot : Slot M Int32}
    (hfield : msg.field (varintTag field) = some (readNumber lib.toRuntime slot)) (v : Int32)
    (rest : Bytes) (m : M) :
    mergeFrom lib.toRuntime msg ((if v ≠ 0 then write field v else []) ++ rest) m
      = mergeFrom lib.toRuntime msg rest (mergeNumber slot v m) := by
  by_cases hv : v ≠ 0
  · obtain ⟨payload, htag, hread⟩ := hwrite.roundTrip field v rest h1 h15
    rw [if_pos hv, mergeNumber, if_pos hv, mergeFrom_field hlib.toDocumented hmsg htag hfield]
    simp only [readNumber, hread]
  · rw [if_neg hv, mergeNumber, if_neg hv, List.nil_append]

/-- `Timestamp::MergeFrom`, which is not in the repository: parsing a
serialised timestamp into another merges the two. -/
structure TimestampMerge (lib : Library T) where
  merge : T → T → T
  parses : ∀ t t', lib.mergeTimestamp (lib.serializeTimestamp t') t = (merge t t', .success true)

namespace PhoneNumber

/-- `Person_PhoneNumber::MergeFrom` -/
protected def mergeFrom (n source : PhoneNumber) : PhoneNumber :=
  let n := { n with unknownFields := n.unknownFields ++ source.unknownFields }
  mergeNumber typeSlot source.type (mergeString numberSlot source.number n)

end PhoneNumber

namespace Person

/-- `mutable_last_updated()->MergeFrom(from.last_updated())`, if it is set. -/
def mergeLastUpdated {lib : Library T} (stamp : TimestampMerge lib) (source : Option T)
    (p : Person T) : Person T :=
  match source with
  | some t => { p with lastUpdated := some (stamp.merge (p.lastUpdated.getD lib.timestamp) t) }
  | none => p

/-- `Person::MergeFrom` -/
protected def mergeFrom {lib : Library T} (stamp : TimestampMerge lib) (p source : Person T) :
    Person T :=
  let p := { p with unknownFields := p.unknownFields ++ source.unknownFields }
  let p := { p with phones := p.phones ++ source.phones }
  let p := mergeString emailSlot source.email (mergeString nameSlot source.name p)
  mergeNumber idSlot source.id (mergeLastUpdated stamp source.lastUpdated p)

end Person

namespace AddressBook

/-- `AddressBook::MergeFrom` -/
protected def mergeFrom (b source : AddressBook T) : AddressBook T :=
  let b := { b with unknownFields := b.unknownFields ++ source.unknownFields }
  { b with people := b.people ++ source.people }

end AddressBook

/-! ## Merging on the wire -/

section
variable {lib : Library T} (hlib : lib.Documented)
include hlib

/-- Parsing a phone number into another one merges the two. -/
theorem PhoneNumber.mergeFrom_serialize {source : PhoneNumber}
    (hsize : byteSizeLong lib source < 2 ^ 31) (hstored : Stored lib.toRuntime source)
    (htext : Text lib.toRuntime source) (n : PhoneNumber) :
    mergePartialFromCodedStream lib.toRuntime (serializeWithCachedSizes lib source) n
      = (n.mergeFrom source, .success true) := by
  have hlen := number_length_le hlib source
  have hforward := generated_forward hlib
  rw [mergePartialFromCodedStream, serializeWithCachedSizes,
    mergeFrom_mergeString hlib.toDocumented hforward (by omega) (by omega) generated_number
      (by omega) htext,
    mergeFrom_mergeNumber hlib hforward (by omega) (by omega) hlib.enum generated_type,
    writeUnknownFields_eq hlib.toDocumented, ← List.append_nil source.unknownFields,
    mergeFrom_unknownFields hlib.toDocumented hforward hstored, mergeFrom_nil hlib.toDocumented]
  simp only [PhoneNumber.mergeFrom, mergeString, mergeNumber]
  split <;> split <;> rfl

/-- So does parsing a timestamp into the one of a person. -/
theorem Person.mergeFrom_mergeLastUpdated (stamp : TimestampMerge lib) {source : Option T}
    (hsource : ∀ t, source = some t → lib.timestampSize t < 2 ^ 31) (rest : Bytes)
    (p : Person T) :
    mergeFrom lib.toRuntime (generated lib) (writeLastUpdated lib source ++ rest) p
      = mergeFrom lib.toRuntime (generated lib) rest (mergeLastUpdated stamp source p) := by
  cases source with
  | none => rw [writeLastUpdated, List.nil_append, mergeLastUpdated]
  | some t =>
      have hlen := hlib.timestamp_size t
      have hlt := hsource t rfl
      rw [writeLastUpdated, ← hlen, mergeFrom_sub hlib (generated_forward hlib) (by omega)
        (by omega) generated_lastUpdated (by omega)]
      simp only [stamp.parses, if_true, mergeLastUpdated]

/-- **The wire merges**: parsing the bytes of a person into another person is
`MergeFrom`. -/
theorem Person.wire_merges (stamp : TimestampMerge lib) {source : Person T}
    (hsize : byteSizeLong lib source < 2 ^ 31) (hstored : Stored lib source)
    (htext : Text lib.toRuntime source) (p : Person T) :
    mergePartialFromCodedStream lib (serializeWithCachedSizes lib source) p
      = (p.mergeFrom stamp source, .success true) := by
  obtain ⟨hname, hemail, hphones, hstamp⟩ := parts_lt hlib hsize
  have hforward := generated_forward hlib
  have hns : ∀ n ∈ source.phones, PhoneNumber.mergePartialFromCodedStream lib.toRuntime
      (n.serializeWithCachedSizes lib) {} = (n, .success true) := fun n hn =>
    PhoneNumber.parses hlib (hphones n hn) (hstored.2 n hn) (htext.2.2 n hn)
  rw [mergePartialFromCodedStream, serializeWithCachedSizes,
    mergeFrom_mergeString hlib.toDocumented hforward (by omega) (by omega) generated_name hname
      htext.1,
    mergeFrom_mergeNumber hlib hforward (by omega) (by omega) hlib.int32 generated_id,
    mergeFrom_mergeString hlib.toDocumented hforward (by omega) (by omega) generated_email hemail
      htext.2.1,
    mergeFrom_elements hlib hforward (by omega) (by omega) generated_phones
      (phones_length hlib hsize) hns,
    mergeFrom_mergeLastUpdated hlib stamp hstamp, writeUnknownFields_eq hlib.toDocumented,
    ← List.append_nil source.unknownFields,
    mergeFrom_unknownFields hlib.toDocumented hforward hstored.1,
    mergeFrom_nil hlib.toDocumented]
  -- the fields are written in another order than `MergeFrom` assigns them
  simp only [Person.mergeFrom, mergeString, mergeNumber, mergeLastUpdated]
  by_cases hn : source.name.length > 0 <;> by_cases he : source.email.length > 0 <;>
    by_cases hi : source.id = 0 <;> cases source.lastUpdated <;>
    simp only [hn, he, hi, ne_eq, not_true_eq_false, not_false_eq_true, if_true, if_false] <;> rfl

omit hlib in
/-- A timestamp other than `0` replaces the one that it is parsed into. -/
theorem Reference.mergeTimestamp_serialize (t t' : UInt64) :
    mergeTimestamp (serializeTimestamp t') t = (if t' = 0 then t else t', .success true) := by
  by_cases h : t' = 0
  · simp [serializeTimestamp, h, mergeTimestamp]
  · have hlt : t'.toNat < 2 ^ (7 * (9 + 1)) := by have := t'.toNat_lt; omega
    have hd := Varint.decode_encode 9 t'.toNat [] hlt
    rw [List.append_nil] at hd
    rw [serializeTimestamp, if_neg h, mergeTimestamp, hd]
    simp [h]

omit hlib in
/-- `Timestamp::MergeFrom` of the reference: seconds are merged like any
number. -/
def referenceStamp : TimestampMerge bookReference where
  merge t t' := if t' = 0 then t else t'
  parses := Reference.mergeTimestamp_serialize

omit hlib in
/-- A phone and an e-mail address join the name and the id. -/
theorem Person.wire_merges_phone :
    mergePartialFromCodedStream bookReference
        (serializeWithCachedSizes bookReference
          { email := [0x61], phones := [{ number := [0x35] }], lastUpdated := some 3 })
        { name := [0x41], id := 7, lastUpdated := some 2 }
      = (Person.mergeFrom referenceStamp { name := [0x41], id := 7, lastUpdated := some 2 }
          { email := [0x61], phones := [{ number := [0x35] }], lastUpdated := some 3 },
        .success true) :=
  Person.wire_merges bookReference_documented referenceStamp (by decide +kernel)
    ⟨.nil, List.forall_mem_singleton.mpr .nil⟩ (by decide +kernel) _

/-- Parsing goes on behind a book with the two books merged. -/
theorem AddressBook.mergeFrom_serialize {source : AddressBook T}
    (hsize : byteSizeLong lib source < 2 ^ 31) (hstored : Stored lib source)
    (htext : Text lib.toRuntime source) (rest : Bytes) (b : AddressBook T) :
    mergeFrom lib.toRuntime (generated lib) (serializeWithCachedSizes lib source ++ rest) b
      = mergeFrom lib.toRuntime (generated lib) rest (b.mergeFrom source) := by
  have hforward := generated_forward hlib
  have hlength := people_length hlib hsize
  have hps : ∀ p ∈ source.people, Person.mergePartialFromCodedStream lib
      (p.serializeWithCachedSizes lib) {} = (p, .success true) := fun p hp =>
    Person.parses hlib (hlength p hp).2 (hstored.2 p hp) (htext p hp)
  rw [serializeWithCachedSizes, List.append_assoc,
    mergeFrom_elements hlib hforward (by omega) (by omega) generated_people hlength hps,
    writeUnknownFields_eq hlib.toDocumented,
    mergeFrom_unknownFields hlib.toDocumented hforward hstored.1]
  rfl

end

theorem AddressBook.foldl_mergeFrom (books : List (AddressBook T)) (b : AddressBook T) :
    (books.foldl AddressBook.mergeFrom b).people = b.people ++ books.flatMap AddressBook.people
      ∧ (books.foldl AddressBook.mergeFrom b).unknownFields
        = b.unknownFields ++ books.flatMap AddressBook.unknownFields := by
  induction books generalizing b with
  | nil => simp
  | cons book books ih =>
      obtain ⟨hpeople, hunknown⟩ := ih (b.mergeFrom book)
      rw [List.foldl_cons, hpeople, hunknown]
      simp only [List.flatMap_cons, AddressBook.mergeFrom, List.append_assoc, and_self]

/-- **Files can be concatenated**: the files of any number of valid address
books, below 2 GB together, are one after the other the file of one address
book, with all their people and all their unknown fields in order. -/
theorem AddressBook.concatenated {lib : Library T} (hlib : lib.Documented)
    {books : List (AddressBook T)} (hsize : (books.map (byteSizeLong lib)).sum < 2 ^ 31)
    (hstored : ∀ book ∈ books, book.Stored lib)
    (htext : ∀ book ∈ books, book.Text lib.toRuntime) :
    parseFromIstream lib (books.flatMap (serializeWithCachedSizes lib))
      = (⟨books.flatMap AddressBook.people, books.flatMap AddressBook.unknownFields⟩, true) := by
  have hbook : ∀ book ∈ books, book.byteSizeLong lib < 2 ^ 31 := fun book hbook =>
    (List.single_le_sum (by simp) _ (List.mem_map_of_mem hbook)).trans_lt hsize
  have hmerge := mergeFrom_flatMap hlib.toDocumented (fun book hmem rest b =>
    mergeFrom_serialize hlib (hbook book hmem) (hstored book hmem) (htext book hmem) rest b) {}
  obtain ⟨hpeople, hunknown⟩ := foldl_mergeFrom books {}
  rw [parseFromIstream, mergePartialFromCodedStream, hmerge]
  simp only [Prod.mk.injEq, decide_true, and_true]
  cases hbooks : books.foldl AddressBook.mergeFrom {} with
  | mk people unknownFields =>
      rw [hbooks] at hpeople hunknown
      exact congr (congrArg AddressBook.mk hpeople) hunknown

/-- Two files of one person each. -/
theorem AddressBook.concatenated_two :
    parseFromIstream bookReference
        ([⟨[{ name := [0x41], id := 1 }], []⟩, ⟨[{ name := [0x42], id := 2 }], []⟩].flatMap
          (serializeWithCachedSizes bookReference))
      = (⟨[{ name := [0x41], id := 1 }, { name := [0x42], id := 2 }], []⟩, true) := by
  refine AddressBook.concatenated bookReference_documented (by decide +kernel) ?_ ?_
  · intro book hbook
    simp only [List.mem_cons, List.not_mem_nil, or_false] at hbook
    rcases hbook with rfl | rfl
    · exact ⟨.nil, List.forall_mem_singleton.mpr ⟨.nil, by simp⟩⟩
    · exact ⟨.nil, List.forall_mem_singleton.mpr ⟨.nil, by simp⟩⟩
  · intro book hbook
    simp only [List.mem_cons, List.not_mem_nil, or_false] at hbook
    rcases hbook with rfl | rfl
    · exact List.forall_mem_singleton.mpr (by decide +kernel)
    · exact List.forall_mem_singleton.mpr (by decide +kernel)

end Assignment.ProtoBuff
