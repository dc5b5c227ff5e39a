import Assignment.ProtoBuff.History

/-!
# A book that was not written whole

`add_person` truncates the file and writes the book over it. When the write
ends early, the file holds a beginning of the serialised book, and the next
run takes what can be read of it for the book. That is everybody whose bytes
are complete, and of the next person at most a part, read from a beginning
of its bytes (`survivors`). The library does not always refuse such a part:
the end of the input is a legitimate end of a message, nested or not.
-/

namespace Assignment.ProtoBuff

open Runs

variable {T N : Type}

/-- A nested message that is cut short is found under its tag. Either its
length is cut, and reading it fails, or what is there of its bytes is parsed
up to the end of the input, where the message may end. -/
def Library.ReadsTruncated (lib : Library T) : Prop :=
  ∀ {M : Type} (merge : Bytes → M → M × MergeEnd) field body k m,
    1 ≤ field → field ≤ 15 → body.length < 2 ^ 31 → 0 < k →
    k < (lib.writeMessage field body.length body).length → ∃ payload,
      lib.readTag ((lib.writeMessage field body.length body).take k)
          = ⟨lengthDelimitedTag field, true, payload, false⟩
        ∧ (lib.readMessage merge payload m = (m, none)
          ∨ ∃ j < body.length, lib.readMessage merge payload m
            = ((merge (body.take j) m).1,
              if (merge (body.take j) m).2 = .success true then some [] else none))

open Assignment.Reference in
theorem bookReference_readsTruncated : bookReference.ReadsTruncated := by
  intro M merge field body k m h1 h15 hbody hpos hk
  have hn : (UInt32.ofNat body.length).toNat = body.length := toNat_ofNat (by omega)
  have htag := writeTag_length h1 h15 (show 2 < 8 by omega)
  have hwrite : bookReference.writeMessage field body.length body
      = writeTag field 2 ++ (writeVarint32 (UInt32.ofNat body.length) ++ body) := rfl
  rw [hwrite, List.length_append, htag] at hk
  rw [hwrite, List.take_append, List.take_of_length_le (by omega), htag]
  generalize hw : writeVarint32 (UInt32.ofNat body.length) ++ body = w at hk
  refine ⟨w.take (k - 1), readTag_writeTag h1 h15 (by omega) _, ?_⟩
  change Reference.readMessage merge (w.take (k - 1)) m = _
    ∨ ∃ j < body.length, Reference.readMessage merge (w.take (k - 1)) m = _
  cases hread : readVarint32 (w.take (k - 1)) with
  | mk ok value rest =>
      cases ok with
      | false => exact .inl (by simp [Reference.readMessage, hread])
      | true =>
          -- a length that is read is the whole length, which not all bytes follow
          have hwhole := varint_local _ _ _ (w.drop (k - 1)) hread
          rw [List.take_append_drop, ← hw, varint_roundTrip, VarintRead.mk.injEq] at hwhole
          obtain ⟨-, rfl, hsplit⟩ := hwhole
          have hlen := congrArg List.length hsplit
          rw [hw, List.length_append, List.length_drop] at hlen
          have hrest : rest = body.take rest.length := by rw [hsplit, List.take_left]
          refine .inr ⟨rest.length, by omega, ?_⟩
          have htake : rest.take body.length = rest := List.take_of_length_le (by omega)
          have hdrop : rest.drop body.length = [] := List.drop_of_length_le (by omega)
          rw [← hrest]
          simp only [Reference.readMessage, hread, hn, true_and, if_pos hbody, htake, hdrop]

/-! ## What can be read -/

/-- At most one more element, parsed from a beginning of the next one's
bytes. -/
def PartOf (parse : Bytes → N) (serialize : N → Bytes) (back part : List N) : Prop :=
  part = [] ∨ ∃ n rest j, back = n :: rest ∧ part = [parse ((serialize n).take j)]

section
variable {lib : Library T} (hlib : lib.Documented) (hcut : lib.ReadsTruncated)
include hlib hcut

/-- **An element that is cut short** is read as a beginning of it, and the
parse is over. -/
theorem mergeFrom_take_element {M : Type} {msg : Generated M} (hmsg : msg.Forward) {field : Nat}
    (h1 : 1 ≤ field) (h15 : field ≤ 15) {merge : Bytes → N → N × MergeEnd} {new : N}
    (hnew : (merge [] new).1 = new) {slot : Slot M (List N)}
    (hfield : msg.field (lengthDelimitedTag field) = some (readElement lib merge new slot))
    {body : Bytes} (hbody : body.length < 2 ^ 31) {k : Nat} (hpos : 0 < k)
    (hk : k < (lib.writeMessage field body.length body).length) (m : M) :
    ∃ j ok, mergeFrom lib.toRuntime msg ((lib.writeMessage field body.length body).take k) m
      = (slot.set (slot.get m ++ [(merge (body.take j) new).1]) m,
        if ok = true then .success true else .failure) := by
  obtain ⟨payload, htag, hread⟩ := hcut merge field body k new h1 h15 hbody hpos hk
  rw [mergeFrom_field hlib.toDocumented hmsg htag hfield]
  rcases hread with hnone | ⟨j, -, hsome⟩
  · refine ⟨0, false, ?_⟩
    simp only [readElement, readSub, hnone, List.take_zero, hnew, Bool.false_eq_true, if_false]
  · by_cases hend : (merge (body.take j) new).2 = .success true
    · refine ⟨j, true, ?_⟩
      simp only [readElement, readSub, hsome, if_pos hend, if_true,
        mergeFrom_nil hlib.toDocumented]
    · refine ⟨j, false, ?_⟩
      simp only [readElement, readSub, hsome, if_neg hend, Bool.false_eq_true, if_false]

/-- **A repeated field that is cut short**: the elements whose bytes are
complete are read, and at most a part of the next one; the parse succeeds
when the cut is between two elements. -/
theorem mergeFrom_take_elements {M : Type} {msg : Generated M} (hmsg : msg.Forward) {field : Nat}
    (h1 : 1 ≤ field) (h15 : field ≤ 15) {merge : Bytes → N → N × MergeEnd} {new : N}
    (hnew : (merge [] new).1 = new) {slot : Slot M (List N)} {size : N → Nat}
    {serialize : N → Bytes}
    (hfield : msg.field (lengthDelimitedTag field) = some (readElement lib merge new slot))
    {ns : List N} (hsize : ∀ n ∈ ns, (serialize n).length = size n ∧ size n < 2 ^ 31)
    (hns : ∀ n ∈ ns, merge (serialize n) new = (n, .success true)) (k : Nat) (m : M) :
    ∃ front back part ok, ns = front ++ back
      ∧ (writeElements lib field size serialize front).length ≤ k
      ∧ (∀ n rest, back = n :: rest →
        k < (writeElements lib field size serialize (front ++ [n])).length)
      ∧ mergeFrom lib.toRuntime msg ((writeElements lib field size serialize ns).take k) m
        = (slot.set (slot.get m ++ (front ++ part)) m,
          if ok = true then .success true else .failure)
      ∧ PartOf (fun bytes => (merge bytes new).1) serialize back part
      ∧ (part = [] → ok = true) := by
  induction ns generalizing k m with
  | nil =>
      refine ⟨[], [], [], true, rfl, Nat.zero_le k, by simp, ?_, .inl rfl, fun _ => rfl⟩
      rw [writeElements, List.flatMap_nil, List.take_nil, mergeFrom_nil hlib.toDocumented,
        List.append_nil, List.append_nil, slot.set_get, if_pos rfl]
  | cons n ns ih =>
      obtain ⟨hlen, hlt⟩ := hsize n (by simp)
      have hone : ∀ ns', writeElements lib field size serialize (n :: ns')
          = lib.writeMessage field (serialize n).length (serialize n)
            ++ writeElements lib field size serialize ns' := writeElements_cons field hlen
      generalize hw : lib.writeMessage field (serialize n).length (serialize n) = w at hone
      by_cases hfits : w.length ≤ k
      · -- the first element is complete
        obtain ⟨front, back, part, ok, rfl, hfront, hback, hread, hpart, hok⟩ :=
          ih (fun n' hn' => hsize n' (by simp [hn'])) (fun n' hn' => hns n' (by simp [hn']))
            (k - w.length) (slot.set (slot.get m ++ [n]) m)
        refine ⟨n :: front, back, part, ok, rfl, ?_, ?_, ?_, hpart, hok⟩
        · rw [hone, List.length_append]
          omega
        · intro n' rest hrest
          have hnext := hback n' rest hrest
          rw [List.cons_append, hone, List.length_append]
          omega
        · rw [hone, List.take_append, List.take_of_length_le hfits, ← hw,
            mergeFrom_sub hlib hmsg h1 h15 hfield (by omega), hns n (by simp), if_pos rfl, hw]
          refine hread.trans ?_
          rw [slot.get_set, slot.set_set]
          simp only [List.append_assoc, List.cons_append, List.nil_append]
      · have hnext : ∀ n' rest, n :: ns = n' :: rest →
            k < (writeElements lib field size serialize ([] ++ [n'])).length := by
          rintro n' rest ⟨⟩
          rw [List.nil_append, hone, List.length_append]
          omega
        by_cases hzero : k = 0
        · -- nothing of it was written
          subst hzero
          refine ⟨[], n :: ns, [], true, rfl, Nat.le_refl 0, hnext, ?_, .inl rfl, fun _ => rfl⟩
          rw [List.take_zero, mergeFrom_nil hlib.toDocumented, List.append_nil, List.append_nil,
            slot.set_get, if_pos rfl]
        · -- it was cut short
          obtain ⟨j, ok, hread⟩ := mergeFrom_take_element hlib hcut hmsg h1 h15 hnew hfield
            (show (serialize n).length < 2 ^ 31 by omega) (show 0 < k by omega)
            (by rw [hw]; omega) m
          refine ⟨[], n :: ns, [(merge ((serialize n).take j) new).1], ok, rfl, Nat.zero_le k,
            hnext, ?_, .inr ⟨n, ns, j, rfl, rfl⟩, by simp⟩
          rw [hone, List.take_append_of_le_length (by omega), ← hw, hread, List.nil_append]

/-- The same of a whole book that has no unknown fields of its own. -/
theorem AddressBook.parse_take {b : AddressBook T} (hsize : byteSizeLong lib b < 2 ^ 31)
    (hstored : Stored lib b) (htext : Text lib.toRuntime b) (hplain : b.unknownFields = [])
    (k : Nat) :
    ∃ front back part ok, b.people = front ++ back
      ∧ (serializeWithCachedSizes lib ⟨front, []⟩).length ≤ k
      ∧ (∀ p rest, back = p :: rest →
        k < (serializeWithCachedSizes lib ⟨front ++ [p], []⟩).length)
      ∧ parseFromIstream lib ((serializeWithCachedSizes lib b).take k)
        = (⟨front ++ part, []⟩, ok)
      ∧ PartOf (fun bytes => (Person.mergePartialFromCodedStream lib bytes {}).1)
        (Person.serializeWithCachedSizes lib) back part
      ∧ (part = [] → ok = true) := by
  have hlength := people_length hlib hsize
  have hps : ∀ p ∈ b.people, Person.mergePartialFromCodedStream lib
      (p.serializeWithCachedSizes lib) {} = (p, .success true) := fun p hp =>
    Person.parses hlib (hlength p hp).2 (hstored.2 p hp) (htext p hp)
  have hnew : (Person.mergePartialFromCodedStream lib [] {}).1 = {} := by
    rw [Person.mergePartialFromCodedStream, mergeFrom_nil hlib.toDocumented]
  obtain ⟨front, back, part, ok, hsplit, hfront, hback, hread, hpart⟩ :=
    mergeFrom_take_elements hlib hcut (generated_forward hlib) (by omega) (by omega) hnew
      generated_people hlength hps k {}
  have hbytes : ∀ ps : List (Person T), serializeWithCachedSizes lib ⟨ps, []⟩
      = writeElements lib 1 (Person.byteSizeLong lib) (Person.serializeWithCachedSizes lib) ps := by
    intro ps
    rw [serializeWithCachedSizes, writeUnknownFields_eq hlib.toDocumented, List.append_nil]
  have hbook : b = ⟨b.people, []⟩ := by rw [← hplain]
  refine ⟨front, back, part, ok, hsplit, by rw [hbytes]; exact hfront, ?_, ?_, hpart⟩
  · intro p rest hrest
    rw [hbytes]
    exact hback p rest hrest
  · rw [hbook, hbytes, parseFromIstream, mergePartialFromCodedStream, hread]
    cases ok <;> simp [peopleSlot]

/-! ## A run that is interrupted -/

omit hlib hcut in
/-- Unless the file cannot be opened, a run leaves a beginning of its book. -/
theorem main_leaves (console : Console) (file : Option Bytes) {w : Write} (hw : w ≠ .openFails) :
    ∃ k, (main lib 2 console file w).file
      = some (((newBook lib console file).serializeWithCachedSizes lib).take k) := by
  rw [(main_eq lib console file w).1, writeBook, if_neg hw]
  by_cases hlarge : lib.sizeLimit < (newBook lib console file).byteSizeLong lib
  · exact ⟨0, by simp [serializeToOstream, hlarge]⟩
  · cases w with
    | openFails => exact absurd rfl hw
    | completes =>
        refine ⟨((newBook lib console file).serializeWithCachedSizes lib).length, ?_⟩
        simp [serializeToOstream, hlarge]
    | serializeFails k => exact ⟨k, by simp [serializeToOstream, hlarge]⟩
    | closeFails k =>
        refine ⟨min k (((newBook lib console file).serializeWithCachedSizes lib).length - 1), ?_⟩
        simp [serializeToOstream, hlarge, List.dropLast_eq_take, List.take_take]

end

end Assignment.ProtoBuff
