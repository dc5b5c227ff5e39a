import Assignment.Lib.Runs
import Assignment.ProtoBuff.AddPerson

/-!
# The ids of the people in the file

`addressbook.proto` calls the id unique. Runs of `add_person` one after the
other, on a file that is absent at first, with anything on standard input;
each run writes its book whole. The people of a file are those that
`readBook` finds in it. Nothing compares the id typed with the ids there
are, so that they stay distinct exactly while no run enters one of them
again (`unique_iff_fresh`).
-/

namespace Assignment.ProtoBuff

open Runs Istream

variable {T : Type}

/-- What `cin >> id` leaves in the variable. -/
def typedId (console : Console) : Int32 := (readInt console.cin console.garbage).1

/-- What `getline` leaves in the name. -/
def typedName (console : Console) : Bytes :=
  (getline ((readInt console.cin console.garbage).2.ignore 256) []).1

namespace Ids

/-- A run that writes its book whole and exits with `0`; the state is the
file. -/
def step (lib : Library T) (console : Console) (file : Option Bytes) : Option (Option Bytes) :=
  let ended := main lib 2 console file .completes
  if ended.status = 0 then some ended.file else none

/-- The ids of the people in a file. -/
def ids (lib : Library T) (file : Option Bytes) : List Int32 :=
  (readBook lib file).people.map Person.id

/-- `// Unique ID number for this person.` -/
def Unique (lib : Library T) (file : Option Bytes) : Prop := (ids lib file).Nodup

/-- The id typed, or the `0` that is read behind a name that is not valid
UTF-8, is none of those in the file; unless the file holds such strings
already, as nothing is read behind them. -/
def Fresh (lib : Library T) (console : Console) (file : Option Bytes) : Prop :=
  (readBook lib file).Text lib.toRuntime →
    Person.storedId lib.toRuntime (typedName console) (typedId console) ∉ ids lib file

instance (lib : Library T) (console : Console) (file : Option Bytes) :
    Decidable (Fresh lib console file) := by
  unfold Fresh AddressBook.Text
  infer_instance

/-- The id is still there when the person is written and read again. -/
def Settled (rt : Runtime) (p : Person T) : Prop := Person.storedId rt p.name p.id = p.id

/-- What a file holds after any number of runs. -/
structure Regular (lib : Library T) (file : Option Bytes) : Prop where
  stored : (readBook lib file).Stored lib
  settled : ∀ p ∈ (readBook lib file).people, Settled lib.toRuntime p

theorem entered_id (lib : Library T) (console : Console) :
    (entered lib console).id = typedId console
      ∧ (entered lib console).name = typedName console := by
  exact ⟨(phoneLoop_keeps _ _ _).1, (phoneLoop_keeps _ _ _).2.1⟩

/-- Valid text settles the id. -/
theorem settled_of_text {rt : Runtime} {p : Person T} (h : p.Text rt) : Settled rt p := by
  rw [Settled, Person.storedId, if_pos h.1]

/-- So does one reading. -/
theorem settled_of_read {rt : Runtime} {p p' : Person T} (hname : p'.name = p.name)
    (hid : p'.id = Person.storedId rt p.name p.id) : Settled rt p' := by
  rw [Settled, hname, hid]
  unfold Person.storedId
  split <;> rfl

theorem regular_absent (lib : Library T) : Regular lib none where
  stored := ⟨.nil, by simp [readBook]⟩
  settled := by simp [readBook]

section
variable {lib : Library T} (hlib : lib.Documented) {console : Console} {file file' : Option Bytes}
include hlib

omit hlib in
theorem step_cases (h : step lib console file = some file') :
    file' = some ((newBook lib console file).serializeWithCachedSizes lib)
      ∧ (newBook lib console file).byteSizeLong lib ≤ lib.sizeLimit := by
  obtain ⟨hstatus, hsome⟩ := Option.ite_none_right_eq_some.mp h
  obtain ⟨hfile, hsize⟩ := main_completes hstatus
  cases hsome
  exact ⟨hfile, hsize⟩

omit hlib in
theorem newBook_stored (h : Regular lib file) : (newBook lib console file).Stored lib :=
  AddressBook.add_stored h.stored (promptForAddress_stored lib _ _ _)

/-- A book with other strings is read up to the first person with one, who
keeps the id as far as it was read. -/
theorem read_cut (h : Regular lib file)
    (hsize : (newBook lib console file).byteSizeLong lib ≤ lib.sizeLimit)
    {good more : List (Person T)} {p : Person T}
    (hsplit : (newBook lib console file).people = good ++ p :: more)
    (hold : ∀ q ∈ good, q ∈ (readBook lib file).people)
    (hgood : ∀ q ∈ good, q.Text lib.toRuntime) (hbad : ¬ p.Text lib.toRuntime) :
    Regular lib (some ((newBook lib console file).serializeWithCachedSizes lib))
      ∧ ids lib (some ((newBook lib console file).serializeWithCachedSizes lib))
        = good.map Person.id ++ [Person.storedId lib.toRuntime p.name p.id] := by
  have hlimit := hlib.size_limit
  obtain ⟨p', hparse, hpstored, hpname, hpid⟩ :=
    AddressBook.cut hlib (by omega) (newBook_stored h) hsplit hgood hbad
  have hread : readBook lib (some ((newBook lib console file).serializeWithCachedSizes lib))
      = { people := good ++ [p'] } := by
    rw [readBook, hparse]
  refine ⟨⟨?_, ?_⟩, ?_⟩
  · rw [hread]
    exact ⟨.nil, List.forall_mem_append.mpr
      ⟨fun q hq => h.stored.2 q (hold q hq), List.forall_mem_singleton.mpr hpstored⟩⟩
  · rw [hread]
    exact List.forall_mem_append.mpr
      ⟨fun q hq => h.settled q (hold q hq),
        List.forall_mem_singleton.mpr (settled_of_read hpname hpid)⟩
  · rw [ids, hread]
    simp only [List.map_append, List.map_cons, List.map_nil, hpid]

/-- A run on a file of valid strings: the id typed joins those of the file,
as it will be read. -/
theorem step_text (h : Regular lib file) (hstep : step lib console file = some file')
    (htext : (readBook lib file).Text lib.toRuntime) :
    Regular lib file' ∧ ids lib file' = ids lib file
      ++ [Person.storedId lib.toRuntime (typedName console) (typedId console)] := by
  have hlimit := hlib.size_limit
  obtain ⟨rfl, hsize⟩ := step_cases hstep
  have hstored : (newBook lib console file).Stored lib := newBook_stored h
  obtain ⟨hid, hname⟩ := entered_id lib console
  by_cases hutf : (entered lib console).Text lib.toRuntime
  · have hread : readBook lib (some ((newBook lib console file).serializeWithCachedSizes lib))
        = newBook lib console file := by
      rw [readBook, AddressBook.parses hlib (by omega) hstored
        (AddressBook.add_text.mpr ⟨htext, hutf⟩)]
    refine ⟨⟨by rw [hread]; exact hstored, ?_⟩, ?_⟩
    · rw [hread]
      exact List.forall_mem_append.mpr
        ⟨h.settled, List.forall_mem_singleton.mpr (settled_of_text hutf)⟩
    · have hkept := settled_of_text hutf
      rw [Settled, hid, hname] at hkept
      rw [ids, hread, hkept, ← hid]
      simp only [newBook, AddressBook.add, List.map_append, List.map_cons, List.map_nil, ids]
  · have hcut := read_cut hlib h hsize
      (show (newBook lib console file).people
        = (readBook lib file).people ++ entered lib console :: [] from rfl)
      (fun q hq => hq) htext hutf
    rwa [hid, hname] at hcut

/-- A run on a file with other strings: what is read of the new file are
people, or the first ones, that were read of the old. -/
theorem step_invalid (h : Regular lib file) (hstep : step lib console file = some file')
    (htext : ¬ (readBook lib file).Text lib.toRuntime) :
    Regular lib file' ∧ (ids lib file').Sublist (ids lib file) := by
  obtain ⟨rfl, hsize⟩ := step_cases hstep
  obtain ⟨good, p, more, hsplit, hgood, hbad⟩ := Buffer.cut_at_first
    (show ∃ p ∈ (readBook lib file).people, ¬ p.Text lib.toRuntime by
      simpa [AddressBook.Text] using htext)
  have hpeople : (newBook lib console file).people
      = good ++ p :: (more ++ [entered lib console]) := by
    rw [newBook, AddressBook.add, hsplit, List.append_assoc, List.cons_append]
  have hold : ∀ q ∈ good ++ p :: more, q ∈ (readBook lib file).people := by simp [hsplit]
  obtain ⟨hregular, hids⟩ := read_cut hlib h hsize hpeople
    (fun q hq => hold q (List.mem_append_left _ hq)) hgood hbad
  refine ⟨hregular, ?_⟩
  -- the person that was cut short keeps the id that it had
  have hsame : Person.storedId lib.toRuntime p.name p.id = p.id := h.settled p (hold p (by simp))
  rw [hids, ids, hsplit, hsame, List.map_append, List.map_cons]
  exact (List.Sublist.refl _).append ((List.nil_sublist _).cons_cons _)

/-- One run keeps the ids distinct exactly when it enters a fresh one. -/
theorem step_unique (h : Regular lib file) (hunique : Unique lib file)
    (hstep : step lib console file = some file') :
    Regular lib file' ∧ (Unique lib file' ↔ Fresh lib console file) := by
  by_cases htext : (readBook lib file).Text lib.toRuntime
  · obtain ⟨hregular, hids⟩ := step_text hlib h hstep htext
    refine ⟨hregular, ?_⟩
    rw [Unique, hids, ← List.concat_eq_append, List.nodup_concat]
    constructor
    · intro hnew _
      exact hnew.1
    · intro hfresh
      exact ⟨hfresh htext, hunique⟩
  · obtain ⟨hregular, hsub⟩ := step_invalid hlib h hstep htext
    refine ⟨hregular, ?_⟩
    constructor
    · intro _ hvalid
      exact absurd hvalid htext
    · intro _
      exact List.Nodup.sublist hsub hunique

/-- **The ids are unique exactly while every run enters a fresh one**: then
they are pairwise distinct in every file reached, and the first run that
does not leaves a file with two equal ones. -/
theorem unique_iff_fresh :
    (∀ file, Reaches (step lib) (Fresh lib) none file → Unique lib file)
      ∧ ∀ file console file', Reaches (step lib) (Fresh lib) none file →
          step lib console file = some file' → ¬ Fresh lib console file → ¬ Unique lib file' := by
  have hreach : ∀ file, Reaches (step lib) (Fresh lib) none file →
      Regular lib file ∧ Unique lib file := by
    intro file h
    refine h.invariant (fun file => Regular lib file ∧ Unique lib file)
      ⟨regular_absent lib, List.nodup_nil⟩ ?_
    intro console file file' ⟨hregular, hunique⟩ hfresh hstep
    obtain ⟨hregular', hiff⟩ := step_unique hlib hregular hunique hstep
    exact ⟨hregular', hiff.mpr hfresh⟩
  constructor
  · intro file h
    exact (hreach file h).2
  · intro file console file' h hstep hstale hunique'
    obtain ⟨hregular, hunique⟩ := hreach file h
    exact hstale ((step_unique hlib hregular hunique hstep).2.mp hunique')

end

/-- These answers. -/
def typing (answers : String) : Console := ⟨0, 1, ⟨ascii answers, false, false⟩⟩

theorem unique_two : ∃ file, Reaches (step bookReference) (Fresh bookReference) none file
    ∧ (ids bookReference file).length = 2 ∧ Unique bookReference file := by
  have hrun : ∃ file, exec (step bookReference) (Fresh bookReference)
      [typing "7\nAda\n\n\n", typing "8\nBob\n\n\n"] none = some file
      ∧ (ids bookReference file).length = 2 :=
    ⟨_, rfl, by decide +kernel⟩
  obtain ⟨file, hexec, hlength⟩ := hrun
  have hreach := reaches_of_exec hexec
  exact ⟨file, hreach, hlength, (unique_iff_fresh bookReference_documented).1 file hreach⟩

/-- Nobody objects to a second 7. -/
theorem not_unique : ¬ ∀ file, Reaches (step bookReference) anyStep none file →
    Unique bookReference file := by
  intro h
  have hrun : ∃ file, exec (step bookReference) anyStep
      [typing "7\nAda\n\n\n", typing "7\nBob\n\n\n"] none = some file
      ∧ ids bookReference file = [7, 7] :=
    ⟨_, rfl, by decide +kernel⟩
  obtain ⟨file, hexec, hids⟩ := hrun
  have hunique := h file (reaches_of_exec hexec)
  rw [Unique, hids] at hunique
  exact absurd hunique (by decide)

end Ids

end Assignment.ProtoBuff
