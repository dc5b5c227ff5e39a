import Assignment.ProtoBuff.ListPeople
import Assignment.ProtoBuff.Readable
import Assignment.ProtoBuff.Unique

/-!
# The two programs on one file

Runs of `add_person` on a file that is absent or parses, with anything on
standard input, and `list_people` on what they leave. What either program
finds in the file after any number of runs is known exactly: the people that
were there and those entered since, up to the first string that is not valid
UTF-8 (`reads`). From that person on the file takes nobody any more, although
every run goes on to report success (`swallowed`).
-/

namespace Assignment.ProtoBuff

open Runs

variable {T : Type}

/-- `main` of list_people.cc: the exit status and what is printed. Neither a
missing file nor a failed parse is looked at. -/
def listMain (lib : Library T) (toString : T → Bytes) (argc : Nat) (file : Option Bytes) :
    Int × Bytes :=
  if argc ≠ 2 then (-1, [])
  else
    let book : AddressBook T := match file with
      | none => {}
      | some bytes => (AddressBook.parseFromIstream lib bytes).1
    (0, listPeople toString book)

/-- Both programs find the same book in a file. -/
theorem listMain_eq (lib : Library T) (toString : T → Bytes) (file : Option Bytes) :
    listMain lib toString 2 file = (0, listPeople toString (readBook lib file)) := by
  cases file <;> rfl

/-- The file, and the consoles of all runs so far. -/
structure History where
  file : Option Bytes
  consoles : List Console

namespace History

/-- A run that writes its book whole and exits with `0`. -/
def step (lib : Library T) (console : Console) (s : History) : Option History :=
  (Ids.step lib console s.file).map fun file => ⟨file, s.consoles ++ [console]⟩

/-- The file holds this book at first, or is not there. -/
def Starts (lib : Library T) (file : Option Bytes) (book : AddressBook T) : Prop :=
  (file = none ∧ book = {})
    ∨ ∃ bytes, file = some bytes ∧ AddressBook.parseFromIstream lib bytes = (book, true)

/-- The book with everybody entered since. -/
def book (lib : Library T) (first : AddressBook T) (s : History) : AddressBook T :=
  { first with people := first.people ++ s.consoles.map (entered lib) }

section
variable {lib : Library T} (hlib : lib.Documented) {file : Option Bytes} {first : AddressBook T}
  {s s' : History} {console : Console}
include hlib

theorem starts_valid (h : Starts lib file first) :
    readBook lib file = first ∧ first.Stored lib ∧ first.Text lib.toRuntime := by
  rcases h with ⟨rfl, rfl⟩ | ⟨bytes, rfl, hparse⟩
  · exact ⟨rfl, ⟨.nil, by simp⟩, by simp [AddressBook.Text]⟩
  · obtain ⟨hstored, htext⟩ := AddressBook.valid_of_parse hlib hparse
    exact ⟨by rw [readBook, hparse], hstored, htext⟩

omit hlib in
theorem book_stored (hfirst : first.Stored lib) (s : History) :
    (s.book lib first).Stored lib := by
  refine ⟨hfirst.1, List.forall_mem_append.mpr ⟨hfirst.2, ?_⟩⟩
  intro p hp
  obtain ⟨console, -, rfl⟩ := List.mem_map.mp hp
  exact promptForAddress_stored lib _ _ _

/-- One run adds the person entered, as far as the book can be read. -/
theorem step_reads (hfirst : first.Stored lib)
    (hs : readBook lib s.file = (s.book lib first).readable lib.toRuntime)
    (hstep : step lib console s = some s') :
    readBook lib s'.file = (s'.book lib first).readable lib.toRuntime := by
  have hlimit := hlib.size_limit
  obtain ⟨file', hrun, rfl⟩ := Option.map_eq_some_iff.mp hstep
  obtain ⟨rfl, hsize⟩ := Ids.step_cases hrun
  have hstored : (newBook lib console s.file).Stored lib := by
    refine AddressBook.add_stored ?_ (promptForAddress_stored lib _ _ _)
    rw [hs]
    exact AddressBook.readable_stored (book_stored hfirst s)
  rw [readBook, AddressBook.parse_serialize hlib (by omega) hstored, newBook, hs]
  refine (AddressBook.readable_append lib.toRuntime (s.book lib first)
    [entered lib console]).trans ?_
  simp only [book, List.map_append, List.map_singleton, List.append_assoc]

/-- **What the file holds after any number of runs**, for both programs: the
people there were and those entered since, in order, up to the first string
that is not valid UTF-8. -/
theorem reads (toString : T → Bytes) (hstart : Starts lib file first)
    (h : Reaches (step lib) anyStep ⟨file, []⟩ s) :
    readBook lib s.file = (s.book lib first).readable lib.toRuntime
      ∧ listMain lib toString 2 s.file
        = (0, listPeople toString ((s.book lib first).readable lib.toRuntime)) := by
  obtain ⟨hread, hstored, htext⟩ := starts_valid hlib hstart
  have hreads : readBook lib s.file = (s.book lib first).readable lib.toRuntime := by
    refine h.invariant (fun s => readBook lib s.file = (s.book lib first).readable lib.toRuntime)
      ?_ fun _ _ _ hs _ hstep => step_reads hlib hstored hs hstep
    simp only [book, List.map_nil, List.append_nil]
    rw [hread, AddressBook.readable_of_text htext]
  exact ⟨hreads, by rw [listMain_eq, hreads]⟩

/-- **A person with invalid text swallows everybody after**: once one has been
entered, no later run changes what either program finds in the file. -/
theorem swallowed (toString : T → Bytes) (hstart : Starts lib file first)
    (h : Reaches (step lib) anyStep ⟨file, []⟩ s)
    (hinvalid : ∃ console ∈ s.consoles, ¬ (entered lib console).Text lib.toRuntime)
    (hmore : Reaches (step lib) anyStep s s') :
    readBook lib s'.file = readBook lib s.file
      ∧ listMain lib toString 2 s'.file = listMain lib toString 2 s.file := by
  obtain ⟨console, hconsole, htext⟩ := hinvalid
  have hbook : ¬ (s.book lib first).Text lib.toRuntime := fun hall =>
    htext (hall _ (List.mem_append_right _ (List.mem_map_of_mem hconsole)))
  obtain ⟨more, hmore'⟩ : ∃ more, s'.consoles = s.consoles ++ more := by
    refine hmore.invariant (fun s' => ∃ more, s'.consoles = s.consoles ++ more)
      ⟨[], (List.append_nil _).symm⟩ ?_
    rintro console s₁ s₂ ⟨more, hs₁⟩ - hstep
    obtain ⟨file', -, rfl⟩ := Option.map_eq_some_iff.mp hstep
    exact ⟨more ++ [console], by rw [hs₁, List.append_assoc]⟩
  have hsame : readBook lib s'.file = readBook lib s.file := by
    rw [(reads hlib toString hstart (h.trans hmore)).1, (reads hlib toString hstart h).1]
    have hlater := AddressBook.readable_append_of_not_text hbook (more.map (entered lib))
    simp only [book, List.append_assoc, ← List.map_append, ← hmore'] at hlater
    exact hlater
  exact ⟨hsame, by rw [listMain_eq, listMain_eq, hsame]⟩

end

/-- A book of one person, Eve, in the file, and two more runs. -/
theorem reads_two : ∃ s, Reaches (step bookReference) anyStep
      ⟨some [0x0A, 0x05, 0x0A, 0x03, 0x45, 0x76, 0x65], []⟩ s
    ∧ s.consoles.length = 2
    ∧ readBook bookReference s.file
      = (s.book bookReference ⟨[{ name := ascii "Eve" }], []⟩).readable reference
    ∧ listMain bookReference (fun _ => ascii "now") 2 s.file
      = (0, listPeople (fun _ => ascii "now")
        ((s.book bookReference ⟨[{ name := ascii "Eve" }], []⟩).readable reference)) := by
  have hrun : ∃ s, exec (step bookReference) anyStep
        [Ids.typing "7\nAda\n\n\n", Ids.typing "8\nBob\n\n\n"]
        ⟨some [0x0A, 0x05, 0x0A, 0x03, 0x45, 0x76, 0x65], []⟩ = some s
      ∧ s.consoles.length = 2 :=
    ⟨_, rfl, by decide +kernel⟩
  obtain ⟨s, hexec, hlength⟩ := hrun
  have hreach := reaches_of_exec hexec
  exact ⟨s, hreach, hlength, reads bookReference_documented _
    (.inr ⟨_, rfl, by decide +kernel⟩) hreach⟩

/-- A name of one byte that is not UTF-8, and a run after it. -/
def invalidName : Console := ⟨0, 1, ⟨[0x37, 0x0A, 0xFF, 0x0A, 0x0A, 0x0A], false, false⟩⟩

theorem swallowed_one : ∃ s s', Reaches (step bookReference) anyStep ⟨none, []⟩ s
    ∧ Reaches (step bookReference) anyStep s s' ∧ s'.consoles.length = 2
    ∧ readBook bookReference s'.file = readBook bookReference s.file
    ∧ listMain bookReference (fun _ => ascii "now") 2 s'.file
      = listMain bookReference (fun _ => ascii "now") 2 s.file := by
  have hrun : ∃ s s', exec (step bookReference) anyStep [invalidName] ⟨none, []⟩ = some s
      ∧ exec (step bookReference) anyStep [Ids.typing "8\nBob\n\n\n"] s = some s'
      ∧ s'.consoles.length = 2
      ∧ ∃ console ∈ s.consoles, ¬ (entered bookReference console).Text reference :=
    ⟨_, _, rfl, rfl, by decide +kernel, invalidName, List.Mem.head _, by decide +kernel⟩
  obtain ⟨s, s', hexec, hexec', hlength, hinvalid⟩ := hrun
  have hreach := reaches_of_exec hexec
  have hmore := reaches_of_exec hexec'
  exact ⟨s, s', hreach, hmore, hlength, swallowed bookReference_documented _ (.inl ⟨rfl, rfl⟩)
    hreach hinvalid hmore⟩

end History

end Assignment.ProtoBuff
