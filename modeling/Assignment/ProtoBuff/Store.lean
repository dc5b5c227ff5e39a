import Assignment.Lib.Runs
import Assignment.ProtoBuff.AddPerson

/-!
# The address book as a store

Runs of `add_person` one after the other on a file that is absent at first,
each with an answer to every question. Writing accepts any bytes in a
string, parsing only valid UTF-8, and `main` does not look at the result of
the parse: while every book is written whole, the file holds the people
entered exactly as long as all strings typed were valid (`kept_iff_utf8`).
-/

namespace Assignment.ProtoBuff

open Runs

variable {T : Type}

/-- One run: what is typed, what the run finds in `id` and on the clock, and
what becomes of its output. -/
structure Entry where
  answers : Answers
  garbage : Int32
  now : Int
  write : Write

def Entry.console (e : Entry) : Console := ⟨e.garbage, e.now, ⟨e.answers.stdin, false, false⟩⟩

/-- The file, and the answers of all runs so far. -/
structure Store where
  file : Option Bytes
  entered : List Answers

/-- Id, name, email and phones of a person. -/
def Person.typed (p : Person T) : Int32 × Bytes × Bytes × List PhoneNumber :=
  (p.id, p.name, p.email, p.phones)

/-- The same of what is typed. -/
def Answers.typed (a : Answers) : Int32 × Bytes × Bytes × List PhoneNumber :=
  (a.id.value, a.name.1, a.email.1, Answers.phoneNumbers a.phones)

namespace Store

def absent : Store := ⟨none, []⟩

/-- A run that exits with `0`. -/
def step (lib : Library T) (e : Entry) (s : Store) : Option Store :=
  let ended := main lib 2 e.console s.file e.write
  if ended.status = 0 then some ⟨ended.file, s.entered ++ [e.answers]⟩ else none

/-- All strings typed are valid UTF-8, and the book is written whole: an exit
with `0` does not say so, since the last flush is not looked at. -/
def Legible (lib : Library T) (e : Entry) (_ : Store) : Prop :=
  e.answers.Utf8 lib.toRuntime ∧ e.write = .completes

instance (lib : Library T) (e : Entry) (s : Store) : Decidable (Legible lib e s) :=
  inferInstanceAs (Decidable (_ ∧ _))

/-- After each run the file parses, and its people are those entered, in
order. -/
def Kept (lib : Library T) (s : Store) : Prop :=
  s.entered ≠ [] → ∃ bytes book, s.file = some bytes
    ∧ AddressBook.parseFromIstream lib bytes = (book, true)
    ∧ book.people.map Person.typed = s.entered.map Answers.typed

/-! ## The invariant of legible runs -/

/-- The file holds this book, written out. -/
structure Holds (lib : Library T) (s : Store) (book : AddressBook T) : Prop where
  file : (s.entered = [] ∧ s.file = none ∧ book = {})
    ∨ (s.file = some (book.serializeWithCachedSizes lib) ∧ book.byteSizeLong lib ≤ lib.sizeLimit)
  typed : book.people.map Person.typed = s.entered.map Answers.typed
  stored : book.Stored lib
  text : book.Text lib.toRuntime

namespace Holds

theorem start (lib : Library T) : Holds lib absent {} where
  file := .inl ⟨rfl, rfl, rfl⟩
  typed := rfl
  stored := ⟨.nil, by simp⟩
  text := by simp [AddressBook.Text]

variable {lib : Library T} (hlib : lib.Documented) {s s' : Store} {book : AddressBook T} {e : Entry}
include hlib

theorem parses (hs : Holds lib s book) (hsome : s.entered ≠ []) :
    ∃ bytes, s.file = some bytes ∧ AddressBook.parseFromIstream lib bytes = (book, true) := by
  have hlimit := hlib.size_limit
  rcases hs.file with ⟨hnil, -⟩ | ⟨hfile, hsize⟩
  · exact absurd hnil hsome
  · exact ⟨_, hfile, AddressBook.parses hlib (by omega) hs.stored hs.text⟩

theorem readBook (hs : Holds lib s book) : readBook lib s.file = book := by
  have hlimit := hlib.size_limit
  rcases hs.file with ⟨-, hfile, rfl⟩ | ⟨hfile, hsize⟩
  · rw [hfile, ProtoBuff.readBook]
  · rw [hfile, ProtoBuff.readBook, AddressBook.parses hlib (by omega) hs.stored hs.text]

/-- A run adds the person typed. -/
theorem newBook (hs : Holds lib s book) (e : Entry) : newBook lib e.console s.file
    = book.add (e.answers.person (lib.secondsToTimestamp e.now)) := by
  rw [ProtoBuff.newBook, hs.readBook hlib, ProtoBuff.entered, Entry.console,
    Answers.promptForAddress_answers]

omit hlib in
theorem person_stored (e : Entry) :
    (e.answers.person (lib.secondsToTimestamp e.now)).Stored lib := by
  have h := promptForAddress_stored lib e.garbage e.now ⟨e.answers.stdin, false, false⟩
  rwa [Answers.promptForAddress_answers] at h

theorem step_cases (hs : Holds lib s book) (hwrite : e.write = .completes)
    (hstep : step lib e s = some s') :
    s' = ⟨some ((book.add (e.answers.person
        (lib.secondsToTimestamp e.now))).serializeWithCachedSizes lib), s.entered ++ [e.answers]⟩
      ∧ (book.add (e.answers.person (lib.secondsToTimestamp e.now))).byteSizeLong lib
        ≤ lib.sizeLimit := by
  rw [step, hwrite] at hstep
  obtain ⟨hstatus, hsome⟩ := Option.ite_none_right_eq_some.mp hstep
  obtain ⟨hfile, hsize⟩ := main_completes hstatus
  rw [hs.newBook hlib] at hfile hsize
  cases hsome
  exact ⟨by rw [hfile], hsize⟩

theorem step_legible (hs : Holds lib s book) (hlegible : Legible lib e s)
    (hstep : step lib e s = some s') :
    Holds lib s' (book.add (e.answers.person (lib.secondsToTimestamp e.now))) := by
  obtain ⟨hutf, hwrite⟩ := hlegible
  obtain ⟨rfl, hsize⟩ := hs.step_cases hlib hwrite hstep
  refine ⟨.inr ⟨rfl, hsize⟩, ?_, AddressBook.add_stored hs.stored (person_stored e),
    AddressBook.add_text.mpr ⟨hs.text, (e.answers.person_text _ _).mpr hutf⟩⟩
  simp only [AddressBook.add, List.map_append, hs.typed]
  rfl

/-- After a string that is not valid UTF-8 the file no longer parses. -/
theorem step_invalid (hs : Holds lib s book) (hwrite : e.write = .completes)
    (hutf : ¬ e.answers.Utf8 lib.toRuntime) (hstep : step lib e s = some s') :
    ¬ Kept lib s' := by
  have hlimit := hlib.size_limit
  obtain ⟨rfl, hsize⟩ := hs.step_cases hlib hwrite hstep
  have htext : ¬ (book.add (e.answers.person (lib.secondsToTimestamp e.now))).Text
      lib.toRuntime := by
    rw [AddressBook.add_text, Answers.person_text]
    exact fun h => hutf h.2
  have hfails := AddressBook.fails hlib (by omega)
    (AddressBook.add_stored hs.stored (person_stored e)) htext
  intro hkept
  obtain ⟨bytes, book', hfile, hparse, -⟩ := hkept (by simp)
  rw [Option.some.injEq] at hfile
  rw [hfile, hparse] at hfails
  cases hfails

end Holds

/-! ## Any number of runs -/

/-- **The store over runs, exactly**: while all strings typed are valid UTF-8
and every book is written whole, the file holds, after every run, the people
entered so far; the first whole book with a string that is not leaves a file
that does not parse. -/
theorem kept_iff_utf8 {lib : Library T} (hlib : lib.Documented) :
    (∀ s, Reaches (step lib) (Legible lib) absent s → Kept lib s)
      ∧ ∀ s e s', Reaches (step lib) (Legible lib) absent s → step lib e s = some s' →
          e.write = .completes → ¬ e.answers.Utf8 lib.toRuntime → ¬ Kept lib s' := by
  have hholds : ∀ s, Reaches (step lib) (Legible lib) absent s → ∃ book, Holds lib s book :=
    fun s h => h.invariant (fun s => ∃ book, Holds lib s book) ⟨{}, Holds.start lib⟩
      fun _ _ _ ⟨_, hs⟩ hlegible hstep => ⟨_, hs.step_legible hlib hlegible hstep⟩
  constructor
  · intro s h hsome
    obtain ⟨book, hs⟩ := hholds s h
    obtain ⟨bytes, hfile, hparse⟩ := hs.parses hlib hsome
    exact ⟨bytes, book, hfile, hparse, hs.typed⟩
  · intro s e s' h hstep hwrite hutf
    obtain ⟨book, hs⟩ := hholds s h
    exact hs.step_invalid hlib hwrite hutf hstep

/-- A person with this name, no email and one phone. -/
def named (name : Bytes) (h : Istream.newline ∉ name) : Entry where
  answers :=
    { id := ⟨true, ascii "42", .ofInt (-42), by decide, by decide +kernel, by decide⟩
      name := ⟨name, h⟩
      email := ⟨[], by decide⟩
      phones := [(⟨⟨ascii "555", by decide⟩, by decide⟩, ⟨ascii "work", by decide⟩)] }
  garbage := 0
  now := 1
  write := .completes

theorem kept_two : ∃ s, Reaches (step bookReference) (Legible bookReference) absent s
    ∧ s.entered.length = 2 ∧ Kept bookReference s := by
  have hrun : ∃ s, exec (step bookReference) (Legible bookReference)
      [named (ascii "Ada") (by decide), named [0xC3, 0x89] (by decide)] absent = some s
      ∧ s.entered.length = 2 :=
    ⟨_, rfl, by decide +kernel⟩
  obtain ⟨s, hexec, hlength⟩ := hrun
  have hreach := reaches_of_exec hexec
  exact ⟨s, hreach, hlength, (kept_iff_utf8 bookReference_documented).1 s hreach⟩

/-- One name that is not UTF-8. -/
theorem not_kept : ¬ ∀ s, Reaches (step bookReference) anyStep absent s →
    Kept bookReference s := by
  intro h
  have hrun : ∃ s, exec (step bookReference) anyStep [named [0xFF] (by decide)] absent = some s
      ∧ s.entered ≠ [] ∧ ∀ bytes, s.file = some bytes →
        (AddressBook.parseFromIstream bookReference bytes).2 = false :=
    ⟨_, rfl, by decide +kernel, fun bytes hbytes => by
      cases hbytes
      decide +kernel⟩
  obtain ⟨s, hexec, hsome, hfails⟩ := hrun
  obtain ⟨bytes, book, hfile, hparse, -⟩ := h s (reaches_of_exec hexec) hsome
  have hfalse := hfails bytes hfile
  rw [hparse] at hfalse
  cases hfalse

end Store

end Assignment.ProtoBuff
