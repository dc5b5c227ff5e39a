import Assignment.ProtoBuff.AddressBook
import Assignment.ProtoBuff.Prompt

/-!
# `add_person` (add_person.cc)

One run of the program on one file: `readBook` and `writeBook` are the two
blocks of `main` around the dialogue, and `Write` is what may become of the
output file. Neither a failed parse nor a failed flush is looked at, and
the file is truncated before anything is written, so a run that cannot do
its work leaves the file alone only in the cases of `Harmless`.
-/

namespace Assignment.ProtoBuff

variable {T : Type}

/-- What becomes of the output: everything is written; the file cannot be
opened; `SerializeToOstream` sees a write fail after `k` bytes; or it sees
none, but the flush by the destructor fails with only the first `k` bytes,
or all but the last, in the file. -/
inductive Write
  | completes
  | openFails
  | serializeFails (k : Nat)
  | closeFails (k : Nat)
deriving DecidableEq, Repr

/-- The messages of `main`. -/
inductive Report
  | usage
  | fileNotFound
  | failedToWrite
deriving DecidableEq, Repr

/-- How a run ends: the exit status, the file, and the messages of `main`. -/
structure Ended where
  status : Int
  file : Option Bytes
  reports : List Report
deriving DecidableEq, Repr

/-- What a run is given besides the file: the uninitialised `id`, the time,
and standard input. -/
structure Console where
  garbage : Int32
  now : Int
  cin : Istream

/-- The book as read from the file, whether that succeeded or not. -/
def readBook (lib : Library T) : Option Bytes → AddressBook T
  | none => {}
  -- what could be parsed is kept, whether the flag is `true` or not
  | some bytes => (AddressBook.parseFromIstream lib bytes).1

/-- The person entered. -/
def entered (lib : Library T) (console : Console) : Person T :=
  (promptForAddress lib console.garbage console.now console.cin {}).1

/-- The book with one more person. -/
def AddressBook.add (book : AddressBook T) (person : Person T) : AddressBook T :=
  { book with people := book.people ++ [person] }

theorem AddressBook.add_stored {lib : Library T} {book : AddressBook T} {person : Person T}
    (hbook : book.Stored lib) (hperson : person.Stored lib) : (book.add person).Stored lib :=
  ⟨hbook.1, List.forall_mem_append.mpr ⟨hbook.2, List.forall_mem_singleton.mpr hperson⟩⟩

theorem AddressBook.add_text {rt : Runtime} {book : AddressBook T} {person : Person T} :
    (book.add person).Text rt ↔ book.Text rt ∧ person.Text rt := by
  simp only [Text, add, List.forall_mem_append, List.forall_mem_singleton]

/-- `AddressBook::SerializeToOstream` on a truncated file: the file
afterwards, and the returned flag. A message that is too large is refused
before anything is written. -/
def serializeToOstream (lib : Library T) (book : AddressBook T) (w : Write) : Bytes × Bool :=
  let bytes := book.serializeWithCachedSizes lib
  if lib.sizeLimit < book.byteSizeLong lib then ([], false)
  else match w with
    | .serializeFails k => (bytes.take k, false)
    | .closeFails k => (bytes.dropLast.take k, true)
    | _ => (bytes, true)

/-- Without trouble, the flag says that the whole book was written. -/
theorem serializeToOstream_completes {lib : Library T} {book : AddressBook T}
    (h : (serializeToOstream lib book .completes).2 = true) :
    (serializeToOstream lib book .completes).1 = book.serializeWithCachedSizes lib
      ∧ book.byteSizeLong lib ≤ lib.sizeLimit := by
  by_cases hlarge : lib.sizeLimit < book.byteSizeLong lib
  · simp [serializeToOstream, hlarge] at h
  · simp [serializeToOstream, hlarge, Nat.le_of_not_lt hlarge]

/-- The block that writes the book back, on the file as it is. -/
def writeBook (lib : Library T) (file : Option Bytes) (book : AddressBook T) (w : Write) :
    Option Bytes × Bool :=
  if w = .openFails then (file, false)
  else
    let r := serializeToOstream lib book w
    (some r.1, r.2)

/-- The book that a run writes. -/
def newBook (lib : Library T) (console : Console) (file : Option Bytes) : AddressBook T :=
  (readBook lib file).add (entered lib console)

/-- `main` -/
def main (lib : Library T) (argc : Nat) (console : Console) (file : Option Bytes) (w : Write) :
    Ended :=
  if argc ≠ 2 then ⟨-1, file, [.usage]⟩
  else
    let found := if file.isNone then [Report.fileNotFound] else []
    let written := writeBook lib file (newBook lib console file) w
    if written.2 then ⟨0, written.1, found⟩
    else ⟨-1, written.1, found ++ [.failedToWrite]⟩

/-! ## Runs that go wrong -/

/-- The file exists and does not parse. -/
def Corrupt (lib : Library T) (file : Option Bytes) : Prop :=
  ∃ bytes, file = some bytes ∧ (AddressBook.parseFromIstream lib bytes).2 = false

/-- A failure to do its work leaves the file as it was and is reported. -/
def FailsSafely (lib : Library T) (console : Console) (file : Option Bytes) (w : Write) : Prop :=
  Corrupt lib file ∨ w ≠ .completes ∨ lib.sizeLimit < (newBook lib console file).byteSizeLong lib →
    (main lib 2 console file w).file = file ∧ (main lib 2 console file w).status ≠ 0

/-- The file cannot be opened; or it was absent or parsed, and the new book
is written whole; or `SerializeToOstream` fails when it has written just
what the file held before. -/
def Harmless (lib : Library T) (book : AddressBook T) (file : Option Bytes) (w : Write) : Prop :=
  let tooLarge := lib.sizeLimit < book.byteSizeLong lib
  match w with
  | .openFails => True
  | .completes => (¬ tooLarge ∧ ¬ Corrupt lib file) ∨ (tooLarge ∧ file = some [])
  | .serializeFails k =>
      (¬ tooLarge ∧ file = some ((book.serializeWithCachedSizes lib).take k))
        ∨ (tooLarge ∧ file = some [])
  | .closeFails _ => tooLarge ∧ file = some []

/-- A run leaves what `writeBook` leaves, and its status is the flag. -/
theorem main_eq (lib : Library T) (console : Console) (file : Option Bytes) (w : Write) :
    (main lib 2 console file w).file = (writeBook lib file (newBook lib console file) w).1
      ∧ ((main lib 2 console file w).status ≠ 0
        ↔ (writeBook lib file (newBook lib console file) w).2 = false) := by
  cases hw : (writeBook lib file (newBook lib console file) w).2 with
  | true => simp [main, hw]
  | false => simp [main, hw]

/-- A run with exit status `0` and no trouble with the output. -/
theorem main_completes {lib : Library T} {console : Console} {file : Option Bytes}
    (h : (main lib 2 console file .completes).status = 0) :
    (main lib 2 console file .completes).file
        = some ((newBook lib console file).serializeWithCachedSizes lib)
      ∧ (newBook lib console file).byteSizeLong lib ≤ lib.sizeLimit := by
  obtain ⟨hfile, hstatus⟩ := main_eq lib console file .completes
  have hflag : (serializeToOstream lib (newBook lib console file) .completes).2 = true := by
    by_contra hfalse
    exact hstatus.mpr (Bool.not_eq_true _ ▸ hfalse) h
  obtain ⟨hbytes, hsize⟩ := serializeToOstream_completes hflag
  exact ⟨hfile.trans (congrArg some hbytes), hsize⟩

/-- **`add_person` fails without damage, exactly**: only in the harmless
cases. -/
theorem failsSafely_iff (lib : Library T) (console : Console) (file : Option Bytes) (w : Write) :
    FailsSafely lib console file w ↔ Harmless lib (newBook lib console file) file w := by
  obtain ⟨hfile, hstatus⟩ := main_eq lib console file w
  rw [FailsSafely, hfile, hstatus]
  generalize newBook lib console file = book
  unfold Harmless writeBook serializeToOstream
  by_cases hlarge : lib.sizeLimit < book.byteSizeLong lib
  · -- nothing is written then, unless the file cannot even be opened
    cases w with
    | openFails => simp
    | completes => simp [hlarge, @eq_comm _ file]
    | serializeFails k => simp [hlarge, @eq_comm _ file]
    | closeFails k => simp [hlarge, @eq_comm _ file]
  · cases w with
    | openFails => simp
    | completes => simp [hlarge]
    | serializeFails k => simp [hlarge, @eq_comm _ file]
    | closeFails k => simp [hlarge]

/-- A file that holds a lone tag, a run that adds one person, and no trouble
with the output: the file is replaced, and the run reports success. -/
theorem corrupt_overwritten : ¬ ∀ (console : Console) (file : Option Bytes) (w : Write),
    FailsSafely bookReference console file w := by
  intro h
  have hcorrupt : Corrupt bookReference (some [0x0A]) := ⟨[0x0A], rfl, by decide +kernel⟩
  have hsafe := h ⟨0, 0, ⟨ascii "7\nAda\n\n\n", false, false⟩⟩ (some [0x0A]) .completes
    (.inl hcorrupt)
  exact hsafe.2 (by decide +kernel)

end Assignment.ProtoBuff
