import Assignment.Lib.CString
import Assignment.Lib.Shell

/-!
# The credentials file

`cli_credentials_parse_file`, with what it calls of `credentials.c` and
`lib/util`: the file is cut into lines, a line into a parameter and its
value, and every line that names a parameter sets it anew, the domain in
upper case. The result is the value of the last such line
(`cliCredentialsParseFile_eq`).
-/

namespace Assignment.Winexe

open CString Istream
open Shell (literal)

/-- `cli_credentials`, as far as `parse_args` reads it. -/
structure CliCredentials where
  domain : Option Text
  username : Option Text
  password : Option Text
deriving DecidableEq, Repr

namespace CliCredentials

/-- `cli_credentials_init` -/
def init : CliCredentials := ⟨none, none, none⟩

end CliCredentials

/-- `file_lines_parse`: a line ends at its newline, a carriage return or a NUL.
What stands behind the last newline is not counted, nor are blank lines at
the end. -/
def fileLinesParse (content : Text) : List Text :=
  ((content.splitOn newline).dropLast.map fun line =>
    line.takeWhile fun c => c ≠ 0x0D ∧ c ≠ 0).rdropWhile (· = [])

/-- `toupper`, in the C locale. -/
def toupper (c : UInt8) : UInt8 := if 0x61 ≤ c ∧ c ≤ 0x7A then c - 0x20 else c

/-- `strupper_talloc`. What becomes of a string that is not ASCII depends on the
configured character set, and may be no string at all: `other`. -/
def strupperTalloc (other : Text → Option Text) (src : Text) : Option Text :=
  if ∀ c ∈ src, c < 0x80 then some (src.map toupper) else other src

/-- What is left of a string for `strwicmp`. -/
def folded (text : Text) : Text := (text.filter fun c => ¬ isSpace c).map toupper

/-- `strwicmp(name, param) == 0`: neither case nor white space counts, wherever
it stands. -/
def strwicmp (name param : Text) : Bool := folded name = folded param

/-- A line, broken up into parameter and value without the blanks in front. -/
def paramValue (line : Text) : Option (Text × Text) :=
  -- `len` is a `uint16_t`
  if line.length % 65536 = 0 then none
  else (strchr 0x3D line).map fun (param, val) =>
    (param, val.dropWhile fun c => c = 0x20 ∨ c = 0x09)

/-- A turn of the loop of `cli_credentials_parse_file`; `parse_args` does not
read the realm. -/
def CliCredentials.assign (other : Text → Option Text) (cred : CliCredentials)
    (line : Text × Text) : CliCredentials :=
  if strwicmp (literal "password") line.1 then { cred with password := some line.2 }
  else if strwicmp (literal "username") line.1 then { cred with username := some line.2 }
  else if strwicmp (literal "domain") line.1 then
    { cred with domain := strupperTalloc other line.2 }
  else cred

/-- The parameters and values of a file. -/
def assignments (content : Text) : List (Text × Text) :=
  (fileLinesParse content).filterMap paramValue

/-- `cli_credentials_parse_file` on a new `cli_credentials`; `none` is a file that
cannot be opened. -/
def cliCredentialsParseFile (other : Text → Option Text) (file : Option Text) : CliCredentials :=
  match file with
  | some content => (assignments content).foldl (CliCredentials.assign other) .init
  | none => .init

/-! ## The last line counts -/

/-- The value of the last line that names this parameter. -/
def lastValue (name : Text) (lines : List (Text × Text)) : Option Text :=
  (lines.filter fun line => strwicmp name line.1).getLast?.map Prod.snd

theorem lastValue_concat (name : Text) (lines : List (Text × Text)) (line : Text × Text) :
    lastValue name (lines ++ [line])
      = if strwicmp name line.1 then some line.2 else lastValue name lines := by
  rw [lastValue, List.filter_append]
  by_cases h : strwicmp name line.1 = true
  · simp [h]
  · simp [h, lastValue]

/-- A parameter has one name. -/
theorem strwicmp_ne {name name' param : Text} (hne : folded name ≠ folded name')
    (h : strwicmp name param = true) : strwicmp name' param = false := by
  rw [strwicmp, decide_eq_true_eq] at h
  exact decide_eq_false fun h' => hne (h.trans h'.symm)

/-- **What is read of a credentials file**: the values of the last lines that
name user, password and domain, the domain in upper case. -/
theorem cliCredentialsParseFile_eq (other : Text → Option Text) (content : Text) :
    cliCredentialsParseFile other (some content)
      = ⟨(lastValue (literal "domain") (assignments content)).bind (strupperTalloc other),
        lastValue (literal "username") (assignments content),
        lastValue (literal "password") (assignments content)⟩ := by
  rw [cliCredentialsParseFile]
  induction assignments content using List.reverseRecOn with
  | nil => rfl
  | append_singleton lines line ih =>
      rw [List.foldl_append, List.foldl_cons, List.foldl_nil, ih]
      simp only [lastValue_concat, CliCredentials.assign]
      by_cases hpassword : strwicmp (literal "password") line.1 = true
      · have husername := strwicmp_ne (by decide : _ ≠ folded (literal "username")) hpassword
        have hdomain := strwicmp_ne (by decide : _ ≠ folded (literal "domain")) hpassword
        simp [hpassword, husername, hdomain]
      · by_cases husername : strwicmp (literal "username") line.1 = true
        · have hdomain := strwicmp_ne (by decide : _ ≠ folded (literal "domain")) husername
          simp [hpassword, husername, hdomain]
        · by_cases hdomain : strwicmp (literal "domain") line.1 = true
          · simp [hpassword, husername, hdomain]
          · simp [hpassword, husername, hdomain]

/-- A tab, another case, blanks in a name, and a last line without its newline,
which is not read. -/
example : cliCredentialsParseFile (fun _ => none)
    (some (literal "user name = bob\r\nDOMAIN=\tcorp\npassword = x=y\nusername = eve"))
      = ⟨some (literal "CORP"), some (literal "bob"), some (literal "x=y")⟩ := by
  decide +kernel

end Assignment.Winexe
