import Assignment.Lib.Shell

/-!
# `OsVersion.sh`

The loop over the hosts file. What the commands in its body come to is an
`Outcome`; what the body itself decides, for a line and an outcome, is a
`Turn`: the array `name`, the words that `winexe` is called with, and what
the redirections do to files. The commands do not read from the hosts file,
which has a descriptor of its own, so that the lines do not depend on the
turns.
-/

namespace Assignment.GetOsVersion

open Shell

/-- A line, without its newline. -/
abbrev Line := { text : List UInt8 // Istream.newline ∉ text }

/-- The line as a command prints it. -/
def Line.printed (l : Line) : List UInt8 := l.1 ++ [Istream.newline]

/-- What happens to the commands of one turn, and the current directory as
each command line finds it. -/
structure Outcome where
  /-- The directory at `name=($line)`. -/
  atArray : Directory
  /-- The number that `ping … | grep … | wc -l` prints. -/
  count : Nat
  /-- The exit status of `ssh … exit`. -/
  probe : Nat
  atReport : Directory
  /-- The two lines that `uname -s; uname -r` has to report. -/
  uname : Line × Line
  /-- How many bytes of them the reporting `ssh` writes. -/
  arrived : Nat
  atOsName : Directory
  /-- The line that `grep -w "OS Name:"` finds. -/
  osName : Option Line
  atOsVersion : Directory
  /-- The line that `grep -w "OS Version:"` finds. -/
  osVersion : Option Line

namespace Outcome

/-- Both lines of the reporting `ssh`. -/
def sshOutput (o : Outcome) : List UInt8 := o.uname.1.printed ++ o.uname.2.printed

/-- What a `grep` prints. -/
def grepOutput (found : Option Line) : List UInt8 := (found.map Line.printed).getD []

end Outcome

/-- The words of `//${name[0]}` and `${name[1]}%${name[2]}` in a call of
`winexe`. -/
structure Call where
  host : List Word
  credentials : List Word
deriving DecidableEq, Repr

/-- What a redirection does: the file it opens, `>>` or `>`, and the output
that goes there. -/
structure Write where
  target : Word
  append : Bool
  content : List UInt8
deriving DecidableEq, Repr

structure Turn where
  name : List Word
  calls : List Call
  writes : List Write
deriving DecidableEq, Repr

/-- `${name[0]}.txt` -/
def reportFile (ip : Word) : Word := ip ++ literal ".txt"

/-- `${name[1]}%${name[2]}` -/
def credentials (user password : Word) : Word := user ++ literal "%" ++ password

/-- A command with its output redirected: if the target is not one word, the
shell refuses and nothing is opened. -/
def redirected (target : Option Word) (append : Bool) (content : List UInt8) : List Write :=
  match target with
  | some target => [⟨target, append, content⟩]
  | none => []

/-- `./winexe //${name[0]} -U ${name[1]}%${name[2]} 'systeminfo'` -/
def winexe (dir : Directory) (name : List Word) : Call where
  host := dir.unquoted (literal "//" ++ name.getD 0 [])
  credentials := dir.unquoted (credentials (name.getD 1 []) (name.getD 2 []))

/-- The body of the loop. -/
def body (o : Outcome) (line : List UInt8) : Turn :=
  let name := o.atArray.unquoted line
  let file := reportFile (name.getD 0 [])
  if o.count = 0 then ⟨name, [], []⟩
  else if o.probe = 0 then
    ⟨name, [], redirected (o.atReport.redirect file) false (o.sshOutput.take o.arrived)⟩
  else
    ⟨name, [winexe o.atOsName name, winexe o.atOsVersion name],
      redirected (o.atOsName.redirect file) false (Outcome.grepOutput o.osName)
        ++ redirected (o.atOsVersion.redirect file) true (Outcome.grepOutput o.osVersion)⟩

/-- The turns of the loop over these lines. -/
def turns (outcomes : Nat → Outcome) : List (List UInt8) → List Turn
  | [] => []
  | line :: lines => body (outcomes 0) line :: turns (fun n => outcomes (n + 1)) lines

/-- `while read -u10 line … done 10< "$filename"` -/
def osVersion (outcomes : Nat → Outcome) (hosts : List UInt8) : List Turn :=
  turns outcomes (readLines hosts)

theorem turns_length (outcomes : Nat → Outcome) (lines : List (List UInt8)) :
    (turns outcomes lines).length = lines.length := by
  induction lines generalizing outcomes with
  | nil => rfl
  | cons line lines ih => rw [turns, List.length_cons, List.length_cons, ih]

/-! ## Hosts files -/

/-- Printable, and no blank. -/
def isPrintable (c : UInt8) : Bool := 0x20 < c ∧ c ≠ 0x7F

/-- A field of a line of the hosts file. -/
abbrev Field := { w : Word // w ≠ [] ∧ ∀ c ∈ w, isPrintable c = true }

/-- `IP,user,pwd` -/
structure Host where
  ip : Field
  user : Field
  password : Field

namespace Host

/-- The line of a host: its fields with single blanks between them. -/
def line (h : Host) : List UInt8 := h.ip.1 ++ 0x20 :: (h.user.1 ++ 0x20 :: h.password.1)

def fields (h : Host) : List Word := [h.ip.1, h.user.1, h.password.1]

end Host

/-- The lines of these hosts, with or without a newline after the last. -/
def hostsFile : List Host → Bool → List UInt8
  | [], _ => []
  | h :: hosts, final =>
      h.line ++ if hosts.isEmpty && !final then [] else Istream.newline :: hostsFile hosts final

end Assignment.GetOsVersion
