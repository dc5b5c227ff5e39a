import Assignment.Lib.CString
import Assignment.Lib.Matcher
import Assignment.Lib.Shell

/-!
# sshpass

`main.c`: the options, the password's source (`write_pass`), the prompts
that are looked for in the output of the command (`handleoutput`), and the
loop of `runprogram`, whose turns are a `pselect` with a `read` of the
terminal and a `waitpid`. What the command writes there, how it is cut into
reads, and when the command ends are up to the turns.
-/

namespace Assignment.Sshpass

open CString Istream
open Shell (literal)

/-! ## Options -/

/-- `args.pwtype` and `args.pwsrc` -/
inductive Source
  | stdin
  | file (filename : Text)
  | fd (fd : Int)
  | pass (password : Text)
deriving DecidableEq, Repr

structure Args where
  source : Source
  pwprompt : Option Text
  verbose : Nat
deriving DecidableEq, Repr

/-- What `getopt` returns. -/
inductive Opt
  /-- `-f` -/
  | file (filename : Text)
  /-- `-d` -/
  | fd (number : Text)
  /-- `-p` -/
  | pass (password : Text)
  /-- `-e` -/
  | env
  /-- `-P` -/
  | prompt (prompt : Text)
  /-- `-v` -/
  | verbose
  /-- `-h` -/
  | help
  /-- `-V` -/
  | version
  /-- `?` and `:` -/
  | invalid
deriving DecidableEq, Repr

/-- What becomes of the options: `main` goes on, or returns this code after
`show_help`, or `-V` has exited. -/
inductive Parsed
  | accepted (a : Args)
  | rejected (error : Nat)
  | exited
deriving DecidableEq, Repr

/-- `args` with a password source, and the error of `VIRGIN_PWTYPE`. -/
def Args.take (a : Args) (source : Source) : Args × Option Nat :=
  ({ a with source := source }, if a.source = .stdin then none else some 2)

/-- A turn of the loop of `parse_options`; `env` is `SSHPASS`. -/
def Args.option (env : Option Text) (a : Args) : Opt → Args × Option Nat
  | .file filename => a.take (.file filename)
  | .fd number => a.take (.fd (atoi number))
  | .pass password => a.take (.pass password)
  | .env =>
      match env with
      | some password => a.take (.pass password)
      | none => (a, some 1)
  | .prompt prompt => ({ a with pwprompt := some prompt }, none)
  | .verbose => ({ a with verbose := a.verbose + 1 }, none)
  | .help => (a, some 0)
  | .version => (a, none)
  | .invalid => (a, some 1)

/-- The loop of `parse_options`. -/
def Args.options (env : Option Text) (a : Args) : List Opt → Parsed
  | [] => .accepted a
  | .version :: _ => .exited
  | opt :: opts =>
      match a.option env opt with
      | (a, none) => a.options env opts
      | (_, some error) => .rejected error

/-- `parse_options` -/
def parseOptions (env : Option Text) (opts : List Opt) : Parsed :=
  Args.options env ⟨.stdin, none, 0⟩ opts

/-! ## The password -/

/-- What a `read` of the password's descriptor returns. -/
abbrev Chunk := { text : Text // text ≠ [] ∧ text.length ≤ 40 }

/-- `write_pass_fd`, with what its reads return before the end of the file. -/
def writePassFd : List Chunk → Text
  | [] => [newline]
  | chunk :: chunks =>
      match strchr newline chunk.1 with
      | some (front, _) => front ++ [newline]
      | none => chunk.1 ++ writePassFd chunks

/-- The password's descriptor. -/
structure Descriptor where
  /-- `open` succeeds -/
  opened : Bool
  chunks : List Chunk

/-- `write_pass`: what it writes to the terminal. -/
def writePass (a : Args) (d : Descriptor) : Text :=
  match a.source with
  | .stdin | .fd _ => writePassFd d.chunks
  | .file _ => if d.opened then writePassFd d.chunks else []
  | .pass password => password ++ [newline]

/-! ## The prompts -/

/-- `PASSWORD_PROMPT` -/
def passwordPrompt : Text := literal "assword"

/-- `compare1` -/
def Args.compare1 (a : Args) : Text := a.pwprompt.getD passwordPrompt

def compare2 : Text := literal "The authenticity of host "

/-- `match` -/
def matchPrompt (reference : Text) : Text → Nat → Nat
  | [], state => state
  | c :: buffer, state =>
      match reference[state]? with
      | none => state
      | some r =>
          if r = c then matchPrompt reference buffer (state + 1)
          else if reference[0]? = some c then matchPrompt reference buffer 1
          else matchPrompt reference buffer 0

/-- The statics of `handleoutput`. -/
structure Statics where
  prevmatch : Bool
  state1 : Nat
  state2 : Nat
deriving DecidableEq, Repr

/-- `handleoutput`, of what has been read: the statics, what is written, and
the value returned. -/
def handleoutput (a : Args) (d : Descriptor) (s : Statics) (buffer : Text) :
    Statics × List Text × Nat :=
  let state1 := matchPrompt a.compare1 buffer s.state1
  let state2 := matchPrompt compare2 buffer s.state2
  let ret := if state2 = compare2.length then 6 else 0
  if state1 = a.compare1.length then
    if s.prevmatch then ({ s with state1 := state1 }, [], 5)
    else (⟨true, 0, state2⟩, [writePass a d], ret)
  else ({ s with state1 := state1, state2 := state2 }, [], ret)

/-! ## The loop -/

/-- What a `read` of the terminal returns. -/
abbrev Buffer := { text : Text // text.length ≤ 255 }

/-- How the command ends. -/
inductive Status
  | exited (code : Nat)
  | signalled (sig : Nat)
deriving DecidableEq, Repr

/-- The state of `runprogram`. Of the reads of the terminal, `first` are those
up to the one that the password was written in answer to (all of them, as
long as it was not), and `later` those after it. -/
structure Session where
  statics : Statics
  terminate : Nat
  sent : List Text
  /-- what `runprogram` has returned -/
  code : Option Nat
  first : List Text
  later : List Text
deriving DecidableEq, Repr

/-- A turn of the loop: what is there to read, and what `waitpid` returns. -/
structure Turn where
  output : Option Buffer
  wait : Option Status

namespace Session

def start : Session := ⟨⟨false, 0, 0⟩, 0, [], none, [], []⟩

/-- The reads of the terminal, in their order. -/
def reads (s : Session) : List Text := s.first ++ s.later

/-- What has been read of the terminal. -/
def received (s : Session) : Text := s.reads.flatten

/-- The value that `runprogram` returns. -/
def exitCode (terminate : Nat) : Status → Nat
  | .exited code => if 0 < terminate then terminate else code
  | .signalled _ => if 0 < terminate then terminate else 255

/-- `handleoutput` in the loop. -/
def handle (a : Args) (d : Descriptor) (s : Session) (buffer : Text) : Session :=
  let r := handleoutput a d s.statics buffer
  { s with
    statics := r.1
    terminate := r.2.2
    sent := s.sent ++ r.2.1
    first := if s.statics.prevmatch then s.first else s.first ++ [buffer]
    later := if s.statics.prevmatch then s.later ++ [buffer] else s.later }

/-- A turn of the loop of `runprogram`. -/
def step (a : Args) (d : Descriptor) (t : Turn) (s : Session) : Option Session :=
  if s.code.isSome then none
  else if s.terminate = 0 then
    let s :=
      match t.output with
      | some buffer => s.handle a d buffer.1
      | none => s
    some { s with code := t.wait.map (exitCode s.terminate) }
  else
    -- the terminal is not read any more, and `waitpid` waits
    match t.output, t.wait with
    | none, some status => some { s with code := some (exitCode s.terminate status) }
    | _, _ => none

end Session

end Assignment.Sshpass
