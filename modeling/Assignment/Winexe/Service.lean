import Assignment.Lib.CString
import Assignment.Lib.Shell

/-!
# The winexe service

`winexesvc.c`, which `winexe` installs on the host: a thread for each
control connection (`handle_connection`) reads command lines off the control
pipe and answers on it. A `run` makes three more pipes, waits for the client
to open them, and starts a process on them; a byte on the control pipe while
the process runs terminates it. What Windows answers is a parameter,
`Windows`. A `Thread` is what a connection has come to, and its operations
are what the thread does between two waits.
-/

namespace Assignment.Winexe

open CString Istream
open Shell (literal)

/-- `VERSION` -/
def version : Nat := 1 * 100 + 0

/-- `MAX_COMMAND_LENGTH` -/
def maxCommandLength : Nat := 32768

/-- The pipes of a process. -/
inductive Std
  | pin | pout | perr
deriving DecidableEq, Repr

/-- `connection_context`, without the handles. -/
structure Context where
  connNumber : UInt32
  implevel : Int
  system : Int
  runas : Option Text
deriving DecidableEq, Repr

/-- `credentials` -/
structure Credentials where
  user : Text
  domain : Text
  password : Option Text
deriving DecidableEq, Repr

/-- What `get_token` makes `c->token` of. -/
inductive Token
  /-- `LogonUser` -/
  | logon (crd : Credentials)
  /-- the service's own token, duplicated at this level -/
  | process (implevel : Int)
  /-- the token of the client of the control pipe, duplicated at this level -/
  | client (implevel : Int)
deriving DecidableEq, Repr

/-- What Windows answers to the calls of one connection's thread: `none`, or
the `GetLastError()` of a call that fails. -/
structure Windows where
  /-- `GetCurrentProcessId()` -/
  processId : UInt32
  logonUser : Credentials → Option UInt32
  openProcessToken : Option UInt32
  impersonateNamedPipeClient : Option UInt32
  openThreadToken : Option UInt32
  duplicateTokenEx : Option UInt32
  revertToSelf : Option UInt32
  createNamedPipe : Std → Option UInt32
  createProcessAsUser : Token → Text → Option UInt32

/-- The call that `cmd_run` is about: the command line and the token. -/
structure Launch where
  cmdline : Text
  token : Token
deriving DecidableEq, Repr

/-- Where a connection's thread is. -/
inductive Phase
  /-- in `hgets`, which has read this much -/
  | reading (line : Text)
  /-- in `ConnectNamedPipe` of this pipe -/
  | connecting (p : Std) (l : Launch)
  /-- in `WaitForMultipleObjects` -/
  | waiting
  /-- in `FlushFileBuffers` of the process's pipes, with `ec` to report -/
  | flushing (ec : UInt32)
  /-- out of its loop: it flushes the control pipe, disconnects and returns -/
  | finished
deriving DecidableEq, Repr

/-- What a command does: the texts it gives to `hprintf`, in order. -/
structure Effect where
  out : List Text
  context : Context
  phase : Phase
deriving DecidableEq, Repr

/-! ## Texts -/

def space : UInt8 := 0x20

/-- `%d` of a `GetLastError()`. -/
def errorNumber (e : UInt32) : Text := Ostream.showInt e.toInt32.toInt

/-- What `hprintf` writes of a text, from its buffer of 1024 bytes. -/
def hprintf (text : Text) : Text := text.take 1023

/-- A text that ends its line. -/
def line (text : Text) : Text := text ++ [newline]

/-- `%s` -/
def showString : Option Text → Text
  | some text => text
  | none => literal "(null)"

def Std.name : Std → Text
  | .pin => literal "in"
  | .pout => literal "out"
  | .perr => literal "err"

/-- `\\.\pipe\` and `PIPE_NAME_IN`, `PIPE_NAME_OUT` or `PIPE_NAME_ERR` -/
def Std.pipeName (p : Std) (nr : UInt32) : Text :=
  literal "\\\\.\\pipe\\ahexec_std" ++ p.name ++ hex8 nr

/-- `%08X`, but `%08x` for the last of the three pipes. -/
def Std.hex (p : Std) (n : UInt32) : Text :=
  match p with
  | .perr => (hex8 n).map fun c => if 0x41 ≤ c ∧ c ≤ 0x46 then c + 0x20 else c
  | _ => hex8 n

/-! ## The commands -/

/-- `cmd_set` -/
def cmdSet (c : Context) (cmd : Text) : Effect :=
  match strchr space cmd with
  | none => ⟨[], c, .finished⟩
  | some (_, cmdline) =>
      -- the name of the variable and one blank
      let argument (name : Text) : Option Text :=
        if cmdline.take (name.length + 1) = name ++ [space] then
          some (cmdline.drop (name.length + 1))
        else none
      match argument (literal "system") with
      | some a => ⟨[], { c with system := atoi a }, .reading []⟩
      | none =>
          match argument (literal "implevel") with
          | some a => ⟨[], { c with implevel := atoi a }, .reading []⟩
          | none =>
              match argument (literal "runas") with
              | some a => ⟨[], { c with runas := some a }, .reading []⟩
              | none => ⟨[line (literal "error Unknown commad (" ++ cmd ++ literal ")")], c, .finished⟩

/-- `cmd_get` -/
def cmdGet (c : Context) (cmd : Text) : Effect :=
  match strchr space cmd with
  | none => ⟨[], c, .finished⟩
  | some (_, cmdline) =>
      if cmdline = literal "version" then
        ⟨[line (literal "version 0x" ++ hexPad 4 version)], c, .reading []⟩
      else
        ⟨[line (literal "error Unknown argument (" ++ cmd ++ literal ")")], c, .finished⟩

/-- The second half of `prepare_credentials`: what stands behind the domain. -/
def splitPassword (domain rest : Text) : Credentials :=
  match strchr 0x25 rest with
  | some (user, password) => ⟨user, domain, some password⟩
  | none => ⟨rest, domain, none⟩

/-- `prepare_credentials` -/
def prepareCredentials (str : Text) : Credentials :=
  match strchr 0x2F str with
  | some (domain, rest) => splitPassword domain rest
  | none =>
      match strchr 0x5C str with
      | some (domain, rest) => splitPassword domain rest
      | none => splitPassword (literal ".") str

/-- What is sent on a failed call, and that there is no token. -/
def noToken (call : String) (e : UInt32) : List Text × Option Token :=
  ([line (literal call ++ literal " " ++ errorNumber e)], none)

/-- `get_token` from `DuplicateTokenEx` on. -/
def duplicate (w : Windows) (token : Token) : List Text × Option Token :=
  match w.duplicateTokenEx with
  | none => ([], some token)
  | some e => noToken "error Cannot Duplicate Token" e

/-- `get_token` from `finishRevertToSelf` on. -/
def revert (w : Windows) (result : List Text × Option Token) : List Text × Option Token :=
  match w.revertToSelf with
  | none => result
  | some e => (result.1 ++ (noToken "error Cannot RevertToSelf" e).1, none)

/-- `get_token` -/
def getToken (w : Windows) (c : Context) : List Text × Option Token :=
  match c.runas with
  | some str =>
      let crd := prepareCredentials str
      match w.logonUser crd with
      | none => ([], some (.logon crd))
      | some e =>
          ([line (literal "error Cannot LogonUser(" ++ crd.user ++ literal "," ++ crd.domain
            ++ literal "," ++ showString crd.password ++ literal ") " ++ errorNumber e)], none)
  | none =>
      if c.system ≠ 0 then
        match w.openProcessToken with
        | some e => noToken "error Cannot OpenProcessToken" e
        | none => duplicate w (.process c.implevel)
      else
        match w.impersonateNamedPipeClient with
        | some e => noToken "error Cannot ImpersonateNamedPipeClient" e
        | none =>
            match w.openThreadToken with
            | some e => revert w (noToken "error Cannot OpenThreadToken" e)
            | none => revert w (duplicate w (.client c.implevel))

/-- `pipe_nr` -/
def pipeNr (w : Windows) (c : Context) : UInt32 := (w.processId <<< 16) + c.connNumber

/-- The three `CreateNamedPipe` calls, up to the first that fails. -/
def createPipes (w : Windows) (nr : UInt32) : List Std → Option Text
  | [] => none
  | p :: ps =>
      match w.createNamedPipe p with
      | some e => some (line (literal "error Cannot create " ++ p.name ++ literal " pipe("
          ++ p.pipeName nr ++ literal "), error 0x" ++ p.hex e))
      | none => createPipes w nr ps

/-- `cmd_run`, up to its first wait. -/
def cmdRun (w : Windows) (c : Context) (cmd : Text) : Effect :=
  match strchr space cmd with
  | none => ⟨[], c, .finished⟩
  | some (_, cmdline) =>
      match getToken w c with
      | (out, none) => ⟨out, c, .finished⟩
      | (out, some token) =>
          match createPipes w (pipeNr w c) [.pin, .pout, .perr] with
          | some error => ⟨out ++ [error], c, .finished⟩
          | none =>
              ⟨out ++ [line (literal "std_io_err " ++ hex8 (pipeNr w c))], c,
                .connecting .pin ⟨cmdline, token⟩⟩

/-- The line has this name, followed by a blank or nothing. -/
def named (name cmd : Text) : Bool :=
  cmd.take name.length = name ∧ (cmd[name.length]? = none ∨ cmd[name.length]? = some space)

/-- A turn of the loop of `handle_connection`: `cmd_table`. -/
def handle (w : Windows) (c : Context) (buffer : Text) : Effect :=
  let cmd := cString buffer
  if named (literal "run") cmd then cmdRun w c cmd
  else if named (literal "set") cmd then cmdSet c cmd
  else if named (literal "get") cmd then cmdGet c cmd
  else ⟨[line (literal "error Ignoring unknown command (" ++ cmd ++ literal ")")], c, .reading []⟩

/-! ## The thread -/

/-- The thread of a connection. `out` is what it has written and not yet
seen flushed, `created` what `CreateProcessAsUser` has succeeded for. -/
structure Thread where
  context : Context
  phase : Phase
  out : List Text
  created : List Launch
  /-- the exit code of the process, once it has ended -/
  exitCode : Option UInt32
  /-- `TerminateProcess` has been called -/
  killed : Bool
  /-- the code in the `return_code` line -/
  reported : Option UInt32
deriving DecidableEq, Repr

namespace Thread

/-- A thread at the start of `handle_connection`. -/
def start (connNumber : UInt32) : Thread :=
  ⟨⟨connNumber, 0, 0, none⟩, .reading [], [], [], none, false, none⟩

/-- What happens when `hgets` returns this line. -/
def gets (w : Windows) (t : Thread) (buffer : Text) : Thread :=
  if buffer = [] then { t with phase := .finished }
  else
    let e := handle w t.context buffer
    { t with out := t.out ++ e.out.map hprintf, context := e.context, phase := e.phase }

/-- A byte for `hgets`. -/
def getc (w : Windows) (t : Thread) (buffer : Text) (b : UInt8) : Thread :=
  if b = newline then t.gets w buffer
  else if buffer.length + 2 = maxCommandLength then t.gets w (buffer ++ [b])
  else { t with phase := .reading (buffer ++ [b]) }

/-- `CreateProcessAsUser` -/
def createProcess (w : Windows) (t : Thread) (l : Launch) : Thread :=
  match w.createProcessAsUser l.token l.cmdline with
  | none => { t with created := t.created ++ [l], phase := .waiting }
  | some e =>
      { t with
        out := t.out ++ [hprintf (line (literal "error Creating process(" ++ l.cmdline
          ++ literal ") " ++ errorNumber e))]
        phase := .finished }

/-- `ConnectNamedPipe` returns. -/
def connect (w : Windows) (t : Thread) (p : Std) (l : Launch) (ok : Bool) : Thread :=
  if ok then
    match p with
    | .pin => { t with phase := .connecting .pout l }
    | .pout => { t with phase := .connecting .perr l }
    | .perr => t.createProcess w l
  else
    { t with
      out := t.out ++ [hprintf (line (literal "error ConnectNamedPipe(p" ++ p.name ++ literal ")"))]
      phase := .finished }

/-- `WaitForMultipleObjects` returns for the control pipe. -/
def terminate (t : Thread) : Thread :=
  { t with exitCode := some (t.exitCode.getD 0x1234), killed := true, phase := .flushing 0x1234 }

/-- `WaitForMultipleObjects` returns for the process, which has ended with
this code. -/
def reap (t : Thread) (ec : UInt32) : Thread := { t with phase := .flushing ec }

/-- The process's pipes are flushed. -/
def report (t : Thread) (ec : UInt32) : Thread :=
  { t with
    out := t.out ++ [hprintf (line (literal "return_code " ++ hex8 ec))]
    reported := some ec
    phase := .finished }

end Thread

end Assignment.Winexe
