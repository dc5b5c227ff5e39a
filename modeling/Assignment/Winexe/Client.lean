import Assignment.Lib.Buffer
import Assignment.Winexe.Service

/-!
# The winexe client

`winexe.c` after the connection to the host stands: a `winexe_context` and
the callbacks on the control pipe. A callback returns the context it leaves
behind and the calls it makes, in order. What the callbacks of the other
three pipes do is forwarding only and is left to the system.
-/

namespace Assignment.Winexe

open CString Istream
open Shell (literal)

/-! ## Options -/

def svcIgnoreInteractive : UInt32 := 2
def svcForceUpload : UInt32 := 4
def svcUninstall : UInt32 := 32
def svcSystem : UInt32 := 64

/-- `program_options`, as far as the protocol depends on them. -/
structure Options where
  cmd : Text
  runas : Option Text
  flags : UInt32

namespace Options

def has (o : Options) (flag : UInt32) : Bool := o.flags &&& flag ≠ 0

/-- What is sent once the version is accepted. -/
def script (o : Options) : Text :=
  match o.runas with
  | some runas => line (literal "set runas " ++ runas) ++ line (literal "run " ++ o.cmd)
  | none =>
      (if o.has svcSystem then line (literal "set system 1") else [])
        ++ line (literal "run " ++ o.cmd)

end Options

/-! ## The context -/

/-- `STATE_OPENING` and so on; `STATE_CLOSING` is never used. -/
inductive State
  | opening | gettingVersion | running | closingForReinstall
deriving DecidableEq, Repr

/-- `SIGINT` and `SIGTERM` -/
inductive Signal
  | int | term
deriving DecidableEq, Repr

inductive Exit
  | status (n : Nat)
  | killed (sig : Signal)
deriving DecidableEq, Repr

/-- A call of a callback. -/
inductive Call
  | install
  | uninstall
  /-- `async_open` of the control pipe -/
  | openCtrl
  | writeCtrl (data : Text)
  | closeCtrl
  /-- `async_open` of the three pipes with this number -/
  | openStd (npipe : UInt32)
deriving DecidableEq, Repr

/-- The callback that reports an error. -/
inductive Func
  | openRecv | readRecv | writeRecv
deriving DecidableEq, Repr

/-- `winexe_context` with the statics of `winexe.c`. -/
structure Client where
  state : State
  returnCode : UInt32
  /-- the service was installed after a failed open -/
  activated : Bool
  /-- `ac_ctrl->buffer` -/
  buffer : Text
  /-- the timers that are set -/
  timers : Nat
  abortRequested : Bool
  /-- `catch_alarm` handles the signal -/
  handled : Signal → Bool
  exit : Option Exit

/-- What a callback leaves behind. -/
abbrev Reaction := Client × List Call

namespace Client

/-- `exit_program` -/
def exitProgram (o : Options) (c : Client) : Reaction :=
  ({ c with exit := some (.status (c.returnCode.toNat % 256)) },
    if o.has svcUninstall then [.uninstall] else [])

/-- `on_ctrl_pipe_error`; `notFound` is whether the status is
`NT_STATUS_OBJECT_NAME_NOT_FOUND`, `installed` whether `svc_install`
succeeds. -/
def onCtrlPipeError (o : Options) (func : Func) (notFound installed : Bool) (c : Client) :
    Reaction :=
  if !c.activated && notFound then
    if installed then ({ c with activated := true }, [.install, .openCtrl])
    else
      let r := exitProgram o { c with returnCode := 1 }
      (r.1, .install :: r.2)
  else
    match func with
    | .openRecv => exitProgram o { c with returnCode := 1 }
    | .readRecv => if c.state = .opening then (c, []) else exitProgram o c
    | .writeRecv => exitProgram o c

def getVersion : Text := line (literal "get version")

def abort : Text := line (literal "abort")

/-- `on_ctrl_pipe_open` -/
def onCtrlPipeOpen (c : Client) : Reaction :=
  ({ c with state := .gettingVersion, timers := c.timers + 1, handled := fun _ => true },
    [.writeCtrl getVersion])

/-- `timer`, of one of the timers set. -/
def timer (c : Client) : Reaction :=
  if c.abortRequested then ({ c with timers := c.timers - 1 }, [.writeCtrl abort]) else (c, [])

/-- `SIGINT` or `SIGTERM`: `catch_alarm`, or the default action. -/
def signal (sig : Signal) (c : Client) : Reaction :=
  if c.handled sig then
    ({ c with abortRequested := true, handled := Function.update c.handled sig false }, [])
  else ({ c with exit := some (.killed sig) }, [])

/-- `cmd_check(data, cmd, len)`: what stands behind the command. -/
def cmdCheck (data cmd : Text) (len : Nat) : Option Text :=
  if len ≤ cmd.length then none
  else if data.take cmd.length = cmd
      ∧ (data[cmd.length]? = some space ∨ data[cmd.length]? = some newline) then
    some (data.drop (cmd.length + 1))
  else none

/-- `ver/10 != VERSION/10` -/
def badVersion (p : Text) : Bool :=
  (Int32.ofNat (strtoul 0 p)).toInt.tdiv 10 ≠ (version : Int).tdiv 10

/-- `on_ctrl_pipe_read`, of a chunk that has been read into the buffer. -/
def onCtrlPipeRead (o : Options) (c : Client) (chunk : Text) : Reaction :=
  let data := Buffer.overwrite c.buffer chunk
  let c := { c with buffer := data }
  match cmdCheck data (literal "std_io_err") chunk.length with
  | some p => (c, [.openStd (UInt32.ofNat (strtoul 16 p))])
  | none =>
      match cmdCheck data (literal "return_code") chunk.length with
      | some p => ({ c with returnCode := UInt32.ofNat (strtoul 16 p) }, [])
      | none =>
          match cmdCheck data (literal "version") chunk.length with
          | some p =>
              if badVersion p then ({ c with state := .closingForReinstall }, [.closeCtrl])
              else ({ c with state := .running }, [.writeCtrl o.script])
          | none =>
              match cmdCheck data (literal "error") chunk.length with
              | some _ =>
                  if c.state = .gettingVersion then
                    ({ c with state := .closingForReinstall }, [.closeCtrl])
                  else (c, [])
              | none => (c, [])

/-- `on_ctrl_pipe_close`; what `svc_uninstall` and `svc_install` return is
ignored. -/
def onCtrlPipeClose (c : Client) : Reaction :=
  if c.state = .closingForReinstall then
    ({ c with state := .opening }, [.uninstall, .install, .openCtrl])
  else (c, [])

/-- `main`, up to the event loop. -/
def start (o : Options) : Reaction :=
  (⟨.opening, 99, false, List.replicate 256 0, 0, false, fun _ => false, none⟩,
    (if o.has svcForceUpload then [.uninstall] else [])
      ++ (if o.has svcIgnoreInteractive then [] else [.install]) ++ [.openCtrl])

end Client

end Assignment.Winexe
