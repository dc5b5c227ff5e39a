import Assignment.Lib.Runs
import Assignment.Winexe.Client

/-!
# Client and service

The client's callbacks and the threads of its control connections, composed
over the pipes between them. A pipe keeps the order of what is written to
it. `WriteFile` and `FlushFileBuffers` in `hprintf` make the thread wait
until the client has read the text, so the thread's `out` is the control
pipe towards the client, of which one text at a time is there. A `read` of
the client takes what is there, up to 256 bytes of it.
-/

namespace Assignment.Winexe

open Runs CString Istream

/-- A control connection: its thread, the control pipe towards it, and the
pipes of its process. -/
structure Control where
  thread : Thread
  toService : Text
  /-- the client has its end open -/
  attached : Bool
  /-- the client has opened the pipe -/
  opened : Std → Bool
  /-- the client has closed it again -/
  lost : Std → Bool
  /-- what the process has written and the client has not read -/
  unread : Std → Text
  /-- all that the process has written -/
  produced : Std → Text

/-- What a thread, or its process, does. -/
inductive Move
  /-- `hgets` reads a byte -/
  | getc
  /-- `hgets` meets the end of the pipe -/
  | eof
  /-- `ConnectNamedPipe` returns, with this result -/
  | connect (ok : Bool)
  | writes (p : Std) (data : Text)
  | exits (ec : UInt32)
  /-- the wait ends with the control pipe -/
  | terminate
  /-- the wait ends with the process -/
  | reap
  /-- the process's pipes are flushed -/
  | flush
deriving DecidableEq, Repr

namespace Control

/-- A connection as `server_loop` hands it to a thread. -/
def start (connNumber : UInt32) : Control :=
  ⟨Thread.start connNumber, [], true, fun _ => false, fun _ => false, fun _ => [], fun _ => []⟩

/-- What the thread has written is flushed, or nobody is there to read it. -/
def quiet (k : Control) : Bool := k.thread.out = [] ∨ k.attached = false

/-- `FlushFileBuffers` of this pipe returns. -/
def drained (k : Control) (p : Std) : Bool := k.unread p = [] ∨ k.lost p = true

/-- The pipes of the process are there. -/
def piped (k : Control) : Bool :=
  match k.thread.phase with
  | .connecting _ _ | .waiting | .flushing _ => true
  | .reading _ | .finished => false

/-- The moves in `hgets`. -/
def inGets (w : Windows) (k : Control) (buffer : Text) : Move → Option Control
  | .getc =>
      match k.toService with
      | b :: rest =>
          if k.quiet then some { k with thread := k.thread.getc w buffer b, toService := rest }
          else none
      | [] => none
  | .eof =>
      if k.toService = [] ∧ k.attached = false then
        some { k with thread := k.thread.gets w buffer }
      else none
  | _ => none

/-- The moves in `ConnectNamedPipe`. -/
def inConnect (w : Windows) (k : Control) (p : Std) (l : Launch) : Move → Option Control
  | .connect ok =>
      if k.quiet ∧ (ok = true → k.opened p = true) then
        some { k with thread := k.thread.connect w p l ok }
      else none
  | _ => none

/-- The moves in `WaitForMultipleObjects`. -/
def inWait (k : Control) : Move → Option Control
  | .writes p data =>
      if k.thread.exitCode = none ∧ p ≠ .pin ∧ k.lost p = false then
        some { k with
          unread := Function.update k.unread p (k.unread p ++ data)
          produced := Function.update k.produced p (k.produced p ++ data) }
      else none
  | .exits ec =>
      if k.thread.exitCode = none then
        some { k with thread := { k.thread with exitCode := some ec } }
      else none
  | .terminate =>
      if k.toService ≠ [] ∨ k.attached = false then
        some { k with thread := k.thread.terminate, toService := k.toService.tail }
      else none
  | .reap => k.thread.exitCode.map fun ec => { k with thread := k.thread.reap ec }
  | _ => none

/-- The move in `FlushFileBuffers`. -/
def inFlush (k : Control) (ec : UInt32) : Move → Option Control
  | .flush =>
      if k.drained .pout ∧ k.drained .perr then some { k with thread := k.thread.report ec }
      else none
  | _ => none

def step (w : Windows) (m : Move) (k : Control) : Option Control :=
  match k.thread.phase with
  | .reading buffer => k.inGets w buffer m
  | .connecting p l => k.inConnect w p l m
  | .waiting => k.inWait m
  | .flushing ec => k.inFlush ec m
  | .finished => none

/-! ### What the moves can do -/

section

variable {w : Windows} {m : Move} {k k' : Control}

theorem out_of_quiet (h : k.quiet = true) (hattached : k.attached = true) : k.thread.out = [] := by
  rw [quiet, decide_eq_true_eq] at h
  rcases h with h | h
  · exact h
  · rw [hattached] at h
    cases h

theorem inGets_cases {buffer : Text} (h : k.inGets w buffer m = some k') :
    (∃ b rest, k.toService = b :: rest ∧ k.quiet = true
        ∧ k' = { k with thread := k.thread.getc w buffer b, toService := rest })
      ∨ k.toService = [] ∧ k.attached = false
          ∧ k' = { k with thread := k.thread.gets w buffer } := by
  cases m with
  | getc =>
      rw [inGets] at h
      split at h
      · rename_i b rest htext
        obtain ⟨hquiet, heq⟩ := Option.ite_none_right_eq_some.mp h
        cases heq
        exact .inl ⟨b, rest, htext, hquiet, rfl⟩
      · cases h
  | eof =>
      obtain ⟨⟨htext, hattached⟩, heq⟩ := Option.ite_none_right_eq_some.mp h
      cases heq
      exact .inr ⟨htext, hattached, rfl⟩
  | _ => cases h

theorem inConnect_cases {p : Std} {l : Launch} (h : k.inConnect w p l m = some k') :
    ∃ ok, k.quiet = true ∧ (ok = true → k.opened p = true)
      ∧ k' = { k with thread := k.thread.connect w p l ok } := by
  cases m with
  | connect ok =>
      obtain ⟨⟨hquiet, hopened⟩, heq⟩ := Option.ite_none_right_eq_some.mp h
      cases heq
      exact ⟨ok, hquiet, hopened, rfl⟩
  | _ => cases h

theorem inWait_cases (h : k.inWait m = some k') :
    (∃ p data, k.thread.exitCode = none ∧ p ≠ .pin ∧ k.lost p = false
        ∧ k' = { k with
            unread := Function.update k.unread p (k.unread p ++ data)
            produced := Function.update k.produced p (k.produced p ++ data) })
      ∨ (∃ ec, k.thread.exitCode = none
          ∧ k' = { k with thread := { k.thread with exitCode := some ec } })
      ∨ (k.toService ≠ [] ∨ k.attached = false)
          ∧ k' = { k with thread := k.thread.terminate, toService := k.toService.tail }
      ∨ ∃ ec, k.thread.exitCode = some ec ∧ k' = { k with thread := k.thread.reap ec } := by
  cases m with
  | writes p data =>
      obtain ⟨⟨hcode, hpin, hlost⟩, heq⟩ := Option.ite_none_right_eq_some.mp h
      cases heq
      exact .inl ⟨p, data, hcode, hpin, hlost, rfl⟩
  | exits ec =>
      obtain ⟨hcode, heq⟩ := Option.ite_none_right_eq_some.mp h
      cases heq
      exact .inr (.inl ⟨ec, hcode, rfl⟩)
  | terminate =>
      obtain ⟨hcond, heq⟩ := Option.ite_none_right_eq_some.mp h
      cases heq
      exact .inr (.inr (.inl ⟨hcond, rfl⟩))
  | reap =>
      obtain ⟨ec, hcode, heq⟩ := Option.map_eq_some_iff.mp h
      exact .inr (.inr (.inr ⟨ec, hcode, heq.symm⟩))
  | _ => cases h

theorem inFlush_cases {ec : UInt32} (h : k.inFlush ec m = some k') :
    k.drained .pout = true ∧ k.drained .perr = true
      ∧ k' = { k with thread := k.thread.report ec } := by
  cases m with
  | flush =>
      obtain ⟨⟨hout, herr⟩, heq⟩ := Option.ite_none_right_eq_some.mp h
      cases heq
      exact ⟨hout, herr, rfl⟩
  | _ => cases h

theorem gets_reported (t : Thread) (buffer : Text) : (t.gets w buffer).reported = t.reported := by
  rw [Thread.gets]
  split <;> rfl

theorem getc_reported (t : Thread) (buffer : Text) (b : UInt8) :
    (t.getc w buffer b).reported = t.reported := by
  rw [Thread.getc]
  split
  · exact gets_reported t buffer
  · split
    · exact gets_reported t _
    · rfl

theorem createProcess_reported (t : Thread) (l : Launch) :
    (t.createProcess w l).reported = t.reported := by
  rw [Thread.createProcess]
  split <;> rfl

theorem connect_reported (t : Thread) (p : Std) (l : Launch) (ok : Bool) :
    (t.connect w p l ok).reported = t.reported := by
  cases ok with
  | false => rfl
  | true =>
      cases p with
      | perr => exact createProcess_reported t l
      | _ => rfl

/-- A move does not touch the client's end, and what it reports it has also
written. -/
theorem step_attached (h : step w m k = some k') :
    k'.attached = k.attached ∧ (k'.thread.reported = k.thread.reported ∨ k'.thread.out ≠ []) := by
  rw [step] at h
  split at h
  · rcases inGets_cases h with ⟨b, rest, -, -, rfl⟩ | ⟨-, -, rfl⟩
    · exact ⟨rfl, .inl (getc_reported _ _ _)⟩
    · exact ⟨rfl, .inl (gets_reported _ _)⟩
  · obtain ⟨ok, -, -, rfl⟩ := inConnect_cases h
    exact ⟨rfl, .inl (connect_reported _ _ _ _)⟩
  · rcases inWait_cases h with ⟨p, data, -, -, -, rfl⟩ | ⟨ec, -, rfl⟩ | ⟨-, rfl⟩ | ⟨ec, -, rfl⟩
      <;> exact ⟨rfl, .inl rfl⟩
  · obtain ⟨-, -, rfl⟩ := inFlush_cases h
    exact ⟨rfl, .inr (by simp [Thread.report])⟩
  · cases h

end

/-- The client writes to the control pipe. -/
def receive (k : Control) (data : Text) : Control := { k with toService := k.toService ++ data }

/-- The client is gone. -/
def detach (k : Control) : Control := { k with attached := false, lost := fun _ => true }

end Control

/-- The client and its connections. -/
structure System where
  client : Client
  controls : List Control
  /-- the connection behind `ac_ctrl` -/
  fd : Option Nat
  /-- an `async_open` of the control pipe is on its way -/
  opening : Bool
  /-- an `async_close` of it is -/
  closing : Bool
  /-- the number of the pipes that `ac_in`, `ac_out` and `ac_err` are for -/
  npipe : Option UInt32
  /-- what has been written to the client's standard output and error -/
  written : Std → Text
  /-- all calls of the callbacks -/
  calls : List Call

/-- What happens next. -/
inductive Action
  /-- `async_open_recv`, of the connection that the service counts so -/
  | opened (connNumber : UInt32)
  /-- the same with an error, and what `svc_install` would return -/
  | openFailed (notFound installed : Bool)
  /-- `async_read_recv` of the control pipe with data -/
  | read
  | readFailed
  | writeFailed
  /-- `async_close_recv` -/
  | closed
  | timer
  | signal (sig : Signal)
  /-- the other pipes: `async_open_recv`, `async_read_recv`, and
  `async_close` after an error -/
  | openStd (p : Std) (i : Nat)
  | readStd (p : Std) (i : Nat)
  | loseStd (p : Std) (i : Nat)
  | thread (i : Nat) (m : Move)
deriving DecidableEq, Repr

namespace System

/-- Carry out a call. -/
def perform (s : System) (call : Call) : System :=
  let s := { s with calls := s.calls ++ [call] }
  match call with
  | .install | .uninstall => s
  | .openCtrl => { s with opening := true }
  | .closeCtrl => { s with closing := true }
  | .writeCtrl data =>
      match s.fd with
      | some i => { s with controls := s.controls.modify i fun k => k.receive data }
      | none => s
  | .openStd npipe => { s with npipe := some npipe }

/-- A callback of the client. -/
def react (s : System) (r : Reaction) : System :=
  let s' := r.2.foldl perform { s with client := r.1 }
  if r.1.exit.isSome then { s' with controls := s'.controls.map Control.detach } else s'

/-- `main`, up to the event loop. -/
def start (o : Options) : System :=
  let r := Client.start o
  react ⟨r.1, [], none, false, false, none, fun _ => [], []⟩ r

/-- The connection that the client is reading from, and the text there. -/
def incoming (s : System) : Option (Nat × Control × Text) :=
  match s.fd with
  | none => none
  | some i =>
      match s.controls[i]? with
      | none => none
      | some k => k.thread.out.head?.map fun text => (i, k, text)

/-- The rest of a text after a read. -/
def afterRead (out : List Text) : List Text :=
  match out with
  | [] => []
  | text :: more => if text.length ≤ 256 then more else text.drop 256 :: more

/-- `async_read_recv` with data. -/
def read (o : Options) (s : System) : Option System :=
  s.incoming.map fun (i, k, text) =>
    let k' := { k with thread := { k.thread with out := afterRead k.thread.out } }
    react { s with controls := s.controls.set i k' } (s.client.onCtrlPipeRead o (text.take 256))

/-- The action of one pipe of one connection. -/
def onControl (s : System) (i : Nat) (f : Control → Option Control) : Option System :=
  (s.controls[i]?).bind fun k => (f k).map fun k' => { s with controls := s.controls.set i k' }

/-- An action of the client. -/
def clientStep (o : Options) (w : Windows) (s : System) : Action → Option System
  | .opened connNumber =>
      if s.opening then
        let s := { s with
          opening := false
          fd := some s.controls.length
          controls := s.controls ++ [Control.start connNumber] }
        some (react s s.client.onCtrlPipeOpen)
      else none
  | .openFailed notFound installed =>
      if s.opening then
        some (react { s with opening := false }
          (s.client.onCtrlPipeError o .openRecv notFound installed))
      else none
  | .read => s.read o
  | .readFailed =>
      if s.fd.isSome then some (react s (s.client.onCtrlPipeError o .readRecv false false))
      else none
  | .writeFailed =>
      if s.fd.isSome then some (react s (s.client.onCtrlPipeError o .writeRecv false false))
      else none
  | .closed =>
      if s.closing then
        some (react { s with
          closing := false
          fd := none
          controls := match s.fd with
            | some i => s.controls.modify i Control.detach
            | none => s.controls } s.client.onCtrlPipeClose)
      else none
  | .timer => if 0 < s.client.timers then some (react s s.client.timer) else none
  | .signal sig => some (react s (s.client.signal sig))
  | .openStd p i =>
      s.onControl i fun k =>
        -- the name that is opened is that of the connection's pipe
        if k.piped ∧ s.npipe = some (pipeNr w k.thread.context) ∧ k.opened p = false then
          some { k with opened := Function.update k.opened p true }
        else none
  | .readStd p i =>
      match s.controls[i]? with
      | none => none
      | some k =>
          if k.opened p ∧ k.lost p = false ∧ k.unread p ≠ [] then
            let k' := { k with unread := Function.update k.unread p ((k.unread p).drop 256) }
            some { s with
              controls := s.controls.set i k'
              written := Function.update s.written p (s.written p ++ (k.unread p).take 256) }
          else none
  | .loseStd p i =>
      s.onControl i fun k =>
        if k.opened p then some { k with lost := Function.update k.lost p true } else none
  | .thread _ _ => none

def step (o : Options) (w : Windows) (a : Action) (s : System) : Option System :=
  match a with
  | .thread i m => s.onControl i (Control.step w m)
  | a => if s.client.exit.isSome then none else s.clientStep o w a

variable {o : Options} {w : Windows} {a : Action} {s s' : System}

/-- A step is one of a thread, or of a client that is still there. -/
theorem step_cases (h : step o w a s = some s') :
    (∃ i m, a = .thread i m ∧ s.onControl i (Control.step w m) = some s')
      ∨ s.client.exit = none ∧ s.clientStep o w a = some s' := by
  cases a with
  | thread i m => exact .inl ⟨i, m, rfl, h⟩
  | _ =>
      right
      rw [step] at h
      · split at h
        · cases h
        · rename_i hexit
          exact ⟨by simpa using hexit, h⟩
      · simp

end System

end Assignment.Winexe
