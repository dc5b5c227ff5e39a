import Assignment.Winexe.Stage

/-!
# The dialogue of client and service

What holds in every state of every interleaving of the client, its signals
and timers, the thread of its connection and the process it starts. The
service is the one of this source, the command a plain one. The invariant
(`Invariant`) says that the client has one connection at most, what it has
written on it, and which stage the connection is in. The results are read
off it: one process, with the command and the token asked for (`launches`);
what the client writes, and that it never takes the service for an old one
(`dialogue`); and what its exit status means (`exit_status`).
-/

namespace Assignment.Winexe

open Runs CString Istream
open Shell (literal)

def Call.written : Call → Option Text
  | .writeCtrl data => some data
  | _ => none

/-- What has been written to control pipes. -/
def writes (calls : List Call) : List Text := calls.filterMap Call.written

/-- The client's side of the dialogue. -/
def Options.dialogue (o : Options) (early late : Nat) (scripted : Bool) : List Text :=
  Client.getVersion :: List.replicate early Client.abort
    ++ if scripted then o.script :: List.replicate late Client.abort else []

namespace System

/-! ## The invariant -/

/-- No control pipe has been opened. -/
structure Unconnected (s : System) : Prop where
  controls : s.controls = []
  fd : s.fd = none
  closing : s.closing = false
  opening : s.client.exit = none → s.opening = true
  sent : writes s.calls = []
  kept : Call.closeCtrl ∉ s.calls
  state : s.client.state = .opening
  buffer : s.client.buffer.length = 256
  timers : s.client.timers = 0
  code : s.client.exit = none → s.client.returnCode = 99
  status : ∀ st, s.client.exit = some (.status st) → st = 1

/-- One has. -/
structure Connected (o : Options) (w : Windows) (s : System) (k : Control) (n : UInt32)
    (early late : Nat) (scripted : Bool) : Prop where
  controls : s.controls = [k]
  fd : s.fd = some 0
  opening : s.opening = false
  closing : s.closing = false
  sent : writes s.calls = o.dialogue early late scripted
  kept : Call.closeCtrl ∉ s.calls
  stage : Stage o w n early late scripted k
  attached : k.attached = s.client.exit.isNone
  state : s.client.exit = none →
    s.client.state = if scripted then .running else .gettingVersion
  buffer : s.client.buffer.length = 256
  aborts : early + late + s.client.timers = 1
  unscripted : scripted = false → late = 0
  code : s.client.returnCode = 99 ∨ k.thread.reported = some s.client.returnCode
  read : ∀ ec, k.thread.reported = some ec → k.thread.out = [] → s.client.returnCode = ec
  status : ∀ st, s.client.exit = some (.status st) → st = s.client.returnCode.toNat % 256

/-- **The invariant** of client and service. -/
def Invariant (o : Options) (w : Windows) (s : System) : Prop :=
  s.Unconnected ∨ ∃ k n early late scripted, s.Connected o w k n early late scripted

theorem writes_append (calls more : List Call) :
    writes (calls ++ more) = writes calls ++ writes more := by
  simp [writes]

theorem dialogue_early (o : Options) (early late : Nat) :
    o.dialogue (early + 1) late false = o.dialogue early late false ++ [Client.abort] := by
  simp [Options.dialogue, List.replicate_succ']

theorem dialogue_late (o : Options) (early late : Nat) :
    o.dialogue early (late + 1) true = o.dialogue early late true ++ [Client.abort] := by
  simp [Options.dialogue, List.replicate_succ']

/-! ## Reactions -/

variable {o : Options} {w : Windows} {s s' : System}

theorem react_nil {c : Client} (hexit : c.exit = none) : s.react (c, []) = { s with client := c } := by
  simp [react, hexit]

theorem react_write {c : Client} (hexit : c.exit = none) {k : Control} (hfd : s.fd = some 0)
    (hcontrols : s.controls = [k]) (data : Text) :
    s.react (c, [.writeCtrl data])
      = { s with
          client := c
          controls := [k.receive data]
          calls := s.calls ++ [.writeCtrl data] } := by
  simp [react, perform, hexit, hfd, hcontrols]

theorem react_openStd {c : Client} (hexit : c.exit = none) (nr : UInt32) :
    s.react (c, [.openStd nr])
      = { s with client := c, npipe := some nr, calls := s.calls ++ [.openStd nr] } := by
  simp [react, perform, hexit]

/-- Calls that only concern the service's installation. -/
def ServiceCalls (calls : List Call) : Prop := ∀ call ∈ calls, call = .install ∨ call = .uninstall

theorem ServiceCalls.foldl {calls : List Call} (h : ServiceCalls calls) (s : System) :
    calls.foldl perform s = { s with calls := s.calls ++ calls } := by
  induction calls generalizing s with
  | nil => simp
  | cons call calls ih =>
      have hperform : s.perform call = { s with calls := s.calls ++ [call] } := by
        rcases h call List.mem_cons_self with rfl | rfl
        · rfl
        · rfl
      rw [List.foldl_cons, hperform, ih fun call hcall => h call (List.mem_cons_of_mem _ hcall)]
      simp

theorem ServiceCalls.writes {calls : List Call} (h : ServiceCalls calls) :
    writes calls = [] ∧ Call.closeCtrl ∉ calls := by
  refine ⟨?_, fun hmem => ?_⟩
  · rw [Winexe.writes, List.filterMap_eq_nil_iff]
    intro call hcall
    rcases h call hcall with rfl | rfl <;> rfl
  · rcases h _ hmem with heq | heq <;> cases heq

theorem exitProgram_calls (o : Options) (c : Client) : ServiceCalls (c.exitProgram o).2 := by
  intro call hcall
  rw [Client.exitProgram] at hcall
  split at hcall
  · exact .inr (List.mem_singleton.mp hcall)
  · cases hcall

/-- The client leaves. -/
theorem react_exit {c : Client} {calls : List Call} (hexit : c.exit.isSome = true)
    (hcalls : ServiceCalls calls) :
    s.react (c, calls)
      = { s with
          client := c
          controls := s.controls.map Control.detach
          calls := s.calls ++ calls } := by
  simp only [react, hexit, if_true, hcalls.foldl]

/-- It opens the control pipe, after these calls. -/
theorem react_open {c : Client} (hexit : c.exit = none) {calls : List Call}
    (hcalls : ServiceCalls calls) :
    s.react (c, calls ++ [.openCtrl])
      = { s with client := c, opening := true, calls := s.calls ++ calls ++ [.openCtrl] } := by
  simp only [react, hexit, List.foldl_append, hcalls.foldl]
  rfl

/-! ## Before the connection -/

theorem unconnected_start (o : Options) : (start o).Unconnected := by
  have hcalls : ServiceCalls ((if o.has svcForceUpload then [.uninstall] else [])
      ++ if o.has svcIgnoreInteractive then [] else [.install]) := by
    intro call hcall
    rcases List.mem_append.mp hcall with hcall | hcall <;> split at hcall
    · exact .inr (List.mem_singleton.mp hcall)
    · cases hcall
    · cases hcall
    · exact .inl (List.mem_singleton.mp hcall)
  obtain ⟨hwrites, -⟩ := hcalls.writes
  rw [start, Client.start, react_open rfl hcalls, List.nil_append]
  refine ⟨rfl, rfl, rfl, fun _ => rfl, ?_, ?_, rfl, List.length_replicate, rfl, fun _ => rfl,
    fun st hst => ?_⟩
  · rw [writes_append, hwrites]
    rfl
  · simp
  · cases hst

/-- The client leaves without a connection. -/
theorem Unconnected.leave (h : s.Unconnected) (opening : Bool) {c : Client} {calls : List Call}
    (hcalls : ServiceCalls calls) (hstate : c.state = .opening) (hbuffer : c.buffer.length = 256)
    (htimers : c.timers = 0) (hexit : c.exit.isSome = true)
    (hstatus : ∀ st, c.exit = some (.status st) → st = 1) :
    (react { s with opening := opening } (c, calls)).Unconnected := by
  have hsome : c.exit ≠ none := fun hnone => by
    rw [hnone] at hexit
    cases hexit
  obtain ⟨hwrites, hclose⟩ := hcalls.writes
  rw [react_exit hexit hcalls]
  refine ⟨?_, h.fd, h.closing, fun hnone => absurd hnone hsome, ?_, ?_, hstate, hbuffer, htimers,
    fun hnone => absurd hnone hsome, hstatus⟩
  · simp [h.controls]
  · rw [writes_append, h.sent, hwrites]
    rfl
  · simp [h.kept, hclose]

theorem Unconnected.openFailed (h : s.Unconnected) (hexit : s.client.exit = none)
    (notFound installed : Bool) :
    (react { s with opening := false }
      (s.client.onCtrlPipeError o .openRecv notFound installed)).Unconnected := by
  have hcalls := exitProgram_calls o { s.client with returnCode := 1 }
  have hstatus : ∀ st, ({ s.client with returnCode := 1 }.exitProgram o).1.exit
      = some (.status st) → st = 1 := by
    intro st hst
    cases hst
    rfl
  rw [Client.onCtrlPipeError]
  split
  · cases installed with
    | true =>
        have hreact := react_open (s := { s with opening := false })
          (c := { s.client with activated := true }) hexit
          (show ServiceCalls [.install] from fun call hcall => .inl (List.mem_singleton.mp hcall))
        rw [if_pos rfl, show ([.install, .openCtrl] : List Call) = [.install] ++ [.openCtrl] from rfl,
          hreact]
        refine ⟨h.controls, h.fd, h.closing, fun _ => rfl, ?_, ?_, h.state, h.buffer, h.timers,
          h.code, h.status⟩
        · rw [writes_append, writes_append, h.sent]
          rfl
        · simp [h.kept]
    | false =>
        refine h.leave false (fun call hcall => ?_) h.state h.buffer h.timers rfl hstatus
        rcases List.mem_cons.mp hcall with rfl | hcall
        · exact .inl rfl
        · exact hcalls call hcall
  · exact h.leave false hcalls h.state h.buffer h.timers rfl hstatus

theorem Unconnected.signal (h : s.Unconnected) (hexit : s.client.exit = none) (sig : Signal) :
    (react s (s.client.signal sig)).Unconnected := by
  rw [Client.signal]
  split
  · rw [react_nil (c := { s.client with
      abortRequested := true
      handled := Function.update s.client.handled sig false }) hexit]
    exact ⟨h.controls, h.fd, h.closing, h.opening, h.sent, h.kept, h.state, h.buffer, h.timers,
      h.code, h.status⟩
  · refine h.leave s.opening (fun call hcall => ?_) h.state h.buffer h.timers rfl fun st hst => ?_
    · cases hcall
    · cases hst

/-- The control pipe opens: `get version` is on its way. -/
theorem Unconnected.connect (h : s.Unconnected) (hexit : s.client.exit = none) (n : UInt32) :
    Connected o w
      (react { s with
        opening := false
        fd := some 0
        controls := [Control.start n] } s.client.onCtrlPipeOpen)
      ((Control.start n).receive Client.getVersion) n 0 0 false := by
  have hreact := react_write (s := { s with
    opening := false
    fd := some 0
    controls := [Control.start n] }) (c := s.client.onCtrlPipeOpen.1) hexit rfl rfl
    Client.getVersion
  rw [show s.client.onCtrlPipeOpen
    = (s.client.onCtrlPipeOpen.1, [.writeCtrl Client.getVersion]) from rfl, hreact]
  refine ⟨rfl, rfl, rfl, h.closing, ?_, ?_, ?_, ?_, fun _ => rfl, h.buffer, ?_, fun _ => rfl,
    .inl (h.code hexit), fun ec hec => ?_, fun st hst => ?_⟩
  · rw [writes_append, h.sent]
    rfl
  · simp [h.kept]
  · exact .asked (Stage.reading_nil rfl rfl) rfl ⟨rfl, rfl, rfl, rfl⟩ fun _ => rfl
  · rw [Control.receive, Control.start, Client.onCtrlPipeOpen, hexit]
    rfl
  · simp [Client.onCtrlPipeOpen, h.timers]
  · cases hec
  · rw [Client.onCtrlPipeOpen, hexit] at hst
    cases hst

/-- **A step without a connection** is that the control pipe is opened, or is
not, or a signal. -/
theorem Unconnected.step_cases (h : s.Unconnected) {a : Action}
    (hstep : System.step o w a s = some s') :
    s.client.exit = none
      ∧ ((∃ n, s' = react { s with
            opening := false
            fd := some 0
            controls := [Control.start n] } s.client.onCtrlPipeOpen)
        ∨ (∃ notFound installed, a = .openFailed notFound installed
            ∧ s' = react { s with opening := false }
              (s.client.onCtrlPipeError o .openRecv notFound installed))
        ∨ ∃ sig, a = .signal sig ∧ s' = react s (s.client.signal sig)) := by
  have hcontrol (i : Nat) (f : Control → Option Control) : s.onControl i f = none := by
    simp [onControl, h.controls]
  rcases System.step_cases hstep with ⟨i, m, -, hthread⟩ | ⟨hexit, hclient⟩
  · rw [hcontrol] at hthread
    cases hthread
  · refine ⟨hexit, ?_⟩
    cases a with
    | opened n =>
        rw [clientStep, h.opening hexit, if_pos rfl, h.controls] at hclient
        cases hclient
        exact .inl ⟨n, rfl⟩
    | openFailed notFound installed =>
        rw [clientStep, h.opening hexit, if_pos rfl] at hclient
        cases hclient
        exact .inr (.inl ⟨notFound, installed, rfl, rfl⟩)
    | signal sig =>
        cases hclient
        exact .inr (.inr ⟨sig, rfl, rfl⟩)
    | read => simp [clientStep, System.read, incoming, h.fd] at hclient
    | readFailed => simp [clientStep, h.fd] at hclient
    | writeFailed => simp [clientStep, h.fd] at hclient
    | closed => simp [clientStep, h.closing] at hclient
    | timer => simp [clientStep, h.timers] at hclient
    | openStd p i => simp [clientStep, hcontrol] at hclient
    | readStd p i => simp [clientStep, h.controls] at hclient
    | loseStd p i => simp [clientStep, hcontrol] at hclient
    | thread i m => cases hclient

theorem Unconnected.step (h : s.Unconnected) {a : Action} (hstep : step o w a s = some s') :
    Invariant o w s' := by
  obtain ⟨hexit, ⟨n, rfl⟩ | ⟨notFound, installed, -, rfl⟩ | ⟨sig, -, rfl⟩⟩ := h.step_cases hstep
  · exact .inr ⟨_, n, 0, 0, false, h.connect hexit n⟩
  · exact .inl (h.openFailed hexit notFound installed)
  · exact .inl (h.signal hexit sig)

/-! ## On the connection -/

/-- A step on the connection, by what it does. -/
inductive Turn (o : Options) (w : Windows) (s : System) (k : Control) : Action → System → Prop
  | thread {i : Nat} {m : Move} {k' : Control} (hmove : Control.step w m k = some k') :
      Turn o w s k (.thread i m) { s with controls := [k'] }
  | read {s' : System} (hexit : s.client.exit = none) (hread : s.read o = some s') :
      Turn o w s k .read s'
  | fails {a : Action} (hexit : s.client.exit = none) (ha : a = .readFailed ∨ a = .writeFailed) :
      Turn o w s k a (s.react (s.client.exitProgram o))
  | timer (hexit : s.client.exit = none) (htimers : 0 < s.client.timers) :
      Turn o w s k .timer (s.react s.client.timer)
  | signal (hexit : s.client.exit = none) (sig : Signal) :
      Turn o w s k (.signal sig) (s.react (s.client.signal sig))
  | openStd {p : Std} {i : Nat} (hexit : s.client.exit = none) (hopened : k.opened p = false) :
      Turn o w s k (.openStd p i)
        { s with controls := [{ k with opened := Function.update k.opened p true }] }
  | readStd {p : Std} {i : Nat} (hexit : s.client.exit = none) (hunread : k.unread p ≠ []) :
      Turn o w s k (.readStd p i) { s with
        controls := [{ k with
          unread := Function.update k.unread p ((k.unread p).drop 256) }]
        written := Function.update s.written p (s.written p ++ (k.unread p).take 256) }
  | loseStd {p : Std} {i : Nat} (hexit : s.client.exit = none) :
      Turn o w s k (.loseStd p i)
        { s with controls := [{ k with lost := Function.update k.lost p true }] }

namespace Connected

variable {k k' : Control} {n : UInt32} {early late : Nat} {scripted : Bool}

theorem attached_of_exit (h : Connected o w s k n early late scripted)
    (hexit : s.client.exit = none) : k.attached = true := by
  rw [h.attached, hexit]
  rfl

/-- Whatever is done to a connection by number is done to this one. -/
theorem onControl_eq (h : Connected o w s k n early late scripted) {i : Nat}
    {f : Control → Option Control} (hcontrol : s.onControl i f = some s') :
    ∃ k', f k = some k' ∧ s' = { s with controls := [k'] } := by
  rw [onControl, h.controls] at hcontrol
  cases i with
  | zero =>
      obtain ⟨k', hk', rfl⟩ := Option.map_eq_some_iff.mp hcontrol
      exact ⟨k', hk', rfl⟩
  | succ i => cases hcontrol

/-- **What a step can be**: the control pipe is open for good, and a read or a
write that fails on it ends the client. -/
theorem turn (h : Connected o w s k n early late scripted) {a : Action}
    (hstep : System.step o w a s = some s') : Turn o w s k a s' := by
  rcases step_cases hstep with ⟨i, m, rfl, hthread⟩ | ⟨hexit, hclient⟩
  · obtain ⟨k', hk', rfl⟩ := h.onControl_eq hthread
    exact .thread hk'
  · have hstate : ¬ s.client.state = .opening := by
      rw [h.state hexit]
      split <;> decide
    cases a with
    | opened n => simp [clientStep, h.opening] at hclient
    | openFailed notFound installed => simp [clientStep, h.opening] at hclient
    | closed => simp [clientStep, h.closing] at hclient
    | read => exact .read hexit hclient
    | readFailed =>
        simp only [clientStep, h.fd, Option.isSome_some, if_true, Client.onCtrlPipeError,
          Bool.and_false, Bool.false_eq_true, if_false, hstate] at hclient
        cases hclient
        exact .fails hexit (.inl rfl)
    | writeFailed =>
        simp only [clientStep, h.fd, Option.isSome_some, if_true, Client.onCtrlPipeError,
          Bool.and_false, Bool.false_eq_true, if_false] at hclient
        cases hclient
        exact .fails hexit (.inr rfl)
    | timer =>
        obtain ⟨htimers, heq⟩ := Option.ite_none_right_eq_some.mp hclient
        cases heq
        exact .timer hexit htimers
    | signal sig =>
        cases hclient
        exact .signal hexit sig
    | openStd p i =>
        obtain ⟨k', hk', rfl⟩ := h.onControl_eq hclient
        obtain ⟨⟨-, -, hopened⟩, heq⟩ := Option.ite_none_right_eq_some.mp hk'
        cases heq
        exact .openStd hexit hopened
    | readStd p i =>
        rw [clientStep, h.controls] at hclient
        cases i with
        | succ i => cases hclient
        | zero =>
            obtain ⟨⟨-, -, hunread⟩, heq⟩ := Option.ite_none_right_eq_some.mp hclient
            cases heq
            exact .readStd hexit hunread
    | loseStd p i =>
        obtain ⟨k', hk', rfl⟩ := h.onControl_eq hclient
        obtain ⟨-, heq⟩ := Option.ite_none_right_eq_some.mp hk'
        cases heq
        exact .loseStd hexit
    | thread i m => cases hclient

theorem thread (ho : o.Plain) (h : Connected o w s k n early late scripted) {m : Move}
    (hstep : Control.step w m k = some k') :
    Connected o w { s with controls := [k'] } k' n early late scripted := by
  obtain ⟨hattached, hreported⟩ := Control.step_attached hstep
  have hnone := h.stage.reported_of_step hstep
  refine ⟨rfl, h.fd, h.opening, h.closing, h.sent, h.kept, h.stage.step ho hstep, ?_, h.state,
    h.buffer, h.aborts, h.unscripted, ?_, fun ec hec hout => ?_, h.status⟩
  · rw [hattached, h.attached]
  · rcases h.code with hcode | hcode
    · exact .inl hcode
    · rw [hnone] at hcode
      cases hcode
  · rcases hreported with hsame | hunread
    · rw [hsame, hnone] at hec
      cases hec
    · exact absurd hout hunread

/-- The process's pipes, and what the client writes from them. -/
theorem std (h : Connected o w s k n early late scripted) (opened lost : Std → Bool)
    (unread written : Std → Text) :
    Connected o w { s with
      controls := [{ k with opened := opened, lost := lost, unread := unread }]
      written := written } { k with opened := opened, lost := lost, unread := unread }
      n early late scripted :=
  ⟨rfl, h.fd, h.opening, h.closing, h.sent, h.kept, h.stage.of_eq rfl rfl rfl, h.attached, h.state,
    h.buffer, h.aborts, h.unscripted, h.code, h.read, h.status⟩

/-- The client leaves. -/
theorem leave (h : Connected o w s k n early late scripted) {c : Client} {calls : List Call}
    (hcalls : ServiceCalls calls) (hexit : c.exit.isSome = true)
    (hclient : c = { s.client with exit := c.exit })
    (hstatus : ∀ st, c.exit = some (.status st) → st = s.client.returnCode.toNat % 256) :
    Connected o w (s.react (c, calls)) k.detach n early late scripted := by
  obtain ⟨hwrites, hclose⟩ := hcalls.writes
  have hsome : c.exit ≠ none := fun hnone => by
    rw [hnone] at hexit
    cases hexit
  have hcode : c.returnCode = s.client.returnCode := by rw [hclient]
  have htimers : c.timers = s.client.timers := by rw [hclient]
  have hbuffer : c.buffer = s.client.buffer := by rw [hclient]
  rw [react_exit hexit hcalls]
  refine ⟨?_, h.fd, h.opening, h.closing, ?_, ?_, h.stage.detach, ?_, fun hnone => absurd hnone hsome,
    ?_, ?_, h.unscripted, ?_, fun ec hec hout => ?_, ?_⟩
  · simp [h.controls]
  · rw [writes_append, h.sent, hwrites, List.append_nil]
  · simp [h.kept, hclose]
  · cases hc : c.exit with
    | none => exact absurd hc hsome
    | some e => rfl
  · rw [hbuffer]
    exact h.buffer
  · rw [htimers]
    exact h.aborts
  · rw [hcode]
    exact h.code
  · rw [hcode]
    exact h.read ec hec hout
  · rw [hcode]
    exact hstatus

/-- It exits with its return code. -/
theorem exit (h : Connected o w s k n early late scripted) :
    Connected o w (s.react (s.client.exitProgram o)) k.detach n early late scripted := by
  refine h.leave (exitProgram_calls o s.client) rfl rfl fun st hst => ?_
  cases hst
  rfl

theorem signal (h : Connected o w s k n early late scripted) (hexit : s.client.exit = none)
    (sig : Signal) : ∃ k', Connected o w (s.react (s.client.signal sig)) k' n early late scripted := by
  rw [Client.signal]
  split
  · rw [react_nil (c := { s.client with
      abortRequested := true
      handled := Function.update s.client.handled sig false }) hexit]
    exact ⟨k, h.controls, h.fd, h.opening, h.closing, h.sent, h.kept, h.stage, h.attached, h.state,
      h.buffer, h.aborts, h.unscripted, h.code, h.read, h.status⟩
  · refine ⟨k.detach, h.leave (fun call hcall => ?_) rfl rfl fun st hst => ?_⟩
    · cases hcall
    · cases hst

/-- A timer: the abort, if one has been requested. -/
theorem timer (h : Connected o w s k n early late scripted) (hexit : s.client.exit = none)
    (htimers : 0 < s.client.timers) :
    ∃ k' early late, Connected o w (s.react s.client.timer) k' n early late scripted := by
  rw [Client.timer]
  split
  · rw [react_write (c := { s.client with timers := s.client.timers - 1 }) hexit h.fd h.controls]
    have haborts := h.aborts
    cases scripted with
    | false =>
        refine ⟨_, early + 1, late, rfl, h.fd, h.opening, h.closing, ?_, ?_, h.stage.abort_early,
          h.attached, h.state, h.buffer, ?_, h.unscripted, h.code, h.read, h.status⟩
        · rw [writes_append, h.sent, dialogue_early]
          rfl
        · simp [h.kept]
        · simp only
          omega
    | true =>
        refine ⟨_, early, late + 1, rfl, h.fd, h.opening, h.closing, ?_, ?_, h.stage.abort_late,
          h.attached, h.state, h.buffer, ?_, fun hfalse => ?_, h.code, h.read, h.status⟩
        · rw [writes_append, h.sent, dialogue_late]
          rfl
        · simp [h.kept]
        · simp only
          omega
        · cases hfalse
  · rw [react_nil hexit]
    exact ⟨k, early, late, h⟩

theorem read_eq (h : Connected o w s k n early late scripted) (hread : s.read o = some s') :
    ∃ text more, k.thread.out = text :: more
      ∧ s' = react { s with controls := [k.withOut (afterRead (text :: more))] }
          (s.client.onCtrlPipeRead o (text.take 256)) := by
  cases hout : k.thread.out with
  | nil => simp [System.read, incoming, h.fd, h.controls, hout] at hread
  | cons text more =>
      simp only [System.read, incoming, h.fd, h.controls, hout, List.getElem?_cons_zero,
        List.head?_cons, Option.map_some, List.set_cons_zero, Option.some.injEq] at hread
      refine ⟨text, more, rfl, ?_⟩
      rw [h.fd]
      exact hread.symm

/-- A read that only changes the client's buffer, return code and pipes. -/
theorem heard (h : Connected o w s k n early late true) (hexit : s.client.exit = none)
    {more : List Text} (hstage : Stage o w n early late true (k.withOut more)) {c : Client}
    (hclient : c = { s.client with buffer := c.buffer, returnCode := c.returnCode })
    (hbuffer : c.buffer.length = 256)
    (hcode : k.thread.reported = none ∧ c.returnCode = s.client.returnCode
      ∨ k.thread.reported = some c.returnCode)
    (calls : List Call) (hcalls : writes calls = [] ∧ Call.closeCtrl ∉ calls) (npipe : Option UInt32) :
    Connected o w { s with
      client := c
      controls := [k.withOut more]
      npipe := npipe
      calls := s.calls ++ calls } (k.withOut more) n early late true := by
  have hexit' : c.exit = none := by
    rw [hclient]
    exact hexit
  have hstate : c.state = s.client.state := by rw [hclient]
  have htimers : c.timers = s.client.timers := by rw [hclient]
  refine ⟨rfl, h.fd, h.opening, h.closing, ?_, ?_, hstage, ?_, fun _ => ?_, hbuffer, ?_,
    h.unscripted, ?_, fun ec hec _ => ?_, fun st hst => ?_⟩
  · rw [writes_append, h.sent, hcalls.1, List.append_nil]
  · simp [h.kept, hcalls.2]
  · rw [hexit', ← hexit]
    exact h.attached
  · rw [hstate]
    exact h.state hexit
  · rw [htimers]
    exact h.aborts
  · rcases hcode with ⟨hnone, hsame⟩ | hsome
    · rcases h.code with hcode | hcode
      · exact .inl (hsame.trans hcode)
      · rw [hnone] at hcode
        cases hcode
    · exact .inr hsome
  · have hec' : k.thread.reported = some ec := hec
    rcases hcode with ⟨hnone, -⟩ | hsome
    · rw [hnone] at hec'
      cases hec'
    · rw [hsome] at hec'
      exact Option.some.inj hec'
  · rw [hexit'] at hst
    cases hst

theorem afterRead_short (text : Text) (h : text.length ≤ 256) (more : List Text) :
    afterRead (text :: more) = more ∧ text.take 256 = text :=
  ⟨if_pos h, List.take_of_length_le h⟩

/-- **What a read does**: the script goes out for the version; the number of the
pipes, an error, or the return code are taken in. -/
theorem read_cases (h : Connected o w s k n early late scripted) (hexit : s.client.exit = none)
    (hread : s.read o = some s') :
    ∃ text more, k.thread.out = text :: more
      ∧ ((scripted = false ∧ text = versionLine ∧ more = []
          ∧ Reading k (List.replicate early abortCmd) ∧ k.thread.context = ⟨n, 0, 0, none⟩
          ∧ k.thread.Fresh
          ∧ s' = { s with
              client := { s.client with
                buffer := Buffer.overwrite s.client.buffer text
                state := .running }
              controls := [(k.withOut []).receive o.script]
              calls := s.calls ++ [.writeCtrl o.script] })
        ∨ scripted = true ∧ Stage o w n early late true (k.withOut more)
          ∧ ((k.thread.reported = none ∧ text = stdIoErrLine (pipeNr w k.thread.context)
              ∧ s' = { s with
                  client := { s.client with buffer := Buffer.overwrite s.client.buffer text }
                  controls := [k.withOut more]
                  npipe := some (pipeNr w k.thread.context)
                  calls := s.calls ++ [.openStd (pipeNr w k.thread.context)] })
            ∨ (k.thread.reported = none ∧ IsError text
              ∧ s' = { s with
                  client := { s.client with buffer := Buffer.overwrite s.client.buffer text }
                  controls := [k.withOut more] })
            ∨ ∃ ec, k.thread.reported = some ec ∧ more = []
              ∧ s' = { s with
                  client := { s.client with
                    buffer := Buffer.overwrite s.client.buffer text
                    returnCode := ec }
                  controls := [k.withOut more] })) := by
  obtain ⟨text, more, hout, rfl⟩ := h.read_eq hread
  have hexit' (buffer : Text) (code : UInt32) :
      ({ s.client with buffer := buffer, returnCode := code } : Client).exit = none := hexit
  refine ⟨text, more, hout, ?_⟩
  rcases h.stage.next_text (h.attached_of_exit hexit) hout with
    ⟨hscripted, rfl, rfl, hreading, hcontext, hfresh⟩
    | ⟨rfl, hstage, ⟨hnone, rfl | herror⟩ | ⟨ec, hec, rfl, rfl⟩⟩
  · refine .inl ⟨hscripted, rfl, rfl, hreading, hcontext, hfresh, ?_⟩
    exact (congrArg _ (Client.read_version h.buffer)).trans
      (react_write (s := { s with controls := [k.withOut []] }) (by exact hexit) h.fd rfl o.script)
  · obtain ⟨hafter, htake⟩ := afterRead_short (stdIoErrLine (pipeNr w k.thread.context))
      (by simp [stdIoErrLine]; decide) more
    refine .inr ⟨rfl, hstage, .inl ⟨hnone, rfl, ?_⟩⟩
    rw [hafter, htake]
    exact (congrArg _ (Client.read_stdIoErr h.buffer _)).trans (react_openStd (hexit' _ _) _)
  · obtain ⟨hafter, htake⟩ := afterRead_short text herror.1 more
    refine .inr ⟨rfl, hstage, .inr (.inl ⟨hnone, herror, ?_⟩)⟩
    rw [hafter, htake]
    exact (congrArg _ (Client.read_error h.buffer (h.state hexit) herror)).trans
      (react_nil (hexit' _ _))
  · obtain ⟨hafter, htake⟩ := afterRead_short (returnCodeLine ec)
      (by simp [returnCodeLine]; decide) []
    refine .inr ⟨rfl, hstage, .inr (.inr ⟨ec, hec, rfl, ?_⟩)⟩
    rw [hafter, htake]
    exact (congrArg _ (Client.read_returnCode h.buffer ec)).trans (react_nil (hexit' _ _))

/-- The version: the script has gone out. -/
theorem read_version (h : Connected o w s k n early late false)
    (hread : Reading k (List.replicate early abortCmd))
    (hcontext : k.thread.context = ⟨n, 0, 0, none⟩) (hfresh : k.thread.Fresh) :
    Connected o w { s with
      client := { s.client with
        buffer := Buffer.overwrite s.client.buffer versionLine
        state := .running }
      controls := [(k.withOut []).receive o.script]
      calls := s.calls ++ [.writeCtrl o.script] }
      ((k.withOut []).receive o.script) n early 0 true := by
  have hlate := h.unscripted rfl
  have haborts := h.aborts
  refine ⟨rfl, h.fd, h.opening, h.closing, ?_, ?_,
    .script hread hcontext (Stage.fresh_out hfresh _) rfl, h.attached, fun _ => rfl, ?_, ?_,
    fun hfalse => ?_, h.code, fun ec hec => ?_, h.status⟩
  · rw [writes_append, h.sent, hlate]
    simp [Options.dialogue, writes, Call.written]
  · simp [h.kept]
  · rw [Buffer.overwrite_length]
    exact h.buffer
  · simp only
    omega
  · cases hfalse
  · have hnone : k.thread.reported = some ec := hec
    rw [hfresh.reported] at hnone
    cases hnone

theorem read_step (h : Connected o w s k n early late scripted) (hexit : s.client.exit = none)
    (hread : s.read o = some s') :
    ∃ k' late scripted, Connected o w s' k' n early late scripted := by
  have hbuffer (text : Text) : (Buffer.overwrite s.client.buffer text).length = 256 := by
    rw [Buffer.overwrite_length]
    exact h.buffer
  obtain ⟨text, more, -, ⟨rfl, rfl, rfl, hreading, hcontext, hfresh, rfl⟩
    | ⟨rfl, hstage, ⟨hnone, rfl, rfl⟩ | ⟨hnone, -, rfl⟩ | ⟨ec, hec, rfl, rfl⟩⟩⟩ :=
      h.read_cases hexit hread
  · exact ⟨_, 0, true, h.read_version hreading hcontext hfresh⟩
  · have hheard := h.heard hexit hstage (c := { s.client with
      buffer := Buffer.overwrite s.client.buffer (stdIoErrLine (pipeNr w k.thread.context)) })
      rfl (hbuffer _) (.inl ⟨hnone, rfl⟩) [.openStd (pipeNr w k.thread.context)]
      ⟨rfl, by simp⟩ (some (pipeNr w k.thread.context))
    exact ⟨_, late, true, hheard⟩
  · have hheard := h.heard hexit hstage (c := { s.client with
      buffer := Buffer.overwrite s.client.buffer text }) rfl (hbuffer _) (.inl ⟨hnone, rfl⟩)
      [] ⟨rfl, by simp⟩ s.npipe
    rw [List.append_nil] at hheard
    exact ⟨_, late, true, hheard⟩
  · have hheard := h.heard hexit hstage (c := { s.client with
      buffer := Buffer.overwrite s.client.buffer text
      returnCode := ec }) rfl (hbuffer _) (.inr hec) [] ⟨rfl, by simp⟩ s.npipe
    rw [List.append_nil] at hheard
    exact ⟨_, late, true, hheard⟩

theorem step (ho : o.Plain) (h : Connected o w s k n early late scripted) {a : Action}
    (hstep : step o w a s = some s') :
    ∃ k' n early late scripted, Connected o w s' k' n early late scripted := by
  cases h.turn hstep with
  | thread hmove => exact ⟨_, n, early, late, scripted, h.thread ho hmove⟩
  | read hexit hread =>
      obtain ⟨k', late, scripted, hk'⟩ := h.read_step hexit hread
      exact ⟨k', n, early, late, scripted, hk'⟩
  | fails hexit ha => exact ⟨k.detach, n, early, late, scripted, h.exit⟩
  | timer hexit htimers =>
      obtain ⟨k', early, late, hk'⟩ := h.timer hexit htimers
      exact ⟨k', n, early, late, scripted, hk'⟩
  | signal hexit sig =>
      obtain ⟨k', hk'⟩ := h.signal hexit sig
      exact ⟨k', n, early, late, scripted, hk'⟩
  | openStd hexit hopened => exact ⟨_, n, early, late, scripted, h.std _ _ _ _⟩
  | readStd hexit hunread => exact ⟨_, n, early, late, scripted, h.std _ _ _ _⟩
  | loseStd hexit => exact ⟨_, n, early, late, scripted, h.std _ _ _ _⟩

end Connected

/-- **The invariant holds in every run.** -/
theorem invariant (ho : o.Plain) (h : Reaches (System.step o w) anyStep (start o) s) :
    Invariant o w s := by
  refine h.invariant (Invariant o w) (.inl (unconnected_start o)) ?_
  intro a s s' hs _ hstep
  rcases hs with hs | ⟨k, n, early, late, scripted, hs⟩
  · exact hs.step hstep
  · exact .inr (hs.step ho hstep)

/-! ## The results -/

/-- The processes that have been started. -/
def launched (s : System) : List Launch := s.controls.flatMap fun k => k.thread.created

/-- `./winexe //host -U user%password 'systeminfo'` -/
def systeminfo : Options := ⟨literal "systeminfo", none, 16⟩

theorem systeminfo_plain : systeminfo.Plain :=
  ⟨by decide, by decide, by decide, by simp [systeminfo], by simp [systeminfo],
    by simp [systeminfo]⟩

/-- A host on which every call succeeds. -/
def granting : Windows where
  processId := 0x1B4
  logonUser _ := none
  openProcessToken := none
  impersonateNamedPipeClient := none
  openThreadToken := none
  duplicateTokenEx := none
  revertToSelf := none
  createNamedPipe _ := none
  createProcessAsUser _ _ := none

/-- Up to the start of the process. -/
def untilStarted : List Action :=
  Action.opened 1 :: List.replicate 12 (Action.thread 0 .getc)
    ++ Action.read :: List.replicate 15 (Action.thread 0 .getc)
    ++ [Action.read, .openStd .pin 0, .openStd .pout 0, .openStd .perr 0]
    ++ List.replicate 3 (Action.thread 0 (.connect true))

/-- The process writes a line and exits with `3`. -/
def completed : List Action :=
  untilStarted ++ [Action.thread 0 (.writes .pout (line (literal "OS Name: Windows"))),
    .readStd .pout 0, .thread 0 (.exits 3), .thread 0 .reap, .thread 0 .flush, .read, .readFailed]

/-- The process is terminated for an abort. -/
def aborted : List Action :=
  untilStarted ++ [Action.signal .int, .timer, .thread 0 .terminate, .thread 0 .flush, .read]

theorem Invariant.launched (h : Invariant o w s) : s.launched = [] ∨ s.launched = [o.launch] := by
  rcases h with hs | ⟨k, n, early, late, scripted, hs⟩
  · left
    rw [System.launched, hs.controls]
    rfl
  · rw [System.launched, hs.controls, List.flatMap_singleton]
    exact hs.stage.created

/-- **What the client writes**: `get version`, then, after the version, its
script, and at most one `abort` in front of the script or behind it. It
never closes the control pipe to reinstall the service. While the client is
there, the process is terminated only for an `abort` behind the script; one
in front of it is lost. -/
theorem dialogue (ho : o.Plain) (h : Reaches (System.step o w) anyStep (start o) s) :
    (writes s.calls = [] ∨ ∃ early late scripted, early + late ≤ 1
        ∧ writes s.calls = o.dialogue early late scripted)
      ∧ Call.closeCtrl ∉ s.calls
      ∧ ∀ k ∈ s.controls, k.attached = true → k.thread.killed = true →
          writes s.calls = [Client.getVersion, o.script, Client.abort] := by
  rcases invariant ho h with hs | ⟨k, n, early, late, scripted, hs⟩
  · refine ⟨.inl hs.sent, hs.kept, fun k hk => ?_⟩
    rw [hs.controls] at hk
    cases hk
  · have haborts := hs.aborts
    refine ⟨.inr ⟨early, late, scripted, by omega, hs.sent⟩, hs.kept,
      fun k' hk' hattached hkilled => ?_⟩
    rw [hs.controls, List.mem_singleton] at hk'
    cases hk'
    rcases hs.stage.killed hkilled with ⟨rfl, hlate⟩ | hgone
    · obtain ⟨rfl, rfl⟩ : early = 0 ∧ late = 1 := by omega
      exact hs.sent
    · rw [hgone] at hattached
      cases hattached

theorem dialogue_aborted : ∃ s,
    Reaches (System.step systeminfo granting) anyStep (start systeminfo) s
      ∧ writes s.calls = [Client.getVersion, systeminfo.script, Client.abort] := by
  have hrun : (exec (System.step systeminfo granting) anyStep aborted (start systeminfo)).map
      (fun s => s.controls.map fun k => (k.attached, k.thread.killed)) = some [(true, true)] := by
    decide +kernel
  obtain ⟨s, hexec, hcontrols⟩ := Option.map_eq_some_iff.mp hrun
  have hreach := reaches_of_exec hexec
  obtain ⟨k, hk, hpair⟩ := List.mem_map.mp (hcontrols ▸ List.mem_singleton_self (true, true))
  obtain ⟨hattached, hkilled⟩ := Prod.mk.inj hpair
  exact ⟨s, hreach, (dialogue systeminfo_plain hreach).2.2 k hk hattached hkilled⟩

end System

end Assignment.Winexe
