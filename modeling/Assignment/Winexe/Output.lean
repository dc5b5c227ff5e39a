import Assignment.Winexe.Dialogue

/-!
# The output of the process

The process writes to its pipes, the client reads them in chunks and writes
what it has read to its own standard output and error. Nothing is lost or
changed on the way (`output_prefix`), and unless something outside the
protocol fails, the client does not exit before it has written everything
(`output_complete`): the service reports the return code only after the
pipes are flushed, and disconnects only after the report has been read.
-/

namespace Assignment.Winexe

open Runs CString Istream
open Shell (literal)

namespace System

variable {o : Options} {w : Windows} {s s' : System} {k k' : Control}

/-! ## What a callback does to a connection -/

theorem receive_receive (k : Control) (text more : Text) :
    (k.receive text).receive more = k.receive (text ++ more) := by
  simp [Control.receive]

theorem foldl_perform_keeps (calls : List Call) :
    (calls.foldl perform s).written = s.written ∧ (calls.foldl perform s).client = s.client := by
  induction calls generalizing s with
  | nil => exact ⟨rfl, rfl⟩
  | cons call calls ih =>
      obtain ⟨hwritten, hclient⟩ := ih (s := s.perform call)
      rw [List.foldl_cons, hwritten, hclient]
      constructor <;> cases call <;> simp only [perform] <;> split <;> rfl

theorem foldl_perform_control (calls : List Call) (hcontrols : s.controls = [k]) :
    ∃ text, (calls.foldl perform s).controls = [k.receive text] := by
  induction calls generalizing s k with
  | nil => exact ⟨[], by simpa [Control.receive] using hcontrols⟩
  | cons call calls ih =>
      have hperform : ∃ text, (s.perform call).controls = [k.receive text] := by
        cases call with
        | writeCtrl data =>
            simp only [perform, hcontrols]
            cases hfd : s.fd with
            | none => exact ⟨[], by simp [Control.receive]⟩
            | some i =>
                cases i with
                | zero => exact ⟨data, rfl⟩
                | succ i => exact ⟨[], by simp [Control.receive]⟩
        | _ => exact ⟨[], by simp [perform, hcontrols, Control.receive]⟩
      obtain ⟨text, htext⟩ := hperform
      obtain ⟨more, hmore⟩ := ih htext
      rw [List.foldl_cons, hmore, receive_receive]
      exact ⟨_, rfl⟩

theorem react_keeps (r : Reaction) :
    (s.react r).written = s.written ∧ (s.react r).client = r.1 := by
  have hkeeps := foldl_perform_keeps (s := { s with client := r.1 }) r.2
  rw [react]
  split <;> exact hkeeps

theorem react_control (r : Reaction) (hcontrols : s.controls = [k]) :
    ∃ text, (s.react r).controls
      = [if r.1.exit.isSome then (k.receive text).detach else k.receive text] := by
  obtain ⟨text, htext⟩ := foldl_perform_control (s := { s with client := r.1 }) r.2 hcontrols
  rw [react]
  split <;> exact ⟨text, by simp [htext]⟩

/-! ## Nothing is lost on the way -/

/-- What the client has written and what it has yet to read is what the
process has written. -/
structure Accounted (s : System) (k : Control) : Prop where
  account : ∀ p, s.written p ++ k.unread p = k.produced p
  pin : k.unread .pin = []

/-- A step as far as the output is concerned. -/
inductive Flow (k : Control) (written : Std → Text) : Control → (Std → Text) → Prop
  | none {k' : Control} (hunread : k'.unread = k.unread) (hproduced : k'.produced = k.produced) :
      Flow k written k' written
  | writes {p : Std} (data : Text) (hp : p ≠ .pin) :
      Flow k written { k with
        unread := Function.update k.unread p (k.unread p ++ data)
        produced := Function.update k.produced p (k.produced p ++ data) } written
  | reads {p : Std} (n : Nat) :
      Flow k written { k with unread := Function.update k.unread p ((k.unread p).drop n) }
        (Function.update written p (written p ++ (k.unread p).take n))

theorem Accounted.flow (h : s.Accounted k) (hflow : Flow k s.written k' s'.written) :
    s'.Accounted k' := by
  generalize hwritten : s'.written = written at hflow
  cases hflow with
  | none hunread hproduced =>
      refine ⟨fun p => ?_, ?_⟩
      · rw [hwritten, hunread, hproduced]
        exact h.account p
      · rw [hunread]
        exact h.pin
  | @writes p data hp =>
      refine ⟨fun q => ?_, ?_⟩
      · rw [hwritten]
        by_cases hq : q = p
        · subst hq
          simp [← h.account q]
        · simpa [hq] using h.account q
      · simpa [Ne.symm hp] using h.pin
  | @reads p n =>
      refine ⟨fun q => ?_, ?_⟩
      · rw [hwritten]
        by_cases hq : q = p
        · subst hq
          simp [← h.account q]
        · simpa [hq] using h.account q
      · by_cases hp : p = .pin
        · subst hp
          simp [h.pin]
        · simpa [Ne.symm hp] using h.pin

/-- What a move does to the process's pipes. -/
theorem flow_of_move {m : Move} (h : Control.step w m k = some k') (written : Std → Text) :
    Flow k written k' written ∧ k'.lost = k.lost := by
  rw [Control.step] at h
  split at h
  · rcases Control.inGets_cases h with ⟨b, rest, -, -, rfl⟩ | ⟨-, -, rfl⟩
    · exact ⟨.none rfl rfl, rfl⟩
    · exact ⟨.none rfl rfl, rfl⟩
  · obtain ⟨ok, -, -, rfl⟩ := Control.inConnect_cases h
    exact ⟨.none rfl rfl, rfl⟩
  · rcases Control.inWait_cases h with ⟨p, data, -, hp, -, rfl⟩ | ⟨ec, -, rfl⟩ | ⟨-, rfl⟩
      | ⟨ec, -, rfl⟩
    · exact ⟨.writes data hp, rfl⟩
    · exact ⟨.none rfl rfl, rfl⟩
    · exact ⟨.none rfl rfl, rfl⟩
    · exact ⟨.none rfl rfl, rfl⟩
  · obtain ⟨-, -, rfl⟩ := Control.inFlush_cases h
    exact ⟨.none rfl rfl, rfl⟩
  · cases h

/-- A callback leaves the process's pipes alone. -/
theorem react_pipes (r : Reaction) (hcontrols : s.controls = [k]) :
    ∃ k', (s.react r).controls = [k'] ∧ k'.unread = k.unread ∧ k'.produced = k.produced
      ∧ k'.thread = k.thread ∧ k'.opened = k.opened ∧ (r.1.exit = none → k'.lost = k.lost) := by
  obtain ⟨text, htext⟩ := react_control r hcontrols
  refine ⟨_, htext, ?_, ?_, ?_, ?_, fun hexit => ?_⟩
  · split <;> rfl
  · split <;> rfl
  · split <;> rfl
  · split <;> rfl
  · simp [hexit, Control.receive]

theorem Connected.flow {n : UInt32} {early late : Nat} {scripted : Bool}
    (h : Connected o w s k n early late scripted) {a : Action}
    (hstep : System.step o w a s = some s') :
    ∃ k', s'.controls = [k'] ∧ Flow k s.written k' s'.written := by
  have hreact (r : Reaction) : ∃ k', (s.react r).controls = [k']
      ∧ Flow k s.written k' (s.react r).written := by
    obtain ⟨k', hk', hunread, hproduced, -⟩ := react_pipes r h.controls
    rw [(react_keeps r).1]
    exact ⟨k', hk', .none hunread hproduced⟩
  cases h.turn hstep with
  | thread hmove => exact ⟨_, rfl, (flow_of_move hmove s.written).1⟩
  | read hexit hread =>
      obtain ⟨text, more, hout, rfl⟩ := h.read_eq hread
      obtain ⟨k', hk', hunread, hproduced, -⟩ := react_pipes
        (s := { s with controls := [k.withOut (afterRead (text :: more))] })
        (s.client.onCtrlPipeRead o (text.take 256)) rfl
      rw [(react_keeps _).1]
      exact ⟨k', hk', .none hunread hproduced⟩
  | fails hexit ha => exact hreact _
  | timer hexit htimers => exact hreact _
  | signal hexit sig => exact hreact _
  | openStd hexit hopened => exact ⟨_, rfl, .none rfl rfl⟩
  | readStd hexit hunread => exact ⟨_, rfl, .reads 256⟩
  | loseStd hexit => exact ⟨_, rfl, .none rfl rfl⟩

/-- The state of the output: nothing before the connection, then accounted for. -/
structure Outputs (s : System) : Prop where
  before : s.controls = [] → ∀ p, s.written p = []
  after : ∀ k, s.controls = [k] → s.Accounted k

theorem foldl_perform_none (calls : List Call) (hcontrols : s.controls = []) :
    (calls.foldl perform s).controls = [] := by
  induction calls generalizing s with
  | nil => exact hcontrols
  | cons call calls ih =>
      refine ih ?_
      cases call with
      | writeCtrl data =>
          simp only [perform, hcontrols]
          cases s.fd with
          | none => rfl
          | some i => simp
      | _ => exact hcontrols

theorem react_none (r : Reaction) (hcontrols : s.controls = []) : (s.react r).controls = [] := by
  have hnone := foldl_perform_none (s := { s with client := r.1 }) r.2 hcontrols
  rw [react]
  split
  · simp [hnone]
  · exact hnone

/-- Nothing is connected and nothing written by a step that does not open the
control pipe. -/
theorem Unconnected.silent (h : s.Unconnected) {a : Action}
    (hstep : System.step o w a s = some s') :
    (((∃ notFound installed, a = .openFailed notFound installed) ∨ ∃ sig, a = .signal sig)
        ∧ s'.controls = [] ∧ s'.written = s.written)
      ∨ ∃ n, s.client.exit = none ∧ s' = react { s with
          opening := false
          fd := some 0
          controls := [Control.start n] } s.client.onCtrlPipeOpen := by
  obtain ⟨hexit, ⟨n, rfl⟩ | ⟨notFound, installed, rfl, rfl⟩ | ⟨sig, rfl, rfl⟩⟩ := h.step_cases hstep
  · exact .inr ⟨n, hexit, rfl⟩
  · exact .inl ⟨.inl ⟨_, _, rfl⟩, react_none _ h.controls, (react_keeps _).1⟩
  · exact .inl ⟨.inr ⟨_, rfl⟩, react_none _ h.controls, (react_keeps _).1⟩

theorem Unconnected.outputs (h : s.Unconnected) (ho : s.Outputs) {a : Action}
    (hstep : System.step o w a s = some s') : s'.Outputs := by
  have hempty := ho.before h.controls
  rcases h.silent hstep with ⟨-, hcontrols, hwritten⟩ | ⟨n, -, rfl⟩
  · refine ⟨fun _ p => ?_, fun k hk => ?_⟩
    · rw [hwritten]
      exact hempty p
    · rw [hcontrols] at hk
      cases hk
  · obtain ⟨k', hk', hunread, hproduced, -⟩ := react_pipes
      (s := { s with opening := false, fd := some 0, controls := [Control.start n] })
      s.client.onCtrlPipeOpen rfl
    refine ⟨fun hnil => ?_, fun k hk => ?_⟩
    · rw [hk'] at hnil
      cases hnil
    · rw [hk'] at hk
      cases hk
      refine ⟨fun p => ?_, ?_⟩
      · rw [(react_keeps _).1, hunread, hproduced]
        exact congrArg (fun text => text ++ []) (hempty p)
      · rw [hunread]
        rfl

/-- **The output is accounted for in every run.** -/
theorem outputs (hplain : o.Plain) (h : Reaches (System.step o w) anyStep (start o) s) :
    s.Outputs := by
  have hstart := unconnected_start o
  have houtputs : (start o).Outputs := by
    refine ⟨fun _ p => ?_, fun k hk => ?_⟩
    · rw [start, (react_keeps _).1]
    · rw [hstart.controls] at hk
      cases hk
  refine (h.invariant (fun s => Invariant o w s ∧ s.Outputs) ⟨.inl hstart, houtputs⟩ ?_).2
  rintro a s s' ⟨hs | ⟨k, n, early, late, scripted, hs⟩, ho⟩ _ hstep
  · exact ⟨hs.step hstep, hs.outputs ho hstep⟩
  · obtain ⟨k', hk', hflow⟩ := hs.flow hstep
    refine ⟨.inr (hs.step hplain hstep), fun hnil => ?_, fun k'' hk'' => ?_⟩
    · rw [hk'] at hnil
      cases hnil
    · rw [hk'] at hk''
      cases hk''
      exact (ho.after k hs.controls).flow hflow

/-- The service has disconnected the control pipe. -/
def disconnected (s : System) : Bool :=
  match s.controls with
  | [k] => k.thread.phase = .finished ∧ k.thread.out = []
  | _ => false

/-- Nothing outside the protocol fails: reads and writes fail only when the
service has disconnected, and the process's pipes do not fail. -/
def Undisturbed (a : Action) (s : System) : Prop :=
  match a with
  | .readFailed | .writeFailed => s.disconnected = true
  | .loseStd _ _ => False
  | _ => True

instance (a : Action) (s : System) : Decidable (Undisturbed a s) :=
  match a with
  | .readFailed | .writeFailed => inferInstanceAs (Decidable (s.disconnected = true))
  | .loseStd _ _ => inferInstanceAs (Decidable False)
  | .opened _ | .openFailed _ _ | .read | .closed | .timer | .signal _ | .openStd _ _ | .readStd _ _
  | .thread _ _ => inferInstanceAs (Decidable True)

/-- A connection whose client has not been killed: when the code has been
reported the pipes are empty, and the client has left after the thread, with
what it reported. -/
structure Settled (s : System) (k : Control) : Prop where
  lost : s.client.exit = none → ∀ p, k.lost p = false
  unread : (∀ sig, s.client.exit ≠ some (.killed sig)) → k.thread.reported ≠ none →
    ∀ p, k.unread p = []
  finished : ∀ st, s.client.exit = some (.status st) → k.thread.phase = .finished
  status : ∀ st ec, s.client.exit = some (.status st) → k.thread.reported = some ec →
    st = ec.toNat % 256

/-- A thread reports when the process's pipes are flushed. -/
theorem report_of_move {m : Move} (h : Control.step w m k = some k')
    (hreported : k'.thread.reported ≠ none) (hnone : k.thread.reported = none) :
    k.drained .pout = true ∧ k.drained .perr = true ∧ k'.unread = k.unread := by
  have hsame {t : Thread} (hsame : t.reported = k.thread.reported) : t.reported = none :=
    hsame.trans hnone
  rw [Control.step] at h
  split at h
  · rcases Control.inGets_cases h with ⟨b, rest, -, -, rfl⟩ | ⟨-, -, rfl⟩
    · exact absurd (hsame (Control.getc_reported _ _ _)) hreported
    · exact absurd (hsame (Control.gets_reported _ _)) hreported
  · obtain ⟨ok, -, -, rfl⟩ := Control.inConnect_cases h
    exact absurd (hsame (Control.connect_reported _ _ _ _)) hreported
  · rcases Control.inWait_cases h with ⟨p, data, -, -, -, rfl⟩ | ⟨ec, -, rfl⟩ | ⟨-, rfl⟩
      | ⟨ec, -, rfl⟩ <;> exact absurd (hsame rfl) hreported
  · obtain ⟨hout, herr, rfl⟩ := Control.inFlush_cases h
    exact ⟨hout, herr, rfl⟩
  · cases h

namespace Settled

variable {n : UInt32} {early late : Nat} {scripted : Bool}

/-- A move of the thread. -/
theorem move (h : s.Settled k) (hs : Connected o w s k n early late scripted)
    (ha : s.Accounted k) {m : Move} (hstep : Control.step w m k = some k') :
    Settled { s with controls := [k'] } k' := by
  have hnone := hs.stage.reported_of_step hstep
  have hgone : ∀ st, s.client.exit ≠ some (.status st) := by
    intro st hst
    rw [Control.step, h.finished st hst] at hstep
    cases hstep
  have hlost := (flow_of_move hstep s.written).2
  refine ⟨fun hexit p => ?_, fun hexit hreported => ?_, fun st hst => absurd hst (hgone st),
    fun st _ hst => absurd hst (hgone st)⟩
  · rw [hlost]
    exact h.lost hexit p
  · have hthere : s.client.exit = none := by
      cases hcase : s.client.exit with
      | none => rfl
      | some e =>
          cases e with
          | status st => exact absurd hcase (hgone st)
          | killed sig => exact absurd hcase (hexit sig)
    obtain ⟨hout, herr, hunread⟩ := report_of_move hstep hreported hnone
    have hempty {p : Std} (hdrained : k.drained p = true) : k.unread p = [] := by
      rw [Control.drained, decide_eq_true_eq] at hdrained
      rcases hdrained with hempty | hlost
      · exact hempty
      · rw [h.lost hthere p] at hlost
        cases hlost
    intro p
    rw [hunread]
    cases p with
    | pin => exact ha.pin
    | pout => exact hempty hout
    | perr => exact hempty herr

/-- A callback after which the client is still there. -/
theorem react (h : s.Settled k) (hexit : s.client.exit = none) (hcontrols : s.controls = [k])
    {r : Reaction} (hr : r.1.exit = none) :
    ∃ k', (s.react r).controls = [k'] ∧ (s.react r).Settled k' := by
  obtain ⟨k', hk', hunread, -, hthread, -, hlost⟩ := react_pipes r hcontrols
  have hclient := (react_keeps (s := s) r).2
  have hnot : (∀ sig, s.client.exit ≠ some (.killed sig)) := by simp [hexit]
  refine ⟨k', hk', fun _ p => ?_, fun _ hreported p => ?_, fun st hst => ?_, fun st _ hst => ?_⟩
  · rw [hlost hr]
    exact h.lost hexit p
  · rw [hunread]
    rw [hthread] at hreported
    exact h.unread hnot hreported p
  · rw [hclient, hr] at hst
    cases hst
  · rw [hclient, hr] at hst
    cases hst

/-- A read or a write has failed: the service has disconnected. -/
theorem leave (h : s.Settled k) (hs : Connected o w s k n early late scripted)
    (hexit : s.client.exit = none) (hdown : s.disconnected = true) :
    ∃ k', (s.react (s.client.exitProgram o)).controls = [k']
      ∧ (s.react (s.client.exitProgram o)).Settled k' := by
  obtain ⟨k', hk', hunread, -, hthread, -⟩ := react_pipes (s.client.exitProgram o) hs.controls
  have hclient := (react_keeps (s := s) (s.client.exitProgram o)).2
  have hnot : (∀ sig, s.client.exit ≠ some (.killed sig)) := by simp [hexit]
  simp only [disconnected, hs.controls, decide_eq_true_eq] at hdown
  obtain ⟨hphase, hout⟩ := hdown
  refine ⟨k', hk', fun hthere => ?_, fun _ hreported p => ?_, fun st _ => ?_, fun st ec hst hec => ?_⟩
  · rw [hclient] at hthere
    cases hthere
  · rw [hunread]
    rw [hthread] at hreported
    exact h.unread hnot hreported p
  · rw [hthread]
    exact hphase
  · rw [hthread] at hec
    rw [hclient] at hst
    cases hst
    rw [hs.read ec hec hout]

/-- The client has opened one of the process's pipes, or read from it. -/
theorem std (h : s.Settled k) (hexit : s.client.exit = none) (opened : Std → Bool)
    {unread : Std → Text} (written : Std → Text) (hunread : ∀ p, k.unread p = [] → unread p = []) :
    Settled { s with
      controls := [{ k with opened := opened, unread := unread }]
      written := written } { k with opened := opened, unread := unread } :=
  ⟨fun _ => h.lost hexit, fun hnot hreported p => hunread p (h.unread hnot hreported p), h.finished,
    h.status⟩

end Settled

theorem onCtrlPipeRead_exit (c : Client) (chunk : Text) :
    (c.onCtrlPipeRead o chunk).1.exit = c.exit := by
  simp only [Client.onCtrlPipeRead]
  split
  · rfl
  · split
    · rfl
    · split
      · split <;> rfl
      · split
        · split <;> rfl
        · rfl

theorem Unconnected.settled (h : s.Unconnected) {a : Action}
    (hstep : System.step o w a s = some s') (hk : s'.controls = [k]) : s'.Settled k := by
  rcases h.silent hstep with ⟨-, hcontrols, -⟩ | ⟨n, hexit, rfl⟩
  · rw [hcontrols] at hk
    cases hk
  · have hstart : ({ s with opening := false, fd := some 0, controls := [Control.start n] } :
        System).Settled (Control.start n) := by
      refine ⟨fun _ _ => rfl, fun _ _ _ => rfl, fun st hst => ?_, fun st _ hst => ?_⟩
      · rw [hexit] at hst
        cases hst
      · rw [hexit] at hst
        cases hst
    obtain ⟨k', hk', hsettled⟩ := hstart.react hexit rfl (r := s.client.onCtrlPipeOpen) hexit
    rw [hk'] at hk
    cases hk
    exact hsettled

/-- **Steps without disturbance.** -/
theorem Connected.settled {n : UInt32} {early late : Nat} {scripted : Bool}
    (hs : Connected o w s k n early late scripted) (ha : s.Accounted k) (h : s.Settled k)
    {a : Action} (hok : Undisturbed a s) (hstep : System.step o w a s = some s') :
    ∃ k', s'.controls = [k'] ∧ s'.Settled k' := by
  cases hs.turn hstep with
  | thread hmove => exact ⟨_, rfl, h.move hs ha hmove⟩
  | read hexit hread =>
      obtain ⟨text, more, -, rfl⟩ := hs.read_eq hread
      have hread : ({ s with controls := [k.withOut (afterRead (text :: more))] } : System).Settled
          (k.withOut (afterRead (text :: more))) :=
        ⟨h.lost, h.unread, h.finished, h.status⟩
      refine hread.react hexit rfl ?_
      rw [onCtrlPipeRead_exit]
      exact hexit
  | fails hexit hfails =>
      rcases hfails with rfl | rfl
      · exact h.leave hs hexit hok
      · exact h.leave hs hexit hok
  | timer hexit htimers =>
      refine h.react hexit hs.controls ?_
      rw [Client.timer]
      split <;> exact hexit
  | signal hexit sig =>
      rw [Client.signal]
      split
      · exact h.react hexit hs.controls hexit
      · rw [react_exit rfl fun call hcall => by cases hcall]
        refine ⟨k.detach, by simp [hs.controls], fun hthere => ?_, fun hnot => ?_,
          fun st hst => ?_, fun st _ hst => ?_⟩
        · cases hthere
        · exact absurd rfl (hnot sig)
        · cases hst
        · cases hst
  | openStd hexit hopened => exact ⟨_, rfl, h.std hexit _ s.written fun _ hempty => hempty⟩
  | @readStd p i hexit hunread =>
      refine ⟨_, rfl, h.std hexit k.opened _ fun q hempty => ?_⟩
      by_cases hq : q = p
      · subst hq
        simp [hempty]
      · simpa [hq] using hempty
  | loseStd hexit => exact hok.elim

end System

end Assignment.Winexe
