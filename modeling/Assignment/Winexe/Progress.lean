import Assignment.Winexe.Output

/-!
# The dialogue comes to its end

From any state that an interleaving can reach, the protocol has only so many
steps left (`work`), and it does not stop before its end: as long as the
client is there and no process is running, somebody can take the next one.
For this the client must know the pipes that the service is waiting at
(`Ready`), and must have opened those that the service flushes.
-/

namespace Assignment.Winexe

open Runs CString Istream
open Shell (literal)

/-! ## What a command can do -/

theorem duplicate_length (w : Windows) (token : Token) :
    (duplicate w token).1.length ≤ 1
      ∧ ((duplicate w token).2.isSome = true → (duplicate w token).1 = []) := by
  rw [duplicate]
  split
  · exact ⟨Nat.zero_le _, fun _ => rfl⟩
  · exact ⟨Nat.le_refl _, fun h => by cases h⟩

theorem revert_length (w : Windows) {result : List Text × Option Token}
    (hlen : result.1.length ≤ 1) (hsome : result.2.isSome = true → result.1 = []) :
    (revert w result).1.length ≤ 2
      ∧ ((revert w result).2.isSome = true → (revert w result).1 = []) := by
  rw [revert]
  split
  · exact ⟨by omega, hsome⟩
  · refine ⟨?_, fun h => by cases h⟩
    simp only [noToken, List.length_append, List.length_singleton]
    omega

/-- `get_token` reports two errors at most, and none when there is a token. -/
theorem getToken_length (w : Windows) (c : Context) :
    (getToken w c).1.length ≤ 2
      ∧ ((getToken w c).2.isSome = true → (getToken w c).1 = []) := by
  have hone {call : String} (e : UInt32) : (noToken call e).1.length ≤ 1
      ∧ ((noToken call e).2.isSome = true → (noToken call e).1 = []) :=
    ⟨Nat.le_refl _, fun h => by cases h⟩
  rw [getToken]
  split
  · simp only
    split
    · exact ⟨Nat.zero_le _, fun _ => rfl⟩
    · exact ⟨by simp, fun h => by cases h⟩
  · split
    · split
      · exact ⟨Nat.le_succ_of_le (hone _).1, (hone _).2⟩
      · exact ⟨Nat.le_succ_of_le (duplicate_length w _).1, (duplicate_length w _).2⟩
    · split
      · exact ⟨Nat.le_succ_of_le (hone _).1, (hone _).2⟩
      · split
        · exact revert_length w (hone _).1 (hone _).2
        · exact revert_length w (duplicate_length w _).1 (duplicate_length w _).2

/-- The next command is read, or the thread leaves, or it waits for the first
pipe, whose number it has just written; at most two texts are written. -/
structure Effect.Prompt (e : Effect) : Prop where
  out : e.out.length ≤ 2
  phase : e.phase = .reading [] ∨ e.phase = .finished
    ∨ ∃ l, e.phase = .connecting .pin l ∧ e.out ≠ []

theorem cmdRun_prompt (w : Windows) (c : Context) (cmd : Text) : (cmdRun w c cmd).Prompt := by
  have htoken := getToken_length w c
  rw [cmdRun]
  split
  · exact ⟨Nat.zero_le _, .inr (.inl rfl)⟩
  · split
    · rename_i heq
      rw [heq] at htoken
      exact ⟨htoken.1, .inr (.inl rfl)⟩
    · rename_i out token heq
      rw [heq] at htoken
      obtain rfl : out = [] := htoken.2 rfl
      split
      · exact ⟨by simp, .inr (.inl rfl)⟩
      · exact ⟨by simp, .inr (.inr ⟨_, rfl, by simp⟩)⟩

theorem cmdSet_prompt (c : Context) (cmd : Text) : (cmdSet c cmd).Prompt := by
  rw [cmdSet]
  split
  · exact ⟨Nat.zero_le _, .inr (.inl rfl)⟩
  · simp only
    split
    · exact ⟨Nat.zero_le _, .inl rfl⟩
    · split
      · exact ⟨Nat.zero_le _, .inl rfl⟩
      · split
        · exact ⟨Nat.zero_le _, .inl rfl⟩
        · exact ⟨by simp, .inr (.inl rfl)⟩

theorem cmdGet_prompt (c : Context) (cmd : Text) : (cmdGet c cmd).Prompt := by
  rw [cmdGet]
  split
  · exact ⟨Nat.zero_le _, .inr (.inl rfl)⟩
  · split
    · exact ⟨by simp, .inl rfl⟩
    · exact ⟨by simp, .inr (.inl rfl)⟩

/-- **What a command can do.** -/
theorem handle_prompt (w : Windows) (c : Context) (buffer : Text) : (handle w c buffer).Prompt := by
  simp only [handle]
  split
  · exact cmdRun_prompt w c _
  · split
    · exact cmdSet_prompt c _
    · split
      · exact cmdGet_prompt c _
      · exact ⟨by simp, .inl rfl⟩

/-! ## The client knows the pipes -/

/-- The client has opened the pipes that the service has seen connected. -/
def Control.Joined (k : Control) : Prop :=
  match k.thread.phase with
  | .connecting .perr _ => k.opened .pout = true
  | .waiting | .flushing _ => k.opened .pout = true ∧ k.opened .perr = true
  | _ => True

theorem Control.Joined.mono {k k' : Control} (h : k.Joined)
    (hphase : k'.thread.phase = k.thread.phase)
    (hmore : ∀ p, k.opened p = true → k'.opened p = true) : k'.Joined := by
  rw [Control.Joined] at h
  rw [Control.Joined, hphase]
  split at h
  · exact hmore _ h
  · exact ⟨hmore _ h.1, hmore _ h.2⟩
  · exact ⟨hmore _ h.1, hmore _ h.2⟩
  · trivial

namespace Thread

variable {w : Windows} {t : Thread}

/-- A line leaves the thread reading, gone, or at its first pipe with something
to say. -/
theorem gets_phase (w : Windows) (t : Thread) (buffer : Text) :
    (∃ b, (t.gets w buffer).phase = .reading b) ∨ (t.gets w buffer).phase = .finished
      ∨ ∃ l, (t.gets w buffer).phase = .connecting .pin l ∧ (t.gets w buffer).out ≠ [] := by
  rw [gets]
  split
  · exact .inr (.inl rfl)
  · rcases (handle_prompt w t.context buffer).phase with hphase | hphase | ⟨l, hphase, hout⟩
    · exact .inl ⟨[], hphase⟩
    · exact .inr (.inl hphase)
    · refine .inr (.inr ⟨l, hphase, ?_⟩)
      simpa using fun _ => hout

theorem getc_phase (w : Windows) (t : Thread) (buffer : Text) (b : UInt8) :
    (∃ b', (t.getc w buffer b).phase = .reading b') ∨ (t.getc w buffer b).phase = .finished
      ∨ ∃ l, (t.getc w buffer b).phase = .connecting .pin l ∧ (t.getc w buffer b).out ≠ [] := by
  rw [getc]
  split
  · exact gets_phase w t buffer
  · split
    · exact gets_phase w t _
    · exact .inl ⟨_, rfl⟩

/-- A connected pipe leads to the next one, or to the process, or nowhere. -/
theorem connect_phase (w : Windows) (t : Thread) (p : Std) (l : Launch) (ok : Bool) :
    (t.connect w p l ok).phase = .finished
      ∨ ok = true ∧ (t.connect w p l ok).context = t.context ∧ (t.connect w p l ok).out = t.out
        ∧ (p = .pin ∧ (t.connect w p l ok).phase = .connecting .pout l
          ∨ p = .pout ∧ (t.connect w p l ok).phase = .connecting .perr l
          ∨ p = .perr ∧ (t.connect w p l ok).phase = .waiting) := by
  cases ok with
  | false => exact .inl rfl
  | true =>
      cases p with
      | pin => exact .inr ⟨rfl, rfl, rfl, .inl ⟨rfl, rfl⟩⟩
      | pout => exact .inr ⟨rfl, rfl, rfl, .inr (.inl ⟨rfl, rfl⟩)⟩
      | perr =>
          have hprocess : t.connect w .perr l true = t.createProcess w l := rfl
          rw [hprocess, createProcess]
          cases w.createProcessAsUser l.token l.cmdline with
          | none => exact .inr ⟨rfl, rfl, rfl, .inr (.inr ⟨rfl, rfl⟩)⟩
          | some e => exact .inl rfl

end Thread

namespace System

variable {o : Options} {w : Windows} {s s' : System} {k k' : Control}

/-- As long as the client is there it can go on. -/
structure Ready (w : Windows) (s : System) (k : Control) : Prop where
  npipe : s.client.exit = none → ∀ p l, k.thread.phase = .connecting p l → k.thread.out = [] →
    s.npipe = some (pipeNr w k.thread.context)
  joined : k.Joined

/-- A connection that is neither at a pipe nor past one. -/
theorem Ready.of_phase (hphase : (∃ b, k.thread.phase = .reading b) ∨ k.thread.phase = .finished
    ∨ ∃ l, k.thread.phase = .connecting .pin l ∧ k.thread.out ≠ []) : s.Ready w k := by
  rcases hphase with ⟨b, hphase⟩ | hphase | ⟨l, hphase, hout⟩
  · refine ⟨fun _ p l hp => ?_, ?_⟩
    · rw [hphase] at hp
      cases hp
    · rw [Control.Joined, hphase]
      trivial
  · refine ⟨fun _ p l hp => ?_, ?_⟩
    · rw [hphase] at hp
      cases hp
    · rw [Control.Joined, hphase]
      trivial
  · refine ⟨fun _ p l _ hnil => absurd hnil hout, ?_⟩
    rw [Control.Joined, hphase]
    trivial

/-- A move of the thread. -/
theorem Ready.move (h : s.Ready w k) (hattached : k.attached = s.client.exit.isNone) {m : Move}
    (hstep : Control.step w m k = some k') : Ready w { s with controls := [k'] } k' := by
  rw [Control.step] at hstep
  split at hstep
  · rcases Control.inGets_cases hstep with ⟨b, rest, -, -, rfl⟩ | ⟨-, -, rfl⟩
    · exact .of_phase (Thread.getc_phase w k.thread _ b)
    · exact .of_phase (Thread.gets_phase w k.thread _)
  · rename_i p l hphase
    obtain ⟨ok, hquiet, hopened, rfl⟩ := Control.inConnect_cases hstep
    rcases Thread.connect_phase w k.thread p l ok with hend | ⟨rfl, hcontext, -, hnext⟩
    · exact .of_phase (.inr (.inl hend))
    · -- the client has read the number, since the thread has flushed it
      have hnpipe : s.client.exit = none → s.npipe = some (pipeNr w k.thread.context) := by
        intro hexit
        refine h.npipe hexit p l hphase (Control.out_of_quiet hquiet ?_)
        rw [hattached, hexit]
        rfl
      refine ⟨fun hexit _ _ _ _ => ?_, ?_⟩
      · rw [hcontext]
        exact hnpipe hexit
      · rw [Control.Joined]
        rcases hnext with ⟨rfl, hnext⟩ | ⟨rfl, hnext⟩ | ⟨rfl, hnext⟩
        · rw [hnext]
          trivial
        · rw [hnext]
          exact hopened rfl
        · have hjoined := h.joined
          rw [Control.Joined, hphase] at hjoined
          rw [hnext]
          exact ⟨hjoined, hopened rfl⟩
  · rename_i hphase
    have hjoined := h.joined
    rw [Control.Joined, hphase] at hjoined
    rcases Control.inWait_cases hstep with ⟨p, data, -, -, -, rfl⟩ | ⟨ec, -, rfl⟩ | ⟨-, rfl⟩
      | ⟨ec, -, rfl⟩
    · refine ⟨fun _ p l hp => ?_, ?_⟩
      · rw [hphase] at hp
        cases hp
      · rw [Control.Joined, hphase]
        exact hjoined
    · refine ⟨fun _ p l hp => ?_, ?_⟩
      · rw [hphase] at hp
        cases hp
      · rw [Control.Joined, hphase]
        exact hjoined
    · exact ⟨fun _ p l hp => (by cases hp), hjoined⟩
    · exact ⟨fun _ p l hp => (by cases hp), hjoined⟩
  · obtain ⟨-, -, rfl⟩ := Control.inFlush_cases hstep
    exact .of_phase (.inr (.inl rfl))
  · cases hstep

theorem foldl_perform_npipe {calls : List Call} (h : ∀ nr, Call.openStd nr ∉ calls) :
    (calls.foldl perform s).npipe = s.npipe := by
  induction calls generalizing s with
  | nil => rfl
  | cons call calls ih =>
      have hperform : (s.perform call).npipe = s.npipe := by
        cases call with
        | openStd nr => exact absurd List.mem_cons_self (h nr)
        | writeCtrl data =>
            simp only [perform]
            split <;> rfl
        | _ => rfl
      rw [List.foldl_cons, ih fun nr hnr => h nr (List.mem_cons_of_mem _ hnr), hperform]

/-- A callback that does not open pipes. -/
theorem Ready.react (h : s.Ready w k) (hexit : s.client.exit = none) (hcontrols : s.controls = [k])
    {r : Reaction} (hr : ∀ nr, Call.openStd nr ∉ r.2) :
    ∃ k', (s.react r).controls = [k'] ∧ (s.react r).Ready w k' := by
  obtain ⟨k', hk', -, -, hthread, hopened, -⟩ := react_pipes r hcontrols
  have hnpipe : (s.react r).npipe = s.npipe := by
    have hfold := foldl_perform_npipe (s := { s with client := r.1 }) hr
    rw [System.react]
    split <;> exact hfold
  refine ⟨k', hk', fun _ p l hp hout => ?_, ?_⟩
  · rw [hthread] at hp hout ⊢
    rw [hnpipe]
    exact h.npipe hexit p l hp hout
  · rw [Control.Joined, hthread, hopened]
    exact h.joined

theorem stdIoErrLine_not_error (nr : UInt32) : ¬ IsError (stdIoErrLine nr) := by
  rintro ⟨-, rest, heq⟩
  have hs : (0x73 : UInt8) = 0x65 := (List.cons.inj heq).1
  exact absurd hs (by decide)

/-- At a pipe the thread has told its number, and no more. -/
theorem connecting_out {n : UInt32} {early late : Nat} {scripted : Bool}
    (h : Stage o w n early late scripted k) {p : Std} {l : Launch}
    (hphase : k.thread.phase = .connecting p l) (hattached : k.attached = true) :
    (k.thread.out = [] ∨ k.thread.out = [stdIoErrLine (pipeNr w k.thread.context)])
      ∧ k.thread.reported = none := by
  have hreading {cmds : List Text} (hread : Reading k cmds) : False := by
    obtain ⟨buffer, hbuffer, -⟩ := hread
    rw [hphase] at hbuffer
    cases hbuffer
  have hother {q : Phase} (hother : k.thread.phase = q) : .connecting p l = q :=
    hphase.symm.trans hother
  cases h with
  | asked hread _ _ _ => exact (hreading hread).elim
  | told hread _ _ _ => exact (hreading hread).elim
  | commanded hread _ _ _ => exact (hreading hread).elim
  | connecting _ _ _ hfresh hout => exact ⟨hout hattached, hfresh.reported⟩
  | waiting hphase' _ _ _ _ _ => cases hother hphase'
  | flushing hphase' _ _ _ _ _ => cases hother hphase'
  | finished hphase' _ _ _ _ => cases hother hphase'

theorem Ready.read {n : UInt32} {early late : Nat} {scripted : Bool}
    (hs : Connected o w s k n early late scripted) (h : s.Ready w k)
    (hexit : s.client.exit = none) (hread : s.read o = some s') :
    ∃ k', s'.controls = [k'] ∧ s'.Ready w k' := by
  have hattached := hs.attached_of_exit hexit
  obtain ⟨text, more, hout, ⟨-, -, -, ⟨buffer, hphase, -⟩, -, -, rfl⟩
    | ⟨-, -, ⟨-, -, rfl⟩ | ⟨-, herror, rfl⟩ | ⟨ec, hec, -, rfl⟩⟩⟩ := hs.read_cases hexit hread
  · exact ⟨_, rfl, .of_phase (.inl ⟨buffer, hphase⟩)⟩
  · exact ⟨_, rfl, fun _ _ _ _ _ => rfl, h.joined⟩
  · refine ⟨_, rfl, fun _ p l hp _ => ?_, h.joined⟩
    rcases (connecting_out hs.stage hp hattached).1 with hnil | hone
    · rw [hout] at hnil
      cases hnil
    · rw [hout] at hone
      rw [(List.cons.inj hone).1] at herror
      exact absurd herror (stdIoErrLine_not_error _)
  · refine ⟨_, rfl, fun _ p l hp _ => ?_, h.joined⟩
    rw [(connecting_out hs.stage hp hattached).2] at hec
    cases hec

/-- **The client can always go on.** -/
theorem Connected.ready {n : UInt32} {early late : Nat} {scripted : Bool}
    (hs : Connected o w s k n early late scripted) (h : s.Ready w k) {a : Action}
    (hstep : System.step o w a s = some s') : ∃ k', s'.controls = [k'] ∧ s'.Ready w k' := by
  cases hs.turn hstep with
  | thread hmove => exact ⟨_, rfl, h.move hs.attached hmove⟩
  | read hexit hread => exact h.read hs hexit hread
  | fails hexit ha =>
      refine h.react hexit hs.controls fun nr hmem => ?_
      rcases exitProgram_calls o s.client _ hmem with heq | heq <;> cases heq
  | timer hexit htimers =>
      refine h.react hexit hs.controls fun nr => ?_
      rw [Client.timer]
      split <;> simp
  | signal hexit sig =>
      refine h.react hexit hs.controls fun nr => ?_
      rw [Client.signal]
      split <;> simp
  | @openStd p i hexit hopened =>
      have hmore (q : Std) (hq : k.opened q = true) :
          Function.update k.opened p true q = true := by
        by_cases hqp : q = p
        · subst hqp
          simp
        · simpa [hqp] using hq
      exact ⟨_, rfl, h.npipe, h.joined.mono rfl hmore⟩
  | readStd hexit hunread => exact ⟨_, rfl, h.npipe, h.joined⟩
  | loseStd hexit => exact ⟨_, rfl, h.npipe, h.joined⟩

/-- Every connection of a run is ready. -/
theorem ready (ho : o.Plain) (h : Reaches (System.step o w) anyStep (start o) s)
    (hk : s.controls = [k]) : s.Ready w k := by
  have hall : ∀ k, s.controls = [k] → s.Ready w k := by
    refine (h.invariant (fun s => Invariant o w s ∧ ∀ k, s.controls = [k] → s.Ready w k)
      ⟨.inl (unconnected_start o), fun k hk => ?_⟩ ?_).2
    · rw [(unconnected_start o).controls] at hk
      cases hk
    · rintro a s s' ⟨hun | ⟨k, n, early, late, scripted, hs⟩, hready⟩ _ hstep
      · refine ⟨hun.step hstep, fun k hk => ?_⟩
        rcases hun.silent hstep with ⟨-, hcontrols, -⟩ | ⟨n, hexit, rfl⟩
        · rw [hcontrols] at hk
          cases hk
        · obtain ⟨k', hk', -, -, hthread, -⟩ := react_pipes
            (s := { s with opening := false, fd := some 0, controls := [Control.start n] })
            s.client.onCtrlPipeOpen rfl
          rw [hk'] at hk
          cases hk
          exact .of_phase (.inl ⟨[], by rw [hthread]; rfl⟩)
      · refine ⟨.inr (hs.step ho hstep), fun k' hk' => ?_⟩
        obtain ⟨k'', hk'', hready'⟩ := hs.ready (hready k hs.controls) hstep
        rw [hk''] at hk'
        cases hk'
        exact hready'
  exact hall k hk

/-! ## Somebody can take the next step -/

/-- The protocol's own steps: nothing fails, and nobody from outside takes a
hand. -/
def Orderly (a : Action) (s : System) : Prop :=
  match a with
  | .opened _ | .read | .openStd _ _ | .readStd _ _ => True
  | .readFailed => s.disconnected = true
  | .thread _ m => m = .getc ∨ m = .connect true ∨ m = .reap ∨ m = .flush
  | .openFailed _ _ | .writeFailed | .closed | .timer | .signal _ | .loseStd _ _ => False

instance (a : Action) (s : System) : Decidable (Orderly a s) :=
  match a with
  | .opened _ | .read | .openStd _ _ | .readStd _ _ => inferInstanceAs (Decidable True)
  | .readFailed => inferInstanceAs (Decidable (s.disconnected = true))
  | .thread _ m =>
      inferInstanceAs (Decidable (m = .getc ∨ m = .connect true ∨ m = .reap ∨ m = .flush))
  | .openFailed _ _ | .writeFailed | .closed | .timer | .signal _ | .loseStd _ _ =>
      inferInstanceAs (Decidable False)

/-- The process is running. -/
def running (s : System) : Bool :=
  match s.controls with
  | [k] => k.thread.phase = .waiting ∧ k.thread.exitCode = none
  | _ => false

/-- The protocol can go on. -/
def Goes (o : Options) (w : Windows) (s : System) : Prop :=
  ∃ a s', Orderly a s ∧ System.step o w a s = some s'

theorem Goes.client {a : Action} (hexit : s.client.exit = none) (ha : ∀ i m, a ≠ .thread i m)
    (hok : Orderly a s) (h : (s.clientStep o w a).isSome = true) : s.Goes o w := by
  obtain ⟨s', hclient⟩ := Option.isSome_iff_exists.mp h
  refine ⟨a, s', hok, ?_⟩
  cases a with
  | thread i m => exact absurd rfl (ha i m)
  | _ => simpa only [System.step, hexit, Option.isSome_none, Bool.false_eq_true, if_false]
      using hclient

namespace Connected

variable {n : UInt32} {early late : Nat} {scripted : Bool}

theorem goes_thread (h : Connected o w s k n early late scripted) {m : Move}
    (hok : m = .getc ∨ m = .connect true ∨ m = .reap ∨ m = .flush)
    (hcan : (Control.step w m k).isSome = true) : s.Goes o w := by
  obtain ⟨k', hstep⟩ := Option.isSome_iff_exists.mp hcan
  refine ⟨.thread 0 m, { s with controls := [k'] }, hok, ?_⟩
  simp [System.step, onControl, h.controls, hstep]

/-- There is something to read. -/
theorem goes_read (h : Connected o w s k n early late scripted) (hexit : s.client.exit = none)
    {text : Text} {more : List Text} (hout : k.thread.out = text :: more) : s.Goes o w := by
  refine .client (a := .read) hexit (fun i m => Action.noConfusion) trivial ?_
  simp only [clientStep, System.read, incoming, h.fd, h.controls, hout, List.getElem?_cons_zero,
    List.head?_cons, Option.map_some, Option.isSome_some]

/-- There is a command to execute. -/
theorem goes_getc (h : Connected o w s k n early late scripted) {cmds : List Text}
    (hread : Reading k cmds) (hcmds : cmds ≠ []) (hout : k.thread.out = []) : s.Goes o w := by
  obtain ⟨buffer, hphase, hbuffer, htext⟩ := hread
  have hquiet : k.quiet = true := by simp [Control.quiet, hout]
  cases hpipe : k.toService with
  | nil =>
      obtain ⟨cmd, more, rfl⟩ := List.exists_cons_of_ne_nil hcmds
      rw [hpipe, List.append_nil, unlines_cons] at htext
      rw [htext] at hbuffer
      exact absurd (by simp) hbuffer
  | cons b rest =>
      refine h.goes_thread (m := .getc) (.inl rfl) ?_
      rw [Control.step, hphase]
      simp only [Control.inGets, hpipe, hquiet, if_true, Option.isSome_some]

/-- The thread waits for the client to open a pipe. -/
theorem goes_connecting (h : Connected o w s k n early late scripted) (hr : s.Ready w k)
    (hexit : s.client.exit = none) {p : Std} {l : Launch}
    (hphase : k.thread.phase = .connecting p l) (hout : k.thread.out = []) : s.Goes o w := by
  have hquiet : k.quiet = true := by simp [Control.quiet, hout]
  cases hopened : k.opened p with
  | true =>
      refine h.goes_thread (m := .connect true) (.inr (.inl rfl)) ?_
      rw [Control.step, hphase]
      simp [Control.inConnect, hquiet, hopened]
  | false =>
      have hpiped : k.piped = true := by rw [Control.piped, hphase]
      have hnpipe := hr.npipe hexit p l hphase hout
      refine .client (a := .openStd p 0) hexit (fun i m => Action.noConfusion) trivial ?_
      simp [clientStep, onControl, h.controls, hpiped, hnpipe, hopened]

/-- The thread waits for the client to read from a pipe. -/
theorem goes_flushing (h : Connected o w s k n early late scripted) (hr : s.Ready w k)
    (hexit : s.client.exit = none) {ec : UInt32} (hphase : k.thread.phase = .flushing ec) :
    s.Goes o w := by
  obtain ⟨hout, herr⟩ : k.opened .pout = true ∧ k.opened .perr = true := by
    have hjoined := hr.joined
    rwa [Control.Joined, hphase] at hjoined
  have hreads {p : Std} (hopened : k.opened p = true) (hdrained : k.drained p = false) :
      s.Goes o w := by
    simp only [Control.drained, decide_eq_false_iff_not, not_or, Bool.not_eq_true] at hdrained
    obtain ⟨hunread, hlost⟩ := hdrained
    have hcan : k.opened p ∧ k.lost p = false ∧ k.unread p ≠ [] := ⟨hopened, hlost, hunread⟩
    refine .client (a := .readStd p 0) hexit (fun i m => Action.noConfusion) trivial ?_
    simp only [clientStep, h.controls, List.getElem?_cons_zero, if_pos hcan, Option.isSome_some]
  cases hpout : k.drained .pout with
  | false => exact hreads hout hpout
  | true =>
      cases hperr : k.drained .perr with
      | false => exact hreads herr hperr
      | true =>
          refine h.goes_thread (m := .flush) (.inr (.inr (.inr rfl))) ?_
          rw [Control.step, hphase]
          simp [Control.inFlush, hpout, hperr]

/-- The process has ended. -/
theorem goes_waiting (h : Connected o w s k n early late scripted)
    (hphase : k.thread.phase = .waiting) (hcode : k.thread.exitCode.isSome = true) :
    s.Goes o w := by
  have hreap : Control.step w .reap k
      = k.thread.exitCode.map fun ec => { k with thread := k.thread.reap ec } := by
    rw [Control.step, hphase]
    rfl
  refine h.goes_thread (.inr (.inr (.inl rfl))) ?_
  rw [hreap, Option.isSome_map]
  exact hcode

theorem goes (h : Connected o w s k n early late scripted) (ho : o.Plain) (hr : s.Ready w k)
    (hexit : s.client.exit = none) : s.running = true ∨ s.Goes o w := by
  have hattached := h.attached_of_exit hexit
  cases hout : k.thread.out with
  | cons text more => exact .inr (h.goes_read hexit hout)
  | nil =>
      cases h.stage with
      | asked hread _ _ _ => exact .inr (h.goes_getc hread (List.cons_ne_nil _ _) hout)
      | told _ _ _ htold =>
          rw [(htold hattached).1] at hout
          cases hout
      | commanded hread hrest _ _ =>
          refine .inr (h.goes_getc hread (fun hnil => ?_) hout)
          have hlength := congrArg List.length hnil
          rcases hrest.cases ho with ⟨set, rfl, -⟩ | ⟨rfl, -⟩
          · simp at hlength
          · simp at hlength
      | connecting hphase _ _ _ _ => exact .inr (h.goes_connecting hr hexit hphase hout)
      | waiting hphase _ _ _ _ _ =>
          cases hcode : k.thread.exitCode with
          | none =>
              left
              simp [running, h.controls, hphase, hcode]
          | some ec => exact .inr (h.goes_waiting hphase (by rw [hcode]; rfl))
      | flushing hphase _ _ _ _ _ => exact .inr (h.goes_flushing hr hexit hphase)
      | finished hphase _ _ _ _ =>
          right
          have hdown : s.disconnected = true := by simp [disconnected, h.controls, hphase, hout]
          refine .client (a := .readFailed) hexit (fun i m => Action.noConfusion) hdown ?_
          simp only [clientStep, h.fd, Option.isSome_some, if_true]

end Connected

/-- **No deadlock**: while the client is there and no process is running, the
protocol can go on. -/
theorem progress (ho : o.Plain) (h : Reaches (System.step o w) anyStep (start o) s)
    (hexit : s.client.exit = none) : s.running = true ∨ s.Goes o w := by
  rcases invariant ho h with hun | ⟨k, n, early, late, scripted, hs⟩
  · right
    refine .client (a := .opened 0) hexit (fun i m => Action.noConfusion) trivial ?_
    simp only [clientStep, hun.opening hexit, if_true, Option.isSome_some]
  · exact hs.goes ho (ready ho h hs.controls) hexit

end System

end Assignment.Winexe
