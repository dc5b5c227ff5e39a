import Assignment.Winexe.Messages

/-!
# How far a connection has come

`Stage` says where a control connection is in the dialogue: which of the
client's command lines its thread has yet to execute, and what goes with
that. The client's lines are `get version`, then the lines of its script,
with an `abort` anywhere after the first line; `early` and `late` count the
aborts in front of the script and behind it. The stage is kept by every move
of the thread (`Stage.step`) and by every line that the client may send
next.
-/

namespace Assignment.Winexe

open CString Istream
open Shell (literal)

/-! ## Command lines -/

def getVersionCmd : Text := literal "get version"

def abortCmd : Text := literal "abort"

namespace Options

def runCmd (o : Options) : Text := literal "run " ++ o.cmd

/-- The command lines of the script. -/
def commands (o : Options) : List Text :=
  match o.runas with
  | some runas => [literal "set runas " ++ runas, o.runCmd]
  | none => if o.has svcSystem then [literal "set system 1", o.runCmd] else [o.runCmd]

/-- What the script makes of the context before its `run`. -/
def context (o : Options) (n : UInt32) : Context :=
  ⟨n, 0, if o.runas = none ∧ o.has svcSystem then 1 else 0, o.runas⟩

/-- The process that the options ask for: the command, under the account of
`--runas`, of the system, or of the client. -/
def launch (o : Options) : Launch where
  cmdline := o.cmd
  token :=
    match o.runas with
    | some runas => .logon (prepareCredentials runas)
    | none => if o.has svcSystem then .process 0 else .client 0

end Options

/-- Command lines as they are written. -/
def unlines (cmds : List Text) : Text := cmds.flatMap line

@[simp] theorem unlines_cons (cmd : Text) (cmds : List Text) :
    unlines (cmd :: cmds) = cmd ++ newline :: unlines cmds := by
  simp [unlines, line]

theorem unlines_append (cmds more : List Text) :
    unlines (cmds ++ more) = unlines cmds ++ unlines more := by
  simp [unlines]

theorem script_eq (o : Options) : o.script = unlines o.commands := by
  rw [Options.script, Options.commands]
  cases o.runas with
  | some runas => simp [unlines, line, Options.runCmd]
  | none =>
      simp only
      split <;> simp [unlines, line, Options.runCmd]

theorem requested_context (o : Options) (n : UInt32) :
    (o.context n).requested = o.launch.token := by
  rw [Context.requested, Options.launch, Options.context]
  cases o.runas with
  | some runas => rfl
  | none =>
      by_cases hsystem : o.has svcSystem = true
      · simp [hsystem]
      · simp [hsystem]

/-- Commands that `hgets` takes one at a time. -/
def Lines (cmds : List Text) : Prop :=
  ∀ cmd ∈ cmds, newline ∉ cmd ∧ cmd ≠ [] ∧ cmd.length ≤ 32765

theorem lines_append {c d : List Text} (h : Lines c) (hmore : Lines d) :
    Lines (c ++ d) := by
  intro cmd hcmd
  rcases List.mem_append.mp hcmd with hcmd | hcmd
  · exact h cmd hcmd
  · exact hmore cmd hcmd

theorem lines_getVersion : Lines [getVersionCmd] := by
  intro cmd hcmd
  rw [List.mem_singleton.mp hcmd]
  decide

theorem lines_aborts (n : Nat) : Lines (List.replicate n abortCmd) := by
  intro cmd hcmd
  rw [(List.mem_replicate.mp hcmd).2]
  decide

theorem lines_runCmd {o : Options} (ho : o.Plain) : Lines [o.runCmd] := by
  intro cmd hcmd
  have hlen := ho.cmd_length
  have hrun : newline ∉ literal "run " := by decide
  rw [List.mem_singleton.mp hcmd, Options.runCmd]
  refine ⟨?_, ?_, ?_⟩
  · simp [hrun, ho.cmd_line]
  · exact List.append_ne_nil_of_left_ne_nil (by decide) _
  · rw [List.length_append, show (literal "run ").length = 4 from rfl]
    omega

theorem lines_commands {o : Options} (ho : o.Plain) : Lines o.commands := by
  rw [Options.commands]
  cases hrunas : o.runas with
  | some runas =>
      have hlen := ho.runas_length runas hrunas
      have hset : newline ∉ literal "set runas " := by decide
      refine lines_append (c := [_]) (fun cmd hcmd => ?_) (lines_runCmd ho)
      rw [List.mem_singleton.mp hcmd]
      refine ⟨?_, ?_, ?_⟩
      · simp [hset, ho.runas_line runas hrunas]
      · exact List.append_ne_nil_of_left_ne_nil (by decide) _
      · rw [List.length_append, show (literal "set runas ").length = 10 from rfl]
        omega
  | none =>
      simp only
      split
      · refine lines_append (c := [_]) (fun cmd hcmd => ?_) (lines_runCmd ho)
        rw [List.mem_singleton.mp hcmd]
        decide
      · exact lines_runCmd ho

/-! ## Reading them -/

/-- The thread is in `hgets`, and these are the commands to come, the first
of them possibly begun. -/
def Reading (k : Control) (cmds : List Text) : Prop :=
  ∃ buffer, k.thread.phase = .reading buffer ∧ newline ∉ buffer
    ∧ buffer ++ k.toService = unlines cmds

theorem Reading.receive {k : Control} {cmds : List Text} (h : Reading k cmds) (more : List Text) :
    Reading (k.receive (unlines more)) (cmds ++ more) := by
  obtain ⟨buffer, hphase, hbuffer, htext⟩ := h
  refine ⟨buffer, hphase, hbuffer, ?_⟩
  rw [Control.receive, unlines_append, ← htext, List.append_assoc]

/-- At the end of the pipe nothing is left of the commands. -/
theorem Reading.eof {k : Control} {cmds : List Text} {buffer : Text} (h : Reading k cmds)
    (hphase : k.thread.phase = .reading buffer) (hend : k.toService = []) :
    cmds = [] ∧ buffer = [] := by
  obtain ⟨buffer', hphase', hbuffer, htext⟩ := h
  rw [hphase] at hphase'
  cases hphase'
  rw [hend, List.append_nil] at htext
  cases cmds with
  | nil => exact ⟨rfl, htext⟩
  | cons cmd cmds =>
      rw [htext, unlines_cons] at hbuffer
      exact absurd (by simp) hbuffer

/-- **A byte for `hgets`** either belongs to the first command, or ends it, and
then this command is executed. -/
theorem Reading.getc {w : Windows} {k : Control} {cmds : List Text} {buffer rest : Text}
    {b : UInt8} (h : Reading k cmds) (hcmds : Lines cmds)
    (hphase : k.thread.phase = .reading buffer) (htext : k.toService = b :: rest) :
    (∃ buffer', k.thread.getc w buffer b = { k.thread with phase := .reading buffer' }
        ∧ newline ∉ buffer' ∧ buffer' ++ rest = unlines cmds)
      ∨ ∃ cmd more, cmds = cmd :: more ∧ rest = unlines more
          ∧ k.thread.getc w buffer b = k.thread.gets w cmd := by
  obtain ⟨buffer', hphase', hbuffer, hall⟩ := h
  rw [hphase] at hphase'
  cases hphase'
  rw [htext] at hall
  cases cmds with
  | nil => exact absurd hall (by simp [unlines])
  | cons cmd more =>
      obtain ⟨hcmd, -, hlen⟩ := hcmds cmd List.mem_cons_self
      rw [unlines_cons] at hall
      by_cases hb : b = newline
      · have hsplit := strchr_append hbuffer rest
        rw [← hb, hall, hb, strchr_append hcmd] at hsplit
        cases hsplit
        exact .inr ⟨buffer, more, rfl, rfl, by rw [Thread.getc, if_pos hb]⟩
      · left
        have hshort : buffer.length < cmd.length := by
          rcases List.append_eq_append_iff.mp hall with ⟨behind, hcmd', hbehind⟩ | ⟨beyond, hbeyond, hnl⟩
          · cases behind with
            | nil => exact absurd (List.cons.inj hbehind).1 hb
            | cons d behind =>
                rw [hcmd', List.length_append, List.length_cons]
                omega
          · cases beyond with
            | nil => exact absurd (List.cons.inj hnl).1.symm hb
            | cons d beyond =>
                rw [hbeyond, ← (List.cons.inj hnl).1] at hbuffer
                exact absurd (by simp) hbuffer
        refine ⟨buffer ++ [b], ?_, ?_, ?_⟩
        · rw [Thread.getc, if_neg hb, if_neg]
          rw [maxCommandLength]
          omega
        · simp [hbuffer, Ne.symm hb]
        · rw [List.append_assoc, List.singleton_append, hall, unlines_cons]

/-- The thread with the effect of a command. -/
def Thread.after (t : Thread) (e : Effect) : Thread :=
  { t with out := t.out ++ e.out.map hprintf, context := e.context, phase := e.phase }

/-- **A move in `hgets`**: the first command goes on, or is executed, or the
pipe is at its end. -/
theorem Reading.step {w : Windows} {m : Move} {k k' : Control} {cmds : List Text}
    (h : Reading k cmds) (hcmds : Lines cmds) (hstep : Control.step w m k = some k') :
    (∃ buffer rest, k.quiet = true ∧ Reading k' cmds
        ∧ k' = { k with thread := { k.thread with phase := .reading buffer }, toService := rest })
      ∨ (∃ cmd more, cmds = cmd :: more ∧ k.quiet = true
        ∧ k' = { k with
            thread := k.thread.after (handle w k.thread.context cmd)
            toService := unlines more })
      ∨ cmds = [] ∧ k.attached = false
        ∧ k' = { k with thread := { k.thread with phase := .finished } } := by
  have hread := h
  obtain ⟨buffer, hphase, -, -⟩ := hread
  rw [Control.step, hphase] at hstep
  rcases Control.inGets_cases hstep with ⟨b, rest, htext, hquiet, rfl⟩ | ⟨hend, hattached, rfl⟩
  · rcases h.getc (w := w) hcmds hphase htext with
      ⟨buffer', hgetc, hbuffer', hall⟩ | ⟨cmd, more, rfl, rfl, hgetc⟩
    · rw [hgetc]
      exact .inl ⟨buffer', rest, hquiet, ⟨buffer', rfl, hbuffer', hall⟩, rfl⟩
    · obtain ⟨-, hcmd, -⟩ := hcmds cmd List.mem_cons_self
      rw [hgetc, Thread.gets, if_neg hcmd]
      exact .inr (.inl ⟨cmd, more, rfl, hquiet, rfl⟩)
  · obtain ⟨rfl, rfl⟩ := h.eof hphase hend
    rw [Thread.gets, if_pos rfl]
    exact .inr (.inr ⟨rfl, hattached, rfl⟩)

/-! ## Stages -/

/-- Nothing has been started. -/
structure Thread.Fresh (t : Thread) : Prop where
  created : t.created = []
  exitCode : t.exitCode = none
  killed : t.killed = false
  reported : t.reported = none

/-- The connection with these texts for the client to read. -/
def Control.withOut (k : Control) (out : List Text) : Control :=
  { k with thread := { k.thread with out := out } }

/-- What is left of the script, and the context that it has made so far. -/
inductive Remaining (o : Options) (n : UInt32) : List Text → Context → Prop
  | all : Remaining o n o.commands ⟨n, 0, 0, none⟩
  | run : Remaining o n [o.runCmd] (o.context n)

theorem Remaining.cases {o : Options} (ho : o.Plain) {n : UInt32} {rest : List Text} {c : Context}
    (h : Remaining o n rest c) :
    (∃ set, rest = [set, o.runCmd]
        ∧ ∀ w, handle w c set = ⟨[], o.context n, .reading []⟩)
      ∨ rest = [o.runCmd] ∧ c = o.context n := by
  cases h with
  | run => exact .inr ⟨rfl, rfl⟩
  | all =>
      rw [Options.commands, Options.context]
      cases hrunas : o.runas with
      | some runas =>
          refine .inl ⟨_, rfl, fun w => ?_⟩
          rw [handle_setRunas w _ (ho.runas_string runas hrunas)]
          simp
      | none =>
          by_cases hsystem : o.has svcSystem = true
          · simp only [hsystem, if_true]
            exact .inl ⟨_, rfl, fun w => handle_setSystem w _⟩
          · simp [hsystem]

theorem Remaining.lines {o : Options} (ho : o.Plain) {n : UInt32} {rest : List Text} {c : Context}
    (h : Remaining o n rest c) : Lines rest := by
  cases h with
  | all => exact lines_commands ho
  | run => exact lines_runCmd ho

/-- Where a connection is in the dialogue; the last argument is whether the
client has sent its script. What is said of `out` holds while the client is
there to read it. -/
inductive Stage (o : Options) (w : Windows) (n : UInt32) (early late : Nat) : Bool → Control → Prop
  | asked {k : Control} (hread : Reading k (getVersionCmd :: List.replicate early abortCmd))
      (hcontext : k.thread.context = ⟨n, 0, 0, none⟩) (hfresh : k.thread.Fresh)
      (hout : k.attached = true → k.thread.out = []) : Stage o w n early late false k
  | told {k : Control} {j : Nat} (hread : Reading k (List.replicate j abortCmd))
      (hcontext : k.thread.context = ⟨n, 0, 0, none⟩) (hfresh : k.thread.Fresh)
      (hout : k.attached = true → k.thread.out = [versionLine] ∧ j = early) :
      Stage o w n early late false k
  | commanded {k : Control} {j : Nat} {rest : List Text}
      (hread : Reading k
        (List.replicate j abortCmd ++ (rest ++ List.replicate late abortCmd)))
      (hrest : Remaining o n rest k.thread.context) (hfresh : k.thread.Fresh)
      (hout : k.attached = true → k.thread.out = [] ∨ k.thread.out = [ignoringAbort]) :
      Stage o w n early late true k
  | connecting {k : Control} {p : Std} (hphase : k.thread.phase = .connecting p o.launch)
      (htext : k.toService = unlines (List.replicate late abortCmd))
      (hcontext : k.thread.context = o.context n) (hfresh : k.thread.Fresh)
      (hout : k.attached = true →
        k.thread.out = [] ∨ k.thread.out = [stdIoErrLine (pipeNr w k.thread.context)]) :
      Stage o w n early late true k
  | waiting {k : Control} (hphase : k.thread.phase = .waiting)
      (htext : k.toService = unlines (List.replicate late abortCmd))
      (hcreated : k.thread.created = [o.launch]) (hkilled : k.thread.killed = false)
      (hreported : k.thread.reported = none) (hout : k.attached = true → k.thread.out = []) :
      Stage o w n early late true k
  | flushing {k : Control} {ec : UInt32} (hphase : k.thread.phase = .flushing ec)
      (hcreated : k.thread.created = [o.launch]) (hreported : k.thread.reported = none)
      (hout : k.attached = true → k.thread.out = [])
      (hkilled : k.thread.killed = true → 0 < late ∨ k.attached = false)
      (hcode : k.thread.exitCode = some ec ∨ k.thread.killed = true ∧ ec = 0x1234) :
      Stage o w n early late true k
  | finished {k : Control} {scripted : Bool} (hphase : k.thread.phase = .finished)
      (hcreated : k.thread.created = [] ∧ k.thread.reported = none
        ∨ k.thread.created = [o.launch] ∧ ∃ ec, k.thread.reported = some ec
          ∧ (k.thread.exitCode = some ec ∨ k.thread.killed = true ∧ ec = 0x1234))
      (hscripted : k.attached = true → scripted = true)
      (hout : k.attached = true → k.thread.reported = none ∧ (∀ text ∈ k.thread.out, IsError text)
        ∨ ∃ ec, k.thread.reported = some ec
          ∧ (k.thread.out = [returnCodeLine ec] ∨ k.thread.out = []))
      (hkilled : k.thread.killed = true → 0 < late ∨ k.attached = false) :
      Stage o w n early late scripted k

namespace Stage

variable {o : Options} {w : Windows} {n : UInt32} {early late : Nat} {scripted : Bool}
  {k k' : Control} {m : Move}

/-- A thread that leaves before it has started anything. -/
theorem of_fresh (hfresh : k.thread.Fresh) (hphase : k.thread.phase = .finished)
    (hscripted : k.attached = true → scripted = true)
    (hout : k.attached = true → ∀ text ∈ k.thread.out, IsError text) :
    Stage o w n early late scripted k := by
  refine .finished hphase (.inl ⟨hfresh.created, hfresh.reported⟩) hscripted
    (fun hattached => .inl ⟨hfresh.reported, hout hattached⟩) fun hkilled => ?_
  rw [hfresh.killed] at hkilled
  cases hkilled

/-! ### Steps -/

theorem fresh_phase {t : Thread} (h : t.Fresh) (p : Phase) : ({ t with phase := p } : Thread).Fresh :=
  ⟨h.created, h.exitCode, h.killed, h.reported⟩

theorem fresh_after {t : Thread} (h : t.Fresh) (e : Effect) : (t.after e).Fresh :=
  ⟨h.created, h.exitCode, h.killed, h.reported⟩

theorem fresh_out {t : Thread} (h : t.Fresh) (out : List Text) :
    ({ t with out := out } : Thread).Fresh :=
  ⟨h.created, h.exitCode, h.killed, h.reported⟩

theorem reading_nil {k : Control} {cmds : List Text} (hphase : k.thread.phase = .reading [])
    (htext : k.toService = unlines cmds) : Reading k cmds :=
  ⟨[], hphase, by simp, by simpa using htext⟩

theorem asked_step (hread : Reading k (getVersionCmd :: List.replicate early abortCmd))
    (hcontext : k.thread.context = ⟨n, 0, 0, none⟩) (hfresh : k.thread.Fresh)
    (hstep : Control.step w m k = some k') : Stage o w n early late false k' := by
  have hlines : Lines (getVersionCmd :: List.replicate early abortCmd) :=
    lines_append (c := [getVersionCmd]) lines_getVersion (lines_aborts early)
  rcases hread.step hlines hstep with ⟨buffer, rest, hquiet, hread', rfl⟩
    | ⟨cmd, more, hcmds, hquiet, rfl⟩ | ⟨hnil, -, -⟩
  · exact .asked hread' hcontext (fresh_phase hfresh _) (Control.out_of_quiet hquiet)
  · obtain ⟨rfl, rfl⟩ := List.cons.inj hcmds
    rw [show handle w k.thread.context getVersionCmd = _ from handle_getVersion w _]
    refine .told (j := early) (reading_nil rfl rfl) hcontext (fresh_after hfresh _)
      fun hattached => ⟨?_, rfl⟩
    rw [Thread.after, Control.out_of_quiet hquiet hattached]
    rfl
  · cases hnil

theorem told_step {j : Nat} (hread : Reading k (List.replicate j abortCmd))
    (hcontext : k.thread.context = ⟨n, 0, 0, none⟩) (hfresh : k.thread.Fresh)
    (hout : k.attached = true → k.thread.out = [versionLine] ∧ j = early)
    (hstep : Control.step w m k = some k') : Stage o w n early late false k' := by
  -- with the client there, the version is still to be read
  have hdetached (hquiet : k.quiet = true) : ¬ k.attached = true := fun hattached => by
    have hversion := (hout hattached).1
    rw [Control.out_of_quiet hquiet hattached] at hversion
    cases hversion
  rcases hread.step (lines_aborts j) hstep with ⟨buffer, rest, hquiet, hread', rfl⟩
    | ⟨cmd, more, hcmds, hquiet, rfl⟩ | ⟨-, hattached, rfl⟩
  · exact .told hread' hcontext (fresh_phase hfresh _) fun hattached =>
      absurd hattached (hdetached hquiet)
  · cases j with
    | zero => cases hcmds
    | succ j =>
        obtain ⟨rfl, rfl⟩ := List.cons.inj hcmds
        rw [show handle w k.thread.context abortCmd = _ from handle_abort w _]
        exact .told (j := j) (reading_nil rfl rfl) hcontext (fresh_after hfresh _) fun hattached =>
          absurd hattached (hdetached hquiet)
  · have hgone : ¬ k.attached = true := by simp [hattached]
    exact of_fresh (fresh_phase hfresh _) rfl (fun h => absurd h hgone) fun h => absurd h hgone

/-- The `run` of the script. -/
theorem run_step (ho : o.Plain) (hcontext : k.thread.context = o.context n)
    (hfresh : k.thread.Fresh) (hquiet : k.quiet = true) :
    Stage o w n early late true { k with
      thread := k.thread.after (handle w k.thread.context o.runCmd)
      toService := unlines (List.replicate late abortCmd) } := by
  have hlength : ∀ r ∈ (o.context n).runas, r.length ≤ 210 := ho.runas_length
  rw [hcontext, Options.runCmd]
  rcases handle_run w (o.context n) ho.cmd_string hlength with heq | ⟨errors, heq, herrors⟩
  · rw [heq, requested_context]
    refine .connecting rfl rfl rfl (fresh_after hfresh _) fun hattached => .inr ?_
    rw [Thread.after, Control.out_of_quiet hquiet hattached]
    exact congrArg (fun text => [text]) (hprintf_short (by simp [stdIoErrLine]; decide))
  · rw [heq]
    refine of_fresh (fresh_after hfresh _) rfl (fun _ => rfl) fun hattached text htext => ?_
    rw [Thread.after, Control.out_of_quiet hquiet hattached, List.nil_append,
      List.mem_map] at htext
    obtain ⟨error, hmem, rfl⟩ := htext
    rw [(herrors error hmem).hprintf_eq]
    exact herrors error hmem

theorem commanded_step (ho : o.Plain) {j : Nat} {rest : List Text}
    (hread : Reading k (List.replicate j abortCmd ++ (rest ++ List.replicate late abortCmd)))
    (hrest : Remaining o n rest k.thread.context) (hfresh : k.thread.Fresh)
    (hout : k.attached = true → k.thread.out = [] ∨ k.thread.out = [ignoringAbort])
    (hstep : Control.step w m k = some k') : Stage o w n early late true k' := by
  have hlines : Lines (List.replicate j abortCmd ++ (rest ++ List.replicate late abortCmd)) :=
    lines_append (lines_aborts j) (lines_append (hrest.lines ho) (lines_aborts late))
  rcases hread.step hlines hstep with ⟨buffer, text, hquiet, hread', rfl⟩
    | ⟨cmd, more, hcmds, hquiet, rfl⟩ | ⟨hnil, -, -⟩
  · exact .commanded hread' hrest (fresh_phase hfresh _) hout
  · cases j with
    | succ j =>
        obtain ⟨rfl, rfl⟩ := List.cons.inj hcmds
        rw [show handle w k.thread.context abortCmd = _ from handle_abort w _]
        refine .commanded (j := j) (reading_nil rfl rfl) hrest (fresh_after hfresh _)
          fun hattached => .inr ?_
        rw [Thread.after, Control.out_of_quiet hquiet hattached]
        rfl
    | zero =>
        rcases hrest.cases ho with ⟨set, rfl, hset⟩ | ⟨rfl, hcontext⟩
        · obtain ⟨rfl, rfl⟩ := List.cons.inj hcmds
          rw [hset w]
          refine .commanded (j := 0) (reading_nil rfl rfl) .run
            (fresh_after hfresh _) fun hattached => .inl ?_
          rw [Thread.after, Control.out_of_quiet hquiet hattached]
          rfl
        · obtain ⟨rfl, rfl⟩ := List.cons.inj hcmds
          exact run_step ho hcontext hfresh hquiet
  · have hnone := congrArg List.length hnil
    rcases hrest.cases ho with ⟨set, rfl, -⟩ | ⟨rfl, -⟩
    · simp at hnone
    · simp at hnone

theorem connecting_step (ho : o.Plain) {p : Std} (hphase : k.thread.phase = .connecting p o.launch)
    (htext : k.toService = unlines (List.replicate late abortCmd))
    (hcontext : k.thread.context = o.context n) (hfresh : k.thread.Fresh)
    (hstep : Control.step w m k = some k') : Stage o w n early late true k' := by
  rw [Control.step, hphase] at hstep
  obtain ⟨ok, hquiet, -, rfl⟩ := Control.inConnect_cases hstep
  have hnext (p : Std) : Stage o w n early late true
      { k with thread := { k.thread with phase := .connecting p o.launch } } :=
    .connecting rfl htext hcontext (fresh_phase hfresh _) fun hattached =>
      .inl (Control.out_of_quiet hquiet hattached)
  have hleave {error : Text} (herror : IsError error) : Stage o w n early late true
      { k with thread := { k.thread with
        out := k.thread.out ++ [hprintf error], phase := .finished } } := by
    refine of_fresh ⟨hfresh.created, hfresh.exitCode, hfresh.killed, hfresh.reported⟩ rfl
      (fun _ => rfl) fun hattached text hmem => ?_
    rw [Control.out_of_quiet hquiet hattached, List.nil_append, List.mem_singleton,
      herror.hprintf_eq] at hmem
    rw [hmem]
    exact herror
  cases ok with
  | false => exact hleave (connect_error p)
  | true =>
      cases p with
      | pin => exact hnext .pout
      | pout => exact hnext .perr
      | perr =>
          rw [Thread.connect, if_pos rfl, Thread.createProcess]
          cases w.createProcessAsUser o.launch.token o.launch.cmdline with
          | none =>
              refine .waiting rfl htext ?_ hfresh.killed hfresh.reported
                (Control.out_of_quiet hquiet)
              rw [hfresh.created]
              rfl
          | some e => exact hleave (createProcess_error ho.cmd_length e)

theorem waiting_step (hphase : k.thread.phase = .waiting)
    (htext : k.toService = unlines (List.replicate late abortCmd))
    (hcreated : k.thread.created = [o.launch]) (hkilled : k.thread.killed = false)
    (hreported : k.thread.reported = none) (hout : k.attached = true → k.thread.out = [])
    (hstep : Control.step w m k = some k') : Stage o w n early late true k' := by
  rw [Control.step, hphase] at hstep
  rcases Control.inWait_cases hstep with ⟨p, data, -, -, -, rfl⟩ | ⟨ec, -, rfl⟩ | ⟨hwake, rfl⟩
    | ⟨ec, hcode, rfl⟩
  · exact .waiting hphase htext hcreated hkilled hreported hout
  · exact .waiting hphase htext hcreated hkilled hreported hout
  · refine .flushing rfl hcreated hreported hout (fun _ => ?_) (.inr ⟨rfl, rfl⟩)
    rcases hwake with hwake | hwake
    · left
      by_contra hnone
      rw [Nat.eq_zero_of_not_pos hnone] at htext
      exact hwake htext
    · exact .inr hwake
  · refine .flushing rfl hcreated hreported hout (fun h => ?_) (.inl hcode)
    rw [Thread.reap, hkilled] at h
    cases h

theorem flushing_step {ec : UInt32} (hphase : k.thread.phase = .flushing ec)
    (hcreated : k.thread.created = [o.launch]) (hout : k.attached = true → k.thread.out = [])
    (hkilled : k.thread.killed = true → 0 < late ∨ k.attached = false)
    (hcode : k.thread.exitCode = some ec ∨ k.thread.killed = true ∧ ec = 0x1234)
    (hstep : Control.step w m k = some k') : Stage o w n early late true k' := by
  rw [Control.step, hphase] at hstep
  obtain ⟨-, -, rfl⟩ := Control.inFlush_cases hstep
  refine .finished rfl (.inr ⟨hcreated, ec, rfl, hcode⟩) (fun _ => rfl)
    (fun hattached => .inr ⟨ec, rfl, .inl ?_⟩) hkilled
  rw [Thread.report, hout hattached]
  exact congrArg (fun text => [text])
    (hprintf_short (by simp [returnCodeLine]; decide : (returnCodeLine ec).length ≤ 1023))

/-- **Every move of a thread keeps its stage.** -/
theorem step (ho : o.Plain) (h : Stage o w n early late scripted k)
    (hstep : Control.step w m k = some k') : Stage o w n early late scripted k' := by
  cases h with
  | asked hread hcontext hfresh _ => exact asked_step hread hcontext hfresh hstep
  | told hread hcontext hfresh hout => exact told_step hread hcontext hfresh hout hstep
  | commanded hread hrest hfresh hout => exact commanded_step ho hread hrest hfresh hout hstep
  | connecting hphase htext hcontext hfresh _ =>
      exact connecting_step ho hphase htext hcontext hfresh hstep
  | waiting hphase htext hcreated hkilled hreported hout =>
      exact waiting_step hphase htext hcreated hkilled hreported hout hstep
  | flushing hphase hcreated _ hout hkilled hcode =>
      exact flushing_step hphase hcreated hout hkilled hcode hstep
  | finished hphase _ _ _ _ =>
      rw [Control.step, hphase] at hstep
      cases hstep

/-! ### What a stage says -/

theorem created (h : Stage o w n early late scripted k) :
    k.thread.created = [] ∨ k.thread.created = [o.launch] := by
  cases h with
  | asked _ _ hfresh _ => exact .inl hfresh.created
  | told _ _ hfresh _ => exact .inl hfresh.created
  | commanded _ _ hfresh _ => exact .inl hfresh.created
  | connecting _ _ _ hfresh _ => exact .inl hfresh.created
  | waiting _ _ hcreated _ _ _ => exact .inr hcreated
  | flushing _ hcreated _ _ _ _ => exact .inr hcreated
  | finished _ hcreated _ _ _ => exact hcreated.imp And.left And.left

theorem killed (h : Stage o w n early late scripted k) (hkilled : k.thread.killed = true) :
    (scripted = true ∧ 0 < late) ∨ k.attached = false := by
  have hfresh (hfresh : k.thread.Fresh) : (scripted = true ∧ 0 < late) ∨ k.attached = false := by
    rw [hfresh.killed] at hkilled
    cases hkilled
  cases h with
  | asked _ _ h _ => exact hfresh h
  | told _ _ h _ => exact hfresh h
  | commanded _ _ h _ => exact hfresh h
  | connecting _ _ _ h _ => exact hfresh h
  | waiting _ _ _ hnot _ _ =>
      rw [hnot] at hkilled
      cases hkilled
  | flushing _ _ _ _ hlate _ => exact (hlate hkilled).imp_left fun hpos => ⟨rfl, hpos⟩
  | finished _ _ hscripted _ hlate =>
      cases hattached : k.attached with
      | false => exact .inr rfl
      | true =>
          rcases hlate hkilled with hpos | hgone
          · exact .inl ⟨hscripted hattached, hpos⟩
          · rw [hgone] at hattached
            cases hattached

theorem reported (h : Stage o w n early late scripted k) {ec : UInt32}
    (hec : k.thread.reported = some ec) : k.thread.created = [o.launch]
      ∧ (k.thread.exitCode = some ec ∨ k.thread.killed = true ∧ ec = 0x1234) := by
  have hnone (hnone : k.thread.reported = none) : k.thread.created = [o.launch]
      ∧ (k.thread.exitCode = some ec ∨ k.thread.killed = true ∧ ec = 0x1234) := by
    rw [hnone] at hec
    cases hec
  cases h with
  | asked _ _ hfresh _ => exact hnone hfresh.reported
  | told _ _ hfresh _ => exact hnone hfresh.reported
  | commanded _ _ hfresh _ => exact hnone hfresh.reported
  | connecting _ _ _ hfresh _ => exact hnone hfresh.reported
  | waiting _ _ _ _ hreported _ => exact hnone hreported
  | flushing _ _ hreported _ _ _ => exact hnone hreported
  | finished _ hcreated _ _ _ =>
      rcases hcreated with ⟨-, hreported⟩ | ⟨hcreated, ec', hec', hcode⟩
      · exact hnone hreported
      · rw [hec] at hec'
        cases hec'
        exact ⟨hcreated, hcode⟩

/-- A process that was started has been reported on in the end. -/
theorem reported_of_finished (h : Stage o w n early late scripted k)
    (hphase : k.thread.phase = .finished) (hcreated : k.thread.created ≠ []) :
    ∃ ec, k.thread.reported = some ec
      ∧ (k.thread.exitCode = some ec ∨ k.thread.killed = true ∧ ec = 0x1234) := by
  have hreading {cmds : List Text} (hread : Reading k cmds) : False := by
    obtain ⟨buffer, hbuffer, -⟩ := hread
    rw [hphase] at hbuffer
    cases hbuffer
  have hother {p : Phase} (hother : k.thread.phase = p) : .finished = p := hphase.symm.trans hother
  cases h with
  | asked hread _ _ _ => exact (hreading hread).elim
  | told hread _ _ _ => exact (hreading hread).elim
  | commanded hread _ _ _ => exact (hreading hread).elim
  | connecting hphase' _ _ _ _ => cases hother hphase'
  | waiting hphase' _ _ _ _ _ => cases hother hphase'
  | flushing hphase' _ _ _ _ _ => cases hother hphase'
  | finished _ hdone _ _ _ =>
      rcases hdone with ⟨hnone, -⟩ | ⟨-, hreported⟩
      · exact absurd hnone hcreated
      · exact hreported

/-- Nothing is reported before the end. -/
theorem reported_of_step (h : Stage o w n early late scripted k)
    (hstep : Control.step w m k = some k') : k.thread.reported = none := by
  cases h with
  | asked _ _ hfresh _ => exact hfresh.reported
  | told _ _ hfresh _ => exact hfresh.reported
  | commanded _ _ hfresh _ => exact hfresh.reported
  | connecting _ _ _ hfresh _ => exact hfresh.reported
  | waiting _ _ _ _ hreported _ => exact hreported
  | flushing _ _ hreported _ _ _ => exact hreported
  | finished hphase _ _ _ _ =>
      rw [Control.step, hphase] at hstep
      cases hstep

/-! ### What the client reads -/

/-- **What the client reads next**: the version, in answer to its first line; or
later the number of the pipes, an error, or the return code. -/
theorem next_text (h : Stage o w n early late scripted k) (hattached : k.attached = true)
    {text : Text} {more : List Text} (hout : k.thread.out = text :: more) :
    (scripted = false ∧ text = versionLine ∧ more = []
        ∧ Reading k (List.replicate early abortCmd) ∧ k.thread.context = ⟨n, 0, 0, none⟩
        ∧ k.thread.Fresh)
      ∨ scripted = true ∧ Stage o w n early late true (k.withOut more)
        ∧ (k.thread.reported = none
            ∧ (text = stdIoErrLine (pipeNr w k.thread.context) ∨ IsError text)
          ∨ ∃ ec, k.thread.reported = some ec ∧ text = returnCodeLine ec ∧ more = []) := by
  cases h with
  | asked _ _ _ hempty =>
      rw [hempty hattached] at hout
      cases hout
  | told hread hcontext hfresh htold =>
      obtain ⟨hversion, rfl⟩ := htold hattached
      rw [hversion] at hout
      cases hout
      exact .inl ⟨rfl, rfl, rfl, hread, hcontext, hfresh⟩
  | commanded hread hrest hfresh hsaid =>
      rcases hsaid hattached with hsaid | hsaid <;> rw [hsaid] at hout <;> cases hout
      exact .inr ⟨rfl, .commanded hread hrest (fresh_out hfresh _) fun _ => .inl rfl,
        .inl ⟨hfresh.reported, .inr ignoringAbort_isError⟩⟩
  | connecting hphase htext hcontext hfresh hsaid =>
      rcases hsaid hattached with hsaid | hsaid <;> rw [hsaid] at hout <;> cases hout
      exact .inr ⟨rfl, .connecting hphase htext hcontext (fresh_out hfresh _) fun _ => .inl rfl,
        .inl ⟨hfresh.reported, .inl rfl⟩⟩
  | waiting _ _ _ _ _ hempty =>
      rw [hempty hattached] at hout
      cases hout
  | flushing _ _ _ hempty _ _ =>
      rw [hempty hattached] at hout
      cases hout
  | finished hphase hcreated hscripted hsaid hkilled =>
      refine .inr ⟨hscripted hattached, ?_⟩
      rcases hsaid hattached with ⟨hnone, herrors⟩ | ⟨ec, hec, hsaid⟩
      · rw [hout] at herrors
        refine ⟨.finished hphase hcreated (fun _ => rfl) (fun _ => .inl ⟨hnone, ?_⟩) hkilled,
          .inl ⟨hnone, .inr (herrors text List.mem_cons_self)⟩⟩
        exact fun error hmem => herrors error (List.mem_cons_of_mem _ hmem)
      · rcases hsaid with hsaid | hsaid <;> rw [hsaid] at hout <;> cases hout
        exact ⟨.finished hphase hcreated (fun _ => rfl) (fun _ => .inr ⟨ec, hec, .inr rfl⟩)
          hkilled, .inr ⟨ec, hec, rfl, rfl⟩⟩

/-! ### What the client does -/

/-- The client leaves. -/
theorem detach (h : Stage o w n early late scripted k) :
    Stage o w n early late scripted k.detach := by
  have hgone : ¬ k.detach.attached = true := by simp [Control.detach]
  cases h with
  | asked hread hcontext hfresh _ => exact .asked hread hcontext hfresh fun h => absurd h hgone
  | told hread hcontext hfresh _ => exact .told hread hcontext hfresh fun h => absurd h hgone
  | commanded hread hrest hfresh _ => exact .commanded hread hrest hfresh fun h => absurd h hgone
  | connecting hphase htext hcontext hfresh _ =>
      exact .connecting hphase htext hcontext hfresh fun h => absurd h hgone
  | waiting hphase htext hcreated hkilled hreported _ =>
      exact .waiting hphase htext hcreated hkilled hreported fun h => absurd h hgone
  | flushing hphase hcreated hreported _ _ hcode =>
      exact .flushing hphase hcreated hreported (fun h => absurd h hgone) (fun _ => .inr rfl) hcode
  | finished hphase hcreated _ _ _ =>
      exact .finished hphase hcreated (fun h => absurd h hgone) (fun h => absurd h hgone)
        fun _ => .inr rfl

/-- The process's pipes do not matter to the stage. -/
theorem of_eq (h : Stage o w n early late scripted k) (hthread : k'.thread = k.thread)
    (htext : k'.toService = k.toService) (hattached : k'.attached = k.attached) :
    Stage o w n early late scripted k' := by
  obtain ⟨thread', toService', attached', opened', lost', unread', produced'⟩ := k'
  cases hthread
  cases htext
  cases hattached
  cases h with
  | asked hread hcontext hfresh hout => exact .asked hread hcontext hfresh hout
  | told hread hcontext hfresh hout => exact .told hread hcontext hfresh hout
  | commanded hread hrest hfresh hout => exact .commanded hread hrest hfresh hout
  | connecting hphase htext hcontext hfresh hout =>
      exact .connecting hphase htext hcontext hfresh hout
  | waiting hphase htext hcreated hkilled hreported hout =>
      exact .waiting hphase htext hcreated hkilled hreported hout
  | flushing hphase hcreated hreported hout hkilled hcode =>
      exact .flushing hphase hcreated hreported hout hkilled hcode
  | finished hphase hcreated hscripted hout hkilled =>
      exact .finished hphase hcreated hscripted hout hkilled

/-- One more `abort`, in front of the script. -/
theorem abort_early (h : Stage o w n early late false k) :
    Stage o w n (early + 1) late false (k.receive Client.abort) := by
  have habort : Client.abort = unlines [abortCmd] := rfl
  have hsnoc (j : Nat) : List.replicate (j + 1) abortCmd = List.replicate j abortCmd ++ [abortCmd] :=
    List.replicate_succ'
  rw [habort]
  cases h with
  | asked hread hcontext hfresh hout =>
      refine .asked ?_ hcontext hfresh hout
      rw [hsnoc, ← List.cons_append]
      exact hread.receive [abortCmd]
  | @told _ j hread hcontext hfresh hout =>
      refine .told (j := j + 1) ?_ hcontext hfresh fun hattached => ?_
      · rw [hsnoc]
        exact hread.receive [abortCmd]
      · obtain ⟨hversion, rfl⟩ := hout hattached
        exact ⟨hversion, rfl⟩
  | finished hphase hcreated hscripted hout hkilled =>
      exact .finished hphase hcreated hscripted hout hkilled

/-- One more `abort`, behind the script. -/
theorem abort_late (h : Stage o w n early late true k) :
    Stage o w n early (late + 1) true (k.receive Client.abort) := by
  have habort : Client.abort = unlines [abortCmd] := rfl
  have hsnoc : List.replicate (late + 1) abortCmd = List.replicate late abortCmd ++ [abortCmd] :=
    List.replicate_succ'
  rw [habort]
  cases h with
  | @commanded _ j rest hread hrest hfresh hout =>
      have hmore := hread.receive [abortCmd]
      rw [List.append_assoc, List.append_assoc, ← hsnoc] at hmore
      exact .commanded hmore hrest hfresh hout
  | connecting hphase htext hcontext hfresh hout =>
      refine .connecting hphase ?_ hcontext hfresh hout
      rw [hsnoc, unlines_append, ← htext]
      rfl
  | waiting hphase htext hcreated hkilled hreported hout =>
      refine .waiting hphase ?_ hcreated hkilled hreported hout
      rw [hsnoc, unlines_append, ← htext]
      rfl
  | flushing hphase hcreated hreported hout hkilled hcode =>
      exact .flushing hphase hcreated hreported hout (fun _ => .inl (by omega)) hcode
  | finished hphase hcreated hscripted hout hkilled =>
      exact .finished hphase hcreated hscripted hout fun _ => .inl (by omega)

/-- The script, once the version has been read. -/
theorem script (hread : Reading k (List.replicate early abortCmd))
    (hcontext : k.thread.context = ⟨n, 0, 0, none⟩) (hfresh : k.thread.Fresh)
    (hout : k.thread.out = []) : Stage o w n early 0 true (k.receive o.script) := by
  rw [script_eq]
  have hrest : Remaining o n o.commands (k.receive (unlines o.commands)).thread.context := by
    rw [Control.receive, hcontext]
    exact .all
  refine .commanded (j := early) ?_ hrest hfresh fun _ => .inl hout
  rw [List.replicate_zero, List.append_nil]
  exact hread.receive o.commands

end Stage

end Assignment.Winexe
