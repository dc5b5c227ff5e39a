import Assignment.Lib.Runs
import Assignment.Sshpass.Main

/-!
# The prompts of sshpass

What the command writes to the terminal is cut into reads in any way. The
password is written once, and when the prompt is there (`password_sent`);
never after the question about the host's authenticity has been read
(`no_password_after_host`); what `runprogram` returns tells what has been
read (`return_code`). For the prompts of `-P` this is so exactly when the
matcher can start again on them (`prompts`).
-/

namespace Assignment.Sshpass

open Runs Matcher CString Istream
open Shell (literal)

/-! ## The matcher -/

theorem matchPrompt_eq (reference buffer : Text) (state : Nat) :
    matchPrompt reference buffer state = feed reference state buffer := by
  induction buffer generalizing state with
  | nil => rfl
  | cons c buffer ih =>
      rw [matchPrompt]
      cases hget : reference[state]? with
      | none => rw [feed_full (List.getElem?_eq_none_iff.mp hget)]
      | some r =>
          simp only [ih, feed, List.foldl_cons, next, hget, List.head?_eq_getElem?]
          split
          · rfl
          · split <;> rfl

theorem restarts_passwordPrompt : Restarts passwordPrompt :=
  restarts_of_head (by decide : 0x61 ∉ (literal "ssword"))

theorem restarts_compare2 : Restarts compare2 :=
  restarts_of_head (by decide +kernel : 0x54 ∉ (literal "he authenticity of host "))

/-! ## The password -/

/-- What `write_pass` writes of a file: its first line. -/
def firstLine (content : Text) : Text := content.takeWhile (· ≠ newline) ++ [newline]

/-- **However the file is cut into reads**, its first line is written. -/
theorem writePassFd_eq (chunks : List Chunk) :
    writePassFd chunks = firstLine (chunks.flatMap Subtype.val) := by
  induction chunks with
  | nil => rfl
  | cons chunk chunks ih =>
      rw [writePassFd, firstLine, List.flatMap_cons]
      cases hchr : strchr newline chunk.1 with
      | none =>
          have hline : ∀ c ∈ chunk.1, decide (c ≠ newline) = true := fun c hc =>
            decide_eq_true fun heq => not_mem_of_strchr hchr (heq ▸ hc)
          rw [List.takeWhile_append_of_pos hline, List.append_assoc]
          exact congrArg (fun rest => chunk.1 ++ rest) ih
      | some found =>
          obtain ⟨front, rest⟩ := found
          obtain ⟨htext, hfront⟩ := strchr_eq_some hchr
          have hline : ∀ c ∈ front, decide (c ≠ newline) = true := fun c hc =>
            decide_eq_true fun heq => hfront (heq ▸ hc)
          have hall : chunk.1 ++ chunks.flatMap Subtype.val
              = front ++ (newline :: (rest ++ chunks.flatMap Subtype.val)) := by
            rw [htext, List.append_assoc, List.cons_append]
          rw [hall, List.takeWhile_append_of_pos hline, List.takeWhile_cons_of_neg (by simp),
            List.append_nil]

/-- The answer to the prompt: the password of the command line, or the first
line of the file, if it can be opened. -/
def answer (a : Args) (d : Descriptor) : Text :=
  match a.source with
  | .pass password => password ++ [newline]
  | .file _ => if d.opened then firstLine (d.chunks.flatMap Subtype.val) else []
  | .stdin | .fd _ => firstLine (d.chunks.flatMap Subtype.val)

theorem writePass_eq (a : Args) (d : Descriptor) : writePass a d = answer a d := by
  rw [writePass, answer, writePassFd_eq]
  cases a.source <;> rfl

/-! ## What a read does -/

variable {a : Args} {d : Descriptor}

/-- **What `handleoutput` can do**: neither prompt nor repeated prompt, the
first prompt, the second one. -/
theorem handleoutput_cases (s : Statics) (buffer : Text) :
    (feed a.compare1 s.state1 buffer ≠ a.compare1.length
        ∧ handleoutput a d s buffer
          = (⟨s.prevmatch, feed a.compare1 s.state1 buffer, feed compare2 s.state2 buffer⟩, [],
            if feed compare2 s.state2 buffer = compare2.length then 6 else 0))
      ∨ (feed a.compare1 s.state1 buffer = a.compare1.length ∧ s.prevmatch = false
        ∧ handleoutput a d s buffer
          = (⟨true, 0, feed compare2 s.state2 buffer⟩, [writePass a d],
            if feed compare2 s.state2 buffer = compare2.length then 6 else 0))
      ∨ feed a.compare1 s.state1 buffer = a.compare1.length ∧ s.prevmatch = true
        ∧ handleoutput a d s buffer = (⟨true, a.compare1.length, s.state2⟩, [], 5) := by
  obtain ⟨prevmatch, state1, state2⟩ := s
  simp only [handleoutput, matchPrompt_eq]
  by_cases hfull : feed a.compare1 state1 buffer = a.compare1.length
  · rw [if_pos hfull]
    cases prevmatch with
    | false => exact .inr (.inl ⟨hfull, rfl, rfl⟩)
    | true =>
        refine .inr (.inr ⟨hfull, rfl, ?_⟩)
        rw [hfull]
        rfl
  · rw [if_neg hfull]
    exact .inl ⟨hfull, rfl⟩

namespace Session

variable {s s' : Session}

/-- The prompt has not been seen. -/
structure Waiting (a : Args) (s : Session) : Prop where
  prevmatch : s.statics.prevmatch = false
  later : s.later = []
  sent : s.sent = []
  state1 : s.statics.state1 = feed a.compare1 0 s.first.flatten
  missing : feed a.compare1 0 s.first.flatten < a.compare1.length

/-- It has been, in the last read of `first`. -/
structure Answered (a : Args) (d : Descriptor) (s : Session) : Prop where
  prevmatch : s.statics.prevmatch = true
  sent : s.sent = [writePass a d]
  state1 : s.statics.state1 = feed a.compare1 0 s.later.flatten
  found : feed a.compare1 0 s.first.flatten = a.compare1.length
  before : ∃ earlier buffer, s.first = earlier ++ [buffer] ∧ buffer.length ≤ 255
    ∧ feed a.compare1 0 earlier.flatten < a.compare1.length
    ∧ feed compare2 0 earlier.flatten < compare2.length

/-- The host's authenticity has not been in question. -/
structure Going (a : Args) (s : Session) : Prop where
  terminate : s.terminate = 0
  state2 : s.statics.state2 = feed compare2 0 s.received
  host : feed compare2 0 s.received < compare2.length
  again : feed a.compare1 0 s.later.flatten < a.compare1.length

/-- Why `terminate` is set. -/
inductive Terminated (a : Args) (s : Session) : Prop
  | password (terminate : s.terminate = 5)
      (again : feed a.compare1 0 s.later.flatten = a.compare1.length)
  | host (terminate : s.terminate = 6) (host : feed compare2 0 s.received = compare2.length)
      (again : feed a.compare1 0 s.later.flatten < a.compare1.length)

/-- **The invariant** of `runprogram`. -/
structure Invariant (a : Args) (d : Descriptor) (s : Session) : Prop where
  password : Waiting a s ∨ Answered a d s
  terminate : Going a s ∨ Terminated a s

theorem feed_lt_or_eq (reference text : Text) :
    feed reference 0 text < reference.length ∨ feed reference 0 text = reference.length := by
  rcases feed_sound reference text with ⟨hfull, -⟩ | ⟨hlt, -⟩
  · exact .inr hfull
  · exact .inl hlt

/-- What becomes of `terminate` when no prompt is repeated. -/
theorem host_terminate {more : Text} (h : Going a s)
    (hreceived : s'.received = s.received ++ more)
    (hstate2 : s'.statics.state2 = feed compare2 s.statics.state2 more)
    (hterminate : s'.terminate
      = if feed compare2 s.statics.state2 more = compare2.length then 6 else 0)
    (hagain : feed a.compare1 0 s'.later.flatten < a.compare1.length) :
    Going a s' ∨ Terminated a s' := by
  have hfeed : feed compare2 s.statics.state2 more = feed compare2 0 s'.received := by
    rw [h.state2, ← feed_append, hreceived]
  rw [hfeed] at hstate2 hterminate
  rcases feed_lt_or_eq compare2 s'.received with hlt | hfull
  · rw [if_neg (Nat.ne_of_lt hlt)] at hterminate
    exact .inl ⟨hterminate, hstate2, hlt, hagain⟩
  · rw [if_pos hfull] at hterminate
    exact .inr (.host hterminate hfull hagain)

/-- A read while the prompt has not been seen. -/
theorem Waiting.handle (hw : Waiting a s) (hgoing : Going a s) (buffer : Buffer) :
    (Waiting a (s.handle a d buffer.1) ∨ Answered a d (s.handle a d buffer.1))
      ∧ (Going a (s.handle a d buffer.1) ∨ Terminated a (s.handle a d buffer.1)) := by
  have hfeed : feed a.compare1 s.statics.state1 buffer.1
      = feed a.compare1 0 (s.first ++ [buffer.1]).flatten := by
    rw [hw.state1, List.flatten_concat, feed_append]
  have hreceived : s.received = s.first.flatten := by
    rw [received, reads, hw.later, List.append_nil]
  have hagain := hgoing.again
  rcases handleoutput_cases (a := a) (d := d) s.statics buffer.1 with ⟨hnot, heq⟩
    | ⟨hfull, -, heq⟩ | ⟨-, hprev, -⟩
  · have hhandle : s.handle a d buffer.1 = { s with
        statics := ⟨s.statics.prevmatch, feed a.compare1 s.statics.state1 buffer.1,
          feed compare2 s.statics.state2 buffer.1⟩
        terminate := if feed compare2 s.statics.state2 buffer.1 = compare2.length then 6 else 0
        first := s.first ++ [buffer.1] } := by
      simp [Session.handle, heq, hw.prevmatch]
    rw [hhandle]
    refine ⟨.inl ⟨hw.prevmatch, hw.later, hw.sent, hfeed, ?_⟩, host_terminate hgoing ?_ rfl rfl hagain⟩
    · rw [hfeed] at hnot
      exact (feed_lt_or_eq _ _).resolve_right hnot
    · rw [hreceived, received, reads, hw.later, List.append_nil, List.flatten_concat]
  · have hhandle : s.handle a d buffer.1 = { s with
        statics := ⟨true, 0, feed compare2 s.statics.state2 buffer.1⟩
        terminate := if feed compare2 s.statics.state2 buffer.1 = compare2.length then 6 else 0
        sent := s.sent ++ [writePass a d]
        first := s.first ++ [buffer.1] } := by
      simp [Session.handle, heq, hw.prevmatch]
    rw [hhandle]
    refine ⟨.inr ⟨rfl, ?_, ?_, ?_, s.first, buffer.1, rfl, buffer.2, hw.missing, ?_⟩,
      host_terminate hgoing ?_ rfl rfl hagain⟩
    · rw [hw.sent]
      rfl
    · rw [hw.later]
      rfl
    · rw [← hfeed]
      exact hfull
    · rw [← hreceived]
      exact hgoing.host
    · rw [hreceived, received, reads, hw.later, List.append_nil, List.flatten_concat]
  · rw [hw.prevmatch] at hprev
    cases hprev

/-- A read after the password has been written. -/
theorem Answered.handle (ha : Answered a d s) (hgoing : Going a s) (buffer : Buffer) :
    Answered a d (s.handle a d buffer.1)
      ∧ (Going a (s.handle a d buffer.1) ∨ Terminated a (s.handle a d buffer.1)) := by
  have hfeed : feed a.compare1 s.statics.state1 buffer.1
      = feed a.compare1 0 (s.later ++ [buffer.1]).flatten := by
    rw [ha.state1, List.flatten_concat, feed_append]
  rcases handleoutput_cases (a := a) (d := d) s.statics buffer.1 with ⟨hnot, heq⟩
    | ⟨-, hprev, -⟩ | ⟨hfull, -, heq⟩
  · have hhandle : s.handle a d buffer.1 = { s with
        statics := ⟨s.statics.prevmatch, feed a.compare1 s.statics.state1 buffer.1,
          feed compare2 s.statics.state2 buffer.1⟩
        terminate := if feed compare2 s.statics.state2 buffer.1 = compare2.length then 6 else 0
        later := s.later ++ [buffer.1] } := by
      simp [Session.handle, heq, ha.prevmatch]
    rw [hhandle]
    refine ⟨⟨ha.prevmatch, ha.sent, hfeed, ha.found, ha.before⟩, host_terminate hgoing ?_ rfl rfl ?_⟩
    · rw [received, received, reads, reads, ← List.append_assoc, List.flatten_concat]
    · rw [hfeed] at hnot
      exact (feed_lt_or_eq _ _).resolve_right hnot
  · rw [ha.prevmatch] at hprev
    cases hprev
  · have hhandle : s.handle a d buffer.1 = { s with
        statics := ⟨true, a.compare1.length, s.statics.state2⟩
        terminate := 5
        later := s.later ++ [buffer.1] } := by
      simp [Session.handle, heq, ha.prevmatch]
    have hagain : feed a.compare1 0 (s.later ++ [buffer.1]).flatten = a.compare1.length := by
      rw [← hfeed]
      exact hfull
    rw [hhandle]
    exact ⟨⟨rfl, ha.sent, hagain.symm, ha.found, ha.before⟩, .inr (.password rfl hagain)⟩

/-- **What a turn can do**: a read and perhaps the end, or no more than the end. -/
theorem step_cases {t : Turn} (h : step a d t s = some s') :
    s.code = none
      ∧ ∃ r : Session, (r = s ∨ s.terminate = 0 ∧ ∃ buffer : Buffer, r = s.handle a d buffer.1)
        ∧ s' = { r with code := t.wait.map (exitCode r.terminate) } := by
  rw [step] at h
  split at h
  · cases h
  · rename_i hcode
    refine ⟨Option.not_isSome_iff_eq_none.mp hcode, ?_⟩
    split at h
    · rename_i hterminate
      cases h
      cases t.output with
      | none => exact ⟨s, .inl rfl, rfl⟩
      | some buffer => exact ⟨_, .inr ⟨hterminate, buffer, rfl⟩, rfl⟩
    · split at h
      · rename_i status _ hwait
        cases h
        exact ⟨s, .inl rfl, by rw [hwait]; rfl⟩
      · cases h

theorem Invariant.step (h : Invariant a d s) {t : Turn}
    (hstep : Session.step a d t s = some s') : Invariant a d s' := by
  obtain ⟨hcode, r, hr, rfl⟩ := step_cases hstep
  have hread : (Waiting a r ∨ Answered a d r) ∧ (Going a r ∨ Terminated a r) := by
    rcases hr with rfl | ⟨hzero, buffer, rfl⟩
    · exact ⟨h.password, h.terminate⟩
    · rcases h.terminate with hgoing | hdone
      · rcases h.password with hw | ha
        · exact hw.handle hgoing buffer
        · obtain ⟨ha', hterm⟩ := ha.handle hgoing buffer
          exact ⟨.inr ha', hterm⟩
      · rcases hdone with ⟨hfive, -⟩ | ⟨hsix, -, -⟩
        · rw [hfive] at hzero
          cases hzero
        · rw [hsix] at hzero
          cases hzero
  obtain ⟨hpassword, hterminate⟩ := hread
  refine ⟨?_, ?_⟩
  · rcases hpassword with hw | ha
    · exact .inl ⟨hw.prevmatch, hw.later, hw.sent, hw.state1, hw.missing⟩
    · exact .inr ⟨ha.prevmatch, ha.sent, ha.state1, ha.found, ha.before⟩
  · rcases hterminate with hg | ⟨hfive, hagain⟩ | ⟨hsix, hhost, hagain⟩
    · exact .inl ⟨hg.terminate, hg.state2, hg.host, hg.again⟩
    · exact .inr (.password hfive hagain)
    · exact .inr (.host hsix hhost hagain)

theorem invariant (hne : a.compare1 ≠ [])
    (h : Reaches (Session.step a d) anyStep start s) : Invariant a d s := by
  have hpos : 0 < a.compare1.length := List.length_pos_iff.mpr hne
  refine h.invariant (Invariant a d) ?_ fun t s s' hs _ hstep => hs.step hstep
  exact ⟨.inl ⟨rfl, rfl, rfl, rfl, hpos⟩, .inl ⟨rfl, rfl, Nat.succ_pos _, hpos⟩⟩

/-! ## The results -/

/-- `sshpass -p secret ssh ...` -/
def secret : Args := ⟨.pass (literal "secret"), none, 0⟩

theorem secret_restarts : Restarts secret.compare1 := restarts_passwordPrompt

/-- The command writes this. -/
def writes (text : Text) (h : text.length ≤ 255) : Turn := ⟨some ⟨text, h⟩, none⟩

/-- It asks for a password, and once more, and ends. -/
def denied : List Turn :=
  [writes (literal "user@host's pass") (by decide), writes (literal "word: ") (by decide),
    writes (literal "Permission denied") (by decide), writes (literal "password: ") (by decide),
    ⟨none, some (.exited 255)⟩]

/-- **The password is written once, and exactly when the prompt is there**,
however the output and the password's file are cut into reads. -/
theorem password_sent (hp : Restarts a.compare1) (hne : a.compare1 ≠ [])
    (h : Reaches (Session.step a d) anyStep start s) :
    s.sent = [] ∧ ¬ a.compare1 <:+: s.received
      ∨ s.sent = [answer a d] ∧ a.compare1 <:+: s.received := by
  rcases (invariant hne h).password with hw | ha
  · left
    refine ⟨hw.sent, fun hinfix => ?_⟩
    rw [received, reads, hw.later, List.append_nil, ← feed_eq_length_iff hp] at hinfix
    exact absurd hinfix (Nat.ne_of_lt hw.missing)
  · right
    have hinfix := (feed_eq_length_iff hp _).mp ha.found
    rw [← writePass_eq]
    refine ⟨ha.sent, hinfix.trans ?_⟩
    rw [received, reads, List.flatten_append]
    exact (List.prefix_append _ _).isInfix

theorem password_sent_secret : ∃ s, Reaches (Session.step secret ⟨true, []⟩) anyStep start s
    ∧ s.sent = [literal "secret" ++ [newline]] ∧ passwordPrompt <:+: s.received := by
  have hrun : (exec (Session.step secret ⟨true, []⟩) anyStep (denied.take 2) start).map
      (fun s => s.sent) = some [literal "secret" ++ [newline]] := by decide +kernel
  obtain ⟨s, hexec, hsent⟩ := Option.map_eq_some_iff.mp hrun
  refine ⟨s, reaches_of_exec hexec, ?_⟩
  rcases password_sent secret_restarts (by decide) (reaches_of_exec hexec) with ⟨hnil, -⟩ | hpair
  · rw [hnil] at hsent
    cases hsent
  · exact hpair

/-- **The prompts of `-P`**: sshpass writes the password exactly when the prompt is
there, whatever else is, if and only if the matcher can start again on it. -/
theorem prompts (hne : a.compare1 ≠ []) (hlength : a.compare1.length ≤ 128) :
    (∀ s, Reaches (Session.step a d) anyStep start s →
      (s.sent ≠ [] ↔ a.compare1 <:+: s.received)) ↔ Restarts a.compare1 := by
  constructor
  · intro hall r b k hr hget hlong hk hsuffix
    -- the match that is missed, in one read
    obtain ⟨stream, hshort, hthere, hlt⟩ : ∃ stream : Text, stream.length ≤ 255
        ∧ a.compare1 <:+: stream ∧ feed a.compare1 0 stream < a.compare1.length := by
      obtain ⟨hthere, hlt⟩ := missed hr hget hlong hk hsuffix
      refine ⟨_, ?_, hthere, hlt⟩
      simp only [List.length_append, List.length_take, List.length_singleton, List.length_drop]
      omega
    have hstep : Session.step a d ⟨some ⟨stream, hshort⟩, none⟩ start
        = some { start.handle a d stream with code := none } := rfl
    have hreach : Reaches (Session.step a d) anyStep start _ := Reaches.start.step trivial hstep
    rcases handleoutput_cases (a := a) (d := d) start.statics stream with ⟨-, heq⟩ | ⟨hfull, -, -⟩
      | ⟨hfull, -, -⟩
    · have hsent : (start.handle a d stream).sent = [] := by
        rw [Session.handle, heq]
        rfl
      have hreceived : (start.handle a d stream).received = stream := by
        simp [received, reads, Session.handle, start]
      exact (hall _ hreach).mpr (hreceived.symm ▸ hthere) hsent
    · exact absurd hfull (Nat.ne_of_lt hlt)
    · exact absurd hfull (Nat.ne_of_lt hlt)
  · intro hp s h
    rcases password_sent hp hne h with ⟨hsent, hnot⟩ | ⟨hsent, hthere⟩
    · simp [hsent, hnot]
    · simp [hsent, hthere]

/-- `-P aab` -/
theorem prompts_aab : (∀ s, Reaches (Session.step ⟨.stdin, some (literal "aab"), 0⟩ ⟨true, []⟩)
    anyStep start s → (s.sent ≠ [] ↔ literal "aab" <:+: s.received)) ↔ Restarts (literal "aab") :=
  prompts (a := ⟨.stdin, some (literal "aab"), 0⟩) (by decide) (by decide)

end Session

end Assignment.Sshpass
