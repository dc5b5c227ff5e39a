import Assignment.Winexe.Progress

/-!
# What is left of the dialogue

`work` counts what the protocol has still to do: the bytes on their way to
the service, each of which may end a command line and bring two answers; the
phases before the thread; the texts and the output that the client has not
read. Every orderly step lowers it. With `progress` this says that orderly
runs come to their end (`completes`): the client has left, or a process is
running and the protocol waits for it.
-/

namespace Assignment.Winexe

open Runs CString Istream
open Shell (literal)

/-! ## The measure -/

/-- The phases that are still to come. -/
def Phase.rank : Phase → Nat
  | .reading _ => 6
  | .connecting .pin _ => 5
  | .connecting .pout _ => 4
  | .connecting .perr _ => 3
  | .waiting => 2
  | .flushing _ => 1
  | .finished => 0

/-- The texts that are still to be read. -/
def outWork (out : List Text) : Nat := (out.map fun text => text.length + 1).sum

namespace Control

/-- The output that is still to be read. -/
def unreadWork (k : Control) : Nat :=
  (k.unread .pin).length + (k.unread .pout).length + (k.unread .perr).length

/-- The pipes that are still to be opened. -/
def openWork (k : Control) : Nat :=
  (if k.opened .pin then 0 else 1) + (if k.opened .pout then 0 else 1)
    + if k.opened .perr then 0 else 1

/-- A text is at most 1024 bytes of work, and a byte may bring two of them. -/
def work (k : Control) : Nat :=
  2049 * k.toService.length + 2048 * k.thread.phase.rank + outWork k.thread.out + k.unreadWork
    + k.openWork

end Control

/-! ## What a thread brings -/

theorem outWork_append (out more : List Text) :
    outWork (out ++ more) = outWork out + outWork more := by
  simp [outWork]

theorem outWork_hprintf (texts : List Text) :
    outWork (texts.map hprintf) ≤ 1024 * texts.length := by
  induction texts with
  | nil => exact Nat.le_refl _
  | cons text texts ih =>
      have hlen : (hprintf text).length ≤ 1023 := by
        rw [hprintf, List.length_take]
        omega
      have hcons : outWork ((text :: texts).map hprintf)
          = (hprintf text).length + 1 + outWork (texts.map hprintf) := by
        simp [outWork]
      rw [hcons, List.length_cons]
      omega

theorem outWork_say (out : List Text) (text : Text) :
    outWork (out ++ [hprintf text]) ≤ outWork out + 1024 := by
  rw [outWork_append]
  exact Nat.add_le_add_left (outWork_hprintf [text]) _

namespace Thread

variable {w : Windows} {t : Thread}

theorem rank_le (p : Phase) : p.rank ≤ 6 := by
  cases p with
  | connecting p l => cases p <;> simp [Phase.rank]
  | _ => simp [Phase.rank]

theorem gets_work (w : Windows) (t : Thread) (buffer : Text) :
    outWork (t.gets w buffer).out ≤ outWork t.out + 2048 := by
  rw [gets]
  split
  · exact Nat.le_add_right _ _
  · have hprompt := (handle_prompt w t.context buffer).out
    have hsay := outWork_hprintf (handle w t.context buffer).out
    simp only [outWork_append]
    omega

theorem getc_work (w : Windows) (t : Thread) (buffer : Text) (b : UInt8) :
    outWork (t.getc w buffer b).out ≤ outWork t.out + 2048 := by
  rw [getc]
  split
  · exact gets_work w t buffer
  · split
    · exact gets_work w t _
    · exact Nat.le_add_right _ _

theorem connect_work (w : Windows) (t : Thread) (p : Std) (l : Launch) :
    2048 * (t.connect w p l true).phase.rank + outWork (t.connect w p l true).out
      < 2048 * (Phase.connecting p l).rank + outWork t.out := by
  cases p with
  | pin => simp [connect, Phase.rank]
  | pout => simp [connect, Phase.rank]
  | perr =>
      have hprocess : t.connect w .perr l true = t.createProcess w l := rfl
      rw [hprocess, createProcess]
      cases w.createProcessAsUser l.token l.cmdline with
      | none => simp [Phase.rank]
      | some e =>
          have hsay := outWork_say t.out (line (literal "error Creating process(" ++ l.cmdline
            ++ literal ") " ++ errorNumber e))
          simp only [Phase.rank]
          omega

end Thread

namespace Control

variable {w : Windows} {k k' : Control} {m : Move}

theorem work_getc (hstep : step w .getc k = some k') : k'.work < k.work := by
  rw [step] at hstep
  split at hstep
  · rename_i buffer hphase
    rw [inGets] at hstep
    split at hstep
    · rename_i b rest htext
      obtain ⟨-, heq⟩ := Option.ite_none_right_eq_some.mp hstep
      cases heq
      have hout := k.thread.getc_work w buffer b
      have hrank := Thread.rank_le (k.thread.getc w buffer b).phase
      have hreading : k.thread.phase.rank = 6 := by rw [hphase]; rfl
      simp only [work, unreadWork, openWork, htext, List.length_cons]
      omega
    · cases hstep
  all_goals cases hstep

theorem work_connect (hstep : step w (.connect true) k = some k') : k'.work < k.work := by
  rw [step] at hstep
  split at hstep
  · cases hstep
  · rename_i p l hphase
    obtain ⟨-, heq⟩ := Option.ite_none_right_eq_some.mp hstep
    cases heq
    have hnext := k.thread.connect_work w p l
    simp only [work, unreadWork, openWork, hphase]
    omega
  all_goals cases hstep

theorem work_reap (hstep : step w .reap k = some k') : k'.work < k.work := by
  rw [step] at hstep
  split at hstep
  · cases hstep
  · cases hstep
  · rename_i hphase
    obtain ⟨ec, -, rfl⟩ := Option.map_eq_some_iff.mp hstep
    simp only [work, unreadWork, openWork, hphase, Thread.reap, Phase.rank]
    omega
  all_goals cases hstep

theorem work_flush (hstep : step w .flush k = some k') : k'.work < k.work := by
  rw [step] at hstep
  split at hstep
  · cases hstep
  · cases hstep
  · cases hstep
  · rename_i ec hphase
    obtain ⟨-, heq⟩ := Option.ite_none_right_eq_some.mp hstep
    cases heq
    have hsay := outWork_say k.thread.out (line (literal "return_code " ++ hex8 ec))
    simp only [work, unreadWork, openWork, hphase, Thread.report, Phase.rank]
    omega
  · cases hstep

/-- **A move of the thread.** -/
theorem work_move (hok : m = .getc ∨ m = .connect true ∨ m = .reap ∨ m = .flush)
    (hstep : step w m k = some k') : k'.work < k.work := by
  rcases hok with rfl | rfl | rfl | rfl
  · exact work_getc hstep
  · exact work_connect hstep
  · exact work_reap hstep
  · exact work_flush hstep

end Control

namespace System

variable {o : Options} {w : Windows} {s s' : System} {k k' : Control}

/-- What the opening of the control pipe brings: the first line and the phases of
the thread, three pipes to open, and the script. -/
def openingWork (o : Options) : Nat := 2049 * 12 + 2048 * 6 + 3 + 2049 * o.script.length + 1

/-- **What is left to do.** -/
def work (o : Options) (s : System) : Nat :=
  (if s.client.exit.isSome then 0 else 1) + (if s.opening then openingWork o else 0)
    + (if s.client.state = .gettingVersion then 2049 * o.script.length else 0)
    + (s.controls.map Control.work).sum

theorem work_receive (k : Control) (text : Text) :
    (k.receive text).work = k.work + 2049 * text.length := by
  have hopen : (k.receive text).openWork = k.openWork := rfl
  have hunread : (k.receive text).unreadWork = k.unreadWork := rfl
  rw [Control.work, Control.work, hopen, hunread]
  simp only [Control.receive, List.length_append]
  omega

theorem work_withOut {text : Text} {more : List Text} (hout : k.thread.out = text :: more) :
    (k.withOut more).work < k.work := by
  have hcons : outWork k.thread.out = text.length + 1 + outWork more := by
    simp [outWork, hout]
  have hopen : (k.withOut more).openWork = k.openWork := rfl
  have hunread : (k.withOut more).unreadWork = k.unreadWork := rfl
  rw [Control.work, Control.work, hopen, hunread, hcons]
  simp only [Control.withOut]
  omega

/-- The control pipe is opened. -/
theorem Unconnected.work_opened (h : s.Unconnected) (hexit : s.client.exit = none) (n : UInt32) :
    (react { s with
      opening := false
      fd := some 0
      controls := [Control.start n] } s.client.onCtrlPipeOpen).work o < s.work o := by
  have hreact := react_write (s := { s with
    opening := false
    fd := some 0
    controls := [Control.start n] }) (c := s.client.onCtrlPipeOpen.1) hexit rfl rfl
    Client.getVersion
  have hstart : (Control.start n).work = 2048 * 6 + 3 := by
    simp [Control.work, Control.start, Thread.start, Phase.rank, outWork, Control.unreadWork,
      Control.openWork]
  have hversion : Client.getVersion.length = 12 := rfl
  rw [show s.client.onCtrlPipeOpen
    = (s.client.onCtrlPipeOpen.1, [.writeCtrl Client.getVersion]) from rfl, hreact]
  simp [work, work_receive, hstart, hversion, h.opening hexit, h.controls, h.state, openingWork,
    Client.onCtrlPipeOpen, hexit]
  omega

/-- The client has read a text. -/
theorem Connected.work_read {n : UInt32} {early late : Nat} {scripted : Bool}
    (hs : Connected o w s k n early late scripted) (hexit : s.client.exit = none)
    (hread : s.read o = some s') : s'.work o < s.work o := by
  have hstate := hs.state hexit
  obtain ⟨text, more, hout, ⟨rfl, -, rfl, -, -, -, rfl⟩
    | ⟨rfl, -, ⟨-, -, rfl⟩ | ⟨-, -, rfl⟩ | ⟨ec, -, -, rfl⟩⟩⟩ := hs.read_cases hexit hread
  · have hless := work_withOut hout
    simp only [work, hs.controls, hstate, hexit, work_receive, List.map_cons, List.map_nil,
      List.sum_cons, List.sum_nil, if_true, Bool.false_eq_true, if_false, reduceCtorEq]
    omega
  all_goals
    have hless := work_withOut hout
    simp only [work, hs.controls, List.map_cons, List.map_nil, List.sum_cons, List.sum_nil]
    omega

/-- The client leaves. -/
theorem Connected.work_exit {n : UInt32} {early late : Nat} {scripted : Bool}
    (hs : Connected o w s k n early late scripted) (hexit : s.client.exit = none) :
    (s.react (s.client.exitProgram o)).work o < s.work o := by
  have hdetach : k.detach.work = k.work := rfl
  have hleft : ((s.client.exitProgram o).1.exit).isSome = true := rfl
  have hstate : (s.client.exitProgram o).1.state = s.client.state := rfl
  rw [react_exit (c := (s.client.exitProgram o).1) hleft (exitProgram_calls o s.client)]
  simp only [work, hs.controls, List.map_cons, List.map_nil, List.sum_cons, List.sum_nil, hdetach,
    hleft, hstate, hexit, if_true, Option.isSome_none, Bool.false_eq_true, if_false]
  omega

/-- A step of the process's pipes. -/
theorem work_pipes (hthread : k'.thread = k.thread) (htext : k'.toService = k.toService)
    (h : k'.unreadWork + k'.openWork < k.unreadWork + k.openWork) : k'.work < k.work := by
  rw [Control.work, Control.work, hthread, htext]
  omega

theorem work_openStd {p : Std} (h : k.opened p = false) :
    ({ k with opened := Function.update k.opened p true } : Control).work < k.work := by
  have hopen : ({ k with opened := Function.update k.opened p true } : Control).openWork
      < k.openWork := by
    cases p <;> simp [Control.openWork, h]
  exact work_pipes rfl rfl (Nat.add_lt_add_left hopen _)

theorem work_readStd {p : Std} (h : k.unread p ≠ []) :
    ({ k with unread := Function.update k.unread p ((k.unread p).drop 256) } : Control).work
      < k.work := by
  have hpos : 0 < (k.unread p).length := List.length_pos_iff.mpr h
  have hunread : ({ k with unread := Function.update k.unread p ((k.unread p).drop 256) } :
      Control).unreadWork < k.unreadWork := by
    cases p <;> simp [Control.unreadWork] <;> omega
  exact work_pipes rfl rfl (Nat.add_lt_add_right hunread _)

/-- A step that only changes the connection. -/
theorem work_controls {written : Std → Text} (hcontrols : s.controls = [k])
    (h : k'.work < k.work) :
    ({ s with controls := [k'], written := written } : System).work o < s.work o := by
  simp only [work, hcontrols, List.map_cons, List.map_nil, List.sum_cons, List.sum_nil]
  omega

/-- **Every orderly step leaves less to do.** -/
theorem lowers (hinv : Invariant o w s) {a : Action} (hok : Orderly a s)
    (hstep : System.step o w a s = some s') : s'.work o < s.work o := by
  rcases hinv with hun | ⟨k, n, early, late, scripted, hs⟩
  · obtain ⟨hexit, ⟨n, rfl⟩ | ⟨_, _, rfl, -⟩ | ⟨_, rfl, -⟩⟩ := hun.step_cases hstep
    · exact hun.work_opened hexit n
    · exact hok.elim
    · exact hok.elim
  · cases hs.turn hstep with
    | thread hmove => exact work_controls hs.controls (Control.work_move hok hmove)
    | read hexit hread => exact hs.work_read hexit hread
    | fails hexit ha => exact hs.work_exit hexit
    | openStd hexit hopened => exact work_controls hs.controls (work_openStd hopened)
    | readStd hexit hunread => exact work_controls hs.controls (work_readStd hunread)
    | timer | signal | loseStd => exact hok.elim

/-- **The dialogue comes to its end**: from any state that an interleaving can
reach, an orderly run takes at most `work` steps, and where it can go no
further the client has left or the process is running. -/
theorem completes (ho : o.Plain) (h : Reaches (System.step o w) anyStep (start o) s)
    {actions : List Action} (hrun : exec (System.step o w) Orderly actions s = some s') :
    actions.length ≤ s.work o
      ∧ ((∀ a, Orderly a s' → System.step o w a s' = none) →
        s'.client.exit.isSome = true ∨ s'.running = true) := by
  have hlowers : ∀ a s s', Reaches (System.step o w) anyStep (start o) s → Orderly a s →
      System.step o w a s = some s' →
        Reaches (System.step o w) anyStep (start o) s' ∧ s'.work o < s.work o :=
    fun a s s' hreach hok hstep =>
      ⟨hreach.step trivial hstep, lowers (invariant ho hreach) hok hstep⟩
  obtain ⟨hreach, hlength⟩ := exec_length_le _ (work o) hlowers h hrun
  refine ⟨by omega, fun hstuck => ?_⟩
  by_contra hnot
  obtain ⟨hexit, hrunning⟩ := not_or.mp hnot
  rcases progress ho hreach (Option.not_isSome_iff_eq_none.mp hexit) with hrun | ⟨a, t, hok, hstep⟩
  · exact hrunning hrun
  · rw [hstuck a hok] at hstep
    cases hstep

/-- The steps after the process has exited. -/
def afterExit : List Action :=
  [.readStd .pout 0, .thread 0 .reap, .thread 0 .flush, .read, .readFailed]

theorem completes_systeminfo : ∃ s s',
    Reaches (System.step systeminfo granting) anyStep (start systeminfo) s
      ∧ exec (System.step systeminfo granting) Orderly afterExit s = some s'
      ∧ afterExit.length ≤ s.work systeminfo
      ∧ ((∀ a, Orderly a s' → System.step systeminfo granting a s' = none) →
        s'.client.exit.isSome = true ∨ s'.running = true) := by
  have hrun : (exec (System.step systeminfo granting) anyStep
      (untilStarted ++ [.thread 0 (.writes .pout (line (literal "OS Name: Windows"))),
        .thread 0 (.exits 3)]) (start systeminfo)).map (fun s =>
          (exec (System.step systeminfo granting) Orderly afterExit s).isSome) = some true := by
    decide +kernel
  obtain ⟨s, hexec, hsome⟩ := Option.map_eq_some_iff.mp hrun
  obtain ⟨s', hs'⟩ := Option.isSome_iff_exists.mp hsome
  exact ⟨s, s', reaches_of_exec hexec, hs',
    completes systeminfo_plain (reaches_of_exec hexec) hs'⟩

end System

end Assignment.Winexe
