import Assignment.GetOsVersion.HostList

/-!
# The report files (OsVersion.sh, ReadMe.txt)

The file of a host is opened, and truncated, before it is known what the
command will write to it. `Processed` is a turn of the script with the files
before it; what a host with a plain address leaves is a whole report or the
old file exactly when nothing of its report is missing, or the piece that is
there is what the file held anyway (`reports_iff`).
-/

namespace Assignment.GetOsVersion

open Shell

/-- The files of the current directory. -/
abbrev Files := Word → Option (List UInt8)

/-- The output of a command goes to its file: behind what is there for
`>>`, in its place for `>`. -/
def Write.apply (w : Write) (files : Files) : Files :=
  Function.update files w.target
    (some (if w.append then (files w.target).getD [] ++ w.content else w.content))

/-- The files after a turn. -/
def Turn.apply (t : Turn) (files : Files) : Files :=
  t.writes.foldl (fun files w => w.apply files) files

/-- A turn of the script, with what happened in it and the files it found. -/
structure Processed where
  outcome : Outcome
  turn : Turn
  before : Files

/-- The turns of the script, from these files on. -/
def processed (outcomes : Nat → Outcome) (files : Files) : List Turn → List Processed
  | [] => []
  | turn :: turns =>
      ⟨outcomes 0, turn, files⟩
        :: processed (fun n => outcomes (n + 1)) (turn.apply files) turns

namespace Processed

/-- The files after the turn. -/
def after (p : Processed) : Files := p.turn.apply p.before

/-- The file of the host. -/
def file (p : Processed) : Word := reportFile (p.turn.name.getD 0 [])

end Processed

/-- Both lines of `uname`, or both lines of `systeminfo`. -/
def Complete (o : Outcome) (content : Option (List UInt8)) : Prop :=
  (o.probe = 0 ∧ content = some o.sshOutput)
    ∨ (o.probe ≠ 0 ∧ ∃ name version, o.osName = some name ∧ o.osVersion = some version
      ∧ content = some (name.printed ++ version.printed))

/-- The host's file is a report of this turn or as it was, and no other file
has changed. -/
structure AllOrNothing (p : Processed) : Prop where
  report : Complete p.outcome (p.after p.file) ∨ p.after p.file = p.before p.file
  others : ∀ other, other ≠ p.file → p.after other = p.before other

/-- The host is not alive; or all of the report arrives; or the file held
just the piece of it that does. -/
def Harmless (p : Processed) : Prop :=
  p.outcome.count = 0
    ∨ (p.outcome.probe = 0 ∧ (p.outcome.sshOutput.length ≤ p.outcome.arrived
      ∨ p.before p.file = some (p.outcome.sshOutput.take p.outcome.arrived)))
    ∨ (p.outcome.probe ≠ 0
      ∧ ((p.outcome.osName.isSome = true ∧ p.outcome.osVersion.isSome = true)
        ∨ p.before p.file = some (Outcome.grepOutput p.outcome.osName
          ++ Outcome.grepOutput p.outcome.osVersion)))

/-! ## Hosts with plain addresses -/

/-- A host whose address is no pattern, as IP addresses are none. -/
structure PlainHost extends Host where
  ip_plain : ∀ c ∈ ip.1, isSpecial c = false

/-- Such an address comes first of the words of its line. -/
theorem words_marked (h : PlainHost) (more : List Marked) :
    ∃ others, words ((marked h.line ++ more).map Prod.fst) = h.ip.1 :: others := by
  have hblank : (0x20 : UInt8) ≠ backslash := by decide
  have hsep : isBlank 0x20 = true := by decide
  have hip : unescape h.ip.1 = h.ip.1 := by
    refine (unescape_plain fun hmem => ?_).1
    exact absurd (h.ip_plain backslash hmem) (by decide)
  have hword : words h.ip.1 = [h.ip.1] := by
    rw [words_word h.ip.not_blank]
    simp [h.ip.2.1]
  rw [unescape] at hip
  rw [Host.line, (marked_append _ hblank _).1, List.append_assoc, List.map_append, hip,
    List.cons_append, List.map_cons, words_append hsep, hword]
  exact ⟨_, rfl⟩

/-- Every line that is read starts with the address of a host. -/
theorem readLines_ip {hosts : List PlainHost} {final : Bool} {line : List UInt8}
    (hline : line ∈ readLines (hostsFile (hosts.map PlainHost.toHost) final)) :
    ∃ h ∈ hosts, ∃ others, words line = h.ip.1 :: others := by
  induction hosts with
  | nil => cases hline
  | cons h hosts ih =>
      have hwords : ∀ r : Read, ∃ others, words (r.after (marked h.line)).line
          = h.ip.1 :: others := by
        intro r
        rw [Read.line, words_trim]
        exact words_marked h r.marked
      rw [List.map_cons, hostsFile] at hline
      split at hline
      · rw [List.append_nil, readLines_last] at hline
        cases hline
      · rw [readLines_host] at hline
        split at hline
        · -- the lines behind a continued one are lines of the rest
          split at hline
          · rename_i hcomplete
            rcases List.mem_cons.mp hline with rfl | hrest
            · exact ⟨h, by simp, hwords _⟩
            · obtain ⟨h', hh', hothers⟩ := ih (by
                rw [readLines_eq, if_pos hcomplete]
                exact List.mem_cons_of_mem _ hrest)
              exact ⟨h', by simp [hh'], hothers⟩
          · cases hline
        · rcases List.mem_cons.mp hline with rfl | hrest
          · refine ⟨h, by simp, ?_⟩
            have hfirst := hwords ⟨[], true, []⟩
            rwa [Read.after, List.append_nil] at hfirst
          · obtain ⟨h', hh', hothers⟩ := ih hrest
            exact ⟨h', by simp [hh'], hothers⟩

/-- Where the turns of the script come from. -/
theorem mem_processed {outcomes : Nat → Outcome} {files : Files} {lines : List (List UInt8)}
    {p : Processed} (hp : p ∈ processed outcomes files (turns outcomes lines)) :
    ∃ line ∈ lines, p.turn = body p.outcome line := by
  induction lines generalizing outcomes files with
  | nil => cases hp
  | cons line lines ih =>
      rw [turns, processed] at hp
      rcases List.mem_cons.mp hp with rfl | hp
      · exact ⟨line, by simp, rfl⟩
      · obtain ⟨line', hline', hturn⟩ := ih hp
        exact ⟨line', by simp [hline'], hturn⟩

/-! ## What a turn does to the files -/

/-- What the commands of a turn write for a host that is alive. -/
def Outcome.report (o : Outcome) : List UInt8 :=
  if o.probe = 0 then o.sshOutput.take o.arrived
  else Outcome.grepOutput o.osName ++ Outcome.grepOutput o.osVersion

/-- Both lines are there when there are two to put together. -/
theorem complete_report_iff {o : Outcome} (hprobe : o.probe ≠ 0) :
    Complete o (some o.report) ↔ o.osName.isSome = true ∧ o.osVersion.isSome = true := by
  rw [Outcome.report, if_neg hprobe]
  constructor
  · rintro (⟨hzero, -⟩ | ⟨-, name, version, hname, hversion, -⟩)
    · exact absurd hzero hprobe
    · simp [hname, hversion]
  · rintro ⟨hname, hversion⟩
    obtain ⟨name, hname⟩ := Option.isSome_iff_exists.mp hname
    obtain ⟨version, hversion⟩ := Option.isSome_iff_exists.mp hversion
    exact .inr ⟨hprobe, name, version, hname, hversion, by rw [hname, hversion]; rfl⟩

/-- The redirections of a plain address open its file. -/
theorem redirect_reportFile (dir : Directory) (h : PlainHost) :
    dir.redirect (reportFile h.ip.1) = some (reportFile h.ip.1) := by
  have hsuffix : ∀ c ∈ literal ".txt", isBlank c = false ∧ isSpecial c = false := by
    decide +kernel
  refine dir.redirect_plain ?_ ?_ ?_
  · intro hnil
    exact h.ip.2.1 (List.append_eq_nil_iff.mp hnil).1
  · exact List.forall_mem_append.mpr ⟨h.ip.not_blank, fun c hc => (hsuffix c hc).1⟩
  · exact List.forall_mem_append.mpr ⟨h.ip_plain, fun c hc => (hsuffix c hc).2⟩

/-- The turn of a line with a plain address is about its file. -/
theorem file_body (o : Outcome) (h : PlainHost) {line : List UInt8} {others : List Word}
    (hwords : words line = h.ip.1 :: others) :
    (body o line).name.getD 0 [] = h.ip.1 := by
  rw [name_body, Directory.unquoted, hwords, List.flatMap_cons, o.atArray.expand_plain _ h.ip_plain]
  rfl

/-- What such a turn leaves in the files. -/
theorem apply_body (o : Outcome) (h : PlainHost) {line : List UInt8} {others : List Word}
    (hwords : words line = h.ip.1 :: others) (files : Files) :
    (body o line).apply files
      = if o.count = 0 then files
        else Function.update files (reportFile h.ip.1) (some o.report) := by
  have hfile := file_body o h hwords
  rw [name_body] at hfile
  unfold body Outcome.report
  simp only [hfile, redirect_reportFile, redirected]
  by_cases hcount : o.count = 0
  · simp [hcount, Turn.apply]
  · by_cases hprobe : o.probe = 0
    · simp [hcount, hprobe, Turn.apply, Write.apply]
    · simp [hcount, hprobe, Turn.apply, Write.apply]

/-- Every turn is about the file of a listed host, and does this to it. -/
theorem processed_cases {hosts : List PlainHost} {final : Bool} {outcomes : Nat → Outcome}
    {files : Files} {p : Processed} (hp : p ∈ processed outcomes files
      (osVersion outcomes (hostsFile (hosts.map PlainHost.toHost) final))) :
    (∃ h ∈ hosts, p.file = reportFile h.ip.1)
      ∧ p.after = if p.outcome.count = 0 then p.before
        else Function.update p.before p.file (some p.outcome.report) := by
  obtain ⟨line, hline, hturn⟩ := mem_processed hp
  obtain ⟨h, hh, others, hwords⟩ := readLines_ip hline
  have hfile : p.file = reportFile h.ip.1 := by
    rw [Processed.file, hturn, file_body p.outcome h hwords]
  refine ⟨⟨h, hh, hfile⟩, ?_⟩
  rw [Processed.after, hturn, apply_body p.outcome h hwords, hfile]

/-- A turn that puts this content into the file, or leaves the files alone. -/
theorem allOrNothing_iff {p : Processed} (hafter : p.after = if p.outcome.count = 0 then p.before
      else Function.update p.before p.file (some p.outcome.report)) :
    AllOrNothing p ↔ Harmless p := by
  by_cases hcount : p.outcome.count = 0
  · rw [if_pos hcount] at hafter
    constructor
    · intro _
      exact .inl hcount
    · intro _
      exact ⟨.inr (by rw [hafter]), fun other _ => by rw [hafter]⟩
  · rw [if_neg hcount] at hafter
    have hothers : ∀ other, other ≠ p.file → p.after other = p.before other := by
      intro other hne
      rw [hafter, Function.update_of_ne hne]
    have hreport : AllOrNothing p
        ↔ Complete p.outcome (p.after p.file) ∨ p.after p.file = p.before p.file :=
      ⟨fun h => h.report, fun h => ⟨h, hothers⟩⟩
    rw [hreport, hafter, Function.update_self, Harmless]
    by_cases hprobe : p.outcome.probe = 0
    · simp [hcount, hprobe, Complete, Outcome.report, @eq_comm _ (p.before p.file)]
    · rw [complete_report_iff hprobe, Outcome.report, if_neg hprobe,
        @eq_comm _ (p.before p.file) (some (_ ++ _))]
      simp only [hcount, hprobe, false_and, false_or, ne_eq, not_false_eq_true, true_and]

/-- **Reports are all or nothing, exactly**: for hosts with plain addresses,
whatever the files held, every turn leaves a complete report or the old
file, and no other file changed, if and only if every turn is harmless. -/
theorem reports_iff (hosts : List PlainHost) (final : Bool) (outcomes : Nat → Outcome)
    (files : Files) :
    (∀ p ∈ processed outcomes files
        (osVersion outcomes (hostsFile (hosts.map PlainHost.toHost) final)), AllOrNothing p)
      ↔ ∀ p ∈ processed outcomes files
        (osVersion outcomes (hostsFile (hosts.map PlainHost.toHost) final)), Harmless p := by
  constructor
  · intro h p hp
    exact (allOrNothing_iff (processed_cases hp).2).mp (h p hp)
  · intro h p hp
    exact (allOrNothing_iff (processed_cases hp).2).mpr (h p hp)

/-- The first line of `File.txt`. -/
def linux : PlainHost where
  ip := field "172.16.40.212" (by decide +kernel)
  user := field "root" (by decide +kernel)
  password := field "rackware" (by decide +kernel)
  ip_plain := by decide +kernel

/-- The probing `ssh` succeeds, and the reporting one writes nothing. -/
def lost : Outcome where
  atArray := .bare
  count := 1
  probe := 0
  atReport := .bare
  uname := (⟨literal "Linux", by decide⟩, ⟨literal "5.4.0", by decide⟩)
  arrived := 0
  atOsName := .bare
  osName := none
  atOsVersion := .bare
  osVersion := none

/-- The report of an earlier run is emptied. -/
theorem report_emptied : ¬ ∀ (hosts : List PlainHost) (final : Bool) (outcomes : Nat → Outcome)
    (files : Files), ∀ p ∈ processed outcomes files
      (osVersion outcomes (hostsFile (hosts.map PlainHost.toHost) final)), AllOrNothing p := by
  intro h
  let files : Files := fun _ => some (literal "Linux\n5.4.0\n")
  let p : Processed := ⟨lost, body lost linux.assigned, files⟩
  have hturns : osVersion (fun _ => lost) (hostsFile [linux.toHost] true)
      = [body lost linux.assigned] := by decide +kernel
  have hp : p ∈ processed (fun _ => lost) files
      (osVersion (fun _ => lost) (hostsFile ([linux].map PlainHost.toHost) true)) := by
    rw [List.map_singleton, hturns]
    exact List.mem_singleton.mpr rfl
  have hempty : p.after p.file = some [] := by decide +kernel
  rcases (h [linux] true (fun _ => lost) files p hp).report with hcomplete | hsame
  · rw [hempty] at hcomplete
    exact absurd hcomplete (by simp [Complete, p, lost]; decide +kernel)
  · rw [hempty] at hsame
    exact absurd hsame (by decide +kernel)

end Assignment.GetOsVersion
