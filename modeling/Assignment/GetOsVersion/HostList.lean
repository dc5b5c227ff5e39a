import Assignment.GetOsVersion.OsVersion

/-!
# The hosts file, line by line (OsVersion.sh, File.txt)

A line of the hosts file is read with `read`, which drops backslashes and
goes on behind one at the end of the line, then split into an array whose
words are expanded against the current directory, and the credentials are
split and expanded once more for `winexe`. `hostList_iff` says which hosts
files come through all of this.
-/

namespace Assignment.GetOsVersion

open Shell Istream

theorem not_blank_of_printable {c : UInt8} (h : isPrintable c = true) : isBlank c = false := by
  simp only [isPrintable, isBlank, newline, UInt8.lt_iff_toNat_lt, ← UInt8.toNat_inj,
    decide_eq_true_eq, decide_eq_false_iff_not, UInt8.reduceToNat] at h ⊢
  omega

theorem Field.not_blank (w : Field) : ∀ c ∈ w.1, isBlank c = false :=
  fun c hc => not_blank_of_printable (w.2.2 c hc)

theorem Field.newline_not_mem (w : Field) : newline ∉ w.1 := by
  intro hmem
  have hblank := w.not_blank newline hmem
  exact absurd hblank (by decide)

namespace Host

theorem newline_not_mem (h : Host) : newline ∉ h.line := by
  have hblank : newline ≠ 0x20 := by decide
  simp only [line, List.mem_append, List.mem_cons, not_or]
  exact ⟨h.ip.newline_not_mem, hblank, h.user.newline_not_mem, hblank, h.password.newline_not_mem⟩

/-- A line ends as its password does. -/
theorem dangling_line (h : Host) : dangling h.line = dangling h.password.1 := by
  have hblank : (0x20 : UInt8) ≠ backslash := by decide
  rw [line, (marked_append _ hblank _).2, (marked_append _ hblank _).2]

/-- The fields without their escaping backslashes; a field of one backslash
leaves nothing. -/
def stripped (h : Host) : List Word := (h.fields.map unescape).filter (· ≠ [])

/-- The words of the line that is read. -/
theorem words_line (h : Host) : words (unescape h.line) = h.stripped := by
  have hblank : (0x20 : UInt8) ≠ backslash := by decide
  have hsep : isBlank 0x20 = true := by decide
  have hword : ∀ w : Field, words (unescape w.1) = [unescape w.1].filter (· ≠ []) :=
    fun w => words_word fun c hc => w.not_blank c (unescape_subset w.1 hc)
  rw [line, unescape_append _ hblank, unescape_append _ hblank, words_append hsep,
    words_append hsep, hword, hword, hword, ← List.filter_append, ← List.filter_append]
  rfl

/-- What `read` assigns for a line that it does not continue. -/
def assigned (h : Host) : List UInt8 := Read.line ⟨marked h.line, true, []⟩

theorem words_assigned (h : Host) : words h.assigned = h.stripped := by
  rw [assigned, Read.line, words_trim]
  exact h.words_line

end Host

/-! ## The lines that the loop gets -/

/-- The first line is read on its own, or swallows the one behind it. -/
theorem readLines_host (h : Host) (rest : List UInt8) :
    readLines (h.line ++ newline :: rest)
      = if dangling h.password.1 then
          if (readMarked rest).complete then
            ((readMarked rest).after (marked h.line)).line :: readLines (readMarked rest).rest
          else []
        else h.assigned :: readLines rest := by
  rw [readLines_eq, readMarked_line h.newline_not_mem, h.dangling_line]
  split
  · rfl
  · rfl

/-- A continued line takes one turn together with the next. -/
theorem readLines_host_length (h : Host) (rest : List UInt8) :
    (readLines (h.line ++ newline :: rest)).length
      = (readLines rest).length + if dangling h.password.1 then 0 else 1 := by
  rw [readLines_host, readLines_eq rest]
  split
  · split
    · rw [List.length_cons, List.length_cons, Nat.add_zero]
    · rfl
  · rw [List.length_cons, ← readLines_eq]

/-- No line without a newline gets a turn. -/
theorem readLines_last (h : Host) : readLines h.line = [] := by
  rw [readLines_eq, readMarked_last h.newline_not_mem, if_neg (by decide)]

/-- There is a line for every host only if each is read on its own. -/
theorem readLines_length_le (hosts : List Host) (final : Bool) :
    (readLines (hostsFile hosts final)).length ≤ hosts.length
      ∧ ((readLines (hostsFile hosts final)).length = hosts.length →
        (hosts = [] ∨ final = true) ∧ ∀ h ∈ hosts, dangling h.password.1 = false) := by
  induction hosts with
  | nil => exact ⟨Nat.le_refl _, fun _ => ⟨.inl rfl, by simp⟩⟩
  | cons h hosts ih =>
      obtain ⟨hle, heq⟩ := ih
      rw [hostsFile]
      by_cases hlast : (hosts.isEmpty && !final) = true
      · rw [if_pos hlast, List.append_nil, readLines_last]
        exact ⟨Nat.zero_le _, fun hlen => by simp at hlen⟩
      · rw [if_neg hlast, readLines_host_length, List.length_cons]
        cases hdangling : dangling h.password.1 with
        | true =>
            rw [if_pos rfl]
            exact ⟨by omega, fun hlen => by omega⟩
        | false =>
            rw [if_neg (by decide)]
            refine ⟨by omega, fun hlen => ?_⟩
            obtain ⟨hfinal, hall⟩ := heq (by omega)
            refine ⟨.inr ?_, by simpa [hdangling] using hall⟩
            rcases hfinal with rfl | hfinal
            · simpa using hlast
            · exact hfinal

/-- Then these are the lines. -/
theorem readLines_hostsFile {hosts : List Host} {final : Bool} (hfinal : hosts = [] ∨ final = true)
    (hpassword : ∀ h ∈ hosts, dangling h.password.1 = false) :
    readLines (hostsFile hosts final) = hosts.map Host.assigned := by
  induction hosts with
  | nil => rfl
  | cons h hosts ih =>
      obtain rfl : final = true := hfinal.resolve_left (List.cons_ne_nil _ _)
      rw [hostsFile, Bool.not_true, Bool.and_false, if_neg (by decide), readLines_host,
        hpassword h (by simp), if_neg (by decide),
        ih (.inr rfl) (fun h' hh' => hpassword h' (by simp [hh'])), List.map_cons]

/-! ## What becomes of a host -/

/-- The turn is about this host, and `winexe` gets its credentials. -/
structure Taken (h : Host) (t : Turn) : Prop where
  ip : t.name[0]? = some h.ip.1
  user : t.name[1]? = some h.user.1
  password : t.name[2]? = some h.password.1
  credentials : ∀ call ∈ t.calls, call.credentials = [credentials h.user.1 h.password.1]

/-- The host comes through reading and expansion: its password does not end
in an unescaped backslash; of the words that its fields, without their
escaping backslashes, expand to, the first three are the fields; and where
`winexe` is called, the credentials expand to themselves. -/
structure Intact (o : Outcome) (h : Host) : Prop where
  password : dangling h.password.1 = false
  fields : (h.stripped.flatMap o.atArray.expand).take 3 = h.fields
  credentials : o.count ≠ 0 → o.probe ≠ 0 →
    o.atOsName.expand (credentials h.user.1 h.password.1) = [credentials h.user.1 h.password.1]
    ∧ o.atOsVersion.expand (credentials h.user.1 h.password.1)
      = [credentials h.user.1 h.password.1]

theorem take_three {α : Type} {l : List α} {a b c : α} :
    l.take 3 = [a, b, c] ↔ l[0]? = some a ∧ l[1]? = some b ∧ l[2]? = some c := by
  match l with
  | [] => simp
  | [x] => simp
  | [x, y] => simp
  | x :: y :: z :: rest => simp

theorem credentials_word (h : Host) : credentials h.user.1 h.password.1 ≠ []
    ∧ ∀ c ∈ credentials h.user.1 h.password.1, isBlank c = false := by
  refine ⟨fun hnil => h.user.2.1 ?_, ?_⟩
  · rw [credentials, List.append_assoc, List.append_eq_nil_iff] at hnil
    exact hnil.1
  · intro c hc
    rw [credentials, List.mem_append, List.mem_append] at hc
    rcases hc with (hc | hc) | hc
    · exact h.user.not_blank c hc
    · have hpercent : ∀ c ∈ literal "%", isBlank c = false := by decide +kernel
      exact hpercent c hc
    · exact h.password.not_blank c hc

/-- The array that a turn makes of a line. -/
theorem name_body (o : Outcome) (line : List UInt8) :
    (body o line).name = o.atArray.unquoted line := by
  unfold body
  split
  · rfl
  · split <;> rfl

theorem unquoted_assigned (dir : Directory) (h : Host) :
    dir.unquoted h.assigned = h.stripped.flatMap dir.expand := by
  rw [Directory.unquoted, h.words_assigned]

/-- The credentials in the calls of a turn whose array is right. -/
theorem calls_body {o : Outcome} {h : Host}
    (hfields : (h.stripped.flatMap o.atArray.expand).take 3 = h.fields) :
    (∀ call ∈ (body o h.assigned).calls, call.credentials = [credentials h.user.1 h.password.1])
      ↔ (o.count ≠ 0 → o.probe ≠ 0 →
        o.atOsName.expand (credentials h.user.1 h.password.1)
          = [credentials h.user.1 h.password.1]
        ∧ o.atOsVersion.expand (credentials h.user.1 h.password.1)
          = [credentials h.user.1 h.password.1]) := by
  obtain ⟨hne, hword⟩ := credentials_word h
  obtain ⟨-, huser, hpwd⟩ := take_three.mp hfields
  have hwinexe : ∀ dir : Directory, (winexe dir (o.atArray.unquoted h.assigned)).credentials
      = dir.expand (credentials h.user.1 h.password.1) := by
    intro dir
    simp only [winexe, unquoted_assigned, List.getD_eq_getElem?_getD, huser, hpwd,
      Option.getD_some, Directory.unquoted_word dir hne hword]
  unfold body
  by_cases hcount : o.count = 0
  · simp [hcount]
  · by_cases hprobe : o.probe = 0
    · simp [hcount, hprobe]
    · simp [hcount, hprobe, hwinexe]

/-- The turn of a line that was read on its own. -/
theorem taken_body (o : Outcome) (h : Host) (hpassword : dangling h.password.1 = false) :
    Taken h (body o h.assigned) ↔ Intact o h := by
  have hname := (name_body o h.assigned).trans (unquoted_assigned o.atArray h)
  constructor
  · rintro ⟨hip, huser, hpwd, hcall⟩
    rw [hname] at hip huser hpwd
    have hfields := take_three.mpr ⟨hip, huser, hpwd⟩
    exact ⟨hpassword, hfields, (calls_body hfields).mp hcall⟩
  · rintro ⟨-, hfields, hcredentials⟩
    obtain ⟨hip, huser, hpwd⟩ := take_three.mp hfields
    rw [← hname] at hip huser hpwd
    exact ⟨hip, huser, hpwd, (calls_body hfields).mpr hcredentials⟩

/-- Turn by turn. -/
theorem forall₂_turns (outcomes : Nat → Outcome) {hosts : List Host}
    (hpassword : ∀ h ∈ hosts, dangling h.password.1 = false) :
    List.Forall₂ Taken hosts (turns outcomes (hosts.map Host.assigned))
      ↔ ∀ i h, hosts[i]? = some h → Intact (outcomes i) h := by
  induction hosts generalizing outcomes with
  | nil => simp [turns]
  | cons h hosts ih =>
      rw [List.map_cons, turns, List.forall₂_cons,
        taken_body _ _ (hpassword h (by simp)), ih _ (fun h' hh' => hpassword h' (by simp [hh']))]
      constructor
      · rintro ⟨hfirst, hrest⟩ i h' hi
        cases i with
        | zero =>
            cases hi
            exact hfirst
        | succ i => exact hrest i h' hi
      · intro hall
        exact ⟨hall 0 h rfl, fun i h' hi => hall (i + 1) h' hi⟩

/-- **The host list is taken as it is written, exactly**: the loop body runs
once for every line, in order, with the three fields in `name` and the
credentials unchanged, if and only if the file is empty or ends in a newline
and every host is intact in its turn. -/
theorem hostList_iff (outcomes : Nat → Outcome) (hosts : List Host) (final : Bool) :
    List.Forall₂ Taken hosts (osVersion outcomes (hostsFile hosts final))
      ↔ (hosts = [] ∨ final = true)
        ∧ ∀ i h, hosts[i]? = some h → Intact (outcomes i) h := by
  constructor
  · intro h
    have hlen := h.length_eq
    rw [osVersion, turns_length] at hlen
    obtain ⟨hfinal, hpassword⟩ := (readLines_length_le hosts final).2 hlen.symm
    rw [osVersion, readLines_hostsFile hfinal hpassword, forall₂_turns _ hpassword] at h
    exact ⟨hfinal, h⟩
  · rintro ⟨hfinal, hintact⟩
    have hpassword : ∀ h ∈ hosts, dangling h.password.1 = false := by
      intro h hh
      obtain ⟨i, hi⟩ := List.getElem?_of_mem hh
      exact (hintact i h hi).password
    rw [osVersion, readLines_hostsFile hfinal hpassword, forall₂_turns _ hpassword]
    exact hintact

/-- Fields without backslashes are safe as long as they expand to themselves,
and so do the credentials where `winexe` is called. -/
theorem intact_of_fields (o : Outcome) {h : Host} (hbackslash : ∀ w ∈ h.fields, backslash ∉ w)
    (hfields : ∀ w ∈ h.fields, o.atArray.expand w = [w])
    (hcredentials : o.count ≠ 0 → o.probe ≠ 0 → ∀ dir ∈ [o.atOsName, o.atOsVersion],
      dir.expand (credentials h.user.1 h.password.1) = [credentials h.user.1 h.password.1]) :
    Intact o h := by
  have hplain : ∀ w ∈ h.fields, unescape w = w ∧ dangling w = false :=
    fun w hw => unescape_plain (hbackslash w hw)
  have hstripped : h.stripped = h.fields := by
    have hne : ∀ w ∈ h.fields, w ≠ [] := by
      simp [Host.fields, h.ip.2.1, h.user.2.1, h.password.2.1]
    rw [Host.stripped, List.map_congr_left fun w hw => (hplain w hw).1, List.map_id',
      List.filter_eq_self]
    exact fun w hw => decide_eq_true (hne w hw)
  refine ⟨(hplain h.password.1 (by simp [Host.fields])).2, ?_, fun hcount hprobe =>
    ⟨hcredentials hcount hprobe _ (by simp), hcredentials hcount hprobe _ (by simp)⟩⟩
  rw [hstripped]
  simp only [Host.fields, List.mem_cons, List.not_mem_nil, or_false, forall_eq_or_imp,
    forall_eq] at hfields
  simp [Host.fields, hfields]

/-- Fields without backslashes and pattern characters are safe. -/
theorem intact_of_plain (o : Outcome) {h : Host}
    (hplain : ∀ w ∈ h.fields, ∀ c ∈ w, isSpecial c = false) : Intact o h := by
  have hbackslash : ∀ w ∈ h.fields, backslash ∉ w := by
    intro w hw hmem
    exact absurd (hplain w hw backslash hmem) (by decide)
  have hcredentials : ∀ c ∈ credentials h.user.1 h.password.1, isSpecial c = false := by
    have hpercent : ∀ c ∈ literal "%", isSpecial c = false := by decide +kernel
    exact List.forall_mem_append.mpr ⟨List.forall_mem_append.mpr
      ⟨hplain h.user.1 (by simp [Host.fields]), hpercent⟩,
      hplain h.password.1 (by simp [Host.fields])⟩
  exact intact_of_fields o hbackslash (fun w hw => o.atArray.expand_plain _ (hplain w hw))
    fun _ _ dir _ => dir.expand_plain _ hcredentials

/-- **Hosts files without backslashes and patterns** are taken as they are
written, up to a last line without a newline. -/
theorem hostList_plain (outcomes : Nat → Outcome) {hosts : List Host}
    (hplain : ∀ h ∈ hosts, ∀ w ∈ h.fields, ∀ c ∈ w, isSpecial c = false) :
    List.Forall₂ Taken hosts (osVersion outcomes (hostsFile hosts true)) := by
  have hpassword : ∀ h ∈ hosts, dangling h.password.1 = false :=
    fun h hh => (intact_of_plain (outcomes 0) (hplain h hh)).password
  rw [osVersion, readLines_hostsFile (.inr rfl) hpassword, forall₂_turns _ hpassword]
  intro i h hi
  exact intact_of_plain _ (hplain h (List.mem_of_getElem? hi))

/-- A field of this text. -/
def field (s : String) (h : literal s ≠ [] ∧ ∀ c ∈ literal s, isPrintable c = true) : Field :=
  ⟨literal s, h⟩

/-- A user of a Windows domain. -/
def domainUser : Host where
  ip := field "10.0.0.1" (by decide +kernel)
  user := field "CORP\\bob" (by decide +kernel)
  password := field "secret" (by decide +kernel)

/-- The host answers the ping, the probing `ssh` fails, and no pattern
matches. -/
def windows : Outcome where
  atArray := .bare
  count := 1
  probe := 255
  atReport := .bare
  uname := (⟨[], by decide⟩, ⟨[], by decide⟩)
  arrived := 0
  atOsName := .bare
  osName := none
  atOsVersion := .bare
  osVersion := none

/-- The user comes out as `CORPbob`. -/
theorem backslash_dropped : ¬ ∀ (outcomes : Nat → Outcome) (hosts : List Host) (final : Bool),
    List.Forall₂ Taken hosts (osVersion outcomes (hostsFile hosts final)) := by
  intro h
  have hturns := h (fun _ => windows) [domainUser] true
  have husers : [domainUser].map (fun host => some host.user.1)
      = (osVersion (fun _ => windows) (hostsFile [domainUser] true)).map (·.name[1]?) := by
    rw [← List.forall₂_eq_eq_eq, List.forall₂_map_left_iff, List.forall₂_map_right_iff]
    exact hturns.imp fun _ _ htaken => htaken.user.symm
  exact absurd husers (by decide +kernel)

end Assignment.GetOsVersion
