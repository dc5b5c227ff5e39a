import Assignment.ProtoBuff.Prompt

/-!
# The dialogue line by line (add_person.cc)

What `PromptForAddress` makes of its input, said in lines. `PhoneLoop` is
the `while (true)` itself, which has no bound on its turns, and `readPhones`
is what it should make of the lines left: `phoneLoop_reads`. What follows
the number on the id line is for `cin.ignore(256, '\n')` to drop, so the
answers stay on their lines while it has less than 256 bytes
(`firstLine_iff`).
-/

namespace Assignment.ProtoBuff

open Istream

variable {T : Type}

/-! ## The phone loop -/

/-- The `while (true)` over phone numbers, from the state before it to the
state after its `break`. -/
inductive PhoneLoop : Istream → Person T → Person T → Istream → Prop
  | finish {cin : Istream} {person : Person T} (hblank : (getline cin []).1 = []) :
      PhoneLoop cin person person (getline cin []).2
  | turn {cin cin' : Istream} {person person' : Person T} (hnumber : (getline cin []).1 ≠ [])
      (hrest : PhoneLoop (getline (getline cin []).2 []).2
        (addPhone person (getline cin []).1 (typeOf (getline (getline cin []).2 []).1))
        person' cin') :
      PhoneLoop cin person person' cin'

/-- With more fuel than bytes, the function is a run of the loop. -/
theorem phoneLoop_runs : ∀ (fuel : Nat) (cin : Istream) (person : Person T),
    cin.rest.length < fuel →
    PhoneLoop cin person (phoneLoop fuel cin person).1 (phoneLoop fuel cin person).2 := by
  intro fuel
  induction fuel with
  | zero => intro cin person h; omega
  | succ fuel ih =>
      intro cin person h
      have hnumber := getline_rest_le cin
      have htype := getline_rest_le (getline cin []).2
      rw [phoneLoop]
      by_cases hnil : (getline cin []).1 = []
      · simp only [if_pos hnil]
        exact .finish hnil
      · have hpos := List.length_pos_iff.mpr hnil
        simp only [if_neg hnil]
        exact .turn hnil (ih _ _ (by omega))

/-- The loop ends in one way only. -/
theorem PhoneLoop.unique {cin cin₁ cin₂ : Istream} {person person₁ person₂ : Person T}
    (h₁ : PhoneLoop cin person person₁ cin₁) (h₂ : PhoneLoop cin person person₂ cin₂) :
    person₂ = person₁ ∧ cin₂ = cin₁ := by
  induction h₁ with
  | finish hblank =>
      cases h₂ with
      | finish _ => exact ⟨rfl, rfl⟩
      | turn hnumber _ => exact absurd hblank hnumber
  | turn hnumber _ ih =>
      cases h₂ with
      | finish hblank => exact absurd hblank hnumber
      | turn _ hrest => exact ih hrest

/-- The type that a line names. -/
def namedType (line : Bytes) : PhoneType :=
  if line = ascii "home" then .home
  else if line = ascii "work" then .work
  else .mobile

/-- The phones that a list of lines stands for, and the lines behind them:
pairs of a number and a type up to a blank number. A type that is missing
counts as blank. -/
def readPhones : List Bytes → List PhoneNumber × List Bytes
  | [] => ([], [])
  | [number] =>
      if number = [] then ([], [])
      else ([{ number := number, type := (namedType []).number }], [])
  | number :: type :: rest =>
      if number = [] then ([], type :: rest)
      else
        let phones := readPhones rest
        ({ number := number, type := (namedType type).number } :: phones.1, phones.2)

theorem typeOf_eq (line : Bytes) : typeOf line = (namedType line).number := by
  have hhome : ascii "mobile" ≠ ascii "home" := by decide +kernel
  have hwork : ascii "mobile" ≠ ascii "work" := by decide +kernel
  unfold typeOf namedType
  by_cases hmobile : line = ascii "mobile"
  · rw [if_pos hmobile, if_neg (hmobile ▸ hhome), if_neg (hmobile ▸ hwork)]
  · rw [if_neg hmobile]
    split
    · rfl
    · split <;> rfl

/-- A blank line, or none, ends the phones. -/
theorem readPhones_blank {lines : List Bytes} (h : lines.headD [] = []) :
    readPhones lines = ([], lines.tail) := by
  match lines, h with
  | [], _ => rfl
  | [number], h =>
      rw [List.headD_cons] at h
      rw [readPhones, if_pos h, List.tail_cons]
  | number :: type :: rest, h =>
      rw [List.headD_cons] at h
      rw [readPhones, if_pos h, List.tail_cons]

/-- Any other line is a number, and the one behind it its type. -/
theorem readPhones_number {lines : List Bytes} (h : lines.headD [] ≠ []) :
    readPhones lines
      = ({ number := lines.headD [], type := (namedType (lines.tail.headD [])).number }
          :: (readPhones lines.tail.tail).1, (readPhones lines.tail.tail).2) := by
  match lines, h with
  | [], h => exact absurd rfl h
  | [number], h =>
      rw [List.headD_cons] at h
      rw [readPhones, if_neg h]
      rfl
  | number :: type :: rest, h =>
      rw [List.headD_cons] at h
      rw [readPhones, if_neg h]
      rfl

/-- What the loop makes of an intact stream, by the lines left on it. -/
theorem phoneLoop_lines : ∀ (fuel : Nat) (cin : Istream) (person : Person T), cin.Intact →
    cin.rest.length < fuel →
    (phoneLoop fuel cin person).1
        = { person with phones := person.phones ++ (readPhones (lines cin.rest)).1 }
      ∧ lines (phoneLoop fuel cin person).2.rest = (readPhones (lines cin.rest)).2
      ∧ (phoneLoop fuel cin person).2.rest <:+ cin.rest := by
  intro fuel
  induction fuel with
  | zero => intro cin person _ h; omega
  | succ fuel ih =>
      intro cin person hcin hfuel
      obtain ⟨hnumber, htail, hintact, hsuffix⟩ := getline_lines hcin
      obtain ⟨htype, htail', hintact', hsuffix'⟩ := getline_lines hintact
      have hshort := getline_rest_le cin
      have hshort' := getline_rest_le (getline cin []).2
      rw [phoneLoop]
      by_cases hnil : (getline cin []).1 = []
      · rw [readPhones_blank (hnumber ▸ hnil)]
        simp only [if_pos hnil, List.append_nil, true_and]
        exact ⟨htail, hsuffix⟩
      · have hpos := List.length_pos_iff.mpr hnil
        obtain ⟨hphones, hleft, hend⟩ := ih (getline (getline cin []).2 []).2
          (addPhone person (getline cin []).1 (typeOf (getline (getline cin []).2 []).1))
          hintact' (by omega)
        rw [htail', htail] at hphones hleft
        rw [readPhones_number (hnumber ▸ hnil)]
        simp only [if_neg hnil]
        refine ⟨?_, hleft, (hend.trans hsuffix').trans hsuffix⟩
        rw [hphones, addPhone, typeOf_eq, htype, htail, hnumber, List.append_assoc,
          List.singleton_append]

/-- **The phone loop**: on a good stream it ends, in one way only. It appends
the phones that the lines left stand for and changes nothing else of the
person, and it leaves the lines behind them. -/
theorem phoneLoop_reads {cin : Istream} (hgood : cin.good = true) (person : Person T) :
    ∃ cin', PhoneLoop cin person
        { person with phones := person.phones ++ (readPhones (lines cin.rest)).1 } cin'
      ∧ lines cin'.rest = (readPhones (lines cin.rest)).2
      ∧ cin'.rest <:+ cin.rest
      ∧ ∀ person₂ cin₂, PhoneLoop cin person person₂ cin₂ →
          person₂ = { person with phones := person.phones ++ (readPhones (lines cin.rest)).1 }
          ∧ cin₂ = cin' := by
  have hruns := phoneLoop_runs (cin.rest.length + 1) cin person (Nat.lt_succ_self _)
  obtain ⟨hphones, hleft, hsuffix⟩ :=
    phoneLoop_lines (cin.rest.length + 1) cin person (intact_of_good hgood) (Nat.lt_succ_self _)
  rw [hphones] at hruns
  exact ⟨_, hruns, hleft, hsuffix, fun _ _ h => hruns.unique h⟩

/-- A number without its type, at the end of the input. -/
theorem phoneLoop_reads_untyped : ∃ cin' : Istream,
    PhoneLoop (T := Unit) ⟨ascii "12", false, false⟩ {}
      { phones := [{ number := ascii "12" }] } cin' ∧ lines cin'.rest = [] := by
  have hread : readPhones (lines (ascii "12")) = ([{ number := ascii "12" }], []) := by
    decide +kernel
  obtain ⟨cin', hrun, hleft, -⟩ := @phoneLoop_reads Unit ⟨ascii "12", false, false⟩ rfl {}
  rw [hread] at hrun hleft
  exact ⟨cin', hrun, hleft⟩

/-! ## The id line -/

/-- A first line of input: a decimal `int32`, and what may follow it on its
line. -/
structure FirstLine where
  sign : Sign
  digits : Bytes
  value : Int32
  comment : Bytes
  digits_ne_nil : digits ≠ []
  isDigit : ∀ c ∈ digits, isDigit c = true
  value_eq : value.toInt = if sign.negative then -(decimal digits : Int) else decimal digits
  stops : ∀ c ∈ comment.head?, Istream.isDigit c = false
  newline_not_mem : newline ∉ comment

namespace FirstLine

/-- The input: this line, and its newline with further input if there is
any. -/
def stdin (l : FirstLine) (further : Option Bytes) : Bytes :=
  l.sign.text ++ (l.digits ++ (l.comment ++ further.elim [] (newline :: ·)))

/-- What `cin.ignore(256, '\n')` leaves of the line, if it does not get to
its end. -/
def leftover (l : FirstLine) : Option Bytes :=
  if l.comment.length < 256 then none else some (l.comment.drop 256)

/-- The input from which the name is read. -/
def answers (l : FirstLine) (further : Option Bytes) : Bytes :=
  match l.leftover with
  | none => further.getD []
  | some left => left ++ further.elim [] (newline :: ·)

/-- After the id and the `ignore`, the stream is intact and holds that. -/
theorem ignore_intact (l : FirstLine) (further : Option Bytes) (garbage : Int32) :
    ((readInt ⟨l.stdin further, false, false⟩ garbage).2.ignore 256).Intact
      ∧ ((readInt ⟨l.stdin further, false, false⟩ garbage).2.ignore 256).rest
        = l.answers further := by
  have hstop : ∀ c ∈ (l.comment ++ further.elim [] (newline :: ·)).head?,
      Istream.isDigit c = false := by
    intro c hc
    cases hcomment : l.comment with
    | nil =>
        rw [hcomment] at hc
        cases further with
        | none => cases hc
        | some more => cases hc; rfl
    | cons d ds =>
        rw [hcomment] at hc
        exact l.stops c (by rw [hcomment]; exact hc)
  rw [stdin, readInt_number l.sign l.digits_ne_nil l.isDigit hstop l.value_eq, answers, leftover]
  by_cases hnil : l.comment ++ further.elim [] (newline :: ·) = []
  · -- the number was the end of the input, and `ignore` fails
    obtain ⟨hcomment, hfurther⟩ := List.append_eq_nil_iff.mp hnil
    have hnone : further = none := by
      cases further with
      | none => rfl
      | some more => cases hfurther
    rw [hcomment, hnone]
    exact ⟨.inr rfl, rfl⟩
  · simp only [ignore, good, List.isEmpty_eq_false_iff.mpr hnil, Bool.not_false, Bool.and_self,
      if_true]
    by_cases hlen : l.comment.length < 256
    · simp only [if_pos hlen]
      cases further with
      | none =>
          simp only [Option.elim_none, List.append_nil, Option.getD_none,
            dropLine_end l.newline_not_mem hlen]
          exact ⟨.inr rfl, trivial⟩
      | some more =>
          simp only [Option.elim_some, Option.getD_some, dropLine_line l.newline_not_mem hlen]
          exact ⟨.inl rfl, trivial⟩
    · simp only [if_neg hlen, dropLine_long l.newline_not_mem (Nat.not_lt.mp hlen)]
      exact ⟨.inl rfl, trivial⟩

end FirstLine

/-- What the questions after the id are about. -/
def fields (person : Person T) : Bytes × Bytes × List PhoneNumber :=
  (person.name, person.email, person.phones)

/-- Name, email and phones, each from the line on which it is asked for. -/
def fieldsOf (answers : List Bytes) : Bytes × Bytes × List PhoneNumber :=
  (answers.headD [], answers.tail.headD [], (readPhones answers.tail.tail).1)

/-- The questions after the id are answered by the lines left then. -/
theorem fields_prompt (lib : Library T) (garbage : Int32) (now : Int) (cin : Istream)
    (hintact : ((readInt cin garbage).2.ignore 256).Intact) :
    fields (promptForAddress lib garbage now cin {}).1
      = fieldsOf (lines ((readInt cin garbage).2.ignore 256).rest) := by
  obtain ⟨hname, htail, hintact', -⟩ := getline_lines hintact
  obtain ⟨hemail, htail', hintact'', -⟩ := getline_lines hintact'
  have hphones := fun person : Person T =>
    (phoneLoop_lines _ _ person hintact'' (Nat.lt_succ_self _)).1
  have hdefault : ∀ email : Bytes, (if email ≠ [] then email else []) = email := by
    intro email
    by_cases hnil : email = []
    · rw [hnil]
      rfl
    · rw [if_pos hnil]
  simp only [promptForAddress, fields, hphones, List.nil_append, hdefault]
  rw [fieldsOf, hname, hemail, htail', htail]

/-- The person entered after this first line. -/
def enteredAfter (lib : Library T) (l : FirstLine) (garbage : Int32) (now : Int)
    (further : Option Bytes) : Person T :=
  (promptForAddress lib garbage now ⟨l.stdin further, false, false⟩ {}).1

theorem fields_enteredAfter (lib : Library T) (l : FirstLine) (garbage : Int32) (now : Int)
    (further : Option Bytes) :
    fields (enteredAfter lib l garbage now further) = fieldsOf (lines (l.answers further)) := by
  obtain ⟨hintact, hrest⟩ := l.ignore_intact further garbage
  rw [enteredAfter, fields_prompt lib garbage now _ hintact, hrest]

/-- Whatever follows these two first lines, name, email and phones come out
the same. -/
def SameFields (lib : Library T) (l l' : FirstLine) : Prop :=
  ∀ further garbage garbage' now now', fields (enteredAfter lib l garbage now further)
    = fields (enteredAfter lib l' garbage' now' further)

/-- Whatever follows this first line, name, email and phones are what stands
on the second line, the third and those after it. -/
def KeepsLines (lib : Library T) (l : FirstLine) : Prop :=
  ∀ further garbage now, fields (enteredAfter lib l garbage now further)
    = fieldsOf (lines (further.getD []))

/-- What is left of the first line is taken for the name. -/
theorem name_leftover (lib : Library T) {l : FirstLine} {left : Bytes}
    (hleft : l.leftover = some left) (garbage : Int32) (now : Int) (more : Bytes) :
    newline ∉ left ∧ (fields (enteredAfter lib l garbage now (some more))).1 = left := by
  have hline : newline ∉ left := by
    rw [FirstLine.leftover] at hleft
    split at hleft
    · cases hleft
    · cases hleft
      exact fun hmem => l.newline_not_mem (List.mem_of_mem_drop hmem)
  refine ⟨hline, ?_⟩
  rw [fields_enteredAfter, FirstLine.answers, hleft]
  change (fieldsOf (lines (left ++ newline :: more))).1 = left
  rw [lines_line hline]
  rfl

/-- The name on the second line is not taken when something is left of the
first one. -/
theorem name_not_kept (lib : Library T) {l : FirstLine} {left : Bytes}
    (hleft : l.leftover = some left) (garbage : Int32) (now : Int) :
    (fields (enteredAfter lib l garbage now (some (left ++ [0x78])))).1
      ≠ (fieldsOf (lines (left ++ [0x78]))).1 := by
  obtain ⟨hline, hname⟩ := name_leftover lib hleft garbage now (left ++ [0x78])
  have hlonger : newline ∉ left ++ [0x78] := by simpa [hline] using (by decide : newline ≠ 0x78)
  rw [hname, lines_last hlonger (by simp)]
  exact fun h => absurd (congrArg List.length h) (by simp [fieldsOf])

/-- The answers stay on their lines while `ignore` gets to the end of the
first one. -/
theorem keepsLines_iff (lib : Library T) (l : FirstLine) :
    KeepsLines lib l ↔ l.leftover = none := by
  constructor
  · intro h
    cases hleft : l.leftover with
    | none => rfl
    | some left =>
        have hkeep := h (some (left ++ [0x78])) 0 0
        exact absurd (congrArg Prod.fst hkeep) (name_not_kept lib hleft 0 0)
  · intro h further garbage now
    rw [fields_enteredAfter, FirstLine.answers, h]

/-- Two first lines are followed by the same answers if they leave the same. -/
theorem sameFields_iff (lib : Library T) (l l' : FirstLine) :
    SameFields lib l l' ↔ l.leftover = l'.leftover := by
  constructor
  · intro h
    cases hleft : l.leftover with
    | none =>
        cases hleft' : l'.leftover with
        | none => rfl
        | some left =>
            have hsame := h (some (left ++ [0x78])) 0 0 0 0
            rw [(keepsLines_iff lib l).mpr hleft] at hsame
            exact absurd (congrArg Prod.fst hsame).symm (name_not_kept lib hleft' 0 0)
    | some left =>
        cases hleft' : l'.leftover with
        | none =>
            have hsame := h (some (left ++ [0x78])) 0 0 0 0
            rw [(keepsLines_iff lib l').mpr hleft'] at hsame
            exact absurd (congrArg Prod.fst hsame) (name_not_kept lib hleft 0 0)
        | some left' =>
            have hname := congrArg Prod.fst (h (some []) 0 0 0 0)
            rw [(name_leftover lib hleft 0 0 []).2, (name_leftover lib hleft' 0 0 []).2] at hname
            rw [hname]
  · intro h further garbage garbage' now now'
    rw [fields_enteredAfter, fields_enteredAfter, FirstLine.answers, FirstLine.answers, h]

/-- **The fields do not depend on the id line while it is short**: two first
lines with a number give the same name, email and phones, and each of these
from its own line, if and only if less than 256 bytes follow the number on
both. The fields alone agree when `ignore` leaves the same of both. -/
theorem firstLine_iff (lib : Library T) (l l' : FirstLine) :
    (SameFields lib l l' ∧ KeepsLines lib l ∧ KeepsLines lib l'
        ↔ l.comment.length < 256 ∧ l'.comment.length < 256)
      ∧ (SameFields lib l l' ↔ l.leftover = l'.leftover) := by
  have hshort : ∀ l : FirstLine, l.leftover = none ↔ l.comment.length < 256 := by
    intro l
    by_cases hlen : l.comment.length < 256
    · simp [FirstLine.leftover, hlen]
    · simp [FirstLine.leftover, hlen]
  refine ⟨?_, sameFields_iff lib l l'⟩
  rw [keepsLines_iff, keepsLines_iff, sameFields_iff, ← hshort l, ← hshort l']
  constructor
  · rintro ⟨-, hl, hl'⟩
    exact ⟨hl, hl'⟩
  · rintro ⟨hl, hl'⟩
    exact ⟨hl.trans hl'.symm, hl, hl'⟩

/-- `5` with this many blanks behind it. -/
def blanksAfter (n : Nat) : FirstLine where
  sign := .none
  digits := ascii "5"
  value := 5
  comment := List.replicate n 0x20
  digits_ne_nil := by decide +kernel
  isDigit := by decide +kernel
  value_eq := by decide +kernel
  stops := by
    intro c hc
    rw [List.eq_of_mem_replicate (List.mem_of_mem_head? hc)]
    decide
  newline_not_mem := fun hmem => absurd (List.eq_of_mem_replicate hmem) (by decide)

/-- Behind 256 blanks the name is empty, and the name typed becomes the
email. -/
theorem blanks_shift : ¬ ∀ l l' : FirstLine, SameFields bookReference l l' := by
  intro h
  have hsame := h (blanksAfter 0) (blanksAfter 256) (some (ascii "Bob")) 0 0 0 0
  rw [fields_enteredAfter, fields_enteredAfter] at hsame
  exact absurd hsame (by decide +kernel)

end Assignment.ProtoBuff
