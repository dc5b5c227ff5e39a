import Mathlib

/-!
# Input streams of the C++ standard library

An `istream` is the bytes it has not delivered yet and two of its state
bits. The operations are the ones on narrow characters in the classic
locale: extraction of an `int`, `ignore`, and `getline` with a newline as
the delimiter. An operation on a stream that is not good only sets
`failbit`.
-/

namespace Assignment

structure Istream where
  rest : List UInt8
  eofbit : Bool := false
  failbit : Bool := false
deriving DecidableEq, Repr

namespace Istream

def newline : UInt8 := 0x0A

def isSpace (c : UInt8) : Bool := c = 0x20 ∨ (0x09 ≤ c ∧ c ≤ 0x0D)

def isDigit (c : UInt8) : Bool := 0x30 ≤ c ∧ c ≤ 0x39

/-- Neither state bit is set. -/
def good (s : Istream) : Bool := !s.eofbit && !s.failbit

def fail (s : Istream) : Istream := { s with failbit := true }

/-- The number that decimal digits denote. -/
def decimal (digits : List UInt8) : Nat :=
  digits.foldl (fun n c => 10 * n + (c.toNat - 0x30)) 0

/-- The nearest `int`. -/
def clamp (v : Int) : Int32 :=
  if v < -2 ^ 31 then Int32.minValue
  else if 2 ^ 31 - 1 < v then Int32.maxValue
  else Int32.ofInt v

/-- A sign, if there is one, and what follows it. -/
def sign : List UInt8 → Bool × List UInt8
  | 0x2D :: rest => (true, rest)
  | 0x2B :: rest => (false, rest)
  | rest => (false, rest)

/-- The number at the front of the text and the stream behind it. Without
digits the number is `0`, and one that is out of range becomes the nearest
`int`, both with `failbit`. -/
def parseInt (text : List UInt8) : Int32 × Istream :=
  let signed := sign text
  let digits := signed.2.takeWhile isDigit
  let after := signed.2.dropWhile isDigit
  let v : Int := if signed.1 then -decimal digits else decimal digits
  if digits = [] then (0, ⟨after, after.isEmpty, true⟩)
  else (clamp v, ⟨after, after.isEmpty, decide (v < -2 ^ 31 ∨ 2 ^ 31 - 1 < v)⟩)

/-- `s >> v` for an `int v` that holds `old`, and goes on holding it when
there is nothing but white space left. -/
def readInt (s : Istream) (old : Int32) : Int32 × Istream :=
  if s.good then
    let text := s.rest.dropWhile isSpace
    if text = [] then (old, ⟨[], true, true⟩) else parseInt text
  else (old, s.fail)

/-- Drop up to `n` bytes, the last of them the newline if there is one among
them, and say whether the end came first. -/
def dropLine : Nat → List UInt8 → List UInt8 × Bool
  | 0, rest => (rest, false)
  | _ + 1, [] => ([], true)
  | n + 1, c :: rest => if c = newline then (rest, false) else dropLine n rest

/-- `s.ignore(n, '\n')` -/
def ignore (s : Istream) (n : Nat) : Istream :=
  if s.good then
    let r := dropLine n s.rest
    ⟨r.1, r.2, false⟩
  else s.fail

/-- `getline(s, line)` for a string that holds `old`. -/
def getline (s : Istream) (old : List UInt8) : List UInt8 × Istream :=
  if s.good then
    let line := s.rest.takeWhile (· ≠ newline)
    match s.rest.dropWhile (· ≠ newline) with
    | [] => (line, ⟨[], true, line.isEmpty⟩)
    -- the newline is extracted and not stored
    | _ :: rest => (line, ⟨rest, false, false⟩)
  else (old, s.fail)

/-! ## Whole lines -/

/-- A line that is there is read, with its newline. -/
theorem getline_line {line : List UInt8} (h : newline ∉ line) (rest old : List UInt8) :
    getline ⟨line ++ newline :: rest, false, false⟩ old = (line, ⟨rest, false, false⟩) := by
  have hall : ∀ c ∈ line, decide (c ≠ newline) = true := by
    intro c hc
    exact decide_eq_true fun heq => h (heq ▸ hc)
  have htake : (line ++ newline :: rest).takeWhile (· ≠ newline) = line := by
    rw [List.takeWhile_append_of_pos hall]
    simp
  have hdrop : (line ++ newline :: rest).dropWhile (· ≠ newline) = newline :: rest := by
    rw [List.dropWhile_append_of_pos hall]
    simp
  simp only [getline, good, htake, hdrop, Bool.not_false, Bool.and_self, if_true]

/-- A line takes its own bytes off the stream at least. -/
theorem getline_rest_le (s : Istream) :
    (getline s []).1.length + (getline s []).2.rest.length ≤ s.rest.length := by
  have hsplit : (s.rest.takeWhile (· ≠ newline) ++ s.rest.dropWhile (· ≠ newline)).length
      = s.rest.length := congrArg List.length List.takeWhile_append_dropWhile
  rw [List.length_append] at hsplit
  unfold getline
  split
  · cases hd : s.rest.dropWhile (· ≠ newline) with
    | nil =>
        rw [hd] at hsplit
        simpa using Nat.le_of_eq hsplit
    | cons c rest =>
        rw [hd, List.length_cons] at hsplit
        simp only
        omega
  · simp [fail]

theorem ignore_newline (rest : List UInt8) (n : Nat) :
    ignore ⟨newline :: rest, false, false⟩ (n + 1) = ⟨rest, false, false⟩ := by
  simp [ignore, good, dropLine]

/-! ## The lines left -/

/-- The lines of a text. The last one needs no newline, but is then not
empty. -/
def lines : List UInt8 → List (List UInt8)
  | [] => []
  | c :: rest =>
      if c = newline then [] :: lines rest
      else match lines rest with
        | [] => [[c]]
        | line :: more => (c :: line) :: more

theorem lines_line {line : List UInt8} (h : newline ∉ line) (rest : List UInt8) :
    lines (line ++ newline :: rest) = line :: lines rest := by
  induction line with
  | nil => simp [lines]
  | cons c line ih =>
      rw [List.mem_cons, not_or] at h
      rw [List.cons_append, lines, if_neg (Ne.symm h.1), ih h.2]

theorem lines_last {line : List UInt8} (h : newline ∉ line) (hne : line ≠ []) :
    lines line = [line] := by
  induction line with
  | nil => exact absurd rfl hne
  | cons c line ih =>
      rw [List.mem_cons, not_or] at h
      rw [lines, if_neg (Ne.symm h.1)]
      by_cases hnil : line = []
      · rw [hnil, lines]
      · rw [ih h.2 hnil]

/-- Lines that were written one after the other. -/
theorem lines_flatMap {text : List (List UInt8)} (h : ∀ line ∈ text, newline ∉ line) :
    lines (text.flatMap (· ++ [newline])) = text := by
  induction text with
  | nil => rfl
  | cons line text ih =>
      rw [List.flatMap_cons, List.append_assoc, List.singleton_append,
        lines_line (h line (by simp)), ih (fun l hl => h l (by simp [hl]))]

/-- What `getline` stores has no newline. -/
theorem newline_not_mem_getline (s : Istream) : newline ∉ (getline s []).1 := by
  have htake : newline ∉ s.rest.takeWhile (· ≠ newline) := by
    intro hmem
    have hne := List.mem_takeWhile_imp hmem
    exact absurd hne (by decide)
  unfold getline
  split
  · cases s.rest.dropWhile (· ≠ newline) with
    | nil => exact htake
    | cons c rest => exact htake
  · exact List.not_mem_nil

/-- A text is one line without its newline, or starts with a whole line. -/
theorem line_cases (text : List UInt8) :
    newline ∉ text ∨ ∃ line rest, newline ∉ line ∧ text = line ++ newline :: rest := by
  induction text with
  | nil => exact .inl List.not_mem_nil
  | cons c text ih =>
      by_cases hc : c = newline
      · exact .inr ⟨[], text, List.not_mem_nil, by rw [hc, List.nil_append]⟩
      · rcases ih with hnone | ⟨line, rest, hline, rfl⟩
        · exact .inl (by rw [List.mem_cons, not_or]; exact ⟨Ne.symm hc, hnone⟩)
        · refine .inr ⟨c :: line, rest, ?_, rfl⟩
          rw [List.mem_cons, not_or]
          exact ⟨Ne.symm hc, hline⟩

/-- A last line without a newline is read up to the end of the input. -/
theorem getline_last {line : List UInt8} (h : newline ∉ line) (old : List UInt8) :
    getline ⟨line, false, false⟩ old = (line, ⟨[], true, line.isEmpty⟩) := by
  have hall : ∀ c ∈ line, decide (c ≠ newline) = true := by
    intro c hc
    exact decide_eq_true fun heq => h (heq ▸ hc)
  have htake : line.takeWhile (· ≠ newline) = line := List.takeWhile_eq_self_iff.mpr hall
  have hdrop : line.dropWhile (· ≠ newline) = [] := List.dropWhile_eq_nil_iff.mpr hall
  simp only [getline, good, htake, hdrop, Bool.not_false, Bool.and_self, if_true]

/-- The stream is good, or there is nothing left on it. -/
def Intact (s : Istream) : Prop := s.good = true ∨ s.rest = []

theorem intact_of_good {s : Istream} (h : s.good = true) : s.Intact := .inl h

/-- **A line at a time**: on an intact stream `getline` delivers the first of
the lines left, or nothing if there is none, and leaves the others. -/
theorem getline_lines {s : Istream} (h : s.Intact) :
    (getline s []).1 = (lines s.rest).headD [] ∧ lines (getline s []).2.rest = (lines s.rest).tail
      ∧ (getline s []).2.Intact ∧ (getline s []).2.rest <:+ s.rest := by
  obtain ⟨rest, eof, fail⟩ := s
  by_cases hgood : good ⟨rest, eof, fail⟩ = true
  · obtain ⟨rfl, rfl⟩ : eof = false ∧ fail = false := by simpa [good] using hgood
    rcases line_cases rest with hnone | ⟨line, more, hline, rfl⟩
    · rw [getline_last hnone]
      refine ⟨?_, ?_, .inr rfl, List.nil_suffix⟩
      · by_cases hnil : rest = []
        · rw [hnil]
          rfl
        · rw [lines_last hnone hnil]
          rfl
      · by_cases hnil : rest = []
        · rw [hnil]
          rfl
        · rw [lines_last hnone hnil]
          rfl
    · rw [getline_line hline, lines_line hline]
      refine ⟨rfl, rfl, .inl rfl, ?_⟩
      exact ⟨line ++ [newline], by simp⟩
  · have hnil : rest = [] := h.resolve_left hgood
    rw [getline, if_neg hgood, hnil]
    exact ⟨rfl, rfl, .inr rfl, List.suffix_refl _⟩

/-! ## Numbers -/

theorem clamp_toInt (v : Int32) : clamp v.toInt = v := by
  have hlow := v.le_toInt
  have hhigh := v.toInt_lt
  rw [clamp, if_neg (by omega), if_neg (by omega), Int32.ofInt_toInt]

/-- A digit is neither white space nor a sign. -/
theorem isDigit_not_space {c : UInt8} (h : isDigit c = true) :
    isSpace c = false ∧ c ≠ 0x2D ∧ c ≠ 0x2B := by
  refine ⟨?_, ?_, ?_⟩
  · simp only [isDigit, isSpace, UInt8.le_iff_toNat_le, ← UInt8.toNat_inj, decide_eq_true_eq,
      decide_eq_false_iff_not, UInt8.reduceToNat] at h ⊢
    omega
  · rintro rfl
    exact absurd h (by decide)
  · rintro rfl
    exact absurd h (by decide)

theorem sign_of_digit {c : UInt8} (h : isDigit c = true) (rest : List UInt8) :
    sign (c :: rest) = (false, c :: rest) := by
  obtain ⟨-, hminus, hplus⟩ := isDigit_not_space h
  unfold sign
  split <;> simp_all

/-- The signs that a number may start with. -/
inductive Sign
  | none
  | plus
  | minus
deriving DecidableEq, Repr

namespace Sign

def text : Sign → List UInt8
  | none => []
  | plus => [0x2B]
  | minus => [0x2D]

def negative : Sign → Bool
  | minus => true
  | _ => false

end Sign

/-- A number that fits, up to the first byte that is no digit. -/
theorem parseInt_number {text digits after : List UInt8} {negative : Bool}
    (hsign : sign text = (negative, digits ++ after)) (hne : digits ≠ [])
    (hdigits : ∀ c ∈ digits, isDigit c = true) (hstop : ∀ c ∈ after.head?, isDigit c = false)
    {v : Int32} (hv : v.toInt = if negative then -(decimal digits : Int) else decimal digits) :
    parseInt text = (v, ⟨after, after.isEmpty, false⟩) := by
  have hafter : after.takeWhile isDigit = [] ∧ after.dropWhile isDigit = after := by
    cases after with
    | nil => exact ⟨rfl, rfl⟩
    | cons c rest => simp [hstop c rfl]
  have htake : (digits ++ after).takeWhile isDigit = digits := by
    rw [List.takeWhile_append_of_pos hdigits, hafter.1, List.append_nil]
  have hdrop : (digits ++ after).dropWhile isDigit = after := by
    rw [List.dropWhile_append_of_pos hdigits, hafter.2]
  have hrange : ¬ (v.toInt < -2 ^ 31 ∨ 2 ^ 31 - 1 < v.toInt) := by
    have hlow := v.le_toInt
    have hhigh := v.toInt_lt
    omega
  simp only [parseInt, hsign, htake, hdrop, if_neg hne, ← hv, clamp_toInt,
    decide_eq_false hrange]

/-- A decimal `int` at the front of a stream. -/
theorem readInt_number (sg : Sign) {digits after : List UInt8} (hne : digits ≠ [])
    (hdigits : ∀ c ∈ digits, isDigit c = true) (hstop : ∀ c ∈ after.head?, isDigit c = false)
    {v : Int32}
    (hv : v.toInt = if sg.negative then -(decimal digits : Int) else decimal digits)
    (old : Int32) :
    readInt ⟨sg.text ++ (digits ++ after), false, false⟩ old
      = (v, ⟨after, after.isEmpty, false⟩) := by
  cases sg with
  | minus =>
      -- a sign is no white space either
      change parseInt (0x2D :: (digits ++ after)) = _
      exact parseInt_number rfl hne hdigits hstop hv
  | plus =>
      change parseInt (0x2B :: (digits ++ after)) = _
      exact parseInt_number rfl hne hdigits hstop hv
  | none =>
      obtain ⟨d, ds, rfl⟩ := List.exists_cons_of_ne_nil hne
      have hd := hdigits d (by simp)
      have hskip : (d :: (ds ++ after)).dropWhile isSpace = d :: (ds ++ after) := by
        rw [List.dropWhile_cons, (isDigit_not_space hd).1]
        rfl
      change (if (d :: (ds ++ after)).dropWhile isSpace = [] then _
        else parseInt ((d :: (ds ++ after)).dropWhile isSpace)) = _
      rw [hskip, if_neg (List.cons_ne_nil _ _)]
      exact parseInt_number (sign_of_digit hd _) hne hdigits hstop hv

/-- A decimal `int` on a line of its own. -/
theorem readInt_line {digits : List UInt8} (hne : digits ≠ [])
    (hdigits : ∀ c ∈ digits, isDigit c = true) (negative : Bool) {v : Int32}
    (hv : v.toInt = if negative then -(decimal digits : Int) else decimal digits)
    (rest : List UInt8) (old : Int32) :
    readInt ⟨(if negative then [0x2D] else []) ++ (digits ++ newline :: rest), false, false⟩ old
      = (v, ⟨newline :: rest, false, false⟩) := by
  have hstop : ∀ c ∈ (newline :: rest).head?, isDigit c = false := by
    rintro c ⟨⟩
    rfl
  cases negative with
  | true => exact readInt_number .minus hne hdigits hstop hv old
  | false => exact readInt_number .none hne hdigits hstop hv old

/-! ## What `ignore` leaves -/

/-- The rest of a line is dropped with its newline while it is short enough. -/
theorem dropLine_line {line : List UInt8} (h : newline ∉ line) {n : Nat}
    (hlen : line.length < n) (rest : List UInt8) :
    dropLine n (line ++ newline :: rest) = (rest, false) := by
  induction line generalizing n with
  | nil =>
      obtain ⟨n, rfl⟩ := Nat.exists_eq_succ_of_ne_zero (show n ≠ 0 by omega)
      rw [List.nil_append, dropLine, if_pos rfl]
  | cons c line ih =>
      rw [List.mem_cons, not_or] at h
      rw [List.length_cons] at hlen
      obtain ⟨n, rfl⟩ := Nat.exists_eq_succ_of_ne_zero (show n ≠ 0 by omega)
      rw [List.cons_append, dropLine, if_neg (Ne.symm h.1), ih h.2 (by omega)]

theorem dropLine_end {line : List UInt8} (h : newline ∉ line) {n : Nat}
    (hlen : line.length < n) : dropLine n line = ([], true) := by
  induction line generalizing n with
  | nil =>
      obtain ⟨n, rfl⟩ := Nat.exists_eq_succ_of_ne_zero (show n ≠ 0 by omega)
      rfl
  | cons c line ih =>
      rw [List.mem_cons, not_or] at h
      rw [List.length_cons] at hlen
      obtain ⟨n, rfl⟩ := Nat.exists_eq_succ_of_ne_zero (show n ≠ 0 by omega)
      rw [dropLine, if_neg (Ne.symm h.1), ih h.2 (by omega)]

/-- A longer rest is cut off after `n` bytes, in the middle of the line. -/
theorem dropLine_long {line : List UInt8} (h : newline ∉ line) {n : Nat}
    (hlen : n ≤ line.length) (after : List UInt8) :
    dropLine n (line ++ after) = (line.drop n ++ after, false) := by
  induction line generalizing n with
  | nil =>
      obtain rfl : n = 0 := by simpa using hlen
      rfl
  | cons c line ih =>
      rw [List.mem_cons, not_or] at h
      cases n with
      | zero => rfl
      | succ n =>
          rw [List.length_cons] at hlen
          rw [List.cons_append, dropLine, if_neg (Ne.symm h.1), ih h.2 (by omega),
            List.drop_succ_cons]

end Istream

end Assignment
