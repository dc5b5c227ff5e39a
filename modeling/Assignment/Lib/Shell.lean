import Assignment.Lib.Istream

/-!
# Reading and expanding in bash

The parts of bash that a `while read` loop over a file of words depends on,
on bytes and with the default `IFS`: `read` without `-r`, which takes a
backslash as an escape and as a line continuation; word splitting; and
pathname expansion, of which only the outcome for words without special
characters is fixed, as the rest is up to the current directory.
-/

namespace Assignment.Shell

open Istream

abbrev Word := List UInt8

/-- The word that an ASCII literal is. -/
def literal (s : String) : Word := s.toList.map fun c => UInt8.ofNat c.toNat

def backslash : UInt8 := 0x5C

/-- The characters of `IFS`. -/
def isBlank (c : UInt8) : Bool := c = 0x20 ∨ c = 0x09 ∨ c = newline

/-! ## `read` -/

/-- A character, and whether a backslash stood in front of it. -/
abbrev Marked := UInt8 × Bool

/-- What `read` takes off its input: the characters of a logical line,
whether it found the newline that ends it, and the input behind it. -/
structure Read where
  marked : List Marked
  complete : Bool
  rest : List UInt8
deriving DecidableEq, Repr

namespace Read

/-- With these characters in front. -/
def after (marked : List Marked) (r : Read) : Read := { r with marked := marked ++ r.marked }

@[simp] theorem after_complete (marked : List Marked) (r : Read) :
    (r.after marked).complete = r.complete := rfl

@[simp] theorem after_rest (marked : List Marked) (r : Read) : (r.after marked).rest = r.rest := rfl

theorem after_after (marked marked' : List Marked) (r : Read) :
    (r.after marked').after marked = r.after (marked ++ marked') := by
  simp [after]

end Read

/-- The characters up to the first newline that is not escaped. -/
def readMarked : List UInt8 → Read
  | [] => ⟨[], false, []⟩
  | c :: rest =>
      if c = newline then ⟨[], true, rest⟩
      else if c = backslash then
        match rest with
        | [] => ⟨[], false, []⟩
        | d :: rest =>
            -- the escaped newline of a continued line is dropped
            if d = newline then readMarked rest else (readMarked rest).after [(d, true)]
      else (readMarked rest).after [(c, false)]

theorem readMarked_newline (rest : List UInt8) :
    readMarked (newline :: rest) = ⟨[], true, rest⟩ := by
  rw [readMarked.eq_def]
  simp

theorem readMarked_other {c : UInt8} (hnewline : c ≠ newline) (hbackslash : c ≠ backslash)
    (rest : List UInt8) : readMarked (c :: rest) = (readMarked rest).after [(c, false)] := by
  rw [readMarked.eq_def]
  simp [hnewline, hbackslash]

/-- Blanks that are not escaped. -/
def trimmed (m : Marked) : Bool := !m.2 && isBlank m.1

/-- The value that `read` gives to its only variable. -/
def Read.line (r : Read) : List UInt8 :=
  ((r.marked.dropWhile trimmed).rdropWhile trimmed).map Prod.fst

/-- The values of the variable in the turns of a `while read` loop. -/
def whileRead : Nat → List UInt8 → List (List UInt8)
  | 0, _ => []
  | fuel + 1, input =>
      let r := readMarked input
      if r.complete then r.line :: whileRead fuel r.rest else []

/-- The whole loop: every turn takes a newline off the input. -/
def readLines (input : List UInt8) : List (List UInt8) := whileRead (input.length + 1) input

theorem readMarked_shortens (input : List UInt8) :
    (readMarked input).complete = true → (readMarked input).rest.length < input.length := by
  fun_induction readMarked input with
  | case1 => simp
  | case2 rest => simp
  | case3 => simp
  | case4 rest hne ih =>
      intro h
      have hlt := ih h
      simp only [List.length_cons]
      omega
  | case5 d rest hd hne ih =>
      intro h
      have hlt := ih h
      simp only [Read.after_rest, List.length_cons]
      omega
  | case6 c rest hc hc' ih =>
      intro h
      have hlt := ih h
      simp only [Read.after_rest, List.length_cons]
      omega

theorem whileRead_fuel : ∀ (fuel fuel' : Nat) (input : List UInt8), input.length < fuel →
    input.length < fuel' → whileRead fuel input = whileRead fuel' input := by
  intro fuel
  induction fuel with
  | zero => intro fuel' input h; omega
  | succ fuel ih =>
      intro fuel' input h h'
      obtain ⟨fuel', rfl⟩ := Nat.exists_eq_succ_of_ne_zero (show fuel' ≠ 0 by omega)
      rw [whileRead, whileRead]
      by_cases hcomplete : (readMarked input).complete = true
      · have hlt := readMarked_shortens input hcomplete
        simp only [if_pos hcomplete]
        rw [ih fuel' _ (by omega) (by omega)]
      · simp only [if_neg hcomplete]

/-- **One turn of the loop.** -/
theorem readLines_eq (input : List UInt8) : readLines input
    = if (readMarked input).complete then (readMarked input).line :: readLines (readMarked input).rest
      else [] := by
  rw [readLines, whileRead]
  by_cases hcomplete : (readMarked input).complete = true
  · have hlt := readMarked_shortens input hcomplete
    simp only [if_pos hcomplete]
    rw [readLines, whileRead_fuel _ _ _ hlt (Nat.lt_succ_self _)]
  · simp only [if_neg hcomplete]

/-! ## One line of text -/

/-- The characters of a line without its newline. -/
def marked : List UInt8 → List Marked
  | [] => []
  | c :: text =>
      if c = backslash then
        match text with
        | [] => []
        | d :: text => (d, true) :: marked text
      else (c, false) :: marked text

/-- The line without its escaping backslashes. -/
def unescape (text : List UInt8) : List UInt8 := (marked text).map Prod.fst

/-- The line ends in a backslash that is not itself escaped. -/
def dangling : List UInt8 → Bool
  | [] => false
  | c :: text =>
      if c = backslash then
        match text with
        | [] => true
        | _ :: text => dangling text
      else dangling text

theorem marked_other {c : UInt8} (hc : c ≠ backslash) (text : List UInt8) :
    marked (c :: text) = (c, false) :: marked text ∧ dangling (c :: text) = dangling text := by
  rw [marked.eq_def, dangling.eq_def]
  simp [hc]

/-- **A line that is read**: to its newline, or beyond it when it ends in a
backslash. -/
theorem readMarked_line {text : List UInt8} (h : newline ∉ text) (rest : List UInt8) :
    readMarked (text ++ newline :: rest)
      = if dangling text then (readMarked rest).after (marked text)
        else ⟨marked text, true, rest⟩ := by
  have hbackslash : backslash ≠ newline := by decide
  fun_induction marked text with
  | case1 => simp [readMarked_newline, dangling]
  | case2 => simp [readMarked, dangling, hbackslash, Read.after]
  | case3 d text ih =>
      simp only [List.mem_cons, not_or] at h
      have hd : ¬ d = newline := Ne.symm h.2.1
      rw [List.cons_append, List.cons_append, readMarked, if_neg hbackslash, if_pos rfl]
      simp only [if_neg hd, ih h.2.2, dangling, if_true]
      split
      · rw [Read.after_after, List.singleton_append]
      · rfl
  | case4 c text hc ih =>
      simp only [List.mem_cons, not_or] at h
      have hnewline : ¬ c = newline := Ne.symm h.1
      rw [List.cons_append, readMarked_other hnewline hc, ih h.2, (marked_other hc text).2]
      split
      · rw [Read.after_after, List.singleton_append]
      · rfl

/-- A line without a newline is not read to its end. -/
theorem readMarked_last {text : List UInt8} (h : newline ∉ text) :
    (readMarked text).complete = false := by
  fun_induction readMarked text with
  | case1 => rfl
  | case2 rest => simp at h
  | case3 => rfl
  | case4 rest => simp at h
  | case5 d rest hd hne ih =>
      rw [Read.after_complete]
      exact ih (by simpa using fun hmem => h (by simp [hmem]))
  | case6 c rest hc hc' ih =>
      rw [Read.after_complete]
      exact ih (fun hmem => h (by simp [hmem]))

/-- An escape does not reach beyond the character it stands before. -/
theorem marked_append (a : List UInt8) {c : UInt8} (hc : c ≠ backslash) (b : List UInt8) :
    marked (a ++ c :: b) = marked a ++ (c, dangling a) :: marked b
      ∧ dangling (a ++ c :: b) = dangling b := by
  fun_induction marked a with
  | case1 => exact marked_other hc b
  | case2 => simp [marked, dangling]
  | case3 d text ih => simpa [marked, dangling] using ih
  | case4 d text hd ih => simpa [marked_other hd] using ih

theorem unescape_append (a : List UInt8) {c : UInt8} (hc : c ≠ backslash) (b : List UInt8) :
    unescape (a ++ c :: b) = unescape a ++ c :: unescape b := by
  simp [unescape, (marked_append a hc b).1]

theorem unescape_subset (text : List UInt8) : unescape text ⊆ text := by
  intro x hx
  rw [unescape] at hx
  fun_induction marked text with
  | case1 => exact hx
  | case2 => cases hx
  | case3 d text ih =>
      rcases List.mem_cons.mp hx with rfl | hx
      · simp
      · simp [ih hx]
  | case4 c text hc ih =>
      rcases List.mem_cons.mp hx with rfl | hx
      · simp
      · simp [ih hx]

/-- A text without backslashes is read as it is. -/
theorem unescape_plain {text : List UInt8} (h : backslash ∉ text) :
    unescape text = text ∧ dangling text = false := by
  induction text with
  | nil => exact ⟨rfl, rfl⟩
  | cons c text ih =>
      rw [List.mem_cons, not_or] at h
      obtain ⟨htext, hend⟩ := ih h.2
      obtain ⟨hmarked, hdangling⟩ := marked_other (Ne.symm h.1) text
      rw [unescape] at htext
      exact ⟨by rw [unescape, hmarked, List.map_cons, htext], hdangling.trans hend⟩

/-! ## Word splitting -/

/-- The words that an unquoted expansion of this text is split into. -/
def words (text : List UInt8) : List Word := (text.splitOnP isBlank).filter (· ≠ [])

theorem words_append {sep : UInt8} (hsep : isBlank sep = true) (a b : List UInt8) :
    words (a ++ sep :: b) = words a ++ words b := by
  rw [words, List.splitOnP_append_cons a b hsep, List.filter_append, words, words]

/-- A text without blanks is one word, if it is not empty. -/
theorem words_word {text : List UInt8} (h : ∀ c ∈ text, isBlank c = false) :
    words text = [text].filter (· ≠ []) := by
  rw [words, List.splitOnP_eq_singleton h]

/-- Blanks around a text make no difference to its words. -/
theorem words_trim (ms : List Marked) :
    words (((ms.dropWhile trimmed).rdropWhile trimmed).map Prod.fst)
      = words (ms.map Prod.fst) := by
  have hblank : ∀ m : Marked, trimmed m = true → isBlank m.1 = true := by
    intro m h
    simp only [trimmed, Bool.and_eq_true] at h
    exact h.2
  have hleft : ∀ ms : List Marked,
      words ((ms.dropWhile trimmed).map Prod.fst) = words (ms.map Prod.fst) := by
    intro ms
    induction ms with
    | nil => rfl
    | cons m ms ih =>
        by_cases hm : trimmed m = true
        · rw [List.dropWhile_cons_of_pos hm, ih, List.map_cons]
          exact (words_append (hblank m hm) [] _).symm
        · rw [List.dropWhile_cons_of_neg hm]
  have hright : ∀ ms : List Marked,
      words ((ms.rdropWhile trimmed).map Prod.fst) = words (ms.map Prod.fst) := by
    intro ms
    induction ms using List.reverseRecOn with
    | nil => rfl
    | append_singleton ms m ih =>
        by_cases hm : trimmed m = true
        · rw [List.rdropWhile_concat_pos _ _ _ hm, ih, List.map_append, List.map_singleton,
            words_append (hblank m hm)]
          exact (List.append_nil _).symm
        · rw [List.rdropWhile_concat_neg _ _ _ hm]
  rw [hright, hleft]

/-! ## Pathname expansion -/

/-- The characters that make a word a pattern. -/
def isSpecial (c : UInt8) : Bool := c = 0x2A ∨ c = 0x3F ∨ c = 0x5B ∨ c = backslash

/-- The current directory, as far as expansion goes. -/
structure Directory where
  /-- Pathname expansion of a word. -/
  expand : Word → List Word
  /-- A word that is no pattern stands for itself. -/
  expand_plain : ∀ word, (∀ c ∈ word, isSpecial c = false) → expand word = [word]

namespace Directory

/-- A directory in which no pattern matches anything. -/
def bare : Directory := ⟨fun word => [word], fun _ _ => rfl⟩

/-- The words of an unquoted expansion. -/
def unquoted (dir : Directory) (text : List UInt8) : List Word := (words text).flatMap dir.expand

/-- The file that the output goes to in `> text`; more words or none are an
error. -/
def redirect (dir : Directory) (text : List UInt8) : Option Word :=
  match dir.unquoted text with
  | [word] => some word
  | _ => none

theorem unquoted_word (dir : Directory) {text : List UInt8} (hne : text ≠ [])
    (h : ∀ c ∈ text, isBlank c = false) : dir.unquoted text = dir.expand text := by
  rw [unquoted, words_word h]
  simp [hne]

theorem redirect_plain (dir : Directory) {text : List UInt8} (hne : text ≠ [])
    (h : ∀ c ∈ text, isBlank c = false) (hplain : ∀ c ∈ text, isSpecial c = false) :
    dir.redirect text = some text := by
  rw [redirect, unquoted_word dir hne h, dir.expand_plain text hplain]

end Directory

end Assignment.Shell
