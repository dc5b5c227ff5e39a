import Assignment.Lib.Istream

/-!
# Output streams of the C++ standard library

What `ostream` writes for an `int`, in the classic locale. A printed number
has digits only behind its sign, and the reader's `decimal` takes it back,
so that no two numbers look alike.
-/

namespace Assignment.Ostream

open Istream

/-- The decimal digits of a number. -/
def showNat (n : Nat) : List UInt8 := (Nat.toDigits 10 n).map fun c => UInt8.ofNat c.toNat

/-- `out << v` -/
def showInt (v : Int) : List UInt8 :=
  if v < 0 then 0x2D :: showNat v.natAbs else showNat v.natAbs

theorem digit_range {c : Char} (h : c.isDigit = true) : 48 ≤ c.toNat ∧ c.toNat ≤ 57 := by
  simp only [Char.isDigit, Bool.and_eq_true, decide_eq_true_eq] at h
  exact h

/-- The byte of a decimal digit. -/
theorem digit_toNat {c : Char} (h : c.isDigit = true) : (UInt8.ofNat c.toNat).toNat = c.toNat := by
  have hrange := digit_range h
  rw [UInt8.toNat_ofNat']
  omega

theorem isDigit_showNat (n : Nat) : ∀ c ∈ showNat n, isDigit c = true := by
  intro c hc
  obtain ⟨d, hd, rfl⟩ := List.mem_map.mp hc
  have hdigit := Nat.isDigit_of_mem_toDigits (by decide) (by decide) hd
  have hrange := digit_range hdigit
  simp only [isDigit, UInt8.le_iff_toNat_le, digit_toNat hdigit, UInt8.reduceToNat,
    decide_eq_true_eq]
  omega

/-- **A printed number reads back.** -/
theorem decimal_showNat (n : Nat) : decimal (showNat n) = n := by
  have hfold : ∀ (l : List Char) (start : Nat), (∀ c ∈ l, c.isDigit = true) →
      (l.map fun c => UInt8.ofNat c.toNat).foldl (fun n c => 10 * n + (c.toNat - 0x30)) start
        = Nat.ofDigitChars 10 l start := by
    intro l
    induction l with
    | nil => intro start _; rfl
    | cons c l ih =>
        intro start h
        rw [List.map_cons, List.foldl_cons, digit_toNat (h c (by simp)),
          ih _ (fun d hd => h d (by simp [hd])), Nat.ofDigitChars_cons]
        rfl
  rw [decimal, showNat,
    hfold _ 0 fun c hc => Nat.isDigit_of_mem_toDigits (by decide) (by decide) hc,
    Nat.ofDigitChars_ten_toDigits]

/-- A digit is no minus sign. -/
theorem showNat_head (n : Nat) (more : List UInt8) : showNat n ≠ 0x2D :: more := by
  intro h
  have hminus := isDigit_showNat n 0x2D (by rw [h]; exact List.mem_cons_self)
  exact absurd hminus (by decide)

theorem showInt_injective {v w : Int} (h : showInt v = showInt w) : v = w := by
  have habs : ∀ {m n : Nat}, showNat m = showNat n → m = n := by
    intro m n hmn
    rw [← decimal_showNat m, hmn, decimal_showNat]
  unfold showInt at h
  split at h
  · split at h
    · have hnat := habs (List.cons.inj h).2
      omega
    · exact absurd h.symm (showNat_head _ _)
  · split at h
    · exact absurd h (showNat_head _ _)
    · have hnat := habs h
      omega

theorem newline_not_mem_showInt (v : Int) : newline ∉ showInt v := by
  have hdigits : newline ∉ showNat v.natAbs :=
    fun hmem => absurd (isDigit_showNat _ _ hmem) (by decide)
  unfold showInt
  split
  · rw [List.mem_cons, not_or]
    exact ⟨by decide, hdigits⟩
  · exact hdigits

end Assignment.Ostream
