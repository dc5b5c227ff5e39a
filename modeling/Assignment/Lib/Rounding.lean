import Mathlib

/-!
# Rounding, and rounding twice

Rounding to the nearest integer with ties to the even one, and to two
decimals with ties away from zero. A number that is first rounded to two
decimals and then to an integer comes out as if it were rounded at once,
but for the two bands of half a hundredth on either side of a tie, where
the first rounding makes a tie that was not there (`roundEven_hundredths`).
Both roundings keep the order, and either moves a number by no more than half
of its unit.
-/

namespace Assignment.Rounding

variable {K : Type*} [Field K] [LinearOrder K] [IsStrictOrderedRing K] [FloorRing K]

/-- The nearest integer, the even one of two. -/
def roundEven (x : K) : ℤ :=
  if Int.fract x < 1 / 2 then ⌊x⌋
  else if 1 / 2 < Int.fract x then ⌊x⌋ + 1
  else ⌊x⌋ + ⌊x⌋ % 2

/-- The nearest integer, the one farther from zero of two. -/
def roundAway (x : K) : ℤ := if 0 ≤ x then ⌊x + 1 / 2⌋ else -⌊-x + 1 / 2⌋

/-- Two decimals, as a number of hundredths. -/
def hundredths (x : K) : ℤ := roundAway (100 * x)

/-- What rounding to two decimals first adds to the rounded number: one just
below a tie above an odd number, minus one just above a tie above an even
number. -/
def shift (x : K) : ℤ :=
  if 99 / 200 ≤ Int.fract x ∧ Int.fract x < 1 / 2 ∧ ⌊x⌋ % 2 = 1 then 1
  else if 1 / 2 < Int.fract x ∧ Int.fract x < 101 / 200 ∧ ⌊x⌋ % 2 = 0 then -1
  else 0

/-- Rounding a number given by its whole part and its fraction. -/
theorem roundEven_add (n : ℤ) {f : K} (h₀ : 0 ≤ f) (h₁ : f < 1) :
    roundEven (n + f) = if f < 1 / 2 then n else if 1 / 2 < f then n + 1 else n + n % 2 := by
  have hfloor : ⌊(n : K) + f⌋ = n := by
    rw [Int.floor_intCast_add, Int.floor_eq_zero_iff.mpr ⟨h₀, h₁⟩, add_zero]
  have hfract : Int.fract ((n : K) + f) = f := by
    rw [Int.fract, hfloor, add_sub_cancel_left]
  rw [roundEven, hfract, hfloor]

/-- The hundredths of a number given so. -/
theorem hundredths_add {n : ℤ} {f : K} (hn : 0 ≤ n) (h₀ : 0 ≤ f) :
    hundredths (n + f) = 100 * n + ⌊100 * f + 1 / 2⌋ := by
  have hpos : 0 ≤ 100 * ((n : K) + f) := by positivity
  have hsplit : 100 * ((n : K) + f) + 1 / 2 = ((100 * n : ℤ) : K) + (100 * f + 1 / 2) := by
    push_cast
    ring
  rw [hundredths, roundAway, if_pos hpos, hsplit, Int.floor_intCast_add]

/-- An integer from its hundredths. -/
theorem roundEven_div_hundred (n g : ℤ) (h₀ : 0 ≤ g) (h₁ : g ≤ 100) :
    roundEven (((100 * n + g : ℤ) : K) / 100)
      = if g < 50 then n else if 50 < g then n + 1 else n + n % 2 := by
  by_cases hwhole : g = 100
  · have hcast : ((100 * n + g : ℤ) : K) / 100 = ((n + 1 : ℤ) : K) + 0 := by
      rw [hwhole]
      push_cast
      ring
    rw [hcast, roundEven_add _ le_rfl zero_lt_one, if_pos (by norm_num), if_neg (by omega),
      if_pos (by omega)]
  · have hcast : ((100 * n + g : ℤ) : K) / 100 = (n : K) + (g : K) / 100 := by
      push_cast
      ring
    have hg₀ : (0 : K) ≤ g / 100 := by positivity
    have hg₁ : (g : K) / 100 < 1 := by
      rw [div_lt_one (by norm_num)]
      exact_mod_cast lt_of_le_of_ne h₁ hwhole
    have hlow : (g : K) / 100 < 1 / 2 ↔ g < 50 := by
      rw [div_lt_div_iff₀ (by norm_num) (by norm_num)]
      norm_cast
      omega
    have hhigh : 1 / 2 < (g : K) / 100 ↔ 50 < g := by
      rw [div_lt_div_iff₀ (by norm_num) (by norm_num)]
      norm_cast
      omega
    rw [hcast, roundEven_add n hg₀ hg₁]
    simp only [hlow, hhigh]

/-- **Rounding twice**: two decimals and then an integer differ from the
integer at once by `shift`. -/
theorem roundEven_hundredths {x : K} (hx : 0 ≤ x) :
    roundEven ((hundredths x : K) / 100) = roundEven x + shift x := by
  have hn : 0 ≤ ⌊x⌋ := Int.floor_nonneg.mpr hx
  have h₀ := Int.fract_nonneg x
  have h₁ := Int.fract_lt_one x
  have hsplit := hundredths_add hn h₀
  rw [Int.floor_add_fract] at hsplit
  generalize hg : ⌊100 * Int.fract x + 1 / 2⌋ = g at hsplit
  obtain ⟨hle, hlt⟩ := Int.floor_eq_iff.mp hg
  have hg₀ : 0 ≤ g := by
    rw [← hg]
    exact Int.floor_nonneg.mpr (by positivity)
  have hg₁ : g < 101 := by
    have hcast : (g : K) < ((101 : ℤ) : K) := by
      push_cast
      linarith
    exact_mod_cast hcast
  rw [hsplit, roundEven_div_hundred _ _ hg₀ (by omega), roundEven, shift]
  -- the whole hundredths say on which side of the bands the fraction lies
  rcases lt_trichotomy g 50 with hlow | htie | hhigh
  · have hfract : Int.fract x < 99 / 200 := by
      have hcast : (g : K) + 1 ≤ 50 := by exact_mod_cast hlow
      linarith
    rw [if_pos hlow, if_pos (by linarith), if_neg (fun h => absurd h.1 (not_le.mpr hfract)),
      if_neg (fun h => absurd h.1 (by linarith)), add_zero]
  · rw [htie] at hle hlt
    push_cast at hle hlt
    have hband : 99 / 200 ≤ Int.fract x := by linarith
    have hband' : Int.fract x < 101 / 200 := by linarith
    rw [htie, if_neg (lt_irrefl _), if_neg (lt_irrefl _)]
    have hparity := Int.emod_two_eq_zero_or_one ⌊x⌋
    rcases lt_trichotomy (Int.fract x) (1 / 2) with hbelow | hat | habove
    · simp only [hbelow, hband, not_lt.mpr hbelow.le, if_true, true_and, false_and, if_false]
      rcases hparity with hodd | hodd <;> simp [hodd]
    · simp [hat]
    · simp only [habove, hband', not_lt.mpr habove.le, if_true, if_false, true_and, false_and,
        and_false]
      rcases hparity with hodd | hodd <;> simp [hodd]
  · have hfract : 101 / 200 ≤ Int.fract x := by
      have hcast : (51 : K) ≤ g := by exact_mod_cast hhigh
      linarith
    rw [if_neg (by omega), if_pos hhigh, if_neg (by linarith), if_pos (by linarith),
      if_neg (fun h => absurd h.2.1 (by linarith)),
      if_neg (fun h => absurd h.2.1 (not_lt.mpr hfract)), add_zero]

/-! ## Order and distance -/

omit [IsStrictOrderedRing K] in
theorem floor_le_roundEven (x : K) : ⌊x⌋ ≤ roundEven x := by
  rw [roundEven]
  split_ifs <;> omega

omit [IsStrictOrderedRing K] in
theorem roundEven_le_floor_add_one (x : K) : roundEven x ≤ ⌊x⌋ + 1 := by
  rw [roundEven]
  split_ifs <;> omega

/-- Rounding to an integer keeps the order. -/
theorem roundEven_mono {x y : K} (h : x ≤ y) : roundEven x ≤ roundEven y := by
  rcases (Int.floor_mono h).lt_or_eq with hlt | heq
  · have hx := roundEven_le_floor_add_one x
    have hy := floor_le_roundEven y
    omega
  · -- between the same two integers the fractions decide
    have hfract : Int.fract x ≤ Int.fract y := by
      rw [Int.fract, Int.fract, heq]
      exact sub_le_sub_right h _
    by_cases hx : Int.fract x < 1 / 2
    · rw [roundEven, if_pos hx, heq]
      exact floor_le_roundEven y
    · rw [roundEven, roundEven, heq, if_neg hx, if_neg (fun hy => hx (hfract.trans_lt hy))]
      by_cases hx' : 1 / 2 < Int.fract x
      · rw [if_pos hx', if_pos (hx'.trans_le hfract)]
      · rw [if_neg hx']
        split_ifs <;> omega

/-- An integer is at most half from the number it rounds. -/
theorem abs_roundEven_sub_le (x : K) : |(roundEven x : K) - x| ≤ 1 / 2 := by
  have hsplit := Int.floor_add_fract x
  have h₀ := Int.fract_nonneg x
  have h₁ := Int.fract_lt_one x
  rw [roundEven, abs_le]
  split_ifs with hlow hhigh
  · constructor <;> linarith
  · push_cast
    constructor <;> linarith
  · rcases Int.emod_two_eq_zero_or_one ⌊x⌋ with hparity | hparity <;>
      rw [hparity] <;> push_cast <;> constructor <;> linarith

/-- The hundredths of numbers that are not negative keep the order. -/
theorem hundredths_mono {x y : K} (hx : 0 ≤ x) (h : x ≤ y) : hundredths x ≤ hundredths y := by
  have hy : 0 ≤ y := hx.trans h
  rw [hundredths, hundredths, roundAway, roundAway, if_pos (by positivity),
    if_pos (by positivity)]
  apply Int.floor_mono
  linarith

/-- Two decimals are at most half a hundredth from the number. -/
theorem abs_hundredths_sub_le {x : K} (hx : 0 ≤ x) :
    |(hundredths x : K) / 100 - x| ≤ 1 / 200 := by
  rw [hundredths, roundAway, if_pos (by positivity), abs_le]
  have hle := Int.floor_le (100 * x + 1 / 2)
  have hlt := Int.lt_floor_add_one (100 * x + 1 / 2)
  constructor <;> linarith

end Assignment.Rounding
