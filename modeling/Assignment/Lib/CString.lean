import Assignment.Lib.Ostream

/-!
# C strings and the numbers in them

What `strchr`, `atoi`, `strtoul` and the formats `%0kX` and `%d` do to text,
as lists of bytes. A C string ends at its first NUL; a function that is
handed a pointer into a buffer sees what is behind it, up to the end of the
buffer. The main fact is that `strtoul` reads back what `%0kX` has written
(`strtoul_hexPad`).
-/

namespace Assignment.CString

open Istream

abbrev Text := List UInt8

/-- The C string at the start of a buffer. -/
def cString (buffer : Text) : Text := buffer.takeWhile (· ≠ 0)

theorem cString_of_not_mem {text : Text} (h : (0 : UInt8) ∉ text) : cString text = text := by
  rw [cString, List.takeWhile_eq_self_iff]
  intro c hc
  exact decide_eq_true fun h0 => h (h0 ▸ hc)

/-- `strchr(s, c)`: what stands in front of the first `c`, and behind it. -/
def strchr (c : UInt8) : Text → Option (Text × Text)
  | [] => none
  | d :: rest => if d = c then some ([], rest) else (strchr c rest).map fun p => (d :: p.1, p.2)

theorem strchr_append {c : UInt8} {front : Text} (h : c ∉ front) (rest : Text) :
    strchr c (front ++ c :: rest) = some (front, rest) := by
  induction front with
  | nil => simp [strchr]
  | cons d front ih =>
      have hd : d ≠ c := fun hdc => h (by simp [hdc])
      rw [List.cons_append, strchr, if_neg hd, ih fun hc => h (List.mem_cons_of_mem _ hc)]
      rfl

theorem strchr_eq_none {c : UInt8} {text : Text} (h : c ∉ text) : strchr c text = none := by
  induction text with
  | nil => rfl
  | cons d text ih =>
      have hd : d ≠ c := fun hdc => h (by simp [hdc])
      rw [strchr, if_neg hd, ih fun hc => h (List.mem_cons_of_mem _ hc)]
      rfl

/-- Whatever `strchr` finds, it finds at the first occurrence. -/
theorem strchr_eq_some {c : UInt8} {text front rest : Text}
    (h : strchr c text = some (front, rest)) : text = front ++ c :: rest ∧ c ∉ front := by
  by_cases hmem : c ∈ text
  · obtain ⟨before, behind, htext, hbefore⟩ := List.eq_append_cons_of_mem hmem
    rw [htext, strchr_append hbefore] at h
    cases h
    exact ⟨htext, hbefore⟩
  · rw [strchr_eq_none hmem] at h
    cases h

theorem not_mem_of_strchr {c : UInt8} {text : Text} (h : strchr c text = none) : c ∉ text := by
  intro hmem
  obtain ⟨before, behind, rfl, hbefore⟩ := List.eq_append_cons_of_mem hmem
  rw [strchr_append hbefore] at h
  cases h

theorem strchr_length {c : UInt8} {text : Text} {found : Text × Text}
    (h : strchr c text = some found) : found.1.length + found.2.length + 1 = text.length := by
  rw [(strchr_eq_some h).1, List.length_append, List.length_cons]
  omega

/-- `atoi`, without overflow. -/
def atoi (text : Text) : Int :=
  let (negative, text) := sign (text.dropWhile isSpace)
  let n : Int := decimal (text.takeWhile isDigit)
  if negative then -n else n

/-! ## Hexadecimal -/

/-- A digit below sixteen as `%X` prints it. -/
def hexDigit (d : Nat) : UInt8 := UInt8.ofNat (if d < 10 then 0x30 + d else 0x37 + d)

/-- The last `k` hexadecimal digits of a number: the format `%0kX` of a
number that has no more. -/
def hexPad : Nat → Nat → Text
  | 0, _ => []
  | k + 1, n => hexPad k (n / 16) ++ [hexDigit (n % 16)]

@[simp] theorem hexPad_length (k n : Nat) : (hexPad k n).length = k := by
  induction k generalizing n with
  | zero => rfl
  | succ k ih => simp [hexPad, ih]

/-- `%08X` -/
def hex8 (n : UInt32) : Text := hexPad 8 n.toNat

/-- The value of a character as a digit in some base. -/
def digitValue (c : UInt8) : Option Nat :=
  if 0x30 ≤ c ∧ c ≤ 0x39 then some (c.toNat - 0x30)
  else if 0x41 ≤ c ∧ c ≤ 0x5A then some (c.toNat - 0x37)
  else if 0x61 ≤ c ∧ c ≤ 0x7A then some (c.toNat - 0x57)
  else none

def digitIn (base : Nat) (c : UInt8) : Option Nat := (digitValue c).filter (· < base)

/-- The digits that a text starts with. -/
def numeral (base : Nat) : Text → List Nat
  | [] => []
  | c :: rest =>
      match digitIn base c with
      | some d => d :: numeral base rest
      | none => []

def value (base : Nat) (digits : List Nat) : Nat := digits.foldl (fun n d => base * n + d) 0

def isX (c : UInt8) : Bool := c = 0x78 ∨ c = 0x58

/-- Whether the text starts with `0x` and a hexadecimal digit. -/
def hexPrefix : Text → Bool
  | zero :: x :: d :: _ => zero = 0x30 ∧ isX x ∧ (digitIn 16 d).isSome
  | _ => false

/-- The base that a text is to be read in, and its digits. -/
def radix (base : Nat) (text : Text) : Nat × Text :=
  if (base = 0 ∨ base = 16) ∧ hexPrefix text then (16, text.drop 2)
  else if base = 0 then (if text.head? = some 0x30 then 8 else 10, text)
  else (base, text)

def ulongMax : Nat := 2 ^ 64 - 1

/-- `strtoul(text, 0, base)` with a 64-bit `unsigned long`. -/
def strtoul (base : Nat) (text : Text) : Nat :=
  let (negative, text) := sign (text.dropWhile isSpace)
  let (base, text) := radix base text
  let n := value base (numeral base text)
  if ulongMax < n then ulongMax
  else if negative then (2 ^ 64 - n) % 2 ^ 64 else n

/-! ## Reading back -/

theorem digitIn_hexDigit {d : Nat} (h : d < 16) : digitIn 16 (hexDigit d) = some d := by
  have hall : ∀ d : Fin 16, digitIn 16 (hexDigit d) = some d.val := by decide
  exact hall ⟨d, h⟩

theorem hexDigit_mem_range {d : Nat} (h : d < 16) :
    isSpace (hexDigit d) = false ∧ isX (hexDigit d) = false ∧ hexDigit d ≠ 0x2D
      ∧ hexDigit d ≠ 0x2B := by
  have hall : ∀ d : Fin 16, isSpace (hexDigit d) = false ∧ isX (hexDigit d) = false
      ∧ hexDigit d ≠ 0x2D ∧ hexDigit d ≠ 0x2B := by decide
  exact hall ⟨d, h⟩

theorem hexPad_mem {k n : Nat} {c : UInt8} (h : c ∈ hexPad k n) : ∃ d < 16, c = hexDigit d := by
  induction k generalizing n with
  | zero => cases h
  | succ k ih =>
      rw [hexPad, List.mem_append, List.mem_singleton] at h
      rcases h with h | h
      · exact ih h
      · exact ⟨n % 16, by omega, h⟩

theorem numeral_append {base : Nat} {text : Text} {digits : List Nat}
    (h : text.map (digitIn base) = digits.map some) (rest : Text) :
    numeral base (text ++ rest) = digits ++ numeral base rest := by
  induction text generalizing digits with
  | nil =>
      rw [List.map_nil, eq_comm, List.map_eq_nil_iff] at h
      rw [h]
      rfl
  | cons c text ih =>
      cases digits with
      | nil => cases h
      | cons d digits =>
          rw [List.map_cons, List.map_cons, List.cons.injEq] at h
          rw [List.cons_append, numeral, h.1, ih h.2]
          rfl

/-- The digits of `hexPad`. -/
def hexDigits : Nat → Nat → List Nat
  | 0, _ => []
  | k + 1, n => hexDigits k (n / 16) ++ [n % 16]

theorem hexPad_digits (k n : Nat) : (hexPad k n).map (digitIn 16) = (hexDigits k n).map some := by
  induction k generalizing n with
  | zero => rfl
  | succ k ih =>
      have hd : digitIn 16 (hexDigit (n % 16)) = some (n % 16) := digitIn_hexDigit (by omega)
      simp only [hexPad, hexDigits, List.map_append, ih, List.map_cons, List.map_nil, hd]

theorem value_hexDigits {k n : Nat} (h : n < 16 ^ k) : value 16 (hexDigits k n) = n := by
  induction k generalizing n with
  | zero =>
      rw [pow_zero, Nat.lt_one_iff] at h
      rw [h]
      rfl
  | succ k ih =>
      have hq : n / 16 < 16 ^ k := by
        rw [pow_succ] at h
        omega
      have hrest := ih hq
      simp only [value] at hrest ⊢
      rw [hexDigits, List.foldl_append, hrest, List.foldl_cons, List.foldl_nil]
      omega

/-- The first byte of a padded number, and what `strtoul` does not do there. -/
theorem hexPad_head {k : Nat} (hk : 0 < k) (n : Nat) (rest : Text) :
    (hexPad k n ++ rest).dropWhile isSpace = hexPad k n ++ rest
      ∧ sign (hexPad k n ++ rest) = (false, hexPad k n ++ rest) := by
  have hlen := hexPad_length k n
  cases hpad : hexPad k n with
  | nil =>
      rw [hpad] at hlen
      exact absurd hlen (by simp; omega)
  | cons c more =>
      obtain ⟨d, hd, rfl⟩ := hexPad_mem (hpad ▸ List.mem_cons_self : c ∈ hexPad k n)
      obtain ⟨hspace, -, hminus, hplus⟩ := hexDigit_mem_range hd
      refine ⟨by simp [hspace], ?_⟩
      rw [List.cons_append, sign]
      · exact fun _ h => hminus (List.cons.inj h).1
      · exact fun _ h => hplus (List.cons.inj h).1

/-- No `x` stands behind the first digit. -/
theorem hexPrefix_hexPad {k : Nat} (hk : 0 < k) (n : Nat) {c : UInt8} (hc : isX c = false)
    (rest : Text) : hexPrefix (hexPad k n ++ c :: rest) = false := by
  have hlen := hexPad_length k n
  rcases hpad : hexPad k n with _ | ⟨a, _ | ⟨b, more⟩⟩
  · rw [hpad] at hlen
    exact absurd hlen (by simp; omega)
  · cases rest with
    | nil => rfl
    | cons e rest => simp [hexPrefix, hc]
  · obtain ⟨d, hd, rfl⟩ := hexPad_mem (hpad ▸ by simp : b ∈ hexPad k n)
    have hb := (hexDigit_mem_range hd).2.1
    cases more with
    | nil => simp [hexPrefix, hb]
    | cons e more => simp [hexPrefix, hb]

/-- The digits of a padded number, up to a character that is none. -/
theorem value_hexPad {k n : Nat} (hn : n < 16 ^ k) {c : UInt8} (hdigit : digitIn 16 c = none)
    (rest : Text) : value 16 (numeral 16 (hexPad k n ++ c :: rest)) = n := by
  rw [numeral_append (hexPad_digits k n), numeral, hdigit, List.append_nil, value_hexDigits hn]

theorem not_ulongMax_lt {k n : Nat} (hk : k ≤ 16) (hn : n < 16 ^ k) : ¬ ulongMax < n := by
  have hpow : (16 : Nat) ^ k ≤ 16 ^ 16 := Nat.pow_le_pow_right (by omega) hk
  have hmax : (16 : Nat) ^ 16 = ulongMax + 1 := by decide
  omega

/-- **`strtoul` reads back what `%0kX` has written**, whatever stands behind
the character that ends the number. -/
theorem strtoul_hexPad {k n : Nat} (hk : 0 < k) (hk' : k ≤ 16) (hn : n < 16 ^ k) {c : UInt8}
    (hdigit : digitIn 16 c = none) (hx : isX c = false) (rest : Text) :
    strtoul 16 (hexPad k n ++ c :: rest) = n := by
  obtain ⟨hspace, hsign⟩ := hexPad_head hk n (c :: rest)
  have hradix : radix 16 (hexPad k n ++ c :: rest) = (16, hexPad k n ++ c :: rest) := by
    rw [radix, hexPrefix_hexPad hk n hx]
    rfl
  simp only [strtoul, hspace, hsign, hradix, value_hexPad hn hdigit]
  rw [if_neg (not_ulongMax_lt hk' hn)]
  rfl

/-- The same with `0x` in front and the base left open. -/
theorem strtoul_zero_hexPad {k n : Nat} (hk : 0 < k) (hk' : k ≤ 16) (hn : n < 16 ^ k) {c : UInt8}
    (hdigit : digitIn 16 c = none) (rest : Text) :
    strtoul 0 (0x30 :: 0x78 :: (hexPad k n ++ c :: rest)) = n := by
  have hprefix : hexPrefix (0x30 :: 0x78 :: (hexPad k n ++ c :: rest)) = true := by
    have hlen := hexPad_length k n
    cases hpad : hexPad k n with
    | nil =>
        rw [hpad] at hlen
        exact absurd hlen (by simp; omega)
    | cons a more =>
        obtain ⟨d, hd, rfl⟩ := hexPad_mem (hpad ▸ List.mem_cons_self : a ∈ hexPad k n)
        simp [hexPrefix, isX, digitIn_hexDigit hd]
  have hradix : radix 0 (0x30 :: 0x78 :: (hexPad k n ++ c :: rest))
      = (16, hexPad k n ++ c :: rest) := by
    rw [radix, hprefix]
    rfl
  have hspace : (0x30 :: 0x78 :: (hexPad k n ++ c :: rest) : Text).dropWhile isSpace
      = 0x30 :: 0x78 :: (hexPad k n ++ c :: rest) := by
    rw [List.dropWhile_cons_of_neg (by decide)]
  have hsign : sign (0x30 :: 0x78 :: (hexPad k n ++ c :: rest))
      = (false, 0x30 :: 0x78 :: (hexPad k n ++ c :: rest)) := rfl
  simp only [strtoul, hspace, hsign, hradix, value_hexPad hn hdigit]
  rw [if_neg (not_ulongMax_lt hk' hn)]
  rfl

theorem strtoul_hex8 (n : UInt32) (rest : Text) :
    strtoul 16 (hex8 n ++ newline :: rest) = n.toNat :=
  strtoul_hexPad (by decide) (by decide) n.toNat_lt (by decide) (by decide) rest

end Assignment.CString
