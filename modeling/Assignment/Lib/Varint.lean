import Mathlib

/-!
# Base-128 varints

Seven payload bits a byte, lowest group first, the top bit set on every
byte but the last. `encode` writes the shortest form, `decode` reads any
form, and both carry an explicit bound on the number of groups, so that a
reader which gives up after ten bytes and a writer of 32-bit values are
instances of the same two functions.
-/

namespace Assignment.Varint

/-- The varint of `n`, in at most `fuel + 1` groups (the higher groups of a
larger `n` are dropped). -/
def encode : Nat → Nat → List UInt8
  | 0, n => [UInt8.ofNat (n % 128)]
  | fuel + 1, n =>
      if n < 128 then [UInt8.ofNat n]
      else UInt8.ofNat (n % 128 + 128) :: encode fuel (n / 128)

/-- The number at the front of the input and the bytes after it; `none`
when the input ends inside the number, or after `fuel + 1` groups without
a last one. -/
def decode : Nat → List UInt8 → Option (Nat × List UInt8)
  | _, [] => none
  | 0, b :: rest => if b.toNat < 128 then some (b.toNat, rest) else none
  | fuel + 1, b :: rest =>
      if b.toNat < 128 then some (b.toNat, rest)
      else (decode fuel rest).map fun p => (b.toNat % 128 + 128 * p.1, p.2)

theorem toNat_ofNat {n : Nat} (h : n < 256) : (UInt8.ofNat n).toNat = n := by
  simp [Nat.mod_eq_of_lt h]

/-! ## The writer -/

theorem encode_ne_nil (fuel n : Nat) : encode fuel n ≠ [] := by
  cases fuel with
  | zero => simp [encode]
  | succ fuel =>
      rw [encode]
      split <;> simp

/-- One group less. -/
theorem div_lt_of_groups {fuel n : Nat} (hn : n < 2 ^ (7 * (fuel + 1 + 1))) :
    n / 128 < 2 ^ (7 * (fuel + 1)) := by
  rw [Nat.div_lt_iff_lt_mul (by omega)]
  calc n < 2 ^ (7 * (fuel + 1 + 1)) := hn
    _ = 2 ^ (7 * (fuel + 1)) * 128 := by
        rw [show 7 * (fuel + 1 + 1) = 7 * (fuel + 1) + 7 from by omega, Nat.pow_add]

/-- **Minimality**: the number of groups is the least that holds the value. -/
theorem encode_length_le_iff (fuel n k : Nat) (hn : n < 2 ^ (7 * (fuel + 1))) :
    (encode fuel n).length ≤ k + 1 ↔ n < 2 ^ (7 * (k + 1)) := by
  have hpow : ∀ k, 2 ^ 7 ≤ 2 ^ (7 * (k + 1)) :=
    fun k => Nat.pow_le_pow_right (by omega) (by omega)
  induction fuel generalizing n k with
  | zero =>
      have hk := hpow k
      simp only [encode, List.length_singleton]
      omega
  | succ fuel ih =>
      have hk := hpow k
      rw [encode]
      by_cases hsmall : n < 128
      · rw [if_pos hsmall]
        simp only [List.length_singleton]
        omega
      · rw [if_neg hsmall, List.length_cons]
        cases k with
        | zero =>
            have hpos : 0 < (encode fuel (n / 128)).length :=
              List.length_pos_iff.mpr (encode_ne_nil fuel (n / 128))
            omega
        | succ k =>
            have hstep := ih (n / 128) k (div_lt_of_groups hn)
            rw [Nat.div_lt_iff_lt_mul (by omega)] at hstep
            rw [show 7 * (k + 1 + 1) = 7 * (k + 1) + 7 from by omega, Nat.pow_add]
            omega

/-! ## The reader -/

/-- A byte with a clear top bit is the last one. -/
theorem decode_last (fuel : Nat) {b : UInt8} (hb : b.toNat < 128) (rest : List UInt8) :
    decode fuel (b :: rest) = some (b.toNat, rest) := by
  cases fuel with
  | zero => rw [decode, if_pos hb]
  | succ fuel => rw [decode, if_pos hb]

/-- Any other byte is one group of the number. -/
theorem decode_more (fuel : Nat) {b : UInt8} (hb : ¬ b.toNat < 128) (rest : List UInt8) :
    decode (fuel + 1) (b :: rest)
      = (decode fuel rest).map fun p => (b.toNat % 128 + 128 * p.1, p.2) := by
  rw [decode, if_neg hb]

/-- How a number was read. -/
theorem decode_cases {fuel : Nat} {b : UInt8} {tail rest : List UInt8} {n : Nat}
    (h : decode fuel (b :: tail) = some (n, rest)) :
    (b.toNat < 128 ∧ n = b.toNat ∧ rest = tail)
      ∨ ∃ fuel' m, fuel = fuel' + 1 ∧ ¬ b.toNat < 128 ∧ decode fuel' tail = some (m, rest)
        ∧ n = b.toNat % 128 + 128 * m := by
  by_cases hb : b.toNat < 128
  · rw [decode_last fuel hb] at h
    cases h
    exact .inl ⟨hb, rfl, rfl⟩
  · cases fuel with
    | zero => simp [decode, hb] at h
    | succ fuel =>
        rw [decode_more fuel hb] at h
        obtain ⟨⟨m, r⟩, hd, hm⟩ := Option.map_eq_some_iff.mp h
        cases hm
        exact .inr ⟨fuel, m, rfl, hb, hd, rfl⟩

/-- Reading back what was written, whatever follows it, with at least as
many groups allowed as the writer had. -/
theorem decode_encode_of_le {fuel fuel' : Nat} (hle : fuel ≤ fuel') (n : Nat)
    (rest : List UInt8) (hn : n < 2 ^ (7 * (fuel + 1))) :
    decode fuel' (encode fuel n ++ rest) = some (n, rest) := by
  induction fuel generalizing fuel' n with
  | zero =>
      have hb : (UInt8.ofNat (n % 128)).toNat = n := by
        rw [toNat_ofNat (by omega), Nat.mod_eq_of_lt (by omega)]
      rw [encode, List.singleton_append, decode_last _ (by omega), hb]
  | succ fuel ih =>
      obtain ⟨fuel', rfl⟩ := Nat.exists_eq_succ_of_ne_zero (show fuel' ≠ 0 by omega)
      rw [encode]
      by_cases hsmall : n < 128
      · have hb : (UInt8.ofNat n).toNat = n := toNat_ofNat (by omega)
        rw [if_pos hsmall, List.singleton_append, decode_last _ (by omega), hb]
      · have hb : (UInt8.ofNat (n % 128 + 128)).toNat = n % 128 + 128 := toNat_ofNat (by omega)
        rw [if_neg hsmall, List.cons_append, decode_more _ (by omega), hb,
          ih (by omega) _ (div_lt_of_groups hn)]
        simp only [Option.map_some, Option.some.injEq, Prod.mk.injEq, and_true]
        omega

theorem decode_encode (fuel n : Nat) (rest : List UInt8) (h : n < 2 ^ (7 * (fuel + 1))) :
    decode fuel (encode fuel n ++ rest) = some (n, rest) :=
  decode_encode_of_le (Nat.le_refl fuel) n rest h

/-- What was read does not depend on what follows it. -/
theorem decode_append (fuel : Nat) {input rest : List UInt8} {n : Nat} (more : List UInt8)
    (h : decode fuel input = some (n, rest)) :
    decode fuel (input ++ more) = some (n, rest ++ more) := by
  induction input generalizing fuel n with
  | nil => cases fuel <;> cases h
  | cons b tail ih =>
      rcases decode_cases h with ⟨hb, rfl, rfl⟩ | ⟨fuel, m, rfl, hb, hd, rfl⟩
      · exact decode_last fuel hb _
      · rw [List.cons_append, decode_more fuel hb, ih fuel hd]
        rfl

/-- An input of continuation bytes only ends inside the number. -/
theorem decode_incomplete (fuel : Nat) {input : List UInt8} (h : ∀ b ∈ input, 128 ≤ b.toNat) :
    decode fuel input = none := by
  induction input generalizing fuel with
  | nil => cases fuel <;> rfl
  | cons b tail ih =>
      have hb := h b (by simp)
      cases fuel with
      | zero => rw [decode, if_neg (by omega)]
      | succ fuel =>
          rw [decode_more fuel (by omega), ih fuel (fun x hx => h x (by simp [hx]))]
          rfl

/-- A last byte within reach completes the number, which then has seven
bits a byte. -/
theorem decode_complete (fuel : Nat) {front : List UInt8} {b : UInt8} (hlen : front.length ≤ fuel)
    (hfront : ∀ x ∈ front, 128 ≤ x.toNat) (hb : b.toNat < 128) :
    ∃ n, n < 2 ^ (7 * (front.length + 1)) ∧ decode fuel (front ++ [b]) = some (n, []) := by
  induction front generalizing fuel with
  | nil => exact ⟨b.toNat, by simpa using hb, decode_last fuel hb []⟩
  | cons x front ih =>
      rw [List.length_cons] at hlen
      obtain ⟨fuel, rfl⟩ := Nat.exists_eq_succ_of_ne_zero (show fuel ≠ 0 by omega)
      have hx := hfront x (by simp)
      obtain ⟨n, hn, hd⟩ := ih fuel (by omega) (fun y hy => hfront y (by simp [hy]))
      refine ⟨x.toNat % 128 + 128 * n, ?_, ?_⟩
      · rw [List.length_cons, show 7 * (front.length + 1 + 1)
          = 7 * (front.length + 1) + 7 from by omega, Nat.pow_add]
        have hmod : x.toNat % 128 < 128 := Nat.mod_lt _ (by omega)
        omega
      · rw [List.cons_append, decode_more fuel (by omega), hd]
        rfl

/-- The reader consumes at least one byte. -/
theorem decode_shortens (fuel : Nat) {input rest : List UInt8} {n : Nat}
    (h : decode fuel input = some (n, rest)) : rest.length < input.length := by
  induction input generalizing fuel n with
  | nil => cases fuel <;> cases h
  | cons b tail ih =>
      rcases decode_cases h with ⟨-, -, rfl⟩ | ⟨fuel, m, rfl, -, hd, -⟩
      · exact Nat.lt_succ_self _
      · exact Nat.lt_succ_of_lt (ih fuel hd)

end Assignment.Varint
