import Mathlib.Tactic.Common

/-!
# Structurally valid UTF-8

The byte sequences of the UTF-8 table (no overlong form, no surrogate,
nothing above U+10FFFF) as a scan that carries the bounds of the
continuation bytes it still expects. The recursion is structural in the
input, so the predicate evaluates in the kernel.
-/

namespace Assignment.Utf8

/-- The bounds of one expected continuation byte. -/
abbrev Bounds := UInt8 × UInt8

/-- Any continuation byte `10xxxxxx`. -/
def anyTail : Bounds := (0x80, 0xBF)

/-- The continuation bytes that a leading byte calls for. -/
def lead (a : UInt8) : Option (List Bounds) :=
  if a < 0x80 then some []
  else if a < 0xC2 then none
  else if a ≤ 0xDF then some [anyTail]
  else if a = 0xE0 then some [(0xA0, 0xBF), anyTail]
  else if a = 0xED then some [(0x80, 0x9F), anyTail]
  else if a ≤ 0xEF then some [anyTail, anyTail]
  else if a = 0xF0 then some [(0x90, 0xBF), anyTail, anyTail]
  else if a ≤ 0xF3 then some [anyTail, anyTail, anyTail]
  else if a = 0xF4 then some [(0x80, 0x8F), anyTail, anyTail]
  else none

/-- Whether the input completes the expected continuation bytes and goes on
with well-formed code points. -/
def scan : List Bounds → List UInt8 → Bool
  | [], [] => true
  | _ :: _, [] => false
  | [], a :: rest => match lead a with
      | some need => scan need rest
      | none => false
  | (low, high) :: need, b :: rest => decide (low ≤ b) && decide (b ≤ high) && scan need rest

def valid (bytes : List UInt8) : Bool := scan [] bytes

/-- Plain ASCII is valid. -/
theorem valid_of_ascii {bytes : List UInt8} (h : ∀ b ∈ bytes, b < 0x80) :
    valid bytes = true := by
  induction bytes with
  | nil => rfl
  | cons a rest ih =>
      have ha : lead a = some [] := if_pos (h a (by simp))
      rw [valid, scan, ha]
      exact ih (fun b hb => h b (by simp [hb]))

example : valid [0x66, 0xC3, 0xBC, 0xE2, 0x82, 0xAC, 0xF0, 0x9F, 0x98, 0x80] = true := by decide

end Assignment.Utf8
