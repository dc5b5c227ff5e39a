import Mathlib

/-!
# Fixed-size buffers

A C array as a list that never changes its length: `overwrite` stores a
run of elements from index `0` on and drops what does not fit. The array
sizes of this development come from the length of the list, so the one
invariant a buffer has is `overwrite_length`.
-/

namespace Assignment.Buffer

variable {α : Type*}

/-- Store `src` at the front of the array `dst`, as far as it fits. -/
def overwrite (dst src : List α) : List α :=
  src.take dst.length ++ dst.drop src.length

@[simp] theorem overwrite_length (dst src : List α) :
    (overwrite dst src).length = dst.length := by
  simp only [overwrite, List.length_append, List.length_take, List.length_drop]
  omega

theorem overwrite_of_le {dst src : List α} (h : src.length ≤ dst.length) :
    overwrite dst src = src ++ dst.drop src.length := by
  rw [overwrite, List.take_of_length_le h]

/-- A full overwrite leaves nothing of the old content. -/
theorem overwrite_of_length_eq {dst src : List α} (h : src.length = dst.length) :
    overwrite dst src = src := by
  rw [overwrite_of_le (by omega), List.drop_eq_nil_of_le (by omega), List.append_nil]

/-- The elements that were stored, read back. -/
theorem take_overwrite {dst src : List α} (h : src.length ≤ dst.length) :
    (overwrite dst src).take src.length = src := by
  rw [overwrite_of_le h, List.take_left]

/-! ## Up to an element -/

/-- A list cut at its first element without the property. -/
theorem cut_at_first {P : α → Prop} {l : List α} (h : ∃ x ∈ l, ¬ P x) :
    ∃ front x rest, l = front ++ x :: rest ∧ (∀ y ∈ front, P y) ∧ ¬ P x := by
  classical
  have hsome : (l.find? fun x => !decide (P x)).isSome := by simpa using h
  obtain ⟨x, hfind⟩ := Option.isSome_iff_exists.mp hsome
  obtain ⟨hx, front, rest, rfl, hfront⟩ := List.find?_eq_some_iff_append.mp hfind
  exact ⟨front, x, rest, rfl, by simpa using hfront, by simpa using hx⟩

end Assignment.Buffer
