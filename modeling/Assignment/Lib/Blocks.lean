import Mathlib.Data.List.Nodup

/-!
# Logs in blocks

A log whose entries carry a key, for instance the party they belong to. It
is in blocks when it is the entries of one key, then those of another, and
so on, each key's entries in one piece.
-/

namespace Assignment.Blocks

variable {α κ : Type*} [DecidableEq κ] (key : α → κ)

/-- The entries of each key in turn. -/
def blocks (order : List κ) (log : List α) : List α :=
  order.flatMap fun k => log.filter fun e => key e = k

/-- **In blocks**: for some order of the keys, the log is its own entries
sorted by key. -/
def InBlocks (log : List α) : Prop := ∃ order : List κ, order.Nodup ∧ log = blocks key order log

variable {key}

/-- Only entries of the listed keys are in the blocks. -/
theorem key_mem_of_mem_blocks {order : List κ} {log : List α} {e : α}
    (h : e ∈ blocks key order log) : key e ∈ order := by
  obtain ⟨k, hk, he⟩ := List.mem_flatMap.mp h
  have hkey := (List.mem_filter.mp he).2
  rw [decide_eq_true_eq] at hkey
  rw [hkey]
  exact hk

/-- A key without entries may come last. -/
theorem blocks_unused {order : List κ} {log : List α} {k : κ} (h : ∀ e ∈ log, key e ≠ k) :
    blocks key (order ++ [k]) log = blocks key order log := by
  have hnone : log.filter (fun e => key e = k) = [] := by
    simpa [List.filter_eq_nil_iff] using h
  rw [blocks, List.flatMap_append, List.flatMap_singleton, hnone, List.append_nil, blocks]

/-- One more entry of the last key. -/
theorem blocks_snoc {order : List κ} {log : List α} {e : α} {k : κ} (hkey : key e = k)
    (h : k ∉ order) :
    blocks key (order ++ [k]) (log ++ [e]) = blocks key (order ++ [k]) log ++ [e] := by
  subst hkey
  have hothers : ∀ k ∈ order, (log ++ [e]).filter (fun e' => key e' = k)
      = log.filter fun e' => key e' = k := by
    intro k hk
    have hne : key e ≠ k := fun heq => h (heq ▸ hk)
    simp [List.filter_append, hne]
  simp only [blocks, List.flatMap_append, List.flatMap_singleton, List.append_assoc]
  congr 1
  · exact List.flatMap_congr hothers
  · simp [List.filter_append]

end Assignment.Blocks
