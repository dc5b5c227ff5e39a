import Mathlib

/-!
# Runs of a labelled step function

`step l s = some s'` says that the action `l` is enabled in `s` and leads
to `s'`; an interleaving of several parties is one list of such actions.
`Reaches step ok s₀ s` is a run from `s₀` to `s` in which every action was
taken in a state that satisfies the side condition `ok`. Safety over runs
is then the rule `Reaches.invariant`: establish at the start, preserve by
one step. `exec` takes a given list of actions, and `exec_length_le` is the rule that
bounds the length of such a list by a measure that every step lowers.
-/

namespace Assignment.Runs

variable {S L : Type*}

/-- The states reachable from `s₀` by steps that meet `ok` when taken. -/
inductive Reaches (step : L → S → Option S) (ok : L → S → Prop) (s₀ : S) : S → Prop
  | start : Reaches step ok s₀ s₀
  | step {s s' : S} {l : L} : Reaches step ok s₀ s → ok l s → step l s = some s' →
      Reaches step ok s₀ s'

/-- The side condition that allows everything. -/
def anyStep (_ : L) (_ : S) : Prop := True

instance (l : L) (s : S) : Decidable (anyStep l s) := inferInstanceAs (Decidable True)

variable {step : L → S → Option S} {ok : L → S → Prop} {s₀ s : S}

/-- **The invariant rule.** -/
theorem Reaches.invariant (I : S → Prop) (start : I s₀)
    (preserved : ∀ l s s', I s → ok l s → step l s = some s' → I s')
    (h : Reaches step ok s₀ s) : I s := by
  induction h with
  | start => exact start
  | step _ hok hs ih => exact preserved _ _ _ ih hok hs

/-- A run under one condition is a run under a weaker one. -/
theorem Reaches.mono {weaker : L → S → Prop} (hok : ∀ l s, ok l s → weaker l s)
    (h : Reaches step ok s₀ s) : Reaches step weaker s₀ s := by
  induction h with
  | start => exact .start
  | step _ hl hs ih => exact ih.step (hok _ _ hl) hs

/-- A run goes on where another one has ended. -/
theorem Reaches.trans {t : S} (h : Reaches step ok s₀ s) (ht : Reaches step ok s t) :
    Reaches step ok s₀ t := by
  induction ht with
  | start => exact h
  | step _ hl hs ih => exact ih.step hl hs

/-- Take the actions of a list one after the other, each in a state that
meets `ok`. -/
def exec (step : L → S → Option S) (ok : L → S → Prop) [∀ l s, Decidable (ok l s)] :
    List L → S → Option S
  | [], s => some s
  | l :: ls, s => if ok l s then (step l s).bind (exec step ok ls) else none

theorem Reaches.exec [∀ l s, Decidable (ok l s)] {ls : List L} {s' : S}
    (h : Reaches step ok s₀ s) (he : exec step ok ls s = some s') : Reaches step ok s₀ s' := by
  induction ls generalizing s with
  | nil =>
      cases he
      exact h
  | cons l ls ih =>
      rw [Runs.exec] at he
      split at he
      · rename_i hok
        obtain ⟨t, hstep, hrest⟩ := Option.bind_eq_some_iff.mp he
        exact ih (h.step hok hstep) hrest
      · cases he

/-- **A list of actions is a run.** -/
theorem reaches_of_exec [∀ l s, Decidable (ok l s)] {ls : List L}
    (he : exec step ok ls s₀ = some s) : Reaches step ok s₀ s :=
  Reaches.start.exec he

/-- **The measure rule**: under an invariant, a run of steps that lower a
measure is no longer than the measure it starts from. -/
theorem exec_length_le [∀ l s, Decidable (ok l s)] (I : S → Prop) (measure : S → Nat)
    (lowers : ∀ l s s', I s → ok l s → step l s = some s' → I s' ∧ measure s' < measure s)
    {ls : List L} {s' : S} (hI : I s) (he : exec step ok ls s = some s') :
    I s' ∧ ls.length + measure s' ≤ measure s := by
  induction ls generalizing s with
  | nil =>
      cases he
      exact ⟨hI, by simp⟩
  | cons l ls ih =>
      rw [Runs.exec] at he
      split at he
      · rename_i hok
        obtain ⟨t, hstep, hrest⟩ := Option.bind_eq_some_iff.mp he
        obtain ⟨hIt, hlt⟩ := lowers l s t hI hok hstep
        obtain ⟨hI', hle⟩ := ih hIt hrest
        refine ⟨hI', ?_⟩
        rw [List.length_cons]
        omega
      · cases he

/-- The total weight of the parties when one of them changes. -/
theorem sum_map_set {α : Type*} (weight : α → Nat) {parties : List α} {i : Nat} {a b : α}
    (h : parties[i]? = some a) :
    ((parties.set i b).map weight).sum + weight a = (parties.map weight).sum + weight b := by
  induction parties generalizing i with
  | nil => cases h
  | cons c parties ih =>
      cases i with
      | zero =>
          cases h
          simp only [List.set_cons_zero, List.map_cons, List.sum_cons]
          omega
      | succ i =>
          have hrest := ih (List.getElem?_cons_succ ▸ h)
          simp only [List.set_cons_succ, List.map_cons, List.sum_cons]
          omega

end Assignment.Runs
