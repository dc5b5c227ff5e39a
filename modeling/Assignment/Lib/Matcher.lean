import Mathlib

/-!
# A matcher that starts again

`feed r s bs` looks for the reference `r` in a stream, a character at a
time: the state `s` is how much of `r` has just been seen; the next
character of `r` advances it, any other character throws it back to the
start, where it may count as the first character of `r`; once all of `r`
has been seen the state stays. How the stream is cut into chunks does not
matter (`feed_append`), and what is found is there (`feed_sound`). But a
match that begins inside a failed one is missed: the matcher finds every
occurrence exactly when the reference lets it start again
(`finds_iff_restarts`), for instance when its first character occurs in it
only once (`restarts_of_head`).
-/

namespace Assignment.Matcher

variable {α : Type*} [DecidableEq α]

/-- The state after one more character. -/
def next (r : List α) (s : Nat) (b : α) : Nat :=
  match r[s]? with
  | none => s
  | some c => if c = b then s + 1 else if r.head? = some b then 1 else 0

/-- The state after more of the stream. -/
def feed (r : List α) (s : Nat) (bs : List α) : Nat := bs.foldl (next r) s

variable {r : List α} {s : Nat} {b : α} {bs : List α}

/-! ## Steps -/

theorem next_full (h : r.length ≤ s) : next r s b = s := by
  rw [next, List.getElem?_eq_none h]

theorem next_of_eq (h : r[s]? = some b) : next r s b = s + 1 := by
  rw [next, h]
  exact if_pos rfl

theorem next_of_ne (hs : s < r.length) (h : r[s]? ≠ some b) :
    next r s b = if r.head? = some b then 1 else 0 := by
  have hget : r[s]? = some r[s] := List.getElem?_eq_getElem hs
  rw [hget] at h
  rw [next, hget]
  exact if_neg fun heq => h (congrArg some heq)

theorem feed_append (r : List α) (s : Nat) (bs more : List α) :
    feed r s (bs ++ more) = feed r (feed r s bs) more :=
  List.foldl_append

theorem feed_snoc (r : List α) (s : Nat) (bs : List α) (b : α) :
    feed r s (bs ++ [b]) = next r (feed r s bs) b := by
  rw [feed_append]
  rfl

theorem feed_full (h : r.length ≤ s) (bs : List α) : feed r s bs = s := by
  induction bs with
  | nil => rfl
  | cons b bs ih =>
      rw [feed, List.foldl_cons, next_full h]
      exact ih

theorem next_le_succ (r : List α) (s : Nat) (b : α) : next r s b ≤ s + 1 := by
  rw [next]
  split
  · omega
  · split
    · omega
    · split <;> omega

theorem feed_le (r : List α) (s : Nat) (bs : List α) : feed r s bs ≤ s + bs.length := by
  induction bs generalizing s with
  | nil => exact Nat.le_refl s
  | cons b bs ih =>
      have hnext := next_le_succ r s b
      have hrest : feed r s (b :: bs) ≤ next r s b + bs.length := ih (next r s b)
      rw [List.length_cons]
      omega

omit [DecidableEq α] in
theorem take_succ_of_get (h : r[s]? = some b) : r.take (s + 1) = r.take s ++ [b] := by
  rw [List.take_add_one, h]
  rfl

/-- The reference itself is followed to its end. -/
theorem feed_take (hs : s ≤ r.length) : feed r 0 (r.take s) = s := by
  induction s with
  | zero => rfl
  | succ s ih =>
      have hget : r[s]? = some r[s] := List.getElem?_eq_getElem hs
      rw [take_succ_of_get hget, feed_snoc, ih (by omega), next_of_eq hget]

/-! ## What is found is there -/

/-- **Soundness**: the state is what has just been seen of the reference, or all
of it has been. -/
theorem feed_sound (r bs : List α) :
    feed r 0 bs = r.length ∧ r <:+: bs
      ∨ feed r 0 bs < r.length ∧ r.take (feed r 0 bs) <:+ bs := by
  have hseen {k : Nat} {bs : List α} (hk : k ≤ r.length) (hsuffix : r.take k <:+ bs) :
      k = r.length ∧ r <:+: bs ∨ k < r.length ∧ r.take k <:+ bs := by
    rcases Nat.lt_or_eq_of_le hk with hlt | rfl
    · exact .inr ⟨hlt, hsuffix⟩
    · rw [List.take_length] at hsuffix
      exact .inl ⟨rfl, hsuffix.isInfix⟩
  induction bs using List.reverseRecOn with
  | nil => exact hseen (Nat.zero_le _) List.suffix_rfl
  | append_singleton bs b ih =>
      rw [feed_snoc]
      rcases ih with ⟨hfull, hinfix⟩ | ⟨hlt, hsuffix⟩
      · left
        rw [next_full hfull.ge]
        exact ⟨hfull, hinfix.trans (List.prefix_append bs [b]).isInfix⟩
      · -- what has been seen grows by `b`, or is `b`, or nothing
        by_cases hnext : r[feed r 0 bs]? = some b
        · rw [next_of_eq hnext]
          refine hseen hlt ?_
          rw [take_succ_of_get hnext]
          exact List.suffix_append_self_iff.mpr hsuffix
        · rw [next_of_ne hlt hnext]
          split
          · rename_i hhead
            refine hseen (by omega) ?_
            rw [List.head?_eq_getElem?] at hhead
            rw [take_succ_of_get hhead]
            exact List.suffix_append bs [b]
          · exact hseen (Nat.zero_le _) (List.nil_suffix)

/-! ## What is there is found -/

/-- Where a match of the reference fails, no other has begun before the
character that made it fail. -/
def Restarts (r : List α) : Prop :=
  ∀ (s : Nat) (b : α) (k : Nat), s < r.length → r[s]? ≠ some b → 2 ≤ k → k ≤ r.length →
    ¬ r.take k <:+ r.take s ++ [b]

/-- The state is all that could have been seen of the reference. -/
theorem feed_longest (hr : Restarts r) (bs : List α) (h : feed r 0 bs < r.length) :
    ¬ r <:+: bs ∧ ∀ k ≤ r.length, r.take k <:+ bs → k ≤ feed r 0 bs := by
  induction bs using List.reverseRecOn with
  | nil =>
      have hne : r ≠ [] := List.ne_nil_of_length_pos (Nat.lt_of_le_of_lt (Nat.zero_le _) h)
      refine ⟨fun hinfix => hne (List.infix_nil.mp hinfix), fun k _ hsuffix => ?_⟩
      rcases List.take_eq_nil_iff.mp (List.suffix_nil.mp hsuffix) with rfl | hnil
      · exact Nat.zero_le _
      · exact absurd hnil hne
  | append_singleton bs b ih =>
      rw [feed_snoc] at h ⊢
      obtain ⟨hfull, -⟩ | ⟨hlt, hseen⟩ := feed_sound r bs
      · rw [next_full hfull.ge, hfull] at h
        exact absurd h (Nat.lt_irrefl _)
      · obtain ⟨hnot, hmax⟩ := ih hlt
        have hbound : ∀ k ≤ r.length, r.take k <:+ bs ++ [b] → k ≤ next r (feed r 0 bs) b := by
          intro k hk hsuffix
          cases k with
          | zero => exact Nat.zero_le _
          | succ j =>
              have hget : r[j]? = some r[j] := List.getElem?_eq_getElem hk
              -- without its last character it could have been seen before
              obtain ⟨rfl, hj⟩ : r[j] = b ∧ r.take j <:+ bs := by
                rw [take_succ_of_get hget] at hsuffix
                rcases List.suffix_concat_iff.mp hsuffix with hnil | ⟨front, heq, hfront⟩
                · exact absurd hnil (List.concat_ne_nil _ _)
                · obtain ⟨hlist, hlast⟩ := List.append_inj' heq rfl
                  exact ⟨(List.cons.inj hlast).1, hlist ▸ hfront⟩
              have hle := hmax j (by omega) hj
              by_cases hnext : r[feed r 0 bs]? = some r[j]
              · rw [next_of_eq hnext]
                omega
              · have hinside : r.take j <:+ r.take (feed r 0 bs) := by
                  refine List.suffix_of_suffix_length_le hj hseen ?_
                  rw [List.length_take, List.length_take]
                  omega
                have hshort : ¬ 2 ≤ j + 1 := fun hlong =>
                  hr _ r[j] (j + 1) hlt hnext hlong hk (by
                    rw [take_succ_of_get hget]
                    exact List.suffix_append_self_iff.mpr hinside)
                obtain rfl : j = 0 := by omega
                rw [next_of_ne hlt hnext, List.head?_eq_getElem?, hget, if_pos rfl]
        refine ⟨fun hinfix => ?_, hbound⟩
        rcases List.infix_concat_iff.mp hinfix with hsuffix | hinfix
        · have hle := hbound r.length le_rfl (by rwa [List.take_length])
          omega
        · exact hnot hinfix

/-- A match that begins inside a failed one, carried on to its end, is missed. -/
theorem missed {k : Nat} (hs : s < r.length) (hne : r[s]? ≠ some b) (hlong : 2 ≤ k)
    (hk : k ≤ r.length) (hsuffix : r.take k <:+ r.take s ++ [b]) :
    r <:+: r.take s ++ [b] ++ r.drop k
      ∧ feed r 0 (r.take s ++ [b] ++ r.drop k) < r.length := by
  obtain ⟨front, hfront⟩ := hsuffix
  constructor
  · refine ⟨front, [], ?_⟩
    rw [← hfront, List.append_nil, List.append_assoc, List.take_append_drop]
  · rw [feed_append, feed_snoc, feed_take (by omega), next_of_ne hs hne]
    have hle := feed_le r (if r.head? = some b then 1 else 0) (r.drop k)
    rw [List.length_drop] at hle
    split at hle
    · rw [if_pos ‹_›]
      omega
    · rw [if_neg ‹_›]
      omega

/-- **Every occurrence is found**, whatever the stream, exactly when the
reference lets the matcher start again. -/
theorem finds_iff_restarts (r : List α) :
    (∀ bs, feed r 0 bs = r.length ↔ r <:+: bs) ↔ Restarts r := by
  constructor
  · intro hfinds s b k hs hne hlong hk hsuffix
    obtain ⟨hthere, hlt⟩ := missed hs hne hlong hk hsuffix
    exact absurd ((hfinds _).mpr hthere) (Nat.ne_of_lt hlt)
  · intro hr bs
    constructor
    · intro hfull
      rcases feed_sound r bs with ⟨-, hinfix⟩ | ⟨hlt, -⟩
      · exact hinfix
      · omega
    · intro hinfix
      by_contra hne
      have hlt : feed r 0 bs < r.length := by
        rcases feed_sound r bs with ⟨hfull, -⟩ | ⟨hlt, -⟩
        · exact absurd hfull hne
        · exact hlt
      exact (feed_longest hr bs hlt).1 hinfix

theorem feed_eq_length_iff (hr : Restarts r) (bs : List α) :
    feed r 0 bs = r.length ↔ r <:+: bs :=
  (finds_iff_restarts r).mpr hr bs

omit [DecidableEq α] in
/-- A reference whose first character does not occur in it again. -/
theorem restarts_of_head {c : α} {t : List α} (hc : c ∉ t) : Restarts (c :: t) := by
  intro s b k hs hne hlong hk hsuffix
  obtain ⟨front, hfront⟩ := hsuffix
  cases front with
  | nil =>
      -- nothing in front: the character did not fail
      have hlen := congrArg List.length hfront
      simp only [List.nil_append, List.length_append, List.length_take, List.length_singleton] at hlen
      obtain rfl : k = s + 1 := by omega
      have hget : (c :: t)[s]? = some (c :: t)[s] := List.getElem?_eq_getElem hs
      rw [List.nil_append, take_succ_of_get hget] at hfront
      have hlast := (List.append_inj' hfront rfl).2
      exact hne (hget.trans (congrArg some (List.cons.inj hlast).1))
  | cons d front =>
      -- the first character again, before the one that failed
      cases s with
      | zero =>
          have hlen := congrArg List.length hfront
          simp only [List.cons_append, List.length_cons, List.length_append, List.length_take,
            List.take_zero, List.length_nil] at hlen
          omega
      | succ s =>
          obtain ⟨k, rfl⟩ : ∃ j, k = j + 2 := ⟨k - 2, by omega⟩
          rw [List.take_succ_cons, List.take_succ_cons, List.cons_append, List.cons_append] at hfront
          have htail := congrArg List.dropLast (List.cons.inj hfront).2
          have hbehind : t.take (k + 1) ≠ [] := by
            rw [Ne, List.take_eq_nil_iff]
            rintro (hzero | rfl)
            · omega
            · simp at hk
          rw [List.dropLast_concat, List.dropLast_append_of_ne_nil (List.cons_ne_nil _ _),
            List.dropLast_cons_of_ne_nil hbehind] at htail
          have hmem : c ∈ t.take s := by
            rw [← htail]
            simp
          exact hc (List.mem_of_mem_take hmem)

end Assignment.Matcher
