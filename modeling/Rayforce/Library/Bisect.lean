import Mathlib

/-! Binary search for the point where a test turns true. -/

namespace Rayforce.Library.Bisect

def bisect (below : ℕ → Bool) : ℕ → ℕ → ℕ → ℕ
  | 0, lo, _ => lo
  | fuel + 1, lo, hi =>
    if lo < hi then
      let mid := lo + (hi - lo) / 2
      if below mid then bisect below fuel (mid + 1) hi else bisect below fuel lo mid
    else lo

variable {below : ℕ → Bool} {fuel lo hi : ℕ}

lemma bisect_spec (hmono : ∀ i j, lo ≤ i → i ≤ j → j < hi → below j = true → below i = true)
    (hle : lo ≤ hi) (hfuel : hi - lo ≤ fuel) : lo ≤ bisect below fuel lo hi ∧ bisect below fuel lo hi ≤ hi ∧
      (∀ i, lo ≤ i → i < bisect below fuel lo hi → below i = true) ∧
      ∀ i, bisect below fuel lo hi ≤ i → i < hi → below i = false := by
  induction fuel generalizing lo hi with
  | zero =>
    obtain rfl : lo = hi := by omega
    refine ⟨le_rfl, le_rfl, fun i h1 h2 => ?_, fun i h1 h2 => ?_⟩
    · exact absurd (h1.trans_lt h2) (lt_irrefl _)
    · exact absurd (h1.trans_lt h2) (lt_irrefl _)
  | succ fuel ih =>
    simp only [bisect]
    by_cases hlt : lo < hi
    · rw [if_pos hlt]
      obtain ⟨mid, hmid⟩ : ∃ mid, mid = lo + (hi - lo) / 2 := ⟨_, rfl⟩
      rw [← hmid]
      cases hb : below mid with
      | true =>
        obtain ⟨h1, h2, h3, h4⟩ := @ih (mid + 1) hi (fun i j h => hmono i j (by omega)) (by omega) (by omega)
        rw [if_pos rfl]
        refine ⟨by omega, h2, fun i hi1 hi2 => ?_, h4⟩
        rcases Nat.lt_or_ge mid i with hi3 | hi3
        · exact h3 i hi3 hi2
        · exact hmono i mid hi1 hi3 (by omega) hb
      | false =>
        have hmono' : ∀ i j, lo ≤ i → i ≤ j → j < mid → below j = true → below i = true :=
          fun i j h hij hj => hmono i j h hij (by omega)
        obtain ⟨h1, h2, h3, h4⟩ := @ih lo mid hmono' (by omega) (by omega)
        rw [if_neg Bool.false_ne_true]
        refine ⟨h1, by omega, h3, fun i hi1 hi2 => ?_⟩
        rcases Nat.lt_or_ge i mid with hi3 | hi3
        · exact h4 i hi1 hi3
        · by_contra hne
          rw [Bool.not_eq_false] at hne
          rw [hmono mid i (by omega) hi3 hi2 hne] at hb
          cases hb
    · rw [if_neg hlt]
      refine ⟨le_rfl, hle, fun i h1 h2 => ?_, fun i h1 h2 => ?_⟩
      · exact absurd (h1.trans_lt h2) (lt_irrefl _)
      · omega

end Rayforce.Library.Bisect
