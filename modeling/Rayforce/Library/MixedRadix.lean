import Mathlib

/-! Numbers in a mixed radix, the least significant digit first. -/

namespace Rayforce.Library.MixedRadix

def encode : List ℤ → List ℤ → ℤ
  | r :: rs, d :: ds => d + r * encode rs ds
  | _, _ => 0

abbrev Digits (rs ds : List ℤ) : Prop := List.Forall₂ (fun r d => 0 ≤ d ∧ d < r) rs ds

variable {rs ds ds' : List ℤ}

lemma encode_bounds (h : Digits rs ds) : 0 ≤ encode rs ds ∧ encode rs ds < rs.prod := by
  induction h with
  | nil => exact ⟨le_rfl, one_pos⟩
  | @cons r d rs ds hd _ ih =>
    obtain ⟨h₀, h₁⟩ := hd
    obtain ⟨ih₀, ih₁⟩ := ih
    have hr : 0 < r := h₀.trans_lt h₁
    rw [encode, List.prod_cons]
    constructor
    · positivity
    · have hstep : r * (encode rs ds + 1) ≤ r * rs.prod := mul_le_mul_of_nonneg_left ih₁ hr.le
      linarith

lemma encode_inj (h : Digits rs ds) (h' : Digits rs ds') : encode rs ds = encode rs ds' ↔ ds = ds' := by
  refine ⟨fun heq => ?_, fun heq => heq ▸ rfl⟩
  induction h generalizing ds' with
  | nil => exact (List.forall₂_nil_left_iff.mp h').symm
  | @cons r d rs ds hd _ ih =>
    cases h' with
    | cons hd' htail =>
      rw [encode, encode] at heq
      have hfirst := congrArg (· % r) heq
      simp only [Int.add_mul_emod_self_left, Int.emod_eq_of_lt hd.1 hd.2, Int.emod_eq_of_lt hd'.1 hd'.2] at hfirst
      subst hfirst
      have hr : r ≠ 0 := (hd.1.trans_lt hd.2).ne'
      rw [ih htail (mul_left_cancel₀ hr (add_left_cancel heq))]

end Rayforce.Library.MixedRadix
