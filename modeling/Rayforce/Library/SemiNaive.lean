import Mathlib

/-! Semi-naive iteration to the least fixed point. -/

namespace Rayforce.Library.SemiNaive

variable {α : Type*} {T : Set α →o Set α} {full delta new : Set α}

structure Approach (T : Set α →o Set α) (full delta : Set α) : Prop where
  sound : full ⊆ T.lfp
  closed : T (full \ delta) ⊆ full

lemma Approach.step (h : Approach T full delta) (hsound : new ⊆ T full)
    (hcomplete : T full ⊆ T (full \ delta) ∪ new) : Approach T (full ∪ new) (new \ full) := by
  refine ⟨Set.union_subset h.sound (hsound.trans (T.map_le_lfp h.sound)), ?_⟩
  have hold : (full ∪ new) \ (new \ full) = full := by
    ext x
    simp only [Set.mem_sdiff, Set.mem_union, not_and, not_not]
    exact ⟨fun hx => hx.1.elim id hx.2, fun hx => ⟨.inl hx, fun _ => hx⟩⟩
  rw [hold]
  exact hcomplete.trans (Set.union_subset_union_left new h.closed)

lemma Approach.done (h : Approach T full delta) (hdelta : delta = ∅) : full = T.lfp := by
  refine h.sound.antisymm (T.lfp_le ?_)
  have hclosed := h.closed
  rwa [hdelta, Set.sdiff_empty] at hclosed

end Rayforce.Library.SemiNaive
