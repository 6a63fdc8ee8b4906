import Mathlib

/-! Undirected multigraphs given by a list of edges. -/

namespace Rayforce.Library.Forests

variable {α ε : Type} {ends : ε → α × α} {l l' K F : List ε} {u v : α}

def Linked (ends : ε → α × α) (l : List ε) : α → α → Prop := Relation.EqvGen fun u v => ∃ e ∈ l, ends e = (u, v)

def Acyclic (ends : ε → α × α) (l : List ε) : Prop :=
  ∀ pre e post, l = pre ++ e :: post → ¬Linked ends (pre ++ post) (ends e).1 (ends e).2

namespace Linked

lemma of_mem {e : ε} (he : e ∈ l) : Linked ends l (ends e).1 (ends e).2 := .rel _ _ ⟨e, he, rfl⟩

lemma refl (u : α) : Linked ends l u u := Relation.EqvGen.refl u

lemma symm (h : Linked ends l u v) : Linked ends l v u := Relation.EqvGen.symm _ _ h

lemma trans {w : α} (h₁ : Linked ends l u v) (h₂ : Linked ends l v w) : Linked ends l u w :=
    Relation.EqvGen.trans _ _ _ h₁ h₂

lemma of_linked (hl : ∀ e ∈ l, Linked ends l' (ends e).1 (ends e).2) (h : Linked ends l u v) :
    Linked ends l' u v := by
  induction h with
  | rel u v huv =>
    obtain ⟨e, he, hends⟩ := huv
    have := hl e he
    rwa [hends] at this
  | refl u => exact refl u
  | symm u v _ ih => exact ih.symm
  | trans u v w _ _ ih₁ ih₂ => exact ih₁.trans ih₂

lemma mono (hsub : l ⊆ l') (h : Linked ends l u v) : Linked ends l' u v := h.of_linked fun _ he => of_mem (hsub he)

lemma eq_of_nil (h : Linked ends [] u v) : u = v := by
  induction h with
  | rel u v huv =>
    obtain ⟨e, he, -⟩ := huv
    exact absurd he List.not_mem_nil
  | refl u => rfl
  | symm u v _ ih => exact ih.symm
  | trans u v w _ _ ih₁ ih₂ => exact ih₁.trans ih₂

lemma cons_cases {e : ε} (h : Linked ends (e :: l) u v) :
    Linked ends l u v ∨ Linked ends l u (ends e).1 ∧ Linked ends l v (ends e).2 ∨ Linked ends l u (ends e).2 ∧
      Linked ends l v (ends e).1 := by
  induction h with
  | rel u v huv =>
    obtain ⟨d, hd, hends⟩ := huv
    obtain rfl | hd := List.mem_cons.mp hd
    · rw [hends]
      exact .inr (.inl ⟨refl u, refl v⟩)
    · exact .inl (.rel _ _ ⟨d, hd, hends⟩)
  | refl u => exact .inl (refl u)
  | symm u v _ ih =>
    obtain h | ⟨h₁, h₂⟩ | ⟨h₁, h₂⟩ := ih
    · exact .inl h.symm
    · exact .inr (.inr ⟨h₂, h₁⟩)
    · exact .inr (.inl ⟨h₂, h₁⟩)
  | trans u v w _ _ ih₁ ih₂ =>
    obtain h | ⟨h₁, h₂⟩ | ⟨h₁, h₂⟩ := ih₁ <;> obtain h' | ⟨h₁', h₂'⟩ | ⟨h₁', h₂'⟩ := ih₂
    · exact .inl (h.trans h')
    · exact .inr (.inl ⟨h.trans h₁', h₂'⟩)
    · exact .inr (.inr ⟨h.trans h₁', h₂'⟩)
    · exact .inr (.inl ⟨h₁, h'.symm.trans h₂⟩)
    · exact .inr (.inl ⟨h₁, h₂'⟩)
    · exact .inl (h₁.trans h₂'.symm)
    · exact .inr (.inr ⟨h₁, h'.symm.trans h₂⟩)
    · exact .inl (h₁.trans h₂'.symm)
    · exact .inr (.inr ⟨h₁, h₂'⟩)

end Linked

namespace Acyclic

lemma nil : Acyclic ends [] := fun pre e post h => by simp at h

lemma sublist (h : Acyclic ends l) (hsub : List.Sublist l' l) : Acyclic ends l' := by
  rintro pre e post rfl hlinked
  obtain ⟨pre', rest, rfl, hpre, hrest⟩ := List.append_sublist_iff.mp hsub
  obtain ⟨mid, post', rfl, hmem, hpost⟩ := List.cons_sublist_iff.mp hrest
  obtain ⟨mid₁, mid₂, rfl⟩ := List.append_of_mem hmem
  refine h (pre' ++ mid₁) e (mid₂ ++ post') (by simp) (hlinked.mono ?_)
  intro d hd
  rw [List.mem_append] at hd
  have hpre' := hpre.subset (a := d)
  have hpost' := hpost.subset (a := d)
  simp only [List.mem_append]
  tauto

lemma perm (h : Acyclic ends l) (hperm : l.Perm l') : Acyclic ends l' := by
  rintro pre e post rfl hlinked
  obtain ⟨pre', post', rfl⟩ := List.append_of_mem (hperm.mem_iff.mpr (by simp : e ∈ pre ++ e :: post))
  have hrest : (pre' ++ post').Perm (pre ++ post) :=
    (List.perm_middle.symm.trans (hperm.trans List.perm_middle)).cons_inv
  exact h pre' e post' rfl (hlinked.mono hrest.symm.subset)

lemma cons (h : Acyclic ends l) {e : ε} (he : ¬Linked ends l (ends e).1 (ends e).2) : Acyclic ends (e :: l) := by
  intro pre d post heq hlinked
  cases pre with
  | nil =>
    obtain ⟨rfl, rfl⟩ := List.cons_eq_cons.mp heq
    exact he hlinked
  | cons x pre =>
    obtain ⟨rfl, rfl⟩ := List.cons_eq_cons.mp heq
    have hd : Linked ends (pre ++ d :: post) (ends d).1 (ends d).2 := .of_mem (by simp)
    have hsub : pre ++ post ⊆ pre ++ d :: post := fun x hx => by
      rw [List.mem_append] at hx ⊢
      exact hx.imp_right (List.mem_cons_of_mem d)
    obtain hl | ⟨h₁, h₂⟩ | ⟨h₁, h₂⟩ := hlinked.cons_cases
    · exact h pre d post rfl hl
    · exact he ((h₁.mono hsub).symm.trans (hd.trans (h₂.mono hsub)))
    · exact he ((h₂.mono hsub).symm.trans (hd.symm.trans (h₁.mono hsub)))

lemma of_cons {e : ε} (h : Acyclic ends (e :: l)) : Acyclic ends l := h.sublist (List.sublist_cons_self e l)

lemma not_linked {e : ε} (h : Acyclic ends (e :: l)) : ¬Linked ends l (ends e).1 (ends e).2 := h [] e l rfl

end Acyclic

section

open Classical in
noncomputable def arrow (ends : ε → α × α) (e : ε) : α →₀ ℚ :=
    Finsupp.single (ends e).1 1 - Finsupp.single (ends e).2 1

lemma single_sub_mem_span (h : Linked ends l u v) :
    Finsupp.single u (1 : ℚ) - Finsupp.single v 1 ∈ Submodule.span ℚ (arrow ends '' {e | e ∈ l}) := by
  induction h with
  | rel u v huv =>
    obtain ⟨e, he, hends⟩ := huv
    have : arrow ends e = Finsupp.single u 1 - Finsupp.single v 1 := by rw [arrow, hends]
    exact Submodule.subset_span ⟨e, he, this⟩
  | refl u =>
    rw [sub_self]
    exact Submodule.zero_mem _
  | symm u v _ ih =>
    rw [← neg_sub]
    exact Submodule.neg_mem _ ih
  | trans u v w _ _ ih₁ ih₂ =>
    rw [← sub_add_sub_cancel _ (Finsupp.single v (1 : ℚ))]
    exact Submodule.add_mem _ ih₁ ih₂

lemma arrow_not_mem_span {e : ε} (h : ¬Linked ends l (ends e).1 (ends e).2) :
    arrow ends e ∉ Submodule.span ℚ (arrow ends '' {e | e ∈ l}) := by
  classical
  let φ : (α →₀ ℚ) →ₗ[ℚ] ℚ := Finsupp.lsum ℚ fun u => if Linked ends l (ends e).1 u then LinearMap.id else 0
  have hsingle : ∀ u, φ (Finsupp.single u 1) = if Linked ends l (ends e).1 u then 1 else 0 := by
    intro u
    rw [Finsupp.lsum_single]
    split_ifs
    · rfl
    · rfl
  have hzero : Submodule.span ℚ (arrow ends '' {e | e ∈ l}) ≤ LinearMap.ker φ := by
    rw [Submodule.span_le]
    rintro _ ⟨d, hd, rfl⟩
    have hsame : Linked ends l (ends e).1 (ends d).1 ↔ Linked ends l (ends e).1 (ends d).2 :=
      ⟨fun hl => hl.trans (.of_mem hd), fun hl => hl.trans (Linked.of_mem hd).symm⟩
    rw [SetLike.mem_coe, LinearMap.mem_ker, arrow, map_sub, hsingle, hsingle, sub_eq_zero]
    exact if_congr hsame rfl rfl
  intro hmem
  have hφ : φ (arrow ends e) = 0 := hzero hmem
  rw [arrow, map_sub, hsingle, hsingle, if_pos (Linked.refl _), if_neg h, sub_zero] at hφ
  exact one_ne_zero hφ

lemma Acyclic.linearIndependent (h : Acyclic ends F) : LinearIndependent ℚ fun i : Fin F.length =>
    arrow ends F[i] := by
  induction F with
  | nil =>
    have : IsEmpty (Fin ([] : List ε).length) := Fin.isEmpty'
    exact linearIndependent_empty_type
  | cons e F ih =>
    have hcons : (fun i : Fin (e :: F).length => arrow ends (e :: F)[i]) = Fin.cons (arrow ends e) fun i :
        Fin F.length => arrow ends F[i] := by
      funext i
      refine Fin.cases ?_ (fun i => ?_) i
      · rfl
      · rfl
    rw [hcons]
    refine linearIndependent_finCons.mpr
      ⟨ih h.of_cons, fun hmem => arrow_not_mem_span h.not_linked (Submodule.span_mono ?_ hmem)⟩
    rintro _ ⟨i, rfl⟩
    exact ⟨F[i], List.getElem_mem i.isLt, rfl⟩

theorem Acyclic.length_le (h : Acyclic ends F) (hF : ∀ e ∈ F, Linked ends K (ends e).1 (ends e).2) :
    F.length ≤ K.length := by
  classical
  have hset : arrow ends '' {e | e ∈ K} = ((K.map (arrow ends)).toFinset : Set (α →₀ ℚ)) := by
    ext x
    simp
  have hspan : Set.range (fun i : Fin F.length => arrow ends F[i]) ≤
      Submodule.span ℚ ((K.map (arrow ends)).toFinset : Set (α →₀ ℚ)) := by
    rintro _ ⟨i, rfl⟩
    rw [← hset]
    exact single_sub_mem_span (hF _ (List.getElem_mem i.isLt))
  have hcard := linearIndependent_le_span' _ h.linearIndependent _ hspan
  rw [Cardinal.mk_fin, Nat.cast_le] at hcard
  simp only [Finset.coe_sort_coe, Fintype.card_coe] at hcard
  exact hcard.trans ((List.toFinset_card_le _).trans (List.length_map _).le)

end

section

variable {w : ε → ℚ} {E : List ε}

lemma sum_le_sum_of_countP {A B : List ℚ} (hlen : A.length = B.length)
    (hcount : ∀ t, B.countP (fun x => x ≤ t) ≤ A.countP fun x => x ≤ t) : A.sum ≤ B.sum := by
  have hsorted : ∀ B A : List ℚ, B.Pairwise (· ≤ ·) → A.length = B.length →
      (∀ t, B.countP (fun x => x ≤ t) ≤ A.countP fun x => x ≤ t) → A.sum ≤ B.sum := by
    intro B
    induction B with
    | nil =>
      intro A _ hlen _
      rw [List.eq_nil_of_length_eq_zero hlen]
    | cons b B ih =>
      intro A hB hlen hcount
      obtain ⟨hb, hB⟩ := List.pairwise_cons.mp hB
      obtain ⟨a, ha, hab⟩ : ∃ a ∈ A, a ≤ b := by
        have hpos : 0 < A.countP fun x => x ≤ b := lt_of_lt_of_le (by simp) (hcount b)
        simpa using List.countP_pos_iff.mp hpos
      have hperm := List.perm_cons_erase ha
      have hrest : (A.erase a).sum ≤ B.sum := by
        refine ih _ hB (by rw [List.length_erase_of_mem ha, hlen]; rfl) fun t => ?_
        by_cases ht : b ≤ t
        · have := hcount t
          rw [hperm.countP_eq, List.countP_cons_of_pos (by simpa using ht),
            List.countP_cons_of_pos (by simpa using hab.trans ht)] at this
          omega
        · have hnone : B.countP (fun x => x ≤ t) = 0 := List.countP_eq_zero.mpr fun x hx => by
            have := hb x hx
            simpa using (not_le.mp ht).trans_le this
          omega
      rw [hperm.sum_eq, List.sum_cons, List.sum_cons]
      exact add_le_add hab hrest
  have hperm := List.mergeSort_perm B fun x y => decide (x ≤ y)
  rw [← hperm.sum_eq]
  refine hsorted _ A (List.pairwise_mergeSort' (· ≤ ·) B) (by rw [hlen, hperm.length_eq]) fun t => ?_
  rw [hperm.countP_eq]
  exact hcount t

structure Greedy (ends : ε → α × α) (w : ε → ℚ) (E K : List ε) : Prop where
  sublist : List.Sublist K E
  acyclic : Acyclic ends K
  linked : ∀ e ∈ E, Linked ends (K.filter fun d => w d ≤ w e) (ends e).1 (ends e).2

namespace Greedy

lemma nil : Greedy ends w [] [] := ⟨List.Sublist.refl [], .nil, fun _ he => absurd he List.not_mem_nil⟩

section

variable (h : Greedy ends w E K)
include h

lemma filter_eq_self {e : ε} (hw : ∀ d ∈ E, w d ≤ w e) : (K.filter fun d => w d ≤ w e) = K :=
  List.filter_eq_self.mpr fun d hd => decide_eq_true (hw d (h.sublist.subset hd))

lemma skip {e : ε} (hw : ∀ d ∈ E, w d ≤ w e) (he : Linked ends K (ends e).1 (ends e).2) :
    Greedy ends w (E ++ [e]) K := by
  refine ⟨h.sublist.trans (List.sublist_append_left E [e]), h.acyclic, fun d hd => ?_⟩
  obtain hd | hd := List.mem_append.mp hd
  · exact h.linked d hd
  · rw [List.mem_singleton.mp hd, h.filter_eq_self hw]
    exact he

lemma take {e : ε} (he : ¬Linked ends K (ends e).1 (ends e).2) : Greedy ends w (E ++ [e]) (K ++ [e]) := by
  refine ⟨h.sublist.append (List.Sublist.refl [e]), (h.acyclic.cons he).perm (List.perm_append_singleton e K).symm,
    fun d hd => ?_⟩
  obtain hd | hd := List.mem_append.mp hd
  · refine (h.linked d hd).mono ?_
    rw [List.filter_append]
    exact List.subset_append_left _ _
  · rw [List.mem_singleton.mp hd]
    exact .of_mem (List.mem_filter.mpr ⟨by simp, by simp⟩)

lemma linked_iff : Linked ends K u v ↔ Linked ends E u v :=
  ⟨fun hl => hl.mono h.sublist.subset, fun hl => hl.of_linked fun e he =>
    (h.linked e he).mono (List.filter_subset_self _)⟩

theorem sum_le (hsub : F ⊆ E) (hF : Acyclic ends F) (hspan : ∀ e ∈ E, Linked ends F (ends e).1 (ends e).2) :
    (K.map w).sum ≤ (F.map w).sum := by
  have hKF : K.length ≤ F.length := h.acyclic.length_le fun e he => hspan e (h.sublist.subset he)
  have hFK : F.length ≤ K.length := hF.length_le fun e he => h.linked_iff.mpr (.of_mem (hsub he))
  refine sum_le_sum_of_countP (by rw [List.length_map, List.length_map]; omega) fun t => ?_
  have hlight : (F.filter fun d => w d ≤ t).length ≤ (K.filter fun d => w d ≤ t).length := by
    refine (hF.sublist List.filter_sublist).length_le fun e he => ?_
    obtain ⟨he, hwe⟩ := List.mem_filter.mp he
    refine (h.linked e (hsub he)).mono fun d hd => ?_
    obtain ⟨hd, hwd⟩ := List.mem_filter.mp hd
    exact List.mem_filter.mpr ⟨hd, decide_eq_true ((of_decide_eq_true hwd).trans (of_decide_eq_true hwe))⟩
  rw [List.countP_map, List.countP_map, List.countP_eq_length_filter, List.countP_eq_length_filter]
  exact hlight

end

end Greedy

end

end Rayforce.Library.Forests
