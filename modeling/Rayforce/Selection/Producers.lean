import Rayforce.Selection.Rows

namespace Rayforce.Selection

open Library.Segments List

variable {n : ℕ}
variable {s : ℕ}

lemma segRows_eq (n s : ℕ) : segRows n s = (List.range (segLen n s)).map (segBase s + ·) :=
  range'_eq_map_range ..

lemma countP_segRows (p : List UInt8) (s : ℕ) :
    (segRows n s).countP (passes p) = (((Kept.full n).refine p).pos s).length := by
  rw [segRows_eq, countP_map, countP_eq_length_filter]
  rfl

lemma map_u16_pos (f : Kept n) (s : ℕ) : (f.pos s).map u16 = f.pos s := by
  conv_rhs => rw [← map_id (f.pos s)]
  exact map_congr_left fun i hi => u16_of_inside (f.inside s i hi)

lemma passingRows_eq (p : List UInt8) (s : ℕ) : passingRows p n s = ((Kept.full n).refine p).pos s := by
  rw [passingRows, segRows_eq, filter_map, map_map, ← map_u16_pos]
  refine map_congr_left fun i _ => ?_
  simp

namespace Kept

variable (f : Kept n)

lemma mixed_length (s : ℕ) : (f.mixed s).length = if f.flag s = .mix then (f.pos s).length else 0 := by
  rw [mixed]
  split <;> rfl

lemma tally_kept (pc : ℕ → ℕ) (h : ∀ s < segs n, pc s = (f.pos s).length) :
    tally n (segs n) pc = (f.total, sumTo (fun s => (f.mixed s).length) (segs n)) := by
  rw [tally_eq, total, Prod.mk.injEq]
  constructor
  · exact sumTo_congr h
  · refine sumTo_congr fun s hs => ?_
    rw [h s hs, mixed_length, flag]

lemma writeAt_nil {α : Type*} (a : List α) (off : ℕ) : writeAt a off [] = a := by simp [writeAt]

lemma fill_fromPredSeg (hn : n < 2 ^ 32) {pop : List ℕ} (hpc : ∀ s < segs n, pop.getD s 0 = (f.pos s).length) :
    Rowsel.fill
      { totalPass := f.total, nrows := n, nSegs := segs n, segFlags := List.replicate (segs n) .none
        segOffsets := List.replicate (segs n + 1) 0
        idx := List.replicate (sumTo (fun s => (f.mixed s).length) (segs n)) 0 } (fromPredSeg n pop)
      = { f.layout with idx := List.replicate (sumTo (fun s => (f.mixed s).length) (segs n)) 0 } := by
  have hadv : ∀ s < segs n, (fromPredSeg n pop s).advance = (f.mixed s).length := by
    intro s hs
    rw [fromPredSeg, hpc s hs, mixed_length]
    rfl
  have hsum : ∀ k ≤ segs n, sumTo (fun s => (fromPredSeg n pop s).advance) k
      = sumTo (fun s => (f.mixed s).length) k := by
    intro k hk
    exact sumTo_congr fun s hs => hadv s (by omega)
  have hcountn := lt_of_le_of_lt (f.mixed_total_le.trans f.total_le) hn
  rw [fill_eq (by simp) (by simp) (by rw [hsum _ le_rfl]; exact hcountn)]
  simp only [layout, Rowsel.mk.injEq, true_and]
  refine ⟨map_congr_left ?_, map_congr_left ?_, ?_⟩
  · intro s hs
    simp only [fromPredSeg, hpc s (mem_range.mp hs), flag]
  · intro s hs
    exact hsum s (by have := mem_range.mp hs; omega)
  · simp only [fromPredSeg, writeAt_nil]
    exact foldl_fixed _

lemma rowselPass2_layout (p : List UInt8) (junk : List ℕ)
    (hjunk : junk.length = sumTo (fun s => (((full n).refine p).mixed s).length) (segs n)) :
    rowselPass2 p { ((full n).refine p).layout with idx := junk } = ((full n).refine p).layout := by
  set g := (full n).refine p with hg
  have hstep : ∀ idx : List ℕ, ∀ s ∈ range (segs n),
      (if g.layout.flag s ≠ .mix then idx else writeAt idx (g.layout.offset s) (passingRows p n s))
      = writeAt idx (sumTo (fun s => (g.mixed s).length) s) (g.mixed s) := by
    intro idx s hs
    have hlt := mem_range.mp hs
    rw [g.layout_flag hlt, g.layout_offset hlt.le, passingRows_eq, ← hg, mixed]
    by_cases hmix : g.flag s = .mix
    · rw [if_neg (not_not_intro hmix), if_pos hmix]
    · rw [if_pos hmix, if_neg hmix, writeAt_nil]
  have hrun : (range (segs n)).foldl (fun idx s => if g.layout.flag s ≠ .mix then idx
        else writeAt idx (g.layout.offset s) (passingRows p n s)) junk = g.layout.idx := by
    rw [foldl_ext _ _ _ hstep, foldl_writeAt, ← hjunk, drop_length, append_nil]
    rfl
  exact congrArg (fun idx => { g.layout with idx := idx }) hrun

end Kept

lemma rayRowselFromPred_eq (hn : n < 2 ^ 32) (p : List UInt8) (hp : p.length = n) : rayRowselFromPred p
      = if n ≠ 0 ∧ ((Kept.full n).refine p).total = n then none else some ((Kept.full n).refine p).layout := by
  set g := (Kept.full n).refine p with hg
  rw [rayRowselFromPred, hp]
  by_cases h0 : n = 0
  · subst h0
    rw [if_pos rfl, if_neg (by simp)]
    rfl
  have hu : u32 (segCount rayMorselElems n) = segs n := u32_of_lt (segs_lt hn)
  have hpc : ∀ s < segs n, (rowselPass1 p n (segs n)).getD s 0 = (g.pos s).length := by
    intro s hs
    rw [rowselPass1, getD_map_range _ _ hs, countP_segRows]
  have htally := g.tally_kept _ hpc
  rw [if_neg h0, hu]
  simp only [htally]
  by_cases hall : g.total = n
  · rw [if_pos hall, if_pos ⟨h0, hall⟩]
  rw [if_neg hall, if_neg (by simp [hall])]
  set count := sumTo (fun s => (g.mixed s).length) (segs n) with hcount
  rw [rayRowselNew_ok hn g.total_le g.mixed_total_le, ← hcount]
  have hfill := g.fill_fromPredSeg hn hpc
  rw [← hcount] at hfill
  simp only [Option.bind_eq_bind, Option.bind_some, hfill]
  split
  · rw [Kept.rowselPass2_layout p _ (by rw [length_replicate])]
  · rename_i hzero
    have hz : count = 0 := by
      have hoff := g.layout_offset (le_refl (segs n))
      change ¬ 0 < g.layout.offset (segs n) at hzero
      omega
    have hidx : g.layout.idx = replicate count 0 := by
      rw [hz, replicate_zero]
      exact eq_nil_of_length_eq_zero ((length_flatMap_range g.mixed (segs n)).trans hz)
    rw [← hidx]

namespace Kept

variable (f : Kept n)

lemma refine_of_all (p : List UInt8) (h : f.flag s = .all) : ((full n).refine p).pos s = (f.refine p).pos s :=
  congrArg (filter fun i => passes p (segBase s + i)) (f.eq_range_of_all h).symm

lemma refineCount_layout (p : List UInt8) (h : s < segs n) :
    refineCount f.layout p s = ((f.refine p).pos s).length := by
  rw [refineCount, f.layout_flag h, f.layout_segIdx h]
  cases hf : f.flag s with
  | none => simp [refine, f.eq_nil_of_none hf]
  | all =>
    change (segRows n s).countP (passes p) = _
    rw [countP_segRows, f.refine_of_all p hf]
  | mix =>
    simp only [f.mixed_of_mix hf, countP_eq_length_filter]
    rfl

lemma refineRows_layout (p : List UInt8) (h : s < segs n) (hf : f.flag s ≠ .none) :
    refineRows f.layout p s = (f.refine p).pos s := by
  rw [refineRows, f.layout_flag h, f.layout_segIdx h]
  by_cases hall : f.flag s = .all
  · rw [if_pos hall, ← f.refine_of_all p hall]
    exact passingRows_eq p s
  · have hmix : f.flag s = .mix := by
      cases hc : f.flag s with
      | none => exact absurd hc hf
      | all => exact absurd hc hall
      | mix => rfl
    rw [if_neg hall, f.mixed_of_mix hmix, ← map_u16_pos (f.refine p)]
    simp only [Nat.add_sub_cancel_left]
    rfl

lemma refineSeg_layout (p : List UInt8) (h : s < segs n) :
    refineSeg f.layout p ((List.range (segs n)).map (refineCount f.layout p)) s = (f.refine p).out s := by
  rw [out_eq, refineSeg, getD_map_range _ _ h, f.refineCount_layout p h]
  change (if ((f.refine p).pos s).length = 0 then _
    else if ((f.refine p).pos s).length = segLen n s then _ else _) = _
  split_ifs with h0 hall
  · rfl
  · rfl
  · have hf : f.flag s ≠ .none := by
      intro hnone
      exact h0 (by simp [refine, f.eq_nil_of_none hnone])
    rw [f.refineRows_layout p h hf]

lemma rayRowselRefine_layout (hn : n < 2 ^ 32) (p : List UInt8) (hp : p.length = n) :
    rayRowselRefine (some f.layout) p = if (f.refine p).total = n then none else some (f.refine p).layout := by
  have hpc : ∀ s < segs n, ((range (segs n)).map (refineCount f.layout p)).getD s 0
      = ((f.refine p).pos s).length := by
    intro s hs
    rw [getD_map_range _ _ hs, f.refineCount_layout p hs]
  have hfill := fill_eq_layout hn (f.refine p)
    (refineSeg f.layout p ((range (segs n)).map (refineCount f.layout p))) rfl
    fun s hs => f.refineSeg_layout p hs
  have htally := (f.refine p).tally_kept _ hpc
  simp only [rayRowselRefine, layout_nrows, layout_nSegs, htally]
  rw [if_neg (not_not_intro hp)]
  split_ifs
  · rfl
  · exact hfill

end Kept

lemma commonCount_eq (as bs : List ℕ) : commonCount as bs = (common as bs).length := by
  induction as, bs using commonCount.induct with
  | case1 bs => simp [commonCount, common]
  | case2 a as => simp [commonCount, common]
  | case3 a as b bs hlt ih => rw [commonCount, common, if_pos hlt, if_pos hlt, ih]
  | case4 a as b bs hnlt hlt ih =>
    rw [commonCount, common, if_neg hnlt, if_pos hlt, if_neg hnlt, if_pos hlt, ih]
  | case5 a as b bs hnlt hngt ih =>
    rw [commonCount, common, if_neg hnlt, if_neg hngt, if_neg hnlt, if_neg hngt, ih, length_cons]

namespace Kept

variable (f g : Kept n)

lemma common_pos (s : ℕ) : common (f.pos s) (g.pos s) = (f.inter g).pos s :=
  common_eq_filter _ _ (f.ascending s) (g.ascending s)

lemma inter_none (h : f.flag s = .none ∨ g.flag s = .none) : (f.inter g).pos s = [] := by
  rcases h with h | h
  · simp [inter, f.eq_nil_of_none h]
  · simp [inter, g.eq_nil_of_none h]

lemma filter_range_pos (s : ℕ) : (List.range (segLen n s)).filter (· ∈ f.pos s) = f.pos s := by
  have hasc : ((range (segLen n s)).filter (· ∈ f.pos s)).Pairwise (· < ·) :=
    pairwise_lt_range.filter _
  apply List.Perm.eq_of_pairwise' (r := (· < ·)) hasc (f.ascending s)
  rw [perm_ext_iff_of_nodup hasc.nodup (f.ascending s).nodup]
  intro i
  simp only [mem_filter, decide_eq_true_eq, and_iff_right_iff_imp]
  exact fun hi => (f.sublist_range s).subset hi

lemma inter_all_left (h : f.flag s = .all) : (f.inter g).pos s = g.pos s := by
  change (f.pos s).filter (· ∈ g.pos s) = _
  rw [f.eq_range_of_all h, g.filter_range_pos]

lemma inter_all_right (h : g.flag s = .all) : (f.inter g).pos s = f.pos s := by
  rw [inter, filter_eq_self]
  intro i hi
  rw [g.eq_range_of_all h, decide_eq_true_eq, mem_range]
  exact f.inside s i hi

lemma inter_cases (s : ℕ) : ((f.flag s = .none ∨ g.flag s = .none) ∧ (f.inter g).pos s = []) ∨
    (f.flag s = .all ∧ g.flag s = .all ∧ (f.inter g).pos s = List.range (segLen n s)) ∨
    (f.flag s = .all ∧ g.flag s = .mix ∧ (f.inter g).pos s = g.pos s) ∨
    (f.flag s = .mix ∧ g.flag s = .all ∧ (f.inter g).pos s = f.pos s) ∨
    (f.flag s = .mix ∧ g.flag s = .mix ∧ (f.inter g).pos s = common (f.pos s) (g.pos s)) := by
  have hcommon := (f.common_pos g s).symm
  cases hf : f.flag s with
  | none => exact .inl ⟨.inl rfl, inter_none f g (.inl hf)⟩
  | all =>
    have hleft := inter_all_left f g hf
    cases hg : g.flag s with
    | none => exact .inl ⟨.inr rfl, inter_none f g (.inr hg)⟩
    | all => exact .inr (.inl ⟨rfl, rfl, hleft.trans (g.eq_range_of_all hg)⟩)
    | mix => exact .inr (.inr (.inl ⟨rfl, rfl, hleft⟩))
  | mix =>
    cases hg : g.flag s with
    | none => exact .inl ⟨.inr rfl, inter_none f g (.inr hg)⟩
    | all => exact .inr (.inr (.inr (.inl ⟨rfl, rfl, inter_all_right f g hg⟩)))
    | mix => exact .inr (.inr (.inr (.inr ⟨rfl, rfl, hcommon⟩)))

lemma intersectCount_layout (h : s < segs n) :
    intersectCount f.layout g.layout s = ((f.inter g).pos s).length := by
  rw [intersectCount, f.layout_flag h, g.layout_flag h, f.layout_segIdx h, g.layout_segIdx h,
    f.layout_offset_sub h, g.layout_offset_sub h, commonCount_eq]
  obtain ⟨hnone, hp⟩ | ⟨hf, hg, hp⟩ | ⟨hf, hg, hp⟩ | ⟨hf, hg, hp⟩ | ⟨hf, hg, hp⟩ := inter_cases f g s
  · rw [if_pos hnone, hp, length_nil]
  · simp only [hf, hg, hp, length_range, reduceCtorEq, or_self, and_self, if_true, if_false]
    rfl
  · simp only [hf, hg, hp, g.mixed_of_mix hg, reduceCtorEq, or_self, and_false, if_true, if_false]
  · simp only [hf, hg, hp, f.mixed_of_mix hf, reduceCtorEq, or_self, false_and, if_true, if_false]
  · simp only [hf, hg, hp, f.mixed_of_mix hf, g.mixed_of_mix hg, reduceCtorEq, or_self, and_self, if_false]

lemma copySeg_out (k : Kept n) (h : s < segs n) : copySeg (segLen n s) (k.pos s) = k.out s := by
  have hpos := segLen_pos h
  rw [out_eq, copySeg]
  by_cases h0 : (k.pos s).length = 0
  · rw [if_neg (by omega), if_pos h0, if_pos h0, h0, eq_nil_of_length_eq_zero h0]
  · rw [if_neg h0, if_neg h0]

lemma out_of_full (k : Kept n) (h : s < segs n) (hall : k.pos s = List.range (segLen n s)) :
    k.out s = ⟨.all, 0, []⟩ := by
  have hpos := segLen_pos h
  rw [out_eq, hall, length_range, if_neg (by omega), if_pos rfl]

lemma intersectSeg_layout (h : s < segs n) : intersectSeg f.layout g.layout s = (f.inter g).out s := by
  have hcopy := (f.inter g).copySeg_out h
  rw [intersectSeg, f.layout_flag h, g.layout_flag h, f.layout_segIdx h, g.layout_segIdx h, commonCount_eq]
  change (if _ then _ else if _ then _ else if _ then copySeg (segLen n s) _
    else if _ then copySeg (segLen n s) _ else copySeg (segLen n s) _) = _
  obtain ⟨hnone, hp⟩ | ⟨hf, hg, hp⟩ | ⟨hf, hg, hp⟩ | ⟨hf, hg, hp⟩ | ⟨hf, hg, hp⟩ := inter_cases f g s
  · rw [if_pos hnone, out_eq, hp, length_nil, if_pos rfl]
  · rw [out_of_full _ h hp]
    simp only [hf, hg, reduceCtorEq, or_self, and_self, if_true, if_false]
  · rw [← hcopy, hp]
    simp only [hf, hg, g.mixed_of_mix hg, reduceCtorEq, or_self, and_false, if_true, if_false]
  · rw [← hcopy, hp]
    simp only [hf, hg, f.mixed_of_mix hf, reduceCtorEq, or_self, false_and, if_true, if_false]
  · rw [← hcopy, hp]
    simp only [hf, hg, f.mixed_of_mix hf, g.mixed_of_mix hg, reduceCtorEq, or_self, and_self, if_false]

lemma rayRowselIntersect_layout (hn : n < 2 ^ 32) :
    rayRowselIntersect (some f.layout) (some g.layout) = some (f.inter g).layout := by
  have hfill := fill_eq_layout hn (f.inter g) (intersectSeg f.layout g.layout) rfl
    fun s hs => intersectSeg_layout f g hs
  have htally := (f.inter g).tally_kept (intersectCount f.layout g.layout)
    fun s hs => intersectCount_layout f g hs
  simp only [rayRowselIntersect]
  rw [if_neg (by simp [layout])]
  change (rayRowselNew n (tally n (segs n) _).1 (tally n (segs n) _).2).bind _ = _
  rw [htally]
  exact hfill

end Kept

end Rayforce.Selection
