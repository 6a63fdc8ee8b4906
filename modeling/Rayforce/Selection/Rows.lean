import Rayforce.Selection.Layout

namespace Rayforce.Selection

open Library.Segments List

namespace Kept

variable {n : ℕ} (f : Kept n)
variable {s : ℕ}

@[simp] lemma layout_nrows : f.layout.nrows = n := rfl
@[simp] lemma layout_nSegs : f.layout.nSegs = segs n := rfl

lemma layout_flag (h : s < segs n) : f.layout.flag s = f.flag s := getD_map_range _ _ h

lemma layout_offset (h : s ≤ segs n) : f.layout.offset s = sumTo (fun s => (f.mixed s).length) s :=
  getD_map_range _ _ (Nat.lt_succ_of_le h)

lemma layout_segIdx (h : s < segs n) : f.layout.segIdx s = f.mixed s := by
  rw [Rowsel.segIdx, f.layout_offset h.le, f.layout_offset h]
  exact slice_flatMap f.mixed h

lemma layout_offset_sub (h : s < segs n) : f.layout.offset (s + 1) - f.layout.offset s = (f.mixed s).length := by
  rw [f.layout_offset h.le, f.layout_offset h, sumTo_succ, Nat.add_sub_cancel_left]

lemma layout_segIds (h : s < segs n) : f.layout.segIds s = (f.pos s).map (segBase s + ·) := by
  rw [Rowsel.segIds, f.layout_flag h]
  cases hf : f.flag s with
  | none => simp [f.eq_nil_of_none hf]
  | all =>
    simp only [f.eq_range_of_all hf, segRows]
    rw [range'_eq_map_range]
    rfl
  | mix => simp only [f.layout_segIdx h, f.mixed_of_mix hf]

lemma layout_width (h : s < segs n) : f.layout.width s = (f.pos s).length := by
  rw [Rowsel.width, f.layout_flag h]
  cases hf : f.flag s with
  | none => simp [f.eq_nil_of_none hf]
  | all =>
    have hlen : segLen n s < 2 ^ 32 := by
      have := segLen_le n s
      simp only [rayMorselElems] at this
      omega
    rw [f.eq_range_of_all hf, length_range]
    exact u32_of_lt hlen
  | mix => simp only [f.layout_offset_sub h, f.mixed_of_mix hf]

lemma flatOffsets_run (sel : Rowsel) (k : ℕ) (hk : k ≤ sel.nSegs) :
    (List.range k).foldl (fun st s => (st.1.set s st.2, u32 (st.2 + sel.width s)))
        (List.replicate sel.nSegs 0, 0)
      = ((List.range k).map (fun s => u32 (sumTo sel.width s)) ++ (List.replicate sel.nSegs 0).drop k,
        u32 (sumTo sel.width k)) := by
  induction k with
  | zero => simp [u32]
  | succ k ih =>
    have hset := set_append_drop ((range k).map fun s => u32 (sumTo sel.width s)) (replicate sel.nSegs 0)
      (u32 (sumTo sel.width k)) (by simpa using hk)
    simp only [length_map, length_range] at hset
    rw [range_succ, foldl_append, ih (by omega), foldl_cons, foldl_nil, hset, u32, u32,
      Nat.mod_add_mod, sumTo_succ]
    simp [u32]

def start (s : ℕ) : ℕ := sumTo (fun s => (f.pos s).length) s

lemma start_le_total (h : s ≤ segs n) : f.start s ≤ f.total := sumTo_mono _ h

lemma flatOffsets_layout (h : s < segs n) : (flatOffsets f.layout).getD s 0 = u32 (f.start s) := by
  have hw : sumTo f.layout.width s = f.start s := sumTo_congr fun t ht => f.layout_width (by omega)
  have hrun := flatOffsets_run f.layout f.layout.nSegs le_rfl
  rw [flatOffsets, hrun, drop_eq_nil_of_le (by simp), append_nil]
  exact (getD_map_range _ _ h).trans (congrArg u32 hw)

lemma length_rowsOf : f.rowsOf.length = f.total := by
  rw [rowsOf, length_flatMap_range]
  simp [total]

/-- The rows before each segment that keeps any can be counted in 32 bits. -/
def Fits : Prop := ∀ s < segs n, f.pos s ≠ [] → f.start s < 2 ^ 32

lemma toIndices_of_fits (hn : f.Fits) : rayRowselToIndices f.layout = f.rowsOf := by
  have hlen := f.length_rowsOf
  rw [rayRowselToIndices]
  by_cases h0 : f.layout.totalPass = 0 ∨ f.layout.nSegs = 0
  · have hz : f.total = 0 := by
      rcases h0 with h | h
      · exact h
      · change segs n = 0 at h
        rw [total, h, sumTo_zero]
    rw [if_pos h0, eq_nil_of_length_eq_zero (hlen.trans hz)]
    change replicate f.total 0 = []
    rw [hz, replicate_zero]
  · rw [if_neg h0]
    have hstep : ∀ out : List ℕ, ∀ s ∈ range (segs n), (if f.layout.flag s = .none then out
          else writeAt out ((flatOffsets f.layout).getD s 0) (f.layout.segIds s))
        = writeAt out (sumTo (fun s => ((f.pos s).map (segBase s + ·)).length) s)
          ((f.pos s).map (segBase s + ·)) := by
      intro out s hs
      have hlt := mem_range.mp hs
      rw [f.flatOffsets_layout hlt, f.layout_segIds hlt, f.layout_flag hlt]
      simp only [length_map]
      by_cases hnil : f.pos s = []
      · simp [hnil, writeAt]
      · rw [if_neg fun h => hnil (f.eq_nil_of_none h), u32_of_lt (hn s hlt hnil)]
        rfl
    change (range (segs n)).foldl _ (replicate f.total 0) = _
    rw [foldl_ext _ _ _ hstep, foldl_writeAt, ← length_flatMap_range, drop_eq_nil_of_le, append_nil]
    · rfl
    · rw [length_replicate, ← hlen, rowsOf]

lemma toIndices_of_total (hn : f.total < 2 ^ 32) : rayRowselToIndices f.layout = f.rowsOf :=
  f.toIndices_of_fits fun _ hs _ => (f.start_le_total hs.le).trans_lt hn

theorem toIndices_layout (hn : n < 2 ^ 32) : rayRowselToIndices f.layout = f.rowsOf :=
  f.toIndices_of_total (f.total_le.trans_lt hn)

def full (n : ℕ) : Kept n where
  pos s := List.range (segLen n s)
  ascending _ := List.pairwise_lt_range
  inside _ _ hi := List.mem_range.mp hi

def refine (p : List UInt8) : Kept n where
  pos s := (f.pos s).filter fun i => passes p (segBase s + i)
  ascending s := (f.ascending s).filter _
  inside s i hi := f.inside s i (List.mem_filter.mp hi).1

def inter (g : Kept n) : Kept n where
  pos s := (f.pos s).filter (· ∈ g.pos s)
  ascending s := (f.ascending s).filter _
  inside s i hi := f.inside s i (List.mem_filter.mp hi).1

lemma full_rowsOf : (full n).rowsOf = List.range n := by
  rw [rowsOf, ← flatMap_segments n (by decide : 0 < rayMorselElems)]
  refine congrArg (fun g => flatMap g (range (segs n))) ?_
  funext s
  exact (range'_eq_map_range ..).symm

lemma refine_rowsOf (p : List UInt8) : (f.refine p).rowsOf = f.rowsOf.filter (passes p) := by
  rw [rowsOf, rowsOf, filter_flatMap]
  refine congrArg (fun g => List.flatMap g (List.range (segs n))) ?_
  funext s
  rw [List.filter_map]
  rfl

lemma mem_rowsOf {s i : ℕ} (hi : i < segLen n s) : segBase s + i ∈ f.rowsOf ↔ i ∈ f.pos s := by
  have hs : s < segs n := by
    by_contra hge
    have hge : segs n ≤ s := Nat.le_of_not_lt hge
    have hcap := le_segCount_mul n (by decide : 0 < rayMorselElems)
    have hmul : segs n * rayMorselElems ≤ s * rayMorselElems := Nat.mul_le_mul_right _ hge
    simp only [segLen, segEnd, segBase] at hi
    simp only [segs] at hmul
    omega
  rw [rowsOf, mem_flatMap]
  constructor
  · rintro ⟨t, _, hmem⟩
    obtain ⟨j, hj, heq⟩ := mem_map.mp hmem
    have hj' := lt_of_lt_of_le (f.inside t j hj) (segLen_le n t)
    have hi' := lt_of_lt_of_le hi (segLen_le n s)
    simp only [segBase, rayMorselElems] at heq hj' hi'
    obtain rfl : t = s := by omega
    obtain rfl : j = i := by omega
    exact hj
  · intro hmem
    exact ⟨s, mem_range.mpr hs, mem_map.mpr ⟨i, hmem, rfl⟩⟩

lemma inter_rowsOf (g : Kept n) : (f.inter g).rowsOf = f.rowsOf.filter (· ∈ g.rowsOf) := by
  change (f.inter g).rowsOf
    = ((List.range (segs n)).flatMap fun s => (f.pos s).map (segBase s + ·)).filter (· ∈ g.rowsOf)
  rw [rowsOf, filter_flatMap]
  refine congrArg (fun h => List.flatMap h (List.range (segs n))) ?_
  funext s
  rw [List.filter_map]
  refine congrArg (List.map (segBase s + ·)) (filter_congr ?_)
  intro i hi
  simp only [Function.comp_apply, decide_eq_decide]
  exact (g.mem_rowsOf (f.inside s i hi)).symm

lemma rowsOf_of_total (h : f.total = n) : f.rowsOf = List.range n := by
  have hlen : sumTo (fun s => (f.pos s).length) (segs n) = sumTo (segLen n) (segs n) :=
    h.trans sumTo_segLen.symm
  have hfull := eq_of_sumTo_eq (fun s _ => f.length_le s) hlen
  rw [← full_rowsOf, rowsOf, rowsOf, flatMap_def, flatMap_def]
  refine congrArg flatten (map_congr_left ?_)
  intro s hs
  rw [f.eq_range_of_full (hfull s (mem_range.mp hs))]
  rfl

end Kept

end Rayforce.Selection
