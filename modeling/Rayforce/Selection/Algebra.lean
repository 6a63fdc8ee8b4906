import Rayforce.Selection.Builder

namespace Rayforce.Selection

open Library.Segments

variable {sel : Option Rowsel} {p : List UInt8}

inductive Built (n : ℕ) : Option Rowsel → Prop
  | fromPred {p : List UInt8} (hp : p.length = n) : Built n (rayRowselFromPred p)
  | refine {sel : Option Rowsel} {p : List UInt8} (hsel : Built n sel) (hp : p.length = n) :
      Built n (rayRowselRefine sel p)
  | intersect {a b : Option Rowsel} (ha : Built n a) (hb : Built n b) : Built n (rayRowselIntersect a b)
  | builder {p : List UInt8} {workers : List (List (List UInt8))} {bs : List RowselBuilder} (hp : p.length = n)
      (hcover : workers.flatten = morsels p)
      (hw : List.Forall₂ (fun ms b => runWorker ms = some b) workers bs) : Built n (rowselBuilderFinish bs n)

def popcount (sel : Rowsel) (s : ℕ) : ℕ := (segRows sel.nrows s).countP (· ∈ rayRowselToIndices sel)

structure Valid (n : ℕ) (sel : Rowsel) : Prop where
  nrows : sel.nrows = n
  nSegs : sel.nSegs = segCount rayMorselElems n
  flags_length : sel.segFlags.length = sel.nSegs
  offsets_length : sel.segOffsets.length = sel.nSegs + 1
  flag : ∀ s < sel.nSegs, sel.flag s = classify (popcount sel s) (segLen n s)
  offset_zero : sel.offset 0 = 0
  offset_succ : ∀ s < sel.nSegs, sel.offset (s + 1) = sel.offset s +
    if sel.flag s = .mix then popcount sel s else 0
  idx_length : sel.idx.length = sel.offset sel.nSegs
  ascending : ∀ s < sel.nSegs, (sel.segIdx s).Pairwise (· < ·)
  inside : ∀ s < sel.nSegs, ∀ i ∈ sel.segIdx s, i < segLen n s
  total : sel.totalPass = (rayRowselToIndices sel).length

variable {n : ℕ}

namespace Kept

variable (f : Kept n)

lemma rowsOf_ascending : f.rowsOf.Pairwise (· < ·) := by
  have h : f.rowsOf = (List.range n).filter (· ∈ f.rowsOf) := by
    have hinter := inter_rowsOf (full n) f
    have hpos : ((full n).inter f).rowsOf = f.rowsOf := by
      refine congrArg (fun g => List.flatMap g (List.range (segs n))) ?_
      funext s
      exact congrArg _ (f.filter_range_pos s)
    rwa [hpos, full_rowsOf] at hinter
  rw [h]
  exact List.pairwise_lt_range.filter _

lemma popcount_layout (hn : n < 2 ^ 32) (s : ℕ) : popcount f.layout s = (f.pos s).length := by
  rw [popcount, f.toIndices_layout hn, layout_nrows, segRows_eq, List.countP_map, ← f.filter_range_pos s,
    ← List.countP_eq_length_filter]
  apply List.countP_congr
  intro i hi
  have hi := List.mem_range.mp hi
  simp only [Function.comp_apply, decide_eq_true_eq]
  rw [f.mem_rowsOf hi]

lemma layout_valid (hn : n < 2 ^ 32) : Valid n f.layout where
  nrows := rfl
  nSegs := rfl
  flags_length := by simp [layout]
  offsets_length := by simp [layout]
  flag s hs := by rw [f.popcount_layout hn, f.layout_flag hs, Kept.flag]
  offset_zero := f.layout_offset (Nat.zero_le _)
  offset_succ s hs := by
    rw [f.popcount_layout hn, f.layout_flag hs, f.layout_offset hs, f.layout_offset (Nat.le_of_lt hs), sumTo_succ,
      mixed_length]
  idx_length := (length_flatMap_range f.mixed (segs n)).trans (f.layout_offset le_rfl).symm
  ascending s hs := by
    rw [f.layout_segIdx hs, mixed]
    split
    · exact f.ascending s
    · exact List.Pairwise.nil
  inside s hs i hi := by
    rw [f.layout_segIdx hs, mixed] at hi
    split at hi
    · exact f.inside s i hi
    · cases hi
  total := by rw [f.toIndices_layout hn, length_rowsOf]; rfl

lemma rows_ite (hn : n < 2 ^ 32) {c : Prop} [Decidable c] (hc : c → f.total = n) :
    rows n (if c then none else some f.layout) = f.rowsOf := by
  split
  · exact (f.rowsOf_of_total (hc ‹_›)).symm
  · exact f.toIndices_layout hn

end Kept

section

variable (hn : n < 2 ^ 32)
include hn

lemma built_cases (h : Built n sel) : sel = none ∨ ∃ f : Kept n, sel = some f.layout := by
  induction h with
  | @fromPred p hp =>
    rw [rayRowselFromPred_eq hn p hp]
    split
    · exact .inl rfl
    · exact .inr ⟨_, rfl⟩
  | @refine sel p _ hp ih =>
    rcases ih with rfl | ⟨f, rfl⟩
    · rw [rayRowselRefine, rayRowselFromPred_eq hn p hp]
      split
      · exact .inl rfl
      · exact .inr ⟨_, rfl⟩
    · rw [f.rayRowselRefine_layout hn p hp]
      split
      · exact .inl rfl
      · exact .inr ⟨_, rfl⟩
  | intersect _ _ iha ihb =>
    rcases iha with rfl | ⟨f, rfl⟩
    · exact .inl rfl
    · rcases ihb with rfl | ⟨g, rfl⟩
      · exact .inl rfl
      · exact .inr ⟨f.inter g, f.rayRowselIntersect_layout g hn⟩
  | builder hp hcover hw =>
    subst hp
    exact .inr ⟨_, rowselBuilderFinish_eq hn hcover hw⟩

lemma rows_fromPred (hp : p.length = n) : rows n (rayRowselFromPred p) = (List.range n).filter (passes p) := by
  rw [rayRowselFromPred_eq hn p hp, Kept.rows_ite _ hn (·.2), Kept.refine_rowsOf, Kept.full_rowsOf]

lemma rows_refine (hp : p.length = n) (h : Built n sel) :
    rows n (rayRowselRefine sel p) = (rows n sel).filter (passes p) := by
  obtain rfl | ⟨f, rfl⟩ := built_cases hn h
  · exact rows_fromPred hn hp
  · rw [f.rayRowselRefine_layout hn p hp, Kept.rows_ite _ hn id, Kept.refine_rowsOf, rows, f.toIndices_layout hn]

lemma rows_intersect {a b : Rowsel} (ha : Built n (some a)) (hb : Built n (some b)) :
    rows n (rayRowselIntersect (some a) (some b)) = (rows n (some a)).filter (· ∈ rows n (some b)) := by
  obtain h | ⟨f, hf⟩ := built_cases hn ha
  · cases h
  obtain h | ⟨g, hg⟩ := built_cases hn hb
  · cases h
  rw [hf, hg, f.rayRowselIntersect_layout g hn, rows, rows, rows, Kept.toIndices_layout _ hn,
    Kept.toIndices_layout _ hn, Kept.toIndices_layout _ hn, Kept.inter_rowsOf]

lemma rows_ascending (h : Built n sel) : (rows n sel).Pairwise (· < ·) := by
  obtain rfl | ⟨f, rfl⟩ := built_cases hn h
  · exact List.pairwise_lt_range
  · rw [rows, f.toIndices_layout hn]
    exact f.rowsOf_ascending

lemma built_valid {sel : Rowsel} (h : Built n (some sel)) : Valid n sel := by
  obtain h | ⟨f, hf⟩ := built_cases hn h
  · cases h
  · rw [Option.some.inj hf]
    exact f.layout_valid hn

end

/-- The algebra over `n` rows; `intersect` works on two blocks. -/
theorem rowsel_algebra (hn : n < 2 ^ 32) {p : List UInt8} (hp : p.length = n) {sel : Option Rowsel}
    (hsel : Built n sel) {a b : Rowsel} (ha : Built n (some a)) (hb : Built n (some b)) :
    rows n (rayRowselFromPred p) = (List.range n).filter (passes p) ∧
    rows n (rayRowselRefine sel p) = (rows n sel).filter (passes p) ∧
    rows n (rayRowselIntersect (some a) (some b)) = (rows n (some a)).filter (· ∈ rows n (some b)) ∧
    rayRowselIntersect none sel = none ∧ rayRowselIntersect sel none = none ∧
    (rows n sel).Pairwise (· < ·) ∧ ∀ block, sel = some block → Valid n block := by
  refine ⟨rows_fromPred hn hp, rows_refine hn hp hsel, rows_intersect hn ha hb, rfl, ?_,
    rows_ascending hn hsel, ?_⟩
  · cases sel <;> rfl
  · rintro block rfl
    exact built_valid hn hsel

def evenRows : Rowsel := ⟨2, 3, 1, [.mix], [0, 2], [0, 2]⟩
def lowRows : Rowsel := ⟨2, 3, 1, [.mix], [0, 2], [0, 1]⟩

lemma built_evenRows : Built 3 (some evenRows) := by
  have h : rayRowselFromPred [1, 0, 1] = some evenRows := by decide
  exact h ▸ Built.fromPred rfl

lemma built_lowRows : Built 3 (some lowRows) := by
  have h : rayRowselFromPred [1, 1, 0] = some lowRows := by decide
  exact h ▸ Built.fromPred rfl

theorem rowsel_algebra_evenRows :
    rows 3 (rayRowselRefine (some lowRows) [1, 0, 1]) = (rows 3 (some lowRows)).filter (passes [1, 0, 1]) ∧
    rows 3 (rayRowselIntersect (some evenRows) (some lowRows))
      = (rows 3 (some evenRows)).filter (· ∈ rows 3 (some lowRows)) ∧ Valid 3 lowRows := by
  obtain ⟨-, hrefine, hinter, -, -, -, hvalid⟩ := rowsel_algebra (n := 3) (by decide) (p := [1, 0, 1]) rfl
    built_lowRows built_evenRows built_lowRows
  exact ⟨hrefine, hinter, hvalid lowRows rfl⟩

/-- A predicate that keeps both rows gives no block to intersect. -/
theorem intersect_absent_operand :
    rows 2 (rayRowselIntersect (rayRowselFromPred [1, 1]) (rayRowselFromPred [1, 0])) = [0, 1] ∧
    (rows 2 (rayRowselFromPred [1, 1])).filter (· ∈ rows 2 (rayRowselFromPred [1, 0])) = [0] := by
  decide

end Rayforce.Selection
