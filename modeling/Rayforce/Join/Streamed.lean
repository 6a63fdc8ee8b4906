import Rayforce.Join.Stream

namespace Rayforce.Join

variable {n : ℕ}

section

variable (S : Symbols)

def rowAt (t : Table) (i : ℕ) : List Value := t.map fun c => c.2.valueAt S (some i)

def rows (t : Table) : List (List Value) := (List.range (rayTableNrows t)).map (rowAt S t)

def names (t : Table) : List ℕ := t.map Prod.fst

end

section

variable {S : Symbols} {A B C A' B' C' R t u v : Table} {ps qs : List (ℕ × Option ℕ)} {x y x' y' z w : ℕ × Column}

structure Alike (S : Symbols) (x y : ℕ × Column) : Prop where
  name : x.1 = y.1
  type : x.2.type = y.2.type
  flagged_left : x.2.Flagged
  flagged_right : y.2.Flagged
  domain : x.2.type = .sym → x.2.domain ≠ y.2.domain → x.2.Placed S ∧ y.2.Placed S

def PoolsFit (t u : Table) : Prop := ∀ j, (poolOf t).getD j 0 + (poolOf u).getD j 0 < 2 ^ 32

lemma PoolsFit.mergeable (hp : PoolsFit t u) (h : List.Forall₂ (Alike S) t u) :
    List.Forall₂ (fun x y => x.1 = y.1 ∧ Mergeable S x.2 y.2) t u := by
  induction h with
  | nil => exact .nil
  | @cons x y t u hxy _ ih =>
    refine .cons ⟨hxy.name, hxy.type, hxy.flagged_left, hxy.flagged_right, fun hs => ?_, hxy.domain⟩
      (ih fun j => hp (j + 1))
    have h0 := hp 0
    simp only [poolOf, List.map_cons, List.getD_cons_zero, if_pos hs, if_pos (hxy.type ▸ hs)] at h0
    exact h0

lemma forall₂_alike (hA : ∀ c ∈ A, c.2.Flagged ∧ c.2.Placed S) (hB : ∀ c ∈ B, c.2.Flagged ∧ c.2.Placed S)
    (h : schema A = schema B) : List.Forall₂ (Alike S) A B := by
  induction A generalizing B with
  | nil =>
    obtain rfl := List.map_eq_nil_iff.mp h.symm
    exact .nil
  | cons x A ih =>
    cases B with
    | nil => cases h
    | cons y B =>
      obtain ⟨hxy, hrest⟩ := List.cons.inj h
      obtain ⟨hn, ht⟩ := Prod.mk.inj hxy
      obtain ⟨hfx, hpx⟩ := hA x (by simp)
      obtain ⟨hfy, hpy⟩ := hB y (by simp)
      exact .cons ⟨hn, ht, hfx, hfy, fun _ _ => ⟨hpx, hpy⟩⟩
        (ih (fun c hc => hA c (List.mem_cons_of_mem _ hc)) (fun c hc => hB c (List.mem_cons_of_mem _ hc)) hrest)

lemma LeftHolds.alike (hx : LeftHolds S ps x y) (hx' : LeftHolds S qs x' y') (h : Merged S x.2 x'.2 z.2)
    (hn : x.1 = z.1) (hn' : x'.1 = z.1) : Alike S y y' where
  name := by rw [← hx.name, ← hx'.name, hn, hn']
  type := by rw [← hx.type, ← hx'.type, h.type_left, h.type_right]
  flagged_left := hx.flagged
  flagged_right := hx'.flagged
  domain _ _ := ⟨hx.placed, hx'.placed⟩

lemma RightHolds.alike (hy : RightHolds S ps x y) (hy' : RightHolds S qs x y') : Alike S y y' where
  name := by rw [← hy.name, ← hy'.name]
  type := by rw [← hy.type, ← hy'.type]
  flagged_left := hy.flagged
  flagged_right := hy'.flagged
  domain hs hne := absurd ((hy.domain hs).trans (hy'.domain ((hy'.type.symm.trans hy.type).trans hs)).symm) hne

lemma MergedT.alike (h : MergedT S A B C) (hA : List.Forall₂ (LeftHolds S ps) A A')
    (hB : List.Forall₂ (LeftHolds S qs) B B') : List.Forall₂ (Alike S) A' B' := by
  induction h generalizing A' B' with
  | nil =>
    cases hA
    cases hB
    exact .nil
  | cons hx hy hm _ ih =>
    obtain ⟨-⟩ | ⟨ha, hA⟩ := hA
    obtain ⟨-⟩ | ⟨hb, hB⟩ := hB
    exact .cons (ha.alike hb hm hx hy) (ih hA hB)

lemma forall₂_rightHolds_alike (hA : List.Forall₂ (RightHolds S ps) R A')
    (hB : List.Forall₂ (RightHolds S qs) R B') :
    List.Forall₂ (Alike S) A' B' := by
  induction hA generalizing B' with
  | nil =>
    cases hB
    exact .nil
  | cons ha _ ih =>
    obtain ⟨-⟩ | ⟨hb, hB⟩ := hB
    exact .cons (ha.alike hb) (ih hB)

lemma MergedT.append_inv (h : MergedT S (A ++ A') (B ++ B') v) (hl : A.length = B.length) :
    ∃ V W, v = V ++ W ∧ MergedT S A B V ∧ MergedT S A' B' W := by
  induction A generalizing B v with
  | nil =>
    obtain rfl := List.length_eq_zero_iff.mp hl.symm
    exact ⟨[], v, rfl, .nil, h⟩
  | cons a A ih =>
    cases B with
    | nil => cases hl
    | cons b B =>
      cases h with
      | cons hx hy hm ht =>
        obtain ⟨V, W, rfl, hV, hW⟩ := ih ht (Nat.succ.inj hl)
        exact ⟨_ :: V, W, rfl, .cons hx hy hm hV, hW⟩

lemma Merged.valueAt_left {a b c : Column} (h : Merged S a b c) {i : ℕ} (hi : i < a.cells.length) :
    c.valueAt S (some i) = a.valueAt S (some i) := by
  rw [Column.valueAt, Column.valueAt, h.values, List.getD_append _ _ _ _ (by rwa [Column.values, List.length_map])]

lemma Merged.valueAt_right {a b c : Column} (h : Merged S a b c) (i : ℕ) :
    c.valueAt S (some (a.cells.length + i)) = b.valueAt S (some i) := by
  have hl : (a.values S).length = a.cells.length := by rw [Column.values, List.length_map]
  rw [Column.valueAt, Column.valueAt, h.values, List.getD_append_right _ _ _ _ (by omega), hl,
    Nat.add_sub_cancel_left]

lemma MergedT.rowAt_left (h : MergedT S A B C) {n i : ℕ} (hA : ∀ c ∈ A, c.2.cells.length = n) (hi : i < n) :
    rowAt S C i = rowAt S A i := by
  induction h with
  | nil => rfl
  | @cons x y z as bs cs _ _ hm _ ih =>
    have hx : x.2.cells.length = n := hA x (by simp)
    simp only [rowAt, List.map_cons] at ih ⊢
    rw [hm.valueAt_left (hx ▸ hi), ih fun c hc => hA c (List.mem_cons_of_mem _ hc)]

lemma MergedT.rowAt_right (h : MergedT S A B C) (hA : ∀ c ∈ A, c.2.cells.length = n) (i : ℕ) :
    rowAt S C (n + i) = rowAt S B i := by
  induction h with
  | nil => rfl
  | @cons x y z as bs cs _ _ hm _ ih =>
    have hx : x.2.cells.length = n := hA x (by simp)
    simp only [rowAt, List.map_cons] at ih ⊢
    rw [← hx, hm.valueAt_right, hx, ih fun c hc => hA c (List.mem_cons_of_mem _ hc)]

lemma MergedT.rows (h : MergedT S A B C) (hA : TableOk S A) : rows S C = rows S A ++ rows S B := by
  have hlen : ∀ c ∈ A, c.2.cells.length = rayTableNrows A := fun c hc => (hA c hc).2.2
  rw [Join.rows, h.nrows, List.range_add, List.map_append, List.map_map]
  congr 1
  · apply List.map_congr_left
    intro i hi
    exact h.rowAt_left hlen (List.mem_range.mp hi)
  · apply List.map_congr_left
    intro i _
    exact h.rowAt_right hlen i

lemma LeftHolds.append (hx : LeftHolds S ps x y) (hx' : LeftHolds S qs x' y') (h : Merged S x.2 x'.2 z.2)
    (hn : x.1 = z.1) (hw : Merged S y.2 y'.2 w.2) (hnw : y.1 = w.1) (hlen : x.2.cells.length = n)
    (hps : ∀ p ∈ ps, p.1 < n) : LeftHolds S (ps ++ qs.map (shift n)) z w where
  name := by rw [← hn, hx.name, hnw]
  type := by rw [← h.type_left, hx.type, hw.type_left]
  flagged := hw.flagged
  placed := hw.placed hx.placed hx'.placed
  values := by
    rw [hw.values, hx.values, hx'.values, List.map_append, List.map_map]
    congr 1
    · apply List.map_congr_left
      intro p hp
      exact (h.valueAt_left (hlen ▸ hps p hp)).symm
    · apply List.map_congr_left
      intro q _
      show _ = z.2.valueAt S (some (n + q.1))
      rw [← hlen, h.valueAt_right]

lemma RightHolds.append (hy : RightHolds S ps x y) (hy' : RightHolds S qs x y') (hw : Merged S y.2 y'.2 w.2)
    (hnw : y.1 = w.1) (n : ℕ) : RightHolds S (ps ++ qs.map (shift n)) x w where
  name := by rw [hy.name, hnw]
  type := by rw [hy.type, hw.type_left]
  flagged := hw.flagged
  domain hs := by
    have h1 := hy.domain (hw.type_left.trans hs)
    have h2 := hy'.domain (hw.type_right.trans hs)
    rw [hw.domain (h1.trans h2.symm) hs, h1]
  values := by
    rw [hw.values, hy.values, hy'.values, List.map_append, List.map_map]
    rfl

lemma MergedT.leftHolds (h : MergedT S A B C) (hw : MergedT S A' B' C') (hA : List.Forall₂ (LeftHolds S ps) A A')
    (hB : List.Forall₂ (LeftHolds S qs) B B') (hlen : ∀ c ∈ A, c.2.cells.length = n) (hps : ∀ p ∈ ps, p.1 < n) :
    List.Forall₂ (LeftHolds S (ps ++ qs.map (shift n))) C C' := by
  induction h generalizing A' B' C' with
  | nil =>
    cases hA
    cases hB
    cases hw
    exact .nil
  | cons hx hy hm _ ih =>
    obtain ⟨-⟩ | ⟨ha, hA⟩ := hA
    obtain ⟨-⟩ | ⟨hb, hB⟩ := hB
    cases hw with
    | cons hx' hy' hm' ht =>
      exact .cons (ha.append hb hm hx hm' hx' (hlen _ (by simp)) hps)
        (ih ht hA hB fun c hc => hlen c (List.mem_cons_of_mem _ hc))

lemma MergedT.rightHolds (hw : MergedT S A' B' C') (hA : List.Forall₂ (RightHolds S ps) R A')
    (hB : List.Forall₂ (RightHolds S qs) R B') (n : ℕ) :
      List.Forall₂ (RightHolds S (ps ++ qs.map (shift n))) R C' := by
  induction hw generalizing R with
  | nil =>
    cases hA
    exact .nil
  | cons hx _ hm _ ih =>
    obtain ⟨-⟩ | ⟨ha, hA⟩ := hA
    obtain ⟨-⟩ | ⟨hb, hB⟩ := hB
    exact .cons (ha.append hb hm hx n) (ih hA hB)

lemma MergedT.holds (h : MergedT S A B C) (hA : TableOk S A) (ht : Holds S A R ps t) (hu : Holds S B R qs u)
    (hps : ∀ p ∈ ps, p.1 < rayTableNrows A) (hfit : PoolsFit t u) :
    ∃ v, rayResultMerge S t u = .ok v ∧ Holds S C R (ps ++ qs.map (shift (rayTableNrows A))) v ∧
      MergedT S t u v := by
  obtain ⟨A₁, R₁, rfl, hA₁, hR₁⟩ := ht
  obtain ⟨B₁, R₂, rfl, hB₁, hR₂⟩ := hu
  obtain ⟨v, hv, hm⟩ := rayResultMerge_spec
    (hfit.mergeable (List.rel_append (h.alike hA₁ hB₁) (forall₂_rightHolds_alike hR₁ hR₂)))
  obtain ⟨V, W, rfl, hV, hW⟩ := hm.append_inv (h.alike hA₁ hB₁).length_eq
  exact ⟨V ++ W, hv, ⟨V, W, rfl, h.leftHolds hV hA₁ hB₁ (fun c hc => (hA c hc).2.2) hps, hW.rightHolds hR₁ hR₂ _⟩,
    hm⟩

lemma MergedT.poolAt (h : MergedT S A B C) (j : ℕ) :
    (poolOf C).getD j 0 = (poolOf A).getD j 0 + (poolOf B).getD j 0 := by
  induction h generalizing j with
  | nil => rfl
  | @cons x y z as bs cs hx hy hm _ ih =>
    cases j with
    | succ j => exact ih j
    | zero =>
      simp only [poolOf, List.map_cons, List.getD_cons_zero, hm.type_left, hm.type_right]
      by_cases hs : z.2.type = .str
      · rw [if_pos hs, if_pos hs, if_pos hs, hm.pool hs]
      · rw [if_neg hs, if_neg hs, if_neg hs]

end

section

open Finset

variable {E : Env} {keys : List JoinKey} {op : JoinOp} {orders : ℕ → List ℕ} {T : PTable} {R : Table}
    {seg : ℕ → Table}

structure Segmented (E : Env) (keys : List JoinKey) (op : JoinOp) (T : PTable) (R : Table)
    (seg : ℕ → Table) : Prop where
  split : 0 < joinPartedSegCount T
  builds : ∀ s < joinPartedSegCount T, buildSegmentTable T s = .ok (seg s)
  ok : ∀ s < joinPartedSegCount T, TableOk E.S (seg s)
  schema : ∀ s < joinPartedSegCount T, schema (seg s) = schema (seg 0)
  keysOk : ∀ s < joinPartedSegCount T, KeysOk E keys (seg s) R
  keyed : ∀ s < joinPartedSegCount T, Keyed E.S keys (seg s)
  right : TableOk E.S R
  rightKeyed : RightKeyed E.S keys R
  rows : ∑ s ∈ range (joinPartedSegCount T), rayTableNrows (seg s) ≤ 2 ^ 31 - 1
  rightRows : rayTableNrows R ≤ 2 ^ 31 - 1
  pools : ∀ j, ∑ s ∈ range (joinPartedSegCount T),
    (poolOf (seg s) ++ poolOf (op.rightCols keys R)).getD j 0 < 2 ^ 32

def streamRun (E : Env) (keys : List JoinKey) (op : JoinOp) (orders : ℕ → List ℕ) (T : PTable)
    (R : Table) (s : ℕ) :
    Except JoinErr Table := do
  let seg ← buildSegmentTable T s
  flatFn E keys (orders s) seg R op

structure Reached (E : Env) (keys : List JoinKey) (op : JoinOp) (orders : ℕ → List ℕ) (T : PTable) (R : Table)
    (seg : ℕ → Table) (k : ℕ) (F acc : Table) (ps : List (ℕ × Option ℕ)) : Prop where
  flat : mergeRuns E.S (buildSegmentTable T) k = .ok (some F)
  streamed : mergeRuns E.S (streamRun E keys op orders T R) k = .ok (some acc)
  ok : TableOk E.S F
  schema : schema F = schema (seg 0)
  keysOk : KeysOk E keys F R
  keyed : Keyed E.S keys F
  nrows : rayTableNrows F = ∑ s ∈ range k, rayTableNrows (seg s)
  rows : rows E.S F = (List.range k).flatMap fun s => rows E.S (seg s)
  pool : ∀ j, (poolOf F).getD j 0 = ∑ s ∈ range k, (poolOf (seg s)).getD j 0
  holds : Holds E.S F (op.rightCols keys R) ps acc
  perm : ps.Perm (op.pairs E keys F R)
  same : rayTableNrows R ≤ rayParallelThreshold ∨ op = .anti → ps = op.pairs E keys F R
  accPool : ∀ j, (poolOf acc).getD j 0 = ∑ s ∈ range k, (poolOf (seg s) ++ poolOf (op.rightCols keys R)).getD j 0

lemma mergeRuns_one {S : Symbols} {run : ℕ → Except JoinErr Table} {r : Table} (h : run 0 = .ok r) :
    mergeRuns S run 1 = .ok (some r) := by
  simp only [mergeRuns, h]
  rfl

lemma mergeRuns_succ {S : Symbols} {run : ℕ → Except JoinErr Table} {k : ℕ} {a r m : Table}
    (ha : mergeRuns S run k = .ok (some a)) (hr : run k = .ok r) (hm : rayResultMerge S a r = .ok m) :
    mergeRuns S run (k + 1) = .ok (some m) := by
  simp only [mergeRuns, ha, hr]
  show (do let m ← rayResultMerge S a r; return some m) = _
  rw [hm]
  rfl

lemma getD_le_append (xs ys : List ℕ) (j : ℕ) : xs.getD j 0 ≤ (xs ++ ys).getD j 0 := by
  rcases lt_or_ge j xs.length with h | h
  · rw [List.getD_append _ _ _ _ h]
  · rw [List.getD_eq_default _ _ h]
    exact Nat.zero_le _

lemma sum_prefix_le (f : ℕ → ℕ) {k n : ℕ} (h : k ≤ n) : ∑ s ∈ range k, f s ≤ ∑ s ∈ range n, f s :=
  sum_le_sum_of_subset (range_subset_range.mpr h)

lemma not_tooLong {L R : Table} (hl : rayTableNrows L ≤ 2 ^ 31 - 1) (hr : rayTableNrows R ≤ 2 ^ 31 - 1) :
    tooLong L R = false := by
  rw [tooLong, decide_eq_false_iff_not]
  omega

lemma pairs_fst_lt {L : Table} {ps : List (ℕ × Option ℕ)} (h : ps.Perm (op.pairs E keys L R)) :
    ∀ p ∈ ps, p.1 < rayTableNrows L :=
  fun _ hp => (spec_bounds (h.subset hp)).1

section

variable (h : Segmented E keys op T R seg)
include h

lemma Segmented.segRows_le {s : ℕ} (hs : s < joinPartedSegCount T) : rayTableNrows (seg s) ≤ 2 ^ 31 - 1 :=
  (single_le_sum_of_canonicallyOrdered (mem_range.mpr hs)).trans h.rows

section

variable (ho : ∀ s, (orders s).Perm (List.range (rayTableNrows R)))
include ho

lemma Segmented.run {s : ℕ} (hs : s < joinPartedSegCount T) : ∃ r qs, streamRun E keys op orders T R s = .ok r ∧
      Holds E.S (seg s) (op.rightCols keys R) qs r ∧ qs.Perm (op.pairs E keys (seg s) R) ∧
      (rayTableNrows R ≤ rayParallelThreshold ∨ op = .anti → qs = op.pairs E keys (seg s) R) ∧
      poolOf r = poolOf (seg s) ++ poolOf (op.rightCols keys R) := by
  obtain ⟨r, qs, hr, hh, hp, he, hpool⟩ := flatFn_spec op (h.ok s hs) h.right (h.keysOk s hs)
    (not_tooLong (h.segRows_le hs) h.rightRows) (ho s)
  refine ⟨r, qs, ?_, hh, hp, he, hpool⟩
  rw [streamRun, h.builds s hs]
  exact hr

lemma Segmented.first : ∃ acc ps, Reached E keys op orders T R seg 1 (seg 0) acc ps := by
  obtain ⟨r, qs, hr, hh, hp, he, hpool⟩ := h.run ho h.split
  refine ⟨r, qs, mergeRuns_one (h.builds 0 h.split), mergeRuns_one hr, h.ok 0 h.split, rfl, h.keysOk 0 h.split,
    h.keyed 0 h.split, ?_, ?_, ?_, hh, hp, he, ?_⟩
  · rw [sum_range_one]
  · exact (List.append_nil _).symm
  · intro j
    rw [sum_range_one]
  · intro j
    rw [sum_range_one, hpool]

lemma Reached.step {k : ℕ} {F acc : Table} {ps : List (ℕ × Option ℕ)} (hk : k < joinPartedSegCount T)
    (hr : Reached E keys op orders T R seg k F acc ps) :
      ∃ F' acc' ps', Reached E keys op orders T R seg (k + 1) F' acc' ps' := by
  have hok := h.ok k hk
  have hsum : ∀ j, (poolOf acc).getD j 0 + (poolOf (seg k) ++ poolOf (op.rightCols keys R)).getD j 0 < 2 ^ 32 := by
    intro j
    rw [hr.accPool, ← sum_range_succ]
    exact (sum_prefix_le _ (Nat.succ_le_of_lt hk)).trans_lt (h.pools j)
  have hflat : PoolsFit F (seg k) := by
    intro j
    rw [hr.pool, ← sum_range_succ]
    exact ((sum_le_sum fun s _ => getD_le_append _ _ j).trans (sum_prefix_le _ (Nat.succ_le_of_lt hk))).trans_lt
      (h.pools j)
  have halike : List.Forall₂ (Alike E.S) F (seg k) :=
    forall₂_alike (fun c hc => ⟨(hr.ok c hc).1, (hr.ok c hc).2.1⟩) (fun c hc => ⟨(hok c hc).1, (hok c hc).2.1⟩)
      (hr.schema.trans (h.schema k hk).symm)
  obtain ⟨C, hC, hm⟩ := rayResultMerge_spec (hflat.mergeable halike)
  obtain ⟨r, qs, hrun, hh, hp, he, hpool⟩ := h.run ho hk
  obtain ⟨v, hv, hholds, hmv⟩ := hm.holds hr.ok hr.holds hh (pairs_fst_lt hr.perm) fun j => by
    rw [hpool]
    exact hsum j
  have hpairs := hm.pairs op hr.ok hok hr.keysOk (h.keysOk k hk) hr.keyed (h.keyed k hk) h.rightKeyed
  refine ⟨C, v, _, mergeRuns_succ hr.flat (h.builds k hk) hC, mergeRuns_succ hr.streamed hrun hv, hm.ok hr.ok hok,
    hm.schema.trans hr.schema, hm.keysOk hr.keysOk, hm.keyed hr.keyed (h.keyed k hk), ?_, ?_, ?_,
      hholds, ?_, ?_, ?_⟩
  · rw [hm.nrows, hr.nrows, sum_range_succ]
  · rw [hm.rows hr.ok, hr.rows, List.range_succ, List.flatMap_append, List.flatMap_singleton]
  · intro j
    rw [hm.poolAt, hr.pool, sum_range_succ]
  · rw [hpairs]
    exact hr.perm.append (hp.map _)
  · intro hs
    rw [hpairs, hr.same hs, he hs]
  · intro j
    rw [hmv.poolAt, hr.accPool, hpool, sum_range_succ]

lemma Segmented.reached {k : ℕ}
    (h1 : 1 ≤ k) (hk : k ≤ joinPartedSegCount T) : ∃ F acc ps, Reached E keys op orders T R seg k F acc ps := by
  induction k, h1 using Nat.le_induction with
  | base =>
    obtain ⟨acc, ps, hr⟩ := h.first ho
    exact ⟨seg 0, acc, ps, hr⟩
  | succ k _ ih =>
    obtain ⟨F, acc, ps, hr⟩ := ih (by omega)
    exact hr.step h ho hk

end

end

end

end Rayforce.Join
