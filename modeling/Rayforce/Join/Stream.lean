import Rayforce.Join.Flat

namespace Rayforce.Join

open List Option

variable {nr l : ℕ}

inductive PCol
  | parted (segs : List Column)
  | mapcommon (keys : Column)
  | plain (c : Column)

abbrev PTable := List (ℕ × PCol)

section

variable (E : Env) (keys : List JoinKey)

def rayResultMerge (S : Symbols) : Table → Table → Except JoinErr Table
  | [], _ => .ok []
  | _ :: _, [] => .error .schema
  | (n, a) :: as, (_, b) :: bs => do
    let c ← rayVecConcat S a b
    let cs ← rayResultMerge S as bs
    return (n, c) :: cs

def firstParted : PTable → Option (List Column)
  | [] => none
  | (_, .parted segs) :: _ => some segs
  | _ :: t => firstParted t

def joinPartedSegCount (t : PTable) : ℕ := (firstParted t).elim 0 List.length

def segRows (t : PTable) (s : ℕ) : ℕ :=
  (firstParted t).elim 0 fun segs => (segs[s]?).elim 0 fun c => c.cells.length

def segmentColumn (rows s : ℕ) : PCol → Except JoinErr Column
  | .mapcommon kv =>
    match kv.cells[s]? with
    | none => .error .schema
    | some x => .ok ⟨kv.type, List.replicate rows x, false, kv.domain, 0⟩
  | .parted segs =>
    match segs[s]? with
    | none => .error .schema
    | some c => .ok c
  | .plain _ => .error .schema

def buildSegmentTable (t : PTable) (s : ℕ) : Except JoinErr Table :=
  t.mapM fun c => (segmentColumn (segRows t s) s c.2).map fun d => (c.1, d)

def isPlain : PCol → Bool
  | .plain _ => true
  | _ => false

def joinTableHasPartedCol (t : PTable) : Bool := t.any fun c => !isPlain c.2

def plainCols (t : PTable) : Table := t.filterMap fun c => match c.2 with
  | .plain d => some (c.1, d)
  | _ => none

def mergeRuns (S : Symbols) (run : ℕ → Except JoinErr Table) : ℕ → Except JoinErr (Option Table)
  | 0 => .ok none
  | n + 1 => do
    let acc ← mergeRuns S run n
    let r ← run n
    match acc with
    | none => return some r
    | some a =>
      let m ← rayResultMerge S a r
      return some m

def joinFlattenParted (t : PTable) : Except JoinErr (Option Table) :=
  mergeRuns E.S (buildSegmentTable t) (joinPartedSegCount t)

def eligible (op : JoinOp) (leftParted : Bool) : Bool :=
  match op with
  | .join .inner => true
  | .join .left => leftParted
  | .anti => leftParted

variable (op : JoinOp) (orders : ℕ → List ℕ)

def joinBroadcastStream (L R : PTable) : Except JoinErr (Option Table) :=
  let leftParted := joinTableHasPartedCol L
  if leftParted = joinTableHasPartedCol R then .ok none
  else if eligible op leftParted = false then .ok none
  else
    let streamed := if leftParted then L else R
    let nseg := joinPartedSegCount streamed
    if nseg < 1 then .ok none
    else mergeRuns E.S (fun s => do
      let seg ← buildSegmentTable streamed s
      if leftParted then flatFn E keys (orders s) seg (plainCols R) op
      else flatFn E keys (orders s) (plainCols L) seg op) nseg

def flatten (t : PTable) : Except JoinErr Table :=
  if joinTableHasPartedCol t then do
    match ← joinFlattenParted E t with
    | some f => return f
    | none => .error .oom
  else .ok (plainCols t)

def joinWithPartedGuard (L R : PTable) : Except JoinErr Table := do
  match ← joinBroadcastStream E keys op orders L R with
  | some t => return t
  | none =>
    let left ← flatten E L
    let right ← flatten E R
    flatFn E keys (orders 0) left right op

end

section

variable {S : Symbols}

inductive MergedT (S : Symbols) : Table → Table → Table → Prop
  | nil : MergedT S [] [] []
  | cons {x y z : ℕ × Column} {as bs cs : Table} (hx : x.1 = z.1) (hy : y.1 = z.1) (h : Merged S x.2 y.2 z.2)
      (ht : MergedT S as bs cs) : MergedT S (x :: as) (y :: bs) (z :: cs)

lemma rayResultMerge_spec {a b : Table} (h : List.Forall₂ (fun x y => x.1 = y.1 ∧ Mergeable S x.2 y.2) a b) :
    ∃ c, rayResultMerge S a b = .ok c ∧ MergedT S a b c := by
  induction h with
  | nil => exact ⟨[], rfl, .nil⟩
  | @cons x y as bs hxy _ ih =>
    obtain ⟨cs, hcs, hm⟩ := ih
    obtain ⟨c, hc, hmc⟩ := rayVecConcat_spec hxy.2
    refine ⟨(x.1, c) :: cs, ?_, .cons rfl hxy.1.symm hmc hm⟩
    simp only [rayResultMerge, hc, hcs]
    rfl

variable {A B C : Table}

section

variable (h : MergedT S A B C)
include h

lemma MergedT.col (n : ℕ) : (rayTableGetCol A n = none ∧ rayTableGetCol B n = none ∧ rayTableGetCol C n = none) ∨
    ∃ a b c, rayTableGetCol A n = some a ∧ rayTableGetCol B n = some b ∧ rayTableGetCol C n = some c ∧
      Merged S a b c ∧
      (∃ i, (i, a) ∈ A) ∧ (∃ i, (i, b) ∈ B) := by
  induction h with
  | nil => exact .inl ⟨rfl, rfl, rfl⟩
  | @cons x y z as bs cs hx hy hm _ ih =>
    simp only [rayTableGetCol, find?_cons, hx, hy] at ih ⊢
    by_cases hn : z.1 = n
    · refine .inr ⟨x.2, y.2, z.2, by simp [hn], by simp [hn], by simp [hn], hm, ⟨x.1, by simp⟩, ⟨y.1, by simp⟩⟩
    · simp only [hn, decide_false]
      rcases ih with h | ⟨a, b, c, ha, hb, hc, hm, ⟨i, hi⟩, ⟨j, hj⟩⟩
      · exact .inl h
      · exact .inr ⟨a, b, c, ha, hb, hc, hm, ⟨i, mem_cons_of_mem _ hi⟩, ⟨j, mem_cons_of_mem _ hj⟩⟩

lemma MergedT.nrows : rayTableNrows C = rayTableNrows A + rayTableNrows B := by
  cases h with
  | nil => rfl
  | cons hx hy hm _ => exact hm.length

lemma MergedT.ok_aux {a b : ℕ} (hA : ∀ c ∈ A, c.2.Flagged ∧ c.2.Placed S ∧ c.2.cells.length = a)
    (hB : ∀ c ∈ B, c.2.Flagged ∧ c.2.Placed S ∧ c.2.cells.length = b) :
    ∀ c ∈ C, c.2.Flagged ∧ c.2.Placed S ∧ c.2.cells.length = a + b := by
  induction h with
  | nil => simp
  | @cons x y z as bs cs hx hy hm _ ih =>
    intro c hc
    rcases mem_cons.mp hc with rfl | hc
    · obtain ⟨-, hpx, hlx⟩ := hA x (by simp)
      obtain ⟨-, hpy, hly⟩ := hB y (by simp)
      exact ⟨hm.flagged, hm.placed hpx hpy, by rw [hm.length, hlx, hly]⟩
    · exact ih (fun d hd => hA d (mem_cons_of_mem _ hd)) (fun d hd => hB d (mem_cons_of_mem _ hd)) c hc

lemma MergedT.ok (hA : TableOk S A) (hB : TableOk S B) : TableOk S C := by
  rw [TableOk, h.nrows]
  exact h.ok_aux hA hB

lemma MergedT.pool : poolOf C = List.zipWith (· + ·) (poolOf A) (poolOf B) := by
  induction h with
  | nil => rfl
  | @cons x y z as bs cs hx hy hm _ ih =>
    simp only [poolOf, map_cons, zipWith_cons_cons] at ih ⊢
    rw [ih, hm.type_left, hm.type_right]
    congr 1
    by_cases hs : z.2.type = .str
    · rw [if_pos hs, if_pos hs, if_pos hs, hm.pool hs]
    · rw [if_neg hs, if_neg hs, if_neg hs]

end

def schema (t : Table) : List (ℕ × ColType) := t.map fun c => (c.1, c.2.type)

lemma MergedT.schema (h : MergedT S A B C) : schema C = schema A := by
  induction h with
  | nil => rfl
  | cons hx hy hm _ ih =>
    simp only [Join.schema, map_cons] at ih ⊢
    rw [ih, hx, hm.type_left]

end

section

variable {E : Env} {keys : List JoinKey} {A B C L R : Table} {op : JoinOp}

def Keyed (S : Symbols) (keys : List JoinKey) (L : Table) : Prop :=
  ∀ k ∈ keys, ∀ c, k.leftVec L = some c → ∀ v ∈ c.values S, v.IsKey

def RightKeyed (S : Symbols) (keys : List JoinKey) (R : Table) : Prop :=
  ∀ k ∈ keys, ∀ c, k.rightVec R = some c → c.Placed S ∧ c.cells.length = rayTableNrows R ∧
    ∀ v ∈ c.values S, v.IsKey

lemma MergedT.leftVec (h : MergedT E.S A B C) (k : JoinKey) :
    (k.leftVec A = none ∧ k.leftVec B = none ∧ k.leftVec C = none) ∨
    ∃ a b c, k.leftVec A = some a ∧ k.leftVec B = some b ∧ k.leftVec C = some c ∧ Merged E.S a b c ∧
      (∃ i, (i, a) ∈ A) ∧ (∃ i, (i, b) ∈ B) := by
  cases hk : k.left with
  | none => exact .inl (by simp [JoinKey.leftVec, hk])
  | some n => simpa [JoinKey.leftVec, hk] using h.col n

lemma MergedT.keyed (h : MergedT E.S A B C) (hA : Keyed E.S keys A) (hB : Keyed E.S keys B) :
    Keyed E.S keys C := by
  intro k hk c hc v hv
  rcases h.leftVec k with ⟨-, -, hn⟩ | ⟨a, b, c', ha, hb, hc', hm, -, -⟩
  · rw [hc] at hn
    cases hn
  · obtain rfl := some.inj (hc.symm.trans hc')
    rw [hm.values] at hv
    exact (mem_append.mp hv).elim (hA k hk a ha v) (hB k hk b hb v)

lemma Comparable.of_type {a c rc : Column} (h : Comparable a rc) (ht : a.type = c.type) : Comparable c rc := by
  rw [Comparable, ← ht]
  exact h

lemma MergedT.keysOk (h : MergedT E.S A B C) (hA : KeysOk E keys A R) : KeysOk E keys C R := by
  have hcol := h.col E.countName
  refine ⟨?_, ?_, ?_⟩
  · intro k hk lc rc hl hr
    rcases h.leftVec k with ⟨-, -, hn⟩ | ⟨a, b, c, ha, -, hc, hm, -, -⟩
    · rw [hl] at hn
      cases hn
    · obtain rfl := some.inj (hl.symm.trans hc)
      exact (hA.comparable k hk a rc ha hr).of_type hm.type_left
  · intro hf
    rcases hcol with ⟨-, -, hn⟩ | ⟨a, b, c, ha, -⟩
    · rw [hn] at hf
      cases hf
    · exact hA.wide (by rw [ha]; rfl)
  · rw [← hA.noStr, hasStrKey, hasStrKey, Bool.eq_iff_iff, List.any_eq_true, List.any_eq_true]
    have hstr : ∀ k : JoinKey, isStr (k.leftVec C) = isStr (k.leftVec A) := by
      intro k
      rcases h.leftVec k with ⟨ha, -, hc⟩ | ⟨a, b, c, ha, -, hc, hm, -, -⟩
      · rw [ha, hc]
      · rw [ha, hc, isStr, isStr, elim_some, elim_some, hm.type_left]
    simp only [hstr]

lemma rowsEq_congr {L' : Table} {l l' r : ℕ} (hR : RightKeyed E.S keys R) (hr : r < rayTableNrows R)
    (h : ∀ k ∈ keys, (k.leftVec L = none ∧ k.leftVec L' = none) ∨
      ∃ a c v, k.leftVec L = some a ∧ k.leftVec L' = some c ∧ a.type = c.type ∧ a.Placed E.S ∧
        c.Placed E.S ∧ v.IsKey ∧
        (a.values E.S)[l]? = some v ∧ (c.values E.S)[l']? = some v ∧
        ∀ rc, k.rightVec R = some rc → Comparable a rc) : rowsEq E keys L R l r = rowsEq E keys L' R l' r := by
  rw [rowsEq, rowsEq, joinKeysEq, joinKeysEq, zip_map', zip_map', List.all_map, List.all_map]
  rw [Bool.eq_iff_iff, List.all_eq_true, List.all_eq_true]
  refine forall₂_congr fun k hk => ?_
  rw [← Bool.eq_iff_iff]
  simp only [Function.comp_apply]
  rcases h k hk with ⟨h1, h2⟩ | ⟨a, c, v, ha, hc, ht, hpa, hpc, hv, hva, hvc, hcomp⟩
  · rw [h1, h2]
  · rw [ha, hc]
    cases hrc : k.rightVec R with
    | none => rfl
    | some rc =>
      obtain ⟨hpr, hlen, hkr⟩ := hR k hk rc hrc
      have hlt : r < (rc.values E.S).length := by rw [Column.values, length_map, hlen]; exact hr
      have hw : (rc.values E.S)[r]? = some (rc.values E.S)[r] := getElem?_eq_getElem hlt
      have hkw := hkr _ (getElem_mem hlt)
      show keyEq E a rc l r = keyEq E c rc l' r
      rw [keyEq_values hpa hpr (hcomp rc hrc) hva hw hv hkw,
        keyEq_values hpc hpr ((hcomp rc hrc).of_type ht) hvc hw hv hkw, ht]

lemma values_length {c : Column} : (c.values E.S).length = c.cells.length := by rw [Column.values, length_map]

lemma MergedT.rowsEq_left (h : MergedT E.S A B C) (hA : TableOk E.S A) (hB : TableOk E.S B)
    (hk : KeysOk E keys A R)
    (hKA : Keyed E.S keys A) (hR : RightKeyed E.S keys R) {l r : ℕ} (hl : l < rayTableNrows A)
    (hr : r < rayTableNrows R) : rowsEq E keys C R l r = rowsEq E keys A R l r := by
  refine (rowsEq_congr hR hr fun k hkm => ?_).symm
  rcases h.leftVec k with ⟨ha, -, hc⟩ | ⟨a, b, c, ha, -, hc, hm, ⟨i, hi⟩, ⟨j, hj⟩⟩
  · exact .inl ⟨ha, hc⟩
  · obtain ⟨-, hpa, hlen⟩ := hA _ hi
    have hpb := (hB _ hj).2.1
    have hlt : l < (a.values E.S).length := by rw [values_length, hlen]; exact hl
    refine .inr ⟨a, c, (a.values E.S)[l], ha, hc, hm.type_left, hpa, hm.placed hpa hpb,
      hKA k hkm a ha _ (getElem_mem hlt), getElem?_eq_getElem hlt, ?_, fun rc hrc =>
        hk.comparable k hkm a rc ha hrc⟩
    rw [hm.values, getElem?_append_left hlt, getElem?_eq_getElem hlt]

lemma MergedT.rowsEq_right (h : MergedT E.S A B C) (hA : TableOk E.S A) (hB : TableOk E.S B)
    (hk : KeysOk E keys B R)
    (hKB : Keyed E.S keys B) (hR : RightKeyed E.S keys R) {l r : ℕ} (hl : l < rayTableNrows B)
    (hr : r < rayTableNrows R) : rowsEq E keys C R (rayTableNrows A + l) r = rowsEq E keys B R l r := by
  refine (rowsEq_congr hR hr fun k hkm => ?_).symm
  rcases h.leftVec k with ⟨-, hb, hc⟩ | ⟨a, b, c, -, hb, hc, hm, ⟨i, hi⟩, ⟨j, hj⟩⟩
  · exact .inl ⟨hb, hc⟩
  · obtain ⟨-, hpa, hla⟩ := hA _ hi
    obtain ⟨-, hpb, hlb⟩ := hB _ hj
    have hlt : l < (b.values E.S).length := by rw [values_length, hlb]; exact hl
    refine .inr ⟨b, c, (b.values E.S)[l], hb, hc, hm.type_right, hpb, hm.placed hpa hpb,
      hKB k hkm b hb _ (getElem_mem hlt), getElem?_eq_getElem hlt, ?_, fun rc hrc =>
        hk.comparable k hkm b rc hb hrc⟩
    have hlen : (a.values E.S).length = rayTableNrows A := by rw [values_length, hla]
    rw [hm.values, ← hlen, getElem?_append_right (by omega), Nat.add_sub_cancel_left, getElem?_eq_getElem hlt]

def shift (n : ℕ) (p : ℕ × Option ℕ) : ℕ × Option ℕ := (n + p.1, p.2)

lemma row_congr (g : ℕ → ℕ → Bool) (m : ℕ) {f : ℕ → ℕ → Bool} (h : ∀ r < nr, f l r = g m r) :
    op.row f nr l = (op.row g nr m).map fun p => (l, p.2) := by
  cases op with
  | join kind =>
    have hf : (List.range nr).reverse.filter (f l) = (List.range nr).reverse.filter (g m) :=
      filter_congr fun r hr => h r (mem_range.mp (mem_reverse.mp hr))
    rw [JoinOp.row, JoinOp.row, hf, Library.Joining.emit, Library.Joining.emit]
    split_ifs
    · rfl
    · rw [List.map_map]
      rfl
  | anti =>
    have ha : (List.range nr).any (f l) = (List.range nr).any (g m) := by
      rw [Bool.eq_iff_iff, List.any_eq_true, List.any_eq_true]
      exact exists_congr fun r => and_congr_right fun hr => by rw [h r (mem_range.mp hr)]
    rw [JoinOp.row, JoinOp.row, ha]
    split_ifs <;> rfl

lemma row_fst {eq : ℕ → ℕ → Bool} {p : ℕ × Option ℕ} (h : p ∈ op.row eq nr l) : p.1 = l := by
  cases op with
  | join kind =>
    rw [JoinOp.row, Library.Joining.emit] at h
    split_ifs at h
    · rw [mem_singleton.mp h]
    · obtain ⟨r, -, rfl⟩ := mem_map.mp h
      rfl
  | anti =>
    rw [JoinOp.row] at h
    split_ifs at h
    · cases h
    · rw [mem_singleton.mp h]

lemma MergedT.pairs (op : JoinOp) (h : MergedT E.S A B C) (hA : TableOk E.S A) (hB : TableOk E.S B)
    (hkA : KeysOk E keys A R)
    (hkB : KeysOk E keys B R) (hKA : Keyed E.S keys A) (hKB : Keyed E.S keys B) (hR : RightKeyed E.S keys R) :
    op.pairs E keys C R = op.pairs E keys A R ++ (op.pairs E keys B R).map (shift (rayTableNrows A)) := by
  rw [JoinOp.pairs, JoinOp.spec, h.nrows, range_add, flatMap_append, flatMap_map]
  congr 1
  · rw [JoinOp.pairs, JoinOp.spec]
    apply flatMap_congr
    intro l hl
    rw [row_congr (rowsEq E keys A R) l fun r hr => h.rowsEq_left hA hB hkA hKA hR (mem_range.mp hl) hr]
    conv_rhs => rw [← map_id (op.row _ _ l)]
    apply map_congr_left
    intro p hp
    rw [← row_fst hp]
    rfl
  · rw [JoinOp.pairs, JoinOp.spec, map_flatMap]
    apply flatMap_congr
    intro l hl
    rw [row_congr (rowsEq E keys B R) l fun r hr => h.rowsEq_right hA hB hkB hKB hR (mem_range.mp hl) hr]
    apply map_congr_left
    intro p hp
    rw [shift, row_fst hp]

end

end Rayforce.Join
