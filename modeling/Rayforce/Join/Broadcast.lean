import Rayforce.Join.Streamed

namespace Rayforce.Join

open Library.Joining List Option

variable {E : Env} {keys : List JoinKey} {op : JoinOp} {orders : ℕ → List ℕ} {order : List ℕ} {T : PTable}
  {L R RC t : Table} {seg : ℕ → Table} {S : Symbols} {ps : List (ℕ × Option ℕ)}
variable {P : ℕ × Column → ℕ × Column → Prop} {A B : Table} {p : ℕ × Option ℕ} {i : ℕ} {q : ℕ → Bool}
  {c : Column}

def pairRow (S : Symbols) (L RC : Table) (p : ℕ × Option ℕ) : List Value :=
  rowAt S L p.1 ++ RC.map fun c => c.2.valueAt S p.2

lemma valueAt_of_values {f : ℕ × Option ℕ → Value} (h : c.values S = ps.map f)
    (hp : ps[i]? = some p) : c.valueAt S (some i) = f p := by
  rw [Column.valueAt, h, getD_eq_getElem?_getD, getElem?_map, hp]
  rfl

lemma forall₂_rowAt (h : List.Forall₂ P A B) {f : Column → Value}
    (hP : ∀ x y, P x y → y.2.valueAt S (some i) = f x.2) : rowAt S B i = A.map fun c => f c.2 := by
  induction h with
  | nil => rfl
  | cons hxy _ ih =>
    rw [rowAt] at ih ⊢
    rw [map_cons, map_cons, hP _ _ hxy, ih]

lemma Holds.rowAt (h : Holds S L RC ps t) (hp : ps[i]? = some p) : rowAt S t i = pairRow S L RC p := by
  obtain ⟨A, B, rfl, hA, hB⟩ := h
  have hl := forall₂_rowAt (S := S) (i := i) hA (f := fun c => c.valueAt S (some p.1)) fun x y hxy =>
    valueAt_of_values hxy.values hp
  have hr := forall₂_rowAt (S := S) (i := i) hB (f := fun c => c.valueAt S p.2) fun x y hxy =>
    valueAt_of_values hxy.values hp
  rw [Join.rowAt, map_append]
  exact congrArg₂ _ hl hr

lemma Holds.nrows (h : Holds S L RC ps t) (hL : L ≠ []) : rayTableNrows t = ps.length := by
  obtain ⟨A, B, rfl, hA, -⟩ := h
  cases hA with
  | nil => exact absurd rfl hL
  | @cons x y L A hxy _ =>
    have hlen := congrArg length hxy.values
    rw [length_map, Column.values, length_map] at hlen
    exact hlen

lemma Holds.rows (h : Holds S L RC ps t) (hL : L ≠ []) : rows S t = ps.map (pairRow S L RC) := by
  apply ext_getElem
  · rw [Join.rows, length_map, length_map, length_range, h.nrows hL]
  · intro i h1 h2
    rw [length_map] at h2
    simp only [Join.rows, getElem_map, getElem_range]
    exact h.rowAt (getElem?_eq_getElem h2)

lemma forall₂_names (h : List.Forall₂ P A B) (hP : ∀ x y, P x y → x.1 = y.1) : names B = names A := by
  induction h with
  | nil => rfl
  | cons hxy _ ih =>
    rw [names, names] at ih ⊢
    rw [map_cons, map_cons, ih, hP _ _ hxy]

lemma Holds.names (h : Holds S L RC ps t) : names t = names L ++ names RC := by
  obtain ⟨A, B, rfl, hA, hB⟩ := h
  rw [Join.names, map_append]
  exact congrArg₂ _ (forall₂_names hA fun _ _ hxy => hxy.name) (forall₂_names hB fun _ _ hxy => hxy.name)

def inMemory (t : Table) : PTable := t.map fun c => (c.1, .plain c.2)

lemma inMemory_not_parted (t : Table) : joinTableHasPartedCol (inMemory t) = false := by
  simp [joinTableHasPartedCol, inMemory, isPlain]

lemma plainCols_inMemory (t : Table) : plainCols (inMemory t) = t := by
  rw [plainCols, inMemory, filterMap_map]
  exact filterMap_some

section

variable (h : 0 < joinPartedSegCount T)
include h

lemma parted_of_segCount : joinTableHasPartedCol T = true := by
  induction T with
  | nil => cases h
  | cons c T ih =>
    obtain ⟨n, segs | key | d⟩ := c
    · rfl
    · rfl
    · exact ih h

lemma joinBroadcastStream_parted (he : eligible op true = true) :
    joinBroadcastStream E keys op orders T (inMemory R) =
      mergeRuns E.S (streamRun E keys op orders T R) (joinPartedSegCount T) := by
  simp only [joinBroadcastStream, parted_of_segCount h, inMemory_not_parted, plainCols_inMemory, he,
    Bool.true_eq_false, if_false, if_true, if_neg (Nat.not_lt.mpr h)]
  rfl

lemma flatten_parted (hF : joinFlattenParted E T = .ok (some L)) : flatten E T = .ok L := by
  rw [flatten, if_pos (parted_of_segCount h), hF]
  rfl

end

lemma joinWithPartedGuard_streamed {P Q : PTable} (h : joinBroadcastStream E keys op orders P Q = .ok (some t)) :
    joinWithPartedGuard E keys op orders P Q = .ok t := by
  rw [joinWithPartedGuard, h]
  rfl

lemma eligible_left : eligible op true = true := by
  rcases op with (_ | _) | _ <;> rfl

lemma ne_nil_of_schema (h : schema A = schema B) (hB : B ≠ []) : A ≠ [] := by
  rintro rfl
  exact hB (map_eq_nil_iff.mp h.symm)

lemma buildSegmentTable_ne_nil (h : 0 < joinPartedSegCount T) {s : ℕ} (hb : buildSegmentTable T s = .ok t) :
    t ≠ [] := by
  rintro rfl
  cases T with
  | nil => cases h
  | cons c T =>
    simp only [buildSegmentTable, mapM_cons] at hb
    generalize segmentColumn _ s c.2 = d at hb
    cases d with
    | error e => cases hb
    | ok d =>
      change (do let ds ← (mapM _ T : Except JoinErr Table); pure (_ :: ds)) = Except.ok [] at hb
      generalize (mapM _ T : Except JoinErr Table) = ds at hb
      cases ds <;> cases hb

def unmentioned (E : Env) (keys : List JoinKey) (order : List ℕ) (L R : Table) : List ℕ :=
  (List.range (rayTableNrows L)).filter fun l => (joinPairs E (sides E keys L R) .inner order).all fun p => p.1 ≠ l

lemma unmentioned_eq (hk : KeysOk E keys L R) (ho : order.Perm (List.range (rayTableNrows R))) :
    JoinOp.anti.pairs E keys L R = (unmentioned E keys order L R).map fun l => (l, none) := by
  rw [JoinOp.pairs, spec_anti, unmentioned]
  congr 1
  apply filter_congr
  intro l hl
  have hperm : (joinPairs E (sides E keys L R) .inner order).Perm _ := joinPairs_perm hk.sides ho
  rw [Bool.eq_iff_iff, Bool.not_eq_true', List.any_eq_false, List.all_eq_true]
  constructor
  · intro h p hp
    obtain ⟨l', -, r, hr, he, rfl⟩ := mem_pairs_inner.mp (hperm.subset hp)
    rw [decide_eq_true_eq]
    rintro rfl
    exact h r hr he
  · intro h r hr he
    have hp := h (l, some r) (hperm.symm.subset (mem_pairs_inner.mpr ⟨l, hl, r, hr, he, rfl⟩))
    simp at hp

/-- A broadcast join gives the rows of the flat join, in order unless the right table is large. -/
theorem broadcast_join_as_flat (h : Segmented E keys op T R seg)
    (ho : ∀ s, (orders s).Perm (List.range (rayTableNrows R))) (ho' : order.Perm (List.range (rayTableNrows R))) :
    ∃ F A B, flatten E T = .ok F ∧
    (rows E.S F = (List.range (joinPartedSegCount T)).flatMap fun s => rows E.S (seg s)) ∧
      joinBroadcastStream E keys op orders T (inMemory R) = .ok (some A) ∧
      joinWithPartedGuard E keys op orders T (inMemory R) = .ok A ∧
      flatFn E keys order F R op = .ok B ∧
      names A = names B ∧
      (rows E.S A).Perm (rows E.S B) ∧
      (rayTableNrows R ≤ rayParallelThreshold ∨ op = .anti → rows E.S A = rows E.S B) ∧
      (op = .anti → rows E.S A = (unmentioned E keys order F R).map (rowAt E.S F)) := by
  obtain ⟨F, A, ps, hr⟩ := h.reached ho h.split le_rfl
  have hnil : F ≠ [] := ne_nil_of_schema hr.schema (buildSegmentTable_ne_nil h.split (h.builds 0 h.split))
  have hlong : tooLong F R = false := not_tooLong (hr.nrows ▸ h.rows) h.rightRows
  obtain ⟨B, qs, hB, hholds, hperm, hsame, -⟩ := flatFn_spec op hr.ok h.right hr.keysOk hlong ho'
  have hstream : joinBroadcastStream E keys op orders T (inMemory R) = .ok (some A) :=
    (joinBroadcastStream_parted h.split eligible_left).trans hr.streamed
  refine ⟨F, A, B, flatten_parted h.split hr.flat, hr.rows, hstream, joinWithPartedGuard_streamed hstream, hB,
    ?_, ?_, ?_, ?_⟩
  · rw [hr.holds.names, hholds.names]
  · rw [hr.holds.rows hnil, hholds.rows hnil]
    exact (hr.perm.trans hperm.symm).map _
  · intro hs
    rw [hr.holds.rows hnil, hholds.rows hnil, hr.same hs, hsame hs]
  · rintro rfl
    rw [hr.holds.rows hnil, hr.same (.inr rfl), unmentioned_eq hr.keysOk ho', List.map_map]
    apply map_congr_left
    intro l _
    exact append_nil _

def sampleSymbols : Symbols where
  runtime := [[97], [98]]
  file d := if d = 0 then [[97]] else [[98], [97]]
  runtime_nodup := by decide
  file_nodup d := by split_ifs <;> decide
  file_sub d := by split_ifs <;> decide

def sampleEnv : Env where
  S := sampleSymbols
  byteAt _ _ := 0
  wordAt _ _ := 0
  countName := 0
  workers := none
  noBuildSwap := false
  forceDupFallback := false
  noDupFallback := false

def ints (xs : List ℤ) : Column := ⟨.i64, xs.map .num, false, none, 0⟩

def syms (d : ℕ) (xs : List ℤ) : Column := ⟨.sym, xs.map .num, false, some d, 0⟩

def sampleKeys : List JoinKey := [⟨some 1, .scan 1⟩]

def sampleParted : PTable :=
  [(1, .parted [ints [5, 7], ints [], ⟨.i64, [.num (-2 ^ 63), .num 5], true, none, 0⟩]),
    (2, .parted [syms 0 [0, 0], syms 1 [], syms 1 [0, 1]])]

def sampleSegment : ℕ → Table
  | 0 => [(1, ints [5, 7]), (2, syms 0 [0, 0])]
  | 1 => [(1, ints []), (2, syms 1 [])]
  | _ => [(1, ⟨.i64, [.num (-2 ^ 63), .num 5], true, none, 0⟩), (2, syms 1 [0, 1])]

def sampleRight : Table := [(1, ints [5, 9, 5]), (3, ints [50, 90, 51])]

lemma sampleSegment_cases {P : ℕ → Prop} (h0 : P 0) (h1 : P 1) (h2 : P 2) :
    ∀ s < joinPartedSegCount sampleParted, P s := by
  intro s hs
  match s, hs with
  | 0, _ => exact h0
  | 1, _ => exact h1
  | 2, _ => exact h2
  | n + 3, hs => exact absurd hs (by simp [joinPartedSegCount, sampleParted, firstParted])

lemma sample_segmented : Segmented sampleEnv sampleKeys (.join .left) sampleParted sampleRight sampleSegment where
  split := by decide
  builds := sampleSegment_cases rfl rfl rfl
  ok := by
    apply sampleSegment_cases <;>
      simp [TableOk, sampleSegment, Column.Flagged, Column.Placed, rayTableNrows, ints, syms, sampleEnv,
        sampleSymbols, Symbols.names, sentinelIsNull]
    exact ⟨⟨0, by decide, rfl⟩, 1, by decide, rfl⟩
  schema := sampleSegment_cases rfl rfl rfl
  keysOk := by
    apply sampleSegment_cases <;> refine ⟨?_, ?_, rfl⟩
    all_goals simp [sampleKeys, JoinKey.leftVec, JoinKey.rightVec, sampleSegment, sampleRight,
      rayTableGetCol, ints, Comparable, IsInt, sampleEnv]
  keyed := by
    apply sampleSegment_cases <;>
      simp [Keyed, sampleKeys, JoinKey.leftVec, sampleSegment, rayTableGetCol, ints, Column.values, Column.value,
        Column.isNullCell, shown, Value.IsKey, sentinelIsNull]
  right := by simp [TableOk, sampleRight, Column.Flagged, Column.Placed, rayTableNrows, ints, sentinelIsNull]
  rightKeyed := by
    simp [RightKeyed, sampleKeys, JoinKey.rightVec, sampleRight, rayTableGetCol, ints, Column.values, Column.value,
      Column.isNullCell, shown, Value.IsKey, Column.Placed, rayTableNrows]
  rows := by decide
  rightRows := by decide
  pools j := by
    have hzero : ∀ s, poolOf (sampleSegment s) ++ poolOf ((JoinOp.join .left).rightCols sampleKeys sampleRight) =
        replicate 3 0 := by
      intro s
      rcases s with _ | _ | s <;> rfl
    have hj : (replicate 3 0).getD j 0 = 0 := by
      rw [getD_eq_getElem?_getD, getElem?_replicate]
      split_ifs <;> rfl
    simp only [hzero, hj, Finset.sum_const_zero]
    norm_num

theorem broadcast_join_as_flat_of_three_segments : ∃ F A B, flatten sampleEnv sampleParted = .ok F ∧
      (rows sampleSymbols F = (List.range (joinPartedSegCount sampleParted)).flatMap fun s =>
        rows sampleSymbols (sampleSegment s)) ∧
      joinBroadcastStream sampleEnv sampleKeys (.join .left) (fun _ => [0, 1, 2]) sampleParted
        (inMemory sampleRight) =
        .ok (some A) ∧
      joinWithPartedGuard sampleEnv sampleKeys (.join .left) (fun _ => [0, 1, 2]) sampleParted
        (inMemory sampleRight) =
        .ok A ∧
      flatFn sampleEnv sampleKeys [0, 1, 2] F sampleRight (.join .left) = .ok B ∧
      names A = names B ∧
      (rows sampleSymbols A).Perm (rows sampleSymbols B) ∧
      (rayTableNrows sampleRight ≤ rayParallelThreshold ∨ JoinOp.join .left = .anti →
        rows sampleSymbols A = rows sampleSymbols B) ∧
      (JoinOp.join .left = .anti →
        rows sampleSymbols A = (unmentioned sampleEnv sampleKeys [0, 1, 2] F sampleRight).map
          (rowAt sampleSymbols F)) :=
  broadcast_join_as_flat sample_segmented (fun _ => .refl _) (.refl _)

section

variable {n : ℕ}

def largeColumn (n : ℕ) : Column := ⟨.i64, .num 1 :: .num 2 :: List.replicate n (.num 0), false, none, 0⟩

def largeRight (n : ℕ) : Table := [(1, largeColumn n)]

def twoParts : PTable := [(1, .parted [ints [1], ints [2]])]

def largeSides (n : ℕ) (xs : List ℤ) : Sides := ⟨[some (ints xs)], [some (largeColumn n)], xs.length, n + 2, false⟩

lemma sides_large (xs : List ℤ) : sides sampleEnv sampleKeys [(1, ints xs)] (largeRight n) = largeSides n xs := by
  simp only [sides, largeSides, rayTableNrows, largeRight, head?_cons, elim_some, largeColumn, ints,
    length_map, length_cons, length_replicate]
  rfl

lemma largeColumn_num {r : ℕ} (h : 2 ≤ r) : cellNum (largeColumn n) r = 0 := by
  obtain ⟨r, rfl⟩ := Nat.exists_eq_add_of_le' h
  simp only [cellNum, largeColumn, getElem?_cons_succ, getElem?_replicate]
  split_ifs <;> rfl

lemma keyEq_plain {a b : Column} (ha : a.type = .i64) (hb : b.type = .i64) (hna : a.hasNulls = false)
    (hnb : b.hasNulls = false) (l r : ℕ) : keyEq E a b l r = decide (cellNum a l = cellNum b r) := by
  have hnull : ∀ c : Column, c.hasNulls = false → ∀ i, c.isNull i = false := by
    intro c hc i
    rw [Column.isNull]
    cases c.cells[i]? <;> simp [Column.isNullCell, hc]
  simp [keyEq, hnull a hna, hnull b hnb, ha, hb, readColI64]

lemma filter_first_two (hq : ∀ l, 2 ≤ l → q l = false) :
    (List.range (n + 2)).filter q = (List.range 2).filter q := by
  have hrest : ((range n).map (2 + ·)).filter q = [] := by
    rw [filter_eq_nil_iff]
    intro l hl
    obtain ⟨i, -, rfl⟩ := mem_map.mp hl
    simp [hq _ (Nat.le_add_right 2 i)]
  rw [Nat.add_comm, range_add, filter_append, hrest, append_nil]

lemma flatMap_first_two {g : ℕ → List (ℕ × Option ℕ)} (hg : ∀ l, 2 ≤ l → g l = []) :
    ((List.range (n + 2)).filter q).flatMap g = ((List.range 2).filter q).flatMap g := by
  have hrest : (((range n).map (2 + ·)).filter q).flatMap g = [] := by
    rw [flatMap_eq_nil_iff]
    intro l hl
    obtain ⟨i, -, rfl⟩ := mem_map.mp (mem_filter.mp hl).1
    exact hg _ (Nat.le_add_right 2 i)
  rw [Nat.add_comm, range_add, filter_append, flatMap_append, hrest, append_nil]

lemma hash32_plain (ht : c.type = .i64) (hn : c.hasNulls = false) (i : ℕ) :
    hash32 E [some c] i = rayHashI64 (cellNum c i) % 2 ^ 32 := by
  have hnull : c.isNull i = false := by
    rw [Column.isNull]
    cases c.cells[i]? <;> simp [Column.isNullCell, hn]
  simp [hash32, hashRowKeys, hashKeysFrom, hnull, keyHash, ht, readColI64]

lemma largeSides_ok (xs : List ℤ) : (largeSides n xs).Ok := by
  refine ⟨⟨rfl, ?_⟩, ?_⟩
  · intro p hp lc rc he
    obtain rfl := mem_singleton.mp hp
    obtain ⟨h1, h2⟩ := Prod.mk.inj he
    obtain rfl := some.inj h1
    obtain rfl := some.inj h2
    exact .inr (.inr ⟨by simp [IsInt, ints], by simp [IsInt, largeColumn]⟩)
  · rintro ⟨⟩

lemma joinKeysEq_large (xs : List ℤ) (l r : ℕ) :
    joinKeysEq E [some (ints xs)] [some (largeColumn n)] l r =
      decide (cellNum (ints xs) l = cellNum (largeColumn n) r) := by
  rw [joinKeysEq, zip_cons_cons, zip_nil_left, all_cons, all_nil, Bool.and_true]
  exact keyEq_plain rfl rfl rfl rfl l r

def largeRoles (n : ℕ) : Roles := ⟨[some (largeColumn n)], [some (ints [1, 2])], n + 2, 2⟩

lemma largeRoles_built (n : ℕ) : (largeRoles n).Built sampleEnv 2 := by
  show ∀ p < 4, let rp := (range 2).filter fun r => radixPart 2 (hash32 sampleEnv [some (ints [1, 2])] r) = p
    rp.length * 2 ≤ radixCap rp.length ∧ (buildTable sampleEnv (hash32 sampleEnv [some (ints [1, 2])]) rp
      (replicate (radixCap rp.length) none)).isSome
  decide +kernel

lemma largeRoles_matches (l : ℕ) :
    (List.range 2).filter (joinKeysEq E [some (largeColumn n)] [some (ints [1, 2])] l) =
    if l < 2 then [l] else [] := by
  have heq : joinKeysEq E [some (largeColumn n)] [some (ints [1, 2])] l =
      fun r => decide (cellNum (largeColumn n) l = cellNum (ints [1, 2]) r) := by
    funext r
    rw [joinKeysEq, zip_cons_cons, zip_nil_left, all_cons, all_nil, Bool.and_true]
    exact keyEq_plain rfl rfl rfl rfl l r
  rw [heq]
  rcases l with _ | _ | l
  · rfl
  · rfl
  · rw [largeColumn_num (Nat.le_add_left 2 l), if_neg (by omega)]
    rfl

lemma largeRoles_part (r : ℕ) : radixPart 2 (hash32 E [some (largeColumn n)] r) =
    radixPart 2 (rayHashI64 (cellNum (largeColumn n) r) % 2 ^ 32) := by
  rw [hash32_plain rfl rfl]

lemma joinPairs_large (hn : rayParallelThreshold < n + 2) :
    joinPairs sampleEnv (largeSides n [1, 2]) .inner order = [(1, some 1), (0, some 0)] := by
  have hswap : swapped sampleEnv (largeSides n [1, 2]) .inner = true := by
    rw [swapped, decide_eq_true_eq]
    exact ⟨rfl, by decide, show 2 < n + 2 by rw [rayParallelThreshold] at hn; omega⟩
  have hroles : roles sampleEnv (largeSides n [1, 2]) .inner = largeRoles n := by
    rw [roles, hswap]
    rfl
  have hbits : radixJoinBits (largeRoles n).buildRows = 2 := rfl
  obtain ⟨ps, hps⟩ := isSome_iff_exists.mp
    (radixPairs_isSome (E := sampleEnv) (R := largeRoles n) false (by rw [hbits]; exact largeRoles_built n) rfl)
  have hhashed : (largeRoles n).Hashed sampleEnv := hroles ▸ roles_hashed (largeSides_ok [1, 2])
  obtain ⟨ms, hms, he⟩ := radixPairs_spec hhashed hps
  have hm : ∀ l, ms l = if l < 2 then [l] else [] := by
    intro l
    have hp := hms l
    rw [show (largeRoles n).buildRows = 2 from rfl, show (largeRoles n).probeKeys =
      [some (largeColumn n)] from rfl,
      show (largeRoles n).buildKeys = [some (ints [1, 2])] from rfl, largeRoles_matches] at hp
    split_ifs at hp ⊢
    · exact perm_singleton.mp hp
    · exact hp.eq_nil
  have hps' : ps = [(1, some 1), (0, some 0)] := by
    have hnone : ∀ l, 2 ≤ l → emit false l (ms l) = [] := by
      intro l hl
      rw [hm, if_neg (by omega), emit_inner, map_nil]
    have h0 : radixPart 2 (hash32 sampleEnv [some (largeColumn n)] 0) = 3 := by
      rw [largeRoles_part, show cellNum (largeColumn n) 0 = 1 from rfl]
      decide +kernel
    have h1 : radixPart 2 (hash32 sampleEnv [some (largeColumn n)] 1) = 1 := by
      rw [largeRoles_part, show cellNum (largeColumn n) 1 = 2 from rfl]
      decide +kernel
    rw [he, hbits]
    simp only [largeRoles, flatMap_first_two hnone]
    simp [range_succ, h0, h1, hm, emit]
  rw [joinPairs_radix hn (by rw [hroles]; exact hps), hswap, hps']
  rfl

lemma joinPairs_single {s : ℕ} (hs : s < 2) (ho : order.Perm (List.range (n + 2))) :
    joinPairs sampleEnv (largeSides n [(s : ℤ) + 1]) .inner order = [(0, some s)] := by
  have hperm : (joinPairs sampleEnv (largeSides n [(s : ℤ) + 1]) .inner order).Perm _ :=
    joinPairs_perm (largeSides_ok [(s : ℤ) + 1]) ho
  have hpairs : pairs false (joinKeysEq sampleEnv (largeSides n [(s : ℤ) + 1]).ls (largeSides n [(s : ℤ) + 1]).rs)
      (range 1) (range (n + 2)) = [(0, some s)] := by
    have hkey : joinKeysEq sampleEnv [some (ints [(s : ℤ) + 1])] [some (largeColumn n)] 0 =
        fun r => decide ((s : ℤ) + 1 = cellNum (largeColumn n) r) := by
      funext r
      rw [joinKeysEq_large]
      rfl
    have hfirst : (range (n + 2)).filter (fun r => decide ((s : ℤ) + 1 = cellNum (largeColumn n) r)) = [s] := by
      rw [filter_first_two]
      · match s, hs with
        | 0, _ => rfl
        | 1, _ => rfl
      · intro l hl
        rw [largeColumn_num hl, decide_eq_false_iff_not]
        omega
    rw [pairs, range_one, flatMap_singleton, emit_inner, largeSides, hkey, hfirst]
    rfl
  rw [show decide (JoinKind.inner = .left) = false from rfl,
    show (largeSides n [(s : ℤ) + 1]).leftRows = 1 from rfl,
    show (largeSides n [(s : ℤ) + 1]).rightRows = n + 2 from rfl, hpairs] at hperm
  exact perm_singleton.mp hperm

lemma flatFn_large (xs : List ℤ) (hx : xs.length ≤ 2 ^ 31 - 1) (hn : n + 2 ≤ 2 ^ 31 - 1) :
    flatFn sampleEnv sampleKeys order [(1, ints xs)] (largeRight n) (.join .inner) =
      .ok (gatherTable [(1, ints xs)]
        ((joinPairs sampleEnv (largeSides n xs) .inner order).map fun p => some p.1)) := by
  have hlong : tooLong [(1, ints xs)] (largeRight n) = false := by
    apply not_tooLong
    · simpa [rayTableNrows, ints] using hx
    · simp only [rayTableNrows, largeRight, largeColumn, head?_cons, elim_some, length_cons,
        length_replicate]
      exact hn
  have hstr : hasStrKey sampleKeys [(1, ints xs)] (largeRight n) = false := rfl
  have hout : outColumns sampleKeys (largeRight n) = [] := rfl
  simp only [flatFn, execJoinFlat, hlong, hstr, hout, sides_large, Bool.false_eq_true, if_false]
  exact congrArg Except.ok (append_nil _)

lemma broadcast_reorders (order : List ℕ) (orders : ℕ → List ℕ) (hn : rayParallelThreshold < n + 2)
    (hn' : n + 2 ≤ 2 ^ 31 - 1) (ho : ∀ s, (orders s).Perm (List.range (n + 2))) :
    joinWithPartedGuard sampleEnv sampleKeys (.join .inner) orders twoParts (inMemory (largeRight n)) =
      .ok [(1, ints [1, 2])] ∧
    flatFn sampleEnv sampleKeys order [(1, ints [1, 2])] (largeRight n) (.join .inner) =
      .ok [(1, ints [2, 1])] := by
  have hrun : ∀ s < 2, streamRun sampleEnv sampleKeys (.join .inner) orders twoParts (largeRight n) s =
      .ok [(1, ints [(s : ℤ) + 1])] := by
    intro s hs
    have hseg : buildSegmentTable twoParts s = .ok [(1, ints [(s : ℤ) + 1])] := by
      match s, hs with
      | 0, _ => rfl
      | 1, _ => rfl
    rw [streamRun, hseg]
    show flatFn sampleEnv sampleKeys (orders s) [(1, ints [(s : ℤ) + 1])] (largeRight n) (.join .inner) = _
    rw [flatFn_large _ (by simp) hn', joinPairs_single hs (ho s)]
    rfl
  constructor
  · apply joinWithPartedGuard_streamed
    rw [joinBroadcastStream_parted (by decide) rfl]
    exact mergeRuns_succ (mergeRuns_one (hrun 0 (by norm_num))) (hrun 1 (by norm_num)) rfl
  · rw [flatFn_large _ (by simp) hn', joinPairs_large hn]
    rfl

theorem broadcast_join_reorders : ∃ A B, flatten sampleEnv twoParts = .ok [(1, ints [1, 2])] ∧
    joinWithPartedGuard sampleEnv sampleKeys (.join .inner) (fun _ => List.range 65538) twoParts
    (inMemory (largeRight 65536)) =
      .ok A ∧
    flatFn sampleEnv sampleKeys (List.range 65538) [(1, ints [1, 2])] (largeRight 65536) (.join .inner) = .ok B ∧
    rows sampleSymbols A = [[.num 1], [.num 2]] ∧ rows sampleSymbols B = [[.num 2], [.num 1]] := by
  have hlarge : rayParallelThreshold < 65536 + 2 := by decide
  obtain ⟨hA, hB⟩ := broadcast_reorders (range 65538) (fun _ => range 65538) hlarge (by norm_num) fun _ => .refl _
  exact ⟨_, _, rfl, hA, hB, rfl, rfl⟩

end

end Rayforce.Join
