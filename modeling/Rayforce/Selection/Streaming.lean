import Rayforce.Selection.Builder
import Rayforce.Expr.Zone
import Rayforce.Library.Loops

namespace Rayforce.Selection

open Library.Segments List

variable {k need fuel j seg : ℕ} {b b' : RowselBuilder} {m : List UInt8} {rest ms : List (List UInt8)}
variable {n s : ℕ}

lemma growCap_room {c J : ℕ} (hroom : c * 2 ^ J < 2 ^ 32) (hneed : need ≤ c * 2 ^ J) (hj : j ≤ J)
    (hfuel : J ≤ j + fuel) :
    ∃ j' ≤ J, growCap need (fuel + 1) (c * 2 ^ j) = some (c * 2 ^ j') := by
  induction fuel generalizing j with
  | zero =>
    obtain rfl : j = J := by omega
    exact ⟨j, le_rfl, by rw [growCap, if_neg (by omega)]⟩
  | succ fuel ih =>
    by_cases hlt : c * 2 ^ j < need
    · have hjJ : j ≠ J := by
        rintro rfl
        omega
      have hdouble : c * 2 ^ j * 2 = c * 2 ^ (j + 1) := by
        rw [pow_succ, Nat.mul_assoc]
      have hsmall : c * 2 ^ (j + 1) < 2 ^ 32 :=
        (Nat.mul_le_mul_left c (Nat.pow_le_pow_right (by norm_num) (by omega))).trans_lt hroom
      obtain ⟨j', hj', hgrow⟩ := ih (j := j + 1) (by omega) (by omega)
      exact ⟨j', hj', by rw [growCap, if_pos hlt, hdouble, u32_of_lt hsmall, hgrow]⟩
    · exact ⟨j, hj, by rw [growCap, if_neg hlt]⟩

lemma growCap_pow {cap c : ℕ} (hneed : 0 < need) (hcap : cap = 0 ∨ ∃ i ≤ 31, cap = 2 ^ i)
    (h : growCap need fuel cap = some c) : need ≤ c ∧ ∃ i ≤ 31, c = 2 ^ i := by
  induction fuel generalizing cap with
  | zero => cases h
  | succ fuel ih =>
    rw [growCap] at h
    by_cases hlt : cap < need
    · rw [if_pos hlt] at h
      refine ih ?_ h
      obtain rfl | ⟨i, hi, rfl⟩ := hcap
      · exact .inl rfl
      · rw [← pow_succ]
        obtain rfl | hi31 := Nat.eq_or_lt_of_le hi
        · exact .inl (by decide)
        · refine .inr ⟨i + 1, hi31, u32_of_lt ?_⟩
          exact Nat.pow_lt_pow_right (by norm_num) (by omega)
    · rw [if_neg hlt] at h
      obtain rfl := Option.some.inj h
      obtain rfl | hi := hcap
      · omega
      · exact ⟨by omega, hi⟩

lemma setCount_le (m : List UInt8) : setCount m ≤ m.length := countP_le_length

lemma setRows_length (m : List UInt8) : (setRows m).length = setCount m := (setCount_eq m).symm

lemma rowselEmitSegment_eq (b : RowselBuilder) (seg : ℕ) (m : List UInt8) : rowselEmitSegment b seg m =
      if setCount m = 0 ∨ setCount m = m.length then some (b.close seg (setCount m) (morselOut m).flag b.idx)
      else (b.reserve (setCount m)).map fun cap =>
        { b.close seg (setCount m) .mix (b.idx ++ setRows m) with idxCap := cap } := by
  rw [rowselEmitSegment, morselOut, ← setCount]
  by_cases h0 : setCount m = 0
  · simp only [h0, if_true, true_or]
  by_cases hall : setCount m = m.length
  · simp only [hall, if_true, or_true]
    split <;> rfl
  · simp only [h0, hall, if_false, or_self]
    cases b.reserve (setCount m) <;> rfl

/-- How many positions a segment adds to the index: its passing rows, unless all of them pass. -/
def mixRows (m : List UInt8) : ℕ := if setCount m = m.length then 0 else setCount m

lemma mixRows_eq (m : List UInt8) : mixRows m = (morselOut m).written.length := by
  rw [mixRows, morselOut]
  split_ifs with hall h0 h0
  · rfl
  · rfl
  · exact h0
  · exact (setRows_length m).symm

lemma rowselEmitSegment_room {c J : ℕ} (hc : 0 < c) (hJ : J ≤ 7) (hroom : c * 2 ^ J < 2 ^ 32)
    (hcap : ∃ j ≤ J, b.idxCap = c * 2 ^ j) (hidx : b.idx.length + mixRows m ≤ c * 2 ^ J) :
    ∃ b', rowselEmitSegment b seg m = some b' ∧ (∃ j ≤ J, b'.idxCap = c * 2 ^ j) ∧
      b'.idx.length = b.idx.length + mixRows m := by
  obtain ⟨j, hj, hb⟩ := hcap
  rw [rowselEmitSegment_eq]
  by_cases hplain : setCount m = 0 ∨ setCount m = m.length
  · rw [if_pos hplain]
    have hzero : mixRows m = 0 := by
      rw [mixRows]
      split_ifs with hall
      · rfl
      · exact hplain.resolve_right hall
    exact ⟨_, rfl, ⟨j, hj, hb⟩, by rw [hzero]; rfl⟩
  · have hmix : mixRows m = setCount m := if_neg fun hall => hplain (.inr hall)
    have hreserve : ∃ j' ≤ J, b.reserve (setCount m) = some (c * 2 ^ j') := by
      have hneed : u32 (b.idx.length + setCount m) = b.idx.length + setCount m := u32_of_lt (by omega)
      have hpos : c * 2 ^ j ≠ 0 := by positivity
      rw [RowselBuilder.reserve, hneed, hb, if_pos hpos]
      split
      · exact growCap_room hroom (by omega) hj (by omega)
      · exact ⟨j, hj, rfl⟩
    obtain ⟨j', hj', hgrown⟩ := hreserve
    rw [if_neg hplain, hgrown]
    refine ⟨_, rfl, ⟨j', hj', rfl⟩, ?_⟩
    change (b.idx ++ setRows m).length = _
    rw [length_append, setRows_length, hmix]

lemma emitFrom_room {c J : ℕ} (hc : 0 < c) (hJ : J ≤ 7) (hroom : c * 2 ^ J < 2 ^ 32)
    (hcap : ∃ j ≤ J, b.idxCap = c * 2 ^ j)
    (hidx : b.idx.length + (rest.map mixRows).sum ≤ c * 2 ^ J) : ∃ b', emitFrom b seg rest = some b' := by
  induction rest generalizing b seg with
  | nil => exact ⟨b, rfl⟩
  | cons m rest ih =>
    rw [map_cons, sum_cons] at hidx
    obtain ⟨b₁, hb₁, hcap₁, hlen₁⟩ :=
      rowselEmitSegment_room hc hJ hroom hcap (show b.idx.length + mixRows m ≤ _ by omega)
    obtain ⟨b', hb'⟩ := ih hcap₁ (by rw [hlen₁]; omega)
    refine ⟨b', ?_⟩
    rw [emitFrom, hb₁]
    exact hb'

lemma sum_mixRows_le (hms : ∀ m ∈ ms, m.length ≤ 1024) : (ms.map mixRows).sum ≤ 1024 * ms.length := by
  have hle : ∀ x ∈ ms.map mixRows, x ≤ 1024 := by
    intro x hx
    obtain ⟨m, hm, rfl⟩ := mem_map.mp hx
    have := hms m hm
    have := setCount_le m
    rw [mixRows]
    split_ifs <;> omega
  have hsum := sum_le_card_nsmul (ms.map mixRows) 1024 hle
  rw [length_map, smul_eq_mul] at hsum
  omega

lemma runWorker_room (hk : ms.length < 2 ^ 22) (hms : ∀ m ∈ ms, m.length ≤ 1024) : ∃ b, runWorker ms = some b := by
  cases ms with
  | nil => exact ⟨_, rfl⟩
  | cons m rest =>
    have hsum := sum_mixRows_le hms
    have hpos : (m :: rest).length ≠ 0 := by simp
    refine emitFrom_room (c := (m :: rest).length * 8) (J := 7) (by omega) le_rfl (by omega)
      ⟨0, by norm_num, ?_⟩ ?_
    · rw [rowselBuilderInit]
      dsimp only
      rw [if_pos hpos, u32_of_lt (by omega), pow_zero, Nat.mul_one]
    · change 0 + _ ≤ _
      omega

lemma emitFrom_pow (hrest : ∀ m ∈ rest, m.length ≤ 1024) (hcap : ∃ i ≤ 31, b.idxCap = 2 ^ i)
    (hidx : b.idx.length ≤ 2 ^ 31) (h : emitFrom b seg rest = some b') : b'.idx.length ≤ 2 ^ 31 := by
  induction rest generalizing b seg with
  | nil =>
    obtain rfl := Option.some.inj h
    exact hidx
  | cons m rest ih =>
    rw [forall_mem_cons] at hrest
    obtain ⟨c, hc, h⟩ := Option.bind_eq_some_iff.mp h
    rw [rowselEmitSegment_eq] at hc
    by_cases hplain : setCount m = 0 ∨ setCount m = m.length
    · rw [if_pos hplain] at hc
      obtain rfl := Option.some.inj hc
      exact ih (b := b.close _ _ _ _) hrest.2 hcap hidx h
    rw [if_neg hplain] at hc
    obtain ⟨cap, hgrown, rfl⟩ := Option.map_eq_some_iff.mp hc
    rw [not_or] at hplain
    have hpc : setCount m ≤ 1024 := (setCount_le m).trans hrest.1
    have hpos : 0 < setCount m := Nat.pos_of_ne_zero hplain.1
    have hneed : u32 (b.idx.length + setCount m) = b.idx.length + setCount m := u32_of_lt (by omega)
    obtain ⟨i, hi, hb⟩ := hcap
    have hle : b.idx.length + setCount m ≤ cap ∧ ∃ i ≤ 31, cap = 2 ^ i := by
      rw [RowselBuilder.reserve, hneed, hb, if_pos (Nat.two_pow_pos i).ne'] at hgrown
      split at hgrown
      · exact growCap_pow (by omega) (.inr ⟨i, hi, rfl⟩) hgrown
      · obtain rfl := Option.some.inj hgrown
        exact ⟨by omega, i, hi, rfl⟩
    obtain ⟨hle, i', hi', rfl⟩ := hle
    refine ih hrest.2 ⟨i', hi', rfl⟩ ?_ h
    have hpow : 2 ^ i' ≤ 2 ^ 31 := Nat.pow_le_pow_right (by norm_num) hi'
    change (b.idx ++ setRows m).length ≤ _
    rw [length_append, setRows_length]
    omega

section

variable {p : List UInt8} {workers : List (List (List UInt8))}

lemma morsels_length (p : List UInt8) : (morsels p).length = segs p.length := by simp [morsels]

lemma length_of_mem_morsels (h : m ∈ morsels p) : m.length ≤ 1024 := by
  obtain ⟨s, -, rfl⟩ := mem_map.mp h
  rw [morselAt_length]
  exact segLen_le p.length s

lemma exists_built : (∃ bs, List.Forall₂ (fun ms b => runWorker ms = some b) workers bs) ↔
    ∀ ms ∈ workers, ∃ b, runWorker ms = some b := by
  induction workers with
  | nil => simp
  | cons ms workers ih =>
    rw [forall_mem_cons, ← ih]
    constructor
    · rintro ⟨_, _ | ⟨hb, hbs⟩⟩
      exact ⟨⟨_, hb⟩, _, hbs⟩
    · rintro ⟨⟨b, hb⟩, bs, hbs⟩
      exact ⟨b :: bs, .cons hb hbs⟩

lemma total_ne_of_failing {r : ℕ} (hr : r < p.length) (hfail : passes p r = false) :
    ((Kept.full p.length).refine p).total ≠ p.length := by
  intro htotal
  have hrows := ((Kept.full p.length).refine p).rowsOf_of_total htotal
  rw [Kept.refine_rowsOf, Kept.full_rowsOf] at hrows
  have hmem : r ∈ (range p.length).filter (passes p) := by
    rw [hrows]
    exact mem_range.mpr hr
  rw [mem_filter, hfail] at hmem
  exact Bool.false_ne_true hmem.2

lemma runWorker_some_iff (hk : ms.length ≤ 2 ^ 22) (hms : ∀ m ∈ ms, m.length ≤ 1024) :
    (∃ b, runWorker ms = some b) ↔ ms.length < 2 ^ 22 ∨ (ms.map mixRows).sum ≤ 2 ^ 31 := by
  obtain hlt | hfull := Nat.lt_or_eq_of_le hk
  · exact iff_of_true (runWorker_room hlt hms) (.inl hlt)
  have hcap : (rowselBuilderInit ms.length).idxCap = 2 ^ 25 := by
    rw [hfull]
    rfl
  constructor
  · rintro ⟨b, hb⟩
    have hupper : b.idx.length ≤ 2 ^ 31 := emitFrom_pow hms ⟨25, by norm_num, hcap⟩ (Nat.zero_le _) hb
    have hidx := (emitted_worker hb).idx
    rw [hidx, length_flatMap_range, sumTo_getD fun m => (morselOut m).written.length] at hupper
    simp only [← mixRows_eq] at hupper
    exact .inr hupper
  · intro h
    have hsum := h.resolve_left hfull.not_lt
    refine emitFrom_room (c := 2 ^ 25) (J := 6) (by norm_num) (by norm_num) (by norm_num)
      ⟨0, by norm_num, by rw [hcap, pow_zero, Nat.mul_one]⟩ ?_
    change 0 + _ ≤ _
    omega

end

def gapped (n : ℕ) : List UInt8 := (List.range n).map fun r => if r % 1024 = 0 then 0 else 1

lemma passes_gapped {n r : ℕ} (h : r < n) : passes (gapped n) r = !(r % 1024 == 0) := by
  rw [passes, gapped, getD_map_range _ _ h]
  by_cases h0 : r % 1024 = 0
  · simp [h0]
  · simp [h0]

lemma setRows_gapped (h : s * 1024 + 1024 ≤ n) : (setRows (morselAt (gapped n) s)).length = 1023 := by
  have hlen : segLen (gapped n).length s = 1024 := by
    simp only [segLen, segEnd, segBase, rayMorselElems, gapped, length_map, length_range]
    omega
  have hcount : ∀ k, ((range (k + 1)).filter fun i => !(i == 0)).length = k := by
    intro k
    induction k with
    | zero => rfl
    | succ k ih =>
      rw [range_succ, filter_append, length_append, ih]
      rfl
  rw [setRows, length_map, morselAt_length, hlen, ← hcount 1023]
  refine congrArg length (filter_congr fun i hi => ?_)
  rw [mem_range] at hi
  rw [passes_morselAt _ (by omega), segBase, rayMorselElems, passes_gapped (by omega)]
  have hmod : (s * 1024 + i) % 1024 = i := by omega
  rw [hmod]

lemma written_gapped (h : s * 1024 + 1024 ≤ n) : (morselOut (morselAt (gapped n) s)).written.length = 1023 := by
  have hcount := setRows_gapped h
  have hlen : (morselAt (gapped n) s).length = 1024 := by
    rw [morselAt_length]
    simp only [segLen, segEnd, segBase, rayMorselElems, gapped, length_map, length_range]
    omega
  rw [morselOut, ← setRows_length, hcount, hlen, if_neg (by norm_num), if_neg (by norm_num)]
  exact hcount

lemma runWorker_gapped {n : ℕ} (hn : n = 2 ^ 32 - 1023) : runWorker (morsels (gapped n)) = none := by
  have hlen : (gapped n).length = n := by rw [gapped, length_map, length_range]
  have hsegs : segs (gapped n).length = 2 ^ 22 := by
    rw [hlen, hn]
    rfl
  have hmorsels : (morsels (gapped n)).length = 2 ^ 22 := by rw [morsels_length, hsegs]
  rw [Option.eq_none_iff_forall_ne_some]
  intro b hb
  have hemitted := emitted_worker hb
  have hcap : ∃ i ≤ 31, (rowselBuilderInit (morsels (gapped n)).length).idxCap = 2 ^ i := by
    rw [hmorsels]
    exact ⟨25, by norm_num, rfl⟩
  have hupper : b.idx.length ≤ 2 ^ 31 :=
    emitFrom_pow (fun m hm => length_of_mem_morsels hm) hcap (Nat.zero_le _) hb
  have hlower : sumTo (fun _ => 1023) (2 ^ 22 - 1) ≤ b.idx.length := by
    rw [hemitted.idx, length_flatMap_range, hmorsels]
    refine le_trans (sumTo_le_sumTo ?_) (sumTo_mono _ (Nat.sub_le _ 1))
    intro s hs
    rw [morsels, getD_map_range _ _ (by omega), written_gapped (by omega)]
  rw [sumTo, map_const', sum_replicate, length_range, smul_eq_mul] at hlower
  omega

section

open Rayforce.Expr hiding Sound

def grain : ℕ := 8 * rayMorselElems

def parallel (pool : Bool) (nrows : ℕ) : Bool := pool && 64 * rayMorselElems ≤ nrows

def nTasks (pool : Bool) (nrows : ℕ) : ℕ := if parallel pool nrows then u32 (segCount grain nrows) else 1

def task (pool : Bool) (nrows i : ℕ) : ℕ × ℕ :=
  if parallel pool nrows then (i * grain, segEnd grain nrows i) else (0, nrows)

def taskMorsels (t : ℕ × ℕ) : List (ℕ × ℕ) := (List.range (segCount rayMorselElems (t.2 - t.1))).map fun j =>
  (t.1 + j * rayMorselElems, min (t.1 + j * rayMorselElems + rayMorselElems) t.2)

-- a slot past the builders is a failed assertion
def predSelWorker (fill : ℕ → ℕ → List UInt8) (t : ℕ × ℕ) (bs : List RowselBuilder) :
    Option (List RowselBuilder) := do
  let b ← bs[t.1 / grain]?
  let b ← (taskMorsels t).foldlM
    (fun b m => rowselEmitSegment b (m.1 / rayMorselElems - t.1 / rayMorselElems) (fill m.1 m.2)) b
  some (bs.set (t.1 / grain) b)

def predSelBuildersAlloc (pool : Bool) (nrows : ℕ) : Option (List RowselBuilder) :=
  if parallel pool nrows ∧ 2 ^ 16 < nTasks pool nrows then none
  else some ((List.range (nTasks pool nrows)).map fun i =>
    rowselBuilderInit (u32 (segCount rayMorselElems ((task pool nrows i).2 - (task pool nrows i).1))))

def predSelBuildersFinish (builders : List RowselBuilder) (nrows : ℕ) : Option Rowsel × Bool :=
  match rowselBuilderFinish builders nrows with
  | none => (none, false)
  | some block => if block.totalPass = nrows then (none, true) else (some block, false)

/-- The selection and the flag `all_pass`, when the tasks run in the order `order`. -/
def predSelDrive (fill : ℕ → ℕ → List UInt8) (pool : Bool) (nrows : ℕ) (order : List ℕ) :
    Option (Option Rowsel × Bool) :=
  if nrows = 0 then some (none, true)
  else
    match predSelBuildersAlloc pool nrows with
    | none => some (none, false)
    | some builders => (order.foldlM (fun bs i => predSelWorker fill (task pool nrows i) bs) builders).map
      (predSelBuildersFinish · nrows)

def outByte (k : Kernels) (p : Program) (row : ℕ) : UInt8 := (outLane k p row).toUInt64.toUInt8

def morselBools (k : Kernels) (p : Program) (ms me : ℕ) : List UInt8 :=
  match exprZoneDecide p ms me with
  | some d => List.replicate (me - ms) (if d then 1 else 0)
  | none => (List.range' ms (me - ms)).map (outByte k p)

def execPredToSelection (k : Kernels) (p : Program) := predSelDrive (morselBools k p)

def exprFullFn (k : Kernels) (p : Program) (t : ℕ × ℕ) (out : List UInt8) : List UInt8 :=
  (taskMorsels t).foldl (fun out m => writeAt out m.1 (morselBools k p m.1 m.2)) out

def exprEvalFull (k : Kernels) (p : Program) (nrows : ℕ) : List UInt8 :=
  exprFullFn k p (0, nrows) (List.replicate nrows 0)

variable {pool : Bool} {nrows i : ℕ} {fill : ℕ → ℕ → List UInt8} {order : List ℕ}

def segBools (fill : ℕ → ℕ → List UInt8) (nrows s : ℕ) : List UInt8 := fill (s * 1024) (segEnd 1024 nrows s)

def bools (fill : ℕ → ℕ → List UInt8) (nrows : ℕ) : List UInt8 :=
  (List.range (segs nrows)).flatMap (segBools fill nrows)

def taskSegs (t : ℕ × ℕ) : List ℕ := List.range' (t.1 / 1024) (segCount 1024 (t.2 - t.1))

structure Aligned (nrows : ℕ) (t : ℕ × ℕ) : Prop where
  start : t.1 % 1024 = 0
  stop : t.2 ≤ nrows ∧ (t.2 = nrows ∨ t.2 % 1024 = 0)

lemma Aligned.morsels {t : ℕ × ℕ} (ht : Aligned nrows t) : taskMorsels t = (taskSegs t).map fun s =>
    (s * 1024, segEnd 1024 nrows s) := by
  obtain ⟨hstart, hle, hstop⟩ := ht
  rw [taskMorsels, taskSegs, range'_eq_map_range, List.map_map, rayMorselElems]
  refine map_congr_left fun j hj => ?_
  rw [mem_range, segCount] at hj
  rw [Function.comp_apply, segEnd, Prod.mk.injEq]
  omega

lemma foldlM_emit (f : ℕ → List UInt8) (b : RowselBuilder) (off n i : ℕ) :
    (List.range' (off + i) n).foldlM (fun b s => rowselEmitSegment b (s - off) (f s)) b =
      emitFrom b i ((List.range' (off + i) n).map f) := by
  induction n generalizing b i with
  | zero => rfl
  | succ n ih =>
    rw [range'_succ, foldlM_cons, map_cons, emitFrom, Nat.add_sub_cancel_left]
    exact congrArg (Option.bind _) (funext fun c => ih c (i + 1))

lemma Aligned.worker {t : ℕ × ℕ} (ht : Aligned nrows t) (fill : ℕ → ℕ → List UInt8) (bs : List RowselBuilder) :
    predSelWorker fill t bs =
    (bs[t.1 / grain]?.bind fun b => emitFrom b 0 ((taskSegs t).map (segBools fill nrows))).map
    (bs.set (t.1 / grain)) := by
  rw [predSelWorker, ht.morsels]
  cases bs[t.1 / grain]? with
  | none => rfl
  | some b =>
    simp only [Option.bind_eq_bind, Option.bind_some, foldlM_map, rayMorselElems,
      Nat.mul_div_cancel _ (Nat.succ_pos 1023)]
    have hrun := foldlM_emit (segBools fill nrows) b (t.1 / 1024) (segCount 1024 (t.2 - t.1)) 0
    rw [Nat.add_zero] at hrun
    rw [taskSegs, ← hrun]
    exact (Option.map_eq_bind ..).symm

lemma task_aligned (hi : i < nTasks pool nrows) :
    Aligned nrows (task pool nrows i) ∧ (task pool nrows i).1 / grain = i := by
  rw [nTasks] at hi
  rw [task]
  split_ifs at hi ⊢
  · simp only [u32, segCount, grain, rayMorselElems] at hi
    simp only [segEnd, grain, rayMorselElems]
    exact ⟨⟨by dsimp only; omega, by dsimp only; omega⟩, by omega⟩
  · exact ⟨⟨rfl, le_rfl, .inl rfl⟩, (Nat.zero_div _).trans (Nat.lt_one_iff.mp hi).symm⟩

lemma task_cover (pool : Bool) (hn : nrows < 2 ^ 32) : (List.range (nTasks pool nrows)).flatMap
    (fun i => taskSegs (task pool nrows i)) = List.range (segs nrows) := by
  by_cases hpar : parallel pool nrows = true
  · have hcount : nTasks pool nrows = segCount 8 (segs nrows) := by
      simp only [nTasks, if_pos hpar, u32, segs, segCount, grain, rayMorselElems]
      omega
    rw [hcount, ← flatMap_segments (segs nrows) (m := 8) (by norm_num)]
    refine flatMap_congr fun i _ => ?_
    simp only [taskSegs, task, if_pos hpar, segs, segCount, segEnd, grain, rayMorselElems]
    congr 1 <;> omega
  · simp only [nTasks, task, if_neg hpar, taskSegs, range_one, flatMap_singleton]
    rw [range_eq_range']
    rfl

section

variable (hfill : ∀ ms me, (fill ms me).length = me - ms)
include hfill

lemma sumTo_segBools (s : ℕ) : sumTo (fun s => (segBools fill nrows s).length) s = min (s * 1024) nrows := by
  rw [← length_range (n := min _ _), ← flatMap_segments_to, length_flatMap_range]
  exact sumTo_congr fun j _ => by rw [segBools, hfill, length_range']

lemma bools_length (nrows : ℕ) : (bools fill nrows).length = nrows := by
  rw [bools, length_flatMap_range, sumTo_segBools hfill]
  exact min_eq_right (le_segCount_mul nrows (by decide))

lemma morsels_bools (nrows : ℕ) :
    morsels (bools fill nrows) = (List.range (segs nrows)).map (segBools fill nrows) := by
  rw [morsels, bools_length hfill]
  refine map_congr_left fun s hs => ?_
  have hlt := mem_range.mp hs
  have hslice := slice_flatMap (segBools fill nrows) hlt
  rw [sumTo_segBools hfill, sumTo_segBools hfill] at hslice
  rw [morselAt, bools_length hfill, segBase, segEnd, rayMorselElems, ← Nat.succ_mul, bools, ← hslice]
  congr 1
  simp only [segs, segCount, rayMorselElems] at hlt
  omega

lemma predSelDrive_eq (h0 : 0 < nrows) (hn : nrows ≤ 2 ^ 32 - 1024)
    (hfit : ¬ (parallel pool nrows ∧ 2 ^ 16 < nTasks pool nrows))
    (horder : order.Perm (List.range (nTasks pool nrows))) : predSelDrive fill pool nrows order =
      some (rayRowselFromPred (bools fill nrows), (rayRowselFromPred (bools fill nrows)).isNone) := by
  have hlen := bools_length hfill nrows
  set n := nTasks pool nrows with hN
  set work := fun i => (taskSegs (task pool nrows i)).map (segBools fill nrows) with hwork
  have hcover : ((List.range n).map work).flatten = morsels (bools fill nrows) := by
    rw [morsels_bools hfill, ← task_cover pool (by omega), map_flatMap, flatMap_def]
  have hrun : ∀ i < n, runWorker (work i) = some ((runWorker (work i)).getD (rowselBuilderInit 0)) := by
    intro i hi
    have hsub := sublist_flatten_of_mem (mem_map_of_mem (f := work) (mem_range.mpr hi))
    rw [hcover] at hsub
    have hle := hsub.length_le
    rw [morsels_length, hlen, segs, segCount, rayMorselElems] at hle
    obtain ⟨b, hb⟩ := runWorker_room (by omega) fun m hm => length_of_mem_morsels (hsub.subset hm)
    rw [hb]
    rfl
  have halloc : predSelBuildersAlloc pool nrows =
      some ((List.range n).map fun i => rowselBuilderInit (work i).length) := by
    rw [predSelBuildersAlloc, if_neg hfit]
    refine congrArg some (map_congr_left fun i hi => congrArg rowselBuilderInit ?_)
    have hstop := (task_aligned (mem_range.mp hi)).1.stop.1
    rw [hwork, length_map, taskSegs, length_range']
    refine u32_of_lt ?_
    rw [segCount, rayMorselElems]
    omega
  have hslots := Library.Loops.foldlM_slots (f := fun i b => emitFrom b 0 (work i))
    (w := fun bs i => predSelWorker fill (task pool nrows i) bs)
    (fun i hi bs => by rw [(task_aligned hi).1.worker, (task_aligned hi).2]) horder hrun
  have hfinish := rowselBuilderFinish_eq (by omega) hcover (by
    rw [forall₂_map_left_iff, forall₂_map_right_iff, forall₂_same]
    exact fun i hi => hrun i (mem_range.mp hi))
  rw [hlen] at hfinish
  rw [predSelDrive, if_neg h0.ne', halloc]
  dsimp only
  rw [hslots, Option.map_some, predSelBuildersFinish, hfinish, rayRowselFromPred_eq (by omega) _ hlen]
  change some (if ((Kept.full nrows).refine _).total = nrows then _ else _) = _
  by_cases hall : ((Kept.full nrows).refine (bools fill nrows)).total = nrows
  · rw [if_pos hall, if_pos ⟨h0.ne', hall⟩]
    rfl
  · rw [if_neg hall, if_neg fun h => hall h.2]
    rfl

end

variable (k : Kernels) (p : Program)

lemma morselBools_length (ms me : ℕ) : (morselBools k p ms me).length = me - ms := by
  rw [morselBools]
  split
  · exact length_replicate
  · rw [length_map, length_range']

lemma exprEvalFull_eq (nrows : ℕ) : exprEvalFull k p nrows = bools (morselBools k p) nrows := by
  have hlen := bools_length (morselBools_length k p) nrows
  rw [bools, length_flatMap_range] at hlen
  have hwrite := foldl_writeAt (segBools (morselBools k p) nrows) (List.replicate nrows 0) (segs nrows)
  rw [hlen, drop_eq_nil_of_le (by simp), append_nil] at hwrite
  have hall : taskSegs (0, nrows) = List.range (segs nrows) := by
    rw [range_eq_range', taskSegs, segs, rayMorselElems, Nat.zero_div, Nat.sub_zero]
  rw [exprEvalFull, exprFullFn, (show Aligned nrows (0, nrows) from ⟨rfl, le_rfl, .inl rfl⟩).morsels, foldl_map,
    bools, ← hwrite, hall]
  refine foldl_ext _ _ _ fun out s hs => ?_
  have hlt := mem_range.mp hs
  simp only [segs, segCount, rayMorselElems] at hlt
  rw [sumTo_segBools (morselBools_length k p), min_eq_left (by omega)]
  rfl

/-- A predicate streamed by the workers into their builders, in whatever order they run, is the block of the
predicate's column; the caller is left to that column only where the ring is too short for the tasks. -/
theorem execPredToSelection_streams (h0 : 0 < nrows) (hn : nrows ≤ 2 ^ 32 - 1024)
    (horder : order.Perm (List.range (nTasks pool nrows))) :
    execPredToSelection k p pool nrows order = some (if pool ∧ 2 ^ 29 < nrows then (none, false)
      else (rayRowselFromPred (exprEvalFull k p nrows), (rayRowselFromPred (exprEvalFull k p nrows)).isNone)) := by
  have hover : (parallel pool nrows ∧ 2 ^ 16 < nTasks pool nrows) ↔ pool ∧ 2 ^ 29 < nrows := by
    cases pool with
    | false => simp [parallel]
    | true =>
      simp only [nTasks, parallel, Bool.true_and, decide_eq_true_eq, true_and]
      by_cases hlong : 64 * rayMorselElems ≤ nrows
      · rw [if_pos hlong]
        simp only [u32, segCount, grain, rayMorselElems] at hlong ⊢
        omega
      · rw [rayMorselElems] at hlong
        exact iff_of_false (fun h => hlong h.1) (by omega)
  rw [exprEvalFull_eq, execPredToSelection]
  by_cases hfit : parallel pool nrows ∧ 2 ^ 16 < nTasks pool nrows
  · rw [predSelDrive, if_neg h0.ne', predSelBuildersAlloc, if_pos hfit, if_pos (hover.mp hfit)]
  · rw [predSelDrive_eq (morselBools_length k p) h0 hn hfit horder, if_neg (hover.not.mp hfit)]

theorem execPredToSelection_streams_belowThree : execPredToSelection silentKernels belowThree true 2048 [0] =
    some (rayRowselFromPred (exprEvalFull silentKernels belowThree 2048),
      (rayRowselFromPred (exprEvalFull silentKernels belowThree 2048)).isNone) :=
  (execPredToSelection_streams silentKernels belowThree (by decide) (by decide) (.refl _)).trans
    (congrArg some (if_neg (by decide)))

end

end Rayforce.Selection
