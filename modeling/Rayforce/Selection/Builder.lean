import Rayforce.Selection.Producers

namespace Rayforce.Selection

open Library.Segments List Option Function

variable {ms : List (List UInt8)} {b b' : RowselBuilder} {m : List UInt8}

def setCount (m : List UInt8) : ℕ := m.countP (· != 0)

def morselOut (m : List UInt8) : SegOut :=
  if setCount m = 0 then ⟨.none, 0, []⟩
  else if setCount m = m.length then ⟨.all, 0, []⟩
  else ⟨.mix, (setRows m).length, setRows m⟩

structure Emitted (ms : List (List UInt8)) (k : ℕ) (b : RowselBuilder) : Prop where
  nSegs : b.nSegs = ms.length
  flags : b.segFlags = (List.range k).map (fun s => (morselOut (ms.getD s [])).flag)
    ++ (List.replicate ms.length SelFlag.none).drop k
  offs : b.segOff = (List.range (k + 1)).map (sumTo fun s => (morselOut (ms.getD s [])).written.length)
    ++ (List.replicate (ms.length + 1) 0).drop (k + 1)
  idx : b.idx = (List.range k).flatMap fun s => (morselOut (ms.getD s [])).written
  total : b.totalPass = sumTo (fun s => setCount (ms.getD s [])) k

lemma emitted_init (ms : List (List UInt8)) : Emitted ms 0 (rowselBuilderInit ms.length) where
  nSegs := rfl
  flags := by simp [rowselBuilderInit]
  offs := by simp [rowselBuilderInit, replicate_succ]
  idx := by simp [rowselBuilderInit]
  total := rfl

lemma rowselEmitSegment_ok {seg : ℕ} (h : rowselEmitSegment b seg m = some b') :
    ∃ cap, b' = { b.close seg (setCount m) (morselOut m).flag
      (b.idx ++ (morselOut m).written) with idxCap := cap } := by
  simp only [rowselEmitSegment] at h
  rw [morselOut, setCount]
  split_ifs at h ⊢ with h0 hall
  · refine ⟨b.idxCap, ?_⟩
    rw [append_nil]
    exact (some.inj h).symm
  · refine ⟨b.idxCap, ?_⟩
    rw [append_nil]
    exact (some.inj h).symm
  · obtain ⟨cap, _, h⟩ := bind_eq_some_iff.mp h
    exact ⟨cap, (some.inj h).symm⟩

lemma emitted_step {k : ℕ} (hb : Emitted ms k b)
    (hk : k < ms.length) (h : rowselEmitSegment b k (ms.getD k []) = some b') : Emitted ms (k + 1) b' := by
  obtain ⟨cap, rfl⟩ := rowselEmitSegment_ok h
  have hlen : b.idx.length = sumTo (fun s => (morselOut (ms.getD s [])).written.length) k := by
    rw [hb.idx, length_flatMap_range]
  refine ⟨hb.nSegs, ?_, ?_, ?_, ?_⟩
  · have hset := set_append_drop ((range k).map fun s => (morselOut (ms.getD s [])).flag)
      (replicate ms.length SelFlag.none) (morselOut (ms.getD k [])).flag (by simpa using hk)
    simp only [length_map, length_range] at hset
    change b.segFlags.set k _ = _
    rw [hb.flags, hset, range_succ, map_append]
    rfl
  · set w := fun s => (morselOut (ms.getD s [])).written.length with hw
    have hself : b.segOff.set k (sumTo w k) = b.segOff := by
      have hlt : k < b.segOff.length := by
        rw [hb.offs, length_append, length_map, length_range]
        omega
      have hget : b.segOff[k] = sumTo w k := by
        rw [getElem_of_eq hb.offs, getElem_append_left (by simp), getElem_map, getElem_range]
      rw [← hget, set_getElem_self]
    have hset := set_append_drop ((range (k + 1)).map (sumTo w)) (replicate (ms.length + 1) 0)
      (sumTo w (k + 1)) (by simpa using hk)
    simp only [length_map, length_range] at hset
    have hval : (b.idx ++ (morselOut (ms.getD k [])).written).length = sumTo w (k + 1) := by
      rw [length_append, hlen, sumTo_succ]
    change (b.segOff.set k b.idx.length).set (k + 1) (b.idx ++ (morselOut (ms.getD k [])).written).length = _
    rw [hval, hlen, hself, hb.offs, hset, range_succ (n := k + 1), map_append]
    rfl
  · change b.idx ++ _ = _
    rw [hb.idx, range_succ, flatMap_append, flatMap_singleton]
  · change b.totalPass + _ = _
    rw [hb.total, sumTo_succ]

lemma emitted_run {ms rest : List (List UInt8)} {k : ℕ} (hb : Emitted ms k b)
    (hrest : ms.drop k = rest) (hk : k + rest.length = ms.length) (h : emitFrom b k rest = some b') :
    Emitted ms ms.length b' := by
  induction rest generalizing k b with
  | nil =>
    obtain rfl : b = b' := some.inj h
    obtain rfl : k = ms.length := by simpa using hk
    exact hb
  | cons m rest ih =>
    rw [length_cons] at hk
    have hlt : k < ms.length := by omega
    have hm : ms.getD k [] = m := by
      have hget := congrArg (fun l => l[0]?) hrest
      simp only [getElem?_drop, Nat.add_zero, getElem?_cons_zero] at hget
      rw [getD_eq_getElem?_getD, hget, getD_some]
    have htail : ms.drop (k + 1) = rest := by
      rw [← drop_drop, hrest, drop_one, tail_cons]
    obtain ⟨c, hc, h⟩ := bind_eq_some_iff.mp h
    rw [← hm] at hc
    exact ih (emitted_step hb hlt hc) htail (by omega) h

lemma emitted_worker {b : RowselBuilder} (h : runWorker ms = some b) : Emitted ms ms.length b :=
  emitted_run (emitted_init ms) (drop_zero ..) (by simp) h

lemma morselOut_mix (h : (morselOut m).flag = .mix) :
    morselOut m = ⟨.mix, (morselOut m).written.length, (morselOut m).written⟩ := by
  rw [morselOut] at h ⊢
  split_ifs at h ⊢
  rfl

lemma morselOut_plain (h : (morselOut m).flag ≠ .mix) : morselOut m = ⟨(morselOut m).flag, 0, []⟩ := by
  rw [morselOut] at h ⊢
  split_ifs at h ⊢
  · rfl
  · rfl
  · exact absurd rfl h

lemma stitchSeg_emitted {b : RowselBuilder} (hb : Emitted ms ms.length b)
    {s : ℕ} (h : s < ms.length) : stitchSeg b s = morselOut (ms.getD s []) := by
  have hflag : b.segFlags.getD s .none = (morselOut (ms.getD s [])).flag := by
    rw [hb.flags, drop_eq_nil_of_le (by simp), append_nil, getD_map_range _ _ h]
  have hoff : ∀ j ≤ ms.length, b.segOff.getD j 0
      = sumTo (fun s => (morselOut (ms.getD s [])).written.length) j := by
    intro j hj
    rw [hb.offs, drop_eq_nil_of_le (by simp), append_nil, getD_map_range _ _ (Nat.lt_succ_of_le hj)]
  rw [stitchSeg, hflag, hoff s h.le, hoff (s + 1) h, hb.idx,
    slice_flatMap (fun s => (morselOut (ms.getD s [])).written) h]
  by_cases hmix : (morselOut (ms.getD s [])).flag = .mix
  · rw [if_pos hmix, morselOut_mix hmix, sumTo_succ, Nat.add_sub_cancel_left]
  · rw [if_neg hmix]
    exact (morselOut_plain hmix).symm

lemma stitch_worker {b : RowselBuilder} (hb : Emitted ms ms.length b) :
    (List.range b.nSegs).map (stitchSeg b) = ms.map morselOut := by
  apply ext_getElem
  · simp [hb.nSegs]
  · intro s hs hs'
    rw [length_map] at hs'
    rw [getElem_map, getElem_range, getElem_map, stitchSeg_emitted hb hs', getD_eq_getElem _ _ hs']

lemma sumTo_getD {α : Type*} (w : α → ℕ) (d : α) (l : List α) :
    sumTo (fun s => w (l.getD s d)) l.length = (l.map w).sum := by
  rw [sumTo]
  refine congrArg sum (ext_getElem (by simp) ?_)
  intro s hs hs'
  rw [length_map] at hs'
  rw [getElem_map, getElem_range, getElem_map, getD_eq_getElem _ _ hs']

section

variable {workers : List (List (List UInt8))} {bs : List RowselBuilder}
  (hw : List.Forall₂ (fun ms b => runWorker ms = some b) workers bs)

include hw

lemma stitch_segs : (builderSegs bs).map (fun x => stitchSeg x.1 x.2) = workers.flatten.map morselOut := by
  induction hw with
  | nil => rfl
  | cons hb _ ih =>
    have hworker := stitch_worker (emitted_worker hb)
    rw [builderSegs, flatMap_cons, map_append, List.map_map, flatten_cons, map_append]
    exact congrArg₂ (· ++ ·) hworker ih

lemma stitch_total : (bs.map RowselBuilder.totalPass).sum = (workers.flatten.map setCount).sum := by
  induction hw with
  | nil => rfl
  | cons hb _ ih =>
    rw [map_cons, sum_cons, flatten_cons, map_append, sum_append, ih, (emitted_worker hb).total, sumTo_getD]

lemma stitch_count : (bs.map fun b => b.idx.length).sum =
    (workers.flatten.map fun m => (morselOut m).written.length).sum := by
  induction hw with
  | nil => rfl
  | cons hb _ ih =>
    rw [map_cons, sum_cons, flatten_cons, map_append, sum_append, ih,
      (emitted_worker hb).idx, length_flatMap_range, sumTo_getD fun m => (morselOut m).written.length]

end

def morselAt (p : List UInt8) (s : ℕ) : List UInt8 := slice p (segBase s) (segEnd rayMorselElems p.length s)

def morsels (p : List UInt8) : List (List UInt8) := (List.range (segs p.length)).map (morselAt p)

lemma morselAt_length (p : List UInt8) (s : ℕ) : (morselAt p s).length = segLen p.length s := by
  simp only [morselAt, slice, length_take, length_drop, segLen, segEnd]
  omega

lemma passes_morselAt (p : List UInt8) {s i : ℕ} (h : i < segLen p.length s) :
    passes (morselAt p s) i = passes p (segBase s + i) := by
  have hi : i < segEnd rayMorselElems p.length s - segBase s := h
  rw [passes, passes, morselAt, slice, getD_eq_getElem?_getD, getD_eq_getElem?_getD,
    getElem?_take_of_lt hi, getElem?_drop]

lemma setRows_morselAt (p : List UInt8) (s : ℕ) :
    setRows (morselAt p s) = ((Kept.full p.length).refine p).pos s := by
  rw [setRows, morselAt_length, ← map_u16_pos]
  refine congrArg (map u16) (filter_congr ?_)
  intro i hi
  exact passes_morselAt p (mem_range.mp hi)

lemma setCount_eq (m : List UInt8) : setCount m = (setRows m).length := by
  have hm : m = (range m.length).map fun i => m.getD i 0 := by
    apply ext_getElem
    · simp
    · intro i hi _
      rw [getElem_map, getElem_range, getD_eq_getElem _ _ hi]
  rw [setCount, setRows, length_map, ← countP_eq_length_filter]
  conv_lhs => rw [hm]
  rw [countP_map]
  rfl

lemma morselOut_morselAt (p : List UInt8) (s : ℕ) :
    morselOut (morselAt p s) = ((Kept.full p.length).refine p).out s := by
  rw [morselOut, setCount_eq, setRows_morselAt, morselAt_length, Kept.out_eq]

lemma rowselBuilderFinish_eq {p : List UInt8} (hn : p.length < 2 ^ 32) {workers : List (List (List UInt8))}
    {bs : List RowselBuilder} (hcover : workers.flatten = morsels p)
    (hw : List.Forall₂ (fun ms b => runWorker ms = some b) workers bs) :
    rowselBuilderFinish bs p.length = some ((Kept.full p.length).refine p).layout := by
  set g := (Kept.full p.length).refine p with hg
  have htotal : (bs.map RowselBuilder.totalPass).sum = g.total := by
    rw [stitch_total hw, hcover, morsels, List.map_map, Kept.total, sumTo]
    refine congrArg List.sum (map_congr_left fun s _ => ?_)
    rw [comp_apply, setCount_eq, setRows_morselAt]
  have hcount : (bs.map fun b => b.idx.length).sum = sumTo (fun s => (g.mixed s).length) (segs p.length) := by
    rw [stitch_count hw, hcover, morsels, List.map_map, sumTo]
    refine congrArg List.sum (map_congr_left fun s _ => ?_)
    rw [comp_apply, morselOut_morselAt]
    rfl
  simp only [rowselBuilderFinish, htotal]
  refine fill_eq_layout hn g _ hcount ?_
  intro s hs
  have hget : ((builderSegs bs).map fun x => stitchSeg x.1 x.2)[s]? = some (g.out s) := by
    rw [stitch_segs hw, hcover, morsels, List.map_map, getElem?_map, getElem?_range hs, map_some,
      comp_apply, morselOut_morselAt]
  rw [getElem?_map, map_eq_some_iff] at hget
  obtain ⟨x, hx, hout⟩ := hget
  simp only [hx, hout]

end Rayforce.Selection
