import Rayforce.Selection.Algebra

namespace Rayforce.Selection

open Library.Segments List Option

variable {s : ℕ} {l : List ℕ}

section

variable {n : ℕ} {ids : List ℕ}

lemma take_takeWhile (p : ℕ → Bool) (l : List ℕ) : l.take (l.takeWhile p).length = l.takeWhile p := by
  induction l with
  | nil => rfl
  | cons a l ih => cases hp : p a <;> simp [hp, ih]

lemma drop_takeWhile (p : ℕ → Bool) (l : List ℕ) : l.drop (l.takeWhile p).length = l.dropWhile p := by
  induction l with
  | nil => rfl
  | cons a l ih => cases hp : p a <;> simp [hp, ih]

lemma takeWhile_append_of_imp {p q : ℕ → Bool} (h : ∀ a, p a = true → q a = true) (l : List ℕ) :
    l.takeWhile q = l.takeWhile p ++ (l.dropWhile p).takeWhile q := by
  induction l with
  | nil => rfl
  | cons a l ih =>
    cases hp : p a with
    | true => simp [hp, h a hp, ih]
    | false => simp [hp]

lemma takeWhile_eq_filter (h : l.Pairwise (· < ·)) (b : ℕ) : l.takeWhile (· < b) = l.filter (· < b) := by
  induction l with
  | nil => rfl
  | cons a l ih =>
    by_cases hb : a < b
    · simp [hb, ih h.of_cons]
    · have hnone : l.filter (· < b) = [] := by
        apply filter_eq_nil_iff.mpr
        intro x hx
        have := rel_of_pairwise_cons h hx
        simp only [decide_eq_true_eq]
        omega
      simp [hb, hnone]

lemma dropWhile_eq_filter (h : l.Pairwise (· < ·)) (b : ℕ) : l.dropWhile (· < b) = l.filter (b ≤ ·) := by
  induction l with
  | nil => rfl
  | cons a l ih =>
    by_cases hb : a < b
    · simp [hb, ih h.of_cons, Nat.not_le.mpr hb]
    · have hall : l.filter (b ≤ ·) = l := by
        apply filter_eq_self.mpr
        intro x hx
        have := rel_of_pairwise_cons h hx
        simp only [decide_eq_true_eq]
        omega
      simp [hb, hall, Nat.le_of_not_lt hb]

end

namespace Kept

variable {n : ℕ}

def ofIds (n : ℕ) (ids : List ℕ) (hasc : ids.Pairwise (· < ·)) : Kept n where
  pos s := (ids.filter fun r => segBase s ≤ r ∧ r < segBase s + segLen n s).map (· - segBase s)
  ascending s := by
    apply List.pairwise_map.mpr
    refine (hasc.filter _).imp_of_mem ?_
    intro a b ha _ hab
    have := (List.mem_filter.mp ha).2
    simp only [decide_eq_true_eq] at this
    omega
  inside s i hi := by
    obtain ⟨r, hr, rfl⟩ := List.mem_map.mp hi
    have := (List.mem_filter.mp hr).2
    simp only [decide_eq_true_eq] at this
    omega

variable {ids : List ℕ} (hasc : ids.Pairwise (· < ·))

lemma mem_ofIds_pos {s i : ℕ} (hi : i < segLen n s) : i ∈ (ofIds n ids hasc).pos s ↔ segBase s + i ∈ ids := by
  simp only [ofIds, List.mem_map, mem_filter, decide_eq_true_eq]
  constructor
  · rintro ⟨r, ⟨hr, h1, h2⟩, rfl⟩
    rwa [Nat.add_sub_cancel' h1]
  · intro h
    exact ⟨_, ⟨h, by omega, by omega⟩, by omega⟩

lemma exists_position {r : ℕ} (hr : r < n) : ∃ s i, s < segs n ∧ i < segLen n s ∧ r = segBase s + i := by
  refine ⟨r / 1024, r % 1024, ?_, ?_, ?_⟩
  · have hle := le_segCount_mul n (show 0 < rayMorselElems by decide)
    simp only [rayMorselElems] at hle
    simp only [segs, rayMorselElems]
    omega
  · simp only [segLen, segEnd, segBase, rayMorselElems]
    omega
  · simp only [segBase, rayMorselElems]
    omega

lemma ofIds_rowsOf (hlt : ∀ r ∈ ids, r < n) : (ofIds n ids hasc).rowsOf = ids := by
  apply List.Pairwise.eq_of_mem_iff (rowsOf_ascending _) hasc
  intro r
  constructor
  · intro h
    obtain ⟨s, _, hs⟩ := mem_flatMap.mp h
    obtain ⟨i, hi, rfl⟩ := mem_map.mp hs
    exact (mem_ofIds_pos hasc ((ofIds n ids hasc).inside s i hi)).mp hi
  · intro h
    obtain ⟨s, i, _, hi, rfl⟩ := exists_position (hlt r h)
    exact (mem_rowsOf _ hi).mpr ((mem_ofIds_pos hasc hi).mpr h)

lemma ofIds_total (hlt : ∀ r ∈ ids, r < n) : (ofIds n ids hasc).total = ids.length := by
  rw [← length_rowsOf, ofIds_rowsOf hasc hlt]

variable (f : Kept n)

def padded (pad : List ℕ) : Rowsel := { f.layout with idx := f.layout.idx ++ pad }

lemma padded_segIdx (pad : List ℕ) (h : s < segs n) : (f.padded pad).segIdx s = f.layout.segIdx s := by
  have hle : f.layout.offset (s + 1) ≤ f.layout.idx.length := by
    have hlen : f.layout.idx.length = sumTo (fun s => (f.mixed s).length) (segs n) := length_flatMap_range _ _
    rw [f.layout_offset h, hlen]
    exact sumTo_mono _ h
  change slice (f.layout.idx ++ pad) (f.layout.offset s) (f.layout.offset (s + 1)) = _
  rw [Rowsel.segIdx, slice, slice, drop_append, take_append_of_le_length]
  rw [length_drop]
  omega

lemma padded_segIds (pad : List ℕ) (h : s < segs n) : (f.padded pad).segIds s = f.layout.segIds s := by
  simp only [Rowsel.segIds, f.padded_segIdx pad h]
  rfl

lemma toIndices_padded (hn : n < 2 ^ 32) (pad : List ℕ) : rayRowselToIndices (f.padded pad) = f.rowsOf := by
  rw [← f.toIndices_layout hn]
  simp only [rayRowselToIndices]
  have hstep : ∀ out : List ℕ, ∀ s ∈ range (segs n), (if (f.padded pad).flag s = .none then out
        else writeAt out ((flatOffsets (f.padded pad)).getD s 0) ((f.padded pad).segIds s))
      = if f.layout.flag s = .none then out
        else writeAt out ((flatOffsets f.layout).getD s 0) (f.layout.segIds s) := by
    intro out s hs
    rw [f.padded_segIds pad (mem_range.mp hs)]
    rfl
  have hfold := foldl_ext _ _ (replicate f.total 0) hstep
  exact if_congr Iff.rfl rfl hfold

end Kept

lemma fill_eq_padded {n count : ℕ} (hn : n < 2 ^ 32) (f : Kept n) (body : ℕ → SegOut)
    (hcount : count ≤ f.total) (hbody : ∀ s < segs n, body s = f.out s) {sel : Rowsel}
    (h : (rayRowselNew n f.total count).bind (fun b => some (b.fill body)) = some sel) :
      ∃ pad, sel = f.padded pad := by
  have hadv : ∀ k ≤ segs n, sumTo (fun s => (body s).advance) k = sumTo (fun s => (f.mixed s).length) k := by
    intro k hk
    apply sumTo_congr
    intro s hs
    rw [hbody s (by omega)]
    rfl
  have htot := f.total_le
  have hmix := f.mixed_total_le
  rw [rayRowselNew_ok hn f.total_le hcount, bind_some, some.injEq,
    fill_eq (by simp) (by simp) (by rw [hadv _ le_rfl]; omega)] at h
  refine ⟨(replicate count 0).drop (sumTo (fun s => (f.mixed s).length) (segs n)), ?_⟩
  rw [← h]
  simp only [Kept.padded, Kept.layout, Rowsel.mk.injEq, true_and]
  refine ⟨map_congr_left ?_, map_congr_left ?_, ?_⟩
  · intro s hs
    rw [hbody s (mem_range.mp hs)]
    rfl
  · intro s hs
    exact hadv s (by have := mem_range.mp hs; omega)
  · rw [← foldl_writeAt]
    apply foldl_ext
    intro a s hs
    have hlt := mem_range.mp hs
    rw [hadv s hlt.le, hbody s hlt]
    rfl

section

def idsCursor (n : ℕ) (ids : List ℕ) : ℕ → ℕ
  | 0 => 0
  | s + 1 =>
    idsCursor n ids s + ((ids.drop (idsCursor n ids s)).takeWhile (· < segEnd rayMorselElems n s)).length

def sortedIdsSeg (n : ℕ) (ids : List ℕ) (s : ℕ) : SegOut :=
  let mi0 := idsCursor n ids s
  let mi := idsCursor n ids (s + 1)
  if mi - mi0 = 0 then ⟨.none, 0, []⟩
  else if mi - mi0 = segLen n s then ⟨.all, 0, []⟩
  else ⟨.mix, mi - mi0, (slice ids mi0 mi).map fun r => u16 (r - segBase s)⟩

def rowselFromSortedIds (n : ℕ) (ids : List ℕ) : Option Rowsel :=
  (rayRowselNew n ids.length ids.length).bind fun block => some (block.fill (sortedIdsSeg n ids))

variable {n : ℕ} {ids : List ℕ}

lemma segBase_succ (s : ℕ) : segBase (s + 1) = segBase s + rayMorselElems := Nat.succ_mul _ _

lemma idsCursor_eq : idsCursor n ids s = (ids.takeWhile (· < min (segBase s) n)).length := by
  induction s with
  | zero => cases ids <;> simp [idsCursor, segBase]
  | succ s ih =>
    have hend : segEnd rayMorselElems n s = min (segBase (s + 1)) n := by rw [segBase_succ]; rfl
    have hsplit := takeWhile_append_of_imp (p := (decide <| · < min (segBase s) n))
      (q := (decide <| · < min (segBase (s + 1)) n))
      (by intro a ha; simp only [decide_eq_true_eq, segBase_succ] at ha ⊢; omega) ids
    rw [idsCursor, hend, ih, drop_takeWhile, hsplit, length_append]

lemma slice_idsCursor (hasc : ids.Pairwise (· < ·)) (hs : s < segs n) :
    slice ids (idsCursor n ids s) (idsCursor n ids (s + 1)) = ids.filter fun r =>
      segBase s ≤ r ∧ r < segBase s + segLen n s := by
  have hlen := segLen_pos hs
  have hbase : min (segBase s) n = segBase s := by
    simp only [segLen, segEnd, segBase] at hlen ⊢
    omega
  have hend : min (segBase (s + 1)) n = segBase s + segLen n s := by
    rw [segBase_succ]
    simp only [segLen, segEnd, segBase] at hlen ⊢
    omega
  have hsplit := takeWhile_append_of_imp (p := (decide <| · < segBase s))
    (q := (decide <| · < segBase s + segLen n s)) (by intro a ha; simp only [decide_eq_true_eq] at ha ⊢; omega) ids
  rw [idsCursor_eq, idsCursor_eq, hbase, hend, slice, drop_takeWhile, hsplit, length_append,
    Nat.add_sub_cancel_left, take_takeWhile, dropWhile_eq_filter hasc, takeWhile_eq_filter (hasc.filter _),
    List.filter_filter]
  apply filter_congr
  intro r _
  simp [Bool.and_comm]

lemma sortedIdsSeg_eq (hasc : ids.Pairwise (· < ·)) (hs : s < segs n) :
    sortedIdsSeg n ids s = (Kept.ofIds n ids hasc).out s := by
  have hslice := slice_idsCursor (n := n) hasc hs
  have hmono : idsCursor n ids s ≤ idsCursor n ids (s + 1) := by simp [idsCursor]
  have hbound : idsCursor n ids (s + 1) ≤ ids.length := by
    rw [idsCursor_eq]
    exact (takeWhile_sublist _).length_le
  have hpos : (Kept.ofIds n ids hasc).pos s
      = (slice ids (idsCursor n ids s) (idsCursor n ids (s + 1))).map (· - segBase s) := by
    rw [hslice]
    rfl
  have hlen : ((Kept.ofIds n ids hasc).pos s).length = idsCursor n ids (s + 1) - idsCursor n ids s := by
    rw [hpos, length_map, slice, length_take, length_drop]
    omega
  have hwritten : (slice ids (idsCursor n ids s) (idsCursor n ids (s + 1))).map (fun r => u16 (r - segBase s))
      = (Kept.ofIds n ids hasc).pos s := by
    rw [← map_u16_pos (Kept.ofIds n ids hasc) s, hpos, List.map_map]
    rfl
  rw [Kept.out_eq, hlen, sortedIdsSeg, hwritten]

theorem rows_rowselFromSortedIds (hn : n < 2 ^ 32) (hasc : ids.Pairwise (· < ·)) (hlt : ∀ r ∈ ids, r < n)
    {sel : Rowsel} (h : rowselFromSortedIds n ids = some sel) : rows n (some sel) = ids := by
  have htot := Kept.ofIds_total hasc hlt
  rw [rowselFromSortedIds, ← htot] at h
  obtain ⟨pad, rfl⟩ := fill_eq_padded hn (Kept.ofIds n ids hasc) _ le_rfl (fun s hs => sortedIdsSeg_eq hasc hs) h
  rw [rows, Kept.toIndices_padded _ hn, Kept.ofIds_rowsOf hasc hlt]

lemma rowselFromSortedIds_isSome (hn : n < 2 ^ 32) (hasc : ids.Pairwise (· < ·)) (hlt : ∀ r ∈ ids, r < n) :
    ∃ sel, rowselFromSortedIds n ids = some sel := by
  have hle := (Kept.ofIds n ids hasc).total_le
  rw [Kept.ofIds_total hasc hlt] at hle
  rw [rowselFromSortedIds, rayRowselNew_ok hn hle le_rfl, bind_some]
  exact ⟨_, rfl⟩

end

section

variable {n : ℕ}

def overlap (n lo hi s : ℕ) : List ℕ :=
  let a := if segBase s < lo then lo else segBase s
  let b := if hi < segEnd rayMorselElems n s then hi else segEnd rayMorselElems n s
  List.range' a (b - a)

def contiguousSeg (n lo hi s : ℕ) : SegOut :=
  let pass := (overlap n lo hi s).length
  if pass = 0 then ⟨.none, 0, []⟩
  else if pass = segLen n s then ⟨.all, 0, []⟩
  else ⟨.mix, pass, (overlap n lo hi s).map fun r => u16 (r - segBase s)⟩

def rowselFromContiguousSpan (n lo hi : ℕ) : Option Rowsel :=
  if hi < lo ∨ n < hi then none
  else
    let nSegs := u32 (segCount rayMorselElems n)
    let idxCount := (tally n nSegs fun s => (overlap n lo hi s).length).2
    (rayRowselNew n (hi - lo) idxCount).bind fun block => some (block.fill (contiguousSeg n lo hi))

lemma mem_overlap {lo hi s r : ℕ} : r ∈ overlap n lo hi s ↔ (lo ≤ r ∧ r < hi) ∧ segBase s ≤ r ∧
    r < segBase s + segLen n s := by
  simp only [overlap, mem_range'_1, segLen]
  by_cases h1 : segBase s < lo <;> by_cases h2 :
    hi < segEnd rayMorselElems n s <;> simp only [h1, h2, if_true, if_false] <;> omega

lemma overlap_ascending (n lo hi s : ℕ) : (overlap n lo hi s).Pairwise (· < ·) := pairwise_lt_range'

lemma filter_range'_overlap {lo hi s : ℕ} :
    (List.range' lo (hi - lo)).filter (fun r => segBase s ≤ r ∧ r < segBase s + segLen n s) =
      overlap n lo hi s := by
  apply List.Pairwise.eq_of_mem_iff (List.Pairwise.filter _ pairwise_lt_range') (overlap_ascending n lo hi s)
  intro r
  simp only [mem_filter, mem_range'_1, decide_eq_true_eq, mem_overlap]
  omega

lemma ofIds_range'_pos {lo hi s : ℕ} : (Kept.ofIds n (List.range' lo (hi - lo)) List.pairwise_lt_range').pos s
      = (overlap n lo hi s).map fun r => u16 (r - segBase s) := by
  rw [← map_u16_pos (Kept.ofIds n _ pairwise_lt_range') s, Kept.ofIds]
  simp only [filter_range'_overlap, List.map_map]
  rfl

lemma contiguousSeg_eq {lo hi s : ℕ} :
    contiguousSeg n lo hi s = (Kept.ofIds n (List.range' lo (hi - lo)) List.pairwise_lt_range').out s := by
  have hlen : ((Kept.ofIds n (range' lo (hi - lo)) pairwise_lt_range').pos s).length
      = (overlap n lo hi s).length := by
    rw [ofIds_range'_pos, length_map]
  rw [Kept.out_eq, hlen, contiguousSeg, ofIds_range'_pos]

theorem rows_rowselFromContiguousSpan (hn : n < 2 ^ 32) {lo hi : ℕ} {sel : Rowsel}
    (h : rowselFromContiguousSpan n lo hi = some sel) : hi ≤ n ∧ rows n (some sel) = List.range' lo (hi - lo) := by
  simp only [rowselFromContiguousSpan] at h
  split_ifs at h with hguard
  have hlt : ∀ r ∈ range' lo (hi - lo), r < n := by
    intro r hr
    rw [mem_range'_1] at hr
    omega
  set f := Kept.ofIds n (range' lo (hi - lo)) pairwise_lt_range' with hf
  have htot : f.total = hi - lo := by rw [Kept.ofIds_total _ hlt, length_range']
  have htally := f.tally_kept (fun s => (overlap n lo hi s).length)
    (fun s _ => by rw [hf, ofIds_range'_pos, length_map])
  rw [show u32 (segCount rayMorselElems n) = segs n from u32_of_lt (segs_lt hn), htally, ← htot] at h
  obtain ⟨pad, rfl⟩ := fill_eq_padded hn f _ f.mixed_total_le (fun _ _ => contiguousSeg_eq) h
  rw [rows, Kept.toIndices_padded _ hn, Kept.ofIds_rowsOf _ hlt]
  exact ⟨by omega, rfl⟩

structure Span where
  start : ℕ
  len : ℕ
  deriving DecidableEq, Repr

def Span.rows (sp : Span) : List ℕ := List.range' sp.start sp.len

def Span.part (n : ℕ) (sp : Span) (s : ℕ) : List ℕ := overlap n sp.start (sp.start + sp.len) s

def Span.segments (sp : Span) : List ℕ :=
  List.range' (sp.start / rayMorselElems)
    ((sp.start + sp.len - 1) / rayMorselElems + 1 - sp.start / rayMorselElems)

def spanParts (n : ℕ) (spans : List Span) : List (ℕ × List ℕ) :=
  spans.flatMap fun sp => sp.segments.map fun s => (s, sp.part n s)

def spansOk (n : ℕ) : ℕ → List Span → Bool
  | _, [] => true
  | prevEnd, sp :: spans =>
    if sp.start < prevEnd ∨ sp.len = 0 ∨ n < sp.start + sp.len then false else spansOk n (sp.start + sp.len) spans

def countPart (pop : List ℕ) (p : ℕ × List ℕ) : List ℕ := pop.modify p.1 (· + p.2.length)

def writePart (block : Rowsel) (st : List ℕ × List ℕ) (p : ℕ × List ℕ) : List ℕ × List ℕ :=
  if block.flag p.1 ≠ .mix then st
  else
    (writeAt st.1 (block.offset p.1 + st.2.getD p.1 0) (p.2.map fun r => u16 (r - segBase p.1)), countPart st.2 p)

def rowselFromSortedSpans (n : ℕ) (spans : List Span) (total : ℕ) : Option Rowsel :=
  if n < total then none
  else if spans = [] then rowselFromSortedIds n []
  else if !spansOk n 0 spans then none
  else if (spans.map Span.len).sum ≠ total then none
  else
    let nSegs := u32 (segCount rayMorselElems n)
    let parts := spanParts n spans
    let pop := parts.foldl countPart (List.replicate nSegs 0)
    (rayRowselNew n total (tally n nSegs fun s => pop.getD s 0).2).bind fun fresh =>
      let block := fresh.fill (fromPredSeg n pop)
      some { block with idx := (parts.foldl (writePart block) (block.idx, List.replicate nSegs 0)).1 }

variable {spans : List Span} {prevEnd : ℕ}

structure SpansOk (n prevEnd : ℕ) (spans : List Span) : Prop where
  from_start : ∀ sp ∈ spans, prevEnd ≤ sp.start
  nonempty : ∀ sp ∈ spans, 0 < sp.len
  inside : ∀ sp ∈ spans, sp.start + sp.len ≤ n
  disjoint : spans.Pairwise fun a b => a.start + a.len ≤ b.start

lemma spansOk_spec (h : spansOk n prevEnd spans = true) : SpansOk n prevEnd spans := by
  induction spans generalizing prevEnd with
  | nil => constructor <;> simp
  | cons sp spans ih =>
    simp only [spansOk] at h
    split_ifs at h with hbad
    obtain ⟨h1, h2, h3, h4⟩ := ih h
    refine ⟨?_, ?_, ?_, pairwise_cons.mpr ⟨h1, h4⟩⟩
    · intro x hx
      rcases mem_cons.mp hx with rfl | hx
      · omega
      · have := h1 x hx
        omega
    · intro x hx
      rcases mem_cons.mp hx with rfl | hx
      · omega
      · exact h2 x hx
    · intro x hx
      rcases mem_cons.mp hx with rfl | hx
      · omega
      · exact h3 x hx

lemma SpansOk.check (h : SpansOk n prevEnd spans) : spansOk n prevEnd spans = true := by
  induction spans generalizing prevEnd with
  | nil => rfl
  | cons sp spans ih =>
    obtain ⟨h1, h2, h3, h4⟩ := h
    have hstart := h1 sp mem_cons_self
    have hlen := h2 sp mem_cons_self
    have hend := h3 sp mem_cons_self
    rw [spansOk, if_neg (by omega)]
    exact ih ⟨fun x hx => rel_of_pairwise_cons h4 hx, fun x hx => h2 x (mem_cons_of_mem _ hx),
      fun x hx => h3 x (mem_cons_of_mem _ hx), h4.of_cons⟩

lemma SpansOk.sublist {spans' : List Span} (h : SpansOk n prevEnd spans) (hs : spans'.Sublist spans) :
    SpansOk n prevEnd spans' where
  from_start sp hsp := h.from_start sp (hs.subset hsp)
  nonempty sp hsp := h.nonempty sp (hs.subset hsp)
  inside sp hsp := h.inside sp (hs.subset hsp)
  disjoint := h.disjoint.sublist hs

def spanRows (spans : List Span) : List ℕ := spans.flatMap Span.rows

lemma spanRows_ascending (h : SpansOk n prevEnd spans) : (spanRows spans).Pairwise (· < ·) := by
  apply pairwise_flatMap.mpr
  refine ⟨fun sp _ => pairwise_lt_range', h.disjoint.imp ?_⟩
  intro a b hab x hx y hy
  rw [Span.rows, mem_range'_1] at hx hy
  omega

lemma spanRows_lt (h : SpansOk n prevEnd spans) : ∀ r ∈ spanRows spans, r < n := by
  intro r hr
  obtain ⟨sp, hsp, hr⟩ := mem_flatMap.mp hr
  have := h.inside sp hsp
  rw [Span.rows, mem_range'_1] at hr
  omega

lemma length_spanRows (spans : List Span) : (spanRows spans).length = (spans.map Span.len).sum := by
  simp only [spanRows, length_flatMap, Span.rows, length_range']

lemma keyed_segments (sp : Span) (s : ℕ) : keyed (sp.segments.map fun t => (t, sp.part n t)) s = sp.part n s := by
  have hfilter : (sp.segments.map fun t => (t, sp.part n t)).filter (·.1 = s)
      = if s ∈ sp.segments then [(s, sp.part n s)] else [] := by
    rw [List.filter_map]
    have hone : sp.segments.filter (· = s) = if s ∈ sp.segments then [s] else [] := by
      apply List.Pairwise.eq_of_mem_iff (List.Pairwise.filter _ pairwise_lt_range')
      · split_ifs <;> simp
      · intro t
        split_ifs with hs
        · simp only [mem_filter, decide_eq_true_eq, mem_singleton]
          exact ⟨fun h => h.2, fun h => ⟨h ▸ hs, h⟩⟩
        · simp only [mem_filter, decide_eq_true_eq, not_mem_nil, iff_false]
          rintro ⟨ht, rfl⟩
          exact hs ht
    have hcomp : ((fun q : ℕ × List ℕ => decide (q.1 = s)) ∘ fun t => (t, sp.part n t)) = fun t =>
      decide (t = s) := rfl
    rw [hcomp, hone]
    split_ifs <;> rfl
  rw [keyed, hfilter]
  split_ifs with hs
  · simp
  · apply Eq.symm
    apply eq_nil_iff_forall_not_mem.mpr
    intro r hr
    apply hs
    rw [Span.part, mem_overlap] at hr
    have hle := segLen_le n s
    simp only [segBase, rayMorselElems] at hr hle
    simp only [Span.segments, mem_range'_1, rayMorselElems]
    omega

lemma keyed_spanParts (n : ℕ) (spans : List Span) (s : ℕ) :
    keyed (spanParts n spans) s = (spanRows spans).filter fun r => segBase s ≤ r ∧ r < segBase s + segLen n s := by
  rw [spanRows, filter_flatMap]
  induction spans with
  | nil => rfl
  | cons sp spans ih =>
    have hpart : sp.part n s = sp.rows.filter fun r => segBase s ≤ r ∧ r < segBase s + segLen n s := by
      have := @filter_range'_overlap n sp.start (sp.start + sp.len) s
      rw [Nat.add_sub_cancel_left] at this
      exact this.symm
    rw [flatMap_cons, ← ih, ← hpart, ← keyed_segments sp s, ← keyed_append]
    rfl

lemma spanParts_sorted (h : SpansOk n prevEnd spans) : (spanParts n spans).Pairwise fun p q => p.1 ≤ q.1 := by
  apply pairwise_flatMap.mpr
  constructor
  · intro sp _
    apply pairwise_map.mpr
    exact List.Pairwise.imp (fun hab => Nat.le_of_lt hab) pairwise_lt_range'
  · refine List.Pairwise.imp_of_mem ?_ h.disjoint
    intro a b ha _ hab x hx y hy
    obtain ⟨s, hs, rfl⟩ := mem_map.mp hx
    obtain ⟨t, ht, rfl⟩ := mem_map.mp hy
    have hlen := h.nonempty a ha
    simp only [Span.segments, mem_range'_1, rayMorselElems] at hs ht
    dsimp only
    omega

lemma spanParts_lt (h : SpansOk n prevEnd spans) : ∀ p ∈ spanParts n spans, p.1 < segs n := by
  intro p hp
  obtain ⟨sp, hsp, hp⟩ := mem_flatMap.mp hp
  obtain ⟨s, hs, rfl⟩ := mem_map.mp hp
  have h1 := h.inside sp hsp
  have h2 := h.nonempty sp hsp
  have hle := le_segCount_mul n (show 0 < rayMorselElems by decide)
  simp only [Span.segments, mem_range'_1, rayMorselElems] at hs hle
  simp only [segs, rayMorselElems]
  omega

lemma countParts_getD {k : ℕ} (Q : List (ℕ × List ℕ)) (hs : s < k) :
    (Q.foldl countPart (List.replicate k 0)).getD s 0 = (keyed Q s).length := by
  have hrun : ∀ pop : List ℕ, pop.length = k → (Q.foldl countPart pop).getD s 0 =
      pop.getD s 0 + (keyed Q s).length := by
    induction Q with
    | nil => intro pop _; simp [keyed]
    | cons q Q ih =>
      intro pop hlen
      rw [foldl_cons, ih _ (by simpa [countPart] using hlen), countPart, getD_modify_add _ _ _ _ (by omega),
        show q :: Q = [q] ++ Q from rfl, keyed_append, keyed_singleton, length_append]
      split_ifs
      · omega
      · simp
  rw [hrun _ (by simp)]
  simp [hs]

lemma writeParts_eq (h : SpansOk n prevEnd spans) (junk : List ℕ)
    (hjunk : junk.length = sumTo (fun s => ((Kept.ofIds n (spanRows spans) (spanRows_ascending h)).mixed s).length)
      (segs n)) :
    ((spanParts n spans).foldl (writePart
      { (Kept.ofIds n (spanRows spans) (spanRows_ascending h)).layout with idx := junk })
        (junk, List.replicate (segs n) 0)).1
      = (Kept.ofIds n (spanRows spans) (spanRows_ascending h)).layout.idx := by
  set f := Kept.ofIds n (spanRows spans) (spanRows_ascending h) with hf
  -- the pieces of the mixed segments, as positions
  set Q := ((spanParts n spans).filter fun p => f.flag p.1 = .mix).map
    fun p => (p.1, p.2.map fun r => u16 (r - segBase p.1)) with hQ
  have hsorted : Q.Pairwise fun p q => p.1 ≤ q.1 := by
    rw [hQ, pairwise_map]
    exact (spanParts_sorted h).filter _
  have hlt : ∀ q ∈ Q, q.1 < segs n := by
    intro q hq
    obtain ⟨p, hp, rfl⟩ := List.mem_map.mp hq
    exact spanParts_lt h p (mem_filter.mp hp).1
  have hkeyed : ∀ s, keyed Q s = f.mixed s := by
    intro s
    have hall : keyed Q s =
        if f.flag s = .mix then (keyed (spanParts n spans) s).map fun r => u16 (r - segBase s) else [] := by
      rw [hQ]
      induction spanParts n spans with
      | nil => simp [keyed]
      | cons p P ih =>
        rw [filter_cons]
        by_cases hps : p.1 = s
        · subst hps
          by_cases hmix : f.flag p.1 = .mix
          · simp only [hmix, if_true, decide_true] at ih ⊢
            rw [map_cons, show ∀ q (P : List (ℕ × List ℕ)), q :: P = [q] ++ P from fun _ _ =>
              rfl, keyed_append, ih,
              keyed_singleton, if_pos rfl, show p :: P = [p] ++ P from rfl, keyed_append,
                keyed_singleton, if_pos rfl,
              map_append]
          · simp only [hmix, if_false, decide_false] at ih ⊢
            exact ih
        · have hskip : keyed (p :: P) s = keyed P s := by
            rw [show p :: P = [p] ++ P from rfl, keyed_append, keyed_singleton, if_neg hps, nil_append]
          rw [hskip, ← ih]
          split_ifs
          · rw [map_cons, show ∀ q (P : List (ℕ × List ℕ)), q :: P = [q] ++ P from fun _ _ => rfl, keyed_append,
              keyed_singleton, if_neg hps, nil_append]
          · rfl
    rw [hall, keyed_spanParts, Kept.mixed]
    have hpos : f.pos s = ((spanRows spans).filter fun r => segBase s ≤ r ∧ r < segBase s + segLen n s).map
        fun r => u16 (r - segBase s) := by
      rw [← map_u16_pos f s, hf, Kept.ofIds, List.map_map]
      rfl
    rw [hpos]
  have hfold : (spanParts n spans).foldl (writePart { f.layout with idx := junk })
    (junk, List.replicate (segs n) 0)
      = Q.foldl (appendPart fun s => sumTo (fun s => (f.mixed s).length) s) (junk, List.replicate (segs n) 0) := by
    rw [hQ, foldl_map, foldl_filter]
    apply foldl_ext
    intro st p hp
    have hps := spanParts_lt h p hp
    have hflag : ({ f.layout with idx := junk } : Rowsel).flag p.1 = f.flag p.1 := f.layout_flag hps
    have hoff : ({ f.layout with idx := junk } : Rowsel).offset p.1 = sumTo (fun s => (f.mixed s).length) p.1 :=
      f.layout_offset hps.le
    simp only [writePart, hflag, hoff, appendPart, countPart, length_map, decide_eq_true_eq, ite_not]
  rw [hfold, foldl_appendPart hsorted hlt (fun s _ => by simp only [hkeyed])]
  have hflat : Q.flatMap Prod.snd = f.layout.idx := by
    rw [← flatMap_keyed hsorted hlt]
    exact congrArg (fun g => List.flatMap g (List.range (segs n))) (funext hkeyed)
  rw [hflat, drop_eq_nil_of_le, append_nil]
  rw [hjunk]
  exact (length_flatMap_range f.mixed (segs n)).ge

theorem rows_rowselFromSortedSpans (hn : n < 2 ^ 32) {total : ℕ} {sel : Rowsel}
    (h : rowselFromSortedSpans n spans total = some sel) : rows n (some sel) = spanRows spans := by
  simp only [rowselFromSortedSpans] at h
  split_ifs at h with h1 h2 h3 h4
  · subst h2
    exact rows_rowselFromSortedIds hn List.Pairwise.nil (by simp) h
  · have hok := spansOk_spec (by simpa using h3)
    set f := Kept.ofIds n (spanRows spans) (spanRows_ascending hok) with hf
    have htot : f.total = total := by
      rw [Kept.ofIds_total _ (spanRows_lt hok), length_spanRows]
      exact not_not.mp h4
    have hu : u32 (segCount rayMorselElems n) = segs n := u32_of_lt (segs_lt hn)
    have hpc : ∀ s < segs n, ((spanParts n spans).foldl countPart (replicate (segs n) 0)).getD s 0
        = (f.pos s).length := by
      intro s hs
      rw [countParts_getD _ hs, keyed_spanParts, hf, Kept.ofIds, length_map]
    rw [hu, f.tally_kept _ hpc, ← htot, rayRowselNew_ok hn f.total_le f.mixed_total_le, bind_some,
      f.fill_fromPredSeg hn hpc, writeParts_eq hok _ (by rw [length_replicate])] at h
    rw [← some.inj h]
    change rows n (some f.layout) = _
    rw [rows, f.toIndices_layout hn, Kept.ofIds_rowsOf _ (spanRows_lt hok)]

lemma rowselFromSortedSpans_isSome (hn : n < 2 ^ 32) (h : SpansOk n 0 spans) :
    ∃ sel, rowselFromSortedSpans n spans (spans.map Span.len).sum = some sel := by
  have hasc := spanRows_ascending h
  have htot := Kept.ofIds_total hasc (spanRows_lt h)
  have hle := (Kept.ofIds n (spanRows spans) hasc).total_le
  rw [htot, length_spanRows] at hle
  simp only [rowselFromSortedSpans]
  rw [if_neg (Nat.not_lt.mpr hle)]
  by_cases hnil : spans = []
  · rw [if_pos hnil]
    exact rowselFromSortedIds_isSome hn List.Pairwise.nil (by simp)
  · have hpc : ∀ s < segs n, ((spanParts n spans).foldl countPart (replicate (segs n) 0)).getD s 0
        = ((Kept.ofIds n (spanRows spans) hasc).pos s).length := by
      intro s hs
      rw [countParts_getD _ hs, keyed_spanParts, Kept.ofIds, length_map]
    have htally := (Kept.ofIds n (spanRows spans) hasc).tally_kept _ hpc
    rw [if_neg hnil, h.check, if_neg (by simp), if_neg (by simp),
      show u32 (segCount rayMorselElems n) = segs n from u32_of_lt (segs_lt hn), htally, ← length_spanRows, ← htot,
      rayRowselNew_ok hn (Kept.total_le _) (Kept.mixed_total_le _), bind_some]
    exact ⟨_, rfl⟩

end

section

def survivorStep (bits : List UInt8) (st : ℕ × List ℕ) (r : ℕ) : ℕ × List ℕ :=
  (st.1 + 1, if bits.getD st.1 0 != 0 then st.2 ++ [r] else st.2)

def survivors (e : Rowsel) (bits : List UInt8) : List ℕ :=
  ((List.range e.nSegs).foldl (fun st seg =>
    if e.flag seg = .none then st else (e.segIds seg).foldl (survivorStep bits) st) (0, [])).2

/-- `pred` is the predicate by row, and `dense` whether it could be evaluated on the survivors alone. -/
def opFilter (n : ℕ) (pred : ℕ → UInt8) (dense : Bool) (sel : Option Rowsel) : Option Rowsel :=
  match sel with
  | none => rayRowselFromPred ((List.range n).map pred)
  | some e =>
    if dense ∧ 0 < n ∧ e.totalPass * 4 ≤ n then
      (rowselFromSortedIds n (survivors e ((rayRowselToIndices e).map pred))).or
        (rayRowselRefine sel ((List.range n).map pred))
    else rayRowselRefine sel ((List.range n).map pred)

variable {n : ℕ} {sel : Option Rowsel} (f : Kept n) (pred : ℕ → UInt8)

lemma foldl_survivorStep (pre rest ids : List ℕ) :
    (rest.foldl (survivorStep ((pre ++ rest).map pred)) (pre.length, ids)).2 =
      ids ++ rest.filter (pred · != 0) := by
  induction rest generalizing pre ids with
  | nil => simp
  | cons r rest ih =>
    have hget : ((pre ++ r :: rest).map pred).getD pre.length 0 = pred r := by simp
    rw [foldl_cons, survivorStep, hget, filter_cons]
    have hrest := ih (pre ++ [r]) (if pred r != 0 then ids ++ [r] else ids)
    rw [append_assoc, singleton_append, length_append, length_singleton] at hrest
    rw [hrest]
    split_ifs <;> simp

lemma survivors_padded (hn : n < 2 ^ 32) (pad : List ℕ) :
    survivors (f.padded pad) ((rayRowselToIndices (f.padded pad)).map pred) = f.rowsOf.filter (pred · != 0) := by
  have hloop := foldl_survivorStep pred [] f.rowsOf []
  rw [nil_append, length_nil, Kept.rowsOf, foldl_flatMap, nil_append] at hloop
  rw [survivors, f.toIndices_padded hn pad, Kept.rowsOf, ← hloop]
  refine congrArg Prod.snd (foldl_ext _ _ _ fun st s hs => ?_)
  have hlt := mem_range.mp hs
  rw [f.padded_segIds pad hlt, f.layout_segIds hlt]
  split_ifs with hnone
  · have hpos := f.eq_nil_of_none ((f.layout_flag hlt).symm.trans hnone)
    rw [hpos]
    rfl
  · rfl

lemma refine_padded (hn : n < 2 ^ 32) (pad : List ℕ) {p : List UInt8} (hp : p.length = n) :
    rayRowselRefine (some (f.padded pad)) p =
    if (f.refine p).total = n then none else some (f.refine p).layout := by
  have hcount : (List.range (segs n)).map (refineCount (f.padded pad) p) =
      (List.range (segs n)).map (refineCount f.layout p) :=
    map_congr_left fun s hs => by
      rw [refineCount, f.padded_segIdx pad (mem_range.mp hs)]
      rfl
  have hseg : ∀ s < segs n, refineSeg (f.padded pad) p ((List.range (segs n)).map (refineCount f.layout p)) s =
      (f.refine p).out s := by
    intro s hs
    rw [← f.refineSeg_layout p hs, refineSeg, refineRows, f.padded_segIdx pad hs]
    rfl
  have htally := (f.refine p).tally_kept
      (fun s => ((List.range (segs n)).map (refineCount f.layout p)).getD s 0) fun s hs => by
    rw [getD_map_range _ _ hs, f.refineCount_layout p hs]
  have hfill := fill_eq_layout hn (f.refine p) _ rfl hseg
  have hnrows : (f.padded pad).nrows = n := rfl
  have hnSegs : (f.padded pad).nSegs = segs n := rfl
  simp only [rayRowselRefine, hnrows, hnSegs, hcount, htally]
  rw [if_neg (not_not_intro hp)]
  split_ifs
  · rfl
  · exact hfill

def Padded (n : ℕ) (sel : Option Rowsel) : Prop :=
  sel = none ∨ ∃ (f : Kept n) (pad : List ℕ), sel = some (f.padded pad)

lemma padded_ite {c : Prop} [Decidable c] (f : Kept n) : Padded n (if c then none else some f.layout) := by
  split
  · exact .inl rfl
  · refine .inr ⟨f, [], ?_⟩
    rw [Kept.padded, append_nil]

lemma passes_map (n : ℕ) {l : List ℕ} (hl : ∀ r ∈ l, r < n) :
    l.filter (passes ((List.range n).map pred)) = l.filter (pred · != 0) :=
  filter_congr fun r hr => by rw [passes, getD_map_range _ _ (hl r hr)]

lemma opFilter_step (hn : n < 2 ^ 32) (dense : Bool) (h : Padded n sel) :
    Padded n (opFilter n pred dense sel) ∧ rows n (opFilter n pred dense sel) =
    (rows n sel).filter (pred · != 0) := by
  have hlen : ((List.range n).map pred).length = n := by rw [length_map, length_range]
  obtain rfl | ⟨f, pad, rfl⟩ := h
  · refine ⟨?_, (rows_fromPred hn hlen).trans (passes_map pred n fun r => mem_range.mp)⟩
    rw [opFilter, rayRowselFromPred_eq hn _ hlen]
    exact padded_ite _
  have hlt : ∀ r ∈ f.rowsOf, r < n := fun r hr => by
    obtain ⟨s, -, hs⟩ := mem_flatMap.mp hr
    obtain ⟨i, hi, rfl⟩ := mem_map.mp hs
    have := f.inside s i hi
    simp only [segLen, segEnd] at this
    omega
  have hfull : Padded n (rayRowselRefine (some (f.padded pad)) ((List.range n).map pred)) ∧
      rows n (rayRowselRefine (some (f.padded pad)) ((List.range n).map pred)) =
        f.rowsOf.filter (pred · != 0) := by
    rw [refine_padded f hn pad hlen, Kept.rows_ite _ hn id, Kept.refine_rowsOf, passes_map pred n hlt]
    exact ⟨padded_ite _, rfl⟩
  have hrows : rows n (some (f.padded pad)) = f.rowsOf := f.toIndices_padded hn pad
  rw [hrows, opFilter]
  split_ifs
  · have hasc := f.rowsOf_ascending.filter (pred · != 0)
    have hin : ∀ r ∈ f.rowsOf.filter (pred · != 0), r < n := fun r hr => hlt r (mem_filter.mp hr).1
    rw [survivors_padded f pred hn pad]
    obtain ⟨e, he⟩ := rowselFromSortedIds_isSome hn hasc hin
    have hkept := he
    rw [rowselFromSortedIds, ← Kept.ofIds_total hasc hin] at hkept
    obtain ⟨pad', rfl⟩ := fill_eq_padded hn _ _ le_rfl (fun s hs => sortedIdsSeg_eq hasc hs) hkept
    rw [he]
    exact ⟨.inr ⟨_, pad', rfl⟩, rows_rowselFromSortedIds hn hasc hin he⟩
  · exact hfull

/-- A chain of filters keeps the rows that pass all of them, whichever of them are evaluated on the survivors of
the earlier ones alone. -/
theorem opFilter_chain (hn : n < 2 ^ 32) (filters : List ((ℕ → UInt8) × Bool)) :
    rows n (filters.foldl (fun sel p => opFilter n p.1 p.2 sel) none) = (List.range n).filter fun r =>
      filters.all fun p => p.1 r != 0 := by
  have hrun : ∀ sel, Padded n sel → rows n (filters.foldl (fun sel p => opFilter n p.1 p.2 sel) sel) =
      (rows n sel).filter fun r => filters.all fun p => p.1 r != 0 := by
    induction filters with
    | nil =>
      intro sel _
      simp
    | cons p filters ih =>
      intro sel hsel
      obtain ⟨hnext, hrows⟩ := opFilter_step p.1 hn p.2 hsel
      rw [foldl_cons, ih _ hnext, hrows, List.filter_filter]
      exact filter_congr fun r _ => by rw [all_cons, Bool.and_comm]
  exact hrun none (.inl rfl)

theorem opFilter_chain_two : rows 3
    (opFilter 3 (fun r => if r = 0 then 1 else 0) true (opFilter 3 (fun r => if r = 2 then 0 else 1) true none)) =
    [0] := opFilter_chain (by decide)
    [(fun r => if r = 2 then 0 else 1, true), (fun r => if r = 0 then 1 else 0, true)]

end

end Rayforce.Selection
