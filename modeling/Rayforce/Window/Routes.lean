import Rayforce.Window.Segments

namespace Rayforce.Window

open Library.Words Library.Sequences List Option
open Rayforce.Dict (KeyType Payload sentinelIsNull)

variable {γ : Type}

namespace Column

variable {c d : Column} {off n a b : ℕ}
variable {α : Type}

lemma eq_of_cells (ht : c.type = d.type) (hc : c.cells = d.cells) : c = d := by
  cases c
  cases d
  cases ht
  cases hc
  rfl

def slice (off n : ℕ) (c : Column) : Column :=
  ⟨c.type, (c.cells.drop off).take n, fun v hv => c.typed v (List.mem_of_mem_drop (List.mem_of_mem_take hv))⟩

lemma shifted_slice (h : off + n ≤ c.cells.length) : Shifted off n c (c.slice off n) := by
  have hlen : (c.slice off n).cells.length = n := by
    rw [slice, length_take, length_drop]
    omega
  refine ⟨rfl, hlen, fun r hr => ?_⟩
  rw [Column.get, Column.get, getD_eq_getElem _ _ (by omega), getD_eq_getElem _ _ (by omega)]
  simp only [slice, getElem_take, getElem_drop]

lemma slice_all : c.slice 0 c.cells.length = c := eq_of_cells rfl c.cells.take_length

lemma take_drop_append (l : List α) (a b : ℕ) :
    (l.drop 0).take a ++ (l.drop a).take b = (l.drop 0).take (a + b) := by
  rw [drop_zero, take_add]

lemma concat_slice (c : Column) (a b : ℕ) : (c.slice 0 a).concat (c.slice a b) = .ok (c.slice 0 (a + b)) := by
  have htype : (c.slice 0 a).type = (c.slice a b).type := rfl
  rw [Column.concat, dif_pos htype]
  exact congrArg Except.ok (eq_of_cells rfl (take_drop_append c.cells a b))

end Column

namespace AnyCol

def slice (off n : ℕ) : AnyCol γ → AnyCol γ
  | .vec c => .vec (c.slice off n)
  | .result cells => .result ((cells.drop off).take n)
  | col => col

lemma concat_slice {col : AnyCol γ} (h : col.isParted = false) (a b : ℕ) :
    (col.slice 0 a).concat (col.slice a b) = .ok (col.slice 0 (a + b)) := by
  cases col with
  | vec c =>
    rw [slice, slice, slice, AnyCol.concat, Column.concat_slice]
    rfl
  | result cells =>
    rw [slice, slice, slice, AnyCol.concat, Column.take_drop_append]
  | mapcommon keys => exact absurd h.symm Bool.false_ne_true
  | parted segs => exact absurd h.symm Bool.false_ne_true

lemma slice_all {col : AnyCol γ} (h : col.isParted = false) : col.slice 0 col.len = col := by
  cases col with
  | vec c => exact congrArg AnyCol.vec Column.slice_all
  | result cells => exact congrArg AnyCol.result (by rw [AnyCol.len, drop_zero, take_length])
  | mapcommon keys => exact absurd h.symm Bool.false_ne_true
  | parted segs => exact absurd h.symm Bool.false_ne_true

lemma slice_len {col : AnyCol γ} {off n : ℕ} (h : col.isParted = false) (hoff : off + n ≤ col.len) :
    (col.slice off n).len = n := by
  cases col with
  | vec c => exact (Column.shifted_slice hoff).length
  | result cells =>
    have hlen : cells.length = (AnyCol.result cells).len := rfl
    rw [slice, len, length_take, length_drop]
    omega
  | mapcommon keys => exact absurd h.symm Bool.false_ne_true
  | parted segs => exact absurd h.symm Bool.false_ne_true

lemma slice_isParted (col : AnyCol γ) (off n : ℕ) : (col.slice off n).isParted = col.isParted := by
  cases col <;> rfl

end AnyCol

def sliceTable (off n : ℕ) (tbl : Table γ) : Table γ := tbl.map fun c => (c.1, c.2.slice off n)

structure PlainTable (tbl : Table γ) (N : ℕ) : Prop where
  plain : ∀ c ∈ tbl, c.2.isParted = false
  length : ∀ c ∈ tbl, c.2.len = N
  columns : tbl ≠ []

variable {tbl T R : Table γ} {N : ℕ}

lemma PlainTable.slice_all (h : PlainTable T N) : sliceTable 0 N T = T := by
  have hcols : ∀ c ∈ T, (c.1, c.2.slice 0 N) = c := by
    intro c hc
    have hall := AnyCol.slice_all (h.plain c hc)
    rw [h.length c hc] at hall
    rw [hall]
  exact (map_congr_left hcols).trans (map_id T)

lemma resultMerge_slice (h : ∀ c ∈ R, c.2.isParted = false) (a b : ℕ) :
    resultMerge (sliceTable 0 a R) (sliceTable a b R) = .ok (sliceTable 0 (a + b) R) := by
  have hcols : List.Forall₂ (fun c d => d.1 ∈ R ∧ (sliceTable a b R)[c.2]? = some (d.1.1, d.1.2.slice a b) ∧
      c.1 = (d.1.1, d.1.2.slice 0 a)) (sliceTable 0 a R).zipIdx R.zipIdx := by
    rw [sliceTable, sliceTable, zipIdx_map, forall₂_map_left_iff, forall₂_same]
    intro d hd
    have hget := mem_zipIdx_iff_getElem?.mp hd
    refine ⟨mem_of_getElem? hget, ?_, rfl⟩
    rw [getElem?_map]
    exact congrArg (Option.map fun c : Bytes × AnyCol γ => (c.1, c.2.slice a b)) hget
  have hmap : R.zipIdx.map (fun d => (d.1.1, d.1.2.slice 0 (a + b))) = sliceTable 0 (a + b) R := by
    have hfst := congrArg (List.map fun c : Bytes × AnyCol γ => (c.1, c.2.slice 0 (a + b))) (zipIdx_map_fst 0 R)
    rwa [List.map_map] at hfst
  rw [resultMerge, ← hmap]
  refine mapM_eq_ok_map (hcols.imp fun c d hd => ?_)
  obtain ⟨hmem, hpart, hcol⟩ := hd
  rw [hpart, elim_some, hcol]
  exact congrArg (Except.map (d.1.1, ·)) (AnyCol.concat_slice (h _ hmem) a b)

section

variable {sizes : List ℕ} {col whole : AnyCol γ} {C : Column} {s : ℕ}

def offset (sizes : List ℕ) (s : ℕ) : ℕ := (sizes.take s).sum

lemma offset_succ (hs : s < sizes.length) : offset sizes (s + 1) = offset sizes s + sizes.getD s 0 := by
  rw [offset, offset, take_add_one, sum_append, getD_eq_getElem _ _ hs, getElem?_eq_getElem hs,
    toList_some, sum_singleton]

lemma offset_length (sizes : List ℕ) : offset sizes sizes.length = sizes.sum := by rw [offset, take_length]

lemma offset_le (hs : s < sizes.length) : offset sizes s + sizes.getD s 0 ≤ sizes.sum := by
  rw [← offset_succ hs, ← offset_length]
  exact List.Sublist.sum_le_sum (take_sublist_take_left (Nat.succ_le_of_lt hs)) fun _ _ => Nat.zero_le _

inductive Joined (sizes : List ℕ) : AnyCol γ → AnyCol γ → Prop
  | mapcommon {keys C : Column} (ht : C.type = keys.type) (hlen : keys.cells.length = sizes.length)
    (hc : C.cells = (sizes.zipWith List.replicate keys.cells).flatten) : Joined sizes (.mapcommon keys) (.vec C)
  | parted {segs : List Column} {C : Column} (ht : ∀ c ∈ segs, c.type = C.type)
    (hlen : segs.map (·.cells.length) = sizes)
    (hc : C.cells = (segs.map Column.cells).flatten) : Joined sizes (.parted segs) (.vec C)

structure Concatenates (tbl T : Table γ) (sizes : List ℕ) : Prop where
  rows : (firstParted tbl).map (·.cells.length) = sizes
  columns : List.Forall₂ (fun c d => d.1 = c.1 ∧ Joined sizes c.2 d.2) tbl T

lemma drop_take_flatten (L : List (List α)) (hs : s < L.length) :
    (L.flatten.drop (offset (L.map List.length) s)).take ((L.map List.length).getD s 0) = L[s] := by
  have hget := drop_take_succ_flatten_eq_getElem L s hs
  have hsucc : ((L.map length).take (s + 1)).sum = offset (L.map length) s + (L.map length).getD s 0 :=
    offset_succ (by rwa [length_map])
  rw [hsucc, drop_take, ← offset, Nat.add_sub_cancel_left] at hget
  exact hget

lemma Joined.segment (h : Joined sizes col whole) (hs : s < sizes.length) :
    segmentCol (sizes.getD s 0) s col = .ok (whole.slice (offset sizes s) (sizes.getD s 0)) := by
  cases h with
  | @mapcommon keys C ht hlen hc =>
    have hs' : s < keys.cells.length := hlen ▸ hs
    have hlens : (sizes.zipWith List.replicate keys.cells).map List.length = sizes := by
      refine ext_getElem (by simp [hlen]) fun i _ _ => ?_
      rw [getElem_map, getElem_zipWith, length_replicate]
    have hcells := drop_take_flatten (sizes.zipWith List.replicate keys.cells) (s := s) (by simp [hs, hs'])
    rw [hlens, getElem_zipWith, ← hc] at hcells
    rw [segmentCol, dif_pos hs']
    refine congrArg (fun c => Except.ok (AnyCol.vec c)) (Column.eq_of_cells ht.symm (hcells.trans ?_).symm)
    rw [getD_eq_getElem _ _ hs]
    rfl
  | @parted segs C ht hlen hc =>
    have hs' : s < segs.length := by rwa [← hlen, length_map] at hs
    have hlens : (segs.map Column.cells).map List.length = sizes := by rw [List.map_map, ← hlen]; rfl
    have hcells := drop_take_flatten (segs.map Column.cells) (s := s) (by rwa [length_map])
    rw [hlens, getElem_map, ← hc] at hcells
    rw [segmentCol, getElem?_eq_getElem hs', elim_some]
    exact congrArg (fun c => Except.ok (AnyCol.vec c)) (Column.eq_of_cells (ht _ (getElem_mem hs')) hcells.symm)

lemma Joined.plain (h : Joined sizes col whole) : whole.isParted = false := by cases h <;> rfl

lemma Joined.len (h : Joined sizes col whole) : whole.len = sizes.sum := by
  cases h with
  | @mapcommon keys C ht hlen hc =>
    have hlens : (sizes.zipWith List.replicate keys.cells).map List.length = sizes := by
      refine ext_getElem (by simp [hlen]) fun i _ _ => ?_
      rw [getElem_map, getElem_zipWith, length_replicate]
    rw [AnyCol.len, hc, length_flatten, hlens]
  | @parted segs C ht hlen hc =>
    rw [AnyCol.len, hc, length_flatten, List.map_map, ← hlen]
    rfl

section

variable (h : Concatenates tbl T sizes)
include h

lemma Concatenates.segment (hs : s < sizes.length) :
    buildSegmentTable tbl s = .ok (sliceTable (offset sizes s) (sizes.getD s 0) T) := by
  have hrows : (firstParted tbl)[s]?.elim 0 (·.cells.length) = sizes.getD s 0 := by
    rw [← h.rows, getD_eq_getElem?_getD, getElem?_map]
    cases (firstParted tbl)[s]? <;> rfl
  rw [buildSegmentTable, hrows]
  refine mapM_eq_ok_map (h.columns.imp fun c d hd => ?_)
  rw [hd.2.segment hs, hd.1]
  rfl

lemma Concatenates.plain (hne : sizes ≠ []) : PlainTable T sizes.sum := by
  have hcol : ∀ d ∈ T, ∃ c, Joined sizes c d.2 := by
    intro d hd
    obtain ⟨i, hi, rfl⟩ := getElem_of_mem hd
    have hi' : i < tbl.length := h.columns.length_eq ▸ hi
    exact ⟨tbl[i].2, (forall₂_iff_get.mp h.columns).2 i hi' hi |>.2⟩
  refine ⟨fun d hd => ?_, fun d hd => ?_, fun hnil => hne ?_⟩
  · obtain ⟨c, hc⟩ := hcol d hd
    exact hc.plain
  · obtain ⟨c, hc⟩ := hcol d hd
    exact hc.len
  · have htbl : tbl = [] := forall₂_nil_right_iff.mp (hnil ▸ h.columns)
    rw [← h.rows, htbl]
    rfl

lemma foldlM_slices {f : Table γ → Except WinError (Table γ)} (hR : ∀ c ∈ R, c.2.isParted = false) {k : ℕ}
    (hk : k ≤ sizes.length)
    (hf : ∀ s < k, f (sliceTable (offset sizes s) (sizes.getD s 0) T) =
      .ok (sliceTable (offset sizes s) (sizes.getD s 0) R)) :
    (List.range k).foldlM (mergeStep f tbl) none =
      .ok (if k = 0 then none else some (sliceTable 0 (offset sizes k) R)) := by
  induction k with
  | zero => rfl
  | succ k ih =>
    have hk' : k < sizes.length := by omega
    rw [range_succ, foldlM_append, ih hk'.le fun s hs => hf s (by omega)]
    simp only [bind, Except.bind, pure, Except.pure, foldlM_cons, foldlM_nil, mergeStep, h.segment hk',
      hf k (Nat.lt_succ_self k)]
    cases k with
    | zero =>
      rw [if_pos rfl, elim_none, if_neg (Nat.succ_ne_zero 0), offset_succ (by omega)]
      rw [offset, take_zero, sum_nil, Nat.zero_add]
    | succ k =>
      rw [if_neg (Nat.succ_ne_zero k), elim_some, resultMerge_slice hR, ← offset_succ (by omega),
        if_neg (Nat.succ_ne_zero _)]
      rfl

lemma mergeSegments_ok {f : Table γ → Except WinError (Table γ)} (hne : sizes ≠ []) (hR : PlainTable R sizes.sum)
    (hf : ∀ s < sizes.length, f (sliceTable (offset sizes s) (sizes.getD s 0) T) =
      .ok (sliceTable (offset sizes s) (sizes.getD s 0) R)) :
    mergeSegments f tbl = .ok R := by
  have hlen : (firstParted tbl).length = sizes.length := by rw [← h.rows, length_map]
  have hpos : sizes.length ≠ 0 := fun hnil => hne (length_eq_zero_iff.mp hnil)
  rw [mergeSegments, hlen, foldlM_slices h hR.plain le_rfl hf, if_neg hpos, offset_length, hR.slice_all]
  rfl

lemma mergeSegments_congr {f f' : Table γ → Except WinError (Table γ)}
    (hf : ∀ s < sizes.length, f (sliceTable (offset sizes s) (sizes.getD s 0) T) =
      f' (sliceTable (offset sizes s) (sizes.getD s 0) T)) :
    mergeSegments f tbl = mergeSegments f' tbl := by
  have hlen : (firstParted tbl).length = sizes.length := by rw [← h.rows, length_map]
  have hfold : ∀ k ≤ sizes.length, (range k).foldlM (mergeStep f tbl) none =
      (range k).foldlM (mergeStep f' tbl) none := by
    intro k hk
    induction k with
    | zero => rfl
    | succ k ih =>
      have hstep : ∀ merged, mergeStep f tbl merged k = mergeStep f' tbl merged k := by
        intro merged
        rw [mergeStep, mergeStep, h.segment hk]
        simp only [bind, Except.bind, hf k hk]
      rw [range_succ, foldlM_append, foldlM_append, ih (by omega)]
      simp only [foldlM_cons, foldlM_nil, hstep]
  rw [mergeSegments, mergeSegments, hlen, hfold _ le_rfl]

lemma mergeSegments_error {f : Table γ → Except WinError (Table γ)} {e : WinError}
    (hR : ∀ c ∈ R, c.2.isParted = false) (hs : s < sizes.length)
    (hf : ∀ t < s, f (sliceTable (offset sizes t) (sizes.getD t 0) T) =
      .ok (sliceTable (offset sizes t) (sizes.getD t 0) R))
    (he : f (sliceTable (offset sizes s) (sizes.getD s 0) T) = .error e) : mergeSegments f tbl = .error e := by
  have hlen : (firstParted tbl).length = sizes.length := by rw [← h.rows, length_map]
  obtain ⟨rest, hrest⟩ := Nat.exists_eq_add_of_lt hs
  have hstep : ∀ merged, mergeStep f tbl merged s = .error e := by
    intro merged
    rw [mergeStep, h.segment hs]
    simp only [bind, Except.bind, he]
  have hrange : List.range (s + rest + 1) = List.range s ++ (s :: (List.range rest).map (s + 1 + ·)) := by
    rw [Nat.add_assoc, range_add, range_succ_eq_map, map_cons, List.map_map, Nat.add_zero]
    exact congrArg (List.range s ++ s :: ·) (map_congr_left fun i _ => (Nat.add_right_comm s i 1).symm ▸ rfl)
  rw [mergeSegments, hlen, hrest, hrange, foldlM_append, foldlM_slices h hR hs.le hf]
  simp only [bind, Except.bind, foldlM_cons, hstep]

end

end

section

variable {sizes : List ℕ} {keys C : Column} {s a b : ℕ}

lemma exists_segment {r : ℕ} (hr : r < sizes.sum) :
    ∃ s < sizes.length, offset sizes s ≤ r ∧ r < offset sizes s + sizes.getD s 0 := by
  induction sizes generalizing r with
  | nil => exact absurd hr (Nat.not_lt_zero r)
  | cons n sizes ih =>
    rcases Nat.lt_or_ge r n with hlt | hge
    · exact ⟨0, Nat.succ_pos _, Nat.zero_le r, (Nat.zero_add n).symm ▸ hlt⟩
    · rw [sum_cons] at hr
      obtain ⟨s, hs, hle, hlt⟩ := @ih (r - n) (by omega)
      have hoff : offset (n :: sizes) (s + 1) = n + offset sizes s := by
        rw [offset, offset, take_succ_cons, sum_cons]
      exact ⟨s + 1, Nat.succ_lt_succ hs, by omega, by rw [hoff, getD_cons_succ]; omega⟩

lemma exists_pos (h : sizes.sum ≠ 0) : ∃ s, s < sizes.length ∧ 0 < sizes.getD s 0 := by
  obtain ⟨s, hs, hle, hlt⟩ := exists_segment (Nat.pos_of_ne_zero h)
  exact ⟨s, hs, by omega⟩

lemma key_get (h : Joined (γ := γ) sizes (.mapcommon keys) (.vec C)) (hs : s < sizes.length)
    (ha : a < sizes.getD s 0) :
    C.get (offset sizes s + a) = keys.cells.getD s (.int 0) := by
  have hlen : C.cells.length = sizes.sum := h.len
  have hseg := h.segment hs
  have hs' : s < keys.cells.length := by
    cases h with
    | mapcommon _ hkeys _ => exact hkeys ▸ hs
  rw [segmentCol, dif_pos hs'] at hseg
  have hcol : keys.broadcast s (sizes.getD s 0) hs' = C.slice (offset sizes s) (sizes.getD s 0) :=
    AnyCol.vec.inj (Except.ok.inj hseg)
  rw [← (Column.shifted_slice (hlen ▸ offset_le hs)).get a ha, ← hcol, Column.get,
    getD_eq_getElem _ _ (by simpa [Column.broadcast] using ha), getD_eq_getElem _ _ hs']
  exact getElem_replicate _

structure Splits (sizes : List ℕ) (C : Column) : Prop where
  within : ∀ s < sizes.length, ∀ a < sizes.getD s 0, ∀ b < sizes.getD s 0, C.get (offset sizes s + a) =
    C.get (offset sizes s + b)
  apart : ∀ s < sizes.length, ∀ a < sizes.sum, ∀ b < sizes.sum, C.get a = C.get b →
    offset sizes s ≤ a → a < offset sizes s + sizes.getD s 0 → offset sizes s ≤ b ∧
      b < offset sizes s + sizes.getD s 0

lemma splits_of_nodup (h : Joined (γ := γ) sizes (.mapcommon keys) (.vec C)) (hkeys : keys.cells.Nodup) :
    Splits sizes C := by
  have hlen : keys.cells.length = sizes.length := by
    cases h with
    | mapcommon _ hkeys _ => exact hkeys
  refine ⟨fun s hs a ha b hb => by rw [key_get h hs ha, key_get h hs hb], fun s hs a ha b hb hab hle hlt => ?_⟩
  obtain ⟨t, ht, hle', hlt'⟩ := exists_segment hb
  obtain ⟨i, rfl⟩ := Nat.exists_eq_add_of_le hle
  obtain ⟨j, rfl⟩ := Nat.exists_eq_add_of_le hle'
  rw [key_get h hs (by omega), key_get h ht (by omega), getD_eq_getElem _ _ (hlen ▸ hs),
    getD_eq_getElem _ _ (hlen ▸ ht)] at hab
  obtain rfl := (hkeys.getElem_inj_iff).mp hab
  exact ⟨hle', hlt'⟩

lemma Splits.between (h : Splits sizes C) {y : ℕ} (hay : a < y) (hyb : y < b) (hb : b < sizes.sum)
    (hab : C.get a = C.get b) :
    C.get y = C.get a := by
  obtain ⟨s, hs, hle, hlt⟩ := exists_segment (hay.trans (hyb.trans hb))
  obtain ⟨-, hbt⟩ := h.apart s hs a (by omega) b hb hab hle hlt
  obtain ⟨i, rfl⟩ := Nat.exists_eq_add_of_le hle
  obtain ⟨j, rfl⟩ := Nat.exists_eq_add_of_le (hle.trans hay.le)
  exact h.within s hs j (by omega) i (by omega)

end

section

variable {m : Machine γ} {sizes : List ℕ} {Parts : List Column} {Orders : List SortKey} {C : Column} {s off n : ℕ}

def sliceKeys (off n : ℕ) (keys : List SortKey) : List SortKey := keys.map fun k => (k.1.slice off n, k.2)

lemma sortKeys_slice (off n : ℕ) : sortKeys (Parts.map (Column.slice off n)) (sliceKeys off n Orders) =
    sliceKeys off n (sortKeys Parts Orders) := by
  rw [sortKeys, sortKeys, sliceKeys, sliceKeys, map_append, List.map_map, List.map_map]
  rfl

def segmentRows (sizes : List ℕ) (s : ℕ) : List ℕ := List.range' (offset sizes s) (sizes.getD s 0)

def tableLe (m : Machine γ) (sizes : List ℕ) (Parts : List Column) (Orders : List SortKey) : ℕ → ℕ → Bool :=
  rowLe m (sortKeys Parts Orders) sizes.sum

def segmentLe (m : Machine γ) (sizes : List ℕ) (Parts : List Column) (Orders : List SortKey) (s : ℕ) :
    ℕ → ℕ → Bool :=
  rowLe m (sliceKeys (offset sizes s) (sizes.getD s 0) (sortKeys Parts Orders)) (sizes.getD s 0)

instance : Std.Total (fun a b => tableLe m sizes Parts Orders a b = true) :=
  inferInstanceAs (Std.Total fun a b => rowLe m (sortKeys Parts Orders) sizes.sum a b = true)

instance : IsTrans ℕ (fun a b => tableLe m sizes Parts Orders a b = true) :=
  inferInstanceAs (IsTrans ℕ fun a b => rowLe m (sortKeys Parts Orders) sizes.sum a b = true)

/-- Each segment is sorted and cut into partitions as its rows are in the table. -/
structure Keyed (m : Machine γ) (sizes : List ℕ) (Parts : List Column) (Orders : List SortKey) : Prop where
  order : ∀ s < sizes.length, ∀ a < sizes.getD s 0, ∀ b < sizes.getD s 0,
    (Before (segmentLe m sizes Parts Orders s) a b ↔
      Before (tableLe m sizes Parts Orders) (offset sizes s + a) (offset sizes s + b))
  joined : ∀ s < sizes.length, ∀ a < sizes.sum, ∀ b < sizes.sum,
    Next (Before (tableLe m sizes Parts Orders)) (range sizes.sum) a b →
    boundary Parts a b = false → (a ∈ segmentRows sizes s ↔ b ∈ segmentRows sizes s)
  unbroken : ∀ s < sizes.length, ∀ a ∈ segmentRows sizes s, ∀ b ∈ segmentRows sizes s,
    Next (Before (tableLe m sizes Parts Orders)) (segmentRows sizes s) a b →
      ¬Next (Before (tableLe m sizes Parts Orders)) (range sizes.sum) a b → boundary Parts a b = true
  count : m.pool = true → ∀ l : List ℕ, l.Nodup →
    (∀ r ∈ l, r < sizes.sum ∧ Begins (tableLe m sizes Parts Orders) Parts sizes.sum r) → l.length ≤ 65536

section

variable (hlen : ∀ k ∈ sortKeys Parts Orders, k.1.cells.length = sizes.sum)

include hlen

lemma shifted_keys (hs : s < sizes.length) :
    List.Forall₂ (fun K k => Shifted (offset sizes s) (sizes.getD s 0) K.1 k.1 ∧ k.2 = K.2) (sortKeys Parts Orders)
      (sliceKeys (offset sizes s) (sizes.getD s 0) (sortKeys Parts Orders)) := by
  rw [sliceKeys, forall₂_map_right_iff, forall₂_same]
  exact fun k hk => ⟨Column.shifted_slice (hlen k hk ▸ offset_le hs), rfl⟩

variable (hk : Keyed m sizes Parts Orders)

include hk

lemma groups_slice (hs : s < sizes.length) :
    (groups (segmentLe m sizes Parts Orders s) (Parts.map (Column.slice (offset sizes s) (sizes.getD s 0)))
      (sizes.getD s 0)).map
        (List.map (offset sizes s + ·)) =
      (groups (tableLe m sizes Parts Orders) Parts sizes.sum).filter
        (·.any fun r => offset sizes s ≤ r && r < offset sizes s + sizes.getD s 0) := by
  have : Std.Total fun a b => segmentLe m sizes Parts Orders s a b = true :=
    inferInstanceAs (Std.Total fun a b => rowLe m _ _ a b = true)
  have : IsTrans ℕ fun a b => segmentLe m sizes Parts Orders s a b = true :=
    inferInstanceAs (IsTrans ℕ fun a b => rowLe m _ _ a b = true)
  refine groups_segment (hk.order s hs) ?_ (offset_le hs) (hk.joined s hs) (hk.unbroken s hs)
  rw [forall₂_map_right_iff, forall₂_same]
  exact fun c hc => Column.shifted_slice (hlen (c, false) (mem_append_left _ (mem_map_of_mem hc)) ▸ offset_le hs)

omit hlen in
lemma before_slice (hs : s < sizes.length) {h : ℕ} (hh : h < sizes.getD s 0) :
    ((range (sizes.getD s 0)).filter fun a => Before (segmentLe m sizes Parts Orders s) a h).length ≤
      ((range sizes.sum).filter fun a => Before (tableLe m sizes Parts Orders) a (offset sizes s + h)).length := by
  have hsub : List.Sublist (segmentRows sizes s) (range sizes.sum) := by
    rw [segmentRows, ← filter_range (offset_le hs)]
    exact filter_sublist
  refine le_trans (le_of_eq ?_) (hsub.filter _).length_le
  rw [segmentRows, range'_eq_map_range, List.filter_map, length_map]
  refine congrArg length (filter_congr fun a ha => ?_)
  exact decide_eq_decide.mpr (hk.order s hs a (mem_range.mp ha) h hh)

end

section

variable (hm : m.Ranked) (hlen : ∀ k ∈ sortKeys Parts Orders, k.1.cells.length = sizes.sum) (hC : C ∈ Parts)
    (hsplit : Splits sizes C)

include hlen hC hsplit

omit hlen hsplit in
lemma one_key (hone : (sortKeys Parts Orders).length = 1) : Parts = [C] ∧ Orders = [] := by
  rw [sortKeys, length_append, length_map] at hone
  have hpos := length_pos_of_mem hC
  obtain ⟨D, rfl⟩ := length_eq_one_iff.mp (by omega : Parts.length = 1)
  obtain rfl := mem_singleton.mp hC
  exact ⟨rfl, length_eq_zero_iff.mp (by rw [length_singleton] at hone; omega)⟩

lemma joined_of_key (ht : C.type ≠ .guid) (hs : s < sizes.length) {a b : ℕ} (ha : a < sizes.sum)
    (hb : b < sizes.sum)
    (hab : boundary Parts a b = false) : a ∈ segmentRows sizes s ↔ b ∈ segmentRows sizes s := by
  have hget := get_eq_of_boundary hC ht (hlen (C, false) (mem_append_left _ (mem_map_of_mem hC))) ha hb hab
  rw [segmentRows, mem_range'_1, mem_range'_1]
  exact ⟨fun h => hsplit.apart s hs a ha b hb hget h.1 h.2, fun h => hsplit.apart s hs b hb a ha hget.symm h.1 h.2⟩

include hm

/-- Where the composite keys agree with the comparator and no partition key is a GUID, segments are sorted and cut
as the table. -/
lemma keyed_of_plain (hguid : ∀ c ∈ Parts, c.type ≠ .guid)
    (hplain : (sortKeys Parts Orders).length ≠ 1 → Plain m (sortKeys Parts Orders) sizes.sum ∧
      ∀ s < sizes.length, Plain m (sliceKeys (offset sizes s) (sizes.getD s 0) (sortKeys Parts Orders))
        (sizes.getD s 0))
    (hcount : m.pool = true → ∀ l : List ℕ, l.Nodup →
      (∀ r ∈ l, r < sizes.sum ∧ Begins (tableLe m sizes Parts Orders) Parts sizes.sum r) → l.length ≤ 65536) :
    Keyed m sizes Parts Orders := by
  have hpart : ∀ c ∈ Parts, c.cells.length = sizes.sum :=
    fun c hc => hlen (c, false) (mem_append_left _ (mem_map_of_mem hc))
  have horder : ∀ s < sizes.length, ∀ a < sizes.getD s 0, ∀ b < sizes.getD s 0,
    segmentLe m sizes Parts Orders s a b =
      tableLe m sizes Parts Orders (offset sizes s + a) (offset sizes s + b) := by
    intro s hs a ha b hb
    have hoff := offset_le hs
    rw [segmentLe, tableLe]
    by_cases hone : (sortKeys Parts Orders).length = 1
    · -- rows of one segment tie on the only key
      obtain ⟨rfl, rfl⟩ := one_key hC hone
      have hslice := Column.shifted_slice (hpart C hC ▸ hoff)
      have hget := hsplit.within s hs a ha b hb
      exact (rowLe_of_get (by rw [hslice.get a ha, hslice.get b hb, hget])).trans (rowLe_of_get hget).symm
    · have hlen' : ∀ k ∈ sliceKeys (offset sizes s) (sizes.getD s 0) (sortKeys Parts Orders),
          k.1.cells.length = sizes.getD s 0 := by
        intro k hk
        obtain ⟨K, hK, rfl⟩ := mem_map.mp hk
        exact (Column.shifted_slice (hlen K hK ▸ hoff)).length
      rw [rowLe_eq hm hlen' ((hplain hone).2 s hs) (by rwa [sliceKeys, length_map]) ha hb,
        rowLe_eq hm hlen (hplain hone).1 hone (by omega) (by omega), sortCmp_shift (shifted_keys hlen hs) ha hb]
  refine ⟨fun s hs a ha b hb => ?_, fun s hs a ha b hb _ hab =>
    joined_of_key hlen hC hsplit (hguid C hC) hs ha hb hab,
    fun s hs a ha b hb hab hno => Bool.eq_true_of_not_eq_false fun heq =>
      hno ⟨hab.1, fun w hw haw hwb => ?_⟩, hcount⟩
  · rw [Before, Before, horder s hs a ha b hb, horder s hs b hb a ha, Nat.add_lt_add_iff_left]
  · have hmem := fun {r} (hr : r ∈ segmentRows sizes s) => mem_range'_1.mp hr
    have hlt : ∀ r ∈ segmentRows sizes s, r < sizes.sum := fun r hr => (hmem hr).2.trans_le (offset_le hs)
    have hget : ∀ c ∈ Parts, c.get a = c.get b :=
      fun c hc => get_eq_of_boundary hc (hguid c hc) (hpart c hc) (hlt a ha) (hlt b hb) heq
    have hwlt := mem_range.mp hw
    have hCw : C.get a = C.get w := by
      by_cases hone : (sortKeys Parts Orders).length = 1
      · obtain ⟨rfl, rfl⟩ := one_key hC hone
        have hba : tableLe m sizes [C] [] b a = true := rowLe_of_get (hget C mem_cons_self).symm
        have htrans := fun {x y z} => IsTrans.trans (r := fun a b => tableLe m sizes [C] [] a b = true) x y z
        have haw' : a < w := haw.2 (htrans hwb.1 hba)
        have hwb' : w < b := hwb.2 (htrans hba haw.1)
        exact (hsplit.between haw' hwb' (hlt b hb) (hget C mem_cons_self)).symm
      · have hle : ∀ {x y}, x < sizes.sum → y < sizes.sum → tableLe m sizes Parts Orders x y = true →
            cmpLe (sortKeys Parts Orders) x y = true := by
          intro x y hx hy hxy
          rwa [tableLe, rowLe_eq hm hlen (hplain hone).1 hone hx hy] at hxy
        exact get_eq_between hget (hle (hlt a ha) hwlt haw.1) (hle hwlt (hlt b hb) hwb.1) hC (hguid C hC)
    have hw' : w ∈ segmentRows sizes s :=
      mem_range'_1.mpr (hsplit.apart s hs a (hlt a ha) w hwlt hCw (hmem ha).1 (hmem ha).2)
    exact hab.2 w hw' haw hwb

end

end

section

variable [LinearOrder γ] {m : Machine γ} {op : Op γ} {sizes : List ℕ} {Parts : List Column}
    {Orders : List SortKey} {fr : Frame}
  {C : Column} {s off n : ℕ}

def Input.RowWise (T : Table γ) (N off n : ℕ) : Input γ → Prop
  | .scan _ => True
  | .expr f => (∀ C, f T = .ok C → C.cells.length = N) ∧ f (sliceTable off n T) = (f T).map (Column.slice off n)

omit [LinearOrder γ] in
lemma resolve_slice {input : Input γ} (h : input.RowWise T N off n) :
    resolve (sliceTable off n T) input = (resolve T input).map (Column.slice off n) := by
  cases input with
  | expr f => exact h.2
  | scan name =>
    have hfind : (sliceTable off n T).find? (·.1 = name) = (T.find? (·.1 = name)).map fun c =>
        (c.1, c.2.slice off n) := by
      rw [sliceTable, find?_map]
      rfl
    rw [resolve, resolve, hfind]
    cases T.find? (·.1 = name) with
    | none => rfl
    | some c =>
      obtain ⟨_, col⟩ := c
      cases col <;> rfl

omit [LinearOrder γ] in
lemma resolve_length {input : Input γ} (hT : PlainTable T N) (h : input.RowWise T N off n)
    (hC : resolve T input = .ok C) :
    C.cells.length = N := by
  cases input with
  | expr f => exact h.1 C hC
  | scan name =>
    rw [resolve] at hC
    cases hfind : T.find? (·.1 = name) with
    | none =>
      rw [hfind] at hC
      cases hC
    | some c =>
      rw [hfind] at hC
      obtain ⟨_, col⟩ := c
      cases col with
      | vec D =>
        obtain rfl := Except.ok.inj hC
        exact hT.length _ (mem_of_find?_eq_some hfind)
      | _ => cases hC

/-- The partitions of the table leave room for the parameters of the functions. -/
def Roomy (m : Machine γ) (fr : Frame) (kinds : List Kind) (le : ℕ → ℕ → Bool) (Parts : List Column)
    (N : ℕ) : Prop :=
  ∀ kind ∈ kinds, ∀ ps g, IsPartition le Parts N ps g →
    (Part.mk (g.getD · 0) ps (ps + g.length)).Fits fr (kind.func m none)

structure Sliced (m : Machine γ) (kinds : List Kind) (off n : ℕ) (F f : Func γ) : Prop where
  agrees : ∀ g : List ℕ, (∀ r ∈ g, r < n) → Part.Agrees (groupPart g) (groupPart (g.map (off + ·))) f F
  kinds : ∃ kind ∈ kinds, (∃ C, F = kind.func m C) ∧ ∃ c, f = kind.func m c

omit [LinearOrder γ] in
lemma resolveFunc_slice {f : Kind × Option (Input γ)} {kinds : List Kind} (hf : f.1 ∈ kinds) (hT : PlainTable T N)
    (hoff : off + n ≤ N) (h : ∀ input, f.2 = some input → input.RowWise T N off n) :
    SameOutcome (Sliced m kinds off n) (resolveFunc m T f) (resolveFunc m (sliceTable off n T) f) := by
  obtain ⟨kind, input⟩ := f
  cases input with
  | none => exact .ok ⟨fun g hg => func_agrees m kind .none hg, kind, hf, ⟨none, rfl⟩, none, rfl⟩
  | some input =>
    have hrow := h input rfl
    rw [resolveFunc, resolveFunc, elim_some, elim_some, resolve_slice hrow]
    cases hC : resolve T input with
    | error e => exact .error e
    | ok C =>
      have hshift : Shifted off n C (C.slice off n) := Column.shifted_slice (by rwa [resolve_length hT hrow hC])
      exact .ok ⟨fun g hg => func_agrees m kind (.some hshift) hg, kind, hf, ⟨some C, rfl⟩,
        some (C.slice off n), rfl⟩

omit [LinearOrder γ] in
lemma Roomy.fitting {kinds : List Kind}
    (h : Roomy m fr kinds (tableLe m sizes Parts Orders) Parts sizes.sum) {kind : Kind}
    (hkind : kind ∈ kinds) (c : Option Column) :
      Fitting fr (groups (tableLe m sizes Parts Orders) Parts sizes.sum) (kind.func m c) :=
  fun _ g _ hG _ hps hpe => fits_mono (q := Part.mk (g.getD · 0) _ _) hps.le hpe rfl
    (h kind hkind _ g (groups_partition hG))

omit [LinearOrder γ] in
lemma Roomy.fitting_slice {kinds : List Kind} (h : Roomy m fr kinds (tableLe m sizes Parts Orders) Parts sizes.sum)
    (hk : Keyed m sizes Parts Orders) (hlen : ∀ k ∈ sortKeys Parts Orders, k.1.cells.length = sizes.sum)
    (hs : s < sizes.length) {kind : Kind} (hkind : kind ∈ kinds) (c : Option Column) :
    Fitting fr (groups (segmentLe m sizes Parts Orders s)
      (Parts.map (Column.slice (offset sizes s) (sizes.getD s 0))) (sizes.getD s 0))
      (kind.func m c) := by
  intro pre g post hG p hps hpe
  have : Std.Total fun a b => segmentLe m sizes Parts Orders s a b = true :=
    inferInstanceAs (Std.Total fun a b => rowLe m _ _ a b = true)
  have : IsTrans ℕ fun a b => segmentLe m sizes Parts Orders s a b = true :=
    inferInstanceAs (IsTrans ℕ fun a b => rowLe m _ _ a b = true)
  have hg := groups_partition hG
  have hmem : g.map (offset sizes s + ·) ∈ groups (tableLe m sizes Parts Orders) Parts sizes.sum := by
    have hin := mem_map_of_mem (f := List.map (offset sizes s + ·)) (hG ▸ mem_append_right pre mem_cons_self)
    rw [groups_slice hlen hk hs] at hin
    exact mem_of_mem_filter hin
  obtain ⟨Pre, Post, hGs⟩ := append_of_mem hmem
  have hG' := groups_partition hGs
  have hpart := h kind hkind _ _ hG'
  have hne : g ≠ [] := ne_nil_of_mem_splitBy (hG ▸ mem_append_right pre mem_cons_self)
  -- the rows before a partition of the segment are also before it in the table
  obtain ⟨r, rest, rfl⟩ := exists_cons_of_ne_nil hne
  have hseg := (hg.begins r rfl).2
  have htab := (hG'.begins (offset sizes s + r) rfl).2
  have hle := before_slice hk hs (hg.rows r mem_cons_self)
  refine fits_mono ?_ hpe ?_ hpart
  · change p.ps ≤ Pre.flatten.length
    rw [hps, ← hseg, ← htab]
    exact hle
  · change Pre.flatten.length + _ = Pre.flatten.length + _
    rw [length_map]

lemma forall₂_square {α β γ δ : Type} {Q : α → β → Prop} {P : α → γ → Prop} {P' : β → δ → Prop}
    {S : γ → δ → Prop} {as : List α}
    {bs : List β} {cs : List γ} {ds : List δ} (h : List.Forall₂ Q as bs) (hcs : List.Forall₂ P as cs)
    (hds : List.Forall₂ P' bs ds) (hS : ∀ a b c d, Q a b → P a c → P' b d → S c d) : List.Forall₂ S cs ds := by
  induction h generalizing cs ds with
  | nil =>
    cases hcs
    cases hds
    exact .nil
  | cons hq _ ih =>
    cases hcs with
    | cons hp hcs =>
      cases hds with
      | cons hp' hds => exact .cons (hS _ _ _ _ hq hp hp') (ih hcs hds)

lemma compute_slice {kinds : List Kind} (hk : Keyed m sizes Parts Orders)
    (hroom : Roomy m fr kinds (tableLe m sizes Parts Orders) Parts sizes.sum)
    (hlen : ∀ k ∈ sortKeys Parts Orders, k.1.cells.length = sizes.sum) (hs : s < sizes.length)
    (hN : sizes.sum < 2 ^ 63) (hfr : fr.supported = true) {Fs fs : List (Func γ)}
    (hfuncs : List.Forall₂ (Sliced m kinds (offset sizes s) (sizes.getD s 0)) Fs fs) :
    ∃ Outs outs, compute m fr sizes.sum Parts Orders Fs = .ok Outs ∧
      compute m fr (sizes.getD s 0) (Parts.map (Column.slice (offset sizes s) (sizes.getD s 0)))
        (sliceKeys (offset sizes s) (sizes.getD s 0) Orders) fs = .ok outs ∧
      List.Forall₂ (fun Out out => ∀ r < sizes.getD s 0, out r = Out (offset sizes s + r)) Outs outs := by
  have hoff := offset_le hs
  have hgroups := groups_slice hlen hk hs
  have hcap : m.pool = true → (groups (tableLe m sizes Parts Orders) Parts sizes.sum).length ≤ 65536 :=
    fun hpool => groups_length_le (hk.count hpool)
  have hcap' : m.pool = true → (groups (segmentLe m sizes Parts Orders s)
      (Parts.map (Column.slice (offset sizes s) (sizes.getD s 0))) (sizes.getD s 0)).length ≤ 65536 := by
    intro hpool
    have hcount := congrArg length hgroups
    rw [length_map] at hcount
    rw [hcount]
    exact (length_filter_le _ _).trans (hcap hpool)
  have hsliced : ∀ i (hi : i < Fs.length) (hi' : i < fs.length),
      Sliced m kinds (offset sizes s) (sizes.getD s 0) Fs[i] fs[i] :=
    fun i hi hi' => (forall₂_iff_get.mp hfuncs).2 i hi hi'
  have hfits : ∀ F ∈ Fs, Fitting fr (groups (tableLe m sizes Parts Orders) Parts sizes.sum) F := by
    intro F hF
    obtain ⟨i, hi, rfl⟩ := getElem_of_mem hF
    obtain ⟨kind, hkind, ⟨c, hc⟩, -⟩ := (hsliced i hi (hfuncs.length_eq ▸ hi)).kinds
    exact hc ▸ hroom.fitting hkind c
  have hfits' : ∀ f ∈ fs, Fitting fr (groups (segmentLe m sizes Parts Orders s)
      (Parts.map (Column.slice (offset sizes s) (sizes.getD s 0))) (sizes.getD s 0)) f := by
    intro f hf
    obtain ⟨i, hi, rfl⟩ := getElem_of_mem hf
    obtain ⟨kind, hkind, -, c, hc⟩ := (hsliced i (hfuncs.length_eq ▸ hi) hi).kinds
    exact hc ▸ hroom.fitting_slice hk hlen hs hkind c
  rw [segmentLe, ← sortKeys_slice] at hcap' hfits' hgroups
  obtain ⟨Outs, hOuts, hDone⟩ := compute_spec hN hfr hfits hcap
  obtain ⟨outs, houts, hdone⟩ := compute_spec (by omega) hfr hfits' hcap'
  refine ⟨Outs, outs, hOuts, houts, forall₂_square hfuncs hDone hdone fun F f Out out hF hOut hout r hr => ?_⟩
  have horders : List.Forall₂ (fun K k => Shifted (offset sizes s) (sizes.getD s 0) K.1 k.1 ∧ k.2 = K.2) Orders
      (sliceKeys (offset sizes s) (sizes.getD s 0) Orders) := by
    rw [sliceKeys, forall₂_map_right_iff, forall₂_same]
    exact fun k hk => ⟨Column.shifted_slice (hlen k (mem_append_right _ hk) ▸ hoff), rfl⟩
  exact done_segment hout hOut hgroups hF.agrees (fun a ha b hb => alike_shift horders ha hb) hr

lemma slice_range (hoff : off + n ≤ N) : ((List.range N).drop off).take n = (List.range n).map (off + ·) := by
  refine ext_getElem (by simp; omega) fun i _ _ => ?_
  rw [getElem_take, getElem_drop, getElem_range, getElem_map, getElem_range]

omit [LinearOrder γ] in
lemma results_slice (hoff : off + n ≤ N) {Outs outs : List (ℕ → Cell γ)}
    (h : List.Forall₂ (fun Out out => ∀ r < n, out r = Out (off + r)) Outs outs) (k : ℕ) :
    (outs.zipIdx k).map (fun out => (winName out.2, AnyCol.result ((List.range n).map out.1))) =
      sliceTable off n ((Outs.zipIdx k).map fun out => (winName out.2, .result ((List.range N).map out.1))) := by
  induction h generalizing k with
  | nil => rfl
  | @cons Out out Outs outs hout _ ih =>
    have hcells : (List.range n).map out = (((List.range N).map Out).drop off).take n := by
      rw [← map_drop, ← map_take, slice_range hoff, List.map_map]
      exact map_congr_left fun r hr => hout r (mem_range.mp hr)
    rw [zipIdx_cons, zipIdx_cons, map_cons, map_cons, sliceTable, map_cons, ← sliceTable, ih (k + 1), hcells]
    rfl

omit [LinearOrder γ] in
lemma sliceTable_plain (hT : PlainTable T N) (hoff : off + n ≤ N) : PlainTable (sliceTable off n T) n := by
  refine ⟨fun c hc => ?_, fun c hc => ?_, fun hnil => hT.columns (map_eq_nil_iff.mp hnil)⟩
  · obtain ⟨d, hd, rfl⟩ := mem_map.mp hc
    rw [AnyCol.slice_isParted]
    exact hT.plain d hd
  · obtain ⟨d, hd, rfl⟩ := mem_map.mp hc
    exact AnyCol.slice_len (hT.plain d hd) (by rwa [hT.length d hd])

omit [LinearOrder γ] in
lemma PlainTable.rows (hT : PlainTable T N) : T.head?.elim 0 (·.2.len) = N := by
  obtain ⟨c, cs, rfl⟩ := exists_cons_of_ne_nil hT.columns
  exact hT.length c mem_cons_self

def Op.inputs (op : Op γ) : List (Input γ) :=
  op.partKeys ++ op.orderKeys.map Prod.fst ++ op.funcs.filterMap Prod.snd

/-- The inputs are computed row by row and, where all of them resolve, segments are sorted and cut as the table. -/
structure Even (m : Machine γ) (op : Op γ) (T : Table γ) (sizes : List ℕ) : Prop where
  inputs : ∀ s < sizes.length, 0 < sizes.getD s 0 → ∀ input ∈ op.inputs,
    input.RowWise T sizes.sum (offset sizes s) (sizes.getD s 0)
  keys : (∀ input ∈ op.inputs, ∃ C, resolve T input = .ok C) → ∀ Parts Orders,
    op.partKeys.mapM (resolve T) = .ok Parts →
    op.orderKeys.mapM (fun k => (resolve T k.1).map (·, k.2)) = .ok Orders →
      Keyed m sizes Parts Orders ∧ Roomy m op.frame (op.funcs.map Prod.fst)
        (tableLe m sizes Parts Orders) Parts sizes.sum

omit [LinearOrder γ] in
lemma resolved {Fs : List (Func γ)} (hP : op.partKeys.mapM (resolve T) = .ok Parts)
    (hO : op.orderKeys.mapM (fun k => (resolve T k.1).map (·, k.2)) = .ok Orders)
    (hF : op.funcs.mapM (resolveFunc m T) = .ok Fs) :
    ∀ input ∈ op.inputs, ∃ C, resolve T input = .ok C := by
  intro input hin
  rcases mem_append.mp hin with hkeys | hfunc
  · rcases mem_append.mp hkeys with hpart | horder
    · exact ok_of_mapM hP hpart
    · obtain ⟨k, hk, rfl⟩ := mem_map.mp horder
      obtain ⟨k', hk'⟩ := ok_of_mapM hO hk
      cases hC : resolve T k.1 with
      | error e =>
        rw [hC] at hk'
        cases hk'
      | ok C => exact ⟨C, rfl⟩
  · obtain ⟨f, hf, hin'⟩ := mem_filterMap.mp hfunc
    obtain ⟨F, hF'⟩ := ok_of_mapM hF hf
    rw [resolveFunc, hin', elim_some] at hF'
    cases hC : resolve T input with
    | error e =>
      rw [hC] at hF'
      cases hF'
    | ok C => exact ⟨C, rfl⟩

omit [LinearOrder γ] in
lemma keys_length (hlength : ∀ input ∈ op.inputs, ∀ C, resolve T input = .ok C → C.cells.length = N)
    (hP : op.partKeys.mapM (resolve T) = .ok Parts)
    (hO : op.orderKeys.mapM (fun k => (resolve T k.1).map (·, k.2)) = .ok Orders) :
    ∀ k ∈ sortKeys Parts Orders, k.1.cells.length = N := by
  intro k hk
  rcases mem_append.mp hk with hpart | horder
  · obtain ⟨C, hC, rfl⟩ := mem_map.mp hpart
    obtain ⟨key, hkey, hC'⟩ := exists_of_mapM hP hC
    exact hlength key (mem_append_left _ (mem_append_left _ hkey)) C hC'
  · obtain ⟨key, hkey, hk'⟩ := exists_of_mapM hO horder
    cases hC : resolve T key.1 with
    | error e =>
      rw [hC] at hk'
      cases hk'
    | ok C =>
      rw [hC] at hk'
      obtain rfl := Except.ok.inj hk'
      exact hlength key.1 (mem_append_left _ (mem_append_right _ (mem_map_of_mem hkey))) C hC

lemma flatWindow_idle (hT : PlainTable T N) (hidle : N = 0 ∨ op.funcs = []) : flatWindow m op T = .ok T := by
  rw [flatWindow, hT.rows, if_pos hidle]

lemma flatWindow_slice (hT : PlainTable T sizes.sum) (h : Even m op T sizes) (hs : s < sizes.length)
    (hN : sizes.sum < 2 ^ 63) (hfr : op.frame.supported = true) (hpos : 0 < sizes.getD s 0) :
    flatWindow m op (sliceTable (offset sizes s) (sizes.getD s 0) T) =
      (flatWindow m op T).map (sliceTable (offset sizes s) (sizes.getD s 0)) := by
  have hoff := offset_le hs
  by_cases hfuncs : op.funcs = []
  · rw [flatWindow_idle hT (Or.inr hfuncs), flatWindow_idle (sliceTable_plain hT hoff) (Or.inr hfuncs)]
    rfl
  have hsum : sizes.sum ≠ 0 := by omega
  rw [flatWindow, flatWindow, hT.rows, (sliceTable_plain hT hoff).rows, if_neg (not_or.mpr ⟨hsum, hfuncs⟩),
    if_neg (not_or.mpr ⟨hpos.ne', hfuncs⟩)]
  have hrow := h.inputs s hs hpos
  have hparts : op.partKeys.mapM (resolve (sliceTable (offset sizes s) (sizes.getD s 0) T)) =
      (op.partKeys.mapM (resolve T)).map (map (Column.slice (offset sizes s) (sizes.getD s 0))) :=
    mapM_except_map fun key hkey => resolve_slice (hrow key (mem_append_left _ (mem_append_left _ hkey)))
  have horders : op.orderKeys.mapM
    (fun k => (resolve (sliceTable (offset sizes s) (sizes.getD s 0) T) k.1).map (·, k.2)) =
      (op.orderKeys.mapM fun k => (resolve T k.1).map (·, k.2)).map
        (sliceKeys (offset sizes s) (sizes.getD s 0)) := by
    refine mapM_except_map fun k hk => ?_
    rw [resolve_slice (hrow k.1 (mem_append_left _ (mem_append_right _ (mem_map_of_mem hk))))]
    cases resolve T k.1 <;> rfl
  have hresolved : SameOutcome (List.Forall₂ (Sliced m (op.funcs.map Prod.fst) (offset sizes s) (sizes.getD s 0)))
      (op.funcs.mapM (resolveFunc m T))
        (op.funcs.mapM (resolveFunc m (sliceTable (offset sizes s) (sizes.getD s 0) T))) := by
    refine mapM_sameOutcome fun f hf => resolveFunc_slice (mem_map_of_mem hf) hT hoff fun input hin => ?_
    exact hrow input (mem_append_right _ (mem_filterMap.mpr ⟨f, hf, hin⟩))
  have hkeys := h.keys
  have hall := fun Fs Parts Orders => @resolved _ T m op Parts Orders Fs
  rw [hparts, horders]
  cases hP : op.partKeys.mapM (resolve T) with
  | error e => rfl
  | ok Parts =>
    cases hO : op.orderKeys.mapM (fun k => (resolve T k.1).map (·, k.2)) with
    | error e => rfl
    | ok Orders =>
      generalize op.funcs.mapM (resolveFunc m T) = outcome at hresolved hall ⊢
      generalize op.funcs.mapM (resolveFunc m (sliceTable (offset sizes s) (sizes.getD s 0) T)) =
        outcome' at hresolved ⊢
      cases hresolved with
      | error e => rfl
      | @ok Fs fs hFs =>
        have hlen := keys_length (fun input hin C hC => resolve_length hT (hrow input hin) hC) hP hO
        obtain ⟨hk, hroom⟩ := hkeys (hall Fs Parts Orders hP hO rfl) Parts Orders hP hO
        obtain ⟨Outs, outs, hOuts, houts, hcells⟩ := compute_slice hk hroom hlen hs hN hfr hFs
        simp only [bind, Except.bind, Except.map, hOuts, houts]
        rw [results_slice hoff hcells, sliceTable, sliceTable, sliceTable, map_append]

lemma flatWindow_inv (hT : PlainTable T N) (hN : N ≠ 0) (hfuncs : op.funcs ≠ []) (h : flatWindow m op T = .ok R) :
    ∃ Parts Orders Fs outs, op.partKeys.mapM (resolve T) = .ok Parts ∧
      op.orderKeys.mapM (fun k => (resolve T k.1).map (·, k.2)) = .ok Orders ∧
        op.funcs.mapM (resolveFunc m T) = .ok Fs ∧
      compute m op.frame N Parts Orders Fs = .ok outs ∧
      R = T ++ outs.zipIdx.map fun out => (winName out.2, .result ((List.range N).map out.1)) := by
  rw [flatWindow, hT.rows, if_neg (not_or.mpr ⟨hN, hfuncs⟩)] at h
  cases hP : op.partKeys.mapM (resolve T) with
  | error e =>
    rw [hP] at h
    cases h
  | ok Parts =>
    cases hO : op.orderKeys.mapM (fun k => (resolve T k.1).map (·, k.2)) with
    | error e =>
      rw [hP, hO] at h
      cases h
    | ok Orders =>
      cases hF : op.funcs.mapM (resolveFunc m T) with
      | error e =>
        rw [hP, hO, hF] at h
        cases h
      | ok Fs =>
        rw [hP, hO, hF] at h
        simp only [bind, Except.bind] at h
        cases hc : compute m op.frame N Parts Orders Fs with
        | error e =>
          rw [hc] at h
          cases h
        | ok outs =>
          rw [hc] at h
          exact ⟨Parts, Orders, Fs, outs, rfl, rfl, rfl, hc, (Except.ok.inj h).symm⟩

lemma flatWindow_plain (hT : PlainTable T N) (h : flatWindow m op T = .ok R) : PlainTable R N := by
  by_cases hempty : N = 0 ∨ op.funcs = []
  · rw [flatWindow_idle hT hempty] at h
    obtain rfl := Except.ok.inj h
    exact hT
  · obtain ⟨hN, hfuncs⟩ := not_or.mp hempty
    obtain ⟨_, _, _, outs, -, -, -, -, rfl⟩ := flatWindow_inv hT hN hfuncs h
    have hresult : ∀ c ∈ outs.zipIdx.map (fun out => (winName out.2, AnyCol.result ((range N).map out.1))),
        c.2.isParted = false ∧ c.2.len = N := by
      intro c hc
      obtain ⟨out, _, rfl⟩ := mem_map.mp hc
      exact ⟨rfl, by rw [AnyCol.len, length_map, length_range]⟩
    refine ⟨fun c hc => ?_, fun c hc => ?_, fun hnil => hT.columns (append_eq_nil_iff.mp hnil).1⟩
    · exact (mem_append.mp hc).elim (hT.plain c) fun hc => (hresult c hc).1
    · exact (mem_append.mp hc).elim (hT.length c) fun hc => (hresult c hc).2

omit [LinearOrder γ] in
lemma firstParted_plain (hT : PlainTable T N) : firstParted T = [] := by
  rw [firstParted, findSome?_eq_none_iff.mpr]
  · rfl
  · intro c hc
    have hplain := hT.plain c hc
    cases hcol : c.2 with
    | parted segs =>
      rw [hcol] at hplain
      exact absurd hplain.symm Bool.false_ne_true
    | _ => rfl

lemma execWindow_plain (hT : PlainTable T N) (hfr : op.frame.supported = true) (depth : ℕ) :
    execWindow m (depth + 1) op T = flatWindow m op T := by
  have hany : T.any (·.2.isParted) = false := by
    rw [List.any_eq_false]
    intro c hc
    rw [hT.plain c hc]
    exact Bool.false_ne_true
  rw [execWindow, if_neg (by rw [hfr]; exact Bool.noConfusion), firstParted_plain hT, if_neg (by simp), hany,
    if_neg Bool.false_ne_true]

omit [LinearOrder γ] in
lemma Concatenates.find {keys : Column} (h : Concatenates tbl T sizes)
    (hkeys : (tbl.find? (·.1 = name)).map Prod.snd = some (.mapcommon keys)) :
    ∃ C, resolve T (.scan name) = .ok C ∧ Joined (γ := γ) sizes (.mapcommon keys) (.vec C) := by
  have hfind : ∃ C, (T.find? (·.1 = name)).map Prod.snd = some (.vec C) ∧
      Joined (γ := γ) sizes (.mapcommon keys) (.vec C) := by
    have hcols := h.columns
    clear h
    induction hcols with
    | nil => cases hkeys
    | @cons c d tbl T hd _ ih =>
      by_cases hc : c.1 = name
      · rw [find?_cons_of_pos (by simpa using hc)] at hkeys
        rw [find?_cons_of_pos (by simpa using hd.1.trans hc)]
        have hcol : c.2 = .mapcommon keys := some.inj hkeys
        have hjoined := hd.2
        rw [hcol] at hjoined
        obtain ⟨name', col⟩ := d
        cases hjoined with
        | @mapcommon _ C ht hlen hcells => exact ⟨C, rfl, .mapcommon ht hlen hcells⟩
      · rw [find?_cons_of_neg (by simpa using hc)] at hkeys
        rw [find?_cons_of_neg (by simpa using hd.1 ▸ hc)]
        exact ih hkeys
  obtain ⟨C, hC, hjoined⟩ := hfind
  refine ⟨C, ?_, hjoined⟩
  rw [resolve, hC]

omit [LinearOrder γ] in
lemma eligible_of_find {keys : Column} (hname : Input.scan name ∈ op.partKeys)
    (hkeys : (tbl.find? (·.1 = name)).map Prod.snd = some (.mapcommon keys)) : eligible op tbl = true := by
  rw [eligible, List.any_eq_true]
  refine ⟨_, hname, ?_⟩
  dsimp only
  rw [hkeys]

omit [LinearOrder γ] in
lemma resultMerge_length {accum part merged : Table γ} (h : resultMerge accum part = .ok merged) :
    merged.length = accum.length ∧ accum.length ≤ part.length := by
  rw [resultMerge] at h
  have hrel := forall₂_of_mapM h
  have hlen := hrel.length_eq
  rw [length_zipIdx] at hlen
  refine ⟨hlen.symm, ?_⟩
  by_contra hlt
  have hget := (forall₂_iff_get.mp hrel).2 part.length (by rw [length_zipIdx]; omega) (by omega)
  rw [get_eq_getElem, getElem_zipIdx, Nat.zero_add, getElem?_eq_none le_rfl] at hget
  cases hget

omit [LinearOrder γ] in
lemma mergeStep_eq_ok {f : Table γ → Except WinError (Table γ)} (h : Concatenates tbl T sizes)
    (hs : s < sizes.length) {merged out : Option (Table γ)} (hout : mergeStep f tbl merged s = .ok out) :
    ∃ part M, f (sliceTable (offset sizes s) (sizes.getD s 0) T) = .ok part ∧ out = some M ∧
      M.length ≤ part.length ∧
      ∀ m, merged = some m → M.length = m.length := by
  rw [mergeStep, h.segment hs] at hout
  simp only [bind, Except.bind] at hout
  cases hf : f (sliceTable (offset sizes s) (sizes.getD s 0) T) with
  | error e =>
    rw [hf] at hout
    cases hout
  | ok part =>
    rw [hf] at hout
    cases merged with
    | none =>
      obtain rfl := Except.ok.inj hout
      exact ⟨part, part, rfl, rfl, le_rfl, fun m hm => absurd hm.symm (some_ne_none m)⟩
    | some m =>
      dsimp only [elim_some] at hout
      cases hM : resultMerge m part with
      | error e =>
        rw [hM] at hout
        cases hout
      | ok M =>
        rw [hM] at hout
        obtain rfl := Except.ok.inj hout
        obtain ⟨hlen, hle⟩ := resultMerge_length hM
        refine ⟨part, M, rfl, rfl, by omega, fun m' hm' => ?_⟩
        obtain rfl := some.inj hm'
        exact hlen

omit [LinearOrder γ] in
lemma mergeSegments_length {f : Table γ → Except WinError (Table γ)} (h : Concatenates tbl T sizes)
    (hM : mergeSegments f tbl = .ok R)
    (hs : s < sizes.length) : ∃ part, f (sliceTable (offset sizes s) (sizes.getD s 0) T) = .ok part ∧
      R.length ≤ part.length := by
  have hlen : (firstParted tbl).length = sizes.length := by rw [← h.rows, length_map]
  have hstep : ∀ k ≤ sizes.length, ∀ merged, (range k).foldlM (mergeStep f tbl) none = .ok merged → ∀ s < k,
      ∃ M part, merged = some M ∧ f (sliceTable (offset sizes s) (sizes.getD s 0) T) = .ok part ∧
        M.length ≤ part.length := by
    intro k hk
    induction k with
    | zero => exact fun _ _ s hs => absurd hs (Nat.not_lt_zero s)
    | succ k ih =>
      intro out hfold s hs
      rw [range_succ, foldlM_append] at hfold
      cases hmerged : (range k).foldlM (mergeStep f tbl) none with
      | error e =>
        rw [hmerged] at hfold
        cases hfold
      | ok merged =>
        rw [hmerged] at hfold
        simp only [bind, Except.bind, foldlM_cons, foldlM_nil] at hfold
        cases hout : mergeStep f tbl merged k with
        | error e =>
          rw [hout] at hfold
          cases hfold
        | ok out' =>
          rw [hout] at hfold
          obtain rfl := Except.ok.inj hfold
          obtain ⟨part, M, hpart, rfl, hle, hsame⟩ := mergeStep_eq_ok h (by omega) hout
          rcases Nat.lt_succ_iff_lt_or_eq.mp hs with hlt | rfl
          · obtain ⟨m, part', rfl, hpart', hle'⟩ := ih (by omega) merged hmerged s hlt
            exact ⟨M, part', rfl, hpart', hsame m rfl ▸ hle'⟩
          · exact ⟨M, part, rfl, hpart, hle⟩
  rw [mergeSegments, hlen] at hM
  cases hmerged : (range sizes.length).foldlM (mergeStep f tbl) none with
  | error e =>
    rw [hmerged] at hM
    cases hM
  | ok merged =>
    rw [hmerged] at hM
    obtain ⟨M, part, rfl, hpart, hle⟩ := hstep _ le_rfl merged hmerged s hs
    obtain rfl := Except.ok.inj hM
    exact ⟨part, hpart, hle⟩

omit [LinearOrder γ] in
lemma resolveFunc_kind {f : Kind × Option (Input γ)} {F : Func γ} (hF : resolveFunc m T f = .ok F) :
    ∃ C, F = f.1.func m C := by
  obtain ⟨kind, input⟩ := f
  cases input with
  | none =>
    obtain rfl := Except.ok.inj hF
    exact ⟨none, rfl⟩
  | some input =>
    rw [resolveFunc, elim_some] at hF
    cases hC : resolve T input with
    | error e =>
      rw [hC] at hF
      cases hF
    | ok C =>
      rw [hC] at hF
      obtain rfl := Except.ok.inj hF
      exact ⟨some C, rfl⟩

lemma flatWindow_ok (hT : PlainTable T sizes.sum) (h : Even m op T sizes) (hN : sizes.sum ≠ 0)
    (hlt : sizes.sum < 2 ^ 63)
    (hfr : op.frame.supported = true) (hfuncs : op.funcs ≠ [])
    (hres : ∀ input ∈ op.inputs, ∃ C, resolve T input = .ok C) :
    ∃ R, flatWindow m op T = .ok R ∧ T.length < R.length := by
  obtain ⟨Parts, hP⟩ := exists_mapM_ok fun key (hkey : key ∈ op.partKeys) =>
    hres key (mem_append_left _ (mem_append_left _ hkey))
  obtain ⟨Orders, hO⟩ : ∃ Orders, op.orderKeys.mapM (fun k => (resolve T k.1).map (·, k.2)) = .ok Orders := by
    refine exists_mapM_ok fun k hk => ?_
    obtain ⟨C, hC⟩ := hres k.1 (mem_append_left _ (mem_append_right _ (mem_map_of_mem hk)))
    exact ⟨(C, k.2), by rw [hC]; rfl⟩
  obtain ⟨Fs, hF⟩ : ∃ Fs, op.funcs.mapM (resolveFunc m T) = .ok Fs := by
    refine exists_mapM_ok fun f hf => ?_
    obtain ⟨kind, input⟩ := f
    cases input with
    | none => exact ⟨_, rfl⟩
    | some input =>
      obtain ⟨C, hC⟩ := hres input (mem_append_right _ (mem_filterMap.mpr ⟨_, hf, rfl⟩))
      exact ⟨kind.func m (some C), by rw [resolveFunc, elim_some, hC]; rfl⟩
  obtain ⟨hk, hroom⟩ := h.keys hres Parts Orders hP hO
  have hfits : ∀ F ∈ Fs, Fitting op.frame (groups (tableLe m sizes Parts Orders) Parts sizes.sum) F := by
    intro F hmem
    obtain ⟨f, hf, hF'⟩ := exists_of_mapM hF hmem
    obtain ⟨C, rfl⟩ := resolveFunc_kind hF'
    exact hroom.fitting (mem_map_of_mem hf) C
  obtain ⟨outs, houts, hdone⟩ := compute_spec hlt hfr hfits fun hpool => groups_length_le (hk.count hpool)
  refine ⟨T ++ outs.zipIdx.map fun out => (winName out.2, .result ((range sizes.sum).map out.1)), ?_, ?_⟩
  · rw [flatWindow, hT.rows, if_neg (not_or.mpr ⟨hN, hfuncs⟩), hP, hO, hF]
    simp only [bind, Except.bind, houts]
  · have hlen : outs.length = op.funcs.length := by
      rw [← hdone.length_eq, (forall₂_of_mapM hF).length_eq]
    have hpos := length_pos_iff.mpr hfuncs
    rw [length_append, length_map, length_zipIdx, hlen]
    omega

lemma resolve_of_flatWindow (hT : PlainTable T N) (hN : N ≠ 0) (hfuncs : op.funcs ≠ [])
    (h : flatWindow m op T = .ok R) :
    ∀ input ∈ op.inputs, ∃ C, resolve T input = .ok C := by
  obtain ⟨Parts, Orders, Fs, outs, hP, hO, hF, -, -⟩ := flatWindow_inv hT hN hfuncs h
  exact resolved hP hO hF

end

section

variable [LinearOrder γ] {m : Machine γ} {op : Op γ} {sizes : List ℕ} {C : Column} {s : ℕ}

def RoutesAgree (m : Machine γ) (op : Op γ) (tbl T : Table γ) : Prop :=
  ∀ depth, execWindow m (depth + 2) op tbl = execWindow m 1 op T ∧
    mergeSegments (execWindow m (depth + 1) op) tbl = execWindow m 1 op T ∧
    (mergeSegments .ok tbl).bind (execWindow m (depth + 1) op) = execWindow m 1 op T

lemma execWindow_unsupported (hfr : op.frame.supported = false) (depth : ℕ) (tbl : Table γ) :
    execWindow m (depth + 1) op tbl = .error .nyi := by
  rw [execWindow, if_pos hfr]

lemma flatWindow_empty (hT : PlainTable T sizes.sum) (hs : s < sizes.length) (hzero : sizes.getD s 0 = 0) :
    flatWindow m op (sliceTable (offset sizes s) (sizes.getD s 0) T) =
      .ok (sliceTable (offset sizes s) (sizes.getD s 0) T) :=
  flatWindow_idle (sliceTable_plain hT (offset_le hs)) (Or.inl hzero)

section

variable (htbl : Concatenates tbl T sizes) (hT : PlainTable T sizes.sum)
include htbl hT

lemma merge_idle (hne : sizes ≠ []) (hidle : sizes.sum = 0 ∨ op.funcs = []) :
    mergeSegments (flatWindow m op) tbl = flatWindow m op T := by
  rw [flatWindow_idle hT hidle]
  refine mergeSegments_ok htbl hne hT fun s hs =>
    flatWindow_idle (sliceTable_plain hT (offset_le hs)) (hidle.imp (fun hsum => ?_) id)
  have hle := offset_le hs
  omega

variable (hlt : sizes.sum < 2 ^ 63) (h : Even m op T sizes) (hfr : op.frame.supported = true)
include hlt h hfr

lemma merge_even (hne : sizes ≠ []) (hrows : ∀ s < sizes.length, 0 < sizes.getD s 0) :
    mergeSegments (flatWindow m op) tbl = flatWindow m op T := by
  have hslice : ∀ s < sizes.length, flatWindow m op (sliceTable (offset sizes s) (sizes.getD s 0) T) =
      (flatWindow m op T).map (sliceTable (offset sizes s) (sizes.getD s 0)) :=
    fun s hs => flatWindow_slice hT h hs hlt hfr (hrows s hs)
  cases hR : flatWindow m op T with
  | ok R => exact mergeSegments_ok htbl hne (flatWindow_plain hT hR) fun s hs => by rw [hslice s hs, hR]; rfl
  | error e =>
    have hs : 0 < sizes.length := length_pos_iff.mpr hne
    exact mergeSegments_error htbl hT.plain hs (fun t ht => absurd ht (Nat.not_lt_zero t))
      (by rw [hslice 0 hs, hR]; rfl)

lemma merge_missing (hfuncs : op.funcs ≠ []) (hsum : sizes.sum ≠ 0)
    (hmissing : ∃ input ∈ op.inputs, ∀ C, resolve T input ≠ .ok C) :
    mergeSegments (flatWindow m op) tbl = flatWindow m op T := by
  cases hR : flatWindow m op T with
  | ok R =>
    obtain ⟨input, hin, hno⟩ := hmissing
    obtain ⟨C, hC⟩ := resolve_of_flatWindow hT hsum hfuncs hR input hin
    exact absurd hC (hno C)
  | error e =>
    have hexists := exists_pos hsum
    obtain ⟨hs, hpos⟩ := Nat.find_spec hexists
    refine mergeSegments_error htbl hT.plain hs (fun t ht => flatWindow_empty hT (ht.trans hs) ?_) ?_
    · have := Nat.find_min hexists ht
      have hlen := ht.trans hs
      omega
    · rw [flatWindow_slice hT h hs hlt hfr hpos, hR]
      rfl

lemma merge_ne (hfuncs : op.funcs ≠ []) (hzero : 0 ∈ sizes) (hsum : sizes.sum ≠ 0)
    (hres : ∀ input ∈ op.inputs, ∃ C, resolve T input = .ok C) :
      mergeSegments (flatWindow m op) tbl ≠ flatWindow m op T := by
  obtain ⟨R, hR, hcols⟩ := flatWindow_ok hT h hsum hlt hfr hfuncs hres
  intro hmerge
  obtain ⟨s, hs, hzero⟩ := getElem_of_mem hzero
  have hzero' : sizes.getD s 0 = 0 := by rw [getD_eq_getElem _ _ hs, hzero]
  obtain ⟨part, hpart, hle⟩ := mergeSegments_length htbl (hmerge.trans hR) hs
  rw [flatWindow_empty hT hs hzero'] at hpart
  obtain rfl := Except.ok.inj hpart
  rw [sliceTable, length_map] at hle
  omega

end

end

/-- There is nothing to compute. -/
def Idle (op : Op γ) (sizes : List ℕ) : Prop := op.frame.supported = false ∨ op.funcs = [] ∨ ∀ n ∈ sizes, n = 0

def i64s (vs : List ℤ) (h : ∀ v ∈ vs, -2 ^ 63 ≤ v ∧ v < 2 ^ 63) : Column :=
  ⟨.i64, vs.map .int, fun v hv => by
    obtain ⟨x, hx, rfl⟩ := List.mem_map.mp hv
    exact decide_eq_true (h x hx)⟩

def oneWorker : Machine ℤ := ⟨false, fun _ => none, fun _ => 0, fun _ => 0, id, fun _ => 0⟩

def numbered : Op ℤ := ⟨wholeFrame, [.scan [100]], [(.scan [120], false)],
  [(.rowNumber, none), (.sum, some (.scan [120]))]⟩

def twoDays (xs ys : Column) : Table ℤ :=
  [([100], .mapcommon (i64s [1, 2] (by decide))), ([120], .parted [xs, ys])]

def plainDays (days xs : Column) : Table ℤ := [([100], .vec days), ([120], .vec xs)]

end Rayforce.Window
