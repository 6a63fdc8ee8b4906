import Rayforce.Index.Answers

namespace Rayforce.Index

open Rayforce.Exec (CmpOp)
open Library.Segments Library.Bisect List Option
open Rayforce.Selection

variable {v : Vec} {set : Column} {key : ℤ}
variable {op : CmpOp} {sel : Rowsel} {c : ℤ} {ids : List ℕ} {f : ℕ → ℤ} {i j : ℕ}

lemma opSpan_spec {lower upper n lo hi : ℕ} (hl : ∀ i < n, i < lower ↔ f i < key)
    (hu : ∀ i < n, i < upper ↔ f i ≤ key) (hln : lower ≤ n) (hun : upper ≤ n)
    (h : opSpan op lower upper n = some (lo, hi)) :
    hi ≤ n ∧ ∀ i < n, (lo ≤ i ∧ i < hi) ↔ cmpPlain op (f i) key = true := by
  cases op <;> simp only [opSpan, some.injEq, Prod.mk.injEq, reduceCtorEq] at h <;> obtain ⟨rfl, rfl⟩ := h <;>
    refine ⟨by omega, fun i hi => ?_⟩ <;> simp only [cmpPlain, decide_eq_true_eq] <;>
    have hl := hl i hi <;> have hu := hu i hi <;> omega

lemma bisect_lower {n lo : ℕ} (hmono : ∀ i j, i ≤ j → j < n → f i ≤ f j) (hlo : lo ≤ n)
    (p : ℤ → Bool) (hp : ∀ a b, a ≤ b → p b = true → p a = true) (hbelow : ∀ i < lo, p (f i) = true) :
    bisect (fun i => p (f i)) n lo n ≤ n ∧ ∀ i < n, i < bisect (fun i => p (f i)) n lo n ↔ p (f i) = true := by
  obtain ⟨h1, h2, h3, h4⟩ := @bisect_spec (fun i => p (f i)) n lo n
    (fun i j _ hij hj hb => hp _ _ (hmono i j hij hj) hb) hlo (by omega)
  refine ⟨h2, fun i hi => ⟨fun hlt => ?_, fun hb => ?_⟩⟩
  · obtain hlt' | hge := Nat.lt_or_ge i lo
    · exact hbelow i hlt'
    · exact h3 i hge hlt
  · by_contra hge
    have := h4 i (Nat.le_of_not_lt hge) hi
    simp only [hb] at this
    cases this

section

variable {col : Column} {perm : List ℕ} (hperm : perm.Perm (List.range col.len)) (hsorted : SortedBy col perm)

include hperm

lemma perm_length : perm.length = col.len := by simpa using hperm.length_eq

lemma getD_perm_lt {i : ℕ} (hi : i < col.len) : perm.getD i 0 < col.len := by
  rw [getD_eq_getElem _ _ (by rwa [perm_length hperm])]
  exact mem_range.mp (hperm.subset (getElem_mem _))

lemma exists_position_in_perm {r : ℕ} (hr : r < col.len) : ∃ i < col.len, perm.getD i 0 = r := by
  obtain ⟨i, hi, rfl⟩ := mem_iff_getElem.mp (hperm.symm.subset (mem_range.mpr hr))
  exact ⟨i, by rwa [perm_length hperm] at hi, getD_eq_getElem _ _ hi⟩

include hsorted

lemma sorted_at (hij : i < j) (hj : j < col.len) : col.cell (perm.getD i 0) < col.cell (perm.getD j 0)
      ∨ col.cell (perm.getD i 0) = col.cell (perm.getD j 0) ∧ perm.getD i 0 < perm.getD j 0 := by
  have hlen := perm_length hperm
  rw [getD_eq_getElem _ _ (by omega), getD_eq_getElem _ _ (by omega)]
  exact pairwise_iff_getElem.mp hsorted i j (by omega) (by omega) hij

lemma sorted_mono (hij : i ≤ j) (hj : j < col.len) : col.cell (perm.getD i 0) ≤ col.cell (perm.getD j 0) := by
  rcases hij.eq_or_lt with rfl | hlt
  · exact le_rfl
  · rcases sorted_at hperm hsorted hlt hj with h | h
    · exact h.le
    · exact h.1.le

end

lemma mem_scanRows_nonull {col : Column} (hn : col.hasNulls = false) (hkey : nullI64 ≤ key) {r : ℕ} :
    r ∈ scanRows col op key ↔ r < col.len ∧ cmpPlain op (col.cell r) key = true := by
  rw [scanRows_of_not_hasNulls hn hkey, mem_filter, mem_range]

lemma rows_range (h : Carries v.col v) (hkey : nullI64 ≤ key)
    (hs : rayIndexRangeRowsel v op key = some sel) : rows v.col.len (some sel) = scanRows v.col op key := by
  simp only [rayIndexRangeRowsel] at hs
  split at hs
  case h_2 => cases hs
  case h_1 perm hi =>
    obtain ⟨hn, hi⟩ := idxFresh_of_nonull hi
    have hp : perm.Perm (range v.col.len) := h.sort_eq hi ▸ raySortIndices_perm v.col
    have hsorted : SortedBy v.col perm := h.sort_eq hi ▸ raySortIndices_sorted hn
    obtain ⟨⟨lo, hi⟩, hspan, hs⟩ := bind_eq_some_iff.mp hs
    have hmono : ∀ i j, i ≤ j → j < v.col.len → v.col.cell (perm.getD i 0) ≤ v.col.cell (perm.getD j 0) :=
      fun i j => sorted_mono hp hsorted
    obtain ⟨hl1, hl2⟩ := bisect_lower hmono (Nat.zero_le _) (fun c => decide (c < key))
      (fun a b hab hb => by simp only [decide_eq_true_eq] at hb ⊢; exact hab.trans_lt hb) (by simp)
    obtain ⟨hu1, hu2⟩ := bisect_lower hmono (Nat.zero_le _) (fun c => decide (c ≤ key))
      (fun a b hab hb => by simp only [decide_eq_true_eq] at hb ⊢; exact hab.trans hb) (by simp)
    obtain ⟨hhi, hin⟩ := opSpan_spec (by simpa using hl2) (by simpa using hu2) hl1 hu1 hspan
    have hnodup : (slice perm lo hi).Nodup :=
      (hp.nodup_iff.mpr nodup_range).sublist ((take_sublist _ _).trans (drop_sublist _ _))
    have hmem : ∀ r, r ∈ slice perm lo hi ↔ r ∈ scanRows v.col op key := by
      intro r
      rw [mem_scanRows_nonull hn hkey, slice, mem_iff_getElem]
      have hlen := perm_length hp
      constructor
      · rintro ⟨k, hk, rfl⟩
        have hbound := hk
        rw [length_take, length_drop] at hbound
        rw [getElem_take, getElem_drop, ← getD_eq_getElem perm 0]
        exact ⟨getD_perm_lt hp (by omega), (hin _ (by omega)).mp ⟨by omega, by omega⟩⟩
      · rintro ⟨hr, hc⟩
        obtain ⟨i, hi', rfl⟩ := exists_position_in_perm hp hr
        obtain ⟨h1, h2⟩ := (hin i hi').mpr hc
        refine ⟨i - lo, by rw [length_take, length_drop]; omega, ?_⟩
        rw [getElem_take, getElem_drop, getD_eq_getElem _ _ (by omega)]
        congr 1
        omega
    have hids : sortIds (slice perm lo hi) = scanRows v.col op key := by
      apply List.Pairwise.eq_of_mem_iff (sortIds_ascending hnodup) (scanRows_ascending _ _ _)
      intro r
      rw [mem_sortIds, hmem]
    have hlt : ∀ r ∈ scanRows v.col op key, r < v.col.len := fun r hr => ((mem_scanRows_nonull hn hkey).mp hr).1
    dsimp only at hs
    split_ifs at hs with hle
    · have hnil : slice perm lo hi = [] := by rw [slice, Nat.sub_eq_zero_of_le hle, take_zero]
      rw [← hids, hnil, sortIds, mergeSort_nil]
      exact rows_rowselFromSortedIds v.col.short List.Pairwise.nil (by simp) hs
    · rw [hids] at hs
      exact rows_rowselFromSortedIds v.col.short (scanRows_ascending _ _ _) hlt hs

lemma rows_sortedRange (h : Carries v.col v) (hkey : nullI64 ≤ key)
    (hs : raySortedRangeRowsel v op key = some sel) : rows v.col.len (some sel) = scanRows v.col op key := by
  simp only [raySortedRangeRowsel] at hs
  split_ifs at hs with hbad
  simp only [not_or, Bool.not_eq_true, Bool.not_eq_false'] at hbad
  obtain ⟨hmark, hn, hsym⟩ := hbad
  obtain ⟨-, hasc⟩ := h.ascending hmark
  obtain ⟨⟨lo, hi⟩, hspan, hs⟩ := bind_eq_some_iff.mp hs
  have hmono : ∀ i j, i ≤ j → j < v.col.len → v.col.cell i ≤ v.col.cell j :=
    fun i j => ascending_of_vecIsAscending hasc
  obtain ⟨hl1, hl2⟩ := bisect_lower hmono (Nat.zero_le _) (fun c => decide (c < key))
    (fun a b hab hb => by simp only [decide_eq_true_eq] at hb ⊢; exact hab.trans_lt hb) (by simp)
  obtain ⟨hu1, hu2⟩ := bisect_lower hmono hl1 (fun c => decide (c ≤ key))
    (fun a b hab hb => by simp only [decide_eq_true_eq] at hb ⊢; exact hab.trans hb)
    (fun i hi => by
      have := (hl2 i (hi.trans_le hl1)).mp hi
      simp only [decide_eq_true_eq] at this ⊢
      exact this.le)
  obtain ⟨hhi, hin⟩ := opSpan_spec (by simpa using hl2) (by simpa using hu2) hl1 hu1 hspan
  refine (rows_rowselFromContiguousSpan v.col.short hs).2.trans ?_
  apply List.Pairwise.eq_of_mem_iff pairwise_lt_range' (scanRows_ascending _ _ _)
  intro r
  rw [mem_scanRows_nonull hn hkey, mem_range'_1]
  constructor
  · rintro ⟨h1, h2⟩
    exact ⟨by omega, (hin r (by omega)).mp ⟨h1, by omega⟩⟩
  · rintro ⟨hr, hc⟩
    have := (hin r hr).mpr hc
    omega

lemma zoneClassify_spec {mn mx c : ℤ} (h1 : mn ≤ c) (h2 : c ≤ mx) :
    (zoneClassify op mn mx key = .all → cmpPlain op c key = true) ∧
      (zoneClassify op mn mx key = .none → cmpPlain op c key = false) := by
  cases op <;> simp only [zoneClassify, cmpPlain, decide_eq_true_eq, decide_eq_false_iff_not] <;> split_ifs <;>
    simp only [false_implies, true_and, and_true, forall_const] <;> omega

lemma zone_spec (h : Carries v.col v) (hkey : nullI64 ≤ key) (op : CmpOp) (hc : c ∈ v.col.cells) :
    (rayIndexZoneClass v op key = .all → scanCell v.col op key c = true) ∧
      (rayIndexZoneClass v op key = .none → scanCell v.col op key c = false) := by
  simp only [rayIndexZoneClass]
  split
  case h_2 => simp
  case h_1 z hi =>
    obtain ⟨hn, hi⟩ := idxFresh_of_nonull hi
    rw [scanCell_eq hkey hc, lane_of_not_hasNulls hn, h.zone_eq hi]
    obtain ⟨h1, h2⟩ := zoneScan_bounds hc (Column.nullCell_of_not_hasNulls hn c)
    split_ifs
    · simp
    · exact zoneClassify_spec h1 h2

lemma bloom_spec (h : Carries v.col v) (hkey : nullI64 ≤ key) (hc : c ∈ v.col.cells)
    (ha : rayIndexBloomAbsent v key = true) : scanCell v.col .eq key c = false := by
  simp only [rayIndexBloomAbsent] at ha
  split at ha
  case h_2 => cases ha
  case h_1 ix hi =>
    obtain ⟨hn, hi⟩ := idxFresh_of_nonull hi
    obtain ⟨hsym, rfl⟩ := h.bloom_eq hi
    obtain ⟨kk, hkk, hbit⟩ := any_eq_true.mp ha
    rw [scanCell_eq hkey hc, lane_of_not_hasNulls hn, cmpPlain, decide_eq_false_iff_not]
    rintro rfl
    have hword : hashKeyBits v.col.type c = c := by
      have := probeWord_of_inRange (Column.inRange_of_mem hc)
      rwa [probeWord, if_neg hsym] at this
    rw [hword, bloomScan_bits hc (Column.nullCell_of_not_hasNulls hn c) (mem_range.mp hkk)] at hbit
    cases hbit

lemma findRow_spec (h : Carries v.col v) : rayIndexFindRow v key = -2 ∨ rayIndexFindRow v key = -1 ∧
    scanFind v.col key = none ∨
      ∃ r : ℕ, rayIndexFindRow v key = r ∧ scanFind v.col key = some r := by
  have hhead : scanFind v.col key = (keyRows v.col key).head? := by
    rw [scanFind, keyRows, head?_filter]
  simp only [rayIndexFindRow]
  split
  case h_2 => exact .inl rfl
  case h_1 ix hi =>
    obtain ⟨-, hi⟩ := idxFresh_of_nonull hi
    have hok := h.hashOk hi
    by_cases hr : hashKeyInRange v.col.type key = true
    · obtain ⟨g, hg, hgn⟩ := hok.probe key
      rw [hashProbeSetup_eq hi hr, hg, hr]
      cases g with
      | none => exact .inr (.inl ⟨rfl, by rw [hhead, hgn.mp rfl]; rfl⟩)
      | some g => exact .inr (.inr ⟨_, rfl, hhead.trans (hok.first key g hg)⟩)
    · rw [Bool.eq_false_of_not_eq_true hr]
      refine .inr (.inl ⟨rfl, ?_⟩)
      rw [hhead, head?_eq_none_iff, ← not_ne_iff, keyRows_ne_nil]
      exact fun hk => hr (Column.inRange_of_mem hk.1)

section

structure FirstOccurrences (col : Column) (ids : List ℕ) : Prop where
  ascending : ids.Pairwise fun a b => col.cell a < col.cell b
  inside : ∀ i ∈ ids, i < col.len
  first : ∀ i ∈ ids, ∀ r < i, col.cell r ≠ col.cell i
  cover : ∀ r < col.len, ∃ i ∈ ids, col.cell i = col.cell r

variable {col : Column} {perm : List ℕ}

structure Distinct (col : Column) (perm : List ℕ) (k : ℕ) (ids : List ℕ) : Prop where
  ascending : ids.Pairwise fun a b => col.cell a < col.cell b
  below : ∀ i ∈ ids, col.cell i ≤ col.cell (perm.getD k 0)
  start : ∀ i ∈ ids, ∃ j ≤ k, perm.getD j 0 = i ∧ ∀ j' < j, col.cell (perm.getD j' 0) < col.cell i
  cover : ∀ j ≤ k, ∃ i ∈ ids, col.cell i = col.cell (perm.getD j 0)

lemma Distinct.step {k : ℕ} (h : Distinct col perm k ids)
    (hmono : ∀ i j, i ≤ j → j ≤ k + 1 → col.cell (perm.getD i 0) ≤ col.cell (perm.getD j 0)) :
    Distinct col perm (k + 1) (distinctStep col perm ids k) := by
  have hnext := hmono k (k + 1) (Nat.le_succ k) le_rfl
  rw [distinctStep]
  split_ifs with hne
  · have hlt : col.cell (perm.getD k 0) < col.cell (perm.getD (k + 1) 0) := lt_of_le_of_ne hnext (Ne.symm hne)
    refine ⟨?_, fun i hi => ?_, fun i hi => ?_, fun j hj => ?_⟩
    · refine pairwise_append.mpr ⟨h.ascending, pairwise_singleton _ _, fun a ha b hb => ?_⟩
      rw [mem_singleton.mp hb]
      exact (h.below a ha).trans_lt hlt
    · rcases mem_append.mp hi with hi | hi
      · exact (h.below i hi).trans hnext
      · rw [mem_singleton.mp hi]
    · rcases mem_append.mp hi with hi | hi
      · obtain ⟨j, hj, he, hb⟩ := h.start i hi
        exact ⟨j, by omega, he, hb⟩
      · rw [mem_singleton.mp hi]
        exact ⟨k + 1, le_rfl, rfl, fun j' hj' => (hmono j' k (by omega) (by omega)).trans_lt hlt⟩
    · rcases Nat.lt_or_eq_of_le hj with hlt' | rfl
      · obtain ⟨i, hi, he⟩ := h.cover j (by omega)
        exact ⟨i, mem_append_left _ hi, he⟩
      · exact ⟨_, mem_append_right _ mem_cons_self, rfl⟩
  · rw [not_ne_iff] at hne
    refine ⟨h.ascending, fun i hi => (h.below i hi).trans hnext, fun i hi => ?_, fun j hj => ?_⟩
    · obtain ⟨j, hj, he, hb⟩ := h.start i hi
      exact ⟨j, by omega, he, hb⟩
    · rcases Nat.lt_or_eq_of_le hj with hlt | rfl
      · exact h.cover j (by omega)
      · rw [hne]
        exact h.cover k le_rfl

lemma distinct_run {k : ℕ} (hmono : ∀ i j, i ≤ j → j ≤ k → col.cell (perm.getD i 0) ≤ col.cell (perm.getD j 0)) :
    Distinct col perm k ((List.range k).foldl (distinctStep col perm) [perm.getD 0 0]) := by
  induction k with
  | zero =>
    refine ⟨pairwise_singleton _ _, fun i hi => ?_, fun i hi => ?_, fun j hj => ?_⟩
    · rw [mem_singleton.mp hi]
    · rw [mem_singleton.mp hi]
      exact ⟨0, le_rfl, rfl, fun j' hj' => absurd hj' (Nat.not_lt_zero _)⟩
    · obtain rfl : j = 0 := by omega
      exact ⟨_, mem_cons_self, rfl⟩
  | succ k ih =>
    rw [range_succ, foldl_append]
    exact (ih fun i j hij hj => hmono i j hij (by omega)).step hmono

lemma distinctIds_spec (h : Carries v.col v) (hd : rayIndexDistinctIds v = some ids) :
    FirstOccurrences v.col ids := by
  simp only [rayIndexDistinctIds] at hd
  split at hd
  case h_2 => cases hd
  case h_1 perm hi =>
    obtain ⟨hn, hi⟩ := idxFresh_of_nonull hi
    have hp : perm.Perm (range v.col.len) := h.sort_eq hi ▸ raySortIndices_perm v.col
    have hsorted : SortedBy v.col perm := h.sort_eq hi ▸ raySortIndices_sorted hn
    have hlen := perm_length hp
    split_ifs at hd with hnil
    · rw [← some.inj hd]
      rw [hnil, length_nil] at hlen
      exact ⟨List.Pairwise.nil, by simp, by simp, by omega⟩
    · rw [← some.inj hd]
      have hpos := length_pos_iff.mpr hnil
      obtain ⟨hasc, -, hstart, hcover⟩ := @distinct_run v.col perm (perm.length - 1)
        fun i j hij hj => sorted_mono hp hsorted hij (by omega)
      refine ⟨hasc, fun i hi' => ?_, fun i hi' r hr he => ?_, fun r hr => ?_⟩
      · obtain ⟨j, hj, rfl, -⟩ := hstart i hi'
        exact getD_perm_lt hp (by omega)
      · obtain ⟨j, hj, rfl, hbefore⟩ := hstart i hi'
        have hbound := getD_perm_lt hp (show j < v.col.len by omega)
        obtain ⟨j', hj', rfl⟩ := exists_position_in_perm hp (hr.trans hbound)
        rcases lt_trichotomy j' j with hlt | rfl | hgt
        · exact absurd (hbefore j' hlt) (by omega)
        · exact lt_irrefl _ hr
        · rcases sorted_at hp hsorted hgt hj' with hc | ⟨-, hc⟩ <;> omega
      · obtain ⟨j, hj, rfl⟩ := exists_position_in_perm hp hr
        exact hcover j (by omega)

end

/-- Every consult of a vector declines or answers as the scan does. -/
structure ConsultsExact (v : Vec) (op : CmpOp) (key : ℤ) (set : Column) : Prop where
  hashEq : ∀ sel, rayIndexHashEqRowsel v key = some sel → rows v.col.len (some sel) = scanRows v.col .eq key
  partEq : ∀ sel, rayIndexPartEqRowsel v key = some sel → rows v.col.len (some sel) = scanRows v.col .eq key
  isIn : ∀ sel, rayIndexInRowsel v set = some sel → rows v.col.len (some sel) = scanIn v.col set
  range : ∀ sel, rayIndexRangeRowsel v op key = some sel → rows v.col.len (some sel) = scanRows v.col op key
  sortedRange : ∀ sel, raySortedRangeRowsel v op key = some sel → rows v.col.len (some sel) = scanRows v.col op key
  zone : ∀ r < v.col.len, (rayIndexZoneClass v op key = .all → scanCell v.col op key (v.col.cell r) = true) ∧
    (rayIndexZoneClass v op key = .none → scanCell v.col op key (v.col.cell r) = false)
  bloom : rayIndexBloomAbsent v key = true → ∀ r < v.col.len, scanCell v.col .eq key (v.col.cell r) = false
  findRow : rayIndexFindRow v key = -2 ∨ rayIndexFindRow v key = -1 ∧ scanFind v.col key = none ∨
    ∃ r : ℕ, rayIndexFindRow v key = r ∧ scanFind v.col key = some r
  distinct : ∀ ids, rayIndexDistinctIds v = some ids → FirstOccurrences v.col ids

def NullKey (v : Vec) (key : ℤ) : Prop :=
  (∃ ix, idxFresh v = some (.hash ix)) ∧ key = nullI64 ∧ hashKeyInRange v.col.type nullI64 = true ∧
    ∃ r < v.col.len, v.col.isNull r = true

def DenseIn (col set : Column) : Prop :=
  64 < col.cells.countP (· ∈ set.cells) ∧ col.len / 16 < col.cells.countP (· ∈ set.cells)

def NullInSet (v : Vec) (set : Column) : Prop :=
  InApplies v set ∧
    ((∃ ix, idxFresh v = some (.part ix)) ∨ (∃ ix, idxFresh v = some (.hash ix)) ∧ ¬ DenseIn v.col set) ∧
    ∃ c, NullElement v.col set c

lemma dense_iff (ha : InApplies v set) (hc : NullElement v.col set c) :
    (64 < (indexedIn v.col set).length ∧ v.col.len / 16 < (indexedIn v.col set).length) ↔ DenseIn v.col set := by
  have hs : set.type ≠ .sym := by
    intro hs
    have := hc.2.2
    simp [Column.nullCell, hs, ColType.sentinel?] at this
  have ht : v.col.type ≠ .sym := fun h => hs (ha.class_eq.mp h)
  have hcount : (indexedIn v.col set).length = v.col.cells.countP (· ∈ set.cells) := by
    rw [indexedIn, ← countP_eq_length_filter, @Column.cells_eq_map v.col, countP_map]
    apply countP_congr
    intro r hr
    simp only [Function.comp_apply, decide_eq_true_eq]
    exact mem_setKeys_numeric ht (Column.cell_mem (mem_range.mp hr))
  rw [hcount]
  rfl

lemma hashEq_exact_iff (h : Carries v.col v) (hkey : nullI64 ≤ key) :
    (∀ sel, rayIndexHashEqRowsel v key = some sel → rows v.col.len (some sel) = scanRows v.col .eq key) ↔
      ¬ NullKey v key := by
  constructor
  · rintro hexact ⟨⟨ix, hi⟩, rfl, hr, r, hlt, hnull⟩
    have hnil : keyRows v.col nullI64 = [] := by
      rw [← not_ne_iff, keyRows_ne_nil]
      rintro ⟨hm, hf⟩
      have hs : v.col.type.sentinel? = some nullI64 := by
        cases ht : v.col.type <;> simp_all [hashKeyInRange, ColType.sentinel?, nullI64]
      rw [(Column.nullCell_iff hm).mpr hs] at hf
      cases hf
    obtain ⟨sel, hsel⟩ := hashEq_answers_absent h hi hr hnil
    have he := hexact sel hsel
    rw [(rows_hashEq h hsel).2, hnil] at he
    have hmem : r ∈ scanRows v.col .eq nullI64 := (mem_scanRows_eq le_rfl).mpr (.inr ⟨hlt, rfl, hnull⟩)
    rw [← he] at hmem
    cases hmem
  · intro hno sel hs
    obtain ⟨hr, hrows⟩ := rows_hashEq h hs
    rw [hrows, scanRows_eq_keyRows hkey]
    rintro rfl r hlt
    by_contra hnull
    refine hno ⟨?_, rfl, hr, r, hlt, by simpa using hnull⟩
    simp only [rayIndexHashEqRowsel] at hs
    split at hs
    case h_1 ix hi => exact ⟨ix, hi⟩
    case h_2 => cases hs

lemma in_exact_iff (h : Carries v.col v) :
    (∀ sel, rayIndexInRowsel v set = some sel → rows v.col.len (some sel) = scanIn v.col set) ↔
      ¬ NullInSet v set := by
  constructor
  · rintro hexact ⟨ha, hkind, c, hc⟩
    have hans : ∃ sel, rayIndexInRowsel v set = some sel := by
      rcases hkind with ⟨ix, hi⟩ | ⟨⟨ix, hi⟩, hd⟩
      · exact in_answers_part h hi ha
      · exact in_answers_hash h hi ha fun h => hd ((dense_iff ha hc).mp h)
    obtain ⟨sel, hsel⟩ := hans
    have he := hexact sel hsel
    rw [(rows_in h hsel).2] at he
    exact (scanIn_eq_indexedIn_iff ha).mp he c hc
  · intro hno sel hs
    obtain ⟨ha, hrows⟩ := rows_in h hs
    rw [hrows, scanIn_eq_indexedIn_iff ha]
    intro c hc
    refine hno ⟨ha, ?_, c, hc⟩
    rcases in_answers_kind h hs with hp | ⟨hh, hd⟩
    · exact .inl hp
    · exact .inr ⟨hh, fun h => hd ((dense_iff ha hc).mpr h)⟩

theorem consults_exact_iff {col : Column} (h : Carries col v) (op : CmpOp) (key : Int64) (set : Column) :
    ConsultsExact v op key.toInt set ↔ ¬ NullKey v key.toInt ∧ ¬ NullInSet v set := by
  obtain rfl := h.col_eq
  have hkey : nullI64 ≤ key.toInt := by
    have := key.le_toInt
    rw [nullI64]
    omega
  constructor
  · intro hexact
    exact ⟨(hashEq_exact_iff h hkey).mp hexact.hashEq, (in_exact_iff h).mp hexact.isIn⟩
  · rintro ⟨h1, h2⟩
    refine ⟨(hashEq_exact_iff h hkey).mpr h1, fun sel hs => ?_, (in_exact_iff h).mpr h2, fun sel =>
      rows_range h hkey, fun sel => rows_sortedRange h hkey, fun r hr => zone_spec h hkey op (Column.cell_mem hr),
      fun ha r hr => bloom_spec h hkey (Column.cell_mem hr) ha, findRow_spec h, fun ids => distinctIds_spec h⟩
    obtain ⟨hn, hrows⟩ := rows_partEq h hs
    rw [hrows, scanRows_eq_keyRows hkey fun _ r _ => Column.nullCell_of_not_hasNulls hn _]

def noSymbols : SymDomain := ⟨0, [], List.nodup_nil⟩

def prices : Column := ⟨.i64, [7, -32768, 7], false, noSymbols, by decide, by decide, by decide⟩

def withNull : Column := ⟨.i64, [nullI64, 7], true, noSymbols, by decide, by decide, by decide⟩

def nullSet : Column := ⟨.i16, [-32768], true, noSymbols, by decide, by decide, by decide⟩

def hashed (col : Column) : Vec := ⟨col, (rayIndexAttach .hash col).map fun block => (block, col.len), false⟩

lemma hashed_carries (col : Column) : Carries col (hashed col) := by
  obtain ⟨ix, hix, -⟩ := rayIndexAttachHash_spec col
  have hb : rayIndexAttach .hash col = some (.hash ix) := by rw [rayIndexAttach, hix, map_some]
  have h := Carries.attach (@Carries.bare col) hb
  rwa [hashed, hb, map_some]

theorem consults_exact_prices : ConsultsExact (hashed prices) .le (7 : Int64).toInt prices := by
  refine (consults_exact_iff (hashed_carries prices) .le 7 prices).mpr ⟨?_, ?_⟩
  · rintro ⟨-, hk, -⟩
    exact absurd hk (by decide)
  · rintro ⟨-, -, c, -, -, hn⟩
    simp [Column.nullCell, prices] at hn

/-- The hash answers for a null otherwise than the scan. -/
theorem consults_not_exact : (Carries withNull (hashed withNull) ∧
      (rayIndexHashEqRowsel (hashed withNull) Int64.minValue.toInt).map (fun sel => rows 2 (some sel)) = some [] ∧
      scanRows withNull .eq Int64.minValue.toInt = [0] ∧
      ¬ ConsultsExact (hashed withNull) .eq Int64.minValue.toInt prices) ∧
    (Carries prices (hashed prices) ∧
      (rayIndexInRowsel (hashed prices) nullSet).map (fun sel => rows 3 (some sel)) = some [1] ∧
      scanIn prices nullSet = [] ∧
      ¬ ConsultsExact (hashed prices) .eq (7 : Int64).toInt nullSet) := by
  have h1 : (rayIndexHashEqRowsel (hashed withNull) Int64.minValue.toInt).map
      (fun sel => rows 2 (some sel)) = some [] := by
    decide +kernel
  have h2 : scanRows withNull .eq Int64.minValue.toInt = [0] := by decide +kernel
  have h3 : (rayIndexInRowsel (hashed prices) nullSet).map (fun sel => rows 3 (some sel)) = some [1] := by
    decide +kernel
  have h4 : scanIn prices nullSet = [] := by decide +kernel
  refine ⟨⟨hashed_carries _, h1, h2, fun h => ?_⟩, ⟨hashed_carries _, h3, h4, fun h => ?_⟩⟩
  · obtain ⟨sel, hs, hr⟩ := map_eq_some_iff.mp h1
    have he := h.hashEq sel hs
    rw [show (hashed withNull).col = withNull from rfl, h2] at he
    exact absurd (hr.symm.trans he) (by decide)
  · obtain ⟨sel, hs, hr⟩ := map_eq_some_iff.mp h3
    have he := h.isIn sel hs
    rw [show (hashed prices).col = prices from rfl, h4] at he
    exact absurd (hr.symm.trans he) (by decide)

end Rayforce.Index
