import Rayforce.Index.Blocks
import Rayforce.Index.Hash

namespace Rayforce.Index

open Rayforce.Exec (CmpOp)
open Library.Bisect List Option
open Rayforce.Selection

variable {v : Vec} {set : Column} {key : ℤ}
variable {keys : List ℤ} {sel : Rowsel} {c : ℤ} {block : IndexBlock} {r : ℕ} {ids : List ℕ} {k : ℤ}

lemma Carries.attached (h : Carries v.col v) (hi : idxFresh v = some block) :
    ∃ kind, rayIndexAttach kind v.col = some block := by
  obtain ⟨⟨b, n⟩, hv, hb⟩ := bind_eq_some_iff.mp hi
  dsimp only at hb
  split_ifs at hb
  cases hb
  exact h.index_eq hv

lemma idxFresh_of_nonull (hi : idxFreshNonull v = some block) :
    v.col.hasNulls = false ∧ idxFresh v = some block := by
  rw [idxFreshNonull] at hi
  split_ifs at hi with hn
  exact ⟨Bool.eq_false_of_not_eq_true hn, hi⟩

section

variable (h : Carries v.col v)
include h

lemma Carries.hashOk {ix : HashIndex} (hi : idxFresh v = some (.hash ix)) : HashOk v.col ix := by
  obtain ⟨kind, hk⟩ := h.attached hi
  obtain ⟨ix', hix, hok⟩ := rayIndexAttachHash_spec v.col
  cases kind <;> simp only [rayIndexAttach, hix] at hk
  case hash =>
    cases hk
    exact hok
  case part =>
    obtain ⟨_, -, hk⟩ := map_eq_some_iff.mp hk
    cases hk
  all_goals
    split_ifs at hk
    cases hk

lemma Carries.partOk {ix : PartIndex} (hi : idxFresh v = some (.part ix)) : PartOk v.col ix := by
  obtain ⟨kind, hk⟩ := h.attached hi
  cases kind <;> simp only [rayIndexAttach] at hk
  case hash =>
    obtain ⟨_, -, hk⟩ := map_eq_some_iff.mp hk
    cases hk
  case part =>
    obtain ⟨_, hix, hk⟩ := map_eq_some_iff.mp hk
    cases hk
    exact rayIndexAttachPart_spec hix
  all_goals
    split_ifs at hk
    cases hk

lemma Carries.sort_eq {perm : List ℕ} (hi : idxFresh v = some (.sort perm)) : perm = raySortIndices v.col := by
  obtain ⟨kind, hk⟩ := h.attached hi
  cases kind <;> simp only [rayIndexAttach] at hk
  case hash | part =>
    obtain ⟨_, -, hk⟩ := map_eq_some_iff.mp hk
    cases hk
  case sort =>
    split_ifs at hk
    cases hk
    rfl
  all_goals
    split_ifs at hk
    cases hk

lemma Carries.zone_eq {z : ZoneIndex} (hi : idxFresh v = some (.zone z)) : z = zoneScan v.col := by
  obtain ⟨kind, hk⟩ := h.attached hi
  cases kind <;> simp only [rayIndexAttach] at hk
  case hash | part =>
    obtain ⟨_, -, hk⟩ := map_eq_some_iff.mp hk
    cases hk
  case zone =>
    split_ifs at hk
    cases hk
    rfl
  all_goals
    split_ifs at hk
    cases hk

lemma Carries.bloom_eq {ix : BloomIndex} (hi : idxFresh v = some (.bloom ix)) :
    v.col.type ≠ .sym ∧ ix = bloomScan v.col := by
  obtain ⟨kind, hk⟩ := h.attached hi
  cases kind <;> simp only [rayIndexAttach] at hk
  case hash | part =>
    obtain ⟨_, -, hk⟩ := map_eq_some_iff.mp hk
    cases hk
  case bloom =>
    split_ifs at hk with hsym
    cases hk
    exact ⟨hsym, rfl⟩
  all_goals
    split_ifs at hk
    cases hk

end

lemma probeWord_of_inRange {t : ColType} (h : hashKeyInRange t key = true) : probeWord t key = key := by
  cases t <;> simp only [hashKeyInRange, decide_eq_true_eq] at h <;>
    simp only [probeWord, hashKeyBits, ColType.numericElemSize, reduceCtorEq, if_true, if_false]
  case bool | u8 => exact Int.emod_eq_of_lt h.1 (by omega)
  all_goals rw [Int.bmod_eq_of_le] <;> omega

lemma keyRows_ascending (col : Column) (k : ℤ) : (keyRows col k).Pairwise (· < ·) :=
  List.Pairwise.filter _ pairwise_lt_range

lemma keyRows_lt (col : Column) (k : ℤ) : ∀ r ∈ keyRows col k, r < col.len := fun _ hr => (mem_keyRows.mp hr).1

lemma keyRows_of_not_hasNulls {col : Column} (h : col.hasNulls = false) (k : ℤ) :
    keyRows col k = (List.range col.len).filter fun r => col.cell r = k := by
  simp [keyRows, Column.isNull, Column.nullCell_of_not_hasNulls h]

lemma scanRows_ascending (col : Column) (op : CmpOp) (k : ℤ) : (scanRows col op k).Pairwise (· < ·) :=
  List.Pairwise.filter _ pairwise_lt_range

lemma mem_scanRows_eq {col : Column} (hkey : nullI64 ≤ key) :
    r ∈ scanRows col .eq key ↔ r ∈ keyRows col key ∨ r < col.len ∧ key = nullI64 ∧ col.isNull r := by
  rw [scanRows_eq hkey, mem_keyRows, mem_filter, mem_range]
  simp only [cmpPlain, lane, Column.isNull]
  split_ifs with hn
  · simp [hn, eq_comm]
  · simp [hn]

lemma scanRows_eq_keyRows {col : Column} (hkey : nullI64 ≤ key)
    (h : key = nullI64 → ∀ r < col.len, col.isNull r = false) :
    scanRows col .eq key = keyRows col key := by
  apply List.Pairwise.eq_of_mem_iff (scanRows_ascending col .eq key) (keyRows_ascending col key)
  intro r
  rw [mem_scanRows_eq hkey]
  refine or_iff_left ?_
  rintro ⟨hr, hk, hn⟩
  rw [h hk r hr] at hn
  cases hn

lemma hashProbeSetup_eq {ix : HashIndex} (hi : idxFresh v = some (.hash ix))
    (hr : hashKeyInRange v.col.type key = true) :
    hashProbeSetup v key = (ix.probe key).map fun g => (ix, g) := by
  obtain ⟨⟨b, n⟩, hv, hb⟩ := bind_eq_some_iff.mp hi
  dsimp only at hb
  split_ifs at hb with hn
  cases hb
  simp only [hashProbeSetup, hv]
  rw [if_neg (not_not.mpr hn), hr, if_neg (by simp), probeWord_of_inRange hr]

lemma hashProbeSetup_out {ix : HashIndex} (hi : idxFresh v = some (.hash ix))
    (hr : hashKeyInRange v.col.type key = false) :
    hashProbeSetup v key = none := by
  obtain ⟨⟨b, n⟩, hv, hb⟩ := bind_eq_some_iff.mp hi
  dsimp only at hb
  split_ifs at hb with hn
  cases hb
  simp only [hashProbeSetup, hv]
  rw [if_neg (not_not.mpr hn), hr, Bool.not_false, if_pos rfl]

lemma rows_hashEq (h : Carries v.col v) (hs : rayIndexHashEqRowsel v key = some sel) :
    hashKeyInRange v.col.type key = true ∧ rows v.col.len (some sel) = keyRows v.col key := by
  simp only [rayIndexHashEqRowsel] at hs
  split at hs
  case h_2 => cases hs
  case h_1 ix hi =>
    have hok := h.hashOk hi
    by_cases hr : hashKeyInRange v.col.type key = true
    · refine ⟨hr, ?_⟩
      obtain ⟨g, hg, hgn⟩ := hok.probe key
      rw [hashProbeSetup_eq hi hr, hg] at hs
      cases g with
      | none =>
        rw [hgn.mp rfl]
        exact rows_rowselFromSortedIds v.col.short List.Pairwise.nil (by simp) hs
      | some g =>
        dsimp only [map_some] at hs
        split_ifs at hs
        obtain ⟨hids, -⟩ := hok.group key g hg
        rw [hids] at hs
        exact rows_rowselFromSortedIds v.col.short (keyRows_ascending _ _) (keyRows_lt _ _) hs
    · rw [hashProbeSetup_out hi (Bool.eq_false_of_not_eq_true hr)] at hs
      cases hs

lemma hashEq_answers_absent (h : Carries v.col v) {ix : HashIndex} (hi : idxFresh v = some (.hash ix))
    (hr : hashKeyInRange v.col.type key = true) (hnil : keyRows v.col key = []) :
    ∃ sel, rayIndexHashEqRowsel v key = some sel := by
  obtain ⟨g, hg, hgn⟩ := (h.hashOk hi).probe key
  obtain rfl := hgn.mpr hnil
  simp only [rayIndexHashEqRowsel, hi, hashProbeSetup_eq hi hr, hg, map_some]
  exact rowselFromSortedIds_isSome v.col.short List.Pairwise.nil (by simp)

lemma rows_partEq (h : Carries v.col v) (hs : rayIndexPartEqRowsel v key = some sel) :
    v.col.hasNulls = false ∧ rows v.col.len (some sel) = keyRows v.col key := by
  simp only [rayIndexPartEqRowsel] at hs
  split at hs
  case h_2 => cases hs
  case h_1 ix hi =>
    obtain ⟨hn, hi⟩ := idxFresh_of_nonull hi
    have hok := h.partOk hi
    refine ⟨hn, ?_⟩
    rw [keyRows_of_not_hasNulls hn]
    have hempty : (∀ r < v.col.len, v.col.cell r ≠ key) →
        (range v.col.len).filter (fun r => v.col.cell r = key) = [] := by
      intro hne
      simpa [filter_eq_nil_iff] using hne
    split_ifs at hs with hrange hbad
    · rw [hempty]
      · exact rows_rowselFromSortedIds v.col.short List.Pairwise.nil (by simp) hs
      · rintro r hr rfl
        rw [Column.inRange_of_mem (Column.cell_mem hr)] at hrange
        simp at hrange
    · split at hs
      case h_1 hfind =>
        rw [hempty]
        · exact rows_rowselFromSortedIds v.col.short List.Pairwise.nil (by simp) hs
        · rintro r hr rfl
          obtain ⟨p, hp, hkey⟩ := hok.cover _ (Column.cell_mem hr)
          exact find?_eq_none.mp hfind p (mem_range.mpr hp) (by simpa using hkey)
      case h_2 p hfind =>
        split_ifs at hs
        have hp := mem_range.mp (mem_of_find?_eq_some hfind)
        have hkey : ix.key p = key := by simpa using find?_some hfind
        refine (rows_rowselFromSortedSpans v.col.short hs).trans ?_
        rw [spanRows, flatMap_singleton, hok.block p hp, hkey]

lemma sortKeys_ascending (keys : List ℤ) : (sortKeys keys).Pairwise (· ≤ ·) := by
  have h := @pairwise_mergeSort ℤ (fun a b => decide (a ≤ b)) (by simpa using fun a b c => le_trans)
    (by simpa using le_total) keys
  rw [sortKeys]
  simpa only [decide_eq_true_eq] using h

lemma sortIds_ascending (h : ids.Nodup) : (sortIds ids).Pairwise (· < ·) := by
  have hle := @pairwise_mergeSort ℕ (fun a b => decide (a ≤ b)) (by simpa using fun a b c => le_trans)
    (by simpa using le_total) ids
  have hne : (sortIds ids).Nodup := (mergeSort_perm _ _).nodup_iff.mpr h
  refine (pairwise_and_iff.mpr ⟨hle, hne⟩).imp ?_
  rintro a b ⟨h1, h2⟩
  exact lt_of_le_of_ne (by simpa using h1) h2

lemma mem_sortIds : r ∈ sortIds ids ↔ r ∈ ids := mem_mergeSort

lemma mem_uniqueSorted : k ∈ uniqueSorted keys ↔ k ∈ keys := by
  induction keys using uniqueSorted.induct with
  | case1 => rfl
  | case2 a => rfl
  | case3 a l ih =>
    rw [uniqueSorted, if_pos rfl, ih]
    simp
  | case4 a b l hne ih =>
    rw [uniqueSorted, if_neg hne, mem_cons, ih, mem_cons (b := a)]

lemma uniqueSorted_ascending (h : keys.Pairwise (· ≤ ·)) : (uniqueSorted keys).Pairwise (· < ·) := by
  induction keys using uniqueSorted.induct with
  | case1 => exact List.Pairwise.nil
  | case2 a => exact pairwise_singleton _ _
  | case3 a l ih =>
    rw [uniqueSorted, if_pos rfl]
    exact ih h.of_cons
  | case4 a b l hne ih =>
    rw [uniqueSorted, if_neg hne]
    refine pairwise_cons.mpr ⟨fun x hx => ?_, ih h.of_cons⟩
    rw [mem_uniqueSorted] at hx
    have hab := rel_of_pairwise_cons h mem_cons_self
    rcases mem_cons.mp hx with rfl | hx
    · omega
    · have := rel_of_pairwise_cons h.of_cons hx
      omega

lemma mem_keys : k ∈ uniqueSorted (sortKeys keys) ↔ k ∈ keys := by
  rw [mem_uniqueSorted, sortKeys, mem_mergeSort]

lemma sortedContains_iff {values : List ℤ} (h : values.Pairwise (· < ·)) (k : ℤ) :
    sortedContains values k = true ↔ k ∈ values := by
  have hget : ∀ i j, i < j → j < values.length → values.getD i 0 < values.getD j 0 := by
    intro i j hij hj
    rw [getD_eq_getElem _ _ (hij.trans hj), getD_eq_getElem _ _ hj]
    exact pairwise_iff_getElem.mp h i j _ _ hij
  obtain ⟨-, -, hbelow, habove⟩ := @bisect_spec (fun i => decide (values.getD i 0 < k))
    values.length 0 values.length (fun i j _ hij hj hb => by
      simp only [decide_eq_true_eq] at hb ⊢
      rcases hij.eq_or_lt with rfl | hlt
      · exact hb
      · exact (hget i j hlt hj).trans hb) (Nat.zero_le _) (by omega)
  simp only [sortedContains, decide_eq_true_eq]
  constructor
  · rintro ⟨hlt, he⟩
    rw [← he, getD_eq_getElem _ _ hlt]
    exact getElem_mem hlt
  · intro hk
    obtain ⟨i, hi, rfl⟩ := mem_iff_getElem.mp hk
    rw [← getD_eq_getElem values 0 hi] at hbelow habove ⊢
    have hle : bisect (fun j => decide (values.getD j 0 < values.getD i 0)) values.length 0 values.length ≤ i := by
      by_contra hgt
      have := hbelow i (Nat.zero_le _) (by omega)
      simp at this
    have hge : i ≤ bisect (fun j => decide (values.getD j 0 < values.getD i 0)) values.length 0 values.length := by
      by_contra hgt
      rw [not_le] at hgt
      have h1 := habove _ le_rfl (hgt.trans hi)
      have h2 := hget _ i hgt hi
      rw [decide_eq_false_iff_not] at h1
      exact h1 h2
    rw [le_antisymm hle hge]
    exact ⟨hi, rfl⟩

def indexedIn (col set : Column) : List ℕ := (List.range col.len).filter fun r => col.cell r ∈ setKeys col set

lemma indexedIn_ascending (col set : Column) : (indexedIn col set).Pairwise (· < ·) :=
  List.Pairwise.filter _ pairwise_lt_range

lemma mem_indexedIn {col : Column} : r ∈ indexedIn col set ↔ r < col.len ∧ col.cell r ∈ setKeys col set := by
  simp [indexedIn]

lemma mapM_eq_some_map {α β : Type} {f : α → Option β} {g : α → β} {l : List α} (h : ∀ a ∈ l, f a = some (g a)) :
    l.mapM f = some (l.map g) := by
  induction l with
  | nil => rfl
  | cons a l ih =>
    rw [mapM_cons, h a mem_cons_self, ih fun x hx => h x (mem_cons_of_mem _ hx)]
    rfl

lemma probeWord_setKeys {col : Column} (h : k ∈ setKeys col set) : probeWord col.type k = k := by
  obtain ⟨c, -, hk⟩ := mem_filterMap.mp h
  by_cases hsym : col.type = .sym
  · rw [probeWord, if_pos hsym]
  · rw [if_neg hsym] at hk
    split_ifs at hk with hr
    cases hk
    exact probeWord_of_inRange hr

section

variable {col : Column} {ix : HashIndex} {found : ℤ → Option ℕ} (hok : HashOk col ix)
  (hfound : ∀ k, ix.probe k = some (found k))

include hok hfound

lemma groups_flatMap (keys : List ℤ) :
    ((keys.map found).filterMap id).flatMap ix.groupIds = keys.flatMap (keyRows col) ∧
      (((keys.map found).filterMap id).map ix.groupSize).sum = (keys.flatMap (keyRows col)).length := by
  induction keys with
  | nil => exact ⟨rfl, rfl⟩
  | cons k keys ih =>
    obtain ⟨g, hg, hgn⟩ := hok.probe k
    have he : found k = g := by
      rw [hfound k] at hg
      exact some.inj hg
    rw [map_cons, he, flatMap_cons, length_append]
    cases g with
    | none =>
      rw [hgn.mp rfl, filterMap_cons_none rfl]
      simpa only [nil_append, length_nil, Nat.zero_add] using ih
    | some g =>
      obtain ⟨hids, hsize⟩ := hok.group k g hg
      have hcons : (some g :: keys.map found).filterMap id = g :: (keys.map found).filterMap id := rfl
      rw [hcons, flatMap_cons, map_cons, sum_cons, hids, hsize, ih.1, ih.2]
      exact ⟨rfl, rfl⟩

lemma group_ascending (keys : List ℤ) : ∀ g ∈ (keys.map found).filterMap id, (ix.groupIds g).Pairwise (· < ·) := by
  intro g hg
  obtain ⟨o, ho, he⟩ := mem_filterMap.mp hg
  obtain ⟨k, -, hk⟩ := mem_map.mp ho
  rw [id] at he
  rw [(hok.group k g (by rw [hfound, hk, he])).1]
  exact keyRows_ascending col k

end

lemma flatMap_keyRows_nodup {col : Column} (h : keys.Nodup) : (keys.flatMap (keyRows col)).Nodup := by
  rw [nodup_flatMap]
  refine ⟨fun k _ => (keyRows_ascending col k).imp fun h => h.ne, h.imp fun {a b} hab r ha hb => hab ?_⟩
  rw [← (mem_keyRows.mp ha).2.2, ← (mem_keyRows.mp hb).2.2]

lemma matched_perm {col : Column} (hn : col.hasNulls = false) (hnd : keys.Nodup)
    (hk : ∀ k, k ∈ keys ↔ k ∈ setKeys col set) : (keys.flatMap (keyRows col)).Perm (indexedIn col set) := by
  apply (perm_ext_iff_of_nodup (flatMap_keyRows_nodup hnd) ((indexedIn_ascending col set).imp fun h => h.ne)).mpr
  intro r
  simp only [mem_flatMap, mem_keyRows, mem_indexedIn, Column.isNull, Column.nullCell_of_not_hasNulls hn]
  constructor
  · rintro ⟨k, hkm, hr, -, rfl⟩
    exact ⟨hr, (hk _).mp hkm⟩
  · rintro ⟨hr, hc⟩
    exact ⟨_, (hk _).mpr hc, hr, trivial, rfl⟩

lemma hashInRowsel_spec {col : Column} {ix : HashIndex} (hok : HashOk col ix) (hn : col.hasNulls = false)
    (hnd : keys.Nodup) (hk : ∀ k, k ∈ keys ↔ k ∈ setKeys col set) :
    (∀ sel, hashInRowsel col.len col.type ix keys = some sel → rows col.len (some sel) = indexedIn col set) ∧
      ((∃ sel, hashInRowsel col.len col.type ix keys = some sel) ↔
        ¬ (64 < (indexedIn col set).length ∧ col.len / 16 < (indexedIn col set).length)) := by
  choose found hfound using fun k => (hok.probe k).imp fun _ h => h.1
  obtain ⟨hflat, hsum⟩ := groups_flatMap hok hfound keys
  have hperm := matched_perm hn hnd hk
  have hmapM : keys.mapM (fun key => ix.probe (probeWord col.type key)) = some (keys.map found) := by
    apply mapM_eq_some_map
    intro k hkm
    rw [probeWord_setKeys ((hk k).mp hkm), hfound]
  obtain ⟨ids, hids⟩ : ∃ ids, ids =
    (if 1 < ((keys.map found).filterMap id).length ∧ 1 < (keys.flatMap (keyRows col)).length then
      sortIds (keys.flatMap (keyRows col)) else keys.flatMap (keyRows col)) := ⟨_, rfl⟩
  have hasc : ids.Pairwise (· < ·) := by
    rw [hids]
    split_ifs with hlen
    · exact sortIds_ascending (flatMap_keyRows_nodup hnd)
    · obtain hg | hm := not_and_or.mp hlen
      · rw [← hflat]
        match hgs : (keys.map found).filterMap id with
        | [] => exact List.Pairwise.nil
        | [g] =>
          rw [flatMap_singleton]
          exact group_ascending hok hfound keys g (by rw [hgs]; exact mem_cons_self)
        | _ :: _ :: _ => exact absurd hg (by rw [hgs]; simp)
      · match hgs : keys.flatMap (keyRows col) with
        | [] => exact List.Pairwise.nil
        | [r] => exact pairwise_singleton _ _
        | _ :: _ :: _ => exact absurd hm (by rw [hgs]; simp)
  have hmem : ids = indexedIn col set := by
    apply List.Pairwise.eq_of_mem_iff hasc (indexedIn_ascending col set)
    intro r
    rw [← hperm.mem_iff, hids]
    split_ifs
    · exact mem_sortIds
    · rfl
  have hbody : hashInRowsel col.len col.type ix keys
      = if 64 < (indexedIn col set).length ∧ col.len / 16 < (indexedIn col set).length then none
        else rowselFromSortedIds col.len (indexedIn col set) := by
    simp only [hashInRowsel, hmapM, bind_eq_bind, bind_some, hflat, hsum]
    rw [← hids, hmem, hperm.length_eq]
    split_ifs with h1 h2
    · rfl
    · rw [length_eq_zero_iff.mp h2]
    · rfl
  have hlt : ∀ r ∈ indexedIn col set, r < col.len := fun r hr => (mem_indexedIn.mp hr).1
  rw [hbody]
  constructor
  · intro sel hs
    split_ifs at hs
    exact rows_rowselFromSortedIds col.short (indexedIn_ascending col set) hlt hs
  · constructor
    · rintro ⟨sel, hs⟩ hd
      rw [if_pos hd] at hs
      cases hs
    · intro hd
      rw [if_neg hd]
      exact rowselFromSortedIds_isSome col.short (indexedIn_ascending col set) hlt

lemma partInSpans_spec {col : Column} {ix : PartIndex} (hok : PartOk col ix)
    (hasc : keys.Pairwise (· < ·)) (hk : ∀ k, k ∈ keys ↔ k ∈ setKeys col set) :
    SpansOk col.len 0 (partInSpans ix keys) ∧ spanRows (partInSpans ix keys) = indexedIn col set := by
  have hsub : (partInSpans ix keys).Sublist ((range ix.keys.length).map ix.span) := by
    have he : partInSpans ix keys
        = ((range ix.keys.length).filter fun p => sortedContains keys (ix.key p)).map ix.span := by
      rw [← filterMap_eq_map, filterMap_filter]
      rfl
    rw [he]
    exact filter_sublist.map _
  have hspans := hok.spans.sublist hsub
  refine ⟨hspans, ?_⟩
  apply List.Pairwise.eq_of_mem_iff (spanRows_ascending hspans) (indexedIn_ascending col set)
  intro r
  simp only [spanRows, partInSpans, mem_flatMap, mem_filterMap, mem_range, mem_indexedIn, ← hk]
  constructor
  · rintro ⟨sp, ⟨p, hp, hsp⟩, hr⟩
    split_ifs at hsp with hc
    cases hsp
    rw [hok.block p hp] at hr
    simp only [mem_filter, mem_range, decide_eq_true_eq] at hr
    exact ⟨hr.1, hr.2 ▸ (sortedContains_iff hasc _).mp hc⟩
  · rintro ⟨hr, hc⟩
    obtain ⟨p, hp, hkey⟩ := hok.cover _ (Column.cell_mem hr)
    refine ⟨ix.span p, ⟨p, hp, by rw [hkey, if_pos ((sortedContains_iff hasc _).mpr hc)]⟩, ?_⟩
    rw [hok.block p hp]
    simp [hr, hkey]

lemma indexedIn_of_no_keys {col : Column} (h : uniqueSorted (sortKeys (setKeys col set)) = []) :
    indexedIn col set = [] := by
  rw [indexedIn, filter_eq_nil_iff]
  intro r _
  rw [decide_eq_true_eq, ← mem_keys, h]
  exact not_mem_nil

structure InApplies (v : Vec) (set : Column) : Prop where
  nonull : v.col.hasNulls = false
  class_eq : v.col.type = .sym ↔ set.type = .sym

section

variable (h : Carries v.col v)
include h

lemma rows_in (hs : rayIndexInRowsel v set = some sel) :
    InApplies v set ∧ rows v.col.len (some sel) = indexedIn v.col set := by
  simp only [rayIndexInRowsel] at hs
  split at hs
  case h_2 => cases hs
  case h_1 block hi =>
    obtain ⟨hn, hi⟩ := idxFresh_of_nonull hi
    have hcls : ¬ decide (v.col.type = .sym) ≠ decide (set.type = .sym) := by
      intro hcls
      rw [if_pos hcls] at hs
      cases hs
    rw [if_neg hcls] at hs
    refine ⟨⟨hn, by simpa using hcls⟩, ?_⟩
    have hasc := uniqueSorted_ascending (sortKeys_ascending (setKeys v.col set))
    split at hs
    case h_1 ix =>
      split_ifs at hs with hnil
      · rw [indexedIn_of_no_keys hnil]
        exact rows_rowselFromSortedIds v.col.short List.Pairwise.nil (by simp) hs
      · exact (hashInRowsel_spec (h.hashOk hi) hn (hasc.imp fun h => h.ne) fun _ => mem_keys).1 sel hs
    case h_2 ix =>
      split_ifs at hs with hnil
      · rw [indexedIn_of_no_keys hnil]
        exact rows_rowselFromSortedIds v.col.short List.Pairwise.nil (by simp) hs
      · refine (rows_rowselFromSortedSpans v.col.short hs).trans ?_
        exact (partInSpans_spec (h.partOk hi) hasc fun _ => mem_keys).2
    case h_3 => cases hs

lemma in_answers_kind (hs : rayIndexInRowsel v set = some sel) :
    (∃ ix, idxFresh v = some (.part ix)) ∨ (∃ ix, idxFresh v = some (.hash ix)) ∧
      ¬ (64 < (indexedIn v.col set).length ∧ v.col.len / 16 < (indexedIn v.col set).length) := by
  obtain ⟨ha, -⟩ := rows_in h hs
  simp only [rayIndexInRowsel] at hs
  split at hs
  case h_2 => cases hs
  case h_1 block hi =>
    obtain ⟨hn, hi⟩ := idxFresh_of_nonull hi
    cases block with
    | part ix => exact .inl ⟨ix, hi⟩
    | hash ix =>
      refine .inr ⟨⟨ix, hi⟩, fun hd => ?_⟩
      have hasc := uniqueSorted_ascending (sortKeys_ascending (setKeys v.col set))
      rw [if_neg (by simp [ha.class_eq])] at hs
      dsimp only at hs
      split_ifs at hs with hnil
      · rw [indexedIn_of_no_keys hnil] at hd
        exact absurd hd.1 (by simp)
      · exact (hashInRowsel_spec (h.hashOk hi) hn (hasc.imp fun h => h.ne) fun _ => mem_keys).2.mp ⟨sel, hs⟩ hd
    | sort | zone | bloom =>
      rw [if_neg (by simp [ha.class_eq])] at hs
      cases hs

lemma in_answers_part {ix : PartIndex} (hi : idxFresh v = some (.part ix)) (ha : InApplies v set) :
    ∃ sel, rayIndexInRowsel v set = some sel := by
  have hasc := uniqueSorted_ascending (sortKeys_ascending (setKeys v.col set))
  simp only [rayIndexInRowsel, idxFreshNonull, ha.nonull, hi, ha.class_eq, (h.partOk hi).formed, ne_eq, not_true,
    Bool.false_eq_true, if_false]
  split_ifs with hnil
  · exact rowselFromSortedIds_isSome v.col.short List.Pairwise.nil (by simp)
  · exact rowselFromSortedSpans_isSome v.col.short (partInSpans_spec (h.partOk hi) hasc fun _ => mem_keys).1

lemma in_answers_hash {ix : HashIndex} (hi : idxFresh v = some (.hash ix)) (ha : InApplies v set)
    (hd : ¬ (64 < (indexedIn v.col set).length ∧ v.col.len / 16 < (indexedIn v.col set).length)) :
    ∃ sel, rayIndexInRowsel v set = some sel := by
  have hasc := uniqueSorted_ascending (sortKeys_ascending (setKeys v.col set))
  simp only [rayIndexInRowsel, idxFreshNonull, ha.nonull, hi, ha.class_eq, ne_eq, not_true,
    Bool.false_eq_true, if_false]
  split_ifs with hnil
  · exact rowselFromSortedIds_isSome v.col.short List.Pairwise.nil (by simp)
  · exact (hashInRowsel_spec (h.hashOk hi) ha.nonull (hasc.imp fun h => h.ne) fun _ => mem_keys).2.mpr hd

end

lemma mem_setKeys_numeric {col : Column} (ht : col.type ≠ .sym) (hc : c ∈ col.cells) :
    c ∈ setKeys col set ↔ c ∈ set.cells := by
  simp only [setKeys, mem_filterMap, if_neg ht]
  constructor
  · rintro ⟨x, hx, he⟩
    split_ifs at he
    cases he
    exact hx
  · intro hx
    exact ⟨c, hx, if_pos (Column.inRange_of_mem hc)⟩

lemma mem_inProbe_numeric {col : Column} (ht : col.type ≠ .sym) (hs : set.type ≠ .sym) :
    c ∈ inProbe col set ↔ c ∈ set.cells ∧ set.nullCell c = false := by
  simp only [inProbe, ht, hs, ne_eq, not_true, if_false, mem_filterMap, false_and]
  constructor
  · rintro ⟨x, hx, he⟩
    split_ifs at he with hn
    cases he
    exact ⟨hx, Bool.eq_false_of_not_eq_true hn⟩
  · rintro ⟨hx, hn⟩
    exact ⟨c, hx, by rw [hn, if_neg Bool.false_ne_true]⟩

lemma SymDomain.find_str {d : SymDomain} (h0 : 0 ≤ c) (hlt : c < d.vocab.length) :
    (d.str? c).bind d.find? = some c := by
  have hi : c.toNat < d.vocab.length := by omega
  rw [SymDomain.str?, if_pos h0, getElem?_eq_getElem hi, bind_some, SymDomain.find?,
    idxOf?_eq_some_iff.mpr ⟨hi, rfl, fun j hj => ?_⟩]
  · simp [h0]
  · intro he
    have := (d.nodup.getElem_inj_iff).mp he
    omega

lemma mem_inProbe_sym {col : Column} (ht : col.type = .sym) (hs : set.type = .sym) :
    c ∈ inProbe col set ↔ c ∈ setKeys col set := by
  have hnull : ∀ x, set.nullCell x = false := by simp [Column.nullCell, hs, ColType.sentinel?]
  simp only [inProbe, setKeys, ht, hs, ne_eq, not_true, if_false, mem_filterMap, hnull, Bool.false_eq_true,
    true_and, if_true]
  by_cases hd : col.domain = set.domain
  · simp only [hd, not_true, if_false]
    refine exists_congr fun x => and_congr_right fun hx => ?_
    have hheld := set.held x hx
    simp only [hs, ColType.holds, decide_eq_true_eq] at hheld
    rw [SymDomain.find_str hheld.1 hheld.2]
  · simp only [hd, not_false_iff, if_true]

def NullElement (col set : Column) (c : ℤ) : Prop := c ∈ col.cells ∧ c ∈ set.cells ∧ set.nullCell c = true

lemma scanIn_eq_indexedIn_iff (ha : InApplies v set) :
    indexedIn v.col set = scanIn v.col set ↔ ∀ c, ¬ NullElement v.col set c := by
  have hscan : ∀ r, r ∈ scanIn v.col set ↔ r < v.col.len ∧ v.col.cell r ∈ inProbe v.col set := by
    intro r
    simp [scanIn_eq, Column.isNull, Column.nullCell_of_not_hasNulls ha.nonull]
  have hext : indexedIn v.col set = scanIn v.col set
      ↔ ∀ r < v.col.len, v.col.cell r ∈ setKeys v.col set ↔ v.col.cell r ∈ inProbe v.col set := by
    constructor
    · intro he r hr
      have hm : r ∈ indexedIn v.col set ↔ r ∈ scanIn v.col set := by rw [he]
      rw [mem_indexedIn, hscan] at hm
      simpa [hr] using hm
    · intro hall
      apply List.Pairwise.eq_of_mem_iff (indexedIn_ascending _ _) (List.Pairwise.filter _ pairwise_lt_range)
      intro r
      exact mem_indexedIn.trans ((and_congr_right (hall r)).trans (hscan r).symm)
  rw [hext]
  by_cases ht : v.col.type = .sym
  · have hs := ha.class_eq.mp ht
    refine iff_of_true (fun r _ => (mem_inProbe_sym ht hs).symm) ?_
    rintro c ⟨-, -, hn⟩
    simp [Column.nullCell, hs, ColType.sentinel?] at hn
  · have hs := fun h => ht (ha.class_eq.mpr h)
    constructor
    · rintro hall c ⟨hc, hcs, hn⟩
      obtain ⟨r, hr, rfl⟩ := Column.mem_cells.mp hc
      have := ((mem_inProbe_numeric ht hs).mp ((hall r hr).mp ((mem_setKeys_numeric ht hc).mpr hcs))).2
      rw [hn] at this
      cases this
    · intro hall r hr
      have hc := Column.cell_mem hr
      rw [mem_setKeys_numeric ht hc, mem_inProbe_numeric ht hs]
      refine ⟨fun hcs => ⟨hcs, ?_⟩, fun h => h.1⟩
      exact Bool.eq_false_of_not_eq_true fun hn => hall _ ⟨hc, hcs, hn⟩

end Rayforce.Index
