import Rayforce.Index.Consult

namespace Rayforce.Index

open List Option
open Rayforce.Selection

variable {col : Column}
variable {st st' : PartState}

lemma ascending_of_vecIsAscending (h : vecIsAscending col) {i j : ℕ} (hij : i ≤ j) (hj : j < col.len) :
    col.cell i ≤ col.cell j := by
  induction hij with
  | refl => exact le_rfl
  | @step m hle ih =>
    refine (ih (by omega)).trans ?_
    rw [vecIsAscending] at h
    split_ifs at h with h1 h2
    · omega
    · have := all_eq_true.mp h m (mem_range.mpr (by omega))
      simpa using this

section

structure Parted (col : Column) (i : ℕ) (st : PartState) : Prop where
  run_le : st.runStart ≤ i
  run : ∀ r, st.runStart ≤ r → r < i → col.cell r = col.cell st.runStart
  nodup : (st.blocks.map Prod.fst).Nodup
  block : ∀ b ∈ st.blocks, b.2.1 + b.2.2 ≤ st.runStart ∧ ∀ r, b.2.1 ≤ r → r < b.2.1 + b.2.2 → col.cell r = b.1
  cover : ∀ r < st.runStart, ∃ b ∈ st.blocks, b.2.1 ≤ r ∧ r < b.2.1 + b.2.2
  nonempty : ∀ b ∈ st.blocks, 0 < b.2.2
  disjoint : st.blocks.Pairwise fun a b => a.2.1 + a.2.2 ≤ b.2.1
  below : col.type ≠ .sym → st.runStart < col.len → ∀ b ∈ st.blocks, b.1 < col.cell st.runStart

lemma Parted.step (hasc : col.type ≠ .sym → vecIsAscending col) {i : ℕ} (hi : i + 1 ≤ col.len)
    (h : Parted col (i + 1) st) (hrun : st.runStart ≤ i) (hs : partRow col st (i + 1) = some st') :
    (i + 1 < col.len → Parted col (i + 2) st' ∧ st'.runStart ≤ i + 1) ∧
      (i + 1 = col.len → Parted col (i + 1) st' ∧ st'.runStart = col.len) := by
  have hlast : col.cell i = col.cell st.runStart := h.run i hrun (Nat.lt_succ_self i)
  simp only [partRow, Nat.add_sub_cancel] at hs
  split_ifs at hs with hb hseen
  · rw [← some.inj hs]
    have hfresh : col.cell st.runStart ∉ st.blocks.map Prod.fst := by
      by_cases hsym : col.type = .sym
      · exact fun hm => hseen ⟨hsym, hm⟩
      · intro hm
        obtain ⟨b, hbm, he⟩ := mem_map.mp hm
        have := h.below hsym (by omega) b hbm
        rw [he] at this
        exact lt_irrefl _ this
    have hnodup :
        ((st.blocks ++ [(col.cell st.runStart, st.runStart, i + 1 - st.runStart)]).map Prod.fst).Nodup := by
      rw [map_append, nodup_append]
      refine ⟨h.nodup, nodup_singleton _, fun a ha b hb' => ?_⟩
      rw [map_singleton, mem_singleton] at hb'
      rintro rfl
      dsimp only at hb'
      exact hfresh (hb' ▸ ha)
    have hblock : ∀ b ∈ st.blocks ++ [(col.cell st.runStart, st.runStart, i + 1 - st.runStart)],
        b.2.1 + b.2.2 ≤ i + 1 ∧ ∀ r, b.2.1 ≤ r → r < b.2.1 + b.2.2 → col.cell r = b.1 := by
      intro b hbm
      rcases mem_append.mp hbm with hbm | hbm
      · obtain ⟨h1, h2⟩ := h.block b hbm
        exact ⟨by omega, h2⟩
      · rw [mem_singleton.mp hbm]
        dsimp only
        exact ⟨by omega, fun r h1 h2 => h.run r h1 (by omega)⟩
    have hcover : ∀ r < i + 1, ∃ b ∈ st.blocks ++ [(col.cell st.runStart, st.runStart, i + 1 - st.runStart)],
        b.2.1 ≤ r ∧ r < b.2.1 + b.2.2 := by
      intro r hr
      by_cases hlt : r < st.runStart
      · obtain ⟨b, hbm, hin⟩ := h.cover r hlt
        exact ⟨b, mem_append_left _ hbm, hin⟩
      · exact ⟨_, mem_append_right _ mem_cons_self, by dsimp only; omega⟩
    have hpos : ∀ b ∈ st.blocks ++ [(col.cell st.runStart, st.runStart, i + 1 - st.runStart)], 0 < b.2.2 := by
      intro b hbm
      rcases mem_append.mp hbm with hbm | hbm
      · exact h.nonempty b hbm
      · rw [mem_singleton.mp hbm]
        dsimp only
        omega
    have hdisj : (st.blocks ++ [(col.cell st.runStart, st.runStart, i + 1 - st.runStart)]).Pairwise
        fun a b => a.2.1 + a.2.2 ≤ b.2.1 := by
      refine pairwise_append.mpr ⟨h.disjoint, pairwise_singleton _ _, fun a ha b hb' => ?_⟩
      rw [mem_singleton.mp hb']
      exact (h.block a ha).1
    have hbelow : col.type ≠ .sym → i + 1 < col.len →
        ∀ b ∈ st.blocks ++ [(col.cell st.runStart, st.runStart, i + 1 - st.runStart)], b.1 < col.cell (i + 1) := by
      intro hsym hlt b hbm
      have hle := ascending_of_vecIsAscending (hasc hsym) (Nat.le_succ i) hlt
      have hne : col.cell (i + 1) ≠ col.cell i := by
        rcases hb with hb | hb
        · omega
        · exact hb
      have hgt : col.cell st.runStart < col.cell (i + 1) := hlast ▸ lt_of_le_of_ne hle hne.symm
      rcases mem_append.mp hbm with hbm | hbm
      · exact (h.below hsym (by omega) b hbm).trans hgt
      · rw [mem_singleton.mp hbm]
        exact hgt
    constructor
    · intro hlt
      refine ⟨⟨by dsimp only; omega, fun r h1 h2 => ?_, hnodup, hblock, hcover, hpos, hdisj, hbelow⟩, le_rfl⟩
      dsimp only at h1 ⊢
      obtain rfl : r = i + 1 := by omega
      rfl
    · intro heq
      refine ⟨⟨le_rfl, fun r h1 h2 => ?_, hnodup, hblock, hcover, hpos, hdisj, hbelow⟩, heq⟩
      dsimp only at h1
      omega
  · rw [← some.inj hs]
    push Not at hb
    refine ⟨fun hlt => ⟨⟨by omega, fun r h1 h2 => ?_, h.nodup, h.block, h.cover, h.nonempty, h.disjoint, h.below⟩,
      by omega⟩, fun heq => absurd heq hb.1⟩
    by_cases hr : r = i + 1
    · rw [hr, hb.2, hlast]
    · exact h.run r h1 (by omega)

lemma parted_run (hasc : col.type ≠ .sym → vecIsAscending col) {k i : ℕ} (hk : i + 1 + k = col.len + 1)
    (h : Parted col (i + 1) st) (hrun : st.runStart ≤ i) (hpos : 0 < k)
    (hs : (List.range' (i + 1) k).foldlM (partRow col) st = some st') :
      ∃ j, Parted col j st' ∧ st'.runStart = col.len := by
  induction k generalizing i st with
  | zero => omega
  | succ k ih =>
    rw [range'_succ, foldlM_cons] at hs
    obtain ⟨st1, hs1, hs2⟩ := bind_eq_some_iff.mp hs
    obtain ⟨hmid, hend⟩ := h.step hasc (by omega) hrun hs1
    cases k with
    | zero =>
      obtain ⟨h1, h2⟩ := hend (by omega)
      rw [range'_zero, foldlM_nil] at hs2
      cases hs2
      exact ⟨_, h1, h2⟩
    | succ k =>
      obtain ⟨h1, h2⟩ := hmid (by omega)
      exact ih (by omega) h1 h2 (Nat.succ_pos k) hs2

structure PartOk (col : Column) (ix : PartIndex) : Prop where
  block : ∀ p < ix.keys.length, (ix.span p).rows = (List.range col.len).filter fun r => col.cell r = ix.key p
  cover : ∀ c ∈ col.cells, ∃ p < ix.keys.length, ix.key p = c
  unique : ∀ p < ix.keys.length, ∀ q < ix.keys.length, ix.key p = ix.key q → p = q
  spans : SpansOk col.len 0 ((List.range ix.keys.length).map ix.span)
  formed : ix.malformed = false

theorem rayIndexAttachPart_spec {ix : PartIndex} (h : rayIndexAttachPart col = some ix) : PartOk col ix := by
  rw [rayIndexAttachPart] at h
  split_ifs at h with hbad
  obtain ⟨st, hs, rfl⟩ := map_eq_some_iff.mp h
  have hasc : col.type ≠ .sym → vecIsAscending col := by
    intro hsym
    by_contra hn
    exact hbad ⟨hsym, by simpa using hn⟩
  have hdone : ∃ j, Parted col j st ∧ st.runStart = col.len := by
    obtain hzero | hpos := Nat.eq_zero_or_pos col.len
    · rw [hzero, range'_zero, foldlM_nil] at hs
      cases hs
      exact ⟨0, ⟨le_rfl, by simp, by simp, by simp, by simp, by simp, by simp, by simp⟩, hzero.symm⟩
    · have hstart : Parted col (0 + 1) ⟨0, []⟩ :=
        ⟨by simp, fun r _ h2 => by obtain rfl : r = 0 := by omega
                                   rfl, by simp, by simp, by simp, by simp, by simp, by simp⟩
      exact parted_run hasc (by omega) hstart le_rfl hpos hs
  obtain ⟨j, hp, hend⟩ := hdone
  have hget : ∀ p, (hlt : p < st.blocks.length) → (st.blocks.map Prod.fst).getD p 0 = st.blocks[p].1 := by
    intro p hlt
    simp [hlt]
  have huniq : ∀ p, (h1 : p < st.blocks.length) → ∀ q, (h2 : q < st.blocks.length) →
      st.blocks[p].1 = st.blocks[q].1 → p = q := by
    intro p h1 q h2 he
    have := hp.nodup
    rw [nodup_iff_injective_get] at this
    have hfin := @this ⟨p, by simpa using h1⟩ ⟨q, by simpa using h2⟩ (by simpa using he)
    simpa using hfin
  have hspans : (range (st.blocks.map Prod.fst).length).map
      (PartIndex.span ⟨st.blocks.map Prod.fst, st.blocks.map (·.2.1), st.blocks.map (·.2.2)⟩)
      = st.blocks.map fun b => ⟨b.2.1, b.2.2⟩ := by
    apply ext_getElem
    · simp
    · intro p h1 h2
      rw [length_map] at h2
      simp [PartIndex.span, h2]
  refine ⟨fun p hlt => ?_, fun c hc => ?_, fun p h1 q h2 he => ?_, ?_, by simp [PartIndex.malformed]⟩
  · rw [length_map] at hlt
    have hspan : PartIndex.span ⟨st.blocks.map Prod.fst, st.blocks.map (·.2.1), st.blocks.map (·.2.2)⟩ p
        = ⟨st.blocks[p].2.1, st.blocks[p].2.2⟩ := by
      simp [PartIndex.span, hlt]
    rw [hspan, PartIndex.key, hget p hlt]
    obtain ⟨hle, hcell⟩ := hp.block _ (getElem_mem hlt)
    apply List.Pairwise.eq_of_mem_iff pairwise_lt_range' (List.Pairwise.filter _ pairwise_lt_range)
    intro r
    simp only [mem_range'_1, mem_filter, mem_range, decide_eq_true_eq]
    constructor
    · rintro ⟨h1, h2⟩
      exact ⟨by omega, hcell r h1 h2⟩
    · rintro ⟨hr, he⟩
      obtain ⟨b, hb, hin⟩ := hp.cover r (by omega)
      obtain ⟨q, hq, rfl⟩ := mem_iff_getElem.mp hb
      obtain rfl := huniq p hlt q hq (he.symm.trans ((hp.block _ hb).2 r hin.1 hin.2))
      exact hin
  · obtain ⟨r, hr, rfl⟩ := Column.mem_cells.mp hc
    obtain ⟨b, hb, hin⟩ := hp.cover r (by omega)
    obtain ⟨q, hq, rfl⟩ := mem_iff_getElem.mp hb
    refine ⟨q, by simpa using hq, ?_⟩
    rw [PartIndex.key, hget q hq]
    exact ((hp.block _ hb).2 r hin.1 hin.2).symm
  · rw [length_map] at h1 h2
    rw [PartIndex.key, PartIndex.key, hget p h1, hget q h2] at he
    exact huniq p h1 q h2 he
  · rw [hspans]
    refine ⟨fun _ _ => Nat.zero_le _, ?_, ?_, ?_⟩
    · intro sp hsp
      obtain ⟨b, hb, rfl⟩ := mem_map.mp hsp
      exact hp.nonempty b hb
    · intro sp hsp
      obtain ⟨b, hb, rfl⟩ := mem_map.mp hsp
      exact hend ▸ (hp.block b hb).1
    · exact pairwise_map.mpr hp.disjoint

end

lemma foldl_zoneStep (cs : List ℤ) (z : ZoneIndex × Bool) :
    (cs.foldl (zoneStep col) z).1.minI ≤ z.1.minI ∧ z.1.maxI ≤ (cs.foldl (zoneStep col) z).1.maxI ∧
      (z.2 = true → (cs.foldl (zoneStep col) z).2 = true) ∧
      ∀ c ∈ cs, col.nullCell c = false → (cs.foldl (zoneStep col) z).1.minI ≤ c ∧
        c ≤ (cs.foldl (zoneStep col) z).1.maxI ∧ (cs.foldl (zoneStep col) z).2 = true := by
  induction cs generalizing z with
  | nil => exact ⟨le_rfl, le_rfl, id, by simp⟩
  | cons c cs ih =>
    rw [foldl_cons]
    obtain ⟨h1, h2, h3, h4⟩ := ih (zoneStep col z c)
    by_cases hn : col.nullCell c = true
    · have hz : (zoneStep col z c).1.minI = z.1.minI ∧ (zoneStep col z c).1.maxI = z.1.maxI ∧
          (zoneStep col z c).2 = z.2 := by
        rw [zoneStep, if_pos hn]
        exact ⟨rfl, rfl, rfl⟩
      refine ⟨hz.1 ▸ h1, hz.2.1 ▸ h2, fun h => h3 (hz.2.2 ▸ h), fun x hx hxn => ?_⟩
      rcases mem_cons.mp hx with rfl | hx
      · rw [hn] at hxn
        cases hxn
      · exact h4 x hx hxn
    · have hz : (zoneStep col z c).1.minI ≤ z.1.minI ∧ (zoneStep col z c).1.minI ≤ c ∧
          z.1.maxI ≤ (zoneStep col z c).1.maxI ∧ c ≤ (zoneStep col z c).1.maxI ∧ (zoneStep col z c).2 = true := by
        rw [zoneStep, if_neg hn]
        dsimp only
        refine ⟨?_, ?_, ?_, ?_, rfl⟩ <;> split_ifs <;> omega
      refine ⟨h1.trans hz.1, hz.2.2.1.trans h2, fun _ => h3 hz.2.2.2.2, fun x hx hxn => ?_⟩
      rcases mem_cons.mp hx with rfl | hx
      · exact ⟨h1.trans hz.2.1, hz.2.2.2.1.trans h2, h3 hz.2.2.2.2⟩
      · exact h4 x hx hxn

lemma zoneScan_bounds {c : ℤ} (hc : c ∈ col.cells) (hn : col.nullCell c = false) :
    (zoneScan col).minI ≤ c ∧ c ≤ (zoneScan col).maxI := by
  obtain ⟨-, -, -, h⟩ := @foldl_zoneStep col col.cells (⟨2 ^ 63 - 1, -2 ^ 63, 0⟩, false)
  obtain ⟨h1, h2, h3⟩ := h c hc hn
  simp only [zoneScan, h3, if_true]
  exact ⟨h1, h2⟩

def SortedBy (col : Column) (perm : List ℕ) : Prop :=
  perm.Pairwise fun a b => col.cell a < col.cell b ∨ col.cell a = col.cell b ∧ a < b

lemma pairwise_idxOf {l : List ℕ} (h : l.Nodup) : l.Pairwise fun a b => l.idxOf a < l.idxOf b := by
  rw [pairwise_iff_getElem]
  intro i j hi hj hij
  rw [h.idxOf_getElem i hi, h.idxOf_getElem j hj]
  exact hij

lemma sortCmp_le_zero (h : col.hasNulls = false) (a b : ℕ) : sortCmp col a b ≤ 0 ↔ col.cell a ≤ col.cell b := by
  simp only [sortCmp, Column.isNull, Column.nullCell_of_not_hasNulls h]
  simp only [Bool.false_eq_true, false_or, false_and, if_false]
  split_ifs <;> omega

lemma raySortIndices_perm (col : Column) : (raySortIndices col).Perm (List.range col.len) := mergeSort_perm _ _

theorem raySortIndices_sorted (h : col.hasNulls = false) : SortedBy col (raySortIndices col) := by
  have htrans : ∀ a b c : ℕ, decide (sortCmp col a b ≤ 0) → decide (sortCmp col b c ≤ 0) →
      decide (sortCmp col a c ≤ 0) := by
    intro a b c
    simp only [sortCmp_le_zero h, decide_eq_true_eq]
    exact le_trans
  have htotal : ∀ a b : ℕ, (decide (sortCmp col a b ≤ 0) || decide (sortCmp col b a ≤ 0)) = true := by
    intro a b
    simp only [sortCmp_le_zero h, Bool.or_eq_true, decide_eq_true_eq]
    exact le_total _ _
  have hnodup : (raySortIndices col).Nodup := (raySortIndices_perm col).nodup_iff.mpr nodup_range
  rw [SortedBy, pairwise_iff_forall_sublist]
  intro a b hab
  have hle : col.cell a ≤ col.cell b := by
    have := pairwise_iff_forall_sublist.mp (pairwise_mergeSort htrans htotal (range col.len)) hab
    simpa [sortCmp_le_zero h] using this
  have hpos := pairwise_iff_forall_sublist.mp (pairwise_idxOf hnodup) hab
  rcases hle.lt_or_eq with hlt | heq
  · exact .inl hlt
  · refine .inr ⟨heq, ?_⟩
    -- were `b` the earlier row, stability would put it first
    by_contra hge
    have hne : b ≠ a := by
      rintro rfl
      exact lt_irrefl _ hpos
    have hb : b ∈ range col.len := (raySortIndices_perm col).subset (hab.subset (by simp))
    have ha : a ∈ range col.len := (raySortIndices_perm col).subset (hab.subset (by simp))
    have hpair : [b, a].Sublist (range col.len) := by
      have hsub : [b, a].Subset (range col.len) := by
        intro x hx
        rcases mem_pair.mp hx with rfl | rfl
        · exact hb
        · exact ha
      apply sublist_of_subperm_of_pairwise (subperm_of_subset (by simpa using hne) hsub) _ pairwise_lt_range
      simp only [pairwise_cons, mem_singleton, not_mem_nil, List.Pairwise.nil]
      refine ⟨?_, by simp⟩
      rintro x rfl
      omega
    have hback := pair_sublist_mergeSort htrans htotal (by simp [sortCmp_le_zero h, heq]) hpair
    exact absurd (pairwise_iff_forall_sublist.mp (pairwise_idxOf hnodup) hback) (by omega)

lemma bloomAdd_spec (k : ℕ) (bits : List Bool) (h : UInt64) :
    (bloomAdd k bits h).length = bits.length ∧
    (∀ i, bits.getD i false = true → (bloomAdd k bits h).getD i false = true) ∧
      (0 < bits.length → ∀ kk < k, (bloomAdd k bits h).getD (bloomPos bits.length h kk) false = true) := by
  induction k with
  | zero => exact ⟨rfl, fun _ hi => hi, fun _ kk hkk => by omega⟩
  | succ k ih =>
    obtain ⟨h1, h2, h3⟩ := ih
    have hstep : bloomAdd (k + 1) bits h
        = (bloomAdd k bits h).set (bloomPos (bloomAdd k bits h).length h k) true := by
      rw [bloomAdd, range_succ, foldl_append]
      rfl
    have hkeep : ∀ i, (bloomAdd k bits h).getD i false = true → (bloomAdd (k + 1) bits h).getD i false = true := by
      intro i hi
      rw [hstep]
      by_cases he : bloomPos (bloomAdd k bits h).length h k = i
      · have hlt : i < (bloomAdd k bits h).length := by
          by_contra hge
          rw [getD_eq_default _ _ (Nat.le_of_not_lt hge)] at hi
          cases hi
        rw [he]
        simp [hlt]
      · rwa [getD_eq_getElem?_getD, getElem?_set_ne he, ← getD_eq_getElem?_getD]
    refine ⟨by rw [hstep, length_set, h1], fun i hi => hkeep i (h2 i hi), fun hpos kk hkk => ?_⟩
    obtain hlt | rfl := Nat.lt_or_eq_of_le (Nat.le_of_lt_succ hkk)
    · exact hkeep _ (h3 hpos kk hlt)
    · rw [hstep, h1]
      have hp : bloomPos bits.length h kk < (bloomAdd kk bits h).length := by
        rw [h1]
        exact Nat.mod_lt _ hpos
      simp [hp]

lemma foldl_bloom (cs : List ℤ) (bits : List Bool) (hpos : 0 < bits.length) :
    (cs.foldl (fun bits c => if col.nullCell c then bits else bloomAdd 3 bits (keyHash c)) bits).length =
      bits.length ∧
      (∀ i, bits.getD i false = true →
        (cs.foldl (fun bits c => if col.nullCell c then bits else bloomAdd 3 bits (keyHash c)) bits).getD i false =
          true) ∧
      ∀ c ∈ cs, col.nullCell c = false → ∀ kk < 3,
        (cs.foldl (fun bits c => if col.nullCell c then bits else bloomAdd 3 bits (keyHash c)) bits).getD
          (bloomPos bits.length (keyHash c) kk) false = true := by
  induction cs generalizing bits with
  | nil => exact ⟨rfl, fun _ h => h, by simp⟩
  | cons c cs ih =>
    rw [foldl_cons]
    by_cases hn : col.nullCell c = true
    · rw [if_pos hn]
      obtain ⟨h1, h2, h3⟩ := ih bits hpos
      refine ⟨h1, h2, fun x hx hxn => ?_⟩
      rcases mem_cons.mp hx with rfl | hx
      · rw [hn] at hxn
        cases hxn
      · exact h3 x hx hxn
    · rw [if_neg hn]
      obtain ⟨b1, b2, b3⟩ := bloomAdd_spec 3 bits (keyHash c)
      obtain ⟨h1, h2, h3⟩ := ih (bloomAdd 3 bits (keyHash c)) (by rw [b1]; exact hpos)
      rw [b1] at h1 h3
      refine ⟨h1, fun i hi => h2 i (b2 i hi), fun x hx hxn kk hkk => ?_⟩
      rcases mem_cons.mp hx with rfl | hx
      · exact h2 _ (b3 hpos kk hkk)
      · exact h3 x hx hxn kk hkk

lemma bloomScan_bits {c : ℤ} (hc : c ∈ col.cells) (hn : col.nullCell c = false) {kk : ℕ}
    (hk : kk < (bloomScan col).k) :
    (bloomScan col).bits.getD (bloomPos (bloomScan col).bits.length (keyHash c) kk) false = true := by
  have hpos : ∀ m, 0 < (replicate (max 64 m) false).length := by
    intro m
    rw [length_replicate]
    omega
  obtain ⟨h1, -, h3⟩ := @foldl_bloom col col.cells _ (hpos _)
  rw [← h1] at h3
  exact h3 c hc hn kk hk

end Rayforce.Index
