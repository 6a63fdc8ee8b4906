import Rayforce.Index.Consult

namespace Rayforce.Index

open Library.Segments Library.Grouping Library.Probing List Option

variable {col : Column} {cap : ℕ}
variable {gkeys : List ℤ} {st : GroupState} {g : ℕ}

def keyRows (col : Column) (k : ℤ) : List ℕ := (List.range col.len).filter fun r => !col.isNull r && col.cell r = k

structure Grouped (col : Column) (cap : ℕ) (cs : List ℤ) (st : GroupState) : Prop where
  table_length : st.table.length = cap
  chained : Chained (fun g => keyHome (groupKey st.gkeys g)) st.table
  mem_table : ∀ g, some g ∈ st.table ↔ g < st.gkeys.length
  table_occupied : occupied st.table = st.gkeys.length
  nodup : st.gkeys.Nodup
  bound : st.gkeys.length ≤ cs.length
  mem_keys : ∀ k, k ∈ st.gkeys ↔ k ∈ cs ∧ col.nullCell k = false
  rgid_eq : st.rgid = cs.map fun c => if col.nullCell c then none else some (st.gkeys.idxOf c)

lemma groupKey_idxOf {c : ℤ} (h : c ∈ gkeys) : groupKey gkeys (gkeys.idxOf c) = c := by
  rw [groupKey, getD_eq_getElem _ _ (idxOf_lt_length_of_mem h)]
  exact getElem_idxOf _

lemma idxOf_groupKey (hn : gkeys.Nodup) (h : g < gkeys.length) : gkeys.idxOf (groupKey gkeys g) = g := by
  rw [groupKey, getD_eq_getElem _ _ h]
  exact hn.idxOf_getElem g h

lemma groupKey_mem (h : g < gkeys.length) : groupKey gkeys g ∈ gkeys := by
  rw [groupKey, getD_eq_getElem _ _ h]
  exact getElem_mem h

lemma groupKey_append {c : ℤ} (h : g < gkeys.length) : groupKey (gkeys ++ [c]) g = groupKey gkeys g := by
  simp [groupKey, getElem?_append_left h]

lemma lookup_groups {table : Cells ℕ} (hn : gkeys.Nodup)
    (hc : Chained (fun g => keyHome (groupKey gkeys g)) table) (hm : ∀ g, some g ∈ table ↔ g < gkeys.length)
    (ho : occupied table < table.length) (k : ℤ) :
    lookup table (keyHome k) (fun g => groupKey gkeys g = k) =
      some (if k ∈ gkeys then some (gkeys.idxOf k) else none) := by
  obtain ⟨r, hr⟩ := isSome_iff_exists.mp (lookup_isSome (keyHome k) (fun g => decide (groupKey gkeys g = k)) ho)
  rw [hr]
  cases r with
  | none =>
    rw [if_neg]
    intro hk
    have hg := idxOf_lt_length_of_mem hk
    have hmiss := lookup_missing hc (e := gkeys.idxOf k) (by rw [groupKey_idxOf hk]) ((hm _).mpr hg) hr
    rw [groupKey_idxOf hk] at hmiss
    simp at hmiss
  | some g =>
    obtain ⟨hmem, hhit⟩ := lookup_found hr
    have hg := (hm g).mp hmem
    have hkey : groupKey gkeys g = k := by simpa using hhit
    rw [if_pos (hkey ▸ groupKey_mem hg), ← hkey, idxOf_groupKey hn hg]

lemma Grouped.step {cs : List ℤ} (h : Grouped col cap cs st) (hroom : cs.length < cap) (c : ℤ) :
    ∃ st', groupRow col st c = some st' ∧ Grouped col cap (cs ++ [c]) st' := by
  have hlt : st.gkeys.length < st.table.length := by
    rw [h.table_length]
    exact h.bound.trans_lt hroom
  have hlook := lookup_groups h.nodup h.chained h.mem_table (by rw [h.table_occupied]; exact hlt) c
  simp only [groupRow, hlook]
  by_cases hnull : col.nullCell c = true
  · rw [if_pos hnull]
    refine ⟨_, rfl, h.table_length, h.chained, h.mem_table, h.table_occupied, h.nodup, ?_, ?_, ?_⟩
    · exact h.bound.trans (by simp)
    · intro k
      rw [h.mem_keys, mem_append, mem_singleton]
      constructor
      · rintro ⟨hk, hn⟩
        exact ⟨.inl hk, hn⟩
      · rintro ⟨hk | rfl, hn⟩
        · exact ⟨hk, hn⟩
        · rw [hnull] at hn
          cases hn
    · dsimp only
      rw [h.rgid_eq, map_append, map_singleton, if_pos hnull]
  · have hnf := Bool.eq_false_of_not_eq_true hnull
    rw [if_neg hnull]
    by_cases hc : c ∈ st.gkeys
    · simp only [hc, if_true]
      refine ⟨_, rfl, h.table_length, h.chained, h.mem_table, h.table_occupied, h.nodup, ?_, ?_, ?_⟩
      · exact h.bound.trans (by simp)
      · intro k
        rw [h.mem_keys, mem_append, mem_singleton]
        constructor
        · rintro ⟨hk, hn⟩
          exact ⟨.inl hk, hn⟩
        · rintro ⟨hk | rfl, hn⟩
          · exact ⟨hk, hn⟩
          · exact (h.mem_keys k).mp hc
      · dsimp only
        rw [h.rgid_eq, map_append, map_singleton, if_neg hnull]
    · simp only [hc, if_false]
      obtain ⟨table, hplace⟩ := isSome_iff_exists.mp
        (place_isSome (keyHome c) st.gkeys.length
          (show occupied st.table < st.table.length by rw [h.table_occupied]; exact hlt))
      have hlast : groupKey (st.gkeys ++ [c]) st.gkeys.length = c := by simp [groupKey]
      have hch : Chained (fun g => keyHome (groupKey (st.gkeys ++ [c]) g)) st.table := by
        intro s g hs
        have hg := (h.mem_table g).mp (mem_of_cellAt hs)
        have hhome := h.chained s g hs
        dsimp only at hhome ⊢
        rwa [groupKey_append hg]
      rw [hplace, map_some]
      refine ⟨_, rfl, ?_, ?_, ?_, ?_, ?_, ?_, ?_, ?_⟩
      · exact (place_length hplace).trans h.table_length
      · apply place_chained hch (e := st.gkeys.length)
        rwa [hlast]
      · intro g
        rw [place_mem hplace, h.mem_table, length_append, length_singleton]
        omega
      · rw [place_occupied hplace, h.table_occupied, length_append, length_singleton]
      · exact nodup_append.mpr ⟨h.nodup, nodup_singleton c, fun a ha b hb => by
          rw [mem_singleton.mp hb]
          rintro rfl
          exact hc ha⟩
      · rw [length_append, length_append]
        exact Nat.add_le_add_right h.bound 1
      · intro k
        rw [mem_append, mem_append, mem_singleton, h.mem_keys]
        constructor
        · rintro (⟨hk, hn⟩ | rfl)
          · exact ⟨.inl hk, hn⟩
          · exact ⟨.inr rfl, hnf⟩
        · rintro ⟨hk | rfl, hn⟩
          · exact .inl ⟨hk, hn⟩
          · exact .inr rfl
      · dsimp only
        rw [h.rgid_eq, map_append, map_singleton, if_neg hnull, idxOf_append_of_notMem hc]
        congr 1
        · apply map_congr_left
          intro x hx
          by_cases hxn : col.nullCell x = true
          · rw [if_pos hxn, if_pos hxn]
          · rw [if_neg hxn, if_neg hxn, idxOf_append_of_mem]
            exact (h.mem_keys x).mpr ⟨hx, Bool.eq_false_of_not_eq_true hxn⟩
        · simp

lemma Grouped.run {cs rest : List ℤ} (h : Grouped col cap cs st) (hroom : cs.length + rest.length < cap) :
    ∃ st', rest.foldlM (groupRow col) st = some st' ∧ Grouped col cap (cs ++ rest) st' := by
  induction rest generalizing cs st with
  | nil => exact ⟨st, rfl, by simpa using h⟩
  | cons c rest ih =>
    rw [length_cons] at hroom
    obtain ⟨st1, hs, h1⟩ := h.step (by omega) c
    obtain ⟨st2, hr, h2⟩ := ih h1 (by rw [length_append, length_singleton]; omega)
    refine ⟨st2, ?_, by simpa using h2⟩
    rw [foldlM_cons, hs]
    exact hr

lemma grouped_start (col : Column) (cap : ℕ) : Grouped col cap [] ⟨List.replicate cap none, [], []⟩ where
  table_length := length_replicate
  chained := chained_replicate cap
  mem_table g := by simp [mem_replicate]
  table_occupied := occupied_replicate cap
  nodup := nodup_nil
  bound := le_rfl
  mem_keys k := by simp
  rgid_eq := rfl

structure HashOk (col : Column) (ix : HashIndex) : Prop where
  probe : ∀ k, ∃ g, ix.probe k = some g ∧ (g = none ↔ keyRows col k = [])
  group : ∀ k g, ix.probe k = some (some g) →
    ix.groupIds g = keyRows col k ∧ ix.groupSize g = (keyRows col k).length
  first : ∀ k g, ix.probe k = some (some g) → (keyRows col k).head? = some (ix.rows.getD (ix.offs.getD g 0) 0)

lemma mem_keyRows {k : ℤ} {r : ℕ} : r ∈ keyRows col k ↔ r < col.len ∧ col.isNull r = false ∧ col.cell r = k := by
  simp [keyRows]

lemma keyRows_ne_nil {k : ℤ} : keyRows col k ≠ [] ↔ k ∈ col.cells ∧ col.nullCell k = false := by
  rw [Column.mem_cells]
  constructor
  · intro h
    obtain ⟨r, hr⟩ := exists_mem_of_ne_nil _ h
    obtain ⟨hlt, hn, rfl⟩ := mem_keyRows.mp hr
    exact ⟨⟨r, hlt, rfl⟩, hn⟩
  · rintro ⟨⟨r, hlt, rfl⟩, hn⟩
    exact ne_nil_of_mem (mem_keyRows.mpr ⟨hlt, hn, rfl⟩)

lemma groupRows_eq_keyRows (h : Grouped col cap col.cells st) (hg : g < st.gkeys.length) :
    groupRows st.rgid g = keyRows col (groupKey st.gkeys g) := by
  have hlen : st.rgid.length = col.len := by rw [h.rgid_eq, length_map]; rfl
  rw [groupRows, rowsIn, hlen, keyRows]
  apply filter_congr
  intro r hr
  have hr' := mem_range.mp hr
  have hcell : st.rgid.getD r none
      = if col.nullCell (col.cell r) then none else some (st.gkeys.idxOf (col.cell r)) := by
    rw [h.rgid_eq, getD_eq_getElem _ _ (by rw [length_map]; exact hr'), getElem_map, Column.cell,
      getD_eq_getElem _ _ hr']
    rfl
  rw [hcell, Column.isNull]
  by_cases hn : col.nullCell (col.cell r) = true
  · simp [hn]
  · have hk := (h.mem_keys (col.cell r)).mpr ⟨Column.cell_mem hr', Bool.eq_false_of_not_eq_true hn⟩
    have hiff : st.gkeys.idxOf (col.cell r) = g ↔ col.cell r = groupKey st.gkeys g := by
      constructor
      · rintro rfl
        exact (groupKey_idxOf hk).symm
      · intro he
        rw [he]
        exact idxOf_groupKey h.nodup hg
    simp [hn, hiff]

theorem rayIndexAttachHash_spec (col : Column) : ∃ ix, rayIndexAttachHash col = some ix ∧ HashOk col ix := by
  have hcap := lt_bucketCap col.short
  have hroom : ([] : List ℤ).length + col.cells.length < bucketCap col.len := by rwa [length_nil, Nat.zero_add]
  obtain ⟨st, hrun, h⟩ := (grouped_start col (bucketCap col.len)).run hroom
  rw [nil_append] at h
  have hng : st.gkeys.length < 2 ^ 32 := h.bound.trans_lt col.short
  have hocc : occupied ((range st.gkeys.length).map some) = st.gkeys.length := by
    rw [occupied, countP_map, countP_eq_length.mpr (by simp), length_range]
  obtain ⟨table, htable, hlen, hch, ho, hm⟩ := rehash_spec (fun g => keyHome (groupKey st.gkeys g))
    (show occupied ((range st.gkeys.length).map some) <
      bucketCap st.gkeys.length by rw [hocc]; exact lt_bucketCap hng)
  have hmem : ∀ g, some g ∈ table ↔ g < st.gkeys.length := by
    intro g
    rw [hm]
    simp
  have hall : ∀ g, some g ∈ st.rgid → g < st.gkeys.length := by
    intro g hg
    rw [h.rgid_eq] at hg
    obtain ⟨c, hc, he⟩ := mem_map.mp hg
    split_ifs at he with hn
    rw [← some.inj he]
    exact idxOf_lt_length_of_mem ((h.mem_keys c).mpr ⟨hc, Bool.eq_false_of_not_eq_true hn⟩)
  obtain ⟨hslice, hsize⟩ := grouped_spec hall
  obtain ⟨ix, hix⟩ : ∃ ix, ix = HashIndex.mk table st.gkeys (grouped st.gkeys.length st.rgid).1
    (grouped st.gkeys.length st.rgid).2 := ⟨_, rfl⟩
  have hprobe : ∀ k, ix.probe k = some (if k ∈ st.gkeys then some (st.gkeys.idxOf k) else none) := by
    rw [hix]
    exact lookup_groups h.nodup hch hmem (by rw [ho, hocc, hlen]; exact lt_bucketCap hng)
  have hfound : ∀ k g, ix.probe k = some (some g) → g < st.gkeys.length ∧ groupKey st.gkeys g = k := by
    intro k g hg
    rw [hprobe] at hg
    split_ifs at hg with hk
    · cases hg
      exact ⟨idxOf_lt_length_of_mem hk, groupKey_idxOf hk⟩
    · cases hg
  have hgroup : ∀ k g, ix.probe k = some (some g) →
      ix.groupIds g = keyRows col k ∧ ix.groupSize g = (keyRows col k).length := by
    intro k g hg
    obtain ⟨hlt, rfl⟩ := hfound k g hg
    rw [← groupRows_eq_keyRows h hlt, hix]
    exact ⟨hslice g hlt, hsize g hlt⟩
  refine ⟨ix, ?_, fun k => ⟨_, hprobe k, ?_⟩, hgroup, fun k g hg => ?_⟩
  · rw [rayIndexAttachHash, hrun, hix]
    simp only [bind_eq_bind, bind_some, htable]
    rfl
  · have hiff : k ∈ st.gkeys ↔ keyRows col k ≠ [] := (h.mem_keys k).trans keyRows_ne_nil.symm
    by_cases hk : k ∈ st.gkeys
    · simp [hk, hiff.mp hk]
    · simpa [hk] using hiff.not.mp hk
  · obtain ⟨hids, -⟩ := hgroup k g hg
    obtain ⟨hlt, rfl⟩ := hfound k g hg
    have hne : keyRows col (groupKey st.gkeys g) ≠ [] :=
      keyRows_ne_nil.mpr ((h.mem_keys _).mp (groupKey_mem hlt))
    rw [← hids, HashIndex.groupIds, slice] at hne ⊢
    obtain ⟨hlen', htake⟩ : ix.offs.getD g 0 < ix.rows.length ∧
        ix.offs.getD (g + 1) 0 - ix.offs.getD g 0 ≠ 0 := by
      constructor
      · by_contra hge
        exact hne (by rw [drop_eq_nil_of_le (Nat.le_of_not_lt hge), take_nil])
      · intro hz
        exact hne (by rw [hz, take_zero])
    rw [head?_take, if_neg htake, head?_drop, getD_eq_getElem _ _ hlen', getElem?_eq_getElem hlen']

end Rayforce.Index
