import Mathlib

/-! Open addressing with linear probing. -/

namespace Rayforce.Library.Probing

open List Option

variable {β : Type}

abbrev Cells (β : Type) := List (Option β)

def cellAt (cells : Cells β) (slot : ℕ) : Option β := (cells[slot]?).join

def seek (cap : ℕ) (stop : ℕ → Bool) : ℕ → ℕ → Option ℕ
  | 0, _ => none
  | fuel + 1, slot => if stop slot then some slot else seek cap stop fuel ((slot + 1) % cap)

def place (cells : Cells β) (start : ℕ) (e : β) : Option (Cells β) :=
  (seek cells.length (fun s => (cellAt cells s).isNone) cells.length (start % cells.length)).map
    fun s => cells.set s (some e)

def lookup (cells : Cells β) (start : ℕ) (hit : β → Bool) : Option (Option β) :=
  (seek cells.length (fun s => (cellAt cells s).all hit) cells.length (start % cells.length)).map
    (cellAt cells)

def occupied (cells : Cells β) : ℕ := cells.countP Option.isSome

def rehash (home : β → ℕ) (cap : ℕ) (cells : Cells β) : Option (Cells β) :=
  cells.foldlM (fun acc c => c.elim (some acc) (fun e => place acc (home e) e)) (List.replicate cap none)

def Chained (home : β → ℕ) (cells : Cells β) : Prop :=
  ∀ s e, cellAt cells s = some e → ∃ k, s = (home e + k) % cells.length ∧
    ∀ j < k, (cellAt cells ((home e + j) % cells.length)).isSome

section

variable {cap : ℕ} {stop : ℕ → Bool}

lemma seek_spec {fuel slot r : ℕ} (hs : slot < cap) (h : seek cap stop fuel slot = some r) :
    ∃ k < fuel, r = (slot + k) % cap ∧ stop r ∧ ∀ j < k, stop ((slot + j) % cap) = false := by
  induction fuel generalizing slot with
  | zero => simp [seek] at h
  | succ fuel ih =>
    simp only [seek] at h
    split_ifs at h with hstop
    · obtain rfl := some.inj h
      refine ⟨0, by omega, ?_, hstop, by simp⟩
      rw [Nat.add_zero, Nat.mod_eq_of_lt hs]
    · obtain ⟨k, hk, hr, hst, hall⟩ := ih (Nat.mod_lt _ (by omega)) h
      refine ⟨k + 1, by omega, ?_, hst, ?_⟩
      · rw [hr, Nat.mod_add_mod]
        congr 1
        omega
      · intro j hj
        cases j with
        | zero => simpa [Nat.mod_eq_of_lt hs] using hstop
        | succ j =>
          have := hall j (by omega)
          rwa [Nat.mod_add_mod, show slot + 1 + j = slot + (j + 1) by omega] at this

lemma seek_isSome_of_reach {fuel slot k : ℕ} (hs : slot < cap) (hk : k < fuel)
    (hst : stop ((slot + k) % cap)) : (seek cap stop fuel slot).isSome := by
  induction fuel generalizing slot k with
  | zero => omega
  | succ fuel ih =>
    simp only [seek]
    split_ifs with hstop
    · rfl
    · cases k with
      | zero =>
        rw [Nat.add_zero, Nat.mod_eq_of_lt hs] at hst
        contradiction
      | succ k =>
        refine ih (k := k) (Nat.mod_lt _ (by omega)) (by omega) ?_
        rwa [Nat.mod_add_mod, show slot + 1 + k = slot + (k + 1) by omega]

lemma seek_isSome (stop : ℕ → Bool) {slot r : ℕ} (hs : slot < cap) (hr : r < cap) (hst : stop r) :
    (seek cap stop cap slot).isSome := by
  by_cases hle : slot ≤ r
  · refine seek_isSome_of_reach (k := r - slot) hs (by omega) ?_
    rwa [show slot + (r - slot) = r by omega, Nat.mod_eq_of_lt hr]
  · refine seek_isSome_of_reach (k := r + cap - slot) hs (by omega) ?_
    rwa [show slot + (r + cap - slot) = r + cap by omega, Nat.add_mod_right, Nat.mod_eq_of_lt hr]

end

variable {cells cells' : Cells β} {home : β → ℕ} {start : ℕ} {e : β}

lemma cellAt_eq_some {s : ℕ} : cellAt cells s = some e ↔ cells[s]? = some (some e) := by
  simp [cellAt, join_eq_some_iff]

lemma mem_of_cellAt {s : ℕ} (h : cellAt cells s = some e) : some e ∈ cells :=
  mem_of_getElem? (cellAt_eq_some.mp h)

lemma exists_cellAt (h : some e ∈ cells) : ∃ s, cellAt cells s = some e := by
  obtain ⟨s, hs⟩ := mem_iff_getElem?.mp h
  exact ⟨s, cellAt_eq_some.mpr hs⟩

lemma cellAt_set {s t : ℕ} (hs : s < cells.length) :
    cellAt (cells.set s (some e)) t = if t = s then some e else cellAt cells t := by
  by_cases h : t = s
  · subst h
    simp [cellAt, hs]
  · simp [cellAt, getElem?_set_ne (Ne.symm h), h]

lemma exists_free (h : occupied cells < cells.length) : ∃ s < cells.length, cellAt cells s = none := by
  by_contra hc
  push Not at hc
  have hall : ∀ c ∈ cells, isSome c := by
    intro c hm
    obtain ⟨s, hs, rfl⟩ := mem_iff_getElem.mp hm
    have := hc s hs
    simpa [cellAt, hs, isSome_iff_ne_none] using this
  have : occupied cells = cells.length := countP_eq_length.mpr hall
  omega

lemma lookup_isSome (start : ℕ) (hit : β → Bool) (h : occupied cells < cells.length) :
    (lookup cells start hit).isSome := by
  obtain ⟨s, hs, hfree⟩ := exists_free h
  have := seek_isSome (fun s => (cellAt cells s).all hit)
    (Nat.mod_lt start (show 0 < cells.length by omega)) hs (by simp [hfree])
  simpa [lookup] using this

lemma lookup_found {hit : β → Bool} (h : lookup cells start hit = some (some e)) : some e ∈ cells ∧ hit e := by
  obtain ⟨s, hs, hc⟩ := map_eq_some_iff.mp h
  have hpos : 0 < cells.length := length_pos_of_mem (mem_of_cellAt hc)
  obtain ⟨_, _, _, hstop, _⟩ := seek_spec (Nat.mod_lt start hpos) hs
  simp only [hc, all_some] at hstop
  exact ⟨mem_of_cellAt hc, hstop⟩

lemma lookup_missing {hit : β → Bool} (hc : Chained home cells)
    (hhome : home e % cells.length = start % cells.length) (hm : some e ∈ cells)
    (h : lookup cells start hit = some none) : hit e = false := by
  have hpos : 0 < cells.length := length_pos_of_mem hm
  obtain ⟨r, hr, hnone⟩ := map_eq_some_iff.mp h
  obtain ⟨k, -, hrk, -, hpass⟩ := seek_spec (Nat.mod_lt start hpos) hr
  have hslot : ∀ j, (start % cells.length + j) % cells.length = (home e + j) % cells.length := by
    intro j
    rw [← hhome, Nat.mod_add_mod]
  obtain ⟨s, hs⟩ := exists_cellAt hm
  obtain ⟨k', hsk, hocc⟩ := hc s e hs
  rcases lt_trichotomy k' k with hlt | heq | hgt
  · have := hpass k' hlt
    rw [hslot, ← hsk, hs] at this
    simpa using this
  · rw [hrk, hslot, ← heq, ← hsk, hs] at hnone
    cases hnone
  · have := hocc k hgt
    rw [← hslot, ← hrk, hnone] at this
    simp at this

lemma place_isSome (start : ℕ) (e : β) (h : occupied cells < cells.length) : (place cells start e).isSome := by
  obtain ⟨s, hs, hfree⟩ := exists_free h
  have := seek_isSome (fun s => (cellAt cells s).isNone)
    (Nat.mod_lt start (show 0 < cells.length by omega)) hs (by simp [hfree])
  simpa [place] using this

section

variable (h : place cells start e = some cells')
include h

lemma place_spec : ∃ s k, s = (start + k) % cells.length ∧ s < cells.length ∧ cellAt cells s = none ∧
      (∀ j < k, (cellAt cells ((start + j) % cells.length)).isSome) ∧ cells' = cells.set s (some e) := by
  obtain ⟨s, hs, rfl⟩ := map_eq_some_iff.mp h
  have hpos : 0 < cells.length := by
    by_contra hn
    have : cells.length = 0 := by omega
    simp [this, seek] at hs
  obtain ⟨k, -, hk, hfree, hpass⟩ := seek_spec (Nat.mod_lt start hpos) hs
  rw [Nat.mod_add_mod] at hk
  refine ⟨s, k, hk, hk ▸ Nat.mod_lt _ hpos, by simpa using hfree, ?_, rfl⟩
  intro j hj
  have := hpass j hj
  rw [Nat.mod_add_mod] at this
  simpa [isSome_iff_ne_none, isNone_iff_eq_none] using this

@[simp] lemma place_length : cells'.length = cells.length := by
  obtain ⟨s, k, -, -, -, -, rfl⟩ := place_spec h
  simp

lemma place_mem {x : β} : some x ∈ cells' ↔ x = e ∨ some x ∈ cells := by
  obtain ⟨s, k, -, hs, hfree, -, rfl⟩ := place_spec h
  constructor
  · intro hx
    obtain ⟨t, ht⟩ := exists_cellAt hx
    rw [cellAt_set hs] at ht
    split_ifs at ht with hts
    · exact .inl (some.inj ht).symm
    · exact .inr (mem_of_cellAt ht)
  · rintro (rfl | hx)
    · exact mem_set hs _
    · obtain ⟨t, ht⟩ := exists_cellAt hx
      refine mem_of_cellAt (s := t) ?_
      rw [cellAt_set hs, if_neg, ht]
      rintro rfl
      rw [hfree] at ht
      cases ht

lemma place_occupied : occupied cells' = occupied cells + 1 := by
  obtain ⟨s, k, -, hs, hfree, -, rfl⟩ := place_spec h
  have hget : cells[s] = none := by simpa [cellAt, hs] using hfree
  have := countP_set (p := isSome) (a := some e) hs
  simpa [occupied, hget] using this

end

lemma place_chained (hc : Chained home cells) (h : place cells (home e) e = some cells') :
    Chained home cells' := by
  obtain ⟨s, k, hk, hs, -, hocc, rfl⟩ := place_spec h
  have hkeep : ∀ t, (cellAt cells t).isSome → (cellAt (cells.set s (some e)) t).isSome := by
    intro t ht
    rw [cellAt_set hs]
    split_ifs
    · rfl
    · exact ht
  intro t x ht
  rw [cellAt_set hs] at ht
  simp only [length_set]
  split_ifs at ht with hts
  · obtain rfl := some.inj ht
    exact ⟨k, hts ▸ hk, fun j hj => hkeep _ (hocc j hj)⟩
  · obtain ⟨k', hk', hocc'⟩ := hc t x ht
    exact ⟨k', hk', fun j hj => hkeep _ (hocc' j hj)⟩

lemma chained_replicate (cap : ℕ) : Chained home (List.replicate cap none) := by
  intro s e h
  have := mem_of_cellAt h
  simp [mem_replicate] at this

lemma occupied_replicate (cap : ℕ) : occupied (List.replicate cap (none : Option β)) = 0 := by
  simp [occupied, countP_replicate]

lemma rehash_fold (home : β → ℕ) (l acc : Cells β) (hc : Chained home acc)
    (hroom : occupied acc + occupied l < acc.length) :
    ∃ cells', l.foldlM (fun acc c => c.elim (some acc) (fun e => place acc (home e) e)) acc =
        some cells' ∧ cells'.length = acc.length ∧ Chained home cells' ∧
          occupied cells' = occupied acc + occupied l ∧
      ∀ x, some x ∈ cells' ↔ some x ∈ acc ∨ some x ∈ l := by
  induction l generalizing acc with
  | nil => exact ⟨acc, rfl, rfl, hc, rfl, by simp⟩
  | cons c l ih =>
    cases c with
    | none =>
      have hcount : occupied (none :: l) = occupied l := by simp [occupied]
      rw [hcount] at hroom ⊢
      obtain ⟨cells', hf, hl, hch, ho, hm⟩ := ih acc hc hroom
      exact ⟨cells', hf, hl, hch, ho, by simpa using hm⟩
    | some e =>
      have hcount : occupied (some e :: l) = occupied l + 1 := by simp [occupied]
      rw [hcount] at hroom ⊢
      obtain ⟨acc', hp⟩ := isSome_iff_exists.mp
        (place_isSome (home e) e (show occupied acc < acc.length by omega))
      obtain ⟨cells', hf, hl, hch, ho, hm⟩ := ih acc' (place_chained hc hp)
        (by rw [place_occupied hp, place_length hp]; omega)
      refine ⟨cells', ?_, by rw [hl, place_length hp], hch, by rw [ho, place_occupied hp]; omega, ?_⟩
      · rw [foldlM_cons]
        simpa [hp] using hf
      · intro x
        rw [hm, place_mem hp]
        simp only [mem_cons, some.injEq]
        tauto

lemma rehash_spec (home : β → ℕ) {cap : ℕ} (h : occupied cells < cap) :
    ∃ cells', rehash home cap cells = some cells' ∧ cells'.length = cap ∧ Chained home cells' ∧
      occupied cells' = occupied cells ∧ ∀ x, some x ∈ cells' ↔ some x ∈ cells := by
  obtain ⟨cells', hf, hl, hch, ho, hm⟩ := rehash_fold home cells (replicate cap none)
    (chained_replicate cap) (by simpa [occupied_replicate] using h)
  refine ⟨cells', hf, by simpa using hl, hch, by simpa [occupied_replicate] using ho, ?_⟩
  intro x
  simp [hm, mem_replicate]

end Rayforce.Library.Probing
