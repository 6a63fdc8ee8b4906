import Mathlib

/-! The least and the greatest row that passes a test. -/

namespace Rayforce.Library.Extremes

open List

variable {α : Type} [LinearOrder α] {p q : α → Bool} {l : List α} {a m : α}

def leastOf (p : α → Bool) (l : List α) : Option α := (l.insertionSort (· ≤ ·)).find? p

def greatestOf (p : α → Bool) (l : List α) : Option α := (l.insertionSort (· ≤ ·)).reverse.find? p

omit [LinearOrder α] in
lemma find?_of_pairwise {R : α → α → Prop} (hr : ∀ x, R x x) (hl : l.Pairwise R) (h : l.find? p = some m) :
    p m = true ∧ m ∈ l ∧ ∀ x ∈ l, p x = true → R m x := by
  obtain ⟨hp, as, bs, rfl, hskip⟩ := find?_eq_some_iff_append.mp h
  refine ⟨hp, by simp, fun x hx hpx => ?_⟩
  rcases mem_append.mp hx with hx | hx
  · have := hskip x hx
    simp_all
  · rcases mem_cons.mp hx with rfl | hx
    · exact hr x
    · exact (pairwise_cons.mp (pairwise_append.mp hl).2.1).1 x hx

lemma isLeast_of_leastOf (h : leastOf p l = some m) : IsLeast {x | x ∈ l ∧ p x = true} m := by
  obtain ⟨hp, hm, hle⟩ := find?_of_pairwise le_refl (pairwise_insertionSort (· ≤ ·) l) h
  refine ⟨⟨(mem_insertionSort _).mp hm, hp⟩, fun x hx => hle x ((mem_insertionSort _).mpr hx.1) hx.2⟩

lemma isGreatest_of_greatestOf (h : greatestOf p l = some m) : IsGreatest {x | x ∈ l ∧ p x = true} m := by
  have hsorted : (l.insertionSort (· ≤ ·)).reverse.Pairwise (· ≥ ·) :=
    pairwise_reverse.mpr (pairwise_insertionSort (· ≤ ·) l)
  obtain ⟨hp, hm, hle⟩ := find?_of_pairwise (R := (· ≥ ·)) le_refl hsorted h
  refine ⟨⟨(mem_insertionSort _).mp (mem_reverse.mp hm), hp⟩, fun x hx => hle x ?_ hx.2⟩
  exact mem_reverse.mpr ((mem_insertionSort _).mpr hx.1)

lemma leastOf_eq_none : leastOf p l = none ↔ ∀ x ∈ l, p x = false := by
  simp [leastOf]

lemma greatestOf_eq_none : greatestOf p l = none ↔ ∀ x ∈ l, p x = false := by
  simp [greatestOf]

lemma leastOf_eq_some (h : IsLeast {x | x ∈ l ∧ p x = true} m) : leastOf p l = some m := by
  cases hl : leastOf p l with
  | none =>
    have := leastOf_eq_none.mp hl m h.1.1
    simp_all [h.1.2]
  | some m' => rw [(isLeast_of_leastOf hl).unique h]

lemma greatestOf_eq_some (h : IsGreatest {x | x ∈ l ∧ p x = true} m) : greatestOf p l = some m := by
  cases hl : greatestOf p l with
  | none =>
    have := greatestOf_eq_none.mp hl m h.1.1
    simp_all [h.1.2]
  | some m' => rw [(isGreatest_of_greatestOf hl).unique h]

omit [LinearOrder α] in
lemma find?_eq_of_mem (h : ∀ x ∈ l, p x = q x) : l.find? p = l.find? q := by
  induction l with
  | nil => rfl
  | cons x l ih =>
    rw [find?_cons, find?_cons, h x mem_cons_self, ih fun y hy => h y (mem_cons_of_mem x hy)]

lemma leastOf_congr (h : ∀ x ∈ l, p x = q x) : leastOf p l = leastOf q l :=
  find?_eq_of_mem fun x hx => h x ((mem_insertionSort _).mp hx)

lemma greatestOf_congr (h : ∀ x ∈ l, p x = q x) : greatestOf p l = greatestOf q l :=
  find?_eq_of_mem fun x hx => h x ((mem_insertionSort _).mp (mem_reverse.mp hx))

lemma isLeast_foldl_min (a : α) (l : List α) : IsLeast {x | x = a ∨ x ∈ l} (l.foldl min a) := by
  induction l generalizing a with
  | nil => exact ⟨by simp, fun x hx => by simp_all⟩
  | cons b l ih =>
    obtain ⟨hmem, hle⟩ := ih (min a b)
    refine ⟨?_, ?_⟩
    · rcases hmem with h | h
      · rcases min_choice a b with hab | hab
        · exact Or.inl (h.trans hab)
        · exact Or.inr (by simp [h.trans hab])
      · exact Or.inr (mem_cons_of_mem b h)
    · rintro x (rfl | hx)
      · exact (hle (Or.inl rfl)).trans (min_le_left x b)
      · rcases mem_cons.mp hx with rfl | hx
        · exact (hle (Or.inl rfl)).trans (min_le_right a x)
        · exact hle (Or.inr hx)

lemma isGreatest_foldl_max (a : α) (l : List α) : IsGreatest {x | x = a ∨ x ∈ l} (l.foldl max a) :=
  isLeast_foldl_min (α := αᵒᵈ) a l

lemma leastOf_eq_foldl_cons {b : α} {r : List α} (h : l.filter p = b :: r) :
    leastOf p l = some (r.foldl min b) := by
  obtain ⟨hmem, hle⟩ := isLeast_foldl_min b r
  have hset : ∀ x, (x ∈ l ∧ p x = true) ↔ (x = b ∨ x ∈ r) := by
    intro x
    rw [← mem_filter, h, mem_cons]
  exact leastOf_eq_some ⟨(hset _).mpr hmem, fun x hx => hle ((hset x).mp hx)⟩

lemma leastOf_eq_foldl (ha : ∀ x ∈ l, p x = true → x ≤ a) :
    leastOf p l = if (l.filter p).length = 0 then none else some ((l.filter p).foldl min a) := by
  cases h : l.filter p with
  | nil =>
    rw [length_nil, if_pos rfl, leastOf_eq_none]
    intro x hx
    have : x ∉ l.filter p := by rw [h]; simp
    simpa [hx] using this
  | cons b r =>
    have hb : b ∈ l.filter p := by rw [h]; simp
    have hba := ha b (mem_of_mem_filter hb) (mem_filter.mp hb).2
    rw [if_neg (by simp), leastOf_eq_foldl_cons h, foldl_cons, min_eq_right hba]

lemma greatestOf_eq_leastOf : greatestOf p l = leastOf (α := αᵒᵈ) p l := by
  cases h : leastOf (α := αᵒᵈ) p l with
  | none => exact greatestOf_eq_none.mpr (leastOf_eq_none (α := αᵒᵈ) |>.mp h)
  | some m => exact greatestOf_eq_some (α := α) (isLeast_of_leastOf (α := αᵒᵈ) h)

lemma greatestOf_eq_foldl_cons {b : α} {r : List α} (h : l.filter p = b :: r) :
    greatestOf p l = some (r.foldl max b) := by
  rw [greatestOf_eq_leastOf]
  exact leastOf_eq_foldl_cons (α := αᵒᵈ) h

lemma greatestOf_eq_foldl (ha : ∀ x ∈ l, p x = true → a ≤ x) :
    greatestOf p l = if (l.filter p).length = 0 then none else some ((l.filter p).foldl max a) := by
  rw [greatestOf_eq_leastOf]
  exact leastOf_eq_foldl (α := αᵒᵈ) ha

end Rayforce.Library.Extremes
