import Rayforce.Library.Segments

/-! Grouping rows by a counting pass. -/

namespace Rayforce.Library.Grouping

open Library.Segments List Option

variable {st : List ℕ × List ℕ} {offs : List ℕ}

def rowsIn (K : List (Option ℕ)) (i g : ℕ) : List ℕ := (List.range i).filter fun r => K.getD r none = some g

def groupRows (K : List (Option ℕ)) (g : ℕ) : List ℕ := rowsIn K K.length g

def countStep (offs : List ℕ) (k : Option ℕ) : List ℕ := k.elim offs fun g => offs.modify (g + 1) (· + 1)

def sumStep (offs : List ℕ) (g : ℕ) : List ℕ := offs.modify (g + 1) (· + offs.getD g 0)

def fillStep (K : List (Option ℕ)) (st : List ℕ × List ℕ) (i : ℕ) : List ℕ × List ℕ :=
  (K.getD i none).elim st fun g => (st.1.modify g (· + 1), st.2.set (st.1.getD g 0) i)

def shiftStep (offs : List ℕ) (g : ℕ) : List ℕ := offs.set (g + 1) (offs.getD g 0)

def grouped (n : ℕ) (K : List (Option ℕ)) : List ℕ × List ℕ :=
  let counts := K.foldl countStep (List.replicate (n + 1) 0)
  let sums := (List.range n).foldl sumStep counts
  let filled := (List.range K.length).foldl (fillStep K) (sums, List.replicate (K.countP Option.isSome) 0)
  (((List.range n).reverse.foldl shiftStep filled.1).set 0 0, filled.2)

variable {K : List (Option ℕ)} {n : ℕ}

section

variable (l : List ℕ) (f : ℕ → ℕ) (v : ℕ) {i j : ℕ}

lemma getD_modify_self (h : i < l.length) : (l.modify i f).getD i 0 = f (l.getD i 0) := by simp [h]

lemma getD_modify_ne (h : i ≠ j) : (l.modify i f).getD j 0 = l.getD j 0 := by
  simp [getD_eq_getElem?_getD, getElem?_modify_ne _ _ h]

lemma getD_set_self (h : i < l.length) : (l.set i v).getD i 0 = v := by simp [h]

lemma getD_set_ne (h : i ≠ j) : (l.set i v).getD j 0 = l.getD j 0 := by
  simp [getD_eq_getElem?_getD, getElem?_set_ne h]

end

lemma rowsIn_succ (K : List (Option ℕ)) (i g : ℕ) :
    rowsIn K (i + 1) g = if K.getD i none = some g then rowsIn K i g ++ [i] else rowsIn K i g := by
  simp only [rowsIn, range_succ, filter_append, filter_cons, filter_nil, decide_eq_true_eq]
  split_ifs <;> simp

lemma rowsIn_length_mono (K : List (Option ℕ)) (g : ℕ) {i j : ℕ} (h : i ≤ j) :
    (rowsIn K i g).length ≤ (rowsIn K j g).length := by
  induction h with
  | refl => exact le_rfl
  | step _ ih =>
    refine ih.trans ?_
    rw [rowsIn_succ]
    split_ifs <;> simp

lemma groupRows_length (K : List (Option ℕ)) (g : ℕ) : (groupRows K g).length = K.count (some g) := by
  have hK : K = (range K.length).map fun i => K.getD i none := by
    apply ext_getElem
    · simp
    · intro i h1 h2
      simp [h1]
  conv_rhs => rw [hK]
  rw [groupRows, rowsIn, count, countP_map, countP_eq_length_filter]
  congr 1
  apply filter_congr
  intro r _
  exact (Bool.beq_eq_decide_eq (K.getD r none) (some g)).symm

lemma sumTo_add (v w : ℕ → ℕ) (k : ℕ) : sumTo (fun g => v g + w g) k = sumTo v k + sumTo w k := by
  induction k with
  | zero => rfl
  | succ k ih =>
    simp only [sumTo_succ, ih]
    omega

lemma sumTo_indicator {g k : ℕ} (h : g < k) : sumTo (fun x => if g = x then 1 else 0) k = 1 := by
  have hbelow : ∀ k ≤ g, sumTo (fun x => if g = x then 1 else 0) k = 0 := by
    intro k hk
    induction k with
    | zero => rfl
    | succ k ih =>
      rw [sumTo_succ, ih (by omega), if_neg (by omega)]
  induction k with
  | zero => omega
  | succ k ih =>
    rw [sumTo_succ]
    by_cases hg : g = k
    · rw [hbelow k hg.ge, if_pos hg]
    · rw [ih (by omega), if_neg hg]

lemma sumTo_count (h : ∀ g, some g ∈ K → g < n) :
    sumTo (fun g => K.count (some g)) n = K.countP Option.isSome := by
  induction K with
  | nil =>
    have hz : sumTo (fun _ => 0) n = 0 := by
      induction n with
      | zero => rfl
      | succ n ih => rw [sumTo_succ, ih (by simp)]
    simpa using hz
  | cons k K ih =>
    have hK := ih fun g hg => h g (mem_cons_of_mem _ hg)
    cases k with
    | none => simpa [count_cons] using hK
    | some a =>
      have ha := h a mem_cons_self
      have hcount : ∀ g, (some a :: K).count (some g) = K.count (some g) + if a = g then 1 else 0 := by
        intro g
        simp [count_cons]
      simp only [hcount]
      rw [sumTo_add, hK, sumTo_indicator ha]
      simp

lemma countPass_spec (offs : List ℕ) (hn : offs.length = n + 1) (h : ∀ g, some g ∈ K → g < n) :
    (K.foldl countStep offs).length = n + 1 ∧ (K.foldl countStep offs).getD 0 0 = offs.getD 0 0 ∧
      ∀ g < n, (K.foldl countStep offs).getD (g + 1) 0 = offs.getD (g + 1) 0 + K.count (some g) := by
  induction K generalizing offs with
  | nil => exact ⟨hn, rfl, fun g _ => by simp⟩
  | cons k K ih =>
    have hK : ∀ g, some g ∈ K → g < n := fun g hg => h g (mem_cons_of_mem _ hg)
    rw [foldl_cons]
    cases k with
    | none =>
      obtain ⟨h1, h2, h3⟩ := ih (countStep offs none) hn hK
      refine ⟨h1, h2, fun g hg => ?_⟩
      rw [h3 g hg]
      simp [countStep]
    | some a =>
      have ha := h a mem_cons_self
      obtain ⟨h1, h2, h3⟩ := ih (countStep offs (some a)) (by simpa [countStep] using hn) hK
      refine ⟨h1, ?_, fun g hg => ?_⟩
      · rw [h2]
        exact getD_modify_ne _ _ (by omega)
      · rw [h3 g hg, countStep, elim_some, count_cons]
        by_cases hag : a = g
        · subst hag
          rw [getD_modify_self _ _ (by omega), beq_self_eq_true, if_pos rfl]
          omega
        · rw [getD_modify_ne _ _ (by omega), if_neg (by simpa using hag)]
          rfl

lemma sumPass_spec {w : ℕ → ℕ} (hn : offs.length = n + 1) (h0 : offs.getD 0 0 = 0)
    (hw : ∀ g < n, offs.getD (g + 1) 0 = w g) {k : ℕ} (hk : k ≤ n) :
    ((List.range k).foldl sumStep offs).length = n + 1 ∧
      (∀ g ≤ k, ((List.range k).foldl sumStep offs).getD g 0 = sumTo w g) ∧
      ∀ g, k ≤ g → g < n → ((List.range k).foldl sumStep offs).getD (g + 1) 0 = w g := by
  induction k with
  | zero =>
    refine ⟨hn, fun g hg => ?_, fun g _ hg => hw g hg⟩
    obtain rfl : g = 0 := by omega
    simpa using h0
  | succ k ih =>
    obtain ⟨h1, h2, h3⟩ := ih (by omega)
    rw [range_succ, foldl_append, foldl_cons, foldl_nil]
    have hlt : k + 1 < ((range k).foldl sumStep offs).length := by omega
    have hat : (sumStep ((range k).foldl sumStep offs) k).getD (k + 1) 0 = sumTo w (k + 1) := by
      have hv := h3 k le_rfl (by omega)
      have hs := h2 k le_rfl
      rw [sumStep, getD_modify_self _ _ hlt, hv, hs, sumTo_succ, Nat.add_comm]
    have hne : ∀ g, g ≠ k + 1 → (sumStep ((range k).foldl sumStep offs) k).getD g 0
        = ((range k).foldl sumStep offs).getD g 0 := by
      intro g hg
      exact getD_modify_ne _ _ (Ne.symm hg)
    refine ⟨by simpa [sumStep] using h1, fun g hg => ?_, fun g hg hgn => ?_⟩
    · obtain hlt | rfl := Nat.lt_or_eq_of_le hg
      · rw [hne g (by omega)]
        exact h2 g (by omega)
      · exact hat
    · rw [hne (g + 1) (by omega)]
      exact h3 g (by omega) hgn

structure Filled (K : List (Option ℕ)) (n i : ℕ) (st : List ℕ × List ℕ) : Prop where
  offs_length : st.1.length = n + 1
  rows_length : st.2.length = sumTo (fun g => K.count (some g)) n
  cursor : ∀ g < n, st.1.getD g 0 = sumTo (fun g => K.count (some g)) g + (rowsIn K i g).length
  last : st.1.getD n 0 = sumTo (fun g => K.count (some g)) n
  placed : ∀ g < n, ∀ j < (rowsIn K i g).length,
    st.2.getD (sumTo (fun g => K.count (some g)) g + j) 0 = (rowsIn K i g).getD j 0

lemma Filled.step (h : ∀ g, some g ∈ K → g < n) {i : ℕ} (hi : i < K.length)
    (hst : Filled K n i st) : Filled K n (i + 1) (fillStep K st i) := by
  cases hk : K.getD i none with
  | none =>
    have hsame : ∀ g, rowsIn K (i + 1) g = rowsIn K i g := by
      intro g
      rw [rowsIn_succ, hk, if_neg (by simp)]
    simp only [fillStep, hk, elim_none]
    refine ⟨hst.offs_length, hst.rows_length, fun g hg => ?_, hst.last, fun g hg j hj => ?_⟩
    · rw [hsame]
      exact hst.cursor g hg
    · rw [hsame] at hj ⊢
      exact hst.placed g hg j hj
  | some a =>
    have hmem : some a ∈ K := by
      rw [← hk, getD_eq_getElem _ _ hi]
      exact getElem_mem hi
    have ha := h a hmem
    have hgrow : rowsIn K (i + 1) a = rowsIn K i a ++ [i] := by rw [rowsIn_succ, if_pos hk]
    have hsame : ∀ g, g ≠ a → rowsIn K (i + 1) g = rowsIn K i g := by
      intro g hg
      rw [rowsIn_succ, hk, if_neg (by simpa using Ne.symm hg)]
    have hroom : (rowsIn K i a).length < K.count (some a) := by
      rw [← groupRows_length]
      have := rowsIn_length_mono K a (show i + 1 ≤ K.length from hi)
      rw [hgrow, length_append, length_singleton] at this
      exact this
    -- the group sizes leave every other group's places alone
    have hbound : ∀ g g', g < g' → sumTo (fun g => K.count (some g)) g + K.count (some g)
        ≤ sumTo (fun g => K.count (some g)) g' := by
      intro g g' hg
      have := sumTo_mono (fun g => K.count (some g)) (show g + 1 ≤ g' from hg)
      rwa [sumTo_succ] at this
    have hpos : st.1.getD a 0 = sumTo (fun g => K.count (some g)) a + (rowsIn K i a).length := hst.cursor a ha
    have hlt : sumTo (fun g => K.count (some g)) a + (rowsIn K i a).length < st.2.length := by
      have := hbound a n ha
      rw [hst.rows_length]
      omega
    simp only [fillStep, hk, elim_some, hpos]
    refine ⟨by simpa using hst.offs_length, by simpa using hst.rows_length, fun g hg =>
      ?_, ?_, fun g hg j hj => ?_⟩
    · by_cases hga : g = a
      · subst hga
        have hl : g < st.1.length := by have := hst.offs_length; omega
        rw [hgrow, length_append, length_singleton, ← Nat.add_assoc, ← hpos]
        exact getD_modify_self _ _ hl
      · rw [hsame g hga, ← hst.cursor g hg]
        exact getD_modify_ne _ _ (Ne.symm hga)
    · rw [← hst.last]
      exact getD_modify_ne _ _ (by omega)
    · by_cases hga : g = a
      · subst hga
        rw [hgrow] at hj ⊢
        rw [length_append, length_singleton] at hj
        obtain hj' | rfl := Nat.lt_or_eq_of_le (Nat.le_of_lt_succ hj)
        · have hold := hst.placed g hg j hj'
          rw [getD_append _ _ _ _ hj', ← hold]
          exact getD_set_ne _ _ (by omega)
        · rw [getD_set_self _ _ hlt]
          simp
      · rw [hsame g hga] at hj ⊢
        rw [← hst.placed g hg j hj]
        have hjc : j < K.count (some g) := by
          rw [← groupRows_length]
          exact hj.trans_le (rowsIn_length_mono K g hi.le)
        have hne : sumTo (fun g => K.count (some g)) a + (rowsIn K i a).length
            ≠ sumTo (fun g => K.count (some g)) g + j := by
          rcases Nat.lt_or_gt_of_ne hga with hlt' | hgt
          · have := hbound g a hlt'
            omega
          · have := hbound a g hgt
            omega
        exact getD_set_ne _ _ hne

lemma Filled.run (h : ∀ g, some g ∈ K → g < n) (hst : Filled K n 0 st) {i : ℕ}
    (hi : i ≤ K.length) : Filled K n i ((List.range i).foldl (fillStep K) st) := by
  induction i with
  | zero => exact hst
  | succ i ih =>
    rw [range_succ, foldl_append, foldl_cons, foldl_nil]
    exact (ih (by omega)).step h hi

lemma shiftPass_spec (hn : offs.length = n + 1) {k : ℕ} (hk : k ≤ n) :
    ((List.range k).reverse.foldl shiftStep offs).length = n + 1 ∧
      ∀ g < k, ((List.range k).reverse.foldl shiftStep offs).getD (g + 1) 0 = offs.getD g 0 := by
  induction k generalizing offs with
  | zero => exact ⟨hn, fun g hg => by omega⟩
  | succ k ih =>
    rw [range_succ, reverse_append, reverse_singleton, singleton_append, foldl_cons]
    obtain ⟨h1, h2⟩ := @ih (shiftStep offs k) (by simpa [shiftStep] using hn) (by omega)
    refine ⟨h1, fun g hg => ?_⟩
    by_cases hgk : g = k
    · subst hgk
      have hkeep : ∀ m ≤ g, ∀ l : List ℕ, ((range m).reverse.foldl shiftStep l).getD (g + 1) 0 =
          l.getD (g + 1) 0 := by
        intro m
        induction m with
        | zero => intro _ l; rfl
        | succ m ihm =>
          intro hm l
          rw [range_succ, reverse_append, reverse_singleton, singleton_append, foldl_cons, ihm (by omega)]
          exact getD_set_ne _ _ (by omega)
      rw [hkeep g le_rfl]
      exact getD_set_self _ _ (by omega)
    · rw [h2 g (by omega)]
      exact getD_set_ne _ _ (by omega)

theorem grouped_spec (h : ∀ g, some g ∈ K → g < n) :
    (∀ g < n, slice (grouped n K).2 ((grouped n K).1.getD g 0) ((grouped n K).1.getD (g + 1) 0) = groupRows K g) ∧
      ∀ g < n, (grouped n K).1.getD (g + 1) 0 - (grouped n K).1.getD g 0 = (groupRows K g).length := by
  obtain ⟨hc1, hc2, hc3⟩ := countPass_spec (replicate (n + 1) 0) (by simp) h
  have hzero : ∀ g, (replicate (n + 1) 0).getD g 0 = 0 := by
    intro g
    simp [getElem?_replicate]
    split_ifs <;> rfl
  simp only [hzero, Nat.zero_add] at hc2 hc3
  obtain ⟨hs1, hs2, -⟩ := sumPass_spec hc1 hc2 hc3 le_rfl
  have hstart : Filled K n 0 ((range n).foldl sumStep (K.foldl countStep (replicate (n + 1) 0)),
      replicate (K.countP isSome) 0) := by
    refine ⟨hs1, by rw [length_replicate, sumTo_count h], fun g hg => ?_, hs2 n le_rfl, fun g _ j hj => ?_⟩
    · simpa [rowsIn] using hs2 g hg.le
    · simp [rowsIn] at hj
  have hfill := hstart.run h le_rfl
  obtain ⟨hl, hv⟩ := shiftPass_spec hfill.offs_length (le_refl n)
  have hoff : ∀ g ≤ n, (grouped n K).1.getD g 0 = sumTo (fun g => K.count (some g)) g := by
    intro g hg
    cases g with
    | zero => exact getD_set_self _ _ (by omega)
    | succ g =>
      have hset : (grouped n K).1.getD (g + 1) 0 = _ := getD_set_ne _ _ (Nat.succ_ne_zero g).symm
      rw [hset, hv g (by omega), hfill.cursor g (by omega), sumTo_succ, ← groupRows_length]
      rfl
  have hsize : ∀ g < n, (grouped n K).1.getD (g + 1) 0 - (grouped n K).1.getD g 0 = (groupRows K g).length := by
    intro g hg
    rw [hoff g hg.le, hoff (g + 1) hg, sumTo_succ, Nat.add_sub_cancel_left, groupRows_length]
  refine ⟨fun g hg => ?_, hsize⟩
  rw [hoff g hg.le, hoff (g + 1) hg, sumTo_succ]
  have hcount := groupRows_length K g
  have hend := sumTo_mono (fun g => K.count (some g)) (show g + 1 ≤ n from hg)
  rw [sumTo_succ] at hend
  have hrows := hfill.rows_length
  apply ext_getElem
  · simp only [slice, length_take, length_drop, grouped, hrows, hcount]
    omega
  · intro j h1 h2
    have hp := hfill.placed g hg j (by rw [groupRows] at h2; exact h2)
    rw [getD_eq_getElem _ _ (by omega), getD_eq_getElem _ _ (by rw [groupRows] at h2; exact h2)] at hp
    simp only [slice, getElem_take, getElem_drop]
    exact hp

end Rayforce.Library.Grouping
