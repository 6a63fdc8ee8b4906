import Rayforce.Library.Loops
import Rayforce.Library.Segments

/-! Bottom-up merge sort, dense ranks, and sorting in place. -/

namespace Rayforce.Library.BottomUp

open List

variable {α : Type*}

section

variable (le : α → α → Bool)

def mergePairs : List (List α) → List (List α)
  | a :: b :: runs => a.merge b le :: mergePairs runs
  | runs => runs

lemma length_mergePairs_le (runs : List (List α)) : (mergePairs le runs).length ≤ runs.length := by
  induction runs using mergePairs.induct with
  | case1 a b runs ih =>
    rw [mergePairs, length_cons, length_cons, length_cons]
    omega
  | case2 runs h => exact Nat.le_of_eq (congrArg length (mergePairs.eq_2 _ _ h))

def mergeRuns (runs : List (List α)) : List α :=
  match runs with
  | [] => []
  | [run] => run
  | a :: b :: runs => mergeRuns (mergePairs le (a :: b :: runs))
termination_by runs.length
decreasing_by
  have := length_mergePairs_le le runs
  rw [mergePairs, List.length_cons, List.length_cons, List.length_cons]
  omega

def sort (l : List α) : List α := mergeRuns le (l.map fun a => [a])

lemma flatten_mergePairs (runs : List (List α)) : (mergePairs le runs).flatten.Perm runs.flatten := by
  induction runs using mergePairs.induct with
  | case1 a b runs ih =>
    rw [mergePairs, flatten_cons, flatten_cons, flatten_cons, ← append_assoc]
    exact (merge_perm_append le).append ih
  | case2 runs h => rw [mergePairs.eq_2 _ _ h]

lemma mergeRuns_perm (runs : List (List α)) : (mergeRuns le runs).Perm runs.flatten := by
  induction runs using mergeRuns.induct le with
  | case1 => rw [mergeRuns, flatten_nil]
  | case2 run => rw [mergeRuns, flatten_cons, flatten_nil, append_nil]
  | case3 a b runs ih =>
    rw [mergeRuns]
    exact ih.trans (flatten_mergePairs le _)

lemma sort_perm (l : List α) : (sort le l).Perm l := by
  have h := mergeRuns_perm le (l.map fun a => [a])
  rwa [← flatMap_def, flatMap_singleton'] at h

variable {le} (trans : ∀ a b c, le a b = true → le b c = true → le a c = true)
  (total : ∀ a b, (le a b || le b a) = true)

include trans total

lemma mergePairs_sorted {runs : List (List α)} (h : ∀ r ∈ runs, r.Pairwise (fun a b => le a b = true)) :
    ∀ r ∈ mergePairs le runs, r.Pairwise (fun a b => le a b = true) := by
  induction runs using mergePairs.induct with
  | case1 a b runs ih =>
    rw [mergePairs]
    intro r hr
    rcases mem_cons.mp hr with rfl | hr
    · exact pairwise_merge trans total a b (h a (by simp)) (h b (by simp))
    · exact ih (fun r hr => h r (by simp [hr])) r hr
  | case2 runs hr =>
    rw [mergePairs.eq_2 _ _ hr]
    exact h

lemma mergeRuns_sorted {runs : List (List α)} (h : ∀ r ∈ runs, r.Pairwise (fun a b => le a b = true)) :
    (mergeRuns le runs).Pairwise (fun a b => le a b = true) := by
  induction runs using mergeRuns.induct le with
  | case1 =>
    rw [mergeRuns]
    exact List.Pairwise.nil
  | case2 run =>
    rw [mergeRuns]
    exact h run (by simp)
  | case3 a b runs ih =>
    rw [mergeRuns]
    exact ih (mergePairs_sorted trans total h)

lemma sort_sorted (l : List α) : (sort le l).Pairwise (fun a b => le a b = true) := by
  refine mergeRuns_sorted trans total fun r hr => ?_
  obtain ⟨a, -, rfl⟩ := mem_map.mp hr
  exact pairwise_singleton _ a

end

section

variable (cmp : α → α → Ordering)

def ranksFrom (prev : α) (rank : ℕ) : List α → List (α × ℕ)
  | [] => []
  | a :: l =>
    let r := if cmp a prev = .eq then rank else rank + 1
    (a, r) :: ranksFrom a r l

def ranks : List α → List (α × ℕ)
  | [] => []
  | a :: l => (a, 0) :: ranksFrom cmp a 0 l

lemma map_fst_ranksFrom (prev : α) (rank : ℕ) (l : List α) : (ranksFrom cmp prev rank l).map Prod.fst = l := by
  induction l generalizing prev rank with
  | nil => rfl
  | cons a l ih => rw [ranksFrom, map_cons, ih]

lemma map_fst_ranks (l : List α) : (ranks cmp l).map Prod.fst = l := by
  cases l with
  | nil => rfl
  | cons a l => rw [ranks, map_cons, map_fst_ranksFrom]

variable {cmp} [Std.TransCmp cmp]

def Agree (cmp : α → α → Ordering) (p q : α × ℕ) : Prop := compare p.2 q.2 = cmp p.1 q.1

lemma agree_symm {p q : α × ℕ} (h : Agree cmp p q) : Agree cmp q p := by
  rw [Agree, ← Nat.compare_swap, h, ← Std.OrientedCmp.eq_swap]

lemma agree_refl (p : α × ℕ) : Agree cmp p p :=
  (Nat.compare_eq_eq.mpr rfl).trans Std.ReflCmp.compare_self.symm

lemma agree_trans {p q r : α × ℕ} (hpq : Agree cmp p q) (hqr : Agree cmp q r) (hle : (cmp p.1 q.1).isLE)
    (hle' : (cmp q.1 r.1).isLE) : Agree cmp p r := by
  rw [Agree] at *
  cases h : cmp p.1 q.1 with
  | eq =>
    have heq : p.2 = q.2 := Nat.compare_eq_eq.mp (hpq.trans h)
    rw [Std.TransCmp.congr_left h, heq, hqr]
  | lt =>
    have hlt : p.2 < q.2 := Nat.compare_eq_lt.mp (hpq.trans h)
    have hle'' : q.2 ≤ r.2 := by
      rw [← hqr] at hle'
      exact Nat.isLE_compare.mp hle'
    rw [Std.TransCmp.lt_of_lt_of_isLE h hle', Nat.compare_eq_lt]
    omega
  | gt =>
    rw [h] at hle
    cases hle

lemma pairwise_ranksFrom {prev : α} {rank : ℕ} {l : List α} (h : (prev :: l).Pairwise fun a b => (cmp a b).isLE) :
    ((prev, rank) :: ranksFrom cmp prev rank l).Pairwise (Agree cmp) := by
  induction l generalizing prev rank with
  | nil => exact pairwise_singleton _ _
  | cons a l ih =>
    obtain ⟨hprev, hl⟩ := pairwise_cons.mp h
    rw [ranksFrom]
    obtain ⟨r, hr⟩ : ∃ r, r = if cmp a prev = .eq then rank else rank + 1 := ⟨_, rfl⟩
    have hrest : ((a, r) :: ranksFrom cmp a r l).Pairwise (Agree cmp) := ih hl
    rw [← hr]
    have hfirst : Agree cmp (prev, rank) (a, r) := by
      have hle := hprev a (by simp)
      rw [Agree, hr]
      split
      · rename_i heq
        exact (Nat.compare_eq_eq.mpr rfl).trans (Std.OrientedCmp.eq_comm.mp heq).symm
      · rename_i hne
        cases hc : cmp prev a with
        | eq => exact absurd (Std.OrientedCmp.eq_comm.mp hc) hne
        | lt => exact Nat.compare_eq_lt.mpr (Nat.lt_succ_self _)
        | gt =>
          rw [hc] at hle
          cases hle
    refine pairwise_cons.mpr ⟨fun q hq => ?_, hrest⟩
    rcases mem_cons.mp hq with rfl | hq
    · exact hfirst
    · have hmem : q.1 ∈ l := by
        rw [← map_fst_ranksFrom cmp a r l]
        exact mem_map_of_mem hq
      exact agree_trans hfirst ((pairwise_cons.mp hrest).1 q hq) (hprev a (by simp))
        ((pairwise_cons.mp hl).1 _ hmem)

lemma ranks_agree {l : List α} (h : l.Pairwise fun a b => (cmp a b).isLE) {p q : α × ℕ} (hp : p ∈ ranks cmp l)
    (hq : q ∈ ranks cmp l) : Agree cmp p q := by
  have hpair : (ranks cmp l).Pairwise (Agree cmp) := by
    cases l with
    | nil => exact List.Pairwise.nil
    | cons a l => exact pairwise_ranksFrom h
  have hsymm : Std.Symm (Agree cmp) := ⟨fun _ _ => agree_symm⟩
  exact hpair.forall_of_forall (fun p _ => agree_refl p) hp hq

end

end Rayforce.Library.BottomUp

namespace Rayforce.Library.InPlace

open List Option Function Loops Segments

variable {α κ : Type} [LinearOrder κ] {l : List α} {key : α → κ}

/-- The sorted part is kept in reverse. -/
def insertSort (gt : α → α → Bool) (l : List α) : List α :=
  (l.reverse.insertionSort fun x y => gt y x = false).reverse

lemma insertSort_perm (gt : α → α → Bool) (l : List α) : insertSort gt l ~ l :=
  (reverse_perm _).trans ((perm_insertionSort _ _).trans (reverse_perm l))

lemma insertSort_sorted {gt : α → α → Bool} (hgt : ∀ x ∈ l, ∀ y ∈ l, (gt x y = true ↔ key y < key x)) :
    (insertSort gt l).Pairwise (key · ≤ key ·) := by
  have hkeys : (l.reverse.insertionSort fun x y => gt y x = false).map key =
      (l.reverse.map key).insertionSort (· ≥ ·) := by
    refine map_insertionSort _ _ key _ fun x hx y hy => ?_
    rw [← Bool.not_eq_true, hgt y (mem_reverse.mp hy) x (mem_reverse.mp hx), not_lt]
  exact pairwise_reverse.mpr (pairwise_map.mp (hkeys ▸ pairwise_insertionSort (· ≥ ·) _))

/-- Swapping the entry in hand with the one at another place. -/
lemma set_hole_perm {i j : ℕ} {x y : α} (hij : i ≠ j) (hi : i < l.length) (hj : l[j]? = some y) :
    (l.set j x).set i y ~ l.set i x := by
  obtain ⟨hlt, rfl⟩ := List.getElem?_eq_some_iff.mp hj
  have hswap := @set_set_perm _ (l.set i x) i j (by simpa) (by simpa)
  simpa [getElem_set_of_ne hij, set_comm _ _ hij] using hswap

def swapIf (gt : α → α → Bool) (i j : ℕ) (l : List α) : List α :=
  match l[i]?, l[j]? with
  | some x, some y => if gt x y then (l.set i y).set j x else l
  | _, _ => l

lemma swapIf_perm (gt : α → α → Bool) (i j : ℕ) (l : List α) : swapIf gt i j l ~ l := by
  unfold swapIf
  split
  · rename_i x y hi hj
    obtain ⟨hil, rfl⟩ := List.getElem?_eq_some_iff.mp hi
    obtain ⟨hjl, rfl⟩ := List.getElem?_eq_some_iff.mp hj
    split
    · exact set_set_perm hil hjl
    · exact .rfl
  · exact .rfl

/-- The next place from `i` on whose key is not below the pivot. -/
def scanUp (key : α → κ) (pivot : κ) (l : List α) (i : ℕ) : Option ℕ :=
  ((l.drop i).findIdx? fun x => pivot ≤ key x).map (i + ·)

/-- The last place below `j` whose key is not above the pivot. -/
def scanDown (key : α → κ) (pivot : κ) (l : List α) : ℕ → Option ℕ
  | 0 => none
  | j + 1 => l[j]?.bind fun x => if pivot < key x then scanDown key pivot l j else some j

def hoare (key : α → κ) (pivot : κ) : ℕ → List α → ℕ → ℕ → Option (List α × ℕ)
  | 0, _, _, _ => none
  | fuel + 1, l, i, j =>
    (scanUp key pivot l i).bind fun i => (scanDown key pivot l j).bind fun j =>
      if j ≤ i then some (l, j)
      else l[i]?.bind fun x => l[j]?.bind fun y => hoare key pivot fuel ((l.set i y).set j x) (i + 1) j

def medianOfThree (key : α → κ) (l : List α) : List α :=
  let gt := fun x y => decide (key y < key x)
  swapIf gt 0 ((l.length - 1) / 2) (swapIf gt ((l.length - 1) / 2) (l.length - 1) (swapIf gt 0 (l.length - 1) l))

def hoarePartition (key : α → κ) (l : List α) : Option (List α × ℕ) :=
  (medianOfThree key l)[(l.length - 1) / 2]?.bind fun p =>
    hoare key (key p) (l.length + 1) (medianOfThree key l) 0 l.length

/-- Quicksort with insertion for up to 17 entries. -/
def quickSort (key : α → κ) : ℕ → List α → Option (List α)
  | 0, _ => none
  | fuel + 1, l =>
    if l.length ≤ 17 then some (insertSort (fun x y => key y < key x) l)
    else
      (hoarePartition key l).bind fun r => (quickSort key fuel (r.1.take (r.2 + 1))).bind fun left =>
        (quickSort key fuel (r.1.drop (r.2 + 1))).map (left ++ ·)

lemma scanUp_spec {pivot : κ} {i s : ℕ} (hs : i ≤ s) (h : ∀ x ∈ l[s]?, pivot ≤ key x) (hl : s < l.length) :
    ∃ i', scanUp key pivot l i = some i' ∧ i ≤ i' ∧ i' ≤ s ∧ (∀ x ∈ l[i']?, pivot ≤ key x) ∧
      ∀ p, i ≤ p → p < i' → ∀ x ∈ l[p]?, key x < pivot := by
  have hsome : ∃ k, (l.drop i).findIdx? (fun x => pivot ≤ key x) = some k := by
    refine isSome_iff_exists.mp (findIdx?_isSome.trans (any_eq_true.mpr ⟨l[s], ?_, ?_⟩))
    · exact mem_iff_getElem?.mpr ⟨s - i, by rw [getElem?_drop, Nat.add_sub_cancel' hs, getElem?_eq_getElem hl]⟩
    · exact decide_eq_true (h _ (getElem?_eq_getElem hl))
  obtain ⟨k, hk⟩ := hsome
  obtain ⟨hlt, hle, hbelow⟩ := findIdx?_eq_some_iff_getElem.mp hk
  have hbefore : ∀ p, i ≤ p → p < i + k → ∀ x ∈ l[p]?, key x < pivot := by
    intro p hp hpk x hx
    obtain ⟨hpl, rfl⟩ := List.getElem?_eq_some_iff.mp hx
    have := hbelow (p - i) (by omega)
    simpa [Nat.add_sub_cancel' hp] using this
  refine ⟨i + k, by rw [scanUp, hk]; rfl, Nat.le_add_right _ _, ?_, fun x hx => ?_, hbefore⟩
  · by_contra hno
    exact absurd (h _ (getElem?_eq_getElem hl))
      (not_le.mpr (hbefore s hs (not_le.mp hno) _ (getElem?_eq_getElem hl)))
  · obtain ⟨hpl, rfl⟩ := List.getElem?_eq_some_iff.mp hx
    simpa using hle

lemma scanDown_spec {pivot : κ} {j t : ℕ} (ht : t < j) (hj : j ≤ l.length) (h : ∀ x ∈ l[t]?, key x ≤ pivot) :
    ∃ j', scanDown key pivot l j = some j' ∧ t ≤ j' ∧ j' < j ∧ (∀ x ∈ l[j']?, key x ≤ pivot) ∧
      ∀ p, j' < p → p < j → ∀ x ∈ l[p]?, pivot < key x := by
  induction j with
  | zero => omega
  | succ j ih =>
    have hget : l[j]? = some l[j] := getElem?_eq_getElem hj
    rw [scanDown, hget, bind_some]
    by_cases hlt : pivot < key l[j]
    · have hne : t ≠ j := fun heq => absurd (h _ (heq ▸ hget)) (not_le.mpr hlt)
      obtain ⟨j', hrun, htj, hjj, hkey, habove⟩ := ih (by omega) (by omega)
      refine ⟨j', by rw [if_pos hlt, hrun], htj, by omega, hkey, fun p hp hpj x hx => ?_⟩
      obtain hpj | rfl := Nat.lt_succ_iff_lt_or_eq.mp hpj
      · exact habove p hp hpj x hx
      · rw [mem_def, hget, some_inj] at hx
        exact hx ▸ hlt
    · refine ⟨j, if_neg hlt, by omega, by omega, fun x hx => ?_, fun p hp hpj => by omega⟩
      rw [mem_def, hget, some_inj] at hx
      exact hx ▸ not_lt.mp hlt

/-- Both scans stop inside the array. -/
structure Scanned (key : α → κ) (pivot : κ) (l : List α) (i j : ℕ) : Prop where
  bound : j ≤ l.length
  low : ∀ p < i, ∀ x ∈ l[p]?, key x ≤ pivot
  high : ∀ p ≥ j, ∀ x ∈ l[p]?, pivot ≤ key x
  up : ∃ s, i ≤ s ∧ s < l.length ∧ (j < l.length ∨ s + 1 < l.length) ∧ ∀ x ∈ l[s]?, pivot ≤ key x
  down : ∃ t < j, ∀ x ∈ l[t]?, key x ≤ pivot

lemma hoare_spec {pivot : κ} {fuel i j : ℕ} (hfuel : j < fuel) (h : Scanned key pivot l i j) :
    ∃ r, hoare key pivot fuel l i j = some r ∧ r.1 ~ l ∧ r.2 + 1 < l.length ∧
      (∀ p ≤ r.2, ∀ x ∈ r.1[p]?, key x ≤ pivot) ∧ ∀ p > r.2, ∀ x ∈ r.1[p]?, pivot ≤ key x := by
  induction fuel generalizing l i j with
  | zero => omega
  | succ fuel ih =>
    obtain ⟨s, his, hsl, hlast, hs⟩ := h.up
    obtain ⟨t, htj, ht⟩ := h.down
    obtain ⟨i', hup, hii, his', hkeyi, hbelow⟩ := scanUp_spec his hs hsl
    obtain ⟨j', hdown, -, hjj, hkeyj, habove⟩ := scanDown_spec htj h.bound ht
    have hlow : ∀ p < i', ∀ x ∈ l[p]?, key x ≤ pivot := by
      intro p hp x hx
      obtain hpi | hpi := lt_or_ge p i
      · exact h.low p hpi x hx
      · exact (hbelow p hpi hp x hx).le
    have hhigh : ∀ p > j', ∀ x ∈ l[p]?, pivot ≤ key x := by
      intro p hp x hx
      obtain hpj | hpj := lt_or_ge p j
      · exact (habove p hp hpj x hx).le
      · exact h.high p hpj x hx
    have hbound := h.bound
    rw [hoare, hup, bind_some, hdown, bind_some]
    by_cases hcross : j' ≤ i'
    · refine ⟨(l, j'), if_pos hcross, .rfl, by simp only; omega, fun p hp x hx => ?_, hhigh⟩
      obtain hlt | rfl := lt_or_eq_of_le hp
      · exact hlow p (hlt.trans_le hcross) x hx
      · exact hkeyj x hx
    · have hi : l[i']? = some l[i'] := getElem?_eq_getElem (by omega)
      have hj : l[j']? = some l[j'] := getElem?_eq_getElem (by omega)
      have hperm : (l.set i' l[j']).set j' l[i'] ~ l := set_set_perm (by omega) (by omega)
      have hafter (p : ℕ) : ((l.set i' l[j']).set j' l[i'])[p]? = if p = j' then some l[i']
          else if p = i' then some l[j'] else l[p]? := by
        grind
      have hnext : Scanned key pivot ((l.set i' l[j']).set j' l[i']) (i' + 1) j' := by
        refine ⟨by simp; omega, fun p hp x hx => ?_, fun p hp x hx => ?_,
          ⟨j', by omega, by simp; omega, .inl (by simp; omega), fun x hx => ?_⟩,
            ⟨i', by omega, fun x hx => ?_⟩⟩ <;> rw [hafter] at hx
        · rw [if_neg (by omega)] at hx
          split at hx
          · exact hkeyj x (hj ▸ hx)
          · exact hlow p (by omega) x hx
        · split at hx
          · exact hkeyi x (hi ▸ hx)
          · rw [if_neg (by omega)] at hx
            exact hhigh p (by omega) x hx
        · rw [if_pos rfl] at hx
          exact hkeyi x (hi ▸ hx)
        · rw [if_neg (by omega), if_pos rfl] at hx
          exact hkeyj x (hj ▸ hx)
      obtain ⟨r, hrun, hr, hlast', hle, hge⟩ := ih (by omega) hnext
      exact ⟨r, by rw [if_neg hcross, hi, bind_some, hj, bind_some, hrun], hr.trans hperm,
        by simpa using hlast', hle, hge⟩

lemma hoarePartition_spec (hlen : 2 < l.length) :
    ∃ r p, hoarePartition key l = some r ∧ r.1 ~ l ∧ r.2 + 1 < l.length ∧
      (∀ x ∈ r.1.take (r.2 + 1), key x ≤ p) ∧ ∀ x ∈ r.1.drop (r.2 + 1), p ≤ key x := by
  let m := medianOfThree key l
  let mid := (l.length - 1) / 2
  have hm : m ~ l := (swapIf_perm _ _ _ _).trans ((swapIf_perm _ _ _ _).trans (swapIf_perm _ _ _ _))
  have hmid : mid + 1 < l.length := by omega
  have hget : m[mid]? = some (m.get ⟨mid, by rw [hm.length_eq]; omega⟩) := getElem?_eq_getElem _
  generalize m.get _ = p at hget
  have hself : ∀ x ∈ m[mid]?, x = p := fun x hx => (some_inj.mp (hget ▸ hx)).symm
  have hstart : Scanned key (key p) m 0 l.length := by
    refine ⟨hm.length_eq.ge, fun p hp => absurd hp (Nat.not_lt_zero p), fun p hp x hx => ?_,
      ⟨mid, by omega, by rw [hm.length_eq]; omega, .inr (by rw [hm.length_eq]; omega), fun x hx =>
        (hself x hx ▸ le_rfl)⟩,
      ⟨mid, by omega, fun x hx => (hself x hx ▸ le_rfl)⟩⟩
    rw [List.getElem?_eq_none (hm.length_eq.trans_le hp)] at hx
    cases hx
  obtain ⟨r, hrun, hperm, hlast, hle, hge⟩ := hoare_spec (Nat.lt_succ_self _) hstart
  refine ⟨r, key p, by rw [hoarePartition, hget, bind_some, hrun], hperm.trans hm, hm.length_eq ▸ hlast,
    fun x hx => ?_, fun x hx => ?_⟩
  · obtain ⟨k, hk⟩ := mem_iff_getElem?.mp hx
    rw [getElem?_take] at hk
    split at hk
    · exact hle k (by omega) x hk
    · cases hk
  · obtain ⟨k, hk⟩ := mem_iff_getElem?.mp hx
    rw [getElem?_drop] at hk
    exact hge _ (by omega) x hk

lemma quickSort_spec {fuel : ℕ} (hfuel : l.length < fuel) :
    ∃ r, quickSort key fuel l = some r ∧ r ~ l ∧ r.Pairwise (key · ≤ key ·) := by
  induction fuel generalizing l with
  | zero => omega
  | succ fuel ih =>
    by_cases hsmall : l.length ≤ 17
    · exact ⟨_, if_pos hsmall, insertSort_perm _ _, insertSort_sorted fun x _ y _ => decide_eq_true_iff⟩
    · obtain ⟨r, p, hrun, hperm, hlast, hle, hge⟩ := @hoarePartition_spec _ _ _ l key (by omega)
      have hr : r.1.length = l.length := hperm.length_eq
      obtain ⟨left, hleft, hpl, hsl⟩ := ih (l := r.1.take (r.2 + 1)) (by rw [length_take]; omega)
      obtain ⟨right, hright, hpr, hsr⟩ := ih (l := r.1.drop (r.2 + 1)) (by rw [length_drop]; omega)
      have hdef : quickSort key (fuel + 1) l = some (left ++ right) := by
        rw [quickSort, if_neg hsmall, hrun, bind_some, hleft, bind_some, hright]
        rfl
      refine ⟨_, hdef, ((hpl.append hpr).trans (by rw [take_append_drop])).trans hperm,
        pairwise_append.mpr ⟨hsl, hsr, fun x hx y hy => ?_⟩⟩
      exact (hle x (hpl.mem_iff.mp hx)).trans (hge y (hpr.mem_iff.mp hy))

section

variable {f : α → ℕ} {m b c p : ℕ} {cells : List α} {cur : ℕ → ℕ} {x y : α}

/-- Where bucket `c` begins. -/
def start (f : α → ℕ) (l : List α) (c : ℕ) : ℕ := sumTo (fun c => l.countP (f · = c)) c

/-- Carries entries to their buckets until one belongs in bucket `b`. -/
def carry (f : α → ℕ) (b : ℕ) : ℕ → List α × (ℕ → ℕ) → α → Option ((List α × (ℕ → ℕ)) × α)
  | 0, _, _ => none
  | fuel + 1, s, x =>
    if f x = b then some (s, x)
    else s.1[s.2 (f x)]?.bind (carry f b fuel (s.1.set (s.2 (f x)) x, update s.2 (f x) (s.2 (f x) + 1)))

def drain (f : α → ℕ) (stop : ℕ → ℕ) (b : ℕ) : ℕ → List α × (ℕ → ℕ) → Option (List α × (ℕ → ℕ))
  | 0, _ => none
  | fuel + 1, s =>
    if s.2 b < stop b then
      s.1[s.2 b]?.bind fun x => (carry f b (s.1.length + 1) s x).bind fun r =>
        drain f stop b fuel (r.1.1.set (r.1.2 b) r.2, update r.1.2 b (r.1.2 b + 1))
    else some s

/-- The buckets of `f` below `m`, one after the other. -/
def bucketPass (f : α → ℕ) (m : ℕ) (l : List α) : Option (List α) :=
  ((range m).foldlM (fun s b => drain f (fun c => start f l (c + 1)) b (l.length + 1) s)
    (l, start f l)).map Prod.fst

lemma filter_succ_perm (f : α → ℕ) (l : List α) (k : ℕ) :
    l.filter (f · < k + 1) ~ l.filter (f · < k) ++ l.filter (f · = k) := by
  induction l with
  | nil => exact .nil
  | cons x l ih =>
    obtain hlt | heq | hgt := lt_trichotomy (f x) k
    · simpa [hlt, hlt.ne, hlt.le, Nat.lt_succ_iff] using ih
    · simpa [heq] using (ih.cons x).trans perm_middle.symm
    · simpa [hgt.ne', hgt.not_gt, Nat.lt_succ_iff, hgt.not_ge] using ih

lemma start_eq (f : α → ℕ) (l : List α) (k : ℕ) : start f l k = l.countP (f · < k) := by
  induction k with
  | zero => simp [start]
  | succ k ih =>
    rw [countP_eq_length_filter, (filter_succ_perm f l k).length_eq, length_append,
      ← countP_eq_length_filter, ← ih, ← countP_eq_length_filter, start, sumTo_succ, start]

lemma start_mono {c d : ℕ} (h : c ≤ d) : start f l c ≤ start f l d := sumTo_mono _ h

lemma start_le (c : ℕ) : start f l c ≤ l.length := start_eq f l c ▸ countP_le_length

/-- A full stretch leaves no entry of the bucket outside it. -/
lemma countP_gt {p : α → Bool} {lo hi h : ℕ} (hlo : lo ≤ hi) (hhi : hi ≤ l.length)
    (hall : ∀ q, lo ≤ q → q < hi → ∀ x ∈ l[q]?, p x = true) (hout : h < lo ∨ hi ≤ h) {x : α} (hx : l[h]? = some x)
    (hp : p x = true) :
    hi - lo < l.countP p := by
  have hcut : l = l.take lo ++ ((l.drop lo).take (hi - lo) ++ l.drop hi) := by
    have hdrop : l.drop hi = (l.drop lo).drop (hi - lo) := by rw [drop_drop, Nat.add_sub_cancel' hlo]
    rw [hdrop, take_append_drop, take_append_drop]
  have hmid : ((l.drop lo).take (hi - lo)).countP p = hi - lo := by
    have hlen : ((l.drop lo).take (hi - lo)).length = hi - lo := by rw [length_take, length_drop]; omega
    refine (countP_eq_length.mpr fun y hy => ?_).trans hlen
    obtain ⟨k, hk⟩ := mem_iff_getElem?.mp hy
    rw [getElem?_take, getElem?_drop] at hk
    split at hk
    · exact hall _ (by omega) (by omega) y hk
    · cases hk
  have hside : 0 < (l.take lo).countP p ∨ 0 < (l.drop hi).countP p := by
    refine hout.imp (fun hlt => countP_pos_iff.mpr ⟨x, mem_iff_getElem?.mpr ⟨h, ?_⟩, hp⟩)
      (fun hle => countP_pos_iff.mpr ⟨x, mem_iff_getElem?.mpr ⟨h - hi, ?_⟩, hp⟩)
    · rwa [getElem?_take, if_pos hlt]
    · rwa [getElem?_drop, Nat.add_sub_cancel' hle]
  have hcount := congrArg (countP p) hcut
  rw [countP_append, countP_append, hmid] at hcount
  omega

/-- The entries a bucket has taken so far lie at its beginning. -/
structure Filed (f : α → ℕ) (m : ℕ) (l : List α) (cells : List α) (cur : ℕ → ℕ) : Prop where
  perm : cells ~ l
  low : ∀ c < m, start f l c ≤ cur c
  high : ∀ c < m, cur c ≤ start f l (c + 1)
  placed : ∀ c < m, ∀ p, start f l c ≤ p → p < cur c → ∀ x ∈ cells[p]?, f x = c

def left (f : α → ℕ) (m : ℕ) (l : List α) (cur : ℕ → ℕ) : ℕ := ∑ c ∈ Finset.range m, (start f l (c + 1) - cur c)

lemma Filed.left_le (h : Filed f m l cells cur) : left f m l cur ≤ l.length := by
  have hsum : left f m l cur ≤ ∑ c ∈ Finset.range m, (start f l (c + 1) - start f l c) :=
    Finset.sum_le_sum fun c hc => Nat.sub_le_sub_left (h.low c (Finset.mem_range.mp hc)) _
  rw [Finset.sum_range_tsub fun _ _ => start_mono] at hsum
  exact hsum.trans ((Nat.sub_le _ _).trans (start_le m))

lemma Filed.inside (h : Filed f m l cells cur) (hc : cur c < start f l (c + 1)) : cur c < cells.length :=
  (hc.trans_le (start_le _)).trans_eq h.perm.length_eq.symm

lemma start_apart (hbc : b ≠ c) (hbp : start f l b ≤ p) (hpb : p < start f l (b + 1)) :
    p < start f l c ∨ start f l (c + 1) ≤ p := by
  obtain hlt | hlt := lt_or_gt_of_ne hbc
  · exact .inl (hpb.trans_le (start_mono hlt))
  · exact .inr ((start_mono hlt).trans hbp)

lemma Filed.room (h : Filed f m l (cells.set (cur b) x) cur) (hb : b < m) (hx : f x < m)
    (hne : f x ≠ b) (hfree : cur b < start f l (b + 1)) : cur (f x) < start f l (f x + 1) := by
  by_contra hfull
  have heq : cur (f x) = start f l (f x + 1) := le_antisymm (h.high _ hx) (not_lt.mp hfull)
  have hhole : (cells.set (cur b) x)[cur b]? = some x := getElem?_set_self (length_set ▸ h.inside hfree)
  have hcount := countP_gt (p := (f · = f x)) (start_mono (Nat.le_succ (f x)))
    ((start_le _).trans_eq h.perm.length_eq.symm)
    (fun q hq hqe y hy => decide_eq_true (h.placed _ hx q hq (heq ▸ hqe) y hy))
      (start_apart hne.symm (h.low b hb) hfree) hhole (decide_eq_true rfl)
  rw [h.perm.countP_eq, start, start, sumTo_succ] at hcount
  omega

lemma le_update (cur : ℕ → ℕ) (b c : ℕ) : cur c ≤ update cur b (cur b + 1) c := by
  rw [update_apply]
  split <;> grind

/-- The place under a cursor with room belongs to no bucket yet. -/
lemma Filed.free (h : Filed f m l cells cur) (hb : b < m) (hfree : cur b < start f l (b + 1))
    (hc : c < m) (hp : start f l c ≤ p) (hpc : p < cur c) : cur b ≠ p := by
  rintro rfl
  by_cases hcb : c = b
  · exact lt_irrefl _ (hcb ▸ hpc)
  · have := h.low b hb
    obtain hlt | hge := start_apart hcb hp (hpc.trans_le (h.high c hc)) <;> omega

lemma Filed.file (h : Filed f m l cells cur) (hroom : cur b < start f l (b + 1))
    (hx : ∀ x ∈ cells[cur b]?, f x = b) : Filed f m l cells (update cur b (cur b + 1)) := by
  refine ⟨h.perm, fun c hc => (h.low c hc).trans (le_update cur b c), fun c hc => ?_, fun c hc p hp hpc z hz => ?_⟩
  · have := h.high c hc
    rw [update_apply]
    split <;> grind
  · by_cases hold : p < cur c
    · exact h.placed c hc p hp hold z hz
    · rw [update_apply] at hpc
      split at hpc
      · rename_i hcb
        obtain rfl : p = cur b := by rw [hcb] at hold; omega
        exact (hx z hz).trans hcb.symm
      · exact absurd hpc hold

lemma Filed.step (h : Filed f m l (cells.set (cur b) x) cur) (hb : b < m) (hx : f x < m)
    (hne : f x ≠ b) (hfree : cur b < start f l (b + 1)) (hroom : cur (f x) < start f l (f x + 1))
    (hy : cells[cur (f x)]? = some y) :
    Filed f m l ((cells.set (cur (f x)) x).set (cur b) y) (update cur (f x) (cur (f x) + 1)) := by
  have hplaces : cur b ≠ cur (f x) := by
    have := h.low (f x) hx
    obtain hlt | hge := start_apart hne.symm (h.low b hb) hfree <;> omega
  have hswap : Filed f m l ((cells.set (cur (f x)) x).set (cur b) y) cur := by
    refine ⟨(set_hole_perm hplaces (length_set ▸ h.inside hfree) hy).trans h.perm, h.low, h.high,
      fun c hc p hp hpc z hz => ?_⟩
    have hpb := h.free hb hfree hc hp hpc
    rw [getElem?_set_ne hpb, getElem?_set_ne (h.free hx hroom hc hp hpc)] at hz
    exact h.placed c hc p hp hpc z (by rwa [getElem?_set_ne hpb])
  refine hswap.file hroom fun z hz => ?_
  rw [getElem?_set_ne hplaces, getElem?_set_self (length_set ▸ h.inside hroom)] at hz
  exact some_inj.mp hz ▸ rfl

lemma left_update (hc : c < m) (hroom : cur c < start f l (c + 1)) :
    left f m l (update cur c (cur c + 1)) < left f m l cur := by
  refine Finset.sum_lt_sum (fun d _ => Nat.sub_le_sub_left (le_update cur c d) _) ⟨c, Finset.mem_range.mpr hc, ?_⟩
  rw [update_self]
  omega

lemma carry_spec (hf : ∀ x ∈ l, f x < m) {fuel : ℕ} (hb : b < m) (hfuel : left f m l cur < fuel)
    (h : Filed f m l (cells.set (cur b) x) cur) (hfree : cur b < start f l (b + 1)) :
    ∃ r, carry f b fuel (cells, cur) x = some r ∧ Filed f m l (r.1.1.set (r.1.2 b) r.2) r.1.2 ∧ f r.2 = b ∧
      r.1.2 b = cur b ∧
      ∀ c, cur c ≤ r.1.2 c := by
  induction fuel generalizing cells cur x with
  | zero => omega
  | succ fuel ih =>
    by_cases hdone : f x = b
    · exact ⟨((cells, cur), x), if_pos hdone, h, hdone, rfl, fun _ => le_rfl⟩
    · have hmem : x ∈ l := h.perm.mem_iff.mp
        (mem_iff_getElem?.mpr ⟨cur b, getElem?_set_self (length_set ▸ h.inside hfree)⟩)
      have hroom := h.room hb (hf x hmem) hdone hfree
      have hin : cur (f x) < cells.length := length_set ▸ h.inside hroom
      have hget := getElem?_eq_getElem hin
      have hkeep : update cur (f x) (cur (f x) + 1) b = cur b := update_of_ne (Ne.symm hdone) _ _
      obtain ⟨r, hrun, hfiled, hfr, hcur, hmono⟩ :=
        ih ((left_update (hf x hmem) hroom).trans_le (Nat.le_of_lt_succ hfuel))
        (hkeep.symm ▸ h.step hb (hf x hmem) hdone hfree hroom hget) (hkeep.symm ▸ hfree)
      exact ⟨r, by rw [carry, if_neg hdone, hget, bind_some, hrun], hfiled, hfr, hcur.trans hkeep,
        fun c => (le_update cur (f x) c).trans (hmono c)⟩

lemma drain_spec (hf : ∀ x ∈ l, f x < m) {k : ℕ} (hb : b < m) (hk : start f l (b + 1) - cur b < k)
    (h : Filed f m l cells cur) :
    ∃ s, drain f (fun c => start f l (c + 1)) b k (cells, cur) = some s ∧ Filed f m l s.1 s.2 ∧
      s.2 b = start f l (b + 1) ∧
      ∀ c, cur c ≤ s.2 c := by
  induction k generalizing cells cur with
  | zero => omega
  | succ k ih =>
    by_cases hfree : cur b < start f l (b + 1)
    · have hget := getElem?_eq_getElem (h.inside hfree)
      obtain ⟨r, hrun, hfiled, hfr, hcur, hmono⟩ :=
        carry_spec hf hb (Nat.lt_succ_of_le (h.left_le.trans_eq h.perm.length_eq.symm))
        (by rwa [set_getElem_self (h.inside hfree)]) hfree
      have hnext : Filed f m l (r.1.1.set (r.1.2 b) r.2) (update r.1.2 b (r.1.2 b + 1)) := by
        refine hfiled.file (hcur.trans_lt hfree) fun z hz => ?_
        obtain ⟨hpl, rfl⟩ := List.getElem?_eq_some_iff.mp hz
        simpa using hfr
      obtain ⟨s, hrest, hs, hstop, hle⟩ := ih (by rw [update_self, hcur]; omega) hnext
      exact ⟨s, by rw [drain, if_pos hfree, hget, bind_some, hrun, bind_some, hrest], hs, hstop,
        fun c => (hmono c).trans ((le_update r.1.2 b c).trans (hle c))⟩
    · exact ⟨(cells, cur), if_neg hfree, h, le_antisymm (h.high b hb) (not_lt.mp hfree), fun _ => le_rfl⟩

/-- A permutation whose buckets stand in ascending order. -/
lemma bucketPass_spec (hf : ∀ x ∈ l, f x < m) :
    ∃ r, bucketPass f m l = some r ∧ r ~ l ∧ r.Pairwise (f · ≤ f ·) := by
  have hinit : Filed f m l l (start f l) :=
    ⟨.rfl, fun _ _ => le_rfl, fun _ _ => start_mono (Nat.le_succ _), fun c _ p hp hpc => by omega⟩
  obtain ⟨s, hrun, hs, hfull⟩ :=
    foldlM_inv (fun pre (s : List α × (ℕ → ℕ)) => Filed f m l s.1 s.2 ∧ ∀ c ∈ pre, s.2 c = start f l (c + 1))
    (l := range m) (f := fun s b => drain f (fun c => start f l (c + 1)) b (l.length + 1) s) (s := (l, start f l))
      ⟨hinit, nofun⟩
    fun pre b post hpre s hs => by
      have hb : b < m := mem_range.mp (by rw [hpre]; simp)
      have hbound := start_le (f := f) (l := l) (b + 1)
      obtain ⟨s', hrun, hs', hstop, hle⟩ := drain_spec hf hb (k := l.length + 1) (by omega) hs.1
      refine ⟨s', hrun, hs', fun c hc => ?_⟩
      obtain hc | rfl := mem_append.mp hc |>.imp_right mem_singleton.mp
      · exact le_antisymm (hs'.high c (mem_range.mp (by rw [hpre]; simp [hc]))) (hs.2 c hc ▸ hle c)
      · exact hstop
  refine ⟨s.1, by rw [bucketPass, hrun]; rfl, hs.perm, pairwise_iff_getElem.mpr fun p q hp hq hpq => ?_⟩
  have hplace (p : ℕ) (hp : p < s.1.length) : start f l (f s.1[p]) ≤ p ∧ p < start f l (f s.1[p] + 1) := by
    have hbucket : ∀ k, p < start f l k → ∃ c < k, start f l c ≤ p ∧ p < start f l (c + 1) := by
      intro k
      induction k with
      | zero => exact nofun
      | succ k ih =>
        intro hk
        obtain hlt | hge := lt_or_ge p (start f l k)
        · exact (ih hlt).imp fun c hc => ⟨hc.1.trans (Nat.lt_succ_self k), hc.2⟩
        · exact ⟨k, Nat.lt_succ_self k, hge, hk⟩
    have hall : start f l m = l.length :=
      (start_eq f l m).trans (countP_eq_length.mpr fun x hx => decide_eq_true (hf x hx))
    obtain ⟨c, hc, hlo, hhi⟩ := hbucket m (by rwa [hall, ← hs.perm.length_eq])
    rw [hs.placed c hc p hlo (hfull c (mem_range.mpr hc) ▸ hhi) _ (getElem?_eq_getElem hp)]
    exact ⟨hlo, hhi⟩
  by_contra hgt
  have hmono := start_mono (f := f) (l := l) (not_le.mp hgt)
  have := (hplace p hp).1
  have := (hplace q hq).2
  rw [Nat.succ_eq_add_one] at hmono
  omega

/-- In a list in bucket order every bucket is one slice. -/
lemma slice_start {r : List α} (hr : r ~ l) (hsorted : r.Pairwise (f · ≤ f ·)) (hf : ∀ x ∈ l, f x < m)
    (hb : b < m) :
    slice r (start f l b) (start f l (b + 1)) = r.filter (f · = b) := by
  have hkeyed (b : ℕ) : keyed (r.map fun x => (f x, [x])) b = r.filter (f · = b) := by
    simp [keyed, List.filter_map, flatMap_map, comp_def]
  have hall : (range m).flatMap (fun b => r.filter (f · = b)) = r := by
    have := flatMap_keyed (Q := r.map fun x => (f x, [x])) (pairwise_map.mpr hsorted) (k := m)
      (by simpa using fun x hx => hf x (hr.mem_iff.mp hx))
    simpa [funext hkeyed, flatMap_map] using this
  have hstart : start f l = sumTo fun b => (r.filter (f · = b)).length := by
    funext k
    exact sumTo_congr fun b _ => by rw [← countP_eq_length_filter, hr.countP_eq]
  have := slice_flatMap (fun b => r.filter (f · = b)) hb
  rwa [hall, ← hstart] at this

end

end Rayforce.Library.InPlace
