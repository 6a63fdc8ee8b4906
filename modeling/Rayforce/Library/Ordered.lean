import Mathlib

/-! Finite maps that remember the order of insertion. -/

namespace Rayforce.Library.Ordered

open List Option

variable {ι α : Type} [DecidableEq ι]

abbrev Entries (ι α : Type) := List (ι × α)

def keys (es : Entries ι α) : List ι := es.map Prod.fst

def values (es : Entries ι α) : List α := es.map Prod.snd

def position (k : ι) (es : Entries ι α) : Option ℕ := es.findIdx? (·.1 = k)

def lookup (k : ι) (es : Entries ι α) : Option α := (es.find? (·.1 = k)).map Prod.snd

def put (k : ι) (v : α) (es : Entries ι α) : Entries ι α :=
  match position k es with
  | some i => es.set i (k, v)
  | none => es ++ [(k, v)]

def drop (k : ι) (es : Entries ι α) : Entries ι α :=
  match position k es with
  | some i => es.eraseIdx i
  | none => es

section

variable {k : ι} {v : α} {es : Entries ι α} {i : ℕ}

lemma position_eq_none : position k es = none ↔ k ∉ keys es := by
  simp only [position, keys, findIdx?_eq_none_iff, List.mem_map, not_exists, not_and,
    decide_eq_false_iff_not]

lemma position_eq_some (h : position k es = some i) : ∃ v, es[i]? = some (k, v) := by
  obtain ⟨hi, hk, -⟩ := findIdx?_eq_some_iff_getElem.mp h
  refine ⟨es[i].2, ?_⟩
  rw [getElem?_eq_getElem hi]
  simp only [decide_eq_true_eq] at hk
  rw [← hk]

lemma position_cons (e : ι × α) :
    position k (e :: es) = if e.1 = k then some 0 else (position k es).map (· + 1) := by
  simp [position, findIdx?_cons]

lemma lookup_cons (e : ι × α) : lookup k (e :: es) = if e.1 = k then some e.2 else lookup k es := by
  by_cases h : e.1 = k <;> simp [lookup, h]

lemma lookup_eq_position : lookup k es = (position k es).bind fun i => (values es)[i]? := by
  induction es with
  | nil => rfl
  | cons e es ih =>
    rw [lookup_cons, position_cons]
    by_cases h : e.1 = k
    · simp [h, values]
    · rw [if_neg h, if_neg h, ih]
      cases position k es with
      | none => rfl
      | some i => simp [values]

lemma put_cons (e : ι × α) : put k v (e :: es) = if e.1 = k then (k, v) :: es else e :: put k v es := by
  rw [put, position_cons]
  by_cases h : e.1 = k
  · simp [h]
  · rw [if_neg h, if_neg h, put]
    cases position k es with
    | none => rfl
    | some i => rfl

lemma drop_cons (e : ι × α) : drop k (e :: es) = if e.1 = k then es else e :: drop k es := by
  rw [drop, position_cons]
  by_cases h : e.1 = k
  · simp [h]
  · rw [if_neg h, if_neg h, drop]
    cases position k es with
    | none => rfl
    | some i => rfl

end

section

variable {k j : ι} {v : α} {es : Entries ι α}

lemma lookup_put : lookup j (put k v es) = if j = k then some v else lookup j es := by
  induction es with
  | nil =>
    by_cases h : j = k
    · simp [put, position, lookup, h]
    · simp [put, position, lookup, h, Ne.symm h]
  | cons e es ih =>
    rw [put_cons]
    by_cases hk : e.1 = k
    · rw [if_pos hk, lookup_cons, lookup_cons, hk]
      by_cases h : j = k
      · simp [h]
      · simp [h, Ne.symm h]
    · rw [if_neg hk, lookup_cons, lookup_cons, ih]
      by_cases hj : e.1 = j
      · have hne : j ≠ k := fun h => hk (hj.trans h)
        simp [hj, hne]
      · simp [hj]

lemma lookup_eq_none (h : k ∉ keys es) : lookup k es = none := by
  rw [lookup_eq_position, position_eq_none.mpr h, bind_none]

lemma lookup_drop (hn : (keys es).Nodup) : lookup j (drop k es) = if j = k then none else lookup j es := by
  induction es with
  | nil => simp [drop, position, lookup]
  | cons e es ih =>
    have hmem : e.1 ∉ keys es := (nodup_cons.mp hn).1
    have htail : (keys es).Nodup := (nodup_cons.mp hn).2
    rw [drop_cons]
    by_cases hk : e.1 = k
    · rw [if_pos hk, lookup_cons]
      by_cases h : j = k
      · rw [if_pos h, lookup_eq_none (by rw [h, ← hk]; exact hmem)]
      · rw [if_neg h, if_neg (fun he => h (he.symm.trans hk))]
    · rw [if_neg hk, lookup_cons, lookup_cons, ih htail]
      by_cases hj : e.1 = j
      · have hne : j ≠ k := fun h => hk (hj.trans h)
        simp [hj, hne]
      · simp [hj]

lemma keys_put : keys (put k v es) = if k ∈ keys es then keys es else keys es ++ [k] := by
  induction es with
  | nil => simp [put, position, keys]
  | cons e es ih =>
    rw [put_cons]
    by_cases hk : e.1 = k
    · rw [if_pos hk, if_pos (by simp [keys, hk])]
      simp [keys, hk]
    · have hcons : keys (e :: put k v es) = e.1 :: keys (put k v es) := rfl
      have hmem : k ∈ keys (e :: es) ↔ k ∈ keys es := by simp [keys, Ne.symm hk]
      rw [if_neg hk, hcons, ih]
      by_cases h : k ∈ keys es
      · rw [if_pos h, if_pos (hmem.mpr h)]
        rfl
      · rw [if_neg h, if_neg (fun hm => h (hmem.mp hm))]
        rfl

lemma keys_drop (hn : (keys es).Nodup) : keys (drop k es) = (keys es).filter (· ≠ k) := by
  induction es with
  | nil => rfl
  | cons e es ih =>
    have hmem : e.1 ∉ keys es := (nodup_cons.mp hn).1
    have hcons : keys (e :: es) = e.1 :: keys es := rfl
    rw [drop_cons, hcons]
    by_cases hk : e.1 = k
    · have hall : ∀ x ∈ keys es, decide (x ≠ k) = true := by
        intro x hx
        refine decide_eq_true fun h => hmem ?_
        rw [hk, ← h]
        exact hx
      rw [if_pos hk, filter_cons_of_neg (by simp [hk]), filter_eq_self.mpr hall]
    · rw [if_neg hk, filter_cons_of_pos (by simp [hk]), ← ih (nodup_cons.mp hn).2]
      rfl

lemma nodup_put (hn : (keys es).Nodup) : (keys (put k v es)).Nodup := by
  rw [keys_put]
  by_cases h : k ∈ keys es
  · rwa [if_pos h]
  · rw [if_neg h]
    exact nodup_append.mpr ⟨hn, nodup_singleton k, by
      intro a ha b hb hab
      exact h (by rw [← mem_singleton.mp hb, ← hab]; exact ha)⟩

lemma nodup_drop (hn : (keys es).Nodup) : (keys (drop k es)).Nodup := by
  rw [keys_drop hn]
  exact hn.filter _

end

end Rayforce.Library.Ordered
