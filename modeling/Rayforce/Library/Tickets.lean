import Mathlib

/-! Agents with at most one token each, and rings taken in order. -/

namespace Rayforce.Library.Tickets

open List Option

variable {α β : Type*} {f : α → Option β}
variable {i : ℕ}

lemma filterMap_set_perm (f : α → Option β) {l : List α} {a : α} (h : l[i]? = some a) (b : α) :
    ((l.set i b).filterMap f ++ (f a).toList).Perm (l.filterMap f ++ (f b).toList) := by
  induction l generalizing i with
  | nil => simp at h
  | cons x l ih =>
    cases i with
    | zero =>
      obtain rfl : x = a := by simpa using h
      rw [set_cons_zero, filterMap_cons, filterMap_cons]
      cases f x <;> cases f b
      case some.some u v =>
        exact (perm_append_singleton u _).trans ((List.Perm.swap v u _).trans (perm_append_singleton v _).symm)
      case none.some v => simpa using (perm_append_singleton v _).symm
      all_goals simp
    | succ i =>
      have hrest := ih (i := i) (by simpa using h)
      rw [set_cons_succ]
      cases hx : f x <;> simp only [filterMap_cons, hx]
      · exact hrest
      · exact hrest.cons _

lemma filterMap_set_same {l : List α} {a b : α} (h : l[i]? = some a) (hf : f b = f a) :
    ((l.set i b).filterMap f).Perm (l.filterMap f) := by
  have := filterMap_set_perm f h b
  rw [hf] at this
  exact (perm_append_right_iff _).mp this

lemma filterMap_set_take {l : List α} {a b : α} {t : β} (h : l[i]? = some a) (ha : f a = none)
    (hb : f b = some t) : ((l.set i b).filterMap f).Perm (t :: l.filterMap f) := by
  have := filterMap_set_perm f h b
  rw [ha, hb, toList_none, append_nil] at this
  exact this.trans perm_append_comm

lemma filterMap_set_give {l : List α} {a b : α} {t : β} (h : l[i]? = some a) (ha : f a = some t)
    (hb : f b = none) : (l.filterMap f).Perm (t :: (l.set i b).filterMap f) := by
  have := filterMap_set_perm f h b
  rw [ha, hb, toList_none, append_nil] at this
  exact this.symm.trans perm_append_comm

lemma mem_filterMap_of_getElem? {l : List α} {a : α} {t : β} (h : l[i]? = some a) (ha : f a = some t) :
    t ∈ l.filterMap f :=
  mem_filterMap.mpr ⟨a, mem_of_getElem? h, ha⟩

lemma slot_inj {base cap i j : ℕ} (hi : i < cap) (hj : j < cap) (h : (base + i) % cap = (base + j) % cap) :
    i = j :=
  Nat.ModEq.eq_of_lt_of_lt (Nat.ModEq.add_left_cancel' base h) hi hj

lemma land_mask (n k : ℕ) : n &&& (2 ^ k - 1) = n % 2 ^ k := Nat.and_two_pow_sub_one_eq_mod n k

def Past (P : List α → α → Prop) (log : List α) : Prop := ∀ k e, log[k]? = some e → P (log.take k) e

lemma Past.nil (P : List α → α → Prop) : Past P [] := by
  intro k e h
  cases h

lemma Past.concat {P : List α → α → Prop} {log : List α} {e : α} (h : Past P log) (he : P log e) :
    Past P (log ++ [e]) := by
  intro k e' hk
  rcases lt_trichotomy k log.length with hlt | rfl | hgt
  · rw [getElem?_append_left hlt] at hk
    rw [take_append_of_le_length hlt.le]
    exact h k e' hk
  · rw [getElem?_concat_length] at hk
    cases hk
    rw [take_left]
    exact he
  · rw [getElem?_eq_none (by simpa using hgt)] at hk
    cases hk

lemma Past.of_mem {P : List α → α → Prop} {log : List α} {e : α} (h : Past P log) (he : e ∈ log) :
    ∃ before, before.Sublist log ∧ P before e := by
  obtain ⟨k, hk, rfl⟩ := getElem_of_mem he
  exact ⟨log.take k, take_sublist k log, h k _ (getElem?_eq_getElem hk)⟩

end Rayforce.Library.Tickets
