import Mathlib

/-! A bounded table of remembered results. -/

namespace Rayforce.Library.Memo

variable {A K V : Type}

structure Entry (A K V : Type) where
  key : K
  value : V
  object : A

def lookup [DecidableEq K] (table : List (Entry A K V)) (k : K) : Option V :=
  (table.find? fun e => e.key = k).map Entry.value

def store (cap : ℕ) (table : List (Entry A K V)) (e : Entry A K V) : List (Entry A K V) :=
  if cap ≤ table.length then table else table ++ [e]

def Valid (key : A → K) (f : A → Option V) (table : List (Entry A K V)) : Prop :=
  ∀ e ∈ table, key e.object = e.key ∧ f e.object = some e.value

variable {key : A → K} {f : A → Option V} {table : List (Entry A K V)} {a : A} {v : V}

lemma valid_nil : Valid key f ([] : List (Entry A K V)) := by
  intro e he
  cases he

lemma Valid.hit [DecidableEq K] (h : Valid key f table) (hcur : ∀ e ∈ table, e.key = key a → f e.object = f a)
    (hit : lookup table (key a) = some v) : f a = some v := by
  obtain ⟨e, he, rfl⟩ := Option.map_eq_some_iff.mp hit
  have hmem := List.mem_of_find?_eq_some he
  have hk := List.find?_some he
  rw [← hcur e hmem (of_decide_eq_true hk)]
  exact (h e hmem).2

lemma Valid.store {cap : ℕ} (h : Valid key f table) (hv : f a = some v) :
    Valid key f (store cap table ⟨key a, v, a⟩) := by
  rw [Memo.store]
  split
  · exact h
  · intro e he
    obtain he | he := List.mem_append.mp he
    · exact h e he
    · obtain rfl := List.mem_singleton.mp he
      exact ⟨rfl, hv⟩

end Rayforce.Library.Memo
