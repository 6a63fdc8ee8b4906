import Mathlib

/-! Breadth-first search level by level. -/

namespace Rayforce.Library.Levels

open List

variable {α : Type}

inductive Walk (next : α → List α) (s : α) : ℕ → α → Prop
  | zero : Walk next s 0 s
  | snoc {n : ℕ} {u v : α} : Walk next s n u → v ∈ next u → Walk next s (n + 1) v

def Hops (next : α → List α) (s : α) (n : ℕ) (v : α) : Prop := Walk next s n v ∧ ∀ k < n, ¬ Walk next s k v

section

variable {next : α → List α} {s u v : α} {m n : ℕ}

lemma walk_zero : Walk next s 0 v ↔ v = s := by
  constructor
  · intro h
    cases h
    rfl
  · rintro rfl
    exact .zero

lemma walk_succ : Walk next s (n + 1) v ↔ ∃ u, Walk next s n u ∧ v ∈ next u := by
  constructor
  · intro h
    cases h with
    | snoc hu hv => exact ⟨_, hu, hv⟩
  · rintro ⟨u, hu, hv⟩
    exact .snoc hu hv

lemma Hops.unique (h : Hops next s m v) (h' : Hops next s n v) : m = n := by
  obtain hlt | heq | hlt := lt_trichotomy m n
  · exact absurd h.1 (h'.2 m hlt)
  · exact heq
  · exact absurd h'.1 (h.2 n hlt)

lemma Walk.hops (h : Walk next s n v) : ∃ k ≤ n, Hops next s k v := by
  classical
  have hex : ∃ k, Walk next s k v := ⟨n, h⟩
  exact ⟨Nat.find hex, Nat.find_min' hex h, Nat.find_spec hex, fun k hk => Nat.find_min hex hk⟩

lemma hops_zero : Hops next s 0 v ↔ v = s := by
  rw [Hops, walk_zero]
  simp

lemma hops_succ : Hops next s (n + 1) v ↔ (∃ u, Hops next s n u ∧ v ∈ next u) ∧ ∀ k ≤ n, ¬ Hops next s k v := by
  constructor
  · rintro ⟨hw, hmin⟩
    obtain ⟨u, hu, hv⟩ := walk_succ.mp hw
    refine ⟨⟨u, ⟨hu, fun k hk hk' => hmin (k + 1) (by omega) (.snoc hk' hv)⟩, hv⟩, fun k hk hd =>
      hmin k (by omega) hd.1⟩
  · rintro ⟨⟨u, hu, hv⟩, hno⟩
    refine ⟨.snoc hu.1 hv, fun k hk hw => ?_⟩
    obtain ⟨j, hj, hd⟩ := hw.hops
    exact hno j (by omega) hd

lemma hops_none_of_le (h : ∀ v, ¬ Hops next s m v) (hmn : m ≤ n) (v : α) : ¬ Hops next s n v := by
  induction n, hmn using Nat.le_induction generalizing v with
  | base => exact h v
  | succ n _ ih =>
    intro hd
    obtain ⟨⟨u, hu, -⟩, -⟩ := hops_succ.mp hd
    exact ih u hu

end

section

variable [DecidableEq α]

def fresh (seen : List α) : List α → List α
  | [] => []
  | x :: l => if x ∈ seen then fresh seen l else x :: fresh (x :: seen) l

lemma mem_fresh {seen l : List α} {x : α} : x ∈ fresh seen l ↔ x ∈ l ∧ x ∉ seen := by
  induction l generalizing seen with
  | nil => simp [fresh]
  | cons y l ih =>
    rw [fresh]
    split_ifs with hy
    · rw [ih, mem_cons]
      refine ⟨fun h => ⟨.inr h.1, h.2⟩, fun h => ⟨h.1.resolve_left ?_, h.2⟩⟩
      rintro rfl
      exact h.2 hy
    · rw [mem_cons, ih, mem_cons, mem_cons]
      by_cases hxy : x = y
      · simp [hxy, hy]
      · simp [hxy]

lemma nodup_fresh (seen l : List α) : (fresh seen l).Nodup := by
  induction l generalizing seen with
  | nil => exact nodup_nil
  | cons y l ih =>
    rw [fresh]
    split_ifs
    · exact ih seen
    · refine nodup_cons.mpr ⟨fun h => ?_, ih _⟩
      exact (mem_fresh.mp h).2 mem_cons_self

lemma fresh_congr {seen seen' : List α} (h : ∀ x, x ∈ seen ↔ x ∈ seen') (l : List α) :
    fresh seen l = fresh seen' l := by
  induction l generalizing seen seen' with
  | nil => rfl
  | cons y l ih =>
    rw [fresh, fresh, if_congr (h y) rfl rfl, ih h]
    refine if_congr Iff.rfl rfl (congrArg (y :: ·) (ih fun x => ?_))
    rw [mem_cons, mem_cons, h]

lemma fresh_append (seen l l' : List α) :
    fresh seen (l ++ l') = fresh seen l ++ fresh (fresh seen l ++ seen) l' := by
  induction l generalizing seen with
  | nil => rfl
  | cons y l ih =>
    rw [cons_append, fresh, fresh]
    split_ifs with hy
    · exact ih seen
    · rw [ih, cons_append]
      refine congrArg (fun t => y :: (fresh (y :: seen) l ++ t)) (fresh_congr (fun x => ?_) l')
      simp only [mem_append, mem_cons]
      tauto

variable (next : α → List α) (s : α)

def level : ℕ → List α × List α
  | 0 => ([s], [s])
  | n + 1 => let new := fresh (level n).2 ((level n).1.flatMap next); (new, new ++ (level n).2)

variable {next s}

lemma mem_seen {n : ℕ} {v : α} : v ∈ (level next s n).2 ↔ ∃ k ≤ n, v ∈ (level next s k).1 := by
  induction n with
  | zero => simp [level]
  | succ n ih =>
    rw [level, mem_append, ih]
    constructor
    · rintro (h | ⟨k, hk, h⟩)
      · exact ⟨n + 1, le_rfl, h⟩
      · exact ⟨k, Nat.le_succ_of_le hk, h⟩
    · rintro ⟨k, hk, h⟩
      obtain hk | rfl := Nat.le_succ_iff.mp hk
      · exact .inr ⟨k, hk, h⟩
      · exact .inl h

theorem mem_level {n : ℕ} {v : α} : v ∈ (level next s n).1 ↔ Hops next s n v := by
  induction n using Nat.strong_induction_on generalizing v with
  | _ n ih =>
    cases n with
    | zero => rw [hops_zero, level, mem_singleton]
    | succ n =>
      rw [level, mem_fresh, mem_flatMap, hops_succ, mem_seen]
      push Not
      refine and_congr (exists_congr fun u => and_congr_left' (ih n (Nat.lt_succ_self n)))
        (forall₂_congr fun k hk => ?_)
      rw [ih k (Nat.lt_succ_of_le hk)]

lemma nodup_level (n : ℕ) : (level next s n).1.Nodup := by
  cases n with
  | zero => exact nodup_singleton s
  | succ n => exact nodup_fresh _ _

end

end Rayforce.Library.Levels
