import Mathlib

/-! Patterns with stars, and the matcher that goes back to the last. -/

namespace Rayforce.Library.Wildcards

open List

variable {α : Type}

inductive Wild (α : Type)
  | one (test : α → Bool)
  | star

namespace Wild

def isStar : Wild α → Bool
  | one _ => false
  | star => true

end Wild

inductive Matches : List (Wild α) → List α → Prop
  | nil : Matches [] []
  | one {test : α → Bool} {a : α} {p : List (Wild α)} {s : List α} (h : test a = true) :
    Matches p s → Matches (.one test :: p) (a :: s)
  | star {p : List (Wild α)} {s : List α} (t : List α) : Matches p s → Matches (.star :: p) (t ++ s)

def reach (s : List α) : Option (List (Wild α) × List α) → ℕ
  | none => s.length + 1
  | some (_, t) => max t.length s.length

def greedy (p : List (Wild α)) (s : List α) (r : Option (List (Wild α) × List α)) : Bool :=
  match s, p with
  | [], p => p.all Wild.isStar
  | a :: s, .star :: q => greedy q (a :: s) (some (q, a :: s))
  | a :: s, .one test :: q =>
    if test a then greedy q s r
    else
      match r with
      | none => false
      | some (_, []) => false
      | some (q', _ :: t) => greedy q' t (some (q', t))
  | _ :: _, [] =>
    match r with
    | none => false
    | some (_, []) => false
    | some (q', _ :: t) => greedy q' t (some (q', t))
termination_by (reach s r, p.length)
decreasing_by
  all_goals simp_wf
  · cases r with
    | none => left; simp [reach]
    | some x => simp [reach, Prod.lex_def]; omega
  · cases r with
    | none => left; simp [reach]
    | some x => simp [reach, Prod.lex_def]; omega
  · left; simp [reach]
  · left; simp [reach]

section

variable {p q : List (Wild α)} {s t : List α} {test : α → Bool} {a : α}

lemma matches_one : Matches (.one test :: q) (a :: s) ↔ test a = true ∧ Matches q s := by
  constructor
  · rintro (_ | ⟨h, hq⟩ | _)
    exact ⟨h, hq⟩
  · rintro ⟨h, hq⟩
    exact .one h hq

lemma matches_empty : Matches ([] : List (Wild α)) s ↔ s = [] := by
  constructor
  · intro h
    cases h
    rfl
  · rintro rfl
    exact .nil

lemma matches_star : Matches (.star :: q) s ↔ ∃ k ≤ s.length, Matches q (s.drop k) := by
  constructor
  · intro h
    generalize hs : s = s' at h
    cases h with
    | star t hq => exact ⟨t.length, by simp, by rwa [drop_left]⟩
  · rintro ⟨k, -, hq⟩
    rw [← take_append_drop k s]
    exact .star _ hq

lemma Matches.star_drop {k : ℕ} (h : Matches (Wild.star :: q) (s.drop k)) : Matches (Wild.star :: q) s := by
  obtain ⟨j, -, hq⟩ := matches_star.mp h
  rw [drop_drop] at hq
  rw [← take_append_drop (k + j) s]
  exact .star _ hq

lemma matches_nil : Matches p [] ↔ p.all Wild.isStar = true := by
  induction p with
  | nil => exact ⟨fun _ => rfl, fun _ => .nil⟩
  | cons w p ih =>
    cases w with
    | one test => exact ⟨fun h => (by cases h), fun h => by simp [Wild.isStar] at h⟩
    | star =>
      rw [matches_star, all_cons, Wild.isStar, Bool.true_and, ← ih]
      simp

lemma Matches.countP_le (h : Matches p s) : p.countP (fun w => !w.isStar) ≤ s.length := by
  induction h with
  | nil => exact le_rfl
  | one h _ ih => simpa [Wild.isStar] using ih
  | star t _ ih =>
    rw [countP_cons_of_neg (by simp [Wild.isStar]), length_append]
    omega

lemma Matches.drop_left {u : List (Wild α)} (hu : ∀ w ∈ u, w.isStar = false) (h : Matches (u ++ p) s) :
    Matches p (s.drop u.length) := by
  induction u generalizing s with
  | nil => exact h
  | cons w u ih =>
    cases w with
    | star => exact absurd (hu .star mem_cons_self) (by simp [Wild.isStar])
    | one test =>
      cases h with
      | one h hq => exact ih (fun w hw => hu w (mem_cons_of_mem _ hw)) hq

def Reached (p : List (Wild α)) (s : List α) : Option (List (Wild α) × List α) → Prop
  | none => True
  | some (q, t) => ∃ u v, q = u ++ p ∧ t = v ++ s ∧ v.length = u.length ∧ ∀ w ∈ u, w.isStar = false

def Later : Option (List (Wild α) × List α) → Prop
  | none => False
  | some (q, t) => ∃ k, 0 < k ∧ k ≤ t.length ∧ Matches q (t.drop k)

variable {r : Option (List (Wild α) × List α)}

lemma reached_self (q : List (Wild α)) (t : List α) : Reached q t (some (q, t)) := ⟨[], [], rfl, rfl, rfl, by simp⟩

lemma Reached.one (h : Reached (.one test :: q) (a :: s) r) : Reached q s r := by
  cases r with
  | none => trivial
  | some x =>
    obtain ⟨u, v, hq, ht, hlen, hu⟩ := h
    refine ⟨u ++ [Wild.one test], v ++ [a], by rw [hq, append_assoc]; rfl, by rw [ht, append_assoc]; rfl,
      by simp [hlen], ?_⟩
    intro w hw
    obtain hw | hw := mem_append.mp hw
    · exact hu w hw
    · rw [mem_singleton.mp hw]
      rfl

lemma Later.star (h : Reached (Wild.star :: q) s r) (hl : Later r) : Matches (Wild.star :: q) s := by
  cases r with
  | none => exact hl.elim
  | some x =>
    obtain ⟨u, v, hq, ht, hlen, hu⟩ := h
    obtain ⟨k, -, -, hk⟩ := hl
    rw [hq] at hk
    have hrest := hk.drop_left hu
    rw [drop_drop, ht, ← hlen, Nat.add_comm, ← drop_drop, drop_left] at hrest
    exact hrest.star_drop

lemma Later.nil (h : Reached p ([] : List α) r) (hl : Later r) : Matches p [] := by
  cases r with
  | none => exact hl.elim
  | some x =>
    obtain ⟨u, v, hq, ht, hlen, hu⟩ := h
    obtain ⟨k, hpos, hle, hk⟩ := hl
    have hcount := hk.countP_le
    have hall : u.countP (fun w => !w.isStar) = u.length := countP_eq_length.mpr fun w hw => by rw [hu w hw]; rfl
    rw [hq, countP_append, hall, length_drop] at hcount
    rw [ht, append_nil] at hcount hle
    omega

lemma later_cons {q : List (Wild α)} {b : α} {t : List α} :
    Later (some (q, b :: t)) ↔ Matches q t ∨ Later (some (q, t)) := by
  constructor
  · rintro ⟨k, hpos, hle, hk⟩
    obtain ⟨k, rfl⟩ : ∃ j, k = j + 1 := ⟨k - 1, by omega⟩
    rw [drop_succ_cons] at hk
    cases k with
    | zero => exact .inl hk
    | succ k => exact .inr ⟨k + 1, by omega, by simpa using hle, hk⟩
  · rintro (h | ⟨k, hpos, hle, hk⟩)
    · exact ⟨1, one_pos, by simp, h⟩
    · exact ⟨k + 1, by omega, by simpa using hle, hk⟩

lemma greedy_one (htest : test a = true) : greedy (.one test :: q) (a :: s) r = greedy q s r := by
  rcases r with _ | ⟨q', _ | ⟨b, t⟩⟩ <;> simp only [greedy, if_pos htest]

theorem greedy_iff (h : Reached p s r) : greedy p s r = true ↔ Matches p s ∨ Later r := by
  induction p, s, r using greedy.induct with
  | case1 r p =>
    rw [greedy, ← matches_nil]
    exact ⟨.inl, fun hm => hm.elim id (Later.nil h)⟩
  | case2 r a s q ih =>
    rw [greedy, ih (reached_self q (a :: s))]
    constructor
    · rintro (hm | ⟨k, -, hle, hk⟩)
      · exact .inl (.star [] hm)
      · exact .inl (matches_star.mpr ⟨k, hle, hk⟩)
    · intro hm
      obtain ⟨k, hle, hk⟩ := matches_star.mp (hm.elim id (Later.star h))
      cases k with
      | zero => exact .inl hk
      | succ k => exact .inr ⟨k + 1, by omega, hle, hk⟩
  | case3 r a s test q htest ih =>
    rw [matches_one, and_iff_right htest, ← ih h.one, greedy_one htest]
  | case4 a s test q htest =>
    rw [matches_one]
    simp [greedy, htest, Later]
  | case5 a s test q htest q' =>
    obtain ⟨u, v, -, ht, -⟩ := h
    simp at ht
  | case6 a s test q htest q' b t ih =>
    have hgreedy : greedy (.one test :: q) (a :: s) (some (q', b :: t)) = greedy q' t (some (q', t)) := by
      simp only [greedy, if_neg htest]
    rw [hgreedy, ih (reached_self q' t), later_cons, matches_one]
    simp [htest]
  | case7 a s => simp [greedy, Later, matches_empty]
  | case8 a s q' =>
    obtain ⟨u, v, -, ht, -⟩ := h
    simp at ht
  | case9 a s q' b t ih =>
    have hgreedy : greedy [] (a :: s) (some (q', b :: t)) = greedy q' t (some (q', t)) := by simp only [greedy]
    rw [hgreedy, ih (reached_self q' t), later_cons, matches_empty]
    simp

end

end Rayforce.Library.Wildcards
