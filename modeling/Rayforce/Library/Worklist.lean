import Mathlib

/-! Marking the nodes that a root reaches. -/

namespace Rayforce.Worklist

open List

variable {α : Type} [DecidableEq α]
variable {cap : ℤ}

/-- A reference marked `true` is passed over when its target was seen. -/
structure Graph (α : Type) where
  enters : α → Bool
  refs : α → List (α × Bool)

namespace Graph

variable (G : Graph α)

def Edge (a b : α) : Prop := G.enters a = true ∧ ∃ l, (b, l) ∈ G.refs a

def Reaches : α → α → Prop := Relation.ReflTransGen G.Edge

end Graph

structure Search (α : Type) where
  stack : List α
  seen : List α
  pushed : List α
  refused : List α

namespace Search

def pushRef (cap : ℤ) (s : Search α) (r : α × Bool) : Search α :=
  if r.2 ∧ r.1 ∈ s.seen then s
  else if (s.stack.length : ℤ) < cap then { s with stack := r.1 :: s.stack, pushed := r.1 :: s.pushed }
  else { s with refused := r.1 :: s.refused }

def visit (G : Graph α) (cap : ℤ) (s : Search α) (a : α) (stk : List α) : Search α :=
  if G.enters a ∧ a ∉ s.seen then (G.refs a).foldl (pushRef cap) { s with stack := stk, seen := a :: s.seen }
  else { s with stack := stk }

def run (G : Graph α) (cap : ℤ) : ℕ → Search α → Search α
  | 0, s => s
  | fuel + 1, s => match s.stack with
    | [] => s
    | a :: stk => run G cap fuel (visit G cap s a stk)

def start (root : α) : Search α := ⟨[root], [], [root], []⟩

def pending (G : Graph α) (U seen : List α) : ℕ := ((U.filter (· ∉ seen)).map fun a => (G.refs a).length).sum

def search (G : Graph α) (cap : ℤ) (U : List α) (root : α) : Search α :=
  run G cap (1 + pending G U []) (start root)

structure Pushes (s : Search α) (refs : List (α × Bool)) (t : Search α) : Prop where
  seen : t.seen = s.seen
  stack : s.stack ⊆ t.stack
  pushed : s.pushed ⊆ t.pushed
  refused : s.refused ⊆ t.refused
  taken : ∀ b l, (b, l) ∈ refs → b ∈ t.seen ∨ b ∈ t.pushed ∨ b ∈ t.refused
  ofStack : ∀ b ∈ t.stack, b ∈ s.stack ∨ b ∈ t.pushed
  ofPushed : ∀ b ∈ t.pushed, b ∈ s.pushed ∨ b ∈ t.stack ∧ ∃ l, (b, l) ∈ refs
  ofRefused : ∀ b ∈ t.refused, b ∈ s.refused ∨ ∃ l, (b, l) ∈ refs
  length : t.stack.length ≤ s.stack.length + refs.length

omit [DecidableEq α] in
lemma Pushes.refl (s : Search α) : Pushes s [] s where
  seen := rfl
  stack := List.Subset.refl _
  pushed := List.Subset.refl _
  refused := List.Subset.refl _
  taken := by simp
  ofStack _ h := Or.inl h
  ofPushed _ h := Or.inl h
  ofRefused _ h := Or.inl h
  length := by simp

lemma pushes_pushRef (cap : ℤ) (s : Search α) (r : α × Bool) : Pushes s [r] (pushRef cap s r) := by
  obtain ⟨c, l⟩ := r
  rw [pushRef]
  split_ifs with hseen hroom
  · refine { Pushes.refl s with taken := ?_, ofPushed := ?_, ofRefused := ?_, length := ?_ }
    · intro b k hb
      obtain ⟨rfl, -⟩ := Prod.mk.inj (mem_singleton.mp hb)
      exact Or.inl hseen.2
    · exact fun b hb => Or.inl hb
    · exact fun b hb => Or.inl hb
    · simp
  · refine ⟨rfl, subset_cons_self _ _, subset_cons_self _ _, List.Subset.refl _, ?_, ?_, ?_, ?_, ?_⟩
    · intro b k hb
      obtain ⟨rfl, -⟩ := Prod.mk.inj (mem_singleton.mp hb)
      exact Or.inr (Or.inl mem_cons_self)
    · intro b hb
      rcases mem_cons.mp hb with rfl | hb
      · exact Or.inr mem_cons_self
      · exact Or.inl hb
    · intro b hb
      rcases mem_cons.mp hb with rfl | hb
      · exact Or.inr ⟨mem_cons_self, l, mem_singleton_self _⟩
      · exact Or.inl hb
    · exact fun b hb => Or.inl hb
    · simp
  · refine { Pushes.refl s with refused := ?_, taken := ?_, ofPushed := ?_, ofRefused := ?_, length := ?_ }
    · exact subset_cons_self _ _
    · intro b k hb
      obtain ⟨rfl, -⟩ := Prod.mk.inj (mem_singleton.mp hb)
      exact Or.inr (Or.inr mem_cons_self)
    · exact fun b hb => Or.inl hb
    · intro b hb
      rcases mem_cons.mp hb with rfl | hb
      · exact Or.inr ⟨l, mem_singleton_self _⟩
      · exact Or.inl hb
    · simp

omit [DecidableEq α] in
lemma Pushes.trans {s t u : Search α} {refs refs' : List (α × Bool)} (h : Pushes s refs t)
    (h' : Pushes t refs' u) :
    Pushes s (refs ++ refs') u where
  seen := h'.seen.trans h.seen
  stack := fun _ hb => h'.stack (h.stack hb)
  pushed := fun _ hb => h'.pushed (h.pushed hb)
  refused := fun _ hb => h'.refused (h.refused hb)
  taken b l hb := by
    rcases mem_append.mp hb with hb | hb
    · rcases h.taken b l hb with hb | hb | hb
      · exact Or.inl (h'.seen ▸ hb)
      · exact Or.inr (Or.inl (h'.pushed hb))
      · exact Or.inr (Or.inr (h'.refused hb))
    · exact h'.taken b l hb
  ofStack b hb := by
    rcases h'.ofStack b hb with hb | hb
    · exact (h.ofStack b hb).imp id fun hb => h'.pushed hb
    · exact Or.inr hb
  ofPushed b hb := by
    rcases h'.ofPushed b hb with hb | ⟨hb, l, hl⟩
    · exact (h.ofPushed b hb).imp id fun ⟨hb, l, hl⟩ => ⟨h'.stack hb, l, mem_append_left _ hl⟩
    · exact Or.inr ⟨hb, l, mem_append_right _ hl⟩
  ofRefused b hb := by
    rcases h'.ofRefused b hb with hb | ⟨l, hl⟩
    · exact (h.ofRefused b hb).imp id fun ⟨l, hl⟩ => ⟨l, mem_append_left _ hl⟩
    · exact Or.inr ⟨l, mem_append_right _ hl⟩
  length := by
    have := h.length
    have := h'.length
    rw [length_append]
    omega

lemma pushes_foldl (cap : ℤ) (refs : List (α × Bool)) (s : Search α) :
    Pushes s refs (refs.foldl (pushRef cap) s) := by
  induction refs generalizing s with
  | nil => exact Pushes.refl s
  | cons r refs ih => exact (pushes_pushRef cap s r).trans (ih (pushRef cap s r))

variable {G : Graph α} {root : α} {s : Search α}

structure Sound (G : Graph α) (root : α) (s : Search α) : Prop where
  started : root ∈ s.pushed
  stack : s.stack ⊆ s.pushed
  seen : ∀ a ∈ s.seen, G.enters a = true ∧ a ∈ s.pushed
  reached : ∀ a, a ∈ s.pushed ∨ a ∈ s.refused → G.Reaches root a
  done : ∀ a ∈ s.pushed, G.enters a = true → a ∈ s.seen ∨ a ∈ s.stack
  closed : ∀ a ∈ s.seen, ∀ b l, (b, l) ∈ G.refs a → b ∈ s.pushed ∨ b ∈ s.refused

omit [DecidableEq α] in
lemma Sound.start (G : Graph α) (root : α) : Sound G root (start root) where
  started := mem_cons_self
  stack := List.Subset.refl _
  seen := by simp [Search.start]
  reached a ha := by
    obtain rfl : a = root := by simpa [Search.start] using ha
    exact Relation.ReflTransGen.refl
  done a ha _ := Or.inr ha
  closed := by simp [Search.start]

lemma Sound.visit (cap : ℤ) {a : α} {stk : List α} (h : Sound G root s) (hs : s.stack = a :: stk) :
    Sound G root (visit G cap s a stk) := by
  have hstk : stk ⊆ s.pushed := fun b hb => h.stack (hs ▸ mem_cons_of_mem a hb)
  have ha : a ∈ s.pushed := h.stack (hs ▸ mem_cons_self)
  rw [Search.visit]
  split_ifs with hin
  · obtain ⟨hent, -⟩ := hin
    set t := (G.refs a).foldl (pushRef cap) { s with stack := stk, seen := a :: s.seen }
    have hp : Pushes { s with stack := stk, seen := a :: s.seen } (G.refs a) t := pushes_foldl cap _ _
    have hseen : t.seen = a :: s.seen := hp.seen
    have hreach : ∀ b l, (b, l) ∈ G.refs a → G.Reaches root b := fun b l hb =>
      (h.reached a (Or.inl ha)).tail ⟨hent, l, hb⟩
    have hseen' : ∀ b ∈ t.seen, G.enters b = true ∧ b ∈ t.pushed := by
      rw [hseen]
      intro b hb
      rcases mem_cons.mp hb with rfl | hb
      · exact ⟨hent, hp.pushed ha⟩
      · exact ⟨(h.seen b hb).1, hp.pushed (h.seen b hb).2⟩
    refine ⟨hp.pushed h.started, ?_, hseen', ?_, ?_, ?_⟩
    · intro b hb
      rcases hp.ofStack b hb with hb | hb
      · exact hp.pushed (hstk hb)
      · exact hb
    · rintro b (hb | hb)
      · rcases hp.ofPushed b hb with hb | ⟨-, l, hl⟩
        · exact h.reached b (Or.inl hb)
        · exact hreach b l hl
      · rcases hp.ofRefused b hb with hb | ⟨l, hl⟩
        · exact h.reached b (Or.inr hb)
        · exact hreach b l hl
    · intro b hb hent'
      rcases hp.ofPushed b hb with hb | ⟨hb, -⟩
      · rcases h.done b hb hent' with hb | hb
        · exact Or.inl (hseen ▸ mem_cons_of_mem a hb)
        · rw [hs] at hb
          rcases mem_cons.mp hb with rfl | hb
          · exact Or.inl (hseen ▸ mem_cons_self)
          · exact Or.inr (hp.stack hb)
      · exact Or.inr hb
    · intro b hb c l hc
      rw [hseen] at hb
      rcases mem_cons.mp hb with rfl | hb
      · exact (hp.taken c l hc).elim (fun hc => Or.inl (hseen' c hc).2) id
      · exact (h.closed b hb c l hc).imp (fun hc => hp.pushed hc) (fun hc => hp.refused hc)
  · refine ⟨h.started, hstk, h.seen, h.reached, ?_, h.closed⟩
    intro b hb hent'
    rcases h.done b hb hent' with hb | hb
    · exact Or.inl hb
    · rw [hs] at hb
      rcases mem_cons.mp hb with rfl | hb
      · exact Or.inl (by simpa [hent'] using hin)
      · exact Or.inr hb

lemma Sound.run (cap : ℤ) (fuel : ℕ) (h : Sound G root s) : Sound G root (run G cap fuel s) := by
  induction fuel generalizing s with
  | zero => exact h
  | succ fuel ih =>
    rw [Search.run]
    cases hs : s.stack with
    | nil => exact h
    | cons a stk => exact ih (h.visit cap hs)

lemma sum_filter_ne_add_le (f : α → ℕ) {l : List α} {a : α} (ha : a ∈ l) :
    ((l.filter (· ≠ a)).map f).sum + f a ≤ (l.map f).sum := by
  induction l with
  | nil => simp at ha
  | cons b l ih =>
    by_cases hb : b = a
    · subst hb
      have hle : ((l.filter (· ≠ b)).map f).sum ≤ (l.map f).sum :=
        (filter_sublist.map f).sum_le_sum fun _ _ => Nat.zero_le _
      simp only [ne_eq, not_true_eq_false, decide_false, Bool.false_eq_true, not_false_eq_true,
        filter_cons_of_neg, map_cons, sum_cons]
      simp only [ne_eq] at hle
      omega
    · have := ih ((mem_cons.mp ha).resolve_left (Ne.symm hb))
      simp only [ne_eq, hb, not_false_eq_true, decide_true, filter_cons_of_pos, map_cons, sum_cons]
      simp only [ne_eq] at this
      omega

lemma pending_cons {U seen : List α} {a : α} (ha : a ∈ U) (hseen : a ∉ seen) :
    pending G U (a :: seen) + (G.refs a).length ≤ pending G U seen := by
  have hmem : a ∈ U.filter (· ∉ seen) := mem_filter.mpr ⟨ha, by simpa using hseen⟩
  have h := sum_filter_ne_add_le (fun a => (G.refs a).length) hmem
  rw [List.filter_filter] at h
  simpa [pending, not_or] using h

lemma run_stack_eq_nil (cap : ℤ) {U : List α} (hU : ∀ a, G.enters a = true → a ∈ U) (fuel : ℕ)
    (hfuel : s.stack.length + pending G U s.seen ≤ fuel) : (run G cap fuel s).stack = [] := by
  induction fuel generalizing s with
  | zero => exact length_eq_zero_iff.mp (by rw [run]; omega)
  | succ fuel ih =>
    rw [run]
    cases hs : s.stack with
    | nil => exact hs
    | cons a stk =>
      rw [hs, length_cons] at hfuel
      refine ih ?_
      rw [visit]
      split_ifs with hin
      · have hp := pushes_foldl cap (G.refs a) { s with stack := stk, seen := a :: s.seen }
        have hlen := hp.length
        have hpend := pending_cons (G := G) (hU a hin.1) hin.2
        rw [hp.seen]
        simp only at hlen ⊢
        omega
      · simp only
        omega

lemma search_sound (G : Graph α) (cap : ℤ) (U : List α) (root : α) : Sound G root (search G cap U root) :=
  (Sound.start G root).run cap _

lemma search_stack (cap : ℤ) {U : List α} (hU : ∀ a, G.enters a = true → a ∈ U) (root : α) :
    (search G cap U root).stack = [] :=
  run_stack_eq_nil cap hU _ (by simp [start])

structure Roomy (U : List α) (k : ℕ) (s : Search α) : Prop where
  nodup : s.seen.Nodup
  inside : s.seen ⊆ U
  refused : s.refused = []
  stack : s.stack.length ≤ k * s.seen.length + 1

lemma foldl_pushRef_roomy (refs : List (α × Bool)) (s : Search α) (hs : s.refused = [])
    (hcap : ((s.stack.length + refs.length : ℕ) : ℤ) ≤ cap) : (refs.foldl (pushRef cap) s).refused = [] := by
  induction refs generalizing s with
  | nil => exact hs
  | cons r refs ih =>
    rw [length_cons] at hcap
    rw [foldl_cons, pushRef]
    split_ifs with hseen hroom
    · exact ih s hs (by omega)
    · exact ih _ hs (by simp only [length_cons]; omega)
    · omega

lemma Roomy.run {U : List α} {k : ℕ} (hU : ∀ a, G.enters a = true → a ∈ U)
    (hk : ∀ a, (G.refs a).length ≤ k + 1) (hcap : ((k * U.length + 1 : ℕ) : ℤ) ≤ cap) (fuel : ℕ)
    (h : Roomy U k s) :
    Roomy U k (run G cap fuel s) := by
  induction fuel generalizing s with
  | zero => exact h
  | succ fuel ih =>
    rw [Search.run]
    cases hs : s.stack with
    | nil => exact h
    | cons a stk =>
      have hstk := h.stack
      rw [hs, length_cons] at hstk
      refine ih ?_
      rw [visit]
      split_ifs with hin
      · have hnd : (a :: s.seen).Nodup := nodup_cons.mpr ⟨hin.2, h.nodup⟩
        have hsub : a :: s.seen ⊆ U := cons_subset.mpr ⟨hU a hin.1, h.inside⟩
        have hle : s.seen.length + 1 ≤ U.length := by simpa using (hnd.subperm hsub).length_le
        have hmul : k * (s.seen.length + 1) ≤ k * U.length := Nat.mul_le_mul_left k hle
        have hrefs := hk a
        have hp := pushes_foldl cap (G.refs a) { s with stack := stk, seen := a :: s.seen }
        have hlen := hp.length
        rw [Nat.mul_add, Nat.mul_one] at hmul
        refine ⟨hp.seen ▸ hnd, hp.seen ▸ hsub, foldl_pushRef_roomy _ _ h.refused ?_, ?_⟩
        · simp only
          omega
        · rw [hp.seen, length_cons, Nat.mul_add, Nat.mul_one]
          simp only at hlen
          omega
      · exact ⟨h.nodup, h.inside, h.refused, by simp only; omega⟩

lemma search_roomy {U : List α} {k : ℕ} (hU : ∀ a, G.enters a = true → a ∈ U)
    (hk : ∀ a, (G.refs a).length ≤ k + 1) (hcap : ((k * U.length + 1 : ℕ) : ℤ) ≤ cap) (root : α) :
    Roomy U k (search G cap U root) :=
  Roomy.run hU hk hcap _ ⟨by simp [start], by simp [start], rfl, by simp [start]⟩

omit [DecidableEq α] in
theorem seen_iff (h : Sound G root s) (hs : s.stack = []) :
    (∀ a, G.Reaches root a → G.enters a = true → a ∈ s.seen) ↔ ∀ a ∈ s.refused, G.enters a = true →
      a ∈ s.pushed := by
  have hdone : ∀ a ∈ s.pushed, G.enters a = true → a ∈ s.seen := fun a ha hent =>
    (h.done a ha hent).resolve_right (by simp [hs])
  constructor
  · exact fun hall a ha hent => (h.seen a (hall a (h.reached a (Or.inr ha)) hent)).2
  · intro hrefused a hreach hent
    induction hreach with
    | refl => exact hdone root h.started hent
    | tail _ hedge ih =>
      obtain ⟨hent', l, hl⟩ := hedge
      rcases h.closed _ (ih hent') _ l hl with hb | hb
      · exact hdone _ hb hent
      · exact hdone _ (hrefused _ hb hent) hent

omit [DecidableEq α] in
lemma Sound.reaches (h : Sound G root s) {a : α} (ha : a ∈ s.seen) : G.Reaches root a :=
  h.reached a (Or.inl (h.seen a ha).2)

end Search

end Rayforce.Worklist
