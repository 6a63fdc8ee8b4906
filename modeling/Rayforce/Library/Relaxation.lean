import Mathlib

/-! Difference constraints `level j + d ≤ level i` on a finite graph. -/

namespace Rayforce.Library.Relaxation

open List Option Function

variable {α : Type}

section

variable [DecidableEq α] (w : α → α → Option ℕ)

def relax (st : (α → ℕ) × Bool) (e : α × α) : (α → ℕ) × Bool :=
  match w e.1 e.2 with
  | none => st
  | some d => if st.1 e.1 < st.1 e.2 + d then (Function.update st.1 e.1 (st.1 e.2 + d), true) else st

def pass (es : List (α × α)) (level : α → ℕ) : (α → ℕ) × Bool := es.foldl (relax w) (level, false)

def settle (es : List (α × α)) : ℕ → (α → ℕ) → Option (α → ℕ)
  | 0, _ => none
  | fuel + 1, level => if (pass w es level).2 then settle es fuel (pass w es level).1 else some (pass w es level).1

end

section

def Feasible (w : α → α → Option ℕ) (es : List (α × α)) (level : α → ℕ) : Prop :=
  ∀ e ∈ es, ∀ d, w e.1 e.2 = some d → level e.2 + d ≤ level e.1

inductive Walk (w : α → α → Option ℕ) (es : List (α × α)) : α → List α → ℕ → α → Prop
  | nil (i : α) : Walk w es i [] 0 i
  | cons {i j e : α} {l : List α} {d s : ℕ} (h : (i, j) ∈ es) (hd : w i j = some d) (hw : Walk w es j l s e) :
      Walk w es i (i :: l) (d + s) e

variable {w : α → α → Option ℕ} {es : List (α × α)} {level : α → ℕ} {i j k e : α} {l m : List α} {s t : ℕ}

lemma Walk.append (h : Walk w es i l s j) (h' : Walk w es j m t k) : Walk w es i (l ++ m) (s + t) k := by
  induction h with
  | nil => rwa [nil_append, Nat.zero_add]
  | cons hp hd _ ih =>
    rw [cons_append, Nat.add_assoc]
    exact .cons hp hd (ih h')

lemma Walk.split (h : Walk w es i (l ++ m) s k) :
    ∃ j s₁ s₂, Walk w es i l s₁ j ∧ Walk w es j m s₂ k ∧ s = s₁ + s₂ := by
  induction l generalizing i s with
  | nil => exact ⟨i, 0, s, .nil i, h, (Nat.zero_add s).symm⟩
  | cons a l ih =>
    cases h with
    | cons hp hd hw =>
      obtain ⟨j, s₁, s₂, h₁, h₂, rfl⟩ := ih hw
      exact ⟨j, _, s₂, .cons hp hd h₁, h₂, (Nat.add_assoc _ _ _).symm⟩

lemma Walk.head_eq (h : Walk w es i (j :: l) s k) : i = j := by
  cases h
  rfl

lemma Walk.mem_sources (h : Walk w es i l s k) : ∀ a ∈ l, ∃ b, (a, b) ∈ es := by
  induction h with
  | nil => simp
  | @cons i j e l d s hp hd _ ih =>
    intro a ha
    rcases mem_cons.mp ha with rfl | ha
    · exact ⟨j, hp⟩
    · exact ih a ha

lemma exists_repeat {l : List α} (h : ¬ l.Nodup) : ∃ a l₁ l₂ l₃, l = l₁ ++ a :: (l₂ ++ a :: l₃) := by
  induction l with
  | nil => exact absurd nodup_nil h
  | cons b l ih =>
    by_cases hb : b ∈ l
    · obtain ⟨l₂, l₃, rfl⟩ := append_of_mem hb
      exact ⟨b, [], l₂, l₃, rfl⟩
    · obtain ⟨a, l₁, l₂, l₃, rfl⟩ := ih fun hn => h (nodup_cons.mpr ⟨hb, hn⟩)
      exact ⟨a, b :: l₁, l₂, l₃, rfl⟩

lemma Walk.shorten {U : List α} (hU : ∀ p ∈ es, p.1 ∈ U) (hz : ∀ a l s, Walk w es a l s a → s = 0)
    (h : Walk w es i l s k) : ∃ l', Walk w es i l' s k ∧ l'.length ≤ U.length := by
  classical
  induction hn : l.length using Nat.strong_induction_on generalizing l with
  | h n ih =>
  by_cases hl : l.length ≤ U.length
  · exact ⟨l, h, hl⟩
  have hrep : ¬ l.Nodup := by
    intro hn
    have hsub : l ⊆ U := by
      intro a ha
      obtain ⟨b, hb⟩ := h.mem_sources a ha
      exact hU _ hb
    exact hl (hn.subperm hsub).length_le
  obtain ⟨a, l₁, l₂, l₃, rfl⟩ := exists_repeat hrep
  obtain ⟨b, s₁, s₂, h₁, h₂, rfl⟩ := h.split
  obtain rfl := h₂.head_eq
  obtain ⟨c, s₃, s₄, h₃, h₄, rfl⟩ := (show b :: (l₂ ++ b :: l₃) = (b :: l₂) ++ b :: l₃ from rfl) ▸ h₂ |>.split
  obtain rfl := h₄.head_eq
  obtain rfl := hz c _ _ h₃
  rw [Nat.zero_add] at ih ⊢
  have hlt : (l₁ ++ c :: l₃).length < n := by
    rw [← hn]
    simp only [length_append, length_cons]
    omega
  exact ih _ hlt (h₁.append h₄) rfl

structure Reached (w : α → α → Option ℕ) (es : List (α × α)) (n : ℕ) (level : α → ℕ) : Prop where
  walk : ∀ a, ∃ l k, Walk w es a l (level a) k
  above : ∀ a l s k, Walk w es a l s k → l.length ≤ n → s ≤ level a

lemma reached_zero : Reached w es 0 fun _ => 0 where
  walk a := ⟨[], a, .nil a⟩
  above a l s k hw hl := by
    obtain rfl := length_eq_zero_iff.mp (Nat.le_zero.mp hl)
    cases hw
    exact le_rfl

lemma Reached.feasible {U : List α} (hU : ∀ p ∈ es, p.1 ∈ U) (hz : ∀ a l s, Walk w es a l s a → s = 0)
    (h : Reached w es U.length level) : Feasible w es level := by
  intro e he d hd
  obtain ⟨l, k, hw⟩ := h.walk e.2
  obtain ⟨l', hw', hl'⟩ := (Walk.cons he hd hw).shorten hU hz
  rw [Nat.add_comm]
  exact h.above _ _ _ _ hw' hl'

end

section

variable [DecidableEq α] {w : α → α → Option ℕ} {es : List (α × α)} {level : α → ℕ} {i j : α}

lemma relax_none {st : (α → ℕ) × Bool} {e : α × α} (hd : w e.1 e.2 = none) : relax w st e = st := by rw [relax, hd]

lemma relax_self {st : (α → ℕ) × Bool} {e : α × α} {d : ℕ} (hd : w e.1 e.2 = some d) :
    (relax w st e).1 e.1 = max (st.1 e.1) (st.1 e.2 + d) := by
  simp only [relax, hd]
  split
  · simp only [update_self]
    omega
  · omega

section

variable (st : (α → ℕ) × Bool)

lemma relax_of_ne {e : α × α} {a : α} (ha : a ≠ e.1) : (relax w st e).1 a = st.1 a := by
  rw [relax]
  split
  · rfl
  · split
    · exact update_of_ne ha _ _
    · rfl

lemma relax_ge (e : α × α) (a : α) : st.1 a ≤ (relax w st e).1 a := by
  by_cases ha : a = e.1
  · cases hd : w e.1 e.2 with
    | none => rw [relax_none hd]
    | some d =>
      rw [ha, relax_self hd]
      exact le_max_left _ _
  · rw [relax_of_ne st ha]

lemma foldl_relax_ge (a : α) : st.1 a ≤ (es.foldl (relax w) st).1 a := by
  induction es generalizing st with
  | nil => exact le_rfl
  | cons e es ih => exact (relax_ge st e a).trans (ih _)

lemma foldl_relax_edge (h : (i, j) ∈ es) {d : ℕ} (hd : w i j = some d) :
    st.1 j + d ≤ (es.foldl (relax w) st).1 i := by
  induction es generalizing st with
  | nil => cases h
  | cons e es ih =>
    rw [foldl_cons]
    rcases mem_cons.mp h with rfl | h
    · refine le_trans ?_ (foldl_relax_ge _ i)
      rw [relax_self hd]
      exact le_max_right _ _
    · exact (Nat.add_le_add_right (relax_ge st e j) d).trans (ih _ h)

lemma foldl_relax_walk (es' : List (α × α)) (hs : ∀ e ∈ es', e ∈ es)
    (h : ∀ a, ∃ l k, Walk w es a l (st.1 a) k) : ∀ a, ∃ l k, Walk w es a l ((es'.foldl (relax w) st).1 a) k := by
  induction es' generalizing st with
  | nil => exact h
  | cons e es' ih =>
    refine ih _ (fun x hx => hs x (mem_cons_of_mem _ hx)) fun a => ?_
    by_cases ha : a = e.1
    · cases hd : w e.1 e.2 with
      | none =>
        rw [relax_none hd]
        exact h a
      | some d =>
        rw [ha, relax_self hd]
        rcases max_cases (st.1 e.1) (st.1 e.2 + d) with ⟨hm, -⟩ | ⟨hm, -⟩
        · rw [hm]
          exact h e.1
        · obtain ⟨l, k, hw⟩ := h e.2
          rw [hm, Nat.add_comm]
          exact ⟨_, k, .cons (hs e (by simp)) hd hw⟩
    · rw [relax_of_ne st ha]
      exact h a

end

lemma foldl_relax_le {level' : α → ℕ} (hf : Feasible w es level') (st : (α → ℕ) × Bool)
    (h : ∀ a, st.1 a ≤ level' a) :
    ∀ a, (es.foldl (relax w) st).1 a ≤ level' a := by
  induction es generalizing st with
  | nil => exact h
  | cons e es ih =>
    refine ih (fun x hx => hf x (mem_cons_of_mem _ hx)) _ fun a => ?_
    by_cases ha : a = e.1
    · cases hd : w e.1 e.2 with
      | none =>
        rw [relax_none hd]
        exact h a
      | some d =>
        rw [ha, relax_self hd]
        exact max_le (h e.1) ((Nat.add_le_add_right (h e.2) d).trans (hf e (by simp) d hd))
    · rw [relax_of_ne st ha]
      exact h a

lemma foldl_relax_of_feasible (hf : Feasible w es level) (b : Bool) :
    es.foldl (relax w) (level, b) = (level, b) := by
  induction es with
  | nil => rfl
  | cons e es ih =>
    have hkeep : relax w (level, b) e = (level, b) := by
      rw [relax]
      split
      · rfl
      · rename_i d hd
        rw [if_neg (Nat.not_lt.mpr (hf e (by simp) d hd))]
    rw [foldl_cons, hkeep, ih fun x hx => hf x (mem_cons_of_mem _ hx)]

lemma foldl_relax_changed (st : (α → ℕ) × Bool) (h : st.2 = true) : (es.foldl (relax w) st).2 = true := by
  induction es generalizing st with
  | nil => exact h
  | cons e es ih =>
    refine ih _ ?_
    rw [relax]
    split
    · exact h
    · split
      · rfl
      · exact h

lemma feasible_of_pass (h : (pass w es level).2 = false) : Feasible w es level ∧ (pass w es level).1 = level := by
  rw [pass] at h ⊢
  induction es with
  | nil => exact ⟨fun e he => (not_mem_nil he).elim, rfl⟩
  | cons e es ih =>
    rw [foldl_cons] at h ⊢
    have hmet : ∀ d, w e.1 e.2 = some d → level e.2 + d ≤ level e.1 := by
      intro d hd
      by_contra hlt
      have hch : (relax w (level, false) e).2 = true := by simp only [relax, hd, if_pos (Nat.not_le.mp hlt)]
      rw [foldl_relax_changed _ hch] at h
      cases h
    have hone : Feasible w [e] level := by
      intro x hx d hd
      obtain rfl := mem_singleton.mp hx
      exact hmet d hd
    have hkeep := foldl_relax_of_feasible hone false
    rw [foldl_cons, foldl_nil] at hkeep
    rw [hkeep] at h ⊢
    obtain ⟨hf, hsame⟩ := ih h
    refine ⟨fun x hx d hd => ?_, hsame⟩
    rcases mem_cons.mp hx with rfl | hx
    · exact hmet d hd
    · exact hf x hx d hd

end

section

variable [DecidableEq α] {w : α → α → Option ℕ} {es : List (α × α)} {level level' : α → ℕ} {fuel : ℕ}

lemma settle_feasible (h : settle w es fuel level = some level') : Feasible w es level' := by
  induction fuel generalizing level with
  | zero => cases h
  | succ fuel ih =>
    rw [settle] at h
    cases hp : (pass w es level).2 with
    | true =>
      rw [hp, if_pos rfl] at h
      exact ih h
    | false =>
      rw [hp, if_neg Bool.false_ne_true] at h
      obtain ⟨hf, hsame⟩ := feasible_of_pass hp
      rw [← some.inj h, hsame]
      exact hf

lemma settle_least {bound : α → ℕ} (hf : Feasible w es bound) (hb : ∀ a, level a ≤ bound a)
    (h : settle w es fuel level = some level') (a : α) : level' a ≤ bound a := by
  induction fuel generalizing level with
  | zero => cases h
  | succ fuel ih =>
    have hle := foldl_relax_le hf (level, false) hb
    rw [settle] at h
    split at h
    · exact ih hle h
    · rw [← some.inj h]
      exact hle a

lemma Reached.pass {n : ℕ} (h : Reached w es n level) : Reached w es (n + 1) (pass w es level).1 where
  walk := foldl_relax_walk (level, false) es (fun _ he => he) h.walk
  above a l s k hw hl := by
    cases hw with
    | nil => exact Nat.zero_le _
    | cons hp hd hrest =>
      have hle := h.above _ _ _ _ hrest (Nat.le_of_succ_le_succ hl)
      have hedge := foldl_relax_edge (level, false) hp hd
      rw [Nat.add_comm]
      exact (Nat.add_le_add_right hle _).trans hedge

lemma settle_isSome {U : List α} (hU : ∀ p ∈ es, p.1 ∈ U) (hz : ∀ a l s, Walk w es a l s a → s = 0) :
    (settle w es (U.length + 1) fun _ => 0).isSome := by
  have hrun : ∀ fuel n level, Reached w es n level → n + fuel = U.length →
      (settle w es (fuel + 1) level).isSome := by
    intro fuel
    induction fuel with
    | zero =>
      intro n level hr hn
      have hf : Feasible w es level := Reached.feasible hU hz (hn ▸ hr)
      rw [settle, Relaxation.pass, foldl_relax_of_feasible hf]
      rfl
    | succ fuel ih =>
      intro n level hr hn
      rw [settle]
      split
      · exact ih (n + 1) _ hr.pass (by omega)
      · rfl
  exact hrun U.length 0 _ reached_zero (Nat.zero_add _)

end

section

variable {w : α → α → Option ℕ} {es : List (α × α)} {i j k : α} {l : List α} {s : ℕ}

def Edge (w : α → α → Option ℕ) (es : List (α × α)) (i j : α) : Prop := (i, j) ∈ es ∧ (w i j).isSome

lemma Feasible.walk {level : α → ℕ} (hf : Feasible w es level) (h : Walk w es i l s k) :
    level k + s ≤ level i := by
  induction h with
  | nil => exact le_rfl
  | cons hp hd _ ih =>
    have := hf _ hp _ hd
    simp only at this
    omega

lemma Walk.reaches (h : Walk w es i l s k) : Relation.ReflTransGen (Edge w es) i k := by
  induction h with
  | nil => exact .refl
  | cons hp hd _ ih => exact .head ⟨hp, by rw [hd]; rfl⟩ ih

lemma walk_of_reaches (h : Relation.ReflTransGen (Edge w es) i k) : ∃ l s, Walk w es i l s k := by
  induction h using Relation.ReflTransGen.head_induction_on with
  | refl => exact ⟨[], 0, .nil k⟩
  | head he _ ih =>
    obtain ⟨d, hd⟩ := isSome_iff_exists.mp he.2
    obtain ⟨l, s, hw⟩ := ih
    exact ⟨_, _, .cons he.1 hd hw⟩

lemma Walk.exists_weight (h : Walk w es i l s k) (hs : s ≠ 0) : ∃ a b d, (a, b) ∈ es ∧ w a b = some (d + 1) ∧
    Relation.ReflTransGen (Edge w es) i a ∧ Relation.ReflTransGen (Edge w es) b k := by
  induction h with
  | nil => exact absurd rfl hs
  | @cons i j e l d s hp hd hw ih =>
    cases d with
    | succ d => exact ⟨i, j, d, hp, hd, .refl, hw.reaches⟩
    | zero =>
      obtain ⟨a, b, d, hab, hd', ha, hb⟩ := ih fun h0 => hs (by rw [h0])
      exact ⟨a, b, d, hab, hd', .head ⟨hp, by rw [hd]; rfl⟩ ha, hb⟩

def Weightless (w : α → α → Option ℕ) (es : List (α × α)) : Prop :=
  ∀ a b d, (a, b) ∈ es → w a b = some (d + 1) → ¬ Relation.ReflTransGen (Edge w es) b a

lemma Weightless.cycle (h : Weightless w es) (hw : Walk w es i l s i) : s = 0 := by
  by_contra hs
  obtain ⟨a, b, d, hab, hd, ha, hb⟩ := hw.exists_weight hs
  exact h a b d hab hd (hb.trans ha)

lemma Feasible.weightless {level : α → ℕ} (hf : Feasible w es level) : Weightless w es := by
  intro a b d hab hd hba
  obtain ⟨l, s, hw⟩ := walk_of_reaches hba
  have := hf.walk (Walk.cons hab hd hw)
  omega

end

end Rayforce.Library.Relaxation
