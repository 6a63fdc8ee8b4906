import Mathlib

/-! Arrays with checked places, and rules for loops over them. -/

namespace Rayforce.Library.Loops

variable {α β σ : Type}

structure Arr (α : Type) where
  size : ℕ
  cell : ℕ → α

namespace Arr

def get? (a : Arr α) (i : ℤ) : Option α := if 0 ≤ i ∧ i < a.size then some (a.cell i.toNat) else none

def set? (a : Arr α) (i : ℤ) (x : α) : Option (Arr α) :=
  if 0 ≤ i ∧ i < a.size then some ⟨a.size, Function.update a.cell i.toNat x⟩ else none

def toList (a : Arr α) : List α := (List.range a.size).map a.cell

lemma get?_natCast {a : Arr α} {i : ℕ} (h : i < a.size) : a.get? i = some (a.cell i) := by
  rw [get?, if_pos ⟨Int.natCast_nonneg i, Int.ofNat_lt.mpr h⟩, Int.toNat_natCast]

lemma set?_natCast {a : Arr α} {i : ℕ} (h : i < a.size) (x : α) :
    a.set? i x = some ⟨a.size, Function.update a.cell i x⟩ := by
  rw [set?, if_pos ⟨Int.natCast_nonneg i, Int.ofNat_lt.mpr h⟩, Int.toNat_natCast]

lemma get?_eq_none {a : Arr α} {i : ℤ} (h : ¬(0 ≤ i ∧ i < a.size)) : a.get? i = none := if_neg h

end Arr

def put (cap : ℕ) (l : List α) (x : α) : Option (List α) := if l.length < cap then some (l ++ [x]) else none

lemma put_of_lt {cap : ℕ} {l : List α} (h : l.length < cap) (x : α) : put cap l x = some (l ++ [x]) := if_pos h

def whileLoop (cond : σ → Bool) (body : σ → Option σ) : ℕ → σ → Option σ
  | 0, _ => none
  | fuel + 1, s => if cond s then (body s).bind (whileLoop cond body fuel) else some s

section

variable {c : σ → Bool} {b : σ → Option σ} {s : σ}

lemma foldlM_inv {f : σ → β → Option σ} (I : List β → σ → Prop) {l : List β} (h₀ : I [] s)
    (hstep : ∀ pre x post, l = pre ++ x :: post → ∀ s, I pre s → ∃ s', f s x = some s' ∧ I (pre ++ [x]) s') :
    ∃ s', l.foldlM f s = some s' ∧ I l s' := by
  have hrun : ∀ post pre s, l = pre ++ post → I pre s → ∃ s', post.foldlM f s = some s' ∧ I l s' := by
    intro post
    induction post with
    | nil =>
      intro pre s hl hs
      rw [List.append_nil] at hl
      exact ⟨s, rfl, hl ▸ hs⟩
    | cons x post ih =>
      intro pre s hl hs
      obtain ⟨s₁, h₁, hs₁⟩ := hstep pre x post hl s hs
      obtain ⟨s₂, h₂, hs₂⟩ := ih (pre ++ [x]) s₁ (by rw [hl, List.append_assoc]; rfl) hs₁
      exact ⟨s₂, by rw [List.foldlM_cons, h₁]; exact h₂, hs₂⟩
  exact hrun l [] s rfl h₀

lemma whileLoop_inv (I : σ → Prop) (μ : σ → ℕ)
    (hstep : ∀ s, I s → c s = true → ∃ s', b s = some s' ∧ I s' ∧ μ s' < μ s) {k : ℕ} (hk : μ s < k) (h₀ : I s) :
    ∃ s', whileLoop c b k s = some s' ∧ I s' ∧ c s' = false := by
  induction k generalizing s with
  | zero => omega
  | succ k ih =>
    rw [whileLoop]
    by_cases hc : c s = true
    · obtain ⟨s₁, h₁, hs₁, hμ⟩ := hstep s h₀ hc
      obtain ⟨s₂, h₂, hs₂, hc₂⟩ := ih (s := s₁) (by omega) hs₁
      exact ⟨s₂, by rw [if_pos hc, h₁, Option.bind_some, h₂], hs₂, hc₂⟩
    · exact ⟨s, if_neg hc, h₀, eq_false_of_ne_true hc⟩

end

/-- Jobs that each work on a slot of their own leave one state behind, in whatever order they run. -/
lemma foldlM_slots {f : ℕ → α → Option α} {g fin : ℕ → α} {n : ℕ} {order : List ℕ}
    {w : List α → ℕ → Option (List α)}
    (hw : ∀ i < n, ∀ as, w as i = (as[i]?.bind (f i)).map (as.set i)) (horder : order.Perm (List.range n))
    (hrun : ∀ i < n, f i (g i) = some (fin i)) :
      order.foldlM w ((List.range n).map g) = some ((List.range n).map fin) := by
  obtain ⟨as, hfold, has⟩ := foldlM_inv (l := order) (f := w) (s := (List.range n).map g)
    (fun pre as => as = (List.range n).map fun i => if i ∈ pre then fin i else g i)
      (by simp) fun pre i post hl as has => by
      subst has
      have hi : i < n := List.mem_range.mp (horder.subset (by simp [hl]))
      have hpre : i ∉ pre := fun h =>
        (List.nodup_append.mp (hl ▸ horder.nodup_iff.mpr List.nodup_range)).2.2 i h i List.mem_cons_self rfl
      have hstep : w ((List.range n).map fun i => if i ∈ pre then fin i else g i) i =
          some (((List.range n).map fun i => if i ∈ pre then fin i else g i).set i (fin i)) := by
        rw [hw i hi, List.getElem?_map, List.getElem?_range hi, Option.map_some, Option.bind_some, if_neg hpre,
          hrun i hi]
        rfl
      refine ⟨_, hstep, List.ext_getElem (by simp) fun j _ _ => ?_⟩
      rw [List.getElem_set]
      by_cases hj : i = j <;> simp [hj, eq_comm]
  rw [hfold, has]
  exact congrArg some (List.map_congr_left fun i hi => if_pos (horder.mem_iff.mpr hi))

end Rayforce.Library.Loops
