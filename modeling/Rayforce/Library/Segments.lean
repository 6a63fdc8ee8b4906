import Mathlib

/-! Arrays laid out segment by segment. -/

namespace Rayforce.Library.Segments

open List

variable {α : Type*}
variable {k : ℕ} {v w : ℕ → ℕ} {m : ℕ}

def sumTo (w : ℕ → ℕ) (k : ℕ) : ℕ := ((List.range k).map w).sum

def slice (a : List α) (b e : ℕ) : List α := (a.drop b).take (e - b)

def writeAt (a : List α) (off : ℕ) (xs : List α) : List α :=
  a.take off ++ xs ++ a.drop (off + xs.length)

def segCount (m n : ℕ) : ℕ := (n + m - 1) / m

def segEnd (m n s : ℕ) : ℕ := min (s * m + m) n

@[simp] lemma sumTo_zero (w : ℕ → ℕ) : sumTo w 0 = 0 := rfl

@[simp] lemma sumTo_succ (w : ℕ → ℕ) (k : ℕ) : sumTo w (k + 1) = sumTo w k + w k := by
  simp [sumTo, range_succ]

lemma sumTo_mono (w : ℕ → ℕ) {j k : ℕ} (h : j ≤ k) : sumTo w j ≤ sumTo w k := by
  induction h with
  | refl => exact le_refl _
  | step _ ih => rw [Nat.succ_eq_add_one, sumTo_succ]; omega

lemma sumTo_le_sumTo (h : ∀ s < k, v s ≤ w s) : sumTo v k ≤ sumTo w k := by
  induction k with
  | zero => exact le_refl _
  | succ k ih =>
    have hk := ih fun s hs => h s (by omega)
    have := h k (by omega)
    simp only [sumTo_succ]
    omega

lemma sumTo_congr (h : ∀ s < k, v s = w s) : sumTo v k = sumTo w k :=
  le_antisymm (sumTo_le_sumTo fun s hs => (h s hs).le) (sumTo_le_sumTo fun s hs => (h s hs).ge)

lemma eq_of_sumTo_eq (h : ∀ s < k, v s ≤ w s) (he : sumTo v k = sumTo w k) : ∀ s < k, v s = w s := by
  induction k with
  | zero => intro s hs; omega
  | succ k ih =>
    have hk := sumTo_le_sumTo fun s (hs : s < k) => h s (by omega)
    have hl := h k (by omega)
    simp only [sumTo_succ] at he
    intro s hs
    obtain rfl | hs := eq_or_lt_of_le (Nat.le_of_lt_succ hs)
    · omega
    · exact ih (fun s hs => h s (by omega)) (by omega) s hs

lemma length_flatMap_range (f : ℕ → List α) (k : ℕ) :
    ((List.range k).flatMap f).length = sumTo (fun s => (f s).length) k := by
  simp [sumTo, length_flatMap]

lemma set_append_drop (xs old : List α) (v : α) (h : xs.length < old.length) :
    (xs ++ old.drop xs.length).set xs.length v = (xs ++ [v]) ++ old.drop (xs.length + 1) := by
  rw [set_append_right _ _ (le_refl _), Nat.sub_self, ← getElem_cons_drop h, set_cons_zero]
  simp

lemma writeAt_append_drop (xs old ys : List α) :
    writeAt (xs ++ old.drop xs.length) xs.length ys = (xs ++ ys) ++ old.drop (xs.length + ys.length) := by
  simp [writeAt, drop_append, drop_drop]

lemma foldl_writeAt (f : ℕ → List α) (a : List α) (k : ℕ) :
    (List.range k).foldl (fun b s => writeAt b (sumTo (fun s => (f s).length) s) (f s)) a
      = (List.range k).flatMap f ++ a.drop (sumTo (fun s => (f s).length) k) := by
  induction k with
  | zero => simp
  | succ k ih =>
    rw [range_succ, foldl_append, ih, foldl_cons, foldl_nil, ← length_flatMap_range,
      writeAt_append_drop, sumTo_succ, length_flatMap_range]
    simp [flatMap_append]

lemma slice_flatMap (f : ℕ → List α) {s k : ℕ} (h : s < k) :
    slice ((List.range k).flatMap f) (sumTo (fun s => (f s).length) s)
    (sumTo (fun s => (f s).length) (s + 1)) = f s := by
  obtain ⟨d, rfl⟩ := Nat.exists_eq_add_of_lt h
  have hcut : (List.range (s + d + 1)).flatMap f
      = (List.range s).flatMap f ++ (f s ++ ((List.range d).map fun i => s + (i + 1)).flatMap f) := by
    have hr : List.range (s + d + 1) = List.range s ++ (s :: (List.range d).map fun i => s + (i + 1)) := by
      rw [Nat.add_assoc, range_add, range_succ_eq_map, map_cons, List.map_map]
      rfl
    rw [hr, flatMap_append, flatMap_cons]
  have hl := length_flatMap_range f s
  rw [slice, hcut, ← hl, drop_left, sumTo_succ, ← hl, Nat.add_sub_cancel_left, take_left]

lemma flatMap_segments_to (m n k : ℕ) :
    (List.range k).flatMap (fun s => List.range' (s * m) (segEnd m n s - s * m)) = List.range (min (k * m) n) := by
  induction k with
  | zero => simp
  | succ k ih =>
    rw [range_succ, flatMap_append, ih, flatMap_singleton, segEnd, Nat.succ_mul]
    obtain hle | hlt := Nat.le_total n (k * m)
    · rw [min_eq_right hle, min_eq_right (by omega : n ≤ k * m + m), Nat.sub_eq_zero_of_le hle]
      simp
    · rw [min_eq_left hlt, range_eq_range', range_eq_range']
      have hs : min (k * m + m) n = k * m + (min (k * m + m) n - k * m) := by omega
      conv_rhs => rw [hs]
      rw [← range'_append_1, Nat.zero_add]

lemma le_segCount_mul (n : ℕ) (hm : 0 < m) : n ≤ segCount m n * m := by
  have h := Nat.div_add_mod (n + m - 1) m
  have hl := Nat.mod_lt (n + m - 1) hm
  rw [segCount, Nat.mul_comm]
  omega

lemma flatMap_segments (n : ℕ) (hm : 0 < m) :
    (List.range (segCount m n)).flatMap (fun s => List.range' (s * m) (segEnd m n s - s * m)) = List.range n := by
  rw [flatMap_segments_to, min_eq_right (le_segCount_mul n hm)]

lemma sumTo_segments (n : ℕ) (hm : 0 < m) : sumTo (fun s => segEnd m n s - s * m) (segCount m n) = n := by
  have h := congrArg length (flatMap_segments n hm)
  rw [length_flatMap_range] at h
  simpa using h

def keyed (Q : List (ℕ × List α)) (s : ℕ) : List α := (Q.filter fun q => q.1 = s).flatMap Prod.snd

lemma keyed_append (P Q : List (ℕ × List α)) (s : ℕ) : keyed (P ++ Q) s = keyed P s ++ keyed Q s := by
  simp [keyed]

lemma keyed_singleton (q : ℕ × List α) (s : ℕ) : keyed [q] s = if q.1 = s then q.2 else [] := by
  by_cases h : q.1 = s <;> simp [keyed, h]

lemma keyed_eq_nil {Q : List (ℕ × List α)} {s : ℕ} (h : ∀ q ∈ Q, q.1 ≠ s) : keyed Q s = [] := by
  rw [keyed, filter_eq_nil_iff.mpr (by simpa using h), flatMap_nil]

lemma filter_lt_succ {Q : List (ℕ × List α)} (h : Q.Pairwise fun p q => p.1 ≤ q.1) (k : ℕ) :
    Q.filter (·.1 < k + 1) = Q.filter (·.1 < k) ++ Q.filter (·.1 = k) := by
  induction Q with
  | nil => rfl
  | cons q Q ih =>
    have hq : ∀ p ∈ Q, q.1 ≤ p.1 := fun p hp => rel_of_pairwise_cons h hp
    rw [filter_cons, filter_cons, filter_cons, ih h.of_cons]
    rcases Nat.lt_trichotomy q.1 k with hlt | heq | hgt
    · simp [hlt, hlt.ne, hlt.le]
    · have hnone : Q.filter (·.1 < k) = [] := by
        apply filter_eq_nil_iff.mpr
        intro p hp
        have := hq p hp
        simp only [decide_eq_true_eq]
        omega
      simp [heq, hnone]
    · simp [hgt.ne', hgt.not_gt, hgt.not_ge]

lemma flatMap_keyed {Q : List (ℕ × List α)} (h : Q.Pairwise fun p q => p.1 ≤ q.1) (hk : ∀ q ∈ Q, q.1 < k) :
    (List.range k).flatMap (keyed Q) = Q.flatMap Prod.snd := by
  have hall : ∀ k, (range k).flatMap (keyed Q) = (Q.filter (·.1 < k)).flatMap Prod.snd := by
    intro k
    induction k with
    | zero => simp
    | succ k ih =>
      rw [range_succ, flatMap_append, ih, filter_lt_succ h, flatMap_append, flatMap_singleton]
      rfl
  rw [hall, filter_eq_self.mpr (by simpa using hk)]

def appendPart (offs : ℕ → ℕ) (st : List α × List ℕ) (q : ℕ × List α) : List α × List ℕ :=
  (writeAt st.1 (offs q.1 + st.2.getD q.1 0) q.2, st.2.modify q.1 (· + q.2.length))

lemma getD_modify_add (l : List ℕ) (i d j : ℕ) (h : j < l.length) :
    (l.modify i (· + d)).getD j 0 = l.getD j 0 + if i = j then d else 0 := by
  by_cases hij : i = j
  · subst hij
    simp [h]
  · simp [getD_eq_getElem?_getD, getElem?_modify_ne _ _ hij, hij]

lemma foldl_appendPart {offs : ℕ → ℕ} {Q : List (ℕ × List α)} (h : Q.Pairwise fun p q => p.1 ≤ q.1)
    (hk : ∀ q ∈ Q, q.1 < k) (hoffs : ∀ s < k, offs s = sumTo (fun s => (keyed Q s).length) s) (old : List α) :
    (Q.foldl (appendPart offs) (old, List.replicate k 0)).1 =
      Q.flatMap Prod.snd ++ old.drop (Q.flatMap Prod.snd).length := by
  have hrun : ∀ suf pre st, Q = pre ++ suf →
      st.1 = pre.flatMap Prod.snd ++ old.drop (pre.flatMap Prod.snd).length → st.2.length = k →
      (∀ s < k, st.2.getD s 0 = (keyed pre s).length) →
      (suf.foldl (appendPart offs) st).1 = Q.flatMap Prod.snd ++ old.drop (Q.flatMap Prod.snd).length := by
    intro suf
    induction suf with
    | nil =>
      intro pre st hQ h1 _ _
      rw [append_nil] at hQ
      rw [hQ]
      exact h1
    | cons q suf ih =>
      intro pre st hQ h1 h2 h3
      have hqk : q.1 < k := hk q (by simp [hQ])
      rw [hQ, pairwise_append, pairwise_cons] at h
      obtain ⟨hpre, ⟨hsuf, -⟩, hcross⟩ := h
      have hle : ∀ p ∈ pre, p.1 < q.1 + 1 := fun p hp => Nat.lt_succ_of_le (hcross p hp q mem_cons_self)
      have hsame : ∀ s < q.1, keyed Q s = keyed pre s := by
        intro s hs
        rw [hQ, keyed_append, keyed_eq_nil (Q := q :: suf), append_nil]
        intro p hp
        rcases mem_cons.mp hp with rfl | hp
        · omega
        · have := hsuf p hp
          omega
      have hpos : offs q.1 + st.2.getD q.1 0 = (pre.flatMap Prod.snd).length := by
        rw [hoffs q.1 hqk, h3 q.1 hqk, ← flatMap_keyed hpre hle, length_flatMap_range, sumTo_succ]
        congr 1
        exact sumTo_congr fun s hs => by rw [hsame s hs]
      rw [foldl_cons]
      refine ih (pre ++ [q]) _ (by rw [hQ]; simp) ?_ (by simpa [appendPart] using h2) fun s hs => ?_
      · simp only [appendPart, hpos, h1]
        rw [writeAt_append_drop]
        simp
      · rw [appendPart, getD_modify_add _ _ _ _ (by omega), h3 s hs, keyed_append, keyed_singleton, length_append]
        split_ifs <;> rfl
  exact hrun Q [] _ rfl (by simp) (by simp) fun s hs => by simp [keyed, hs]

section

variable [LinearOrder α]

def common : List α → List α → List α
  | [], _ => []
  | _ :: _, [] => []
  | a :: as, b :: bs =>
    if a < b then common as (b :: bs)
    else if b < a then common (a :: as) bs
    else a :: common as bs
  termination_by as bs => as.length + bs.length

lemma common_eq_filter (as bs : List α) (ha : as.Pairwise (· < ·)) (hb : bs.Pairwise (· < ·)) :
    common as bs = as.filter (· ∈ bs) := by
  induction as, bs using common.induct with
  | case1 bs => simp [common]
  | case2 a as => simp [common]
  | case3 a as b bs hlt ih =>
    have hout : a ∉ b :: bs := by
      intro hmem
      rcases mem_cons.mp hmem with rfl | hmem
      · exact lt_irrefl _ hlt
      · exact lt_asymm hlt (rel_of_pairwise_cons hb hmem)
    rw [common, if_pos hlt, ih ha.of_cons hb, filter_cons_of_neg (by simpa using hout)]
  | case4 a as b bs hnlt hlt ih =>
    rw [common, if_neg hnlt, if_pos hlt, ih ha hb.of_cons]
    apply filter_congr
    intro x hx
    have hbx : b < x := by
      rcases mem_cons.mp hx with rfl | hx
      · exact hlt
      · exact lt_trans hlt (rel_of_pairwise_cons ha hx)
    simp [hbx.ne']
  | case5 a as b bs hnlt hngt ih =>
    have hab : a = b := le_antisymm (not_lt.mp hngt) (not_lt.mp hnlt)
    subst hab
    rw [common, if_neg hnlt, if_neg hngt, ih ha.of_cons hb.of_cons, filter_cons_of_pos (by simp)]
    congr 1
    apply filter_congr
    intro x hx
    have hax : a < x := rel_of_pairwise_cons ha hx
    simp [hax.ne']

end

end Rayforce.Library.Segments
