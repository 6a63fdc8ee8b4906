import Mathlib
import Rayforce.Idiom.Agreement

namespace Rayforce.Idiom

open ElemType List Option

variable (rt : Runtime)
variable {l : List Bytes} {t : ElemType}

def MinAgrees (v : Vec) (out : ℕ) : Prop :=
  match v.cells with
  | .ints l =>
    (out = 0 ∨ out = v.ty.code ∨ v.ty = i64 ∧ ∃ z ∈ l, (v.hasNulls && v.ty.isNullInt z) = false) ∧
      (v.Hides → rt.radixDecodes v = true ∨ ∀ z ∈ l, v.ty.isNullInt z = true)
  | .floats l =>
    (out = 0 ∨ out = v.ty.code) ∧ (v.ty = f32 → ∀ x ∈ l, v.hasNulls = true ∧ x = ⊥) ∧
      (v.Hides → rt.radixDecodes v = false ∧ ∃ x : ℚ, (x : WithBot ℚ) ∈ l)
  | .names l =>
    (v.ty.isWide = true ∨ out = 0 ∨ out = v.ty.code) ∧ (v.Hides → ∀ b ∈ l, v.ty.isNullName b = true)

def MaxAgrees (v : Vec) (out : ℕ) : Prop :=
  match v.cells with
  | .ints l => out = 0 ∨ out = v.ty.code ∨ v.ty = i64 ∧ ∃ z ∈ l, (v.hasNulls && v.ty.isNullInt z) = false
  | .floats l =>
    (out = 0 ∨ out = v.ty.code) ∧ (v.ty = f32 → ∀ x ∈ l, v.hasNulls = true ∧ x = ⊥) ∧
      (v.Hides → ∃ x : ℚ, (x : WithBot ℚ) ∈ l)
  | .names _ => v.ty.isWide = true ∨ out = 0 ∨ out = v.ty.code

def nanCount : Cells → ℕ
  | .floats l => l.count ⊥
  | _ => 0

def DistinctAgrees : Value → Prop
  | .err _ _ => True
  | .vec v => v.cells.length = 0 ∨ v.ty = str ∨ v.ty = guid ∨
      v.ty ≠ f32 ∧ (nanCount v.cells ≤ 1 ∨ (v.hasNulls && v.anyNulls) = true)
  | _ => False

def CountAgrees : Value → Prop
  | .err _ _ | .vec _ => True
  | _ => False

variable {rt} {v : Vec} {out : ℕ}

lemma anySentinel_asc (t : ElemType) (c : Cells) : c.asc.anySentinel t = c.anySentinel t := by
  cases c <;> exact (perm_insertionSort _ _).any_eq

lemma first_asc (o : ℕ) : execReduction rt none .first o (execVecOp rt .asc (.vec v)) =
    firstRow v.ty (sortNulls rt v v.cells.asc) v.cells.asc := by
  simp [execReduction, execVecOp, walked, ascVecEager, Vec.anyNulls]

lemma last_asc (o : ℕ) : execReduction rt none .last o (execVecOp rt .asc (.vec v)) =
    firstRow v.ty (sortNulls rt v v.cells.asc) v.cells.asc.reverse := by
  simp [execReduction, execVecOp, walked, ascVecEager, Vec.anyNulls]

lemma min_vec : execReduction rt none .min out (.vec v) =
    if v.ty.isWide then aggWideReduce v.ty (v.hasNulls && v.anyNulls) (fun b w => b < w) v.cells
    else minRow rt v.ty v.hasNulls out v.cells := rfl

lemma max_vec : execReduction rt none .max out (.vec v) =
    if v.ty.isWide then aggWideReduce v.ty (v.hasNulls && v.anyNulls) (fun b w => w < b) v.cells
    else maxRow rt v.ty v.hasNulls out v.cells := rfl

namespace Vec.WellFormed

variable (h : v.WellFormed)

include h

lemma anyNulls_of_hasNulls (hn : v.hasNulls = true) : v.anyNulls = true := by
  cases hp : v.parent with
  | none => simp [Vec.anyNulls, hp, hn]
  | some b =>
    rw [h.slice (by simp [hp])] at hn
    exact absurd hn (by simp)

lemma sortNulls_of_hasNulls (hn : v.hasNulls = true) : sortNulls rt v v.cells.asc = v.cells.anySentinel v.ty := by
  simp [sortNulls, gatherNulls, anySentinel_asc, hn, h.anyNulls_of_hasNulls hn]

lemma sortNulls_of_hides (hh : v.Hides) : sortNulls rt v v.cells.asc = !rt.radixDecodes v := by
  have hn : v.hasNulls = false := h.slice (by simp [hh.1])
  cases hd : rt.radixDecodes v <;> simp [sortNulls, gatherNulls, anySentinel_asc, hn, hd, hh.1, hh.2, Vec.anyNulls]

lemma hasNulls_of_hides (hh : v.Hides) : v.hasNulls = false := h.slice (by simp [hh.1])

lemma hides_iff (hn : v.hasNulls = false) : v.Hides ↔ v.cells.anySentinel v.ty = true := by
  refine ⟨fun hh => hh.2, fun hs => ⟨?_, hs⟩⟩
  have hany : v.anyNulls ≠ false := fun hf => by
    rw [h.flagged hf] at hs
    exact absurd hs (by simp)
  cases hp : v.parent with
  | none => simp [Vec.anyNulls, hp, hn] at hany
  | some b => simpa [Vec.anyNulls, hp] using hany

lemma seesAlike {l : List ℤ} (hc : v.cells = .ints l) (hh : ¬ (v.Hides ∧ rt.radixDecodes v = false)) :
    SeesAlike (sortNulls rt v v.cells.asc) v.hasNulls v.ty l := by
  intro z hzl
  cases hs : v.ty.isNullInt z with
  | false => simp
  | true =>
    have hsent : v.cells.anySentinel v.ty = true := by
      rw [hc]
      exact any_eq_true.mpr ⟨z, hzl, hs⟩
    cases hn : v.hasNulls with
    | true => rw [h.sortNulls_of_hasNulls hn, hsent]
    | false =>
      have hh' := (h.hides_iff hn).mpr hsent
      have hd : rt.radixDecodes v = true := by simpa [hh'] using hh
      rw [h.sortNulls_of_hides hh', hd]
      rfl

lemma float_hides_iff {l : List (WithBot ℚ)} (hc : v.cells = .floats l) :
    v.hasNulls = false ∧ ⊥ ∈ l ↔ v.Hides := by
  constructor
  · rintro ⟨hn, hb⟩
    rw [h.hides_iff hn, hc]
    exact any_eq_true.mpr ⟨⊥, hb, by simp⟩
  · intro hh
    refine ⟨h.hasNulls_of_hides hh, ?_⟩
    have := hh.2
    rw [hc] at this
    simpa [Cells.anySentinel] using this

lemma sortNulls_of_float {l : List (WithBot ℚ)} (hc : v.cells = .floats l) (hn : v.hasNulls = true) (hb : ⊥ ∈ l) :
    sortNulls rt v v.cells.asc = true := by
  rw [h.sortNulls_of_hasNulls hn, hc]
  exact any_eq_true.mpr ⟨⊥, hb, by simp⟩

lemma sortNulls_of_names (hc : v.cells = .names l) (hn : (v.hasNulls && v.anyNulls) = true)
    (hb : ∃ b ∈ l, v.ty.isNullName b = true) : sortNulls rt v v.cells.asc = true := by
  rw [h.sortNulls_of_hasNulls (Bool.and_eq_true_iff.mp hn).1, hc]
  exact any_eq_true.mpr hb

lemma names_hides_iff (hc : v.cells = .names l) :
    (v.hasNulls && v.anyNulls) = false ∧ (∃ b ∈ l, v.ty.isNullName b = true) ↔ v.Hides := by
  have hs : v.cells.anySentinel v.ty = true ↔ ∃ b ∈ l, v.ty.isNullName b = true := by
    rw [hc]
    exact any_eq_true
  rw [← hs]
  constructor
  · rintro ⟨hn, hb⟩
    refine (h.hides_iff ?_).mpr hb
    by_contra hn'
    have hn' : v.hasNulls = true := by simpa using hn'
    rw [hn', h.anyNulls_of_hasNulls hn'] at hn
    exact absurd hn (by simp)
  · exact fun hh => ⟨by rw [h.hasNulls_of_hides hh]; rfl, hh.2⟩

lemma unflagged_sym (ht : v.ty = sym) : v.hasNulls = false := by
  by_contra hn
  exact h.nullable (by simpa using hn) (by simp [ht])

end Vec.WellFormed

lemma not_isWide_of_ints (ht : t ∈ [bool, u8, i16, i32, i64, date, time, timestamp]) : ¬ t.isWide = true := by
  cases t <;> simp_all [isWide]

lemma not_isWide_of_floats (ht : t ∈ [f32, f64]) : ¬ t.isWide = true := by
  cases t <;> simp_all [isWide]

lemma not_hides_sym (ht : v.ty = sym) (hc : v.cells = .names l) : ¬ v.Hides := by
  rintro ⟨-, hs⟩
  rw [hc, ht] at hs
  simp [Cells.anySentinel, isNullName] at hs

theorem first_asc_eq_min_iff (h : v.WellFormed) (hout : Typed v.ty out) (o : ℕ) :
    execReduction rt none .first o (execVecOp rt .asc (.vec v)) = execReduction rt none .min out (.vec v) ↔
      MinAgrees rt v out := by
  rw [first_asc, min_vec]
  have hfit := h.fits
  generalize hF : sortNulls rt v v.cells.asc = F
  have hide (hh : v.Hides) : F = !rt.radixDecodes v := hF ▸ h.sortNulls_of_hides hh
  cases hc : v.cells with
  | ints l =>
    rw [hc] at hfit
    obtain ⟨ht, hz⟩ := hfit
    rw [if_neg (not_isWide_of_ints ht), Cells.asc]
    simp only [MinAgrees, hc]
    by_cases hh : v.Hides ∧ rt.radixDecodes v = false
    · have hnull : ∃ s ∈ l, v.ty.isNullInt s = true := by
        have := hh.1.2
        rw [hc] at this
        exact any_eq_true.mp this
      rw [hide hh.1, hh.2, h.hasNulls_of_hides hh.1, Bool.not_false, first_min_ints_hidden ht hout hz hnull]
      obtain ⟨s, hsl, hs⟩ := hnull
      have hex : ∃ z ∈ l, (false && v.ty.isNullInt z) = false := ⟨s, hsl, rfl⟩
      simp only [hex, and_true, hh.1, true_implies, Bool.false_eq_true, false_or]
    · rw [first_min_ints_alike ht hout hz (hF ▸ h.seesAlike hc hh)]
      refine (and_iff_left fun hh' => Or.inl ?_).symm
      simpa [hh'] using hh
  | floats l =>
    rw [hc] at hfit
    obtain ⟨ht, hfin⟩ := hfit
    rw [if_neg (not_isWide_of_floats ht), Cells.asc]
    simp only [MinAgrees, hc]
    rw [first_min_floats ht hout hfin (hF ▸ h.sortNulls_of_float hc)]
    refine and_congr_right fun _ => and_congr_right fun _ => ?_
    rw [← and_imp, h.float_hides_iff hc]
    refine forall_congr' fun hh => and_congr_left fun _ => ?_
    rw [hide hh, Bool.not_eq_true']
  | names l =>
    rw [hc] at hfit
    obtain ⟨ht, hlen⟩ := hfit
    simp only [MinAgrees, hc]
    by_cases hsym : v.ty = sym
    · have hw : ¬ v.ty.isWide = true := by simp [hsym, isWide]
      have hh (b : Bytes) : v.Hides → b ∈ l → sym.isNullName b = true :=
        fun hh => absurd hh (not_hides_sym hsym hc)
      rw [if_neg hw, h.unflagged_sym hsym, hsym, Cells.asc, first_min_sym (hsym ▸ hout)]
      simp only [show sym.isWide = false from rfl, Bool.false_eq_true, false_or]
      exact (and_iff_left fun hh' b hb => hh b hh' hb).symm
    · have hw : v.ty.isWide = true := by simp_all [isWide]
      have hd : rt.radixDecodes v = false := rt.unkeyed v (by simp_all)
      rw [if_pos hw, Cells.asc, first_min_wide hlen (hF ▸ h.sortNulls_of_names hc)]
      simp only [hw, true_or, true_and]
      constructor
      · intro hall hh
        obtain ⟨hg, hex⟩ := (h.names_hides_iff hc).mpr hh
        exact hall hg (by rw [hide hh, hd]; rfl) hex
      · exact fun hall hg _ hex => hall ((h.names_hides_iff hc).mp ⟨hg, hex⟩)

theorem last_asc_eq_max_iff (h : v.WellFormed) (hout : Typed v.ty out) (o : ℕ) :
    execReduction rt none .last o (execVecOp rt .asc (.vec v)) = execReduction rt none .max out (.vec v) ↔
      MaxAgrees v out := by
  rw [last_asc, max_vec]
  have hfit := h.fits
  generalize hF : sortNulls rt v v.cells.asc = F
  have hide (hh : v.Hides) : F = !rt.radixDecodes v := hF ▸ h.sortNulls_of_hides hh
  cases hc : v.cells with
  | ints l =>
    rw [hc] at hfit
    obtain ⟨ht, hz⟩ := hfit
    rw [if_neg (not_isWide_of_ints ht), Cells.asc, Cells.reverse]
    simp only [MaxAgrees, hc]
    by_cases hh : v.Hides ∧ rt.radixDecodes v = false
    · have hnull : ∃ s ∈ l, v.ty.isNullInt s = true := by
        have := hh.1.2
        rw [hc] at this
        exact any_eq_true.mp this
      rw [hide hh.1, hh.2, h.hasNulls_of_hides hh.1, Bool.not_false, last_max_ints_hidden ht hout hz hnull]
      obtain ⟨s, hsl, hs⟩ := hnull
      have hex : ∃ z ∈ l, (false && v.ty.isNullInt z) = false := ⟨s, hsl, rfl⟩
      simp only [hex, and_true]
    · rw [last_max_ints_alike ht hout hz (hF ▸ h.seesAlike hc hh)]
  | floats l =>
    rw [hc] at hfit
    obtain ⟨ht, hfin⟩ := hfit
    rw [if_neg (not_isWide_of_floats ht), Cells.asc, Cells.reverse]
    simp only [MaxAgrees, hc]
    rw [last_max_floats ht hout hfin (hF ▸ h.sortNulls_of_float hc)]
    refine and_congr_right fun _ => and_congr_right fun _ => ?_
    rw [← and_imp, h.float_hides_iff hc]
  | names l =>
    rw [hc] at hfit
    obtain ⟨ht, hlen⟩ := hfit
    simp only [MaxAgrees, hc]
    by_cases hsym : v.ty = sym
    · have hw : ¬ v.ty.isWide = true := by simp [hsym, isWide]
      rw [if_neg hw, h.unflagged_sym hsym, hsym, Cells.asc, Cells.reverse, last_max_sym (hsym ▸ hout)]
      simp only [show sym.isWide = false from rfl, Bool.false_eq_true, false_or]
    · have hw : v.ty.isWide = true := by simp_all [isWide]
      rw [if_pos hw, Cells.asc, Cells.reverse, last_max_wide hlen (hF ▸ h.sortNulls_of_names hc)]
      simp [hw]

theorem count_passthrough_iff (w : Value) (op : VecOp) (hop : op ≠ .distinct) (o o' : ℕ) :
    execReduction rt none .count o (execVecOp rt op w) = execReduction rt none .count o' w ↔ CountAgrees w := by
  cases w with
  | err c m => simp [execVecOp, execReduction, CountAgrees]
  | vec v =>
    have hlen : (reverseVecEager v).cells.length = v.cells.length := by
      rw [reverseVecEager]
      split_ifs <;> simp
    cases op <;> simp_all [execVecOp, execReduction, CountAgrees, walked, ascVecEager, descVecEager]
  | _ => simp [execVecOp, execReduction, CountAgrees, rayI64]

section

variable {α : Type}

lemma firsts_append_singleton (eq : α → α → Bool) (l : List α) (c : α) :
    firsts eq (l ++ [c]) = if (firsts eq l).any (eq · c) then firsts eq l else firsts eq l ++ [c] := by
  rw [firsts, foldl_append]
  rfl

variable [DecidableEq α]

lemma firsts_but (e : α) (l : List α) : (firsts (fun a b => a = b ∧ a ≠ e) l).filter (fun x => !decide (x = e)) =
        (firsts (fun a b => a = b) l).filter (fun x => !decide (x = e)) ∧
      (firsts (fun a b => a = b ∧ a ≠ e) l).count e = l.count e ∧
      (firsts (fun a b => a = b) l).count e = min 1 (l.count e) := by
  induction l using List.reverseRecOn with
  | nil => simp [firsts]
  | append_singleton l c ih =>
    obtain ⟨hf, hb, ha⟩ := ih
    rw [firsts_append_singleton, firsts_append_singleton]
    set B := firsts (fun a b => decide (a = b ∧ a ≠ e)) l
    set A := firsts (fun a b => decide (a = b)) l
    have hA : (A.any fun a => decide (a = c)) = true ↔ c ∈ A := by simp
    have hB : (B.any fun a => decide (a = c ∧ a ≠ e)) = true ↔ c ∈ B ∧ c ≠ e := by
      simp only [List.any_eq_true, decide_eq_true_eq]
      exact ⟨by rintro ⟨a, ha, rfl, hne⟩; exact ⟨ha, hne⟩, fun h => ⟨c, h.1, rfl, h.2⟩⟩
    simp only [hA, hB]
    by_cases hc : c = e
    · subst hc
      rw [if_neg (by simp)]
      split_ifs with hm
      · have h1 := count_pos_iff.mpr hm
        refine ⟨by simp [hf], by simp [hb], ?_⟩
        rw [count_append, count_singleton_self]
        omega
      · have h0 := count_eq_zero.mpr hm
        refine ⟨by simp [hf], by simp [hb], ?_⟩
        rw [count_append, count_append, count_singleton_self]
        omega
    · have hmem : c ∈ A ↔ c ∈ B := by
        have hA' : c ∈ A ↔ c ∈ A.filter (fun x => !decide (x = e)) := by simp [hc]
        have hB' : c ∈ B ↔ c ∈ B.filter (fun x => !decide (x = e)) := by simp [hc]
        rw [hA', hB', hf]
      by_cases hm : c ∈ A
      · rw [if_pos ⟨hmem.mp hm, hc⟩, if_pos hm]
        simp [hf, hb, ha, hc]
      · rw [if_neg fun h => hm (hmem.mpr h.1), if_neg hm]
        simp [hf, hb, ha, hc]

lemma length_eq_filter_add_count (e : α) (l : List α) :
    l.length = (l.filter (fun x => !decide (x = e))).length + l.count e := by
  have h := length_eq_countP_add_countP (· == e) (l := l)
  rw [h, count, ← countP_eq_length_filter, Nat.add_comm]
  congr 1
  exact countP_congr fun x _ => by simp

lemma length_firsts_but (e : α) (l : List α) :
    (firsts (fun a b => a = b ∧ a ≠ e) l).length = (firsts (fun a b => a = b) l).length ↔ l.count e ≤ 1 := by
  obtain ⟨hf, hb, ha⟩ := firsts_but e l
  rw [length_eq_filter_add_count e, length_eq_filter_add_count e (firsts (fun a b => a = b) l), hf, hb, ha]
  omega

end

lemma length_distinctRows (v : Vec) :
    (distinctRows v).length = keyCount v.cells ↔ nanCount v.cells ≤ 1 ∨ (v.hasNulls && v.anyNulls) = true := by
  cases hc : v.cells with
  | ints l => simp [distinctRows, hc, Cells.length, keyCount, nanCount]
  | names l => simp [distinctRows, hc, Cells.length, keyCount, nanCount]
  | floats l =>
    simp only [distinctRows, hc, Cells.length, keyCount, nanCount]
    cases hn : v.hasNulls && v.anyNulls with
    | true => simp
    | false =>
      simp only [Bool.false_eq_true, or_false]
      exact length_firsts_but ⊥ l

lemma distinct_error_ne (name : String) :
    "OP_DISTINCT expects a vector input" ≠ "count distinct: unsupported column type, got " ++ name := by
  intro h
  have h := congrArg (fun s => s.toList.head?) h
  have hc : "count distinct: unsupported column type, got ".toList.head? = some 'c' := by decide
  rw [String.toList_append, head?_append, hc, some_or] at h
  exact absurd h (by decide)

theorem count_distinct_iff (w : Value) (o : ℕ) :
    execReduction rt none .count o (execVecOp rt .distinct w) = execCountDistinct rt w ↔ DistinctAgrees w := by
  cases w with
  | err c m => simp [execVecOp, execReduction, execCountDistinct, DistinctAgrees]
  | vec v =>
    have hcount : execReduction rt none .count o (execVecOp rt .distinct (.vec v)) =
        rayI64 (distinctVecEager v).cells.length := by
      simp [execReduction, execVecOp, walked]
    rw [hcount]
    by_cases h0 : v.cells.length = 0
    · simp [distinctVecEager, execCountDistinct, DistinctAgrees, h0]
    · have hlen : (distinctVecEager v).cells.length = (distinctRows v).length := by
        simp only [distinctVecEager, if_neg h0]
        split_ifs <;> simp
      rw [hlen]
      have hiff := length_distinctRows v
      cases hty : v.ty <;>
        simp [execCountDistinct, DistinctAgrees, h0, hty, hlen, rayI64, notCounted, hiff]
  | _ =>
    simp only [execVecOp, execReduction, execCountDistinct, DistinctAgrees, iff_false]
    split_ifs <;> simp [rayI64, notCounted, VecOp.name, distinct_error_ne]

end Rayforce.Idiom
