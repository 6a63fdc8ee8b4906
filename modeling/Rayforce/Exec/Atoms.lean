import Rayforce.Exec.Graph

/-! Atoms as numbers. -/

namespace Rayforce.Exec

open Library.Binary64 Option

variable {x : Int64} {op : UnOp} {a : Atom}

def Atom.double (a : Atom) : Double := a.ty.toDouble a.cell

def Atom.int : Atom → Int64
  | .f64 v => (castI64 v).getD Int64.minValue
  | a => a.ty.toInt64 a.cell

def UnOp.keepsType (op : UnOp) : Prop := op = .neg ∨ op = .abs ∨ op = .ceil ∨ op = .floor

lemma double_integral (h : a.ty ≠ .f64) : ∃ z : ℤ, a.double = .fin z ∧ (0 < a.int.toInt → a.int.toInt ≤ 2 * z) ∧
      (a.int.toInt < 0 → 2 * z ≤ a.int.toInt) ∧ (a.int.toInt = 0 → z = 0) := by
  have hlo := a.int.le_toInt
  have hhi := a.int.toInt_lt
  obtain ⟨z, hz⟩ := Double.exists_ofInt_eq (n := a.int.toInt) (by rw [abs_le]; omega)
  refine ⟨z, ?_, hz.2⟩
  rw [← hz.1]
  cases a <;> first | rfl | exact absurd rfl h

lemma isSentinel_i64 : ElemType.isSentinel .i64 x = false ↔ x ≠ Int64.minValue := by
  change decide ((some Int64.minValue : Option Int64) = some x) = false ↔ _
  simp [eq_comm]

lemma isZero_eq {t : ElemType} (c : t.Cell) : isZero t c = (t.toDouble c).eq Double.zero := by
  by_cases ht : t = .f64
  · subst ht
    rfl
  · have hlo := (t.toInt64 c).le_toInt
    have hhi := (t.toInt64 c).toInt_lt
    obtain ⟨z, hz, hpos, hneg, hzero⟩ := Double.exists_ofInt_eq (n := (t.toInt64 c).toInt) (by rw [abs_le]; omega)
    have hd : t.toDouble c = .fin z := by
      rw [← hz]
      cases t <;> first | rfl | exact absurd rfl ht
    have hi : isZero t c = decide (t.toInt64 c = 0) := by
      cases t <;> first | rfl | exact absurd rfl ht
    rw [hi, hd, Double.zero, Double.eq_fin, decide_eq_decide, ← Int64.toInt_inj, Int64.toInt_zero,
      Rat.intCast_eq_zero_iff]
    constructor
    · exact hzero
    · intro h0
      rcases lt_trichotomy (t.toInt64 c).toInt 0 with h | h | h
      · have := hneg h
        omega
      · exact h
      · have := hpos h
        omega

lemma castI64_eq_some {d : Double} :
    castI64 d = some x ↔ ∃ z : ℤ, d.trunc = some z ∧ -2 ^ 63 ≤ z ∧ z ≤ 2 ^ 63 - 1 ∧ Int64.ofInt z = x := by
  simp [castI64, castInt, filter_eq_some_iff, and_assoc]

lemma unaryI64_ne_min (hop : UnOp.keepsType op) {v : Int64} (hv : v ≠ Int64.minValue) :
    unaryI64 op v ≠ Int64.minValue := by
  have hneg : -v ≠ Int64.minValue := by
    intro h
    have hv' : v = -Int64.minValue := by rw [← h, Int64.neg_neg]
    exact hv (hv'.trans (by decide))
  rcases hop with rfl | rfl | rfl | rfl
  · exact hneg
  · simp only [unaryI64]
    split
    · exact hneg
    · exact hv
  · exact hv
  · exact hv

lemma signumDouble_int (h : a.ty ≠ .f64) : signumDouble a.double = signumI64 a.int := by
  obtain ⟨z, hz, hpos, hneg, hzero⟩ := double_integral h
  have h0 : (0 : Int64).toInt = 0 := rfl
  simp only [signumDouble, signumI64, hz, Double.zero, Double.lt_fin, decide_eq_true_eq, Int64.lt_iff_toInt_lt, h0]
  have hp : (0 : ℚ) < z ↔ 0 < a.int.toInt := by
    rw [Int.cast_pos]
    omega
  have hn : (z : ℚ) < 0 ↔ a.int.toInt < 0 := by
    rw [Int.cast_lt_zero]
    omega
  simp [hp, hn]

lemma reciprocal_int (h : a.ty = .i64) :
    (if a.int ≠ 0 then rayF64Fin (Double.one.div a.double) else Double.nan) = reciprocal a.double := by
  have hz : isZero a.ty a.cell = decide (a.int = 0) := by
    cases a <;> first | rfl | cases h
  have htr : truthy a.double = !isZero a.ty a.cell := by
    rw [isZero_eq]
    rfl
  rw [reciprocal, htr, hz]
  by_cases h0 : a.int = 0 <;> simp [h0]

end Rayforce.Exec
