import Rayforce.Exec.Graph

namespace Rayforce.Expr

open Rayforce.Exec Library.Binary64 List Option

inductive Folded
  | int (i : Int64)
  | f64 (f : Double)
  deriving DecidableEq

def Folded.toDouble : Folded → Double
  | int i => Double.ofInt i.toInt
  | f64 f => f

def atomToNumeric : Atom → Folded
  | .f64 v => .f64 v
  | a => .int (a.ty.toInt64 a.cell)

section

variable (m : Libm)

def foldUnary (op : UnOp) (out : ElemType) (a : Folded) : Option Folded :=
  match op, a with
  | .neg, .int v => some (if out = .f64 then .f64 (Double.ofInt v.toInt).neg else .int (-v))
  | .neg, .f64 v => some (.f64 v.neg)
  | .abs, .int v => some (if out = .f64 then .f64 (Double.ofInt v.toInt).abs else .int (if v < 0 then -v else v))
  | .abs, .f64 v => some (.f64 v.abs)
  | .sqrt, a | .log, a | .exp, a | .sin, a | .asin, a | .cos, a | .acos, a | .tan, a | .atan, a =>
    some (.f64 (rayF64Fin (m.apply op a.toDouble)))
  | .reciprocal, a => some (.f64 (rayF64Fin (if truthy a.toDouble then Double.one.div a.toDouble else .nan)))
  | .signum, a => some (.int (signumDouble a.toDouble))
  | _, _ => none

def foldF64 (op : ArithOp) (lv rv : Double) : Double :=
  rayF64Fin (match op with
    | .add => lv.add rv
    | .sub => lv.sub rv
    | .mul => lv.mul rv
    | .div => if truthy rv then lv.div rv else .nan
    | .idiv => if truthy rv then (lv.div rv).floor else .nan
    | .mod => if truthy rv then modF64 lv rv else .nan
    | .pow => if lv.isNaN || rv.isNaN then .nan else m.pow lv rv
    | .min2 => if lv.lt rv then lv else rv
    | .max2 => if rv.lt lv then lv else rv)

def foldI64 (op : ArithOp) (li ri : Int64) : Option Int64 :=
  match op with
  | .add => some (li + ri)
  | .sub => some (li - ri)
  | .mul => some (li * ri)
  | .div | .idiv =>
    if ri = 0 then none
    else some (if (li ^^^ ri) < 0 ∧ li / ri * ri ≠ li then li / ri - 1 else li / ri)
  | .mod =>
    if ri = 0 then none
    else some (if li % ri ≠ 0 ∧ (li % ri ^^^ ri) < 0 then li % ri + ri else li % ri)
  | .min2 => some (if li < ri then li else ri)
  | .max2 => some (if ri < li then li else ri)
  | .pow => none

def foldBinary (op : ArithOp) (out : ElemType) : Folded → Folded → Option Folded
  | .int li, .int ri =>
    if out = .f64 ∨ op = .div ∨ op = .pow then
      some (.f64 (foldF64 m op (Double.ofInt li.toInt) (Double.ofInt ri.toInt)))
    else (foldI64 op li ri).map .int
  | l, r => some (.f64 (foldF64 m op l.toDouble r.toDouble))

def evalConstNumericExpr (nodes : List Node) : ℕ → ℕ → Option Folded
  | 0, _ => none
  | fuel + 1, i =>
    match nodes[i]? with
    | some (.const a) => some (atomToNumeric a)
    | some (.unary op out a) => do foldUnary m op out (← evalConstNumericExpr nodes fuel a)
    | some (.binary (.arith op out) l r) => do
      foldBinary m op out (← evalConstNumericExpr nodes fuel l) (← evalConstNumericExpr nodes fuel r)
    | _ => none

def Folded.toI64 : Folded → Option Int64
  | int i => some i
  | f64 (.fin q) => if q = ⌊q⌋ ∧ q ≤ 2 ^ 63 ∧ -2 ^ 63 ≤ q then some (Int64.ofInt ⌊q⌋) else none
  | f64 _ => none

def constExprToI64 (nodes : List Node) (fuel i : ℕ) : Option Int64 :=
  (evalConstNumericExpr m nodes fuel i).bind Folded.toI64

end

structure LinearExpr where
  bias : Int64
  terms : List (ℕ × Int64)
  deriving DecidableEq

def aggLinearMaxTerms : ℕ := 8

def mergeTerm (sym : ℕ) (coeff : Int64) : List (ℕ × Int64) → Option (List (ℕ × Int64))
  | [] => none
  | (s, c) :: ts =>
    if s ≠ sym then (mergeTerm sym coeff ts).map ((s, c) :: ·)
    else if c + coeff ≠ 0 then some ((s, c + coeff) :: ts)
    else some ts

def linearExprAddTerm (e : LinearExpr) (sym : ℕ) (coeff : Int64) : Option LinearExpr :=
  if coeff = 0 then some e
  else match mergeTerm sym coeff e.terms with
    | some ts => some { e with terms := ts }
    | none => if aggLinearMaxTerms ≤ e.terms.length then none else some
      { e with terms := e.terms ++ [(sym, coeff)] }

def linearExprScale (e : LinearExpr) (k : Int64) : LinearExpr :=
  if k = 1 then e else ⟨e.bias * k, e.terms.map fun t => (t.1, t.2 * k)⟩

def addTerms (scale : Int64) : LinearExpr → List (ℕ × Int64) → Option LinearExpr
  | dst, [] => some dst
  | dst, t :: ts => do addTerms scale (← linearExprAddTerm dst t.1 (t.2 * scale)) ts

def linearExprAddScaled (dst src : LinearExpr) (scale : Int64) : Option LinearExpr :=
  addTerms scale { dst with bias := dst.bias + src.bias * scale } src.terms

def parseLinearI64Expr (m : Libm) (nodes : List Node) : ℕ → ℕ → Option LinearExpr
  | 0, _ => none
  | fuel + 1, i =>
    match constExprToI64 m nodes (fuel + 1) i with
    | some c => some ⟨c, []⟩
    | none =>
      match nodes[i]? with
      | some (.input sym) => some ⟨0, [(sym, 1)]⟩
      | some (.unary .neg _ a) => do return linearExprScale (← parseLinearI64Expr m nodes fuel a) (-1)
      | some (.binary (.arith .add _) l r) => do
        linearExprAddScaled (← parseLinearI64Expr m nodes fuel l) (← parseLinearI64Expr m nodes fuel r) 1
      | some (.binary (.arith .sub _) l r) => do
        linearExprAddScaled (← parseLinearI64Expr m nodes fuel l) (← parseLinearI64Expr m nodes fuel r) (-1)
      | some (.binary (.arith .mul _) l r) =>
        let left := do
          return linearExprScale (← parseLinearI64Expr m nodes fuel r) (← constExprToI64 m nodes fuel l)
        let right := do
          return linearExprScale (← parseLinearI64Expr m nodes fuel l) (← constExprToI64 m nodes fuel r)
        left.orElse fun _ => right
      | _ => none

def tryLinearSumavgInputI64 (m : Libm) (table : ℕ → Vec) (g : Graph) (i : ℕ) : Option LinearExpr := do
  let lin ← parseLinearI64Expr m g.nodes (i + 1) i
  if lin.terms.all fun t => (table t.1).ty.isInt && !(table t.1).hasNulls then return lin else none

def LinearExpr.at (e : LinearExpr) (col : ℕ → Int64) : Int64 := e.bias + (e.terms.map fun t => t.2 * col t.1).sum

def scalarSumLinearI64 (lin : LinearExpr) (col : ℕ → ℕ → Int64) (rows : List ℕ) : Int64 :=
  lin.bias * Int64.ofNat rows.length +
    (lin.terms.map fun t => if t.2 = 0 then 0 else t.2 * (rows.map (col t.1)).sum).sum

section

variable {col : ℕ → Int64} {e src dst lin : LinearExpr} {sym : ℕ} {coeff k scale : Int64}
    {ts ts' : List (ℕ × Int64)}

def termSum (col : ℕ → Int64) (ts : List (ℕ × Int64)) : Int64 := (ts.map fun t => t.2 * col t.1).sum

@[simp] lemma termSum_cons (t : ℕ × Int64) : termSum col (t :: ts) = t.2 * col t.1 + termSum col ts := by
  rw [termSum, map_cons, sum_cons, termSum]

lemma at_eq (e : LinearExpr) (col : ℕ → Int64) : e.at col = e.bias + termSum col e.terms := rfl

lemma mergeTerm_sum (h : mergeTerm sym coeff ts = some ts') :
    termSum col ts' = termSum col ts + coeff * col sym := by
  induction ts generalizing ts' with
  | nil => cases h
  | cons t ts ih =>
    obtain ⟨s, c⟩ := t
    rw [mergeTerm] at h
    by_cases hs : s = sym
    · rw [if_neg (not_not.mpr hs)] at h
      subst hs
      by_cases hc : c + coeff = 0
      · rw [if_neg (not_not.mpr hc)] at h
        obtain rfl := some.inj h
        have hcancel : c * col s + coeff * col s = 0 := by rw [← Int64.add_mul, hc, Int64.zero_mul]
        simp only [termSum_cons]
        grind
      · rw [if_pos hc] at h
        obtain rfl := some.inj h
        simp only [termSum_cons]
        grind
    · rw [if_pos hs] at h
      obtain ⟨rest, hrest, rfl⟩ := map_eq_some_iff.mp h
      simp only [termSum_cons]
      rw [ih hrest]
      grind

lemma linearExprAddTerm_at (h : linearExprAddTerm e sym coeff = some lin) :
    lin.at col = e.at col + coeff * col sym := by
  rw [linearExprAddTerm] at h
  by_cases hc : coeff = 0
  · rw [if_pos hc] at h
    obtain rfl := some.inj h
    rw [hc, Int64.zero_mul, Int64.add_zero]
  · rw [if_neg hc] at h
    cases hm : mergeTerm sym coeff e.terms with
    | some ts =>
      rw [hm] at h
      obtain rfl := some.inj h
      rw [at_eq, at_eq, mergeTerm_sum hm]
      grind
    | none =>
      rw [hm] at h
      dsimp only at h
      split at h
      · cases h
      · obtain rfl := some.inj h
        rw [at_eq, at_eq, termSum, map_append, sum_append, ← termSum, map_singleton, sum_singleton]
        grind

lemma linearExprScale_at (e : LinearExpr) (k : Int64) (col : ℕ → Int64) :
    (linearExprScale e k).at col = e.at col * k := by
  rw [linearExprScale]
  split
  next hk => rw [hk, Int64.mul_one]
  · rw [at_eq, at_eq, Int64.add_mul]
    dsimp only
    congr 1
    induction e.terms with
    | nil => simp [termSum]
    | cons t ts ih =>
      rw [map_cons, termSum_cons, termSum_cons, ih]
      grind

lemma addTerms_at (h : addTerms scale dst ts = some lin) : lin.at col = dst.at col + termSum col ts * scale := by
  induction ts generalizing dst with
  | nil =>
    obtain rfl := some.inj h
    simp [termSum]
  | cons t ts ih =>
    rw [addTerms, bind_eq_bind, bind_eq_some_iff] at h
    obtain ⟨mid, hmid, hrest⟩ := h
    rw [ih hrest, linearExprAddTerm_at hmid, termSum_cons]
    grind

lemma linearExprAddScaled_at (h : linearExprAddScaled dst src scale = some lin) :
    lin.at col = dst.at col + src.at col * scale := by
  rw [addTerms_at h, at_eq, at_eq dst, at_eq src]
  grind

lemma scalarSumLinearI64_eq (lin : LinearExpr) (col : ℕ → ℕ → Int64) (rows : List ℕ) :
    scalarSumLinearI64 lin col rows = (rows.map fun row => lin.at fun sym => col sym row).sum := by
  have hskip : ∀ t : ℕ × Int64, (if t.2 = 0 then 0 else t.2 * (rows.map (col t.1)).sum) =
      t.2 * (rows.map (col t.1)).sum := by
    intro t
    split
    next ht => rw [ht, Int64.zero_mul]
    · rfl
  rw [scalarSumLinearI64, funext hskip]
  clear hskip
  induction rows with
  | nil =>
    have hzero : ∀ ts : List (ℕ × Int64), (ts.map fun t => t.2 * (([] : List ℕ).map (col t.1)).sum).sum = 0 := by
      intro ts
      induction ts with
      | nil => rfl
      | cons t ts iht =>
        rw [map_cons, sum_cons, iht, map_nil, sum_nil, Int64.mul_zero]
        rfl
    rw [hzero, map_nil, sum_nil, length_nil]
    exact (Int64.add_zero _).trans Int64.mul_zero
  | cons row rows ih =>
    have hsplit : ∀ ts : List (ℕ × Int64), (ts.map fun t => t.2 * ((row :: rows).map (col t.1)).sum).sum =
        termSum (fun sym => col sym row) ts + (ts.map fun t => t.2 * (rows.map (col t.1)).sum).sum := by
      intro ts
      induction ts with
      | nil => rfl
      | cons t ts iht =>
        rw [map_cons, sum_cons, iht, termSum_cons, map_cons, sum_cons, map_cons, sum_cons]
        grind
    have hlen : Int64.ofNat (rows.length + 1) = Int64.ofNat rows.length + 1 := Int64.ofNat_add _ _
    rw [map_cons, sum_cons, ← ih, hsplit, at_eq, length_cons, hlen]
    grind

end

end Rayforce.Expr
