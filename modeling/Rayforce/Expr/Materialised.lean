import Rayforce.Expr.Kernels

namespace Rayforce.Expr

open Rayforce.Exec Library.Binary64 List Option

inductive Reading
  | null
  | int (z : Int64)
  | real (d : Double)
  deriving DecidableEq

def Reading.toDouble : Reading → Double
  | null => .nan
  | int z => Double.ofInt z.toInt
  | real d => d

def Reading.Number : Reading → Prop
  | null => False
  | int _ => True
  | real d => ∃ q, d = .fin q

def reading (t : ElemType) (p : t.Cell × Bool) : Reading :=
  if p.2 then .null
  else match t, p.1 with
    | .f64, d => .real d
    | t, c => .int (t.toInt64 c)

def rowAt (v : View) (row : ℕ) : Option Reading := (atRow v.rows row).map (reading v.ty)

def valueAt (m : Libm) (env : ℕ → Value) (g : Graph) (i row : ℕ) : Option Reading :=
  match eval m env g i with
  | .ok v => rowAt v.view row
  | .error _ => none

def UnaryExact (m : Libm) (op : UnOp) (t : ElemType) (x : Reading) : Prop :=
  ((op = .neg ∨ op = .abs) → x ≠ .int Int64.minValue) ∧
    (op.isF64Math = true → (∃ q, unaryF64 m op x.toDouble = .fin q) ∧
      ((op = .sqrt ∨ op = .log ∨ op = .exp) → t = .i64 ∨ t = .f64))

def ArithExact (m : Libm) (l r : View) (op : ArithOp) (out : ElemType) (x y : Reading) : Prop :=
  if out = .f64 then ∃ q, arithF64 m op x.toDouble y.toDouble = .fin q
  else ∃ a b, x = .int a ∧ y = .int b ∧ ∀ z, foldI64 op a b = some z → IntExact l r op out a b z

def NodeExact (m : Libm) (env : ℕ → Value) (g : Graph) (row j : ℕ) : Prop :=
  match g.nodes[j]? with
  | some (.const a) => a.isNull = false ∧ ∀ d, a = .f64 d → ∃ q, d = .fin q
  | some (.input _) => ∀ x, valueAt m env g j row = some x → x.Number
  | some (.unary op _ a) =>
    ∀ v x, eval m env g a = .ok v → rowAt v.view row = some x → UnaryExact m op v.view.ty x
  | some (.binary (.arith op out) l r) =>
    ∀ v w x y, eval m env g l = .ok v → eval m env g r = .ok w → rowAt v.view row = some x →
      rowAt w.view row = some y → ArithExact m v.view w.view op out x y
  | _ => True

def Under (g : Graph) : ℕ → ℕ → Prop :=
  Relation.ReflTransGen fun i j => ∃ n, g.nodes[i]? = some n ∧ j ∈ n.children

def Built (m : Libm) (env : ℕ → Value) (g : Graph) : Prop :=
  (∀ (i : ℕ) op out a v, g.nodes[i]? = some (Node.unary op out a) → op ≠ .cast → eval m env g a = .ok v →
    out = unaryType op v.view.ty) ∧
    ∀ (i : ℕ) op out l r v w, g.nodes[i]? = some (Node.binary (.arith op out) l r) → eval m env g l = .ok v →
      eval m env g r = .ok w → out = arithType op v.view.ty w.view.ty

def cellAt (v : Vec) (row : ℕ) : Int64 := ((atRow v.cells row).map v.ty.toInt64).getD 0

def Agrees : Folded → Reading → Prop
  | .int z, .int z' => z = z'
  | .f64 d, .real d' => d = d' ∧ ∃ q, d = .fin q
  | _, _ => False

section

variable {m : Libm} {l r : View} {op : ArithOp} {out : ElemType} {v : Vec} {row : ℕ} {x y u : Reading} {z : Int64}

lemma reading_int {t : ElemType} (ht : t ≠ .f64) (c : t.Cell) : reading t (c, false) = .int (t.toInt64 c) := by
  cases t <;> first | rfl | exact absurd rfl ht

lemma reading_toDouble (t : ElemType) (c : t.Cell) : (reading t (c, false)).toDouble = t.toDouble c := by
  cases t <;> rfl

lemma reading_eq_int {t : ElemType} {p : t.Cell × Bool} (h : reading t p = .int z) :
    t ≠ .f64 ∧ p.2 = false ∧ t.toInt64 p.1 = z := by
  obtain ⟨c, n⟩ := p
  cases n with
  | true => cases h
  | false => cases t <;> simp_all [reading]

lemma rowAt_vec (hu : rowAt v.view row = some u) :
    ∃ c, atRow v.cells row = some c ∧ u = reading v.ty (c, v.hasNulls && v.ty.isSentinel c) := by
  have hrows : rowAt v.view row = (atRow v.cells row).map fun c =>
      reading v.ty (c, v.hasNulls && v.ty.isSentinel c) := by
    rw [rowAt, Vec.view, atRow_map, Option.map_map]
    rfl
  rw [hrows, map_eq_some_iff] at hu
  obtain ⟨c, hc, rfl⟩ := hu
  exact ⟨c, hc, rfl⟩

lemma execArith_rowAt (hv : execArith m l r op out = .ok v) (hu : rowAt v.view row = some u) :
    ∃ p q c n, atRow l.rows row = some p ∧ atRow r.rows row = some q ∧ arithRow m l r op out (p, q) = some c ∧
      u = reading out (c, n && out.isSentinel c) := by
  rw [execArith] at hv
  split at hv
  · cases hv
  next ps hps =>
    split at hv
    · cases hv
    · split at hv
      · cases hv
      next cells hcells =>
        cases hv
        obtain ⟨c, hc, rfl⟩ := rowAt_vec hu
        obtain ⟨⟨p, q⟩, hpq, hrow⟩ := mapM_atRow hcells hc
        obtain ⟨hl, hr⟩ := pairRows_atRow hps hpq
        exact ⟨p, q, c, _, hl, hr, hrow, rfl⟩

lemma not_null {t : ElemType} {p : t.Cell × Bool} (h : reading t p ≠ .null) : p.2 = false := by
  obtain ⟨c, n⟩ := p
  cases n with
  | true => exact absurd rfl h
  | false => rfl

lemma fits_not_sentinel {c : out.Cell} (hz : Fits out (out.toInt64 c)) (hout : out ≠ .f64) :
    out.isSentinel c = false := by
  rw [ElemType.isSentinel, decide_eq_false_iff_not]
  intro h
  cases out with
  | bool | u8 => cases h
  | i16 =>
    obtain rfl := some.inj h
    exact absurd hz.1 (by decide)
  | i32 | date | time =>
    obtain rfl := some.inj h
    exact absurd hz.1 (by decide)
  | i64 | timestamp =>
    obtain rfl := some.inj h
    exact hz rfl
  | f64 => exact hout rfl

lemma arithKernel_f64 {a : l.ty.Cell} {b : r.ty.Cell} :
    arithKernel m l r op .f64 a b = some (arithF64 m op (l.ty.toDouble a) (r.ty.toDouble b)) := by
  rw [arithKernel]
  split
  · split <;> rfl
  · rfl

lemma truthy_of_fin {lv rv : Double} {q : ℚ} (hop : op.divides = true) (h : arithF64 m op lv rv = .fin q) :
    truthy rv = true := by
  by_contra hzero
  cases op with
  | div | idiv | mod =>
    rw [arithF64, if_neg hzero] at h
    cases h
  | add | sub | mul | pow | min2 | max2 => simp [ArithOp.divides] at hop

lemma isZero_int {t : ElemType} (ht : t ≠ .f64) (c : t.Cell) : isZero t c = decide (t.toInt64 c = 0) := by
  cases t <;> first | rfl | exact absurd rfl ht

lemma arith_step (hout : out = arithType op l.ty r.ty) (hv : execArith m l r op out = .ok v)
    (hu : rowAt v.view row = some u) :
    ∃ x y, rowAt l row = some x ∧ rowAt r row = some y ∧ (x ≠ .null → y ≠ .null → ArithExact m l r op out x y →
      if out = .f64 then u = .real (arithF64 m op x.toDouble y.toDouble)
      else ∀ a b z, x = .int a → y = .int b → foldI64 op a b = some z → u = .int z) := by
  obtain ⟨⟨a, na⟩, ⟨b, nb⟩, c, n, hl, hr, hrow, rfl⟩ := execArith_rowAt hv hu
  refine ⟨_, _, congrArg (Option.map (reading l.ty)) hl, congrArg (Option.map (reading r.ty)) hr,
    fun hx hy hex => ?_⟩
  obtain rfl : na = false := not_null hx
  obtain rfl : nb = false := not_null hy
  have hkernel : zeroDivisor op r b = false → arithKernel m l r op out a b = some c := by
    intro hz
    rw [arithRow, arithNull, hz] at hrow
    exact hrow
  split
  next hf =>
    subst hf
    rw [ArithExact, if_pos rfl, reading_toDouble, reading_toDouble] at hex
    obtain ⟨q, hq⟩ := hex
    have hz : zeroDivisor op r b = false := by
      rw [zeroDivisor, isZero_eq, Bool.and_eq_false_iff, or_iff_not_imp_left]
      intro hdiv
      have hop : op.divides = true := by
        rw [Bool.not_eq_false, Bool.and_eq_true] at hdiv
        exact hdiv.1
      have ht := truthy_of_fin hop hq
      rwa [truthy, Bool.not_eq_true'] at ht
    have hc := hkernel hz
    rw [arithKernel_f64] at hc
    obtain rfl := some.inj hc
    rw [reading_toDouble, reading_toDouble, hq]
    simp [reading, ElemType.isSentinel, ElemType.nullCell]
  next hf =>
    rintro a' b' z hxa hyb hfold
    rw [ArithExact, if_neg hf] at hex
    obtain ⟨_, _, hxa', hyb', hint⟩ := hex
    obtain rfl := Reading.int.inj (hxa.symm.trans hxa')
    obtain rfl := Reading.int.inj (hyb.symm.trans hyb')
    obtain ⟨hlt, -, rfl⟩ := reading_eq_int hxa
    obtain ⟨hrt, -, rfl⟩ := reading_eq_int hyb
    have hz : zeroDivisor op r b = false := by
      rw [zeroDivisor, Bool.and_eq_false_iff, or_iff_not_imp_left]
      intro hdiv
      have hop : op.divides = true := by
        rw [Bool.not_eq_false, Bool.and_eq_true] at hdiv
        exact hdiv.1
      rw [isZero_int hrt]
      exact decide_eq_false (foldI64_divides_ne hop hfold)
    have hplain : op ≠ .div ∧ op ≠ .pow := by
      constructor
      · rintro rfl
        exact hf hout
      · rintro rfl
        exact hf hout
    have hc := arithKernel_exact hout hplain hlt hrt hfold (hint z hfold) (hkernel hz)
    have hs := fits_not_sentinel (hc ▸ (hint z hfold).fits) hf
    rw [hs, Bool.and_false, reading_int hf, hc]

lemma agrees_int {n : Folded} (h : Agrees n (.int z)) : n = .int z := by
  cases n with
  | int z' => exact congrArg Folded.int h
  | f64 d => exact h.elim

lemma agrees_real {n : Folded} {d : Double} (h : Agrees n (.real d)) : n = .f64 d ∧ ∃ q, d = .fin q := by
  cases n with
  | int z => exact h.elim
  | f64 d' => exact ⟨congrArg Folded.f64 h.1, h.1 ▸ h.2⟩

lemma agrees_toDouble {n : Folded} (h : Agrees n x) : n.toDouble = x.toDouble := by
  cases x with
  | null => cases n <;> exact h.elim
  | int z => rw [agrees_int h, Folded.toDouble, Reading.toDouble]
  | real d => rw [(agrees_real h).1, Folded.toDouble, Reading.toDouble]

lemma agrees_number {n : Folded} (h : Agrees n x) : x.Number := by
  cases x with
  | null => cases n <;> exact h.elim
  | int z => exact trivial
  | real d => exact (agrees_real h).2

lemma number_agrees (h : x.Number) : ∃ n, Agrees n x := by
  cases x with
  | null => exact h.elim
  | int z => exact ⟨.int z, rfl⟩
  | real d => exact ⟨.f64 d, rfl, h⟩

lemma number_not_null (h : x.Number) : x ≠ .null := by
  rintro rfl
  exact h

lemma agrees_not_null {n : Folded} (h : Agrees n x) : x ≠ .null := by
  rintro rfl
  cases n <;> exact h

section

variable {uop : UnOp} {t : ElemType} {a : t.Cell} {c : out.Cell} {n n' : Folded}

lemma unaryCell_math {c : Double} (hmath : uop.isF64Math = true)
    (hnarrow : (uop = .sqrt ∨ uop = .log ∨ uop = .exp) → t = .i64 ∨ t = .f64)
    (hc : unaryCell m uop t .f64 a = some c) :
    c = unaryF64 m uop (t.toDouble a) := by
  cases t with
  | f64 => exact (some.inj hc).symm
  | i64 =>
    cases uop with
    | reciprocal => exact (some.inj hc).symm.trans (@reciprocal_int (.i64 a) rfl)
    | sqrt | log | exp | sin | asin | cos | acos | tan | atan => exact (some.inj hc).symm
    | neg | abs | not | ceil | floor | round | isnull | cast | signum => cases hmath
  | i32 | i16 | u8 | bool =>
    cases uop with
    | sqrt | log | exp => simp at hnarrow
    | sin | asin | cos | acos | tan | atan | reciprocal => exact (some.inj hc).symm
    | neg | abs | not | ceil | floor | round | isnull | cast | signum => cases hmath
  | date | time =>
    cases uop with
    | neg | abs | not | ceil | floor | round | isnull | cast | signum => cases hmath
    | sqrt | log | exp | sin | asin | cos | acos | tan | atan | reciprocal => cases hc
  | timestamp => cases hc

lemma unaryCell_signum {c : Int64} (hc : unaryCell m .signum t .i64 a = some c) :
    c = signumDouble (t.toDouble a) := by
  have hint : ∀ z : Int64, signumDouble (Double.ofInt z.toInt) = signumI64 z :=
    fun z => @signumDouble_int (.i64 z) fun h => by cases h
  cases t with
  | f64 => exact (some.inj hc).symm
  | i64 | i32 | i16 | u8 | bool => exact (some.inj hc).symm.trans (hint _).symm
  | date | time | timestamp => cases hc

lemma foldUnary_math (hmath : uop.isF64Math = true) (h : foldUnary m uop out n = some n') :
    n' = .f64 (unaryF64 m uop n.toDouble) := by
  cases uop with
  | reciprocal =>
    obtain rfl := some.inj h
    rw [unaryF64, reciprocal]
    split <;> rfl
  | sqrt | log | exp | sin | asin | cos | acos | tan | atan => exact (some.inj h).symm
  | neg | abs | not | ceil | floor | round | isnull | cast | signum => cases hmath

lemma unaryCell_sign {c : t.Cell} (hop : uop = .neg ∨ uop = .abs) (hx : Agrees n (reading t (a, false)))
    (hmin : reading t (a, false) ≠ .int Int64.minValue) (hfold : foldUnary m uop t n = some n')
    (hc : unaryCell m uop t t a = some c) : t.isSentinel c = false ∧ Agrees n' (reading t (c, false)) := by
  have hkeeps : UnOp.keepsType uop := by
    obtain rfl | rfl := hop <;> simp [UnOp.keepsType]
  cases t with
  | i64 =>
    obtain rfl : n = .int a := agrees_int hx
    have hne : a ≠ Int64.minValue := fun h => hmin (congrArg Reading.int h)
    have hcell : c = unaryI64 uop a := (some.inj hc).symm
    have hn : n' = .int (unaryI64 uop a) := by
      obtain rfl | rfl := hop <;> exact (some.inj hfold).symm
    rw [hn, hcell, isSentinel_i64]
    exact ⟨unaryI64_ne_min hkeeps hne, rfl⟩
  | f64 =>
    obtain ⟨rfl, q, rfl⟩ : n = .f64 a ∧ ∃ q, a = .fin q := agrees_real hx
    have hcell : c = unaryF64 m uop (.fin q) := (some.inj hc).symm
    have hn : n' = .f64 (unaryF64 m uop (.fin q)) := by
      obtain rfl | rfl := hop <;> exact (some.inj hfold).symm
    have hfin : ∃ q', unaryF64 m uop (.fin q) = .fin q' := by
      obtain rfl | rfl := hop <;> exact ⟨_, rfl⟩
    obtain ⟨q', hq'⟩ := hfin
    rw [hn, hcell, hq']
    exact ⟨rfl, rfl, q', rfl⟩
  | bool | u8 | i16 | i32 | date | time | timestamp => obtain rfl | rfl := hop <;> cases hc

lemma unaryCell_agrees (hout : uop ≠ .cast → out = unaryType uop t) (hx : Agrees n (reading t (a, false)))
    (hex : UnaryExact m uop t (reading t (a, false))) (hfold : foldUnary m uop out n = some n')
    (hc : unaryCell m uop t out a = some c) : out.isSentinel c = false ∧ Agrees n' (reading out (c, false)) := by
  by_cases hmath : uop.isF64Math = true
  · obtain ⟨⟨q, hq⟩, hnarrow⟩ := hex.2 hmath
    obtain rfl : out = .f64 := by
      cases uop with
      | sqrt | log | exp | sin | asin | cos | acos | tan | atan | reciprocal => exact hout (by decide)
      | neg | abs | not | ceil | floor | round | isnull | cast | signum => cases hmath
    rw [reading_toDouble] at hq
    have hcell : c = .fin q := (unaryCell_math hmath hnarrow hc).trans hq
    have hn : n.toDouble = t.toDouble a := (agrees_toDouble hx).trans (reading_toDouble t a)
    rw [foldUnary_math hmath hfold, hn, hq, hcell]
    exact ⟨rfl, rfl, q, rfl⟩
  · cases uop with
    | sqrt | log | exp | sin | asin | cos | acos | tan | atan | reciprocal => exact absurd rfl hmath
    | not | ceil | floor | round | isnull | cast => cases hfold
    | neg =>
      obtain rfl : out = t := hout (by decide)
      exact unaryCell_sign (.inl rfl) hx (hex.1 (.inl rfl)) hfold hc
    | abs =>
      obtain rfl : out = t := hout (by decide)
      exact unaryCell_sign (.inr rfl) hx (hex.1 (.inr rfl)) hfold hc
    | signum =>
      obtain rfl : out = .i64 := hout (by decide)
      obtain rfl := some.inj hfold
      have hn : n.toDouble = t.toDouble a := (agrees_toDouble hx).trans (reading_toDouble t a)
      rw [unaryCell_signum hc, hn, isSentinel_i64, signumDouble]
      refine ⟨?_, rfl⟩
      split_ifs <;> decide

lemma unary_step {v₀ : View} (hout : uop ≠ .cast → out = unaryType uop v₀.ty)
    (hv : execUnaryView m uop out v₀ = .ok v) (hu : rowAt v.view row = some u) :
    ∃ x, rowAt v₀ row = some x ∧ (UnaryExact m uop v₀.ty x → ∀ n n', Agrees n x → foldUnary m uop out n = some n' →
      Agrees n' u) := by
  rw [execUnaryView] at hv
  split at hv
  · split at hv
    · cases hv
    next cells hcells =>
      cases hv
      obtain ⟨c, hc, rfl⟩ := rowAt_vec hu
      obtain ⟨⟨a, na⟩, ha, hrow⟩ := mapM_atRow hcells hc
      refine ⟨_, congrArg (Option.map (reading v₀.ty)) ha, fun hex n n' hn hfold => ?_⟩
      obtain rfl : na = false := not_null (agrees_not_null hn)
      have hcell : unaryCell m uop v₀.ty out a = some c := hrow
      obtain ⟨hs, hagrees⟩ := unaryCell_agrees hout hn hex hfold hcell
      dsimp only
      rw [hs, Bool.and_false]
      exact hagrees
  · cases hv

end

lemma foldF64_of_fin {lv rv : Double} {q : ℚ} (h : arithF64 m op lv rv = .fin q) :
    foldF64 m op lv rv = .fin q := by
  cases op with
  | add | sub | mul => exact h
  | div | idiv | mod =>
    have ht := truthy_of_fin rfl h
    rw [arithF64, if_pos ht] at h
    rw [foldF64]
    rw [if_pos ht, h]
  | pow =>
    rw [arithF64] at h
    rw [foldF64]
    split at h
    · cases h
    next hn => rw [if_neg hn, h]
  | min2 | max2 =>
    rw [arithF64] at h
    rw [foldF64]
    rw [h]
    rfl

lemma arith_agrees {a b n : Folded} (hout : out = arithType op l.ty r.ty) (hv : execArith m l r op out = .ok v)
    (hu : rowAt v.view row = some u) : ∃ x y, rowAt l row = some x ∧ rowAt r row = some y ∧
      (ArithExact m l r op out x y → Agrees a x → Agrees b y → foldBinary m op out a b = some n → Agrees n u) := by
  obtain ⟨x, y, hx, hy, hstep⟩ := arith_step hout hv hu
  refine ⟨x, y, hx, hy, fun hex ha hb hfold => ?_⟩
  have hval := hstep (agrees_not_null ha) (agrees_not_null hb) hex
  by_cases hf : out = .f64
  · rw [if_pos hf] at hval
    rw [ArithExact, if_pos hf] at hex
    obtain ⟨q, hq⟩ := hex
    have hn : n = .f64 (foldF64 m op a.toDouble b.toDouble) := by
      cases a <;> cases b <;> simp_all [foldBinary, Folded.toDouble]
    rw [hval, hn, agrees_toDouble ha, agrees_toDouble hb, foldF64_of_fin hq, hq]
    exact ⟨rfl, q, rfl⟩
  · rw [if_neg hf] at hval
    rw [ArithExact, if_neg hf] at hex
    obtain ⟨a', b', rfl, rfl, -⟩ := hex
    obtain rfl := agrees_int ha
    obtain rfl := agrees_int hb
    have hplain : ¬ (out = .f64 ∨ op = .div ∨ op = .pow) := by
      rintro (h | rfl | rfl)
      · exact hf h
      · exact hf hout
      · exact hf hout
    rw [foldBinary, if_neg hplain] at hfold
    obtain ⟨z, hz, rfl⟩ := map_eq_some_iff.mp hfold
    rw [hval a' b' z rfl rfl hz]
    rfl

end

section

variable {m : Libm} {table : ℕ → Vec} {g : Graph} {row i j fuel : ℕ} {v : Value} {u : Reading}

lemma eval_unary {op : UnOp} {out : ElemType} {a : ℕ} {env : ℕ → Value} (hn : g.nodes[i]? = some (.unary op out a))
    (hv : eval m env g i = .ok v) : ∃ v₀ w, eval m env g a = .ok v₀ ∧ execUnaryView m op out v₀.view = .ok w ∧
      v = .vec w := by
  rw [eval_eq, hn, evalNode] at hv
  cases ha : eval m env g a with
  | error e => simp [ha, bind, Except.bind] at hv
  | ok v₀ =>
    cases v₀ with
    | atom b => simp [ha, bind, Except.bind, execElementwiseUnary] at hv
    | vec b =>
      cases hw : execUnaryView m op out b.view with
      | error e => simp [ha, bind, Except.bind, execElementwiseUnary, hw] at hv
      | ok w => exact ⟨.vec b, w, rfl, hw,
        by simpa [ha, bind, Except.bind, execElementwiseUnary, hw, pure, Except.pure] using hv.symm⟩

lemma eval_arith {op : ArithOp} {out : ElemType} {l r : ℕ} {env : ℕ → Value}
    (hn : g.nodes[i]? = some (.binary (.arith op out) l r))
    (hv : eval m env g i = .ok v) : ∃ vl vr w, eval m env g l = .ok vl ∧ eval m env g r = .ok vr ∧
      execArith m vl.view vr.view op out = .ok w ∧ v = .vec w := by
  rw [eval_eq, hn, evalNode] at hv
  cases hl : eval m env g l with
  | error e => simp [hl, bind, Except.bind] at hv
  | ok vl =>
    cases hr : eval m env g r with
    | error e => simp [hl, hr, bind, Except.bind] at hv
    | ok vr =>
      cases hw : execArith m vl.view vr.view op out with
      | error e => simp [hl, hr, bind, Except.bind, execElementwiseBinary, hw] at hv
      | ok w =>
        exact ⟨vl, vr, w, rfl, rfl, hw,
          by simpa [hl, hr, bind, Except.bind, execElementwiseBinary, hw, pure, Except.pure] using hv.symm⟩

lemma under_child {n : Node} (hn : g.nodes[i]? = some n) (hc : j ∈ n.children) {k : ℕ} (h : Under g j k) :
    Under g i k :=
  .head ⟨n, hn, hc⟩ h

lemma evalConst_agrees {env : ℕ → Value} {n : Folded} (hbuilt : Built m env g)
    (hfold : evalConstNumericExpr m g.nodes fuel i = some n)
    (hex : ∀ j, Under g i j → NodeExact m env g row j) (hv : eval m env g i = .ok v)
    (hu : rowAt v.view row = some u) : Agrees n u := by
  induction fuel generalizing i n v u with
  | zero => cases hfold
  | succ fuel ih =>
    have hself := hex i .refl
    rw [evalConstNumericExpr] at hfold
    rw [NodeExact] at hself
    split at hfold
    next a hn =>
      obtain rfl := some.inj hfold
      rw [hn] at hself
      rw [eval_eq, hn] at hv
      obtain rfl := Except.ok.inj hv
      obtain ⟨hnull, hfin⟩ := hself
      have hrow : rowAt a.view row = some (reading a.ty (a.cell, false)) := by
        rw [← hnull]
        rfl
      obtain rfl := some.inj (hu.symm.trans hrow)
      cases a with
      | f64 d => exact ⟨rfl, hfin d rfl⟩
      | bool | u8 | i16 | i32 | i64 | date | time | timestamp => rfl
    next op out a hn =>
      obtain ⟨n₀, hn₀, hfold⟩ := bind_eq_some_iff.mp hfold
      obtain ⟨v₀, w, hv₀, hw, rfl⟩ := eval_unary hn hv
      rw [hn] at hself
      obtain ⟨x, hx, hstep⟩ := unary_step (fun hop => hbuilt.1 _ _ _ _ _ hn hop hv₀) hw hu
      have hchild := ih hn₀ (fun j hj => hex j (under_child hn (mem_singleton_self a) hj)) hv₀ hx
      exact hstep (hself v₀ x hv₀ hx) n₀ n hchild hfold
    next op out l r hn =>
      obtain ⟨a, ha, hrest⟩ := bind_eq_some_iff.mp hfold
      obtain ⟨b, hb, hfold⟩ := bind_eq_some_iff.mp hrest
      obtain ⟨vl, vr, w, hl, hr, hw, rfl⟩ := eval_arith hn hv
      rw [hn] at hself
      obtain ⟨x, y, hx, hy, hstep⟩ := arith_agrees (hbuilt.2 _ _ _ _ _ _ _ hn hl hr) hw hu
      have hleft := ih ha (fun j hj => hex j (under_child hn (by simp [Node.children]) hj)) hl hx
      have hright := ih hb (fun j hj => hex j (under_child hn (by simp [Node.children]) hj)) hr hy
      exact hstep (hself vl vr x y hl hr hx hy) hleft hright hfold
    · cases hfold

def RightAbout (table : ℕ → Vec) (lin : LinearExpr) (row : ℕ) (u : Reading) : Prop :=
  u.Number ∧ ∀ z, u = .int z → z = lin.at fun sym => cellAt (table sym) row

lemma constExprToI64_right {c : Int64} {env : ℕ → Value} (hbuilt : Built m env g)
    (hc : constExprToI64 m g.nodes fuel i = some c)
    (hex : ∀ j, Under g i j → NodeExact m env g row j) (hv : eval m env g i = .ok v)
    (hu : rowAt v.view row = some u) :
    u.Number ∧ ∀ z, u = .int z → z = c := by
  obtain ⟨n, hn, hc⟩ := bind_eq_some_iff.mp hc
  have hagrees := evalConst_agrees hbuilt hn hex hv hu
  refine ⟨agrees_number hagrees, ?_⟩
  rintro z rfl
  obtain rfl := agrees_int hagrees
  exact some.inj hc

lemma arith_right {op : ArithOp} {out : ElemType} {l r : ℕ} {lhs rhs lin : LinearExpr} {env : ℕ → Value}
    (hbuilt : Built m env g)
    (hn : g.nodes[i]? = some (.binary (.arith op out) l r)) (hex : NodeExact m env g row i)
    (hv : eval m env g i = .ok v)
    (hu : rowAt v.view row = some u)
    (hl : ∀ v x, eval m env g l = .ok v → rowAt v.view row = some x → RightAbout table lhs row x)
    (hr : ∀ v x, eval m env g r = .ok v → rowAt v.view row = some x → RightAbout table rhs row x)
    (hop : foldI64 op (lhs.at fun sym => cellAt (table sym) row) (rhs.at fun sym => cellAt (table sym) row) =
      some (lin.at fun sym => cellAt (table sym) row)) : RightAbout table lin row u := by
  obtain ⟨vl, vr, w, hvl, hvr, hw, rfl⟩ := eval_arith hn hv
  rw [NodeExact, hn] at hex
  obtain ⟨x, y, hx, hy, hstep⟩ := arith_step (hbuilt.2 _ _ _ _ _ _ _ hn hvl hvr) hw hu
  obtain ⟨hxn, hxi⟩ := hl vl x hvl hx
  obtain ⟨hyn, hyi⟩ := hr vr y hvr hy
  have hnode := hex vl vr x y hvl hvr hx hy
  have hval := hstep (number_not_null hxn) (number_not_null hyn) hnode
  split at hval
  next hf =>
    rw [ArithExact, if_pos hf] at hnode
    rw [hval]
    exact ⟨hnode, fun z hz => by cases hz⟩
  next hf =>
    rw [ArithExact, if_neg hf] at hnode
    obtain ⟨a, b, rfl, rfl, -⟩ := hnode
    obtain rfl := hxi a rfl
    obtain rfl := hyi b rfl
    rw [hval _ _ _ rfl rfl hop]
    exact ⟨trivial, fun z hz => (Reading.int.inj hz).symm⟩

lemma parse_right {lin : LinearExpr} (hbuilt : Built m (fun sym => .vec (table sym)) g)
    (hparse : parseLinearI64Expr m g.nodes fuel i = some lin)
    (hex : ∀ j, Under g i j → NodeExact m (fun sym => .vec (table sym)) g row j)
    (hv : eval m (fun sym => .vec (table sym)) g i = .ok v) (hu : rowAt v.view row = some u) :
    RightAbout table lin row u := by
  induction fuel generalizing i lin v u with
  | zero => cases hparse
  | succ fuel ih =>
    have hself := hex i .refl
    have hright : ∀ {k : ℕ} {n : Node} {e : LinearExpr}, g.nodes[i]? = some n → k ∈ n.children →
        parseLinearI64Expr m g.nodes fuel k = some e → ∀ v x, eval m (fun sym => .vec (table sym)) g k = .ok v →
          rowAt v.view row = some x → RightAbout table e row x :=
      fun hn hk he v x hv hx => ih he (fun j hj => hex j (under_child hn hk hj)) hv hx
    have hconst : ∀ {k : ℕ} {n : Node} {c : Int64}, g.nodes[i]? = some n → k ∈ n.children →
        constExprToI64 m g.nodes fuel k = some c → ∀ v x, eval m (fun sym => .vec (table sym)) g k = .ok v →
          rowAt v.view row = some x → RightAbout table ⟨c, []⟩ row x := by
      intro k n c hn hk hc v x hv hx
      obtain ⟨hnull, hint⟩ := constExprToI64_right hbuilt hc (fun j hj => hex j (under_child hn hk hj)) hv hx
      exact ⟨hnull, fun z hz => (hint z hz).trans (Int64.add_zero c).symm⟩
    rw [parseLinearI64Expr] at hparse
    split at hparse
    next c hc =>
      obtain rfl := some.inj hparse
      obtain ⟨hnull, hint⟩ := constExprToI64_right hbuilt hc hex hv hu
      exact ⟨hnull, fun z hz => (hint z hz).trans (Int64.add_zero c).symm⟩
    next hc =>
      split at hparse
      next sym hn =>
        obtain rfl := some.inj hparse
        rw [eval_eq, hn] at hv
        obtain rfl := Except.ok.inj hv
        rw [NodeExact, hn] at hself
        have hvalue : valueAt m (fun sym => .vec (table sym)) g i row = some u := by
          rw [valueAt, eval_eq, hn]
          exact hu
        refine ⟨hself u hvalue, ?_⟩
        rintro z rfl
        obtain ⟨c, hc, hu⟩ := rowAt_vec hu
        obtain ⟨-, -, rfl⟩ := reading_eq_int hu.symm
        have hcell : cellAt (table sym) row = (table sym).ty.toInt64 c := by
          rw [cellAt, hc]
          rfl
        rw [← hcell]
        exact ((Int64.zero_add _).trans ((Int64.add_zero _).trans (Int64.one_mul _))).symm
      next out a hn =>
        obtain ⟨e, he, hscale⟩ := bind_eq_some_iff.mp hparse
        obtain rfl := some.inj hscale
        obtain ⟨v₀, w, hv₀, hw, rfl⟩ := eval_unary hn hv
        obtain ⟨x, hx, hstep⟩ := unary_step (fun hop => hbuilt.1 _ _ _ _ _ hn hop hv₀) hw hu
        rw [NodeExact, hn] at hself
        obtain ⟨hnumber, hint⟩ := hright hn (by simp [Node.children]) he v₀ x hv₀ hx
        obtain ⟨n, hnx⟩ := number_agrees hnumber
        have hout : out = v₀.view.ty := hbuilt.1 _ _ _ _ _ hn (by decide) hv₀
        cases x with
        | null => exact hnumber.elim
        | int z₀ =>
          obtain rfl := agrees_int hnx
          obtain ⟨p, -, hp⟩ := map_eq_some_iff.mp hx
          have hne : out ≠ .f64 := hout ▸ (reading_eq_int hp).1
          have hagrees := hstep (hself v₀ _ hv₀ hx) _ (.int (-z₀)) hnx (by rw [foldUnary, if_neg hne])
          refine ⟨agrees_number hagrees, ?_⟩
          rintro z rfl
          have hz : -z₀ = z := hagrees
          rw [← hz, linearExprScale_at, hint z₀ rfl]
          grind
        | real d =>
          obtain ⟨rfl, -⟩ := agrees_real hnx
          have hagrees := hstep (hself v₀ _ hv₀ hx) _ (.f64 d.neg) hnx rfl
          refine ⟨agrees_number hagrees, ?_⟩
          rintro z rfl
          exact hagrees.elim
      next out l r hn =>
        obtain ⟨lhs, hl, hrest⟩ := bind_eq_some_iff.mp hparse
        obtain ⟨rhs, hr, hadd⟩ := bind_eq_some_iff.mp hrest
        refine arith_right hbuilt hn hself hv hu (hright hn (by simp [Node.children]) hl)
          (hright hn (by simp [Node.children]) hr) ?_
        rw [foldI64, linearExprAddScaled_at hadd, Int64.mul_one]
      next out l r hn =>
        obtain ⟨lhs, hl, hrest⟩ := bind_eq_some_iff.mp hparse
        obtain ⟨rhs, hr, hadd⟩ := bind_eq_some_iff.mp hrest
        refine arith_right hbuilt hn hself hv hu
          (hright hn (by simp [Node.children]) hl) (hright hn (by simp [Node.children]) hr) ?_
        have hsub : ∀ a b : Int64, a + b * -1 = a - b := fun a b => by grind
        rw [foldI64, linearExprAddScaled_at hadd, hsub]
      next out l r hn =>
        cases hleft :
          (do return linearExprScale (← parseLinearI64Expr m g.nodes fuel r) (← constExprToI64 m g.nodes fuel l) :
            Option LinearExpr) with
        | some e =>
          rw [hleft] at hparse
          obtain rfl := some.inj hparse
          obtain ⟨e, he, hrest⟩ := bind_eq_some_iff.mp hleft
          obtain ⟨k, hk, hscale⟩ := bind_eq_some_iff.mp hrest
          obtain rfl := some.inj hscale
          refine arith_right hbuilt hn hself hv hu (hconst hn (by simp [Node.children]) hk)
            (hright hn (by simp [Node.children]) he) ?_
          rw [foldI64, linearExprScale_at, Int64.mul_comm]
          exact congrArg some (congrArg (e.at _ * ·) (Int64.add_zero k))
        | none =>
          rw [hleft] at hparse
          obtain ⟨e, he, hrest⟩ := bind_eq_some_iff.mp hparse
          obtain ⟨k, hk, hscale⟩ := bind_eq_some_iff.mp hrest
          obtain rfl := some.inj hscale
          refine arith_right hbuilt hn hself hv hu (hright hn (by simp [Node.children]) he)
            (hconst hn (by simp [Node.children]) hk) ?_
          rw [foldI64, linearExprScale_at]
          exact congrArg some (congrArg (e.at _ * ·) (Int64.add_zero k))
      · cases hparse

def scalarAccumRow (acc : Int64 × ℕ) (x : Option Reading) : Int64 × ℕ :=
  match x with
  | some (.int z) => (acc.1 + z, acc.2 + 1)
  | _ => acc

lemma scalarAccumRow_sum {xs : List (Option Reading)} {f : ℕ → Int64} {rows : List ℕ} (acc : Int64 × ℕ)
    (h : List.Forall₂ (fun x row => x = some (.int (f row))) xs rows) :
    xs.foldl scalarAccumRow acc = (acc.1 + (rows.map f).sum, acc.2 + rows.length) := by
  induction h generalizing acc with
  | nil => exact Prod.ext (Int64.add_zero _).symm rfl
  | cons hx _ ih =>
    subst hx
    rw [foldl_cons, ih, map_cons, sum_cons, length_cons, scalarAccumRow]
    refine Prod.ext (Int64.add_assoc _ _ _) ?_
    dsimp only
    omega

end

def plainLibm : Libm := ⟨fun a _ => a, id, id, id, id, id, id, id, id, id⟩

-- two 32-bit columns whose sum leaves their type on the first row
def narrowTable : ℕ → Vec
  | 0 => ⟨.i32, [2147483647, 1], false⟩
  | _ => ⟨.i32, [2, 1], false⟩

def wideTable : ℕ → Vec := fun _ => ⟨.i64, [5, 7], false⟩

def sumOfTwo (a b : Node) (ha : a.children = []) (hb : b.children = []) (out : ElemType) : Exec.Graph where
  nodes := [a, b, .binary (.arith .add out) 0 1]
  ordered := by
    intro i n hn c hc
    match i with
    | 0 => obtain rfl := some.inj hn; rw [ha] at hc; cases hc
    | 1 => obtain rfl := some.inj hn; rw [hb] at hc; cases hc
    | 2 =>
      obtain rfl := some.inj hn
      simp only [Node.children, List.mem_cons, List.not_mem_nil, or_false] at hc
      omega
    | _ + 3 => cases hn

def plusConst (a : Atom) : Exec.Graph := sumOfTwo (.input 0) (.const a) rfl rfl .i64

def narrowSum : Exec.Graph := sumOfTwo (.input 0) (.input 1) rfl rfl .i32

def oneMore : Exec.Graph := plusConst (.i64 1)

lemma oneMore_built : Built plainLibm (fun sym => .vec (wideTable sym)) oneMore := by
  refine ⟨fun i op out a v hn => ?_, fun i op out l r v w hn hl hr => ?_⟩
  · match i with
    | 0 | 1 | 2 => cases hn
    | _ + 3 => cases hn
  · match i with
    | 0 | 1 => cases hn
    | 2 =>
      cases hn
      cases hl
      cases hr
      rfl
    | _ + 3 => cases hn

lemma oneMore_exact (row : ℕ) (hrow : row = 0 ∨ row = 1) (j : ℕ) :
    NodeExact plainLibm (fun sym => .vec (wideTable sym)) oneMore row j := by
  match j with
  | 0 =>
    intro x hx
    obtain rfl | rfl := hrow <;> obtain rfl := some.inj hx <;> exact trivial
  | 1 => exact ⟨rfl, fun d hd => by cases hd⟩
  | 2 =>
    intro v w x y hv hw hx hy
    cases hv
    cases hw
    obtain rfl := some.inj hy
    have hadd : ∀ a : Int64, x = .int a → a + 1 ≠ Int64.minValue →
        ArithExact plainLibm (Value.vec (wideTable 0)).view (Value.atom (.i64 1)).view .add .i64 x (.int 1) := by
      rintro a rfl hne
      refine ⟨a, 1, rfl, rfl, fun z hz => ?_⟩
      obtain rfl := some.inj hz
      exact ⟨.inl ⟨rfl, rfl, rfl, .inl rfl, .inl rfl⟩, (fun h => by cases h), (fun h => by cases h), hne⟩
    obtain rfl | rfl := hrow
    · exact hadd 5 (some.inj hx).symm (by decide)
    · exact hadd 7 (some.inj hx).symm (by decide)
  | _ + 3 => exact trivial

end Rayforce.Expr
