import Rayforce.Affine.Cached

namespace Rayforce.Affine

open Rayforce.Exec Rayforce.Expr Library.Binary64 List

variable {α β : Type}

def IntFamily (t : ElemType) : Prop := t.numeric = true ∧ t ≠ .f64

def Holds : ElemType → Int64 → Prop
  | .i32, z | .date, z | .time, z => -2 ^ 31 ≤ z.toInt ∧ z.toInt < 2 ^ 31
  | .i16, z => -2 ^ 15 ≤ z.toInt ∧ z.toInt < 2 ^ 15
  | .u8, z | .bool, z => 0 ≤ z.toInt ∧ z.toInt < 2 ^ 8
  | .i64, _ | .timestamp, _ | .f64, _ => True

def TypedLoop (v : Vec) (c : Atom) (left : Bool) : Prop :=
  left = false ∧ v.cells.length ≠ 1 ∧ promote v.ty c.ty = v.ty ∧ v.ty ≠ .u8

def slowType (v c : ElemType) (left : Bool) : ElemType :=
  outType (atomOf (promoteIntType v c) (zeroCell (promoteIntType v c))) v c left

def Exact (v : Vec) (c : Atom) (left : Bool) (x : v.ty.Cell) : Prop :=
  if canDag v.ty c then
    Holds (promote v.ty c.ty) (v.ty.toInt64 x + asI64 c) ∧
      (TypedLoop v c left ∨ Representable (v.ty.toInt64 x) ∧ Representable (asI64 c))
  else
    v.ty.isSentinel x = false ∧ Fits (promoteIntType v.ty c.ty) (v.ty.toInt64 x + asI64 c) ∧
      Fits (slowType v.ty c.ty left) (v.ty.toInt64 x + asI64 c)

section

variable {F : Type}

def Sound (o : VecObj F) (c : Atom) (left : Bool) : Prop :=
  o.hasNulls = false ∧ IntFamily c.ty ∧
    match o.contents with
    | .inl v => v.ty = .date ∨ v.ty = .timestamp ∨
        v.hasNulls = false ∧ c.isNull = false ∧ IntFamily v.ty ∧ ∀ x ∈ v.cells, Exact v c left x
    | .inr _ => False

end

section

variable {a b c : Atom} {t u v : ElemType} {left : Bool} {z : Int64}

lemma atomOf_ty (t : ElemType) (x : t.Cell) : (atomOf t x).ty = t := by cases t <;> rfl

lemma asI64_atomOf (t : ElemType) (x : t.Cell) : asI64 (atomOf t x) = t.toInt64 x := by cases t <;> rfl

lemma atomOf_isNull (t : ElemType) (x : t.Cell) : (atomOf t x).isNull = t.isSentinel x := by cases t <;> rfl

lemma zeroCell_isSentinel (t : ElemType) : t.isSentinel (zeroCell t) = false := by cases t <;> decide

lemma promoteIntType_comm (a b : ElemType) : promoteIntType a b = promoteIntType b a := by
  cases a <;> cases b <;> rfl

lemma promote_comm (a b : ElemType) : promote a b = promote b a := by cases a <;> cases b <;> rfl

lemma rayAddFn_int (ha : IntFamily a.ty) (hb : IntFamily b.ty) (hna : a.isNull = false) (hnb : b.isNull = false) :
    rayAddFn a b = .ok (makeTypedInt (promoteIntType a.ty b.ty) (asI64 a + asI64 b)) := by
  rw [rayAddFn, hna, hnb, ha.1, hb.1]
  exact if_neg (not_or.mpr ⟨ha.2, hb.2⟩)

lemma addElem_int (ht : IntFamily t) (hc : IntFamily c.ty) (x : t.Cell) (hx : t.isSentinel x = false)
    (hnc : c.isNull = false) :
    addElem c left (atomOf t x) = .ok (makeTypedInt (promoteIntType t c.ty) (t.toInt64 x + asI64 c)) := by
  have hty := atomOf_ty t x
  have ha : IntFamily (atomOf t x).ty := by rwa [hty]
  have hna := (atomOf_isNull t x).trans hx
  cases left
  · refine (rayAddFn_int ha hc hna hnc).trans ?_
    rw [hty, asI64_atomOf]
  · refine (rayAddFn_int hc ha hnc hna).trans ?_
    rw [hty, asI64_atomOf, promoteIntType_comm, Int64.add_comm]

lemma promoteIntType_tag (a b : ElemType) : (tag (promoteIntType a b)).isSome = true := by
  cases a <;> cases b <;> rfl

lemma makeTypedInt_spec (ht : (tag t).isSome = true) (hz : Fits t z) :
    (makeTypedInt t z).ty = t ∧ asI64 (makeTypedInt t z) = z ∧ (makeTypedInt t z).isNull = false := by
  cases t with
  | u8 => exact ⟨rfl, widen_u8 hz, rfl⟩
  | i16 =>
    have hw : z.toInt16.toInt64 = z := fits_i16 hz
    refine ⟨rfl, hw, decide_eq_false fun h => ?_⟩
    have hmin : z.toInt16 = Int16.minValue := (Option.some.inj h).symm
    rw [hmin] at hw
    rw [← hw] at hz
    exact absurd hz.1 (by decide)
  | i32 =>
    have hw : z.toInt32.toInt64 = z := fits_i32 hz
    refine ⟨rfl, hw, decide_eq_false fun h => ?_⟩
    have hmin : z.toInt32 = Int32.minValue := (Option.some.inj h).symm
    rw [hmin] at hw
    rw [← hw] at hz
    exact absurd hz.1 (by decide)
  | i64 => exact ⟨rfl, rfl, decide_eq_false fun h => hz (Option.some.inj h).symm⟩
  | bool | date | time | timestamp | f64 => cases ht

lemma storeTypedElem_spec (ht : (tag t).isSome = true) (hn : a.isNull = false) (hz : Fits t (asI64 a)) :
    t.toInt64 (storeTypedElem t a).1 = asI64 a ∧ (storeTypedElem t a).2 = false := by
  rw [storeTypedElem, hn]
  cases t with
  | u8 => exact ⟨widen_u8 hz, rfl⟩
  | i16 => exact ⟨fits_i16 hz, rfl⟩
  | i32 => exact ⟨fits_i32 hz, rfl⟩
  | i64 => exact ⟨rfl, rfl⟩
  | bool | date | time | timestamp | f64 => cases ht

lemma outType_eq (hn : a.isNull = false) (ha : a.ty = promoteIntType u v) :
    outType a u v left = slowType u v left := by
  rw [slowType, outType, outType, hn, atomOf_isNull, zeroCell_isSentinel, atomOf_ty, ha]

lemma slowType_tag (u v : ElemType) (left : Bool) : (tag (slowType u v left)).isSome = true := by
  cases u <;> cases v <;> cases left <;> rfl

end

lemma mapM_ok {α β ε : Type} {f : α → Except ε β} {g : α → β} {xs : List α} (h : ∀ x ∈ xs, f x = .ok (g x)) :
    xs.mapM f = .ok (xs.map g) := by
  induction xs with
  | nil => rfl
  | cons x xs ih =>
    rw [mapM_cons, h x mem_cons_self, ih fun y hy => h y (mem_cons_of_mem x hy)]
    rfl

lemma mapM_some {f : α → Option β} {g : α → β} {xs : List α} (h : ∀ x ∈ xs, f x = some (g x)) :
    xs.mapM f = some (xs.map g) := by
  induction xs with
  | nil => rfl
  | cons x xs ih =>
    rw [mapM_cons, h x mem_cons_self, ih fun y hy => h y (mem_cons_of_mem x hy)]
    rfl

lemma sum_map_add (xs : List Int64) (y : Int64) : (xs.map (· + y)).sum = xs.sum + y * Int64.ofNat xs.length := by
  induction xs with
  | nil => simp
  | cons x xs ih =>
    rw [map_cons, sum_cons, ih, sum_cons, length_cons, Int64.ofNat_add]
    grind

section

variable {v : Vec} {c : Atom} {left : Bool}

lemma kept_eq (h : v.hasNulls = false) : kept v = v.cells := by
  rw [kept, h]
  exact filter_eq_self.mpr fun _ _ => rfl

lemma raySumFn_int {floatSum : List Double → Double} (ht : IntFamily v.ty) (h : v.hasNulls = false) :
    raySumFn floatSum v = .ok (.i64 (v.cells.map v.ty.toInt64).sum) := by
  rw [raySumFn, total, kept_eq h]
  obtain ⟨t, cells, b⟩ := v
  cases t with
  | bool | u8 | i16 | i32 | i64 => rfl
  | date | time | timestamp => cases ht.1
  | f64 => exact absurd rfl ht.2

structure Moved (v : Vec) (c : Atom) (r : Vec) : Prop where
  ints : IntFamily r.ty
  plain : r.hasNulls = false
  cells : r.cells.map r.ty.toInt64 = v.cells.map fun x => v.ty.toInt64 x + asI64 c

lemma Moved.sum {floatSum : List Double → Double} {r : Vec} (h : Moved v c r) :
    raySumFn floatSum r = .ok (.i64 ((v.cells.map v.ty.toInt64).sum + asI64 c * Int64.ofNat v.cells.length)) := by
  rw [raySumFn_int h.ints h.plain, h.cells]
  have hmap : (v.cells.map fun x => v.ty.toInt64 x + asI64 c) = (v.cells.map v.ty.toInt64).map (· + asI64 c) := by
    rw [map_map]
    rfl
  rw [hmap, sum_map_add, length_map]

lemma intFamily_of_tag {t : ElemType} (h : (tag t).isSome = true) : IntFamily t := by
  cases t with
  | u8 | i16 | i32 | i64 => exact ⟨rfl, nofun⟩
  | bool | date | time | timestamp | f64 => cases h

lemma slowAdd_moved (ht : IntFamily v.ty) (hc : IntFamily c.ty) (hn : v.hasNulls = false) (hnc : c.isNull = false)
    (h : ∀ x ∈ v.cells, v.ty.isSentinel x = false ∧ Fits (promoteIntType v.ty c.ty) (v.ty.toInt64 x + asI64 c) ∧
      Fits (slowType v.ty c.ty left) (v.ty.toInt64 x + asI64 c)) :
    ∃ r, slowAdd v c left (slowType v.ty c.ty left) = .ok r ∧ Moved v c r := by
  have hsums : (v.cells.mapM fun x => addElem c left (collectionElem v x)) =
      .ok (v.cells.map fun x => makeTypedInt (promoteIntType v.ty c.ty) (v.ty.toInt64 x + asI64 c)) := by
    refine mapM_ok fun x hx => ?_
    rw [collectionElem, hn]
    exact addElem_int ht hc x (h x hx).1 hnc
  have hstore : ∀ x ∈ v.cells, (slowType v.ty c.ty left).toInt64 (storeTypedElem (slowType v.ty c.ty left)
        (makeTypedInt (promoteIntType v.ty c.ty) (v.ty.toInt64 x + asI64 c))).1 = v.ty.toInt64 x + asI64 c ∧
      (storeTypedElem (slowType v.ty c.ty left)
        (makeTypedInt (promoteIntType v.ty c.ty) (v.ty.toInt64 x + asI64 c))).2 = false := by
    intro x hx
    obtain ⟨_, hrt, hout⟩ := h x hx
    obtain ⟨-, hval, hnull⟩ := makeTypedInt_spec (promoteIntType_tag _ _) hrt
    rw [← hval] at hout
    obtain ⟨hcell, hmark⟩ := storeTypedElem_spec (slowType_tag _ _ _) hnull hout
    exact ⟨hcell.trans hval, hmark⟩
  rw [slowAdd, hsums]
  refine ⟨_, rfl, intFamily_of_tag (slowType_tag _ _ _), ?_, ?_⟩
  · refine any_eq_false.mpr fun a ha => ?_
    obtain ⟨x, hx, rfl⟩ := mem_map.mp ha
    rw [(hstore x hx).2]
    exact Bool.false_ne_true
  · rw [map_map, map_map]
    exact map_congr_left fun x hx => (hstore x hx).1

end

section

variable {m : Libm} {t u out : ElemType} {x y : Int64}

lemma cell_holds (ht : (tag t).isSome = true) (c : t.Cell) : Holds t (t.toInt64 c) := by
  cases t with
  | u8 =>
    change 0 ≤ (UInt8.toUInt64 c).toInt64.toInt ∧ (UInt8.toUInt64 c).toInt64.toInt < 2 ^ 8
    have hlt := UInt8.toNat_lt c
    rw [toInt_byte]
    omega
  | i16 =>
    change -2 ^ 15 ≤ (Int16.toInt64 c).toInt ∧ (Int16.toInt64 c).toInt < 2 ^ 15
    rw [Int16.toInt_toInt64]
    exact ⟨Int16.le_toInt c, Int16.toInt_lt c⟩
  | i32 =>
    change -2 ^ 31 ≤ (Int32.toInt64 c).toInt ∧ (Int32.toInt64 c).toInt < 2 ^ 31
    rw [Int32.toInt_toInt64]
    exact ⟨Int32.le_toInt c, Int32.toInt_lt c⟩
  | i64 => trivial
  | bool | date | time | timestamp | f64 => cases ht

lemma promote_tag (ht : (tag t).isSome = true) (hu : (tag u).isSome = true) :
    (tag (promote t u)).isSome = true := by
  cases t <;> cases u <;> first | rfl | exact absurd ht (by decide) | exact absurd hu (by decide)

lemma holds_promote (ht : (tag t).isSome = true) (hu : (tag u).isSome = true) (h : Holds t x) :
    Holds (promote t u) x := by
  cases t <;> cases u <;> simp only [tag, Option.isSome_none, Bool.false_eq_true] at ht hu <;>
    simp only [promote, Holds, reduceCtorEq, or_self, or_false, or_true, if_true, if_false] at h ⊢ <;> omega

lemma castInt_some {lo hi : ℤ} (hx : Representable x) (hlo : lo ≤ x.toInt) (hhi : x.toInt ≤ hi) :
    castInt lo hi (Double.ofInt x.toInt) = some x.toInt := by
  rw [castInt, hx, Double.trunc_fin_intCast]
  exact Option.filter_eq_some_iff.mpr ⟨rfl, decide_eq_true ⟨hlo, hhi⟩⟩

lemma wrap_add {α : Type} [Add α] [Sub α] [Mul α] [LT α] [DecidableLT α] (w : Width α)
    {cast : Double → Option α} {a b : α}
    (hcast : ∀ {x : Int64} {a : α}, Representable x → cast (Double.ofInt x.toInt) = some a → w.widen a = x)
    (hx : Representable x) (hy : Representable y) (ha : cast (Double.ofInt x.toInt) = some a)
    (hb : cast (Double.ofInt y.toInt) = some b) (hz : w.widen (w.cut (x + y)) = x + y) :
    ∃ c, ((cast (Double.ofInt x.toInt)).bind fun a => (cast (Double.ofInt y.toInt)).bind fun b =>
      wrapOp .add a b) = some c ∧
      w.widen c = x + y := by
  have hc : ((cast (Double.ofInt x.toInt)).bind fun a => (cast (Double.ofInt y.toInt)).bind fun b =>
    wrapOp .add a b) = some (a + b) := by
    rw [ha, hb]
    rfl
  exact ⟨a + b, hc, wrap_exact hcast hx hy rfl hz hc⟩

lemma arithCell_add (hout : (tag out).isSome = true) (hx : Representable x) (hy : Representable y)
    (hxo : Holds out x) (hyo : Holds out y) (hz : Holds out (x + y)) :
    ∃ c, arithCell m .add (Double.ofInt x.toInt) (Double.ofInt y.toInt) out = some c ∧ out.toInt64 c = x + y := by
  have hw : ArithOp.wraps .add := Or.inl rfl
  cases out with
  | u8 =>
    rw [arithCell, arithU8_wraps hw]
    exact wrap_add width8 castU8_exact hx hy (congrArg _ (castInt_some hx hxo.1 (Int.le_of_lt_add_one hxo.2)))
      (congrArg _ (castInt_some hy hyo.1 (Int.le_of_lt_add_one hyo.2))) (widen_u8 hz)
  | i16 =>
    rw [arithCell, arithI16_wraps hw]
    exact wrap_add width16 castI16_exact hx hy (congrArg _ (castInt_some hx hxo.1 (Int.le_sub_one_of_lt hxo.2)))
      (congrArg _ (castInt_some hy hyo.1 (Int.le_sub_one_of_lt hyo.2))) (widen_i16 hz)
  | i32 =>
    rw [arithCell, arithI32_wraps hw]
    exact wrap_add width32 castI32_exact hx hy (congrArg _ (castInt_some hx hxo.1 (Int.le_sub_one_of_lt hxo.2)))
      (congrArg _ (castInt_some hy hyo.1 (Int.le_sub_one_of_lt hyo.2))) (widen_i32 hz)
  | i64 =>
    rw [arithCell, arithI64_wraps hw]
    exact wrap_add width64 (fun hx ha => (Option.some.inj ((castI64_exact hx).symm.trans ha)).symm) hx hy
      (castI64_exact hx) (castI64_exact hy) rfl
  | bool | date | time | timestamp | f64 => cases hout

lemma fastArith_add (ht : t = .i64 ∨ t = .i32 ∨ t = .i16) (c : t.Cell) (hy : Holds t y)
    (hz : Holds t (t.toInt64 c + y)) :
    ∃ d, fastArith .add y t c = some d ∧ t.toInt64 d = t.toInt64 c + y := by
  obtain rfl | rfl | rfl := ht
  · exact ⟨_, rfl, rfl⟩
  · have hcut : width32.cut (width32.widen c + y) = c + width32.cut y := by rw [width32.cut_add, width32.cut_widen]
    exact ⟨_, rfl, (congrArg width32.widen hcut.symm).trans (widen_i32 hz)⟩
  · have hcut : width16.cut (width16.widen c + y) = c + width16.cut y := by rw [width16.cut_add, width16.cut_widen]
    exact ⟨_, rfl, (congrArg width16.widen hcut.symm).trans (widen_i16 hz)⟩

section

variable (hout : (tag out).isSome = true)
include hout

lemma arithKernel_add {l r : View} (hl : l.ty ≠ .f64) (hr : r.ty ≠ .f64) (x : l.ty.Cell)
    (y : r.ty.Cell) (hx : Holds out (l.ty.toInt64 x)) (hy : Holds out (r.ty.toInt64 y))
    (hz : Holds out (l.ty.toInt64 x + r.ty.toInt64 y))
    (hread : (l.ty = out ∧ l.scalar = false ∧ r.scalar = true ∧ out ≠ .u8) ∨
      Representable (l.ty.toInt64 x) ∧ Representable (r.ty.toInt64 y)) :
    ∃ c, arithKernel m l r .add out x y = some c ∧ out.toInt64 c = l.ty.toInt64 x + r.ty.toInt64 y := by
  have hgeneric : Representable (l.ty.toInt64 x) ∧ Representable (r.ty.toInt64 y) →
      ∃ c, arithCell m .add (l.ty.toDouble x) (r.ty.toDouble y) out = some c ∧
        out.toInt64 c = l.ty.toInt64 x + r.ty.toInt64 y := by
    rintro ⟨hrx, hry⟩
    rw [toDouble_int hl, toDouble_int hr]
    exact arithCell_add hout hrx hry hx hy hz
  rw [arithKernel]
  by_cases h : l.ty = out
  · rw [dif_pos h]
    obtain ⟨t, rows⟩ := l
    dsimp only at h
    subst h
    by_cases hs : (!(View.mk t rows).scalar && r.scalar) = true
    · rw [if_pos hs]
      have hwide : t ≠ .u8 → ∃ d, fastArith .add (r.ty.toInt64 y) t x = some d ∧
          t.toInt64 d = t.toInt64 x + r.ty.toInt64 y :=
        fun h8 => fastArith_add (by cases t <;> simp_all [tag]) x hy hz
      by_cases h8 : t = .u8
      · subst h8
        exact hgeneric (hread.resolve_left fun hfast => hfast.2.2.2 rfl)
      · obtain ⟨d, hd, hval⟩ := hwide h8
        rw [hd]
        exact ⟨d, rfl, hval⟩
    · rw [if_neg hs]
      refine hgeneric (hread.resolve_left fun hfast => hs ?_)
      rw [hfast.2.1, hfast.2.2.1]
      rfl
  · rw [dif_neg h]
    exact hgeneric (hread.resolve_left fun hfast => h hfast.1)

lemma kernel_right {ls : List (t.Cell × Bool)} {rs : List (Int64 × Bool)} (ht : t ≠ .f64)
    (x : t.Cell) (y : Int64) (hx : Holds out (t.toInt64 x)) (hy : Holds out y) (hz : Holds out (t.toInt64 x + y))
    (hread : (t = out ∧ (View.mk t ls).scalar = false ∧ rs.length = 1 ∧ out ≠ .u8) ∨ Representable (t.toInt64 x) ∧
      Representable y) :
    ∃ d, arithKernel m ⟨t, ls⟩ ⟨.i64, rs⟩ .add out x y = some d ∧ out.toInt64 d = t.toInt64 x + y :=
  have hr : ElemType.i64 ≠ .f64 := by decide
  arithKernel_add (l := ⟨t, ls⟩) (r := ⟨.i64, rs⟩) hout ht hr x y hx hy hz
    (hread.imp_left fun h => ⟨h.1, h.2.1, decide_eq_true h.2.2.1, h.2.2.2⟩)

lemma kernel_left {ls : List (Int64 × Bool)} {rs : List (t.Cell × Bool)} (ht : t ≠ .f64)
    (x : Int64) (y : t.Cell) (hx : Holds out x) (hy : Holds out (t.toInt64 y)) (hz : Holds out (x + t.toInt64 y))
    (hread : Representable x ∧ Representable (t.toInt64 y)) :
    ∃ d, arithKernel m ⟨.i64, ls⟩ ⟨t, rs⟩ .add out x y = some d ∧ out.toInt64 d = x + t.toInt64 y :=
  have hl : ElemType.i64 ≠ .f64 := by decide
  arithKernel_add (l := ⟨.i64, ls⟩) (r := ⟨t, rs⟩) hout hl ht x y hx hy hz (Or.inr hread)

end

end

section

variable {m : Libm} {v : Vec} {c : Atom} {left : Bool}

lemma pairRows_right (ls : List α) (b : β) : pairRows ls [b] = some (ls.map fun a => (a, b)) := by
  match ls with
  | [] => rfl
  | [_] => rfl
  | _ :: _ :: _ => rfl

lemma view_plain (hn : v.hasNulls = false) : v.view = ⟨v.ty, v.cells.map fun x => (x, false)⟩ := by
  change View.mk v.ty (v.cells.map fun x => (x, v.hasNulls && v.ty.isSentinel x)) = _
  rw [hn]
  rfl

lemma constView_int (hc : (tag c.ty).isSome = true) : constView c = ⟨.i64, [(asI64 c, false)]⟩ := by
  cases c <;> first | rfl | cases hc

lemma execArith_rows {out : ElemType} (l r : View) (xs : List (l.ty.Cell × r.ty.Cell))
    (hrows : pairRows l.rows r.rows = some (xs.map fun p => ((p.1, false), (p.2, false))))
    (hk : ∀ p ∈ xs, ∃ c, arithKernel m l r .add out p.1 p.2 = some c ∧
      out.toInt64 c = l.ty.toInt64 p.1 + r.ty.toInt64 p.2)
    (hout : (tag out).isSome = true) :
      ∃ s, execArith m l r .add out = .ok s ∧ IntFamily s.ty ∧ s.hasNulls = false ∧
      s.cells.map s.ty.toInt64 = xs.map fun p => l.ty.toInt64 p.1 + r.ty.toInt64 p.2 := by
  have : Nonempty out.Cell := ⟨zeroCell out⟩
  choose! f hf using hk
  have hcells : (xs.map fun p => ((p.1, false), (p.2, false))).mapM (arithRow m l r .add out) =
      some (xs.map f) := by
    rw [mapM_map]
    exact mapM_some fun p hp => (hf p hp).1
  have hnull : ((xs.map fun p => ((p.1, false), (p.2, false))).any (arithNull l r .add) || ArithOp.scansNaN .add &&
      anyNaN out (xs.map f)) = false := by
    have hty : out ≠ .f64 := (intFamily_of_tag hout).2
    have hany : (xs.map fun p => ((p.1, false), (p.2, false))).any (arithNull l r .add) = false := by
      refine any_eq_false.mpr fun q hq => ?_
      obtain ⟨p, -, rfl⟩ := mem_map.mp hq
      exact Bool.false_ne_true
    rw [hany, anyNaN, decide_eq_false hty]
    rfl
  refine ⟨⟨out, xs.map f, false⟩, ?_, intFamily_of_tag hout, rfl, ?_⟩
  · rw [execArith, hrows]
    dsimp only
    rw [if_neg (by simp), hcells]
    dsimp only
    rw [hnull]
  · rw [map_map]
    exact map_congr_left fun p hp => (hf p hp).2

lemma dagAdd_moved (ht : (tag v.ty).isSome = true) (hc : (tag c.ty).isSome = true) (hn : v.hasNulls = false)
    (h : ∀ x ∈ v.cells, Holds (promote v.ty c.ty) (v.ty.toInt64 x + asI64 c) ∧
      (TypedLoop v c left ∨ Representable (v.ty.toInt64 x) ∧ Representable (asI64 c))) :
    ∃ r, dagAdd m v c left = .ok r ∧ Moved v c r := by
  have hout := promote_tag ht hc
  have hcell : ∀ x : v.ty.Cell, Holds (promote v.ty c.ty) (v.ty.toInt64 x) :=
    fun x => holds_promote ht hc (cell_holds ht x)
  have hlit : Holds (promote v.ty c.ty) (asI64 c) := by
    rw [promote_comm]
    exact holds_promote hc ht (cell_holds hc c.cell)
  have hne := (intFamily_of_tag ht).2
  rw [dagAdd, constView_int hc, view_plain hn]
  cases left with
  | true =>
    rw [if_pos rfl, promote_comm]
    obtain ⟨s, hs, hints, hplain, hcells⟩ := execArith_rows (m := m) ⟨.i64, [(asI64 c, false)]⟩
      ⟨v.ty, v.cells.map fun x => (x, false)⟩ (v.cells.map fun x => (asI64 c, x))
      (by simp only [pairRows, map_map]; rfl) (by
        intro p hp
        obtain ⟨x, hx, rfl⟩ := mem_map.mp hp
        obtain ⟨hz, hread⟩ := h x hx
        rw [Int64.add_comm] at hz
        have hrep := hread.resolve_left fun hloop => Bool.false_ne_true hloop.1.symm
        exact kernel_left hout hne (asI64 c) x hlit (hcell x) hz ⟨hrep.2, hrep.1⟩) hout
    refine ⟨s, hs, hints, hplain, hcells.trans ?_⟩
    simp only [map_map]
    exact map_congr_left fun x _ => Int64.add_comm _ _
  | false =>
    rw [if_neg Bool.false_ne_true]
    obtain ⟨s, hs, hints, hplain, hcells⟩ := execArith_rows (m := m) ⟨v.ty, v.cells.map fun x => (x, false)⟩
      ⟨.i64, [(asI64 c, false)]⟩ (v.cells.map fun x => (x, asI64 c))
      (by simp only [pairRows_right, map_map]; rfl) (by
        intro p hp
        obtain ⟨x, hx, rfl⟩ := mem_map.mp hp
        obtain ⟨hz, hread⟩ := h x hx
        refine kernel_right hout hne x (asI64 c) (hcell x) hlit hz ?_
        refine hread.imp_left fun hloop => ⟨hloop.2.2.1.symm, decide_eq_false ?_, rfl, ?_⟩
        · rw [length_map]
          exact hloop.2.1
        · rw [hloop.2.2.1]
          exact hloop.2.2.2) hout
    refine ⟨s, hs, hints, hplain, hcells.trans ?_⟩
    simp only [map_map]
    rfl

lemma tag_of_intFamily {t : ElemType} (h : IntFamily t) (hb : t ≠ .bool) : (tag t).isSome = true := by
  cases t with
  | u8 | i16 | i32 | i64 => rfl
  | bool => exact absurd rfl hb
  | date | time | timestamp => cases h.1
  | f64 => exact absurd rfl h.2

lemma makeTypedInt_ty {t : ElemType} (ht : (tag t).isSome = true) (z : Int64) : (makeTypedInt t z).ty = t := by
  cases t <;> first | rfl | cases ht

lemma rayAddFn_ok {a b : Atom} (ha : IntFamily a.ty) (hb : IntFamily b.ty) : ∃ e, rayAddFn a b = .ok e := by
  rw [rayAddFn, ha.1, hb.1]
  dsimp only
  split_ifs
  · exact ⟨_, rfl⟩
  · exact ⟨_, rfl⟩
  · exact ⟨_, rfl⟩

lemma addElem_ok {a : Atom} (left : Bool) (ha : IntFamily a.ty) (hc : IntFamily c.ty) :
    ∃ e, addElem c left a = .ok e := by
  cases left
  · exact rayAddFn_ok ha hc
  · exact rayAddFn_ok hc ha

lemma atomicMapBinaryOp_moved (ht : IntFamily v.ty) (hc : IntFamily c.ty) (hn : v.hasNulls = false)
    (hnc : c.isNull = false)
    (h : ∀ x ∈ v.cells, Exact v c left x) : ∃ r, atomicMapBinaryOp m v c left = .ok r ∧ Moved v c r := by
  rw [atomicMapBinaryOp]
  split
  next hcells =>
    rw [addElem_int ht hc _ (zeroCell_isSentinel _) hnc]
    refine ⟨_, rfl, ?_, rfl, ?_⟩
    · rw [makeTypedInt_ty (promoteIntType_tag _ _)]
      exact intFamily_of_tag (promoteIntType_tag _ _)
    · rw [hcells]
      rfl
  next x xs hcells =>
    have hx : x ∈ v.cells := by
      rw [hcells]
      exact mem_cons_self
    have hfirst : collectionElem v x = atomOf v.ty x := by
      rw [collectionElem, hn]
      rfl
    rw [hfirst]
    by_cases hdag : canDag v.ty c = true
    · have hb : v.ty ≠ .bool ∧ c.ty ≠ .bool := by
        simp only [canDag, Bool.and_eq_true, decide_eq_true_eq] at hdag
        exact ⟨hdag.1.1.2, hdag.1.2⟩
      have hatom : IntFamily (atomOf v.ty x).ty := by rwa [atomOf_ty]
      obtain ⟨e0, he0⟩ := addElem_ok left hatom hc
      simp only [Exact, if_pos hdag] at h
      obtain ⟨r, hr, hm⟩ := dagAdd_moved (m := m) (tag_of_intFamily ht hb.1) (tag_of_intFamily hc hb.2) hn h
      rw [he0]
      dsimp only
      rw [if_pos hdag, hr]
      exact ⟨r, rfl, hm⟩
    · simp only [Exact, if_neg hdag] at h
      obtain ⟨hsent, hfit, -⟩ := h x hx
      obtain ⟨hty, -, hnull⟩ := makeTypedInt_spec (promoteIntType_tag _ _) hfit
      obtain ⟨r, hr, hm⟩ := slowAdd_moved ht hc hn hnc h
      rw [addElem_int ht hc x hsent hnc]
      dsimp only
      rw [if_neg hdag, outType_eq hnull hty, slowOr, hr]
      exact ⟨r, rfl, hm⟩

end

section

variable {m : Libm} {v : Vec} {c : Atom} {left : Bool} {floatSum : List Double → Double}

lemma addElem_point {a : Atom} (left : Bool) (ha : a.ty = .date ∨ a.ty = .timestamp) (hc : IntFamily c.ty) :
    ∃ e, addElem c left a = .ok e ∧ e.ty = a.ty := by
  have hmoved : (moved a (asI64 c)).ty = a.ty := by cases a <;> rfl
  have hnull : (rayTypedNull a.ty).ty = a.ty := by cases a <;> rfl
  have ht : a.ty.numeric = false := by
    obtain h | h := ha <;> rw [h] <;> rfl
  have hor : ∀ b : Bool, ∃ e, nullOr b a.ty (moved a (asI64 c)) = .ok e ∧ e.ty = a.ty := by
    intro b
    cases b
    · exact ⟨_, rfl, hmoved⟩
    · exact ⟨_, rfl, hnull⟩
  cases left
  · change ∃ e, rayAddFn a c = .ok e ∧ e.ty = a.ty
    rw [rayAddFn, ht, hc.1]
    dsimp only
    rw [if_neg hc.2]
    exact hor _
  · change ∃ e, rayAddFn c a = .ok e ∧ e.ty = a.ty
    rw [rayAddFn, ht, hc.1]
    dsimp only
    rw [if_neg hc.2]
    exact hor _

lemma collectionElem_ty (x : v.ty.Cell) : (collectionElem v x).ty = v.ty := by
  rw [collectionElem]
  split
  · generalize v.ty = t
    cases t <;> rfl
  · exact atomOf_ty _ _

lemma atomicMapBinaryOp_point (left : Bool) (ht : v.ty = .date ∨ v.ty = .timestamp) (hc : IntFamily c.ty) :
    ∃ r, atomicMapBinaryOp m v c left = .ok r ∧ r.ty = v.ty := by
  have hpoint : ∀ x : v.ty.Cell, ∃ e, addElem c left (collectionElem v x) = .ok e ∧ e.ty = v.ty := by
    intro x
    obtain ⟨e, he, hty⟩ := addElem_point left (a := collectionElem v x) (by rwa [collectionElem_ty]) hc
    exact ⟨e, he, hty.trans (collectionElem_ty x)⟩
  rw [atomicMapBinaryOp]
  split
  next =>
    obtain ⟨e, he, hty⟩ := addElem_point left (a := atomOf v.ty (zeroCell v.ty)) (by rwa [atomOf_ty]) hc
    rw [he]
    exact ⟨_, rfl, hty.trans (atomOf_ty _ _)⟩
  next x xs hcells =>
    obtain ⟨e0, he0, hty⟩ := hpoint x
    have hdag : canDag v.ty c = false := by
      rw [canDag]
      obtain h | h := ht <;> rw [h] <;> rfl
    have hout : outType e0 v.ty c.ty left = v.ty := by
      rw [outType, hty]
      obtain h | h := ht <;> rw [h] <;> cases left <;> simp [tag]
    choose f hf using hpoint
    have hslow : slowAdd v c left v.ty = .ok ⟨v.ty, (v.cells.map f).map fun a => (storeTypedElem v.ty a).1,
        (v.cells.map f).any fun a => (storeTypedElem v.ty a).2⟩ := by
      rw [slowAdd, mapM_ok fun x _ => (hf x).1]
      rfl
    rw [he0]
    dsimp only
    rw [hdag, hout, slowOr, hslow]
    exact ⟨_, rfl, rfl⟩

lemma raySumFn_point (ht : v.ty = .date ∨ v.ty = .timestamp) : raySumFn floatSum v = .error (sumRefused v.ty) := by
  obtain ⟨t, cells, b⟩ := v
  dsimp only at ht
  obtain rfl | rfl := ht <;> rfl

end

lemma sound_agrees {F : Type} (K : Kernels F) {o : VecObj F} {c : Atom} {left : Bool} (h : Sound o c left) :
    o.addThenSum K c left = ((o.sum K).map fun sum => affineResult (totalOf sum) c (o.len K)).mapError .error := by
  obtain ⟨vec, data, attrs, hasNulls, v | x⟩ := o
  · obtain ⟨hnulls, hc, hv⟩ := h
    dsimp only at hnulls hv
    subst hnulls
    rw [VecObj.addThenSum, VecObj.sum, VecObj.len]
    dsimp only
    rw [← or_assoc] at hv
    obtain ht | ⟨hn, hnc, ht, hex⟩ := hv
    · obtain ⟨r, hr, hrt⟩ := atomicMapBinaryOp_point (m := K.libm) left ht hc
      rw [hr, Except.bind, raySumFn_point (by rwa [hrt]), hrt,
        raySumFn_point (v := ⟨v.ty, v.cells, false⟩) ht]
      rfl
    · obtain ⟨r, hr, hm⟩ := atomicMapBinaryOp_moved (m := K.libm) ht hc hn hnc hex
      rw [hr, Except.bind, hm.sum, raySumFn_int (v := ⟨v.ty, v.cells, false⟩) ht rfl]
      exact congrArg Except.ok (if_neg hc.2).symm
  · exact h.2.2.elim

end Rayforce.Affine
