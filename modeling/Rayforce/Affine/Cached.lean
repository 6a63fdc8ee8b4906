import Rayforce.Expr.Kernels
import Rayforce.Library.Memo

namespace Rayforce.Affine

open Rayforce.Exec Rayforce.Expr Library.Binary64

structure Err where
  code : String
  message : String
  deriving DecidableEq

inductive Fault
  | error (e : Err)
  | unspecified
  deriving DecidableEq

def typeName (t : ElemType) (atom : Bool) : String :=
  match t with
  | .bool => if atom then "b8" else "B8"
  | .u8 => if atom then "u8" else "U8"
  | .i16 => if atom then "i16" else "I16"
  | .i32 => if atom then "i32" else "I32"
  | .i64 => if atom then "i64" else "I64"
  | .f64 => if atom then "f64" else "F64"
  | .date => if atom then "date" else "DATE"
  | .time => if atom then "time" else "TIME"
  | .timestamp => if atom then "timestamp" else "TIMESTAMP"

def asI64 (a : Atom) : Int64 := a.ty.toInt64 a.cell

def asF64 (a : Atom) : Double := a.ty.toDouble a.cell

def rayTypedNull : ElemType → Atom
  | .bool => .bool 0 true
  | .u8 => .u8 0 true
  | .i16 => .i16 Int16.minValue
  | .i32 => .i32 Int32.minValue
  | .i64 => .i64 Int64.minValue
  | .date => .date Int32.minValue
  | .time => .time Int32.minValue
  | .timestamp => .timestamp Int64.minValue
  | .f64 => .f64 .nan

def nullForPromoted (a b : ElemType) : Atom :=
  if a = .f64 ∨ b = .f64 then rayTypedNull .f64
  else if a = .i64 ∨ b = .i64 then rayTypedNull .i64
  else if a = .i32 ∨ b = .i32 then rayTypedNull .i32
  else if a = .i16 ∨ b = .i16 then rayTypedNull .i16
  else rayTypedNull .i64

def promoteIntType (a b : ElemType) : ElemType :=
  if a = .i64 ∨ b = .i64 then .i64
  else if a = .i32 ∨ b = .i32 then .i32
  else if a = .u8 ∨ b = .u8 then
    if a = .u8 ∧ b = .u8 then .u8
    else if a = .i16 ∨ b = .i16 then .i16
    else .i64
  else if a = .i16 ∨ b = .i16 then .i16
  else .i64

def makeTypedInt (t : ElemType) (v : Int64) : Atom :=
  match t with
  | .i16 => .i16 v.toInt16
  | .i32 => .i32 v.toInt32
  | .u8 => .u8 v.toUInt64.toUInt8 false
  | _ => .i64 v

def moved (a : Atom) (v : Int64) : Atom :=
  match a with
  | .date d => .date (d + v.toInt32)
  | .time d => .time (d + v.toInt32)
  | .timestamp d => .timestamp (d + v)
  | a => a

def nullOr (null : Bool) (t : ElemType) (a : Atom) : Except Err Atom := .ok (if null then rayTypedNull t else a)

def temporalOffsets (a b : Atom) : Err :=
  ⟨"type", "add: temporal arithmetic requires integer offsets, got " ++ typeName a.ty true ++ " and " ++
    typeName b.ty true⟩

def cannotAdd (a b : Atom) : Err := ⟨"type", "cannot add " ++ typeName a.ty true ++ " and " ++ typeName b.ty true⟩

def addTemporal (a b : Atom) (null : Bool) : Except Err Atom :=
  match a, b with
  | .date _, .time _ => nullOr null .timestamp (.timestamp (asI64 a * 86400000000000 + asI64 b * 1000000))
  | .time _, .date _ => nullOr null .timestamp (.timestamp (asI64 b * 86400000000000 + asI64 a * 1000000))
  | .time x, .time y => nullOr null .time (.time (x + y))
  | .time _, .timestamp y => nullOr null .timestamp (.timestamp (y + asI64 a * 1000000))
  | .timestamp x, .time _ => nullOr null .timestamp (.timestamp (x + asI64 b * 1000000))
  | a, b => .error (cannotAdd a b)

def rayAddFn (a b : Atom) : Except Err Atom :=
  let null := a.isNull || b.isNull
  match a.ty.numeric, b.ty.numeric with
  | false, true => if b.ty = .f64 then .error (temporalOffsets a b) else nullOr null a.ty (moved a (asI64 b))
  | true, false => if a.ty = .f64 then .error (temporalOffsets a b) else nullOr null b.ty (moved b (asI64 a))
  | false, false => addTemporal a b null
  | true, true =>
    if null then .ok (nullForPromoted a.ty b.ty)
    else if a.ty = .f64 ∨ b.ty = .f64 then .ok (.f64 (rayF64Fin ((asF64 a).add (asF64 b))))
    else .ok (makeTypedInt (promoteIntType a.ty b.ty) (asI64 a + asI64 b))

def atomOf : (t : ElemType) → t.Cell → Atom
  | .bool, (c : UInt8) => .bool c false
  | .u8, (c : UInt8) => .u8 c false
  | .i16, (c : Int16) => .i16 c
  | .i32, (c : Int32) => .i32 c
  | .i64, (c : Int64) => .i64 c
  | .date, (c : Int32) => .date c
  | .time, (c : Int32) => .time c
  | .timestamp, (c : Int64) => .timestamp c
  | .f64, (c : Double) => .f64 c

def zeroCell : (t : ElemType) → t.Cell
  | .bool | .u8 => (0 : UInt8)
  | .i16 => (0 : Int16)
  | .i32 | .date | .time => (0 : Int32)
  | .i64 | .timestamp => (0 : Int64)
  | .f64 => Double.zero

def collectionElem (v : Vec) (c : v.ty.Cell) : Atom :=
  if v.hasNulls && v.ty.isSentinel c then rayTypedNull v.ty else atomOf v.ty c

def addElem (c : Atom) (left : Bool) (a : Atom) : Except Err Atom := if left then rayAddFn c a else rayAddFn a c

def tag : ElemType → Option ℕ
  | .u8 => some 2
  | .i16 => some 3
  | .i32 => some 4
  | .i64 => some 5
  | _ => none

def outType (e0 : Atom) (v c : ElemType) (left : Bool) : ElemType :=
  if e0.isNull then e0.ty
  else if left then if (tag e0.ty).isSome ∧ (tag v).isSome then v else e0.ty
  else
    let t := match tag e0.ty, tag v, tag c with
      | some _, some vt, some ct => if ct ≤ vt then v else c
      | _, _, _ => e0.ty
    if t = .i32 ∧ v ≠ .i32 then .i64 else t

def canDag (v : ElemType) (c : Atom) : Bool := v.numeric && v ≠ .bool && c.ty ≠ .bool && !c.isNull

def constView (c : Atom) : View :=
  match c with
  | .f64 d => ⟨.f64, [(d, false)]⟩
  | c => ⟨.i64, [(asI64 c, false)]⟩

def dagAdd (m : Libm) (v : Vec) (c : Atom) (left : Bool) : Except Failure Vec :=
  if left then execElementwiseBinary m (constView c) v.view (.arith .add (promote c.ty v.ty))
  else execElementwiseBinary m v.view (constView c) (.arith .add (promote v.ty c.ty))

def storedCell (a : Atom) : (out : ElemType) → out.Cell
  | .i64 | .timestamp => asI64 a
  | .f64 => asF64 a
  | .i32 | .date | .time => (asI64 a).toInt32
  | .i16 => (asI64 a).toInt16
  | .bool | .u8 => (asI64 a).toUInt64.toUInt8

def storeTypedElem (out : ElemType) (a : Atom) : out.Cell × Bool :=
  if a.isNull then (out.nullCell.getD (zeroCell out), out.nullCell.isSome) else (storedCell a out, false)

def slowAdd (v : Vec) (c : Atom) (left : Bool) (out : ElemType) : Except Err Vec :=
  (v.cells.mapM fun x => addElem c left (collectionElem v x)).map fun sums =>
    ⟨out, sums.map fun a => (storeTypedElem out a).1, sums.any fun a => (storeTypedElem out a).2⟩

def slowOr (v : Vec) (c : Atom) (left : Bool) (out : ElemType) : Except Fault Vec :=
  (slowAdd v c left out).mapError .error

def atomicMapBinaryOp (m : Libm) (v : Vec) (c : Atom) (left : Bool) : Except Fault Vec :=
  match v.cells with
  | [] =>
    match addElem c left (atomOf v.ty (zeroCell v.ty)) with
    | .ok a => .ok ⟨a.ty, [], false⟩
    | .error _ => .ok ⟨.i64, [], false⟩
  | x :: _ =>
    match addElem c left (collectionElem v x) with
    | .error e => .error (.error e)
    | .ok e0 =>
      if canDag v.ty c then
        match dagAdd m v c left with
        | .ok r => .ok r
        | .error .unspecified => .error .unspecified
        | .error _ => slowOr v c left (outType e0 v.ty c.ty left)
      else slowOr v c left (outType e0 v.ty c.ty left)

def kept (v : Vec) : List v.ty.Cell := v.cells.filter fun c => !(v.hasNulls && v.ty.isSentinel c)

def total (v : Vec) : Int64 := ((kept v).map v.ty.toInt64).sum

def sumRefused (t : ElemType) : Err :=
  ⟨"type", "sum expects a numeric or time-duration vector, got " ++ typeName t false⟩

def raySumFn (floatSum : List Double → Double) (v : Vec) : Except Err Atom :=
  match v.ty with
  | .date | .timestamp => .error (sumRefused v.ty)
  | .time => .ok (.time (total v).toInt32)
  | .f64 => .ok (.f64 (rayF64Fin (floatSum ((kept v).map v.ty.toDouble))))
  | _ => .ok (.i64 (total v))

open Rayforce.Exec Rayforce.Library Library.Binary64

/-- The kernels of the two builtins outside the integers. -/
structure Kernels (F : Type) where
  libm : Libm
  floatSum : List Double → Double
  tag : F → ℕ
  len : F → ℕ
  sum : F → Except Err Atom
  add : F → Atom → Bool → Except Fault (Vec ⊕ F)

structure VecObj (F : Type) where
  vec : ℕ
  data : ℕ
  attrs : ℕ
  hasNulls : Bool
  contents : Vec ⊕ F

structure Header where
  vec : ℕ
  data : ℕ
  len : ℕ
  type : ElemType ⊕ ℕ
  attrs : ℕ
  hasNulls : Bool
  deriving DecidableEq

inductive Total
  | int (x : Int64)
  | float (d : Double)
  deriving DecidableEq

def totalOf (sum : Atom) : Total := if sum.ty = .f64 then .float (asF64 sum) else .int (asI64 sum)

variable {F : Type} (K : Kernels F)

namespace VecObj

variable (o : VecObj F)

def len : ℕ :=
  match o.contents with
  | .inl v => v.cells.length
  | .inr x => K.len x

def header : Header where
  vec := o.vec
  data := o.data
  len := o.len K
  type := match o.contents with
    | .inl v => .inl v.ty
    | .inr x => .inr (K.tag x)
  attrs := o.attrs
  hasNulls := o.hasNulls

def sum : Except Err Atom :=
  match o.contents with
  | .inl v => raySumFn K.floatSum ⟨v.ty, v.cells, o.hasNulls⟩
  | .inr x => K.sum x

def total : Option Total := o.sum K |>.toOption.map totalOf

def addThenSum (c : Atom) (left : Bool) : Except Fault Atom :=
  match o.contents with
  | .inl v => (atomicMapBinaryOp K.libm v c left).bind fun r => (raySumFn K.floatSum r).mapError .error
  | .inr x => (K.add x c left).bind fun
    | .inl r => (raySumFn K.floatSum r).mapError .error
    | .inr y => (K.sum y).mapError .error

end VecObj

abbrev AffineSumCacheEntry (F : Type) := Memo.Entry (VecObj F) Header Total

def affineSumCacheN : ℕ := 16

def affineResult (t : Total) (c : Atom) (n : ℕ) : Atom :=
  match t with
  | .float s => .f64 (rayF64Fin (s.add ((asF64 c).mul (Double.ofInt n))))
  | .int s =>
    if c.ty = .f64 then .f64 (rayF64Fin ((Double.ofInt s.toInt).add ((asF64 c).mul (Double.ofInt n))))
    else .i64 (s + asI64 c * Int64.ofNat n)

def sumAffine (cache : List (AffineSumCacheEntry F)) (o : VecObj F) (c : Atom) :
    List (AffineSumCacheEntry F) × Except Err Atom :=
  match Memo.lookup cache (o.header K) with
  | some t => (cache, .ok (affineResult t c (o.len K)))
  | none =>
    match o.sum K with
    | .error e => (cache, .error e)
    | .ok sum =>
      (Memo.store affineSumCacheN cache ⟨o.header K, totalOf sum, o⟩, .ok (affineResult (totalOf sum) c (o.len K)))

end Rayforce.Affine
