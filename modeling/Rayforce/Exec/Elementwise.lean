import Rayforce.Library.Binary64

namespace Rayforce.Exec

open Library.Binary64

inductive ElemType
  | bool | u8 | i16 | i32 | i64 | date | time | timestamp | f64
  deriving DecidableEq, Repr

namespace ElemType

@[reducible] def Cell : ElemType → Type
  | bool | u8 => UInt8
  | i16 => Int16
  | i32 | date | time => Int32
  | i64 | timestamp => Int64
  | f64 => Double

instance instDecidableEqCell : (t : ElemType) → DecidableEq t.Cell
  | bool | u8 => inferInstanceAs (DecidableEq UInt8)
  | i16 => inferInstanceAs (DecidableEq Int16)
  | i32 | date | time => inferInstanceAs (DecidableEq Int32)
  | i64 | timestamp => inferInstanceAs (DecidableEq Int64)
  | f64 => inferInstanceAs (DecidableEq Double)

def nullCell : (t : ElemType) → Option t.Cell
  | bool | u8 => none
  | i16 => some Int16.minValue
  | i32 | date | time => some Int32.minValue
  | i64 | timestamp => some Int64.minValue
  | f64 => some Double.nan

def isSentinel (t : ElemType) (c : t.Cell) : Bool := t.nullCell = some c

def toInt64 : (t : ElemType) → t.Cell → Int64
  | bool, (c : UInt8) | u8, (c : UInt8) => c.toUInt64.toInt64
  | i16, (c : Int16) => c.toInt64
  | i32, (c : Int32) | date, (c : Int32) | time, (c : Int32) => c.toInt64
  | i64, (c : Int64) | timestamp, (c : Int64) => c
  | f64, _ => 0

def toDouble (t : ElemType) (c : t.Cell) : Double :=
  match t, c with
  | f64, (c : Double) => c
  | t, c => Double.ofInt (t.toInt64 c).toInt

end ElemType

structure Vec where
  ty : ElemType
  cells : List ty.Cell
  hasNulls : Bool
  deriving DecidableEq

/-- `aux` is the null bit that only the byte types use. -/
inductive Atom
  | bool (v : UInt8) (aux : Bool)
  | u8 (v : UInt8) (aux : Bool)
  | i16 (v : Int16)
  | i32 (v : Int32)
  | i64 (v : Int64)
  | date (v : Int32)
  | time (v : Int32)
  | timestamp (v : Int64)
  | f64 (v : Double)
  deriving DecidableEq

namespace Atom

@[reducible] def ty : Atom → ElemType
  | bool .. => .bool
  | u8 .. => .u8
  | i16 _ => .i16
  | i32 _ => .i32
  | i64 _ => .i64
  | date _ => .date
  | time _ => .time
  | timestamp _ => .timestamp
  | f64 _ => .f64

def cell : (a : Atom) → a.ty.Cell
  | bool v _ => v
  | u8 v _ => v
  | i16 v => v
  | i32 v => v
  | i64 v => v
  | date v => v
  | time v => v
  | timestamp v => v
  | f64 v => v

def isNull : Atom → Bool
  | bool _ aux => aux
  | u8 _ aux => aux
  | a => a.ty.isSentinel a.cell

end Atom

inductive Value
  | atom (a : Atom)
  | vec (v : Vec)
  deriving DecidableEq

structure View where
  ty : ElemType
  rows : List (ty.Cell × Bool)

namespace View

def scalar (v : View) : Bool := v.rows.length = 1

end View

def Vec.view (v : Vec) : View := ⟨v.ty, v.cells.map fun c => (c, v.hasNulls && v.ty.isSentinel c)⟩

def Atom.view (a : Atom) : View := ⟨a.ty, [(a.cell, a.isNull)]⟩

def Value.view : Value → View
  | .atom a => a.view
  | .vec v => v.view

end Rayforce.Exec

/-! The executor of element-wise expressions. -/

namespace Rayforce.Exec

open Library.Binary64

inductive ArithOp
  | add | sub | mul | div | idiv | mod | pow | min2 | max2
  deriving DecidableEq, Repr

inductive CmpOp
  | eq | ne | lt | le | gt | ge
  deriving DecidableEq, Repr

inductive LogicOp
  | and | or
  deriving DecidableEq, Repr

inductive BinOp
  | arith (op : ArithOp) (out : ElemType)
  | cmp (op : CmpOp)
  | logic (op : LogicOp)
  deriving DecidableEq, Repr

inductive UnOp
  | neg | abs | not | sqrt | log | exp | ceil | floor | round | isnull | cast
  | sin | asin | cos | acos | tan | atan | reciprocal | signum
  deriving DecidableEq, Repr

inductive Failure
  | type | length | missing | unspecified
  deriving DecidableEq, Repr

structure Libm where
  pow : Double → Double → Double
  sqrt : Double → Double
  log : Double → Double
  exp : Double → Double
  sin : Double → Double
  asin : Double → Double
  cos : Double → Double
  acos : Double → Double
  tan : Double → Double
  atan : Double → Double

def castInt (lo hi : ℤ) (d : Double) : Option ℤ := d.trunc.filter fun z => lo ≤ z ∧ z ≤ hi

def castI64 (d : Double) : Option Int64 := (castInt (-2 ^ 63) (2 ^ 63 - 1) d).map Int64.ofInt
def castI32 (d : Double) : Option Int32 := (castInt (-2 ^ 31) (2 ^ 31 - 1) d).map Int32.ofInt
def castI16 (d : Double) : Option Int16 := (castInt (-2 ^ 15) (2 ^ 15 - 1) d).map Int16.ofInt
def castU8 (d : Double) : Option UInt8 := (castInt 0 255 d).map UInt8.ofInt

def rayCastF64 {α : Type} (null lo hi : α) (bottom top : ℤ) (cast : Double → Option α) (d : Double) : Option α :=
  if d.isNaN then some null
  else if (Double.ofInt top).le d then some hi
  else if d.le (Double.ofInt bottom) then some lo
  else cast d

def rayCastF64ToI64Null : Double → Option Int64 :=
  rayCastF64 Int64.minValue (Int64.minValue + 1) Int64.maxValue (-2 ^ 63) (2 ^ 63 - 1) castI64
def rayCastF64ToI32Null : Double → Option Int32 :=
  rayCastF64 Int32.minValue (Int32.minValue + 1) Int32.maxValue (-2 ^ 31) (2 ^ 31 - 1) castI32
def rayCastF64ToI16Null : Double → Option Int16 :=
  rayCastF64 Int16.minValue (Int16.minValue + 1) Int16.maxValue (-2 ^ 15) (2 ^ 15 - 1) castI16
def rayCastF64ToU8Null : Double → Option UInt8 := rayCastF64 0 0 255 0 255 castU8
def rayCastF64ToBoolNull (d : Double) : UInt8 := if !d.isNaN && !d.eq Double.zero then 1 else 0

def rayF64Fin : Double → Double
  | .fin q => .fin q
  | _ => .nan

def truthy (d : Double) : Bool := !d.eq Double.zero

def boolCell (b : Bool) : UInt8 := if b then 1 else 0

section

variable (m : Libm)

def modF64 (lv rv : Double) : Double :=
  let r := lv.fmod rv
  if truthy r && (Double.zero.lt r != Double.zero.lt rv) then r.add rv else r

def arithF64 (op : ArithOp) (lv rv : Double) : Double :=
  match op with
  | .add => rayF64Fin (lv.add rv)
  | .sub => rayF64Fin (lv.sub rv)
  | .mul => rayF64Fin (lv.mul rv)
  | .div => if truthy rv then rayF64Fin (lv.div rv) else .nan
  | .idiv => if truthy rv then rayF64Fin (lv.div rv).floor else .nan
  | .mod => if truthy rv then rayF64Fin (modF64 lv rv) else .nan
  | .pow => if lv.isNaN || rv.isNaN then .nan else rayF64Fin (m.pow lv rv)
  | .min2 => if lv.lt rv then lv else rv
  | .max2 => if rv.lt lv then lv else rv

def divI64 (li ri : Int64) : Int64 :=
  if ri = 0 ∨ (ri = -1 ∧ li = Int64.minValue) then 0
  else if (li ^^^ ri) < 0 ∧ li / ri * ri ≠ li then li / ri - 1 else li / ri

def modI64 (li ri : Int64) : Int64 :=
  if ri = 0 ∨ (ri = -1 ∧ li = Int64.minValue) then 0
  else if li % ri ≠ 0 ∧ (li % ri ^^^ ri) < 0 then li % ri + ri else li % ri

def modI32 (li ri : Int32) : Int32 :=
  if ri = 0 ∨ (ri = -1 ∧ li = Int32.minValue) then 0
  else if li % ri ≠ 0 ∧ (li % ri ^^^ ri) < 0 then li % ri + ri else li % ri

def arithI64 (op : ArithOp) (lv rv : Double) : Option Int64 :=
  match op with
  | .add => do return (← castI64 lv) + (← castI64 rv)
  | .sub => do return (← castI64 lv) - (← castI64 rv)
  | .mul => do return (← castI64 lv) * (← castI64 rv)
  | .div => do return divI64 (← castI64 lv) (← castI64 rv)
  | .idiv => if truthy rv then rayCastF64ToI64Null (lv.div rv).floor else some 0
  | .mod => do return modI64 (← castI64 lv) (← castI64 rv)
  | .pow => some 0
  | .min2 => do
    let li ← castI64 lv
    let ri ← castI64 rv
    return if li < ri then li else ri
  | .max2 => do
    let li ← castI64 lv
    let ri ← castI64 rv
    return if ri < li then li else ri

def arithI32 (op : ArithOp) (lv rv : Double) : Option Int32 :=
  match op with
  | .add => do return (← castI32 lv) + (← castI32 rv)
  | .sub => do return (← castI32 lv) - (← castI32 rv)
  | .mul => do return (← castI32 lv) * (← castI32 rv)
  | .idiv => if truthy rv then rayCastF64ToI32Null (lv.div rv).floor else some 0
  | .mod => do return modI32 (← castI32 lv) (← castI32 rv)
  | .div | .pow => some 0
  | .min2 => do
    let li ← castI32 lv
    let ri ← castI32 rv
    return if li < ri then li else ri
  | .max2 => do
    let li ← castI32 lv
    let ri ← castI32 rv
    return if ri < li then li else ri

def arithI16 (op : ArithOp) (lv rv : Double) : Option Int16 :=
  match op with
  | .add => do return (← castI16 lv) + (← castI16 rv)
  | .sub => do return (← castI16 lv) - (← castI16 rv)
  | .mul => do return (← castI16 lv) * (← castI16 rv)
  | .idiv => if truthy rv then rayCastF64ToI16Null (lv.div rv).floor else some 0
  | .mod => do
    let li ← castI16 lv
    let ri ← castI16 rv
    return if ri ≠ 0 then li % ri else 0
  | .div | .pow => some 0
  | .min2 => do
    let li ← castI16 lv
    let ri ← castI16 rv
    return if li < ri then li else ri
  | .max2 => do
    let li ← castI16 lv
    let ri ← castI16 rv
    return if ri < li then li else ri

def arithU8 (op : ArithOp) (lv rv : Double) : Option UInt8 :=
  match op with
  | .add => do return (← castU8 lv) + (← castU8 rv)
  | .sub => do return (← castU8 lv) - (← castU8 rv)
  | .mul => do return (← castU8 lv) * (← castU8 rv)
  | .idiv => if truthy rv then rayCastF64ToU8Null (lv.div rv).floor else some 0
  | .mod => do
    let li ← castU8 lv
    let ri ← castU8 rv
    return if ri ≠ 0 then li % ri else 0
  | .div | .pow => some 0
  | .min2 => do
    let li ← castU8 lv
    let ri ← castU8 rv
    return if li < ri then li else ri
  | .max2 => do
    let li ← castU8 lv
    let ri ← castU8 rv
    return if ri < li then li else ri

def arithCell (op : ArithOp) (lv rv : Double) : (out : ElemType) → Option out.Cell
  | .f64 => some (arithF64 m op lv rv)
  | .i64 | .timestamp => arithI64 op lv rv
  | .i32 | .date | .time => arithI32 op lv rv
  | .i16 => arithI16 op lv rv
  | .u8 => arithU8 op lv rv
  | .bool => some (0 : UInt8)

def cmpInt (op : CmpOp) (li ri : Int64) : Bool :=
  match op with
  | .eq => li = ri
  | .ne => li ≠ ri
  | .lt => li < ri
  | .le => li ≤ ri
  | .gt => ri < li
  | .ge => ri ≤ li

def cmpNull (op : CmpOp) (ln rn : Bool) : Bool :=
  match op with
  | .eq => ln && rn
  | .ne => !(ln && rn)
  | .lt => ln && !rn
  | .le => ln
  | .gt => rn && !ln
  | .ge => rn

def cmpDouble (op : CmpOp) (lv rv : Double) : Bool :=
  match op with
  | .eq => lv.eq rv
  | .ne => !lv.eq rv
  | .lt => lv.lt rv
  | .le => lv.le rv
  | .gt => rv.lt lv
  | .ge => rv.le lv

def cmpCell (op : CmpOp) (ints : Bool) (lv rv : Double) : Option Bool :=
  if ints then do return cmpInt op (← castI64 lv) (← castI64 rv)
  else if lv.isNaN || rv.isNaN then some (cmpNull op lv.isNaN rv.isNaN)
  else some (cmpDouble op lv rv)

def LogicOp.apply (op : LogicOp) (l r : Bool) : Bool :=
  match op with
  | .and => l && r
  | .or => l || r

def logicCell (op : LogicOp) (ints : Bool) (lv rv : Double) : Bool :=
  op.apply (if ints then truthy lv else !lv.isNaN && truthy lv)
    (if ints then truthy rv else !rv.isNaN && truthy rv)

def fastArith (op : ArithOp) (cv : Int64) : (t : ElemType) → t.Cell → Option t.Cell
  | .i64, (d : Int64) | .timestamp, (d : Int64) =>
    match op with
    | .add => some (d + cv)
    | .sub => some (d - cv)
    | .mul => some (d * cv)
    | .min2 => some (if d < cv then d else cv)
    | .max2 => some (if cv < d then d else cv)
    | _ => none
  | .i32, (d : Int32) | .date, (d : Int32) | .time, (d : Int32) =>
    match op with
    | .add => some (d + cv.toInt32)
    | .sub => some (d - cv.toInt32)
    | .mul => some (d * cv.toInt32)
    | .min2 => some (if d < cv.toInt32 then d else cv.toInt32)
    | .max2 => some (if cv.toInt32 < d then d else cv.toInt32)
    | _ => none
  | .i16, (d : Int16) =>
    match op with
    | .add => some (d + cv.toInt16)
    | .sub => some (d - cv.toInt16)
    | .mul => some (d * cv.toInt16)
    | .min2 => some (if d < cv.toInt16 then d else cv.toInt16)
    | .max2 => some (if cv.toInt16 < d then d else cv.toInt16)
    | _ => none
  | _, _ => none

def wrapTo (t : ElemType) (cv : Int64) : Int64 :=
  match t with
  | .bool | .u8 => cv.toUInt64.toUInt8.toUInt64.toInt64
  | .i16 => cv.toInt16.toInt64
  | .i32 | .date | .time => cv.toInt32.toInt64
  | .i64 | .timestamp | .f64 => cv

end

def ArithOp.divides (op : ArithOp) : Bool := op = .div ∨ op = .idiv ∨ op = .mod

def ElemType.isInt (t : ElemType) : Bool := t ≠ .f64

def ElemType.numeric (t : ElemType) : Bool :=
  match t with
  | .bool | .u8 | .i16 | .i32 | .i64 | .f64 => true
  | .date | .time | .timestamp => false

def ElemType.wide (t : ElemType) : Bool :=
  match t with
  | .i64 | .timestamp | .i32 | .date | .time => true
  | _ => false

def isZero (t : ElemType) (c : t.Cell) : Bool :=
  match t, c with
  | .f64, (c : Double) => c.eq Double.zero
  | t, c => t.toInt64 c = 0

def zeroDivisor (op : ArithOp) (r : View) (c : r.ty.Cell) : Bool :=
  op.divides && (r.scalar || r.ty.wide) && isZero r.ty c

def pairRows {α β : Type} : List α → List β → Option (List (α × β))
  | [a], rs => some (rs.map fun b => (a, b))
  | ls, [b] => some (ls.map fun a => (a, b))
  | ls, rs => if ls.length = rs.length then some (ls.zip rs) else none

section

variable (m : Libm) (l r : View)

def arithKernel (op : ArithOp) (out : ElemType) (x : l.ty.Cell) (y : r.ty.Cell) : Option out.Cell :=
  let generic := arithCell m op (l.ty.toDouble x) (r.ty.toDouble y) out
  if h : l.ty = out then
    if !l.scalar && r.scalar then (fastArith op (r.ty.toInt64 y) out (h ▸ x)).orElse fun _ => generic else generic
  else generic

def nullified (out : ElemType) (null : Bool) (cell : Option out.Cell) : Option out.Cell :=
  if null then out.nullCell.orElse fun _ => cell else cell

def arithNull (op : ArithOp) (p : (l.ty.Cell × Bool) × (r.ty.Cell × Bool)) : Bool :=
  p.1.2 || p.2.2 || zeroDivisor op r p.2.1

def arithRow (op : ArithOp) (out : ElemType) (p : (l.ty.Cell × Bool) × (r.ty.Cell × Bool)) : Option out.Cell :=
  nullified out (arithNull l r op p) (arithKernel m l r op out p.1.1 p.2.1)

def ArithOp.scansNaN (op : ArithOp) : Bool := op ≠ .min2 ∧ op ≠ .max2

def anyNaN (t : ElemType) (cells : List t.Cell) : Bool := t = .f64 && cells.any fun c => t.isSentinel c

def execArith (op : ArithOp) (out : ElemType) : Except Failure Vec :=
  match pairRows l.rows r.rows with
  | none => .error .length
  | some ps =>
    if op = .pow ∧ ¬ (l.ty.numeric ∧ r.ty.numeric) then .error .type
    else match ps.mapM (arithRow m l r op out) with
      | none => .error .unspecified
      | some cells => .ok ⟨out, cells, ps.any (arithNull l r op) || op.scansNaN && anyNaN out cells⟩

def cmpKernel (op : CmpOp) (x : l.ty.Cell) (y : r.ty.Cell) : Option Bool :=
  if !l.scalar && r.scalar && l.ty.isInt then
    some (cmpInt op (l.ty.toInt64 x) (wrapTo l.ty (r.ty.toInt64 y)))
  else cmpCell op (l.ty.isInt && r.ty.isInt) (l.ty.toDouble x) (r.ty.toDouble y)

def cmpRow (op : CmpOp) (p : (l.ty.Cell × Bool) × (r.ty.Cell × Bool)) : Option UInt8 :=
  if p.1.2 || p.2.2 then some (boolCell (cmpNull op p.1.2 p.2.2))
  else (cmpKernel l r op p.1.1 p.2.1).map boolCell

def logicRow (op : LogicOp) (p : (l.ty.Cell × Bool) × (r.ty.Cell × Bool)) : UInt8 :=
  if p.1.2 || p.2.2 then 0
  else boolCell (logicCell op (l.ty.isInt && r.ty.isInt) (l.ty.toDouble p.1.1) (r.ty.toDouble p.2.1))

def execCmp (op : CmpOp) : Except Failure Vec :=
  match pairRows l.rows r.rows with
  | none => .error .length
  | some ps => match ps.mapM (cmpRow l r op) with
    | none => .error .unspecified
    | some cells => .ok ⟨.bool, cells, false⟩

def execLogic (op : LogicOp) : Except Failure Vec :=
  match pairRows l.rows r.rows with
  | none => .error .length
  | some ps => .ok ⟨.bool, ps.map (logicRow l r op), false⟩

def execElementwiseBinary : BinOp → Except Failure Vec
  | .arith op out => execArith m l r op out
  | .cmp op => execCmp l r op
  | .logic op => execLogic l r op

end

section

variable (m : Libm)

def UnOp.isF64Math (op : UnOp) : Bool :=
  match op with
  | .sqrt | .log | .exp | .sin | .asin | .cos | .acos | .tan | .atan | .reciprocal => true
  | _ => false

def Libm.apply (op : UnOp) (d : Double) : Double :=
  match op with
  | .sqrt => m.sqrt d
  | .log => m.log d
  | .exp => m.exp d
  | .sin => m.sin d
  | .asin => m.asin d
  | .cos => m.cos d
  | .acos => m.acos d
  | .tan => m.tan d
  | .atan => m.atan d
  | _ => d

def reciprocal (d : Double) : Double := if truthy d then rayF64Fin (Double.one.div d) else .nan

def signumDouble (d : Double) : Int64 := if Double.zero.lt d then 1 else if d.lt Double.zero then -1 else 0

def signumI64 (v : Int64) : Int64 := if 0 < v then 1 else if v < 0 then -1 else 0

def unaryF64 (op : UnOp) (v : Double) : Double :=
  match op with
  | .neg => v.neg
  | .abs => v.abs
  | .sqrt | .log | .exp | .sin | .asin | .cos | .acos | .tan | .atan => rayF64Fin (m.apply op v)
  | .reciprocal => reciprocal v
  | .ceil => v.ceil
  | .floor => v.floor
  | .round => v.roundAway
  | _ => v

def unaryF64ToI64 (op : UnOp) (v : Double) : Option Int64 :=
  match op with
  | .neg => castI64 v.neg
  | .abs => castI64 v.abs
  | .sqrt | .log | .exp => castI64 (m.apply op v)
  | .signum => some (signumDouble v)
  | .ceil => castI64 v.ceil
  | .floor => castI64 v.floor
  | .round => castI64 v.roundAway
  | _ => rayCastF64ToI64Null v

def unaryI64 (op : UnOp) (v : Int64) : Int64 :=
  match op with
  | .neg => -v
  | .abs => if v < 0 then -v else v
  | .signum => signumI64 v
  | _ => v

def unaryI64ToF64 (op : UnOp) (v : Int64) : Double :=
  let d := Double.ofInt v.toInt
  match op with
  | .neg => d.neg
  | .sqrt | .log | .exp | .sin | .asin | .cos | .acos | .tan | .atan => rayF64Fin (m.apply op d)
  | .reciprocal => if v ≠ 0 then rayF64Fin (Double.one.div d) else .nan
  | _ => d

def unaryNarrowToF64 (op : UnOp) (d : Double) : Double :=
  match op with
  | .sin | .asin | .cos | .acos | .tan | .atan => rayF64Fin (m.apply op d)
  | .reciprocal => reciprocal d
  | _ => d

def unaryCell (op : UnOp) : (t out : ElemType) → t.Cell → Option out.Cell
  | .f64, .f64, (c : Double) => some (unaryF64 m op c)
  | .f64, .i64, (c : Double) => unaryF64ToI64 m op c
  | .i64, .i64, (c : Int64) => some (unaryI64 op c)
  | .i64, .f64, (c : Int64) => some (unaryI64ToF64 m op c)
  | .i32, .f64, c => some (unaryNarrowToF64 m op (ElemType.toDouble .i32 c))
  | .i16, .f64, c => some (unaryNarrowToF64 m op (ElemType.toDouble .i16 c))
  | .u8, .f64, c => some (unaryNarrowToF64 m op (ElemType.toDouble .u8 c))
  | .bool, .f64, c => some (unaryNarrowToF64 m op (ElemType.toDouble .bool c))
  | .i32, .i64, c => integral op .i32 c
  | .i16, .i64, c => integral op .i16 c
  | .u8, .i64, c => integral op .u8 c
  | .bool, .i64, c => if op = .not then none else integral op .bool c
  | .date, .i64, c => if op = .cast then some (ElemType.toInt64 .date c) else none
  | .time, .i64, c => if op = .cast then some (ElemType.toInt64 .time c) else none
  | .date, .f64, c => if op = .cast then some (ElemType.toDouble .date c) else none
  | .time, .f64, c => if op = .cast then some (ElemType.toDouble .time c) else none
  | .i64, .bool, (c : Int64) =>
    if op = .isnull then some (0 : UInt8)
    else if op = .cast then some (boolCell (c ≠ 0 ∧ c ≠ Int64.minValue)) else none
  | .bool, .bool, (c : UInt8) => if op = .not then some (boolCell (c = 0)) else none
  | .bool, .u8, (c : UInt8) => if op = .not then some (boolCell (c = 0)) else none
  | .i64, .i32, (c : Int64) => if op = .cast then some c.toInt32 else none
  | .i64, .i16, (c : Int64) => if op = .cast then some c.toInt16 else none
  | .i64, .u8, (c : Int64) => if op = .cast then some c.toUInt64.toUInt8 else none
  | .f64, .i32, (c : Double) => if op = .cast then rayCastF64ToI32Null c else none
  | .f64, .i16, (c : Double) => if op = .cast then rayCastF64ToI16Null c else none
  | .f64, .u8, (c : Double) => if op = .cast then rayCastF64ToU8Null c else none
  | .f64, .bool, (c : Double) => if op = .cast then some (rayCastF64ToBoolNull c) else none
  | _, _, _ => none
where
  integral (op : UnOp) (t : ElemType) (c : t.Cell) : Option Int64 :=
    if op = .signum then some (signumI64 (t.toInt64 c))
    else if op = .cast then some (t.toInt64 c) else none

def mathAdmitted (op : UnOp) (t : ElemType) : Bool := !(op = .signum || op.isF64Math) || t.numeric

def isnullCell : (out : ElemType) → Option out.Cell
  | .bool | .u8 => some (1 : UInt8)
  | _ => none

def unaryRow (op : UnOp) (t out : ElemType) (p : t.Cell × Bool) : Option out.Cell :=
  if p.2 && op = .isnull then isnullCell out else nullified out p.2 (unaryCell m op t out p.1)

def overflowed (op : UnOp) (t out : ElemType) (cells : List out.Cell) : Bool :=
  t = .i64 && out = .i64 && (op = .neg || op = .abs) && cells.any fun c => out.isSentinel c

def execUnaryView (op : UnOp) (out : ElemType) (v : View) : Except Failure Vec :=
  if mathAdmitted op v.ty then
    match v.rows.mapM (unaryRow m op v.ty out) with
    | none => .error .unspecified
    | some cells =>
      .ok ⟨out, cells, op ≠ .isnull && v.rows.any (·.2) || overflowed op v.ty out cells ||
        op.isF64Math && anyNaN out cells⟩
  else .error .type

def execElementwiseUnary (op : UnOp) (out : ElemType) : Value → Except Failure Vec
  | .atom _ => .error .type
  | .vec v => execUnaryView m op out v.view

end

end Rayforce.Exec
