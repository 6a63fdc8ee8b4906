import Mathlib

namespace Rayforce.Idiom

abbrev Bytes := List ℕ

inductive ElemType
  | bool | u8 | i16 | i32 | i64 | f32 | f64 | date | time | timestamp | guid | sym | str
  deriving DecidableEq, Repr

namespace ElemType

def code : ElemType → ℕ
  | bool => 1 | u8 => 2 | i16 => 3 | i32 => 4 | i64 => 5 | f32 => 6 | f64 => 7
  | date => 8 | time => 9 | timestamp => 10 | guid => 11 | sym => 12 | str => 13

def ofCode : ℕ → Option ElemType
  | 1 => some bool | 2 => some u8 | 3 => some i16 | 4 => some i32 | 5 => some i64 | 6 => some f32 | 7 => some f64
  | 8 => some date | 9 => some time | 10 => some timestamp | 11 => some guid | 12 => some sym | 13 => some str
  | _ => none

def nullInt : ElemType → Option ℤ
  | i16 => some (-2 ^ 15)
  | i32 | date | time => some (-2 ^ 31)
  | i64 | timestamp => some (-2 ^ 63)
  | _ => none

def isNullInt (t : ElemType) (z : ℤ) : Bool := t.nullInt = some z

def isNullName (t : ElemType) (b : Bytes) : Bool := t = guid ∧ b = List.replicate 16 0

def isWide (t : ElemType) : Bool := t = guid ∨ t = str

def bounds : ElemType → ℤ × ℤ
  | bool => (0, 1)
  | u8 => (0, 255)
  | i16 => (-2 ^ 15, 2 ^ 15 - 1)
  | i32 | date | time => (-2 ^ 31, 2 ^ 31 - 1)
  | _ => (-2 ^ 63, 2 ^ 63 - 1)

def name : ElemType → String
  | bool => "B8" | u8 => "U8" | i16 => "I16" | i32 => "I32" | i64 => "I64" | f32 => "F32" | f64 => "F64"
  | date => "DATE" | time => "TIME" | timestamp => "TIMESTAMP" | guid => "GUID" | sym => "SYM" | str => "STR"

end ElemType

open ElemType

def partedBase : ℕ := 32

def typeName (t : ℕ) : String :=
  match ofCode t with
  | some e => e.name
  | none => if t = 0 then "LIST" else if t = 98 then "TABLE" else "?"

inductive Cells
  | ints (l : List ℤ)
  | floats (l : List (WithBot ℚ))
  | names (l : List Bytes)
  deriving DecidableEq

namespace Cells

def length : Cells → ℕ
  | ints l => l.length
  | floats l => l.length
  | names l => l.length

def asc : Cells → Cells
  | ints l => ints (l.insertionSort (· ≤ ·))
  | floats l => floats (l.insertionSort (· ≤ ·))
  | names l => names (l.insertionSort (· ≤ ·))

def desc : Cells → Cells
  | ints l => ints (l.insertionSort (· ≥ ·))
  | floats l => floats (l.insertionSort (· ≥ ·))
  | names l => names (l.insertionSort (· ≥ ·))

def reverse : Cells → Cells
  | ints l => ints l.reverse
  | floats l => floats l.reverse
  | names l => names l.reverse

def pick (idx : List ℕ) : Cells → Cells
  | ints l => ints (idx.filterMap (l[·]?))
  | floats l => floats (idx.filterMap (l[·]?))
  | names l => names (idx.filterMap (l[·]?))

def anySentinel (t : ElemType) : Cells → Bool
  | ints l => l.any t.isNullInt
  | floats l => l.any (· = ⊥)
  | names l => l.any t.isNullName

@[simp] lemma length_asc (c : Cells) : c.asc.length = c.length := by cases c <;> simp [asc, length]

@[simp] lemma length_desc (c : Cells) : c.desc.length = c.length := by cases c <;> simp [desc, length]

@[simp] lemma length_reverse (c : Cells) : c.reverse.length = c.length := by cases c <;> simp [reverse, length]

end Cells

/-- A typed vector with its own null bit and that of its parent. -/
structure Vec where
  ty : ElemType
  cells : Cells
  hasNulls : Bool
  parent : Option Bool
  deriving DecidableEq

def Vec.anyNulls (v : Vec) : Bool := v.parent.getD v.hasNulls

inductive Payload
  | int (z : ℤ)
  | float (x : WithBot ℚ)
  | name (b : Bytes)
  | void
  deriving DecidableEq

inductive Value
  | err (code msg : String)
  | atom (t : ℕ) (p : Payload)
  | vec (v : Vec)
  | list (items : List (ℕ × Payload))
  | table (nrows len : ℕ)
  deriving DecidableEq

inductive RedOp
  | count | first | last | min | max
  deriving DecidableEq, Repr

def RedOp.name : RedOp → String
  | count => "COUNT" | first => "FIRST" | last => "LAST" | min => "MIN" | max => "MAX"

def radixSortThreshold : ℕ := 4096

/-- `radixDecodes`: the sort writes the rows back from the keys. -/
structure Runtime where
  radixDecodes : Vec → Bool
  small : ∀ v : Vec, v.cells.length ≤ radixSortThreshold → radixDecodes v = false
  unkeyed : ∀ v : Vec, v.ty = guid ∨ v.ty = sym ∨ v.ty = str → radixDecodes v = false
  symId : Bytes → ℤ
  listDistinct : List (ℕ × Payload) → ℕ
  payloadLen : Payload → ℤ
  scalar : RedOp → ℕ → Payload → Value

def rayI64 (z : ℤ) : Value := .atom ElemType.i64.code (.int z)

def typedNull (t : ℕ) : Value :=
  if t = 0 then .err "type" ("typed_null: expects a negative atom type tag, got " ++ typeName t)
  else .atom t (match ofCode t with
    | some .f64 | some .f32 => .float ⊥
    | some .i64 | some .timestamp => .int (-2 ^ 63)
    | some .i32 | some .date | some .time => .int (-2 ^ 31)
    | some .i16 => .int (-2 ^ 15)
    | some .sym | some .str => .name []
    | some .guid => .name (List.replicate 16 0)
    | _ => .void)

section

variable (rt : Runtime)

def gatherNulls (v : Vec) (out : Cells) : Bool :=
  (v.hasNulls || v.parent == some true) && v.anyNulls && out.anySentinel v.ty

def sortNulls (v : Vec) (out : Cells) : Bool :=
  if rt.radixDecodes v then v.hasNulls && v.anyNulls && out.anySentinel v.ty else gatherNulls v out

def ascVecEager (v : Vec) : Vec := ⟨v.ty, v.cells.asc, sortNulls rt v v.cells.asc, none⟩

def descVecEager (v : Vec) : Vec := ⟨v.ty, v.cells.desc, sortNulls rt v v.cells.desc, none⟩

def reverseVecEager (v : Vec) : Vec :=
  if v.cells.length ≤ 1 then v
  else ⟨v.ty, v.cells.reverse, v.hasNulls && v.anyNulls && v.cells.anySentinel v.ty, none⟩

def firsts {α : Type} (eq : α → α → Bool) (l : List α) : List α :=
  l.foldl (fun acc c => if acc.any (eq · c) then acc else acc ++ [c]) []

def distinctRows (v : Vec) : Cells :=
  match v.cells with
  | .ints l => .ints (firsts (fun a b => a = b) l)
  | .floats l => .floats (firsts (fun a b => a = b ∧ (a ≠ ⊥ ∨ (v.hasNulls && v.anyNulls))) l)
  | .names l => .names (firsts (fun a b => a = b) l)

def distinctVecEager (v : Vec) : Vec :=
  if v.cells.length = 0 then v
  else
    let rows := if v.ty = sym ∨ v.ty = guid ∨ v.ty = str then distinctRows v else (distinctRows v).asc
    ⟨v.ty, rows, gatherNulls v rows, none⟩

def keyCount : Cells → ℕ
  | .ints l => (firsts (fun a b => a = b) l).length
  | .floats l => (firsts (fun a b => a = b) l).length
  | .names l => (firsts (fun a b => a = b) l).length

def notCounted (t : ℕ) : Value :=
  .err "type" ("count distinct: unsupported column type, got " ++ typeName t)

def execCountDistinct : Value → Value
  | .err c m => .err c m
  | .vec v =>
    if v.cells.length = 0 then rayI64 0
    else match v.ty with
      | .str | .guid => rayI64 (distinctVecEager v).cells.length
      | .f32 => notCounted ElemType.f32.code
      | _ => rayI64 (keyCount v.cells)
  | .list items => if items.length = 0 then rayI64 0 else rayI64 (rt.listDistinct items)
  | .atom t p => if rt.payloadLen p = 0 then rayI64 0 else notCounted t
  | .table _ len => if len = 0 then rayI64 0 else notCounted 98

/-- `minS` and `maxS` are the symbols of `min_i` and `max_i`. -/
structure Acc where
  cnt : ℕ
  minI : ℤ
  maxI : ℤ
  minF : ℚ
  maxF : ℚ
  minS : Bytes
  maxS : Bytes

def dblMax : ℚ := (2 ^ 53 - 1) * 2 ^ 971

def Acc.init : Acc := ⟨0, 2 ^ 63 - 1, -2 ^ 63, dblMax, -dblMax, [], []⟩

def Acc.addInt (a : Acc) (z : ℤ) : Acc :=
  { a with cnt := a.cnt + 1, minI := if z < a.minI then z else a.minI, maxI := if a.maxI < z then z else a.maxI }

def Acc.addFloat (a : Acc) : WithBot ℚ → Acc
  | none => { a with cnt := a.cnt + 1 }
  | some x =>
    { a with cnt := a.cnt + 1, minF := if x < a.minF then x else a.minF, maxF := if a.maxF < x then x else a.maxF }

def Acc.addSym (a : Acc) (b : Bytes) : Acc :=
  { a with cnt := a.cnt + 1, minS := if a.cnt = 0 then b else if b < a.minS then b else a.minS,
           maxS := if a.cnt = 0 then b else if a.maxS < b then b else a.maxS }

def reduceRange (t : ElemType) (hasNulls : Bool) : Cells → Acc
  | .ints l => (l.filter fun z => !(hasNulls && t.isNullInt z)).foldl Acc.addInt .init
  | .floats l => (l.filter fun x => !(hasNulls && x = ⊥)).foldl Acc.addFloat .init
  | .names l => (l.filter fun b => !(hasNulls && b = [])).foldl Acc.addSym .init

def reductionI64Result (z : ℤ) (out : ℕ) : Value :=
  match ofCode out with
  | some .bool => .atom out (.int (if z = 0 then 0 else 1))
  | some .u8 => .atom out (.int (z % 2 ^ 8))
  | some .i16 => .atom out (.int (Int.bmod z (2 ^ 16)))
  | some .i32 | some .date | some .time => .atom out (.int (Int.bmod z (2 ^ 32)))
  | some .timestamp => .atom out (.int z)
  | _ => rayI64 z

def reductionExtremeResult (inTy : ElemType) (opOut cnt : ℕ) (f : ℚ) (z : ℤ) (s : Bytes) : Value :=
  let out := if opOut = 0 then inTy.code else opOut
  if cnt = 0 then typedNull out
  else if out = ElemType.f64.code then .atom out (.float f)
  else if out = ElemType.f32.code then .atom out (.float f)
  else if inTy = sym then
    if out = sym.code then .atom out (.name s) else reductionI64Result (rt.symId s) out
  else reductionI64Result z out

def intAtom (t : ElemType) (z : ℤ) : Value := reductionI64Result z t.code

def floatAtom (x : WithBot ℚ) : Value := .atom ElemType.f64.code (.float x)

def nameAtom (t : ElemType) (b : Bytes) : Value := .atom t.code (.name b)

def firstRow (t : ElemType) (hasNulls : Bool) : Cells → Value
  | .ints l => match l.find? fun z => !(hasNulls && t.isNullInt z) with
    | some z => intAtom t z
    | none => typedNull t.code
  | .floats l => match l.find? fun x => !(hasNulls && x = ⊥) with
    | some x => floatAtom x
    | none => typedNull t.code
  | .names l => match l.find? fun b => !(hasNulls && t.isNullName b) with
    | some b => nameAtom t b
    | none => typedNull t.code

def wideWinner (better : Bytes → Bytes → Bool) (l : List Bytes) : Option Bytes :=
  l.foldl (fun best b => match best with
    | none => some b
    | some w => if better b w then some b else some w) none

def aggWideReduce (t : ElemType) (hasNulls : Bool) (better : Bytes → Bytes → Bool) : Cells → Value
  | .names l => match wideWinner better (l.filter fun b => !(hasNulls && t.isNullName b)) with
    | some b => nameAtom t b
    | none => typedNull t.code
  | _ => typedNull t.code

structure Rowsel where
  nrows : ℕ
  idx : List ℕ

def walked (sel : Option Rowsel) (c : Cells) : Cells :=
  match sel with
  | some s => if s.nrows = c.length then c.pick s.idx else c
  | none => c

def atomIsNull (t : ℕ) (p : Payload) : Bool :=
  t ≠ sym.code ∧ t ≠ str.code ∧ Value.atom t p = typedNull t

def execReduction (sel : Option Rowsel) (op : RedOp) (out : ℕ) : Value → Value
  | .err c m => .err c m
  | .table nrows _ =>
    if op = .count then rayI64 (match sel with | some s => s.idx.length | none => nrows)
    else .err "type" ("reduction: " ++ op.name ++ " requires a column, got a table")
  | .atom t p =>
    if op = .count then rayI64 (match p with | .name b => if t = str.code then b.length else 1 | _ => 1)
    else rt.scalar op t p
  | .list items =>
    let items := match sel with
      | some s => if s.nrows = items.length then s.idx.filterMap (items[·]?) else items
      | none => items
    match op with
    | .count => rayI64 items.length
    | .first => match items.find? fun i => !atomIsNull i.1 i.2 with
      | some i => .atom i.1 i.2
      | none => typedNull ElemType.i64.code
    | .last => match items.reverse.find? fun i => !atomIsNull i.1 i.2 with
      | some i => .atom i.1 i.2
      | none => typedNull ElemType.i64.code
    | .min | .max => typedNull out
  | .vec v =>
    let c := walked sel v.cells
    let acc := reduceRange v.ty v.hasNulls c
    match op with
    | .count => rayI64 c.length
    | .first => firstRow v.ty (v.hasNulls && v.anyNulls) c
    | .last => firstRow v.ty (v.hasNulls && v.anyNulls) c.reverse
    | .min =>
      if v.ty.isWide then aggWideReduce v.ty (v.hasNulls && v.anyNulls) (fun b w => b < w) c
      else reductionExtremeResult rt v.ty out acc.cnt acc.minF acc.minI acc.minS
    | .max =>
      if v.ty.isWide then aggWideReduce v.ty (v.hasNulls && v.anyNulls) (fun b w => w < b) c
      else reductionExtremeResult rt v.ty out acc.cnt acc.maxF acc.maxI acc.maxS

inductive VecOp
  | distinct | asc | desc | reverse
  deriving DecidableEq, Repr

def VecOp.name : VecOp → String
  | distinct => "DISTINCT" | asc => "ASC" | desc => "DESC" | reverse => "REVERSE"

def execVecOp (op : VecOp) : Value → Value
  | .err c m => .err c m
  | .vec v => .vec (match op with
    | .distinct => distinctVecEager v
    | .asc => ascVecEager rt v
    | .desc => descVecEager rt v
    | .reverse => reverseVecEager v)
  | _ => .err "type" ("OP_" ++ op.name ++ " expects a vector input")

end

end Rayforce.Idiom
