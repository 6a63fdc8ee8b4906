import Rayforce.Serde.Object

namespace Rayforce.Store

open Library.Words
open Rayforce.Serde (FixTy Cell Vec rayVecIsNull nanBits raySymWMask rayAttrSlice rayAttrSorted rayAttrHasNulls)

inductive Err
  | type | io | corrupt | nyi | version | range | sym
  deriving DecidableEq

/-- `fault` is a read outside the object's memory. -/
inductive Fail
  | fault
  | error (e : Err)
  deriving DecidableEq

inductive Atom
  | fixed (tag : UInt8) (slot : Bytes) (nullBit : Bool)
  | guid (payload addr : Bytes)
  | sym (s : Bytes) (quoted : Bool)
  | str (s : Bytes)
  deriving DecidableEq

structure Desc where
  bytes : Bytes
  width : bytes.length = 16
  deriving DecidableEq

def rayStrInlineMax : ℕ := 12

namespace Desc

def len (d : Desc) : ℕ := leNat (d.bytes.take 4)

def head4 (d : Desc) : Bytes := (d.bytes.drop 4).take 4

def poolOff (d : Desc) : ℕ := leNat ((d.bytes.drop 8).take 4)

def str (pool : Bytes) (d : Desc) : Option Bytes :=
  if d.len ≤ rayStrInlineMax then some ((d.bytes.drop 4).take d.len)
  else if d.poolOff + d.len ≤ pool.length then some ((pool.drop d.poolOff).take d.len)
  else none

def Ok (pool : Bytes) (d : Desc) : Prop :=
  d.len ≤ rayStrInlineMax ∨ d.poolOff + d.len ≤ pool.length ∧ d.head4 = (pool.drop d.poolOff).take 4

instance (pool : Bytes) : DecidablePred (Ok pool) := fun _ => inferInstanceAs (Decidable (_ ∨ _))

end Desc

structure StrVec where
  attrs : UInt8
  descs : List Desc
  pool : Bytes
  deriving DecidableEq

/-- `dom` holds the strings of the domain by position. -/
structure SymVec where
  attrs : UInt8
  dom : List Bytes
  runtime : Bool
  block : List ℕ
  len : ℕ
  inside : len ≤ block.length
  deriving DecidableEq

inductive Obj
  | nullPtr
  | error
  | atom (a : Atom)
  | vec (t : FixTy) (v : Vec (Cell t))
  | symVec (v : SymVec)
  | symSlice (v : SymVec) (offset len : ℕ) (inside : offset + len ≤ v.len)
  | strVec (v : StrVec)
  | strSlice (v : StrVec) (offset len : ℕ) (inside : offset + len ≤ v.descs.length)
  | list (elems : List Obj)
  | table (names : List ℕ) (cols : List Obj)
  | dict (keys vals : Obj)
  | other (tag : UInt8)

def Atom.isNull : Atom → Bool
  | .fixed tag slot nullBit =>
    match tag.toNat with
    | 249 | 250 => nanBits 52 11 (leNat slot)
    | 251 | 246 => leNat slot == 2 ^ 63
    | 252 | 248 | 247 => leNat (slot.take 4) == 2 ^ 31
    | 253 => leNat (slot.take 2) == 2 ^ 15
    | _ => nullBit
  | .guid payload _ => payload.all (· == 0)
  | .sym _ _ | .str _ => false

namespace SymVec

def width (v : SymVec) : ℕ := (v.attrs &&& raySymWMask).toNat

def cells (v : SymVec) (offset len : ℕ) : List (Option Bytes) :=
  ((v.block.drop offset).take len).map fun pos => v.dom[pos]?

def dataIndex (v : SymVec) (offset i : ℕ) : ℕ := offset * (8 / 2 ^ v.width) + i

def raySymVecCell (v : SymVec) (offset i : ℕ) : Except Fail Bytes :=
  match v.block[v.dataIndex offset i]? with
  | none => .error .fault
  | some pos =>
    match v.dom[pos]? with
    | none => .error (.error .corrupt)
    | some s => .ok s

end SymVec

inductive AtomValue
  | fixed (tag : UInt8) (slot : Bytes) (null : Bool)
  | guid (payload : Bytes)
  | dangling
  | sym (s : Bytes) (quoted : Bool)
  | str (s : Bytes)
  deriving DecidableEq

/-- An unreadable string, symbol or column name is `none`. -/
inductive Value
  | none
  | atom (a : AtomValue)
  | vec (t : FixTy) (cells : List (Cell t × Bool))
  | syms (cells : List (Option Bytes))
  | strs (cells : List (Option Bytes))
  | list (elems : List Value)
  | table (names : List (Option Bytes)) (cols : List Value)
  | dict (keys vals : Value)
  | other (tag : UInt8)

def guidTag : UInt8 := 245

def Atom.value : Atom → AtomValue
  | .fixed tag slot nullBit => if tag = guidTag then .dangling else .fixed tag slot
    (Atom.fixed tag slot nullBit).isNull
  | .guid payload _ => .guid payload
  | .sym s quoted => .sym s quoted
  | .str s => .str s

mutual

def Obj.view (names : List Bytes) : Obj → Value
  | .nullPtr | .error => .none
  | .atom a => .atom a.value
  | .vec t v => .vec t (v.cells.map fun c => (c, rayVecIsNull v c))
  | .symVec v => .syms (v.cells 0 v.len)
  | .symSlice v offset len _ => .syms (v.cells offset len)
  | .strVec v => .strs (v.descs.map (Desc.str v.pool))
  | .strSlice v offset len _ => .strs (((v.descs.drop offset).take len).map (Desc.str v.pool))
  | .list es => .list (Obj.views names es)
  | .table ids cols => .table (ids.map fun i => names[i]?) (Obj.views names cols)
  | .dict k v => .dict (k.view names) (v.view names)
  | .other tag => .other tag

def Obj.views (names : List Bytes) : List Obj → List Value
  | [] => []
  | o :: os => o.view names :: Obj.views names os

end

lemma views_eq_map (names : List Bytes) (os : List Obj) : Obj.views names os = os.map (Obj.view names) := by
  induction os with
  | nil => rfl
  | cons o os ih => rw [Obj.views, ih, List.map_cons]

end Rayforce.Store
