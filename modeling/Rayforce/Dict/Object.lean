import Rayforce.Library.Words
import Rayforce.Library.Binary64

/-! Dictionaries: a typed vector of keys beside a list of values. -/

namespace Rayforce.Dict

open Library.Words Library.Binary64

inductive KeyType
  | bool | u8 | i16 | i32 | i64 | f32 | f64 | date | time | timestamp | sym | str | guid
deriving DecidableEq

inductive SymWidth
  | w8 | w16 | w32 | w64
deriving DecidableEq

/-- What an atom or a vector cell holds. -/
inductive Payload
  | byte (v : UInt8)
  | int (v : ℤ)
  | real (v : Double)
  | bytes (v : Bytes)
deriving DecidableEq

def KeyType.admits : KeyType → Payload → Bool
  | .bool, .byte _ | .u8, .byte _ => true
  | .i16, .int v => decide (-2 ^ 15 ≤ v ∧ v < 2 ^ 15)
  | .i32, .int v | .date, .int v | .time, .int v => decide (-2 ^ 31 ≤ v ∧ v < 2 ^ 31)
  | .i64, .int v | .timestamp, .int v | .sym, .int v => decide (-2 ^ 63 ≤ v ∧ v < 2 ^ 63)
  | .f32, .real _ | .f64, .real _ | .str, .bytes _ => true
  | .guid, .bytes v => v.length = 16
  | _, _ => false

def sentinelIsNull : KeyType → Payload → Bool
  | .i16, .int v => v = -2 ^ 15
  | .i32, .int v | .date, .int v | .time, .int v => v = -2 ^ 31
  | .i64, .int v | .timestamp, .int v => v = -2 ^ 63
  | .f32, .real v | .f64, .real v => v.isNaN
  | .guid, .bytes v => v.all (· = 0)
  | _, _ => false

def Payload.eq : Payload → Payload → Bool
  | .real a, .real b => Double.eq a b
  | a, b => a = b

def SymWidth.bits : SymWidth → ℕ
  | .w8 => 8
  | .w16 => 16
  | .w32 => 32
  | .w64 => 64

def SymWidth.narrow : SymWidth → ℤ → ℤ
  | .w64, id => id
  | w, id => id % 2 ^ w.bits

/-- An atom used as a key: `nullBit` is read by booleans and bytes only, `slot` is the value as 64 bits. -/
structure KeyAtom where
  type : KeyType
  payload : Payload
  nullBit : Bool
  slot : ℤ
  admits : type.admits payload = true
  sym_slot : type = .sym → payload = .int slot
deriving DecidableEq

def atomIsNull (k : KeyAtom) : Bool :=
  match k.type with
  | .bool | .u8 => k.nullBit
  | t => sentinelIsNull t k.payload

def symAtom (id : ℤ) (h : KeyType.admits .sym (.int id) = true) : KeyAtom :=
  ⟨.sym, .int id, false, id, h, fun _ => rfl⟩

/-- A vector of its own, no slice; `domain` is the table of a file domain, or `none`. -/
structure Keys where
  type : KeyType
  width : SymWidth
  domain : Option (List ℤ)
  hasNulls : Bool
  cells : List Payload
deriving DecidableEq

structure RayDict (α : Type) where
  keys : Keys
  vals : List α
deriving DecidableEq

def vecNew (t : KeyType) : Keys := ⟨t, .w64, none, false, []⟩

def vecIsNull (ks : Keys) (c : Payload) : Bool := ks.hasNulls && sentinelIsNull ks.type c

def vecAppend (ks : Keys) (c : Payload) : Keys := { ks with cells := ks.cells ++ [c] }

def poolUsed (cells : List Payload) : ℕ :=
  (cells.map fun c => match c with
    | .bytes s => if 12 < s.length then s.length else 0
    | _ => 0).sum

def strVecAppend (ks : Keys) (s : Bytes) : Option Keys :=
  if 2 ^ 32 - 1 < s.length then none
  else if 12 < s.length ∧ 2 ^ 32 - 1 < poolUsed ks.cells + s.length then none
  else some (vecAppend ks (.bytes s))

def symVecAppend (ks : Keys) (id : ℤ) : Keys := vecAppend ks (.int (ks.width.narrow id))

def copyCell (ks : Keys) : Payload → Option Keys
  | .bytes s => if ks.type = .str then strVecAppend ks s else some (vecAppend ks (.bytes s))
  | .int v => if ks.type = .sym then some (symVecAppend ks v) else some (vecAppend ks (.int v))
  | c => some (vecAppend ks c)

section

variable {α : Type}

def dictFindSym (d : RayDict α) (id : ℤ) : Option ℕ :=
  if d.keys.type = .sym then d.keys.cells.findIdx? (· = .int id) else none

def dictFindIdx (d : RayDict α) (k : KeyAtom) : Option ℕ :=
  if d.keys.cells = [] then none
  else if k.type ≠ d.keys.type then none
  else if atomIsNull k then
    if d.keys.hasNulls then d.keys.cells.findIdx? (vecIsNull d.keys) else none
  else d.keys.cells.findIdx? fun c => !vecIsNull d.keys c && c.eq k.payload

def dictGet (d : RayDict α) (k : KeyAtom) : Option α := (dictFindIdx d k).bind fun i => d.vals[i]?

def lutCell (lut : List ℤ) : Payload → Payload
  | .int p => .int (if 0 ≤ p then lut.getD p.toNat 0 else 0)
  | c => c

def dictSymKeysToRuntime (ks : Keys) (lut : List ℤ) : Keys :=
  ⟨.sym, .w64, none, ks.hasNulls, ks.cells.map (lutCell lut)⟩

def runtimeKeys (ks : Keys) : Keys :=
  match ks.domain with
  | some lut => if ks.type = .sym then dictSymKeysToRuntime ks lut else ks
  | none => ks

def adoptType (ks : Keys) (t : KeyType) : Keys :=
  if ks.cells = [] ∧ ks.type ≠ t then vecNew t else ks

def appendKey (ks : Keys) (k : KeyAtom) : Option Keys :=
  if ks.type = .sym then some (symVecAppend ks k.slot)
  else if ks.type = k.type then
    match k.payload with
    | .bytes s => if ks.type = .str then strVecAppend ks s else some (vecAppend ks (.bytes s))
    | c => some (vecAppend ks c)
  else none

def upsertDict (d : RayDict α) (k : KeyAtom) (v : α) : Option (RayDict α) :=
  let d : RayDict α := { d with keys := runtimeKeys d.keys }
  match dictFindIdx d k with
  | some i => if i < d.vals.length then some { d with vals := d.vals.set i v } else none
  | none => (appendKey (adoptType d.keys k.type) k).map fun ks => ⟨ks, d.vals ++ [v]⟩

def removeDict (d : RayDict α) (k : KeyAtom) : Option (RayDict α) :=
  match dictFindIdx d k with
  | none => some d
  | some i =>
    ((d.keys.cells.eraseIdx i).foldlM copyCell ⟨d.keys.type, d.keys.width, none, false, []⟩).map
      fun ks => ⟨{ ks with domain := d.keys.domain }, d.vals.eraseIdx i⟩

/-- `listKeyed` has an empty untyped list for its keys. -/
inductive Target (α : Type)
  | notDict
  | listKeyed
  | dict (d : RayDict α)
deriving DecidableEq

inductive Op (α : Type)
  | upsert (k : KeyAtom) (v : α)
  | remove (k : KeyAtom)

def Op.key : Op α → KeyAtom
  | .upsert k _ => k
  | .remove k => k

def dictUpsert (d : Target α) (k : KeyAtom) (v : α) : Option (RayDict α) :=
  match d with
  | .dict d => upsertDict d k v
  | _ => upsertDict ⟨vecNew k.type, []⟩ k v

def dictRemove (d : Target α) (k : KeyAtom) : Option (Target α) :=
  match d with
  | .notDict => none
  | .listKeyed => some .listKeyed
  | .dict d => (removeDict d k).map .dict

def step (d : Target α) : Op α → Option (Target α)
  | .upsert k v => (dictUpsert d k v).map .dict
  | .remove k => dictRemove d k

def run (d : Target α) (ops : List (Op α)) : Option (Target α) := ops.foldlM step d

namespace Target

def get (d : Target α) (k : KeyAtom) : Option α :=
  match d with
  | .dict d => dictGet d k
  | _ => none

def findIdx (d : Target α) (k : KeyAtom) : Option ℕ :=
  match d with
  | .dict d => dictFindIdx d k
  | _ => none

def findSym (d : Target α) (id : ℤ) : Option ℕ :=
  match d with
  | .dict d => dictFindSym d id
  | _ => none

def valueCount (d : Target α) : ℕ :=
  match d with
  | .dict d => d.vals.length
  | _ => 0

end Target

end

end Rayforce.Dict
