import Rayforce.Library.Words

/-! The objects that cross the wire. -/

namespace Rayforce.Serde

open Library.Words

inductive FixTy
  | bool | u8 | i16 | i32 | i64 | f32 | f64 | date | time | timestamp | guid
  deriving DecidableEq, Repr

def FixTy.tag : FixTy → ℕ
  | .bool => 1
  | .u8 => 2
  | .i16 => 3
  | .i32 => 4
  | .i64 => 5
  | .f32 => 6
  | .f64 => 7
  | .date => 8
  | .time => 9
  | .timestamp => 10
  | .guid => 11

def FixTy.size : FixTy → ℕ
  | .bool | .u8 => 1
  | .i16 => 2
  | .i32 | .date | .time | .f32 => 4
  | .i64 | .timestamp | .f64 => 8
  | .guid => 16

structure Cell (t : FixTy) where
  bytes : Bytes
  width : bytes.length = t.size
  deriving DecidableEq

def nullBytes : FixTy → Bytes
  | .bool | .u8 => [0]
  | .i16 => [0, 0x80]
  | .i32 | .date | .time => [0, 0, 0, 0x80]
  | .f32 => [0, 0, 0xC0, 0x7F]
  | .i64 | .timestamp => [0, 0, 0, 0, 0, 0, 0, 0x80]
  | .f64 => [0, 0, 0, 0, 0, 0, 0xF8, 0x7F]
  | .guid => List.replicate 16 0

def nullCell (t : FixTy) : Cell t := ⟨nullBytes t, by cases t <;> rfl⟩

-- `x != x` on the bits of a float whose exponent field starts at bit `mant`
def nanBits (mant expo : ℕ) (n : ℕ) : Bool :=
  n / 2 ^ mant % 2 ^ expo == 2 ^ expo - 1 && n % 2 ^ mant != 0

def sentinelIsNull : (t : FixTy) → Cell t → Bool
  | .bool, _ | .u8, _ => false
  | .f32, c => nanBits 23 8 (leNat c.bytes)
  | .f64, c => nanBits 52 11 (leNat c.bytes)
  | t, c => c.bytes == nullBytes t

-- `ray_bool` keeps one bit, and the float a `ray_f32` atom is read back from is never signalling
def settle : FixTy → Bytes → Bytes
  | .bool, bs => bs.map fun b => if b = 0 then 0 else 1
  | .f32, bs => if nanBits 23 8 (leNat bs) then leBytes 4 (leNat bs ||| 2 ^ 22) else bs
  | _, bs => bs

inductive Atom
  | fixed (t : FixTy) (c : Cell t) (settled : settle t c.bytes = c.bytes)
  | null (t : FixTy)
  | nullStr
  | sym (s : Bytes) (quoted : Bool)
  | str (s : Bytes)
  deriving DecidableEq

def rayAttrSlice : UInt8 := 0x10
def rayAttrSorted : UInt8 := 0x20
def attrQuoted : UInt8 := 0x20
def rayAttrHasNulls : UInt8 := 0x40
def raySymWMask : UInt8 := 0x03

inductive Vec (α : Type)
  | owned (attrs : UInt8) (cells : List α)
  | slice (attrs : UInt8) (parent : List α) (offset len : ℕ) (inside : offset + len ≤ parent.length)
  deriving DecidableEq

namespace Vec

variable {α : Type}

def cells : Vec α → List α
  | owned _ cs => cs
  | slice _ cs offset len _ => (cs.drop offset).take len

-- the attribute byte of the header itself: a slice header repeats only the index width
def attrs : Vec α → UInt8
  | owned a _ => a
  | slice a _ _ _ _ => rayAttrSlice ||| (a &&& raySymWMask)

-- the attribute byte `ray_vec_is_null` consults, through `slice_parent`
def dataAttrs : Vec α → UInt8
  | owned a _ => a
  | slice a _ _ _ _ => a

end Vec

def rayVecIsNull {t : FixTy} (v : Vec (Cell t)) (c : Cell t) : Bool :=
  v.dataAttrs &&& rayAttrHasNulls != 0 && sentinelIsNull t c

inductive FnKind
  | unary | binary | vary
  deriving DecidableEq, Repr

def FnKind.tag : FnKind → ℕ
  | .unary => 101
  | .binary => 102
  | .vary => 103

inductive Tag
  | null | list | fixedVec (t : FixTy) | symVec | strVec | table | dict | lambda | fn (k : FnKind) | error
  | fixedAtom (t : FixTy) | symAtom | strAtom
  | unknownAtom | unknown
  deriving DecidableEq

def Tag.ofNat : ℕ → Tag
  | 0 => .list
  | 1 => .fixedVec .bool
  | 2 => .fixedVec .u8
  | 3 => .fixedVec .i16
  | 4 => .fixedVec .i32
  | 5 => .fixedVec .i64
  | 6 => .fixedVec .f32
  | 7 => .fixedVec .f64
  | 8 => .fixedVec .date
  | 9 => .fixedVec .time
  | 10 => .fixedVec .timestamp
  | 11 => .fixedVec .guid
  | 12 => .symVec
  | 13 => .strVec
  | 98 => .table
  | 99 => .dict
  | 100 => .lambda
  | 101 => .fn .unary
  | 102 => .fn .binary
  | 103 => .fn .vary
  | 126 => .null
  | 127 => .error
  | 255 => .fixedAtom .bool
  | 254 => .fixedAtom .u8
  | 253 => .fixedAtom .i16
  | 252 => .fixedAtom .i32
  | 251 => .fixedAtom .i64
  | 250 => .fixedAtom .f32
  | 249 => .fixedAtom .f64
  | 248 => .fixedAtom .date
  | 247 => .fixedAtom .time
  | 246 => .fixedAtom .timestamp
  | 245 => .fixedAtom .guid
  | 244 => .symAtom
  | 243 => .strAtom
  | n => if 128 ≤ n then .unknownAtom else .unknown

def Tag.ofByte (b : UInt8) : Tag := Tag.ofNat b.toNat

def Tag.encodes : Tag → Bool
  | .unknownAtom | .unknown => false
  | _ => true

-- cells of a symbol vector to eight bytes
def symStride (attrs : UInt8) : ℕ := 8 / 2 ^ (attrs &&& raySymWMask).toNat

-- the cells `ray_sym_vec_cell` finds in a slice: `ray_data` steps by eight bytes to the offset, and the
-- cells are read at their own width from there; `none` where that leaves the block of the parent
def symSliceCells (attrs : UInt8) (block : List Bytes) (offset len : ℕ) : Option (List Bytes) :=
  if len = 0 ∨ offset * symStride attrs + len ≤ block.length then
    some ((block.drop (offset * symStride attrs)).take len)
  else none

-- what the size loop counts; a cell past the block as the empty string, since nothing is known of it
def symSliceCounted (attrs : UInt8) (block : List Bytes) (offset len : ℕ) : List Bytes :=
  (symSliceCells attrs block offset len).getD (List.replicate len [])

-- `nullPtr` is the C `NULL`, `null` the singleton `RAY_NULL_OBJ`; `other` is any block whose type
-- tag no arm of the encoder knows: a lazy handle, an index, a parted or mapped column, a selection;
-- the block of a `symSlice` holds the strings of all cells of the parent, empty where the domain has none
inductive Obj
  | nullPtr
  | null
  | error (code : Bytes)
  | atom (a : Atom)
  | vec (t : FixTy) (v : Vec (Cell t))
  | symVec (attrs : UInt8) (cells : List Bytes)
  | symSlice (attrs : UInt8) (block : List Bytes) (offset len : ℕ) (inside : offset + len ≤ block.length)
  | strVec (v : Vec Bytes)
  | list (attrs : UInt8) (elems : List Obj)
  | table (attrs : UInt8) (names : List Bytes) (colAttrs : UInt8) (cols : List Obj)
  | dict (attrs : UInt8) (keys vals : Obj)
  | lambda (attrs : UInt8) (params body : Obj)
  | fn (kind : FnKind) (name : Bytes)
  | other (tag : UInt8) (unknown : (Tag.ofByte tag).encodes = false)

def Obj.isErr : Obj → Bool
  | .error _ => true
  | _ => false

inductive Value
  | null
  | error (code : Bytes)
  | atom (a : Atom)
  | vec (t : FixTy) (cells : List (Cell t × Bool))
  | syms (cells : List Bytes)
  | strs (cells : List Bytes)
  | list (elems : List Value)
  | table (names : List Bytes) (cols : List Value)
  | dict (keys vals : Value)
  | lambda (params body : Value)
  | fn (kind : FnKind) (name : Bytes)
  | other (tag : UInt8)

mutual

def Obj.Every (p : Obj → Prop) : Obj → Prop
  | .list a es => p (.list a es) ∧ Obj.EveryAll p es
  | .table a names ca cols => p (.table a names ca cols) ∧ Obj.EveryAll p cols
  | .dict a k v => p (.dict a k v) ∧ k.Every p ∧ v.Every p
  | .lambda a ps b => p (.lambda a ps b) ∧ ps.Every p ∧ b.Every p
  | o => p o

def Obj.EveryAll (p : Obj → Prop) : List Obj → Prop
  | [] => True
  | e :: es => e.Every p ∧ Obj.EveryAll p es

end

abbrev Env := Bytes → Option Obj

-- what the codec asks of the running interpreter: a global binding by name, a symbol by its id, and
-- the object a lazy handle stands for
structure Runtime where
  env : Env
  bound : ∀ name, env name ≠ some .nullPtr
  symStr : ℤ → Bytes
  materialize : Obj → Obj

mutual

def Obj.view : Obj → Value
  | .nullPtr => .null
  | .null => .null
  | .error code => .error code
  | .atom a => .atom a
  | .vec t v => .vec t (v.cells.map fun c => (c, rayVecIsNull v c))
  | .symVec _ cs => .syms cs
  | .symSlice _ block offset len _ => .syms ((block.drop offset).take len)
  | .strVec v => .strs v.cells
  | .list _ es => .list (Obj.views es)
  | .table _ names _ cols => .table names (Obj.views cols)
  | .dict _ k v => .dict k.view v.view
  | .lambda _ p b => .lambda p.view b.view
  | .fn k name => .fn k name
  | .other tag _ => .other tag

def Obj.views : List Obj → List Value
  | [] => []
  | o :: os => o.view :: Obj.views os

end

lemma symSliceCells_length {attrs : UInt8} {block cells : List Bytes} {offset len : ℕ}
    (h : symSliceCells attrs block offset len = some cells) : cells.length = len := by
  rw [symSliceCells] at h
  split_ifs at h with hin
  cases h
  rw [List.length_take, List.length_drop]
  omega

lemma symSliceCounted_length (attrs : UInt8) (block : List Bytes) (offset len : ℕ) :
    (symSliceCounted attrs block offset len).length = len := by
  rw [symSliceCounted]
  cases h : symSliceCells attrs block offset len with
  | none => exact List.length_replicate
  | some cells => exact symSliceCells_length h

lemma symSliceCells_mem {attrs : UInt8} {block cells : List Bytes} {offset len : ℕ}
    (h : symSliceCells attrs block offset len = some cells) {s : Bytes} (hs : s ∈ cells) : s ∈ block := by
  rw [symSliceCells] at h
  split_ifs at h
  cases h
  exact List.mem_of_mem_drop (List.mem_of_mem_take hs)

section

variable {p q : Obj → Prop}

lemma Obj.Every.here {o : Obj} (h : o.Every p) : p o := by
  cases o with
  | list | table | dict | lambda => exact h.1
  | _ => exact h

mutual

lemma every_and_iff : ∀ o : Obj, o.Every (fun x => p x ∧ q x) ↔ o.Every p ∧ o.Every q
  | .list _ es => by rw [Obj.Every, Obj.Every, Obj.Every, everyAll_and_iff es, and_and_and_comm]
  | .table _ _ _ cols => by rw [Obj.Every, Obj.Every, Obj.Every, everyAll_and_iff cols, and_and_and_comm]
  | .dict _ k v => by
    rw [Obj.Every, Obj.Every, Obj.Every, every_and_iff k, every_and_iff v, and_and_and_comm (a := k.Every p),
      and_and_and_comm]
  | .lambda _ ps b => by
    rw [Obj.Every, Obj.Every, Obj.Every, every_and_iff ps, every_and_iff b, and_and_and_comm (a := ps.Every p),
      and_and_and_comm]
  | .nullPtr | .null | .error _ | .atom _ | .vec _ _ | .symVec _ _ | .symSlice _ _ _ _ _ | .strVec _ | .fn _ _
  | .other _ _ => Iff.rfl

lemma everyAll_and_iff : ∀ es : List Obj, Obj.EveryAll (fun x => p x ∧ q x) es ↔ Obj.EveryAll p es ∧
    Obj.EveryAll q es
  | [] => by simp [Obj.EveryAll]
  | e :: es => by
    rw [Obj.EveryAll, Obj.EveryAll, Obj.EveryAll, every_and_iff e, everyAll_and_iff es, and_and_and_comm]

end

mutual

lemma Obj.Every.mono (hpq : ∀ x, p x → q x) : ∀ o : Obj, o.Every p → o.Every q
  | .list _ es, h => ⟨hpq _ h.1, Obj.EveryAll.mono hpq es h.2⟩
  | .table _ _ _ cols, h => ⟨hpq _ h.1, Obj.EveryAll.mono hpq cols h.2⟩
  | .dict _ k v, h => ⟨hpq _ h.1, Obj.Every.mono hpq k h.2.1, Obj.Every.mono hpq v h.2.2⟩
  | .lambda _ ps b, h => ⟨hpq _ h.1, Obj.Every.mono hpq ps h.2.1, Obj.Every.mono hpq b h.2.2⟩
  | .nullPtr, h | .null, h | .error _, h | .atom _, h | .vec _ _, h | .symVec _ _, h | .symSlice _ _ _ _ _, h
  | .strVec _, h | .fn _ _, h | .other _ _, h => hpq _ h

lemma Obj.EveryAll.mono (hpq : ∀ x, p x → q x) : ∀ es : List Obj, Obj.EveryAll p es → Obj.EveryAll q es
  | [], _ => trivial
  | e :: es, h => ⟨Obj.Every.mono hpq e h.1, Obj.EveryAll.mono hpq es h.2⟩

end

end

end Rayforce.Serde
