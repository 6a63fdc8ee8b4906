import Rayforce.Serde.Object

namespace Rayforce.Serde

open Library.Words

def FixTy.vecTag (t : FixTy) : UInt8 := UInt8.ofNat t.tag
def FixTy.atomTag (t : FixTy) : UInt8 := UInt8.ofNat (256 - t.tag)
def FnKind.wireTag (k : FnKind) : UInt8 := UInt8.ofNat k.tag

def raySerdeNull : UInt8 := 126
def rayError : UInt8 := 127
def raySymVec : UInt8 := 12
def rayStrVec : UInt8 := 13
def raySymAtom : UInt8 := 244
def rayStrAtom : UInt8 := 243
def rayList : UInt8 := 0
def rayTable : UInt8 := 98
def rayDict : UInt8 := 99
def rayLambda : UInt8 := 100

def raySerdeAttrWireMask : UInt8 := rayAttrHasNulls ||| rayAttrSorted
def raySymW64 : UInt8 := 3

def wireLen (n : ℕ) : Bytes := leBytes 8 n

def errField (code : Bytes) : Bytes := (code ++ List.replicate 7 0).take 7 ++ [0]

def serAtom : Atom → Bytes
  | .fixed t c _ => t.atomTag :: 0 :: c.bytes
  | .null t => t.atomTag :: 1 :: nullBytes t
  | .nullStr => rayStrAtom :: 1 :: wireLen 0
  | .sym s quoted => raySymAtom :: (if quoted then attrQuoted else 0) :: (s ++ [0])
  | .str s => rayStrAtom :: 0 :: (wireLen s.length ++ s)

def serSyms (cells : List Bytes) : Bytes := cells.flatMap fun s => s ++ [0]
def serStrs (cells : List Bytes) : Bytes := cells.flatMap fun s => wireLen s.length ++ s

def rayStrInlineMax : ℕ := 12

-- bytes 8 to 15 of a slice header are its offset, and `ser_raw` reads them as `str_pool`: a
-- nonzero offset is dereferenced, a zero one leaves pooled strings without a base
def strPoolReadable : Vec Bytes → Bool
  | .owned _ _ => true
  | .slice a parent offset len h =>
    offset == 0 && (Vec.slice a parent offset len h).cells.all fun s => s.length ≤ rayStrInlineMax

def wireAttrs (a : UInt8) : UInt8 := a &&& rayAttrHasNulls

def serSchemaNames (names : List Bytes) : Bytes :=
  raySymVec :: raySymW64 :: (wireLen names.length ++ serSyms names)

def fnWireName (name : Bytes) : Bytes := name.take 15

mutual

-- the bytes counted by the return value; `none` is a read through a bad pointer
def raySerRaw : Obj → Option Bytes
  | .nullPtr => some [raySerdeNull]
  | .error code => some (rayError :: errField code)
  | .null => some [raySerdeNull]
  | .atom a => some (serAtom a)
  | .vec t v => some (t.vecTag :: wireAttrs v.attrs :: (wireLen v.cells.length ++ v.cells.flatMap Cell.bytes))
  | .symVec attrs cells => some (raySymVec :: wireAttrs attrs :: (wireLen cells.length ++ serSyms cells))
  | .symSlice attrs block offset len _ =>
    (symSliceCells attrs block offset len).map fun cells =>
      raySymVec :: wireAttrs (rayAttrSlice ||| (attrs &&& raySymWMask)) :: (wireLen len ++ serSyms cells)
  | .strVec v =>
    if strPoolReadable v then
      some (rayStrVec :: wireAttrs v.attrs :: (wireLen v.cells.length ++ serStrs v.cells))
    else none
  | .list attrs elems =>
    (serElems elems).map fun bs =>
      rayList :: (attrs &&& raySerdeAttrWireMask) :: (wireLen elems.length ++ bs)
  | .table attrs names colAttrs cols =>
    (serElems cols).map fun bs =>
      rayTable :: (attrs &&& raySerdeAttrWireMask) :: (serSchemaNames names ++
        rayList :: (colAttrs &&& raySerdeAttrWireMask) :: (wireLen cols.length ++ bs))
  | .dict attrs keys vals =>
    (raySerRaw keys).bind fun ks => (raySerRaw vals).map fun vs =>
      rayDict :: (attrs &&& raySerdeAttrWireMask) :: (ks ++ vs)
  | .lambda _ params body =>
    (raySerRaw params).bind fun ps => (raySerRaw body).map fun bs => rayLambda :: 0 :: (ps ++ bs)
  | .fn kind name => some (kind.wireTag :: (fnWireName name ++ [0]))
  | .other _ _ => some []

def serElems : List Obj → Option Bytes
  | [] => some []
  | e :: es => (raySerRaw e).bind fun b => (serElems es).map fun bs => b ++ bs

end

def rayMaxLen : ℕ := (2 ^ 63 - 1 - 32) / 16

def schemaNamesSerdeSize (names : List Bytes) : ℤ :=
  1 + 1 + 8 + (names.map fun s => (s.length : ℤ) + 1).sum

def guardLen (n : ℕ) (size : ℤ) : ℤ := if rayMaxLen < n then -1 else size

mutual

def raySerdeSize : Obj → ℤ
  | .nullPtr => 1
  | .error _ => 1 + 8
  | .null => 1
  | .atom (.fixed t _ _) => 1 + 1 + t.size
  | .atom (.null t) => 1 + 1 + t.size
  | .atom .nullStr => 1 + 1 + 8 + 0
  | .atom (.sym s _) => 1 + 1 + s.length + 1
  | .atom (.str s) => 1 + 1 + 8 + s.length
  | .vec t v => guardLen v.cells.length (1 + 1 + 8 + v.cells.length * t.size)
  | .symVec _ cells => guardLen cells.length (1 + 1 + 8 + (cells.map fun s => (s.length : ℤ) + 1).sum)
  | .symSlice attrs block offset len _ =>
    guardLen len (1 + 1 + 8 + ((symSliceCounted attrs block offset len).map fun s => (s.length : ℤ) + 1).sum)
  | .strVec v => guardLen v.cells.length (1 + 1 + 8 + (v.cells.map fun s => 8 + (s.length : ℤ)).sum)
  | .list _ elems => guardLen elems.length (1 + 1 + 8 + serdeSizes elems)
  | .table _ names _ cols =>
    1 + 1 + schemaNamesSerdeSize names + guardLen cols.length (1 + 1 + 8 + serdeSizes cols)
  | .dict _ keys vals => 1 + 1 + raySerdeSize keys + raySerdeSize vals
  | .lambda _ params body => 1 + 1 + raySerdeSize params + raySerdeSize body
  | .fn _ name => 1 + (fnWireName name).length + 1
  | .other _ _ => 0

def serdeSizes : List Obj → ℤ
  | [] => 0
  | e :: es => raySerdeSize e + serdeSizes es

end

def serHeader (size : ℕ) : Bytes := [0xfa, 0xde, 0xfa, 0xce, 3, 0, 0, 0] ++ leBytes 8 size

def codeDomain : Bytes := [0x64, 0x6f, 0x6d, 0x61, 0x69, 0x6e]

inductive SerResult
  | fault
  | error (code : Bytes)
  | frame (bytes : Bytes)
  deriving DecidableEq

def rayIsLazy : Obj → Bool
  | .other tag _ => tag == 104
  | _ => false

def serPayload (o : Obj) : SerResult :=
  if raySerdeSize o ≤ 0 then .error codeDomain
  else
    match raySerRaw o with
    | none => .fault
    | some [] => .error codeDomain
    | some bs => .frame (serHeader (raySerdeSize o).toNat ++ bs)

def raySer (rt : Runtime) (o : Obj) : SerResult :=
  if rayIsLazy o then
    match rt.materialize o with
    | .error code => .error code
    | o => serPayload o
  else serPayload o

end Rayforce.Serde
