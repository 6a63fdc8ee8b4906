import Rayforce.Serde.Encode
import Rayforce.Store.Object

/-! `col.c`: the bytes of a column file. -/

namespace Rayforce.Store

open Library.Words
open Rayforce.Serde (FixTy Cell Vec raySymWMask rayAttrSlice rayAttrSorted rayAttrHasNulls)

def strListMagic : Bytes := leBytes 4 0x4C525453
def strVecMagic : Bytes := leBytes 4 0x56525453
def listMagic : Bytes := leBytes 4 0x4754534C
def tableMagic : Bytes := leBytes 4 0x4C425454
def colIdxAuxMagic : Bytes := leBytes 4 0x58444958

def raySymTag : UInt8 := 12
def rayStrTag : UInt8 := 13
def rayListTag : UInt8 := 0
def rayTableTag : UInt8 := 98
def rayDictTag : UInt8 := 99
def symAtomTag : UInt8 := 244
def strAtomTag : UInt8 := 243

def rayColFormatMajor : UInt8 := 0

def counted (s : Bytes) : Bytes := leBytes 4 s.length ++ s

def isStrAtom : Obj → Bool
  | .atom (.str _) => true
  | _ => false

def isStrList (es : List Obj) : Bool := es.all isStrAtom

def strOf : Obj → Bytes
  | .atom (.str s) => s
  | _ => []

def colSaveStrList (es : List Obj) : Bytes := strListMagic ++ leBytes 8 es.length ++ es.flatMap fun e =>
  counted (strOf e)

def Obj.len : Obj → ℕ
  | .vec _ v => v.cells.length
  | .symVec v => v.len
  | .symSlice _ _ len _ => len
  | .strVec v => v.descs.length
  | .strSlice _ _ len _ => len
  | .list es => es.length
  | .table _ _ | .dict _ _ => 2
  | .nullPtr | .error | .atom _ | .other _ => 0

def rayTableNrows (cols : List Obj) : ℕ := (cols.head?.map Obj.len).getD 0

def writeAtom : Atom → Bytes
  | .fixed tag slot _ => tag :: slot
  | .guid _ addr => guidTag :: addr
  | .sym s _ => symAtomTag :: counted s
  | .str s => strAtomTag :: counted s

def sliceAttrs (attrs : UInt8) : UInt8 := rayAttrSlice ||| (attrs &&& raySymWMask)

def writeStrs (attrs : UInt8) (descs : List Desc) (pool : Bytes) : Bytes :=
  rayStrTag :: (leBytes 8 descs.length ++ attrs :: (descs.flatMap Desc.bytes ++ leBytes 8 pool.length ++ pool))

def writeSyms (v : SymVec) (offset len : ℕ) : Except Fail Bytes :=
  ((List.range len).mapM fun i => v.raySymVecCell offset i).map fun ss =>
    raySymTag :: (leBytes 8 len ++ ss.flatMap counted)

mutual

def colWriteRecursive : Obj → Except Fail Bytes
  | .nullPtr | .error => .error (.error .type)
  | .atom a => .ok (writeAtom a)
  | .vec t v => .ok (t.vecTag :: (leBytes 8 v.cells.length ++ v.cells.flatMap Cell.bytes))
  | .symVec v => writeSyms v 0 v.len
  | .symSlice v offset len _ => writeSyms v offset len
  | .strVec v => .ok (writeStrs v.attrs v.descs v.pool)
  -- bytes 8 to 15 of a slice header are its offset, and they are read as the pool pointer
  | .strSlice v offset len _ =>
    if offset = 0 then .ok (writeStrs (sliceAttrs v.attrs) (v.descs.take len) []) else .error .fault
  | .list es => (writeElems es).map fun bs => rayListTag :: (leBytes 8 es.length ++ bs)
  | .table ids cols => (writeCols ids cols).map fun bs =>
      rayTableTag :: (leBytes 8 ids.length ++ leBytes 8 (rayTableNrows cols) ++ bs)
  | .dict keys vals => do
    let ks ← colWriteRecursive keys
    let vs ← colWriteRecursive vals
    return rayDictTag :: (ks ++ vs)
  | .other _ => .error (.error .nyi)

def writeElems : List Obj → Except Fail Bytes
  | [] => .ok []
  | e :: es => do
    let b ← colWriteRecursive e
    let bs ← writeElems es
    return b ++ bs

def writeCols : List ℕ → List Obj → Except Fail Bytes
  | [], _ => .ok []
  | _ :: _, [] => .error (.error .type)
  | i :: ids, c :: cols => do
    let b ← colWriteRecursive c
    let bs ← writeCols ids cols
    return leBytes 8 i ++ b ++ bs

end

mutual

def colPreflightRecursive : Obj → Except Err Unit
  | .nullPtr | .error => .error .type
  | .atom _ | .vec _ _ | .symVec _ | .symSlice _ _ _ _ | .strVec _ | .strSlice _ _ _ _ => .ok ()
  | .list es => preflightElems es
  | .table ids cols => preflightCols ids cols
  | .dict keys vals => do
    colPreflightRecursive keys
    colPreflightRecursive vals
  | .other _ => .error .nyi

def preflightElems : List Obj → Except Err Unit
  | [] => .ok ()
  | e :: es => do
    colPreflightRecursive e
    preflightElems es

def preflightCols : List ℕ → List Obj → Except Err Unit
  | [], _ => .ok ()
  | _ :: _, [] => .error .type
  | _ :: ids, c :: cols => do
    colPreflightRecursive c
    preflightCols ids cols

end

def rayColSavePreflight : Obj → Except Err Unit
  | .nullPtr | .error => .error .type
  | .vec _ _ | .symVec _ | .symSlice _ _ _ _ | .strVec _ | .strSlice _ _ _ _ => .ok ()
  | .list es => colPreflightRecursive (.list es)
  | .table ids cols => colPreflightRecursive (.table ids cols)
  | .atom _ | .dict _ _ | .other _ => .error .nyi

def raySymDictWidth (n : ℕ) : ℕ :=
  if n ≤ 255 then 0 else if n ≤ 65535 then 1 else if n ≤ 4294967295 then 2 else 3

structure Extra where
  addr : Bytes
  index : Option Bytes

def headerBytes (aux : Bytes) (tag attrs : UInt8) (rc len : ℕ) : Bytes :=
  aux ++ [0, rayColFormatMajor, tag, attrs] ++ leBytes 4 rc ++ leBytes 8 len

def headerAux (x : Extra) (attrs tag : UInt8) : Bytes :=
  if x.index.isSome then colIdxAuxMagic ++ List.replicate 12 0
  else if attrs &&& rayAttrHasNulls = 0 ∨ tag = raySymTag then List.replicate 16 0
  else List.replicate 8 0 ++ x.addr

def padTo32 (n : ℕ) : Bytes := List.replicate ((n + 31) / 32 * 32 - n) 0

def indexRegion (x : Extra) (payloadEnd : ℕ) : Bytes :=
  match x.index with
  | none => []
  | some region => padTo32 payloadEnd ++ region

def saveRaw (x : Extra) (tag attrs : UInt8) (rc len : ℕ) (data : Bytes) : Bytes :=
  headerBytes (headerAux x attrs tag) tag attrs rc len ++ data ++ indexRegion x (32 + data.length)

def poolHeader (n : ℕ) : Bytes := headerBytes (List.replicate 16 0) 2 0 0 n

def saveStrs (x : Extra) (attrs : UInt8) (descs : List Desc) (pool : Bytes) : Bytes :=
  headerBytes (headerAux x attrs rayStrTag) rayStrTag attrs 0 descs.length ++ descs.flatMap Desc.bytes ++
    poolHeader pool.length ++ pool

def savedAttrs (attrs : UInt8) : UInt8 := attrs &&& ~~~0x1C

def symBytes (width : ℕ) (ids : List ℕ) : Bytes := ids.flatMap (leBytes (2 ^ width))

def symXlate (names : List Bytes) (v : SymVec) (offset len : ℕ) : Except Fail (List ℕ) :=
  (List.range len).mapM fun i => (v.raySymVecCell offset i).map names.idxOf

def saveSyms (names : List Bytes) (x : Extra) (attrs : UInt8) (v : SymVec) (offset len : ℕ) : Except Fail Bytes :=
  if v.runtime then
    .ok (saveRaw x raySymTag (savedAttrs attrs) (names.length % 2 ^ 32) len
      (symBytes v.width ((v.block.drop offset).take len)))
  else (symXlate names v offset len).map fun ids =>
    let w := raySymDictWidth names.length
    let attrs := savedAttrs attrs &&& ~~~(raySymWMask ||| rayAttrSorted) ||| UInt8.ofNat w
    saveRaw x raySymTag attrs (names.length % 2 ^ 32) len (symBytes w ids)

def rayColSave (names : List Bytes) (x : Extra) : Obj → Except Fail Bytes
  | .nullPtr | .error => .error (.error .type)
  | .vec t v => .ok (saveRaw x t.vecTag (savedAttrs v.attrs) 0 v.cells.length (v.cells.flatMap Cell.bytes))
  | .symVec v => saveSyms names x v.attrs v 0 v.len
  | .symSlice v offset len _ => saveSyms names x (sliceAttrs v.attrs) v offset len
  | .strVec v => .ok (saveStrs x (savedAttrs v.attrs) v.descs v.pool)
  | .strSlice v offset len _ =>
    if offset = 0 then .ok (saveStrs x (savedAttrs (sliceAttrs v.attrs)) (v.descs.take len) []) else .error .fault
  | .list es => if isStrList es then .ok (colSaveStrList es) else (colWriteRecursive (.list es)).map
    (listMagic ++ ·)
  | .table ids cols => (colWriteRecursive (.table ids cols)).map (tableMagic ++ ·)
  | .atom _ | .dict _ _ | .other _ => .error (.error .nyi)

end Rayforce.Store
