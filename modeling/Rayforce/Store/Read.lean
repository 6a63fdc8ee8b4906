import Rayforce.Library.Readers
import Rayforce.Store.Write

/-! `col.c`: the two loaders. -/

namespace Rayforce.Store

open Library.Words Library.Readers
open Rayforce.Serde (FixTy Cell Vec raySymWMask rayAttrSorted rayAttrHasNulls)

structure Proc where
  names : List Bytes
  deStrVec : Bytes → Except Err Obj

abbrev Rd := Reader Err

def byte : Rd UInt8
  | [] => .error .corrupt
  | b :: p => .ok (b, p)

def word (k : ℕ) : Rd ℕ := do
  let bs ← take Err.corrupt k
  pure (leNat bs)

def count : Rd ℕ := do
  let bs ← take Err.corrupt 8
  if leInt bs < 0 then fail .corrupt else pure (leInt bs).toNat

def roomFor (n : ℕ) : Rd Unit := fun p => if n ≤ p.length / 4 then .ok ((), p) else .error .corrupt

def countedStr : Rd Bytes := do
  let n ← word 4
  take Err.corrupt n

def cell (t : FixTy) : Rd (Cell t) := fun p =>
  if h : t.size ≤ p.length then .ok
    (⟨p.take t.size, by rw [List.length_take, min_eq_left h]⟩, p.drop t.size) else .error .corrupt

def desc : Rd Desc := fun p =>
  if h : 16 ≤ p.length then .ok (⟨p.take 16, by rw [List.length_take, min_eq_left h]⟩,
    p.drop 16) else .error .corrupt

def internSyms (names ss : List Bytes) : SymVec where
  attrs := 3
  dom := names ++ ss
  runtime := true
  block := ss.map (names ++ ss).idxOf
  len := ss.length
  inside := by rw [List.length_map]

def colDiskAttrsMask : UInt8 := raySymWMask ||| rayAttrSorted ||| rayAttrHasNulls

def fixTy? (tag : UInt8) : Option FixTy :=
  match tag.toNat with
  | 1 => some .bool
  | 2 => some .u8
  | 3 => some .i16
  | 4 => some .i32
  | 5 => some .i64
  | 6 => some .f32
  | 7 => some .f64
  | 8 => some .date
  | 9 => some .time
  | 10 => some .timestamp
  | 11 => some .guid
  | _ => none

def readAtom (tag : UInt8) : Rd Obj :=
  if tag = symAtomTag then do
    let s ← countedStr
    pure (.atom (.sym s false))
  else if tag = strAtomTag then do
    let s ← countedStr
    pure (.atom (.str s))
  else do
    let slot ← take Err.corrupt 8
    pure (.atom (.fixed tag slot false))

def readSyms (names : List Bytes) : Rd Obj := do
  let n ← count
  roomFor n
  let ss ← many countedStr n
  pure (.symVec (internSyms names ss))

def readVec (t : FixTy) : Rd Obj := do
  let n ← count
  let cells ← many (cell t) n
  pure (.vec t (.owned 0 cells))

def readStrs : Rd Obj := do
  let n ← count
  let attrs ← byte
  let descs ← many desc n
  let size ← word 8
  if 2 ^ 63 - 1 < size then fail .corrupt
  else do
    let pool ← take Err.corrupt size
    pure (.strVec ⟨attrs &&& colDiskAttrsMask, descs, pool⟩)

def readList (child : Rd Obj) : Rd Obj := do
  let n ← count
  let es ← many child n
  pure (.list es)

def readCol (child : Rd Obj) : Rd (ℕ × Obj) := do
  let i ← word 8
  let c ← child
  pure (i, c)

def readTable (child : Rd Obj) : Rd Obj := do
  let ncols ← take Err.corrupt 8
  let _ ← take Err.corrupt 8
  if leInt ncols < 0 then fail .corrupt
  else do
    let cols ← many (readCol child) (leInt ncols).toNat
    pure (.table (cols.map Prod.fst) (cols.map Prod.snd))

def readDict (child : Rd Obj) : Rd Obj := do
  let keys ← child
  let vals ← child
  pure (.dict keys vals)

def readTagged (names : List Bytes) (child : Rd Obj) (tag : UInt8) : Rd Obj :=
  if 128 ≤ tag.toNat then readAtom tag
  else if tag = raySymTag then readSyms names
  else if tag = rayStrTag then readStrs
  else if tag = rayListTag then readList child
  else if tag = rayTableTag then readTable child
  else if tag = rayDictTag then readDict child
  else
    match fixTy? tag with
    | some t => readVec t
    | none => fail .nyi

def colReadRecursive (names : List Bytes) : ℕ → Rd Obj
  | 0 => fail .corrupt
  | fuel + 1 => byte >>= readTagged names (colReadRecursive names fuel)

def colLoadStrList : Rd Obj := do
  let n ← count
  roomFor n
  let ss ← many countedStr n
  pure (.list (ss.map fun s => .atom (.str s)))

inductive SymHome
  | process
  | symfile (dom : Option (List Bytes))

inductive Body
  | fixed (t : FixTy) (cells : List (Cell t))
  | syms (ids : List ℕ)
  | strs (descs : List Desc) (pool : Bytes)

structure Mapped where
  attrs : UInt8
  rc : ℕ
  body : Body
  tail : ℕ
  hasIndex : Bool

def elemSize (tag attrs : UInt8) : ℕ :=
  if tag = raySymTag then 2 ^ (attrs &&& raySymWMask).toNat
  else if tag = rayStrTag then 16
  else ((fixTy? tag).map FixTy.size).getD 0

def readPool (descs : List Desc) : Rd Body := do
  let hdr ← take Err.corrupt 32
  if hdr.getD 18 0 ≠ 2 ∨ leInt (hdr.drop 24) < 0 then fail .corrupt
  else do
    let pool ← take Err.corrupt (leInt (hdr.drop 24)).toNat
    if ∀ d ∈ descs, d.Ok pool then pure (.strs descs pool) else fail .corrupt

def readBody (tag attrs : UInt8) (len : ℕ) : Rd Body :=
  if tag = raySymTag then do
    let ids ← many (word (2 ^ (attrs &&& raySymWMask).toNat)) len
    pure (.syms ids)
  else if tag = rayStrTag then do
    let descs ← many desc len
    readPool descs
  else
    match fixTy? tag with
    | some t => do
      let cells ← many (cell t) len
      pure (.fixed t cells)
    | none => fail .nyi

def extendedMagics : List Bytes := [strListMagic, strVecMagic, listMagic, tableMagic]

def rayIndexSize : ℕ := 96

def hasIndexRegion (file : Bytes) (tail : ℕ) : Bool :=
  file.take 4 == colIdxAuxMagic && (tail + 31) / 32 * 32 + 32 + rayIndexSize ≤ file.length

def colValidateMapped (file : Bytes) : Except Err Mapped :=
  if file = [] then .error .io
  else if 4 ≤ file.length ∧ file.take 4 ∈ extendedMagics then .error .nyi
  else if file.length < 32 then .error .corrupt
  else
    let tag := file.getD 18 0
    let attrs := file.getD 19 0
    let len := leInt ((file.drop 24).take 8)
    if file.getD 17 0 ≠ rayColFormatMajor then .error .version
    else if tag ≠ raySymTag ∧ tag ≠ rayStrTag ∧ fixTy? tag = none then .error .nyi
    else if len < 0 then .error .corrupt
    else if (2 ^ 64 - 1 - 32) / elemSize tag attrs < len.toNat then .error .io
    else do
      let (body, rest) ← readBody tag attrs len.toNat (file.drop 32)
      let tail := file.length - rest.length
      return { attrs, rc := leNat ((file.drop 20).take 4), body, tail, hasIndex := hasIndexRegion file tail }

def symBoundsOk (ids : List ℕ) (symCount : ℕ) : Bool :=
  symCount == 0 || ids.all fun i => i < symCount && i < 2 ^ 63

def symVecOf (attrs : UInt8) (dom : List Bytes) (runtime : Bool) (ids : List ℕ) : Obj :=
  .symVec ⟨attrs, dom, runtime, ids, ids.length, le_rfl⟩

def colAttach (p : Proc) (home : SymHome) (scan : Bool) (m : Mapped) : Except Err Obj :=
  let attrs := m.attrs &&& colDiskAttrsMask
  match m.body with
  | .fixed t cells => .ok (.vec t (.owned attrs cells))
  | .strs descs pool => .ok (.strVec ⟨attrs, descs, pool⟩)
  | .syms ids =>
    match home with
    | .symfile none => .error .sym
    | .symfile (some dom) =>
      if 0 < m.rc ∧ dom.length < m.rc then .error .corrupt
      else if (scan ∨ m.rc = 0) ∧ symBoundsOk ids dom.length = false then .error .corrupt
      else .ok (symVecOf attrs dom false ids)
    | .process =>
      if 0 < m.rc ∧ 0 < p.names.length ∧ p.names.length < m.rc then .error .corrupt
      else if symBoundsOk ids p.names.length = false then .error .corrupt
      else .ok (symVecOf attrs p.names true ids)

def colLoadImpl (p : Proc) (home : SymHome) (file : Bytes) : Except Err Obj :=
  if file = [] then .error .io
  else if file.take 4 = strListMagic then (colLoadStrList (file.drop 4)).map Prod.fst
  else if file.take 4 = strVecMagic then p.deStrVec (file.drop 4)
  else if file.take 4 = listMagic ∨ file.take 4 = tableMagic then
    (colReadRecursive p.names file.length (file.drop 4)).map Prod.fst
  else (colValidateMapped file).bind (colAttach p home true)

def colMmapImpl (p : Proc) (home : SymHome) (file : Bytes) : Except Err Obj :=
  (colValidateMapped file).bind fun m =>
    if m.hasIndex = false ∧ m.tail ≠ file.length then .error .io else colAttach p home false m

end Rayforce.Store
