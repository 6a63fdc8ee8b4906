import Rayforce.Library.Cursors
import Rayforce.Serde.Decode
import Rayforce.Splay.Save

/-! `col.c` on the mapping of a column file. -/

namespace Rayforce.Store.Raw

open Library.Words Library.Readers Library.Cursors
open Rayforce.Serde (FixTy Cell raySymWMask)

abbrev Rs := Scan Err

def byte : Rs UInt8 := do
  let bs ← fetch .corrupt 1
  pure (bs.headD 0)

def word (k : ℕ) : Rs ℕ := do
  let bs ← fetch .corrupt k
  pure (leNat bs)

def count : Rs ℕ := do
  let bs ← fetch .corrupt 8
  if leInt bs < 0 then stop .corrupt else pure (leInt bs).toNat

def roomFor (n : ℕ) : Rs Unit := do
  let r ← left
  if r / 4 < n then stop .corrupt else pure ()

def countedStr : Rs Bytes := do
  let n ← word 4
  fetch .corrupt n

def cells {α : Type} (size : ℕ) (f : (bs : Bytes) → bs.length = size → α) (n : ℕ) : Rs (List α) :=
  if (2 ^ 64 - 1) / size < n then stop .corrupt else fetchAll .corrupt size f n

def readAtom (tag : UInt8) : Rs Obj :=
  if tag = symAtomTag then do
    let s ← countedStr
    pure (.atom (.sym s false))
  else if tag = strAtomTag then do
    let s ← countedStr
    pure (.atom (.str s))
  else do
    let slot ← fetch .corrupt 8
    pure (.atom (.fixed tag slot false))

def readSyms (names : List Bytes) : Rs Obj := do
  let n ← count
  roomFor n
  let ss ← times countedStr n
  pure (.symVec (internSyms names ss))

def readVec (t : FixTy) : Rs Obj := do
  let n ← count
  let cs ← cells t.size Cell.mk n
  pure (.vec t (.owned 0 cs))

def readStrs : Rs Obj := do
  let n ← count
  let attrs ← byte
  let descs ← cells 16 Desc.mk n
  let size ← word 8
  if 2 ^ 63 - 1 < size then stop .corrupt
  else do
    let pool ← fetch .corrupt size
    pure (.strVec ⟨attrs &&& colDiskAttrsMask, descs, pool⟩)

def readList (child : Rs Obj) : Rs Obj := do
  let n ← count
  let es ← times child n
  pure (.list es)

def readCol (child : Rs Obj) : Rs (ℕ × Obj) := do
  let i ← word 8
  let c ← child
  pure (i, c)

def readTable (child : Rs Obj) : Rs Obj := do
  let counts ← fetch .corrupt 16
  if leInt (counts.take 8) < 0 then stop .corrupt
  else do
    let cols ← times (readCol child) (leInt (counts.take 8)).toNat
    pure (.table (cols.map Prod.fst) (cols.map Prod.snd))

def readDict (child : Rs Obj) : Rs Obj := do
  let keys ← child
  let vals ← child
  pure (.dict keys vals)

def readTagged (names : List Bytes) (child : Rs Obj) (tag : UInt8) : Rs Obj :=
  if 128 ≤ tag.toNat then readAtom tag
  else if tag = raySymTag then readSyms names
  else if tag = rayStrTag then readStrs
  else if tag = rayListTag then readList child
  else if tag = rayTableTag then readTable child
  else if tag = rayDictTag then readDict child
  else
    match fixTy? tag with
    | some t => readVec t
    | none => stop .nyi

def colReadRecursive (names : List Bytes) : ℕ → Rs Obj
  | 0 => fault
  | fuel + 1 => byte >>= readTagged names (colReadRecursive names fuel)

def colLoadStrList : Rs Obj := do
  let n ← count
  roomFor n
  let ss ← times countedStr n
  pure (.list (ss.map fun s => .atom (.str s)))

abbrev Outcome := ExceptT Err Option

def rd (m : Bytes) (p n : ℕ) : Outcome Bytes :=
  if p + n ≤ m.length then pure ((m.drop p).take n) else (none : Option (Except Err Bytes))

def rdAll {α : Type} (m : Bytes) (p size : ℕ) (f : (bs : Bytes) → bs.length = size → α) (n : ℕ) :
    Outcome (List α) :=
  if h : p + n * size ≤ m.length then
    pure (pieces size f n ((m.drop p).take (n * size)) (by rw [List.length_take, List.length_drop]; omega))
  else (none : Option (Except Err (List α)))

structure ColMapped where
  tag : UInt8
  attrs : UInt8
  savedSymCount : ℕ
  len : ℕ
  dataSize : ℕ
  strPoolOffset : ℕ
  strPoolSize : ℕ
  tailOffset : ℕ
  hasIndex : Bool
  indexOffset : ℕ

def checkDesc (m : Bytes) (offset poolSize p : ℕ) : Outcome Unit := do
  let d ← rd m p 16
  let len := leNat (d.take 4)
  let poolOff := leNat ((d.drop 8).take 4)
  if len ≤ rayStrInlineMax then pure ()
  else if poolSize = 0 ∨ poolSize < poolOff ∨ poolSize - poolOff < len then throw .corrupt
  else do
    let s ← rd m (offset + 32 + poolOff) 4
    if (d.drop 4).take 4 ≠ s then throw .corrupt else pure ()

def checkDescs (m : Bytes) (offset poolSize : ℕ) : (p n : ℕ) → Outcome Unit
  | _, 0 => pure ()
  | p, n + 1 => do
    checkDesc m offset poolSize p
    checkDescs m offset poolSize (p + 16) n

def colValidateStrRegion (m : Bytes) (len dataSize : ℕ) : Outcome (ℕ × ℕ) :=
  let offset := 32 + dataSize
  if m.length < offset ∨ m.length - offset < 32 then throw .corrupt
  else do
    let ty ← rd m (offset + 18) 1
    let size ← rd m (offset + 24) 8
    if ty.headD 0 ≠ 2 ∨ leInt size < 0 then throw .corrupt
    else if m.length - offset - 32 < (leInt size).toNat then throw .corrupt
    else do
      checkDescs m offset (leInt size).toNat 32 len
      pure (offset, (leInt size).toNat)

def colMapped (m : Bytes) (tag attrs : UInt8) (len : ℕ) (region : ℕ × ℕ) (tail : ℕ) : Outcome ColMapped := do
  let rc ← rd m 20 4
  let idxmg ← rd m 0 4
  return {
    tag, attrs, savedSymCount := leNat rc, len, dataSize := len * elemSize tag attrs, strPoolOffset := region.1
    strPoolSize := region.2, tailOffset := tail
    hasIndex := idxmg == colIdxAuxMagic && (tail + 31) / 32 * 32 + 32 + rayIndexSize ≤ m.length
    indexOffset := (tail + 31) / 32 * 32 }

def colValidateHeader (m : Bytes) : Outcome ColMapped :=
  if m.length < 32 then throw .corrupt
  else do
    let order ← rd m 17 1
    if order.headD 0 ≠ rayColFormatMajor then throw .version
    else do
      let tag ← rd m 18 1
      let attrs ← rd m 19 1
      let len ← rd m 24 8
      if tag.headD 0 ≠ raySymTag ∧ tag.headD 0 ≠ rayStrTag ∧ fixTy? (tag.headD 0) = none then throw .nyi
      else if leInt len < 0 then throw .corrupt
      else if (2 ^ 64 - 1 - 32) / elemSize (tag.headD 0) (attrs.headD 0) < (leInt len).toNat then throw .io
      else
        let dataSize := (leInt len).toNat * elemSize (tag.headD 0) (attrs.headD 0)
        if m.length < 32 + dataSize then throw .corrupt
        else if tag.headD 0 = rayStrTag then do
          let region ← colValidateStrRegion m (leInt len).toNat dataSize
          colMapped m (tag.headD 0) (attrs.headD 0) (leInt len).toNat region (region.1 + 32 + region.2)
        else colMapped m (tag.headD 0) (attrs.headD 0) (leInt len).toNat (0, 0) (32 + dataSize)

def colValidateMapped (m : Bytes) : Outcome ColMapped :=
  if m = [] then throw .io
  else if 4 ≤ m.length then do
    let magic ← rd m 0 4
    if magic ∈ extendedMagics then throw .nyi else colValidateHeader m
  else colValidateHeader m

def mappedBody (m : Bytes) (cm : ColMapped) : Outcome Body :=
  if cm.tag = raySymTag then do
    let ids ← rdAll m 32 (2 ^ (cm.attrs &&& raySymWMask).toNat) (fun bs _ => leNat bs) cm.len
    pure (.syms ids)
  else if cm.tag = rayStrTag then do
    let descs ← rdAll m 32 16 Desc.mk cm.len
    let pool ← rd m (cm.strPoolOffset + 32) cm.strPoolSize
    pure (.strs descs pool)
  else
    match fixTy? cm.tag with
    | some t => do
      let cs ← rdAll m 32 t.size Cell.mk cm.len
      pure (.fixed t cs)
    | none => throw .nyi

def symBound (dom : List Bytes) : ℕ := min dom.length (2 ^ 32 - 1)

def colAttach (names : List Bytes) (home : SymHome) (scan : Bool) (cm : ColMapped) (body : Body) :
    Except Err Obj :=
  let attrs := cm.attrs &&& colDiskAttrsMask
  match body with
  | .fixed t cs => .ok (.vec t (.owned attrs cs))
  | .strs descs pool => .ok (.strVec ⟨attrs, descs, pool⟩)
  | .syms ids =>
    match home with
    | .symfile none => .error .sym
    | .symfile (some dom) =>
      if 0 < cm.savedSymCount ∧ dom.length < cm.savedSymCount then .error .corrupt
      else if (scan ∨ cm.savedSymCount = 0) ∧ symBoundsOk ids (symBound dom) = false then .error .corrupt
      else .ok (symVecOf attrs dom false ids)
    | .process =>
      if 0 < cm.savedSymCount ∧ 0 < names.length ∧ names.length < cm.savedSymCount then .error .corrupt
      else if symBoundsOk ids names.length = false then .error .corrupt
      else .ok (symVecOf attrs names true ids)

def rayIndexTag : UInt8 := 97
def rayIdxFormatMajor : UInt8 := 1
def rayIdxHash : UInt8 := 1
def rayIdxDict : UInt8 := 7

def rayIndexInlineMap (m : Bytes) (region : ℕ) : Outcome (Option (UInt8 × UInt8)) := do
  let order ← rd m (region + 17) 1
  let len ← rd m (region + 24) 8
  if order.headD 0 ≠ rayIdxFormatMajor ∨ leInt len ≠ rayIndexSize then pure none
  else do
    let tag ← rd m (region + 18) 1
    let payload ← rd m (region + 32) rayIndexSize
    pure (some (tag.headD 0, payload.headD 0))

def isNumeric (tag : UInt8) : Bool := 1 ≤ tag.toNat && tag.toNat ≤ 10

def rayIndexAttachBuilt (tag : UInt8) : Option (UInt8 × UInt8) → Bool
  | none => false
  | some (block, kind) => block == rayIndexTag &&
      (isNumeric tag || (kind == rayIdxDict && tag == rayStrTag) || (kind == rayIdxHash && tag == raySymTag))

inductive Failure
  | col (e : Err)
  | de (code : Bytes)

/-- The symbol table, and what `ray_de_raw` runs in. -/
structure Process where
  names : List Bytes
  runtime : Serde.Runtime

def refuse {α : Type} (e : Err) : Option (Except Failure α) := some (.error (.col e))

def colLoadStrVec (p : Process) (m : Bytes) : Option (Except Failure Obj) :=
  if 2 ^ 63 - 1 < m.length then refuse .range
  else
    (Serde.rayDeRaw p.runtime m Serde.rayDeMaxDepth 0 ⟨m.length, 0, []⟩).map fun r =>
      match r.1 with
      | .nullPtr => .ok .nullPtr
      | .error code => .error (.de code)
      | .strVec v =>
        match v.cells.foldlM Splay.rayStrVecAppend Splay.emptyStrs with
        | some w => .ok (.strVec { w with attrs := v.attrs })
        | none => .error (.de Serde.codeRange)
      | _ => .error (.col .type)

def scanned (x : Rs Obj) (m : Bytes) : Option (Except Failure Obj) :=
  (x.on m ⟨4, m.length - 4⟩).map fun r => (r.map Prod.fst).mapError .col

def colCopy (p : Process) (home : SymHome) (m : Bytes) : Outcome Obj := do
  let cm ← colValidateMapped m
  let body ← mappedBody m cm
  colAttach p.names home true cm body

def colLoadImpl (p : Process) (home : SymHome) (m : Bytes) : Option (Except Failure Obj) :=
  if m = [] then refuse .io
  else if 4 ≤ m.length then
    (rd m 0 4).run.bind fun
      | .error e => refuse e
      | .ok magic =>
        if magic = strListMagic then scanned colLoadStrList m
        else if magic = strVecMagic then colLoadStrVec p (m.drop 4)
        else if magic = listMagic ∨ magic = tableMagic then scanned (colReadRecursive p.names m.length) m
        else (colCopy p home m).run.map (Except.mapError .col)
  else (colCopy p home m).run.map (Except.mapError .col)

structure MappedVec where
  value : Obj
  indexed : Bool

def colMmapImpl (p : Process) (home : SymHome) (m : Bytes) : Outcome MappedVec := do
  let cm ← colValidateMapped m
  if cm.hasIndex = false ∧ cm.tailOffset ≠ m.length then throw .io
  else do
    let body ← mappedBody m cm
    let value ← colAttach p.names home false cm body
    if cm.hasIndex then do
      let index ← rayIndexInlineMap m cm.indexOffset
      return ⟨value, rayIndexAttachBuilt cm.tag index⟩
    else return ⟨value, false⟩

end Rayforce.Store.Raw
