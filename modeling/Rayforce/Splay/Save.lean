import Rayforce.Library.Files
import Rayforce.Domain.Object
import Rayforce.Store.Read

/-! `splay.c`: tables as directories, and the symbol file. -/

namespace Rayforce.Splay

open Library.Words Library.Files
open Rayforce.Serde (raySymWMask rayAttrSorted)
open Rayforce.Store (Obj SymVec StrVec Desc Extra)
open Rayforce.Domain (SymDomain)

structure Loc where
  dir : Bytes
  name : Bytes
  deriving DecidableEq

def dotTmp : Bytes := [0x2E, 0x74, 0x6D, 0x70]
def dotLink : Bytes := [0x2E, 0x6C, 0x69, 0x6E, 0x6B]
def dotLk : Bytes := [0x2E, 0x6C, 0x6B]
def dotD : Bytes := [0x2E, 0x64]

namespace Loc

def tmp (f : Loc) : Loc := ⟨f.dir, f.name ++ dotTmp⟩

def link (f : Loc) : Loc := ⟨f.dir, f.name ++ dotLink⟩

def lk (f : Loc) : Loc := ⟨f.dir, f.name ++ dotLk⟩

def path (f : Loc) : ℕ := f.dir.length + 1 + f.name.length

end Loc

structure Column where
  name : Bytes
  obj : Obj
  link : Option Bytes
  extra : Extra
  own : Bool

inductive Err
  | col (e : Store.Err)
  | domain | reserved | io | oom | range | corrupt
  deriving DecidableEq

/-- `crash` is a read outside an object's memory. -/
inductive Stop
  | crash
  | error (e : Err)
  deriving DecidableEq

structure Plan where
  ops : List (Op Loc)
  stop : Option Stop

def Plan.andThen (p q : Plan) : Plan :=
  match p.stop with
  | some _ => p
  | none => ⟨p.ops ++ q.ops, q.stop⟩

def Plan.halt (s : Stop) : Plan := ⟨[], some s⟩

def symParts : Obj → Option (SymVec × ℕ × ℕ)
  | .symVec v => some (v, 0, v.len)
  | .symSlice v offset len _ => some (v, offset, len)
  | _ => none

def tableHasSymCols (tbl : List Column) : Bool := tbl.any fun c => (symParts c.obj).isSome

def tableHasColNamed (tbl : List Column) (name : Bytes) : Bool := tbl.any fun c => c.name = name

def splayColNameSafe (name : Bytes) : Bool :=
  name != [] && name.head? != some 0x2E && !name.contains 0x2F && !name.contains 0x5C && !name.contains 0

def persistedNames (tbl : List Column) : List Bytes := (tbl.map Column.name).filter splayColNameSafe

def preflightAll (tbl : List Column) : Except Store.Err Unit := tbl.forM fun c => Store.rayColSavePreflight c.obj

def symfileClash (tbl : List Column) (dir : Bytes) (sym : Loc) : Bool :=
  sym.dir = dir && (tableHasColNamed tbl sym.name || tableHasColNamed tbl (sym.name ++ dotLk))

def openDomain (file : Option Bytes) (cached : Option SymDomain) : Except Stop SymDomain :=
  match Domain.domOpenImpl file cached true with
  | none => .error .crash
  | some (true, some d) => .ok d
  | some _ => .error (.error .io)

def internCell (d : SymDomain) (s : Bytes) : Except Stop SymDomain :=
  match Domain.raySymDomainIntern d s with
  | none => .error .crash
  | some (none, _) => .error (.error .oom)
  | some (some _, d) => .ok d

def seedDomain (d : SymDomain) : Except Stop SymDomain :=
  if d.count = 0 then internCell d [] else .ok d

def cellStr (v : SymVec) (offset i : ℕ) : Except Stop Bytes :=
  match v.raySymVecCell offset i with
  | .error .fault => .error .crash
  | .error (.error _) => .error (.error .corrupt)
  | .ok s => .ok s

def mergeColumn (d : SymDomain) (c : Column) : Except Stop SymDomain :=
  match symParts c.obj with
  | none => .ok d
  | some (v, offset, len) =>
    if c.own then .ok d
    else (List.range len).foldlM (fun d i => (cellStr v offset i).bind (internCell d)) d

def mergeVocabulary (file : Option Bytes) (cached : Option SymDomain) (tbl : List Column) :
    Except Stop SymDomain := do
  let d ← openDomain file cached
  let d ← seedDomain d
  tbl.foldlM mergeColumn d

def flushPlan (sym : Loc) (file : Option Bytes) (d : SymDomain) : Plan :=
  if d.count = d.diskCount then ⟨[], none⟩
  else
    match Domain.raySymDomainFlush file d with
    | none => ⟨[.create sym.lk], some .crash⟩
    | some (.corrupt, _, _) => ⟨[.create sym.lk], some (.error .corrupt)⟩
    | some (.range, _, _) => ⟨[.create sym.lk, .abandon sym.tmp], some (.error .range)⟩
    | some (.ok, file, _) => ⟨.create sym.lk :: replace sym.tmp sym (file.getD []) true, none⟩

def cellPos (d : SymDomain) (own : Bool) (v : SymVec) (offset i : ℕ) : Except Stop ℕ :=
  if own then
    match v.block[v.dataIndex offset i]? with
    | none => .error .crash
    | some pos => if pos < d.count then .ok pos else .error (.error .corrupt)
  else (cellStr v offset i).bind fun s =>
    match Domain.raySymDomainFind d s with
    | none => .error .crash
    | some (none, _) => .error (.error .corrupt)
    | some (some pos, _) => .ok pos

def vecAttrs : Obj → UInt8
  | .symSlice v _ _ _ => Store.sliceAttrs v.attrs
  | .symVec v => v.attrs
  | _ => 0

def rayColSaveSymEncoded (d : SymDomain) (c : Column) (v : SymVec) (offset len : ℕ) : Except Stop Bytes :=
  if 2 ^ 32 - 1 < d.count then .error (.error .range)
  else ((List.range len).mapM (cellPos d c.own v offset)).map fun ids =>
    let w := Store.raySymDictWidth d.count
    let keepSorted := if c.own then vecAttrs c.obj &&& rayAttrSorted else 0
    Store.headerBytes (List.replicate 16 0) Store.raySymTag (UInt8.ofNat w ||| keepSorted) d.count len ++
      Store.symBytes w ids

def encodeColumn (names : List Bytes) (target : Option SymDomain) (c : Column) : Except Stop Bytes :=
  match symParts c.obj with
  | some (v, offset, len) =>
    match target with
    | none => .error (.error .io)
    | some d => rayColSaveSymEncoded d c v offset len
  | none =>
    match Store.rayColSave names c.extra c.obj with
    | .error .fault => .error .crash
    | .error (.error e) => .error (.error (.col e))
    | .ok bs => .ok bs

def pathMax : ℕ := 1024

def linkOps (f : Loc) (link : Option Bytes) : List (Op Loc) :=
  if pathMax ≤ f.path + 6 then []
  else
    match link with
    | none => [.remove f.link]
    | some [] => []
    | some (b :: bs) => if pathMax ≤ f.path + 10 then [] else [.sidecar f.link.tmp f.link (b :: bs)]

def Column.target (c : Column) : Option Bytes := if (symParts c.obj).isSome then none else c.link

def columnPlan (names : List Bytes) (target : Option SymDomain) (dir : Bytes) (c : Column) : Plan :=
  let f : Loc := ⟨dir, c.name⟩
  if splayColNameSafe c.name = false then ⟨[], none⟩
  else if pathMax ≤ f.path then .halt (.error .range)
  else if pathMax ≤ f.path + 4 then .halt (.error .io)
  else
    match encodeColumn names target c with
    | .error s => ⟨[.abandon f.tmp], some s⟩
    | .ok bs => ⟨replace f.tmp f bs (symParts c.obj).isSome ++ linkOps f c.target, none⟩

def inlineDesc (s : Bytes) (h : s.length ≤ Store.rayStrInlineMax) : Desc where
  bytes := leBytes 4 s.length ++ s ++ List.replicate (12 - s.length) 0
  width := by
    rw [Store.rayStrInlineMax] at h
    simp
    omega

def pooledDesc (s : Bytes) (off : ℕ) (h : Store.rayStrInlineMax < s.length) : Desc where
  bytes := leBytes 4 s.length ++ s.take 4 ++ leBytes 4 off ++ [0, 0, 0, 0]
  width := by
    rw [Store.rayStrInlineMax] at h
    simp
    omega

def rayStrVecAppend (v : StrVec) (s : Bytes) : Option StrVec :=
  if 2 ^ 32 - 1 < s.length then none
  else if h : s.length ≤ Store.rayStrInlineMax then some { v with descs := v.descs ++ [inlineDesc s h] }
  else if 2 ^ 32 - 1 < v.pool.length + s.length then none
  else some { v with descs := v.descs ++ [pooledDesc s v.pool.length (not_le.mp h)], pool := v.pool ++ s }

def emptyStrs : StrVec := ⟨0, [], []⟩

def schemaOf (tbl : List Column) : Option StrVec := (persistedNames tbl).foldlM rayStrVecAppend emptyStrs

def columnsPlan (names : List Bytes) (target : Option SymDomain) (dir : Bytes) : StrVec → List Column → Plan
  | _, [] => ⟨[], none⟩
  | schema, c :: cs =>
    (columnPlan names target dir c).andThen
      (if splayColNameSafe c.name = false then columnsPlan names target dir schema cs
      else
        match rayStrVecAppend schema c.name with
        | none => .halt (.error .range)
        | some schema => columnsPlan names target dir schema cs)

def schemaBytes (v : StrVec) : Bytes := Store.saveStrs ⟨List.replicate 8 0, none⟩ v.attrs v.descs v.pool

def schemaPlan (tbl : List Column) (dir : Bytes) : Plan :=
  let f : Loc := ⟨dir, dotD⟩
  match schemaOf tbl with
  | none => .halt (.error .range)
  | some schema =>
    if pathMax ≤ f.path then .halt (.error .range)
    else if pathMax ≤ f.path + 4 then .halt (.error .io)
    else ⟨replace f.tmp f (schemaBytes schema) false ++ linkOps f none, none⟩

def splaySweepStale (tbl : List Column) (dir : Bytes) (f : Loc) : Bool :=
  f.dir = dir && f.name.head? != some 0x2E && !tableHasColNamed tbl f.name &&
    !(5 < f.name.length && f.name.drop (f.name.length - 5) =
      dotLink && tableHasColNamed tbl (f.name.take (f.name.length - 5))) &&
    f.path < pathMax

def tablePlan (names : List Bytes) (target : Option SymDomain) (tbl : List Column) (dir : Bytes) : Plan :=
  ((columnsPlan names target dir emptyStrs tbl).andThen (schemaPlan tbl dir)).andThen
    ⟨[.sweep (splaySweepStale tbl dir)], none⟩

def raySplaySave (names : List Bytes) (disk : Disk Loc) (cached : Option SymDomain)
    (tbl : List Column) (dir : Bytes)
    (sym : Option Loc) : Plan :=
  if ¬ (persistedNames tbl).Nodup then .halt (.error .domain)
  else
    match preflightAll tbl with
    | .error e => .halt (.error (.col e))
    | .ok () =>
      if tableHasSymCols tbl = false then tablePlan names none tbl dir
      else
        match sym with
        | none => .halt (.error .domain)
        | some f =>
          if symfileClash tbl dir f then .halt (.error .reserved)
          else
            match mergeVocabulary (disk f) cached tbl with
            | .error s => .halt s
            | .ok d => (flushPlan f (disk f) d).andThen (tablePlan names (some d) tbl dir)

open Library.Words Library.Files
open Rayforce.Store (Obj StrVec Desc Proc SymHome)

inductive LoadErr
  | col (e : Store.Err)
  | range | corrupt
  deriving DecidableEq

def openSymfile (file : Option Bytes) : Except LoadErr (Option (List Bytes)) :=
  match file with
  | none => .ok none
  | some image =>
    match Domain.domCreate image with
    | none => .error .corrupt
    | some d => .ok (some (d.offsets.map (Domain.recordAt image)))

def loadFile (p : Proc) (home : SymHome) (useMmap : Bool) (file : Bytes) : Except Store.Err Obj :=
  if useMmap then
    match Store.colMmapImpl p home file with
    | .error .nyi => Store.colLoadImpl p home file
    | r => r
  else Store.colLoadImpl p home file

def loadAt (disk : Disk Loc) (f : Loc) (load : Bytes → Except Store.Err Obj) : Except LoadErr Obj :=
  match disk f with
  | none => .error (.col .io)
  | some bs =>
    match load bs with
    | .error e => .error (.col e)
    | .ok o => .ok o

def loadColumns (p : Proc) (disk : Disk Loc) (dir : Bytes) (home : SymHome) (useMmap : Bool) :
    Option ℕ → List Bytes → Except LoadErr (List (Bytes × Obj))
  | _, [] => .ok []
  | nrows, name :: names =>
    if splayColNameSafe name = false then .error .corrupt
    else if pathMax ≤ (⟨dir, name⟩ : Loc).path then .error .range
    else do
      let col ← loadAt disk ⟨dir, name⟩ (loadFile p home useMmap)
      if nrows.elim false (col.len ≠ ·) then .error .corrupt
      else do
        let cols ← loadColumns p disk dir home useMmap (some (nrows.getD col.len)) names
        return (name, col) :: cols

def splayLoad (p : Proc) (disk : Disk Loc) (dir : Bytes) (sym : Option Loc) (useMmap : Bool) :
    Except LoadErr (List (Bytes × Obj)) := do
  let dom ← openSymfile (sym.bind disk)
  if pathMax ≤ (⟨dir, dotD⟩ : Loc).path then .error .range
  else do
    let schema ← loadAt disk ⟨dir, dotD⟩ (Store.colLoadImpl p .process)
    match schema with
    | .strVec v =>
      match v.descs.mapM (Desc.str v.pool) with
      | none => .error .corrupt
      | some names => loadColumns p disk dir (.symfile dom) useMmap none names
    | _ => .error .corrupt

end Rayforce.Splay
