import Rayforce.Library.Words
import Rayforce.Library.Binary64
import Rayforce.Library.Probing

namespace Rayforce.Symbol

open Library.Words

def wyp0 : UInt64 := 0x2d358dccaa6c78a5
def wyp1 : UInt64 := 0x8bb84b93962eacc9
def wyp2 : UInt64 := 0x4b33a62ed433d4a3
def wyp3 : UInt64 := 0x4d5a2da51de1aa47

def wymum (a b : UInt64) : UInt64 × UInt64 :=
  let r := a.toNat * b.toNat
  (UInt64.ofNat r, UInt64.ofNat (r / 2 ^ 64))

def wymix (a b : UInt64) : UInt64 := (wymum a b).1 ^^^ (wymum a b).2

def wyr8 (p : Bytes) : UInt64 := UInt64.ofNat (leNat (p.take 8))

def wyr4 (p : Bytes) : UInt64 := UInt64.ofNat (leNat (p.take 4))

def wyr3 (p : Bytes) (k : ℕ) : UInt64 :=
  ((p.getD 0 0).toUInt64 <<< 16) ||| ((p.getD (k / 2) 0).toUInt64 <<< 8) ||| (p.getD (k - 1) 0).toUInt64

structure Lanes where
  seed : UInt64
  see1 : UInt64
  see2 : UInt64

def wyBlocks48 : ℕ → Bytes → Lanes → Lanes × Bytes
  | 0, p, s => (s, p)
  | fuel + 1, p, s =>
    if 48 ≤ p.length then
      wyBlocks48 fuel (p.drop 48)
        { seed := wymix (wyr8 p ^^^ wyp1) (wyr8 (p.drop 8) ^^^ s.seed)
          see1 := wymix (wyr8 (p.drop 16) ^^^ wyp2) (wyr8 (p.drop 24) ^^^ s.see1)
          see2 := wymix (wyr8 (p.drop 32) ^^^ wyp3) (wyr8 (p.drop 40) ^^^ s.see2) }
    else (s, p)

def wyBlocks16 : ℕ → Bytes → UInt64 → UInt64
  | 0, _, seed => seed
  | fuel + 1, p, seed =>
    if 16 < p.length then
      wyBlocks16 fuel (p.drop 16) (wymix (wyr8 p ^^^ wyp1) (wyr8 (p.drop 8) ^^^ seed))
    else seed

def rayHashBytes (p : Bytes) : UInt64 :=
  let len := p.length
  let seed := wymix wyp0 wyp1
  let (seed, a, b) :=
    if len ≤ 16 then
      if 4 ≤ len then
        let step := len / 8 * 4
        (seed, (wyr4 p <<< 32) ||| wyr4 (p.drop step),
          (wyr4 (p.drop (len - 4)) <<< 32) ||| wyr4 (p.drop (len - 4 - step)))
      else if 0 < len then (seed, wyr3 p len, 0)
      else (seed, 0, 0)
    else
      let (seed, rest) :=
        if 48 ≤ len then
          let (s, rest) := wyBlocks48 len p ⟨seed, seed, seed⟩
          (s.seed ^^^ (s.see1 ^^^ s.see2), rest)
        else (seed, p)
      -- the last two words are read back from the end of the whole text
      (wyBlocks16 len rest seed, wyr8 (p.drop (len - 16)), wyr8 (p.drop (len - 8)))
  let (a, b) := wymum (a ^^^ wyp1) (b ^^^ seed)
  wymix (a ^^^ wyp0 ^^^ UInt64.ofNat len) (b ^^^ wyp1)

def symHash (s : Bytes) : ℕ := (rayHashBytes s).toNat % 2 ^ 32

end Rayforce.Symbol

/-! The global symbol intern table. The outermost `Option` is `none` when a probe loop would never end. -/

namespace Rayforce.Symbol

open Library.Binary64 Library.Words Library.Probing

structure Entry where
  hash : ℕ
  id : ℕ
deriving DecidableEq

/-- `strings[id]`, its two bits and its segment ids. -/
structure Slot where
  str : Option Bytes
  dotted : Bool
  scanned : Bool
  segs : List ℕ
deriving DecidableEq

def emptySlot : Slot := ⟨none, false, false, []⟩

/-- `rest` starts at the record of `nextId`. -/
structure LazyMap where
  count : ℕ
  nextId : ℕ
  rest : Bytes
deriving DecidableEq

structure SymTable where
  buckets : Cells Entry
  slots : List Slot
  strCap : ℕ
  lazy : Option LazyMap
deriving DecidableEq

inductive SymErr
  | ok
  | oom
  | corrupt
  | range
deriving DecidableEq

def symInitCap : ℕ := 256

def bucketCapMax : ℕ := 2 ^ 31

def strCapMax : ℕ := 2 ^ 31 - 1

def symStrlMagic : ℕ := 0x4C525453

def symLazyLoadMinBytes : ℕ := 64 * 1024 * 1024

namespace SymTable

variable (T : SymTable)

def count : ℕ := T.slots.length

def strAt (id : ℕ) : Option Bytes := (T.slots[id]?).bind Slot.str

def isScanned (id : ℕ) : Bool := (T.slots[id]?).elim false Slot.scanned

def pending : Bool := T.lazy.elim false fun l => l.nextId < l.count

def update (id : ℕ) (f : Slot → Slot) : SymTable := { T with slots := T.slots.modify id f }

def markScanned (id : ℕ) : SymTable := T.update id fun s => { s with scanned := true }

def cacheAt (id : ℕ) (ids : List ℕ) : SymTable :=
  T.update id fun s => { s with dotted := true, scanned := true, segs := ids }

end SymTable

def dot : UInt8 := 46

def cutSeg (skip : Bool) (rest : Bytes) : Bytes × Option Bytes :=
  let k := if skip then 1 else 0
  let tail := rest.drop k
  (rest.take k ++ tail.takeWhile (· ≠ dot), (tail.dropWhile (· ≠ dot)).tail?)

def segLoop : ℕ → Bool → Bytes → Bool × List Bytes
  | 0, _, _ => (true, [])
  | n + 1, skip, rest =>
    if rest = [] then (true, [])
    else
      let seg := (cutSeg skip rest).1
      if seg = [] then (false, [])
      else
        match (cutSeg skip rest).2 with
        | none => (true, [seg])
        | some rest' =>
          let r := segLoop n false rest'
          (r.1, seg :: r.2)

def scanDotted (s : Bytes) : Bool × List Bytes :=
  if dot ∉ s then (false, [])
  else if s.getLast? = some dot then (false, [])
  else
    let leading : Bool := s.head? = some dot
    if leading ∧ dot ∉ s.drop 1 then (false, [])
    else
      let sepDots := (if leading then s.drop 1 else s).count dot
      if 255 < sepDots + 1 then (false, [])
      else segLoop (sepDots + 1) leading s

def dottedSegs (s : Bytes) : Option (List Bytes) :=
  if (scanDotted s).1 then some (scanDotted s).2 else none

def htInsert (buckets : Cells Entry) (hash id : ℕ) : Option (Cells Entry) :=
  place buckets hash ⟨hash, id⟩

def htGrowTo (T : SymTable) (newCap : ℕ) : Option SymTable :=
  (rehash Entry.hash newCap T.buckets).map fun b => { T with buckets := b }

def htGrow (T : SymTable) : Option (Bool × SymTable) :=
  if bucketCapMax ≤ T.buckets.length then some (false, T)
  else (htGrowTo T (T.buckets.length * 2)).map fun T => (true, T)

def symProbe (T : SymTable) (hash : ℕ) (str : Bytes) : Option (Option ℕ) :=
  (lookup T.buckets hash fun e => e.hash == hash && T.strAt e.id == some str).map (·.map Entry.id)

def growLoaded (T : SymTable) : Option (Bool × SymTable) :=
  if T.buckets.length * 70 ≤ T.count * 100 then
    (htGrow T).map fun r => (r.1 || decide (r.2.count * 100 < r.2.buckets.length * 95), r.2)
  else some (true, T)

def symCommitNew (T : SymTable) (hash : ℕ) (str : Bytes) : Option (Option ℕ × SymTable) := do
  let (room, T) ← growLoaded T
  if room = false then return (none, T)
  let newId := T.count
  if T.strCap ≤ newId ∧ strCapMax ≤ T.strCap then return (none, T)
  let cap := if T.strCap ≤ newId then T.strCap * 2 else T.strCap
  let buckets ← htInsert T.buckets hash newId
  return (some newId, { T with
    buckets := buckets, strCap := cap, slots := T.slots ++ [{ emptySlot with str := some str }] })

def bucketTarget (need : ℕ) : ℕ → ℕ → Option ℕ
  | 0, _ => none
  | fuel + 1, target =>
    if target * 70 ≤ need * 100 then
      if bucketCapMax ≤ target then none else bucketTarget need fuel (target * 2)
    else some target

def strTarget (need : ℕ) : ℕ → ℕ → Option ℕ
  | 0, _ => none
  | fuel + 1, target =>
    if target < need then
      if strCapMax ≤ target then none else strTarget need fuel (target * 2)
    else some target

def growBuckets (T : SymTable) (target : ℕ) : Option SymTable :=
  if T.buckets.length < target then htGrowTo T target else some T

def symReserveCapacity (T : SymTable) (newSymCount : ℕ) : Option (Bool × SymTable) := do
  let newCount := T.count + newSymCount
  match bucketTarget newCount 33 T.buckets.length with
  | none => return (false, T)
  | some target =>
    let T ← growBuckets T target
    if T.strCap < newCount then
      match strTarget newCount 33 T.strCap with
      | none => return (false, T)
      | some cap => return (true, { T with strCap := cap })
    else return (true, T)

def materializeNext (T : SymTable) : Option (Bool × SymTable) :=
  match T.lazy with
  | none => some (false, T)
  | some l =>
    if l.rest.length < 4 then some (false, T)
    else
      let slen := leNat (l.rest.take 4)
      let rest := l.rest.drop 4
      -- a record that is refused below has already lost its length prefix
      let read := { T with lazy := some { l with rest := rest } }
      let next := some { l with rest := rest.drop slen, nextId := l.nextId + 1 }
      if rest.length < slen then some (false, read)
      else
        let sp := rest.take slen
        match T.strAt l.nextId with
        | some s => if s = sp then some (true, { T with lazy := next }) else some (false, read)
        | none => do
          let buckets ← htInsert T.buckets (symHash sp) l.nextId
          let T := T.update l.nextId fun s => { s with str := some sp }
          return (true, { T with buckets := buckets, lazy := next })

def materializeLoop : ℕ → SymTable → Option (Bool × SymTable)
  | 0, T => some (true, T)
  | n + 1, T => do
    let (ok, T) ← materializeNext T
    if ok then materializeLoop n T else return (false, T)

def symLazyMaterializeTo (T : SymTable) (target : ℕ) : Option (Bool × SymTable) :=
  match T.lazy with
  | none => some (false, T)
  | some l =>
    if l.count ≤ target then some (false, T)
    else if target < l.nextId then some ((T.strAt target).isSome, T)
    else materializeLoop (target + 1 - l.nextId) T

def materializeAll (T : SymTable) : Option (Bool × SymTable) :=
  symLazyMaterializeTo T (T.lazy.elim 0 fun l => l.count - 1)

def commitSegs : SymTable → List (Bytes × Option ℕ) → Option (Option (List ℕ) × SymTable)
  | T, [] => some (some [], T)
  | T, (_, some i) :: descs => do
    let (ids, T) ← commitSegs T descs
    return (ids.map (i :: ·), T)
  | T, (g, none) :: descs => do
    let (sid, T) ← symCommitNew T (symHash g) g
    match sid with
    | none => return (none, T)
    | some sid =>
      let (ids, T) ← commitSegs (T.markScanned sid) descs
      return (ids.map (sid :: ·), T)

def probeSegs (T : SymTable) (segs : List Bytes) : Option (List (Bytes × Option ℕ)) :=
  segs.mapM fun g => (symProbe T (symHash g) g).map fun i => (g, i)

def newSegCount (descs : List (Bytes × Option ℕ)) : ℕ := descs.countP fun d => d.2.isNone

def symCacheSegments (T : SymTable) (newId : ℕ) (str : Bytes) : Option (Bool × SymTable) :=
  if T.isScanned newId then some (true, T)
  else
    match dottedSegs str with
    | none => some (true, T.markScanned newId)
    | some segs => do
      let descs ← probeSegs T segs
      let (ok, T) ← symReserveCapacity T (newSegCount descs)
      if ok = false then return (false, T)
      let (ids, T) ← commitSegs T descs
      match ids with
      | none => return (false, T)
      | some ids => return (true, T.cacheAt newId ids)

def symInternNolockNoseg (T : SymTable) (hash : ℕ) (str : Bytes) : Option (Option ℕ × SymTable) := do
  match ← symProbe T hash str with
  | some i => return (some i, T)
  | none =>
    if T.pending then
      let (ok, T) ← materializeAll T
      if ok = false then return (none, T)
      match ← symProbe T hash str with
      | some i => return (some i, T)
      | none => symCommitNew T hash str
    else symCommitNew T hash str

def probeMain (T : SymTable) (hash : ℕ) (str : Bytes) (searchLazy : Bool) :
    Option (Bool × Option ℕ × SymTable) := do
  let existing ← symProbe T hash str
  if searchLazy ∧ existing = none ∧ T.pending then
    let (ok, T) ← materializeAll T
    if ok = false then return (false, none, T)
    let existing ← symProbe T hash str
    return (true, existing, T)
  else return (true, existing, T)

def commitMain (T : SymTable) (hash : ℕ) (str : Bytes) : Option (Option ℕ × SymTable) := do
  let (isDotted, segs) := scanDotted str
  let descs ← probeSegs T segs
  let (ok, T) ← symReserveCapacity T (1 + newSegCount descs)
  if ok = false then return (none, T)
  let (ids, T) ← if isDotted then commitSegs T descs else pure (some [], T)
  match ids with
  | none => return (none, T)
  | some ids =>
    let (mainId, T) ← symCommitNew T hash str
    match mainId with
    | none => return (none, T)
    | some mainId =>
      return (some mainId, if isDotted then T.cacheAt mainId ids else T.markScanned mainId)

def symInternNolock (T : SymTable) (hash : ℕ) (str : Bytes) (searchLazy : Bool) :
    Option (Option ℕ × SymTable) := do
  let (readable, existing, T) ← probeMain T hash str searchLazy
  if readable = false then return (none, T)
  match existing with
  | some i =>
    let (_, T) ← symCacheSegments T i str
    return (some i, T)
  | none => commitMain T hash str

def raySymIntern (T : SymTable) (str : Bytes) : Option (Option ℕ × SymTable) :=
  symInternNolock T (symHash str) str true

def raySymInternRuntime (T : SymTable) (str : Bytes) : Option (Option ℕ × SymTable) :=
  symInternNolock T (symHash str) str false

def raySymInternPrehashed (T : SymTable) (hash : ℕ) (str : Bytes) : Option (Option ℕ × SymTable) :=
  symInternNolock T hash str true

def raySymInternNoSplit (T : SymTable) (str : Bytes) : Option (Option ℕ × SymTable) :=
  symInternNolockNoseg T (symHash str) str

def rebuildLoop : List ℕ → SymTable → Option (SymErr × SymTable)
  | [], T => some (.ok, T)
  | i :: is, T =>
    if T.isScanned i then rebuildLoop is T
    else
      match T.strAt i with
      | none => rebuildLoop is T
      | some s => do
        let (ok, T) ← symCacheSegments T i s
        if ok then rebuildLoop is T else return (.oom, T)

def raySymRebuildSegments (T : SymTable) : Option (SymErr × SymTable) :=
  rebuildLoop (List.range T.count) T

def raySymFind (T : SymTable) (str : Bytes) : Option (Option ℕ × SymTable) := do
  match ← symProbe T (symHash str) str with
  | some i => return (some i, T)
  | none =>
    if T.pending then
      let (ok, T) ← materializeAll T
      if ok then
        let found ← symProbe T (symHash str) str
        return (found, T)
      else return (none, T)
    else return (none, T)

def raySymStr (T : SymTable) (id : ℕ) : Option (Option Bytes × SymTable) :=
  if T.count ≤ id then some (none, T)
  else if T.strAt id = none ∧ (T.lazy.elim false fun l => id < l.count) then do
    let (ok, T) ← symLazyMaterializeTo T id
    return (if ok then T.strAt id else none, T)
  else some (T.strAt id, T)

def raySymIsDotted (T : SymTable) (id : ℕ) : Bool := (T.slots[id]?).elim false Slot.dotted

def raySymSegs (T : SymTable) (id : ℕ) : List ℕ := (T.slots[id]?).elim [] Slot.segs

def roundUpPow2 (n : ℕ) : ℕ :=
  let n := (n + (2 ^ 32 - 1)) % 2 ^ 32
  let n := n ||| (n >>> 1)
  let n := n ||| (n >>> 2)
  let n := n ||| (n >>> 4)
  let n := n ||| (n >>> 8)
  let n := n ||| (n >>> 16)
  (n + 1) % 2 ^ 32

def rawBuckets (needed : ℕ) : Double :=
  ((Double.ofInt needed).div (Double.round (7 / 10))).add Double.one

def bucketsFor (raw : Double) : Option ℕ :=
  match raw.trunc with
  | some n => if (Double.ofInt (2 ^ 32 - 1)).lt raw then none else some (roundUpPow2 n.toNat)
  | none => none

def ensuredStrCap (cap needed : ℕ) : Option ℕ :=
  if needed ≤ cap then some cap
  else if strCapMax ≤ cap then none
  else if needed ≤ cap * 2 then some (cap * 2)
  else if roundUpPow2 needed = 0 then none
  else some (roundUpPow2 needed)

def raySymEnsureCap (T : SymTable) (needed : UInt32) : Option (Bool × SymTable) :=
  match ensuredStrCap T.strCap needed.toNat with
  | none => some (false, T)
  | some cap =>
    let T := { T with strCap := cap }
    match bucketsFor (rawBuckets needed.toNat) with
    | none => some (false, T)
    | some cap => (growBuckets T cap).map fun T => (true, T)

def record (s : Bytes) : Bytes := leBytes 4 s.length ++ s

def strlFile (names : List Bytes) : Bytes :=
  leBytes 4 symStrlMagic ++ leBytes 8 names.length ++ names.flatMap record

def materializeForSave (T : SymTable) : Option (Bool × SymTable) :=
  if T.lazy.elim false (fun l => 0 < l.count) then materializeAll T else some (true, T)

def raySymSave (T : SymTable) : Option (SymErr × Option Bytes × SymTable) := do
  let (ok, T) ← materializeForSave T
  if ok = false then return (.corrupt, none, T)
  match T.slots.mapM Slot.str with
  | none => return (.corrupt, none, T)
  | some names =>
    if names.any fun s => 2 ^ 32 ≤ s.length then return (.range, none, T)
    else return (.ok, some (strlFile names), T)

def loadEntries : ℕ → ℕ → Bytes → SymTable → Option (SymErr × Bytes × SymTable)
  | 0, _, rest, T => some (.ok, rest, T)
  | n + 1, i, rest, T =>
    if rest.length < 4 then some (.corrupt, rest, T)
    else
      let slen := leNat (rest.take 4)
      let rest := rest.drop 4
      if rest.length < slen then some (.corrupt, rest, T)
      else do
        let (id, T) ← raySymInternNoSplit T (rest.take slen)
        match id with
        | none => return (.oom, rest, T)
        | some id => if id = i then loadEntries n (i + 1) (rest.drop slen) T else return (.corrupt, rest, T)

def loadEager (T : SymTable) (diskCount : ℕ) (rest : Bytes) : Option (SymErr × SymTable) := do
  let (err, rest, T) ← loadEntries diskCount 0 rest T
  if err ≠ .ok then return (err, T)
  if rest ≠ [] then return (.corrupt, T)
  raySymRebuildSegments T

def reserveFor (T : SymTable) (diskCount : ℕ) : Option (Bool × SymTable) :=
  if T.count < diskCount then symReserveCapacity T (diskCount - T.count) else some (true, T)

def mapFile (T : SymTable) (diskCount : ℕ) (rest : Bytes) : SymTable := { T with
  slots := T.slots ++ List.replicate (diskCount - T.count) emptySlot
  lazy := some ⟨diskCount, 0, rest⟩ }

def validateMap (T : SymTable) (validate : ℕ) : Option (Bool × SymTable) :=
  if validate = 0 then some (true, T) else symLazyMaterializeTo T (validate - 1)

def loadLazy (T : SymTable) (diskCount : ℕ) (rest : Bytes) : Option (SymErr × SymTable) := do
  let validate := min T.count diskCount
  let (ok, T) ← reserveFor T diskCount
  if ok = false then return (.oom, T)
  let (ok, T) ← validateMap (mapFile T diskCount rest) validate
  if ok then return (.ok, T) else return (.corrupt, { T with lazy := none })

def raySymLoad (T : SymTable) (file : Bytes) : Option (SymErr × SymTable) :=
  if file.length < 12 then some (.corrupt, T)
  else if leNat (file.take 4) ≠ symStrlMagic then some (.corrupt, T)
  else
    let diskCount := leInt ((file.drop 4).take 8)
    if diskCount < 0 ∨ 2 ^ 32 - 1 < diskCount then some (.corrupt, T)
    else if symLazyLoadMinBytes ≤ file.length then loadLazy T diskCount.toNat (file.drop 12)
    else loadEager T diskCount.toNat (file.drop 12)

def emptyTable : SymTable :=
  ⟨List.replicate symInitCap none, [], symInitCap, none⟩

def raySymInit : Option (Option ℕ × SymTable) := symInternNolock emptyTable (symHash []) [] true

end Rayforce.Symbol
