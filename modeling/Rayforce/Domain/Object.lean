import Rayforce.Symbol.Snapshot

/-! A symbol-file domain, and what this process last saw of its file. -/

namespace Rayforce.Domain

open Library.Words Library.Probing
open Rayforce.Symbol (Entry symHash symStrlMagic strlFile)

/-- `offsets` covers the records of `image`; a slot of `atoms` may be unread. -/
structure SymDomain where
  image : Bytes
  offsets : List ℕ
  diskCount : ℕ
  diskSize : ℕ
  atoms : List (Option Bytes)
  buckets : Option (Cells Entry)
deriving DecidableEq

inductive FlushErr
  | ok
  | corrupt
  | range
deriving DecidableEq

namespace SymDomain

def count (d : SymDomain) : ℕ := d.atoms.length

def baseCount (d : SymDomain) : ℕ := d.offsets.length

end SymDomain

def recordAt (image : Bytes) (off : ℕ) : Bytes :=
  (image.drop (off + 4)).take (leNat ((image.drop off).take 4))

def scanRecords : ℕ → ℕ → Bytes → Option (List ℕ)
  | 0, _, rest => if rest = [] then some [] else none
  | n + 1, off, rest =>
    if rest.length < 4 then none
    else
      let slen := leNat (rest.take 4)
      let rest := rest.drop 4
      if rest.length < slen then none
      else (scanRecords n (off + 4 + slen) (rest.drop slen)).map (off :: ·)

def domParseStrlAtoms (image : Bytes) : Option (List ℕ) :=
  if image.length < 12 then none
  else if leNat (image.take 4) ≠ symStrlMagic then none
  else
    let count := leInt ((image.drop 4).take 8)
    if count < 0 ∨ 2 ^ 32 - 1 < count then none
    else scanRecords count.toNat 12 (image.drop 12)

def decode (image : Bytes) : Option (List Bytes) :=
  (domParseStrlAtoms image).map fun offsets => offsets.map (recordAt image)

def atomAt (d : SymDomain) (pos : ℕ) : Option Bytes :=
  match d.atoms[pos]? with
  | none => none
  | some (some a) => some a
  | some none => (d.offsets[pos]?).map (recordAt d.image)

def domAtomAtLocked (d : SymDomain) (pos : ℕ) : Option (Bytes × SymDomain) :=
  (atomAt d pos).map fun a => (a, { d with atoms := d.atoms.set pos (some a) })

def materialize (d : SymDomain) : Option (List Bytes × SymDomain) :=
  ((List.range d.count).mapM (atomAt d)).map fun names => (names, { d with atoms := names.map some })

def raySymDomainStr (d : SymDomain) (pos : ℕ) : Option (Option Bytes × SymDomain) :=
  if d.count ≤ pos then some (none, d)
  else (domAtomAtLocked d pos).map fun (a, d) => (some a, d)

def bucketCap (need : ℕ) : ℕ → ℕ → Option ℕ
  | 0, _ => none
  | fuel + 1, cap =>
    if 7 * cap < 10 * need then
      if 2 ^ 63 ≤ cap then none else bucketCap need fuel (cap * 2)
    else some cap

def entriesOf (names : List Bytes) : Cells Entry :=
  names.mapIdx fun i s => some ⟨symHash s, i⟩

def domBuildIndexLocked (d : SymDomain) (extra : ℕ) : Option (Bool × SymDomain) :=
  match bucketCap (d.count + extra) 64 16 with
  | none => some (false, d)
  | some cap => do
    let (names, d) ← materialize d
    let buckets ← rehash Entry.hash cap (entriesOf names)
    return (true, { d with buckets := some buckets })

def ensureIndex (d : SymDomain) (extra : ℕ) : Option (Bool × SymDomain) :=
  if d.buckets = none then domBuildIndexLocked d extra else some (true, d)

def domProbeLocked (d : SymDomain) (str : Bytes) : Option (Option ℕ) := do
  let buckets ← d.buckets
  let hit ← lookup buckets (symHash str) fun e => e.hash == symHash str && atomAt d e.id == some str
  return hit.map Entry.id

def headroom (d : SymDomain) : Option (Bool × SymDomain) :=
  if 7 * (d.buckets.elim 1 List.length) < 10 * (d.count + 1) then domBuildIndexLocked d 1
  else some (true, d)

def domAppendLocked (d : SymDomain) (str : Bytes) : Option (Option ℕ × SymDomain) :=
  if 2 ^ 32 - 1 ≤ d.count then some (none, d)
  else do
    let (ok, d) ← headroom d
    if ok = false then return (none, d)
    let buckets ← d.buckets
    let buckets ← place buckets (symHash str) ⟨symHash str, d.count⟩
    return (some d.count, { d with atoms := d.atoms ++ [some str], buckets := some buckets })

def findIndexed (d : SymDomain) (str : Bytes) : Option (Option ℕ × SymDomain) := do
  let (ok, d) ← ensureIndex d 0
  if ok = false then return (none, d)
  let found ← domProbeLocked d str
  return (found, d)

def raySymDomainFind (d : SymDomain) (str : Bytes) : Option (Option ℕ × SymDomain) :=
  if d.count = 0 then some (none, d)
  else if str = [] then do
    let (a, d) ← domAtomAtLocked d 0
    if a = [] then return (some 0, d)
    findIndexed d str
  else findIndexed d str

def seedEmpty (d : SymDomain) (str : Bytes) : Option (Bool × SymDomain) :=
  if d.count = 0 ∧ str ≠ [] then do
    let (pos, d) ← domAppendLocked d []
    return (pos == some 0, d)
  else some (true, d)

def findOrAppend (d : SymDomain) (str : Bytes) : Option (Option ℕ × SymDomain) := do
  match ← domProbeLocked d str with
  | some pos => return (some pos, d)
  | none => domAppendLocked d str

def raySymDomainIntern (d : SymDomain) (str : Bytes) : Option (Option ℕ × SymDomain) := do
  let (ok, d) ← ensureIndex d 1
  if ok = false then return (none, d)
  let (ok, d) ← seedEmpty d str
  if ok = false then return (none, d)
  findOrAppend d str

def comparePrefixes (d : SymDomain) (image : Bytes) (fresh : List ℕ) : List ℕ → Option Bool
  | [] => some true
  | i :: is => do
    let old ← d.offsets[i]?
    let new ← fresh[i]?
    if recordAt d.image old = recordAt image new then comparePrefixes d image fresh is else return false

def extendTo (d : SymDomain) (image : Bytes) (fresh : List ℕ) : SymDomain :=
  if d.count < fresh.length then
    { image := image, offsets := fresh, diskCount := fresh.length, diskSize := image.length,
      atoms := d.atoms ++ List.replicate (fresh.length - d.count) none, buckets := none }
  else { d with diskSize := image.length }

def domExtendFromFileLocked (d : SymDomain) (image : Bytes) : Option (Bool × SymDomain) :=
  if image.length < d.diskSize then some (false, d)
  else if d.count ≠ d.diskCount then some (false, d)
  else
    match domParseStrlAtoms image with
    | none => some (false, d)
    | some fresh =>
      if fresh.length < d.count then some (false, d)
      else if d.count = 0 ∧ (fresh.head?.elim false fun off => recordAt image off ≠ []) then some (false, d)
      else do
        let same ← comparePrefixes d image fresh (List.range d.count)
        if same then return (true, extendTo d image fresh) else return (false, d)

def emptyDomain : SymDomain := ⟨[], [], 0, 0, [], none⟩

def domCreate (image : Bytes) : Option SymDomain :=
  match domParseStrlAtoms image with
  | none => none
  | some offsets =>
    if offsets.head?.elim false fun off => recordAt image off ≠ [] then none
    else some ⟨image, offsets, offsets.length, image.length, List.replicate offsets.length none, none⟩

def domOpenImpl (file : Option Bytes) (cached : Option SymDomain) (create : Bool) :
    Option (Bool × Option SymDomain) :=
  if file = none ∧ create = false then some (false, cached)
  else
    match cached, file with
    | some d, _ =>
      if (file.elim 0 List.length) = d.diskSize then some (true, some d)
      else (domExtendFromFileLocked d (file.getD [])).map fun (ok, d) => (ok, some d)
    | none, none => some (true, some emptyDomain)
    | none, some image => some ((domCreate image).isSome, domCreate image)

def verifyBase (file : Option Bytes) (d : SymDomain) : Bool :=
  match file with
  | none => d.diskCount = 0
  | some image =>
    if d.diskCount = 0 then image.length = 0
    else image.length = d.diskSize ∧ 12 ≤ image.length ∧ leNat (image.take 4) = symStrlMagic ∧
      leInt ((image.drop 4).take 8) = d.diskCount

def raySymDomainFlush (file : Option Bytes) (d : SymDomain) : Option (FlushErr × Option Bytes × SymDomain) :=
  if d.count = d.diskCount then some (.ok, file, d)
  else do
    let (names, d) ← materialize d
    if verifyBase file d = false then return (.corrupt, file, d)
    if names.any fun s => 2 ^ 32 ≤ s.length then return (.range, file, d)
    return (.ok, some (strlFile names),
      { d with diskCount := d.count, diskSize := (strlFile names).length })

end Rayforce.Domain
