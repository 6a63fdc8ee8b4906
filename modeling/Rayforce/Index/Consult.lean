import Rayforce.Index.Attach
import Rayforce.Index.Scan
import Rayforce.Index.Selection
import Rayforce.Library.Bisect

/-! The consults of `ops/idxop.c`. -/

namespace Rayforce.Index

open Rayforce.Exec (CmpOp)
open Library.Segments Library.Probing Library.Bisect
open Rayforce.Selection

def idxFresh (v : Vec) : Option IndexBlock := v.index.bind fun x => if x.2 = v.col.len then some x.1 else none

def idxFreshNonull (v : Vec) : Option IndexBlock := if v.col.hasNulls then none else idxFresh v

inductive ZoneClass
  | unknown | all | none
  deriving DecidableEq, Repr

def zoneClassify (op : CmpOp) (mn mx key : ℤ) : ZoneClass :=
  match op with
  | .eq => if key < mn ∨ mx < key then .none else if mn = mx ∧ mn = key then .all else .unknown
  | .ne => if mn = mx ∧ mn = key then .none else if key < mn ∨ mx < key then .all else .unknown
  | .lt => if mx < key then .all else if key ≤ mn then .none else .unknown
  | .le => if mx ≤ key then .all else if key < mn then .none else .unknown
  | .gt => if key < mn then .all else if mx ≤ key then .none else .unknown
  | .ge => if key ≤ mn then .all else if mx < key then .none else .unknown

def rayIndexZoneClass (v : Vec) (op : CmpOp) (key : ℤ) : ZoneClass :=
  match idxFreshNonull v with
  | some (.zone z) => if v.col.type = .sym then .unknown else zoneClassify op z.minI z.maxI key
  | _ => .unknown

def hashKeyBits (t : ColType) (key : ℤ) : ℤ :=
  match t.numericElemSize with
  | 1 => key % 256
  | 2 => key.bmod (2 ^ 16)
  | 4 => key.bmod (2 ^ 32)
  | _ => key

def probeWord (t : ColType) (key : ℤ) : ℤ := if t = .sym then key else hashKeyBits t key

def HashIndex.probe (ix : HashIndex) (kw : ℤ) : Option (Option ℕ) :=
  lookup ix.table (keyHome kw) fun g => groupKey ix.gkeys g = kw

def HashIndex.groupSize (ix : HashIndex) (g : ℕ) : ℕ := ix.offs.getD (g + 1) 0 - ix.offs.getD g 0

def HashIndex.groupIds (ix : HashIndex) (g : ℕ) : List ℕ :=
  slice ix.rows (ix.offs.getD g 0) (ix.offs.getD (g + 1) 0)

def hashProbeSetup (v : Vec) (key : ℤ) : Option (HashIndex × Option ℕ) :=
  match v.index with
  | some (.hash ix, n) =>
    if n ≠ v.col.len then none
    else if !hashKeyInRange v.col.type key then none
    else (ix.probe (probeWord v.col.type key)).map fun g => (ix, g)
  | _ => none

def rayIndexHashEqRowsel (v : Vec) (key : ℤ) : Option Rowsel :=
  match idxFresh v with
  | some (.hash _) =>
    match hashProbeSetup v key with
    | none => none
    | some (_, none) => rowselFromSortedIds v.col.len []
    | some (ix, some g) =>
      if 64 < ix.groupSize g ∧ v.col.len / 8 < ix.groupSize g then none
      else rowselFromSortedIds v.col.len (ix.groupIds g)
  | _ => none

def PartIndex.span (ix : PartIndex) (p : ℕ) : Span := ⟨ix.starts.getD p 0, ix.lens.getD p 0⟩

def PartIndex.key (ix : PartIndex) (p : ℕ) : ℤ := ix.keys.getD p 0

def PartIndex.malformed (ix : PartIndex) : Bool :=
  ix.starts.length ≠ ix.keys.length ∨ ix.lens.length ≠ ix.keys.length

def rayIndexPartEqRowsel (v : Vec) (key : ℤ) : Option Rowsel :=
  match idxFreshNonull v with
  | some (.part ix) =>
    if v.col.type ≠ .sym ∧ !hashKeyInRange v.col.type key then rowselFromSortedIds v.col.len []
    else if ix.malformed then none
    else
      match (List.range ix.keys.length).find? fun p => ix.key p = key with
      | none => rowselFromSortedIds v.col.len []
      | some p =>
        if 64 < (ix.span p).len ∧ v.col.len / 2 < (ix.span p).len then none
        else rowselFromSortedSpans v.col.len [ix.span p] (ix.span p).len
  | _ => none

def sortIds (ids : List ℕ) : List ℕ := ids.mergeSort fun a b => a ≤ b

def sortKeys (keys : List ℤ) : List ℤ := keys.mergeSort fun a b => a ≤ b

def uniqueSorted : List ℤ → List ℤ
  | [] => []
  | [a] => [a]
  | a :: b :: l => if b = a then uniqueSorted (b :: l) else a :: uniqueSorted (b :: l)

def setKeys (col set : Column) : List ℤ :=
  set.cells.filterMap fun c =>
    if col.type = .sym then (set.domain.str? c).bind col.domain.find?
    else if hashKeyInRange col.type c then some c
    else none

def sortedContains (values : List ℤ) (needle : ℤ) : Bool :=
  let lo := bisect (fun i => values.getD i 0 < needle) values.length 0 values.length
  lo < values.length ∧ values.getD lo 0 = needle

def partInSpans (ix : PartIndex) (keys : List ℤ) : List Span :=
  (List.range ix.keys.length).filterMap fun p => if sortedContains keys (ix.key p) then some (ix.span p) else none

def hashInRowsel (n : ℕ) (t : ColType) (ix : HashIndex) (keys : List ℤ) : Option Rowsel := do
  let found ← keys.mapM fun key => ix.probe (probeWord t key)
  let gids := found.filterMap id
  let total := (gids.map ix.groupSize).sum
  if 64 < total ∧ n / 16 < total then none
  else if total = 0 then rowselFromSortedIds n []
  else
    let matched := gids.flatMap ix.groupIds
    rowselFromSortedIds n (if 1 < gids.length ∧ 1 < matched.length then sortIds matched else matched)

def rayIndexInRowsel (v : Vec) (set : Column) : Option Rowsel :=
  match idxFreshNonull v with
  | some block =>
    if decide (v.col.type = .sym) ≠ decide (set.type = .sym) then none
    else
      let keys := uniqueSorted (sortKeys (setKeys v.col set))
      match block with
      | .hash ix => if keys = [] then rowselFromSortedIds v.col.len
        [] else hashInRowsel v.col.len v.col.type ix keys
      | .part ix =>
        if keys = [] then rowselFromSortedIds v.col.len []
        else if ix.malformed then none
        else
          let spans := partInSpans ix keys
          rowselFromSortedSpans v.col.len spans (spans.map Span.len).sum
      | _ => none
  | none => none

def opSpan (op : CmpOp) (lower upper n : ℕ) : Option (ℕ × ℕ) :=
  match op with
  | .lt => some (0, lower)
  | .le => some (0, upper)
  | .gt => some (upper, n)
  | .ge => some (lower, n)
  | .eq => some (lower, upper)
  | .ne => none

def rayIndexRangeRowsel (v : Vec) (op : CmpOp) (key : ℤ) : Option Rowsel :=
  match idxFreshNonull v with
  | some (.sort perm) =>
    let n := v.col.len
    let lower := bisect (fun i => v.col.cell (perm.getD i 0) < key) n 0 n
    let upper := bisect (fun i => v.col.cell (perm.getD i 0) ≤ key) n 0 n
    (opSpan op lower upper n).bind fun x =>
      if x.2 ≤ x.1 then rowselFromSortedIds n []
      else if 64 ≤ n ∧ n / 128 < x.2 - x.1 then none
      else rowselFromSortedIds n (sortIds (slice perm x.1 x.2))
  | _ => none

def raySortedRangeRowsel (v : Vec) (op : CmpOp) (key : ℤ) : Option Rowsel :=
  if !v.sorted ∨ v.col.hasNulls ∨ v.col.type = .sym then none
  else
    let n := v.col.len
    let lower := bisect (fun i => v.col.cell i < key) n 0 n
    let upper := bisect (fun i => v.col.cell i ≤ key) n lower n
    (opSpan op lower upper n).bind fun x => rowselFromContiguousSpan n x.1 x.2

def rayIndexBloomAbsent (v : Vec) (key : ℤ) : Bool :=
  match idxFreshNonull v with
  | some (.bloom ix) =>
    (List.range ix.k).any fun kk =>
      !ix.bits.getD (bloomPos ix.bits.length (keyHash (hashKeyBits v.col.type key)) kk) false
  | _ => false

def rayIndexFindRow (v : Vec) (key : ℤ) : ℤ :=
  match idxFreshNonull v with
  | some (.hash _) =>
    if !hashKeyInRange v.col.type key then -1
    else
      match hashProbeSetup v key with
      | none => -2
      | some (_, none) => -1
      | some (ix, some g) => ix.rows.getD (ix.offs.getD g 0) 0
  | _ => -2

def distinctStep (col : Column) (perm : List ℕ) (ids : List ℕ) (i : ℕ) : List ℕ :=
  if col.cell (perm.getD (i + 1) 0) ≠ col.cell (perm.getD i 0) then ids ++ [perm.getD (i + 1) 0] else ids

def rayIndexDistinctIds (v : Vec) : Option (List ℕ) :=
  match idxFreshNonull v with
  | some (.sort perm) =>
    if perm = [] then some []
    else some ((List.range (perm.length - 1)).foldl (distinctStep v.col perm) [perm.getD 0 0])
  | _ => none

end Rayforce.Index
