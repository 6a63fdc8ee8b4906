import Rayforce.Index.Column
import Rayforce.Library.Grouping
import Rayforce.Library.Probing

/-! The builders of `ops/idxop.c`. -/

namespace Rayforce.Index

open Library.Grouping Library.Probing

variable {n : ℕ}

def mix64 (x : UInt64) : UInt64 :=
  let x := x ^^^ (x >>> 30)
  let x := x * 0xbf58476d1ce4e5b9
  let x := x ^^^ (x >>> 27)
  let x := x * 0x94d049bb133111eb
  x ^^^ (x >>> 31)

def keyHash (k : ℤ) : UInt64 := mix64 (UInt64.ofInt k)

def keyHome (k : ℤ) : ℕ := (keyHash k).toNat

def nextPow2Loop (n : ℕ) : ℕ → ℕ → ℕ
  | 0, p => p
  | fuel + 1, p => if p < n then nextPow2Loop n fuel (2 * p) else p

def nextPow2 (n : ℕ) : ℕ := if n ≤ 1 then 1 else nextPow2Loop n 64 1

def bucketCap (n : ℕ) : ℕ := max 8 (nextPow2 (if n < 4 then 8 else 2 * n))

structure HashIndex where
  table : Cells ℕ
  gkeys : List ℤ
  offs : List ℕ
  rows : List ℕ

structure PartIndex where
  keys : List ℤ
  starts : List ℕ
  lens : List ℕ

structure ZoneIndex where
  minI : ℤ
  maxI : ℤ
  nNulls : ℕ

structure BloomIndex where
  bits : List Bool
  k : ℕ

inductive IndexBlock
  | hash (ix : HashIndex)
  | part (ix : PartIndex)
  | sort (perm : List ℕ)
  | zone (ix : ZoneIndex)
  | bloom (ix : BloomIndex)

structure Vec where
  col : Column
  index : Option (IndexBlock × ℕ)
  sorted : Bool

def groupKey (gkeys : List ℤ) (g : ℕ) : ℤ := gkeys.getD g 0

structure GroupState where
  table : Cells ℕ
  gkeys : List ℤ
  rgid : List (Option ℕ)

def groupRow (col : Column) (st : GroupState) (c : ℤ) : Option GroupState :=
  if col.nullCell c then some { st with rgid := st.rgid ++ [none] }
  else
    match lookup st.table (keyHome c) fun g => groupKey st.gkeys g = c with
    | none => none
    | some (some g) => some { st with rgid := st.rgid ++ [some g] }
    | some none =>
      (place st.table (keyHome c) st.gkeys.length).map fun table =>
        { table := table, gkeys := st.gkeys ++ [c], rgid := st.rgid ++ [some st.gkeys.length] }

def rayIndexAttachHash (col : Column) : Option HashIndex := do
  let st ← col.cells.foldlM (groupRow col) ⟨List.replicate (bucketCap col.len) none, [], []⟩
  let ng := st.gkeys.length
  let table ← rehash (fun g => keyHome (groupKey st.gkeys g)) (bucketCap ng) ((List.range ng).map some)
  return ⟨table, st.gkeys, (grouped ng st.rgid).1, (grouped ng st.rgid).2⟩

def vecIsAscending (col : Column) : Bool :=
  if col.len < 2 then true
  else if col.cells.any col.nullCell then false
  else (List.range (col.len - 1)).all fun r => col.cell r ≤ col.cell (r + 1)

structure PartState where
  runStart : ℕ
  blocks : List (ℤ × ℕ × ℕ)

def partRow (col : Column) (st : PartState) (i : ℕ) : Option PartState :=
  if i = col.len ∨ col.cell i ≠ col.cell (i - 1) then
    let key := col.cell st.runStart
    if col.type = .sym ∧ key ∈ st.blocks.map Prod.fst then none
    else some ⟨i, st.blocks ++ [(key, st.runStart, i - st.runStart)]⟩
  else some st

def rayIndexAttachPart (col : Column) : Option PartIndex :=
  if col.type ≠ .sym ∧ !vecIsAscending col then none
  else
    ((List.range' 1 col.len).foldlM (partRow col) ⟨0, []⟩).map fun st =>
      ⟨st.blocks.map Prod.fst, st.blocks.map (·.2.1), st.blocks.map (·.2.2)⟩

def sortCmp (col : Column) (a b : ℕ) : ℤ :=
  if col.isNull a ∨ col.isNull b then
    if col.isNull a ∧ col.isNull b then 0 else if col.isNull a then 1 else -1
  else if col.cell a < col.cell b then -1
  else if col.cell b < col.cell a then 1
  else 0

def raySortIndices (col : Column) : List ℕ := (List.range col.len).mergeSort fun a b => sortCmp col a b ≤ 0

def zoneStep (col : Column) (z : ZoneIndex × Bool) (c : ℤ) : ZoneIndex × Bool :=
  if col.nullCell c then ({ z.1 with nNulls := z.1.nNulls + 1 }, z.2)
  else
    ({ z.1 with
        minI := if c < z.1.minI then c else z.1.minI
        maxI := if z.1.maxI < c then c else z.1.maxI }, true)

def zoneScan (col : Column) : ZoneIndex :=
  let z := col.cells.foldl (zoneStep col) (⟨2 ^ 63 - 1, -2 ^ 63, 0⟩, false)
  if z.2 then z.1 else { z.1 with minI := 0, maxI := 0 }

def bloomPos (m : ℕ) (h : UInt64) (kk : ℕ) : ℕ :=
  (h + UInt64.ofNat kk * (mix64 (h ^^^ 0xc6a4a7935bd1e995) ||| 1)).toNat % m

def bloomAdd (k : ℕ) (bits : List Bool) (h : UInt64) : List Bool :=
  (List.range k).foldl (fun bits kk => bits.set (bloomPos bits.length h kk) true) bits

def bloomScan (col : Column) : BloomIndex :=
  let nSet := col.cells.countP fun c => !col.nullCell c
  let m := max 64 (nextPow2 (if nSet < 8 then 64 else 8 * nSet))
  { bits := col.cells.foldl (fun bits c => if col.nullCell c then bits else bloomAdd 3 bits (keyHash c))
      (List.replicate m false)
    k := 3 }

inductive IndexKind
  | hash | part | sort | zone | bloom
  deriving DecidableEq, Repr

def rayIndexAttach (kind : IndexKind) (col : Column) : Option IndexBlock :=
  match kind with
  | .hash => (rayIndexAttachHash col).map .hash
  | .part => (rayIndexAttachPart col).map .part
  | .sort => if col.type = .sym then none else some (.sort (raySortIndices col))
  | .zone => if col.type = .sym then none else some (.zone (zoneScan col))
  | .bloom => if col.type = .sym then none else some (.bloom (bloomScan col))

def attrSetSorted (v : Vec) : Option Vec :=
  if v.col.type = .sym then none
  else if vecIsAscending v.col then some { v with sorted := true }
  else none

inductive Carries (col : Column) : Vec → Prop
  | bare : Carries col ⟨col, none, false⟩
  | attach {v : Vec} {kind : IndexKind} {block : IndexBlock} (h : Carries col v)
      (hb : rayIndexAttach kind v.col = some block) : Carries col { v with index := some (block, v.col.len) }
  | sorted {v v' : Vec} (h : Carries col v) (hs : attrSetSorted v = some v') : Carries col v'

variable {col : Column} {v : Vec}

lemma Carries.col_eq (h : Carries col v) : v.col = col := by
  induction h with
  | bare => rfl
  | attach _ _ ih => exact ih
  | sorted _ hs ih =>
    rw [attrSetSorted] at hs
    split_ifs at hs
    rw [← ih, ← Option.some.inj hs]

lemma Carries.index_eq (h : Carries col v) {block : IndexBlock} (hv : v.index = some (block, n)) :
    ∃ kind, rayIndexAttach kind col = some block := by
  induction h with
  | bare => cases hv
  | attach h' hb ih =>
    rw [h'.col_eq] at hb
    simp only [Option.some.injEq, Prod.mk.injEq] at hv
    exact ⟨_, hv.1 ▸ hb⟩
  | sorted _ hs ih =>
    rw [attrSetSorted] at hs
    split_ifs at hs
    rw [← Option.some.inj hs] at hv
    exact ih hv

lemma Carries.ascending (h : Carries col v) (hs : v.sorted = true) : col.type ≠ .sym ∧ vecIsAscending col := by
  induction h with
  | bare => cases hs
  | attach _ _ ih => exact ih hs
  | sorted h' hm _ =>
    rw [attrSetSorted, h'.col_eq] at hm
    split_ifs at hm with h1 h2
    exact ⟨h1, h2⟩

lemma nextPow2Loop_ge {n fuel p : ℕ} (h : n ≤ p * 2 ^ fuel) : n ≤ nextPow2Loop n fuel p := by
  induction fuel generalizing p with
  | zero => simpa [nextPow2Loop] using h
  | succ fuel ih =>
    simp only [nextPow2Loop]
    split_ifs with hp
    · apply ih
      rw [pow_succ] at h
      linarith
    · omega

lemma le_nextPow2 (h : n ≤ 2 ^ 64) : n ≤ nextPow2 n := by
  simp only [nextPow2]
  split_ifs with h1
  · exact h1
  · exact nextPow2Loop_ge (by simpa using h)

lemma lt_bucketCap (h : n < 2 ^ 32) : n < bucketCap n := by
  simp only [bucketCap]
  split_ifs with h1
  · omega
  · have := le_nextPow2 (show 2 * n ≤ 2 ^ 64 by omega)
    omega

end Rayforce.Index
