import Rayforce.Library.Segments

/-! The row selections of `ops/rowsel.c`. -/

namespace Rayforce.Selection

open Library.Segments

def rayMorselElems : ℕ := 1024

def u16 (n : ℕ) : ℕ := n % 2 ^ 16
def u32 (n : ℕ) : ℕ := n % 2 ^ 32

inductive SelFlag
  | none | all | mix
  deriving DecidableEq, Repr

structure Rowsel where
  totalPass : ℕ
  nrows : ℕ
  nSegs : ℕ
  segFlags : List SelFlag
  segOffsets : List ℕ
  idx : List ℕ
  deriving DecidableEq, Repr

def Rowsel.flag (sel : Rowsel) (s : ℕ) : SelFlag := sel.segFlags.getD s .none

def Rowsel.offset (sel : Rowsel) (s : ℕ) : ℕ := sel.segOffsets.getD s 0

def Rowsel.segIdx (sel : Rowsel) (s : ℕ) : List ℕ := slice sel.idx (sel.offset s) (sel.offset (s + 1))

def segBase (s : ℕ) : ℕ := s * rayMorselElems

def segLen (nrows s : ℕ) : ℕ := segEnd rayMorselElems nrows s - segBase s

def segRows (nrows s : ℕ) : List ℕ := List.range' (segBase s) (segLen nrows s)

def passes (pred : List UInt8) (r : ℕ) : Bool := pred.getD r 0 != 0

def rayRowselNew (nrows totalPass idxCount : ℕ) : Option Rowsel :=
  if nrows < totalPass ∨ totalPass < idxCount then none
  else
    let nSegs := u32 (segCount rayMorselElems nrows)
    some
      { totalPass := totalPass, nrows := nrows, nSegs := nSegs
        segFlags := List.replicate nSegs .none
        segOffsets := List.replicate (nSegs + 1) 0
        idx := List.replicate idxCount 0 }

def classify (pc len : ℕ) : SelFlag := if pc = 0 then .none else if pc = len then .all else .mix

structure SegOut where
  flag : SelFlag
  advance : ℕ
  written : List ℕ

def Rowsel.fillStep (body : ℕ → SegOut) (st : Rowsel × ℕ) (s : ℕ) : Rowsel × ℕ :=
  ({ st.1 with
      segFlags := st.1.segFlags.set s (body s).flag
      segOffsets := st.1.segOffsets.set s st.2
      idx := writeAt st.1.idx st.2 (body s).written }, u32 (st.2 + (body s).advance))

def Rowsel.fill (block : Rowsel) (body : ℕ → SegOut) : Rowsel :=
  let st := (List.range block.nSegs).foldl (Rowsel.fillStep body) (block, 0)
  { st.1 with segOffsets := st.1.segOffsets.set block.nSegs st.2 }

def tally (nrows nSegs : ℕ) (popcount : ℕ → ℕ) : ℕ × ℕ :=
  (List.range nSegs).foldl (fun t s =>
      (t.1 + popcount s, if popcount s ≠ 0 ∧ popcount s ≠ segLen nrows s then t.2 + popcount s else t.2))
    (0, 0)

def rowselPass1 (pred : List UInt8) (nrows nSegs : ℕ) : List ℕ :=
  (List.range nSegs).map fun seg => (segRows nrows seg).countP (passes pred)

def passingRows (pred : List UInt8) (nrows seg : ℕ) : List ℕ :=
  ((segRows nrows seg).filter (passes pred)).map fun r => u16 (r - segBase seg)

def rowselPass2 (pred : List UInt8) (block : Rowsel) : Rowsel :=
  { block with
    idx := (List.range block.nSegs).foldl (fun idx seg =>
        if block.flag seg ≠ .mix then idx
        else writeAt idx (block.offset seg) (passingRows pred block.nrows seg)) block.idx }

def fromPredSeg (nrows : ℕ) (popcount : List ℕ) (s : ℕ) : SegOut :=
  let pc := popcount.getD s 0
  { flag := classify pc (segLen nrows s)
    advance := if classify pc (segLen nrows s) = .mix then pc else 0
    written := [] }

def rayRowselFromPred (pred : List UInt8) : Option Rowsel :=
  let nrows := pred.length
  if nrows = 0 then rayRowselNew 0 0 0
  else
    let nSegs := u32 (segCount rayMorselElems nrows)
    let popcount := rowselPass1 pred nrows nSegs
    let t := tally nrows nSegs fun s => popcount.getD s 0
    if t.1 = nrows then none
    else do
      let fresh ← rayRowselNew nrows t.1 t.2
      let block := fresh.fill (fromPredSeg nrows popcount)
      if 0 < block.offset nSegs then some (rowselPass2 pred block) else some block

def refineCount (e : Rowsel) (pred : List UInt8) (s : ℕ) : ℕ :=
  match e.flag s with
  | .none => 0
  | .all => (segRows e.nrows s).countP (passes pred)
  | .mix => (e.segIdx s).countP fun i => passes pred (segBase s + i)

def refineRows (e : Rowsel) (pred : List UInt8) (s : ℕ) : List ℕ :=
  if e.flag s = .all then passingRows pred e.nrows s
  else ((e.segIdx s).filter fun i => passes pred (segBase s + i)).map fun i => u16 (segBase s + i - segBase s)

def refineSeg (e : Rowsel) (pred : List UInt8) (popcount : List ℕ) (s : ℕ) : SegOut :=
  let pc := popcount.getD s 0
  if pc = 0 then ⟨.none, 0, []⟩
  else if pc = segLen e.nrows s then ⟨.all, 0, []⟩
  else ⟨.mix, pc, refineRows e pred s⟩

def rayRowselRefine (existing : Option Rowsel) (pred : List UInt8) : Option Rowsel :=
  match existing with
  | none => rayRowselFromPred pred
  | some e =>
    if pred.length ≠ e.nrows then none
    else
      let popcount := (List.range e.nSegs).map (refineCount e pred)
      let t := tally e.nrows e.nSegs fun s => popcount.getD s 0
      if t.1 = e.nrows then none
      else do
        let fresh ← rayRowselNew e.nrows t.1 t.2
        some (fresh.fill (refineSeg e pred popcount))

def commonCount : List ℕ → List ℕ → ℕ
  | [], _ => 0
  | _ :: _, [] => 0
  | a :: as, b :: bs =>
    if a < b then commonCount as (b :: bs)
    else if b < a then commonCount (a :: as) bs
    else commonCount as bs + 1
  termination_by as bs => as.length + bs.length

def intersectCount (a b : Rowsel) (s : ℕ) : ℕ :=
  if a.flag s = .none ∨ b.flag s = .none then 0
  else if a.flag s = .all ∧ b.flag s = .all then segLen a.nrows s
  else if a.flag s = .all then b.offset (s + 1) - b.offset s
  else if b.flag s = .all then a.offset (s + 1) - a.offset s
  else commonCount (a.segIdx s) (b.segIdx s)

def copySeg (len : ℕ) (src : List ℕ) : SegOut :=
  if src.length = len then ⟨.all, 0, []⟩
  else ⟨if src.length = 0 then .none else .mix, src.length, src⟩

def intersectSeg (a b : Rowsel) (s : ℕ) : SegOut :=
  if a.flag s = .none ∨ b.flag s = .none then ⟨.none, 0, []⟩
  else if a.flag s = .all ∧ b.flag s = .all then ⟨.all, 0, []⟩
  else if a.flag s = .all then copySeg (segLen a.nrows s) (b.segIdx s)
  else if b.flag s = .all then copySeg (segLen a.nrows s) (a.segIdx s)
  else
    let count := commonCount (a.segIdx s) (b.segIdx s)
    let met := common (a.segIdx s) (b.segIdx s)
    if count = segLen a.nrows s then ⟨.all, 0, []⟩
    else ⟨if count = 0 then .none else .mix, met.length, met⟩

def rayRowselIntersect (a b : Option Rowsel) : Option Rowsel :=
  match a, b with
  | some a, some b =>
    if a.nrows ≠ b.nrows ∨ a.nSegs ≠ b.nSegs then none
    else do
      let t := tally a.nrows a.nSegs (intersectCount a b)
      let fresh ← rayRowselNew a.nrows t.1 t.2
      some (fresh.fill (intersectSeg a b))
  | _, _ => none

def Rowsel.width (sel : Rowsel) (s : ℕ) : ℕ :=
  match sel.flag s with
  | .none => 0
  | .all => u32 (segLen sel.nrows s)
  | .mix => sel.offset (s + 1) - sel.offset s

def flatOffsets (sel : Rowsel) : List ℕ :=
  ((List.range sel.nSegs).foldl (fun st s => (st.1.set s st.2, u32 (st.2 + sel.width s)))
    (List.replicate sel.nSegs 0, 0)).1

def Rowsel.segIds (sel : Rowsel) (s : ℕ) : List ℕ :=
  match sel.flag s with
  | .none => []
  | .all => segRows sel.nrows s
  | .mix => (sel.segIdx s).map fun i => segBase s + i

def rayRowselToIndices (sel : Rowsel) : List ℕ :=
  let out := List.replicate sel.totalPass 0
  if sel.totalPass = 0 ∨ sel.nSegs = 0 then out
  else
    (List.range sel.nSegs).foldl (fun out seg =>
        if sel.flag seg = .none then out else writeAt out ((flatOffsets sel).getD seg 0) (sel.segIds seg)) out

def rows (n : ℕ) : Option Rowsel → List ℕ
  | none => List.range n
  | some sel => rayRowselToIndices sel

/-- The streaming builder with the occupied part of `idx`. -/
structure RowselBuilder where
  segFlags : List SelFlag
  segOff : List ℕ
  idx : List ℕ
  nSegs : ℕ
  idxCap : ℕ
  totalPass : ℕ
  deriving DecidableEq, Repr

def rowselBuilderInit (nSegs : ℕ) : RowselBuilder where
  segFlags := List.replicate nSegs .none
  segOff := List.replicate (nSegs + 1) 0
  idx := []
  nSegs := nSegs
  idxCap := if nSegs ≠ 0 then u32 (nSegs * 8) else 8
  totalPass := 0

def growCap (need : ℕ) : ℕ → ℕ → Option ℕ
  | 0, _ => none
  | fuel + 1, cap => if cap < need then growCap need fuel (u32 (cap * 2)) else some cap

def setRows (morsel : List UInt8) : List ℕ :=
  ((List.range morsel.length).filter (passes morsel)).map u16

def RowselBuilder.reserve (b : RowselBuilder) (pc : ℕ) : Option ℕ :=
  let need := u32 (b.idx.length + pc)
  if b.idxCap < need then growCap need 33 (if b.idxCap ≠ 0 then b.idxCap else 8) else some b.idxCap

def RowselBuilder.close (b : RowselBuilder) (seg pc : ℕ) (flag : SelFlag) (idx : List ℕ) : RowselBuilder :=
  { b with
    segFlags := b.segFlags.set seg flag
    segOff := (b.segOff.set seg b.idx.length).set (seg + 1) idx.length
    idx := idx
    totalPass := b.totalPass + pc }

def rowselEmitSegment (b : RowselBuilder) (seg : ℕ) (morsel : List UInt8) : Option RowselBuilder :=
  let pc := morsel.countP (· != 0)
  if pc = 0 then some (b.close seg pc .none b.idx)
  else if pc = morsel.length then some (b.close seg pc .all b.idx)
  else do
    let cap ← b.reserve pc
    some { b.close seg pc .mix (b.idx ++ setRows morsel) with idxCap := cap }

def emitFrom (b : RowselBuilder) : ℕ → List (List UInt8) → Option RowselBuilder
  | _, [] => some b
  | seg, morsel :: rest => do
    let b ← rowselEmitSegment b seg morsel
    emitFrom b (seg + 1) rest

def runWorker (morsels : List (List UInt8)) : Option RowselBuilder :=
  emitFrom (rowselBuilderInit morsels.length) 0 morsels

def stitchSeg (b : RowselBuilder) (s : ℕ) : SegOut :=
  let flag := b.segFlags.getD s .none
  if flag = .mix then
    { flag := flag
      advance := b.segOff.getD (s + 1) 0 - b.segOff.getD s 0
      written := slice b.idx (b.segOff.getD s 0) (b.segOff.getD (s + 1) 0) }
  else ⟨flag, 0, []⟩

def builderSegs (builders : List RowselBuilder) : List (RowselBuilder × ℕ) :=
  builders.flatMap fun b => (List.range b.nSegs).map fun s => (b, s)

def rowselBuilderFinish (builders : List RowselBuilder) (nrows : ℕ) : Option Rowsel := do
  let totalPass := (builders.map RowselBuilder.totalPass).sum
  let idxCount := (builders.map fun b => b.idx.length).sum
  let fresh ← rayRowselNew nrows totalPass idxCount
  some (fresh.fill fun g =>
    match (builderSegs builders)[g]? with
    | some (b, s) => stitchSeg b s
    | none => ⟨.none, 0, []⟩)

end Rayforce.Selection
