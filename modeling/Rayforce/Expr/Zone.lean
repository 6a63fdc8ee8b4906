import Rayforce.Expr.Registers

/-! `expr_zone_decide`: a morsel answered from the extrema of its chunk. -/

namespace Rayforce.Expr

open Function

inductive Tri
  | none | mixed | fail | pass
  deriving DecidableEq, Repr

def ztAnd (a b : Tri) : Tri :=
  if a = .fail ∨ b = .fail then .fail else if a = .pass ∧ b = .pass then .pass else .mixed

def ztOr (a b : Tri) : Tri :=
  if a = .pass ∨ b = .pass then .pass else if a = .fail ∧ b = .fail then .fail else .mixed

def zoneSwapOp : Cmp → Cmp
  | .lt => .gt
  | .gt => .lt
  | .le => .ge
  | .ge => .le
  | c => c

namespace ChunkZone

def min (z : ChunkZone) (ch : ℕ) : Int64 := z.mins.getD ch 0

def max (z : ChunkZone) (ch : ℕ) : Int64 := z.maxs.getD ch 0

def hasNulls (z : ChunkZone) (ch : ℕ) : Bool := (z.nullBits.getD (ch / 8) 0 >>> UInt8.ofNat (ch % 8)) &&& 1 != 0

end ChunkZone

def zoneCmpDecision (z : ChunkZone) (ch : ℕ) (cmp : Cmp) (cval : Int64) : Tri :=
  let cmin := z.min ch
  let cmax := z.max ch
  if cmax < cmin then .mixed
  else
    match cmp with
    | .eq => if cval < cmin ∨ cmax < cval then .fail else if z.hasNulls ch = false ∧
      cmin = cmax then .pass else .mixed
    | .ne =>
      if z.hasNulls ch = false ∧ (cval < cmin ∨ cmax < cval) then .pass
      else if cmin = cmax ∧ cval = cmin then .fail
      else .mixed
    | .lt => if cval ≤ cmin then .fail else if z.hasNulls ch = false ∧ cmax < cval then .pass else .mixed
    | .le => if cval < cmin then .fail else if z.hasNulls ch = false ∧ cmax ≤ cval then .pass else .mixed
    | .gt => if cmax ≤ cval then .fail else if z.hasNulls ch = false ∧ cval < cmin then .pass else .mixed
    | .ge => if cmax < cval then .fail else if z.hasNulls ch = false ∧ cval ≤ cmin then .pass else .mixed

def zoneFreshIndex (col : Option Column) : Option ChunkZone :=
  match col with
  | none => none
  | some col =>
    match col.index with
    | none => none
    | some z => if z.builtForLen ≠ col.len ∨ z.isF64 = true then none else some z

def zoneOperands (p : Program) (op : Cmp) (a b : ℕ) : Option Column × Int64 × Cmp :=
  if (p.regs a).kind = .scan ∧ (p.regs b).kind = .const ∧ (p.regs b).type = .i64 then
    ((p.regs a).colObj, (p.regs b).constI64, op)
  else if (p.regs b).kind = .scan ∧ (p.regs a).kind = .const ∧ (p.regs a).type = .i64 then
    ((p.regs b).colObj, (p.regs a).constI64, zoneSwapOp op)
  else (none, 0, op)

def zoneCompare (p : Program) (ms me : ℕ) (op : Cmp) (a b : ℕ) : Tri :=
  let (col, cval, cmp) := zoneOperands p op a b
  match zoneFreshIndex col with
  | none => .mixed
  | some z =>
    let sCh := ms / 2 ^ z.chunkLog2
    let eCh := (me - 1) / 2 ^ z.chunkLog2
    if sCh = eCh ∧ sCh < z.nChunks then zoneCmpDecision z sCh cmp cval else .mixed

def triOf (p : Program) (ms me : ℕ) (tri : ℕ → Tri) (i : Ins) : Tri :=
  match i.opcode, i.src2 with
  | .cmp op, some b => zoneCompare p ms me op i.src1 b
  | .and, some b => ztAnd (tri i.src1) (tri b)
  | .or, some b => ztOr (tri i.src1) (tri b)
  | _, _ => .mixed

def stepTri (p : Program) (ms me : ℕ) (tri : ℕ → Tri) (i : Ins) : ℕ → Tri :=
  Function.update tri i.dst (triOf p ms me tri i)

def evalTri (p : Program) (ms me : ℕ) : ℕ → Tri := p.ins.foldl (stepTri p ms me) fun _ => .none

-- `none` for the answer -1
def exprZoneDecide (p : Program) (ms me : ℕ) : Option Bool :=
  match evalTri p ms me p.outReg with
  | .pass => some true
  | .fail => some false
  | _ => none

structure Compiled (p : Program) (nrows : ℕ) : Prop where
  dst : ∀ i ∈ p.ins, (p.regs i.dst).kind = .scratch
  boolDst : ∀ i ∈ p.ins, (∀ code, i.opcode ≠ .other code) → (p.regs i.dst).type = .bool
  promoted : ∀ i ∈ p.ins, (∀ code, i.opcode ≠ .other code) → ∀ b, i.src2 = some b →
    (p.regs i.src1).type = (p.regs b).type
  intColumn : ∀ r, (p.regs r).kind = .scan → ∀ z, zoneFreshIndex (p.regs r).colObj = some z →
    (p.regs r).type = .i64
  rows : ∀ r, (p.regs r).kind = .scan → ∀ col, (p.regs r).colObj = some col → col.len = nrows
  const : ∀ r, (p.regs r).kind = .const → (p.regs r).type = .i64 → (p.regs r).constI64 ≠ nullI64

def InChunk (z : ChunkZone) (len ch j : ℕ) : Prop := j / 2 ^ z.chunkLog2 = ch ∧ j < len

structure Exact (z : ChunkZone) (col : Column) : Prop where
  bounds : ∀ ch < z.nChunks, ∀ j, InChunk z col.len ch j → col.lane j ≠ nullI64 → z.min ch ≤ col.lane j ∧
    col.lane j ≤ z.max ch
  attained : ∀ ch < z.nChunks, (∃ j, InChunk z col.len ch j ∧ col.lane j ≠ nullI64) →
    (∃ j, InChunk z col.len ch j ∧ col.lane j ≠ nullI64 ∧ col.lane j = z.min ch) ∧
    ∃ j, InChunk z col.len ch j ∧ col.lane j ≠ nullI64 ∧ col.lane j = z.max ch
  empty : ∀ ch < z.nChunks, (∀ j, InChunk z col.len ch j → col.lane j = nullI64) → z.max ch < z.min ch
  nulls : ∀ ch < z.nChunks, z.hasNulls ch = true ↔ ∃ j, InChunk z col.len ch j ∧ col.lane j = nullI64

def ExactIndexes (p : Program) : Prop :=
  ∀ r, ∀ col, (p.regs r).colObj = some col → ∀ z, zoneFreshIndex (some col) = some z → Exact z col

def NullPasses (z : ChunkZone) (ch : ℕ) (cval : Int64) : Cmp → Prop
  | .lt => cval ≤ z.min ch
  | .le => cval < z.min ch
  | .ne => z.min ch = z.max ch ∧ cval = z.min ch
  | _ => False

def Misjudged (p : Program) (ms me : ℕ) (i : Ins) : Prop :=
  ∃ op b col z, i.opcode = .cmp op ∧ i.src2 = some b ∧ (zoneOperands p op i.src1 b).1 = some col ∧
    zoneFreshIndex (some col) = some z ∧ ms / 2 ^ z.chunkLog2 = (me - 1) / 2 ^ z.chunkLog2 ∧
    ms / 2 ^ z.chunkLog2 < z.nChunks ∧ z.min (ms / 2 ^ z.chunkLog2) ≤ z.max (ms / 2 ^ z.chunkLog2) ∧
    (∃ j, ms ≤ j ∧ j < me ∧ col.lane j = nullI64) ∧
    NullPasses z (ms / 2 ^ z.chunkLog2) (zoneOperands p op i.src1 b).2.1 (zoneOperands p op i.src1 b).2.2

def Sound (k : Kernels) (p : Program) (ms me : ℕ) : Prop :=
  ∀ d, exprZoneDecide p ms me = some d → ∀ j, ms ≤ j → j < me → outLane k p j = ofBool d

section

variable {z : ChunkZone} {ch : ℕ} {cmp : Cmp} {cval : Int64} {col : Column}

lemma holds_swap (op : Cmp) (a b : ℤ) : (zoneSwapOp op).Holds b a ↔ op.Holds a b := by
  cases op with
  | eq => exact eq_comm
  | ne => exact ne_comm
  | _ => exact Iff.rfl

def PassArm (z : ChunkZone) (ch : ℕ) (cval : Int64) : Cmp → Prop
  | .eq => (z.min ch).toInt ≤ cval.toInt ∧ cval.toInt ≤ (z.max ch).toInt ∧ z.min ch = z.max ch
  | .ne => cval.toInt < (z.min ch).toInt ∨ (z.max ch).toInt < cval.toInt
  | .lt => (z.max ch).toInt < cval.toInt
  | .le => (z.max ch).toInt ≤ cval.toInt
  | .gt => cval.toInt < (z.min ch).toInt
  | .ge => cval.toInt ≤ (z.min ch).toInt

def FailArm (z : ChunkZone) (ch : ℕ) (cval : Int64) : Cmp → Prop
  | .eq => cval.toInt < (z.min ch).toInt ∨ (z.max ch).toInt < cval.toInt
  | .ne => z.min ch = z.max ch ∧ cval = z.min ch
  | .lt => cval.toInt ≤ (z.min ch).toInt
  | .le => cval.toInt < (z.min ch).toInt
  | .gt => (z.max ch).toInt ≤ cval.toInt
  | .ge => (z.max ch).toInt < cval.toInt

lemma zoneCmpDecision_pass (h : zoneCmpDecision z ch cmp cval = .pass) :
    z.hasNulls ch = false ∧ PassArm z ch cval cmp := by
  cases cmp <;> simp only [zoneCmpDecision, Int64.lt_iff_toInt_lt, Int64.le_iff_toInt_le] at h <;>
    split_ifs at h <;> simp_all [PassArm]

lemma zoneCmpDecision_fail : zoneCmpDecision z ch cmp cval = .fail ↔ z.min ch ≤ z.max ch ∧
    FailArm z ch cval cmp := by
  have heq : cval = z.min ch ↔ cval.toInt = (z.min ch).toInt := Int64.toInt_inj.symm
  have hext : z.min ch = z.max ch ↔ (z.min ch).toInt = (z.max ch).toInt := Int64.toInt_inj.symm
  cases cmp <;> simp only [zoneCmpDecision, FailArm, Int64.lt_iff_toInt_lt, Int64.le_iff_toInt_le, heq,
    hext] <;> split_ifs <;> simp only [true_iff, false_iff] <;> omega

lemma holds_of_pass (hz : Exact z col) (hch : ch < z.nChunks) {j : ℕ} (hj : InChunk z col.len ch j)
    (h : zoneCmpDecision z ch cmp cval = .pass) : cmp.Holds (col.lane j).toInt cval.toInt := by
  obtain ⟨hno, harm⟩ := zoneCmpDecision_pass h
  have hvalue : col.lane j ≠ nullI64 := by
    intro hnull
    rw [(hz.nulls ch hch).mpr ⟨j, hj, hnull⟩] at hno
    cases hno
  obtain ⟨hmin, hmax⟩ := hz.bounds ch hch j hj hvalue
  rw [Int64.le_iff_toInt_le] at hmin hmax
  cases cmp with
  | eq =>
    obtain ⟨hlo, hhi, hsame⟩ := harm
    rw [hsame] at hlo hmin
    exact le_antisymm (hmax.trans hlo) (hhi.trans hmin)
  | ne =>
    intro he
    rw [he] at hmin hmax
    rcases harm with h | h <;> omega
  | lt => exact lt_of_le_of_lt hmax harm
  | le => exact hmax.trans harm
  | gt => exact lt_of_lt_of_le harm hmin
  | ge => exact harm.trans hmin

lemma not_holds_of_fail (hz : Exact z col) (hch : ch < z.nChunks) {j : ℕ} (hj : InChunk z col.len ch j)
    (hvalue : col.lane j ≠ nullI64) (h : FailArm z ch cval cmp) : ¬ cmp.Holds (col.lane j).toInt cval.toInt := by
  obtain ⟨hmin, hmax⟩ := hz.bounds ch hch j hj hvalue
  rw [Int64.le_iff_toInt_le] at hmin hmax
  cases cmp with
  | eq =>
    intro he
    rw [he] at hmin hmax
    rcases h with h | h <;> omega
  | ne =>
    obtain ⟨hsame, hc⟩ := h
    rw [← hsame, ← hc] at hmax
    rw [← hc] at hmin
    exact not_not_intro (le_antisymm hmax hmin)
  | lt => exact not_lt.mpr (h.trans hmin)
  | le => exact not_le.mpr (lt_of_lt_of_le h hmin)
  | gt => exact not_lt.mpr (hmax.trans h)
  | ge => exact not_le.mpr (lt_of_le_of_lt hmax h)

lemma null_holds_iff (hc : cval ≠ nullI64) (h : FailArm z ch cval cmp) :
    cmp.Holds nullI64.toInt cval.toInt ↔ NullPasses z ch cval cmp := by
  have hlow : nullI64.toInt < cval.toInt := lt_of_le_of_ne (null_le cval) fun he => hc (Int64.toInt_inj.mp he).symm
  have hmin := null_le (z.min ch)
  cases cmp with
  | eq => exact iff_of_false hlow.ne id
  | ne => exact iff_of_true hlow.ne h
  | lt => exact iff_of_true hlow (Int64.le_iff_toInt_le.mpr h)
  | le => exact iff_of_true hlow.le (Int64.lt_iff_toInt_lt.mpr h)
  | gt => exact iff_of_false hlow.not_gt id
  | ge => exact iff_of_false hlow.not_ge id

end

section

variable {k : Kernels} {p : Program} {nrows ms me row : ℕ} {i : Ins} {op : Cmp} {b : ℕ} {file : ℕ → Int64}

def Loaded (k : Kernels) (p : Program) (row : ℕ) (file : ℕ → Int64) : Prop :=
  ∀ r, (p.regs r).kind ≠ .scratch → file r = loadLane k p row r

lemma loadLane_scan {r : ℕ} {col : Column} (hk : (p.regs r).kind = .scan) (ht : (p.regs r).type = .i64)
    (hcol : (p.regs r).colObj = some col) : loadLane k p row r = col.lane row := by
  rw [loadLane, hk, ht, hcol]

lemma loadLane_const {r : ℕ} (hk : (p.regs r).kind = .const) (ht : (p.regs r).type = .i64) :
    loadLane k p row r = (p.regs r).constI64 := by
  rw [loadLane, hk, ht]

lemma execLane_cmp (hdst : (p.regs i.dst).type = .bool) (hsrc : (p.regs i.src1).type = .i64)
    (ho : i.opcode = .cmp op) (hb : i.src2 = some b) :
    execLane k p i row file = ofBool (cmpI64 i.nullAware op (file i.src1) (file b)) := by
  rw [execLane, hb]
  dsimp only
  rw [hdst, hsrc, ho]

lemma execLane_operands (hp : Compiled p nrows) (hi : i ∈ p.ins) (hload : Loaded k p row file)
    (ho : i.opcode = .cmp op)
    (hb : i.src2 = some b) {col : Column} (hcol : (zoneOperands p op i.src1 b).1 = some col) :
    (zoneOperands p op i.src1 b).2.1 ≠ nullI64 ∧ col.len = nrows ∧ (∃ r, (p.regs r).colObj = some col) ∧
    ∃ x, execLane k p i row file = ofBool x ∧
      (x = true ↔ (zoneOperands p op i.src1 b).2.2.Holds (col.lane row).toInt
        (zoneOperands p op i.src1 b).2.1.toInt) := by
  have hplain : ∀ code, i.opcode ≠ .other code := by
    intro code h
    rw [ho] at h
    cases h
  have hbool := hp.boolDst i hi hplain
  have hsame := hp.promoted i hi hplain b hb
  rw [zoneOperands] at hcol ⊢
  by_cases hleft : (p.regs i.src1).kind = .scan ∧ (p.regs b).kind = .const ∧ (p.regs b).type = .i64
  · rw [if_pos hleft] at hcol ⊢
    obtain ⟨hscan, hconst, hint⟩ := hleft
    have hsrc : (p.regs i.src1).type = .i64 := hsame.trans hint
    refine ⟨hp.const b hconst hint, hp.rows _ hscan col hcol, ⟨_, hcol⟩, _, execLane_cmp hbool hsrc ho hb, ?_⟩
    rw [cmpI64_iff, hload i.src1 (by rw [hscan]; decide), hload b (by rw [hconst]; decide),
      loadLane_scan hscan hsrc hcol, loadLane_const hconst hint]
  rw [if_neg hleft] at hcol ⊢
  by_cases hright : (p.regs b).kind = .scan ∧ (p.regs i.src1).kind = .const ∧ (p.regs i.src1).type = .i64
  · rw [if_pos hright] at hcol ⊢
    obtain ⟨hscan, hconst, hint⟩ := hright
    have hsrc : (p.regs b).type = .i64 := hsame.symm.trans hint
    refine ⟨hp.const _ hconst hint, hp.rows _ hscan col hcol, ⟨_, hcol⟩, _, execLane_cmp hbool hint ho hb, ?_⟩
    rw [cmpI64_iff, hload b (by rw [hscan]; decide), hload i.src1 (by rw [hconst]; decide),
      loadLane_scan hscan hsrc hcol, loadLane_const hconst hint]
    exact (holds_swap op _ _).symm
  · rw [if_neg hright] at hcol
    cases hcol

lemma zoneCompare_decided {d : Tri} (hd : d = .pass ∨ d = .fail) (h : zoneCompare p ms me op i.src1 b = d) :
    ∃ col z, (zoneOperands p op i.src1 b).1 = some col ∧ zoneFreshIndex (some col) = some z ∧
      ms / 2 ^ z.chunkLog2 = (me - 1) / 2 ^ z.chunkLog2 ∧ ms / 2 ^ z.chunkLog2 < z.nChunks ∧
      zoneCmpDecision z (ms / 2 ^ z.chunkLog2) (zoneOperands p op i.src1 b).2.2
        (zoneOperands p op i.src1 b).2.1 = d := by
  have hmixed : d ≠ .mixed := by
    rintro rfl
    rcases hd with h | h <;> cases h
  rw [zoneCompare] at h
  dsimp only at h
  cases hcol : (zoneOperands p op i.src1 b).1 with
  | none =>
    rw [hcol] at h
    exact absurd h.symm hmixed
  | some col =>
    rw [hcol] at h
    cases hz : zoneFreshIndex (some col) with
    | none =>
      rw [hz] at h
      exact absurd h.symm hmixed
    | some z =>
      rw [hz] at h
      dsimp only at h
      by_cases hone : ms / 2 ^ z.chunkLog2 = (me - 1) / 2 ^ z.chunkLog2 ∧ ms / 2 ^ z.chunkLog2 < z.nChunks
      · rw [if_pos hone] at h
        exact ⟨col, z, rfl, hz, hone.1, hone.2, h⟩
      · rw [if_neg hone] at h
        exact absurd h.symm hmixed

lemma inChunk_of_morsel {z : ChunkZone} {len j : ℕ} (hone : ms / 2 ^ z.chunkLog2 = (me - 1) / 2 ^ z.chunkLog2)
    (hms : ms ≤ j) (hme : j < me) (hlen : me ≤ len) : InChunk z len (ms / 2 ^ z.chunkLog2) j := by
  refine ⟨le_antisymm ?_ (Nat.div_le_div_right hms), by omega⟩
  rw [hone]
  exact Nat.div_le_div_right (by omega)

lemma compare_pass (hp : Compiled p nrows) (hx : ExactIndexes p) (hme : me ≤ nrows) (hi : i ∈ p.ins)
    (ho : i.opcode = .cmp op)
    (hb : i.src2 = some b) (h : zoneCompare p ms me op i.src1 b = .pass) (hms : ms ≤ row) (hrow : row < me)
    (hload : Loaded k p row file) : execLane k p i row file = 1 := by
  obtain ⟨col, z, hcol, hz, hone, hch, hdec⟩ := zoneCompare_decided (.inl rfl) h
  obtain ⟨-, hlen, ⟨r, hr⟩, x, hlane, hx'⟩ := execLane_operands hp hi hload ho hb hcol
  have hin := inChunk_of_morsel hone hms hrow (show me ≤ col.len by omega)
  rw [hlane, hx'.mpr (holds_of_pass (hx r col hr z hz) hch hin hdec)]
  rfl

lemma compare_fail_iff {files : ℕ → ℕ → Int64} (hp : Compiled p nrows) (hx : ExactIndexes p) (hme : me ≤ nrows)
    (hi : i ∈ p.ins) (ho : i.opcode = .cmp op) (hb : i.src2 = some b) (h : zoneCompare p ms me op i.src1 b = .fail)
    (hload : ∀ row, Loaded k p row (files row)) :
    (∀ row, ms ≤ row → row < me → execLane k p i row (files row) = 0) ↔ ¬ Misjudged p ms me i := by
  obtain ⟨col, z, hcol, hz, hone, hch, hdec⟩ := zoneCompare_decided (.inr rfl) h
  obtain ⟨hext, harm⟩ := zoneCmpDecision_fail.mp hdec
  constructor
  · rintro hall ⟨op', b', col', z', ho', hb', hcol', hz', -, -, -, ⟨j, hms, hrow, hnull⟩, hpass⟩
    obtain rfl : op = op' := by
      rw [ho] at ho'
      exact Opcode.cmp.inj ho'
    obtain rfl := Option.some.inj (hb.symm.trans hb')
    obtain rfl := Option.some.inj (hcol.symm.trans hcol')
    obtain rfl := Option.some.inj (hz.symm.trans hz')
    obtain ⟨hconst, -, -, x, hlane, hx'⟩ := execLane_operands hp hi (hload j) ho hb hcol
    have hzero := hall j hms hrow
    rw [hlane, hx'.mpr (by rw [hnull]; exact (null_holds_iff hconst harm).mpr hpass)] at hzero
    exact absurd hzero (by decide)
  · intro hright row hms hrow
    obtain ⟨hconst, hlen, ⟨r, hr⟩, x, hlane, hx'⟩ := execLane_operands hp hi (hload row) ho hb hcol
    have hin := inChunk_of_morsel hone hms hrow (show me ≤ col.len by omega)
    have hfalse : ¬ (zoneOperands p op i.src1 b).2.2.Holds (col.lane row).toInt
        (zoneOperands p op i.src1 b).2.1.toInt := by
      by_cases hnull : col.lane row = nullI64
      · rw [hnull, null_holds_iff hconst harm]
        exact fun hpass => hright ⟨op, b, col, z, ho, hb, hcol, hz, hone, hch, hext,
          ⟨row, hms, hrow, hnull⟩, hpass⟩
      · exact not_holds_of_fail (hx r col hr z hz) hch hin hnull harm
    have hxf : x = false := Bool.eq_false_iff.mpr fun ht => hfalse (hx'.mp ht)
    rw [hlane, hxf]
    rfl

end

section

variable {k : Kernels} {p : Program} {nrows ms me : ℕ} {i : Ins} {tri : ℕ → Tri} {files : ℕ → ℕ → Int64}
    {d : Tri} {v : Int64}

def Answered (d : Tri) (v : Int64) (p : Program) (ms me : ℕ) (tri : ℕ → Tri) (files : ℕ → ℕ → Int64) : Prop :=
  ∀ r, tri r = d → (p.regs r).type = .bool ∧ ∀ row, ms ≤ row → row < me → files row r = v

lemma Loaded.step (hp : Compiled p nrows) (hi : i ∈ p.ins) {row : ℕ} {file : ℕ → Int64} (h : Loaded k p row file) :
    Loaded k p row (stepLane k p row file i) := by
  intro r hr
  have hne : r ≠ i.dst := by
    rintro rfl
    exact hr (hp.dst i hi)
  rw [stepLane, update_of_ne hne, h r hr]

lemma execLane_and {b row : ℕ} {file : ℕ → Int64} (hdst : (p.regs i.dst).type = .bool)
    (hsrc : (p.regs i.src1).type = .bool)
    (ho : i.opcode = .and) (hb : i.src2 = some b) :
      execLane k p i row file = ofBool (file i.src1 != 0 && file b != 0) := by
  rw [execLane, hb]
  dsimp only
  rw [hdst, hsrc, ho]

lemma execLane_or {b row : ℕ} {file : ℕ → Int64} (hdst : (p.regs i.dst).type = .bool)
    (hsrc : (p.regs i.src1).type = .bool)
    (ho : i.opcode = .or) (hb : i.src2 = some b) :
      execLane k p i row file = ofBool (file i.src1 != 0 || file b != 0) := by
  rw [execLane, hb]
  dsimp only
  rw [hdst, hsrc, ho]

lemma ztAnd_fail {a b : Tri} : ztAnd a b = .fail ↔ a = .fail ∨ b = .fail := by
  cases a <;> cases b <;> decide

lemma ztAnd_pass {a b : Tri} : ztAnd a b = .pass ↔ a = .pass ∧ b = .pass := by
  cases a <;> cases b <;> decide

lemma ztOr_fail {a b : Tri} : ztOr a b = .fail ↔ a = .fail ∧ b = .fail := by
  cases a <;> cases b <;> decide

lemma ztOr_pass {a b : Tri} : ztOr a b = .pass ↔ a = .pass ∨ b = .pass := by
  cases a <;> cases b <;> decide

lemma and_lane (hd : d = .pass ∧ v = 1 ∨ d = .fail ∧ v = 0) (h : Answered d v p ms me tri files) {a b : ℕ}
    (hsame : (p.regs a).type = (p.regs b).type) (ht : ztAnd (tri a) (tri b) = d) :
    (p.regs a).type = .bool ∧ ∀ row, ms ≤ row → row < me → ofBool (files row a != 0 && files row b != 0) = v := by
  obtain ⟨rfl, rfl⟩ | ⟨rfl, rfl⟩ := hd
  · rw [ztAnd_pass] at ht
    obtain ⟨htype, ha⟩ := h a ht.1
    obtain ⟨-, hb⟩ := h b ht.2
    refine ⟨htype, fun row hms hrow => ?_⟩
    rw [ha row hms hrow, hb row hms hrow]
    rfl
  · rw [ztAnd_fail] at ht
    obtain ha | hb := ht
    · obtain ⟨htype, ha⟩ := h a ha
      refine ⟨htype, fun row hms hrow => ?_⟩
      rw [ha row hms hrow]
      rfl
    · obtain ⟨htype, hb⟩ := h b hb
      refine ⟨hsame.trans htype, fun row hms hrow => ?_⟩
      rw [hb row hms hrow, bne_self_eq_false, Bool.and_false]
      rfl

lemma or_lane (hd : d = .pass ∧ v = 1 ∨ d = .fail ∧ v = 0) (h : Answered d v p ms me tri files) {a b : ℕ}
    (hsame : (p.regs a).type = (p.regs b).type) (ht : ztOr (tri a) (tri b) = d) :
    (p.regs a).type = .bool ∧ ∀ row, ms ≤ row → row < me → ofBool (files row a != 0 || files row b != 0) = v := by
  obtain ⟨rfl, rfl⟩ | ⟨rfl, rfl⟩ := hd
  · rw [ztOr_pass] at ht
    obtain ha | hb := ht
    · obtain ⟨htype, ha⟩ := h a ha
      refine ⟨htype, fun row hms hrow => ?_⟩
      rw [ha row hms hrow]
      rfl
    · obtain ⟨htype, hb⟩ := h b hb
      refine ⟨hsame.trans htype, fun row hms hrow => ?_⟩
      have hone : ((1 : Int64) != 0) = true := by decide
      rw [hb row hms hrow, hone, Bool.or_true]
      rfl
  · rw [ztOr_fail] at ht
    obtain ⟨htype, ha⟩ := h a ht.1
    obtain ⟨-, hb⟩ := h b ht.2
    refine ⟨htype, fun row hms hrow => ?_⟩
    rw [ha row hms hrow, hb row hms hrow]
    rfl

section

variable (hp : Compiled p nrows)
include hp

section

variable (hd : d = .pass ∧ v = 1 ∨ d = .fail ∧ v = 0)
include hd

lemma triOf_lane (hi : i ∈ p.ins) (h : Answered d v p ms me tri files)
    (hcmp : ∀ op b, i.opcode = .cmp op → i.src2 = some b → zoneCompare p ms me op i.src1 b = d →
      ∀ row, ms ≤ row → row < me → execLane k p i row (files row) = v) (ht : triOf p ms me tri i = d) :
    (p.regs i.dst).type = .bool ∧ ∀ row, ms ≤ row → row < me → execLane k p i row (files row) = v := by
  have hmixed : Tri.mixed ≠ d := by
    rintro rfl
    rcases hd with ⟨hc, -⟩ | ⟨hc, -⟩ <;> cases hc
  rw [triOf] at ht
  cases hb : i.src2 with
  | none =>
    rw [hb] at ht
    cases ho : i.opcode <;> rw [ho] at ht <;> exact absurd ht hmixed
  | some b =>
    rw [hb] at ht
    cases ho : i.opcode with
    | other code =>
      rw [ho] at ht
      exact absurd ht hmixed
    | cmp op =>
      rw [ho] at ht
      exact ⟨hp.boolDst i hi (by simp [ho]), hcmp op b ho hb ht⟩
    | and =>
      rw [ho] at ht
      have hplain : ∀ code, i.opcode ≠ .other code := by simp [ho]
      have hbool := hp.boolDst i hi hplain
      obtain ⟨htype, hlane⟩ := and_lane hd h (hp.promoted i hi hplain b hb) ht
      refine ⟨hbool, fun row hms hrow => ?_⟩
      rw [execLane_and hbool htype ho hb, hlane row hms hrow]
    | or =>
      rw [ho] at ht
      have hplain : ∀ code, i.opcode ≠ .other code := by simp [ho]
      have hbool := hp.boolDst i hi hplain
      obtain ⟨htype, hlane⟩ := or_lane hd h (hp.promoted i hi hplain b hb) ht
      refine ⟨hbool, fun row hms hrow => ?_⟩
      rw [execLane_or hbool htype ho hb, hlane row hms hrow]

lemma Answered.step (hi : i ∈ p.ins)
    (hcmp : ∀ op b, i.opcode = .cmp op → i.src2 = some b → zoneCompare p ms me op i.src1 b = d →
      ∀ row, ms ≤ row → row < me → execLane k p i row (files row) = v) (h : Answered d v p ms me tri files) :
    Answered d v p ms me (stepTri p ms me tri i) fun row => stepLane k p row (files row) i := by
  intro r hr
  by_cases hdst : r = i.dst
  · subst hdst
    rw [stepTri, update_self] at hr
    obtain ⟨htype, hlane⟩ := triOf_lane hp hd hi h hcmp hr
    refine ⟨htype, fun row hms hrow => ?_⟩
    change update (files row) i.dst (execLane k p i row (files row)) i.dst = v
    rw [update_self, hlane row hms hrow]
  · rw [stepTri, update_of_ne hdst] at hr
    obtain ⟨htype, hlane⟩ := h r hr
    refine ⟨htype, fun row hms hrow => ?_⟩
    change update (files row) i.dst (execLane k p i row (files row)) r = v
    rw [update_of_ne hdst, hlane row hms hrow]

lemma Answered.run {l : List Ins} (hl : l ⊆ p.ins) (hload : ∀ row, Loaded k p row (files row))
    (hcmp : ∀ i ∈ l, ∀ files : ℕ → ℕ → Int64, (∀ row, Loaded k p row (files row)) → ∀ op b, i.opcode = .cmp op →
      i.src2 = some b →
      zoneCompare p ms me op i.src1 b = d → ∀ row, ms ≤ row → row < me → execLane k p i row (files row) = v)
    (h : Answered d v p ms me tri files) :
    Answered d v p ms me (l.foldl (stepTri p ms me) tri) fun row => l.foldl (stepLane k p row) (files row) := by
  induction l generalizing tri files with
  | nil => exact h
  | cons i l ih =>
    rw [List.cons_subset] at hl
    rw [List.forall_mem_cons] at hcmp
    exact ih hl.2 (fun row => (hload row).step hp hl.1) hcmp.2 (h.step hp hd hl.1 (hcmp.1 files hload))

end

omit hp in
lemma loaded_load (k : Kernels) (p : Program) (row : ℕ) : Loaded k p row (loadLane k p row) := fun _ _ => rfl

lemma decide_pass (hx : ExactIndexes p) (hme : me ≤ nrows) (h : exprZoneDecide p ms me = some true) :
    ∀ j, ms ≤ j → j < me → outLane k p j = 1 := by
  have hrun : Answered .pass 1 p ms me (evalTri p ms me) (evalLanes k p) :=
    Answered.run hp (.inl ⟨rfl, rfl⟩) (List.Subset.refl _) (loaded_load k p)
      (fun i hi files hload op b ho hb hz row hms hrow =>
        compare_pass hp hx hme hi ho hb hz hms hrow (hload row)) nofun
  refine (hrun p.outReg ?_).2
  rw [exprZoneDecide] at h
  split at h
  · assumption
  · cases h
  · cases h

lemma decide_fail (hx : ExactIndexes p) (hme : me ≤ nrows) (hright : ∀ i ∈ p.ins, ¬ Misjudged p ms me i)
    (h : exprZoneDecide p ms me = some false) : ∀ j, ms ≤ j → j < me → outLane k p j = 0 := by
  have hrun : Answered .fail 0 p ms me (evalTri p ms me) (evalLanes k p) :=
    Answered.run hp (.inr ⟨rfl, rfl⟩) (List.Subset.refl _) (loaded_load k p)
      (fun i hi files hload op b ho hb hz =>
        (compare_fail_iff hp hx hme hi ho hb hz hload).mpr (hright i hi)) nofun
  refine (hrun p.outReg ?_).2
  rw [exprZoneDecide] at h
  split at h
  · cases h
  · assumption
  · cases h

end

lemma zoneCompare_of_misjudged (h : Misjudged p ms me i) : ∃ op b, i.opcode = .cmp op ∧ i.src2 = some b ∧
    zoneCompare p ms me op i.src1 b = .fail := by
  obtain ⟨op, b, col, z, ho, hb, hcol, hz, hone, hch, hext, -, hpass⟩ := h
  refine ⟨op, b, ho, hb, ?_⟩
  rw [zoneCompare]
  dsimp only
  rw [hcol, hz]
  dsimp only
  rw [if_pos ⟨hone, hch⟩, zoneCmpDecision_fail]
  refine ⟨hext, ?_⟩
  generalize (zoneOperands p op i.src1 b).2.2 = cmp at hpass ⊢
  cases cmp with
  | ne => exact hpass
  | lt => exact Int64.le_iff_toInt_le.mp hpass
  | le => exact Int64.lt_iff_toInt_lt.mp hpass
  | eq | gt | ge => exact hpass.elim

/-- "All rows" is always right; the decision is right when no comparison is misjudged. -/
theorem exprZoneDecide_sound_unless_misjudged (k : Kernels) (hp : Compiled p nrows) (hx : ExactIndexes p)
    (hme : me ≤ nrows) : (exprZoneDecide p ms me = some true → ∀ j, ms ≤ j → j < me → outLane k p j = 1) ∧
    ((∀ i ∈ p.ins, ¬ Misjudged p ms me i) → Sound k p ms me) ∧
    ∀ i, p.ins = [i] → p.outReg = i.dst → (Sound k p ms me ↔ ¬ Misjudged p ms me i) := by
  have hsound : (∀ i ∈ p.ins, ¬ Misjudged p ms me i) → Sound k p ms me := by
    intro hright d hd
    cases d with
    | true => exact decide_pass hp hx hme hd
    | false => exact decide_fail hp hx hme hright hd
  refine ⟨decide_pass hp hx hme, hsound, fun i hins hout => ⟨fun h hmis => ?_, fun hright => hsound ?_⟩⟩
  · obtain ⟨op, b, ho, hb, hfail⟩ := zoneCompare_of_misjudged hmis
    have htri : evalTri p ms me p.outReg = .fail := by
      rw [evalTri, hins, hout]
      change Function.update (fun _ => Tri.none) i.dst (triOf p ms me (fun _ => Tri.none) i) i.dst = _
      rw [Function.update_self, triOf, ho, hb]
      exact hfail
    have hi : i ∈ p.ins := by
      rw [hins]
      exact List.mem_singleton_self i
    refine (compare_fail_iff hp hx hme hi ho hb hfail (loaded_load k p)).mp (fun row hms hrow => ?_) hmis
    have hlane := h false (by rw [exprZoneDecide, htri]) row hms hrow
    rw [outLane, evalLanes, hins, hout] at hlane
    change Function.update (loadLane k p row) i.dst (execLane k p i row (loadLane k p row)) i.dst = _ at hlane
    rwa [Function.update_self] at hlane
  · rw [hins]
    intro i' hi'
    rw [List.mem_singleton] at hi'
    rwa [hi']

def fivesZone : ChunkZone := ⟨11, 1, [5], [5], [1], false, 2048⟩

def fives : Column := ⟨2048, some fivesZone, fun j => if j = 0 then nullI64 else 5⟩

def belowThree : Program where
  regs r := if r = 0 then ⟨.scan, .i64, some fives, 0⟩
    else if r = 1 then ⟨.const, .i64, none, 3⟩ else ⟨.scratch, .bool, none, 0⟩
  ins := [⟨.cmp .lt, 2, 0, some 1, true⟩]
  outReg := 2

lemma belowThree_compiled : Compiled belowThree 2048 where
  dst := by decide
  boolDst _ hi _ := by
    obtain rfl := List.mem_singleton.mp hi
    rfl
  promoted _ hi _ b hb := by
    obtain rfl := List.mem_singleton.mp hi
    obtain rfl := Option.some.inj hb
    rfl
  intColumn r hr := by
    by_cases h0 : r = 0
    · rw [h0]
      exact fun _ _ => rfl
    by_cases h1 : r = 1
    · rw [h1] at hr
      cases hr
    · simp [belowThree, h0, h1] at hr
  rows r _ col hcol := by
    by_cases h0 : r = 0
    · rw [h0] at hcol
      obtain rfl := Option.some.inj hcol
      rfl
    by_cases h1 : r = 1
    · rw [h1] at hcol
      cases hcol
    · simp [belowThree, h0, h1] at hcol
  const r hr _ := by
    by_cases h0 : r = 0
    · rw [h0] at hr
      cases hr
    by_cases h1 : r = 1
    · rw [h1]
      decide
    · simp [belowThree, h0, h1] at hr

lemma fives_exact : Exact fivesZone fives := by
  have hzero : ∀ ch < fivesZone.nChunks, ch = 0 := fun ch h => Nat.lt_one_iff.mp h
  have hlane : ∀ j, fives.lane j ≠ nullI64 → fives.lane j = 5 := by
    intro j hj
    by_cases h0 : j = 0
    · rw [h0] at hj
      exact absurd rfl hj
    · exact if_neg h0
  have hfive : InChunk fivesZone fives.len 0 1 ∧ fives.lane 1 ≠ nullI64 := ⟨⟨rfl, by decide⟩, by decide⟩
  have hnull : InChunk fivesZone fives.len 0 0 ∧ fives.lane 0 = nullI64 := ⟨⟨rfl, by decide⟩, rfl⟩
  refine ⟨?_, ?_, ?_, ?_⟩
  · intro ch hch j _ hj
    obtain rfl := hzero ch hch
    rw [hlane j hj]
    decide
  · intro ch hch _
    obtain rfl := hzero ch hch
    exact ⟨⟨1, hfive.1, hfive.2, rfl⟩, 1, hfive.1, hfive.2, rfl⟩
  · intro ch hch hall
    obtain rfl := hzero ch hch
    exact absurd (hall 1 hfive.1) hfive.2
  · intro ch hch
    obtain rfl := hzero ch hch
    exact iff_of_true (by decide) ⟨0, hnull⟩

lemma belowThree_exact : ExactIndexes belowThree := by
  intro r col hcol z hz
  by_cases h0 : r = 0
  · rw [h0] at hcol
    obtain rfl := Option.some.inj hcol
    obtain rfl := Option.some.inj hz
    exact fives_exact
  by_cases h1 : r = 1
  · rw [h1] at hcol
    cases hcol
  · simp [belowThree, h0, h1] at hcol

def silentKernels : Kernels := ⟨fun _ _ => 0, fun _ _ _ => 0⟩

/-- The second morsel has no null. -/
theorem belowThree_sound : Sound silentKernels belowThree 1024 2048 := by
  refine ((exprZoneDecide_sound_unless_misjudged silentKernels belowThree_compiled belowThree_exact le_rfl).2.2
    _ rfl rfl).mpr ?_
  rintro ⟨op, b, col, z, ho, hb, hcol, -, -, -, -, ⟨j, hms, -, hnull⟩, -⟩
  obtain rfl := Opcode.cmp.inj ho
  obtain rfl := Option.some.inj hb
  obtain rfl := Option.some.inj hcol
  have hj : fives.lane j = 5 := if_neg (by omega)
  rw [hj] at hnull
  exact absurd hnull (by decide)

/-- The first morsel is skipped although its first row is below three. -/
theorem belowThree_not_sound : Compiled belowThree 2048 ∧ ExactIndexes belowThree ∧
    exprZoneDecide belowThree 0 1024 = some false ∧ outLane silentKernels belowThree 0 = 1 ∧
      ¬ Sound silentKernels belowThree 0 1024 := by
  have hdecide : exprZoneDecide belowThree 0 1024 = some false := by decide
  have hlane : outLane silentKernels belowThree 0 = 1 := by decide
  refine ⟨belowThree_compiled, belowThree_exact, hdecide, hlane, fun h => ?_⟩
  have hzero := h false hdecide 0 le_rfl (by norm_num)
  rw [hlane] at hzero
  exact absurd hzero (by decide)

end

end Rayforce.Expr
