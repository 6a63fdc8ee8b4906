import Mathlib

/-! The compiled expressions of `ops/expr.c`. -/

namespace Rayforce.Expr

def nullI64 : Int64 := Int64.minValue

inductive Cmp
  | eq | ne | lt | le | gt | ge
  deriving DecidableEq, Repr

inductive Opcode
  | cmp (c : Cmp)
  | and
  | or
  | other (code : ℕ)
  deriving DecidableEq, Repr

inductive LaneType
  | f64 | i64 | i32 | i16 | u8 | bool
  deriving DecidableEq, Repr

-- the chunk-zone index of a column; `isF64` when its extrema are doubles
structure ChunkZone where
  chunkLog2 : ℕ
  nChunks : ℕ
  mins : List Int64
  maxs : List Int64
  nullBits : List UInt8
  isF64 : Bool
  builtForLen : ℕ

structure Column where
  len : ℕ
  index : Option ChunkZone
  lane : ℕ → Int64

inductive RegKind
  | scan | const | scratch
  deriving DecidableEq, Repr

structure Reg where
  kind : RegKind
  type : LaneType
  colObj : Option Column
  constI64 : Int64

structure Ins where
  opcode : Opcode
  dst : ℕ
  src1 : ℕ
  src2 : Option ℕ
  nullAware : Bool

structure Program where
  regs : ℕ → Reg
  ins : List Ins
  outReg : ℕ

-- lanes that are not modelled: what a scan without `col_obj`, a double constant or a stale scratch slot
-- holds at a row, and what the remaining kernels write there
structure Kernels where
  load : ℕ → ℕ → Int64
  other : Ins → ℕ → (ℕ → Int64) → Int64

def isn (x : Int64) : Bool := x == nullI64

def cmpNullAware : Cmp → Int64 → Int64 → Bool
  | .eq, a, b => if isn a && isn b then true else if isn a || isn b then false else a == b
  | .ne, a, b => if isn a && isn b then false else if isn a || isn b then true else a != b
  | .lt, a, b => if isn a && isn b then false else if isn a then true else if isn b then false else decide (a < b)
  | .le, a, b => if isn a && isn b then true else if isn a then true else if isn b then false else decide (a ≤ b)
  | .gt, a, b => if isn a && isn b then false else if isn b then true else if isn a then false else decide (b < a)
  | .ge, a, b => if isn a && isn b then true else if isn b then true else if isn a then false else decide (b ≤ a)

def cmpPlain : Cmp → Int64 → Int64 → Bool
  | .eq, a, b => a == b
  | .ne, a, b => a != b
  | .lt, a, b => decide (a < b)
  | .le, a, b => decide (a ≤ b)
  | .gt, a, b => decide (b < a)
  | .ge, a, b => decide (b ≤ a)

def cmpI64 (nullAware : Bool) (c : Cmp) (a b : Int64) : Bool :=
  if nullAware then cmpNullAware c a b else cmpPlain c a b

def andI64 (nullAware : Bool) (a b : Int64) : Bool :=
  if nullAware then if isn a || isn b then false else a != 0 && b != 0 else a != 0 && b != 0

def orI64 (nullAware : Bool) (a b : Int64) : Bool :=
  if nullAware then if isn a || isn b then false else a != 0 || b != 0 else a != 0 || b != 0

def ofBool (b : Bool) : Int64 := if b then 1 else 0

def execLane (k : Kernels) (p : Program) (i : Ins) (row : ℕ) (file : ℕ → Int64) : Int64 :=
  match i.src2 with
  | none => k.other i row file
  | some src2 =>
    match (p.regs i.dst).type, (p.regs i.src1).type, i.opcode with
    | .bool, .i64, .cmp c => ofBool (cmpI64 i.nullAware c (file i.src1) (file src2))
    | .bool, .i64, .and => ofBool (andI64 i.nullAware (file i.src1) (file src2))
    | .bool, .i64, .or => ofBool (orI64 i.nullAware (file i.src1) (file src2))
    | .bool, .f64, _ => k.other i row file
    | .bool, _, .and => ofBool (file i.src1 != 0 && file src2 != 0)
    | .bool, _, .or => ofBool (file i.src1 != 0 || file src2 != 0)
    | _, _, _ => k.other i row file

def loadLane (k : Kernels) (p : Program) (row r : ℕ) : Int64 :=
  match (p.regs r).kind, (p.regs r).type, (p.regs r).colObj with
  | .scan, .i64, some col => col.lane row
  | .const, .i64, _ => (p.regs r).constI64
  | _, _, _ => k.load r row

def stepLane (k : Kernels) (p : Program) (row : ℕ) (file : ℕ → Int64) (i : Ins) : ℕ → Int64 :=
  Function.update file i.dst (execLane k p i row file)

def evalLanes (k : Kernels) (p : Program) (row : ℕ) : ℕ → Int64 :=
  p.ins.foldl (stepLane k p row) (loadLane k p row)

def outLane (k : Kernels) (p : Program) (row : ℕ) : Int64 := evalLanes k p row p.outReg

section

variable {a b : Int64} {c : Cmp}

lemma toInt_null : nullI64.toInt = -2 ^ 63 := rfl

lemma null_le (a : Int64) : nullI64.toInt ≤ a.toInt := by
  rw [toInt_null]
  exact a.le_toInt

lemma isn_iff (a : Int64) : isn a = true ↔ a = nullI64 := beq_iff_eq

def Cmp.Holds : Cmp → ℤ → ℤ → Prop
  | .eq, a, b => a = b
  | .ne, a, b => a ≠ b
  | .lt, a, b => a < b
  | .le, a, b => a ≤ b
  | .gt, a, b => b < a
  | .ge, a, b => b ≤ a

lemma cmpPlain_iff (c : Cmp) (a b : Int64) : cmpPlain c a b = true ↔ c.Holds a.toInt b.toInt := by
  cases c with
  | eq => exact beq_iff_eq.trans Int64.toInt_inj.symm
  | ne => exact bne_iff_ne.trans (not_congr Int64.toInt_inj.symm)
  | lt => exact decide_eq_true_iff.trans Int64.lt_iff_toInt_lt
  | le => exact decide_eq_true_iff.trans Int64.le_iff_toInt_le
  | gt => exact decide_eq_true_iff.trans Int64.lt_iff_toInt_lt
  | ge => exact decide_eq_true_iff.trans Int64.le_iff_toInt_le

lemma cmpNullAware_iff (c : Cmp) (a b : Int64) : cmpNullAware c a b = true ↔ c.Holds a.toInt b.toInt := by
  have ha := null_le a
  have hb := null_le b
  have hna : isn a = true ↔ a.toInt = nullI64.toInt := (isn_iff a).trans Int64.toInt_inj.symm
  have hnb : isn b = true ↔ b.toInt = nullI64.toInt := (isn_iff b).trans Int64.toInt_inj.symm
  have hplain := cmpPlain_iff c a b
  by_cases hia : isn a = true <;> by_cases hib : isn b = true
  · rw [hna] at hia
    rw [hnb] at hib
    have hsame : a = b := Int64.toInt_inj.mp (hia.trans hib.symm)
    cases c <;> simp_all [cmpNullAware, Cmp.Holds]
  · rw [Bool.not_eq_true] at hib
    have hlt : a.toInt < b.toInt := lt_of_le_of_ne (by rw [hna.mp hia]; exact hb) fun h => by simp_all
    cases c <;> simp [cmpNullAware, Cmp.Holds, hia, hib] <;> omega
  · rw [Bool.not_eq_true] at hia
    have hlt : b.toInt < a.toInt := lt_of_le_of_ne (by rw [hnb.mp hib]; exact ha) fun h => by simp_all
    cases c <;> simp [cmpNullAware, Cmp.Holds, hia, hib] <;> omega
  · rw [Bool.not_eq_true] at hia hib
    cases c <;> simpa [cmpNullAware, cmpPlain, hia, hib] using hplain

lemma cmpI64_iff (nullAware : Bool) (c : Cmp) (a b : Int64) :
    cmpI64 nullAware c a b = true ↔ c.Holds a.toInt b.toInt := by
  cases nullAware
  · exact cmpPlain_iff c a b
  · exact cmpNullAware_iff c a b

end

end Rayforce.Expr
