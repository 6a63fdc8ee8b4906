import Mathlib

namespace Rayforce.Index

variable {c : ℤ}

inductive ColType
  | bool | u8 | i16 | i32 | date | time | i64 | timestamp | sym
  deriving DecidableEq, Repr

def ColType.numericElemSize : ColType → ℕ
  | .bool | .u8 => 1
  | .i16 => 2
  | .i32 | .date | .time => 4
  | .i64 | .timestamp => 8
  | .sym => 0

def nullI64 : ℤ := -2 ^ 63

def ColType.sentinel? : ColType → Option ℤ
  | .bool | .u8 | .sym => none
  | .i16 => some (-2 ^ 15)
  | .i32 | .date | .time => some (-2 ^ 31)
  | .i64 | .timestamp => some nullI64

def hashKeyInRange (t : ColType) (k : ℤ) : Bool :=
  match t with
  | .bool | .u8 => 0 ≤ k ∧ k ≤ 255
  | .i16 => -2 ^ 15 ≤ k ∧ k ≤ 2 ^ 15 - 1
  | .i32 | .date | .time => -2 ^ 31 ≤ k ∧ k ≤ 2 ^ 31 - 1
  | .i64 | .timestamp => true
  | .sym => 0 ≤ k

structure SymDomain where
  addr : ℕ
  vocab : List String
  nodup : vocab.Nodup
  deriving DecidableEq

def SymDomain.str? (d : SymDomain) (id : ℤ) : Option String := if 0 ≤ id then d.vocab[id.toNat]? else none

def SymDomain.find? (d : SymDomain) (s : String) : Option ℤ := (d.vocab.idxOf? s).map Int.ofNat

def ColType.holds (t : ColType) (d : SymDomain) (c : ℤ) : Bool :=
  match t with
  | .sym => 0 ≤ c ∧ c < d.vocab.length
  | .i64 | .timestamp => -2 ^ 63 ≤ c ∧ c ≤ 2 ^ 63 - 1
  | t => hashKeyInRange t c

structure Column where
  type : ColType
  cells : List ℤ
  hasNulls : Bool
  domain : SymDomain
  held : ∀ c ∈ cells, type.holds domain c
  flagged : hasNulls = false → ∀ c ∈ cells, type.sentinel? ≠ some c
  short : cells.length < 2 ^ 32

namespace Column

def len (col : Column) : ℕ := col.cells.length

def cell (col : Column) (r : ℕ) : ℤ := col.cells.getD r 0

def nullCell (col : Column) (c : ℤ) : Bool := col.hasNulls && col.type.sentinel? = some c

def isNull (col : Column) (r : ℕ) : Bool := col.nullCell (col.cell r)

variable {col : Column}

lemma cell_mem {r : ℕ} (h : r < col.len) : col.cell r ∈ col.cells := by
  rw [cell, List.getD_eq_getElem _ _ h]
  exact List.getElem_mem h

lemma mem_cells : c ∈ col.cells ↔ ∃ r < col.len, col.cell r = c := by
  constructor
  · intro h
    obtain ⟨r, hr, rfl⟩ := List.mem_iff_getElem.mp h
    exact ⟨r, hr, List.getD_eq_getElem _ _ hr⟩
  · rintro ⟨r, hr, rfl⟩
    exact cell_mem hr

lemma cells_eq_map : col.cells = (List.range col.len).map col.cell := by
  apply List.ext_getElem
  · simp [len]
  · intro r h1 h2
    simp [cell, h1]

lemma nullCell_of_not_hasNulls (h : col.hasNulls = false) (c : ℤ) : col.nullCell c = false := by
  simp [nullCell, h]

lemma nullCell_iff (hc : c ∈ col.cells) : col.nullCell c ↔ col.type.sentinel? = some c := by
  constructor
  · intro h
    simpa [nullCell] using (Bool.and_eq_true_iff.mp h).2
  · intro h
    have hn : col.hasNulls = true := by
      by_contra hf
      exact col.flagged (Bool.eq_false_of_not_eq_true hf) c hc h
    simp [nullCell, hn, h]

lemma inRange_of_mem (hc : c ∈ col.cells) : hashKeyInRange col.type c := by
  have h := col.held c hc
  cases ht : col.type <;> simp_all [ColType.holds, hashKeyInRange]

lemma nullI64_le (hc : c ∈ col.cells) : nullI64 ≤ c := by
  have h := col.held c hc
  cases ht : col.type <;> simp_all [ColType.holds, hashKeyInRange, nullI64] <;> omega

end Column

end Rayforce.Index
