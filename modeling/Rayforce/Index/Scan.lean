import Rayforce.Exec.Elementwise
import Rayforce.Index.Column

namespace Rayforce.Index

open Rayforce.Exec (CmpOp cmpNull)

variable {probe : List ℤ}

def lane (col : Column) (c : ℤ) : ℤ := if col.nullCell c then nullI64 else c

def cmpPlain (op : CmpOp) (a b : ℤ) : Bool :=
  match op with
  | .eq => a = b
  | .ne => a ≠ b
  | .lt => a < b
  | .le => a ≤ b
  | .gt => b < a
  | .ge => b ≤ a

def cmpNullAware (op : CmpOp) (a b : ℤ) : Bool :=
  if a = nullI64 ∨ b = nullI64 then cmpNull op (a = nullI64) (b = nullI64) else cmpPlain op a b

def scanCell (col : Column) (op : CmpOp) (key c : ℤ) : Bool :=
  if key = nullI64 then cmpNull op (col.nullCell c) true
  else if col.hasNulls then cmpNullAware op (lane col c) key
  else cmpPlain op (lane col c) key

def scanRows (col : Column) (op : CmpOp) (key : ℤ) : List ℕ :=
  (List.range col.len).filter fun r => scanCell col op key (col.cell r)

def inProbe (col set : Column) : List ℤ :=
  if decide (col.type = .sym) ≠ decide (set.type = .sym) then []
  else set.cells.filterMap fun c =>
    if set.nullCell c then none
    else if col.type = .sym ∧ col.domain ≠ set.domain then (set.domain.str? c).bind col.domain.find?
    else some c

def markVerdict (d : ℕ) (lut : List Bool) (j : ℤ) : List Bool :=
  if 0 ≤ j ∧ j < d then lut.set j.toNat true else lut

def symLut (d : ℕ) (probe : List ℤ) : List Bool := probe.foldl (markVerdict d) (List.replicate d false)

def inWorkerCell (col : Column) (probe : List ℤ) (c : ℤ) : Bool :=
  let d := col.domain.vocab.length
  let fits := probe.filter (hashKeyInRange col.type)
  if col.type = .sym ∧ probe ≠ [] ∧ 0 < d ∧ d ≤ 2 ^ 22 then (symLut d probe).getD c.toNat false
  else if col.type ≠ .sym ∧ 1 ≤ probe.length ∧ probe.length ≤ 8 ∧ fits ≠ [] then
    if col.nullCell c then false else fits.contains c
  else if col.nullCell c then false else probe.contains c

def scanIn (col set : Column) : List ℕ :=
  (List.range col.len).filter fun r => inWorkerCell col (inProbe col set) (col.cell r)

def scanFind (col : Column) (key : ℤ) : Option ℕ :=
  (List.range col.len).find? fun r => !col.isNull r && col.cell r = key

lemma cmpNullAware_eq {a b : ℤ} (ha : nullI64 ≤ a) (hb : nullI64 ≤ b) (op : CmpOp) :
    cmpNullAware op a b = cmpPlain op a b := by
  simp only [cmpNullAware]
  split_ifs with h
  · cases op <;> simp only [cmpNull, cmpPlain] <;> grind
  · rfl

variable {col set : Column} {key c : ℤ}

lemma nullI64_le_lane (hc : c ∈ col.cells) : nullI64 ≤ lane col c := by
  simp only [lane]
  split_ifs
  · exact le_refl _
  · exact Column.nullI64_le hc

lemma lane_eq_null_iff (hc : c ∈ col.cells) : lane col c = nullI64 ↔ col.nullCell c := by
  simp only [lane]
  split_ifs with h
  · simp [h]
  · refine iff_of_false (fun hn => h ?_) h
    rw [Column.nullCell_iff hc, hn]
    have hin := Column.inRange_of_mem hc
    have hheld := col.held c hc
    cases ht : col.type <;> simp_all [hashKeyInRange, ColType.sentinel?, ColType.holds, nullI64]

lemma scanCell_eq (hkey : nullI64 ≤ key) (hc : c ∈ col.cells) (op : CmpOp) :
    scanCell col op key c = cmpPlain op (lane col c) key := by
  simp only [scanCell]
  split_ifs with hnull hn
  · have hlane := nullI64_le_lane hc
    have hiff := lane_eq_null_iff hc
    rw [hnull, ← cmpNullAware_eq hlane le_rfl, cmpNullAware, if_pos (.inr rfl)]
    simp [hiff]
  · exact cmpNullAware_eq (nullI64_le_lane hc) hkey op
  · rfl

lemma scanRows_eq (hkey : nullI64 ≤ key) (op : CmpOp) :
    scanRows col op key = (List.range col.len).filter fun r => cmpPlain op (lane col (col.cell r)) key := by
  apply List.filter_congr
  intro r hr
  exact scanCell_eq hkey (Column.cell_mem (List.mem_range.mp hr)) op

lemma lane_of_not_hasNulls (h : col.hasNulls = false) (c : ℤ) : lane col c = c := by
  simp [lane, Column.nullCell_of_not_hasNulls h]

lemma scanRows_of_not_hasNulls (h : col.hasNulls = false) (hkey : nullI64 ≤ key) (op : CmpOp) :
    scanRows col op key = (List.range col.len).filter fun r => cmpPlain op (col.cell r) key := by
  rw [scanRows_eq hkey]
  apply List.filter_congr
  intro r _
  rw [lane_of_not_hasNulls h]

lemma markVerdict_length (d : ℕ) (lut : List Bool) (j : ℤ) : (markVerdict d lut j).length = lut.length := by
  simp only [markVerdict]
  split_ifs <;> simp

lemma foldl_markVerdict {d : ℕ} {lut : List Bool} (hlen : lut.length = d) {c : ℤ} (h0 : 0 ≤ c) (hd : c < d) :
    (probe.foldl (markVerdict d) lut).getD c.toNat false = (lut.getD c.toNat false || probe.contains c) := by
  induction probe generalizing lut with
  | nil => simp
  | cons j probe ih =>
    rw [List.foldl_cons, ih (by rw [markVerdict_length, hlen])]
    simp only [markVerdict]
    by_cases hj : j = c
    · subst hj
      have hlt : j.toNat < lut.length := by omega
      rw [if_pos ⟨h0, hd⟩]
      simp [hlt]
    · have hne : ¬ c = j := fun h => hj h.symm
      split_ifs with hr
      · have hidx : j.toNat ≠ c.toNat := by omega
        simp [List.getElem?_set_ne hidx, hne]
      · simp [hne]

lemma symLut_getD {d : ℕ} {c : ℤ} (h0 : 0 ≤ c) (hd : c < d) :
    (symLut d probe).getD c.toNat false = probe.contains c := by
  rw [symLut, foldl_markVerdict (by simp) h0 hd]
  simp

lemma inWorkerCell_eq (hc : c ∈ col.cells) (probe : List ℤ) :
    inWorkerCell col probe c = (!col.nullCell c && probe.contains c) := by
  simp only [inWorkerCell]
  split_ifs with h1 h2 hnull hnull
  · have hheld := col.held c hc
    have hsent : col.nullCell c = false := by simp [Column.nullCell, h1.1, ColType.sentinel?]
    simp only [h1.1, ColType.holds, decide_eq_true_eq] at hheld
    rw [symLut_getD hheld.1 hheld.2, hsent]
    rfl
  · simp [hnull]
  · have hin := Column.inRange_of_mem hc
    have hfits : (probe.filter (hashKeyInRange col.type)).contains c = probe.contains c := by
      rw [Bool.eq_iff_iff]
      simp [hin]
    rw [hfits, Bool.eq_false_of_not_eq_true hnull]
    rfl
  · simp [hnull]
  · simp [hnull]

lemma scanIn_eq (col set : Column) : scanIn col set
      = (List.range col.len).filter fun r => !col.isNull r && (inProbe col set).contains (col.cell r) := by
  apply List.filter_congr
  intro r hr
  exact inWorkerCell_eq (Column.cell_mem (List.mem_range.mp hr)) _

end Rayforce.Index
