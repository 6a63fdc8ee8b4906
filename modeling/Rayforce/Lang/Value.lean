import Rayforce.Library.Words
import Rayforce.Library.Binary64
import Rayforce.Library.Calendar

/-! What the parser builds. -/

namespace Rayforce.Lang

open Library.Words Library.Binary64

inductive AtomType
  | bool | u8 | i16 | i32 | i64 | f64 | date | time | timestamp | sym | str
deriving DecidableEq

/-- `quoted` tells a literal symbol from the name of a variable. -/
inductive Value
  | bool (v : Bool)
  | u8 (v : UInt8)
  | i16 (v : ℤ)
  | i32 (v : ℤ)
  | i64 (v : ℤ)
  | f64 (v : Double)
  | date (days : ℤ)
  | time (ms : ℤ)
  | timestamp (ns : ℤ)
  | sym (name : Bytes) (quoted : Bool)
  | str (s : Bytes)
  | vec (t : AtomType) (hasNulls : Bool) (items : List Value)
  | list (items : List Value)
  | dict (keys : Value) (vals : List Value)

structure ParseError where
  code : String
  msg : Option String
deriving DecidableEq

namespace Value

def atomType : Value → Option AtomType
  | bool _ => some .bool
  | u8 _ => some .u8
  | i16 _ => some .i16
  | i32 _ => some .i32
  | i64 _ => some .i64
  | f64 _ => some .f64
  | date _ => some .date
  | time _ => some .time
  | timestamp _ => some .timestamp
  | sym _ _ => some .sym
  | str _ => some .str
  | vec _ _ _ | list _ | dict _ _ => none

def isNull : Value → Bool
  | i16 v => v = -2 ^ 15
  | i32 v | date v | time v => v = -2 ^ 31
  | i64 v | timestamp v => v = -2 ^ 63
  | f64 v => v.isNaN
  | _ => false

end Value

open Library.Calendar

def rayDateEpoch : ℤ := 2000

def monthDays : List (List ℤ) :=
  [[0, 31, 59, 90, 120, 151, 181, 212, 243, 273, 304, 334, 365],
   [0, 31, 60, 91, 121, 152, 182, 213, 244, 274, 305, 335, 366]]

def dateLeapYear (year : ℤ) : Bool :=
  (year.tmod 4 = 0 ∧ year.tmod 100 ≠ 0) ∨ year.tmod 400 = 0

def dateYearsByDays (yy : ℤ) : ℤ := yy * 365 + yy.tdiv 4 - yy.tdiv 100 + yy.tdiv 400

def monthDaysAt (leap : Bool) (m : ℤ) : ℤ := (monthDays.getD leap.toNat []).getD m.toNat 0

def ymdToDate (year month day : ℤ) : ℤ :=
  let yy := if 0 < year then year - 1 else 0
  let ydays := dateYearsByDays yy
  let mm := if 0 < month then month - 1 else 0
  let mm := if 12 < mm then 12 else mm
  let mdays := monthDaysAt (dateLeapYear year) mm
  ydays - dateYearsByDays (rayDateEpoch - 1) + mdays + day - 1

section

variable {y m d : ℕ}

def epoch : Date := ⟨2000, 1, 1, by decide, by decide, by decide⟩

lemma dateLeapYear_eq (y : ℕ) : dateLeapYear y = isLeap y := by
  rw [Bool.eq_iff_iff]
  simp only [dateLeapYear, isLeap, decide_eq_true_eq, Int.tmod_eq_emod_of_nonneg (Int.natCast_nonneg y)]
  omega

lemma dateYearsByDays_eq (n : ℕ) : dateYearsByDays n = daysBeforeYear (n + 1) := by
  have h := daysBeforeYear_succ n
  simp only [dateYearsByDays, Int.tdiv_eq_ediv_of_nonneg (Int.natCast_nonneg n)]
  omega

lemma epoch_ordinal : (epoch.ordinal : ℤ) = dateYearsByDays (rayDateEpoch - 1) := by
  have h := dateYearsByDays_eq 1999
  simp only [Date.ordinal, epoch, daysBeforeMonth, Nat.sub_self, Finset.range_zero, Finset.sum_empty,
    add_zero]
  exact h.symm

lemma monthDaysAt_eq (hm : 1 ≤ m) (hm' : m ≤ 12) :
    monthDaysAt (dateLeapYear y) ((m : ℤ) - 1) = daysBeforeMonth y m := by
  rw [daysBeforeMonth_eq y m hm hm', dateLeapYear_eq]
  interval_cases m <;> cases isLeap y <;> rfl

lemma ymdToDate_eq (hy : 1 ≤ y) (hm : 1 ≤ m) (hm' : m ≤ 12) :
    ymdToDate y m d = daysBeforeYear y + daysBeforeMonth y m + d - 1 - epoch.ordinal := by
  obtain ⟨n, rfl⟩ : ∃ n, y = n + 1 := ⟨y - 1, by omega⟩
  have hyy : (if (0 : ℤ) < ((n + 1 : ℕ) : ℤ) then ((n + 1 : ℕ) : ℤ) - 1 else 0) = n := by
    rw [if_pos (by omega)]
    omega
  have hmm : (if (0 : ℤ) < (m : ℤ) then (m : ℤ) - 1 else 0) = m - 1 := if_pos (by omega)
  simp only [ymdToDate, hyy, hmm, if_neg (show ¬(12 : ℤ) < m - 1 by omega), monthDaysAt_eq hm hm',
    dateYearsByDays_eq, epoch_ordinal]
  ring

lemma ymdToDate_iff (hm : 1 ≤ m) (hm' : m ≤ 12) (hd : 1 ≤ d) : (∃ D : Date, D.year = y ∧ D.month = m ∧ D.day = d ∧
      ymdToDate y m d = (D.ordinal : ℤ) - epoch.ordinal) ↔ 1 ≤ y ∧ d ≤ monthLength y m := by
  constructor
  · rintro ⟨D, rfl, rfl, rfl, -⟩
    exact ⟨D.year_pos, D.day_mem.2⟩
  · rintro ⟨hy, hlen⟩
    refine ⟨⟨y, m, d, hy, ⟨hm, hm'⟩, hd, hlen⟩, rfl, rfl, rfl, ?_⟩
    rw [ymdToDate_eq hy hm hm']
    simp only [Date.ordinal]
    omega

end

end Rayforce.Lang
