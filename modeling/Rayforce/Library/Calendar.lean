import Mathlib

/-! The calendar, with days counted from the first of the year one. -/

namespace Rayforce.Library.Calendar

def isLeap (y : ℕ) : Bool := y % 4 = 0 ∧ (y % 100 ≠ 0 ∨ y % 400 = 0)

def monthLength (y : ℕ) : ℕ → ℕ
  | 2 => if isLeap y then 29 else 28
  | 4 | 6 | 9 | 11 => 30
  | _ => 31

def yearLength (y : ℕ) : ℕ := if isLeap y then 366 else 365

structure Date where
  year : ℕ
  month : ℕ
  day : ℕ
  year_pos : 1 ≤ year
  month_mem : 1 ≤ month ∧ month ≤ 12
  day_mem : 1 ≤ day ∧ day ≤ monthLength year month

def daysBeforeYear (y : ℕ) : ℕ := ∑ k ∈ Finset.range (y - 1), yearLength (k + 1)

def daysBeforeMonth (y m : ℕ) : ℕ := ∑ k ∈ Finset.range (m - 1), monthLength y (k + 1)

def Date.ordinal (d : Date) : ℕ := daysBeforeYear d.year + daysBeforeMonth d.year d.month + (d.day - 1)

lemma daysBeforeYear_succ (n : ℕ) : daysBeforeYear (n + 1) + n / 100 = n * 365 + n / 4 + n / 400 := by
  rw [daysBeforeYear, Nat.add_sub_cancel]
  induction n with
  | zero => rfl
  | succ n ih =>
    rw [Finset.sum_range_succ, yearLength]
    by_cases h : isLeap (n + 1) = true
    · rw [if_pos h]
      simp only [isLeap, decide_eq_true_eq] at h
      omega
    · rw [if_neg h]
      simp only [isLeap, decide_eq_true_eq] at h
      omega

lemma daysBeforeMonth_eq (y m : ℕ) (hm : 1 ≤ m) (hm' : m ≤ 12) : daysBeforeMonth y m =
      (if isLeap y then [0, 31, 60, 91, 121, 152, 182, 213, 244, 274, 305, 335]
        else [0, 31, 59, 90, 120, 151, 181, 212, 243, 273, 304, 334]).getD (m - 1) 0 := by
  interval_cases m <;> cases h : isLeap y <;>
    simp [daysBeforeMonth, Finset.sum_range_succ, monthLength, h]

section

variable {y m : ℕ} {D E : Date}

lemma daysBeforeYear_next (hy : 1 ≤ y) : daysBeforeYear (y + 1) = daysBeforeYear y + yearLength y := by
  obtain ⟨n, rfl⟩ : ∃ n, y = n + 1 := ⟨y - 1, by omega⟩
  exact Finset.sum_range_succ _ n

lemma daysBeforeYear_mono {y' : ℕ} (h : y ≤ y') : daysBeforeYear y ≤ daysBeforeYear y' :=
  Finset.sum_le_sum_of_subset (Finset.range_mono (by omega))

lemma daysBeforeMonth_next (hm : 1 ≤ m) : daysBeforeMonth y (m + 1) = daysBeforeMonth y m + monthLength y m := by
  obtain ⟨n, rfl⟩ : ∃ n, m = n + 1 := ⟨m - 1, by omega⟩
  exact Finset.sum_range_succ _ n

lemma daysBeforeMonth_mono {m' : ℕ} (h : m ≤ m') : daysBeforeMonth y m ≤ daysBeforeMonth y m' :=
  Finset.sum_le_sum_of_subset (Finset.range_mono (by omega))

lemma daysBeforeMonth_thirteen : daysBeforeMonth y 13 = yearLength y := by
  cases h : isLeap y <;> simp [daysBeforeMonth, Finset.sum_range_succ, monthLength, yearLength, h]

def Date.Before (D E : Date) : Prop :=
  D.year < E.year ∨ D.year = E.year ∧ (D.month < E.month ∨ D.month = E.month ∧ D.day < E.day)

lemma Date.ordinal_lt_month (D : Date) :
    D.ordinal < daysBeforeYear D.year + daysBeforeMonth D.year (D.month + 1) := by
  have hd := D.day_mem
  rw [Date.ordinal, daysBeforeMonth_next D.month_mem.1]
  omega

lemma Date.ordinal_lt_year (D : Date) : D.ordinal < daysBeforeYear (D.year + 1) := by
  have hm : daysBeforeMonth D.year (D.month + 1) ≤ daysBeforeMonth D.year 13 :=
    daysBeforeMonth_mono (by have := D.month_mem; omega)
  have h := D.ordinal_lt_month
  rw [daysBeforeMonth_thirteen] at hm
  rw [daysBeforeYear_next D.year_pos]
  omega

lemma Date.month_le_ordinal (E : Date) : daysBeforeYear E.year + daysBeforeMonth E.year E.month ≤ E.ordinal :=
  Nat.le_add_right _ _

lemma Date.ordinal_lt (h : D.Before E) : D.ordinal < E.ordinal := by
  have hE := E.month_le_ordinal
  obtain hy | ⟨hy, hm | ⟨hm, hd⟩⟩ := h
  · have h1 := D.ordinal_lt_year
    have h2 : daysBeforeYear (D.year + 1) ≤ daysBeforeYear E.year := daysBeforeYear_mono hy
    omega
  · have h1 := D.ordinal_lt_month
    have h2 : daysBeforeMonth E.year (D.month + 1) ≤ daysBeforeMonth E.year E.month :=
      daysBeforeMonth_mono hm
    rw [hy] at h1
    omega
  · have h1 := D.day_mem.1
    simp only [Date.ordinal, hy, hm]
    omega

end

end Rayforce.Library.Calendar

namespace Rayforce.Library.Proleptic

open Library.Calendar

def typical (y : ℤ) : ℕ := (y % 400).toNat

structure Civil where
  year : ℤ
  month : ℕ
  day : ℕ
  month_mem : 1 ≤ month ∧ month ≤ 12
  day_mem : 1 ≤ day ∧ day ≤ monthLength (typical year) month

def yearStart (y : ℤ) : ℤ := 365 * (y - 1) + (y - 1) / 4 - (y - 1) / 100 + (y - 1) / 400

namespace Civil

def number (D : Civil) : ℤ := yearStart D.year + daysBeforeMonth (typical D.year) D.month + D.day - 1

def dayOfYear (D : Civil) : ℕ := daysBeforeMonth (typical D.year) D.month + D.day

def weekday (D : Civil) : ℤ := D.number % 7 + 1

def Before (D E : Civil) : Prop :=
  D.year < E.year ∨ D.year = E.year ∧ (D.month < E.month ∨ D.month = E.month ∧ D.day < E.day)

end Civil

section

variable {y y' : ℤ}

lemma isLeap_typical (y : ℤ) : isLeap (typical y) = true ↔ y % 4 = 0 ∧ (y % 100 ≠ 0 ∨ y % 400 = 0) := by
  have hy := Int.toNat_of_nonneg (Int.emod_nonneg y (show (400 : ℤ) ≠ 0 by decide))
  rw [isLeap, decide_eq_true_eq, typical]
  omega

lemma isLeap_typical_natCast (n : ℕ) : isLeap (typical n) = isLeap n := by
  rw [Bool.eq_iff_iff, isLeap_typical]
  simp only [isLeap, decide_eq_true_eq]
  omega

lemma yearStart_succ (y : ℤ) : yearStart (y + 1) = yearStart y + yearLength (typical y) := by
  rw [yearLength, yearStart, yearStart]
  split_ifs with h <;> rw [isLeap_typical] at h <;> push_cast <;> omega

lemma yearStart_add (y : ℤ) (n : ℕ) : yearStart y ≤ yearStart (y + n) := by
  induction n with
  | zero => simp
  | succ n ih =>
    have h := yearStart_succ (y + n)
    rw [Nat.cast_succ, ← add_assoc, h]
    omega

lemma yearStart_mono (h : y ≤ y') : yearStart y ≤ yearStart y' := by
  have h₁ := yearStart_add y (y' - y).toNat
  rwa [Int.toNat_of_nonneg (by omega), add_sub_cancel] at h₁

end

namespace Civil

variable {D E : Civil}

lemma number_lt_month (D : Civil) :
    D.number < yearStart D.year + daysBeforeMonth (typical D.year) (D.month + 1) := by
  have hd := D.day_mem
  rw [number, daysBeforeMonth_next D.month_mem.1]
  omega

lemma number_lt_year (D : Civil) : D.number < yearStart (D.year + 1) := by
  have hm : daysBeforeMonth (typical D.year) (D.month + 1) ≤ daysBeforeMonth (typical D.year) 13 :=
    daysBeforeMonth_mono (by have := D.month_mem; omega)
  have h := D.number_lt_month
  rw [daysBeforeMonth_thirteen] at hm
  rw [yearStart_succ]
  omega

lemma month_le_number (E : Civil) : yearStart E.year + daysBeforeMonth (typical E.year) E.month ≤ E.number := by
  have hd := E.day_mem.1
  rw [number]
  omega

lemma number_lt (h : D.Before E) : D.number < E.number := by
  have hE := E.month_le_number
  obtain hy | ⟨hy, hm | ⟨hm, hd⟩⟩ := h
  · have h₁ := D.number_lt_year
    have h₂ : yearStart (D.year + 1) ≤ yearStart E.year := yearStart_mono hy
    omega
  · have h₁ := D.number_lt_month
    have h₂ : daysBeforeMonth (typical E.year) (D.month + 1) ≤ daysBeforeMonth (typical E.year) E.month :=
      daysBeforeMonth_mono hm
    rw [hy] at h₁
    omega
  · simp only [number, hy, hm]
    omega

lemma before_trichotomy (D E : Civil) : D.Before E ∨ D = E ∨ E.Before D := by
  cases D
  cases E
  simp only [Before, mk.injEq]
  omega

lemma number_injective : Function.Injective number := by
  intro D E h
  obtain hb | he | hb := before_trichotomy D E
  · exact absurd h (number_lt hb).ne
  · exact he
  · exact absurd h (number_lt hb).ne'

lemma one_le_monthLength (y m : ℕ) : 1 ≤ monthLength y m := by
  simp only [monthLength]
  split <;> try split_ifs
  all_goals norm_num

def monthFirst (D : Civil) : Civil := ⟨D.year, D.month, 1, D.month_mem, le_rfl, one_le_monthLength _ _⟩

lemma january_mem : 1 ≤ 1 ∧ 1 ≤ 12 := by decide

def yearFirst (D : Civil) : Civil := ⟨D.year, 1, 1, january_mem, le_rfl, one_le_monthLength _ _⟩

lemma monthFirst_le (D : Civil) : D.monthFirst.number ≤ D.number := by
  have hd := D.day_mem.1
  simp only [number, monthFirst]
  omega

lemma yearFirst_le (D : Civil) : D.yearFirst.number ≤ D.number := by
  have hd := D.day_mem.1
  simp only [number, yearFirst, daysBeforeMonth, Nat.sub_self, Finset.range_zero, Finset.sum_empty]
  omega

lemma le_monthFirst (hE : E.day = 1) (h : E.number ≤ D.number) : E.number ≤ D.monthFirst.number := by
  obtain hb | he | hb := before_trichotomy E D.monthFirst
  · exact (number_lt hb).le
  · rw [he]
  · have hafter : D.Before E := by
      have hd := D.day_mem.1
      simp only [Before, monthFirst] at hb ⊢
      omega
    exact absurd (number_lt hafter) h.not_gt

lemma le_yearFirst (hm : E.month = 1) (hd : E.day = 1) (h : E.number ≤ D.number) :
    E.number ≤ D.yearFirst.number := by
  obtain hb | he | hb := before_trichotomy E D.yearFirst
  · exact (number_lt hb).le
  · rw [he]
  · have hafter : D.Before E := by
      simp only [Before, yearFirst] at hb ⊢
      omega
    exact absurd (number_lt hafter) h.not_gt

end Civil

end Rayforce.Library.Proleptic
