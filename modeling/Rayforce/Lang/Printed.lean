import Rayforce.Lang.Token

/-! `lang/cal.h` and `lang/format.c`: dates and timestamps for printing. -/

namespace Rayforce.Lang

open Library.Calendar Library.Proleptic Library.Binary64

variable {D : Civil}

def wrap32 (n : ℤ) : ℤ := n.bmod (2 ^ 32)

def meanYear : Double := Double.round (3652425 / 10000)

def half : Double := .fin (1 / 2)

def monthIndex (leap : Bool) (rem : ℤ) : ℕ → ℕ
  | 0 => 0
  | mid + 1 =>
    if monthDaysAt leap (mid + 1) ≠ 0 ∧ rem.tdiv (monthDaysAt leap (mid + 1)) ≠ 0 then mid + 1
    else monthIndex leap rem mid

def dateToYmd (days : ℤ) : ℤ × ℤ × ℤ :=
  let offset := wrap32 (days + dateYearsByDays (rayDateEpoch - 1))
  let approx := (Double.ofInt offset).div meanYear
  let years := (if Double.zero.le approx then approx.add half else approx.sub half).trunc.getD 0
  let years := if offset < wrap32 (dateYearsByDays years) then years - 1 else years
  let rem := offset - wrap32 (dateYearsByDays years)
  let yy := years + 1
  let leap := dateLeapYear yy
  let mid := monthIndex leap rem 12
  let mid := if mid = 12 then 0 else mid
  (yy, 1 + mid % 12, 1 + rem - monthDaysAt leap mid)

structure Parts where
  date : ℤ × ℤ × ℤ
  hour : ℤ
  minute : ℤ
  second : ℤ
  nanos : ℤ
  deriving DecidableEq

def tsToParts (ns : ℤ) : Parts :=
  let days := ns.tdiv nsecsInDay
  let span := ns.tmod nsecsInDay
  let days' := if span < 0 then days - 1 else days
  let span := if span < 0 then span + nsecsInDay else span
  let secs := span.tdiv 1000000000
  { date := dateToYmd (wrap32 days'), hour := secs.tdiv 3600, minute := (secs.tmod 3600).tdiv 60,
    second := (secs.tmod 3600).tmod 60, nanos := span.tmod 1000000000 }

lemma wrap32_eq {n : ℤ} (h : -2 ^ 31 ≤ n) (h' : n < 2 ^ 31) : wrap32 n = n := by
  apply Int.bmod_eq_of_le <;> norm_num <;> omega

lemma meanYear_eq : ∃ c : ℚ, meanYear = .fin c ∧ |c - 3652425 / 10000| ≤ 2 ^ (-45 : ℤ) := by
  have hlt : |(3652425 / 10000 : ℚ)| < 2 ^ (9 : ℤ) := by norm_num [abs_of_pos]
  refine ⟨_, Double.round_of_abs_lt (by norm_num) (by norm_num) hlt, ?_⟩
  exact abs_nearest_sub_le (by norm_num) hlt

lemma estimate_eq {o : ℤ} (h : 0 ≤ o) (h' : o < 2 ^ 30) :
    ∃ a : ℚ, (Double.ofInt o).div meanYear = .fin a ∧ 0 ≤ a ∧ |a - o * 10000 / 3652425| ≤ 1 / 1000 := by
  obtain ⟨c, hc, hc'⟩ := meanYear_eq
  have hbound : (2 : ℚ) ^ (-45 : ℤ) ≤ 1 / 10 ^ 12 := by norm_num
  obtain ⟨hlo, hhi⟩ := abs_le.mp (hc'.trans hbound)
  have hpos : 0 < c := by linarith
  have ho : (0 : ℚ) ≤ o := by exact_mod_cast h
  have ho' : (o : ℚ) ≤ 2 ^ 30 := by exact_mod_cast h'.le
  have hq : (0 : ℚ) ≤ o / c := by positivity
  have hclose : |o / c - o * 10000 / 3652425| ≤ 1 / 2000 := by
    have hd : (o : ℚ) / c - o * 10000 / 3652425 = o * (3652425 / 10000 - c) / (c * (3652425 / 10000)) := by
      field_simp
    rw [hd, abs_div, abs_mul, abs_of_nonneg ho, abs_of_pos (show 0 < c * (3652425 / 10000) by positivity),
      div_le_iff₀ (by positivity)]
    have habs : |3652425 / 10000 - c| ≤ 1 / 10 ^ 12 := by
      rw [abs_le]
      constructor <;> linarith
    calc (o : ℚ) * |3652425 / 10000 - c| ≤ 2 ^ 30 * (1 / 10 ^ 12) := by gcongr
      _ ≤ 1 / 2000 * (c * (3652425 / 10000)) := by nlinarith
  have hlt : |(o : ℚ) / c| < 2 ^ (23 : ℤ) := by
    rw [abs_of_nonneg hq, div_lt_iff₀ hpos]
    have : (2 : ℚ) ^ 30 < 2 ^ (23 : ℤ) * c := by
      norm_num
      linarith
    linarith
  refine ⟨nearest (o / c), ?_, nearest_nonneg hq, ?_⟩
  · rw [hc, Double.ofInt_of_abs_lt (by rw [abs_of_nonneg h]; omega), Double.div, if_pos hpos.ne']
    exact Double.round_of_abs_lt (by norm_num) (by norm_num) hlt
  · have hmove := abs_nearest_sub_le (by norm_num) hlt
    have hsmall : (2 : ℚ) ^ (23 - 54 : ℤ) ≤ 1 / 2000 := by norm_num
    calc |nearest (o / c) - o * 10000 / 3652425|
        ≤ |nearest (o / c) - o / c| + |o / c - o * 10000 / 3652425| := abs_sub_le _ _ _
      _ ≤ 1 / 1000 := by linarith

lemma dateYearsByDays_yearStart {n : ℤ} (h : 0 ≤ n) : dateYearsByDays n = yearStart (n + 1) := by
  simp only [dateYearsByDays, yearStart, Int.tdiv_eq_ediv_of_nonneg h, add_sub_cancel_right]
  ring

lemma years_eq {o y : ℤ} (h : 0 ≤ o) (h' : o < 2 ^ 30) (hy : yearStart (y + 1) ≤ o) (hy' : o < yearStart (y + 2)) :
    let approx := (Double.ofInt o).div meanYear
    let years := (if Double.zero.le approx then approx.add half else approx.sub half).trunc.getD 0
    years = y ∨ years = y + 1 := by
  obtain ⟨a, ha, hpos, hclose⟩ := estimate_eq h h'
  obtain ⟨hlo, hhi⟩ := abs_le.mp hclose
  have ho' : (o : ℚ) < 2 ^ 30 := by exact_mod_cast h'
  have hlt : |a + 1 / 2| < 2 ^ (23 : ℤ) := by
    rw [abs_of_nonneg (by linarith)]
    norm_num
    linarith
  obtain ⟨hlo', hhi'⟩ := abs_le.mp (abs_nearest_sub_le (by norm_num) hlt)
  have hsmall : (2 : ℚ) ^ (23 - 54 : ℤ) ≤ 1 / 1000 := by norm_num
  have hsum : (Double.fin a).add half = .fin (nearest (a + 1 / 2)) :=
    Double.round_of_abs_lt (by norm_num) (by norm_num) hlt
  have hnn : 0 ≤ nearest (a + 1 / 2) := nearest_nonneg (by linarith)
  -- four centuries have 146097 days, and no year starts more than two days off the mean
  have h₁ : 146097 * y - 699 ≤ 400 * o := by
    rw [yearStart] at hy
    omega
  have h₂ : 400 * o ≤ 146097 * (y + 1) := by
    rw [yearStart] at hy'
    omega
  have h₁' : 146097 * (y : ℚ) - 699 ≤ 400 * o := by exact_mod_cast h₁
  have h₂' : 400 * (o : ℚ) ≤ 146097 * (y + 1) := by exact_mod_cast h₂
  intro approx years
  have hyears : years = ⌊nearest (a + 1 / 2)⌋ := by
    simp only [years, approx, ha, Double.zero, Double.le_fin, hpos, decide_true, if_true, hsum, Double.trunc,
      if_neg hnn.not_gt, Option.getD_some]
  have hfloor : y ≤ ⌊nearest (a + 1 / 2)⌋ := by
    apply Int.le_floor.mpr
    linarith
  have hfloor' : ⌊nearest (a + 1 / 2)⌋ < y + 2 := by
    apply Int.floor_lt.mpr
    push_cast
    linarith
  rw [hyears]
  omega

section

variable {leap : Bool} {rem : ℤ} {n : ℕ}

lemma monthIndex_spec (hrem : 0 ≤ rem) (n : ℕ) :
    monthIndex leap rem n ≤ n ∧ (monthIndex leap rem n ≠ 0 → monthDaysAt leap (monthIndex leap rem n) ≤ rem) ∧
      ∀ j, monthIndex leap rem n < j → j ≤ n → 0 < monthDaysAt leap j → rem < monthDaysAt leap j := by
  induction n with
  | zero => exact ⟨le_rfl, fun h => absurd rfl h, fun j h h' => by simp [monthIndex] at h; omega⟩
  | succ n ih =>
    obtain ⟨h₁, h₂, h₃⟩ := ih
    rw [monthIndex]
    split_ifs with hstop
    · refine ⟨le_rfl, fun _ => ?_, fun j h h' => by omega⟩
      by_contra hlt
      exact hstop.2 (Int.tdiv_eq_zero_of_lt hrem (by push_cast at hlt; omega))
    · refine ⟨by omega, h₂, fun j h h' hpos => ?_⟩
      rcases Nat.lt_or_ge n j with hj | hj
      · obtain rfl : j = n + 1 := by omega
        push_cast at hpos ⊢
        by_contra hle
        apply hstop
        refine ⟨hpos.ne', ?_⟩
        rw [Int.tdiv_eq_ediv_of_nonneg hrem]
        have := (Int.le_ediv_iff_mul_le hpos).mpr (show 1 * monthDaysAt leap (n + 1) ≤ rem by omega)
        omega
      · exact h₃ j h hj hpos

lemma monthDaysAt_natCast {y : ℕ} {j : ℕ} (hj : j ≤ 12) :
    monthDaysAt (isLeap y) j = daysBeforeMonth y (j + 1) := by
  rcases Nat.lt_or_ge j 12 with h | h
  · have hm := monthDaysAt_eq (y := y) (show 1 ≤ j + 1 by omega) (show j + 1 ≤ 12 by omega)
    rw [dateLeapYear_eq] at hm
    rw [← hm]
    congr 1
    push_cast
    ring
  · obtain rfl : j = 12 := by omega
    rw [daysBeforeMonth_thirteen, yearLength]
    cases isLeap y <;> rfl

lemma monthIndex_eq {y m d : ℕ} (hm : 1 ≤ m ∧ m ≤ 12) (hd : 1 ≤ d ∧ d ≤ monthLength y m) :
    monthIndex (isLeap y) (daysBeforeMonth y m + d - 1) 12 = m - 1 := by
  obtain ⟨h₁, h₂, h₃⟩ := @monthIndex_spec (isLeap y) (daysBeforeMonth y m + d - 1) (by omega) 12
  generalize monthIndex (isLeap y) (daysBeforeMonth y m + d - 1) 12 = k at h₁ h₂ h₃
  have hnext := daysBeforeMonth_next (y := y) hm.1
  rcases lt_trichotomy k (m - 1) with hk | hk | hk
  · have hat := monthDaysAt_natCast (y := y) (show m - 1 ≤ 12 by omega)
    rw [Nat.sub_add_cancel hm.1] at hat
    have hpos : 0 < daysBeforeMonth y m := by
      have hmono := daysBeforeMonth_mono (y := y) (show 2 ≤ m by omega)
      have htwo : daysBeforeMonth y 2 = 31 := by simp [daysBeforeMonth, monthLength]
      omega
    have hlt := h₃ (m - 1) hk (by omega) (by rw [hat]; omega)
    rw [hat] at hlt
    omega
  · exact hk
  · have hat := monthDaysAt_natCast (y := y) h₁
    have hle := h₂ (by omega)
    have hmono := daysBeforeMonth_mono (y := y) (show m + 1 ≤ k + 1 by omega)
    rw [hat] at hle
    omega

lemma dateLeapYear_typical {y : ℤ} (h : 0 ≤ y) : dateLeapYear y = isLeap (typical y) := by
  obtain ⟨n, rfl⟩ := Int.eq_ofNat_of_zero_le h
  rw [isLeap_typical_natCast]
  exact dateLeapYear_eq n

lemma one_le_year (h : 0 ≤ D.number) : 1 ≤ D.year := by
  by_contra hlt
  have h₁ := D.number_lt_year
  have h₂ := yearStart_mono (show D.year + 1 ≤ 1 by omega)
  have h₃ : yearStart 1 = 0 := rfl
  omega

lemma dateToYmd_eq {days : ℤ} (h : D.number = days + dateYearsByDays (rayDateEpoch - 1)) (hlo : 0 ≤ D.number)
    (hhi : D.number < 2 ^ 30) : dateToYmd days = (D.year, (D.month : ℤ), (D.day : ℤ)) := by
  have hyear := one_le_year hlo
  have hstart := D.month_le_number
  have hend := D.number_lt_year
  have hm := D.month_mem
  have hd := D.day_mem
  have hlt := yearStart_mono (show 1 ≤ D.year from hyear)
  have hone : yearStart 1 = 0 := rfl
  have hest := years_eq (y := D.year - 1) hlo hhi (by rw [sub_add_cancel]; omega)
    (by rw [show D.year - 1 + 2 = D.year + 1 by ring]; exact hend)
  have hby : dateYearsByDays (D.year - 1) = yearStart D.year := by
    rw [dateYearsByDays_yearStart (by omega), sub_add_cancel]
  have hby' : dateYearsByDays D.year = yearStart (D.year + 1) := dateYearsByDays_yearStart (by omega)
  have hnext := yearStart_succ D.year
  have hlen : yearLength (typical D.year) ≤ 366 := by
    rw [yearLength]
    split_ifs <;> norm_num
  have hw : wrap32 D.number = D.number := wrap32_eq (by omega) (by omega)
  have hw₁ : wrap32 (yearStart D.year) = yearStart D.year := wrap32_eq (by omega) (by omega)
  have hw₂ : wrap32 (yearStart (D.year + 1)) = yearStart (D.year + 1) := wrap32_eq (by omega) (by omega)
  have hyears : ∀ years, (years = D.year - 1 ∨ years = D.year - 1 + 1) →
      (if D.number < wrap32 (dateYearsByDays years) then years - 1 else years) = D.year - 1 := by
    rintro years (rfl | rfl)
    · rw [hby, hw₁, if_neg (by omega)]
    · rw [sub_add_cancel, hby', hw₂, if_pos hend]
  have hrem : D.number - yearStart D.year = (daysBeforeMonth (typical D.year) D.month : ℤ) + D.day - 1 := by
    rw [Civil.number]
    ring
  have hindex := monthIndex_eq hm hd
  have hat := monthDaysAt_natCast (y := typical D.year) (show D.month - 1 ≤ 12 by omega)
  rw [Nat.sub_add_cancel hm.1] at hat
  simp only [dateToYmd, ← h, hw, hyears _ hest, hby, hw₁, sub_add_cancel,
    dateLeapYear_typical (by omega : 0 ≤ D.year), hrem,
    hindex, if_neg (show D.month - 1 ≠ 12 by omega), hat, Prod.mk.injEq, true_and]
  omega

end

end Rayforce.Lang
