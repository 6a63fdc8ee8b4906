import Rayforce.Temporal.Extract

namespace Rayforce.Temporal

open Library.Calendar Library.Proleptic
open Rayforce.Lang (dateToYmd tsToParts Parts ymdToDate wrap32 dateYearsByDays rayDateEpoch nsecsInDay)

structure ExtractsDate (get : Field → ℤ) (D : Civil) : Prop where
  year : get .year = D.year
  month : get .month = D.month
  day : get .day = D.day
  dow : get .dow = D.weekday
  doy : get .doy = D.dayOfYear

structure ExtractsClock (get : Field → ℤ) (days seconds : ℤ) : Prop where
  hour : 0 ≤ get .hour ∧ get .hour < 24
  minute : 0 ≤ get .minute ∧ get .minute < 60
  second : 0 ≤ get .second ∧ get .second < 60
  sum : days * 86400 + get .hour * 3600 + get .minute * 60 + get .second = seconds

section

variable {us : ℤ} {D : Civil}

lemma civilFromDays_eq {days : ℤ} (h : D.number = days + epochNumber) :
    civilFromDays days = (D.year, D.month, D.day) := by
  obtain ⟨E, hE, hE'⟩ := civilFromDays_spec days
  rw [hE, Civil.number_injective (hE'.trans h.symm)]

lemma leap_tmod (y : ℤ) : (decide (y.tmod 4 = 0 ∧ (y.tmod 100 ≠ 0 ∨ y.tmod 400 = 0))) = isLeap (typical y) := by
  have h : ∀ k : ℤ, y.tmod k = 0 ↔ y % k = 0 := fun k => by
    rw [← Int.dvd_iff_tmod_eq_zero, Int.dvd_iff_emod_eq_zero]
  rw [Bool.eq_iff_iff, decide_eq_true_eq, isLeap_typical, Ne, h, h, h]

lemma daysBeforeMonths_eq {y m : ℕ} (hm : 1 ≤ m ∧ m ≤ 12) :
    daysBeforeMonths.getD m 0 + (if 2 < m ∧ isLeap y = true then 1 else 0) = (daysBeforeMonth y m : ℤ) := by
  obtain ⟨h₁, h₂⟩ := hm
  rw [daysBeforeMonth_eq y m h₁ h₂]
  interval_cases m <;> cases isLeap y <;> rfl

lemma extractsDate (h : D.number = daysSince2000 us + epochNumber) : ExtractsDate (rteExtractOne us) D := by
  have hc := civilFromDays_eq h
  have hm := D.month_mem
  refine ⟨?_, ?_, ?_, ?_, ?_⟩
  · simp only [rteExtractOne, hc]
  · simp only [rteExtractOne, hc]
  · simp only [rteExtractOne, hc]
  · have hd : daysSince2000 us = D.number - epochNumber := by omega
    have htmod : (daysSince2000 us).tmod 7 = daysSince2000 us % 7 ∨ (daysSince2000 us).tmod 7 =
        daysSince2000 us % 7 - 7 := by
      rw [Int.tmod_eq_emod]
      split_ifs <;> omega
    simp only [rteExtractOne, Civil.weekday]
    rw [Int.tmod_eq_emod_of_nonneg (by omega)]
    rw [hd, epochNumber] at htmod ⊢
    omega
  · have htable := daysBeforeMonths_eq (y := typical D.year) hm
    simp only [rteExtractOne, hc, leap_tmod, if_neg (show ¬(D.month < 1 ∨ 12 < D.month) by omega), Civil.dayOfYear]
    push_cast
    rw [← htable]
    split_ifs <;> ring

lemma extractsClock (us : ℤ) : ExtractsClock (rteExtractOne us) (daysSince2000 us) (us / 1000000) := by
  have hlo := Int.emod_nonneg us (show usecPerDay ≠ 0 by decide)
  have hhi := Int.emod_lt_of_pos us (show 0 < usecPerDay by decide)
  have hday := Int.mul_ediv_add_emod us usecPerDay
  have hh : rteExtractOne us .hour = us % usecPerDay / usecPerHour := by
    simp only [rteExtractOne, dayUs_eq]
    exact Int.tdiv_eq_ediv_of_nonneg hlo
  have hm : rteExtractOne us .minute = us % usecPerDay % usecPerHour / usecPerMin := by
    simp only [rteExtractOne, dayUs_eq]
    rw [Int.tmod_eq_emod_of_nonneg hlo, Int.tdiv_eq_ediv_of_nonneg (Int.emod_nonneg _ (by decide))]
  have hs : rteExtractOne us .second = us % usecPerDay % usecPerMin / usecPerSec := by
    simp only [rteExtractOne, dayUs_eq]
    rw [Int.tmod_eq_emod_of_nonneg hlo, Int.tdiv_eq_ediv_of_nonneg (Int.emod_nonneg _ (by decide))]
  rw [daysSince2000_eq]
  simp only [usecPerDay, usecPerHour, usecPerMin, usecPerSec] at *
  refine ⟨?_, ?_, ?_, ?_⟩
  · rw [hh]
    omega
  · rw [hm]
    omega
  · rw [hs]
    omega
  · rw [hh, hm, hs]
    omega

end

def Agrees (cell : Slot) (printed : ℤ × ℤ × ℤ) (day nanos : ℤ) : Prop :=
  ∃ D : Civil, D.number = day + epochNumber ∧ printed = (D.year, (D.month : ℤ), (D.day : ℤ)) ∧
    (∀ get ∈ [rteExtractOne (rteToUs cell), extractInner cell],
      ExtractsDate get D ∧ ExtractsClock get day (nanos / 1000000000)) ∧
    ymdToDate D.year D.month D.day = day ∧ daysFromCivil D.year D.month D.day = day

def DateAgrees (days : ℤ) : Prop := Agrees (.date days) (dateToYmd days) days (days * nsecsInDay)

def TimestampAgrees (ns : ℤ) : Prop :=
  Agrees (.timestamp ns) (tsToParts ns).date (ns / nsecsInDay) ns ∧
    (0 ≤ (tsToParts ns).hour ∧ (tsToParts ns).hour < 24) ∧
      (0 ≤ (tsToParts ns).minute ∧ (tsToParts ns).minute < 60) ∧
    (0 ≤ (tsToParts ns).second ∧ (tsToParts ns).second < 60) ∧
    (0 ≤ (tsToParts ns).nanos ∧ (tsToParts ns).nanos < 1000000000) ∧
    ns / nsecsInDay * nsecsInDay +
      (((tsToParts ns).hour * 60 + (tsToParts ns).minute) * 60 + (tsToParts ns).second) * 1000000000 +
      (tsToParts ns).nanos = ns

section

variable {days ns day nanos : ℤ} {cell : Slot} {printed : ℤ × ℤ × ℤ}

lemma extractInner_eq (cell : Slot) : extractInner cell = rteExtractOne (rteToUs cell) := by
  funext field
  cases cell <;> rfl

lemma epoch_dateYears : dateYearsByDays (rayDateEpoch - 1) = epochNumber := by decide

lemma ymdToDate_number {D : Civil} (h : 0 ≤ D.number) :
    ymdToDate D.year D.month D.day = D.number - epochNumber := by
  have hyear := Lang.one_le_year h
  obtain ⟨n, hn⟩ := Int.eq_ofNat_of_zero_le (show 0 ≤ D.year - 1 by omega)
  have hy : D.year = ((n + 1 : ℕ) : ℤ) := by omega
  have hstart : (daysBeforeYear (n + 1) : ℤ) = yearStart D.year := by
    rw [← Lang.dateYearsByDays_eq n, Lang.dateYearsByDays_yearStart (Int.natCast_nonneg n), hy]
    rfl
  have hmonth : daysBeforeMonth (n + 1) D.month = daysBeforeMonth (typical D.year) D.month := by
    rw [daysBeforeMonth_eq _ _ D.month_mem.1 D.month_mem.2, daysBeforeMonth_eq _ _ D.month_mem.1 D.month_mem.2, hy,
      isLeap_typical_natCast]
  have h' := @Lang.ymdToDate_eq (n + 1) D.month D.day (by omega) D.month_mem.1 D.month_mem.2
  rw [← hy] at h'
  rw [h', hstart, hmonth, Lang.epoch_ordinal, epoch_dateYears, Civil.number]

lemma agrees_of_days (hday : daysSince2000 (rteToUs cell) = day)
    (hsec : rteToUs cell / 1000000 = nanos / 1000000000)
    (hprint : printed = dateToYmd day) (hlo : -epochNumber ≤ day) (hhi : day ≤ 106751991) :
      Agrees cell printed day nanos := by
  obtain ⟨D, -, hD⟩ := civilFromDays_spec day
  have hnn : 0 ≤ D.number := by omega
  have hymd : dateToYmd day = (D.year, (D.month : ℤ), (D.day : ℤ)) := by
    apply Lang.dateToYmd_eq _ hnn
    · rw [hD, epochNumber]
      omega
    · rw [hD, epoch_dateYears]
  refine ⟨D, hD, hprint.trans hymd, ?_, ?_, ?_⟩
  · have hget : ExtractsDate (rteExtractOne (rteToUs cell)) D ∧
        ExtractsClock (rteExtractOne (rteToUs cell)) day (nanos / 1000000000) := by
      rw [← hsec, ← hday]
      exact ⟨extractsDate (by rw [hday, hD]), extractsClock _⟩
    rw [extractInner_eq]
    simp only [List.mem_cons, List.not_mem_nil, or_false, or_self, forall_eq]
    exact hget
  · rw [ymdToDate_number hnn, hD, add_sub_cancel_right]
  · rw [daysFromCivil_eq, hD, add_sub_cancel_right]

lemma Agrees.day_eq (h : Agrees cell printed day nanos) : daysSince2000 (rteToUs cell) = day := by
  obtain ⟨D, hD, -, hget, -⟩ := h
  obtain ⟨hdate, -⟩ := hget _ List.mem_cons_self
  obtain ⟨E, hE, hE'⟩ := civilFromDays_spec (daysSince2000 (rteToUs cell))
  have he := extractsDate hE'
  have hy : E.year = D.year := he.year.symm.trans hdate.year
  have hm : E.month = D.month := by
    have := he.month.symm.trans hdate.month
    exact_mod_cast this
  have hd : E.day = D.day := by
    have := he.day.symm.trans hdate.day
    exact_mod_cast this
  have hsame : E.number = D.number := by simp only [Civil.number, hy, hm, hd]
  omega

lemma rteToUs_date (h : -106751991 ≤ days) (h' : days ≤ 106751991) : rteToUs (.date days) = days * usecPerDay := by
  apply wrap64_eq <;> rw [usecPerDay] <;> omega

lemma dateAgrees_iff (h : -epochNumber ≤ days) : DateAgrees days ↔ days ≤ 106751991 := by
  constructor
  · intro ha
    have hday := ha.day_eq
    have hmem := wrap64_mem (days * usecPerDay)
    rw [daysSince2000_eq, rteToUs, usecPerDay] at hday
    rw [usecPerDay] at hmem
    omega
  · intro hle
    rw [epochNumber] at h
    have hus := rteToUs_date (by omega) hle
    refine agrees_of_days ?_ ?_ rfl h hle
    · rw [hus, daysSince2000_eq]
      exact Int.mul_ediv_cancel _ (by decide)
    · rw [hus, usecPerDay, nsecsInDay]
      omega

lemma tsToParts_eq (h : -2 ^ 63 < ns) (h' : ns < 2 ^ 63) : tsToParts ns =
      { date := dateToYmd (ns / nsecsInDay), hour := ns % nsecsInDay / 1000000000 / 3600,
        minute := ns % nsecsInDay / 1000000000 % 3600 / 60, second := ns % nsecsInDay / 1000000000 % 3600 % 60,
        nanos := ns % nsecsInDay % 1000000000 } := by
  have hspan : (if ns.tmod nsecsInDay < 0 then ns.tmod nsecsInDay + nsecsInDay else ns.tmod nsecsInDay) =
      ns % nsecsInDay :=
    tmod_floor (by decide)
  have hdays : (if ns.tmod nsecsInDay < 0 then ns.tdiv nsecsInDay - 1 else ns.tdiv nsecsInDay) =
      ns / nsecsInDay := by
    have h₁ := Int.mul_tdiv_add_tmod ns nsecsInDay
    have h₂ := Int.mul_ediv_add_emod ns nsecsInDay
    rw [nsecsInDay] at *
    split_ifs at hspan ⊢ <;> omega
  have hnn := Int.emod_nonneg ns (show nsecsInDay ≠ 0 by decide)
  have hwrap : wrap32 (ns / nsecsInDay) = ns / nsecsInDay := by
    apply Lang.wrap32_eq <;> rw [nsecsInDay] <;> omega
  have hsecs : (ns % nsecsInDay).tdiv 1000000000 = ns % nsecsInDay / 1000000000 := Int.tdiv_eq_ediv_of_nonneg hnn
  have hnn' : 0 ≤ ns % nsecsInDay / 1000000000 := Int.ediv_nonneg hnn (by norm_num)
  simp only [tsToParts, hspan, hdays, hwrap, hsecs, Int.tdiv_eq_ediv_of_nonneg hnn',
    Int.tmod_eq_emod_of_nonneg hnn', Int.tmod_eq_emod_of_nonneg hnn]
  have hnn'' : 0 ≤ ns % nsecsInDay / 1000000000 % 3600 := Int.emod_nonneg _ (by norm_num)
  rw [Int.tdiv_eq_ediv_of_nonneg hnn'', Int.tmod_eq_emod_of_nonneg hnn'']

lemma timestampAgrees_iff (h : -2 ^ 63 < ns) (h' : ns < 2 ^ 63) : TimestampAgrees ns ↔ -2 ^ 63 + 1000 ≤ ns := by
  rw [TimestampAgrees, tsToParts_eq h h']
  constructor
  · rintro ⟨ha, -⟩
    by_contra hlt
    have hday := ha.day_eq
    -- the sum is past the last number, so the microseconds come out positive
    have hw : wrap64 (wrap64 (-ns) + 999) = -ns + 999 - 2 ^ 64 := by
      rw [wrap64_eq (a := -ns) (by omega) (by omega), wrap64, ← Int.sub_bmod_right]
      exact wrap64_eq (by omega) (by omega)
    have hus : rteToUs (.timestamp ns) = (2 ^ 64 - 999 + ns) / 1000 := by
      rw [rteToUs, if_neg (by omega), hw, ← Int.neg_tdiv, Int.tdiv_eq_ediv_of_nonneg (by omega)]
      congr 1
      ring
    rw [hus, daysSince2000_eq, usecPerDay, nsecsInDay] at hday
    omega
  · intro hle
    have hus := rteToUs_timestamp hle h'
    have hday : -epochNumber ≤ ns / nsecsInDay ∧ ns / nsecsInDay ≤ 106751991 := by
      rw [nsecsInDay, epochNumber]
      omega
    refine ⟨agrees_of_days ?_ ?_ rfl hday.1 hday.2, ?_⟩
    · rw [hus, daysSince2000_eq, usecPerDay, nsecsInDay]
      omega
    · rw [hus]
      omega
    · simp only [nsecsInDay]
      omega

/-- All calendars agree exactly when the microseconds do not overflow. -/
theorem calendar_agreement (days ns : ℤ) :
    (-epochNumber ≤ days → days < 2 ^ 31 → (DateAgrees days ↔ days ≤ 106751991)) ∧
      (-2 ^ 63 < ns → ns < 2 ^ 63 → (TimestampAgrees ns ↔ -2 ^ 63 + 1000 ≤ ns)) :=
  ⟨fun h _ => dateAgrees_iff h, fun h h' => timestampAgrees_iff h h'⟩

theorem calendar_agreement_around_epoch : DateAgrees (-1) ∧ TimestampAgrees (-1) :=
  ⟨((calendar_agreement (-1) (-1)).1 (by decide) (by decide)).mpr (by decide),
    ((calendar_agreement (-1) (-1)).2 (by decide) (by decide)).mpr (by decide)⟩

theorem calendar_disagreement : ¬((∀ days, -epochNumber ≤ days → days < 2 ^ 31 → DateAgrees days) ∧
      ∀ ns, -2 ^ 63 < ns → ns < 2 ^ 63 → TimestampAgrees ns) := by
  rintro ⟨h, -⟩
  have hday := Agrees.day_eq (h 106751992 (by decide) (by decide))
  rw [daysSince2000_eq] at hday
  revert hday
  decide

end

end Rayforce.Temporal
