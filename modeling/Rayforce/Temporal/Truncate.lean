import Rayforce.Temporal.Extract

namespace Rayforce.Temporal

open Library.Calendar Library.Proleptic
open Rayforce.Lang (nsecsInDay)

variable {name : String} {bucket : ℤ} {D : Civil}

def temporalTruncFromSym : String → Option Field
  | "date" => some .day
  | "time" => some .second
  | "month" => some .month
  | "hour" => some .hour
  | "year" => some .year
  | _ => none

def floorUs (bucket us : ℤ) : ℤ :=
  let r := us.tmod bucket
  us - r - if r < 0 then bucket else 0

def rayTemporalTruncate (kind : Field) (cell : Slot) : ℤ :=
  let us := rteToUs cell
  let bucket := if kind = .day then usecPerDay else usecPerSec
  wrap64 (wrap64 (floorUs bucket us) * 1000)

def truncUs (field : Field) (us : ℤ) : ℤ :=
  match field with
  | .second => floorUs usecPerSec us
  | .minute => floorUs usecPerMin us
  | .hour => floorUs usecPerHour us
  | .day => floorUs usecPerDay us
  | .month =>
    let (y, mo, _) := civilFromDays (daysSince2000 us)
    daysFromCivil y mo 1 * usecPerDay
  | .year =>
    let (y, _, _) := civilFromDays (daysSince2000 us)
    daysFromCivil y 1 1 * usecPerDay
  | _ => us

def execDateTrunc (field : Field) (cell : Slot) : ℤ :=
  let us := match cell with
    | .date raw32 => wrap64 (raw32 * usecPerDay)
    | .time raw32 => wrap64 (raw32 * 1000)
    | .timestamp ns => if 0 ≤ ns then ns.tdiv 1000 else -(wrap64 (wrap64 (-ns) + 999)).tdiv 1000
  wrap64 (wrap64 (truncUs field us) * 1000)

def Slot.instant : Slot → ℤ
  | .date raw => raw * nsecsInDay
  | .time raw => raw * 1000000
  | .timestamp raw => raw

def Slot.InType : Slot → Prop
  | .date raw | .time raw => -2 ^ 31 < raw ∧ raw < 2 ^ 31
  | .timestamp raw => -2 ^ 63 < raw ∧ raw < 2 ^ 63

def boundaries : Field → Set ℤ
  | .second => {x | 1000000000 ∣ x}
  | .minute => {x | 60000000000 ∣ x}
  | .hour => {x | 3600000000000 ∣ x}
  | .day => {x | nsecsInDay ∣ x}
  | .month => {x | ∃ E : Civil, E.day = 1 ∧ x = (E.number - epochNumber) * nsecsInDay}
  | .year => {x | ∃ E : Civil, (E.month = 1 ∧ E.day = 1) ∧ x = (E.number - epochNumber) * nsecsInDay}
  | _ => {x | 1000 ∣ x}

def IsFloor (field : Field) (i b : ℤ) : Prop := IsGreatest {x | x ∈ boundaries field ∧ x ≤ i} b

section

variable {field : Field} {i j b c : ℤ}

lemma IsFloor.unique (h : IsFloor field i b) (h' : IsFloor field i c) : b = c := IsGreatest.unique h h'

lemma IsFloor.mono (hb : IsFloor field i b) (hc : IsFloor field j c) (h : i ≤ j) : b ≤ c :=
  hc.2 ⟨hb.1.1, hb.1.2.trans h⟩

lemma IsFloor.self (h : IsFloor field i b) : IsFloor field b b := ⟨⟨h.1.1, le_rfl⟩, fun _ hx => hx.2⟩

lemma floorUs_eq (hb : 0 < bucket) (us : ℤ) : floorUs bucket us = us / bucket * bucket := by
  have h := tmod_floor (a := us) hb
  have hdiv := Int.mul_ediv_add_emod us bucket
  simp only [floorUs]
  rw [mul_comm]
  split_ifs at h ⊢ <;> omega

lemma floorUs_greatest (hb : 0 < bucket) (i : ℤ) :
    IsGreatest {x | bucket * 1000 ∣ x ∧ x ≤ i} (floorUs bucket (i / 1000) * 1000) := by
  have hq : i / 1000 / bucket = i / (bucket * 1000) := by
    rw [Int.ediv_ediv_of_nonneg (by norm_num), mul_comm]
  have hpos : 0 < bucket * 1000 := by omega
  rw [floorUs_eq hb, hq, mul_assoc]
  refine ⟨⟨Dvd.intro_left _ rfl, Int.ediv_mul_le _ hpos.ne'⟩, ?_⟩
  rintro x ⟨⟨k, rfl⟩, hx⟩
  rw [mul_comm] at hx ⊢
  exact Int.mul_le_mul_of_nonneg_right ((Int.le_ediv_iff_mul_le hpos).mpr hx) hpos.le

lemma day_of_instant (i : ℤ) : daysSince2000 (i / 1000) = i / nsecsInDay := by
  rw [daysSince2000_eq, usecPerDay, nsecsInDay]
  omega

lemma day_le_iff {n : ℤ} : n * nsecsInDay ≤ i ↔ n ≤ i / nsecsInDay := (Int.le_ediv_iff_mul_le (by decide)).symm

lemma civilFromDays_instant (h : D.number = i / nsecsInDay + epochNumber) :
    civilFromDays (daysSince2000 (i / 1000)) = (D.year, D.month, D.day) := by
  obtain ⟨E, hE, hE'⟩ := civilFromDays_spec (daysSince2000 (i / 1000))
  obtain rfl : E = D := Civil.number_injective (by rw [hE', h, day_of_instant])
  exact hE

lemma truncUs_month (h : D.number = i / nsecsInDay + epochNumber) :
    truncUs .month (i / 1000) * 1000 = (D.monthFirst.number - epochNumber) * nsecsInDay := by
  have hfirst : daysFromCivil D.year D.month 1 = D.monthFirst.number - epochNumber := daysFromCivil_eq D.monthFirst
  rw [truncUs, civilFromDays_instant h]
  simp only [hfirst, usecPerDay, nsecsInDay]
  ring

lemma truncUs_year (h : D.number = i / nsecsInDay + epochNumber) :
    truncUs .year (i / 1000) * 1000 = (D.yearFirst.number - epochNumber) * nsecsInDay := by
  have hfirst : daysFromCivil D.year 1 1 = D.yearFirst.number - epochNumber := daysFromCivil_eq D.yearFirst
  rw [truncUs, civilFromDays_instant h]
  simp only [hfirst, usecPerDay, nsecsInDay]
  ring

lemma truncUs_isFloor (field : Field) (i : ℤ) : IsFloor field i (truncUs field (i / 1000) * 1000) := by
  obtain ⟨D, -, hD⟩ := civilFromDays_spec (i / nsecsInDay)
  have hother : IsGreatest {x | (1000 : ℤ) ∣ x ∧ x ≤ i} (i / 1000 * 1000) := by
    refine ⟨⟨Dvd.intro_left _ rfl, Int.ediv_mul_le _ (by norm_num)⟩, ?_⟩
    rintro x ⟨⟨k, rfl⟩, hx⟩
    omega
  cases field with
  | second => exact floorUs_greatest (by decide) i
  | minute => exact floorUs_greatest (by decide) i
  | hour => exact floorUs_greatest (by decide) i
  | day => exact floorUs_greatest (by decide) i
  | month =>
    rw [truncUs_month hD]
    refine ⟨⟨⟨D.monthFirst, rfl, rfl⟩, day_le_iff.mpr ?_⟩, ?_⟩
    · have := D.monthFirst_le
      omega
    · rintro x ⟨⟨E, hE, rfl⟩, hx⟩
      have hle := Civil.le_monthFirst hE (show E.number ≤ D.number by have := day_le_iff.mp hx; omega)
      exact Int.mul_le_mul_of_nonneg_right (by omega) (by decide)
  | year =>
    rw [truncUs_year hD]
    refine ⟨⟨⟨D.yearFirst, ⟨rfl, rfl⟩, rfl⟩, day_le_iff.mpr ?_⟩, ?_⟩
    · have := D.yearFirst_le
      omega
    · rintro x ⟨⟨E, ⟨hm, hd⟩, rfl⟩, hx⟩
      have hle := Civil.le_yearFirst hm hd (show E.number ≤ D.number by have := day_le_iff.mp hx; omega)
      exact Int.mul_le_mul_of_nonneg_right (by omega) (by decide)
  | dow => exact hother
  | doy => exact hother
  | epoch => exact hother

lemma instant_sub_lt (field : Field) (i : ℤ) : i - truncUs field (i / 1000) * 1000 < 367 * nsecsInDay := by
  have hfloor : ∀ bucket : ℤ, 0 < bucket → bucket ≤ usecPerDay →
      i - floorUs bucket (i / 1000) * 1000 < 367 * nsecsInDay := by
    intro bucket hb hle
    have hlt := Int.emod_lt_of_pos (i / 1000) hb
    have hdiv := Int.mul_ediv_add_emod (i / 1000) bucket
    rw [floorUs_eq hb, mul_comm (i / 1000 / bucket)]
    rw [usecPerDay] at hle
    rw [nsecsInDay]
    omega
  obtain ⟨D, -, hD⟩ := civilFromDays_spec (i / nsecsInDay)
  have hyear : i - (D.yearFirst.number - epochNumber) * nsecsInDay < 367 * nsecsInDay := by
    have h₁ := D.number_lt_year
    have h₂ := yearStart_succ D.year
    have h₃ : yearLength (typical D.year) ≤ 366 := by
      rw [yearLength]
      split_ifs <;> norm_num
    have h₄ : D.yearFirst.number = yearStart D.year := by
      simp only [Civil.number, Civil.yearFirst, daysBeforeMonth, Nat.sub_self, Finset.range_zero, Finset.sum_empty]
      ring
    rw [nsecsInDay] at *
    omega
  cases field with
  | second => exact hfloor _ (by decide) (by decide)
  | minute => exact hfloor _ (by decide) (by decide)
  | hour => exact hfloor _ (by decide) (by decide)
  | day => exact hfloor _ (by decide) (by decide)
  | month =>
    have hle : D.yearFirst.number ≤ D.monthFirst.number := Civil.yearFirst_le D.monthFirst
    rw [truncUs_month hD]
    rw [nsecsInDay] at *
    omega
  | year =>
    rw [truncUs_year hD]
    exact hyear
  | dow | doy | epoch =>
    simp only [truncUs, nsecsInDay]
    omega

end

def InInt64 (n : ℤ) : Prop := -2 ^ 63 ≤ n ∧ n < 2 ^ 63

def Fits (cell : Slot) (b : ℤ) : Prop :=
  InInt64 b ∧ ∀ raw, cell = .timestamp raw → -2 ^ 63 + 1000 ≤ raw

def products (field : Field) (cell : Slot) : List ℤ :=
  let us := cell.instant / 1000
  (match cell with
    | .date raw => raw * usecPerDay
    | .time raw => raw * 1000
    | .timestamp raw => if 0 ≤ raw then raw else -raw + 999) :: [truncUs field us, truncUs field us * 1000]

section

variable {field : Field} {cell : Slot} {b : ℤ}

lemma rteToUs_eq (hc : cell.InType) (hb : IsFloor field cell.instant b) (hfit : Fits cell b) :
    rteToUs cell = cell.instant / 1000 := by
  obtain rfl := hb.unique (truncUs_isFloor field cell.instant)
  have hnear := instant_sub_lt field cell.instant
  have hle := hb.1.2
  obtain ⟨⟨hlo, hhi⟩, hraw⟩ := hfit
  cases cell with
  | date raw =>
    simp only [Slot.instant, nsecsInDay] at *
    rw [rteToUs, wrap64_eq] <;> rw [usecPerDay] <;> omega
  | time raw =>
    obtain ⟨h₁, h₂⟩ := hc
    simp only [Slot.instant]
    rw [rteToUs, wrap64_eq] <;> omega
  | timestamp raw => exact rteToUs_timestamp (hraw raw rfl) hc.2

lemma execDateTrunc_eq (hc : cell.InType) (hb : IsFloor field cell.instant b) (hfit : Fits cell b) :
    execDateTrunc field cell = b := by
  have hexec : execDateTrunc field cell = wrap64 (wrap64 (truncUs field (rteToUs cell)) * 1000) := by
    cases cell <;> rfl
  rw [hexec, rteToUs_eq hc hb hfit]
  obtain rfl := hb.unique (truncUs_isFloor field cell.instant)
  obtain ⟨⟨hlo, hhi⟩, -⟩ := hfit
  rw [wrap64_eq (a := truncUs field (cell.instant / 1000)) (by omega) (by omega), wrap64_eq hlo hhi]

lemma rayTemporalTruncate_eq (hfield : field = .day ∨ field = .second) (hc : cell.InType)
    (hb : IsFloor field cell.instant b) (hfit : Fits cell b) : rayTemporalTruncate field cell = b := by
  have hsame : rayTemporalTruncate field cell = wrap64 (wrap64 (truncUs field (rteToUs cell)) * 1000) := by
    rcases hfield with rfl | rfl <;> rfl
  have hexec : execDateTrunc field cell = wrap64 (wrap64 (truncUs field (rteToUs cell)) * 1000) := by
    cases cell <;> rfl
  rw [hsame, ← hexec, execDateTrunc_eq hc hb hfit]

lemma products_fit (hc : cell.InType) (hb : IsFloor field cell.instant b) (hfit : Fits cell b) :
    ∀ p ∈ products field cell, InInt64 p := by
  obtain rfl := hb.unique (truncUs_isFloor field cell.instant)
  have hnear := instant_sub_lt field cell.instant
  have hle := hb.1.2
  obtain ⟨⟨hlo, hhi⟩, hraw⟩ := hfit
  have hus : InInt64 (truncUs field (cell.instant / 1000)) := ⟨by omega, by omega⟩
  simp only [products, List.mem_cons, List.not_mem_nil, or_false, forall_eq_or_imp, forall_eq]
  refine ⟨?_, hus, hlo, hhi⟩
  cases cell with
  | date raw =>
    simp only [Slot.instant, nsecsInDay, InInt64, usecPerDay] at *
    omega
  | time raw =>
    obtain ⟨h₁, h₂⟩ := hc
    simp only [InInt64]
    omega
  | timestamp raw =>
    have hr := hraw raw rfl
    obtain ⟨h₁, h₂⟩ := hc
    simp only [InInt64]
    split_ifs <;> omega

lemma boundaries_seconds (h : temporalTruncFromSym name = some field) {x : ℤ} (hx : x ∈ boundaries field) :
    1000000000 ∣ x := by
  have hday : (1000000000 : ℤ) ∣ nsecsInDay := by decide
  cases field with
  | second => exact hx
  | hour => exact (show (1000000000 : ℤ) ∣ 3600000000000 by decide).trans hx
  | day => exact hday.trans hx
  | month =>
    obtain ⟨E, -, rfl⟩ := hx
    exact hday.mul_left _
  | year =>
    obtain ⟨E, -, rfl⟩ := hx
    exact hday.mul_left _
  | minute | dow | doy | epoch =>
    unfold temporalTruncFromSym at h
    split at h <;> cases h

lemma Fits.boundary (h : temporalTruncFromSym name = some field) (hb : IsFloor field cell.instant b)
    (hfit : Fits cell b) : (Slot.timestamp b).InType ∧ Fits (.timestamp b) b := by
  obtain ⟨k, rfl⟩ := boundaries_seconds h hb.1.1
  obtain ⟨⟨hlo, hhi⟩, -⟩ := hfit
  refine ⟨⟨by omega, hhi⟩, ⟨hlo, hhi⟩, ?_⟩
  intro raw hraw
  have hb' := Slot.timestamp.inj hraw
  omega

structure Truncates (field : Field) : Prop where
  exists_floor : ∀ cell : Slot, ∃ b, IsFloor field cell.instant b
  floor : ∀ cell b, cell.InType → IsFloor field cell.instant b → Fits cell b → execDateTrunc field cell = b
  eager : field = .day ∨ field = .second → ∀ cell b, cell.InType → IsFloor field cell.instant b → Fits cell b →
    rayTemporalTruncate field cell = execDateTrunc field cell
  idempotent : ∀ cell b, cell.InType → IsFloor field cell.instant b → Fits cell b →
    execDateTrunc field (.timestamp (execDateTrunc field cell)) = execDateTrunc field cell
  monotone : ∀ c₁ b₁ c₂ b₂, c₁.InType → IsFloor field c₁.instant b₁ → Fits c₁ b₁ → c₂.InType →
    IsFloor field c₂.instant b₂ → Fits c₂ b₂ → c₁.instant ≤ c₂.instant →
      execDateTrunc field c₁ ≤ execDateTrunc field c₂
  products : ∀ cell b, cell.InType → IsFloor field cell.instant b → Fits cell b →
    ∀ p ∈ products field cell, InInt64 p

theorem truncates {name : String} (h : temporalTruncFromSym name = some field) : Truncates field where
  exists_floor cell := ⟨_, truncUs_isFloor field cell.instant⟩
  floor _ _ := execDateTrunc_eq
  eager hfield cell b hc hb hfit := by
    rw [rayTemporalTruncate_eq hfield hc hb hfit, execDateTrunc_eq hc hb hfit]
  idempotent cell b hc hb hfit := by
    obtain ⟨hc', hfit'⟩ := hfit.boundary h hb
    rw [execDateTrunc_eq hc hb hfit]
    exact execDateTrunc_eq hc' hb.self hfit'
  monotone c₁ b₁ c₂ b₂ hc₁ hb₁ hf₁ hc₂ hb₂ hf₂ hle := by
    rw [execDateTrunc_eq hc₁ hb₁ hf₁, execDateTrunc_eq hc₂ hb₂ hf₂]
    exact hb₁.mono hb₂ hle
  products _ _ := products_fit

/-- The first of February 2000 at noon, and a date of December 1999. -/
theorem truncates_month : execDateTrunc .month (.timestamp 2721600000000000) = 2678400000000000 ∧
    execDateTrunc .month (.date (-20)) ≤ execDateTrunc .month (.timestamp 2721600000000000) := by
  have hmonth := truncates (show temporalTruncFromSym "month" = some .month from rfl)
  have hnoon := truncUs_isFloor .month 2721600000000000
  have hdate := truncUs_isFloor .month (-20 * nsecsInDay)
  rw [show truncUs .month (2721600000000000 / 1000) * 1000 = 2678400000000000 by decide] at hnoon
  have hfit : Fits (.timestamp 2721600000000000) 2678400000000000 :=
    ⟨by constructor <;> decide, by rintro raw ⟨⟩; decide⟩
  have htype : (Slot.timestamp 2721600000000000).InType := by constructor <;> decide
  refine ⟨hmonth.floor _ _ htype hnoon hfit, ?_⟩
  exact hmonth.monotone _ _ _ _ (by constructor <;> decide) hdate ⟨by constructor <;> decide, by rintro raw ⟨⟩⟩
    htype hnoon hfit (by decide)

/-- The first of February 2000 at noon. -/
theorem truncations_differ : ¬∀ name field cell, temporalTruncFromSym name = some field → cell.InType →
      rayTemporalTruncate field cell = execDateTrunc field cell := by
  intro h
  have h' := h "month" .month (.timestamp 2721600000000000) rfl (by constructor <;> decide)
  revert h'
  decide

end

end Rayforce.Temporal
