import Rayforce.Library.Calendar

/-! Days from the first of 2000 and civil dates, in `ops/temporal.c`. -/

namespace Rayforce.Temporal

open Library.Calendar Library.Proleptic

variable {doy : ℕ}

def civilFromDays (days : ℤ) : ℤ × ℕ × ℕ :=
  let z := days + 10957 + 719468
  let era := (if 0 ≤ z then z else z - 146096).tdiv 146097
  let doe := (z - era * 146097).toNat
  let yoe := (doe - doe / 1460 + doe / 36524 - doe / 146096) / 365
  let y := yoe + era * 400
  let doyMar := doe - (365 * yoe + yoe / 4 - yoe / 100)
  let mp := (5 * doyMar + 2) / 153
  let d := doyMar - (153 * mp + 2) / 5 + 1
  let mo := if mp < 10 then mp + 3 else mp - 9
  (y + (if mo ≤ 2 then 1 else 0), mo, d)

def daysFromCivil (y : ℤ) (m d : ℕ) : ℤ :=
  let y := y - if m ≤ 2 then 1 else 0
  let era := (if 0 ≤ y then y else y - 399).tdiv 400
  let yoe := (y - era * 400).toNat
  let doy := (153 * (if 2 < m then m - 3 else m + 9) + 2) / 5 + d - 1
  let doe := yoe * 365 + yoe / 4 - yoe / 100 + doy
  era * 146097 + doe - 719468 - 10957

def epochNumber : ℤ := 730119

structure EraDay where
  century : ℕ
  quad : ℕ
  year : ℕ
  day : ℕ
  century_le : century ≤ 3
  quad_le : quad ≤ 24
  year_le : year ≤ 3
  day_le : day ≤ 365
  last : day = 365 → year = 3 ∧ (quad = 24 → century = 3)

def EraDay.number (c : EraDay) : ℕ := 36524 * c.century + 1461 * c.quad + 365 * c.year + c.day

def EraDay.yoe (c : EraDay) : ℕ := 100 * c.century + 4 * c.quad + c.year

lemma exists_eraDay {doe : ℕ} (h : doe ≤ 146096) : ∃ c : EraDay, c.number = doe := by
  obtain ⟨c, r, hc, hr, hr', rfl⟩ : ∃ c r, c ≤ 3 ∧ r ≤ 36524 ∧ (r = 36524 → c = 3) ∧ doe = 36524 * c + r := by
    by_cases hlast : doe = 146096
    · exact ⟨3, 36524, by omega, by omega, by omega, by omega⟩
    · exact ⟨doe / 36524, doe % 36524, by omega, by omega, by omega, by omega⟩
  obtain ⟨q, s, hq, hs, hs', rfl⟩ : ∃ q s, q ≤ 24 ∧ s ≤ 1460 ∧ (s = 1460 → q = 24 → c = 3) ∧ r = 1461 * q + s :=
    ⟨r / 1461, r % 1461, by omega, by omega, by omega, by omega⟩
  obtain ⟨j, t, hj, ht, ht', rfl⟩ : ∃ j t, j ≤ 3 ∧ t ≤ 365 ∧ (t = 365 → j = 3) ∧ s = 365 * j + t := by
    by_cases hlast : s = 1460
    · exact ⟨3, 365, by omega, by omega, by omega, by omega⟩
    · exact ⟨s / 365, s % 365, by omega, by omega, by omega, by omega⟩
  refine ⟨⟨c, q, j, t, hc, hq, hj, ht, ?_⟩, ?_⟩
  · intro h365
    exact ⟨ht' h365, hs' (by have := ht' h365; omega)⟩
  · simp only [EraDay.number]
    omega

lemma EraDay.yoe_eq (c : EraDay) :
    (c.number - c.number / 1460 + c.number / 36524 - c.number / 146096) / 365 = c.yoe := by
  obtain ⟨k, q, j, t, hc, hq, hj, ht, hl⟩ := c
  simp only [number, yoe]
  by_cases hlast : k = 3 ∧ q = 24 ∧ t = 365
  · obtain ⟨rfl, rfl, rfl⟩ := hlast
    obtain rfl := (hl rfl).1
    norm_num
  · have hr : 1461 * q + 365 * j + t ≤ 36523 := by omega
    obtain ⟨n, hn⟩ : ∃ n, n = 36524 * k + 1461 * q + 365 * j + t := ⟨_, rfl⟩
    rw [← hn]
    have h₁ : n / 36524 = k := by omega
    have h₂ : n / 146096 = 0 := by omega
    -- the days the quotient by 1460 counts too many: one in the last day of a quad at most
    obtain ⟨m, hm⟩ : ∃ m, m = 24 * k + q + 365 * j + t := ⟨_, rfl⟩
    have hm' : m < 2920 := by omega
    have h₃ : n / 1460 = 25 * k + q + m / 1460 := by omega
    have h₄ : m / 1460 ≤ t := by omega
    have h₅ : t ≤ 364 + m / 1460 := by omega
    rw [h₁, h₂, h₃]
    omega

lemma EraDay.day_eq (c : EraDay) : c.number - (365 * c.yoe + c.yoe / 4 - c.yoe / 100) = c.day := by
  obtain ⟨k, q, j, t, hc, hq, hj, ht, hl⟩ := c
  simp only [number, yoe]
  omega

lemma EraDay.leap_of_last (c : EraDay) (era : ℤ) (h : c.day = 365) :
    isLeap (typical (c.yoe + era * 400 + 1)) = true := by
  obtain ⟨hy, hq⟩ := c.last h
  have hc := c.century_le
  have hq' := c.quad_le
  rw [isLeap_typical, yoe]
  omega

lemma EraDay.yearStart_eq (c : EraDay) (era : ℤ) :
    yearStart (c.yoe + era * 400 + 1) = 146097 * era + 36524 * c.century + 1461 * c.quad + 365 * c.year := by
  have h₁ := c.century_le
  have h₂ := c.quad_le
  have h₃ := c.year_le
  rw [yearStart, yoe]
  omega

lemma floor_tdiv (z k : ℤ) (hk : 0 < k) : (if 0 ≤ z then z else z - (k - 1)).tdiv k = z / k := by
  split_ifs with h
  · exact Int.tdiv_eq_ediv_of_nonneg h
  · have hneg : (z - (k - 1)).tdiv k = -((k - 1 - z) / k) := by
      rw [← Int.neg_sub, Int.neg_tdiv, Int.tdiv_eq_ediv_of_nonneg (by omega)]
    have hlo := Int.mul_ediv_self_le (x := k - 1 - z) hk.ne'
    have hhi := Int.lt_mul_ediv_self_add (x := k - 1 - z) hk
    rw [hneg]
    symm
    rw [Int.ediv_eq_iff_of_pos hk]
    constructor <;> linarith

lemma number_march (D : Civil) : D.number = yearStart (D.year - (if D.month ≤ 2 then 1 else 0) + 1) - 306 +
      ((153 * (if 2 < D.month then D.month - 3 else D.month + 9) + 2) / 5 : ℕ) + D.day - 1 := by
  obtain ⟨y, m, d, ⟨hm, hm'⟩, hd⟩ := D
  have hnext := yearStart_succ y
  rw [Civil.number, daysBeforeMonth_eq _ _ hm hm']
  simp only [yearLength] at hnext ⊢
  split_ifs at hnext ⊢ with h₁ h₂ h₃ <;> interval_cases m <;> simp at * <;> omega

lemma daysFromCivil_eq (D : Civil) : daysFromCivil D.year D.month D.day = D.number - epochNumber := by
  have hera := floor_tdiv (D.year - if D.month ≤ 2 then 1 else 0) 400 (by norm_num)
  have hd := D.day_mem.1
  rw [number_march, epochNumber]
  simp only [daysFromCivil, yearStart]
  norm_num only at hera
  rw [hera]
  generalize D.year - (if D.month ≤ 2 then 1 else 0) = y
  generalize (153 * (if 2 < D.month then D.month - 3 else D.month + 9) + 2) / 5 = doy
  have hyoe := Int.toNat_of_nonneg (Int.emod_nonneg y (show (400 : ℤ) ≠ 0 by decide))
  have hrem : y - y / 400 * 400 = y % 400 := by omega
  rw [hrem]
  omega

lemma march_spec (h : doy ≤ 365) : let mp := (5 * doy + 2) / 153
    let mo := if mp < 10 then mp + 3 else mp - 9
    (1 ≤ mo ∧ mo ≤ 12) ∧ (if 2 < mo then mo - 3 else mo + 9) = mp ∧ (mo ≤ 2 ↔ 10 ≤ mp) ∧
      (153 * mp + 2) / 5 ≤ doy := by
  intro mp mo
  have hmp : mp ≤ 11 := by omega
  simp only [mo]
  split_ifs <;> refine ⟨⟨?_, ?_⟩, ?_, ?_, ?_⟩ <;> omega

lemma march_day_le {y : ℤ} (h : doy ≤ 365) (hlast : doy = 365 → isLeap (typical (y + 1)) = true) : let mp :=
    (5 * doy + 2) / 153
    let mo := if mp < 10 then mp + 3 else mp - 9
    doy - (153 * mp + 2) / 5 + 1 ≤ monthLength (typical (y + if mo ≤ 2 then 1 else 0)) mo := by
  intro mp
  have hmp : mp ≤ 11 := by omega
  have hlo : 153 * mp ≤ 5 * doy + 2 := by omega
  have hhi : 5 * doy + 2 < 153 * mp + 153 := by omega
  clear_value mp
  interval_cases mp <;> simp only [monthLength, Nat.reduceLT, Nat.reduceLeDiff, Nat.reduceAdd, Nat.reduceSub,
    if_true, if_false]
  case «11» =>
    split_ifs with hleap
    · omega
    · have hne : doy ≠ 365 := fun h => hleap (hlast h)
      omega
  all_goals omega

lemma civilFromDays_spec (days : ℤ) :
    ∃ D : Civil, civilFromDays days = (D.year, D.month, D.day) ∧ D.number = days + epochNumber := by
  have hera := floor_tdiv (days + 10957 + 719468) 146097 (by norm_num)
  norm_num only at hera
  obtain ⟨c, hc⟩ := exists_eraDay (show ((days + 10957 + 719468) % 146097).toNat ≤ 146096 by omega)
  have hdoe : (days + 10957 + 719468 - (days + 10957 + 719468) / 146097 * 146097).toNat = c.number := by
    rw [hc]
    congr 1
    omega
  have hday := c.day_le
  obtain ⟨hmo, hmp, htwo, hle⟩ := march_spec hday
  have hlen := march_day_le hday (c.leap_of_last ((days + 10957 + 719468) / 146097))
  simp only [civilFromDays]
  rw [hera, hdoe, c.yoe_eq, c.day_eq]
  refine ⟨⟨_, _, _, hmo, ⟨Nat.le_add_left 1 _, hlen⟩⟩, rfl, ?_⟩
  rw [number_march, epochNumber]
  simp only [hmp, add_sub_cancel_right]
  have hn : (c.number : ℤ) = (days + 10957 + 719468) % 146097 := by
    rw [hc, Int.toNat_of_nonneg (by omega)]
  have hstart := c.yearStart_eq ((days + 10957 + 719468) / 146097)
  rw [EraDay.number] at hn
  clear hlen htwo hmp hmo hdoe hera hc
  omega

end Rayforce.Temporal
