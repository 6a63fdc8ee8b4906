import Rayforce.Temporal.Civil
import Rayforce.Lang.Printed

/-! Fields of dates and timestamps in `ops/temporal.c`. -/

namespace Rayforce.Temporal

open Rayforce.Lang (dateToYmd tsToParts Parts ymdToDate)

def wrap64 (n : ℤ) : ℤ := n.bmod (2 ^ 64)

inductive Slot
  | date (raw : ℤ)
  | time (raw : ℤ)
  | timestamp (raw : ℤ)
  deriving DecidableEq, Repr

inductive Field
  | year | month | day | hour | minute | second | dow | doy | epoch
  deriving DecidableEq, Repr

def usecPerSec : ℤ := 1000000
def usecPerMin : ℤ := 60 * 1000000
def usecPerHour : ℤ := 3600 * 1000000
def usecPerDay : ℤ := 86400 * 1000000

def rteToUs : Slot → ℤ
  | .date raw => wrap64 (raw * usecPerDay)
  | .time raw => wrap64 (raw * 1000)
  | .timestamp raw => if 0 ≤ raw then raw.tdiv 1000 else -(wrap64 (wrap64 (-raw) + 999)).tdiv 1000

def daysSince2000 (us : ℤ) : ℤ :=
  let days := us.tdiv usecPerDay
  if us < 0 ∧ us.tmod usecPerDay ≠ 0 then days - 1 else days

def dayUs (us : ℤ) : ℤ :=
  let r := us.tmod usecPerDay
  if r < 0 then r + usecPerDay else r

def daysBeforeMonths : List ℤ := [0, 0, 31, 59, 90, 120, 151, 181, 212, 243, 273, 304, 334]

def rteExtractOne (us : ℤ) (field : Field) : ℤ :=
  let days := daysSince2000 us
  let (y, mo, d) := civilFromDays days
  match field with
  | .epoch => us
  | .hour => (dayUs us).tdiv usecPerHour
  | .minute => ((dayUs us).tmod usecPerHour).tdiv usecPerMin
  | .second => ((dayUs us).tmod usecPerMin).tdiv usecPerSec
  | .year => y
  | .month => mo
  | .day => d
  | .dow => (days.tmod 7 + 7 + 5).tmod 7 + 1
  | .doy =>
    if mo < 1 ∨ 12 < mo then 0
    else
      let leap : Bool := y.tmod 4 = 0 ∧ (y.tmod 100 ≠ 0 ∨ y.tmod 400 = 0)
      let doyJan := daysBeforeMonths.getD mo 0 + d
      if 2 < mo ∧ leap then doyJan + 1 else doyJan

def extractInner (cell : Slot) (field : Field) : ℤ :=
  let us := match cell with
    | .date raw32 => wrap64 (raw32 * usecPerDay)
    | .time raw32 => wrap64 (raw32 * 1000)
    | .timestamp ns => if 0 ≤ ns then ns.tdiv 1000 else -(wrap64 (wrap64 (-ns) + 999)).tdiv 1000
  rteExtractOne us field

section

variable {a k : ℤ}

lemma tdiv_floor (hk : 0 < k) : (if a < 0 ∧ a.tmod k ≠ 0 then a.tdiv k - 1 else a.tdiv k) = a / k := by
  have hdvd : k ∣ a ↔ a.tmod k = 0 := Int.dvd_iff_tmod_eq_zero
  rw [Int.tdiv_eq_ediv, Int.sign_eq_one_of_pos hk]
  split_ifs with h₁ h₂ h₂
  · exact absurd (h₂.resolve_left (by omega)) (fun h => h₁.2 (hdvd.mp h))
  · omega
  · omega
  · exact absurd ⟨by omega, fun h => h₂ (Or.inr (hdvd.mpr h))⟩ h₁

lemma tmod_floor (hk : 0 < k) : (if a.tmod k < 0 then a.tmod k + k else a.tmod k) = a % k := by
  have hlo := Int.emod_nonneg a hk.ne'
  have hhi := Int.emod_lt_of_pos a hk
  rw [Int.tmod_eq_emod]
  split_ifs <;> omega

lemma daysSince2000_eq (us : ℤ) : daysSince2000 us = us / usecPerDay := tdiv_floor (by decide)

lemma dayUs_eq (us : ℤ) : dayUs us = us % usecPerDay := tmod_floor (by decide)

lemma wrap64_eq (h : -2 ^ 63 ≤ a) (h' : a < 2 ^ 63) : wrap64 a = a := by
  apply Int.bmod_eq_of_le <;> norm_num <;> omega

lemma wrap64_mem (a : ℤ) : -2 ^ 63 ≤ wrap64 a ∧ wrap64 a < 2 ^ 63 := by
  have h₁ := Int.le_bmod (x := a) (m := 2 ^ 64) (by norm_num)
  have h₂ := Int.bmod_lt (x := a) (m := 2 ^ 64) (by norm_num)
  rw [wrap64]
  norm_num at h₁ h₂ ⊢
  omega

lemma rteToUs_timestamp {ns : ℤ} (h : -2 ^ 63 + 1000 ≤ ns) (h' : ns < 2 ^ 63) :
    rteToUs (.timestamp ns) = ns / 1000 := by
  simp only [rteToUs]
  split_ifs with hs
  · exact Int.tdiv_eq_ediv_of_nonneg hs
  · rw [wrap64_eq (a := -ns) (by omega) (by omega), wrap64_eq (by omega) (by omega),
      Int.tdiv_eq_ediv_of_nonneg (by omega)]
    omega

end

end Rayforce.Temporal
