import Rayforce.Lang.Descent

namespace Rayforce.Lang

open Library.Words Library.Binary64 Library.Reading Library.Calendar List

variable {y m d : ℕ} {t : ℕ × ℕ × ℕ × ℕ} {readF64 : Bytes → Option Double}
variable {r : Text}

def DenotesDate (y m d : ℕ) (days : ℤ) : Prop :=
  ∃ D : Date, D.year = y ∧ D.month = m ∧ D.day = d ∧ days = (D.ordinal : ℤ) - epoch.ordinal

def Fits64 (n : ℤ) : Prop := -2 ^ 63 ≤ n ∧ n < 2 ^ 63

def DenotesMoment (y m d : ℕ) (t : ℕ × ℕ × ℕ × ℕ) (ns : ℤ) : Prop :=
  ∃ days, DenotesDate y m d days ∧ Fits64 (days * nsecsInDay) ∧ Fits64 (timeNs t) ∧
    Fits64 (days * nsecsInDay + timeNs t) ∧ ns = days * nsecsInDay + timeNs t

def InCalendar (y m d : ℕ) : Prop := 1 ≤ y ∧ d ≤ monthLength y m

def NotAfterLast (y m d : ℕ) (t : ℕ × ℕ × ℕ × ℕ) : Prop :=
  y < 2292 ∨ y = 2292 ∧ (m < 4 ∨ m = 4 ∧ (d < 10 ∨ d = 10 ∧ timeNs t ≤ 85636854775807))

def lastDay : Date := ⟨2292, 4, 10, by decide, by decide, by decide⟩

lemma lastDay_ordinal : (lastDay.ordinal : ℤ) - epoch.ordinal = 106751 := by
  obtain ⟨D, hy, hm, hd, h⟩ :=
    (ymdToDate_iff (y := 2292) (m := 4) (d := 10) (by decide) (by decide) (by decide)).mpr
      ⟨by decide, by decide⟩
  have hD : D = lastDay := by
    cases D
    cases hy
    cases hm
    cases hd
    rfl
  rw [← hD, ← h]
  decide

lemma digitVal_le {c : UInt8} (h : isDigit c = true) : digitVal c ≤ 9 := by
  simp only [isDigit, Bool.and_eq_true, decide_eq_true_eq, UInt8.le_iff_toNat_le] at h
  have h9 : (byte '9').toNat = 57 := by decide
  rw [digitVal]
  omega

lemma digitsValue_append (ds : Bytes) (c : UInt8) :
    digitsValue (ds ++ [c]) = digitsValue ds * 10 + digitVal c := by
  simp [digitsValue]

lemma digitsValue_lt {ds : Bytes} (h : ∀ c ∈ ds, isDigit c = true) : digitsValue ds < 10 ^ ds.length := by
  induction ds using reverseRecOn with
  | nil => exact Nat.one_pos
  | append_singleton ds c ih =>
    have h1 := ih fun b hb => h b (mem_append_left _ hb)
    have h2 := digitVal_le (h c (mem_append_right _ mem_cons_self))
    rw [digitsValue_append, length_append, length_singleton, pow_succ]
    omega

lemma toInt32_le (n : ℕ) : toInt32 n ≤ n := by
  rw [toInt32]
  by_cases hc : n % 4294967296 < 2147483648
  · rw [if_pos hc]
    omega
  · rw [if_neg hc]
    omega

lemma nanosOf_lt {fs rest : Text} (h : ∀ c ∈ fs, isDigit c = true) :
    nanosOf (fs ++ rest) (toInt32 fs.length) < 10 ^ 9 := by
  have hle := toInt32_le fs.length
  obtain ⟨k, hk⟩ : ∃ k, k = (min (toInt32 fs.length) 9).toNat := ⟨_, rfl⟩
  have hkfs : k ≤ fs.length := by omega
  have htake : (fs ++ rest).take k = fs.take k := take_append_of_le_length hkfs
  have hval : digitsValue (fs.take k) < 10 ^ k := by
    have hdig : ∀ c ∈ fs.take k, isDigit c = true := fun c hc => h c (mem_of_mem_take hc)
    have hlt := digitsValue_lt hdig
    rwa [length_take, Nat.min_eq_left hkfs] at hlt
  rw [nanosOf, ← hk, htake]
  rcases Nat.eq_zero_or_pos k with h0 | hpos
  · have hnil : digitsValue (fs.take k) = 0 := by
      rw [h0]
      rfl
    rw [hnil, zero_mul]
    norm_num
  · have hsum : k + (9 - toInt32 fs.length).toNat = 9 := by omega
    calc digitsValue (fs.take k) * 10 ^ (9 - toInt32 fs.length).toNat
        < 10 ^ k * 10 ^ (9 - toInt32 fs.length).toNat :=
          Nat.mul_lt_mul_of_pos_right hval (by positivity)
      _ = 10 ^ 9 := by rw [← pow_add, hsum]

section

variable {rest : Text} {days ns : ℤ}

lemma denotesDate_iff (hm : 1 ≤ m ∧ m ≤ 12 ∧ 1 ≤ d) : DenotesDate y m d (ymdToDate y m d) ↔ InCalendar y m d :=
  ymdToDate_iff hm.1 hm.2.1 hm.2.2

lemma denotesDate_unique {a b : ℤ} (ha : DenotesDate y m d a) (hb : DenotesDate y m d b) : a = b := by
  obtain ⟨D, hy, hm, hd, ha⟩ := ha
  obtain ⟨E, hy', hm', hd', hb⟩ := hb
  have hDE : D.ordinal = E.ordinal := by
    simp only [Date.ordinal, hy, hm, hd, hy', hm', hd']
  rw [ha, hb, hDE]

lemma DenotesDate.inCalendar (h : DenotesDate y m d days) : InCalendar y m d := by
  obtain ⟨D, hy, hm, hd, hdays⟩ := h
  rw [InCalendar, ← hy, ← hm, ← hd]
  exact ⟨D.year_pos, D.day_mem.2⟩

lemma timeNs_nonneg : 0 ≤ timeNs t := by
  rw [timeNs]
  positivity

lemma TimeText.timeNs_lt (h : TimeText r t rest) (hclock : t.1 ≤ 23 ∧ t.2.1 ≤ 59 ∧ t.2.2.1 ≤ 59) :
    timeNs t < nsecsInDay := by
  obtain ⟨h1, h2, m1, m2, s1, s2, fs, -, hdig, ht⟩ := h
  have hns : t.2.2.2 < 10 ^ 9 := by
    rw [ht]
    exact nanosOf_lt fun c hc => hdig c (mem_append_right _ hc)
  simp only [timeNs, nsecsInDay]
  omega

lemma moment_lt_iff (hdate : DenotesDate y m d days) (hle : days ≤ 106751) (ht : timeNs t < nsecsInDay) :
    days * nsecsInDay + timeNs t < 2 ^ 63 ↔ NotAfterLast y m d t := by
  obtain ⟨D, hy, hm, hd, hdays⟩ := hdate
  have hlast := lastDay_ordinal
  simp only [nsecsInDay] at ht ⊢
  rw [NotAfterLast, ← hy, ← hm, ← hd]
  by_cases hb : D.Before lastDay
  · have hlt := Date.ordinal_lt hb
    refine iff_of_true (by omega) ?_
    obtain hy | ⟨hy, hm | ⟨hm, hd⟩⟩ := hb
    · exact .inl hy
    · exact .inr ⟨hy, .inl hm⟩
    · exact .inr ⟨hy, .inr ⟨hm, .inl hd⟩⟩
  · by_cases ha : lastDay.Before D
    · have hlt := Date.ordinal_lt ha
      omega
    · simp only [Date.Before, lastDay] at ha hb
      have hy : D.year = 2292 := by omega
      have hm : D.month = 4 := by omega
      have hd : D.day = 10 := by omega
      have hord : D.ordinal = lastDay.ordinal := by
        simp only [Date.ordinal, lastDay, hy, hm, hd]
      simp only [hy, hm, hd, lt_irrefl, false_or, true_and]
      omega

lemma encodeTimestamp_eq_ok (h : encodeTimestamp days t = .ok (.timestamp ns)) :
    (-106751 ≤ days ∧ days ≤ 106751) ∧ ns = (days * nsecsInDay + timeNs t).bmod (2 ^ 64) := by
  rw [encodeTimestamp] at h
  have hmax : (2 ^ 63 - 1 : ℤ).tdiv nsecsInDay = 106751 := by decide
  have hmin : (-2 ^ 63 : ℤ).tdiv nsecsInDay = -106751 := by decide
  rw [hmax, hmin] at h
  by_cases hrange : 106751 < days ∨ days < -106751
  · rw [if_pos hrange] at h
    cases h
  · rw [if_neg hrange] at h
    exact ⟨by omega, (Value.timestamp.inj (Except.ok.inj h)).symm⟩

lemma denotesMoment_iff (hm : 1 ≤ m ∧ m ≤ 12 ∧ 1 ≤ d) (ht : TimeText r t rest)
    (hclock : t.1 ≤ 23 ∧ t.2.1 ≤ 59 ∧ t.2.2.1 ≤ 59)
    (henc : encodeTimestamp (ymdToDate y m d) t = .ok (.timestamp ns)) :
    DenotesMoment y m d t ns ↔ InCalendar y m d ∧ NotAfterLast y m d t := by
  obtain ⟨hrange, hns⟩ := encodeTimestamp_eq_ok henc
  have hlt := ht.timeNs_lt hclock
  have hnn : 0 ≤ timeNs t := timeNs_nonneg
  constructor
  · rintro ⟨days, hdate, -, -, hfit, -⟩
    have hcal : InCalendar y m d := hdate.inCalendar
    have heq : days = ymdToDate y m d := denotesDate_unique hdate ((denotesDate_iff hm).mpr hcal)
    rw [heq] at hdate hfit
    exact ⟨hcal, (moment_lt_iff hdate hrange.2 hlt).mp hfit.2⟩
  · rintro ⟨hcal, hlast⟩
    have hdate := (denotesDate_iff hm).mpr hcal
    have hsum := (moment_lt_iff hdate hrange.2 hlt).mpr hlast
    have hday : (ymdToDate y m d) * nsecsInDay + timeNs t ≥ -2 ^ 63 := by
      simp only [nsecsInDay]
      omega
    refine ⟨_, hdate, ⟨?_, ?_⟩, ⟨by omega, ?_⟩, ⟨hday, hsum⟩, ?_⟩
    · simp only [nsecsInDay]
      omega
    · omega
    · simp only [nsecsInDay] at hlt
      omega
    · rw [hns, Int.bmod_eq_of_le (by omega) (by omega)]

end

/-- A text is read to its end or rejected, and when a date or timestamp literal stands for its moment. -/
theorem rayParse_progress_and_moments (readF64 : Bytes → Option Double) :
    (∀ src, rayParse readF64 src ≠ .error .pastEnd ∧ rayParse readF64 src ≠ .error .stack ∧
      rayParse readF64 src ≠ .error .fuel) ∧
    (∀ stack depth p, stack + depth = rayParseMaxDepth →
      Safe (parseExpr readF64 stack depth p) fun a => a.2 <:+ p ∧ a.2.length < p.length) ∧
    (∀ start days rest, parseNumber readF64 start = .ok (.date days, rest) →
      start = byte '0' :: byte 'N' :: byte 'd' :: rest ∨
      ∃ y m d, DateText start y m d rest ∧ (DenotesDate y m d days ↔ InCalendar y m d)) ∧
    (∀ start ns rest, parseNumber readF64 start = .ok (.timestamp ns, rest) →
      start = byte '0' :: byte 'N' :: byte 'p' :: rest ∨
      ∃ y m d t r, DateText start y m d (byte 'D' :: r) ∧ TimeText r t rest ∧
        (DenotesMoment y m d t ns ↔ InCalendar y m d ∧ NotAfterLast y m d t)) := by
  refine ⟨fun src => ?_, fun stack depth p h => ?_, fun start days rest h => ?_, fun start ns rest h => ?_⟩
  · have hsafe : Safe (rayParse readF64 src) fun _ => True := rayParse_safe src
    refine ⟨?_, ?_, ?_⟩ <;> intro h <;> rw [h] at hsafe <;> exact hsafe
  · exact Safe.mono (parseExpr_leaves stack depth h p) fun a ha => ⟨ha.1, ha.2⟩
  · obtain ⟨-, hv⟩ := parseNumber_reads.of_eq h
    obtain ⟨-, hnull⟩ | ⟨y, m, d, htext, hm, rfl⟩ := hv
    · exact .inl hnull
    · exact .inr ⟨y, m, d, htext, denotesDate_iff hm⟩
  · obtain ⟨-, hv⟩ := parseNumber_reads.of_eq h
    obtain ⟨-, hnull⟩ | ⟨y, m, d, t, r, htext, htime, hm, hclock, henc⟩ := hv
    · exact .inl hnull
    · exact .inr ⟨y, m, d, t, r, htext, htime, denotesMoment_iff hm htime hclock henc⟩

def parsedDate : Parsed Value → Option ℤ
  | .ok (.date days) => some days
  | _ => none

def parsedTimestamp : Parsed Value → Option ℤ
  | .ok (.timestamp ns) => some ns
  | _ => none

/-- There is no 31st of February, and the last minutes overflow. -/
theorem rayParse_no_moment :
    (parsedDate (rayParse (fun _ => none) (['2', '0', '2', '3', '.', '0', '2', '.', '3', '1'].map byte)) =
      some 8462 ∧ ¬DenotesDate 2023 2 31 8462) ∧
    parsedTimestamp (rayParse (fun _ => none) (['2', '2', '9', '2', '.', '0', '4', '.', '1', '0', 'D',
      '2', '3', ':', '5', '9', ':', '0', '0', '.', '0'].map byte)) = some (-9223371333709551616) ∧
    ¬Fits64 (106751 * nsecsInDay + timeNs (23, 59, 0, 0)) := by
  refine ⟨⟨by decide +kernel, ?_⟩, by decide +kernel, ?_⟩
  · intro h
    exact absurd h.inCalendar.2 (by decide)
  · norm_num [Fits64, nsecsInDay, timeNs]

end Rayforce.Lang
