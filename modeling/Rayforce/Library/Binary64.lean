import Mathlib

/-! Binary64 arithmetic over the rationals. -/

namespace Rayforce.Library.Binary64

variable {q : ℚ} {n : ℤ}

inductive Double
  | fin (q : ℚ)
  | inf (negative : Bool)
  | nan
  deriving DecidableEq, Repr

def roundHalfEven (q : ℚ) : ℤ :=
  if q - ⌊q⌋ < 1 / 2 then ⌊q⌋
  else if 1 / 2 < q - ⌊q⌋ then ⌊q⌋ + 1
  else if ⌊q⌋ % 2 = 0 then ⌊q⌋ else ⌊q⌋ + 1

def ulpExponent (q : ℚ) : ℤ := max (Int.log 2 |q| - 52) (-1074)

def nearest (q : ℚ) : ℚ := roundHalfEven (q / 2 ^ ulpExponent q) * 2 ^ ulpExponent q

namespace Double

def round (q : ℚ) : Double := if |nearest q| < 2 ^ 1024 then .fin (nearest q) else .inf (q < 0)

def ofInt (n : ℤ) : Double := round n

def zero : Double := .fin 0

def one : Double := .fin 1

def isNaN : Double → Bool
  | .nan => true
  | _ => false

def isInf : Double → Bool
  | .inf _ => true
  | _ => false

def sign : Double → ℤ
  | .fin q => if q < 0 then -1 else if 0 < q then 1 else 0
  | .inf negative => if negative then -1 else 1
  | .nan => 0

def neg : Double → Double
  | .fin q => .fin (-q)
  | .inf negative => .inf (!negative)
  | .nan => .nan

def abs : Double → Double
  | .fin q => .fin |q|
  | .inf _ => .inf false
  | .nan => .nan

def add : Double → Double → Double
  | .fin a, .fin b => round (a + b)
  | .fin _, .inf s => .inf s
  | .inf s, .fin _ => .inf s
  | .inf s, .inf t => if s = t then .inf s else .nan
  | _, _ => .nan

def sub (a b : Double) : Double := a.add b.neg

def mul : Double → Double → Double
  | .fin a, .fin b => round (a * b)
  | .nan, _ => .nan
  | _, .nan => .nan
  | a, b => if a.sign * b.sign = 0 then .nan else .inf (a.sign * b.sign < 0)

def div : Double → Double → Double
  | .fin a, .fin b =>
    if b ≠ 0 then round (a / b) else if a = 0 then .nan else .inf (a < 0)
  | .inf s, .fin b => .inf (s ^^ decide (b < 0))
  | .fin _, .inf _ => .fin 0
  | _, _ => .nan

def fmod : Double → Double → Double
  | .fin a, .fin b => if b = 0 then .nan else .fin (a - b * (if 0 ≤ a / b then ⌊a / b⌋ else ⌈a / b⌉))
  | .fin a, .inf _ => .fin a
  | _, _ => .nan

def floor : Double → Double
  | .fin q => .fin ⌊q⌋
  | d => d

def ceil : Double → Double
  | .fin q => .fin ⌈q⌉
  | d => d

def roundAway : Double → Double
  | .fin q => .fin (if q < 0 then ⌈q - 1 / 2⌉ else ⌊q + 1 / 2⌋)
  | d => d

def lt : Double → Double → Bool
  | .fin a, .fin b => a < b
  | .inf s, .fin _ => s
  | .fin _, .inf s => !s
  | .inf s, .inf t => s && !t
  | _, _ => false

def eq : Double → Double → Bool
  | .fin a, .fin b => a = b
  | .inf s, .inf t => s = t
  | _, _ => false

def le (a b : Double) : Bool := a.lt b || a.eq b

def min (a b : Double) : Double := if a.isNaN then b else if b.isNaN then a else if a.lt b then a else b

def max (a b : Double) : Double := if a.isNaN then b else if b.isNaN then a else if b.lt a then a else b

def trunc : Double → Option ℤ
  | .fin q => some (if q < 0 then ⌈q⌉ else ⌊q⌋)
  | _ => none

end Double

lemma roundHalfEven_intCast (n : ℤ) : roundHalfEven n = n := by
  simp [roundHalfEven]

lemma floor_le_roundHalfEven (q : ℚ) : ⌊q⌋ ≤ roundHalfEven q := by
  rw [roundHalfEven]
  split_ifs <;> omega

lemma roundHalfEven_nonneg (h : 0 ≤ q) : 0 ≤ roundHalfEven q :=
  (Int.floor_nonneg.mpr h).trans (floor_le_roundHalfEven q)

lemma roundHalfEven_le_ceil (q : ℚ) : roundHalfEven q ≤ ⌈q⌉ := by
  rw [roundHalfEven]
  by_cases hq : (⌊q⌋ : ℚ) = q
  · simp only [hq, sub_self]
    norm_num
    exact Int.floor_le_ceil q
  · have hlt : ⌊q⌋ < ⌈q⌉ := by
      rw [Int.lt_ceil]
      exact lt_of_le_of_ne (Int.floor_le q) hq
    split_ifs <;> omega

lemma two_zpow_pos (t : ℤ) : (0 : ℚ) < 2 ^ t := by positivity

lemma nearest_nonneg (h : 0 ≤ q) : 0 ≤ nearest q := by
  have hd : 0 ≤ q / 2 ^ ulpExponent q := div_nonneg h (two_zpow_pos _).le
  exact mul_nonneg (by exact_mod_cast roundHalfEven_nonneg hd) (two_zpow_pos _).le

lemma two_zpow_ulpExponent_le (h : 1 ≤ |q|) : (2 : ℚ) ^ ulpExponent q ≤ |q| := by
  have hlog : (0 : ℤ) ≤ Int.log 2 |q| := by
    rw [← Int.zpow_le_iff_le_log one_lt_two (by linarith)]
    simpa using h
  have hle : ulpExponent q ≤ Int.log 2 |q| := by
    rw [ulpExponent]
    omega
  calc (2 : ℚ) ^ ulpExponent q ≤ 2 ^ Int.log 2 |q| := zpow_le_zpow_right₀ one_le_two hle
    _ ≤ |q| := by
      have hself := Int.zpow_log_le_self (b := 2) (r := |q|) one_lt_two (by linarith)
      rwa [Nat.cast_ofNat] at hself

lemma nearest_le (h : 1 ≤ q) : nearest q ≤ 2 * q := by
  have hq : |q| = q := abs_of_nonneg (by linarith)
  have hle := two_zpow_ulpExponent_le (q := q) (by rwa [hq])
  rw [hq] at hle
  have hp := two_zpow_pos (ulpExponent q)
  have hceil : (roundHalfEven (q / 2 ^ ulpExponent q) : ℚ) ≤ q / 2 ^ ulpExponent q + 1 :=
    le_trans (by exact_mod_cast roundHalfEven_le_ceil _) (Int.ceil_lt_add_one _).le
  calc nearest q ≤ (q / 2 ^ ulpExponent q + 1) * 2 ^ ulpExponent q := mul_le_mul_of_nonneg_right hceil hp.le
    _ = q + 2 ^ ulpExponent q := by field_simp
    _ ≤ 2 * q := by linarith

lemma le_nearest (h : q ≤ -1) : 2 * q ≤ nearest q := by
  have hq : |q| = -q := abs_of_nonpos (by linarith)
  have hle := two_zpow_ulpExponent_le (q := q) (by rw [hq]; linarith)
  rw [hq] at hle
  have hp := two_zpow_pos (ulpExponent q)
  have hfloor : q / 2 ^ ulpExponent q - 1 ≤ (roundHalfEven (q / 2 ^ ulpExponent q) : ℚ) :=
    le_trans (Int.sub_one_lt_floor _).le (by exact_mod_cast floor_le_roundHalfEven _)
  calc 2 * q ≤ q - 2 ^ ulpExponent q := by linarith
    _ = (q / 2 ^ ulpExponent q - 1) * 2 ^ ulpExponent q := by field_simp
    _ ≤ nearest q := mul_le_mul_of_nonneg_right hfloor hp.le

lemma half_le_nearest (h : 1 ≤ q) : q / 2 ≤ nearest q := by
  have hq : |q| = q := abs_of_nonneg (by linarith)
  have hle := two_zpow_ulpExponent_le (q := q) (by rwa [hq])
  rw [hq] at hle
  have hp := two_zpow_pos (ulpExponent q)
  have hone : 1 ≤ q / 2 ^ ulpExponent q := (le_div_iff₀ hp).mpr (by simpa using hle)
  have hfloor : (1 : ℚ) ≤ ⌊q / 2 ^ ulpExponent q⌋ := by exact_mod_cast Int.le_floor.mpr (by simpa using hone)
  have hround : (⌊q / 2 ^ ulpExponent q⌋ : ℚ) ≤ roundHalfEven (q / 2 ^ ulpExponent q) := by
    exact_mod_cast floor_le_roundHalfEven _
  have hhalf : q / 2 ^ ulpExponent q / 2 ≤ roundHalfEven (q / 2 ^ ulpExponent q) := by
    linarith [Int.sub_one_lt_floor (q / 2 ^ ulpExponent q)]
  calc q / 2 = q / 2 ^ ulpExponent q / 2 * 2 ^ ulpExponent q := by field_simp
    _ ≤ nearest q := mul_le_mul_of_nonneg_right hhalf hp.le

lemma nearest_le_half (h : q ≤ -1) : nearest q ≤ q / 2 := by
  have hq : |q| = -q := abs_of_nonpos (by linarith)
  have hle := two_zpow_ulpExponent_le (q := q) (by rw [hq]; linarith)
  rw [hq] at hle
  have hp := two_zpow_pos (ulpExponent q)
  have hone : q / 2 ^ ulpExponent q ≤ -1 := (div_le_iff₀ hp).mpr (by linarith)
  have hceil : (⌈q / 2 ^ ulpExponent q⌉ : ℚ) ≤ -1 := by exact_mod_cast Int.ceil_le.mpr (by simpa using hone)
  have hround : (roundHalfEven (q / 2 ^ ulpExponent q) : ℚ) ≤ ⌈q / 2 ^ ulpExponent q⌉ := by
    exact_mod_cast roundHalfEven_le_ceil _
  have hhalf : (roundHalfEven (q / 2 ^ ulpExponent q) : ℚ) ≤ q / 2 ^ ulpExponent q / 2 := by
    linarith [Int.ceil_lt_add_one (q / 2 ^ ulpExponent q)]
  calc nearest q ≤ q / 2 ^ ulpExponent q / 2 * 2 ^ ulpExponent q := mul_le_mul_of_nonneg_right hhalf hp.le
    _ = q / 2 := by field_simp

lemma nearest_intCast_of_ulpExponent_nonpos (h : ulpExponent n ≤ 0) : nearest n = n := by
  obtain ⟨k, hk⟩ := Int.eq_ofNat_of_zero_le (neg_nonneg.mpr h)
  have hu : ulpExponent (n : ℚ) = -(k : ℤ) := by omega
  have hcast : (n : ℚ) / 2 ^ ulpExponent (n : ℚ) = ((n * 2 ^ k : ℤ) : ℚ) := by
    rw [hu, zpow_neg, zpow_natCast, div_inv_eq_mul]
    push_cast
    rfl
  rw [nearest, hcast, roundHalfEven_intCast, hu, zpow_neg, zpow_natCast]
  push_cast
  field_simp

lemma exists_nearest_intCast (n : ℤ) : ∃ z : ℤ, nearest n = z := by
  by_cases h : ulpExponent (n : ℚ) ≤ 0
  · exact ⟨n, nearest_intCast_of_ulpExponent_nonpos h⟩
  · obtain ⟨k, hk⟩ := Int.eq_ofNat_of_zero_le (le_of_not_ge h)
    refine ⟨roundHalfEven (n / 2 ^ ulpExponent (n : ℚ)) * 2 ^ k, ?_⟩
    rw [nearest, hk]
    push_cast
    rfl

lemma nearest_mul_zpow_of_abs_lt {t : ℤ} (ht : -1074 ≤ t) (h : |n| < 2 ^ 53) :
    nearest (n * 2 ^ t) = n * 2 ^ t := by
  rcases eq_or_ne n 0 with rfl | hn
  · simp [nearest, roundHalfEven]
  · have hpos : (0 : ℚ) < |(n : ℚ) * 2 ^ t| :=
      abs_pos.mpr (mul_ne_zero (by exact_mod_cast hn) (two_zpow_pos t).ne')
    have hlog : Int.log 2 |(n : ℚ) * 2 ^ t| < 53 + t := by
      rw [← Int.lt_zpow_iff_log_lt one_lt_two hpos, abs_mul, abs_of_pos (two_zpow_pos t), Nat.cast_two,
        zpow_add₀ two_ne_zero]
      exact mul_lt_mul_of_pos_right (by exact_mod_cast h) (two_zpow_pos t)
    obtain ⟨k, hk⟩ : ∃ k : ℕ, t = ulpExponent (n * 2 ^ t) + k := by
      refine ⟨(t - ulpExponent (n * 2 ^ t)).toNat, ?_⟩
      rw [ulpExponent]
      omega
    have hcast : (n : ℚ) * 2 ^ t / 2 ^ ulpExponent (n * 2 ^ t) = ((n * 2 ^ k : ℤ) : ℚ) := by
      rw [div_eq_iff (two_zpow_pos _).ne']
      push_cast
      rw [mul_assoc, ← zpow_natCast, ← zpow_add₀ two_ne_zero, add_comm (k : ℤ), ← hk]
    rw [nearest, hcast, roundHalfEven_intCast, ← hcast, div_mul_cancel₀ _ (two_zpow_pos _).ne']

lemma nearest_mul_zpow {t : ℤ} (ht : -1074 ≤ t) (h : |n| ≤ 2 ^ 53) : nearest (n * 2 ^ t) = n * 2 ^ t := by
  rcases h.lt_or_eq with h | h
  · exact nearest_mul_zpow_of_abs_lt ht h
  · obtain ⟨m, rfl⟩ : (2 : ℤ) ∣ n := (dvd_abs 2 n).mp (h ▸ dvd_pow_self 2 (by decide))
    have hm : |m| < 2 ^ 53 := by
      rw [abs_mul] at h
      norm_num at h ⊢
      omega
    have hshift : ((2 * m : ℤ) : ℚ) * 2 ^ t = m * 2 ^ (t + 1) := by
      rw [zpow_add_one₀ two_ne_zero]
      push_cast
      ring
    rw [hshift, nearest_mul_zpow_of_abs_lt (by omega) hm]

lemma nearest_intCast_of_abs_lt (h : |n| < 2 ^ 53) : nearest n = n := by
  simpa using nearest_mul_zpow_of_abs_lt (t := 0) (by norm_num) h

namespace Double

lemma exists_ofInt_eq (h : |n| ≤ 2 ^ 64) :
    ∃ z : ℤ, ofInt n = .fin z ∧ (0 < n → n ≤ 2 * z) ∧ (n < 0 → 2 * z ≤ n) ∧ (n = 0 → z = 0) := by
  obtain ⟨z, hz⟩ := exists_nearest_intCast n
  have hn : (|n| : ℚ) ≤ 2 ^ 64 := by exact_mod_cast h
  have hfin : |nearest n| ≤ 2 ^ 65 → ofInt n = .fin z := by
    intro hb
    rw [ofInt, round, if_pos (lt_of_le_of_lt hb (pow_lt_pow_right₀ one_lt_two (by norm_num))), hz]
  rcases lt_trichotomy n 0 with hneg | rfl | hpos
  · have h1 : (n : ℚ) ≤ -1 := by exact_mod_cast Int.le_sub_one_of_lt hneg
    have hhalf := nearest_le_half h1
    rw [abs_of_nonpos (by linarith)] at hn
    refine ⟨z, hfin ?_, by omega, fun _ => ?_, by omega⟩
    · rw [abs_of_nonpos (by linarith)]
      linarith [le_nearest h1]
    · rw [hz] at hhalf
      have hq : (2 * z : ℚ) ≤ n := by linarith
      exact_mod_cast hq
  · have hzero := nearest_intCast_of_abs_lt (n := 0) (by norm_num)
    refine ⟨z, hfin ?_, by omega, by omega, fun _ => ?_⟩
    · rw [hzero]
      simp
    · rw [hz] at hzero
      exact_mod_cast hzero
  · have h1 : (1 : ℚ) ≤ n := by exact_mod_cast hpos
    have hhalf := half_le_nearest h1
    rw [abs_of_nonneg (by linarith)] at hn
    refine ⟨z, hfin ?_, fun _ => ?_, by omega, by omega⟩
    · rw [abs_of_nonneg (by linarith)]
      linarith [nearest_le h1]
    · rw [hz] at hhalf
      have hq : (n : ℚ) ≤ 2 * z := by linarith
      exact_mod_cast hq

lemma ofInt_of_abs_lt (h : |n| < 2 ^ 53) : ofInt n = .fin n := by
  have hq : |(n : ℚ)| < 2 ^ 53 := by exact_mod_cast h
  rw [ofInt, round, nearest_intCast_of_abs_lt h, 
    if_pos (hq.trans (pow_lt_pow_right₀ one_lt_two (by norm_num)))]

@[simp] lemma trunc_fin_intCast (z : ℤ) : trunc (.fin z) = some z := by
  simp [trunc]

@[simp] lemma lt_fin (a b : ℚ) : lt (.fin a) (.fin b) = decide (a < b) := rfl

@[simp] lemma eq_fin (a b : ℚ) : eq (.fin a) (.fin b) = decide (a = b) := rfl

@[simp] lemma le_fin (a b : ℚ) : le (.fin a) (.fin b) = decide (a ≤ b) := by
  simp [le, le_iff_lt_or_eq]

end Double

lemma abs_roundHalfEven_sub_le (x : ℚ) : |(roundHalfEven x : ℚ) - x| ≤ 1 / 2 := by
  have h₁ := Int.floor_le x
  have h₂ := Int.lt_floor_add_one x
  rw [roundHalfEven, abs_le]
  split_ifs <;> push_cast <;> constructor <;> linarith

lemma abs_nearest_sub_le {k : ℤ} (hk : -1021 ≤ k) (h : |q| < 2 ^ k) : |nearest q - q| ≤ 2 ^ (k - 54) := by
  rcases eq_or_ne q 0 with rfl | hq
  · have hzero : nearest 0 = 0 := by simp [nearest, roundHalfEven]
    rw [hzero, sub_zero, abs_zero]
    positivity
  · have hlog : Int.log 2 |q| < k := by
      rw [← Int.lt_zpow_iff_log_lt one_lt_two (abs_pos.mpr hq)]
      exact_mod_cast h
    have hu : ulpExponent q ≤ k - 53 := by
      rw [ulpExponent]
      omega
    have hp := two_zpow_pos (ulpExponent q)
    have hdiff : nearest q - q = (roundHalfEven (q / 2 ^ ulpExponent q) - q / 2 ^ ulpExponent q) *
        2 ^ ulpExponent q := by
      rw [nearest, sub_mul, div_mul_cancel₀ _ hp.ne']
    calc |nearest q - q| ≤ 1 / 2 * 2 ^ ulpExponent q := by
          rw [hdiff, abs_mul, abs_of_pos hp]
          exact mul_le_mul_of_nonneg_right (abs_roundHalfEven_sub_le _) hp.le
      _ ≤ 1 / 2 * 2 ^ (k - 53) := by
          gcongr
          exact one_le_two
      _ = 2 ^ (k - 54) := by
          rw [show k - 53 = (k - 54) + 1 by ring, zpow_add_one₀ two_ne_zero]
          ring

namespace Double

lemma round_of_abs_lt {k : ℤ} (hk : -1021 ≤ k) (hk' : k ≤ 1000) (h : |q| < 2 ^ k) :
    round q = .fin (nearest q) := by
  have hmove := abs_nearest_sub_le hk h
  have hk₁ : (2 : ℚ) ^ k ≤ 2 ^ (1000 : ℤ) := zpow_le_zpow_right₀ one_le_two hk'
  have hk₂ : (2 : ℚ) ^ (k - 54) ≤ 2 ^ (1000 : ℤ) := zpow_le_zpow_right₀ one_le_two (by omega)
  have htri : |nearest q| ≤ |nearest q - q| + |q| := by
    have := abs_add_le (nearest q - q) q
    rwa [sub_add_cancel] at this
  have hsum : (2 : ℚ) ^ (1000 : ℤ) + 2 ^ (1000 : ℤ) < 2 ^ 1024 := by
    rw [← mul_two, ← zpow_add_one₀ two_ne_zero, ← zpow_natCast]
    exact zpow_lt_zpow_right₀ one_lt_two (by norm_num)
  have hlt := add_lt_add_of_le_of_lt (hmove.trans hk₂) (h.trans_le hk₁)
  rw [round, if_pos (htri.trans_lt (hlt.trans hsum))]

lemma round_mul_zpow {t : ℤ} (ht : -1074 ≤ t) (ht' : t ≤ 0) (h : |n| ≤ 2 ^ 53) :
    round (n * 2 ^ t) = .fin (n * 2 ^ t) := by
  have hlt : |(n : ℚ) * 2 ^ t| < 2 ^ (54 : ℤ) := by
    rw [abs_mul, abs_of_pos (two_zpow_pos t)]
    have hle : (2 : ℚ) ^ t ≤ 1 := zpow_le_one_of_nonpos₀ one_le_two ht'
    calc |(n : ℚ)| * 2 ^ t ≤ 2 ^ 53 * 1 := mul_le_mul (by exact_mod_cast h) hle (two_zpow_pos t).le (by norm_num)
      _ < 2 ^ (54 : ℤ) := by norm_num
  rw [round_of_abs_lt (by norm_num) (by norm_num) hlt, nearest_mul_zpow ht h]

end Double

end Rayforce.Library.Binary64
