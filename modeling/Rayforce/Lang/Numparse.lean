import Rayforce.Library.Lanes
import Rayforce.Lang.Moments

/-! What the integer scanner takes. -/

namespace Rayforce.Lang.Numparse

open Library.Words Library.Lanes List Option

variable {c : UInt8}

section

variable {p : Bytes}

lemma leNat_eq_lanes (bs : Bytes) : leNat bs = lanes 8 (bs.map UInt8.toNat) := by
  induction bs with
  | nil => rfl
  | cons b bs ih =>
    rw [leNat, map_cons, lanes, ih]
    rfl

lemma loadWord_toNat (h : p.length = 8) : (loadWord p).toNat = lanes 8 (p.map UInt8.toNat) := by
  have hlt : leNat p < 2 ^ 64 := by
    have := leNat_lt p
    rw [h] at this
    omega
  rw [loadWord, take_of_length_le h.le, UInt64.toNat_ofNat', Nat.mod_eq_of_lt hlt, leNat_eq_lanes]

lemma isDigit_iff (c : UInt8) : isDigit c = true ↔ 48 ≤ c.toNat ∧ c.toNat ≤ 57 := by
  have hlo : byte '0' = 48 := by decide
  have hhi : byte '9' = 57 := by decide
  rw [isDigit, Bool.and_eq_true, decide_eq_true_eq, decide_eq_true_eq, hlo, hhi, UInt8.le_iff_toNat_le,
    UInt8.le_iff_toNat_le]
  rfl

lemma isDigitByte_eq (c : UInt8) : isDigitByte c = isDigit c := by
  revert c
  decide +kernel

lemma rayIs8Digits_eq (h : p.length = 8) : rayIs8Digits p = p.all isDigit := by
  have hlen : (p.map UInt8.toNat).length = 8 := by rw [length_map, h]
  have hbytes : ∀ x ∈ p.map UInt8.toNat, x < 256 := by
    rw [List.forall_mem_map]
    exact fun c _ => c.toNat_lt
  have hbyte : ∀ x : Fin 256, ((x.val + (256 - 48)) % 256 ||| (x.val + 70) % 256) &&& 128 = 0 ↔ 48 ≤ x.val ∧
      x.val ≤ 127 - 70 := by
    decide +kernel
  have htest := range_test (by norm_num) (by norm_num) hbytes hbyte
  have hlow : (loadWord p - 0x3030303030303030).toNat = takeEach 48 8 (lanes 8 (p.map UInt8.toNat)) := by
    rw [UInt64.toNat_sub, loadWord_toNat h]
    rfl
  have hhigh : (loadWord p + 0x4646464646464646).toNat = addEach 70 8 (lanes 8 (p.map UInt8.toNat)) := by
    rw [UInt64.toNat_add, loadWord_toNat h]
    rfl
  have hmask : (0x8080808080808080 : UInt64).toNat = lanes 8 (List.replicate 8 128) := rfl
  rw [hlen] at htest
  rw [Bool.eq_iff_iff, rayIs8Digits, List.all_eq_true, beq_iff_eq, ← UInt64.toNat_inj, UInt64.toNat_and,
    UInt64.toNat_or, hlow, hhigh, hmask]
  change _ = 0 ↔ _
  rw [htest, List.forall_mem_map]
  exact forall₂_congr fun c _ => (isDigit_iff c).symm

lemma mask_digits {a b c d e f g h : ℕ} (ha : a < 10) (hb : b < 10) (hc : c < 10) (hd : d < 10)
    (he : e < 10) (hf : f < 10)
    (hg : g < 10) (hh : h < 10) : lanes 8 [a, b, c, d, e, f, g, h] &&& 0x000F000F000F000F =
      lanes 8 [a, 0, c, 0, e, 0, g, 0] := by
  have hmask : 0x000F000F000F000F = lanes 8 [15, 0, 15, 0, 15, 0, 15, 0] := rfl
  have hbound : ∀ x ∈ [a, b, c, d, e, f, g, h], x < 2 ^ 8 := by
    simp only [forall_mem_cons]
    exact ⟨by omega, by omega, by omega, by omega, by omega, by omega, by omega, by omega, by simp⟩
  have hand : lanes 8 [a, b, c, d, e, f, g, h] &&& lanes 8 [15, 0, 15, 0, 15, 0, 15, 0] =
      lanes 8 [a &&& 15, b &&& 0, c &&& 15, d &&& 0, e &&& 15, f &&& 0, g &&& 15, h &&& 0] :=
    lanes_and rfl hbound (by decide)
  have hdigit : ∀ x < 10, x &&& 15 = x := by decide
  rw [hmask, hand, hdigit a ha, hdigit c hc, hdigit e he, hdigit g hg]
  simp only [Nat.and_zero]

lemma mask_pairs {a b c d : ℕ} (ha : a < 100) (hb : b < 100) (hc : c < 100) (hd : d < 100) :
    lanes 16 [a, b, c, d] &&& 0x000000FF000000FF = lanes 16 [a, 0, c, 0] := by
  have hmask : 0x000000FF000000FF = lanes 16 [255, 0, 255, 0] := rfl
  have hbound : ∀ x ∈ [a, b, c, d], x < 2 ^ 16 := by
    simp only [forall_mem_cons]
    exact ⟨by omega, by omega, by omega, by omega, by simp⟩
  have hand : lanes 16 [a, b, c, d] &&& lanes 16 [255, 0, 255, 0] =
      lanes 16 [a &&& 255, b &&& 0, c &&& 255, d &&& 0] :=
    lanes_and rfl hbound (by decide)
  have hpair : ∀ x < 100, x &&& 255 = x := by decide
  rw [hmask, hand, hpair a ha, hpair c hc]
  simp only [Nat.and_zero]

lemma mask_fours {a b : ℕ} (ha : a < 10000) : lanes 32 [a, b] &&& 0xFFFFFFFF = a := by
  have hmask : 0xFFFFFFFF = 2 ^ 32 - 1 := rfl
  rw [hmask, Nat.and_two_pow_sub_one_eq_mod]
  simp only [lanes]
  omega

lemma rayParse8Digits_eq (h : p.length = 8) (hp : p.all isDigit = true) :
    (rayParse8Digits p).toNat = digitsValue p := by
  match p, h with
  | [c0, c1, c2, c3, c4, c5, c6, c7], _ =>
    have hdigit : ∀ c ∈ [c0, c1, c2, c3, c4, c5, c6, c7], digitVal c < 10 ∧ c.toNat = digitVal c + 48 := by
      intro c hc
      have := (isDigit_iff c).mp (all_eq_true.mp hp c hc)
      rw [digitVal]
      omega
    simp only [forall_mem_cons] at hdigit
    obtain ⟨⟨h0, e0⟩, ⟨h1, e1⟩, ⟨h2, e2⟩, ⟨h3, e3⟩, ⟨h4, e4⟩, ⟨h5, e5⟩, ⟨h6, e6⟩, ⟨h7, e7⟩, -⟩ := hdigit
    have hvalue : digitsValue [c0, c1, c2, c3, c4, c5, c6, c7] =
        (((((((digitVal c0 * 10 + digitVal c1) * 10 + digitVal c2) * 10 + digitVal c3) * 10 + digitVal c4) * 10 +
          digitVal c5) * 10 + digitVal c6) * 10 + digitVal c7) := by
      simp [digitsValue]
    have hword := loadWord_toNat (p := [c0, c1, c2, c3, c4, c5, c6, c7]) rfl
    simp only [map_cons, map_nil, e0, e1, e2, e3, e4, e5, e6, e7] at hword
    generalize digitVal c0 = d0 at *
    generalize digitVal c1 = d1 at *
    generalize digitVal c2 = d2 at *
    generalize digitVal c3 = d3 at *
    generalize digitVal c4 = d4 at *
    generalize digitVal c5 = d5 at *
    generalize digitVal c6 = d6 at *
    generalize digitVal c7 = d7 at *
    rw [rayParse8Digits, hvalue]
    have hsub : (loadWord [c0, c1, c2, c3, c4, c5, c6, c7] - 0x3030303030303030).toNat =
        lanes 8 [d0, d1, d2, d3, d4, d5, d6, d7] := by
      have hc : (0x3030303030303030 : UInt64).toNat = 0x3030303030303030 := rfl
      rw [UInt64.toNat_sub, hword, hc]
      simp only [lanes]
      omega
    generalize loadWord [c0, c1, c2, c3, c4, c5, c6, c7] - 0x3030303030303030 = chunk at hsub ⊢
    have htens : (chunk &&& 0x000F000F000F000F).toNat = lanes 8 [d0, 0, d2, 0, d4, 0, d6, 0] := by
      rw [UInt64.toNat_and, hsub]
      exact mask_digits h0 h1 h2 h3 h4 h5 h6 h7
    have hones : ((chunk >>> 8) &&& 0x000F000F000F000F).toNat = lanes 8 [d1, 0, d3, 0, d5, 0, d7, 0] := by
      have hshift : lanes 8 [d0, d1, d2, d3, d4, d5, d6, d7] / 2 ^ 8 =
          lanes 8 [d1, d2, d3, d4, d5, d6, d7, 0] := by
        simp only [lanes]
        omega
      rw [UInt64.toNat_and, UInt64.toNat_shiftRight, hsub, Nat.shiftRight_eq_div_pow]
      exact (congrArg (· &&& 0x000F000F000F000F) hshift).trans (mask_digits h1 h2 h3 h4 h5 h6 h7 (by norm_num))
    generalize chunk &&& 0x000F000F000F000F = tens at htens ⊢
    generalize (chunk >>> 8) &&& 0x000F000F000F000F = ones at hones ⊢
    have hpairs : (tens * 10 + ones).toNat =
        lanes 16 [10 * d0 + d1, 10 * d2 + d3, 10 * d4 + d5, 10 * d6 + d7] := by
      have hc : (10 : UInt64).toNat = 10 := rfl
      rw [UInt64.toNat_add, UInt64.toNat_mul, htens, hones, hc]
      simp only [lanes]
      omega
    generalize tens * 10 + ones = pairs at hpairs ⊢
    have hhi : (pairs &&& 0x000000FF000000FF).toNat = lanes 16 [10 * d0 + d1, 0, 10 * d4 + d5, 0] := by
      rw [UInt64.toNat_and, hpairs]
      exact mask_pairs (by omega) (by omega) (by omega) (by omega)
    have hlo : ((pairs >>> 16) &&& 0x000000FF000000FF).toNat = lanes 16 [10 * d2 + d3, 0, 10 * d6 + d7, 0] := by
      have hshift : lanes 16 [10 * d0 + d1, 10 * d2 + d3, 10 * d4 + d5, 10 * d6 + d7] / 2 ^ 16 =
          lanes 16 [10 * d2 + d3, 10 * d4 + d5, 10 * d6 + d7, 0] := by
        simp only [lanes]
        omega
      rw [UInt64.toNat_and, UInt64.toNat_shiftRight, hpairs, Nat.shiftRight_eq_div_pow]
      exact (congrArg (· &&& 0x000000FF000000FF) hshift).trans
        (mask_pairs (by omega) (by omega) (by omega) (by norm_num))
    generalize pairs &&& 0x000000FF000000FF = pHi at hhi ⊢
    generalize (pairs >>> 16) &&& 0x000000FF000000FF = pLo at hlo ⊢
    have hquads : (pHi * 100 + pLo).toNat =
        lanes 32 [100 * (10 * d0 + d1) + (10 * d2 + d3), 100 * (10 * d4 + d5) + (10 * d6 + d7)] := by
      have hc : (100 : UInt64).toNat = 100 := rfl
      rw [UInt64.toNat_add, UInt64.toNat_mul, hhi, hlo, hc]
      simp only [lanes]
      omega
    generalize pHi * 100 + pLo = quads at hquads ⊢
    have hfirst : (quads &&& 0xFFFFFFFF).toNat = 100 * (10 * d0 + d1) + (10 * d2 + d3) := by
      rw [UInt64.toNat_and, hquads]
      exact mask_fours (by omega)
    have hsecond : (quads >>> 32).toNat = 100 * (10 * d4 + d5) + (10 * d6 + d7) := by
      rw [UInt64.toNat_shiftRight, hquads, Nat.shiftRight_eq_div_pow]
      change _ / 2 ^ 32 = _
      simp only [lanes]
      omega
    have hc : (10000 : UInt64).toNat = 10000 := rfl
    rw [UInt64.toNat_add, UInt64.toNat_mul, hfirst, hsecond, hc]
    omega

end

section

variable {text ds : Bytes} {k : ℕ}

lemma digitsValue_append_list (as bs : Bytes) :
    digitsValue (as ++ bs) = digitsValue as * 10 ^ bs.length + digitsValue bs := by
  induction bs using reverseRecOn with
  | nil => simp [digitsValue]
  | append_singleton bs c ih =>
    rw [← append_assoc, digitsValue_append, ih, digitsValue_append, length_append, length_singleton, pow_succ]
    ring

lemma digitsValue_ge (hc : isDigit c = true) (h0 : c ≠ byte '0') (ds : Bytes) :
    10 ^ ds.length ≤ digitsValue (c :: ds) := by
  have hpos : 1 ≤ digitVal c := by
    have hdigit := (isDigit_iff c).mp hc
    have hne : c.toNat ≠ 48 := fun h => h0 (UInt8.toNat_inj.mp h)
    rw [digitVal]
    omega
  have hsplit := digitsValue_append_list [c] ds
  have hone : digitsValue [c] = digitVal c := by simp [digitsValue]
  rw [singleton_append, hone] at hsplit
  rw [hsplit]
  exact Nat.le_add_right_of_le (Nat.le_mul_of_pos_left _ hpos)

lemma takeWhile_of_all {p : UInt8 → Bool} (hk : k ≤ text.length) (h : (text.take k).all p = true) :
    k ≤ (text.takeWhile p).length ∧ (text.takeWhile p).take k = text.take k ∧ (text.takeWhile p).drop k =
    (text.drop k).takeWhile p := by
  have hall := all_eq_true.mp h
  have hlen : (text.take k).length = k := length_take_of_le hk
  have hsplit : text.takeWhile p = text.take k ++ (text.drop k).takeWhile p := by
    conv_lhs => rw [← take_append_drop k text]
    exact takeWhile_append_of_pos hall
  rw [hsplit]
  refine ⟨?_, take_left' hlen, drop_left' hlen⟩
  rw [length_append, hlen]
  exact Nat.le_add_right k _

lemma rayIs8Digits_take (p : Bytes) : rayIs8Digits (p.take 8) = rayIs8Digits p := by
  have hload : loadWord (p.take 8) = loadWord p := by
    rw [loadWord, take_take, min_self]
    rfl
  rw [rayIs8Digits, hload]
  rfl

lemma rayParse8Digits_take (p : Bytes) : rayParse8Digits (p.take 8) = rayParse8Digits p := by
  have hload : loadWord (p.take 8) = loadWord p := by
    rw [loadWord, take_take, min_self]
    rfl
  rw [rayParse8Digits, hload]
  rfl

lemma chunk_spec (hlen : 8 ≤ text.length) (h : rayIs8Digits text = true) :
    8 ≤ (text.takeWhile isDigit).length ∧ (text.takeWhile isDigit).drop 8 = (text.drop 8).takeWhile isDigit ∧
      (rayParse8Digits text).toNat = digitsValue ((text.takeWhile isDigit).take 8) := by
  have htake : (text.take 8).length = 8 := length_take_of_le hlen
  have hall : (text.take 8).all isDigit = true := by
    rw [← rayIs8Digits_eq htake, rayIs8Digits_take, h]
  obtain ⟨hle, hfront, hrest⟩ := takeWhile_of_all hlen hall
  refine ⟨hle, hrest, ?_⟩
  rw [hfront, ← rayParse8Digits_take, rayParse8Digits_eq htake hall]

lemma swarDigits_spec (text : Bytes) :
    (swarDigits text).1 ≤ 16 ∧ (swarDigits text).1 ≤ (text.takeWhile isDigit).length ∧
      (text.takeWhile isDigit).drop (swarDigits text).1 = (text.drop (swarDigits text).1).takeWhile isDigit ∧
      (swarDigits text).2.toNat = digitsValue ((text.takeWhile isDigit).take (swarDigits text).1) := by
  rw [swarDigits]
  by_cases hfirst : 8 ≤ text.length ∧ rayIs8Digits text = true
  swap
  · rw [if_neg hfirst]
    exact ⟨Nat.zero_le _, Nat.zero_le _, rfl, rfl⟩
  rw [if_pos hfirst]
  obtain ⟨hle, hdrop, hvalue⟩ := chunk_spec hfirst.1 hfirst.2
  dsimp only
  by_cases hsecond : 8 ≤ (text.drop 8).length ∧ rayParse8Digits text ≤ 922337203 ∧
    rayIs8Digits (text.drop 8) = true
  swap
  · rw [if_neg hsecond]
    exact ⟨by norm_num, hle, hdrop, hvalue⟩
  rw [if_pos hsecond]
  obtain ⟨hle', hdrop', hvalue'⟩ := chunk_spec hsecond.1 hsecond.2.2
  rw [← hdrop] at hle' hdrop' hvalue'
  rw [length_drop] at hle'
  refine ⟨le_rfl, by dsimp only; omega, ?_, ?_⟩
  · rw [drop_drop, drop_drop] at hdrop'
    exact hdrop'
  · have hsum : (text.takeWhile isDigit).take 16 = (text.takeWhile isDigit).take 8 ++
        ((text.takeWhile isDigit).drop 8).take 8 :=
      take_add (i := 8) (j := 8)
    have hlen : (((text.takeWhile isDigit).drop 8).take 8).length = 8 := by
      rw [length_take, length_drop]
      omega
    have hdigits : ∀ j, ∀ c ∈ ((text.takeWhile isDigit).drop j).take 8, isDigit c = true := fun j c hc =>
      all_eq_true.mp all_takeWhile c (mem_of_mem_drop (mem_of_mem_take hc))
    have hlow := digitsValue_lt (hdigits 8)
    have hhigh := digitsValue_lt (hdigits 0)
    have hc : (100000000 : UInt64).toNat = 100000000 := rfl
    rw [hlen] at hlow
    rw [drop_zero, length_take, min_eq_left hle] at hhigh
    rw [UInt64.toNat_add, UInt64.toNat_mul, hvalue, hvalue', hc, hsum, digitsValue_append_list, hlen]
    omega

lemma scalarTail_spec (cs : Bytes) {sig : ℕ} {result : UInt64} (hsig : sig ≤ 19) (hr : result.toNat < 10 ^ sig) :
    (sig + (cs.takeWhile isDigit).length ≤ 19 → ∃ value : UInt64,
      scalarTail cs sig result = some (sig + (cs.takeWhile isDigit).length, value) ∧
      value.toNat = result.toNat * 10 ^ (cs.takeWhile isDigit).length + digitsValue (cs.takeWhile isDigit)) ∧
    (19 < sig + (cs.takeWhile isDigit).length → scalarTail cs sig result = none) := by
  induction cs generalizing sig result with
  | nil => exact ⟨fun _ => ⟨result, rfl, by simp [digitsValue]⟩, fun h => absurd h (by simpa using hsig)⟩
  | cons c cs ih =>
    rw [scalarTail, isDigitByte_eq]
    by_cases hc : isDigit c = true
    swap
    · rw [if_neg hc, takeWhile_cons_of_neg hc]
      exact ⟨fun _ => ⟨result, rfl, by simp [digitsValue]⟩, fun h => absurd h (by simpa using hsig)⟩
    rw [if_pos hc, takeWhile_cons_of_pos hc, length_cons]
    by_cases hcap : 19 ≤ sig
    · rw [if_pos hcap]
      exact ⟨fun h => by omega, fun _ => rfl⟩
    rw [if_neg hcap]
    have hpow : 10 ^ sig ≤ 10 ^ 18 := Nat.pow_le_pow_right (by norm_num) (by omega)
    have hdigit : (c - byte '0').toUInt64.toNat = digitVal c ∧ digitVal c ≤ 9 := by
      have hrange := (isDigit_iff c).mp hc
      have h0 : (byte '0').toNat = 48 := by decide
      rw [UInt8.toNat_toUInt64, UInt8.toNat_sub, h0, digitVal]
      omega
    have hten : (10 : UInt64).toNat = 10 := rfl
    have hnext : (result * 10 + (c - byte '0').toUInt64).toNat = result.toNat * 10 + digitVal c := by
      rw [UInt64.toNat_add, UInt64.toNat_mul, hdigit.1, hten]
      omega
    have hmono : ¬ result * 10 + (c - byte '0').toUInt64 < result := by
      rw [UInt64.lt_iff_toNat_lt, hnext]
      omega
    have hbound : (result * 10 + (c - byte '0').toUInt64).toNat < 10 ^ (sig + 1) := by
      rw [hnext, pow_succ]
      omega
    dsimp only
    rw [if_neg hmono]
    obtain ⟨hfew, hmany⟩ := ih (by omega) hbound
    have hvalue : digitsValue (c :: cs.takeWhile isDigit) =
        digitVal c * 10 ^ (cs.takeWhile isDigit).length + digitsValue (cs.takeWhile isDigit) := by
      have hone : digitsValue [c] = digitVal c := by simp [digitsValue]
      have hsplit := digitsValue_append_list [c] (cs.takeWhile isDigit)
      rwa [singleton_append, hone] at hsplit
    refine ⟨fun h => ?_, fun h => hmany (by omega)⟩
    obtain ⟨value, heq, hval⟩ := hfew (by omega)
    refine ⟨value, ?_, ?_⟩
    · rw [heq, Nat.add_assoc, Nat.add_comm 1]
    · rw [hval, hnext, hvalue, pow_succ]
      ring

lemma significant_spec (text : Bytes) : ((text.takeWhile isDigit).length ≤ 19 → ∃ value : UInt64,
      scalarTail (text.drop (swarDigits text).1) (swarDigits text).1 (swarDigits text).2 =
        some ((text.takeWhile isDigit).length, value) ∧
      value.toNat = digitsValue (text.takeWhile isDigit)) ∧ (19 < (text.takeWhile isDigit).length →
      scalarTail (text.drop (swarDigits text).1) (swarDigits text).1 (swarDigits text).2 = none) := by
  obtain ⟨hmax, hle, hdrop, hvalue⟩ := swarDigits_spec text
  have hlen : (swarDigits text).1 + ((text.drop (swarDigits text).1).takeWhile isDigit).length =
      (text.takeWhile isDigit).length := by
    rw [← hdrop, length_drop]
    omega
  have hbound : (swarDigits text).2.toNat < 10 ^ (swarDigits text).1 := by
    have hdigits : ∀ c ∈ (text.takeWhile isDigit).take (swarDigits text).1, isDigit c := fun c hc =>
      all_eq_true.mp all_takeWhile c (mem_of_mem_take hc)
    have hlt := digitsValue_lt hdigits
    rwa [length_take, min_eq_left hle, ← hvalue] at hlt
  obtain ⟨hfew, hmany⟩ := scalarTail_spec (text.drop (swarDigits text).1) (by omega) hbound
  rw [hlen] at hfew hmany
  refine ⟨fun h => ?_, hmany⟩
  obtain ⟨value, heq, hval⟩ := hfew h
  refine ⟨value, heq, ?_⟩
  rw [hval, ← hdrop, hvalue, ← digitsValue_append_list, take_append_drop]

end

section

variable {src w : Bytes}

def IsSign (s : Bytes) : Prop := s = [] ∨ s = [byte '-'] ∨ s = [byte '+']

def IsLiteral (w : Bytes) : Prop := ∃ s ds, IsSign s ∧ ds ≠ [] ∧ (∀ c ∈ ds, isDigit c = true) ∧ w = s ++ ds

def literalValue (w : Bytes) : ℤ :=
  if w.head? = some (byte '-') then -(digitsValue (w.drop 1) : ℤ)
  else if w.head? = some (byte '+') then digitsValue (w.drop 1)
  else digitsValue w

def LongestLiteral (w src : Bytes) : Prop :=
  w <+: src ∧ IsLiteral w ∧ ∀ w', w' <+: src → IsLiteral w' → w'.length ≤ w.length

def Fits (v : ℤ) : Prop := -2 ^ 63 ≤ v ∧ v ≤ 2 ^ 63 - 1

lemma leadingZeros_spec (text : Bytes) :
    leadingZeros text ≤ text.length ∧ text.take (leadingZeros text) =
      List.replicate (leadingZeros text) (byte '0') ∧
      (text.drop (leadingZeros text)).head? ≠ some (byte '0') := by
  induction text with
  | nil => exact ⟨le_rfl, rfl, nofun⟩
  | cons c cs ih =>
    rw [leadingZeros]
    by_cases hc : c = byte '0'
    · obtain ⟨hle, htake, hhead⟩ := ih
      rw [if_pos hc, length_cons, take_succ_cons, replicate_succ, htake, hc]
      exact ⟨Nat.succ_le_succ hle, rfl, hhead⟩
    · rw [if_neg hc]
      exact ⟨Nat.zero_le _, rfl, by simpa using hc⟩

lemma digitsValue_zeros (n : ℕ) : digitsValue (List.replicate n (byte '0')) = 0 := by
  induction n with
  | zero => rfl
  | succ n ih =>
    have h0 : digitVal (byte '0') = 0 := by decide
    rw [replicate_succ', digitsValue_append, ih, h0]

lemma stripped_spec (body : Bytes) :
    (body.takeWhile isDigit).length =
      leadingZeros body + ((body.drop (leadingZeros body)).takeWhile isDigit).length ∧
      digitsValue (body.takeWhile isDigit) = digitsValue ((body.drop (leadingZeros body)).takeWhile isDigit) ∧
      (19 < ((body.drop (leadingZeros body)).takeWhile isDigit).length →
        10 ^ 19 ≤ digitsValue (body.takeWhile isDigit)) := by
  obtain ⟨hle, htake, hhead⟩ := leadingZeros_spec body
  have hall : (body.take (leadingZeros body)).all isDigit = true := by
    rw [htake, List.all_eq_true]
    intro c hc
    rw [eq_of_mem_replicate hc]
    decide
  obtain ⟨hlen, hfront, hrest⟩ := takeWhile_of_all hle hall
  have hvalue : digitsValue (body.takeWhile isDigit) =
      digitsValue ((body.drop (leadingZeros body)).takeWhile isDigit) := by
    rw [← take_append_drop (leadingZeros body) (body.takeWhile isDigit), digitsValue_append_list, hfront, htake,
      digitsValue_zeros, hrest, Nat.zero_mul, Nat.zero_add]
  refine ⟨?_, hvalue, fun hlong => ?_⟩
  · rw [← hrest, length_drop]
    omega
  · rw [hvalue]
    cases hds : (body.drop (leadingZeros body)).takeWhile isDigit with
    | nil =>
      rw [hds] at hlong
      cases hlong
    | cons c ds =>
      rw [hds, length_cons] at hlong
      have hc : isDigit c = true := List.all_eq_true.mp all_takeWhile c (by rw [hds]; exact mem_cons_self)
      have hne : c ≠ byte '0' := by
        rintro rfl
        have hfirst := head?_takeWhile (p := isDigit) (l := body.drop (leadingZeros body))
        rw [hds, head?_cons, eq_comm, filter_eq_some_iff] at hfirst
        exact hhead hfirst.1
      exact (Nat.pow_le_pow_right (by norm_num) (by omega)).trans (digitsValue_ge hc hne ds)

lemma toInt_toInt64 (r : UInt64) :
    r.toInt64.toInt = if r.toNat < 2 ^ 63 then (r.toNat : ℤ) else (r.toNat : ℤ) - 2 ^ 64 := by
  change r.toBitVec.toInt = _
  rw [BitVec.toInt_eq_toNat_cond]
  change (if 2 * r.toNat < 2 ^ 64 then _ else _) = _
  by_cases h : r.toNat < 2 ^ 63
  · rw [if_pos h, if_pos (by omega)]
    rfl
  · rw [if_neg h, if_neg (by omega)]
    rfl

lemma rayParseI64_digits (src : Bytes) (v : ℤ)
    (hv : v = if src.getD 0 0 = byte '-' then -(digitsValue ((src.drop (signLen src)).takeWhile isDigit) : ℤ)
      else digitsValue ((src.drop (signLen src)).takeWhile isDigit)) :
    ((src.drop (signLen src)).takeWhile isDigit = [] → rayParseI64 src = none) ∧
    ((src.drop (signLen src)).takeWhile isDigit ≠ [] → Fits v →
      ∃ dst, rayParseI64 src = some (signLen src + ((src.drop (signLen src)).takeWhile isDigit).length, dst) ∧
        dst.toInt = v) ∧
    ((src.drop (signLen src)).takeWhile isDigit ≠ [] → ¬ Fits v → rayParseI64 src = none) := by
  rw [rayParseI64]
  by_cases hempty : src.length = 0
  · obtain rfl := eq_nil_of_length_eq_zero hempty
    rw [if_pos hempty]
    exact ⟨fun _ => rfl, fun h => absurd rfl h, fun _ _ => rfl⟩
  rw [if_neg hempty]
  dsimp only
  by_cases hsign : signLen src = src.length
  · have hnil : src.drop (signLen src) = [] := drop_eq_nil_of_le hsign.ge
    rw [if_pos hsign, hnil]
    exact ⟨fun _ => rfl, fun h => absurd rfl h, fun _ _ => rfl⟩
  rw [if_neg hsign]
  generalize hbody : src.drop (signLen src) = body at hv ⊢
  obtain ⟨hlen, hvalue, hbig⟩ := stripped_spec body
  obtain ⟨hfew, hmany⟩ := significant_spec (body.drop (leadingZeros body))
  have hdrop : ∀ k, src.drop (signLen src + leadingZeros body + k) = (body.drop (leadingZeros body)).drop k := by
    intro k
    rw [← hbody, drop_drop, drop_drop, Nat.add_assoc]
  have hstart := hdrop 0
  rw [Nat.add_zero, drop_zero] at hstart
  rw [hstart, hdrop]
  by_cases hlong : 19 < ((body.drop (leadingZeros body)).takeWhile isDigit).length
  · rw [hmany hlong]
    have hten := hbig hlong
    refine ⟨fun _ => rfl, fun _ hfit => absurd hfit ?_, fun _ _ => rfl⟩
    rw [Fits, hv]
    split <;> omega
  obtain ⟨value, heq, hval⟩ := hfew (not_lt.mp hlong)
  rw [heq]
  dsimp only
  rw [← hvalue] at hval
  rw [← hval] at hv
  have hi : signLen src + leadingZeros body + ((body.drop (leadingZeros body)).takeWhile isDigit).length =
      signLen src + (body.takeWhile isDigit).length := by omega
  rw [hi]
  by_cases hnone : body.takeWhile isDigit = []
  · rw [if_pos (by rw [hnone]; rfl)]
    exact ⟨fun _ => rfl, fun h => absurd hnone h, fun _ _ => rfl⟩
  have hpos := length_pos_of_ne_nil hnone
  have hword := value.toNat_lt
  rw [if_neg (by omega)]
  refine ⟨fun h => absurd h hnone, fun _ hfit => ?_, fun _ hfit => ?_⟩
  · rw [Fits] at hfit
    by_cases hneg : src.getD 0 0 = byte '-'
    · rw [if_pos hneg] at hv ⊢
      have hle : ¬ (0x7FFFFFFFFFFFFFFF + 1 : UInt64) < value := by
        rw [UInt64.lt_iff_toNat_lt]
        change ¬ 2 ^ 63 < value.toNat
        omega
      rw [if_neg hle]
      refine ⟨_, rfl, ?_⟩
      have hsub : (0 - value).toNat = (2 ^ 64 - value.toNat) % 2 ^ 64 := UInt64.toNat_sub 0 value
      rw [toInt_toInt64, hsub, hv]
      split <;> omega
    · rw [if_neg hneg] at hv ⊢
      have hle : ¬ (0x7FFFFFFFFFFFFFFF : UInt64) < value := by
        rw [UInt64.lt_iff_toNat_lt]
        change ¬ 2 ^ 63 - 1 < value.toNat
        omega
      rw [if_neg hle]
      refine ⟨_, rfl, ?_⟩
      rw [toInt_toInt64, hv, if_pos (by omega)]
  · rw [Fits] at hfit
    by_cases hneg : src.getD 0 0 = byte '-'
    · rw [if_pos hneg] at hv ⊢
      refine if_pos ?_
      rw [UInt64.lt_iff_toNat_lt]
      change 2 ^ 63 < value.toNat
      omega
    · rw [if_neg hneg] at hv ⊢
      refine if_pos ?_
      rw [UInt64.lt_iff_toNat_lt]
      change 2 ^ 63 - 1 < value.toNat
      omega

lemma signLen_cons (c : UInt8) (rest : Bytes) :
    signLen (c :: rest) = if c = byte '-' ∨ c = byte '+' then 1 else 0 := by
  rw [signLen, getD_cons_zero]
  by_cases hminus : c = byte '-'
  · rw [if_pos hminus, if_pos (.inl hminus)]
  by_cases hplus : c = byte '+'
  · rw [if_neg hminus, if_pos hplus, if_pos (.inr hplus)]
  · rw [if_neg hminus, if_neg hplus, if_neg (by tauto)]

lemma take_isSign (src : Bytes) : IsSign (src.take (signLen src)) := by
  cases src with
  | nil => exact .inl rfl
  | cons c rest =>
    rw [signLen_cons]
    by_cases hc : c = byte '-' ∨ c = byte '+'
    · rw [if_pos hc]
      obtain rfl | rfl := hc
      · exact .inr (.inl rfl)
      · exact .inr (.inr rfl)
    · rw [if_neg hc]
      exact .inl rfl

lemma sign_of_digit (hc : isDigit c = true) : ¬ (c = byte '-' ∨ c = byte '+') := by
  rintro (rfl | rfl) <;> exact absurd hc (by decide)

lemma literal_prefix (h : w <+: src) (hw : IsLiteral w) :
    ∃ ds, ds ≠ [] ∧ w = src.take (signLen src) ++ ds ∧ ds <+: (src.drop (signLen src)).takeWhile isDigit := by
  obtain ⟨s, ds, hs, hne, hdigits, rfl⟩ := hw
  obtain ⟨rest, rfl⟩ := h
  have hfront : ds <+: (ds ++ rest).takeWhile isDigit := by
    rw [takeWhile_append_of_pos hdigits]
    exact prefix_append _ _
  refine ⟨ds, hne, ?_⟩
  obtain rfl | rfl | rfl := hs
  · obtain ⟨c, tail, rfl⟩ := exists_cons_of_ne_nil hne
    have hzero : signLen ([] ++ c :: tail ++ rest) = 0 := by
      rw [nil_append, cons_append, signLen_cons, if_neg (sign_of_digit (hdigits c mem_cons_self))]
    rw [hzero]
    exact ⟨rfl, hfront⟩
  · have hone : signLen ([byte '-'] ++ ds ++ rest) = 1 := by
      rw [append_assoc, singleton_append, signLen_cons, if_pos (.inl rfl)]
    rw [hone]
    exact ⟨rfl, hfront⟩
  · have hone : signLen ([byte '+'] ++ ds ++ rest) = 1 := by
      rw [append_assoc, singleton_append, signLen_cons, if_pos (.inr rfl)]
    rw [hone]
    exact ⟨rfl, hfront⟩

lemma longest_digits (h : (src.drop (signLen src)).takeWhile isDigit ≠ []) :
    LongestLiteral (src.take (signLen src) ++ (src.drop (signLen src)).takeWhile isDigit) src := by
  refine ⟨?_, ⟨_, _, take_isSign src, h, fun c hc => all_eq_true.mp all_takeWhile c hc, rfl⟩,
    fun w' hpre hw' => ?_⟩
  · conv_rhs => rw [← take_append_drop (signLen src) src]
    rw [prefix_append_right_inj]
    exact takeWhile_prefix _
  · obtain ⟨ds, -, rfl, hds⟩ := literal_prefix hpre hw'
    rw [length_append, length_append]
    exact Nat.add_le_add_left hds.length_le _

lemma longest_eq (hw : LongestLiteral w src) :
    (src.drop (signLen src)).takeWhile isDigit ≠ [] ∧
      w = src.take (signLen src) ++ (src.drop (signLen src)).takeWhile isDigit := by
  obtain ⟨hpre, hlit, hmax⟩ := hw
  obtain ⟨ds, hne, rfl, hds⟩ := literal_prefix hpre hlit
  have hdigits : (src.drop (signLen src)).takeWhile isDigit ≠ [] := by
    intro hnil
    rw [hnil] at hds
    exact hne (prefix_nil.mp hds)
  have hlongest := longest_digits hdigits
  have hle := hmax _ hlongest.1 hlongest.2.1
  rw [length_append, length_append] at hle
  have heq := hds.eq_of_length (le_antisymm hds.length_le (by omega))
  exact ⟨hdigits, by rw [heq]⟩

lemma literalValue_digits (src : Bytes) (h : (src.drop (signLen src)).takeWhile isDigit ≠ []) :
    literalValue (src.take (signLen src) ++ (src.drop (signLen src)).takeWhile isDigit) =
      if src.getD 0 0 = byte '-' then -(digitsValue ((src.drop (signLen src)).takeWhile isDigit) : ℤ)
      else digitsValue ((src.drop (signLen src)).takeWhile isDigit) := by
  cases src with
  | nil => exact absurd rfl h
  | cons c rest =>
    rw [signLen_cons, getD_cons_zero] at *
    by_cases hminus : c = byte '-'
    · rw [if_pos (.inl hminus), if_pos hminus, hminus]
      exact if_pos rfl
    by_cases hplus : c = byte '+'
    · rw [if_pos (.inr hplus), if_neg hminus, hplus]
      rfl
    · have hsign : ¬ (c = byte '-' ∨ c = byte '+') := by tauto
      rw [if_neg hsign] at h ⊢
      rw [if_neg hminus, take_zero, nil_append, drop_zero]
      rw [drop_zero] at h
      obtain ⟨d, ds, hds⟩ := exists_cons_of_ne_nil h
      have hd : isDigit d = true := all_eq_true.mp all_takeWhile d (by rw [hds]; exact mem_cons_self)
      rw [hds, literalValue, head?_cons, if_neg, if_neg]
      · exact fun he => sign_of_digit hd (.inr (some.inj he))
      · exact fun he => sign_of_digit hd (.inl (some.inj he))

/-- The scanner takes the longest literal in front when it fits. -/
theorem rayParseI64_longest (src : Bytes) :
    (∀ w, LongestLiteral w src → Fits (literalValue w) → ∃ dst, rayParseI64 src = some (w.length, dst) ∧
      dst.toInt = literalValue w) ∧
    (∀ w, LongestLiteral w src → ¬ Fits (literalValue w) → rayParseI64 src = none) ∧
    ((∀ w, w <+: src → ¬ IsLiteral w) → rayParseI64 src = none) ∧
    ((∃ w, LongestLiteral w src) ∨ ∀ w, w <+: src → ¬ IsLiteral w) ∧
    ∀ p : Bytes, p.length = 8 → rayIs8Digits p = p.all isDigit ∧
    (p.all isDigit = true → (rayParse8Digits p).toNat = digitsValue p) := by
  obtain ⟨hempty, hfits, hbig⟩ := rayParseI64_digits src _ rfl
  refine ⟨fun w hw hfit => ?_, fun w hw hfit => ?_, fun hno => hempty ?_, ?_, fun p hp =>
    ⟨rayIs8Digits_eq hp, rayParse8Digits_eq hp⟩⟩
  · obtain ⟨hne, rfl⟩ := longest_eq hw
    have hsign : (src.take (signLen src)).length = signLen src := by
      refine length_take_of_le ?_
      by_contra hlt
      rw [drop_eq_nil_of_le (by omega)] at hne
      exact hne rfl
    rw [literalValue_digits src hne] at hfit ⊢
    rw [length_append, hsign]
    exact hfits hne hfit
  · obtain ⟨hne, rfl⟩ := longest_eq hw
    rw [literalValue_digits src hne] at hfit
    exact hbig hne hfit
  · by_contra hne
    have hlongest := longest_digits hne
    exact hno _ hlongest.1 hlongest.2.1
  · by_cases hne : (src.drop (signLen src)).takeWhile isDigit = []
    · refine .inr fun w hpre hw => ?_
      obtain ⟨ds, hds, -, hfront⟩ := literal_prefix hpre hw
      rw [hne] at hfront
      exact hds (prefix_nil.mp hfront)
    · exact .inl ⟨_, longest_digits hne⟩

-- the bytes of "-0012.5"
def sample : Bytes := [45, 48, 48, 49, 50, 46, 53]

theorem rayParseI64_longest_sample :
    ∃ dst, rayParseI64 sample = some ([45, 48, 48, 49, 50].length, dst) ∧
      dst.toInt = literalValue [45, 48, 48, 49, 50] :=
  (rayParseI64_longest sample).1 [45, 48, 48, 49, 50] (@longest_digits sample (by decide)) ⟨by decide, by decide⟩

end

end Rayforce.Lang.Numparse
