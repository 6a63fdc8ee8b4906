import Mathlib

/-! A machine word as little-endian fields of one width. -/

namespace Rayforce.Library.Lanes

open List

def lanes (w : ℕ) : List ℕ → ℕ
  | [] => 0
  | x :: xs => x + 2 ^ w * lanes w xs

variable {w x y a b m : ℕ} {xs ms : List ℕ}

lemma lanes_lt (h : ∀ x ∈ xs, x < 2 ^ w) : lanes w xs < (2 ^ w) ^ xs.length := by
  induction xs with
  | nil => simp [lanes]
  | cons x xs ih =>
    rw [forall_mem_cons] at h
    have hrest := Nat.mul_le_mul_left (2 ^ w) (Nat.succ_le_of_lt (ih h.2))
    rw [Nat.mul_succ] at hrest
    rw [lanes, length_cons, pow_succ']
    omega

lemma and_eq_zero_iff (k : ℕ) :
    a &&& b = 0 ↔ (a % 2 ^ k) &&& (b % 2 ^ k) = 0 ∧ (a / 2 ^ k) &&& (b / 2 ^ k) = 0 := by
  rw [← Nat.and_mod_two_pow, ← Nat.and_div_two_pow]
  constructor
  · intro h
    rw [h]
    exact ⟨Nat.zero_mod _, Nat.zero_div _⟩
  · rintro ⟨hlow, hhigh⟩
    rw [← Nat.mod_add_div (a &&& b) (2 ^ k), hlow, hhigh, Nat.mul_zero]

lemma and_cons (hx : x < 2 ^ w) (hm : m < 2 ^ w) :
    (x + 2 ^ w * a) &&& (m + 2 ^ w * b) = (x &&& m) + 2 ^ w * (a &&& b) := by
  have hlow : ((x + 2 ^ w * a) &&& (m + 2 ^ w * b)) % 2 ^ w = x &&& m := by
    rw [Nat.and_mod_two_pow, Nat.add_mul_mod_self_left, Nat.add_mul_mod_self_left, Nat.mod_eq_of_lt hx,
      Nat.mod_eq_of_lt hm]
  have hhigh : ((x + 2 ^ w * a) &&& (m + 2 ^ w * b)) / 2 ^ w = a &&& b := by
    rw [Nat.and_div_two_pow, Nat.add_mul_div_left _ _ (Nat.two_pow_pos w),
      Nat.add_mul_div_left _ _ (Nat.two_pow_pos w),
      Nat.div_eq_of_lt hx, Nat.div_eq_of_lt hm, Nat.zero_add, Nat.zero_add]
  rw [← Nat.mod_add_div ((x + 2 ^ w * a) &&& (m + 2 ^ w * b)) (2 ^ w), hlow, hhigh]

lemma lanes_and (hlen : xs.length = ms.length) (hx : ∀ x ∈ xs, x < 2 ^ w) (hm : ∀ m ∈ ms, m < 2 ^ w) :
    lanes w xs &&& lanes w ms = lanes w (List.zipWith (· &&& ·) xs ms) := by
  induction xs generalizing ms with
  | nil => rw [lanes, Nat.zero_and, zipWith_nil_left, lanes]
  | cons x xs ih =>
    cases ms with
    | nil => cases hlen
    | cons m ms =>
      rw [forall_mem_cons] at hx hm
      rw [lanes, lanes, and_cons hx.1 hm.1, ih (Nat.succ.inj hlen) hx.2 hm.2]
      rfl

section

def takeEach (lo n s : ℕ) : ℕ := (256 ^ n - lanes 8 (List.replicate n lo) + s) % 256 ^ n

def addEach (up n s : ℕ) : ℕ := (s + lanes 8 (List.replicate n up)) % 256 ^ n

variable {lo up n : ℕ}

lemma replicate_lt (h : x < 256) (n : ℕ) : lanes 8 (List.replicate n x) < 256 ^ n := by
  have hbyte : ∀ y ∈ replicate n x, y < 2 ^ 8 := fun y hy => by
    rw [eq_of_mem_replicate hy]
    exact h
  have hlt := lanes_lt hbyte
  rwa [length_replicate] at hlt

lemma takeEach_mod (hlo : lo < 256) : takeEach lo (n + 1) (x + 2 ^ 8 * a) % 256 = (x + (256 - lo)) % 256 := by
  have hL := replicate_lt hlo n
  rw [takeEach, replicate_succ, lanes, pow_succ' 256 n, Nat.mod_mul_right_mod]
  generalize lanes 8 (replicate n lo) = L at hL ⊢
  generalize 256 ^ n = M at hL ⊢
  omega

lemma takeEach_div (hlo : lo ≤ x) (hx : x < 256) :
    takeEach lo (n + 1) (x + 2 ^ 8 * a) / 256 = takeEach lo n a := by
  have hL := replicate_lt (lt_of_le_of_lt hlo hx) n
  rw [takeEach, replicate_succ, lanes, pow_succ' 256 n, Nat.mod_mul_right_div_self, takeEach]
  generalize lanes 8 (replicate n lo) = L at hL ⊢
  generalize 256 ^ n = M at hL ⊢
  refine congrArg (· % M) ?_
  omega

lemma addEach_mod : addEach up (n + 1) (x + 2 ^ 8 * a) % 256 = (x + up) % 256 := by
  rw [addEach, replicate_succ, lanes, pow_succ' 256 n, Nat.mod_mul_right_mod]
  omega

lemma addEach_div (h : x + up < 256) : addEach up (n + 1) (x + 2 ^ 8 * a) / 256 = addEach up n a := by
  rw [addEach, replicate_succ, lanes, pow_succ' 256 n, Nat.mod_mul_right_div_self, addEach]
  refine congrArg (· % 256 ^ n) ?_
  omega

lemma or_and_eq_zero_iff {c : ℕ} :
    (a ||| b) &&& c = 0 ↔ (a % 256 ||| b % 256) &&& (c % 256) = 0 ∧ (a / 256 ||| b / 256) &&& (c / 256) = 0 := by
  have h := and_eq_zero_iff (a := a ||| b) (b := c) 8
  rwa [Nat.or_mod_two_pow, Nat.or_div_two_pow] at h

lemma range_test {xs : List ℕ} (hlo : lo ≤ 127 - up) (hup : up ≤ 127) (hx : ∀ x ∈ xs, x < 256)
    (hbyte : ∀ x : Fin 256, ((x.val + (256 - lo)) % 256 ||| (x.val + up) % 256) &&& 128 = 0 ↔ lo ≤ x ∧
      x ≤ 127 - up) :
    (takeEach lo xs.length (lanes 8 xs) ||| addEach up xs.length (lanes 8 xs)) &&& lanes 8
    (List.replicate xs.length 128) = 0 ↔
      ∀ x ∈ xs, lo ≤ x ∧ x ≤ 127 - up := by
  induction xs with
  | nil => simp [lanes]
  | cons x xs ih =>
    rw [forall_mem_cons] at hx ⊢
    have hlow : (takeEach lo (xs.length + 1) (x + 2 ^ 8 * lanes 8 xs) % 256 ||| addEach up (xs.length + 1)
      (x + 2 ^ 8 * lanes 8 xs) % 256) &&&
        ((128 + 2 ^ 8 * lanes 8 (replicate xs.length 128)) % 256) = 0 ↔ lo ≤ x ∧ x ≤ 127 - up := by
      have hmask : (128 + 2 ^ 8 * lanes 8 (replicate xs.length 128)) % 256 = 128 := by omega
      rw [takeEach_mod (by omega), addEach_mod, hmask]
      exact hbyte ⟨x, hx.1⟩
    rw [length_cons, replicate_succ, lanes, lanes, or_and_eq_zero_iff, hlow]
    refine and_congr_right fun hin => ?_
    have hmask : (128 + 2 ^ 8 * lanes 8 (replicate xs.length 128)) / 256 = lanes 8 (replicate xs.length 128) := by
      omega
    rw [takeEach_div hin.1 hx.1, addEach_div (by omega), hmask]
    exact ih hx.2

end

end Rayforce.Library.Lanes
