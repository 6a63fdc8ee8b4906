import Mathlib

/-! Little-endian words over byte lists. -/

namespace Rayforce.Library.Words

abbrev Bytes := List UInt8

def leBytes : ℕ → ℕ → Bytes
  | 0, _ => []
  | k + 1, n => UInt8.ofNat (n % 256) :: leBytes k (n / 256)

def leNat : Bytes → ℕ
  | [] => 0
  | b :: bs => b.toNat + 256 * leNat bs

def leInt (bs : Bytes) : ℤ :=
  if 2 * leNat bs < 256 ^ bs.length then leNat bs else (leNat bs : ℤ) - 256 ^ bs.length

instance lawfulBEqBytes : LawfulBEq Bytes := inferInstance

@[simp] lemma leBytes_length (k n : ℕ) : (leBytes k n).length = k := by
  induction k generalizing n with
  | zero => rfl
  | succ k ih => simp [leBytes, ih]

lemma leBytes_eight (n : ℕ) : (leBytes 8 n).length = 8 := leBytes_length 8 n

lemma leNat_lt (bs : Bytes) : leNat bs < 256 ^ bs.length := by
  induction bs with
  | nil => simp [leNat]
  | cons b bs ih =>
    have hb : b.toNat < 256 := b.toNat_lt
    simp only [leNat, List.length_cons, pow_succ]
    omega

lemma leNat_leBytes (k n : ℕ) (h : n < 256 ^ k) : leNat (leBytes k n) = n := by
  induction k generalizing n with
  | zero => simp at h; simp [leBytes, leNat, h]
  | succ k ih =>
    have hq : n / 256 < 256 ^ k := by
      rw [pow_succ] at h
      exact Nat.div_lt_of_lt_mul (by omega)
    have hr : (UInt8.ofNat (n % 256)).toNat = n % 256 := by simp
    rw [leBytes, leNat, ih _ hq, hr]
    omega

lemma leNat_leBytes_mod (k n : ℕ) : leNat (leBytes k n) = n % 256 ^ k := by
  induction k generalizing n with
  | zero => rw [leBytes, leNat, pow_zero, Nat.mod_one]
  | succ k ih =>
    have hr : (UInt8.ofNat (n % 256)).toNat = n % 256 := by simp
    rw [leBytes, leNat, ih, hr, pow_succ', Nat.mod_mul]

lemma leBytes_leNat (bs : Bytes) : leBytes bs.length (leNat bs) = bs := by
  induction bs with
  | nil => rfl
  | cons b bs ih =>
    have hb : b.toNat < 256 := b.toNat_lt
    have hm : (b.toNat + 256 * leNat bs) % 256 = b.toNat := by omega
    have hd : (b.toNat + 256 * leNat bs) / 256 = leNat bs := by omega
    simp only [List.length_cons, leBytes, leNat, hm, hd, ih]
    simp

lemma leInt_leBytes (k n : ℕ) (h : 2 * n < 256 ^ k) : leInt (leBytes k n) = n := by
  have hn : leNat (leBytes k n) = n := leNat_leBytes k n (by omega)
  simp [leInt, hn, h]

lemma leInt_nonneg (bs : Bytes) (h : 0 ≤ leInt bs) : leInt bs = leNat bs ∧ 2 * leNat bs < 256 ^ bs.length := by
  unfold leInt at h ⊢
  have hl := leNat_lt bs
  split_ifs at h ⊢ with hc
  · exact ⟨rfl, hc⟩
  · have : (leNat bs : ℤ) < 256 ^ bs.length := by exact_mod_cast hl
    omega

end Rayforce.Library.Words
