import Mathlib

/-! Reading a text that ends in a NUL byte. -/

namespace Rayforce.Library.Reading

open List Option

abbrev Text := List UInt8

inductive Stop (ε : Type)
  | pastEnd
  | stack
  | fuel
  | error (e : ε)
deriving DecidableEq

abbrev Outcome (ε α : Type) := Except (Stop ε) α

variable {ε α β : Type}

def peek (rest : Text) (k : ℕ) : Outcome ε UInt8 :=
  if k ≤ rest.length then .ok (rest.getD k 0) else .error .pastEnd

def skip (rest : Text) (k : ℕ) : Outcome ε Text :=
  if k ≤ rest.length then .ok (rest.drop k) else .error .pastEnd

def scan (p : UInt8 → Bool) : Text → Outcome ε Text
  | [] => if p 0 then .error .pastEnd else .ok []
  | c :: cs => if p c then scan p cs else .ok (c :: cs)

def looksAt : List (UInt8 → Bool) → Text → Outcome ε Bool
  | [], _ => .ok true
  | p :: ps, rest => do
    if p (← peek rest 0) then
      looksAt ps (← skip rest 1)
    else
      .ok false

def attempt (x : Outcome Unit α) : Outcome ε (Option α) :=
  match x with
  | .ok a => .ok (some a)
  | .error (.error _) => .ok none
  | .error .pastEnd => .error .pastEnd
  | .error .stack => .error .stack
  | .error .fuel => .error .fuel

def Safe (x : Outcome ε α) (P : α → Prop) : Prop :=
  match x with
  | .ok a => P a
  | .error (.error _) => True
  | .error _ => False

def Left (n : ℕ) (start rest : Text) : Prop := rest <:+ start ∧ rest.length + n ≤ start.length

section

variable {x : Outcome ε α} {f : α → Outcome ε β} {P : α → Prop} {Q : β → Prop}

lemma Safe.ok {a : α} (h : P a) : Safe (.ok a : Outcome ε α) P := h

lemma Safe.pure {a : α} (h : P a) : Safe (Pure.pure a : Outcome ε α) P := h

lemma Safe.error (e : ε) : Safe (.error (.error e) : Outcome ε α) P := trivial

lemma Safe.bind (h : Safe x P) (hf : ∀ a, P a → Safe (f a) Q) : Safe (x >>= f) Q := by
  cases x with
  | ok a => exact hf a h
  | error s =>
    cases s with
    | error e => trivial
    | _ => exact h.elim

lemma Safe.mono {P' : α → Prop} (h : Safe x P) (hp : ∀ a, P a → P' a) : Safe x P' := by
  cases x with
  | ok a => exact hp a h
  | error s =>
    cases s with
    | error e => trivial
    | _ => exact h.elim

lemma Safe.attempt {x : Outcome Unit α} (h : Safe x P) :
    Safe (attempt x : Outcome ε (Option α)) fun o => ∀ a, o = some a → P a := by
  cases x with
  | ok a =>
    rintro b hb
    rw [← some.inj hb]
    exact h
  | error s =>
    cases s with
    | error e => exact nofun
    | _ => exact h.elim

lemma Safe.of_eq {a : α} (h : Safe x P) (hx : x = .ok a) : P a := by
  subst hx
  exact h

lemma Safe.ite {c : Prop} [Decidable c] {y : Outcome ε α} (ht : c → Safe x P) (he : ¬c → Safe y P) :
    Safe (if c then x else y) P := by
  by_cases hc : c
  · rw [if_pos hc]
    exact ht hc
  · rw [if_neg hc]
    exact he hc

end

section

variable {start mid rest : Text} {n m k : ℕ} {p : UInt8 → Bool}

lemma Left.refl (rest : Text) : Left 0 rest rest := ⟨suffix_rfl, le_rfl⟩

lemma Left.trans (h : Left n start mid) (h' : Left m mid rest) : Left (n + m) start rest :=
  ⟨h'.1.trans h.1, by have := h.2; have := h'.2; omega⟩

lemma Left.weaken (h : Left n start rest) (hm : m ≤ n) : Left m start rest :=
  ⟨h.1, by have := h.2; omega⟩

lemma left_drop (h : k ≤ rest.length) : Left k rest (rest.drop k) :=
  ⟨drop_suffix k rest, by rw [length_drop]; omega⟩

lemma getD_eq_zero (h : rest.length ≤ k) : rest.getD k 0 = 0 := by
  rw [getD_eq_getElem?_getD, getElem?_eq_none h, getD_none]

lemma safe_peek (h : k ≤ rest.length) :
    Safe (peek rest k : Outcome ε UInt8) fun c => c = rest.getD k 0 ∧ (c ≠ 0 → k < rest.length) := by
  rw [peek, if_pos h]
  refine ⟨rfl, fun hc => ?_⟩
  by_contra hk
  exact hc (getD_eq_zero (not_lt.mp hk))

lemma safe_skip (h : k ≤ rest.length) : Safe (skip rest k : Outcome ε Text) fun r =>
    r = rest.drop k ∧ Left k rest r := by
  rw [skip, if_pos h]
  exact ⟨rfl, left_drop h⟩

lemma safe_scan (hp : p 0 = false) : Safe (scan p rest : Outcome ε Text) fun r =>
    r = rest.dropWhile p ∧ Left 0 rest r := by
  induction rest with
  | nil =>
    rw [scan, hp]
    exact ⟨rfl, Left.refl []⟩
  | cons c cs ih =>
    rw [scan]
    cases hc : p c with
    | true =>
      refine ih.mono fun r hr => ⟨?_, ?_⟩
      · rw [dropWhile_cons_of_pos hc]
        exact hr.1
      · have h := hr.2
        exact ⟨h.1.trans (suffix_cons c cs), by have := h.2; simp only [length_cons]; omega⟩
    | false =>
      refine ⟨?_, Left.refl _⟩
      rw [dropWhile_cons_of_neg (by simp [hc])]

lemma safe_looksAt {ps : List (UInt8 → Bool)} (hps : ∀ p ∈ ps, p 0 = false) :
    Safe (looksAt ps rest : Outcome ε Bool) fun b => b = true →
      ps.length ≤ rest.length ∧ List.Forall₂ (fun (p : UInt8 → Bool) c => p c = true) ps
        (rest.take ps.length) := by
  induction ps generalizing rest with
  | nil => exact fun _ => ⟨Nat.zero_le _, by simp⟩
  | cons p ps ih =>
    rw [looksAt]
    refine (safe_peek (Nat.zero_le _)).bind fun c hc => ?_
    refine Safe.ite (fun hpc => ?_) fun _ => Safe.ok nofun
    have hlt : 0 < rest.length := hc.2 fun h0 => by
      rw [h0, hps p mem_cons_self] at hpc
      cases hpc
    refine (safe_skip hlt).bind fun r hr => ?_
    refine (ih fun q hq => hps q (mem_cons_of_mem _ hq)).mono fun b hb hbt => ?_
    obtain ⟨a, as, rfl⟩ := exists_cons_of_length_pos hlt
    obtain ⟨hlen, hall⟩ := hb hbt
    have ha : c = a := hc.1
    have hr' : r = as := hr.1
    rw [hr'] at hlen hall
    rw [ha] at hpc
    exact ⟨by simpa using hlen, .cons hpc hall⟩

end

end Rayforce.Library.Reading
