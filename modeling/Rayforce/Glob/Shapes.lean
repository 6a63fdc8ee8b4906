import Rayforce.Glob.Match

/-! The patterns that `ray_glob_compile` turns into one comparison. -/

namespace Rayforce.Glob

open Library.Words Library.Wildcards List Option

def memmem (s needle : Bytes) : Option ℕ := (List.range (s.length + 1)).find? fun k => needle.isPrefixOf (s.drop k)

lemma memmem_some {s needle : Bytes} {k : ℕ} :
    memmem s needle = some k ↔ (k ≤ s.length ∧ needle <+: s.drop k) ∧ ∀ j < k, ¬ needle <+: s.drop j := by
  rw [memmem, find?_range_eq_some, isPrefixOf_iff_prefix, mem_range, Nat.lt_succ_iff]
  simp only [Bool.not_eq_true', Bool.eq_false_iff, ne_eq, isPrefixOf_iff_prefix]
  tauto

lemma memmem_none {s needle : Bytes} : memmem s needle = none ↔ ∀ k ≤ s.length, ¬ needle <+: s.drop k := by
  simp only [memmem, find?_range_eq_none, Bool.not_eq_true', Bool.eq_false_iff, ne_eq, isPrefixOf_iff_prefix,
    Nat.lt_succ_iff]

lemma memmem_isSome {s needle : Bytes} : (memmem s needle).isSome = true ↔ needle <:+: s := by
  rw [← ne_none_iff_isSome, ne_eq, memmem_none]
  push Not
  constructor
  · rintro ⟨k, -, t, ht⟩
    exact ⟨s.take k, t, by rw [append_assoc, ht, take_append_drop]⟩
  · rintro ⟨u, v, rfl⟩
    exact ⟨u.length, by simp only [length_append]; omega, v, by rw [append_assoc, drop_left]⟩

inductive Shape
  | shapeNone | shapeExact | shapePrefix | shapeSuffix | shapeContains | shapeAny
  deriving DecidableEq

structure Compiled where
  shape : Shape
  lit : Bytes

def special (c : UInt8) : Bool := c == starByte || c == anyByte || c == openByte

def classify (leading trailing : Bool) (lit : Bytes) : Compiled :=
  if lit.any special then ⟨.shapeNone, []⟩
  else
    match leading, trailing with
    | true, true => ⟨if lit.length = 0 then .shapeAny else .shapeContains, lit⟩
    | true, false => ⟨.shapeSuffix, lit⟩
    | false, true => ⟨.shapePrefix, lit⟩
    | false, false => ⟨.shapeExact, lit⟩

def rayGlobCompile (p : Bytes) : Compiled :=
  if p.length = 0 then ⟨.shapeExact, []⟩
  else
    let leading := p.head? == some starByte
    let trailing := p.getLast? == some starByte && (decide (1 < p.length) || !leading)
    let lo := if leading then 1 else 0
    let hi := if trailing then p.length - 1 else p.length
    classify leading trailing ((p.take hi).drop lo)

def rayGlobMatchCompiled (c : Compiled) (s : Bytes) : Bool :=
  match c.shape with
  | .shapeAny => true
  | .shapeExact => s.length == c.lit.length && (c.lit.length == 0 || s.take c.lit.length == c.lit)
  | .shapePrefix => decide (c.lit.length ≤ s.length) && (c.lit.length == 0 || s.take c.lit.length == c.lit)
  | .shapeSuffix => decide (c.lit.length ≤ s.length) &&
    (c.lit.length == 0 || s.drop (s.length - c.lit.length) == c.lit)
  | .shapeContains =>
    if c.lit.length = 0 then true
    else if s.length < c.lit.length then false
    else (memmem s c.lit).isSome
  | .shapeNone => false

section

variable {l s : Bytes}

def Plain (l : Bytes) : Prop := ∀ c ∈ l, special c = false

def lits (l : Bytes) : List (Wild UInt8) := l.map fun b => .one (Token.lit b).test

lemma wilds_plain (hl : Plain l) (q : Bytes) : wilds (l ++ q) = lits l ++ wilds q := by
  induction l with
  | nil => rfl
  | cons b l ih =>
    have hb : (¬ b = starByte ∧ ¬ b = anyByte) ∧ ¬ b = openByte := by simpa [special] using hl b mem_cons_self
    rw [cons_append, wilds_lit hb.1.1 hb.1.2 hb.2, ih fun c hc => hl c (mem_cons_of_mem _ hc)]
    rfl

lemma matches_lits (q : List (Wild UInt8)) : Matches (lits l ++ q) s ↔ ∃ t, s = l ++ t ∧ Matches q t := by
  induction l generalizing s with
  | nil => exact ⟨fun h => ⟨s, rfl, h⟩, fun ⟨t, ht, h⟩ => ht ▸ h⟩
  | cons b l ih =>
    cases s with
    | nil =>
      constructor
      · intro h
        cases h
      · rintro ⟨t, ht, -⟩
        exact absurd ht (by simp)
    | cons a s =>
      have hcons : lits (b :: l) ++ q = .one (Token.lit b).test :: (lits l ++ q) := rfl
      rw [hcons, matches_one, ih]
      constructor
      · rintro ⟨hab, t, rfl, h⟩
        exact ⟨t, by rw [beq_iff_eq.mp hab, cons_append], h⟩
      · rintro ⟨t, ht, h⟩
        obtain ⟨rfl, rfl⟩ := cons.inj ht
        exact ⟨beq_self_eq_true a, t, rfl, h⟩

lemma wilds_nil : wilds [] = [] := by simp [wilds, tokens]

lemma matches_exact (hl : Plain l) : Matches (wilds l) s ↔ s = l := by
  have h := wilds_plain hl []
  rw [append_nil, wilds_nil] at h
  rw [h, matches_lits]
  simp [matches_empty]

lemma matches_anything : Matches [Wild.star] s ↔ True :=
  iff_true_intro (matches_star.mpr ⟨s.length, le_rfl, by rw [drop_length]; exact .nil⟩)

lemma matches_stem (hl : Plain l) : Matches (wilds (l ++ [starByte])) s ↔ l <+: s := by
  rw [wilds_plain hl, wilds_star, wilds_nil, matches_lits]
  simp only [matches_anything, and_true]
  exact exists_congr fun t => eq_comm

lemma matches_suffix (hl : Plain l) : Matches (wilds (starByte :: l)) s ↔ l <:+ s := by
  rw [wilds_star, matches_star]
  simp only [matches_exact hl]
  constructor
  · rintro ⟨k, -, hk⟩
    exact hk ▸ drop_suffix k s
  · rintro ⟨u, rfl⟩
    exact ⟨u.length, by simp, drop_left⟩

lemma matches_contains (hl : Plain l) : Matches (wilds (starByte :: (l ++ [starByte]))) s ↔ l <:+: s := by
  rw [wilds_star, matches_star]
  simp only [matches_stem hl]
  rw [← memmem_isSome, ← ne_none_iff_isSome, ne_eq, memmem_none]
  push Not
  rfl

end

inductive Compiles : Bytes → Compiled → Prop
  | exact {l : Bytes} (h : Plain l) : Compiles l ⟨.shapeExact, l⟩
  | initial {l : Bytes} (h : Plain l) : Compiles (l ++ [starByte]) ⟨.shapePrefix, l⟩
  | final {l : Bytes} (h : Plain l) : Compiles (starByte :: l) ⟨.shapeSuffix, l⟩
  | inner {l : Bytes} (h : Plain l) : Compiles (starByte :: (l ++ [starByte])) ⟨.shapeContains, l⟩
  | any : Compiles [starByte, starByte] ⟨.shapeAny, []⟩

section

variable {p s : Bytes} {c : Compiled}

lemma plain_of_any {l : Bytes} (h : ¬ l.any special = true) : Plain l := by
  intro b hb
  exact Bool.eq_false_of_not_eq_true fun hs => h (any_eq_true.mpr ⟨b, hb, hs⟩)

lemma classify_cases (leading trailing : Bool) (l : Bytes) : (classify leading trailing l).shape = .shapeNone ∨
    Compiles ((if leading then [starByte] else []) ++ (l ++ if trailing then [starByte] else []))
    (classify leading trailing l) := by
  by_cases hs : l.any special = true
  · left
    simp only [classify, if_pos hs]
  · have hl := plain_of_any hs
    right
    rw [classify.eq_def, if_neg hs]
    cases leading <;> cases trailing
    · simpa using Compiles.exact hl
    · exact .initial hl
    · simpa using Compiles.final hl
    · by_cases h : l.length = 0
      · obtain rfl := length_eq_zero_iff.mp h
        exact .any
      · simpa [h] using Compiles.inner hl

lemma rayGlobCompile_cases (p : Bytes) :
    (rayGlobCompile p).shape = .shapeNone ∨ Compiles p (rayGlobCompile p) := by
  rcases p with _ | ⟨a, p⟩
  · exact .inr (.exact (by simp [Plain]))
  have hone : (if a = starByte then [starByte] else []) ++ ([a].drop (if a = starByte then 1 else 0)) = [a] := by
    split_ifs with h
    · rw [h]
      rfl
    · rfl
  obtain rfl | ⟨q, z, rfl⟩ := p.eq_nil_or_concat
  · have htrail : (some a == some starByte && (decide (1 < ([a] : Bytes).length) || !(some a == some starByte))) =
      false := by simp
    have h := classify_cases (some a == some starByte) false ([a].drop (if a = starByte then 1 else 0))
    have hc : rayGlobCompile [a] = classify (some a == some starByte) false
        ([a].drop (if a = starByte then 1 else 0)) := by
      simp only [rayGlobCompile, head?_cons, getLast?_singleton, htrail]
      simp
    rw [hc]
    simpa [hone] using h
  · have hlast : (a :: (q ++ [z])).getLast? = some z := by rw [← cons_append, getLast?_concat]
    have hlong : decide (1 < (a :: (q ++ [z])).length) = true := by simp
    have hc : rayGlobCompile (a :: (q ++ [z])) = classify (a == starByte) (z == starByte)
        ([a].drop (if a = starByte then 1 else 0) ++ (q ++ if z = starByte then [] else [z])) := by
      rw [rayGlobCompile]
      simp only [head?_cons, hlast, hlong]
      have htake : (q ++ [z]).take (q.length + 1) = q ++ [z] := take_of_length_le (by simp)
      by_cases ha : a = starByte <;> by_cases hz : z = starByte <;> simp [ha, hz, htake]
    have h := classify_cases (a == starByte) (z == starByte)
      ([a].drop (if a = starByte then 1 else 0) ++ (q ++ if z = starByte then [] else [z]))
    rw [concat_eq_append, hc]
    by_cases ha : a = starByte <;> by_cases hz : z = starByte <;> simpa [ha, hz] using h

lemma Compiles.agrees (h : Compiles p c) (s : Bytes) : rayGlobMatchCompiled c s = rayGlobMatch s p := by
  rw [Bool.eq_iff_iff, rayGlobMatch_iff]
  cases h with
  | @exact l hl =>
    rw [matches_exact hl]
    simp only [rayGlobMatchCompiled, Bool.and_eq_true, Bool.or_eq_true, beq_iff_eq, length_eq_zero_iff]
    constructor
    · rintro ⟨hlen, rfl | htake⟩
      · exact length_eq_zero_iff.mp hlen
      · rwa [take_of_length_le hlen.le] at htake
    · rintro rfl
      exact ⟨rfl, .inr (take_length)⟩
  | @initial l hl =>
    rw [matches_stem hl, prefix_iff_eq_take]
    simp only [rayGlobMatchCompiled, Bool.and_eq_true, Bool.or_eq_true, beq_iff_eq, length_eq_zero_iff,
      decide_eq_true_eq]
    constructor
    · rintro ⟨hlen, rfl | htake⟩
      · rfl
      · exact htake.symm
    · intro h
      exact ⟨by rw [h]; exact length_take_le' _ _, .inr h.symm⟩
  | @final l hl =>
    rw [matches_suffix hl, suffix_iff_eq_drop]
    simp only [rayGlobMatchCompiled, Bool.and_eq_true, Bool.or_eq_true, beq_iff_eq, length_eq_zero_iff,
      decide_eq_true_eq]
    constructor
    · rintro ⟨hlen, rfl | hdrop⟩
      · simp
      · exact hdrop.symm
    · intro h
      exact ⟨by rw [h, length_drop]; exact Nat.sub_le _ _, .inr h.symm⟩
  | @inner l hl =>
    rw [matches_contains hl, ← memmem_isSome, rayGlobMatchCompiled]
    by_cases hzero : l.length = 0
    · obtain rfl := length_eq_zero_iff.mp hzero
      simp [memmem_isSome]
    · by_cases hlen : s.length < l.length
      · simp only [hzero, hlen, if_true, if_false, memmem_isSome, Bool.false_eq_true, false_iff]
        exact fun h => absurd h.length_le (by omega)
      · simp only [hzero, hlen, if_false]
  | any =>
    have hall : Matches (wilds [starByte, starByte]) s :=
      (matches_contains (l := []) (by simp [Plain])).mpr List.nil_infix
    exact iff_of_true rfl hall

end

/-- The matcher against the meaning of a pattern. -/
theorem rayGlobMatch_spec (s p : Bytes) : (∃ ts, Reads p ts ∧ (rayGlobMatch s p = true ↔ Expands ts s)) ∧
    (∀ ts ts', Reads p ts → Reads p ts' → ts = ts') ∧
      rayGlobMatchCi s p = rayGlobMatch (s.map toLower) (p.map toLower) ∧
    ((rayGlobCompile p).shape ≠ .shapeNone → rayGlobMatchCompiled (rayGlobCompile p) s = rayGlobMatch s p) :=
  ⟨⟨tokens p, reads_tokens p, rayGlobMatch_expands (reads_tokens p) s⟩,
    fun _ _ h h' => (reads_iff.mp h).trans (reads_iff.mp h').symm, rayGlobMatchCi_eq s p,
    fun h => ((rayGlobCompile_cases p).resolve_left h).agrees s⟩

end Rayforce.Glob
