import Rayforce.Glob.Shapes

/-! `ray_strpat_find`. -/

namespace Rayforce.Glob

open Library.Words List Option

variable {b : UInt8} {t : Token} {pos : ℕ}

def memchr (s : Bytes) (b : UInt8) : Option ℕ := s.findIdx? (· == b)

def strpatMemmem (s needle : Bytes) : Option ℕ :=
  match needle with
  | [] => some 0
  | b :: rest =>
    if s.length < (b :: rest).length then none
    else if rest = [] then memchr s b
    else memmem s (b :: rest)

lemma single_at {s : Bytes} {k : ℕ} : [b] <+: s.drop k ↔ s[k]? = some b := by
  rw [← head?_drop]
  cases s.drop k with
  | nil => simp
  | cons c t => simp [eq_comm]

lemma memchr_eq (s : Bytes) (b : UInt8) : memchr s b = memmem s [b] := by
  cases h : memmem s [b] with
  | none =>
    rw [memchr, findIdx?_eq_none_iff]
    intro x hx
    obtain ⟨k, hk⟩ := getElem?_of_mem hx
    have hlt := (List.getElem?_eq_some_iff.mp hk).1
    rw [beq_eq_false_iff_ne]
    rintro rfl
    exact memmem_none.mp h k hlt.le (single_at.mpr hk)
  | some k =>
    obtain ⟨⟨-, hk⟩, hfirst⟩ := memmem_some.mp h
    obtain ⟨hlt, hget⟩ := List.getElem?_eq_some_iff.mp (single_at.mp hk)
    rw [memchr, findIdx?_eq_some_iff_getElem]
    refine ⟨hlt, beq_iff_eq.mpr hget, fun j hj hj' => hfirst j hj (single_at.mpr ?_)⟩
    rw [getElem?_eq_getElem (hj.trans hlt), beq_iff_eq.mp hj']

lemma strpatMemmem_eq (s needle : Bytes) : strpatMemmem s needle = memmem s needle := by
  rcases needle with _ | ⟨b, rest⟩
  · exact (memmem_some.mpr ⟨⟨Nat.zero_le _, nil_prefix⟩, by simp⟩).symm
  · rw [strpatMemmem]
    split_ifs with hlen hone
    · refine (memmem_none.mpr fun k _ h => ?_).symm
      have hle := h.length_le
      rw [length_drop] at hle
      omega
    · rw [hone, memchr_eq]
    · rfl

structure Strpat where
  pat : Bytes
  tokens : ℕ
  /-- What of the pattern is behind the start of the anchor. -/
  anchor : Bytes
  anchorLen : ℕ
  anchorToken : ℕ
  literal : Bool

structure Runs where
  tokens : ℕ
  runStart : Bytes
  runLen : ℕ
  runToken : ℕ
  bestStart : Bytes
  bestLen : ℕ
  bestToken : ℕ
  literal : Bool

def Runs.flush (r : Runs) : Runs :=
  if r.bestLen < r.runLen then
    { r with bestLen := r.runLen, bestStart := r.runStart, bestToken := r.runToken, runLen := 0 }
  else { r with runLen := 0 }

def skipItems (first : Bool) (p : Bytes) : Bytes :=
  match p with
  | [] => []
  | b :: p => if !first && b == closeByte then b :: p else skipItems false (classItem b p).2
termination_by p.length
decreasing_by exact Nat.lt_succ_of_le (classItem_length b p)

def skipClass (p : Bytes) : Bytes := (skipByte closeByte (skipItems true (skipByte notByte p).2)).2

lemma skipItems_eq (first : Bool) (p : Bytes) : skipItems first p = (classItems first p).2 := by
  induction first, p using skipItems.induct with
  | case1 first => rw [skipItems, classItems]
  | case2 first b p hstop => rw [skipItems, classItems, if_pos hstop, if_pos hstop]
  | case3 first b p hstop ih => rw [skipItems, classItems, if_neg hstop, if_neg hstop, ih]

lemma skipClass_eq (p : Bytes) : skipClass p = (readClass p).2 := by
  rw [skipClass, skipItems_eq]
  rfl

def Runs.skip (r : Runs) : Runs :=
  let r := { r with literal := false }.flush
  { r with tokens := r.tokens + 1 }

def Runs.extend (r : Runs) (p : Bytes) : Runs :=
  let r := if r.runLen = 0 then { r with runStart := p, runToken := r.tokens } else r
  { r with runLen := r.runLen + 1, tokens := r.tokens + 1 }

def compileLoop (p : Bytes) (r : Runs) : Option Runs :=
  match p with
  | [] => some r
  | b :: p =>
    if b = starByte then none
    else if b = openByte then compileLoop (skipClass p) r.skip
    else if b = anyByte then compileLoop p r.skip
    else compileLoop p (r.extend (b :: p))
termination_by p.length
decreasing_by
  · exact Nat.lt_succ_of_le (skipClass_eq p ▸ readClass_length p)
  · exact Nat.lt_succ_self _
  · exact Nat.lt_succ_self _

def rayStrpatCompile (p : Bytes) : Option Strpat :=
  (compileLoop p ⟨0, p, 0, 0, p, 0, 0, true⟩).map fun r =>
    let r := r.flush
    ⟨p, r.tokens, r.bestStart, r.bestLen, r.bestToken, r.literal⟩

def matchFrom (p s : Bytes) : Bool :=
  match p, s with
  | [], _ => true
  | _ :: _, [] => false
  | b :: p, a :: s =>
    if b = anyByte then matchFrom p s
    else if b = openByte then if (matchClass false p a).1 then matchFrom (matchClass false p a).2 s else false
    else if a ≠ b then false
    else matchFrom p s
termination_by p.length
decreasing_by
  · exact Nat.lt_succ_self _
  · exact Nat.lt_succ_of_le (matchClass_length false p a)
  · exact Nat.lt_succ_self _

def strpatMatchAt (c : Strpat) (s : Bytes) (pos : ℕ) : Bool := matchFrom c.pat (s.drop pos)

def minus (a b : ℕ) : Option ℕ := if b ≤ a then some (a - b) else none

def anchorLoop (c : Strpat) (s : Bytes) (tail scanFrom : ℕ) : Option (Option ℕ) :=
  if scanFrom + c.anchorLen + tail ≤ s.length then
    match (minus s.length tail).bind fun n => minus n scanFrom with
    | none => none
    | some hayLen =>
      match strpatMemmem ((s.drop scanFrom).take hayLen) (c.anchor.take c.anchorLen) with
      | none => some none
      | some hit =>
        match minus (scanFrom + hit) c.anchorToken with
        | none => none
        | some start =>
          if start + c.tokens ≤ s.length ∧ strpatMatchAt c s start = true then some (some start)
          else anchorLoop c s tail (scanFrom + hit + 1)
  else some none
termination_by s.length + 1 - scanFrom
decreasing_by omega

def rayStrpatFind (c : Strpat) (s : Bytes) : Option (Option ℕ) :=
  if c.tokens = 0 then some (some 0)
  else if s.length < c.tokens then some none
  else if c.literal then some (strpatMemmem s c.pat)
  else if 0 < c.anchorLen then
    match (minus c.tokens c.anchorToken).bind fun n => minus n c.anchorLen with
    | none => none
    | some tail => anchorLoop c s tail c.anchorToken
  else (minus s.length c.tokens).map fun last => (List.range (last + 1)).find? fun pos => strpatMatchAt c s pos

section

variable {p q : Bytes} {T : List Token} {r : Runs} {c : Strpat}

def Run (T : List Token) (start : Bytes) (len token : ℕ) : Prop :=
  ∀ i < len, ∃ b, start[i]? = some b ∧ T[token + i]? = some (.lit b)

lemma Run.append {start : Bytes} {len token : ℕ} (h : Run T start len token) (U : List Token) :
    Run (T ++ U) start len token := by
  intro i hi
  obtain ⟨b, hb, ht⟩ := h i hi
  exact ⟨b, hb, by rw [getElem?_append_left (List.getElem?_eq_some_iff.mp ht).1, ht]⟩

lemma run_zero (T : List Token) (start : Bytes) (token : ℕ) : Run T start 0 token :=
    fun _ h => absurd h (Nat.not_lt_zero _)

structure Scanned (p q : Bytes) (T : List Token) (r : Runs) : Prop where
  count : r.tokens = T.length
  run : Run T r.runStart r.runLen r.runToken
  last : 0 < r.runLen → r.runToken + r.runLen = T.length
  rest : 0 < r.runLen → r.runStart.drop r.runLen = q
  best : Run T r.bestStart r.bestLen r.bestToken
  literal : r.literal = true → ∃ l, p = l ++ q ∧ T = l.map .lit

lemma Scanned.flush (h : Scanned p q T r) : Scanned p q T r.flush := by
  rw [Runs.flush]
  split_ifs
  · exact ⟨h.count, run_zero _ _ _, fun h => absurd h (lt_irrefl _), fun h => absurd h (lt_irrefl _), h.run,
      h.literal⟩
  · exact ⟨h.count, run_zero _ _ _, fun h => absurd h (lt_irrefl _), fun h => absurd h (lt_irrefl _),
      h.best, h.literal⟩

lemma skip_runLen (r : Runs) : r.skip.runLen = 0 := by
  rw [Runs.skip, Runs.flush]
  split_ifs <;> rfl

lemma skip_literal (r : Runs) : r.skip.literal = false := by
  rw [Runs.skip, Runs.flush]
  split_ifs <;> rfl

lemma Scanned.skip (h : Scanned p q T r) (t : Token) (q' : Bytes) : Scanned p q' (T ++ [t]) r.skip := by
  have hr : Scanned p q T { r with literal := false } :=
    ⟨h.count, h.run, h.last, h.rest, h.best, fun h => absurd h Bool.false_ne_true⟩
  have hf := hr.flush
  refine ⟨?_, hf.run.append _, ?_, ?_, hf.best.append _, ?_⟩
  · rw [Runs.skip, length_append, ← hf.count]
    rfl
  · exact fun h => absurd h (by rw [skip_runLen]; exact lt_irrefl _)
  · exact fun h => absurd h (by rw [skip_runLen]; exact lt_irrefl _)
  · exact fun h => absurd h (by rw [skip_literal]; exact Bool.false_ne_true)

lemma Scanned.extend (h : Scanned p (b :: q) T r) : Scanned p q (T ++ [.lit b]) (r.extend (b :: q)) := by
  have hlit : r.literal = true → ∃ l, p = l ++ q ∧ T ++ [.lit b] = l.map .lit := by
    intro hr
    obtain ⟨l, hp, hT⟩ := h.literal hr
    exact ⟨l ++ [b], by rw [hp, append_assoc]; rfl, by rw [hT, map_append]; rfl⟩
  rw [Runs.extend]
  by_cases hzero : r.runLen = 0
  · rw [if_pos hzero]
    refine ⟨by simp [h.count], ?_, fun _ => by simp [hzero, h.count], fun _ =>
      by simp [hzero], h.best.append _, hlit⟩
    intro i hi
    have hi0 : i = 0 := by simp only [hzero] at hi; omega
    exact ⟨b, by rw [hi0]; rfl, by simp [hi0, h.count]⟩
  · have hpos := Nat.pos_of_ne_zero hzero
    have hlast := h.last hpos
    have hrest := h.rest hpos
    rw [if_neg hzero]
    refine ⟨by simp [h.count], ?_, fun _ => by simp; omega, fun _ => ?_, h.best.append _, hlit⟩
    · intro i hi
      obtain hi | hi := Nat.lt_succ_iff_lt_or_eq.mp hi
      · exact h.run.append _ i hi
      · refine ⟨b, ?_, ?_⟩
        · rw [hi, ← head?_drop, hrest]
          rfl
        · rw [hi, hlast]
          simp
    · rw [← drop_drop, hrest]
      rfl

lemma tokens_star (p : Bytes) : tokens (starByte :: p) = .star :: tokens p := by rw [tokens, if_pos rfl]

lemma tokens_any (p : Bytes) : tokens (anyByte :: p) = .any :: tokens p := by
  rw [tokens, if_neg (by decide), if_pos rfl]

lemma tokens_open (p : Bytes) : tokens (openByte :: p) = (readClass p).1 :: tokens (readClass p).2 := by
  rw [tokens, if_neg (by decide), if_neg (by decide), if_pos rfl]

lemma tokens_lit (h : b ≠ starByte) (h' : b ≠ anyByte) (h'' : b ≠ openByte) (p : Bytes) :
    tokens (b :: p) = .lit b :: tokens p := by rw [tokens, if_neg h, if_neg h', if_neg h'']

def Outcome (p q : Bytes) (T : List Token) : Option Runs → Prop
  | none => Token.star ∈ tokens q
  | some r => Token.star ∉ tokens q ∧ Scanned p [] (T ++ tokens q) r

lemma Outcome.cons {q' : Bytes} {o : Option Runs} (ht : t ≠ .star) (hq : tokens q = t :: tokens q')
    (h : Outcome p q' (T ++ [t]) o) : Outcome p q T o := by
  cases o with
  | none =>
    rw [Outcome, hq]
    exact mem_cons_of_mem _ h
  | some r =>
    rw [Outcome, hq, mem_cons, append_cons]
    exact ⟨not_or.mpr ⟨ht.symm, h.1⟩, h.2⟩

lemma compileLoop_outcome (h : Scanned p q T r) : Outcome p q T (compileLoop q r) := by
  induction q, r using compileLoop.induct generalizing T with
  | case1 r =>
    rw [compileLoop, Outcome, tokens, append_nil]
    exact ⟨not_mem_nil, h⟩
  | case2 r q =>
    rw [compileLoop, if_pos rfl, Outcome, tokens_star]
    exact mem_cons_self
  | case3 r q hs ih =>
    rw [compileLoop, if_neg hs, if_pos rfl]
    have hskip := h.skip (readClass q).1 (readClass q).2
    rw [← skipClass_eq] at hskip
    exact (ih hskip).cons (by simp [readClass]) (by rw [tokens_open, skipClass_eq])
  | case4 r q hs ho ih =>
    rw [compileLoop, if_neg hs, if_neg ho, if_pos rfl]
    exact (ih (h.skip .any q)).cons (t := .any) (by simp) (tokens_any q)
  | case5 r b q hs ho ha ih =>
    rw [compileLoop, if_neg hs, if_neg ho, if_neg ha]
    exact (ih h.extend).cons (t := .lit b) (by simp) (tokens_lit hs ha ho q)

structure Prepared (p : Bytes) (c : Strpat) : Prop where
  pat : c.pat = p
  plain : Token.star ∉ tokens p
  count : c.tokens = (tokens p).length
  anchor : Run (tokens p) c.anchor c.anchorLen c.anchorToken
  literal : c.literal = true → tokens p = p.map .lit

lemma scanned_start (p : Bytes) : Scanned p p [] ⟨0, p, 0, 0, p, 0, 0, true⟩ :=
  ⟨rfl, run_zero _ _ _, fun h => absurd h (lt_irrefl 0), fun h => absurd h (lt_irrefl 0), run_zero _ _ _, fun _ =>
    ⟨[], rfl, rfl⟩⟩

lemma rayStrpatCompile_none : rayStrpatCompile p = none ↔ Token.star ∈ tokens p := by
  have h := compileLoop_outcome (scanned_start p)
  rw [rayStrpatCompile, map_eq_none_iff]
  cases hloop : compileLoop p ⟨0, p, 0, 0, p, 0, 0, true⟩ with
  | none =>
    rw [hloop] at h
    exact iff_of_true rfl h
  | some r =>
    rw [hloop] at h
    exact iff_of_false (by simp) h.1

lemma rayStrpatCompile_some (h : rayStrpatCompile p = some c) : Prepared p c := by
  have hout := compileLoop_outcome (scanned_start p)
  rw [rayStrpatCompile, map_eq_some_iff] at h
  obtain ⟨r, hr, rfl⟩ := h
  rw [hr] at hout
  have hf := hout.2.flush
  rw [nil_append] at hf
  refine ⟨rfl, hout.1, hf.count, hf.best, fun hlit => ?_⟩
  obtain ⟨l, hp, hT⟩ := hf.literal hlit
  rw [hT, hp, append_nil]

end

section

variable {p s : Bytes} {c : Strpat}

def Fits (T : List Token) (s : Bytes) : Prop :=
  ∀ (i : ℕ) (t : Token), T[i]? = some t → ∃ a, s[i]? = some a ∧ t.Accepts a

lemma fits_cons {T : List Token} {a : UInt8} : Fits (t :: T) (a :: s) ↔ t.Accepts a ∧ Fits T s := by
  constructor
  · intro h
    obtain ⟨b, hb, ht⟩ := h 0 t rfl
    exact ⟨by cases hb; exact ht, fun i u hu => h (i + 1) u hu⟩
  · rintro ⟨ht, h⟩ (_ | i) u hu
    · cases hu
      exact ⟨a, rfl, ht⟩
    · exact h i u hu

lemma matchFrom_iff (hp : Token.star ∉ tokens p) : matchFrom p s = true ↔ Fits (tokens p) s := by
  induction p, s using matchFrom.induct with
  | case1 s => simp [matchFrom, tokens, Fits]
  | case2 b p =>
    rw [matchFrom]
    refine iff_of_false Bool.false_ne_true fun h => ?_
    have hne : tokens (b :: p) ≠ [] := by
      rw [tokens]
      split_ifs <;> exact cons_ne_nil _ _
    obtain ⟨t, T, hT⟩ := exists_cons_of_ne_nil hne
    obtain ⟨a, ha, -⟩ := h 0 t (by rw [hT]; rfl)
    simp at ha
  | case3 p a s ih =>
    rw [tokens_any, mem_cons, not_or] at hp
    rw [matchFrom, if_pos rfl, tokens_any, fits_cons, ih hp.2]
    simp [Token.Accepts]
  | case4 p a s hc ha ih =>
    rw [matchClass_eq] at ih
    rw [tokens_open, mem_cons, not_or] at hp
    have htest : (readClass p).1.Accepts a := by rwa [matchClass_eq, test_iff] at hc
    rw [matchFrom, if_neg ha, if_pos rfl, if_pos hc, matchClass_eq, ih hp.2, tokens_open, fits_cons,
      and_iff_right htest]
  | case5 p a s hc ha =>
    have htest : ¬ (readClass p).1.Accepts a := by rwa [matchClass_eq, test_iff] at hc
    rw [matchFrom, if_neg ha, if_pos rfl, if_neg hc, tokens_open, fits_cons]
    exact iff_of_false Bool.false_ne_true fun h => htest h.1
  | case6 b p a s ha ho hab =>
    have hs : b ≠ starByte := by
      rintro rfl
      exact hp (by rw [tokens_star]; exact mem_cons_self)
    rw [matchFrom, if_neg ha, if_neg ho, if_pos hab, tokens_lit hs ha ho, fits_cons]
    exact iff_of_false Bool.false_ne_true fun h => hab h.1
  | case7 b p a s ha ho hab ih =>
    have hs : b ≠ starByte := by
      rintro rfl
      exact hp (by rw [tokens_star]; exact mem_cons_self)
    rw [tokens_lit hs ha ho, mem_cons, not_or] at hp
    rw [matchFrom, if_neg ha, if_neg ho, if_neg hab, tokens_lit hs ha ho, fits_cons, ih hp.2]
    exact (and_iff_right (not_not.mp hab)).symm

lemma Fits.length {T : List Token} (h : Fits T s) : T.length ≤ s.length := by
  by_contra hlt
  have hlt := not_le.mp hlt
  obtain ⟨a, ha, -⟩ := h s.length T[s.length] (getElem?_eq_getElem hlt)
  simp at ha

variable (hc : Prepared p c)

include hc

lemma Prepared.at_iff (pos : ℕ) : strpatMatchAt c s pos = true ↔ Fits (tokens p) (s.drop pos) := by
  rw [strpatMatchAt, hc.pat, matchFrom_iff hc.plain]

lemma Prepared.at_le (hpos : 0 < c.tokens) (h : strpatMatchAt c s pos = true) : pos + c.tokens ≤ s.length := by
  have hlen := ((hc.at_iff pos).mp h).length
  rw [← hc.count, length_drop] at hlen
  omega

lemma Prepared.at_literal (hlit : c.literal = true) (pos : ℕ) :
    strpatMatchAt c s pos = true ↔ p <+: s.drop pos := by
  rw [hc.at_iff, hc.literal hlit, prefix_iff_getElem?]
  constructor
  · intro h i hi
    obtain ⟨a, ha, ht⟩ := h i (.lit p[i]) (by rw [getElem?_map, getElem?_eq_getElem hi]; rfl)
    rw [ha, show a = p[i] from ht]
  · intro h i t ht
    rw [getElem?_map, map_eq_some_iff] at ht
    obtain ⟨b, hb, rfl⟩ := ht
    obtain ⟨hi, rfl⟩ := List.getElem?_eq_some_iff.mp hb
    exact ⟨p[i], h i hi, rfl⟩

lemma Prepared.anchor_at (h : strpatMatchAt c s pos = true) :
    c.anchor.take c.anchorLen <+: s.drop (pos + c.anchorToken) := by
  rw [prefix_iff_getElem?]
  intro i hi
  rw [length_take, lt_min_iff] at hi
  obtain ⟨b, hb, ht⟩ := hc.anchor i hi.1
  obtain ⟨a, ha, hab⟩ := (hc.at_iff pos).mp h _ _ ht
  rw [getElem?_drop] at ha ⊢
  rw [Nat.add_assoc, ha, getElem_take, (List.getElem?_eq_some_iff.mp hb).2, show a = b from hab]

lemma Prepared.anchor_length : (c.anchor.take c.anchorLen).length = c.anchorLen := by
  rw [length_take, Nat.min_eq_left]
  by_contra hlt
  obtain ⟨b, hb, -⟩ := hc.anchor c.anchor.length (not_le.mp hlt)
  simp at hb

lemma Prepared.anchor_fits (hpos : 0 < c.anchorLen) : c.anchorToken + c.anchorLen ≤ c.tokens := by
  obtain ⟨b, -, ht⟩ := hc.anchor (c.anchorLen - 1) (by omega)
  have hlt := (List.getElem?_eq_some_iff.mp ht).1
  rw [← hc.count] at hlt
  omega

omit hc

def First (c : Strpat) (s : Bytes) (r : Option ℕ) : Prop :=
  ∀ k, r = some k ↔ strpatMatchAt c s k = true ∧ ∀ j < k, ¬ strpatMatchAt c s j = true

lemma first_none (h : ∀ k, ¬ strpatMatchAt c s k = true) : First c s none :=
  fun k => iff_of_false (by simp) fun hk => h k hk.1

lemma first_some {k : ℕ} (h : strpatMatchAt c s k = true) (hlt : ∀ j < k, ¬ strpatMatchAt c s j = true) :
    First c s (some k) := by
  intro j
  constructor
  · intro hj
    cases hj
    exact ⟨h, hlt⟩
  · rintro ⟨hj, hjlt⟩
    obtain hkj | rfl | hjk := lt_trichotomy k j
    · exact absurd h (hjlt k hkj)
    · rfl
    · exact absurd hj (hlt j hjk)

include hc

lemma Prepared.anchorLoop_first (hpos : 0 < c.anchorLen) {tail scanFrom : ℕ}
    (htail : c.anchorToken + c.anchorLen + tail = c.tokens)
    (hfrom : c.anchorToken ≤ scanFrom) (hpast : ∀ j, j + c.anchorToken < scanFrom → ¬ strpatMatchAt c s j = true) :
    ∃ r, anchorLoop c s tail scanFrom = some r ∧ First c s r := by
  have hat : ∀ {j : ℕ}, strpatMatchAt c s j = true → j + c.tokens ≤ s.length := hc.at_le (by omega)
  induction hmeasure : s.length + 1 - scanFrom using Nat.strong_induction_on generalizing scanFrom with
  | _ n ih =>
    rw [anchorLoop]
    by_cases hroom : scanFrom + c.anchorLen + tail ≤ s.length
    · have hhay : (minus s.length tail).bind (fun n => minus n scanFrom) = some (s.length - tail - scanFrom) := by
        rw [minus, if_pos (by omega), bind_some, minus, if_pos (by omega)]
      have hin : ∀ j, scanFrom ≤ j + c.anchorToken → strpatMatchAt c s j = true →
          c.anchor.take c.anchorLen <+: ((s.drop scanFrom).take (s.length - tail - scanFrom)).drop
            (j + c.anchorToken - scanFrom) := by
        intro j hj hm
        have hle := hat hm
        have hanchor := hc.anchor_at hm
        rw [drop_take, drop_drop, Nat.add_sub_of_le hj, prefix_take_iff, hc.anchor_length]
        exact ⟨hanchor, by omega⟩
      simp only [if_pos hroom, hhay, strpatMemmem_eq]
      cases hhit : memmem ((s.drop scanFrom).take (s.length - tail - scanFrom)) (c.anchor.take c.anchorLen) with
      | none =>
        refine ⟨none, rfl, first_none fun j hm => ?_⟩
        by_cases hj : scanFrom ≤ j + c.anchorToken
        · have hle := hat hm
          exact memmem_none.mp hhit _ (by rw [length_take, length_drop]; omega) (hin j hj hm)
        · exact hpast j (not_le.mp hj) hm
      | some hit =>
        obtain ⟨-, hfirst⟩ := memmem_some.mp hhit
        -- a place before this anchor would have had an anchor before it
        have hbefore : ∀ j, j + c.anchorToken < scanFrom + hit → ¬ strpatMatchAt c s j = true := by
          intro j hj hm
          by_cases hjs : scanFrom ≤ j + c.anchorToken
          · exact hfirst _ (by omega) (hin j hjs hm)
          · exact hpast j (not_le.mp hjs) hm
        simp only [minus, if_pos (hfrom.trans (Nat.le_add_right scanFrom hit))]
        split_ifs with hm
        · exact ⟨_, rfl, first_some hm.2 fun j hj => hbefore j (by omega)⟩
        · refine ih (s.length + 1 - (scanFrom + hit + 1)) (by omega) (by omega) (fun j hj => ?_) rfl
          obtain hj | hj := Nat.lt_succ_iff_lt_or_eq.mp hj
          · exact hbefore j hj
          · intro hmj
            have hstart : scanFrom + hit - c.anchorToken = j := by omega
            exact hm (by rw [hstart]; exact ⟨hat hmj, hmj⟩)
    · rw [if_neg hroom]
      refine ⟨none, rfl, first_none fun j hm => ?_⟩
      have hle := hat hm
      exact hpast j (by omega) hm

lemma Prepared.find_first (s : Bytes) : ∃ r, rayStrpatFind c s = some r ∧ First c s r := by
  rw [rayStrpatFind]
  by_cases hzero : c.tokens = 0
  · rw [if_pos hzero]
    have hnil : tokens p = [] := length_eq_zero_iff.mp (hc.count ▸ hzero)
    have hm : strpatMatchAt c s 0 = true := by
      rw [hc.at_iff, hnil]
      exact fun i t ht => by simp at ht
    exact ⟨_, rfl, first_some hm (by simp)⟩
  have hat : ∀ {j : ℕ}, strpatMatchAt c s j = true → j + c.tokens ≤ s.length := hc.at_le (Nat.pos_of_ne_zero hzero)
  rw [if_neg hzero]
  by_cases hlong : s.length < c.tokens
  · rw [if_pos hlong]
    refine ⟨_, rfl, first_none fun j hm => ?_⟩
    have hle := hat hm
    omega
  rw [if_neg hlong]
  by_cases hlit : c.literal = true
  · rw [if_pos hlit, strpatMemmem_eq, hc.pat]
    refine ⟨_, rfl, ?_⟩
    cases hhit : memmem s p with
    | none =>
      refine first_none fun j hm => memmem_none.mp hhit j ?_ ((hc.at_literal hlit j).mp hm)
      have hle := hat hm
      omega
    | some k =>
      obtain ⟨⟨-, hk⟩, hfirst⟩ := memmem_some.mp hhit
      exact first_some ((hc.at_literal hlit k).mpr hk) fun j hj hm => hfirst j hj ((hc.at_literal hlit j).mp hm)
  rw [if_neg hlit]
  by_cases hanchor : 0 < c.anchorLen
  · have hfits := hc.anchor_fits hanchor
    have htail : (minus c.tokens c.anchorToken).bind (fun n => minus n c.anchorLen) =
        some (c.tokens - c.anchorToken - c.anchorLen) := by
      rw [minus, if_pos (by omega), bind_some, minus, if_pos (by omega)]
    simp only [if_pos hanchor, htail]
    exact hc.anchorLoop_first hanchor (by omega) le_rfl fun j hj => absurd hj (by omega)
  · rw [if_neg hanchor, minus, if_pos (not_lt.mp hlong), map_some]
    refine ⟨_, rfl, ?_⟩
    cases hhit : (range (s.length - c.tokens + 1)).find? fun pos => strpatMatchAt c s pos with
    | none =>
      refine first_none fun j hm => ?_
      have hle := hat hm
      have hno := find?_range_eq_none.mp hhit j (by omega)
      rw [hm] at hno
      exact absurd hno (by decide)
    | some k =>
      obtain ⟨hm, -, hbefore⟩ := find?_range_eq_some.mp hhit
      exact first_some hm fun j hj hmj => absurd (hbefore j hj) (by rw [hmj]; decide)

omit hc

end

/-- The search gives the first place of a pattern without stars. -/
theorem rayStrpatFind_first (p s : Bytes) : ∃ ts, Reads p ts ∧ (rayStrpatCompile p = none ↔ Token.star ∈ ts) ∧
    ∀ c, rayStrpatCompile p = some c → c.pat = p ∧ (∀ pos, strpatMatchAt c s pos = true ↔ Fits ts (s.drop pos)) ∧
      ∃ r, rayStrpatFind c s = some r ∧ (r.isSome = true ↔ ∃ pos, strpatMatchAt c s pos = true) ∧
        ∀ k, r = some k ↔ strpatMatchAt c s k = true ∧ ∀ j < k, ¬ strpatMatchAt c s j = true := by
  refine ⟨tokens p, reads_tokens p, rayStrpatCompile_none, fun c h => ?_⟩
  have hc := rayStrpatCompile_some h
  obtain ⟨r, hr, hfirst⟩ := hc.find_first s
  refine ⟨hc.pat, hc.at_iff, r, hr, ?_, hfirst⟩
  rw [isSome_iff_exists]
  constructor
  · rintro ⟨k, hk⟩
    exact ⟨k, ((hfirst k).mp hk).1⟩
  · intro hex
    exact ⟨Nat.find hex, (hfirst _).mpr ⟨Nat.find_spec hex, fun j hj => Nat.find_min hex hj⟩⟩

end Rayforce.Glob
