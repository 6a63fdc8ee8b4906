import Rayforce.Library.Wildcards
import Rayforce.Library.Words

/-! The matcher of `glob.c`. -/

namespace Rayforce.Glob

open Library.Words Library.Wildcards List Option

def starByte : UInt8 := 42
def anyByte : UInt8 := 63
def openByte : UInt8 := 91
def closeByte : UInt8 := 93
def notByte : UInt8 := 33
def dashByte : UInt8 := 45

def toLower (c : UInt8) : UInt8 := if 65 ≤ c ∧ c ≤ 90 then c + 32 else c

def fold (ci : Bool) (c : UInt8) : UInt8 := if ci then toLower c else c

def between (lo hi c : UInt8) : Bool := lo.toInt8 ≤ c.toInt8 && c.toInt8 ≤ hi.toInt8

def skipByte (b : UInt8) : Bytes → Bool × Bytes
  | [] => (false, [])
  | c :: p => if c = b then (true, p) else (false, c :: p)

inductive Item
  | byte (b : UInt8)
  | range (lo hi : UInt8)

def Item.has (ci : Bool) (ch : UInt8) : Item → Bool
  | byte b => ch == fold ci b
  | range lo hi => between (fold ci lo) (fold ci hi) ch

def classItem (b : UInt8) (p : Bytes) : Item × Bytes :=
  match p with
  | d :: hi :: q => if d = dashByte ∧ hi ≠ closeByte then (.range b hi, q) else (.byte b, p)
  | _ => (.byte b, p)

lemma classItem_length (b : UInt8) (p : Bytes) : (classItem b p).2.length ≤ p.length := by
  rcases p with _ | ⟨d, _ | ⟨hi, q⟩⟩
  · exact le_rfl
  · exact le_rfl
  · rw [classItem]
    split_ifs
    · simp only [length_cons]
      omega
    · exact le_rfl

def classLoop (ci : Bool) (ch : UInt8) (first matched : Bool) (p : Bytes) : Bool × Bytes :=
  match p with
  | [] => (matched, [])
  | b :: p =>
    if !first && b == closeByte then (matched, b :: p)
    else classLoop ci ch false (matched || (classItem b p).1.has ci ch) (classItem b p).2
termination_by p.length
decreasing_by exact Nat.lt_succ_of_le (classItem_length b p)

def matchClass (ci : Bool) (p : Bytes) (c : UInt8) : Bool × Bytes :=
  let (neg, p) := skipByte notByte p
  let (matched, p) := classLoop ci (fold ci c) true false p
  (if neg then !matched else matched, (skipByte closeByte p).2)

lemma skipByte_length (b : UInt8) (p : Bytes) : (skipByte b p).2.length ≤ p.length := by
  cases p with
  | nil => exact le_rfl
  | cons c p =>
    rw [skipByte]
    split_ifs
    · exact Nat.le_succ _
    · exact le_rfl

lemma classLoop_length (ci : Bool) (ch : UInt8) (first matched : Bool) (p : Bytes) :
    (classLoop ci ch first matched p).2.length ≤ p.length := by
  induction first, matched, p using classLoop.induct ci ch with
  | case1 => simp [classLoop]
  | case2 first matched b p hstop => rw [classLoop, if_pos hstop]
  | case3 first matched b p hstop ih =>
    rw [classLoop, if_neg hstop]
    exact (ih.trans (classItem_length b p)).trans (Nat.le_succ _)

lemma matchClass_length (ci : Bool) (p : Bytes) (c : UInt8) : (matchClass ci p c).2.length ≤ p.length :=
  ((skipByte_length _ _).trans (classLoop_length ..)).trans (skipByte_length _ _)

def span (s : Bytes) : Option (Bytes × Bytes) → ℕ
  | none => s.length + 1
  | some (_, t) => max t.length s.length

def globImpl (ci : Bool) (p s : Bytes) (star : Option (Bytes × Bytes)) : Bool :=
  match s, p with
  | [], p => p.all (· == starByte)
  | _ :: _, [] =>
    match star with
    | none => false
    | some (_, []) => false
    | some (q, _ :: t) => globImpl ci q t (some (q, t))
  | a :: s, b :: p =>
    if b = starByte then globImpl ci p (a :: s) (some (p, a :: s))
    else if b = anyByte then globImpl ci p s star
    else if b = openByte ∧ (matchClass ci p a).1 then globImpl ci (matchClass ci p a).2 s star
    else if b ≠ openByte ∧ fold ci a = fold ci b then globImpl ci p s star
    else
      match star with
      | none => false
      | some (_, []) => false
      | some (q, _ :: t) => globImpl ci q t (some (q, t))
termination_by (span s star, p.length)
decreasing_by
  · exact Prod.Lex.left _ _ (by simp [span])
  · rcases star with _ | ⟨q, t⟩
    · exact Prod.Lex.left _ _ (by simp [span])
    · simp [Prod.lex_def, span]
      omega
  · rcases star with _ | ⟨q, t⟩
    · exact Prod.Lex.left _ _ (by simp [span])
    · simp [Prod.lex_def, span]
      omega
  · have hrest := matchClass_length ci p a
    rcases star with _ | ⟨q, t⟩
    · exact Prod.Lex.left _ _ (by simp [span])
    · simp [Prod.lex_def, span]
      omega
  · rcases star with _ | ⟨q, t⟩
    · exact Prod.Lex.left _ _ (by simp [span])
    · simp [Prod.lex_def, span]
      omega
  · exact Prod.Lex.left _ _ (by simp [span])

def rayGlobMatch (s p : Bytes) : Bool := globImpl false p s none

def rayGlobMatchCi (s p : Bytes) : Bool := globImpl true p s none

inductive Token
  | lit (b : UInt8)
  | any
  | cls (neg : Bool) (items : List Item)
  | star

def Token.test : Token → UInt8 → Bool
  | lit b, c => c == b
  | any, _ => true
  | cls neg items, c => if neg then !(items.any (Item.has false c)) else items.any (Item.has false c)
  | star, _ => false

def Token.wild (t : Token) : Wild UInt8 :=
  match t with
  | star => .star
  | t => .one t.test

def classItems (first : Bool) (p : Bytes) : List Item × Bytes :=
  match p with
  | [] => ([], [])
  | b :: p =>
    if !first && b == closeByte then ([], b :: p)
    else
      let (items, rest) := classItems false (classItem b p).2
      ((classItem b p).1 :: items, rest)
termination_by p.length
decreasing_by exact Nat.lt_succ_of_le (classItem_length b p)

def readClass (p : Bytes) : Token × Bytes :=
  let (neg, p) := skipByte notByte p
  let (items, p) := classItems true p
  (.cls neg items, (skipByte closeByte p).2)

lemma classLoop_eq (ch : UInt8) (first matched : Bool) (p : Bytes) :
    classLoop false ch first matched p =
    (matched || (classItems first p).1.any (Item.has false ch), (classItems first p).2) := by
  induction first, matched, p using classLoop.induct false ch with
  | case1 first matched => simp [classLoop, classItems]
  | case2 first matched b p hstop =>
    rw [classLoop, classItems, if_pos hstop, if_pos hstop, any_nil, Bool.or_false]
  | case3 first matched b p hstop ih =>
    rw [classLoop, if_neg hstop, ih, classItems, if_neg hstop, any_cons, Bool.or_assoc]

lemma matchClass_eq (p : Bytes) (c : UInt8) :
    matchClass false p c = ((readClass p).1.test c, (readClass p).2) := by
  simp only [matchClass, readClass, classLoop_eq, Bool.false_or, Token.test, fold]
  rfl

lemma readClass_length (p : Bytes) : (readClass p).2.length ≤ p.length := by
  have h := matchClass_length false p 0
  rwa [matchClass_eq] at h

def tokens (p : Bytes) : List Token :=
  match p with
  | [] => []
  | b :: p =>
    if b = starByte then .star :: tokens p
    else if b = anyByte then .any :: tokens p
    else if b = openByte then (readClass p).1 :: tokens (readClass p).2
    else .lit b :: tokens p
termination_by p.length
decreasing_by
  · exact Nat.lt_succ_self _
  · exact Nat.lt_succ_self _
  · exact Nat.lt_succ_of_le (readClass_length p)
  · exact Nat.lt_succ_self _

def wilds (p : Bytes) : List (Wild UInt8) := (tokens p).map Token.wild

lemma readClass_wild (p : Bytes) : (readClass p).1.wild = .one (readClass p).1.test := rfl

lemma all_star (p : Bytes) : p.all (· == starByte) = (wilds p).all Wild.isStar := by
  induction p using tokens.induct with
  | case1 => simp [wilds, tokens]
  | case2 p ih => simpa [wilds, tokens, Token.wild, Wild.isStar] using ih
  | case3 p h ih => simp [wilds, tokens, Token.wild, Wild.isStar, h]
  | case4 p h h' ih => simp [wilds, tokens, readClass_wild, Wild.isStar, h, h']
  | case5 b p h h' h'' ih => simp [wilds, tokens, Token.wild, Wild.isStar, h, h', h'']

section

variable {a b : UInt8} {p : Bytes}

lemma wilds_star (p : Bytes) : wilds (starByte :: p) = .star :: wilds p := by
  rw [wilds, tokens, if_pos rfl]
  rfl

lemma wilds_any (p : Bytes) : wilds (anyByte :: p) = .one Token.any.test :: wilds p := by
  rw [wilds, tokens, if_neg (by decide), if_pos rfl]
  rfl

lemma wilds_open (p : Bytes) : wilds (openByte :: p) = .one (readClass p).1.test :: wilds (readClass p).2 := by
  rw [wilds, tokens, if_neg (by decide), if_neg (by decide), if_pos rfl]
  rfl

lemma wilds_lit (h : b ≠ starByte) (h' : b ≠ anyByte) (h'' : b ≠ openByte) :
    wilds (b :: p) = .one (Token.lit b).test :: wilds p := by
  rw [wilds, tokens, if_neg h, if_neg h', if_neg h'']
  rfl

lemma wilds_fails (hs : b ≠ starByte) (ha : b ≠ anyByte) (hc : ¬ (b = openByte ∧ (matchClass false p a).1 = true))
    (hl : ¬ (b ≠ openByte ∧ fold false a = fold false b)) :
      ∃ test q, wilds (b :: p) = .one test :: q ∧ test a = false := by
  by_cases ho : b = openByte
  · subst ho
    refine ⟨_, _, wilds_open p, ?_⟩
    have hfalse := Bool.eq_false_of_not_eq_true fun h => hc ⟨rfl, h⟩
    rwa [matchClass_eq] at hfalse
  · exact ⟨_, _, wilds_lit hs ha ho, beq_eq_false_iff_ne.mpr fun h => hl ⟨ho, h⟩⟩

end

lemma globImpl_eq (p s : Bytes) (star : Option (Bytes × Bytes)) :
    globImpl false p s star = greedy (wilds p) s (star.map fun x => (wilds x.1, x.2)) := by
  induction p, s, star using globImpl.induct false with
  | case1 star p => rw [globImpl, greedy, all_star]
  | case2 a s => simp [globImpl, wilds, tokens, greedy]
  | case3 a s q => simp [globImpl, wilds, tokens, greedy]
  | case4 a s q b t ih => simpa [globImpl, wilds, tokens, greedy] using ih
  | case5 star a s p ih =>
    have hstep : globImpl false (starByte :: p) (a :: s) star = globImpl false p (a :: s) (some (p, a :: s)) := by
      rw [globImpl.eq_def]
      exact if_pos rfl
    rw [hstep, ih, wilds_star, greedy]
    rfl
  | case6 star a s p h ih =>
    have hstep : globImpl false (anyByte :: p) (a :: s) star = globImpl false p s star := by
      rw [globImpl.eq_def]
      exact (if_neg h).trans (if_pos rfl)
    rw [hstep, ih, wilds_any, greedy_one rfl]
  | case7 star a s b p h h' hc ih =>
    have hstep : globImpl false (b :: p) (a :: s) star = globImpl false (matchClass false p a).2 s star := by
      rw [globImpl.eq_def]
      exact (if_neg h).trans ((if_neg h').trans (if_pos hc))
    obtain ⟨rfl, hclass⟩ := hc
    have htest : (readClass p).1.test a = true := by rwa [matchClass_eq] at hclass
    rw [hstep, ih, wilds_open, greedy_one htest, matchClass_eq]
  | case8 star a s b p h h' hc hl ih =>
    have hstep : globImpl false (b :: p) (a :: s) star = globImpl false p s star := by
      rw [globImpl.eq_def]
      exact (if_neg h).trans ((if_neg h').trans ((if_neg hc).trans (if_pos hl)))
    have htest : (Token.lit b).test a = true := beq_iff_eq.mpr hl.2
    rw [hstep, ih, wilds_lit h h' hl.1, greedy_one htest]
  | case9 a s b p h h' hc hl =>
    obtain ⟨test, q, hq, htest⟩ := wilds_fails h h' hc hl
    rw [globImpl, if_neg h, if_neg h', if_neg hc, if_neg hl, hq]
    simp [greedy, htest]
  | case10 a s b p h h' hc hl q' =>
    obtain ⟨test, q, hq, htest⟩ := wilds_fails h h' hc hl
    rw [globImpl, if_neg h, if_neg h', if_neg hc, if_neg hl, hq]
    simp [greedy, htest]
  | case11 a s b p h h' hc hl q' c t ih =>
    obtain ⟨test, q, hq, htest⟩ := wilds_fails h h' hc hl
    rw [globImpl, if_neg h, if_neg h', if_neg hc, if_neg hl, hq, ih]
    simp [greedy, htest]

lemma rayGlobMatch_iff (s p : Bytes) : rayGlobMatch s p = true ↔ Matches (wilds p) s := by
  have hnone : Reached (wilds p) s none := trivial
  rw [rayGlobMatch, globImpl_eq, map_none, greedy_iff hnone]
  exact iff_of_eq (or_false _)

lemma toLower_eq {c x : UInt8} (hx : x.toNat < 65 ∨ 90 < x.toNat ∧ x.toNat < 97) : toLower c = x ↔ c = x := by
  rw [toLower]
  split_ifs with h
  · rw [UInt8.le_iff_toNat_le, UInt8.le_iff_toNat_le] at h
    rw [← UInt8.toNat_inj, ← UInt8.toNat_inj, UInt8.toNat_add]
    simp at h ⊢
    omega
  · rfl

section

variable {p s : Bytes}

def Item.lower : Item → Item
  | byte b => .byte (toLower b)
  | range lo hi => .range (toLower lo) (toLower hi)

lemma has_lower (ch : UInt8) (i : Item) : i.has true ch = i.lower.has false ch := by cases i <;> rfl

lemma classItem_map (b : UInt8) (p : Bytes) :
    classItem (toLower b) (p.map toLower) = ((classItem b p).1.lower, (classItem b p).2.map toLower) := by
  rcases p with _ | ⟨d, _ | ⟨hi, q⟩⟩
  · rfl
  · rfl
  · have hcond : toLower d = dashByte ∧ toLower hi ≠ closeByte ↔ d = dashByte ∧ hi ≠ closeByte :=
      and_congr (toLower_eq (by decide)) (not_congr (toLower_eq (by decide)))
    rw [map_cons, map_cons, classItem, classItem, if_congr hcond rfl rfl]
    split_ifs <;> rfl

lemma skipByte_map {x : UInt8} (hx : x.toNat < 65 ∨ 90 < x.toNat ∧ x.toNat < 97) (p : Bytes) :
    skipByte x (p.map toLower) = ((skipByte x p).1, (skipByte x p).2.map toLower) := by
  cases p with
  | nil => rfl
  | cons c p =>
    rw [map_cons, skipByte, skipByte, if_congr (toLower_eq hx) rfl rfl]
    split_ifs <;> rfl

lemma classLoop_map (ch : UInt8) (first matched : Bool) (p : Bytes) :
    classLoop false ch first matched (p.map toLower) =
    ((classLoop true ch first matched p).1, (classLoop true ch first matched p).2.map toLower) := by
  induction first, matched, p using classLoop.induct true ch with
  | case1 first matched => simp [classLoop]
  | case2 first matched b p hstop =>
    have hstop' : (!first && toLower b == closeByte) = true := by
      rw [Bool.and_eq_true, beq_iff_eq, toLower_eq (by decide)]
      rwa [Bool.and_eq_true, beq_iff_eq] at hstop
    rw [map_cons, classLoop, classLoop, if_pos hstop, if_pos hstop']
    rfl
  | case3 first matched b p hstop ih =>
    have hstop' : ¬ (!first && toLower b == closeByte) = true := by
      rw [Bool.and_eq_true, beq_iff_eq, toLower_eq (by decide)]
      rwa [Bool.and_eq_true, beq_iff_eq] at hstop
    rw [map_cons, classLoop, if_neg hstop', classItem_map, ← has_lower, ih, classLoop, if_neg hstop]

lemma matchClass_map (p : Bytes) (c : UInt8) : matchClass false (p.map toLower) (toLower c) =
    ((matchClass true p c).1, (matchClass true p c).2.map toLower) := by
  simp only [matchClass, skipByte_map
    (show notByte.toNat < 65 ∨ 90 < notByte.toNat ∧ notByte.toNat < 97 by decide), fold,
    classLoop_map, skipByte_map (show closeByte.toNat < 65 ∨ 90 < closeByte.toNat ∧
      closeByte.toNat < 97 by decide)]
  simp

lemma all_star_map (p : Bytes) : (p.map toLower).all (· == starByte) = p.all (· == starByte) := by
  rw [List.all_map]
  congr 1
  funext c
  exact Bool.eq_iff_iff.mpr
    (by simp [toLower_eq (show starByte.toNat < 65 ∨ 90 < starByte.toNat ∧ starByte.toNat < 97 by decide)])

def lowered (x : Bytes × Bytes) : Bytes × Bytes := (x.1.map toLower, x.2.map toLower)

def again (ci : Bool) : Option (Bytes × Bytes) → Bool
  | none => false
  | some (_, []) => false
  | some (q, _ :: t) => globImpl ci q t (some (q, t))

lemma globImpl_cons (ci : Bool) (p s : Bytes) (a b : UInt8) (star : Option (Bytes × Bytes)) :
    globImpl ci (b :: p) (a :: s) star =
    if b = starByte then globImpl ci p (a :: s) (some (p, a :: s)) else if b = anyByte then globImpl ci p s star
    else if b = openByte ∧ (matchClass ci p a).1 then globImpl ci (matchClass ci p a).2 s star
    else if b ≠ openByte ∧ fold ci a = fold ci b then globImpl ci p s star
    else again ci star := by
  rw [globImpl.eq_def]
  rcases star with _ | ⟨q, _ | ⟨c, t⟩⟩ <;> rfl

section

variable {a b : UInt8}

lemma lower_star : toLower b = starByte ↔ b = starByte := toLower_eq (by decide)

lemma lower_any : toLower b = anyByte ↔ b = anyByte := toLower_eq (by decide)

lemma lower_open : toLower b = openByte ↔ b = openByte := toLower_eq (by decide)

lemma class_lower : toLower b = openByte ∧ (matchClass false (p.map toLower) (toLower a)).1 = true ↔
    b = openByte ∧ (matchClass true p a).1 = true := by rw [lower_open, matchClass_map]

lemma lit_lower : toLower b ≠ openByte ∧ fold false (toLower a) = fold false (toLower b) ↔
    b ≠ openByte ∧ fold true a = fold true b := and_congr_left' lower_open.not

end

lemma globImpl_lower (p s : Bytes) (star : Option (Bytes × Bytes)) :
    globImpl true p s star = globImpl false (p.map toLower) (s.map toLower) (star.map lowered) := by
  induction p, s, star using globImpl.induct true with
  | case1 star p => rw [globImpl, map_nil, globImpl, all_star_map]
  | case2 a s => simp [globImpl]
  | case3 a s q => simp [globImpl, lowered]
  | case4 a s q b t ih => simpa [globImpl, lowered] using ih
  | case5 star a s p ih =>
    rw [globImpl_cons, if_pos rfl, ih, map_cons, map_cons, globImpl_cons, if_pos (lower_star.mpr rfl)]
    rfl
  | case6 star a s p h ih =>
    rw [globImpl_cons, if_neg h, if_pos rfl, ih, map_cons, map_cons, globImpl_cons, if_neg (lower_star.not.mpr h),
      if_pos (lower_any.mpr rfl)]
  | case7 star a s b p h h' hc ih =>
    rw [globImpl_cons, if_neg h, if_neg h', if_pos hc, ih, map_cons, map_cons, globImpl_cons,
      if_neg (lower_star.not.mpr h), if_neg (lower_any.not.mpr h'), if_pos (class_lower.mpr hc), matchClass_map]
  | case8 star a s b p h h' hc hl ih =>
    rw [globImpl_cons, if_neg h, if_neg h', if_neg hc, if_pos hl, ih, map_cons, map_cons, globImpl_cons,
      if_neg (lower_star.not.mpr h), if_neg (lower_any.not.mpr h'), if_neg (class_lower.not.mpr hc),
        if_pos (lit_lower.mpr hl)]
  | case9 a s b p h h' hc hl =>
    rw [globImpl_cons, if_neg h, if_neg h', if_neg hc, if_neg hl, map_cons, map_cons, globImpl_cons,
      if_neg (lower_star.not.mpr h), if_neg (lower_any.not.mpr h'), if_neg (class_lower.not.mpr hc),
        if_neg (lit_lower.not.mpr hl)]
    rfl
  | case10 a s b p h h' hc hl q' =>
    rw [globImpl_cons, if_neg h, if_neg h', if_neg hc, if_neg hl, map_cons, map_cons, globImpl_cons,
      if_neg (lower_star.not.mpr h), if_neg (lower_any.not.mpr h'), if_neg (class_lower.not.mpr hc),
        if_neg (lit_lower.not.mpr hl)]
    rfl
  | case11 a s b p h h' hc hl q' c t ih =>
    rw [globImpl_cons, if_neg h, if_neg h', if_neg hc, if_neg hl, map_cons, map_cons, globImpl_cons,
      if_neg (lower_star.not.mpr h), if_neg (lower_any.not.mpr h'), if_neg (class_lower.not.mpr hc),
        if_neg (lit_lower.not.mpr hl)]
    exact ih

lemma rayGlobMatchCi_eq (s p : Bytes) : rayGlobMatchCi s p = rayGlobMatch (s.map toLower) (p.map toLower) :=
  globImpl_lower p s none

end

/-- What a byte counts as where `char` is signed. -/
def charValue (c : UInt8) : ℤ := if c.toNat < 128 then c.toNat else c.toNat - 256

def Item.Accepts (c : UInt8) : Item → Prop
  | byte b => c = b
  | range lo hi => charValue lo ≤ charValue c ∧ charValue c ≤ charValue hi

def Token.Accepts (c : UInt8) : Token → Prop
  | lit b => c = b
  | any => True
  | cls false items => ∃ i ∈ items, i.Accepts c
  | cls true items => ∀ i ∈ items, ¬ i.Accepts c
  | star => False

/-- A string that a list of tokens stands for, each star for some string of its own. -/
inductive Expands : List Token → Bytes → Prop
  | nil : Expands [] []
  | one {t : Token} {c : UInt8} {ts : List Token} {s : Bytes} (h : t.Accepts c) :
    Expands ts s → Expands (t :: ts) (c :: s)
  | star {ts : List Token} {s : Bytes} (x : Bytes) : Expands ts s → Expands (.star :: ts) (x ++ s)

/-- The items of a class up to its bracket, which may stand first as an item. -/
inductive ReadsItems : Bool → Bytes → List Item → Bytes → Prop
  | unclosed (first : Bool) : ReadsItems first [] [] []
  | close (p : Bytes) : ReadsItems false (closeByte :: p) [] p
  | range {first : Bool} {lo hi : UInt8} {p rest : Bytes} {items : List Item} (hlo : first = true ∨ lo ≠ closeByte)
      (hhi : hi ≠ closeByte) : ReadsItems false p items rest →
      ReadsItems first (lo :: dashByte :: hi :: p) (.range lo hi :: items) rest
  | byte {first : Bool} {b : UInt8} {p rest : Bytes} {items : List Item} (hb : first = true ∨ b ≠ closeByte)
      (hp : ∀ hi q, p = dashByte :: hi :: q → hi = closeByte) : ReadsItems false p items rest →
      ReadsItems first (b :: p) (.byte b :: items) rest

inductive ReadsClass : Bytes → Token → Bytes → Prop
  | within {p rest : Bytes} {items : List Item} (hp : p.head? ≠ some notByte) : ReadsItems true p items rest →
      ReadsClass p (.cls false items) rest
  | without {p rest : Bytes} {items : List Item} : ReadsItems true p items rest →
      ReadsClass (notByte :: p) (.cls true items) rest

/-- A pattern as a list of tokens. -/
inductive Reads : Bytes → List Token → Prop
  | nil : Reads [] []
  | star {p : Bytes} {ts : List Token} : Reads p ts → Reads (starByte :: p) (.star :: ts)
  | any {p : Bytes} {ts : List Token} : Reads p ts → Reads (anyByte :: p) (.any :: ts)
  | cls {p rest : Bytes} {t : Token} {ts : List Token} (hc : ReadsClass p t rest) : Reads rest ts →
      Reads (openByte :: p) (t :: ts)
  | lit {b : UInt8} {p : Bytes} {ts : List Token} (hs : b ≠ starByte) (ha : b ≠ anyByte) (ho : b ≠ openByte) :
      Reads p ts → Reads (b :: p) (.lit b :: ts)

section

variable {first : Bool} {p rest s : Bytes} {items : List Item} {ts : List Token} {t : Token} {c : UInt8}

lemma toInt8_eq_charValue (c : UInt8) : c.toInt8.toInt = charValue c := by
  have h : c.toInt8.toInt = if 2 * c.toNat < 256 then (c.toNat : ℤ) else c.toNat - 256 :=
    c.toBitVec.toInt_eq_toNat_cond
  rw [h, charValue]
  split_ifs <;> omega

lemma between_iff (lo hi c : UInt8) :
    between lo hi c = true ↔ charValue lo ≤ charValue c ∧ charValue c ≤ charValue hi := by
  rw [between, Bool.and_eq_true, decide_eq_true_eq, decide_eq_true_eq, Int8.le_iff_toInt_le, Int8.le_iff_toInt_le,
    toInt8_eq_charValue, toInt8_eq_charValue, toInt8_eq_charValue]

lemma has_iff (c : UInt8) (i : Item) : i.has false c = true ↔ i.Accepts c := by
  cases i with
  | byte b => exact beq_iff_eq
  | range lo hi => exact between_iff lo hi c

lemma test_iff (t : Token) (c : UInt8) : t.test c = true ↔ t.Accepts c := by
  cases t with
  | lit b => exact beq_iff_eq
  | any => exact iff_of_true rfl trivial
  | star => exact iff_of_false Bool.false_ne_true id
  | cls neg items =>
    cases neg with
    | false => simp [Token.test, Token.Accepts, has_iff]
    | true => simp [Token.test, Token.Accepts, ← has_iff]

lemma matches_iff_expands : Matches (ts.map Token.wild) s ↔ Expands ts s := by
  constructor
  · intro h
    generalize hw : ts.map Token.wild = w at h
    induction h generalizing ts with
    | nil => exact map_eq_nil_iff.mp hw ▸ .nil
    | @one test a p s htest _ ih =>
      obtain ⟨t, ts, rfl, ht, hts⟩ := map_eq_cons_iff.mp hw
      have haccept : t.Accepts a := by
        cases t <;> first | cases ht; exact (test_iff _ _).mp htest | cases ht
      exact .one haccept (ih hts)
    | star x _ ih =>
      obtain ⟨t, ts, rfl, ht, hts⟩ := map_eq_cons_iff.mp hw
      cases t with
      | star => exact .star x (ih hts)
      | _ => cases ht
  · intro h
    induction h with
    | nil => exact .nil
    | @one t c ts s h _ ih =>
      cases t with
      | star => exact h.elim
      | _ => exact .one ((test_iff _ _).mpr h) ih
    | star x _ ih => exact .star x ih

lemma reads_items (first : Bool) (p : Bytes) :
    ReadsItems first p (classItems first p).1 (skipByte closeByte (classItems first p).2).2 := by
  induction first, p using classItems.induct with
  | case1 first => rw [classItems]; exact .unclosed first
  | case2 first b p hstop =>
    rw [classItems, if_pos hstop]
    obtain ⟨rfl, rfl⟩ : first = false ∧ b = closeByte := by simpa using hstop
    exact .close p
  | case3 first b p hstop _ _ _ ih =>
    rw [classItems, if_neg hstop]
    have hb : first = true ∨ b ≠ closeByte := by
      cases first <;> simp_all
    rcases p with _ | ⟨d, _ | ⟨hi, q⟩⟩
    · exact .byte hb (by simp) ih
    · exact .byte hb (by simp) ih
    · by_cases h : d = dashByte ∧ hi ≠ closeByte
      · obtain ⟨rfl, hhi⟩ := h
        have hitem : classItem b (dashByte :: hi :: q) = (.range b hi, q) := by rw [classItem, if_pos ⟨rfl, hhi⟩]
        rw [hitem] at ih ⊢
        exact .range hb hhi ih
      · have hitem : classItem b (d :: hi :: q) = (.byte b, d :: hi :: q) := by rw [classItem, if_neg h]
        rw [hitem] at ih ⊢
        refine .byte hb (fun hi' q' heq => ?_) ih
        obtain ⟨rfl, rfl, rfl⟩ : d = dashByte ∧ hi = hi' ∧ q = q' := by simpa using heq
        exact not_not.mp fun hne => h ⟨rfl, hne⟩

lemma ReadsItems.eq (h : ReadsItems first p items rest) :
    items = (classItems first p).1 ∧ rest = (skipByte closeByte (classItems first p).2).2 := by
  induction h with
  | unclosed first => rw [classItems]; exact ⟨rfl, rfl⟩
  | close p => rw [classItems, if_pos (by simp)]; exact ⟨rfl, rfl⟩
  | @range first lo hi p rest items hlo hhi _ ih =>
    have hstop : ¬ (!first && lo == closeByte) = true := by cases first <;> simp_all
    rw [classItems, if_neg hstop, classItem, if_pos ⟨rfl, hhi⟩]
    exact ⟨congrArg _ ih.1, ih.2⟩
  | @byte first b p rest items hb hp _ ih =>
    have hstop : ¬ (!first && b == closeByte) = true := by cases first <;> simp_all
    have hitem : classItem b p = (.byte b, p) := by
      rcases p with _ | ⟨d, _ | ⟨hi, q⟩⟩
      · rfl
      · rfl
      · rw [classItem, if_neg]
        rintro ⟨rfl, hne⟩
        exact hne (hp hi q rfl)
    rw [classItems, if_neg hstop, hitem]
    exact ⟨congrArg _ ih.1, ih.2⟩

lemma readsClass_iff : ReadsClass p t rest ↔ t = (readClass p).1 ∧ rest = (readClass p).2 := by
  have hskip : ∀ q : Bytes, q.head? ≠ some notByte → skipByte notByte q = (false, q) := by
    rintro (_ | ⟨b, q⟩) hq
    · rfl
    · rw [skipByte, if_neg fun h => hq (congrArg some h)]
  have hnot : ∀ q, skipByte notByte (notByte :: q) = (true, q) := fun q => by rw [skipByte, if_pos rfl]
  constructor
  · rintro (⟨hp, hi⟩ | hi)
    · rw [readClass, hskip _ hp]
      exact ⟨congrArg _ hi.eq.1, hi.eq.2⟩
    · rw [readClass, hnot]
      exact ⟨congrArg _ hi.eq.1, hi.eq.2⟩
  · rintro ⟨rfl, rfl⟩
    by_cases hp : p.head? = some notByte
    · obtain ⟨q, rfl⟩ := head?_eq_some_iff.mp hp
      rw [readClass, hnot]
      exact .without (reads_items true q)
    · rw [readClass, hskip _ hp]
      exact .within hp (reads_items true p)

lemma reads_tokens (p : Bytes) : Reads p (tokens p) := by
  induction p using tokens.induct with
  | case1 => rw [tokens]; exact .nil
  | case2 p ih => rw [tokens, if_pos rfl]; exact .star ih
  | case3 p h ih => rw [tokens, if_neg h, if_pos rfl]; exact .any ih
  | case4 p h h' ih =>
    rw [tokens, if_neg h, if_neg h', if_pos rfl]
    exact .cls (readsClass_iff.mpr ⟨rfl, rfl⟩) ih
  | case5 b p h h' h'' ih =>
    rw [tokens, if_neg h, if_neg h', if_neg h'']
    exact .lit h h' h'' ih

lemma reads_iff : Reads p ts ↔ ts = tokens p := by
  constructor
  · intro h
    induction h with
    | nil => rw [tokens]
    | star _ ih => rw [tokens, if_pos rfl, ih]
    | any _ ih => rw [tokens, if_neg (by decide), if_pos rfl, ih]
    | cls hc _ ih =>
      obtain ⟨rfl, rfl⟩ := readsClass_iff.mp hc
      rw [tokens, if_neg (by decide), if_neg (by decide), if_pos rfl, ih]
    | lit hs ha ho _ ih => rw [tokens, if_neg hs, if_neg ha, if_neg ho, ih]
  · rintro rfl
    exact reads_tokens p

lemma rayGlobMatch_expands (h : Reads p ts) (s : Bytes) : rayGlobMatch s p = true ↔ Expands ts s := by
  rw [rayGlobMatch_iff, reads_iff.mp h, ← matches_iff_expands, wilds]

end

end Rayforce.Glob
