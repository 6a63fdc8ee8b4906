import Rayforce.Lang.Progress

namespace Rayforce.Lang

open Library.Words Library.Binary64 Library.Reading

lemma skipBlanks_left (comment : Bool) (r : Text) : Left 0 r (skipBlanks comment r) := by
  fun_induction skipBlanks comment r with
  | case1 => exact Left.refl []
  | case2 cs ih => exact ((left_cons _ cs).trans ih).weaken (Nat.zero_le _)
  | case3 c cs h ih => exact ((left_cons c cs).trans ih).weaken (Nat.zero_le _)
  | case4 c cs h ih => exact ((left_cons c cs).trans ih).weaken (Nat.zero_le _)
  | case5 c cs h1 h2 ih => exact ((left_cons c cs).trans ih).weaken (Nat.zero_le _)
  | case6 => exact Left.refl _

lemma skipWsAndComments_left (r : Text) : Left 0 r (skipWsAndComments r) := skipBlanks_left false r

lemma checkStrings_safe (pool : ℕ) (vs : List Value) : Safe (checkStrings pool vs) fun _ => True := by
  fun_induction checkStrings pool vs with
  | case1 => trivial
  | case2 => trivial
  | case3 => trivial
  | _ => assumption

lemma buildVector_safe (vs : List Value) : Safe (buildVector vs) fun _ => True := by
  cases vs with
  | nil => trivial
  | cons v vs =>
    simp only [buildVector]
    cases v.atomType with
    | none => exact Safe.error _
    | some t =>
      refine Safe.ite (fun _ => Safe.ite (fun _ => ?_) fun _ => trivial) fun _ =>
        Safe.ite (fun _ => trivial) fun _ => Safe.error _
      exact (checkStrings_safe _ _).bind fun _ _ => trivial

lemma dictKeys_safe (ks : List Value) : Safe (dictKeys ks) fun _ => True := by
  refine Safe.ite (fun _ => trivial) fun _ => Safe.ite (fun _ => ?_) fun _ => trivial
  exact (checkStrings_safe _ _).bind fun _ _ => trivial

section

variable {expr : Text → Parsed (Value × Text)} {p r : Text} {close : UInt8}

lemma parseItems_leaves (hexpr : ∀ r, Leaves 1 r (expr r)) (limit : Option ℕ) (fuel : ℕ)
    (acc : List Value) (hfuel : r.length < fuel) : Leaves 0 r (parseItems expr close limit fuel r acc) := by
  induction fuel generalizing r acc with
  | zero => omega
  | succ fuel ih =>
    refine (safe_peek (Nat.zero_le _)).bind fun c _ => ?_
    refine Safe.ite (fun _ => Safe.ok (Left.refl r)) fun _ => Safe.ite (fun _ => Safe.error _) fun _ => ?_
    refine (hexpr r).bind fun ⟨v, s⟩ hs => ?_
    have hleft : Left 1 r (skipWsAndComments s) := hs.trans (skipWsAndComments_left s)
    have hlen := hleft.2
    exact ((ih (acc ++ [v]) (by omega)).after hleft).mono (Nat.zero_le _)

lemma closeBracket_left (hclose : close ≠ 0) : Safe (closeBracket close r) fun s => Left 1 r s := by
  refine (safe_peek (Nat.zero_le _)).bind fun c hc => ?_
  refine Safe.ite (fun he => ?_) fun _ => Safe.error _
  exact (safe_skip_one hc (by rwa [he])).mono fun s hs => hs.2

lemma safe_skip_open (h : p.getD 0 0 ≠ 0) : Safe (skip p 1 : Parsed Text) fun s =>
    Left 1 p (skipWsAndComments s) :=
  (safe_skip (length_pos_of_getD h)).mono fun s hs => hs.2.trans (skipWsAndComments_left s)

section

variable (hexpr : ∀ r, Leaves 1 r (expr r))
include hexpr

lemma parseVector_leaves (h : p.getD 0 0 ≠ 0) : Leaves 1 p (parseVector expr p) := by
  refine (safe_skip_open h).bind fun s hs => ?_
  refine (parseItems_leaves hexpr _ _ _ (Nat.lt_succ_self _)).bind fun ⟨items, u⟩ hu => ?_
  refine (closeBracket_left (by decide)).bind fun w hw => ?_
  refine (buildVector_safe items).bind fun v _ => ?_
  exact Safe.ok (((hs.trans hu).trans hw).weaken (by omega))

lemma parseList_leaves (h : p.getD 0 0 ≠ 0) : Leaves 1 p (parseList expr p) := by
  refine (safe_skip_open h).bind fun s hs => ?_
  refine (parseItems_leaves hexpr _ _ _ (Nat.lt_succ_self _)).bind fun ⟨items, u⟩ hu => ?_
  refine (closeBracket_left (by decide)).bind fun w hw => ?_
  exact Safe.ok (((hs.trans hu).trans hw).weaken (by omega))

omit hexpr in
lemma parseDictKey_leaves : Leaves 1 r (parseDictKey r) := by
  refine (safe_peek (Nat.zero_le _)).bind fun c hc => ?_
  refine Safe.ite (fun hq => parseString_leaves ?_) fun _ => ?_
  · rw [← hc.1, hq]
    decide
  · refine (safe_scan (by decide)).bind fun s hs => ?_
    exact Safe.ite (fun _ => Safe.error _) fun hne => Safe.ok (taken_ne_nil hs.2 hne)

lemma parsePair_leaves : Leaves 1 r (parsePair expr r) := by
  refine parseDictKey_leaves.bind fun ⟨k, s⟩ hs => ?_
  refine (expect_leaves _ (by decide)).bind fun u hu => ?_
  have hcolon : Left 1 (skipWsAndComments s) u := by
    rw [hu]
    exact left_cons _ u
  refine (hexpr (skipWsAndComments u)).bind fun ⟨v, w⟩ hw => ?_
  have hleft : Left 1 r u := ((hs.trans (skipWsAndComments_left s)).trans hcolon).weaken (by omega)
  exact Safe.ok (((hleft.trans (skipWsAndComments_left u)).trans hw).weaken (by omega))

lemma parsePairs_leaves (fuel : ℕ) (acc : List (Value × Value))
    (hfuel : r.length < fuel) : Leaves 0 r (parsePairs expr fuel r acc) := by
  induction fuel generalizing r acc with
  | zero => omega
  | succ fuel ih =>
    refine (safe_peek (Nat.zero_le _)).bind fun c _ => ?_
    refine Safe.ite (fun _ => Safe.ok (Left.refl r)) fun _ => ?_
    refine (parsePair_leaves hexpr).bind fun ⟨kv, s⟩ hs => ?_
    have hleft : Left 1 r (skipWsAndComments s) := hs.trans (skipWsAndComments_left s)
    have hlen := hleft.2
    exact ((ih (acc ++ [kv]) (by omega)).after hleft).mono (Nat.zero_le _)

lemma parseDict_leaves (h : p.getD 0 0 ≠ 0) : Leaves 1 p (parseDict expr p) := by
  refine (safe_skip_open h).bind fun s hs => ?_
  refine (parsePairs_leaves hexpr _ _ (Nat.lt_succ_self _)).bind fun ⟨kvs, u⟩ hu => ?_
  refine (closeBracket_left (by decide)).bind fun w hw => ?_
  refine (dictKeys_safe _).bind fun ks _ => ?_
  exact Safe.ok (((hs.trans hu).trans hw).weaken (by omega))

end

end

section

variable {readF64 : Bytes → Option Double} {expr : Text → Parsed (Value × Text)} {p r : Text}

lemma parseMinus_leaves (h : r.getD 0 0 ≠ 0) : Leaves 1 r (parseMinus readF64 r) := by
  refine (safe_peek (length_pos_of_getD h)).bind fun c _ => ?_
  exact Safe.ite (fun _ => parseNumber_reads.mono fun _ ha => ha.1) fun _ => parseName_leaves

lemma parseExprInner_leaves (hexpr : ∀ r, Leaves 1 r (expr r)) : Leaves 1 p (parseExprInner readF64 expr p) := by
  have hleft := skipWsAndComments_left p
  refine (safe_peek (Nat.zero_le _)).bind fun c hc => ?_
  have hne : ∀ k, pa c = k → k ≠ .finish → (skipWsAndComments p).getD 0 0 ≠ 0 := by
    intro k hk hfin h0
    rw [← hc.1] at h0
    rw [h0] at hk
    exact hfin (hk.symm.trans (by decide))
  have hback : ∀ {x : Parsed (Value × Text)}, Leaves 1 (skipWsAndComments p) x → Leaves 1 p x :=
    fun h => (Leaves.after h hleft).mono (by omega)
  cases hk : pa c with
  | finish => exact Safe.error _
  | digit => exact hback (parseNumber_reads.mono fun _ ha => ha.1)
  | minus => exact hback (parseMinus_leaves (hne _ hk (by decide)))
  | alpha => exact hback parseName_leaves
  | string => exact hback (parseString_leaves (hne _ hk (by decide)))
  | quote => exact hback (parseSymbol_leaves (hne _ hk (by decide)))
  | lparen => exact hback (parseList_leaves hexpr (hne _ hk (by decide)))
  | lbrack => exact hback (parseVector_leaves hexpr (hne _ hk (by decide)))
  | lbrace => exact hback (parseDict_leaves hexpr (hne _ hk (by decide)))
  | rparen => exact Safe.error _
  | rbrack => exact Safe.error _
  | rbrace => exact Safe.error _
  | colon => exact hback (parseKeyword_leaves (hne _ hk (by decide)))
  | err => exact hback parseName_leaves
  | ws => exact hback parseName_leaves
  | semi => exact hback parseName_leaves

lemma parseExpr_leaves (stack depth : ℕ) (h : stack + depth = rayParseMaxDepth) (p : Text) :
    Leaves 1 p (parseExpr readF64 stack depth p) := by
  induction stack generalizing depth p with
  | zero =>
    rw [parseExpr, if_pos (by omega)]
    exact Safe.error _
  | succ stack ih =>
    rw [parseExpr, if_neg (by omega)]
    exact parseExprInner_leaves (ih (depth + 1) (by omega))

lemma parseMore_safe (hexpr : ∀ r, Leaves 1 r (expr r)) (fuel : ℕ) (acc : List Value)
    (hfuel : r.length < fuel) : Safe (parseMore expr fuel r acc) fun _ => True := by
  induction fuel generalizing r acc with
  | zero => omega
  | succ fuel ih =>
    refine (safe_peek (Nat.zero_le _)).bind fun c _ => ?_
    refine Safe.ite (fun _ => trivial) fun _ => Safe.ite (fun _ => Safe.error _) fun _ => ?_
    refine (hexpr r).bind fun ⟨v, s⟩ hs => ?_
    have hlen := (hs.trans (skipWsAndComments_left s)).2
    exact ih (acc ++ [v]) (by omega)

lemma rayParse_safe (src : Text) : Safe (rayParse readF64 src) fun _ => True := by
  have hexpr : ∀ r, Leaves 1 r (parseExpr readF64 rayParseMaxDepth 0 r) := parseExpr_leaves _ _ rfl
  refine (hexpr src).bind fun ⟨first, r⟩ _ => ?_
  refine (safe_peek (Nat.zero_le _)).bind fun c _ => ?_
  refine Safe.ite (fun _ => trivial) fun _ => ?_
  exact (parseMore_safe hexpr _ _ (Nat.lt_succ_self _)).bind fun _ _ => trivial

end

end Rayforce.Lang
