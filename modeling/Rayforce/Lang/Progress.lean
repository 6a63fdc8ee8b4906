import Rayforce.Lang.Parse

namespace Rayforce.Lang

open Library.Words Library.Binary64 Library.Reading List Option

variable {c : UInt8} {isNeg : Bool} {ch : Char} {s : Text}

abbrev Leaves (n : ℕ) (start : Text) (x : Outcome ε (α × Text)) : Prop :=
  Safe x fun a => Left n start a.2

section

variable {ε α : Type} {start r : Text} {n m : ℕ} {x : Outcome ε (α × Text)}

lemma isChar_zero {c : Char} (h : byte c ≠ 0) : isChar c 0 = false :=
  decide_eq_false (Ne.symm h)

lemma Leaves.mono (h : Leaves n start x) (hm : m ≤ n) : Leaves m start x :=
  Safe.mono h fun _ ha => ha.weaken hm

lemma Leaves.after (h : Leaves m r x) (hr : Left n start r) : Leaves (n + m) start x :=
  Safe.mono h fun _ ha => hr.trans ha

lemma safe_skip_one (hc : c = r.getD 0 0 ∧ (c ≠ 0 → 0 < r.length)) (h : c ≠ 0) :
    Safe (skip r 1 : Outcome ε Text) fun s => s = r.drop 1 ∧ Left 1 r s :=
  safe_skip (hc.2 h)

lemma ne_zero_of_isChar (hch : byte ch ≠ 0) (h : isChar ch c = true) : c ≠ 0 := by
  rintro rfl
  rw [isChar_zero hch] at h
  cases h

lemma ne_zero_of_isDigit (h : isDigit c = true) : c ≠ 0 := by
  rintro rfl
  cases h

lemma readPair_leaves (h : 2 ≤ r.length) : Safe (readPair r : Outcome ε (ℕ × Text)) fun a =>
      a.1 = digitVal (r.getD 0 0) * 10 + digitVal (r.getD 1 0) ∧ a.2 = r.drop 2 ∧ Left 2 r a.2 := by
  refine (safe_peek (by omega)).bind fun c hc => ?_
  refine (safe_peek (by omega)).bind fun d hd => ?_
  refine (safe_skip h).bind fun s hs => ?_
  exact Safe.ok ⟨by rw [hc.1, hd.1], hs.1, hs.2⟩

lemma digits_two_zero : ∀ p ∈ [isDigit, isDigit], p 0 = false := by
  intro p hp
  fin_cases hp <;> rfl

lemma pairField_leaves (e : ε) : Safe (pairField e r) fun a =>
    (∃ a1 a2 : UInt8, isDigit a1 = true ∧ isDigit a2 = true ∧
      r = a1 :: a2 :: a.2 ∧ a.1 = digitVal a1 * 10 + digitVal a2) := by
  refine (safe_looksAt digits_two_zero).bind fun b hb => ?_
  refine Safe.ite (fun ht => ?_) fun _ => Safe.error e
  obtain ⟨hlen, hall⟩ := hb ht
  obtain ⟨a1, a2, s, rfl⟩ : ∃ a1 a2 s, r = a1 :: a2 :: s := by
    match r, hlen with
    | a1 :: a2 :: s, _ => exact ⟨a1, a2, s, rfl⟩
  simp only [length_cons, length_nil, Nat.zero_add, Nat.reduceAdd, take_succ_cons,
    take_zero, forall₂_cons, forall₂_nil_left_iff, and_true] at hall
  refine (readPair_leaves (by simp)).mono fun a ha => ?_
  refine ⟨a1, a2, hall.1, hall.2, ?_, ha.1⟩
  rw [ha.2.1]
  rfl

lemma expect_leaves (e : ε) (hch : byte ch ≠ 0) : Safe (expect e ch r) fun s => r = byte ch :: s := by
  refine (safe_peek (Nat.zero_le _)).bind fun c hc => ?_
  refine Safe.ite (fun ht => ?_) fun _ => Safe.error e
  have hne : c ≠ 0 := ne_zero_of_isChar hch ht
  obtain ⟨a, s, rfl⟩ := exists_cons_of_length_pos (hc.2 hne)
  refine (safe_skip (hc.2 hne)).mono fun s' hs => ?_
  have ha : a = byte ch := hc.1.symm.trans (decide_eq_true_eq.mp ht)
  rw [hs.1, ha]
  rfl

lemma left_cons (c : UInt8) (s : Text) : Left 1 (c :: s) s := ⟨suffix_cons c s, by simp⟩

end

section

variable {r : Text}

lemma optDigit_leaves (ms : ℕ) : Leaves 0 r (optDigit ms r : Outcome Unit (ℕ × Text)) := by
  refine (safe_peek (Nat.zero_le _)).bind fun c hc => ?_
  refine Safe.ite (fun hd => ?_) fun _ => Safe.ok (Left.refl r)
  refine (safe_skip_one hc (ne_zero_of_isDigit hd)).bind fun s hs => ?_
  exact Safe.ok (hs.2.weaken (Nat.zero_le _))

lemma readMillis_leaves : Leaves 0 r (readMillis r) := by
  refine (safe_peek (Nat.zero_le _)).bind fun c hc => ?_
  refine Safe.ite (fun hp => ?_) fun _ => Safe.ok (Left.refl r)
  refine (safe_skip_one hc (ne_zero_of_isChar (by decide) hp)).bind fun s hs => ?_
  refine (safe_peek (Nat.zero_le _)).bind fun d hd => ?_
  refine Safe.ite (fun hdig => ?_) fun _ => Safe.error ()
  refine (safe_skip_one hd (ne_zero_of_isDigit hdig)).bind fun u hu => ?_
  refine (optDigit_leaves _).bind fun ⟨ms, v⟩ hv => ?_
  exact ((optDigit_leaves ms).after (hs.2.trans (hu.2.trans hv))).mono (Nat.zero_le _)

lemma readClock_leaves : Leaves 1 r (readClock r) := by
  refine (pairField_leaves ()).bind fun ⟨hh, r1⟩ ⟨a1, a2, _, _, h1, _⟩ => ?_
  refine (expect_leaves () (by decide)).bind fun r2 h2 => ?_
  refine (pairField_leaves ()).bind fun ⟨mm, r3⟩ ⟨b1, b2, _, _, h3, _⟩ => ?_
  refine (expect_leaves () (by decide)).bind fun r4 h4 => ?_
  refine (pairField_leaves ()).bind fun ⟨ss, r5⟩ ⟨c1, c2, _, _, h5, _⟩ => ?_
  refine readMillis_leaves.bind fun ⟨ms, r6⟩ h6 => ?_
  have hleft : Left 8 r r5 := by
    simp only at h1 h3 h5
    rw [h1, h2, h3, h4, h5]
    exact ⟨⟨[a1, a2, byte ':', b1, b2, byte ':', c1, c2], rfl⟩, by simp⟩
  exact Safe.ok ((hleft.trans h6).weaken (by omega))

lemma tryParseTime_leaves : Leaves 1 r (tryParseTime r) := by
  refine (safe_peek (Nat.zero_le _)).bind fun c hc => ?_
  refine Safe.ite (fun hm => ?_) fun _ => ?_
  · refine (safe_skip_one hc (ne_zero_of_isChar (by decide) hm)).bind fun s hs => ?_
    refine readClock_leaves.bind fun ⟨ms, u⟩ hu => ?_
    exact Safe.ok ((hs.2.trans hu).weaken (by omega))
  · refine readClock_leaves.bind fun ⟨ms, u⟩ hu => ?_
    exact Safe.ok hu

end

section

variable {start r rest : Text} {y m d : ℕ} {t : ℕ × ℕ × ℕ × ℕ}

def pairValue (a b : UInt8) : ℕ := digitVal a * 10 + digitVal b

def DateText (start : Text) (y m d : ℕ) (rest : Text) : Prop :=
  ∃ ys m1 m2 d1 d2, start = ys ++ byte '.' :: m1 :: m2 :: byte '.' :: d1 :: d2 :: rest ∧
    4 ≤ ys.length ∧ (∀ c ∈ ys ++ [m1, m2, d1, d2], isDigit c = true) ∧
    y = digitsValue (ys.take 4) ∧ m = pairValue m1 m2 ∧ d = pairValue d1 d2

def TimeText (r : Text) (t : ℕ × ℕ × ℕ × ℕ) (rest : Text) : Prop :=
  ∃ h1 h2 m1 m2 s1 s2 fs, r = h1 :: h2 :: byte ':' :: m1 :: m2 :: byte ':' :: s1 :: s2 :: byte '.' ::
      (fs ++ rest) ∧
    (∀ c ∈ [h1, h2, m1, m2, s1, s2] ++ fs, isDigit c = true) ∧
    t = (pairValue h1 h2, pairValue m1 m2, pairValue s1 s2, nanosOf (fs ++ rest) (toInt32 fs.length))

def NumberValue (start : Text) (v : Value) (rest : Text) : Prop :=
  match v with
  | .date days => (days = -2 ^ 31 ∧ start = byte '0' :: byte 'N' :: byte 'd' :: rest) ∨
      ∃ y m d, DateText start y m d rest ∧ (1 ≤ m ∧ m ≤ 12 ∧ 1 ≤ d) ∧ days = ymdToDate y m d
  | .timestamp ns => (ns = -2 ^ 63 ∧ start = byte '0' :: byte 'N' :: byte 'p' :: rest) ∨
      ∃ y m d t r, DateText start y m d (byte 'D' :: r) ∧ TimeText r t rest ∧
        (1 ≤ m ∧ m ≤ 12 ∧ 1 ≤ d) ∧ (t.1 ≤ 23 ∧ t.2.1 ≤ 59 ∧ t.2.2.1 ≤ 59) ∧
        encodeTimestamp (ymdToDate y m d) t = .ok v
  | _ => True

abbrev ReadsNumber (start : Text) (x : Parsed (Value × Text)) : Prop :=
  Safe x fun a => Left 1 start a.2 ∧ NumberValue start a.1 a.2

lemma taken_ne_nil (h : Left 0 start r) (hne : taken start r ≠ []) : Left 1 start r := by
  refine ⟨h.1, ?_⟩
  by_contra hlen
  have hle := h.2
  refine hne ?_
  rw [taken, show start.length - r.length = 0 by omega, take_zero]

end

section

variable {readF64 : Bytes → Option Double} {start r : Text}

lemma scanFraction_leaves : Leaves 0 r (scanFraction r) := by
  have hps : ∀ p ∈ [isChar '.', isDigit], p 0 = false := by
    intro p hp
    fin_cases hp <;> rfl
  refine (safe_looksAt hps).bind fun b hb => ?_
  refine Safe.ite (fun ht => ?_) fun _ => Safe.ok (Left.refl r)
  have hlen : 2 ≤ r.length := (hb ht).1
  refine (safe_skip (show 1 ≤ r.length by omega)).bind fun s hs => ?_
  refine (safe_scan rfl).bind fun u hu => ?_
  exact Safe.ok ((hs.2.trans hu.2).weaken (Nat.zero_le _))

lemma skipSign_left : Safe (skipSign r) fun s => Left 0 r s := by
  refine (safe_peek (Nat.zero_le _)).bind fun c hc => ?_
  refine Safe.ite (fun hd => ?_) fun _ => Safe.ok (Left.refl r)
  have hne : c ≠ 0 := by
    rintro rfl
    cases hd
  exact (safe_skip_one hc hne).mono fun s hs => hs.2.weaken (Nat.zero_le _)

lemma scanExponent_leaves : Leaves 0 r (scanExponent r) := by
  refine (safe_peek (Nat.zero_le _)).bind fun c hc => ?_
  refine Safe.ite (fun he => ?_) fun _ => Safe.ok (Left.refl r)
  have hne : c ≠ 0 := by
    rintro rfl
    cases he
  refine (safe_skip_one hc hne).bind fun s hs => ?_
  refine skipSign_left.bind fun u hu => ?_
  refine (safe_scan rfl).bind fun v hv => ?_
  exact Safe.ok ((hs.2.trans (hu.trans hv.2)).weaken (Nat.zero_le _))

lemma floatLiteral_reads (h : Left 0 start r) : ReadsNumber start (floatLiteral readF64 (taken start r) r) := by
  rw [floatLiteral]
  cases hv : rayParseF64 readF64 (taken start r) with
  | none => exact Safe.error _
  | some v =>
    refine ⟨taken_ne_nil h fun hnil => ?_, trivial⟩
    rw [hnil] at hv
    cases hv

lemma intSuffix_reads (v : ℤ) (h : Left 1 start r) : ReadsNumber start (intSuffix v r) := by
  refine (safe_peek (Nat.zero_le _)).bind fun c hc => ?_
  refine Safe.ite (fun hh => ?_) fun _ => Safe.ite (fun hi => ?_) fun _ => Safe.ok ⟨h, trivial⟩
  · refine (safe_skip_one hc (ne_zero_of_isChar (by decide) hh)).bind fun s hs => ?_
    exact Safe.ite (fun _ => Safe.error _) fun _ => Safe.ok ⟨(h.trans hs.2).weaken (by omega), trivial⟩
  · refine (safe_skip_one hc (ne_zero_of_isChar (by decide) hi)).bind fun s hs => ?_
    exact Safe.ite (fun _ => Safe.error _) fun _ => Safe.ok ⟨(h.trans hs.2).weaken (by omega), trivial⟩

lemma plainNumber_reads (h : Left 0 start r) : ReadsNumber start (plainNumber readF64 start r) := by
  refine scanFraction_leaves.bind fun ⟨frac, s⟩ hs => ?_
  refine scanExponent_leaves.bind fun ⟨exp, u⟩ hu => ?_
  have hleft : Left 0 start u := h.trans (hs.trans hu)
  refine Safe.ite (fun _ => floatLiteral_reads hleft) fun _ => ?_
  cases hv : Numparse.rayParseI64 (taken start u) with
  | none => exact floatLiteral_reads hleft
  | some nv =>
    refine intSuffix_reads nv.2.toInt (taken_ne_nil hleft fun hnil => ?_)
    rw [hnil] at hv
    cases hv

end

section

variable {readF64 : Bytes → Option Double} {start dstart r : Text}

lemma readTimeOfDay_spec : Safe (readTimeOfDay r) fun a =>
    TimeText r a.1 a.2 ∧ a.1.1 ≤ 23 ∧ a.1.2.1 ≤ 59 ∧ a.1.2.2.1 ≤ 59 := by
  refine (pairField_leaves _).bind fun ⟨hh, r1⟩ ⟨a1, a2, ha1, ha2, h1, hhh⟩ => ?_
  refine (expect_leaves _ (by decide)).bind fun r2 h2 => ?_
  refine (pairField_leaves _).bind fun ⟨mi, r3⟩ ⟨b1, b2, hb1, hb2, h3, hmi⟩ => ?_
  refine (expect_leaves _ (by decide)).bind fun r4 h4 => ?_
  refine (pairField_leaves _).bind fun ⟨ss, r5⟩ ⟨c1, c2, hc1, hc2, h5, hss⟩ => ?_
  refine (expect_leaves _ (by decide)).bind fun fstart h6 => ?_
  refine Safe.ite (fun _ => Safe.error _) fun hle => ?_
  refine (safe_scan rfl).bind fun r7 h7 => ?_
  simp only [not_or, not_lt] at hle hhh hmi hss h1 h3 h5
  refine Safe.ok ⟨⟨a1, a2, b1, b2, c1, c2, fstart.takeWhile isDigit, ?_, ?_, ?_⟩, hle⟩
  · rw [h7.1, takeWhile_append_dropWhile, h1, h2, h3, h4, h5, h6]
  · intro c hc
    simp only [cons_append, nil_append, mem_cons] at hc
    obtain rfl | rfl | rfl | rfl | rfl | rfl | hc := hc
    · exact ha1
    · exact ha2
    · exact hb1
    · exact hb2
    · exact hc1
    · exact hc2
    · exact mem_takeWhile_imp hc
  · have hlen : fstart.length - r7.length = (fstart.takeWhile isDigit).length := by
      have := congrArg length (takeWhile_append_dropWhile (p := isDigit) (l := fstart))
      rw [length_append] at this
      rw [h7.1]
      omega
    rw [h7.1, takeWhile_append_dropWhile, hhh, hmi, hss, ← hlen, h7.1]
    rfl

lemma DateText.left {y m d : ℕ} (h : DateText start y m d r) : Left 10 start r := by
  obtain ⟨ys, m1, m2, d1, d2, rfl, hlen, -⟩ := h
  refine ⟨⟨ys ++ [byte '.', m1, m2, byte '.', d1, d2], by simp⟩, ?_⟩
  simp only [length_append, length_cons]
  omega

lemma TimeText.left {t : ℕ × ℕ × ℕ × ℕ} {rest : Text} (h : TimeText r t rest) : Left 0 r rest := by
  obtain ⟨h1, h2, m1, m2, s1, s2, fs, rfl, -⟩ := h
  refine ⟨⟨h1 :: h2 :: byte ':' :: m1 :: m2 :: byte ':' :: s1 :: s2 :: byte '.' :: fs, by simp⟩, ?_⟩
  simp only [length_append, length_cons]
  omega

lemma encodeTimestamp_spec {days : ℤ} {t : ℕ × ℕ × ℕ × ℕ} :
    Safe (encodeTimestamp days t) fun v => encodeTimestamp days t = .ok v ∧ ∃ ns, v = .timestamp ns := by
  rw [encodeTimestamp]
  refine Safe.ite (fun _ => Safe.error _) fun h => ?_
  exact Safe.ok ⟨if_neg h, _, rfl⟩

lemma finishDate_reads {y m d : ℕ} (h : DateText start y m d r) (hm : 1 ≤ m ∧ m ≤ 12 ∧ 1 ≤ d) :
    ReadsNumber start (finishDate (ymdToDate y m d) r) := by
  refine (safe_peek (Nat.zero_le _)).bind fun c hc => ?_
  refine Safe.ite (fun hD => ?_) fun _ => ?_
  · have hne : c ≠ 0 := ne_zero_of_isChar (by decide) hD
    obtain ⟨a, s, rfl⟩ := exists_cons_of_length_pos (hc.2 hne)
    have ha : a = byte 'D' := hc.1.symm.trans (decide_eq_true_eq.mp hD)
    refine (safe_skip (hc.2 hne)).bind fun s' hs => ?_
    obtain rfl : s' = s := hs.1
    refine readTimeOfDay_spec.bind fun ⟨t, u⟩ ⟨ht, hclock⟩ => ?_
    refine encodeTimestamp_spec.bind fun v ⟨hv, ns, hns⟩ => ?_
    refine Safe.ok ⟨((h.left.trans hs.2).trans ht.left).weaken (by omega), ?_⟩
    rw [ha] at h
    rw [hns] at hv ⊢
    exact .inr ⟨y, m, d, t, s', h, ht, hm, hclock, hv⟩
  · exact Safe.ok ⟨h.left.weaken (by omega), .inr ⟨y, m, d, h, hm, rfl⟩⟩

lemma readYear_spec (h : 4 ≤ r.length) : Safe (readYear r) fun y => y = digitsValue (r.take 4) := by
  refine (safe_peek (by omega)).bind fun a ha => ?_
  refine (safe_peek (by omega)).bind fun b hb => ?_
  refine (safe_peek (by omega)).bind fun c hc => ?_
  refine (safe_peek (by omega)).bind fun d hd => ?_
  match r, h with
  | w :: x :: y :: z :: s, _ =>
    rw [ha.1, hb.1, hc.1, hd.1]
    exact Safe.ok rfl

lemma dateTail_zero : ∀ p ∈ [isChar '.', isDigit, isDigit, isChar '.'], p 0 = false := by
  intro p hp
  fin_cases hp <;> rfl

lemma parseDate_reads {ys : Text} (hstart : start = ys ++ r) (hlen : 4 ≤ ys.length)
    (hys : ∀ c ∈ ys, isDigit c = true) (hr : 4 ≤ r.length)
    (hall : List.Forall₂ (fun (p : UInt8 → Bool) c => p c = true)
      [isChar '.', isDigit, isDigit, isChar '.'] (r.take 4)) : ReadsNumber start
        (parseDate readF64 start start r) := by
  obtain ⟨p1, m1, m2, p2, s, rfl⟩ : ∃ p1 m1 m2 p2 s, r = p1 :: m1 :: m2 :: p2 :: s := by
    match r, hr with
    | p1 :: m1 :: m2 :: p2 :: s, _ => exact ⟨p1, m1, m2, p2, s, rfl⟩
  simp only [take_succ_cons, take_zero, forall₂_cons, forall₂_nil_left_iff,
    and_true, isChar, decide_eq_true_eq] at hall
  obtain ⟨rfl, hm1, hm2, rfl⟩ := hall
  have hplain : ReadsNumber start (plainNumber readF64 start start) := plainNumber_reads (Left.refl start)
  refine (readYear_spec (by rw [hstart, length_append]; omega)).bind fun y hy => ?_
  refine (safe_skip (by simp)).bind fun r1 hr1 => ?_
  obtain rfl : r1 = m1 :: m2 :: byte '.' :: s := hr1.1
  refine (readPair_leaves (by simp)).bind fun ⟨m, r2⟩ ⟨hm, hr2, _⟩ => ?_
  simp only at hm hr2
  obtain rfl : r2 = byte '.' :: s := hr2
  refine (safe_peek (Nat.zero_le _)).bind fun c hc => ?_
  refine Safe.ite (fun _ => ?_) fun _ => hplain
  refine (safe_skip (by simp)).bind fun r3 hr3 => ?_
  obtain rfl : r3 = s := hr3.1
  refine (safe_looksAt digits_two_zero).bind fun b hb => ?_
  refine Safe.ite (fun ht => ?_) fun _ => hplain
  obtain ⟨hlen3, hall3⟩ := hb ht
  obtain ⟨d1, d2, u, rfl⟩ : ∃ d1 d2 u, r3 = d1 :: d2 :: u := by
    match r3, hlen3 with
    | d1 :: d2 :: u, _ => exact ⟨d1, d2, u, rfl⟩
  simp only [length_cons, length_nil, Nat.zero_add, Nat.reduceAdd, take_succ_cons,
    take_zero, forall₂_cons, forall₂_nil_left_iff, and_true] at hall3
  refine (readPair_leaves (by simp)).bind fun ⟨d, r4⟩ ⟨hd, hr4, _⟩ => ?_
  simp only at hd hr4
  obtain rfl : r4 = u := hr4
  refine Safe.ite (fun _ => Safe.error _) fun hrange => ?_
  have hdate : DateText start y m d r4 := by
    refine ⟨ys, m1, m2, d1, d2, hstart, hlen, ?_, ?_, hm, hd⟩
    · intro c hc
      simp only [mem_append, mem_cons, not_mem_nil, or_false] at hc
      obtain hc | rfl | rfl | rfl | rfl := hc
      · exact hys c hc
      · exact hm1
      · exact hm2
      · exact hall3.1
      · exact hall3.2
    · rw [hy, hstart, take_append_of_le_length hlen]
  simp only [not_or, not_lt] at hrange
  exact finishDate_reads hdate ⟨hrange.1, hrange.2.1, hrange.2.2.1⟩

end

section

variable {readF64 : Bytes → Option Double} {start dstart r : Text}

lemma parseTime_reads (h : Left 0 start dstart) : ReadsNumber start (parseTime readF64 start dstart) := by
  refine tryParseTime_leaves.attempt.bind fun o ho => ?_
  cases o with
  | some a => exact Safe.ok ⟨ho a rfl, trivial⟩
  | none =>
    refine (safe_scan rfl).bind fun s hs => ?_
    exact plainNumber_reads (h.trans hs.2)

lemma four_le_of_toInt32 {n : ℕ} (h : toInt32 n = 4) : 4 ≤ n := by
  rw [toInt32] at h
  by_cases hc : n % 4294967296 < 2147483648
  · rw [if_pos hc] at h
    omega
  · rw [if_neg hc] at h
    omega

lemma parseDigits_reads (h : Left 0 start dstart) (hneg : isNeg = false → dstart = start) :
    ReadsNumber start (parseDigits readF64 start isNeg dstart) := by
  refine (safe_scan rfl).bind fun r hr => ?_
  have hplain : ReadsNumber start (plainNumber readF64 start r) := plainNumber_reads (h.trans hr.2)
  rcases Decidable.em (toInt32 (dstart.length - r.length) = 4 ∧ isNeg = false) with hfour | hfour
  · rw [if_pos hfour]
    refine (safe_looksAt dateTail_zero).bind fun b hb => ?_
    refine Safe.ite (fun ht => ?_) fun _ => hplain
    obtain rfl := hneg hfour.2
    obtain ⟨hlen, hall⟩ := hb ht
    have hsplit : dstart = dstart.takeWhile isDigit ++ r := by
      rw [hr.1, takeWhile_append_dropWhile]
    have hcount : 4 ≤ (dstart.takeWhile isDigit).length := by
      have h4 := four_le_of_toInt32 hfour.1
      have := congrArg length hsplit
      rw [length_append] at this
      omega
    exact parseDate_reads hsplit hcount (fun c hc => mem_takeWhile_imp hc) hlen hall
  · rw [if_neg hfour]
    rcases Decidable.em (toInt32 (dstart.length - r.length) = 2) with htwo | htwo
    · rw [if_pos htwo]
      refine (safe_peek (Nat.zero_le _)).bind fun c _ => ?_
      exact Safe.ite (fun _ => parseTime_reads h) fun _ => hplain
    · rw [if_neg htwo]
      exact hplain

lemma rayParseU64Hex_leaves (n taken v : ℕ) :
    Safe (rayParseU64Hex n r taken v) fun a => a.1 - taken ≤ a.1 ∧ Left (a.1 - taken) r a.2.2 := by
  induction n generalizing r taken v with
  | zero => exact Safe.ok ⟨Nat.sub_le _ _, by simpa using Left.refl r⟩
  | succ n ih =>
    refine (safe_peek (Nat.zero_le _)).bind fun c hc => ?_
    cases hx : hexVal c with
    | none => exact Safe.ok ⟨Nat.sub_le _ _, by simpa using Left.refl r⟩
    | some d =>
      have hne : c ≠ 0 := by
        rintro rfl
        cases hx
      refine (safe_skip_one hc hne).bind fun s hs => ?_
      refine (ih (taken + 1) (v * 16 + d)).mono fun a ha => ⟨Nat.sub_le _ _, ?_⟩
      exact (hs.2.trans ha.2).weaken (by omega)

lemma parseHex_reads (h : Left 1 start r) : ReadsNumber start (parseHex r) := by
  refine (rayParseU64Hex_leaves 16 0 0).bind fun ⟨n, v, s⟩ hs => ?_
  exact Safe.ite (fun _ => Safe.error _) fun _ => Safe.ok ⟨(h.trans hs.2).weaken (by omega), trivial⟩

lemma nullLiteral_numberValue {v : Value} (h : nullLiteral c = some v) :
    NumberValue (byte '0' :: byte 'N' :: c :: s) v s := by
  simp only [nullLiteral] at h
  split_ifs at h with _ _ hd _ hp <;> obtain rfl := some.inj h
  · trivial
  · trivial
  · exact .inl ⟨rfl, by rw [decide_eq_true_eq.mp hd]⟩
  · trivial
  · exact .inl ⟨rfl, by rw [decide_eq_true_eq.mp hp]⟩
  · trivial
  · trivial

lemma parseNull_reads (hs : start = byte '0' :: byte 'N' :: s) :
    ReadsNumber start (parseNull readF64 start start) := by
  refine (safe_peek (by rw [hs]; simp)).bind fun c hc => ?_
  cases hv : nullLiteral c with
  | some v =>
    have hne : c ≠ 0 := by
      rintro rfl
      cases hv
    have hlen : 3 ≤ start.length := hc.2 hne
    refine (safe_skip hlen).bind fun r hr => ?_
    refine Safe.ok ⟨hr.2.weaken (by omega), ?_⟩
    match s, hs with
    | [], hs => simp [hs] at hlen
    | a :: u, hs =>
      have ha : c = a := by
        rw [hc.1, hs]
        rfl
      have hu : r = u := by
        rw [hr.1, hs]
        rfl
      rw [hs, hu, ← ha]
      exact nullLiteral_numberValue hv
  | none =>
    refine Safe.ite (fun _ => parseDigits_reads (Left.refl start) fun _ => rfl) fun _ => ?_
    refine (safe_skip (by rw [hs]; simp)).bind fun r hr => ?_
    exact Safe.ok ⟨hr.2.weaken (by omega), trivial⟩

lemma parseUnsigned_reads (h : Left 0 start dstart) (hneg : isNeg = false → dstart = start) :
    ReadsNumber start (parseUnsigned readF64 start isNeg dstart) := by
  have hx : ∀ p ∈ [isChar '0', isChar 'x'], p 0 = false := by
    intro p hp
    fin_cases hp <;> rfl
  have hN : ∀ p ∈ [isChar '0', isChar 'N'], p 0 = false := by
    intro p hp
    fin_cases hp <;> rfl
  refine (safe_looksAt hx).bind fun b hb => ?_
  refine Safe.ite (fun ht => ?_) fun _ => Safe.ite (fun hn => ?_) fun hn => ?_
  · have hlen : 2 ≤ dstart.length := (hb ht).1
    refine (safe_skip hlen).bind fun r hr => ?_
    exact parseHex_reads ((h.trans hr.2).weaken (by omega))
  · exact parseDigits_reads h nofun
  · obtain rfl := hneg (by simpa using hn)
    refine (safe_looksAt hN).bind fun b hb => ?_
    refine Safe.ite (fun ht => ?_) fun _ => parseDigits_reads h fun _ => rfl
    obtain ⟨hlen, hall⟩ := hb ht
    obtain ⟨a1, a2, s, rfl⟩ : ∃ a1 a2 s, dstart = a1 :: a2 :: s := by
      match dstart, hlen with
      | a1 :: a2 :: s, _ => exact ⟨a1, a2, s, rfl⟩
    simp only [length_cons, length_nil, Nat.zero_add, Nat.reduceAdd, take_succ_cons,
      take_zero, forall₂_cons, forall₂_nil_left_iff, and_true, isChar,
      decide_eq_true_eq] at hall
    obtain ⟨rfl, rfl⟩ := hall
    exact parseNull_reads rfl

lemma parseNumber_reads : ReadsNumber start (parseNumber readF64 start) := by
  refine (safe_peek (Nat.zero_le _)).bind fun c hc => ?_
  refine Safe.ite (fun hm => ?_) fun _ => parseUnsigned_reads (Left.refl start) fun _ => rfl
  refine (safe_skip_one hc (ne_zero_of_isChar (by decide) hm)).bind fun s hs => ?_
  exact parseUnsigned_reads (hs.2.weaken (Nat.zero_le _)) nofun

end

section

variable {p r start : Text}

lemma scanString_left (start : Text) (esc : Bool) : Left 0 start (scanString start esc).1 := by
  induction start, esc using scanString.induct with
  | case1 esc => exact Left.refl []
  | case2 cs esc =>
    rw [scanString.eq_def]
    simp only [if_true]
    exact Left.refl _
  | case3 esc hc =>
    rw [scanString, if_neg hc, if_pos rfl]
    exact ⟨nil_suffix, by simp⟩
  | case4 esc d ds hc ih =>
    rw [scanString, if_neg hc, if_pos rfl]
    exact ((left_cons backslash _).trans ((left_cons d ds).trans ih)).weaken (Nat.zero_le _)
  | case5 c cs esc h1 h2 ih =>
    rw [scanString.eq_def]
    simp only [if_neg h1, if_neg h2]
    exact ((left_cons c cs).trans ih).weaken (Nat.zero_le _)

lemma decodeEscapes_safe (raw out : Bytes) : Safe (decodeEscapes raw out) fun _ => True := by
  fun_induction decodeEscapes raw out with
  | case1 => trivial
  | case2 => trivial
  | case3 => trivial
  | case6 => trivial
  | case7 => trivial
  | _ => assumption

lemma length_pos_of_getD (h : p.getD 0 0 ≠ 0) : 0 < p.length := by
  by_contra hlen
  exact h (getD_eq_zero (not_lt.mp hlen))

lemma parseString_leaves (h : p.getD 0 0 ≠ 0) : Leaves 1 p (parseString p) := by
  have hlen : 0 < p.length := length_pos_of_getD h
  refine (safe_skip hlen).bind fun start hstart => ?_
  have hscan : Left 0 start (scanString start false).1 := scanString_left start false
  refine (safe_peek (Nat.zero_le _)).bind fun c hc => ?_
  refine Safe.ite (fun hq => ?_) fun _ => Safe.error _
  have hne : c ≠ 0 := by
    rw [hq]
    decide
  refine (safe_skip_one hc hne).bind fun rest hrest => ?_
  have hleft : Left 1 p rest := ((hstart.2.trans hscan).trans hrest.2).weaken (by omega)
  refine Safe.ite (fun _ => ?_) fun _ => Safe.ok hleft
  exact (decodeEscapes_safe _ _).bind fun _ _ => Safe.ok hleft

lemma ne_zero_of_isOctal (h : isOctal c = true) : c ≠ 0 := by
  rintro rfl
  cases h

lemma charEscape_safe : Safe (charEscape r) fun a => r.getD 0 0 ≠ 0 → a.2 ≤ r.length := by
  refine (safe_peek (Nat.zero_le _)).bind fun c hc => ?_
  have hone : r.getD 0 0 ≠ 0 → 1 ≤ r.length := fun h => hc.2 (by rwa [hc.1])
  cases simpleEscape c with
  | some b => exact Safe.ok hone
  | none =>
    refine Safe.ite (fun ho => ?_) fun _ => Safe.ok hone
    have hlen : 1 ≤ r.length := hc.2 (ne_zero_of_isOctal ho)
    refine (safe_peek hlen).bind fun c1 hc1 => ?_
    refine Safe.ite (fun ho1 => ?_) fun _ => Safe.ok hone
    have hlen1 : 2 ≤ r.length := hc1.2 (ne_zero_of_isOctal ho1)
    refine (safe_peek hlen1).bind fun c2 hc2 => ?_
    exact Safe.ite (fun ho2 => Safe.ok fun _ => hc2.2 (ne_zero_of_isOctal ho2))
      fun _ => Safe.ok fun _ => hlen1

lemma regularSymbol_leaves : Leaves 0 start (regularSymbol start) :=
  (safe_scan rfl).bind fun _ hr => Safe.ok hr.2

lemma escapedSymbol_leaves (h : start.getD 0 0 ≠ 0) : Leaves 0 start (escapedSymbol start) := by
  have hlen : 0 < start.length := length_pos_of_getD h
  refine (safe_skip hlen).bind fun esc hesc => ?_
  refine charEscape_safe.bind fun ⟨ch, len⟩ hch => ?_
  refine (safe_peek (Nat.zero_le _)).bind fun c hc => ?_
  refine Safe.ite (fun _ => regularSymbol_leaves) fun hne => ?_
  have hle : len ≤ esc.length := hch (by rwa [← hc.1])
  refine (safe_peek hle).bind fun d hd => ?_
  refine Safe.ite (fun htick => ?_) fun _ => regularSymbol_leaves
  have hlt : len < esc.length := hd.2 (by rw [htick]; decide)
  refine (safe_skip hlt).bind fun u hu => ?_
  exact Safe.ok ((hesc.2.trans hu.2).weaken (Nat.zero_le _))

lemma parseSymbol_leaves (h : p.getD 0 0 ≠ 0) : Leaves 1 p (parseSymbol p) := by
  have hlen : 0 < p.length := length_pos_of_getD h
  refine (safe_skip hlen).bind fun start hstart => ?_
  refine (safe_peek (Nat.zero_le _)).bind fun c hc => ?_
  refine Safe.ite (fun _ => Safe.ok hstart.2) fun hends => ?_
  have hne : c ≠ 0 := by
    rintro rfl
    exact hends rfl
  have hc0 : start.getD 0 0 ≠ 0 := by rwa [← hc.1]
  refine Safe.ite (fun _ => ?_) fun _ => ?_
  · exact ((escapedSymbol_leaves hc0).after hstart.2).mono (by omega)
  · refine (safe_peek (hc.2 hne)).bind fun d hd => ?_
    refine Safe.ite (fun htick => ?_) fun _ => ?_
    · have hlt : 1 < start.length := hd.2 (by rw [htick]; decide)
      refine (safe_skip hlt).bind fun u hu => ?_
      exact Safe.ok ((hstart.2.trans hu.2).weaken (by omega))
    · exact (regularSymbol_leaves.after hstart.2).mono (by omega)

lemma parseName_leaves : Leaves 1 start (parseName start) := by
  refine (safe_scan (by decide)).bind fun r hr => ?_
  refine Safe.ite (fun _ => Safe.error _) fun hne => ?_
  exact Safe.ok (taken_ne_nil hr.2 hne)

lemma parseKeyword_leaves (h : p.getD 0 0 ≠ 0) : Leaves 1 p (parseKeyword p) := by
  have hlen : 0 < p.length := length_pos_of_getD h
  refine (safe_skip hlen).bind fun start hstart => ?_
  refine (safe_scan (by decide)).bind fun r hr => ?_
  exact Safe.ite (fun _ => Safe.error _) fun _ => Safe.ok ((hstart.2.trans hr.2).weaken (by omega))

end

end Rayforce.Lang
