import Rayforce.Temporal.Extract

/-! The names of partition directories. -/

namespace Rayforce.Parted

open Library.Words Library.Calendar Library.Proleptic Rayforce.Temporal List Option

def dot : UInt8 := 0x2E

def isDigit (c : UInt8) : Bool := 0x30 ≤ c && c ≤ 0x39

def digit (c : UInt8) : ℕ := c.toNat - 48

def isDateDir : Bytes → Bool
  | [y₀, y₁, y₂, y₃, p, m₀, m₁, q, d₀, d₁] =>
    p = dot && q = dot && [y₀, y₁, y₂, y₃, m₀, m₁, d₀, d₁].all isDigit &&
      let month := digit m₀ * 10 + digit m₁
      let day := digit d₀ * 10 + digit d₁
      1 ≤ month && month ≤ 12 && 1 ≤ day && day ≤ 31
  | _ => false

def isIntegerStr (s : Bytes) : Bool :=
  let t := if s.head? = some 0x2D then s.tail else s
  t != [] && t.all isDigit

inductive McType
  | date | i64 | sym
  deriving DecidableEq

def inferMcType (parts : List Bytes) : McType :=
  if parts.all isDateDir then .date else if parts.all isIntegerStr then .i64 else .sym

def parseDateDir : Bytes → ℤ
  | [y₀, y₁, y₂, y₃, _, m₀, m₁, _, d₀, d₁] =>
    daysFromCivil ((digit y₀ * 1000 + digit y₁ * 100 + digit y₂ * 10 + digit y₃ : ℕ) : ℤ)
      (digit m₀ * 10 + digit m₁) (digit d₀ * 10 + digit d₁)
  | _ => 0

def parseIntDir (s : Bytes) : ℤ :=
  let t := if s.head? = some 0x2D then s.tail else s
  let v := t.foldl (fun v c => wrap64 (v * 10 + digit c)) 0
  if s.head? = some 0x2D then wrap64 (-v) else v

inductive Key
  | day (n : ℤ)
  | num (n : ℤ)
  | name (s : Bytes)
  deriving DecidableEq

def partKey (mc : McType) (part : Bytes) : Key :=
  match mc with
  | .date => .day (parseDateDir part)
  | .i64 => .num (parseIntDir part)
  | .sym => .name part

def text (s : Bytes) : List ℕ := s.map UInt8.toNat

def StrcmpLe (a b : Bytes) : Prop := text a ≤ text b

instance : DecidableRel StrcmpLe := fun a b => inferInstanceAs (Decidable (text a ≤ text b))

def isPartName (name : Bytes) : Bool := name.head? != some dot && name != [] && name.all fun c =>
  c = dot || isDigit c

def collectPartDirs (entries : List Bytes) : List Bytes := (entries.filter isPartName).insertionSort StrcmpLe

def Key.Before : Key → Key → Prop
  | .day a, .day b => a < b
  | .num a, .num b => a < b
  | .name a, .name b => text a < text b
  | _, _ => False

section

variable {a b c d : Bytes} {entries : List Bytes}

lemma text_injective : Function.Injective text := map_injective_iff.mpr fun _ _ h => UInt8.toNat_inj.mp h

instance : Std.Total StrcmpLe := ⟨fun a b => le_total (text a) (text b)⟩

instance : IsTrans Bytes StrcmpLe := ⟨fun a _ _ hab hbc => (show text a ≤ _ from hab).trans hbc⟩

lemma collectPartDirs_sorted (h : entries.Nodup) : (collectPartDirs entries).Pairwise fun a b =>
    text a < text b := by
  have hle : (collectPartDirs entries).Pairwise StrcmpLe := pairwise_insertionSort _ _
  have hne : (collectPartDirs entries).Nodup := (perm_insertionSort _ _).nodup_iff.mpr (h.filter _)
  exact (hle.and hne).imp fun ⟨hab, hne⟩ => lt_of_le_of_ne hab fun he => hne (text_injective he)

lemma mem_collectPartDirs : a ∈ collectPartDirs entries ↔ a ∈ entries ∧ isPartName a = true := by
  rw [collectPartDirs, mem_insertionSort, mem_filter]

lemma text_append_lt (h : a.length = b.length) : text (a ++ c) < text (b ++ d) ↔ text a < text b ∨ a = b ∧
    text c < text d := by
  induction a generalizing b with
  | nil =>
    obtain rfl := length_eq_zero_iff.mp h.symm
    simp [text]
  | cons x a ih =>
    cases b with
    | nil => cases h
    | cons y b =>
      have hrest := ih (b := b) (by simpa using h)
      simp only [text, cons_append, map_cons, cons_lt_cons_iff, cons.injEq, UInt8.toNat_inj] at hrest ⊢
      rw [hrest]
      tauto

end

section

variable {s t : Bytes}

def number (s : Bytes) : ℕ := s.foldl (fun v c => v * 10 + digit c) 0

lemma foldl_number (s : Bytes) (v : ℕ) :
    s.foldl (fun v c => v * 10 + digit c) v = v * 10 ^ s.length + number s := by
  induction s generalizing v with
  | nil => simp [number]
  | cons c s ih =>
    rw [number, foldl_cons, foldl_cons, ih, ih (0 * 10 + digit c), length_cons, pow_succ]
    ring

lemma number_cons (c : UInt8) (s : Bytes) : number (c :: s) = digit c * 10 ^ s.length + number s := by
  rw [number, foldl_cons, foldl_number, zero_mul, zero_add]

lemma isDigit_iff {c : UInt8} : isDigit c = true ↔ 48 ≤ c.toNat ∧ c.toNat ≤ 57 := by
  rw [isDigit, Bool.and_eq_true, decide_eq_true_eq, decide_eq_true_eq, UInt8.le_iff_toNat_le,
    UInt8.le_iff_toNat_le]
  rfl

lemma number_lt_pow (h : s.all isDigit = true) : number s < 10 ^ s.length := by
  induction s with
  | nil => decide
  | cons c s ih =>
    rw [all_cons, Bool.and_eq_true] at h
    have hc := isDigit_iff.mp h.1
    have hrest := ih h.2
    have hdigit : digit c + 1 ≤ 10 := by
      rw [digit]
      omega
    calc number (c :: s) = digit c * 10 ^ s.length + number s := number_cons c s
      _ < digit c * 10 ^ s.length + 10 ^ s.length := by omega
      _ = (digit c + 1) * 10 ^ s.length := by ring
      _ ≤ 10 * 10 ^ s.length := Nat.mul_le_mul_right _ hdigit
      _ = 10 ^ (c :: s).length := by rw [length_cons, pow_succ, mul_comm]

lemma number_lt (hs : s.all isDigit = true) (ht : t.all isDigit = true) (hlen : s.length = t.length)
    (h : text s < text t) : number s < number t := by
  induction s generalizing t with
  | nil =>
    obtain rfl := length_eq_zero_iff.mp hlen.symm
    exact absurd h (lt_irrefl _)
  | cons c s ih =>
    cases t with
    | nil => cases hlen
    | cons e t =>
      rw [all_cons, Bool.and_eq_true] at hs ht
      have hlen' : s.length = t.length := by simpa using hlen
      rw [number_cons, number_cons, ← hlen']
      have hc := isDigit_iff.mp hs.1
      have he := isDigit_iff.mp ht.1
      rw [text, text, map_cons, map_cons, cons_lt_cons_iff] at h
      rcases h with h | ⟨h, hrest⟩
      · have hbound := number_lt_pow hs.2
        have hdigit : digit c + 1 ≤ digit e := by
          rw [digit, digit]
          omega
        have hmul := Nat.mul_le_mul_right (10 ^ s.length) hdigit
        rw [Nat.add_mul, Nat.one_mul] at hmul
        omega
      · obtain rfl := UInt8.toNat_inj.mp h
        have hlt := ih hs.2 ht.2 hlen' hrest
        omega

lemma parse_eq (h : s.all isDigit = true) (hlen : s.length ≤ 18) :
    s.foldl (fun v c => wrap64 (v * 10 + digit c)) 0 = (number s : ℤ) := by
  induction s using reverseRecOn with
  | nil => rfl
  | append_singleton s c ih =>
    rw [all_append, Bool.and_eq_true] at h
    rw [length_append, length_singleton] at hlen
    have hbound : number (s ++ [c]) < 10 ^ 18 :=
      (number_lt_pow (by rw [all_append, h.1, h.2]; rfl)).trans_le
        (Nat.pow_le_pow_right (by decide) (by rw [length_append, length_singleton]; exact hlen))
    have hsnoc : number (s ++ [c]) = number s * 10 + digit c := by rw [number, foldl_append]; rfl
    rw [foldl_append, ih h.1 (by omega), foldl_cons, foldl_nil, hsnoc]
    rw [hsnoc] at hbound
    push_cast
    exact wrap64_eq (by omega) (by omega)

lemma head_of_digits (h : s.all isDigit = true) : s.head? ≠ some 0x2D := by
  cases s with
  | nil => nofun
  | cons c s =>
    intro hc
    obtain rfl := some.inj hc
    exact absurd h (by simp [isDigit])

lemma parseIntDir_eq (h : s.all isDigit = true) (hlen : s.length ≤ 18) : parseIntDir s = number s := by
  rw [parseIntDir, if_neg (head_of_digits h), if_neg (head_of_digits h), parse_eq h hlen]

end

section

variable {a b : Bytes}

def yearOf (name : Bytes) : ℕ := number (name.take 4)

def monthOf (name : Bytes) : ℕ := number ((name.drop 5).take 2)

def dayOf (name : Bytes) : ℕ := number (name.drop 8)

def OnCalendar (name : Bytes) : Prop :=
  isDateDir name = true ∧ dayOf name ≤ monthLength (typical (yearOf name)) (monthOf name)

instance (name : Bytes) : Decidable (OnCalendar name) := inferInstanceAs (Decidable (_ ∧ _))

structure DatePieces (name y m d : Bytes) : Prop where
  name_eq : name = y ++ (dot :: (m ++ (dot :: d)))
  lengths : y.length = 4 ∧ m.length = 2 ∧ d.length = 2
  digits : y.all isDigit = true ∧ m.all isDigit = true ∧ d.all isDigit = true
  values : yearOf name = number y ∧ monthOf name = number m ∧ dayOf name = number d
  month : 1 ≤ number m ∧ number m ≤ 12
  day : 1 ≤ number d
  key : parseDateDir name = daysFromCivil (number y) (number m) (number d)

lemma exists_datePieces (h : isDateDir a = true) : ∃ y m d, DatePieces a y m d := by
  rw [isDateDir.eq_def] at h
  split at h
  · rename_i y₀ y₁ y₂ y₃ p m₀ m₁ q d₀ d₁
    simp only [Bool.and_eq_true, decide_eq_true_eq, all_cons, all_nil, Bool.and_true] at h
    obtain ⟨⟨⟨rfl, rfl⟩, h₀, h₁, h₂, h₃, h₄, h₅, h₆, h₇⟩, ⟨⟨hm, hm'⟩, hd⟩, -⟩ := h
    refine ⟨[y₀, y₁, y₂, y₃], [m₀, m₁], [d₀, d₁], rfl, ⟨rfl, rfl, rfl⟩, ?_, ⟨rfl, rfl, rfl⟩, ?_, ?_, ?_⟩
    · simp [h₀, h₁, h₂, h₃, h₄, h₅, h₆, h₇]
    · simpa [number] using ⟨hm, hm'⟩
    · simpa [number] using hd
    · rw [parseDateDir]
      congr 1
      · simp only [number, foldl_cons, foldl_nil]
        push_cast
        ring
      · simp [number]
      · simp [number]
  · cases h

lemma parseDateDir_lt (ha : OnCalendar a) (hb : OnCalendar b) (h : text a < text b) :
    parseDateDir a < parseDateDir b := by
  obtain ⟨y, m, d, hp⟩ := exists_datePieces ha.1
  obtain ⟨y', m', d', hp'⟩ := exists_datePieces hb.1
  have hday := ha.2
  have hday' := hb.2
  rw [hp.values.1, hp.values.2.1, hp.values.2.2] at hday
  rw [hp'.values.1, hp'.values.2.1, hp'.values.2.2] at hday'
  let D : Civil := ⟨number y, number m, number d, hp.month, hp.day, hday⟩
  let E : Civil := ⟨number y', number m', number d', hp'.month, hp'.day, hday'⟩
  have hD : parseDateDir a = D.number - epochNumber := hp.key.trans (daysFromCivil_eq D)
  have hE : parseDateDir b = E.number - epochNumber := hp'.key.trans (daysFromCivil_eq E)
  rw [hD, hE]
  refine sub_lt_sub_right (Civil.number_lt ?_) _
  have hdot : ∀ u v : Bytes, text (dot :: u) < text (dot :: v) ↔ text u < text v := by
    intro u v
    rw [text, text, map_cons, map_cons, cons_lt_cons_iff]
    simp [text]
  rw [hp.name_eq, hp'.name_eq, text_append_lt (hp.lengths.1.trans hp'.lengths.1.symm), hdot,
    text_append_lt (hp.lengths.2.1.trans hp'.lengths.2.1.symm), hdot] at h
  have hlt : ∀ {u v : Bytes} {n}, u.length = n → v.length = n → u.all isDigit = true → v.all isDigit = true →
      text u < text v → number u < number v := fun hu hv hud hvd => number_lt hud hvd (hu.trans hv.symm)
  rcases h with h | ⟨rfl, h | ⟨rfl, h⟩⟩
  · exact .inl (Nat.cast_lt.mpr (hlt hp.lengths.1 hp'.lengths.1 hp.digits.1 hp'.digits.1 h))
  · exact .inr ⟨rfl, .inl (hlt hp.lengths.2.1 hp'.lengths.2.1 hp.digits.2.1 hp'.digits.2.1 h)⟩
  · exact .inr ⟨rfl, .inr ⟨rfl, hlt hp.lengths.2.2 hp'.lengths.2.2 hp.digits.2.2 hp'.digits.2.2 h⟩⟩

end

section

variable {entries : List Bytes}

def Orderly (parts : List Bytes) : Prop :=
  (∀ a ∈ parts, OnCalendar a) ∨ (∃ n ≤ 18, ∀ a ∈ parts, a.all isDigit = true ∧ a ≠ [] ∧ a.length = n) ∨
    inferMcType parts = .sym

lemma inferMcType_date {parts : List Bytes} (h : ∀ a ∈ parts, isDateDir a = true) : inferMcType parts = .date := by
  rw [inferMcType, if_pos (all_eq_true.mpr h)]

lemma not_isDateDir {a : Bytes} (h : a.all isDigit = true) : isDateDir a ≠ true := by
  intro hd
  obtain ⟨y, m, d, hp⟩ := exists_datePieces hd
  rw [hp.name_eq, all_append, all_cons] at h
  simp [isDigit, dot] at h

lemma isIntegerStr_of_digits {a : Bytes} (h : a.all isDigit = true) (hne : a ≠ []) : isIntegerStr a = true := by
  rw [isIntegerStr, if_neg (head_of_digits h), h, Bool.and_true, bne_iff_ne]
  exact hne

lemma keys_ascending (hn : entries.Nodup) (h : Orderly (collectPartDirs entries)) :
    ((collectPartDirs entries).map (partKey (inferMcType (collectPartDirs entries)))).Pairwise Key.Before := by
  have hsorted := collectPartDirs_sorted hn
  generalize collectPartDirs entries = parts at h hsorted
  rw [pairwise_map]
  rcases h with h | ⟨n, hle, h⟩ | h
  · rw [inferMcType_date fun a ha => (h a ha).1]
    exact hsorted.imp_of_mem fun ha hb hlt => parseDateDir_lt (h _ ha) (h _ hb) hlt
  · cases parts with
    | nil => exact .nil
    | cons c parts =>
      have hc := h c mem_cons_self
      have hmc : inferMcType (c :: parts) = .i64 := by
        rw [inferMcType, if_neg, if_pos]
        · exact all_eq_true.mpr fun a ha => isIntegerStr_of_digits (h a ha).1 (h a ha).2.1
        · exact fun hall => not_isDateDir hc.1 (all_eq_true.mp hall c mem_cons_self)
      rw [hmc]
      refine hsorted.imp_of_mem fun {a b} ha hb hlt => ?_
      obtain ⟨had, -, halen⟩ := h a ha
      obtain ⟨hbd, -, hblen⟩ := h b hb
      show parseIntDir a < parseIntDir b
      rw [parseIntDir_eq had (halen ▸ hle), parseIntDir_eq hbd (hblen ▸ hle)]
      exact Nat.cast_lt.mpr (number_lt had hbd (halen.trans hblen.symm) hlt)
  · rw [h]
    exact hsorted

end

end Rayforce.Parted
