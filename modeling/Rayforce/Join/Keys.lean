import Rayforce.Join.Column

/-! The hash and the comparison of join keys. -/

namespace Rayforce.Join

open List Option

variable {c : Column} {S : Symbols} {n m : ℕ}

/-- Symbols, raw memory behind columns without a reader, the pool and the test knobs. -/
structure Env where
  S : Symbols
  byteAt : Column → ℕ → ℤ
  wordAt : Column → ℕ → ℤ
  countName : ℕ
  workers : Option ℕ
  noBuildSwap : Bool
  forceDupFallback : Bool
  noDupFallback : Bool

def secret0 : ℕ := 0x2d358dccaa6c78a5
def secret1 : ℕ := 0x8bb84b93962eacc9

def wymum (a b : ℕ) : ℕ × ℕ := (a * b % 2 ^ 64, a * b / 2 ^ 64 % 2 ^ 64)

def wymix (a b : ℕ) : ℕ := (wymum a b).1 ^^^ (wymum a b).2

def bits (v : ℤ) : ℕ := (v % 2 ^ 64).toNat

def rayHashCombine (h1 h2 : ℕ) : ℕ :=
  let (a, b) := wymum (h1 ^^^ secret0) (h2 ^^^ secret1)
  wymix (a ^^^ secret0) (b ^^^ secret1)

def rayHashI64 (v : ℤ) : ℕ := rayHashCombine (bits v) (bits v)

def rayHashF64 (v : ℤ) : ℕ :=
  let b := if bits v = 2 ^ 63 then 0 else bits v
  rayHashCombine b b

section

variable (E : Env)

def cellNum (c : Column) (i : ℕ) : ℤ :=
  match c.cells[i]? with
  | some (.num v) => v
  | _ => 0

def readColI64 (c : Column) (i : ℕ) : ℤ :=
  match c.type with
  | .i64 | .timestamp | .sym | .i32 | .date | .time | .i16 | .bool | .u8 => cellNum c i
  | _ => E.byteAt c i

def word64 (c : Column) (i : ℕ) : ℤ :=
  match c.type with
  | .i64 | .timestamp | .f64 => cellNum c i
  | _ => E.wordAt c i

def isNan (b : ℕ) : Bool := 0x7FF0000000000000 < b % 2 ^ 63

def floatEq (v w : ℤ) : Bool :=
  !isNan (bits v) && !isNan (bits w) && (bits v = bits w || bits v % 2 ^ 63 = 0 && bits w % 2 ^ 63 = 0)

def keyHash (c : Column) (row : ℕ) : ℕ :=
  if c.type = .f64 then rayHashF64 (word64 E c row)
  else
    let kv := readColI64 E c row
    rayHashI64 (if c.type = .sym then symIdRuntime E.S c.domain kv else kv)

def hashKeysFrom (row : ℕ) : ℕ → ℕ → List (Option Column) → ℕ
  | _, h, [] => h
  | k, h, none :: cs => hashKeysFrom row (k + 1) h cs
  | k, h, some c :: cs =>
    if c.isNull row then h ^^^ (row * 0x9E3779B97F4A7C15 % 2 ^ 64)
    else hashKeysFrom row (k + 1) (if k = 0 then keyHash E c row else rayHashCombine h (keyHash E c row)) cs

def hashRowKeys (cs : List (Option Column)) (row : ℕ) : ℕ := hashKeysFrom E row 0 0 cs

def keyEq (lc rc : Column) (l r : ℕ) : Bool :=
  if lc.isNull l || rc.isNull r then false
  else if lc.type = .f64 then floatEq (word64 E lc l) (word64 E rc r)
  else
    let lv := readColI64 E lc l
    let rv := readColI64 E rc r
    if lc.type = .sym ∧ rc.type = .sym ∧ lc.domain ≠ rc.domain then
      symIdRuntime E.S lc.domain lv = symIdRuntime E.S rc.domain rv
    else lv = rv

def joinKeysEq (ls rs : List (Option Column)) (l r : ℕ) : Bool :=
  (ls.zip rs).all fun
    | (some lc, some rc) => keyEq E lc rc l r
    | _ => false

end

def IsInt (t : ColType) : Prop := t ∈ [.i64, .timestamp, .i32, .date, .time, .i16, .bool, .u8]

def Comparable (lc rc : Column) : Prop :=
  (lc.type = .f64 ∧ rc.type = .f64) ∨ (lc.type = .sym ∧ rc.type = .sym) ∨ (IsInt lc.type ∧ IsInt rc.type)

def KeysComparable (ls rs : List (Option Column)) : Prop :=
  ls.length = rs.length ∧ ∀ p ∈ ls.zip rs, ∀ lc rc, p = (some lc, some rc) → Comparable lc rc

def Value.equal (float : Bool) : Value → Value → Bool
  | .num v, .num w => if float then floatEq v w else v = w
  | .sym s, .sym t => s = t
  | _, _ => false

def Value.IsKey : Value → Prop
  | .null => True
  | .num _ => True
  | .sym _ => True
  | _ => False

variable {E : Env} {lc rc : Column} {l r : ℕ}

lemma readColI64_int (h : IsInt c.type) (i : ℕ) : readColI64 E c i = cellNum c i := by
  rw [IsInt] at h
  rw [readColI64]
  cases hc : c.type <;> simp [hc] at h ⊢

lemma bits_lt (v : ℤ) : bits v < 2 ^ 64 := by
  have h := Int.emod_lt_of_pos v (show (0 : ℤ) < 2 ^ 64 by norm_num)
  have h0 := Int.emod_nonneg v (show (2 ^ 64 : ℤ) ≠ 0 by norm_num)
  rw [bits]
  omega

lemma hashF64_of_floatEq {v w : ℤ} (h : floatEq v w = true) : rayHashF64 v = rayHashF64 w := by
  have hv := bits_lt v
  have hw := bits_lt w
  simp only [floatEq, Bool.and_eq_true, Bool.or_eq_true, decide_eq_true_eq] at h
  have hzero : ∀ b : ℕ, b < 2 ^ 64 → b % 2 ^ 63 = 0 → (if b = 2 ^ 63 then 0 else b) = 0 := by
    intro b hb hm
    split_ifs
    · rfl
    · omega
  simp only [rayHashF64]
  rcases h.2 with he | ⟨h1, h2⟩
  · rw [he]
  · rw [hzero _ hv h1, hzero _ hw h2]

lemma keyHash_of_keyEq (hc : Comparable lc rc) (h : keyEq E lc rc l r = true) :
    keyHash E lc l = keyHash E rc r := by
  rw [keyEq] at h
  split_ifs at h with hn hf hd
  · rcases hc with ⟨-, hr⟩ | ⟨hl, -⟩ | ⟨hl, -⟩
    · rw [keyHash, keyHash, if_pos hf, if_pos hr, hashF64_of_floatEq h]
    · rw [hf] at hl
      cases hl
    · rw [hf] at hl
      simp [IsInt] at hl
  · have h' := of_decide_eq_true h
    simp only [keyHash, hd.1, hd.2.1, reduceCtorEq, if_false, if_true]
    rw [h']
  · have h' := of_decide_eq_true h
    rcases hc with ⟨hl, -⟩ | ⟨hl, hr⟩ | ⟨hl, hr⟩
    · exact absurd hl hf
    · have hdom : lc.domain = rc.domain := by
        by_contra hne
        exact hd ⟨hl, hr, hne⟩
      simp only [keyHash, hl, hr, reduceCtorEq, if_false, if_true, hdom]
      rw [h']
    · have hrf : rc.type ≠ .f64 := by
        intro he
        rw [he] at hr
        simp [IsInt] at hr
      have hls : lc.type ≠ .sym := by
        intro he
        rw [he] at hl
        simp [IsInt] at hl
      have hrs : rc.type ≠ .sym := by
        intro he
        rw [he] at hr
        simp [IsInt] at hr
      simp only [keyHash, if_neg hf, if_neg hrf, if_neg hls, if_neg hrs]
      rw [h']

lemma isNull_of_keyEq (h : keyEq E lc rc l r = true) : lc.isNull l = false ∧ rc.isNull r = false := by
  rw [keyEq] at h
  split_ifs at h with hn <;> simpa [Bool.or_eq_false_iff] using hn

lemma hashKeysFrom_of_eq (row row' : ℕ) (ls rs : List (Option Column)) (hc : KeysComparable ls rs)
    (h : joinKeysEq E ls rs row row' = true) (k a : ℕ) :
      hashKeysFrom E row k a ls = hashKeysFrom E row' k a rs := by
  induction ls generalizing rs k a with
  | nil =>
    obtain rfl : rs = [] := length_eq_zero_iff.mp hc.1.symm
    rfl
  | cons lc ls ih =>
    cases rs with
    | nil => cases hc.1
    | cons rc rs =>
      rw [joinKeysEq, zip_cons_cons, all_cons, Bool.and_eq_true] at h
      have hrest : KeysComparable ls rs :=
        ⟨Nat.succ.inj hc.1, fun p hp => hc.2 p (by rw [zip_cons_cons]; exact mem_cons_of_mem _ hp)⟩
      cases lc with
      | none => simp at h
      | some lc =>
        cases rc with
        | none => simp at h
        | some rc =>
          have hk : keyEq E lc rc row row' = true := h.1
          have hcomp : Comparable lc rc := hc.2 _ (by simp) lc rc rfl
          obtain ⟨hl, hr⟩ := isNull_of_keyEq hk
          rw [hashKeysFrom, hashKeysFrom, hl, hr, keyHash_of_keyEq hcomp hk]
          exact ih rs hrest h.2 _ _

lemma hashRowKeys_of_eq {ls rs : List (Option Column)} (hc : KeysComparable ls rs)
    (h : joinKeysEq E ls rs l r = true) : hashRowKeys E ls l = hashRowKeys E rs r :=
      hashKeysFrom_of_eq l r ls rs hc h 0 0

lemma symIdRuntime_inj {d d' : Option ℕ} (hn : n < (S.names d).length)
    (hm : m < (S.names d').length) : symIdRuntime S d n = symIdRuntime S d' m ↔ S.name d n = S.name d' m := by
  constructor
  · intro h
    rw [← name_symIdRuntime hn, h, name_symIdRuntime hm]
  · intro h
    rw [← name_symIdRuntime hn, ← name_symIdRuntime hm] at h
    obtain ⟨a, ha, hea⟩ := symIdRuntime_placed hn
    obtain ⟨b, hb, heb⟩ := symIdRuntime_placed hm
    rw [hea, heb] at h ⊢
    simp only [Symbols.name, Symbols.names, Int.toNat_natCast] at h
    rw [if_neg (by omega), if_neg (by omega)] at h
    rw [(getElem?_inj ha S.runtime_nodup).mp h]

lemma names_nodup (S : Symbols) (d : Option ℕ) : (S.names d).Nodup := by
  cases d with
  | none => exact S.runtime_nodup
  | some d => exact S.file_nodup d

lemma name_inj {d : Option ℕ} (hn : n < (S.names d).length) : S.name d n = S.name d m ↔ (n : ℤ) = m := by
  simp only [Symbols.name, Int.toNat_natCast]
  rw [if_neg (by omega), if_neg (by omega), getElem?_inj hn (names_nodup S d)]
  omega

lemma cell_of_value {i : ℕ} {v : Value} (hv : (c.values E.S)[i]? = some v) (hk : v.IsKey) :
    (c.isNull i = true ∧ v = .null) ∨
    (c.isNull i = false ∧ ∃ n, c.cells[i]? = some (.num n) ∧ v = shown E.S c.type c.domain (.num n)) := by
  rw [Column.values, getElem?_map] at hv
  obtain ⟨x, hx, rfl⟩ := map_eq_some_iff.mp hv
  have hnull : c.isNull i = c.isNullCell x := by rw [Column.isNull, hx]; rfl
  rw [hnull, Column.value] at *
  cases hn : c.isNullCell x with
  | true => exact .inl ⟨rfl, if_pos rfl⟩
  | false =>
    rw [hn] at hk
    cases x with
    | num n => exact .inr ⟨rfl, n, hx, rfl⟩
    | text s => cases hk
    | obj o => cases hk

lemma cellNum_of_some {i : ℕ} {n : ℤ} (h : c.cells[i]? = some (.num n)) : cellNum c i = n := by
  rw [cellNum, h]

lemma keyEq_values (hl : lc.Placed E.S) (hr : rc.Placed E.S) (hc : Comparable lc rc) {v w : Value}
    (hv : (lc.values E.S)[l]? = some v) (hw : (rc.values E.S)[r]? = some w) (hkv : v.IsKey) (hkw : w.IsKey) :
    keyEq E lc rc l r = v.equal (lc.type = .f64) w := by
  rw [keyEq]
  obtain ⟨hnl, rfl⟩ | ⟨hnl, n, hx, rfl⟩ := cell_of_value hv hkv
  · rw [hnl, Bool.true_or, if_pos rfl]
    cases w <;> rfl
  obtain ⟨hnr, rfl⟩ | ⟨hnr, m, hy, rfl⟩ := cell_of_value hw hkw
  · rw [hnr, Bool.or_true, if_pos rfl]
    cases shown E.S lc.type lc.domain (.num n) <;> rfl
  rw [hnl, hnr, Bool.or_false, if_neg Bool.false_ne_true]
  have hcl := cellNum_of_some hx
  have hcr := cellNum_of_some hy
  rcases hc with ⟨htl, htr⟩ | ⟨htl, htr⟩ | ⟨htl, htr⟩
  · simp only [htl, if_true, word64, htr, hcl, hcr, shown, reduceCtorEq, if_false, Value.equal, decide_true]
  · obtain ⟨a, ha, hea⟩ := hl htl _ (mem_of_getElem? hx)
    obtain ⟨b, hb, heb⟩ := hr htr _ (mem_of_getElem? hy)
    obtain rfl := Cell.num.inj hea
    obtain rfl := Cell.num.inj heb
    simp only [htl, htr, reduceCtorEq, if_false, true_and, readColI64, hcl, hcr, shown, if_true, Value.equal]
    by_cases hd : lc.domain = rc.domain
    · rw [if_neg (not_not.mpr hd), ← hd, decide_eq_decide]
      exact (name_inj ha).symm
    · rw [if_pos hd, decide_eq_decide]
      exact symIdRuntime_inj ha hb
  · have hlf : lc.type ≠ .f64 := by
      intro he
      rw [he] at htl
      simp [IsInt] at htl
    have hls : lc.type ≠ .sym := by
      intro he
      rw [he] at htl
      simp [IsInt] at htl
    have hrs : rc.type ≠ .sym := by
      intro he
      rw [he] at htr
      simp [IsInt] at htr
    simp only [hls, false_and, if_false, readColI64_int htl, readColI64_int htr, hcl, hcr, shown, hrs,
      Value.equal, decide_false, hlf, Bool.false_eq_true]

end Rayforce.Join
