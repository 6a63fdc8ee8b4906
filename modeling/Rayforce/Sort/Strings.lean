import Rayforce.Library.Extremes
import Rayforce.Library.Sorting

/-! The in-place byte radix for strings of `sort.c`. -/

namespace Rayforce.Sort

open List Library.Extremes Library.Segments Library.Loops Library.InPlace

abbrev Str := List (Fin 256)

structure StrRows where
  elem : ℕ → Str
  rows : List ℕ
  short : ∀ r, (elem r).length < 2 ^ 32
  narrow : ∀ r ∈ rows, r < 2 ^ 32

def keyPartsMax : ℕ := 4
def baseCase : ℕ := 24

/-- `parts` holds the words that the column's keys use. -/
structure StrKey where
  parts : List ℕ
  row : ℕ
  len : ℕ

def pad (s : Str) (i : ℕ) : ℕ := (s.getD i 0).val

def packTo (s : Str) (off n : ℕ) : ℕ := (range n).foldl (fun v k => 256 * v + pad s (off + k)) 0

def loadPart (s : Str) (off : ℕ) : ℕ := packTo s off 8

def loadParts (s : Str) (off : ℕ) : ℕ → List ℕ
  | 0 => []
  | p + 1 => loadPart s off :: loadParts s (off + 8) p

def memcmp : Str → Str → ℤ
  | x :: s, y :: t => if x = y then memcmp s t else (x.val : ℤ) - y.val
  | _, _ => 0

def cmpLen (m n : ℕ) : ℤ := if n < m then 1 else if m < n then -1 else 0

def strCmp (s t : Str) : ℤ := if memcmp s t ≠ 0 then memcmp s t else cmpLen s.length t.length

def cmpParts : List ℕ → List ℕ → ℤ
  | x :: xs, y :: ys => if x < y then -1 else if y < x then 1 else cmpParts xs ys
  | _, _ => 0

def strkeyCmp (elem : ℕ → Str) (parts : ℕ) (a b : StrKey) : ℤ :=
  if cmpParts a.parts b.parts ≠ 0 then cmpParts a.parts b.parts
  else if a.len ≤ 8 * parts ∧ b.len ≤ 8 * parts then (a.len : ℤ) - b.len
  else strCmp ((elem a.row).drop (8 * parts)) ((elem b.row).drop (8 * parts))

def strkeyInsertionSort (elem : ℕ → Str) (parts : ℕ) : List StrKey → List StrKey :=
  insertSort fun a b => 0 < strkeyCmp elem parts a b

def strkeyByteAt (bp : ℕ) (k : StrKey) : ℕ := k.parts.getD (bp / 8) 0 >>> (56 - 8 * (bp % 8)) % 256

def strkeyQsortByLen (keys : List StrKey) : Option (List StrKey) := quickSort StrKey.len (keys.length + 1) keys

/-- The offset of a word is an `int`: from 2 ^ 31 on the word is read in front of the string. -/
def strayRead (elem : ℕ → Str) (parts base : ℕ) (keys : List StrKey) : Bool :=
  keys.any fun k => (range parts).any fun p => base + 8 * p < (elem k.row).length && 2 ^ 31 ≤ base + 8 * p

def repackWindow (elem : ℕ → Str) (parts base : ℕ) (keys : List StrKey) : Option (List StrKey × Bool) :=
  if strayRead elem parts base keys then none else
  let lens := keys.map fun k => (elem k.row).length
  let anyTail := lens.any fun n => base < n
  let packed := keys.map fun k => { k with parts := loadParts (elem k.row) base parts }
  if anyTail = false ∧ 1 < keys.length ∧ lens.foldl min (2 ^ 32 - 1) ≠ lens.foldl max 0 then
    (strkeyQsortByLen packed).map fun sorted => (sorted, anyTail)
  else some (packed, anyTail)

def uniform (bp : ℕ) (keys : List StrKey) : Bool :=
  ((range 256).filter fun b => keys.countP (strkeyByteAt bp · = b) ≠ 0).length ≤ 1

def aflag (elem : ℕ → Str) (parts : ℕ) : ℕ → List StrKey → ℕ → ℕ → Option (List StrKey)
  | 0, _, _, _ => none
  | fuel + 1, keys, bp, base =>
    if keys.length ≤ 1 then some keys
    else if keys.length ≤ baseCase then some (strkeyInsertionSort elem parts keys)
    else if 8 * parts ≤ bp then
      (repackWindow elem parts (base + 8 * parts) keys).bind fun r =>
        if r.2 then aflag elem parts fuel r.1 0 (base + 8 * parts) else some r.1
    else if uniform bp keys then aflag elem parts fuel keys (bp + 1) base
    else
      (bucketPass (strkeyByteAt bp) 256 keys).bind fun cells =>
        (range 256).foldlM (fun out b => (aflag elem parts fuel
          (slice cells (start (strkeyByteAt bp) keys b) (start (strkeyByteAt bp) keys (b + 1))) (bp + 1) base).map
            (out ++ ·)) []

def probeParts (c : StrRows) : ℕ :=
  min (max (((c.rows.map fun r => (c.elem r).length).foldl max 0 + 7) / 8) 1) keyPartsMax

def buildKeys (c : StrRows) : List StrKey :=
  c.rows.map fun r => ⟨loadParts (c.elem r) 0 (probeParts c), r % 2 ^ 32, (c.elem r).length⟩

def toInt (n : ℕ) : ℤ := if n < 2 ^ 31 then n else (n : ℤ) - 2 ^ 32

def lenDiff (a b : StrKey) : ℤ := toInt ((a.len + 2 ^ 32 - b.len) % 2 ^ 32)

def strkeyCmpPacked (a b : StrKey) : ℤ :=
  if cmpParts a.parts b.parts ≠ 0 then cmpParts a.parts b.parts else lenDiff a b

def Overlong (parts : ℕ) (a b : StrKey) : Prop := 8 * parts < a.len ∨ 8 * parts < b.len

instance (parts : ℕ) (a b : StrKey) : Decidable (Overlong parts a b) := inferInstanceAs (Decidable (_ ∨ _))

def detectFrom (parts : ℕ) : Bool → Bool → StrKey → List StrKey → ℤ
  | asc, desc, _, [] => if asc then 1 else if desc then -1 else 0
  | asc, desc, a, b :: keys =>
    let r := strkeyCmpPacked a b
    if r = 0 then if Overlong parts a b then 0 else detectFrom parts asc desc b keys
    else
      let asc := asc && decide (r ≤ 0)
      let desc := desc && decide (0 < r)
      if !asc && !desc then 0 else detectFrom parts asc desc b keys

def detectRuns (parts : ℕ) : List StrKey → ℤ
  | a :: b :: keys => detectFrom parts true true a (b :: keys)
  | _ => 0

section

variable {s t : Str} {elem : ℕ → Str} {parts base depth bp off k n : ℕ} {keys : List StrKey} {a b : StrKey}

lemma lt_of_pad_lt (h : ∀ i < k, pad s i = pad t i) (hk : pad s k < pad t k) : s < t := by
  induction s generalizing t k with
  | nil => cases t with
    | nil => exact absurd hk (lt_irrefl _)
    | cons y t => exact nil_lt_cons y t
  | cons x s ih => cases t with
    | nil => exact absurd hk (Nat.not_lt_zero _)
    | cons y t => cases k with
      | zero => exact cons_lt_cons_iff.mpr (.inl hk)
      | succ k =>
        have hxy : x = y := Fin.val_injective (h 0 k.succ_pos)
        exact cons_lt_cons_iff.mpr (.inr ⟨hxy, ih (fun i hi => h (i + 1) (Nat.succ_lt_succ hi)) hk⟩)

lemma drop_lt_drop (h : ∀ i < k, pad s i = pad t i) (hk : k < s.length ∨ k < t.length) :
    s.drop k < t.drop k ↔ s < t := by
  induction k generalizing s t with
  | zero => rfl
  | succ k ih =>
    cases s with
    | nil => cases t with
      | nil => simp at hk
      | cons y t =>
        obtain ⟨z, u, hu⟩ := exists_cons_of_length_pos (l := t.drop k) (by simp at hk ⊢; omega)
        simp [hu]
    | cons x s => cases t with
      | nil => simp
      | cons y t =>
        have hxy : x = y := Fin.val_injective (h 0 k.succ_pos)
        rw [drop_succ_cons, drop_succ_cons, ih (fun i hi => h (i + 1) (Nat.succ_lt_succ hi)) (by simpa using hk),
          cons_lt_cons_iff, hxy]
        simp

lemma lt_iff_length_lt (h : ∀ i < k, pad s i = pad t i) (hs : s.length ≤ k) (ht : t.length ≤ k) :
    s < t ↔ s.length < t.length := by
  have hlt {s t : Str} (h : ∀ i < k, pad s i = pad t i) (hlen : s.length < t.length)
      (ht : t.length ≤ k) : s < t := by
    refine (drop_lt_drop (k := s.length) (fun i hi => h i (by omega)) (.inr hlen)).mp ?_
    obtain ⟨z, u, hu⟩ := exists_cons_of_length_pos (l := t.drop s.length) (by simpa using hlen)
    simp [hu]
  refine ⟨fun hst => not_le.mp fun hle => ?_, fun hlen => hlt h hlen ht⟩
  obtain hlen | hlen := lt_or_eq_of_le hle
  · exact lt_asymm hst (hlt (fun i hi => (h i hi).symm) hlen hs)
  · refine hst.ne (ext_getElem hlen.symm fun i hi hi' => Fin.val_injective ?_)
    have := h i (by omega)
    rwa [pad, pad, getD_eq_getElem _ _ hi, getD_eq_getElem _ _ hi'] at this

lemma strCmp_pos (s t : Str) : 0 < strCmp s t ↔ t < s := by
  induction s generalizing t with
  | nil => cases t <;> simp [strCmp, memcmp, cmpLen]
  | cons x s ih => cases t with
    | nil => simp [strCmp, memcmp, cmpLen]
    | cons y t =>
      by_cases hxy : x = y
      · have hrest : strCmp (x :: s) (y :: t) = strCmp s t := by simp [strCmp, memcmp, cmpLen, hxy]
        rw [hrest, ih, cons_lt_cons_iff, hxy]
        simp
      · have hval : x.val ≠ y.val := fun heq => hxy (Fin.val_injective heq)
        have hdiff : strCmp (x :: s) (y :: t) = (x.val : ℤ) - y.val := by
          rw [strCmp, memcmp, if_neg hxy, if_pos (by omega)]
        rw [hdiff, cons_lt_cons_iff, Fin.lt_def]
        simp [Ne.symm hxy]

lemma pad_lt (s : Str) (i : ℕ) : pad s i < 256 := (s.getD i 0).isLt

lemma packTo_succ (s : Str) (off n : ℕ) : packTo s off (n + 1) = 256 * packTo s off n + pad s (off + n) := by
  rw [packTo, range_succ, foldl_append]
  rfl

lemma packTo_eq (h : packTo s off n = packTo t off n) : ∀ i < n, pad s (off + i) = pad t (off + i) := by
  induction n with
  | zero => exact nofun
  | succ n ih =>
    rw [packTo_succ, packTo_succ] at h
    have hs := pad_lt s (off + n)
    have ht := pad_lt t (off + n)
    intro i hi
    obtain hlt | rfl := Nat.lt_succ_iff_lt_or_eq.mp hi
    · exact ih (by omega) i hlt
    · omega

def Before (lo : ℕ) (s t : Str) : Prop := ∃ k ≥ lo, (∀ i, lo ≤ i → i < k → pad s i = pad t i) ∧ pad s k < pad t k

lemma packTo_lt (h : packTo s off n < packTo t off n) : Before off s t := by
  induction n with
  | zero => exact absurd h (lt_irrefl _)
  | succ n ih =>
    rw [packTo_succ, packTo_succ] at h
    have hs := pad_lt s (off + n)
    have ht := pad_lt t (off + n)
    obtain hlt | heq : packTo s off n < packTo t off n ∨ packTo s off n = packTo t off n := by omega
    · exact ih hlt
    · refine ⟨off + n, Nat.le_add_right _ _, fun i hi hin => ?_, by omega⟩
      have := packTo_eq heq (i - off) (by omega)
      rwa [Nat.add_sub_cancel' hi] at this

lemma Before.lt (h : Before base s t) (hagree : ∀ i < base, pad s i = pad t i) : s < t := by
  obtain ⟨k, -, hk, hlt⟩ := h
  exact lt_of_pad_lt (fun i hi => (lt_or_ge i base).elim (hagree i) (fun hge => hk i hge hi)) hlt

lemma cmpParts_cases (s t : Str) (off p : ℕ) :
    (cmpParts (loadParts s off p) (loadParts t off p) = 0 ∧ ∀ i, off ≤ i → i < off + 8 * p → pad s i = pad t i) ∨
      (cmpParts (loadParts s off p) (loadParts t off p) < 0 ∧ Before off s t) ∨
        (0 < cmpParts (loadParts s off p) (loadParts t off p) ∧ Before off t s) := by
  induction p generalizing off with
  | zero => exact .inl ⟨rfl, fun i hi hip => by omega⟩
  | succ p ih =>
    rw [loadParts, loadParts, cmpParts]
    obtain hlt | heq | hgt := lt_trichotomy (loadPart s off) (loadPart t off)
    · exact .inr (.inl ⟨by rw [if_pos hlt]; decide, packTo_lt hlt⟩)
    · rw [if_neg heq.not_lt, if_neg heq.not_gt]
      have hsame : ∀ i, off ≤ i → i < off + 8 → pad s i = pad t i := fun i hi hi8 => by
        have := packTo_eq heq (i - off) (by omega)
        rwa [Nat.add_sub_cancel' hi] at this
      have hbefore {s t : Str} (hsame : ∀ i, off ≤ i → i < off + 8 → pad s i = pad t i) :
          Before (off + 8) s t → Before off s t :=
        fun ⟨k, hk, hagree, hlt⟩ => ⟨k, by omega, fun i hi hik =>
          (lt_or_ge i (off + 8)).elim (hsame i hi) (fun hge => hagree i hge hik), hlt⟩
      obtain ⟨h0, hrest⟩ | ⟨hneg, hb⟩ | ⟨hpos, hb⟩ := ih (off + 8)
      · exact .inl ⟨h0, fun i hi hip =>
          (lt_or_ge i (off + 8)).elim (hsame i hi) (fun hge => hrest i hge (by omega))⟩
      · exact .inr (.inl ⟨hneg, hbefore hsame hb⟩)
      · exact .inr (.inr ⟨hpos, hbefore (fun i hi hi8 => (hsame i hi hi8).symm) hb⟩)
    · exact .inr (.inr ⟨by rw [if_neg hgt.not_gt, if_pos hgt]; decide, packTo_lt hgt⟩)

/-- Keys packed from `base` on, alike below `depth` when padded. -/
structure Window (elem : ℕ → Str) (parts base depth : ℕ) (keys : List StrKey) : Prop where
  packed : ∀ k ∈ keys, k.len = (elem k.row).length ∧ k.parts = loadParts (elem k.row) base parts
  agree : ∀ a ∈ keys, ∀ b ∈ keys, ∀ i < depth, pad (elem a.row) i = pad (elem b.row) i

lemma strkeyCmp_pos (hw : Window elem parts base depth keys) (hdepth : base ≤ depth) (ha : a ∈ keys)
    (hb : b ∈ keys) :
    0 < strkeyCmp elem parts a b ↔ elem b.row < elem a.row := by
  obtain ⟨hla, hpa⟩ := hw.packed a ha
  obtain ⟨hlb, hpb⟩ := hw.packed b hb
  have hagree : ∀ i < base, pad (elem a.row) i = pad (elem b.row) i :=
    fun i hi => hw.agree a ha b hb i (hi.trans_le hdepth)
  rw [strkeyCmp, hpa, hpb]
  obtain ⟨h0, hrest⟩ | ⟨hneg, hbefore⟩ | ⟨hpos, hbefore⟩ := cmpParts_cases (elem a.row) (elem b.row) base parts
  · have hall : ∀ i < base + 8 * parts, pad (elem b.row) i = pad (elem a.row) i :=
      fun i hi => ((lt_or_ge i base).elim (hagree i) (fun hge => hrest i hge hi)).symm
    rw [if_neg (not_not.mpr h0), hla, hlb]
    split
    · rename_i hfit
      rw [lt_iff_length_lt hall (by omega) (by omega)]
      omega
    · rw [strCmp_pos, drop_lt_drop (fun i hi => hall i (by omega)) (by omega)]
  · rw [if_pos hneg.ne]
    exact iff_of_false hneg.not_gt (hbefore.lt hagree).not_gt
  · rw [if_pos hpos.ne']
    exact iff_of_true hpos (hbefore.lt fun i hi => (hagree i hi).symm)

lemma loadParts_getD (s : Str) (off : ℕ) {p : ℕ} (hk : k < p) :
    (loadParts s off p).getD k 0 = loadPart s (off + 8 * k) := by
  induction p generalizing off k with
  | zero => omega
  | succ p ih =>
    cases k with
    | zero => rfl
    | succ k =>
      rw [loadParts, getD_cons_succ, ih _ (Nat.lt_of_succ_lt_succ hk)]
      congr 1
      ring

lemma packTo_div (s : Str) (off n m : ℕ) : packTo s off (n + m) / 256 ^ m = packTo s off n := by
  induction m with
  | zero => rw [pow_zero, Nat.div_one, Nat.add_zero]
  | succ m ih =>
    have hdrop : (256 * packTo s off (n + m) + pad s (off + (n + m))) / 256 = packTo s off (n + m) := by
      have := pad_lt s (off + (n + m))
      omega
    rw [← Nat.add_assoc, packTo_succ, pow_succ', ← Nat.div_div_eq_div_mul, hdrop, ih]

lemma strkeyByteAt_eq (hk : a.parts = loadParts (elem a.row) base parts) (hbp : bp < 8 * parts) :
    strkeyByteAt bp a = pad (elem a.row) (base + bp) := by
  have hpow : 2 ^ (56 - 8 * (bp % 8)) = 256 ^ (7 - bp % 8) := by
    rw [show 56 - 8 * (bp % 8) = 8 * (7 - bp % 8) by omega, pow_mul]
    rfl
  have hdiv := packTo_div (elem a.row) (base + 8 * (bp / 8)) (bp % 8 + 1) (7 - bp % 8)
  rw [show bp % 8 + 1 + (7 - bp % 8) = 8 by omega] at hdiv
  have hlt := pad_lt (elem a.row) (base + 8 * (bp / 8) + bp % 8)
  rw [strkeyByteAt, hk, loadParts_getD _ _ (by omega), Nat.shiftRight_eq_div_pow, hpow, loadPart, hdiv,
    packTo_succ, show base + bp = base + 8 * (bp / 8) + bp % 8 by omega]
  omega

lemma Window.mono {keys' : List StrKey} (hw : Window elem parts base depth keys) (hsub : ∀ k ∈ keys', k ∈ keys) :
    Window elem parts base depth keys' :=
  ⟨fun k hk => hw.packed k (hsub k hk), fun a ha b hb => hw.agree a (hsub a ha) b (hsub b hb)⟩

lemma Window.deeper (hw : Window elem parts base (base + bp) keys) (hbp : bp < 8 * parts)
    (hsame : ∀ a ∈ keys, ∀ b ∈ keys, strkeyByteAt bp a = strkeyByteAt bp b) :
      Window elem parts base (base + (bp + 1)) keys := by
  refine ⟨hw.packed, fun a ha b hb i hi => ?_⟩
  obtain hlt | rfl := Nat.lt_succ_iff_lt_or_eq.mp hi
  · exact hw.agree a ha b hb i hlt
  · have := hsame a ha b hb
    rwa [strkeyByteAt_eq (hw.packed a ha).2 hbp, strkeyByteAt_eq (hw.packed b hb).2 hbp] at this

lemma strkeyByteAt_lt (bp : ℕ) (k : StrKey) : strkeyByteAt bp k < 256 := Nat.mod_lt _ (by decide)

lemma uniform_same (h : uniform bp keys = true) :
    ∀ a ∈ keys, ∀ b ∈ keys, strkeyByteAt bp a = strkeyByteAt bp b := by
  have hmem (a : StrKey) (ha : a ∈ keys) :
      strkeyByteAt bp a ∈ (range 256).filter fun b => keys.countP (strkeyByteAt bp · = b) ≠ 0 := by
    refine mem_filter.mpr ⟨mem_range.mpr (strkeyByteAt_lt bp a),
      decide_eq_true (countP_pos_iff.mpr ⟨a, ha, ?_⟩).ne'⟩
    exact decide_eq_true rfl
  intro a ha b hb
  obtain hzero | hone := Nat.le_one_iff_eq_zero_or_eq_one.mp (of_decide_eq_true h)
  · have := length_eq_zero_iff.mp hzero ▸ hmem a ha
    cases this
  · obtain ⟨y, hy⟩ := length_eq_one_iff.mp hone
    exact (mem_singleton.mp (hy ▸ hmem a ha)).trans (mem_singleton.mp (hy ▸ hmem b hb)).symm

def Sorts (elem : ℕ → Str) (keys out : List StrKey) : Prop :=
  out.map StrKey.row ~ keys.map StrKey.row ∧ out.Pairwise fun a b => elem a.row ≤ elem b.row

lemma strkeyInsertionSort_sorts (hw : Window elem parts base depth keys) (hdepth : base ≤ depth) :
    Sorts elem keys (strkeyInsertionSort elem parts keys) :=
  ⟨(insertSort_perm _ _).map _, @insertSort_sorted _ _ _ _ (fun k => elem k.row) _ fun _ hx _ hy =>
    decide_eq_true_iff.trans (strkeyCmp_pos hw hdepth hx hy)⟩

lemma Window.repack (hw : Window elem parts base (base + 8 * parts) keys) (hlen : 1 < keys.length)
    (hread : strayRead elem parts (base + 8 * parts) keys = false) :
    ∃ r, repackWindow elem parts (base + 8 * parts) keys = some r ∧
      (r.2 = false ∧ Sorts elem keys r.1 ∧ (∀ k ∈ keys, (elem k.row).length ≤ base + 8 * parts) ∨
        r.2 = true ∧ r.1.map StrKey.row = keys.map StrKey.row ∧
          Window elem parts (base + 8 * parts) (base + 8 * parts) r.1 ∧
          ∃ k ∈ keys, base + 8 * parts < (elem k.row).length) := by
  let packed := keys.map fun k => { k with parts := loadParts (elem k.row) (base + 8 * parts) parts }
  have hrows : packed.map StrKey.row = keys.map StrKey.row := by rw [map_map]; rfl
  have hpacked : ∀ k ∈ packed, k.len = (elem k.row).length := forall_mem_map.mpr fun j hj => (hw.packed j hj).1
  have hagree : ∀ a ∈ packed, ∀ b ∈ packed, ∀ i < base + 8 * parts, pad (elem a.row) i = pad (elem b.row) i :=
    forall_mem_map.mpr fun x hx => forall_mem_map.mpr fun y hy => hw.agree x hx y hy
  by_cases htail : ((keys.map fun k => (elem k.row).length).any fun n => base + 8 * parts < n) = true
  · refine ⟨(packed, true), ?_, .inr
      ⟨rfl, hrows, ⟨forall_mem_map.mpr fun j hj => ⟨(hw.packed j hj).1, rfl⟩, hagree⟩, ?_⟩⟩
    · simp only [repackWindow, hread, htail]
      rfl
    · simpa using htail
  · have hends : ∀ k ∈ keys, (elem k.row).length ≤ base + 8 * parts := by simpa using htail
    have hshort : ∀ k ∈ packed, (elem k.row).length ≤ base + 8 * parts := forall_mem_map.mpr hends
    have hle (a : StrKey) (ha : a ∈ packed) (b : StrKey) (hb : b ∈ packed) (hab : a.len ≤ b.len) :
        elem a.row ≤ elem b.row := by
      refine not_lt.mp fun hlt => ?_
      rw [lt_iff_length_lt (hagree b hb a ha) (hshort b hb) (hshort a ha), ← hpacked a ha, ← hpacked b hb] at hlt
      omega
    simp only [repackWindow, hread, eq_false_of_ne_true htail, true_and, Bool.false_eq_true, if_false]
    split
    · obtain ⟨r, hrun, hperm, hsorted⟩ := @quickSort_spec _ _ _ packed StrKey.len _ (Nat.lt_succ_self _)
      refine ⟨(r, false), by rw [strkeyQsortByLen, hrun]; rfl,
        .inl ⟨rfl, ⟨(hperm.map _).trans (.of_eq hrows), ?_⟩, hends⟩⟩
      exact hsorted.imp_of_mem fun ha hb hab => hle _ (hperm.mem_iff.mp ha) _ (hperm.mem_iff.mp hb) hab
    · rename_i hsame
      have heq := not_not.mp fun hne => hsame ⟨hlen, hne⟩
      have hmem : ∀ k ∈ packed, (elem k.row).length ∈ keys.map fun k => (elem k.row).length :=
        forall_mem_map.mpr fun j hj => mem_map.mpr ⟨j, hj, rfl⟩
      refine ⟨(packed, false), rfl, .inl
        ⟨rfl, ⟨.of_eq hrows, pairwise_of_forall_mem_list fun a ha b hb => hle a ha b hb ?_⟩, hends⟩⟩
      rw [hpacked a ha, hpacked b hb]
      exact ((isGreatest_foldl_max 0 _).2 (.inr (hmem a ha))).trans
        (heq ▸ (isLeast_foldl_min (2 ^ 32 - 1) _).2 (.inr (hmem b hb)))

lemma Sorts.mono_row {keys' out : List StrKey} (h : Sorts elem keys out)
    (hrows : keys.map StrKey.row ~ keys'.map StrKey.row) :
    Sorts elem keys' out := ⟨h.1.trans hrows, h.2⟩

lemma Window.buckets {cells : List StrKey} (hw : Window elem parts base (base + bp) cells) (hbp : bp < 8 * parts)
    {part : ℕ → List StrKey} (hpart : ∀ b < 256, part b = cells.filter (strkeyByteAt bp · = b))
    {g : List StrKey → Option (List StrKey)}
    (hsort : ∀ b < 256, ∃ out, g (part b) = some out ∧ Sorts elem (part b) out) :
    ∃ out, (range 256).foldlM (fun out b => (g (part b)).map (out ++ ·)) [] = some out ∧ Sorts elem cells out := by
  obtain ⟨out, hrun, hout⟩ := foldlM_inv
    (fun pre out => Sorts elem (cells.filter (strkeyByteAt bp · < pre.length)) out) (l := range 256)
    (f := fun out b => (g (part b)).map (out ++ ·)) (s := []) ⟨by simp, .nil⟩
    fun pre b post hpre out hout => by
      have hb : b = pre.length := by
        have := congrArg (·[pre.length]?) hpre
        grind
      have hlt : b < 256 := mem_range.mp (by rw [hpre]; simp)
      obtain ⟨o, ho, hsorts⟩ := hsort b hlt
      rw [hpart b hlt] at hsorts
      refine ⟨out ++ o, by rw [ho]; rfl, ?_, pairwise_append.mpr ⟨hout.2, hsorts.2, fun x hx y hy => ?_⟩⟩
      · rw [map_append, length_append, length_singleton]
        refine (hout.1.append hsorts.1).trans ?_
        rw [← map_append, hb]
        exact (filter_succ_perm _ _ _).symm.map _
      · obtain ⟨x', hx', hxr⟩ := mem_map.mp (hout.1.mem_iff.mp (mem_map_of_mem hx))
        obtain ⟨y', hy', hyr⟩ := mem_map.mp (hsorts.1.mem_iff.mp (mem_map_of_mem hy))
        obtain ⟨hxc, hxb⟩ := mem_filter.mp hx'
        obtain ⟨hyc, hyb⟩ := mem_filter.mp hy'
        rw [decide_eq_true_iff, strkeyByteAt_eq (hw.packed _ hxc).2 hbp, ← hb] at hxb
        rw [decide_eq_true_iff, strkeyByteAt_eq (hw.packed _ hyc).2 hbp] at hyb
        rw [← hxr, ← hyr]
        exact (lt_of_pad_lt (hw.agree _ hxc _ hyc) (hyb ▸ hxb)).le
  refine ⟨out, hrun, hout.mono_row (.of_eq ?_)⟩
  rw [filter_eq_self.mpr fun k _ => by simpa using strkeyByteAt_lt bp k]

def Alike (n : ℕ) (s t : Str) : Prop := ∀ i < n, pad s i = pad t i

instance (n : ℕ) (s t : Str) : Decidable (Alike n s t) := inferInstanceAs (Decidable (∀ i < n, pad s i = pad t i))

/-- More rows than the base case takes that are alike, when padded, on 2 ^ 31 bytes, one of them longer. -/
def Crowded (elem : ℕ → Str) (rows : List ℕ) : Prop :=
  ∃ r ∈ rows, 2 ^ 31 < (elem r).length ∧ baseCase < rows.countP fun q => Alike (2 ^ 31) (elem q) (elem r)

lemma Crowded.mono {rows rows' : List ℕ} (h : Crowded elem rows) (hsub : rows <+~ rows') : Crowded elem rows' := by
  obtain ⟨r, hr, hlong, hcount⟩ := h
  exact ⟨r, hsub.subset hr, hlong, hcount.trans_le (hsub.countP_le _)⟩

lemma Crowded.length_lt {rows : List ℕ} (h : Crowded elem rows) : baseCase < rows.length := by
  obtain ⟨r, -, -, hcount⟩ := h
  exact hcount.trans_le countP_le_length

lemma Window.crowded (hw : Window elem parts base depth keys) (hdepth : 2 ^ 31 ≤ depth)
    (hmany : baseCase < keys.length)
    (ha : a ∈ keys) (hlong : 2 ^ 31 < (elem a.row).length) : Crowded elem (keys.map StrKey.row) := by
  refine ⟨a.row, mem_map_of_mem ha, hlong, ?_⟩
  have halike : ∀ q ∈ keys.map StrKey.row, decide (Alike (2 ^ 31) (elem q) (elem a.row)) = true :=
    forall_mem_map.mpr fun b hb => decide_eq_true fun i hi => hw.agree b hb a ha i (hi.trans_le hdepth)
  rw [countP_eq_length.mpr halike, length_map]
  exact hmany

/-- Windows begin at multiples of their size, so no word before 2 ^ 31 is stray. -/
lemma Window.reads_inside (hw : Window elem parts off base keys) (hdvd : 8 * parts ∣ base)
    (hcap : 8 * parts ∣ 2 ^ 31 ∨ ∀ k ∈ keys, (elem k.row).length ≤ 2 ^ 31) (hmany : baseCase < keys.length)
    (hroom : ¬Crowded elem (keys.map StrKey.row)) : strayRead elem parts base keys = false := by
  refine eq_false_of_ne_true fun hread => ?_
  obtain ⟨k, hk, hword⟩ := any_eq_true.mp hread
  obtain ⟨p, hp, hstray⟩ := any_eq_true.mp hword
  rw [Bool.and_eq_true, decide_eq_true_iff, decide_eq_true_iff] at hstray
  rw [mem_range] at hp
  obtain hcap | hends := hcap
  · refine hroom (hw.crowded (not_lt.mp fun hlt => ?_) hmany hk (by omega))
    obtain ⟨m, rfl⟩ := hdvd
    obtain ⟨n, hn⟩ := hcap
    have hstep : 8 * parts * (m + 1) ≤ 8 * parts * n :=
      Nat.mul_le_mul_left _ (Nat.lt_of_mul_lt_mul_left (hn ▸ hlt))
    rw [mul_add, ← hn] at hstep
    omega
  · have := hends k hk
    omega

lemma foldlM_append_none {l : List ℕ} {b : ℕ} {g : ℕ → Option (List StrKey)} (hb : b ∈ l) (hg : g b = none)
    (out : List StrKey) :
    l.foldlM (fun out b => (g b).map (out ++ ·)) out = none := by
  induction l generalizing out with
  | nil => cases hb
  | cons c l ih =>
    rw [foldlM_cons]
    obtain rfl | hl := mem_cons.mp hb
    · rw [hg]
      rfl
    · cases g c with
      | none => rfl
      | some o => exact ih hl (out ++ o)

lemma aflag_crowded {fuel : ℕ} (hw : Window elem parts base (base + bp) keys) (hbp : bp ≤ 8 * parts)
    (hbase : 8 * parts ∣ base) (hcap : 8 * parts ∣ 2 ^ 31) (hlt : base < 2 ^ 31)
    (hcrowd : Crowded elem (keys.map StrKey.row)) :
    aflag elem parts fuel keys bp base = none := by
  induction fuel generalizing keys bp base with
  | zero => rfl
  | succ fuel ih =>
    have hmany := hcrowd.length_lt
    obtain ⟨r, hr, hlong, hcount⟩ := hcrowd
    obtain ⟨k, hk, rfl⟩ := mem_map.mp hr
    rw [length_map] at hmany
    have hone : ¬keys.length ≤ 1 := by simp only [baseCase] at hmany; omega
    have hnext : base + 8 * parts ≤ 2 ^ 31 := by
      obtain ⟨m, rfl⟩ := hbase
      obtain ⟨n, hn⟩ := hcap
      rw [hn] at hlt ⊢
      exact Nat.mul_le_mul_left _ (Nat.lt_of_mul_lt_mul_left hlt)
    rw [aflag, if_neg hone, if_neg hmany.not_ge]
    by_cases hend : 8 * parts ≤ bp
    · obtain rfl : bp = 8 * parts := le_antisymm hbp hend
      rw [if_pos hend]
      by_cases hread : strayRead elem parts (base + 8 * parts) keys = true
      · rw [repackWindow, if_pos hread]
        rfl
      · obtain ⟨r, hrun, ⟨-, -, hends⟩ | ⟨hyes, hrows, hwin, -⟩⟩ :=
          hw.repack (by omega) (eq_false_of_ne_true hread)
        · have := hends k hk
          omega
        · have hroom : base + 8 * parts < 2 ^ 31 := by
            refine lt_of_le_of_ne hnext fun heq => hread (any_eq_true.mpr ⟨k, hk, any_eq_true.mpr ⟨0, ?_, ?_⟩⟩)
            · rw [mem_range]
              omega
            · simp only [Bool.and_eq_true, decide_eq_true_iff]
              omega
          rw [hrun, Option.bind_some, if_pos hyes]
          refine @ih (base + 8 * parts) 0 r.1 hwin (Nat.zero_le _) (Nat.dvd_add hbase (dvd_refl _)) hroom ?_
          rw [hrows]
          exact ⟨k.row, hr, hlong, hcount⟩
    · rw [if_neg hend]
      by_cases huniform : uniform bp keys = true
      · rw [if_pos huniform]
        exact ih (hw.deeper (by omega) (uniform_same huniform)) (by omega) hbase hlt ⟨k.row, hr, hlong, hcount⟩
      · rw [if_neg huniform]
        obtain ⟨cells, hpass, hperm, hsorted⟩ :=
          bucketPass_spec (f := strkeyByteAt bp) (m := 256) (l := keys) fun k _ => strkeyByteAt_lt bp k
        have hbyte := strkeyByteAt_lt bp k
        rw [hpass, Option.bind_some]
        refine foldlM_append_none (mem_range.mpr hbyte) ?_ []
        rw [slice_start hperm hsorted (fun k _ => strkeyByteAt_lt bp k) hbyte]
        have hsub : ∀ a ∈ cells.filter (strkeyByteAt bp · = strkeyByteAt bp k), a ∈ keys :=
          fun a ha => hperm.mem_iff.mp (mem_of_mem_filter ha)
        refine ih ((hw.mono hsub).deeper (by omega) fun a ha b hb => ?_) (by omega) hbase hlt
          ⟨k.row, ?_, hlong, ?_⟩
        · exact (of_decide_eq_true (mem_filter.mp ha).2).trans (of_decide_eq_true (mem_filter.mp hb).2).symm
        · exact mem_map_of_mem (mem_filter.mpr ⟨hperm.mem_iff.mpr hk, decide_eq_true rfl⟩)
        · rw [countP_map] at hcount ⊢
          rw [countP_filter]
          refine hcount.trans_le ((hperm.countP_eq _).symm.le.trans (countP_mono_left fun a ha halike => ?_))
          have hprefix := halike
          rw [Function.comp_apply, decide_eq_true_iff] at hprefix
          have hsame := hprefix (base + bp) (by omega)
          rw [Bool.and_eq_true]
          refine ⟨halike, decide_eq_true ?_⟩
          rwa [strkeyByteAt_eq (hw.packed a (hperm.mem_iff.mp ha)).2 (by omega),
            strkeyByteAt_eq (hw.packed k hk).2 (by omega)]

lemma aflag_sorts {fuel m : ℕ} (hw : Window elem parts base (base + bp) keys) (hbp : bp ≤ 8 * parts)
    (hparts : 0 < parts) (hm : ∀ k ∈ keys, (elem k.row).length ≤ m) (hbase : base ≤ m) (hdvd : 8 * parts ∣ base)
    (hcap : 8 * parts ∣ 2 ^ 31 ∨ ∀ k ∈ keys, (elem k.row).length ≤ 2 ^ 31)
    (hroom : ¬Crowded elem (keys.map StrKey.row))
    (hfuel : 2 * (m + 8 * parts - (base + bp)) + (if bp = 8 * parts then 1 else 0) < fuel) :
    ∃ out, aflag elem parts fuel keys bp base = some out ∧ Sorts elem keys out := by
  induction fuel generalizing keys bp base with
  | zero => omega
  | succ fuel ih =>
    rw [aflag]
    by_cases hone : keys.length ≤ 1
    · refine ⟨keys, if_pos hone, .rfl, ?_⟩
      obtain hzero | hone := Nat.le_one_iff_eq_zero_or_eq_one.mp hone
      · rw [length_eq_zero_iff.mp hzero]
        exact .nil
      · obtain ⟨y, rfl⟩ := length_eq_one_iff.mp hone
        exact pairwise_singleton _ _
    · rw [if_neg hone]
      by_cases hsmall : keys.length ≤ baseCase
      · exact ⟨_, if_pos hsmall, strkeyInsertionSort_sorts hw (Nat.le_add_right _ _)⟩
      · rw [if_neg hsmall]
        by_cases hend : 8 * parts ≤ bp
        · obtain rfl : bp = 8 * parts := le_antisymm hbp hend
          rw [if_pos hend]
          have hdvd' : 8 * parts ∣ base + 8 * parts := Nat.dvd_add hdvd (dvd_refl _)
          have hread : strayRead elem parts (base + 8 * parts) keys = false :=
            hw.reads_inside hdvd' hcap (not_le.mp hsmall) hroom
          obtain ⟨r, hrun, ⟨hno, hsorts, -⟩ | ⟨hyes, hrows, hwin, k, hk, hlong⟩⟩ := hw.repack (by omega) hread
          · exact ⟨r.1, by rw [hrun, Option.bind_some, if_neg (by rw [hno]; decide)], hsorts⟩
          · have hle : base + 8 * parts ≤ m := hlong.le.trans (hm k hk)
            rw [if_pos rfl] at hfuel
            have hsame {n : ℕ} (h : ∀ k ∈ keys, (elem k.row).length ≤ n) : ∀ k ∈ r.1, (elem k.row).length ≤ n := by
              intro k hk
              obtain ⟨j, hj, hjk⟩ := mem_map.mp (hrows ▸ mem_map_of_mem (f := StrKey.row) hk)
              exact hjk ▸ h j hj
            obtain ⟨out, hout, hsorts⟩ := @ih (base + 8 * parts) 0 r.1 hwin (Nat.zero_le _) (hsame hm) hle hdvd'
              (hcap.imp_right hsame) (hrows ▸ hroom) (by rw [if_neg (by omega)]; omega)
            exact ⟨out, by rw [hrun, Option.bind_some, if_pos hyes, hout], hsorts.mono_row (.of_eq hrows)⟩
        · rw [if_neg hend]
          have hdeep (keys' : List StrKey) (hperm : keys' <+~ keys)
            (hsame : ∀ a ∈ keys', ∀ b ∈ keys', strkeyByteAt bp a = strkeyByteAt bp b) :
              ∃ out, aflag elem parts fuel keys' (bp + 1) base = some out ∧ Sorts elem keys' out := by
            have hsub : ∀ k ∈ keys', k ∈ keys := fun k hk => hperm.subset hk
            obtain ⟨l, hl, hsublist⟩ := hperm
            refine ih ((hw.mono hsub).deeper (by omega) hsame) (by omega) (fun k hk => hm k (hsub k hk)) hbase hdvd
              (hcap.imp_right fun h k hk => h k (hsub k hk))
                (fun hcrowd => hroom (hcrowd.mono ⟨_, hl.map _, hsublist.map _⟩)) ?_
            rw [if_neg (by omega)] at hfuel
            split <;> omega
          by_cases huniform : uniform bp keys = true
          · rw [if_pos huniform]
            exact hdeep keys (.refl _) (uniform_same huniform)
          · rw [if_neg huniform]
            obtain ⟨cells, hpass, hperm, hsorted⟩ :=
              bucketPass_spec (f := strkeyByteAt bp) (m := 256) (l := keys) fun k _ => strkeyByteAt_lt bp k
            have hslice (b : ℕ) (hb : b < 256) := slice_start hperm hsorted (fun k _ => strkeyByteAt_lt bp k) hb
            obtain ⟨out, hrun, hsorts⟩ := (hw.mono fun k hk => hperm.mem_iff.mp hk).buckets (by omega) hslice
              (g := fun part => aflag elem parts fuel part (bp + 1) base) fun b hb => by
                rw [hslice b hb]
                refine hdeep _ (filter_sublist.subperm.trans hperm.subperm) fun a ha b hb => ?_
                exact (of_decide_eq_true (mem_filter.mp ha).2).trans (of_decide_eq_true (mem_filter.mp hb).2).symm
            exact ⟨out, by rw [hpass, Option.bind_some]; exact hrun, hsorts.mono_row (hperm.map _)⟩

def Ascends (parts : ℕ) (a b : StrKey) : Prop :=
  strkeyCmpPacked a b < 0 ∨ strkeyCmpPacked a b = 0 ∧ ¬Overlong parts a b

def Descends (parts : ℕ) (a b : StrKey) : Prop :=
  0 < strkeyCmpPacked a b ∨ strkeyCmpPacked a b = 0 ∧ ¬Overlong parts a b

lemma detectFrom_eq (parts : ℕ) (asc desc : Bool) (a : StrKey) (keys : List StrKey) :
    (detectFrom parts asc desc a keys = 1 ↔ asc = true ∧ (a :: keys).IsChain (Ascends parts)) ∧
      (detectFrom parts asc desc a keys = -1 ↔ ¬(asc = true ∧ (a :: keys).IsChain (Ascends parts)) ∧
        desc = true ∧ (a :: keys).IsChain (Descends parts)) := by
  induction keys generalizing asc desc a with
  | nil => cases asc <;> cases desc <;> simp [detectFrom]
  | cons b keys ih =>
    rw [isChain_cons_cons, isChain_cons_cons, detectFrom, Ascends, Descends]
    obtain hlt | heq | hgt := lt_trichotomy (strkeyCmpPacked a b) 0
    · have := ih asc false b
      cases asc <;> cases desc <;> simp_all [hlt.ne, hlt.le, hlt.not_gt]
    · have := ih asc desc b
      by_cases hlong : Overlong parts a b <;> simp_all
    · have := ih false desc b
      cases asc <;> cases desc <;> simp_all [hgt.ne', hgt.not_gt, hgt.not_ge]

def TieOrdered (elem : ℕ → Str) (parts : ℕ) (a b : StrKey) : Prop :=
  cmpParts a.parts b.parts = 0 → a.len ≠ b.len → Overlong parts a b → (lenDiff a b < 0 ↔ elem a.row < elem b.row)

lemma lenDiff_eq_zero (ha : a.len < 2 ^ 32) (hb : b.len < 2 ^ 32) : lenDiff a b = 0 ↔ a.len = b.len := by
  rw [lenDiff, toInt]
  split <;> omega

lemma lenDiff_eq_sub (ha : a.len < 2 ^ 31) (hb : b.len < 2 ^ 31) : lenDiff a b = a.len - b.len := by
  rw [lenDiff, toInt]
  split <;> omega

lemma tieOrdered_iff (hw : Window elem parts 0 0 keys) (hparts : parts ≤ keyPartsMax)
    (hshort : ∀ r, (elem r).length < 2 ^ 32) (ha : a ∈ keys) (hb : b ∈ keys) :
    (Ascends parts a b → (TieOrdered elem parts a b ↔ elem a.row ≤ elem b.row)) ∧
      (Descends parts a b → (TieOrdered elem parts a b ↔ elem b.row ≤ elem a.row)) := by
  obtain ⟨hla, hpa⟩ := hw.packed a ha
  obtain ⟨hlb, hpb⟩ := hw.packed b hb
  have hcmp := cmpParts_cases (elem a.row) (elem b.row) 0 parts
  rw [← hpa, ← hpb] at hcmp
  have hzero := lenDiff_eq_zero (hla ▸ hshort a.row) (hlb ▸ hshort b.row)
  rw [hla, hlb] at hzero
  have hne : (elem a.row).length ≠ (elem b.row).length → elem a.row ≠ elem b.row :=
    fun h heq => h (congrArg length heq)
  simp only [Ascends, Descends, TieOrdered, strkeyCmpPacked, Overlong, hla, hlb]
  obtain ⟨h0, hpad⟩ | ⟨hneg, hbefore⟩ | ⟨hpos, hbefore⟩ := hcmp
  · have hagree : ∀ i < 8 * parts, pad (elem a.row) i = pad (elem b.row) i :=
      fun i hi => hpad i (Nat.zero_le i) (by omega)
    by_cases hlong : 8 * parts < (elem a.row).length ∨ 8 * parts < (elem b.row).length
    · grind
    · rw [not_or, not_lt, not_lt] at hlong
      simp only [keyPartsMax] at hparts
      have hdiff := lenDiff_eq_sub (hla ▸ (by omega : (elem a.row).length < 2 ^ 31))
        (hlb ▸ (by omega : (elem b.row).length < 2 ^ 31))
      rw [hla, hlb] at hdiff
      have hab := lt_iff_length_lt hagree hlong.1 hlong.2
      have hba := lt_iff_length_lt (fun i hi => (hagree i hi).symm) hlong.2 hlong.1
      grind
  · have hlt := hbefore.lt nofun
    grind
  · have hlt := hbefore.lt nofun
    grind

lemma detectRuns_sound (hw : Window elem parts 0 0 keys) (hparts : parts ≤ keyPartsMax)
    (hshort : ∀ r, (elem r).length < 2 ^ 32) :
    ((detectRuns parts keys = 1 → keys.Pairwise fun a b => elem a.row ≤ elem b.row) ∧
      (detectRuns parts keys = -1 → keys.Pairwise fun a b => elem b.row ≤ elem a.row)) ↔
      (keys.IsChain (Ascends parts) ∨ keys.IsChain (Descends parts) → keys.IsChain (TieOrdered elem parts)) := by
  have hpairs {R L : StrKey → StrKey → Prop} (hL : ∀ a b c, L a b → L b c → L a c)
      (hR : ∀ a ∈ keys, ∀ b ∈ keys, R a b → (TieOrdered elem parts a b ↔ L a b)) (h : keys.IsChain R) :
      keys.IsChain (TieOrdered elem parts) ↔ keys.Pairwise L := by
    have : Trans L L L := ⟨fun hab hbc => hL _ _ _ hab hbc⟩
    rw [← isChain_iff_pairwise, isChain_iff_getElem, isChain_iff_getElem]
    exact forall₂_congr fun i hi => hR _ (getElem_mem _) _ (getElem_mem _) (h.getElem i hi)
  have hup := hpairs (L := fun a b => elem a.row ≤ elem b.row) (fun _ _ _ => le_trans) fun a ha b hb =>
    (tieOrdered_iff hw hparts hshort ha hb).1
  have hdown := hpairs (L := fun a b => elem b.row ≤ elem a.row)
    (fun _ _ _ hab hbc => hbc.trans hab) fun a ha b hb => (tieOrdered_iff hw hparts hshort ha hb).2
  have hruns : ∀ l : List StrKey, (detectRuns parts l = 1 ↔ 2 ≤ l.length ∧ l.IsChain (Ascends parts)) ∧
      (detectRuns parts l = -1 ↔ 2 ≤ l.length ∧ ¬l.IsChain (Ascends parts) ∧ l.IsChain (Descends parts)) := by
    rintro (_ | ⟨a, _ | ⟨b, l⟩⟩)
    · simp [detectRuns]
    · simp [detectRuns]
    · simpa [detectRuns] using detectFrom_eq parts true true a (b :: l)
  obtain hone | htwo := lt_or_ge keys.length 2
  · obtain hzero | hone := Nat.le_one_iff_eq_zero_or_eq_one.mp (Nat.le_of_lt_succ hone)
    · simp [length_eq_zero_iff.mp hzero]
    · obtain ⟨y, rfl⟩ := length_eq_one_iff.mp hone
      simp
  · rw [(hruns keys).1, (hruns keys).2]
    grind

end

lemma StrRows.window_cap (c : StrRows) : 8 * probeParts c ∣ 2 ^ 31 ∨ ∀ r ∈ c.rows, (c.elem r).length ≤ 2 ^ 31 := by
  obtain hfull | hless := eq_or_lt_of_le (min_le_right _ _ : probeParts c ≤ keyPartsMax)
  · have hsize : 8 * keyPartsMax ∣ 2 ^ 31 := by decide
    exact .inl (by rwa [probeParts, hfull])
  · refine .inr fun r hr => ?_
    have hmax := (isGreatest_foldl_max 0 (c.rows.map fun r => (c.elem r).length)).2 (.inr (mem_map_of_mem hr))
    simp only [keyPartsMax] at hless
    have hwords : probeParts c = min (max (((c.rows.map fun r => (c.elem r).length).foldl max 0 + 7) / 8) 1) 4 :=
      rfl
    omega

def StrRows.Sorted (c : StrRows) : Prop :=
  (∃ n, ∀ fuel ≥ n, ∃ out, aflag c.elem (probeParts c) fuel (buildKeys c) 0 0 = some out ∧
    out.map StrKey.row ~ c.rows ∧ out.Pairwise fun a b => c.elem a.row ≤ c.elem b.row) ∧
    (detectRuns (probeParts c) (buildKeys c) = 1 → (buildKeys c).Pairwise fun a b => c.elem a.row ≤ c.elem b.row) ∧
      (detectRuns (probeParts c) (buildKeys c) = -1 → (buildKeys c).Pairwise fun a b =>
        c.elem b.row ≤ c.elem a.row)

/-- The sort is right unless rows crowd past 2 ^ 31 bytes or a packed run has an overlong tie out of order. -/
theorem strsort_iff (c : StrRows) :
    c.Sorted ↔ ¬Crowded c.elem c.rows ∧
      ((buildKeys c).IsChain (Ascends (probeParts c)) ∨ (buildKeys c).IsChain (Descends (probeParts c)) →
        (buildKeys c).IsChain (TieOrdered c.elem (probeParts c))) := by
  have hparts : 0 < probeParts c := lt_min (lt_max_of_lt_right one_pos) (by decide)
  have hrows : (buildKeys c).map StrKey.row = c.rows := by
    rw [buildKeys, map_map]
    exact (map_congr_left fun r hr => Nat.mod_eq_of_lt (c.narrow r hr)).trans (map_id _)
  have hw : Window c.elem (probeParts c) 0 0 (buildKeys c) := by
    refine ⟨fun k hk => ?_, fun _ _ _ _ => nofun⟩
    obtain ⟨r, hr, rfl⟩ := mem_map.mp hk
    rw [Nat.mod_eq_of_lt (c.narrow r hr)]
    exact ⟨rfl, rfl⟩
  have hcap := c.window_cap
  rw [StrRows.Sorted, detectRuns_sound hw (min_le_right _ _) c.short]
  refine and_congr_left fun _ => ⟨fun ⟨n, hn⟩ (hcrowd : Crowded c.elem c.rows) => ?_, fun hroom =>
    ⟨2 * (2 ^ 32 + 8 * probeParts c) + 2, fun fuel hfuel => ?_⟩⟩
  · obtain ⟨out, hrun, -⟩ := hn n le_rfl
    have hcap' : 8 * probeParts c ∣ 2 ^ 31 := hcap.resolve_right fun hends => by
      obtain ⟨r, hr, hlong, -⟩ := hcrowd
      exact (hends r hr).not_gt hlong
    rw [aflag_crowded hw (Nat.zero_le _) (dvd_zero _) hcap' (by decide) (hrows ▸ hcrowd)] at hrun
    cases hrun
  · obtain ⟨out, hrun, hperm, hsorted⟩ :=
      aflag_sorts (m := 2 ^ 32) hw (Nat.zero_le _) hparts (fun k _ => (c.short k.row).le) (Nat.zero_le _)
      (dvd_zero _) (hcap.imp_right fun h k hk => h k.row (hrows ▸ mem_map_of_mem hk)) (hrows ▸ hroom)
        (by split <;> omega : _ < fuel)
    exact ⟨out, hrun, hperm.trans (.of_eq hrows), hsorted⟩

/-- Strings that differ in byte 33 only are taken for a run. -/
theorem strsort_overlong_tie : ¬ ∀ c : StrRows, c.Sorted := by
  intro h
  let c : StrRows := ⟨fun r => replicate 32 97 ++ if r = 0 then [98] else [97, 97], [0, 1], fun r =>
    by split <;> simp, by simp⟩
  have hrun : detectRuns (probeParts c) (buildKeys c) = 1 := by decide
  have hle : c.elem 0 ≤ c.elem 1 := (pairwise_pair.mp ((h c).2.1 hrun) :)
  exact absurd hle (by decide)

end Rayforce.Sort
