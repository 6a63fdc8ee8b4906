import Rayforce.Idiom.Vectors
import Rayforce.Library.Extremes

namespace Rayforce.Idiom

open ElemType Library.Extremes List Option

variable {rt : Runtime} {v : Vec} {out : ℕ}

lemma addInt_minI (a : Acc) (z : ℤ) : (a.addInt z).minI = min a.minI z := by
  rw [min_comm, min_def_lt]
  rfl

lemma addInt_maxI (a : Acc) (z : ℤ) : (a.addInt z).maxI = max a.maxI z := by
  rw [max_def_lt]
  rfl

lemma foldl_addInt (l : List ℤ) (a : Acc) :
    (l.foldl Acc.addInt a).cnt = a.cnt + l.length ∧ (l.foldl Acc.addInt a).minI = l.foldl min a.minI ∧
      (l.foldl Acc.addInt a).maxI = l.foldl max a.maxI := by
  induction l generalizing a with
  | nil => simp
  | cons z l ih =>
    obtain ⟨hc, hmin, hmax⟩ := ih (a.addInt z)
    rw [foldl_cons, foldl_cons, foldl_cons, hc, hmin, hmax, addInt_minI, addInt_maxI]
    refine ⟨?_, rfl, rfl⟩
    simp only [Acc.addInt, length_cons]
    omega

def numbers (l : List (WithBot ℚ)) : List ℚ := l.filterMap fun x => x.recBotCoe none some

@[simp] lemma mem_numbers {l : List (WithBot ℚ)} {x : ℚ} : x ∈ numbers l ↔ (x : WithBot ℚ) ∈ l := by
  rw [numbers, mem_filterMap]
  constructor
  · rintro ⟨y, hy, h⟩
    cases y with
    | bot => cases h
    | coe y =>
      obtain rfl : y = x := some.inj h
      exact hy
  · exact fun h => ⟨x, h, rfl⟩

def leastNumber (l : List (WithBot ℚ)) : ℚ := (numbers l).foldl min dblMax

def greatestNumber (l : List (WithBot ℚ)) : ℚ := (numbers l).foldl max (-dblMax)

lemma addFloat_minF (a : Acc) (x : ℚ) : (a.addFloat x).minF = min a.minF x := by
  rw [min_comm, min_def_lt]
  rfl

lemma addFloat_maxF (a : Acc) (x : ℚ) : (a.addFloat x).maxF = max a.maxF x := by
  rw [max_def_lt]
  rfl

lemma foldl_addFloat (l : List (WithBot ℚ)) (a : Acc) : (l.foldl Acc.addFloat a).cnt = a.cnt + l.length ∧
      (l.foldl Acc.addFloat a).minF = (numbers l).foldl min a.minF ∧
      (l.foldl Acc.addFloat a).maxF = (numbers l).foldl max a.maxF := by
  induction l generalizing a with
  | nil => simp [numbers]
  | cons x l ih =>
    obtain ⟨hc, hmin, hmax⟩ := ih (a.addFloat x)
    rw [foldl_cons, hc, hmin, hmax, length_cons]
    cases x with
    | bot => exact ⟨by simp only [Acc.addFloat]; omega, rfl, rfl⟩
    | coe x =>
      rw [addFloat_minF, addFloat_maxF]
      exact ⟨by simp only [Acc.addFloat]; omega, rfl, rfl⟩

lemma addSym_minS (a : Acc) (b : Bytes) (ha : a.cnt ≠ 0) : (a.addSym b).minS = min a.minS b := by
  rw [min_comm, min_def_lt]
  simp only [Acc.addSym, if_neg ha]
  split_ifs <;> rfl

lemma addSym_maxS (a : Acc) (b : Bytes) (ha : a.cnt ≠ 0) : (a.addSym b).maxS = max a.maxS b := by
  rw [max_def_lt]
  simp only [Acc.addSym, if_neg ha]
  split_ifs <;> rfl

lemma foldl_addSym (l : List Bytes) (a : Acc) (ha : a.cnt ≠ 0) :
    (l.foldl Acc.addSym a).cnt = a.cnt + l.length ∧ (l.foldl Acc.addSym a).minS = l.foldl min a.minS ∧
      (l.foldl Acc.addSym a).maxS = l.foldl max a.maxS := by
  induction l generalizing a with
  | nil => simp
  | cons b l ih =>
    obtain ⟨hc, hmin, hmax⟩ := ih (a.addSym b) (by simp [Acc.addSym])
    rw [foldl_cons, foldl_cons, foldl_cons, hc, hmin, hmax, addSym_minS a b ha, addSym_maxS a b ha]
    refine ⟨?_, rfl, rfl⟩
    simp only [Acc.addSym, length_cons]
    omega

lemma wideWinner_cons (better : Bytes → Bytes → Bool) (b : Bytes) (r : List Bytes) :
    wideWinner better (b :: r) = some (r.foldl (fun w b => if better b w then b else w) b) := by
  simp only [wideWinner, foldl_cons]
  induction r generalizing b with
  | nil => rfl
  | cons c r ih =>
    rw [foldl_cons, foldl_cons, ← ih]
    by_cases h : better c b <;> simp [h]

namespace Cells

def Fits (t : ElemType) : Cells → Prop
  | ints l => t ∈ [bool, u8, i16, i32, i64, date, time, timestamp] ∧ ∀ z ∈ l, t.bounds.1 ≤ z ∧ z ≤ t.bounds.2
  | floats l => t ∈ [f32, f64] ∧ ∀ x : ℚ, (x : WithBot ℚ) ∈ l → -dblMax ≤ x ∧ x ≤ dblMax
  | names l => t ∈ [guid, sym, str] ∧ (t = guid → ∀ b ∈ l, b.length = 16)

end Cells

structure Vec.WellFormed (v : Vec) : Prop where
  fits : v.cells.Fits v.ty
  slice : v.parent.isSome → v.hasNulls = false
  flagged : v.anyNulls = false → v.cells.anySentinel v.ty = false
  nullable : v.hasNulls = true → v.ty ∉ [bool, u8, sym, str]

def Vec.Hides (v : Vec) : Prop := v.parent = some true ∧ v.cells.anySentinel v.ty = true

def outTag (t : ElemType) (out : ℕ) : ℕ := if out = 0 then t.code else out

def Typed (t : ElemType) (out : ℕ) : Prop := out = 0 ∨ out = t.code ∨ out = partedBase + t.code

def minRow (rt : Runtime) (t : ElemType) (hasNulls : Bool) (out : ℕ) (c : Cells) : Value :=
  reductionExtremeResult rt t out (reduceRange t hasNulls c).cnt (reduceRange t hasNulls c).minF
    (reduceRange t hasNulls c).minI (reduceRange t hasNulls c).minS

def maxRow (rt : Runtime) (t : ElemType) (hasNulls : Bool) (out : ℕ) (c : Cells) : Value :=
  reductionExtremeResult rt t out (reduceRange t hasNulls c).cnt (reduceRange t hasNulls c).maxF
    (reduceRange t hasNulls c).maxI (reduceRange t hasNulls c).maxS

lemma firstRow_ints {t : ElemType} {f : Bool} {l : List ℤ} {o} (h : l.find? (fun z => !(f && t.isNullInt z)) = o) :
    firstRow t f (.ints l) = o.elim (typedNull t.code) (intAtom t) := by
  rw [firstRow, h]
  cases o <;> rfl

section

variable {t : ElemType} {l : List ℤ} (ht : t ∈ [bool, u8, i16, i32, i64, date, time, timestamp])

include ht

lemma intAtom_of_bounds {z : ℤ} (hz : t.bounds.1 ≤ z ∧ z ≤ t.bounds.2) : intAtom t z = .atom t.code (.int z) := by
  obtain ⟨hlo, hhi⟩ := hz
  cases t <;> simp_all [intAtom, reductionI64Result, code, ofCode, bounds, rayI64, Int.bmod_def] <;> omega

lemma reductionI64Result_parted (z : ℤ) : reductionI64Result z (partedBase + t.code) = rayI64 z := by
  cases t <;> rfl

lemma typedNull_parted_ne : typedNull t.code ≠ typedNull (partedBase + t.code) := by
  cases t <;> decide

section

variable (hout : Typed t out)
include hout

lemma extreme_ints (cnt : ℕ) (f : ℚ) (z : ℤ) (b : Bytes) : reductionExtremeResult rt t out cnt f z b =
      if cnt = 0 then typedNull (outTag t out) else reductionI64Result z (outTag t out) := by
  have h64 : outTag t out ≠ f64.code := by
    rcases hout with rfl | rfl | rfl <;> cases t <;> simp_all [outTag, code, partedBase]
  have h32 : outTag t out ≠ f32.code := by
    rcases hout with rfl | rfl | rfl <;> cases t <;> simp_all [outTag, code, partedBase]
  have hsym : t ≠ sym := by rintro rfl; simp at ht
  have htag : (if out = 0 then t.code else out) = outTag t out := rfl
  simp only [reductionExtremeResult, htag, if_neg h64, if_neg h32, if_neg hsym]

lemma extremes_ints (f : Bool) (hz : ∀ z ∈ l, t.bounds.1 ≤ z ∧ z ≤ t.bounds.2) :
    minRow rt t f out (.ints l) = (leastOf (fun z => !(f && t.isNullInt z)) l).elim (typedNull (outTag t out))
        (reductionI64Result · (outTag t out)) ∧
      maxRow rt t f out (.ints l) = (greatestOf (fun z => !(f && t.isNullInt z)) l).elim (typedNull (outTag t out))
        (reductionI64Result · (outTag t out)) := by
  obtain ⟨hc, hmin, hmax⟩ := foldl_addInt (l.filter fun z => !(f && t.isNullInt z)) .init
  have hb : -2 ^ 63 ≤ t.bounds.1 ∧ t.bounds.2 ≤ 2 ^ 63 - 1 := by cases t <;> simp [bounds]
  simp only [minRow, maxRow, reduceRange, extreme_ints ht hout, hc, hmin, hmax]
  rw [leastOf_eq_foldl (a := 2 ^ 63 - 1) fun z hm _ => (hz z hm).2.trans hb.2,
    greatestOf_eq_foldl (a := -2 ^ 63) fun z hm _ => hb.1.trans (hz z hm).1]
  simp only [Acc.init, Nat.zero_add]
  split_ifs <;> exact ⟨rfl, rfl⟩

lemma ints_elim_eq_iff (o : Option ℤ) : o.elim (typedNull t.code) (intAtom t) =
        o.elim (typedNull (outTag t out)) (reductionI64Result · (outTag t out)) ↔
      out = 0 ∨ out = t.code ∨ t = i64 ∧ o.isSome := by
  rcases hout with rfl | rfl | rfl
  · cases o <;> simp [outTag, intAtom]
  · have hc : t.code ≠ 0 := by cases t <;> simp [code]
    cases o <;> simp [outTag, hc, intAtom]
  · have hc : partedBase + t.code ≠ t.code := by simp [partedBase]
    have h0 : partedBase + t.code ≠ 0 := by simp [partedBase]
    simp only [outTag, h0, hc, if_false, false_or]
    cases o with
    | none => simpa using typedNull_parted_ne ht
    | some z =>
      simp only [elim_some, reductionI64Result_parted ht, isSome_some, and_true]
      cases t <;> simp_all [intAtom, reductionI64Result, code, ofCode, rayI64]

lemma ints_none_elim_iff {s : ℤ} (hs : t.isNullInt s = true) :
    typedNull t.code = reductionI64Result s (outTag t out) ↔ out = 0 ∨ out = t.code ∨ t = i64 := by
  rcases hout with rfl | rfl | rfl
  · cases t <;> simp_all [outTag, isNullInt, nullInt] <;> subst hs <;> decide
  · cases t <;> simp_all [outTag, isNullInt, nullInt] <;> subst hs <;> decide
  · have hc : partedBase + t.code ≠ t.code := by simp [partedBase]
    have h0 : partedBase + t.code ≠ 0 := by simp [partedBase]
    simp only [outTag, h0, hc, if_false, false_or, reductionI64Result_parted ht]
    cases t <;> simp_all [isNullInt, nullInt] <;> subst hs <;> decide

end

def SeesAlike (f g : Bool) (t : ElemType) (l : List ℤ) : Prop :=
  ∀ z ∈ l, (!(f && t.isNullInt z)) = !(g && t.isNullInt z)

lemma first_min_ints_alike {f g : Bool} (hout : Typed t out) (hz : ∀ z ∈ l, t.bounds.1 ≤ z ∧ z ≤ t.bounds.2)
    (hfg : SeesAlike f g t l) : firstRow t f (.ints (l.insertionSort (· ≤ ·))) = minRow rt t g out (.ints l) ↔
      out = 0 ∨ out = t.code ∨ t = i64 ∧ ∃ z ∈ l, (g && t.isNullInt z) = false := by
  have hsome : (leastOf (fun z => !(g && t.isNullInt z)) l).isSome = true ↔
      ∃ z ∈ l, (g && t.isNullInt z) = false := by
    rw [isSome_iff_ne_none, ne_eq, leastOf_eq_none]
    simp
  rw [(extremes_ints ht hout g hz).1, firstRow_ints (leastOf_congr hfg), ints_elim_eq_iff ht hout, hsome]

lemma last_max_ints_alike {f g : Bool} (hout : Typed t out) (hz : ∀ z ∈ l, t.bounds.1 ≤ z ∧ z ≤ t.bounds.2)
    (hfg : SeesAlike f g t l) : firstRow t f (.ints (l.insertionSort (· ≤ ·)).reverse) =
      maxRow rt t g out (.ints l) ↔
      out = 0 ∨ out = t.code ∨ t = i64 ∧ ∃ z ∈ l, (g && t.isNullInt z) = false := by
  have hsome : (greatestOf (fun z => !(g && t.isNullInt z)) l).isSome = true ↔
      ∃ z ∈ l, (g && t.isNullInt z) = false := by
    rw [isSome_iff_ne_none, ne_eq, greatestOf_eq_none]
    simp
  rw [(extremes_ints ht hout g hz).2, firstRow_ints (greatestOf_congr hfg), ints_elim_eq_iff ht hout, hsome]

omit ht in
lemma eq_bounds_of_isNullInt {s : ℤ} (hs : t.isNullInt s = true) : s = t.bounds.1 := by
  cases t <;> simp_all [isNullInt, nullInt, bounds]

lemma reductionI64Result_payload (hout : Typed t out) {z : ℤ} (hz : t.bounds.1 ≤ z ∧ z ≤ t.bounds.2) :
    ∃ c, reductionI64Result z (outTag t out) = .atom c (.int z) := by
  rcases hout with rfl | rfl | rfl
  · exact ⟨_, intAtom_of_bounds ht hz⟩
  · have hc : t.code ≠ 0 := by cases t <;> simp [code]
    exact ⟨_, by rw [outTag, if_neg hc]; exact intAtom_of_bounds ht hz⟩
  · exact ⟨_, by rw [outTag, if_neg (by simp [partedBase]), reductionI64Result_parted ht]; rfl⟩

lemma first_min_ints_hidden (hout : Typed t out) (hz : ∀ z ∈ l, t.bounds.1 ≤ z ∧ z ≤ t.bounds.2)
    (hnull : ∃ s ∈ l, t.isNullInt s = true) :
    firstRow t true (.ints (l.insertionSort (· ≤ ·))) = minRow rt t false out (.ints l) ↔
      (out = 0 ∨ out = t.code ∨ t = i64) ∧ ∀ z ∈ l, t.isNullInt z = true := by
  obtain ⟨s, hsl, hs⟩ := hnull
  have hsb := eq_bounds_of_isNullInt hs
  have hleast : leastOf (fun z => !(false && t.isNullInt z)) l = some s :=
    leastOf_eq_some ⟨⟨hsl, rfl⟩, fun z hz' => hsb ▸ (hz z hz'.1).1⟩
  rw [(extremes_ints ht hout false hz).1, hleast, elim_some]
  cases hm : leastOf (fun z => !(true && t.isNullInt z)) l with
  | none =>
    have hall : ∀ z ∈ l, t.isNullInt z = true := by simpa using leastOf_eq_none.mp hm
    rw [firstRow_ints hm, elim_none, ints_none_elim_iff ht hout hs]
    exact ⟨fun h => ⟨h, hall⟩, fun h => h.1⟩
  | some m =>
    obtain ⟨⟨hml, hmn⟩, -⟩ := isLeast_of_leastOf hm
    have hmn : t.isNullInt m = false := by simpa using hmn
    obtain ⟨c, hc⟩ := reductionI64Result_payload ht hout (hz s hsl)
    rw [firstRow_ints hm, elim_some, hc, intAtom_of_bounds ht (hz m hml)]
    constructor
    · intro h
      obtain ⟨-, h⟩ := Value.atom.inj h
      rw [Payload.int.inj h, hs] at hmn
      exact absurd hmn (by simp)
    · intro h
      rw [h.2 m hml] at hmn
      exact absurd hmn (by simp)

lemma last_max_ints_hidden (hout : Typed t out) (hz : ∀ z ∈ l, t.bounds.1 ≤ z ∧ z ≤ t.bounds.2)
    (hnull : ∃ s ∈ l, t.isNullInt s = true) :
    firstRow t true (.ints (l.insertionSort (· ≤ ·)).reverse) = maxRow rt t false out (.ints l) ↔
      out = 0 ∨ out = t.code ∨ t = i64 := by
  obtain ⟨s, hsl, hs⟩ := hnull
  have hsb := eq_bounds_of_isNullInt hs
  rw [(extremes_ints ht hout false hz).2]
  cases hm : greatestOf (fun z => !(true && t.isNullInt z)) l with
  | none =>
    have hall : ∀ z ∈ l, t.isNullInt z = true := by simpa using greatestOf_eq_none.mp hm
    have hgreatest : greatestOf (fun z => !(false && t.isNullInt z)) l = some s :=
      greatestOf_eq_some ⟨⟨hsl, rfl⟩, fun z hz' => (eq_bounds_of_isNullInt (hall z hz'.1)).trans hsb.symm |>.le⟩
    rw [firstRow_ints hm, hgreatest, elim_none, elim_some, ints_none_elim_iff ht hout hs]
  | some m =>
    obtain ⟨⟨hml, hmn⟩, hle⟩ := isGreatest_of_greatestOf hm
    have hgreatest : greatestOf (fun z => !(false && t.isNullInt z)) l = some m := by
      refine greatestOf_eq_some ⟨⟨hml, rfl⟩, fun z hz' => ?_⟩
      by_cases hzn : t.isNullInt z = true
      · rw [eq_bounds_of_isNullInt hzn]
        exact (hz m hml).1
      · exact hle ⟨hz'.1, by simpa using hzn⟩
    rw [firstRow_ints hm, hgreatest, ints_elim_eq_iff ht hout]
    simp

end

section

variable {t : ElemType} {l : List (WithBot ℚ)} {f g : Bool}

lemma numbers_filter (g : Bool) (l : List (WithBot ℚ)) :
    numbers (l.filter fun x => !(g && x = ⊥)) = numbers l := by
  induction l with
  | nil => rfl
  | cons x l ih =>
    cases x with
    | bot =>
      have hbot : numbers (⊥ :: l) = numbers l := rfl
      cases g
      · simp
      · simpa [hbot] using ih
    | coe x => simpa [numbers] using ih

lemma numbers_eq_nil : numbers l = [] ↔ ∀ x ∈ l, x = ⊥ := by
  constructor
  · intro h x hx
    cases x with
    | bot => rfl
    | coe x =>
      have := mem_numbers.mpr hx
      simp [h] at this
  · intro h
    rw [eq_nil_iff_forall_not_mem]
    intro x hx
    simpa using h x (mem_numbers.mp hx)

section

variable (hfin : ∀ x : ℚ, (x : WithBot ℚ) ∈ l → -dblMax ≤ x ∧ x ≤ dblMax)
include hfin

lemma isLeast_numbers (hne : numbers l ≠ []) :
    IsLeast {x | x ∈ l ∧ (!(true && x = ⊥)) = true} (leastNumber l : WithBot ℚ) := by
  have h := leastOf_eq_foldl (p := fun _ => true) (l := numbers l) (a := dblMax)
    fun x hx _ => (hfin x (mem_numbers.mp hx)).2
  rw [filter_true, if_neg (by simpa using hne)] at h
  obtain ⟨⟨hmem, -⟩, hle⟩ := isLeast_of_leastOf h
  refine ⟨⟨mem_numbers.mp hmem, by simp⟩, fun x hx => ?_⟩
  cases x with
  | bot => simp at hx
  | coe x => exact WithBot.coe_le_coe.mpr (hle ⟨mem_numbers.mpr hx.1, rfl⟩)

lemma isGreatest_numbers (hne : numbers l ≠ []) : IsGreatest {x | x ∈ l} (greatestNumber l : WithBot ℚ) := by
  have h := greatestOf_eq_foldl (p := fun _ => true) (l := numbers l) (a := -dblMax)
    fun x hx _ => (hfin x (mem_numbers.mp hx)).1
  rw [filter_true, if_neg (by simpa using hne)] at h
  obtain ⟨⟨hmem, -⟩, hle⟩ := isGreatest_of_greatestOf h
  refine ⟨mem_numbers.mp hmem, fun x hx => ?_⟩
  cases x with
  | bot => exact bot_le
  | coe x => exact WithBot.coe_le_coe.mpr (hle ⟨mem_numbers.mpr hx, rfl⟩)

end

lemma firstRow_floats {t : ElemType} {f : Bool} {l : List (WithBot ℚ)} {o}
    (h : l.find? (fun x => !(f && x = ⊥)) = o) :
    firstRow t f (.floats l) = o.elim (typedNull t.code) floatAtom := by
  rw [firstRow, h]
  cases o <;> rfl

variable (ht : t ∈ [f32, f64])

include ht

lemma typedNull_float : typedNull t.code = .atom t.code (.float ⊥) := by
  cases t <;> first | rfl | simp at ht

lemma extreme_floats (hout : out = 0 ∨ out = t.code) (cnt : ℕ) (x : ℚ) (z : ℤ) (b : Bytes) :
    reductionExtremeResult rt t out cnt x z b =
      .atom t.code (.float (if cnt = 0 then ⊥ else (x : WithBot ℚ))) := by
  have htag : (if out = 0 then t.code else out) = t.code := by
    rcases hout with rfl | rfl
    · rfl
    · exact if_neg (by cases t <;> simp [code])
  simp only [reductionExtremeResult, htag, typedNull_float ht]
  cases t <;> split_ifs <;> simp_all [code]

variable (rt) in
lemma extreme_floats_parted (cnt : ℕ) (x : ℚ) (z : ℤ) (b : Bytes) :
    ∃ c q, reductionExtremeResult rt t (partedBase + t.code) cnt x z b = .atom c q ∧ c ≠ t.code ∧
      c ≠ f64.code := by
  have hz : reductionI64Result z (partedBase + t.code) = .atom i64.code (.int z) := by cases t <;> rfl
  have hn : ∃ q, typedNull (partedBase + t.code) = .atom (partedBase + t.code) q :=
    ⟨_, if_neg (by simp [partedBase])⟩
  obtain ⟨q, hq⟩ := hn
  by_cases hc : cnt = 0
  · refine ⟨partedBase + t.code, q, ?_, by simp [partedBase], by cases t <;> simp [partedBase, code]⟩
    simp only [reductionExtremeResult, if_pos hc, if_neg (show partedBase + t.code ≠ 0 by simp [partedBase])]
    exact hq
  · refine ⟨i64.code, .int z, ?_, ?_, by decide⟩
    · simp only [reductionExtremeResult, if_neg hc]
      cases t <;> simp_all [partedBase, code]
    · cases t <;> simp_all [code]

lemma floats_elim_tag (o : Option (WithBot ℚ)) :
    ∃ c q, o.elim (typedNull t.code) floatAtom = .atom c q ∧ (c = t.code ∨ c = f64.code) := by
  cases o with
  | none => exact ⟨_, _, typedNull_float ht, Or.inl rfl⟩
  | some x => exact ⟨_, _, rfl, Or.inr rfl⟩

lemma floats_elim_ne_parted (o : Option (WithBot ℚ)) (cnt : ℕ) (x : ℚ) (z : ℤ) (b : Bytes) :
    o.elim (typedNull t.code) floatAtom ≠ reductionExtremeResult rt t (partedBase + t.code) cnt x z b := by
  obtain ⟨c, q, hq, hc, hc'⟩ := extreme_floats_parted rt ht cnt x z b
  obtain ⟨c', q', hq', hc''⟩ := floats_elim_tag ht o
  rw [hq, hq']
  intro h
  obtain rfl := (Value.atom.inj h).1
  exact absurd hc'' (by simp [hc, hc'])

omit ht in
lemma floats_elim_f32 (hg : g = true → ⊥ ∈ l → f = true) {o : Option (WithBot ℚ)}
    (ho : ∀ x ∈ o, x ∈ l ∧ (!(f && x = ⊥)) = true)
    {m : ℚ} : o.elim (typedNull f32.code) floatAtom =
      .atom f32.code (.float (if ∀ x ∈ l, g = true ∧ x = ⊥ then ⊥ else (m : WithBot ℚ))) ↔
      ∀ x ∈ l, g = true ∧ x = ⊥ := by
  cases o with
  | none =>
    rw [elim_none, typedNull_float (by simp)]
    split_ifs with hall <;> simpa using hall
  | some x =>
    refine iff_of_false (fun h => absurd (Value.atom.inj h).1 (by decide)) fun hall => ?_
    obtain ⟨hx, hpx⟩ := ho x rfl
    obtain ⟨hgt, rfl⟩ := hall x hx
    simp [hg hgt hx] at hpx

lemma extremes_floats (hout : out = 0 ∨ out = t.code) (g : Bool) (l : List (WithBot ℚ)) :
    minRow rt t g out (.floats l) = .atom t.code (.float (if ∀ x ∈ l, g = true ∧ x = ⊥ then ⊥
        else (leastNumber l : WithBot ℚ))) ∧
      maxRow rt t g out (.floats l) = .atom t.code (.float (if ∀ x ∈ l, g = true ∧ x = ⊥ then ⊥
        else (greatestNumber l : WithBot ℚ))) := by
  obtain ⟨hc, hmin, hmax⟩ := foldl_addFloat (l.filter fun x => !(g && x = ⊥)) .init
  have hz : (l.filter fun x => !(g && x = ⊥)).length = 0 ↔ ∀ x ∈ l, g = true ∧ x = ⊥ := by
    rw [length_eq_zero_iff, filter_eq_nil_iff]
    simp
  simp only [minRow, maxRow, reduceRange, extreme_floats ht hout, hc, hmin, hmax, numbers_filter]
  simp only [Acc.init, Nat.zero_add, hz]
  split_ifs <;> exact ⟨rfl, rfl⟩

omit ht in
lemma exists_number_iff : (∃ x : ℚ, (x : WithBot ℚ) ∈ l) ↔ numbers l ≠ [] := by
  rw [ne_eq, eq_nil_iff_forall_not_mem]
  simp

omit ht in
lemma firstRow_f64 (hfin : ∀ x : ℚ, (x : WithBot ℚ) ∈ l → -dblMax ≤ x ∧ x ≤ dblMax) (hf : f = true ∨ ⊥ ∉ l) :
    firstRow f64 f (.floats (l.insertionSort (· ≤ ·))) =
      .atom f64.code (.float (if numbers l = [] then ⊥ else (leastNumber l : WithBot ℚ))) := by
  have hp : ∀ x ∈ l, (!(f && x = ⊥)) = !(true && x = ⊥) := by
    rcases hf with rfl | hf
    · simp
    · intro x hx
      have : x ≠ ⊥ := fun h => hf (h ▸ hx)
      simp [this]
  rw [firstRow_floats (leastOf_congr hp)]
  split_ifs with hn
  · rw [leastOf_eq_none.mpr fun x hx => by simp [numbers_eq_nil.mp hn x hx]]
    rfl
  · rw [leastOf_eq_some (isLeast_numbers hfin hn)]
    rfl

omit ht in
lemma lastRow_f64 (hfin : ∀ x : ℚ, (x : WithBot ℚ) ∈ l → -dblMax ≤ x ∧ x ≤ dblMax) :
    firstRow f64 f (.floats (l.insertionSort (· ≤ ·)).reverse) =
      .atom f64.code (.float (if numbers l = [] then ⊥ else (greatestNumber l : WithBot ℚ))) := by
  rw [firstRow_floats (o := greatestOf _ l) rfl]
  split_ifs with hn
  · cases ho : greatestOf (fun x => !(f && x = ⊥)) l with
    | none => rfl
    | some x =>
      rw [numbers_eq_nil.mp hn x (isGreatest_of_greatestOf ho).1.1]
      rfl
  · obtain ⟨hmem, hle⟩ := isGreatest_numbers hfin hn
    rw [greatestOf_eq_some ⟨⟨hmem, by simp⟩, fun x hx => hle hx.1⟩]
    rfl

theorem first_min_floats (hout : Typed t out) (hfin : ∀ x : ℚ, (x : WithBot ℚ) ∈ l → -dblMax ≤ x ∧ x ≤ dblMax)
    (hg : g = true → ⊥ ∈ l → f = true) :
      firstRow t f (.floats (l.insertionSort (· ≤ ·))) = minRow rt t g out (.floats l) ↔
      (out = 0 ∨ out = t.code) ∧ (t = f32 → ∀ x ∈ l, g = true ∧ x = ⊥) ∧
        (g = false → ⊥ ∈ l → f = true ∧ ∃ x : ℚ, (x : WithBot ℚ) ∈ l) := by
  obtain hout | rfl := or_assoc.mpr hout
  · rw [(extremes_floats ht hout g l).1]
    obtain rfl | rfl : t = f32 ∨ t = f64 := by simpa using ht
    · rw [firstRow_floats (o := leastOf _ l) rfl, floats_elim_f32 hg fun x hx => (isLeast_of_leastOf hx).1]
      exact ⟨fun hall => ⟨hout, fun _ => hall, fun hg hb => absurd (hall ⊥ hb).1 (by simp [hg])⟩,
        fun h => h.2.1 rfl⟩
    · have htag : out = 0 ∨ out = f64.code := hout
      simp only [htag, true_and, reduceCtorEq, false_implies]
      by_cases hb : ⊥ ∈ l
      · cases g with
        | true =>
          rw [firstRow_f64 hfin (Or.inl (hg rfl hb))]
          simp [numbers_eq_nil]
        | false =>
          have hnot : ¬ ∀ x ∈ l, false = true ∧ x = ⊥ := fun h => by simpa using (h ⊥ hb).1
          rw [if_neg hnot]
          cases f with
          | true =>
            rw [firstRow_f64 hfin (Or.inl rfl), exists_number_iff]
            by_cases hn : numbers l = [] <;> simp [hn, hb]
          | false =>
            have hbot : leastOf (fun x => !(false && x = ⊥)) l = some ⊥ :=
              leastOf_eq_some ⟨⟨hb, rfl⟩, fun x _ => bot_le⟩
            rw [firstRow_floats hbot, elim_some, floatAtom]
            simp [hb]
      · rw [firstRow_f64 hfin (Or.inr hb)]
        have hall : (∀ x ∈ l, g = true ∧ x = ⊥) ↔ numbers l = [] := by
          rw [numbers_eq_nil]
          exact ⟨fun h x hx => (h x hx).2, fun h x hx => absurd (h x hx ▸ hx) hb⟩
        simp [hall, hb]
  · rw [firstRow_floats rfl, minRow]
    exact iff_of_false (floats_elim_ne_parted ht _ _ _ _ _) (by simp [partedBase])

theorem last_max_floats (hout : Typed t out) (hfin : ∀ x : ℚ, (x : WithBot ℚ) ∈ l → -dblMax ≤ x ∧ x ≤ dblMax)
    (hg : g = true → ⊥ ∈ l → f = true) :
    firstRow t f (.floats (l.insertionSort (· ≤ ·)).reverse) = maxRow rt t g out (.floats l) ↔
      (out = 0 ∨ out = t.code) ∧ (t = f32 → ∀ x ∈ l, g = true ∧ x = ⊥) ∧
        (g = false → ⊥ ∈ l → ∃ x : ℚ, (x : WithBot ℚ) ∈ l) := by
  obtain hout | rfl := or_assoc.mpr hout
  · rw [(extremes_floats ht hout g l).2]
    obtain rfl | rfl : t = f32 ∨ t = f64 := by simpa using ht
    · rw [firstRow_floats (o := greatestOf _ l) rfl, floats_elim_f32 hg fun x hx =>
        (isGreatest_of_greatestOf hx).1]
      exact ⟨fun hall => ⟨hout, fun _ => hall, fun hg hb => absurd (hall ⊥ hb).1 (by simp [hg])⟩,
        fun h => h.2.1 rfl⟩
    · have htag : out = 0 ∨ out = f64.code := hout
      simp only [htag, true_and, reduceCtorEq, false_implies]
      rw [lastRow_f64 hfin, exists_number_iff]
      by_cases hn : numbers l = []
      · have hbot := numbers_eq_nil.mp hn
        have hall : (∀ x ∈ l, g = true ∧ x = ⊥) ↔ (g = false → ⊥ ∉ l) := by
          constructor
          · exact fun h hg hb => absurd (h ⊥ hb).1 (by simp [hg])
          · intro h x hx
            refine ⟨?_, hbot x hx⟩
            by_contra hg
            exact h (by simpa using hg) (hbot x hx ▸ hx)
        simp only [hn, if_true, hall]
        split_ifs with h
        · simpa using h
        · simp [h]
      · have hnot : ¬ ∀ x ∈ l, g = true ∧ x = ⊥ := fun h => hn (numbers_eq_nil.mpr fun x hx => (h x hx).2)
        simp [hn, hnot]
  · rw [firstRow_floats rfl, maxRow]
    exact iff_of_false (floats_elim_ne_parted ht _ _ _ _ _) (by simp [partedBase])

end

section

variable {t : ElemType} {l : List Bytes} {f g : Bool}

lemma firstRow_names {t : ElemType} {f : Bool} {l : List Bytes} {o}
    (h : l.find? (fun b => !(f && t.isNullName b)) = o) :
    firstRow t f (.names l) = o.elim (typedNull t.code) (nameAtom t) := by
  rw [firstRow, h]
  cases o <;> rfl

lemma aggWideReduce_eq {better : Bytes → Bytes → Bool} {o : Option Bytes}
    (h : wideWinner better (l.filter fun b => !(g && t.isNullName b)) = o) :
    aggWideReduce t g better (.names l) = o.elim (typedNull t.code) (nameAtom t) := by
  rw [aggWideReduce, h]
  cases o <;> rfl

lemma wideWinner_min (p : Bytes → Bool) (l : List Bytes) :
    wideWinner (fun b w => b < w) (l.filter p) = leastOf p l := by
  cases h : l.filter p with
  | nil => exact (leastOf_eq_none.mpr fun b hb => by simpa using filter_eq_nil_iff.mp h b hb).symm
  | cons b r =>
    have hmin : (fun w b : Bytes => if decide (b < w) = true then b else w) = min := by
      funext w b
      simp [min_comm w, min_def_lt]
    rw [leastOf_eq_foldl_cons h, wideWinner_cons, hmin]

lemma wideWinner_max (p : Bytes → Bool) (l : List Bytes) :
    wideWinner (fun b w => w < b) (l.filter p) = greatestOf p l := by
  cases h : l.filter p with
  | nil => exact (greatestOf_eq_none.mpr fun b hb => by simpa using filter_eq_nil_iff.mp h b hb).symm
  | cons b r =>
    have hmax : (fun w b : Bytes => if decide (w < b) = true then b else w) = max := by
      funext w b
      simp [max_def_lt]
    rw [greatestOf_eq_foldl_cons h, wideWinner_cons, hmax]

lemma replicate_zero_le : ∀ b : Bytes, List.replicate b.length 0 ≤ b
  | [] => le_refl _
  | x :: b => by
    rw [length_cons, replicate_succ]
    rcases Nat.eq_zero_or_pos x with rfl | hx
    · exact cons_le_cons 0 (replicate_zero_le b)
    · exact le_of_lt (cons_lt_cons_iff.mpr (Or.inl hx))

lemma isNullName_iff {b : Bytes} : t.isNullName b = true ↔ t = guid ∧ b = List.replicate 16 0 := by
  simp [isNullName]

lemma null_of_not_alike (hg : g = true → (∃ b ∈ l, t.isNullName b = true) → f = true)
    (hne : ¬∀ b ∈ l, (!(f && t.isNullName b)) = !(g && t.isNullName b)) :
    List.replicate 16 0 ∈ l ∧ t = guid ∧ f = true ∧ g = false := by
  push Not at hne
  obtain ⟨s, hsl, hs⟩ := hne
  cases hsn : t.isNullName s with
  | false => simp [hsn] at hs
  | true =>
    obtain ⟨rfl, rfl⟩ := isNullName_iff.mp hsn
    cases f <;> cases g <;> simp_all

theorem first_min_wide (hlen : t = guid → ∀ b ∈ l, b.length = 16)
    (hg : g = true → (∃ b ∈ l, t.isNullName b = true) → f = true) :
    firstRow t f (.names (l.insertionSort (· ≤ ·))) = aggWideReduce t g (fun b w => b < w) (.names l) ↔
      (g = false → f = true → (∃ b ∈ l, t.isNullName b = true) → ∀ b ∈ l, t.isNullName b = true) := by
  rw [firstRow_names (o := leastOf _ l) rfl, aggWideReduce_eq (wideWinner_min _ l)]
  by_cases hsame : ∀ b ∈ l, (!(f && t.isNullName b)) = !(g && t.isNullName b)
  · rw [leastOf_congr hsame]
    refine iff_of_true rfl fun hgf hft ⟨b, hb, hbn⟩ => ?_
    have := hsame b hb
    simp [hgf, hft, hbn] at this
  · obtain ⟨hsl, rfl, rfl, rfl⟩ := null_of_not_alike hg hsame
    have hsn : guid.isNullName (replicate 16 0) = true := isNullName_iff.mpr ⟨rfl, rfl⟩
    have hleast : leastOf (fun b => !(false && guid.isNullName b)) l = some (replicate 16 0) := by
      refine leastOf_eq_some ⟨⟨hsl, rfl⟩, fun b hb => ?_⟩
      have := replicate_zero_le b
      rwa [hlen rfl b hb.1] at this
    rw [hleast, elim_some]
    cases hm : leastOf (fun b => !(true && guid.isNullName b)) l with
    | none =>
      refine iff_of_true rfl fun _ _ _ b hb => ?_
      simpa using leastOf_eq_none.mp hm b hb
    | some m =>
      obtain ⟨⟨hml, hmn⟩, -⟩ := isLeast_of_leastOf hm
      have hmn : guid.isNullName m = false := by simpa using hmn
      refine iff_of_false ?_ fun h => ?_
      · intro h
        obtain ⟨-, h⟩ := Value.atom.inj h
        rw [Payload.name.inj h] at hmn
        exact absurd hmn (by decide)
      · rw [h rfl rfl ⟨_, hsl, hsn⟩ m hml] at hmn
        exact absurd hmn (by simp)

theorem last_max_wide (hlen : t = guid → ∀ b ∈ l, b.length = 16)
    (hg : g = true → (∃ b ∈ l, t.isNullName b = true) → f = true) :
    firstRow t f (.names (l.insertionSort (· ≤ ·)).reverse) = aggWideReduce t g (fun b w => w < b) (.names l) := by
  rw [firstRow_names (o := greatestOf _ l) rfl, aggWideReduce_eq (wideWinner_max _ l)]
  by_cases hsame : ∀ b ∈ l, (!(f && t.isNullName b)) = !(g && t.isNullName b)
  · rw [greatestOf_congr hsame]
  · obtain ⟨hsl, rfl, rfl, rfl⟩ := null_of_not_alike hg hsame
    have hsn : guid.isNullName (replicate 16 0) = true := isNullName_iff.mpr ⟨rfl, rfl⟩
    have hzero : ∀ b ∈ l, replicate 16 0 ≤ b := fun b hb => by
      have := replicate_zero_le b
      rwa [hlen rfl b hb] at this
    cases hm : greatestOf (fun b => !(true && guid.isNullName b)) l with
    | none =>
      have hall : ∀ b ∈ l, b = replicate 16 0 := fun b hb =>
        (isNullName_iff.mp (by simpa using greatestOf_eq_none.mp hm b hb)).2
      rw [greatestOf_eq_some ⟨⟨hsl, rfl⟩, fun b hb => (hall b hb.1).le⟩]
      rfl
    | some m =>
      obtain ⟨⟨hml, -⟩, hle⟩ := isGreatest_of_greatestOf hm
      rw [greatestOf_eq_some ⟨⟨hml, rfl⟩, fun b hb => ?_⟩]
      by_cases hbn : guid.isNullName b = true
      · rw [(isNullName_iff.mp hbn).2]
        exact hzero m hml
      · exact hle ⟨hb.1, by simpa using hbn⟩

lemma extreme_sym (hout : Typed sym out) (cnt : ℕ) (x : ℚ) (z : ℤ) (b : Bytes) :
    reductionExtremeResult rt sym out cnt x z b =
      if out = 0 ∨ out = sym.code then if cnt = 0 then typedNull sym.code else nameAtom sym b
      else if cnt = 0 then typedNull (partedBase + sym.code) else rayI64 (rt.symId b) := by
  rcases hout with rfl | rfl | rfl <;> rfl

lemma reduceRange_sym (l : List Bytes) : (reduceRange sym false (.names l)).cnt = l.length ∧
      (∀ s, leastOf (fun _ => true) l = some s → (reduceRange sym false (.names l)).minS = s) ∧
      ∀ s, greatestOf (fun _ => true) l = some s → (reduceRange sym false (.names l)).maxS = s := by
  simp only [reduceRange, Bool.false_and, Bool.not_false, filter_true]
  cases l with
  | nil => exact ⟨rfl, fun s h => by simp [leastOf] at h, fun s h => by simp [greatestOf] at h⟩
  | cons b r =>
    obtain ⟨hc, hmin, hmax⟩ := foldl_addSym r (Acc.init.addSym b) (by simp [Acc.addSym])
    have hfilter : (b :: r).filter (fun _ => true) = b :: r := filter_true _
    rw [foldl_cons, hc, hmin, hmax, leastOf_eq_foldl_cons hfilter, greatestOf_eq_foldl_cons hfilter]
    refine ⟨?_, fun s h => some.inj h, fun s h => some.inj h⟩
    simp only [Acc.addSym, Acc.init, length_cons]
    omega

lemma sym_elim_eq_iff (hout : Typed sym out) (cnt : ℕ) (x : ℚ) (z : ℤ) (b : Bytes) (o : Option Bytes)
    (hnone : o = none ↔ cnt = 0) (hsome : ∀ s, o = some s → b = s) :
    o.elim (typedNull sym.code) (nameAtom sym) = reductionExtremeResult rt sym out cnt x z b ↔ out = 0 ∨
      out = sym.code := by
  rw [extreme_sym hout]
  cases o with
  | none =>
    have h0 := hnone.mp rfl
    rw [if_pos h0, if_pos h0, elim_none]
    split_ifs with h
    · simp [h]
    · refine iff_of_false ?_ h
      decide
  | some s =>
    obtain rfl := hsome s rfl
    have hc : cnt ≠ 0 := fun h => by simpa using hnone.mpr h
    rw [if_neg hc, if_neg hc, elim_some]
    split_ifs with h
    · simp [h]
    · refine iff_of_false (fun h => ?_) h
      exact absurd (Value.atom.inj h).1 (by decide)

theorem first_min_sym (hout : Typed sym out) :
    firstRow sym f (.names (l.insertionSort (· ≤ ·))) = minRow rt sym false out (.names l) ↔ out = 0 ∨
      out = sym.code := by
  obtain ⟨hc, hmin, -⟩ := reduceRange_sym l
  have hp : ∀ b ∈ l, (!(f && sym.isNullName b)) = true := fun b _ => by simp [isNullName]
  rw [firstRow_names (leastOf_congr hp), minRow]
  refine sym_elim_eq_iff hout _ _ _ _ _ ?_ hmin
  rw [leastOf_eq_none, hc, length_eq_zero_iff, eq_nil_iff_forall_not_mem]
  simp

theorem last_max_sym (hout : Typed sym out) :
    firstRow sym f (.names (l.insertionSort (· ≤ ·)).reverse) = maxRow rt sym false out (.names l) ↔
      out = 0 ∨ out = sym.code := by
  obtain ⟨hc, -, hmax⟩ := reduceRange_sym l
  have hp : ∀ b ∈ l, (!(f && sym.isNullName b)) = true := fun b _ => by simp [isNullName]
  rw [firstRow_names (greatestOf_congr hp), maxRow]
  refine sym_elim_eq_iff hout _ _ _ _ _ ?_ hmax
  rw [greatestOf_eq_none, hc, length_eq_zero_iff, eq_nil_iff_forall_not_mem]
  simp

end

end Rayforce.Idiom
