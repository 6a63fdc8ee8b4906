import Rayforce.Library.MixedRadix
import Rayforce.Selection.Cursor

/-! Dense grouping of `agg_engine.c`. -/

namespace Rayforce.Group

open Library.MixedRadix Rayforce.Selection List

variable {res : Option (Option (List (ℤ × ℤ)))} {fit : Prop}

def i64? (x : ℤ) : Option ℤ := if -2 ^ 63 ≤ x ∧ x < 2 ^ 63 then some x else none

inductive SymWidth
  | w8
  | w16
  | w32
  | w64
  deriving DecidableEq

inductive KeyType
  | i64
  | timestamp
  | i32
  | date
  | time
  | i16
  | u8
  | bool
  | sym (width : SymWidth)
  | other
  deriving DecidableEq

def KeyType.bounds : KeyType → ℤ × ℤ
  | i64 | timestamp | sym .w64 => (-2 ^ 63, 2 ^ 63)
  | i32 | date | time => (-2 ^ 31, 2 ^ 31)
  | i16 => (-2 ^ 15, 2 ^ 15)
  | u8 | bool | sym .w8 => (0, 2 ^ 8)
  | sym .w16 => (0, 2 ^ 16)
  | sym .w32 => (0, 2 ^ 32)
  | other => (0, 1)

/-- A key column with the values of `agg_read_key_i64`. -/
structure KeyCol where
  type : KeyType
  hasNulls : Bool
  domainCount : ℤ
  value : ℕ → ℤ
  inType : ∀ r, type.bounds.1 ≤ value r ∧ value r < type.bounds.2
  inDomain : ∀ w, type = .sym w → 0 < domainCount → ∀ r, 0 ≤ value r ∧ value r < domainCount

def KeyCol.eligible (kc : KeyCol) : Bool := decide (kc.type ≠ .other) && !kc.hasNulls

structure DensePlan where
  mins : List ℤ
  ranges : List ℤ
  strides : List ℤ
  totalSlots : ℤ

def KeyCol.symRange (kc : KeyCol) (nrows : ℕ) : Option ℤ :=
  match kc.type with
  | .sym w =>
    if w = .w8 ∧ 2 ^ 8 ≤ nrows then some (2 ^ 8)
    else if w = .w16 ∧ 2 ^ 16 ≤ nrows then some (2 ^ 16)
    else if 0 < kc.domainCount ∧ kc.domainCount ≤ nrows then some kc.domainCount
    else none
  | _ => none

def minMax (value : ℕ → ℤ) (m : ℤ × ℤ) (rows : List ℕ) : ℤ × ℤ :=
  rows.foldl (fun m r => (if value r < m.1 then value r else m.1, if value r > m.2 then value r else m.2)) m

def denseRange (m : ℤ × ℤ) : Option (Option (ℤ × ℤ)) :=
  if m.2 < m.1 then some none else ((i64? (m.2 - m.1)).bind fun d => i64? (d + 1)).map fun rng => some (m.1, rng)

def consKey (key : Option (ℤ × ℤ)) (rest : Option (Option (List (ℤ × ℤ)))) : Option (Option (List (ℤ × ℤ))) :=
  match key with
  | none => some none
  | some key => rest.map (Option.map (key :: ·))

def denseKeys (nrows : ℕ) : List KeyCol → Option (Option (List (ℤ × ℤ)))
  | [] => some (some [])
  | kc :: cols =>
    if !kc.eligible || nrows == 0 then some none
    else
      match kc.symRange nrows with
      | some rng => consKey (some (0, rng)) (denseKeys nrows cols)
      | none =>
        (denseRange (minMax kc.value (kc.value 0, kc.value 0) (List.range' 1 (nrows - 1)))).bind fun key =>
          consKey key (denseKeys nrows cols)

def densePack (limit : ℤ) : ℤ → List ℤ → Option (Option (List ℤ × ℤ))
  | total, [] => some (some ([], total))
  | total, rng :: ranges =>
    if rng ≤ 0 then some none
    else if total > limit / rng then some none
    else (i64? (total * rng)).bind fun next =>
      (densePack limit next ranges).map (Option.map fun p => (total :: p.1, p.2))

def denseLimit (nrows : ℕ) : ℤ := if nrows < 2 ^ 32 - 1 then nrows else 2 ^ 32 - 1

def densePlan (nrows : ℕ) (keys : List (ℤ × ℤ)) : Option (Option DensePlan) :=
  (densePack (denseLimit nrows) 1 (keys.map Prod.snd)).map
    (Option.map fun p => ⟨keys.map Prod.fst, keys.map Prod.snd, p.1, p.2⟩)

def aggDensePlan (cols : List KeyCol) (nrows : ℕ) : Option (Option DensePlan) :=
  if cols.length < 1 ∨ 16 < cols.length then some none
  else (denseKeys nrows cols).bind fun keys => keys.elim (some none) (densePlan nrows)

def selRanges : List (ℤ × ℤ) → Option (Option (List (ℤ × ℤ)))
  | [] => some (some [])
  | m :: ms => (denseRange m).bind fun key => consKey key (selRanges ms)

def aggDensePlanSel (cols : List KeyCol) (sel : Rowsel) (nSel : ℕ) : Option (Option DensePlan) :=
  if cols.length < 1 ∨ 16 < cols.length then some none
  else if nSel = 0 then some none
  else if cols.any fun kc => !kc.eligible then some none
  else
    (aggSelRun sel (sel.nSegs + nSel + 2) 0 nSel).bind fun chunks =>
      (selRanges (chunks.foldl (fun ms rows =>
        List.zipWith (fun (kc : KeyCol) m => minMax kc.value m rows) cols ms)
        (cols.map fun _ => (2 ^ 63 - 1, -2 ^ 63)))).bind fun keys => keys.elim (some none) (densePlan nSel)

def aggDenseSlot (plan : DensePlan) (cols : List KeyCol) (r : ℕ) : Option ℤ :=
  (cols.zip (plan.mins.zip plan.strides)).foldlM (fun slot k =>
    (i64? (k.1.value r - k.2.1)).bind fun d => (i64? (d * k.2.2)).bind fun p => i64? (slot + p)) 0

section

variable {cols : List KeyCol} {keys : List (ℤ × ℤ)} {rows : List ℕ} {nrows : ℕ} {plan : DensePlan}

lemma i64?_of {x : ℤ} (h : -2 ^ 63 ≤ x ∧ x < 2 ^ 63) : i64? x = some x := if_pos h

def Fits (rows : List ℕ) (kc : KeyCol) (key : ℤ × ℤ) : Prop :=
  ∀ r ∈ rows, 0 ≤ kc.value r - key.1 ∧ kc.value r - key.1 < key.2

def strides : ℤ → List ℤ → List ℤ
  | _, [] => []
  | total, r :: rs => total :: strides (total * r) rs

lemma densePack_eq {limit : ℤ} (hlimit : limit < 2 ^ 63) {total : ℤ} (htotal : 0 < total) (ranges : List ℤ) :
    densePack limit total ranges = some none ∨
      densePack limit total ranges = some (some (strides total ranges, total * ranges.prod)) ∧
        (∀ r ∈ ranges, 0 < r) ∧
        (ranges = [] ∨ total * ranges.prod ≤ limit) := by
  induction ranges generalizing total with
  | nil => exact .inr ⟨by rw [densePack, strides, prod_nil, mul_one], by simp, .inl rfl⟩
  | cons r ranges ih =>
    by_cases hr : r ≤ 0
    · exact .inl (by rw [densePack, if_pos hr])
    · rw [not_le] at hr
      by_cases hfit : total > limit / r
      · exact .inl (by rw [densePack, if_neg (not_le.mpr hr), if_pos hfit])
      · have hle : total * r ≤ limit := (Int.le_ediv_iff_mul_le hr).mp (not_lt.mp hfit)
        have hpos : 0 < total * r := mul_pos htotal hr
        have hbody : densePack limit total (r :: ranges) = (densePack limit (total * r) ranges).map
            (Option.map fun p => (total :: p.1, p.2)) := by
          rw [densePack, if_neg (not_le.mpr hr), if_neg hfit, i64?_of ⟨by linarith, by linarith⟩, Option.bind_some]
        obtain hno | ⟨hrun, hall, hsum⟩ := ih hpos
        · exact .inl (by rw [hbody, hno]; rfl)
        · refine .inr ⟨by rw [hbody, hrun, strides, prod_cons, ← mul_assoc]; rfl,
            forall_mem_cons.mpr ⟨hr, hall⟩, .inr ?_⟩
          rw [prod_cons, ← mul_assoc]
          obtain rfl | hsum := hsum
          · rwa [prod_nil, mul_one]
          · exact hsum

def digits (cols : List KeyCol) (keys : List (ℤ × ℤ)) (r : ℕ) : List ℤ :=
  List.zipWith (fun (kc : KeyCol) key => kc.value r - key.1) cols keys

lemma digits_lt (h : List.Forall₂ (Fits rows) cols keys) {r : ℕ} (hr : r ∈ rows) :
    Digits (keys.map Prod.snd) (digits cols keys r) := by
  induction h with
  | nil => exact .nil
  | cons hkey _ ih => exact .cons (hkey r hr) ih

lemma slot_run (h : List.Forall₂ (Fits rows) cols keys) {r : ℕ} (hr : r ∈ rows) {slot total : ℤ}
    (hslot : 0 ≤ slot ∧ slot < total) (hfit : total * (keys.map Prod.snd).prod < 2 ^ 63) :
    (cols.zip ((keys.map Prod.fst).zip (strides total (keys.map Prod.snd)))).foldlM (fun slot k =>
      (i64? (k.1.value r - k.2.1)).bind fun d => (i64? (d * k.2.2)).bind fun p => i64? (slot + p)) slot =
        some (slot + total * encode (keys.map Prod.snd) (digits cols keys r)) := by
  induction h generalizing slot total with
  | nil => simp [encode]
  | @cons kc key cols keys hkey hrest ih =>
    obtain ⟨h₀, h₁⟩ := hkey r hr
    have htotal : 0 < total := hslot.1.trans_lt hslot.2
    have hprod : 0 < (keys.map Prod.snd).prod := by
      have := encode_bounds (digits_lt hrest hr)
      omega
    rw [map_cons, prod_cons, ← mul_assoc] at hfit
    have hkeyfit : total * key.2 < 2 ^ 63 := by
      have hpos : 0 ≤ total * key.2 := mul_nonneg htotal.le (h₀.trans h₁.le)
      nlinarith
    have hd : kc.value r - key.1 < 2 ^ 63 := by nlinarith
    have hp : (kc.value r - key.1) * total + total ≤ total * key.2 := by nlinarith
    have hp₀ : 0 ≤ (kc.value r - key.1) * total := mul_nonneg h₀ htotal.le
    have hnext := ih (show 0 ≤ slot + (kc.value r - key.1) * total ∧ slot + (kc.value r - key.1) * total <
      total * key.2 from ⟨by omega, by omega⟩) hfit
    simp only [map_cons, strides, zip_cons_cons, foldlM_cons]
    rw [i64?_of ⟨by omega, by omega⟩, Option.bind_some, i64?_of ⟨by omega, by omega⟩, Option.bind_some,
      i64?_of ⟨by omega, by omega⟩]
    refine hnext.trans (congrArg some ?_)
    simp only [digits, zipWith_cons_cons, encode]
    ring

def SlotsExact (plan : DensePlan) (cols : List KeyCol) (rows : List ℕ) : Prop :=
  (∀ r ∈ rows, ∃ slot, aggDenseSlot plan cols r = some slot ∧ 0 ≤ slot ∧ slot < plan.totalSlots) ∧
    ∀ r ∈ rows, ∀ s ∈ rows, aggDenseSlot plan cols r = aggDenseSlot plan cols s ↔ ∀ kc ∈ cols,
      kc.value r = kc.value s

def DenseSound (result : Option (Option DensePlan)) (cols : List KeyCol) (rows : List ℕ) : Prop :=
  ∃ res, result = some res ∧ ∀ plan, res = some plan → SlotsExact plan cols rows

lemma digits_eq_iff (h : List.Forall₂ (Fits rows) cols keys) (r s : ℕ) :
    digits cols keys r = digits cols keys s ↔ ∀ kc ∈ cols, kc.value r = kc.value s := by
  induction h with
  | nil => simp [digits]
  | cons _ _ ih =>
    rw [digits, digits, zipWith_cons_cons, zipWith_cons_cons, cons_eq_cons, forall_mem_cons]
    exact and_congr (by omega) ih

lemma densePlan_sound (h : List.Forall₂ (Fits rows) cols keys) (hkeys : keys ≠ []) :
    DenseSound (densePlan nrows keys) cols rows := by
  have hlimit : denseLimit nrows < 2 ^ 63 := by
    rw [denseLimit]
    split_ifs <;> omega
  obtain hno | ⟨hpack, hpos, hsum⟩ := densePack_eq hlimit one_pos (keys.map Prod.snd)
  · exact ⟨none, by rw [densePlan, hno]; rfl, fun plan hplan => nomatch hplan⟩
  · rw [one_mul] at hpack hsum
    have hfit : 1 * (keys.map Prod.snd).prod < 2 ^ 63 := by
      rw [one_mul]
      exact (hsum.resolve_left (by simpa using hkeys)).trans_lt hlimit
    refine ⟨_, by rw [densePlan, hpack]; rfl, ?_⟩
    rintro plan ⟨⟩
    have hslot : ∀ r ∈ rows, aggDenseSlot
      ⟨keys.map Prod.fst, keys.map Prod.snd, strides 1 (keys.map Prod.snd), (keys.map Prod.snd).prod⟩ cols r =
        some (encode (keys.map Prod.snd) (digits cols keys r)) := by
      intro r hr
      rw [aggDenseSlot, slot_run h hr ⟨le_rfl, one_pos⟩ hfit, zero_add, one_mul]
    refine ⟨fun r hr => ⟨_, hslot r hr, encode_bounds (digits_lt h hr)⟩, fun r hr s hs => ?_⟩
    rw [hslot r hr, hslot s hs, Option.some.injEq, encode_inj (digits_lt h hr) (digits_lt h hs), digits_eq_iff h]

end

section

variable {kc : KeyCol} {cols : List KeyCol} {rows : List ℕ} {nrows : ℕ} {m : ℤ × ℤ}

lemma KeyCol.value_bounds (kc : KeyCol) (r : ℕ) : -2 ^ 63 ≤ kc.value r ∧ kc.value r < 2 ^ 63 := by
  obtain ⟨h₀, h₁⟩ := kc.inType r
  have hwide : ∀ t : KeyType, -2 ^ 63 ≤ t.bounds.1 ∧ t.bounds.2 ≤ 2 ^ 63 := by
    intro t
    rcases t with _ | _ | _ | _ | _ | _ | _ | _ | ⟨_ | _ | _ | _⟩ | _ <;> decide
  have := hwide kc.type
  omega

def KeyCol.Narrow (kc : KeyCol) (rows : List ℕ) : Prop :=
  ∀ r ∈ rows, ∀ s ∈ rows, kc.value r - kc.value s + 1 < 2 ^ 63

structure Extremes (kc : KeyCol) (rows : List ℕ) (m : ℤ × ℤ) : Prop where
  least : ∃ r ∈ rows, m.1 = kc.value r
  greatest : ∃ r ∈ rows, m.2 = kc.value r
  between : ∀ r ∈ rows, m.1 ≤ kc.value r ∧ kc.value r ≤ m.2

lemma minMax_spec (value : ℕ → ℤ) (m : ℤ × ℤ) (rows : List ℕ) :
    ((minMax value m rows).1 = m.1 ∨ ∃ r ∈ rows, (minMax value m rows).1 = value r) ∧
      ((minMax value m rows).2 = m.2 ∨ ∃ r ∈ rows, (minMax value m rows).2 = value r) ∧
      ((minMax value m rows).1 ≤ m.1 ∧ m.2 ≤ (minMax value m rows).2) ∧
      ∀ r ∈ rows, (minMax value m rows).1 ≤ value r ∧ value r ≤ (minMax value m rows).2 := by
  induction rows generalizing m with
  | nil => exact ⟨.inl rfl, .inl rfl, ⟨le_rfl, le_rfl⟩, by simp⟩
  | cons x rows ih =>
    have hcons : minMax value m (x :: rows) =
        minMax value (if value x < m.1 then value x else m.1, if value x > m.2 then value x else m.2) rows := rfl
    obtain ⟨h₁, h₂, ⟨h₃, h₄⟩, h₅⟩ :=
      ih (if value x < m.1 then value x else m.1, if value x > m.2 then value x else m.2)
    rw [hcons]
    simp only at h₁ h₂ h₃ h₄
    have ha : (if value x < m.1 then value x else m.1) ≤ m.1 ∧ (if value x < m.1 then value x else m.1) ≤
      value x := by split_ifs <;> omega
    have hb : m.2 ≤ (if value x > m.2 then value x else m.2) ∧
      value x ≤ (if value x > m.2 then value x else m.2) := by split_ifs <;> omega
    refine ⟨?_, ?_, ⟨h₃.trans ha.1, hb.1.trans h₄⟩, forall_mem_cons.mpr ⟨⟨h₃.trans ha.2, hb.2.trans h₄⟩, h₅⟩⟩
    · obtain h₁ | ⟨r, hr, h₁⟩ := h₁
      · rw [h₁]
        split_ifs
        · exact .inr ⟨x, mem_cons_self, rfl⟩
        · exact .inl rfl
      · exact .inr ⟨r, mem_cons_of_mem x hr, h₁⟩
    · obtain h₂ | ⟨r, hr, h₂⟩ := h₂
      · rw [h₂]
        split_ifs
        · exact .inr ⟨x, mem_cons_self, rfl⟩
        · exact .inl rfl
      · exact .inr ⟨r, mem_cons_of_mem x hr, h₂⟩

lemma extremes_scan (kc : KeyCol) (hn : 0 < nrows) :
    Extremes kc (List.range nrows) (minMax kc.value (kc.value 0, kc.value 0) (List.range' 1 (nrows - 1))) := by
  obtain ⟨h₁, h₂, ⟨h₃, h₄⟩, h₅⟩ := minMax_spec kc.value (kc.value 0, kc.value 0) (range' 1 (nrows - 1))
  have hmem : ∀ r, r ∈ range nrows ↔ r = 0 ∨ r ∈ range' 1 (nrows - 1) := by
    intro r
    rw [mem_range, mem_range'_1]
    omega
  have hzero : 0 ∈ range nrows := mem_range.mpr hn
  refine ⟨h₁.elim (fun h => ⟨0, hzero, h⟩) fun ⟨r, hr, h⟩ => ⟨r, (hmem r).mpr (.inr hr), h⟩,
    h₂.elim (fun h => ⟨0, hzero, h⟩) fun ⟨r, hr, h⟩ => ⟨r, (hmem r).mpr (.inr hr), h⟩, fun r hr => ?_⟩
  obtain rfl | hr := (hmem r).mp hr
  · exact ⟨h₃, h₄⟩
  · exact h₅ r hr

lemma extremes_sel (kc : KeyCol) (hrows : rows ≠ []) :
    Extremes kc rows (minMax kc.value (2 ^ 63 - 1, -2 ^ 63) rows) := by
  obtain ⟨h₁, h₂, ⟨h₃, h₄⟩, h₅⟩ := minMax_spec kc.value (2 ^ 63 - 1, -2 ^ 63) rows
  obtain ⟨x, hx⟩ := exists_mem_of_ne_nil rows hrows
  have hxb := kc.value_bounds x
  have hx' := h₅ x hx
  refine ⟨h₁.elim (fun h => ⟨x, hx, ?_⟩) id, h₂.elim (fun h => ⟨x, hx, ?_⟩) id, h₅⟩
  · simp only at h
    omega
  · simp only at h
    omega

lemma Extremes.denseRange (h : Extremes kc rows m) :
    kc.Narrow rows ∧ denseRange m = some (some (m.1, m.2 - m.1 + 1)) ∧ Fits rows kc (m.1, m.2 - m.1 + 1) ∨
      ¬kc.Narrow rows ∧ denseRange m = none := by
  obtain ⟨r, hr, hr₁⟩ := h.least
  obtain ⟨s, hs, hs₂⟩ := h.greatest
  have hrb := kc.value_bounds r
  have hsb := kc.value_bounds s
  have hle : ¬m.2 < m.1 := by
    have := h.between r hr
    omega
  have hnarrow : kc.Narrow rows ↔ m.2 - m.1 + 1 < 2 ^ 63 := by
    refine ⟨fun hn => by rw [hr₁, hs₂]; exact hn s hs r hr, fun hlt a ha b hb => ?_⟩
    have := h.between a ha
    have := h.between b hb
    omega
  rw [hnarrow, Group.denseRange, if_neg hle]
  by_cases hlt : m.2 - m.1 + 1 < 2 ^ 63
  · refine .inl ⟨hlt, ?_, fun t ht => ?_⟩
    · rw [i64?_of ⟨by omega, by omega⟩, Option.bind_some, i64?_of ⟨by omega, by omega⟩, Option.map_some]
    · have := h.between t ht
      simp only
      omega
  · refine .inr ⟨hlt, ?_⟩
    by_cases hd : m.2 - m.1 < 2 ^ 63
    · rw [i64?_of ⟨by omega, hd⟩, Option.bind_some, i64?, if_neg (by omega), Option.map_none]
    · rw [i64?, if_neg (by omega), Option.bind_none, Option.map_none]

lemma fits_symRange {rng : ℤ} (h : kc.symRange nrows = some rng) (rows : List ℕ) : Fits rows kc (0, rng) := by
  rw [KeyCol.symRange] at h
  intro r _
  obtain ⟨h₀, h₁⟩ := kc.inType r
  simp only [sub_zero]
  cases ht : kc.type with
  | sym w =>
    rw [ht] at h h₀ h₁
    simp only at h
    split_ifs at h with hw hw' hd
    · rw [hw.1] at h₀ h₁
      cases h
      exact ⟨h₀, h₁⟩
    · rw [hw'.1] at h₀ h₁
      cases h
      exact ⟨h₀, h₁⟩
    · cases h
      exact kc.inDomain w ht hd.1 r
  | _ => rw [ht] at h; exact nomatch h

def ScansFit (nrows : ℕ) : List KeyCol → Prop
  | [] => True
  | kc :: cols => kc.eligible = true → (kc.symRange nrows = none → kc.Narrow (List.range nrows)) ∧
    ScansFit nrows cols

def KeysFor (fit : Prop) (rows : List ℕ) (cols : List KeyCol) (res : Option (Option (List (ℤ × ℤ)))) : Prop :=
  fit ∧ (res = some none ∨ ∃ keys, res = some (some keys) ∧ List.Forall₂ (Fits rows) cols keys) ∨ ¬fit ∧ res = none

lemma KeysFor.cons (h : KeysFor fit rows cols res) {key : ℤ × ℤ} (hkey : Fits rows kc key) :
    KeysFor fit rows (kc :: cols) (consKey (some key) res) := by
  obtain ⟨hfit, rfl | ⟨keys, rfl, hkeys⟩⟩ | ⟨hfit, rfl⟩ := h
  · exact .inl ⟨hfit, .inl rfl⟩
  · exact .inl ⟨hfit, .inr ⟨key :: keys, rfl, .cons hkey hkeys⟩⟩
  · exact .inr ⟨hfit, rfl⟩

lemma KeysFor.scan (h : KeysFor fit rows cols res) (hm : Extremes kc rows m) :
    KeysFor (kc.Narrow rows ∧ fit) rows (kc :: cols) ((denseRange m).bind fun key => consKey key res) := by
  obtain ⟨hnarrow, hrange, hcovers⟩ | ⟨hwide, hrange⟩ := hm.denseRange
  · rw [hrange, Option.bind_some, and_iff_right hnarrow]
    exact h.cons hcovers
  · exact .inr ⟨fun hboth => hwide hboth.1, by rw [hrange, Option.bind_none]⟩

lemma denseKeys_for (hn : 0 < nrows) (cols : List KeyCol) :
    KeysFor (ScansFit nrows cols) (List.range nrows) cols (denseKeys nrows cols) := by
  induction cols with
  | nil => exact .inl ⟨trivial, .inr ⟨[], rfl, .nil⟩⟩
  | cons kc cols ih =>
    rw [ScansFit, denseKeys]
    by_cases he : kc.eligible = true
    · rw [if_neg (by simp [he, hn.ne']), imp_iff_right he]
      cases hsym : kc.symRange nrows with
      | some rng =>
        have hfit : ((some rng = none → kc.Narrow (range nrows)) ∧ ScansFit nrows cols) ↔ ScansFit nrows cols :=
          ⟨And.right, fun hfit => ⟨fun hno => (nomatch hno), hfit⟩⟩
        rw [hfit]
        exact ih.cons (fits_symRange hsym _)
      | none =>
        rw [imp_iff_right rfl]
        exact ih.scan (extremes_scan kc hn)
    · exact .inl ⟨fun hyes => absurd hyes he, .inl (if_pos (by simp [he]))⟩

lemma foldl_chunks (cols : List KeyCol) (chunks : List (List ℕ)) (init : KeyCol → ℤ × ℤ) :
    chunks.foldl (fun ms rows => List.zipWith (fun (kc : KeyCol) m => minMax kc.value m rows) cols ms)
    (cols.map init) =
      cols.map fun kc => minMax kc.value (init kc) chunks.flatten := by
  induction chunks generalizing init with
  | nil => rfl
  | cons rows chunks ih =>
    have hzip : zipWith (fun (kc : KeyCol) m => minMax kc.value m rows) cols (cols.map init) = cols.map fun kc =>
        minMax kc.value (init kc) rows := by
      rw [zipWith_map_right, zipWith_self]
    rw [foldl_cons, hzip, ih]
    refine map_congr_left fun kc _ => ?_
    rw [flatten_cons, minMax, minMax, minMax, foldl_append]

lemma selRanges_for (hrows : rows ≠ []) (cols : List KeyCol) : KeysFor (∀ kc ∈ cols, kc.Narrow rows) rows cols
    (selRanges (cols.map fun kc => minMax kc.value (2 ^ 63 - 1, -2 ^ 63) rows)) := by
  induction cols with
  | nil => exact .inl ⟨by simp, .inr ⟨[], rfl, .nil⟩⟩
  | cons kc cols ih =>
    rw [forall_mem_cons]
    exact ih.scan (extremes_sel kc hrows)

lemma dense_bind (hcols : cols ≠ [])
    (h : res = some none ∨ ∃ keys, res = some (some keys) ∧ List.Forall₂ (Fits rows) cols keys) :
    DenseSound (res.bind fun keys => keys.elim (some none) (densePlan nrows)) cols rows := by
  obtain rfl | ⟨keys, rfl, hkeys⟩ := h
  · exact ⟨none, rfl, fun plan hplan => nomatch hplan⟩
  · refine densePlan_sound hkeys ?_
    rintro rfl
    exact hcols (forall₂_nil_right_iff.mp hkeys)

lemma not_denseSound_none : ¬DenseSound none cols rows := fun ⟨_, hno, _⟩ => nomatch hno

lemma denseSound_refused : DenseSound (some none) cols rows := ⟨none, rfl, fun _ hplan => nomatch hplan⟩

lemma KeysFor.sound_iff (h : KeysFor fit rows cols res) (hcols : cols ≠ []) :
    DenseSound (res.bind fun keys => keys.elim (some none) (densePlan nrows)) cols rows ↔ fit := by
  obtain ⟨hfit, hrun⟩ | ⟨hfit, rfl⟩ := h
  · exact iff_of_true (dense_bind hcols hrun) hfit
  · exact iff_of_false not_denseSound_none hfit

lemma aggDensePlan_sound_iff (cols : List KeyCol) (nrows : ℕ) :
    DenseSound (aggDensePlan cols nrows) cols (List.range nrows) ↔
    (cols.length < 1 ∨ 16 < cols.length ∨ nrows = 0 ∨ ScansFit nrows cols) := by
  rw [aggDensePlan]
  by_cases hlen : cols.length < 1 ∨ 16 < cols.length
  · rw [if_pos hlen]
    exact iff_of_true denseSound_refused (hlen.imp_right .inl)
  · have hcols : cols ≠ [] := by
      rintro rfl
      exact hlen (.inl (by simp))
    rw [if_neg hlen, ← or_assoc, or_iff_right hlen]
    obtain rfl | hn := Nat.eq_zero_or_pos nrows
    · obtain ⟨kc, rest, rfl⟩ := exists_cons_of_ne_nil hcols
      rw [denseKeys, if_pos (by simp)]
      exact iff_of_true denseSound_refused (.inl rfl)
    · rw [(denseKeys_for hn cols).sound_iff hcols, or_iff_right hn.ne']

lemma aggDensePlanSel_sound_iff (cols : List KeyCol) {n : ℕ} (f : Kept n) :
    DenseSound (aggDensePlanSel cols f.layout f.total) cols f.rowsOf ↔
    (cols.length < 1 ∨ 16 < cols.length ∨ f.total = 0 ∨ (cols.any fun kc => !kc.eligible) = true ∨ ∀ kc ∈ cols,
      kc.Narrow f.rowsOf) := by
  rw [aggDensePlanSel]
  by_cases hlen : cols.length < 1 ∨ 16 < cols.length
  · rw [if_pos hlen]
    exact iff_of_true denseSound_refused (hlen.imp_right .inl)
  · have hcols : cols ≠ [] := by
      rintro rfl
      exact hlen (.inl (by simp))
    rw [if_neg hlen, ← or_assoc, or_iff_right hlen]
    by_cases hzero : f.total = 0
    · rw [if_pos hzero]
      exact iff_of_true denseSound_refused (.inl hzero)
    · rw [if_neg hzero, or_iff_right hzero]
      by_cases hany : (cols.any fun kc => !kc.eligible) = true
      · rw [if_pos hany]
        exact iff_of_true denseSound_refused (.inl hany)
      · have hslices : Kept.Slices 0 f.total [(0, f.total)] := ⟨rfl, Nat.zero_le _, rfl⟩
        obtain ⟨chunks, hruns, hrows, -⟩ := hslices.run le_rfl (le_refl (f.layout.nSegs + f.total + 2))
        cases hruns with
        | cons hrun hnil =>
          cases hnil
          rw [flatten_cons, flatten_nil, append_nil, drop_zero, Nat.sub_zero, ← f.length_rowsOf,
            take_length] at hrows
          have hne : f.rowsOf ≠ [] := by
            rw [← length_pos_iff, f.length_rowsOf]
            exact Nat.pos_of_ne_zero hzero
          rw [if_neg hany, or_iff_right hany, hrun, Option.bind_some, foldl_chunks, hrows]
          exact (selRanges_for hne cols).sound_iff hcols

end

/-- Both plans are exact unless a scanned column is too wide. -/
theorem denseSound_iff (cols : List KeyCol) :
    (∀ nrows, DenseSound (aggDensePlan cols nrows) cols (List.range nrows) ↔
      (cols.length < 1 ∨ 16 < cols.length ∨ nrows = 0 ∨ ScansFit nrows cols)) ∧
      ∀ (n : ℕ) (f : Kept n), DenseSound (aggDensePlanSel cols f.layout f.total) cols f.rowsOf ↔
        (cols.length < 1 ∨ 16 < cols.length ∨ f.total = 0 ∨ (cols.any fun kc => !kc.eligible) = true ∨ ∀ kc ∈ cols,
          kc.Narrow f.rowsOf) :=
  ⟨aggDensePlan_sound_iff cols, fun _ f => aggDensePlanSel_sound_iff cols f⟩

def wideKey : KeyCol where
  type := .i64
  hasNulls := false
  domainCount := 0
  value r := if r = 0 then -2 ^ 63 else 2 ^ 63 - 1
  inType r := by
    simp only [KeyType.bounds]
    split_ifs <;> omega
  inDomain _ h := nomatch h

/-- The range of the two words overflows in both plans. -/
theorem wideKey_overflows : aggDensePlan [wideKey] 2 = none ∧
    ¬DenseSound (aggDensePlan [wideKey] 2) [wideKey] (List.range 2) ∧
    aggDensePlanSel [wideKey] (Kept.full 2).layout (Kept.full 2).total = none := by
  have hnone : aggDensePlan [wideKey] 2 = none := by decide
  exact ⟨hnone, by rw [hnone]; exact not_denseSound_none, by decide⟩

end Rayforce.Group
