import Rayforce.Symbol.Index

namespace Rayforce.Symbol

open Library.Words List Option

variable {T T' : SymTable}

def held (T : SymTable) : List Bytes := T.slots.filterMap Slot.str

def missing (T : SymTable) (segs : List Bytes) : List Bytes := segs.filter (· ∉ held T)

def plainSlot (g : Bytes) : Slot := ⟨some g, false, true, []⟩

lemma modify_concat {α : Type} (l : List α) (x : α) (f : α → α) : (l ++ [x]).modify l.length f = l ++ [f x] := by
  induction l with
  | nil => simp
  | cons a l ih => simpa using ih

lemma mem_held {g : Bytes} : g ∈ held T ↔ ∃ i, T.strAt i = some g := by
  simp only [held, mem_filterMap, SymTable.strAt]
  constructor
  · rintro ⟨slot, hm, hg⟩
    obtain ⟨i, hi⟩ := mem_iff_getElem?.mp hm
    exact ⟨i, by simp [hi, hg]⟩
  · rintro ⟨i, hi⟩
    obtain ⟨slot, hs, hg⟩ := bind_eq_some_iff.mp hi
    exact ⟨slot, mem_of_getElem? hs, hg⟩

lemma strAt_append_left {tail : List Slot} (h : T'.slots = T.slots ++ tail) {i : ℕ} {s : Bytes}
    (hs : T.strAt i = some s) : T'.strAt i = some s := by
  have hlt : i < T.slots.length := strAt_lt hs
  simpa [SymTable.strAt, h, getElem?_append_left hlt] using hs

lemma strAt_update (f : Slot → Slot) (hf : ∀ x, (f x).str = x.str) (i j : ℕ) :
    (T.update i f).strAt j = T.strAt j := by
  simp only [SymTable.strAt, SymTable.update]
  by_cases hij : i = j
  · subst hij
    cases h : T.slots[i]? <;> simp [h, hf]
  · simp [hij]

lemma probeSegs_spec (h : Indexed T) (segs : List Bytes) :
    ∃ descs, probeSegs T segs = some descs ∧ descs.map Prod.fst = segs ∧
      (∀ d ∈ descs, ∀ i, d.2 = some i → T.strAt i = some d.1) ∧
      (descs.filter fun d => d.2.isNone).map Prod.fst = missing T segs := by
  induction segs with
  | nil => exact ⟨[], rfl, rfl, by simp, rfl⟩
  | cons g segs ih =>
    obtain ⟨descs, hd, hfst, hfound, hmiss⟩ := ih
    obtain ⟨r, hr, hsome, hnone⟩ := symProbe_spec h g
    refine ⟨(g, r) :: descs, ?_, by simp [hfst], ?_, ?_⟩
    · simp only [probeSegs] at hd
      simp [probeSegs, mapM_cons, hr, hd]
    · intro d hm i hi
      obtain rfl | hm := mem_cons.mp hm
      · exact hsome i hi
      · exact hfound d hm i hi
    · cases r with
      | none =>
        have : g ∉ held T := fun hg => by
          obtain ⟨i, hi⟩ := mem_held.mp hg
          exact hnone rfl i hi
        simpa [missing, this] using hmiss
      | some i =>
        have : g ∈ held T := mem_held.mpr ⟨i, hsome i rfl⟩
        simpa [missing, this] using hmiss

lemma commitSegs_spec (h : Indexed T) (descs : List (Bytes × Option ℕ))
    (hfound : ∀ d ∈ descs, ∀ i, d.2 = some i → T.strAt i = some d.1) :
    ∃ r T' gs, commitSegs T descs = some (r, T') ∧ Indexed T' ∧ T'.lazy = T.lazy ∧
      T'.slots = T.slots ++ gs.map plainSlot ∧ gs <+: (descs.filter fun d => d.2.isNone).map Prod.fst ∧
      (r = none → 2 ^ 30 ≤ T.count + newSegCount descs) ∧
      ∀ ids, r = some ids → gs = (descs.filter fun d => d.2.isNone).map Prod.fst ∧
        ids.map T'.strAt = descs.map fun d => some d.1 := by
  induction descs generalizing T with
  | nil => exact ⟨some [], T, [], rfl, h, rfl, by simp, by simp, by simp, by simp⟩
  | cons d descs ih =>
    obtain ⟨g, o⟩ := d
    cases o with
    | some i =>
      obtain ⟨r, T', gs, hr, hi, hl, hs, hp, hfull, hids⟩ := ih h fun d hd => hfound d (by simp [hd])
      refine ⟨r.map (i :: ·), T', gs, by simp [commitSegs, hr], hi, hl, hs, by simpa using hp, ?_, ?_⟩
      · intro hn
        simpa [newSegCount] using hfull (by simpa using hn)
      intro ids hm
      obtain ⟨ids', rfl, rfl⟩ := map_eq_some_iff.mp hm
      obtain ⟨hgs, hmap⟩ := hids ids' rfl
      have hg : T'.strAt i = some g := strAt_append_left hs (hfound (g, some i) (by simp) i rfl)
      exact ⟨by simpa using hgs, by simp [hmap, hg]⟩
    | none =>
      obtain ⟨r, T1, hc, hi1, hl1, hnone, hsome⟩ := symCommitNew_spec h g
      cases r with
      | none =>
        refine ⟨none, T1, [], by simp [commitSegs, hc], hi1, hl1, by simpa using (hnone rfl).1,
          by simp, fun _ => ?_, by simp⟩
        have := (hnone rfl).2
        omega
      | some sid =>
        obtain ⟨rfl, hs1⟩ := hsome sid rfl
        have hmark : (T1.markScanned T.count).slots = T.slots ++ [plainSlot g] := by
          simp only [SymTable.markScanned, SymTable.update, hs1, SymTable.count, modify_concat]
          rfl
        have hi2 : Indexed (T1.markScanned T.count) := hi1.update _ _ fun _ => rfl
        obtain ⟨r, T', gs, hr, hi, hl, hs, hp, hfull, hids⟩ := ih hi2 fun d hd i hdi =>
          strAt_append_left hmark (hfound d (by simp [hd]) i hdi)
        refine ⟨r.map (T.count :: ·), T', g :: gs, by simp [commitSegs, hc, hr], hi, hl.trans hl1,
          by simp [hs, hmark], by simpa using hp, ?_, ?_⟩
        · intro hn
          have hc2 : (T1.markScanned T.count).count = T.count + 1 := by
            rw [SymTable.count, hmark]
            simp [SymTable.count]
          have := hfull (by simpa using hn)
          simp only [newSegCount, countP_cons, isNone_none, if_true] at this ⊢
          omega
        intro ids hm
        obtain ⟨ids', rfl, rfl⟩ := map_eq_some_iff.mp hm
        obtain ⟨hgs, hmap⟩ := hids ids' rfl
        have hat : (T1.markScanned T.count).strAt T.count = some g := by
          rw [SymTable.strAt, hmark]
          simp [SymTable.count, plainSlot]
        have hg : T'.strAt T.count = some g := strAt_append_left hs hat
        exact ⟨by simpa using hgs, by simp [hmap, hg]⟩

inductive Cached (T : SymTable) (i : ℕ) (s : Bytes) : Bool → SymTable → Prop
  | settled (h : T.isScanned i) : Cached T i s true T
  | plain (h : T.isScanned i = false) (hd : dottedSegs s = none) : Cached T i s true (T.markScanned i)
  | full (gs : List Bytes) {segs : List Bytes} {T' : SymTable} (h : T.isScanned i = false)
      (hd : dottedSegs s = some segs) (hp : gs <+: missing T segs)
      (hs : T'.slots = T.slots ++ gs.map plainSlot) (hl : T'.lazy = T.lazy)
      (hfull : 2 ^ 30 ≤ T.count + (missing T segs).length) : Cached T i s false T'
  | cached {segs : List Bytes} {ids : List ℕ} {T' : SymTable} (h : T.isScanned i = false)
      (hd : dottedSegs s = some segs) (hi : Indexed T')
      (hs : T'.slots = T.slots ++ (missing T segs).map plainSlot) (hl : T'.lazy = T.lazy)
      (hids : ids.map T'.strAt = segs.map some) : Cached T i s true (T'.cacheAt i ids)

lemma symCacheSegments_spec (h : Indexed T) (i : ℕ) (s : Bytes) :
    ∃ ok T', symCacheSegments T i s = some (ok, T') ∧ Indexed T' ∧ Cached T i s ok T' := by
  by_cases hsc : T.isScanned i
  · exact ⟨true, T, by simp [symCacheSegments, hsc], h, .settled hsc⟩
  · rw [Bool.not_eq_true] at hsc
    cases hd : dottedSegs s with
    | none =>
      exact ⟨true, T.markScanned i, by simp [symCacheSegments, hsc, hd], h.update _ _ fun _ => rfl,
        .plain hsc hd⟩
    | some segs =>
      obtain ⟨descs, hpr, hfst, hfound, hmiss⟩ := probeSegs_spec h segs
      obtain ⟨ok, T1, hrv, hi1, hs1, hl1, -, hok⟩ := symReserveCapacity_spec h (newSegCount descs)
      have hcount : newSegCount descs = (missing T segs).length := by
        rw [← hmiss, length_map, newSegCount, countP_eq_length_filter]
      have hT1 : T1.count = T.count := by simp [SymTable.count, hs1]
      cases ok with
      | false =>
        refine ⟨false, T1, by simp [symCacheSegments, hsc, hd, hpr, hrv], hi1,
          .full [] hsc hd (by simp) (by simpa using hs1) hl1 ?_⟩
        have := mt hok (by simp)
        simp only [bucketCapMax, hcount] at this
        omega
      | true =>
        obtain ⟨r, T2, gs, hc, hi2, hl2, hs2, hp, hfull, hids⟩ :=
          commitSegs_spec hi1 descs fun d hm j hj => by
            rw [strAt_of_slots hs1]
            exact hfound d hm j hj
        rw [hmiss] at hp hids
        rw [hs1] at hs2
        cases r with
        | none =>
          exact ⟨false, T2, by simp [symCacheSegments, hsc, hd, hpr, hrv, hc], hi2,
            .full gs hsc hd hp hs2 (hl2.trans hl1) (hcount ▸ hT1 ▸ hfull rfl)⟩
        | some ids =>
          obtain ⟨rfl, hmap⟩ := hids ids rfl
          refine ⟨true, T2.cacheAt i ids, by simp [symCacheSegments, hsc, hd, hpr, hrv, hc],
            hi2.update _ _ fun _ => rfl, .cached hsc hd hi2 hs2 (hl2.trans hl1) ?_⟩
          rw [hmap, ← hfst]
          simp

def mainSlot (s : Bytes) (ids : List ℕ) : Slot :=
  if (scanDotted s).1 then ⟨some s, true, true, ids⟩ else ⟨some s, false, true, []⟩

def newSegs (T : SymTable) (s : Bytes) : List Bytes := missing T ((dottedSegs s).getD [])

inductive Committed (T : SymTable) (s : Bytes) : Option ℕ → SymTable → Prop
  | full (gs : List Bytes) {T' : SymTable} (hp : gs <+: newSegs T s)
      (hs : T'.slots = T.slots ++ gs.map plainSlot) (hl : T'.lazy = T.lazy) : Committed T s none T'
  | done (ids : List ℕ) {T' : SymTable}
      (hs : T'.slots = T.slots ++ (newSegs T s).map plainSlot ++ [mainSlot s ids])
      (hl : T'.lazy = T.lazy)
      (hids : ∀ segs, dottedSegs s = some segs → ids.map T'.strAt = segs.map some) :
      Committed T s (some (T.count + (newSegs T s).length)) T'

lemma commitMain_last {T2 : SymTable} (h : Indexed T2) {gs : List Bytes} (ids : List ℕ) (s : Bytes)
    (hs : T2.slots = T.slots ++ gs.map plainSlot) :
    ∃ r T3, symCommitNew T2 (symHash s) s = some (r, T3) ∧ Indexed T3 ∧ T3.lazy = T2.lazy ∧
      (r = none → T3.slots = T2.slots) ∧ ∀ i, r = some i → i = T.count + gs.length ∧
        (T3.markScanned i).slots = T2.slots ++ [⟨some s, false, true, []⟩] ∧
        (T3.cacheAt i ids).slots = T2.slots ++ [⟨some s, true, true, ids⟩] := by
  obtain ⟨r, T3, hc, hi3, hl3, hnone, hsome⟩ := symCommitNew_spec h s
  refine ⟨r, T3, hc, hi3, hl3, fun hr => (hnone hr).1, ?_⟩
  intro i hr
  obtain ⟨rfl, hs3⟩ := hsome i hr
  refine ⟨by simp [SymTable.count, hs], ?_, ?_⟩
  · simp only [SymTable.markScanned, SymTable.update, hs3, SymTable.count, modify_concat]
    rfl
  · simp only [SymTable.cacheAt, SymTable.update, hs3, SymTable.count, modify_concat]

lemma commitMain_spec (h : Indexed T) (s : Bytes) :
    ∃ r T', commitMain T (symHash s) s = some (r, T') ∧ Indexed T' ∧ Committed T s r T' := by
  obtain ⟨descs, hpr, hfst, hfound, hmiss⟩ := probeSegs_spec h (scanDotted s).2
  obtain ⟨ok, T1, hrv, hi1, hs1, hl1, -, -⟩ := symReserveCapacity_spec h (1 + newSegCount descs)
  have hcount : T1.count = T.count := by simp [SymTable.count, hs1]
  cases ok with
  | false =>
    exact ⟨none, T1, by simp [commitMain, hpr, hrv], hi1,
      .full [] (by simp) (by simpa using hs1) hl1⟩
  | true =>
    cases hdot : (scanDotted s).1 with
    | false =>
      have hnew : newSegs T s = [] := by simp [newSegs, dottedSegs, hdot, missing]
      obtain ⟨r, T3, hc, hi3, hl3, hnone, hsome⟩ :=
        commitMain_last hi1 [] s (show T1.slots = T1.slots ++ [].map plainSlot by simp)
      cases r with
      | none =>
        exact ⟨none, T3, by simp [commitMain, hpr, hrv, hdot, hc], hi3,
          .full [] (by simp) (by simpa [hs1] using hnone rfl) (hl3.trans hl1)⟩
      | some i =>
        obtain ⟨hid, hmark, -⟩ := hsome i rfl
        refine ⟨some i, T3.markScanned i, by simp [commitMain, hpr, hrv, hdot, hc],
          hi3.update _ _ fun _ => rfl, ?_⟩
        have : Committed T s (some (T.count + (newSegs T s).length)) (T3.markScanned i) := .done []
          (by rw [hmark, hs1, hnew]; simp [mainSlot, hdot]) (hl3.trans hl1)
          (by simp [dottedSegs, hdot])
        simpa [hnew, hid, hcount] using this
    | true =>
      have hsegs : dottedSegs s = some (scanDotted s).2 := by simp [dottedSegs, hdot]
      have hnew : newSegs T s = missing T (scanDotted s).2 := by simp [newSegs, hsegs]
      obtain ⟨r, T2, gs, hc, hi2, hl2, hs2, hp, -, hids⟩ := commitSegs_spec hi1 descs fun d hm j hj => by
        rw [strAt_of_slots hs1]
        exact hfound d hm j hj
      rw [hmiss, ← hnew] at hp hids
      rw [hs1] at hs2
      cases r with
      | none =>
        exact ⟨none, T2, by simp [commitMain, hpr, hrv, hdot, hc], hi2, .full gs hp hs2 (hl2.trans hl1)⟩
      | some ids =>
        obtain ⟨rfl, hmap⟩ := hids ids rfl
        obtain ⟨r, T3, hc3, hi3, hl3, hnone, hsome⟩ :=
          commitMain_last hi2 ids s hs2
        cases r with
        | none =>
          exact ⟨none, T3, by simp [commitMain, hpr, hrv, hdot, hc, hc3], hi3,
            .full _ (prefix_refl _) ((hnone rfl).trans hs2) (hl3.trans (hl2.trans hl1))⟩
        | some i =>
          obtain ⟨rfl, -, hcache⟩ := hsome i rfl
          refine ⟨_, T3.cacheAt (T.count + (newSegs T s).length) ids,
            by simp [commitMain, hpr, hrv, hdot, hc, hc3], hi3.update _ _ fun _ => rfl,
            .done ids (by rw [hcache, hs2]; simp [mainSlot, hdot]) (hl3.trans (hl2.trans hl1)) ?_⟩
          intro segs hseg
          obtain rfl : (scanDotted s).2 = segs := some.inj (hsegs.symm.trans hseg)
          have hkeep : ∀ j ∈ ids, (T3.cacheAt (T.count + (newSegs T s).length) ids).strAt j = T2.strAt j := by
            intro j hj
            have hm : T2.strAt j ∈ ids.map T2.strAt := mem_map_of_mem hj
            rw [hmap] at hm
            obtain ⟨d, -, hd⟩ := mem_map.mp hm
            rw [← hd]
            exact strAt_append_left hcache hd.symm
          rw [map_congr_left hkeep, hmap, ← hfst]
          simp

end Rayforce.Symbol
