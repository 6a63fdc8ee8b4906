import Rayforce.Symbol.Reserve
import Rayforce.Symbol.Snapshot

namespace Rayforce.Symbol

open Library.Words Library.Probing List Option

variable {segs : List Bytes} {f : Slot → Slot} {ids : List ℕ} {n bytes : ℕ} {ok : Bool} {x : Slot}

def Flagged (x : Slot) : Prop := ∃ s, x.str = some s ∧ (x.dotted = true ↔ Dotted s)

structure Settling (T : SymTable) : Prop where
  sound : Sound T
  settles : ∀ x ∈ T.slots, x.scanned = true → Flagged x

structure Advances (T T' : SymTable) : Prop where
  settling : Settling T'
  keeps : ∀ i s, T.strAt i = some s → T'.strAt i = some s
  fixed : ∀ (i : ℕ) (x : Slot), T.slots[i]? = some x → x.scanned = true → T'.slots[i]? = some x

variable {T T' T1 : SymTable} {A A' : ArenaTable} {s : Bytes} {i : ℕ}

lemma Settling.refl (h : Settling T) : Advances T T := ⟨h, fun _ _ hs => hs, fun _ _ hx _ => hx⟩

lemma Advances.trans (h₁ : Advances T T1) (h₂ : Advances T1 T') : Advances T T' := by
  refine ⟨h₂.settling, fun i s hs => h₂.keeps i s (h₁.keeps i s hs), ?_⟩
  intro i x hx hsc
  exact h₂.fixed i x (h₁.fixed i x hx hsc) hsc

lemma Advances.grows (h : Advances T T') : Grows T T' := ⟨h.settling.sound, h.keeps⟩

lemma Settling.append (h : Settling T) (hg : Grows T T') {tail : List Slot} (hs : T'.slots = T.slots ++ tail)
    (htail : ∀ x ∈ tail, x.scanned = true → Flagged x) : Advances T T' := by
  refine ⟨⟨hg.sound, ?_⟩, hg.keeps, ?_⟩
  · intro x hx hsc
    rw [hs] at hx
    rcases mem_append.mp hx with hx | hx
    · exact h.settles x hx hsc
    · exact htail x hx hsc
  · intro i x hx _
    rw [hs, getElem?_append_left (List.getElem?_eq_some_iff.mp hx).1]
    exact hx

lemma Settling.same (h : Settling T) (hi : Indexed T') (hl : T'.lazy = T.lazy) (hs : T'.slots = T.slots) :
    Advances T T' := by
  have hs' : T'.slots = T.slots ++ [] := by rw [hs, append_nil]
  apply h.append (h.sound.same hi hl hs) hs'
  simp

lemma Settling.update (h : Settling T) (hg : Grows T (T.update i f)) (hsc : T.isScanned i = false)
    (hf : ∀ x, T.slots[i]? = some x → Flagged (f x)) : Advances T (T.update i f) := by
  have hat : ∀ j, (T.update i f).slots[j]? = if i = j then (T.slots[j]?).map f else T.slots[j]? := by
    intro j
    simp only [SymTable.update, getElem?_modify]
    split_ifs
    · rfl
    · simp
  refine ⟨⟨hg.sound, ?_⟩, hg.keeps, ?_⟩
  · intro x hx hxs
    obtain ⟨j, hj⟩ := mem_iff_getElem?.mp hx
    rw [hat] at hj
    split_ifs at hj with hij
    · subst hij
      obtain ⟨y, hy, rfl⟩ := map_eq_some_iff.mp hj
      exact hf y hy
    · exact h.settles x (mem_of_getElem? hj) hxs
  · intro j x hx hxs
    rw [hat, if_neg, hx]
    rintro rfl
    rw [SymTable.isScanned, hx, elim_some, hxs] at hsc
    cases hsc

lemma strAt_slot (hx : T.slots[i]? = some x) (hs : T.strAt i = some s) : x.str = some s := by
  simpa [SymTable.strAt, hx] using hs

lemma Settling.markScanned (h : Settling T) (hsc : T.isScanned i = false) (hs : T.strAt i = some s)
    (hd : ¬Dotted s) :
    Advances T (T.markScanned i) := by
  refine h.update (h.sound.markScanned i) hsc fun x hx => ⟨s, strAt_slot (x := x) hx hs, ?_⟩
  have hflags := h.sound.flags x (mem_of_getElem? hx)
  constructor
  · intro hdot
    have hdot' : x.dotted = true := hdot
    rw [FlagsOk, if_pos hdot'] at hflags
    obtain ⟨s', gs, hs', hg, -⟩ := hflags
    obtain rfl : s' = s := some.inj (hs'.symm.trans (strAt_slot hx hs))
    by_contra hd'
    rw [dottedSegs_eq, if_neg hd'] at hg
    cases hg
  · intro hdt
    exact absurd hdt hd

lemma Settling.cacheAt (h : Settling T) (hsc : T.isScanned i = false) (hs : T.strAt i = some s) (hd : Dotted s)
    (hids : ids.map T.strAt = (pieces s).map some) : Advances T (T.cacheAt i ids) := by
  have hsegs : dottedSegs s = some (pieces s) := by rw [dottedSegs_eq, if_pos hd]
  refine h.update (h.sound.cacheAt hs hsegs hids) hsc fun x hx => ⟨s, strAt_slot (x := x) hx hs, ?_⟩
  exact ⟨fun _ => hd, fun _ => rfl⟩

lemma flagged_plain {g : Bytes} (h : ¬Dotted g) : Flagged (plainSlot g) := ⟨g, rfl, by simp [plainSlot, h]⟩

lemma Reads.advances (h : Settling T) (hr : Reads T T') : Advances T T' := by
  have hslot : ∀ (i : ℕ) (x' : Slot), T'.slots[i]? = some x' → ∃ x :
    Slot, T.slots[i]? = some x ∧ x.scanned = x'.scanned ∧ x.dotted = x'.dotted ∧ x.segs = x'.segs := by
    intro i x' hx'
    have hf := congrArg (·[i]?) hr.fills.flags
    have hs := congrArg (·[i]?) hr.scans
    simp only [flagsOf, scansOf, getElem?_map, hx', map_some] at hf hs
    cases hx : T.slots[i]? with
    | none => simp [hx] at hf
    | some x =>
      simp only [hx, map_some, some.injEq, Prod.mk.injEq] at hf hs
      exact ⟨x, rfl, hs.symm, hf.1.symm, hf.2.symm⟩
  have hfixed : ∀ (i : ℕ) (x x' : Slot), T.slots[i]? = some x → T'.slots[i]? = some x' → x.scanned = true →
      x'.str = x.str := by
    intro i x x' hx hx' hsc
    obtain ⟨s, hs, -⟩ := h.settles x (mem_of_getElem? hx) hsc
    have hk := hr.fills.grows.keeps i s (by simp [SymTable.strAt, hx, hs])
    rw [strAt_slot hx' hk, hs]
  refine ⟨⟨hr.fills.grows.sound, ?_⟩, hr.fills.grows.keeps, ?_⟩
  · intro x' hx' hsc
    obtain ⟨i, hi⟩ := mem_iff_getElem?.mp hx'
    obtain ⟨x, hx, hs, hd, -⟩ := hslot i x' hi
    obtain ⟨s, hstr, hflag⟩ := h.settles x (mem_of_getElem? hx) (hs.trans hsc)
    exact ⟨s, (hfixed i x x' hx hi (hs.trans hsc)).trans hstr, hd ▸ hflag⟩
  · intro i x hx hsc
    have hlt : i < T'.slots.length := by
      have hc := hr.fills.count
      rw [SymTable.count, SymTable.count] at hc
      rw [hc]
      exact (List.getElem?_eq_some_iff.mp hx).1
    obtain ⟨x₀, hx₀, hs, hd, hg⟩ := hslot i _ (getElem?_eq_getElem hlt)
    obtain rfl : x₀ = x := some.inj (hx₀.symm.trans hx)
    have hstr := hfixed i x₀ _ hx (getElem?_eq_getElem hlt) hsc
    rw [getElem?_eq_getElem hlt]
    generalize T'.slots[i] = y at hs hd hg hstr
    cases x₀
    cases y
    simp_all

lemma growLoadedG_spec (h : Indexed T) (g : Grants) :
    ∃ room T', growLoadedG g T = some (room, T') ∧ Indexed T' ∧ T'.slots = T.slots ∧ T'.lazy = T.lazy ∧
      (room = true → T'.count + 1 < T'.buckets.length) := by
  by_cases hc : T.buckets.length * 70 ≤ T.count * 100 ∧ g.buckets = false
  · refine ⟨_, T, by rw [growLoadedG, if_pos hc], h, rfl, rfl, fun hroom => ?_⟩
    have hlarge := h.large
    rw [symInitCap] at hlarge
    have := of_decide_eq_true hroom
    omega
  · obtain ⟨room, T', hg, hi, hl, hs, hr, -⟩ := growLoaded_spec h
    refine ⟨room, T', by rw [growLoadedG, if_neg hc, hg], hi, hs, hl, ?_⟩
    rw [SymTable.count, hs]
    exact hr

lemma symCommitNewG_spec (h : Indexed A.tab) (g : Grants) (s : Bytes) :
    ∃ r A', symCommitNewG g A (symHash s) s = some (r, A') ∧ Indexed A'.tab ∧ A'.tab.lazy = A.tab.lazy ∧
      (r = none → A'.tab.slots = A.tab.slots) ∧
      (∀ i, r = some i → i = A.tab.count ∧ A'.tab.slots = A.tab.slots ++ [{ emptySlot with str := some s }]) := by
  obtain ⟨room, T₁, hg, hi, hs, hl, hroom⟩ := growLoadedG_spec h g
  simp only [symCommitNewG, hg, bind_eq_bind, bind_some]
  cases room with
  | false => exact ⟨none, ⟨T₁, A.free⟩, rfl, hi, hl, fun _ => hs, by simp⟩
  | true =>
    simp only [Bool.true_eq_false, if_false]
    by_cases hcap : T₁.strCap ≤ T₁.count ∧ (strCapMax ≤ T₁.strCap ∨ g.strings = false)
    · exact ⟨none, ⟨T₁, A.free⟩, by rw [if_pos hcap]; rfl, hi, hl, fun _ => hs, by simp⟩
    rw [if_neg hcap]
    have hle : T₁.strCap ≤ if T₁.strCap ≤ T₁.count then T₁.strCap * 2 else T₁.strCap := by split_ifs <;> omega
    generalize hnew : (if T₁.strCap ≤ T₁.count then T₁.strCap * 2 else T₁.strCap) = cap at hle
    cases arenaAlloc g.chunk A.free (arenaStrBlock s.length) with
    | none => exact ⟨none, ⟨{ T₁ with strCap := cap }, A.free⟩, rfl, hi.congr rfl rfl hle, hl,
      fun _ => hs, by simp⟩
    | some free =>
      obtain ⟨b, hb⟩ := isSome_iff_exists.mp
        (place_isSome (symHash s) (⟨symHash s, T₁.count⟩ : Entry) hi.notFull)
      have hins : htInsert T₁.buckets (symHash s) T₁.count = some b := hb
      refine ⟨some T₁.count,
        ⟨{ T₁ with buckets := b, strCap := cap, slots := T₁.slots ++ [{ emptySlot with str := some s }] },
        free⟩, by simp [hins], hi.append rfl hle (hroom rfl) hb, hl, by simp, ?_⟩
      intro i hsome
      obtain rfl := some.inj hsome
      exact ⟨by simp only [SymTable.count, hs], by simp only [hs]⟩

lemma symCommitNewG_advances (h : Settling A.tab) (g : Grants) (s : Bytes) :
    ∃ r A', symCommitNewG g A (symHash s) s = some (r, A') ∧ Advances A.tab A'.tab ∧
      ∀ i, r = some i → A'.tab.strAt i = some s := by
  obtain ⟨r, A', hc, hi, hl, hnone, hsome⟩ := symCommitNewG_spec h.sound.indexed g s
  refine ⟨r, A', hc, ?_, ?_⟩
  · cases r with
    | none => exact h.same hi hl (hnone rfl)
    | some i =>
      obtain ⟨-, hs⟩ := hsome i rfl
      apply h.append (h.sound.append hi hl hs (by simp [emptySlot])) hs
      simp [emptySlot]
  · intro i hr
    obtain ⟨rfl, hs⟩ := hsome i hr
    rw [SymTable.strAt, hs]
    simp [SymTable.count]

lemma newSegs_plain (hd : dottedSegs s = some segs) : ∀ g ∈ segs, ¬Dotted g := by
  rw [dottedSegs_eq] at hd
  split_ifs at hd
  obtain rfl := some.inj hd
  exact fun g hg => not_dotted_of_mem hg

lemma flagged_missing (hd : dottedSegs s = some segs) : ∀ x ∈ (missing T segs).map plainSlot, x.scanned = true →
    Flagged x := by
  intro x hx _
  obtain ⟨g, hg, rfl⟩ := mem_map.mp hx
  exact flagged_plain (newSegs_plain hd g (mem_filter.mp hg).1)

lemma reserved_segments (h : Settling A.tab) {descs : List (Bytes × Option ℕ)}
    (hd : dottedSegs s = some segs) (hfst : descs.map Prod.fst = segs)
    (hfound : ∀ d ∈ descs, ∀ i, d.2 = some i → A.tab.strAt i = some d.1)
    (hmiss : (descs.filter fun d => d.2.isNone).map Prod.fst = missing T segs)
    (hr : Room A (newSegCount descs + n) (newSegBytes descs + bytes)) (g : Grants) :
    ∃ ids A', commitSegsG g A descs = some (some ids, A') ∧ Advances A.tab A'.tab ∧ Room A' n bytes ∧
      ids.map A'.tab.strAt = segs.map some ∧ A'.tab.slots = A.tab.slots ++ (missing T segs).map plainSlot := by
  obtain ⟨ids, A', hc, hi, hl, hs, hmap, hroom⟩ := commitSegsG_room h.sound.indexed descs hfound hr g
  rw [hmiss] at hs
  refine ⟨ids, A', hc, ?_, hroom, ?_, hs⟩
  · apply h.append (h.sound.append hi hl hs (by simp [plainSlot])) hs
    exact flagged_missing hd
  · rw [hmap, ← hfst, List.map_map]
    rfl

lemma symCacheSegmentsG_spec (h : Settling A.tab) (hs : A.tab.strAt i = some s) (g : Grants) :
    ∃ ok A', symCacheSegmentsG g A i s = some (ok, A') ∧ Advances A.tab A'.tab ∧
      (ok = false → A'.tab.slots = A.tab.slots) ∧ (ok = true → A'.tab.isScanned i = true) := by
  have hlt : i < A.tab.slots.length := strAt_lt hs
  cases hsc : A.tab.isScanned i with
  | true => exact ⟨true, A, by rw [symCacheSegmentsG, if_pos hsc], h.refl, by simp, fun _ => hsc⟩
  | false =>
    simp only [symCacheSegmentsG, hsc, Bool.false_eq_true, if_false]
    cases hd : dottedSegs s with
    | none =>
      have hnd : ¬Dotted s := by
        intro hdt
        rw [dottedSegs_eq, if_pos hdt] at hd
        cases hd
      refine ⟨true, _, rfl, h.markScanned hsc hs hnd, by simp, fun _ => ?_⟩
      simp [SymTable.isScanned, SymTable.markScanned, SymTable.update, getElem?_eq_getElem hlt]
    | some segs =>
      obtain ⟨descs, hpr, hfst, hfound, hmiss⟩ := probeSegs_spec h.sound.indexed segs
      obtain ⟨ok, A₁, hrv, hi₁, hs₁, hl₁, hroom⟩ :=
        symReserveCapacityG_spec h.sound.indexed g (newSegCount descs) (newSegBytes descs + segsBytes segs.length)
      have h₁ := h.same hi₁ hl₁ hs₁
      simp only [hpr, hrv, bind_eq_bind, bind_some]
      cases ok with
      | false => exact ⟨false, A₁, rfl, h₁, fun _ => hs₁, by simp⟩
      | true =>
        have hfound₁ : ∀ d ∈ descs, ∀ j, d.2 = some j → A₁.tab.strAt j = some d.1 :=
          fun d hm j hj => h₁.keeps j d.1 (hfound d hm j hj)
        obtain ⟨ids, A₂, hc, h₂, hr₂, hids, hs₂⟩ :=
          reserved_segments (n := 0) h₁.settling hd hfst hfound₁ hmiss (hroom rfl) g
        have hdot : Dotted s ∧ segs = pieces s := by
          rw [dottedSegs_eq] at hd
          split_ifs at hd with hdt
          exact ⟨hdt, (some.inj hd).symm⟩
        have hsc₂ : A₂.tab.isScanned i = false := by
          rw [SymTable.isScanned, hs₂, getElem?_append_left (by rw [hs₁]; exact hlt), hs₁]
          exact hsc
        have h₁₂ := h₁.trans h₂
        have hcache := h₂.settling.cacheAt hsc₂ (h₁₂.keeps i s hs) hdot.1 (hdot.2 ▸ hids)
        have hblock : arenaAlloc g.chunk A₂.free (arenaBlock (segs.length * 8)) =
            some (A₂.free - segsBytes segs.length) :=
          arenaAlloc_of_le hr₂.arena
        refine ⟨true, ⟨A₂.tab.cacheAt i ids, A₂.free - segsBytes segs.length⟩, ?_, h₁₂.trans hcache,
          by simp, fun _ => ?_⟩
        · simp only [Bool.true_eq_false, if_false, hc, bind_some, hblock]
          rfl
        · have hlt₂ : i < A₂.tab.slots.length := strAt_lt (h₁₂.keeps i s hs)
          simp [SymTable.isScanned, SymTable.cacheAt, SymTable.update, getElem?_eq_getElem hlt₂]

lemma reserved_main (h : Settling A.tab) (hr : Room A (n + 1) (raySymBytesUpper s.length + bytes)) (g : Grants) :
    ∃ A', symCommitNewG g A (symHash s) s = some (some A.tab.count, A') ∧ Advances A.tab A'.tab ∧ Room A' n bytes ∧
      A'.tab.strAt A.tab.count = some s ∧ A'.tab.isScanned A.tab.count = false := by
  obtain ⟨A', hc, hi, hl, hs, hroom⟩ := symCommitNewG_room h.sound.indexed hr g
  refine ⟨A', hc, ?_, hroom, ?_, ?_⟩
  · apply h.append (h.sound.append hi hl hs (by simp [emptySlot])) hs
    simp [emptySlot]
  · rw [SymTable.strAt, hs]
    simp [SymTable.count]
  · rw [SymTable.isScanned, hs]
    simp [SymTable.count, emptySlot]

lemma isScanned_update (hs : T.strAt i = some s) (hf : ∀ x, (f x).scanned = true) :
    (T.update i f).isScanned i = true := by
  have hlt : i < T.slots.length := strAt_lt hs
  simp [SymTable.isScanned, SymTable.update, getElem?_eq_getElem hlt, hf]

lemma commitMainG_spec (h : Settling A.tab) (g : Grants) (s : Bytes) :
    ∃ ok r A', commitMainG g A (symHash s) s = some (ok, r, A') ∧ Advances A.tab A'.tab ∧
      (ok = false → r = none ∧ A'.tab.slots = A.tab.slots) ∧
      (ok = true → ∃ i, r = some i ∧ A'.tab.strAt i = some s ∧ A'.tab.isScanned i = true) := by
  obtain ⟨descs, hpr, hfst, hfound, hmiss⟩ := probeSegs_spec h.sound.indexed (scanDotted s).2
  obtain ⟨ok, A₁, hrv, hi₁, hs₁, hl₁, hroom⟩ := symReserveCapacityG_spec h.sound.indexed g (1 + newSegCount descs)
    (raySymBytesUpper s.length +
      if (scanDotted s).1 then newSegBytes descs + segsBytes (scanDotted s).2.length else 0)
  have h₁ := h.same hi₁ hl₁ hs₁
  simp only [commitMainG, hpr, hrv, bind_eq_bind, bind_some]
  cases ok with
  | false => exact ⟨false, none, A₁, rfl, h₁, fun _ => ⟨rfl, hs₁⟩, by simp⟩
  | true =>
    have hr₁ := hroom rfl
    cases hdot : (scanDotted s).1 with
    | false =>
      rw [hdot] at hr₁
      have hnd : ¬Dotted s := by
        intro hdt
        have hseg := dottedSegs_eq s
        rw [if_pos hdt] at hseg
        simp [dottedSegs, hdot] at hseg
      have hr₂ : Room A₁ (newSegCount descs + 1) (raySymBytesUpper s.length + 0) := by
        rw [add_comm (newSegCount descs)]
        exact hr₁
      obtain ⟨A₂, hc, h₂, -, hstr, hsc⟩ := reserved_main h₁.settling hr₂ g
      have hmark := h₂.settling.markScanned hsc hstr hnd
      refine ⟨true, some A₁.tab.count, ⟨A₂.tab.markScanned A₁.tab.count, A₂.free⟩, ?_,
        (h₁.trans h₂).trans hmark, by simp,
        fun _ => ⟨_, rfl, hmark.keeps _ _ hstr, isScanned_update hstr fun _ => rfl⟩⟩
      simp [hc]
    | true =>
      rw [hdot, if_pos rfl] at hr₁
      have hd : dottedSegs s = some (scanDotted s).2 := by simp [dottedSegs, hdot]
      have hdt : Dotted s ∧ (scanDotted s).2 = pieces s := by
        have hseg := dottedSegs_eq s
        rw [hd] at hseg
        split_ifs at hseg with hdt
        exact ⟨hdt, some.inj hseg⟩
      have hfound₁ : ∀ d ∈ descs, ∀ j, d.2 = some j → A₁.tab.strAt j = some d.1 :=
        fun d hm j hj => h₁.keeps j d.1 (hfound d hm j hj)
      have hr₂ : Room A₁ (newSegCount descs + (0 + 1))
          (newSegBytes descs + (raySymBytesUpper s.length + segsBytes (scanDotted s).2.length)) := by
        refine ⟨?_, ?_, ?_⟩
        · have := hr₁.load
          omega
        · have := hr₁.strings
          omega
        · have := hr₁.arena
          omega
      obtain ⟨ids, A₂, hc, h₂, hroom₂, hids, hs₂⟩ := reserved_segments h₁.settling hd hfst hfound₁ hmiss hr₂ g
      obtain ⟨A₃, hc₃, h₃, hroom₃, hstr, hsc⟩ := reserved_main h₂.settling hroom₂ g
      have hids₃ : ids.map A₃.tab.strAt = (pieces s).map some := by
        rw [← hdt.2, ← hids]
        apply map_congr_left
        intro j hj
        have hm : A₂.tab.strAt j ∈ ids.map A₂.tab.strAt := mem_map_of_mem hj
        rw [hids] at hm
        obtain ⟨t, -, ht⟩ := mem_map.mp hm
        rw [← ht]
        exact h₃.keeps j t ht.symm
      have hcache := h₃.settling.cacheAt hsc hstr hdt.1 hids₃
      have hblock : arenaAlloc g.chunk A₃.free (arenaBlock ((scanDotted s).2.length * 8)) =
          some (A₃.free - segsBytes (scanDotted s).2.length) := arenaAlloc_of_le hroom₃.arena
      refine ⟨true, some A₂.tab.count,
        ⟨A₃.tab.cacheAt A₂.tab.count ids, A₃.free - segsBytes (scanDotted s).2.length⟩, ?_,
        ((h₁.trans h₂).trans h₃).trans hcache, by simp,
        fun _ => ⟨_, rfl, hcache.keeps _ _ hstr, isScanned_update hstr fun _ => rfl⟩⟩
      simp [hc, hc₃, hblock]

lemma Advances.isScanned (h : Advances T T') (hs : T.isScanned i = true) : T'.isScanned i = true := by
  cases hx : T.slots[i]? with
  | none => simp [SymTable.isScanned, hx] at hs
  | some x =>
    have hsc : x.scanned = true := by simpa [SymTable.isScanned, hx] using hs
    rw [SymTable.isScanned, h.fixed i x hx hsc]
    exact hsc

def Unchanged (T T' : SymTable) : Prop := T'.slots = T.slots ∧ ∀ e, some e ∈ T'.buckets ↔ some e ∈ T.buckets

lemma unchanged_of_slots (h : Indexed T) (h' : Indexed T') (hs : T'.slots = T.slots) : Unchanged T T' := by
  refine ⟨hs, fun e => ?_⟩
  rw [h'.entries, h.entries]
  simp only [strAt_of_slots hs]

structure Refused (T T' : SymTable) (s : Bytes) (r : Option ℕ) (searchLazy : Bool) : Prop where
  existing : ∀ i, r = some i → T'.strAt i = some s
  absent : r = none → ∀ i, T'.strAt i ≠ some s
  flags : flagsOf T' = flagsOf T
  scans : scansOf T' = scansOf T
  keeps : ∀ i t, T.strAt i = some t → T'.strAt i = some t
  unchanged : searchLazy = false ∨ T.pending = false → Unchanged T T'

lemma refused_of_slots {r : Option ℕ} {searchLazy : Bool} (h : Sound T) (hr : Reads T T1) (h' : Indexed T')
    (hs : T'.slots = T1.slots)
    (hsame : searchLazy = false ∨ T.pending = false → T1 = T) (hsome : ∀ i, r = some i → T1.strAt i = some s)
    (hnone : r = none → ∀ i, T1.strAt i ≠ some s) : Refused T T' s r searchLazy where
  existing i hi := (strAt_of_slots hs i).trans (hsome i hi)
  absent hn i := by
    rw [strAt_of_slots hs]
    exact hnone hn i
  flags := by
    rw [← hr.fills.flags, flagsOf, flagsOf, hs]
  scans := by
    rw [← hr.scans, scansOf, scansOf, hs]
  keeps i t ht := (strAt_of_slots hs i).trans (hr.fills.grows.keeps i t ht)
  unchanged hc := by
    rw [hsame hc] at hs
    exact unchanged_of_slots h.indexed h' hs

lemma symInternG_spec (h : Settling A.tab) (g : Grants) (s : Bytes) (searchLazy : Bool) :
    ∃ o r A', symInternG g A s searchLazy = some (o, r, A') ∧ Advances A.tab A'.tab ∧
      (o = .done → ∃ i, r = some i ∧ A'.tab.strAt i = some s ∧ A'.tab.isScanned i = true) ∧
      (o = .refused → Refused A.tab A'.tab s r searchLazy) ∧
        (o = .unreadable → r = none ∧ flagsOf A'.tab = flagsOf A.tab) := by
  obtain ⟨ok, found, T₁, hp, hr, hsome, hnone, -, hsame⟩ := probeMain_reads h.sound s searchLazy
  have h₁ := hr.advances h
  simp only [symInternG, probeMainG, hp, bind_eq_bind, bind_some, Option.pure_def]
  generalize (if T₁.lazy = A.tab.lazy then A.free else g.left) = free
  cases ok with
  | false => exact ⟨.unreadable, none, ⟨T₁, free⟩, rfl, h₁, by simp, by simp, fun _ => ⟨rfl, hr.fills.flags⟩⟩
  | true =>
    simp only [Bool.true_eq_false, if_false]
    cases found with
    | some i =>
      obtain ⟨ok, A₂, hc, h₂, hfalse, htrue⟩ :=
        symCacheSegmentsG_spec (A := ⟨T₁, free⟩) h₁.settling (hsome i rfl) g
      refine ⟨.ofGrant ok, some i, A₂, by simp [hc], h₁.trans h₂, ?_, ?_, ?_⟩
      · intro ho
        cases ok with
        | false => cases ho
        | true => exact ⟨i, rfl, h₂.keeps i s (hsome i rfl), htrue rfl⟩
      · intro ho
        cases ok with
        | false => exact refused_of_slots h.sound hr h₂.settling.sound.indexed (hfalse rfl) hsame hsome (by simp)
        | true => cases ho
      · intro ho
        cases ok <;> cases ho
    | none =>
      obtain ⟨ok, r, A₂, hc, h₂, hfalse, htrue⟩ := commitMainG_spec (A := ⟨T₁, free⟩) h₁.settling g s
      refine ⟨.ofGrant ok, r, A₂, by simp [hc], h₁.trans h₂, ?_, ?_, ?_⟩
      · intro ho
        cases ok with
        | false => cases ho
        | true => exact htrue rfl
      · intro ho
        cases ok with
        | false =>
          obtain ⟨rfl, hs⟩ := hfalse rfl
          exact refused_of_slots h.sound hr h₂.settling.sound.indexed hs hsame (by simp) fun _ => hnone rfl rfl
        | true => cases ho
      · intro ho
        cases ok <;> cases ho

lemma symInternNoSplitG_spec (h : Settling A.tab) (g : Grants) (s : Bytes) :
    ∃ r A', symInternNoSplitG g A s = some (r, A') ∧ Advances A.tab A'.tab ∧ ∀ i, r = some i →
      A'.tab.strAt i = some s := by
  obtain ⟨ok, found, T₁, hp, hr, hsome, -, -, -⟩ := probeMain_reads h.sound s true
  have h₁ := hr.advances h
  simp only [symInternNoSplitG, probeMainG, hp, bind_eq_bind, bind_some, Option.pure_def]
  generalize (if T₁.lazy = A.tab.lazy then A.free else g.left) = free
  cases ok with
  | false => exact ⟨none, ⟨T₁, free⟩, rfl, h₁, by simp⟩
  | true =>
    simp only [Bool.true_eq_false, if_false]
    cases found with
    | some i => exact ⟨some i, ⟨T₁, free⟩, rfl, h₁, hsome⟩
    | none =>
      obtain ⟨r, A₂, hc, h₂, hid⟩ := symCommitNewG_advances (A := ⟨T₁, free⟩) h₁.settling g s
      exact ⟨r, A₂, hc, h₁.trans h₂, hid⟩

lemma rebuildLoopG_spec (grants : ℕ → Grants) (is : List ℕ) (h : Settling A.tab) :
    ∃ err A', rebuildLoopG grants is A = some (err, A') ∧ Advances A.tab A'.tab ∧
      (err = .ok → ∀ i ∈ is, ∀ s, A.tab.strAt i = some s → A'.tab.isScanned i = true) := by
  induction is generalizing A with
  | nil => exact ⟨.ok, A, rfl, h.refl, by simp⟩
  | cons i is ih =>
    rw [rebuildLoopG]
    cases hsc : A.tab.isScanned i with
    | true =>
      obtain ⟨err, A', hr, ha, hall⟩ := ih h
      refine ⟨err, A', hr, ha, fun he j hj s hs => ?_⟩
      rcases mem_cons.mp hj with rfl | hj
      · exact ha.isScanned hsc
      · exact hall he j hj s hs
    | false =>
      cases hstr : A.tab.strAt i with
      | none =>
        obtain ⟨err, A', hr, ha, hall⟩ := ih h
        refine ⟨err, A', hr, ha, fun he j hj s hs => ?_⟩
        rcases mem_cons.mp hj with rfl | hj
        · rw [hstr] at hs
          cases hs
        · exact hall he j hj s hs
      | some s =>
        obtain ⟨ok, A₁, hc, h₁, -, htrue⟩ := symCacheSegmentsG_spec h hstr (grants i)
        simp only [Bool.false_eq_true, if_false, hc, bind_eq_bind, bind_some]
        cases ok with
        | false => exact ⟨.oom, A₁, rfl, h₁, by simp⟩
        | true =>
          obtain ⟨err, A', hr, ha, hall⟩ := ih h₁.settling
          refine ⟨err, A', hr, h₁.trans ha, fun he j hj t ht => ?_⟩
          rcases mem_cons.mp hj with rfl | hj
          · exact ha.isScanned (htrue rfl)
          · exact hall he j hj t (h₁.keeps j t ht)

lemma raySymRebuildSegmentsG_spec (grants : ℕ → Grants) (h : Settling A.tab) :
    ∃ err A', raySymRebuildSegmentsG grants A = some (err, A') ∧ Advances A.tab A'.tab ∧
      (err = .ok → ∀ i s, A.tab.strAt i = some s → A'.tab.isScanned i = true) := by
  obtain ⟨err, A', hr, ha, hall⟩ := rebuildLoopG_spec grants (range A.tab.count) h
  exact ⟨err, A', hr, ha, fun he i s hs => hall he i (mem_range.mpr (strAt_lt hs)) s hs⟩

lemma raySymEnsureCapG_advances (h : Settling A.tab) (g : Grants) (n : UInt32) :
    ∃ ok A', raySymEnsureCapG g A n = some (ok, A') ∧ Advances A.tab A'.tab := by
  rw [raySymEnsureCapG]
  cases hcap : ensuredStrCap A.tab.strCap n.toNat with
  | none => exact ⟨false, A, rfl, h.refl⟩
  | some cap =>
    simp only
    split_ifs with hdeny
    · exact ⟨false, A, rfl, h.refl⟩
    have hi : Indexed { A.tab with strCap := cap } :=
      h.sound.indexed.congr rfl rfl (ensuredStrCap_le n.toNat_lt hcap)
    cases hb : bucketsFor (rawBuckets n.toNat) with
    | none => exact ⟨false, ⟨{ A.tab with strCap := cap }, A.free⟩, rfl, h.same hi rfl rfl⟩
    | some bcap =>
      simp only
      split_ifs with hdeny
      · exact ⟨false, ⟨{ A.tab with strCap := cap }, A.free⟩, rfl, h.same hi rfl rfl⟩
      · obtain ⟨b, hgb, -, hi'⟩ := growBuckets_spec hi (bucketsFor_lt hb)
        exact ⟨true, ⟨{ A.tab with strCap := cap, buckets := b }, A.free⟩, by rw [hgb]; rfl, h.same hi' rfl rfl⟩

lemma loadEntriesG_advances (grants : ℕ → Grants) (n i : ℕ) (rest : Bytes) (h : Settling A.tab) :
    ∃ err rest' A', loadEntriesG grants n i rest A = some (err, rest', A') ∧ Advances A.tab A'.tab := by
  induction n generalizing i rest A with
  | zero => exact ⟨.ok, rest, A, rfl, h.refl⟩
  | succ n ih =>
    by_cases h4 : rest.length < 4
    · exact ⟨.corrupt, rest, A, by rw [loadEntriesG, if_pos h4], h.refl⟩
    by_cases hlen : (rest.drop 4).length < leNat (rest.take 4)
    · exact ⟨.corrupt, rest.drop 4, A, by simp only [loadEntriesG, if_neg h4, if_pos hlen], h.refl⟩
    obtain ⟨r, A₁, hint, h₁, -⟩ := symInternNoSplitG_spec h (grants i) ((rest.drop 4).take (leNat (rest.take 4)))
    simp only [loadEntriesG, if_neg h4, if_neg hlen, hint, bind_eq_bind, bind_some]
    cases r with
    | none => exact ⟨.oom, _, A₁, rfl, h₁⟩
    | some id =>
      by_cases hid : id = i
      · obtain ⟨err, rest', A', hl, h'⟩ := ih (i + 1) ((rest.drop 4).drop (leNat (rest.take 4))) h₁.settling
        exact ⟨err, rest', A', by simp only [if_pos hid, hl], h₁.trans h'⟩
      · exact ⟨.corrupt, _, A₁, by simp only [if_neg hid]; rfl, h₁⟩

lemma loadEagerG_advances (grants rebuilding : ℕ → Grants) (h : Settling A.tab) (n : ℕ) (rest : Bytes) :
    ∃ err A', loadEagerG grants rebuilding A n rest = some (err, A') ∧ Advances A.tab A'.tab := by
  obtain ⟨err, rest', A₁, hl, h₁⟩ := loadEntriesG_advances grants n 0 rest h
  simp only [loadEagerG, hl, bind_eq_bind, bind_some]
  by_cases herr : err = .ok
  · by_cases hrest : rest' = []
    · obtain ⟨err, A₂, hr, h₂, -⟩ := raySymRebuildSegmentsG_spec rebuilding h₁.settling
      exact ⟨err, A₂, by simp [herr, hrest, hr], h₁.trans h₂⟩
    · exact ⟨.corrupt, A₁, by simp [herr, hrest], h₁⟩
  · exact ⟨err, A₁, by simp [herr], h₁⟩

lemma mapFile_advances (h : Settling T) {n : ℕ} (rest : Bytes)
    (hroom : T.count + (n - T.count) < T.buckets.length) :
    Advances T (mapFile T n rest) := by
  have hslots : (mapFile T n rest).slots = T.slots ++ replicate (n - T.count) emptySlot := rfl
  apply h.append (mapFile_grows h.sound rest hroom) hslots
  intro x hx hsc
  rw [eq_of_mem_replicate hx] at hsc
  cases hsc

lemma reserveForG_spec (h : Settling A.tab) (g : Grants) (n : ℕ) :
    ∃ ok A', reserveForG g A n = some (ok, A') ∧ Advances A.tab A'.tab ∧
      (ok = true → A'.tab.count + (n - A'.tab.count) < A'.tab.buckets.length) := by
  by_cases hlt : A.tab.count < n
  · obtain ⟨ok, A', hr, hi, hs, hl, hroom⟩ := symReserveCapacityG_spec h.sound.indexed g (n - A.tab.count) 0
    refine ⟨ok, A', by rw [reserveForG, if_pos hlt, hr], h.same hi hl hs, fun hok => ?_⟩
    have hcount : A'.tab.count = A.tab.count := by rw [SymTable.count, SymTable.count, hs]
    have := (hroom hok).load
    omega
  · refine ⟨true, A, by rw [reserveForG, if_neg hlt], h.refl, fun _ => ?_⟩
    have := h.sound.indexed.room
    omega

lemma unmap_advances (h : Settling T) : Advances T { T with lazy := none } := by
  refine ⟨⟨(h.sound.relazy (l := none) (by simp)).grows.sound, h.settles⟩, fun _ _ hs => hs, fun _ _ hx _ => hx⟩

lemma loadLazyG_advances (h : Settling A.tab) (g : Grants) (n : ℕ) (rest : Bytes) :
    ∃ err A', loadLazyG g A n rest = some (err, A') ∧ Advances A.tab A'.tab := by
  obtain ⟨ok, A₁, hr, h₁, hroom⟩ := reserveForG_spec h g n
  simp only [loadLazyG, hr, bind_eq_bind, bind_some]
  cases ok with
  | false => exact ⟨.oom, A₁, rfl, h₁⟩
  | true =>
    have h₂ := h₁.trans (mapFile_advances h₁.settling rest (hroom rfl))
    obtain ⟨ok, T₃, hv, hf⟩ := validateMap_reads h₂.settling.sound (min A.tab.count n)
    have h₃ := h₂.trans (hf.advances h₂.settling)
    cases ok with
    | true => exact ⟨.ok, ⟨T₃, g.left⟩, by simp [hv], h₃⟩
    | false => exact ⟨.corrupt, ⟨{ T₃ with lazy := none }, g.left⟩, by simp [hv],
      h₃.trans (unmap_advances h₃.settling)⟩

lemma raySymLoadG_advances (grants rebuilding : ℕ → Grants) (h : Settling A.tab) (file : Bytes) :
    ∃ err A', raySymLoadG grants rebuilding A file = some (err, A') ∧ Advances A.tab A'.tab := by
  simp only [raySymLoadG]
  by_cases hshort : file.length < 12
  · exact ⟨.corrupt, A, if_pos hshort, h.refl⟩
  rw [if_neg hshort]
  by_cases hmagic : leNat (file.take 4) ≠ symStrlMagic
  · exact ⟨.corrupt, A, if_pos hmagic, h.refl⟩
  rw [if_neg hmagic]
  by_cases hcount : leInt ((file.drop 4).take 8) < 0 ∨ 2 ^ 32 - 1 < leInt ((file.drop 4).take 8)
  · exact ⟨.corrupt, A, if_pos hcount, h.refl⟩
  rw [if_neg hcount]
  by_cases hbig : symLazyLoadMinBytes ≤ file.length
  · rw [if_pos hbig]
    exact loadLazyG_advances h _ _ _
  · rw [if_neg hbig]
    exact loadEagerG_advances _ _ h _ _

inductive ArenaCall : ArenaTable → ArenaTable → Prop
  | intern {A A' : ArenaTable} (g : Grants) (s : Bytes) (searchLazy : Bool) {o : Outcome} {r : Option ℕ}
      (h : symInternG g A s searchLazy = some (o, r, A')) : ArenaCall A A'
  | noSplit {A A' : ArenaTable} (g : Grants) (s : Bytes) {r : Option ℕ}
    (h : symInternNoSplitG g A s = some (r, A')) :
      ArenaCall A A'
  | rebuild {A A' : ArenaTable} (grants : ℕ → Grants) {err : SymErr}
      (h : raySymRebuildSegmentsG grants A = some (err, A')) : ArenaCall A A'
  | ensureCap {A A' : ArenaTable} (g : Grants) (n : UInt32) {ok : Bool}
    (h : raySymEnsureCapG g A n = some (ok, A')) :
      ArenaCall A A'
  | load {A A' : ArenaTable} (grants rebuilding : ℕ → Grants) (file : Bytes) {err : SymErr}
      (h : raySymLoadG grants rebuilding A file = some (err, A')) : ArenaCall A A'
  | save {A : ArenaTable} {T' : SymTable} (free : ℕ) {err : SymErr} {file : Option Bytes}
      (h : raySymSave A.tab = some (err, file, T')) : ArenaCall A ⟨T', free⟩
  | str {A : ArenaTable} {T' : SymTable} (free i : ℕ) {r : Option Bytes} (h : raySymStr A.tab i = some (r, T')) :
      ArenaCall A ⟨T', free⟩
  | find {A : ArenaTable} {T' : SymTable} (free : ℕ) (s : Bytes) {r : Option ℕ}
    (h : raySymFind A.tab s = some (r, T')) :
      ArenaCall A ⟨T', free⟩

def ArenaRun : ArenaTable → ArenaTable → Prop := Relation.ReflTransGen ArenaCall

def initArena : ArenaTable := ⟨initTable, arenaChunkSize - raySymBytesUpper 0⟩

lemma call_advances (h : Settling A.tab) (hc : ArenaCall A A') : Advances A.tab A'.tab := by
  cases hc with
  | intern g s searchLazy hr =>
    obtain ⟨o, r, A₁, hr', ha, -⟩ := symInternG_spec h g s searchLazy
    cases hr.symm.trans hr'
    exact ha
  | noSplit g s hr =>
    obtain ⟨r, A₁, hr', ha, -⟩ := symInternNoSplitG_spec h g s
    cases hr.symm.trans hr'
    exact ha
  | rebuild grants hr =>
    obtain ⟨err, A₁, hr', ha, -⟩ := raySymRebuildSegmentsG_spec grants h
    cases hr.symm.trans hr'
    exact ha
  | ensureCap g n hr =>
    obtain ⟨ok, A₁, hr', ha⟩ := raySymEnsureCapG_advances h g n
    cases hr.symm.trans hr'
    exact ha
  | load grants rebuilding file hr =>
    obtain ⟨err, A₁, hr', ha⟩ := raySymLoadG_advances grants rebuilding h file
    cases hr.symm.trans hr'
    exact ha
  | save free hr =>
    obtain ⟨err, file, T₁, hr', ha⟩ := raySymSave_reads h.sound
    cases hr.symm.trans hr'
    exact ha.advances h
  | str free i hr =>
    obtain ⟨r, T₁, hr', ha⟩ := raySymStr_reads h.sound i
    cases hr.symm.trans hr'
    exact ha.advances h
  | find free s hr =>
    obtain ⟨r, T₁, hr', ha⟩ := raySymFind_reads h.sound s
    cases hr.symm.trans hr'
    exact ha.advances h

lemma run_advances (h : Settling A.tab) (hr : ArenaRun A A') : Advances A.tab A'.tab := by
  induction hr with
  | refl => exact h.refl
  | tail _ hc ih => exact ih.trans (call_advances ih.settling hc)

lemma initTable_settling : Settling initTable := by
  refine ⟨initTable_sound.1, ?_⟩
  intro x hx _
  rw [initTable_shape.1, mem_singleton] at hx
  rw [hx]
  exact flagged_plain (by decide)

lemma initArena_settling : Settling initArena.tab := by
  simp only [initArena]
  exact initTable_settling

structure SettledAt (T : SymTable) (i : ℕ) (s : Bytes) : Prop where
  str : T.strAt i = some s
  flag : raySymIsDotted T i = decide (Dotted s)
  segs : (raySymSegs T i).map T.strAt = if Dotted s then (pieces s).map some else []
  joined : Dotted s → [dot].intercalate ((raySymSegs T i).filterMap T.strAt) = s

lemma filterMap_of_map {f : ℕ → Option Bytes} {gs : List Bytes} (h : ids.map f = gs.map some) :
    ids.filterMap f = gs := by
  have hf : ids.filterMap f = (ids.map f).filterMap id := by simp [filterMap_map]
  rw [hf, h]
  simp [filterMap_map]

lemma settledAt_of_flagged (h : Sound T) (hx : T.slots[i]? = some x) (hs : x.str = some s)
    (hd : x.dotted = true ↔ Dotted s) : SettledAt T i s := by
  have hflags := h.flags x (mem_of_getElem? hx)
  have hsegs : raySymSegs T i = x.segs := by rw [raySymSegs, hx, elim_some]
  have hmap : (raySymSegs T i).map T.strAt = if Dotted s then (pieces s).map some else [] := by
    rw [hsegs]
    by_cases hdt : Dotted s
    · rw [FlagsOk, if_pos (hd.mpr hdt)] at hflags
      obtain ⟨s', gs, hs', hg, hm⟩ := hflags
      obtain rfl : s' = s := some.inj (hs'.symm.trans hs)
      rw [dottedSegs_eq, if_pos hdt] at hg
      rw [if_pos hdt, hm, ← some.inj hg]
    · rw [FlagsOk, if_neg (fun hdot => hdt (hd.mp hdot))] at hflags
      rw [if_neg hdt, hflags, map_nil]
  refine ⟨by rw [SymTable.strAt, hx, bind_some, hs], ?_, hmap, ?_⟩
  · rw [raySymIsDotted, hx, elim_some, Bool.eq_iff_iff, decide_eq_true_eq]
    exact hd
  · intro hdt
    rw [if_pos hdt] at hmap
    rw [filterMap_of_map hmap, join_pieces]

lemma settledAt_of_scanned (h : Settling T) (hs : T.strAt i = some s) (hsc : T.isScanned i = true) :
    SettledAt T i s := by
  cases hx : T.slots[i]? with
  | none => simp [SymTable.isScanned, hx] at hsc
  | some x =>
    obtain ⟨t, ht, hd⟩ := h.settles x (mem_of_getElem? hx) (by simpa [SymTable.isScanned, hx] using hsc)
    have hxs := strAt_slot (x := x) hx hs
    obtain rfl : t = s := some.inj (ht.symm.trans hxs)
    exact settledAt_of_flagged h.sound hx hxs hd

lemma settledAt_of_dotted (h : Sound T) (hd : raySymIsDotted T i = true) : ∃ s, Dotted s ∧ SettledAt T i s := by
  cases hx : T.slots[i]? with
  | none => simp [raySymIsDotted, hx] at hd
  | some x =>
    have hdot : x.dotted = true := by simpa [raySymIsDotted, hx] using hd
    have hflags := h.flags x (mem_of_getElem? hx)
    rw [FlagsOk, if_pos hdot] at hflags
    obtain ⟨s, gs, hs, hg, -⟩ := hflags
    have hdt : Dotted s := by
      by_contra hn
      rw [dottedSegs_eq, if_neg hn] at hg
      cases hg
    exact ⟨s, hdt, settledAt_of_flagged h hx hs ⟨fun _ => hdt, fun _ => hdot⟩⟩

/-- A reserved call settles flag and segments; a refused one commits nothing. -/
theorem interned_names_settled {A : ArenaTable} (hA : ArenaRun initArena A) (s : Bytes) :
    (∀ i, raySymIsDotted A.tab i = true → ∃ t, Dotted t ∧ SettledAt A.tab i t) ∧
    (∀ g searchLazy, ∃ o r A₁, symInternG g A s searchLazy = some (o, r, A₁) ∧
      (o = .done → ∃ i, r = some i ∧ ∀ A₂, ArenaRun A₁ A₂ → SettledAt A₂.tab i s) ∧
      (o = .refused → Refused A.tab A₁.tab s r searchLazy) ∧
      (o = .unreadable → r = none ∧ flagsOf A₁.tab = flagsOf A.tab)) ∧
    ∀ g, ∃ r A₁, symInternNoSplitG g A s = some (r, A₁) ∧
      ∀ i, r = some i → ∀ A₂, ArenaRun A₁ A₂ → ∀ grants, ∃ err A₃, raySymRebuildSegmentsG grants A₂ =
        some (err, A₃) ∧
        (err = .ok → ∀ A₄, ArenaRun A₃ A₄ → SettledAt A₄.tab i s) := by
  have h := (run_advances initArena_settling hA).settling
  refine ⟨fun i hd => settledAt_of_dotted h.sound hd, ?_, ?_⟩
  · intro g searchLazy
    obtain ⟨o, r, A₁, hc, h₁, hdone, hrefused, hunread⟩ := symInternG_spec h g s searchLazy
    refine ⟨o, r, A₁, hc, ?_, hrefused, hunread⟩
    intro ho
    obtain ⟨i, hr, hs, hsc⟩ := hdone ho
    refine ⟨i, hr, fun A₂ hrun => ?_⟩
    have h₂ := run_advances h₁.settling hrun
    exact settledAt_of_scanned h₂.settling (h₂.keeps i s hs) (h₂.isScanned hsc)
  · intro g
    obtain ⟨r, A₁, hc, h₁, hid⟩ := symInternNoSplitG_spec h g s
    refine ⟨r, A₁, hc, fun i hr A₂ hrun grants => ?_⟩
    have h₂ := run_advances h₁.settling hrun
    obtain ⟨err, A₃, hb, h₃, hall⟩ := raySymRebuildSegmentsG_spec grants h₂.settling
    refine ⟨err, A₃, hb, fun he A₄ hrun' => ?_⟩
    have h₄ := run_advances h₃.settling hrun'
    have hs₂ := h₂.keeps i s (hid i hr)
    exact settledAt_of_scanned h₄.settling (h₄.keeps i s (h₃.keeps i s hs₂)) (h₄.isScanned (hall he i s hs₂))

theorem interned_names_settled_a_b :
    ∃ A₁ i, symInternG ⟨true, true, true, 0⟩ initArena [97, 46, 98] true = some (.done, some i, A₁) ∧
    SettledAt A₁.tab i [97, 46, 98] := by
  obtain ⟨o, r, A₁, hc, hdone, -⟩ :=
    (interned_names_settled (A := initArena) .refl [97, 46, 98]).2.1 ⟨true, true, true, 0⟩ true
  have ho : (symInternG ⟨true, true, true, 0⟩ initArena [97, 46, 98] true).map Prod.fst = some .done := by
    decide +kernel
  rw [hc, map_some, some.injEq] at ho
  obtain rfl : o = .done := ho
  obtain ⟨i, rfl, hi⟩ := hdone rfl
  exact ⟨A₁, i, hc, hi A₁ .refl⟩

def longName (n : ℕ) : Bytes := List.replicate n 97 ++ dot :: [98]

lemma longName_dotted (n : ℕ) : Dotted (longName (n + 1)) ∧ longName (n + 1) ≠ [] := by
  have hfree : dot ∉ replicate (n + 1) (97 : UInt8) := by
    intro h
    have h97 := eq_of_mem_replicate h
    revert h97
    decide
  have hpieces : pieces (longName (n + 1)) = [replicate (n + 1) 97, [98]] := by
    have hlead : (longName (n + 1)).head? ≠ some dot := by
      rw [longName, replicate_succ, cons_append, head?_cons]
      decide
    rw [pieces_plain hlead, longName, splitOn_append_cons_self_of_not_mem hfree]
    rfl
  refine ⟨⟨?_, ?_, ?_⟩, ?_⟩
  · rw [hpieces]
    exact le_rfl
  · rw [hpieces, length_cons, length_singleton]
    norm_num
  · rw [hpieces, replicate_succ]
    simp
  · simp [longName]

lemma arenaAlloc_fresh {free block : ℕ} (hsmall : free < block) (hbig : arenaChunkSize < block)
    (h32 : block % 32 = 0) :
    arenaAlloc true free block = some 0 := by
  rw [arenaAlloc, if_neg (by omega), if_pos rfl, arenaNewChunk, if_pos hbig, arenaAlignUp]
  congr 1
  omega

lemma raySymBytesUpper_mod (len : ℕ) : raySymBytesUpper len % 32 = 0 := by
  simp only [raySymBytesUpper, arenaAlignUp]
  split_ifs <;> omega

lemma noSplit_long {s : Bytes} (hne : s ≠ []) (hbig : arenaChunkSize < raySymBytesUpper s.length) :
    ∃ A', symInternNoSplitG ⟨true, true, true, 0⟩ initArena s = some (some 1, A') ∧ A'.free = 0 ∧
      A'.tab.slots = initTable.slots ++ [{ emptySlot with str := some s }] ∧ A'.tab.lazy = none := by
  obtain ⟨hslots, hlazy, hlen⟩ := initTable_shape
  obtain ⟨hsound, hroot⟩ := initTable_sound
  have hi := hsound.indexed
  simp only [initArena]
  generalize initTable = T at *
  obtain ⟨o, hp, hsome, -⟩ := symProbe_spec hi s
  have hnone : o = none := by
    cases o with
    | none => rfl
    | some i =>
      have hs := hsome i rfl
      have hi0 : i = 0 := by
        have := strAt_lt hs
        rw [SymTable.count, hslots, length_singleton] at this
        omega
      rw [hi0, hroot, some.injEq] at hs
      exact absurd hs.symm hne
  subst hnone
  have hpend : T.pending = false := by rw [SymTable.pending, hlazy, elim_none]
  have hcount : T.count = 1 := by rw [SymTable.count, hslots, length_singleton]
  have hcaps := hi.caps
  rw [symInitCap] at hlen hcaps
  have hgrow : growLoadedG ⟨true, true, true, 0⟩ T = some (true, T) := by
    rw [growLoadedG, if_neg (fun hc => by cases hc.2), growLoaded, if_neg (by omega)]
  obtain ⟨b, hb⟩ := isSome_iff_exists.mp
    (place_isSome (symHash s) (⟨symHash s, T.count⟩ : Entry) hi.notFull)
  have hins : htInsert T.buckets (symHash s) T.count = some b := hb
  have halloc : arenaAlloc true (arenaChunkSize - raySymBytesUpper 0) (arenaStrBlock s.length) = some 0 := by
    rw [arenaStrBlock_eq]
    exact arenaAlloc_fresh (by omega) hbig (raySymBytesUpper_mod _)
  have hmain : probeMain T (symHash s) s true = some (true, none, T) := by
    simp [probeMain, hp, hpend]
  refine ⟨⟨{ T with buckets := b, slots := T.slots ++ [{ emptySlot with str := some s }] }, 0⟩, ?_,
    rfl, rfl, hlazy⟩
  have hcap : ¬T.strCap ≤ 1 := by omega
  rw [hcount] at hins
  simp [symInternNoSplitG, probeMainG, hmain, symCommitNewG, hgrow, hcount, hcap, halloc, hins]

lemma symReserveCapacityG_refused (h : Indexed A.tab) {g : Grants} {bytes : ℕ} (hg : g.chunk = false)
    (hb : A.free < bytes) (n : ℕ) :
    ∃ A', symReserveCapacityG g A n bytes = some (false, A') ∧ A'.tab.slots = A.tab.slots := by
  obtain ⟨ok, A', hr, -, hs, -⟩ := symReserveCapacityG_spec h g n bytes
  refine ⟨A', ?_, hs⟩
  cases ok with
  | false => exact hr
  | true =>
    have hres : arenaReserve g.chunk A.free bytes = none := by
      rw [arenaReserve, if_neg (by omega), if_neg (by simp [hg])]
    rw [symReserveCapacityG] at hr
    cases ht : bucketTarget (A.tab.count + n) 33 A.tab.buckets.length with
    | none => simp [ht] at hr
    | some target =>
      simp only [ht] at hr
      split_ifs at hr
      · simp at hr
      · obtain ⟨T, -, hr⟩ := bind_eq_some_iff.mp hr
        cases hcap : growStrings g T.strCap (A.tab.count + n) with
        | none => simp [hcap] at hr
        | some cap => simp [hcap, hres] at hr

/-- A known name keeps its id when its cache gets no room. -/
theorem refused_cache_keeps_id : ∃ A s i A', ArenaRun initArena A ∧ Dotted s ∧
    symInternG ⟨false, false, false, 0⟩ A s true = some (.refused, some i, A') ∧
      raySymIsDotted A'.tab i = false := by
  obtain ⟨n, hn⟩ : ∃ n, arenaChunkSize ≤ n := ⟨_, le_rfl⟩
  obtain ⟨hdot, hne⟩ := longName_dotted n
  have hbig : arenaChunkSize < raySymBytesUpper (longName (n + 1)).length := by
    have hlen : (longName (n + 1)).length = n + 3 := by
      simp [longName, add_assoc]
    have hn' := hn
    rw [arenaChunkSize] at hn'
    rw [hlen, raySymBytesUpper, if_neg (by omega), arenaAlignUp]
    omega
  generalize longName (n + 1) = s at hdot hne hbig
  obtain ⟨A, hc, hfree, hslots, hlazy⟩ := noSplit_long hne hbig
  have hrun : ArenaRun initArena A := .single (.noSplit _ _ hc)
  have h := (run_advances initArena_settling hrun).settling
  rw [initTable_shape.1, singleton_append] at hslots
  obtain ⟨o, hp, hsome, hnone⟩ := symProbe_spec h.sound.indexed s
  have hstr : A.tab.strAt 1 = some s := by simp [SymTable.strAt, hslots]
  cases o with
  | none => exact absurd hstr (hnone rfl 1)
  | some i =>
    have hs := hsome i rfl
    have hi1 : i = 1 := by
      have hlt := strAt_lt hs
      rw [SymTable.count, hslots, length_cons, length_singleton] at hlt
      by_contra hi
      obtain rfl : i = 0 := by omega
      simp [SymTable.strAt, hslots, plainSlot] at hs
      exact hne hs
    subst hi1
    have hsc : A.tab.isScanned 1 = false := by simp [SymTable.isScanned, hslots, emptySlot]
    have hd : dottedSegs s = some (pieces s) := by rw [dottedSegs_eq, if_pos hdot]
    obtain ⟨descs, hpr, -⟩ := probeSegs_spec h.sound.indexed (pieces s)
    have hsmall : A.free < newSegBytes descs + segsBytes (pieces s).length := by
      rw [hfree, segsBytes, arenaAlignUp]
      omega
    obtain ⟨A', hr, hs'⟩ := symReserveCapacityG_refused (g := ⟨false, false, false, 0⟩) h.sound.indexed rfl hsmall
      (newSegCount descs)
    have hmain : probeMain A.tab (symHash s) s true = some (true, some 1, A.tab) := by simp [probeMain, hp]
    refine ⟨A, s, 1, A', hrun, hdot, ?_, ?_⟩
    · simp [symInternG, probeMainG, hmain, symCacheSegmentsG, hsc, hd, hpr, hr, Outcome.ofGrant]
    · simp [raySymIsDotted, hs', hslots, emptySlot]

end Rayforce.Symbol
