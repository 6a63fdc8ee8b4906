import Rayforce.Symbol.Table

namespace Rayforce.Symbol

open Library.Words Library.Probing List Option

variable {need fuel target t : ℕ} {s : Bytes} {cap : ℕ} {b : Cells Entry}

structure Indexed (T : SymTable) : Prop where
  chained : Chained Entry.hash T.buckets
  occupied : occupied T.buckets = T.slots.countP fun s => s.str.isSome
  room : T.count < T.buckets.length
  large : symInitCap ≤ T.buckets.length
  small : T.buckets.length < 2 ^ 32
  caps : symInitCap ≤ T.strCap
  entries : ∀ e, some e ∈ T.buckets ↔ ∃ s, T.strAt e.id = some s ∧ e.hash = symHash s

variable {T T' : SymTable}

lemma strAt_lt {i : ℕ} (h : T.strAt i = some s) : i < T.count := by
  obtain ⟨slot, hs, -⟩ := bind_eq_some_iff.mp h
  exact (List.getElem?_eq_some_iff.mp hs).1

lemma strAt_of_slots (h : T'.slots = T.slots) (i : ℕ) : T'.strAt i = T.strAt i := by
  simp [SymTable.strAt, h]

section

variable (h : Indexed T)
include h

lemma Indexed.congr (hb : T'.buckets = T.buckets) (hs : T'.slots = T.slots) (hc : T.strCap ≤ T'.strCap) :
    Indexed T' where
  chained := hb ▸ h.chained
  occupied := by rw [hb, hs, h.occupied]
  room := by simpa only [SymTable.count, hb, hs] using h.room
  large := hb ▸ h.large
  small := hb ▸ h.small
  caps := h.caps.trans hc
  entries e := by rw [hb, h.entries]; simp only [strAt_of_slots hs]

lemma Indexed.update (i : ℕ) (f : Slot → Slot) (hf : ∀ s, (f s).str = s.str) : Indexed (T.update i f) := by
  have hmap : (T.slots.modify i f).map Slot.str = T.slots.map Slot.str := by
    apply ext_getElem?
    intro j
    by_cases hij : i = j
    · subst hij
      cases h : T.slots[i]? <;> simp [h, hf]
    · simp [hij]
  have hstr : ∀ j, (T.update i f).strAt j = T.strAt j := by
    intro j
    have := congrArg (·[j]?) hmap
    simp only [getElem?_map] at this
    cases h1 : (T.slots.modify i f)[j]? <;> cases h2 : T.slots[j]? <;>
      simp_all [SymTable.strAt, SymTable.update]
  refine ⟨h.chained, ?_, ?_, h.large, h.small, h.caps, ?_⟩
  · have hc : ∀ l : List Slot, l.countP (fun s => s.str.isSome) = (l.map Slot.str).countP isSome := by
      intro l
      rw [countP_map]
      rfl
    rw [show (T.update i f).buckets = T.buckets from rfl, h.occupied, hc, hc]
    exact congrArg _ hmap.symm
  · simpa [SymTable.count, SymTable.update] using h.room
  · intro e
    simp only [hstr]
    exact h.entries e

lemma Indexed.notFull : Library.Probing.occupied T.buckets < T.buckets.length := by
  have := countP_le_length (p := fun s : Slot => s.str.isSome) (l := T.slots)
  have := h.room
  rw [h.occupied]
  simp only [SymTable.count] at this
  omega

omit h in
lemma lookup_string {strAt : ℕ → Option Bytes} (hc : Chained Entry.hash b) (hroom : occupied b < b.length)
    (he : ∀ e, some e ∈ b ↔ ∃ s, strAt e.id = some s ∧ e.hash = symHash s) (s : Bytes) :
    ∃ r, lookup b (symHash s) (fun e => e.hash == symHash s && strAt e.id == some s) = some r ∧
      (∀ i, r.map Entry.id = some i → strAt i = some s) ∧ (r.map Entry.id = none → ∀ i, strAt i ≠ some s) := by
  obtain ⟨r, hr⟩ := isSome_iff_exists.mp (lookup_isSome (symHash s)
    (fun e : Entry => e.hash == symHash s && strAt e.id == some s) hroom)
  refine ⟨r, hr, ?_, ?_⟩
  · rintro i hi
    obtain ⟨e, rfl, rfl⟩ := map_eq_some_iff.mp hi
    have := (lookup_found hr).2
    simp only [Bool.and_eq_true, beq_iff_eq] at this
    exact this.2
  · intro hn i hi
    obtain rfl : r = none := by simpa using hn
    have hm : some (⟨symHash s, i⟩ : Entry) ∈ b := (he _).mpr ⟨s, hi, rfl⟩
    have := lookup_missing hc rfl hm hr
    simp [hi] at this

lemma symProbe_spec (s : Bytes) :
    ∃ r, symProbe T (symHash s) s = some r ∧ (∀ i, r = some i → T.strAt i = some s) ∧
    (r = none → ∀ i, T.strAt i ≠ some s) := by
  obtain ⟨r, hr, hsome, hnone⟩ := lookup_string h.chained h.notFull h.entries s
  exact ⟨r.map Entry.id, by simp [symProbe, hr], hsome, hnone⟩

lemma htGrowTo_spec (hle : T.buckets.length ≤ cap) (hsm : cap < 2 ^ 32) :
    ∃ b, htGrowTo T cap = some { T with buckets := b } ∧ b.length = cap ∧
      Indexed { T with buckets := b } := by
  have hcap : T.count < cap := h.room.trans_le hle
  have hocc : Library.Probing.occupied T.buckets < cap := h.notFull.trans_le hle
  obtain ⟨b, hb, hlen, hch, ho, hm⟩ := rehash_spec Entry.hash hocc
  refine ⟨b, by simp [htGrowTo, hb], hlen, ⟨hch, ho.trans h.occupied, ?_, ?_, ?_, h.caps, ?_⟩⟩
  · simpa [SymTable.count, hlen] using hcap
  · exact hlen ▸ h.large.trans hle
  · exact hlen ▸ hsm
  · intro e
    exact (hm e).trans (h.entries e)

lemma Indexed.append {f : Slot} (hf : f.str = some s) (hcap : T.strCap ≤ cap)
    (hroom : T.count + 1 < T.buckets.length) (hb : htInsert T.buckets (symHash s) T.count = some b) :
    Indexed { T with buckets := b, strCap := cap, slots := T.slots ++ [f] } := by
  have hstr : ∀ i, SymTable.strAt { T with buckets := b, strCap := cap, slots := T.slots ++ [f] } i =
      if i = T.count then some s else T.strAt i := by
    intro i
    simp only [SymTable.strAt, SymTable.count]
    rcases lt_trichotomy i T.slots.length with hlt | heq | hgt
    · simp [getElem?_append_left hlt, hlt.ne]
    · simp [heq, hf]
    · rw [getElem?_eq_none (by simp; omega), getElem?_eq_none (by omega)]
      simp [hgt.ne']
  refine ⟨place_chained h.chained hb, ?_, ?_, (place_length hb).symm ▸ h.large,
    (place_length hb).symm ▸ h.small, h.caps.trans hcap, ?_⟩
  · simp [place_occupied hb, h.occupied, countP_append, hf]
  · simpa [SymTable.count, place_length hb] using hroom
  · intro e
    rw [place_mem hb, h.entries, hstr]
    constructor
    · rintro (rfl | ⟨s', hs', hh⟩)
      · exact ⟨s, by simp, rfl⟩
      · refine ⟨s', ?_, hh⟩
        rwa [if_neg (strAt_lt hs').ne]
    · rintro ⟨s', hs', hh⟩
      split_ifs at hs' with hi
      · obtain rfl := some.inj hs'
        left
        cases e
        simp_all
      · exact .inr ⟨s', hs', hh⟩

lemma growLoaded_spec : ∃ room T', growLoaded T = some (room, T') ∧ Indexed T' ∧ T'.lazy = T.lazy ∧
    T'.slots = T.slots ∧
      (room → T.count + 1 < T'.buckets.length) ∧ (T.count < 2 ^ 30 → room) := by
  have hroom := h.room
  have hlarge := h.large
  have hsmall := h.small
  simp only [symInitCap] at hlarge
  by_cases hfull : T.buckets.length * 70 ≤ T.count * 100
  · by_cases hmax : bucketCapMax ≤ T.buckets.length
    · refine ⟨_, T, by simp [growLoaded, hfull, htGrow, hmax]; rfl, h, rfl, rfl, ?_, ?_⟩
      · intro hr
        simp only [bucketCapMax] at hmax
        simp only [decide_eq_true_eq] at hr
        omega
      · intro hc
        simp only [bucketCapMax] at hmax
        omega
    · obtain ⟨b, hb, hlen, hi⟩ := htGrowTo_spec h (show T.buckets.length ≤ T.buckets.length * 2 by omega)
        (by simp only [bucketCapMax] at hmax; omega)
      refine ⟨true, { T with buckets := b }, ?_, hi, rfl, rfl, ?_, fun _ => rfl⟩
      · simp [growLoaded, hfull, htGrow, hmax, hb]
      · intro _
        simp only [hlen]
        omega
  · refine ⟨true, T, by simp [growLoaded, hfull], h, rfl, rfl, fun _ => ?_, fun _ => rfl⟩
    omega

lemma symCommitNew_spec (s : Bytes) : ∃ r T', symCommitNew T (symHash s) s = some (r, T') ∧ Indexed T' ∧
    T'.lazy = T.lazy ∧
      (r = none → T'.slots = T.slots ∧ 2 ^ 30 ≤ T.count) ∧
      ∀ i, r = some i → i = T.count ∧ T'.slots = T.slots ++ [{ emptySlot with str := some s }] := by
  obtain ⟨room, T1, hg, hi, hlazy, hslots, hroom, hsome⟩ := growLoaded_spec h
  have hcount : T1.count = T.count := by simp [SymTable.count, hslots]
  simp only [symCommitNew, hg, bind_eq_bind, bind_some]
  cases room with
  | false =>
    refine ⟨none, T1, rfl, hi, hlazy, fun _ => ⟨hslots, ?_⟩, by simp⟩
    by_contra hc
    exact absurd (hsome (by omega)) (by simp)
  | true =>
    simp only [Bool.true_eq_false, if_false]
    by_cases hstr : T1.strCap ≤ T1.count ∧ strCapMax ≤ T1.strCap
    · refine ⟨none, T1, by simp [hstr], hi, hlazy, fun _ => ⟨hslots, ?_⟩, by simp⟩
      simp only [strCapMax] at hstr
      omega
    · obtain ⟨b, hb⟩ := isSome_iff_exists.mp
        (place_isSome (symHash s) (⟨symHash s, T1.count⟩ : Entry) hi.notFull)
      have hins : htInsert T1.buckets (symHash s) T1.count = some b := hb
      refine ⟨some T1.count, _, by simp only [if_neg hstr, hins, bind_some]; rfl,
        hi.append rfl ?_ (by rw [hcount]; exact hroom rfl) hb, hlazy, by simp, ?_⟩
      · show T1.strCap ≤ if T1.strCap ≤ T1.count then T1.strCap * 2 else T1.strCap
        split_ifs <;> omega
      · intro i hi'
        obtain rfl := some.inj hi'
        exact ⟨hcount, by simp [hslots]⟩

end

lemma bucketTarget_spec (h : bucketTarget need fuel target = some t) :
    need * 100 < t * 70 ∧ (target < 2 ^ 32 → t < 2 ^ 32) := by
  induction fuel generalizing target with
  | zero => simp [bucketTarget] at h
  | succ fuel ih =>
    by_cases hfull : target * 70 ≤ need * 100
    · by_cases hmax : bucketCapMax ≤ target
      · simp [bucketTarget, hfull, hmax] at h
      · simp only [bucketTarget, hfull, hmax, if_true, if_false] at h
        have := ih h
        simp only [bucketCapMax] at hmax
        omega
    · simp only [bucketTarget, hfull, if_false, some.injEq] at h
      omega

lemma bucketTarget_isSome {need fuel target : ℕ} (hfuel : bucketCapMax ≤ target * 2 ^ fuel)
    (hneed : need * 100 < bucketCapMax * 70) : (bucketTarget need (fuel + 1) target).isSome := by
  induction fuel generalizing target with
  | zero =>
    have : ¬ target * 70 ≤ need * 100 := by omega
    simp [bucketTarget, this]
  | succ fuel ih =>
    rw [bucketTarget]
    split_ifs with hfull hmax
    · omega
    · exact ih (by rw [pow_succ] at hfuel; rwa [mul_assoc, mul_comm 2])
    · rfl

lemma strTarget_isSome {need fuel target : ℕ} (hfuel : strCapMax ≤ target * 2 ^ fuel)
    (hneed : need ≤ strCapMax) : (strTarget need (fuel + 1) target).isSome := by
  induction fuel generalizing target with
  | zero =>
    have : ¬ target < need := by omega
    simp [strTarget, this]
  | succ fuel ih =>
    rw [strTarget]
    split_ifs with hlt hmax
    · omega
    · exact ih (by rw [pow_succ] at hfuel; rwa [mul_assoc, mul_comm 2])
    · rfl

lemma strTarget_le (h : strTarget need fuel target = some t) : target ≤ t ∧ need ≤ t := by
  induction fuel generalizing target with
  | zero => simp [strTarget] at h
  | succ fuel ih =>
    by_cases hlt : target < need
    · by_cases hmax : strCapMax ≤ target
      · simp [strTarget, hlt, hmax] at h
      · simp only [strTarget, hlt, hmax, if_true, if_false] at h
        have := ih h
        omega
    · simp only [strTarget, hlt, if_false, some.injEq] at h
      omega

lemma growBuckets_spec (h : Indexed T) (hcap : cap < 2 ^ 32) :
    ∃ b, growBuckets T cap = some { T with buckets := b } ∧ cap ≤ b.length ∧
      Indexed { T with buckets := b } := by
  by_cases hlt : T.buckets.length < cap
  · obtain ⟨b, hb, hlen, hi⟩ := htGrowTo_spec h hlt.le hcap
    exact ⟨b, by simp [growBuckets, hlt, hb], hlen.ge, hi⟩
  · exact ⟨T.buckets, by simp [growBuckets, hlt], by omega, h⟩

lemma symReserveCapacity_spec (h : Indexed T) (n : ℕ) :
    ∃ ok T', symReserveCapacity T n = some (ok, T') ∧ Indexed T' ∧ T'.slots = T.slots ∧
      T'.lazy = T.lazy ∧ (ok → (T.count + n) * 100 < T'.buckets.length * 70) ∧
      ((T.count + n) * 100 < bucketCapMax * 70 → ok) := by
  have hlarge := h.large
  have hcaps := h.caps
  simp only [symInitCap] at hlarge hcaps
  simp only [symReserveCapacity]
  cases ht : bucketTarget (T.count + n) 33 T.buckets.length with
  | none =>
    refine ⟨false, T, rfl, h, rfl, rfl, by simp, ?_⟩
    intro hneed
    have hfuel : bucketCapMax ≤ T.buckets.length * 2 ^ 32 := by simp only [bucketCapMax]; omega
    have hsome : (bucketTarget (T.count + n) 33 T.buckets.length).isSome :=
      bucketTarget_isSome hfuel hneed
    rw [ht] at hsome
    cases hsome
  | some target =>
    obtain ⟨hneed, hsm⟩ := bucketTarget_spec ht
    obtain ⟨b, hb, hlen, hi⟩ := growBuckets_spec h (hsm h.small)
    have hroom : (T.count + n) * 100 < b.length * 70 := by omega
    simp only [hb, bind_eq_bind, bind_some]
    by_cases hcap : T.strCap < T.count + n
    · cases hst : strTarget (T.count + n) 33 T.strCap with
      | none =>
        refine ⟨false, { T with buckets := b }, by simp [hcap], hi, rfl, rfl, by simp, ?_⟩
        intro hlim
        simp only [bucketCapMax] at hlim
        have hfuel : strCapMax ≤ T.strCap * 2 ^ 32 := by simp only [strCapMax]; omega
        have hsome : (strTarget (T.count + n) 33 T.strCap).isSome :=
          strTarget_isSome hfuel (by simp only [strCapMax]; omega)
        rw [hst] at hsome
        cases hsome
      | some cap =>
        exact ⟨true, { T with buckets := b, strCap := cap }, by simp [hcap],
          hi.congr rfl rfl (strTarget_le hst).1, rfl, rfl, fun _ => hroom, fun _ => rfl⟩
    · exact ⟨true, { T with buckets := b }, by simp [hcap], hi, rfl, rfl, fun _ => hroom, fun _ => rfl⟩

lemma Indexed.fill (h : Indexed T) {l : Option LazyMap} {i : ℕ}
    (hi : i < T.count) (hn : T.strAt i = none) (hb : htInsert T.buckets (symHash s) i = some b) :
    Indexed { T.update i (fun x => { x with str := some s }) with buckets := b, lazy := l } := by
  obtain ⟨slot, hslot⟩ : ∃ slot, T.slots[i]? = some slot := ⟨T.slots[i], getElem?_eq_getElem hi⟩
  have hsn : slot.str = none := by simpa [SymTable.strAt, hslot] using hn
  have hstr : ∀ j, SymTable.strAt
      { T.update i (fun x => { x with str := some s }) with buckets := b, lazy := l } j =
      if j = i then some s else T.strAt j := by
    intro j
    simp only [SymTable.strAt, SymTable.update, getElem?_modify]
    by_cases hji : i = j
    · subst hji
      simp [hslot]
    · simp [hji, Ne.symm hji]
  have hcount : (T.slots.modify i fun x => { x with str := some s }).countP (fun s => s.str.isSome) =
      T.slots.countP (fun s => s.str.isSome) + 1 := by
    have hi' : i < T.slots.length := hi
    have hget : T.slots[i] = slot := by simpa [getElem?_eq_getElem hi'] using hslot
    rw [modify_eq_set_getElem? _ _ _, hslot]
    show (T.slots.set i { slot with str := some s }).countP _ = _
    rw [countP_set hi', hget, hsn]
    simp
  refine ⟨place_chained h.chained hb, ?_, ?_, (place_length hb).symm ▸ h.large,
    (place_length hb).symm ▸ h.small, h.caps, ?_⟩
  · simp only [place_occupied hb, h.occupied, SymTable.update]
    exact hcount.symm
  · simpa [SymTable.count, SymTable.update, place_length hb] using h.room
  · intro e
    rw [place_mem hb, h.entries, hstr]
    constructor
    · rintro (rfl | ⟨s', hs', hh⟩)
      · exact ⟨s, by simp, rfl⟩
      · refine ⟨s', ?_, hh⟩
        rw [if_neg, hs']
        intro he
        rw [he, hn] at hs'
        cases hs'
    · rintro ⟨s', hs', hh⟩
      split_ifs at hs' with he
      · obtain rfl := some.inj hs'
        left
        cases e
        simp_all
      · exact .inr ⟨s', hs', hh⟩

end Rayforce.Symbol
