import Rayforce.Symbol.Bijection

namespace Rayforce.Symbol

open Library.Words Library.Probing List Option

variable {l : LazyMap} {s : Bytes} {i : ℕ} {x : Slot}

def FlagsOk (T : SymTable) (x : Slot) : Prop :=
  if x.dotted then ∃ s gs, x.str = some s ∧ dottedSegs s = some gs ∧ x.segs.map T.strAt = gs.map some
  else x.segs = []

structure Sound (T : SymTable) : Prop where
  indexed : Indexed T
  covered : ∀ l, T.lazy = some l → l.nextId ≤ l.count ∧ l.count ≤ T.count
  flags : ∀ x ∈ T.slots, FlagsOk T x

structure Grows (T T' : SymTable) : Prop where
  sound : Sound T'
  keeps : ∀ i s, T.strAt i = some s → T'.strAt i = some s

variable {T T' T1 : SymTable}

lemma Grows.refl (h : Sound T) : Grows T T := ⟨h, fun _ _ hs => hs⟩

lemma Grows.trans (h1 : Grows T T1) (h2 : Grows T1 T') : Grows T T' :=
  ⟨h2.sound, fun i s hs => h2.keeps i s (h1.keeps i s hs)⟩

lemma FlagsOk.mono (h : FlagsOk T x) (hk : ∀ i s, T.strAt i = some s → T'.strAt i = some s) : FlagsOk T' x := by
  unfold FlagsOk at h ⊢
  split_ifs at h ⊢ with hd
  · obtain ⟨s, gs, hs, hg, hm⟩ := h
    refine ⟨s, gs, hs, hg, ?_⟩
    rw [← hm]
    apply map_congr_left
    intro i hi
    have hmem : T.strAt i ∈ x.segs.map T.strAt := mem_map_of_mem hi
    rw [hm] at hmem
    obtain ⟨g, -, hg⟩ := mem_map.mp hmem
    rw [← hg]
    exact hk i g hg.symm
  · exact h

lemma flagsOk_plain (hd : x.dotted = false) (hs : x.segs = []) : FlagsOk T x := by
  simp [FlagsOk, hd, hs]

section

variable (h : Sound T)
include h

lemma Sound.append (hi : Indexed T') (hl : T'.lazy = T.lazy) {tail : List Slot}
    (hs : T'.slots = T.slots ++ tail) (hplain : ∀ x ∈ tail, x.dotted = false ∧ x.segs = []) : Grows T T' := by
  have hk : ∀ i s, T.strAt i = some s → T'.strAt i = some s := fun i s => strAt_append_left hs
  refine ⟨⟨hi, ?_, ?_⟩, hk⟩
  · intro l hl'
    obtain ⟨h1, h2⟩ := h.covered l (hl ▸ hl')
    refine ⟨h1, h2.trans ?_⟩
    simp [SymTable.count, hs]
  · intro x hx
    rw [hs] at hx
    rcases mem_append.mp hx with hx | hx
    · exact (h.flags x hx).mono hk
    · exact flagsOk_plain (hplain x hx).1 (hplain x hx).2

lemma Sound.same (hi : Indexed T') (hl : T'.lazy = T.lazy) (hs : T'.slots = T.slots) : Grows T T' := by
  have hs' : T'.slots = T.slots ++ [] := by rw [hs, append_nil]
  exact h.append hi hl hs' (by simp)

lemma Sound.update (i : ℕ) {f : Slot → Slot} (hf : ∀ x, (f x).str = x.str)
    (hok : ∀ x, T.slots[i]? = some x → FlagsOk T x → FlagsOk T (f x)) : Grows T (T.update i f) := by
  have hk : ∀ j s, T.strAt j = some s → (T.update i f).strAt j = some s := by
    intro j s hs
    rw [strAt_update f hf, hs]
  refine ⟨⟨h.indexed.update i f hf, ?_, ?_⟩, hk⟩
  · intro l hl
    simpa [SymTable.count, SymTable.update] using h.covered l hl
  · intro x hx
    obtain ⟨j, hj⟩ := mem_iff_getElem?.mp hx
    simp only [SymTable.update, getElem?_modify] at hj
    obtain ⟨y, hy, rfl⟩ := map_eq_some_iff.mp hj
    have hmem : y ∈ T.slots := mem_of_getElem? hy
    by_cases hij : i = j
    · subst hij
      simp only [if_true]
      exact (hok y hy (h.flags y hmem)).mono hk
    · simp only [hij, if_false]
      exact (h.flags y hmem).mono hk

lemma Sound.markScanned (i : ℕ) : Grows T (T.markScanned i) :=
  h.update i (fun _ => rfl) fun x _ hx => by simpa [FlagsOk] using hx

lemma Sound.cacheAt {segs : List Bytes} {ids : List ℕ} (hstr : T.strAt i = some s) (hd : dottedSegs s = some segs)
    (hids : ids.map T.strAt = segs.map some) : Grows T (T.cacheAt i ids) := by
  refine h.update i (fun _ => rfl) fun x hx _ => ?_
  have hx' : x.str = some s := by simpa [SymTable.strAt, hx] using hstr
  simpa [FlagsOk] using ⟨s, hx', segs, hd, hids⟩

lemma symCacheSegments_grows (hstr : T.strAt i = some s) :
    ∃ ok T', symCacheSegments T i s = some (ok, T') ∧ Grows T T' := by
  obtain ⟨ok, T', hc, hi, hcached⟩ := symCacheSegments_spec h.indexed i s
  refine ⟨ok, T', hc, ?_⟩
  cases hcached with
  | settled => exact .refl h
  | plain => exact h.markScanned i
  | full gs _ _ _ hs hl _ => exact h.append hi hl hs (by simp [plainSlot])
  | cached _ hd hi1 hs hl hids =>
    have hg := h.append hi1 hl hs (by simp [plainSlot])
    exact hg.trans (hg.sound.cacheAt (hg.keeps i s hstr) hd hids)

lemma commitMain_grows (s : Bytes) : ∃ r T', commitMain T (symHash s) s = some (r, T') ∧ Grows T T' := by
  obtain ⟨r, T', hc, hi, hcom⟩ := commitMain_spec h.indexed s
  refine ⟨r, T', hc, ?_⟩
  cases hcom with
  | full gs _ hs hl => exact h.append hi hl hs (by simp [plainSlot])
  | done ids hs hl hids =>
    have hs' : T'.slots = T.slots ++ ((newSegs T s).map plainSlot ++ [mainSlot s ids]) := by
      rw [hs, append_assoc]
    have hk : ∀ i s, T.strAt i = some s → T'.strAt i = some s := fun i s => strAt_append_left hs'
    refine ⟨⟨hi, ?_, ?_⟩, hk⟩
    · intro l hl'
      obtain ⟨h1, h2⟩ := h.covered l (hl ▸ hl')
      refine ⟨h1, h2.trans ?_⟩
      simp [SymTable.count, hs']
    · intro x hx
      rw [hs'] at hx
      simp only [mem_append, List.mem_map, mem_singleton] at hx
      rcases hx with hx | ⟨g, -, rfl⟩ | rfl
      · exact (h.flags x hx).mono hk
      · exact flagsOk_plain rfl rfl
      · cases hdot : (scanDotted s).1 with
        | false => exact flagsOk_plain (by simp [mainSlot, hdot]) (by simp [mainSlot, hdot])
        | true =>
          have hd : dottedSegs s = some (scanDotted s).2 := by simp [dottedSegs, hdot]
          have hm : mainSlot s ids = ⟨some s, true, true, ids⟩ := by simp [mainSlot, hdot]
          rw [hm]
          simpa [FlagsOk] using ⟨_, hd, hids _ hd⟩

lemma symCommitNew_grows (s : Bytes) : ∃ r T', symCommitNew T (symHash s) s = some (r, T') ∧ Grows T T' := by
  obtain ⟨r, T', hc, hi, hl, hnone, hsome⟩ := symCommitNew_spec h.indexed s
  refine ⟨r, T', hc, ?_⟩
  cases r with
  | none => exact h.same hi hl (hnone rfl).1
  | some i => exact h.append hi hl (hsome i rfl).2 (by simp [emptySlot])

end

def flagsOf (T : SymTable) : List (Bool × List ℕ) := T.slots.map fun x => (x.dotted, x.segs)

structure Fills (T T' : SymTable) : Prop where
  grows : Grows T T'
  flags : flagsOf T' = flagsOf T

lemma Fills.refl (h : Sound T) : Fills T T := ⟨.refl h, rfl⟩

lemma Fills.trans (h1 : Fills T T1) (h2 : Fills T1 T') : Fills T T' :=
  ⟨h1.grows.trans h2.grows, h2.flags.trans h1.flags⟩

lemma Fills.count (h : Fills T T') : T'.count = T.count := by
  simpa [flagsOf, SymTable.count] using congrArg length h.flags

def scansOf (T : SymTable) : List Bool := T.slots.map Slot.scanned

structure Reads (T T' : SymTable) : Prop where
  fills : Fills T T'
  scans : scansOf T' = scansOf T

lemma Reads.trans (h₁ : Reads T T1) (h₂ : Reads T1 T') : Reads T T' :=
    ⟨h₁.fills.trans h₂.fills, h₂.scans.trans h₁.scans⟩

lemma Sound.reads (h : Sound T) : Reads T T := ⟨.refl h, rfl⟩

lemma Reads.grows (h : Reads T T') : Grows T T' := h.fills.grows

lemma Sound.relazy (h : Sound T) {l : Option LazyMap}
    (hl : ∀ l', l = some l' → l'.nextId ≤ l'.count ∧ l'.count ≤ T.count) : Reads T { T with lazy := l } :=
  ⟨⟨⟨⟨h.indexed.congr rfl rfl le_rfl, hl, h.flags⟩, fun _ _ hs => hs⟩, rfl⟩, rfl⟩

lemma flagsOf_fill (T : SymTable) (i : ℕ) (s : Bytes) (b : Cells Entry) (l : Option LazyMap) :
    flagsOf { T.update i (fun x => { x with str := some s }) with buckets := b, lazy := l } = flagsOf T := by
  apply ext_getElem?
  intro j
  simp only [flagsOf, SymTable.update, getElem?_map, getElem?_modify]
  cases T.slots[j]? with
  | none => rfl
  | some x => by_cases hij : i = j <;> simp [hij]

lemma scansOf_update (T : SymTable) (i : ℕ) (s : Bytes) :
    scansOf (T.update i fun x => { x with str := some s }) = scansOf T := by
  apply ext_getElem?
  intro j
  simp only [scansOf, SymTable.update, getElem?_map, getElem?_modify]
  cases T.slots[j]? with
  | none => rfl
  | some x => by_cases hij : i = j <;> simp [hij]

lemma strAt_fill (T : SymTable) (hi : i < T.count) (s : Bytes) (b : Cells Entry) (l : Option LazyMap) (j : ℕ) :
    SymTable.strAt { T.update i (fun x => { x with str := some s }) with buckets := b, lazy := l } j =
      if j = i then some s else T.strAt j := by
  have hslot : T.slots[i]? = some T.slots[i] := getElem?_eq_getElem hi
  simp only [SymTable.strAt, SymTable.update, getElem?_modify]
  by_cases hij : i = j
  · subst hij
    simp [hslot]
  · simp [hij, Ne.symm hij]

lemma Sound.fill (h : Sound T) {b : Cells Entry} (hi : i < T.count)
    (hn : T.strAt i = none) (hb : htInsert T.buckets (symHash s) i = some b)
    (hl : l.nextId ≤ l.count ∧ l.count ≤ T.count) :
    Reads T { T.update i (fun x => { x with str := some s }) with buckets := b, lazy := some l } := by
  have hk : ∀ j s', T.strAt j = some s' → SymTable.strAt
      { T.update i (fun x => { x with str := some s }) with buckets := b, lazy := some l } j = some s' := by
    intro j s' hs'
    rw [strAt_fill T hi, if_neg, hs']
    rintro rfl
    rw [hn] at hs'
    cases hs'
  refine ⟨⟨⟨⟨h.indexed.fill hi hn hb, ?_, ?_⟩, hk⟩, flagsOf_fill ..⟩, scansOf_update T i s⟩
  · intro l' hl'
    obtain rfl := some.inj hl'
    simpa [SymTable.count, SymTable.update] using hl
  · intro x hx
    obtain ⟨j, hj⟩ := mem_iff_getElem?.mp hx
    simp only [SymTable.update, getElem?_modify] at hj
    obtain ⟨y, hy, rfl⟩ := map_eq_some_iff.mp hj
    have hmem : y ∈ T.slots := mem_of_getElem? hy
    by_cases hij : i = j
    · subst hij
      have hyn : y.str = none := by simpa [SymTable.strAt, hy] using hn
      have hflags := h.flags y hmem
      -- an id without a string in memory is not dotted
      have hd : y.dotted = false := by
        by_contra hd
        simp [FlagsOk, hd, hyn] at hflags
      simp only [if_true]
      exact flagsOk_plain hd (by simpa [FlagsOk, hd] using hflags)
    · simp only [hij, if_false]
      exact (h.flags y hmem).mono hk

lemma materializeNext_reads (h : Sound T) (hl : T.lazy = some l) (hlt : l.nextId < l.count) :
    ∃ ok T', materializeNext T = some (ok, T') ∧ Reads T T' ∧
      (ok = true → ∃ name rest, T'.lazy = some ⟨l.count, l.nextId + 1, rest⟩ ∧
        (∀ n, readRecords (n + 1) l.rest = (readRecords n rest).map fun r => (name :: r.1, r.2)) ∧
        T'.strAt l.nextId = some name ∧ ∀ j, j ≠ l.nextId → T'.strAt j = T.strAt j) := by
  obtain ⟨-, hc⟩ := h.covered l hl
  by_cases h4 : l.rest.length < 4
  · exact ⟨false, T, by simp [materializeNext, hl, h4], h.reads, by simp⟩
  by_cases hlen : (l.rest.drop 4).length < leNat (l.rest.take 4)
  · refine ⟨false, { T with lazy := some { l with rest := l.rest.drop 4 } }, ?_, h.relazy ?_, by simp⟩
    · simp only [materializeNext, hl, if_neg h4, if_pos hlen]
    · rintro l' ⟨⟩
      exact ⟨hlt.le, hc⟩
  have hread : ∀ n, readRecords (n + 1) l.rest =
      (readRecords n ((l.rest.drop 4).drop (leNat (l.rest.take 4)))).map fun r =>
        ((l.rest.drop 4).take (leNat (l.rest.take 4)) :: r.1, r.2) := by
    intro n
    simp only [readRecords, if_neg h4, if_neg hlen]
  have hbound : l.nextId + 1 ≤ l.count ∧ l.count ≤ T.count := ⟨hlt, hc⟩
  cases hstr : T.strAt l.nextId with
  | some s =>
    by_cases hs : s = (l.rest.drop 4).take (leNat (l.rest.take 4))
    · refine ⟨true, _, ?_, h.relazy (l := some ⟨l.count, l.nextId + 1, _⟩) ?_,
        fun _ => ⟨_, _, rfl, hread, ?_, fun _ _ => rfl⟩⟩
      · simp only [materializeNext, hl, if_neg h4, if_neg hlen, hstr, if_pos hs]
      · rintro l' ⟨⟩
        exact hbound
      · rw [← hs]
        exact hstr
    · refine ⟨false, { T with lazy := some { l with rest := l.rest.drop 4 } }, ?_, h.relazy ?_, by simp⟩
      · simp only [materializeNext, hl, if_neg h4, if_neg hlen, hstr, if_neg hs]
      · rintro l' ⟨⟩
        exact ⟨hlt.le, hc⟩
  | none =>
    have hi : l.nextId < T.count := by omega
    obtain ⟨b, hb⟩ := isSome_iff_exists.mp (place_isSome
      (symHash ((l.rest.drop 4).take (leNat (l.rest.take 4))))
      (⟨symHash ((l.rest.drop 4).take (leNat (l.rest.take 4))), l.nextId⟩ : Entry) h.indexed.notFull)
    have hins : htInsert T.buckets (symHash ((l.rest.drop 4).take (leNat (l.rest.take 4)))) l.nextId =
      some b := hb
    refine ⟨true, _, ?_, h.fill hi hstr hins
        (l := ⟨l.count, l.nextId + 1, (l.rest.drop 4).drop (leNat (l.rest.take 4))⟩) hbound,
      fun _ => ⟨_, _, rfl, hread, ?_, ?_⟩⟩
    · simp only [materializeNext, hl, if_neg h4, if_neg hlen, hstr, hins]
      rfl
    · rw [strAt_fill T hi, if_pos rfl]
    · intro j hj
      rw [strAt_fill T hi, if_neg hj]

lemma materializeLoop_reads (n : ℕ) (h : Sound T) (hl : T.lazy = some l) (hle : l.nextId + n ≤ l.count) :
    ∃ ok T', materializeLoop n T = some (ok, T') ∧ Reads T T' ∧
      (ok = true → ∃ fs tail, readRecords n l.rest = some (fs, tail) ∧
        (∀ k < n, T'.strAt (l.nextId + k) = fs[k]?) ∧
        ∀ j, j < l.nextId ∨ l.nextId + n ≤ j → T'.strAt j = T.strAt j) := by
  induction n generalizing T l with
  | zero => exact ⟨true, T, rfl, h.reads, fun _ => ⟨[], l.rest, rfl, by simp, fun _ _ => rfl⟩⟩
  | succ n ih =>
    obtain ⟨ok, T1, hm, hf1, hok⟩ := materializeNext_reads h hl (by omega)
    cases ok with
    | false => exact ⟨false, T1, by simp [materializeLoop, hm], hf1, by simp⟩
    | true =>
      obtain ⟨name, rest, hl1, hread, hname, hother⟩ := hok rfl
      obtain ⟨ok, T', hm', hf', hok'⟩ := ih hf1.grows.sound hl1 (show l.nextId + 1 + n ≤ l.count by omega)
      refine ⟨ok, T', by simp [materializeLoop, hm, hm'], hf1.trans hf', ?_⟩
      intro htrue
      obtain ⟨fs, tail, hrec, hstr, hsame⟩ := hok' htrue
      simp only at hrec hstr hsame
      refine ⟨name :: fs, tail, by rw [hread, hrec]; rfl, ?_, ?_⟩
      · intro k hk
        cases k with
        | zero => simpa using hf'.grows.keeps _ _ hname
        | succ k =>
          rw [show l.nextId + (k + 1) = l.nextId + 1 + k by omega, hstr k (by omega)]
          simp
      · intro j hj
        rw [hsame j (by omega), hother j (by omega)]

section

variable (h : Sound T)
include h

lemma symLazyMaterializeTo_reads (target : ℕ) :
    ∃ ok T', symLazyMaterializeTo T target = some (ok, T') ∧ Reads T T' := by
  cases hl : T.lazy with
  | none => exact ⟨false, T, by simp [symLazyMaterializeTo, hl], h.reads⟩
  | some l =>
    by_cases hc : l.count ≤ target
    · exact ⟨false, T, by simp [symLazyMaterializeTo, hl, hc], h.reads⟩
    · by_cases hn : target < l.nextId
      · exact ⟨(T.strAt target).isSome, T, by simp [symLazyMaterializeTo, hl, hc, hn], h.reads⟩
      · obtain ⟨ok, T', hm, hf, -⟩ := materializeLoop_reads (target + 1 - l.nextId) h hl (by omega)
        exact ⟨ok, T', by simp [symLazyMaterializeTo, hl, hc, hn, hm], hf⟩

lemma materializeAll_reads : ∃ ok T', materializeAll T = some (ok, T') ∧ Reads T T' :=
    symLazyMaterializeTo_reads h _

lemma raySymStr_reads (i : ℕ) : ∃ o T', raySymStr T i = some (o, T') ∧ Reads T T' := by
  by_cases hc : T.count ≤ i
  · exact ⟨none, T, by simp [raySymStr, hc], h.reads⟩
  · by_cases hn : T.strAt i = none ∧ (T.lazy.elim false fun l => decide (i < l.count)) = true
    · obtain ⟨ok, T', hm, hf⟩ := symLazyMaterializeTo_reads h i
      exact ⟨_, T', by simp only [raySymStr, if_neg hc, if_pos hn, hm]; rfl, hf⟩
    · exact ⟨T.strAt i, T, by simp only [raySymStr, if_neg hc, if_neg hn], h.reads⟩

lemma raySymFind_reads (s : Bytes) : ∃ o T', raySymFind T s = some (o, T') ∧ Reads T T' := by
  obtain ⟨o, hp, -⟩ := symProbe_spec h.indexed s
  cases o with
  | some i => exact ⟨some i, T, by simp [raySymFind, hp], h.reads⟩
  | none =>
    cases hpend : T.pending with
    | false => exact ⟨none, T, by simp [raySymFind, hp, hpend], h.reads⟩
    | true =>
      obtain ⟨ok, T', hm, hf⟩ := materializeAll_reads h
      obtain ⟨o, hp', -⟩ := symProbe_spec hf.grows.sound.indexed s
      cases ok with
      | false => exact ⟨none, T', by simp [raySymFind, hp, hpend, hm], hf⟩
      | true => exact ⟨o, T', by simp [raySymFind, hp, hpend, hm, hp'], hf⟩

lemma probeMain_reads (s : Bytes) (searchLazy : Bool) :
    ∃ ok o T', probeMain T (symHash s) s searchLazy = some (ok, o, T') ∧ Reads T T' ∧
      (∀ i, o = some i → T'.strAt i = some s) ∧ (ok = true → o = none → ∀ i, T'.strAt i ≠ some s) ∧
      (ok = false → o = none) ∧ (searchLazy = false ∨ T.pending = false → T' = T) := by
  obtain ⟨o, hp, hsome, hnone⟩ := symProbe_spec h.indexed s
  by_cases hsearch : searchLazy = true ∧ o = none ∧ T.pending = true
  · have hno : searchLazy = false ∨ T.pending = false → False := by
      rintro (hc | hc)
      · rw [hsearch.1] at hc
        cases hc
      · rw [hsearch.2.2] at hc
        cases hc
    obtain ⟨ok, T1, hm, hf⟩ := materializeAll_reads h
    obtain ⟨o1, hp1, hsome1, hnone1⟩ := symProbe_spec hf.grows.sound.indexed s
    cases ok with
    | false =>
      exact ⟨false, none, T1, by simp [probeMain, hp, hsearch, hm], hf, by simp, by simp, by simp,
        fun hc => (hno hc).elim⟩
    | true =>
      exact ⟨true, o1, T1, by simp [probeMain, hp, hsearch, hm, hp1], hf, hsome1, fun _ => hnone1, by simp,
        fun hc => (hno hc).elim⟩
  · refine ⟨true, o, T, ?_, h.reads, hsome, fun _ => hnone, by simp, fun _ => rfl⟩
    simp only [probeMain, hp, bind_eq_bind, bind_some, if_neg hsearch]
    rfl

lemma probeMain_grows (s : Bytes) (searchLazy : Bool) :
    ∃ ok o T', probeMain T (symHash s) s searchLazy = some (ok, o, T') ∧ Grows T T' ∧ ∀ i, o = some i →
      T'.strAt i = some s := by
  obtain ⟨ok, o, T', hp, hr, hsome, -⟩ := probeMain_reads h s searchLazy
  exact ⟨ok, o, T', hp, hr.grows, hsome⟩

lemma symInternNolock_grows (s : Bytes) (searchLazy : Bool) :
    ∃ r T', symInternNolock T (symHash s) s searchLazy = some (r, T') ∧ Grows T T' := by
  obtain ⟨ok, o, T1, hp, hg, hstr⟩ := probeMain_grows h s searchLazy
  cases ok with
  | false => exact ⟨none, T1, by simp [symInternNolock, hp], hg⟩
  | true =>
    cases o with
    | some i =>
      obtain ⟨ok, T2, hc, hg2⟩ := symCacheSegments_grows hg.sound (hstr i rfl)
      exact ⟨some i, T2, by simp [symInternNolock, hp, hc], hg.trans hg2⟩
    | none =>
      obtain ⟨r, T2, hc, hg2⟩ := commitMain_grows hg.sound s
      exact ⟨r, T2, by simp [symInternNolock, hp, hc], hg.trans hg2⟩

lemma symInternNolockNoseg_grows (s : Bytes) : ∃ r T', symInternNolockNoseg T (symHash s) s = some (r, T') ∧
    Grows T T' := by
  obtain ⟨ok, o, T1, hp, hg, -⟩ := probeMain_grows h s true
  rw [symInternNolockNoseg_eq, hp, bind_some]
  cases ok with
  | false => exact ⟨none, T1, rfl, hg⟩
  | true =>
    cases o with
    | some i => exact ⟨some i, T1, rfl, hg⟩
    | none =>
      obtain ⟨r, T2, hc, hg2⟩ := symCommitNew_grows hg.sound s
      exact ⟨r, T2, hc, hg.trans hg2⟩

omit h in
lemma rebuildLoop_grows (is : List ℕ) (h : Sound T) :
    ∃ err T', rebuildLoop is T = some (err, T') ∧ Grows T T' := by
  obtain ⟨err, T', hr, -, hg⟩ := rebuildLoop_induct (P := Grows T) (fun hg hstr => by
    obtain ⟨ok, T1, hc, hg1⟩ := symCacheSegments_grows hg.sound hstr
    exact ⟨ok, T1, hc, hg.trans hg1⟩) is (.refl h)
  exact ⟨err, T', hr, hg⟩

lemma raySymEnsureCap_grows (n : UInt32) : ∃ ok T', raySymEnsureCap T n = some (ok, T') ∧ Grows T T' := by
  obtain ⟨ok, T', hc, hi, hs, hl⟩ := raySymEnsureCap_indexed h.indexed n
  exact ⟨ok, T', hc, h.same hi hl hs⟩

omit h in
lemma loadEntries_grows (n i : ℕ) (rest : Bytes) (h : Sound T) :
    ∃ err rest' T', loadEntries n i rest T = some (err, rest', T') ∧ Grows T T' := by
  induction n generalizing i rest T with
  | zero => exact ⟨.ok, rest, T, rfl, .refl h⟩
  | succ n ih =>
    by_cases h4 : rest.length < 4
    · exact ⟨.corrupt, rest, T, by simp [loadEntries, h4], .refl h⟩
    by_cases hlen : (rest.drop 4).length < leNat (rest.take 4)
    · exact ⟨.corrupt, rest.drop 4, T, by simp only [loadEntries, if_neg h4, if_pos hlen], .refl h⟩
    obtain ⟨r, T1, hint, hg⟩ := symInternNolockNoseg_grows h ((rest.drop 4).take (leNat (rest.take 4)))
    simp only [loadEntries, if_neg h4, if_neg hlen, raySymInternNoSplit, hint, bind_eq_bind, bind_some]
    cases r with
    | none => exact ⟨.oom, _, T1, rfl, hg⟩
    | some id =>
      by_cases hid : id = i
      · obtain ⟨err, rest', T', hl, hg'⟩ := ih (i + 1) ((rest.drop 4).drop (leNat (rest.take 4))) hg.sound
        exact ⟨err, rest', T', by simp only [if_pos hid, hl], hg.trans hg'⟩
      · exact ⟨.corrupt, _, T1, by simp only [if_neg hid]; rfl, hg⟩

lemma loadEager_grows (n : ℕ) (rest : Bytes) : ∃ err T', loadEager T n rest = some (err, T') ∧ Grows T T' := by
  obtain ⟨err, rest', T1, hl, hg⟩ := loadEntries_grows n 0 rest h
  simp only [loadEager, hl, bind_eq_bind, bind_some]
  by_cases herr : err = .ok
  · by_cases hrest : rest' = []
    · obtain ⟨err, T2, hr, hg2⟩ := rebuildLoop_grows (range T1.count) hg.sound
      exact ⟨err, T2, by simp [herr, hrest, raySymRebuildSegments, hr], hg.trans hg2⟩
    · exact ⟨.corrupt, T1, by simp [herr, hrest], hg⟩
  · exact ⟨err, T1, by simp [herr], hg⟩

lemma mapFile_grows {n : ℕ} (rest : Bytes) (hroom : T.count + (n - T.count) < T.buckets.length) :
    Grows T (mapFile T n rest) := by
  have hslots : (mapFile T n rest).slots = T.slots ++ replicate (n - T.count) emptySlot := rfl
  have hk : ∀ i s, T.strAt i = some s → (mapFile T n rest).strAt i = some s := fun i s =>
    strAt_append_left hslots
  refine ⟨⟨h.indexed.extend hroom, ?_, ?_⟩, hk⟩
  · rintro l ⟨⟩
    refine ⟨Nat.zero_le _, ?_⟩
    simp only [mapFile, SymTable.count, length_append, length_replicate]
    omega
  · intro x hx
    rcases mem_append.mp hx with hx | hx
    · exact (h.flags x hx).mono hk
    · rw [eq_of_mem_replicate hx]
      exact flagsOk_plain rfl rfl

lemma reserveFor_grows (n : ℕ) : ∃ ok T1, reserveFor T n = some (ok, T1) ∧ Grows T T1 ∧
      (ok = true → T1.count + (n - T1.count) < T1.buckets.length) := by
  obtain ⟨ok, T1, hr, hi, hs, hl, hroom⟩ := reserveFor_spec h.indexed n
  exact ⟨ok, T1, hr, h.same hi hl hs, hroom⟩

lemma validateMap_reads (n : ℕ) : ∃ ok T', validateMap T n = some (ok, T') ∧ Reads T T' := by
  by_cases hn : n = 0
  · exact ⟨true, T, by simp [validateMap, hn], h.reads⟩
  · simp only [validateMap, if_neg hn]
    exact symLazyMaterializeTo_reads h (n - 1)

lemma loadLazy_grows (n : ℕ) (rest : Bytes) : ∃ err T', loadLazy T n rest = some (err, T') ∧ Grows T T' := by
  obtain ⟨ok, T1, hr, hg1, hroom⟩ := reserveFor_grows h n
  simp only [loadLazy, hr, bind_eq_bind, bind_some]
  cases ok with
  | false => exact ⟨.oom, T1, rfl, hg1⟩
  | true =>
    have hg2 := hg1.trans (mapFile_grows hg1.sound rest (hroom rfl))
    obtain ⟨ok, T3, hv, hf⟩ := validateMap_reads hg2.sound (min T.count n)
    have hg3 := hg2.trans hf.grows
    cases ok with
    | true => exact ⟨.ok, T3, by simp [hv], hg3⟩
    | false =>
      exact ⟨.corrupt, { T3 with lazy := none }, by simp [hv],
        hg3.trans (hg3.sound.relazy (l := none) (by simp)).grows⟩

lemma raySymLoad_grows (file : Bytes) : ∃ err T', raySymLoad T file = some (err, T') ∧ Grows T T' := by
  by_cases hshort : file.length < 12
  · exact ⟨.corrupt, T, by simp [raySymLoad, hshort], .refl h⟩
  by_cases hmagic : leNat (file.take 4) ≠ symStrlMagic
  · exact ⟨.corrupt, T, by simp only [raySymLoad, if_neg hshort, if_pos hmagic], .refl h⟩
  simp only [raySymLoad, if_neg hshort, if_neg hmagic]
  by_cases hcount : leInt ((file.drop 4).take 8) < 0 ∨ 2 ^ 32 - 1 < leInt ((file.drop 4).take 8)
  · exact ⟨.corrupt, T, by rw [if_pos hcount], .refl h⟩
  rw [if_neg hcount]
  by_cases hbig : symLazyLoadMinBytes ≤ file.length
  · simp only [if_pos hbig]
    exact loadLazy_grows h _ _
  · simp only [if_neg hbig]
    exact loadEager_grows h _ _

lemma materializeForSave_reads : ∃ ok T', materializeForSave T = some (ok, T') ∧ Reads T T' := by
  unfold materializeForSave
  split_ifs
  · exact materializeAll_reads h
  · exact ⟨true, T, rfl, h.reads⟩

lemma raySymSave_reads : ∃ err file T', raySymSave T = some (err, file, T') ∧ Reads T T' := by
  obtain ⟨ok, T1, hm, hf⟩ := materializeForSave_reads h
  simp only [raySymSave, hm, bind_eq_bind, bind_some]
  cases ok with
  | false => exact ⟨.corrupt, none, T1, rfl, hf⟩
  | true =>
    cases hn : T1.slots.mapM Slot.str with
    | none => exact ⟨.corrupt, none, T1, by simp, hf⟩
    | some names =>
      by_cases hlong : (names.any fun s => decide (2 ^ 32 ≤ s.length)) = true
      · exact ⟨.range, none, T1, by simp only [hlong]; rfl, hf⟩
      · exact ⟨.ok, some (strlFile names), T1, by simp only [hlong]; rfl, hf⟩

lemma internBy_grows (kind : InternKind) (s : Bytes) : ∃ r T', internBy kind T s = some (r, T') ∧ Grows T T' := by
  cases kind with
  | locked => exact symInternNolock_grows h s true
  | prehashed => exact symInternNolock_grows h s true
  | runtime => exact symInternNolock_grows h s false
  | noSplit => exact symInternNolockNoseg_grows h s

end

inductive Call : SymTable → SymTable → Prop
  | op {T T' : SymTable} (o : Op) (h : step T o = some T') : Call T T'
  | load {T T' : SymTable} (file : Bytes) {err : SymErr} (h : raySymLoad T file = some (err, T')) : Call T T'
  | save {T T' : SymTable} {err : SymErr} {file : Option Bytes} (h : raySymSave T = some (err, file, T')) :
      Call T T'

def Reachable (T : SymTable) : Prop := Relation.ReflTransGen Call initTable T

lemma call_grows (h : Sound T) (hc : Call T T') : Grows T T' := by
  cases hc with
  | op o hs =>
    cases o with
    | intern kind s =>
      obtain ⟨r, T1, hint, hg⟩ := internBy_grows h kind s
      simp only [step, hint, map_some, some.injEq] at hs
      exact hs ▸ hg
    | rebuildSegments =>
      obtain ⟨err, T1, hr, hg⟩ := rebuildLoop_grows (range T.count) h
      simp only [step, raySymRebuildSegments, hr, map_some, some.injEq] at hs
      exact hs ▸ hg
    | ensureCap n =>
      obtain ⟨ok, T1, hr, hg⟩ := raySymEnsureCap_grows h n
      simp only [step, hr, map_some, some.injEq] at hs
      exact hs ▸ hg
    | load file =>
      obtain ⟨err, T1, hl, hg⟩ := raySymLoad_grows h file
      simp only [step, hl] at hs
      cases err with
      | ok => exact some.inj hs ▸ hg
      | _ => cases hs
    | str i =>
      obtain ⟨o, T1, hr, hf⟩ := raySymStr_reads h i
      simp only [step, hr, map_some, some.injEq] at hs
      exact hs ▸ hf.grows
    | find s =>
      obtain ⟨o, T1, hr, hf⟩ := raySymFind_reads h s
      simp only [step, hr, map_some, some.injEq] at hs
      exact hs ▸ hf.grows
  | load file hl =>
    obtain ⟨err, T1, hl', hg⟩ := raySymLoad_grows h file
    obtain ⟨-, rfl⟩ := Prod.mk.inj (some.inj (hl.symm.trans hl'))
    exact hg
  | save hs =>
    obtain ⟨err, file, T1, hs', hf⟩ := raySymSave_reads h
    obtain ⟨-, he⟩ := Prod.mk.inj (some.inj (hs.symm.trans hs'))
    exact (Prod.mk.inj he).2 ▸ hf.grows

lemma emptyTable_sound : Sound emptyTable :=
  ⟨emptyTable_stands.indexed, by simp [emptyTable], by simp [emptyTable]⟩

lemma initTable_sound : Sound initTable ∧ initTable.strAt 0 = some [] := by
  obtain ⟨r, T, hi, hg⟩ := symInternNolock_grows emptyTable_sound [] true
  have hinit : initTable = T := by simp [initTable, raySymInit, hi]
  exact ⟨hinit ▸ hg.sound, by decide +kernel⟩

lemma Reachable.sound (h : Reachable T) : Sound T ∧ T.strAt 0 = some [] := by
  induction h with
  | refl => exact initTable_sound
  | tail _ hc ih =>
    have hg := call_grows ih.1 hc
    exact ⟨hg.sound, hg.keeps 0 [] ih.2⟩

end Rayforce.Symbol
