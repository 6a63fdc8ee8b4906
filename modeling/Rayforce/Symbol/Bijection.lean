import Rayforce.Symbol.Interning

namespace Rayforce.Symbol

open Library.Words Library.Probing List Option

variable {T T' : SymTable} {rows : List Row}
variable {fs : List Bytes} {rest tail : Bytes} {diskCount : ℕ} {s : Bytes}

lemma unsettled_cons (r : Row) (rows : List Row) :
    unsettled (r :: rows) = if r.unread = false ∧
      r.scanned = false then r.name :: unsettled rows else unsettled rows := by
  cases hu : r.unread <;> cases hs : r.scanned <;> simp [unsettled, names, hu, hs]

lemma rebuildLoop_induct {P : SymTable → Prop}
    (hstep : ∀ {T i s}, P T → T.strAt i = some s → ∃ ok T', symCacheSegments T i s = some (ok, T') ∧ P T')
    (is : List ℕ) (h : P T) : ∃ err T', rebuildLoop is T = some (err, T') ∧ (err = .ok ∨ err = .oom) ∧ P T' := by
  induction is generalizing T with
  | nil => exact ⟨.ok, T, rfl, .inl rfl, h⟩
  | cons i is ih =>
    rw [rebuildLoop]
    split_ifs
    · exact ih h
    · cases hstr : T.strAt i with
      | none => exact ih h
      | some s =>
        obtain ⟨ok, T1, hc, h1⟩ := hstep h hstr
        simp only [hc, bind_eq_bind, bind_some]
        cases ok with
        | false => exact ⟨.oom, T1, rfl, .inr rfl, h1⟩
        | true => exact ih h1

lemma rebuildLoop_keeps (n j : ℕ) (h : Stands T rows) (hn : (names rows).Nodup) (hlen : j + n ≤ rows.length)
    (hok : SegmentsOkInTurn (hidden rows) (known rows) (unsettled ((rows.drop j).take n))) :
    ∃ err T' rows', rebuildLoop (List.range' j n) T = some (err, T') ∧ Keeps T rows T' rows' := by
  induction n generalizing j T rows with
  | zero => exact ⟨.ok, T, rows, rfl, .refl h hn⟩
  | succ n ih =>
    have hj : j < rows.length := by omega
    obtain ⟨r, hr⟩ : ∃ r, rows[j]? = some r := ⟨_, getElem?_eq_getElem hj⟩
    have hcons : (rows.drop j).take (n + 1) = r :: (rows.drop (j + 1)).take n := by
      have hget : rows[j] = r := by simpa [getElem?_eq_getElem hj] using hr
      rw [drop_eq_getElem_cons hj, hget, take_succ_cons]
    rw [hcons, unsettled_cons] at hok
    rw [range'_succ]
    by_cases hset : r.unread = false ∧ r.scanned = false
    · obtain ⟨hu, hsc⟩ := hset
      rw [if_pos ⟨hu, hsc⟩] at hok
      obtain ⟨hseg, hturn⟩ := hok
      have hstr : T.strAt j = some r.name := h.strAt_eq_some.mpr ⟨r, hr, hu, rfl⟩
      have hscan : T.isScanned j = false := (h.isScanned hr).trans hsc
      obtain ⟨ok, T1, gs, hc, hp, -, htrue, hfalse⟩ := symCacheSegments_rows h hr r.name
      have hnd : (names rows ++ gs).Nodup := nodup_append_fresh hn hseg hp
      cases ok with
      | false =>
        refine ⟨.oom, T1, _, by simp [rebuildLoop, hscan, hstr, hc], hfalse rfl, ?_, ?_⟩
        · simpa [names_append] using hnd
        · simp [names_append]
      | true =>
        obtain ⟨hgs, hs1⟩ := htrue rfl
        obtain rfl := hgs hsc
        have hrest : ((settle j (rows ++ (fresh (known rows) r.name).map plainRow)).drop (j + 1)).take n =
            (rows.drop (j + 1)).take n := by
          apply ext_getElem?
          intro i
          rcases lt_or_ge i n with hi | hi
          · rw [getElem?_take_of_lt hi, getElem?_take_of_lt hi, getElem?_drop,
              getElem?_drop, getElem?_settle, getElem?_append_left (by omega)]
            have : j ≠ j + 1 + i := by omega
            simp [this]
          · rw [getElem?_eq_none (by simp; omega), getElem?_eq_none (by simp; omega)]
        obtain ⟨err, T', rows', hl, hk⟩ := ih (j + 1) hs1
          (by simpa [names_append] using hnd) (by simp [settle]; omega)
          (by rw [hrest]; simpa [known_append, hidden_append] using hturn)
        refine ⟨err, T', rows', by simp [rebuildLoop, hscan, hstr, hc, hl], hk.stands, hk.nodup, ?_⟩
        refine List.IsPrefix.trans ?_ hk.extends_names
        simp [names_append]
    · rw [if_neg hset] at hok
      obtain ⟨err, T', rows', hl, hk⟩ := ih (j + 1) h hn (by omega) hok
      refine ⟨err, T', rows', ?_, hk⟩
      cases hsc : r.scanned with
      | true => simp [rebuildLoop, h.isScanned hr, hsc, hl]
      | false =>
        have hu : r.unread = true := by simpa [hsc] using hset
        have hstr : T.strAt j = none := by rw [h.strAt, hr]; simp [Row.str, hu]
        simp [rebuildLoop, h.isScanned hr, hsc, hstr, hl]

lemma raySymRebuildSegments_keeps (h : Stands T rows) (hn : (names rows).Nodup) (hok : RebuildOk rows) :
    ∃ err T' rows', raySymRebuildSegments T = some (err, T') ∧ Keeps T rows T' rows' := by
  have := rebuildLoop_keeps rows.length 0 h hn (by omega) (by simpa [RebuildOk] using hok)
  rwa [← range_eq_range', h.length] at this

lemma loadEntries_spec (n i : ℕ) {rest rest' : Bytes} (h : Stands T rows) (hn : (names rows).Nodup)
    (hload : loadEntries n i rest T = some (.ok, rest', T')) :
    ∃ fs, readRecords n rest = some (fs, rest') ∧ Keeps T rows T' (fs.foldl internPlain rows) ∧
      ∀ k < n, (names (fs.foldl internPlain rows))[i + k]? = fs[k]? := by
  induction n generalizing i rest T rows with
  | zero =>
    simp only [loadEntries, some.injEq, Prod.mk.injEq, true_and] at hload
    obtain ⟨rfl, rfl⟩ := hload
    exact ⟨[], rfl, .refl h hn, by simp⟩
  | succ n ih =>
    by_cases h4 : rest.length < 4
    · simp [loadEntries, h4] at hload
    by_cases hlen : (rest.drop 4).length < leNat (rest.take 4)
    · simp only [loadEntries, if_neg h4, if_pos hlen] at hload
      simp at hload
    obtain ⟨r, T1, hint, -, hsome⟩ := symInternNolockNoseg_spec h ((rest.drop 4).take (leNat (rest.take 4)))
    simp only [loadEntries, if_neg h4, if_neg hlen, raySymInternNoSplit, hint, bind_eq_bind,
      bind_some] at hload
    cases r with
    | none => simp at hload
    | some id =>
      by_cases hid : id = i
      · simp only [if_pos hid] at hload
        obtain ⟨hs1, hname⟩ := hsome id rfl
        have hk1 : Keeps T rows T1 _ := internPlain_keeps hn hs1
        obtain ⟨fs, hrec, hk, hpos⟩ := ih (i + 1) hs1 hk1.nodup hload
        refine ⟨_ :: fs, by simp only [readRecords, if_neg h4, if_neg hlen, hrec]; rfl, hk1.trans hk, ?_⟩
        intro k hkn
        cases k with
        | zero =>
          subst hid
          simpa using hk.getElem? hname
        | succ k =>
          rw [show i + (k + 1) = i + 1 + k by omega]
          simpa using hpos k (by omega)
      · simp [if_neg hid] at hload

lemma readRecords_length {n : ℕ} (h : readRecords n rest = some (fs, tail)) : fs.length = n := by
  induction n generalizing rest fs tail with
  | zero =>
    simp only [readRecords, some.injEq, Prod.mk.injEq] at h
    rw [← h.1]
    rfl
  | succ n ih =>
    simp only [readRecords] at h
    split_ifs at h
    obtain ⟨⟨gs, tail'⟩, hr, he⟩ := map_eq_some_iff.mp h
    rw [← (Prod.mk.inj he).1, length_cons, ih hr]

lemma materializeLoop_agrees (n : ℕ) {l : LazyMap} (hl : T.lazy = some l) {m : ℕ} (hnm : n ≤ m) {tail : Bytes}
    (hrec : readRecords m l.rest = some (fs, tail))
    (hloop : materializeLoop n T = some (true, T')) : ∀ k < n, ∀ s, T.strAt (l.nextId + k) = some s →
      fs[k]? = some s := by
  induction n generalizing T l m fs tail with
  | zero => intro k hk; omega
  | succ n ih =>
    obtain ⟨m, rfl⟩ : ∃ m', m = m' + 1 := ⟨m - 1, by omega⟩
    simp only [readRecords] at hrec
    split_ifs at hrec with h4 hlen
    obtain ⟨⟨gs, tail'⟩, hr, he⟩ := map_eq_some_iff.mp hrec
    obtain ⟨rfl, -⟩ := Prod.mk.inj he
    simp only [materializeLoop, materializeNext, hl, h4, hlen, if_false] at hloop
    cases hstr : T.strAt l.nextId with
    | some s =>
      simp only [hstr] at hloop
      split_ifs at hloop with hs
      · simp only [bind_eq_bind, bind_some, if_true] at hloop
        have := ih (T := { T with lazy := _ }) rfl (show n ≤ m by omega) hr hloop
        intro k hk s' hs'
        cases k with
        | zero =>
          rw [Nat.add_zero, hstr] at hs'
          simpa [hs] using hs'
        | succ k =>
          rw [show l.nextId + (k + 1) = l.nextId + 1 + k by omega] at hs'
          simpa using this k (by omega) s' hs'
      · simp at hloop
    | none =>
      simp only [hstr] at hloop
      cases hb : htInsert T.buckets (symHash ((l.rest.drop 4).take (leNat (l.rest.take 4)))) l.nextId with
      | none => simp [hb] at hloop
      | some b =>
        simp only [hb, bind_eq_bind, bind_some, if_true, Option.pure_def] at hloop
        have := ih (T := { T.update _ _ with buckets := _, lazy := _ }) rfl (show n ≤ m by omega) hr hloop
        intro k hk s' hs'
        cases k with
        | zero =>
          rw [Nat.add_zero, hstr] at hs'
          cases hs'
        | succ k =>
          rw [show l.nextId + (k + 1) = l.nextId + 1 + k by omega] at hs'
          have hne : ¬ l.nextId = l.nextId + 1 + k := by omega
          have := this k (by omega) s' (by
            simpa [SymTable.strAt, SymTable.update, hne] using hs')
          simpa using this

lemma Indexed.extend (h : Indexed T) {k : ℕ} {l : Option LazyMap} (hroom : T.count + k < T.buckets.length) :
    Indexed { T with slots := T.slots ++ List.replicate k emptySlot, lazy := l } := by
  have hstr : ∀ i, SymTable.strAt
      { T with slots := T.slots ++ replicate k emptySlot, lazy := l } i = T.strAt i := by
    intro i
    simp only [SymTable.strAt]
    rcases lt_or_ge i T.slots.length with hi | hi
    · rw [getElem?_append_left hi]
    · rw [getElem?_append_right hi, getElem?_eq_none hi, getElem?_replicate]
      split_ifs <;> rfl
  refine ⟨h.chained, ?_, by simpa [SymTable.count] using hroom, h.large, h.small, h.caps, ?_⟩
  · rw [h.occupied, countP_append]
    simp [countP_replicate, emptySlot]
  · intro e
    rw [h.entries, hstr]

lemma reserveFor_spec (h : Indexed T) (diskCount : ℕ) :
    ∃ ok T1, reserveFor T diskCount = some (ok, T1) ∧ Indexed T1 ∧ T1.slots = T.slots ∧
      T1.lazy = T.lazy ∧ (ok = true → T1.count + (diskCount - T1.count) < T1.buckets.length) := by
  by_cases hlt : T.count < diskCount
  · obtain ⟨ok, T1, hr, hi, hs, hl, hroom, -⟩ := symReserveCapacity_spec h (diskCount - T.count)
    refine ⟨ok, T1, by simp [reserveFor, hlt, hr], hi, hs, hl, fun hok => ?_⟩
    have hroom := hroom hok
    have hlarge := hi.large
    simp only [SymTable.count, hs, symInitCap] at hroom hlarge ⊢
    omega
  · refine ⟨true, T, by simp [reserveFor, hlt], h, rfl, rfl, fun _ => ?_⟩
    have := h.room
    omega

section

variable (h : Stands T rows)
include h

lemma Stands.mapFile {T1 : SymTable} (hi : Indexed T1) (hs : T1.slots = T.slots)
    (hroom : T1.count + (diskCount - T1.count) < T1.buckets.length)
    (hrec : readRecords diskCount rest = some (fs, tail))
    (hunread : ∀ (i : ℕ) (r : Row), rows[i]? = some r → r.unread → fs[i]? = some r.name)
    (hag : ∀ i < min T.count diskCount, fs[i]? = (names rows)[i]?) :
    Stands (mapFile T1 diskCount rest) (rows ++ (fs.drop rows.length).map fun f => ⟨f, false, true⟩) := by
  have hfs := readRecords_length hrec
  have hlen := h.length
  have hc1 : T1.count = rows.length := by rw [hlen, SymTable.count, hs, SymTable.count]
  have hlen2 : (fs.drop rows.length).length = diskCount - rows.length := by simp [hfs]
  refine ⟨hi.extend hroom, ?_, ?_, ?_⟩
  · simp only [Symbol.mapFile, hs, hc1]
    rw [map_append, map_append, h.views, List.map_map, map_replicate, ← hlen2, ← map_const']
    congr 1
  · intro i r hr hu
    refine ⟨_, rfl, by simp, ?_⟩
    rcases lt_or_ge i rows.length with hi | hi
    · rw [getElem?_append_left hi] at hr
      exact hfs ▸ (List.getElem?_eq_some_iff.mp (hunread i r hr hu)).1
    · have := (List.getElem?_eq_some_iff.mp hr).1
      simp only [length_append, length_map, hlen2] at this
      show i < diskCount
      omega
  · intro l hl
    obtain rfl := some.inj hl
    refine ⟨by simp, by simp only [length_append, length_map, hlen2]; omega, tail, ?_⟩
    show readRecords diskCount rest = _
    rw [hrec]
    congr 2
    apply ext_getElem?
    intro i
    simp only [names, drop_zero, map_take, map_append, List.map_map]
    rcases lt_or_ge i diskCount with hi | hi
    · rw [getElem?_take_of_lt hi]
      rcases lt_or_ge i rows.length with hi' | hi'
      · rw [getElem?_append_left (by simpa using hi'), hag i (by omega)]
        rfl
      · rw [getElem?_append_right (by simpa using hi')]
        simp [hi', Function.comp_def]
    · rw [getElem?_eq_none (by omega), getElem?_eq_none (by simp; omega)]

lemma loadLazy_keeps {rest : Bytes}
    (hok : MapOk diskCount rest rows) (hload : loadLazy T diskCount rest = some (.ok, T')) :
      ∃ rows', Keeps T rows T' rows' := by
  obtain ⟨fs, tail, hrec, hunread, hnd⟩ := hok
  have hlen := h.length
  obtain ⟨ok, T1, hres, hi1, hs1, -, hroom⟩ := reserveFor_spec h.indexed diskCount
  cases ok with
  | false => simp [loadLazy, hres] at hload
  | true =>
    simp only [loadLazy, hres, bind_eq_bind, bind_some, Bool.true_eq_false, if_false] at hload
    have hnames : names (rows ++ (fs.drop rows.length).map fun f => (⟨f, false, true⟩ : Row)) =
        names rows ++ fs.drop rows.length := by
      simp [names, Function.comp_def]
    have hkeep : ∀ rows', Stands T' rows' →
        names rows' = names (rows ++ (fs.drop rows.length).map fun f => (⟨f, false, true⟩ : Row)) →
        Keeps T rows T' rows' := by
      intro rows' hs hn
      rw [hnames] at hn
      exact ⟨hs, hn ▸ hnd, hn ▸ prefix_append _ _⟩
    by_cases hv : min T.count diskCount = 0
    · simp only [validateMap, if_pos hv, bind_some, if_true, Option.pure_def,
        some.injEq, Prod.mk.injEq, true_and] at hload
      subst hload
      exact ⟨_, hkeep _ (h.mapFile hi1 hs1 (hroom rfl) hrec hunread (by intro i hi; omega)) rfl⟩
    · rw [validateMap, if_neg hv] at hload
      cases hm : symLazyMaterializeTo (mapFile T1 diskCount rest) (min T.count diskCount - 1) with
      | none => simp [hm] at hload
      | some r =>
        obtain ⟨ok, T3⟩ := r
        cases ok with
        | false => simp [hm] at hload
        | true =>
          simp only [hm, bind_some, if_true, Option.pure_def, some.injEq,
            Prod.mk.injEq, true_and] at hload
          subst hload
          have hk : min T.count diskCount - 1 < diskCount := by omega
          have hloop : materializeLoop (min T.count diskCount) (mapFile T1 diskCount rest) =
              some (true, T3) := by
            simp only [symLazyMaterializeTo, mapFile,
              show ¬ diskCount ≤ min T.count diskCount - 1 by omega, if_false, Nat.not_lt_zero,
              Nat.sub_zero] at hm
            rwa [show min T.count diskCount - 1 + 1 = min T.count diskCount by omega] at hm
          have hag := materializeLoop_agrees (min T.count diskCount) rfl (by omega) hrec hloop
          -- an id in memory agrees because it was compared, one in the old file by assumption
          have hst := h.mapFile hi1 hs1 (hroom rfl) hrec hunread ?_
          · obtain ⟨T4, hm4, hs4⟩ := symLazyMaterializeTo_spec hst rfl hk
            obtain ⟨-, rfl⟩ := Prod.mk.inj (some.inj (hm.symm.trans hm4))
            exact ⟨_, hkeep _ hs4 (by simp)⟩
          · intro i hi
            obtain ⟨r, hr⟩ : ∃ r, rows[i]? = some r :=
              ⟨_, getElem?_eq_getElem (show i < rows.length by omega)⟩
            have hname : (names rows)[i]? = some r.name := by simp [names, hr]
            rw [hname]
            cases hu : r.unread with
            | true => exact hunread i r hr hu
            | false =>
              have hstr : T.strAt i = some r.name := h.strAt_eq_some.mpr ⟨r, hr, hu, rfl⟩
              refine hag i hi r.name ?_
              show (mapFile T1 diskCount rest).strAt (0 + i) = _
              rw [Nat.zero_add]
              have hslots : (mapFile T1 diskCount rest).slots =
                  T.slots ++ List.replicate (diskCount - T1.count) emptySlot := by simp [mapFile, hs1]
              exact strAt_append_left hslots hstr

lemma raySymLoad_keeps (hn : (names rows).Nodup) {file : Bytes}
    (hok : LoadOk file rows) (hload : raySymLoad T file = some (.ok, T')) : ∃ rows', Keeps T rows T' rows' := by
  simp only [raySymLoad] at hload
  split_ifs at hload with h12 hmagic hcount hlarge
  · simp at hload
  · simp at hload
  · simp at hload
  · simp only [LoadOk, if_pos hlarge] at hok
    exact loadLazy_keeps h hok hload
  · simp only [LoadOk, if_neg hlarge] at hok
    simp only [loadEager] at hload
    obtain ⟨⟨err, rest', T1⟩, hentries, hload⟩ := bind_eq_some_iff.mp hload
    by_cases herr : err = .ok
    · subst herr
      obtain ⟨fs, hrec, hk1, -⟩ := loadEntries_spec _ 0 h hn hentries
      obtain ⟨err, T2, rows', hre, hk2⟩ := raySymRebuildSegments_keeps hk1.stands hk1.nodup
        (hok fs rest' hrec)
      by_cases hrest : rest' = []
      · simp only [ne_eq, not_true, if_false, hrest, hre] at hload
        obtain ⟨-, rfl⟩ := Prod.mk.inj (some.inj hload)
        exact ⟨rows', hk1.trans hk2⟩
      · simp [hrest] at hload
    · simp only [ne_eq, herr, not_false_eq_true, if_true] at hload
      have := (Prod.mk.inj (some.inj hload)).1
      exact absurd this herr

lemma raySymStr_spec (i : ℕ) :
    ∃ T' rows', raySymStr T i = some ((names rows)[i]?, T') ∧ Stands T' rows' ∧ names rows' = names rows := by
  rcases lt_or_ge i T.count with hi | hi
  · obtain ⟨r, hr⟩ : ∃ r, rows[i]? = some r :=
      ⟨_, getElem?_eq_getElem (show i < rows.length by rwa [h.length])⟩
    have hname : (names rows)[i]? = some r.name := by simp [names, hr]
    cases hu : r.unread with
    | false =>
      have hstr := h.strAt_eq_some.mpr ⟨r, hr, hu, rfl⟩
      exact ⟨T, rows, by simp [raySymStr, hstr, hname, show ¬ T.count ≤ i by omega], h, rfl⟩
    | true =>
      have hstr : T.strAt i = none := by rw [h.strAt, hr]; simp [Row.str, hu]
      obtain ⟨l, hl, -, hlt⟩ := h.unread i r hr hu
      obtain ⟨T', hm, hs⟩ := symLazyMaterializeTo_spec h hl hlt
      have hstr' : T'.strAt i = some r.name := by
        refine hs.strAt_eq_some.mpr ⟨{ r with unread := false }, ?_, rfl, rfl⟩
        rw [getElem?_readUpTo, hr]
        simp
      refine ⟨T', _, ?_, hs, by simp⟩
      simp [raySymStr, hstr, hl, hlt, hm, hstr', hname, show ¬ T.count ≤ i by omega]
  · have hname : (names rows)[i]? = none := by
      rw [getElem?_eq_none]
      simpa [names, h.length] using hi
    exact ⟨T, rows, by simp [raySymStr, hi, hname], h, rfl⟩

lemma raySymFind_spec (hn : (names rows).Nodup) (s : Bytes) :
    ∃ o T' rows', raySymFind T s = some (o, T') ∧ Stands T' rows' ∧ names rows' = names rows ∧
      ∀ i, o = some i ↔ (names rows)[i]? = some s := by
  have hhit : ∀ T1 a, Stands T1 a → names a = names rows → ∀ i, T1.strAt i = some s →
      ∀ j, some i = some j ↔ (names rows)[j]? = some s := by
    intro T1 a h1 ha i hi j
    obtain ⟨r, hr, -, hname⟩ := h1.strAt_eq_some.mp hi
    have hi' : (names rows)[i]? = some s := by rw [← ha]; simp [names, hr, hname]
    constructor
    · rintro ⟨⟩
      exact hi'
    · intro hj
      exact congrArg some ((getElem?_inj (List.getElem?_eq_some_iff.mp hi').1 hn).mp (hi'.trans hj.symm))
  have hmiss : s ∉ names rows → ∀ j : ℕ, none = some j ↔ (names rows)[j]? = some s := by
    intro hs j
    simp only [reduceCtorEq, false_iff]
    exact fun hj => hs (mem_of_getElem? hj)
  obtain ⟨o, hp, hsome, hnone⟩ := symProbe_spec h.indexed s
  cases o with
  | some i =>
    exact ⟨some i, T, rows, by simp [raySymFind, hp], h, rfl, hhit T rows h rfl i (hsome i rfl)⟩
  | none =>
    cases hpend : T.pending with
    | true =>
      obtain ⟨T1, hm, hs1⟩ := materializeAll_spec h hpend
      obtain ⟨o, hp1, hsome1, hnone1⟩ := symProbe_spec hs1.indexed s
      refine ⟨o, T1, _, by simp [raySymFind, hp, hpend, hm, hp1], hs1, by simp, ?_⟩
      cases o with
      | some i => exact hhit T1 _ hs1 (by simp) i (hsome1 i rfl)
      | none =>
        refine hmiss ?_
        rw [← known_readAll, ← hs1.held, mem_held]
        simpa using hnone1 rfl
    | false =>
      refine ⟨none, T, rows, by simp [raySymFind, hp, hpend], h, rfl, hmiss ?_⟩
      rw [← known_readAll, h.hidden_eq_nil hpend, ← h.held, mem_held]
      simpa using hnone rfl

end

lemma roundUpPow2_lt (n : ℕ) : roundUpPow2 n < 2 ^ 32 := Nat.mod_lt _ (by norm_num)

lemma smear_bounds {m n : ℕ} (k : ℕ) (h : m ≤ n ∧ n < 2 ^ 32) : m ≤ n ||| n >>> k ∧ n ||| n >>> k < 2 ^ 32 :=
  ⟨h.1.trans Nat.left_le_or, Nat.or_lt_two_pow h.2 ((Nat.shiftRight_le n k).trans_lt h.2)⟩

lemma le_roundUpPow2 {n : ℕ} (hn : 0 < n) (hlt : n < 2 ^ 32) (h0 : roundUpPow2 n ≠ 0) : n ≤ roundUpPow2 n := by
  have hm : (n + (2 ^ 32 - 1)) % 2 ^ 32 = n - 1 := by omega
  simp only [roundUpPow2, hm] at h0 ⊢
  have h1 := smear_bounds 1 (show n - 1 ≤ n - 1 ∧ n - 1 < 2 ^ 32 by omega)
  have h5 := smear_bounds 16 (smear_bounds 8 (smear_bounds 4 (smear_bounds 2 h1)))
  omega

lemma ensuredStrCap_le {cap needed c : ℕ} (hlt : needed < 2 ^ 32) (h : ensuredStrCap cap needed = some c) :
    cap ≤ c := by
  simp only [ensuredStrCap] at h
  by_cases h1 : needed ≤ cap
  · simp only [h1, if_true, some.injEq] at h
    omega
  · by_cases h2 : strCapMax ≤ cap
    · simp [h1, h2] at h
    · by_cases h3 : needed ≤ cap * 2
      · simp only [h1, h2, h3, if_true, if_false, some.injEq] at h
        omega
      · by_cases h4 : roundUpPow2 needed = 0
        · simp [h1, h2, h3, h4] at h
        · have := le_roundUpPow2 (by omega) hlt h4
          simp only [h1, h2, h3, h4, if_false, some.injEq] at h
          omega

lemma bucketsFor_lt {raw : Library.Binary64.Double} {cap : ℕ} (h : bucketsFor raw = some cap) : cap < 2 ^ 32 := by
  simp only [bucketsFor] at h
  split at h
  · split_ifs at h
    rw [← some.inj h]
    exact roundUpPow2_lt _
  · cases h

lemma raySymEnsureCap_indexed (h : Indexed T) (n : UInt32) :
    ∃ ok T', raySymEnsureCap T n = some (ok, T') ∧ Indexed T' ∧ T'.slots = T.slots ∧ T'.lazy = T.lazy := by
  cases hcap : ensuredStrCap T.strCap n.toNat with
  | none => exact ⟨false, T, by simp [raySymEnsureCap, hcap], h, rfl, rfl⟩
  | some cap =>
    have hi : Indexed { T with strCap := cap } := h.congr rfl rfl (ensuredStrCap_le n.toNat_lt hcap)
    cases hb : bucketsFor (rawBuckets n.toNat) with
    | none => exact ⟨false, _, by simp [raySymEnsureCap, hcap, hb], hi, rfl, rfl⟩
    | some bcap =>
      obtain ⟨b, hgb, -, hi'⟩ := growBuckets_spec hi (bucketsFor_lt hb)
      exact ⟨true, _, by simp [raySymEnsureCap, hcap, hb, hgb], hi', rfl, rfl⟩

lemma raySymEnsureCap_spec (h : Stands T rows) (n : UInt32) :
    ∃ ok T', raySymEnsureCap T n = some (ok, T') ∧ Stands T' rows := by
  obtain ⟨ok, T', hc, hi, hs, hl⟩ := raySymEnsureCap_indexed h.indexed n
  exact ⟨ok, T', hc, hi, by rw [hs, h.views], by simpa [hl] using h.unread, by simpa [hl] using h.mapped⟩

inductive InternKind
  | locked
  | runtime
  | prehashed
  | noSplit

def internBy : InternKind → SymTable → Bytes → Option (Option ℕ × SymTable)
  | .locked, T, s => raySymIntern T s
  | .runtime, T, s => raySymInternRuntime T s
  | .prehashed, T, s => raySymInternPrehashed T (symHash s) s
  | .noSplit, T, s => raySymInternNoSplit T s

inductive Op
  | intern (kind : InternKind) (s : Bytes)
  | rebuildSegments
  | ensureCap (needed : UInt32)
  | load (file : Bytes)
  | str (id : ℕ)
  | find (s : Bytes)

def step (T : SymTable) : Op → Option SymTable
  | .intern kind s => (internBy kind T s).map Prod.snd
  | .rebuildSegments => (raySymRebuildSegments T).map Prod.snd
  | .ensureCap needed => (raySymEnsureCap T needed).map Prod.snd
  | .load file =>
    match raySymLoad T file with
    | some (.ok, T') => some T'
    | _ => none
  | .str id => (raySymStr T id).map Prod.snd
  | .find s => (raySymFind T s).map Prod.snd

def StepOk (T : SymTable) : Op → Prop
  | .intern .locked s => InternOk true s (rowsOf T)
  | .intern .prehashed s => InternOk true s (rowsOf T)
  | .intern .runtime s => InternOk false s (rowsOf T)
  | .rebuildSegments => RebuildOk (rowsOf T)
  | .load file => LoadOk file (rowsOf T)
  | _ => True

def Leads : SymTable → SymTable → Prop :=
  Relation.ReflTransGen fun T T' => ∃ op, step T op = some T'

def LeadsOk : SymTable → SymTable → Prop :=
  Relation.ReflTransGen fun T T' => ∃ op, StepOk T op ∧ step T op = some T'

def initTable : SymTable := raySymInit.elim emptyTable Prod.snd

def strOf (T : SymTable) (i : ℕ) : Option Bytes := (raySymStr T i).bind Prod.fst

def findOf (T : SymTable) (s : Bytes) : Option ℕ := (raySymFind T s).bind Prod.fst

lemma internBy_keeps (h : Stands T rows) (hn : (names rows).Nodup) {kind : InternKind}
    (hok : StepOk T (.intern kind s)) :
    ∃ r T' rows', internBy kind T s = some (r, T') ∧ Keeps T rows T' rows' ∧ ∀ i, r = some i →
    (names rows')[i]? = some s := by
  cases kind with
  | locked => exact symInternNolock_keeps h hn (h.rowsOf ▸ hok)
  | prehashed => exact symInternNolock_keeps h hn (h.rowsOf ▸ hok)
  | runtime => exact symInternNolock_keeps h hn (h.rowsOf ▸ hok)
  | noSplit =>
    obtain ⟨r, T', hint, hnone, hsome⟩ := symInternNolockNoseg_spec h s
    cases r with
    | none =>
      obtain ⟨rows', hs, he⟩ := hnone rfl
      exact ⟨none, T', rows', hint, hs.keeps_of_names hn he, by simp⟩
    | some i =>
      obtain ⟨hs, hi⟩ := hsome i rfl
      refine ⟨some i, T', _, hint, internPlain_keeps hn hs, ?_⟩
      intro j hj
      obtain rfl := some.inj hj
      exact hi

lemma step_keeps (h : Stands T rows) (hn : (names rows).Nodup) {op : Op} (hok : StepOk T op)
    (hstep : step T op = some T') : ∃ rows', Keeps T rows T' rows' := by
  cases op with
  | intern kind s =>
    obtain ⟨r, T1, rows', hint, hk, -⟩ := internBy_keeps h hn hok
    simp only [step, hint, map_some, some.injEq] at hstep
    exact ⟨rows', hstep ▸ hk⟩
  | rebuildSegments =>
    obtain ⟨err, T1, rows', hre, hk⟩ := raySymRebuildSegments_keeps h hn (h.rowsOf ▸ hok)
    simp only [step, hre, map_some, some.injEq] at hstep
    exact ⟨rows', hstep ▸ hk⟩
  | ensureCap needed =>
    obtain ⟨ok, T1, hcap, hs⟩ := raySymEnsureCap_spec h needed
    simp only [step, hcap, map_some, some.injEq] at hstep
    exact ⟨rows, hstep ▸ hs.keeps_of_names hn rfl⟩
  | load file =>
    simp only [step] at hstep
    split at hstep
    · rename_i T1 hload
      obtain rfl := some.inj hstep
      exact raySymLoad_keeps h hn (h.rowsOf ▸ hok) hload
    · cases hstep
  | str id =>
    obtain ⟨T1, rows', hstr, hs, he⟩ := raySymStr_spec h id
    simp only [step, hstr, map_some, some.injEq] at hstep
    exact ⟨rows', hstep ▸ hs.keeps_of_names hn he⟩
  | find s =>
    obtain ⟨o, T1, rows', hfind, hs, he, -⟩ := raySymFind_spec h hn s
    simp only [step, hfind, map_some, some.injEq] at hstep
    exact ⟨rows', hstep ▸ hs.keeps_of_names hn he⟩

lemma leadsOk_keeps (h : Stands T rows) (hn : (names rows).Nodup) (hrun : LeadsOk T T') :
    ∃ rows', Keeps T rows T' rows' := by
  induction hrun with
  | refl => exact ⟨rows, .refl h hn⟩
  | tail _ hstep ih =>
    obtain ⟨a, ha⟩ := ih
    obtain ⟨op, hok, hs⟩ := hstep
    obtain ⟨b, hb⟩ := step_keeps ha.stands ha.nodup hok hs
    exact ⟨b, ha.trans hb⟩

lemma emptyTable_stands : Stands emptyTable [] := by
  refine ⟨⟨chained_replicate _, ?_, ?_, ?_, ?_, le_refl _, ?_⟩, rfl, by simp, by simp [emptyTable]⟩
  · rw [emptyTable, occupied_replicate]
    rfl
  · show 0 < (replicate symInitCap none).length
    rw [length_replicate]
    decide
  · show symInitCap ≤ (replicate symInitCap none).length
    rw [length_replicate]
  · show (replicate symInitCap none).length < 2 ^ 32
    rw [length_replicate]
    decide
  · intro e
    simp [emptyTable, mem_replicate, SymTable.strAt]

lemma initTable_stands : ∃ rows, Stands initTable rows ∧ (names rows).Nodup ∧ (names rows)[0]? = some [] := by
  have hok : InternOk true [] [] := by decide
  obtain ⟨r, T, rows, hint, hk, hid⟩ := symInternNolock_keeps emptyTable_stands (by simp [names]) hok
  have hr : r = some 0 := by
    have h0 : raySymInit.map Prod.fst = some (some 0) := by decide +kernel
    rw [raySymInit, hint] at h0
    simpa using h0
  have hinit : initTable = T := by simp [initTable, raySymInit, hint]
  exact ⟨rows, hinit ▸ hk.stands, hk.nodup, hid 0 hr⟩

lemma strOf_eq (h : Stands T rows) (i : ℕ) : strOf T i = (names rows)[i]? := by
  obtain ⟨T', rows', hstr, -⟩ := raySymStr_spec h i
  simp [strOf, hstr]

lemma findOf_eq_some (h : Stands T rows) (hn : (names rows).Nodup) {i : ℕ} :
    findOf T s = some i ↔ (names rows)[i]? = some s := by
  obtain ⟨o, T', rows', hfind, -, -, hiff⟩ := raySymFind_spec h hn s
  simp only [findOf, hfind, bind_some]
  exact hiff i

/-- As long as no call creates a name twice, ids and names correspond for good. -/
theorem symbol_table_one_to_one {T : SymTable} (hrun : LeadsOk initTable T) :
    (∀ i < T.count, ∃ s, strOf T i = some s ∧ findOf T s = some i) ∧
    (∀ i j, i < T.count → strOf T i = strOf T j → i = j) ∧
    strOf T 0 = some [] ∧
    (∀ T', LeadsOk T T' → T.count ≤ T'.count ∧ ∀ i < T.count, strOf T' i = strOf T i) ∧
    ∀ kind s i T1, StepOk T (.intern kind s) → internBy kind T s = some (some i, T1) → strOf T1 i = some s ∧
      ∀ T2, LeadsOk T1 T2 → ∀ kind' s' i' T3, StepOk T2 (.intern kind' s') →
        internBy kind' T2 s' = some (some i', T3) → (i = i' ↔ s = s') := by
  obtain ⟨rows0, hs0, hn0, hz0⟩ := initTable_stands
  obtain ⟨rows, hk⟩ := leadsOk_keeps hs0 hn0 hrun
  have hs := hk.stands
  have hn := hk.nodup
  have hcount : T.count = (names rows).length := by simp [names, hs.length]
  refine ⟨?_, ?_, ?_, ?_, ?_⟩
  · intro i hi
    rw [hcount] at hi
    refine ⟨(names rows)[i], ?_, ?_⟩
    · rw [strOf_eq hs, getElem?_eq_getElem hi]
    · rw [findOf_eq_some hs hn, getElem?_eq_getElem hi]
  · intro i j hi he
    rw [strOf_eq hs, strOf_eq hs] at he
    exact (getElem?_inj (hcount ▸ hi) hn).mp he
  · rw [strOf_eq hs]
    exact hk.getElem? hz0
  · intro T' hrun'
    obtain ⟨rows', hk'⟩ := leadsOk_keeps hs hn hrun'
    refine ⟨?_, ?_⟩
    · have := hk'.extends_names.length_le
      simpa [names, hs.length, hk'.stands.length] using this
    · intro i hi
      rw [hcount] at hi
      rw [strOf_eq hs, strOf_eq hk'.stands, getElem?_eq_getElem hi]
      exact hk'.getElem? (getElem?_eq_getElem hi)
  · intro kind s i T1 hok hint
    obtain ⟨r, T1', rows1, hint', hk1, hid⟩ := internBy_keeps hs hn hok
    obtain ⟨rfl, rfl⟩ := Prod.mk.inj (some.inj (hint.symm.trans hint'))
    have hi := hid i rfl
    refine ⟨by rw [strOf_eq hk1.stands, hi], ?_⟩
    intro T2 hrun2 kind' s' i' T3 hok' hint2
    obtain ⟨rows2, hk2⟩ := leadsOk_keeps hk1.stands hk1.nodup hrun2
    obtain ⟨r', T3', rows3, hint3, hk3, hid'⟩ := internBy_keeps hk2.stands hk2.nodup hok'
    obtain ⟨rfl, rfl⟩ := Prod.mk.inj (some.inj (hint2.symm.trans hint3))
    have hi3 : (names rows3)[i]? = some s := (hk2.trans hk3).getElem? hi
    have hi' := hid' i' rfl
    constructor
    · rintro rfl
      exact some.inj (hi3.symm.trans hi')
    · rintro rfl
      exact (getElem?_inj (List.getElem?_eq_some_iff.mp hi3).1 hk3.nodup).mp (hi3.trans hi'.symm)

theorem symbol_table_one_to_one_after_dotted_name : ∃ T, LeadsOk initTable T ∧ T.count = 4 ∧
    ∀ i < T.count, ∃ s, strOf T i = some s ∧ findOf T s = some i := by
  have h : (step initTable (.intern .locked [97, 46, 98])).map SymTable.count = some 4 := by
    decide +kernel
  have hok : InternOk true [97, 46, 98] (rowsOf initTable) := by decide +kernel
  obtain ⟨T, hT, hc⟩ := map_eq_some_iff.mp h
  have hrun : LeadsOk initTable T := .single ⟨.intern .locked [97, 46, 98], hok, hT⟩
  exact ⟨T, hrun, hc, (symbol_table_one_to_one hrun).1⟩

/-- Both segments of `a.a` are probed before either is created. -/
theorem repeated_segment_two_ids : ∃ T, Leads initTable T ∧
    ∃ i j, i < T.count ∧ j < T.count ∧ i ≠ j ∧ strOf T i = some [97] ∧ strOf T j = some [97] := by
  have hrun : ∃ T, step initTable (.intern .locked [97, 46, 97]) = some T ∧
      1 < T.count ∧ 2 < T.count ∧ strOf T 1 = some [97] ∧ strOf T 2 = some [97] := by
    have h : ((step initTable (.intern .locked [97, 46, 97])).map fun T =>
        (decide (1 < T.count), decide (2 < T.count), strOf T 1, strOf T 2)) =
        some (true, true, some [97], some [97]) := by decide +kernel
    obtain ⟨T, hT, he⟩ := map_eq_some_iff.mp h
    simp only [Prod.mk.injEq, decide_eq_true_eq] at he
    exact ⟨T, hT, he⟩
  obtain ⟨T, hT, h1, h2, hs1, hs2⟩ := hrun
  exact ⟨T, .single ⟨_, hT⟩, 1, 2, h1, h2, by decide, hs1, hs2⟩

end Rayforce.Symbol
