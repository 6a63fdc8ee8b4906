import Rayforce.Symbol.Sound

/-! The symbol file, saved and loaded. -/

namespace Rayforce.Symbol

open Library.Words List Option Function

variable {T T' T1 : SymTable} {rows : List Row}
variable {s : Bytes} {i : ℕ}

lemma record_split (hs : s.length < 2 ^ 32) (tail : Bytes) :
    leNat ((record s ++ tail).take 4) = s.length ∧ (record s ++ tail).drop 4 = s ++ tail := by
  have h4 : (leBytes 4 s.length).length = 4 := leBytes_length 4 s.length
  rw [record, append_assoc]
  constructor
  · rw [take_left' h4, leNat_leBytes 4 s.length (by simpa using hs)]
  · rw [drop_left' h4]

lemma record_not_short (s tail : Bytes) : ¬ (record s ++ tail).length < 4 := by
  simp only [record, length_append, leBytes_length]
  omega

lemma readRecords_records (ns : List Bytes) (hns : ∀ s ∈ ns, s.length < 2 ^ 32) (tail : Bytes) :
    readRecords ns.length (ns.flatMap record ++ tail) = some (ns, tail) := by
  induction ns with
  | nil => rfl
  | cons s ns ih =>
    have hs := hns s (by simp)
    obtain ⟨hlen, hdrop⟩ := record_split hs (ns.flatMap record ++ tail)
    have hnot : ¬ (s ++ (ns.flatMap record ++ tail)).length < s.length := by simp
    rw [length_cons, flatMap_cons, append_assoc, readRecords, hlen, hdrop,
      if_neg (record_not_short _ _), if_neg hnot, take_left, drop_left,
      ih fun x hx => hns x (by simp [hx])]
    rfl

lemma length_flatMap_record (ns : List Bytes) :
    (ns.flatMap record).length = (ns.map fun s => 4 + s.length).sum := by
  induction ns with
  | nil => rfl
  | cons s ns ih =>
    simp only [flatMap_cons, length_append, ih, record, leBytes_length, map_cons, sum_cons]

def storedBytes (ns : List Bytes) : ℕ := 12 + (ns.map fun s => 4 + s.length).sum

lemma strlFile_length (ns : List Bytes) : (strlFile ns).length = storedBytes ns := by
  simp only [strlFile, length_append, leBytes_length, length_flatMap_record, storedBytes]

lemma length_le_storedBytes (ns : List Bytes) : 4 * ns.length ≤ storedBytes ns := by
  have : 4 * ns.length ≤ (ns.map fun s => 4 + s.length).sum := by
    induction ns with
    | nil => simp
    | cons s ns ih =>
      simp only [length_cons, map_cons, sum_cons]
      omega
  unfold storedBytes
  omega

lemma strl_header {c : ℕ} (hc : c < 2 ^ 32) (body : Bytes) :
    leNat ((leBytes 4 symStrlMagic ++ leBytes 8 c ++ body).take 4) = symStrlMagic ∧
      leInt (((leBytes 4 symStrlMagic ++ leBytes 8 c ++ body).drop 4).take 8) = c ∧
      (leBytes 4 symStrlMagic ++ leBytes 8 c ++ body).drop 12 = body := by
  have h4 : (leBytes 4 symStrlMagic).length = 4 := leBytes_length _ _
  have h8 : (leBytes 8 c).length = 8 := leBytes_length _ _
  refine ⟨?_, ?_, ?_⟩
  · rw [append_assoc, take_left' h4]
    exact leNat_leBytes _ _ (by decide)
  · rw [append_assoc, drop_left' h4, take_left' h8]
    exact leInt_leBytes _ _ (by norm_num; omega)
  · exact drop_left' (by simp [h4, h8])

lemma strlFile_header (ns : List Bytes) (hcount : ns.length < 2 ^ 32) :
    leNat ((strlFile ns).take 4) = symStrlMagic ∧ leInt (((strlFile ns).drop 4).take 8) = ns.length ∧
      (strlFile ns).drop 12 = ns.flatMap record :=
  strl_header hcount _

lemma raySymLoad_strlFile (T : SymTable) (ns : List Bytes) (hcount : ns.length < 2 ^ 32) :
    raySymLoad T (strlFile ns) =
      if symLazyLoadMinBytes ≤ storedBytes ns then loadLazy T ns.length (ns.flatMap record)
      else loadEager T ns.length (ns.flatMap record) := by
  obtain ⟨hmagic, hdisk, hdrop⟩ := strlFile_header ns hcount
  have hlen := strlFile_length ns
  have h12 : ¬ storedBytes ns < 12 := by
    rw [storedBytes]
    omega
  have hrange : ¬ ((ns.length : ℤ) < 0 ∨ 2 ^ 32 - 1 < (ns.length : ℤ)) := by omega
  simp only [raySymLoad, hlen, if_neg h12, hmagic, ne_eq, not_true_eq_false, if_false, hdisk,
    if_neg hrange, Int.toNat_natCast, hdrop]

lemma mapM_str_eq_some {xs : List Slot} {ns : List Bytes} :
    xs.mapM Slot.str = some ns ↔ xs.map Slot.str = ns.map some := by
  induction xs generalizing ns with
  | nil => cases ns <;> simp
  | cons x xs ih =>
    cases ns with
    | nil => cases hx : x.str <;> cases hm : xs.mapM Slot.str <;> simp [mapM_cons, hx, hm]
    | cons n ns =>
      rw [mapM_cons, map_cons, map_cons, cons.injEq, ← ih]
      cases hx : x.str <;> cases hm : xs.mapM Slot.str <;> simp

lemma materializeForSave_ok (h : Sound T) (hm : materializeForSave T = some (true, T1)) :
    Fills T T1 ∧ (T.lazy = none → T1 = T) ∧
      ∀ l, T.lazy = some l → ∃ fs tail, readRecords (l.count - l.nextId) l.rest = some (fs, tail) ∧
        (∀ k < l.count - l.nextId, T1.strAt (l.nextId + k) = fs[k]?) ∧
        ∀ j, j < l.nextId ∨ l.count ≤ j → T1.strAt j = T.strAt j := by
  obtain ⟨ok, T2, hm2, hf⟩ := materializeForSave_reads h
  obtain ⟨-, rfl⟩ := Prod.mk.inj (some.inj (hm.symm.trans hm2))
  refine ⟨hf.fills, ?_, ?_⟩
  · intro hl
    simpa [materializeForSave, hl] using hm.symm
  · intro l hl
    obtain ⟨hle, hc⟩ := h.covered l hl
    by_cases hrest : l.nextId < l.count
    · obtain ⟨ok, T3, hm3, -, hok⟩ := materializeLoop_reads (l.count - l.nextId) h hl (by omega)
      have hpos : 0 < l.count := by omega
      simp only [materializeForSave, hl, elim_some, hpos, decide_true, if_true, materializeAll,
        symLazyMaterializeTo, show ¬ l.count ≤ l.count - 1 by omega,
        show ¬ l.count - 1 < l.nextId by omega, if_false,
        show l.count - 1 + 1 - l.nextId = l.count - l.nextId by omega, hm3] at hm
      obtain ⟨rfl, rfl⟩ := Prod.mk.inj (some.inj hm)
      obtain ⟨fs, tail, hrec, hstr, hsame⟩ := hok rfl
      exact ⟨fs, tail, hrec, hstr, fun j hj => hsame j (by omega)⟩
    · have hT : T1 = T := by
        by_cases hpos : 0 < l.count
        · simp only [materializeForSave, hl, elim_some, hpos, decide_true, if_true, materializeAll,
            symLazyMaterializeTo, show ¬ l.count ≤ l.count - 1 by omega,
            show l.count - 1 < l.nextId by omega, if_true, if_false] at hm
          exact (Prod.mk.inj (some.inj hm)).2.symm
        · simpa [materializeForSave, hl, hpos] using hm.symm
      rw [show l.count - l.nextId = 0 by omega]
      exact ⟨[], l.rest, rfl, by simp, fun j _ => by rw [hT]⟩

def rowsWith (T : SymTable) (ns : List Bytes) : List Row :=
  List.zipWith (fun n x => ⟨n, x.scanned, x.str.isNone⟩) ns T.slots

lemma names_rowsWith {ns : List Bytes} (h : ns.length = T.count) : names (rowsWith T ns) = ns := by
  apply ext_getElem?
  intro i
  simp only [names, rowsWith, getElem?_map, getElem?_zipWith]
  rcases lt_or_ge i ns.length with hi | hi
  · have hi' : i < T.slots.length := by
      rw [h] at hi
      exact hi
    simp [getElem?_eq_getElem hi, getElem?_eq_getElem hi']
  · simp [getElem?_eq_none hi]

lemma Sound.stands_of_materialize (h : Sound T) (hm : materializeForSave T = some (true, T1))
    {ns : List Bytes} (hns : T1.slots.map Slot.str = ns.map some) :
      Stands T (rowsWith T ns) ∧ names (rowsWith T ns) = ns := by
  obtain ⟨hf, hnone, hsome⟩ := materializeForSave_ok h hm
  have hlen : ns.length = T.count := by
    rw [← hf.count]
    simpa [SymTable.count] using (congrArg List.length hns).symm
  have hat : ∀ i, T1.strAt i = ns[i]? := by
    intro i
    have := congrArg (·[i]?) hns
    simp only [getElem?_map] at this
    cases hx : T1.slots[i]? <;> cases hn : ns[i]? <;> simp_all [SymTable.strAt]
  have hrow : ∀ (i : ℕ) (r : Row), (rowsWith T ns)[i]? = some r → ∃ x : Slot, T.slots[i]? = some x ∧
      ns[i]? = some r.name ∧ r.scanned = x.scanned ∧ r.unread = x.str.isNone := by
    intro i r hr
    simp only [rowsWith, getElem?_zipWith] at hr
    cases hx : T.slots[i]? <;> cases hn : ns[i]? <;> simp_all
    subst hr
    simp
  have hnames := names_rowsWith hlen
  refine ⟨⟨h.indexed, ?_, ?_, ?_⟩, hnames⟩
  · apply ext_getElem?
    intro i
    simp only [getElem?_map, rowsWith, getElem?_zipWith]
    cases hx : T.slots[i]? with
    | none => cases ns[i]? <;> rfl
    | some x =>
      have hi : i < ns.length := by
        rw [hlen]
        exact (List.getElem?_eq_some_iff.mp hx).1
      rw [getElem?_eq_getElem hi]
      cases hs : x.str with
      | none => simp [Row.str, hs]
      | some s =>
        have hstr : T1.strAt i = some s := hf.grows.keeps i s (by simp [SymTable.strAt, hx, hs])
        rw [hat, getElem?_eq_getElem hi] at hstr
        simp [Row.str, hs, some.inj hstr]
  · intro i r hr hu
    obtain ⟨x, hx, hn, -, hread⟩ := hrow i r hr
    have hTi : T.strAt i = none := by
      rw [hread, isNone_iff_eq_none] at hu
      simp [SymTable.strAt, hx, hu]
    have hne : T1.strAt i ≠ T.strAt i := by simp [hat, hn, hTi]
    cases hl : T.lazy with
    | none => exact absurd (by rw [hnone hl]) hne
    | some l =>
      obtain ⟨fs, tail, -, -, hsame⟩ := hsome l hl
      have := mt (hsame i) hne
      exact ⟨l, rfl, by omega, by omega⟩
  · intro l hl
    obtain ⟨hle, hc⟩ := h.covered l hl
    obtain ⟨fs, tail, hrec, hstr, -⟩ := hsome l hl
    have hfs := readRecords_length hrec
    have hrows : (rowsWith T ns).length = T.count := by
      have := congrArg List.length hnames
      simpa [names, hlen] using this
    refine ⟨hle, hrows ▸ hc, tail, ?_⟩
    rw [hrec]
    congr 2
    apply ext_getElem?
    intro k
    have hmap : names (((rowsWith T ns).take l.count).drop l.nextId) = (ns.take l.count).drop l.nextId := by
      rw [names, map_drop, map_take]
      exact congrArg (fun a => (a.take l.count).drop l.nextId) hnames
    rw [hmap, getElem?_drop]
    rcases lt_or_ge k (l.count - l.nextId) with hk | hk
    · rw [← hstr k hk, hat, getElem?_take_of_lt (by omega)]
    · rw [getElem?_eq_none (by omega), getElem?_eq_none (by simp; omega)]

lemma raySymSave_stands (h : Sound T) {file : Bytes} (hs : raySymSave T = some (.ok, some file, T1)) :
    ∃ rows, Stands T rows ∧ file = strlFile (names rows) ∧ ∀ s ∈ names rows, s.length < 2 ^ 32 := by
  obtain ⟨ok, T2, hm, hf⟩ := materializeForSave_reads h
  simp only [raySymSave, hm, bind_eq_bind, bind_some] at hs
  cases ok with
  | false => simp at hs
  | true =>
    cases hn : T2.slots.mapM Slot.str with
    | none => simp [hn] at hs
    | some ns =>
      obtain ⟨hst, hnames⟩ := h.stands_of_materialize hm (mapM_str_eq_some.mp hn)
      simp only [hn, Bool.true_eq_false, if_false] at hs
      split_ifs at hs with hlong
      · simp at hs
      · simp only [Option.pure_def, some.injEq, Prod.mk.injEq, true_and] at hs
        refine ⟨_, hst, by rw [hnames, ← hs.1], ?_⟩
        intro s hmem
        rw [hnames] at hmem
        by_contra hge
        exact hlong (any_eq_true.mpr ⟨s, hmem, by simpa using hge⟩)

lemma Stands.materializeForSave (h : Stands T rows) :
    ∃ T', materializeForSave T = some (true, T') ∧ Stands T' (readAll rows) := by
  cases hl : T.lazy with
  | none =>
    have hp : T.pending = false := by simp [SymTable.pending, hl]
    exact ⟨T, by simp [Symbol.materializeForSave, hl], by rwa [h.hidden_eq_nil hp]⟩
  | some l =>
    by_cases hpos : 0 < l.count
    · obtain ⟨T', hm, hs⟩ := symLazyMaterializeTo_spec h hl (show l.count - 1 < l.count by omega)
      rw [show l.count - 1 + 1 = l.count by omega, h.readUpTo_count hl] at hs
      exact ⟨T', by simp [Symbol.materializeForSave, hl, hpos, materializeAll, hm], hs⟩
    · have hp : T.pending = false := by
        simp only [SymTable.pending, hl, elim_some, decide_eq_false_iff_not]
        omega
      exact ⟨T, by simp [Symbol.materializeForSave, hl, hpos], by rwa [h.hidden_eq_nil hp]⟩

lemma Stands.save (h : Stands T rows) (hlen : ∀ s ∈ names rows, s.length < 2 ^ 32) :
    ∃ T', raySymSave T = some (.ok, some (strlFile (names rows)), T') := by
  obtain ⟨T', hm, hs⟩ := h.materializeForSave
  have hn : T'.slots.mapM Slot.str = some (names rows) := by
    rw [mapM_str_eq_some]
    have := congrArg (map Prod.fst) hs.views
    simpa [readAll, names, Row.str, comp_def] using this
  have hshort : ¬ ((names rows).any fun s => decide (2 ^ 32 ≤ s.length)) = true := by
    intro hany
    obtain ⟨s, hmem, hlong⟩ := any_eq_true.mp hany
    have := hlen s hmem
    simp only [decide_eq_true_eq] at hlong
    omega
  refine ⟨T', ?_⟩
  simp only [raySymSave, hm, bind_eq_bind, bind_some, hn, hshort]
  rfl

def rawSlot (s : Bytes) : Slot := { emptySlot with str := some s }

lemma initTable_shape : initTable.slots = [plainSlot []] ∧ initTable.lazy = none ∧
    initTable.buckets.length = symInitCap := by decide +kernel

lemma noSplit_new (hi : Indexed T) (hl : T.lazy = none) (hs : s ∉ held T) (hc : T.count < 2 ^ 30) :
    ∃ T', raySymInternNoSplit T s = some (some T.count, T') ∧ Indexed T' ∧ T'.lazy = none ∧
      T'.slots = T.slots ++ [rawSlot s] := by
  obtain ⟨o, hp, hsome, -⟩ := symProbe_spec hi s
  cases o with
  | some i => exact absurd (mem_held.mpr ⟨i, hsome i rfl⟩) hs
  | none =>
    obtain ⟨r, T', hcm, hi', hl', hnone, hsm⟩ := symCommitNew_spec hi s
    have hpend : T.pending = false := by simp [SymTable.pending, hl]
    cases r with
    | none =>
      have := (hnone rfl).2
      omega
    | some j =>
      obtain ⟨rfl, hslots⟩ := hsm j rfl
      exact ⟨T', by simp [raySymInternNoSplit, symInternNolockNoseg, hp, hpend, hcm], hi', hl'.trans hl,
        hslots⟩

lemma loadEntries_record {s tail : Bytes} (hs : s.length < 2 ^ 32) (n i : ℕ) {id : ℕ}
    (hint : raySymInternNoSplit T s = some (some id, T')) : loadEntries (n + 1) i (record s ++ tail) T =
      if id = i then loadEntries n (i + 1) tail T' else some (.corrupt, s ++ tail, T') := by
  obtain ⟨hlen, hdrop⟩ := record_split hs tail
  have hnot : ¬ (s ++ tail).length < s.length := by simp
  simp only [loadEntries, if_neg (record_not_short _ _), hlen, hdrop, if_neg hnot, take_left,
    drop_left, hint, bind_eq_bind, bind_some]
  rfl

lemma loadEntries_new (todo : List Bytes) (hi : Indexed T) (hl : T.lazy = none)
    (hnd : (held T ++ todo).Nodup) (hcount : T.count + todo.length ≤ 2 ^ 30)
    (hlen : ∀ s ∈ todo, s.length < 2 ^ 32) :
    ∃ T', loadEntries todo.length T.count (todo.flatMap record) T = some (.ok, [], T') ∧ Indexed T' ∧
      T'.lazy = none ∧ T'.slots = T.slots ++ todo.map rawSlot := by
  induction todo generalizing T with
  | nil => exact ⟨T, rfl, hi, hl, by simp⟩
  | cons s todo ih =>
    have hs : s ∉ held T := by
      intro hm
      exact (nodup_append.mp hnd).2.2 s hm s (by simp) rfl
    simp only [length_cons] at hcount
    obtain ⟨T1, hint, hi1, hl1, hs1⟩ := noSplit_new hi hl hs (by omega)
    have hheld : held T1 = held T ++ [s] := by simp [held, hs1, rawSlot, emptySlot]
    have hc1 : T1.count = T.count + 1 := by simp [SymTable.count, hs1]
    obtain ⟨T', hl', hi', hlz, hs'⟩ := ih hi1 hl1 (by simpa [hheld] using hnd) (by omega)
      fun x hx => hlen x (by simp [hx])
    refine ⟨T', ?_, hi', hlz, by simp [hs', hs1]⟩
    rw [length_cons, flatMap_cons, loadEntries_record (hlen s (by simp)) _ _ hint, if_pos rfl, ← hc1, hl']

lemma loadEntries_fresh {ns : List Bytes} (hnd : ([] :: ns).Nodup) (hcount : ns.length < 2 ^ 30)
    (hlen : ∀ s ∈ ns, s.length < 2 ^ 32) :
    ∃ T', loadEntries ([] :: ns).length 0 (([] :: ns).flatMap record) initTable = some (.ok, [], T') ∧
      Indexed T' ∧ T'.lazy = none ∧ T'.slots = plainSlot [] :: ns.map rawSlot := by
  obtain ⟨hslots, hlazy, -⟩ := initTable_shape
  obtain ⟨hs, hroot⟩ := initTable_sound
  have hfind : raySymInternNoSplit initTable [] = some (some 0, initTable) := by
    obtain ⟨o, hp, hsome, hnone⟩ := symProbe_spec hs.indexed []
    cases o with
    | none => exact absurd hroot (hnone rfl 0)
    | some i =>
      have hi := strAt_lt (hsome i rfl)
      have hc : initTable.count = 1 := by simp [SymTable.count, hslots]
      obtain rfl : i = 0 := by omega
      simp [raySymInternNoSplit, symInternNolockNoseg, hp]
  have hheld : held initTable = [[]] := by simp [held, hslots, plainSlot]
  have hc : initTable.count = 1 := by simp [SymTable.count, hslots]
  obtain ⟨T', hl, hi, hlz, hsl⟩ := loadEntries_new ns hs.indexed hlazy (by simpa [hheld] using hnd)
    (by omega) hlen
  refine ⟨T', ?_, hi, hlz, by simp [hsl, hslots]⟩
  rw [length_cons, flatMap_cons, loadEntries_record (by simp) _ _ hfind, if_pos rfl, Nat.zero_add, ← hc, hl]

lemma loadEager_nodup {ns : List Bytes} (hlen : ∀ s ∈ ns, s.length < 2 ^ 32)
    (hload : loadEager initTable ns.length (ns.flatMap record) = some (.ok, T')) : ns.Nodup := by
  obtain ⟨rows, hst, hnd, -⟩ := initTable_stands
  obtain ⟨err, rest, T1, hl, -⟩ := loadEntries_grows ns.length 0 (ns.flatMap record) initTable_sound.1
  simp only [loadEager, hl, bind_eq_bind, bind_some] at hload
  by_cases herr : err = .ok
  · subst herr
    obtain ⟨fs, hrec, hk, hpos⟩ := loadEntries_spec ns.length 0 hst hnd hl
    have hread := readRecords_records ns hlen []
    rw [append_nil] at hread
    obtain ⟨rfl, -⟩ := Prod.mk.inj (some.inj (hread.symm.trans hrec))
    have htake : ns = (names (ns.foldl internPlain rows)).take ns.length := by
      apply ext_getElem?
      intro k
      rcases lt_or_ge k ns.length with hk' | hk'
      · rw [getElem?_take_of_lt hk', ← hpos k hk', Nat.zero_add]
      · rw [getElem?_eq_none hk', getElem?_eq_none (by simp; omega)]
    rw [htake]
    exact hk.nodup.sublist (take_sublist _ _)
  · simp [herr] at hload

lemma strs_update (T : SymTable) (i : ℕ) {f : Slot → Slot} (hf : ∀ x, (f x).str = x.str) :
    (T.update i f).slots.map Slot.str = T.slots.map Slot.str := by
  apply ext_getElem?
  intro j
  simp only [SymTable.update, getElem?_map, getElem?_modify]
  cases T.slots[j]? with
  | none => rfl
  | some x => by_cases hij : i = j <;> simp [hij, hf]

lemma symCacheSegments_held (h : Indexed T) (hc : T.count < 2 ^ 30) (i : ℕ)
    (hheld : ∀ gs, dottedSegs s = some gs → ∀ g ∈ gs, g ∈ held T) :
    ∃ T', symCacheSegments T i s = some (true, T') ∧ Indexed T' ∧ T'.lazy = T.lazy ∧
      T'.slots.map Slot.str = T.slots.map Slot.str := by
  have hmiss : ∀ gs, dottedSegs s = some gs → missing T gs = [] := by
    intro gs hgs
    simpa [missing] using hheld gs hgs
  obtain ⟨ok, T', hcs, hi, hcached⟩ := symCacheSegments_spec h i s
  cases hcached with
  | settled => exact ⟨T, hcs, hi, rfl, rfl⟩
  | plain => exact ⟨_, hcs, hi, rfl, strs_update T i fun _ => rfl⟩
  | full gs _ hd _ _ _ hfull =>
    rw [hmiss _ hd, length_nil] at hfull
    omega
  | @cached segs ids T1 _ hd _ hs hl _ =>
    rw [hmiss _ hd, map_nil, append_nil] at hs
    have hstrs : (T1.cacheAt i ids).slots.map Slot.str = T1.slots.map Slot.str :=
      strs_update T1 i fun _ => rfl
    exact ⟨_, hcs, hi, hl, by rw [hstrs, hs]⟩

lemma held_of_strs (h : T'.slots.map Slot.str = T.slots.map Slot.str) :
    T'.count = T.count ∧ held T' = held T ∧ ∀ i, T'.strAt i = T.strAt i := by
  refine ⟨by simpa [SymTable.count] using congrArg length h, ?_, ?_⟩
  · have hfm : ∀ xs : List Slot, xs.filterMap Slot.str = (xs.map Slot.str).filterMap id := by
      intro xs
      rw [filterMap_map]
      rfl
    rw [held, hfm, h, ← hfm, held]
  · intro i
    have := congrArg (·[i]?) h
    simp only [getElem?_map] at this
    cases h1 : T'.slots[i]? <;> cases h2 : T.slots[i]? <;> simp_all [SymTable.strAt]

lemma rebuildLoop_held (is : List ℕ) (h : Indexed T) (hc : T.count < 2 ^ 30)
    (hheld : ∀ i s gs, T.strAt i = some s → dottedSegs s = some gs → ∀ g ∈ gs, g ∈ held T) :
    ∃ T', rebuildLoop is T = some (.ok, T') ∧ T'.lazy = T.lazy ∧ T'.slots.map Slot.str = T.slots.map Slot.str := by
  induction is generalizing T with
  | nil => exact ⟨T, rfl, rfl, rfl⟩
  | cons i is ih =>
    cases hsc : T.isScanned i with
    | true =>
      obtain ⟨T', hr, hrest⟩ := ih h hc hheld
      exact ⟨T', by simp [rebuildLoop, hsc, hr], hrest⟩
    | false =>
      cases hstr : T.strAt i with
      | none =>
        obtain ⟨T', hr, hrest⟩ := ih h hc hheld
        exact ⟨T', by simp [rebuildLoop, hsc, hstr, hr], hrest⟩
      | some s =>
        obtain ⟨T1, hcs, hi1, hl1, hs1⟩ := symCacheSegments_held h hc i fun gs => hheld i s gs hstr
        obtain ⟨hcount, hh, hat⟩ := held_of_strs hs1
        obtain ⟨T', hr, hl', hs'⟩ := ih hi1 (by omega) (by simpa only [hat, hh] using hheld)
        exact ⟨T', by simp [rebuildLoop, hsc, hstr, hcs, hr], hl'.trans hl1, hs'.trans hs1⟩

lemma symCacheSegments_flags (h : Sound T) (hsc : T.isScanned i = false)
    (hstr : T.strAt i = some s) (hcs : symCacheSegments T i s = some (true, T')) :
    raySymIsDotted T' i = (dottedSegs s).isSome ∧ T.count ≤ T'.count ∧ ∀ j < T.count, j ≠ i →
      T'.slots[j]? = T.slots[j]? := by
  have hi : i < T.count := strAt_lt hstr
  obtain ⟨x, hx⟩ : ∃ x, T.slots[i]? = some x := ⟨_, getElem?_eq_getElem hi⟩
  obtain ⟨ok, T1, hcs1, -, hcached⟩ := symCacheSegments_spec h.indexed i s
  obtain ⟨rfl, rfl⟩ := Prod.mk.inj (some.inj (hcs.symm.trans hcs1))
  cases hcached with
  | settled hs =>
    rw [hsc] at hs
    cases hs
  | plain _ hd =>
    refine ⟨?_, by simp [SymTable.count, SymTable.markScanned, SymTable.update], ?_⟩
    · have hflags := h.flags x (mem_of_getElem? hx)
      have hxs : x.str = some s := by simpa [SymTable.strAt, hx] using hstr
      have hdot : x.dotted = false := by
        by_contra hdot
        simp [FlagsOk, hdot, hxs, hd] at hflags
      simp [raySymIsDotted, SymTable.markScanned, SymTable.update, hx, hdot, hd]
    · intro j _ hj
      simp [SymTable.markScanned, SymTable.update, Ne.symm hj]
  | @cached segs ids T2 _ hd _ hs _ _ =>
    refine ⟨?_, by simp [SymTable.count, SymTable.cacheAt, SymTable.update, hs], ?_⟩
    · have hi' : i < T.slots.length := hi
      simp [raySymIsDotted, SymTable.cacheAt, SymTable.update, hs, getElem?_append_left hi', hx, hd]
    · intro j hj hji
      have hj' : j < T.slots.length := hj
      simp [SymTable.cacheAt, SymTable.update, Ne.symm hji, hs, getElem?_append_left hj']

lemma rebuildLoop_flags (is : List ℕ) (h : Sound T) (hnd : is.Nodup) (hlt : ∀ i ∈ is, i < T.count)
    (hr : rebuildLoop is T = some (.ok, T')) :
      T.count ≤ T'.count ∧ (∀ j < T.count, j ∉ is → T'.slots[j]? = T.slots[j]?) ∧
      ∀ i ∈ is, ∀ s, T.isScanned i = false → T.strAt i = some s → raySymIsDotted T' i = (dottedSegs s).isSome := by
  induction is generalizing T with
  | nil =>
    simp only [rebuildLoop, some.injEq, Prod.mk.injEq, true_and] at hr
    subst hr
    simp
  | cons i is ih =>
    obtain ⟨hni, hnd'⟩ := nodup_cons.mp hnd
    have hlt' : ∀ j ∈ is, j < T.count := fun j hj => hlt j (by simp [hj])
    have hskip : (T.isScanned i = true ∨ T.strAt i = none) → rebuildLoop is T = some (.ok, T') →
        T.count ≤ T'.count ∧ (∀ j < T.count, j ∉ i :: is → T'.slots[j]? = T.slots[j]?) ∧
          ∀ k ∈ i :: is, ∀ s, T.isScanned k = false → T.strAt k = some s →
            raySymIsDotted T' k = (dottedSegs s).isSome := by
      intro hcase hr'
      obtain ⟨hc, hsame, hflag⟩ := ih h hnd' hlt' hr'
      refine ⟨hc, fun j hj hn => hsame j hj fun hm => hn (by simp [hm]), ?_⟩
      intro k hk s hsc hstr
      rcases mem_cons.mp hk with rfl | hk
      · rcases hcase with hcase | hcase
        · rw [hsc] at hcase
          cases hcase
        · rw [hstr] at hcase
          cases hcase
      · exact hflag k hk s hsc hstr
    cases hsc : T.isScanned i with
    | true => exact hskip (.inl hsc) (by simpa [rebuildLoop, hsc] using hr)
    | false =>
      cases hstr : T.strAt i with
      | none => exact hskip (.inr hstr) (by simpa [rebuildLoop, hsc, hstr] using hr)
      | some s =>
        obtain ⟨ok, T1, hcs, hg⟩ := symCacheSegments_grows h hstr
        simp only [rebuildLoop, hsc, hstr, hcs, bind_eq_bind, bind_some, Bool.false_eq_true, if_false] at hr
        cases ok with
        | false => simp at hr
        | true =>
          simp only [if_true] at hr
          obtain ⟨hdot, hc1, hother⟩ := symCacheSegments_flags h hsc hstr hcs
          obtain ⟨hc2, hsame, hflag⟩ := ih hg.sound hnd' (fun j hj => (hlt' j hj).trans_le hc1) hr
          refine ⟨hc1.trans hc2, ?_, ?_⟩
          · intro j hj hn
            rw [hsame j (hj.trans_le hc1) fun hm => hn (by simp [hm]),
              hother j hj fun he => hn (by simp [he])]
          · intro k hk s' hsc' hstr'
            rcases mem_cons.mp hk with rfl | hk
            · obtain rfl : s = s' := some.inj (hstr.symm.trans hstr')
              rw [← hdot, raySymIsDotted, raySymIsDotted, hsame k ((hlt k (by simp)).trans_le hc1) hni]
            · have hki : k ≠ i := fun he => hni (he ▸ hk)
              have hslot := hother k (hlt' k hk) hki
              refine hflag k hk s' ?_ ?_
              · rw [SymTable.isScanned, hslot]
                exact hsc'
              · rw [SymTable.strAt, hslot]
                exact hstr'

lemma bucketTarget_le {need fuel k t : ℕ} (hk : k ≤ 31) (h : bucketTarget need fuel (2 ^ k) = some t) :
    t ≤ bucketCapMax := by
  induction fuel generalizing k with
  | zero => simp [bucketTarget] at h
  | succ fuel ih =>
    rw [bucketTarget] at h
    by_cases hfull : 2 ^ k * 70 ≤ need * 100
    · by_cases hmax : bucketCapMax ≤ 2 ^ k
      · simp [hfull, hmax] at h
      · have hlt : k < 31 := by
          by_contra hge
          have hk' : k = 31 := by omega
          rw [hk'] at hmax
          exact hmax le_rfl
        simp only [hfull, hmax, if_true, if_false] at h
        exact ih (show k + 1 ≤ 31 by omega) (by rwa [pow_succ])
    · simp only [hfull, if_false, some.injEq] at h
      rw [← h, bucketCapMax]
      exact Nat.pow_le_pow_right (by omega) hk

lemma symReserveCapacity_bound {n : ℕ} (hlen : T.buckets.length = symInitCap)
    (h : symReserveCapacity T n = some (true, T')) : (T.count + n) * 100 < bucketCapMax * 70 := by
  simp only [symReserveCapacity] at h
  cases ht : bucketTarget (T.count + n) 33 T.buckets.length with
  | none => simp [ht] at h
  | some t =>
    obtain ⟨hneed, -⟩ := bucketTarget_spec ht
    rw [hlen, show symInitCap = 2 ^ 8 by rfl] at ht
    have := bucketTarget_le (by omega) ht
    omega

lemma reserveFor_initTable (n : ℕ) :
    ∃ ok T1, reserveFor initTable n = some (ok, T1) ∧ (ok = true ↔ n * 100 < bucketCapMax * 70) := by
  obtain ⟨hslots, -, hlen⟩ := initTable_shape
  have hc : initTable.count = 1 := by simp [SymTable.count, hslots]
  by_cases hn : initTable.count < n
  · obtain ⟨ok, T1, hr, -, -, -, -, hok⟩ :=
      symReserveCapacity_spec initTable_sound.1.indexed (n - initTable.count)
    refine ⟨ok, T1, by simp [reserveFor, hn, hr], ?_, ?_⟩
    · rintro rfl
      have := symReserveCapacity_bound hlen hr
      rwa [show initTable.count + (n - initTable.count) = n by omega] at this
    · intro h
      exact hok (by rwa [show initTable.count + (n - initTable.count) = n by omega])
  · refine ⟨true, initTable, by simp [reserveFor, hn], ?_⟩
    simp only [true_iff, bucketCapMax]
    omega

lemma loadLazy_flags {n : ℕ} {rest : Bytes} (hload : loadLazy initTable n rest = some (.ok, T')) :
    ∀ x ∈ flagsOf T', x = (false, []) := by
  obtain ⟨hslots, -⟩ := initTable_shape
  obtain ⟨ok, T1, hr, hi, hs1, -, hroom⟩ := reserveFor_spec initTable_sound.1.indexed n
  obtain ⟨ok', T1', hr', hg1, hroom'⟩ := reserveFor_grows initTable_sound.1 n
  obtain ⟨rfl, rfl⟩ := Prod.mk.inj (some.inj (hr.symm.trans hr'))
  simp only [loadLazy, hr, bind_eq_bind, bind_some] at hload
  cases ok with
  | false => simp at hload
  | true =>
    have hg2 := hg1.trans (mapFile_grows hg1.sound rest (hroom rfl))
    obtain ⟨ok, T3, hv, hf⟩ := validateMap_reads hg2.sound (min initTable.count n)
    simp only [Bool.true_eq_false, if_false, hv, bind_some] at hload
    cases ok with
    | false => simp at hload
    | true =>
      simp only [if_true, Option.pure_def, some.injEq, Prod.mk.injEq, true_and] at hload
      subst hload
      rw [hf.fills.flags, flagsOf, mapFile, hs1, hslots]
      simp only [map_append, map_cons, map_nil, map_replicate, mem_append, mem_singleton]
      rintro x (rfl | hx)
      · rfl
      · exact eq_of_mem_replicate hx

lemma loadLazy_fresh {ns : List Bytes} (hns : ns[0]? = some []) (hlen : ∀ s ∈ ns, s.length < 2 ^ 32)
    (hcount : ns.length * 100 < bucketCapMax * 70) :
    ∃ T' rows, loadLazy initTable ns.length (ns.flatMap record) = some (.ok, T') ∧ Stands T' rows ∧
      names rows = ns := by
  obtain ⟨hslots, hlazy, -⟩ := initTable_shape
  obtain ⟨rows, hst, -, hroot⟩ := initTable_stands
  have hc : initTable.count = 1 := by simp [SymTable.count, hslots]
  have hr1 : rows.length = 1 := hst.length.trans hc
  have hn1 : 0 < ns.length := (List.getElem?_eq_some_iff.mp hns).1
  have hrows : names rows = [[]] := by
    apply ext_getElem?
    intro i
    cases i with
    | zero => simpa using hroot
    | succ i => simp [names, hr1]
  obtain ⟨ok, T1, hres, hi1, hs1, -, hroom⟩ := reserveFor_spec hst.indexed ns.length
  obtain ⟨ok', T1', hres', hiff⟩ := reserveFor_initTable ns.length
  obtain ⟨rfl, rfl⟩ := Prod.mk.inj (some.inj (hres.symm.trans hres'))
  obtain rfl := hiff.mpr hcount
  have hrec := readRecords_records ns hlen []
  rw [append_nil] at hrec
  have hmap := hst.mapFile hi1 hs1 (hroom rfl) hrec ?_ ?_
  · have hnames : names (rows ++ (ns.drop rows.length).map fun f => (⟨f, false, true⟩ : Row)) = ns := by
      rw [names_append, hrows, hr1]
      cases ns with
      | nil => simp at hn1
      | cons s ns =>
        obtain rfl : s = [] := by simpa using hns
        simp [names, comp_def]
    obtain ⟨T2, hm, hs2⟩ := symLazyMaterializeTo_spec hmap rfl (show 0 < ns.length from hn1)
    refine ⟨T2, _, ?_, hs2, by simpa using hnames⟩
    have hmin : min initTable.count ns.length = 1 := by omega
    simp [loadLazy, hres, hmin, validateMap, hm]
  · intro i r hr hu
    obtain ⟨l, hl, -⟩ := hst.unread i r hr hu
    rw [hlazy] at hl
    cases hl
  · intro i hi
    obtain rfl : i = 0 := by omega
    rw [hns, hrows]
    rfl

section

structure SameSymbols (T T2 : SymTable) : Prop where
  count : T2.count = T.count
  str : ∀ i, strOf T2 i = strOf T i
  dotted : ∀ i, raySymIsDotted T2 i = raySymIsDotted T i
  segs : ∀ i, raySymSegs T2 i = raySymSegs T i

def RoundTrips (T : SymTable) (file : Bytes) : Prop :=
  ∃ T2, raySymLoad initTable file = some (.ok, T2) ∧ SameSymbols T T2 ∧
    ∃ T3, raySymSave T2 = some (.ok, some file, T3)

def contents (T : SymTable) : List Bytes := (List.range T.count).map fun i => (strOf T i).getD []

def Restorable (T : SymTable) : Prop :=
  if storedBytes (contents T) < symLazyLoadMinBytes then
    (contents T).Nodup ∧ ∀ i s, strOf T i = some s → (dottedSegs s).isSome → raySymIsDotted T i = true
  else T.count * 100 < bucketCapMax * 70 ∧ ∀ i, raySymIsDotted T i = false

lemma Stands.contents (h : Stands T rows) : contents T = names rows := by
  have hlen : (names rows).length = T.count := by simp [names, h.length]
  apply ext_getElem?
  intro i
  rw [Symbol.contents, getElem?_map]
  rcases lt_or_ge i T.count with hi | hi
  · rw [getElem?_range hi, map_some, strOf_eq h, getElem?_eq_getElem (hlen ▸ hi)]
    rfl
  · rw [getElem?_eq_none (by simpa using hi), getElem?_eq_none (by omega)]
    rfl

lemma raySymIsDotted_spec (h : Sound T) (hd : raySymIsDotted T i = true) :
    ∃ s gs, T.strAt i = some s ∧ dottedSegs s = some gs ∧ (raySymSegs T i).map T.strAt = gs.map some := by
  cases hx : T.slots[i]? with
  | none => simp [raySymIsDotted, hx] at hd
  | some x =>
    have hxd : x.dotted = true := by simpa [raySymIsDotted, hx] using hd
    have hflags := h.flags x (mem_of_getElem? hx)
    simp only [FlagsOk, hxd, if_true] at hflags
    obtain ⟨s, gs, hs, hg, hm⟩ := hflags
    exact ⟨s, gs, by simp [SymTable.strAt, hx, hs], hg, by simpa [raySymSegs, hx] using hm⟩

lemma raySymSegs_of_not_dotted (h : Sound T) (hd : raySymIsDotted T i = false) : raySymSegs T i = [] := by
  cases hx : T.slots[i]? with
  | none => simp [raySymSegs, hx]
  | some x =>
    have hxd : x.dotted = false := by simpa [raySymIsDotted, hx] using hd
    have hflags := h.flags x (mem_of_getElem? hx)
    simpa [FlagsOk, hxd, raySymSegs, hx] using hflags

lemma raySymSegs_congr {T2 : SymTable} {ns : List Bytes} (h : Sound T) (h2 : Sound T2) (hnd : ns.Nodup)
    (hat : ∀ i s, T.strAt i = some s → ns[i]? = some s) (hat2 : ∀ i s, T2.strAt i = some s → ns[i]? = some s)
    (hd : raySymIsDotted T2 i = raySymIsDotted T i) : raySymSegs T2 i = raySymSegs T i := by
  cases hdot : raySymIsDotted T i with
  | false => rw [raySymSegs_of_not_dotted h hdot, raySymSegs_of_not_dotted h2 (hd.trans hdot)]
  | true =>
    obtain ⟨s, gs, hs, hg, hm⟩ := raySymIsDotted_spec h hdot
    obtain ⟨s2, gs2, hs2, hg2, hm2⟩ := raySymIsDotted_spec h2 (hd.trans hdot)
    obtain rfl : s = s2 := some.inj ((hat i s hs).symm.trans (hat2 i s2 hs2))
    obtain rfl : gs = gs2 := some.inj (hg.symm.trans hg2)
    apply ext_getElem?
    intro k
    have hk := congrArg (·[k]?) hm
    have hk2 := congrArg (·[k]?) hm2
    simp only [getElem?_map] at hk hk2
    cases hgk : gs[k]? with
    | none =>
      rw [hgk] at hk hk2
      rw [map_eq_none_iff.mp hk, map_eq_none_iff.mp hk2]
    | some g =>
      rw [hgk] at hk hk2
      obtain ⟨a, ha, hag⟩ := map_eq_some_iff.mp hk
      obtain ⟨b, hb, hbg⟩ := map_eq_some_iff.mp hk2
      have hna := hat a g hag
      have hnb := hat2 b g hbg
      rw [ha, hb, (getElem?_inj (List.getElem?_eq_some_iff.mp hna).1 hnd).mp (hna.trans hnb.symm)]

lemma dotted_eq_of_flagged (h : Sound T) (hat : ∀ s', T.strAt i = some s' → s' = s)
    (hflag : (dottedSegs s).isSome → raySymIsDotted T i = true) : raySymIsDotted T i = (dottedSegs s).isSome := by
  cases hd : raySymIsDotted T i with
  | true =>
    obtain ⟨s', gs, hs', hg, -⟩ := raySymIsDotted_spec h hd
    rw [← hat s' hs', hg]
    rfl
  | false =>
    cases hg : (dottedSegs s).isSome with
    | false => rfl
    | true =>
      rw [hflag hg] at hd
      cases hd

structure Listed (T : SymTable) (ns : List Bytes) : Prop where
  sound : Sound T
  lazy : T.lazy = none
  slots : T.slots = plainSlot [] :: ns.map rawSlot

lemma Listed.strAt {ns : List Bytes} (h : Listed T ns) (i : ℕ) : T.strAt i = ([] :: ns)[i]? := by
  cases i with
  | zero => simp [SymTable.strAt, h.slots, plainSlot]
  | succ i =>
    simp only [SymTable.strAt, h.slots, getElem?_cons_succ, getElem?_map]
    cases ns[i]? <;> rfl

lemma Listed.isScanned {ns : List Bytes} (h : Listed T ns) (i : ℕ) : T.isScanned (i + 1) = false := by
  simp only [SymTable.isScanned, h.slots, getElem?_cons_succ, getElem?_map]
  cases ns[i]? <;> rfl

lemma Listed.held {ns : List Bytes} (h : Listed T ns) : held T = [] :: ns := by
  have hraw : ns.filterMap (Slot.str ∘ rawSlot) = ns := filterMap_some
  rw [Symbol.held, h.slots, filterMap_cons, filterMap_map, hraw]
  rfl

lemma Listed.count {ns : List Bytes} (h : Listed T ns) : T.count = ns.length + 1 := by
  simp [SymTable.count, h.slots]

lemma loadEager_listed {ns : List Bytes} (hnd : ([] :: ns).Nodup) (hcount : ns.length < 2 ^ 30)
    (hlen : ∀ s ∈ ns, s.length < 2 ^ 32) :
    ∃ T1, Listed T1 ns ∧ loadEager initTable ([] :: ns).length (([] :: ns).flatMap record) =
      rebuildLoop (List.range T1.count) T1 := by
  obtain ⟨T1, hl, -, hlazy, hslots⟩ := loadEntries_fresh hnd hcount hlen
  obtain ⟨err, rest, T1', hl', hg⟩ := loadEntries_grows ([] :: ns).length 0 (([] :: ns).flatMap record)
    initTable_sound.1
  have hT : T1 = T1' := by
    rw [hl, some.injEq, Prod.mk.injEq, Prod.mk.injEq] at hl'
    exact hl'.2.2
  exact ⟨T1, ⟨hT ▸ hg.sound, hlazy, hslots⟩, by simp only [loadEager, hl]; rfl⟩

lemma Listed.rebuild_flags {ns : List Bytes} (h : Listed T ns)
    (hr : rebuildLoop (List.range T.count) T = some (.ok, T'))
    (hs : ([] :: ns)[i]? = some s) : raySymIsDotted T' i = (dottedSegs s).isSome := by
  obtain ⟨-, -, hflag⟩ := rebuildLoop_flags _ h.sound nodup_range (by simp) hr
  have hi : i < T.count := by
    rw [h.count]
    simpa using (List.getElem?_eq_some_iff.mp hs).1
  cases i with
  | succ i => exact hflag (i + 1) (by simpa using hi) s (h.isScanned i) ((h.strAt _).trans hs)
  | zero =>
    -- id 0 was settled before the load; its empty name is not dotted
    obtain rfl : [] = s := by simpa using hs
    obtain ⟨err, T1, hr1, hg⟩ := rebuildLoop_grows (List.range T.count) h.sound
    obtain ⟨-, rfl⟩ := Prod.mk.inj (some.inj (hr.symm.trans hr1))
    have h0 : T'.strAt 0 = some [] := hg.keeps 0 [] ((h.strAt 0).trans hs)
    refine dotted_eq_of_flagged hg.sound (fun s' hs' => some.inj (hs'.symm.trans h0)) ?_
    intro hd
    exact absurd hd (by decide)

lemma strOf_of_lazy_none (h : T.lazy = none) (i : ℕ) : strOf T i = T.strAt i := by
  rcases lt_or_ge i T.count with hi | hi
  · simp [strOf, raySymStr, h, show ¬ T.count ≤ i by omega]
  · have hn : T.slots[i]? = none := getElem?_eq_none hi
    simp [strOf, raySymStr, hi, SymTable.strAt, hn]

variable {file : Bytes} {ns : List Bytes}

structure Saved (T : SymTable) (ns : List Bytes) : Prop where
  sound : Sound T
  root : ns[0]? = some []
  short : ∀ s ∈ ns, s.length < 2 ^ 32
  str : ∀ i, strOf T i = ns[i]?
  strAt : ∀ i s, T.strAt i = some s → ns[i]? = some s
  length : ns.length = T.count

lemma Reachable.saved (h : Reachable T) (hs : raySymSave T = some (.ok, some file, T1)) :
    ∃ ns, Saved T ns ∧ file = strlFile ns ∧ contents T = ns := by
  obtain ⟨hsound, hroot⟩ := h.sound
  obtain ⟨rows, hst, hfile, hshort⟩ := raySymSave_stands hsound hs
  have hat : ∀ i s, T.strAt i = some s → (names rows)[i]? = some s := by
    intro i s hi
    obtain ⟨r, hr, -, rfl⟩ := hst.strAt_eq_some.mp hi
    simp [names, hr]
  refine ⟨names rows, ⟨hsound, hat 0 [] hroot, hshort, strOf_eq hst, hat, ?_⟩, hfile, hst.contents⟩
  simp [names, hst.length]

section

variable (h : Saved T ns)
include h

lemma Saved.length_lt : ns.length < 2 ^ 32 := by
  rw [h.length]
  exact h.sound.indexed.room.trans h.sound.indexed.small

lemma Saved.eq_cons : ∃ rest, ns = [] :: rest := by
  cases hns : ns with
  | nil =>
    have := h.root
    simp [hns] at this
  | cons s rest =>
    have := h.root
    simp only [hns, getElem?_cons_zero, some.injEq] at this
    exact ⟨rest, by rw [this]⟩

lemma Saved.segment_mem {gs : List Bytes} (hs : ns[i]? = some s)
    (hd : dottedSegs s = some gs) (hflag : raySymIsDotted T i = true) : ∀ g ∈ gs, g ∈ ns := by
  obtain ⟨s', gs', hs', hg', hm⟩ := raySymIsDotted_spec h.sound hflag
  obtain rfl : s = s' := some.inj (hs.symm.trans (h.strAt i s' hs'))
  obtain rfl : gs = gs' := some.inj (hd.symm.trans hg')
  intro g hg
  have hmem : some g ∈ (raySymSegs T i).map T.strAt := hm ▸ mem_map_of_mem hg
  obtain ⟨j, -, hj⟩ := mem_map.mp hmem
  exact mem_of_getElem? (h.strAt j g hj)

lemma Saved.small_restores (hsize : storedBytes ns < symLazyLoadMinBytes) (hnd : ns.Nodup)
    (hflag : ∀ i s, strOf T i = some s → (dottedSegs s).isSome → raySymIsDotted T i = true) :
      RoundTrips T (strlFile ns) := by
  obtain ⟨rest, rfl⟩ := h.eq_cons
  have hbytes := length_le_storedBytes ([] :: rest)
  have hcount : rest.length < 2 ^ 30 := by
    simp only [length_cons, symLazyLoadMinBytes] at hbytes hsize
    omega
  obtain ⟨T1, hlisted, heager⟩ := loadEager_listed hnd hcount fun s hs => h.short s (by simp [hs])
  have hdot : ∀ i s, ([] :: rest)[i]? = some s → raySymIsDotted T i = (dottedSegs s).isSome := by
    intro i s hs
    refine dotted_eq_of_flagged h.sound (fun s' hs' => ?_) (hflag i s ((h.str i).trans hs))
    exact some.inj ((h.strAt i s' hs').symm.trans hs)
  obtain ⟨T2, hr, hlazy, hstrs⟩ := rebuildLoop_held (range T1.count) hlisted.sound.indexed
    (by rw [hlisted.count]; simp only [length_cons, symLazyLoadMinBytes] at hbytes hsize; omega) (by
      intro i s gs hs hd
      rw [hlisted.strAt] at hs
      rw [hlisted.held]
      exact h.segment_mem hs hd (by rw [hdot i s hs, hd]; rfl))
  obtain ⟨err, T2', hr', hg⟩ := rebuildLoop_grows (range T1.count) hlisted.sound
  obtain ⟨-, rfl⟩ := Prod.mk.inj (some.inj (hr.symm.trans hr'))
  obtain ⟨hcount2, -, hat⟩ := held_of_strs hstrs
  have hat2 : ∀ i, T2.strAt i = ([] :: rest)[i]? := fun i => (hat i).trans (hlisted.strAt i)
  have hlazy2 : T2.lazy = none := hlazy.trans hlisted.lazy
  have hc2 : T2.count = T.count := by
    rw [hcount2, hlisted.count, ← h.length]
    rfl
  have hsame : ∀ i, raySymIsDotted T2 i = raySymIsDotted T i := by
    intro i
    cases hs : ([] :: rest)[i]? with
    | some s => rw [hlisted.rebuild_flags hr hs, hdot i s hs]
    | none =>
      have hi := getElem?_eq_none_iff.mp hs
      rw [h.length] at hi
      have h1 : T.slots[i]? = none := getElem?_eq_none hi
      have h2 : T2.slots[i]? = none := getElem?_eq_none (hc2.le.trans hi)
      simp [raySymIsDotted, h1, h2]
  refine ⟨T2, ?_, ⟨hc2, ?_, hsame, ?_⟩, ?_⟩
  · rw [raySymLoad_strlFile _ _ h.length_lt, if_neg (by omega), heager, hr]
  · intro i
    rw [strOf_of_lazy_none hlazy2, hat2, h.str]
  · intro i
    exact raySymSegs_congr h.sound hg.sound hnd h.strAt (fun j s hs => (hat2 j).symm.trans hs) (hsame i)
  · have hm : materializeForSave T2 = some (true, T2) := by simp [materializeForSave, hlazy2]
    have hns : T2.slots.map Slot.str = ([] :: rest).map some := by
      rw [hstrs, hlisted.slots]
      simp [plainSlot, rawSlot, comp_def]
    obtain ⟨hst, hnames⟩ := hg.sound.stands_of_materialize hm hns
    have := hst.save (by rw [hnames]; exact h.short)
    rwa [hnames] at this

lemma Saved.small_only (hsize : storedBytes ns < symLazyLoadMinBytes) (hrt : RoundTrips T (strlFile ns)) :
    ns.Nodup ∧ ∀ i s, strOf T i = some s → (dottedSegs s).isSome → raySymIsDotted T i = true := by
  obtain ⟨T2, hload, hsame, -⟩ := hrt
  rw [raySymLoad_strlFile _ _ h.length_lt, if_neg (by omega)] at hload
  have hnd := loadEager_nodup h.short hload
  refine ⟨hnd, ?_⟩
  obtain ⟨rest, rfl⟩ := h.eq_cons
  have hbytes := length_le_storedBytes ([] :: rest)
  have hcount : rest.length < 2 ^ 30 := by
    simp only [length_cons, symLazyLoadMinBytes] at hbytes hsize
    omega
  obtain ⟨T1, hlisted, heager⟩ := loadEager_listed hnd hcount fun s hs => h.short s (by simp [hs])
  intro i s hs hd
  rw [h.str] at hs
  rw [← hsame.dotted, hlisted.rebuild_flags (heager ▸ hload) hs, hd]

end

lemma isDotted_of_flags (h : ∀ x ∈ flagsOf T, x = (false, [])) (i : ℕ) :
    raySymIsDotted T i = false ∧ raySymSegs T i = [] := by
  cases hx : T.slots[i]? with
  | none => simp [raySymIsDotted, raySymSegs, hx]
  | some x =>
    have := h (x.dotted, x.segs) (mem_map.mpr ⟨x, mem_of_getElem? hx, rfl⟩)
    simpa [raySymIsDotted, raySymSegs, hx] using this

lemma Saved.large_iff (h : Saved T ns) (hsize : symLazyLoadMinBytes ≤ storedBytes ns) :
    RoundTrips T (strlFile ns) ↔ T.count * 100 < bucketCapMax * 70 ∧ ∀ i, raySymIsDotted T i = false := by
  have hload : raySymLoad initTable (strlFile ns) = loadLazy initTable ns.length (ns.flatMap record) := by
    rw [raySymLoad_strlFile _ _ h.length_lt, if_pos hsize]
  rw [← h.length]
  constructor
  · rintro ⟨T2, hl, hsame, -⟩
    rw [hload] at hl
    refine ⟨?_, fun i => ?_⟩
    · obtain ⟨ok, T1, hr, hiff⟩ := reserveFor_initTable ns.length
      cases ok with
      | true => exact hiff.mp rfl
      | false => simp [loadLazy, hr] at hl
    · rw [← hsame.dotted]
      exact (isDotted_of_flags (loadLazy_flags hl) i).1
  · rintro ⟨hcount, hplain⟩
    obtain ⟨T2, rows, hl, hst, hnames⟩ := loadLazy_fresh h.root h.short hcount
    have hflags := isDotted_of_flags (loadLazy_flags hl)
    refine ⟨T2, hload.trans hl, ⟨?_, ?_, ?_, ?_⟩, ?_⟩
    · rw [← hst.length, ← h.length, ← hnames]
      simp [names]
    · intro i
      rw [strOf_eq hst, hnames, h.str]
    · intro i
      rw [(hflags i).1, hplain i]
    · intro i
      rw [(hflags i).2, raySymSegs_of_not_dotted h.sound (hplain i)]
    · have := hst.save (by rw [hnames]; exact h.short)
      rwa [hnames] at this

/-- A saved table comes back exactly when it is restorable. -/
theorem symbol_file_round_trip {T T1 : SymTable} {file : Bytes} (hreach : Reachable T)
    (hsave : raySymSave T = some (.ok, some file, T1)) : RoundTrips T file ↔ Restorable T := by
  obtain ⟨ns, h, rfl, hcontents⟩ := hreach.saved hsave
  unfold Restorable
  rw [hcontents]
  split_ifs with hsize
  · constructor
    · exact h.small_only hsize
    · rintro ⟨hnd, hflag⟩
      exact h.small_restores hsize hnd hflag
  · exact h.large_iff (by omega)

theorem symbol_file_round_trip_of_dotted_name : ∃ T T1 file, Reachable T ∧
    raySymSave T = some (.ok, some file, T1) ∧ raySymIsDotted T 3 = true ∧ RoundTrips T file := by
  have hrun : ((step initTable (.intern .locked [97, 46, 98])).map fun T => (T.slots, T.lazy)) =
      some ([plainSlot [], plainSlot [97], plainSlot [98], ⟨some [97, 46, 98], true, true, [1, 2]⟩], none) := by
    decide +kernel
  obtain ⟨T, hT, he⟩ := map_eq_some_iff.mp hrun
  obtain ⟨hslots, hlazy⟩ := Prod.mk.inj he
  have hreach : Reachable T := .single (.op _ hT)
  have hm : materializeForSave T = some (true, T) := by simp [materializeForSave, hlazy]
  have hns : T.slots.map Slot.str = [[], [97], [98], [97, 46, 98]].map some := by
    rw [hslots]
    rfl
  obtain ⟨hst, hnames⟩ := hreach.sound.1.stands_of_materialize hm hns
  obtain ⟨T1, hsave⟩ := hst.save (by rw [hnames]; decide)
  have hcontents := hst.contents.trans hnames
  refine ⟨T, T1, _, hreach, hsave, by simp [raySymIsDotted, hslots], ?_⟩
  refine (symbol_file_round_trip hreach hsave).mpr ?_
  unfold Restorable
  rw [hcontents, if_pos (by decide)]
  refine ⟨by decide, ?_⟩
  intro i s hs hd
  rw [strOf_eq hst, hnames] at hs
  match i with
  | 0 | 1 | 2 =>
    obtain rfl := some.inj hs
    exact absurd hd (by decide)
  | 3 => simp [raySymIsDotted, hslots]
  | i + 4 => simp at hs

/-- A file that holds `a` twice is refused. -/
theorem repeated_segment_file_refused : ∃ T T1 file, Reachable T ∧
    raySymSave T = some (.ok, some file, T1) ∧ ¬ RoundTrips T file := by
  have hrun : ((step initTable (.intern .locked [97, 46, 97])).bind fun T => (raySymSave T).bind fun r =>
      r.2.1.bind fun f => (raySymLoad initTable f).map fun q => (r.1, q.1)) = some (.ok, .corrupt) := by
    decide +kernel
  obtain ⟨T, hT, hrun⟩ := bind_eq_some_iff.mp hrun
  obtain ⟨⟨err, file, T1⟩, hsave, hrun⟩ := bind_eq_some_iff.mp hrun
  obtain ⟨f, rfl, hrun⟩ := bind_eq_some_iff.mp hrun
  obtain ⟨⟨err', T2⟩, hload, he⟩ := map_eq_some_iff.mp hrun
  obtain ⟨rfl, rfl⟩ := Prod.mk.inj he
  refine ⟨T, T1, f, .single (.op _ hT), hsave, ?_⟩
  rintro ⟨T3, hload', -⟩
  rw [hload] at hload'
  simp at hload'

end

end Rayforce.Symbol
