import Rayforce.Symbol.Rows

namespace Rayforce.Symbol

open Library.Words List Option

variable {T T' : SymTable} {rows : List Row}
variable {s : Bytes} {i : ℕ}

def unreadName (T : SymTable) (i : ℕ) : Bytes :=
  match T.lazy with
  | none => []
  | some l => (((readRecords (l.count - l.nextId) l.rest).elim [] Prod.fst)[i - l.nextId]?).getD []

def rowsOf (T : SymTable) : List Row :=
  T.slots.mapIdx fun i s => ⟨s.str.getD (unreadName T i), s.scanned, s.str.isNone⟩

lemma Stands.rowsOf (h : Stands T rows) : rowsOf T = rows := by
  apply ext_getElem?
  intro i
  have hv := h.view i
  simp only [Symbol.rowsOf, getElem?_mapIdx]
  cases hs : T.slots[i]? with
  | none =>
    cases hr : rows[i]? with
    | none => rfl
    | some r => simp [hs, hr] at hv
  | some slot =>
    cases hr : rows[i]? with
    | none => simp [hs, hr] at hv
    | some r =>
      simp only [hs, hr, map_some, some.injEq, Prod.mk.injEq] at hv ⊢
      obtain ⟨hstr, hsc⟩ := hv
      cases hu : r.unread with
      | false =>
        have hread : slot.str = some r.name := by rw [hstr]; simp [Row.str, hu]
        rw [hread, hsc]
        show Row.mk r.name r.scanned false = r
        rw [← hu]
      | true =>
        have hnone : slot.str = none := by rw [hstr]; simp [Row.str, hu]
        obtain ⟨l, hl, hle, hlt⟩ := h.unread i r hr hu
        obtain ⟨-, hlen, tail, hrec⟩ := h.mapped l hl
        have hname : unreadName T i = r.name := by
          simp only [unreadName, hl, hrec, elim_some]
          rw [names, getElem?_map, getElem?_drop, getElem?_take_of_lt (by omega)]
          rw [show l.nextId + (i - l.nextId) = i by omega, hr]
          rfl
        rw [hnone, hsc, getD_none, hname]
        show Row.mk r.name r.scanned true = r
        rw [← hu]

def fresh (known : List Bytes) (s : Bytes) : List Bytes :=
  ((dottedSegs s).getD []).filter (· ∉ known)

def SegmentsOk (known hidden : List Bytes) (s : Bytes) : Prop :=
  (fresh known s).Nodup ∧ ∀ g ∈ fresh known s, g ∉ hidden

instance (known hidden : List Bytes) (s : Bytes) : Decidable (SegmentsOk known hidden s) :=
  inferInstanceAs (Decidable (_ ∧ _))

def searched (searchLazy : Bool) (s : Bytes) (rows : List Row) : List Row :=
  if searchLazy ∧ s ∉ known rows then readAll rows else rows

def InternOk (searchLazy : Bool) (s : Bytes) (rows : List Row) : Prop :=
  (s ∉ known (searched searchLazy s rows) → s ∉ hidden (searched searchLazy s rows)) ∧
  ((∃ r ∈ searched searchLazy s rows, r.unread = false ∧ r.name = s ∧ r.scanned) ∨
    SegmentsOk (known (searched searchLazy s rows)) (hidden (searched searchLazy s rows)) s)

instance (searchLazy : Bool) (s : Bytes) (rows : List Row) : Decidable (InternOk searchLazy s rows) :=
  inferInstanceAs (Decidable (_ ∧ _))

def unsettled (rows : List Row) : List Bytes := names (rows.filter fun r => !r.unread && !r.scanned)

def SegmentsOkInTurn (hidden : List Bytes) : List Bytes → List Bytes → Prop
  | _, [] => True
  | known, s :: ss => SegmentsOk known hidden s ∧ SegmentsOkInTurn hidden (known ++ fresh known s) ss

def RebuildOk (rows : List Row) : Prop := SegmentsOkInTurn (hidden rows) (known rows) (unsettled rows)

def internPlain (rows : List Row) (s : Bytes) : List Row :=
  if s ∈ known rows then rows
  else if s ∈ names rows then readAll rows
  else readAll rows ++ [⟨s, false, false⟩]

def MapOk (diskCount : ℕ) (rest : Bytes) (rows : List Row) : Prop :=
  ∃ fs tail, readRecords diskCount rest = some (fs, tail) ∧
    (∀ (i : ℕ) (r : Row), rows[i]? = some r → r.unread → fs[i]? = some r.name) ∧
    (names rows ++ fs.drop rows.length).Nodup

def LoadOk (file : Bytes) (rows : List Row) : Prop :=
  let diskCount := (leInt ((file.drop 4).take 8)).toNat
  if symLazyLoadMinBytes ≤ file.length then MapOk diskCount (file.drop 12) rows
  else ∀ fs tail, readRecords diskCount (file.drop 12) = some (fs, tail) →
    RebuildOk (fs.foldl internPlain rows)

lemma Stands.missing_eq (h : Stands T rows) (s : Bytes) :
    missing T ((dottedSegs s).getD []) = fresh (known rows) s := by
  rw [missing, h.held, fresh]

lemma nodup_append_fresh {gs : List Bytes} (hn : (names rows).Nodup)
    (hok : SegmentsOk (known rows) (hidden rows) s) (hp : gs <+: fresh (known rows) s) :
    (names rows ++ gs).Nodup := by
  refine hn.append (hok.1.sublist hp.sublist) ?_
  intro g hg hgs
  have hf := hp.subset hgs
  have hk : g ∉ known rows := by simpa using (mem_filter.mp hf).2
  rcases mem_names_iff.mp hg with h | h
  · exact hk h
  · exact hok.2 g hf h

lemma settle_eq_self (h : ∀ r, rows[i]? = some r → r.scanned) : settle i rows = rows := by
  apply ext_getElem?
  intro j
  rw [getElem?_settle]
  cases hr : rows[j]? with
  | none => rfl
  | some r =>
    simp only [map_some, some.injEq]
    split_ifs with hij
    · have := h r (hij ▸ hr)
      cases r
      simp_all
    · rfl

lemma symCacheSegments_rows (h : Stands T rows) {r : Row} (hr : rows[i]? = some r) (s : Bytes) :
    ∃ ok T' gs, symCacheSegments T i s = some (ok, T') ∧ gs <+: fresh (known rows) s ∧ (r.scanned → gs = []) ∧
      (ok = true → (r.scanned = false → gs = fresh (known rows) s) ∧
        Stands T' (settle i (rows ++ gs.map plainRow))) ∧
      (ok = false → Stands T' (rows ++ gs.map plainRow)) := by
  obtain ⟨ok, T', hc, hi, hcached⟩ := symCacheSegments_spec h.indexed i s
  have hsc := h.isScanned hr
  have hmiss := h.missing_eq s
  have hlen : i < rows.length := (List.getElem?_eq_some_iff.mp hr).1
  cases hcached with
  | settled hs =>
    rw [hsc] at hs
    refine ⟨true, T, [], hc, by simp, fun _ => rfl, fun _ => ⟨by simp [hs], ?_⟩, by simp⟩
    rw [map_nil, append_nil, settle_eq_self]
    · exact h
    · intro r' hr'
      obtain rfl : r = r' := some.inj (hr.symm.trans hr')
      exact hs
  | plain hs hd =>
    have hf : fresh (known rows) s = [] := by simp [fresh, hd]
    refine ⟨true, T.markScanned i, [], hc, by simp, fun _ => rfl, fun _ => ⟨fun _ => hf.symm, ?_⟩, by simp⟩
    rw [map_nil, append_nil]
    exact h.settle i (fun _ => rfl) fun _ => rfl
  | full gs hs hd hp hslots hl _ =>
    rw [hd, getD_some] at hmiss
    rw [hmiss] at hp
    refine ⟨false, T', gs, hc, hp, ?_, by simp, fun _ => h.plain hi hl hslots⟩
    intro hr'
    rw [hsc, hr'] at hs
    cases hs
  | @cached segs ids T2 hs hd hi2 hslots hl hids =>
    rw [hd, getD_some] at hmiss
    rw [hmiss] at hslots
    refine ⟨true, T2.cacheAt i ids, fresh (known rows) s, hc, prefix_refl _, ?_,
      fun _ => ⟨fun _ => rfl, ?_⟩, by simp⟩
    · intro hr'
      rw [hsc, hr'] at hs
      cases hs
    · exact (h.plain hi2 hl hslots).settle i (fun _ => rfl) fun _ => rfl

structure Keeps (T : SymTable) (rows : List Row) (T' : SymTable) (rows' : List Row) : Prop where
  stands : Stands T' rows'
  nodup : (names rows').Nodup
  extends_names : names rows <+: names rows'

lemma Keeps.refl (h : Stands T rows) (hn : (names rows).Nodup) : Keeps T rows T rows :=
  ⟨h, hn, prefix_refl _⟩

lemma Keeps.trans {T1 T2 T3 : SymTable} {a b c : List Row} (h1 : Keeps T1 a T2 b) (h2 : Keeps T2 b T3 c) :
    Keeps T1 a T3 c :=
  ⟨h2.stands, h2.nodup, h1.extends_names.trans h2.extends_names⟩

lemma Keeps.getElem? {a b : List Row} (h : Keeps T a T' b) (hs : (names a)[i]? = some s) :
    (names b)[i]? = some s := by
  obtain ⟨tail, ht⟩ := h.extends_names
  rw [← ht]
  exact getElem?_append_left (List.getElem?_eq_some_iff.mp hs).1 ▸ hs

lemma Stands.keeps_of_names (h : Stands T' rows') (hn : (names rows).Nodup)
    (he : names rows' = names rows) : Keeps T rows T' rows' :=
  ⟨h, he ▸ hn, he ▸ prefix_refl _⟩

lemma cacheSegments_keeps (h : Stands T rows) (hn : (names rows).Nodup) {r : Row} (hr : rows[i]? = some r)
    (hok : r.scanned ∨ SegmentsOk (known rows) (hidden rows) s) :
    ∃ ok T' rows', symCacheSegments T i s = some (ok, T') ∧ Keeps T rows T' rows' := by
  obtain ⟨ok, T', gs, hc, hp, hsc, htrue, hfalse⟩ := symCacheSegments_rows h hr s
  have hnd : (names rows ++ gs).Nodup := by
    rcases hok with hok | hok
    · simpa [hsc hok] using hn
    · exact nodup_append_fresh hn hok hp
  cases ok with
  | true =>
    refine ⟨true, T', _, hc, (htrue rfl).2, ?_, ?_⟩
    · simpa [names_append] using hnd
    · simp [names_append]
  | false =>
    refine ⟨false, T', _, hc, hfalse rfl, ?_, ?_⟩
    · simpa [names_append] using hnd
    · simp [names_append]

lemma cutSeg_length (skip : Bool) (rest : Bytes) :
    (cutSeg skip rest).1.length ≤ rest.length ∧ ∀ rest', (cutSeg skip rest).2 = some rest' →
      (cutSeg skip rest).1.length + 1 + rest'.length = rest.length := by
  simp only [cutSeg]
  generalize hk : (if skip then 1 else 0) = k
  have hsplit : rest.length = (rest.take k).length + (rest.drop k).length := by
    rw [← length_append, take_append_drop]
  have htail : (rest.drop k).length = ((rest.drop k).takeWhile (· ≠ dot)).length +
      ((rest.drop k).dropWhile (· ≠ dot)).length := by
    rw [← length_append, takeWhile_append_dropWhile]
  rw [length_append]
  refine ⟨by omega, ?_⟩
  intro rest' h
  cases hd : (rest.drop k).dropWhile (· ≠ dot) with
  | nil => rw [hd] at h; cases h
  | cons d ds =>
    rw [hd] at h htail
    obtain rfl : ds = rest' := by simpa using h
    simp only [length_cons] at htail
    omega

lemma segLoop_length (n : ℕ) (skip : Bool) (rest : Bytes) :
    ∀ g ∈ (segLoop n skip rest).2, g.length ≤ rest.length := by
  induction n generalizing skip rest with
  | zero => simp [segLoop]
  | succ n ih =>
    intro g hg
    obtain ⟨hle, hcut⟩ := cutSeg_length skip rest
    simp only [segLoop] at hg
    split_ifs at hg with hnil hseg
    · simp at hg
    · simp at hg
    · cases hr : (cutSeg skip rest).2 with
      | none =>
        simp only [hr, mem_singleton] at hg
        rw [hg]
        exact hle
      | some rest' =>
        simp only [hr, mem_cons] at hg
        have := hcut rest' hr
        rcases hg with rfl | hg
        · exact hle
        · have := ih false rest' g hg
          omega

lemma not_mem_segLoop (n : ℕ) (skip : Bool) (hdot : dot ∈ s.drop (if skip then 1 else 0)) :
    s ∉ (segLoop (n + 1) skip s).2 := by
  intro hmem
  have hne : s ≠ [] := by rintro rfl; simp at hdot
  obtain ⟨rest', hrest⟩ : ∃ rest', (cutSeg skip s).2 = some rest' := by
    simp only [cutSeg]
    cases hdw : (s.drop (if skip then 1 else 0)).dropWhile (· ≠ dot) with
    | nil =>
      have := dropWhile_eq_nil_iff.mp hdw dot hdot
      simp at this
    | cons d ds => exact ⟨ds, rfl⟩
  have hlen := (cutSeg_length skip s).2 rest' hrest
  simp only [segLoop, hne, if_false, hrest] at hmem
  split_ifs at hmem
  · simp at hmem
  · rcases mem_cons.mp hmem with heq | hm
    · have := congrArg length heq
      omega
    · have := segLoop_length _ _ _ s hm
      omega

lemma not_mem_dottedSegs {segs : List Bytes} (h : dottedSegs s = some segs) : s ∉ segs := by
  simp only [dottedSegs] at h
  split_ifs at h with hd
  obtain rfl := some.inj h
  simp only [scanDotted] at hd ⊢
  by_cases h1 : dot ∈ s
  · by_cases h2 : s.getLast? = some dot
    · simp [h1, h2]
    · by_cases hlead : s.head? = some dot
      · by_cases h3 : dot ∈ s.drop 1
        · simp only [h1, h2, hlead, h3, not_true, if_false, decide_true, and_false, if_true]
          split_ifs
          · simp
          · exact not_mem_segLoop _ true h3
        · simp only [h1, h2, hlead, h3, not_true, not_false_eq_true, if_false, decide_true, and_true, if_true]
          simp
      · simp only [h1, h2, hlead, not_true, if_false, decide_false, Bool.false_eq_true, false_and]
        split_ifs
        · simp
        · exact not_mem_segLoop _ false h1
  · simp [h1]

lemma commitMain_keeps (h : Stands T rows) (hn : (names rows).Nodup) (hs : s ∉ names rows)
    (hok : SegmentsOk (known rows) (hidden rows) s) :
    ∃ r T' rows', commitMain T (symHash s) s = some (r, T') ∧ Keeps T rows T' rows' ∧
      ∀ i, r = some i → (names rows')[i]? = some s := by
  obtain ⟨r, T', hc, hi, hcommit⟩ := commitMain_spec h.indexed s
  have hnew : newSegs T s = fresh (known rows) s := h.missing_eq s
  cases hcommit with
  | full gs hp hslots hl =>
    rw [hnew] at hp
    refine ⟨none, T', _, hc, ⟨h.plain hi hl hslots, ?_, by simp [names_append]⟩, by simp⟩
    simpa [names_append] using nodup_append_fresh hn hok hp
  | done ids hslots hl hids =>
    rw [hnew] at hslots
    have hview : ((fresh (known rows) s).map plainSlot ++ [mainSlot s ids]).map
        (fun x => (x.str, x.scanned)) =
        ((fresh (known rows) s).map plainRow ++ [plainRow s]).map fun r => (r.str, r.scanned) := by
      simp only [map_append, List.map_map, map_cons, map_nil, mainSlot]
      congr 1
      cases (scanDotted s).1 <;> simp [plainRow, Row.str]
    have hstands := h.append hi hl (by rw [hslots, append_assoc]) hview (by
        intro r hr
        simp only [mem_append, List.mem_map, mem_singleton] at hr
        obtain ⟨g, -, rfl⟩ | rfl := hr <;> rfl)
    have hnames : names (rows ++ ((fresh (known rows) s).map plainRow ++ [plainRow s])) =
        names rows ++ fresh (known rows) s ++ [s] := by
      simp [names, plainRow, Function.comp_def]
    have hfresh : s ∉ fresh (known rows) s := by
      intro hf
      cases hd : dottedSegs s with
      | none => simp [fresh, hd] at hf
      | some segs =>
        simp only [fresh, hd, getD_some] at hf
        exact not_mem_dottedSegs hd (mem_filter.mp hf).1
    refine ⟨_, T', _, hc, ⟨hstands, ?_, ?_⟩, ?_⟩
    · rw [hnames]
      refine (nodup_append_fresh hn hok (prefix_refl _)).append (by simp) ?_
      intro g hg hgs
      rw [mem_singleton.mp hgs, mem_append] at hg
      exact hg.elim hs hfresh
    · rw [hnames, append_assoc]
      exact prefix_append _ _
    · intro i hri
      obtain rfl := some.inj hri
      rw [hnames, hnew, ← h.length]
      simp [names]

lemma probeMain_spec (h : Stands T rows) (s : Bytes) (searchLazy : Bool) :
    ∃ o T', probeMain T (symHash s) s searchLazy = some (true, o, T') ∧
      Stands T' (searched searchLazy s rows) ∧ (∀ i, o = some i → T'.strAt i = some s) ∧
      (o = none → s ∉ known (searched searchLazy s rows)) := by
  obtain ⟨o, hp, hsome, hnone⟩ := symProbe_spec h.indexed s
  have hmem : s ∈ known rows ↔ o.isSome := by
    rw [← h.held, mem_held]
    cases o with
    | none => simpa using hnone rfl
    | some i => simpa using ⟨i, hsome i rfl⟩
  by_cases hmiss : searchLazy = true ∧ o = none
  · obtain ⟨rfl, rfl⟩ := hmiss
    have hs : s ∉ known rows := by simp [hmem]
    have hsr : searched true s rows = readAll rows := by simp [searched, hs]
    rw [hsr]
    cases hpend : T.pending with
    | true =>
      obtain ⟨T1, hm, hs1⟩ := materializeAll_spec h hpend
      obtain ⟨o, hp1, hsome1, hnone1⟩ := symProbe_spec hs1.indexed s
      refine ⟨o, T1, by simp [probeMain, hp, hpend, hm, hp1], hs1, hsome1, ?_⟩
      intro ho hk
      rw [← hs1.held, mem_held] at hk
      obtain ⟨i, hi⟩ := hk
      exact hnone1 ho i hi
    | false =>
      rw [h.hidden_eq_nil hpend]
      exact ⟨none, T, by simp [probeMain, hp, hpend], h, by simp, fun _ => hs⟩
  · have hsr : searched searchLazy s rows = rows := by
      simp only [searched]
      rw [if_neg]
      rintro ⟨hl, hk⟩
      rw [hmem] at hk
      exact hmiss ⟨hl, by simpa using hk⟩
    rw [hsr]
    refine ⟨o, T, ?_, h, hsome, ?_⟩
    · have : ¬ (searchLazy = true ∧ o = none ∧ T.pending = true) := fun hc => hmiss ⟨hc.1, hc.2.1⟩
      simp only [probeMain, hp, bind_eq_bind, bind_some, if_neg this]
      rfl
    · rintro rfl
      simp [hmem]

lemma names_searched (searchLazy : Bool) (s : Bytes) (rows : List Row) :
    names (searched searchLazy s rows) = names rows := by
  simp only [searched]
  split_ifs <;> simp

lemma symInternNolock_keeps (h : Stands T rows) (hn : (names rows).Nodup) {searchLazy : Bool}
    (hok : InternOk searchLazy s rows) :
    ∃ r T' rows', symInternNolock T (symHash s) s searchLazy = some (r, T') ∧ Keeps T rows T' rows' ∧
      ∀ i, r = some i → (names rows')[i]? = some s := by
  obtain ⟨o, T1, hp, hs1, hsome, hnone⟩ := probeMain_spec h s searchLazy
  have hn1 : (names (searched searchLazy s rows)).Nodup := by rwa [names_searched]
  have hk1 : Keeps T rows T1 (searched searchLazy s rows) :=
    hs1.keeps_of_names hn (names_searched searchLazy s rows)
  obtain ⟨hhid, hseg⟩ := hok
  cases o with
  | some i =>
    obtain ⟨r, hr, hu, hname⟩ := hs1.strAt_eq_some.mp (hsome i rfl)
    have hi : (names (searched searchLazy s rows))[i]? = some s := by simp [names, hr, hname]
    -- the scanned row the condition speaks of is this one, since names are distinct
    have hseg' : r.scanned ∨ SegmentsOk (known (searched searchLazy s rows))
        (hidden (searched searchLazy s rows)) s := by
      refine hseg.imp_left ?_
      rintro ⟨r', hm, -, hname', hsc⟩
      obtain ⟨j, hj⟩ := mem_iff_getElem?.mp hm
      have hj' : (names (searched searchLazy s rows))[j]? = some s := by simp [names, hj, hname']
      have hij : i = j := (getElem?_inj (List.getElem?_eq_some_iff.mp hi).1 hn1).mp (hi.trans hj'.symm)
      subst hij
      rwa [some.inj (hr.symm.trans hj)]
    obtain ⟨ok, T', rows', hc, hk⟩ := cacheSegments_keeps hs1 hn1 hr hseg'
    refine ⟨some i, T', rows', by simp [symInternNolock, hp, hc], hk1.trans hk, ?_⟩
    intro j hj
    obtain rfl := some.inj hj
    exact hk.getElem? hi
  | none =>
    have hk := hnone rfl
    have hs : s ∉ names (searched searchLazy s rows) := fun hm =>
      (mem_names_iff.mp hm).elim hk (hhid hk)
    have hseg' : SegmentsOk (known (searched searchLazy s rows)) (hidden (searched searchLazy s rows)) s := by
      refine hseg.resolve_left ?_
      rintro ⟨r, hm, hu, hname, -⟩
      exact hs (List.mem_map.mpr ⟨r, hm, hname⟩)
    obtain ⟨r, T', rows', hc, hkeep, hid⟩ := commitMain_keeps hs1 hn1 hs hseg'
    exact ⟨r, T', rows', by simp [symInternNolock, hp, hc], hk1.trans hkeep, hid⟩

lemma symInternNolockNoseg_eq (T : SymTable) (hash : ℕ) (s : Bytes) :
    symInternNolockNoseg T hash s = (probeMain T hash s true).bind fun r =>
      if r.1 = false then some (none, r.2.2) else r.2.1.elim (symCommitNew r.2.2 hash s) fun i =>
        some (some i, r.2.2) := by
  simp only [symInternNolockNoseg, probeMain, bind_eq_bind, true_and]
  cases hp : symProbe T hash s with
  | none => rfl
  | some o =>
    cases o with
    | some i => rfl
    | none =>
      cases hpend : T.pending with
      | false => simp
      | true =>
        cases hm : materializeAll T with
        | none => simp
        | some r =>
          obtain ⟨ok, T1⟩ := r
          cases ok with
          | false => simp
          | true =>
            cases hp1 : symProbe T1 hash s with
            | none => simp [hp1]
            | some o => cases o <;> simp [hp1]

lemma symInternNolockNoseg_spec (h : Stands T rows) (s : Bytes) :
    ∃ r T', symInternNolockNoseg T (symHash s) s = some (r, T') ∧
      (r = none → ∃ rows', Stands T' rows' ∧ names rows' = names rows) ∧
      ∀ i, r = some i → Stands T' (internPlain rows s) ∧ (names (internPlain rows s))[i]? = some s := by
  obtain ⟨o, T1, hp, hs1, hsome, hnone⟩ := probeMain_spec h s true
  have hnames := names_searched true s rows
  simp only [symInternNolockNoseg_eq, hp, bind_some, Bool.true_eq_false, if_false]
  cases o with
  | some i =>
    obtain ⟨r, hr, -, hname⟩ := hs1.strAt_eq_some.mp (hsome i rfl)
    have hi : (names (searched true s rows))[i]? = some s := by simp [names, hr, hname]
    have hplain : internPlain rows s = searched true s rows := by
      have hs : s ∈ names rows := hnames ▸ mem_of_getElem? hi
      by_cases hk : s ∈ known rows <;> simp [internPlain, searched, hk, hs]
    refine ⟨some i, T1, rfl, by simp, ?_⟩
    intro j hj
    obtain rfl := some.inj hj
    rw [hplain]
    exact ⟨hs1, hi⟩
  | none =>
    have hk : s ∉ known rows := by
      intro hk
      have hs : searched true s rows = rows := by simp [searched, hk]
      exact hnone rfl (by rwa [hs])
    have hall : searched true s rows = readAll rows := by simp [searched, hk]
    rw [hall] at hs1 hnone
    have hs : s ∉ names rows := known_readAll rows ▸ hnone rfl
    have hplain : internPlain rows s = readAll rows ++ [⟨s, false, false⟩] := by simp [internPlain, hk, hs]
    obtain ⟨r, T', hc, hi, hl, hn, hsm⟩ := symCommitNew_spec hs1.indexed s
    refine ⟨r, T', hc, ?_, ?_⟩
    · intro hr
      refine ⟨readAll rows, ⟨hi, by rw [(hn hr).1, hs1.views], ?_, ?_⟩, by simp⟩
      · simpa [hl] using hs1.unread
      · simpa [hl] using hs1.mapped
    · intro i hr
      obtain ⟨rfl, hslots⟩ := hsm i hr
      rw [hplain]
      refine ⟨hs1.append hi hl hslots (by simp [emptySlot, Row.str]) (by simp), ?_⟩
      rw [names_append, ← hs1.length, ← length_map (f := Row.name)]
      simp [names]

lemma names_internPlain (rows : List Row) (s : Bytes) :
    names (internPlain rows s) = if s ∈ names rows then names rows else names rows ++ [s] := by
  simp only [internPlain]
  split_ifs with h1 h2 h3
  · rfl
  · exact absurd (mem_names_iff.mpr (.inl h1)) h2
  · simp
  · simp [names, readAll, Function.comp_def]

lemma internPlain_keeps (hn : (names rows).Nodup) (h : Stands T' (internPlain rows s)) :
    Keeps T rows T' (internPlain rows s) := by
  refine ⟨h, ?_, ?_⟩
  · rw [names_internPlain]
    split_ifs with hs
    · exact hn
    · refine hn.append (by simp) ?_
      intro g hg hgs
      exact hs (mem_singleton.mp hgs ▸ hg)
  · rw [names_internPlain]
    split_ifs
    · exact prefix_refl _
    · exact prefix_append _ _

end Rayforce.Symbol
