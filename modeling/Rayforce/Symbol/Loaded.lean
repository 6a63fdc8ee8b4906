import Rayforce.Symbol.Answers

namespace Rayforce.Symbol

open Library.Words List Option

variable {T T' : SymTable} {rows : List Row} {ns fs : List Bytes}
variable {rest : Bytes} {full : List Bytes} {n : ℕ} {pad : ℕ} {i : ℕ}

def loadedNames (ns fs : List Bytes) : List Bytes := ns ++ fs.drop ns.length

def ValidFile (ns : List Bytes) (diskCount : ℕ) (rest : Bytes) : Prop :=
  ∃ fs, readRecords diskCount rest = some (fs, []) ∧ (fs <+: ns ∨ ns <+: fs) ∧ (loadedNames ns fs).Nodup ∧
    Preceded (loadedNames ns fs)

lemma loadedNames_getElem? (h : fs <+: ns ∨ ns <+: fs) (hi : i < fs.length) :
    (loadedNames ns fs)[i]? = fs[i]? := by
  rcases h with ⟨t, rfl⟩ | ⟨t, rfl⟩
  · rw [loadedNames, drop_eq_nil_of_le (by simp), append_nil, getElem?_append_left hi]
  · rw [loadedNames, drop_left]

lemma Preceded.of_prefix (h : Preceded full) (hp : ns <+: full) : Preceded ns := by
  obtain ⟨t, rfl⟩ := hp
  intro i s hi g hg
  have hlt := (List.getElem?_eq_some_iff.mp hi).1
  have hmem := h i s (by rw [getElem?_append_left hlt, hi]) g hg
  rwa [take_append_of_le_length hlt.le] at hmem

lemma known_eq_names (h : readAll rows = rows) : known rows = names rows := by
  have hk := known_readAll rows
  rwa [h] at hk

lemma read_of_readAll (h : readAll rows = rows) {r : Row} (hr : rows[i]? = some r) : r.unread = false := by
  have hi := congrArg (·[i]?) h
  simp only [readAll, getElem?_map, hr, map_some, some.injEq] at hi
  rw [← hi]

lemma known_mapped (fs : List Bytes) : known (fs.map fun f => (⟨f, false, true⟩ : Row)) = [] := by
  rw [eq_nil_iff_forall_not_mem]
  intro s hs
  obtain ⟨i, r, hr, hu, -⟩ := mem_known.mp hs
  obtain ⟨f, -, rfl⟩ := mem_map.mp (mem_of_getElem? hr)
  cases hu

lemma loadLazy_tracks (h : Stands T rows) (hall : readAll rows = rows) (hv : ValidFile (names rows) n rest) :
    ∃ err L, loadLazy T n rest = some (err, L) ∧ (err = .ok ∨ err = .oom) ∧
      (err = .ok → ∃ fs rows', readRecords n rest = some (fs, []) ∧
        Tracks L rows' (loadedNames (names rows) fs)) := by
  obtain ⟨fs, hrec, hcmp, hnd, hpre⟩ := hv
  have hfs := readRecords_length hrec
  have hlen : rows.length = (names rows).length := by rw [names, length_map]
  obtain ⟨ok, T₁, hres, hi₁, hs₁, -, hroom⟩ := reserveFor_spec h.indexed n
  simp only [loadLazy, hres, bind_eq_bind, bind_some]
  cases ok with
  | false => exact ⟨.oom, T₁, rfl, .inr rfl, by simp⟩
  | true =>
    have hunread : ∀ (i : ℕ) (r : Row), rows[i]? = some r → r.unread → fs[i]? = some r.name := by
      intro i r hr hu
      rw [read_of_readAll hall hr] at hu
      cases hu
    have hag : ∀ i < min T.count n, fs[i]? = (names rows)[i]? := by
      intro i hi
      rw [← loadedNames_getElem? hcmp (by omega), loadedNames, getElem?_append_left]
      rw [← hlen, h.length]
      omega
    have hst := h.mapFile hi₁ hs₁ (hroom rfl) hrec hunread hag
    have htr : Tracks (mapFile T₁ n rest) (rows ++ (fs.drop rows.length).map fun f => ⟨f, false, true⟩)
        (loadedNames (names rows) fs) := by
      refine ⟨hst, ?_, hnd, ?_, hpre⟩
      · rw [names_append, loadedNames, hlen]
        simp [names, Function.comp_def]
      · rw [known_append, known_eq_names hall, known_mapped, append_nil]
        intro s hs g hg
        exact (hpre.of_prefix (prefix_append _ _)).mem hs g hg
    by_cases hm : min T.count n = 0
    · refine ⟨.ok, mapFile T₁ n rest, ?_, .inl rfl, fun _ => ⟨fs, _, hrec, htr⟩⟩
      simp [validateMap, hm]
    · obtain ⟨L, hmat, hs⟩ := symLazyMaterializeTo_spec hst rfl (show min T.count n - 1 < n by omega)
      refine ⟨.ok, L, ?_, .inl rfl, fun _ => ⟨fs, _, hrec, htr.readUpTo hs⟩⟩
      simp [validateMap, hm, hmat]

lemma loadLazy_checks (h : Sound T) {L : SymTable} (hload : loadLazy T n rest = some (.ok, L)) :
    ∃ fs tail, readRecords (min T.count n) rest = some (fs, tail) ∧ ∀ i s, i < n → T.strAt i = some s →
      fs[i]? = some s := by
  obtain ⟨ok, T₁, hr, hg₁, hroom⟩ := reserveFor_grows h n
  simp only [loadLazy, hr, bind_eq_bind, bind_some] at hload
  cases ok with
  | false => cases hload
  | true =>
    have hg₂ := mapFile_grows hg₁.sound rest (hroom rfl)
    by_cases hm : min T.count n = 0
    · refine ⟨[], rest, by rw [hm]; rfl, fun i s hi hs => ?_⟩
      have := strAt_lt hs
      omega
    · simp only [validateMap, if_neg hm, Bool.true_eq_false, if_false] at hload
      have hle : (0 : ℕ) + min T.count n ≤ n := by omega
      obtain ⟨ok, T₂, hloop, hf, hok⟩ :=
        materializeLoop_reads (l := ⟨n, 0, rest⟩) (min T.count n) hg₂.sound rfl hle
      have hmat : symLazyMaterializeTo (mapFile T₁ n rest) (min T.count n - 1) = some (ok, T₂) := by
        simp only [symLazyMaterializeTo, mapFile, show ¬n ≤ min T.count n - 1 by omega, if_false, Nat.not_lt_zero,
          Nat.sub_zero, show min T.count n - 1 + 1 = min T.count n by omega]
        exact hloop
      rw [hmat, bind_some] at hload
      cases ok with
      | false => cases hload
      | true =>
        obtain ⟨fs, tail, hrec, hstr, -⟩ := hok rfl
        refine ⟨fs, tail, hrec, fun i s hi hs => ?_⟩
        have hlt := strAt_lt hs
        have hk := hf.grows.keeps i s (hg₂.keeps i s (hg₁.keeps i s hs))
        have hat := hstr i (by omega)
        rw [Nat.zero_add] at hat
        rw [← hat, hk]

lemma readAll_internPlain (h : readAll rows = rows) (s : Bytes) :
    readAll (internPlain rows s) = internPlain rows s := by
  rw [internPlain]
  split_ifs
  · exact h
  · rw [h, h]
  · rw [h, readAll, map_append, ← readAll, h]
    rfl

lemma readAll_foldl (fs : List Bytes) (h : readAll rows = rows) :
    readAll (fs.foldl internPlain rows) = fs.foldl internPlain rows := by
  induction fs generalizing rows with
  | nil => exact h
  | cons f fs ih => exact ih (readAll_internPlain h f)

lemma names_foldl_known (fs : List Bytes) (h : ∀ s ∈ fs, s ∈ names rows) :
    names (fs.foldl internPlain rows) = names rows := by
  induction fs generalizing rows with
  | nil => rfl
  | cons f fs ih =>
    have hf : names (internPlain rows f) = names rows := by rw [names_internPlain, if_pos (h f (by simp))]
    rw [foldl_cons, ih fun s hs => by rw [hf]; exact h s (by simp [hs]), hf]

lemma names_foldl_new (fs : List Bytes) (h : (names rows ++ fs).Nodup) :
    names (fs.foldl internPlain rows) = names rows ++ fs := by
  induction fs generalizing rows with
  | nil => simp
  | cons f fs ih =>
    have hf : names (internPlain rows f) = names rows ++ [f] := by
      rw [names_internPlain, if_neg]
      intro hm
      exact (nodup_append.mp h).2.2 f hm f (by simp) rfl
    rw [foldl_cons, ih (by rw [hf, append_assoc]; exact h), hf, append_assoc]
    rfl

lemma names_foldl_loaded (hcmp : fs <+: names rows ∨ names rows <+: fs)
    (hnd : (loadedNames (names rows) fs).Nodup) :
    names (fs.foldl internPlain rows) = loadedNames (names rows) fs := by
  rcases hcmp with hp | ⟨t, ht⟩
  · rw [names_foldl_known fs fun s hs => hp.subset hs, loadedNames, drop_eq_nil_of_le hp.length_le, append_nil]
  · have hd : fs.drop (names rows).length = t := by rw [← ht, drop_left]
    rw [loadedNames, hd] at hnd ⊢
    have hin : names ((names rows).foldl internPlain rows) = names rows := names_foldl_known _ fun s hs => hs
    rw [← ht, foldl_append, names_foldl_new _ (by rwa [hin]), hin]

lemma internPlain_prefix (hp : names rows <+: full) {s : Bytes} (hi : i ≤ rows.length)
    (hs : full[i]? = some s) : names (internPlain rows s) <+: full := by
  rw [names_internPlain]
  split_ifs with hm
  · exact hp
  obtain ⟨t, rfl⟩ := hp
  have hlen : (names rows).length = rows.length := by rw [names, length_map]
  rcases hi.lt_or_eq with hlt | rfl
  · rw [getElem?_append_left (by omega)] at hs
    exact absurd (mem_of_getElem? hs) hm
  · rw [← hlen, getElem?_append_right le_rfl, Nat.sub_self] at hs
    cases t with
    | nil => cases hs
    | cons t ts =>
      obtain rfl := some.inj hs
      exact ⟨ts, by simp⟩

lemma loadEntries_valid (n i : ℕ) {rest tail : Bytes} (h : Stands T rows) (hfull : full.Nodup)
    (hp : names rows <+: full) (hi : i ≤ rows.length) (hrec : readRecords n rest = some (fs, tail))
    (hpos : ∀ k < n, full[i + k]? = fs[k]?) :
    ∃ err rest' E, loadEntries n i rest T = some (err, rest', E) ∧ (err = .ok ∨ err = .oom) := by
  induction n generalizing i rest T rows fs with
  | zero => exact ⟨.ok, rest, T, rfl, .inl rfl⟩
  | succ n ih =>
    simp only [readRecords] at hrec
    split_ifs at hrec with h4 hlen
    obtain ⟨⟨gs, tail'⟩, hr, he⟩ := map_eq_some_iff.mp hrec
    obtain ⟨rfl, rfl⟩ := Prod.mk.inj he
    generalize hs : (rest.drop 4).take (leNat (rest.take 4)) = s at hpos
    obtain ⟨r, T₁, hint, -, hsome⟩ := symInternNolockNoseg_spec h s
    simp only [loadEntries, if_neg h4, if_neg hlen, raySymInternNoSplit, hs, hint, bind_eq_bind, bind_some]
    cases r with
    | none => exact ⟨.oom, _, T₁, rfl, .inr rfl⟩
    | some id =>
      obtain ⟨hst, hid⟩ := hsome id rfl
      have hat : full[i]? = some s := by simpa using hpos 0 (by omega)
      have hp' := internPlain_prefix hp hi hat
      have hlt := (List.getElem?_eq_some_iff.mp hid).1
      have hid' : full[id]? = some s := by
        obtain ⟨t, rfl⟩ := hp'
        rw [getElem?_append_left hlt, hid]
      obtain rfl : id = i :=
        (getElem?_inj (List.getElem?_eq_some_iff.mp hid').1 hfull).mp (hid'.trans hat.symm)
      simp only [if_true]
      rw [names, length_map] at hlt
      refine ih (id + 1) hst hp' hlt hr fun k hk => ?_
      simpa [show id + 1 + k = id + (k + 1) by omega] using hpos (k + 1) (by omega)

lemma rebuildLoop_tracks (is : List ℕ) (h : Tracks T rows ns) (hh : ∀ g, g ∉ hidden rows) :
    ∃ err T', rebuildLoop is T = some (err, T') ∧ (err = .ok ∨ err = .oom) ∧
      ∃ rows', Tracks T' rows' ns ∧ ∀ g, g ∉ hidden rows' := by
  refine rebuildLoop_induct (P := fun T => ∃ rows, Tracks T rows ns ∧ ∀ g, g ∉ hidden rows) ?_ is ⟨rows, h, hh⟩
  rintro T i s ⟨rows, h, hh⟩ hstr
  obtain ⟨ok, T₁, hc, ⟨rows₁, h₁, hsub⟩⟩ := cached_tracks h hstr
  exact ⟨ok, T₁, hc, rows₁, h₁, fun g hg => hh g (hsub g hg)⟩

lemma loadEager_tracks (h : Stands T rows) (hall : readAll rows = rows) (hn : (names rows).Nodup)
    (hv : ValidFile (names rows) n rest) : ∃ err E, loadEager T n rest = some (err, E) ∧ (err = .ok ∨ err = .oom) ∧
      (err = .ok → ∃ fs rows', readRecords n rest = some (fs, []) ∧ Tracks E rows' (loadedNames (names rows) fs) ∧
        ∀ g, g ∉ hidden rows') := by
  obtain ⟨fs, hrec, hcmp, hnd, hpre⟩ := hv
  have hfs := readRecords_length hrec
  obtain ⟨err, rest', E₁, hload, herr⟩ := loadEntries_valid n 0 h hnd (prefix_append _ _) (Nat.zero_le _) hrec
    fun k hk => by rw [Nat.zero_add, loadedNames_getElem? hcmp (by omega)]
  simp only [loadEager, hload, bind_eq_bind, bind_some]
  rcases herr with rfl | rfl
  · obtain ⟨fs', hrec', hk, -⟩ := loadEntries_spec n 0 h hn hload
    obtain ⟨rfl, rfl⟩ := Prod.mk.inj (some.inj (hrec.symm.trans hrec'))
    have hread := readAll_foldl fs hall
    have hnames := names_foldl_loaded hcmp hnd
    have htr : Tracks E₁ (fs.foldl internPlain rows) (loadedNames (names rows) fs) := by
      refine ⟨hk.stands, hnames, hnd, ?_, hpre⟩
      rw [known_eq_names hread, hnames]
      exact fun s hs => hpre.mem hs
    have hh : ∀ g, g ∉ hidden (fs.foldl internPlain rows) := by
      rw [← hread, hidden_readAll]
      simp
    obtain ⟨err, E, hre, he, rows', ht, hh'⟩ := rebuildLoop_tracks (range E₁.count) htr hh
    refine ⟨err, E, by simp [raySymRebuildSegments, hre], he, fun _ => ⟨fs, rows', hrec, ht, hh'⟩⟩
  · exact ⟨.oom, E₁, by simp, .inr rfl, by simp⟩

lemma loadEager_checks (h : Stands T rows) (hn : (names rows).Nodup) {E : SymTable}
    (hload : loadEager T n rest = some (.ok, E)) :
    ∃ fs, readRecords n rest = some (fs, []) ∧ fs.Nodup ∧ (fs <+: names rows ∨ names rows <+: fs) := by
  simp only [loadEager, bind_eq_bind] at hload
  obtain ⟨⟨err, rest', E₁⟩, hent, hload⟩ := bind_eq_some_iff.mp hload
  simp only at hload
  split_ifs at hload with herr hrest
  · obtain ⟨rfl, -⟩ := Prod.mk.inj (some.inj hload)
    exact absurd rfl herr
  · cases hload
  rw [not_not] at herr hrest
  subst herr hrest
  obtain ⟨fs, hrec, hk, hpos⟩ := loadEntries_spec n 0 h hn hent
  have hfs := readRecords_length hrec
  have hle : n ≤ (names (fs.foldl internPlain rows)).length := by
    rcases Nat.eq_zero_or_pos n with rfl | hpos'
    · exact Nat.zero_le _
    · have hlast := hpos (n - 1) (by omega)
      rw [getElem?_eq_getElem (show n - 1 < fs.length by omega)] at hlast
      have := (List.getElem?_eq_some_iff.mp hlast).1
      omega
  have hp : fs <+: names (fs.foldl internPlain rows) := by
    rw [prefix_iff_eq_take]
    apply ext_getElem?
    intro k
    rcases lt_or_ge k n with hkn | hkn
    · rw [getElem?_take_of_lt (by omega), ← hpos k hkn, Nat.zero_add]
    · rw [getElem?_eq_none (by omega), getElem?_eq_none (by rw [length_take]; omega)]
  exact ⟨fs, hrec, hk.nodup.sublist hp.sublist, prefix_or_prefix_of_prefix hp hk.extends_names⟩

def AnswerAlike (L E : SymTable) : Prop :=
  ∀ qs, AllOk L qs → ∃ rs L' rs' E', asks L qs = some (rs, L') ∧ asks E qs = some (rs', E') ∧
    (Served qs rs → Served qs rs' → rs = rs')

def KeepsStrings (T T' : SymTable) : Prop := ∀ i s, T.strAt i = some s → T'.strAt i = some s

lemma leadsOk_reachable (h : LeadsOk initTable T) : Reachable T := by
  refine Relation.ReflTransGen.mono ?_ _ _ h
  rintro A B ⟨op, -, hs⟩
  exact .op op hs

lemma answerAlike_of_tracks {L E : SymTable} {rows' : List Row} (hL : Tracks L rows ns) (hE : Tracks E rows' ns)
    (hh : ∀ g, g ∉ hidden rows') (hsL : Sound L) (hsE : Sound E) : AnswerAlike L E := by
  intro qs hok
  obtain ⟨rs, L', hl⟩ := asks_total hsL qs
  obtain ⟨rs', E', he⟩ := asks_total hsE qs
  exact ⟨rs, L', rs', E', hl, he, fun hs hs' =>
    asks_agree hL hE hh qs hok (by rw [hl]; rfl) (by rw [he]; rfl) hs hs'⟩

lemma contents_initTable : contents initTable = [[]] := by decide +kernel

def brokenRecords (pad : ℕ) : Bytes := 0 :: 0 :: 0 :: 0 :: 255 :: 255 :: 255 :: 255 :: List.replicate pad 0

def brokenFile (pad : ℕ) : Bytes := leBytes 4 symStrlMagic ++ leBytes 8 2 ++ brokenRecords pad

lemma brokenFile_header (pad : ℕ) : leNat ((brokenFile pad).take 4) = symStrlMagic ∧
    leInt (((brokenFile pad).drop 4).take 8) = 2 ∧ (brokenFile pad).drop 12 = brokenRecords pad :=
  strl_header (c := 2) (by norm_num) _

lemma length_brokenFile (pad : ℕ) : (brokenFile pad).length = pad + 20 := by
  simp only [brokenFile, brokenRecords, length_append, leBytes_length, length_replicate, length_cons]
  omega

lemma validateMap_empty (h : T.strAt 0 = some []) {c : ℕ} (hl : T.lazy = some ⟨c, 0, 0 :: 0 :: 0 :: 0 :: rest⟩)
    (hc : 0 < c) : ∃ L, validateMap T 1 = some (true, L) := by
  have hlen : leNat [0, 0, 0, 0] = 0 := by decide
  have h4 : ¬rest.length + 1 + 1 + 1 + 1 < 4 := by omega
  refine ⟨{ T with lazy := some ⟨c, 1, rest⟩ }, ?_⟩
  simp [validateMap, symLazyMaterializeTo, hl, materializeLoop, materializeNext, h, hlen, h4, Nat.ne_of_gt hc]

lemma loadLazy_broken (pad : ℕ) : ∃ L, loadLazy initTable 2 (brokenRecords pad) = some (.ok, L) := by
  have hres : (reserveFor initTable 2).map Prod.fst = some true := by decide +kernel
  have hc : initTable.count = 1 := by decide +kernel
  have h0 : initTable.strAt 0 = some [] := by decide +kernel
  obtain ⟨ok, T₁, hr, hg, -⟩ := reserveFor_grows initTable_sound.1 2
  rw [hr] at hres
  obtain rfl : ok = true := some.inj hres
  have hstr := hg.keeps 0 [] h0
  generalize initTable = T at *
  have hmap : (mapFile T₁ 2 (brokenRecords pad)).strAt 0 = some [] := strAt_append_left rfl hstr
  obtain ⟨L, hv⟩ := validateMap_empty hmap rfl (by decide)
  exact ⟨L, by simp [loadLazy, hr, hc, hv]⟩

lemma raySymLoad_broken (hpad : symLazyLoadMinBytes ≤ pad) :
    ∃ L, raySymLoad initTable (brokenFile pad) = some (.ok, L) := by
  obtain ⟨hmagic, hcount, hdrop⟩ := brokenFile_header pad
  obtain ⟨L, hL⟩ := loadLazy_broken pad
  generalize initTable = T at *
  refine ⟨L, ?_⟩
  simp only [raySymLoad, length_brokenFile, hmagic, hcount, hdrop, if_neg (show ¬pad + 20 < 12 by omega),
    if_pos (show symLazyLoadMinBytes ≤ pad + 20 by omega)]
  exact hL

lemma readRecords_broken (hpad : pad < 2 ^ 32 - 1) : readRecords 2 (brokenRecords pad) = none := by
  have h0 : leNat [0, 0, 0, 0] = 0 := by decide
  have hff : leNat [255, 255, 255, 255] = 2 ^ 32 - 1 := by decide
  simp only [readRecords, brokenRecords, take_succ_cons, take_zero, drop_succ_cons, drop_zero, h0, hff,
    length_cons, length_replicate, Nat.not_lt_zero, if_false]
  rw [if_neg (by omega), if_neg (by omega), if_pos (by omega)]
  rfl

lemma loadEager_broken (hpad : pad < 2 ^ 32 - 1) (E : SymTable) :
    loadEager initTable 2 (brokenRecords pad) ≠ some (.ok, E) := by
  obtain ⟨rows, hs, hn, -⟩ := initTable_stands
  intro h
  obtain ⟨fs, hrec, -⟩ := loadEager_checks hs hn h
  rw [readRecords_broken hpad] at hrec
  cases hrec

def bothAnswer (fs : List Bytes) (qs : List Query) : Option ((SymErr × SymErr) × List Reply × List Reply) := do
  let (e₁, L) ← loadLazy initTable fs.length (fs.flatMap record)
  let (e₂, E) ← loadEager initTable fs.length (fs.flatMap record)
  let (rs, _) ← asks L qs
  let (rs', _) ← asks E qs
  return ((e₁, e₂), rs, rs')

end Rayforce.Symbol
