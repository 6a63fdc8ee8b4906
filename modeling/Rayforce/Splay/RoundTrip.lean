import Rayforce.Splay.Reload

namespace Rayforce.Splay

open Library.Words Library.Files List Option
open Rayforce.Store (Obj SymVec StrVec Desc Extra Proc SymHome Table colLoadImpl rayColSave)
open Rayforce.Domain (SymDomain Holds)

variable {pnames base : List Bytes} {disk disk' e : Disk Loc} {cached : Option SymDomain} {tbl : List Column}
    {dir : Bytes} {sym : Option Loc} {f : Loc}
  {p : Proc} {c : Column} {t : List (Bytes × Obj)} {useMmap : Bool} {target : Option SymDomain}
    {dom : Option (List Bytes)} {home : SymHome}
variable {schema : StrVec}

structure Column.Held (pnames : List Bytes) (cached : Option SymDomain) (c : Column) : Prop where
  addr : c.extra.addr.length = 8
  index : IndexWhole c.extra
  plain : symParts c.obj = none → c.obj.Held pnames
  syms : ∀ v offset len, symParts c.obj = some (v, offset, len) → len < 2 ^ 59 ∧
    (∀ pos ∈ (v.block.drop offset).take len, pos < v.dom.length) ∧
    (c.own = true → ∃ d V k, cached = some d ∧ Holds d V k ∧ v.dom <+: V)

def Column.Survives (base : List Bytes) (c : Column) : Prop :=
  match symParts c.obj with
  | some (v, offset, len) => v.ReadsRight offset len
  | none => c.obj.Survives base

def Column.Tame (c : Column) : Prop :=
  match symParts c.obj with
  | some (v, offset, len) => c.own = true → ∀ i < len, ∀ pos, v.block[v.dataIndex offset i]? = some pos →
    pos < v.dom.length
  | none => c.obj.nested = true → c.obj.SlicesShort

def SavedTable (p : Proc) (pnames : List Bytes) (tbl : List Column) (t : List (Bytes × Obj)) : Prop :=
  List.Forall₂ (fun c x => x.1 = c.name ∧ x.2.view p.names = c.obj.view pnames) tbl t

def Reloads (base pnames : List Bytes) (disk : Disk Loc) (tbl : List Column) (dir : Bytes)
    (sym : Option Loc) : Prop :=
  ∀ (p : Proc) (useMmap : Bool), Table base p.names → ∃ t, splayLoad p disk dir sym useMmap = .ok t ∧
    SavedTable p pnames tbl t

lemma Column.Held.wf (h : c.Held pnames cached) : c.Wf := by
  refine ⟨?_, h.addr⟩
  have hplain := h.plain
  have hsyms := h.syms
  cases ho : c.obj with
  | nullPtr | error | atom | table | dict | other => trivial
  | vec t v =>
    rw [ho] at hplain
    exact hplain rfl
  | symVec v =>
    rw [ho] at hsyms
    exact (hsyms v 0 v.len rfl).1
  | symSlice v offset len inside =>
    rw [ho] at hsyms
    exact (hsyms v offset len rfl).1
  | strVec v =>
    rw [ho] at hplain
    exact (hplain rfl).1
  | strSlice v offset len inside =>
    rw [ho] at hplain
    exact (hplain rfl).1
  | list es =>
    rw [ho] at hplain
    exact (hplain rfl).1

lemma column_means (ht : Table base pnames) (hc : c.Held pnames cached)
    (htarget : ∀ d, target = some d → ∃ V k U, Holds d V k ∧ V <+: U ∧ dom = some U ∧ ∀ d₀ V₀ k₀,
      cached = some d₀ → Holds d₀ V₀ k₀ → V₀ <+: V)
    {bs : Bytes} (henc : encodeColumn pnames target c = .ok bs) :
    (c.Survives base → Means base pnames dom bs c.obj) ∧
    (c.Tame → Means base pnames dom bs c.obj → c.Survives base) := by
  rw [Column.Survives, Column.Tame]
  cases hparts : symParts c.obj with
  | none =>
    have hs := encodeColumn_plain hparts henc
    have hh := hc.plain hparts
    rw [means_iff_kept ht hc.addr hc.index hparts hh hs]
    exact Store.rayColSave_kept ht hc.addr hh fun e he => by cases hs ▸ he
  | some parts =>
    obtain ⟨v, offset, len⟩ := parts
    obtain ⟨d, rfl, hsyms⟩ := encodeColumn_syms hparts henc
    obtain ⟨V, k, U, hh, hpre, rfl, hgrows⟩ := htarget d rfl
    obtain ⟨hlen, hpos, howner⟩ := hc.syms v offset len hparts
    obtain ⟨hin, hview⟩ := symParts_inside hparts
    have hown : c.own = true → v.dom <+: V := by
      intro ho
      obtain ⟨d₀, V₀, k₀, hd₀, hh₀, hdom⟩ := howner ho
      exact hdom.trans (hgrows d₀ V₀ k₀ hd₀ hh₀)
    obtain ⟨ids, hids, hlt, hloads⟩ := encoded_loads hh hpre hlen hsyms
    obtain ⟨hright, hwrong⟩ := encoded_cells hh hpre hown hin hpos hids hlt
    constructor
    · intro hr p useMmap _
      obtain ⟨o', ho', hcells⟩ := hloads p useMmap
      exact ⟨o', ho', by rw [hcells, hview, hright hr]⟩
    · intro htame hmeans
      obtain ⟨o', ho', hcells⟩ := hloads ⟨pnames, fun _ => .error .corrupt⟩ false
      obtain ⟨o'', ho'', hsame⟩ := hmeans ⟨pnames, fun _ => .error .corrupt⟩ false ht
      obtain rfl := Except.ok.inj (ho'.symm.trans ho'')
      rw [hcells, hview, Store.Value.syms.injEq] at hsame
      exact hwrong htame hsame

lemma loadColumns_ok {R : Column → Obj → Prop} {n : ℕ} {nrows : Option ℕ} (hrows : ∀ m, nrows = some m → m = n)
    (h : ∀ c ∈ tbl, splayColNameSafe c.name = true ∧ (⟨dir, c.name⟩ : Loc).path < pathMax ∧
      ∃ file o, disk ⟨dir, c.name⟩ = some file ∧ loadFile p home useMmap file = .ok o ∧ o.len = n ∧ R c o) :
    ∃ t, loadColumns p disk dir home useMmap nrows (tbl.map Column.name) = .ok t ∧
      List.Forall₂ (fun c x => x.1 = c.name ∧ R c x.2) tbl t := by
  induction tbl generalizing nrows with
  | nil => exact ⟨[], rfl, .nil⟩
  | cons c cs ih =>
    rw [forall_mem_cons] at h
    obtain ⟨⟨hsafe, hpath, file, o, hfile, hload, hlen, hR⟩, hrest⟩ := h
    have hnext : ∀ m, some (nrows.getD o.len) = some m → m = n := by
      rintro m ⟨⟩
      cases nrows with
      | none => exact hlen
      | some m => exact hrows m rfl
    obtain ⟨t, ht, hall⟩ := ih hnext hrest
    refine ⟨(c.name, o) :: t, ?_, .cons ⟨rfl, hR⟩ hall⟩
    have hat : loadAt disk ⟨dir, c.name⟩ (loadFile p home useMmap) = .ok o := by
      rw [loadAt, hfile]
      dsimp only
      rw [hload]
    have hfits : ¬ nrows.elim false (fun m => decide (o.len ≠ m)) = true := by
      cases nrows with
      | none => simp
      | some m => simp [hlen, hrows m rfl]
    rw [map_cons, loadColumns, if_neg (by rw [hsafe]; rintro ⟨⟩), if_neg (not_le.mpr hpath), hat]
    show (if nrows.elim false (fun m => decide (o.len ≠ m)) = true then _ else _) = Except.ok _
    rw [if_neg hfits, ht]
    rfl

lemma schema_whole {ns : List Bytes} (h : HoldsStrs schema ns) (hlen : ns.length < 2 ^ 59) :
    ∃ w : StrVec, colLoadImpl p .process (schemaBytes schema) = .ok (.strVec w) ∧
      w.descs.mapM (Desc.str w.pool) = some ns := by
  have hcount := h.strs.length_eq
  have hfits := h.fits
  have hok : ∀ d ∈ schema.descs, d.Ok schema.pool := by
    intro d hd
    obtain ⟨s, hs⟩ := Store.exists_of_forall₂ h.strs hd
    exact hs.1
  refine ⟨⟨schema.attrs &&& Store.colDiskAttrsMask, schema.descs, schema.pool⟩, ?_, h.mapM⟩
  rw [schemaBytes, Store.load_strs (by simp) (by omega) (by omega), if_pos hok]

lemma exists_of_forall₂_right {α β : Type} {r : α → β → Prop} {l : List α} {l' : List β} (h : List.Forall₂ r l l')
    {a : α} (ha : a ∈ l) :
    ∃ b ∈ l', r a b := by
  induction h with
  | nil => cases ha
  | cons hr _ ih =>
    rcases mem_cons.mp ha with rfl | ha
    · exact ⟨_, mem_cons_self, hr⟩
    · obtain ⟨b, hb, hrb⟩ := ih ha
      exact ⟨b, mem_cons_of_mem _ hb, hrb⟩

lemma reloads_iff (ht : Table base pnames) (hwf : ∀ c ∈ tbl, c.Wf) (hcount : tbl.length < 2 ^ 59)
    (hsafe : ∀ c ∈ tbl, splayColNameSafe c.name = true)
    (htarget : ∀ d, target = some d → ∃ V k, Holds d V k) (hdom : openSymfile (sym.bind disk) = .ok dom)
    (hcols : ∀ c ∈ tbl, WrittenAs pnames target disk dir c) (hpath : (⟨dir, dotD⟩ : Loc).path < pathMax)
    (hs : schemaOf tbl = some schema) (hfile : disk ⟨dir, dotD⟩ = some (schemaBytes schema)) :
    Reloads base pnames disk tbl dir sym ↔ (∃ n, ∀ c ∈ tbl, c.obj.len = n) ∧
      ∀ c ∈ tbl, ∀ bs, encodeColumn pnames target c = .ok bs → Means base pnames dom bs c.obj := by
  have hnames : persistedNames tbl = tbl.map Column.name := by
    rw [persistedNames, filter_eq_self]
    intro n hn
    obtain ⟨c, hc, rfl⟩ := mem_map.mp hn
    exact hsafe c hc
  have hholds := schemaOf_holds hs
  rw [hnames] at hholds
  have hlen : ∀ c ∈ tbl, ∀ bs, encodeColumn pnames target c = .ok bs → ∀ {p useMmap o},
      loadFile p (.symfile dom) useMmap bs = .ok o → o.len = c.obj.len :=
    fun c hc bs henc {p useMmap o} hload =>
      encoded_len htarget (hwf c hc) ⟨bs, henc, prefix_rfl, fun _ => rfl⟩ (loads_of_loadFile hload)
  constructor
  · intro h
    have hload : ∀ (p : Proc) useMmap, Table base p.names → (∃ rows, ∀ c ∈ tbl, c.obj.len = rows) ∧
        ∀ c ∈ tbl, ∀ bs, encodeColumn pnames target c = .ok bs →
          ∃ o', loadFile p (.symfile dom) useMmap bs = .ok o' ∧ o'.view p.names = c.obj.view pnames := by
      intro p useMmap hp
      obtain ⟨t, hok, hsaved⟩ := h p useMmap hp
      obtain ⟨dom', -, -, ns, hdom', -, -, -, -, hloaded⟩ := splayLoad_ok.mp hok
      obtain rfl := Except.ok.inj (hdom.symm.trans hdom')
      obtain ⟨-, hfiles, rows, -, hrows⟩ := loadColumns_spec hloaded
      have hcol : ∀ c ∈ tbl, ∀ bs, encodeColumn pnames target c = .ok bs →
        ∃ o', loadFile p (.symfile dom) useMmap bs = .ok o' ∧
          o'.view p.names = c.obj.view pnames ∧ o'.len = rows := by
        intro c hc bs henc
        obtain ⟨x, hx, hname, hview⟩ := exists_of_forall₂_right hsaved hc
        obtain ⟨file, hxfile, hxload⟩ := hfiles x hx
        obtain ⟨-, bs', henc', hdisk⟩ := hcols c hc
        obtain rfl := Except.ok.inj (henc.symm.trans henc')
        rw [hname, hdisk] at hxfile
        obtain rfl := some.inj hxfile
        exact ⟨x.2, hxload, hview, hrows x hx⟩
      refine ⟨⟨rows, fun c hc => ?_⟩, fun c hc bs henc => ?_⟩
      · obtain ⟨-, bs, henc, -⟩ := hcols c hc
        obtain ⟨o', ho', -, hrow⟩ := hcol c hc bs henc
        rw [← hlen c hc bs henc ho', hrow]
      · obtain ⟨o', ho', hview, -⟩ := hcol c hc bs henc
        exact ⟨o', ho', hview⟩
    exact ⟨(hload ⟨pnames, fun _ => .error .corrupt⟩ false ht).1, fun c hc bs henc p useMmap hp =>
      (hload p useMmap hp).2 c hc bs henc⟩
  · rintro ⟨⟨n, hn⟩, hmeans⟩ p useMmap hp
    have hsize : (tbl.map Column.name).length < 2 ^ 59 := by rwa [length_map]
    obtain ⟨w, hw, hstrs⟩ := schema_whole (p := p) hholds hsize
    obtain ⟨t, hload, hall⟩ : ∃ t, loadColumns p disk dir (.symfile dom) useMmap none (tbl.map Column.name) =
        .ok t ∧ SavedTable p pnames tbl t := by
      refine loadColumns_ok (R := fun c o => o.view p.names = c.obj.view pnames) (n := n)
        (by rintro _ ⟨⟩) fun c hc => ?_
      obtain ⟨hcpath, bs, henc, hdisk⟩ := hcols c hc
      obtain ⟨o', ho', hview⟩ := hmeans c hc bs henc p useMmap hp
      exact ⟨hsafe c hc, hcpath, bs, o', hdisk, ho', (hlen c hc bs henc ho').trans (hn c hc), hview⟩
    exact ⟨t, splayLoad_ok.mpr ⟨dom, _, w, _, hdom, hpath, hfile, hw, hstrs, hload⟩, hall⟩

lemma hasSymCols_iff : tableHasSymCols tbl = true ↔ ∃ c ∈ tbl, (symParts c.obj).isSome = true := by
  rw [tableHasSymCols, List.any_eq_true]

lemma nodup_names (hsafe : ∀ c ∈ tbl, splayColNameSafe c.name = true) (h : (persistedNames tbl).Nodup) :
    (tbl.map Column.name).Nodup := by
  have hnames : persistedNames tbl = tbl.map Column.name := by
    rw [persistedNames, filter_eq_self]
    intro n hn
    obtain ⟨c, hc, rfl⟩ := mem_map.mp hn
    exact hsafe c hc
  rwa [← hnames]

def SymKept (dir : Bytes) (tbl : List Column) (sym : Option Loc) : Prop :=
  ∀ f, sym = some f → Spared dir tbl f ∨ tableHasSymCols tbl = false ∧ Passing dir tbl f

lemma raySplaySave_written (hcur : CachedCurrent disk cached sym) (ht : Table base pnames)
    (hheld : ∀ c ∈ tbl, c.Held pnames cached)
    (hcount : tbl.length < 2 ^ 59) (hsafe : ∀ c ∈ tbl, splayColNameSafe c.name = true)
    (hopen : ∀ f, sym = some f → ∃ dom, openSymfile (disk f) = .ok dom)
    (hstop : (raySplaySave pnames disk cached tbl dir sym).stop = none)
    (hrun : runAll (raySplaySave pnames disk cached tbl dir sym).ops disk = some disk')
    (hclob : Unclobbered dir tbl) (hkept : SymKept dir tbl sym) :
    ∃ target dom, (∀ d, target = some d → ∃ V k U, Holds d V k ∧ V <+: U ∧ dom = some U ∧
        ∀ d₀ V₀ k₀, cached = some d₀ → Holds d₀ V₀ k₀ → V₀ <+: V) ∧
      (∀ c ∈ tbl, WrittenAs pnames target disk' dir c) ∧ (⟨dir, dotD⟩ : Loc).path < pathMax ∧
        (disk' ⟨dir, dotD⟩).isSome = true ∧
      (Reloads base pnames disk' tbl dir sym ↔ (∃ n, ∀ c ∈ tbl, c.obj.len = n) ∧
        ∀ c ∈ tbl, ∀ bs, encodeColumn pnames target c = .ok bs → Means base pnames dom bs c.obj) := by
  obtain ⟨hnodup, target, e, htstop, htrun, hcase⟩ := raySplaySave_run hcur hstop hrun
  obtain ⟨hcols, hpath, schema, hs, hfile⟩ := tablePlan_run hsafe (nodup_names hsafe hnodup) hclob htstop htrun
  obtain ⟨dom, hdom, htarget⟩ : ∃ dom, openSymfile (sym.bind disk') = .ok dom ∧ ∀ d, target = some d →
    ∃ V k U, Holds d V k ∧ V <+: U ∧ dom = some U ∧ ∀ d₀ V₀ k₀, cached = some d₀ → Holds d₀ V₀ k₀ → V₀ <+: V := by
    rcases hcase with ⟨-, rfl, rfl⟩ | ⟨f, d, V, k, U, hsym, rfl, hh, hpre, hU, hgrows, hsyms⟩
    · cases hsym : sym with
      | none => exact ⟨none, rfl, nofun⟩
      | some f =>
        have hpassed : disk' f = e f ∨ disk' f = none := by
          rcases hkept f hsym with hspared | ⟨-, hpass⟩
          · exact .inl (tablePlan_spares (runAll_done htrun).stops hspared)
          · exact tablePlan_passes hsafe htstop htrun hpass
        rcases hpassed with hsame | hgone
        · obtain ⟨dom, hdom⟩ := hopen f hsym
          exact ⟨dom, by rw [bind_some, hsame, hdom], nofun⟩
        · exact ⟨none, by rw [bind_some, hgone]; rfl, nofun⟩
    · have hspared : Spared dir tbl f := (hkept f hsym).resolve_right fun hno => by
        rw [hno.1] at hsyms
        cases hsyms
      refine ⟨some U, by rw [hsym, bind_some, tablePlan_spares (runAll_done htrun).stops hspared, hU], ?_⟩
      rintro d' ⟨⟩
      exact ⟨V, k, U, hh, hpre, rfl, hgrows⟩
  have hholds : ∀ d, target = some d → ∃ V k, Holds d V k := by
    intro d hd
    obtain ⟨V, k, -, hh, -⟩ := htarget d hd
    exact ⟨V, k, hh⟩
  exact ⟨target, dom, htarget, hcols, hpath, by rw [hfile]; rfl,
    reloads_iff ht (fun c hc => (hheld c hc).wf) hcount hsafe hholds hdom hcols hpath hs hfile⟩

/-- No link sidecar has a column's name, and neither it nor a column the symbol file's. -/
def Aside (dir : Bytes) (tbl : List Column) (sym : Option Loc) : Prop :=
  (∀ a ∈ tbl, ∀ b ∈ tbl, (⟨dir, a.name⟩ : Loc) ∉ linkText ⟨dir, b.name⟩ b.target) ∧ ∀ f, sym = some f →
    ∀ b ∈ tbl, f ∉ b.remains dir

lemma Reloads.files (h : Reloads base pnames disk tbl dir sym) (ht : Table base pnames) :
    ∃ dom, openSymfile (sym.bind disk) = .ok dom ∧ ∀ c ∈ tbl, ∃ file o, disk ⟨dir, c.name⟩ = some file ∧
      loadFile ⟨pnames, fun _ => .error .corrupt⟩ (.symfile dom) false file = .ok o := by
  obtain ⟨t, hok, hsaved⟩ := h ⟨pnames, fun _ => .error .corrupt⟩ false ht
  obtain ⟨dom, -, -, ns, hdom, -, -, -, -, hloaded⟩ := splayLoad_ok.mp hok
  refine ⟨dom, hdom, fun c hc => ?_⟩
  obtain ⟨x, hx, hname, -⟩ := exists_of_forall₂_right hsaved hc
  obtain ⟨file, hfile, hload⟩ := (loadColumns_spec hloaded).2.1 x hx
  exact ⟨file, x.2, hname ▸ hfile, hload⟩

/-- Without its symbol file no symbol column loads. -/
lemma Reloads.symfile (h : Reloads base pnames disk tbl dir (some f)) (ht : Table base pnames)
    (hheld : ∀ c ∈ tbl, c.Held pnames cached)
    (hcols : ∀ c ∈ tbl, WrittenAs pnames target disk dir c) (htarget : ∀ d, target = some d → ∃ V k, Holds d V k)
    (hsyms : tableHasSymCols tbl = true) : disk f ≠ none := by
  intro hgone
  obtain ⟨dom, hdom, hfiles⟩ := h.files ht
  rw [bind_some, hgone] at hdom
  cases hdom
  obtain ⟨c, hc, hparts⟩ := hasSymCols_iff.mp hsyms
  obtain ⟨⟨v, offset, len⟩, hparts⟩ := isSome_iff_exists.mp hparts
  obtain ⟨-, bs, henc, hdisk⟩ := hcols c hc
  obtain ⟨d, rfl, -⟩ := encodeColumn_syms hparts henc
  obtain ⟨V, k, hh⟩ := htarget d rfl
  rw [encodeColumn, hparts] at henc
  obtain ⟨ids, m, -, -, hpos, hm, hbody, hrc, -⟩ :=
    encoded_validates hh ((hheld c hc).syms v offset len hparts).1 henc
  obtain ⟨file, o, hfile, hload⟩ := hfiles c hc
  obtain rfl := some.inj (hdisk.symm.trans hfile)
  have hv : Vouched bs := by
    intro m' ids' hm' hbody' i hi
    obtain rfl := Except.ok.inj (hm.symm.trans hm')
    obtain rfl := Store.Body.syms.inj (hbody.symm.trans hbody')
    rw [hrc]
    exact hpos i hi
  obtain ⟨U', hU', -⟩ := positions_in_vocabulary hv ⟨m, hm, hbody⟩ hload
  cases hU'

/-- The schema's header does not begin like a symbol file. -/
lemma openSymfile_schema (schema : StrVec) : openSymfile (some (schemaBytes schema)) = .error .corrupt := by
  have hhead : (schemaBytes schema).take 4 = [0, 0, 0, 0] := by
    rw [schemaBytes, Store.saveStrs, Store.headerBytes, Store.headerAux]
    simp only [Option.isSome_none, Bool.false_eq_true, if_false]
    split_ifs <;> rfl
  have hmagic : Domain.domParseStrlAtoms (schemaBytes schema) = none := by
    rw [Domain.domParseStrlAtoms, hhead]
    split_ifs with hlen hne
    · rfl
    · rfl
    · exact absurd (by decide) hne
  rw [openSymfile, Domain.domCreate, hmagic]

lemma raySplaySave_loses (hcur : CachedCurrent disk cached sym) (ht : Table base pnames)
    (hheld : ∀ c ∈ tbl, c.Held pnames cached)
    (hsafe : ∀ c ∈ tbl, splayColNameSafe c.name = true)
    (hstop : (raySplaySave pnames disk cached tbl dir sym).stop = none)
    (hrun : runAll (raySplaySave pnames disk cached tbl dir sym).ops disk = some disk')
    (haside : Aside dir tbl sym)
    (h : Reloads base pnames disk' tbl dir sym) : Unclobbered dir tbl ∧ SymKept dir tbl sym := by
  obtain ⟨hnodup, target, e, htstop, htrun, hcase⟩ := raySplaySave_run hcur hstop hrun
  have hdistinct := nodup_names hsafe hnodup
  have hclob : Unclobbered dir tbl := by
    by_contra hclob
    obtain ⟨c, hc, hgone⟩ := tablePlan_clobbered hsafe hdistinct htstop htrun haside.1 hclob
    obtain ⟨dom, -, hfiles⟩ := h.files ht
    obtain ⟨file, -, hfile, -⟩ := hfiles c hc
    rw [hgone] at hfile
    cases hfile
  refine ⟨hclob, fun f hsym => ?_⟩
  obtain ⟨hcols, -, schema, -, hschema⟩ := tablePlan_run hsafe hdistinct hclob htstop htrun
  have hpass : Passing dir tbl f := by
    refine ⟨haside.2 f hsym, ?_⟩
    rintro rfl
    obtain ⟨dom, hdom, -⟩ := h.files ht
    rw [hsym, bind_some, hschema, openSymfile_schema] at hdom
    cases hdom
  by_cases hspared : Spared dir tbl f
  · exact .inl hspared
  · rcases hcase with ⟨hno, -⟩ | ⟨f', d, V, k, U, -, rfl, hh, -, -, -, hsyms⟩
    · exact .inr ⟨hno, hpass⟩
    · have htarget : ∀ d', some d = some d' → ∃ V k, Holds d' V k := by
        rintro d' ⟨⟩
        exact ⟨V, k, hh⟩
      exact absurd (tablePlan_gone hsafe htstop htrun hpass hspared)
        ((hsym ▸ h).symfile ht hheld hcols htarget hsyms)

def plainTable : List Column := dotted.take 2

lemma plainTable_held : ∀ c ∈ plainTable, c.Held [[]] none := by
  have hsmall : ∀ v offset len, symParts (.symVec ⟨3, [[], [0x78]], true, [1], 1, le_rfl⟩) =
    some (v, offset, len) → len < 2 ^ 59 ∧ (∀ pos ∈ (v.block.drop offset).take len, pos < v.dom.length) ∧
        (false = true → ∃ d V k, (none : Option SymDomain) = some d ∧ Holds d V k ∧ v.dom <+: V) := by
    rintro v offset len ⟨⟩
    exact ⟨by norm_num, by decide, by rintro ⟨⟩⟩
  simp only [plainTable, dotted, take_succ_cons, take_zero, forall_mem_cons]
  refine ⟨⟨rfl, by rintro _ ⟨⟩, fun _ => ?_, by rintro _ _ _ ⟨⟩⟩, ⟨rfl, by rintro _ ⟨⟩, by rintro ⟨⟩, hsmall⟩,
    by rintro _ ⟨⟩⟩
  norm_num [Obj.Held, Serde.Vec.cells, Serde.FixTy.size]

def plainSym : Loc := ⟨[0x74], [0x73, 0x79, 0x6D]⟩

end Rayforce.Splay
