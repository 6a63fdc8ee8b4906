import Rayforce.Splay.Vouched
import Rayforce.Store.Preflight

namespace Rayforce.Splay

open Library.Words Library.Files List Option
open Rayforce.Store (Obj StrVec Desc Proc SymHome colValidateMapped colAttach colLoadImpl RefusedColumn)
open Rayforce.Domain (SymDomain Holds)
open Rayforce.Symbol (strlFile)

variable {pnames : List Bytes} {disk disk' e : Disk Loc} {cached : Option SymDomain} {tbl : List Column}
    {dir : Bytes} {sym : Option Loc} {f g : Loc}
  {p : Proc} {c : Column} {t : List (Bytes × Obj)} {useMmap : Bool} {target : Option SymDomain}
    {dom dom' : Option (List Bytes)}
variable {names : List Bytes} {home : SymHome} {nrows : Option ℕ} {o : Obj} {file : Bytes}

def CachedCurrent (disk : Disk Loc) (cached : Option SymDomain) (sym : Option Loc) : Prop :=
  ∀ f, sym = some f → ∀ d, cached = some d → Current (disk f) d

lemma cachedCurrent_none (disk : Disk Loc) (sym : Option Loc) : CachedCurrent disk none sym := by
  intro f _ d hd
  cases hd

lemma raySplaySave_stops (hcur : CachedCurrent disk cached sym)
    (h : Stops (raySplaySave pnames disk cached tbl dir sym).ops disk disk') :
    disk' = disk ∨ (persistedNames tbl).Nodup ∧ ∃ target e, (∀ d, target = some d → ∃ V k, Holds d V k) ∧
      (e = disk ∨ ∃ f d, sym = some f ∧ Current (disk f) d ∧ Stops (flushPlan f (disk f) d).ops disk e) ∧
      Stops (tablePlan pnames target tbl dir).ops e disk' := by
  have hhalt : ∀ {s : Stop}, Stops (Plan.halt s).ops disk disk' → disk' = disk := fun hs => by
    cases hs
    rfl
  rw [raySplaySave.eq_def] at h
  by_cases hnodup : (persistedNames tbl).Nodup
  · rw [if_neg (not_not.mpr hnodup)] at h
    cases hpre : preflightAll tbl with
    | error err =>
      rw [hpre] at h
      exact .inl (hhalt h)
    | ok u =>
      rw [hpre] at h
      dsimp only at h
      by_cases hsyms : tableHasSymCols tbl = false
      · rw [if_pos hsyms] at h
        exact .inr ⟨hnodup, none, disk, nofun, .inl rfl, h⟩
      · rw [if_neg hsyms] at h
        cases hsym : sym with
        | none =>
          rw [hsym] at h
          exact .inl (hhalt h)
        | some f =>
          rw [hsym] at h
          dsimp only at h
          split_ifs at h
          · exact .inl (hhalt h)
          · cases hm : mergeVocabulary (disk f) cached tbl with
            | error s =>
              rw [hm] at h
              exact .inl (hhalt h)
            | ok d =>
              rw [hm] at h
              obtain ⟨V, k, hh, hp, -⟩ := mergeVocabulary_current (hcur f hsym) (.inl rfl) hm
              have hd : Current (disk f) d := ⟨V, k, hh, hp⟩
              have htarget : ∀ d', some d = some d' → ∃ V k, Holds d' V k := by
                rintro d' ⟨⟩
                exact ⟨V, k, hh⟩
              right
              refine ⟨hnodup, some d, ?_⟩
              rcases stops_andThen h with hin | ⟨-, e, he, hrest⟩
              · exact ⟨disk', htarget, .inr ⟨f, d, rfl, hd, hin⟩, .refl _ _⟩
              · exact ⟨e, htarget, .inr ⟨f, d, rfl, hd, he.stops⟩, hrest⟩
  · rw [if_pos hnodup] at h
    exact .inl (hhalt h)

lemma flush_effect (h : e = disk ∨ ∃ f d, sym = some f ∧ Current (disk f) d ∧
    Stops (flushPlan f (disk f) d).ops disk e)
    (hg : ∀ f, sym = some f → g ≠ f.tmp ∧ g ≠ f.lk) : e g = disk g ∨ sym = some g ∧ Grown (disk g) (e g) := by
  rcases h with rfl | ⟨f, d, hsym, hd, hstops⟩
  · exact .inl rfl
  · obtain ⟨htmp, hlk⟩ := hg f hsym
    by_cases hgf : g = f
    · subst hgf
      exact (flushPlan_stops hd hstops).imp_right fun hgrown => ⟨hsym, hgrown⟩
    · refine .inl (hstops.frame fun op hop htouch => ?_)
      rcases flushPlan_touches hop htouch with heq | heq | heq
      · exact hgf heq
      · exact htmp heq
      · exact hlk heq

lemma loads_of_loadFile (h : loadFile p home useMmap file = .ok o) : Store.Loads p home file o := by
  rw [loadFile] at h
  split_ifs at h
  · split at h
    · exact .inl h
    · exact .inr h
  · exact .inl h

lemma loadAt_ok {load : Bytes → Except Store.Err Obj} (h : loadAt disk f load = .ok o) :
    ∃ bs, disk f = some bs ∧ load bs = .ok o := by
  rw [loadAt] at h
  split at h
  · cases h
  · rename_i bs hbs
    split at h
    · cases h
    · rename_i o' ho'
      cases h
      exact ⟨bs, hbs, ho'⟩

lemma loadColumns_spec (h : loadColumns p disk dir home useMmap nrows names = .ok t) :
    t.map Prod.fst = names ∧ (∀ x ∈ t, ∃ file, disk ⟨dir, x.1⟩ = some file ∧
      loadFile p home useMmap file = .ok x.2) ∧
      ∃ rows, (∀ n, nrows = some n → rows = n) ∧ ∀ x ∈ t, x.2.len = rows := by
  induction names generalizing nrows t with
  | nil =>
    cases h
    exact ⟨rfl, by simp, nrows.getD 0, by rintro n rfl; rfl, by simp⟩
  | cons name names ih =>
    rw [loadColumns] at h
    split_ifs at h
    obtain ⟨col, hcol, h⟩ := Store.bind_eq_ok' h
    by_cases hlen : nrows.elim false (fun n => decide (col.len ≠ n)) = true
    · rw [if_pos hlen] at h
      cases h
    · rw [if_neg hlen] at h
      obtain ⟨cols, hcols, hpure⟩ := Store.bind_eq_ok' h
      cases hpure
      obtain ⟨hnames, hfiles, rows, hrows, hall⟩ := ih hcols
      have hfirst : col.len = rows := by
        rw [hrows _ rfl]
        cases nrows with
        | none => rfl
        | some n => simpa using hlen
      refine ⟨by rw [map_cons, hnames], ?_, rows, ?_, ?_⟩
      · rw [forall_mem_cons]
        exact ⟨loadAt_ok hcol, hfiles⟩
      · rintro n rfl
        exact hrows n rfl
      · rw [forall_mem_cons]
        exact ⟨hfirst, hall⟩

lemma splayLoad_ok : splayLoad p disk dir sym useMmap = .ok t ↔ ∃ dom bs v names,
    openSymfile (sym.bind disk) = .ok dom ∧
    (⟨dir, dotD⟩ : Loc).path < pathMax ∧ disk ⟨dir, dotD⟩ = some bs ∧ colLoadImpl p .process bs = .ok (.strVec v) ∧
    v.descs.mapM (Desc.str v.pool) = some names ∧
      loadColumns p disk dir (.symfile dom) useMmap none names = .ok t := by
  constructor
  · intro h
    rw [splayLoad] at h
    obtain ⟨dom, hdom, h⟩ := Store.bind_eq_ok' h
    split_ifs at h with hpath
    obtain ⟨schema, hschema, h⟩ := Store.bind_eq_ok' h
    obtain ⟨bs, hbs, hload⟩ := loadAt_ok hschema
    cases schema with
    | strVec v =>
      dsimp only at h
      cases hm : v.descs.mapM (Desc.str v.pool) with
      | none =>
        rw [hm] at h
        cases h
      | some names =>
        rw [hm] at h
        exact ⟨dom, bs, v, names, hdom, not_le.mp hpath, hbs, hload, hm, h⟩
    | _ => cases h
  · rintro ⟨dom, bs, v, names, hdom, hpath, hbs, hload, hm, h⟩
    have hat : loadAt disk ⟨dir, dotD⟩ (colLoadImpl p .process) = .ok (.strVec v) := by
      rw [loadAt, hbs]
      dsimp only
      rw [hload]
    rw [splayLoad, hdom]
    show (if pathMax ≤ (⟨dir, dotD⟩ : Loc).path then _ else _) = Except.ok t
    rw [if_neg (not_le.mpr hpath), hat]
    simp only [bind, Except.bind, hm]
    exact h

lemma encoded_len {q : Bytes} (htarget : ∀ d, target = some d → ∃ V k, Holds d V k) (hc : c.Wf)
    (h : Encoded pnames target c q) (hl : Store.Loads p home q o) : o.len = c.obj.len := by
  obtain ⟨bs, henc, hq, -⟩ := h
  cases hparts : symParts c.obj with
  | none => exact Store.loads_len hc.addr hc.fits (encodeColumn_plain hparts henc) hq hl
  | some parts =>
    obtain ⟨d, rfl, hsyms⟩ := encodeColumn_syms hparts henc
    obtain ⟨hlen, hobj⟩ := symParts_fits hc hparts
    obtain ⟨ids, -, hids, rfl⟩ := encoded_eq hsyms
    have hsize := Nat.mul_le_mul_left ids.length (Store.symSize_le (encodedAttrs c d.count))
    rw [hobj, ← hids]
    exact Store.loads_cut_len rfl (by decide) (.inl rfl) (hids ▸ hlen) (by omega) hq hl

structure Complete (tbl : List Column) (t : List (Bytes × Obj)) : Prop where
  columns : t.map Prod.fst = persistedNames tbl
  rows : ∀ c, OwnFile tbl c → ∀ x ∈ t, x.2.len = c.obj.len
  table : ∀ n, (∀ c ∈ tbl, c.obj.len = n) → ∀ x ∈ t, x.2.len = n

lemma exists_ownFile (h : persistedNames tbl ≠ []) : ∃ c, OwnFile tbl c := by
  classical
  obtain ⟨n, hn⟩ := exists_mem_of_ne_nil _ h
  obtain ⟨⟨a, ha, rfl⟩, hsafe⟩ := mem_persistedNames.mp hn
  have hex : ∃ k, ∃ c ∈ tbl, splayColNameSafe c.name = true ∧ c.name.length = k := ⟨_, a, ha, hsafe, rfl⟩
  obtain ⟨c, hc, hcsafe, hlen⟩ := Nat.find_spec hex
  refine ⟨c, hc, hcsafe, fun b hb hbsafe htail => ?_⟩
  have hmin := Nat.find_min' hex ⟨b, hb, hbsafe, rfl⟩
  rw [← hlen] at hmin
  simp only [family, tail_cons, mem_cons, not_mem_nil, or_false] at htail
  rcases htail with heq | heq | heq <;>
  · rw [heq] at hmin
    simp [dotTmp, dotLink] at hmin

lemma not_load_strlFile {v : StrVec} : colLoadImpl p .process (strlFile names) ≠ .ok (.strVec v) := by
  intro h
  have hmagic : strlFile names = Store.strListMagic ++ (leBytes 8 names.length ++ names.flatMap Symbol.record) :=
    append_assoc ..
  rw [hmagic, Store.colLoadImpl_strList] at h
  obtain ⟨r, hread, heq⟩ := Store.map_eq_ok h
  obtain ⟨n, r1, -, hread⟩ := Library.Readers.bind_eq_ok.mp hread
  obtain ⟨u, r2, -, hread⟩ := Library.Readers.bind_eq_ok.mp hread
  obtain ⟨ss, r3, -, hpure⟩ := Library.Readers.bind_eq_ok.mp hread
  have hlist := congrArg Prod.fst (Except.ok.inj hpure)
  rw [← heq] at hlist
  cases hlist

lemma fresh_complete (hcur : CachedCurrent disk cached sym) (hwf : ∀ c ∈ tbl, c.Wf) (hcount : tbl.length < 2 ^ 59)
    (h : Stops (raySplaySave pnames disk cached tbl dir sym).ops disk disk') (hfresh : disk ⟨dir, dotD⟩ = none)
    {sym' : Option Loc} (hload : splayLoad p disk' dir sym' useMmap = .ok t) : Complete tbl t := by
  obtain ⟨dom, bs, v, names, -, -, hbs, hschema, hnames, hcols⟩ := splayLoad_ok.mp hload
  rcases raySplaySave_stops hcur h with rfl | ⟨hnodup, target, e, htarget, hflush, htable⟩
  · rw [hfresh] at hbs
    cases hbs
  · have haux : ∀ f, sym = some f → (⟨dir, dotD⟩ : Loc) ≠ f.tmp ∧ (⟨dir, dotD⟩ : Loc) ≠ f.lk := by
      intro f _
      constructor
      · intro heq
        have hlen := congrArg (fun l => l.name.length) heq
        simp [Loc.tmp, dotD, dotTmp] at hlen
      · intro heq
        have hlast := congrArg (fun l => l.name.reverse.head?) heq
        simp [Loc.lk, dotD, dotLk] at hlast
    rcases tablePlan_schema htable with hold | ⟨schema, q, e', hs, hq, hnew, hstop, hdone, hsame⟩
    · rcases flush_effect hflush haux with hkept | ⟨-, V, -, hfile, -⟩
      · rw [hold, hkept, hfresh] at hbs
        cases hbs
      · rw [hold, hfile] at hbs
        obtain rfl := some.inj hbs
        exact absurd hschema not_load_strlFile
    · obtain rfl := some.inj (hnew.symm.trans hbs)
      have hpersisted : (persistedNames tbl).length < 2 ^ 59 := by
        refine lt_of_le_of_lt ((length_filter_le _ _).trans_eq ?_) hcount
        rw [length_map]
      obtain ⟨w, hw, hall⟩ := schema_loads (schemaOf_holds hs) hpersisted hq hschema
      cases hw
      obtain rfl := some.inj (hnames.symm.trans hall)
      obtain ⟨hcolumns, hfiles, rows, -, hrows⟩ := loadColumns_spec hcols
      have hkept : ∀ c, OwnFile tbl c → ∀ x ∈ t, x.2.len = c.obj.len := by
        intro c hc
        have hmem : c.name ∈ t.map Prod.fst := by
          rw [hcolumns]
          exact mem_persistedNames.mpr ⟨⟨c, hc.mem, rfl⟩, hc.safe⟩
        obtain ⟨x, hx, hxc⟩ := mem_map.mp hmem
        obtain ⟨file, hfile, hxload⟩ := hfiles x hx
        obtain ⟨r, hr, hdisk⟩ := columnsPlan_done hc hnodup hstop hdone
        rw [hxc, hsame c hc.mem hc.safe, hdisk] at hfile
        obtain rfl := some.inj hfile
        have hlen := encoded_len htarget (hwf c hc.mem) hr (loads_of_loadFile hxload)
        intro y hy
        rw [hrows y hy, ← hrows x hx, hlen]
      refine ⟨hcolumns, hkept, fun n hn x hx => ?_⟩
      have hne : persistedNames tbl ≠ [] := by
        intro hnil
        rw [hnil, map_eq_nil_iff] at hcolumns
        rw [hcolumns] at hx
        cases hx
      obtain ⟨c, hc⟩ := exists_ownFile hne
      rw [hkept c hc x hx, hn c hc.mem]

def Auxiliary (tbl : List Column) (dir : Bytes) (sym : Option Loc) (f : Loc) : Prop :=
  (∃ c ∈ tbl, splayColNameSafe c.name = true ∧ ∃ m ∈ (family c.name).tail, f = ⟨dir, m⟩) ∨ ∃ g, sym = some g ∧
    (f = g.tmp ∨ f = g.lk)

def HoldsPositions (file : Bytes) (ids : List ℕ) : Prop := ∃ m, colValidateMapped file = .ok m ∧ m.body = .syms ids

def VouchedAt (disk : Disk Loc) (f : Loc) : Prop := ∀ file, disk f = some file → Vouched file

lemma vouched_strlFile (names : List Bytes) : Vouched (strlFile names) := by
  have hmagic : strlFile names = Store.strListMagic ++ (leBytes 8 names.length ++ names.flatMap Symbol.record) :=
    append_assoc ..
  rw [hmagic]
  exact (symless_marked (by simp [Store.extendedMagics]) prefix_rfl).vouched

lemma vouched_kept (hcur : CachedCurrent disk cached sym) (hwf : ∀ c ∈ tbl, c.Wf)
    (h : Stops (raySplaySave pnames disk cached tbl dir sym).ops disk disk')
    (hsafe : splayColNameSafe f.name = true)
    (haux : ¬ Auxiliary tbl dir sym f) (hv : VouchedAt disk f) : VouchedAt disk' f := by
  rcases raySplaySave_stops hcur h with rfl | ⟨-, target, e, htarget, hflush, htable⟩
  · exact hv
  · have hve : VouchedAt e f := by
      rcases flush_effect hflush (g := f)
        (fun g hg => ⟨fun heq => haux (.inr ⟨g, hg, .inl heq⟩), fun heq => haux (.inr ⟨g, hg, .inr heq⟩)⟩) with
        hkept | ⟨-, V, -, hfile, -⟩
      · intro file hfile
        exact hv file (hkept ▸ hfile)
      · intro file hfile'
        obtain rfl := some.inj (hfile.symm.trans hfile')
        exact vouched_strlFile V
    have hdot := family_head hsafe mem_cons_self
    by_cases hdir : f.dir = dir
    · subst hdir
      have hfam : ∀ c ∈ tbl, splayColNameSafe c.name = true → f.name ∉ (family c.name).tail :=
        fun c hc hcs htail => haux (.inl ⟨c, hc, hcs, f.name, htail, rfl⟩)
      rcases tablePlan_stops htable hdot hfam with hkept | hgone | ⟨c, hc, -, q, hq, hfile⟩
      · intro file hfile
        exact hve file (hkept ▸ hfile)
      · intro file hfile
        cases hgone.symm.trans hfile
      · intro file hfile'
        obtain rfl := some.inj (hfile.symm.trans hfile')
        exact vouched_encoded htarget (hwf c hc) hq
    · intro file hfile
      rw [tablePlan_frame htable fun heq => absurd heq hdir] at hfile
      exact hve file hfile

lemma positions_in_vocabulary {ids : List ℕ} (hv : Vouched file) (hids : HoldsPositions file ids)
    (h : loadFile p (.symfile dom) useMmap file = .ok o) : ∃ U, dom = some U ∧ ∀ i ∈ ids, i < U.length := by
  obtain ⟨m, hm, hbody⟩ := hids
  have hpos := hv m ids hm hbody
  obtain ⟨scan, hattach⟩ : ∃ scan, colAttach p (.symfile dom) scan m = .ok o := by
    rcases loads_of_loadFile h with hload | hmap
    · rw [Store.colLoadImpl_mapped hm] at hload
      exact ⟨true, hload⟩
    · rw [Store.colMmapImpl, hm] at hmap
      replace hmap : (if m.hasIndex = false ∧
        m.tail ≠ file.length then .error .io else colAttach p (.symfile dom) false m) = .ok o := hmap
      split_ifs at hmap
      exact ⟨false, hmap⟩
  rw [colAttach, hbody] at hattach
  cases dom with
  | none => cases hattach
  | some U =>
    refine ⟨U, rfl, fun i hi => ?_⟩
    have hi' := hpos i hi
    dsimp only at hattach
    split_ifs at hattach with hrc
    omega

section

variable {dir' : Bytes}

def SameTable : List (Bytes × Obj) → List (Bytes × Obj) → Prop := List.Forall₂ fun x y => y.1 = x.1 ∧ Alike x.2 y.2

lemma loadColumns_mono (hsame : ∀ n ∈ names, disk' ⟨dir, n⟩ = disk ⟨dir, n⟩)
    (hv : ∀ n ∈ names, VouchedAt disk ⟨dir, n⟩) (hext : Extends dom dom')
    (h : loadColumns p disk dir (.symfile dom) useMmap nrows names = .ok t) :
    ∃ t', loadColumns p disk' dir (.symfile dom') useMmap nrows names = .ok t' ∧ SameTable t t' := by
  induction names generalizing nrows t with
  | nil =>
    cases h
    exact ⟨[], rfl, .nil⟩
  | cons name names ih =>
    rw [loadColumns] at h ⊢
    by_cases hunsafe : splayColNameSafe name = false
    · rw [if_pos hunsafe] at h
      cases h
    by_cases hpath : pathMax ≤ (⟨dir, name⟩ : Loc).path
    · rw [if_neg hunsafe, if_pos hpath] at h
      cases h
    rw [if_neg hunsafe, if_neg hpath] at h ⊢
    obtain ⟨col, hcol, h⟩ := Store.bind_eq_ok' h
    obtain ⟨file, hfile, hload⟩ := loadAt_ok hcol
    obtain ⟨col', hload', halike⟩ := loadFile_mono hext (hv name mem_cons_self file hfile) hload
    have hcol' : loadAt disk' ⟨dir, name⟩ (loadFile p (.symfile dom') useMmap) = .ok col' := by
      rw [loadAt, hsame name mem_cons_self, hfile]
      dsimp only
      rw [hload']
    by_cases hlen : nrows.elim false (fun n => decide (col.len ≠ n)) = true
    · rw [if_pos hlen] at h
      cases h
    rw [if_neg hlen] at h
    obtain ⟨cols, hcols, hpure⟩ := Store.bind_eq_ok' h
    cases hpure
    obtain ⟨cols', hcols', hrest⟩ :=
      ih (fun n hn => hsame n (mem_cons_of_mem _ hn)) (fun n hn => hv n (mem_cons_of_mem _ hn)) hcols
    refine ⟨(name, col') :: cols', ?_, .cons ⟨rfl, halike⟩ hrest⟩
    rw [hcol']
    show (if nrows.elim false (fun n => decide (col'.len ≠ n)) = true then _ else _) = Except.ok _
    rw [halike.len, if_neg hlen, hcols']
    rfl

def symFiles (f : Loc) : List Loc := [f, f.tmp, f.lk]

lemma Apart.reads {n : Bytes} (h : Apart f dir') (hn : splayColNameSafe n = true ∨ n = dotD) :
    (⟨dir', n⟩ : Loc) ∉ symFiles f := by
  simp only [symFiles, mem_cons, not_mem_nil, or_false, not_or]
  by_cases hdir : f.dir = dir'
  · obtain ⟨hdot, hfam⟩ := h hdir
    have hne : ∀ s, (s = dotTmp ∨ s = dotLk) → n ≠ f.name ++ s := by
      rintro s hs rfl
      cases hname : f.name with
      | nil =>
        rw [hname] at hdot
        cases hdot
      | cons b rest =>
        rw [hname] at hdot hn
        obtain rfl := some.inj hdot
        rcases hn with hsafe | hd
        · exact family_head hsafe mem_cons_self rfl
        · have hlen := congrArg length hd
          rcases hs with rfl | rfl <;> simp [dotTmp, dotLk, dotD] at hlen
    refine ⟨?_, fun heq => hne dotTmp (.inl rfl) (Loc.mk.inj heq).2, fun heq =>
      hne dotLk (.inr rfl) (Loc.mk.inj heq).2⟩
    rintro rfl
    rcases hn with hsafe | rfl
    · exact family_head hsafe mem_cons_self hdot
    · exact hfam mem_cons_self
  · refine ⟨?_, ?_, ?_⟩ <;>
    · intro heq
      exact hdir (congrArg Loc.dir heq).symm

lemma elsewhere_files (hcur : CachedCurrent disk cached sym)
    (h : Stops (raySplaySave pnames disk cached tbl dir sym).ops disk disk')
    (hsym : ∀ g, sym = some g → g = f) (hdir : dir' ≠ dir) {n : Bytes} (hother : (⟨dir', n⟩ : Loc) ∉ symFiles f) :
    disk' ⟨dir', n⟩ = disk ⟨dir', n⟩ := by
  rcases raySplaySave_stops hcur h with rfl | ⟨-, target, e, -, hflush, htable⟩
  · rfl
  · simp only [symFiles, mem_cons, not_mem_nil, or_false, not_or] at hother
    obtain ⟨hne, htmp, hlk⟩ := hother
    rw [tablePlan_frame htable fun heq => absurd heq hdir]
    refine (flush_effect hflush fun g hg => ?_).resolve_right fun hgrown => hne (hsym _ hgrown.1)
    obtain rfl := hsym g hg
    exact ⟨htmp, hlk⟩

lemma symfile_kept (hcur : CachedCurrent disk cached sym)
    (h : Stops (raySplaySave pnames disk cached tbl dir sym).ops disk disk')
    (hsym : ∀ g, sym = some g → g = f)
    (hown : ∀ target e, Stops (tablePlan pnames target tbl dir).ops e disk' → disk' f = e f) :
    disk' f = disk f ∨ Grown (disk f) (disk' f) := by
  rcases raySplaySave_stops hcur h with rfl | ⟨-, target, e, -, hflush, htable⟩
  · exact .inl rfl
  · rw [hown target e htable]
    refine (flush_effect hflush fun g hg => ?_).imp_right And.right
    obtain rfl := hsym g hg
    exact ⟨fun heq => append_ne (by decide) (congrArg Loc.name heq).symm, fun heq =>
      append_ne (by decide) (congrArg Loc.name heq).symm⟩

lemma elsewhere_loads (hcur : CachedCurrent disk cached sym)
    (h : Stops (raySplaySave pnames disk cached tbl dir sym).ops disk disk')
    (hsym : ∀ g, sym = some g → g = f) (hdir : dir' ≠ dir) (hfile : disk' f = disk f ∨ Grown (disk f) (disk' f))
    (hother : ∀ n, n = dotD ∨ n ∈ t.map Prod.fst → (⟨dir', n⟩ : Loc) ∉ symFiles f)
    (hv : ∀ x ∈ t, VouchedAt disk ⟨dir', x.1⟩) (hload : splayLoad p disk dir' (some f) useMmap = .ok t) :
    ∃ t', splayLoad p disk' dir' (some f) useMmap = .ok t' ∧ SameTable t t' := by
  obtain ⟨dom, bs, v, names, hdom, hpath, hbs, hschema, hnames, hcols⟩ := splayLoad_ok.mp hload
  have hsame : ∀ n, n = dotD ∨ n ∈ t.map Prod.fst → disk' ⟨dir', n⟩ = disk ⟨dir', n⟩ :=
    fun n hn => elsewhere_files hcur h hsym hdir (hother n hn)
  rw [(loadColumns_spec hcols).1] at hsame
  obtain ⟨dom', hdom', hext⟩ : ∃ dom', openSymfile (disk' f) = .ok dom' ∧ Extends dom dom' := by
    rcases hfile with hold | hgrown
    · exact ⟨dom, by rwa [hold], fun U hU => ⟨U, hU, prefix_rfl⟩⟩
    · obtain ⟨V, hV, hpre⟩ := hgrown.opens hdom
      exact ⟨some V, hV, fun U hU => ⟨V, rfl, hpre U hU⟩⟩
  have hvn : ∀ n ∈ names, VouchedAt disk ⟨dir', n⟩ := by
    intro n hn
    rw [← (loadColumns_spec hcols).1] at hn
    obtain ⟨x, hx, rfl⟩ := mem_map.mp hn
    exact hv x hx
  obtain ⟨t', ht', hsimilar⟩ := loadColumns_mono (fun n hn => hsame n (.inr hn)) hvn hext hcols
  exact ⟨t', splayLoad_ok.mpr ⟨dom', bs, v, names, hdom', hpath, (hsame dotD (.inl rfl)).trans hbs, hschema,
    hnames, ht'⟩, hsimilar⟩

lemma loadColumns_safe
    (h : loadColumns p disk dir home useMmap nrows names = .ok t) : ∀ n ∈ names, splayColNameSafe n = true := by
  induction names generalizing nrows t with
  | nil => simp
  | cons name names ih =>
    rw [loadColumns] at h
    split_ifs at h with hunsafe hpath
    obtain ⟨col, hcol, h⟩ := Store.bind_eq_ok' h
    by_cases hlen : nrows.elim false (fun n => decide (col.len ≠ n)) = true
    · rw [if_pos hlen] at h
      cases h
    · rw [if_neg hlen] at h
      obtain ⟨cols, hcols, -⟩ := Store.bind_eq_ok' h
      rw [forall_mem_cons]
      exact ⟨by simpa using hunsafe, ih hcols⟩

lemma loaded_safe (h : splayLoad p disk dir sym useMmap = .ok t) : ∀ x ∈ t, splayColNameSafe x.1 = true := by
  obtain ⟨dom, bs, v, names, -, -, -, -, -, hcols⟩ := splayLoad_ok.mp h
  intro x hx
  refine loadColumns_safe hcols x.1 ?_
  rw [← (loadColumns_spec hcols).1]
  exact mem_map_of_mem hx

end

lemma preflightAll_refused (hc : c ∈ tbl) (h : RefusedColumn c.obj) : preflightAll tbl ≠ .ok () := by
  intro hok
  have hall : ∀ {l : List Column}, (l.forM fun c => Store.rayColSavePreflight c.obj) = .ok () →
      ∀ c ∈ l, Store.rayColSavePreflight c.obj = .ok () := by
    intro l
    induction l with
    | nil => simp
    | cons b l ih =>
      intro hl
      obtain ⟨_, hb, hrest⟩ := Store.bind_eq_ok' hl
      rw [forall_mem_cons]
      exact ⟨hb, ih hrest⟩
  exact Store.rayColSavePreflight_refused h (hall hok c hc)

lemma refused_early (hc : c ∈ tbl) (h : RefusedColumn c.obj) :
    (raySplaySave pnames disk cached tbl dir sym).ops = [] ∧
    ∃ err, (raySplaySave pnames disk cached tbl dir sym).stop = some (.error err) := by
  rw [raySplaySave.eq_def]
  by_cases hnodup : (persistedNames tbl).Nodup
  · rw [if_neg (not_not.mpr hnodup)]
    cases hpre : preflightAll tbl with
    | error err => exact ⟨rfl, _, rfl⟩
    | ok u => exact absurd hpre (preflightAll_refused hc h)
  · rw [if_pos hnodup]
    exact ⟨rfl, _, rfl⟩

def dotted : List Column :=
  [⟨[0x61], .vec .u8 (.owned 0 [⟨[7], rfl⟩]), none, ⟨List.replicate 8 0, none⟩, false⟩,
    ⟨[0x73], .symVec ⟨3, [[], [0x78]], true, [1], 1, le_rfl⟩, none, ⟨List.replicate 8 0, none⟩, false⟩,
    ⟨[0x2E, 0x62], .vec .u8 (.owned 0 [⟨[7], rfl⟩]), none, ⟨List.replicate 8 0, none⟩, false⟩]

def blank : Disk Loc := fun _ => none

def dotSym : Loc := ⟨[0x74], [0x2E, 0x73, 0x79, 0x6D]⟩

def plainProc : Proc := ⟨[[]], fun _ => .error .corrupt⟩

lemma dotted_run : ((runAll (raySplaySave [[]] blank none dotted [0x74] (some dotSym)).ops blank).bind fun disk =>
    (splayLoad plainProc disk [0x74] (some dotSym) false).toOption.map fun t => t.map Prod.fst) =
      some [[0x61], [0x73]] := by
  decide +kernel

lemma dotted_saved : ∃ disk t, Done (raySplaySave [[]] blank none dotted [0x74] (some dotSym)).ops blank disk ∧
    splayLoad plainProc disk [0x74] (some dotSym) false = .ok t ∧ t.map Prod.fst = [[0x61], [0x73]] := by
  obtain ⟨disk, hrun, hload⟩ := bind_eq_some_iff.mp dotted_run
  obtain ⟨t, ht, hnames⟩ := map_eq_some_iff.mp hload
  refine ⟨disk, t, runAll_done hrun, ?_, hnames⟩
  cases hres : splayLoad plainProc disk [0x74] (some dotSym) false with
  | error e =>
    rw [hres] at ht
    cases ht
  | ok t' =>
    rw [hres] at ht
    cases ht
    rfl

end Rayforce.Splay
