import Rayforce.Parted.Filled

namespace Rayforce.Parted

open Library.Words Library.Files Rayforce.Splay List
open Rayforce.Store (Obj Proc Table)

variable {p : Proc} {cache : Cache} {sym : Option Loc} {db db' : Db} {part table u : Bytes}
    {base all parts acc filled : List Bytes}

lemma mem_addNames {all names : List Bytes} : u ∈ addNames all names ↔ u ∈ all ∨ u ∈ names := by
  induction names generalizing all with
  | nil => simp [addNames]
  | cons n names ih =>
    have hstep : addNames all (n :: names) = addNames (if n ∈ all then all else all ++ [n]) names := rfl
    rw [hstep, ih, mem_cons]
    by_cases hn : n ∈ all
    · rw [if_pos hn]
      constructor
      · tauto
      · rintro (h | rfl | h)
        · exact .inl h
        · exact .inl hn
        · exact .inr h
    · rw [if_neg hn, mem_append, mem_singleton]
      tauto

lemma nodup_addNames {all names : List Bytes} (h : all.Nodup) : (addNames all names).Nodup := by
  induction names generalizing all with
  | nil => exact h
  | cons n names ih =>
    have hstep : addNames all (n :: names) = addNames (if n ∈ all then all else all ++ [n]) names := rfl
    rw [hstep]
    refine ih ?_
    split_ifs with hn
    · exact h
    · exact nodup_append.mpr ⟨h, nodup_singleton n, fun a ha b hb he => hn (mem_singleton.mp hb ▸ he ▸ ha)⟩

def Lists (db : Db) (part table : Bytes) : Prop :=
  table.head? ≠ some dot ∧ partitionHasTable db part table = true ∧ ∃ ns, db.tables part = some ns ∧ table ∈ ns

lemma collectTableDirs_ok {names : List Bytes} (h : collectTableDirs db part = .ok names) :
    u ∈ names ↔ Lists db part u := by
  rw [collectTableDirs] at h
  split at h
  · cases h
  · rename_i ns hns
    obtain rfl := Except.ok.inj h
    rw [mem_insertionSort, mem_filter, Bool.and_eq_true, bne_iff_ne, Lists]
    constructor
    · rintro ⟨hm, hd, hh⟩
      exact ⟨hd, hh, ns, hns, hm⟩
    · rintro ⟨hd, hh, ns', hns', hm⟩
      obtain rfl := Option.some.inj (hns.symm.trans hns')
      exact ⟨hm, hd, hh⟩

lemma unionNames_ok (h : unionNames db parts acc = .ok all) :
    (acc.Nodup → all.Nodup) ∧ (∀ u, u ∈ all ↔ u ∈ acc ∨ ∃ part ∈ parts, Lists db part u) ∧
      ∀ part ∈ parts, (db.partDir part).length < pathMax ∧ ∃ ns, db.tables part = some ns := by
  induction parts generalizing acc with
  | nil =>
    obtain rfl := Except.ok.inj h
    exact ⟨id, fun u => by simp, nofun⟩
  | cons part parts ih =>
    rw [unionNames, foldlM_cons] at h
    obtain ⟨acc', hstep, hrest⟩ := Store.bind_eq_ok' h
    split_ifs at hstep with hlen
    obtain ⟨names, hnames, rfl⟩ := Store.map_eq_ok hstep
    obtain ⟨hnodup, hmem, hall⟩ := ih hrest
    refine ⟨fun hn => hnodup (nodup_addNames hn), fun u => ?_, forall_mem_cons.mpr ⟨⟨not_le.mp hlen, ?_⟩, hall⟩⟩
    · rw [hmem, mem_addNames, collectTableDirs_ok hnames, exists_mem_cons_iff, or_assoc]
    · rw [collectTableDirs] at hnames
      split at hnames
      · cases hnames
      · rename_i ns hns
        exact ⟨ns, hns⟩

lemma exists_union (h : ∀ part ∈ parts, (db.partDir part).length < pathMax ∧ ∃ ns, db.tables part = some ns)
    (acc : List Bytes) :
    ∃ all, unionNames db parts acc = .ok all := by
  induction parts generalizing acc with
  | nil => exact ⟨acc, rfl⟩
  | cons part parts ih =>
    obtain ⟨⟨hlen, ns, hns⟩, hrest⟩ := forall_mem_cons.mp h
    obtain ⟨all, hall⟩ := ih hrest (addNames acc
      ((ns.filter fun t => t.head? != some dot && partitionHasTable db part t).insertionSort StrcmpLe))
    refine ⟨all, ?_⟩
    rw [unionNames, foldlM_cons, if_neg (not_le.mpr hlen), collectTableDirs, hns]
    exact hall

lemma fillStep_ok {s s' : Db × List Bytes} (h : fillStep p cache sym parts s table = .ok s') :
    ∃ m, fillTable p cache sym parts s.1 table = .ok (s'.1, m) := by
  obtain ⟨r, hr, rfl⟩ := Store.map_eq_ok h
  exact ⟨r.2, hr⟩

lemma foldlM_later (hr : Ready cache sym db)
    (h : all.foldlM (fillStep p cache sym db.parts) (db, acc) = .ok (db', filled)) :
      Ready cache sym db' ∧ Later all db db' := by
  induction all generalizing db acc with
  | nil =>
    obtain ⟨rfl, -⟩ := Prod.mk.inj (Except.ok.inj h)
    exact ⟨hr, Later.refl db⟩
  | cons t all ih =>
    rw [foldlM_cons] at h
    obtain ⟨⟨db₁, acc₁⟩, hs, hrest⟩ := Store.bind_eq_ok' h
    obtain ⟨m, hfill⟩ := fillStep_ok hs
    obtain ⟨hr₁, hl₁, -⟩ := fillTable_spec hr hfill
    obtain ⟨hr', hl'⟩ := ih hr₁ (by rw [hl₁.parts_eq]; exact hrest)
    exact ⟨hr', hl₁.trans hl'⟩

lemma foldlM_table (hr : Ready cache sym db) (hall : all.Nodup) (ht : table ∈ all)
    (h : all.foldlM (fillStep p cache sym db.parts) (db, acc) = .ok (db', filled)) :
    ∃ pre post db₁ db₂ m, Ready cache sym db₁ ∧ Later pre db db₁ ∧ table ∉ pre ∧
      fillTable p cache sym db₁.parts db₁ table = .ok (db₂, m) ∧ Later post db₂ db' := by
  obtain ⟨pre, post, rfl⟩ := append_of_mem ht
  rw [foldlM_append] at h
  obtain ⟨⟨db₁, acc₁⟩, h₁, h⟩ := Store.bind_eq_ok' h
  rw [foldlM_cons] at h
  obtain ⟨⟨db₂, acc₂⟩, h₂, h₃⟩ := Store.bind_eq_ok' h
  obtain ⟨hr₁, hl₁⟩ := foldlM_later hr h₁
  obtain ⟨m, hfill⟩ := fillStep_ok h₂
  rw [← hl₁.parts_eq] at hfill h₃
  obtain ⟨hr₂, hl₂, -⟩ := fillTable_spec hr₁ hfill
  obtain ⟨-, hl₃⟩ := foldlM_later hr₂ (by rw [hl₂.parts_eq]; exact h₃)
  have hnot : table ∉ pre := fun hm => (nodup_append.mp hall).2.2 table hm table mem_cons_self rfl
  exact ⟨pre, post, db₁, db₂, m, hr₁, hl₁, hnot, hfill, hl₃⟩

lemma foldlM_still (h : ∀ t ∈ all, ∀ part ∈ parts, partitionHasTable db part t = true) :
    all.foldlM (fillStep p cache sym parts) (db, []) = .ok (db, []) := by
  induction all with
  | nil => rfl
  | cons t all ih =>
    obtain ⟨ht, hrest⟩ := forall_mem_cons.mp h
    have hmiss : (parts.filter fun part => !partitionHasTable db part t) = [] := by
      rw [filter_eq_nil_iff]
      intro part hpart
      simp [ht part hpart]
    have hfill : fillTable p cache sym parts db t = .ok (db, []) := by
      rw [fillTable]
      split
      · rfl
      · rw [if_pos hmiss]
    rw [foldlM_cons, fillStep, hfill]
    exact ih hrest

lemma rayPartedFill_ok (h : rayPartedFill p cache db = .ok (db', filled)) : db.root ≠ [] ∧
    (db.parts = [] ∧ db' = db ∨ db.parts ≠ [] ∧ ∃ all acc, unionNames db db.parts [] = .ok all ∧
      fillTables p cache (rootSym db) db.parts all db = .ok (db', acc) ∧ filled = db.parts.filter (· ∈ acc)) := by
  rw [rayPartedFill] at h
  split_ifs at h with hroot hparts
  · obtain ⟨rfl, -⟩ := Prod.mk.inj (Except.ok.inj h)
    exact ⟨hroot, .inl ⟨hparts, rfl⟩⟩
  · obtain ⟨all, hall, h⟩ := Store.bind_eq_ok' h
    obtain ⟨r, hr, he⟩ := Store.map_eq_ok h
    obtain ⟨rfl, rfl⟩ := Prod.mk.inj he
    exact ⟨hroot, .inr ⟨hparts, all, r.2, hall, hr, rfl⟩⟩

section

variable (hcur : ∀ disk, CachedCurrent disk (cache disk) (some db.symLoc))
include hcur

lemma ready_root (hpart : part ∈ db.parts) (h : partitionHasTable db part u = true) :
    Ready cache (rootSym db) db := by
  rw [partitionHasTable, Bool.and_eq_true, decide_eq_true_eq] at h
  have hpath : db.symLoc.path < pathMax := by
    have hdot : (schemaLoc db part u).path = db.root.length + part.length + u.length + 5 := by
      rw [schemaLoc, Loc.path, tableDir_length]
      rfl
    have hpos := length_pos_of_ne_nil (ne_nil_of_part hpart)
    rw [symLoc_path]
    omega
  refine ⟨hcur, ?_, ?_⟩
  · cases hfile : db.disk db.symLoc with
    | none =>
      rw [rootSym, if_neg (by rw [hfile]; simp)]
      rfl
    | some file =>
      rw [rootSym, if_pos ⟨hpath, by rw [hfile]; rfl⟩]
      exact hfile
  · intro g hg
    rw [rootSym] at hg
    split_ifs at hg
    exact (Option.some.inj hg).symm

lemma fillTables_spec (hall : unionNames db db.parts [] = .ok all)
    (h : fillTables p cache (rootSym db) db.parts all db = .ok (db', acc)) :
    Later all db db' ∧ ∀ u ∈ all, ∀ part ∈ db.parts, partitionHasTable db' part u = true := by
  obtain ⟨hnodup, hmem, -⟩ := unionNames_ok hall
  by_cases hnil : all = []
  · subst hnil
    obtain ⟨rfl, -⟩ := Prod.mk.inj (Except.ok.inj h)
    exact ⟨Later.refl db, nofun⟩
  · have hready : ∀ u ∈ all, ∃ part ∈ db.parts, partitionHasTable db part u = true := by
      intro u hu
      obtain ⟨part, hpart, hl⟩ := ((hmem u).mp hu).resolve_left not_mem_nil
      exact ⟨part, hpart, hl.2.1⟩
    obtain ⟨u, hu⟩ := exists_mem_of_ne_nil _ hnil
    obtain ⟨part, hpart, hhas⟩ := hready u hu
    have hr := ready_root hcur hpart hhas
    refine ⟨(foldlM_later hr h).2, fun u hu part hpart => ?_⟩
    obtain ⟨pre, post, db₁, db₂, m, hr₁, hl₁, hnot, hfill, hl₃⟩ := foldlM_table hr (hnodup nodup_nil) hu h
    obtain ⟨hr₂, hl₂, hevery, -⟩ := fillTable_spec hr₁ hfill
    obtain ⟨part', hpart', hhas'⟩ := hready u hu
    have hp₁ := hl₁.parts_eq
    refine hl₃.kept part (by rw [hl₂.parts_eq, hp₁]; exact hpart) u
      (hevery ⟨part', by rwa [hp₁], ?_⟩ part (by rwa [hp₁]))
    rw [hl₁.others part' hpart' u hnot, hhas']

lemma fill_again (h : rayPartedFill p cache db = .ok (db', filled)) :
    rayPartedFill p cache db' = .ok (db', []) := by
  obtain ⟨hroot, ⟨hparts, rfl⟩ | ⟨hparts, all, acc, hall, hfill, -⟩⟩ := rayPartedFill_ok h
  · rw [rayPartedFill, if_neg hroot, if_pos hparts]
  · obtain ⟨hl, hevery⟩ := fillTables_spec hcur hall hfill
    obtain ⟨-, hmem, hdirs⟩ := unionNames_ok hall
    obtain ⟨all', hall'⟩ : ∃ all', unionNames db' db.parts [] = .ok all' := by
      refine exists_union (fun part hpart => ?_) []
      obtain ⟨hlen, ns, hns⟩ := hdirs part hpart
      obtain ⟨ns', hns', -⟩ := hl.tables part ns hns
      refine ⟨?_, ns', hns'⟩
      rw [Db.partDir, hl.root]
      exact hlen
    have hsub : ∀ u ∈ all', u ∈ all := by
      intro u hu
      by_contra hnot
      obtain ⟨part, hpart, hdot, hhas, ns', hns', hm⟩ :=
        (((unionNames_ok hall').2.1 u).mp hu).resolve_left not_mem_nil
      obtain ⟨-, ns, hns⟩ := hdirs part hpart
      obtain ⟨ns'', hns'', hor⟩ := hl.tables part ns hns
      obtain rfl := Option.some.inj (hns''.symm.trans hns')
      rw [hl.others part hpart u hnot] at hhas
      exact hnot ((hmem u).mpr (.inr ⟨part, hpart, hdot, hhas, ns, hns, (hor u hm).resolve_right hnot⟩))
    have hstill : fillTables p cache (rootSym db') db.parts all' db' = .ok (db', []) :=
      foldlM_still fun u hu part hpart => hevery u (hsub u hu) part hpart
    rw [rayPartedFill, hl.root, if_neg hroot, hl.parts_eq, if_neg hparts, hall']
    change (fillTables p cache (rootSym db') db.parts all' db').map _ = _
    rw [hstill]
    simp [Except.map]

end

section

variable {first templ : Bytes} {tbs : Bytes → Tbl} {t t' : Tbl} {ts : List Tbl}

def Present (p : Proc) (db : Db) (table : Bytes) (tbs : Bytes → Tbl) : Prop :=
  ∀ part ∈ db.parts, partitionHasTable db part table = true →
    splayLoad p db.disk (db.tableDir part table) (some db.symLoc) true = .ok (tbs part) ∧
      Vouches db part table (tbs part)

structure AfterFill (db : Db) (table : Bytes) (tbs : Bytes → Tbl) (templ part : Bytes) (t : Tbl) : Prop where
  kept : partitionHasTable db part table = true → SameTable (tbs part) t
  copied : partitionHasTable db part table = false → CopyOf (tbs templ) t

lemma exists_mapM {α β ε : Type} {f : α → Except ε β} {R : α → β → Prop} {l : List α}
    (h : ∀ a ∈ l, ∃ b, f a = .ok b ∧ R a b) :
    ∃ bs, l.mapM f = .ok bs ∧ List.Forall₂ R l bs := by
  induction l with
  | nil => exact ⟨[], rfl, .nil⟩
  | cons a l ih =>
    obtain ⟨⟨b, hb, hR⟩, hrest⟩ := forall_mem_cons.mp h
    obtain ⟨bs, hbs, hall⟩ := ih hrest
    exact ⟨b :: bs, by rw [mapM_cons, hb, hbs]; rfl, .cons hR hall⟩

lemma lastWith_later {pre : List Bytes} (hl : Later pre db db') (hnot : table ∉ pre) :
    lastWith db' table = lastWith db table := by
  rw [lastWith, lastWith, hl.parts_eq]
  have hsame : ∀ l : List Bytes, (∀ part ∈ l, part ∈ db.parts) →
      (l.find? fun part => partitionHasTable db' part table) = l.find? fun part =>
        partitionHasTable db part table := by
    intro l hmem
    induction l with
    | nil => rfl
    | cons part l ih =>
      obtain ⟨hpart, hrest⟩ := forall_mem_cons.mp hmem
      rw [find?_cons, find?_cons, hl.others part hpart table hnot, ih hrest]
  exact hsame _ fun part hm => mem_reverse.mp hm

lemma sameTable_names (h : SameTable t t') : t'.map Prod.fst = t.map Prod.fst := by
  induction h with
  | nil => rfl
  | cons hx _ ih => rw [map_cons, map_cons, hx.1, ih]

lemma tableDir_lt (h : partitionHasTable db part table = true) : (db.tableDir part table).length < pathMax := by
  rw [partitionHasTable, Bool.and_eq_true, decide_eq_true_eq] at h
  have hpath : (schemaLoc db part table).path = (db.tableDir part table).length + 1 + 2 := rfl
  omega

lemma filled_loads (hcur : ∀ disk, CachedCurrent disk (cache disk) (some db.symLoc)) (ht : Table base p.names)
    (hall : unionNames db db.parts [] = .ok all)
    (h : fillTables p cache (rootSym db) db.parts all db = .ok (db', acc)) (hin : table ∈ all)
    (hp : Present p db table tbs) (hlast : lastWith db table = some templ)
    (hclean : Clean ((tbs templ).map Prod.fst)) (hcount : (tbs templ).length < 2 ^ 59) :
    ∃ ts, db'.parts.mapM (loadPart p db' table) = .ok ts ∧
      List.Forall₂ (AfterFill db table tbs templ) db.parts ts := by
  obtain ⟨hl, hevery⟩ := fillTables_spec hcur hall h
  obtain ⟨hnodup, hmem, -⟩ := unionNames_ok hall
  obtain ⟨part₀, hpart₀, -, hhas₀, -⟩ := ((hmem table).mp hin).resolve_left not_mem_nil
  have hr := ready_root hcur hpart₀ hhas₀
  obtain ⟨pre, post, db₁, db₂, m, hr₁, hl₁, hnot, hfill, hl₃⟩ := foldlM_table hr (hnodup nodup_nil) hin h
  obtain ⟨hr₂, hl₂, -, hcopies⟩ := fillTable_spec hr₁ hfill
  have htempl : templ ∈ db.parts := mem_reverse.mp (mem_of_find?_eq_some hlast)
  have hthas : partitionHasTable db templ table = true :=
    find?_some (p := fun part => partitionHasTable db part table) hlast
  obtain ⟨hload, hv⟩ := hp templ htempl hthas
  obtain ⟨full, hfull, hsame, -⟩ := hl₁.loads p true templ htempl table _ hload hv
  rw [hl.parts_eq]
  refine exists_mapM fun part hpart => ?_
  have hpath : (db'.tableDir part table).length < pathMax := tableDir_lt (hevery table hin part hpart)
  cases hhas : partitionHasTable db part table with
  | true =>
    obtain ⟨hload, hv⟩ := hp part hpart hhas
    obtain ⟨t, ht', hkept, -⟩ := hl.loads p true part hpart table _ hload hv
    rw [← hl.tableDir_eq, ← hl.symLoc_eq] at ht'
    exact ⟨t, loadPart_ok.mpr ⟨hpath, ht'⟩, fun _ => hkept, fun hno => by rw [hhas] at hno; cases hno⟩
  | false =>
    have hcopied : Copied base full db₂ part table := by
      refine hcopies base templ full ?_ ?_ ht ?_ ?_ part (by rwa [hl₁.parts_eq])
        (by rw [hl₁.others part hpart table hnot, hhas])
      · rw [lastWith_later hl₁ hnot, hlast]
      · rw [hl₁.tableDir_eq, hl₁.symLoc_eq]
        exact hfull
      · rwa [sameTable_names hsame]
      · rwa [← hsame.length_eq]
    obtain ⟨t, ht', hcopy, -⟩ := (hcopied.later hl₃ (by rw [hl₂.parts_eq, hl₁.parts_eq]; exact hpart)) p true ht
    refine ⟨t, loadPart_ok.mpr ⟨hpath, ht'⟩, fun hyes => (by rw [hhas] at hyes; cases hyes), fun _ => ?_⟩
    exact ⟨hcopy.columns.trans (sameTable_schema hsame), hcopy.rows⟩

def front (db : Db) (table : Bytes) : Option Bytes :=
  match db.parts with
  | [] => none
  | first :: _ => if partitionHasTable db first table then some first else lastWith db table

def FullFront (db : Db) (table : Bytes) (tbs : Bytes → Tbl) : Prop :=
  ∀ a, front db table = some a → tbs a ≠ [] ∧ ∀ part ∈ db.parts, partitionHasTable db part table = true →
    schema (tbs part) <+: schema (tbs a)

lemma filled_reads (hname : badTableName table = false) (hparts : db'.parts = db.parts)
    (hts : db'.parts.mapM (loadPart p db' table) = .ok ts)
    (hall : List.Forall₂ (AfterFill db table tbs templ) db.parts ts)
    (hlast : lastWith db table = some templ) (hfront : FullFront db table tbs) :
    ∃ r, rayReadParted p db' table = .ok r ∧ InOrder db.parts ts r := by
  have hthas : partitionHasTable db templ table = true :=
    find?_some (p := fun part => partitionHasTable db part table) hlast
  have htempl : templ ∈ db.parts := mem_reverse.mp (mem_of_find?_eq_some hlast)
  cases hps : db.parts with
  | nil =>
    rw [hps] at htempl
    cases htempl
  | cons first more =>
    obtain ⟨a, ha, hfirst⟩ : ∃ a, front db table = some a ∧
        ((partitionHasTable db first table = true ∧ a = first) ∨
          (partitionHasTable db first table = false ∧ a = templ)) := by
      cases hhas : partitionHasTable db first table with
      | true => exact ⟨first, by rw [front, hps]; exact if_pos hhas, .inl ⟨rfl, rfl⟩⟩
      | false => exact ⟨templ, by rw [front, hps]; exact (if_neg (by rw [hhas]; nofun)).trans hlast,
        .inr ⟨rfl, rfl⟩⟩
    obtain ⟨hne, hpre⟩ := hfront a ha
    have hschema : ∀ part ∈ db.parts, ∀ t, AfterFill db table tbs templ part t → schema t <+: schema (tbs a) := by
      intro part hpart t hafter
      cases hhas : partitionHasTable db part table with
      | true =>
        rw [sameTable_schema (hafter.kept hhas)]
        exact hpre part hpart hhas
      | false =>
        rw [(hafter.copied hhas).columns]
        exact hpre templ htempl hthas
    rw [hps] at hall hschema
    cases hall with
    | cons hhead hrest =>
      rename_i t₀ rest
      have heq : schema t₀ = schema (tbs a) := by
        rcases hfirst with ⟨hhas, rfl⟩ | ⟨hhas, rfl⟩
        · exact sameTable_schema (hhead.kept hhas)
        · exact (hhead.copied hhas).columns
      have ht₀ : t₀ ≠ [] := by
        rintro rfl
        exact hne (map_eq_nil_iff.mp heq.symm)
      rw [← hps, ← hparts]
      refine (read_iff hname hts ht₀).1 fun t ht => ?_
      obtain ⟨part, hpart, hafter⟩ := exists_of_forall₂_right hrest.flip ht
      rw [heq]
      exact hschema part (mem_cons_of_mem _ hpart) t hafter

end

structure PartedLaws (p : Proc) (cache : Cache) (db : Db) : Prop where
  ascending : Orderly db.parts → (db.parts.map (partKey (inferMcType db.parts))).Pairwise Key.Before
  reads : ∀ table first rest, badTableName table = false → db.parts.mapM (loadPart p db table) =
    .ok (first :: rest) → first ≠ [] →
    ((∀ t ∈ rest, schema t <+: schema first) → ∃ r, rayReadParted p db table = .ok r ∧
      InOrder db.parts (first :: rest) r) ∧
    (¬ (∀ t ∈ rest, schema t <+: schema first) → rayReadParted p db table = .error .corrupt)
  again : ∀ db' filled, rayPartedFill p cache db = .ok (db', filled) → rayPartedFill p cache db' = .ok (db', [])
  fills : ∀ db' filled, rayPartedFill p cache db = .ok (db', filled) → db'.parts = db.parts ∧
    ∀ table tbs templ, badTableName table = false → (∃ part ∈ db.parts, Lists db part table) →
      Present p db table tbs →
      lastWith db table = some templ → Clean ((tbs templ).map Prod.fst) → (tbs templ).length < 2 ^ 59 →
      ∃ ts, db'.parts.mapM (loadPart p db' table) = .ok ts ∧
        List.Forall₂ (AfterFill db table tbs templ) db.parts ts ∧
        (FullFront db table tbs → ∃ r, rayReadParted p db' table = .ok r ∧ InOrder db.parts ts r)

theorem parted_laws (hcur : ∀ disk, CachedCurrent disk (cache disk) (some db.symLoc))
    (ht : p.names.length < 2 ^ 32) :
    PartedLaws p cache db where
  ascending := keys_ascending db.entries_nodup
  reads := fun table first rest hname hts hne => read_iff hname hts hne
  again := fun db' filled h => fill_again hcur h
  fills := fun db' filled h => by
    obtain ⟨hroot, ⟨hparts, rfl⟩ | ⟨hparts, all, acc, hall, hfill, -⟩⟩ := rayPartedFill_ok h
    · refine ⟨rfl, fun table tbs templ _ hlists => ?_⟩
      obtain ⟨part, hpart, -⟩ := hlists
      rw [hparts] at hpart
      cases hpart
    · obtain ⟨hl, -⟩ := fillTables_spec hcur hall hfill
      refine ⟨hl.parts_eq, fun table tbs templ hname hlists hp hlast hclean hcount => ?_⟩
      have hin : table ∈ all := ((unionNames_ok hall).2.1 table).mpr (.inr hlists)
      obtain ⟨ts, hts, hafter⟩ := filled_loads hcur ⟨prefix_rfl, ht⟩ hall hfill hin hp hlast hclean hcount
      exact ⟨ts, hts, hafter, filled_reads hname hl.parts_eq hts hafter hlast⟩

lemma oneByte : ([7] : Bytes).length = 1 := rfl

def byteColumn (name : UInt8) : Column :=
  ⟨[name], .vec .u8 (.owned 0 [⟨[7], oneByte⟩]), none, ⟨List.replicate 8 0, none⟩, false⟩

def sampleDb (l : List (Bytes × List (Bytes × List Column))) (h : (l.map Prod.fst).Nodup) : Db where
  root := [0x72]
  entries := l.map Prod.fst
  entries_nodup := h
  tables := fun part => (l.find? (·.1 = part)).map (·.2.map Prod.fst)
  disk := l.foldl (fun disk x => x.2.foldl (fun disk t =>
    (runAll (raySplaySave [] disk none t.2 ([0x72] ++ slash :: (x.1 ++ slash :: t.1)) none).ops disk).getD disk)
      disk) fun _ => none

def ragged : Db :=
  sampleDb [([0x31], [([0x74], [byteColumn 0x61])]), ([0x32], [([0x74], [byteColumn 0x61, byteColumn 0x62])])]
    (by decide)

def shuffled : Db := sampleDb [([0x39], [([0x74], [byteColumn 0x61])]),
  ([0x31, 0x30], [([0x74], [byteColumn 0x61])])] (by decide)

-- the second partition has no table `u`
def lacking : Db :=
  sampleDb [([0x31], [([0x74], [byteColumn 0x61]), ([0x75], [byteColumn 0x62])]),
    ([0x32], [([0x74], [byteColumn 0x61])])] (by decide)

def sampleProc : Proc := ⟨[], fun _ => .error .corrupt⟩

def answered {ε α β : Type} (f : α → β) : Except ε α → ε ⊕ β
  | .ok a => .inr (f a)
  | .error e => .inl e

theorem parted_laws_sample : PartedLaws sampleProc (fun _ => none) lacking ∧
    answered Prod.snd (rayPartedFill sampleProc (fun _ => none) lacking) = .inr [[0x32]] :=
  ⟨parted_laws (fun disk => cachedCurrent_none disk (some lacking.symLoc)) (by decide), by decide +kernel⟩

/-- A table with a column more makes the read fail. -/
theorem parted_read_limits :
    answered (List.map schema) (ragged.parts.mapM (loadPart sampleProc ragged [0x74])) =
      .inr [[([0x61], 2)], [([0x61], 2), ([0x62], 2)]] ∧
    answered PartedTable.keys (rayReadParted sampleProc ragged [0x74]) = .inl .corrupt ∧
    answered PartedTable.keys (rayReadParted sampleProc shuffled [0x74]) = .inr [.num 10, .num 9] := by
  refine ⟨?_, ?_, ?_⟩ <;> decide +kernel

end Rayforce.Parted
