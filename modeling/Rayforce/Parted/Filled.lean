import Rayforce.Parted.Read

namespace Rayforce.Parted

open Library.Words Library.Files Rayforce.Splay
open Rayforce.Store (Obj Proc Table Extra)
open Rayforce.Domain (SymDomain)

variable {n : List Bytes} {dir : Bytes}

inductive FillErr
  | io | range
  | save (s : Stop)
  deriving DecidableEq

abbrev Cache := Disk Loc → Option SymDomain

def schemaLoc (db : Db) (part table : Bytes) : Loc := ⟨db.tableDir part table, dotD⟩

def partitionHasTable (db : Db) (part table : Bytes) : Bool :=
  (schemaLoc db part table).path < pathMax && (db.disk (schemaLoc db part table)).isSome

def collectTableDirs (db : Db) (part : Bytes) : Except FillErr (List Bytes) :=
  match db.tables part with
  | none => .error .io
  | some names =>
    .ok ((names.filter fun t => t.head? != some dot && partitionHasTable db part t).insertionSort StrcmpLe)

def addNames (all names : List Bytes) : List Bytes :=
  names.foldl (fun all n => if n ∈ all then all else all ++ [n]) all

def unionNames (db : Db) (parts : List Bytes) (all : List Bytes) : Except FillErr (List Bytes) :=
  parts.foldlM (fun all part =>
    if pathMax ≤ (db.partDir part).length then .error .range else (collectTableDirs db part).map
      (addNames all)) all

def emptyLike (names : List Bytes) : Obj → Option Obj
  | .vec t _ => some (.vec t (.owned 0 []))
  | .symVec _ | .symSlice _ _ _ _ => some (.symVec ⟨3, names, true, [], 0, le_rfl⟩)
  | .strVec _ | .strSlice _ _ _ _ => some (.strVec ⟨0, [], []⟩)
  | _ => none

def emptyColumn (names : List Bytes) (x : Bytes × Obj) : Option Column :=
  (emptyLike names x.2).map fun o => ⟨x.1, o, none, ⟨List.replicate 8 0, none⟩, false⟩

def emptyTableLike (names : List Bytes) (t : Tbl) : Option (List Column) := t.mapM (emptyColumn names)

def addTable (tables : Bytes → Option (List Bytes)) (part table : Bytes) : Bytes → Option (List Bytes) := fun q =>
  if q = part then (tables q).map fun ns => if table ∈ ns then ns else ns ++ [table] else tables q

variable (p : Proc) (cache : Cache) (sym : Option Loc)

def saveEmpty (tbl : List Column) (table : Bytes) (db : Db) (part : Bytes) : Except FillErr Db :=
  let dir := db.tableDir part table
  if pathMax ≤ dir.length then .error .range
  else
    let plan := raySplaySave p.names db.disk (cache db.disk) tbl dir sym
    match plan.stop with
    | some s => .error (.save s)
    | none =>
      match runAll plan.ops db.disk with
      | none => .error .io
      | some disk => .ok { db with disk := disk, tables := addTable db.tables part table }

def fillTable (parts : List Bytes) (db : Db) (table : Bytes) : Except FillErr (Db × List Bytes) :=
  match parts.reverse.find? fun part => partitionHasTable db part table with
  | none => .ok (db, [])
  | some templ =>
    let missing := parts.filter fun part => !partitionHasTable db part table
    if missing = [] then .ok (db, [])
    else if pathMax ≤ (db.tableDir templ table).length then .error .range
    else
      match splayLoad p db.disk (db.tableDir templ table) sym true with
      | .error _ => .error .io
      | .ok full =>
        match emptyTableLike p.names full with
        | none => .error .io
        | some tbl => (missing.foldlM (saveEmpty p cache sym tbl table) db).map fun db => (db, missing)

def fillStep (parts : List Bytes) (s : Db × List Bytes) (t : Bytes) : Except FillErr (Db × List Bytes) :=
  (fillTable p cache sym parts s.1 t).map fun r => (r.1, s.2 ++ r.2)

def fillTables (parts : List Bytes) (all : List Bytes) (db : Db) : Except FillErr (Db × List Bytes) :=
  all.foldlM (fillStep p cache sym parts) (db, [])

def rootSym (db : Db) : Option Loc :=
  if db.symLoc.path < pathMax ∧ (db.disk db.symLoc).isSome = true then some db.symLoc else none

def rayPartedFill (db : Db) : Except FillErr (Db × List Bytes) :=
  if db.root = [] then .error .io
  else if db.parts = [] then .ok (db, [])
  else
    (unionNames db db.parts []).bind fun all =>
      (fillTables p cache (rootSym db) db.parts all db).map fun r => (r.1, db.parts.filter (· ∈ r.2))

open Library.Words Library.Files Rayforce.Splay
open Rayforce.Store (Obj Proc Table Extra)
open Rayforce.Domain (SymDomain)

variable {p q : Proc} {cache : Cache} {sym : Option Loc} {db db' : Db} {part part' table u : Bytes}
    {tbl : List Column} {t full : Tbl}
  {S S' : List Bytes} {mm : Bool}

lemma cons_slash_inj {a b c d : Bytes} (ha : slash ∉ a) (hb : slash ∉ b) (h : a ++ slash :: c = b ++ slash :: d) :
    a = b ∧ c = d := by
  induction a generalizing b with
  | nil =>
    cases b with
    | nil => exact ⟨rfl, by simpa using h⟩
    | cons y b =>
      rw [List.nil_append, List.cons_append, List.cons.injEq] at h
      exact (hb (h.1 ▸ List.mem_cons_self)).elim
  | cons x a ih =>
    cases b with
    | nil =>
      rw [List.nil_append, List.cons_append, List.cons.injEq] at h
      exact (ha (h.1 ▸ List.mem_cons_self)).elim
    | cons y b =>
      rw [List.cons_append, List.cons_append, List.cons.injEq] at h
      obtain ⟨rfl, rfl⟩ := ih (fun hm => ha (List.mem_cons_of_mem _ hm))
        (fun hm => hb (List.mem_cons_of_mem _ hm)) h.2
      exact ⟨by rw [h.1], rfl⟩

lemma tableDir_inj (h : part ∈ db.parts) (h' : part' ∈ db.parts)
    (he : db.tableDir part u = db.tableDir part' table) :
    part = part' ∧ u = table := by
  rw [Db.tableDir, Db.tableDir, Db.partDir, Db.partDir, List.append_assoc, List.append_assoc,
    List.append_cancel_left_eq, List.cons_append, List.cons_append, List.cons.injEq] at he
  exact cons_slash_inj (slash_not_mem h) (slash_not_mem h') he.2

lemma apart_symLoc (db : Db) (part table : Bytes) : Apart db.symLoc (db.tableDir part table) := by
  intro he
  have hlen := congrArg List.length he
  rw [tableDir_length] at hlen
  have : db.symLoc.dir.length = db.root.length := rfl
  omega

structure SymAt (sym : Option Loc) (db : Db) : Prop where
  bind : sym.bind db.disk = db.disk db.symLoc
  root : ∀ g, sym = some g → g = db.symLoc

lemma splayLoad_sym {disk : Disk Loc} {sym sym' : Option Loc} (h : sym.bind disk = sym'.bind disk) :
    splayLoad p disk dir sym mm = splayLoad p disk dir sym' mm := by rw [splayLoad, splayLoad, h]

lemma SymAt.load (h : SymAt sym db) (dir : Bytes) :
    splayLoad p db.disk dir sym mm = splayLoad p db.disk dir (some db.symLoc) mm :=
  splayLoad_sym h.bind

def Vouches (db : Db) (part table : Bytes) (t : Tbl) : Prop :=
  ∀ x ∈ t, VouchedAt db.disk ⟨db.tableDir part table, x.1⟩

/-- A root that only tables of `S` were added to. -/
structure Later (S : List Bytes) (db db' : Db) : Prop where
  root : db'.root = db.root
  entries : db'.entries = db.entries
  tables : ∀ part ns, db.tables part = some ns → ∃ ns', db'.tables part = some ns' ∧ ∀ n ∈ ns', n ∈ ns ∨ n ∈ S
  kept : ∀ part ∈ db.parts, ∀ u, partitionHasTable db part u = true → partitionHasTable db' part u = true
  others : ∀ part ∈ db.parts, ∀ u ∉ S, partitionHasTable db' part u = partitionHasTable db part u
  opens : (∃ dom, openSymfile (db.disk db.symLoc) = .ok dom) → ∃ dom, openSymfile (db'.disk db.symLoc) = .ok dom
  loads : ∀ q mm, ∀ part ∈ db.parts, ∀ u t, splayLoad q db.disk (db.tableDir part u) (some db.symLoc) mm = .ok t →
    Vouches db part u t →
    ∃ t', splayLoad q db'.disk (db.tableDir part u) (some db.symLoc) mm = .ok t' ∧ SameTable t t' ∧
      Vouches db' part u t'

lemma sameTable_refl (t : Tbl) : SameTable t t := List.forall₂_same.mpr fun x _ => ⟨rfl, .refl x.2⟩

lemma alike_trans {a b c : Obj} (h : Alike a b) (h' : Alike b c) : Alike a c :=
  ⟨h'.len.trans h.len, fun names => (h'.view names).trans (h.view names)⟩

lemma sameTable_trans {a b c : Tbl} (h : SameTable a b) (h' : SameTable b c) : SameTable a c := by
  induction h generalizing c with
  | nil =>
    cases h'
    exact .nil
  | cons hx _ ih =>
    cases h' with
    | cons hy hrest => exact .cons ⟨hy.1.trans hx.1, alike_trans hx.2 hy.2⟩ (ih hrest)

lemma Later.refl (db : Db) : Later [] db db where
  root := rfl
  entries := rfl
  tables := fun _ ns h => ⟨ns, h, fun _ hn => .inl hn⟩
  kept := fun _ _ _ h => h
  others := fun _ _ _ _ => rfl
  opens := id
  loads := fun _ _ _ _ _ t h hv => ⟨t, h, sameTable_refl t, hv⟩

section

variable (h : Later S db db')
include h

lemma Later.parts_eq : db'.parts = db.parts := by rw [Db.parts, Db.parts, h.entries]

lemma Later.tableDir_eq (part table : Bytes) : db'.tableDir part table = db.tableDir part table := by
  rw [Db.tableDir, Db.tableDir, Db.partDir, Db.partDir, h.root]

lemma Later.symLoc_eq : db'.symLoc = db.symLoc := by rw [Db.symLoc, Db.symLoc, h.root]

lemma Later.mono (hS : S ⊆ S') : Later S' db db' where
  root := h.root
  entries := h.entries
  tables := fun part ns hns => by
    obtain ⟨ns', hns', hall⟩ := h.tables part ns hns
    exact ⟨ns', hns', fun n hn => (hall n hn).imp_right fun hs => hS hs⟩
  kept := h.kept
  others := fun part hp u hu => h.others part hp u fun hs => hu (hS hs)
  opens := h.opens
  loads := h.loads

lemma Later.trans {db'' : Db} (h' : Later S' db' db'') : Later (S ++ S') db db'' where
  root := h'.root.trans h.root
  entries := h'.entries.trans h.entries
  tables := fun part ns hns => by
    obtain ⟨ns', hns', hall⟩ := h.tables part ns hns
    obtain ⟨ns'', hns'', hall'⟩ := h'.tables part ns' hns'
    refine ⟨ns'', hns'', fun n hn => ?_⟩
    rcases hall' n hn with hn | hn
    · exact (hall n hn).imp_right fun hs => List.mem_append_left _ hs
    · exact .inr (List.mem_append_right _ hn)
  kept := fun part hp u hu => h'.kept part (h.parts_eq ▸ hp) u (h.kept part hp u hu)
  others := fun part hp u hu => by
    rw [List.mem_append, not_or] at hu
    rw [h'.others part (h.parts_eq ▸ hp) u hu.2, h.others part hp u hu.1]
  opens := fun ho => by
    have := h'.opens
    rw [h.symLoc_eq] at this
    exact this (h.opens ho)
  loads := fun q mm part hp u t ht hv => by
    obtain ⟨t', ht', hsame, hv'⟩ := h.loads q mm part hp u t ht hv
    rw [← h.tableDir_eq, ← h.symLoc_eq] at ht'
    obtain ⟨t'', ht'', hsame', hv''⟩ := h'.loads q mm part (h.parts_eq ▸ hp) u t' ht' hv'
    rw [h.tableDir_eq, h.symLoc_eq] at ht''
    exact ⟨t'', ht'', sameTable_trans hsame hsame', hv''⟩

end

section

lemma saveEmpty_ok (h : saveEmpty p cache sym tbl table db part = .ok db') :
    (db.tableDir part table).length < pathMax ∧ ∃ disk,
      (raySplaySave p.names db.disk (cache db.disk) tbl (db.tableDir part table) sym).stop = none ∧
      runAll (raySplaySave p.names db.disk (cache db.disk) tbl (db.tableDir part table) sym).ops db.disk =
        some disk ∧
      db' = { db with disk := disk, tables := addTable db.tables part table } := by
  rw [saveEmpty] at h
  split_ifs at h with hlen
  dsimp only at h
  split at h
  · cases h
  · rename_i hstop
    split at h
    · cases h
    · rename_i disk hrun
      exact ⟨not_le.mp hlen, disk, hstop, hrun, (Except.ok.inj h).symm⟩

variable (hcur : ∀ disk, CachedCurrent disk (cache disk) (some db.symLoc)) (hsym : SymAt sym db)

include hcur hsym in
lemma cached_current : CachedCurrent db.disk (cache db.disk) sym :=
    fun g hg => hcur db.disk g (by rw [hsym.root g hg])

include hcur hsym in
lemma saveEmpty_has (h : saveEmpty p cache sym tbl table db part = .ok db') (hpart : part ∈ db.parts) :
    partitionHasTable db' part table = true ∧ ∀ part' ∈ db.parts, ∀ u, (part', u) ≠ (part, table) →
      partitionHasTable db' part' u = partitionHasTable db part' u := by
  obtain ⟨-, disk, hstop, hrun, rfl⟩ := saveEmpty_ok h
  have hc := cached_current hcur hsym
  obtain ⟨-, target, e, htstop, htrun, -⟩ := raySplaySave_run hc hstop hrun
  obtain ⟨hpath, schema, -, hfile⟩ := tablePlan_schema_run htstop htrun
  constructor
  · rw [partitionHasTable, Bool.and_eq_true, decide_eq_true_eq]
    have hsome : (disk ⟨db.tableDir part table, dotD⟩).isSome = true := by
      rw [hfile]
      rfl
    exact ⟨hpath, hsome⟩
  · intro part' hp' u hne
    have hdir : db.tableDir part' u ≠ db.tableDir part table := fun he => hne (by
      obtain ⟨rfl, rfl⟩ := tableDir_inj hp' hpart he
      rfl)
    have hsame := elsewhere_files hc (runAll_done hrun).stops hsym.root hdir
      ((apart_symLoc db part' u).reads (.inr rfl))
    change (_ && (disk ⟨db.tableDir part' u, dotD⟩).isSome) = (_ && (db.disk ⟨db.tableDir part' u, dotD⟩).isSome)
    rw [hsame]
    rfl

lemma has_of_load (h : splayLoad q db.disk (db.tableDir part u) sym mm = .ok t) :
    partitionHasTable db part u = true := by
  obtain ⟨dom, bs, v, names, -, hpath, hbs, -⟩ := splayLoad_ok.mp h
  have hsome : (db.disk (schemaLoc db part u)).isSome = true := by
    rw [show db.disk (schemaLoc db part u) = some bs from hbs]
    rfl
  rw [partitionHasTable, hsome, Bool.and_true, decide_eq_true_eq]
  exact hpath

include hcur hsym in
lemma saveEmpty_symAt (h : saveEmpty p cache sym tbl table db part = .ok db') : SymAt sym db' := by
  obtain ⟨-, disk, hstop, hrun, rfl⟩ := saveEmpty_ok h
  have hc := cached_current hcur hsym
  refine ⟨?_, hsym.root⟩
  cases hs : sym with
  | some g =>
    obtain rfl := hsym.root g hs
    rfl
  | none =>
    subst hs
    have hnone : none = db.disk db.symLoc := hsym.bind
    obtain ⟨-, target, e, -, htrun, hcase⟩ := raySplaySave_run hc hstop hrun
    rcases hcase with ⟨-, -, rfl⟩ | ⟨f, d, V, k, U, hf, -⟩
    · exact hnone.trans (tablePlan_frame (runAll_done htrun).stops (apart_symLoc db part table)).symm
    · cases hf

lemma addTable_spec {tables : Bytes → Option (List Bytes)} {ns : List Bytes} (h : tables part' = some ns) :
    ∃ ns', addTable tables part table part' = some ns' ∧ ∀ n ∈ ns', n ∈ ns ∨ n ∈ [table] := by
  rw [addTable]
  split_ifs
  · rw [h]
    refine ⟨_, rfl, fun n hn => ?_⟩
    change n ∈ (if table ∈ ns then ns else ns ++ [table]) at hn
    split_ifs at hn
    · exact .inl hn
    · exact List.mem_append.mp hn
  · exact ⟨ns, h, fun n hn => .inl hn⟩

include hcur hsym in
lemma saveEmpty_later (h : saveEmpty p cache sym tbl table db part = .ok db') (hpart : part ∈ db.parts)
    (hnew : partitionHasTable db part table = false) : Later [table] db db' := by
  obtain ⟨hhas, hothers⟩ := saveEmpty_has hcur hsym h hpart
  obtain ⟨-, disk, hstop, hrun, rfl⟩ := saveEmpty_ok h
  have hc := cached_current hcur hsym
  have hstops := (runAll_done hrun).stops
  have hfile := symfile_kept hc hstops hsym.root fun _ _ htable =>
    tablePlan_frame htable (apart_symLoc db part table)
  refine ⟨rfl, rfl, fun part' ns hns => addTable_spec hns, fun part' hp' u hu =>
    ?_, fun part' hp' u hu => ?_, ?_, ?_⟩
  · rw [hothers part' hp' u, hu]
    rintro ⟨⟩
    rw [hnew] at hu
    cases hu
  · refine hothers part' hp' u ?_
    rintro ⟨⟩
    exact hu List.mem_cons_self
  · rintro ⟨dom, hdom⟩
    rcases hfile with hold | hgrown
    · exact ⟨dom, by rw [← hdom]; exact congrArg openSymfile hold⟩
    · obtain ⟨V, hV, -⟩ := hgrown.opens hdom
      exact ⟨some V, hV⟩
  · intro q mm part' hp' u t ht hv
    have hdir : db.tableDir part' u ≠ db.tableDir part table := fun he => by
      obtain ⟨rfl, rfl⟩ := tableDir_inj hp' hpart he
      rw [has_of_load ht] at hnew
      cases hnew
    have hreads : ∀ n, n = dotD ∨ n ∈ t.map Prod.fst → (⟨db.tableDir part' u, n⟩ : Loc) ∉ symFiles db.symLoc := by
      rintro n (rfl | hn)
      · exact (apart_symLoc db part' u).reads (.inr rfl)
      · obtain ⟨x, hx, rfl⟩ := List.mem_map.mp hn
        exact (apart_symLoc db part' u).reads (.inl (loaded_safe ht x hx))
    obtain ⟨t', ht', hsame⟩ := elsewhere_loads hc hstops hsym.root hdir hfile hreads hv ht
    refine ⟨t', ht', hsame, fun y hy => ?_⟩
    obtain ⟨x, hx, hname, -⟩ := exists_of_forall₂_right hsame.flip hy
    have hfiles := elsewhere_files hc hstops hsym.root hdir (hreads x.1 (.inr (List.mem_map_of_mem hx)))
    intro file hfile
    rw [hname] at hfile
    exact hv x hx file (hfiles ▸ hfile)

end

section

variable {base names : List Bytes} {x : Bytes × Obj} {c : Column} {o o' : Obj}

lemma colType_of_view (h : o'.view n = o.view n') (hvec : emptyLike names o ≠ none) : colType o' = colType o := by
  cases o <;> simp only [emptyLike, ne_eq, not_true_eq_false, reduceCtorEq, not_false_eq_true] at hvec <;>
    cases o' <;> simp only [Obj.view, Store.Value.vec.injEq, reduceCtorEq] at h <;>
      first | rfl | (obtain ⟨rfl, -⟩ := h; rfl)

def valueTag : Store.AtomValue → UInt8
  | .fixed tag _ _ => tag
  | .guid _ | .dangling => Store.guidTag
  | .sym _ _ => Serde.raySymAtom
  | .str _ => Serde.rayStrAtom

lemma colType_atom (a : Store.Atom) : colType (.atom a) = valueTag a.value := by
  cases a with
  | fixed tag slot nullBit =>
    rw [Store.Atom.value]
    split_ifs with hguid
    · exact hguid
    · rfl
  | _ => rfl

lemma alike_type {o o' : Obj} (h : Alike o o') : colType o' = colType o := by
  have hv := h.view []
  cases o with
  | atom a =>
    cases o' with
    | atom b =>
      simp only [Obj.view, Store.Value.atom.injEq] at hv
      rw [colType_atom, colType_atom, hv]
    | _ => cases hv
  | _ => cases o' <;> simp_all [Obj.view, colType]

lemma emptyColumn_eq (h : emptyColumn names x = some c) : ∃ o, emptyLike names x.2 = some o ∧
    c = ⟨x.1, o, none, ⟨List.replicate 8 0, none⟩, false⟩ := by
  obtain ⟨o, ho, rfl⟩ := Option.map_eq_some_iff.mp h
  exact ⟨o, ho, rfl⟩

lemma emptyLike_cases (h : emptyLike names o = some o') :
    colType o' = colType o ∧ emptyLike names o' ≠ none ∧ o'.len = 0 ∧
    ((∃ t, o' = .vec t (.owned 0 [])) ∨ o' = .symVec ⟨3, names, true, [], 0, le_rfl⟩ ∨
      o' = .strVec ⟨0, [], []⟩) := by
  cases o <;> simp only [emptyLike, Option.some.injEq, reduceCtorEq] at h <;> subst h
  · exact ⟨rfl, by rintro ⟨⟩, rfl, .inl ⟨_, rfl⟩⟩
  · exact ⟨rfl, by rintro ⟨⟩, rfl, .inr (.inl rfl)⟩
  · exact ⟨rfl, by rintro ⟨⟩, rfl, .inr (.inl rfl)⟩
  · exact ⟨rfl, by rintro ⟨⟩, rfl, .inr (.inr rfl)⟩
  · exact ⟨rfl, by rintro ⟨⟩, rfl, .inr (.inr rfl)⟩

lemma emptyColumn_held {cached : Option SymDomain} (h : emptyColumn names x = some c) :
    c.Held names cached ∧ c.Survives base := by
  obtain ⟨o, ho, rfl⟩ := emptyColumn_eq h
  obtain ⟨-, -, -, ⟨t, rfl⟩ | rfl | rfl⟩ := emptyLike_cases ho
  · exact ⟨⟨rfl, by rintro _ ⟨⟩, fun _ => by norm_num [Obj.Held, Serde.Vec.cells, Serde.FixTy.size],
      by rintro _ _ _ ⟨⟩⟩, trivial⟩
  · refine ⟨⟨rfl, by rintro _ ⟨⟩, by rintro ⟨⟩, ?_⟩, Store.readsRight_zero _ _⟩
    rintro v offset len ⟨⟩
    exact ⟨by norm_num, by simp, by rintro ⟨⟩⟩
  · exact ⟨⟨rfl, by rintro _ ⟨⟩, fun _ => by simp [Obj.Held], by rintro _ _ _ ⟨⟩⟩, trivial⟩

lemma emptyTableLike_eq (h : emptyTableLike names full = some tbl) :
    List.Forall₂ (fun x c => emptyColumn names x = some c) full tbl := by
  induction full generalizing tbl with
  | nil =>
    cases h
    exact .nil
  | cons x full ih =>
    rw [emptyTableLike, List.mapM_cons] at h
    obtain ⟨c, hc, h⟩ := Option.bind_eq_some_iff.mp h
    obtain ⟨cs, hcs, h⟩ := Option.bind_eq_some_iff.mp h
    cases h
    exact .cons hc (ih hcs)

structure CopyOf (full t : Tbl) : Prop where
  columns : schema t = schema full
  rows : ∀ x ∈ t, x.2.len = 0

lemma len_of_view (h : o'.view n = o.view n') (hvec : emptyLike names o ≠ none) (hlen : o.len = 0) :
    o'.len = 0 := by
  have hview : ∀ {v : Store.SymVec} {offset len}, offset + len ≤ v.block.length →
      v.cells offset len = [] → len = 0 := by
    intro v offset len hin hnil
    have := congrArg List.length hnil
    simp [Store.SymVec.cells] at this
    omega
  have hdescs : ∀ {v : Store.StrVec} {offset len}, offset + len ≤ v.descs.length →
      (((v.descs.drop offset).take len).map (Store.Desc.str v.pool)).length = 0 → len = 0 := by
    intro v offset len hin hnil
    simp at hnil
    omega
  have hzero : ∀ {o : Obj}, emptyLike names o ≠ none → o.len = 0 → ∀ n, (∃ t, o.view n = .vec t []) ∨
      o.view n = .syms [] ∨ o.view n = .strs [] := by
    intro o hvec hlen n
    cases o <;> simp only [emptyLike, ne_eq, not_true_eq_false, reduceCtorEq, not_false_eq_true] at hvec <;>
      rw [Obj.len] at hlen
    · rename_i t v
      exact .inl ⟨t, by rw [Obj.view, List.length_eq_zero_iff.mp hlen]; rfl⟩
    · exact .inr (.inl (by rw [Obj.view, hlen, Store.SymVec.cells, List.take_zero]; rfl))
    · subst hlen
      exact .inr (.inl (by rw [Obj.view, Store.SymVec.cells, List.take_zero]; rfl))
    · exact .inr (.inr (by rw [Obj.view, List.length_eq_zero_iff.mp hlen]; rfl))
    · subst hlen
      exact .inr (.inr (by rw [Obj.view, List.take_zero]; rfl))
  rcases hzero hvec hlen n' with ⟨t, hz⟩ | hz | hz <;> rw [hz] at h <;> cases o' <;>
    simp only [Obj.view, Store.Value.vec.injEq, Store.Value.syms.injEq, Store.Value.strs.injEq,
      reduceCtorEq] at h <;> rw [Obj.len]
  · obtain ⟨rfl, h⟩ := h
    simpa using h
  · rename_i v
    exact hview (by rw [Nat.zero_add]; exact v.inside) h
  · rename_i v offset len inside
    exact hview (inside.trans v.inside) h
  · simpa using h
  · rename_i v offset len inside
    exact hdescs inside (by rw [h]; rfl)

section

variable (h : emptyTableLike names full = some tbl)
include h

lemma copy_of_saved (hs : SavedTable q names tbl t) : CopyOf full t := by
  have hall := emptyTableLike_eq h
  clear h
  induction hall generalizing t with
  | nil =>
    cases hs
    exact ⟨rfl, nofun⟩
  | cons hx _ ih =>
    cases hs with
    | cons hy hrest =>
      obtain ⟨o, ho, rfl⟩ := emptyColumn_eq hx
      obtain ⟨htype, hvec, hlen, -⟩ := emptyLike_cases ho
      obtain ⟨hschema, hrows⟩ := ih hrest
      refine ⟨?_, List.forall_mem_cons.mpr ⟨len_of_view hy.2 hvec hlen, hrows⟩⟩
      rw [schema, schema, List.map_cons, List.map_cons]
      refine List.cons_eq_cons.mpr ⟨?_, hschema⟩
      rw [hy.1, colType_of_view hy.2 hvec, htype]

lemma copy_names : tbl.map Column.name = full.map Prod.fst := by
  have hall := emptyTableLike_eq h
  clear h
  induction hall with
  | nil => rfl
  | cons hx _ ih =>
    obtain ⟨o, -, rfl⟩ := emptyColumn_eq hx
    rw [List.map_cons, List.map_cons, ih]

lemma mem_copy (hc : c ∈ tbl) : ∃ x ∈ full, emptyColumn names x = some c :=
  exists_of_forall₂_right (emptyTableLike_eq h).flip hc

end

def Clean (ns : List Bytes) : Prop := ns.Pairwise fun a b => a ∉ (family b).tail

lemma unclobbered_of_clean (h : Clean (tbl.map Column.name)) : Unclobbered dir tbl := by
  refine (List.pairwise_map.mp h).imp fun {a b} hab hm => hab ?_
  obtain ⟨n, hn, heq⟩ := beside_family hm
  rwa [(Loc.mk.inj heq).2]

structure Template (names : List Bytes) (full : Tbl) (tbl : List Column) : Prop where
  copy : emptyTableLike names full = some tbl
  safe : ∀ x ∈ full, splayColNameSafe x.1 = true
  clean : Clean (full.map Prod.fst)
  count : full.length < 2 ^ 59

lemma saveEmpty_loads (hcur : ∀ disk, CachedCurrent disk (cache disk) (some db.symLoc)) (hsym : SymAt sym db)
    (hopen : ∃ dom, openSymfile (db.disk db.symLoc) = .ok dom) (ht : Table base p.names)
    (htempl : Template p.names full tbl)
    (h : saveEmpty p cache sym tbl table db part = .ok db') (mm : Bool) (hq : Table base q.names) :
    ∃ t', splayLoad q db'.disk (db.tableDir part table) (some db.symLoc) mm = .ok t' ∧ CopyOf full t' ∧
      Vouches db' part table t' := by
  have hsym' := saveEmpty_symAt hcur hsym h
  obtain ⟨-, disk, hstop, hrun, rfl⟩ := saveEmpty_ok h
  have hnames := copy_names htempl.copy
  have hheld : ∀ c ∈ tbl, c.Held p.names (cache db.disk) ∧ c.Survives base := by
    intro c hc
    obtain ⟨x, -, hx⟩ := mem_copy htempl.copy hc
    exact emptyColumn_held hx
  have hsafe : ∀ c ∈ tbl, splayColNameSafe c.name = true := by
    intro c hc
    obtain ⟨x, hx, hcol⟩ := mem_copy htempl.copy hc
    obtain ⟨o, -, rfl⟩ := emptyColumn_eq hcol
    exact htempl.safe x hx
  have hcount : tbl.length < 2 ^ 59 := by
    have hlen := congrArg List.length hnames
    rw [List.length_map, List.length_map] at hlen
    rw [hlen]
    exact htempl.count
  have hopen' : ∀ f, sym = some f → ∃ dom, openSymfile (db.disk f) = .ok dom := by
    intro f hf
    rw [hsym.root f hf]
    exact hopen
  have hkept : SymKept (db.tableDir part table) tbl sym := by
    intro f hf
    rw [hsym.root f hf]
    exact .inl ((apart_symLoc db part table).spared hsafe)
  obtain ⟨target, dom, htarget, hcols, -, -, hiff⟩ :=
    raySplaySave_written (cached_current hcur hsym) ht (fun c hc => (hheld c hc).1) hcount hsafe
    hopen' hstop hrun (unclobbered_of_clean (hnames ▸ htempl.clean)) hkept
  have hempty : ∀ c ∈ tbl, c.obj.len = 0 := by
    intro c hc
    obtain ⟨x, -, hx⟩ := mem_copy htempl.copy hc
    obtain ⟨o, ho, rfl⟩ := emptyColumn_eq hx
    exact (emptyLike_cases ho).2.2.1
  have hreloads : Reloads base p.names disk tbl (db.tableDir part table) sym :=
    hiff.mpr ⟨⟨0, hempty⟩, fun c hc bs henc => (column_means ht (hheld c hc).1 htarget henc).1 (hheld c hc).2⟩
  obtain ⟨t', ht', hsaved⟩ := hreloads q mm hq
  have hload : splayLoad q disk (db.tableDir part table) (some db.symLoc) mm = .ok t' := by
    rw [← ht']
    exact splayLoad_sym hsym'.bind.symm
  refine ⟨t', hload, copy_of_saved htempl.copy hsaved, fun x hx file hfile => ?_⟩
  obtain ⟨c, hc, hname, -⟩ := exists_of_forall₂_right hsaved.flip hx
  obtain ⟨-, bs, henc, hbs⟩ := hcols c hc
  rw [hname] at hfile
  obtain rfl := Option.some.inj (hbs.symm.trans hfile)
  refine vouched_encoded (fun d hd => ?_) (hheld c hc).1.wf ⟨bs, henc, List.prefix_rfl, fun _ => rfl⟩
  obtain ⟨V, k, -, hh, -⟩ := htarget d hd
  exact ⟨V, k, hh⟩

end

section

variable {base ms : List Bytes} {db₁ : Db} {filled : List Bytes}

def Copied (base : List Bytes) (full : Tbl) (db : Db) (part table : Bytes) : Prop :=
  ∀ (q : Proc) (mm : Bool), Table base q.names →
    ∃ t, splayLoad q db.disk (db.tableDir part table) (some db.symLoc) mm = .ok t ∧ CopyOf full t ∧
      Vouches db part table t

lemma sameTable_schema (h : SameTable t t') : schema t' = schema t := by
  induction h with
  | nil => rfl
  | cons hx _ ih =>
    rw [schema, schema, List.map_cons, List.map_cons]
    refine List.cons_eq_cons.mpr ⟨?_, ih⟩
    rw [hx.1, alike_type hx.2]

lemma CopyOf.same (h : CopyOf full t) (hs : SameTable t t') : CopyOf full t' := by
  refine ⟨(sameTable_schema hs).trans h.columns, fun y hy => ?_⟩
  obtain ⟨x, hx, -, halike⟩ := exists_of_forall₂_right hs.flip hy
  rw [halike.len, h.rows x hx]

lemma Copied.later (h : Copied base full db part table) (hl : Later S db db') (hpart : part ∈ db.parts) :
    Copied base full db' part table := by
  intro q mm hq
  obtain ⟨t, ht, hcopy, hv⟩ := h q mm hq
  obtain ⟨t', ht', hsame, hv'⟩ := hl.loads q mm part hpart table t ht hv
  exact ⟨t', by rw [hl.tableDir_eq, hl.symLoc_eq]; exact ht', hcopy.same hsame, hv'⟩

structure Ready (cache : Cache) (sym : Option Loc) (db : Db) : Prop where
  current : ∀ disk, CachedCurrent disk (cache disk) (some db.symLoc)
  at_root : SymAt sym db

lemma Ready.save (h : Ready cache sym db) (hs : saveEmpty p cache sym tbl table db part = .ok db') :
    Ready cache sym db' := by
  have hat := saveEmpty_symAt h.current h.at_root hs
  obtain ⟨-, disk, -, -, rfl⟩ := saveEmpty_ok hs
  exact ⟨h.current, hat⟩

lemma saveAll_spec (hr : Ready cache sym db)
    (hms : ∀ part ∈ ms, part ∈ db.parts ∧ partitionHasTable db part table = false) (hnodup : ms.Nodup)
    (h : ms.foldlM (saveEmpty p cache sym tbl table) db = .ok db') :
    Ready cache sym db' ∧ Later [table] db db' ∧ ∀ part ∈ ms, partitionHasTable db' part table = true ∧
      ∀ base full, (∃ dom, openSymfile (db.disk db.symLoc) = .ok dom) → Table base p.names →
        Template p.names full tbl →
        Copied base full db' part table := by
  induction ms generalizing db with
  | nil =>
    obtain rfl := Except.ok.inj h
    exact ⟨hr, (Later.refl db).mono (List.nil_subset _), nofun⟩
  | cons part ms ih =>
    rw [List.foldlM_cons] at h
    obtain ⟨db₁, hs, hrest⟩ := Store.bind_eq_ok' h
    obtain ⟨⟨hpart, hnew⟩, htail⟩ := List.forall_mem_cons.mp hms
    obtain ⟨hnot, hnodup'⟩ := List.nodup_cons.mp hnodup
    have hl := saveEmpty_later hr.current hr.at_root hs hpart hnew
    obtain ⟨hhas, hothers⟩ := saveEmpty_has hr.current hr.at_root hs hpart
    have hnext : ∀ part' ∈ ms, part' ∈ db₁.parts ∧ partitionHasTable db₁ part' table = false := by
      intro part' hp'
      refine ⟨hl.parts_eq ▸ (htail part' hp').1, ?_⟩
      rw [hothers part' (htail part' hp').1 table fun he => hnot ((Prod.mk.inj he).1 ▸ hp'), (htail part' hp').2]
    obtain ⟨hr', hl', hall⟩ := ih (hr.save hs) hnext hnodup' hrest
    refine ⟨hr', (hl.trans hl').mono (by simp),
      List.forall_mem_cons.mpr ⟨⟨?_, fun base full hopen ht htempl => ?_⟩, fun part' hp' => ?_⟩⟩
    · exact hl'.kept part (hl.parts_eq ▸ hpart) table hhas
    · have hcopied : Copied base full db₁ part table := by
        intro q mm hq
        obtain ⟨t, hload, hcopy, hv⟩ := saveEmpty_loads hr.current hr.at_root hopen ht htempl hs mm hq
        exact ⟨t, by rw [hl.tableDir_eq, hl.symLoc_eq]; exact hload, hcopy, hv⟩
      exact hcopied.later hl' (hl.parts_eq ▸ hpart)
    · refine ⟨(hall part' hp').1, fun base full hopen => (hall part' hp').2 base full ?_⟩
      rw [hl.symLoc_eq]
      exact hl.opens hopen

def lastWith (db : Db) (table : Bytes) : Option Bytes :=
  db.parts.reverse.find? fun part => partitionHasTable db part table

lemma fillTable_spec (hr : Ready cache sym db) (h : fillTable p cache sym db.parts db table = .ok (db', filled)) :
    Ready cache sym db' ∧ Later [table] db db' ∧
      ((∃ part ∈ db.parts, partitionHasTable db part table = true) → ∀ part ∈ db.parts,
        partitionHasTable db' part table = true) ∧
      ∀ base templ full, lastWith db table = some templ →
        splayLoad p db.disk (db.tableDir templ table) (some db.symLoc) true = .ok full →
        Table base p.names → Clean (full.map Prod.fst) → full.length < 2 ^ 59 →
        ∀ part ∈ db.parts, partitionHasTable db part table = false → Copied base full db' part table := by
  rw [fillTable] at h
  split at h
  · rename_i hnone
    obtain ⟨rfl, -⟩ := Prod.mk.inj (Except.ok.inj h)
    refine ⟨hr, (Later.refl db).mono (List.nil_subset _), fun ⟨part, hpart, hhas⟩ =>
      ?_, fun base templ full hlast => ?_⟩
    · exact absurd hhas (List.find?_eq_none.mp hnone part (List.mem_reverse.mpr hpart))
    · rw [lastWith, hnone] at hlast
      cases hlast
  · rename_i templ htempl
    dsimp only at h
    split_ifs at h with hmiss hlen
    · obtain ⟨rfl, -⟩ := Prod.mk.inj (Except.ok.inj h)
      have hall : ∀ part ∈ db.parts, partitionHasTable db part table = true := by
        intro part hpart
        have := List.filter_eq_nil_iff.mp hmiss part hpart
        simpa using this
      refine ⟨hr, (Later.refl db).mono (List.nil_subset _), fun _ =>
        hall, fun _ _ _ _ _ _ _ _ part hpart hnew => ?_⟩
      rw [hall part hpart] at hnew
      cases hnew
    · split at h
      · cases h
      · rename_i full hfull
        split at h
        · cases h
        · rename_i tbl htbl
          obtain ⟨db₁, hsaved, he⟩ := Store.map_eq_ok h
          obtain ⟨rfl, -⟩ := Prod.mk.inj he
          have hms : ∀ part ∈ db.parts.filter fun part => !partitionHasTable db part table,
              part ∈ db.parts ∧ partitionHasTable db part table = false := by
            intro part hm
            obtain ⟨hpart, hno⟩ := List.mem_filter.mp hm
            exact ⟨hpart, by simpa using hno⟩
          have hspec := saveAll_spec hr hms ((parts_nodup db).filter _) hsaved
          refine ⟨hspec.1, hspec.2.1, fun _ part hpart =>
            ?_, fun base templ' full' hlast hload ht hclean hcount part hpart hnew => ?_⟩
          · cases hhas : partitionHasTable db part table with
            | true => exact hspec.2.1.kept part hpart table hhas
            | false => exact (hspec.2.2 part (List.mem_filter.mpr ⟨hpart, by rw [hhas]; rfl⟩)).1
          · rw [lastWith, htempl] at hlast
            obtain rfl := Option.some.inj hlast
            rw [hr.at_root.load] at hfull
            obtain rfl := Except.ok.inj (hload.symm.trans hfull)
            obtain ⟨dom, -, -, -, hdom, -⟩ := splayLoad_ok.mp hload
            exact (hspec.2.2 part (List.mem_filter.mpr ⟨hpart, by rw [hnew]; rfl⟩)).2 base _ ⟨dom, hdom⟩ ht
              ⟨htbl, loaded_safe hload, hclean, hcount⟩

end

end Rayforce.Parted
