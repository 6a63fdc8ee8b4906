import Rayforce.Parted.Names
import Rayforce.Splay.RoundTrip

namespace Rayforce.Parted

open Library.Words Library.Files Rayforce.Splay List Option
open Rayforce.Store (Obj Proc Atom)

def slash : UInt8 := 0x2F

def dotSym : Bytes := [0x2E, 0x73, 0x79, 0x6D]

abbrev Tbl := List (Bytes × Obj)

structure Db where
  root : Bytes
  entries : List Bytes
  entries_nodup : entries.Nodup
  tables : Bytes → Option (List Bytes)
  disk : Disk Loc

namespace Db

def symLoc (db : Db) : Loc := ⟨db.root, dotSym⟩

def partDir (db : Db) (part : Bytes) : Bytes := db.root ++ slash :: part

def tableDir (db : Db) (part table : Bytes) : Bytes := db.partDir part ++ slash :: table

def parts (db : Db) : List Bytes := collectPartDirs db.entries

end Db

inductive ReadErr
  | io | range | corrupt
  | load (e : LoadErr)
  deriving DecidableEq

def colType : Obj → UInt8
  | .nullPtr | .error => Serde.rayError
  | .atom (.fixed tag _ _) => tag
  | .atom (.guid _ _) => Store.guidTag
  | .atom (.sym _ _) => Serde.raySymAtom
  | .atom (.str _) => Serde.rayStrAtom
  | .vec t _ => t.vecTag
  | .symVec _ | .symSlice _ _ _ _ => Serde.raySymVec
  | .strVec _ | .strSlice _ _ _ _ => Serde.rayStrVec
  | .list _ => Serde.rayList
  | .table _ _ => Serde.rayTable
  | .dict _ _ => Serde.rayDict
  | .other tag => tag

def schema (t : Tbl) : List (Bytes × UInt8) := t.map fun x => (x.1, colType x.2)

def nrows (t : Tbl) : ℕ := Store.rayTableNrows (t.map Prod.snd)

structure PartedCol where
  name : Bytes
  type : UInt8
  segs : List (Option Obj)

structure PartedTable where
  mcName : Bytes
  mcType : McType
  keys : List Key
  counts : List ℕ
  cols : List PartedCol

def mcName : McType → Bytes
  | .date => [0x64, 0x61, 0x74, 0x65]
  | _ => [0x70, 0x61, 0x72, 0x74]

def sameColumns (first t : Tbl) : Bool :=
  t.length ≤ first.length && (List.range t.length).all fun c => (schema t)[c]? = (schema first)[c]?

def assemble (parts : List Bytes) : List Tbl → Except ReadErr PartedTable
  | [] => .error .io
  | first :: rest =>
    if first = [] then .error .corrupt
    else if rest.all (sameColumns first) then
      let mc := inferMcType parts
      .ok { mcName := mcName mc, mcType := mc, keys := parts.map (partKey mc), counts := (first :: rest).map nrows,
            cols := first.mapIdx fun c x => ⟨x.1, colType x.2, (first :: rest).map fun t => (t[c]?).map Prod.snd⟩ }
    else .error .corrupt

def badTableName (table : Bytes) : Bool :=
  table.contains slash || table.contains 0x5C || decide ([dot, dot] <:+: table) || table.head? = some dot

def loadPart (p : Proc) (db : Db) (table part : Bytes) : Except ReadErr Tbl :=
  if pathMax ≤ (db.tableDir part table).length then .error .range
  else
    match splayLoad p db.disk (db.tableDir part table) (some db.symLoc) true with
    | .error e => .error (.load e)
    | .ok t => .ok t

def rayReadParted (p : Proc) (db : Db) (table : Bytes) : Except ReadErr PartedTable :=
  if badTableName table then .error .io
  else if pathMax ≤ db.symLoc.path then .error .io
  else
    match openSymfile (db.disk db.symLoc) with
    | .error _ => .error .corrupt
    | .ok _ =>
      if db.parts = [] then .error .io
      else (db.parts.mapM (loadPart p db table)).bind (assemble db.parts)

section

variable {p : Proc} {t first : Tbl} {ts rest : List Tbl} {parts : List Bytes} {r : PartedTable}

lemma sameColumns_iff : sameColumns first t = true ↔ schema t <+: schema first := by
  rw [sameColumns, Bool.and_eq_true, decide_eq_true_eq, List.all_eq_true]
  have hlen : ∀ t : Tbl, (schema t).length = t.length := fun t => length_map _
  constructor
  · rintro ⟨hle, hall⟩
    rw [prefix_iff_eq_take, hlen]
    apply ext_getElem?
    intro c
    by_cases hc : c < t.length
    · rw [getElem?_take_of_lt hc]
      exact of_decide_eq_true (hall c (mem_range.mpr hc))
    · rw [getElem?_eq_none (by rw [hlen]; omega), getElem?_eq_none (by rw [length_take, hlen]; omega)]
  · intro h
    refine ⟨by rw [← hlen, ← hlen first]; exact h.length_le, fun c hc => decide_eq_true ?_⟩
    rw [mem_range, ← hlen] at hc
    obtain ⟨more, hmore⟩ := h
    rw [← hmore, getElem?_append_left hc]

structure InOrder (parts : List Bytes) (ts : List Tbl) (r : PartedTable) : Prop where
  type : r.mcType = inferMcType parts
  keys : r.keys = parts.map (partKey r.mcType)
  counts : r.counts = ts.map nrows
  columns : ∀ t ∈ ts, schema t <+: r.cols.map fun c => (c.name, c.type)
  segs : ∀ (c : ℕ) (col : PartedCol), r.cols[c]? = some col → col.segs = ts.map fun t => (t[c]?).map Prod.snd
  rows : ∀ col ∈ r.cols, List.Forall₂ (fun seg n => ∀ o, seg = some o → o.len = n) col.segs r.counts

def Even (t : Tbl) : Prop := ∀ x ∈ t, x.2.len = nrows t

lemma even_of_len {n : ℕ} (h : ∀ x ∈ t, x.2.len = n) : Even t := by
  intro x hx
  cases t with
  | nil => cases hx
  | cons y t => rw [h x hx, nrows, Store.rayTableNrows, map_cons, head?_cons, map_some, getD_some,
    h y mem_cons_self]

lemma even_of_load {disk : Disk Loc} {dir : Bytes} {sym : Option Loc} {mm : Bool}
    (h : splayLoad p disk dir sym mm = .ok t) : Even t := by
  obtain ⟨dom, bs, v, names, -, -, -, -, -, hcols⟩ := splayLoad_ok.mp h
  obtain ⟨-, -, rows, -, hrows⟩ := loadColumns_spec hcols
  exact even_of_len hrows

lemma assemble_ok (hne : first ≠ []) (hev : ∀ t ∈ first :: rest, Even t)
    (hfirst : ∀ t ∈ rest, schema t <+: schema first) :
    ∃ r, assemble parts (first :: rest) = .ok r ∧ InOrder parts (first :: rest) r := by
  rw [assemble, if_neg hne, if_pos (all_eq_true.mpr fun t ht => sameColumns_iff.mpr (hfirst t ht))]
  refine ⟨_, rfl, rfl, rfl, rfl, fun t ht => ?_, fun c col hc => ?_, fun col hc => ?_⟩
  · have hcols : (first.mapIdx fun c x =>
      (⟨x.1, colType x.2, (first :: rest).map fun t => (t[c]?).map Prod.snd⟩ : PartedCol)).map
        (fun c => (c.name, c.type)) = schema first := by
      apply ext_getElem?
      intro c
      simp [schema, Function.comp_def]
    rw [hcols]
    rcases mem_cons.mp ht with rfl | ht
    · exact prefix_rfl
    · exact hfirst t ht
  · rw [getElem?_mapIdx] at hc
    obtain ⟨x, -, rfl⟩ := map_eq_some_iff.mp hc
    rfl
  · obtain ⟨c, x, rfl⟩ := mem_mapIdx.mp hc
    rw [forall₂_map_left_iff, forall₂_map_right_iff, forall₂_same]
    rintro t ht o ho
    obtain ⟨y, hy, rfl⟩ := map_eq_some_iff.mp ho
    exact hev t ht y (mem_of_getElem? hy)

lemma assemble_refuses (h : ∃ t ∈ rest, ¬ schema t <+: schema first) :
    assemble parts (first :: rest) = .error .corrupt := by
  obtain ⟨t, ht, hlong⟩ := h
  rw [assemble]
  split
  · rfl
  · rw [if_neg fun hall => hlong (sameColumns_iff.mp (all_eq_true.mp hall t ht))]

end

section

variable {p : Proc} {db : Db} {table part : Bytes} {t first : Tbl} {ts rest : List Tbl} {r : PartedTable}

lemma symLoc_path (db : Db) : db.symLoc.path = db.root.length + 5 := rfl

lemma tableDir_length (db : Db) (part table : Bytes) :
    (db.tableDir part table).length = db.root.length + part.length + table.length + 2 := by
  simp [Db.tableDir, Db.partDir]
  omega

lemma parts_nodup (db : Db) : db.parts.Nodup := (perm_insertionSort _ _).nodup_iff.mpr (db.entries_nodup.filter _)

lemma ne_nil_of_part (h : part ∈ db.parts) : part ≠ [] := by
  have hp := (mem_collectPartDirs.mp h).2
  rintro rfl
  cases hp

lemma slash_not_mem (h : part ∈ db.parts) : slash ∉ part := by
  have hp := (mem_collectPartDirs.mp h).2
  rw [isPartName, Bool.and_eq_true, List.all_eq_true] at hp
  intro hs
  exact absurd (hp.2 slash hs) (by decide)

lemma loadPart_ok : loadPart p db table part = .ok t ↔ (db.tableDir part table).length < pathMax ∧
    splayLoad p db.disk (db.tableDir part table) (some db.symLoc) true = .ok t := by
  rw [loadPart]
  split_ifs with hlen
  · exact ⟨nofun, fun h => absurd h.1 (not_lt.mpr hlen)⟩
  · cases splayLoad p db.disk (db.tableDir part table) (some db.symLoc) true with
    | error e => exact ⟨nofun, fun h => by cases h.2⟩
    | ok t' => exact ⟨fun h => ⟨not_le.mp hlen, by cases h; rfl⟩, fun h => by cases h.2; rfl⟩

lemma rayReadParted_eq (hname : badTableName table = false) (hne : db.parts ≠ [])
    (hts : db.parts.mapM (loadPart p db table) = .ok ts) : rayReadParted p db table = assemble db.parts ts := by
  obtain ⟨part, more, hparts⟩ := exists_cons_of_ne_nil hne
  have hall := Store.mapM_eq_ok hts
  obtain ⟨t, -, hload⟩ := exists_of_forall₂_right hall (hparts ▸ mem_cons_self : part ∈ db.parts)
  obtain ⟨-, hload⟩ := loadPart_ok.mp hload
  obtain ⟨dom, bs, v, names, hdom, hpath, -⟩ := splayLoad_ok.mp hload
  have hdot : (⟨db.tableDir part table, dotD⟩ : Loc).path = db.root.length + part.length + table.length + 5 := by
    rw [Loc.path, tableDir_length]
    rfl
  have hpos := length_pos_of_ne_nil (ne_nil_of_part (hparts ▸ mem_cons_self : part ∈ db.parts))
  rw [bind_some] at hdom
  rw [rayReadParted, if_neg (by rw [hname]; nofun), if_neg (by rw [symLoc_path]; omega), hdom]
  dsimp only
  rw [if_neg hne, hts]
  rfl

lemma read_iff (hname : badTableName table = false)
    (hts : db.parts.mapM (loadPart p db table) = .ok (first :: rest))
    (hne : first ≠ []) : ((∀ t ∈ rest, schema t <+: schema first) →
      ∃ r, rayReadParted p db table = .ok r ∧ InOrder db.parts (first :: rest) r) ∧
    (¬ (∀ t ∈ rest, schema t <+: schema first) → rayReadParted p db table = .error .corrupt) := by
  have hall := Store.mapM_eq_ok hts
  have hparts : db.parts ≠ [] := by
    intro hnil
    rw [hnil] at hall
    cases hall
  rw [rayReadParted_eq hname hparts hts]
  constructor
  · refine assemble_ok hne fun t ht => ?_
    obtain ⟨part, hload⟩ := Store.exists_of_forall₂ hall.flip ht
    exact even_of_load (loadPart_ok.mp hload).2
  · intro h
    refine assemble_refuses ?_
    push Not at h
    exact h

end

end Rayforce.Parted
