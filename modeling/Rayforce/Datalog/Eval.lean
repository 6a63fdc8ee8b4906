import Rayforce.Library.SemiNaive
import Rayforce.Datalog.Compile
import Rayforce.Datalog.Stratify

namespace Rayforce.Datalog

open List Option

def tableDistinct (tbl : Table) : Table := tbl.dedup

def tableAntijoin (left right : Table) : Table :=
  left.filter fun l => !right.any (joinKeysEq ((List.range l.length).map fun c => (c, c)) l)

def stratumRules (rules : List Rule) (stratum : String → ℕ) (s : ℕ) : List Rule :=
  rules.filter fun r => stratum r.head.pred = s

def inStratum (rels : List Rel) (stratum : String → ℕ) (s : ℕ) (name : String) : Bool :=
  match dlFindRel rels name with
  | none => false
  | some rel => rel.isIdb && stratum name = s

def initialPass (rels : List Rel) : List Rule → Tables → Option Tables
  | [], tables => some tables
  | r :: rs, tables =>
    match dlCompileRule rels tables r with
    | .error _ => none
    | .ok none => initialPass rels rs tables
    | .ok (some new) =>
      initialPass rels rs (Function.update tables r.head.pred (tableDistinct (tables r.head.pred ++ new)))

def occurrences (rules : List Rule) : List (Rule × Atom) :=
  rules.flatMap fun r => r.positives.map fun a => (r, a)

def newTuples (rels : List Rel) (tables delta : Tables) : List (Rule × Atom) → Tables → Option Tables
  | [], new => some new
  | (r, a) :: occs, new =>
    if delta a.pred = [] then newTuples rels tables delta occs new
    else
      match dlCompileRule rels (Function.update tables a.pred (delta a.pred)) r with
      | .error _ => none
      | .ok none => newTuples rels tables delta occs new
      | .ok (some rows) =>
        newTuples rels tables delta occs (Function.update new r.head.pred (new r.head.pred ++ rows))

def nextDelta (idb : String → Bool) (tables new : Tables) (name : String) : Table :=
  if idb name then tableAntijoin (tableDistinct (new name)) (tables name) else []

def fixpoint (rels : List Rel) (rules : List Rule) (idb : String → Bool) :
    ℕ → Tables → Tables → Option Tables
  | 0, _, _ => none
  | fuel + 1, tables, delta =>
    if rels.all fun rel => delta rel.name = [] then some tables
    else
      match newTuples rels tables delta (occurrences rules) fun _ => [] with
      | none => none
      | some new =>
        fixpoint rels rules idb fuel (fun name => tables name ++ nextDelta idb tables new name)
          (nextDelta idb tables new)

def maxIter : ℕ := 1000

def evalStratum (rels : List Rel) (rules : List Rule) (stratum : String → ℕ) (tables : Tables) (s : ℕ) :
    Option Tables :=
  if stratumRules rules stratum s = [] then some tables
  else
    match initialPass rels (stratumRules rules stratum s) tables with
    | none => none
    | some tables =>
      fixpoint rels (stratumRules rules stratum s) (inStratum rels stratum s) maxIter tables fun name =>
        if inStratum rels stratum s name then tables name else []

def startTables (rels : List Rel) (edb : Tables) (name : String) : Table :=
  match dlFindRel rels name with
  | none => []
  | some rel => if rel.isIdb then [] else edb name

def dlEval (prog : Program) (edb : Tables) : Option Tables :=
  match strataOf prog.rels prog.rules with
  | none => none
  | some (stratum, nStrata) =>
    (List.range nStrata).foldlM (evalStratum prog.rels prog.rules stratum) (startTables prog.rels edb)

abbrev Fact := String × Row

def facts (tables : Tables) : Set Fact := {f | f.2 ∈ tables f.1}

lemma Rule.Fires.mono {r : Rule} {pos pos' neg : String → Row → Prop} {row : Row}
    (h : r.Fires pos neg row) (hpos : ∀ a ∈ r.positives, ∀ t, pos a.pred t → pos' a.pred t) :
      r.Fires pos' neg row := by
  obtain ⟨σ, hall, hneg, hhead⟩ := h
  exact ⟨σ, fun a ha => hpos a ha _ (hall a ha), hneg, hhead⟩

lemma Rule.fires_congr_neg {r : Rule} {pos neg neg' : String → Row → Prop} {row : Row}
    (h : ∀ a ∈ r.negatives, neg a.pred = neg' a.pred) : r.Fires pos neg row ↔ r.Fires pos neg' row := by
  refine exists_congr fun σ => and_congr_right fun _ => and_congr_left fun _ => ?_
  refine forall₂_congr fun a ha => ?_
  rw [h a ha]

def consequence (rules : List Rule) (base : Set Fact) : Set Fact →o Set Fact where
  toFun X := base ∪ {f | ∃ r ∈ rules, r.head.pred = f.1 ∧
    r.Fires (fun p t => (p, t) ∈ X) (fun p t => (p, t) ∈ base) f.2}
  monotone' X Y h := by
    refine Set.union_subset_union_right base ?_
    rintro f ⟨r, hr, hhead, hfires⟩
    exact ⟨r, hr, hhead, hfires.mono fun a _ t ht => h ht⟩

def perfectModel (prog : Program) (stratum : String → ℕ) (edb : Set Fact) : ℕ → Set Fact
  | 0 => edb
  | s + 1 =>
    (consequence (stratumRules prog.rules stratum s) (perfectModel prog stratum edb s)).lfp

section

variable {prog : Program} {tables : Tables} {r : Rule} {out : Option Table} {row l t : Row}
  {left right : Table} {n : ℕ} {nulls : String → ℕ → Bool}

structure RowOk (prog : Program) (nulls : String → ℕ → Bool) (p : String) (row : Row) : Prop where
  length : ∀ rel, dlFindRel prog.rels p = some rel → row.length = rel.arity
  nulls : ∀ c : ℕ, row[c]? = some nullI64 → nulls p c = true

structure TablesOk (prog : Program) (nulls : String → ℕ → Bool) (tables : Tables) : Prop where
  rows : ∀ p, ∀ row ∈ tables p, RowOk prog nulls p row
  unknown : ∀ name, dlFindRel prog.rels name = none → tables name = []

lemma TablesOk.nullsIn (h : TablesOk prog nulls tables) : NullsIn nulls tables :=
    fun p t ht => (h.rows p t ht).nulls

lemma TablesOk.rowsOk (h : TablesOk prog nulls tables) (hr : r ∈ prog.rules) :
    RowsOk tables (r.positives ++ r.negatives) := by
  intro a ha t ht
  cases hfind : dlFindRel prog.rels a.pred with
  | none =>
    rw [h.unknown _ hfind] at ht
    exact absurd ht not_mem_nil
  | some rel =>
    rw [← prog.body_rel r hr a ha rel hfind]
    exact (h.rows a.pred t ht).length rel hfind

lemma mem_tableDistinct : row ∈ tableDistinct left ↔ row ∈ left := mem_dedup

lemma nodup_tableDistinct : (tableDistinct left).Nodup := nodup_dedup left

lemma joinKeysEq_self (hl : l.length = n) (hpresent : ∀ x ∈ l, x ≠ nullI64) (ht : t.length = n) :
    joinKeysEq ((List.range l.length).map fun c => (c, c)) l t = true ↔ l = t := by
  rw [joinKeysEq, List.all_eq_true]
  simp only [List.forall_mem_map, mem_range]
  constructor
  · intro h
    refine ext_getElem (hl.trans ht.symm) fun c hc hc' => ?_
    have heq := h c hc
    rw [getElem?_eq_getElem hc, getElem?_eq_getElem hc'] at heq
    exact (decide_eq_true_eq.mp heq).1
  · rintro rfl c hc
    rw [getElem?_eq_getElem hc]
    have hx := hpresent _ (getElem_mem hc)
    exact decide_eq_true ⟨rfl, hx, hx⟩

lemma mem_tableAntijoin (hleft : ∀ l ∈ left, l.length = n) (hpresent : ∀ l ∈ left, ∀ x ∈ l, x ≠ nullI64)
    (hright : ∀ t ∈ right, t.length = n) : l ∈ tableAntijoin left right ↔ l ∈ left ∧ l ∉ right := by
  rw [tableAntijoin, mem_filter]
  refine and_congr_right fun hl => ?_
  rw [Bool.not_eq_true', ← Bool.not_eq_true, not_iff_not, List.any_eq_true]
  constructor
  · rintro ⟨t, ht, hkeys⟩
    rwa [(joinKeysEq_self (hleft l hl) (hpresent l hl) (hright t ht)).mp hkeys]
  · intro hmem
    exact ⟨l, hmem, (joinKeysEq_self (hleft l hl) (hpresent l hl) (hright l hmem)).mpr rfl⟩

lemma Rule.Fires.rowOk {neg : String → Row → Prop} (h : r.Fires (fun p t => t ∈ tables p) neg row)
    (hr : r ∈ prog.rules)
    (hsafe : r.NullSafe nulls) (hok : TablesOk prog nulls tables) : RowOk prog nulls r.head.pred row := by
  refine ⟨fun rel hfind => ?_, fun c hc => h.null_cell hsafe hok.nullsIn hc⟩
  obtain ⟨rel', hfind', -, harity⟩ := prog.head_rel r hr
  obtain rfl : rel' = rel := Option.some.inj (hfind'.symm.trans hfind)
  rw [h.length, harity]

end

end Rayforce.Datalog
