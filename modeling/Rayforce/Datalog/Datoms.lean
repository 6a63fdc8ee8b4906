import Rayforce.Symvec.Vector

namespace Rayforce.Datalog

open Library.Words Rayforce.Join Rayforce.Symvec List Option

inductive FactValue
  | int (k : ℤ)
  | sym (id : ℕ)

structure Datoms where
  e : List ℤ
  a : SymVec
  v : List ℤ
  e_length : e.length = a.cells.length
  v_length : v.length = a.cells.length

abbrev Triple := ℤ × Option Bytes × ℤ

section

variable (S : Symbols) (stray : ℕ → ℕ) (t : Datoms) (entity : ℤ) (attr : ℕ)

def FactValue.cell : FactValue → ℤ
  | .int k => k
  | .sym id => id

def Datoms.rows (attrs : List ℕ) : List (ℤ × ℕ × ℤ) := t.e.zip (attrs.zip t.v)

def rayAssertFact (value : FactValue) : Datoms where
  e := t.e ++ [entity]
  a := t.a.append attr
  v := t.v ++ [value.cell]
  e_length := by simp [SymVec.append, t.e_length]
  v_length := by simp [SymVec.append, t.v_length]

lemma Datoms.mem_words {attrs : List ℕ} {r : ℤ × ℕ × ℤ} (h : r ∈ t.rows attrs) : r.2.1 ∈ attrs :=
  (of_mem_zip (of_mem_zip h).2).1

def rayRetractFact (value : FactValue) : Datoms :=
  let rows := (t.rows (t.a.words stray)).filter fun r => ¬ (r.1 = entity ∧ r.2.1 = attr ∧ r.2.2 = value.cell)
  { e := rows.map fun r => r.1
    a := ⟨.w64, t.a.domain, rows.map fun r => r.2.1, by
      intro c hc
      obtain ⟨r, hr, rfl⟩ := List.mem_map.mp hc
      exact t.a.words_lt stray _ (t.mem_words (List.mem_of_mem_filter hr))⟩
    v := rows.map fun r => r.2.2
    e_length := by rw [List.length_map, List.length_map]
    v_length := by rw [List.length_map, List.length_map] }

def rayScanAttr : List (ℤ × ℤ) :=
  (t.rows t.a.cells).filterMap fun r => if inDomain S t.a.domain attr = some r.2.1 then some (r.1, r.2.2) else none

def rayScanEav : Option ℤ :=
  ((t.rows t.a.cells).find? fun r => r.1 = entity ∧ inDomain S t.a.domain attr = some r.2.1).map fun r => r.2.2

def rayPull (filter : Option SymVec) : List (Option ℕ × ℤ) :=
  (t.rows t.a.cells).filterMap fun r =>
    let key := runtimeId S t.a.domain r.2.1
    if r.1 = entity ∧ ∀ f ∈ filter, ∃ id ∈ f.words stray, key = some id then some (key, r.2.2) else none

end

section

variable (S : Symbols) (stray : ℕ → ℕ)

inductive FactOp
  | assert (entity : ℤ) (attr : ℕ) (value : FactValue)
  | retract (entity : ℤ) (attr : ℕ) (value : FactValue)

def FactOp.attr : FactOp → ℕ
  | .assert _ attr _ => attr
  | .retract _ attr _ => attr

def factStep (t : Datoms) : FactOp → Datoms
  | .assert entity attr value => rayAssertFact t entity attr value
  | .retract entity attr value => rayRetractFact stray t entity attr value

def Datoms.triples (t : Datoms) : List Triple := (t.rows t.a.cells).map fun r => (r.1, t.a.str S r.2.1, r.2.2)

def FactOp.on (l : List Triple) : FactOp → List Triple
  | .assert entity attr value => l ++ [(entity, atomStr S attr, value.cell)]
  | .retract entity attr value => l.filter fun x => x ≠ (entity, atomStr S attr, value.cell)

structure Answers (t : Datoms) (l : List Triple) : Prop where
  triples : t.triples S = l
  scanAttr : ∀ attr, (atomStr S attr).isSome →
    rayScanAttr S t attr = (l.filter fun x => x.2.1 = atomStr S attr).map fun x => (x.1, x.2.2)
  scanEav : ∀ entity attr, (atomStr S attr).isSome →
    rayScanEav S t entity attr = (l.find? fun x => x.1 = entity ∧ x.2.1 = atomStr S attr).map fun x => x.2.2
  pullAll : ∀ entity, (rayPull S stray t entity none).map (fun p => (p.1.bind (atomStr S), p.2)) =
    (l.filter fun x => x.1 = entity).map fun x => (x.2.1, x.2.2)
  pull : ∀ entity (f : SymVec), f.width = .w64 → f.domain = none → (∀ id ∈ f.cells, (atomStr S id).isSome) →
    (rayPull S stray t entity (some f)).map (fun p => (p.1.bind (atomStr S), p.2)) =
      (l.filter fun x => x.1 = entity ∧ x.2.1 ∈ f.cells.map (atomStr S)).map fun x => (x.2.1, x.2.2)

def FactOp.Heard (t : Datoms) : FactOp → Prop
  | .assert _ attr _ => t.a.str S (attr % 2 ^ t.a.width.bits) = atomStr S attr
  | .retract entity attr value => t.a.cells = [] ∨ t.a.width = .w64 ∧
      ∀ r ∈ t.rows t.a.cells, r.1 = entity → r.2.2 = value.cell → (r.2.1 = attr ↔ t.a.str S r.2.1 = atomStr S attr)

def AllHeard : Datoms → List FactOp → Prop
  | _, [] => True
  | t, op :: ops => op.Heard S t ∧ AllHeard (factStep stray t op) ops

end

section

variable {S : Symbols} {stray : ℕ → ℕ} {t : Datoms} {entity : ℤ} {attr : ℕ} {value : FactValue} {op : FactOp}

lemma zip_parts (l : List (ℤ × ℕ × ℤ)) :
    (l.map fun r => r.1).zip ((l.map fun r => r.2.1).zip (l.map fun r => r.2.2)) = l := by
  induction l with
  | nil => rfl
  | cons r l ih =>
    simp only [map_cons, zip_cons_cons]
    rw [ih]

lemma rows_assert : (rayAssertFact t entity attr value).rows (rayAssertFact t entity attr value).a.cells =
    t.rows t.a.cells ++ [(entity, attr % 2 ^ t.a.width.bits, value.cell)] := by
  show (t.e ++ [entity]).zip ((t.a.cells ++ [attr % 2 ^ t.a.width.bits]).zip (t.v ++ [value.cell])) = _
  rw [zip_append t.v_length.symm, zip_append]
  · rfl
  · rw [length_zip, t.v_length, Nat.min_self, t.e_length]

lemma rows_retract : (rayRetractFact stray t entity attr value).rows
    (rayRetractFact stray t entity attr value).a.cells =
    (t.rows (t.a.words stray)).filter fun r => ¬ (r.1 = entity ∧ r.2.1 = attr ∧ r.2.2 = value.cell) :=
  zip_parts _

lemma rows_of_empty (h : t.a.cells = []) (attrs : List ℕ) : t.rows attrs = [] := by
  have hv := t.v_length
  rw [h] at hv
  rw [Datoms.rows, length_eq_zero_iff.mp hv, zip_nil_right, zip_nil_right]

lemma triples_assert (h : (FactOp.assert entity attr value).Heard S t) :
    (rayAssertFact t entity attr value).triples S = (FactOp.assert entity attr value).on S (t.triples S) := by
  rw [Datoms.triples, rows_assert, map_append, FactOp.on, ← h]
  rfl

lemma triples_retract (h : (FactOp.retract entity attr value).Heard S t) :
    (rayRetractFact stray t entity attr value).triples S = (FactOp.retract entity attr value).on S
    (t.triples S) := by
  rw [Datoms.triples, rows_retract, FactOp.on, Datoms.triples, List.filter_map]
  rcases h with h | ⟨hw, h⟩
  · rw [rows_of_empty h, rows_of_empty h]
    rfl
  · rw [t.a.words_full stray hw]
    congr 1
    refine filter_congr fun r hr => ?_
    have hiff := h r hr
    simp only [Function.comp_apply, ne_eq, Prod.mk.injEq, decide_eq_decide, not_iff_not]
    constructor
    · rintro ⟨he, ha, hv⟩
      exact ⟨he, (hiff he hv).mp ha, hv⟩
    · rintro ⟨he, ha, hv⟩
      exact ⟨he, (hiff he hv).mpr ha, hv⟩

lemma triples_factStep (h : op.Heard S t) : (factStep stray t op).triples S = op.on S (t.triples S) := by
  cases op with
  | assert entity attr value => exact triples_assert h
  | retract entity attr value => exact triples_retract h

lemma map_rayPull (filter : Option SymVec) (q : Option Bytes → Prop) [DecidablePred q]
    (hq : ∀ c, (∀ f ∈ filter, ∃ id ∈ f.words stray, runtimeId S t.a.domain c = some id) ↔ q (t.a.str S c)) :
    (rayPull S stray t entity filter).map (fun p => (p.1.bind (atomStr S), p.2)) =
      ((t.triples S).filter fun x => x.1 = entity ∧ q x.2.1).map fun x => (x.2.1, x.2.2) := by
  rw [rayPull, Datoms.triples, List.filter_map, List.map_map, map_filterMap, ← filterMap_eq_map,
    filterMap_filter]
  refine filterMap_congr fun r _ => ?_
  simp only [Function.comp_apply, hq, decide_eq_true_eq]
  split
  · rw [map_some, atomStr_runtimeId]
    rfl
  · rfl

lemma answers (t : Datoms) : Answers S stray t (t.triples S) where
  triples := rfl
  scanAttr := by
    intro attr ha
    rw [rayScanAttr, Datoms.triples, List.filter_map, List.map_map, ← filterMap_eq_map, filterMap_filter]
    refine filterMap_congr fun r _ => ?_
    have hiff : inDomain S t.a.domain attr = some r.2.1 ↔ t.a.str S r.2.1 = atomStr S attr := inDomain_eq_some ha
    simp [hiff]
  scanEav := by
    intro entity attr ha
    rw [rayScanEav, Datoms.triples, find?_map, Option.map_map]
    congr 2
    funext r
    have hiff : inDomain S t.a.domain attr = some r.2.1 ↔ t.a.str S r.2.1 = atomStr S attr := inDomain_eq_some ha
    simp [hiff]
  pullAll := by
    intro entity
    rw [map_rayPull none (fun _ => True) fun c => by simp]
    simp
  pull := by
    intro entity f hw hd hf
    refine map_rayPull (some f) (· ∈ f.cells.map (atomStr S)) fun c => ?_
    simp only [mem_some_iff, forall_eq', f.words_full stray hw, List.mem_map]
    constructor
    · rintro ⟨id, hid, he⟩
      exact ⟨id, hid, ((runtimeId_eq_some (hf id hid)).mp he).symm⟩
    · rintro ⟨id, hid, he⟩
      exact ⟨id, hid, (runtimeId_eq_some (hf id hid)).mpr he.symm⟩

end

section

variable {S : Symbols} {stray : ℕ → ℕ} {t : Datoms} {ops : List FactOp}

lemma triples_run (h : AllHeard S stray t ops) :
    (ops.foldl (factStep stray) t).triples S = ops.foldl (FactOp.on S) (t.triples S) := by
  induction ops generalizing t with
  | nil => rfl
  | cons op ops ih =>
    rw [foldl_cons, foldl_cons, ih h.2, triples_factStep h.1]

theorem datoms_as_triples (h : AllHeard S stray t ops) :
    Answers S stray (ops.foldl (factStep stray) t) (ops.foldl (FactOp.on S) (t.triples S)) := by
  rw [← triples_run h]
  exact answers _

end

def twoVocabularies : Symbols where
  runtime := [[], [97], [98]]
  file := fun _ => [[], [98], [97]]
  runtime_nodup := by decide
  file_nodup := fun _ => by decide
  file_sub := fun _ => by decide

def oneFact (domain : Option ℕ) : Datoms := ⟨[1], ⟨.w64, domain, [1], by decide⟩, [30], rfl, rfl⟩

theorem datoms_as_triples_of_four_steps :
    Answers twoVocabularies (fun _ => 0) ⟨[1, 2], ⟨.w64, none, [1, 2], by decide⟩, [30, 5], rfl, rfl⟩
      [(1, some [97], 30), (2, some [98], 5)] := by
  have hops : AllHeard twoVocabularies (fun _ => 0) (oneFact none)
      [.assert 3 2 (.sym 1), .assert 2 2 (.int 5), .retract 3 2 (.int 1), .retract 1 2 (.int 30)] :=
    ⟨rfl, rfl, .inr ⟨rfl, by decide⟩, .inr ⟨rfl, by decide⟩, trivial⟩
  exact datoms_as_triples hops

theorem retract_misses_file_fact : ¬ ∀ (S : Symbols) (stray : ℕ → ℕ) (t : Datoms) (ops : List FactOp),
    (∀ op ∈ ops, (atomStr S op.attr).isSome) →
      Answers S stray (ops.foldl (factStep stray) t) (ops.foldl (FactOp.on S) (t.triples S)) := by
  intro h
  have hall := (h twoVocabularies (fun _ => 0) (oneFact (some 0)) [.retract 1 2 (.int 30)] (by decide)).triples
  revert hall
  decide

end Rayforce.Datalog
