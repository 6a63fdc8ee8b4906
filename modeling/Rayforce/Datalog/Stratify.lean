import Mathlib
import Rayforce.Datalog.Program
import Rayforce.Library.Relaxation

namespace Rayforce.Datalog

open Library.Relaxation List Function

variable {b : BodyLit} {left : ℕ}

def dlMaxRels : ℕ := 64

inductive BodyLit
  | pos (pred : String)
  | neg (pred : String)
  | agg (aggPred : String)
  | other
  deriving DecidableEq

structure DlRule where
  headPred : String
  body : List BodyLit
  stratum : ℤ

structure DlProgram where
  rels : List String
  rules : List DlRule

structure Stored where
  strata : ℕ → List ℕ
  nStrata : ℕ
  rules : List DlRule

def dlFindRelIdx (rels : List String) (name : String) : Option ℕ := rels.findIdx? fun rel => rel = name

def setDep (dep : ℕ → ℕ → Dep) (i j : ℕ) (d : Dep) : ℕ → ℕ → Dep :=
  fun a b => if a = i ∧ b = j then d else dep a b

def addDep (rels : List String) (head : ℕ) (dep : ℕ → ℕ → Dep) (b : BodyLit) : ℕ → ℕ → Dep :=
  match b with
  | .agg p =>
    match dlFindRelIdx rels p with
    | none => dep
    | some j => setDep dep head j .neg
  | .neg p =>
    match dlFindRelIdx rels p with
    | none => dep
    | some j => setDep dep head j .neg
  | .pos p =>
    match dlFindRelIdx rels p with
    | none => dep
    | some j => if dep head j = .none then setDep dep head j .pos else dep
  | .other => dep

def addRule (rels : List String) (dep : ℕ → ℕ → Dep) (r : DlRule) : ℕ → ℕ → Dep :=
  match dlFindRelIdx rels r.headPred with
  | none => dep
  | some head => r.body.foldl (addDep rels head) dep

def DlProgram.deps (p : DlProgram) : ℕ → ℕ → Dep := p.rules.foldl (addRule p.rels) fun _ _ => .none

def raiseAt (dep : ℕ → ℕ → Dep) (st : (ℕ → ℕ) × Bool) (ij : ℕ × ℕ) : (ℕ → ℕ) × Bool :=
  match dep ij.1 ij.2 with
  | .neg => if st.1 ij.1 ≤ st.1 ij.2 then (Function.update st.1 ij.1 (st.1 ij.2 + 1), true) else st
  | .pos => if st.1 ij.1 < st.1 ij.2 then (Function.update st.1 ij.1 (st.1 ij.2), true) else st
  | .none => st

def indexPairs (n : ℕ) : List (ℕ × ℕ) := (List.range n).flatMap fun i => (List.range n).map fun j => (i, j)

def rounds (dep : ℕ → ℕ → Dep) (n : ℕ) : ℕ → (ℕ → ℕ) → Option (ℕ → ℕ)
  | 0, _ => none
  | left + 1, stratum =>
    let st := (indexPairs n).foldl (raiseAt dep) (stratum, false)
    if st.2 then rounds dep n left st.1 else some st.1

def storeRel (stratum : ℕ → ℕ) (strata : ℕ → List ℕ) (i : ℕ) : ℕ → List ℕ :=
  if stratum i < dlMaxStrata ∧ (strata (stratum i)).length < dlMaxRels then
    Function.update strata (stratum i) (strata (stratum i) ++ [i])
  else strata

def storeRule (rels : List String) (stratum : ℕ → ℕ) (r : DlRule) : DlRule :=
  match dlFindRelIdx rels r.headPred with
  | some head => { r with stratum := stratum head }
  | none => r

def DlProgram.levels (p : DlProgram) : Option ((ℕ → ℕ) × ℕ) :=
  let n := p.rels.length
  match rounds p.deps n (n + 1) fun _ => 0 with
  | none => none
  | some stratum =>
    let nStrata := (List.range n).foldl (fun m i => max m (stratum i)) 0 + 1
    if dlMaxStrata < nStrata then none else some (stratum, nStrata)

def DlProgram.dlStratify (p : DlProgram) : Option Stored :=
  p.levels.map fun (stratum, nStrata) =>
    ⟨(List.range p.rels.length).foldl (storeRel stratum) fun _ =>
      [], nStrata, p.rules.map (storeRule p.rels stratum)⟩

def Literal.lit : Literal → BodyLit
  | .pos a => .pos a.pred
  | .neg a => .neg a.pred

def Rule.dl (r : Rule) : DlRule := ⟨r.head.pred, r.body.map Literal.lit, -1⟩

def dlProgram (rels : List Rel) (rules : List Rule) : DlProgram := ⟨rels.map Rel.name, rules.map Rule.dl⟩

/-- The strata under the relations' names. -/
def strataOf (rels : List Rel) (rules : List Rule) : Option ((String → ℕ) × ℕ) :=
  (dlProgram rels rules).levels.map fun (stratum, nStrata) =>
    (fun name => (dlFindRelIdx (rels.map Rel.name) name).elim 0 stratum, nStrata)

section

def BodyLit.Negates (rels : List String) (j : ℕ) : BodyLit → Prop
  | .neg p => dlFindRelIdx rels p = some j
  | .agg p => dlFindRelIdx rels p = some j
  | _ => False

def BodyLit.Uses (rels : List String) (j : ℕ) : BodyLit → Prop
  | .pos p => dlFindRelIdx rels p = some j
  | .neg p => dlFindRelIdx rels p = some j
  | .agg p => dlFindRelIdx rels p = some j
  | .other => False

variable (p : DlProgram)

def DlProgram.DependsOn (h j : ℕ) : Prop :=
  ∃ r ∈ p.rules, dlFindRelIdx p.rels r.headPred = some h ∧ ∃ b ∈ r.body, b.Uses p.rels j

def DlProgram.Negates (h j : ℕ) : Prop :=
  ∃ r ∈ p.rules, dlFindRelIdx p.rels r.headPred = some h ∧ ∃ b ∈ r.body, b.Negates p.rels j

def DlProgram.Stratifiable : Prop := ∀ h j, p.Negates h j → ¬ Relation.ReflTransGen p.DependsOn j h

structure DlProgram.Respected (stratum : ℕ → ℕ) : Prop where
  uses : ∀ h j, p.DependsOn h j → stratum j ≤ stratum h
  negates : ∀ h j, p.Negates h j → stratum j < stratum h

end

section

variable {rels : List String} {dep : ℕ → ℕ → Dep} {head i j : ℕ}

lemma setDep_eq {d : Dep} {a b : ℕ} : setDep dep i j d a b = if a = i ∧ b = j then d else dep a b := rfl

lemma addDep_neg : addDep rels head dep b i j = .neg ↔ dep i j = .neg ∨ (head = i ∧ b.Negates rels j) := by
  have hset : ∀ p, (match dlFindRelIdx rels p with | none => dep | some k => setDep dep head k .neg) i j = .neg ↔
      dep i j = .neg ∨ (head = i ∧ dlFindRelIdx rels p = some j) := by
    intro p
    cases hp : dlFindRelIdx rels p with
    | none => simp
    | some k =>
      simp only [setDep_eq, Option.some.injEq]
      by_cases h : i = head ∧ j = k
      · simp [h]
      · rw [if_neg h]
        exact ⟨.inl, fun ho => ho.resolve_right fun hr => h ⟨hr.1.symm, hr.2.symm⟩⟩
  cases b with
  | agg p => exact hset p
  | neg p => exact hset p
  | other => simp [addDep, BodyLit.Negates]
  | pos p =>
    simp only [addDep, BodyLit.Negates, and_false, or_false]
    cases dlFindRelIdx rels p with
    | none => rfl
    | some k =>
      simp only
      split
      · rename_i hnone
        rw [setDep_eq]
        split
        · rename_i hij
          rw [hij.1, hij.2, hnone]
          simp
        · rfl
      · rfl

lemma addDep_none : addDep rels head dep b i j ≠ .none ↔ dep i j ≠ .none ∨ (head = i ∧ b.Uses rels j) := by
  have hset : ∀ k d, d ≠ Dep.none → (setDep dep head k d i j ≠ .none ↔ dep i j ≠ .none ∨ (head = i ∧ k = j)) := by
    intro k d hd
    rw [setDep_eq]
    by_cases h : i = head ∧ j = k
    · simp [h, hd]
    · rw [if_neg h]
      exact ⟨.inl, fun ho => ho.resolve_right fun hr => h ⟨hr.1.symm, hr.2.symm⟩⟩
  cases b with
  | other => simp [addDep, BodyLit.Uses]
  | agg p =>
    simp only [addDep, BodyLit.Uses]
    cases dlFindRelIdx rels p with
    | none => simp
    | some k => simpa using hset k .neg (by decide)
  | neg p =>
    simp only [addDep, BodyLit.Uses]
    cases dlFindRelIdx rels p with
    | none => simp
    | some k => simpa using hset k .neg (by decide)
  | pos p =>
    simp only [addDep, BodyLit.Uses]
    cases dlFindRelIdx rels p with
    | none => simp
    | some k =>
      simp only [Option.some.injEq]
      split
      · exact hset k .pos (by decide)
      · rename_i hne
        refine ⟨.inl, fun ho => ho.elim id ?_⟩
        rintro ⟨rfl, rfl⟩
        exact hne

lemma foldl_addDep {bs : List BodyLit} : (bs.foldl (addDep rels head) dep i j = .neg ↔
      dep i j = .neg ∨ (head = i ∧ ∃ b ∈ bs, b.Negates rels j)) ∧
    (bs.foldl (addDep rels head) dep i j ≠ .none ↔ dep i j ≠ .none ∨ (head = i ∧ ∃ b ∈ bs, b.Uses rels j)) := by
  induction bs generalizing dep with
  | nil => simp
  | cons b bs ih =>
    rw [foldl_cons, ih.1, ih.2, addDep_neg, addDep_none]
    simp only [exists_mem_cons_iff, or_assoc, and_or_left, true_and]

lemma foldl_addRule {rs : List DlRule} : (rs.foldl (addRule rels) dep i j = .neg ↔ dep i j = .neg ∨
      ∃ r ∈ rs, dlFindRelIdx rels r.headPred = some i ∧ ∃ b ∈ r.body, b.Negates rels j) ∧
    (rs.foldl (addRule rels) dep i j ≠ .none ↔ dep i j ≠ .none ∨
      ∃ r ∈ rs, dlFindRelIdx rels r.headPred = some i ∧ ∃ b ∈ r.body, b.Uses rels j) := by
  induction rs generalizing dep with
  | nil => simp
  | cons r rs ih =>
    rw [foldl_cons, ih.1, ih.2, addRule]
    cases hr : dlFindRelIdx rels r.headPred with
    | none => simp [hr]
    | some h =>
      simp only [foldl_addDep.1, foldl_addDep.2, exists_mem_cons_iff, hr, Option.some.injEq, or_assoc, and_self]

variable {p : DlProgram} {n : ℕ}

lemma deps_neg : p.deps i j = .neg ↔ p.Negates i j := by
  rw [DlProgram.deps, foldl_addRule.1]
  simp [DlProgram.Negates]

lemma deps_ne_none : p.deps i j ≠ .none ↔ p.DependsOn i j := by
  rw [DlProgram.deps, foldl_addRule.2]
  simp [DlProgram.DependsOn]

lemma dlFindRelIdx_lt {name : String} (h : dlFindRelIdx rels name = some i) : i < rels.length :=
  (findIdx?_eq_some_iff_getElem.mp h).1

lemma DlProgram.DependsOn.lt (h : p.DependsOn i j) : i < p.rels.length ∧ j < p.rels.length := by
  obtain ⟨r, -, hr, b, -, hb⟩ := h
  refine ⟨dlFindRelIdx_lt hr, ?_⟩
  cases b with
  | pos name => exact dlFindRelIdx_lt hb
  | neg name => exact dlFindRelIdx_lt hb
  | agg name => exact dlFindRelIdx_lt hb
  | other => exact hb.elim

lemma DlProgram.Negates.dependsOn (h : p.Negates i j) : p.DependsOn i j :=
  deps_ne_none.mp (by rw [deps_neg.mpr h]; decide)

lemma mem_indexPairs : (i, j) ∈ indexPairs n ↔ i < n ∧ j < n := by simp [indexPairs]

def Dep.weight : Dep → Option ℕ
  | .none => Option.none
  | .pos => some 0
  | .neg => some 1

lemma raiseAt_eq_relax : raiseAt dep = relax fun i j => (dep i j).weight := by
  funext st ij
  rw [raiseAt, relax]
  cases dep ij.1 ij.2 with
  | none => rfl
  | pos => rfl
  | neg => simp only [Dep.weight, Nat.lt_succ_iff]

lemma rounds_eq_settle (left : ℕ) (stratum : ℕ → ℕ) :
    rounds dep n left stratum = Library.Relaxation.settle (fun i j => (dep i j).weight)
    (indexPairs n) left stratum := by
  induction left generalizing stratum with
  | zero => rfl
  | succ left ih =>
    rw [rounds, Library.Relaxation.settle, Library.Relaxation.pass, raiseAt_eq_relax]
    split
    · exact ih _
    · rfl

def DlProgram.weight (p : DlProgram) (i j : ℕ) : Option ℕ := (p.deps i j).weight

lemma weight_one {d : ℕ} (h : p.weight i j = some (d + 1)) : p.Negates i j := by
  rw [DlProgram.weight] at h
  rw [← deps_neg]
  cases hd : p.deps i j with
  | none =>
    rw [hd] at h
    cases h
  | pos =>
    rw [hd] at h
    cases h
  | neg => rfl

lemma edge_iff : Edge p.weight (indexPairs p.rels.length) i j ↔ p.DependsOn i j := by
  have hsome : (p.weight i j).isSome ↔ p.deps i j ≠ .none := by
    rw [DlProgram.weight]
    cases p.deps i j <;> simp [Dep.weight]
  rw [Edge, hsome, deps_ne_none, mem_indexPairs]
  exact ⟨And.right, fun h => ⟨h.lt, h⟩⟩

lemma edge_eq : Edge p.weight (indexPairs p.rels.length) = p.DependsOn := by
  funext i j
  exact propext edge_iff

lemma stratifiable_weightless : p.Stratifiable → Weightless p.weight (indexPairs p.rels.length) := by
  intro h a b d _ hd
  rw [edge_eq]
  exact h a b (weight_one hd)

lemma stratifiable_of_weightless : Weightless p.weight (indexPairs p.rels.length) → p.Stratifiable := by
  intro h a b hn
  rw [← edge_eq]
  refine h a b 0 (mem_indexPairs.mpr hn.dependsOn.lt) ?_
  rw [DlProgram.weight, deps_neg.mpr hn]
  rfl

lemma feasible_iff {stratum : ℕ → ℕ} : Feasible p.weight (indexPairs p.rels.length) stratum ↔
    p.Respected stratum := by
  constructor
  · intro hf
    refine ⟨fun h j hd => ?_, fun h j hn => ?_⟩
    · obtain ⟨d, hw⟩ := Option.isSome_iff_exists.mp (edge_iff.mpr hd).2
      exact (Nat.le_add_right _ d).trans (hf (h, j) (mem_indexPairs.mpr hd.lt) d hw)
    · have hw : p.weight h j = some 1 := by rw [DlProgram.weight, deps_neg.mpr hn]; rfl
      exact hf (h, j) (mem_indexPairs.mpr hn.dependsOn.lt) 1 hw
  · rintro ⟨hu, hn⟩ ⟨i, j⟩ _ d hd
    rw [DlProgram.weight] at hd
    cases hdep : p.deps i j with
    | none =>
      rw [hdep] at hd
      cases hd
    | pos =>
      rw [hdep] at hd
      obtain rfl := Option.some.inj hd
      exact hu i j (deps_ne_none.mp (by rw [hdep]; decide))
    | neg =>
      rw [hdep] at hd
      obtain rfl := Option.some.inj hd
      exact hn i j (deps_neg.mp hdep)

lemma stratifiable_of_respected {stratum : ℕ → ℕ} (h : p.Respected stratum) : p.Stratifiable :=
  stratifiable_of_weightless (feasible_iff.mpr h).weightless

lemma rounds_least {stratum : ℕ → ℕ} (h : rounds p.deps p.rels.length left (fun _ => 0) = some stratum) :
    p.Respected stratum ∧ ∀ other, p.Respected other → ∀ i, stratum i ≤ other i := by
  rw [rounds_eq_settle] at h
  exact ⟨feasible_iff.mp (settle_feasible h), fun other ho i =>
    settle_least (feasible_iff.mpr ho) (fun _ => Nat.zero_le _) h i⟩

lemma rounds_isSome (h : p.Stratifiable) : ∃ stratum,
    rounds p.deps p.rels.length (p.rels.length + 1) (fun _ => 0) = some stratum := by
  have hsome := settle_isSome (w := p.weight) (U := range p.rels.length)
    (fun e he => mem_range.mpr (mem_indexPairs.mp he).1) fun _ _ _ => (stratifiable_weightless h).cycle
  rw [length_range] at hsome
  rw [rounds_eq_settle]
  exact Option.isSome_iff_exists.mp hsome

end

section

variable {stratum : ℕ → ℕ} {n : ℕ}

lemma foldl_max_lt (xs : List ℕ) (m : ℕ) :
    m ≤ xs.foldl (fun m i => max m (stratum i)) m ∧ ∀ i ∈ xs,
      stratum i ≤ xs.foldl (fun m i => max m (stratum i)) m := by
  induction xs generalizing m with
  | nil => simp
  | cons x xs ih =>
    obtain ⟨hm, hall⟩ := ih (max m (stratum x))
    exact ⟨(le_max_left _ _).trans hm, forall_mem_cons.mpr ⟨(le_max_right _ _).trans hm, hall⟩⟩

lemma foldl_max_le_of {xs : List ℕ} {m k : ℕ} (hm : m ≤ k) (h : ∀ i ∈ xs, stratum i ≤ k) :
    xs.foldl (fun m i => max m (stratum i)) m ≤ k := by
  induction xs generalizing m with
  | nil => exact hm
  | cons x xs ih =>
    exact ih (max_le hm (h x (by simp))) fun i hi => h i (mem_cons_of_mem _ hi)

lemma nStrata_le (h : ∀ i < n, stratum i < dlMaxStrata) :
    ¬ dlMaxStrata < (List.range n).foldl (fun m i => max m (stratum i)) 0 + 1 := by
  have hle := foldl_max_le_of (Nat.zero_le (dlMaxStrata - 1)) fun i hi => Nat.le_pred_of_lt (h i (mem_range.mp hi))
  rw [dlMaxStrata] at hle ⊢
  omega

lemma foldl_storeRel (hs : ∀ i < n, stratum i < dlMaxStrata) (hn : n ≤ dlMaxRels) (s : ℕ) :
    (List.range n).foldl (storeRel stratum) (fun _ => []) s = (List.range n).filter fun i => stratum i = s := by
  induction n generalizing s with
  | zero => rfl
  | succ n ih =>
    have hprev := ih (fun i hi => hs i (by omega)) (by omega)
    rw [range_succ, foldl_append, foldl_cons, foldl_nil, filter_append, storeRel, if_pos]
    · by_cases hst : s = stratum n
      · rw [hst, update_self, hprev]
        simp
      · rw [update_of_ne hst, hprev, filter_singleton]
        simp [Ne.symm hst]
    · refine ⟨hs n (by omega), ?_⟩
      rw [hprev]
      have := length_filter_le (fun i => decide (stratum i = stratum n)) (range n)
      rw [length_range] at this
      omega

lemma count_filter_range (s : ℕ) {i : ℕ} (hi : i < n) :
    ((List.range n).filter fun i => stratum i = s).count i = if s = stratum i then 1 else 0 := by
  split
  · rename_i hs
    rw [count_filter (by simp [hs]), count_eq_one_of_mem nodup_range (mem_range.mpr hi)]
  · rename_i hs
    apply count_eq_zero_of_not_mem
    intro hm
    have he : stratum i = s := by simpa using (mem_filter.mp hm).2
    exact hs he.symm

end

section

variable {p : DlProgram} {stratum : ℕ → ℕ} {n : ℕ}

lemma levels_eq (h : p.levels = some (stratum, n)) :
    rounds p.deps p.rels.length (p.rels.length + 1) (fun _ => 0) = some stratum ∧ ∀ i < p.rels.length,
      stratum i < n := by
  rw [DlProgram.levels] at h
  cases hst : rounds p.deps p.rels.length (p.rels.length + 1) fun _ => 0 with
  | none =>
    rw [hst] at h
    cases h
  | some settled =>
    rw [hst] at h
    dsimp only at h
    split_ifs at h
    obtain ⟨rfl, rfl⟩ := Prod.mk.inj (Option.some.inj h)
    exact ⟨rfl, fun i hi => Nat.lt_succ_of_le ((foldl_max_lt _ 0).2 i (mem_range.mpr hi))⟩

lemma dlFindRelIdx_of_mem {rels : List Rel} {rel : Rel} (h : rel ∈ rels) :
    ∃ i, dlFindRelIdx (rels.map Rel.name) rel.name = some i := by
  refine Option.isSome_iff_exists.mp ?_
  rw [dlFindRelIdx, findIdx?_isSome, List.any_eq_true]
  exact ⟨rel.name, mem_map_of_mem h, decide_eq_true rfl⟩

lemma dlFindRelIdx_of_find {rels : List Rel} {name : String} {rel : Rel} (h : dlFindRel rels name = some rel) :
    ∃ i, dlFindRelIdx (rels.map Rel.name) name = some i := by
  obtain ⟨hmem, rfl⟩ := dlFindRel_spec h
  exact dlFindRelIdx_of_mem hmem

lemma strataOf_spec {rels : List Rel} {rules : List Rule} {stratum : String → ℕ}
    (h : strataOf rels rules = some (stratum, n)) :
    Stratified rels rules stratum ∧ ∀ rel ∈ rels, stratum rel.name < n := by
  obtain ⟨⟨level, m⟩, hlevels, heq⟩ := Option.map_eq_some_iff.mp h
  obtain ⟨rfl, rfl⟩ := Prod.mk.inj heq
  obtain ⟨hrounds, hlt⟩ := levels_eq hlevels
  obtain ⟨huses, hnegates⟩ := (rounds_least hrounds).1
  have hlevel : ∀ {name i}, dlFindRelIdx (rels.map Rel.name) name = some i →
      (dlFindRelIdx (rels.map Rel.name) name).elim 0 level = level i := by
    intro name i hi
    rw [hi]
    rfl
  have hbody : ∀ r ∈ rules, ∀ b ∈ r.body, ∀ i, dlFindRelIdx (rels.map Rel.name) r.head.pred = some i →
      ∃ s ∈ (dlProgram rels rules).rules, dlFindRelIdx (rels.map Rel.name) s.headPred = some i ∧ b.lit ∈ s.body :=
    fun r hr b hb i hi => ⟨r.dl, mem_map_of_mem hr, hi, mem_map_of_mem hb⟩
  refine ⟨⟨fun r hr a ha rel head hrel hhead => ?_, fun r hr a ha rel head hrel hhead => ?_⟩, fun rel hrel => ?_⟩
  · obtain ⟨i, hi⟩ := dlFindRelIdx_of_find hhead
    obtain ⟨j, hj⟩ := dlFindRelIdx_of_find hrel
    obtain ⟨b, hb, hpos⟩ := mem_filterMap.mp ha
    obtain ⟨s, hs, hsi, hlit⟩ := hbody r hr b hb i hi
    rw [hlevel hi, hlevel hj]
    refine huses i j ⟨s, hs, hsi, b.lit, hlit, ?_⟩
    cases b with
    | pos a' =>
      obtain rfl := Option.some.inj hpos
      exact hj
    | neg a' => cases hpos
  · obtain ⟨i, hi⟩ := dlFindRelIdx_of_find hhead
    obtain ⟨j, hj⟩ := dlFindRelIdx_of_find hrel
    obtain ⟨b, hb, hneg⟩ := mem_filterMap.mp ha
    obtain ⟨s, hs, hsi, hlit⟩ := hbody r hr b hb i hi
    rw [hlevel hi, hlevel hj]
    refine hnegates i j ⟨s, hs, hsi, b.lit, hlit, ?_⟩
    cases b with
    | neg a' =>
      obtain rfl := Option.some.inj hneg
      exact hj
    | pos a' => cases hneg
  · obtain ⟨i, hi⟩ := dlFindRelIdx_of_mem hrel
    exact (hlevel hi).trans_lt (hlt i (dlFindRelIdx_lt hi))

end

structure DlProgram.WithinLimits (p : DlProgram) : Prop where
  rels : p.rels.length ≤ dlMaxRels
  strata : p.Stratifiable → ∃ stratum, p.Respected stratum ∧ ∀ i < p.rels.length, stratum i < dlMaxStrata

lemma DlProgram.WithinLimits.fits {p : DlProgram} (h : p.WithinLimits) {stratum : ℕ → ℕ}
    (hst : rounds p.deps p.rels.length left (fun _ => 0) = some stratum) :
      ∀ i < p.rels.length, stratum i < dlMaxStrata := by
  obtain ⟨hr, hleast⟩ := rounds_least hst
  obtain ⟨other, ho, hlt⟩ := h.strata (stratifiable_of_respected hr)
  exact fun i hi => (hleast other ho i).trans_lt (hlt i hi)

structure DlRule.Stamped (rels : List String) (stratum : ℕ → ℕ) (r s : DlRule) : Prop where
  head : s.headPred = r.headPred
  body : s.body = r.body
  known : ∀ i, dlFindRelIdx rels r.headPred = some i → s.stratum = stratum i
  unknown : dlFindRelIdx rels r.headPred = none → s.stratum = r.stratum

lemma storeRule_stamped (rels : List String) (stratum : ℕ → ℕ) (r : DlRule) :
    r.Stamped rels stratum (storeRule rels stratum r) := by
  cases hr : dlFindRelIdx rels r.headPred with
  | none => exact ⟨by simp [storeRule, hr], by simp [storeRule, hr], by simp [hr], by simp [storeRule, hr]⟩
  | some i => exact ⟨by simp [storeRule, hr], by simp [storeRule, hr], by simp [storeRule, hr], by simp [hr]⟩

structure Stored.Assigns (q : Stored) (p : DlProgram) (stratum : ℕ → ℕ) : Prop where
  lt : ∀ i < p.rels.length, stratum i < q.nStrata
  once : ∀ i < p.rels.length, ∀ s, (q.strata s).count i = if s = stratum i then 1 else 0
  rules : Forall₂ (DlRule.Stamped p.rels stratum) p.rules q.rules

theorem dlStratify_least (p : DlProgram) (hlim : p.WithinLimits) :
    (p.dlStratify.isSome ↔ p.Stratifiable) ∧ ∀ q, p.dlStratify = some q →
      ∃ stratum, q.Assigns p stratum ∧ p.Respected stratum ∧
        ∀ other, p.Respected other → ∀ i, stratum i ≤ other i := by
  constructor
  · rw [DlProgram.dlStratify, Option.isSome_map]
    constructor
    · intro h
      obtain ⟨⟨stratum, n⟩, hlevels⟩ := Option.isSome_iff_exists.mp h
      exact stratifiable_of_respected (rounds_least (levels_eq hlevels).1).1
    · intro h
      obtain ⟨stratum, hst⟩ := rounds_isSome h
      simp only [DlProgram.levels, hst, if_neg (nStrata_le (hlim.fits hst))]
      rfl
  · intro q hq
    obtain ⟨⟨stratum, n⟩, hlevels, rfl⟩ := Option.map_eq_some_iff.mp hq
    obtain ⟨hst, hbelow⟩ := levels_eq hlevels
    have hlt := hlim.fits hst
    refine ⟨stratum, ⟨hbelow, fun i hi s => ?_, ?_⟩, rounds_least hst⟩
    · show ((range p.rels.length).foldl (storeRel stratum) (fun _ => []) s).count i = _
      rw [foldl_storeRel hlt hlim.rels]
      exact count_filter_range s hi
    · exact forall₂_map_right_iff.mpr (forall₂_same.mpr fun r _ => storeRule_stamped p.rels stratum r)

def reachProgram : DlProgram where
  rels := ["edge", "path", "far", "count"]
  rules :=
    [⟨"path", [.pos "edge"], -1⟩, ⟨"path", [.pos "edge", .pos "path"], -1⟩,
      ⟨"far", [.pos "edge", .neg "path"], -1⟩, ⟨"count", [.other, .agg "far"], -1⟩]

lemma reachProgram_withinLimits : reachProgram.WithinLimits := by
  refine ⟨by decide, fun _ => ⟨fun i => i - 1, ⟨?_, ?_⟩, ?_⟩⟩
  · rintro h j ⟨r, hr, hh, b, hb, hu⟩
    simp only [reachProgram, mem_cons, not_mem_nil, or_false] at hr
    obtain rfl | rfl | rfl | rfl := hr <;> obtain rfl := Option.some.inj hh <;>
      simp only [mem_cons, not_mem_nil, or_false] at hb <;>
      obtain rfl | rfl := hb <;> first | obtain rfl := Option.some.inj hu | cases hu
    all_goals decide
  · rintro h j ⟨r, hr, hh, b, hb, hu⟩
    simp only [reachProgram, mem_cons, not_mem_nil, or_false] at hr
    obtain rfl | rfl | rfl | rfl := hr <;> obtain rfl := Option.some.inj hh <;>
      simp only [mem_cons, not_mem_nil, or_false] at hb <;>
      obtain rfl | rfl := hb <;> first | obtain rfl := Option.some.inj hu | cases hu
    all_goals decide
  · intro i hi
    have : i < 4 := hi
    show i - 1 < 16
    omega

theorem dlStratify_least_of_reachProgram : ∃ q stratum, reachProgram.dlStratify = some q ∧
    q.Assigns reachProgram stratum ∧ reachProgram.Respected stratum ∧ q.nStrata = 3 ∧ q.strata 1 = [2] := by
  obtain ⟨stratum, hq⟩ := (dlStratify_least reachProgram reachProgram_withinLimits).2 _ rfl
  exact ⟨_, stratum, rfl, hq.1, hq.2.1, by decide, by decide⟩

end Rayforce.Datalog
