import Rayforce.Leapfrog.Solutions

namespace Rayforce.Leapfrog

open List Option

variable {dom : List ℤ} {b : Binding}

section

variable {nVars v : ℕ} {e : Edge} {plans plans' : List VarPlan} {pattern : List Edge} {plan : VarPlan}

def Edge.bindingFor (e : Edge) (v : ℕ) : Option Binding :=
  if e.src = e.dst then none
  else if e.src < e.dst then if e.dst = v then some ⟨e.rel.fwd, e.src⟩ else none
  else if e.src = v then some ⟨e.rel.rev, e.dst⟩ else none

lemma addBinding_spec {w : ℕ} (h : addBinding plans w b = some plans') :
    plans'.length = plans.length ∧ ∀ v plan, plans[v]? = some plan →
      plans'[v]? = some (plan ++ if w = v then [b] else []) := by
  rw [addBinding] at h
  cases hw : plans[w]? with
  | none =>
    rw [hw] at h
    cases h
  | some old =>
    rw [hw] at h
    simp only at h
    by_cases hfull : lftjMaxItersPerVar ≤ old.length
    · rw [if_pos hfull] at h
      cases h
    · rw [if_neg hfull] at h
      obtain rfl : plans.set w (old ++ [b]) = plans' := some.inj h
      refine ⟨length_set, fun v plan hv => ?_⟩
      by_cases hwv : w = v
      · subst hwv
        obtain rfl : old = plan := some.inj (hw.symm.trans hv)
        rw [if_pos rfl, getElem?_set_self (List.getElem?_eq_some_iff.mp hw).1]
      · rw [if_neg hwv, append_nil, getElem?_set_ne hwv, hv]

lemma addEdge_spec (h : addEdge nVars plans e = some plans') :
    plans'.length = plans.length ∧ (e.src ≠ e.dst → e.src < nVars ∧ e.dst < nVars) ∧
      ∀ v plan, plans[v]? = some plan → plans'[v]? = some (plan ++ (e.bindingFor v).toList) := by
  rw [addEdge] at h
  by_cases hloop : e.src = e.dst
  · rw [if_pos hloop] at h
    obtain rfl : plans = plans' := some.inj h
    refine ⟨rfl, fun hne => absurd hloop hne, fun v plan hv => ?_⟩
    rw [Edge.bindingFor, if_pos hloop, toList_none, append_nil, hv]
  rw [if_neg hloop] at h
  by_cases hbad : nVars ≤ e.src ∨ nVars ≤ e.dst
  · rw [if_pos hbad] at h
    cases h
  rw [if_neg hbad] at h
  by_cases hlt : e.src < e.dst
  · rw [if_pos hlt] at h
    obtain ⟨hlen, hall⟩ := addBinding_spec h
    refine ⟨hlen, fun _ => by omega, fun v plan hv => ?_⟩
    rw [hall v plan hv, Edge.bindingFor, if_neg hloop, if_pos hlt]
    by_cases hv : e.dst = v
    · rw [if_pos hv, if_pos hv, toList_some]
    · rw [if_neg hv, if_neg hv, toList_none]
  · rw [if_neg hlt] at h
    obtain ⟨hlen, hall⟩ := addBinding_spec h
    refine ⟨hlen, fun _ => by omega, fun v plan hv => ?_⟩
    rw [hall v plan hv, Edge.bindingFor, if_neg hloop, if_neg hlt]
    by_cases hv : e.src = v
    · rw [if_pos hv, if_pos hv, toList_some]
    · rw [if_neg hv, if_neg hv, toList_none]

lemma addEdges_spec (h : pattern.foldlM (addEdge nVars) plans = some plans') :
    plans'.length = plans.length ∧ (∀ e ∈ pattern, e.src ≠ e.dst → e.src < nVars ∧ e.dst < nVars) ∧
      ∀ v plan, plans[v]? = some plan → plans'[v]? = some (plan ++ pattern.filterMap fun e => e.bindingFor v) := by
  induction pattern generalizing plans with
  | nil =>
    obtain rfl : plans = plans' := some.inj h
    exact ⟨rfl, fun e he => absurd he not_mem_nil, fun v plan hv => by
      rw [filterMap_nil, append_nil, hv]⟩
  | cons e pattern ih =>
    rw [foldlM_cons, bind_eq_bind, bind_eq_some_iff] at h
    obtain ⟨mid, hmid, h⟩ := h
    obtain ⟨hlen, hrange, hadd⟩ := addEdge_spec hmid
    obtain ⟨hlen', hrange', hadd'⟩ := ih h
    refine ⟨hlen'.trans hlen, forall_mem_cons.mpr ⟨hrange, hrange'⟩, fun v plan hv => ?_⟩
    rw [hadd' v _ (hadd v plan hv), append_assoc, filterMap_cons]
    cases e.bindingFor v with
    | none => rfl
    | some b => rfl

lemma lftjBuildPlan_spec (h : lftjBuildPlan nVars pattern = some plans) :
    plans.length = nVars ∧ (∀ e ∈ pattern, e.src ≠ e.dst → e.src < nVars ∧ e.dst < nVars) ∧
      ∀ v < nVars, plans[v]? = some (pattern.filterMap fun e => e.bindingFor v) := by
  rw [lftjBuildPlan] at h
  by_cases hmax : lftjMaxVars < nVars
  · rw [if_pos hmax] at h
    cases h
  · rw [if_neg hmax] at h
    obtain ⟨hlen, hrange, hadd⟩ := addEdges_spec h
    refine ⟨hlen.trans length_replicate, hrange, fun v hv => ?_⟩
    exact hadd v [] (getElem?_replicate_of_lt hv)

end

section

variable {nVars k : ℕ} {plans : List VarPlan} {pattern : List Edge} {row : List ℤ} {e : Edge}

def Edge.Holds (e : Edge) (row : List ℤ) : Prop :=
  e.rel.edge (row.getD e.src 0) (row.getD e.dst 0) ∧
    if e.src < e.dst then 0 ≤ row.getD e.src 0 ∧ row.getD e.src 0 < e.rel.fwd.nNodes
    else 0 ≤ row.getD e.dst 0 ∧ row.getD e.dst 0 < e.rel.rev.nNodes

def Chained (nVars : ℕ) (pattern : List Edge) : Prop :=
  ∀ v < nVars, v ≠ 0 → ∃ e ∈ pattern, e.src ≠ e.dst ∧ max e.src e.dst = v

structure Matches (nVars : ℕ) (pattern : List Edge) (plans : List VarPlan) (row : List ℤ) : Prop where
  length : row.length = nVars
  first : ∀ x ∈ row.head?, 0 ≤ x ∧ x < nodeCount plans
  edges : ∀ e ∈ pattern, e.src ≠ e.dst → e.Holds row

lemma getD_take {i : ℕ} (h : i < k) : (row.take k).getD i 0 = row.getD i 0 := by
  rw [getD_eq_getElem?_getD, getD_eq_getElem?_getD, getElem?_take_of_lt h]

lemma holds_iff (hb : e.bindingFor k = some b) :
    ((0 ≤ (row.take k).getD b.boundVar 0 ∧ (row.take k).getD b.boundVar 0 < b.csr.nNodes) ∧
      row.getD k 0 ∈ b.csr.adj ((row.take k).getD b.boundVar 0).toNat) ↔ e.Holds row := by
  rw [Edge.bindingFor] at hb
  by_cases hloop : e.src = e.dst
  · rw [if_pos hloop] at hb
    cases hb
  rw [if_neg hloop] at hb
  by_cases hlt : e.src < e.dst
  · rw [if_pos hlt] at hb
    by_cases hk : e.dst = k
    · subst hk
      rw [if_pos rfl] at hb
      obtain rfl := some.inj hb
      dsimp only
      rw [Edge.Holds, if_pos hlt, getD_take hlt, and_comm]
      refine and_congr_left fun hrange => ?_
      rw [e.rel.fwd_adj _ _ (by omega), Int.toNat_of_nonneg hrange.1]
    · rw [if_neg hk] at hb
      cases hb
  · rw [if_neg hlt] at hb
    by_cases hk : e.src = k
    · subst hk
      rw [if_pos rfl] at hb
      obtain rfl := some.inj hb
      dsimp only
      rw [Edge.Holds, if_neg hlt, getD_take (by omega), and_comm]
      refine and_congr_left fun hrange => ?_
      rw [e.rel.rev_adj _ _ (by omega), Int.toNat_of_nonneg hrange.1]
    · rw [if_neg hk] at hb
      cases hb

lemma bindingFor_isSome : (e.bindingFor k).isSome ↔ e.src ≠ e.dst ∧ max e.src e.dst = k := by
  rw [Edge.bindingFor]
  by_cases hloop : e.src = e.dst
  · rw [if_pos hloop]
    exact ⟨fun h => (by cases h), fun h => absurd hloop h.1⟩
  rw [if_neg hloop]
  by_cases hlt : e.src < e.dst
  · rw [if_pos hlt, max_eq_right hlt.le]
    by_cases hk : e.dst = k
    · rw [if_pos hk]
      exact ⟨fun _ => ⟨hloop, hk⟩, fun _ => rfl⟩
    · rw [if_neg hk]
      exact ⟨fun h => (by cases h), fun h => absurd h.2 hk⟩
  · rw [if_neg hlt, max_eq_left (not_lt.mp hlt)]
    by_cases hk : e.src = k
    · rw [if_pos hk]
      exact ⟨fun _ => ⟨hloop, hk⟩, fun _ => rfl⟩
    · rw [if_neg hk]
      exact ⟨fun h => (by cases h), fun h => absurd h.2 hk⟩

section

variable (hplan : lftjBuildPlan nVars pattern = some plans)
include hplan

lemma candidate_iff (hrow : row.length = nVars) (hk : k < nVars)
    (hedge : ∃ e ∈ pattern, e.src ≠ e.dst ∧ max e.src e.dst = k) :
    row.getD k 0 ∈ candidates plans (row.take k) ↔ ∀ e ∈ pattern, e.src ≠ e.dst → max e.src e.dst = k →
      e.Holds row := by
  obtain ⟨-, -, hplans⟩ := lftjBuildPlan_spec hplan
  have hlen : (row.take k).length = k := by
    rw [length_take]
    omega
  have hat : plans[(row.take k).length]? = some (pattern.filterMap fun e => e.bindingFor k) := by
    rw [hlen]
    exact hplans k hk
  have hne : (pattern.filterMap fun e => e.bindingFor k) ≠ [] := by
    obtain ⟨e, he, hmax⟩ := hedge
    obtain ⟨b, hb⟩ := isSome_iff_exists.mp (bindingFor_isSome.mpr hmax)
    exact ne_nil_of_mem (mem_filterMap.mpr ⟨e, he, hb⟩)
  rw [mem_candidates hat hne]
  constructor
  · intro h e he hloop hmax
    obtain ⟨b, hb⟩ := isSome_iff_exists.mp (bindingFor_isSome.mpr ⟨hloop, hmax⟩)
    exact (holds_iff hb).mp (h b (mem_filterMap.mpr ⟨e, he, hb⟩))
  · intro h b hb
    obtain ⟨e, he, hb⟩ := mem_filterMap.mp hb
    obtain ⟨hloop, hmax⟩ := bindingFor_isSome.mp (isSome_of_eq_some hb)
    exact (holds_iff hb).mpr (h e he hloop hmax)

lemma candidates_free {bound : List ℤ} (hk : bound.length < nVars)
    (hedge : ¬∃ e ∈ pattern, e.src ≠ e.dst ∧ max e.src e.dst = bound.length) :
    candidates plans bound = if bound.length ≠ 0 then [] else nodes plans := by
  obtain ⟨-, -, hplans⟩ := lftjBuildPlan_spec hplan
  have hnil : (pattern.filterMap fun e => e.bindingFor bound.length) = [] := by
    refine filterMap_eq_nil_iff.mpr fun e he => ?_
    by_contra hsome
    exact hedge ⟨e, he, bindingFor_isSome.mp (isSome_iff_ne_none.mpr hsome)⟩
  rw [candidates, hplans _ hk, hnil]

omit hplan in
lemma no_edge_zero : ¬∃ e ∈ pattern, e.src ≠ e.dst ∧ max e.src e.dst = 0 := by
  rintro ⟨e, -, hne, hmax⟩
  omega

lemma mem_solutions_iff (hchain : Chained nVars pattern) :
    row ∈ solutions plans nVars [] ↔ Matches nVars pattern plans row := by
  obtain ⟨-, hrange, -⟩ := lftjBuildPlan_spec hplan
  rw [mem_solutions, length_nil, Nat.zero_add]
  constructor
  · rintro ⟨-, hlen, hall⟩
    refine ⟨hlen, fun x hx => ?_, fun e he hloop => ?_⟩
    · cases row with
      | nil => cases hx
      | cons y row =>
        obtain rfl : y = x := some.inj hx
        have h0 := hall 0 le_rfl (by rw [length_cons]; omega)
        rw [take_zero, candidates_free hplan (by rw [length_nil]; rw [length_cons] at hlen; omega)
          no_edge_zero, if_neg (by rw [length_nil]; exact not_not_intro rfl)] at h0
        exact mem_nodes.mp h0
    · obtain ⟨hs, hd⟩ := hrange e he hloop
      have hmax : max e.src e.dst < nVars := max_lt hs hd
      exact (candidate_iff hplan hlen hmax ⟨e, he, hloop, rfl⟩).mp
        (hall _ (Nat.zero_le _) (by omega)) e he hloop rfl
  · rintro ⟨hlen, hfirst, hedges⟩
    refine ⟨List.nil_prefix, hlen, fun k _ hk => ?_⟩
    rw [hlen] at hk
    by_cases h0 : k = 0
    · subst h0
      cases row with
      | nil =>
        rw [length_nil] at hlen
        omega
      | cons y row =>
        rw [take_zero, candidates_free hplan (by rw [length_nil]; exact hk) no_edge_zero,
          if_neg (by rw [length_nil]; exact not_not_intro rfl)]
        exact mem_nodes.mpr (hfirst y rfl)
    · exact (candidate_iff hplan hlen hk (hchain k hk h0)).mpr fun e he hloop _ => hedges e he hloop

lemma solutions_eq_nil (hchain : ¬Chained nVars pattern) : solutions plans nVars [] = [] := by
  simp only [Chained, not_forall] at hchain
  obtain ⟨v, hv, h0, hedge⟩ := hchain
  refine eq_nil_iff_forall_not_mem.mpr fun row hrow => ?_
  obtain ⟨-, hlen, hall⟩ := mem_solutions.mp hrow
  rw [length_nil, Nat.zero_add] at hlen
  have hv' := hall v (Nat.zero_le _) (by omega)
  have htake : (row.take v).length = v := by
    rw [length_take]
    omega
  rw [candidates_free hplan (by omega) (by rwa [htake]), if_pos (by omega)] at hv'
  exact not_mem_nil hv'

end

def tuples (dom : List ℤ) : ℕ → List (List ℤ)
  | 0 => [[]]
  | n + 1 => dom.flatMap fun x => (tuples dom n).map fun row => x :: row

lemma mem_tuples {n : ℕ} : row ∈ tuples dom n ↔ row.length = n ∧ ∀ x ∈ row, x ∈ dom := by
  induction n generalizing row with
  | zero =>
    rw [tuples, mem_singleton]
    exact ⟨fun h => h ▸ ⟨rfl, fun x hx => absurd hx not_mem_nil⟩, fun h => length_eq_zero_iff.mp h.1⟩
  | succ n ih =>
    rw [tuples, mem_flatMap]
    constructor
    · rintro ⟨x, hx, hrow⟩
      obtain ⟨rest, hrest, rfl⟩ := mem_map.mp hrow
      obtain ⟨hlen, hall⟩ := ih.mp hrest
      exact ⟨by rw [length_cons, hlen], forall_mem_cons.mpr ⟨hx, hall⟩⟩
    · rintro ⟨hlen, hall⟩
      cases row with
      | nil => cases hlen
      | cons x rest =>
        obtain ⟨hx, hrest⟩ := forall_mem_cons.mp hall
        exact ⟨x, hx, mem_map.mpr ⟨rest, ih.mpr ⟨Nat.succ.inj hlen, hrest⟩, rfl⟩⟩

lemma sorted_tuples {n : ℕ} (h : dom.Pairwise (· < ·)) : (tuples dom n).Pairwise (List.Lex (· < ·)) := by
  induction n with
  | zero => exact pairwise_singleton _ _
  | succ n ih =>
    rw [tuples, pairwise_flatMap]
    refine ⟨fun x _ => pairwise_map.mpr (ih.imp fun hlex => List.Lex.cons hlex), ?_⟩
    refine h.imp fun {x y} hxy row hrow row' hrow' => ?_
    obtain ⟨rest, -, rfl⟩ := mem_map.mp hrow
    obtain ⟨rest', -, rfl⟩ := mem_map.mp hrow'
    exact List.Lex.rel hxy

/-- The rows are the matches of the pattern, each once, in lexicographic order. -/
theorem lftjEnumerate_matches (nVars cap : ℕ) (pattern : List Edge) (plans : List VarPlan)
    (hplan : lftjBuildPlan nVars pattern = some plans) :
    ∃ out, lftjEnumerate plans nVars [] ⟨[], cap, false⟩ = some out ∧ (out.oom = false →
      out.rows.Pairwise (List.Lex (· < ·)) ∧
      (Chained nVars pattern → (∀ row, row ∈ out.rows ↔ Matches nVars pattern plans row) ∧
        ∀ dom : List ℤ, dom.Pairwise (· < ·) → (∀ row ∈ out.rows, ∀ x ∈ row, x ∈ dom) →
          ∀ sat : List ℤ → Bool, (∀ row, sat row = true ↔ Matches nVars pattern plans row) →
            out.rows = (tuples dom nVars).filter sat) ∧
      (¬Chained nVars pattern → out.rows = [])) := by
  have hlen := (lftjBuildPlan_spec hplan).1
  have hstart : ([] : List ℤ).length + nVars = plans.length := by
    rw [hlen, length_nil, Nat.zero_add]
  obtain ⟨out, hrun, hrows⟩ := lftjEnumerate_putsOut hstart ⟨[], cap, false⟩
  refine ⟨out, hrun, fun hoom => ?_⟩
  have heq : out.rows = solutions plans nVars [] := hrows hoom
  rw [heq]
  refine ⟨sorted_solutions, fun hchain => ⟨fun row => mem_solutions_iff hplan hchain, ?_⟩,
    solutions_eq_nil hplan⟩
  intro dom hdom hin sat hsat
  refine sorted_solutions.eq_of_mem_iff ((sorted_tuples hdom).filter _) fun row => ?_
  rw [mem_filter, hsat, mem_tuples, mem_solutions_iff hplan hchain]
  exact ⟨fun hrow => ⟨⟨hrow.length, hin row ((mem_solutions_iff hplan hchain).mpr hrow)⟩, hrow⟩,
    fun hrow => hrow.2⟩

def oneEdge : Rel where
  fwd := ⟨2, [0, 1, 1], [1], by decide, by decide⟩
  rev := ⟨2, [0, 0, 1], [0], by decide, by decide⟩
  edge s d := s = 0 ∧ d = 1
  fwd_adj s d hs := by
    obtain rfl | rfl : s = 0 ∨ s = 1 := by
      change s < 2 at hs
      omega
    · simp [Csr.adj, slice]
    · simp [Csr.adj, slice]
  rev_adj s d hd := by
    obtain rfl | rfl : d = 0 ∨ d = 1 := by
      change d < 2 at hd
      omega
    · simp [Csr.adj, slice]
    · simp [Csr.adj, slice]

def twoTriangles : Rel where
  fwd := ⟨4, [0, 2, 4, 5, 5], [1, 2, 2, 3, 3], by decide, by decide⟩
  rev := ⟨4, [0, 0, 1, 3, 5], [0, 0, 1, 1, 2], by decide, by decide⟩
  edge s d := (s, d) ∈ [((0 : ℤ), (1 : ℤ)), (0, 2), (1, 2), (1, 3), (2, 3)]
  fwd_adj s d hs := by
    obtain rfl | rfl | rfl | rfl : s = 0 ∨ s = 1 ∨ s = 2 ∨ s = 3 := by
      change s < 4 at hs
      omega
    all_goals simp [Csr.adj, slice]
  rev_adj s d hd := by
    obtain rfl | rfl | rfl | rfl : d = 0 ∨ d = 1 ∨ d = 2 ∨ d = 3 := by
      change d < 4 at hd
      omega
    all_goals simp [Csr.adj, slice]

def trianglePattern : List Edge := [⟨twoTriangles, 0, 1⟩, ⟨twoTriangles, 0, 2⟩, ⟨twoTriangles, 1, 2⟩]

theorem lftjEnumerate_matches_of_two_triangles : ∃ plans out, lftjBuildPlan 3 trianglePattern = some plans ∧
    lftjEnumerate plans 3 [] ⟨[], 64, false⟩ = some out ∧ out.rows = [[0, 1, 2], [1, 2, 3]] ∧
      ∀ row, row ∈ out.rows ↔ Matches 3 trianglePattern plans row := by
  set plans : List VarPlan := [[], [⟨twoTriangles.fwd, 0⟩], [⟨twoTriangles.fwd, 0⟩, ⟨twoTriangles.fwd, 1⟩]]
  obtain ⟨out, hrun, hrows⟩ := lftjEnumerate_matches 3 64 trianglePattern plans rfl
  have heq : lftjEnumerate plans 3 [] ⟨[], 64, false⟩ = some ⟨[[0, 1, 2], [1, 2, 3]], 64, false⟩ := by
    decide +kernel
  obtain rfl := some.inj (hrun.symm.trans heq)
  have hchained : Chained 3 trianglePattern := by
    intro v hv hv0
    obtain rfl | rfl : v = 1 ∨ v = 2 := by omega
    · exact ⟨_, mem_cons_self, zero_ne_one, rfl⟩
    · exact ⟨_, mem_cons_of_mem _ mem_cons_self, by decide, rfl⟩
  exact ⟨plans, _, rfl, hrun, rfl, ((hrows rfl).2.1 hchained).1⟩

/-- An edge from a variable to itself does not restrict the rows. -/
theorem self_loop_not_checked :
    lftjBuildPlan 2 [⟨oneEdge, 0, 1⟩, ⟨oneEdge, 1, 1⟩] = some [[], [⟨oneEdge.fwd, 0⟩]] ∧
      lftjEnumerate [[], [⟨oneEdge.fwd, 0⟩]] 2 [] ⟨[], 64, false⟩ = some ⟨[[0, 1]], 64, false⟩ ∧
      ¬oneEdge.edge 1 1 :=
  ⟨rfl, by decide, fun h => absurd h.1 one_ne_zero⟩

end

end Rayforce.Leapfrog
