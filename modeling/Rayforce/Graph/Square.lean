import Rayforce.Graph.Traverse
import Rayforce.Library.Loops

namespace Rayforce.Graph

open Library.Segments List Option

variable {Q : List ℕ} {l : List ℤ}

inductive GraphError
  | noNodes (n : ℕ)
  | notSquare (fwd rev : ℕ)
  | cycle (left total : ℕ)
  | nodeRange (last node : ℤ)
  | negativeWeight (row : ℕ)
  deriving DecidableEq

def graphRequireSquare (rel : Rel) : Option GraphError :=
  if rel.fwd.nNodes ≠ rel.rev.nNodes then some (.notSquare rel.fwd.nNodes rel.rev.nNodes) else none

def guarded {β : Type} (rel : Rel) (run : Option (Except GraphError β)) : Option (Except GraphError β) :=
  if rel.fwd.nNodes = 0 then some (.error (.noNodes rel.fwd.nNodes))
  else
    match graphRequireSquare rel with
    | some e => some (.error e)
    | none => run

def Csr.degree (c : Csr) (node : ℕ) : ℤ := (c.offsets.getD (node + 1) 0 : ℤ) - c.offsets.getD node 0

def inside (n : ℕ) (e : ℤ × ℤ × ℤ) : Bool := decide (InRange n e.1 ∧ InRange n e.2.1)

structure Square (rel : Rel) (n : ℕ) : Prop where
  fwd : rel.fwd.WellFormed n
  rev : rel.rev.WellFormed n
  transpose : ((rel.fwd.edges false).filter (inside n)).Perm ((rel.rev.edges true).filter (inside n))

def TargetsInRange (rel : Rel) (n : ℕ) : Prop :=
  (∀ t ∈ rel.fwd.targets, InRange n t) ∧ ∀ t ∈ rel.rev.targets, InRange n t

instance (rel : Rel) (n : ℕ) : Decidable (TargetsInRange rel n) := inferInstanceAs (Decidable (_ ∧ _))

theorem rayRelFromEdges_square {src dst : List Int64} {n : ℕ} {sort : Bool} {rel : Rel}
    (h : rayRelFromEdges src dst n n sort = some rel) : Square rel n := by
  obtain ⟨hi, -⟩ := rayRelFromEdges_indexed h
  refine ⟨hi.fwd, hi.rev, (hi.fwd_edges.filter _).trans
    (List.Perm.trans (List.Perm.of_eq ?_) (hi.rev_edges.filter _).symm)⟩
  have hboth : ∀ valid : EdgePair →
    Bool, (∀ e : EdgePair, inside n (e.src, e.dst, e.row) = true → valid e = true) →
      (edgesWhere src dst valid).filter (inside n) = edgesWhere src dst fun e =>
        inside n (e.src, e.dst, e.row) := by
    intro valid hvalid
    rw [edgesWhere, edgesWhere, List.filter_map, List.filter_filter]
    congr 1
    refine filter_congr fun e _ => ?_
    rw [Bool.eq_iff_iff, Bool.and_eq_true]
    exact ⟨And.left, fun he => ⟨he, hvalid e he⟩⟩
  rw [hboth _ fun e he => decide_eq_true (of_decide_eq_true he).1, hboth _ fun e he =>
    decide_eq_true (of_decide_eq_true he).2]

def relationOf (src dst : List Int64) (byDst : List EdgePair) (n : ℕ) : Rel :=
  { fromTable := 0, toTable := 0, nameSym := -1, fwd := csrBuildFromPairs (edgePairs src dst) n false false,
    rev := csrBuildFromPairs byDst n true false }

lemma cmpEdgeByDst_antisymm {a b : EdgePair} (hab : cmpEdgeByDst a b = true) (hba : cmpEdgeByDst b a = true) :
    a = b := by
  obtain ⟨_, _, _⟩ := a
  obtain ⟨_, _, _⟩ := b
  simp only [cmpEdgeByDst, edgeLe] at hab hba
  split_ifs at hab hba <;> simp_all <;> omega

lemma rayRelFromEdges_relationOf {src dst : List Int64} {byDst : List EdgePair} {n : ℕ}
    (hlen : src.length = dst.length)
    (hsmall : src.length < maxWords ∧ n + 1 < maxWords)
    (hsrc : (edgePairs src dst).Pairwise fun a b => cmpEdgeBySrc a b = true)
    (hdst : byDst.Pairwise fun a b => cmpEdgeByDst a b = true) (hperm : byDst.Perm (edgePairs src dst)) :
    rayRelFromEdges src dst n n false = some (relationOf src dst byDst n) := by
  have hsorted : (edgePairs src dst).mergeSort cmpEdgeByDst = byDst := by
    have hpair : ((edgePairs src dst).mergeSort cmpEdgeByDst).Pairwise fun a b => cmpEdgeByDst a b = true :=
      @pairwise_mergeSort _ cmpEdgeByDst (fun _ _ _ => edgeLe_trans) edgeLe_total _
    exact List.Perm.eq_of_pairwise (fun a b _ _ hab hba => cmpEdgeByDst_antisymm hab hba) hpair hdst
      ((mergeSort_perm _ _).trans hperm.symm)
  rw [rayRelFromEdges, if_neg (not_not.mpr hlen), if_neg (by omega),
    if_neg (by simp only [Int.toNat_natCast]; omega)]
  simp only [mergeSort_of_pairwise hsrc, hsorted, Int.toNat_natCast]
  rfl

namespace Rel

def outs (rel : Rel) (u : ℕ) : List ℕ := (rel.fwd.targetsOf u).map Int.toNat

def ins (rel : Rel) (u : ℕ) : List ℕ := (rel.rev.targetsOf u).map Int.toNat

end Rel

section

variable {c : Csr} {n u : ℕ}

lemma Csr.WellFormed.nNodes (h : c.WellFormed n) : c.nNodes = n := Int.ofNat_inj.mp h.nodes_eq

lemma targetsOf_natCast (hu : u < c.nNodes) :
    c.targetsOf u = slice c.targets (c.offsets.getD u 0) (c.offsets.getD (u + 1) 0) := by
  rw [Csr.targetsOf, if_neg (by omega), Int.toNat_natCast]

lemma Csr.WellFormed.targetsOf (h : c.WellFormed n) (hu : u < n) :
    c.targetsOf u = (c.neighbors u).map Prod.fst := by
  obtain ⟨rows, hrows, hlen⟩ := h.rowmap_length
  have hfst : (c.targets.zip rows).map Prod.fst = c.targets := map_fst_zip (by rw [hlen, h.targets_length])
  rw [targetsOf_natCast (by rwa [h.nNodes]), Csr.neighbors, Csr.cells, hrows, getD_some, slice, slice, map_take,
    map_drop, hfst]

lemma Csr.WellFormed.offset_le (h : c.WellFormed n) {g k : ℕ} (hg : g ≤ k) (hk : k ≤ n) :
    c.offsets.getD g 0 ≤ c.offsets.getD k 0 := by
  induction k with
  | zero => rw [Nat.le_zero.mp hg]
  | succ k ih =>
    obtain rfl | hlt := Nat.eq_or_lt_of_le hg
    · exact le_rfl
    · exact (ih (by omega) (by omega)).trans (h.offsets_mono k (by rw [h.nNodes]; omega))

lemma Csr.WellFormed.length_targetsOf (h : c.WellFormed n) (hu : u < n) :
    ((c.targetsOf u).length : ℤ) = c.degree u := by
  have hmono := h.offset_le (show u ≤ u + 1 by omega) hu
  have hlast := h.offset_le (g := u + 1) (k := n) hu le_rfl
  have hend := h.offsets_last
  have htargets := h.targets_length
  rw [h.nNodes] at hend
  rw [targetsOf_natCast (by rwa [h.nNodes]), slice, length_take, length_drop, Csr.degree, htargets]
  omega

lemma mem_targets_of_targetsOf {t v : ℤ} (h : t ∈ c.targetsOf v) : t ∈ c.targets := by
  rw [Csr.targetsOf] at h
  split_ifs at h
  · exact absurd h not_mem_nil
  · exact mem_of_mem_drop (mem_of_mem_take h)

lemma Csr.WellFormed.flatMap_targetsOf (h : c.WellFormed n) :
    (List.range n).flatMap (fun u => c.targetsOf (u : ℕ)) = c.targets := by
  have hrun : ∀ k ≤ n, (range k).flatMap (fun u => c.targetsOf (u : ℕ)) = c.targets.take (c.offsets.getD k 0) := by
    intro k hk
    induction k with
    | zero => rw [h.offsets_zero]; rfl
    | succ k ih =>
      have hmono := h.offset_le (show k ≤ k + 1 by omega) hk
      rw [range_succ, flatMap_append, ih (by omega), flatMap_singleton,
        targetsOf_natCast (by rw [h.nNodes]; omega), slice, ← take_add, Nat.add_sub_cancel' hmono]
  rw [hrun n le_rfl, ← h.nNodes, h.offsets_last, ← h.targets_length, take_length]

lemma length_le_of_nodup (hnodup : Q.Nodup) (hlt : ∀ v ∈ Q, v < n) : Q.length ≤ n := by
  have hsub : Q ⊆ range n := fun v hv => mem_range.mpr (hlt v hv)
  simpa using (subperm_of_subset hnodup hsub).length_le

lemma perm_range_of_length (hnodup : Q.Nodup) (hlt : ∀ v ∈ Q, v < n) (hlen : n ≤ Q.length) :
    Q.Perm (List.range n) := by
  refine (subperm_of_subset hnodup fun v hv => mem_range.mpr (hlt v hv)).perm_of_length_le ?_
  rwa [length_range]

end

section

variable {rel : Rel} {n u v : ℕ}

def joins (u v : ℕ) (e : ℤ × ℤ × ℤ) : Bool := decide (e.1 = u ∧ e.2.1 = v)

lemma countP_triples {c : Csr} (hc : c.WellFormed n) (hu : u < n) (v : ℕ) :
    c.triples.countP (joins u v) = (c.targetsOf u).count (v : ℤ) := by
  have hlist : ∀ g : ℕ, ((c.neighbors g).map fun t => ((g : ℤ), t)).countP (joins u v) =
      if g = u then ((c.neighbors u).map Prod.fst).count (v : ℤ) else 0 := by
    intro g
    rw [countP_map]
    split_ifs with hg
    · subst hg
      rw [count, countP_map]
      refine countP_congr fun t _ => ?_
      simp [joins]
    · refine countP_eq_zero.mpr fun t _ => ?_
      simp [joins, hg]
  have hrun : ∀ k, ((range k).flatMap fun g => (c.neighbors g).map fun t => ((g : ℤ), t)).countP (joins u v) =
      if u < k then ((c.neighbors u).map Prod.fst).count (v : ℤ) else 0 := by
    intro k
    induction k with
    | zero => rfl
    | succ k ih =>
      rw [range_succ, flatMap_append, countP_append, ih, flatMap_singleton, hlist]
      by_cases hk : k = u
      · rw [if_neg (by omega), if_pos hk, if_pos (by omega), Nat.zero_add]
      · rw [if_neg hk, Nat.add_zero]
        exact if_congr (by omega) rfl rfl
  rw [Csr.triples, hc.nNodes, hrun, if_pos hu, hc.targetsOf hu]

lemma count_toNat (hl : ∀ t ∈ l, 0 ≤ t) (v : ℕ) : (l.map Int.toNat).count v = l.count (v : ℤ) := by
  rw [count, count, countP_map]
  refine countP_congr fun t ht => ?_
  have := hl t ht
  simp only [Function.comp_apply, beq_iff_eq]
  omega

lemma Square.count_targetsOf (h : Square rel n) (hu : u < n) (hv : v < n) :
    (rel.fwd.targetsOf u).count (v : ℤ) = (rel.rev.targetsOf v).count (u : ℤ) := by
  have hin : ∀ e, joins u v e = true → inside n e = true := by
    intro e he
    obtain ⟨h₁, h₂⟩ := of_decide_eq_true he
    refine decide_eq_true ⟨?_, ?_⟩ <;> constructor <;> omega
  have hfilter : ∀ l : List (ℤ × ℤ × ℤ), (l.filter (inside n)).countP (joins u v) = l.countP (joins u v) := by
    intro l
    rw [countP_filter]
    refine countP_congr fun e _ => ?_
    rw [Bool.and_eq_true]
    exact ⟨And.left, fun he => ⟨he, hin e he⟩⟩
  have hperm := h.transpose.countP_eq (joins u v)
  rw [hfilter, hfilter, Csr.edges, Csr.edges, countP_map, countP_map] at hperm
  have hswap : rel.rev.triples.countP ((joins u v) ∘ fun t => if true = true then (t.2.1, t.1, t.2.2) else t) =
      rel.rev.triples.countP (joins v u) := by
    refine countP_congr fun t _ => ?_
    simp [joins, and_comm]
  rw [hswap, countP_triples h.rev hv] at hperm
  rw [← countP_triples h.fwd hu, ← hperm]
  rfl

lemma Square.count_outs (h : Square rel n) (hr : TargetsInRange rel n) (hu : u < n) (hv : v < n) :
    (rel.outs u).count v = (rel.ins v).count u := by
  have hfwd : ∀ t ∈ rel.fwd.targetsOf u, 0 ≤ t := fun t ht => (hr.1 t (mem_targets_of_targetsOf ht)).1
  have hrev : ∀ t ∈ rel.rev.targetsOf v, 0 ≤ t := fun t ht => (hr.2 t (mem_targets_of_targetsOf ht)).1
  rw [Rel.outs, Rel.ins, count_toNat hfwd, count_toNat hrev, h.count_targetsOf hu hv]

def Rel.Edge (rel : Rel) (u v : ℕ) : Prop := v ∈ rel.outs u

instance (rel : Rel) (u v : ℕ) : Decidable (rel.Edge u v) := inferInstanceAs (Decidable (v ∈ rel.outs u))

lemma outs_lt (hr : TargetsInRange rel n) (hv : v ∈ rel.outs u) : v < n := by
  obtain ⟨t, ht, rfl⟩ := mem_map.mp hv
  have := (hr.1 t (mem_targets_of_targetsOf ht)).1
  have := (hr.1 t (mem_targets_of_targetsOf ht)).2
  omega

lemma ins_lt (hr : TargetsInRange rel n) (hv : v ∈ rel.ins u) : v < n := by
  obtain ⟨t, ht, rfl⟩ := mem_map.mp hv
  have := (hr.2 t (mem_targets_of_targetsOf ht)).1
  have := (hr.2 t (mem_targets_of_targetsOf ht)).2
  omega

lemma outs_beyond (h : Square rel n) (hu : n ≤ u) : rel.outs u = [] := by
  rw [Rel.outs, Csr.targetsOf, if_pos (.inr (by rw [h.fwd.nNodes]; omega)), map_nil]

lemma ins_beyond (h : Square rel n) (hu : n ≤ u) : rel.ins u = [] := by
  rw [Rel.ins, Csr.targetsOf, if_pos (.inr (by rw [h.rev.nNodes]; omega)), map_nil]

lemma edge_lt (h : Square rel n) (hr : TargetsInRange rel n) (he : rel.Edge u v) : u < n ∧ v < n := by
  refine ⟨?_, outs_lt hr he⟩
  by_contra hge
  rw [Rel.Edge, outs_beyond h (Nat.le_of_not_lt hge)] at he
  exact not_mem_nil he

lemma mem_ins (h : Square rel n) (hr : TargetsInRange rel n) : u ∈ rel.ins v ↔ rel.Edge u v := by
  constructor
  · intro hu
    have hv : v < n := by
      by_contra hge
      rw [ins_beyond h (Nat.le_of_not_lt hge)] at hu
      exact not_mem_nil hu
    rw [Rel.Edge, ← count_pos_iff, h.count_outs hr (ins_lt hr hu) hv]
    exact count_pos_iff.mpr hu
  · intro he
    obtain ⟨hu, hv⟩ := edge_lt h hr he
    rw [← count_pos_iff, ← h.count_outs hr hu hv]
    exact count_pos_iff.mpr he

lemma map_natCast_toNat (hl : ∀ t ∈ l, 0 ≤ t) : (l.map Int.toNat).map Nat.cast = l := by
  have hid : l.map (Nat.cast ∘ Int.toNat) = l.map id := map_congr_left fun t ht => Int.toNat_of_nonneg (hl t ht)
  rw [List.map_map, hid, List.map_id]

lemma targetsOf_fwd (hr : TargetsInRange rel n) (u : ℕ) : rel.fwd.targetsOf u = (rel.outs u).map Nat.cast :=
  (map_natCast_toNat fun t ht => (hr.1 t (mem_targets_of_targetsOf ht)).1).symm

lemma targetsOf_rev (hr : TargetsInRange rel n) (u : ℕ) : rel.rev.targetsOf u = (rel.ins u).map Nat.cast :=
  (map_natCast_toNat fun t ht => (hr.2 t (mem_targets_of_targetsOf ht)).1).symm

lemma degree_rev (h : Square rel n) (hu : u < n) : rel.rev.degree u = (rel.ins u).length := by
  rw [Rel.ins, length_map, h.rev.length_targetsOf hu]

lemma guarded_eq (h : Square rel n) (hn : 0 < n) {β : Type} (run : Option (Except GraphError β)) :
    guarded rel run = run := by
  have hfwd := h.fwd.nNodes
  have hsquare : graphRequireSquare rel = none := if_neg (by rw [hfwd, h.rev.nNodes]; exact not_not.mpr rfl)
  rw [guarded, if_neg (by omega), hsquare]

end

end Rayforce.Graph
