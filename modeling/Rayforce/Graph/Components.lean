import Rayforce.Graph.Topsort

/-! `exec_connected_comp`. -/

namespace Rayforce.Graph

open Library.Loops List Option Function

def compScan (label : Arr ℤ) (m : ℤ) (nodes : List ℤ) : Option ℤ :=
  nodes.foldlM (fun m u => (label.get? u).map fun l => if l < m then l else m) m

structure CompState where
  label : Arr ℤ
  changed : Bool

def compNode (rel : Rel) (st : CompState) (v : ℤ) : Option CompState :=
  (st.label.get? v).bind fun l =>
    (compScan st.label l (rel.fwd.targetsOf v)).bind fun m =>
      (compScan st.label m (rel.rev.targetsOf v)).bind fun m =>
        if m < l then (st.label.set? v m).map fun label => ⟨label, true⟩ else some st

def compSweep (rel : Rel) (n : ℕ) (st : CompState) : Option CompState :=
  (List.range n).foldlM (fun st (v : ℕ) => compNode rel st v) { st with changed := false }

def execConnectedComp (rel : Rel) : Option (Except GraphError (List (ℤ × ℤ))) :=
  guarded rel <|
    let n := rel.fwd.nNodes
    (whileLoop CompState.changed (compSweep rel n) (n * n + 2) ⟨⟨n, fun v => v⟩, true⟩).map fun st =>
      .ok ((List.range n).map fun v : ℕ => ((v : ℤ), st.label.cell v))

section

variable {rel : Rel} {n v : ℕ} {label : Arr ℤ} {st : CompState} {m : ℤ}

structure Smallest (label : Arr ℤ) (m₀ : ℤ) (nodes : List ℕ) (m : ℤ) : Prop where
  le_first : m ≤ m₀
  le : ∀ u ∈ nodes, m ≤ label.cell u
  mem : m = m₀ ∨ ∃ u ∈ nodes, m = label.cell u

lemma compScan_smallest {nodes : List ℕ} (hlt : ∀ u ∈ nodes, u < label.size) (m₀ : ℤ) :
    ∃ m, compScan label m₀ (nodes.map Nat.cast) = some m ∧ Smallest label m₀ nodes m := by
  rw [compScan, foldlM_map]
  refine foldlM_inv (Smallest label m₀) ⟨le_rfl, fun u hu => absurd hu not_mem_nil, .inl rfl⟩ ?_
  intro pre u post hl m hm
  have hu : u < label.size := hlt u (by rw [hl]; simp)
  refine ⟨if label.cell u < m then label.cell u else m, by rw [Arr.get?_natCast hu, map_some], ?_, ?_, ?_⟩
  · have := hm.le_first
    split_ifs <;> omega
  · intro w hw
    obtain hw | hw := mem_append.mp hw
    · have := hm.le w hw
      split_ifs <;> omega
    · rw [mem_singleton.mp hw]
      split_ifs <;> omega
  · split_ifs
    · exact .inr ⟨u, by simp, rfl⟩
    · refine hm.mem.imp_right ?_
      rintro ⟨w, hw, rfl⟩
      exact ⟨w, mem_append_left _ hw, rfl⟩

abbrev Rel.Connected (rel : Rel) : ℕ → ℕ → Prop := Relation.EqvGen rel.Edge

structure Labelled (rel : Rel) (n : ℕ) (label : Arr ℤ) : Prop where
  size : label.size = n
  node : ∀ v < n, ∃ w : ℕ, label.cell v = w ∧ w ≤ v ∧ rel.Connected w v

def Settled (rel : Rel) (label : Arr ℤ) (v : ℕ) : Prop :=
  ∀ u, rel.Edge u v ∨ rel.Edge v u → label.cell v ≤ label.cell u

def weight (n : ℕ) (label : Arr ℤ) : ℕ := ∑ v ∈ Finset.range n, (label.cell v).toNat

lemma Labelled.relabel (h : Square rel n) (hr : TargetsInRange rel n) (hs : Labelled rel n st.label) (hv : v < n) :
    ∃ st', compNode rel st v = some st' ∧ Labelled rel n st'.label ∧
      (st' = st ∧ Settled rel st.label v ∨ st'.changed = true ∧ weight n st'.label < weight n st.label) := by
  have hsize := hs.size
  have hout : ∀ u ∈ rel.outs v, u < st.label.size := fun u hu => by rw [hsize]; exact outs_lt hr hu
  have hin : ∀ u ∈ rel.ins v, u < st.label.size := fun u hu => by rw [hsize]; exact ins_lt hr hu
  obtain ⟨m₁, h₁, hm₁⟩ := compScan_smallest hout (st.label.cell v)
  obtain ⟨m₂, h₂, hm₂⟩ := compScan_smallest hin m₁
  have hget := Arr.get?_natCast (a := st.label) (i := v) (by rw [hsize]; exact hv)
  have hset := Arr.set?_natCast (a := st.label) (i := v) (by rw [hsize]; exact hv) m₂
  have hle : ∀ u, rel.Edge u v ∨ rel.Edge v u → m₂ ≤ st.label.cell u := by
    rintro u (hu | hu)
    · exact hm₂.le u ((mem_ins h hr).mpr hu)
    · exact hm₂.le_first.trans (hm₁.le u hu)
  have hmem : m₂ = st.label.cell v ∨ ∃ u < n, (rel.Edge u v ∨ rel.Edge v u) ∧ m₂ = st.label.cell u := by
    obtain heq | ⟨u, hu, heq⟩ := hm₂.mem
    · rw [heq]
      refine hm₁.mem.imp_right ?_
      rintro ⟨u, hu, rfl⟩
      exact ⟨u, outs_lt hr hu, .inr hu, rfl⟩
    · exact .inr ⟨u, ins_lt hr hu, .inl ((mem_ins h hr).mp hu), heq⟩
  have hbody : compNode rel st v =
      if m₂ < st.label.cell v then some ⟨⟨st.label.size, update st.label.cell v m₂⟩, true⟩ else some st := by
    rw [compNode, hget, bind_some, targetsOf_fwd hr, h₁, bind_some, targetsOf_rev hr, h₂, bind_some,
      hset, map_some]
  by_cases hlt : m₂ < st.label.cell v
  · obtain heq | ⟨u, hu, hjoin, heq⟩ := hmem
    · omega
    obtain ⟨w, hw, -, hwu⟩ := hs.node u hu
    obtain ⟨k, hk, hkv, -⟩ := hs.node v hv
    refine ⟨⟨⟨st.label.size, update st.label.cell v m₂⟩, true⟩, by rw [hbody, if_pos hlt], ⟨hsize, fun x hx => ?_⟩,
      .inr ⟨rfl, ?_⟩⟩
    · by_cases hxv : x = v
      · subst hxv
        refine ⟨w, by simp only [update_self]; omega, by omega, hwu.trans _ _ _ ?_⟩
        exact hjoin.elim (.rel _ _) fun he => .symm _ _ (.rel _ _ he)
      · simp only [update_of_ne hxv]
        exact hs.node x hx
    · refine Finset.sum_lt_sum (fun x _ => ?_) ⟨v, Finset.mem_range.mpr hv, ?_⟩
      · by_cases hxv : x = v
        · subst hxv
          simp only [update_self]
          exact Int.toNat_le_toNat hlt.le
        · simp only [update_of_ne hxv, le_refl]
      · simp only [update_self]
        omega
  · refine ⟨st, by rw [hbody, if_neg hlt], hs, .inl ⟨rfl, fun u hu => ?_⟩⟩
    exact (Int.not_lt.mp hlt).trans (hle u hu)

lemma Labelled.sweep (h : Square rel n) (hr : TargetsInRange rel n) (hs : Labelled rel n st.label) :
    ∃ st', compSweep rel n st = some st' ∧ Labelled rel n st'.label ∧
      (st'.changed = true ∧ weight n st'.label < weight n st.label ∨ st'.changed = false ∧ ∀ v < n,
        Settled rel st'.label v) := by
  obtain ⟨st', hrun, hs', hcases⟩ :=
    foldlM_inv (f := fun st (v : ℕ) => compNode rel st v) (l := range n) (s := { st with changed := false })
    (I := fun pre st' => Labelled rel n st'.label ∧
      (st'.changed = true ∧ weight n st'.label < weight n st.label ∨
        st'.changed = false ∧ st'.label = st.label ∧ ∀ v ∈ pre, Settled rel st'.label v))
    ⟨hs, .inr ⟨rfl, rfl, fun v hv => absurd hv not_mem_nil⟩⟩ (by
      rintro pre v post hl st' ⟨hs', hcases⟩
      have hv : v < n := mem_range.mp (by rw [hl]; simp)
      obtain ⟨st'', hrun, hs'', ⟨rfl, hset⟩ | ⟨hch, hlt⟩⟩ := hs'.relabel h hr hv
      · refine ⟨st'', hrun, hs'', hcases.imp_right fun ⟨hch, heq, hpre⟩ => ⟨hch, heq, ?_⟩⟩
        rw [forall_mem_append, forall_mem_singleton]
        exact ⟨hpre, hset⟩
      · refine ⟨st'', hrun, hs'', .inl ⟨hch, ?_⟩⟩
        obtain ⟨-, hlt'⟩ | ⟨-, heq, -⟩ := hcases
        · exact hlt.trans hlt'
        · exact heq ▸ hlt)
  exact ⟨st', hrun, hs', hcases.imp_right fun ⟨hch, _, hall⟩ => ⟨hch, fun v hv => hall v (mem_range.mpr hv)⟩⟩

lemma Labelled.isLeast (h : Square rel n) (hr : TargetsInRange rel n) (hs : Labelled rel n label)
    (hset : ∀ v < n, Settled rel label v) :
    ∃ comp : ℕ → ℕ, (∀ v < n, label.cell v = comp v ∧ IsLeast {u | u < n ∧ rel.Connected u v} (comp v)) ∧
      ∀ u < n, ∀ v < n, comp u = comp v ↔ rel.Connected u v := by
  have hedge : ∀ u v, rel.Edge u v → label.cell u = label.cell v := by
    intro u v huv
    obtain ⟨hu, hv⟩ := edge_lt h hr huv
    exact le_antisymm (hset u hu v (.inr huv)) (hset v hv u (.inl huv))
  have hconn : ∀ u v, rel.Connected u v → label.cell u = label.cell v := by
    intro u v huv
    induction huv with
    | rel u v huv => exact hedge u v huv
    | refl u => rfl
    | symm u v _ ih => exact ih.symm
    | trans u v w _ _ ih₁ ih₂ => exact ih₁.trans ih₂
  have hcell : ∀ v < n, label.cell v = (label.cell v).toNat := fun v hv => by
    obtain ⟨w, hw, -, -⟩ := hs.node v hv
    omega
  refine ⟨fun v => (label.cell v).toNat, fun v hv => ⟨hcell v hv, ?_, ?_⟩, fun u hu v hv =>
    ⟨fun heq => ?_, fun hc => ?_⟩⟩
  · obtain ⟨w, hw, hwv, hc⟩ := hs.node v hv
    have hlabel : (label.cell v).toNat = w := by rw [hw, Int.toNat_natCast]
    exact ⟨by simp only [hlabel]; omega, by simp only [hlabel]; exact hc⟩
  · rintro u ⟨hu, hc⟩
    obtain ⟨w, hw, hwu, -⟩ := hs.node u hu
    have := hconn u v hc
    simp only
    omega
  · obtain ⟨w, hw, -, hwu⟩ := hs.node u hu
    obtain ⟨w', hw', -, hwv⟩ := hs.node v hv
    obtain rfl : w = w' := by simp only [hw, hw', Int.toNat_natCast] at heq; exact heq
    exact (hwu.symm _ _).trans _ _ _ hwv
  · simp only [hconn u v hc]

lemma execConnectedComp_spec (h : Square rel n) (hr : TargetsInRange rel n) (hn : 0 < n) :
    ∃ comp : ℕ → ℕ, execConnectedComp rel = some (.ok ((List.range n).map fun v : ℕ => ((v : ℤ), (comp v : ℤ)))) ∧
      (∀ v < n, IsLeast {u | u < n ∧ rel.Connected u v} (comp v)) ∧ ∀ u < n, ∀ v < n, comp u = comp v ↔
        rel.Connected u v := by
  have hfirst : weight n ⟨n, fun v => (v : ℤ)⟩ ≤ n * n := by
    have := Finset.sum_le_card_nsmul (Finset.range n) (fun v : ℕ => ((v : ℤ)).toNat) n fun v hv => by
      have := Finset.mem_range.mp hv
      omega
    rwa [Finset.card_range, smul_eq_mul] at this
  obtain ⟨st, hrun, ⟨hs, hset⟩, hend⟩ :=
    whileLoop_inv (c := CompState.changed) (b := compSweep rel n) (k := n * n + 2)
    (I := fun st => Labelled rel n st.label ∧ (st.changed = false → ∀ v < n, Settled rel st.label v))
    (μ := fun st => if st.changed then weight n st.label + 1 else 0) (s := ⟨⟨n, fun v => v⟩, true⟩)
    (by
      rintro st ⟨hs, -⟩ hch
      obtain ⟨st', hrun, hs', ⟨hch', hlt⟩ | ⟨hch', hset⟩⟩ := hs.sweep h hr
      · exact ⟨st', hrun, ⟨hs', fun hno => by rw [hch'] at hno; exact nomatch hno⟩,
          by rw [if_pos hch, if_pos hch']; omega⟩
      · exact ⟨st', hrun, ⟨hs', fun _ => hset⟩, by rw [if_pos hch, hch']; exact Nat.succ_pos _⟩)
    (by rw [if_pos rfl]; exact Nat.succ_lt_succ (Nat.lt_succ_of_le hfirst))
    ⟨⟨rfl, fun v _ => ⟨v, rfl, le_rfl, .refl v⟩⟩, fun hno => nomatch hno⟩
  obtain ⟨comp, hcomp, hiff⟩ := hs.isLeast h hr (hset hend)
  refine ⟨comp, ?_, fun v hv => (hcomp v hv).2, hiff⟩
  rw [execConnectedComp, guarded_eq h hn, h.fwd.nNodes]
  simp only [hrun, map_some]
  have hlabels : ((range n).map fun v : ℕ => ((v : ℤ), st.label.cell v)) = (range n).map fun v : ℕ =>
      ((v : ℤ), (comp v : ℤ)) :=
    map_congr_left fun v hv => by rw [(hcomp v (mem_range.mp hv)).1]
  rw [hlabels]

theorem topsort_and_components (h : Square rel n) (hr : TargetsInRange rel n) (hn : 0 < n) :
    (∃ r, execTopsort rel = some r ∧ ((∃ e, r = .error e) ↔ ∃ v, Relation.TransGen rel.Edge v v) ∧
      ∀ rows, r = .ok rows → ∃ pos : ℕ → ℕ, rows = (List.range n).map (fun v : ℕ => ((v : ℤ), (pos v : ℤ))) ∧
        Set.BijOn pos (Set.Iio n) (Set.Iio n) ∧ ∀ u v, rel.Edge u v → pos u < pos v) ∧
      ∃ comp : ℕ → ℕ, execConnectedComp rel =
        some (.ok ((List.range n).map fun v : ℕ => ((v : ℤ), (comp v : ℤ)))) ∧
        (∀ v < n, IsLeast {u | u < n ∧ rel.Connected u v} (comp v)) ∧ ∀ u < n, ∀ v < n, comp u = comp v ↔
          rel.Connected u v :=
  ⟨execTopsort_spec h hr hn, execConnectedComp_spec h hr hn⟩

/-- Two nodes and the edge from 0 to 1. -/
theorem topsort_and_components_edge : ∃ rel, rayRelFromEdges [0] [1] 2 2 false = some rel ∧
    execTopsort rel = some (.ok [(0, 0), (1, 1)]) ∧ ¬(∃ v, Relation.TransGen rel.Edge v v) ∧
    ∃ comp : ℕ → ℕ, execConnectedComp rel = some (.ok [(0, (comp 0 : ℤ)), (1, (comp 1 : ℤ))]) ∧
      comp 0 = comp 1 := by
  have hrel : rayRelFromEdges [0] [1] 2 2 false = some (relationOf [0] [1] [⟨0, 1, 0⟩] 2) :=
    rayRelFromEdges_relationOf (n := 2) rfl (by decide) (by decide) (by decide) (by decide)
  have hsort : execTopsort (relationOf [0] [1] [⟨0, 1, 0⟩] 2) = some (.ok [(0, 0), (1, 1)]) := rfl
  obtain ⟨⟨r, hr, hcycle, -⟩, comp, hcomp, -, hiff⟩ :=
    topsort_and_components (rayRelFromEdges_square (n := 2) hrel) (by decide) (by decide)
  refine ⟨_, hrel, hsort, fun hno =>
    ?_, comp, hcomp, (hiff 0 (by decide) 1 (by decide)).mpr (.rel _ _ (by decide))⟩
  obtain ⟨e, he⟩ := hcycle.mpr hno
  rw [hsort, he] at hr
  exact nomatch hr

/-- A graph without nodes is refused, and a bad source has a label read that is not there. -/
theorem topsort_refuses_no_nodes :
    (∃ rel, rayRelFromEdges [] [] 0 0 false = some rel ∧ Square rel 0 ∧ TargetsInRange rel 0 ∧
      (∃ e, execTopsort rel = some (.error e)) ∧
      ¬∃ v, Relation.TransGen rel.Edge v v) ∧
      ∃ rel, rayRelFromEdges [-1] [0] 1 1 false = some rel ∧ Square rel 1 ∧ execConnectedComp rel = none := by
  have hnone : rayRelFromEdges [] [] 0 0 false = some (relationOf [] [] [] 0) :=
    rayRelFromEdges_relationOf (n := 0) rfl (by decide) (by decide) (by decide) (by decide)
  have hbad : rayRelFromEdges [-1] [0] 1 1 false = some (relationOf [-1] [0] [⟨-1, 0, 0⟩] 1) :=
    rayRelFromEdges_relationOf (n := 1) rfl (by decide) (by decide) (by decide) (by decide)
  refine ⟨⟨_, hnone, rayRelFromEdges_square (n := 0) hnone, by decide, ⟨.noNodes 0, rfl⟩, ?_⟩, _, hbad,
    rayRelFromEdges_square (n := 1) hbad, rfl⟩
  rintro ⟨v, hv⟩
  obtain ⟨u, hu, -⟩ := Relation.TransGen.head'_iff.mp hv
  exact absurd hu (by simp [Rel.Edge, Rel.outs, Csr.targetsOf, relationOf, csrBuildFromPairs])

end

end Rayforce.Graph
