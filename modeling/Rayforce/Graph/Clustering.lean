import Rayforce.Graph.Square

/-! `exec_cluster_coeff`. -/

namespace Rayforce.Graph

open Library.Loops List Option

structure ClusterState where
  inNbr : Arr Bool
  nbrs : List ℤ

def clusterMark (n : ℕ) (st : ClusterState) (u : ℤ) : Option ClusterState :=
  if 0 ≤ u ∧ u < n then
    (st.inNbr.get? u).bind fun marked =>
      if marked then some st
      else (st.inNbr.set? u true).bind fun inNbr => (put n st.nbrs u).map fun nbrs => ⟨inNbr, nbrs⟩
  else some st

def clusterGather (rel : Rel) (n : ℕ) (inNbr : Arr Bool) (v : ℤ) : Option ClusterState :=
  ((rel.fwd.targetsOf v).foldlM (clusterMark n) ⟨inNbr, []⟩).bind fun st =>
    (rel.rev.targetsOf v).foldlM (clusterMark n) st

def triangleScan (inNbr : Arr Bool) (triangles : ℕ) (nodes : List ℤ) : Option ℕ :=
  nodes.foldlM (fun t w => (inNbr.get? w).map fun marked => if marked then t + 1 else t) triangles

def triangleCount (rel : Rel) (st : ClusterState) : Option ℕ :=
  st.nbrs.foldlM (fun t u => triangleScan st.inNbr t (rel.fwd.targetsOf u)) 0

def clusterValue (rel : Rel) (st : ClusterState) : Option ℚ :=
  let deg := st.nbrs.length
  if deg < 2 then some 0 else (triangleCount rel st).map fun (t : ℕ) => (t : ℚ) / (deg * (deg - 1))

def clusterReset (inNbr : Arr Bool) (nbrs : List ℤ) : Option (Arr Bool) :=
  nbrs.foldlM (fun inNbr u => inNbr.set? u false) inNbr

def clusterNode (rel : Rel) (n : ℕ) (acc : Arr Bool × List (ℤ × ℚ)) (v : ℤ) : Option (Arr Bool × List (ℤ × ℚ)) :=
  (clusterGather rel n acc.1 v).bind fun st =>
    (clusterValue rel st).bind fun lcc =>
      (clusterReset st.inNbr st.nbrs).map fun inNbr => (inNbr, acc.2 ++ [(v, lcc)])

def execClusterCoeff (rel : Rel) : Option (Except GraphError (List (ℤ × ℚ))) :=
  guarded rel <|
    let n := rel.fwd.nNodes
    ((List.range n).foldlM (fun acc (v : ℕ) => clusterNode rel n acc v) (⟨n, fun _ => false⟩, [])).map fun acc =>
      .ok acc.2

section

variable (rel : Rel) (n v : ℕ)

def copies (u w : ℕ) : ℕ := (rel.fwd.targetsOf u).count (w : ℤ)

def around : Finset ℕ := (Finset.range n).filter fun u => u ≠ v ∧ (0 < copies rel v u ∨ 0 < copies rel u v)

def linked : Finset (ℕ × ℕ) :=
  (around rel n v ×ˢ around rel n v).filter fun p => p.1 ≠ p.2 ∧ 0 < copies rel p.1 p.2

def clusterCoeff : ℚ :=
  if (around rel n v).card < 2 then 0 else (linked rel n v).card /
    ((around rel n v).card * ((around rel n v).card - 1))

def surplus : ℕ :=
  copies rel v v + ∑ u ∈ around rel n v, (copies rel v u + copies rel u v) +
    ∑ u ∈ around rel n v, (copies rel u u + ∑ w ∈ (around rel n v).erase u, (copies rel u w - 1))

def Closed (s : Finset ℕ) : Prop := ∀ u ∈ s, ∀ t ∈ rel.fwd.targetsOf u, InRange n t

instance (rel : Rel) (n : ℕ) (s : Finset ℕ) : Decidable (Closed rel n s) :=
  inferInstanceAs (Decidable (∀ _ ∈ _, _))

def ClusterExact : Prop :=
  if copies rel v v = 0 then
    (around rel n v).card < 2 ∨
      Closed rel n (around rel n v) ∧ ∀ u ∈ around rel n v, copies rel u u = 0 ∧ ∀ w ∈ around rel n v,
        copies rel u w ≤ 1
  else
    around rel n v = ∅ ∨ 2 ≤ (around rel n v).card ∧ Closed rel n (insert v (around rel n v)) ∧
        surplus rel n v * ((around rel n v).card - 1) = 2 * (linked rel n v).card

instance : Decidable (ClusterExact rel n v) :=
  inferInstanceAs (Decidable (if copies rel v v = 0 then _ ∨ _ ∧ _ else _ ∨ _ ∧ _ ∧ _))

end

section

variable {rel : Rel} {n v : ℕ} {L : List ℕ} {st : ClusterState} {inNbr : Arr Bool}

structure Gathered (n : ℕ) (L : List ℕ) (st : ClusterState) : Prop where
  nbrs : st.nbrs = L.map Nat.cast
  nodup : L.Nodup
  lt : ∀ u ∈ L, u < n
  size : st.inNbr.size = n
  cell : ∀ u < n, st.inNbr.cell u = decide (u ∈ L)

lemma Gathered.mark (hm : Gathered n L st) (t : ℤ) :
    ∃ st' L', clusterMark n st t = some st' ∧ Gathered n L' st' ∧ ∀ u, u ∈ L' ↔ u ∈ L ∨ u < n ∧ (u : ℤ) = t := by
  by_cases ht : 0 ≤ t ∧ t < n
  · obtain ⟨u, rfl⟩ := Int.eq_ofNat_of_zero_le ht.1
    have hu : u < n := Int.ofNat_lt.mp ht.2
    have hget := Arr.get?_natCast (a := st.inNbr) (i := u) (by rw [hm.size]; exact hu)
    have hset := Arr.set?_natCast (a := st.inNbr) (i := u) (by rw [hm.size]; exact hu) true
    by_cases hmem : u ∈ L
    · refine ⟨st, L, ?_, hm, fun w => ⟨.inl, ?_⟩⟩
      · rw [clusterMark, if_pos ht, hget, bind_some, hm.cell u hu, if_pos (decide_eq_true hmem)]
      · rintro (hw | ⟨-, hw⟩)
        · exact hw
        · rwa [Int.ofNat_inj.mp hw]
    · have hroom : st.nbrs.length < n := by
        have := length_le_of_nodup (Q := u :: L) (nodup_cons.mpr ⟨hmem, hm.nodup⟩)
          (forall_mem_cons.mpr ⟨hu, hm.lt⟩)
        rw [hm.nbrs, length_map]
        exact this
      refine ⟨⟨⟨st.inNbr.size, Function.update st.inNbr.cell u true⟩, st.nbrs ++ [(u : ℤ)]⟩, L ++ [u], ?_,
        ⟨?_, ?_, ?_, hm.size, ?_⟩, ?_⟩
      · rw [clusterMark, if_pos ht, hget, bind_some, hm.cell u hu, if_neg (by simpa using hmem), hset, bind_some,
          put_of_lt hroom, map_some]
      · rw [hm.nbrs, map_append, map_singleton]
      · exact nodup_append.mpr ⟨hm.nodup, nodup_singleton u, fun a ha b hb hab =>
          hmem (by rwa [← mem_singleton.mp hb, ← hab])⟩
      · exact forall_mem_append.mpr ⟨hm.lt, forall_mem_singleton.mpr hu⟩
      · intro w hw
        by_cases hwu : w = u
        · simp [hwu]
        · simp [hm.cell w hw, hwu]
      · intro w
        rw [mem_append, mem_singleton, Int.ofNat_inj]
        exact ⟨Or.imp_right fun hw => ⟨hw ▸ hu, hw⟩, Or.imp_right And.right⟩
  · refine ⟨st, L, if_neg ht, hm, fun w => ⟨.inl, ?_⟩⟩
    rintro (hw | ⟨hw, rfl⟩)
    · exact hw
    · exact absurd ⟨Int.natCast_nonneg w, Int.ofNat_lt.mpr hw⟩ ht

lemma Gathered.marks (hm : Gathered n L st) (l : List ℤ) :
    ∃ st' L', l.foldlM (clusterMark n) st = some st' ∧ Gathered n L' st' ∧ ∀ u, u ∈ L' ↔ u ∈ L ∨ u < n ∧
    (u : ℤ) ∈ l := by
  obtain ⟨st', hrun, L', hm', hmem⟩ := foldlM_inv (f := clusterMark n) (l := l)
    (I := fun pre st' => ∃ L', Gathered n L' st' ∧ ∀ u, u ∈ L' ↔ u ∈ L ∨ u < n ∧ (u : ℤ) ∈ pre) (s := st)
      ⟨L, hm, by simp⟩ (by
      rintro pre t post - st' ⟨L', hm', hmem⟩
      obtain ⟨st'', L'', hrun, hm'', hmem'⟩ := hm'.mark t
      refine ⟨st'', hrun, L'', hm'', fun u => ?_⟩
      rw [hmem', hmem, mem_append, mem_singleton]
      tauto)
  exact ⟨st', L', hrun, hm', hmem⟩

def members (rel : Rel) (n v : ℕ) : Finset ℕ :=
  (Finset.range n).filter fun u => 0 < copies rel v u ∨ 0 < copies rel u v

lemma clusterGather_marked (h : Square rel n) (hv : v < n) (hm : Gathered n [] ⟨inNbr, []⟩) :
    ∃ st L, clusterGather rel n inNbr v = some st ∧ Gathered n L st ∧ L.toFinset = members rel n v := by
  obtain ⟨st₁, L₁, h₁, hm₁, hmem₁⟩ := hm.marks (rel.fwd.targetsOf v)
  obtain ⟨st₂, L₂, h₂, hm₂, hmem₂⟩ := hm₁.marks (rel.rev.targetsOf v)
  refine ⟨st₂, L₂, by rw [clusterGather, h₁, bind_some, h₂], hm₂, Finset.ext fun u => ?_⟩
  rw [List.mem_toFinset, hmem₂, hmem₁, members, Finset.mem_filter, Finset.mem_range, copies, count_pos_iff]
  by_cases hu : u < n
  · rw [copies, h.count_targetsOf hu hv, count_pos_iff]
    simp [hu]
  · simp [hu]

lemma triangleScan_eq (hm : Gathered n L st) (t : ℕ) (l : List ℤ) :
    triangleScan st.inNbr t l =
      if ∀ w ∈ l, InRange n w then some (t + ∑ w ∈ L.toFinset, l.count (w : ℤ)) else none := by
  induction l generalizing t with
  | nil => simp [triangleScan]
  | cons w l ih =>
    rw [triangleScan, foldlM_cons]
    by_cases hw : InRange n w
    · obtain ⟨u, rfl⟩ := Int.eq_ofNat_of_zero_le hw.1
      have hu : u < n := Int.ofNat_lt.mp hw.2
      have hsum : ∑ x ∈ L.toFinset, ((u : ℤ) :: l).count (x : ℤ) = (if u ∈ L then 1 else 0) + ∑ x ∈ L.toFinset,
          l.count (x : ℤ) := by
        simp only [count_cons, Finset.sum_add_distrib, beq_iff_eq, Int.ofNat_inj, Finset.sum_ite_eq,
          List.mem_toFinset]
        omega
      rw [Arr.get?_natCast (by rw [hm.size]; exact hu), map_some, bind_eq_bind, bind_some, hsum, hm.cell u hu]
      refine (ih _).trans (if_congr (by simp [hw]) ?_ rfl)
      by_cases hmem : u ∈ L <;> simp [hmem, add_assoc]
    · have hnone : st.inNbr.get? w = none := Arr.get?_eq_none (by rw [hm.size]; exact hw)
      rw [hnone, if_neg fun hall => hw (hall w mem_cons_self)]
      rfl

def counted (rel : Rel) (s : Finset ℕ) : ℕ := ∑ u ∈ s, ∑ w ∈ s, copies rel u w

lemma triangleCount_eq (hm : Gathered n L st) :
    triangleCount rel st = if Closed rel n L.toFinset then some (counted rel L.toFinset) else none := by
  have hrun : ∀ (l : List ℕ) (t : ℕ), l.Nodup →
    (l.map (Nat.cast : ℕ → ℤ)).foldlM (fun t u => triangleScan st.inNbr t (rel.fwd.targetsOf u)) t =
      if Closed rel n l.toFinset then some (t + ∑ u ∈ l.toFinset, ∑ w ∈ L.toFinset, copies rel u w) else none := by
    intro l
    induction l with
    | nil => intro t _; simp [Closed]
    | cons u l ih =>
      intro t hnodup
      obtain ⟨hu, hl⟩ := nodup_cons.mp hnodup
      have hclosed : Closed rel n (u :: l).toFinset ↔ (∀ t ∈ rel.fwd.targetsOf u, InRange n t) ∧
          Closed rel n l.toFinset := by
        simp only [Closed, toFinset_cons, Finset.forall_mem_insert]
      rw [map_cons, foldlM_cons, triangleScan_eq hm, toFinset_cons, Finset.sum_insert (by simpa using hu),
        ← toFinset_cons]
      by_cases hrange : ∀ t ∈ rel.fwd.targetsOf u, InRange n t
      · rw [if_pos hrange, bind_eq_bind, bind_some, ih _ hl, ← add_assoc]
        exact if_congr (by rw [hclosed, and_iff_right hrange]) rfl rfl
      · rw [if_neg hrange, if_neg fun hc => hrange (hclosed.mp hc).1]
        rfl
  rw [triangleCount, hm.nbrs, hrun L 0 hm.nodup, Nat.zero_add, counted]

def codeCoeff (rel : Rel) (s : Finset ℕ) : ℚ := if s.card < 2 then 0 else counted rel s / (s.card * (s.card - 1))

lemma clusterValue_eq (hm : Gathered n L st) :
    clusterValue rel st = if L.toFinset.card < 2 ∨
      Closed rel n L.toFinset then some (codeCoeff rel L.toFinset) else none := by
  have hlen : st.nbrs.length = L.toFinset.card := by rw [hm.nbrs, length_map, toFinset_card_of_nodup hm.nodup]
  rw [clusterValue, hlen, triangleCount_eq hm, codeCoeff]
  by_cases hcard : L.toFinset.card < 2
  · simp only [if_pos hcard, if_pos (Or.inl hcard)]
  · by_cases hc : Closed rel n L.toFinset
    · simp only [if_neg hcard, if_pos hc, if_pos (Or.inr hc), map_some]
    · simp only [if_neg hcard, if_neg hc, if_neg (not_or.mpr ⟨hcard, hc⟩), map_none]

lemma clusterReset_marked (hm : Gathered n L st) :
    ∃ inNbr, clusterReset st.inNbr st.nbrs = some inNbr ∧ Gathered n [] ⟨inNbr, []⟩ := by
  rw [clusterReset, hm.nbrs, foldlM_map]
  obtain ⟨inNbr, hrun, hsize, hcell⟩ :=
    foldlM_inv (f := fun (inNbr : Arr Bool) (u : ℕ) => inNbr.set? u false) (l := L) (s := st.inNbr)
    (I := fun pre inNbr => inNbr.size = n ∧ ∀ u < n, inNbr.cell u = decide (u ∈ L ∧ u ∉ pre))
      ⟨hm.size, by simpa using hm.cell⟩ (by
      rintro pre u post hl inNbr ⟨hsize, hcell⟩
      have hu : u < n := hm.lt u (by rw [hl]; simp)
      refine ⟨_, Arr.set?_natCast (by rw [hsize]; exact hu) false, hsize, fun w hw => ?_⟩
      by_cases hwu : w = u
      · simp [hwu]
      · simp [hcell w hw, hwu])
  exact ⟨inNbr, hrun, rfl, nodup_nil, by simp, hsize, fun u hu => by rw [hcell u hu]; simp⟩

lemma clusterNode_eq (h : Square rel n) (hv : v < n) (rows : List (ℤ × ℚ)) (hm : Gathered n [] ⟨inNbr, []⟩) :
    ∃ inNbr', Gathered n [] ⟨inNbr', []⟩ ∧ clusterNode rel n (inNbr, rows) v =
      if (members rel n v).card < 2 ∨ Closed rel n (members rel n v) then some
        (inNbr', rows ++ [((v : ℤ), codeCoeff rel (members rel n v))]) else none := by
  obtain ⟨st, L, hgather, hm', hL⟩ := clusterGather_marked h hv hm
  obtain ⟨inNbr', hreset, hclear⟩ := clusterReset_marked hm'
  refine ⟨inNbr', hclear, ?_⟩
  rw [clusterNode, hgather, bind_some, clusterValue_eq hm', hL, hreset]
  split_ifs
  · rfl
  · rfl

def HasValue (rel : Rel) (n v : ℕ) : Prop := (members rel n v).card < 2 ∨ Closed rel n (members rel n v)

instance (rel : Rel) (n v : ℕ) : Decidable (HasValue rel n v) := inferInstanceAs (Decidable (_ ∨ _))

lemma execClusterCoeff_eq (h : Square rel n) (hn : 0 < n) :
    execClusterCoeff rel = if ∀ v < n, HasValue rel n v then
      some (.ok ((List.range n).map fun v : ℕ => ((v : ℤ), codeCoeff rel (members rel n v)))) else none := by
  have hrun : ∀ k ≤ n, ∃ inNbr, Gathered n [] ⟨inNbr, []⟩ ∧
      (range k).foldlM (fun acc (v : ℕ) => clusterNode rel n acc v) (⟨n, fun _ => false⟩, []) =
        if ∀ v < k, HasValue rel n v then some
          (inNbr, (range k).map fun v : ℕ => ((v : ℤ), codeCoeff rel (members rel n v))) else none := by
    intro k hk
    induction k with
    | zero => exact ⟨⟨n, fun _ => false⟩, ⟨rfl, nodup_nil, by simp, rfl, by simp⟩, by simp⟩
    | succ k ih =>
      obtain ⟨inNbr, hclear, hloop⟩ := ih (by omega)
      obtain ⟨inNbr', hclear', hnode⟩ := clusterNode_eq h (show k < n by omega)
        ((range k).map fun v : ℕ => ((v : ℤ), codeCoeff rel (members rel n v))) hclear
      refine ⟨inNbr', hclear', ?_⟩
      rw [range_succ, foldlM_append, hloop]
      by_cases hall : ∀ v < k, HasValue rel n v
      · rw [if_pos hall, bind_eq_bind, bind_some, foldlM_cons, hnode]
        simp only [foldlM_nil, bind_pure]
        refine if_congr ⟨fun hk v hv => ?_, fun hk => hk k (Nat.lt_succ_self k)⟩ (by simp) rfl
        obtain rfl | hlt := Nat.eq_or_lt_of_le (Nat.le_of_lt_succ hv)
        · exact hk
        · exact hall v hlt
      · rw [if_neg hall, if_neg fun hk => hall fun v hv => hk v (by omega)]
        rfl
  obtain ⟨inNbr, -, hloop⟩ := hrun n le_rfl
  rw [execClusterCoeff, guarded_eq h hn, h.fwd.nNodes]
  simp only [hloop]
  split_ifs
  · rfl
  · rfl

end

section

variable {rel : Rel} {n v : ℕ}

lemma members_eq (hv : v < n) :
    members rel n v = if copies rel v v = 0 then around rel n v else insert v (around rel n v) := by
  refine Finset.ext fun u => ?_
  by_cases huv : u = v
  · subst huv
    split_ifs with hloop
    · simp [members, around, hloop]
    · simp [members, hv, Nat.pos_of_ne_zero hloop]
  · split_ifs with hloop
    · simp [members, around, huv]
    · simp [members, around, huv]

def extra (rel : Rel) (s : Finset ℕ) : ℕ := ∑ u ∈ s, (copies rel u u + ∑ w ∈ s.erase u, (copies rel u w - 1))

lemma card_linked : (linked rel n v).card = ∑ u ∈ around rel n v, ∑ w ∈ (around rel n v).erase u,
    min (copies rel u w) 1 := by
  rw [linked, Finset.card_filter, Finset.sum_product]
  refine Finset.sum_congr rfl fun u hu => ?_
  rw [← Finset.add_sum_erase _ _ hu, if_neg (by simp), Nat.zero_add]
  refine Finset.sum_congr rfl fun w hw => ?_
  have hne := (Finset.mem_erase.mp hw).1.symm
  by_cases hc : 0 < copies rel u w
  · rw [if_pos ⟨hne, hc⟩]
    omega
  · rw [if_neg fun hboth => hc hboth.2]
    omega

lemma counted_around : counted rel (around rel n v) = (linked rel n v).card + extra rel (around rel n v) := by
  rw [card_linked, counted, extra, ← Finset.sum_add_distrib]
  refine Finset.sum_congr rfl fun u hu => ?_
  have hsplit : ∑ w ∈ (around rel n v).erase u, copies rel u w =
      ∑ w ∈ (around rel n v).erase u, min (copies rel u w) 1 + ∑ w ∈ (around rel n v).erase u,
        (copies rel u w - 1) := by
    rw [← Finset.sum_add_distrib]
    exact Finset.sum_congr rfl fun w _ => by omega
  rw [← Finset.add_sum_erase _ _ hu, hsplit]
  omega

lemma counted_insert : counted rel (insert v (around rel n v)) = surplus rel n v + (linked rel n v).card := by
  have hout : v ∉ around rel n v := by simp [around]
  have hrows : ∑ u ∈ around rel n v, ∑ w ∈ insert v (around rel n v), copies rel u w =
      ∑ u ∈ around rel n v, copies rel u v + counted rel (around rel n v) := by
    rw [counted, ← Finset.sum_add_distrib]
    exact Finset.sum_congr rfl fun u _ => Finset.sum_insert hout
  have hjoin : ∑ u ∈ around rel n v, (copies rel v u + copies rel u v) = ∑ u ∈ around rel n v,
      copies rel v u + ∑ u ∈ around rel n v, copies rel u v :=
    Finset.sum_add_distrib
  rw [counted, Finset.sum_insert hout, Finset.sum_insert hout, hrows, counted_around, surplus, hjoin, ← extra]
  omega

lemma extra_eq_zero {s : Finset ℕ} :
    extra rel s = 0 ↔ ∀ u ∈ s, copies rel u u = 0 ∧ ∀ w ∈ s, copies rel u w ≤ 1 := by
  rw [extra, Finset.sum_eq_zero_iff]
  refine forall₂_congr fun u _ => ?_
  rw [Nat.add_eq_zero_iff, Finset.sum_eq_zero_iff]
  refine and_congr_right fun hloop => ⟨fun hall w hw => ?_, fun hall w hw => ?_⟩
  · by_cases hwu : w = u
    · rw [hwu, hloop]
      exact Nat.zero_le 1
    · have := hall w (Finset.mem_erase.mpr ⟨hwu, hw⟩)
      omega
  · have := hall w (Finset.mem_of_mem_erase hw)
    omega

lemma card_linked_le : (linked rel n v).card ≤ (around rel n v).card * ((around rel n v).card - 1) := by
  have hsub : linked rel n v ⊆ (around rel n v).offDiag := by
    intro p hp
    obtain ⟨hmem, hne, -⟩ := Finset.mem_filter.mp hp
    obtain ⟨h₁, h₂⟩ := Finset.mem_product.mp hmem
    exact Finset.mem_offDiag.mpr ⟨h₁, h₂, hne⟩
  refine (Finset.card_le_card hsub).trans (le_of_eq ?_)
  rw [Finset.offDiag_card, Nat.mul_sub_one]

lemma clusterCoeff_bounds : 0 ≤ clusterCoeff rel n v ∧ clusterCoeff rel n v ≤ 1 := by
  rw [clusterCoeff]
  split_ifs with hcard
  · exact ⟨le_rfl, zero_le_one⟩
  · have hle : ((linked rel n v).card : ℚ) ≤ (around rel n v).card * ((around rel n v).card - 1) := by
      have := @card_linked_le rel n v
      rw [← Nat.cast_pred (by omega)]
      exact_mod_cast this
    have hnonneg : (0 : ℚ) ≤ (linked rel n v).card := Nat.cast_nonneg _
    exact ⟨div_nonneg hnonneg (hnonneg.trans hle), div_le_one_of_le₀ hle (hnonneg.trans hle)⟩

lemma codeCoeff_around : codeCoeff rel (around rel n v) = clusterCoeff rel n v ↔ (around rel n v).card < 2 ∨
    extra rel (around rel n v) = 0 := by
  rw [codeCoeff, clusterCoeff]
  split_ifs with hcard
  · simp [hcard]
  · have hk : ((around rel n v).card : ℚ) * ((around rel n v).card - 1) ≠ 0 := by
      have : (2 : ℚ) ≤ (around rel n v).card := by exact_mod_cast Nat.le_of_not_lt hcard
      exact mul_ne_zero (by linarith) (by linarith)
    rw [div_left_inj' hk, Nat.cast_inj, counted_around, or_iff_right hcard]
    omega

lemma codeCoeff_insert (hloop : copies rel v v ≠ 0) (hN : around rel n v ≠ ∅) :
    codeCoeff rel (insert v (around rel n v)) = clusterCoeff rel n v ↔
      2 ≤ (around rel n v).card ∧ surplus rel n v * ((around rel n v).card - 1) = 2 * (linked rel n v).card := by
  have hpos : 0 < (around rel n v).card := Finset.card_pos.mpr (Finset.nonempty_iff_ne_empty.mpr hN)
  have hcard : (insert v (around rel n v)).card = (around rel n v).card + 1 :=
    Finset.card_insert_of_notMem (by simp [around])
  rw [codeCoeff, hcard, if_neg (by omega), counted_insert, clusterCoeff]
  generalize hT : (linked rel n v).card = T
  generalize hk : (around rel n v).card = k at hpos hcard
  have hsurplus : 0 < surplus rel n v := by
    rw [surplus]
    omega
  have hkpos : (0 : ℚ) < k := by exact_mod_cast hpos
  split_ifs with htwo
  · have hleft : ((surplus rel n v + T : ℕ) : ℚ) / ((k + 1 : ℕ) * ((k + 1 : ℕ) - 1)) ≠ 0 := by
      refine div_ne_zero (by exact_mod_cast (by omega : surplus rel n v + T ≠ 0)) (mul_ne_zero (by positivity) ?_)
      rw [Nat.cast_succ, add_sub_cancel_right]
      exact hkpos.ne'
    exact ⟨fun heq => absurd heq hleft, fun hboth => absurd hboth.1 (by omega)⟩
  · obtain ⟨k, rfl⟩ := Nat.exists_eq_add_of_le' hpos
    rw [and_iff_right (by omega), Nat.add_sub_cancel]
    have hk' : (0 : ℚ) < k := by exact_mod_cast (by omega : 0 < k)
    have hleft : ((surplus rel n v + T : ℕ) : ℚ) / ((k + 1 + 1 : ℕ) * ((k + 1 + 1 : ℕ) - 1)) =
      T / ((k + 1 : ℕ) * ((k + 1 : ℕ) - 1)) ↔ (surplus rel n v : ℚ) * k = 2 * T := by
      push_cast
      rw [add_sub_cancel_right, add_sub_cancel_right, div_eq_div_iff (by positivity) (by positivity)]
      constructor
      · intro heq
        have hcancel : ((k : ℚ) + 1) * (surplus rel n v * k) = (k + 1) * (2 * T) := by linear_combination heq
        exact mul_left_cancel₀ (by positivity : (k : ℚ) + 1 ≠ 0) hcancel
      · intro heq
        linear_combination ((k : ℚ) + 1) * heq
    rw [hleft]
    exact_mod_cast Iff.rfl

lemma clusterExact_iff (hv : v < n) :
    ClusterExact rel n v ↔ HasValue rel n v ∧ codeCoeff rel (members rel n v) = clusterCoeff rel n v := by
  rw [HasValue, members_eq hv, ClusterExact]
  split_ifs with hloop
  · rw [codeCoeff_around, ← extra_eq_zero]
    tauto
  · by_cases hN : around rel n v = ∅
    · simp [hN, codeCoeff, clusterCoeff]
    · have hcard : (insert v (around rel n v)).card = (around rel n v).card + 1 :=
        Finset.card_insert_of_notMem (by simp [around])
      have hpos : 0 < (around rel n v).card := Finset.card_pos.mpr (Finset.nonempty_iff_ne_empty.mpr hN)
      rw [or_iff_right hN, codeCoeff_insert hloop hN, hcard, or_iff_right (by omega)]
      tauto

end

/-- The coefficients are right exactly where the count of edges agrees at each node. -/
theorem execClusterCoeff_iff {rel : Rel} {n : ℕ} (h : Square rel n) (hn : 0 < n) :
    (execClusterCoeff rel = some (.ok ((List.range n).map fun v : ℕ => ((v : ℤ), clusterCoeff rel n v))) ↔ ∀ v < n,
      ClusterExact rel n v) ∧
      ∀ v, 0 ≤ clusterCoeff rel n v ∧ clusterCoeff rel n v ≤ 1 := by
  refine ⟨?_, fun v => clusterCoeff_bounds⟩
  have hexact : (∀ v < n, ClusterExact rel n v) ↔
      (∀ v < n, HasValue rel n v) ∧ ∀ v < n, codeCoeff rel (members rel n v) = clusterCoeff rel n v := by
    rw [← forall₂_and]
    exact forall₂_congr fun v hv => clusterExact_iff hv
  rw [execClusterCoeff_eq h hn, hexact]
  by_cases hall : ∀ v < n, HasValue rel n v
  · rw [if_pos hall, and_iff_right hall, some.injEq, Except.ok.injEq]
    constructor
    · intro heq v hv
      exact (Prod.mk.injEq _ _ _ _ ▸ map_inj_left.mp heq v (mem_range.mpr hv)).2
    · exact fun heq => map_congr_left fun v hv => by rw [heq v (mem_range.mp hv)]
  · rw [if_neg hall]
    exact ⟨fun hno => (nomatch hno), fun hboth => absurd hboth.1 hall⟩

/-- A triangle: the coefficients are right. -/
theorem execClusterCoeff_iff_triangle : ∃ rel, rayRelFromEdges [0, 0, 1] [1, 2, 2] 3 3 false = some rel ∧
    execClusterCoeff rel = some (.ok ((List.range 3).map fun v : ℕ => ((v : ℤ), clusterCoeff rel 3 v))) := by
  have hrel : rayRelFromEdges [0, 0, 1] [1, 2, 2] 3 3 false =
      some (relationOf [0, 0, 1] [1, 2, 2] [⟨0, 1, 0⟩, ⟨0, 2, 1⟩, ⟨1, 2, 2⟩] 3) :=
    rayRelFromEdges_relationOf (n := 3) rfl (by decide) (by decide) (by decide) (by decide)
  exact ⟨_, hrel, (execClusterCoeff_iff (rayRelFromEdges_square (n := 3) hrel) (by decide)).1.mpr
    (by decide +kernel)⟩

/-- With the edge from 1 to 2 three times node 0 has 3/2. -/
theorem execClusterCoeff_above_one : ∃ rel, rayRelFromEdges [0, 0, 1, 1, 1] [1, 2, 2, 2, 2] 3 3 false = some rel ∧
    Square rel 3 ∧ TargetsInRange rel 3 ∧ execClusterCoeff rel = some (.ok [(0, 3 / 2), (1, 1 / 2), (2, 1 / 2)]) ∧
      clusterCoeff rel 3 0 = 1 / 2 := by
  have hrel : rayRelFromEdges [0, 0, 1, 1, 1] [1, 2, 2, 2, 2] 3 3 false =
      some (relationOf [0, 0, 1, 1, 1] [1, 2, 2, 2, 2]
        [⟨0, 1, 0⟩, ⟨0, 2, 1⟩, ⟨1, 2, 2⟩, ⟨1, 2, 3⟩, ⟨1, 2, 4⟩] 3) :=
    rayRelFromEdges_relationOf (n := 3) rfl (by decide) (by decide) (by decide) (by decide)
  exact ⟨_, hrel, rayRelFromEdges_square (n := 3) hrel, by decide, by decide +kernel, by decide +kernel⟩

end Rayforce.Graph
