import Rayforce.Graph.Square

/-! `exec_louvain`. -/

namespace Rayforce.Graph

open Library.Loops Library.Levels List Option Function

variable {acc : Arr ℤ × List ℤ} {community : Arr ℤ} {nodes : List ℕ} {label : ℕ → ℤ}

def louvainDegree (rel : Rel) (v : ℕ) : ℤ := rel.fwd.degree v + rel.rev.degree v

def louvainTwoM (rel : Rel) : ℚ := if rel.fwd.nEdges = 0 then 1 else 2 * rel.fwd.nEdges

def louvainGain (twoM : ℚ) (kIn sigmaTot kv : ℤ) : ℚ := kIn / twoM - sigmaTot * kv / (twoM * twoM)

structure LouvainState where
  community : Arr ℤ
  commTot : Arr ℤ
  kIn : Arr ℤ
  moved : Bool

def louvainCount (n : ℕ) (community : Arr ℤ) (oldComm : ℤ) (acc : Arr ℤ × List ℤ) (u : ℤ) :
    Option (Arr ℤ × List ℤ) :=
  (community.get? u).bind fun c =>
    if c = oldComm then some acc
    else
      (acc.1.get? c).bind fun k =>
        (if k = 0 then put n acc.2 c else some acc.2).bind fun touched => (acc.1.set? c (k + 1)).map fun kIn =>
          (kIn, touched)

def louvainBest (twoM : ℚ) (commTot kIn : Arr ℤ) (kv : ℤ) (best : ℤ × ℚ) (c : ℤ) : Option (ℤ × ℚ) :=
  (commTot.get? c).bind fun sigmaTot =>
    (kIn.get? c).map fun k =>
      if louvainGain twoM k sigmaTot kv > best.2 then (c, louvainGain twoM k sigmaTot kv) else best

def louvainMove (st : LouvainState) (v oldComm bestComm kv : ℤ) : Option LouvainState :=
  (st.commTot.get? oldComm).bind fun t =>
    (st.commTot.set? oldComm (t - kv)).bind fun commTot =>
      (commTot.get? bestComm).bind fun t =>
        (commTot.set? bestComm (t + kv)).bind fun commTot =>
          (st.community.set? v bestComm).map fun community =>
            { st with community := community, commTot := commTot, moved := true }

def louvainReset (kIn : Arr ℤ) (touched : List ℤ) : Option (Arr ℤ) :=
  touched.foldlM (fun kIn c => kIn.set? c 0) kIn

def louvainNode (rel : Rel) (n : ℕ) (st : LouvainState) (v : ℕ) : Option LouvainState :=
  (st.community.get? v).bind fun oldComm =>
    ((rel.fwd.targetsOf v).foldlM (louvainCount n st.community oldComm) (st.kIn, [])).bind fun acc =>
      ((rel.rev.targetsOf v).foldlM (louvainCount n st.community oldComm) acc).bind fun acc =>
        (acc.2.foldlM (louvainBest (louvainTwoM rel) st.commTot acc.1 (louvainDegree rel v))
          (oldComm, 0)).bind fun best =>
          (louvainReset acc.1 acc.2).bind fun kIn =>
            if best.1 ≠ oldComm then louvainMove { st with kIn := kIn } v oldComm best.1
              (louvainDegree rel v) else some { st with kIn := kIn }

def louvainSweep (rel : Rel) (n : ℕ) (st : LouvainState) : Option LouvainState :=
  (List.range n).foldlM (louvainNode rel n) { st with moved := false }

def louvainLoop (rel : Rel) (n : ℕ) : ℕ → LouvainState → Option LouvainState
  | 0, st => some st
  | iters + 1, st => (louvainSweep rel n st).bind fun st =>
    if st.moved then louvainLoop rel n iters st else some st

def louvainInit (rel : Rel) (n : ℕ) : LouvainState :=
  ⟨⟨n, fun i => i⟩, ⟨n, louvainDegree rel⟩, ⟨n, fun _ => 0⟩, false⟩

def louvainRemap (acc : Arr ℤ × Arr ℤ × ℤ) (i : ℕ) : Option (Arr ℤ × Arr ℤ × ℤ) :=
  (acc.1.get? i).bind fun c =>
    (acc.2.1.get? c).bind fun r =>
      (if r < 0 then (acc.2.1.set? c acc.2.2).map fun remap =>
        (remap, acc.2.2 + 1) else some (acc.2.1, acc.2.2)).bind fun next =>
        (next.1.get? c).bind fun r => (acc.1.set? i r).map fun community => (community, next)

def execLouvain (rel : Rel) (maxIter : ℕ) : Option (Except GraphError (List (ℤ × ℤ))) :=
  guarded rel <|
    let n := rel.fwd.nNodes
    (louvainLoop rel n maxIter (louvainInit rel n)).bind fun st =>
      ((List.range n).foldlM louvainRemap (st.community, ⟨n, fun _ => -1⟩, 0)).map fun acc =>
        .ok ((List.range n).map fun i : ℕ => ((i : ℤ), acc.1.cell i))

section

variable (rel : Rel) (n : ℕ) (comm : ℕ → ℤ) (v : ℕ) (c : ℤ)

def adjacent (u w : ℕ) : ℕ := (rel.outs u).count w + (rel.outs w).count u

def modularity : ℚ :=
  (∑ i ∈ Finset.range n, ∑ j ∈ Finset.range n,
    if comm i = comm j then adjacent rel i j - louvainDegree rel i * louvainDegree rel j /
      louvainTwoM rel else 0) / louvainTwoM rel

def links : ℤ := ∑ u ∈ ((Finset.range n).erase v).filter fun u => comm u = c, (adjacent rel v u : ℤ)

def commDegree (s : Finset ℕ) : ℤ := ∑ u ∈ s.filter fun u => comm u = c, louvainDegree rel u

def pull : ℚ := louvainGain (louvainTwoM rel) (links rel n comm v c)
  (commDegree rel comm c ((Finset.range n).erase v)) (louvainDegree rel v)

def candidates : List ℤ := fresh [comm v] ((rel.outs v ++ rel.ins v).map comm)

def pick : ℤ :=
  ((candidates rel comm v).foldl
    (fun best c => if pull rel n comm v c > best.2 then (c, pull rel n comm v c) else best) (comm v, (0 : ℚ))).1

def Fair : Prop := pull rel n comm v (comm v) ≤ pull rel n comm v (pick rel n comm v)

end

section

variable {rel : Rel} {n v : ℕ} {comm : ℕ → ℤ}

lemma louvainTwoM_pos : 0 < louvainTwoM rel := by
  rw [louvainTwoM]
  split_ifs with hm
  · exact one_pos
  · have : 0 < rel.fwd.nEdges := Nat.pos_of_ne_zero hm
    positivity

lemma pull_eq (c : ℤ) : louvainTwoM rel * pull rel n comm v c =
    ∑ j ∈ (Finset.range n).erase v, if c = comm j then
      (adjacent rel v j : ℚ) - louvainDegree rel v * louvainDegree rel j / louvainTwoM rel else 0 := by
  have hpos := @louvainTwoM_pos rel
  rw [← Finset.sum_filter, Finset.sum_sub_distrib, ← Finset.sum_div, ← Finset.mul_sum, pull, louvainGain,
    links, commDegree]
  simp only [eq_comm (a := c)]
  push_cast
  field_simp

lemma sum_split {R : Finset ℕ} (hv : v ∈ R) (f : ℕ → ℕ → ℚ) : ∑ i ∈ R, ∑ j ∈ R, f i j =
    f v v + ∑ j ∈ R.erase v, f v j + ∑ i ∈ R.erase v, f i v + ∑ i ∈ R.erase v, ∑ j ∈ R.erase v, f i j := by
  have hrow : ∀ i, ∑ j ∈ R, f i j = f i v + ∑ j ∈ R.erase v, f i j :=
    fun i => (Finset.add_sum_erase R (f i) hv).symm
  rw [← Finset.add_sum_erase R _ hv, hrow v, Finset.sum_congr rfl fun i _ =>
    hrow i, Finset.sum_add_distrib, ← add_assoc]

lemma modularity_move (hv : v < n) (b : ℤ) :
    modularity rel n (update comm v b) =
      modularity rel n comm + 2 * (pull rel n comm v b - pull rel n comm v (comm v)) := by
  have hpos := @louvainTwoM_pos rel
  have hmem : v ∈ Finset.range n := Finset.mem_range.mpr hv
  let B : ℕ → ℕ → ℚ := fun i j => adjacent rel i j - louvainDegree rel i * louvainDegree rel j / louvainTwoM rel
  have hB : ∀ i j, B i j = B j i := fun i j => by
    simp only [B, adjacent, Nat.add_comm ((rel.outs i).count j), mul_comm (louvainDegree rel i : ℚ)]
  have hsum : ∀ comm' : ℕ → ℤ, (∀ j, j ≠ v → comm' j = comm j) →
      ∑ i ∈ Finset.range n, ∑ j ∈ Finset.range n, (if comm' i = comm' j then B i j else 0) =
        B v v + 2 * (louvainTwoM rel * pull rel n comm v (comm' v)) +
          ∑ i ∈ (Finset.range n).erase v, ∑ j ∈ (Finset.range n).erase v,
            if comm i = comm j then B i j else 0 := by
    intro comm' hsame
    have hne : ∀ j ∈ (Finset.range n).erase v, comm' j = comm j := fun j hj => hsame j (Finset.ne_of_mem_erase hj)
    have hrow : ∑ j ∈ (Finset.range n).erase v, (if comm' v = comm' j then B v j else 0) =
        louvainTwoM rel * pull rel n comm v (comm' v) := by
      rw [pull_eq]
      exact Finset.sum_congr rfl fun j hj => by rw [hne j hj]
    have hcol : ∑ i ∈ (Finset.range n).erase v, (if comm' i = comm' v then B i v else 0) =
        louvainTwoM rel * pull rel n comm v (comm' v) := by
      rw [← hrow]
      exact Finset.sum_congr rfl fun i _ => by rw [hB i v]; exact if_congr eq_comm rfl rfl
    have hrest : ∑ i ∈ (Finset.range n).erase v, ∑ j ∈ (Finset.range n).erase v,
      (if comm' i = comm' j then B i j else 0) =
        ∑ i ∈ (Finset.range n).erase v, ∑ j ∈ (Finset.range n).erase v, if comm i = comm j then B i j else 0 :=
      Finset.sum_congr rfl fun i hi => Finset.sum_congr rfl fun j hj => by rw [hne i hi, hne j hj]
    rw [sum_split hmem, if_pos rfl, hrow, hcol, hrest]
    ring
  have hnew := hsum (update comm v b) fun j hj => update_of_ne hj b comm
  have hold := hsum comm fun _ _ => rfl
  rw [update_self] at hnew
  simp only [B] at hnew hold
  rw [modularity, modularity, hnew, hold]
  field_simp
  ring

lemma le_modularity_move (hv : v < n) (b : ℤ) :
    modularity rel n comm ≤ modularity rel n (update comm v b) ↔
      pull rel n comm v (comm v) ≤ pull rel n comm v b := by
  rw [modularity_move hv]
  constructor
  · intro h
    linarith
  · intro h
    linarith

end

section

variable {rel : Rel} {n v : ℕ} {st : LouvainState} {oldComm : ℤ} {l : List ℤ}

lemma fresh_concat (seen l : List ℤ) (c : ℤ) :
    fresh seen (l ++ [c]) = if c ∈ seen ∨ c ∈ l then fresh seen l else fresh seen l ++ [c] := by
  rw [fresh_append, fresh, fresh, fresh]
  by_cases hc : c ∈ seen ∨ c ∈ l
  · rw [if_pos hc, if_pos, append_nil]
    rw [mem_append, mem_fresh]
    tauto
  · rw [if_neg hc, if_neg]
    rw [mem_append, mem_fresh]
    tauto

structure Counted (n : ℕ) (oldComm : ℤ) (l : List ℤ) (acc : Arr ℤ × List ℤ) : Prop where
  touched : acc.2 = fresh [oldComm] l
  size : acc.1.size = n
  cell : ∀ c < n, acc.1.cell c = if (c : ℤ) = oldComm then 0 else l.count (c : ℤ)
  labels : ∀ c ∈ l, InRange n c

lemma Counted.count (h : Counted n oldComm l acc) {u : ℕ} (hsize : community.size = n) (hu : u < n)
    (hlabel : InRange n (community.cell u)) :
    ∃ acc', louvainCount n community oldComm acc u = some acc' ∧
      Counted n oldComm (l ++ [community.cell u]) acc' := by
  obtain ⟨c, hc⟩ := Int.eq_ofNat_of_zero_le hlabel.1
  have hcn : c < n := by have := hlabel.2; omega
  have hlabels : ∀ d ∈ l ++ [community.cell u], InRange n d :=
    forall_mem_append.mpr ⟨h.labels, forall_mem_singleton.mpr hlabel⟩
  have hget := Arr.get?_natCast (a := community) (i := u) (by rw [hsize]; exact hu)
  rw [louvainCount, hget, bind_some]
  rw [hc] at hlabels ⊢
  by_cases hold : (c : ℤ) = oldComm
  · refine ⟨acc, if_pos hold, by rw [h.touched, fresh_concat, if_pos (.inl (by simp [hold]))], h.size,
      fun d hd => ?_, hlabels⟩
    rw [h.cell d hd]
    by_cases hd' : (d : ℤ) = oldComm
    · rw [if_pos hd', if_pos hd']
    · rw [if_neg hd', if_neg hd', count_append,
        count_eq_zero_of_not_mem (l := [(c : ℤ)]) (by simpa [hold] using hd'), Nat.add_zero]
  · have hk := Arr.get?_natCast (a := acc.1) (i := c) (by rw [h.size]; exact hcn)
    have hset := Arr.set?_natCast (a := acc.1) (i := c) (by rw [h.size]; exact hcn) (acc.1.cell c + 1)
    have hcell := h.cell c hcn
    rw [if_neg hold] at hcell
    have htouched : (if acc.1.cell c = 0 then put n acc.2 (c : ℤ) else some acc.2) =
        some (fresh [oldComm] (l ++ [(c : ℤ)])) := by
      rw [fresh_concat, h.touched, hcell]
      by_cases hmem : (c : ℤ) ∈ l
      · rw [if_neg (by rw [Nat.cast_eq_zero, count_eq_zero]; exact not_not.mpr hmem), if_pos (.inr hmem)]
      · have hnot : ¬((c : ℤ) ∈ [oldComm] ∨ (c : ℤ) ∈ l) := by simp [hold, hmem]
        have hroom : (fresh [oldComm] l).length < n := by
          have hnodup : ((c : ℤ) :: fresh [oldComm] l).Nodup :=
            nodup_cons.mpr ⟨fun hf => hmem (mem_fresh.mp hf).1, nodup_fresh _ _⟩
          have hsub : (c : ℤ) :: fresh [oldComm] l ⊆ (range n).map Nat.cast := by
            intro d hd
            have hd' : InRange n d := by
              obtain rfl | hd := mem_cons.mp hd
              · exact ⟨Int.natCast_nonneg c, Int.ofNat_lt.mpr hcn⟩
              · exact h.labels d (mem_fresh.mp hd).1
            obtain ⟨h₀, h₁⟩ := hd'
            exact mem_map.mpr ⟨d.toNat, mem_range.mpr (by omega), Int.toNat_of_nonneg h₀⟩
          simpa using (subperm_of_subset hnodup hsub).length_le
        rw [if_pos (by rw [Nat.cast_eq_zero, count_eq_zero]; exact hmem), if_neg hnot, put_of_lt hroom]
    refine ⟨(⟨acc.1.size, update acc.1.cell c (acc.1.cell c + 1)⟩, fresh [oldComm] (l ++ [(c : ℤ)])), ?_, rfl,
      h.size, fun d hd => ?_, hlabels⟩
    · rw [if_neg hold, hk, bind_some, htouched, bind_some, hset, map_some]
    · by_cases hdc : d = c
      · subst hdc
        simp only [update_self, hcell, if_neg hold, count_append, count_singleton_self]
        push_cast
        rfl
      · simp only [update_of_ne hdc, h.cell d hd, count_append]
        rw [count_eq_zero_of_not_mem (l := [(c : ℤ)]) (by simpa using hdc), Nat.add_zero]

lemma Counted.count_all (h : Counted n oldComm l acc) (hsize : community.size = n)
    (hlabel : ∀ u < n, InRange n (community.cell u)) (hnodes : ∀ u ∈ nodes, u < n) :
    ∃ acc', (nodes.map Nat.cast).foldlM (louvainCount n community oldComm) acc = some acc' ∧
      Counted n oldComm (l ++ nodes.map community.cell) acc' := by
  rw [foldlM_map]
  refine foldlM_inv (fun pre acc' => Counted n oldComm (l ++ pre.map community.cell) acc') (by simpa using h) ?_
  intro pre u post hpre acc' h'
  have hu : u < n := hnodes u (by rw [hpre]; simp)
  obtain ⟨acc'', hrun, h''⟩ := h'.count hsize hu (hlabel u hu)
  refine ⟨acc'', hrun, ?_⟩
  rwa [map_append, map_singleton, ← append_assoc]

structure Grouped (rel : Rel) (n : ℕ) (st : LouvainState) : Prop where
  community_size : st.community.size = n
  commTot_size : st.commTot.size = n
  kIn_size : st.kIn.size = n
  label : ∀ u < n, InRange n (st.community.cell u)
  total : ∀ c < n, st.commTot.cell c = commDegree rel st.community.cell c (Finset.range n)
  clear : ∀ c < n, st.kIn.cell c = 0

lemma louvainReset_clear (h : Counted n oldComm l acc) :
    ∃ kIn, louvainReset acc.1 acc.2 = some kIn ∧ kIn.size = n ∧ ∀ c < n, kIn.cell c = 0 := by
  obtain ⟨kIn, hrun, hsize, hcell⟩ :=
    foldlM_inv (f := fun (kIn : Arr ℤ) c => kIn.set? c 0) (l := acc.2) (s := acc.1)
    (I := fun pre kIn => kIn.size = n ∧ ∀ c < n, kIn.cell c = if (c : ℤ) ∈ pre then 0 else acc.1.cell c)
      ⟨h.size, by simp⟩ (by
      rintro pre d post hpre kIn ⟨hsize, hcell⟩
      have hd : d ∈ acc.2 := by rw [hpre]; simp
      rw [h.touched, mem_fresh] at hd
      obtain ⟨h₀, h₁⟩ := h.labels d hd.1
      obtain ⟨c, rfl⟩ := Int.eq_ofNat_of_zero_le h₀
      refine ⟨_, Arr.set?_natCast (by rw [hsize]; omega) 0, hsize, fun e he => ?_⟩
      by_cases hec : e = c
      · simp [hec]
      · simp [hcell e he, hec])
  refine ⟨kIn, hrun, hsize, fun c hc => ?_⟩
  rw [hcell c hc, h.cell c hc, h.touched]
  split_ifs with hmem hold
  · rfl
  · rfl
  · rw [Nat.cast_eq_zero, count_eq_zero]
    exact fun hcl => hmem (mem_fresh.mpr ⟨hcl, by simpa using hold⟩)

lemma count_map_comm (comm : ℕ → ℤ) (c : ℤ) (hnodes : ∀ u ∈ nodes, u < n) :
    (nodes.map comm).count c = ∑ u ∈ (Finset.range n).filter fun u => comm u = c, nodes.count u := by
  induction nodes with
  | nil => simp
  | cons w nodes ih =>
    obtain ⟨hw, hnodes⟩ := forall_mem_cons.mp hnodes
    simp only [map_cons, count_cons, ih hnodes, Finset.sum_add_distrib, beq_iff_eq, Finset.sum_ite_eq,
      Finset.mem_filter, Finset.mem_range, hw, true_and]

lemma filter_erase {comm : ℕ → ℤ} {c : ℤ} (hc : comm v ≠ c) :
    (((Finset.range n).erase v).filter fun u => comm u = c) = (Finset.range n).filter fun u => comm u = c := by
  ext u
  simp only [Finset.mem_filter, Finset.mem_erase]
  refine ⟨fun hu => ⟨hu.1.2, hu.2⟩, fun hu => ⟨⟨?_, hu.1⟩, hu.2⟩⟩
  rintro rfl
  exact hc hu.2

lemma links_eq (h : Square rel n) (hr : TargetsInRange rel n) (hv : v < n) (comm : ℕ → ℤ) {c : ℤ}
    (hc : comm v ≠ c) :
    links rel n comm v c = ((rel.outs v ++ rel.ins v).map comm).count c := by
  rw [links, filter_erase hc, map_append, count_append, count_map_comm comm c fun u hu => outs_lt hr hu,
    count_map_comm comm c fun u hu => ins_lt hr hu, ← Finset.sum_add_distrib, Nat.cast_sum]
  refine Finset.sum_congr rfl fun u hu => ?_
  rw [adjacent, h.count_outs hr (Finset.mem_range.mp (Finset.mem_filter.mp hu).1) hv]

lemma foldlM_pure {β γ : Type} {f : β → γ → Option β} {g : β → γ → β} {l : List γ}
    (hfg : ∀ b, ∀ x ∈ l, f b x = some (g b x)) (b : β) :
    l.foldlM f b = some (l.foldl g b) := by
  induction l generalizing b with
  | nil => rfl
  | cons x l ih =>
    rw [foldlM_cons, hfg b x mem_cons_self, foldl_cons]
    exact ih (fun b y hy => hfg b y (mem_cons_of_mem x hy)) (g b x)

lemma pick_mem (rel : Rel) (n : ℕ) (comm : ℕ → ℤ) (v : ℕ) :
    pick rel n comm v = comm v ∨ pick rel n comm v ∈ candidates rel comm v := by
  have hfold : ∀ (l : List ℤ) (best : ℤ × ℚ),
      (l.foldl (fun best c => if pull rel n comm v c > best.2 then (c, pull rel n comm v c) else best) best).1 =
        best.1 ∨
        (l.foldl (fun best c => if pull rel n comm v c > best.2 then (c, pull rel n comm v c) else best) best).1 ∈
          l := by
    intro l
    induction l with
    | nil => exact fun best => .inl rfl
    | cons c l ih =>
      intro best
      rw [foldl_cons]
      obtain hkept | hmem := ih (if pull rel n comm v c > best.2 then (c, pull rel n comm v c) else best)
      · rw [hkept]
        split_ifs
        · exact .inr mem_cons_self
        · exact .inl rfl
      · exact .inr (mem_cons_of_mem c hmem)
  exact hfold _ _

lemma commDegree_erase (hv : v < n) (comm : ℕ → ℤ) (c : ℤ) :
    commDegree rel comm c (Finset.range n) = commDegree rel comm c ((Finset.range n).erase v) +
      if comm v = c then louvainDegree rel v else 0 := by
  rw [commDegree, commDegree, Finset.sum_filter, Finset.sum_filter,
    ← Finset.sum_erase_add _ _ (Finset.mem_range.mpr hv)]

lemma commDegree_update (hv : v < n) (comm : ℕ → ℤ) (b c : ℤ) :
    commDegree rel (update comm v b) c (Finset.range n) =
    commDegree rel comm c (Finset.range n) - (if comm v = c then louvainDegree rel v else 0) +
      if b = c then louvainDegree rel v else 0 := by
  have hsame : commDegree rel (update comm v b) c ((Finset.range n).erase v) =
      commDegree rel comm c ((Finset.range n).erase v) := by
    rw [commDegree, commDegree, Finset.sum_filter, Finset.sum_filter]
    exact Finset.sum_congr rfl fun u hu => by rw [update_of_ne (Finset.ne_of_mem_erase hu)]
  rw [commDegree_erase hv, commDegree_erase hv comm, hsame, update_self]
  omega

lemma louvainMove_eq (hv : v < n) (hc : st.community.size = n) (ht : st.commTot.size = n) {a b : ℕ} (ha : a < n)
    (hb : b < n) (hab : a ≠ b) (kv : ℤ) :
    louvainMove st v a b kv = some { st with
      community := ⟨n, update st.community.cell v (b : ℤ)⟩
      commTot := ⟨n, update (update st.commTot.cell a (st.commTot.cell a - kv)) b (st.commTot.cell b + kv)⟩
      moved := true } := by
  have hget := Arr.get?_natCast (a := st.commTot) (i := a) (by rw [ht]; exact ha)
  have hset := Arr.set?_natCast (a := st.commTot) (i := a) (by rw [ht]; exact ha) (st.commTot.cell a - kv)
  have hget' := Arr.get?_natCast
    (a := (⟨n, update st.commTot.cell a (st.commTot.cell a - kv)⟩ : Arr ℤ)) (i := b) hb
  have hset' := Arr.set?_natCast (a := (⟨n, update st.commTot.cell a (st.commTot.cell a - kv)⟩ : Arr ℤ))
    (i := b) hb (st.commTot.cell b + kv)
  have hcomm := Arr.set?_natCast (a := st.community) (i := v) (by rw [hc]; exact hv) (b : ℤ)
  rw [ht] at hset
  rw [hc] at hcomm
  simp only [update_of_ne hab.symm] at hget'
  simp only [louvainMove, hget, bind_some, hset, hget', hset', hcomm, map_some]

lemma Grouped.visit (h : Square rel n) (hr : TargetsInRange rel n) (hs : Grouped rel n st) (hv : v < n) :
    ∃ st', louvainNode rel n st v = some st' ∧ Grouped rel n st' ∧
      st'.community.cell = update st.community.cell v (pick rel n st.community.cell v) := by
  have hcomm := Arr.get?_natCast (a := st.community) (i := v) (by rw [hs.community_size]; exact hv)
  have hinit : Counted n (st.community.cell v) [] (st.kIn, []) :=
    ⟨rfl, hs.kIn_size, fun c hc => by rw [hs.clear c hc]; simp, by simp⟩
  obtain ⟨acc₁, hrun₁, h₁⟩ := hinit.count_all hs.community_size hs.label fun u
    (hu : u ∈ rel.outs v) => outs_lt hr hu
  obtain ⟨acc, hrun₂, h₂⟩ := h₁.count_all hs.community_size hs.label fun u (hu : u ∈ rel.ins v) => ins_lt hr hu
  rw [nil_append, ← map_append] at h₂
  obtain ⟨kIn, hreset, hksize, hkclear⟩ := louvainReset_clear h₂
  have hbest : acc.2.foldlM (louvainBest (louvainTwoM rel) st.commTot acc.1 (louvainDegree rel v))
    (st.community.cell v, 0) =
      some (acc.2.foldl (fun best c =>
        if pull rel n st.community.cell v c > best.2 then (c, pull rel n st.community.cell v c) else best)
        (st.community.cell v, 0)) := by
    refine foldlM_pure (fun best c hc => ?_) _
    rw [h₂.touched, mem_fresh, mem_singleton] at hc
    obtain ⟨h₀, hcn⟩ := h₂.labels c hc.1
    obtain ⟨d, rfl⟩ := Int.eq_ofNat_of_zero_le h₀
    have hd : d < n := Int.ofNat_lt.mp hcn
    have hold : st.community.cell v ≠ d := fun heq => hc.2 heq.symm
    have hgain : louvainGain (louvainTwoM rel) (acc.1.cell d) (st.commTot.cell d) (louvainDegree rel v) =
        pull rel n st.community.cell v d := by
      rw [pull, links_eq h hr hv _ hold, h₂.cell d hd, if_neg hc.2, hs.total d hd, commDegree_erase hv,
        if_neg hold, add_zero]
    rw [louvainBest, Arr.get?_natCast (by rw [hs.commTot_size]; exact hd), bind_some,
      Arr.get?_natCast (by rw [h₂.size]; exact hd), map_some, hgain]
  have hpick : (acc.2.foldl (fun best c =>
    if pull rel n st.community.cell v c > best.2 then (c, pull rel n st.community.cell v c) else best)
      (st.community.cell v, (0 : ℚ))).1 = pick rel n st.community.cell v := by rw [h₂.touched, pick, candidates]
  have hbody : louvainNode rel n st v =
      if pick rel n st.community.cell v ≠ st.community.cell v then
        louvainMove { st with kIn := kIn } v (st.community.cell v) (pick rel n st.community.cell v)
          (louvainDegree rel v)
      else some { st with kIn := kIn } := by
    rw [louvainNode, hcomm, bind_some, targetsOf_fwd hr, hrun₁, bind_some, targetsOf_rev hr, hrun₂,
      bind_some, hbest, bind_some, hpick, hreset, bind_some]
  by_cases hmove : pick rel n st.community.cell v = st.community.cell v
  · refine ⟨{ st with kIn := kIn }, by rw [hbody, if_neg (not_not.mpr hmove)],
      ⟨hs.community_size, hs.commTot_size, hksize, hs.label, hs.total, hkclear⟩, ?_⟩
    rw [hmove, update_eq_self]
  · obtain ⟨h₀, han⟩ := hs.label v hv
    obtain ⟨a, ha⟩ := Int.eq_ofNat_of_zero_le h₀
    have hpn : InRange n (pick rel n st.community.cell v) := by
      refine h₂.labels _ ?_
      have := (pick_mem rel n st.community.cell v).resolve_left hmove
      rw [candidates, mem_fresh] at this
      exact this.1
    obtain ⟨b, hb⟩ := Int.eq_ofNat_of_zero_le hpn.1
    have hab : a ≠ b := fun heq => hmove (by rw [hb, ha, heq])
    have han' : a < n := by omega
    have hbn : b < n := by have := hpn.2; omega
    have hmoved := @louvainMove_eq _ _ { st with kIn := kIn } hv hs.community_size hs.commTot_size _ _ han' hbn hab
      (louvainDegree rel v)
    rw [if_pos hmove, ha, hb, hmoved] at hbody
    refine ⟨_, hbody, ?_, by rw [hb]⟩
    · refine ⟨rfl, rfl, hksize, fun u hu => ?_, fun c hc => ?_, hkclear⟩
      · simp only
        by_cases huv : u = v
        · rw [huv, update_self]
          exact ⟨Int.natCast_nonneg b, Int.ofNat_lt.mpr hbn⟩
        · rw [update_of_ne huv]
          exact hs.label u hu
      · simp only
        rw [commDegree_update hv, ha, ← hs.total c hc]
        by_cases hcb : c = b
        · rw [hcb, update_self, if_neg (by omega), if_pos rfl]
          omega
        · rw [update_of_ne hcb, if_neg (show ¬(b : ℤ) = c by omega)]
          by_cases hca : c = a
          · rw [hca, update_self, if_pos rfl]
            omega
          · rw [update_of_ne hca, if_neg (by omega)]
            omega

end

section

variable {rel : Rel} {n : ℕ} {st st' : LouvainState}

def LouvainStep (rel : Rel) (n : ℕ) (st st' : LouvainState) : Prop :=
  (∃ v < n, louvainNode rel n st v = some st') ∨ st' = { st with moved := false }

abbrev LouvainReached (rel : Rel) (n : ℕ) : LouvainState → Prop :=
  Relation.ReflTransGen (LouvainStep rel n) (louvainInit rel n)

lemma grouped_init : Grouped rel n (louvainInit rel n) := by
  refine ⟨rfl, rfl, rfl, fun u hu => ⟨Int.natCast_nonneg u, Int.ofNat_lt.mpr hu⟩, fun c hc => ?_, fun _ _ => rfl⟩
  have hself : ((Finset.range n).filter fun u : ℕ => (u : ℤ) = c) = {c} := by
    ext u
    simp only [Finset.mem_filter, Finset.mem_range, Int.ofNat_inj, Finset.mem_singleton]
    refine ⟨And.right, fun huc => ⟨huc ▸ hc, huc⟩⟩
  rw [commDegree, louvainInit, hself, Finset.sum_singleton]

lemma LouvainReached.grouped (h : Square rel n) (hr : TargetsInRange rel n) (hs : LouvainReached rel n st) :
    Grouped rel n st := by
  induction hs with
  | refl => exact grouped_init
  | tail _ hstep ih =>
    obtain ⟨v, hv, hrun⟩ | rfl := hstep
    · obtain ⟨st₁, hrun₁, hs₁, -⟩ := ih.visit h hr hv
      rw [hrun, some.injEq] at hrun₁
      exact hrun₁ ▸ hs₁
    · exact ⟨ih.community_size, ih.commTot_size, ih.kIn_size, ih.label, ih.total, ih.clear⟩

lemma LouvainReached.sweep (h : Square rel n) (hr : TargetsInRange rel n) (hs : LouvainReached rel n st) :
    ∃ st', louvainSweep rel n st = some st' ∧ LouvainReached rel n st' := by
  refine foldlM_inv (fun _ st' => LouvainReached rel n st') (hs.tail (.inr rfl)) ?_
  intro pre v post hpre st₁ hs₁
  have hv : v < n := mem_range.mp (by rw [hpre]; simp)
  obtain ⟨st₂, hrun, -⟩ := (hs₁.grouped h hr).visit h hr hv
  exact ⟨st₂, hrun, hs₁.tail (.inl ⟨v, hv, hrun⟩)⟩

lemma LouvainReached.loop (h : Square rel n) (hr : TargetsInRange rel n) (hs : LouvainReached rel n st)
    (maxIter : ℕ) :
    ∃ st', louvainLoop rel n maxIter st = some st' ∧ LouvainReached rel n st' := by
  induction maxIter generalizing st with
  | zero => exact ⟨st, rfl, hs⟩
  | succ maxIter ih =>
    obtain ⟨st₁, hsweep, hs₁⟩ := hs.sweep h hr
    rw [louvainLoop, hsweep, bind_some]
    split_ifs
    · exact ih hs₁
    · exact ⟨st₁, rfl, hs₁⟩

def firstLabels (label : ℕ → ℤ) (k : ℕ) : List ℤ := fresh [] ((List.range k).map label)

lemma firstLabels_succ (label : ℕ → ℤ) (k : ℕ) :
    firstLabels label (k + 1) =
      if label k ∈ firstLabels label k then firstLabels label k else firstLabels label k ++ [label k] := by
  rw [firstLabels, range_succ, map_append, map_singleton, fresh_concat]
  refine if_congr ?_ rfl rfl
  rw [firstLabels, mem_fresh]
  simp

lemma mem_firstLabels {k : ℕ} {c : ℤ} : c ∈ firstLabels label k ↔ ∃ j < k, label j = c := by
  rw [firstLabels, mem_fresh]
  simp

lemma firstLabels_prefix (label : ℕ → ℤ) {j k : ℕ} (hjk : j ≤ k) :
    firstLabels label j <+: firstLabels label k := by
  induction k with
  | zero => rw [Nat.le_zero.mp hjk]
  | succ k ih =>
    obtain rfl | hlt := Nat.eq_or_lt_of_le hjk
    · exact prefix_refl _
    · refine (ih (Nat.le_of_lt_succ hlt)).trans ?_
      rw [firstLabels_succ]
      split_ifs
      · exact prefix_refl _
      · exact prefix_append _ _

structure Remapped (n : ℕ) (label : ℕ → ℤ) (k : ℕ) (acc : Arr ℤ × Arr ℤ × ℤ) : Prop where
  size : acc.1.size = n
  remap_size : acc.2.1.size = n
  cell : ∀ i < n, acc.1.cell i = if i < k then ((firstLabels label k).idxOf (label i) : ℤ) else label i
  remap : ∀ c < n, acc.2.1.cell c =
    if (c : ℤ) ∈ firstLabels label k then ((firstLabels label k).idxOf (c : ℤ) : ℤ) else -1
  next : acc.2.2 = (firstLabels label k).length

lemma Remapped.step {k : ℕ} {acc : Arr ℤ × Arr ℤ × ℤ} (h : Remapped n label k acc) (hk' : k < n)
    (hlabel : InRange n (label k)) :
    ∃ acc', louvainRemap acc k = some acc' ∧ Remapped n label (k + 1) acc' := by
  obtain ⟨comm, remap, nextId⟩ := acc
  obtain ⟨hcsize, hrsize, hcomm, hremap, rfl⟩ := h
  simp only at hcsize hrsize hcomm hremap
  obtain ⟨h₀, hcn⟩ := hlabel
  obtain ⟨c, hc⟩ := Int.eq_ofNat_of_zero_le h₀
  have hcn' : c < n := by omega
  have hck : comm.cell k = c := by rw [hcomm k hk', if_neg (lt_irrefl k), hc]
  have hget := Arr.get?_natCast (a := comm) (i := k) (by rw [hcsize]; exact hk')
  have hrget := Arr.get?_natCast (a := remap) (i := c) (by rw [hrsize]; exact hcn')
  have hset := fun x => Arr.set?_natCast (a := comm) (i := k) (by rw [hcsize]; exact hk') x
  have hkept : ∀ d ∈ firstLabels label k, (firstLabels label (k + 1)).idxOf d = (firstLabels label k).idxOf d := by
    intro d hd
    obtain ⟨t, ht⟩ := firstLabels_prefix label (Nat.le_succ k)
    rw [← ht, idxOf_append_of_mem hd]
  have hcells : ∀ i < n, (if i = k then ((firstLabels label (k + 1)).idxOf (c : ℤ) : ℤ) else comm.cell i) =
      if i < k + 1 then ((firstLabels label (k + 1)).idxOf (label i) : ℤ) else label i := by
    intro i hi
    rcases lt_trichotomy i k with hlt | rfl | hgt
    · rw [if_neg (by omega), if_pos (by omega), hcomm i hi, if_pos hlt,
        hkept _ (mem_firstLabels.mpr ⟨i, hlt, rfl⟩)]
    · rw [if_pos rfl, if_pos (by omega), hc]
    · rw [if_neg (by omega), if_neg (by omega), hcomm i hi, if_neg (by omega)]
  by_cases hmem : (c : ℤ) ∈ firstLabels label k
  · have hr : remap.cell c = ((firstLabels label k).idxOf (c : ℤ) : ℤ) := by rw [hremap c hcn', if_pos hmem]
    have hsame : firstLabels label (k + 1) = firstLabels label k := by rw [firstLabels_succ, hc, if_pos hmem]
    refine ⟨(⟨n, update comm.cell k (remap.cell c)⟩, remap, ((firstLabels label k).length : ℤ)), ?_, rfl, hrsize,
      fun i hi => ?_, ?_, ?_⟩
    · simp only [louvainRemap, hget, hck, hrget, hset, bind_some, if_neg (by rw [hr]; omega : ¬remap.cell c < 0),
        map_some, hcsize]
    · rw [← hcells i hi, hsame]
      by_cases hik : i = k
      · simp only [hik, update_self, if_true, hr]
      · simp only [update_of_ne hik, if_neg hik]
    · rw [hsame]
      exact hremap
    · rw [hsame]
  · have hr : remap.cell c = -1 := by rw [hremap c hcn', if_neg hmem]
    have hsnoc : firstLabels label (k + 1) = firstLabels label k ++ [(c : ℤ)] := by
      rw [firstLabels_succ, hc, if_neg hmem]
    have hlast : (firstLabels label (k + 1)).idxOf (c : ℤ) = (firstLabels label k).length := by
      rw [hsnoc, idxOf_append_of_notMem hmem, idxOf_cons_self, Nat.add_zero]
    have hrset := Arr.set?_natCast (a := remap) (i := c) (by rw [hrsize]; exact hcn')
      ((firstLabels label k).length : ℤ)
    have hrget' := Arr.get?_natCast
      (a := (⟨remap.size, update remap.cell c ((firstLabels label k).length : ℤ)⟩ : Arr ℤ)) (i := c)
      (by rw [hrsize]; exact hcn')
    simp only [update_self] at hrget'
    refine ⟨(⟨n, update comm.cell k ((firstLabels label k).length : ℤ)⟩,
      ⟨n, update remap.cell c ((firstLabels label k).length : ℤ)⟩, ((firstLabels label k).length : ℤ) + 1),
      ?_, rfl, rfl, fun i hi => ?_, fun d hd => ?_, ?_⟩
    · simp only [louvainRemap, hget, hck, hrget, hset, bind_some, if_pos (by rw [hr]; omega : remap.cell c < 0),
        map_some, hcsize, hrset, hrget']
      rw [hrsize]
    · rw [← hcells i hi, hlast]
      by_cases hik : i = k
      · simp only [hik, update_self, if_true]
      · simp only [update_of_ne hik, if_neg hik]
    · by_cases hdc : d = c
      · simp only [hdc, update_self, hlast]
        rw [if_pos (by rw [hsnoc]; simp)]
      · simp only [update_of_ne hdc, hremap d hd]
        have hiff : (d : ℤ) ∈ firstLabels label (k + 1) ↔ (d : ℤ) ∈ firstLabels label k := by
          rw [hsnoc, mem_append, mem_singleton, Int.ofNat_inj]
          exact or_iff_left hdc
        by_cases hd' : (d : ℤ) ∈ firstLabels label k
        · rw [if_pos hd', if_pos (hiff.mpr hd'), hkept _ hd']
        · rw [if_neg hd', if_neg (mt hiff.mp hd')]
    · rw [hsnoc, length_append, length_singleton]
      push_cast
      rfl

lemma louvainRemap_all (hsize : community.size = n) (hlabel : ∀ u < n, InRange n (community.cell u)) :
    ∃ acc, (List.range n).foldlM louvainRemap (community, ⟨n, fun _ => -1⟩, 0) = some acc ∧
      ∀ i < n, acc.1.cell i = (firstLabels community.cell n).idxOf (community.cell i) := by
  obtain ⟨acc, hrun, hacc⟩ := foldlM_inv (f := louvainRemap) (l := range n) (s := (community, ⟨n, fun _ => -1⟩, 0))
    (I := fun pre acc => Remapped n community.cell pre.length acc)
      ⟨hsize, rfl, by simp, by simp [firstLabels, fresh], rfl⟩ (by
      intro pre k post hpre acc hacc
      have hlen : pre.length < (range n).length := by rw [hpre]; simp
      obtain rfl : k = pre.length := by
        have : (range n)[pre.length] = k := by
          simp only [hpre, getElem_append_right le_rfl, Nat.sub_self, getElem_cons_zero]
        rw [← this, getElem_range]
      rw [length_range] at hlen
      rw [length_append, length_singleton]
      exact hacc.step hlen (hlabel _ hlen))
  rw [length_range] at hacc
  exact ⟨acc, hrun, fun i hi => by rw [hacc.cell i hi, if_pos hi]⟩

lemma idxOf_firstLabels (label : ℕ → ℤ) (n : ℕ) :
    (∀ i < n, ∀ j < n, (firstLabels label n).idxOf (label i) = (firstLabels label n).idxOf (label j) ↔
      label i = label j) ∧
      (∃ k, (fun i => (firstLabels label n).idxOf (label i)) '' Set.Iio n = Set.Iio k) ∧
      ∀ i < n, ∀ c < (firstLabels label n).idxOf (label i), ∃ j < i,
        (firstLabels label n).idxOf (label j) = c := by
  have hmem : ∀ i < n, label i ∈ firstLabels label n := fun i hi => mem_firstLabels.mpr ⟨i, hi, rfl⟩
  have hnodup : (firstLabels label n).Nodup := nodup_fresh _ _
  have hplace : ∀ k ≤ n, ∀ c < (firstLabels label k).length, ∃ j < k,
      (firstLabels label n).idxOf (label j) = c := by
    intro k hk c hc
    obtain ⟨t, ht⟩ := firstLabels_prefix label hk
    have hcn : c < (firstLabels label n).length := by
      rw [← ht, length_append]
      omega
    have hget : (firstLabels label n)[c] = (firstLabels label k)[c] := by simp only [← ht, getElem_append_left hc]
    obtain ⟨j, hj, hjc⟩ := mem_firstLabels.mp (getElem_mem hc)
    refine ⟨j, hj, ?_⟩
    rw [hjc, ← hget]
    exact hnodup.idxOf_getElem c hcn
  refine ⟨fun i hi j _ => idxOf_inj (hmem i hi), ⟨(firstLabels label n).length, ?_⟩, fun i hi c hc => ?_⟩
  · ext c
    constructor
    · rintro ⟨i, hi, rfl⟩
      exact idxOf_lt_length_of_mem (hmem i hi)
    · intro hc
      obtain ⟨j, hj, hjc⟩ := hplace n le_rfl c hc
      exact ⟨j, hj, hjc⟩
  · refine hplace i hi.le c (hc.trans_le ?_)
    obtain ⟨t, ht⟩ := firstLabels_prefix label (show i + 1 ≤ n from hi)
    have hsucc : label i ∈ firstLabels label (i + 1) := mem_firstLabels.mpr ⟨i, Nat.lt_succ_self i, rfl⟩
    have hlt := idxOf_lt_length_of_mem hsucc
    have hlen : (firstLabels label (i + 1)).length ≤ (firstLabels label i).length + 1 := by
      rw [firstLabels_succ]
      split_ifs
      · exact Nat.le_succ _
      · rw [length_append, length_singleton]
    rw [← ht, idxOf_append_of_mem hsucc]
    omega

/-- The communities of a reached state; a visit keeps the modularity exactly where the pick is fair. -/
theorem execLouvain_spec (h : Square rel n) (hr : TargetsInRange rel n) (hn : 0 < n) (maxIter : ℕ) :
    (∃ st, ∃ id : ℕ → ℕ, louvainLoop rel n maxIter (louvainInit rel n) = some st ∧ LouvainReached rel n st ∧
      execLouvain rel maxIter = some (.ok ((List.range n).map fun i : ℕ => ((i : ℤ), (id i : ℤ)))) ∧
      (∀ i < n, ∀ j < n, id i = id j ↔ st.community.cell i = st.community.cell j) ∧
        (∃ k, id '' Set.Iio n = Set.Iio k) ∧
      ∀ i < n, ∀ c < id i, ∃ j < i, id j = c) ∧
      (∀ st, LouvainReached rel n st →
        (∀ c < n, st.commTot.cell c = commDegree rel st.community.cell c (Finset.range n)) ∧
        ∀ v < n, ∃ st', louvainNode rel n st v = some st' ∧
          (modularity rel n st.community.cell ≤ modularity rel n st'.community.cell ↔
            Fair rel n st.community.cell v)) ∧
      ∀ st st', LouvainReached rel n st →
        Relation.ReflTransGen (fun s s' => (∃ v < n, Fair rel n s.community.cell v ∧ louvainNode rel n s v =
          some s') ∨ s' = { s with moved := false }) st st' →
        LouvainReached rel n st' ∧ modularity rel n st.community.cell ≤ modularity rel n st'.community.cell := by
  have hvisit : ∀ st, LouvainReached rel n st → ∀ v < n, ∃ st', louvainNode rel n st v = some st' ∧
      (modularity rel n st.community.cell ≤ modularity rel n st'.community.cell ↔
        Fair rel n st.community.cell v) := by
    intro st hs v hv
    obtain ⟨st', hrun, -, hcell⟩ := (hs.grouped h hr).visit h hr hv
    exact ⟨st', hrun, by rw [hcell, le_modularity_move hv, Fair]⟩
  refine ⟨?_, fun st hs => ⟨(hs.grouped h hr).total, hvisit st hs⟩, fun st st' hs hfair => ?_⟩
  · obtain ⟨st, hloop, hs⟩ := LouvainReached.loop h hr .refl maxIter
    have hgrouped := hs.grouped h hr
    obtain ⟨acc, hremap, hcell⟩ := louvainRemap_all hgrouped.community_size hgrouped.label
    obtain ⟨hsame, hids, hfirst⟩ := idxOf_firstLabels st.community.cell n
    refine ⟨st, fun i => (firstLabels st.community.cell n).idxOf (st.community.cell i), hloop, hs, ?_,
      hsame, hids, hfirst⟩
    rw [execLouvain, guarded_eq h hn, h.fwd.nNodes]
    simp only [hloop, bind_some, hremap, map_some]
    have hrows : ((range n).map fun i : ℕ => ((i : ℤ), acc.1.cell i)) =
        (range n).map fun i : ℕ => ((i : ℤ),
          ((firstLabels st.community.cell n).idxOf (st.community.cell i) : ℤ)) :=
      map_congr_left fun i hi => by rw [hcell i (mem_range.mp hi)]
    rw [hrows]
  · induction hfair with
    | refl => exact ⟨hs, le_rfl⟩
    | tail _ hstep ih =>
      obtain ⟨hs₁, hle⟩ := ih
      obtain ⟨v, hv, hfair, hrun⟩ | rfl := hstep
      · obtain ⟨st₂, hrun₂, hiff⟩ := hvisit _ hs₁ v hv
        rw [hrun, some.injEq] at hrun₂
        subst hrun₂
        exact ⟨hs₁.tail (.inl ⟨v, hv, hrun⟩), hle.trans (hiff.mpr hfair)⟩
      · exact ⟨hs₁.tail (.inr rfl), hle⟩

theorem execLouvain_spec_path : ∃ rel, rayRelFromEdges [0, 1, 2] [1, 2, 3] 4 4 false = some rel ∧
    ∃ st, ∃ id : ℕ → ℕ,
    louvainLoop rel 4 2 (louvainInit rel 4) = some st ∧
    execLouvain rel 2 = some (.ok ((List.range 4).map fun i : ℕ => ((i : ℤ), (id i : ℤ)))) ∧
    (∀ i < 4, ∀ j < 4, id i = id j ↔ st.community.cell i = st.community.cell j) ∧ ∃ k,
      id '' Set.Iio 4 = Set.Iio k := by
  have hrel : rayRelFromEdges [0, 1, 2] [1, 2, 3] 4 4 false =
      some (relationOf [0, 1, 2] [1, 2, 3] [⟨0, 1, 0⟩, ⟨1, 2, 1⟩, ⟨2, 3, 2⟩] 4) :=
    rayRelFromEdges_relationOf (n := 4) rfl (by decide) (by decide) (by decide) (by decide)
  obtain ⟨⟨st, id, hloop, -, hrun, hsame, hids, -⟩, -⟩ :=
    execLouvain_spec (rayRelFromEdges_square (n := 4) hrel) (by decide) (by decide) 2
  exact ⟨_, hrel, st, id, hloop, hrun, hsame, hids⟩

/-- Node 1 leaves the community of node 0, and the modularity falls. -/
theorem louvain_lowers_modularity : ∃ rel, rayRelFromEdges [0, 1, 2] [1, 2, 3] 4 4 false = some rel ∧
    Square rel 4 ∧ TargetsInRange rel 4 ∧
    ∃ st st', LouvainReached rel 4 st ∧ louvainNode rel 4 st 1 = some st' ∧
      modularity rel 4 st'.community.cell < modularity rel 4 st.community.cell := by
  have hrel : rayRelFromEdges [0, 1, 2] [1, 2, 3] 4 4 false =
      some (relationOf [0, 1, 2] [1, 2, 3] [⟨0, 1, 0⟩, ⟨1, 2, 1⟩, ⟨2, 3, 2⟩] 4) :=
    rayRelFromEdges_relationOf (n := 4) rfl (by decide) (by decide) (by decide) (by decide)
  have h := rayRelFromEdges_square (n := 4) hrel
  have hr : TargetsInRange (relationOf [0, 1, 2] [1, 2, 3] [⟨0, 1, 0⟩, ⟨1, 2, 1⟩, ⟨2, 3, 2⟩] 4) 4 := by decide
  obtain ⟨st₁, hrun₁, hs₁, hcell₁⟩ := grouped_init.visit h hr (v := 0) (by decide)
  obtain ⟨st₂, hrun₂, -, hcell₂⟩ := hs₁.visit h hr (v := 1) (by decide)
  refine ⟨_, hrel, h, hr, st₁, st₂, .single (.inl ⟨0, by decide, hrun₁⟩), hrun₂, ?_⟩
  rw [hcell₂, hcell₁]
  decide +kernel

end

end Rayforce.Graph
