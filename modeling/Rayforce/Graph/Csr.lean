import Rayforce.Library.Grouping

/-! The adjacency indexes of `store/csr.c`. -/

namespace Rayforce.Graph

open Library.Segments Library.Grouping List Option

variable {l : List (ℤ × ℤ)}

structure EdgePair where
  src : ℤ
  dst : ℤ
  row : ℤ
  deriving DecidableEq, Repr

def edgeLe (k₁ k₂ : EdgePair → ℤ) (a b : EdgePair) : Bool :=
  if k₁ a ≠ k₁ b then k₁ a < k₁ b else if k₂ a ≠ k₂ b then k₂ a < k₂ b else a.row ≤ b.row

def cmpEdgeBySrc : EdgePair → EdgePair → Bool := edgeLe EdgePair.src EdgePair.dst

def cmpEdgeByDst : EdgePair → EdgePair → Bool := edgeLe EdgePair.dst EdgePair.src

structure Csr where
  offsets : List ℕ
  targets : List ℤ
  rowmap : Option (List ℤ)
  nNodes : ℕ
  nEdges : ℕ
  sorted : Bool
  deriving DecidableEq, Repr

def EdgePair.key (isReverse : Bool) (e : EdgePair) : ℤ := if isReverse then e.dst else e.src

def EdgePair.val (isReverse : Bool) (e : EdgePair) : ℤ := if isReverse then e.src else e.dst

def EdgePair.slot (isReverse : Bool) (nNodes : ℕ) (e : EdgePair) : Option ℕ :=
  if 0 ≤ e.key isReverse ∧ e.key isReverse < nNodes then some (e.key isReverse).toNat else none

structure Fill where
  pos : List ℕ
  cells : List (ℤ × ℤ)

def fillEdge (isReverse : Bool) (nNodes : ℕ) (st : Fill) (e : EdgePair) : Fill :=
  match e.slot isReverse nNodes with
  | none => st
  | some g => ⟨st.pos.modify g (· + 1), st.cells.set (st.pos.getD g 0) (e.val isReverse, e.row)⟩

def insertTarget (l : List (ℤ × ℤ)) (c : ℤ × ℤ) : List (ℤ × ℤ) :=
  l.rdropWhile (fun d => c.1 < d.1) ++ c :: l.rtakeWhile fun d => c.1 < d.1

def sortTargets (l : List (ℤ × ℤ)) : List (ℤ × ℤ) := l.foldl insertTarget []

def sortNode (offsets : List ℕ) (cells : List (ℤ × ℤ)) (node : ℕ) : List (ℤ × ℤ) :=
  let start := offsets.getD node 0
  let stop := offsets.getD (node + 1) 0
  if stop - start ≤ 1 then cells else writeAt cells start (sortTargets (slice cells start stop))

def csrSortAdjacencyLists (nNodes : ℕ) (offsets : List ℕ) (cells : List (ℤ × ℤ)) : List (ℤ × ℤ) :=
  (List.range nNodes).foldl (sortNode offsets) cells

def csrBuildFromPairs (pairs : List EdgePair) (nNodes : ℕ) (isReverse sort : Bool) : Csr :=
  let slots := pairs.map (EdgePair.slot isReverse nNodes)
  let validEdges := slots.countP Option.isSome
  let off := (List.range nNodes).foldl sumStep (slots.foldl countStep (List.replicate (nNodes + 1) 0))
  let filled := (pairs.foldl (fillEdge isReverse nNodes) ⟨off, List.replicate validEdges (0, 0)⟩).cells
  let cells := if sort then csrSortAdjacencyLists nNodes off filled else filled
  { offsets := off, targets := cells.map Prod.fst, rowmap := some (cells.map Prod.snd), nNodes := nNodes,
    nEdges := validEdges, sorted := sort }

namespace Csr

def cells (c : Csr) : List (ℤ × ℤ) := c.targets.zip (c.rowmap.getD [])

def neighbors (c : Csr) (node : ℕ) : List (ℤ × ℤ) :=
  slice c.cells (c.offsets.getD node 0) (c.offsets.getD (node + 1) 0)

def triples (c : Csr) : List (ℤ × ℤ × ℤ) :=
  (List.range c.nNodes).flatMap fun g => (c.neighbors g).map fun t => ((g : ℤ), t)

end Csr

section

variable {k₁ k₂ : EdgePair → ℤ} {a b c : EdgePair}

lemma edgeLe_trans (h : edgeLe k₁ k₂ a b = true) (h' : edgeLe k₁ k₂ b c = true) : edgeLe k₁ k₂ a c = true := by
  simp only [edgeLe] at h h' ⊢
  split_ifs at h h' ⊢ <;> simp only [decide_eq_true_eq] at h h' ⊢ <;> omega

lemma edgeLe_total (a b : EdgePair) : edgeLe k₁ k₂ a b || edgeLe k₁ k₂ b a := by
  simp only [edgeLe, Bool.or_eq_true]
  split_ifs <;> simp only [decide_eq_true_eq] <;> omega

lemma key_le_of_edgeLe (h : edgeLe k₁ k₂ a b = true) : k₁ a ≤ k₁ b := by
  simp only [edgeLe] at h
  split_ifs at h with h₁ <;> simp only [decide_eq_true_eq] at h <;> omega

lemma mergeSort_keys (l : List EdgePair) : (l.mergeSort (edgeLe k₁ k₂)).Pairwise fun a b => k₁ a ≤ k₁ b := by
  have h : (l.mergeSort (edgeLe k₁ k₂)).Pairwise fun a b => edgeLe k₁ k₂ a b = true :=
    @pairwise_mergeSort _ (edgeLe k₁ k₂) (fun _ _ _ => edgeLe_trans) edgeLe_total l
  exact h.imp key_le_of_edgeLe

end

section

variable {isReverse : Bool} {n : ℕ} {pairs : List EdgePair} {g : ℕ}

lemma slot_eq_some {e : EdgePair} : e.slot isReverse n = some g ↔ e.key isReverse = g ∧ g < n := by
  simp only [EdgePair.slot]
  split_ifs with h
  · rw [some.injEq]
    omega
  · constructor
    · nofun
    · omega

def listed (isReverse : Bool) (n : ℕ) (pairs : List EdgePair) (g : ℕ) : List (ℤ × ℤ) :=
  (pairs.filter fun e => e.slot isReverse n = some g).map fun e => (e.val isReverse, e.row)

def kept (isReverse : Bool) (n : ℕ) (pairs : List EdgePair) : List EdgePair :=
  pairs.filter fun e => (e.slot isReverse n).isSome

lemma length_listed (pairs : List EdgePair) (g : ℕ) :
    (listed isReverse n pairs g).length = (pairs.map (EdgePair.slot isReverse n)).count (some g) := by
  rw [listed, length_map, ← countP_eq_length_filter, count, countP_map]
  congr 1
  ext e
  exact (Bool.beq_eq_decide_eq _ _).symm

lemma length_kept (pairs : List EdgePair) :
    (kept isReverse n pairs).length = (pairs.map (EdgePair.slot isReverse n)).countP Option.isSome := by
  rw [kept, ← countP_eq_length_filter, countP_map]
  rfl

lemma offsets_spec (pairs : List EdgePair) : let slots := pairs.map (EdgePair.slot isReverse n)
    let off := (range n).foldl sumStep (slots.foldl countStep (replicate (n + 1) 0))
    off.length = n + 1 ∧ ∀ g ≤ n, off.getD g 0 = sumTo (fun g => (listed isReverse n pairs g).length) g := by
  intro slots off
  have hslots : ∀ g, some g ∈ slots → g < n := by
    intro g hg
    obtain ⟨e, -, he⟩ := mem_map.mp hg
    exact (slot_eq_some.mp he).2
  obtain ⟨h₁, h₂, h₃⟩ := countPass_spec (replicate (n + 1) 0) (by simp) hslots
  have hzero : ∀ g, (replicate (n + 1) 0).getD g 0 = 0 := by
    intro g
    simp [getElem?_replicate]
    split_ifs <;> rfl
  simp only [hzero, Nat.zero_add] at h₂ h₃
  obtain ⟨h₄, h₅, -⟩ := sumPass_spec h₁ h₂ h₃ le_rfl
  refine ⟨h₄, fun g hg => ?_⟩
  rw [h₅ g hg]
  exact sumTo_congr fun g _ => (length_listed pairs g).symm

lemma listed_append (p q : List EdgePair) :
    listed isReverse n (p ++ q) g = listed isReverse n p g ++ listed isReverse n q g := by
  simp [listed]

lemma listed_eq_nil (pairs : List EdgePair) (h : ∀ e ∈ pairs, e.slot isReverse n ≠ some g) :
    listed isReverse n pairs g = [] := by
  rw [listed, filter_eq_nil_iff.mpr (by simpa using h), map_nil]

lemma kept_append (p q : List EdgePair) :
    kept isReverse n (p ++ q) = kept isReverse n p ++ kept isReverse n q := by
  simp [kept]

lemma fill_spec (hs : pairs.Pairwise fun a b => a.key isReverse ≤ b.key isReverse) {off : List ℕ}
    {old : List (ℤ × ℤ)}
    (hoff : off.length = n + 1) (hsum : ∀ g ≤ n,
      off.getD g 0 = sumTo (fun g => (listed isReverse n pairs g).length) g)
    (hold : old.length = (kept isReverse n pairs).length) :
    (pairs.foldl (fillEdge isReverse n) ⟨off, old⟩).cells = (kept isReverse n pairs).map fun e =>
    (e.val isReverse, e.row) := by
  have hrun : ∀ suf pre st, pairs = pre ++ suf → st.pos.length = n + 1 →
      (∀ g < n, st.pos.getD g 0 = off.getD g 0 + (listed isReverse n pre g).length) →
      st.cells = ((kept isReverse n pre).map fun e => (e.val isReverse, e.row)) ++
        old.drop (kept isReverse n pre).length →
      (suf.foldl (fillEdge isReverse n) st).cells =
        (kept isReverse n pairs).map fun e => (e.val isReverse, e.row) := by
    intro suf
    induction suf with
    | nil =>
      intro pre st hp _ _ hc
      rw [append_nil] at hp
      rw [foldl_nil, hc, ← hp, ← hold, drop_length, append_nil]
    | cons e suf ih =>
      intro pre st hp hlen hpos hc
      have hnext : pairs = (pre ++ [e]) ++ suf := by rw [hp, append_assoc, singleton_append]
      rw [foldl_cons]
      cases he : e.slot isReverse n with
      | none =>
        have hsame : fillEdge isReverse n st e = st := by simp only [fillEdge, he]
        have hkept : kept isReverse n (pre ++ [e]) = kept isReverse n pre := by simp [kept, he]
        refine ih (pre ++ [e]) _ hnext (by rw [hsame, hlen]) (fun g hg => ?_) ?_
        · rw [hsame, hpos g hg, listed_append, listed_eq_nil [e] (by simp [he]), append_nil]
        · rw [hsame, hkept, hc]
      | some g =>
        have hg := (slot_eq_some.mp he).2
        have hkept : kept isReverse n (pre ++ [e]) = kept isReverse n pre ++ [e] := by simp [kept, he]
        rw [hp, pairwise_append, pairwise_cons] at hs
        obtain ⟨-, ⟨hsuf, -⟩, hcross⟩ := hs
        -- the edges before this one have keys up to its own, the later ones keys from it on
        have hbefore : ∀ k, some k ∈ pre.map (EdgePair.slot isReverse n) → k < g + 1 := by
          intro k hk
          obtain ⟨d, hd, hdk⟩ := mem_map.mp hk
          have := hcross d hd e mem_cons_self
          have h₁ := (slot_eq_some.mp hdk).1
          have h₂ := (slot_eq_some.mp he).1
          omega
        have hafter : ∀ k < g, listed isReverse n pairs k = listed isReverse n pre k := by
          intro k hk
          rw [hp, listed_append, listed_eq_nil (e :: suf), append_nil]
          intro d hd hdk
          have h₁ := (slot_eq_some.mp hdk).1
          have h₂ := (slot_eq_some.mp he).1
          rcases mem_cons.mp hd with rfl | hd
          · omega
          · have := hsuf d hd
            omega
        have hat : st.pos.getD g 0 = (kept isReverse n pre).length := by
          have hcount : sumTo (fun k => (listed isReverse n pre k).length) (g + 1) =
              (kept isReverse n pre).length := by
            rw [length_kept, ← sumTo_count hbefore]
            exact sumTo_congr fun k _ => length_listed pre k
          rw [hpos g hg, hsum g hg.le, ← hcount, sumTo_succ]
          congr 1
          exact sumTo_congr fun k hk => by rw [hafter k hk]
        have hroom : (kept isReverse n pre).length < old.length := by
          rw [hold, hnext, kept_append, hkept, length_append, length_append, length_singleton]
          omega
        refine ih (pre ++ [e]) _ hnext ?_ (fun k hk => ?_) ?_
        · simp [fillEdge, he, hlen]
        · simp only [fillEdge, he]
          rw [listed_append, length_append]
          by_cases hkg : k = g
          · subst hkg
            rw [getD_modify_self _ _ (by omega), hpos k hk, listed]
            simp [listed, he]
            omega
          · rw [getD_modify_ne _ _ (Ne.symm hkg), hpos k hk, listed_eq_nil [e]]
            · rfl
            · intro d hd hdk
              rw [mem_singleton.mp hd, he, some.injEq] at hdk
              exact hkg hdk.symm
        · simp only [fillEdge, he, hat, hc, hkept, map_append, length_append, length_singleton]
          have := set_append_drop ((kept isReverse n pre).map fun e => (e.val isReverse, e.row)) old
            (e.val isReverse, e.row) (by simpa using hroom)
          simpa using this
  refine hrun pairs [] ⟨off, old⟩ rfl hoff (fun g _ => by simp [listed]) (by simp [kept])

lemma flatMap_slots {α : Type} (f : EdgePair → α)
    (hs : pairs.Pairwise fun a b => a.key isReverse ≤ b.key isReverse) :
    (List.range n).flatMap (fun g => (pairs.filter fun e => e.slot isReverse n = some g).map f) =
      (kept isReverse n pairs).map f := by
  let Q := pairs.filterMap fun e => (e.slot isReverse n).map fun g => (g, [f e])
  have hkeyed : ∀ g, keyed Q g = (pairs.filter fun e => e.slot isReverse n = some g).map f := by
    intro g
    simp only [Q, keyed]
    clear hs
    induction pairs with
    | nil => rfl
    | cons e l ih =>
      cases he : e.slot isReverse n with
      | none => simpa [filterMap_cons, he] using ih
      | some k =>
        by_cases hk : k = g
        · subst hk
          simpa [filterMap_cons, he] using ih
        · simpa [filterMap_cons, he, hk] using ih
  have hflat : Q.flatMap Prod.snd = (kept isReverse n pairs).map f := by
    simp only [Q, kept]
    clear hs hkeyed
    induction pairs with
    | nil => rfl
    | cons e l ih =>
      cases he : e.slot isReverse n with
      | none => simpa [filterMap_cons, he] using ih
      | some k => simpa [filterMap_cons, he] using ih
  have hsorted : Q.Pairwise fun p q => p.1 ≤ q.1 := by
    refine List.Pairwise.filterMap _ (fun a b hab p hp q hq => ?_) hs
    obtain ⟨i, hi, rfl⟩ := map_eq_some_iff.mp hp
    obtain ⟨j, hj, rfl⟩ := map_eq_some_iff.mp hq
    have h₁ := (slot_eq_some.mp hi).1
    have h₂ := (slot_eq_some.mp hj).1
    simp only
    omega
  have hlt : ∀ q ∈ Q, q.1 < n := by
    intro q hq
    obtain ⟨e, -, he⟩ := mem_filterMap.mp hq
    obtain ⟨i, hi, rfl⟩ := map_eq_some_iff.mp he
    exact (slot_eq_some.mp hi).2
  rw [← hflat, ← flatMap_keyed hsorted hlt]
  exact (flatMap_congr fun g _ => hkeyed g).symm

lemma flatMap_listed (hs : pairs.Pairwise fun a b => a.key isReverse ≤ b.key isReverse) :
    (List.range n).flatMap (listed isReverse n pairs) = (kept isReverse n pairs).map fun e =>
    (e.val isReverse, e.row) :=
  flatMap_slots _ hs

end

section

variable {n : ℕ} {L : ℕ → List (ℤ × ℤ)} {offsets : List ℕ}

lemma insertTarget_perm (l : List (ℤ × ℤ)) (c : ℤ × ℤ) : (insertTarget l c).Perm (c :: l) := by
  have h : l.rdropWhile (fun d => c.1 < d.1) ++ l.rtakeWhile (fun d => c.1 < d.1) = l :=
    rdropWhile_append_rtakeWhile
  rw [insertTarget]
  refine perm_middle.trans (List.Perm.cons c ?_)
  rw [h]

lemma insertTarget_sorted (h : l.Pairwise fun a b => a.1 ≤ b.1) (c : ℤ × ℤ) :
    (insertTarget l c).Pairwise fun a b => a.1 ≤ b.1 := by
  have happ : l.rdropWhile (fun d => c.1 < d.1) ++ l.rtakeWhile (fun d => c.1 < d.1) = l :=
    rdropWhile_append_rtakeWhile
  rw [← happ, pairwise_append] at h
  obtain ⟨hdrop, htake, hcross⟩ := h
  have hgreater : ∀ d ∈ l.rtakeWhile (fun d => c.1 < d.1), c.1 ≤ d.1 := by
    intro d hd
    have := mem_rtakeWhile_imp hd
    exact (of_decide_eq_true this).le
  -- the loop stops at a target that is not greater, and the ones before it are below that one
  have hless : ∀ d ∈ l.rdropWhile (fun d => c.1 < d.1), d.1 ≤ c.1 := by
    intro d hd
    have hne := ne_nil_of_mem hd
    have hlast := rdropWhile_last_not _ l hne
    have hle : d.1 ≤ ((l.rdropWhile fun d => c.1 < d.1).getLast hne).1 := by
      rcases mem_append.mp (dropLast_append_getLast hne ▸ hd) with hd | hd
      · have hp := hdrop
        rw [← dropLast_append_getLast hne, pairwise_append] at hp
        exact hp.2.2 d hd _ (mem_singleton_self _)
      · rw [mem_singleton.mp hd]
    have : ¬c.1 < ((l.rdropWhile fun d => c.1 < d.1).getLast hne).1 := by simpa using hlast
    omega
  rw [insertTarget, pairwise_append]
  refine ⟨hdrop, pairwise_cons.mpr ⟨hgreater, htake⟩, fun a ha b hb => ?_⟩
  rcases mem_cons.mp hb with rfl | hb
  · exact hless a ha
  · exact hcross a ha b hb

lemma foldl_insertTarget_perm (l acc : List (ℤ × ℤ)) : (l.foldl insertTarget acc).Perm (acc ++ l) := by
  induction l generalizing acc with
  | nil => simp
  | cons c l ih =>
    rw [foldl_cons]
    refine (ih _).trans (((insertTarget_perm acc c).append_right l).trans ?_)
    rw [cons_append]
    exact perm_middle.symm

lemma sortTargets_perm (l : List (ℤ × ℤ)) : (sortTargets l).Perm l := foldl_insertTarget_perm l []

lemma sortTargets_sorted (l : List (ℤ × ℤ)) : (sortTargets l).Pairwise fun a b => a.1 ≤ b.1 := by
  have hfold : ∀ acc : List (ℤ × ℤ), acc.Pairwise (fun a b => a.1 ≤ b.1) →
      (l.foldl insertTarget acc).Pairwise fun a b => a.1 ≤ b.1 := by
    induction l with
    | nil => exact fun acc h => h
    | cons c l ih => exact fun acc h => ih _ (insertTarget_sorted h c)
  exact hfold [] List.Pairwise.nil

lemma sortTargets_short (h : l.length ≤ 1) : sortTargets l = l := by
  match l with
  | [] => rfl
  | [c] => rfl
  | _ :: _ :: _ => simp at h

lemma csrSort_flatMap (hoff : ∀ g ≤ n, offsets.getD g 0 = sumTo (fun g => (L g).length) g) :
    csrSortAdjacencyLists n offsets ((List.range n).flatMap L) = (List.range n).flatMap fun g =>
      sortTargets (L g) := by
  have hlen : (fun g => (sortTargets (L g)).length) = fun g => (L g).length := by
    funext g
    exact (sortTargets_perm (L g)).length_eq
  have hrun : ∀ k ≤ n, (range k).foldl (sortNode offsets) ((range n).flatMap L) =
      ((range k).flatMap fun g => sortTargets (L g)) ++
        ((range n).flatMap L).drop (sumTo (fun g => (L g).length) k) := by
    intro k hk
    induction k with
    | zero => simp
    | succ k ih =>
      have hdone : ((range k).flatMap fun g => sortTargets (L g)).length = sumTo (fun g => (L g).length) k := by
        rw [length_flatMap_range, hlen]
      have hslice : slice (((range k).flatMap fun g => sortTargets (L g)) ++
          ((range n).flatMap L).drop (sumTo (fun g => (L g).length) k))
          (sumTo (fun g => (L g).length) k) (sumTo (fun g => (L g).length) (k + 1)) = L k := by
        have h := slice_flatMap L (show k < n by omega)
        rw [slice] at h ⊢
        rwa [← hdone, drop_left, hdone]
      have hrest : sumTo (fun g => (L g).length) (k + 1) - sumTo (fun g => (L g).length) k = (L k).length := by
        rw [sumTo_succ, Nat.add_sub_cancel_left]
      rw [range_succ, foldl_append, ih (by omega), foldl_cons, foldl_nil, sortNode,
        hoff k (by omega), hoff (k + 1) hk, hslice, hrest, flatMap_append, flatMap_singleton]
      have hwrite : writeAt (((range k).flatMap fun g => sortTargets (L g)) ++
          ((range n).flatMap L).drop (sumTo (fun g => (L g).length) k))
          (sumTo (fun g => (L g).length) k) (sortTargets (L k)) =
          ((range k).flatMap fun g => sortTargets (L g)) ++ sortTargets (L k) ++
            ((range n).flatMap L).drop (sumTo (fun g => (L g).length) (k + 1)) := by
        rw [← hdone, writeAt_append_drop, hdone, sumTo_succ, (sortTargets_perm (L k)).length_eq]
      split_ifs with hshort
      · rw [sortTargets_short hshort] at hwrite ⊢
        rw [← hwrite]
        have hd : ((range n).flatMap L).drop (sumTo (fun g => (L g).length) k) =
            L k ++ ((range n).flatMap L).drop (sumTo (fun g => (L g).length) (k + 1)) := by
          have h := slice_flatMap L (show k < n by omega)
          rw [slice, hrest] at h
          conv_lhs => rw [← take_append_drop (L k).length (((range n).flatMap L).drop _), h]
          rw [drop_drop, sumTo_succ]
        rw [hwrite, append_assoc, ← hd]
      · exact hwrite
  have h := hrun n le_rfl
  rwa [← length_flatMap_range, drop_length, append_nil] at h

end

section

variable {isReverse sort : Bool} {n : ℕ} {pairs : List EdgePair} {g : ℕ}

def adjacency (isReverse sort : Bool) (n : ℕ) (pairs : List EdgePair) (g : ℕ) : List (ℤ × ℤ) :=
  if sort then sortTargets (listed isReverse n pairs g) else listed isReverse n pairs g

lemma adjacency_perm (g : ℕ) : (adjacency isReverse sort n pairs g).Perm (listed isReverse n pairs g) := by
  rw [adjacency]
  split_ifs
  · exact sortTargets_perm _
  · exact List.Perm.refl _

structure Built (isReverse sort : Bool) (pairs : List EdgePair) (n : ℕ) (c : Csr) : Prop where
  nNodes : c.nNodes = n
  offsets_length : c.offsets.length = n + 1
  offsets : ∀ g ≤ n, c.offsets.getD g 0 = sumTo (fun g => (adjacency isReverse sort n pairs g).length) g
  cells : c.cells = (List.range n).flatMap (adjacency isReverse sort n pairs)
  targets : c.targets = c.cells.map Prod.fst
  rowmap : c.rowmap = some (c.cells.map Prod.snd)
  nEdges : c.nEdges = c.cells.length
  sorted : c.sorted = sort

lemma csrBuildFromPairs_built (hs : pairs.Pairwise fun a b => a.key isReverse ≤ b.key isReverse) :
    Built isReverse sort pairs n (csrBuildFromPairs pairs n isReverse sort) := by
  obtain ⟨hlen, hoff⟩ := @offsets_spec isReverse n pairs
  have hroom : (List.replicate ((pairs.map (EdgePair.slot isReverse n)).countP Option.isSome)
    ((0, 0) : ℤ × ℤ)).length = (kept isReverse n pairs).length := by rw [length_replicate, length_kept]
  have hfill := fill_spec hs hlen hoff hroom
  rw [← flatMap_listed hs] at hfill
  have hlens : (fun g => (adjacency isReverse sort n pairs g).length) = fun g =>
      (listed isReverse n pairs g).length := by
    funext g
    exact (adjacency_perm g).length_eq
  have hcells : (csrBuildFromPairs pairs n isReverse sort).cells =
      (List.range n).flatMap (adjacency isReverse sort n pairs) := by
    simp only [Csr.cells, csrBuildFromPairs, getD_some, zip_map', List.map_id', Prod.mk.eta, hfill]
    cases sort with
    | false => rfl
    | true => exact csrSort_flatMap hoff
  refine ⟨rfl, hlen, fun g hg => ?_, hcells, ?_, ?_, ?_, rfl⟩
  · rw [hlens]
    exact hoff g hg
  · simp [Csr.cells, csrBuildFromPairs, zip_map']
  · simp [Csr.cells, csrBuildFromPairs, zip_map']
  · rw [hcells, length_flatMap_range, hlens]
    show (pairs.map (EdgePair.slot isReverse n)).countP Option.isSome = _
    rw [← length_kept, ← length_map fun e : EdgePair => (e.val isReverse, e.row), ← flatMap_listed hs,
      length_flatMap_range]

lemma Built.neighbors {c : Csr} (h : Built isReverse sort pairs n c) (hg : g < n) :
    c.neighbors g = adjacency isReverse sort n pairs g := by
  rw [Csr.neighbors, h.cells, h.offsets g hg.le, h.offsets (g + 1) hg]
  exact slice_flatMap _ hg

lemma Built.triples {c : Csr} (h : Built isReverse sort pairs n c)
    (hs : pairs.Pairwise fun a b => a.key isReverse ≤ b.key isReverse) :
    c.triples.Perm ((kept isReverse n pairs).map fun e => (e.key isReverse, e.val isReverse, e.row)) := by
  rw [← flatMap_slots _ hs, Csr.triples, h.nNodes]
  refine List.Perm.flatMap_left _ fun g hg => ?_
  rw [h.neighbors (mem_range.mp hg)]
  refine ((adjacency_perm g).map _).trans ?_
  rw [listed, List.map_map]
  refine List.Perm.of_eq (map_congr_left fun e he => ?_)
  have hk := (slot_eq_some.mp (of_decide_eq_true (mem_filter.mp he).2)).1
  simp only [Function.comp_apply, hk]

lemma Built.mem_cells {c : Csr} (h : Built isReverse sort pairs n c) {d : ℤ × ℤ} :
    d ∈ c.cells ↔ ∃ e ∈ pairs, (0 ≤ e.key isReverse ∧ e.key isReverse < n) ∧ (e.val isReverse, e.row) = d := by
  rw [h.cells]
  simp only [mem_flatMap, mem_range]
  constructor
  · rintro ⟨g, hg, hd⟩
    obtain ⟨e, he, rfl⟩ := mem_map.mp ((adjacency_perm g).mem_iff.mp hd)
    obtain ⟨hmem, hslot⟩ := mem_filter.mp he
    have hk := (slot_eq_some.mp (of_decide_eq_true hslot)).1
    exact ⟨e, hmem, by omega, rfl⟩
  · rintro ⟨e, he, hr, rfl⟩
    have hslot : e.slot isReverse n = some (e.key isReverse).toNat := slot_eq_some.mpr (by omega)
    refine ⟨(e.key isReverse).toNat, by omega, ?_⟩
    apply (adjacency_perm _).mem_iff.mpr
    exact mem_map.mpr ⟨e, mem_filter.mpr ⟨he, by simpa using hslot⟩, rfl⟩

lemma Built.mem_targets {c : Csr} (h : Built isReverse sort pairs n c) {t : ℤ} :
    t ∈ c.targets ↔ ∃ e ∈ pairs, (0 ≤ e.key isReverse ∧ e.key isReverse < n) ∧ e.val isReverse = t := by
  rw [h.targets, List.mem_map]
  constructor
  · rintro ⟨d, hd, rfl⟩
    obtain ⟨e, he, hr, rfl⟩ := h.mem_cells.mp hd
    exact ⟨e, he, hr, rfl⟩
  · rintro ⟨e, he, hr, rfl⟩
    exact ⟨_, h.mem_cells.mpr ⟨e, he, hr, rfl⟩, rfl⟩

end

end Rayforce.Graph
