import Rayforce.Graph.Square

/-! `exec_dfs`. -/

namespace Rayforce.Graph

open Library.Loops Library.Levels List Option Function

structure DfsRow where
  node : ℤ
  depth : ℕ
  parent : ℤ
  deriving DecidableEq

structure DfsState where
  stack : List DfsRow
  visited : Arr Bool
  rows : List DfsRow

def dfsPush (cap : ℕ) (v : ℤ) (d : ℕ) (st : DfsState) (u : ℤ) : Option DfsState :=
  (st.visited.get? u).bind fun seen =>
    if seen then some st
    else if st.stack.length < cap then some { st with stack := ⟨u, d + 1, v⟩ :: st.stack } else none

def dfsStep (rel : Rel) (n cap maxDepth : ℕ) (st : DfsState) : Option DfsState :=
  match st.stack with
  | [] => none
  | top :: stack =>
    (st.visited.get? top.node).bind fun seen =>
      if seen then some { st with stack := stack }
      else
        (st.visited.set? top.node true).bind fun visited =>
          (put n st.rows top).bind fun rows =>
            if top.depth < maxDepth then (rel.fwd.targetsOf top.node).reverse.foldlM
              (dfsPush cap top.node top.depth) ⟨stack, visited, rows⟩
            else some ⟨stack, visited, rows⟩

def execDfs (rel : Rel) (start : ℤ) (maxDepth : ℕ) : Option (Except GraphError (List DfsRow)) :=
  let n := rel.fwd.nNodes
  let m := rel.fwd.nEdges
  if n = 0 then some (.error (.noNodes n))
  else if start < 0 ∨ n ≤ start then some (.error (.nodeRange (n - 1) start))
  else
    let cap := if m > n then m + 1 else n + 1
    (whileLoop (fun st => !st.stack.isEmpty) (dfsStep rel n cap maxDepth) (m + 2)
      ⟨[⟨start, 0, -1⟩], ⟨n, fun _ => false⟩, []⟩).map fun st => .ok st.rows

section

variable {rel : Rel} {n start maxDepth cap : ℕ} {V : List ℕ} {st : DfsState} {r : DfsRow}

def FoundFrom (rel : Rel) (maxDepth : ℕ) (rows : List DfsRow) (r : DfsRow) : Prop :=
  ∃ p ∈ rows, r.parent = p.node ∧ r.depth = p.depth + 1 ∧ r.depth ≤ maxDepth ∧ ∃ u v :
    ℕ, p.node = u ∧ r.node = v ∧ rel.Edge u v

lemma FoundFrom.mono {rows rows' : List DfsRow} (hsub : rows ⊆ rows') (h : FoundFrom rel maxDepth rows r) :
    FoundFrom rel maxDepth rows' r := by
  obtain ⟨p, hp, hrest⟩ := h
  exact ⟨p, hsub hp, hrest⟩

def edgesLeft (rel : Rel) (n : ℕ) (V : List ℕ) : ℕ := ∑ v ∈ (Finset.range n).filter (· ∉ V), (rel.outs v).length

structure Searching (rel : Rel) (n start maxDepth : ℕ) (V : List ℕ) (st : DfsState) : Prop where
  rows : st.rows.map DfsRow.node = V.map Nat.cast
  nodup : V.Nodup
  lt : ∀ v ∈ V, v < n
  size : st.visited.size = n
  cell : ∀ v < n, st.visited.cell v = decide (v ∈ V)
  first : st.rows = [] → st.stack = [⟨start, 0, -1⟩]
  nodes : ∀ r ∈ st.stack, ∃ v < n, r.node = (v : ℕ)
  tree : ∀ i r, st.rows[i]? = some r → i = 0 ∧ r = ⟨start, 0, -1⟩ ∨ FoundFrom rel maxDepth (st.rows.take i) r
  stack : ∀ r ∈ st.stack, st.rows ≠ [] → FoundFrom rel maxDepth st.rows r
  done : ∀ r ∈ st.rows, r.depth < maxDepth → ∀ u, rel.Edge r.node.toNat u → u ∈ V ∨ ∃ s ∈ st.stack,
    s.node = (u : ℕ)
  room : st.stack.length + edgesLeft rel n V ≤ rel.fwd.nEdges + 1

lemma edgesLeft_nil (h : Square rel n) : edgesLeft rel n [] = rel.fwd.nEdges := by
  have hlen := congrArg length h.fwd.flatMap_targetsOf
  rw [length_flatMap, h.fwd.targets_length] at hlen
  rw [← hlen, edgesLeft, Finset.sum_filter_of_ne fun _ _ _ =>
    not_mem_nil, Finset.sum_eq_multiset_sum, Finset.range_val]
  simp [Multiset.range, Rel.outs]

lemma edgesLeft_cons {v : ℕ} (hv : v < n) (hnew : v ∉ V) :
    edgesLeft rel n V = (rel.outs v).length + edgesLeft rel n (V ++ [v]) := by
  have hmem : v ∈ (Finset.range n).filter (· ∉ V) := Finset.mem_filter.mpr ⟨Finset.mem_range.mpr hv, hnew⟩
  have herase : ((Finset.range n).filter (· ∉ V)).erase v = (Finset.range n).filter (· ∉ V ++ [v]) := by
    ext u
    simp only [Finset.mem_erase, Finset.mem_filter, mem_append, mem_singleton]
    tauto
  rw [edgesLeft, ← Finset.add_sum_erase _ _ hmem, herase, edgesLeft]

lemma dfsPush_all {w : Arr Bool} {R S : List DfsRow} {v d : ℕ} {l : List ℕ} (hsize : w.size = n)
    (hl : ∀ u ∈ l, u < n) (hroom : S.length + l.length ≤ cap) :
    ∃ new : List DfsRow, (l.map Nat.cast).foldlM (dfsPush cap (v : ℕ) d) ⟨S, w, R⟩ = some ⟨new ++ S, w, R⟩ ∧
      new.length ≤ l.length ∧ (∀ r ∈ new, ∃ u ∈ l, r = ⟨u, d + 1, v⟩) ∧ ∀ u ∈ l, w.cell u = true ∨ ∃ r ∈ new,
        r.node = (u : ℕ) := by
  rw [foldlM_map]
  obtain ⟨st', hrun, new, rfl, hlen, hnew, hall⟩ :=
    foldlM_inv (f := fun st (u : ℕ) => dfsPush cap (v : ℕ) d st u) (l := l) (s := ⟨S, w, R⟩)
    (I := fun pre st' => ∃ new : List DfsRow, st' = ⟨new ++ S, w, R⟩ ∧ new.length ≤ pre.length ∧
      (∀ r ∈ new, ∃ u ∈ l, r = ⟨u, d + 1, v⟩) ∧ ∀ u ∈ pre, w.cell u = true ∨ ∃ r ∈ new, r.node = (u : ℕ))
    ⟨[], rfl, le_rfl, fun r hr => absurd hr not_mem_nil, fun u hu => absurd hu not_mem_nil⟩ (by
      rintro pre u post hpre st' ⟨new, rfl, hlen, hnew, hall⟩
      have hu : u ∈ l := by rw [hpre]; simp
      have hget := Arr.get?_natCast (a := w) (i := u) (by rw [hsize]; exact hl u hu)
      by_cases hseen : w.cell u = true
      · refine ⟨_, by simp only [dfsPush, hget, bind_some, if_pos hseen], new, rfl,
          by rw [length_append]; omega, hnew, ?_⟩
        exact forall_mem_append.mpr ⟨hall, forall_mem_singleton.mpr (.inl hseen)⟩
      · have hlt : (new ++ S).length < cap := by
          have := congrArg length hpre
          rw [length_append, length_cons] at this
          rw [length_append]
          omega
        refine ⟨⟨(⟨u, d + 1, v⟩ :: new) ++ S, w, R⟩,
          by simp only [dfsPush, hget, bind_some, if_neg hseen, if_pos hlt, cons_append],
          ⟨u, d + 1, v⟩ :: new, rfl, ?_, forall_mem_cons.mpr ⟨⟨u, hu, rfl⟩, hnew⟩, ?_⟩
        · rw [length_cons, length_append, length_singleton]
          omega
        refine forall_mem_append.mpr ⟨fun x hx => (hall x hx).imp_right fun ⟨r, hr, hrx⟩ =>
          ⟨r, mem_cons_of_mem _ hr, hrx⟩, ?_⟩
        exact forall_mem_singleton.mpr (.inr ⟨_, mem_cons_self, rfl⟩))
  exact ⟨new, hrun, hlen, hnew, hall⟩

lemma Searching.pop (hs : Searching rel n start maxDepth V st) {top : DfsRow} {stack : List DfsRow}
    (hstack : st.stack = top :: stack) {v : ℕ}
    (htop : top.node = (v : ℕ)) (hv : v ∈ V) : Searching rel n start maxDepth V { st with stack := stack } := by
  have hne : st.rows ≠ [] := by
    intro hno
    have hrows := hs.rows
    rw [hno, map_nil] at hrows
    rw [map_eq_nil_iff.mp hrows.symm] at hv
    exact not_mem_nil hv
  have hsub : ∀ r ∈ stack, r ∈ st.stack := fun r hr => by rw [hstack]; exact mem_cons_of_mem _ hr
  refine ⟨hs.rows, hs.nodup, hs.lt, hs.size, hs.cell, fun hno => absurd hno hne, fun r hr =>
    hs.nodes r (hsub r hr), hs.tree, fun r hr => hs.stack r (hsub r hr), fun r hr hd u hu => ?_, ?_⟩
  · refine (hs.done r hr hd u hu).elim .inl ?_
    rintro ⟨s, hs', hsu⟩
    rw [hstack, mem_cons] at hs'
    obtain rfl | hs' := hs'
    · rw [htop, Int.ofNat_inj] at hsu
      exact .inl (hsu ▸ hv)
    · exact .inr ⟨s, hs', hsu⟩
  · have := hs.room
    rw [hstack, length_cons] at this
    simp only
    omega

lemma Searching.visit (hr : TargetsInRange rel n) (hs : Searching rel n start maxDepth V st) {top : DfsRow}
    {stack : List DfsRow}
    (hstack : st.stack = top :: stack) {v : ℕ} (hv : v < n) (htop : top.node = (v : ℕ)) (hnew : v ∉ V)
    {visited : Arr Bool} (hvisited : visited = ⟨st.visited.size, update st.visited.cell v true⟩) {N : List DfsRow}
    (hlen : N.length ≤ (rel.outs v).length)
    (hchild : ∀ r ∈ N, ∃ u, rel.Edge v u ∧ top.depth < maxDepth ∧ r = ⟨u, top.depth + 1, v⟩)
    (hall : top.depth < maxDepth → ∀ u, rel.Edge v u → visited.cell u = true ∨ ∃ r ∈ N, r.node = (u : ℕ)) :
    Searching rel n start maxDepth (V ++ [v]) ⟨N ++ stack, visited, st.rows ++ [top]⟩ := by
  have hcell : ∀ u < n, visited.cell u = decide (u ∈ V ++ [v]) := by
    intro u hu
    rw [hvisited]
    by_cases huv : u = v
    · simp [huv]
    · simp [hs.cell u hu, huv]
  have hsub : ∀ r ∈ stack, r ∈ st.stack := fun r hr => by rw [hstack]; exact mem_cons_of_mem _ hr
  refine ⟨?_, ?_, ?_, ?_, hcell, fun hno => absurd hno (by simp), ?_, ?_, ?_, ?_, ?_⟩
  · rw [map_append, hs.rows, map_append, map_singleton, map_singleton, htop]
  · exact nodup_append.mpr ⟨hs.nodup, nodup_singleton v, fun a ha b hb hab =>
      hnew (by rwa [← mem_singleton.mp hb, ← hab])⟩
  · exact forall_mem_append.mpr ⟨hs.lt, forall_mem_singleton.mpr hv⟩
  · rw [hvisited]
    exact hs.size
  · refine forall_mem_append.mpr ⟨fun r hnew => ?_, fun r hr => hs.nodes r (hsub r hr)⟩
    obtain ⟨u, hu, -, rfl⟩ := hchild r hnew
    exact ⟨u, outs_lt hr hu, rfl⟩
  · intro i r hi
    by_cases hlt : i < st.rows.length
    · rw [getElem?_append_left hlt] at hi
      rw [take_append_of_le_length hlt.le]
      exact hs.tree i r hi
    · obtain ⟨rfl, rfl⟩ : i = st.rows.length ∧ r = top := by
        have := (List.getElem?_eq_some_iff.mp hi).1
        simp only [length_append, length_singleton] at this
        obtain rfl : i = st.rows.length := by omega
        simpa using hi.symm
      rw [take_left]
      by_cases hne : st.rows = []
      · rw [hs.first hne] at hstack
        exact .inl ⟨by rw [hne]; rfl, (cons_eq_cons.mp hstack).1.symm⟩
      · exact .inr (hs.stack r (by rw [hstack]; exact mem_cons_self) hne)
  · intro r hr _
    obtain hr | hr := mem_append.mp hr
    · obtain ⟨u, hu, hd, rfl⟩ := hchild r hr
      exact ⟨top, by simp, htop.symm, rfl, hd, v, u, htop, rfl, hu⟩
    · by_cases hne : st.rows = []
      · rw [hs.first hne] at hstack
        rw [← (cons_eq_cons.mp hstack).2] at hr
        exact absurd hr not_mem_nil
      · exact (hs.stack r (hsub r hr) hne).mono (subset_append_left _ _)
  · intro r hmem hd u hu
    obtain hmem | hmem := mem_append.mp hmem
    · obtain huV | ⟨s, hs', hsu⟩ := hs.done r hmem hd u hu
      · exact .inl (mem_append_left _ huV)
      · rw [hstack, mem_cons] at hs'
        obtain rfl | hs' := hs'
        · rw [htop, Int.ofNat_inj] at hsu
          exact .inl (by rw [hsu]; simp)
        · exact .inr ⟨s, mem_append_right _ hs', hsu⟩
    · rw [mem_singleton.mp hmem] at hd hu
      rw [htop, Int.toNat_natCast] at hu
      obtain hseen | ⟨s, hs', hsu⟩ := hall hd u hu
      · rw [hcell u (outs_lt hr hu)] at hseen
        exact .inl (of_decide_eq_true hseen)
      · exact .inr ⟨s, mem_append_left _ hs', hsu⟩
  · have hroom := hs.room
    rw [hstack, length_cons, edgesLeft_cons hv hnew] at hroom
    rw [length_append]
    omega

lemma Searching.step (hr : TargetsInRange rel n) (hs : Searching rel n start maxDepth V st)
    (hcap : rel.fwd.nEdges + 1 ≤ cap)
    (hne : st.stack ≠ []) : ∃ st' V', dfsStep rel n cap maxDepth st = some st' ∧
      Searching rel n start maxDepth V' st' ∧
      st'.stack.length + edgesLeft rel n V' < st.stack.length + edgesLeft rel n V := by
  obtain ⟨top, stack, hstack⟩ := exists_cons_of_ne_nil hne
  obtain ⟨v, hv, htop⟩ := hs.nodes top (by rw [hstack]; exact mem_cons_self)
  have hget := Arr.get?_natCast (a := st.visited) (i := v) (by rw [hs.size]; exact hv)
  have hset := Arr.set?_natCast (a := st.visited) (i := v) (by rw [hs.size]; exact hv) true
  by_cases hmem : v ∈ V
  · refine ⟨{ st with stack := stack }, V, ?_, hs.pop hstack htop hmem, ?_⟩
    · simp only [dfsStep, hstack, htop, hget, bind_some, hs.cell v hv, if_pos (decide_eq_true hmem)]
    · rw [hstack, length_cons]
      simp only
      omega
  · have hrows : st.rows.length < n := by
      have := length_le_of_nodup (Q := v :: V) (nodup_cons.mpr ⟨hmem, hs.nodup⟩) (forall_mem_cons.mpr ⟨hv, hs.lt⟩)
      have hlen := congrArg length hs.rows
      rw [length_map, length_map] at hlen
      rw [hlen]
      exact this
    have hleft := @edgesLeft_cons rel _ _ _ hv hmem
    have hroom := hs.room
    rw [hstack, length_cons] at hroom
    have hbody : dfsStep rel n cap maxDepth st =
        if top.depth < maxDepth then
          (rel.fwd.targetsOf v).reverse.foldlM (dfsPush cap (v : ℕ) top.depth)
            ⟨stack, ⟨st.visited.size, update st.visited.cell v true⟩, st.rows ++ [top]⟩
        else some ⟨stack, ⟨st.visited.size, update st.visited.cell v true⟩, st.rows ++ [top]⟩ := by
      simp only [dfsStep, hstack, htop, hget, bind_some, hs.cell v hv, hset, put_of_lt hrows,
        decide_eq_true_eq, if_neg hmem]
    by_cases hd : top.depth < maxDepth
    · obtain ⟨new, hrun, hlen, hnew, hall⟩ :=
        dfsPush_all (v := v) (d := top.depth) (l := (rel.outs v).reverse) (S := stack)
        (R := st.rows ++ [top]) (w := ⟨st.visited.size, update st.visited.cell v true⟩) hs.size
        (fun u hu => outs_lt hr (mem_reverse.mp hu))
          (show stack.length + (rel.outs v).reverse.length ≤ cap by rw [length_reverse]; omega)
      rw [length_reverse] at hlen
      refine ⟨_, V ++ [v], ?_, hs.visit hr hstack hv htop hmem rfl hlen (fun r hr => ?_) fun _ u hu =>
        hall u (mem_reverse.mpr hu), ?_⟩
      · rw [hbody, if_pos hd, targetsOf_fwd hr, ← map_reverse, hrun]
      · obtain ⟨u, hu, rfl⟩ := hnew r hr
        exact ⟨u, mem_reverse.mp hu, hd, rfl⟩
      · rw [hstack, length_cons, hleft, length_append]
        omega
    · refine ⟨_, V ++ [v], ?_, hs.visit (N := []) hr hstack hv htop hmem rfl (Nat.zero_le _)
        (fun r hr => absurd hr not_mem_nil) (fun hlt => absurd hlt hd), ?_⟩
      · rw [hbody, if_neg hd]
        rfl
      · simp only [hstack, length_cons, hleft, nil_append]
        omega

structure DfsTree (rel : Rel) (start maxDepth : ℕ) (rows : List DfsRow) : Prop where
  nodup : (rows.map DfsRow.node).Nodup
  found : ∀ i r, rows[i]? = some r → i = 0 ∧ r = ⟨start, 0, -1⟩ ∨ FoundFrom rel maxDepth (rows.take i) r
  start : ∃ r ∈ rows, r.node = start
  closed : ∀ r ∈ rows, r.depth < maxDepth → ∀ u, rel.Edge r.node.toNat u → ∃ s ∈ rows, s.node = (u : ℕ)

lemma execDfs_tree (h : Square rel n) (hr : TargetsInRange rel n) (hstart : start < n) (maxDepth : ℕ) :
    ∃ rows, execDfs rel start maxDepth = some (.ok rows) ∧ DfsTree rel start maxDepth rows ∧ ∃ V :
      List ℕ, V.Nodup ∧ (∀ v ∈ V, v < n) ∧
      rows.map DfsRow.node = V.map Nat.cast := by
  have hcap : rel.fwd.nEdges + 1 ≤ if rel.fwd.nEdges > n then rel.fwd.nEdges + 1 else n + 1 := by
    split_ifs <;> omega
  have hinit : Searching rel n start maxDepth [] ⟨[⟨start, 0, -1⟩], ⟨n, fun _ => false⟩, []⟩ := by
    refine ⟨rfl, nodup_nil, by simp, rfl, by simp, fun _ => rfl, ?_, by simp, fun _ _ hno =>
      absurd rfl hno, by simp, ?_⟩
    · exact forall_mem_singleton.mpr ⟨start, hstart, rfl⟩
    · rw [edgesLeft_nil h, length_singleton]
      omega
  obtain ⟨st, hrun, ⟨V, hs⟩, hend⟩ := whileLoop_inv (c := fun st => !st.stack.isEmpty)
    (b := dfsStep rel n (if rel.fwd.nEdges > n then rel.fwd.nEdges + 1 else n + 1) maxDepth)
      (k := rel.fwd.nEdges + 2)
    (I := fun st => ∃ V, Searching rel n start maxDepth V st)
      (μ := fun st => st.stack.length + edgesLeft rel n (st.rows.map fun r => r.node.toNat))
    (by
      rintro st ⟨V, hs⟩ hcond
      have hV : ∀ {st V}, Searching rel n start maxDepth V st → (st.rows.map fun r => r.node.toNat) = V := by
        intro st V hs
        have := congrArg (List.map Int.toNat) hs.rows
        rw [List.map_map, List.map_map] at this
        exact this.trans (map_id _)
      obtain ⟨st', V', hstep, hs', hlt⟩ := hs.step hr hcap (by rintro hno; simp [hno] at hcond)
      exact ⟨st', hstep, ⟨V', hs'⟩, by rw [hV hs, hV hs']; exact hlt⟩)
    (by simp only [map_nil, edgesLeft_nil h, length_singleton]; omega) ⟨[], hinit⟩
  have hempty : st.stack = [] := by simpa using hend
  refine ⟨st.rows, ?_, ⟨?_, hs.tree, ?_, ?_⟩, V, hs.nodup, hs.lt, hs.rows⟩
  · simp only [execDfs, h.fwd.nNodes]
    rw [if_neg (by omega), if_neg (by omega), hrun, map_some]
  · rw [hs.rows]
    exact hs.nodup.map Nat.cast_injective
  · cases hrows : st.rows with
    | nil =>
      have := hs.first hrows
      rw [hempty] at this
      exact nomatch this
    | cons r rows =>
      obtain ⟨-, rfl⟩ | ⟨p, hp, -⟩ := hs.tree 0 r (by rw [hrows]; rfl)
      · exact ⟨_, mem_cons_self, rfl⟩
      · rw [take_zero] at hp
        exact absurd hp not_mem_nil
  · intro r hr hd u hu
    obtain huV | ⟨s, hs', -⟩ := hs.done r hr hd u hu
    · have hmem : (u : ℤ) ∈ st.rows.map DfsRow.node := by
        rw [hs.rows]
        exact mem_map_of_mem huV
      obtain ⟨s, hs', hsu⟩ := mem_map.mp hmem
      exact ⟨s, hs', hsu⟩
    · rw [hempty] at hs'
      exact absurd hs' not_mem_nil

end

section

variable {rel : Rel} {n start maxDepth : ℕ} {rows : List DfsRow} {r : DfsRow}

lemma getElem?_of_mem_take {p : DfsRow} {i : ℕ} (hp : p ∈ rows.take i) : ∃ j < i, rows[j]? = some p := by
  obtain ⟨j, hj, hjp⟩ := mem_iff_getElem.mp hp
  rw [length_take] at hj
  exact ⟨j, by omega, by rw [← hjp, getElem_take, getElem?_eq_getElem]⟩

namespace DfsTree

section

variable (h : DfsTree rel start maxDepth rows)
include h

lemma depth_le {i : ℕ} (hi : rows[i]? = some r) : r.depth ≤ i := by
  induction i using Nat.strong_induction_on generalizing r with
  | _ i ih =>
    obtain ⟨rfl, rfl⟩ | ⟨p, hp, -, hd, -⟩ := h.found i r hi
    · exact le_rfl
    · obtain ⟨j, hj, hpj⟩ := getElem?_of_mem_take hp
      have := ih j hj hpj
      omega

lemma walk {i : ℕ} (hi : rows[i]? = some r) : r.depth ≤ maxDepth ∧ ∃ v :
    ℕ, r.node = v ∧ Walk rel.outs start r.depth v := by
  induction i using Nat.strong_induction_on generalizing r with
  | _ i ih =>
    obtain ⟨rfl, rfl⟩ | ⟨p, hp, hparent, hd, hle, hedge⟩ := h.found i r hi
    · exact ⟨Nat.zero_le _, start, rfl, .zero⟩
    · obtain ⟨j, hj, hpj⟩ := getElem?_of_mem_take hp
      obtain ⟨u, v, hu, hv, huv⟩ := hedge
      obtain ⟨-, w, hw, hwalk⟩ := ih j hj hpj
      rw [hu, Int.ofNat_inj] at hw
      rw [← hw] at hwalk
      exact ⟨hle, v, hv, by rw [hd]; exact .snoc hwalk huv⟩

lemma mem_iff (hlast : ∀ r ∈ rows, r.depth = maxDepth → ∀ u, rel.Edge r.node.toNat u → ∃ s ∈ rows,
    s.node = (u : ℕ))
    (v : ℕ) : (∃ r ∈ rows, r.node = v) ↔ ∃ k ≤ maxDepth, Walk rel.outs start k v := by
  constructor
  · rintro ⟨r, hr, hrv⟩
    obtain ⟨i, hi⟩ := getElem?_of_mem hr
    obtain ⟨hle, w, hw, hwalk⟩ := h.walk hi
    rw [hrv, Int.ofNat_inj] at hw
    exact ⟨r.depth, hle, hw ▸ hwalk⟩
  · rintro ⟨k, -, hwalk⟩
    induction hwalk with
    | zero => exact h.start
    | @snoc k u w _ hedge ih =>
      obtain ⟨r, hr, hru⟩ := ih
      obtain ⟨i, hi⟩ := getElem?_of_mem hr
      have hout : rel.Edge r.node.toNat w := by
        rw [hru, Int.toNat_natCast]
        exact hedge
      obtain hlt | heq := (h.walk hi).1.lt_or_eq
      · exact h.closed r hr hlt _ hout
      · exact hlast r hr heq _ hout

end

end DfsTree

/-- The tree that `exec_dfs` returns. -/
theorem execDfs_spec (h : Square rel n) (hr : TargetsInRange rel n) (hstart : start < n) (maxDepth : ℕ) :
    ∃ rows, execDfs rel start maxDepth = some (.ok rows) ∧ DfsTree rel start maxDepth rows ∧
      (∀ r ∈ rows, ∃ v : ℕ, r.node = v ∧ ∃ k ≤ maxDepth, Walk rel.outs start k v) ∧
      ((n ≤ maxDepth + 1 ∨ ∀ r ∈ rows, r.depth = maxDepth → ∀ u, rel.Edge r.node.toNat u → ∃ s ∈ rows,
        s.node = (u : ℕ)) →
        ∀ v : ℕ, (∃ r ∈ rows, r.node = v) ↔ ∃ k ≤ maxDepth, Walk rel.outs start k v) := by
  obtain ⟨rows, hrun, htree, V, hV, hlt, hrows⟩ := execDfs_tree h hr hstart maxDepth
  refine ⟨rows, hrun, htree, fun r hr => ?_, fun hall => htree.mem_iff ?_⟩
  · obtain ⟨i, hi⟩ := getElem?_of_mem hr
    obtain ⟨hle, v, hv, hwalk⟩ := htree.walk hi
    exact ⟨v, hv, r.depth, hle, hwalk⟩
  · refine hall.elim (fun hn r hmem hd u hu => ?_) id
    -- a row at the depth of the last node has all others above it
    obtain ⟨i, hi⟩ := getElem?_of_mem hmem
    have hdepth := htree.depth_le hi
    have hi' := (List.getElem?_eq_some_iff.mp hi).1
    have hlen : rows.length = V.length := by simpa using congrArg List.length hrows
    have hfull : n ≤ V.length := by omega
    have huV : (u : ℤ) ∈ rows.map DfsRow.node := by
      rw [hrows]
      exact mem_map_of_mem ((perm_range_of_length hV hlt hfull).mem_iff.mpr (mem_range.mpr (outs_lt hr hu)))
    obtain ⟨s, hs, hsu⟩ := mem_map.mp huV
    exact ⟨s, hs, hsu⟩

/-- The whole graph from node 0. -/
theorem execDfs_spec_chain : ∃ rel rows, rayRelFromEdges [0, 0, 1, 2] [1, 2, 2, 3] 4 4 false = some rel ∧
    execDfs rel 0 3 = some (.ok rows) ∧
    ∀ v : ℕ, (∃ r ∈ rows, r.node = v) ↔ ∃ k ≤ 3, Walk rel.outs 0 k v := by
  have hrel : rayRelFromEdges [0, 0, 1, 2] [1, 2, 2, 3] 4 4 false =
      some (relationOf [0, 0, 1, 2] [1, 2, 2, 3] [⟨0, 1, 0⟩, ⟨0, 2, 1⟩, ⟨1, 2, 2⟩, ⟨2, 3, 3⟩] 4) :=
    rayRelFromEdges_relationOf (n := 4) rfl (by decide) (by decide) (by decide) (by decide)
  obtain ⟨rows, hrun, -, -, hall⟩ :=
    @execDfs_spec _ 4 0 (rayRelFromEdges_square (n := 4) hrel) (by decide) (by decide) 3
  exact ⟨_, rows, hrel, hrun, hall (.inl (by decide))⟩

/-- Node 3 is two steps from node 0, but node 2 is met at depth 2. -/
theorem execDfs_misses : ∃ rel rows, rayRelFromEdges [0, 0, 1, 2] [1, 2, 2, 3] 4 4 false = some rel ∧
    Square rel 4 ∧ TargetsInRange rel 4 ∧
    execDfs rel 0 2 = some (.ok rows) ∧ ¬(∃ r ∈ rows, r.node = 3) ∧ Walk rel.outs 0 2 3 := by
  have hrel : rayRelFromEdges [0, 0, 1, 2] [1, 2, 2, 3] 4 4 false =
      some (relationOf [0, 0, 1, 2] [1, 2, 2, 3] [⟨0, 1, 0⟩, ⟨0, 2, 1⟩, ⟨1, 2, 2⟩, ⟨2, 3, 3⟩] 4) :=
    rayRelFromEdges_relationOf (n := 4) rfl (by decide) (by decide) (by decide) (by decide)
  refine ⟨_, [⟨0, 0, -1⟩, ⟨1, 1, 0⟩, ⟨2, 2, 1⟩], hrel, rayRelFromEdges_square (n := 4) hrel, by decide, rfl,
    by decide, ?_⟩
  exact .snoc (u := 2) (.snoc (u := 0) .zero (by decide)) (by decide)

end

end Rayforce.Graph
