import Rayforce.Graph.Square

/-! `exec_topsort`. -/

namespace Rayforce.Graph

open Library.Loops List Option Function

structure TopState where
  inDeg : Arr ℤ
  queue : List ℤ
  head : ℕ
  order : Arr ℤ
  count : ℕ

def topRelax (n : ℕ) (st : TopState) (u : ℤ) : Option TopState :=
  (st.inDeg.get? u).bind fun d =>
    (st.inDeg.set? u (d - 1)).bind fun inDeg =>
      if d - 1 = 0 then (put n st.queue u).map fun queue => { st with inDeg := inDeg, queue := queue }
      else some { st with inDeg := inDeg }

def topStep (rel : Rel) (n : ℕ) (st : TopState) : Option TopState :=
  st.queue[st.head]?.bind fun v =>
    (st.order.set? v st.count).bind fun order =>
      (rel.fwd.targetsOf v).foldlM (topRelax n)
        { st with head := st.head + 1, order := order, count := st.count + 1 }

def topRoots (inDeg : Arr ℤ) (n : ℕ) : Option (List ℤ) :=
  (List.range n).foldlM (fun queue (i : ℕ) => (inDeg.get? i).bind fun d =>
    if d = 0 then put n queue (i : ℤ) else some queue) []

def execTopsort (rel : Rel) : Option (Except GraphError (List (ℤ × ℤ))) :=
  guarded rel <|
    let n := rel.fwd.nNodes
    let inDeg : Arr ℤ := ⟨n, rel.rev.degree⟩
    (topRoots inDeg n).bind fun queue =>
      (whileLoop (fun st => st.head < st.queue.length) (topStep rel n) (n + 1)
        ⟨inDeg, queue, 0, ⟨n, fun _ => 0⟩, 0⟩).map fun st =>
        if st.count < n then .error (.cycle (n - st.count) n) else .ok
          ((List.range n).map fun i : ℕ => ((i : ℤ), st.order.cell i))

section

variable {rel : Rel} {n u v : ℕ} {P : List ℕ}

def heads (rel : Rel) (n : ℕ) : List ℕ := (List.range n).flatMap rel.outs

def headsBut (rel : Rel) (n : ℕ) (P : List ℕ) : List ℕ := ((List.range n).filter (· ∉ P)).flatMap rel.outs

lemma heads_split (hnodup : P.Nodup) (hlt : ∀ v ∈ P, v < n) (v : ℕ) :
    (heads rel n).count v = (P.flatMap rel.outs).count v + (headsBut rel n P).count v := by
  have hperm : (range n).Perm (P ++ (range n).filter (· ∉ P)) := by
    refine (perm_ext_iff_of_nodup nodup_range ?_).mpr fun x => ?_
    · refine nodup_append.mpr ⟨hnodup, nodup_range.filter _, fun a ha b hb hab => ?_⟩
      simp_all
    · simp only [mem_append, mem_filter, mem_range, decide_eq_true_eq]
      tauto
  rw [heads, (hperm.flatMap_right rel.outs).count_eq, flatMap_append, count_append, headsBut]

lemma mem_headsBut : v ∈ headsBut rel n P ↔ ∃ u < n, u ∉ P ∧ rel.Edge u v := by
  simp only [headsBut, mem_flatMap, mem_filter, mem_range, decide_eq_true_eq, Rel.Edge, and_assoc]

lemma sum_single {k x : ℕ} (hx : x < k) : ((List.range k).map fun u => if x == u then 1 else 0).sum = 1 := by
  induction k with
  | zero => omega
  | succ k ih =>
    rw [range_succ, map_append, sum_append, map_singleton, sum_singleton]
    obtain rfl | hlt := Nat.eq_or_lt_of_le (Nat.le_of_lt_succ hx)
    · have hzero : ((range x).map fun u => if x == u then 1 else 0).sum = 0 := by
        refine sum_eq_zero fun y hy => ?_
        obtain ⟨u, hu, rfl⟩ := mem_map.mp hy
        have := mem_range.mp hu
        rw [if_neg (by rw [beq_iff_eq]; omega)]
      rw [hzero, if_pos (beq_self_eq_true x)]
    · rw [ih hlt, if_neg (by rw [beq_iff_eq]; omega)]

lemma length_ins (h : Square rel n) (hr : TargetsInRange rel n) (hv : v < n) :
    (rel.ins v).length = (heads rel n).count v := by
  have hsum : ∀ l : List ℕ, (∀ x ∈ l, x < n) → l.length = ((range n).map fun u => l.count u).sum := by
    intro l
    induction l with
    | nil => intro _; simp
    | cons x l ih =>
      intro hl
      rw [forall_mem_cons] at hl
      simp only [count_cons, sum_map_add, length_cons]
      rw [← ih hl.2, sum_single hl.1]
  rw [hsum _ fun x hx => ins_lt hr hx, heads, count, countP_flatMap]
  refine congrArg sum (map_congr_left fun u hu => ?_)
  rw [← h.count_outs hr (mem_range.mp hu) hv]
  rfl

end

section

variable {rel : Rel} {n : ℕ} {Q C : List ℕ} {st : TopState}

structure Sorting (rel : Rel) (n : ℕ) (Q C : List ℕ) (st : TopState) : Prop where
  queue : st.queue = Q.map Nat.cast
  nodup : Q.Nodup
  lt : ∀ v ∈ Q, v < n
  size : st.inDeg.size = n
  deg : ∀ v < n, st.inDeg.cell v = (heads rel n).count v - C.count v
  ready : ∀ v < n, v ∈ Q ↔ C.count v = (heads rel n).count v
  before : ∀ i v, Q[i]? = some v → ∀ u, rel.Edge u v → u ∈ Q.take i
  count : st.count = st.head
  head : st.head ≤ Q.length
  room : st.order.size = n
  placed : ∀ i v, i < st.head → Q[i]? = some v → st.order.cell v = i

lemma Sorting.relax (h : Square rel n) (hr : TargetsInRange rel n) (hs : Sorting rel n Q C st)
    {P T : List ℕ} {x : ℕ} (hP : P = Q.take st.head) (hC : P.flatMap rel.outs = C ++ x :: T) (hx : x < n) :
    ∃ st' Q', topRelax n st x = some st' ∧ Sorting rel n Q' (C ++ [x]) st' ∧ st'.head = st.head ∧ Q.take st.head =
      Q'.take st.head := by
  have hPn : P.Nodup := hP ▸ hs.nodup.sublist (take_sublist _ _)
  have hPlt : ∀ v ∈ P, v < n := fun v hv => hs.lt v (mem_of_mem_take (hP ▸ hv))
  have hsplit := @heads_split rel _ _ hPn hPlt x
  have hcount : (P.flatMap rel.outs).count x = C.count x + 1 + T.count x := by
    rw [hC, count_append, count_cons_self]
    omega
  have hnew : (C ++ [x]).count x = C.count x + 1 := by rw [count_append, count_singleton_self]
  have hother : ∀ v, v ≠ x → (C ++ [x]).count v = C.count v := by
    intro v hv
    rw [count_append, count_eq_zero_of_not_mem (a := v) (l := [x]) (by simpa using hv), Nat.add_zero]
  have hout : x ∉ Q := by
    intro hmem
    have := (hs.ready x hx).mp hmem
    omega
  have hdeg : ∀ v < n, update st.inDeg.cell x (st.inDeg.cell x - 1) v =
      (heads rel n).count v - (C ++ [x]).count v := by
    intro v hv
    by_cases hvx : v = x
    · rw [hvx, update_self, hs.deg x hx, hnew]
      omega
    · rw [update_of_ne hvx, hs.deg v hv, hother v hvx]
  have hget := Arr.get?_natCast (a := st.inDeg) (i := x) (by rw [hs.size]; exact hx)
  have hset := Arr.set?_natCast (a := st.inDeg) (i := x) (by rw [hs.size]; exact hx) (st.inDeg.cell x - 1)
  have hxdeg := hs.deg x hx
  by_cases hzero : st.inDeg.cell x - 1 = 0
  · have hlast : (C ++ [x]).count x = (heads rel n).count x := by omega
    have hroom : st.queue.length < n := by
      have := length_le_of_nodup (Q := x :: Q) (nodup_cons.mpr ⟨hout, hs.nodup⟩)
        (by rw [forall_mem_cons]; exact ⟨hx, hs.lt⟩)
      rw [hs.queue, length_map]
      exact this
    refine ⟨{ st with inDeg := ⟨st.inDeg.size, update st.inDeg.cell x (st.inDeg.cell x - 1)⟩, queue := st.queue ++
      [(x : ℤ)] }, Q ++ [x],
      by rw [topRelax, hget, bind_some, hset, bind_some, if_pos hzero, put_of_lt hroom, map_some], ?_, rfl,
      (take_append_of_le_length hs.head).symm⟩
    refine ⟨by simp [hs.queue], ?_, ?_, hs.size, hdeg, ?_, ?_, hs.count, ?_, hs.room, ?_⟩
    · exact nodup_append.mpr ⟨hs.nodup, nodup_singleton x, fun a ha b hb hab =>
        hout (by rw [← mem_singleton.mp hb, ← hab]; exact ha)⟩
    · rw [forall_mem_append]
      exact ⟨hs.lt, by simpa using hx⟩
    · intro v hv
      by_cases hvx : v = x
      · simp [hvx, hlast]
      · rw [hother v hvx, ← hs.ready v hv]
        simp [hvx]
    · intro i v hi u hu
      by_cases hlt : i < Q.length
      · rw [getElem?_append_left hlt] at hi
        rw [take_append_of_le_length hlt.le]
        exact hs.before i v hi u hu
      · obtain ⟨hi', rfl⟩ : i = Q.length ∧ v = x := by
          have := (List.getElem?_eq_some_iff.mp hi).1
          simp only [length_append, length_singleton] at this
          obtain rfl : i = Q.length := by omega
          simpa using hi.symm
        -- all edges into the node come from nodes already taken
        have hnone : v ∉ headsBut rel n P := by
          rw [← count_eq_zero]
          omega
        have huP : u ∈ P := by
          by_contra hne
          exact hnone (mem_headsBut.mpr ⟨u, (edge_lt h hr hu).1, hne, hu⟩)
        rw [hi', take_left]
        exact mem_of_mem_take (hP ▸ huP)
    · have := hs.head
      simp only [length_append]
      omega
    · intro i v hi hv
      rw [getElem?_append_left (hi.trans_le hs.head)] at hv
      exact hs.placed i v hi hv
  · refine ⟨{ st with inDeg := ⟨st.inDeg.size, update st.inDeg.cell x (st.inDeg.cell x - 1)⟩ }, Q,
      by rw [topRelax, hget, bind_some, hset, bind_some, if_neg hzero], ?_, rfl, rfl⟩
    refine ⟨hs.queue, hs.nodup, hs.lt, hs.size, hdeg, ?_, hs.before, hs.count, hs.head, hs.room, hs.placed⟩
    intro v hv
    by_cases hvx : v = x
    · rw [hvx, hnew]
      exact ⟨fun hmem => absurd hmem hout, fun heq => by omega⟩
    · rw [hother v hvx]
      exact hs.ready v hv

lemma Sorting.step (h : Square rel n) (hr : TargetsInRange rel n)
    (hs : Sorting rel n Q ((Q.take st.head).flatMap rel.outs) st) (hhead : st.head < Q.length) :
    ∃ st' Q', topStep rel n st = some st' ∧ Sorting rel n Q' ((Q'.take st'.head).flatMap rel.outs) st' ∧ st'.head =
      st.head + 1 := by
  have hv : Q[st.head] < n := hs.lt _ (getElem_mem hhead)
  have hget : st.queue[st.head]? = some ((Q[st.head] : ℕ) : ℤ) := by
    rw [hs.queue, getElem?_map, getElem?_eq_getElem hhead, map_some]
  have hset := Arr.set?_natCast (a := st.order) (i := Q[st.head]) (by rw [hs.room]; exact hv) (st.count : ℤ)
  let P := Q.take (st.head + 1)
  have hP : P.flatMap rel.outs = (Q.take st.head).flatMap rel.outs ++ rel.outs Q[st.head] := by
    rw [show P = Q.take st.head ++ [Q[st.head]] from take_succ_eq_append_getElem hhead, flatMap_append,
      flatMap_singleton]
  let st₁ : TopState :=
    { st with head := st.head + 1, order := ⟨st.order.size, update st.order.cell Q[st.head] st.count⟩,
                                  count := st.count + 1 }
  have h₁ : Sorting rel n Q ((Q.take st.head).flatMap rel.outs) st₁ := by
    refine ⟨hs.queue, hs.nodup, hs.lt, hs.size, hs.deg, hs.ready, hs.before, congrArg (· + 1) hs.count, hhead,
      hs.room, fun i v hi hiv => ?_⟩
    change update st.order.cell Q[st.head] (st.count : ℤ) v = i
    obtain ⟨hlen, rfl⟩ := List.getElem?_eq_some_iff.mp hiv
    by_cases hlast : i = st.head
    · subst hlast
      rw [update_self, hs.count]
    · have hne : Q[i] ≠ Q[st.head] := fun heq => hlast ((List.Nodup.getElem_inj_iff hs.nodup).mp heq)
      rw [update_of_ne hne]
      exact hs.placed i _ (lt_of_le_of_ne (Nat.le_of_lt_succ hi) hlast) (getElem?_eq_getElem hlen)
  obtain ⟨st₂, hrun, Q₂, h₂, hhead₂, htake⟩ :=
    foldlM_inv (f := fun st (u : ℕ) => topRelax n st u) (l := rel.outs Q[st.head])
    (I := fun pre st' => ∃ Q', Sorting rel n Q' ((Q.take st.head).flatMap rel.outs ++ pre) st' ∧
      st'.head = st.head + 1 ∧ P = Q'.take (st.head + 1))
    (s := st₁) ⟨Q, by rwa [append_nil], rfl, rfl⟩ (by
      rintro pre x post hl st' ⟨Q', h', hhead', htake⟩
      have hx : x < n := outs_lt hr (u := Q[st.head]) (by rw [hl]; simp)
      obtain ⟨st'', Q'', hrelax, h'', hhead'', htake''⟩ :=
        h'.relax h hr (P := P) (T := post) (by rw [hhead', htake]) (by rw [hP, hl, append_assoc]) hx
      exact ⟨st'', hrelax, Q'', by rwa [← append_assoc], hhead''.trans hhead', by rw [htake, ← hhead', htake'']⟩)
  refine ⟨st₂, Q₂, ?_, ?_, hhead₂⟩
  · rw [topStep, hget, bind_some, hset, bind_some, targetsOf_fwd hr, foldlM_map]
    exact hrun
  · rw [← hP, htake] at h₂
    rw [hhead₂]
    exact h₂

lemma Sorting.roots (h : Square rel n) (hr : TargetsInRange rel n) :
    ∃ Q, topRoots ⟨n, rel.rev.degree⟩ n = some (Q.map Nat.cast) ∧
      Sorting rel n Q [] ⟨⟨n, rel.rev.degree⟩, Q.map Nat.cast, 0, ⟨n, fun _ => 0⟩, 0⟩ := by
  have hdeg : ∀ v < n, rel.rev.degree v = (heads rel n).count v := fun v hv => by
    rw [degree_rev h hv, length_ins h hr hv]
  obtain ⟨queue, hrun, hqueue⟩ := foldlM_inv
    (f := fun queue (i : ℕ) => (Arr.get? ⟨n, rel.rev.degree⟩ i).bind fun d =>
      if d = 0 then put n queue (i : ℤ) else some queue)
    (l := range n) (I := fun pre queue => queue = (pre.filter fun i => rel.rev.degree i = 0).map Nat.cast)
      (s := []) rfl (by
      rintro pre x post hl _ rfl
      have hx : x < n := mem_range.mp (by rw [hl]; simp)
      have hpre : pre.length < n := by
        have := congrArg length hl
        rw [length_range, length_append, length_cons] at this
        omega
      rw [Arr.get?_natCast hx, bind_some, filter_append]
      by_cases hzero : rel.rev.degree x = 0
      · have hlen := length_filter_le (fun i => rel.rev.degree i = 0) pre
        exact ⟨_, by rw [if_pos hzero, put_of_lt (by rw [length_map]; omega)], by simp [hzero]⟩
      · exact ⟨_, if_neg hzero, by simp [hzero]⟩)
  refine ⟨(range n).filter fun i => rel.rev.degree i = 0, by rw [topRoots, hrun, hqueue], rfl,
    nodup_range.filter _, ?_, rfl, ?_, ?_, ?_, rfl,
    Nat.zero_le _, rfl, fun i v hi => absurd hi (Nat.not_lt_zero i)⟩
  · intro v hv
    exact mem_range.mp (mem_filter.mp hv).1
  · intro v hv
    exact hdeg v hv
  · intro v hv
    rw [mem_filter, mem_range, decide_eq_true_eq, hdeg v hv, count_nil]
    omega
  · intro i v hi u hu
    have hv := mem_of_getElem? hi
    rw [mem_filter, mem_range, decide_eq_true_eq, hdeg v (edge_lt h hr hu).2] at hv
    have hpos : 0 < (heads rel n).count v :=
      count_pos_iff.mpr (mem_flatMap.mpr ⟨u, mem_range.mpr (edge_lt h hr hu).1, hu⟩)
    omega

lemma Sorting.loop (h : Square rel n) (hr : TargetsInRange rel n) :
    ∃ st Q, ((topRoots ⟨n, rel.rev.degree⟩ n).bind fun queue =>
      whileLoop (fun st => st.head < st.queue.length) (topStep rel n) (n + 1)
        ⟨⟨n, rel.rev.degree⟩, queue, 0, ⟨n, fun _ => 0⟩, 0⟩) = some st ∧
      Sorting rel n Q (Q.flatMap rel.outs) st ∧ st.head = Q.length := by
  obtain ⟨Q₀, hroots, h₀⟩ := Sorting.roots h hr
  obtain ⟨st, hrun, ⟨Q, hQ⟩, hend⟩ := whileLoop_inv (c := fun st => st.head < st.queue.length) (b := topStep rel n)
    (I := fun st => ∃ Q, Sorting rel n Q ((Q.take st.head).flatMap rel.outs) st)
      (μ := fun st => n - st.head) (k := n + 1)
    (by
      rintro st ⟨Q, hs⟩ hc
      have hhead : st.head < Q.length := by simpa [hs.queue] using hc
      obtain ⟨st', Q', hstep, hs', hhead'⟩ := hs.step h hr hhead
      have := length_le_of_nodup hs.nodup hs.lt
      exact ⟨st', hstep, ⟨Q', hs'⟩, by omega⟩)
    (s := ⟨⟨n, rel.rev.degree⟩, Q₀.map Nat.cast, 0, ⟨n, fun _ => 0⟩, 0⟩) (Nat.lt_succ_of_le (Nat.sub_le _ _))
      ⟨Q₀, by simpa using h₀⟩
  have hhead : st.head = Q.length := by
    have := hQ.head
    simp [hQ.queue] at hend
    omega
  refine ⟨st, Q, by rw [hroots, bind_some, hrun], ?_, hhead⟩
  simpa [hhead] using hQ

lemma exists_cycle {v : ℕ} (hv : v < n) (hout : v ∉ Q) (hinto : ∀ v < n, v ∉ Q → ∃ u < n, u ∉ Q ∧ rel.Edge u v) :
    ∃ v, Relation.TransGen rel.Edge v v := by
  by_contra hno
  push Not at hno
  let E : Fin n → Fin n → Prop := fun u v => Relation.TransGen rel.Edge u v
  have : Std.Irrefl E := ⟨fun u => hno u⟩
  obtain ⟨⟨m, hm⟩, hmem, hmin⟩ :=
    (Finite.wellFounded_of_trans_of_irrefl E).has_min {v : Fin n | (v : ℕ) ∉ Q} ⟨⟨v, hv⟩, hout⟩
  obtain ⟨u, hu, huQ, hedge⟩ := hinto m hm hmem
  exact hmin ⟨u, hu⟩ huQ (.single hedge)

lemma execTopsort_spec (h : Square rel n) (hr : TargetsInRange rel n) (hn : 0 < n) :
    ∃ r, execTopsort rel = some r ∧ ((∃ e, r = .error e) ↔ ∃ v, Relation.TransGen rel.Edge v v) ∧
      ∀ rows, r = .ok rows → ∃ pos : ℕ → ℕ, rows = (List.range n).map (fun v : ℕ => ((v : ℤ), (pos v : ℤ))) ∧
        Set.BijOn pos (Set.Iio n) (Set.Iio n) ∧ ∀ u v, rel.Edge u v → pos u < pos v := by
  obtain ⟨st, Q, hrun, hs, hhead⟩ := Sorting.loop h hr
  have hcount : st.count = Q.length := hs.count.trans hhead
  have hlen := length_le_of_nodup hs.nodup hs.lt
  have hrun' : execTopsort rel = some (if st.count < n then .error (.cycle (n - st.count) n)
      else .ok ((range n).map fun i : ℕ => ((i : ℤ), st.order.cell i))) := by
    obtain ⟨queue, hqueue, hwhile⟩ := bind_eq_some_iff.mp hrun
    rw [execTopsort, guarded_eq h hn, h.fwd.nNodes]
    simp only [hqueue, bind_some, hwhile, map_some]
  by_cases hall : Q.length = n
  · have hperm := perm_range_of_length hs.nodup hs.lt hall.ge
    have hmem : ∀ v < n, v ∈ Q := fun v hv => hperm.mem_iff.mpr (mem_range.mpr hv)
    have hplace : ∀ v < n, st.order.cell v = Q.idxOf v := fun v hv => by
      have hlt := idxOf_lt_length_of_mem (hmem v hv)
      exact hs.placed _ v (by omega) (by rw [getElem?_eq_getElem hlt, getElem_idxOf])
    have hedge : ∀ u v, rel.Edge u v → Q.idxOf u < Q.idxOf v := by
      intro u v huv
      have hlt := idxOf_lt_length_of_mem (hmem v (edge_lt h hr huv).2)
      exact (mem_take_iff_idxOf_lt (hmem u (edge_lt h hr huv).1)).mp
        (hs.before _ v (by rw [getElem?_eq_getElem hlt, getElem_idxOf]) u huv)
    have hpath : ∀ u v, Relation.TransGen rel.Edge u v → Q.idxOf u < Q.idxOf v := by
      intro u v huv
      induction huv with
      | single huv => exact hedge _ _ huv
      | tail _ huv ih => exact ih.trans (hedge _ _ huv)
    refine ⟨_, hrun', ?_, ?_⟩
    · rw [if_neg (by omega)]
      constructor
      · rintro ⟨e, he⟩
        exact nomatch he
      · rintro ⟨v, hv⟩
        exact absurd (hpath v v hv) (lt_irrefl _)
    · intro rows hrows
      rw [if_neg (by omega), Except.ok.injEq] at hrows
      refine ⟨fun v => Q.idxOf v, ?_, ⟨?_, ?_, ?_⟩, hedge⟩
      · rw [← hrows]
        exact map_congr_left fun v hv => by rw [hplace v (mem_range.mp hv)]
      · intro v hv
        have := idxOf_lt_length_of_mem (hmem v hv)
        exact hall ▸ this
      · intro u hu v hv huv
        exact (idxOf_inj (hmem u hu)).mp huv
      · intro i hi
        have hi' : i < Q.length := by rw [hall]; exact hi
        exact ⟨Q[i], hs.lt _ (getElem_mem hi'), hs.nodup.idxOf_getElem i hi'⟩
  · have hinto : ∀ v < n, v ∉ Q → ∃ u < n, u ∉ Q ∧ rel.Edge u v := by
      intro v hv hout
      have hne := mt (hs.ready v hv).mpr hout
      have hsplit := @heads_split rel _ _ hs.nodup hs.lt v
      exact mem_headsBut.mp (count_pos_iff.mp (by omega))
    obtain ⟨v, hv, hout⟩ : ∃ v < n, v ∉ Q := by
      by_contra hno
      push Not at hno
      have := (subperm_of_subset nodup_range fun v hv => hno v (mem_range.mp hv)).length_le
      rw [length_range] at this
      omega
    refine ⟨_, hrun', ?_, ?_⟩
    · rw [if_pos (by omega)]
      exact ⟨fun _ => exists_cycle hv hout hinto, fun _ => ⟨_, rfl⟩⟩
    · intro rows hrows
      rw [if_pos (by omega)] at hrows
      exact nomatch hrows

end

end Rayforce.Graph
