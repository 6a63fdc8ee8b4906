import Rayforce.Library.Probing

/-! Pairs of rows found by nested loops and by hash tables. -/

namespace Rayforce.Library.Joining

open Library.Probing Function List

variable {order : List ℕ} {start : ℕ} {fuel : ℕ}

section

variable {α β : Type*}

def emit (outer : Bool) (l : α) (ms : List β) : List (α × Option β) :=
  if ms.isEmpty && outer then [(l, none)] else ms.map fun r => (l, some r)

def pairs (outer : Bool) (E : α → β → Bool) (ls : List α) (rs : List β) : List (α × Option β) :=
  ls.flatMap fun l => emit outer l (rs.filter (E l))

variable {outer : Bool} {E : α → β → Bool} {ls : List α} {rs rs' : List β}

lemma emit_perm {l : α} {ms ms' : List β} (h : ms.Perm ms') : (emit outer l ms).Perm (emit outer l ms') := by
  have he : ms.isEmpty = ms'.isEmpty := by
    rw [Bool.eq_iff_iff, List.isEmpty_iff, List.isEmpty_iff]
    constructor
    · rintro rfl
      exact h.nil_eq.symm
    · rintro rfl
      exact h.eq_nil
  rw [emit, emit, he]
  split_ifs
  · exact .refl _
  · exact h.map _

lemma pairs_perm (h : rs.Perm rs') : (pairs outer E ls rs).Perm (pairs outer E ls rs') := by
  apply List.Perm.flatMap_left
  intro l _
  exact emit_perm (h.filter _)

lemma emit_inner (l : α) (ms : List β) : emit false l ms = ms.map fun r => (l, some r) := by simp [emit]

lemma pairs_transpose (ls : List α) (rs : List β) :
    (pairs false E ls rs).Perm (rs.flatMap fun r => (ls.filter fun l => E l r).map fun l => (l, some r)) := by
  induction ls with
  | nil => simp [pairs]
  | cons l ls ih =>
    have hl : rs.flatMap (fun r => if E l r then [(l, some r)] else []) = emit false l (rs.filter (E l)) := by
      rw [emit_inner]
      clear ih
      induction rs with
      | nil => rfl
      | cons r rs ih =>
        rw [flatMap_cons, ih, filter_cons]
        split_ifs <;> rfl
    have hsplit : (rs.flatMap fun r => ((l :: ls).filter fun l => E l r).map fun l => (l, some r)) =
        rs.flatMap fun r => (if E l r then [(l, some r)] else []) ++ (ls.filter fun l => E l r).map fun l =>
          (l, some r) := by
      congr 1
      funext r
      rw [filter_cons]
      split_ifs <;> rfl
    rw [hsplit, pairs, flatMap_cons, ← hl]
    exact (List.Perm.append_left _ ih).trans (flatMap_append_perm rs _ _)

lemma mem_pairs_inner {p : α × Option β} :
    p ∈ pairs false E ls rs ↔ ∃ l ∈ ls, ∃ r ∈ rs, E l r ∧ p = (l, some r) := by
  simp only [pairs, emit_inner, mem_flatMap, List.mem_map, mem_filter]
  constructor
  · rintro ⟨l, hl, r, ⟨hr, he⟩, rfl⟩
    exact ⟨l, hl, r, hr, he, rfl⟩
  · rintro ⟨l, hl, r, hr, he, rfl⟩
    exact ⟨l, hl, r, ⟨hr, he⟩, rfl⟩

end

section

variable {α γ : Type*}

lemma partition_perm (part : α → ℕ) (P : ℕ) (xs : List α) (h : ∀ x ∈ xs, part x < P) :
    ((List.range P).flatMap fun p => xs.filter fun x => part x = p).Perm xs := by
  induction P generalizing xs with
  | zero =>
    cases xs with
    | nil => simp
    | cons x xs => exact absurd (h x (by simp)) (Nat.not_lt_zero _)
  | succ P ih =>
    rw [range_succ, flatMap_append, flatMap_singleton]
    have hlow := ih (xs.filter fun x => part x ≠ P) (by
      intro x hx
      obtain ⟨hx, hne⟩ := mem_filter.mp hx
      have := h x hx
      have : part x ≠ P := by simpa using hne
      omega)
    have hsame : ((List.range P).flatMap fun p => (xs.filter fun x => part x ≠ P).filter fun x => part x = p) =
        (List.range P).flatMap fun p => xs.filter fun x => part x = p := by
      apply flatMap_congr
      intro p hp
      have hlt := mem_range.mp hp
      rw [List.filter_filter]
      apply filter_congr
      intro x _
      by_cases hx : part x = p
      · have hne : p ≠ P := by omega
        simp [hx, hne]
      · simp [hx]
    rw [hsame] at hlow
    refine (hlow.append_right _).trans ?_
    have := filter_append_perm (fun x => part x ≠ P) xs
    simpa using this

lemma flatMap_partition_perm (part : α → ℕ) (P : ℕ) (xs : List α) (h : ∀ x ∈ xs, part x < P) (f : α → List γ) :
    ((List.range P).flatMap fun p => (xs.filter fun x => part x = p).flatMap f).Perm (xs.flatMap f) := by
  rw [← flatMap_assoc]
  exact (partition_perm part P xs h).flatMap_right f

end

section

structure Chains where
  heads : ℕ → Option ℕ
  next : ℕ → Option ℕ

def Chains.empty : Chains := ⟨fun _ => none, fun _ => none⟩

def Chains.push (c : Chains) (slot r : ℕ) : Chains :=
  ⟨update c.heads slot (some r), update c.next r (c.heads slot)⟩

def Chains.skip (c : Chains) (r : ℕ) : Chains := { c with next := update c.next r none }

def follow (next : ℕ → Option ℕ) : ℕ → Option ℕ → List ℕ
  | 0, _ => []
  | _, none => []
  | fuel + 1, some r => r :: follow next fuel (next r)

def chain (skip : ℕ → Bool) (slot : ℕ → ℕ) (order : List ℕ) : Chains :=
  order.foldl (fun c r => if skip r then c.skip r else c.push (slot r) r) .empty

def Linked (next : ℕ → Option ℕ) : Option ℕ → List ℕ → Prop
  | o, [] => o = none
  | o, r :: rs => o = some r ∧ Linked next (next r) rs

variable {next : ℕ → Option ℕ} {o : Option ℕ} {rs : List ℕ}

lemma follow_linked (h : Linked next o rs) (hf : rs.length ≤ fuel) : follow next fuel o = rs := by
  induction rs generalizing fuel o with
  | nil =>
    obtain rfl : o = none := h
    cases fuel <;> rfl
  | cons r rs ih =>
    obtain ⟨rfl, hrs⟩ := h
    cases fuel with
    | zero => cases hf
    | succ fuel => rw [follow, ih hrs (Nat.le_of_succ_le_succ hf)]

lemma Linked.update (h : Linked next o rs) {r : ℕ} (hr : r ∉ rs) (x : Option ℕ) :
    Linked (update next r x) o rs := by
  induction rs generalizing o with
  | nil => exact h
  | cons a rs ih =>
    obtain ⟨rfl, hrs⟩ := h
    refine ⟨rfl, ?_⟩
    have hne : a ≠ r := fun he => hr (by simp [he])
    rw [update_of_ne hne]
    exact ih hrs fun hm => hr (mem_cons_of_mem _ hm)

lemma chain_linked (skip : ℕ → Bool) (slot : ℕ → ℕ) (hn : order.Nodup) (s : ℕ) :
    Linked (chain skip slot order).next ((chain skip slot order).heads s)
      (order.filter fun r => !skip r && slot r == s).reverse := by
  induction order using reverseRecOn generalizing s with
  | nil => rfl
  | append_singleton order r ih =>
    obtain ⟨hno, -, hd⟩ := nodup_append.mp hn
    have hr : ∀ s, r ∉ (order.filter fun r => !skip r && slot r == s).reverse := by
      intro s hm
      exact hd r (mem_filter.mp (mem_reverse.mp hm)).1 r (by simp) rfl
    have hc : chain skip slot (order ++ [r]) =
        if skip r then (chain skip slot order).skip r else (chain skip slot order).push (slot r) r := by
      rw [chain, foldl_append]
      rfl
    rw [hc, filter_append, filter_singleton]
    cases hs : skip r with
    | true =>
      simp only [if_true, Bool.not_true, Bool.false_and, cond_false, append_nil]
      exact (ih hno s).update (hr s) none
    | false =>
      simp only [Bool.false_eq_true, if_false, Bool.not_false, Bool.true_and]
      by_cases he : slot r = s
      · subst he
        simp only [beq_self_eq_true, cond_true, reverse_append, reverse_singleton, Chains.push]
        refine ⟨by rw [update_self], ?_⟩
        rw [update_self]
        exact (ih hno _).update (hr _) _
      · have hb : (slot r == s) = false := by simpa using he
        simp only [hb, cond_false, append_nil, Chains.push]
        rw [update_of_ne (Ne.symm he)]
        exact (ih hno s).update (hr s) _

lemma follow_chain (skip : ℕ → Bool) (slot : ℕ → ℕ) (hn : order.Nodup) (s : ℕ) (hf : order.length ≤ fuel) :
    follow (chain skip slot order).next fuel ((chain skip slot order).heads s) =
      (order.filter fun r => !skip r && slot r == s).reverse := by
  apply follow_linked (chain_linked skip slot hn s)
  rw [length_reverse]
  exact (length_filter_le _ _).trans hf

end

section

variable {β : Type}

def sweep (cells : Cells β) : ℕ → ℕ → List β
  | 0, _ => []
  | fuel + 1, s =>
    match cellAt cells s with
    | none => []
    | some e => e :: sweep cells fuel ((s + 1) % cells.length)

variable {cells cells' : Cells β} {home : β → ℕ} {e : β}

lemma sweep_spec (fuel : ℕ) {s : ℕ} (hs : s < cells.length) :
    ∃ k ≤ fuel, sweep cells fuel s = (List.range k).filterMap (fun j => cellAt cells ((s + j) % cells.length)) ∧
      (∀ j < k, (cellAt cells ((s + j) % cells.length)).isSome) ∧
        (k < fuel → cellAt cells ((s + k) % cells.length) = none) := by
  induction fuel generalizing s with
  | zero => exact ⟨0, le_rfl, rfl, by simp, by simp⟩
  | succ fuel ih =>
    have h0 : (s + 0) % cells.length = s := Nat.mod_eq_of_lt hs
    cases hc : cellAt cells s with
    | none =>
      refine ⟨0, Nat.zero_le _, ?_, by simp, fun _ => by rw [h0, hc]⟩
      rw [sweep, hc]
      rfl
    | some e =>
      obtain ⟨k, hk, he, hall, hfree⟩ := ih (Nat.mod_lt (s + 1) (by omega : 0 < cells.length))
      have hshift : ∀ j, ((s + 1) % cells.length + j) % cells.length = (s + (j + 1)) % cells.length := by
        intro j
        rw [Nat.mod_add_mod, Nat.add_assoc, Nat.add_comm 1 j]
      refine ⟨k + 1, by omega, ?_, ?_, ?_⟩
      · rw [sweep, hc, range_succ_eq_map, filterMap_cons, h0, hc, filterMap_map, he]
        simp only [comp_def, hshift, Nat.succ_eq_add_one]
      · intro j hj
        cases j with
        | zero => rw [h0, hc]; rfl
        | succ j => rw [← hshift]; exact hall j (by omega)
      · intro hlt
        rw [← hshift]
        exact hfree (by omega)

lemma mem_entries : e ∈ cells.filterMap id ↔ ∃ s < cells.length, cellAt cells s = some e := by
  simp only [mem_filterMap, id_eq, exists_eq_right]
  constructor
  · intro h
    obtain ⟨s, hs⟩ := exists_cellAt h
    exact ⟨s, (List.getElem?_eq_some_iff.mp (cellAt_eq_some.mp hs)).1, hs⟩
  · rintro ⟨s, -, hs⟩
    exact mem_of_cellAt hs

lemma slot_unique (hn : (cells.filterMap id).Nodup) {s t : ℕ} (hs : cellAt cells s = some e)
    (ht : cellAt cells t = some e) :
    s = t := by
  by_contra hne
  wlog hlt : s < t generalizing s t
  · exact this ht hs (Ne.symm hne) (by omega)
  have hst := cellAt_eq_some.mp hs
  have htt := cellAt_eq_some.mp ht
  have hlen := (List.getElem?_eq_some_iff.mp htt).1
  have hsplit := take_append_drop t cells
  rw [← hsplit, filterMap_append] at hn
  have h1 : e ∈ (cells.take t).filterMap id := by
    rw [mem_filterMap]
    refine ⟨some e, mem_of_getElem? (i := s) ?_, rfl⟩
    rw [getElem?_take_of_lt hlt, hst]
  have h2 : e ∈ (cells.drop t).filterMap id := by
    rw [mem_filterMap]
    refine ⟨some e, mem_of_getElem? (i := 0) ?_, rfl⟩
    rw [getElem?_drop, Nat.add_zero, htt]
  exact (nodup_append.mp hn).2.2 e h1 e h2 rfl

lemma sweep_perm (hc : Chained home cells) (hn : (cells.filterMap id).Nodup) (hroom : occupied cells <
    cells.length) {q : β → Bool} (hq : ∀ e, q e → home e % cells.length = start % cells.length) :
    ((sweep cells cells.length (start % cells.length)).filter q).Perm ((cells.filterMap id).filter q) := by
  have hpos : 0 < cells.length := by omega
  obtain ⟨k, hk, he, hall, hfree⟩ := sweep_spec cells.length (Nat.mod_lt start hpos)
  obtain ⟨t, ht, htn⟩ := exists_free hroom
  have hkl : k < cells.length := by
    by_contra hge
    obtain rfl : k = cells.length := by omega
    have hlt := Nat.mod_lt start hpos
    have hreach : ∃ j < cells.length, (start % cells.length + j) % cells.length = t := by
      rcases le_or_gt (start % cells.length) t with hle | hgt
      · refine ⟨t - start % cells.length, by omega, ?_⟩
        rw [Nat.add_sub_cancel' hle, Nat.mod_eq_of_lt ht]
      · refine ⟨t + cells.length - start % cells.length, by omega, ?_⟩
        rw [show start % cells.length + (t + cells.length - start % cells.length) = t + cells.length by omega,
          Nat.add_mod_right, Nat.mod_eq_of_lt ht]
    obtain ⟨j, hj, hjt⟩ := hreach
    have := hall j hj
    rw [hjt, htn] at this
    cases this
  have hsweep : ∀ e, e ∈ sweep cells cells.length (start % cells.length) ↔
      ∃ j < k, cellAt cells ((start % cells.length + j) % cells.length) = some e := by
    intro e
    rw [he]
    simp only [mem_filterMap, mem_range]
  have hnd : (sweep cells cells.length (start % cells.length)).Nodup := by
    rw [he, List.Nodup, pairwise_filterMap]
    refine List.Pairwise.imp_of_mem ?_ nodup_range
    rintro i j hi hj hne a ha b hb rfl
    have hmod := slot_unique hn ha hb
    exact hne ((Nat.ModEq.add_left_cancel' (start % cells.length) hmod).eq_of_lt_of_lt
      ((mem_range.mp hi).trans hkl) ((mem_range.mp hj).trans hkl))
  rw [perm_ext_iff_of_nodup (hnd.filter _) (hn.filter _)]
  intro e
  rw [mem_filter, mem_filter, hsweep, mem_entries]
  constructor
  · rintro ⟨⟨j, hj, hcell⟩, hqe⟩
    exact ⟨⟨_, Nat.mod_lt _ hpos, hcell⟩, hqe⟩
  · rintro ⟨⟨s, hs, hcell⟩, hqe⟩
    obtain ⟨i, rfl, hbefore⟩ := hc s e hcell
    have hhome : ∀ j, (home e + j) % cells.length = (start % cells.length + j) % cells.length := by
      intro j
      rw [← Nat.mod_add_mod, hq e hqe]
    refine ⟨⟨i, ?_, by rw [← hhome, hcell]⟩, hqe⟩
    have hfr := hfree hkl
    rw [← hhome] at hfr
    by_contra hge
    rcases (not_lt.mp hge).lt_or_eq with hlt | rfl
    · have := hbefore k hlt
      rw [hfr] at this
      cases this
    · rw [hcell] at hfr
      cases hfr

lemma place_entries (h : place cells start e = some cells') :
    (cells'.filterMap id).Perm (e :: cells.filterMap id) := by
  obtain ⟨s, k, -, hs, hfree, -, rfl⟩ := place_spec h
  have hget : cells[s]? = some none := by
    cases hc : cells[s]? with
    | none => exact absurd (getElem?_eq_none_iff.mp hc) (by omega)
    | some c =>
      rw [cellAt, hc] at hfree
      obtain rfl : c = none := hfree
      rfl
  have hset : cells.set s (some e) = cells.take s ++ some e :: cells.drop (s + 1) :=
    set_eq_take_append_cons_drop ▸ by simp [hs]
  have hold : cells = cells.take s ++ none :: cells.drop (s + 1) := by
    rw [← (List.getElem?_eq_some_iff.mp hget).2, getElem_cons_drop, take_append_drop]
  rw [hset]
  conv_rhs => rw [hold]
  simp only [filterMap_append, filterMap_cons, id_eq]
  exact perm_middle

end

end Rayforce.Library.Joining
