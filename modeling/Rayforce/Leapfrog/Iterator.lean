import Rayforce.Library.Bisect

/-! Iterators over adjacency lists, and their leapfrog search. -/

namespace Rayforce.Leapfrog

open Library.Bisect List Option

variable {i : ℕ} {it' : Iter} {top : Iter}

def slice (offsets : List ℕ) (targets : List ℤ) (node : ℕ) : List ℤ :=
  (targets.take (offsets.getD (node + 1) 0)).drop (offsets.getD node 0)

/-- The targets of `node` lie between its offsets, ascending. -/
structure Csr where
  nNodes : ℕ
  offsets : List ℕ
  targets : List ℤ
  stop_le : ∀ node < nNodes, offsets.getD (node + 1) 0 ≤ targets.length
  sorted : ∀ node < nNodes, (slice offsets targets node).Pairwise (· < ·)

def Csr.adj (c : Csr) (node : ℕ) : List ℤ := slice c.offsets c.targets node

structure Rel where
  fwd : Csr
  rev : Csr
  edge : ℤ → ℤ → Prop
  fwd_adj : ∀ (s : ℕ) (d : ℤ), s < fwd.nNodes → (d ∈ fwd.adj s ↔ edge s d)
  rev_adj : ∀ (s : ℤ) (d : ℕ), d < rev.nNodes → (s ∈ rev.adj d ↔ edge s d)

structure Iter where
  targets : List ℤ
  start : ℕ
  stop : ℕ
  pos : ℕ
deriving DecidableEq

def int64Max : ℤ := 2 ^ 63 - 1

def lftjAtEnd (it : Iter) : Bool := it.stop ≤ it.pos

def lftjKey (it : Iter) : ℤ := if it.stop ≤ it.pos then int64Max else it.targets.getD it.pos 0

def lftjNext (it : Iter) : Iter := if it.pos < it.stop then { it with pos := it.pos + 1 } else it

def lftjSeek (it : Iter) (v : ℤ) : Iter :=
  { it with pos := bisect (fun i => it.targets.getD i 0 < v) (it.stop - it.pos) it.pos it.stop }

def lftjOpen (c : Csr) (parent : ℤ) : Iter :=
  if parent < 0 ∨ (c.nNodes : ℤ) ≤ parent then ⟨[], 0, 0, 0⟩
  else
    let start := c.offsets.getD parent.toNat 0
    ⟨c.targets, start, c.offsets.getD (parent.toNat + 1) 0, start⟩

def maxIndex (iters : List Iter) : ℕ :=
  (List.range iters.length).foldl (fun best i =>
    if (iters[best]?.elim int64Max lftjKey) < (iters[i]?.elim int64Max lftjKey) then i else best) 0

def searchLoop : ℕ → List Iter → ℕ → Option (Option (ℤ × List Iter))
  | 0, _, _ => none
  | fuel + 1, iters, maxIdx =>
    match iters[maxIdx]? with
    | none => none
    | some top =>
      let maxVal := lftjKey top
      let next := (maxIdx + 1) % iters.length
      match iters[next]? with
      | none => none
      | some it =>
        let it := lftjSeek it maxVal
        let iters := iters.set next it
        if lftjAtEnd it then some none
        else if lftjKey it = maxVal ∧ iters.all (fun i => lftjKey i = maxVal) then
          some (some (maxVal, iters))
        else searchLoop fuel iters next

def searchFuel (iters : List Iter) : ℕ :=
  ((iters.map fun it => it.stop - it.pos).sum + 1) * iters.length

def leapfrogSearch (iters : List Iter) : Option (Option (ℤ × List Iter)) :=
  if iters = [] then some none
  else if iters.any lftjAtEnd then some none
  else searchLoop (searchFuel iters) iters (maxIndex iters)

section

variable {it : Iter} {v x : ℤ} {xs : List ℤ}

def remaining (it : Iter) : List ℤ := (it.targets.take it.stop).drop it.pos

structure Iter.Ok (it : Iter) : Prop where
  stop_le : it.stop ≤ it.targets.length
  sorted : (remaining it).Pairwise (· < ·)

section

variable (h : it.Ok)
include h

lemma remaining_length : (remaining it).length = it.stop - it.pos := by
  have hle := h.stop_le
  rw [remaining, length_drop, length_take]
  omega

lemma remaining_getElem? {j : ℕ} (hj : it.pos + j < it.stop) :
    (remaining it)[j]? = some (it.targets.getD (it.pos + j) 0) := by
  have hlt : it.pos + j < it.targets.length := hj.trans_le h.stop_le
  rw [remaining, getElem?_drop, getElem?_take_of_lt hj, getElem?_eq_getElem hlt, getD_eq_getElem _ _ hlt]

lemma lftjAtEnd_iff : lftjAtEnd it = true ↔ remaining it = [] := by
  rw [← length_eq_zero_iff, remaining_length h, lftjAtEnd, decide_eq_true_eq]
  omega

lemma lftjKey_eq (hr : remaining it = x :: xs) : lftjKey it = x := by
  have hlen := remaining_length h
  rw [hr, length_cons] at hlen
  have hget := remaining_getElem? h (j := 0) (by omega)
  rw [hr] at hget
  rw [lftjKey, if_neg (by omega)]
  exact (some.inj hget).symm

lemma lftjNext_ok : (lftjNext it).Ok ∧ remaining (lftjNext it) = (remaining it).tail := by
  have htail : remaining (lftjNext it) = (remaining it).tail := by
    rw [lftjNext]
    by_cases hlt : it.pos < it.stop
    · rw [if_pos hlt, remaining, remaining, tail_drop]
    · have hnil : remaining it = [] := by
        rw [← length_eq_zero_iff, remaining_length h]
        omega
      rw [if_neg hlt, hnil, tail_nil]
  refine ⟨⟨?_, ?_⟩, htail⟩
  · rw [lftjNext]
    split
    · exact h.stop_le
    · exact h.stop_le
  · rw [htail]
    exact h.sorted.sublist (tail_sublist _)

lemma lftjSeek_spec (hpos : it.pos ≤ it.stop) : ∃ n, (lftjSeek it v).pos = it.pos + n ∧ it.pos + n ≤ it.stop ∧
      remaining (lftjSeek it v) = (remaining it).drop n ∧
      (∀ y ∈ (remaining it).take n, y < v) ∧ ∀ y ∈ (remaining it).drop n, v ≤ y := by
  have hget : ∀ i, it.pos ≤ i → i < it.stop → (remaining it)[i - it.pos]? = some (it.targets.getD i 0) := by
    intro i h1 h2
    have hi := remaining_getElem? h (j := i - it.pos) (by omega)
    rwa [show it.pos + (i - it.pos) = i by omega] at hi
  have hmono : ∀ i j, it.pos ≤ i → i ≤ j → j < it.stop →
      decide (it.targets.getD j 0 < v) = true → decide (it.targets.getD i 0 < v) = true := by
    intro i j hi hij hj hv
    rw [decide_eq_true_eq] at hv ⊢
    rcases Nat.lt_or_eq_of_le hij with hlt | rfl
    · obtain ⟨hi', hie⟩ := List.getElem?_eq_some_iff.mp (hget i hi (by omega))
      obtain ⟨hj', hje⟩ := List.getElem?_eq_some_iff.mp (hget j (by omega) hj)
      have hsorted := pairwise_iff_getElem.mp h.sorted _ _ hi' hj' (by omega)
      rw [hie, hje] at hsorted
      exact hsorted.trans hv
    · exact hv
  obtain ⟨h1, h2, h3, h4⟩ := bisect_spec hmono hpos le_rfl
  obtain ⟨r, hr⟩ : ∃ r, r = bisect (fun i => it.targets.getD i 0 < v) (it.stop - it.pos) it.pos it.stop :=
    ⟨_, rfl⟩
  rw [← hr] at h1 h2 h3 h4
  have hseek : lftjSeek it v = { it with pos := r } := by rw [lftjSeek, hr]
  refine ⟨r - it.pos, ?_, by omega, ?_, fun y hy => ?_, fun y hy => ?_⟩
  · rw [hseek]
    exact (Nat.add_sub_of_le h1).symm
  · rw [hseek, remaining, remaining, drop_drop, Nat.add_sub_of_le h1]
  · obtain ⟨j, hj⟩ := mem_iff_getElem?.mp hy
    have hjlt : j < r - it.pos := by
      by_contra hge
      rw [getElem?_eq_none (by rw [length_take]; omega)] at hj
      cases hj
    rw [getElem?_take_of_lt hjlt, remaining_getElem? h (by omega)] at hj
    rw [← some.inj hj]
    exact decide_eq_true_eq.mp (h3 (it.pos + j) (by omega) (by omega))
  · obtain ⟨j, hj⟩ := mem_iff_getElem?.mp hy
    rw [getElem?_drop] at hj
    have hlt : it.pos + (r - it.pos + j) < it.stop := by
      by_contra hge
      rw [getElem?_eq_none (by rw [remaining_length h]; omega)] at hj
      cases hj
    rw [remaining_getElem? h hlt] at hj
    rw [← some.inj hj]
    exact not_lt.mp (decide_eq_false_iff_not.mp (h4 (it.pos + (r - it.pos + j)) (by omega) hlt))

end

end

section

variable {iters iters' : List Iter} {fuel maxIdx c : ℕ} {it : Iter} {x v : ℤ}

def Common (iters : List Iter) (x : ℤ) : Prop := ∀ it ∈ iters, x ∈ remaining it

def Ready (it : Iter) : Prop := it.Ok ∧ remaining it ≠ []

def totalLeft (iters : List Iter) : ℕ := (iters.map fun it => it.stop - it.pos).sum

def Narrows (it it' : Iter) : Prop := it'.Ok ∧ remaining it' <:+ remaining it

structure Searching (iters : List Iter) (maxIdx c : ℕ) : Prop where
  ready : ∀ it ∈ iters, Ready it
  lt_length : maxIdx < iters.length
  -- the last `c` iterators up to the top one have its key
  same : ∀ j ≤ c, j < iters.length ∧ ∀ it top, iters[(maxIdx + iters.length - j) % iters.length]? = some it →
    iters[maxIdx]? = some top → lftjKey it = lftjKey top
  top : ∀ it ∈ iters, ∀ top, iters[maxIdx]? = some top → lftjKey it ≤ lftjKey top

section

variable (h : Ready it)
include h

lemma Ready.pos_lt : it.pos < it.stop := by
  have hlen := remaining_length h.1
  have hne := length_pos_iff.mpr h.2
  omega

lemma Ready.key_mem : lftjKey it ∈ remaining it := by
  obtain ⟨x, xs, hx⟩ := exists_cons_of_ne_nil h.2
  rw [lftjKey_eq h.1 hx, hx]
  exact mem_cons_self

lemma Ready.key_le (hx : x ∈ remaining it) : lftjKey it ≤ x := by
  obtain ⟨y, ys, hy⟩ := exists_cons_of_ne_nil h.2
  have hsorted := h.1.sorted
  rw [hy] at hx hsorted
  rw [lftjKey_eq h.1 hy]
  obtain rfl | hx := mem_cons.mp hx
  · exact le_rfl
  · exact ((pairwise_cons.mp hsorted).1 x hx).le

lemma seek_ok : (lftjSeek it v).Ok := by
  obtain ⟨n, -, -, hdrop, -, -⟩ := lftjSeek_spec (v := v) h.1 h.pos_lt.le
  exact ⟨h.1.stop_le, by rw [hdrop]; exact h.1.sorted.sublist (drop_sublist n _)⟩

lemma seek_narrows : Narrows it (lftjSeek it v) := by
  obtain ⟨n, -, -, hdrop, -, -⟩ := lftjSeek_spec (v := v) h.1 h.pos_lt.le
  exact ⟨seek_ok h, by rw [hdrop]; exact drop_suffix n _⟩

lemma seek_keeps (hx : x ∈ remaining it) (hv : v ≤ x) : x ∈ remaining (lftjSeek it v) := by
  obtain ⟨n, -, -, hdrop, htake, -⟩ := lftjSeek_spec (v := v) h.1 h.pos_lt.le
  rw [hdrop]
  rw [← take_append_drop n (remaining it)] at hx
  obtain hx | hx := mem_append.mp hx
  · exact absurd (htake x hx) (not_lt.mpr hv)
  · exact hx

lemma seek_le (hx : x ∈ remaining (lftjSeek it v)) : v ≤ x := by
  obtain ⟨n, -, -, hdrop, -, hle⟩ := lftjSeek_spec (v := v) h.1 h.pos_lt.le
  rw [hdrop] at hx
  exact hle x hx

lemma seek_stay (hv : v ≤ lftjKey it) : lftjSeek it v = it := by
  obtain ⟨n, hpos, hle, hdrop, htake, -⟩ := lftjSeek_spec (v := v) h.1 h.pos_lt.le
  have hn : n = 0 := by
    by_contra hne
    obtain ⟨x, xs, hx⟩ := exists_cons_of_ne_nil h.2
    have hmem : x ∈ (remaining it).take n := by
      rw [hx]
      obtain ⟨m, rfl⟩ := Nat.exists_eq_succ_of_ne_zero hne
      exact mem_cons_self
    rw [lftjKey_eq h.1 hx] at hv
    exact absurd (htake x hmem) (not_lt.mpr hv)
  rw [hn, Nat.add_zero] at hpos
  rw [lftjSeek] at hpos ⊢
  exact congrArg (fun p => { it with pos := p }) hpos

lemma seek_moves (hv : lftjKey it < v) : it.pos < (lftjSeek it v).pos := by
  obtain ⟨n, hpos, -, hdrop, -, hle⟩ := lftjSeek_spec (v := v) h.1 h.pos_lt.le
  rcases Nat.eq_zero_or_pos n with rfl | hn
  · exact absurd (hle _ h.key_mem) (not_le.mpr hv)
  · omega

end

def Found (iters : List Iter) : Option (ℤ × List Iter) → Prop
  | none => ∀ x, ¬Common iters x
  | some (v, iters') => List.Forall₂ Narrows iters iters' ∧ (∀ it ∈ iters', ∃ t, remaining it = v :: t) ∧
      ∀ x, Common iters x → Common iters' x

lemma totalLeft_set (hi : iters[i]? = some it) (it' : Iter) :
    totalLeft (iters.set i it') + (it.stop - it.pos) = totalLeft iters + (it'.stop - it'.pos) := by
  induction iters generalizing i with
  | nil => cases hi
  | cons a iters ih =>
    cases i with
    | zero =>
      obtain rfl : a = it := some.inj hi
      simp only [totalLeft, set_cons_zero, map_cons, sum_cons]
      omega
    | succ i =>
      have h := ih (i := i) hi
      simp only [totalLeft, set_cons_succ, map_cons, sum_cons] at h ⊢
      omega

section

variable (h : ∀ it ∈ iters, Ready it)
include h

lemma narrows_refl : List.Forall₂ Narrows iters iters :=
  forall₂_same.mpr fun it hit => ⟨(h it hit).1, suffix_rfl⟩

lemma narrows_set (hi : iters[i]? = some it) (hn : Narrows it it') :
    List.Forall₂ Narrows iters (iters.set i it') := by
  induction iters generalizing i with
  | nil => cases hi
  | cons a iters ih =>
    have htail : ∀ it ∈ iters, Ready it := fun b hb => h b (mem_cons_of_mem _ hb)
    cases i with
    | zero =>
      obtain rfl : a = it := some.inj hi
      exact .cons hn (narrows_refl htail)
    | succ i => exact .cons ⟨(h a mem_cons_self).1, suffix_rfl⟩ (ih htail hi)

omit h in
lemma narrows_trans {as bs cs : List Iter} (h : List.Forall₂ Narrows as bs)
    (h' : List.Forall₂ Narrows bs cs) : List.Forall₂ Narrows as cs := by
  induction h generalizing cs with
  | nil => exact h'
  | cons hab _ ih =>
    cases h' with
    | cons hbc h' => exact .cons ⟨hbc.1, hbc.2.trans hab.2⟩ (ih h')

lemma Found.of_set {r : Option (ℤ × List Iter)} (hi : iters[i]? = some it) (hn : Narrows it it')
    (hcommon : ∀ x, Common iters x → Common (iters.set i it') x) (hr : Found (iters.set i it') r) :
      Found iters r := by
  cases r with
  | none => exact fun x hx => hr x (hcommon x hx)
  | some r =>
    obtain ⟨hall, hheads, hcom⟩ := hr
    refine ⟨?_, hheads, fun x hx => hcom x (hcommon x hx)⟩
    exact narrows_trans (narrows_set h hi hn) hall

lemma common_set (hi : iters[i]? = some it)
    (hv : ∀ x, Common iters x → v ≤ x) (hx : Common iters x) : Common (iters.set i (lftjSeek it v)) x := by
  intro it' hit'
  have hmem : it ∈ iters := mem_of_getElem? hi
  obtain hit' | rfl := mem_or_eq_of_mem_set hit'
  · exact hx it' hit'
  · exact seek_keeps (h it hmem) (hx it hmem) (hv x hx)

end

lemma next_cases {k : ℕ} (h : maxIdx < k) :
    (maxIdx + 1 < k ∧ (maxIdx + 1) % k = maxIdx + 1) ∨ (maxIdx + 1 = k ∧ (maxIdx + 1) % k = 0) := by
  rcases Nat.lt_or_ge (maxIdx + 1) k with hlt | hge
  · exact .inl ⟨hlt, Nat.mod_eq_of_lt hlt⟩
  · have he : maxIdx + 1 = k := by omega
    exact .inr ⟨he, by rw [he, Nat.mod_self]⟩

lemma back_cases {k j : ℕ} (h : maxIdx < k) (hj : j < k) :
    (j ≤ maxIdx ∧ (maxIdx + k - j) % k = maxIdx - j) ∨ (maxIdx < j ∧ (maxIdx + k - j) % k = maxIdx + k - j) := by
  rcases Nat.lt_or_ge maxIdx j with hlt | hge
  · exact .inr ⟨hlt, Nat.mod_eq_of_lt (by omega)⟩
  · refine .inl ⟨hge, ?_⟩
    rw [show maxIdx + k - j = maxIdx - j + k by omega, Nat.add_mod_right, Nat.mod_eq_of_lt (by omega)]

section

variable (h : Searching iters maxIdx c)
include h

lemma Searching.stay (htop : iters[maxIdx]? = some top)
    (hnext : iters[(maxIdx + 1) % iters.length]? = some it) (hkey : lftjKey it = lftjKey top)
    (hne : ¬∀ i ∈ iters, lftjKey i = lftjKey top) : Searching iters ((maxIdx + 1) % iters.length) (c + 1) := by
  have hlt := h.lt_length
  have hsame : ∀ j ≤ c + 1, j < iters.length → ∀ a,
      iters[((maxIdx + 1) % iters.length + iters.length - j) % iters.length]? = some a →
      lftjKey a = lftjKey top := by
    intro j hj hjk a ha
    have hback := back_cases (Nat.mod_lt (maxIdx + 1) (by omega)) hjk
    have hnx := next_cases hlt
    cases j with
    | zero =>
      have he : ((maxIdx + 1) % iters.length + iters.length - 0) % iters.length =
          (maxIdx + 1) % iters.length := by omega
      rw [he, hnext] at ha
      rw [← some.inj ha, hkey]
    | succ j =>
      obtain ⟨hjk', hall⟩ := h.same j (by omega)
      have hback' := back_cases hlt hjk'
      have he : ((maxIdx + 1) % iters.length + iters.length - (j + 1)) % iters.length =
          (maxIdx + iters.length - j) % iters.length := by omega
      rw [he] at ha
      exact hall a top ha htop
  have hlast : c + 1 < iters.length := by
    have hck := (h.same c le_rfl).1
    by_contra hge
    -- the indices seen are all of them
    refine hne fun a ha => ?_
    obtain ⟨i, hi⟩ := mem_iff_getElem?.mp ha
    have hik : i < iters.length := (List.getElem?_eq_some_iff.mp hi).1
    obtain ⟨j, hj, hij⟩ : ∃ j < iters.length, (maxIdx + iters.length - j) % iters.length = i := by
      rcases Nat.lt_or_ge maxIdx i with hmi | hmi
      · exact ⟨maxIdx + iters.length - i, by omega, by
          rw [show maxIdx + iters.length - (maxIdx + iters.length - i) = i by omega, Nat.mod_eq_of_lt hik]⟩
      · exact ⟨maxIdx - i, by omega, by
          rw [show maxIdx + iters.length - (maxIdx - i) = i + iters.length by omega,
            Nat.add_mod_right, Nat.mod_eq_of_lt hik]⟩
    rw [← hij] at hi
    exact (h.same j (by omega)).2 a top hi htop
  refine ⟨h.ready, Nat.mod_lt _ (by omega), fun j hj => ⟨by omega, fun a b ha hb => ?_⟩, fun a ha b hb => ?_⟩
  · rw [hnext] at hb
    rw [← some.inj hb, hkey]
    exact hsame j hj (by omega) a ha
  · rw [hnext] at hb
    rw [← some.inj hb, hkey]
    exact h.top a ha top htop

lemma Searching.move (htop : iters[maxIdx]? = some top) (hnext : iters[(maxIdx + 1) % iters.length]? = some it)
    (hend : remaining (lftjSeek it (lftjKey top)) ≠ []) :
    Searching (iters.set ((maxIdx + 1) % iters.length) (lftjSeek it (lftjKey top)))
    ((maxIdx + 1) % iters.length) 0 := by
  have hmem : it ∈ iters := mem_of_getElem? hnext
  have hready : Ready (lftjSeek it (lftjKey top)) := ⟨seek_ok (h.ready it hmem), hend⟩
  have hlt := h.lt_length
  have hnlt : (maxIdx + 1) % iters.length < iters.length := Nat.mod_lt _ (by omega)
  have hset : (iters.set ((maxIdx + 1) % iters.length) (lftjSeek it (lftjKey top)))[(maxIdx + 1) %
      iters.length]? = some (lftjSeek it (lftjKey top)) := by
    rw [getElem?_set_self hnlt]
  refine ⟨fun a ha => ?_, by rwa [length_set], fun j hj => ⟨?_, fun a b ha hb => ?_⟩, fun a ha b hb => ?_⟩
  · obtain ha | rfl := mem_or_eq_of_mem_set ha
    · exact h.ready a ha
    · exact hready
  · rw [length_set]
    omega
  · obtain rfl : j = 0 := by omega
    rw [Nat.sub_zero, Nat.add_mod_right, length_set, Nat.mod_mod] at ha
    rw [ha] at hb
    rw [some.inj hb]
  · rw [hset] at hb
    obtain rfl := some.inj hb
    obtain ha | rfl := mem_or_eq_of_mem_set ha
    · exact (h.top a ha top htop).trans (seek_le (h.ready it hmem) hready.key_mem)
    · exact le_rfl

lemma searchLoop_spec (hfuel : totalLeft iters * iters.length + (iters.length - c) ≤ fuel) :
    ∃ r, searchLoop fuel iters maxIdx = some r ∧ Found iters r := by
  induction fuel generalizing iters maxIdx c with
  | zero =>
    have hc := (h.same c le_rfl).1
    omega
  | succ fuel ih =>
    have hlt := h.lt_length
    have hc := (h.same c le_rfl).1
    have hnlt : (maxIdx + 1) % iters.length < iters.length := Nat.mod_lt _ (by omega)
    obtain ⟨top, htop⟩ : ∃ top, iters[maxIdx]? = some top := ⟨_, getElem?_eq_getElem hlt⟩
    obtain ⟨it, hnext⟩ : ∃ it, iters[(maxIdx + 1) % iters.length]? = some it :=
      ⟨_, getElem?_eq_getElem hnlt⟩
    have hmem : it ∈ iters := mem_of_getElem? hnext
    have hready := h.ready it hmem
    have hmin : ∀ x, Common iters x → lftjKey top ≤ x := fun x hx =>
      (h.ready top (mem_of_getElem? htop)).key_le (hx top (mem_of_getElem? htop))
    have hset : ∀ x, Common iters x →
        Common (iters.set ((maxIdx + 1) % iters.length) (lftjSeek it (lftjKey top))) x :=
      fun x hx => common_set h.ready hnext hmin hx
    have hself : lftjSeek it (lftjKey top) ∈
        iters.set ((maxIdx + 1) % iters.length) (lftjSeek it (lftjKey top)) :=
      mem_iff_getElem?.mpr ⟨_, getElem?_set_self hnlt⟩
    simp only [searchLoop, htop, hnext]
    by_cases hend : lftjAtEnd (lftjSeek it (lftjKey top)) = true
    · rw [if_pos hend]
      refine ⟨none, rfl, fun x hx => ?_⟩
      have hx' := hset x hx _ hself
      rw [(lftjAtEnd_iff (seek_ok hready)).mp hend] at hx'
      exact absurd hx' not_mem_nil
    · rw [if_neg hend]
      have hleft : remaining (lftjSeek it (lftjKey top)) ≠ [] :=
        fun hnil => hend ((lftjAtEnd_iff (seek_ok hready)).mpr hnil)
      have hmove := h.move htop hnext hleft
      by_cases hall : lftjKey (lftjSeek it (lftjKey top)) = lftjKey top ∧
          (iters.set ((maxIdx + 1) % iters.length) (lftjSeek it (lftjKey top))).all
            (fun i => lftjKey i = lftjKey top) = true
      · rw [if_pos hall]
        refine ⟨_, rfl, narrows_set h.ready hnext (seek_narrows hready), fun a ha => ?_, hset⟩
        obtain ⟨y, ys, hy⟩ := exists_cons_of_ne_nil (hmove.ready a ha).2
        have hkey : lftjKey a = lftjKey top := by simpa using all_eq_true.mp hall.2 a ha
        rw [lftjKey_eq (hmove.ready a ha).1 hy] at hkey
        exact ⟨ys, by rw [hy, hkey]⟩
      · rw [if_neg hall]
        rcases eq_or_lt_of_le (h.top it hmem top htop) with hkey | hkey
        · -- the round leaves the iterators as they are
          have hstay : lftjSeek it (lftjKey top) = it := seek_stay hready hkey.ge
          have hsame : iters.set ((maxIdx + 1) % iters.length) it = iters := by
            obtain ⟨hi, he⟩ := List.getElem?_eq_some_iff.mp hnext
            rw [← he, set_getElem_self]
          rw [hstay, hsame] at hall ⊢
          have hne : ¬∀ i ∈ iters, lftjKey i = lftjKey top := by
            intro hi
            refine hall ⟨hkey, all_eq_true.mpr fun i hmem => ?_⟩
            simpa using hi i hmem
          have hnew := h.stay htop hnext hkey hne
          exact ih hnew (by omega)
        · have htotal := totalLeft_set hnext (lftjSeek it (lftjKey top))
          have hpos := seek_moves hready hkey
          have hstop : (lftjSeek it (lftjKey top)).stop = it.stop := rfl
          have hlt' := hready.pos_lt
          have hless : totalLeft (iters.set ((maxIdx + 1) % iters.length) (lftjSeek it (lftjKey top))) + 1 ≤
              totalLeft iters := by omega
          have hmul := Nat.mul_le_mul_right iters.length hless
          rw [Nat.add_mul] at hmul
          obtain ⟨r, hr, hfound⟩ := ih hmove (by rw [length_set]; omega)
          exact ⟨r, hr, hfound.of_set h.ready hnext (seek_narrows hready) hset⟩

end

lemma argmax_spec (key : ℕ → ℤ) {k n : ℕ} (hk : 0 < k) (hn : n ≤ k) :
    (List.range n).foldl (fun best i => if key best < key i then i else best) 0 < k ∧
      ∀ i < n, key i ≤ key ((List.range n).foldl (fun best i => if key best < key i then i else best) 0) := by
  induction n with
  | zero => exact ⟨hk, fun i hi => absurd hi (Nat.not_lt_zero i)⟩
  | succ n ih =>
    obtain ⟨hlt, hmax⟩ := ih (by omega)
    rw [range_succ, foldl_append, foldl_cons, foldl_nil]
    by_cases hgt : key ((range n).foldl (fun best i => if key best < key i then i else best) 0) < key n
    · rw [if_pos hgt]
      refine ⟨by omega, fun i hi => ?_⟩
      rcases Nat.lt_succ_iff_lt_or_eq.mp hi with hi | rfl
      · exact (hmax i hi).trans hgt.le
      · exact le_rfl
    · rw [if_neg hgt]
      refine ⟨hlt, fun i hi => ?_⟩
      rcases Nat.lt_succ_iff_lt_or_eq.mp hi with hi | rfl
      · exact hmax i hi
      · exact not_lt.mp hgt

lemma maxIndex_spec (hne : iters ≠ []) : maxIndex iters < iters.length ∧
    ∀ i < iters.length, (iters[i]?.elim int64Max lftjKey) ≤ iters[maxIndex iters]?.elim int64Max lftjKey := by
  exact argmax_spec (fun i => iters[i]?.elim int64Max lftjKey) (length_pos_iff.mpr hne) le_rfl

lemma leapfrogSearch_spec (hok : ∀ it ∈ iters, it.Ok) (hne : iters ≠ []) :
    ∃ r, leapfrogSearch iters = some r ∧ Found iters r := by
  rw [leapfrogSearch, if_neg hne]
  by_cases hend : iters.any lftjAtEnd = true
  · rw [if_pos hend]
    obtain ⟨it, hit, hat⟩ := any_eq_true.mp hend
    refine ⟨none, rfl, fun x hx => ?_⟩
    have hmem := hx it hit
    rw [(lftjAtEnd_iff (hok it hit)).mp hat] at hmem
    exact absurd hmem not_mem_nil
  · rw [if_neg hend]
    obtain ⟨hlt, hmax⟩ := maxIndex_spec hne
    have hready : ∀ it ∈ iters, Ready it := fun it hit => ⟨hok it hit, fun hnil =>
      hend (any_eq_true.mpr ⟨it, hit, (lftjAtEnd_iff (hok it hit)).mpr hnil⟩)⟩
    have hstart : Searching iters (maxIndex iters) 0 := by
      refine ⟨hready, hlt, fun j hj => ?_, fun it hit top htop => ?_⟩
      · obtain rfl : j = 0 := by omega
        refine ⟨by omega, fun a b ha hb => ?_⟩
        rw [Nat.sub_zero, Nat.add_mod_right, Nat.mod_eq_of_lt hlt, hb] at ha
        rw [some.inj ha]
      · obtain ⟨i, hi⟩ := mem_iff_getElem?.mp hit
        have hle := hmax i (List.getElem?_eq_some_iff.mp hi).1
        rwa [hi, htop] at hle
    refine searchLoop_spec hstart ?_
    rw [searchFuel, Nat.add_mul, one_mul]
    exact le_rfl

end

end Rayforce.Leapfrog
