import Rayforce.Graph.Square
import Rayforce.Library.Forests

/-! `exec_mst`. -/

namespace Rayforce.Graph

open Library.Loops Library.Forests List Option Function

variable {a b : ℕ}

structure MstEdge where
  w : ℚ
  src : ℤ
  dst : ℤ
  deriving DecidableEq

structure UnionFind where
  parent : Arr ℤ
  rank : Arr ℤ

def ufFind (parent : Arr ℤ) (x : ℤ) : Option (Arr ℤ × ℤ) :=
  whileLoop (fun st : Arr ℤ × ℤ => st.1.get? st.2 ≠ some st.2)
    (fun st => (st.1.get? st.2).bind fun p => (st.1.get? p).bind fun g =>
      (st.1.set? st.2 g).map fun parent => (parent, g))
    (parent.size + 1) (parent, x)

def ufLink (parent rank : Arr ℤ) (a b : ℤ) : Option UnionFind :=
  (parent.set? b a).bind fun parent =>
    (rank.get? a).bind fun ra =>
      (rank.get? b).bind fun rb =>
        if ra = rb then (rank.set? a (ra + 1)).map fun rank => ⟨parent, rank⟩ else some ⟨parent, rank⟩

def ufUnion (uf : UnionFind) (a b : ℤ) : Option (UnionFind × Bool) :=
  (ufFind uf.parent a).bind fun fa =>
    (ufFind fa.1 b).bind fun fb =>
      if fa.2 = fb.2 then some (⟨fb.1, uf.rank⟩, false)
      else
        (uf.rank.get? fa.2).bind fun ra =>
          (uf.rank.get? fb.2).bind fun rb =>
            (if ra < rb then ufLink fb.1 uf.rank fb.2 fa.2 else ufLink fb.1 uf.rank fa.2 fb.2).map fun uf =>
              (uf, true)

structure MstState where
  uf : UnionFind
  rows : List MstEdge

def mstLoop (maxMst : ℕ) : List MstEdge → MstState → Option MstState
  | [], st => some st
  | e :: edges, st =>
    if st.rows.length < maxMst then
      (ufUnion st.uf e.src e.dst).bind fun r => mstLoop maxMst edges ⟨r.1, if r.2 then st.rows ++ [e] else st.rows⟩
    else some st

def mstInit (n : ℕ) : MstState := ⟨⟨⟨n, fun i => i⟩, ⟨n, fun _ => 0⟩⟩, []⟩

def mstEdges (rel : Rel) (weights : ℤ → ℚ) : List MstEdge :=
  rel.fwd.triples.map fun t => ⟨weights t.2.2, t.1, t.2.1⟩

def execMst (sort : List MstEdge → List MstEdge) (rel : Rel) (weights : ℤ → ℚ) :
    Option (Except GraphError (List MstEdge)) :=
  let n := rel.fwd.nNodes
  if n = 0 then some (.error (.noNodes n))
  else (mstLoop (n - 1) (sort (mstEdges rel weights)) (mstInit n)).map fun st => .ok st.rows

section

variable {n c : ℕ} {R : ℕ → ℕ → Prop} {root : ℕ → ℕ} {uf : UnionFind} {x : ℕ}

structure Partition (n c : ℕ) (R : ℕ → ℕ → Prop) (root : ℕ → ℕ) (uf : UnionFind) : Prop where
  parent_size : uf.parent.size = n
  rank_size : uf.rank.size = n
  parent : ∀ x < n, ∃ p < n, uf.parent.cell x = (p : ℕ) ∧ root p = root x ∧
    (p = x ∨ uf.rank.cell x < uf.rank.cell p)
  root_lt : ∀ x < n, root x < n
  root_fixed : ∀ x < n, uf.parent.cell (root x) = root x
  fixed : ∀ x < n, uf.parent.cell x = x → root x = x
  rank : ∀ x < n, 0 ≤ uf.rank.cell x ∧ uf.rank.cell x ≤ c
  related : ∀ x < n, ∀ y < n, root x = root y ↔ R x y

section

variable (h : Partition n c R root uf)
include h

lemma Partition.halve (hx : x < n) (hmove : uf.parent.cell x ≠ x) :
    ∃ p g, p < n ∧ g < n ∧ uf.parent.cell x = (p : ℕ) ∧ uf.parent.cell p = (g : ℕ) ∧ root g = root x ∧
      uf.rank.cell x < uf.rank.cell g ∧
      Partition n c R root ⟨⟨n, update uf.parent.cell x (g : ℤ)⟩, uf.rank⟩ := by
  obtain ⟨p, hp, hpcell, hproot, hprank⟩ := h.parent x hx
  obtain ⟨g, hg, hgcell, hgroot, hgrank⟩ := h.parent p hp
  have hlt : uf.rank.cell x < uf.rank.cell g := by
    obtain rfl | hprank := hprank
    · exact absurd hpcell hmove
    · obtain rfl | hgrank := hgrank
      · exact hprank
      · exact hprank.trans hgrank
  refine ⟨p, g, hp, hg, hpcell, hgcell, hgroot.trans hproot, hlt, rfl, h.rank_size, ?_, h.root_lt, ?_, ?_,
    h.rank, h.related⟩
  · intro y hy
    by_cases hyx : y = x
    · subst hyx
      exact ⟨g, hg, by simp, hgroot.trans hproot, .inr hlt⟩
    · simp only [update_of_ne hyx]
      exact h.parent y hy
  · intro y hy
    have hne : root y ≠ x := fun heq => hmove (by rw [← heq, h.root_fixed y hy])
    simp only [update_of_ne hne]
    exact h.root_fixed y hy
  · intro y hy hfix
    by_cases hyx : y = x
    · subst hyx
      simp only [update_self, Int.ofNat_inj] at hfix
      rw [hfix] at hlt
      exact absurd hlt (lt_irrefl _)
    · simp only [update_of_ne hyx] at hfix
      exact h.fixed y hy hfix

lemma Partition.find (hc : c ≤ n) (hx : x < n) :
    ∃ parent, ufFind uf.parent x = some (parent, (root x : ℤ)) ∧ Partition n c R root ⟨parent, uf.rank⟩ := by
  obtain ⟨st, hrun, ⟨y, hy, hst, hroot, hpart⟩, hend⟩ :=
    whileLoop_inv (s := (uf.parent, (x : ℤ))) (k := uf.parent.size + 1)
    (c := fun st : Arr ℤ × ℤ => st.1.get? st.2 ≠ some st.2)
    (b := fun st => (st.1.get? st.2).bind fun p => (st.1.get? p).bind fun g =>
      (st.1.set? st.2 g).map fun parent => (parent, g))
    (I := fun st => ∃ y < n, st.2 = (y : ℕ) ∧ root y = root x ∧ Partition n c R root ⟨st.1, uf.rank⟩)
    (μ := fun st => n - (uf.rank.cell st.2.toNat).toNat)
    (by
      rintro ⟨parent, _⟩ ⟨y, hy, rfl, hroot, hpart⟩ hcond
      have hget : ∀ z < n, parent.get? (z : ℕ) = some (parent.cell z) :=
        fun z hz => Arr.get?_natCast (by rw [hpart.parent_size]; exact hz)
      have hmove : parent.cell y ≠ y := fun heq => by simp [hget y hy, heq] at hcond
      obtain ⟨p, g, hp, hg, hpcell, hgcell, hgroot, hlt, hpart'⟩ := hpart.halve hy hmove
      have hset := Arr.set?_natCast (a := parent) (i := y) (by rw [hpart.parent_size]; exact hy) (g : ℤ)
      have hsize : parent.size = n := hpart.parent_size
      refine ⟨(⟨n, update parent.cell y (g : ℤ)⟩, (g : ℤ)), ?_, ⟨g, hg, rfl, hgroot.trans hroot, hpart'⟩, ?_⟩
      · simp only at hpcell hgcell
        rw [hget y hy, bind_some, hpcell, hget p hp, bind_some, hgcell, hset, map_some, hsize]
      · have hrank := h.rank g hg
        have hrank' := h.rank y hy
        simp only at hlt
        simp only [Int.toNat_natCast]
        omega)
    (by rw [h.parent_size]; omega) ⟨x, hx, rfl, rfl, h⟩
  obtain ⟨parent, z⟩ := st
  simp only at hst hpart
  subst hst
  have hfix : parent.cell y = y := by
    have hsize : parent.size = n := hpart.parent_size
    have hget : parent.get? (y : ℕ) = some (parent.cell y) := Arr.get?_natCast (by rw [hsize]; exact hy)
    simpa [hget] using hend
  have hy' : root y = y := hpart.fixed y hy hfix
  exact ⟨parent, by rw [ufFind, hrun, ← hroot, hy'], hpart⟩

lemma Partition.link (ha : a < n) (hb : b < n) (hra : root a = a) (hrb : root b = b) (hab : a ≠ b)
    (hrank : uf.rank.cell b ≤ uf.rank.cell a) {T : ℕ → ℕ → Prop}
    (hR : ∀ x < n, ∀ y < n, T x y ↔ R x y ∨ R x a ∧ R b y ∨ R x b ∧ R a y) :
    ∃ uf', ufLink uf.parent uf.rank a b = some uf' ∧
      Partition n (c + 1) T (fun x => if root x = b then a else root x) uf' := by
  have hsize := h.parent_size
  have hrsize := h.rank_size
  have hset := Arr.set?_natCast (a := uf.parent) (i := b) (by rw [hsize]; exact hb) (a : ℤ)
  have hgeta := Arr.get?_natCast (a := uf.rank) (i := a) (by rw [hrsize]; exact ha)
  have hgetb := Arr.get?_natCast (a := uf.rank) (i := b) (by rw [hrsize]; exact hb)
  have hseta := Arr.set?_natCast (a := uf.rank) (i := a) (by rw [hrsize]; exact ha) (uf.rank.cell a + 1)
  -- the new ranks: only the rank of the remaining root may grow
  obtain ⟨rank', hrun, hrank'size, hgrow, hsame⟩ : ∃ rank' : Arr ℤ,
      ufLink uf.parent uf.rank a b = some ⟨⟨n, update uf.parent.cell b (a : ℤ)⟩, rank'⟩ ∧ rank'.size = n ∧
        (uf.rank.cell a ≤ rank'.cell a ∧ rank'.cell a ≤ uf.rank.cell a + 1 ∧ uf.rank.cell b < rank'.cell a) ∧
        ∀ x, x ≠ a → rank'.cell x = uf.rank.cell x := by
    rw [ufLink, hset, bind_some, hgeta, bind_some, hgetb, bind_some, hsize]
    by_cases heq : uf.rank.cell a = uf.rank.cell b
    · refine ⟨⟨n, update uf.rank.cell a (uf.rank.cell a + 1)⟩, by rw [if_pos heq, hseta, map_some, hrsize], rfl,
        ?_, fun x hx => ?_⟩
      · simp only [update_self]
        omega
      · simp only [update_of_ne hx]
    · exact ⟨uf.rank, by rw [if_neg heq], hrsize, by omega, fun _ _ => rfl⟩
  have hmono : ∀ x < n, uf.rank.cell x ≤ rank'.cell x := fun x _ => by
    by_cases hxa : x = a
    · rw [hxa]
      exact hgrow.1
    · rw [hsame x hxa]
  refine ⟨_, hrun, rfl, hrank'size, ?_, ?_, ?_, ?_, ?_, ?_⟩
  · intro x hx
    by_cases hxb : x = b
    · subst hxb
      exact ⟨a, ha, by simp, by simp [hra, hrb, hab], .inr (by rw [hsame x hab.symm]; exact hgrow.2.2)⟩
    · obtain ⟨p, hp, hpcell, hproot, hprank⟩ := h.parent x hx
      refine ⟨p, hp, by simp only [update_of_ne hxb]; exact hpcell, by simp only [hproot], ?_⟩
      obtain rfl | hprank := hprank
      · exact .inl rfl
      · have hxa : x ≠ a := by
          rintro rfl
          have hfix := h.root_fixed x hx
          rw [hra, hpcell, Int.ofNat_inj] at hfix
          rw [hfix] at hprank
          exact absurd hprank (lt_irrefl _)
        refine .inr ?_
        rw [hsame x hxa]
        exact hprank.trans_le (hmono p hp)
  · intro x hx
    split_ifs
    · exact ha
    · exact h.root_lt x hx
  · intro x hx
    simp only
    split_ifs with hxb
    · rw [update_of_ne hab]
      have := h.root_fixed a ha
      rwa [hra] at this
    · rw [update_of_ne hxb]
      exact h.root_fixed x hx
  · intro x hx hfix
    by_cases hxb : x = b
    · subst hxb
      simp only [update_self, Int.ofNat_inj] at hfix
      exact absurd hfix hab
    · simp only [update_of_ne hxb] at hfix
      have hroot := h.fixed x hx hfix
      simp only [hroot, if_neg hxb]
  · intro x hx
    have := h.rank x hx
    have := h.rank a ha
    by_cases hxa : x = a
    · rw [hxa]
      push_cast
      omega
    · rw [hsame x hxa]
      push_cast
      omega
  · intro x hx y hy
    have hxa := h.related x hx a ha
    have hxb := h.related x hx b hb
    have hay := h.related a ha y hy
    have hby := h.related b hb y hy
    rw [hra] at hxa hay
    rw [hrb] at hxb hby
    rw [hR x hx y hy, ← h.related x hx y hy, ← hxa, ← hxb, ← hay, ← hby]
    split_ifs with h₁ h₂ h₂
    · simp [h₁, h₂]
    · rw [h₁]
      have : ¬b = root y := fun heq => h₂ heq.symm
      tauto
    · rw [h₂]
      have : ¬b = root x := fun heq => h₁ heq.symm
      tauto
    · have : ¬b = root y := fun heq => h₂ heq.symm
      tauto

lemma Partition.union (hc : c ≤ n) (ha : a < n) (hb : b < n) {R' : ℕ → ℕ → Prop}
    (hR : ∀ x < n, ∀ y < n, R' x y ↔ R x y ∨ R x a ∧ R b y ∨ R x b ∧ R a y) :
    (R a b ∧ ∃ uf', ufUnion uf a b = some (uf', false) ∧ Partition n c R root uf') ∨
      ¬R a b ∧ ∃ uf' root', ufUnion uf a b = some (uf', true) ∧ Partition n (c + 1) R' root' uf' := by
  obtain ⟨parent₁, hfind₁, h₁⟩ := h.find hc ha
  obtain ⟨parent₂, hfind₂, h₂⟩ := h₁.find hc hb
  have hroot : ∀ x < n, root (root x) = root x := fun x hx => h.fixed _ (h.root_lt x hx) (h.root_fixed x hx)
  have hrel : ∀ x < n, ∀ y < n, R x y ↔ root x = root y := fun x hx y hy => (h.related x hx y hy).symm
  rw [hrel a ha b hb]
  by_cases hab : root a = root b
  · refine .inl ⟨hab, ⟨parent₂, uf.rank⟩, ?_, h₂⟩
    rw [ufUnion, hfind₁, bind_some, hfind₂, bind_some, if_pos (by rw [hab])]
  · refine .inr ⟨hab, ?_⟩
    have hla := h.root_lt a ha
    have hlb := h.root_lt b hb
    have hgeta := Arr.get?_natCast (a := uf.rank) (i := root a) (by rw [h.rank_size]; exact hla)
    have hgetb := Arr.get?_natCast (a := uf.rank) (i := root b) (by rw [h.rank_size]; exact hlb)
    have hbody : ufUnion uf a b = (if uf.rank.cell (root a) < uf.rank.cell (root b) then ufLink parent₂ uf.rank
      (root b) (root a) else ufLink parent₂ uf.rank (root a) (root b)).map fun uf => (uf, true) := by
      rw [ufUnion, hfind₁, bind_some, hfind₂, bind_some, if_neg (by simpa using hab), hgeta, bind_some,
        hgetb, bind_some]
    have hR₁ : ∀ x < n, ∀ y < n, R' x y ↔ R x y ∨ R x (root a) ∧ R (root b) y ∨ R x (root b) ∧ R (root a) y := by
      intro x hx y hy
      rw [hR x hx y hy, hrel x hx a ha, hrel b hb y hy, hrel x hx b hb, hrel a ha y hy, hrel x hx _ hla,
        hrel _ hlb y hy, hrel x hx _ hlb, hrel _ hla y hy, hroot a ha, hroot b hb]
    by_cases hlt : uf.rank.cell (root a) < uf.rank.cell (root b)
    · obtain ⟨uf', hlink, hpart⟩ :=
          h₂.link hlb hla (hroot b hb) (hroot a ha) (Ne.symm hab) hlt.le (T := R') fun x hx y hy => by
        rw [hR₁ x hx y hy]
        tauto
      exact ⟨uf', _, by rw [hbody, if_pos hlt, hlink, map_some], hpart⟩
    · obtain ⟨uf', hlink, hpart⟩ := h₂.link hla hlb (hroot a ha) (hroot b hb) hab (not_lt.mp hlt) hR₁
      exact ⟨uf', _, by rw [hbody, if_neg hlt, hlink, map_some], hpart⟩

end

end

def MstEdge.ends (e : MstEdge) : ℕ × ℕ := (e.src.toNat, e.dst.toNat)

section

variable {rel : Rel} {n : ℕ} {weights : ℤ → ℚ} {st : MstState} {done edges rows : List MstEdge} {e : MstEdge}

def NodesIn (n : ℕ) (edges : List MstEdge) : Prop :=
  ∀ e ∈ edges, ∃ a < n, ∃ b < n, e.src = (a : ℕ) ∧ e.dst = (b : ℕ)

structure Spanning (n : ℕ) (done : List MstEdge) (st : MstState) : Prop where
  greedy : Greedy MstEdge.ends MstEdge.w done st.rows
  nodes : NodesIn n st.rows
  sets : ∃ root, Partition n st.rows.length (Linked MstEdge.ends st.rows) root st.uf

lemma exists_path (n : ℕ) : ∃ K :
    List MstEdge, K.length = n - 1 ∧ ∀ u < n, ∀ v < n, Linked MstEdge.ends K u v := by
  refine ⟨(range (n - 1)).map fun i : ℕ => ⟨0, (i : ℤ), (i : ℤ) + 1⟩, by simp, ?_⟩
  have hzero : ∀ u < n, Linked MstEdge.ends
      ((range (n - 1)).map fun i : ℕ => (⟨0, (i : ℤ), (i : ℤ) + 1⟩ : MstEdge)) u 0 := by
    intro u hu
    induction u with
    | zero => exact .refl 0
    | succ u ih =>
      have hstep : Linked MstEdge.ends
          ((range (n - 1)).map fun i : ℕ => (⟨0, (i : ℤ), (i : ℤ) + 1⟩ : MstEdge)) u (u + 1) :=
        @Linked.of_mem _ _ MstEdge.ends _ ⟨0, (u : ℤ), (u : ℤ) + 1⟩
          (mem_map.mpr ⟨u, mem_range.mpr (by omega), rfl⟩)
      exact hstep.symm.trans (ih (by omega))
  exact fun u hu v hv => (hzero u hu).trans (hzero v hv).symm

lemma length_le_of_acyclic (hrows : Acyclic MstEdge.ends rows) (hnodes : NodesIn n rows) :
    rows.length ≤ n - 1 := by
  obtain ⟨K, hlen, hall⟩ := exists_path n
  rw [← hlen]
  refine hrows.length_le fun e he => ?_
  obtain ⟨c, hc, d, hd, hsrc, hdst⟩ := hnodes e he
  rw [MstEdge.ends, hsrc, hdst]
  exact hall c hc d hd

lemma linked_of_full (hrows : Acyclic MstEdge.ends rows) (hnodes : NodesIn n rows) (hfull : n - 1 ≤ rows.length)
    (ha : a < n) (hb : b < n) :
    Linked MstEdge.ends rows a b := by
  by_contra hno
  have hcons : Acyclic MstEdge.ends ((⟨0, a, b⟩ : MstEdge) :: rows) := hrows.cons hno
  have hle := length_le_of_acyclic hcons (forall_mem_cons.mpr ⟨⟨a, ha, b, hb, rfl, rfl⟩, hnodes⟩)
  rw [length_cons] at hle
  omega

lemma Spanning.step (hs : Spanning n done st) (hroom : st.rows.length < n - 1) (he : NodesIn n [e])
    (hw : ∀ d ∈ done, d.w ≤ e.w) :
    ∃ uf taken, ufUnion st.uf e.src e.dst = some (uf, taken) ∧
      Spanning n (done ++ [e]) ⟨uf, if taken then st.rows ++ [e] else st.rows⟩ := by
  obtain ⟨root, hpart⟩ := hs.sets
  obtain ⟨a, ha, b, hb, hsrc, hdst⟩ := he e (mem_singleton_self e)
  have hends : e.ends = (a, b) := by rw [MstEdge.ends, hsrc, hdst, Int.toNat_natCast, Int.toNat_natCast]
  have hnew : ∀ x y, Linked MstEdge.ends (st.rows ++ [e]) x y ↔
      Linked MstEdge.ends st.rows x y ∨ Linked MstEdge.ends st.rows x a ∧ Linked MstEdge.ends st.rows b y ∨
        Linked MstEdge.ends st.rows x b ∧ Linked MstEdge.ends st.rows a y := by
    intro x y
    have hsub : st.rows ⊆ st.rows ++ [e] := subset_append_left _ _
    have hab : Linked MstEdge.ends (st.rows ++ [e]) a b := by
      have := @Linked.of_mem _ _ MstEdge.ends (st.rows ++ [e]) e (by simp)
      rwa [hends] at this
    constructor
    · intro hl
      have hcases := (hl.mono (perm_append_singleton e st.rows).subset).cons_cases
      rw [hends] at hcases
      exact hcases.imp_right (Or.imp (And.imp_right Linked.symm) (And.imp_right Linked.symm))
    · rintro (hl | ⟨h₁, h₂⟩ | ⟨h₁, h₂⟩)
      · exact hl.mono hsub
      · exact (h₁.mono hsub).trans (hab.trans (h₂.mono hsub))
      · exact (h₁.mono hsub).trans (hab.symm.trans (h₂.mono hsub))
  rw [hsrc, hdst]
  obtain ⟨hl, uf, hrun, hpart'⟩ | ⟨hl, uf, root', hrun, hpart'⟩ :=
    hpart.union (by omega) ha hb fun x _ y _ => hnew x y
  · exact ⟨uf, false, hrun, hs.greedy.skip hw (by rw [hends]; exact hl), hs.nodes, root, hpart'⟩
  · refine ⟨uf, true, hrun, hs.greedy.take (by rw [hends]; exact hl),
      forall_mem_append.mpr ⟨hs.nodes, he⟩, root', ?_⟩
    rw [if_pos rfl, length_append, length_singleton]
    exact hpart'

lemma Spanning.skip_all (hs : Spanning n done st) (hfull : n - 1 ≤ st.rows.length) (he : NodesIn n edges)
    (hw : (done ++ edges).Pairwise fun d e => d.w ≤ e.w) : Spanning n (done ++ edges) st := by
  induction edges generalizing done with
  | nil => rwa [append_nil]
  | cons e edges ih =>
    obtain ⟨⟨a, ha, b, hb, hsrc, hdst⟩, hedges⟩ := forall_mem_cons.mp he
    have hlinked : Linked MstEdge.ends st.rows e.ends.1 e.ends.2 := by
      rw [MstEdge.ends, hsrc, hdst]
      exact linked_of_full hs.greedy.acyclic hs.nodes hfull ha hb
    have hle : ∀ d ∈ done, d.w ≤ e.w := fun d hd => (pairwise_append.mp hw).2.2 d hd e mem_cons_self
    rw [append_cons] at hw ⊢
    exact ih ⟨hs.greedy.skip hle hlinked, hs.nodes, hs.sets⟩ hedges hw

lemma Spanning.loop (hs : Spanning n done st) (he : NodesIn n edges)
    (hw : (done ++ edges).Pairwise fun d e => d.w ≤ e.w) :
    ∃ st', mstLoop (n - 1) edges st = some st' ∧ Spanning n (done ++ edges) st' := by
  induction edges generalizing done st with
  | nil => exact ⟨st, rfl, by rwa [append_nil]⟩
  | cons e edges ih =>
    rw [mstLoop]
    by_cases hroom : st.rows.length < n - 1
    · obtain ⟨he₁, hedges⟩ := forall_mem_cons.mp he
      have hle : ∀ d ∈ done, d.w ≤ e.w := fun d hd => (pairwise_append.mp hw).2.2 d hd e mem_cons_self
      obtain ⟨uf, taken, hunion, hs'⟩ := hs.step hroom (forall_mem_singleton.mpr he₁) hle
      obtain ⟨st', hrun, hs''⟩ := ih hs' hedges (by rwa [← append_cons])
      exact ⟨st', by rw [if_pos hroom, hunion, bind_some, hrun], by rwa [append_cons]⟩
    · exact ⟨st, if_neg hroom, hs.skip_all (Nat.le_of_not_lt hroom) he hw⟩

lemma Spanning.init (n : ℕ) : Spanning n [] (mstInit n) := by
  refine ⟨.nil, fun e he => absurd he not_mem_nil, id, rfl, rfl, fun x hx =>
    ⟨x, hx, rfl, rfl, .inl rfl⟩, fun x hx => hx, fun x _ => rfl,
    fun x _ _ => rfl, fun x _ => ⟨le_rfl, le_rfl⟩, fun x _ y _ => ⟨fun heq => ?_, Linked.eq_of_nil⟩⟩
  rw [show x = y from heq]
  exact .refl y

/-- A place between the offsets of a node, with the weight of its row. -/
def Rel.FwdEdge (rel : Rel) (weights : ℤ → ℚ) (e : MstEdge) : Prop :=
  ∃ u j : ℕ, u < rel.fwd.nNodes ∧ rel.fwd.offsets.getD u 0 ≤ j ∧ j < rel.fwd.offsets.getD (u + 1) 0 ∧ e.src = u ∧
    rel.fwd.targets[j]? = some e.dst ∧ ∃ rows row, rel.fwd.rowmap = some rows ∧ rows[j]? = some row ∧
      e.w = weights row

def Rel.Joined (rel : Rel) (weights : ℤ → ℚ) : ℕ → ℕ → Prop :=
  Relation.EqvGen fun u v => ∃ e, rel.FwdEdge weights e ∧ e.ends = (u, v)

lemma mem_neighbors_iff {c : Csr} {rows : List ℤ} (hrows : c.rowmap = some rows) {g : ℕ} {t row : ℤ} :
    (t, row) ∈ c.neighbors g ↔
    ∃ j, c.offsets.getD g 0 ≤ j ∧ j < c.offsets.getD (g + 1) 0 ∧ c.targets[j]? = some t ∧ rows[j]? = some row := by
  rw [Csr.neighbors, Csr.cells, hrows, getD_some, Library.Segments.slice, mem_iff_getElem?]
  constructor
  · rintro ⟨k, hk⟩
    have hlt : k < c.offsets.getD (g + 1) 0 - c.offsets.getD g 0 := by
      by_contra hle
      rw [getElem?_take_eq_none (not_lt.mp hle)] at hk
      cases hk
    rw [getElem?_take_of_lt hlt, getElem?_drop, getElem?_zip_eq_some] at hk
    exact ⟨_, Nat.le_add_right _ _, by omega, hk⟩
  · rintro ⟨j, hle, hlt, hj⟩
    refine ⟨j - c.offsets.getD g 0, ?_⟩
    rw [getElem?_take_of_lt (by omega), getElem?_drop, Nat.add_sub_cancel' hle, getElem?_zip_eq_some]
    exact hj

lemma mem_mstEdges_iff (h : Square rel n) : e ∈ mstEdges rel weights ↔ rel.FwdEdge weights e := by
  obtain ⟨rows, hrows, -⟩ := h.fwd.rowmap_length
  rw [mstEdges, List.mem_map]
  constructor
  · rintro ⟨t, ht, rfl⟩
    obtain ⟨u, hu, hmem⟩ := mem_flatMap.mp ht
    obtain ⟨⟨dst, row⟩, hc, rfl⟩ := mem_map.mp hmem
    obtain ⟨j, hle, hlt, hdst, hrow⟩ := (mem_neighbors_iff hrows).mp hc
    exact ⟨u, j, mem_range.mp hu, hle, hlt, rfl, hdst, rows, row, hrows, hrow, rfl⟩
  · rintro ⟨u, j, hu, hle, hlt, hsrc, hdst, rows', row, hrows', hrow, hw⟩
    obtain rfl : rows' = rows := Option.some.inj (hrows'.symm.trans hrows)
    refine ⟨(u, e.dst, row), mem_flatMap.mpr ⟨u, mem_range.mpr hu, mem_map_of_mem ?_⟩, ?_⟩
    · exact (mem_neighbors_iff hrows).mpr ⟨j, hle, hlt, hdst, hrow⟩
    · rw [← hsrc, ← hw]

lemma linked_mstEdges (h : Square rel n) : Linked MstEdge.ends (mstEdges rel weights) = rel.Joined weights := by
  unfold Linked Rel.Joined
  simp only [mem_mstEdges_iff h]

lemma mstEdges_nodes (h : Square rel n) (hr : TargetsInRange rel n) : NodesIn n (mstEdges rel weights) := by
  intro e he
  obtain ⟨⟨u, t, row⟩, hmem, rfl⟩ := mem_map.mp he
  obtain ⟨g, hg, hmem⟩ := mem_flatMap.mp hmem
  obtain ⟨c, hc, heq⟩ := mem_map.mp hmem
  have hg' : g < n := h.fwd.nNodes ▸ mem_range.mp hg
  obtain ⟨rfl, hct⟩ := Prod.mk.injEq _ _ _ _ ▸ heq
  have ht : t ∈ rel.fwd.targetsOf g := by
    rw [h.fwd.targetsOf hg']
    exact mem_map.mpr ⟨c, hc, by rw [hct]⟩
  obtain ⟨h₀, h₁⟩ := hr.1 t (mem_targets_of_targetsOf ht)
  exact ⟨g, hg', t.toNat, by omega, rfl, (Int.toNat_of_nonneg h₀).symm⟩

/-- `exec_mst` returns a spanning forest of the least weight. -/
theorem execMst_minimal (h : Square rel n) (hr : TargetsInRange rel n) {sort : List MstEdge → List MstEdge}
    (hsort : ∀ l, (sort l).Perm l ∧ (sort l).Pairwise fun d e => d.w ≤ e.w) (weights : ℤ → ℚ) :
    (n = 0 → execMst sort rel weights = some (.error (.noNodes 0))) ∧
      (0 < n → ∃ rows, execMst sort rel weights = some (.ok rows) ∧ (∀ e ∈ rows, rel.FwdEdge weights e) ∧
        Acyclic MstEdge.ends rows ∧
        (∀ u v, Linked MstEdge.ends rows u v ↔ rel.Joined weights u v) ∧
        ∀ F, (∀ e ∈ F, rel.FwdEdge weights e) → Acyclic MstEdge.ends F →
          (∀ u v, Linked MstEdge.ends F u v ↔ rel.Joined weights u v) →
          (rows.map MstEdge.w).sum ≤ (F.map MstEdge.w).sum) ∧
      ∀ k, ∃ st, mstLoop (n - 1) ((sort (mstEdges rel weights)).take k) (mstInit n) = some st ∧
        ∀ x < n, ∀ y < n, ∃ p q r s, ufFind st.uf.parent (x : ℕ) = some (p, r) ∧
          ufFind st.uf.parent (y : ℕ) = some (q, s) ∧
          (r = s ↔ Linked MstEdge.ends st.rows x y) := by
  obtain ⟨hperm, hsorted⟩ := hsort (mstEdges rel weights)
  have hnodes : NodesIn n (sort (mstEdges rel weights)) := fun e he => mstEdges_nodes h hr e (hperm.mem_iff.mp he)
  refine ⟨fun hn => ?_, fun hn => ?_, fun k => ?_⟩
  · subst hn
    have := h.fwd.nNodes
    simp only [execMst, this, if_true]
  · obtain ⟨st, hrun, hs⟩ := (Spanning.init n).loop hnodes hsorted
    rw [nil_append] at hs
    refine ⟨st.rows, ?_, fun e he => ?_, hs.greedy.acyclic, fun u v => ?_, fun F hsub hF hlinked => ?_⟩
    · simp only [execMst, h.fwd.nNodes, if_neg hn.ne', hrun, map_some]
    · exact (mem_mstEdges_iff h).mp (hperm.mem_iff.mp (hs.greedy.sublist.subset he))
    · rw [hs.greedy.linked_iff, ← linked_mstEdges h]
      exact ⟨fun hl => hl.mono hperm.subset, fun hl => hl.mono hperm.symm.subset⟩
    · refine hs.greedy.sum_le (fun e he => hperm.mem_iff.mpr ((mem_mstEdges_iff h).mpr (hsub e he))) hF fun e he =>
        ?_
      rw [hlinked, ← linked_mstEdges h]
      exact .of_mem (hperm.mem_iff.mp he)
  · obtain ⟨st, hrun, hs⟩ := (Spanning.init n).loop
      (show NodesIn n ((sort (mstEdges rel weights)).take k) from fun e he => hnodes e (mem_of_mem_take he))
        (hsorted.sublist (take_sublist _ _))
    refine ⟨st, hrun, fun x hx y hy => ?_⟩
    obtain ⟨root, hpart⟩ := hs.sets
    obtain ⟨p, hp, -⟩ := hpart.find ((length_le_of_acyclic hs.greedy.acyclic hs.nodes).trans (Nat.sub_le n 1)) hx
    obtain ⟨q, hq, -⟩ := hpart.find ((length_le_of_acyclic hs.greedy.acyclic hs.nodes).trans (Nat.sub_le n 1)) hy
    exact ⟨p, q, _, _, hp, hq, by rw [Int.ofNat_inj, hpart.related x hx y hy]⟩

/-- A triangle with a tail: the heaviest side of the triangle is refused before the tail is taken. -/
theorem execMst_minimal_triangle : ∃ rel, rayRelFromEdges [0, 0, 1, 2] [1, 2, 2, 3] 4 4 false = some rel ∧ ∃ rows,
    execMst (insertionSort fun d e => d.w ≤ e.w) rel (fun row => [1, 3, 2, 9].getD row.toNat 0) = some (.ok rows) ∧
      rows = [⟨1, 0, 1⟩, ⟨2, 1, 2⟩, ⟨9, 2, 3⟩] ∧ Acyclic MstEdge.ends rows ∧
      ∀ u v, Linked MstEdge.ends rows u v ↔ rel.Joined (fun row => [1, 3, 2, 9].getD row.toNat 0) u v := by
  set edges : List EdgePair := [⟨0, 1, 0⟩, ⟨0, 2, 1⟩, ⟨1, 2, 2⟩, ⟨2, 3, 3⟩]
  have hrel : rayRelFromEdges [0, 0, 1, 2] [1, 2, 2, 3] 4 4 false =
      some (relationOf [0, 0, 1, 2] [1, 2, 2, 3] edges 4) :=
    rayRelFromEdges_relationOf (n := 4) rfl (by decide) (by decide) (by decide) (by decide)
  have hsort (l : List MstEdge) : (insertionSort (fun d e => d.w ≤ e.w) l).Perm l ∧
      (insertionSort (fun d e => d.w ≤ e.w) l).Pairwise fun d e => d.w ≤ e.w := by
    have : Std.Total fun d e : MstEdge => d.w ≤ e.w := ⟨fun d e => le_total d.w e.w⟩
    have : IsTrans MstEdge fun d e => d.w ≤ e.w := ⟨fun _ _ _ => le_trans⟩
    exact ⟨perm_insertionSort _ l, pairwise_insertionSort _ l⟩
  obtain ⟨-, hforest, -⟩ := execMst_minimal (rayRelFromEdges_square (n := 4) hrel) (by decide) hsort
    fun row => [1, 3, 2, 9].getD row.toNat 0
  obtain ⟨rows, hrun, -, hacyclic, hlinked, -⟩ := hforest (by decide)
  have hrows : execMst (insertionSort fun d e => d.w ≤ e.w) (relationOf [0, 0, 1, 2] [1, 2, 2, 3] edges 4)
      (fun row => [1, 3, 2, 9].getD row.toNat 0) = some (.ok [⟨1, 0, 1⟩, ⟨2, 1, 2⟩, ⟨9, 2, 3⟩]) := by
        decide +kernel
  obtain rfl := Except.ok.inj (Option.some.inj (hrows.symm.trans hrun))
  exact ⟨_, hrel, _, hrun, rfl, hacyclic, hlinked⟩

end

end Rayforce.Graph
