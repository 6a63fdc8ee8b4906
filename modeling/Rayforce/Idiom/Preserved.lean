import Rayforce.Idiom.Rewrite

namespace Rayforce.Idiom

open List Option

variable {nd : Node} {row : Row} {v : Value} {w : Value} {a : Option ℕ} {src : ℕ}

section

variable {rt : Runtime} {d : Data} {sel : Option Rowsel} {g : List Node}

lemma mapM_of_forall₂ {R : ℕ → ℕ → Prop} {f f' : ℕ → Option Value} {l l' : List ℕ} {vs : List Value}
    (hl : List.Forall₂ R l l') (hf : ∀ a b v, R a b → f a = some v → f' b = some v) (h : l.mapM f = some vs) :
    l'.mapM f' = some vs := by
  induction hl generalizing vs with
  | nil => exact h
  | cons hab _ ih =>
    rw [mapM_cons] at h ⊢
    obtain ⟨v, hv, h⟩ := bind_eq_some_iff.mp h
    obtain ⟨ws, hws, h⟩ := bind_eq_some_iff.mp h
    rw [hf _ _ v hab hv]
    exact bind_eq_some_iff.mpr ⟨v, rfl, bind_eq_some_iff.mpr ⟨ws, ih hws, h⟩⟩

lemma exec_succ {fuel n : ℕ} (h : exec rt d sel g fuel n = some v) : exec rt d sel g (fuel + 1) n = some v := by
  induction fuel generalizing n v with
  | zero => simp [exec] at h
  | succ fuel ih =>
    rw [exec] at h ⊢
    cases hn : g[n]? with
    | none => simp [hn] at h
    | some nd =>
      simp only [hn] at h ⊢
      cases hop : nd.opcode with
      | scan => simpa [hop] using h
      | const => simpa [hop] using h
      | op o =>
        simp only [hop] at h ⊢
        obtain ⟨vs, hvs, rfl⟩ := map_eq_some_iff.mp h
        rw [mapM_of_forall₂ (forall₂_same.mpr fun a _ => rfl) (fun a b v hab ha => hab ▸ ih ha) hvs]
        rfl
      | _ =>
        simp only [hop] at h ⊢
        cases hc : nd.in0 with
        | none => simpa [hc] using h
        | some c =>
          simp only [hc] at h ⊢
          obtain ⟨w, hw, rfl⟩ := map_eq_some_iff.mp h
          rw [ih hw]
          rfl

lemma exec_mono {fuel fuel' n : ℕ} (hf : fuel ≤ fuel') (h : exec rt d sel g fuel n = some v) :
    exec rt d sel g fuel' n = some v := by
  induction hf with
  | refl => exact h
  | step _ ih => exact exec_succ ih

lemma Computes.unique {n : ℕ} {v w : Value} (hv : Computes rt d sel g n v) (hw : Computes rt d sel g n w) :
    v = w := by
  obtain ⟨k, hk⟩ := hv
  obtain ⟨k', hk'⟩ := hw
  have h := exec_mono (le_max_left k k') hk
  rw [exec_mono (le_max_right k k') hk'] at h
  exact (some.inj h).symm

def Opcode.Unary (op : Opcode) : Prop := op ≠ .scan ∧ op ≠ .const ∧ ∀ o, op ≠ .op o

lemma exec_unary {fuel n c : ℕ} (hn : g[n]? = some nd) (hop : nd.opcode.Unary) (hc : nd.in0 = some c) :
    exec rt d sel g (fuel + 1) n = (exec rt d sel g fuel c).map (applyOp rt sel nd.opcode nd.outType) := by
  obtain ⟨hs, hk, ho⟩ := hop
  rw [exec]
  simp only [hn]
  cases hop : nd.opcode <;> simp_all

lemma computes_unary {n c : ℕ} (hn : g[n]? = some nd) (hop : nd.opcode.Unary) (hc : nd.in0 = some c) :
    Computes rt d sel g n v ↔ ∃ w, Computes rt d sel g c w ∧ applyOp rt sel nd.opcode nd.outType w = v := by
  constructor
  · rintro ⟨fuel, h⟩
    cases fuel with
    | zero => simp [exec] at h
    | succ fuel =>
      rw [exec_unary hn hop hc] at h
      obtain ⟨w, hw, rfl⟩ := map_eq_some_iff.mp h
      exact ⟨w, ⟨fuel, hw⟩, rfl⟩
  · rintro ⟨w, ⟨fuel, hw⟩, rfl⟩
    exact ⟨fuel + 1, by rw [exec_unary hn hop hc, hw]; rfl⟩

end

structure Site (d : Data) (g : List Node) (n : ℕ) (row : Row) (src : ℕ) : Prop where
  outer : ∃ nd c inner, g[n]? = some nd ∧ nd.opcode = .red row.rootOp ∧ nd.in0 = some c ∧ g[c]? = some inner ∧
    inner.opcode = .vec row.child0Op ∧ inner.in0 = some src
  source : src < g.length
  guard : row.guarded → noNullsOn d g src = true

def InRange (g : List Node) : Prop :=
  ∀ (n : ℕ) (nd : Node) (c : ℕ), g[n]? = some nd → nd.in0 = some c → c < g.length

def Refines (log : List (ℕ × ℕ)) (a b : ℕ) : Prop := b = a ∨ (a, b) ∈ log

def RefinesOpt (log : List (ℕ × ℕ)) : Option ℕ → Option ℕ → Prop
  | none, b => b = none
  | some a, b => ∃ b', b = some b' ∧ Refines log a b'

def outTypeOf (g : List Node) (n : ℕ) : ℕ := (g[n]?).elim 0 Node.outType

structure Rewritten (d : Data) (g g' : List Node) (log : List (ℕ × ℕ)) : Prop where
  length : g'.length = g.length + log.length
  kept : ∀ (n : ℕ) (nd : Node), g[n]? = some nd → ∃ nd', g'[n]? = some nd' ∧ nd'.opcode = nd.opcode ∧
    nd'.outType = nd.outType ∧ nd'.extIds = nd.extIds ∧ RefinesOpt log nd.in0 nd'.in0 ∧
      RefinesOpt log nd.in1 nd'.in1
  fresh : ∀ n r, (n, r) ∈ log → n < g.length ∧ g.length ≤ r ∧ ∃ row src nd', Site d g n row src ∧
    g'[r]? = some nd' ∧ nd'.opcode = row.newOp ∧ nd'.outType = row.newOut (outTypeOf g src) ∧
    nd'.dead = false ∧ RefinesOpt log (some src) nd'.in0
  added : ∀ (r : ℕ) (nd' : Node), g.length ≤ r → g'[r]? = some nd' → ∃ row : Row, nd'.opcode = row.newOp
  alive : ∀ (n : ℕ) (nd nd' : Node), g[n]? = some nd → g'[n]? = some nd' → nd.dead = false →
    (∀ r, (n, r) ∉ log) → nd'.dead = false

section

variable {d : Data} {g g' g'' : List Node} {log : List (ℕ × ℕ)} {n r : ℕ}

lemma rewriteInPlace_eq_some (h : rewriteInPlace d g n = some (g'', r)) :
    ∃ (nd : Node) (c : ℕ) (inner : Node) (src : ℕ) (source : Node) (row : Row), g[n]? = some nd ∧ nd.dead = false ∧
      nd.opcode = .red row.rootOp ∧ nd.in0 = some c ∧ g[c]? = some inner ∧
      inner.opcode = .vec row.child0Op ∧ inner.in0 = some src ∧ g[src]? = some source ∧
      (row.guarded → noNullsOn d g src = true) ∧ r = g.length ∧ g'' = markDead n (redirect n g.length
        (g ++ [{ opcode := row.newOp, arity := 1, in0 := some src, in1 := none, outType :=
          row.newOut source.outType }])) := by
  obtain ⟨nd, hn, h⟩ := bind_eq_some_iff.mp h
  cases hd : nd.dead with
  | true => simp [hd] at h
  | false =>
    simp only [hd, Bool.false_eq_true, if_false] at h
    obtain ⟨⟨op, src⟩, hp, h⟩ := bind_eq_some_iff.mp h
    obtain ⟨source, hs, h⟩ := bind_eq_some_iff.mp h
    obtain ⟨row, hrow, h⟩ := bind_eq_some_iff.mp h
    obtain ⟨c, hc, hp⟩ := bind_eq_some_iff.mp hp
    obtain ⟨inner, hi, hp⟩ := bind_eq_some_iff.mp hp
    obtain ⟨src', hsrc, hp⟩ := bind_eq_some_iff.mp hp
    obtain ⟨rfl, rfl⟩ := Prod.mk.inj (some.inj hp)
    obtain ⟨rfl, rfl⟩ := Prod.mk.inj (some.inj h)
    have hmatch := find?_some hrow
    simp only [decide_eq_true_eq] at hmatch
    exact ⟨nd, c, inner, src', source, row, hn, hd, hmatch.1, hc, hi, hmatch.2.1, hsrc, hs, hmatch.2.2, rfl, rfl⟩

lemma RefinesOpt.redirect {a b : Option ℕ} (p : Prop) [Decidable p] (h : RefinesOpt log a b)
    (hlog : ∀ x y, (x, y) ∈ log → y ≠ n) :
      RefinesOpt ((n, r) :: log) a (if p ∧ b = some n then some r else b) := by
  cases a with
  | none =>
    obtain rfl : b = none := h
    simp [RefinesOpt]
  | some x =>
    obtain ⟨y, rfl, h⟩ := h
    by_cases hp : p ∧ some y = some n
    · obtain rfl := some.inj hp.2
      rw [if_pos hp]
      rcases h with rfl | h
      · exact ⟨r, rfl, Or.inr mem_cons_self⟩
      · exact absurd rfl (hlog x y h)
    · rw [if_neg hp]
      exact ⟨y, rfl, h.imp id (mem_cons_of_mem _)⟩

lemma redirectNode_fields (c : Node) : (redirectNode n r c).opcode = c.opcode ∧
    (redirectNode n r c).outType = c.outType ∧ (redirectNode n r c).extIds = c.extIds ∧
    (redirectNode n r c).dead = c.dead := by
  rw [redirectNode]
  split_ifs <;> simp_all [Node.extIds]

lemma redirectNode_in0 (c : Node) (hlog : ∀ x y, (x, y) ∈ log → y ≠ n)
    (ha : RefinesOpt log a c.in0) : RefinesOpt ((n, r) :: log) a (redirectNode n r c).in0 := by
  rw [redirectNode]
  by_cases hd : c.dead = true
  · have h := ha.redirect (r := r) False hlog
    simpa only [if_pos hd, false_and, if_false] using h
  · rw [if_neg hd]
    exact ha.redirect _ hlog

lemma redirectNode_in1 (c : Node) (hlog : ∀ x y, (x, y) ∈ log → y ≠ n)
    (ha : RefinesOpt log a c.in1) : RefinesOpt ((n, r) :: log) a (redirectNode n r c).in1 := by
  rw [redirectNode]
  by_cases hd : c.dead = true
  · have h := ha.redirect (r := r) False hlog
    simpa only [if_pos hd, false_and, if_false] using h
  · rw [if_neg hd]
    exact ha.redirect _ hlog

lemma getElem?_afterRewrite (repl : Node) (m : ℕ) :
    (markDead n (redirect n r (g ++ [repl])))[m]? = ((g ++ [repl])[m]?).map fun c =>
      if n = m then { redirectNode n r c with dead := true } else redirectNode n r c := by
  rw [markDead, getElem?_modify, redirect, getElem?_map]
  cases (g ++ [repl])[m]? with
  | none => rfl
  | some c =>
    by_cases h : n = m <;> simp [h, redirectNode]

lemma newOp_ne_vec (row : Row) (op : VecOp) : row.newOp ≠ .vec op := by cases row <;> simp [Row.newOp]

lemma noNullsOn_eq_false (row : Row) (hs : g[src]? = some nd) (hop : nd.opcode = row.newOp) :
    noNullsOn d g src = false := by
  cases row <;> simp_all [noNullsOn, Row.newOp]

lemma Rewritten.follow (h : Rewritten d g g' log) {a b : ℕ} (hab : Refines log a b) (hb : g'[b]? = some nd)
    (hop : ∀ row : Row, nd.opcode ≠ row.newOp) :
    b = a ∧ ∃ nd₀, g[a]? = some nd₀ ∧ nd.opcode = nd₀.opcode ∧ nd.outType = nd₀.outType ∧
      RefinesOpt log nd₀.in0 nd.in0 := by
  rcases hab with rfl | hab
  · refine ⟨rfl, ?_⟩
    by_cases hlt : b < g.length
    · obtain ⟨nd', hb', hopc, hout, -, hin, -⟩ := h.kept b g[b] (getElem?_eq_getElem hlt)
      obtain rfl := some.inj (hb.symm.trans hb')
      exact ⟨g[b], getElem?_eq_getElem hlt, hopc, hout, hin⟩
    · obtain ⟨row, hrow⟩ := h.added b nd (Nat.le_of_not_lt hlt) hb
      exact absurd hrow (hop row)
  · obtain ⟨-, -, row, -, nd', -, hb', hrow, -⟩ := h.fresh a b hab
    obtain rfl := some.inj (hb.symm.trans hb')
    exact absurd hrow (hop row)

lemma Rewritten.site (hg : InRange g) (h : Rewritten d g g' log) (hn : n < g.length) {nd inner : Node} {c src : ℕ}
    (hnd : g'[n]? = some nd) (hop : nd.opcode = .red row.rootOp) (hc : nd.in0 = some c) (hi : g'[c]? = some inner)
    (hiop : inner.opcode = .vec row.child0Op) (hsrc : inner.in0 = some src)
    (hguard : row.guarded → noNullsOn d g' src = true) :
    ∃ src₀, Site d g n row src₀ ∧ Refines log src₀ src ∧ (row.guarded → src = src₀) := by
  obtain ⟨nd', hnd', hop', -, -, hin, -⟩ := h.kept n g[n] (getElem?_eq_getElem hn)
  obtain rfl := some.inj (hnd.symm.trans hnd')
  obtain ⟨c₀, hc₀, hcc⟩ : ∃ c₀, g[n].in0 = some c₀ ∧ Refines log c₀ c := by
    cases he : g[n].in0 with
    | none => simp [he, RefinesOpt, hc] at hin
    | some c₀ =>
      rw [he] at hin
      obtain ⟨b, hb, hr⟩ := hin
      exact ⟨c₀, rfl, some.inj (hc.symm.trans hb) ▸ hr⟩
  obtain ⟨rfl, inner₀, hi₀, hiop₀, -, hin'⟩ := h.follow hcc hi fun row' => hiop ▸ (newOp_ne_vec row' _).symm
  obtain ⟨src₀, hs₀, hss⟩ : ∃ src₀, inner₀.in0 = some src₀ ∧ Refines log src₀ src := by
    cases he : inner₀.in0 with
    | none => simp [he, RefinesOpt, hsrc] at hin'
    | some src₀ =>
      rw [he] at hin'
      obtain ⟨b, hb, hr⟩ := hin'
      exact ⟨src₀, rfl, some.inj (hsrc.symm.trans hb) ▸ hr⟩
  have hsame (hg : row.guarded = true) : src = src₀ ∧ noNullsOn d g src₀ = true := by
    have hno := hguard hg
    cases hgs : g'[src]? with
    | none => simp [noNullsOn, hgs] at hno
    | some source =>
      obtain ⟨rfl, source₀, hs₀', hsop, -, -⟩ := h.follow hss hgs fun row' hrow' => by
        rw [noNullsOn_eq_false row' hgs hrow'] at hno
        exact absurd hno (by simp)
      refine ⟨rfl, ?_⟩
      rw [← hno]
      simp only [noNullsOn, hgs, hs₀', map_some, hsop]
  refine ⟨src₀, ⟨⟨g[n], c, inner₀, getElem?_eq_getElem hn, hop' ▸ hop, hc₀, hi₀, hiop₀ ▸ hiop, hs₀⟩,
    hg c inner₀ src₀ hi₀ hs₀, fun hg => (hsame hg).2⟩, hss, fun hg => (hsame hg).1⟩

lemma Rewritten.refl : Rewritten d g g [] where
  length := rfl
  kept n nd hn := by
    refine ⟨nd, hn, rfl, rfl, rfl, ?_, ?_⟩
    · cases nd.in0 <;> simp [RefinesOpt, Refines]
    · cases nd.in1 <;> simp [RefinesOpt, Refines]
  fresh n r h := by simp at h
  added r nd' hr h := by simp [getElem?_eq_none hr] at h
  alive n nd nd' h h' hd _ := by
    obtain rfl := some.inj (h.symm.trans h')
    exact hd

theorem Rewritten.step (hg : InRange g) (h : Rewritten d g g' log) (hn : n < g.length) (hr : rewriteInPlace d g'
    n = some (g'', r)) :
    Rewritten d g g'' ((n, r) :: log) := by
  obtain ⟨nd, c, inner, src, source, row, hnd, hdead, hop, hc, hi, hiop, hsrc, hsource, hguard, rfl, rfl⟩ :=
    rewriteInPlace_eq_some hr
  obtain ⟨src₀, hsite, hss, hsame⟩ := h.site hg hn hnd hop hc hi hiop hsrc hguard
  set repl : Node :=
    { opcode := row.newOp, arity := 1, in0 := some src, in1 := none, outType := row.newOut source.outType }
  have hlen := h.length
  have hlog : ∀ x y, (x, y) ∈ log → y ≠ n := fun x y hxy => by
    have := (h.fresh x y hxy).2.1
    omega
  have hold (m : ℕ) (hm : m < g'.length) : (g' ++ [repl])[m]? = g'[m]? := getElem?_append_left hm
  have hnew : (g' ++ [repl])[g'.length]? = some repl := by simp
  refine ⟨?_, ?_, ?_, ?_, ?_⟩
  · simp [markDead, redirect, hlen]
    omega
  · intro m md hm
    obtain ⟨md', hmd', hopc, hout, hext, h0, h1⟩ := h.kept m md hm
    have hlt := (List.getElem?_eq_some_iff.mp hmd').1
    obtain ⟨ho, ht, he, -⟩ := redirectNode_fields (n := n) (r := g'.length) md'
    have e0 := redirectNode_in0 (r := g'.length) md' hlog h0
    have e1 := redirectNode_in1 (r := g'.length) md' hlog h1
    rw [getElem?_afterRewrite, hold m hlt, hmd', map_some]
    refine ⟨_, rfl, ?_⟩
    split_ifs
    · exact ⟨ho.trans hopc, ht.trans hout, he.trans hext, e0, e1⟩
    · exact ⟨ho.trans hopc, ht.trans hout, he.trans hext, e0, e1⟩
  · intro m r' hmr
    rcases mem_cons.mp hmr with heq | hmr
    · obtain ⟨rfl, rfl⟩ := Prod.mk.inj heq
      refine ⟨hn, by omega, row, src₀, ?_⟩
      have hne : m ≠ g'.length := by omega
      obtain ⟨ho, ht, -, hd⟩ := redirectNode_fields (n := m) (r := g'.length) repl
      have e0 := redirectNode_in0 (r := g'.length) (a := some src₀) repl hlog ⟨src, rfl, hss⟩
      rw [getElem?_afterRewrite, hnew, map_some, if_neg hne]
      refine ⟨_, hsite, rfl, ho, ht.trans ?_, hd, e0⟩
      by_cases hgr : row.guarded = true
      · obtain rfl := hsame hgr
        obtain ⟨-, source₀, hs₀, -, hout, -⟩ := h.follow (Or.inl rfl) hsource fun row' hrow' => by
          have := noNullsOn_eq_false (d := d) row' hsource hrow'
          rw [hguard hgr] at this
          exact absurd this (by simp)
        simp [repl, outTypeOf, hs₀, hout]
      · cases row <;> first | rfl | exact absurd rfl hgr
    · obtain ⟨hm, hge, row', src', nd', hsite', hr', hop', hout', hd', hin'⟩ := h.fresh m r' hmr
      have hlt := (List.getElem?_eq_some_iff.mp hr').1
      obtain ⟨ho, ht, -, hd⟩ := redirectNode_fields (n := n) (r := g'.length) nd'
      have e0 := redirectNode_in0 (r := g'.length) nd' hlog hin'
      have hne : n ≠ r' := by omega
      refine ⟨hm, hge, row', src', redirectNode n g'.length nd', hsite', ?_, ho.trans hop', ht.trans hout',
        hd.trans hd', e0⟩
      rw [getElem?_afterRewrite, hold r' hlt, hr', map_some, if_neg hne]
  · intro m md' hge hm
    have hne : n ≠ m := by omega
    simp only [getElem?_afterRewrite, if_neg hne] at hm
    obtain ⟨c', hc', rfl⟩ := Option.map_eq_some_iff.mp hm
    obtain ⟨ho, -⟩ := redirectNode_fields (n := n) (r := g'.length) c'
    by_cases hlt : m < g'.length
    · rw [hold m hlt] at hc'
      obtain ⟨row', hrow'⟩ := h.added m c' hge hc'
      exact ⟨row', ho.trans hrow'⟩
    · have hm : m = g'.length := by
        have := (List.getElem?_eq_some_iff.mp hc').1
        rw [length_append, length_singleton] at this
        omega
      rw [hm, hnew] at hc'
      obtain rfl := some.inj hc'
      exact ⟨row, ho⟩
  · intro m md md' hm hm' hd hlogm
    have hne : n ≠ m := by
      rintro rfl
      exact hlogm _ mem_cons_self
    have hlt := (List.getElem?_eq_some_iff.mp hm).1
    rw [getElem?_afterRewrite, hold m (by omega)] at hm'
    simp only [if_neg hne] at hm'
    obtain ⟨c', hc', rfl⟩ := Option.map_eq_some_iff.mp hm'
    obtain ⟨-, -, -, hdc⟩ := redirectNode_fields (n := n) (r := g'.length) c'
    rw [hdc]
    exact h.alive m md c' hm hc' hd fun x hx => hlogm x (mem_cons_of_mem _ hx)

end

section

variable {g : List Node} {root n : ℕ}

def Child (g : List Node) (n c : ℕ) : Prop :=
  ∃ nd, g[n]? = some nd ∧ nd.dead = false ∧ (0 < nd.arity ∧ nd.in0 = some c ∨ 1 < nd.arity ∧ nd.in1 = some c)

lemma mem_arityInputs {c : ℕ} : c ∈ arityInputs nd ↔ 0 < nd.arity ∧ nd.in0 = some c ∨ 1 < nd.arity ∧
    nd.in1 = some c := by
  rw [arityInputs, mem_append]
  refine or_congr ?_ ?_
  · split_ifs with h <;> simp [h]
  · split_ifs with h <;> simp [h]

lemma walkGraph_edge (n c : ℕ) : (walkGraph g).Edge n c ↔ Child g n c := by
  simp only [Worklist.Graph.Edge, walkGraph, Child]
  cases g[n]? with
  | none => simp
  | some nd =>
    cases hd : nd.dead with
    | true => simp [hd]
    | false => simp [hd, mem_arityInputs]

lemma walkGraph_refs_length (n : ℕ) : ((walkGraph g).refs n).length ≤ 1 + 1 := by
  have hopt (o : Option ℕ) : o.toList.length ≤ 1 := by cases o <;> simp
  simp only [walkGraph]
  cases g[n]? with
  | none => simp
  | some nd =>
    have h0 := hopt nd.in0
    have h1 := hopt nd.in1
    simp only [arityInputs]
    split_ifs <;> simp <;> omega

lemma enters_iff : (walkGraph g).enters n = true ↔ n < g.length := by simp [walkGraph]

lemma walk_roomy (g : List Node) (root : ℕ) :
    (Worklist.Search.search (walkGraph g) (2 * g.length) (List.range g.length) root).Roomy
    (List.range g.length) 1 ∨ g.length = 0 := by
  refine (Nat.eq_zero_or_pos g.length).symm.imp_left fun hpos => ?_
  refine Worklist.Search.search_roomy (fun m hm => mem_range.mpr (enters_iff.mp hm)) walkGraph_refs_length ?_ root
  rw [length_range]
  omega

theorem mem_walk_iff : n ∈ walk g root ↔ n < g.length ∧ root < g.length ∧
    Relation.ReflTransGen (Child g) root n := by
  have hreaches (m : ℕ) : (walkGraph g).Reaches root m ↔ Relation.ReflTransGen (Child g) root m := by
    rw [Worklist.Graph.Reaches, funext₂ fun a b => propext (walkGraph_edge (g := g) a b)]
  have hU : ∀ m, (walkGraph g).enters m = true → m ∈ List.range g.length :=
    fun m hm => mem_range.mpr (enters_iff.mp hm)
  have hsound : (Worklist.Search.search (walkGraph g) (2 * g.length) (List.range g.length) root).Sound
      (walkGraph g) root :=
    Worklist.Search.search_sound _ _ _ root
  constructor
  · intro h
    have hlt := enters_iff.mp (hsound.seen n h).1
    have hr := (hreaches n).mp (hsound.reaches h)
    refine ⟨hlt, ?_, hr⟩
    rcases hr.cases_head with rfl | ⟨c, ⟨nd, hnd, -⟩, -⟩
    · exact hlt
    · exact (List.getElem?_eq_some_iff.mp hnd).1
  · rintro ⟨hlt, hroot, hr⟩
    have hroom := ((walk_roomy g root).resolve_right (by omega)).refused
    refine (Worklist.Search.seen_iff hsound (Worklist.Search.search_stack _ hU root)).mpr (by simp [hroom]) n
      ((hreaches n).mpr hr) (enters_iff.mpr hlt)

end

section

variable {d : Data} {g : List Node} {root : ℕ} {s : PassState}

structure Reached (d : Data) (g : List Node) (root : ℕ) (s : PassState) : Prop where
  rewritten : Rewritten d g s.nodes s.log
  root : s.root = root ∧ (∀ r, (root, r) ∉ s.log) ∨ (root, s.root) ∈ s.log

lemma Reached.init : Reached d g root ⟨g, root, []⟩ := ⟨.refl, Or.inl ⟨rfl, by simp⟩⟩

lemma Reached.step (hg : InRange g) (h : Reached d g root s) {n : ℕ} (hn : n < g.length) :
    Reached d g root (rewriteAt d s n) := by
  rw [rewriteAt]
  cases hr : rewriteInPlace d s.nodes n with
  | none => exact h
  | some gr =>
    obtain ⟨g'', r⟩ := gr
    refine ⟨h.rewritten.step hg hn hr, ?_⟩
    simp only
    split_ifs with hroot
    · rcases h.root with ⟨he, -⟩ | hlog
      · exact Or.inr (by rw [hroot, he]; exact mem_cons_self)
      · have := (h.rewritten.fresh _ _ hlog).2.1
        omega
    · rcases h.root with ⟨he, hno⟩ | hlog
      · refine Or.inl ⟨he, fun x hx => ?_⟩
        rcases mem_cons.mp hx with hx | hx
        · exact hroot ((Prod.mk.inj hx).1.symm.trans he.symm)
        · exact hno x hx
      · exact Or.inr (mem_cons_of_mem _ hlog)

lemma Reached.run (hg : InRange g) (order : List ℕ) (h : Reached d g root s) (ho : ∀ n ∈ order, n < g.length) :
    Reached d g root (order.foldl (rewriteAt d) s) := by
  induction order generalizing s with
  | nil => exact h
  | cons n order ih =>
    rw [foldl_cons]
    exact ih (h.step hg (ho n mem_cons_self)) fun m hm => ho m (mem_cons_of_mem _ hm)

lemma log_subset_rewriteAt (n : ℕ) : s.log ⊆ (rewriteAt d s n).log := by
  rw [rewriteAt]
  cases rewriteInPlace d s.nodes n with
  | none => exact fun _ h => h
  | some gr => exact fun _ h => mem_cons_of_mem _ h

lemma log_subset_run (order : List ℕ) : s.log ⊆ (order.foldl (rewriteAt d) s).log := by
  induction order generalizing s with
  | nil => exact fun _ h => h
  | cons n order ih => exact fun _ h => ih (log_subset_rewriteAt n h)

lemma log_sublist (order : List ℕ) :
    List.Sublist ((order.foldl (rewriteAt d) s).log.map Prod.fst) (order.reverse ++ s.log.map Prod.fst) := by
  induction order generalizing s with
  | nil => exact List.Sublist.refl _
  | cons m order ih =>
    have hstep : List.Sublist ((rewriteAt d s m).log.map Prod.fst) (m :: s.log.map Prod.fst) := by
      rw [rewriteAt]
      cases rewriteInPlace d s.nodes m with
      | none => exact sublist_cons_self _ _
      | some gr => exact List.Sublist.refl _
    rw [foldl_cons, reverse_cons, append_assoc, singleton_append]
    exact ih.trans (hstep.append_left _)

lemma Rewritten.rewriteInPlace_isSome {g' : List Node} {log : List (ℕ × ℕ)} (h : Rewritten d g g' log) {n src : ℕ}
    (hsite : Site d g n row src) (hnd : g[n]? = some nd) (halive : nd.dead = false)
    (hlog : ∀ r, (n, r) ∉ log) : ∃ gr, rewriteInPlace d g' n = some gr := by
  obtain ⟨⟨nd₀, c, inner, hn, hop, hc, hi, hiop, hs⟩, hlt, hguard⟩ := hsite
  obtain rfl := some.inj (hnd.symm.trans hn)
  -- A logged node is a reduction, so neither the inner operator nor a constant or scan is one.
  have hlogged : ∀ m md r, g[m]? = some md → (m, r) ∈ log → ∃ op, md.opcode = .red op := by
    intro m md r hm hr
    obtain ⟨-, -, row', -, -, ⟨⟨md', -, -, hm', hop', -⟩, -, -⟩, -⟩ := h.fresh m r hr
    obtain rfl := some.inj (hm.symm.trans hm')
    exact ⟨_, hop'⟩
  obtain ⟨nd', hnd', hop', -, -, hin, -⟩ := h.kept n nd hnd
  have halive' := h.alive n nd nd' hnd hnd' halive hlog
  rw [hc] at hin
  obtain ⟨c', hc', hcc⟩ := hin
  obtain rfl : c' = c := hcc.resolve_right fun hm => by
    obtain ⟨op, ho⟩ := hlogged c inner c' hi hm
    rw [hiop] at ho
    cases ho
  obtain ⟨inner', hi', hiop', -, -, hin', -⟩ := h.kept c' inner hi
  rw [hs] at hin'
  obtain ⟨s', hs', hss⟩ := hin'
  obtain ⟨source, hsource⟩ : ∃ source, g'[s']? = some source := by
    rcases hss with rfl | hss
    · obtain ⟨source, hsource, -⟩ := h.kept s' g[s'] (getElem?_eq_getElem hlt)
      exact ⟨source, hsource⟩
    · obtain ⟨-, -, -, -, source, -, hsource, -⟩ := h.fresh src s' hss
      exact ⟨source, hsource⟩
  have hguard' : row.guarded → noNullsOn d g' s' = true := by
    intro hg
    have hno := hguard hg
    obtain ⟨sd, hsd, hsop, -⟩ := h.kept src g[src] (getElem?_eq_getElem hlt)
    obtain rfl : s' = src := hss.resolve_right fun hm => by
      obtain ⟨op, ho⟩ := hlogged src _ s' (getElem?_eq_getElem hlt) hm
      simp [noNullsOn, getElem?_eq_getElem hlt, ho] at hno
    rw [← hno]
    simp only [noNullsOn, hsd, getElem?_eq_getElem hlt, map_some, hsop]
  have hfind : (rayIdioms.find? fun row =>
    decide (nd'.opcode = .red row.rootOp ∧ inner'.opcode = .vec row.child0Op ∧
      (row.guarded → noNullsOn d g' s' = true))).isSome := by
    rw [find?_isSome]
    refine ⟨row, by cases row <;> simp [rayIdioms], ?_⟩
    rw [decide_eq_true_eq]
    exact ⟨hop'.trans hop, hiop'.trans hiop, hguard'⟩
  obtain ⟨row', hrow'⟩ := isSome_iff_exists.mp hfind
  have hpat : pattern g' nd' = some (inner'.opcode, s') := by
    simp [pattern, hc', hi', hs']
  simp only [rewriteInPlace, hnd', bind_eq_bind, bind_some, halive', Bool.false_eq_true, if_false, hpat,
    hsource, hrow']
  exact ⟨_, rfl⟩

lemma Reached.log_of_site (hg : InRange g) (order : List ℕ) (h : Reached d g root s)
    (ho : ∀ n ∈ order, n < g.length)
    {n src : ℕ} (hn : n ∈ order) (hsite : Site d g n row src) (hnd : g[n]? = some nd)
    (halive : nd.dead = false) : ∃ r, (n, r) ∈ (order.foldl (rewriteAt d) s).log := by
  induction order generalizing s with
  | nil => simp at hn
  | cons m order ih =>
    rw [foldl_cons]
    have ho' : ∀ n ∈ order, n < g.length := fun k hk => ho k (mem_cons_of_mem _ hk)
    rcases mem_cons.mp hn with rfl | hn
    · by_cases hlog : ∃ r, (n, r) ∈ s.log
      · obtain ⟨r, hr⟩ := hlog
        exact ⟨r, log_subset_run order (log_subset_rewriteAt n hr)⟩
      · push Not at hlog
        obtain ⟨⟨g'', r⟩, hr⟩ := h.rewritten.rewriteInPlace_isSome hsite hnd halive hlog
        refine ⟨r, log_subset_run order ?_⟩
        rw [rewriteAt, hr]
        exact mem_cons_self
    · exact ih (h.step hg (ho m mem_cons_self)) ho' hn

end

variable {rt : Runtime} {d : Data} {g g' : List Node} {log : List (ℕ × ℕ)}

def rowOld (rt : Runtime) (row : Row) (w : Value) : Value :=
  execReduction rt none row.rootOp 0 (execVecOp rt row.child0Op w)

def rowNew (rt : Runtime) (row : Row) (out : ℕ) (w : Value) : Value := applyOp rt none row.newOp (row.newOut out) w

def RowAgrees (rt : Runtime) (row : Row) (out : ℕ) (w : Value) : Prop :=
  match row, w with
  | .countDistinct, w => DistinctAgrees w
  | .countAsc, w | .countDesc, w | .countReverse, w => CountAgrees w
  | .firstAsc, .vec v => MinAgrees rt v out
  | .lastAsc, .vec v => MaxAgrees v out
  | _, _ => False

structure Sound (rt : Runtime) (d : Data) (g : List Node) : Prop where
  inRange : InRange g
  source : ∀ src v, noNullsOn d g src = true → Computes rt d none g src (.vec v) →
    v.WellFormed ∧ Typed v.ty (outTypeOf g src)

lemma execReduction_root (row : Row) (o : ℕ) (w : Value) :
    execReduction rt none row.rootOp o w = execReduction rt none row.rootOp 0 w := by
  cases row <;> cases w <;> rfl

lemma typedNull_ne_asc_error (out : ℕ) : Value.err "type" "OP_ASC expects a vector input" ≠ typedNull out := by
  rw [typedNull]
  split_ifs with h
  · subst h
    decide
  · simp

theorem row_iff (row : Row) (out : ℕ) (w : Value)
    (hw : row.guarded → (∃ v, w = .vec v ∧ v.WellFormed ∧ Typed v.ty out) ∨ ∃ items, w = .list items) :
    rowOld rt row w = rowNew rt row out w ↔ RowAgrees rt row out w := by
  cases row with
  | countDistinct => exact count_distinct_iff w 0
  | countAsc => exact count_passthrough_iff w .asc (by decide) 0 ElemType.i64.code
  | countDesc => exact count_passthrough_iff w .desc (by decide) 0 ElemType.i64.code
  | countReverse => exact count_passthrough_iff w .reverse (by decide) 0 ElemType.i64.code
  | firstAsc =>
    rcases hw rfl with ⟨v, rfl, hwf, hty⟩ | ⟨items, rfl⟩
    · exact first_asc_eq_min_iff hwf hty 0
    · exact iff_of_false (typedNull_ne_asc_error out) id
  | lastAsc =>
    rcases hw rfl with ⟨v, rfl, hwf, hty⟩ | ⟨items, rfl⟩
    · exact last_asc_eq_max_iff hwf hty 0
    · exact iff_of_false (typedNull_ne_asc_error out) id

lemma computes_guarded (hno : noNullsOn d g src = true) (hw : Computes rt d none g src w) :
    (∃ v, w = .vec v) ∨ ∃ items, w = .list items := by
  obtain ⟨fuel, hw⟩ := hw
  cases fuel with
  | zero => simp [exec] at hw
  | succ fuel =>
    rw [exec] at hw
    cases hs : g[src]? with
    | none => simp [noNullsOn, hs] at hno
    | some nd =>
      simp only [hs] at hw
      cases hop : nd.opcode with
      | const =>
        simp only [hop, Option.some.injEq] at hw
        cases hl : d.literal src with
        | none => simp [noNullsOn, hs, hop, hl] at hno
        | some v =>
          cases v with
          | vec v => exact Or.inl ⟨v, by rw [← hw, hl]; rfl⟩
          | _ => simp [noNullsOn, hs, hop, hl] at hno
      | scan =>
        simp only [hop, Option.some.injEq] at hw
        cases hc : d.column src with
        | none => simp [noNullsOn, hs, hop, hc] at hno
        | some c => cases c with
          | flat v =>
            cases v with
            | vec v => exact Or.inl ⟨v, by rw [← hw, hc]; rfl⟩
            | _ => simp [noNullsOn, hs, hop, hc] at hno
          | parted b v => exact Or.inl ⟨v, by rw [← hw, hc]; rfl⟩
          | partedList b items => exact Or.inr ⟨items, by rw [← hw, hc]; rfl⟩
          | mapCommon v => simp [noNullsOn, hs, hop, hc] at hno
      | _ => simp [noNullsOn, hs, hop] at hno

lemma Sound.guarded (hs : Sound rt d g) {n src : ℕ} (hsite : Site d g n row src)
    (hw : Computes rt d none g src w) :
    row.guarded → (∃ v, w = .vec v ∧ v.WellFormed ∧ Typed v.ty (outTypeOf g src)) ∨ ∃ items, w = .list items := by
  intro hg
  rcases computes_guarded (hsite.guard hg) hw with ⟨v, rfl⟩ | h
  · exact Or.inl ⟨v, rfl, hs.source src v (hsite.guard hg) hw⟩
  · exact Or.inr h

lemma newOp_unary (row : Row) : row.newOp.Unary := by cases row <;> simp [Row.newOp, Opcode.Unary]

lemma Site.exec_eq_some {fuel n src : ℕ} (hsite : Site d g n row src)
    (h : exec rt d none g fuel n = some v) :
      ∃ k w, fuel = k + 2 ∧ exec rt d none g k src = some w ∧ v = rowOld rt row w := by
  obtain ⟨⟨nd, c, inner, hn, hop, hc, hi, hiop, hs⟩, -, -⟩ := hsite
  rcases fuel with _ | _ | k
  · simp [exec] at h
  · rw [exec_unary hn (by simp [hop, Opcode.Unary]) hc] at h
    simp [exec] at h
  · rw [exec_unary hn (by simp [hop, Opcode.Unary]) hc, exec_unary hi (by simp [hiop, Opcode.Unary]) hs] at h
    obtain ⟨u, hu, rfl⟩ := Option.map_eq_some_iff.mp h
    obtain ⟨w, hw, rfl⟩ := Option.map_eq_some_iff.mp hu
    refine ⟨k, w, rfl, hw, ?_⟩
    rw [hop, hiop]
    exact execReduction_root row nd.outType _

lemma Site.computes {n src : ℕ} (hsite : Site d g n row src)
    (hw : Computes rt d none g src w) : Computes rt d none g n (rowOld rt row w) := by
  obtain ⟨⟨nd, c, inner, hn, hop, hc, hi, hiop, hs⟩, -, -⟩ := hsite
  have hinner := (computes_unary hi (by simp [hiop, Opcode.Unary]) hs).mpr ⟨w, hw, rfl⟩
  have houter := (computes_unary hn (by simp [hop, Opcode.Unary]) hc).mpr ⟨_, hinner, rfl⟩
  rw [hop, hiop] at houter
  rw [rowOld, ← execReduction_root row nd.outType]
  exact houter

lemma forall₂_inputs {a b : Node} (h0 : RefinesOpt log a.in0 b.in0) (h1 : RefinesOpt log a.in1 b.in1)
    (he : b.extIds = a.extIds) : List.Forall₂ (Refines log) a.inputs b.inputs := by
  have hopt {x y : Option ℕ} (h : RefinesOpt log x y) : List.Forall₂ (Refines log) x.toList y.toList := by
    cases x with
    | none =>
      obtain rfl : y = none := h
      exact .nil
    | some x =>
      obtain ⟨y, rfl, hxy⟩ := h
      exact .cons hxy .nil
  rw [Node.inputs, Node.inputs, he]
  refine List.rel_append (List.rel_append (hopt h0) (hopt h1)) (List.forall₂_same.mpr fun x _ => Or.inl rfl)

theorem Rewritten.exec_eq (h : Rewritten d g g' log)
    (hright : ∀ n r row src w, (n, r) ∈ log → Site d g n row src → Computes rt d none g src w →
      rowOld rt row w = rowNew rt row (outTypeOf g src) w) (fuel n : ℕ) (v : Value)
        (hv : exec rt d none g fuel n = some v) :
    exec rt d none g' fuel n = some v ∧ ∀ r, (n, r) ∈ log → exec rt d none g' fuel r = some v := by
  induction fuel using Nat.strong_induction_on generalizing n v with
  | _ fuel ih =>
    have edge : ∀ k < fuel, ∀ a b w, Refines log a b → exec rt d none g k a = some w →
        exec rt d none g' k b = some w := by
      rintro k hk a b w (rfl | hab) hw
      · exact (ih k hk b w hw).1
      · exact (ih k hk a w hw).2 b hab
    constructor
    · cases fuel with
      | zero => simp [exec] at hv
      | succ fuel =>
        rw [exec] at hv ⊢
        cases hn : g[n]? with
        | none => simp [hn] at hv
        | some nd =>
          obtain ⟨nd', hn', hop, hout, hext, h0, h1⟩ := h.kept n nd hn
          simp only [hn] at hv
          simp only [hn', hop]
          cases hopc : nd.opcode with
          | scan => simpa [hopc] using hv
          | const => simpa [hopc] using hv
          | op o =>
            simp only [hopc] at hv ⊢
            obtain ⟨vs, hvs, rfl⟩ := Option.map_eq_some_iff.mp hv
            rw [mapM_of_forall₂ (forall₂_inputs h0 h1 hext) (edge fuel (Nat.lt_succ_self fuel)) hvs]
            rfl
          | _ =>
            simp only [hopc, hout] at hv ⊢
            cases hc : nd.in0 with
            | none =>
              rw [hc] at h0
              obtain h0 : nd'.in0 = none := h0
              simpa [hc, h0] using hv
            | some c =>
              rw [hc] at h0
              obtain ⟨c', hc', hcc⟩ := h0
              simp only [hc] at hv
              simp only [hc']
              obtain ⟨w, hw, rfl⟩ := Option.map_eq_some_iff.mp hv
              rw [edge fuel (Nat.lt_succ_self fuel) c c' w hcc hw]
              rfl
    · intro r hr
      obtain ⟨-, -, row, src, nd', hsite, hr', hop, hout, -, src', hsrc', hss⟩ := h.fresh n r hr
      obtain ⟨k, w, rfl, hw, rfl⟩ := hsite.exec_eq_some hv
      rw [hright n r row src w hr hsite ⟨k, hw⟩, exec_unary hr' (hop ▸ newOp_unary row) hsrc',
        exec_succ (edge k (by omega) src src' w hss hw), hop, hout]
      rfl

end Rayforce.Idiom
