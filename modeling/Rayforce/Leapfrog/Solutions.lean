import Rayforce.Leapfrog.Iterator

namespace Rayforce.Leapfrog

structure Binding where
  csr : Csr
  boundVar : ℕ

abbrev VarPlan := List Binding

structure Edge where
  rel : Rel
  src : ℕ
  dst : ℕ

def lftjMaxVars : ℕ := 16

def lftjMaxItersPerVar : ℕ := 8

def addBinding (plans : List VarPlan) (v : ℕ) (b : Binding) : Option (List VarPlan) :=
  match plans[v]? with
  | none => none
  | some plan => if lftjMaxItersPerVar ≤ plan.length then none else some (plans.set v (plan ++ [b]))

def addEdge (nVars : ℕ) (plans : List VarPlan) (e : Edge) : Option (List VarPlan) :=
  if e.src = e.dst then some plans
  else if nVars ≤ e.src ∨ nVars ≤ e.dst then none
  else if e.src < e.dst then addBinding plans e.dst ⟨e.rel.fwd, e.src⟩
  else addBinding plans e.src ⟨e.rel.rev, e.dst⟩

def lftjBuildPlan (nVars : ℕ) (pattern : List Edge) : Option (List VarPlan) :=
  if lftjMaxVars < nVars then none
  else pattern.foldlM (addEdge nVars) (List.replicate nVars [])

structure Out where
  rows : List (List ℤ)
  cap : ℕ
  oom : Bool
deriving DecidableEq

def lftjGrowOutput (out : Out) : Option Out :=
  if int64Max / 2 < out.cap then none
  else some { out with cap := if out.cap < 64 then 64 else out.cap * 2 }

def emit (bound : List ℤ) (out : Out) : Out :=
  if out.cap ≤ out.rows.length then
    match lftjGrowOutput out with
    | none => { out with oom := true }
    | some out => { out with rows := out.rows ++ [bound] }
  else { out with rows := out.rows ++ [bound] }

def overNodes (body : ℤ → Out → Option Out) : List ℤ → Out → Option Out
  | [], out => some out
  | v :: vs, out =>
    match body v out with
    | none => none
    | some out => if out.oom then some out else overNodes body vs out

def overMatches (body : ℤ → Out → Option Out) : ℕ → List Iter → Out → Option Out
  | 0, _, _ => none
  | fuel + 1, iters, out =>
    match leapfrogSearch iters with
    | none => none
    | some none => some out
    | some (some (v, iters)) =>
      match body v out with
      | none => none
      | some out => if out.oom then some out else overMatches body fuel (iters.map lftjNext) out

def openIters (bound : List ℤ) (plan : VarPlan) : Option (List Iter) :=
  plan.mapM fun b =>
    let parent := bound.getD b.boundVar 0
    if parent < 0 ∨ (b.csr.nNodes : ℤ) ≤ parent then none else some (lftjOpen b.csr parent)

def nodeCount (plans : List VarPlan) : ℕ := (plans.flatten.map fun b => b.csr.nNodes).foldl max 0

def nodes (plans : List VarPlan) : List ℤ := (List.range (nodeCount plans)).map fun (a : ℕ) => (a : ℤ)

def lftjEnumerate (plans : List VarPlan) : ℕ → List ℤ → Out → Option Out
  | 0, bound, out => if out.oom then some out else some (emit bound out)
  | n + 1, bound, out =>
    if out.oom then some out
    else
      match plans[bound.length]? with
      | none => none
      | some [] =>
        if bound.length ≠ 0 then some out
        else overNodes (fun a => lftjEnumerate plans n (bound ++ [a])) (nodes plans) out
      | some (b :: bs) =>
        match openIters bound (b :: bs) with
        | none => some out
        | some iters =>
          overMatches (fun v => lftjEnumerate plans n (bound ++ [v])) (totalLeft iters + 1) iters out

section

variable {α β : Type*} {R : α → β → Prop} {as : List α} {bs : List β}

lemma exists_partner (h : List.Forall₂ R as bs) {a : α} (ha : a ∈ as) : ∃ b ∈ bs, R a b := by
  induction h with
  | nil => cases ha
  | cons hab _ ih =>
    obtain rfl | ha := List.mem_cons.mp ha
    · exact ⟨_, List.mem_cons_self, hab⟩
    · obtain ⟨b, hb, hr⟩ := ih ha
      exact ⟨b, List.mem_cons_of_mem _ hb, hr⟩

lemma exists_partner' (h : List.Forall₂ R as bs) {b : β} (hb : b ∈ bs) : ∃ a ∈ as, R a b :=
  exists_partner h.flip hb

end

section

variable {iters iters' : List Iter} {v x : ℤ}

def commonList : List Iter → List ℤ
  | [] => []
  | it :: its => (remaining it).filter fun x => its.all fun j => x ∈ remaining j

lemma mem_commonList (hne : iters ≠ []) : x ∈ commonList iters ↔ Common iters x := by
  cases iters with
  | nil => exact absurd rfl hne
  | cons it its =>
    simp only [commonList, Common, List.mem_filter, List.all_eq_true, decide_eq_true_eq,
      List.forall_mem_cons]

section

variable (hok : ∀ it ∈ iters, it.Ok)
include hok

lemma sorted_commonList : (commonList iters).Pairwise (· < ·) := by
  cases iters with
  | nil => exact List.Pairwise.nil
  | cons it its => exact (hok it List.mem_cons_self).sorted.filter _

lemma totalLeft_next (hall : List.Forall₂ Narrows iters iters')
    (hheads : ∀ it ∈ iters', ∃ t, remaining it = v :: t) :
      totalLeft (iters'.map lftjNext) + iters.length ≤ totalLeft iters := by
  induction hall with
  | nil => exact le_rfl
  | @cons it it' its its' hn hall ih =>
    have hrest := ih (fun a ha => hok a (List.mem_cons_of_mem _ ha))
      fun a ha => hheads a (List.mem_cons_of_mem _ ha)
    obtain ⟨t, ht⟩ := hheads it' List.mem_cons_self
    have hle := hn.2.length_le
    have hnext := remaining_length (lftjNext_ok hn.1).1
    rw [(lftjNext_ok hn.1).2, ht, List.tail_cons] at hnext
    rw [remaining_length (hok it List.mem_cons_self), ht, List.length_cons] at hle
    simp only [totalLeft, List.map_cons, List.sum_cons, List.length_cons] at hrest ⊢
    omega

lemma commonList_of_found (hne : iters ≠ []) (h : Found iters (some (v, iters'))) :
    commonList iters = v :: commonList (iters'.map lftjNext) ∧ (∀ it ∈ iters'.map lftjNext, it.Ok) ∧
      iters'.map lftjNext ≠ [] ∧
      totalLeft (iters'.map lftjNext) < totalLeft iters := by
  obtain ⟨hall, hheads, hcom⟩ := h
  have hok' : ∀ it ∈ iters', it.Ok := by
    intro it' hit'
    obtain ⟨it, -, hn⟩ := exists_partner' hall hit'
    exact hn.1
  have hback : ∀ x, Common iters' x → Common iters x := by
    intro x hx it hit
    obtain ⟨it', hit', hn⟩ := exists_partner hall hit
    exact hn.2.subset (hx it' hit')
  have hne' : iters' ≠ [] := by
    rintro rfl
    exact hne (List.length_eq_zero_iff.mp hall.length_eq)
  have hokn : ∀ it ∈ iters'.map lftjNext, it.Ok := by
    intro it hit
    obtain ⟨a, ha, rfl⟩ := List.mem_map.mp hit
    exact (lftjNext_ok (hok' a ha)).1
  have hnen : iters'.map lftjNext ≠ [] := by simpa using hne'
  have htail : ∀ x, Common (iters'.map lftjNext) x ↔ ∀ it ∈ iters', x ∈ (remaining it).tail := by
    intro x
    simp only [Common, List.forall_mem_map]
    refine forall₂_congr fun it hit => ?_
    rw [(lftjNext_ok (hok' it hit)).2]
  have hmem : ∀ x, x ∈ commonList iters ↔ x ∈ v :: commonList (iters'.map lftjNext) := by
    intro x
    rw [mem_commonList hne, List.mem_cons, mem_commonList hnen, htail]
    constructor
    · intro hx
      by_cases hxv : x = v
      · exact .inl hxv
      · refine .inr fun it hit => ?_
        obtain ⟨t, ht⟩ := hheads it hit
        have hin := hcom x hx it hit
        rw [ht] at hin ⊢
        exact (List.mem_cons.mp hin).resolve_left hxv
    · rintro (rfl | hx)
      · refine hback _ fun it hit => ?_
        obtain ⟨t, ht⟩ := hheads it hit
        rw [ht]
        exact List.mem_cons_self
      · exact hback x fun it hit => List.mem_of_mem_tail (hx it hit)
  refine ⟨?_, hokn, hnen, ?_⟩
  · refine (sorted_commonList hok).eq_of_mem_iff ?_ hmem
    refine List.pairwise_cons.mpr ⟨fun x hx => ?_, sorted_commonList hokn⟩
    obtain ⟨it, hit⟩ := List.exists_mem_of_ne_nil _ hne'
    obtain ⟨t, ht⟩ := hheads it hit
    have hxt := (htail x).mp ((mem_commonList hnen).mp hx) it hit
    have hsorted := (hok' it hit).sorted
    rw [ht] at hxt hsorted
    exact (List.pairwise_cons.mp hsorted).1 x hxt
  · have hnext := totalLeft_next hok hall hheads
    have hpos := List.length_pos_iff.mpr hne
    omega

end

lemma overMatches_eq (body : ℤ → Out → Option Out) {fuel : ℕ} {out : Out} (hok : ∀ it ∈ iters, it.Ok)
    (hne : iters ≠ []) (hfuel : totalLeft iters < fuel) :
    overMatches body fuel iters out = overNodes body (commonList iters) out := by
  induction fuel generalizing iters out with
  | zero => exact absurd hfuel (Nat.not_lt_zero _)
  | succ fuel ih =>
    obtain ⟨r, hr, hfound⟩ := leapfrogSearch_spec hok hne
    rw [overMatches, hr]
    rcases r with _ | ⟨v, iters'⟩
    · have hnil : commonList iters = [] :=
        List.eq_nil_iff_forall_not_mem.mpr fun x hx => hfound x ((mem_commonList hne).mp hx)
      rw [hnil, overNodes]
    · obtain ⟨hcommon, hokn, hnen, hlt⟩ := commonList_of_found hok hne hfound
      rw [hcommon, overNodes]
      simp only
      cases hbody : body v out with
      | none => rfl
      | some out' =>
        simp only
        by_cases hoom : out'.oom = true
        · rw [if_pos hoom, if_pos hoom]
        · rw [if_neg hoom, if_neg hoom]
          exact ih hokn hnen (by omega)

end

section

variable {plans : List VarPlan} {bound row : List ℤ} {n : ℕ} {x : ℤ}

def candidates (plans : List VarPlan) (bound : List ℤ) : List ℤ :=
  match plans[bound.length]? with
  | none => []
  | some [] => if bound.length ≠ 0 then [] else nodes plans
  | some (b :: bs) => (openIters bound (b :: bs)).elim [] commonList

def solutions (plans : List VarPlan) : ℕ → List ℤ → List (List ℤ)
  | 0, bound => [bound]
  | n + 1, bound => (candidates plans bound).flatMap fun v => solutions plans n (bound ++ [v])

def PutsOut (step : Out → Option Out) (rows : List (List ℤ)) : Prop :=
  ∀ out, ∃ out', step out = some out' ∧ (out'.oom = false → out'.rows = out.rows ++ rows)

lemma emit_rows (out : Out) (h : (emit bound out).oom = false) : (emit bound out).rows = out.rows ++ [bound] := by
  rw [emit] at h ⊢
  by_cases hcap : out.cap ≤ out.rows.length
  · rw [if_pos hcap] at h ⊢
    rw [lftjGrowOutput] at h ⊢
    by_cases hmax : int64Max / 2 < out.cap
    · rw [if_pos hmax] at h
      cases h
    · rw [if_neg hmax]
  · rw [if_neg hcap]

lemma overNodes_putsOut {body : ℤ → Out → Option Out} {rows : ℤ → List (List ℤ)}
    (h : ∀ v, PutsOut (body v) (rows v)) (vs : List ℤ) : PutsOut (overNodes body vs) (vs.flatMap rows) := by
  induction vs with
  | nil => exact fun out => ⟨out, rfl, fun _ => (List.append_nil _).symm⟩
  | cons v vs ih =>
    intro out
    obtain ⟨mid, hmid, hrows⟩ := h v out
    rw [overNodes, hmid]
    by_cases hoom : mid.oom = true
    · refine ⟨mid, if_pos hoom, fun hf => ?_⟩
      rw [hoom] at hf
      cases hf
    · obtain ⟨out', hout, hrest⟩ := ih mid
      refine ⟨out', (if_neg hoom).trans hout, fun hf => ?_⟩
      rw [hrest hf, hrows (Bool.eq_false_of_not_eq_true hoom), List.flatMap_cons, List.append_assoc]

lemma openIters_eq_some {plan : VarPlan} {iters : List Iter} (h : openIters bound plan = some iters) :
    List.Forall₂ (fun b it => (0 ≤ bound.getD b.boundVar 0 ∧ bound.getD b.boundVar 0 < b.csr.nNodes) ∧
      it = lftjOpen b.csr (bound.getD b.boundVar 0)) plan iters := by
  induction plan generalizing iters with
  | nil =>
    rw [openIters, List.mapM_nil] at h
    obtain rfl : [] = iters := Option.some.inj h
    exact .nil
  | cons b plan ih =>
    rw [openIters, List.mapM_cons, Option.bind_eq_bind, Option.bind_eq_some_iff] at h
    obtain ⟨it, hit, h⟩ := h
    rw [Option.bind_eq_bind, Option.bind_eq_some_iff] at h
    obtain ⟨rest, hrest, h⟩ := h
    obtain rfl : it :: rest = iters := Option.some.inj h
    by_cases hout : bound.getD b.boundVar 0 < 0 ∨ (b.csr.nNodes : ℤ) ≤ bound.getD b.boundVar 0
    · rw [if_pos hout] at hit
      cases hit
    · rw [if_neg hout] at hit
      exact .cons ⟨by omega, (Option.some.inj hit).symm⟩ (ih hrest)

lemma openIters_eq_none {plan : VarPlan} (h : openIters bound plan = none) :
    ∃ b ∈ plan, ¬(0 ≤ bound.getD b.boundVar 0 ∧ bound.getD b.boundVar 0 < b.csr.nNodes) := by
  induction plan with
  | nil => cases h
  | cons b plan ih =>
    by_cases hout : bound.getD b.boundVar 0 < 0 ∨ (b.csr.nNodes : ℤ) ≤ bound.getD b.boundVar 0
    · exact ⟨b, List.mem_cons_self, by omega⟩
    · rw [openIters, List.mapM_cons, if_neg hout] at h
      cases hrest : openIters bound plan with
      | none =>
        obtain ⟨b', hb', hb''⟩ := ih hrest
        exact ⟨b', List.mem_cons_of_mem _ hb', hb''⟩
      | some rest =>
        rw [openIters] at hrest
        rw [hrest] at h
        cases h

lemma remaining_open {c : Csr} {parent : ℤ} (h0 : 0 ≤ parent) (hn : parent < c.nNodes) :
    remaining (lftjOpen c parent) = c.adj parent.toNat := by
  rw [lftjOpen, if_neg (by omega)]
  rfl

lemma open_ok {c : Csr} {parent : ℤ} (h0 : 0 ≤ parent) (hn : parent < c.nNodes) : (lftjOpen c parent).Ok := by
  have hlt : parent.toNat < c.nNodes := by omega
  refine ⟨?_, ?_⟩
  · rw [lftjOpen, if_neg (by omega)]
    exact c.stop_le _ hlt
  · rw [remaining_open h0 hn]
    exact c.sorted _ hlt

lemma openIters_ok {plan : VarPlan} {iters : List Iter} (h : openIters bound plan = some iters) :
    ∀ it ∈ iters, it.Ok := by
  intro it hit
  obtain ⟨b, -, ⟨h0, hn⟩, rfl⟩ := exists_partner' (openIters_eq_some h) hit
  exact open_ok h0 hn

lemma openIters_ne_nil {b : Binding} {bs : VarPlan} {iters : List Iter}
    (h : openIters bound (b :: bs) = some iters) : iters ≠ [] := by
  rintro rfl
  exact absurd (openIters_eq_some h).length_eq (by rw [List.length_cons]; exact Nat.succ_ne_zero _)

theorem lftjEnumerate_putsOut (hlen : bound.length + n = plans.length) :
    PutsOut (lftjEnumerate plans n bound) (solutions plans n bound) := by
  induction n generalizing bound with
  | zero =>
    intro out
    rw [lftjEnumerate, solutions]
    by_cases hoom : out.oom = true
    · refine ⟨out, if_pos hoom, fun hf => ?_⟩
      rw [hoom] at hf
      cases hf
    · exact ⟨_, if_neg hoom, emit_rows out⟩
  | succ n ih =>
    intro out
    rw [lftjEnumerate, solutions, candidates]
    by_cases hoom : out.oom = true
    · refine ⟨out, if_pos hoom, fun hf => ?_⟩
      rw [hoom] at hf
      cases hf
    have hbody : ∀ v, PutsOut (lftjEnumerate plans n (bound ++ [v])) (solutions plans n (bound ++ [v])) :=
      fun v => ih (by rw [List.length_append, List.length_singleton]; omega)
    obtain ⟨plan, hplan⟩ : ∃ plan, plans[bound.length]? = some plan :=
      ⟨_, List.getElem?_eq_getElem (by omega)⟩
    rw [if_neg hoom, hplan]
    cases plan with
    | nil =>
      simp only
      by_cases hroot : bound.length ≠ 0
      · rw [if_pos hroot, if_pos hroot]
        exact ⟨out, rfl, fun _ => (List.append_nil _).symm⟩
      · rw [if_neg hroot, if_neg hroot]
        exact overNodes_putsOut hbody _ out
    | cons b bs =>
      simp only
      cases hopen : openIters bound (b :: bs) with
      | none => exact ⟨out, rfl, fun _ => (List.append_nil _).symm⟩
      | some iters =>
        simp only [Option.elim_some]
        rw [overMatches_eq _ (openIters_ok hopen) (openIters_ne_nil hopen) (Nat.lt_succ_self _)]
        exact overNodes_putsOut hbody _ out

lemma mem_candidates {plan : VarPlan} (hplan : plans[bound.length]? = some plan) (hne : plan ≠ []) :
    x ∈ candidates plans bound ↔ ∀ b ∈ plan, (0 ≤ bound.getD b.boundVar 0 ∧
      bound.getD b.boundVar 0 < b.csr.nNodes) ∧ x ∈ b.csr.adj (bound.getD b.boundVar 0).toNat := by
  obtain ⟨b, bs, rfl⟩ := List.exists_cons_of_ne_nil hne
  rw [candidates, hplan]
  simp only
  cases hopen : openIters bound (b :: bs) with
  | none =>
    obtain ⟨b', hb', hout⟩ := openIters_eq_none hopen
    exact ⟨fun hx => absurd hx List.not_mem_nil, fun hx => absurd (hx b' hb').1 hout⟩
  | some iters =>
    have hall := openIters_eq_some hopen
    rw [Option.elim_some, mem_commonList (openIters_ne_nil hopen)]
    constructor
    · intro hx b' hb'
      obtain ⟨it, hit, hrange, rfl⟩ := exists_partner hall hb'
      have hmem := hx _ hit
      rw [remaining_open hrange.1 hrange.2] at hmem
      exact ⟨hrange, hmem⟩
    · intro hx it hit
      obtain ⟨b', hb', hrange, rfl⟩ := exists_partner' hall hit
      rw [remaining_open hrange.1 hrange.2]
      exact (hx b' hb').2

lemma sorted_nodes : (nodes plans).Pairwise (· < ·) :=
  List.pairwise_map.mpr (List.pairwise_lt_range.imp Int.ofNat_lt.mpr)

lemma mem_nodes : x ∈ nodes plans ↔ 0 ≤ x ∧ x < nodeCount plans := by
  rw [nodes, List.mem_map]
  constructor
  · rintro ⟨a, ha, rfl⟩
    exact ⟨Int.natCast_nonneg a, Int.ofNat_lt.mpr (List.mem_range.mp ha)⟩
  · rintro ⟨h0, hn⟩
    exact ⟨x.toNat, List.mem_range.mpr (by omega), Int.toNat_of_nonneg h0⟩

lemma sorted_candidates : (candidates plans bound).Pairwise (· < ·) := by
  rw [candidates]
  cases plans[bound.length]? with
  | none => exact List.Pairwise.nil
  | some plan =>
    cases plan with
    | nil =>
      simp only
      by_cases hroot : bound.length ≠ 0
      · rw [if_pos hroot]
        exact List.Pairwise.nil
      · rw [if_neg hroot]
        exact sorted_nodes
    | cons b bs =>
      simp only
      cases hopen : openIters bound (b :: bs) with
      | none => exact List.Pairwise.nil
      | some iters => exact sorted_commonList (openIters_ok hopen)

lemma mem_solutions : row ∈ solutions plans n bound ↔ bound <+: row ∧ row.length = bound.length + n ∧
      ∀ k, bound.length ≤ k → k < row.length → row.getD k 0 ∈ candidates plans (row.take k) := by
  induction n generalizing bound with
  | zero =>
    rw [solutions, List.mem_singleton]
    constructor
    · rintro rfl
      exact ⟨List.prefix_rfl, rfl, fun k hk hlt => absurd hlt (not_lt.mpr hk)⟩
    · rintro ⟨hpre, hlen, -⟩
      exact (hpre.eq_of_length (by omega)).symm
  | succ n ih =>
    rw [solutions, List.mem_flatMap]
    constructor
    · rintro ⟨v, hv, hrow⟩
      obtain ⟨hpre, hlen, hall⟩ := ih.mp hrow
      obtain ⟨t, rfl⟩ := hpre
      rw [List.append_assoc] at hlen hall ⊢
      simp only [List.length_append, List.length_singleton] at hlen hall
      refine ⟨⟨[v] ++ t, rfl⟩, by simp only [List.length_append, List.length_singleton]; omega,
        fun k hk hlt => ?_⟩
      rcases Nat.lt_or_eq_of_le hk with hk | rfl
      · exact hall k (by omega) (by rwa [List.length_append, List.length_append, List.length_singleton] at hlt)
      · rw [List.take_left, List.getD_append_right _ _ _ _ le_rfl, Nat.sub_self]
        exact hv
    · rintro ⟨⟨t, rfl⟩, hlen, hall⟩
      cases t with
      | nil =>
        rw [List.append_nil] at hlen
        omega
      | cons v t =>
        have hv := hall bound.length le_rfl (by rw [hlen]; omega)
        rw [List.take_left, List.getD_append_right _ _ _ _ le_rfl, Nat.sub_self] at hv
        refine ⟨v, hv, ih.mpr ⟨⟨t, by rw [List.append_assoc, List.singleton_append]⟩, ?_, fun k hk hlt => ?_⟩⟩
        · rw [hlen, List.length_append, List.length_singleton]
          omega
        · rw [List.length_append, List.length_singleton] at hk
          exact hall k (by omega) hlt

lemma sorted_solutions : (solutions plans n bound).Pairwise (List.Lex (· < ·)) := by
  induction n generalizing bound with
  | zero => exact List.pairwise_singleton _ _
  | succ n ih =>
    rw [solutions, List.pairwise_flatMap]
    refine ⟨fun v _ => ih, sorted_candidates.imp fun {v w} hvw row hrow row' hrow' => ?_⟩
    obtain ⟨⟨t, rfl⟩, -, -⟩ := mem_solutions.mp hrow
    obtain ⟨⟨t', rfl⟩, -, -⟩ := mem_solutions.mp hrow'
    rw [List.append_assoc, List.append_assoc]
    exact List.Lex.append_left _ (List.Lex.rel hvw) bound

end

end Rayforce.Leapfrog
