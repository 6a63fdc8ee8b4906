import Rayforce.Datalog.Rule

namespace Rayforce.Datalog

open List Option

def boundOnce : List ℕ → List Atom → Bool
  | _, [] => true
  | bound, a :: as =>
    (a.vars.all fun v => v ∈ bound || a.args.count (Arg.var v) ≤ 1) && boundOnce (bound ++ a.vars) as

def Atom.Refuted (a : Atom) (bound : List ℕ) (σ : ℕ → ℤ) (rel : Row → Prop) : Prop :=
  ∀ σ', (∀ v ∈ bound, σ' v = σ v) → ¬rel (a.inst σ')

structure Rule.Clean (rels : List Rel) (r : Rule) : Prop where
  some_positive : r.positives ≠ []
  once : boundOnce [] r.positives = true
  neg_known : ∀ a ∈ r.negatives, (dlFindRel rels a.pred).isSome
  neg_tied : ∀ a ∈ r.negatives, ∃ v ∈ a.vars, v ∈ r.bound
  neg_once : ∀ a ∈ r.negatives, ∀ v ∈ a.vars, v ∉ r.bound → a.args.count (Arg.var v) ≤ 1
  head_args : r.head.args ≠ []

/-! `nulls` says which columns may hold the missing integer: it equals no key of a join. -/

def Arg.solid (nulls : String → ℕ → Bool) (as : List Atom) : Arg → Bool
  | .const k => k ≠ nullI64
  | .var v => as.any fun b => b.args.zipIdx.any fun ac => ac.1 = Arg.var v && !nulls b.pred ac.2

def Atom.keysSolid (nulls : String → ℕ → Bool) (seen : List Atom) (a : Atom) : Bool :=
  a.args.zipIdx.all fun ac => (ac.1.var?.all fun v => v ∉ seen.flatMap Atom.vars) || !nulls a.pred ac.2 ||
    ac.1.solid nulls seen

def joinsSolid (nulls : String → ℕ → Bool) : List Atom → List Atom → Bool
  | _, [] => true
  | seen, a :: as => a.keysSolid nulls seen && joinsSolid nulls (seen ++ [a]) as

structure Rule.NullSafe (nulls : String → ℕ → Bool) (r : Rule) : Prop where
  joined : joinsSolid nulls [] r.positives = true
  negated : ∀ a ∈ r.negatives, a.keysSolid nulls r.positives = true
  head : ∀ ac ∈ r.head.args.zipIdx, nulls r.head.pred ac.2 = true ∨ ac.1.solid nulls r.positives = true

def Atom.KeysApart (a : Atom) (bound : List ℕ) (σ : ℕ → ℤ) (tbl : Table) : Prop :=
  ∀ (c : ℕ) v, a.args[c]? = some (Arg.var v) → v ∈ bound → σ v = nullI64 → ∀ t ∈ tbl, t[c]? ≠ some nullI64

section

variable {rels : List Rel} {tables : Tables} {as : List Atom} {acc acc' : Accum} {bound : List ℕ}

def RowsOk (tables : Tables) (as : List Atom) : Prop :=
  ∀ a ∈ as, ∀ t ∈ tables a.pred, t.length = a.args.length

def NullsIn (nulls : String → ℕ → Bool) (tables : Tables) : Prop :=
  ∀ p, ∀ t ∈ tables p, ∀ c : ℕ, t[c]? = some nullI64 → nulls p c = true

lemma eval_ne_null {nulls : String → ℕ → Bool} {σ : ℕ → ℤ} {arg : Arg} (h : arg.solid nulls as = true)
    (hnulls : NullsIn nulls tables) (hσ : ∀ b ∈ as, b.inst σ ∈ tables b.pred) : arg.eval σ ≠ nullI64 := by
  cases arg with
  | const k => exact of_decide_eq_true h
  | var v =>
    intro hv
    obtain ⟨b, hb, hcol⟩ := any_eq_true.mp h
    obtain ⟨⟨arg, c⟩, hac, hsolid⟩ := any_eq_true.mp hcol
    simp only [Bool.and_eq_true, decide_eq_true_eq, Bool.not_eq_true'] at hsolid
    obtain ⟨rfl, hno⟩ := hsolid
    have hcell : (b.inst σ)[c]? = some nullI64 := by
      rw [getElem?_inst, mk_mem_zipIdx_iff_getElem?.mp hac, map_some, hv]
    rw [hnulls b.pred _ (hσ b hb) c hcell] at hno
    cases hno

lemma Atom.keysSolid_spec {nulls : String → ℕ → Bool} {a : Atom} (h : a.keysSolid nulls as = true) {c v : ℕ}
    (hc : a.args[c]? = some (Arg.var v)) (hv : v ∈ as.flatMap Atom.vars) (hnull : nulls a.pred c = true) :
    (Arg.var v).solid nulls as = true := by
  have hkey := all_eq_true.mp h _ (mk_mem_zipIdx_iff_getElem?.mpr hc)
  have hunbound : ((Arg.var v).var?.all fun v => v ∉ as.flatMap Atom.vars) = false := by
    rw [Arg.var?, all_some]
    exact decide_eq_false (not_not_intro hv)
  rwa [hunbound, hnull, Bool.false_or, Bool.not_true, Bool.false_or] at hkey

lemma RowsOk.tail {a : Atom} (h : RowsOk tables (a :: as)) : RowsOk tables as :=
  fun b hb => h b (mem_cons_of_mem _ hb)

lemma count_le_one {a : Atom} (h : a.vars.all (fun v => v ∈ bound || a.args.count (Arg.var v) ≤ 1) = true)
    {v : ℕ} (hv : v ∉ bound) : a.args.count (Arg.var v) ≤ 1 := by
  by_cases hmem : Arg.var v ∈ a.args
  · have hone := all_eq_true.mp h v (mem_vars.mpr hmem)
    simpa [hv] using hone
  · rw [count_eq_zero.mpr hmem]
    exact Nat.zero_le 1

lemma joinPositives_some {nulls : String → ℕ → Bool} {seen : List Atom} (hok : acc.Ok)
    (hbound : ∀ v, (acc.varCol v).isSome ↔ v ∈ seen.flatMap Atom.vars)
    (hseen : ∀ σ, acc.Binds σ → ∀ b ∈ seen, b.inst σ ∈ tables b.pred)
    (hrows : RowsOk tables as) (hnulls : NullsIn nulls tables) (hsolid : joinsSolid nulls seen as = true)
    (honce : boundOnce (seen.flatMap Atom.vars) as = true)
    (h : joinPositives rels tables as (some acc) = some acc') :
    acc'.Ok ∧ (∀ σ, acc'.Binds σ ↔ acc.Binds σ ∧ ∀ a ∈ as, a.inst σ ∈ tables a.pred) ∧
      ∀ v, (acc'.varCol v).isSome ↔ v ∈ (seen ++ as).flatMap Atom.vars := by
  induction as generalizing acc seen with
  | nil =>
    obtain rfl : acc = acc' := some.inj h
    exact ⟨hok, fun σ => (and_iff_left fun a ha => absurd ha not_mem_nil).symm, fun v => by
      rw [append_nil, hbound]⟩
  | cons a as ih =>
    rw [boundOnce, Bool.and_eq_true] at honce
    rw [joinsSolid, Bool.and_eq_true] at hsolid
    rw [joinPositives] at h
    cases hfind : dlFindRel rels a.pred with
    | none =>
      rw [hfind] at h
      cases h
    | some rel =>
      rw [hfind] at h
      have hkeys : ∀ σ, acc.Binds σ → a.inst σ ∈ tables a.pred → ∀ v ∈ a.vars, (acc.varCol v).isSome →
          σ v ≠ nullI64 := by
        intro σ hbinds hmem v hv hcol hnull
        obtain ⟨c, hc⟩ := mem_iff_getElem?.mp (mem_vars.mp hv)
        have hcell : (a.inst σ)[c]? = some nullI64 := by
          rw [getElem?_inst, hc, ← hnull]
          rfl
        have hkey := Atom.keysSolid_spec hsolid.1 hc ((hbound v).mp hcol) (hnulls a.pred _ hmem c hcell)
        exact eval_ne_null hkey hnulls (hseen σ hbinds) hnull
      obtain ⟨hok', hbinds, hcols⟩ := joinAtom_spec hok (hrows a mem_cons_self) hkeys fun v hv =>
        count_le_one honce.1 fun hmem => by
          rw [← hbound, hv] at hmem
          cases hmem
      have hvars : ∀ v, v ∈ (seen ++ [a]).flatMap Atom.vars ↔ v ∈ seen.flatMap Atom.vars ∨ v ∈ a.vars := by
        intro v
        rw [flatMap_append, mem_append, flatMap_singleton]
      have hseen' : ∀ σ, (joinAtom (some acc) a.args (filterConsts a.args (tables a.pred))).Binds σ →
          ∀ b ∈ seen ++ [a], b.inst σ ∈ tables b.pred := by
        intro σ hσ
        obtain ⟨hold, hnew⟩ := (hbinds σ).mp hσ
        exact forall_mem_append.mpr ⟨hseen σ hold, forall_mem_singleton.mpr hnew⟩
      obtain ⟨hok'', hbinds', hcols'⟩ :=
        ih hok' (fun v => by rw [hcols, bindVars_isSome, hbound, hvars]) hseen' hrows.tail
        hsolid.2 (by rw [flatMap_append, flatMap_singleton]; exact honce.2) h
      refine ⟨hok'', fun σ => ?_, fun v => ?_⟩
      · rw [hbinds', hbinds, forall_mem_cons, and_assoc]
      · rw [hcols', append_assoc, singleton_append]

lemma joinPositives_none {acc : Option Accum} (hne : acc ≠ none ∨ as ≠ [])
    (h : joinPositives rels tables as acc = none) : ∃ a ∈ as, dlFindRel rels a.pred = none := by
  induction as generalizing acc with
  | nil => exact absurd h (hne.resolve_right (not_not_intro rfl))
  | cons a as ih =>
    rw [joinPositives] at h
    cases hfind : dlFindRel rels a.pred with
    | none => exact ⟨a, mem_cons_self, hfind⟩
    | some rel =>
      rw [hfind] at h
      obtain ⟨b, hb, hnone⟩ := ih (.inl (some_ne_none _)) h
      exact ⟨b, mem_cons_of_mem _ hb, hnone⟩

lemma joinPositives_spec {nulls : String → ℕ → Bool} (hne : as ≠ []) (hrows : RowsOk tables as)
    (hnulls : NullsIn nulls tables) (hsolid : joinsSolid nulls [] as = true) (honce : boundOnce [] as = true)
    (h : joinPositives rels tables as none = some acc') :
      acc'.Ok ∧ (∀ σ, acc'.Binds σ ↔ ∀ a ∈ as, a.inst σ ∈ tables a.pred) ∧
      ∀ v, (acc'.varCol v).isSome ↔ v ∈ as.flatMap Atom.vars := by
  cases as with
  | nil => exact absurd rfl hne
  | cons a as =>
    rw [boundOnce, Bool.and_eq_true, nil_append] at honce
    rw [joinsSolid, Bool.and_eq_true, nil_append] at hsolid
    rw [joinPositives] at h
    cases hfind : dlFindRel rels a.pred with
    | none =>
      rw [hfind] at h
      cases h
    | some rel =>
      rw [hfind] at h
      obtain ⟨hok, hbinds, hcols⟩ := joinAtom_none_spec (hrows a mem_cons_self) fun v =>
        count_le_one honce.1 not_mem_nil
      have hbound : ∀ v, ((joinAtom none a.args (filterConsts a.args (tables a.pred))).varCol v).isSome ↔
          v ∈ [a].flatMap Atom.vars := fun v => by rw [hcols, firstCol_isSome_iff, flatMap_singleton]
      obtain ⟨hok', hbinds', hcols'⟩ := joinPositives_some hok hbound
        (fun σ hσ => forall_mem_singleton.mpr ((hbinds σ).mp hσ)) hrows.tail hnulls hsolid.2
        (by rw [flatMap_singleton]; exact honce.2) h
      refine ⟨hok', fun σ => ?_, fun v => ?_⟩
      · rw [hbinds', hbinds, forall_mem_cons]
      · rw [hcols', singleton_append]

end

section

variable {rels : List Rel} {tables : Tables} {as : List Atom} {acc acc' : Accum} {bound : List ℕ} {a : Atom}
  {l : Row} {σ : ℕ → ℤ} {tbl : Table}

lemma partner_iff (hbound : ∀ v, (acc.varCol v).isSome ↔ v ∈ bound) (htbl : ∀ t ∈ tbl, t.length = a.args.length)
    (hapart : a.KeysApart bound σ tbl)
    (honce : ∀ v ∈ a.vars, v ∉ bound → a.args.count (Arg.var v) ≤ 1) (hag : Agrees acc.varCol σ l) :
    (∃ t ∈ filterConsts a.args tbl, joinKeysEq (keyCols acc.varCol a.args) l t = true) ↔
      ¬a.Refuted bound σ (· ∈ tbl) := by
  simp only [Atom.Refuted, not_forall, not_not]
  constructor
  · rintro ⟨t, ht, hkeys⟩
    obtain ⟨hmem, hconst⟩ := mem_filterConsts.mp ht
    have hlen := htbl t hmem
    refine ⟨fun v => if v ∈ bound then σ v else ((firstCol a.args v).bind fun c => t[c]?).getD 0,
      fun v hv => if_pos hv, ?_⟩
    have heq : t = a.inst fun v =>
        if v ∈ bound then σ v else ((firstCol a.args v).bind fun c => t[c]?).getD 0 := by
      refine eq_inst hlen hconst fun c v hc => ?_
      by_cases hv : v ∈ bound
      · rw [if_pos hv]
        obtain ⟨lc, hlc⟩ := isSome_iff_exists.mp ((hbound v).mpr hv)
        obtain ⟨x, hlx, htx, -⟩ := joinKeysEq_iff.mp hkeys c v lc hc hlc
        rw [hag v lc hlc] at hlx
        rw [htx, ← hlx]
      · rw [if_neg hv]
        obtain ⟨c', hc'⟩ := firstCol_isSome hc
        have hvars : v ∈ a.vars := mem_vars.mpr (mem_of_getElem? hc)
        obtain rfl := col_unique (honce v hvars hv) hc (firstCol_some hc')
        have hlt : c < t.length := by
          rw [hlen]
          exact (List.getElem?_eq_some_iff.mp hc).1
        rw [hc', bind_some, getElem?_eq_getElem hlt, getD_some]
    rwa [← heq]
  · rintro ⟨σ', hsame, hmem⟩
    refine ⟨_, mem_filterConsts_inst.mpr hmem, joinKeysEq_iff.mpr fun c v lc hc hlc => ?_⟩
    have hv : v ∈ bound := (hbound v).mp (by rw [hlc]; rfl)
    have hget : (a.inst σ')[c]? = some (σ v) := by
      rw [getElem?_inst, hc, map_some, Arg.eval, hsame v hv]
    exact ⟨σ v, hag v lc hlc, hget, fun hnull => hapart c v hc hv hnull _ hmem (hnull ▸ hget)⟩

lemma keyCols_ne_nil {v : ℕ} (hv : v ∈ a.vars) (hcol : (acc.varCol v).isSome) :
    keyCols acc.varCol a.args ≠ [] := by
  obtain ⟨c, hc⟩ := isSome_iff_exists.mp hcol
  obtain ⟨i, hi⟩ := mem_iff_getElem?.mp (mem_vars.mp hv)
  refine ne_nil_of_mem (a := (c, i)) (mem_filterMap.mpr ⟨(Arg.var v, i), ?_, ?_⟩)
  · exact mk_mem_zipIdx_iff_getElem?.mpr hi
  · rw [Arg.var?, bind_some, hc, map_some]

lemma dropNegatives_spec (hok : acc.Ok) (hbound : ∀ v, (acc.varCol v).isSome ↔ v ∈ bound)
    (hrows : RowsOk tables as) (hapart : ∀ σ, acc.Binds σ → ∀ a ∈ as, a.KeysApart bound σ (tables a.pred))
    (htied : ∀ a ∈ as, ∃ v ∈ a.vars, v ∈ bound)
    (honce : ∀ a ∈ as, ∀ v ∈ a.vars, v ∉ bound → a.args.count (Arg.var v) ≤ 1)
    (h : dropNegatives rels tables as acc = some acc') :
    acc'.Ok ∧ (∀ σ, acc'.Binds σ ↔ acc.Binds σ ∧ ∀ a ∈ as, a.Refuted bound σ (· ∈ tables a.pred)) ∧
      acc'.varCol = acc.varCol := by
  induction as generalizing acc with
  | nil =>
    obtain rfl : acc = acc' := some.inj h
    exact ⟨hok, fun σ => (and_iff_left fun a ha => absurd ha not_mem_nil).symm, rfl⟩
  | cons a as ih =>
    rw [dropNegatives] at h
    cases hfind : dlFindRel rels a.pred with
    | none =>
      rw [hfind] at h
      cases h
    | some rel =>
      obtain ⟨v, hv, hvb⟩ := htied a mem_cons_self
      rw [hfind] at h
      simp only at h
      rw [if_neg (keyCols_ne_nil hv ((hbound v).mpr hvb))] at h
      have hsub : ∀ row ∈ dlAntijoinTables acc a.args (filterConsts a.args (tables a.pred)),
          row ∈ acc.rows := fun row hrow => mem_of_mem_filter hrow
      have hokn : Accum.Ok
          { acc with rows := dlAntijoinTables acc a.args (filterConsts a.args (tables a.pred)) } :=
        ⟨fun row hrow => hok.rows row (hsub row hrow), fun row hrow => hok.cols row (hsub row hrow)⟩
      have hapart' : ∀ σ, Accum.Binds
        { acc with rows := dlAntijoinTables acc a.args (filterConsts a.args (tables a.pred)) } σ →
          ∀ b ∈ as, b.KeysApart bound σ (tables b.pred) :=
        fun σ ⟨row, hrow, hag⟩ b hb => hapart σ ⟨row, hsub row hrow, hag⟩ b (mem_cons_of_mem _ hb)
      obtain ⟨hok', hbinds, hcols⟩ :=
        ih hokn hbound hrows.tail hapart' (fun b hb => htied b (mem_cons_of_mem _ hb))
        (fun b hb => honce b (mem_cons_of_mem _ hb)) h
      refine ⟨hok', fun σ => ?_, hcols⟩
      rw [hbinds, forall_mem_cons, ← and_assoc]
      refine and_congr_left fun _ => ?_
      have hiff : ∀ row ∈ acc.rows, Agrees acc.varCol σ row → ((∃ t ∈ filterConsts a.args (tables a.pred),
            joinKeysEq (keyCols acc.varCol a.args) row t = true) ↔
              ¬a.Refuted bound σ (· ∈ tables a.pred)) :=
        fun row hrow hag => partner_iff hbound (hrows a mem_cons_self) (hapart σ ⟨row, hrow, hag⟩ a mem_cons_self)
          (honce a mem_cons_self) hag
      constructor
      · rintro ⟨row, hrow, hag⟩
        obtain ⟨hmem, hnone⟩ := mem_filter.mp hrow
        refine ⟨⟨row, hmem, hag⟩, ?_⟩
        by_contra hno
        obtain ⟨t, ht, hkeys⟩ := (hiff row hmem hag).mpr hno
        rw [any_eq_true.mpr ⟨t, ht, hkeys⟩] at hnone
        cases hnone
      · rintro ⟨⟨row, hmem, hag⟩, href⟩
        refine ⟨row, mem_filter.mpr ⟨hmem, ?_⟩, hag⟩
        rw [Bool.not_eq_true', ← Bool.not_eq_true]
        intro hany
        obtain ⟨t, ht, hkeys⟩ := any_eq_true.mp hany
        exact (hiff row hmem hag).mp ⟨t, ht, hkeys⟩ href

lemma dropNegatives_some (hknown : ∀ a ∈ as, (dlFindRel rels a.pred).isSome) :
    ∃ acc', dropNegatives rels tables as acc = some acc' := by
  induction as generalizing acc with
  | nil => exact ⟨acc, rfl⟩
  | cons a as ih =>
    obtain ⟨rel, hrel⟩ := isSome_iff_exists.mp (hknown a mem_cons_self)
    have htail : ∀ b ∈ as, (dlFindRel rels b.pred).isSome :=
      fun b hb => hknown b (mem_cons_of_mem _ hb)
    rw [dropNegatives, hrel]
    simp only
    split
    · exact ih htail
    · exact ih htail

end

section

variable {α β : Type*} {f : α → Option β} {as : List α} {bs : List β} {b : β} {acc : Accum} {head : List Arg}
  {rows : Table} {row : Row}

lemma mem_of_mapM (h : as.mapM f = some bs) : b ∈ bs ↔ ∃ a ∈ as, f a = some b := by
  induction as generalizing bs with
  | nil =>
    rw [mapM_nil] at h
    obtain rfl : [] = bs := some.inj h
    exact ⟨fun hb => absurd hb not_mem_nil, fun ⟨a, ha, _⟩ => absurd ha not_mem_nil⟩
  | cons a as ih =>
    rw [mapM_cons, bind_eq_bind, bind_eq_some_iff] at h
    obtain ⟨c, hc, h⟩ := h
    rw [bind_eq_bind, bind_eq_some_iff] at h
    obtain ⟨cs, hcs, h⟩ := h
    obtain rfl : c :: cs = bs := some.inj h
    simp only [mem_cons, ih hcs, exists_eq_or_imp]
    exact or_congr_left ⟨fun hb => by rw [hb, hc], fun hb => (some.inj (hc.symm.trans hb)).symm⟩

lemma mapM_eq_map {g : α → β} (h : ∀ a ∈ as, f a = some (g a)) : as.mapM f = some (as.map g) := by
  induction as with
  | nil => rfl
  | cons a as ih =>
    rw [mapM_cons, h a mem_cons_self, ih fun b hb => h b (mem_cons_of_mem _ hb)]
    rfl

lemma headCell_eq {σ : ℕ → ℤ} {arg : Arg} (hbound : headBound acc arg = true)
    (hag : Agrees acc.varCol σ row) : headCell acc row arg = some (arg.eval σ) := by
  cases arg with
  | const k => rfl
  | var v =>
    obtain ⟨c, hc⟩ := isSome_iff_exists.mp hbound
    rw [headCell, hc, bind_some, hag v c hc]
    rfl

lemma exists_agrees (hok : acc.Ok) (hrow : row ∈ acc.rows) : ∃ σ, Agrees acc.varCol σ row := by
  refine ⟨fun v => ((acc.varCol v).bind fun c => row[c]?).getD 0, fun v c hv => ?_⟩
  have hlt := hok.cols row hrow v c hv
  dsimp only
  rw [hv, bind_some, getElem?_eq_getElem hlt, getD_some]

lemma dlProject_spec (hok : acc.Ok) (hne : head ≠ []) (h : dlProject acc head = .ok rows) :
    row ∈ rows ↔ ∃ σ, acc.Binds σ ∧ head.map (Arg.eval σ) = row := by
  rw [dlProject] at h
  by_cases hall : head.all (headBound acc) = true
  · rw [if_pos hall, if_neg hne] at h
    have hcells : ∀ r σ, Agrees acc.varCol σ r → head.mapM (headCell acc r) = some (head.map (Arg.eval σ)) :=
      fun r σ hag => mapM_eq_map fun arg harg => headCell_eq (all_eq_true.mp hall arg harg) hag
    cases hrows : acc.rows.mapM fun row => head.mapM (headCell acc row) with
    | none =>
      rw [hrows] at h
      cases h
    | some out =>
      rw [hrows] at h
      obtain rfl : out = rows := Except.ok.inj h
      rw [mem_of_mapM hrows]
      constructor
      · rintro ⟨r, hr, hcell⟩
        obtain ⟨σ, hag⟩ := exists_agrees hok hr
        rw [hcells r σ hag] at hcell
        exact ⟨σ, ⟨r, hr, hag⟩, some.inj hcell⟩
      · rintro ⟨σ, ⟨r, hr, hag⟩, rfl⟩
        exact ⟨r, hr, hcells r σ hag⟩
  · rw [if_neg hall] at h
    cases h

end

section

variable {rels : List Rel} {tables : Tables} {r : Rule} {out : Option Table} {row : Row}
    {nulls : String → ℕ → Bool}
  {neg : String → Row → Prop}

def Rule.Fires (r : Rule) (pos neg : String → Row → Prop) (row : Row) : Prop :=
  ∃ σ, (∀ a ∈ r.positives, pos a.pred (a.inst σ)) ∧
    (∀ a ∈ r.negatives, a.Refuted r.bound σ (neg a.pred)) ∧ r.head.inst σ = row

/-- A compiled rule joins, drops what its negative atoms bind, and projects. -/
lemma dlCompileRule_cases (hclean : r.Clean rels) (hsafe : r.NullSafe nulls)
    (hrows : RowsOk tables (r.positives ++ r.negatives))
    (hnulls : NullsIn nulls tables) (h : dlCompileRule rels tables r = .ok out) :
    (out = none ∧ joinPositives rels tables r.positives none = none) ∨ ∃ acc rows, out = some rows ∧ acc.Ok ∧
      (∀ σ, acc.Binds σ ↔ (∀ a ∈ r.positives, a.inst σ ∈ tables a.pred) ∧
        ∀ a ∈ r.negatives, a.Refuted (r.positives.flatMap Atom.vars) σ (· ∈ tables a.pred)) ∧
          dlProject acc r.head.args = .ok rows := by
  have hpos : RowsOk tables r.positives := fun a ha => hrows a (mem_append_left _ ha)
  have hneg : RowsOk tables r.negatives := fun a ha => hrows a (mem_append_right _ ha)
  rw [dlCompileRule] at h
  cases hjoin : joinPositives rels tables r.positives none with
  | none =>
    rw [hjoin] at h
    exact .inl ⟨(Except.ok.inj h).symm, rfl⟩
  | some acc =>
    rw [hjoin] at h
    obtain ⟨hok, hbinds, hcols⟩ :=
      joinPositives_spec hclean.some_positive hpos hnulls hsafe.joined hclean.once hjoin
    obtain ⟨acc', hdrop⟩ := @dropNegatives_some rels tables r.negatives acc hclean.neg_known
    simp only [hdrop] at h
    have hapart : ∀ σ, acc.Binds σ → ∀ a ∈ r.negatives,
        a.KeysApart (r.positives.flatMap Atom.vars) σ (tables a.pred) := by
      intro σ hσ a ha c v hc hv hnull t ht hcell
      exact eval_ne_null (Atom.keysSolid_spec (hsafe.negated a ha) hc hv (hnulls a.pred t ht c hcell)) hnulls
        ((hbinds σ).mp hσ) hnull
    obtain ⟨hok', hbinds', -⟩ := dropNegatives_spec hok hcols hneg hapart hclean.neg_tied hclean.neg_once hdrop
    cases hproj : dlProject acc' r.head.args with
    | error e =>
      rw [hproj] at h
      cases h
    | ok rows =>
      rw [hproj] at h
      exact .inr ⟨acc', rows, (Except.ok.inj h).symm, hok', fun σ =>
        (hbinds' σ).trans (and_congr_left' (hbinds σ)), hproj⟩

theorem dlCompileRule_spec (hclean : r.Clean rels) (hsafe : r.NullSafe nulls)
    (hrows : RowsOk tables (r.positives ++ r.negatives)) (hnulls : NullsIn nulls tables)
    (hunknown : ∀ name, dlFindRel rels name = none → tables name = [])
    (h : dlCompileRule rels tables r = .ok out) :
    row ∈ out.getD [] ↔ r.Fires (fun p t => t ∈ tables p) (fun p t => t ∈ tables p) row := by
  obtain ⟨rfl, hjoin⟩ | ⟨acc, rows, rfl, hok, hbinds, hproj⟩ := dlCompileRule_cases hclean hsafe hrows hnulls h
  · obtain ⟨a, ha, hfind⟩ := joinPositives_none (.inr hclean.some_positive) hjoin
    refine ⟨fun hrow => absurd hrow not_mem_nil, fun ⟨σ, hall, _⟩ => ?_⟩
    have hmem : a.inst σ ∈ tables a.pred := hall a ha
    rw [hunknown _ hfind] at hmem
    exact absurd hmem not_mem_nil
  · rw [getD_some, dlProject_spec hok hclean.head_args hproj]
    refine exists_congr fun σ => ?_
    rw [hbinds, and_assoc]
    rfl

lemma Rule.Fires.length (h : r.Fires (fun p t => t ∈ tables p) neg row) : row.length = r.head.args.length := by
  obtain ⟨σ, -, -, rfl⟩ := h
  exact length_map ..

lemma Rule.Fires.solid (h : r.Fires (fun p t => t ∈ tables p) neg row) (hnulls : NullsIn nulls tables)
    {c : ℕ} {arg : Arg}
    (hc : r.head.args[c]? = some arg) (harg : arg.solid nulls r.positives = true) : row[c]? ≠ some nullI64 := by
  obtain ⟨σ, hpos, -, rfl⟩ := h
  rw [getElem?_inst, hc, map_some, ne_eq, some.injEq]
  exact eval_ne_null harg hnulls hpos

lemma Rule.Fires.null_cell (h : r.Fires (fun p t => t ∈ tables p) neg row) (hsafe : r.NullSafe nulls)
    (hnulls : NullsIn nulls tables) {c : ℕ} (hc : row[c]? = some nullI64) : nulls r.head.pred c = true := by
  have hlt : c < r.head.args.length := by
    rw [← h.length]
    exact (List.getElem?_eq_some_iff.mp hc).1
  have harg := getElem?_eq_getElem hlt
  exact (hsafe.head _ (mk_mem_zipIdx_iff_getElem?.mpr harg)).resolve_right fun hsolid =>
    h.solid hnulls harg hsolid hc

end

end Rayforce.Datalog
