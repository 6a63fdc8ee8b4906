import Rayforce.Datalog.Eval

namespace Rayforce.Datalog

open Library.SemiNaive List Function

variable {occs : List (Rule × Atom)} {ra : Rule × Atom} {edb : Set Fact} {new' : Tables}

section

variable {prog : Program} {stratum : String → ℕ} {s : ℕ} {tables₀ tables tables' delta new : Tables}
  {r : Rule} {rs : List Rule} {out : Option Table} {row : Row} {p : String} {nulls : String → ℕ → Bool}

def Rule.Linear (r : Rule) (rels : List Rel) (stratum : String → ℕ) : Prop :=
  ∀ a ∈ r.positives, ∀ b ∈ r.positives, a.pred = b.pred →
    inStratum rels stratum (stratum r.head.pred) a.pred = true → a = b

def Rule.Recursive (r : Rule) (rels : List Rel) (stratum : String → ℕ) : Prop :=
  ∃ a ∈ r.positives, inStratum rels stratum (stratum r.head.pred) a.pred = true

structure Program.Clean (prog : Program) (stratum : String → ℕ) (nulls : String → ℕ → Bool) : Prop where
  rules : ∀ r ∈ prog.rules, r.Clean prog.rels
  linear : ∀ r ∈ prog.rules, r.Linear prog.rels stratum
  nullSafe : ∀ r ∈ prog.rules, r.NullSafe nulls
  present : ∀ r ∈ prog.rules, r.Recursive prog.rels stratum → ∀ arg ∈ r.head.args,
    arg.solid nulls r.positives = true

abbrev stratumStep (prog : Program) (stratum : String → ℕ) (s : ℕ) (tables₀ : Tables) :
    Set Fact →o Set Fact :=
  consequence (stratumRules prog.rules stratum s) (facts tables₀)

structure Within (prog : Program) (stratum : String → ℕ) (nulls : String → ℕ → Bool) (s : ℕ)
    (tables₀ tables : Tables) : Prop where
  ok : TablesOk prog nulls tables
  frame : ∀ p, inStratum prog.rels stratum s p = false → tables p = tables₀ p
  nodup : ∀ p, inStratum prog.rels stratum s p = true → (tables p).Nodup
  sound : facts tables ⊆ (stratumStep prog stratum s tables₀).lfp

lemma mem_stratumRules : r ∈ stratumRules prog.rules stratum s ↔ r ∈ prog.rules ∧ stratum r.head.pred = s := by
  rw [stratumRules, mem_filter, decide_eq_true_eq]

lemma head_inStratum (hr : r ∈ stratumRules prog.rules stratum s) :
    inStratum prog.rels stratum s r.head.pred = true := by
  obtain ⟨hmem, hs⟩ := mem_stratumRules.mp hr
  obtain ⟨rel, hfind, hidb, -⟩ := prog.head_rel r hmem
  rw [inStratum, hfind]
  simp [hidb, hs]

lemma neg_not_inStratum (hstrat : Stratified prog.rels prog.rules stratum)
    (hr : r ∈ stratumRules prog.rules stratum s) {a : Atom} (ha : a ∈ r.negatives) :
    inStratum prog.rels stratum s a.pred = false := by
  obtain ⟨hmem, hs⟩ := mem_stratumRules.mp hr
  obtain ⟨head, hhead, -⟩ := prog.head_rel r hmem
  rw [inStratum]
  cases hfind : dlFindRel prog.rels a.pred with
  | none => rfl
  | some rel =>
    have hlt := hstrat.neg r hmem a ha rel head hfind hhead
    have hne : stratum a.pred ≠ s := by omega
    simp [hne]

lemma compile_fires (hclean : prog.Clean stratum nulls) (hstrat : Stratified prog.rels prog.rules stratum)
    (hr : r ∈ stratumRules prog.rules stratum s) (hok : TablesOk prog nulls tables)
    (hframe : ∀ p, inStratum prog.rels stratum s p = false → tables p = tables₀ p)
    (h : dlCompileRule prog.rels tables r = .ok out) :
    row ∈ out.getD [] ↔ r.Fires (fun p t => (p, t) ∈ facts tables) (fun p t => (p, t) ∈ facts tables₀) row := by
  obtain ⟨hmem, -⟩ := mem_stratumRules.mp hr
  rw [dlCompileRule_spec (hclean.rules r hmem) (hclean.nullSafe r hmem)
    (hok.rowsOk hmem) hok.nullsIn hok.unknown h]
  refine Rule.fires_congr_neg fun a ha => ?_
  funext t
  rw [hframe _ (neg_not_inStratum hstrat hr ha)]
  rfl

lemma rowOk_of_fires {neg : String → Row → Prop} (hclean : prog.Clean stratum nulls)
    (hr : r ∈ stratumRules prog.rules stratum s)
    (hok : TablesOk prog nulls tables) (h : r.Fires (fun p t => (p, t) ∈ facts tables) neg row) :
      RowOk prog nulls r.head.pred row := by
  obtain ⟨hmem, -⟩ := mem_stratumRules.mp hr
  exact Rule.Fires.rowOk h hmem (hclean.nullSafe r hmem) hok

lemma inStratum_known (h : inStratum prog.rels stratum s p = true) :
    ∃ rel, dlFindRel prog.rels p = some rel ∧ rel.isIdb = true ∧ stratum p = s := by
  rw [inStratum] at h
  cases hfind : dlFindRel prog.rels p with
  | none =>
    rw [hfind] at h
    cases h
  | some rel =>
    rw [hfind] at h
    simp only [Bool.and_eq_true, decide_eq_true_eq] at h
    exact ⟨rel, rfl, h.1, h.2⟩

lemma Within.update (hw : Within prog stratum nulls s tables₀ tables) {tbl : Table}
    (hp : inStratum prog.rels stratum s p = true) (hrows : ∀ row ∈ tbl, RowOk prog nulls p row)
    (hnodup : tbl.Nodup) (hsound : ∀ row ∈ tbl, (p, row) ∈ (stratumStep prog stratum s tables₀).lfp) :
    Within prog stratum nulls s tables₀ (Function.update tables p tbl) := by
  refine ⟨⟨fun name => ?_, fun name hfind => ?_⟩, fun name hname => ?_, fun name hname => ?_, ?_⟩
  · by_cases he : name = p
    · subst he
      rw [update_self]
      exact hrows
    · rw [update_of_ne he]
      exact hw.ok.rows name
  · have he : name ≠ p := by
      rintro rfl
      obtain ⟨rel, hrel, -⟩ := inStratum_known hp
      rw [hfind] at hrel
      cases hrel
    rw [update_of_ne he]
    exact hw.ok.unknown name hfind
  · have he : name ≠ p := by
      rintro rfl
      rw [hp] at hname
      cases hname
    rw [update_of_ne he]
    exact hw.frame name hname
  · by_cases he : name = p
    · subst he
      rwa [update_self]
    · rw [update_of_ne he]
      exact hw.nodup name hname
  · rintro ⟨name, row⟩ hrow
    change row ∈ Function.update tables p tbl name at hrow
    by_cases he : name = p
    · subst he
      rw [update_self] at hrow
      exact hsound row hrow
    · rw [update_of_ne he] at hrow
      exact hw.sound hrow

lemma initialPass_spec (hclean : prog.Clean stratum nulls) (hstrat : Stratified prog.rels prog.rules stratum)
    (hrs : ∀ r ∈ rs, r ∈ stratumRules prog.rules stratum s) (hw : Within prog stratum nulls s tables₀ tables)
    (hbase : facts tables₀ ⊆ facts tables) (h : initialPass prog.rels rs tables = some tables') :
    Within prog stratum nulls s tables₀ tables' ∧ facts tables ⊆ facts tables' ∧ ∀ r ∈ rs, ∀ row,
      r.Fires (fun p t => (p, t) ∈ facts tables₀) (fun p t => (p, t) ∈ facts tables₀) row →
        row ∈ tables' r.head.pred := by
  induction rs generalizing tables with
  | nil =>
    obtain rfl : tables = tables' := Option.some.inj h
    exact ⟨hw, subset_rfl, fun r hr => absurd hr not_mem_nil⟩
  | cons r rs ih =>
    have hr := hrs r mem_cons_self
    have htail : ∀ r ∈ rs, r ∈ stratumRules prog.rules stratum s :=
      fun b hb => hrs b (mem_cons_of_mem _ hb)
    rw [initialPass] at h
    cases hcompile : dlCompileRule prog.rels tables r with
    | error e =>
      rw [hcompile] at h
      cases h
    | ok out =>
      have hfires : ∀ row, row ∈ out.getD [] ↔ r.Fires (fun p t => (p, t) ∈ facts tables)
          (fun p t => (p, t) ∈ facts tables₀) row :=
        fun row => compile_fires hclean hstrat hr hw.ok hw.frame hcompile
      have hup : ∀ row, r.Fires (fun p t => (p, t) ∈ facts tables₀) (fun p t => (p, t) ∈ facts tables₀) row →
          row ∈ out.getD [] := fun row hf => (hfires row).mpr (hf.mono fun a _ t ht => hbase ht)
      cases out with
      | none =>
        simp only [hcompile] at h
        obtain ⟨hw', hsub, hall⟩ := ih htail hw hbase h
        exact ⟨hw', hsub, forall_mem_cons.mpr ⟨fun row hf => absurd (hup row hf) not_mem_nil, hall⟩⟩
      | some rows =>
        simp only [hcompile] at h
        have hsound : ∀ row ∈ rows, (r.head.pred, row) ∈ (stratumStep prog stratum s tables₀).lfp :=
          fun row hrow => (stratumStep prog stratum s tables₀).map_le_lfp hw.sound
            (.inr ⟨r, hr, rfl, (hfires row).mp hrow⟩)
        have hw₁ : Within prog stratum nulls s tables₀ (update tables r.head.pred
            (tableDistinct (tables r.head.pred ++ rows))) := by
          refine hw.update (head_inStratum hr) (fun row hrow => ?_) nodup_tableDistinct
            fun row hrow => ?_
          · rw [mem_tableDistinct, mem_append] at hrow
            rcases hrow with hrow | hrow
            · exact hw.ok.rows _ row hrow
            · exact rowOk_of_fires hclean hr hw.ok ((hfires row).mp hrow)
          · rw [mem_tableDistinct, mem_append] at hrow
            rcases hrow with hrow | hrow
            · exact hw.sound hrow
            · exact hsound row hrow
        have hsub₁ : facts tables ⊆ facts (update tables r.head.pred
            (tableDistinct (tables r.head.pred ++ rows))) := by
          rintro ⟨name, row⟩ hrow
          change row ∈ tables name at hrow
          change row ∈ update tables r.head.pred _ name
          by_cases he : name = r.head.pred
          · rw [he, update_self, mem_tableDistinct]
            exact mem_append_left _ (he ▸ hrow)
          · rwa [update_of_ne he]
        obtain ⟨hw', hsub, hall⟩ := ih htail hw₁ (hbase.trans hsub₁) h
        refine ⟨hw', hsub₁.trans hsub, forall_mem_cons.mpr ⟨fun row hf => ?_, hall⟩⟩
        refine hsub (a := (r.head.pred, row)) ?_
        change row ∈ update tables r.head.pred _ r.head.pred
        rw [update_self, mem_tableDistinct]
        exact mem_append_right _ (hup row hf)

structure Rounds (prog : Program) (stratum : String → ℕ) (nulls : String → ℕ → Bool) (s : ℕ)
    (tables₀ tables delta : Tables) : Prop where
  within : Within prog stratum nulls s tables₀ tables
  part : ∀ p row, row ∈ delta p → row ∈ tables p
  other : ∀ p, inStratum prog.rels stratum s p = false → delta p = []
  approach : Approach (stratumStep prog stratum s tables₀) (facts tables) (facts delta)

lemma Rounds.swap_ok (hd : Rounds prog stratum nulls s tables₀ tables delta) (p : String) :
    TablesOk prog nulls (update tables p (delta p)) := by
  refine ⟨fun name row hrow => ?_, fun name hfind => ?_⟩
  · by_cases he : name = p
    · subst he
      rw [update_self] at hrow
      exact hd.within.ok.rows name row (hd.part name row hrow)
    · rw [update_of_ne he] at hrow
      exact hd.within.ok.rows name row hrow
  · by_cases he : name = p
    · subst he
      rw [update_self]
      refine eq_nil_iff_forall_not_mem.mpr fun row hrow => ?_
      have hmem := hd.part name row hrow
      rw [hd.within.ok.unknown name hfind] at hmem
      exact absurd hmem not_mem_nil
    · rw [update_of_ne he]
      exact hd.within.ok.unknown name hfind

lemma Rounds.swap_frame (hd : Rounds prog stratum nulls s tables₀ tables delta) {q : String}
    (hp : delta q ≠ []) (hq : inStratum prog.rels stratum s p = false) :
      update tables q (delta q) p = tables₀ p := by
  have he : p ≠ q := by
    rintro rfl
    exact hp (hd.other p hq)
  rw [update_of_ne he]
  exact hd.within.frame p hq

abbrev swapped (tables delta : Tables) (q : String) : Set Fact :=
  facts (update tables q (delta q))

lemma newTuples_spec (hclean : prog.Clean stratum nulls) (hstrat : Stratified prog.rels prog.rules stratum)
    (hd : Rounds prog stratum nulls s tables₀ tables delta)
    (hoccs : ∀ ra ∈ occs, ra.1 ∈ stratumRules prog.rules stratum s)
    (h : newTuples prog.rels tables delta occs new = some new') :
    ∀ p row, row ∈ new' p ↔ row ∈ new p ∨ ∃ ra ∈ occs, delta ra.2.pred ≠ [] ∧ ra.1.head.pred = p ∧
      ra.1.Fires (fun q t => (q, t) ∈ swapped tables delta ra.2.pred)
        (fun q t => (q, t) ∈ facts tables₀) row := by
  induction occs generalizing new with
  | nil =>
    obtain rfl : new = new' := Option.some.inj h
    exact fun p row => ⟨.inl, fun hrow => hrow.elim id fun ⟨ra, hra, _⟩ => absurd hra not_mem_nil⟩
  | cons ra occs ih =>
    intro p row
    obtain ⟨r, a⟩ := ra
    have htail : ∀ ra ∈ occs, ra.1 ∈ stratumRules prog.rules stratum s :=
      fun b hb => hoccs b (mem_cons_of_mem _ hb)
    rw [newTuples] at h
    simp only [mem_cons, exists_eq_or_imp]
    by_cases hnil : delta a.pred = []
    · rw [if_pos hnil] at h
      rw [ih htail h]
      exact or_congr_right ⟨.inr, fun hor => hor.resolve_left fun hno => hno.1 hnil⟩
    · rw [if_neg hnil] at h
      cases hcompile : dlCompileRule prog.rels (update tables a.pred (delta a.pred)) r with
      | error e =>
        rw [hcompile] at h
        cases h
      | ok out =>
        have hfires : ∀ row, row ∈ out.getD [] ↔ r.Fires (fun q t => (q, t) ∈ swapped tables delta a.pred)
            (fun q t => (q, t) ∈ facts tables₀) row :=
          fun row => compile_fires hclean hstrat (hoccs _ mem_cons_self) (hd.swap_ok a.pred)
            (fun q hq => hd.swap_frame hnil hq) hcompile
        cases out with
        | none =>
          simp only [hcompile] at h
          rw [ih htail h]
          refine or_congr_right ⟨.inr, fun hor => hor.resolve_left fun hno => ?_⟩
          exact absurd ((hfires row).mpr hno.2.2) not_mem_nil
        | some rows =>
          simp only [hcompile] at h
          rw [ih htail h, ← or_assoc]
          refine or_congr_left ?_
          by_cases he : p = r.head.pred
          · subst he
            rw [update_self, mem_append]
            exact or_congr_right ⟨fun hrow => ⟨hnil, rfl, (hfires row).mp hrow⟩,
              fun hf => (hfires row).mpr hf.2.2⟩
          · rw [update_of_ne he]
            exact ⟨.inl, fun hor => hor.resolve_right fun hno => he hno.2.1.symm⟩

lemma mem_occurrences {rules : List Rule} : ra ∈ occurrences rules ↔ ra.1 ∈ rules ∧ ra.2 ∈ ra.1.positives := by
  rw [occurrences, mem_flatMap]
  constructor
  · rintro ⟨r, hr, hra⟩
    obtain ⟨a, ha, rfl⟩ := mem_map.mp hra
    exact ⟨hr, ha⟩
  · rintro ⟨hr, ha⟩
    exact ⟨ra.1, hr, mem_map.mpr ⟨ra.2, ha, rfl⟩⟩

lemma round_sound (hd : Rounds prog stratum nulls s tables₀ tables delta)
    (hr : ra.1 ∈ stratumRules prog.rules stratum s)
    (hf : ra.1.Fires (fun q t => (q, t) ∈ swapped tables delta ra.2.pred)
      (fun q t => (q, t) ∈ facts tables₀) row) : (ra.1.head.pred, row) ∈ stratumStep prog stratum s tables₀
        (facts tables) := by
  refine .inr ⟨ra.1, hr, rfl, hf.mono fun a _ t ht => ?_⟩
  change t ∈ update tables ra.2.pred (delta ra.2.pred) a.pred at ht
  by_cases he : a.pred = ra.2.pred
  · rw [he, update_self] at ht
    rw [he]
    exact hd.part _ t ht
  · rwa [update_of_ne he] at ht

lemma round_complete (hclean : prog.Clean stratum nulls)
    (hd : Rounds prog stratum nulls s tables₀ tables delta) {f : Fact}
    (hf : f ∈ stratumStep prog stratum s tables₀ (facts tables)) :
    f ∈ stratumStep prog stratum s tables₀ (facts tables \ facts delta) ∨
      ∃ ra ∈ occurrences (stratumRules prog.rules stratum s), delta ra.2.pred ≠ [] ∧ ra.1.head.pred = f.1 ∧
        ra.1.Fires (fun q t => (q, t) ∈ swapped tables delta ra.2.pred)
          (fun q t => (q, t) ∈ facts tables₀) f.2 := by
  obtain hbase | ⟨r, hr, hhead, σ, hpos, hneg, hrow⟩ := hf
  · exact .inl (.inl hbase)
  by_cases hold : ∀ a ∈ r.positives, a.inst σ ∉ delta a.pred
  · refine .inl (.inr ⟨r, hr, hhead, σ, fun a ha => ⟨hpos a ha, hold a ha⟩, hneg, hrow⟩)
  · simp only [not_forall, not_not] at hold
    obtain ⟨a, ha, hnew⟩ := hold
    have hne : delta a.pred ≠ [] := ne_nil_of_mem hnew
    refine .inr ⟨(r, a), mem_occurrences.mpr ⟨hr, ha⟩, hne, hhead, σ, fun b hb => ?_, hneg, hrow⟩
    change b.inst σ ∈ update tables a.pred (delta a.pred) b.pred
    by_cases he : b.pred = a.pred
    · -- the only atom of the rule over this relation
      obtain ⟨hmem, hs⟩ := mem_stratumRules.mp hr
      have hin : inStratum prog.rels stratum (stratum r.head.pred) a.pred = true := by
        rw [hs]
        by_contra hno
        exact hne (hd.other _ (Bool.eq_false_of_not_eq_true hno))
      obtain rfl : a = b := hclean.linear r hmem a ha b hb he.symm hin
      rwa [update_self]
    · rw [update_of_ne he]
      exact hpos b hb

lemma Rounds.next (hclean : prog.Clean stratum nulls) (hstrat : Stratified prog.rels prog.rules stratum)
    (hd : Rounds prog stratum nulls s tables₀ tables delta)
    (h : newTuples prog.rels tables delta (occurrences (stratumRules prog.rules stratum s))
      (fun _ => []) = some new) :
    Rounds prog stratum nulls s tables₀
    (fun p => tables p ++ nextDelta (inStratum prog.rels stratum s) tables new p)
      (nextDelta (inStratum prog.rels stratum s) tables new) := by
  have hspec := newTuples_spec hclean hstrat hd (fun ra hra => (mem_occurrences.mp hra).1) h
  have hnew : ∀ p row, row ∈ new p → inStratum prog.rels stratum s p = true ∧
      (p, row) ∈ stratumStep prog stratum s tables₀ (facts tables) := by
    intro p row hrow
    obtain hno | ⟨ra, hra, -, rfl, hf⟩ := (hspec p row).mp hrow
    · exact absurd hno not_mem_nil
    · have hr := (mem_occurrences.mp hra).1
      exact ⟨head_inStratum hr, round_sound hd hr hf⟩
  -- a round only adds rows of recursive rules, and these have no missing cell
  have hnewOk : ∀ p row, row ∈ new p → RowOk prog nulls p row ∧ ∀ x ∈ row, x ≠ nullI64 := by
    intro p row hrow
    obtain hno | ⟨ra, hra, hne, rfl, hf⟩ := (hspec p row).mp hrow
    · exact absurd hno not_mem_nil
    · obtain ⟨hr, ha⟩ := mem_occurrences.mp hra
      have hok := hd.swap_ok ra.2.pred
      refine ⟨rowOk_of_fires hclean hr hok hf, fun x hx hnull => ?_⟩
      obtain ⟨hmem, hs⟩ := mem_stratumRules.mp hr
      have hrec : ra.1.Recursive prog.rels stratum := by
        refine ⟨ra.2, ha, ?_⟩
        rw [hs]
        by_contra hno
        exact hne (hd.other _ (Bool.eq_false_of_not_eq_true hno))
      obtain ⟨c, hc⟩ := mem_iff_getElem?.mp hx
      have hlt : c < ra.1.head.args.length := by
        rw [← hf.length]
        exact (List.getElem?_eq_some_iff.mp hc).1
      have hsolid := hclean.present ra.1 hmem hrec _ (getElem_mem hlt)
      exact hf.solid hok.nullsIn (getElem?_eq_getElem hlt) hsolid (hnull ▸ hc)
  have hdelta : ∀ p row, row ∈ nextDelta (inStratum prog.rels stratum s) tables new p ↔
      row ∈ new p ∧ row ∉ tables p := by
    intro p row
    rw [nextDelta]
    by_cases hp : inStratum prog.rels stratum s p = true
    · obtain ⟨rel, hfind, -, -⟩ := inStratum_known hp
      rw [if_pos hp, mem_tableAntijoin (n := rel.arity)
        (fun l hl => (hnewOk p l (mem_tableDistinct.mp hl)).1.length rel hfind)
        (fun l hl => (hnewOk p l (mem_tableDistinct.mp hl)).2)
          (fun t ht => (hd.within.ok.rows p t ht).length rel hfind),
        mem_tableDistinct]
    · rw [if_neg hp]
      exact ⟨fun hno => absurd hno not_mem_nil, fun hrow => absurd (hnew p row hrow.1).1 hp⟩
  have hother : ∀ p, inStratum prog.rels stratum s p = false →
      nextDelta (inStratum prog.rels stratum s) tables new p = [] := by
    intro p hp
    rw [nextDelta, hp]
    rfl
  have hdeltaFacts : facts (nextDelta (inStratum prog.rels stratum s) tables new) =
      facts new \ facts tables := Set.ext fun f => hdelta f.1 f.2
  have hfacts : facts (fun p => tables p ++ nextDelta (inStratum prog.rels stratum s) tables new p) =
      facts tables ∪ facts new := by
    ext f
    change f.2 ∈ tables f.1 ++ nextDelta _ tables new f.1 ↔ f.2 ∈ tables f.1 ∨ f.2 ∈ new f.1
    rw [mem_append, hdelta]
    exact ⟨fun hor => hor.imp_right And.left, fun hor => by
      by_cases hin : f.2 ∈ tables f.1
      · exact .inl hin
      · exact .inr ⟨hor.resolve_left hin, hin⟩⟩
  have hsound : facts new ⊆ stratumStep prog stratum s tables₀ (facts tables) :=
    fun f hf => (hnew f.1 f.2 hf).2
  have hcomplete : stratumStep prog stratum s tables₀ (facts tables) ⊆
      stratumStep prog stratum s tables₀ (facts tables \ facts delta) ∪ facts new := by
    intro f hf
    obtain hold | hocc := round_complete hclean hd hf
    · exact .inl hold
    · exact .inr ((hspec f.1 f.2).mpr (.inr hocc))
  have happroach := hd.approach.step hsound hcomplete
  rw [← hfacts, ← hdeltaFacts] at happroach
  refine ⟨⟨⟨fun p row hrow => ?_, fun p hfind => ?_⟩, fun p hp => ?_, fun p hp => ?_,
    happroach.sound⟩, fun p row hrow => mem_append_right _ hrow, hother, happroach⟩
  · obtain hrow | hrow := mem_append.mp hrow
    · exact hd.within.ok.rows p row hrow
    · exact (hnewOk p row ((hdelta p row).mp hrow).1).1
  · have hp : inStratum prog.rels stratum s p = false := by
      rw [inStratum, hfind]
    rw [hd.within.ok.unknown p hfind, hother p hp]
    rfl
  · rw [hother p hp, append_nil]
    exact hd.within.frame p hp
  · refine nodup_append.mpr ⟨hd.within.nodup p hp, ?_, fun a ha b hb => ?_⟩
    · rw [nextDelta, if_pos hp]
      exact nodup_tableDistinct.filter _
    · rintro rfl
      exact ((hdelta p a).mp hb).2 ha

lemma fixpoint_spec (hclean : prog.Clean stratum nulls)
    (hstrat : Stratified prog.rels prog.rules stratum) {fuel : ℕ}
    (hd : Rounds prog stratum nulls s tables₀ tables delta)
    (h : fixpoint prog.rels (stratumRules prog.rules stratum s) (inStratum prog.rels stratum s) fuel tables
      delta = some tables') :
    Within prog stratum nulls s tables₀ tables' ∧ facts tables' = (stratumStep prog stratum s tables₀).lfp := by
  induction fuel generalizing tables delta with
  | zero => cases h
  | succ fuel ih =>
    rw [fixpoint] at h
    by_cases hdone : prog.rels.all (fun rel => delta rel.name = []) = true
    · rw [if_pos hdone] at h
      obtain rfl : tables = tables' := Option.some.inj h
      refine ⟨hd.within, hd.approach.done (Set.eq_empty_iff_forall_notMem.mpr fun f hf => ?_)⟩
      have hnil : delta f.1 = [] := by
        by_cases hp : inStratum prog.rels stratum s f.1 = true
        · obtain ⟨rel, hfind, -, -⟩ := inStratum_known hp
          obtain ⟨hmem, hname⟩ := dlFindRel_spec hfind
          have hrel := all_eq_true.mp hdone rel hmem
          rwa [decide_eq_true_eq, hname] at hrel
        · exact hd.other _ (Bool.eq_false_of_not_eq_true hp)
      change f.2 ∈ delta f.1 at hf
      rw [hnil] at hf
      exact not_mem_nil hf
    · rw [if_neg hdone] at h
      cases hnew : newTuples prog.rels tables delta (occurrences (stratumRules prog.rules stratum s))
        (fun _ => []) with
      | none =>
        rw [hnew] at h
        cases h
      | some new =>
        rw [hnew] at h
        exact ih (hd.next hclean hstrat hnew) h

lemma rounds_start (hw : Within prog stratum nulls s tables₀ tables) (hbase : facts tables₀ ⊆ facts tables)
    (hfirst : ∀ r ∈ stratumRules prog.rules stratum s, ∀ row,
      r.Fires (fun p t => (p, t) ∈ facts tables₀) (fun p t => (p, t) ∈ facts tables₀) row →
        row ∈ tables r.head.pred) :
    Rounds prog stratum nulls s tables₀ tables fun p =>
      if inStratum prog.rels stratum s p then tables p else [] := by
  have hpart : ∀ p row, row ∈ (if inStratum prog.rels stratum s p then tables p else []) → row ∈ tables p := by
    intro p row hrow
    by_cases hp : inStratum prog.rels stratum s p = true
    · rwa [if_pos hp] at hrow
    · rw [if_neg hp] at hrow
      exact absurd hrow not_mem_nil
  refine ⟨hw, hpart, fun p hp => by rw [hp]; rfl, hw.sound, ?_⟩
  have hold : facts tables \ facts (fun p => if inStratum prog.rels stratum s p then tables p else []) ⊆
      facts tables₀ := by
    rintro ⟨p, row⟩ ⟨hin, hout⟩
    change row ∈ tables p at hin
    change row ∉ (if inStratum prog.rels stratum s p then tables p else []) at hout
    by_cases hp : inStratum prog.rels stratum s p = true
    · rw [if_pos hp] at hout
      exact absurd hin hout
    · change row ∈ tables₀ p
      rwa [← hw.frame p (Bool.eq_false_of_not_eq_true hp)]
  refine ((stratumStep prog stratum s tables₀).monotone hold).trans ?_
  rintro ⟨p, row⟩ (hrow | ⟨r, hr, rfl, hf⟩)
  · exact hbase hrow
  · exact hfirst r hr row hf

lemma evalStratum_spec (hclean : prog.Clean stratum nulls) (hstrat : Stratified prog.rels prog.rules stratum)
    (hok : TablesOk prog nulls tables) (hempty : ∀ p, inStratum prog.rels stratum s p = true → tables p = [])
    (h : evalStratum prog.rels prog.rules stratum tables s = some tables') :
    Within prog stratum nulls s tables tables' ∧ facts tables' = (stratumStep prog stratum s tables).lfp := by
  have hself : facts tables ⊆ (stratumStep prog stratum s tables).lfp := by
    rw [← (stratumStep prog stratum s tables).map_lfp]
    exact Set.subset_union_left
  have hw : Within prog stratum nulls s tables tables :=
    ⟨hok, fun p _ => rfl, fun p hp => by rw [hempty p hp]; exact nodup_nil, hself⟩
  rw [evalStratum] at h
  by_cases hnil : stratumRules prog.rules stratum s = []
  · rw [if_pos hnil] at h
    obtain rfl : tables = tables' := Option.some.inj h
    refine ⟨hw, hself.antisymm ((stratumStep prog stratum s tables).lfp_le ?_)⟩
    rintro f (hf | ⟨r, hr, -⟩)
    · exact hf
    · rw [hnil] at hr
      exact absurd hr not_mem_nil
  · rw [if_neg hnil] at h
    cases hpass : initialPass prog.rels (stratumRules prog.rules stratum s) tables with
    | none =>
      rw [hpass] at h
      cases h
    | some tables₁ =>
      rw [hpass] at h
      obtain ⟨hw₁, hsub, hfirst⟩ := initialPass_spec hclean hstrat (fun r hr => hr) hw subset_rfl hpass
      exact fixpoint_spec hclean hstrat (rounds_start hw₁ hsub hfirst) h

structure Reached (prog : Program) (stratum : String → ℕ) (nulls : String → ℕ → Bool) (edb : Set Fact) (s : ℕ)
    (tables : Tables) :
    Prop where
  ok : TablesOk prog nulls tables
  model : facts tables = perfectModel prog stratum edb s
  done : ∀ p rel, dlFindRel prog.rels p = some rel → rel.isIdb = true → stratum p < s → (tables p).Nodup
  ahead : ∀ p rel, dlFindRel prog.rels p = some rel → rel.isIdb = true → s ≤ stratum p → tables p = []

lemma Reached.next (hclean : prog.Clean stratum nulls)
    (hstrat : Stratified prog.rels prog.rules stratum) (hr : Reached prog stratum nulls edb s tables)
    (h : evalStratum prog.rels prog.rules stratum tables s = some tables') :
      Reached prog stratum nulls edb (s + 1) tables' := by
  obtain ⟨hw, hfacts⟩ := evalStratum_spec hclean hstrat hr.ok (fun p hp => by
    obtain ⟨rel, hfind, hidb, hs⟩ := inStratum_known hp
    exact hr.ahead p rel hfind hidb hs.ge) h
  have hin : ∀ p rel, dlFindRel prog.rels p = some rel → rel.isIdb = true →
      (inStratum prog.rels stratum s p = true ↔ stratum p = s) := by
    intro p rel hfind hidb
    rw [inStratum, hfind]
    simp [hidb]
  refine ⟨hw.ok, ?_, fun p rel hfind hidb hlt => ?_, fun p rel hfind hidb hle => ?_⟩
  · rw [hfacts, perfectModel, ← hr.model]
  · by_cases hs : stratum p = s
    · exact hw.nodup p ((hin p rel hfind hidb).mpr hs)
    · rw [hw.frame p (Bool.eq_false_of_not_eq_true fun hp => hs ((hin p rel hfind hidb).mp hp))]
      exact hr.done p rel hfind hidb (by omega)
  · rw [hw.frame p (Bool.eq_false_of_not_eq_true fun hp => by
      have hs := (hin p rel hfind hidb).mp hp
      omega)]
    exact hr.ahead p rel hfind hidb (by omega)

lemma foldlM_reached (hclean : prog.Clean stratum nulls)
    (hstrat : Stratified prog.rels prog.rules stratum) {n : ℕ} (hr : Reached prog stratum nulls edb 0 tables)
    (h : (List.range n).foldlM (evalStratum prog.rels prog.rules stratum) tables = some tables') :
    Reached prog stratum nulls edb n tables' := by
  induction n generalizing tables' with
  | zero =>
    obtain rfl : tables = tables' := Option.some.inj h
    exact hr
  | succ n ih =>
    rw [range_succ, foldlM_append, Option.bind_eq_bind, Option.bind_eq_some_iff] at h
    obtain ⟨mid, hmid, h⟩ := h
    rw [foldlM_cons, Option.bind_eq_bind, Option.bind_eq_some_iff] at h
    obtain ⟨last, hlast, h⟩ := h
    obtain rfl : last = tables' := Option.some.inj h
    exact (ih hmid).next hclean hstrat hlast

end

def EdbOk (prog : Program) (nulls : String → ℕ → Bool) (edb : Tables) : Prop :=
  ∀ name rel, dlFindRel prog.rels name = some rel → rel.isIdb = false → ∀ row ∈ edb name, RowOk prog nulls name row

lemma reached_start {prog : Program} {edb : Tables} {nulls : String → ℕ → Bool} (stratum : String → ℕ)
    (hedb : EdbOk prog nulls edb) :
    Reached prog stratum nulls (facts (startTables prog.rels edb)) 0 (startTables prog.rels edb) := by
  have hidb : ∀ p rel, dlFindRel prog.rels p = some rel → rel.isIdb = true →
      startTables prog.rels edb p = [] := by
    intro p rel hfind hidb
    rw [startTables, hfind]
    exact if_pos hidb
  refine ⟨⟨fun name row hrow => ?_, fun name hfind => by rw [startTables, hfind]⟩, rfl,
    fun p rel _ _ hlt => absurd hlt (Nat.not_lt_zero _), fun p rel hfind hi _ => hidb p rel hfind hi⟩
  cases hfind : dlFindRel prog.rels name with
  | none =>
    rw [startTables, hfind] at hrow
    exact absurd hrow not_mem_nil
  | some rel =>
    by_cases hi : rel.isIdb = true
    · rw [hidb name rel hfind hi] at hrow
      exact absurd hrow not_mem_nil
    · rw [startTables, hfind] at hrow
      simp only at hrow
      rw [if_neg hi] at hrow
      exact hedb name rel hfind (Bool.eq_false_of_not_eq_true hi) row hrow

def stepProgram : Program where
  rels := [⟨"edge", 2, false⟩, ⟨"label", 2, false⟩, ⟨"path", 2, true⟩, ⟨"tagged", 2, true⟩, ⟨"last", 1, true⟩]
  rules := [⟨⟨"path", [.var 0, .var 1]⟩, [.pos ⟨"edge", [.var 0, .var 1]⟩]⟩,
    ⟨⟨"path", [.var 0, .var 2]⟩, [.pos ⟨"edge", [.var 0, .var 1]⟩, .pos ⟨"path", [.var 1, .var 2]⟩]⟩,
    ⟨⟨"tagged", [.var 0, .var 2]⟩, [.pos ⟨"edge", [.var 0, .var 1]⟩, .pos ⟨"label", [.var 1, .var 2]⟩]⟩,
    ⟨⟨"last", [.var 1]⟩, [.pos ⟨"path", [.var 0, .var 1]⟩, .neg ⟨"edge", [.var 1, .var 2]⟩]⟩]
  head_rel := by decide
  body_rel := by decide

def chainProgram : Program where
  rels := [⟨"edge", 2, false⟩, ⟨"path", 2, true⟩]
  rules := [⟨⟨"path", [.var 0, .var 1]⟩, [.pos ⟨"edge", [.var 0, .var 1]⟩]⟩,
    ⟨⟨"path", [.var 0, .var 2]⟩, [.pos ⟨"path", [.var 0, .var 1]⟩, .pos ⟨"path", [.var 1, .var 2]⟩]⟩]
  head_rel := by decide
  body_rel := by decide

def chainEdges (name : String) : Table :=
  if name = "edge" then [[0, 1], [1, 2], [2, 3], [3, 4], [4, 5]] else []

def stepTables (name : String) : Table :=
  if name = "edge" then [[0, 1], [1, 2], [2, 3], [3, 4], [4, 5]]
  else if name = "label" then [[1, nullI64], [3, 7]]
  else []

def stepNulls (p : String) (c : ℕ) : Bool := (p = "label" ∨ p = "tagged") ∧ c = 1

lemma stepTables_ok : EdbOk stepProgram stepNulls stepTables := by
  intro name rel hfind hidb row hrow
  obtain ⟨hmem, rfl⟩ := dlFindRel_spec hfind
  have hedge : ∀ row ∈ stepTables "edge", row.length = 2 ∧ nullI64 ∉ row := by decide
  have hlabel : ∀ row ∈ stepTables "label", row.length = 2 ∧ nullI64 ∉ row.take 1 := by decide
  have hrel : rel = ⟨"edge", 2, false⟩ ∨ rel = ⟨"label", 2, false⟩ := by
    simp only [stepProgram, mem_cons, not_mem_nil, or_false] at hmem
    rcases hmem with rfl | rfl | rfl | rfl | rfl
    · exact .inl rfl
    · exact .inr rfl
    all_goals cases hidb
  have harity : ∀ rel', dlFindRel stepProgram.rels rel.name = some rel' → rel'.arity = 2 := by
    rintro rel' hfind'
    obtain rfl := Option.some.inj (hfind.symm.trans hfind')
    rcases hrel with rfl | rfl <;> rfl
  rcases hrel with rfl | rfl
  · exact ⟨fun rel' h => by rw [harity rel' h, (hedge row hrow).1], fun c hc =>
      absurd (mem_of_getElem? hc) (hedge row hrow).2⟩
  · refine ⟨fun rel' h => by rw [harity rel' h, (hlabel row hrow).1], fun c hc => decide_eq_true ⟨.inl rfl, ?_⟩⟩
    obtain ⟨hlen, hfirst⟩ := hlabel row hrow
    have hlt := (List.getElem?_eq_some_iff.mp hc).1
    have hne : c ≠ 0 := by
      rintro rfl
      refine hfirst (mem_of_getElem? (i := 0) ?_)
      rw [getElem?_take_of_lt (by omega), hc]
    omega

lemma stepProgram_clean (stratum : String → ℕ) : stepProgram.Clean stratum stepNulls := by
  refine ⟨?_, ?_, ?_, ?_⟩
  · have hall : ∀ r ∈ stepProgram.rules, r.positives ≠ [] ∧ boundOnce [] r.positives = true ∧
        (∀ a ∈ r.negatives, (dlFindRel stepProgram.rels a.pred).isSome) ∧
          (∀ a ∈ r.negatives, ∃ v ∈ a.vars, v ∈ r.bound) ∧
        (∀ a ∈ r.negatives, ∀ v ∈ a.vars, v ∉ r.bound → a.args.count (Arg.var v) ≤ 1) ∧ r.head.args ≠ [] := by
          decide
    intro r hr
    obtain ⟨hpos, honce, hknown, htied, hneg, hargs⟩ := hall r hr
    exact ⟨hpos, honce, hknown, htied, hneg, hargs⟩
  · have hall : ∀ r ∈ stepProgram.rules, ∀ a ∈ r.positives, ∀ b ∈ r.positives, a.pred = b.pred → a = b := by decide
    exact fun r hr a ha b hb hpred _ => hall r hr a ha b hb hpred
  · have hall : ∀ r ∈ stepProgram.rules, joinsSolid stepNulls [] r.positives = true ∧
        (∀ a ∈ r.negatives, a.keysSolid stepNulls r.positives = true) ∧
        ∀ ac ∈ r.head.args.zipIdx, stepNulls r.head.pred ac.2 = true ∨
          ac.1.solid stepNulls r.positives = true := by decide
    intro r hr
    obtain ⟨hjoined, hnegated, hhead⟩ := hall r hr
    exact ⟨hjoined, hnegated, hhead⟩
  · have hall : ∀ r ∈ stepProgram.rules, (∀ arg ∈ r.head.args, arg.solid stepNulls r.positives = true) ∨
        ∀ a ∈ r.positives, a.pred = "edge" ∨ a.pred = "label" := by decide
    rintro r hr ⟨a, ha, hin⟩
    refine (hall r hr).resolve_right fun hgiven => ?_
    obtain ⟨rel, hfind, hidb, -⟩ := inStratum_known hin
    rcases hgiven a ha with hname | hname
    · rw [hname] at hfind
      obtain rfl := Option.some.inj hfind
      cases hidb
    · rw [hname] at hfind
      obtain rfl := Option.some.inj hfind
      cases hidb

section

variable {stratum : String → ℕ} {base : Set Fact} {x y z : ℤ}

abbrev closure (stratum : String → ℕ) (base : Set Fact) : Set Fact :=
  (consequence (stratumRules chainProgram.rules stratum 0) base).lfp

lemma base_subset_closure : base ⊆ closure stratum base := by
  rw [closure, ← OrderHom.map_lfp]
  exact Set.subset_union_left

lemma path_of_edge (hs : stratum "path" = 0) (h : ("edge", [x, y]) ∈ base) :
    ("path", [x, y]) ∈ closure stratum base := by
  rw [closure, ← OrderHom.map_lfp]
  refine .inr ⟨⟨⟨"path", [.var 0, .var 1]⟩, [.pos ⟨"edge", [.var 0, .var 1]⟩]⟩, ?_, rfl,
    fun v => if v = 0 then x else y, ?_, fun a ha => absurd ha not_mem_nil, rfl⟩
  · exact mem_stratumRules.mpr ⟨mem_cons_self, hs⟩
  · intro a ha
    obtain rfl := mem_singleton.mp ha
    exact base_subset_closure h

lemma path_trans (hs : stratum "path" = 0) (h : ("path", [x, y]) ∈ closure stratum base)
    (h' : ("path", [y, z]) ∈ closure stratum base) : ("path", [x, z]) ∈ closure stratum base := by
  rw [closure, ← OrderHom.map_lfp]
  refine .inr ⟨⟨⟨"path", [.var 0, .var 2]⟩,
    [.pos ⟨"path", [.var 0, .var 1]⟩, .pos ⟨"path", [.var 1, .var 2]⟩]⟩, ?_, rfl,
    fun v => if v = 0 then x else if v = 1 then y else z, ?_, fun a ha => absurd ha not_mem_nil, rfl⟩
  · exact mem_stratumRules.mpr ⟨mem_cons_of_mem _ mem_cons_self, hs⟩
  · intro a ha
    obtain rfl | ha := mem_cons.mp ha
    · exact h
    · obtain rfl := mem_singleton.mp ha
      exact h'

end

end Rayforce.Datalog
