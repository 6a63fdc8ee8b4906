import Rayforce.Splay.Crash

namespace Rayforce.Splay

open Library.Words Library.Files List
open Rayforce.Store (Obj StrVec Desc)
open Rayforce.Domain (SymDomain Holds Persisted decode)

variable {pnames : List Bytes} {disk disk' e : Disk Loc} {cached : Option SymDomain} {tbl : List Column}
    {dir : Bytes} {sym : Option Loc} {f g : Loc}
  {c : Column} {target : Option SymDomain} {schema : StrVec} {op : Op Loc}

def Unclobbered (dir : Bytes) (tbl : List Column) : Prop :=
  tbl.Pairwise fun a b => (⟨dir, a.name⟩ : Loc) ∉ b.beside dir

def WrittenAs (pnames : List Bytes) (target : Option SymDomain) (disk : Disk Loc) (dir : Bytes)
    (c : Column) : Prop :=
  (⟨dir, c.name⟩ : Loc).path < pathMax ∧ ∃ bs, encodeColumn pnames target c = .ok bs ∧ disk ⟨dir, c.name⟩ = some bs

lemma columnPlan_ops (hsafe : splayColNameSafe c.name = true)
    (hstop : (columnPlan pnames target dir c).stop = none) :
    (⟨dir, c.name⟩ : Loc).path < pathMax ∧ ∃ bs checked, encodeColumn pnames target c = .ok bs ∧
      (columnPlan pnames target dir c).ops = replace (⟨dir, c.name⟩ : Loc).tmp ⟨dir, c.name⟩ bs checked ++
        linkOps ⟨dir, c.name⟩ c.target := by
  rw [columnPlan] at hstop ⊢
  split_ifs at hstop ⊢ with hunsafe hpath
  · rw [hsafe] at hunsafe
    cases hunsafe
  · cases hstop
  · cases hstop
  · cases henc : encodeColumn pnames target c with
    | error s =>
      rw [henc] at hstop
      cases hstop
    | ok bs => exact ⟨not_le.mp hpath, bs, _, rfl, rfl⟩

lemma columnPlan_run (hsafe : splayColNameSafe c.name = true)
    (hstop : (columnPlan pnames target dir c).stop = none)
    (h : runAll (columnPlan pnames target dir c).ops disk = some disk') : WrittenAs pnames target disk' dir c := by
  obtain ⟨hpath, bs, checked, henc, hops⟩ := columnPlan_ops hsafe hstop
  rw [hops] at h
  obtain ⟨d, hrep, hlink⟩ := runAll_split h
  have hframe := linkOps_frame (g := ⟨dir, c.name⟩) (runAll_done hlink).stops (name_notMem_tail c.name)
  exact ⟨hpath, bs, henc, hframe.trans (runAll_replace hrep)⟩

lemma columnsPlan_writes (hop : op ∈ (columnsPlan pnames target dir schema tbl).ops) (h : op.Touches g) :
    ∃ b ∈ tbl, g = ⟨dir, b.name⟩ ∨ g ∈ b.beside dir := by
  induction tbl generalizing schema with
  | nil => cases hop
  | cons c cs ih =>
    have hrest : ∀ schema, op ∈ (columnsPlan pnames target dir schema cs).ops → ∃ b ∈ c :: cs, g = ⟨dir, b.name⟩ ∨
        g ∈ b.beside dir := by
      intro schema hop
      obtain ⟨b, hb, hg⟩ := ih hop
      exact ⟨b, mem_cons_of_mem _ hb, hg⟩
    rw [columnsPlan] at hop
    rcases mem_andThen hop with hop | hop
    · exact ⟨c, mem_cons_self, (columnPlan_writes hop h).2⟩
    · split_ifs at hop
      · exact hrest _ hop
      · split at hop
        · cases hop
        · exact hrest _ hop

lemma columnsPlan_cons_run {cs : List Column} (hsafe : splayColNameSafe c.name = true)
    (hstop : (columnsPlan pnames target dir schema (c :: cs)).stop = none)
    (h : runAll (columnsPlan pnames target dir schema (c :: cs)).ops disk = some disk') : ∃ schema' d,
      (columnPlan pnames target dir c).stop = none ∧ runAll (columnPlan pnames target dir c).ops disk = some d ∧
      (columnsPlan pnames target dir schema' cs).stop = none ∧
        runAll (columnsPlan pnames target dir schema' cs).ops d = some disk' := by
  rw [columnsPlan] at hstop h
  obtain ⟨hfirst, hrest⟩ := stop_andThen hstop
  rw [andThen_of_none hfirst] at h
  obtain ⟨d, hd, hrun⟩ := runAll_split h
  rw [if_neg (by rw [hsafe]; rintro ⟨⟩)] at hrest hrun
  cases happ : rayStrVecAppend schema c.name with
  | none =>
    rw [happ] at hrest
    cases hrest
  | some schema' =>
    rw [happ] at hrest hrun
    exact ⟨schema', d, hfirst, hd, hrest, hrun⟩

lemma columnsPlan_run (hsafe : ∀ c ∈ tbl, splayColNameSafe c.name = true) (hnodup : (tbl.map Column.name).Nodup)
    (hclob : Unclobbered dir tbl) (hstop : (columnsPlan pnames target dir schema tbl).stop = none)
    (h : runAll (columnsPlan pnames target dir schema tbl).ops disk = some disk') :
      ∀ c ∈ tbl, WrittenAs pnames target disk' dir c := by
  induction tbl generalizing schema disk with
  | nil => simp
  | cons c cs ih =>
    obtain ⟨schema', d, hfirst, hd, hrest, hrun⟩ := columnsPlan_cons_run (hsafe c mem_cons_self) hstop h
    rw [map_cons, nodup_cons] at hnodup
    obtain ⟨hhead, htail⟩ := pairwise_cons.mp hclob
    rw [forall_mem_cons]
    refine ⟨?_, ih (fun b hb => hsafe b (mem_cons_of_mem _ hb)) hnodup.2 htail hrest hrun⟩
    obtain ⟨hpath, bs, henc, hfile⟩ := columnPlan_run (hsafe c mem_cons_self) hfirst hd
    refine ⟨hpath, bs, henc, ((runAll_done hrun).stops.frame fun op hop htouch => ?_).trans hfile⟩
    obtain ⟨b, hb, hg⟩ := columnsPlan_writes hop htouch
    rcases hg with heq | hbeside
    · exact hnodup.1 ((Loc.mk.inj heq).2 ▸ mem_map_of_mem hb)
    · exact hhead b hb hbeside

lemma schemaPlan_run (hstop : (schemaPlan tbl dir).stop = none)
    (h : runAll (schemaPlan tbl dir).ops disk = some disk') :
    (⟨dir, dotD⟩ : Loc).path < pathMax ∧ ∃ schema, schemaOf tbl = some schema ∧
      disk' ⟨dir, dotD⟩ = some (schemaBytes schema) := by
  rw [schemaPlan] at hstop h
  cases hs : schemaOf tbl with
  | none =>
    rw [hs] at hstop
    cases hstop
  | some schema =>
    rw [hs] at hstop h
    dsimp only at hstop h
    split_ifs at hstop h with hpath
    · cases hstop
    · cases hstop
    · obtain ⟨d, hrep, hlink⟩ := runAll_split h
      have hframe := linkOps_frame (g := ⟨dir, dotD⟩) (runAll_done hlink).stops (name_notMem_tail dotD)
      exact ⟨not_le.mp hpath, schema, rfl, hframe.trans (runAll_replace hrep)⟩

lemma tablePlan_parts_run (hstop : (tablePlan pnames target tbl dir).stop = none)
    (h : runAll (tablePlan pnames target tbl dir).ops disk = some disk') :
    ∃ d d', (columnsPlan pnames target dir emptyStrs tbl).stop = none ∧
      runAll (columnsPlan pnames target dir emptyStrs tbl).ops disk = some d ∧
      (schemaPlan tbl dir).stop = none ∧ runAll (schemaPlan tbl dir).ops d = some d' ∧
        runAll [.sweep (splaySweepStale tbl dir)] d' = some disk' := by
  rw [tablePlan] at hstop h
  obtain ⟨hboth, -⟩ := stop_andThen hstop
  obtain ⟨hcols, hschema⟩ := stop_andThen hboth
  rw [andThen_of_none hboth, andThen_of_none hcols] at h
  obtain ⟨d', hd', hsweep⟩ := runAll_split h
  obtain ⟨d, hd, hd'⟩ := runAll_split hd'
  exact ⟨d, d', hcols, hd, hschema, hd', hsweep⟩

lemma tablePlan_schema_run (hstop : (tablePlan pnames target tbl dir).stop = none)
    (h : runAll (tablePlan pnames target tbl dir).ops disk = some disk') :
    (⟨dir, dotD⟩ : Loc).path < pathMax ∧ ∃ schema, schemaOf tbl = some schema ∧
      disk' ⟨dir, dotD⟩ = some (schemaBytes schema) := by
  obtain ⟨d, d', -, -, hschema, hd', hsweep⟩ := tablePlan_parts_run hstop h
  obtain ⟨hpath, schema, hs, hfile⟩ := schemaPlan_run hschema hd'
  have hsame : disk' ⟨dir, dotD⟩ = d' ⟨dir, dotD⟩ :=
    (runAll_done hsweep).stops.frame fun op hop htouch => (sweep_touches hop htouch).2.1 rfl
  exact ⟨hpath, schema, hs, hsame.trans hfile⟩

lemma tablePlan_run (hsafe : ∀ c ∈ tbl, splayColNameSafe c.name = true) (hnodup : (tbl.map Column.name).Nodup)
    (hclob : Unclobbered dir tbl)
    (hstop : (tablePlan pnames target tbl dir).stop = none)
    (h : runAll (tablePlan pnames target tbl dir).ops disk = some disk') :
    (∀ c ∈ tbl, WrittenAs pnames target disk' dir c) ∧ (⟨dir, dotD⟩ : Loc).path < pathMax ∧
      ∃ schema, schemaOf tbl = some schema ∧ disk' ⟨dir, dotD⟩ = some (schemaBytes schema) := by
  obtain ⟨hpath, schema, hs, hfile⟩ := tablePlan_schema_run hstop h
  refine ⟨fun c hc => ?_, hpath, schema, hs, hfile⟩
  obtain ⟨d, d', hcols, hd, -, hd', hsweep⟩ := tablePlan_parts_run hstop h
  obtain ⟨hlen, bs, henc, hbs⟩ := columnsPlan_run hsafe hnodup hclob hcols hd c hc
  have hkeep := schemaPlan_frame (runAll_done hd').stops (family_head (hsafe c hc) mem_cons_self)
  have hsame : disk' ⟨dir, c.name⟩ = d' ⟨dir, c.name⟩ :=
    (runAll_done hsweep).stops.frame fun op hop htouch => (sweep_touches hop htouch).2.2 c hc rfl
  exact ⟨hlen, bs, henc, hsame.trans (hkeep.trans hbs)⟩

/-! The paths that a whole save leaves as they were, and those it leaves without a file. -/

def linkText (f : Loc) (link : Option Bytes) : List Loc :=
  match link with
  | none | some [] => []
  | some (_ :: _) => if pathMax ≤ f.path + 10 then [] else [f.link]

def Column.remains (dir : Bytes) (c : Column) : List Loc := ⟨dir, c.name⟩ :: linkText ⟨dir, c.name⟩ c.target

def Untouched (dir : Bytes) (tbl : List Column) (f : Loc) : Prop :=
  (∀ b ∈ tbl, f ≠ ⟨dir, b.name⟩ ∧ f ∉ b.beside dir) ∧ f ∉ schemaPlaces dir

def Spared (dir : Bytes) (tbl : List Column) (f : Loc) : Prop :=
  Untouched dir tbl f ∧ splaySweepStale tbl dir f = false

def Passing (dir : Bytes) (tbl : List Column) (f : Loc) : Prop := (∀ b ∈ tbl, f ∉ b.remains dir) ∧ f ≠ ⟨dir, dotD⟩

lemma Apart.spared (hsafe : ∀ c ∈ tbl, splayColNameSafe c.name = true) (h : Apart f dir) : Spared dir tbl f := by
  refine ⟨⟨fun b hb => ?_, fun hf => ?_⟩, ?_⟩
  · have hfam : ∀ n ∈ family b.name, f ≠ ⟨dir, n⟩ := by
      rintro n hn rfl
      exact family_head (hsafe b hb) hn (h rfl).1
    refine ⟨hfam b.name mem_cons_self, fun hf => ?_⟩
    obtain ⟨n, hn, heq⟩ := beside_family hf
    exact hfam n (mem_of_mem_tail hn) heq
  · obtain ⟨n, hn, rfl⟩ := schemaPlaces_names hf
    exact (h rfl).2 hn
  · by_contra hne
    have htouch : (Op.sweep (splaySweepStale tbl dir)).Touches f := by simpa [Op.Touches] using hne
    have hstale := sweep_touches (mem_singleton_self _) htouch
    exact hstale.2.1 (h hstale.1).1

lemma tablePlan_spares (h : Stops (tablePlan pnames target tbl dir).ops disk disk') (hg : Spared dir tbl g) :
    disk' g = disk g := by
  refine h.frame fun op hop htouch => ?_
  rw [tablePlan] at hop
  rcases mem_andThen hop with hop | hop
  · rcases mem_andThen hop with hop | hop
    · obtain ⟨b, hb, hwritten⟩ := columnsPlan_writes hop htouch
      exact hwritten.elim (hg.1.1 b hb).1 (hg.1.1 b hb).2
    · exact hg.1.2 (schemaPlan_writes hop htouch)
  · obtain rfl := mem_singleton.mp hop
    exact Bool.eq_false_iff.mp hg.2 htouch

lemma linkOps_gone {link : Option Bytes} (h : runAll (linkOps f link) disk = some disk')
    (hg : g ∈ linkNames f link) (htext : g ∉ linkText f link) :
    disk' g = none := by
  rw [linkNames.eq_def] at hg
  rw [linkOps.eq_def] at h
  by_cases hpath : pathMax ≤ f.path + 6
  · rw [if_pos hpath] at hg
    cases hg
  · rw [if_neg hpath] at hg h
    cases link with
    | none =>
      obtain rfl := mem_singleton.mp hg
      cases h
      exact put_self ..
    | some bs =>
      cases bs with
      | nil => cases hg
      | cons b bs =>
        dsimp only at hg h
        rw [linkText] at htext
        split_ifs at hg h htext with hlong
        · cases hg
        · cases h
          have hne : g ≠ f.link := fun heq => htext (mem_singleton.mpr heq)
          obtain rfl := mem_singleton.mp ((mem_cons.mp hg).resolve_left hne)
          rw [put_of_ne _ _ hne, put_self]

lemma written_gone {link : Option Bytes} {bs : Bytes} {checked : Bool}
    (h : runAll (replace f.tmp f bs checked ++ linkOps f link) disk = some disk')
    (hg : g ∈ f.tmp :: linkNames f link) (htext : g ∉ linkText f link) : disk' g = none := by
  obtain ⟨d, hrep, hlink⟩ := runAll_split h
  by_cases hnames : g ∈ linkNames f link
  · exact linkOps_gone hlink hnames htext
  · obtain rfl := (mem_cons.mp hg).resolve_right hnames
    rw [(runAll_done hlink).stops.frame fun op hop htouch => hnames (linkOps_touches hop htouch)]
    exact runAll_replace_gone hrep fun heq => append_ne (by decide) (congrArg Loc.name heq)

lemma columnsPlan_gone (hsafe : ∀ c ∈ tbl, splayColNameSafe c.name = true)
    (hstop : (columnsPlan pnames target dir schema tbl).stop = none)
    (h : runAll (columnsPlan pnames target dir schema tbl).ops disk = some disk')
    (hremains : ∀ b ∈ tbl, g ∉ b.remains dir) (hg : ∃ b ∈ tbl, g ∈ b.beside dir) : disk' g = none := by
  induction tbl generalizing schema disk with
  | nil => simp at hg
  | cons c cs ih =>
    obtain ⟨schema', d, hfirst, hd, hrest, hrun⟩ := columnsPlan_cons_run (hsafe c mem_cons_self) hstop h
    by_cases hlater : ∃ b ∈ cs, g ∈ b.beside dir
    · exact ih (fun b hb => hsafe b (mem_cons_of_mem _ hb)) hrest hrun
        (fun b hb => hremains b (mem_cons_of_mem _ hb)) hlater
    · -- no later column writes there, so what this one removed stays removed
      have hbeside : g ∈ c.beside dir := by
        obtain ⟨b, hb, hg⟩ := hg
        rcases mem_cons.mp hb with rfl | hb
        · exact hg
        · exact absurd ⟨b, hb, hg⟩ hlater
      have hkeep : disk' g = d g := (runAll_done hrun).stops.frame fun op hop htouch => by
        obtain ⟨b, hb, hown | hg⟩ := columnsPlan_writes hop htouch
        · exact hremains b (mem_cons_of_mem _ hb) (hown ▸ mem_cons_self)
        · exact hlater ⟨b, hb, hg⟩
      obtain ⟨-, bs, checked, -, hops⟩ := columnPlan_ops (hsafe c mem_cons_self) hfirst
      rw [hops] at hd
      exact hkeep.trans (written_gone hd hbeside fun htext => hremains c mem_cons_self (mem_cons_of_mem _ htext))

lemma columnsPlan_clobbered (hsafe : ∀ c ∈ tbl, splayColNameSafe c.name = true)
    (hnodup : (tbl.map Column.name).Nodup) (hstop : (columnsPlan pnames target dir schema tbl).stop = none)
    (h : runAll (columnsPlan pnames target dir schema tbl).ops disk = some disk')
    (htext : ∀ a ∈ tbl, ∀ b ∈ tbl, (⟨dir, a.name⟩ : Loc) ∉ linkText ⟨dir, b.name⟩ b.target)
    (hclob : ¬ Unclobbered dir tbl) :
    ∃ c ∈ tbl, disk' ⟨dir, c.name⟩ = none := by
  induction tbl generalizing schema disk with
  | nil => exact absurd .nil hclob
  | cons c cs ih =>
    obtain ⟨schema', d, -, -, hrest, hrun⟩ := columnsPlan_cons_run (hsafe c mem_cons_self) hstop h
    rw [map_cons, nodup_cons] at hnodup
    have hsafe' : ∀ b ∈ cs, splayColNameSafe b.name = true := fun b hb => hsafe b (mem_cons_of_mem _ hb)
    by_cases htail : Unclobbered dir cs
    · refine ⟨c, mem_cons_self, columnsPlan_gone hsafe' hrest hrun (fun b hb hin => ?_) ?_⟩
      · rcases mem_cons.mp hin with heq | hin
        · exact hnodup.1 ((Loc.mk.inj heq).2 ▸ mem_map_of_mem hb)
        · exact htext c mem_cons_self b (mem_cons_of_mem _ hb) hin
      · by_contra hnone
        exact hclob (pairwise_cons.mpr ⟨fun b hb hin => hnone ⟨b, hb, hin⟩, htail⟩)
    · obtain ⟨b, hb, hgone⟩ := ih hsafe' hnodup.2 hrest hrun
        (fun a ha b hb => htext a (mem_cons_of_mem _ ha) b (mem_cons_of_mem _ hb)) htail
      exact ⟨b, mem_cons_of_mem _ hb, hgone⟩

lemma schemaPlan_gone (hstop : (schemaPlan tbl dir).stop = none)
    (h : runAll (schemaPlan tbl dir).ops disk = some disk')
    (hg : g ∈ schemaPlaces dir) (hne : g ≠ ⟨dir, dotD⟩) : disk' g = none := by
  rw [schemaPlan] at hstop h
  cases hs : schemaOf tbl with
  | none =>
    rw [hs] at hstop
    cases hstop
  | some schema =>
    rw [hs] at hstop h
    dsimp only at hstop h
    split_ifs at hstop h
    · cases hstop
    · cases hstop
    · simp only [schemaPlaces, mem_cons, hne, false_or] at hg
      exact written_gone h (mem_cons.mpr hg) not_mem_nil

lemma tablePlan_gone (hsafe : ∀ c ∈ tbl, splayColNameSafe c.name = true)
    (hstop : (tablePlan pnames target tbl dir).stop = none)
    (h : runAll (tablePlan pnames target tbl dir).ops disk = some disk') (hpass : Passing dir tbl g)
    (hg : ¬ Spared dir tbl g) : disk' g = none := by
  obtain ⟨d, d', hcols, hd, hschema, hd', hsweep⟩ := tablePlan_parts_run hstop h
  cases hsweep
  by_cases hstale : splaySweepStale tbl dir g = true
  · exact if_pos hstale
  refine (if_neg hstale).trans ?_
  by_cases hplaces : g ∈ schemaPlaces dir
  · exact schemaPlan_gone hschema hd' hplaces hpass.2
  rw [(runAll_done hd').stops.frame fun op hop htouch => hplaces (schemaPlan_writes hop htouch)]
  refine columnsPlan_gone hsafe hcols hd hpass.1 ?_
  by_contra hbeside
  refine hg
    ⟨⟨fun b hb => ⟨fun hown => hpass.1 b hb (hown ▸ mem_cons_self), fun hin => hbeside ⟨b, hb, hin⟩⟩, hplaces⟩, ?_⟩
  exact Bool.eq_false_iff.mpr hstale

lemma tablePlan_clobbered (hsafe : ∀ c ∈ tbl, splayColNameSafe c.name = true)
    (hnodup : (tbl.map Column.name).Nodup)
    (hstop : (tablePlan pnames target tbl dir).stop = none)
    (h : runAll (tablePlan pnames target tbl dir).ops disk = some disk')
    (htext : ∀ a ∈ tbl, ∀ b ∈ tbl, (⟨dir, a.name⟩ : Loc) ∉ linkText ⟨dir, b.name⟩ b.target)
    (hclob : ¬ Unclobbered dir tbl) :
    ∃ c ∈ tbl, disk' ⟨dir, c.name⟩ = none := by
  obtain ⟨d, d', hcols, hd, -, hd', hsweep⟩ := tablePlan_parts_run hstop h
  obtain ⟨c, hc, hgone⟩ := columnsPlan_clobbered hsafe hnodup hcols hd htext hclob
  have hkeep := schemaPlan_frame (runAll_done hd').stops (family_head (hsafe c hc) mem_cons_self)
  have hsame : disk' ⟨dir, c.name⟩ = d' ⟨dir, c.name⟩ :=
    (runAll_done hsweep).stops.frame fun op hop htouch => (sweep_touches hop htouch).2.2 c hc rfl
  exact ⟨c, hc, hsame.trans (hkeep.trans hgone)⟩

lemma tablePlan_passes (hsafe : ∀ c ∈ tbl, splayColNameSafe c.name = true)
    (hstop : (tablePlan pnames target tbl dir).stop = none)
    (h : runAll (tablePlan pnames target tbl dir).ops disk = some disk') (hpass : Passing dir tbl g) :
      disk' g = disk g ∨ disk' g = none := by
  by_cases hg : Spared dir tbl g
  · exact .inl (tablePlan_spares (runAll_done h).stops hg)
  · exact .inr (tablePlan_gone hsafe hstop h hpass hg)

lemma raySplaySave_run (hcur : CachedCurrent disk cached sym)
    (hstop : (raySplaySave pnames disk cached tbl dir sym).stop = none)
    (h : runAll (raySplaySave pnames disk cached tbl dir sym).ops disk = some disk') :
    (persistedNames tbl).Nodup ∧ ∃ target e,
      (tablePlan pnames target tbl dir).stop = none ∧ runAll (tablePlan pnames target tbl dir).ops e = some disk' ∧
      ((tableHasSymCols tbl = false ∧ target = none ∧ e = disk) ∨ ∃ f d V k U, sym = some f ∧ target = some d ∧
        Holds d V k ∧ V <+: U ∧
        openSymfile (e f) = .ok (some U) ∧ (∀ d₀ V₀ k₀, cached = some d₀ → Holds d₀ V₀ k₀ → V₀ <+: V) ∧
          tableHasSymCols tbl = true) := by
  rw [raySplaySave.eq_def] at hstop h
  by_cases hnodup : (persistedNames tbl).Nodup
  · rw [if_neg (not_not.mpr hnodup)] at hstop h
    refine ⟨hnodup, ?_⟩
    cases hpre : preflightAll tbl with
    | error err =>
      rw [hpre] at hstop
      cases hstop
    | ok u =>
      rw [hpre] at hstop h
      dsimp only at hstop h
      by_cases hsyms : tableHasSymCols tbl = false
      · rw [if_pos hsyms] at hstop h
        exact ⟨none, disk, hstop, h, .inl ⟨hsyms, rfl, rfl⟩⟩
      · rw [if_neg hsyms] at hstop h
        cases hsym : sym with
        | none =>
          rw [hsym] at hstop
          cases hstop
        | some f =>
          rw [hsym] at hstop h
          dsimp only at hstop h
          split_ifs at hstop h
          · cases hstop
          · cases hm : mergeVocabulary (disk f) cached tbl with
            | error s =>
              rw [hm] at hstop
              cases hstop
            | ok d =>
              rw [hm] at hstop h
              dsimp only at hstop h
              obtain ⟨hflush, htable⟩ := stop_andThen hstop
              rw [andThen_of_none hflush] at h
              obtain ⟨e, he, hrest⟩ := runAll_split h
              obtain ⟨V, k, hh, hp, hpre, hne⟩ : ∃ V k, Holds d V k ∧ Persisted (disk f) V k ∧
                  (∀ d₀ V₀ k₀, cached = some d₀ → Holds d₀ V₀ k₀ → V₀ <+: V) ∧ V ≠ [] := by
                cases hcached : cached with
                | none =>
                  obtain ⟨V, k, hh, hp, -, hne⟩ := mergeVocabulary_current (hcur f hsym) (.inl rfl) hm
                  exact ⟨V, k, hh, hp, by rintro _ _ _ ⟨⟩, hne⟩
                | some d₀ =>
                  obtain ⟨V₀, k₀, hh₀, -⟩ := hcur f hsym d₀ hcached
                  obtain ⟨V, k, hh, hp, hpre, hne⟩ :=
                    mergeVocabulary_current (hcur f hsym) (.inr ⟨d₀, V₀, k₀, hcached, hh₀, prefix_rfl⟩) hm
                  refine ⟨V, k, hh, hp, ?_, hne⟩
                  rintro d₁ V₁ k₁ ⟨⟩ hh₁
                  rwa [hh₁.unique hh₀]
              obtain ⟨image, U, hfile, hdec, hVU⟩ := flushPlan_done hh hp hne hflush (runAll_done he)
              refine ⟨some d, e, htable, hrest,
                .inr ⟨f, d, V, k, U, rfl, rfl, hh, hVU, ?_, hpre, by simpa using hsyms⟩⟩
              rw [hfile]
              refine openSymfile_some hdec fun _ => ?_
              rw [← Domain.getElem?_of_isPrefix hVU (length_pos_of_ne_nil hne)]
              exact hh.root hne
  · rw [if_pos hnodup] at hstop
    cases hstop

end Rayforce.Splay
