import Rayforce.Splay.Save

namespace Rayforce.Splay

open Library.Words Library.Files List
open Rayforce.Store (Obj StrVec Desc Extra)
open Rayforce.Domain (SymDomain)

variable {names dir : Bytes} {tbl : List Column} {f g sym : Loc} {op : Op Loc} {disk disk' e : Disk Loc}
variable {p q : Plan} {link : Option Bytes} {b : Column}

lemma andThen_of_none (h : p.stop = none) : p.andThen q = ⟨p.ops ++ q.ops, q.stop⟩ := by
  rw [Plan.andThen, h]

lemma andThen_of_some {s : Stop} (h : p.stop = some s) : p.andThen q = p := by
  rw [Plan.andThen, h]

lemma mem_andThen (h : op ∈ (p.andThen q).ops) : op ∈ p.ops ∨ op ∈ q.ops := by
  cases hp : p.stop with
  | none =>
    rw [andThen_of_none hp] at h
    exact mem_append.mp h
  | some s =>
    rw [andThen_of_some hp] at h
    exact .inl h

lemma stop_andThen (h : (p.andThen q).stop = none) : p.stop = none ∧ q.stop = none := by
  cases hp : p.stop with
  | none =>
    rw [andThen_of_none hp] at h
    exact ⟨rfl, h⟩
  | some s =>
    rw [andThen_of_some hp, hp] at h
    cases h

lemma stops_andThen (h : Stops (p.andThen q).ops disk disk') :
    Stops p.ops disk disk' ∨ p.stop = none ∧ ∃ e, Done p.ops disk e ∧ Stops q.ops e disk' := by
  cases hp : p.stop with
  | none =>
    rw [andThen_of_none hp] at h
    rcases h.split with hin | ⟨e, he, hrest⟩
    · exact .inl hin
    · exact .inr ⟨rfl, e, he, hrest⟩
  | some s =>
    rw [andThen_of_some hp] at h
    exact .inl h

lemma safe_head {n : Bytes} (h : splayColNameSafe n = true) : ∃ b rest, n = b :: rest ∧ b ≠ 0x2E := by
  cases n with
  | nil => cases h
  | cons b rest =>
    refine ⟨b, rest, rfl, ?_⟩
    rintro rfl
    simp [splayColNameSafe] at h

def family (n : Bytes) : List Bytes := [n, n ++ dotTmp, n ++ dotLink, n ++ dotLink ++ dotTmp]

lemma family_head {n m : Bytes} (h : splayColNameSafe n = true) (hm : m ∈ family n) : m.head? ≠ some 0x2E := by
  obtain ⟨b, rest, rfl, hb⟩ := safe_head h
  simp only [family, mem_cons, not_mem_nil, or_false] at hm
  rcases hm with rfl | rfl | rfl | rfl <;> simpa using hb

def linkNames (f : Loc) (link : Option Bytes) : List Loc :=
  if pathMax ≤ f.path + 6 then []
  else
    match link with
    | none => [f.link]
    | some [] => []
    | some (_ :: _) => if pathMax ≤ f.path + 10 then [] else [f.link, f.link.tmp]

lemma linkOps_touches (hop : op ∈ linkOps f link) (h : op.Touches g) : g ∈ linkNames f link := by
  cases link with
  | none =>
    rw [linkOps] at hop
    split_ifs at hop with hpath
    · cases hop
    · obtain rfl := mem_singleton.mp hop
      rw [linkNames, if_neg hpath]
      exact mem_singleton.mpr h
  | some bs =>
    cases bs with
    | nil =>
      rw [linkOps] at hop
      split_ifs at hop <;> cases hop
    | cons b bs =>
      rw [linkOps] at hop
      split_ifs at hop with hpath hlong
      · cases hop
      · cases hop
      · obtain rfl := mem_singleton.mp hop
        simp only [linkNames, if_neg hpath, if_neg hlong, mem_cons, not_mem_nil, or_false]
        exact h.symm

lemma linkNames_cases (h : g ∈ linkNames f link) : g = f.link ∨ g = f.link.tmp ∧ link ≠ none := by
  rw [linkNames.eq_def] at h
  by_cases hpath : pathMax ≤ f.path + 6
  · rw [if_pos hpath] at h
    cases h
  · rw [if_neg hpath] at h
    split at h
    · exact .inl (mem_singleton.mp h)
    · cases h
    · split_ifs at h
      · cases h
      · simp only [mem_cons, not_mem_nil, or_false] at h
        exact h.imp_right fun heq => ⟨heq, by rintro ⟨⟩⟩

def Column.beside (dir : Bytes) (c : Column) : List Loc :=
  (⟨dir, c.name⟩ : Loc).tmp :: linkNames ⟨dir, c.name⟩ c.target

lemma columnPlan_writes {names : List Bytes} {target : Option SymDomain} {c : Column}
    (hop : op ∈ (columnPlan names target dir c).ops)
    (h : op.Touches g) : splayColNameSafe c.name = true ∧ (g = ⟨dir, c.name⟩ ∨ g ∈ c.beside dir) := by
  rw [columnPlan] at hop
  split_ifs at hop with hsafe
  · cases hop
  · cases hop
  · cases hop
  · refine ⟨by simpa using hsafe, ?_⟩
    split at hop
    · obtain rfl := mem_singleton.mp hop
      exact .inr (mem_cons.mpr (.inl h))
    · rcases mem_append.mp hop with hop | hop
      · rcases replace_touches hop h with rfl | rfl
        · exact .inr mem_cons_self
        · exact .inl rfl
      · exact .inr (mem_cons_of_mem _ (linkOps_touches hop h))

lemma beside_family {c : Column} (h : g ∈ c.beside dir) : ∃ n ∈ (family c.name).tail, g = ⟨dir, n⟩ := by
  rcases mem_cons.mp h with rfl | h
  · exact ⟨c.name ++ dotTmp, by simp [family], rfl⟩
  · rcases linkNames_cases h with rfl | ⟨rfl, -⟩
    · exact ⟨c.name ++ dotLink, by simp [family], rfl⟩
    · exact ⟨c.name ++ dotLink ++ dotTmp, by simp [family], rfl⟩

lemma columnPlan_touches {names : List Bytes} {target : Option SymDomain} {c : Column}
    (hop : op ∈ (columnPlan names target dir c).ops)
    (h : op.Touches g) : splayColNameSafe c.name = true ∧ ∃ n ∈ family c.name, g = ⟨dir, n⟩ := by
  obtain ⟨hsafe, hg⟩ := columnPlan_writes hop h
  refine ⟨hsafe, ?_⟩
  rcases hg with rfl | hg
  · exact ⟨c.name, mem_cons_self, rfl⟩
  · obtain ⟨n, hn, rfl⟩ := beside_family hg
    exact ⟨n, mem_cons_of_mem _ hn, rfl⟩

lemma columnsPlan_touches {names : List Bytes} {target : Option SymDomain} {schema : StrVec}
    (hop : op ∈ (columnsPlan names target dir schema tbl).ops)
    (h : op.Touches g) : ∃ c ∈ tbl, splayColNameSafe c.name = true ∧ ∃ n ∈ family c.name, g = ⟨dir, n⟩ := by
  induction tbl generalizing schema with
  | nil => cases hop
  | cons c cs ih =>
    rw [columnsPlan] at hop
    rcases mem_andThen hop with hop | hop
    · exact ⟨c, mem_cons_self, columnPlan_touches hop h⟩
    · have hrest : ∀ schema, op ∈ (columnsPlan names target dir schema cs).ops →
          ∃ c' ∈ c :: cs, splayColNameSafe c'.name = true ∧ ∃ n ∈ family c'.name, g = ⟨dir, n⟩ := by
        intro schema hop
        obtain ⟨c', hc', hres⟩ := ih hop
        exact ⟨c', mem_cons_of_mem _ hc', hres⟩
      split_ifs at hop
      · exact hrest _ hop
      · split at hop
        · cases hop
        · exact hrest _ hop

def schemaNames : List Bytes := [dotD, dotD ++ dotTmp, dotD ++ dotLink]

def schemaPlaces (dir : Bytes) : List Loc := (⟨dir, dotD⟩ : Loc).tmp :: ⟨dir, dotD⟩ :: linkNames ⟨dir, dotD⟩ none

lemma schemaPlan_writes (hop : op ∈ (schemaPlan tbl dir).ops) (h : op.Touches g) : g ∈ schemaPlaces dir := by
  rw [schemaPlan] at hop
  split at hop
  · cases hop
  · split_ifs at hop
    · cases hop
    · cases hop
    · rcases mem_append.mp hop with hop | hop
      · rcases replace_touches hop h with rfl | rfl
        · exact mem_cons_self
        · exact mem_cons_of_mem _ mem_cons_self
      · exact mem_cons_of_mem _ (mem_cons_of_mem _ (linkOps_touches hop h))

lemma schemaPlaces_names (h : g ∈ schemaPlaces dir) : ∃ n ∈ schemaNames, g = ⟨dir, n⟩ := by
  simp only [schemaPlaces, mem_cons] at h
  rcases h with rfl | rfl | h
  · exact ⟨dotD ++ dotTmp, by simp [schemaNames], rfl⟩
  · exact ⟨dotD, by simp [schemaNames], rfl⟩
  · rcases linkNames_cases h with rfl | ⟨-, hlink⟩
    · exact ⟨dotD ++ dotLink, by simp [schemaNames], rfl⟩
    · exact absurd rfl hlink

lemma schemaPlan_touches (hop : op ∈ (schemaPlan tbl dir).ops) (h : op.Touches g) :
    ∃ n ∈ schemaNames, g = ⟨dir, n⟩ :=
  schemaPlaces_names (schemaPlan_writes hop h)

lemma flushPlan_touches {file : Option Bytes} {d : SymDomain} (hop : op ∈ (flushPlan sym file d).ops)
    (h : op.Touches g) :
    g = sym ∨ g = sym.tmp ∨ g = sym.lk := by
  rw [flushPlan] at hop
  split_ifs at hop
  · cases hop
  · split at hop
    · obtain rfl := mem_singleton.mp hop
      exact .inr (.inr h)
    · obtain rfl := mem_singleton.mp hop
      exact .inr (.inr h)
    · rcases mem_cons.mp hop with rfl | hop
      · exact .inr (.inr h)
      · obtain rfl := mem_singleton.mp hop
        exact .inr (.inl h)
    · rcases mem_cons.mp hop with rfl | hop
      · exact .inr (.inr h)
      · rcases replace_touches hop h with rfl | rfl
        · exact .inr (.inl rfl)
        · exact .inl rfl

lemma sweep_touches (hop : op ∈ [Op.sweep (splaySweepStale tbl dir)]) (h : op.Touches g) :
    g.dir = dir ∧ g.name.head? ≠ some 0x2E ∧ ∀ c ∈ tbl, g.name ≠ c.name := by
  obtain rfl := mem_singleton.mp hop
  have hstale : splaySweepStale tbl dir g = true := h
  simp only [splaySweepStale, Bool.and_eq_true, decide_eq_true_eq, bne_iff_ne, ne_eq, Bool.not_eq_true',
    tableHasColNamed, List.any_eq_false] at hstale
  obtain ⟨⟨⟨⟨hdir, hdot⟩, hcol⟩, -⟩, -⟩ := hstale
  exact ⟨hdir, hdot, fun c hc heq => hcol c hc heq.symm⟩

section

variable {pnames : List Bytes} {target : Option SymDomain} {schema : StrVec} {c : Column} {n : Bytes}

lemma append_ne {a s : Bytes} (hs : s ≠ []) : a ++ s ≠ a := fun h => hs (append_right_eq_self.mp h)

lemma name_notMem_tail (a : Bytes) : a ∉ (family a).tail := by
  have htmp : a ++ dotTmp ≠ a := append_ne (by decide)
  have hlink : a ++ dotLink ≠ a := append_ne (by decide)
  have hboth : a ++ dotLink ++ dotTmp ≠ a := by
    rw [append_assoc]
    exact append_ne (by decide)
  simp only [family, tail_cons, mem_cons, not_mem_nil, or_false, not_or]
  exact ⟨htmp.symm, hlink.symm, hboth.symm⟩

lemma linkOps_frame (h : Stops (linkOps f link) disk disk') (hn : g.name ∉ (family f.name).tail) :
    disk' g = disk g := by
  refine h.frame fun op hop htouch => hn ?_
  rcases linkNames_cases (linkOps_touches hop htouch) with rfl | ⟨rfl, -⟩ <;> simp [family, Loc.link, Loc.tmp]

lemma encodeColumn_plain {bs : Bytes} (hparts : symParts c.obj = none)
    (h : encodeColumn pnames target c = .ok bs) :
    Store.rayColSave pnames c.extra c.obj = .ok bs := by
  rw [encodeColumn, hparts] at h
  dsimp only at h
  split at h
  · cases h
  · cases h
  · rename_i hs
    exact Except.ok.inj h ▸ hs

lemma encodeColumn_syms {bs : Bytes} {v : Store.SymVec} {offset len : ℕ}
    (hparts : symParts c.obj = some (v, offset, len))
    (h : encodeColumn pnames target c = .ok bs) :
      ∃ d, target = some d ∧ rayColSaveSymEncoded d c v offset len = .ok bs := by
  rw [encodeColumn, hparts] at h
  cases target with
  | none => cases h
  | some d => exact ⟨d, rfl, h⟩

def Encoded (pnames : List Bytes) (target : Option SymDomain) (c : Column) (p : Bytes) : Prop :=
  ∃ bs, encodeColumn pnames target c = .ok bs ∧ p <+: bs ∧ ((symParts c.obj).isSome = true → p = bs)

lemma columnPlan_done (hsafe : splayColNameSafe c.name = true)
    (hstop : (columnPlan pnames target dir c).stop = none)
    (h : Done (columnPlan pnames target dir c).ops disk disk') :
      ∃ p, Encoded pnames target c p ∧ disk' ⟨dir, c.name⟩ = some p := by
  rw [columnPlan] at hstop h
  split_ifs at hstop h with hunsafe
  · rw [hsafe] at hunsafe
    cases hunsafe
  · cases hstop
  · cases hstop
  · cases henc : encodeColumn pnames target c with
    | error s =>
      rw [henc] at hstop
      cases hstop
    | ok bs =>
      rw [henc] at h
      obtain ⟨d, hrep, hlink⟩ := h.split
      obtain ⟨p, hp, hall, hd⟩ := hrep.replace
      exact ⟨p, ⟨bs, henc, hp, hall⟩, (linkOps_frame hlink.stops (name_notMem_tail c.name)).trans hd⟩

lemma columnPlan_stops (h : Stops (columnPlan pnames target dir c).ops disk disk')
    (hn : n ∉ (family c.name).tail) :
    disk' ⟨dir, n⟩ = disk ⟨dir, n⟩ ∨ n = c.name ∧ ∃ p, Encoded pnames target c p ∧ disk' ⟨dir, n⟩ = some p := by
  by_cases hname : n = c.name
  · subst hname
    rw [columnPlan] at h
    split_ifs at h
    · exact .inl (h.frame (by simp))
    · exact .inl (h.frame (by simp [Plan.halt]))
    · exact .inl (h.frame (by simp [Plan.halt]))
    · cases henc : encodeColumn pnames target c with
      | error s =>
        rw [henc] at h
        refine .inl (h.frame fun op hop htouch => hn ?_)
        obtain rfl := mem_singleton.mp hop
        have hloc : (⟨dir, c.name⟩ : Loc) = ⟨dir, c.name ++ dotTmp⟩ := htouch
        simp [family, (Loc.mk.inj hloc).2.symm]
      | ok bs =>
        rw [henc] at h
        have hne : (⟨dir, c.name⟩ : Loc) ≠ (⟨dir, c.name⟩ : Loc).tmp :=
          fun heq => append_ne (by decide) (Loc.mk.inj heq).2.symm
        rcases h.split with hrep | ⟨d, hdone, hlink⟩
        · rcases hrep.replace hne with hold | ⟨p, hp, hall, hd⟩
          · exact .inl hold
          · exact .inr ⟨rfl, p, ⟨bs, henc, hp, hall⟩, hd⟩
        · obtain ⟨p, hp, hall, hd⟩ := hdone.replace
          exact .inr ⟨rfl, p, ⟨bs, henc, hp, hall⟩, (linkOps_frame hlink hn).trans hd⟩
  · refine .inl (h.frame fun op hop htouch => ?_)
    obtain ⟨-, m, hm, hloc⟩ := columnPlan_touches hop htouch
    obtain rfl := (Loc.mk.inj hloc).2
    rcases mem_cons.mp hm with heq | htail
    · exact hname heq
    · exact hn htail

structure OwnFile (tbl : List Column) (c : Column) : Prop where
  mem : c ∈ tbl
  safe : splayColNameSafe c.name = true
  apart : ∀ b ∈ tbl, splayColNameSafe b.name = true → c.name ∉ (family b.name).tail

lemma columnsPlan_frame (h : Stops (columnsPlan pnames target dir schema tbl).ops disk disk')
    (hg : ∀ c ∈ tbl, splayColNameSafe c.name = true → ∀ m ∈ family c.name, g ≠ ⟨dir, m⟩) : disk' g = disk g := by
  refine h.frame fun op hop htouch => ?_
  obtain ⟨c, hc, hsafe, m, hm, hloc⟩ := columnsPlan_touches hop htouch
  exact hg c hc hsafe m hm hloc

lemma mem_persistedNames {a : Bytes} :
    a ∈ persistedNames tbl ↔ (∃ c ∈ tbl, c.name = a) ∧ splayColNameSafe a = true := by
  simp [persistedNames]

lemma persistedNames_cons_safe (h : splayColNameSafe b.name = true) :
    persistedNames (b :: tbl) = b.name :: persistedNames tbl := by
  rw [persistedNames, map_cons, filter_cons_of_pos h]
  rfl

lemma persistedNames_cons_refused (h : splayColNameSafe b.name = false) :
    persistedNames (b :: tbl) = persistedNames tbl := by
  rw [persistedNames, map_cons, filter_cons_of_neg (by simp [h])]
  rfl

lemma columnsPlan_done (hc : OwnFile tbl c) (hnodup : (persistedNames tbl).Nodup)
    (hstop : (columnsPlan pnames target dir schema tbl).stop = none)
    (h : Done (columnsPlan pnames target dir schema tbl).ops disk disk') :
      ∃ p, Encoded pnames target c p ∧ disk' ⟨dir, c.name⟩ = some p := by
  induction tbl generalizing schema disk with
  | nil => exact absurd hc.mem (by simp)
  | cons b cs ih =>
    rw [columnsPlan] at hstop h
    obtain ⟨hfirst, hrest⟩ := stop_andThen hstop
    rw [andThen_of_none hfirst] at h
    obtain ⟨d, hd, hdone⟩ := h.split
    have hlater : c ∈ cs → OwnFile cs c :=
      fun hmem => ⟨hmem, hc.safe, fun a ha => hc.apart a (mem_cons_of_mem _ ha)⟩
    cases hb : splayColNameSafe b.name with
    | false =>
      rw [if_pos hb] at hrest hdone
      rw [persistedNames_cons_refused hb] at hnodup
      rcases mem_cons.mp hc.mem with rfl | hmem
      · have hsafe := hc.safe
        rw [hb] at hsafe
        cases hsafe
      · exact ih (hlater hmem) hnodup hrest hdone
    | true =>
      rw [if_neg (by rw [hb]; nofun)] at hrest hdone
      rw [persistedNames_cons_safe hb, nodup_cons] at hnodup
      cases happ : rayStrVecAppend schema b.name with
      | none =>
        rw [happ] at hrest
        cases hrest
      | some schema' =>
        rw [happ] at hrest hdone
        rcases mem_cons.mp hc.mem with rfl | hmem
        · obtain ⟨p, hp, hdp⟩ := columnPlan_done hb hfirst hd
          refine ⟨p, hp, (columnsPlan_frame hdone.stops fun a ha hsafe m hm hloc => ?_).trans hdp⟩
          obtain rfl := (Loc.mk.inj hloc).2
          rcases mem_cons.mp hm with heq | htail
          · exact hnodup.1 (mem_persistedNames.mpr ⟨⟨a, ha, heq.symm⟩, hb⟩)
          · exact hc.apart a (mem_cons_of_mem _ ha) hsafe htail
        · exact ih (hlater hmem) hnodup.2 hrest hdone

lemma columnsPlan_stops (h : Stops (columnsPlan pnames target dir schema tbl).ops disk disk')
    (hn : ∀ c ∈ tbl, splayColNameSafe c.name = true → n ∉ (family c.name).tail) :
    disk' ⟨dir, n⟩ = disk ⟨dir, n⟩ ∨ ∃ c ∈ tbl, n = c.name ∧ ∃ p, Encoded pnames target c p ∧
      disk' ⟨dir, n⟩ = some p := by
  induction tbl generalizing schema disk with
  | nil =>
    cases h
    exact .inl rfl
  | cons c cs ih =>
    rw [columnsPlan] at h
    have hfirst : ∀ {d : Disk Loc}, Stops (columnPlan pnames target dir c).ops disk d →
      d ⟨dir, n⟩ = disk ⟨dir, n⟩ ∨
        ∃ c' ∈ c :: cs, n = c'.name ∧ ∃ p, Encoded pnames target c' p ∧ d ⟨dir, n⟩ = some p := by
      intro d hd
      cases hsafe : splayColNameSafe c.name with
      | false =>
        rw [columnPlan, if_pos hsafe] at hd
        exact .inl (hd.frame (by simp))
      | true =>
        rcases columnPlan_stops hd (hn c mem_cons_self hsafe) with hold | ⟨hname, hp⟩
        · exact .inl hold
        · exact .inr ⟨c, mem_cons_self, hname, hp⟩
    rcases stops_andThen h with hin | ⟨-, d, hd, hrest⟩
    · exact hfirst hin
    · have hlater : disk' ⟨dir, n⟩ = d ⟨dir, n⟩ ∨ ∃ c' ∈ cs, n = c'.name ∧ ∃ p, Encoded pnames target c' p ∧
          disk' ⟨dir, n⟩ = some p := by
        split_ifs at hrest
        · exact ih hrest fun b hb => hn b (mem_cons_of_mem _ hb)
        · cases happ : rayStrVecAppend schema c.name with
          | none =>
            rw [happ] at hrest
            exact .inl (hrest.frame (by simp [Plan.halt]))
          | some schema' =>
            rw [happ] at hrest
            exact ih hrest fun b hb => hn b (mem_cons_of_mem _ hb)
      rcases hlater with hsame | ⟨c', hc', hp⟩
      · rw [hsame]
        exact hfirst hd.stops
      · exact .inr ⟨c', mem_cons_of_mem _ hc', hp⟩

lemma schemaPlan_stops (h : Stops (schemaPlan tbl dir).ops disk disk') : disk' ⟨dir, dotD⟩ = disk ⟨dir, dotD⟩ ∨
    ∃ schema p, schemaOf tbl = some schema ∧ p <+: schemaBytes schema ∧ disk' ⟨dir, dotD⟩ = some p := by
  rw [schemaPlan] at h
  cases hs : schemaOf tbl with
  | none =>
    rw [hs] at h
    exact .inl (h.frame (by simp [Plan.halt]))
  | some schema =>
    rw [hs] at h
    dsimp only at h
    split_ifs at h
    · exact .inl (h.frame (by simp [Plan.halt]))
    · exact .inl (h.frame (by simp [Plan.halt]))
    · have hne : (⟨dir, dotD⟩ : Loc) ≠ (⟨dir, dotD⟩ : Loc).tmp :=
        fun heq => append_ne (by decide) (Loc.mk.inj heq).2.symm
      rcases h.split with hrep | ⟨d, hdone, hlink⟩
      · rcases hrep.replace hne with hold | ⟨p, hp, -, hd⟩
        · exact .inl hold
        · exact .inr ⟨schema, p, rfl, hp, hd⟩
      · obtain ⟨p, hp, -, hd⟩ := hdone.replace
        exact .inr ⟨schema, p, rfl, hp, (linkOps_frame hlink (name_notMem_tail dotD)).trans hd⟩

lemma schemaPlan_frame (h : Stops (schemaPlan tbl dir).ops disk disk') (hn : n.head? ≠ some 0x2E) :
    disk' ⟨dir, n⟩ = disk ⟨dir, n⟩ := by
  refine h.frame fun op hop htouch => hn ?_
  obtain ⟨m, hm, hloc⟩ := schemaPlan_touches hop htouch
  obtain rfl := (Loc.mk.inj hloc).2
  simp only [schemaNames, dotD, dotTmp, dotLink, mem_cons, not_mem_nil, or_false] at hm
  rcases hm with rfl | rfl | rfl <;> rfl

section

variable (h : Stops (tablePlan pnames target tbl dir).ops disk disk')
include h

lemma tablePlan_schema :
    disk' ⟨dir, dotD⟩ = disk ⟨dir, dotD⟩ ∨ ∃ schema p e, schemaOf tbl = some schema ∧ p <+: schemaBytes schema ∧
      disk' ⟨dir, dotD⟩ = some p ∧
      (columnsPlan pnames target dir emptyStrs tbl).stop = none ∧
        Done (columnsPlan pnames target dir emptyStrs tbl).ops disk e ∧
      ∀ c ∈ tbl, splayColNameSafe c.name = true → disk' ⟨dir, c.name⟩ = e ⟨dir, c.name⟩ := by
  have hdot : ∀ {d : Disk Loc}, Stops (columnsPlan pnames target dir emptyStrs tbl).ops disk d →
      d ⟨dir, dotD⟩ = disk ⟨dir, dotD⟩ := by
    intro d hd
    refine columnsPlan_frame hd fun c hc hsafe m hm hloc => ?_
    obtain rfl := (Loc.mk.inj hloc).2
    exact family_head hsafe hm rfl
  have hcolumn : ∀ {d d' : Disk Loc}, Stops (schemaPlan tbl dir).ops d d' →
    ∀ c ∈ tbl, splayColNameSafe c.name = true →
      d' ⟨dir, c.name⟩ = d ⟨dir, c.name⟩ :=
        fun hd c _ hsafe => schemaPlan_frame hd (family_head hsafe mem_cons_self)
  have hsweep : ∀ {d d' : Disk Loc}, Stops [Op.sweep (splaySweepStale tbl dir)] d d' →
      d' ⟨dir, dotD⟩ = d ⟨dir, dotD⟩ ∧ ∀ c ∈ tbl, d' ⟨dir, c.name⟩ = d ⟨dir, c.name⟩ := by
    intro d d' hd
    exact ⟨hd.frame fun op hop htouch => (sweep_touches hop htouch).2.1 rfl,
      fun c hc => hd.frame fun op hop htouch => (sweep_touches hop htouch).2.2 c hc rfl⟩
  have htwo : ∀ {d : Disk Loc}, Stops
    ((columnsPlan pnames target dir emptyStrs tbl).andThen (schemaPlan tbl dir)).ops disk d →
      d ⟨dir, dotD⟩ = disk ⟨dir, dotD⟩ ∨ ∃ schema p e, schemaOf tbl = some schema ∧ p <+: schemaBytes schema ∧
        d ⟨dir, dotD⟩ = some p ∧
        (columnsPlan pnames target dir emptyStrs tbl).stop = none ∧
          Done (columnsPlan pnames target dir emptyStrs tbl).ops disk e ∧
        ∀ c ∈ tbl, splayColNameSafe c.name = true → d ⟨dir, c.name⟩ = e ⟨dir, c.name⟩ := by
    intro d hd
    rcases stops_andThen hd with hin | ⟨hstop, e, he, hrest⟩
    · exact .inl (hdot hin)
    · rcases schemaPlan_stops hrest with hold | ⟨schema, p, hs, hp, hnew⟩
      · exact .inl (hold.trans (hdot he.stops))
      · exact .inr ⟨schema, p, e, hs, hp, hnew, hstop, he, hcolumn hrest⟩
  rw [tablePlan] at h
  rcases stops_andThen h with hin | ⟨-, d, hd, hrest⟩
  · exact htwo hin
  · obtain ⟨hsame, hcols⟩ := hsweep hrest
    rcases htwo hd.stops with hold | ⟨schema, p, e, hs, hp, hnew, hstop, he, heq⟩
    · exact .inl (hsame.trans hold)
    · exact .inr ⟨schema, p, e, hs, hp, hsame.trans hnew, hstop, he, fun c hc hsafe =>
        (hcols c hc).trans (heq c hc hsafe)⟩

lemma tablePlan_stops (hdot : n.head? ≠ some 0x2E)
    (hn : ∀ c ∈ tbl, splayColNameSafe c.name = true → n ∉ (family c.name).tail) :
    disk' ⟨dir, n⟩ = disk ⟨dir, n⟩ ∨ disk' ⟨dir, n⟩ = none ∨ ∃ c ∈ tbl, n = c.name ∧ ∃ p,
      Encoded pnames target c p ∧ disk' ⟨dir, n⟩ = some p := by
  have htwo : ∀ {d : Disk Loc}, Stops
    ((columnsPlan pnames target dir emptyStrs tbl).andThen (schemaPlan tbl dir)).ops disk d →
      d ⟨dir, n⟩ = disk ⟨dir, n⟩ ∨ ∃ c ∈ tbl, n = c.name ∧ ∃ p, Encoded pnames target c p ∧
        d ⟨dir, n⟩ = some p := by
    intro d hd
    rcases stops_andThen hd with hin | ⟨-, e, he, hrest⟩
    · exact columnsPlan_stops hin hn
    · rw [schemaPlan_frame hrest hdot]
      exact columnsPlan_stops he.stops hn
  rw [tablePlan] at h
  rcases stops_andThen h with hin | ⟨-, d, hd, hrest⟩
  · exact (htwo hin).imp_right .inr
  · rcases hrest.sweep ⟨dir, n⟩ with hsame | hgone
    · rw [hsame]
      exact (htwo hd.stops).imp_right .inr
    · exact .inr (.inl hgone)

end

def Apart (f : Loc) (dir : Bytes) : Prop := f.dir = dir → f.name.head? = some 0x2E ∧ f.name ∉ schemaNames

lemma tablePlan_frame (h : Stops (tablePlan pnames target tbl dir).ops disk disk') (hg : Apart g dir) :
    disk' g = disk g := by
  refine h.frame fun op hop htouch => ?_
  rw [tablePlan] at hop
  rcases mem_andThen hop with hop | hop
  · rcases mem_andThen hop with hop | hop
    · obtain ⟨c, -, hsafe, m, hm, rfl⟩ := columnsPlan_touches hop htouch
      exact family_head hsafe hm (hg rfl).1
    · obtain ⟨m, hm, rfl⟩ := schemaPlan_touches hop htouch
      exact (hg rfl).2 hm
  · obtain ⟨hdir, hdot, -⟩ := sweep_touches hop htouch
    exact hdot (hg hdir).1

end

end Rayforce.Splay
