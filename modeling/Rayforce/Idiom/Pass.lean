import Rayforce.Idiom.Preserved

namespace Rayforce.Idiom

open ElemType

variable {rt : Runtime} {d : Data} {g : List Node} {root : ℕ} {s : PassState}

structure Preserves (rt : Runtime) (d : Data) (g : List Node) (root : ℕ) (p : PassState) : Prop where
  nodes : ∀ n v, Computes rt d none g n v →
    Computes rt d none p.nodes n v ∧ ∀ r, (n, r) ∈ p.log → Computes rt d none p.nodes r v
  root : ∀ v, Computes rt d none g root v → Computes rt d none p.nodes p.root v
  alive : ∃ nd, p.nodes[p.root]? = some nd ∧ nd.dead = false

structure Visited (d : Data) (g : List Node) (root n : ℕ) (row : Row) (src : ℕ) : Prop where
  reached : Relation.ReflTransGen (Child g) root n
  alive : ∃ nd, g[n]? = some nd ∧ nd.dead = false
  site : Site d g n row src

lemma Site.unique {n src src' : ℕ} {row row' : Row} (h : Site d g n row src) (h' : Site d g n row' src') :
    row' = row ∧ src' = src := by
  obtain ⟨⟨nd, c, inner, hn, hop, hc, hi, hiop, hs⟩, -, -⟩ := h
  obtain ⟨⟨nd', c', inner', hn', hop', hc', hi', hiop', hs'⟩, -, -⟩ := h'
  obtain rfl := Option.some.inj (hn.symm.trans hn')
  obtain rfl := Option.some.inj (hc.symm.trans hc')
  obtain rfl := Option.some.inj (hi.symm.trans hi')
  have hroot : row.rootOp = row'.rootOp := by simpa using hop.symm.trans hop'
  have hchild : row.child0Op = row'.child0Op := by simpa using hiop.symm.trans hiop'
  refine ⟨?_, Option.some.inj (hs'.symm.trans hs)⟩
  cases row <;> cases row' <;> simp_all [Row.rootOp, Row.child0Op]

lemma alive_of_rewriteAt {m n : ℕ} {nd' : Node} (hn : n < s.nodes.length)
    (h : (rewriteAt d s m).nodes[n]? = some nd')
    (halive : nd'.dead = false) : ∃ nd, s.nodes[n]? = some nd ∧ nd.dead = false := by
  rw [rewriteAt] at h
  cases hr : rewriteInPlace d s.nodes m with
  | none => exact ⟨nd', by simpa [hr] using h, halive⟩
  | some gr =>
    obtain ⟨g'', r⟩ := gr
    simp only [hr] at h
    obtain ⟨nd, c, inner, src, source, row, -, -, -, -, -, -, -, -, -, -, rfl⟩ := rewriteInPlace_eq_some hr
    rw [getElem?_afterRewrite, List.getElem?_append_left hn] at h
    obtain ⟨c, hc, rfl⟩ := Option.map_eq_some_iff.mp h
    refine ⟨c, hc, ?_⟩
    split_ifs at halive
    exact (redirectNode_fields c).2.2.2.symm.trans halive

lemma length_le_rewriteAt (m : ℕ) : s.nodes.length ≤ (rewriteAt d s m).nodes.length := by
  rw [rewriteAt]
  cases hr : rewriteInPlace d s.nodes m with
  | none => exact le_refl _
  | some gr =>
    obtain ⟨g'', r⟩ := gr
    obtain ⟨nd, c, inner, src, source, row, -, -, -, -, -, -, -, -, -, -, rfl⟩ := rewriteInPlace_eq_some hr
    simp [markDead, redirect]

lemma alive_of_run {n r : ℕ} (order : List ℕ) (hn : n < s.nodes.length)
    (h : (n, r) ∈ (order.foldl (rewriteAt d) s).log) (hlog : (n, r) ∉ s.log) :
    ∃ nd, s.nodes[n]? = some nd ∧ nd.dead = false := by
  induction order generalizing s with
  | nil => exact absurd h hlog
  | cons m order ih =>
    rw [List.foldl_cons] at h
    by_cases hm : (n, r) ∈ (rewriteAt d s m).log
    · rw [rewriteAt] at hm
      cases hr : rewriteInPlace d s.nodes m with
      | none => exact absurd (by simpa [hr] using hm) hlog
      | some gr =>
        simp only [hr] at hm
        rcases List.mem_cons.mp hm with he | hm
        · obtain ⟨nd, -, -, -, -, -, hnd, hdead, -⟩ := rewriteInPlace_eq_some hr
          exact ⟨nd, (Prod.mk.inj he).1 ▸ hnd, hdead⟩
        · exact absurd hm hlog
    · obtain ⟨nd', hnd', halive⟩ := ih (lt_of_lt_of_le hn (length_le_rewriteAt m)) h hm
      exact alive_of_rewriteAt hn hnd' halive

lemma rewriteOne_eq {cap : ℕ} (hcap : s.nodes.length ≤ cap) (n : ℕ) :
    rewriteOne d cap s n = if (rewriteAt d s n).nodes.length ≤ cap then some (rewriteAt d s n) else none := by
  rw [rewriteOne, tryRewrite, rewriteAt]
  cases hr : rewriteInPlace d s.nodes n with
  | none => exact (if_pos hcap).symm
  | some gr =>
    obtain ⟨g'', r⟩ := gr
    obtain ⟨nd, c, inner, src, source, row, -, -, -, -, -, -, -, -, -, -, rfl⟩ := rewriteInPlace_eq_some hr
    simp only [Option.map_some, markDead, redirect, List.length_modify, List.length_map, List.length_append,
      List.length_singleton, Nat.succ_le_iff]
    by_cases hlt : s.nodes.length < cap
    · simp only [if_pos hlt]
    · simp only [if_neg hlt]

lemma length_le_run (order : List ℕ) : s.nodes.length ≤ (order.foldl (rewriteAt d) s).nodes.length := by
  induction order generalizing s with
  | nil => exact le_rfl
  | cons n order ih => exact (length_le_rewriteAt n).trans ih

lemma run_eq {cap : ℕ} (order : List ℕ) (hcap : s.nodes.length ≤ cap) : order.foldlM (rewriteOne d cap) s =
    if (order.foldl (rewriteAt d) s).nodes.length ≤ cap then some (order.foldl (rewriteAt d) s) else none := by
  induction order generalizing s with
  | nil => exact (if_pos hcap).symm
  | cons n order ih =>
    rw [List.foldlM_cons, List.foldl_cons, rewriteOne_eq hcap]
    by_cases hle : (rewriteAt d s n).nodes.length ≤ cap
    · rw [if_pos hle, ← ih hle]
      rfl
    · rw [if_neg hle, if_neg fun hle' => hle ((length_le_run order).trans hle')]
      rfl

def passInPlace (d : Data) (g : List Node) (root : ℕ) : PassState :=
  if g.length = 0 ∨ (2 ^ 32 - 1) / 4 < g.length then ⟨g, root, []⟩ else (walk g root).foldl
    (rewriteAt d) ⟨g, root, []⟩

lemma rayIdiomPass_eq {cap : ℕ} (hcap : g.length ≤ cap) : rayIdiomPass d cap g root =
    if (passInPlace d g root).nodes.length ≤ cap then some (passInPlace d g root) else none := by
  rw [rayIdiomPass, passInPlace]
  by_cases hskip : g.length = 0 ∨ (2 ^ 32 - 1) / 4 < g.length
  · rw [if_pos hskip, if_pos hskip, if_pos hcap]
  · rw [if_neg hskip, if_neg hskip]
    exact run_eq _ hcap

lemma passInPlace_eq (hroot : root < g.length) (hsize : g.length ≤ (2 ^ 32 - 1) / 4) :
    passInPlace d g root = (walk g root).foldl (rewriteAt d) ⟨g, root, []⟩ := by
  rw [passInPlace, if_neg]
  omega

lemma Reached.pass (hg : InRange g) (hroot : root < g.length) : Reached d g root (passInPlace d g root) := by
  by_cases hsize : g.length ≤ (2 ^ 32 - 1) / 4
  · rw [passInPlace_eq hroot hsize]
    exact Reached.init.run hg _ fun n hn => (mem_walk_iff.mp hn).1
  · rw [passInPlace, if_pos (Or.inr (by omega))]
    exact Reached.init

theorem log_iff (hg : InRange g) (hroot : root < g.length) (n : ℕ) :
    (∃ r, (n, r) ∈ (passInPlace d g root).log) ↔ g.length ≤ (2 ^ 32 - 1) / 4 ∧ ∃ row src,
      Visited d g root n row src := by
  by_cases hsize : g.length ≤ (2 ^ 32 - 1) / 4
  · have hreach := Reached.pass (d := d) hg hroot
    rw [passInPlace_eq hroot hsize] at hreach ⊢
    constructor
    · rintro ⟨r, hr⟩
      obtain ⟨hlt, -, row, src, -, hsite, -⟩ := hreach.rewritten.fresh n r hr
      have hmem : n ∈ walk g root := by
        have hin := (log_sublist _).subset (List.mem_map_of_mem (f := Prod.fst) hr)
        simpa using hin
      obtain ⟨nd, hnd, halive⟩ := alive_of_run (s := ⟨g, root, []⟩) _ hlt hr (by simp)
      exact ⟨hsize, row, src, (mem_walk_iff.mp hmem).2.2, ⟨nd, hnd, halive⟩, hsite⟩
    · rintro ⟨-, row, src, hreached, ⟨nd, hnd, halive⟩, hsite⟩
      have hlt := (List.getElem?_eq_some_iff.mp hnd).1
      exact Reached.init.log_of_site hg _ (fun n hn => (mem_walk_iff.mp hn).1)
        (mem_walk_iff.mpr ⟨hlt, hroot, hreached⟩) hsite hnd halive
  · rw [passInPlace, if_pos (Or.inr (by omega))]
    exact iff_of_false (by simp) fun h => hsize h.1

/-- The node array has room for one new node at each place that is rewritten. -/
def Room (d : Data) (cap : ℕ) (g : List Node) (root : ℕ) : Prop :=
  ∀ places : List ℕ, places.Nodup → (∀ n ∈ places, ∃ row src, Visited d g root n row src) →
    g.length + places.length ≤ cap

lemma room_iff {cap : ℕ} (hg : InRange g) (hroot : root < g.length) (hcap : g.length ≤ cap) :
    (passInPlace d g root).nodes.length ≤ cap ↔ (g.length ≤ (2 ^ 32 - 1) / 4 → Room d cap g root) := by
  by_cases hsize : g.length ≤ (2 ^ 32 - 1) / 4
  · have hlength := (Reached.pass (d := d) hg hroot).rewritten.length
    have hlog := log_iff (d := d) hg hroot
    have hmem : ∀ n, n ∈ (passInPlace d g root).log.map Prod.fst ↔ ∃ row src, Visited d g root n row src := by
      intro n
      have hn := hlog n
      rw [and_iff_right hsize] at hn
      simpa using hn
    constructor
    · intro hle _ places hnodup hplaces
      have hsub := (hnodup.subperm fun n hn => (hmem n).mpr (hplaces n hn)).length_le
      rw [List.length_map] at hsub
      omega
    · intro hroom
      have hnodup : ((passInPlace d g root).log.map Prod.fst).Nodup := by
        rw [passInPlace_eq hroot hsize]
        refine List.Nodup.sublist (log_sublist _) ?_
        rw [List.map_nil, List.append_nil, List.nodup_reverse]
        exact ((walk_roomy g root).resolve_right (by omega)).nodup
      have hle := hroom hsize _ hnodup fun n hn => (hmem n).mp hn
      rw [List.length_map] at hle
      omega
  · rw [passInPlace, if_pos (Or.inr (by omega))]
    exact iff_of_true hcap fun h => absurd h hsize

lemma Reached.alive (h : Reached d g root s) (hroot : ∃ nd, g[root]? = some nd ∧ nd.dead = false) :
    ∃ nd, s.nodes[s.root]? = some nd ∧ nd.dead = false := by
  rcases h.root with ⟨he, hno⟩ | hlog
  · obtain ⟨nd, hnd, halive⟩ := hroot
    obtain ⟨nd', hnd', -⟩ := h.rewritten.kept root nd hnd
    exact ⟨nd', by rw [he, hnd'], h.rewritten.alive root nd nd' hnd hnd' halive hno⟩
  · obtain ⟨-, -, -, -, nd', -, hnd', -, -, halive, -⟩ := h.rewritten.fresh _ _ hlog
    exact ⟨nd', hnd', halive⟩

lemma passInPlace_preserves_iff (hs : Sound rt d g) (hroot : ∃ nd, g[root]? = some nd ∧ nd.dead = false) :
    Preserves rt d g root (passInPlace d g root) ↔
      (g.length ≤ (2 ^ 32 - 1) / 4 → ∀ n row src w, Visited d g root n row src → Computes rt d none g src w →
        RowAgrees rt row (outTypeOf g src) w) := by
  have hlt : root < g.length := (List.getElem?_eq_some_iff.mp hroot.choose_spec.1).1
  have hreach : Reached d g root (passInPlace d g root) := Reached.pass hs.inRange hlt
  constructor
  · intro h hsize n row src w hv hw
    obtain ⟨r, hr⟩ := (log_iff hs.inRange hlt n).mpr ⟨hsize, row, src, hv⟩
    obtain ⟨-, -, row', src', nd', hsite', hr', hop, hout, -, ⟨s', hs', hss⟩⟩ := hreach.rewritten.fresh n r hr
    obtain ⟨rfl, rfl⟩ := hv.site.unique hsite'
    have hold := (h.nodes n _ (hv.site.computes hw)).2 r hr
    have hsrc : Computes rt d none (passInPlace d g root).nodes s' w := by
      rcases hss with rfl | hss
      · exact (h.nodes _ w hw).1
      · exact (h.nodes _ w hw).2 s' hss
    have hnew := (computes_unary hr' (hop ▸ newOp_unary row') hs').mpr ⟨w, hsrc, rfl⟩
    rw [hop, hout] at hnew
    exact (row_iff row' _ w (hs.guarded hv.site hw)).mp (hold.unique hnew)
  · intro h
    have hright : ∀ n r row src w, (n, r) ∈ (passInPlace d g root).log → Site d g n row src →
        Computes rt d none g src w → rowOld rt row w = rowNew rt row (outTypeOf g src) w := by
      intro n r row src w hr hsite hw
      obtain ⟨hsize, row', src', hv⟩ := (log_iff hs.inRange hlt n).mp ⟨r, hr⟩
      obtain ⟨rfl, rfl⟩ := hsite.unique hv.site
      exact (row_iff row' _ w (hs.guarded hsite hw)).mpr (h hsize n row' src' w hv hw)
    have hnodes : ∀ n v, Computes rt d none g n v → Computes rt d none (passInPlace d g root).nodes n v ∧
        ∀ r, (n, r) ∈ (passInPlace d g root).log → Computes rt d none (passInPlace d g root).nodes r v := by
      rintro n v ⟨fuel, hv⟩
      obtain ⟨hn, hr⟩ := hreach.rewritten.exec_eq hright fuel n v hv
      exact ⟨⟨fuel, hn⟩, fun r hlog => ⟨fuel, hr r hlog⟩⟩
    refine ⟨hnodes, fun v hv => ?_, hreach.alive hroot⟩
    rcases hreach.root with ⟨he, -⟩ | hlog
    · rw [he]
      exact (hnodes root v hv).1
    · exact (hnodes root v hv).2 _ hlog

/-- The pass keeps the values if and only if the new nodes fit and each row is right where it is applied. -/
theorem rayIdiomPass_preserves_iff {cap : ℕ} (hs : Sound rt d g)
    (hroot : ∃ nd, g[root]? = some nd ∧ nd.dead = false)
    (hcap : g.length ≤ cap) : (∃ p, rayIdiomPass d cap g root = some p ∧ Preserves rt d g root p) ↔
      (g.length ≤ (2 ^ 32 - 1) / 4 → Room d cap g root ∧
        ∀ n row src w, Visited d g root n row src → Computes rt d none g src w →
          RowAgrees rt row (outTypeOf g src) w) := by
  have hlt : root < g.length := (List.getElem?_eq_some_iff.mp hroot.choose_spec.1).1
  have hpass : (∃ p, rayIdiomPass d cap g root = some p ∧ Preserves rt d g root p) ↔
      (passInPlace d g root).nodes.length ≤ cap ∧ Preserves rt d g root (passInPlace d g root) := by
    rw [rayIdiomPass_eq hcap]
    by_cases hle : (passInPlace d g root).nodes.length ≤ cap
    · rw [if_pos hle, and_iff_right hle]
      simp only [Option.some.injEq, exists_eq_left']
    · rw [if_neg hle]
      simp [hle]
  rw [hpass, room_iff hs.inRange hlt hcap, passInPlace_preserves_iff hs hroot]
  exact forall_and.symm

def firstAscGraph : List Node :=
  [{ opcode := .const, arity := 0, in0 := none, in1 := none, outType := i64.code, hasExt := true },
    { opcode := .vec .asc, arity := 1, in0 := some 0, in1 := none, outType := i64.code },
    { opcode := .red .first, arity := 1, in0 := some 1, in1 := none, outType := i64.code }]

def literalData (v : Vec) : Data where
  literal n := if n = 0 then some (.vec v) else none
  column _ := none
  compute _ _ := .err "nyi" ""

def plainRuntime : Runtime where
  radixDecodes _ := false
  small _ _ := rfl
  unkeyed _ _ := rfl
  symId _ := 0
  listDistinct items := items.dedup.length
  payloadLen _ := 0
  scalar _ t p := .atom t p

lemma computes_literal {v : Vec} {w : Value} (h : Computes plainRuntime (literalData v) none firstAscGraph 0 w) :
    w = .vec v :=
  h.unique ⟨1, rfl⟩

lemma sound_literal {v : Vec} (hv : v.WellFormed) (hty : v.ty = i64) :
    Sound plainRuntime (literalData v) firstAscGraph where
  inRange n nd c hn hc := by
    rcases n with _ | _ | _ | n <;> simp [firstAscGraph] at hn <;> subst hn <;> simp_all [firstAscGraph] <;> omega
  source src w hno hw := by
    rcases src with _ | _ | _ | src
    · obtain rfl : w = v := by simpa using computes_literal hw
      exact ⟨hv, Or.inr (Or.inl (by rw [hty]; rfl))⟩
    · simp [noNullsOn, firstAscGraph] at hno
    · simp [noNullsOn, firstAscGraph] at hno
    · simp [noNullsOn, firstAscGraph] at hno

def nullSlice : Vec := ⟨i64, .ints [-2 ^ 63, 5], false, some true⟩

lemma nullSlice_wellFormed : nullSlice.WellFormed where
  fits := ⟨by decide, by decide⟩
  slice _ := rfl
  flagged h := by simp [nullSlice, Vec.anyNulls] at h
  nullable h := by simp [nullSlice] at h

/-- The first row of the sorted slice is 5 before and null after. -/
theorem rayIdiomPass_nullSlice : Sound plainRuntime (literalData nullSlice) firstAscGraph ∧
    ¬∃ p, rayIdiomPass (literalData nullSlice) 4096 firstAscGraph 2 = some p ∧
      Preserves plainRuntime (literalData nullSlice) firstAscGraph 2 p := by
  refine ⟨sound_literal nullSlice_wellFormed rfl, ?_⟩
  rw [rayIdiomPass_eq (by decide), if_pos (by decide)]
  rintro ⟨p, hp, h⟩
  obtain rfl := Option.some.inj hp
  have hafter := h.root (rayI64 5) ⟨3, by decide⟩
  have hnull : Computes plainRuntime (literalData nullSlice) none
    (passInPlace (literalData nullSlice) firstAscGraph 2).nodes
      (passInPlace (literalData nullSlice) firstAscGraph 2).root (rayI64 (-2 ^ 63)) := ⟨2, by decide⟩
  exact absurd (hafter.unique hnull) (by decide)

def plainInts : Vec := ⟨i64, .ints [3, 1], false, none⟩

theorem rayIdiomPass_preserves_plainInts : ∃ p, rayIdiomPass (literalData plainInts) 4 firstAscGraph 2 = some p ∧
    Preserves plainRuntime (literalData plainInts) firstAscGraph 2 p := by
  have hwf : plainInts.WellFormed :=
    ⟨⟨by decide, by decide⟩, by simp [plainInts], fun _ => by decide, by simp [plainInts]⟩
  have hsite : Site (literalData plainInts) firstAscGraph 2 .firstAsc 0 :=
    ⟨⟨_, 1, _, rfl, rfl, rfl, rfl, rfl, rfl⟩, by decide, fun _ => rfl⟩
  have hplace : ∀ {n row src}, Visited (literalData plainInts) firstAscGraph 2 n row src → n = 2 := by
    intro n row src hv
    obtain ⟨nd, c, inner, hn, hop, -⟩ := hv.site.outer
    rcases n with _ | _ | _ | n
    · obtain rfl := Option.some.inj hn
      simp at hop
    · obtain rfl := Option.some.inj hn
      simp at hop
    · rfl
    · simp [firstAscGraph] at hn
  refine (rayIdiomPass_preserves_iff (sound_literal hwf rfl) ⟨_, rfl, rfl⟩ (by decide)).mpr fun _ =>
    ⟨fun places hnodup hplaces => ?_, fun n row src w hv hw => ?_⟩
  · have hmem : places ⊆ [2] := fun n hn => by
      obtain ⟨row, src, hv⟩ := hplaces n hn
      exact List.mem_singleton.mpr (hplace hv)
    have hsub := (hnodup.subperm hmem).length_le
    exact Nat.add_le_add_left hsub 3
  · obtain rfl := hplace hv
    obtain ⟨rfl, rfl⟩ := hsite.unique hv.site
    rw [computes_literal hw]
    exact ⟨Or.inr (Or.inl rfl), fun h => absurd h.1 (by simp [plainInts])⟩

end Rayforce.Idiom
