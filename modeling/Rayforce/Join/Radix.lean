import Rayforce.Join.Chained

/-! The radix-partitioned hash table of a large join. -/

namespace Rayforce.Join

open Library.Joining Library.Segments Library.Probing List

variable {ps : List (ℕ × Option ℕ)} {ls rs : List (Option Column)} {lc rc : Column} {α β : Type}

structure Roles where
  probeKeys : List (Option Column)
  buildKeys : List (Option Column)
  probeRows : ℕ
  buildRows : ℕ

section

variable (E : Env) (R : Roles) (outer : Bool)

def radixBits (bytes : ℕ) : ℕ → ℕ → ℕ → ℕ
  | 0, _, r => r
  | fuel + 1, target, r => if target < bytes ∧ r < 14 then radixBits bytes fuel (target * 2) (r + 1) else r

def radixJoinBits (rows : ℕ) : ℕ :=
  let bytes := rows * 16
  if bytes ≤ 256 * 1024 then 2 else max 2 (radixBits bytes 64 (256 * 1024) 0)

def hash32 (cs : List (Option Column)) (row : ℕ) : ℕ := hashRowKeys E cs row % 2 ^ 32

def radixPart (rbits h : ℕ) : ℕ := h / 2 ^ (32 - rbits) % 2 ^ rbits

def partitionRows (part : ℕ → ℕ) (rows p : ℕ) : List ℕ :=
  let workers := if E.workers.isSome ∧ rayParallelThreshold < rows then E.workers.getD 0 + 1 else 1
  let chunk := segCount workers rows
  (List.range workers).flatMap fun t =>
    (List.range' (t * chunk) (segEnd chunk rows t - t * chunk)).filter fun r => part r = p

def radixDupRunMax : ℕ := 512

def buildTable (hash : ℕ → ℕ) : List ℕ → Cells ℕ → Option (Cells ℕ)
  | [], cells => some cells
  | r :: rs, cells =>
    let same := ((sweep cells cells.length (hash r % cells.length)).filter fun q => hash q = hash r).length
    if radixDupRunMax < same ∧ ¬E.noDupFallback then none
    else (place cells (hash r) r).bind (buildTable hash rs)

def radixCap (count : ℕ) : ℕ := growCap (count * 2) 23 256

def radixBuildProbe (rbits p : ℕ) : Option (List (ℕ × Option ℕ)) :=
  let hb := hash32 E R.buildKeys
  let hp := hash32 E R.probeKeys
  let rp := partitionRows E (fun r => radixPart rbits (hb r)) R.buildRows p
  let lp := partitionRows E (fun l => radixPart rbits (hp l)) R.probeRows p
  if E.forceDupFallback then none
  else if rp.length = 0 then some (if outer then lp.map fun l => (l, none) else [])
  else
    let cap := radixCap rp.length
    if cap < rp.length * 2 then none
    else (buildTable E hb rp (List.replicate cap none)).map fun cells =>
      lp.flatMap fun l => emit outer l ((sweep cells cells.length (hp l % cells.length)).filter fun r =>
        hb r = hp l && joinKeysEq E R.probeKeys R.buildKeys l r)

def radixPairs : Option (List (ℕ × Option ℕ)) :=
  let rbits := radixJoinBits R.buildRows
  ((List.range (2 ^ rbits)).mapM (radixBuildProbe E R outer rbits)).map List.flatten

end

section

variable (E : Env) (J : Sides) (kind : JoinKind) (order : List ℕ)

def swapped : Bool := kind = .inner ∧ ¬E.noBuildSwap ∧ J.leftRows < J.rightRows

def roles : Roles :=
  if swapped E J kind then ⟨J.rs, J.ls, J.rightRows, J.leftRows⟩ else ⟨J.ls, J.rs, J.leftRows, J.rightRows⟩

def unswap (p : ℕ × Option ℕ) : Option (ℕ × Option ℕ) := p.2.map fun b => (b, some p.1)

def joinPairs : List (ℕ × Option ℕ) :=
  if rayParallelThreshold < J.rightRows then
    match radixPairs E (roles E J kind) (kind = .left) with
    | some ps => if swapped E J kind then ps.filterMap unswap else ps
    | none => chainedPairs E J kind order
  else chainedPairs E J kind order

end

variable {E : Env} {J : Sides} {R : Roles} {kind : JoinKind} {order : List ℕ} {outer : Bool}

lemma partitionRows_eq (part : ℕ → ℕ) (rows p : ℕ) :
    partitionRows E part rows p = (List.range rows).filter fun r => part r = p := by
  have key : ∀ w, 0 < w → (range w).flatMap (fun t => (range' (t * segCount w rows)
      (segEnd (segCount w rows) rows t - t * segCount w rows)).filter fun r => part r = p) =
      (range rows).filter fun r => part r = p := by
    intro w hw
    have hall := flatMap_segments_to (segCount w rows) rows w
    rw [min_eq_right (by rw [Nat.mul_comm]; exact le_segCount_mul rows hw)] at hall
    rw [← hall, filter_flatMap]
  rw [partitionRows]
  apply key
  split_ifs <;> omega

lemma radixPart_lt (rbits h : ℕ) : radixPart rbits h < 2 ^ rbits := Nat.mod_lt _ (Nat.pow_pos (by norm_num))

lemma buildTable_spec (hash : ℕ → ℕ) (rs : List ℕ) {cells cells' : Cells ℕ} (hc : Chained hash cells)
    (hb : buildTable E hash rs cells = some cells') :
    Chained hash cells' ∧ cells'.length = cells.length ∧ occupied cells' = occupied cells + rs.length ∧
      (cells'.filterMap id).Perm (cells.filterMap id ++ rs) := by
  induction rs generalizing cells with
  | nil =>
    obtain rfl := Option.some.inj hb
    exact ⟨hc, rfl, rfl, by rw [append_nil]⟩
  | cons r rs ih =>
    simp only [buildTable] at hb
    split_ifs at hb
    obtain ⟨cells₁, hp, hb⟩ := Option.bind_eq_some_iff.mp hb
    obtain ⟨hc', hl', ho', hm'⟩ := ih (place_chained hc hp) hb
    have hl : cells₁.length = cells.length := by
      obtain ⟨s, k, -, -, -, -, rfl⟩ := place_spec hp
      exact length_set
    refine ⟨hc', hl'.trans hl, ?_, ?_⟩
    · rw [ho', place_occupied hp, length_cons]
      omega
    · refine hm'.trans (((place_entries hp).append_right rs).trans ?_)
      exact perm_middle.symm

def Roles.Hashed (E : Env) (R : Roles) : Prop :=
  ∀ l r, joinKeysEq E R.probeKeys R.buildKeys l r = true → hash32 E R.probeKeys l = hash32 E R.buildKeys r

lemma Roles.Hashed.filter_part (hR : R.Hashed E) {rbits p l : ℕ}
    (hl : radixPart rbits (hash32 E R.probeKeys l) = p) :
    (((List.range R.buildRows).filter fun r => radixPart rbits (hash32 E R.buildKeys r) = p).filter fun r =>
      hash32 E R.buildKeys r = hash32 E R.probeKeys l && joinKeysEq E R.probeKeys R.buildKeys l r) =
    (List.range R.buildRows).filter (joinKeysEq E R.probeKeys R.buildKeys l) := by
  rw [filter_filter]
  apply filter_congr
  intro r _
  cases he : joinKeysEq E R.probeKeys R.buildKeys l r with
  | false => simp
  | true => simp [← hR l r he, hl]

def Roles.Finds (E : Env) (R : Roles) (rbits p : ℕ) (ms : ℕ → List ℕ) : Prop :=
  ∀ l, radixPart rbits (hash32 E R.probeKeys l) = p →
    (ms l).Perm ((List.range R.buildRows).filter (joinKeysEq E R.probeKeys R.buildKeys l))

lemma radixBuildProbe_spec (hR : R.Hashed E) {rbits p : ℕ}
    (h : radixBuildProbe E R outer rbits p = some ps) : ∃ ms, R.Finds E rbits p ms ∧
      ps = ((List.range R.probeRows).filter fun l => radixPart rbits (hash32 E R.probeKeys l) = p).flatMap fun l =>
        emit outer l (ms l) := by
  simp only [radixBuildProbe, partitionRows_eq] at h
  have hmatch : ∀ l, radixPart rbits (hash32 E R.probeKeys l) = p → _ := fun l hl => hR.filter_part hl
  have hnd : ((range R.buildRows).filter fun r => radixPart rbits (hash32 E R.buildKeys r) = p).Nodup :=
    nodup_range.filter _
  generalize (range R.buildRows).filter (fun r => radixPart rbits (hash32 E R.buildKeys r) = p) =
    rp at h hmatch hnd
  split_ifs at h with hforce hempty hout hcap
  · obtain rfl := Option.some.inj h
    obtain rfl := length_eq_zero_iff.mp hempty
    refine ⟨fun _ => [], fun l hl => .of_eq (hmatch l hl), ?_⟩
    rw [hout, ← flatMap_singleton' (map _ _), flatMap_map]
    rfl
  · obtain rfl := Option.some.inj h
    obtain rfl := length_eq_zero_iff.mp hempty
    refine ⟨fun _ => [], fun l hl => .of_eq (hmatch l hl), ?_⟩
    refine (flatMap_eq_nil_iff.mpr fun l _ => ?_).symm
    rw [emit, if_neg (by simp [hout])]
    rfl
  · obtain ⟨cells, hb, rfl⟩ := Option.map_eq_some_iff.mp h
    obtain ⟨hc, hlen, hocc, hm⟩ := buildTable_spec (hash32 E R.buildKeys) rp (chained_replicate _) hb
    rw [occupied_replicate, Nat.zero_add] at hocc
    rw [filterMap_replicate_of_none rfl, nil_append] at hm
    rw [length_replicate] at hlen
    refine ⟨_, fun l hl => ?_, rfl⟩
    rw [← hmatch l hl]
    refine (sweep_perm hc (hm.nodup_iff.mpr hnd) (by omega) ?_).trans (hm.filter _)
    intro r hr
    rw [Bool.and_eq_true, decide_eq_true_eq] at hr
    rw [hr.1]

lemma mapM_some {f : α → Option (List β)} {xs : List α} {yss : List (List β)} (h : xs.mapM f = some yss) :
    (∀ x ∈ xs, ∃ ys, f x = some ys) ∧ yss.flatten = xs.flatMap fun x => (f x).getD [] := by
  induction xs generalizing yss with
  | nil =>
    obtain rfl := Option.some.inj h
    exact ⟨by simp, rfl⟩
  | cons x xs ih =>
    rw [mapM_cons] at h
    obtain ⟨ys, hys, hrest⟩ := Option.bind_eq_some_iff.mp h
    obtain ⟨zss, hzss, he⟩ := Option.bind_eq_some_iff.mp hrest
    obtain rfl := Option.some.inj he
    obtain ⟨hall, hflat⟩ := ih hzss
    refine ⟨?_, by rw [flatten_cons, flatMap_cons, hys, hflat, Option.getD_some]⟩
    rintro x' (_ | ⟨_, hx⟩)
    · exact ⟨ys, hys⟩
    · exact hall x' hx

lemma mapM_isSome {f : α → Option β} {xs : List α} (h : ∀ x ∈ xs, (f x).isSome) : (xs.mapM f).isSome := by
  induction xs with
  | nil => rfl
  | cons x xs ih =>
    obtain ⟨y, hy⟩ := Option.isSome_iff_exists.mp (h x (by simp))
    obtain ⟨ys, hys⟩ := Option.isSome_iff_exists.mp (ih fun x hx => h x (mem_cons_of_mem _ hx))
    rw [mapM_cons, hy, hys]
    rfl

def Roles.Built (E : Env) (R : Roles) (rbits : ℕ) : Prop :=
  ∀ p < 2 ^ rbits, let rp := (List.range R.buildRows).filter fun r => radixPart rbits (hash32 E R.buildKeys r) = p
    rp.length * 2 ≤ radixCap rp.length ∧
      (buildTable E (hash32 E R.buildKeys) rp (List.replicate (radixCap rp.length) none)).isSome

lemma radixPairs_isSome (outer : Bool) (hb : R.Built E (radixJoinBits R.buildRows))
    (hf : E.forceDupFallback = false) : (radixPairs E R outer).isSome := by
  rw [radixPairs, Option.isSome_map]
  apply mapM_isSome
  intro p hp
  obtain ⟨hcap, hsome⟩ := hb p (mem_range.mp hp)
  simp only [radixBuildProbe, partitionRows_eq, hf, Bool.false_eq_true, if_false, if_neg (Nat.not_lt.mpr hcap)]
  split_ifs
  · rfl
  · rfl
  · rw [Option.isSome_map]
    exact hsome

lemma radixPairs_spec (hR : R.Hashed E) (h : radixPairs E R outer = some ps) :
    ∃ ms : ℕ → List ℕ, (∀ l, (ms l).Perm
      ((List.range R.buildRows).filter (joinKeysEq E R.probeKeys R.buildKeys l))) ∧
      ps = (List.range (2 ^ radixJoinBits R.buildRows)).flatMap fun p => ((List.range R.probeRows).filter fun l =>
        radixPart (radixJoinBits R.buildRows) (hash32 E R.probeKeys l) = p).flatMap fun l =>
          emit outer l (ms l) := by
  simp only [radixPairs] at h
  obtain ⟨pss, hpss, rfl⟩ := Option.map_eq_some_iff.mp h
  obtain ⟨hall, hflat⟩ := mapM_some hpss
  rw [hflat]
  have hspec : ∀ p ∈ range (2 ^ radixJoinBits R.buildRows), ∃ ms, R.Finds E (radixJoinBits R.buildRows) p ms ∧
      (radixBuildProbe E R outer (radixJoinBits R.buildRows) p).getD [] = ((range R.probeRows).filter fun l =>
        radixPart (radixJoinBits R.buildRows) (hash32 E R.probeKeys l) = p).flatMap fun l =>
          emit outer l (ms l) := by
    intro p hp
    obtain ⟨ps, hps⟩ := hall p hp
    rw [hps]
    exact radixBuildProbe_spec hR hps
  choose! ms hms hps using hspec
  refine ⟨fun l => ms (radixPart (radixJoinBits R.buildRows) (hash32 E R.probeKeys l)) l, fun l => ?_, ?_⟩
  · exact hms _ (mem_range.mpr (radixPart_lt _ _)) l rfl
  · apply flatMap_congr
    intro p hp
    rw [hps p hp]
    apply flatMap_congr
    intro l hl
    have he : radixPart (radixJoinBits R.buildRows) (hash32 E R.probeKeys l) = p := by
      simpa using (mem_filter.mp hl).2
    simp only [he]

lemma radixPairs_perm (hR : R.Hashed E) (h : radixPairs E R outer = some ps) :
    ps.Perm (pairs outer (joinKeysEq E R.probeKeys R.buildKeys) (List.range R.probeRows)
      (List.range R.buildRows)) := by
  obtain ⟨ms, hms, rfl⟩ := radixPairs_spec hR h
  refine (flatMap_partition_perm (fun l => radixPart (radixJoinBits R.buildRows) (hash32 E R.probeKeys l))
    (2 ^ radixJoinBits R.buildRows) (range R.probeRows) (fun l _ => radixPart_lt _ _) _).trans ?_
  apply List.Perm.flatMap_left
  intro l _
  exact emit_perm (hms l)

lemma floatEq_comm (v w : ℤ) : floatEq v w = floatEq w v := by
  simp only [floatEq]
  rw [Bool.and_comm (!isNan (bits v)), Bool.and_comm (decide (bits v % 2 ^ 63 = 0)), decide_eq_decide.mpr eq_comm]

lemma keyEq_comm (hc : Comparable lc rc) (l r : ℕ) : keyEq E lc rc l r = keyEq E rc lc r l := by
  rw [keyEq, keyEq, Bool.or_comm]
  by_cases hn : (rc.isNull r || lc.isNull l) = true
  · rw [if_pos hn, if_pos hn]
  rw [if_neg hn, if_neg hn]
  have hf : lc.type = .f64 ↔ rc.type = .f64 := by
    rcases hc with ⟨h1, h2⟩ | ⟨h1, h2⟩ | ⟨h1, h2⟩
    · simp [h1, h2]
    · simp [h1, h2]
    · constructor
      · intro he
        rw [he] at h1
        simp [IsInt] at h1
      · intro he
        rw [he] at h2
        simp [IsInt] at h2
  by_cases hl : lc.type = .f64
  · rw [if_pos hl, if_pos (hf.mp hl), floatEq_comm]
  rw [if_neg hl, if_neg fun h => hl (hf.mpr h)]
  have hd : (lc.type = .sym ∧ rc.type = .sym ∧ lc.domain ≠ rc.domain) ↔
      (rc.type = .sym ∧ lc.type = .sym ∧ rc.domain ≠ lc.domain) := by
    constructor
    · rintro ⟨h1, h2, h3⟩
      exact ⟨h2, h1, h3.symm⟩
    · rintro ⟨h1, h2, h3⟩
      exact ⟨h2, h1, h3.symm⟩
  by_cases hm : lc.type = .sym ∧ rc.type = .sym ∧ lc.domain ≠ rc.domain
  · simp only [if_pos hm, if_pos (hd.mp hm)]
    exact decide_eq_decide.mpr eq_comm
  · simp only [if_neg hm, if_neg fun h => hm (hd.mpr h)]
    exact decide_eq_decide.mpr eq_comm

lemma Comparable.symm (h : Comparable lc rc) : Comparable rc lc :=
  h.imp And.symm (Or.imp And.symm And.symm)

lemma KeysComparable.symm (h : KeysComparable ls rs) : KeysComparable rs ls := by
  refine ⟨h.1.symm, ?_⟩
  rintro p hp lc rc rfl
  rw [← zip_swap] at hp
  obtain ⟨q, hq, he⟩ := mem_map.mp hp
  obtain ⟨h1, h2⟩ := Prod.mk.inj he
  exact (h.2 q hq rc lc (Prod.ext h2 h1)).symm

lemma joinKeysEq_comm (hc : KeysComparable ls rs) (l r : ℕ) : joinKeysEq E ls rs l r = joinKeysEq E rs ls r l := by
  induction ls generalizing rs with
  | nil =>
    obtain rfl := length_eq_zero_iff.mp hc.1.symm
    rfl
  | cons lc ls ih =>
    cases rs with
    | nil => cases hc.1
    | cons rc rs =>
      have hrest : KeysComparable ls rs :=
        ⟨Nat.succ.inj hc.1, fun p hp => hc.2 p (by rw [zip_cons_cons]; exact mem_cons_of_mem _ hp)⟩
      have htail := ih hrest
      simp only [joinKeysEq, zip_cons_cons, all_cons] at htail ⊢
      rw [htail]
      congr 1
      cases lc with
      | none => cases rc <;> rfl
      | some lc =>
        cases rc with
        | none => rfl
        | some rc => exact keyEq_comm (hc.2 _ (by simp) lc rc rfl) l r

lemma roles_hashed (hJ : J.Ok) : (roles E J kind).Hashed E := by
  intro l r h
  rw [roles] at h ⊢
  split_ifs at h ⊢
  · rw [hash32, hash32, hashRowKeys_of_eq hJ.comparable.symm h]
  · rw [hash32, hash32, hashRowKeys_of_eq hJ.comparable h]

lemma unswap_pairs (F : ℕ → ℕ → Bool) (xs ys : List ℕ) : (pairs false F xs ys).filterMap unswap =
    xs.flatMap fun x => (ys.filter (F x)).map fun y => (y, some x) := by
  rw [pairs, filterMap_flatMap]
  apply flatMap_congr
  intro x _
  rw [emit_inner, filterMap_map]
  show (ys.filter (F x)).filterMap (some ∘ fun y => (y, some x)) = _
  rw [filterMap_eq_map]

lemma joinPairs_radix (hbig : rayParallelThreshold < J.rightRows)
    (h : radixPairs E (roles E J kind) (kind = .left) = some ps) :
    joinPairs E J kind order = if swapped E J kind then ps.filterMap unswap else ps := by
  rw [joinPairs, if_pos hbig, h]

lemma joinPairs_perm (hJ : J.Ok) (ho : order.Perm (List.range J.rightRows)) :
    (joinPairs E J kind order).Perm (pairs (kind = .left) (joinKeysEq E J.ls J.rs) (List.range J.leftRows)
      (List.range J.rightRows)) := by
  rw [joinPairs]
  by_cases hbig : rayParallelThreshold < J.rightRows
  · rw [if_pos hbig]
    cases hps : radixPairs E (roles E J kind) (kind = .left) with
    | none => exact chainedPairs_perm hJ ho
    | some ps =>
      have hp := radixPairs_perm (roles_hashed hJ) hps
      show (if swapped E J kind then ps.filterMap unswap else ps).Perm _
      cases hs : swapped E J kind with
      | false =>
        rw [roles, hs] at hp
        exact hp
      | true =>
        have hk : kind = .inner := by
          rw [swapped, decide_eq_true_eq] at hs
          exact hs.1
        rw [roles, hs, if_pos rfl, hk] at hp
        rw [if_pos rfl, hk]
        refine (hp.filterMap unswap).trans ?_
        simp only [reduceCtorEq, decide_false]
        rw [unswap_pairs]
        refine List.Perm.trans ?_ (pairs_transpose _ _).symm
        apply List.Perm.of_eq
        apply flatMap_congr
        intro r _
        congr 1
        apply filter_congr
        intro l _
        exact (joinKeysEq_comm hJ.comparable l r).symm
  · rw [if_neg hbig]
    exact chainedPairs_perm hJ ho

lemma joinPairs_small (hJ : J.Ok) (ho : order.Perm (List.range J.rightRows))
    (hsmall : J.rightRows ≤ rayParallelThreshold) :
    joinPairs E J kind order = pairs (kind = .left) (joinKeysEq E J.ls J.rs) (List.range J.leftRows)
      (List.range J.rightRows).reverse := by
  rw [joinPairs, if_neg (by omega), chainedPairs_spec hJ ho, buildOrder, if_neg]
  rintro ⟨-, h⟩
  omega

end Rayforce.Join
