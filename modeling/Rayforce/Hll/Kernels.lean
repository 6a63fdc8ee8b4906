import Rayforce.Hll.Sketch
import Rayforce.Library.Binary64

/-! The estimate of a sketch, and `count_distinct_approx` over a column and over groups. -/

namespace Rayforce.Hll

open List Function Library.Binary64

def register (h : Sketch) (i : ℕ) : ℕ :=
  match h.regs, h.sparseKeys with
  | some d, _ => d.getD i 0
  | none, some sk => (sk.find? fun v => v >>> 8 = i).elim 0 (· &&& 255)
  | none, none => 0

def addRows (h : Sketch) (rows : List (Option UInt64)) : Sketch := rows.foldl (fun h x => x.elim h (rayHllAdd h)) h

def powers (sumInv : Double) (rs : List ℕ) : Double := rs.foldl (fun s r => s.add (.fin (1 / 2 ^ r))) sumInv

/-- The sum is taken in the order in which the registers or the entries are stored. -/
def sumInv (h : Sketch) : Double :=
  match h.regs, h.sparseKeys with
  | some d, _ => powers .zero d
  | none, some sk => powers (.ofInt (h.m - sk.length : ℕ)) (sk.map (· &&& 255))
  | none, none => .ofInt h.m

def alpha (m : ℕ) : Double :=
  if m = 16 then .round 0.673
  else if m = 32 then .round 0.697
  else if m = 64 then .round 0.709
  else (Double.round 0.7213).div (Double.one.add ((Double.round 1.079).div (.ofInt m)))

section

-- `log` of the C library
variable (log : Double → Double)

def estimateFrom (m nZeros : ℕ) (sumInv : Double) : Option ℤ :=
  let raw := (((alpha m).mul (.ofInt m)).mul (.ofInt m)).div sumInv
  let raw := if raw.le ((Double.round 2.5).mul (.ofInt m)) && nZeros != 0 then
      (Double.ofInt m).mul (log ((Double.ofInt m).div (.ofInt nZeros)))
    else raw
  let raw := if raw.lt .zero then .zero else raw
  (raw.add (.round 0.5)).trunc.filter (· < 2 ^ 63)

/-- `none` where the cast to `int64_t` is undefined. -/
def rayHllEstimate (h : Sketch) : Option ℤ :=
  if h.m = 0 then some 0 else estimateFrom log h.m (nZeros h) (sumInv h)

def estimateOf (p : ℕ) (hashes : List UInt64) : Option ℤ :=
  estimateFrom log (2 ^ p) (((List.range (2 ^ p)).map (rank p hashes)).count 0)
    (powers .zero ((List.range (2 ^ p)).map (rank p hashes)))

def cdaScalarFn (p nw : ℕ) (shards : ℕ → Option Sketch) (task : ℕ × List (Option UInt64)) : ℕ → Option Sketch :=
  Function.update shards (task.1 % nw) (some (addRows ((shards (task.1 % nw)).getD (rayHllInit p)) task.2))

def mergeShards (nw : ℕ) (shards : ℕ → Option Sketch) : Option Sketch :=
  match (List.range nw).filterMap shards with
  | [] => none
  | base :: rest => some (rest.foldl rayHllMerge base)

def rayCountDistinctApprox (nw : ℕ) (tasks : List (ℕ × List (Option UInt64))) : Option ℤ :=
  (mergeShards nw (tasks.foldl (cdaScalarFn 14 nw) fun _ => none)).elim (some 0) (rayHllEstimate log)

def clampGroups (p : ℕ) : ℕ := if p < 4 then 4 else if 14 < p then 14 else p

def groupSketch (p : ℕ) (rows : List (Option UInt64)) : Sketch := addRows (rayHllInitSparse p 256) rows

def cdaPgBufTask (p : ℕ) (groups : ℕ → List (Option UInt64)) (out : ℕ → Option ℤ) (task : ℕ × ℕ) : ℕ → Option ℤ :=
  (List.range' task.1 (task.2 - task.1)).foldl
    (fun out g => Function.update out g (rayHllEstimate log (groupSketch p (groups g)))) out

def groupRows (rows : ℕ → Option UInt64) (idxBuf offsets counts : ℕ → ℕ) (g : ℕ) : List (Option UInt64) :=
  (List.range' (offsets g) (counts g)).map fun k => rows (idxBuf k)

def rayCountDistinctApproxPgBuf (p : ℕ) (rows : ℕ → Option UInt64) (idxBuf offsets counts : ℕ → ℕ)
    (tasks : List (ℕ × ℕ))
    (out : ℕ → Option ℤ) : ℕ → Option ℤ :=
  tasks.foldl (cdaPgBufTask log (clampGroups p) (groupRows rows idxBuf offsets counts)) out

def streamRow (ng : ℕ) (bank : ℕ → Sketch) (row : ℤ × Option UInt64) : ℕ → Sketch :=
  if row.1 < 0 ∨ (ng : ℤ) ≤ row.1 then bank
  else row.2.elim bank fun x => Function.update bank row.1.toNat (rayHllAdd (bank row.1.toNat) x)

def cdaPgStreamTask (ng : ℕ) (banks : ℕ → ℕ → Sketch) (task : ℕ × List (ℤ × Option UInt64)) : ℕ → ℕ → Sketch :=
  Function.update banks task.1 (task.2.foldl (streamRow ng) (banks task.1))

def rayCountDistinctApproxPgStream (p nw ng : ℕ) (tasks : List (ℕ × List (ℤ × Option UInt64)))
    (g : ℕ) : Option ℤ :=
  let banks := tasks.foldl (cdaPgStreamTask ng) fun _ _ => rayHllInitSparse (clampGroups p) 256
  rayHllEstimate log ((List.range' 1 (nw - 1)).foldl (fun dst w => rayHllMerge dst (banks w g)) (banks 0 g))

end

section

variable {p : ℕ} {h : Sketch} {f : ℕ → ℕ} {l hashes : List UInt64}

lemma Denotes.register (hd : Denotes p f h) {i : ℕ} (hi : i < 2 ^ p) : register h i = f i := by
  obtain hr | ⟨hnone, sk, hsk, he⟩ := hd.form
  · simp [Hll.register, hr, hi]
  · simp only [Hll.register, hnone, hsk]
    cases hfind : sk.find? fun v => v >>> 8 = i with
    | none =>
      have hno := find?_eq_none.mp hfind
      by_contra hne
      obtain ⟨v, hv, hvi⟩ := he.all i hi (Nat.pos_of_ne_zero (Ne.symm hne))
      exact hno v hv (decide_eq_true hvi)
    | some v =>
      have hv := he.value v (mem_of_find?_eq_some hfind)
      have hvi : decide (v >>> 8 = i) = true := by simpa using find?_some hfind
      rwa [of_decide_eq_true hvi] at hv

lemma Denotes.estimate_dense (hd : Denotes p (rank p l) h) (hdense : h.regs ≠ none)
    (hsame : ∀ x, x ∈ l ↔ x ∈ hashes)
    (log : Double → Double) : rayHllEstimate log h = estimateOf log p hashes := by
  have hmap : (range (2 ^ p)).map (rank p l) = (range (2 ^ p)).map (rank p hashes) :=
    map_congr_left fun i _ => rank_congr hsame
  obtain hr | ⟨hnone, -⟩ := hd.form
  · rw [rayHllEstimate, hd.m_eq, if_neg (by positivity), hd.nZeros_eq, estimateOf, sumInv, hr, hmap]
  · exact absurd hnone hdense

lemma Built.addRows (hb : Built p h l) (rows : List (Option UInt64)) :
    Built p (addRows h rows) (l ++ rows.reduceOption) := by
  induction rows generalizing h l with
  | nil => simpa [Hll.addRows] using hb
  | cons x rows ih =>
    cases x with
    | none => exact ih hb
    | some x =>
      rw [reduceOption_cons_of_some, append_cons]
      exact ih (hb.add x)

end

section

variable {p e : ℕ} {h : Sketch} {f : ℕ → ℕ} {l hashes : List UInt64}

lemma powers_exact (he : e ≤ 1000) {rs : List ℕ} (hrs : ∀ r ∈ rs, r ≤ e) {a : ℕ}
    (ha : a + (rs.map fun r => 2 ^ (e - r)).sum ≤ 2 ^ 53) :
    powers (.fin (a * 2 ^ (-e : ℤ))) rs = .fin ((a + (rs.map fun r => 2 ^ (e - r)).sum : ℕ) * 2 ^ (-e : ℤ)) := by
  induction rs generalizing a with
  | nil => rfl
  | cons r rs ih =>
    obtain ⟨hr, hrs⟩ := forall_mem_cons.mp hrs
    rw [map_cons, sum_cons, ← Nat.add_assoc] at ha ⊢
    have hterm : (1 / 2 ^ r : ℚ) = (2 ^ (e - r) : ℕ) * 2 ^ (-e : ℤ) := by
      push_cast
      rw [zpow_neg, zpow_natCast, ← Nat.sub_add_cancel hr, pow_add, Nat.add_sub_cancel]
      field_simp
    have hadd : (Double.fin (a * 2 ^ (-e : ℤ))).add (.fin (1 / 2 ^ r)) =
        .fin ((a + 2 ^ (e - r) : ℕ) * 2 ^ (-e : ℤ)) := by
      have hexact := Double.round_mul_zpow (n := (a + 2 ^ (e - r) : ℕ)) (t := -e) (by omega) (by omega)
        (by rw [Nat.abs_cast]; exact_mod_cast (Nat.le_add_right _ _).trans ha)
      rw [Int.cast_natCast] at hexact
      rw [Double.add, hterm, ← add_mul, ← Nat.cast_add, hexact]
    rw [powers, foldl_cons, hadd]
    exact ih hrs ha

/-- Below the limit every sum is exact, so the order of the terms is of no account. -/
lemma Denotes.sumInv_exact (hd : Denotes p f h) (hp : p ≤ 53) (hf : ∀ i < 2 ^ p, f i ≤ 53 - p) :
    sumInv h = .fin (((((range (2 ^ p)).map f).map fun r => 2 ^ (53 - p - r)).sum : ℕ) * 2 ^
      (-(53 - p : ℕ) : ℤ)) := by
  have hsmall : ∀ r ∈ (range (2 ^ p)).map f, r ≤ 53 - p := by
    intro r hr
    obtain ⟨i, hi, rfl⟩ := mem_map.mp hr
    exact hf i (mem_range.mp hi)
  have hbound : (((range (2 ^ p)).map f).map fun r => 2 ^ (53 - p - r)).sum ≤ 2 ^ 53 := by
    refine (sum_le_card_nsmul _ (2 ^ (53 - p)) fun x hx => ?_).trans ?_
    · obtain ⟨r, -, rfl⟩ := mem_map.mp hx
      exact Nat.pow_le_pow_right (by decide) (Nat.sub_le _ _)
    · rw [length_map, length_map, length_range, smul_eq_mul, ← pow_add, Nat.add_sub_cancel' hp]
  obtain hr | ⟨hnone, sk, hsk, he⟩ := hd.form
  · simp only [sumInv, hr]
    have hsum := powers_exact (by omega) hsmall (a := 0) (by rwa [Nat.zero_add])
    rwa [Nat.zero_add, Nat.cast_zero, zero_mul] at hsum
  · have hvalues := congrArg (fun s : Multiset ℕ => (s.map fun r => 2 ^ (53 - p - r)).sum) he.values
    simp only [Multiset.map_add, Multiset.map_replicate, Multiset.map_coe, Multiset.sum_add,
      Multiset.sum_replicate, Multiset.sum_coe, Nat.sub_zero, smul_eq_mul] at hvalues
    have hentries : ∀ r ∈ sk.map (· &&& 255), r ≤ 53 - p := by
      intro r hr
      obtain ⟨v, hv, rfl⟩ := mem_map.mp hr
      rw [he.value v hv]
      exact hf _ (he.bound v hv)
    have hm : 2 ^ p ≤ 2 ^ 53 := Nat.pow_le_pow_right (by decide) hp
    have hstart : Double.ofInt (2 ^ p - sk.length : ℕ) =
        .fin (((2 ^ p - sk.length) * 2 ^ (53 - p) : ℕ) * 2 ^ (-(53 - p : ℕ) : ℤ)) := by
      have hexact := Double.round_mul_zpow (n := ((2 ^ p - sk.length : ℕ) : ℤ)) (t := 0) (by norm_num) le_rfl
        (by rw [Nat.abs_cast]; exact_mod_cast (Nat.sub_le _ _).trans hm)
      rw [zpow_zero, mul_one] at hexact
      rw [Double.ofInt, hexact, Int.cast_natCast, Nat.cast_mul, mul_assoc, zpow_neg, zpow_natCast]
      push_cast
      rw [mul_inv_cancel₀ (by positivity), mul_one]
    simp only [sumInv, hnone, hsk, hd.m_eq]
    rw [hstart, powers_exact (by omega) hentries (by rwa [hvalues]), hvalues]

lemma Denotes.estimate (hd : Denotes p (rank p l) h) (hp : p ≤ 53) (hsame : ∀ x, x ∈ l ↔ x ∈ hashes)
    (hform : h.regs ≠ none ∨ ∀ i < 2 ^ p, rank p hashes i ≤ 53 - p) (log : Double → Double) :
    rayHllEstimate log h = estimateOf log p hashes := by
  rcases hform with hdense | hsmall
  · exact hd.estimate_dense hdense hsame log
  · have hd' := hd.congr fun i _ => rank_congr (i := i) hsame
    have hregs : Denotes p (rank p hashes) { h with regs := some ((range (2 ^ p)).map (rank p hashes)) } :=
      ⟨hd'.p_eq, hd'.m_eq, .inl rfl⟩
    have hsum := (hd'.sumInv_exact hp hsmall).trans (hregs.sumInv_exact hp hsmall).symm
    rw [rayHllEstimate, hd'.m_eq, if_neg (by positivity), hd'.nZeros_eq, hsum, estimateOf, sumInv]

lemma estimate_of_nZeros {h : Sketch} (hz : nZeros h = 0) (log log' : Double → Double) :
    rayHllEstimate log h = rayHllEstimate log' h := by
  simp [rayHllEstimate, estimateFrom, hz]

lemma add_dense (hdense : h.regs ≠ none) (x : UInt64) : (rayHllAdd h x).regs ≠ none := by
  cases hr : h.regs with
  | none => exact absurd hr hdense
  | some d => simp [rayHllAdd, hr]

lemma addRows_dense (hdense : h.regs ≠ none) (rows : List (Option UInt64)) : (addRows h rows).regs ≠ none := by
  induction rows generalizing h with
  | nil => exact hdense
  | cons x rows ih =>
    cases x with
    | none => exact ih hdense
    | some x => exact ih (add_dense hdense x)

lemma promote_dense (h : Sketch) : (rayHllPromoteToDense h).regs ≠ none := by
  rw [rayHllPromoteToDense]
  split
  · simp_all
  · simp

lemma merge_dense {s : Sketch} (hdense : h.regs ≠ none ∨ h.m = s.m) : (rayHllMerge h s).regs ≠ none := by
  rw [rayHllMerge]
  split_ifs with hm
  · exact hdense.resolve_right hm
  · split <;> simp [promote_dense]

end

section

variable {p nw : ℕ} {shards : ℕ → Option Sketch} {L : ℕ → List UInt64}

def Sharded (p : ℕ) (shards : ℕ → Option Sketch) (L : ℕ → List UInt64) : Prop :=
  ∀ w, (shards w).elim (L w = []) fun h => Built p h (L w) ∧ h.regs ≠ none

lemma Sharded.task (nw : ℕ) (hs : Sharded p shards L) (task : ℕ × List (Option UInt64)) :
    Sharded p (cdaScalarFn p nw shards task)
    (update L (task.1 % nw) (L (task.1 % nw) ++ task.2.reduceOption)) := by
  intro w
  rw [cdaScalarFn]
  by_cases hw : w = task.1 % nw
  · subst hw
    rw [update_self, update_self, Option.elim_some]
    have hw := hs (task.1 % nw)
    cases hshard : shards (task.1 % nw) with
    | none =>
      rw [hshard, Option.elim_none] at hw
      rw [hw]
      exact ⟨Built.init.addRows _, addRows_dense (by simp [rayHllInit]) _⟩
    | some h =>
      rw [hshard, Option.elim_some] at hw
      exact ⟨hw.1.addRows _, addRows_dense hw.2 _⟩
  · rw [update_of_ne hw, update_of_ne hw]
    exact hs w

def hashesOf (tasks : List (ℕ × List (Option UInt64))) : List UInt64 := tasks.flatMap fun t => t.2.reduceOption

lemma mem_dealt {w : ℕ} (hw : w < nw) (new : List UInt64) (x : UInt64) :
    (∃ v < nw, x ∈ update L w (L w ++ new) v) ↔ (∃ v < nw, x ∈ L v) ∨ x ∈ new := by
  constructor
  · rintro ⟨v, hv, hx⟩
    by_cases hvw : v = w
    · subst hvw
      rw [update_self, mem_append] at hx
      exact hx.imp_left fun hx => ⟨_, hv, hx⟩
    · rw [update_of_ne hvw] at hx
      exact .inl ⟨v, hv, hx⟩
  · rintro (⟨v, hv, hx⟩ | hx)
    · by_cases hvw : v = w
      · subst hvw
        exact ⟨_, hv, by rw [update_self]; exact mem_append_left _ hx⟩
      · exact ⟨v, hv, by rwa [update_of_ne hvw]⟩
    · exact ⟨_, hw, by rw [update_self]; exact mem_append_right _ hx⟩

lemma Sharded.tasks (hs : Sharded p shards L) (hnw : 0 < nw) (tasks : List (ℕ × List (Option UInt64))) :
    ∃ L', Sharded p (tasks.foldl (cdaScalarFn p nw) shards) L' ∧
      ∀ x, (∃ w < nw, x ∈ L' w) ↔ (∃ w < nw, x ∈ L w) ∨ x ∈ hashesOf tasks := by
  induction tasks generalizing shards L with
  | nil => exact ⟨L, hs, fun x => by simp [hashesOf]⟩
  | cons task tasks ih =>
    obtain ⟨L', hs', hmem⟩ := ih (hs.task nw task)
    refine ⟨L', hs', fun x => ?_⟩
    rw [hmem, mem_dealt (Nat.mod_lt task.1 hnw)]
    simp only [hashesOf, flatMap_cons, mem_append, or_assoc]

lemma Sharded.merge (hs : Sharded p shards L) {h : Sketch} {l : List UInt64} (hb : Built p h l)
    (hdense : h.regs ≠ none) (ws : List ℕ) :
    ∃ l', Built p ((ws.filterMap shards).foldl rayHllMerge h) l' ∧
    ((ws.filterMap shards).foldl rayHllMerge h).regs ≠ none ∧
      ∀ x, x ∈ l' ↔ x ∈ l ∨ ∃ w ∈ ws, x ∈ L w := by
  induction ws generalizing h l with
  | nil => exact ⟨l, hb, hdense, fun x => by simp⟩
  | cons w ws ih =>
    have hw := hs w
    cases hshard : shards w with
    | none =>
      rw [hshard, Option.elim_none] at hw
      rw [filterMap_cons_none hshard]
      obtain ⟨l', hb', hdense', hmem⟩ := ih hb hdense
      refine ⟨l', hb', hdense', fun x => ?_⟩
      rw [hmem]
      simp [hw]
    | some s =>
      rw [hshard, Option.elim_some] at hw
      rw [filterMap_cons_some hshard, foldl_cons]
      obtain ⟨l', hb', hdense', hmem⟩ := ih (hb.merge hw.1) (merge_dense (.inl hdense))
      refine ⟨l', hb', hdense', fun x => ?_⟩
      rw [hmem, mem_append]
      simp [or_assoc]

lemma Sharded.merged (hs : Sharded p shards L) (ws : List ℕ) : match ws.filterMap shards with
    | [] => ∀ w ∈ ws, shards w = none
    | base :: rest => ∃ l, Built p (rest.foldl rayHllMerge base) l ∧ (rest.foldl rayHllMerge base).regs ≠ none ∧
        ∀ x, x ∈ l ↔ ∃ w ∈ ws, x ∈ L w := by
  induction ws with
  | nil => simp
  | cons w ws ih =>
    have hw := hs w
    cases hshard : shards w with
    | none =>
      rw [hshard, Option.elim_none] at hw
      rw [filterMap_cons_none hshard]
      cases hrest : ws.filterMap shards with
      | nil =>
        rw [hrest] at ih
        exact forall_mem_cons.mpr ⟨hshard, ih⟩
      | cons base rest =>
        rw [hrest] at ih
        obtain ⟨l, hb, hdense, hmem⟩ := ih
        exact ⟨l, hb, hdense, fun x => by rw [hmem]; simp [hw]⟩
    | some s =>
      rw [hshard, Option.elim_some] at hw
      rw [filterMap_cons_some hshard]
      obtain ⟨l, hb, hdense, hmem⟩ := hs.merge hw.1 hw.2 ws
      exact ⟨l, hb, hdense, fun x => by rw [hmem]; simp⟩

lemma cdaScalarFn_isSome {w : ℕ} (tasks : List (ℕ × List (Option UInt64))) (h : (shards w).isSome = true) :
    (tasks.foldl (cdaScalarFn p nw) shards w).isSome = true := by
  induction tasks generalizing shards with
  | nil => exact h
  | cons task tasks ih =>
    refine ih ?_
    rw [cdaScalarFn, update_apply]
    split_ifs
    · rfl
    · exact h

lemma rayCountDistinctApprox_eq (log : Double → Double) (hnw : 0 < nw) {tasks : List (ℕ × List (Option UInt64))}
    (hne : tasks ≠ []) : rayCountDistinctApprox log nw tasks = estimateOf log 14 (hashesOf tasks) := by
  have hstart : Sharded 14 (fun _ => none) fun _ => [] := fun _ => rfl
  obtain ⟨L, hs, hmem⟩ := hstart.tasks hnw tasks
  obtain ⟨task, rest, rfl⟩ := exists_cons_of_ne_nil hne
  have hsome : (((task :: rest).foldl (cdaScalarFn 14 nw) fun _ => none) (task.1 % nw)).isSome = true :=
    cdaScalarFn_isSome rest (by rw [cdaScalarFn, update_self]; rfl)
  have hmerged := hs.merged (range nw)
  rw [rayCountDistinctApprox, mergeShards]
  cases hshards : (range nw).filterMap ((task :: rest).foldl (cdaScalarFn 14 nw) fun _ => none) with
  | nil =>
    rw [hshards] at hmerged
    have hnone := hmerged _ (mem_range.mpr (Nat.mod_lt task.1 hnw))
    rw [hnone] at hsome
    exact absurd hsome Bool.false_ne_true
  | cons base more =>
    rw [hshards] at hmerged
    obtain ⟨l, hb, hdense, hl⟩ := hmerged
    refine (hb.denotes (by decide) (by decide)).estimate_dense hdense (fun x => ?_) log
    rw [hl]
    simpa using hmem x

end

section

variable (log : Double → Double)

lemma clampGroups_range (p : ℕ) : 4 ≤ clampGroups p ∧ clampGroups p ≤ 18 := by
  rw [clampGroups]
  split_ifs <;> omega

lemma groupSketch_built (p : ℕ) (rows : List (Option UInt64)) :
    Built p (groupSketch p rows) rows.reduceOption := by
  have hb := (Built.initSparse (p := p) 256).addRows rows
  rwa [nil_append] at hb

lemma cdaPgBufTask_apply (p : ℕ) (groups : ℕ → List (Option UInt64)) (out : ℕ → Option ℤ) (task : ℕ × ℕ) (g : ℕ) :
    cdaPgBufTask log p groups out task g =
      if task.1 ≤ g ∧ g < task.2 then rayHllEstimate log (groupSketch p (groups g)) else out g := by
  have hrun : ∀ (gs : List ℕ) (out : ℕ → Option ℤ), gs.foldl (fun out g => update out g
      (rayHllEstimate log (groupSketch p (groups g)))) out g =
      if g ∈ gs then rayHllEstimate log (groupSketch p (groups g)) else out g := by
    intro gs
    induction gs with
    | nil => simp
    | cons a gs ih =>
      intro out
      rw [foldl_cons, ih, update_apply]
      by_cases hg : g ∈ gs
      · simp [hg]
      · by_cases ha : g = a <;> simp [hg, ha]
  rw [cdaPgBufTask, hrun]
  refine if_congr ?_ rfl rfl
  rw [mem_range'_1]
  omega

lemma rayCountDistinctApproxPgBuf_eq (p : ℕ) (rows : ℕ → Option UInt64) (idxBuf offsets counts : ℕ → ℕ)
    (tasks : List (ℕ × ℕ))
    (out : ℕ → Option ℤ) (g : ℕ) : rayCountDistinctApproxPgBuf log p rows idxBuf offsets counts tasks out g =
      if ∃ t ∈ tasks, t.1 ≤ g ∧ g < t.2 then
        rayHllEstimate log (groupSketch (clampGroups p) (groupRows rows idxBuf offsets counts g))
      else out g := by
  rw [rayCountDistinctApproxPgBuf]
  induction tasks generalizing out with
  | nil => simp
  | cons task tasks ih =>
    rw [foldl_cons, ih, cdaPgBufTask_apply]
    by_cases hin : ∃ t ∈ tasks, t.1 ≤ g ∧ g < t.2
    · have hin' : ∃ t ∈ task :: tasks, t.1 ≤ g ∧ g < t.2 := by
        obtain ⟨t, ht, hg⟩ := hin
        exact ⟨t, mem_cons_of_mem _ ht, hg⟩
      rw [if_pos hin, if_pos hin']
    · rw [if_neg hin]
      refine if_congr ?_ rfl rfl
      simp only [mem_cons, exists_eq_or_imp, hin, or_false]

end

section

variable {p ng : ℕ} {banks : ℕ → ℕ → Sketch} {L : ℕ → ℕ → List UInt64}

def rowsOf (g : ℕ) (rows : List (ℤ × Option UInt64)) : List (Option UInt64) :=
  (rows.filter fun r => r.1 = (g : ℤ)).map Prod.snd

def groupHashes (g : ℕ) (rows : List (ℤ × Option UInt64)) : List UInt64 := (rowsOf g rows).reduceOption

lemma streamRows_eq {g : ℕ} (hg : g < ng) (bank : ℕ → Sketch) (rows : List (ℤ × Option UInt64)) :
    rows.foldl (streamRow ng) bank g = addRows (bank g) (rowsOf g rows) := by
  induction rows generalizing bank with
  | nil => rfl
  | cons row rows ih =>
    obtain ⟨gid, x⟩ := row
    rw [foldl_cons, ih]
    by_cases hgid : gid = g
    · subst hgid
      cases x <;> simp [streamRow, (Int.natCast_nonneg g).not_gt, Nat.not_le.mpr hg, rowsOf, addRows]
    · have hrow : streamRow ng bank (gid, x) g = bank g := by
        rw [streamRow]
        split_ifs with hout
        · rfl
        · cases x with
          | none => rfl
          | some x =>
            have hne : g ≠ gid.toNat := by
              rintro rfl
              exact hgid (by dsimp only at hout; omega)
            exact update_of_ne hne _ _
      have hskip : rowsOf g ((gid, x) :: rows) = rowsOf g rows := by simp [rowsOf, hgid]
      rw [hskip, hrow]

lemma cdaPgStreamTask_built {g : ℕ} {L : ℕ → List UInt64} (hg : g < ng) (hb : ∀ w, Built p (banks w g) (L w))
    (task : ℕ × List (ℤ × Option UInt64)) (w : ℕ) :
    Built p (cdaPgStreamTask ng banks task w g) (update L task.1 (L task.1 ++ groupHashes g task.2) w) := by
  rw [cdaPgStreamTask]
  by_cases hw : w = task.1
  · subst hw
    rw [update_self, update_self]
    rw [streamRows_eq hg]
    exact (hb _).addRows _
  · rw [update_of_ne hw, update_of_ne hw]
    exact hb w

def streamHashes (g : ℕ) (tasks : List (ℕ × List (ℤ × Option UInt64))) : List UInt64 :=
  tasks.flatMap fun t => groupHashes g t.2

lemma streamTasks_built {nw g : ℕ} {L : ℕ → List UInt64} (hg : g < ng) (hb : ∀ w, Built p (banks w g) (L w))
    {tasks : List (ℕ × List (ℤ × Option UInt64))} (hworkers : ∀ t ∈ tasks, t.1 < nw) :
    ∃ L' : ℕ → List UInt64, (∀ w, Built p (tasks.foldl (cdaPgStreamTask ng) banks w g) (L' w)) ∧
      ∀ x, (∃ w < nw, x ∈ L' w) ↔ (∃ w < nw, x ∈ L w) ∨ x ∈ streamHashes g tasks := by
  induction tasks generalizing banks L with
  | nil => exact ⟨L, hb, fun x => by simp [streamHashes]⟩
  | cons task tasks ih =>
    obtain ⟨hw, hworkers⟩ := forall_mem_cons.mp hworkers
    obtain ⟨L', hb', hmem⟩ := ih (cdaPgStreamTask_built hg hb task) hworkers
    refine ⟨L', hb', fun x => ?_⟩
    rw [hmem, mem_dealt hw]
    simp only [streamHashes, flatMap_cons, mem_append, or_assoc]

lemma foldl_merge_built {g : ℕ} {L : ℕ → List UInt64} (hb : ∀ w, Built p (banks w g) (L w)) {h : Sketch}
    {l : List UInt64} (hh : Built p h l) (ws : List ℕ) :
    ∃ l', Built p (ws.foldl (fun dst w => rayHllMerge dst (banks w g)) h) l' ∧ ∀ x, x ∈ l' ↔ x ∈ l ∨
      ∃ w ∈ ws, x ∈ L w := by
  induction ws generalizing h l with
  | nil => exact ⟨l, hh, fun x => by simp⟩
  | cons w ws ih =>
    obtain ⟨l', hb', hmem⟩ := ih (hh.merge (hb w))
    refine ⟨l', hb', fun x => ?_⟩
    rw [hmem, mem_append]
    simp [or_assoc]

lemma foldl_merge_dense {g : ℕ} {h : Sketch} (hdense : h.regs ≠ none) (ws : List ℕ) :
    (ws.foldl (fun dst w => rayHllMerge dst (banks w g)) h).regs ≠ none := by
  induction ws generalizing h with
  | nil => exact hdense
  | cons w ws ih => exact ih (merge_dense (.inl hdense))

lemma rayCountDistinctApproxPgStream_eq (log : Double → Double) (q : ℕ) {nw g : ℕ} (hnw : 2 ≤ nw) (hg : g < ng)
    {tasks : List (ℕ × List (ℤ × Option UInt64))} (hworkers : ∀ t ∈ tasks, t.1 < nw) :
    rayCountDistinctApproxPgStream log q nw ng tasks g =
      estimateOf log (clampGroups q) (streamHashes g tasks) := by
  obtain ⟨hp, hp'⟩ := clampGroups_range q
  obtain ⟨L, hb, hmem⟩ := @streamTasks_built (clampGroups q) ng
    (fun _ _ => rayHllInitSparse (clampGroups q) 256) nw g (fun _ => []) hg
    (fun _ => .initSparse 256) tasks hworkers
  obtain ⟨l, hl, hlmem⟩ := foldl_merge_built hb (hb 0) (range' 1 (nw - 1))
  have hdense : ((range' 1 (nw - 1)).foldl (fun dst w => rayHllMerge dst
      (tasks.foldl (cdaPgStreamTask ng) (fun _ _ => rayHllInitSparse (clampGroups q) 256) w g))
      (tasks.foldl (cdaPgStreamTask ng) (fun _ _ => rayHllInitSparse (clampGroups q) 256) 0 g)).regs ≠ none := by
    obtain ⟨k, rfl⟩ := Nat.exists_eq_add_of_le hnw
    rw [show 2 + k - 1 = k + 1 by omega, range'_succ, foldl_cons]
    exact foldl_merge_dense (merge_dense
      (.inr (((hb 0).denotes hp hp').m_eq.trans ((hb 1).denotes hp hp').m_eq.symm))) _
  refine (hl.denotes hp hp').estimate_dense hdense (fun x => ?_) log
  have hall : (x ∈ L 0 ∨ ∃ w ∈ range' 1 (nw - 1), x ∈ L w) ↔ ∃ w < nw, x ∈ L w := by
    constructor
    · rintro (hx | ⟨w, hw, hx⟩)
      · exact ⟨0, by omega, hx⟩
      · rw [mem_range'_1] at hw
        exact ⟨w, by omega, hx⟩
    · rintro ⟨w, hw, hx⟩
      obtain rfl | hpos := Nat.eq_zero_or_pos w
      · exact .inl hx
      · exact .inr ⟨w, mem_range'_1.mpr (by omega), hx⟩
  rw [hlmem, hall, hmem]
  simp

lemma rayCountDistinctApproxPgStream_one (log : Double → Double) (q : ℕ) {g : ℕ} (hg : g < ng)
    (rows : List (ℤ × Option UInt64)) :
    rayCountDistinctApproxPgStream log q 1 ng [(0, rows)] g =
      rayHllEstimate log (groupSketch (clampGroups q) (rowsOf g rows)) := by
  rw [groupSketch, ← streamRows_eq hg fun _ => rayHllInitSparse (clampGroups q) 256]
  rfl

end

/-- However the hashes came into a sketch, its registers are those of the hashes alone, and so is its estimate
where the sum is taken over the registers in their order or is exact. -/
theorem sketch_registers (log : Double → Double) {p : ℕ} (hp : 4 ≤ p) (hp' : p ≤ 18) (hashes : List UInt64) :
    (∀ x, 1 ≤ rho p x ∧ rho p x ≤ 65 - p) ∧
    (∀ h l, Built p h l → (∀ x, x ∈ l ↔ x ∈ hashes) → (∀ i < 2 ^ p, register h i = rank p hashes i) ∧
      (h.regs = none → ∃ sk, h.sparseKeys = some sk ∧ (sk.map (· >>> 8)).Nodup) ∧
      values h = (((List.range (2 ^ p)).map (rank p hashes) : List ℕ) : Multiset ℕ) ∧
      nZeros h = ((List.range (2 ^ p)).map (rank p hashes)).count 0 ∧
      (h.regs ≠ none ∨ (∀ i < 2 ^ p, rank p hashes i ≤ 53 - p) → rayHllEstimate log h = estimateOf log p hashes)) ∧
    (∀ nw tasks, 0 < nw → tasks ≠ [] → rayCountDistinctApprox log nw tasks = estimateOf log 14 (hashesOf tasks)) ∧
    (∀ q rows, Built (clampGroups q) (groupSketch (clampGroups q) rows) rows.reduceOption) ∧
    (∀ q rows idxBuf offsets counts tasks out g,
      rayCountDistinctApproxPgBuf log q rows idxBuf offsets counts tasks out g =
      if ∃ t ∈ tasks, t.1 ≤ g ∧ g < t.2 then
        rayHllEstimate log (groupSketch (clampGroups q) (groupRows rows idxBuf offsets counts g))
      else out g) ∧
    (∀ q ng rows, ∀ g < ng, rayCountDistinctApproxPgStream log q 1 ng [(0, rows)] g =
      rayHllEstimate log (groupSketch (clampGroups q) (rowsOf g rows))) ∧
    ∀ q nw ng tasks, 2 ≤ nw → (∀ t ∈ tasks, t.1 < nw) → ∀ g < ng,
      rayCountDistinctApproxPgStream log q nw ng tasks g =
        estimateOf log (clampGroups q) (streamHashes g tasks) := by
  refine ⟨rho_range (by omega) (by omega), fun h l hb hsame => ?_, fun nw tasks hnw hne =>
    rayCountDistinctApprox_eq log hnw hne, fun q => groupSketch_built _, rayCountDistinctApproxPgBuf_eq log,
    fun q ng rows g hg => rayCountDistinctApproxPgStream_one log q hg rows,
    fun q nw ng tasks hnw hworkers g hg => rayCountDistinctApproxPgStream_eq log q hnw hg hworkers⟩
  have hd := (hb.denotes hp hp').congr fun i _ => rank_congr (i := i) hsame
  refine ⟨fun i hi => hd.register hi, fun hnone => ?_, hd.values_eq, hd.nZeros_eq,
    fun hform => (hb.denotes hp hp').estimate (by omega) hsame hform log⟩
  obtain hr | ⟨-, sk, hsk, he⟩ := hd.form
  · rw [hr] at hnone
    exact absurd hnone (by simp)
  · exact ⟨sk, hsk, he.nodup⟩

/-- Two hashes of one index, the second in a sketch of its own. -/
theorem sketch_registers_merged :
    register (rayHllMerge (rayHllAdd (rayHllInit 4) 1) (rayHllAdd (rayHllInitSparse 4 1) 2)) 0 = 60 := by
  have hb : Built 4 (rayHllMerge (rayHllAdd (rayHllInit 4) 1) (rayHllAdd (rayHllInitSparse 4 1) 2)) [1, 2] :=
    .merge (.add 1 .init) (.add 2 (.initSparse 1))
  have h := ((sketch_registers id (by decide) (by decide) [1, 2]).2.1 _ _ hb fun _ => Iff.rfl).1 0 (by decide)
  exact h.trans (by decide)

/-- Sixteen rows of one group, all registers set; the entries of the two least terms come last, their registers do
not. -/
def skewed : List (ℤ × Option UInt64) :=
  ([(0, 8), (1, 11), (2, 15), (3, 21), (4, 29), (5, 36), (6, 43), (7, 44), (8, 46), (9, 47), (10, 54), (11, 56),
    (12, 56), (15, 60),
    (13, 61), (14, 61)] : List (ℕ × ℕ)).map fun e =>
      (0, some (.ofNat (e.1 * 2 ^ 60 + if e.2 ≤ 60 then 2 ^ (60 - e.2) else 0)))

theorem pgStream_of_one_and_two_workers :
    (∀ log, rayCountDistinctApproxPgStream log 4 1 1 [(0, skewed)] 0 = some 38930) ∧
      ∀ log, rayCountDistinctApproxPgStream log 4 2 1 [(0, skewed)] 0 = some 38931 := by
  constructor
  · intro log
    rw [rayCountDistinctApproxPgStream, estimate_of_nZeros (by decide +kernel) log id]
    decide +kernel
  · intro log
    rw [rayCountDistinctApproxPgStream, estimate_of_nZeros (by decide +kernel) log id]
    decide +kernel

end Rayforce.Hll
