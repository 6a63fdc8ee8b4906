import Mathlib

/-! The sketches of `hll.c`. -/

namespace Rayforce.Hll

open List

def clz (x : ℕ) : ℕ := 63 - Nat.log2 x

def index (p : ℕ) (hash : UInt64) : ℕ := hash.toNat >>> (64 - p)

def rho (p : ℕ) (hash : UInt64) : ℕ := clz ((hash.toNat <<< p) % 2 ^ 64 ||| 1 <<< (p - 1)) + 1

def entry (idx rho : ℕ) : ℕ := (idx <<< 8) % 2 ^ 32 ||| rho

/-- `ray_hll_t`; a list of entries is as long as `sparse_count`. -/
structure Sketch where
  p : ℕ
  m : ℕ
  regs : Option (List ℕ)
  sparseKeys : Option (List ℕ)
  sparseCap : ℕ

def clampP (p : ℕ) : ℕ := if p < 4 then 4 else if 18 < p then 18 else p

def rayHllInit (p : ℕ) : Sketch := ⟨clampP p, 1 <<< clampP p, some (List.replicate (1 <<< clampP p) 0), none, 0⟩

def rayHllInitSparse (p cap : ℕ) : Sketch := ⟨clampP p, 1 <<< clampP p, none, some [], cap⟩

def raise (d : List ℕ) (idx rho : ℕ) : List ℕ := if d.getD idx 0 < rho then d.set idx rho else d

def mergeSparse (d sk : List ℕ) : List ℕ := sk.foldl (fun d v => raise d (v >>> 8) (v &&& 255)) d

def rayHllPromoteToDense (h : Sketch) : Sketch :=
  match h.regs with
  | some _ => h
  | none => { h with regs := some (mergeSparse (List.replicate h.m 0)
    (h.sparseKeys.getD [])), sparseKeys := none, sparseCap := 0 }

def scan (idx rho : ℕ) : List ℕ → Option (List ℕ)
  | [] => none
  | cur :: sk =>
    if cur >>> 8 = idx then some ((if cur &&& 255 < rho then entry idx rho else cur) :: sk)
    else (scan idx rho sk).map (cur :: ·)

def rayHllAdd (h : Sketch) (hash : UInt64) : Sketch :=
  let idx := index h.p hash
  let rho := rho h.p hash
  match h.regs with
  | some d => { h with regs := some (raise d idx rho) }
  | none =>
    let sk := h.sparseKeys.getD []
    match scan idx rho sk with
    | some sk => { h with sparseKeys := some sk }
    | none =>
      if sk.length < h.sparseCap then { h with sparseKeys := some (sk ++ [entry idx rho]) }
      else
        let h := rayHllPromoteToDense h
        { h with regs := h.regs.map fun d => raise d idx rho }

def rayHllReset (h : Sketch) : Sketch :=
  match h.regs with
  | some _ => { h with regs := some (List.replicate h.m 0) }
  | none => { h with sparseKeys := h.sparseKeys.map fun _ => [] }

def rayHllMerge (dst src : Sketch) : Sketch :=
  if dst.m ≠ src.m then dst
  else
    let dst := rayHllPromoteToDense dst
    match src.regs, src.sparseKeys with
    | some s, _ => { dst with regs := dst.regs.map fun d => List.zipWith max d s }
    | none, some sk => { dst with regs := dst.regs.map fun d => mergeSparse d sk }
    | none, none => dst

def values (h : Sketch) : Multiset ℕ :=
  match h.regs, h.sparseKeys with
  | some d, _ => d
  | none, some sk => Multiset.replicate (h.m - sk.length) 0 + ((sk.map (· &&& 255) : List ℕ) : Multiset ℕ)
  | none, none => Multiset.replicate h.m 0

def nZeros (h : Sketch) : ℕ :=
  match h.regs, h.sparseKeys with
  | some d, _ => d.count 0
  | none, some sk => h.m - sk.length
  | none, none => h.m

section

variable {p : ℕ}

lemma entry_fields {idx r : ℕ} (hidx : idx < 2 ^ 24) (hr : r < 2 ^ 8) :
    entry idx r >>> 8 = idx ∧ entry idx r &&& 255 = r := by
  have hmod : (idx <<< 8) % 2 ^ 32 = idx <<< 8 := by
    rw [Nat.shiftLeft_eq]
    omega
  have hmask : (255 : ℕ) = 2 ^ 8 - 1 := rfl
  rw [entry, hmod, ← Nat.shiftLeft_add_eq_or_of_lt hr, Nat.shiftRight_eq_div_pow, hmask,
    Nat.and_two_pow_sub_one_eq_mod, Nat.shiftLeft_eq]
  omega

lemma index_lt (hp : p ≤ 64) (hash : UInt64) : index p hash < 2 ^ p := by
  have hlt := hash.toNat_lt
  rw [index, Nat.shiftRight_eq_div_pow, Nat.div_lt_iff_lt_mul (by positivity), ← pow_add, Nat.add_sub_cancel' hp]
  exact hlt

lemma rho_range (hp : 0 < p) (hp' : p ≤ 64) (hash : UInt64) : 1 ≤ rho p hash ∧ rho p hash ≤ 65 - p := by
  have hbit : 2 ^ (p - 1) ≤ (hash.toNat <<< p) % 2 ^ 64 ||| 1 <<< (p - 1) := by
    rw [Nat.one_shiftLeft]
    exact Nat.right_le_or
  have hne : (hash.toNat <<< p) % 2 ^ 64 ||| 1 <<< (p - 1) ≠ 0 := (lt_of_lt_of_le (by positivity) hbit).ne'
  have hlog := (Nat.le_log2 hne).mpr hbit
  rw [rho, clz]
  omega

end

def rank (p : ℕ) (hashes : List UInt64) (i : ℕ) : ℕ :=
  ((hashes.filter fun x => index p x = i).map (rho p)).foldr max 0

section

variable {p : ℕ} {l l' : List UInt64} {i : ℕ}

lemma rank_nil : rank p [] i = 0 := rfl

lemma rank_cons (x : UInt64) : rank p (x :: l) i = max (if index p x = i then rho p x else 0) (rank p l i) := by
  rw [rank, filter_cons]
  by_cases h : index p x = i <;> simp [h, rank]

lemma rank_append : rank p (l ++ l') i = max (rank p l i) (rank p l' i) := by
  induction l with
  | nil => simp [rank_nil]
  | cons x l ih => rw [cons_append, rank_cons, ih, rank_cons, max_assoc]

lemma rank_le {k : ℕ} : rank p l i ≤ k ↔ ∀ x ∈ l, index p x = i → rho p x ≤ k := by
  induction l with
  | nil => simp [rank_nil]
  | cons x l ih =>
    rw [rank_cons, max_le_iff, ih, forall_mem_cons]
    by_cases h : index p x = i <;> simp [h]

lemma rank_congr (h : ∀ x, x ∈ l ↔ x ∈ l') : rank p l i = rank p l' i :=
  le_antisymm (rank_le.mpr fun x hx => rank_le.mp le_rfl x ((h x).mp hx))
    (rank_le.mpr fun x hx => rank_le.mp le_rfl x ((h x).mpr hx))

end

structure Entries (n : ℕ) (f : ℕ → ℕ) (sk : List ℕ) : Prop where
  nodup : (sk.map (· >>> 8)).Nodup
  bound : ∀ v ∈ sk, v >>> 8 < n
  value : ∀ v ∈ sk, v &&& 255 = f (v >>> 8)
  pos : ∀ v ∈ sk, 0 < f (v >>> 8)
  all : ∀ i < n, 0 < f i → ∃ v ∈ sk, v >>> 8 = i

structure Denotes (p : ℕ) (f : ℕ → ℕ) (h : Sketch) : Prop where
  p_eq : h.p = p
  m_eq : h.m = 2 ^ p
  form : h.regs = some ((List.range (2 ^ p)).map f) ∨ h.regs = none ∧ ∃ sk, h.sparseKeys = some sk ∧
    Entries (2 ^ p) f sk

section

variable {n i r : ℕ} {f g : ℕ → ℕ} {sk : List ℕ}

def raised (f : ℕ → ℕ) (i r : ℕ) : ℕ → ℕ := fun j => if j = i then max (f j) r else f j

lemma raise_map (hi : i < n) : raise ((List.range n).map f) i r = (List.range n).map (raised f i r) := by
  have hget : ((range n).map f).getD i 0 = f i := by simp [getD, hi]
  rw [raise, hget]
  apply ext_getElem?
  intro j
  by_cases hj : j < n
  · split_ifs with hr
    · by_cases hij : i = j
      · subst hij
        simp [raised, hj, hr.le]
      · rw [getElem?_set_ne hij]
        simp [raised, hj, Ne.symm hij]
    · by_cases hij : j = i
      · subst hij
        simp [raised, hj, not_lt.mp hr]
      · simp [raised, hj, hij]
  · split_ifs <;> simp [hj]

lemma mergeSparse_map (hb : ∀ v ∈ sk, v >>> 8 < n) : mergeSparse ((List.range n).map f) sk =
    (List.range n).map (sk.foldl (fun f v => raised f (v >>> 8) (v &&& 255)) f) := by
  induction sk generalizing f with
  | nil => rfl
  | cons v sk ih =>
    have hv := hb v mem_cons_self
    exact (congrArg (fun d => mergeSparse d sk) (raise_map hv)).trans (ih fun w hw => hb w (mem_cons_of_mem _ hw))

lemma foldl_raised (j : ℕ) : sk.foldl (fun f v => raised f (v >>> 8) (v &&& 255)) f j =
    max (f j) (((sk.filter fun v => v >>> 8 = j).map (· &&& 255)).foldr max 0) := by
  induction sk generalizing f with
  | nil => simp
  | cons v sk ih =>
    rw [foldl_cons, ih, filter_cons, raised]
    by_cases hv : v >>> 8 = j
    · simp [hv, max_assoc]
    · simp [hv, Ne.symm hv]

lemma foldr_max_le {l : List ℕ} {k : ℕ} : l.foldr max 0 ≤ k ↔ ∀ x ∈ l, x ≤ k := by
  induction l with
  | nil => simp
  | cons x l ih => rw [foldr_cons, max_le_iff, ih, forall_mem_cons]

lemma Entries.merge (he : Entries n g sk) : mergeSparse ((List.range n).map f) sk = (List.range n).map fun j =>
    max (f j) (g j) := by
  rw [mergeSparse_map he.bound]
  refine map_congr_left fun j hj => ?_
  rw [foldl_raised]
  refine congrArg (max (f j)) (le_antisymm (foldr_max_le.mpr fun x hx => ?_) ?_)
  · obtain ⟨v, hv, rfl⟩ := mem_map.mp hx
    obtain ⟨hv, hvj⟩ := mem_filter.mp hv
    rw [he.value v hv, of_decide_eq_true hvj]
  · obtain hzero | hpos := Nat.eq_zero_or_pos (g j)
    · rw [hzero]
      exact Nat.zero_le _
    · obtain ⟨v, hv, hvj⟩ := he.all j (mem_range.mp hj) hpos
      refine (foldr_max_le.mp le_rfl) _ (mem_map.mpr ⟨v, mem_filter.mpr ⟨hv, decide_eq_true hvj⟩, ?_⟩)
      rw [he.value v hv, hvj]

end

section

variable {n idx r : ℕ} {f : ℕ → ℕ} {sk sk' : List ℕ}

lemma scan_some (h : scan idx r sk = some sk') : ∃ a v b, sk = a ++ v :: b ∧ v >>> 8 = idx ∧
    sk' = a ++ (if v &&& 255 < r then entry idx r else v) :: b := by
  induction sk generalizing sk' with
  | nil => simp [scan] at h
  | cons v sk ih =>
    rw [scan] at h
    by_cases hv : v >>> 8 = idx
    · rw [if_pos hv] at h
      exact ⟨[], v, sk, rfl, hv, (Option.some.inj h).symm⟩
    · rw [if_neg hv] at h
      obtain ⟨t, ht, rfl⟩ := Option.map_eq_some_iff.mp h
      obtain ⟨a, w, b, rfl, hw, rfl⟩ := ih ht
      exact ⟨v :: a, w, b, rfl, hw, rfl⟩

lemma scan_none (h : scan idx r sk = none) : ∀ v ∈ sk, v >>> 8 ≠ idx := by
  induction sk with
  | nil => simp
  | cons v sk ih =>
    rw [scan] at h
    split_ifs at h with hv
    exact forall_mem_cons.mpr ⟨hv, ih (Option.map_eq_none_iff.mp h)⟩

variable (he : Entries n f sk) (hn : n ≤ 2 ^ 24) (hidx : idx < n) (hpos : 0 < r) (hr : r < 2 ^ 8)

include he hn hidx hpos hr

lemma Entries.update (h : scan idx r sk = some sk') : Entries n (raised f idx r) sk' := by
  obtain ⟨a, v, b, rfl, hv, rfl⟩ := scan_some h
  obtain ⟨hfst, hsnd⟩ := entry_fields (hidx.trans_le hn) hr
  have hkey : (if v &&& 255 < r then entry idx r else v) >>> 8 = idx := by
    split_ifs
    · exact hfst
    · exact hv
  have hval : (if v &&& 255 < r then entry idx r else v) &&& 255 = max (f idx) r := by
    have hfv := he.value v (by simp)
    rw [hv] at hfv
    split_ifs with hlt
    · rw [hsnd, max_eq_right (hfv ▸ hlt.le)]
    · rw [hfv, max_eq_left (hfv ▸ not_lt.mp hlt)]
  have hkeys : (a ++ (if v &&& 255 < r then entry idx r else v) :: b).map (· >>> 8) =
      (a ++ v :: b).map (· >>> 8) := by
    rw [map_append, map_append, map_cons, map_cons, hkey, hv]
  have hother : ∀ w ∈ a ++ b, w >>> 8 ≠ idx := by
    intro w hw hwi
    have hperm : (a ++ v :: b).Perm (v :: (a ++ b)) := perm_middle
    have hnodup := (hperm.map (· >>> 8)).nodup_iff.mp he.nodup
    rw [map_cons, nodup_cons] at hnodup
    exact hnodup.1 (mem_map.mpr ⟨w, hw, hwi.trans hv.symm⟩)
  have hmem : ∀ w, w ∈ a ++ (if v &&& 255 < r then entry idx r else v) :: b ↔
      w = (if v &&& 255 < r then entry idx r else v) ∨ w ∈ a ++ b :=
    fun w => by simp only [mem_append, mem_cons]; tauto
  have hold : ∀ w ∈ a ++ b, w ∈ a ++ v :: b := fun w hw => by simp only [mem_append, mem_cons] at hw ⊢; tauto
  refine ⟨hkeys ▸ he.nodup, fun w hw => ?_, fun w hw => ?_, fun w hw => ?_, fun i hi hp => ?_⟩
  · obtain rfl | hw := (hmem w).mp hw
    · rwa [hkey]
    · exact he.bound w (hold w hw)
  · obtain rfl | hw := (hmem w).mp hw
    · rw [hkey, hval, raised, if_pos rfl]
    · rw [raised, if_neg (hother w hw), he.value w (hold w hw)]
  · obtain rfl | hw := (hmem w).mp hw
    · rw [hkey, raised, if_pos rfl]
      exact hpos.trans_le (le_max_right _ _)
    · rw [raised, if_neg (hother w hw)]
      exact he.pos w (hold w hw)
  · by_cases hij : i = idx
    · exact ⟨_, (hmem _).mpr (.inl rfl), hkey.trans hij.symm⟩
    · rw [raised, if_neg hij] at hp
      obtain ⟨w, hw, hwi⟩ := he.all i hi hp
      obtain hw | hw | hw : w ∈ a ∨ w = v ∨ w ∈ b := by simpa using hw
      · exact ⟨w, (hmem w).mpr (.inr (mem_append_left _ hw)), hwi⟩
      · exact absurd (hwi.symm.trans (hw ▸ hv)) hij
      · exact ⟨w, (hmem w).mpr (.inr (mem_append_right _ hw)), hwi⟩

lemma Entries.snoc (h : ∀ v ∈ sk, v >>> 8 ≠ idx) : Entries n (raised f idx r) (sk ++ [entry idx r]) := by
  obtain ⟨hfst, hsnd⟩ := entry_fields (hidx.trans_le hn) hr
  have hzero : f idx = 0 := by
    by_contra hne
    obtain ⟨v, hv, hvi⟩ := he.all idx hidx (Nat.pos_of_ne_zero hne)
    exact h v hv hvi
  have hmem : ∀ w, w ∈ sk ++ [entry idx r] ↔ w = entry idx r ∨ w ∈ sk := fun w => by
    simp only [mem_append, mem_singleton]; tauto
  refine ⟨?_, fun w hw => ?_, fun w hw => ?_, fun w hw => ?_, fun i hi hp => ?_⟩
  · rw [map_append, map_singleton, hfst]
    refine List.Nodup.append he.nodup (nodup_singleton _) ?_
    rw [disjoint_singleton]
    intro hin
    obtain ⟨v, hv, hvi⟩ := mem_map.mp hin
    exact h v hv hvi
  · obtain rfl | hw := (hmem w).mp hw
    · rwa [hfst]
    · exact he.bound w hw
  · obtain rfl | hw := (hmem w).mp hw
    · rw [hfst, hsnd, raised, if_pos rfl, hzero, Nat.zero_max]
    · rw [raised, if_neg (h w hw), he.value w hw]
  · obtain rfl | hw := (hmem w).mp hw
    · rw [hfst, raised, if_pos rfl]
      exact hpos.trans_le (le_max_right _ _)
    · rw [raised, if_neg (h w hw)]
      exact he.pos w hw
  · by_cases hij : i = idx
    · exact ⟨_, (hmem _).mpr (.inl rfl), hfst.trans hij.symm⟩
    · rw [raised, if_neg hij] at hp
      obtain ⟨w, hw, hwi⟩ := he.all i hi hp
      exact ⟨w, (hmem w).mpr (.inr hw), hwi⟩

end

section

variable {p : ℕ} {f g : ℕ → ℕ} {h s : Sketch}

lemma clampP_eq (hp : 4 ≤ p) (hp' : p ≤ 18) : clampP p = p := by
  rw [clampP, if_neg (not_lt.mpr hp), if_neg (not_lt.mpr hp')]

lemma denotes_init (hp : 4 ≤ p) (hp' : p ≤ 18) : Denotes p (fun _ => 0) (rayHllInit p) := by
  rw [rayHllInit, clampP_eq hp hp', Nat.one_shiftLeft]
  exact ⟨rfl, rfl, .inl (by simp)⟩

lemma denotes_initSparse (hp : 4 ≤ p) (hp' : p ≤ 18) (cap : ℕ) :
    Denotes p (fun _ => 0) (rayHllInitSparse p cap) := by
  rw [rayHllInitSparse, clampP_eq hp hp', Nat.one_shiftLeft]
  refine ⟨rfl, rfl, .inr ⟨rfl, [], rfl, nodup_nil, ?_, ?_, ?_, fun i _ h => absurd h (lt_irrefl 0)⟩⟩
  all_goals exact fun v hv => absurd hv not_mem_nil

lemma Denotes.congr (hd : Denotes p f h) (hfg : ∀ i < 2 ^ p, f i = g i) : Denotes p g h := by
  refine ⟨hd.p_eq, hd.m_eq, hd.form.imp (fun hr => ?_) ?_⟩
  · rw [hr, map_congr_left fun i hi => hfg i (mem_range.mp hi)]
  · rintro ⟨hr, sk, hsk, he⟩
    refine ⟨hr, sk, hsk, he.nodup, he.bound, fun v hv => ?_, fun v hv => ?_, fun i hi hg => ?_⟩
    · rw [he.value v hv, hfg _ (he.bound v hv)]
    · rw [← hfg _ (he.bound v hv)]
      exact he.pos v hv
    · exact he.all i hi (by rwa [hfg i hi])

lemma Denotes.promote_regs (hd : Denotes p f h) : (rayHllPromoteToDense h).regs =
    some ((List.range (2 ^ p)).map f) := by
  obtain hr | ⟨hr, sk, hsk, he⟩ := hd.form
  · simp only [rayHllPromoteToDense, hr]
  · have hzero : replicate h.m 0 = (range (2 ^ p)).map fun _ => 0 := by
      rw [hd.m_eq]
      simp
    simp only [rayHllPromoteToDense, hr, hsk, Option.getD_some]
    rw [hzero, he.merge]
    simp

lemma promote_p (h : Sketch) : (rayHllPromoteToDense h).p = h.p := by
  rw [rayHllPromoteToDense]
  split <;> rfl

lemma promote_m (h : Sketch) : (rayHllPromoteToDense h).m = h.m := by
  rw [rayHllPromoteToDense]
  split <;> rfl

section

variable (hd : Denotes p f h)
include hd

lemma Denotes.promote : Denotes p f (rayHllPromoteToDense h) :=
  ⟨(promote_p h).trans hd.p_eq, (promote_m h).trans hd.m_eq, .inl hd.promote_regs⟩

lemma Denotes.add (hp : 4 ≤ p) (hp' : p ≤ 18) (x : UInt64) :
    Denotes p (raised f (index p x) (rho p x)) (rayHllAdd h x) := by
  have hidx := index_lt (hp'.trans (by decide)) x
  obtain ⟨hpos, hle⟩ := rho_range (p := p) (by omega) (by omega) x
  have hr : rho p x < 2 ^ 8 := by omega
  have hn : 2 ^ p ≤ 2 ^ 24 := Nat.pow_le_pow_right (by decide) (by omega)
  obtain ⟨hpe, hm, hr' | ⟨hnone, sk, hsk, he⟩⟩ := hd
  · simp only [rayHllAdd, hr', hpe]
    exact ⟨rfl, hm, .inl (by rw [raise_map hidx])⟩
  · simp only [rayHllAdd, hnone, hsk, hpe, Option.getD_some]
    cases hscan : scan (index p x) (rho p x) sk with
    | some sk' => exact ⟨rfl, hm, .inr ⟨rfl, sk', rfl, he.update hn hidx hpos hr hscan⟩⟩
    | none =>
      dsimp only
      split_ifs
      · exact ⟨rfl, hm, .inr ⟨rfl, _, rfl, he.snoc hn hidx hpos hr (scan_none hscan)⟩⟩
      · have hprom := Denotes.promote (h := h) (f := f) ⟨hpe, hm, .inr ⟨hnone, sk, hsk, he⟩⟩
        have hregs := Denotes.promote_regs (h := h) (f := f) ⟨hpe, hm, .inr ⟨hnone, sk, hsk, he⟩⟩
        exact ⟨hprom.p_eq, hprom.m_eq, .inl (by rw [hregs, Option.map_some, raise_map hidx])⟩

lemma Denotes.reset : Denotes p (fun _ => 0) (rayHllReset h) := by
  obtain ⟨hpe, hm, hr | ⟨hnone, sk, hsk, he⟩⟩ := hd
  · simp only [rayHllReset, hr]
    exact ⟨hpe, hm, .inl (by rw [hm]; simp)⟩
  · simp only [rayHllReset, hnone, hsk, Option.map_some]
    refine ⟨hpe, hm, .inr ⟨rfl, [], rfl, nodup_nil, ?_, ?_, ?_, fun i _ h => absurd h (lt_irrefl 0)⟩⟩
    all_goals exact fun v hv => absurd hv not_mem_nil

lemma Denotes.merge_regs (hs : Denotes p g s) :
    (rayHllMerge h s).regs = some ((List.range (2 ^ p)).map fun i => max (f i) (g i)) := by
  have hm : ¬ h.m ≠ s.m := not_not.mpr (hd.m_eq.trans hs.m_eq.symm)
  obtain hr | ⟨hnone, sk, hsk, he⟩ := hs.form
  · simp only [rayHllMerge, if_neg hm, hr, hd.promote_regs, Option.map_some]
    rw [zipWith_map, zipWith_self]
  · simp only [rayHllMerge, if_neg hm, hnone, hsk, hd.promote_regs, Option.map_some]
    rw [he.merge]

lemma Denotes.merge (hs : Denotes p g s) : Denotes p (fun i => max (f i) (g i)) (rayHllMerge h s) := by
  refine ⟨?_, ?_, .inl (hd.merge_regs hs)⟩
  · rw [rayHllMerge]
    split_ifs
    · exact hd.p_eq
    · split <;> exact hd.promote.p_eq
  · rw [rayHllMerge]
    split_ifs
    · exact hd.m_eq
    · split <;> exact hd.promote.m_eq

end

end

section

variable {p n : ℕ} {f : ℕ → ℕ} {h : Sketch} {sk : List ℕ}

lemma Entries.values (he : Entries n f sk) :
    Multiset.replicate (n - sk.length) 0 + ((sk.map (· &&& 255) : List ℕ) : Multiset ℕ) =
    (((List.range n).map f : List ℕ) : Multiset ℕ) := by
  have hperm : (range n).Perm (sk.map (· >>> 8) ++ (range n).filter (· ∉ sk.map (· >>> 8))) := by
    refine (perm_ext_iff_of_nodup nodup_range ?_).mpr fun i => ?_
    · refine he.nodup.append (nodup_range.filter _) fun i hi hi' => ?_
      exact of_decide_eq_true (mem_filter.mp hi').2 hi
    · have hbound : i ∈ sk.map (· >>> 8) → i < n := by
        intro hi
        obtain ⟨v, hv, rfl⟩ := mem_map.mp hi
        exact he.bound v hv
      rw [mem_append, mem_filter, mem_range, decide_eq_true_eq]
      tauto
  have hrest : ((range n).filter (· ∉ sk.map (· >>> 8))).map f = replicate (n - sk.length) 0 := by
    have hlen := hperm.length_eq
    rw [length_range, length_append, length_map] at hlen
    refine eq_replicate_iff.mpr ⟨by rw [length_map]; omega, fun x hx => ?_⟩
    obtain ⟨i, hi, rfl⟩ := mem_map.mp hx
    obtain ⟨hin, hnot⟩ := mem_filter.mp hi
    by_contra hne
    obtain ⟨v, hv, hvi⟩ := he.all i (mem_range.mp hin) (Nat.pos_of_ne_zero hne)
    exact of_decide_eq_true hnot (mem_map.mpr ⟨v, hv, hvi⟩)
  have hkeys : (sk.map (· >>> 8)).map f = sk.map (· &&& 255) := by
    rw [map_map]
    exact map_congr_left fun v hv => (he.value v hv).symm
  rw [Multiset.coe_eq_coe.mpr (hperm.map f), map_append, hrest, hkeys, ← Multiset.coe_add, add_comm,
    Multiset.coe_replicate]

lemma Denotes.values_eq (hd : Denotes p f h) :
    values h = (((List.range (2 ^ p)).map f : List ℕ) : Multiset ℕ) := by
  obtain hr | ⟨hnone, sk, hsk, he⟩ := hd.form
  · simp only [values, hr]
  · simp only [values, hnone, hsk, hd.m_eq]
    exact he.values

lemma Denotes.nZeros_eq (hd : Denotes p f h) : nZeros h = ((List.range (2 ^ p)).map f).count 0 := by
  rw [← Multiset.coe_count, ← hd.values_eq]
  obtain hr | ⟨hnone, sk, hsk, he⟩ := hd.form
  · simp only [nZeros, values, hr, Multiset.coe_count]
  · have hzero : (sk.map (· &&& 255)).count 0 = 0 := by
      rw [count_eq_zero]
      intro hin
      obtain ⟨v, hv, hv0⟩ := mem_map.mp hin
      have hpos := he.pos v hv
      rw [← he.value v hv] at hpos
      exact hpos.ne' hv0
    simp only [nZeros, values, hnone, hsk, Multiset.count_add, Multiset.coe_count, hzero,
      Multiset.count_replicate_self, add_zero]

end

inductive Built (p : ℕ) : Sketch → List UInt64 → Prop
  | init : Built p (rayHllInit p) []
  | initSparse (cap : ℕ) : Built p (rayHllInitSparse p cap) []
  | add {h : Sketch} {l : List UInt64} (x : UInt64) : Built p h l → Built p (rayHllAdd h x) (l ++ [x])
  | promote {h : Sketch} {l : List UInt64} : Built p h l → Built p (rayHllPromoteToDense h) l
  | reset {h : Sketch} {l : List UInt64} : Built p h l → Built p (rayHllReset h) []
  | merge {h s : Sketch} {l l' : List UInt64} : Built p h l → Built p s l' → Built p (rayHllMerge h s) (l ++ l')

lemma Built.denotes {p : ℕ} {h : Sketch} {l : List UInt64} (hb : Built p h l) (hp : 4 ≤ p) (hp' : p ≤ 18) :
    Denotes p (rank p l) h := by
  induction hb with
  | init => exact denotes_init hp hp'
  | initSparse cap => exact denotes_initSparse hp hp' cap
  | add x _ ih =>
    refine (ih.add hp hp' x).congr fun i _ => ?_
    rw [rank_append, rank_cons, rank_nil, raised, Nat.max_zero]
    by_cases hi : i = index p x
    · rw [if_pos hi, if_pos hi.symm]
    · rw [if_neg hi, if_neg (Ne.symm hi), Nat.max_zero]
  | promote _ ih => exact ih.promote
  | reset _ ih => exact ih.reset
  | merge _ _ ih ih' => exact (ih.merge ih').congr fun i _ => rank_append.symm

end Rayforce.Hll
