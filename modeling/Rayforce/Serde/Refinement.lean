import Rayforce.Serde.Parse

namespace Rayforce.Serde

open Library.Words List Option

variable {name rest : Bytes} {x : Parsed} {log log' : List Alloc} {s' : DeState}

structure At (m : Bytes) (p : ℕ) (s : DeState) (bs : Bytes) : Prop where
  drop : m.drop p = bs
  inside : p ≤ m.length
  room : s.len = bs.length

-- what an allocation may ask for when `n` bytes were left at entry: a fixed-width vector has its data
-- ahead of it, a string atom has just passed over its own bytes, a list has a byte for each element,
-- and a table has as many columns as a list that was counted before or found in the environment
def AllocOk (rt : Runtime) (n : ℤ) (log : List Alloc) (a : Alloc) : Prop :=
  match a.kind with
  | .fixedWidth esz => a.count * esz ≤ a.room
  | .chars => a.count + a.room ≤ n
  | .counted => a.count ≤ a.room
  | .slots => a.count = 2 ∨ a.count = 7
  | .columns => (∃ b ∈ log, b.kind = .counted ∧ b.count = a.count) ∨
      ∃ name attrs es, rt.env name = some (.list attrs es) ∧ a.count = es.length

def ListOk (rt : Runtime) (log : List Alloc) (o : Obj) : Prop :=
  ∀ attrs es, o = .list attrs es →
    (∃ b ∈ log, b.kind = .counted ∧ b.count = es.length) ∨ ∃ name, rt.env name = some o

def Reads (rt : Runtime) (s : DeState) (bs : Bytes) (r : De) (x : Parsed) : Prop :=
  ∃ log, r = some (x.1, ⟨x.2.length, s.depth, s.allocs ++ log⟩) ∧ x.2 <:+ bs ∧
    (∀ a ∈ log, AllocOk rt bs.length log a) ∧ ListOk rt log x.1

section

variable {rt : Runtime} {m : Bytes} {p : ℕ} {s : DeState} {bs : Bytes}

lemma AllocOk.mono {n n' : ℤ} {a : Alloc} (h : AllocOk rt n log a)
    (hn : n ≤ n') (hs : ∀ b ∈ log, b ∈ log') : AllocOk rt n' log' a := by
  obtain ⟨kind, count, room⟩ := a
  cases kind with
  | chars => exact le_trans h hn
  | columns =>
    rcases h with ⟨b, hb, h⟩ | h
    · exact Or.inl ⟨b, hs b hb, h⟩
    · exact Or.inr h
  | _ => exact h

lemma ListOk.mono {o : Obj} (h : ListOk rt log o) (hs : ∀ b ∈ log, b ∈ log') : ListOk rt log' o := by
  intro attrs es he
  rcases h attrs es he with ⟨b, hb, h⟩ | h
  · exact Or.inl ⟨b, hs b hb, h⟩
  · exact Or.inr h

section

variable (h : At m p s bs)
include h

lemma At.length : p + bs.length = m.length := by
  have := h.inside
  rw [← h.drop, length_drop]
  omega

lemma At.state : s = ⟨bs.length, s.depth, s.allocs⟩ := by
  cases s
  simp [← h.room]

lemma At.skip {n : ℕ} (hn : n ≤ bs.length) : At m (p + n) (s.skip n) (bs.drop n) where
  drop := by rw [← h.drop, drop_drop]
  inside := by have := h.length; omega
  room := by simp [DeState.skip, h.room, length_drop]; omega

lemma At.alloc (k : AllocKind) (c : ℤ) : At m p (s.alloc k c) bs :=
  ⟨h.drop, h.inside, h.room⟩

lemma At.deepen (d : ℕ) : At m p { s with depth := d } bs :=
  ⟨h.drop, h.inside, h.room⟩

lemma rd_at {n : ℕ} (hn : n ≤ bs.length) : rd m p n = some (bs.take n) := by
  have := h.length
  rw [rd, if_pos (by omega), h.drop]

end

lemma cutNul_some (h : cutNul bs = some (name, rest)) : bs = name ++ 0 :: rest := by
  induction bs generalizing name with
  | nil => simp [cutNul] at h
  | cons b bs ih =>
    unfold cutNul at h
    split at h
    · next hb => cases h; simp [hb]
    · simp only [map_eq_some_iff, Prod.mk.injEq, Prod.exists] at h
      obtain ⟨n, r, hc, rfl, rfl⟩ := h
      rw [ih hc, cons_append]

lemma cutNul_suffix (h : cutNul bs = some (name, rest)) : rest <:+ bs := by
  rw [cutNul_some h]
  exact ⟨name ++ [0], by simp⟩

lemma safeStrlen_at (h : At m p s bs) :
    safeStrlen m p bs.length = some ((cutNul bs).elim bs.length fun r => r.1.length) := by
  induction bs generalizing p s with
  | nil => rfl
  | cons b bs ih =>
    have hn := ih (h.skip (n := 1) (by simp))
    simp only [length_cons, safeStrlen, rd_at h (n := 1) (by simp), take_succ_cons,
      take_zero, bind_some, cutNul]
    by_cases hb : b = 0
    · simp [hb]
    · simp only [cons.injEq, hb, and_true, if_false]
      rw [hn]
      cases cutNul bs <;> simp

lemma rd_name (h : At m p s bs) (hc : cutNul bs = some (name, rest)) : rd m p name.length = some name := by
  have hb := cutNul_some hc
  rw [rd_at h (by rw [hb]; simp), hb, take_left]

lemma At.pastName (h : At m p s bs) (hc : cutNul bs = some (name, rest)) :
    At m (p + name.length + 1) (s.skip (name.length + 1)) rest := by
  have hb := cutNul_some hc
  have hr : bs.drop (name.length + 1) = rest := by rw [hb, drop_append]; simp
  have := h.skip (n := name.length + 1) (by rw [hb]; simp)
  rw [hr] at this
  exact this

lemma Reads.plain (hs : x.2 <:+ bs) (hl : ∀ attrs es, x.1 ≠ .list attrs es)
    (hlen : s'.len = x.2.length) (hd : s'.depth = s.depth) (ha : s'.allocs = s.allocs) :
      Reads rt s bs (some (x.1, s')) x := by
  refine ⟨[], ?_, hs, by simp, fun attrs es he => absurd he (hl attrs es)⟩
  cases s'
  simp_all

lemma Reads.raise (h : At m p s bs) {s₀ : DeState} {bs₀ : Bytes} (hs : bs <:+ bs₀)
    (hd : s.depth = s₀.depth) (ha : s.allocs = s₀.allocs) (code : Bytes) :
      Reads rt s₀ bs₀ (raise code s) (.error code, bs) :=
  Reads.plain (x := (.error code, bs)) hs (by simp) h.room hd ha

lemma Reads.unlessShort (h : At m p s bs) {l : ℤ} {n : ℕ} (hn : l = n) {r : De} {code : Bytes}
    (hk : ¬bs.length < n → Reads rt s bs r x) :
    Reads rt s bs (if s.len < l then Serde.raise code s else r)
    (if bs.length < n then (.error code, bs) else x) := by
  by_cases hl : bs.length < n
  · rw [if_pos (by rw [h.room, hn]; exact_mod_cast hl), if_pos hl]
    exact Reads.raise h suffix_rfl rfl rfl _
  · rw [if_neg (by rw [h.room, hn]; exact_mod_cast hl), if_neg hl]
    exact hk hl

lemma Reads.weaken {r : De} {bs' : Bytes} (h : Reads rt s' bs' r x)
    (hs : bs' <:+ bs) (hd : s'.depth = s.depth) (ha : s'.allocs = s.allocs) : Reads rt s bs r x := by
  obtain ⟨log, rfl, hx, hl, ho⟩ := h
  have hn : (bs'.length : ℤ) ≤ bs.length := by exact_mod_cast hs.length_le
  exact ⟨log, by rw [hd, ha], hx.trans hs, fun a hm => (hl a hm).mono hn fun b hb => hb, ho⟩

lemma Reads.afterAlloc {r : De} {k : AllocKind} {c : ℤ}
    (h : Reads rt (s.alloc k c) bs r x) (ha : AllocOk rt bs.length [] ⟨k, c, s.len⟩) : Reads rt s bs r x := by
  obtain ⟨log, rfl, hx, hl, ho⟩ := h
  refine ⟨⟨k, c, s.len⟩ :: log, by simp [DeState.alloc], hx, ?_, ho.mono (by simp +contextual)⟩
  intro a hm
  rcases mem_cons.mp hm with rfl | hm
  · exact ha.mono le_rfl (by simp)
  · exact (hl a hm).mono le_rfl (by simp +contextual)

lemma Reads.counted (h : At m p s bs) {l : ℕ} (hl : ¬bs.length < l) (hs : x.2 <:+ bs)
    (hx : ∀ attrs es, x.1 ≠ .list attrs es) :
      Reads rt s bs (some (x.1, ⟨x.2.length, s.depth, (s.alloc .counted l).allocs⟩)) x := by
  refine Reads.afterAlloc (k := .counted) (c := l) (Reads.plain hs hx rfl rfl rfl) ?_
  simp only [AllocOk, h.room]
  exact_mod_cast not_lt.mp hl

lemma fixedAtom_not_list {t : FixTy} {isNull : Bool} {c : Bytes} {h : c.length = t.size} (attrs : UInt8)
    (es : List Obj) : (if isNull then rayTypedNull t else fixedAtom t c h) ≠ .list attrs es := by
  cases isNull <;> simp [rayTypedNull, fixedAtom]

section

variable (h : At m p s bs)
include h

lemma deFixedAtom_reads (isNull : Bool) (t : FixTy) :
    Reads rt s bs (deFixedAtom m p s isNull t) (parseFixedAtom isNull t bs) := by
  unfold deFixedAtom parseFixedAtom
  by_cases hl : bs.length < t.size
  · rw [if_pos (by rw [h.room]; exact_mod_cast hl), dif_pos hl]
    exact Reads.raise h suffix_rfl rfl rfl _
  · rw [if_neg (by rw [h.room]; exact_mod_cast hl), dif_neg hl]
    have hr := rd_at h (n := t.size) (by omega)
    have hn := h.skip (n := t.size) (by omega)
    split
    · next hc => rw [hr] at hc; cases hc
    · next c hc =>
      rw [hr] at hc
      cases hc
      exact Reads.plain (x := (_, bs.drop t.size)) (drop_suffix _ _) fixedAtom_not_list hn.room rfl rfl

lemma deSymAtom_reads (isNull quoted : Bool) :
    Reads rt s bs (deSymAtom m p s isNull quoted) (parseSymAtom isNull quoted bs) := by
  have hs : s.len.toNat = bs.length := by rw [h.room]; rfl
  unfold deSymAtom parseSymAtom
  rw [hs, safeStrlen_at h]
  cases hc : cutNul bs with
  | none =>
    simp only [Option.elim, bind_some, h.room, le_refl, if_true]
    exact Reads.raise h suffix_rfl rfl rfl _
  | some r =>
    obtain ⟨name, rest⟩ := r
    have hb := cutNul_some hc
    have hlt : ¬ s.len ≤ name.length := by rw [h.room, hb]; simp
    have hn := h.pastName hc
    simp only [Option.elim, bind_some, hlt, if_false, rd_name h hc, map_some]
    cases isNull
    · exact Reads.plain (x := (.atom (.sym name quoted), rest)) (cutNul_suffix hc) (by simp) hn.room rfl rfl
    · exact Reads.plain (x := (.atom (.sym [] false), rest)) (cutNul_suffix hc) (by simp) hn.room rfl rfl

lemma deStrAtom_reads (isNull : Bool) : Reads rt s bs (deStrAtom m p s isNull) (parseStrAtom isNull bs) := by
  unfold deStrAtom parseStrAtom
  refine Reads.unlessShort h (by rfl) fun hl => ?_
  rw [rd_at h (n := 8) (by omega)]
  have h8 := h.skip (n := 8) (by omega)
  have hr : (s.skip 8).len = (bs.drop 8).length := h8.room
  simp only [bind_some, hr]
  generalize leInt (bs.take 8) = slen
  by_cases hc : ((bs.drop 8).length : ℤ) < slen ∨ slen < 0
  · rw [if_pos hc, if_pos hc]
    exact Reads.raise h8 (drop_suffix _ _) rfl rfl _
  rw [if_neg hc, if_neg hc]
  obtain ⟨n, rfl⟩ := Int.eq_ofNat_of_zero_le (by omega : 0 ≤ slen)
  have hn : n ≤ (bs.drop 8).length := by omega
  have hd := h8.skip hn
  have hsuf : (bs.drop 8).drop n <:+ bs := (drop_suffix _ _).trans (drop_suffix _ _)
  cases isNull with
  | true => exact Reads.plain (x := (.atom .nullStr, _)) hsuf (by simp) hd.room rfl rfl
  | false =>
    simp only [Int.toNat_natCast, rd_at h8 hn, map_some, Bool.false_eq_true, if_false]
    refine ⟨[⟨.chars, n, ((bs.drop 8).drop n).length⟩], ?_, hsuf, ?_, fun _ _ he => by cases he⟩
    · rw [← hd.room]
      rfl
    · simp only [mem_singleton, forall_eq, AllocOk, length_drop] at hn ⊢
      omega

lemma deAtom_reads (t : Tag) : Reads rt s bs (deAtom m p s t) (parseAtom t bs) := by
  unfold deAtom parseAtom
  refine Reads.unlessShort h (by rfl) fun hl => ?_
  rw [rd_at h (n := 1) (by omega)]
  have h1 := h.skip (n := 1) (by omega)
  have hf : (bs.take 1).headD 0 = bs.headD 0 := by cases bs <;> simp
  simp only [bind_some, hf]
  have hw : bs.drop 1 <:+ bs := drop_suffix _ _
  cases t with
  | fixedAtom t => exact (deFixedAtom_reads h1 _ t).weaken hw rfl rfl
  | symAtom => exact (deSymAtom_reads h1 _ _).weaken hw rfl rfl
  | strAtom => exact (deStrAtom_reads h1 _).weaken hw rfl rfl
  | _ => exact Reads.raise h1 hw rfl rfl _

lemma deHeader_reads {k : UInt8 → ℤ → DeState → De} {k' : UInt8 → ℕ → Bytes → Parsed}
    (hk : ∀ (attrs : UInt8) (l : ℕ) (s' : DeState) (bs' : Bytes), At m (p + 9) s' bs' →
      s'.depth = s.depth → Reads rt s' bs' (k attrs l s') (k' attrs l bs')) :
    Reads rt s bs (deHeader m p s k) (parseHeader bs k') := by
  unfold deHeader parseHeader
  refine Reads.unlessShort h (by rfl) fun hl => ?_
  rw [rd_at h (n := 9) (by omega)]
  have h9 := h.skip (n := 9) (by omega)
  have hf : (bs.take 9).headD 0 = bs.headD 0 := by cases bs <;> simp
  have hw : bs.drop 9 <:+ bs := drop_suffix _ _
  simp only [bind_some, hf]
  generalize leInt ((bs.take 9).drop 1) = l
  by_cases hc : l < 0 ∨ deMaxLen < l
  · rw [if_pos hc, if_pos hc]
    exact Reads.raise h9 hw rfl rfl _
  rw [if_neg hc, if_neg hc]
  obtain ⟨n, rfl⟩ := Int.eq_ofNat_of_zero_le (by omega : 0 ≤ l)
  exact (hk (bs.headD 0) n _ _ h9 rfl).weaken hw rfl rfl

lemma deFixedVec_reads (t : FixTy) : Reads rt s bs (deFixedVec m p s t) (parseFixedVec t bs) := by
  refine deHeader_reads h fun attrs l s bs h _ => ?_
  by_cases hl : bs.length < l * t.size
  · rw [if_pos (by rw [h.room]; exact_mod_cast hl), dif_pos hl]
    exact Reads.raise h suffix_rfl rfl rfl _
  rw [if_neg (by rw [h.room]; exact_mod_cast hl), dif_neg hl]
  have hr := rd_at h (n := l * t.size) (by omega)
  have hn := h.skip (n := l * t.size) (by omega)
  refine Reads.afterAlloc (k := .fixedWidth t.size) (c := l) ?_ (by
    simp only [AllocOk, h.room]
    exact_mod_cast (by omega : l * t.size ≤ bs.length))
  dsimp only
  split
  · next hc => rw [Int.toNat_natCast, hr] at hc; cases hc
  · next c hc =>
    simp only [Int.toNat_natCast, hr] at hc
    cases hc
    exact Reads.plain (x := (.vec t _, _)) (drop_suffix _ _) (by simp)
      (by simpa [DeState.skip, DeState.alloc] using hn.room) rfl rfl

end

lemma deSyms_reads (n : ℕ) (h : At m p s bs) :
    deSyms m n p s = some ((parseSyms n bs).1, ⟨(parseSyms n bs).2.length, s.depth, s.allocs⟩) ∧
    (parseSyms n bs).2 <:+ bs := by
  induction n generalizing p s bs with
  | zero =>
    refine ⟨?_, suffix_rfl⟩
    simp [deSyms, parseSyms, ← h.room]
  | succ n ih =>
    have hs : s.len.toNat = bs.length := by rw [h.room]; rfl
    unfold deSyms parseSyms
    rw [hs, safeStrlen_at h]
    cases hc : cutNul bs with
    | none =>
      refine ⟨?_, suffix_rfl⟩
      simp only [Option.elim, bind_some, h.room, le_refl, if_true]
      rw [← h.state]
    | some r =>
      obtain ⟨name, rest⟩ := r
      have hlt : ¬ s.len ≤ name.length := by rw [h.room, cutNul_some hc]; simp
      obtain ⟨he, hsuf⟩ := ih (h.pastName hc)
      refine ⟨?_, hsuf.trans (cutNul_suffix hc)⟩
      simp only [Option.elim, bind_some, hlt, if_false, rd_name h hc, he, map_some]
      rfl

lemma deSymVec_reads (h : At m p s bs) : Reads rt s bs (deSymVec m p s) (parseSymVec bs) := by
  refine deHeader_reads h fun attrs l s bs h _ => ?_
  refine Reads.unlessShort h (by rfl) fun hl => ?_
  obtain ⟨he, hs⟩ := deSyms_reads l (h.alloc .counted l)
  rw [Int.toNat_natCast, he, map_some]
  rcases hp : parseSyms l bs with ⟨_ | cells, rest⟩
  · rw [hp] at hs
    exact Reads.counted (x := (.error codeDomain, rest)) h hl hs (by simp)
  · rw [hp] at hs
    exact Reads.counted (x := (.symVec _ cells, rest)) h hl hs (by simp)

lemma deStrs_reads (n pool : ℕ) (h : At m p s bs) : deStrs m n pool p s =
        some ((parseStrs n pool bs).1, ⟨(parseStrs n pool bs).2.length, s.depth, s.allocs⟩) ∧
          (parseStrs n pool bs).2 <:+ bs := by
  induction n generalizing p s bs pool with
  | zero =>
    refine ⟨?_, suffix_rfl⟩
    simp [deStrs, parseStrs, ← h.room]
  | succ n ih =>
    unfold deStrs parseStrs
    by_cases hl : bs.length < 8
    · rw [if_pos (by rw [h.room]; exact_mod_cast hl), if_pos hl]
      exact ⟨by rw [← h.state], suffix_rfl⟩
    rw [if_neg (by rw [h.room]; exact_mod_cast hl), if_neg hl, rd_at h (n := 8) (by omega)]
    have h8 := h.skip (n := 8) (by omega)
    have hst : s.skip 8 = ⟨(bs.drop 8).length, s.depth, s.allocs⟩ := h8.state
    have hr : (s.skip 8).len = (bs.drop 8).length := h8.room
    have hw : bs.drop 8 <:+ bs := drop_suffix _ _
    simp only [bind_some, hr]
    generalize leInt (bs.take 8) = slen
    by_cases hc : ((bs.drop 8).length : ℤ) < slen ∨ slen < 0
    · rw [if_pos hc, if_pos hc]
      exact ⟨by rw [hst], hw⟩
    rw [if_neg hc, if_neg hc]
    obtain ⟨k, rfl⟩ := Int.eq_ofNat_of_zero_le (by omega : 0 ≤ slen)
    have hk : k ≤ (bs.drop 8).length := by omega
    simp only [Int.toNat_natCast, rd_at h8 hk, bind_some]
    cases rayStrVecAppend pool k with
    | none => exact ⟨by dsimp only; rw [hst], hw⟩
    | some pool =>
      obtain ⟨he, hs⟩ := ih pool (h8.skip hk)
      refine ⟨?_, (hs.trans (drop_suffix _ _)).trans hw⟩
      have he' : deStrs m n pool (p + 8 + k) ((s.skip 8).skip k) = _ := he
      simp only [he', map_some]
      rfl

lemma deStrVec_reads (h : At m p s bs) : Reads rt s bs (deStrVec m p s) (parseStrVec bs) := by
  refine deHeader_reads h fun attrs l s bs h _ => ?_
  refine Reads.unlessShort h (by rfl) fun hl => ?_
  obtain ⟨he, hs⟩ := deStrs_reads l 0 (h.alloc .counted l)
  rw [Int.toNat_natCast, he, map_some]
  rcases hp : parseStrs l 0 bs with ⟨code | cells, rest⟩
  · rw [hp] at hs
    exact Reads.counted (x := (.error code, rest)) h hl hs (by simp)
  · rw [hp] at hs
    exact Reads.counted (x := (.strVec _, rest)) h hl hs (by simp)

end

end Rayforce.Serde
