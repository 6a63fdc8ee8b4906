import Rayforce.Serde.Agreement

namespace Rayforce.Serde

open Library.Words List Option

variable {k : UInt8 → ℕ → Bytes → Parsed} {cells : List Bytes} {t : FixTy} {b : UInt8}

section

variable {bs rest : Bytes}

lemma wireLen_leInt {w : Bytes} (hw : w.length = 8) (h : 0 ≤ leInt w) :
    wireLen (leInt w).toNat = w ∧ (leInt w).toNat < 2 ^ 63 := by
  obtain ⟨he, hlt⟩ := leInt_nonneg w h
  rw [he, Int.toNat_natCast]
  refine ⟨?_, by rw [hw] at hlt; omega⟩
  rw [wireLen, ← hw]
  exact leBytes_leNat w

lemma split_wireLen (bs : Bytes) (hl : 8 ≤ bs.length) (h : 0 ≤ leInt (bs.take 8)) :
    bs = wireLen (leInt (bs.take 8)).toNat ++ bs.drop 8 := by
  rw [(wireLen_leInt (by simp [hl]) h).1, take_append_drop]

lemma parseHeader_ok (he : (parseHeader bs k).1.isErr = false) :
    ∃ a n rest, n ≤ 1000000000 ∧ bs = a :: (wireLen n ++ rest) ∧ parseHeader bs k = k a n rest := by
  cases bs with
  | nil => cases he
  | cons a bs =>
    have hl : 9 ≤ (a :: bs).length := by
      by_contra hc
      rw [parseHeader, if_pos (by omega)] at he
      cases he
    have hpos : ¬ (leInt (bs.take 8) < 0 ∨ deMaxLen < leInt (bs.take 8)) := by
      intro hc
      rw [parseHeader, if_neg (by omega)] at he
      simp only [take_succ_cons, drop_succ_cons, drop_zero, if_pos hc] at he
      cases he
    simp only [deMaxLen] at hpos
    have hs := split_wireLen bs (by simpa using hl) (by omega)
    have hn : (leInt (bs.take 8)).toNat ≤ 1000000000 := by omega
    refine ⟨a, _, bs.drop 8, hn, congrArg _ hs, ?_⟩
    conv_lhs => rw [hs]
    exact parseHeader_wire hn _ _ _

lemma cellsOf_spec {l : ℕ} (h : bs.length = l * t.size) :
    (cellsOf t l bs h).length = l ∧ (cellsOf t l bs h).flatMap Cell.bytes = bs := by
  induction l generalizing bs with
  | zero =>
    have : bs = [] := eq_nil_of_length_eq_zero (by simpa using h)
    exact ⟨rfl, this.symm⟩
  | succ l ih =>
    obtain ⟨hl, hb⟩ := @ih (bs.drop t.size) (by simp [h, Nat.succ_mul])
    simp only [cellsOf, length_cons, flatMap_cons, hl, hb, take_append_drop, and_self]

lemma parseFixedVec_ok (he : (parseFixedVec t bs).1.isErr = false) : ∃ a cells rest, cells.length ≤ 1000000000 ∧
      bs = a :: (wireLen cells.length ++ (cells.flatMap Cell.bytes ++ rest)) ∧
      parseFixedVec t bs = (.vec t (.owned (keepNulls a) cells), rest) := by
  obtain ⟨a, n, rest, hn, hb, hk⟩ := parseHeader_ok he
  rw [parseFixedVec] at he
  rw [parseFixedVec, hk]
  rw [hk] at he
  by_cases hl : rest.length < n * t.size
  · rw [dif_pos hl] at he
    cases he
  · rw [dif_neg hl]
    have hw : (rest.take (n * t.size)).length = n * t.size := by simp; omega
    obtain ⟨hlen, hcells⟩ := cellsOf_spec (t := t) hw
    refine ⟨a, cellsOf t n _ hw, rest.drop (n * t.size), by omega, ?_, rfl⟩
    rw [hlen, hcells, take_append_drop]
    exact hb

lemma cutNul_nulFree {name : Bytes} (h : cutNul bs = some (name, rest)) : NulFree name := by
  induction bs generalizing name with
  | nil => cases h
  | cons b bs ih =>
    unfold cutNul at h
    split at h
    · cases h
      exact not_mem_nil
    · next hb =>
      simp only [map_eq_some_iff, Prod.mk.injEq, Prod.exists] at h
      obtain ⟨n, r, hc, rfl, rfl⟩ := h
      intro hm
      rcases mem_cons.mp hm with h0 | h0
      · exact hb h0.symm
      · exact ih hc h0

lemma parseSyms_ok {n : ℕ} (h : (parseSyms n bs).1 = some cells) :
    cells.length = n ∧ (∀ s ∈ cells, NulFree s) ∧ bs = serSyms cells ++ (parseSyms n bs).2 := by
  induction n generalizing bs cells with
  | zero =>
    cases h
    exact ⟨rfl, by simp, rfl⟩
  | succ n ih =>
    unfold parseSyms at h ⊢
    cases hc : cutNul bs with
    | none => simp [hc] at h
    | some r =>
      obtain ⟨name, rest⟩ := r
      simp only [hc, map_eq_some_iff] at h ⊢
      obtain ⟨cells', hcells, rfl⟩ := h
      obtain ⟨hl, hn, hb⟩ := ih hcells
      refine ⟨by simp [hl], forall_mem_cons.mpr ⟨cutNul_nulFree hc, hn⟩, ?_⟩
      conv_lhs => rw [cutNul_some hc, hb]
      simp [serSyms]

lemma parseSymVec_ok (he : (parseSymVec bs).1.isErr = false) :
    ∃ a cells rest, cells.length ≤ 1000000000 ∧ (∀ s ∈ cells, NulFree s) ∧
      bs = a :: (wireLen cells.length ++ (serSyms cells ++ rest)) ∧
      parseSymVec bs = (.symVec (raySymW64 ||| keepNulls a) cells, rest) := by
  obtain ⟨a, n, rest, hn, hb, hk⟩ := parseHeader_ok he
  rw [parseSymVec] at he
  rw [parseSymVec, hk]
  rw [hk] at he
  split_ifs at he with hl
  · cases he
  · rw [if_neg hl]
    rcases hp : parseSyms n rest with ⟨_ | cells, rest'⟩
    · rw [hp] at he
      cases he
    · obtain ⟨hlen, hnul, hbytes⟩ := parseSyms_ok (congrArg Prod.fst hp)
      rw [hp] at hbytes
      exact ⟨a, cells, rest', by omega, hnul, by rw [hlen, ← hbytes]; exact hb, rfl⟩

lemma rayStrVecAppend_some {pool pool' : ℕ} {s : Bytes} (cells : List Bytes)
    (h : rayStrVecAppend pool s.length = some pool') :
    s.length ≤ uint32Max ∧ pool' + poolBytes cells = pool + poolBytes (s :: cells) := by
  unfold rayStrVecAppend at h
  split_ifs at h with h1 h2 h3
  · cases h
    refine ⟨by omega, ?_⟩
    simp [poolBytes, not_lt.mpr h2]
  · cases h
    refine ⟨by omega, ?_⟩
    simp only [poolBytes, filter_cons, decide_eq_true (not_le.mp h2), if_true, map_cons, sum_cons]
    omega

lemma parseStrs_ok {n pool : ℕ} (hpool : pool ≤ uint32Max) (h : (parseStrs n pool bs).1 = .ok cells) :
    cells.length = n ∧ (∀ s ∈ cells, s.length ≤ uint32Max) ∧ pool + poolBytes cells ≤ uint32Max ∧
      bs = serStrs cells ++ (parseStrs n pool bs).2 := by
  induction n generalizing bs cells pool with
  | zero =>
    cases h
    exact ⟨rfl, by simp, by simpa [poolBytes] using hpool, rfl⟩
  | succ n ih =>
    unfold parseStrs at h ⊢
    split_ifs at h with h1
    rw [if_neg h1]
    dsimp only at h ⊢
    split_ifs at h with h2
    rw [if_neg h2]
    cases ha : rayStrVecAppend pool (leInt (bs.take 8)).toNat with
    | none => simp [ha] at h
    | some pool' =>
      simp only [ha] at h ⊢
      rcases hq : (parseStrs n pool' ((bs.drop 8).drop (leInt (bs.take 8)).toNat)).1 with code | cells'
      · rw [hq] at h
        cases h
      · rw [hq] at h
        cases h
        have hs : ((bs.drop 8).take (leInt (bs.take 8)).toNat).length = (leInt (bs.take 8)).toNat := by
          simp only [length_take]
          omega
        rw [← hs] at ha
        obtain ⟨hle, hsum⟩ := rayStrVecAppend_some cells' ha
        have hpool' : pool' ≤ uint32Max := by
          unfold rayStrVecAppend at ha
          split_ifs at ha
          · cases ha; exact hpool
          · cases ha; omega
        obtain ⟨hl, hb, hp, hbytes⟩ := ih hpool' hq
        refine ⟨by simp [hl], forall_mem_cons.mpr ⟨hle, hb⟩, hsum ▸ hp, ?_⟩
        have hsplit := split_wireLen bs (by omega) (by omega)
        have htail : bs.drop 8 = (bs.drop 8).take (leInt (bs.take 8)).toNat ++ (serStrs cells' ++
            (parseStrs n pool' ((bs.drop 8).drop (leInt (bs.take 8)).toNat)).2) := by
          rw [← hbytes, take_append_drop]
        conv_lhs => rw [hsplit, htail]
        simp only [serStrs, flatMap_cons, hs, append_assoc]

lemma parseStrVec_ok (he : (parseStrVec bs).1.isErr = false) :
    ∃ a cells rest, cells.length ≤ 1000000000 ∧ (∀ s ∈ cells, s.length ≤ uint32Max) ∧
      poolBytes cells ≤ uint32Max ∧ bs = a :: (wireLen cells.length ++ (serStrs cells ++ rest)) ∧
      parseStrVec bs = (.strVec (.owned (keepNulls a) cells), rest) := by
  obtain ⟨a, n, rest, hn, hb, hk⟩ := parseHeader_ok he
  rw [parseStrVec] at he
  rw [parseStrVec, hk]
  rw [hk] at he
  split_ifs at he with hl
  · cases he
  · rw [if_neg hl]
    rcases hp : parseStrs n 0 rest with ⟨code | cells, rest'⟩
    · rw [hp] at he
      cases he
    · obtain ⟨hlen, hlens, hpool, hbytes⟩ := parseStrs_ok (Nat.zero_le _) (congrArg Prod.fst hp)
      rw [hp] at hbytes
      exact ⟨a, cells, rest', by omega, hlens, by omega, by rw [hlen, ← hbytes]; exact hb, rfl⟩

end

section

variable {rt : Runtime} {bs : Bytes} {child : Bytes → Parsed}

def Obj.isStrVec : Obj → Bool
  | .strVec _ => true
  | _ => false

lemma parseHeader_not (h : ∀ a l bs, (k a l bs).1.isStrVec = false) : (parseHeader bs k).1.isStrVec = false := by
  rw [parseHeader]
  split_ifs
  · rfl
  · dsimp only
    split_ifs
    · rfl
    · exact h _ _ _

lemma parsePair_not {k : UInt8 → Obj → Obj → Obj} (h : ∀ a x y, (k a x y).isStrVec = false) :
    (parsePair child bs k).1.isStrVec = false := by
  rw [parsePair]
  split_ifs
  · rfl
  · split
    · rfl
    · rfl
    · split
      · rfl
      · rfl
      · exact h _ _ _

lemma parseAtom_not (t : Tag) : (parseAtom t bs).1.isStrVec = false := by
  rw [parseAtom]
  split_ifs
  · rfl
  · dsimp only
    cases t with
    | fixedAtom t =>
      dsimp only [parseFixedAtom]
      split_ifs <;> rfl
    | symAtom =>
      dsimp only [parseSymAtom]
      split <;> rfl
    | strAtom =>
      dsimp only [parseStrAtom]
      split_ifs <;> rfl
    | _ => rfl

lemma parseInner_not (hstr : Tag.ofByte b ≠ .strVec) (hfn : ∀ k, Tag.ofByte b ≠ .fn k) :
    (parseInner rt child (b :: bs)).1.isStrVec = false := by
  rw [parseInner]
  cases ht : Tag.ofByte b with
  | strVec => exact absurd ht hstr
  | fn k => exact absurd ht (hfn k)
  | null => rfl
  | unknown => rfl
  | error =>
    dsimp only [parseError]
    split_ifs <;> rfl
  | fixedVec t =>
    refine parseHeader_not fun a l bs => ?_
    split_ifs <;> rfl
  | symVec =>
    refine parseHeader_not fun a l bs => ?_
    split_ifs
    · rfl
    · split <;> rfl
  | list =>
    refine parseHeader_not fun a l bs => ?_
    split_ifs
    · rfl
    · split <;> rfl
  | table =>
    refine parsePair_not fun a x y => ?_
    dsimp only [tableOf]
    split <;> rfl
  | dict => exact parsePair_not fun a x y => rfl
  | lambda => exact parsePair_not fun a x y => rfl
  | fixedAtom t => exact parseAtom_not _
  | symAtom => exact parseAtom_not _
  | strAtom => exact parseAtom_not _
  | unknownAtom => exact parseAtom_not _

lemma parse_strVec {levels : ℕ} (hfn : ∀ k, Tag.ofByte b ≠ .fn k)
    (h : (parse rt levels (b :: bs)).1.isStrVec = true) :
    parse rt levels (b :: bs) = parseStrVec bs := by
  cases levels with
  | zero => cases h
  | succ levels =>
    by_cases hstr : Tag.ofByte b = .strVec
    · rw [parse, parseInner, hstr]
    · rw [parse, parseInner_not hstr hfn] at h
      cases h

end

end Rayforce.Serde
