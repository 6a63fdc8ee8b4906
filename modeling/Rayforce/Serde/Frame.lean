import Rayforce.Serde.Size

/-! Whole frames: `ray_ser` and `ray_de`. -/

namespace Rayforce.Serde

open Library.Words

def codeVersion : Bytes := [0x76, 0x65, 0x72, 0x73, 0x69, 0x6f, 0x6e]

def raySerdePrefix : Bytes := [0xfa, 0xde, 0xfa, 0xce]

def frameSize (buf : Bytes) : ℤ := leInt ((buf.drop 8).take 8)

def rayDe (rt : Runtime) (buf : Bytes) : Option Obj :=
  if buf.length < 16 then some (.error codeDomain)
  else if buf.take 4 ≠ raySerdePrefix then some (.error codeDomain)
  else if buf.getD 4 0 ≠ 3 then some (.error codeVersion)
  else if buf.getD 6 0 ≠ 0 then some (.error codeDomain)
  else if frameSize buf < 0 ∨ 1000000000 < frameSize buf then some (.error codeDomain)
  else if frameSize buf + 16 ≠ buf.length then some (.error codeDomain)
  else (rayDeRaw rt (buf.drop 16) rayDeMaxDepth 0 (.start (frameSize buf) 0)).map Prod.fst

structure HeaderOk (buf : Bytes) : Prop where
  whole : 16 ≤ buf.length
  magic : buf.take 4 = raySerdePrefix
  version : buf.getD 4 0 = 3
  endian : buf.getD 6 0 = 0
  bounded : frameSize buf ≤ 1000000000
  exact : frameSize buf + 16 = buf.length

section

variable {rt : Runtime} {buf bs : Bytes}

lemma rayDe_ok (h : HeaderOk buf) : rayDe rt buf = some (parse rt rayDeMaxDepth (buf.drop 16)).1 := by
  have hs : frameSize buf = (buf.drop 16).length := by
    have := h.exact
    have := h.whole
    simp only [List.length_drop]
    omega
  obtain ⟨log, he, -⟩ := rayDeRaw_parse rt (buf.drop 16) (Nat.zero_le rayDeMaxDepth) (Nat.sub_le _ 0)
  rw [Nat.sub_zero] at he
  have hb := h.bounded
  rw [rayDe, if_neg (not_lt.mpr h.whole), if_neg (not_not.mpr h.magic), if_neg (not_not.mpr h.version),
    if_neg (not_not.mpr h.endian), if_neg (by omega), if_neg (not_not.mpr h.exact), hs, he, Option.map_some]

lemma headerOk_of_rayDe {o : Obj} (h : rayDe rt buf = some o) (ho : o.isErr = false) : HeaderOk buf := by
  unfold rayDe at h
  split_ifs at h with h1 h2 h3 h4 h5 h6
  case neg => exact ⟨not_lt.mp h1, not_not.mp h2, not_not.mp h3, not_not.mp h4, by omega, not_not.mp h6⟩
  all_goals
    cases h
    cases ho

lemma serHeader_length (n : ℕ) : (serHeader n).length = 16 := by simp [serHeader]

lemma frameSize_serHeader (n : ℕ) (bs : Bytes) : frameSize (serHeader n ++ bs) = leInt (leBytes 8 n) := by
  have hd : (serHeader n ++ bs).drop 8 = leBytes 8 n ++ bs := rfl
  rw [frameSize, hd, List.take_left' (leBytes_length 8 n)]

lemma serHeader_ok (h : bs.length ≤ 1000000000) : HeaderOk (serHeader bs.length ++ bs) := by
  have hs : frameSize (serHeader bs.length ++ bs) = bs.length := by
    rw [frameSize_serHeader, leInt_leBytes 8 _ (by omega)]
  refine ⟨?_, rfl, rfl, rfl, ?_, ?_⟩
  · simp [serHeader_length]
  · rw [hs]
    exact_mod_cast h
  · rw [hs]
    simp [serHeader_length]
    omega

lemma bounded_of_serHeader {n : ℕ} (h : HeaderOk (serHeader n ++ bs)) : bs.length ≤ 1000000000 := by
  have hb := h.bounded
  have he := h.exact
  simp only [List.length_append, serHeader_length] at he
  omega

lemma rayDe_serHeader (bs : Bytes) (h : bs.length ≤ 1000000000) :
    rayDe rt (serHeader bs.length ++ bs) = some (parse rt rayDeMaxDepth bs).1 := by
  rw [rayDe_ok (serHeader_ok h), List.drop_left' (serHeader_length _)]

end

end Rayforce.Serde
