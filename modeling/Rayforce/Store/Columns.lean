import Rayforce.Store.Portable

namespace Rayforce.Store

open Library.Words Library.Readers List Option
open Rayforce.Serde (FixTy Cell Vec rayVecIsNull raySymWMask rayAttrSlice rayAttrSorted rayAttrHasNulls)

variable {pool : Bytes}

section

variable {aux rest : Bytes} {tag attrs : UInt8} {rc len : ℕ}

section

variable (haux : aux.length = 16)
include haux

lemma headerBytes_length : (headerBytes aux tag attrs rc len).length = 32 := by
  simp [headerBytes, haux]

lemma headerBytes_fields (tag attrs : UInt8) (rc len : ℕ) (rest : Bytes) :
    (headerBytes aux tag attrs rc len ++ rest).getD 17 0 = rayColFormatMajor ∧
    (headerBytes aux tag attrs rc len ++ rest).getD 18 0 = tag ∧
      (headerBytes aux tag attrs rc len ++ rest).getD 19 0 = attrs := by
  simp [headerBytes, getElem?_append_right, haux]

lemma headerBytes_rc : ((headerBytes aux tag attrs rc len ++ rest).drop 20).take 4 = leBytes 4 rc := by
  have hsplit : headerBytes aux tag attrs rc len ++ rest = (aux ++ [0, rayColFormatMajor, tag, attrs]) ++
      (leBytes 4 rc ++ (leBytes 8 len ++ rest)) := by
    simp [headerBytes]
  rw [hsplit, drop_left' (by simp [haux]), take_left' (leBytes_length 4 rc)]

lemma headerBytes_drop (tag attrs : UInt8) (rc len : ℕ) (rest : Bytes) :
    (headerBytes aux tag attrs rc len ++ rest).drop 24 = leBytes 8 len ++ rest := by
  have hsplit : headerBytes aux tag attrs rc len ++ rest =
      (aux ++ [0, rayColFormatMajor, tag, attrs] ++ leBytes 4 rc) ++ (leBytes 8 len ++ rest) := by
    simp [headerBytes]
  rw [hsplit, drop_left' (by simp [haux])]

lemma headerBytes_len : ((headerBytes aux tag attrs rc len ++ rest).drop 24).take 8 = leBytes 8 len := by
  rw [headerBytes_drop haux, take_left' (leBytes_length 8 len)]

lemma headerBytes_take : (headerBytes aux tag attrs rc len ++ rest).take 4 = aux.take 4 := by
  simp [headerBytes, take_append_of_le_length, haux]

end

lemma headerAux_length {x : Extra} (hx : x.addr.length = 8) (attrs tag : UInt8) :
    (headerAux x attrs tag).length = 16 := by
  rw [headerAux]
  split_ifs <;> simp [colIdxAuxMagic, hx]

lemma headerAux_magic (x : Extra) (attrs tag : UInt8) : (headerAux x attrs tag).take 4 ∉ extendedMagics := by
  rw [headerAux]
  split_ifs
  · exact (by decide : (colIdxAuxMagic ++ replicate 12 0).take 4 ∉ extendedMagics)
  · exact (by decide : (replicate 16 0).take 4 ∉ extendedMagics)
  · rw [take_append_of_le_length (by decide)]
    decide

lemma elemSize_pos (htag : tag = raySymTag ∨ tag = rayStrTag ∨ fixTy? tag ≠ none) : 0 < elemSize tag attrs := by
  rw [elemSize]
  split_ifs with hsym hstr
  · positivity
  · norm_num
  · obtain ⟨t, ht⟩ := ne_none_iff_exists'.mp ((htag.resolve_left hsym).resolve_left hstr)
    rw [ht]
    exact size_pos t

lemma colValidateMapped_header (haux : aux.length = 16) (hmagic : aux.take 4 ∉ extendedMagics)
    (htag : tag = raySymTag ∨ tag = rayStrTag ∨ fixTy? tag ≠ none) (hlen : len < 2 ^ 59)
    (hsize : len * elemSize tag attrs < 2 ^ 63) :
    colValidateMapped (headerBytes aux tag attrs rc len ++ rest) = (readBody tag attrs len rest).map fun q =>
      let tail := (headerBytes aux tag attrs rc len ++ rest).length - q.2.length
      ⟨attrs, rc % 2 ^ 32, q.1, tail, hasIndexRegion (headerBytes aux tag attrs rc len ++ rest) tail⟩ := by
  obtain ⟨hmajor, htag', hattrs⟩ := headerBytes_fields haux tag attrs rc len rest
  have hlength : (headerBytes aux tag attrs rc len ++ rest).length = 32 + rest.length := by
    rw [length_append, headerBytes_length haux]
  have hne : headerBytes aux tag attrs rc len ++ rest ≠ [] := ne_nil_of_length_pos (by omega)
  have hint : leInt (leBytes 8 len) = len := leInt_leBytes 8 len (by omega)
  have hroom : ¬ (2 ^ 64 - 1 - 32) / elemSize tag attrs < len := by
    rw [not_lt, Nat.le_div_iff_mul_le (elemSize_pos htag)]
    omega
  have hknown : ¬ (tag ≠ raySymTag ∧ tag ≠ rayStrTag ∧ fixTy? tag = none) := by
    rintro ⟨hsym, hstr, hfix⟩
    exact htag.elim hsym fun h => h.elim hstr fun h => h hfix
  rw [colValidateMapped, if_neg hne, if_neg (by rw [headerBytes_take haux]; exact fun h => hmagic h.2),
    if_neg (by omega)]
  simp only [hmajor, htag', hattrs, headerBytes_len haux, hint, headerBytes_rc haux]
  rw [if_neg (by simp), if_neg hknown, if_neg (by omega), Int.toNat_natCast, if_neg hroom,
    drop_left' (headerBytes_length haux), leNat_leBytes_mod]
  cases readBody tag attrs len rest <;> rfl

end

section

variable {attrs : UInt8} {rest : Bytes}

lemma fixTy?_vecTag (t : FixTy) : fixTy? t.vecTag = some t := by
  cases t <;> rfl

lemma vecTag_ne (t : FixTy) : t.vecTag ≠ raySymTag ∧ t.vecTag ≠ rayStrTag := by
  cases t <;> decide

lemma readBody_fixed {t : FixTy} (cells : List (Cell t)) :
    readBody t.vecTag attrs cells.length (cells.flatMap Cell.bytes ++ rest) = .ok (.fixed t cells, rest) := by
  have hcells := reads_many (r := cell t) (l := cells) Cell.bytes id fun c _ => reads_cell c
  rw [List.map_id] at hcells
  rw [readBody, if_neg (vecTag_ne t).1, if_neg (vecTag_ne t).2, fixTy?_vecTag]
  exact hcells.bind_pure rest

lemma readBody_syms {ids : List ℕ} {w : ℕ} (hw : (attrs &&& raySymWMask).toNat = w)
    (h : ∀ i ∈ ids, i < 256 ^ 2 ^ w) :
    readBody raySymTag attrs ids.length (symBytes w ids ++ rest) = .ok (.syms ids, rest) := by
  have hids := reads_many (r := word (2 ^ w)) (l := ids) (leBytes (2 ^ w)) id fun i hi =>
    reads_word (2 ^ w) i (h i hi)
  rw [List.map_id] at hids
  rw [readBody, if_pos rfl, hw]
  exact hids.bind_pure rest

lemma readPool_pool (descs : List Desc) (hp : pool.length < 2 ^ 59) :
    readPool descs (poolHeader pool.length ++ pool) =
      if ∀ d ∈ descs, d.Ok pool then .ok (.strs descs pool, []) else .error .corrupt := by
  have haux : (replicate 16 0 : Bytes).length = 16 := rfl
  have htype : (poolHeader pool.length).getD 18 0 = 2 := by
    have hfields := (headerBytes_fields haux 2 0 0 pool.length []).2.1
    rwa [append_nil] at hfields
  have hlen : (poolHeader pool.length).drop 24 = leBytes 8 pool.length := by
    have hdrop := headerBytes_drop haux 2 0 0 pool.length []
    rwa [append_nil, append_nil] at hdrop
  have hint : leInt (leBytes 8 pool.length) = pool.length := leInt_leBytes 8 pool.length (by omega)
  have hread : take Err.corrupt 32 (poolHeader pool.length ++ pool) = .ok (poolHeader pool.length, pool) :=
    reads_take Err.corrupt (headerBytes_length haux) pool
  have hpool : take Err.corrupt pool.length pool = .ok (pool, []) := by
    have hall : take Err.corrupt pool.length (pool ++ []) = .ok (pool, []) := reads_take Err.corrupt rfl []
    rwa [append_nil] at hall
  rw [readPool, bind_ok, hread, Except.bind]
  dsimp only
  rw [htype, hlen, hint, if_neg (by simp), Int.toNat_natCast, bind_ok, hpool, Except.bind]
  split_ifs <;> rfl

lemma readBody_strs (descs : List Desc) (hp : pool.length < 2 ^ 59) :
    readBody rayStrTag attrs descs.length (descs.flatMap Desc.bytes ++ (poolHeader pool.length ++ pool)) =
      if ∀ d ∈ descs, d.Ok pool then .ok (.strs descs pool, []) else .error .corrupt := by
  have hdescs := reads_many (r := desc) (l := descs) Desc.bytes id fun d _ => reads_desc d
  rw [List.map_id] at hdescs
  rw [readBody, if_neg (by decide), if_pos rfl, bind_ok, hdescs, Except.bind, readPool_pool descs hp]

end

section

variable {p : Proc} {home : SymHome} {file : Bytes} {m : Mapped} {attrs : UInt8}

lemma extendedMagics_length {bs : Bytes} (h : bs ∈ extendedMagics) : bs.length = 4 := by
  rw [extendedMagics, mem_cons, mem_cons, mem_cons, mem_singleton] at h
  rcases h with rfl | rfl | rfl | rfl <;> rfl

lemma colLoadImpl_raw (hne : file ≠ []) (hmagic : file.take 4 ∉ extendedMagics) :
    colLoadImpl p home file = (colValidateMapped file).bind (colAttach p home true) := by
  simp only [extendedMagics, mem_cons, not_mem_nil, or_false, not_or] at hmagic
  obtain ⟨hstrl, hstrv, hlist, htable⟩ := hmagic
  rw [colLoadImpl, if_neg hne, if_neg hstrl, if_neg hstrv, if_neg (not_or.mpr ⟨hlist, htable⟩)]

lemma colLoadImpl_mapped (h : colValidateMapped file = .ok m) :
    colLoadImpl p home file = colAttach p home true m := by
  have hne : file ≠ [] := by
    rintro rfl
    cases h
  have hmagic : file.take 4 ∉ extendedMagics := by
    intro hmem
    have hlen : 4 ≤ file.length := by
      have := extendedMagics_length hmem
      rw [length_take] at this
      omega
    rw [colValidateMapped, if_neg hne, if_pos ⟨hlen, hmem⟩] at h
    cases h
  rw [colLoadImpl_raw hne hmagic, h]
  rfl

lemma colLoadImpl_header {aux rest : Bytes} {tag : UInt8} {rc len : ℕ} (haux : aux.length = 16)
    (hmagic : aux.take 4 ∉ extendedMagics)
    (htag : tag = raySymTag ∨ tag = rayStrTag ∨ fixTy? tag ≠ none) (hlen : len < 2 ^ 59)
    (hsize : len * elemSize tag attrs < 2 ^ 63) :
    colLoadImpl p home (headerBytes aux tag attrs rc len ++ rest) =
      (readBody tag attrs len rest).bind fun q => colAttach p home true ⟨attrs, rc % 2 ^ 32, q.1, 0, false⟩ := by
  have hne : headerBytes aux tag attrs rc len ++ rest ≠ [] := by simp [headerBytes]
  rw [colLoadImpl_raw hne (by rwa [headerBytes_take haux]), colValidateMapped_header haux hmagic htag hlen hsize]
  cases readBody tag attrs len rest <;> rfl

lemma load_of_mmap {o : Obj} (h : colMmapImpl p .process file = .ok o) : colLoadImpl p .process file = .ok o := by
  obtain ⟨m, hm, hrest⟩ := bind_eq_ok' h
  rw [colLoadImpl_mapped hm]
  split_ifs at hrest
  exact hrest

lemma mask_width (a : UInt8) : a &&& colDiskAttrsMask &&& raySymWMask = a &&& raySymWMask := by
  rw [UInt8.and_assoc]
  rfl

lemma mask_nulls (a : UInt8) : a &&& colDiskAttrsMask &&& rayAttrHasNulls = a &&& rayAttrHasNulls := by
  rw [UInt8.and_assoc]
  rfl

lemma savedAttrs_width (a : UInt8) : savedAttrs a &&& raySymWMask = a &&& raySymWMask := by
  rw [savedAttrs, UInt8.and_assoc]
  rfl

lemma savedAttrs_nulls (a : UInt8) : savedAttrs a &&& rayAttrHasNulls = a &&& rayAttrHasNulls := by
  rw [savedAttrs, UInt8.and_assoc]
  rfl

lemma or_and (a b c : UInt8) : (a ||| b) &&& c = (a &&& c) ||| (b &&& c) :=
  UInt8.toBitVec_inj.mp BitVec.and_or_distrib_right

lemma sliceAttrs_width (a : UInt8) : sliceAttrs a &&& raySymWMask = a &&& raySymWMask := by
  have hslice : rayAttrSlice &&& raySymWMask = 0 := by decide
  rw [sliceAttrs, or_and, hslice, UInt8.zero_or, UInt8.and_assoc, UInt8.and_self]

lemma sliceAttrs_nulls (a : UInt8) : (rayAttrSlice ||| (a &&& raySymWMask)) &&& rayAttrHasNulls = 0 := by
  have hslice : rayAttrSlice &&& rayAttrHasNulls = 0 := by decide
  have hwidth : raySymWMask &&& rayAttrHasNulls = 0 := by decide
  rw [or_and, UInt8.and_assoc, hslice, hwidth, UInt8.and_zero, UInt8.or_zero]

end

end Rayforce.Store
