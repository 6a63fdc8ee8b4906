import Rayforce.Splay.Steps
import Rayforce.Store.Truncated

namespace Rayforce.Splay

open Library.Words List Option
open Rayforce.Store (Obj StrVec Desc Extra Proc SymHome rayStrInlineMax)

variable {v v' : StrVec} {ns : List Bytes} {s pool : Bytes} {d : Desc}

lemma inlineDesc_str (h : s.length ≤ rayStrInlineMax) (pool : Bytes) :
    (inlineDesc s h).Ok pool ∧ (inlineDesc s h).str pool = some s := by
  have hle : s.length ≤ 12 := h
  have hsplit : (inlineDesc s h).bytes = leBytes 4 s.length ++ (s ++ replicate (12 - s.length) 0) :=
    append_assoc ..
  have hlen : (inlineDesc s h).len = s.length := by
    rw [Desc.len, hsplit, take_left' (leBytes_length 4 _), leNat_leBytes 4 _ (by omega)]
  have hin : (inlineDesc s h).len ≤ rayStrInlineMax := hlen ▸ h
  refine ⟨.inl hin, ?_⟩
  rw [Desc.str, if_pos hin, hlen, hsplit, drop_left' (leBytes_length 4 _), take_left]

lemma pooledDesc_str (h : rayStrInlineMax < s.length) (hs : s.length < 2 ^ 32) (hp : pool.length < 2 ^ 32) :
    (pooledDesc s pool.length h).Ok (pool ++ s) ∧ (pooledDesc s pool.length h).str (pool ++ s) = some s := by
  have hlt : 12 < s.length := h
  have hfour : (s.take 4).length = 4 := by
    rw [length_take]
    omega
  have hsplit : (pooledDesc s pool.length h).bytes =
      leBytes 4 s.length ++ (s.take 4 ++ (leBytes 4 pool.length ++ [0, 0, 0, 0])) := by
    simp [pooledDesc]
  have hlen : (pooledDesc s pool.length h).len = s.length := by
    rw [Desc.len, hsplit, take_left' (leBytes_length 4 _), leNat_leBytes 4 _ (by omega)]
  have hhead : (pooledDesc s pool.length h).head4 = s.take 4 := by
    rw [Desc.head4, hsplit, drop_left' (leBytes_length 4 _), take_left' hfour]
  have hoff : (pooledDesc s pool.length h).poolOff = pool.length := by
    rw [Desc.poolOff, hsplit, ← append_assoc, drop_left' (by rw [length_append, leBytes_length, hfour]),
      take_left' (leBytes_length 4 _), leNat_leBytes 4 _ (by omega)]
  have hout : ¬ (pooledDesc s pool.length h).len ≤ rayStrInlineMax := by
    rw [hlen]
    exact not_le.mpr h
  have hroom : (pooledDesc s pool.length h).poolOff + (pooledDesc s pool.length h).len ≤ (pool ++ s).length := by
    rw [hoff, hlen, length_append]
  refine ⟨.inr ⟨hroom, ?_⟩, ?_⟩
  · rw [hhead, hoff, drop_left]
  · rw [Desc.str, if_neg hout, if_pos hroom, hoff, hlen, drop_left, take_length]

lemma str_append (h : d.Ok pool) (more : Bytes) : d.Ok (pool ++ more) ∧ d.str (pool ++ more) = d.str pool := by
  by_cases hin : d.len ≤ rayStrInlineMax
  · exact ⟨.inl hin, by rw [Desc.str, Desc.str, if_pos hin, if_pos hin]⟩
  · obtain ⟨hroom, hhead⟩ := h.resolve_left hin
    have hlong : 12 < d.len := not_le.mp hin
    have hroom' : d.poolOff + d.len ≤ (pool ++ more).length := by
      rw [length_append]
      omega
    have hdrop : (pool ++ more).drop d.poolOff = pool.drop d.poolOff ++ more := drop_append_of_le_length (by omega)
    refine ⟨.inr ⟨hroom', ?_⟩, ?_⟩
    · rw [hhead, hdrop, take_append_of_le_length (by rw [length_drop]; omega)]
    · rw [Desc.str, Desc.str, if_neg hin, if_neg hin, if_pos hroom, if_pos hroom', hdrop,
        take_append_of_le_length (by rw [length_drop]; omega)]

structure HoldsStrs (v : StrVec) (ns : List Bytes) : Prop where
  strs : List.Forall₂ (fun (d : Desc) s => d.Ok v.pool ∧ d.str v.pool = some s) v.descs ns
  fits : v.pool.length < 2 ^ 32
  attrs : v.attrs = 0

lemma HoldsStrs.append (h : HoldsStrs v ns) (ha : rayStrVecAppend v s = some v') : HoldsStrs v' (ns ++ [s]) := by
  rw [rayStrVecAppend] at ha
  split_ifs at ha with hlong hin hfull
  · obtain rfl := some.inj ha
    exact ⟨rel_append h.strs (.cons (inlineDesc_str hin v.pool) .nil), h.fits, h.attrs⟩
  · obtain rfl := some.inj ha
    have hold : List.Forall₂ (fun (d : Desc) t => d.Ok (v.pool ++ s) ∧ d.str (v.pool ++ s) = some t) v.descs ns :=
      h.strs.imp fun d t hd => ⟨(str_append hd.1 s).1, (str_append hd.1 s).2.trans hd.2⟩
    refine ⟨rel_append hold (.cons (pooledDesc_str (not_le.mp hin) (by omega) h.fits) .nil), ?_, h.attrs⟩
    rw [length_append]
    omega

lemma HoldsStrs.foldlM (h : HoldsStrs v ns) {more : List Bytes} (ha : more.foldlM rayStrVecAppend v = some v') :
    HoldsStrs v' (ns ++ more) := by
  induction more generalizing v ns with
  | nil =>
    obtain rfl := some.inj ha
    rwa [append_nil]
  | cons s more ih =>
    rw [foldlM_cons] at ha
    obtain ⟨w, hw, hrest⟩ := bind_eq_some_iff.mp ha
    have hres := ih (h.append hw) hrest
    rwa [append_assoc] at hres

lemma schemaOf_holds {tbl : List Column} (h : schemaOf tbl = some v) : HoldsStrs v (persistedNames tbl) :=
  (⟨.nil, by decide, rfl⟩ : HoldsStrs emptyStrs []).foldlM h

lemma HoldsStrs.mapM (h : HoldsStrs v ns) : v.descs.mapM (Desc.str v.pool) = some ns := by
  obtain ⟨hall, -, -⟩ := h
  generalize v.descs = ds at hall
  induction hall with
  | nil => rfl
  | cons hd _ ih => rw [mapM_cons, hd.2, ih]; rfl

lemma schema_loads {p : Proc} {q : Bytes} {o : Obj} (h : HoldsStrs v ns) (hlen : ns.length < 2 ^ 59)
    (hq : q <+: schemaBytes v)
    (hload : Store.colLoadImpl p .process q = .ok o) : ∃ w :
      StrVec, o = .strVec w ∧ w.descs.mapM (Desc.str w.pool) = some ns := by
  have hcount : v.descs.length = ns.length := h.strs.length_eq
  have hfits := h.fits
  obtain ⟨-, rfl⟩ := Store.loads_cut_strs (by simp) (by rw [hcount]; exact hlen) (by omega) hq (.inl hload)
  exact ⟨_, rfl, h.mapM⟩

end Rayforce.Splay
