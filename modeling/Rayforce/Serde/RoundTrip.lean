import Rayforce.Serde.Sendable
import Rayforce.Serde.Recursion

namespace Rayforce.Serde

open Library.Words List Option

variable {child : Bytes → Parsed} {bs : Bytes} {o : Obj} {t : FixTy} {names : List Bytes}

section

variable {rt : Runtime} {fnOk : FnKind → Bytes → Prop}

lemma fixedAtom_settled (c : Cell t) (hs : settle t c.bytes = c.bytes)
    (h : bs.length = t.size) (hb : bs = c.bytes) : fixedAtom t bs h = .atom (.fixed t c hs) := by
  subst hb
  obtain ⟨bytes, width⟩ := c
  simp [fixedAtom, hs]

lemma nullBytes_length (t : FixTy) : (nullBytes t).length = t.size := (nullCell t).width

lemma parseFixedAtom_ser (isNull : Bool) (bs rest : Bytes) (h : bs.length = t.size) :
    parseFixedAtom isNull t (bs ++ rest) = (if isNull then rayTypedNull t else fixedAtom t bs h, rest) := by
  unfold parseFixedAtom
  rw [dif_neg (by simp only [length_append]; omega)]
  simp only [take_left' h, drop_left' h]

lemma parseStrAtom_ser (isNull : Bool) (s rest : Bytes) (h : s.length < 2 ^ 63) :
    parseStrAtom isNull (wireLen s.length ++ (s ++ rest)) =
    (.atom (if isNull then .nullStr else .str s), rest) := by
  have ht : (wireLen s.length ++ (s ++ rest)).take 8 = wireLen s.length := take_left' (wireLen_length _)
  have hd : (wireLen s.length ++ (s ++ rest)).drop 8 = s ++ rest := drop_left' (wireLen_length _)
  unfold parseStrAtom
  rw [if_neg (by simp)]
  dsimp only
  rw [ht, hd, leInt_wireLen h, if_neg (by simp)]
  simp

lemma parseAtom_cons (t : Tag) (f : UInt8) (bs : Bytes) : parseAtom t (f :: bs) = match t with
    | .fixedAtom t => parseFixedAtom (f &&& 1 != 0) t bs
    | .symAtom => parseSymAtom (f &&& 1 != 0) (f &&& attrQuoted != 0) bs
    | .strAtom => parseStrAtom (f &&& 1 != 0) bs
    | _ => (.error codeType, bs) := by
  rw [parseAtom, if_neg (by simp)]
  rfl

lemma parse_serAtom (a : Atom) (h : AtomFits a) (child : Bytes → Parsed) (rest : Bytes) :
    parseInner rt child (serAtom a ++ rest) = (.atom a, rest) := by
  cases a with
  | fixed t c hs =>
    simp only [serAtom, cons_append, parseInner, ofByte_atomTag, parseAtom_cons,
      parseFixedAtom_ser _ _ _ c.width, fixedAtom_settled c hs c.width rfl]
    rfl
  | null t =>
    simp only [serAtom, cons_append, parseInner, ofByte_atomTag, parseAtom_cons,
      parseFixedAtom_ser _ _ _ (nullBytes_length t)]
    rfl
  | nullStr =>
    have hp := parseStrAtom_ser true [] rest (by simp)
    simp only [serAtom, cons_append, parseInner, ofByte_rayStrAtom, parseAtom_cons]
    exact hp
  | str s =>
    have hp := parseStrAtom_ser false s rest h
    simp only [serAtom, cons_append, append_assoc, parseInner, ofByte_rayStrAtom, parseAtom_cons]
    exact hp
  | sym s quoted =>
    have hc := cutNul_append h rest
    simp only [serAtom, cons_append, append_assoc, nil_append, parseInner, ofByte_raySymAtom,
      parseAtom_cons, parseSymAtom, hc]
    cases quoted <;> rfl

lemma serAtom_pos (a : Atom) : 0 < (serAtom a).length := by
  cases a <;> simp [serAtom]

lemma raySerRaw_pos (h : o.Sendable fnOk) (hs : raySerRaw o = some bs) : 0 < bs.length := by
  cases o with
  | other => exact h.elim
  | strVec v =>
    simp only [raySerRaw] at hs
    split at hs <;> cases hs
    simp
  | atom a =>
    cases hs
    exact serAtom_pos a
  | symSlice | list | table =>
    simp only [raySerRaw, map_eq_some_iff] at hs
    obtain ⟨_, _, rfl⟩ := hs
    simp
  | dict | lambda =>
    simp only [raySerRaw, map_eq_some_iff, bind_eq_some_iff] at hs
    obtain ⟨_, _, _, _, rfl⟩ := hs
    simp
  | _ =>
    cases hs
    simp

lemma serElems_length {es : List Obj} (h : Obj.SendableAll fnOk es) (hs : serElems es = some bs) :
    es.length ≤ bs.length := by
  induction es generalizing bs with
  | nil => simp
  | cons e es ih =>
    simp only [serElems, bind_eq_some_iff, map_eq_some_iff] at hs
    obtain ⟨b, hb, bs', hbs, rfl⟩ := hs
    have := raySerRaw_pos h.1 hb
    have := ih h.2 hbs
    simp only [length_cons, length_append]
    omega

lemma parseElems_cons {bs rest : Bytes} (h : child bs = (o, rest)) (ho : o.Plain) (n : ℕ) :
    parseElems child (n + 1) bs =
      ((parseElems child n rest).1.map (o :: ·), (parseElems child n rest).2) := by
  rw [parseElems, h]
  cases o <;> first | exact ho.elim | rfl

lemma parsePair_cons {bs rest rest' : Bytes} {first second : Obj}
    (h : child bs = (first, rest)) (h' : child rest = (second, rest')) (hf : first.Plain) (hs : second.Plain)
    (a : UInt8) (k : UInt8 → Obj → Obj → Obj) : parsePair child (a :: bs) k = (k a first second, rest') := by
  rw [parsePair, if_neg (by simp), drop_succ_cons, drop_zero, h]
  cases first <;> first | exact hf.elim | skip
  all_goals
    dsimp only
    rw [h']
    cases second <;> first | exact hs.elim | rfl

lemma parseList_ser {n : ℕ} {bs rest : Bytes} {os : List Obj}
    (hn : n ≤ 1000000000) (hb : n ≤ bs.length) (h : parseElems child n (bs ++ rest) = (.ok os, rest)) (a : UInt8) :
    parseList child (a :: (wireLen n ++ (bs ++ rest))) = (.list (a &&& raySerdeAttrWireMask) os, rest) := by
  unfold parseList
  rw [parseHeader_wire hn, if_neg (by simp only [length_append]; omega), h]

lemma parse_schema (rt : Runtime) (levels : ℕ) (hl : names.length ≤ 1000000000) (hn : ∀ s ∈ names, NulFree s)
    (rest : Bytes) :
    parse rt (levels + 1) (serSchemaNames names ++ rest) =
    (.symVec (raySymW64 ||| keepNulls raySymW64) names, rest) := by
  simp only [serSchemaNames, cons_append, append_assoc, parse, parseInner, ofByte_raySymVec,
    parseSymVec_ser _ _ hl hn]

lemma tableOf_fits {symStr : ℤ → Bytes} {cols : List Obj} (h : names.length = cols.length) {a a' : UInt8} :
    tableOf symStr (.symVec a names) (.list a' (Obj.decodedAll rt cols)) =
      .table 0 names 0 (Obj.decodedAll rt cols) := by
  simp only [tableOf, columnList, schemaNames, rebuildTable, decodedAll_length]
  rw [← h, take_length, take_of_length_le (by simp [h])]

mutual

theorem parse_raySerRaw (hfn : Resolves rt fnOk) : ∀ (o : Obj) {bs : Bytes} {levels : ℕ} (rest : Bytes),
    o.Sendable fnOk → raySerRaw o = some bs → o.depth < levels →
      parse rt levels (bs ++ rest) = (o.decoded rt, rest)
  | o, bs, 0, rest, _, _, hd => absurd hd (Nat.not_lt_zero _)
  | .nullPtr, bs, levels + 1, rest, h, hs, hd => by cases hs; rfl
  | .null, bs, levels + 1, rest, h, hs, hd => by cases hs; rfl
  | .error code, bs, levels + 1, rest, h, hs, hd => h.elim
  | .atom a, bs, levels + 1, rest, h, hs, hd => by
    cases hs
    exact parse_serAtom a h _ rest
  | .vec t v, bs, levels + 1, rest, h, hs, hd => by
    cases hs
    simp only [cons_append, append_assoc, parse, parseInner, ofByte_vecTag, parseFixedVec_ser _ _ h]
    simp [Obj.decoded, keepNulls, wireAttrs, UInt8.and_assoc]
  | .symVec attrs cells, bs, levels + 1, rest, h, hs, hd => by
    cases hs
    simp only [cons_append, append_assoc, parse, parseInner, ofByte_raySymVec, parseSymVec_ser _ _ h.1 h.2]
    simp [Obj.decoded, keepNulls, wireAttrs, UInt8.and_assoc]
  | .symSlice attrs block offset len _, bs, levels + 1, rest, h, hs, hd => by
    simp only [raySerRaw, map_eq_some_iff] at hs
    obtain ⟨cells, hcells, rfl⟩ := hs
    have hlen := symSliceCells_length hcells
    subst hlen
    have hnul : ∀ s ∈ cells, NulFree s := fun s hs => h.2 s (symSliceCells_mem hcells hs)
    simp only [cons_append, append_assoc, parse, parseInner, ofByte_raySymVec, parseSymVec_ser _ _ h.1 hnul]
    simp [Obj.decoded, hcells, keepNulls, wireAttrs, UInt8.and_assoc]
  | .strVec v, bs, levels + 1, rest, h, hs, hd => by
    simp only [raySerRaw] at hs
    split at hs <;> cases hs
    simp only [cons_append, append_assoc, parse, parseInner, ofByte_rayStrVec,
      parseStrVec_ser _ _ h.1 h.2.1 h.2.2]
    simp [Obj.decoded, keepNulls, wireAttrs, UInt8.and_assoc]
  | .list attrs es, bs, levels + 1, rest, h, hs, hd => by
    simp only [raySerRaw, map_eq_some_iff] at hs
    obtain ⟨b, hb, rfl⟩ := hs
    have he := parseElems_serElems hfn es rest h.2 hb
      (show Obj.depths es ≤ levels by simp [Obj.depth] at hd; omega)
    simp only [cons_append, append_assoc, parse, parseInner, ofByte_rayList,
      parseList_ser h.1 (serElems_length h.2 hb) he]
    simp [Obj.decoded, UInt8.and_assoc]
  | .table attrs names colAttrs cols, bs, levels + 1, rest, h, hs, hd => by
    simp only [raySerRaw, map_eq_some_iff] at hs
    obtain ⟨b, hb, rfl⟩ := hs
    obtain ⟨⟨hl, hnames, hnul⟩, hcols⟩ := h
    simp only [Obj.depth] at hd
    obtain ⟨k, rfl⟩ : ∃ k, levels = k + 1 := ⟨levels - 1, by omega⟩
    have he := parseElems_serElems hfn cols rest hcols hb (show Obj.depths cols ≤ k by omega)
    have hlist := parseList_ser hl (serElems_length hcols hb) he (colAttrs &&& raySerdeAttrWireMask)
    have hschema := parse_schema rt k (by omega) hnul
      (rayList :: (colAttrs &&& raySerdeAttrWireMask) :: (wireLen cols.length ++ (b ++ rest)))
    have hparse : parse rt (k + 1)
        (rayList :: (colAttrs &&& raySerdeAttrWireMask) :: (wireLen cols.length ++ (b ++ rest))) = _ := hlist
    simp only [cons_append, append_assoc]
    rw [parse, parseInner]
    simp only [ofByte_rayTable, parsePair_cons hschema hparse trivial trivial, tableOf_fits hnames, Obj.decoded]
  | .dict attrs k v, bs, levels + 1, rest, h, hs, hd => by
    simp only [raySerRaw, map_eq_some_iff, bind_eq_some_iff] at hs
    obtain ⟨ks, hks, vs, hvs, rfl⟩ := hs
    simp only [Obj.depth] at hd
    have hk := parse_raySerRaw hfn k (vs ++ rest) h.2.1 hks (show k.depth < levels by omega)
    have hv := parse_raySerRaw hfn v rest h.2.2 hvs (show v.depth < levels by omega)
    simp only [cons_append, append_assoc, parse, parseInner, ofByte_rayDict,
      parsePair_cons hk hv (decoded_plain hfn k h.2.1) (decoded_plain hfn v h.2.2)]
    simp [Obj.decoded, UInt8.and_assoc]
  | .lambda attrs p b, bs, levels + 1, rest, h, hs, hd => by
    simp only [raySerRaw, map_eq_some_iff, bind_eq_some_iff] at hs
    obtain ⟨ps, hps, bodyBytes, hbody, rfl⟩ := hs
    simp only [Obj.depth] at hd
    have hp := parse_raySerRaw hfn p (bodyBytes ++ rest) h.2.1 hps (show p.depth < levels by omega)
    have hb := parse_raySerRaw hfn b rest h.2.2 hbody (show b.depth < levels by omega)
    simp only [cons_append, append_assoc, parse, parseInner, ofByte_rayLambda,
      parsePair_cons hp hb (decoded_plain hfn p h.2.1) (decoded_plain hfn b h.2.2)]
    simp [Obj.decoded]
  | .fn k name, bs, levels + 1, rest, h, hs, hd => by
    cases hs
    obtain ⟨hn, f, hf, -⟩ := hfn k name h
    have hc := cutNul_append hn rest
    simp only [cons_append, append_assoc, nil_append, parse, parseInner, ofByte_wireTag, parseFn,
      hc, hf, Obj.decoded, getD_some]
  | .other _ _, bs, levels + 1, rest, h, hs, hd => h.elim

theorem parseElems_serElems (hfn : Resolves rt fnOk) : ∀ (es : List Obj) {bs : Bytes} {levels : ℕ} (rest : Bytes),
    Obj.SendableAll fnOk es → serElems es = some bs → Obj.depths es ≤ levels →
      parseElems (parse rt levels) es.length (bs ++ rest) = (.ok (Obj.decodedAll rt es), rest)
  | [], bs, levels, rest, h, hs, hd => by cases hs; rfl
  | e :: es, bs, levels, rest, h, hs, hd => by
    simp only [serElems, bind_eq_some_iff, map_eq_some_iff] at hs
    obtain ⟨b, hb, bs', hbs, rfl⟩ := hs
    simp only [Obj.depths] at hd
    have he := parse_raySerRaw hfn e (bs' ++ rest) h.1 hb (show e.depth < levels by omega)
    have hes := parseElems_serElems hfn es rest h.2 hbs (show Obj.depths es ≤ levels by omega)
    rw [append_assoc, length_cons, parseElems_cons he (decoded_plain hfn e h.1), hes]
    rfl

end

end

open Library.Words

def RoundTrips (rt : Runtime) (o : Obj) : Prop :=
  ∃ bs, raySerRaw o = some bs ∧ ∀ rest, ∃ o' log,
    rayDeRaw rt (bs ++ rest) rayDeMaxDepth 0 (.start (bs ++ rest).length 0) = some (o', ⟨rest.length, 0, log⟩) ∧
      o'.view = o.view

def Vec.KeepsNulls {t : FixTy} (v : Vec (Cell t)) : Prop :=
  match v with
  | .owned _ _ => True
  | .slice .. => ∀ c ∈ v.cells, rayVecIsNull v c = false

def Obj.SliceOk : Obj → Prop
  | .vec _ v => v.KeepsNulls
  | .symSlice attrs block offset len _ =>
    symSliceCells attrs block offset len = some ((block.drop offset).take len)
  | .strVec v => strPoolReadable v = true
  | _ => True

abbrev Obj.SliceSafe (o : Obj) : Prop := o.Every Obj.SliceOk
abbrev Obj.SliceSafeAll (es : List Obj) : Prop := Obj.EveryAll Obj.SliceOk es

def noFn : FnKind → Bytes → Prop := fun _ _ => False

lemma resolves_noFn (rt : Runtime) : Resolves rt noFn := fun _ _ h => h.elim

section

variable {rt : Runtime}

lemma wireAttrs_hasNulls (a : UInt8) : wireAttrs a &&& rayAttrHasNulls = a &&& rayAttrHasNulls := by
  simp [wireAttrs, UInt8.and_assoc]

lemma wireAttrs_slice (a : UInt8) : wireAttrs (rayAttrSlice ||| (a &&& raySymWMask)) = 0 := by
  apply UInt8.eq_of_toBitVec_eq
  simp only [wireAttrs, rayAttrSlice, raySymWMask, rayAttrHasNulls, UInt8.toBitVec_and, UInt8.toBitVec_or]
  ext i hi
  interval_cases i <;> simp [UInt8.toBitVec_ofNat]

lemma view_vec_iff (v : Vec (Cell t)) :
    (Obj.vec t (.owned (wireAttrs v.attrs) v.cells)).view = (Obj.vec t v).view ↔ v.KeepsNulls := by
  simp only [Obj.view, Value.vec.injEq, heq_eq_eq, true_and, Vec.cells]
  cases v with
  | owned a cells => simp [Vec.KeepsNulls, rayVecIsNull, Vec.dataAttrs, Vec.attrs, wireAttrs_hasNulls]
  | slice a parent offset len inside =>
    have hz : ∀ c : Cell t, rayVecIsNull (.owned (wireAttrs (rayAttrSlice ||| (a &&& raySymWMask)))
        (((parent.drop offset).take len))) c = false := by
      intro c
      simp [rayVecIsNull, Vec.dataAttrs, wireAttrs_slice]
    simp only [Vec.attrs, hz, List.map_inj_left, Prod.mk.injEq, true_and, Vec.KeepsNulls, Vec.cells, eq_comm]

mutual

lemma kept_iff_sliceSafe : ∀ o : Obj, o.Sendable noFn →
    (((raySerRaw o).isSome ∧ (o.decoded rt).view = o.view) ↔ o.SliceSafe)
  | .nullPtr, h => by simp [raySerRaw, Obj.decoded, Obj.view, Obj.SliceSafe, Obj.Every, Obj.SliceOk]
  | .null, h => by simp [raySerRaw, Obj.decoded, Obj.view, Obj.SliceSafe, Obj.Every, Obj.SliceOk]
  | .error _, h => h.elim
  | .atom _, h => by simp [raySerRaw, Obj.decoded, Obj.view, Obj.SliceSafe, Obj.Every, Obj.SliceOk]
  | .vec t v, h => by simp [raySerRaw, Obj.decoded, view_vec_iff, Obj.SliceSafe, Obj.Every, Obj.SliceOk]
  | .symVec _ _, h => by simp [raySerRaw, Obj.decoded, Obj.view, Obj.SliceSafe, Obj.Every, Obj.SliceOk]
  | .symSlice attrs block offset len _, h => by
    simp only [raySerRaw, Obj.decoded, Obj.view, Value.syms.injEq, Obj.SliceSafe, Obj.Every,
      Obj.SliceOk, isSome_map]
    cases symSliceCells attrs block offset len <;> simp
  | .strVec v, h => by
    have hv : ((Obj.strVec v).decoded rt).view = (Obj.strVec v).view := rfl
    simp only [raySerRaw, hv, and_true, Obj.SliceSafe, Obj.Every, Obj.SliceOk]
    split <;> simp_all
  | .list _ es, h => by
    have := keptAll_iff_sliceSafe es h.2
    simpa [raySerRaw, Obj.decoded, Obj.view, Obj.SliceSafe, Obj.Every, Obj.SliceOk] using this
  | .table _ names _ cols, h => by
    have := keptAll_iff_sliceSafe cols h.2
    simpa [raySerRaw, Obj.decoded, Obj.view, Obj.SliceSafe, Obj.Every, Obj.SliceOk] using this
  | .dict _ k v, h => by
    have hk := kept_iff_sliceSafe k h.2.1
    have hv := kept_iff_sliceSafe v h.2.2
    simp only [Obj.SliceSafe, Obj.Every, Obj.SliceOk, true_and, ← hk, ← hv, raySerRaw, Obj.decoded, Obj.view,
      Value.dict.injEq]
    cases raySerRaw k <;> cases raySerRaw v <;> simp
  | .lambda _ p b, h => by
    have hp := kept_iff_sliceSafe p h.2.1
    have hb := kept_iff_sliceSafe b h.2.2
    simp only [Obj.SliceSafe, Obj.Every, Obj.SliceOk, true_and, ← hp, ← hb, raySerRaw, Obj.decoded, Obj.view,
      Value.lambda.injEq]
    cases raySerRaw p <;> cases raySerRaw b <;> simp
  | .fn _ _, h => h.elim
  | .other _ _, h => h.elim

lemma keptAll_iff_sliceSafe : ∀ es : List Obj, Obj.SendableAll noFn es →
    (((serElems es).isSome ∧ Obj.views (Obj.decodedAll rt es) = Obj.views es) ↔ Obj.SliceSafeAll es)
  | [], h => by simp [serElems, Obj.decodedAll, Obj.views, Obj.SliceSafeAll, Obj.EveryAll]
  | e :: es, h => by
    have he := kept_iff_sliceSafe e h.1
    have hes := keptAll_iff_sliceSafe es h.2
    simp only [Obj.SliceSafeAll, Obj.EveryAll, ← he, ← hes, serElems, Obj.decodedAll, Obj.views, List.cons.injEq]
    cases raySerRaw e <;> cases serElems es <;> simp

end

lemma rayDeRaw_raySerRaw {fnOk : FnKind → Bytes → Prop} (hfn : Resolves rt fnOk)
    (h : o.Sendable fnOk) (hd : o.depth < rayDeMaxDepth) (hs : raySerRaw o = some bs) (rest : Bytes) :
    ∃ log, rayDeRaw rt (bs ++ rest) rayDeMaxDepth 0 (.start (bs ++ rest).length 0) =
      some (o.decoded rt, ⟨rest.length, 0, log⟩) := by
  obtain ⟨log, he, -⟩ := rayDeRaw_parse rt (bs ++ rest) (Nat.zero_le rayDeMaxDepth) (Nat.sub_le _ 0)
  rw [Nat.sub_zero, parse_raySerRaw hfn o rest h hs hd] at he
  exact ⟨_, he⟩

lemma roundTrips_iff_kept (h : o.Sendable noFn) (hd : o.depth < rayDeMaxDepth) :
    RoundTrips rt o ↔ (raySerRaw o).isSome ∧ (o.decoded rt).view = o.view := by
  constructor
  · rintro ⟨bs, hs, hr⟩
    obtain ⟨o', log, he, hv⟩ := hr []
    obtain ⟨log', he'⟩ := rayDeRaw_raySerRaw (resolves_noFn rt) h hd hs []
    rw [he] at he'
    cases he'
    exact ⟨by simp [hs], hv⟩
  · rintro ⟨hs, hv⟩
    obtain ⟨bs, hs⟩ := Option.isSome_iff_exists.mp hs
    refine ⟨bs, hs, fun rest => ?_⟩
    obtain ⟨log, he⟩ := rayDeRaw_raySerRaw (resolves_noFn rt) h hd hs rest
    exact ⟨_, log, he, hv⟩

end

theorem roundTrips_iff_sliceSafe (rt : Runtime) (o : Obj) (h : o.Sendable noFn)
    (hd : o.depth < rayDeMaxDepth) : RoundTrips rt o ↔ o.SliceSafe :=
  (roundTrips_iff_kept h hd).trans (kept_iff_sliceSafe o h)

def i64Cell (n : ℕ) : Cell .i64 := ⟨leBytes 8 n, leBytes_eight n⟩

def sampleDict : Obj :=
  .dict 0 (.symVec raySymW64 [[0x61], [0x62]])
    (.list 0 [.atom (.sym [0x61] true), .vec .i64 (.owned rayAttrHasNulls [nullCell .i64, i64Cell 7])])

theorem roundTrips_sampleDict : RoundTrips bareRuntime sampleDict ↔ sampleDict.SliceSafe :=
  roundTrips_iff_sliceSafe bareRuntime sampleDict
    (by simp [sampleDict, Obj.Sendable, Obj.Every, Obj.EveryAll, Obj.Fits, AtomFits, NulFree, Vec.cells])
      (by decide)

-- the first entry of a dict whose two keys are a null and 7, taken as a range
def takenDict : Obj :=
  .dict 0 (.vec .i64 (.slice rayAttrHasNulls [nullCell .i64, i64Cell 7] 0 1 (by decide))) (.list 0 [.null])

theorem takenDict_not_roundTrips : takenDict.Sendable noFn ∧ takenDict.depth < rayDeMaxDepth ∧
    ¬ RoundTrips bareRuntime takenDict := by
  have hs : takenDict.Sendable noFn := by
    simp [takenDict, Obj.Sendable, Obj.Every, Obj.EveryAll, Obj.Fits, Vec.cells]
  have hd : takenDict.depth < rayDeMaxDepth := by decide
  refine ⟨hs, hd, fun hr => ?_⟩
  obtain ⟨-, hkeys, -⟩ := (kept_iff_sliceSafe takenDict hs).mp ((roundTrips_iff_kept hs hd).mp hr)
  exact absurd (hkeys (nullCell .i64) (by decide)) (by decide)

end Rayforce.Serde
