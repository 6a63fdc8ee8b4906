import Rayforce.Store.Columns

namespace Rayforce.Store

open Library.Words Library.Readers List Option
open Rayforce.Serde (FixTy Cell Vec rayVecIsNull sentinelIsNull raySymWMask rayAttrSlice rayAttrSorted
    rayAttrHasNulls)

variable {base names : List Bytes} {x : Extra} {p : Proc} {home : SymHome}
variable {magic bs : Bytes} {es : List Obj} {t : FixTy}

def Obj.nested : Obj → Bool
  | .list _ | .table _ _ => true
  | _ => false

def Kept (base names : List Bytes) (x : Extra) (o : Obj) : Prop :=
  ∃ file, rayColSave names x o = .ok file ∧
    (∀ p : Proc, Table base p.names → (o.nested = true ∨ p.names = names) →
      ∃ o', colLoadImpl p .process file = .ok o' ∧ o'.view p.names = o.view names) ∧
    ∀ (p : Proc) (o' : Obj), colMmapImpl p .process file = .ok o' → colLoadImpl p .process file = .ok o'

def Obj.Survives (base : List Bytes) : Obj → Prop
  | .vec _ (.slice attrs parent offset len inside) =>
    ∀ c ∈ (Vec.slice attrs parent offset len inside).cells,
      rayVecIsNull (Vec.slice attrs parent offset len inside) c = false
  | .symSlice v offset len _ => v.runtime = true ∨ v.ReadsRight offset len
  | .strSlice v offset len _ => offset = 0 ∧ ∀ d ∈ v.descs.take len, d.len ≤ rayStrInlineMax
  | .list es => Obj.FramedAll es ∧ Obj.PortableAll base es
  | .table ids cols => (Obj.table ids cols).Framed ∧ (Obj.table ids cols).Portable base
  | _ => True

lemma load_vec (hx : x.addr.length = 8) {cells : List (Cell t)} {attrs : UInt8}
    (h : cells.length * t.size < 2 ^ 59) :
    colLoadImpl p home (saveRaw x t.vecTag attrs 0 cells.length (cells.flatMap Cell.bytes)) =
      .ok (.vec t (.owned (attrs &&& colDiskAttrsMask) cells)) := by
  have hlen : cells.length < 2 ^ 59 := (Nat.le_mul_of_pos_right _ (size_pos t)).trans_lt h
  have htag : fixTy? t.vecTag ≠ none := by
    rw [fixTy?_vecTag]
    nofun
  have hsize : elemSize t.vecTag attrs = t.size := by
    rw [elemSize, if_neg (vecTag_ne t).1, if_neg (vecTag_ne t).2, fixTy?_vecTag]
    rfl
  rw [saveRaw, append_assoc, colLoadImpl_header (headerAux_length hx _ _) (headerAux_magic x _ _)
    (.inr (.inr htag)) hlen (by rw [hsize]; omega), readBody_fixed]
  rfl

lemma load_syms (hx : x.addr.length = 8) (hp : p.names.length < 2 ^ 32) {ids : List ℕ} {attrs : UInt8} {w : ℕ}
    (hw : (attrs &&& raySymWMask).toNat = w) (hlen : ids.length < 2 ^ 59)
    (hids : ∀ i ∈ ids, i < p.names.length ∧ i < 256 ^ 2 ^ w) :
    colLoadImpl p .process (saveRaw x raySymTag attrs (p.names.length % 2 ^ 32) ids.length (symBytes w ids)) =
      .ok (symVecOf (attrs &&& colDiskAttrsMask) p.names true ids) := by
  have hwidth : w ≤ 3 := by
    rw [← hw, UInt8.toNat_and]
    exact Nat.and_le_right
  have hpow : 2 ^ w ≤ 8 := Nat.pow_le_pow_right (by norm_num) hwidth
  have hsize : elemSize raySymTag attrs = 2 ^ w := by rw [elemSize, if_pos rfl, hw]
  have hbounds : symBoundsOk ids p.names.length = true := by
    rw [symBoundsOk, Bool.or_eq_true, List.all_eq_true]
    refine .inr fun i hi => ?_
    have := (hids i hi).1
    simp only [Bool.and_eq_true, decide_eq_true_eq]
    omega
  rw [saveRaw, append_assoc, colLoadImpl_header (headerAux_length hx _ _) (headerAux_magic x _ _) (.inl rfl) hlen
    (by rw [hsize]; nlinarith), readBody_syms hw fun i hi => (hids i hi).2]
  simp only [Except.bind, colAttach]
  rw [Nat.mod_eq_of_lt (by omega), Nat.mod_eq_of_lt hp, if_neg (by omega), if_neg (by simp [hbounds])]

lemma load_strs (hx : x.addr.length = 8) {descs : List Desc} {pool : Bytes} {attrs : UInt8}
    (h : descs.length < 2 ^ 59) (hp : pool.length < 2 ^ 59) : colLoadImpl p home (saveStrs x attrs descs pool) =
      if ∀ d ∈ descs, d.Ok pool then .ok
        (.strVec ⟨attrs &&& colDiskAttrsMask, descs, pool⟩) else .error .corrupt := by
  have hsize : elemSize rayStrTag attrs = 16 := rfl
  rw [saveStrs, append_assoc, append_assoc, colLoadImpl_header (headerAux_length hx _ _) (headerAux_magic x _ _)
    (.inr (.inl rfl)) h (by rw [hsize]; omega), readBody_strs descs hp]
  split_ifs <;> rfl

section

variable {o : Obj} {file : Bytes}

lemma exists_ok {P : Obj → Prop} : (∃ o', (Except.ok o : Except Err Obj) = .ok o' ∧ P o') ↔ P o := by
  simp only [Except.ok.injEq, exists_eq_left']

lemma not_kept_of_fault {f : Fail} (hs : rayColSave names x o = .error f) : ¬ Kept base names x o := by
  rintro ⟨file, hfile, -⟩
  rw [hs] at hfile
  cases hfile

lemma kept_iff (hs : rayColSave names x o = .ok file) : Kept base names x o ↔ ∀ p : Proc, Table base p.names →
    (o.nested = true ∨ p.names = names) → ∃ o', colLoadImpl p .process file = .ok o' ∧
      o'.view p.names = o.view names := by
  constructor
  · rintro ⟨file', hs', hload, -⟩
    rw [hs] at hs'
    cases hs'
    exact hload
  · exact fun hload => ⟨file, hs, hload, fun p o' => load_of_mmap⟩

lemma kept_vector (hn : o.nested = false) (ht : Table base names) (hs : rayColSave names x o = .ok file)
    {r : Except Err Obj} (hload : ∀ p : Proc, p.names = names → colLoadImpl p .process file = r) :
    Kept base names x o ↔ ∃ o', r = .ok o' ∧ o'.view names = o.view names := by
  rw [kept_iff hs]
  constructor
  · intro h
    obtain ⟨o', ho', hview⟩ := h ⟨names, fun _ => .error .corrupt⟩ ht (.inr rfl)
    exact ⟨o', (hload _ rfl).symm.trans ho', hview⟩
  · rintro ⟨o', ho', hview⟩ p hp hsame
    have hnames : p.names = names := hsame.resolve_left (by rw [hn]; nofun)
    exact ⟨o', (hload p hnames).trans ho', hnames ▸ hview⟩

lemma kept_vec (ht : Table base names) (hx : x.addr.length = 8) {v : Vec (Cell t)}
    (hh : (Obj.vec t v).Held names) :
    Kept base names x (.vec t v) ↔ (Obj.vec t v).Survives base := by
  rw [kept_vector rfl ht rfl fun p _ => load_vec hx hh]
  cases v with
  | owned attrs cells =>
    refine iff_of_true (exists_ok.mpr ?_) trivial
    rw [Obj.view, Obj.view]
    refine congrArg _ (map_congr_left fun c _ => ?_)
    rw [rayVecIsNull, rayVecIsNull, Vec.dataAttrs, Vec.dataAttrs, mask_nulls, savedAttrs_nulls]
    rfl
  | slice attrs parent offset len inside =>
    rw [exists_ok, vec_view_iff _ (by rw [mask_nulls, savedAttrs_nulls, Vec.attrs, sliceAttrs_nulls]),
      Obj.Survives]

lemma kept_strVec (ht : Table base names) (hx : x.addr.length = 8) {v : StrVec} (hh : (Obj.strVec v).Held names) :
    Kept base names x (.strVec v) := by
  rw [kept_vector rfl ht rfl fun p _ => load_strs hx hh.1 hh.2.1, if_pos hh.2.2]
  exact ⟨_, rfl, rfl⟩

lemma kept_strSlice (ht : Table base names) (hx : x.addr.length = 8) {v : StrVec} {offset len : ℕ}
    {inside : offset + len ≤ v.descs.length} (hh : (Obj.strSlice v offset len inside).Held names) :
    Kept base names x (.strSlice v offset len inside) ↔ (Obj.strSlice v offset len inside).Survives base := by
  by_cases hzero : offset = 0
  · have hsave : rayColSave names x (.strSlice v offset len inside) =
        .ok (saveStrs x (savedAttrs (sliceAttrs v.attrs)) (v.descs.take len) []) := by
      rw [rayColSave, if_pos hzero]
    have hlen : (v.descs.take len).length < 2 ^ 59 := by
      rw [length_take]
      exact (min_le_left _ _).trans_lt hh.1
    rw [kept_vector rfl ht hsave fun p _ => load_strs hx hlen (by norm_num)]
    subst hzero
    split_ifs with hok
    · rw [exists_ok, Obj.view, Obj.view, drop_zero, Value.strs.injEq, strSlice_view_iff hh.2.2, Obj.Survives]
      simp
    · refine iff_of_false (by simp) fun h => hok fun d hd => .inl (h.2 d hd)
  · have hsave : rayColSave names x (.strSlice v offset len inside) = .error .fault := by
      rw [rayColSave, if_neg hzero]
    exact iff_of_false (not_kept_of_fault hsave) fun h => hzero h.1

end

section

variable {v : SymVec} {offset len : ℕ} {attrs : UInt8}

lemma view_symVecOf (attrs : UInt8) (runtime : Bool) (ids : List ℕ) (names : List Bytes) :
    (symVecOf attrs names runtime ids).view names = .syms (ids.map (names[·]?)) := by
  rw [symVecOf, Obj.view, SymVec.cells, drop_zero, List.take_length]

lemma mapM_map {α β γ ε : Type} {f : α → Except ε β} {g : β → γ} (l : List α) :
    (l.mapM fun a => (f a).map g) = (l.mapM f).map (List.map g) := by
  induction l with
  | nil => rfl
  | cons a l ih =>
    rw [mapM_cons, mapM_cons, ih]
    cases f a with
    | error e => rfl
    | ok b => cases l.mapM f <;> rfl

lemma raySymDictWidth_fits {n i : ℕ} (hi : i < n) (hn : n < 2 ^ 32) : i < 256 ^ 2 ^ raySymDictWidth n := by
  rw [raySymDictWidth]
  split_ifs <;> norm_num <;> omega

lemma ofNat_width (a : UInt8) (n : ℕ) :
    ((a &&& ~~~(raySymWMask ||| rayAttrSorted) ||| UInt8.ofNat (raySymDictWidth n)) &&& raySymWMask).toNat =
      raySymDictWidth n := by
  have hoff : ~~~(raySymWMask ||| rayAttrSorted) &&& raySymWMask = 0 := by decide
  rw [or_and, UInt8.and_assoc, hoff, UInt8.and_zero, UInt8.zero_or, raySymDictWidth]
  split_ifs <;> rfl

lemma xlated_names {ss : List Bytes} (hs : ∀ s ∈ ss, s ∈ names) :
    (ss.map names.idxOf).map (names[·]?) = ss.map some := by
  rw [List.map_map]
  refine map_congr_left fun s hmem => ?_
  have hlt := idxOf_lt_length_of_mem (hs s hmem)
  rw [Function.comp_apply, getElem?_eq_getElem hlt, getElem_idxOf]

lemma written_mem {bs : Bytes} (hw : writeSyms v offset len = .ok bs) : ∀ s ∈ v.written offset len, s ∈ v.dom := by
  intro s hs
  have hmem : some s ∈ (v.written offset len).map some := mem_map_of_mem hs
  rw [written_map_some hw] at hmem
  obtain ⟨i, -, hi⟩ := mem_map.mp hmem
  obtain ⟨pos, -, hpos⟩ := bind_eq_some_iff.mp hi
  exact mem_of_getElem? hpos

lemma load_runtime (ht : Table base names) (hx : x.addr.length = 8) (hp : p.names = names)
    (ha : attrs &&& raySymWMask = v.attrs &&& raySymWMask) (hin : offset + len ≤ v.block.length)
    (hlen : len < 2 ^ 59)
    (hpos : ∀ pos ∈ (v.block.drop offset).take len, pos < v.dom.length ∧ pos < 256 ^ 2 ^ v.width)
    (hdom : v.dom = names) :
    colLoadImpl p .process (saveRaw x raySymTag (savedAttrs attrs) (names.length % 2 ^ 32) len
      (symBytes v.width ((v.block.drop offset).take len))) =
      .ok (symVecOf (savedAttrs attrs &&& colDiskAttrsMask) names true ((v.block.drop offset).take len)) := by
  subst hp
  have hcount : ((v.block.drop offset).take len).length = len := by
    rw [length_take, length_drop]
    omega
  have hw : (savedAttrs attrs &&& raySymWMask).toNat = v.width := by rw [savedAttrs_width, ha, SymVec.width]
  have hload : colLoadImpl p .process _ = _ := load_syms hx ht.fits hw (by rw [hcount]; exact hlen) (hdom ▸ hpos)
  rwa [hcount] at hload

def xlatedAttrs (attrs : UInt8) (n : ℕ) : UInt8 :=
  savedAttrs attrs &&& ~~~(raySymWMask ||| rayAttrSorted) ||| UInt8.ofNat (raySymDictWidth n)

lemma saveSyms_foreign (hrt : v.runtime = false) : saveSyms names x attrs v offset len =
    ((List.range len).mapM fun i => v.raySymVecCell offset i).map fun ss =>
      saveRaw x raySymTag (xlatedAttrs attrs names.length) (names.length % 2 ^ 32) len
        (symBytes (raySymDictWidth names.length) (ss.map names.idxOf)) := by
  rw [saveSyms, if_neg (by rw [hrt]; nofun), symXlate, mapM_map]
  cases (range len).mapM fun i => v.raySymVecCell offset i <;> rfl

lemma load_foreign (ht : Table base names) (hx : x.addr.length = 8) (hp : p.names = names) {ss : List Bytes}
    (hlen : ss.length < 2 ^ 59) (hss : ∀ s ∈ ss, s ∈ names) :
    colLoadImpl p .process (saveRaw x raySymTag (xlatedAttrs attrs names.length) (names.length % 2 ^ 32) ss.length
        (symBytes (raySymDictWidth names.length) (ss.map names.idxOf))) =
      .ok (symVecOf (xlatedAttrs attrs names.length &&& colDiskAttrsMask) names true (ss.map names.idxOf)) := by
  subst hp
  have hids : ∀ i ∈ ss.map p.names.idxOf, i < p.names.length ∧ i < 256 ^ 2 ^ raySymDictWidth p.names.length := by
    intro i hi
    obtain ⟨s, hs, rfl⟩ := mem_map.mp hi
    have hlt := idxOf_lt_length_of_mem (hss s hs)
    exact ⟨hlt, raySymDictWidth_fits hlt ht.fits⟩
  have hload : colLoadImpl p .process _ = _ := load_syms hx ht.fits (ofNat_width (savedAttrs attrs) p.names.length)
    (by rw [length_map]; exact hlen) hids
  rwa [length_map] at hload

lemma kept_syms {o : Obj} (hn : o.nested = false) (ht : Table base names) (hx : x.addr.length = 8)
    (hs : rayColSave names x o = saveSyms names x attrs v offset len)
    (ho : o.view names = .syms (v.cells offset len))
    (ha : attrs &&& raySymWMask = v.attrs &&& raySymWMask) (hin : offset + len ≤ v.block.length)
    (hlen : len < 2 ^ 59)
    (hpos : ∀ pos ∈ (v.block.drop offset).take len, pos < v.dom.length ∧ pos < 256 ^ 2 ^ v.width)
    (hdom : if v.runtime then v.dom = names else ∀ s ∈ v.dom, s ∈ names) :
    Kept base names x o ↔ v.runtime = true ∨ v.ReadsRight offset len := by
  cases hrt : v.runtime with
  | true =>
    rw [hrt, if_pos rfl] at hdom
    have hfile := hs.trans (by rw [saveSyms, if_pos hrt])
    rw [kept_vector hn ht hfile fun p hp =>
      load_runtime ht hx hp ha hin hlen hpos hdom, exists_ok, view_symVecOf, ho]
    refine iff_of_true ?_ (.inl rfl)
    rw [SymVec.cells, hdom]
  | false =>
    rw [hrt, if_neg Bool.false_ne_true] at hdom
    rw [saveSyms_foreign hrt] at hs
    cases hss : (range len).mapM fun i => v.raySymVecCell offset i with
    | error f =>
      rw [hss] at hs
      refine iff_of_false (not_kept_of_fault hs) fun h => ?_
      obtain ⟨ss, hok⟩ := mapM_ok (raySymVecCell_ok hin (fun pos hp => (hpos pos hp).1)
        (h.resolve_left Bool.false_ne_true))
      rw [hss] at hok
      cases hok
    | ok ss =>
      rw [hss] at hs
      have hwrite : writeSyms v offset len = .ok (raySymTag :: (leBytes 8 len ++ ss.flatMap counted)) := by
        rw [writeSyms, hss]
        rfl
      have hwritten : ss = v.written offset len := eq_written (mapM_eq_ok hss)
      have hcount : ss.length = len := by rw [hwritten, (writeSyms_eq hwrite).2]
      have hmem : ∀ s ∈ ss, s ∈ names := fun s hmem => hdom s (written_mem hwrite s (hwritten ▸ hmem))
      subst hcount
      rw [kept_vector hn ht hs fun p hp => load_foreign ht hx hp hlen hmem, exists_ok, view_symVecOf,
        xlated_names hmem, ho, Value.syms.injEq, hwritten,
        (writeSyms_eq hwrite).2, written_map_some_iff hwrite hin]
      simp

end

section

variable {o : Obj}

lemma colLoadImpl_nested (hm : magic = listMagic ∨ magic = tableMagic) :
    colLoadImpl p home (magic ++ bs) = (colReadRecursive p.names (magic ++ bs).length bs).map Prod.fst := by
  have hlen : magic.length = 4 := by rcases hm with rfl | rfl <;> rfl
  have hstrl : magic ≠ strListMagic := by rcases hm with rfl | rfl <;> decide
  have hstrv : magic ≠ strVecMagic := by rcases hm with rfl | rfl <;> decide
  have hne : magic ++ bs ≠ [] := ne_nil_of_length_pos (by rw [length_append]; omega)
  rw [colLoadImpl, if_neg hne, take_left' hlen, if_neg hstrl, if_neg hstrv, if_pos hm, drop_left' hlen]

lemma table_base (ht : Table base names) : Table base base := ⟨prefix_rfl, ht.starts.length_le.trans_lt ht.fits⟩

lemma kept_nested (hn : o.nested = true) (ht : Table base names) (hh : o.Held names)
    (hm : magic = listMagic ∨ magic = tableMagic) (hw : colWriteRecursive o = .ok bs)
    (hs : rayColSave names x o = .ok (magic ++ bs)) :
    (o.Framed ∧ o.Portable base → Kept base names x o) ∧
    (o.SlicesShort → Kept base names x o → o.Framed ∧ o.Portable base) := by
  have hfuel : bs.length ≤ (magic ++ bs).length := by
    rw [length_append]
    exact Nat.le_add_left _ _
  have hload : ∀ p : Proc, o.Framed → colLoadImpl p .process (magic ++ bs) = .ok (o.reload p.names) := by
    intro p hf
    have hreads : Reads (colReadRecursive p.names (magic ++ bs).length) bs (o.reload p.names) :=
      reads_reload ht.fits o hh hf hw hfuel
    have hread := hreads []
    rw [append_nil] at hread
    rw [colLoadImpl_nested hm, hread]
    rfl
  constructor
  · rintro ⟨hf, hp⟩
    exact (kept_iff hs).mpr fun p hp' _ => ⟨_, hload p hf, (view_reload ht.starts hp'.starts o hh hw).1 hp⟩
  · intro hshort hk
    obtain ⟨o', ho', hview⟩ := (kept_iff hs).mp hk ⟨base, fun _ => .error .corrupt⟩ (table_base ht) (.inl hn)
    by_cases hf : o.Framed
    · rw [hload _ hf] at ho'
      cases ho'
      exact ⟨hf, (view_reload ht.starts prefix_rfl o hh hw).2 hview⟩
    · rw [colLoadImpl_nested hm] at ho'
      obtain ⟨q, hread, rfl⟩ := map_eq_ok ho'
      have hyields : Yields (colReadRecursive base (magic ++ bs).length) bs fun o' =>
          o'.view base ≠ o.view names :=
        yields_unframed ht.fits o hh hshort hf hw hfuel
      refine absurd hview (hyields [] q.1 q.2 ?_)
      rw [append_nil]
      exact hread

end

section

variable {ss : List Bytes}

def strAtoms (ss : List Bytes) : List Obj := ss.map fun s => .atom (.str s)

lemma exists_strAtoms (h : isStrList es = true) : ∃ ss, es = strAtoms ss := by
  induction es with
  | nil => exact ⟨[], rfl⟩
  | cons e es ih =>
    rw [isStrList, all_cons, Bool.and_eq_true] at h
    obtain ⟨ss, rfl⟩ := ih h.2
    cases e with
    | atom a =>
      cases a with
      | str s => exact ⟨s :: ss, rfl⟩
      | _ => cases h.1
    | _ => cases h.1

lemma isStrList_strAtoms (ss : List Bytes) : isStrList (strAtoms ss) = true := by
  rw [isStrList, strAtoms, List.all_map, List.all_eq_true]
  exact fun _ _ => rfl

lemma framedAll_strAtoms (ss : List Bytes) : Obj.FramedAll (strAtoms ss) ↔ ∀ s ∈ ss, Short s := by
  induction ss with
  | nil => exact iff_of_true trivial (by simp)
  | cons s ss ih =>
    rw [forall_mem_cons, ← ih]
    rfl

lemma portableAll_strAtoms (ss : List Bytes) : Obj.PortableAll base (strAtoms ss) := by
  induction ss with
  | nil => trivial
  | cons s ss ih => exact ⟨trivial, ih⟩

lemma colSaveStrList_eq (ss : List Bytes) :
    colSaveStrList (strAtoms ss) = strListMagic ++ (leBytes 8 ss.length ++ ss.flatMap counted) := by
  rw [colSaveStrList, strAtoms, length_map, flatMap_map, append_assoc]
  rfl

lemma colLoadImpl_strList (bs : Bytes) :
    colLoadImpl p home (strListMagic ++ bs) = (colLoadStrList bs).map Prod.fst := by
  have hlen : strListMagic.length = 4 := rfl
  have hne : strListMagic ++ bs ≠ [] := ne_nil_of_length_pos (by rw [length_append]; omega)
  rw [colLoadImpl, if_neg hne, take_left' hlen, if_pos rfl, drop_left' hlen]

lemma view_strAtoms (ss : List Bytes) :
    (Obj.list (strAtoms ss)).view names = .list (ss.map fun s => .atom (.str s)) := by
  rw [Obj.view, views_eq_map, strAtoms, List.map_map]
  rfl

lemma strAtoms_injective {ss ss' : List Bytes}
    (h : (ss.map fun s => Value.atom (.str s)) = ss'.map fun s => Value.atom (.str s)) : ss = ss' :=
  map_injective_iff.mpr (fun _ _ heq => AtomValue.str.inj (Value.atom.inj heq)) h

lemma kept_strList (ht : Table base names) (hh : ss.length < 2 ^ 59) :
    Kept base names x (.list (strAtoms ss)) ↔ ∀ s ∈ ss, Short s := by
  have hs : rayColSave names x (.list (strAtoms ss)) =
      .ok (strListMagic ++ (leBytes 8 ss.length ++ ss.flatMap counted)) := by
    rw [rayColSave, if_pos (isStrList_strAtoms ss), colSaveStrList_eq]
  rw [kept_iff hs]
  constructor
  · intro hload
    by_contra hlong
    obtain ⟨o', ho', hview⟩ := hload ⟨names, fun _ => .error .corrupt⟩ ht (.inl rfl)
    rw [colLoadImpl_strList] at ho'
    obtain ⟨q, hread, rfl⟩ := map_eq_ok ho'
    have hyields : Yields colLoadStrList (leBytes 8 ss.length ++ ss.flatMap counted) fun o' =>
        o'.view names ≠ (Obj.list (strAtoms ss)).view names := by
      refine (reads_count hh).bind_yields (yields_room ?_)
      rw [← append_nil (ss.flatMap counted)]
      refine (yields_countedStrs hlong).bind fun ss' hne r o' rest hpure hview => ?_
      cases hpure
      rw [← strAtoms, view_strAtoms, view_strAtoms] at hview
      exact hne (strAtoms_injective (Value.list.inj hview))
    refine absurd hview (hyields [] q.1 q.2 ?_)
    rw [append_nil]
    exact hread
  · intro hshort p _ _
    have hreads : Reads colLoadStrList (leBytes 8 ss.length ++ ss.flatMap counted) (.list (strAtoms ss)) :=
      (reads_count hh).bind (reads_room (reads_countedStrs hshort).bind_pure (flatMap_counted_length ss))
    have hread := hreads []
    rw [append_nil] at hread
    refine ⟨.list (strAtoms ss), by rw [colLoadImpl_strList, hread]; rfl, ?_⟩
    rw [view_strAtoms, view_strAtoms]

end

section

variable {o : Obj}

lemma kept_listOfStrs (ht : Table base names) (hh : (Obj.list es).Held names) (hes : isStrList es = true) :
    Kept base names x (.list es) ↔ (Obj.list es).Survives base := by
  obtain ⟨ss, rfl⟩ := exists_strAtoms hes
  have hlen : ss.length < 2 ^ 59 := by
    have := hh.1
    rwa [strAtoms, length_map] at this
  rw [kept_strList ht hlen, Obj.Survives, framedAll_strAtoms]
  exact (and_iff_left (portableAll_strAtoms ss)).symm

lemma kept_symVec (ht : Table base names) (hx : x.addr.length = 8) {v : SymVec} (hh : (Obj.symVec v).Held names) :
    Kept base names x (.symVec v) := by
  have hs : rayColSave names x (.symVec v) = saveSyms names x v.attrs v 0 v.len := rfl
  have hin : 0 + v.len ≤ v.block.length := by
    rw [Nat.zero_add]
    exact v.inside
  exact (kept_syms rfl ht hx hs rfl rfl hin hh.1 hh.2.1 hh.2.2).mpr (.inr (readsRight_zero v v.len))

lemma kept_symSlice (ht : Table base names) (hx : x.addr.length = 8) {v : SymVec} {offset len : ℕ}
    {inside : offset + len ≤ v.len} (hh : (Obj.symSlice v offset len inside).Held names) :
    Kept base names x (.symSlice v offset len inside) ↔ (Obj.symSlice v offset len inside).Survives base :=
  kept_syms rfl ht hx rfl rfl (sliceAttrs_width v.attrs) (inside.trans v.inside) hh.1 hh.2.1 hh.2.2

/-- What a value must be for its column file to keep it. -/
theorem rayColSave_kept (ht : Table base names) (hx : x.addr.length = 8) (hh : o.Held names)
    (hacc : ∀ e, rayColSave names x o ≠ .error (.error e)) :
    (o.Survives base → Kept base names x o) ∧
    ((o.nested = true → o.SlicesShort) → Kept base names x o → o.Survives base) := by
  cases o with
  | nullPtr | error | atom | dict | other => exact absurd rfl (hacc _)
  | vec t v => exact ⟨(kept_vec ht hx hh).mpr, fun _ => (kept_vec ht hx hh).mp⟩
  | symVec v => exact ⟨fun _ => kept_symVec ht hx hh, fun _ _ => trivial⟩
  | symSlice v offset len inside => exact ⟨(kept_symSlice ht hx hh).mpr, fun _ => (kept_symSlice ht hx hh).mp⟩
  | strVec v => exact ⟨fun _ => kept_strVec ht hx hh, fun _ _ => trivial⟩
  | strSlice v offset len inside => exact ⟨(kept_strSlice ht hx hh).mpr, fun _ => (kept_strSlice ht hx hh).mp⟩
  | list es =>
    by_cases hes : isStrList es = true
    · exact ⟨(kept_listOfStrs ht hh hes).mpr, fun _ => (kept_listOfStrs ht hh hes).mp⟩
    · have hs : rayColSave names x (.list es) = (colWriteRecursive (.list es)).map (listMagic ++ ·) := by
        rw [rayColSave, if_neg hes]
      cases hw : colWriteRecursive (.list es) with
      | error f =>
        rw [hw] at hs
        cases f with
        | error e => exact absurd hs (hacc e)
        | fault =>
          exact ⟨fun hp => absurd hw (colWriteRecursive_ne_fault _ hh hp.2), fun _ hk =>
            absurd hk (not_kept_of_fault hs)⟩
      | ok bs =>
        rw [hw] at hs
        have hkept := kept_nested rfl ht hh (.inl rfl) hw hs
        exact ⟨hkept.1, fun hshort => hkept.2 (hshort rfl)⟩
  | table ids cols =>
    have hs : rayColSave names x (.table ids cols) = (colWriteRecursive (.table ids cols)).map (tableMagic ++ ·) :=
      rfl
    cases hw : colWriteRecursive (.table ids cols) with
    | error f =>
      rw [hw] at hs
      cases f with
      | error e => exact absurd hs (hacc e)
      | fault =>
        exact ⟨fun hp => absurd hw (colWriteRecursive_ne_fault _ hh hp.2), fun _ hk =>
          absurd hk (not_kept_of_fault hs)⟩
    | ok bs =>
      rw [hw] at hs
      have hkept := kept_nested rfl ht hh (.inr rfl) hw hs
      exact ⟨hkept.1, fun hshort => hkept.2 (hshort rfl)⟩

def nullVec : Obj := .vec .i64 (.owned rayAttrHasNulls [Serde.nullCell .i64])

/-- The null of a vector survives at the top. -/
theorem nullVec_kept : Kept [[]] [[]] ⟨List.replicate 8 0, none⟩ nullVec :=
  (rayColSave_kept ⟨prefix_rfl, by decide⟩ rfl (by norm_num [nullVec, Obj.Held, Vec.cells, FixTy.size]) fun e h =>
    by cases h).1 trivial

/-- Inside a list it does not. -/
theorem list_nullVec_not_kept : Table [[]] [[]] ∧ (Obj.list [nullVec]).Held [[]] ∧
    (∃ file, rayColSave [[]] ⟨List.replicate 8 0, none⟩ (.list [nullVec]) = .ok file) ∧
    ¬ Kept [[]] [[]] ⟨List.replicate 8 0, none⟩ (.list [nullVec]) := by
  have ht : Table [[]] [[]] := ⟨prefix_rfl, by decide⟩
  have hh : (Obj.list [nullVec]).Held [[]] := by norm_num [nullVec, Obj.Held, Obj.HeldAll, Vec.cells, FixTy.size]
  refine ⟨ht, hh, ⟨_, rfl⟩, fun hk => ?_⟩
  have hlist := (kept_nested rfl ht hh (.inl rfl) rfl rfl).2 ⟨trivial, trivial⟩ hk
  exact absurd (hlist.2.1 _ (mem_singleton.mpr rfl)) (by decide)

end

end Rayforce.Store
