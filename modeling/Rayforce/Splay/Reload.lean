import Rayforce.Splay.Runs

namespace Rayforce.Splay

open Library.Words List Option
open Rayforce.Serde (FixTy Cell Vec rayAttrSorted)
open Rayforce.Store (Obj SymVec StrVec Desc Extra Proc SymHome Mapped Table Kept colValidateMapped colAttach
    colLoadImpl colMmapImpl rayColSave
  extendedMagics indexRegion rayIndexSize)
open Rayforce.Domain (SymDomain Holds)

variable {p : Proc} {home home' : SymHome} {file bs : Bytes} {o o' : Obj} {m : Mapped} {useMmap scan : Bool}
    {base names : List Bytes} {x : Extra}
  {V U : List Bytes} {k : ℕ} {d : SymDomain} {c : Column} {v : SymVec} {offset len : ℕ}

def IndexWhole (x : Extra) : Prop := ∀ region, x.index = some region → 32 + rayIndexSize ≤ region.length

lemma colAttach_symless {p' : Proc} {scan' : Bool} (h : ∀ ids, m.body ≠ .syms ids) :
    colAttach p home scan m = colAttach p' home' scan' m := by
  rw [colAttach, colAttach]
  cases hb : m.body with
  | fixed | strs => rfl
  | syms ids => exact absurd hb (h ids)

lemma colLoadImpl_symless (h : Symless file) : colLoadImpl p home file = colLoadImpl p home' file := by
  rw [colLoadImpl, colLoadImpl]
  split_ifs
  · rfl
  · rfl
  · rfl
  · rfl
  · cases hm : colValidateMapped file with
    | error e => rfl
    | ok m => exact colAttach_symless (h m · hm)

lemma validate_marked (h : file.take 4 ∈ extendedMagics) : colValidateMapped file = .error .nyi := by
  have hfour := Store.extendedMagics_length h
  rw [length_take] at hfour
  have hne : file ≠ [] := by
    rintro rfl
    simp at hfour
  rw [colValidateMapped, if_neg hne, if_pos ⟨by omega, h⟩]

lemma loadFile_symless (h : Symless file)
    (htail : ∀ m, colValidateMapped file = .ok m → m.hasIndex = true ∨ m.tail = file.length)
    (hload : colLoadImpl p home file = .ok o) : loadFile p home' useMmap file = .ok o := by
  rw [loadFile]
  split_ifs
  · by_cases hmagic : file.take 4 ∈ extendedMagics
    · have hmap : colMmapImpl p home' file = .error .nyi := by
        rw [colMmapImpl, validate_marked hmagic]
        rfl
      rw [hmap]
      exact (colLoadImpl_symless h).trans hload
    · have hne : file ≠ [] := by
        rintro rfl
        cases hload
      rw [Store.colLoadImpl_raw hne hmagic] at hload
      obtain ⟨m, hm, hattach⟩ := Store.bind_eq_ok' hload
      have hwhole : ¬ (m.hasIndex = false ∧ m.tail ≠ file.length) := by
        rintro ⟨hindex, hshort⟩
        rcases htail m hm with hhas | hfull
        · rw [hindex] at hhas
          cases hhas
        · exact hshort hfull
      have hmap : colMmapImpl p home' file = .ok o := by
        rw [colMmapImpl, hm]
        show (if m.hasIndex = false ∧ m.tail ≠ file.length then _ else _) = _
        rw [if_neg hwhole, ← hattach]
        exact colAttach_symless (h m · hm)
      rw [hmap]
  · exact (colLoadImpl_symless h).trans hload

lemma tail_header {aux rest region : Bytes} {tag attrs : UInt8} {rc len : ℕ} {body : Store.Body}
    (haux : aux.length = 16)
    (hmagic : aux.take 4 ∉ extendedMagics)
    (htag : tag = Store.raySymTag ∨ tag = Store.rayStrTag ∨ Store.fixTy? tag ≠ none) (hlen : len < 2 ^ 59)
    (hsize : len * Store.elemSize tag attrs < 2 ^ 63)
    (hread : Store.readBody tag attrs len rest = .ok (body, region))
    (hm : colValidateMapped (Store.headerBytes aux tag attrs rc len ++ rest) = .ok m) :
    m.tail = (Store.headerBytes aux tag attrs rc len ++ rest).length - region.length ∧
      m.hasIndex = Store.hasIndexRegion (Store.headerBytes aux tag attrs rc len ++ rest) m.tail := by
  rw [Store.colValidateMapped_header haux hmagic htag hlen hsize, hread] at hm
  cases hm
  exact ⟨rfl, rfl⟩

lemma saved_tail (hx : x.addr.length = 8) (hwhole : IndexWhole x) (hsym : symParts o = none) (hh : o.Held names)
    (hs : rayColSave names x o = .ok bs)
    (hm : colValidateMapped bs = .ok m) : m.hasIndex = true ∨ m.tail = bs.length := by
  have hstrs : ∀ {attrs : UInt8} {descs : List Desc} {pool : Bytes}, descs.length < 2 ^ 59 → pool.length < 2 ^ 59 →
      colValidateMapped (Store.saveStrs x attrs descs pool) = .ok m →
        m.tail = (Store.saveStrs x attrs descs pool).length := by
    intro attrs descs pool hlen hpool hm
    have hsize : Store.elemSize Store.rayStrTag attrs = 16 := rfl
    rw [Store.saveStrs, append_assoc, append_assoc] at hm ⊢
    have hread : Store.readBody Store.rayStrTag attrs descs.length _ = _ := Store.readBody_strs descs hpool
    split_ifs at hread with hok
    · exact (tail_header (Store.headerAux_length hx _ _) (Store.headerAux_magic x _ _) (.inr (.inl rfl)) hlen
        (by rw [hsize]; omega) hread hm).1
    · rw [Store.colValidateMapped_header (Store.headerAux_length hx _ _) (Store.headerAux_magic x _ _)
        (.inr (.inl rfl)) hlen (by rw [hsize]; omega), hread] at hm
      cases hm
  cases o with
  | nullPtr | error | atom | dict | other => cases hs
  | symVec | symSlice => cases hsym
  | vec t w =>
    cases hs
    have hfits : w.cells.length * t.size < 2 ^ 59 := hh
    have hlen : w.cells.length < 2 ^ 59 := (Nat.le_mul_of_pos_right _ (Store.size_pos t)).trans_lt hfits
    have htag : Store.fixTy? t.vecTag ≠ none := by
      rw [Store.fixTy?_vecTag]
      rintro ⟨⟩
    have hsize : Store.elemSize t.vecTag (Store.savedAttrs w.attrs) = t.size := by
      rw [Store.elemSize, if_neg (Store.vecTag_ne t).1, if_neg (Store.vecTag_ne t).2, Store.fixTy?_vecTag]
      rfl
    rw [Store.saveRaw, append_assoc] at hm ⊢
    obtain ⟨htail, hindex⟩ := tail_header (Store.headerAux_length hx _ _) (Store.headerAux_magic x _ _)
      (.inr (.inr htag)) hlen (by rw [hsize]; omega) (Store.readBody_fixed w.cells) hm
    have htotal : 32 + (w.cells.flatMap Cell.bytes).length = m.tail := by
      rw [htail, length_append, length_append, Store.headerBytes_length (Store.headerAux_length hx _ _)]
      omega
    cases hidx : x.index with
    | none =>
      right
      rw [htail, indexRegion, hidx, length_nil, Nat.sub_zero]
    | some region =>
      left
      have hregion := hwhole region hidx
      have hmark : (Store.headerAux x (Store.savedAttrs w.attrs) t.vecTag).take 4 = Store.colIdxAuxMagic := by
        rw [Store.headerAux, hidx]
        rfl
      rw [hindex, Store.hasIndexRegion, Store.headerBytes_take (Store.headerAux_length hx _ _), hmark,
        beq_self_eq_true, Bool.true_and, decide_eq_true_eq, ← htotal]
      simp only [length_append, Store.headerBytes_length (Store.headerAux_length hx _ _), indexRegion, hidx,
        Store.padTo32, length_replicate]
      omega
  | strVec w =>
    cases hs
    exact .inr (hstrs hh.1 hh.2.1 hm)
  | strSlice w offset len inside =>
    rw [rayColSave] at hs
    split_ifs at hs
    cases hs
    refine .inr (hstrs ?_ (by norm_num) hm)
    rw [length_take]
    exact (min_le_left _ _).trans_lt hh.1
  | list es =>
    rw [rayColSave] at hs
    split_ifs at hs
    · cases hs
      rw [Store.colSaveStrList, append_assoc, validate_marked (by simp [Store.strListMagic, extendedMagics])] at hm
      cases hm
    · obtain ⟨cs, -, rfl⟩ := Store.map_eq_ok hs
      rw [validate_marked (by simp [Store.listMagic, extendedMagics])] at hm
      cases hm
  | table ids cols =>
    obtain ⟨cs, -, rfl⟩ := Store.map_eq_ok hs
    rw [validate_marked (by simp [Store.tableMagic, extendedMagics])] at hm
    cases hm

def Means (base names : List Bytes) (dom : Option (List Bytes)) (file : Bytes) (o : Obj) : Prop :=
  ∀ (p : Proc) (useMmap : Bool), Table base p.names →
    ∃ o', loadFile p (.symfile dom) useMmap file = .ok o' ∧ o'.view p.names = o.view names

lemma means_iff_kept {dom : Option (List Bytes)} (ht : Table base names) (hx : x.addr.length = 8)
    (hwhole : IndexWhole x) (hsym : symParts o = none)
    (hh : o.Held names) (hs : rayColSave names x o = .ok bs) :
      Means base names dom bs o ↔ Kept base names x o := by
  have hsymless := symless_rayColSave hx hsym hs prefix_rfl
  have htail : ∀ m, colValidateMapped bs = .ok m → m.hasIndex = true ∨ m.tail = bs.length :=
    fun m hm => saved_tail hx hwhole hsym hh hs hm
  rw [Store.kept_iff hs]
  constructor
  · intro h p hp _
    obtain ⟨o', ho', hview⟩ := h p false hp
    exact ⟨o', (colLoadImpl_symless hsymless).trans ho', hview⟩
  · intro h p useMmap hp
    have hown : ∃ o', colLoadImpl p .process bs = .ok o' ∧ o'.view p.names = o.view names := by
      -- a vector is read without the symbol table, and a nested value is kept in every process
      have hvec : ∀ r : Except Store.Err Obj, (∀ p : Proc, colLoadImpl p .process bs = r) →
        (∀ o', r = .ok o' → ∀ ns ns', o'.view ns = o'.view ns') →
          ∃ o', colLoadImpl p .process bs = .ok o' ∧ o'.view p.names = o.view names := by
        intro r hr hview
        obtain ⟨o', ho', hsame⟩ := h ⟨names, p.deStrVec⟩ ht (.inr rfl)
        rw [hr] at ho'
        exact ⟨o', (hr p).trans ho', (hview o' ho' _ _).trans hsame⟩
      have hstrs : ∀ {attrs : UInt8} {descs : List Desc} {pool : Bytes}, descs.length < 2 ^ 59 →
        pool.length < 2 ^ 59 →
          bs = Store.saveStrs x attrs descs pool → ∃ o', colLoadImpl p .process bs = .ok o' ∧
            o'.view p.names = o.view names := by
        rintro attrs descs pool hlen hpool rfl
        refine hvec _ (fun p => Store.load_strs hx hlen hpool) fun o' ho' ns ns' => ?_
        split_ifs at ho'
        cases ho'
        rfl
      cases o with
      | nullPtr | error | atom | dict | other => cases hs
      | symVec | symSlice => cases hsym
      | vec t w =>
        cases hs
        refine hvec _ (fun p => Store.load_vec hx hh) fun o' ho' ns ns' => ?_
        cases ho'
        rfl
      | strVec w =>
        cases hs
        exact hstrs hh.1 hh.2.1 rfl
      | strSlice w offset len inside =>
        rw [rayColSave] at hs
        split_ifs at hs
        cases hs
        refine hstrs ?_ (by norm_num) rfl
        rw [length_take]
        exact (min_le_left _ _).trans_lt hh.1
      | list | table => exact h p hp (.inl rfl)
    obtain ⟨o', ho', hview⟩ := hown
    exact ⟨o', loadFile_symless hsymless htail ho', hview⟩

lemma cellPos_str (hh : Holds d V k) {own : Bool} (hown : own = true → v.dom <+: V) {i pos : ℕ}
    (hp : cellPos d own v offset i = .ok pos) :
    (v.block[v.dataIndex offset i]?).bind (v.dom[·]?) = V[pos]? ∨ own = true ∧ v.block[v.dataIndex offset i]? =
      some pos ∧ v.dom.length ≤ pos := by
  rw [cellPos] at hp
  split_ifs at hp with howner
  · cases hb : v.block[v.dataIndex offset i]? with
    | none =>
      rw [hb] at hp
      cases hp
    | some q =>
      rw [hb] at hp
      dsimp only at hp
      split_ifs at hp
      cases hp
      by_cases hin : pos < v.dom.length
      · left
        rw [bind_some]
        exact Domain.getElem?_of_isPrefix (hown howner) hin
      · exact .inr ⟨howner, rfl, not_lt.mp hin⟩
  · left
    rw [cellStr, SymVec.raySymVecCell] at hp
    cases hb : v.block[v.dataIndex offset i]? with
    | none =>
      rw [hb] at hp
      cases hp
    | some q =>
      rw [hb] at hp
      dsimp only at hp
      cases hd : v.dom[q]? with
      | none =>
        rw [hd] at hp
        cases hp
      | some s =>
        rw [hd] at hp
        obtain ⟨r, d', hfind, -, hsome, -⟩ := Domain.raySymDomainFind_spec hh s
        rw [Except.bind, hfind] at hp
        cases r with
        | none => cases hp
        | some pos' =>
          cases hp
          rw [bind_some, hd, hsome _ rfl]

lemma symParts_inside (h : symParts o = some (v, offset, len)) :
    offset + len ≤ v.block.length ∧ ∀ ns, o.view ns = .syms (v.cells offset len) := by
  cases o <;> cases h
  · exact ⟨by rw [Nat.zero_add]; exact v.inside, fun _ => rfl⟩
  · rename_i inside
    exact ⟨inside.trans v.inside, fun _ => rfl⟩

lemma encoded_loads (hh : Holds d V k) (hpre : V <+: U) (hlen : len < 2 ^ 59)
    (h : rayColSaveSymEncoded d c v offset len = .ok bs) :
    ∃ ids, (List.range len).mapM (cellPos d c.own v offset) = .ok ids ∧ (∀ i ∈ ids, i < V.length) ∧ ∀ p useMmap,
      ∃ o', loadFile p (.symfile (some U)) useMmap bs = .ok o' ∧ ∀ ns, o'.view ns = .syms (ids.map (U[·]?)) := by
  obtain ⟨ids, m, hids, -, hpos, hm, hbody, hrc, htail⟩ := encoded_validates hh hlen h
  refine ⟨ids, hids, hpos, fun p useMmap => ?_⟩
  have hle := hpre.length_le
  have hattach : ∀ scan, colAttach p (.symfile (some U)) scan m =
      .ok (Store.symVecOf (m.attrs &&& Store.colDiskAttrsMask) U false ids) := by
    intro scan
    have hbounds : Store.symBoundsOk ids U.length = true := by
      rw [Store.symBoundsOk, Bool.or_eq_true, List.all_eq_true]
      right
      intro i hi
      have hi' := hpos i hi
      have hlimit := hh.limit
      rw [Bool.and_eq_true, decide_eq_true_eq, decide_eq_true_eq]
      omega
    rw [colAttach, hbody]
    dsimp only
    rw [if_neg (by omega), if_neg (by rw [hbounds]; simp)]
  have hview : ∀ ns, (Store.symVecOf (m.attrs &&& Store.colDiskAttrsMask) U false ids).view ns =
      .syms (ids.map (U[·]?)) := by
    intro ns
    rw [Store.symVecOf, Obj.view, SymVec.cells, drop_zero, take_length]
  refine ⟨_, ?_, hview⟩
  rw [loadFile]
  split_ifs
  · have hmap : colMmapImpl p (.symfile (some U)) bs =
        .ok (Store.symVecOf (m.attrs &&& Store.colDiskAttrsMask) U false ids) := by
      rw [colMmapImpl, hm]
      show (if m.hasIndex = false ∧ m.tail ≠ bs.length then _ else _) = _
      rw [if_neg fun hshort => hshort.2 htail, hattach]
    rw [hmap]
  · rw [Store.colLoadImpl_mapped hm, hattach]

lemma encoded_cells (hh : Holds d V k) (hpre : V <+: U) (hown : c.own = true → v.dom <+: V)
    (hin : offset + len ≤ v.block.length)
    (hpos : ∀ pos ∈ (v.block.drop offset).take len, pos < v.dom.length) {ids : List ℕ}
    (hids : (List.range len).mapM (cellPos d c.own v offset) = .ok ids) (hlt : ∀ i ∈ ids, i < V.length) :
    (v.ReadsRight offset len → ids.map (U[·]?) = v.cells offset len) ∧
      ((c.own = true → ∀ i < len, ∀ pos, v.block[v.dataIndex offset i]? = some pos → pos < v.dom.length) →
        ids.map (U[·]?) = v.cells offset len → v.ReadsRight offset len) := by
  have hall := Store.mapM_eq_ok hids
  have hcount : ids.length = len := by
    have := hall.length_eq
    rw [length_range] at this
    exact this.symm
  have hat : ∀ i (hi : i < len), ∃ pos, ids[i]? = some pos ∧ cellPos d c.own v offset i = .ok pos ∧
      U[pos]? = V[pos]? := by
    intro i hi
    have hget : ids[i]? = some ids[i] := getElem?_eq_getElem (by omega)
    refine ⟨ids[i], hget, ?_, (Domain.getElem?_of_isPrefix hpre (hlt _ (getElem_mem _))).symm⟩
    have hrel := hall.get (i := i) (by rw [length_range]; exact hi) (by omega)
    simpa using hrel
  have hcell : ∀ i < len, ∃ s, (v.block[offset + i]?).bind (v.dom[·]?) = some s := by
    intro i hi
    have hb : v.block[offset + i]? = some v.block[offset + i] := getElem?_eq_getElem (by omega)
    have hmem : v.block[offset + i] ∈ (v.block.drop offset).take len := by
      refine mem_of_getElem? (i := i) ?_
      rw [getElem?_take_of_lt hi, getElem?_drop, hb]
    exact ⟨_, by rw [hb, bind_some, getElem?_eq_getElem (hpos _ hmem)]⟩
  have hpoint : ids.map (U[·]?) = v.cells offset len ↔ ∀ i < len, ∀ pos, ids[i]? = some pos →
      U[pos]? = (v.block[offset + i]?).bind (v.dom[·]?) := by
    rw [v.cells_eq hin]
    constructor
    · intro heq i hi pos hp
      have hi' := congrArg (·[i]?) heq
      simp only [getElem?_map, getElem?_range hi, hp, map_some, some.injEq] at hi'
      exact hi'
    · intro hpt
      apply ext_getElem?
      intro i
      by_cases hi : i < len
      · obtain ⟨pos, hp, -⟩ := hat i hi
        rw [getElem?_map, getElem?_map, getElem?_range hi, hp, map_some, map_some, hpt i hi pos hp]
      · rw [getElem?_eq_none (by simp; omega), getElem?_eq_none (by simp; omega)]
  rw [hpoint]
  constructor
  · intro hr i hi pos hp
    obtain ⟨pos', hp', hcp, hU⟩ := hat i hi
    obtain rfl := some.inj (hp.symm.trans hp')
    obtain ⟨s, hs⟩ := hcell i hi
    rw [hU, ← hr i hi]
    rcases cellPos_str hh hown hcp with heq | ⟨-, hb, hge⟩
    · exact heq.symm
    · have hread := hr i hi
      rw [hb, bind_some, hs, getElem?_eq_none hge] at hread
      cases hread
  · intro htame heq i hi
    obtain ⟨pos, hp, hcp, hU⟩ := hat i hi
    rw [← heq i hi pos hp, hU]
    rcases cellPos_str hh hown hcp with hread | ⟨howner, hb, hge⟩
    · exact hread
    · exact absurd (htame howner i hi pos hb) (not_lt.mpr hge)

end Rayforce.Splay
