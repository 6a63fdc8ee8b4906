import Rayforce.Store.RoundTrip

namespace Rayforce.Store

open Library.Words Library.Readers List
open Rayforce.Serde (FixTy Cell Vec raySymWMask)

variable {x : Extra} {descs : List Desc} {pool : Bytes} {v : SymVec} {o' : Obj}

section

variable {names : List Bytes}

lemma local_byte : Local byte := by
  intro p b rest q h
  cases p with
  | nil => cases h
  | cons b' p =>
    cases h
    rfl

lemma local_word (k : ℕ) : Local (word k) := (Local.take _ _).bind fun _ => Local.pure

lemma local_count : Local count := (Local.take _ _).bind fun _ => (Local.fail _).ite Local.pure

lemma local_roomFor (n : ℕ) : Local (roomFor n) := by
  intro p u rest q h
  rw [roomFor] at h ⊢
  split_ifs at h with hn
  cases h
  rw [if_pos]
  rw [length_append]
  omega

lemma local_countedStr : Local countedStr := (local_word 4).bind fun _ => Local.take _ _

lemma local_cell (t : FixTy) : Local (cell t) := by
  intro p c rest q h
  rw [cell] at h ⊢
  split_ifs at h with hn
  cases h
  have hle : t.size ≤ (p ++ q).length := by
    rw [length_append]
    omega
  rw [dif_pos hle]
  simp only [take_append_of_le_length hn, drop_append_of_le_length hn]

lemma local_desc : Local desc := by
  intro p c rest q h
  rw [desc] at h ⊢
  split_ifs at h with hn
  cases h
  have hle : 16 ≤ (p ++ q).length := by
    rw [length_append]
    omega
  rw [dif_pos hle]
  simp only [take_append_of_le_length hn, drop_append_of_le_length hn]

lemma local_readTagged {child : Rd Obj} (h : Local child) (tag : UInt8) : Local (readTagged names child tag) := by
  refine Local.ite ?_ (.ite ?_ (.ite ?_ (.ite ?_ (.ite ?_ (.ite ?_ ?_)))))
  · refine Local.ite ?_ (.ite ?_ ?_)
    · exact local_countedStr.bind fun _ => Local.pure
    · exact local_countedStr.bind fun _ => Local.pure
    · exact (Local.take _ _).bind fun _ => Local.pure
  · exact local_count.bind fun n => (local_roomFor n).bind fun _ =>
      (local_countedStr.many n).bind fun _ => Local.pure
  · refine local_count.bind fun n => local_byte.bind fun attrs => (local_desc.many n).bind fun descs =>
      (local_word 8).bind fun size => ?_
    exact (Local.fail _).ite ((Local.take _ _).bind fun _ => Local.pure)
  · exact local_count.bind fun n => (h.many n).bind fun _ => Local.pure
  · refine (Local.take _ _).bind fun ncols => (Local.take _ _).bind fun _ => (Local.fail _).ite ?_
    exact (((local_word 8).bind fun _ => h.bind fun _ => Local.pure).many _).bind fun _ => Local.pure
  · exact h.bind fun _ => h.bind fun _ => Local.pure
  · cases fixTy? tag with
    | none => exact Local.fail _
    | some t => exact local_count.bind fun n => ((local_cell t).many n).bind fun _ => Local.pure

lemma local_colReadRecursive (fuel : ℕ) : Local (colReadRecursive names fuel) := by
  induction fuel with
  | zero => exact Local.fail _
  | succ fuel ih => exact local_byte.bind fun tag => local_readTagged ih tag

lemma local_colLoadStrList : Local colLoadStrList :=
  local_count.bind fun n => (local_roomFor n).bind fun _ => (local_countedStr.many n).bind fun _ => Local.pure

lemma local_readBody (tag attrs : UInt8) (len : ℕ) : Local (readBody tag attrs len) := by
  refine Local.ite ?_ (.ite ?_ ?_)
  · exact ((local_word _).many len).bind fun _ => Local.pure
  · refine (local_desc.many len).bind fun descs => (Local.take _ _).bind fun hdr =>
      (Local.fail _).ite ((Local.take _ _).bind fun pool => ?_)
    exact Local.pure.ite (Local.fail _)
  · cases fixTy? tag with
    | none => exact Local.fail _
    | some t => exact ((local_cell t).many len).bind fun _ => Local.pure

end

section

variable {p : Proc} {home : SymHome} {scan : Bool} {m : Mapped} {o : Obj} {file : Bytes}

def Loads (p : Proc) (home : SymHome) (file : Bytes) (o : Obj) : Prop :=
  colLoadImpl p home file = .ok o ∨ colMmapImpl p home file = .ok o

lemma validate_magic (h : colValidateMapped file = .ok m) : file.take 4 ∉ extendedMagics := by
  intro hmem
  have hne : file ≠ [] := by
    rintro rfl
    cases h
  have hlen : 4 ≤ file.length := by
    have := extendedMagics_length hmem
    rw [length_take] at this
    omega
  rw [colValidateMapped, if_neg hne, if_pos ⟨hlen, hmem⟩] at h
  cases h

lemma validate_long (h : colValidateMapped file = .ok m) : 32 ≤ file.length := by
  by_contra hshort
  have hlt : file.length < 32 := not_le.mp hshort
  rw [colValidateMapped] at h
  by_cases hnil : file = []
  · rw [if_pos hnil] at h
    cases h
  · rw [if_neg hnil] at h
    by_cases hmem : 4 ≤ file.length ∧ file.take 4 ∈ extendedMagics
    · rw [if_pos hmem] at h
      cases h
    · rw [if_neg hmem, if_pos hlt] at h
      cases h

lemma Loads.mapped (h : Loads p home file o) (hmagic : file.take 4 ∉ extendedMagics) :
    ∃ m scan, colValidateMapped file = .ok m ∧ colAttach p home scan m = .ok o := by
  rcases h with h | h
  · have hne : file ≠ [] := by
      rintro rfl
      cases h
    rw [colLoadImpl_raw hne hmagic] at h
    obtain ⟨m, hm, ho⟩ := bind_eq_ok' h
    exact ⟨m, true, hm, ho⟩
  · obtain ⟨m, hm, ho⟩ := bind_eq_ok' h
    split_ifs at ho
    exact ⟨m, false, hm, ho⟩

lemma Loads.copied (h : Loads p home file o) (hmagic : file.take 4 ∈ extendedMagics) :
    colLoadImpl p home file = .ok o := by
  rcases h with h | h
  · exact h
  · obtain ⟨m, hm, -⟩ := bind_eq_ok' h
    exact absurd hmagic (validate_magic hm)

def Body.len : Body → ℕ
  | .fixed _ cells => cells.length
  | .syms ids => ids.length
  | .strs descs _ => descs.length

lemma readBody_len {tag attrs : UInt8} {len : ℕ} {bs rest : Bytes} {body : Body}
    (h : readBody tag attrs len bs = .ok (body, rest)) :
    body.len = len := by
  rw [readBody] at h
  split_ifs at h
  · obtain ⟨ids, q, hids, hpure⟩ := bind_eq_ok.mp h
    cases hpure
    exact many_length hids
  · obtain ⟨descs, q, hdescs, hpool⟩ := bind_eq_ok.mp h
    obtain ⟨hdr, q', -, hif⟩ := bind_eq_ok.mp hpool
    split_ifs at hif
    · cases hif
    · obtain ⟨pool, q'', -, hok⟩ := bind_eq_ok.mp hif
      split_ifs at hok
      · cases hok
        exact many_length hdescs
      · cases hok
  · cases ht : fixTy? tag with
    | none =>
      rw [ht] at h
      cases h
    | some t =>
      rw [ht] at h
      obtain ⟨cells, q, hcells, hpure⟩ := bind_eq_ok.mp h
      cases hpure
      exact many_length hcells

lemma colAttach_len (h : colAttach p home scan m = .ok o) : o.len = m.body.len := by
  rw [colAttach] at h
  cases hb : m.body with
  | fixed t cells =>
    rw [hb] at h
    cases h
    rfl
  | strs descs pool =>
    rw [hb] at h
    cases h
    rfl
  | syms ids =>
    rw [hb] at h
    cases home with
    | process =>
      dsimp only at h
      split_ifs at h
      cases h
      rfl
    | symfile dom =>
      cases dom with
      | none => cases h
      | some dom =>
        dsimp only at h
        split_ifs at h
        cases h
        rfl

end

section

variable {p : Proc} {home : SymHome} {m : Mapped} {o : Obj} {aux rest q : Bytes} {tag attrs : UInt8} {rc len : ℕ}

lemma validate_cut (haux : aux.length = 16) (hmagic : aux.take 4 ∉ extendedMagics)
    (htag : tag = raySymTag ∨ tag = rayStrTag ∨ fixTy? tag ≠ none) (hlen : len < 2 ^ 59)
    (hsize : len * elemSize tag attrs < 2 ^ 63)
    (hq : q <+: headerBytes aux tag attrs rc len ++ rest) (h : colValidateMapped q = .ok m) :
    ∃ rest' r, rest' <+: rest ∧ q = headerBytes aux tag attrs rc len ++ rest' ∧ readBody tag attrs len rest' =
      .ok (m.body, r) ∧
      m.attrs = attrs ∧ m.rc = rc % 2 ^ 32 := by
  have h32 := validate_long h
  obtain ⟨rest', rfl⟩ : ∃ rest', q = headerBytes aux tag attrs rc len ++ rest' := by
    obtain ⟨rest', h'⟩ := prefix_of_prefix_length_le (prefix_append _ _) hq
      (by rw [headerBytes_length haux]; exact h32)
    exact ⟨rest', h'.symm⟩
  have hrest : rest' <+: rest := (prefix_append_right_inj _).mp hq
  rw [colValidateMapped_header haux hmagic htag hlen hsize] at h
  obtain ⟨⟨body, r⟩, hbody, rfl⟩ := map_eq_ok h
  exact ⟨rest', r, hrest, rfl, hbody, rfl, rfl⟩

lemma take_four_of_prefix {bs : Bytes} (hq : q <+: bs) (h : q.take 4 ∈ extendedMagics) : bs.take 4 = q.take 4 := by
  obtain ⟨more, rfl⟩ := hq
  have hlen := extendedMagics_length h
  rw [length_take] at hlen
  rw [take_append_of_le_length (by omega)]

lemma loads_cut (haux : aux.length = 16) (hmagic : aux.take 4 ∉ extendedMagics)
    (htag : tag = raySymTag ∨ tag = rayStrTag ∨ fixTy? tag ≠ none) (hlen : len < 2 ^ 59)
    (hsize : len * elemSize tag attrs < 2 ^ 63)
    (hq : q <+: headerBytes aux tag attrs rc len ++ rest) (h : Loads p home q o) :
    ∃ m scan rest' r, colAttach p home scan m = .ok o ∧ rest' <+: rest ∧
      q = headerBytes aux tag attrs rc len ++ rest' ∧
      readBody tag attrs len rest' = .ok (m.body, r) ∧ m.attrs = attrs := by
  have hq4 : q.take 4 ∉ extendedMagics := by
    intro hmem
    rw [← take_four_of_prefix hq hmem, headerBytes_take haux] at hmem
    exact hmagic hmem
  obtain ⟨m, scan, hm, ho⟩ := h.mapped hq4
  obtain ⟨rest', r, hrest, rfl, hbody, hattrs, -⟩ := validate_cut haux hmagic htag hlen hsize hq hm
  exact ⟨m, scan, rest', r, ho, hrest, rfl, hbody, hattrs⟩

lemma loads_cut_len (haux : aux.length = 16) (hmagic : aux.take 4 ∉ extendedMagics)
    (htag : tag = raySymTag ∨ tag = rayStrTag ∨ fixTy? tag ≠ none) (hlen : len < 2 ^ 59)
    (hsize : len * elemSize tag attrs < 2 ^ 63)
    (hq : q <+: headerBytes aux tag attrs rc len ++ rest) (h : Loads p home q o) : o.len = len := by
  obtain ⟨m, scan, rest', r, ho, -, -, hbody, -⟩ := loads_cut haux hmagic htag hlen hsize hq h
  rw [colAttach_len ho, readBody_len hbody]

lemma loads_cut_strs (hx : x.addr.length = 8) (hlen : descs.length < 2 ^ 59) (hp : pool.length < 2 ^ 59)
    (hq : q <+: saveStrs x attrs descs pool) (h : Loads p home q o) :
    q = saveStrs x attrs descs pool ∧ o = .strVec ⟨attrs &&& colDiskAttrsMask, descs, pool⟩ := by
  have hsize : elemSize rayStrTag attrs = 16 := rfl
  have hsplit : saveStrs x attrs descs pool =
    headerBytes (headerAux x attrs rayStrTag) rayStrTag attrs 0 descs.length ++
      (descs.flatMap Desc.bytes ++ (poolHeader pool.length ++ pool)) := by
    rw [saveStrs, append_assoc, append_assoc]
  rw [hsplit] at hq
  obtain ⟨m, scan, rest', r, ho, ⟨more, hmore⟩, rfl, hbody, hattrs⟩ :=
    loads_cut (headerAux_length hx _ _) (headerAux_magic x _ _) (.inr (.inl rfl)) hlen (by rw [hsize]; omega) hq h
  have hfull := local_readBody rayStrTag attrs descs.length rest' _ r more hbody
  rw [hmore, readBody_strs descs hp] at hfull
  split_ifs at hfull
  obtain ⟨hm, hr⟩ := Prod.mk.inj (Except.ok.inj hfull)
  obtain rfl := (append_eq_nil_iff.mp hr.symm).2
  rw [append_nil] at hmore
  subst hmore
  rw [colAttach, ← hm, hattrs] at ho
  exact ⟨hsplit.symm, (Except.ok.inj ho).symm⟩

end

section

variable {p : Proc} {home : SymHome} {o : Obj} {q bs : Bytes} {names : List Bytes} {n fuel : ℕ}

lemma loads_marked {magic : Bytes} (hmagic : magic ∈ extendedMagics) (hq : q <+: magic ++ bs)
    (h : Loads p home q o) :
    ∃ q', q = magic ++ q' ∧ q' <+: bs ∧ colLoadImpl p home q = .ok o := by
  have hlen := extendedMagics_length hmagic
  have hmem : q.take 4 ∈ extendedMagics := by
    by_contra hnot
    obtain ⟨m, scan, hm, -⟩ := h.mapped hnot
    have hlong := validate_long hm
    obtain ⟨more, hmore⟩ := hq
    have hfour : (magic ++ bs).take 4 = magic := take_left' hlen
    rw [← hmore, take_append_of_le_length (by omega)] at hfour
    exact hnot (hfour ▸ hmagic)
  have hfour := take_four_of_prefix hq hmem
  rw [take_left' hlen] at hfour
  have hsplit : q = magic ++ q.drop 4 := by
    rw [hfour, take_append_drop]
  rw [hsplit] at hq
  exact ⟨q.drop 4, hsplit, (prefix_append_right_inj _).mp hq, h.copied hmem⟩

lemma read_list_len (hn : n < 2 ^ 59) {rest : Bytes}
    (h : colReadRecursive names fuel (rayListTag :: (leBytes 8 n ++ bs)) = .ok (o, rest)) : o.len = n := by
  cases fuel with
  | zero => cases h
  | succ fuel =>
    have hlist : Yields (colReadRecursive names (fuel + 1)) (rayListTag :: (leBytes 8 n ++ [])) fun o =>
        o.len = n := by
      refine yields_level rfl ((reads_count hn).bind_yields fun rest' o' r heq => ?_)
      obtain ⟨es, q, hes, hpure⟩ := bind_eq_ok.mp heq
      cases hpure
      exact many_length hes
    refine hlist bs o rest ?_
    rw [append_nil]
    exact h

lemma read_table_len {rest : Bytes} (h : colReadRecursive names fuel (rayTableTag :: bs) = .ok (o, rest)) :
    o.len = 2 := by
  cases fuel with
  | zero => cases h
  | succ fuel =>
    have htable : Yields (colReadRecursive names (fuel + 1)) [rayTableTag] fun o => o.len = 2 := by
      refine yields_level rfl fun rest' o' r heq => ?_
      obtain ⟨ncols, q, -, heq⟩ := bind_eq_ok.mp heq
      obtain ⟨nrows, q', -, heq⟩ := bind_eq_ok.mp heq
      split_ifs at heq
      · cases heq
      · obtain ⟨cols, q'', -, hpure⟩ := bind_eq_ok.mp heq
        cases hpure
        rfl
    exact htable bs o rest h

lemma loadStrList_len (hn : n < 2 ^ 59) {rest : Bytes} (h : colLoadStrList (leBytes 8 n ++ bs) = .ok (o, rest)) :
    o.len = n := by
  have hlist : Yields colLoadStrList (leBytes 8 n ++ []) fun o => o.len = n := by
    refine (reads_count hn).bind_yields (yields_room fun rest' o' r heq => ?_)
    obtain ⟨ss, q, hss, hpure⟩ := bind_eq_ok.mp heq
    cases hpure
    rw [Obj.len, length_map, many_length hss]
  refine hlist bs o rest ?_
  rw [append_nil]
  exact h

def Obj.Fits : Obj → Prop
  | .vec t v => v.cells.length * t.size < 2 ^ 59
  | .symVec v => v.len < 2 ^ 59
  | .symSlice _ _ len _ => len < 2 ^ 59
  | .strVec v => v.descs.length < 2 ^ 59
  | .strSlice _ _ len _ => len < 2 ^ 59
  | .list es => es.length < 2 ^ 59
  | _ => True

lemma symSize_le (attrs : UInt8) : elemSize raySymTag attrs ≤ 8 := by
  have hwidth : (attrs &&& raySymWMask).toNat ≤ 3 := by
    rw [UInt8.toNat_and]
    exact Nat.and_le_right
  rw [elemSize, if_pos rfl]
  exact Nat.pow_le_pow_right (by norm_num) hwidth

lemma saveSyms_raw {attrs : UInt8} {offset len : ℕ} (h : saveSyms names x attrs v offset len = .ok bs) :
    ∃ attrs rc data, bs = saveRaw x raySymTag attrs rc len data := by
  rw [saveSyms] at h
  split_ifs at h
  · cases h
    exact ⟨_, _, _, rfl⟩
  · obtain ⟨ids, -, rfl⟩ := map_eq_ok h
    exact ⟨_, _, _, rfl⟩

lemma loads_syms_len (hx : x.addr.length = 8) {attrs : UInt8} {offset len : ℕ} (hlen : len < 2 ^ 59)
    (hs : saveSyms names x attrs v offset len = .ok bs) (hq : q <+: bs) (h : Loads p home q o') :
      o'.len = len := by
  obtain ⟨attrs, rc, data, rfl⟩ := saveSyms_raw hs
  have hsize := Nat.mul_le_mul_left len (symSize_le attrs)
  rw [saveRaw, append_assoc] at hq
  exact loads_cut_len (headerAux_length hx _ _) (headerAux_magic x _ _) (.inl rfl) hlen (by omega) hq h

lemma loads_strs_len (hx : x.addr.length = 8) {attrs : UInt8} (hlen : descs.length < 2 ^ 59)
    (hq : q <+: saveStrs x attrs descs pool) (h : Loads p home q o') : o'.len = descs.length := by
  have hsize : elemSize rayStrTag attrs = 16 := rfl
  rw [saveStrs, append_assoc, append_assoc] at hq
  exact loads_cut_len (headerAux_length hx _ _) (headerAux_magic x _ _) (.inr (.inl rfl)) hlen
    (by rw [hsize]; omega) hq h

theorem loads_len {x : Extra} (hx : x.addr.length = 8) {o' : Obj} (hfits : o.Fits)
    (hs : rayColSave names x o = .ok bs) (hq : q <+: bs) (h : Loads p home q o') : o'.len = o.len := by
  cases o with
  | nullPtr | error | atom | dict | other => cases hs
  | vec t v =>
    cases hs
    have htag : fixTy? t.vecTag ≠ none := by
      rw [fixTy?_vecTag]
      nofun
    have hsize : elemSize t.vecTag (savedAttrs v.attrs) = t.size := by
      rw [elemSize, if_neg (vecTag_ne t).1, if_neg (vecTag_ne t).2, fixTy?_vecTag]
      rfl
    have hlen : v.cells.length < 2 ^ 59 := (Nat.le_mul_of_pos_right _ (size_pos t)).trans_lt hfits
    rw [Obj.Fits] at hfits
    rw [saveRaw, append_assoc] at hq
    have hres : o'.len = v.cells.length :=
      loads_cut_len (headerAux_length hx _ _) (headerAux_magic x _ _) (.inr (.inr htag)) hlen
        (by rw [hsize]; omega) hq h
    exact hres
  | symVec v => exact loads_syms_len hx hfits hs hq h
  | symSlice v offset len inside => exact loads_syms_len hx hfits hs hq h
  | strVec v =>
    cases hs
    exact loads_strs_len hx hfits hq h
  | strSlice v offset len inside =>
    rw [rayColSave] at hs
    split_ifs at hs with hzero
    cases hs
    have hlen : (v.descs.take len).length = len := by
      rw [length_take]
      omega
    rw [loads_strs_len hx (by rw [length_take]; exact (min_le_left _ _).trans_lt hfits) hq h, hlen]
    rfl
  | list es =>
    rw [rayColSave] at hs
    split_ifs at hs
    · cases hs
      rw [colSaveStrList, append_assoc] at hq
      obtain ⟨q', rfl, hq', hload⟩ := loads_marked (by simp [extendedMagics]) hq h
      rw [colLoadImpl_strList] at hload
      obtain ⟨r, hread, rfl⟩ := map_eq_ok hload
      obtain ⟨more, hmore⟩ := hq'
      have hfull := local_colLoadStrList q' r.1 r.2 more hread
      rw [hmore] at hfull
      exact loadStrList_len hfits hfull
    · obtain ⟨cs, hcs, rfl⟩ := map_eq_ok hs
      obtain ⟨q', rfl, hq', hload⟩ := loads_marked (by simp [extendedMagics]) hq h
      rw [colLoadImpl_nested (.inl rfl)] at hload
      obtain ⟨r, hread, rfl⟩ := map_eq_ok hload
      obtain ⟨more, hmore⟩ := hq'
      have hfull := local_colReadRecursive _ q' r.1 r.2 more hread
      obtain ⟨ds, -, rfl⟩ := map_eq_ok hcs
      rw [hmore] at hfull
      exact read_list_len hfits hfull
  | table ids cols =>
    obtain ⟨cs, hcs, rfl⟩ := map_eq_ok hs
    obtain ⟨q', rfl, hq', hload⟩ := loads_marked (by simp [extendedMagics]) hq h
    rw [colLoadImpl_nested (.inr rfl)] at hload
    obtain ⟨r, hread, rfl⟩ := map_eq_ok hload
    obtain ⟨more, hmore⟩ := hq'
    have hfull := local_colReadRecursive _ q' r.1 r.2 more hread
    obtain ⟨ds, -, rfl⟩ := map_eq_ok hcs
    rw [hmore] at hfull
    exact read_table_len hfull

end

end Rayforce.Store
