import Rayforce.Store.Reload

namespace Rayforce.Store

open Library.Words Library.Readers List Option
open Rayforce.Serde (FixTy Cell Vec rayVecIsNull raySymWMask rayAttrSorted rayAttrHasNulls)

variable {base names : List Bytes}
variable {offset len : ℕ} {v : SymVec} {bs : Bytes} {tag : UInt8} {a : Atom} {fuel : ℕ}

structure Table (base names : List Bytes) : Prop where
  starts : base <+: names
  fits : names.length < 2 ^ 32

def SymVec.ReadsRight (v : SymVec) (offset len : ℕ) : Prop :=
  ∀ i < len, (v.block[v.dataIndex offset i]?).bind (v.dom[·]?) = (v.block[offset + i]?).bind (v.dom[·]?)

def Atom.Portable : Atom → Prop
  | .fixed tag _ nullBit => nullBit = true → 246 ≤ tag.toNat ∧ tag.toNat ≤ 253
  | .guid _ _ => False
  | .sym _ quoted => quoted = false
  | .str _ => True

mutual

def Obj.Portable (base : List Bytes) : Obj → Prop
  | .atom a => a.Portable
  | .vec _ v => ∀ c ∈ v.cells, rayVecIsNull v c = false
  | .symSlice v offset len _ => v.ReadsRight offset len
  | .strSlice v offset len _ => offset = 0 ∧ ∀ d ∈ v.descs.take len, d.len ≤ rayStrInlineMax
  | .list es => Obj.PortableAll base es
  | .table ids cols => (∀ i ∈ ids, i < base.length) ∧ Obj.PortableAll base cols
  | .dict k v => k.Portable base ∧ v.Portable base
  | .nullPtr | .error | .symVec _ | .strVec _ | .other _ => True

def Obj.PortableAll (base : List Bytes) : List Obj → Prop
  | [] => True
  | o :: os => o.Portable base ∧ Obj.PortableAll base os

end

lemma exists_of_forall₂ {α β : Type} {r : α → β → Prop} {l : List α} {l' : List β} (h : List.Forall₂ r l l')
    {a : α} (ha : a ∈ l) : ∃ b, r a b := by
  induction h with
  | nil => cases ha
  | cons hr _ ih =>
    rcases mem_cons.mp ha with rfl | ha
    · exact ⟨_, hr⟩
    · exact ih ha

lemma SymVec.cells_eq (v : SymVec) (h : offset + len ≤ v.block.length) :
    v.cells offset len = (List.range len).map fun i => (v.block[offset + i]?).bind (v.dom[·]?) := by
  apply ext_getElem?
  intro i
  by_cases hi : i < len
  · have hb : v.block[offset + i]? = some (v.block[offset + i]) := getElem?_eq_getElem (by omega)
    rw [SymVec.cells, getElem?_map, getElem?_take_of_lt hi, getElem?_drop, getElem?_map, getElem?_range hi, hb,
      map_some, map_some, hb, bind_some]
  · rw [SymVec.cells, getElem?_eq_none (by simp; omega), getElem?_eq_none (by simp; omega)]

lemma raySymVecCell_eq_ok {offset i : ℕ} {s : Bytes} :
    v.raySymVecCell offset i = .ok s ↔ (v.block[v.dataIndex offset i]?).bind (v.dom[·]?) = some s := by
  rw [SymVec.raySymVecCell]
  cases v.block[v.dataIndex offset i]? with
  | none => simp
  | some pos => cases hd : v.dom[pos]? <;> simp [hd]

lemma written_map_some (h : writeSyms v offset len = .ok bs) :
    (v.written offset len).map some = (List.range len).map fun i =>
    (v.block[v.dataIndex offset i]?).bind (v.dom[·]?) := by
  rw [writeSyms] at h
  obtain ⟨ss, hss, -⟩ := map_eq_ok h
  rw [SymVec.written, List.map_map]
  refine map_congr_left fun i hi => ?_
  obtain ⟨s, hs⟩ := exists_of_forall₂ (mapM_eq_ok hss) hi
  rw [raySymVecCell_eq_ok.mp hs, Function.comp_apply, hs]

lemma written_map_some_iff (hw : writeSyms v offset len = .ok bs)
    (h : offset + len ≤ v.block.length) : (v.written offset len).map some = v.cells offset len ↔
      v.ReadsRight offset len := by
  rw [written_map_some hw, v.cells_eq h, map_inj_left]
  simp only [mem_range, SymVec.ReadsRight]

lemma readsRight_zero (v : SymVec) (len : ℕ) : v.ReadsRight 0 len := by
  intro i _
  rw [SymVec.dataIndex, Nat.zero_mul]

lemma view_internSyms (names names' ss : List Bytes) :
    (Obj.symVec (internSyms names ss)).view names' = .syms (ss.map some) := by
  rw [Obj.view, internSyms, SymVec.cells, drop_zero, take_of_length_le (by rw [length_map]), List.map_map]
  congr 1
  refine map_congr_left fun s hs => ?_
  have hlt : (names ++ ss).idxOf s < (names ++ ss).length := idxOf_lt_length_of_mem (mem_append_right _ hs)
  rw [Function.comp_apply, getElem?_eq_getElem hlt, getElem_idxOf]

lemma isNull_slot (h : 246 ≤ tag.toNat ∧ tag.toNat ≤ 253) (slot : Bytes) (nullBit : Bool) :
    (Atom.fixed tag slot nullBit).isNull = (Atom.fixed tag slot false).isNull := by
  obtain ⟨hlo, hhi⟩ := h
  rw [Atom.isNull, Atom.isNull]
  interval_cases tag.toNat <;> rfl

lemma isNull_bit (h : ¬ (246 ≤ tag.toNat ∧ tag.toNat ≤ 253)) (slot : Bytes) (nullBit : Bool) :
    (Atom.fixed tag slot nullBit).isNull = nullBit := by
  rw [Atom.isNull]
  split <;> first | rfl | omega

lemma atom_view_iff (h : a.Held) (names names' : List Bytes) :
    ((Obj.atom a).reload names').view names' = (Obj.atom a).view names ↔ a.Portable := by
  cases a with
  | fixed tag slot nullBit =>
    obtain ⟨-, -, -, hguid, -⟩ := h
    simp only [Obj.reload, Obj.view, Atom.value, if_neg hguid, Value.atom.injEq, AtomValue.fixed.injEq, true_and,
      Atom.Portable]
    by_cases hslot : 246 ≤ tag.toNat ∧ tag.toNat ≤ 253
    · simp [isNull_slot hslot slot nullBit, hslot]
    · rw [isNull_bit hslot, isNull_bit hslot]
      cases nullBit <;> simp [hslot]
  | guid payload addr => simp [Obj.reload, Obj.view, Atom.value, Atom.Portable]
  | sym s quoted => simp [Obj.reload, Obj.view, Atom.value, Atom.Portable, eq_comm]
  | str s => simp [Obj.reload, Obj.view, Atom.Portable]

lemma vec_view_iff {t : FixTy} (v : Vec (Cell t)) {attrs : UInt8} (ha : attrs &&& rayAttrHasNulls = 0)
    (names names' : List Bytes) :
    (Obj.vec t (.owned attrs v.cells)).view names' = (Obj.vec t v).view names ↔ ∀ c ∈ v.cells,
      rayVecIsNull v c = false := by
  have howned : ∀ c, rayVecIsNull (Vec.owned attrs v.cells) c = false := fun c => by
    simp [rayVecIsNull, Vec.dataAttrs, ha]
  have hcells : (Vec.owned attrs v.cells).cells = v.cells := rfl
  rw [Obj.view, Obj.view, hcells, Value.vec.injEq, eq_self, true_and, heq_eq_eq, map_inj_left]
  simp only [howned, Prod.mk.injEq, true_and, eq_comm]

lemma str_nil_iff {pool : Bytes} {d : Desc} (h : d.Ok pool) :
    Desc.str [] d = Desc.str pool d ↔ d.len ≤ rayStrInlineMax := by
  rw [Desc.str, Desc.str]
  by_cases hin : d.len ≤ rayStrInlineMax
  · simp [hin]
  · have hpool : d.poolOff + d.len ≤ pool.length := (h.resolve_left hin).1
    have hpos : ¬ d.poolOff + d.len ≤ ([] : Bytes).length := by
      rw [length_nil]
      rw [rayStrInlineMax] at hin
      omega
    rw [if_neg hin, if_neg hin, if_pos hpool, if_neg hpos]
    simp [hin]

lemma strSlice_view_iff {v : StrVec} {len : ℕ} (h : ∀ d ∈ v.descs, d.Ok v.pool) :
    (v.descs.take len).map (Desc.str []) = (v.descs.take len).map (Desc.str v.pool) ↔ ∀ d ∈ v.descs.take len,
      d.len ≤ rayStrInlineMax := by
  rw [map_inj_left]
  exact forall₂_congr fun d hd => str_nil_iff (h d (mem_of_mem_take hd))

section

variable {names' : List Bytes}

lemma getElem?_of_starts (h : base <+: names) {i : ℕ} (hi : i < base.length) : names[i]? = base[i]? := by
  obtain ⟨more, rfl⟩ := h
  exact getElem?_append_left hi

mutual

theorem view_reload (h : base <+: names) (h' : base <+: names') :
    ∀ (o : Obj) {bs : Bytes}, o.Held names → colWriteRecursive o = .ok bs →
    (o.Portable base → (o.reload names').view names' = o.view names) ∧
    ((o.reload base).view base = o.view names → o.Portable base)
  | .atom a, bs, hh, hw => ⟨(atom_view_iff hh names names').mpr, (atom_view_iff hh names base).mp⟩
  | .vec t v, bs, hh, hw => ⟨(vec_view_iff v UInt8.zero_and names names').mpr,
    (vec_view_iff v UInt8.zero_and names base).mp⟩
  | .symVec v, bs, hh, hw => by
    rw [Obj.reload, view_internSyms, Obj.view]
    exact ⟨fun _ => congrArg _ ((written_map_some_iff hw (by have := v.inside; omega)).mpr
      (readsRight_zero v v.len)), fun _ => trivial⟩
  | .symSlice v offset len inside, bs, hh, hw => by
    have hiff := written_map_some_iff hw (inside.trans v.inside)
    rw [Obj.reload, view_internSyms, Obj.reload, view_internSyms, Obj.view]
    exact ⟨fun hp => congrArg _ (hiff.mpr hp), fun hv => hiff.mp (Value.syms.inj hv)⟩
  | .strVec v, bs, hh, hw => ⟨fun _ => rfl, fun _ => trivial⟩
  | .strSlice v offset len inside, bs, hh, hw => by
    rw [colWriteRecursive] at hw
    split_ifs at hw with hzero
    subst hzero
    rw [Obj.reload, Obj.view, Obj.reload, Obj.view, Obj.view, drop_zero]
    exact ⟨fun hp => congrArg _ ((strSlice_view_iff hh.2.2).mpr hp.2), fun hv =>
      ⟨rfl, (strSlice_view_iff hh.2.2).mp (Value.strs.inj hv)⟩⟩
  | .list es, bs, hh, hw => by
    obtain ⟨cs, hcs, -⟩ := map_eq_ok hw
    obtain ⟨hto, hof⟩ := views_reloads h h' es hh.2 hcs
    exact ⟨fun hp => congrArg Value.list (hto hp), fun hv => hof (Value.list.inj hv)⟩
  | .table ids cols, bs, hh, hw => by
    obtain ⟨cs, hcs, -⟩ := map_eq_ok hw
    obtain ⟨hto, hof⟩ := views_reloadCols h h' ids cols hh.1 hh.2.2.2 hcs
    refine ⟨fun hp => congrArg₂ Value.table (map_congr_left fun i hi => ?_) (hto hp.2), fun hv => ?_⟩
    · rw [getElem?_of_starts h' (hp.1 i hi), getElem?_of_starts h (hp.1 i hi)]
    · obtain ⟨hids, hcols⟩ := Value.table.inj hv
      refine ⟨fun i hi => ?_, hof hcols⟩
      have hname : base[i]? = names[i]? := map_inj_left.mp hids i hi
      rw [getElem?_eq_getElem (hh.2.2.1 i hi)] at hname
      exact (List.getElem?_eq_some_iff.mp hname).1
  | .dict k v, bs, hh, hw => by
    obtain ⟨ks, hks, hrest⟩ := bind_eq_ok' hw
    obtain ⟨vs, hvs, -⟩ := bind_eq_ok' hrest
    obtain ⟨hk, hk'⟩ := view_reload h h' k hh.1 hks
    obtain ⟨hv, hv'⟩ := view_reload h h' v hh.2 hvs
    exact ⟨fun hp => congrArg₂ Value.dict (hk hp.1) (hv hp.2), fun h => (Value.dict.inj h).imp hk' hv'⟩
  | .nullPtr, _, _, hw | .error, _, _, hw | .other _, _, _, hw => by cases hw

theorem views_reloads (h : base <+: names) (h' : base <+: names') :
    ∀ (es : List Obj) {bs : Bytes}, Obj.HeldAll names es →
    writeElems es = .ok bs → (Obj.PortableAll base es → Obj.views names' (Obj.reloads names' es) =
      Obj.views names es) ∧
      (Obj.views base (Obj.reloads base es) = Obj.views names es → Obj.PortableAll base es)
  | [], _, _, _ => ⟨fun _ => rfl, fun _ => trivial⟩
  | e :: es, bs, hh, hw => by
    obtain ⟨b, hb, hrest⟩ := bind_eq_ok' hw
    obtain ⟨cs, hcs, -⟩ := bind_eq_ok' hrest
    obtain ⟨he, he'⟩ := view_reload h h' e hh.1 hb
    obtain ⟨hes, hes'⟩ := views_reloads h h' es hh.2 hcs
    exact ⟨fun hp => congrArg₂ cons (he hp.1) (hes hp.2), fun h => (cons.inj h).imp he' hes'⟩

theorem views_reloadCols (h : base <+: names) (h' : base <+: names') :
    ∀ (ids : List ℕ) (cols : List Obj) {bs : Bytes},
    ids.length = cols.length → Obj.HeldAll names cols → writeCols ids cols = .ok bs →
    (Obj.PortableAll base cols → Obj.views names' (Obj.reloads names' cols) = Obj.views names cols) ∧
      (Obj.views base (Obj.reloads base cols) = Obj.views names cols → Obj.PortableAll base cols)
  | [], [], _, _, _, _ => ⟨fun _ => rfl, fun _ => trivial⟩
  | i :: ids, c :: cols, bs, hlen, hh, hw => by
    obtain ⟨b, hb, hrest⟩ := bind_eq_ok' hw
    obtain ⟨cs, hcs, -⟩ := bind_eq_ok' hrest
    obtain ⟨hc, hc'⟩ := view_reload h h' c hh.1 hb
    obtain ⟨hcols, hcols'⟩ := views_reloadCols h h' ids cols (Nat.succ.inj hlen) hh.2 hcs
    exact ⟨fun hp => congrArg₂ cons (hc hp.1) (hcols hp.2), fun h => (cons.inj h).imp hc' hcols'⟩
  | [], _ :: _, _, hlen, _, _ | _ :: _, [], _, hlen, _, _ => by cases hlen

end

end

section

variable {α β ε : Type}

lemma bind_eq_error {x : Except ε α} {f : α → Except ε β} {e : ε} (h : x >>= f = .error e) :
    x = .error e ∨ ∃ a, x = .ok a ∧ f a = .error e := by
  cases x with
  | error e' =>
    cases h
    exact .inl rfl
  | ok a => exact .inr ⟨a, rfl, h⟩

lemma mapM_ok {f : α → Except ε β} {l : List α} (h : ∀ a ∈ l, ∃ b, f a = .ok b) : ∃ bs, l.mapM f = .ok bs := by
  induction l with
  | nil => exact ⟨[], rfl⟩
  | cons a l ih =>
    obtain ⟨b, hb⟩ := h a mem_cons_self
    obtain ⟨bs, hbs⟩ := ih fun a' ha' => h a' (mem_cons_of_mem _ ha')
    exact ⟨b :: bs, by rw [mapM_cons, hb, hbs]; rfl⟩

lemma raySymVecCell_ok (hin : offset + len ≤ v.block.length)
    (hpos : ∀ pos ∈ (v.block.drop offset).take len, pos < v.dom.length) (hr : v.ReadsRight offset len) :
    ∀ i ∈ List.range len, ∃ s, v.raySymVecCell offset i = .ok s := by
  intro i hi
  have hlt := mem_range.mp hi
  have hb : v.block[offset + i]? = some v.block[offset + i] := getElem?_eq_getElem (by omega)
  have hmem : v.block[offset + i] ∈ (v.block.drop offset).take len := by
    refine mem_of_getElem? (i := i) ?_
    rw [getElem?_take_of_lt hlt, getElem?_drop, hb]
  have hdom := hpos _ hmem
  refine ⟨v.dom[v.block[offset + i]], raySymVecCell_eq_ok.mpr ?_⟩
  rw [hr i hlt, hb, bind_some, getElem?_eq_getElem]

lemma writeSyms_ok (hin : offset + len ≤ v.block.length)
    (hpos : ∀ pos ∈ (v.block.drop offset).take len, pos < v.dom.length) (hr : v.ReadsRight offset len) :
    ∃ bs, writeSyms v offset len = .ok bs := by
  obtain ⟨ss, hss⟩ := mapM_ok (raySymVecCell_ok hin hpos hr)
  exact ⟨_, by rw [writeSyms, hss]; rfl⟩

mutual

theorem colWriteRecursive_ne_fault : ∀ o :
    Obj, o.Held names → o.Portable base → colWriteRecursive o ≠ .error .fault
  | .atom _, _, _ | .vec _ _, _, _ | .strVec _, _, _ | .nullPtr, _, _ | .error, _, _ | .other _, _, _ => nofun
  | .symVec v, hh, _ => by
    obtain ⟨bs, hbs⟩ := writeSyms_ok (by have := v.inside; omega) (fun pos hpos => (hh.2.1 pos hpos).1)
      (readsRight_zero v v.len)
    rw [colWriteRecursive, hbs]
    nofun
  | .symSlice v offset len inside, hh, hp => by
    obtain ⟨bs, hbs⟩ := writeSyms_ok (inside.trans v.inside) (fun pos hpos => (hh.2.1 pos hpos).1) hp
    rw [colWriteRecursive, hbs]
    nofun
  | .strSlice v offset len inside, _, hp => by
    rw [colWriteRecursive, if_pos hp.1]
    nofun
  | .list es, hh, hp => fun h => writeElems_ne_fault es hh.2 hp (map_eq_error h)
  | .table ids cols, hh, hp => fun h => writeCols_ne_fault ids cols hh.2.2.2 hp.2 (map_eq_error h)
  | .dict k v, hh, hp => fun h => by
    rcases bind_eq_error h with hk | ⟨ks, -, hrest⟩
    · exact colWriteRecursive_ne_fault k hh.1 hp.1 hk
    · rcases bind_eq_error hrest with hv | ⟨vs, -, hpure⟩
      · exact colWriteRecursive_ne_fault v hh.2 hp.2 hv
      · cases hpure

theorem writeElems_ne_fault : ∀ es : List Obj, Obj.HeldAll names es → Obj.PortableAll base es →
    writeElems es ≠ .error .fault
  | [], _, _ => nofun
  | e :: es, hh, hp => fun h => by
    rcases bind_eq_error h with he | ⟨b, -, hrest⟩
    · exact colWriteRecursive_ne_fault e hh.1 hp.1 he
    · rcases bind_eq_error hrest with hes | ⟨bs, -, hpure⟩
      · exact writeElems_ne_fault es hh.2 hp.2 hes
      · cases hpure

theorem writeCols_ne_fault : ∀ (ids : List ℕ) (cols : List Obj), Obj.HeldAll names cols →
    Obj.PortableAll base cols →
    writeCols ids cols ≠ .error .fault
  | [], cols, _, _ => fun h => by
    rw [writeCols] at h
    cases h
  | i :: ids, [], _, _ => nofun
  | i :: ids, c :: cols, hh, hp => fun h => by
    rcases bind_eq_error h with hc | ⟨b, -, hrest⟩
    · exact colWriteRecursive_ne_fault c hh.1 hp.1 hc
    · rcases bind_eq_error hrest with hcols | ⟨bs, -, hpure⟩
      · exact writeCols_ne_fault ids cols hh.2 hp.2 hcols
      · cases hpure

end

end

section

variable {names' : List Bytes}

mutual

def Obj.SlicesShort : Obj → Prop
  | .symSlice v offset len _ => v.ReadsRight offset len ∨ ∀ s ∈ v.written offset len, Short s
  | .list es => Obj.SlicesShortAll es
  | .table _ cols => Obj.SlicesShortAll cols
  | .dict k v => k.SlicesShort ∧ v.SlicesShort
  | _ => True

def Obj.SlicesShortAll : List Obj → Prop
  | [] => True
  | o :: os => o.SlicesShort ∧ Obj.SlicesShortAll os

end

lemma yields_atom (h : ¬ (Obj.atom a).Framed) :
    Yields (colReadRecursive names' (fuel + 1)) (writeAtom a) fun o' =>
      o'.view names' ≠ (Obj.atom a).view names := by
  cases a with
  | fixed tag slot nullBit => exact absurd trivial h
  | guid payload addr => exact absurd trivial h
  | sym s quoted =>
    refine yields_level (readTagged_atom (by decide)) ?_
    rw [readAtom, if_pos rfl, ← append_nil (counted s)]
    refine (yields_countedStr h).bind fun s' hne q o' rest hpure hview => ?_
    cases hpure
    rw [Obj.view, Obj.view] at hview
    exact hne (AtomValue.sym.inj (Value.atom.inj hview)).1
  | str s =>
    refine yields_level (readTagged_atom (by decide)) ?_
    rw [readAtom, if_neg (by decide), if_pos rfl, ← append_nil (counted s)]
    refine (yields_countedStr h).bind fun s' hne q o' rest hpure hview => ?_
    cases hpure
    rw [Obj.view, Obj.view] at hview
    exact hne (AtomValue.str.inj (Value.atom.inj hview))

lemma yields_syms {ss : List Bytes} (h : ss.length < 2 ^ 59) (hs : ¬ ∀ s ∈ ss, Short s) :
    Yields (colReadRecursive names' (fuel + 1)) (raySymTag :: (leBytes 8 ss.length ++ ss.flatMap counted))
      fun o' => o'.view names' ≠ .syms (ss.map some) := by
  refine yields_level rfl ((reads_count h).bind_yields (yields_room ?_))
  rw [← append_nil (ss.flatMap counted)]
  refine (yields_countedStrs hs).bind fun ss' hne q o' rest hpure hview => ?_
  cases hpure
  rw [view_internSyms] at hview
  exact hne (map_injective_iff.mpr (some_injective _) (Value.syms.inj hview))

lemma yields_writeSyms {offset len fuel : ℕ} (hw : writeSyms v offset len = .ok bs)
    (hin : offset + len ≤ v.block.length) (hlen : len < 2 ^ 59) (hr : v.ReadsRight offset len)
    (hs : ¬ ∀ s ∈ v.written offset len, Short s) :
    Yields (colReadRecursive names' (fuel + 1)) bs fun o' => o'.view names' ≠ .syms (v.cells offset len) := by
  have hright := (written_map_some_iff hw hin).mpr hr
  obtain ⟨rfl, hcount⟩ := writeSyms_eq hw
  have hyields : Yields (colReadRecursive names' (fuel + 1)) _ _ := yields_syms (hcount.symm ▸ hlen) hs
  rwa [hcount, hright] at hyields

mutual

theorem yields_unframed (hn : names.length < 2 ^ 32) : ∀ (o : Obj) {bs : Bytes} {fuel : ℕ}, o.Held names →
    o.SlicesShort → ¬ o.Framed →
    colWriteRecursive o = .ok bs → bs.length ≤ fuel → Yields (colReadRecursive names' fuel) bs fun o' =>
      o'.view names' ≠ o.view names
  | o, bs, 0, hh, hs, hf, hw, hl => by
    obtain rfl := eq_nil_of_length_eq_zero (Nat.le_zero.mp hl)
    exact (colWriteRecursive_ne_nil hw).elim
  | .atom a, bs, fuel + 1, hh, hs, hf, hw, hl => by
    cases hw
    exact yields_atom hf
  | .symVec v, bs, fuel + 1, hh, hs, hf, hw, hl =>
    yields_writeSyms hw (by have := v.inside; omega) hh.1 (readsRight_zero v v.len) hf
  | .symSlice v offset len inside, bs, fuel + 1, hh, hs, hf, hw, hl =>
    yields_writeSyms hw (inside.trans v.inside) hh.1 (hs.resolve_right hf) hf
  | .list es, bs, fuel + 1, hh, hs, hf, hw, hl => by
    obtain ⟨cs, hcs, rfl⟩ := map_eq_ok hw
    rw [length_cons, length_append] at hl
    have helems : Yields (many (colReadRecursive names' fuel) es.length) cs fun es' =>
        Obj.views names' es' ≠ Obj.views names es :=
      yields_unframedAll hn es hh.2 hs hf hcs (by omega)
    refine yields_level rfl ((reads_count hh.1).bind_yields ?_)
    rw [← append_nil cs]
    refine helems.bind fun es' hne q o' rest hpure hview => ?_
    cases hpure
    exact hne (Value.list.inj hview)
  | .table ids cols, bs, fuel + 1, hh, hs, hf, hw, hl => by
    obtain ⟨cs, hcs, rfl⟩ := map_eq_ok hw
    rw [length_cons, length_append] at hl
    have hcols : Yields (many (readCol (colReadRecursive names' fuel)) ids.length) cs fun cols' =>
        Obj.views names' (cols'.map Prod.snd) ≠ Obj.views names cols :=
      yields_unframedCols hn ids cols hh.1 hh.2.2.1 hh.2.2.2 hs hf hcs (by omega)
    have hint : leInt (leBytes 8 ids.length) = ids.length := leInt_leBytes 8 ids.length (by have := hh.2.1; omega)
    rw [append_assoc]
    refine yields_level rfl ((reads_take Err.corrupt (leBytes_length 8 _)).bind_yields
      ((reads_take Err.corrupt (leBytes_length 8 _)).bind_yields ?_))
    rw [hint, if_neg (by omega), Int.toNat_natCast, ← append_nil cs]
    refine hcols.bind fun cols' hne q o' rest hpure hview => ?_
    cases hpure
    exact hne (Value.table.inj hview).2
  | .dict k v, bs, fuel + 1, hh, hs, hf, hw, hl => by
    obtain ⟨ks, hks, hrest⟩ := bind_eq_ok' hw
    obtain ⟨vs, hvs, hpure⟩ := bind_eq_ok' hrest
    cases hpure
    rw [length_cons, length_append] at hl
    refine yields_level rfl ?_
    by_cases hk : k.Framed
    · have hread : Reads (colReadRecursive names' fuel) ks (k.reload names') :=
        reads_reload hn k hh.1 hk hks (by omega)
      have hyields : Yields (colReadRecursive names' fuel) vs fun o' => o'.view names' ≠ v.view names :=
        yields_unframed hn v hh.2 hs.2 (fun hv => hf ⟨hk, hv⟩) hvs (by omega)
      refine hread.bind_yields ?_
      rw [← append_nil vs]
      refine hyields.bind fun v' hne q o' rest hpure hview => ?_
      cases hpure
      exact hne (Value.dict.inj hview).2
    · have hyields : Yields (colReadRecursive names' fuel) ks fun o' => o'.view names' ≠ k.view names :=
        yields_unframed hn k hh.1 hs.1 hk hks (by omega)
      refine hyields.bind fun k' hne q o' rest hvals hview => ?_
      obtain ⟨v', q', -, hpure⟩ := bind_eq_ok.mp hvals
      cases hpure
      exact hne (Value.dict.inj hview).1
  | .vec _ _, _, _ + 1, _, _, hf, _, _ | .strVec _, _, _ + 1, _, _, hf, _, _ | .strSlice _ _ _ _, _, _ + 1, _, _,
    hf, _, _ => absurd trivial hf
  | .nullPtr, _, _ + 1, _, _, _, hw, _ | .error, _, _ + 1, _, _, _, hw, _ | .other _, _, _ + 1, _, _, _, hw,
    _ => by cases hw

theorem yields_unframedAll (hn : names.length < 2 ^ 32) :
    ∀ (es : List Obj) {bs : Bytes} {fuel : ℕ}, Obj.HeldAll names es →
    Obj.SlicesShortAll es → ¬ Obj.FramedAll es → writeElems es = .ok bs → bs.length ≤ fuel →
    Yields (many (colReadRecursive names' fuel) es.length) bs fun es' => Obj.views names' es' ≠ Obj.views names es
  | [], bs, fuel, hh, hs, hf, hw, hl => absurd trivial hf
  | e :: es, bs, fuel, hh, hs, hf, hw, hl => by
    obtain ⟨b, hb, hrest⟩ := bind_eq_ok' hw
    obtain ⟨cs, hcs, hpure⟩ := bind_eq_ok' hrest
    cases hpure
    rw [length_append] at hl
    by_cases he : e.Framed
    · have hread : Reads (colReadRecursive names' fuel) b (e.reload names') :=
        reads_reload hn e hh.1 he hb (by omega)
      have hyields : Yields (many (colReadRecursive names' fuel) es.length) cs fun es' =>
          Obj.views names' es' ≠ Obj.views names es :=
        yields_unframedAll hn es hh.2 hs.2 (fun hes => hf ⟨he, hes⟩) hcs (by omega)
      refine hread.bind_yields ?_
      rw [← append_nil cs]
      refine hyields.bind fun es' hne q os' rest hpure hview => ?_
      cases hpure
      exact hne (cons.inj hview).2
    · have hyields : Yields (colReadRecursive names' fuel) b fun o' => o'.view names' ≠ e.view names :=
        yields_unframed hn e hh.1 hs.1 he hb (by omega)
      refine hyields.bind fun e' hne q os' rest htail hview => ?_
      obtain ⟨es', q', -, hpure⟩ := bind_eq_ok.mp htail
      cases hpure
      exact hne (cons.inj hview).1

theorem yields_unframedCols (hn : names.length < 2 ^ 32) :
    ∀ (ids : List ℕ) (cols : List Obj) {bs : Bytes} {fuel : ℕ},
    ids.length = cols.length → (∀ i ∈ ids, i < names.length) → Obj.HeldAll names cols → Obj.SlicesShortAll cols →
      ¬ Obj.FramedAll cols →
    writeCols ids cols = .ok bs → bs.length ≤ fuel →
    Yields (many (readCol (colReadRecursive names' fuel)) ids.length) bs fun cols' =>
      Obj.views names' (cols'.map Prod.snd) ≠ Obj.views names cols
  | [], [], bs, fuel, hlen, hi, hh, hs, hf, hw, hl => absurd trivial hf
  | i :: ids, c :: cols, bs, fuel, hlen, hi, hh, hs, hf, hw, hl => by
    obtain ⟨b, hb, hrest⟩ := bind_eq_ok' hw
    obtain ⟨cs, hcs, hpure⟩ := bind_eq_ok' hrest
    cases hpure
    rw [length_append, length_append] at hl
    have hid : i < 256 ^ 8 := by
      have := hi i mem_cons_self
      omega
    by_cases hc : c.Framed
    · have hread : Reads (colReadRecursive names' fuel) b (c.reload names') :=
        reads_reload hn c hh.1 hc hb (by omega)
      have hyields : Yields (many (readCol (colReadRecursive names' fuel)) ids.length) cs fun cols' =>
          Obj.views names' (cols'.map Prod.snd) ≠ Obj.views names cols :=
        yields_unframedCols hn ids cols (Nat.succ.inj hlen) (fun j hj => hi j (mem_cons_of_mem _ hj)) hh.2 hs.2
          (fun hcols => hf ⟨hc, hcols⟩) hcs (by omega)
      have hcol : Reads (readCol (colReadRecursive names' fuel)) (leBytes 8 i ++ b) (i, c.reload names') :=
        (reads_word 8 i hid).bind hread.bind_pure
      refine hcol.bind_yields ?_
      rw [← append_nil cs]
      refine hyields.bind fun cols' hne q os' rest hpure hview => ?_
      cases hpure
      exact hne (cons.inj hview).2
    · have hyields : Yields (colReadRecursive names' fuel) b fun o' => o'.view names' ≠ c.view names :=
        yields_unframed hn c hh.1 hs.1 hc hb (by omega)
      have hcol : Yields (readCol (colReadRecursive names' fuel)) (leBytes 8 i ++ b) fun c' =>
          c'.2.view names' ≠ c.view names := by
        refine (reads_word 8 i hid).bind_yields ?_
        rw [← append_nil b]
        refine hyields.bind fun c' hne q os' rest hpure => ?_
        cases hpure
        exact hne
      refine hcol.bind fun c' hne q os' rest htail hview => ?_
      obtain ⟨cols', q', -, hpure⟩ := bind_eq_ok.mp htail
      cases hpure
      exact hne (cons.inj hview).1
  | [], _ :: _, _, _, hlen, _, _, _, _, _, _ | _ :: _, [], _, _, hlen, _, _, _, _, _, _ => by cases hlen

end

end

end Rayforce.Store
