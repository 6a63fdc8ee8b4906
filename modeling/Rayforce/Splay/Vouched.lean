import Rayforce.Splay.Symfile
import Rayforce.Splay.Schema

namespace Rayforce.Splay

open Library.Words Library.Readers List
open Rayforce.Serde (raySymWMask rayAttrSorted)
open Rayforce.Store (Obj SymVec Extra Proc SymHome Mapped colValidateMapped colAttach colLoadImpl colMmapImpl
    headerBytes raySymTag extendedMagics)
open Rayforce.Domain (SymDomain Holds)

variable {file q rest : Bytes} {p : Proc} {V : List Bytes} {k : ℕ} {d : SymDomain} {c : Column} {v : SymVec}
    {offset len : ℕ} {bs : Bytes}
variable {tag attrs : UInt8}

def Vouched (file : Bytes) : Prop :=
  ∀ m ids, colValidateMapped file = .ok m → m.body = .syms ids → ∀ i ∈ ids, i < m.rc

lemma readBody_syms_tag {len : ℕ} {body : Store.Body} {r : Bytes} {ids : List ℕ}
    (h : Store.readBody tag attrs len bs = .ok (body, r)) (hbody : body = .syms ids) : tag = raySymTag := by
  subst hbody
  rw [Store.readBody] at h
  split_ifs at h with hsym hstr
  · exact hsym
  · obtain ⟨descs, r1, -, hpool⟩ := bind_eq_ok.mp h
    rw [Store.readPool] at hpool
    obtain ⟨hdr, r2, -, hpool⟩ := bind_eq_ok.mp hpool
    split_ifs at hpool
    · cases hpool
    · obtain ⟨pool, r3, -, hpure⟩ := bind_eq_ok.mp hpool
      split_ifs at hpure <;> cases hpure
  · cases hfix : Store.fixTy? tag with
    | none =>
      rw [hfix] at h
      cases h
    | some t =>
      rw [hfix] at h
      obtain ⟨cells, r1, -, hpure⟩ := bind_eq_ok.mp h
      cases hpure

def Symless (file : Bytes) : Prop := ∀ m ids, colValidateMapped file = .ok m → m.body ≠ .syms ids

lemma Symless.vouched (h : Symless file) : Vouched file := fun m ids hm hbody => absurd hbody (h m ids hm)

lemma symless_of_tag (h : file.getD 18 0 ≠ raySymTag) : Symless file := by
  intro m ids hm hbody
  rw [colValidateMapped] at hm
  split_ifs at hm
  dsimp only at hm
  split_ifs at hm
  obtain ⟨⟨body, r⟩, hread, hpure⟩ := Store.bind_eq_ok' hm
  cases hpure
  exact h (readBody_syms_tag hread hbody)

lemma symless_header {aux : Bytes} {rc : ℕ} (haux : aux.length = 16) (htag : tag ≠ raySymTag)
    (hq : q <+: headerBytes aux tag attrs rc len ++ rest) : Symless q := by
  intro m ids hm
  obtain ⟨more, hmore⟩ := prefix_of_prefix_length_le (prefix_append _ _) hq
    (by rw [Store.headerBytes_length haux]; exact Store.validate_long hm)
  refine symless_of_tag ?_ m ids hm
  rw [← hmore, (Store.headerBytes_fields haux tag attrs rc len more).2.1]
  exact htag

lemma symless_marked {magic : Bytes} (hmagic : magic ∈ extendedMagics) (hq : q <+: magic ++ bs) : Symless q := by
  intro m ids hm
  have hlong := Store.validate_long hm
  have hfour := Store.extendedMagics_length hmagic
  refine absurd ?_ (Store.validate_magic hm)
  obtain ⟨more, hmore⟩ := prefix_of_prefix_length_le (prefix_append magic bs) hq (by omega)
  rwa [← hmore, take_left' hfour]

lemma symless_rayColSave {names : List Bytes} {x : Extra} {o : Obj} (hx : x.addr.length = 8)
    (hsym : symParts o = none) (hs : Store.rayColSave names x o = .ok bs) (hq : q <+: bs) : Symless q := by
  cases o with
  | nullPtr | error | atom | dict | other => cases hs
  | symVec | symSlice => cases hsym
  | vec t v =>
    cases hs
    rw [Store.saveRaw, append_assoc] at hq
    exact symless_header (Store.headerAux_length hx _ _) (Store.vecTag_ne t).1 hq
  | strVec v =>
    cases hs
    rw [Store.saveStrs, append_assoc, append_assoc] at hq
    exact symless_header (Store.headerAux_length hx _ _) (by decide) hq
  | strSlice v offset len inside =>
    rw [Store.rayColSave] at hs
    split_ifs at hs
    cases hs
    rw [Store.saveStrs, append_assoc, append_assoc] at hq
    exact symless_header (Store.headerAux_length hx _ _) (by decide) hq
  | list es =>
    rw [Store.rayColSave] at hs
    split_ifs at hs
    · cases hs
      rw [Store.colSaveStrList, append_assoc] at hq
      exact symless_marked (by simp [extendedMagics]) hq
    · obtain ⟨cs, -, rfl⟩ := Store.map_eq_ok hs
      exact symless_marked (by simp [extendedMagics]) hq
  | table ids cols =>
    obtain ⟨cs, -, rfl⟩ := Store.map_eq_ok hs
    exact symless_marked (by simp [extendedMagics]) hq

lemma cellPos_lt (h : Holds d V k) {own : Bool} {i pos : ℕ} (hp : cellPos d own v offset i = .ok pos) :
    pos < V.length := by
  rw [cellPos] at hp
  split_ifs at hp
  · split at hp
    · cases hp
    · split_ifs at hp with hlt
      cases hp
      rwa [h.count] at hlt
  · cases hs : cellStr v offset i with
    | error e =>
      rw [hs] at hp
      cases hp
    | ok s =>
      rw [hs] at hp
      obtain ⟨r, d', hfind, -, hsome, -⟩ := Domain.raySymDomainFind_spec h s
      rw [Except.bind, hfind] at hp
      cases r with
      | none => cases hp
      | some pos' =>
        cases hp
        exact (List.getElem?_eq_some_iff.mp (hsome _ rfl)).1

def encodedAttrs (c : Column) (n : ℕ) : UInt8 :=
  UInt8.ofNat (Store.raySymDictWidth n) ||| if c.own then vecAttrs c.obj &&& rayAttrSorted else 0

lemma encodedAttrs_width (c : Column) (n : ℕ) :
    (encodedAttrs c n &&& raySymWMask).toNat = Store.raySymDictWidth n := by
  have hoff : rayAttrSorted &&& raySymWMask = 0 := by decide
  have hsorted : (if c.own then vecAttrs c.obj &&& rayAttrSorted else 0) &&& raySymWMask = 0 := by
    split_ifs
    · rw [UInt8.and_assoc, hoff, UInt8.and_zero]
    · exact UInt8.zero_and
  rw [encodedAttrs, Store.or_and, hsorted, UInt8.or_zero, Store.raySymDictWidth]
  split_ifs <;> rfl

lemma encoded_eq (h : rayColSaveSymEncoded d c v offset len = .ok bs) :
    ∃ ids, (List.range len).mapM (cellPos d c.own v offset) = .ok ids ∧
    ids.length = len ∧ bs = headerBytes (List.replicate 16 0) raySymTag
    (encodedAttrs c d.count) d.count ids.length ++
      Store.symBytes (Store.raySymDictWidth d.count) ids := by
  rw [rayColSaveSymEncoded] at h
  by_cases hbig : 2 ^ 32 - 1 < d.count
  · rw [if_pos hbig] at h
    cases h
  rw [if_neg hbig] at h
  obtain ⟨ids, hids, rfl⟩ := Store.map_eq_ok h
  have hlen := (Store.mapM_eq_ok hids).length_eq
  rw [length_range] at hlen
  exact ⟨ids, hids, hlen.symm, by rw [← hlen]; rfl⟩

lemma encoded_validates (hh : Holds d V k) (hlen : len < 2 ^ 59)
    (h : rayColSaveSymEncoded d c v offset len = .ok bs) :
    ∃ ids m, (List.range len).mapM (cellPos d c.own v offset) = .ok ids ∧ ids.length = len ∧
    (∀ i ∈ ids, i < V.length) ∧
      colValidateMapped bs = .ok m ∧ m.body = .syms ids ∧ m.rc = V.length ∧ m.tail = bs.length := by
  obtain ⟨ids, hids, rfl, rfl⟩ := encoded_eq h
  have hpos : ∀ i ∈ ids, i < V.length := by
    intro i hi
    obtain ⟨j, hj⟩ := Store.exists_of_forall₂ (Store.mapM_eq_ok hids).flip hi
    exact cellPos_lt hh hj
  have hfits : ∀ i ∈ ids, i < 256 ^ 2 ^ Store.raySymDictWidth d.count := by
    intro i hi
    rw [hh.count]
    exact Store.raySymDictWidth_fits (hpos i hi) hh.limit
  have hsize := Nat.mul_le_mul_left ids.length (Store.symSize_le (encodedAttrs c d.count))
  have hread : Store.readBody raySymTag (encodedAttrs c d.count) ids.length
      (Store.symBytes (Store.raySymDictWidth d.count) ids ++ []) = _ :=
    Store.readBody_syms (encodedAttrs_width c d.count) hfits
  rw [append_nil] at hread
  have hvalid : colValidateMapped
    (headerBytes (replicate 16 0) raySymTag (encodedAttrs c d.count) d.count ids.length ++
      Store.symBytes (Store.raySymDictWidth d.count) ids) = _ :=
    Store.colValidateMapped_header rfl (by decide) (.inl rfl) hlen (by omega)
  rw [hread] at hvalid
  refine ⟨ids, _, hids, rfl, hpos, hvalid, rfl, ?_, ?_⟩
  · show d.count % 2 ^ 32 = V.length
    rw [hh.count, Nat.mod_eq_of_lt hh.limit]
  · exact Nat.sub_zero _

structure Column.Wf (c : Column) : Prop where
  fits : c.obj.Fits
  addr : c.extra.addr.length = 8

lemma symParts_fits (hc : c.Wf) (h : symParts c.obj = some (v, offset, len)) : len < 2 ^ 59 ∧ c.obj.len = len := by
  have hfits := hc.fits
  cases ho : c.obj <;> rw [ho] at h hfits <;> cases h
  · exact ⟨hfits, rfl⟩
  · exact ⟨hfits, rfl⟩

lemma vouched_encoded {pnames : List Bytes} {target : Option SymDomain}
    (htarget : ∀ d, target = some d → ∃ V k, Holds d V k) (hc : c.Wf)
    (h : Encoded pnames target c q) : Vouched q := by
  obtain ⟨bs, henc, hq, hall⟩ := h
  cases hparts : symParts c.obj with
  | none => exact (symless_rayColSave hc.addr hparts (encodeColumn_plain hparts henc) hq).vouched
  | some parts =>
    obtain rfl := hall (hparts ▸ rfl)
    obtain ⟨d, rfl, hsyms⟩ := encodeColumn_syms hparts henc
    obtain ⟨V, k, hh⟩ := htarget d rfl
    obtain ⟨ids, m, -, -, hpos, hm, hbody, hrc, -⟩ := encoded_validates hh (symParts_fits hc hparts).1 hsyms
    intro m' ids' hm' hbody' i hi
    obtain rfl : m = m' := Except.ok.inj (hm.symm.trans hm')
    obtain rfl : ids = ids' := Store.Body.syms.inj (hbody.symm.trans hbody')
    rw [hrc]
    exact hpos i hi

section

variable {dom dom' : Option (List Bytes)} {o : Obj} {m : Mapped} {scan useMmap : Bool}

structure Alike (o o' : Obj) : Prop where
  len : o'.len = o.len
  view : ∀ names, o'.view names = o.view names

lemma Alike.refl (o : Obj) : Alike o o := ⟨rfl, fun _ => rfl⟩

def Extends (dom dom' : Option (List Bytes)) : Prop := ∀ U, dom = some U → ∃ V, dom' = some V ∧ U <+: V

lemma colAttach_mono (hext : Extends dom dom') (hm : ∀ ids, m.body = .syms ids → ∀ i ∈ ids, i < m.rc)
    (h : colAttach p (.symfile dom) scan m = .ok o) :
      ∃ o', colAttach p (.symfile dom') scan m = .ok o' ∧ Alike o o' := by
  rw [colAttach] at h ⊢
  cases hb : m.body with
  | fixed t cells =>
    rw [hb] at h
    exact ⟨o, h, .refl o⟩
  | strs descs pool =>
    rw [hb] at h
    exact ⟨o, h, .refl o⟩
  | syms ids =>
    rw [hb] at h
    have hpos := hm ids hb
    cases dom with
    | none => cases h
    | some U =>
      obtain ⟨V, rfl, hpre⟩ := hext U rfl
      have hle := hpre.length_le
      dsimp only at h ⊢
      split_ifs at h with hrc hbounds
      cases h
      have hin : ∀ i ∈ ids, i < U.length := by
        intro i hi
        have hi' := hpos i hi
        omega
      have hbounds' : ¬ ((scan = true ∨ m.rc = 0) ∧ Store.symBoundsOk ids V.length = false) := by
        rintro ⟨hscan, hfalse⟩
        refine hbounds ⟨hscan, ?_⟩
        cases ids with
        | nil => simp [Store.symBoundsOk] at hfalse
        | cons i ids =>
          have hU : 0 < U.length := (Nat.zero_le i).trans_lt (hin i mem_cons_self)
          rw [Store.symBoundsOk, Bool.or_eq_false_iff] at hfalse ⊢
          refine ⟨by simpa using hU.ne', ?_⟩
          rw [List.all_eq_false] at hfalse ⊢
          obtain ⟨j, hj, hjf⟩ := hfalse.2
          refine ⟨j, hj, ?_⟩
          have hjU := hin j hj
          simp only [Bool.and_eq_true, decide_eq_true_eq, not_and] at hjf ⊢
          exact fun _ => hjf (by omega)
      rw [if_neg (by omega), if_neg hbounds']
      refine ⟨_, rfl, rfl, fun names => ?_⟩
      rw [Store.symVecOf, Store.symVecOf, Obj.view, Obj.view, SymVec.cells, SymVec.cells, Store.Value.syms.injEq]
      refine map_congr_left fun i hi => ?_
      have hi' : i ∈ ids := mem_of_mem_drop (mem_of_mem_take hi)
      exact (Domain.getElem?_of_isPrefix hpre (hin i hi')).symm

lemma colLoadImpl_mono (hext : Extends dom dom') (hv : Vouched file)
    (h : colLoadImpl p (.symfile dom) file = .ok o) :
    ∃ o', colLoadImpl p (.symfile dom') file = .ok o' ∧ Alike o o' := by
  rw [colLoadImpl] at h ⊢
  split_ifs at h ⊢
  · exact ⟨o, h, .refl o⟩
  · exact ⟨o, h, .refl o⟩
  · exact ⟨o, h, .refl o⟩
  · obtain ⟨m, hm, hattach⟩ := Store.bind_eq_ok' h
    rw [hm]
    exact colAttach_mono hext (hv m · hm) hattach

lemma colAttach_ne_nyi {home : SymHome} : colAttach p home scan m ≠ .error .nyi := by
  rw [colAttach]
  cases m.body with
  | fixed | strs => rintro ⟨⟩
  | syms ids =>
    cases home with
    | process =>
      dsimp only
      split_ifs <;> rintro ⟨⟩
    | symfile dom =>
      cases dom with
      | none => rintro ⟨⟩
      | some dom =>
        dsimp only
        split_ifs <;> rintro ⟨⟩

lemma loadFile_mono (hext : Extends dom dom') (hv : Vouched file)
    (h : loadFile p (.symfile dom) useMmap file = .ok o) :
    ∃ o', loadFile p (.symfile dom') useMmap file = .ok o' ∧ Alike o o' := by
  rw [loadFile] at h ⊢
  split_ifs at h ⊢
  · cases hm : colValidateMapped file with
    | error e =>
      have hmap : ∀ home, colMmapImpl p home file = .error e := fun home => by
        rw [colMmapImpl, hm]
        rfl
      rw [hmap] at h ⊢
      cases e with
      | nyi => exact colLoadImpl_mono hext hv h
      | _ => cases h
    | ok m =>
      have hmap : ∀ home, colMmapImpl p home file =
          if m.hasIndex = false ∧ m.tail ≠ file.length then .error .io else colAttach p home false m := by
        intro home
        rw [colMmapImpl, hm]
        rfl
      rw [hmap] at h ⊢
      by_cases hshort : m.hasIndex = false ∧ m.tail ≠ file.length
      · rw [if_pos hshort] at h
        cases h
      · rw [if_neg hshort] at h ⊢
        cases ha : colAttach p (.symfile dom) false m with
        | error e =>
          rw [ha] at h
          cases e with
          | nyi => exact absurd ha colAttach_ne_nyi
          | _ => cases h
        | ok o1 =>
          rw [ha] at h
          cases h
          obtain ⟨o', ho', halike⟩ := colAttach_mono hext (hv m · hm) ha
          exact ⟨o', by rw [ho'], halike⟩
  · exact colLoadImpl_mono hext hv h

end

end Rayforce.Splay
