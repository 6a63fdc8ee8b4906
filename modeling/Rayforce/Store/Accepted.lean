import Rayforce.Serde.Accepted
import Rayforce.Splay.Schema
import Rayforce.Store.Inside

namespace Rayforce.Store

open Library.Words Library.Readers List Option
open Rayforce.Serde (FixTy Cell raySymWMask)

variable {r : Rd Obj}

inductive Part (x : Obj) : Obj → Prop
  | self : Part x x
  | elem {e : Obj} {es : List Obj} : e ∈ es → Part x e → Part x (.list es)
  | col {c : Obj} {ids : List ℕ} {cols : List Obj} : c ∈ cols → Part x c → Part x (.table ids cols)
  | keys {k v : Obj} : Part x k → Part x (.dict k v)
  | vals {k v : Obj} : Part x v → Part x (.dict k v)

def Obj.attrs : Obj → UInt8
  | .vec _ v => v.attrs
  | .symVec v => v.attrs
  | .symSlice v _ _ _ => sliceAttrs v.attrs
  | .strVec v => v.attrs
  | .strSlice v _ _ _ => sliceAttrs v.attrs
  | _ => 0

def Obj.Persisted (o : Obj) : Prop := o.attrs &&& colDiskAttrsMask = o.attrs

def Obj.StringsInside : Obj → Prop
  | .strVec v => ∀ d ∈ v.descs, d.len ≤ rayStrInlineMax ∨ d.poolOff + d.len ≤ v.pool.length
  | _ => True

def Obj.SymbolsResolve : Obj → Prop
  | .symVec v => ∀ pos ∈ v.block.take v.len, pos < v.dom.length
  | _ => True

def Obj.ColumnsEven : Obj → Prop
  | .table _ cols => ∃ n, ∀ c ∈ cols, c.len = n
  | _ => True

def Obj.PairsEven : Obj → Prop
  | .dict k v => k.len = v.len
  | _ => True

def Obj.AtomsInline : Obj → Prop
  | .atom (.fixed tag _ _) => guidTag < tag
  | .atom (.guid _ _) => False
  | _ => True

inductive Laid (names : List Bytes) : Obj → Bytes → Prop
  | fixed (tag : UInt8) (slot : Bytes) : Laid names (.atom (.fixed tag slot false)) (tag :: slot)
  | sym (s : Bytes) : Laid names (.atom (.sym s false)) (symAtomTag :: counted s)
  | str (s : Bytes) : Laid names (.atom (.str s)) (strAtomTag :: counted s)
  | vec (t : FixTy) (cs : List (Cell t)) :
    Laid names (.vec t (.owned 0 cs)) (t.vecTag :: (leBytes 8 cs.length ++ cs.flatMap Cell.bytes))
  | symVec (ss : List Bytes) : Laid names (.symVec (internSyms names ss))
    (raySymTag :: (leBytes 8 ss.length ++ ss.flatMap counted))
  | strVec (attrs : UInt8) (descs : List Desc) (pool : Bytes) :
    Laid names (.strVec ⟨attrs &&& colDiskAttrsMask, descs, pool⟩) (writeStrs attrs descs pool)
  | list (parts : List (Obj × Bytes)) (h : ∀ q ∈ parts, Laid names q.1 q.2) :
    Laid names (.list (parts.map Prod.fst)) (rayListTag :: (leBytes 8 parts.length ++ parts.flatMap Prod.snd))
  | table (parts : List ((ℕ × Obj) × Bytes)) (nrows : Bytes) (h : ∀ q ∈ parts, Laid names q.1.2 q.2) :
    Laid names (.table (parts.map fun q => q.1.1) (parts.map fun q => q.1.2))
      (rayTableTag :: (leBytes 8 parts.length ++ nrows ++ parts.flatMap fun q => leBytes 8 q.1.1 ++ q.2))
  | dict {k v : Obj} {ks vs : Bytes} (hk : Laid names k ks) (hv : Laid names v vs) :
    Laid names (.dict k v) (rayDictTag :: (ks ++ vs))

lemma persisted_mask (a : UInt8) : a &&& colDiskAttrsMask &&& colDiskAttrsMask = a &&& colDiskAttrsMask := by
  rw [UInt8.and_assoc, UInt8.and_self]

lemma persisted_eq {o : Obj} {a : UInt8} (h : o.attrs = a) (ha : a &&& colDiskAttrsMask = a) : o.Persisted := by
  rw [Obj.Persisted, h, ha]

lemma persisted_zero {o : Obj} (h : o.attrs = 0) : o.Persisted := persisted_eq h (by decide)

lemma internSyms_resolve (names ss : List Bytes) : (Obj.symVec (internSyms names ss)).SymbolsResolve := by
  intro pos hpos
  obtain ⟨s, hs, rfl⟩ := mem_map.mp (mem_of_mem_take hpos)
  exact idxOf_lt_length_of_mem (mem_append_right names hs)

lemma Laid.sound {names : List Bytes} {o : Obj} {bs : Bytes} (h : Laid names o bs) :
    ∀ x, Part x o → x.Persisted ∧ x.SymbolsResolve := by
  induction h with
  | fixed tag slot =>
    rintro x (_ | _)
    exact ⟨persisted_zero rfl, trivial⟩
  | sym s =>
    rintro x (_ | _)
    exact ⟨persisted_zero rfl, trivial⟩
  | str s =>
    rintro x (_ | _)
    exact ⟨persisted_zero rfl, trivial⟩
  | vec t cs =>
    rintro x (_ | _)
    exact ⟨persisted_zero rfl, trivial⟩
  | symVec ss =>
    rintro x (_ | _)
    exact ⟨persisted_eq (a := 3) rfl (by decide), internSyms_resolve names ss⟩
  | strVec attrs descs pool =>
    rintro x (_ | _)
    exact ⟨persisted_mask attrs, trivial⟩
  | list parts h ih =>
    rintro x (_ | ⟨hmem, hpart⟩)
    · exact ⟨persisted_zero rfl, trivial⟩
    · obtain ⟨q, hq, rfl⟩ := mem_map.mp hmem
      exact ih q hq x hpart
  | table parts nrows h ih =>
    rintro x (_ | _ | ⟨hmem, hpart⟩)
    · exact ⟨persisted_zero rfl, trivial⟩
    · obtain ⟨q, hq, rfl⟩ := mem_map.mp hmem
      exact ih q hq x hpart
  | dict hk hv ihk ihv =>
    rintro x (_ | _ | _ | hpart | hpart)
    · exact ⟨persisted_zero rfl, trivial⟩
    · exact ihk x hpart
    · exact ihv x hpart

section

variable {names : List Bytes}

lemma gives_byte : Gives byte fun b bs => bs = [b] := by
  intro p b rest h
  cases p with
  | nil => cases h
  | cons c p =>
    cases h
    exact ⟨[b], rfl, rfl⟩

lemma gives_word (k : ℕ) : Gives (word k) fun n bs => bs = leBytes k n := by
  refine (gives_take _ k).bind fun cs bs hcs => Gives.pure ?_
  obtain ⟨rfl, hlen⟩ := hcs
  rw [append_nil, ← hlen, leBytes_leNat]

lemma gives_count : Gives count fun n bs => bs = leBytes 8 n := by
  refine (gives_take _ 8).bind fun cs bs hcs => Gives.ite (fun _ => Gives.fail _) fun hneg => Gives.pure ?_
  obtain ⟨rfl, hlen⟩ := hcs
  obtain ⟨hnat, -⟩ := leInt_nonneg cs (not_lt.mp hneg)
  rw [append_nil, hnat, Int.toNat_natCast, ← hlen, leBytes_leNat]

lemma gives_roomFor (n : ℕ) : Gives (roomFor n) fun _ bs => bs = [] := by
  intro p a rest h
  rw [roomFor] at h
  split_ifs at h with hroom
  cases h
  exact ⟨[], rfl, rfl⟩

lemma gives_countedStr : Gives countedStr fun s bs => bs = counted s := by
  refine (gives_word 4).bind fun n bs hn => (gives_take _ n).mono fun s cs hs => ?_
  obtain ⟨rfl, rfl⟩ := hs
  rw [hn, counted]

lemma gives_cell (t : FixTy) : Gives (cell t) fun c bs => bs = c.bytes := by
  refine (gives_piece (f := Cell.mk) Err.corrupt).mono fun c bs hc => ?_
  obtain ⟨h, rfl⟩ := hc
  rfl

lemma gives_desc : Gives desc fun d bs => bs = d.bytes := by
  refine (gives_piece (f := Desc.mk) Err.corrupt).mono fun d bs hd => ?_
  obtain ⟨h, rfl⟩ := hd
  rfl

lemma fixTy?_eq_some {tag : UInt8} {t : FixTy} (h : fixTy? tag = some t) : tag = t.vecTag := by
  rw [← UInt8.toNat_inj]
  rw [fixTy?] at h
  split at h <;> cases h <;> assumption

lemma gives_readAtom (tag : UInt8) : Gives (readAtom tag) fun o bs => Laid names o (tag :: bs) := by
  refine Gives.ite (fun htag => ?_) fun _ => Gives.ite (fun htag => ?_) fun _ => ?_
  · refine gives_countedStr.bind fun s bs hs => Gives.pure ?_
    rw [htag, hs, append_nil]
    exact .sym s
  · refine gives_countedStr.bind fun s bs hs => Gives.pure ?_
    rw [htag, hs, append_nil]
    exact .str s
  · refine (gives_take _ 8).bind fun slot bs hslot => Gives.pure ?_
    rw [append_nil, ← hslot.1]
    exact .fixed tag slot

lemma gives_readSyms : Gives (readSyms names) fun o bs => Laid names o (raySymTag :: bs) := by
  refine gives_count.bind fun n bs hn => (gives_roomFor n).bind fun _ cs hcs => ?_
  refine (gives_many_enc gives_countedStr n).bind fun ss ds hss => Gives.pure ?_
  obtain ⟨rfl, rfl⟩ := hss
  rw [hn, hcs, nil_append, append_nil]
  exact .symVec ss

lemma gives_readVec (t : FixTy) : Gives (readVec t) fun o bs => Laid names o (t.vecTag :: bs) := by
  refine gives_count.bind fun n bs hn => (gives_many_enc (gives_cell t) n).bind fun cs ds hcs => Gives.pure ?_
  obtain ⟨rfl, rfl⟩ := hcs
  rw [hn, append_nil]
  exact .vec t cs

lemma gives_readStrs : Gives readStrs fun o bs => Laid names o (rayStrTag :: bs) := by
  refine gives_count.bind fun n bs hn => gives_byte.bind fun attrs cs hattrs => ?_
  refine (gives_many_enc gives_desc n).bind fun descs ds hdescs => (gives_word 8).bind fun size es hsize => ?_
  refine Gives.ite (fun _ => Gives.fail _) fun _ => (gives_take _ size).bind fun pool fs hpool => Gives.pure ?_
  obtain ⟨rfl, rfl⟩ := hdescs
  obtain ⟨rfl, rfl⟩ := hpool
  have hlaid := @Laid.strVec names attrs descs pool
  rw [writeStrs] at hlaid
  rw [hn, hattrs, hsize]
  simpa only [append_nil, append_assoc, cons_append, nil_append] using hlaid

section

variable {child : Rd Obj} (h : Gives child (Laid names))

include h

lemma gives_readList : Gives (readList child) fun o bs => Laid names o (rayListTag :: bs) := by
  refine gives_count.bind fun n bs hn => (gives_many h n).bind fun es cs hes => Gives.pure ?_
  obtain ⟨parts, hparts, rfl, rfl, rfl⟩ := hes
  rw [hn, append_nil]
  exact .list parts hparts

lemma gives_readTable : Gives (readTable child) fun o bs => Laid names o (rayTableTag :: bs) := by
  refine (gives_take _ 8).bind fun ncols bs hncols => (gives_take _ 8).bind fun nrows cs hnrows => ?_
  refine Gives.ite (fun _ => Gives.fail _) fun hneg => ?_
  have hcol : Gives (readCol child) fun q ds => ∃ es, ds = leBytes 8 q.1 ++ es ∧ Laid names q.2 es := by
    refine (gives_word 8).bind fun i ds hi => h.bind fun c es hc => Gives.pure ⟨es, ?_, hc⟩
    rw [hi, append_nil]
  refine (gives_many hcol _).bind fun cols ds hcols => Gives.pure ?_
  obtain ⟨parts, hparts, hlen, rfl, rfl⟩ := hcols
  obtain ⟨rfl, hwidth⟩ := hncols
  obtain ⟨rfl, -⟩ := hnrows
  obtain ⟨hnat, -⟩ := leInt_nonneg ncols (not_lt.mp hneg)
  rw [hnat, Int.toNat_natCast] at hlen
  choose! rows hrows hlaid using hparts
  have htable := @Laid.table names (parts.map fun q => (q.1, rows q)) nrows fun q hq => by
    obtain ⟨r, hr, rfl⟩ := mem_map.mp hq
    exact hlaid r hr
  have hcount : leBytes 8 (leNat ncols) = ncols := hwidth ▸ leBytes_leNat ncols
  rw [length_map, hlen, hcount, flatMap_map] at htable
  rw [flatMap_congr hrows]
  simpa only [List.map_map, append_nil, append_assoc, Function.comp_def] using htable

lemma gives_readDict : Gives (readDict child) fun o bs => Laid names o (rayDictTag :: bs) := by
  refine h.bind fun keys ks hk => h.bind fun vals vs hv => Gives.pure ?_
  rw [append_nil]
  exact .dict hk hv

lemma gives_readTagged (tag : UInt8) : Gives (readTagged names child tag) fun o bs =>
    Laid names o (tag :: bs) := by
  refine Gives.ite (fun _ => gives_readAtom tag) fun _ => ?_
  refine Gives.ite (fun htag => htag ▸ gives_readSyms) fun _ =>
    Gives.ite (fun htag => htag ▸ gives_readStrs) fun _ => ?_
  refine Gives.ite (fun htag => htag ▸ gives_readList h) fun _ =>
    Gives.ite (fun htag => htag ▸ gives_readTable h) fun _ => ?_
  refine Gives.ite (fun htag => htag ▸ gives_readDict h) fun _ => ?_
  cases ht : fixTy? tag with
  | none => exact Gives.fail _
  | some t =>
    rw [fixTy?_eq_some ht]
    exact gives_readVec t

end

lemma gives_colReadRecursive (fuel : ℕ) : Gives (colReadRecursive names fuel) (Laid names) := by
  induction fuel with
  | zero => exact Gives.fail _
  | succ fuel ih =>
    refine gives_byte.bind fun tag bs htag => ?_
    rw [htag]
    exact gives_readTagged ih tag

lemma gives_colLoadStrList : Gives colLoadStrList fun o bs =>
    ∃ ss : List Bytes, o = .list (ss.map fun s => .atom (.str s)) ∧
      bs = leBytes 8 ss.length ++ ss.flatMap counted := by
  refine gives_count.bind fun n bs hn => (gives_roomFor n).bind fun _ cs hcs => ?_
  refine (gives_many_enc gives_countedStr n).bind fun ss ds hss => Gives.pure ⟨ss, rfl, ?_⟩
  obtain ⟨rfl, rfl⟩ := hss
  rw [hn, hcs, nil_append, append_nil]

end

section

variable {file : Bytes} {attrs : UInt8} {len : ℕ}

def Obj.Spelled : Obj → Bytes → Prop
  | .vec _ v, bs => bs = v.cells.flatMap Cell.bytes
  | .symVec v, bs => bs = v.block.flatMap (leBytes (2 ^ v.width))
  | .strVec v, bs => ∃ hdr : Bytes, hdr.length = 32 ∧ bs = v.descs.flatMap Desc.bytes ++ hdr ++ v.pool
  | _, _ => False

def Body.Spelled (attrs : UInt8) (len : ℕ) : Body → Bytes → Prop
  | .fixed _ cs, bs => cs.length = len ∧ bs = cs.flatMap Cell.bytes
  | .syms ids, bs => ids.length = len ∧ bs = ids.flatMap (leBytes (2 ^ (attrs &&& raySymWMask).toNat))
  | .strs descs pool, bs =>
    descs.length = len ∧ (∀ d ∈ descs, d.Ok pool) ∧ ∃ hdr :
      Bytes, hdr.length = 32 ∧ bs = descs.flatMap Desc.bytes ++ hdr ++ pool

lemma gives_readBody (tag : UInt8) : Gives (readBody tag attrs len) (Body.Spelled attrs len) := by
  refine Gives.ite (fun _ => ?_) fun _ => Gives.ite (fun _ => ?_) fun _ => ?_
  · refine (gives_many_enc (gives_word _) len).bind fun ids bs hids => Gives.pure ?_
    rwa [append_nil]
  · refine (gives_many_enc gives_desc len).bind fun descs bs hdescs => ?_
    refine (gives_take _ 32).bind fun hdr cs hhdr => Gives.ite (fun _ => Gives.fail _) fun _ => ?_
    refine (gives_take _ _).bind fun pool ds hpool => Gives.ite (fun hok => Gives.pure ?_) fun _ => Gives.fail _
    obtain ⟨hlen, rfl⟩ := hdescs
    obtain ⟨rfl, hwidth⟩ := hhdr
    obtain ⟨rfl, -⟩ := hpool
    exact ⟨hlen, hok, hdr, hwidth, by rw [append_nil, append_assoc]⟩
  · cases fixTy? tag with
    | none => exact Gives.fail _
    | some t =>
      refine (gives_many_enc (gives_cell t) len).bind fun cs bs hcs => Gives.pure ?_
      rwa [append_nil]

lemma colValidateMapped_spelled {md : Mapped} (h : colValidateMapped file = .ok md) :
    ∃ len bs, (file.drop 24).take 8 = leBytes 8 len ∧ bs <+: file.drop 32 ∧ md.rc = leNat ((file.drop 20).take 4) ∧
      md.body.Spelled md.attrs len bs := by
  rw [colValidateMapped] at h
  split_ifs at h with hnil hmagic hshort
  dsimp only at h
  split_ifs at h with htag hneg hover
  obtain ⟨q, hq, hpure⟩ := bind_eq_ok' h
  cases hpure
  obtain ⟨bs, hbs, hbody⟩ := gives_readBody _ _ _ _ hq
  obtain ⟨hnat, -⟩ := leInt_nonneg ((file.drop 24).take 8) (not_lt.mp hneg)
  refine ⟨(leInt ((file.drop 24).take 8)).toNat, bs, ?_, ⟨_, hbs.symm⟩, rfl, hbody⟩
  have hwidth : ((file.drop 24).take 8).length = 8 := by
    rw [length_take, length_drop]
    omega
  rw [hnat, Int.toNat_natCast]
  exact (hwidth ▸ leBytes_leNat ((file.drop 24).take 8)).symm

lemma Obj.Spelled.part {o x : Obj} {bs : Bytes} (h : o.Spelled bs) (hx : Part x o) : x = o := by
  cases hx with
  | self => rfl
  | elem _ _ => exact h.elim
  | col _ _ => exact h.elim
  | keys _ => exact h.elim
  | vals _ => exact h.elim

end

section

variable {names : List Bytes} {home : SymHome} {file : Bytes} {o : Obj} {bs : Bytes}

def Nested (file : Bytes) : Prop := file.take 4 = listMagic ∨ file.take 4 = tableMagic

inductive Fits (names : List Bytes) (file : Bytes) : Obj → Prop
  | strList (ss : List Bytes) (h : leBytes 8 ss.length ++ ss.flatMap counted <+: file.drop 4) :
    file.take 4 = strListMagic → Fits names file (.list (ss.map fun s => .atom (.str s)))
  | strVec (v : StrVec) (tag attrs : UInt8) (ss : List Bytes) (rest : Bytes)
    (hv : v.descs.mapM (Desc.str v.pool) = some ss)
    (h : file.drop 4 = tag :: attrs :: (Serde.wireLen ss.length ++ (Serde.serStrs ss ++ rest))) :
    file.take 4 = strVecMagic → Fits names file (.strVec v)
  | nested (o : Obj) (bs : Bytes) (ho : Laid names o bs) (h : bs <+: file.drop 4) : Nested file → Fits names file o
  | flat (o : Obj) (bs : Bytes) (ho : o.Spelled bs) (hlen : (file.drop 24).take 8 = leBytes 8 o.len)
    (h : bs <+: file.drop 32) :
    ¬ Nested file → Fits names file o

structure WellFormed (names : List Bytes) (file : Bytes) (o : Obj) : Prop where
  fits : Fits names file o
  persisted : ∀ x, Part x o → x.Persisted
  symbols : ∀ x, Part x o → x.SymbolsResolve
  strings : ∀ x, Part x o → x.StringsInside
  columns : ∀ x, Part x o → x.ColumnsEven
  pairs : ∀ x, Part x o → x.PairsEven
  atoms : ∀ x, Part x o → x.AtomsInline

def Vouched (names : List Bytes) (mapped : Bool) (file : Bytes) : SymHome → Prop
  | .process => names = []
  | .symfile none => False
  | .symfile (some dom) => dom = [] ∨ mapped = true ∧ 0 < leNat ((file.drop 20).take 4)

structure Accepted (names : List Bytes) (vouched : Prop) (file : Bytes) (o : Obj) : Prop where
  fits : Fits names file o
  persisted : ∀ x, Part x o → x.Persisted
  symbols : Nested file ∨ ¬ vouched → ∀ x, Part x o → x.SymbolsResolve
  strings : ¬ Nested file → ∀ x, Part x o → x.StringsInside
  columns : ¬ Nested file → ∀ x, Part x o → x.ColumnsEven
  pairs : ¬ Nested file → ∀ x, Part x o → x.PairsEven
  atoms : ¬ Nested file → ∀ x, Part x o → x.AtomsInline

lemma symBoundsOk_resolve {ids : List ℕ} {n m : ℕ} (h : symBoundsOk ids n = true) (hn : n ≠ 0) (hle : n ≤ m) :
    ∀ i ∈ ids, i < m := by
  intro i hi
  have hlt := (Bool.or_eq_true_iff.mp h).resolve_left (by simp [hn])
  have := all_eq_true.mp hlt i hi
  simp only [Bool.and_eq_true, decide_eq_true_eq] at this
  omega

namespace Raw

lemma colAttach_syms {scan : Bool} {cm : ColMapped} {ids : List ℕ}
    (h : colAttach names home scan cm (.syms ids) = .ok o)
    (hrc : cm.savedSymCount = leNat ((file.drop 20).take 4)) :
    ∃ dom runtime, o = symVecOf (cm.attrs &&& colDiskAttrsMask) dom runtime ids ∧
      (¬ Vouched names (!scan) file home → ∀ i ∈ ids, i < dom.length) := by
  dsimp only [colAttach] at h
  cases home with
  | process =>
    dsimp only at h
    split_ifs at h with hcount hbound
    cases h
    refine ⟨names, true, rfl, fun hvouched => ?_⟩
    exact symBoundsOk_resolve (Bool.eq_true_of_not_eq_false hbound)
      (fun h0 => hvouched (length_eq_zero_iff.mp h0)) le_rfl
  | symfile dom? =>
    cases dom? with
    | none => cases h
    | some dom =>
      dsimp only at h
      split_ifs at h with hcount hbound
      cases h
      refine ⟨dom, false, rfl, fun hvouched => ?_⟩
      have hne : dom ≠ [] := fun h0 => hvouched (.inl h0)
      have hscan : scan = true ∨ cm.savedSymCount = 0 := by
        rw [hrc]
        cases scan with
        | true => exact .inl rfl
        | false => exact .inr (Nat.eq_zero_of_not_pos fun hpos => hvouched (.inr ⟨rfl, hpos⟩))
      have hok : symBoundsOk ids (symBound dom) = true := Bool.eq_true_of_not_eq_false fun hf => hbound ⟨hscan, hf⟩
      have hpos : 0 < dom.length := length_pos_iff.mpr hne
      exact symBoundsOk_resolve hok (by rw [symBound]; omega) (min_le_left _ _)

lemma colAttach_accepted {scan : Bool} {cm : ColMapped} {body : Body} {len : ℕ}
    (h : colAttach names home scan cm body = .ok o)
    (hbody : body.Spelled cm.attrs len bs) (hrc : cm.savedSymCount = leNat ((file.drop 20).take 4)) :
    o.Spelled bs ∧ o.len = len ∧ o.Persisted ∧ o.StringsInside ∧
    (¬ Vouched names (!scan) file home → o.SymbolsResolve) := by
  cases body with
  | fixed t cs =>
    cases h
    exact ⟨hbody.2, hbody.1, persisted_mask _, trivial, fun _ => trivial⟩
  | strs descs pool =>
    cases h
    obtain ⟨hlen, hok, hbs⟩ := hbody
    exact ⟨hbs, hlen, persisted_mask _, fun d hd => (hok d hd).imp_right And.left, fun _ => trivial⟩
  | syms ids =>
    obtain ⟨dom, runtime, rfl, hresolve⟩ := colAttach_syms h hrc
    obtain ⟨hlen, hbs⟩ := hbody
    refine ⟨?_, hlen, persisted_mask _, trivial, fun hvouched pos hpos =>
      hresolve hvouched pos (mem_of_mem_take hpos)⟩
    change bs = ids.flatMap (leBytes (2 ^ (cm.attrs &&& colDiskAttrsMask &&& raySymWMask).toNat))
    rw [mask_width]
    exact hbs

lemma accepted_flat {scan : Bool} {cm : ColMapped} {md : Mapped} (hflat : ¬ Nested file)
    (hmd : Store.colValidateMapped file = .ok md)
    (hsees : Sees file cm md) (h : colAttach names home scan cm md.body = .ok o) :
    Accepted names (Vouched names (!scan) file home) file o := by
  obtain ⟨len, bs, hlen, hbs, hrc, hbody⟩ := colValidateMapped_spelled hmd
  rw [← hsees.attrs] at hbody
  obtain ⟨hspelled, rfl, hpersisted, hstrings, hsymbols⟩ := colAttach_accepted h hbody (hsees.rc.trans hrc)
  have hpart : ∀ {P : Obj → Prop}, P o → ∀ x, Part x o → P x := fun hP x hx => hspelled.part hx ▸ hP
  refine ⟨.flat o bs hspelled hlen hbs hflat, hpart hpersisted, fun hv => hpart (hsymbols (hv.resolve_left hflat)),
    fun _ => hpart hstrings, fun _ => hpart ?_, fun _ => hpart ?_, fun _ => hpart ?_⟩
  all_goals
    cases o with
    | vec _ _ => trivial
    | symVec _ => trivial
    | strVec _ => trivial
    | _ => exact hspelled.elim

lemma colValidateMapped_flat {md : Mapped} (h : Store.colValidateMapped file = .ok md) : ¬ Nested file := by
  intro hnested
  have hmem : file.take 4 ∈ extendedMagics := by
    obtain hmagic | hmagic := hnested <;> rw [hmagic] <;> decide
  have hfour : 4 ≤ file.length := by
    have hlen : (file.take 4).length = 4 := by
      obtain hmagic | hmagic := hnested <;> rw [hmagic] <;> rfl
    rw [length_take] at hlen
    omega
  rw [Store.colValidateMapped] at h
  split_ifs at h with hnil hmagic
  exact hmagic ⟨hfour, hmem⟩

def NamesBuiltin (file : Bytes) : Prop :=
  file.take 4 = strVecMagic ∧ ∃ b rest k, file.drop 4 = b :: rest ∧ Serde.Tag.ofByte b = .fn k

variable {p : Process}

lemma scanned_eq {x : Rs Obj} {k : ℕ} (h : Library.Cursors.Follows k x r) (hfour : 4 ≤ file.length)
    (hk : file.length - 4 < k) :
    scanned x file = some (((r (file.drop 4)).map Prod.fst).mapError .col) := by
  have hrun := h.run hfour hk
  rw [scanned]
  cases hx : x.on file ⟨4, file.length - 4⟩ with
  | none =>
    rw [hx] at hrun
    cases hrun
  | some y =>
    rw [hx] at hrun
    rw [map_some, ← some.inj hrun]

lemma scanned_ok {x : Rs Obj} {k : ℕ} {P : Obj → Bytes → Prop} (h : Library.Cursors.Follows k x r)
    (hgives : Gives r P) (hfour : 4 ≤ file.length) (hk : file.length - 4 < k) :
    ∃ y, scanned x file = some y ∧ ∀ o, y = .ok o → ∃ bs, bs <+: file.drop 4 ∧ P o bs := by
  refine ⟨_, scanned_eq h hfour hk, fun o ho => ?_⟩
  cases hr : r (file.drop 4) with
  | error e =>
    rw [hr] at ho
    cases ho
  | ok q =>
    rw [hr] at ho
    cases ho
    obtain ⟨bs, hbs, hP⟩ := hgives _ _ _ hr
    exact ⟨bs, ⟨_, hbs.symm⟩, hP⟩

lemma strVec_accepted {v : Serde.Vec Bytes} {w : StrVec} {b : UInt8} {rest : Bytes}
    (hmagic : file.take 4 = strVecMagic)
    (hfile : file.drop 4 = b :: rest) (hparse : (Serde.parseStrVec rest).1 = .strVec v)
    (hw : v.cells.foldlM Splay.rayStrVecAppend Splay.emptyStrs = some w) {vouched : Prop} :
    Accepted names vouched file (.strVec { w with attrs := v.attrs }) := by
  obtain ⟨a, cells, rest', -, -, -, rfl, hvec⟩ := Serde.parseStrVec_ok (by rw [hparse]; rfl)
  rw [hvec] at hparse
  cases hparse
  have hholds := (⟨.nil, by decide, rfl⟩ : Splay.HoldsStrs Splay.emptyStrs []).foldlM hw
  have hself : ∀ {P : Obj → Prop}, P (.strVec { w with attrs := Serde.keepNulls a }) →
      ∀ x, Part x (.strVec { w with attrs := Serde.keepNulls a }) → P x := by
    rintro P hP x (_ | _)
    exact hP
  have hmask : Serde.keepNulls a &&& colDiskAttrsMask = Serde.keepNulls a := by
    have hbit : Serde.rayAttrHasNulls &&& colDiskAttrsMask = Serde.rayAttrHasNulls := by decide
    rw [Serde.keepNulls, UInt8.and_assoc, hbit]
  refine ⟨.strVec _ b a cells rest' hholds.mapM hfile hmagic, hself hmask, fun _ => hself trivial, fun _ =>
    hself fun d hd => ?_, fun _ => hself trivial, fun _ => hself trivial, fun _ => hself trivial⟩
  obtain ⟨s, hok, -⟩ := exists_of_forall₂ hholds.strs hd
  exact hok.imp_right And.left

lemma colLoadStrVec_ok (hlen : file.length < 2 ^ 63) (hmagic : file.take 4 = strVecMagic) :
    ∃ y, colLoadStrVec p (file.drop 4) = some y ∧
    ∀ o, y = .ok o → o ≠ .nullPtr → ¬ NamesBuiltin file → ∀ vouched, Accepted names vouched file o := by
  obtain ⟨log, hde, -⟩ := Serde.rayDeRaw_parse p.runtime (file.drop 4) (Nat.zero_le Serde.rayDeMaxDepth)
    (Nat.sub_le _ 0)
  rw [Serde.DeState.start] at hde
  rw [colLoadStrVec, if_neg (by rw [length_drop]; omega), hde, map_some]
  refine ⟨_, rfl, fun o ho hnull hname vouched => ?_⟩
  dsimp only at ho
  cases hparse : (Serde.parse p.runtime (Serde.rayDeMaxDepth - 0) (file.drop 4)).1 with
  | strVec v =>
    rw [hparse] at ho
    dsimp only at ho
    split at ho
    · rename_i w hw
      cases ho
      cases hfile : file.drop 4 with
      | nil =>
        rw [hfile] at hparse
        cases hparse
      | cons b rest =>
        rw [hfile] at hparse
        rw [Serde.parse_strVec (fun k hk => hname ⟨hmagic, b, rest, k, hfile, hk⟩) (by rw [hparse]; rfl)] at hparse
        exact strVec_accepted hmagic hfile hparse hw
    · cases ho
  | nullPtr =>
    rw [hparse] at ho
    cases ho
    exact absurd rfl hnull
  | _ =>
    rw [hparse] at ho
    cases ho

lemma laid_accepted {vouched : Prop} (hnested : Nested file) (hlaid : Laid names o bs) (hbs : bs <+: file.drop 4) :
    Accepted names vouched file o :=
  ⟨.nested o bs hlaid hbs hnested, fun x hx => (hlaid.sound x hx).1, fun _ x hx => (hlaid.sound x hx).2,
    fun h => absurd hnested h, fun h => absurd hnested h, fun h => absurd hnested h, fun h => absurd hnested h⟩

lemma strList_accepted {vouched : Prop} {ss : List Bytes} (hmagic : file.take 4 = strListMagic)
    (hbs : leBytes 8 ss.length ++ ss.flatMap counted <+: file.drop 4) :
    Accepted names vouched file (.list (ss.map fun s => .atom (.str s))) := by
  have hpart : ∀ {P : Obj → Prop}, (∀ es, P (.list es)) → (∀ s, P (.atom (.str s))) →
      ∀ x, Part x (.list (ss.map fun s => .atom (.str s))) → P x := by
    rintro P hlist hstr x (_ | ⟨hmem, hx⟩)
    · exact hlist _
    · obtain ⟨s, -, rfl⟩ := mem_map.mp hmem
      cases hx
      exact hstr s
  exact ⟨.strList ss hbs hmagic, hpart (fun _ => persisted_zero rfl) fun _ => persisted_zero rfl, fun _ =>
    hpart (fun _ => trivial) fun _ => trivial,
    fun _ => hpart (fun _ => trivial) fun _ => trivial, fun _ => hpart (fun _ => trivial) fun _ => trivial,
    fun _ => hpart (fun _ => trivial) fun _ => trivial, fun _ => hpart (fun _ => trivial) fun _ => trivial⟩

lemma colCopy_accepted (p : Process) (home : SymHome) (file : Bytes) : ∃ y, (colCopy p home file).run = some y ∧
    ∀ o, y = .ok o → Accepted p.names (Vouched p.names false file home) file o := by
  rw [colCopy]
  obtain ⟨e, hx, -⟩ | ⟨cm, md, hx, hmd, hsees⟩ := colValidateMapped_alike file
  · rw [hx]
    exact ⟨.error e, rfl, fun o ho => by cases ho⟩
  · rw [hx, pure_bind, hsees.body, pure_bind]
    exact ⟨colAttach p.names home true cm md.body, rfl, fun o ho =>
      accepted_flat (colValidateMapped_flat hmd) hmd hsees ho⟩

lemma rayIndexInlineMap_inside {region : ℕ} (h : region + 32 + rayIndexSize ≤ file.length) :
    ∃ r, rayIndexInlineMap file region = pure r := by
  rw [rayIndexSize] at h
  rw [rayIndexInlineMap, rd_eq (by omega), rd_eq (by omega), pure_bind, pure_bind]
  split_ifs
  · exact ⟨_, rfl⟩
  · rw [rd_eq (by omega), rd_eq (by rw [rayIndexSize]; omega), pure_bind, pure_bind]
    exact ⟨_, rfl⟩

lemma colMmapImpl_accepted (p : Process) (home : SymHome) (file : Bytes) :
    ∃ y, (colMmapImpl p home file).run = some y ∧
    ∀ v, y = .ok v → Accepted p.names (Vouched p.names true file home) file v.value := by
  rw [colMmapImpl]
  obtain ⟨e, hx, -⟩ | ⟨cm, md, hx, hmd, hsees⟩ := colValidateMapped_alike file
  · rw [hx]
    exact ⟨.error e, rfl, fun v hv => by cases hv⟩
  · rw [hx, pure_bind]
    split_ifs with htail hindex
    · exact ⟨.error .io, rfl, fun v hv => by cases hv⟩
    · obtain ⟨r, hr⟩ := rayIndexInlineMap_inside (hsees.index hindex)
      rw [hsees.body, pure_bind, hr]
      cases hattach : colAttach p.names home false cm md.body with
      | error e => exact ⟨.error e, rfl, fun v hv => by cases hv⟩
      | ok o =>
        refine ⟨.ok ⟨o, rayIndexAttachBuilt cm.tag r⟩, rfl, fun v hv => ?_⟩
        cases hv
        exact accepted_flat (colValidateMapped_flat hmd) hmd hsees hattach
    · rw [hsees.body, pure_bind]
      cases hattach : colAttach p.names home false cm md.body with
      | error e => exact ⟨.error e, rfl, fun v hv => by cases hv⟩
      | ok o =>
        refine ⟨.ok ⟨o, false⟩, rfl, fun v hv => ?_⟩
        cases hv
        exact accepted_flat (colValidateMapped_flat hmd) hmd hsees hattach

lemma colLoadImpl_accepted (p : Process) (home : SymHome) (hlen : file.length < 2 ^ 63) :
    ∃ y, colLoadImpl p home file = some y ∧
    ∀ o, y = .ok o → o ≠ .nullPtr → ¬ NamesBuiltin file →
      Accepted p.names (Vouched p.names false file home) file o := by
  obtain ⟨y, hcopy, haccepted⟩ := colCopy_accepted p home file
  have hflat : ∃ z, (colCopy p home file).run.map (Except.mapError Failure.col) = some z ∧
      ∀ o : Obj, z = .ok o → Accepted p.names (Vouched p.names false file home) file o := by
    rw [hcopy]
    refine ⟨_, rfl, fun o ho => ?_⟩
    cases y with
    | error e => cases ho
    | ok o' =>
      cases ho
      exact haccepted o rfl
  rw [colLoadImpl]
  by_cases hnil : file = []
  · rw [if_pos hnil]
    exact ⟨_, rfl, fun o ho => by cases ho⟩
  rw [if_neg hnil]
  by_cases hfour : 4 ≤ file.length
  · rw [if_pos hfour, rd_eq (by omega), drop_zero]
    change ∃ y, (if file.take 4 = strListMagic then scanned colLoadStrList file
      else if file.take 4 = strVecMagic then colLoadStrVec p (file.drop 4)
      else if file.take 4 = listMagic ∨
        file.take 4 = tableMagic then scanned (colReadRecursive p.names file.length) file
      else (colCopy p home file).run.map (Except.mapError Failure.col)) = some y ∧ _
    split_ifs with hlist hvec hnested
    · obtain ⟨z, hz, hgives⟩ := scanned_ok
        (follows_colLoadStrList (k := 2 ^ 64)) gives_colLoadStrList hfour (by omega)
      refine ⟨z, hz, fun o ho _ _ => ?_⟩
      obtain ⟨bs, hbs, ss, rfl, rfl⟩ := hgives o ho
      exact strList_accepted hlist hbs
    · obtain ⟨z, hz, hstrs⟩ := colLoadStrVec_ok hlen hvec
      exact ⟨z, hz, fun o ho hnull hname => hstrs o ho hnull hname _⟩
    · have hfollows : Library.Cursors.Follows file.length (colReadRecursive p.names file.length)
          (Store.colReadRecursive p.names file.length) :=
        follows_colReadRecursive file.length (by omega)
      obtain ⟨z, hz, hgives⟩ := scanned_ok hfollows (gives_colReadRecursive file.length) hfour (by omega)
      refine ⟨z, hz, fun o ho _ _ => ?_⟩
      obtain ⟨bs, hbs, hlaid⟩ := hgives o ho
      exact laid_accepted hnested hlaid hbs
    · obtain ⟨z, hz, hok⟩ := hflat
      exact ⟨z, hz, fun o ho _ _ => hok o ho⟩
  · rw [if_neg hfour]
    obtain ⟨z, hz, hok⟩ := hflat
    exact ⟨z, hz, fun o ho _ _ => hok o ho⟩

abbrev File := {bs : Bytes // bs.length < 2 ^ 63}

/-- Both loaders stay inside the file, and what they accept is sound. -/
theorem loaders_inside (p : Process) (home : SymHome) (file : File) :
    (∃ y, colLoadImpl p home file.val = some y ∧ ∀ o, y = .ok o → o ≠ .nullPtr → ¬ NamesBuiltin file.val →
      Accepted p.names (Vouched p.names false file.val home) file.val o) ∧
    ∃ y, (colMmapImpl p home file.val).run = some y ∧ ∀ v, y = .ok v →
      Accepted p.names (Vouched p.names true file.val home) file.val v.value :=
  ⟨colLoadImpl_accepted p home file.property, colMmapImpl_accepted p home file.val⟩

def strayFile : Bytes := List.replicate 17 0 ++
  [rayColFormatMajor, raySymTag, 0, 2, 0, 0, 0, 1, 0, 0, 0, 0, 0, 0, 0, 5]

/-- A mapped symbol that its dictionary does not have. -/
theorem mmap_stray_symbol : ∃ v, (colMmapImpl ⟨[], Serde.bareRuntime⟩ (.symfile (some [[], [97]])) strayFile).run =
    some (.ok v) ∧ ¬ WellFormed [] strayFile v.value := by
  refine ⟨⟨symVecOf 0 [[], [97]] false [5], false⟩, rfl, fun h => ?_⟩
  exact absurd (h.symbols _ .self 5 (by decide)) (by decide)

end Raw

end

end Rayforce.Store
