import Rayforce.Store.Mapping
import Rayforce.Store.Truncated

namespace Rayforce.Store.Raw

open Library.Words Library.Readers Library.Cursors
open Rayforce.Serde (FixTy Cell raySymWMask)

variable {offset poolSize : ℕ} {α : Type} {tag attrs : UInt8} {len : ℕ} {size : ℕ}

section

variable {k : ℕ} {names : List Bytes}

lemma byte_eq : Store.byte = (take .corrupt 1 >>= fun bs => pure (bs.headD 0)) := by
  funext p
  cases p <;> rfl

lemma follows_byte : Follows k byte Store.byte := by
  rw [byte_eq]
  exact (follows_fetch _ 1).bind fun _ => Follows.pure _

lemma follows_word (n : ℕ) : Follows k (word n) (Store.word n) := (follows_fetch _ n).bind fun _ => Follows.pure _

lemma follows_count : Follows k count Store.count :=
    (follows_fetch _ 8).bind fun _ => (Follows.stop _).ite (Follows.pure _)

lemma follows_roomFor (n : ℕ) : Follows k (roomFor n) (Store.roomFor n) := by
  intro m c hc _
  have hlen : (m.drop c.pos).length = c.left := by
    rw [List.length_drop]
    omega
  have hon : (roomFor n).on m c = (if c.left / 4 < n then stop .corrupt else pure () : Rs Unit).on m c := rfl
  rw [hon, Store.roomFor, hlen]
  by_cases h : n ≤ c.left / 4
  · rw [if_neg (not_lt.mpr h), if_pos h]
    exact .ok () c hc le_rfl
  · rw [if_pos (not_le.mp h), if_neg h]
    exact .error _

lemma follows_countedStr : Follows k countedStr Store.countedStr :=
    (follows_word 4).bind fun n => follows_fetch _ n

lemma follows_cells (hsize : 0 < size) (f : (bs : Bytes) → bs.length = size → α) (n : ℕ) (hk : k ≤ 2 ^ 64) :
    Follows k (cells size f n) (many (piece .corrupt size f) n) := by
  rw [cells]
  split_ifs with hover
  · intro m c hc hlt
    have hmore : 2 ^ 64 - 1 < n * size := (Nat.div_lt_iff_lt_mul hsize).mp hover
    rw [many_piece, dif_neg (by rw [List.length_drop]; omega)]
    exact .error _
  · exact follows_fetchAll _ n

lemma follows_readAtom (tag : UInt8) : Follows k (readAtom tag) (Store.readAtom tag) := by
  refine Follows.ite ?_ (Follows.ite ?_ ?_)
  · exact follows_countedStr.bind fun s => Follows.pure _
  · exact follows_countedStr.bind fun s => Follows.pure _
  · exact (follows_fetch _ 8).bind fun slot => Follows.pure _

lemma follows_readSyms : Follows k (readSyms names) (Store.readSyms names) :=
  follows_count.bind fun n => (follows_roomFor n).bind fun _ => (follows_countedStr.times n).bind fun _ =>
    Follows.pure _

lemma follows_readVec (t : FixTy) (hk : k ≤ 2 ^ 64) : Follows k (readVec t) (Store.readVec t) :=
  follows_count.bind fun n => (follows_cells (size_pos t) Cell.mk n hk).bind fun _ => Follows.pure _

lemma follows_readStrs (hk : k ≤ 2 ^ 64) : Follows k readStrs Store.readStrs := by
  refine follows_count.bind fun n => follows_byte.bind fun attrs => ?_
  refine (follows_cells (by norm_num) Desc.mk n hk).bind fun descs => (follows_word 8).bind fun size => ?_
  exact (Follows.stop _).ite ((follows_fetch _ size).bind fun pool => Follows.pure _)

lemma take_add {β : Type} (e : Err) (a b : ℕ) (f : Bytes → Rd β) :
    (take e (a + b) >>= fun bs => f (bs.take a)) = (take e a >>= fun x => take e b >>= fun _ => f x) := by
  funext p
  rw [bind_ok, bind_ok, take, take]
  by_cases ha : a ≤ p.length
  · rw [if_pos ha]
    change _ = (take e b >>= fun _ => f (p.take a)) (p.drop a)
    rw [bind_ok, take, List.length_drop]
    by_cases hb : b ≤ p.length - a
    · rw [if_pos (by omega), if_pos hb, List.drop_drop]
      change f ((p.take (a + b)).take a) _ = _
      rw [List.take_take, min_eq_left (by omega)]
      rfl
    · rw [if_neg (by omega), if_neg hb]
      rfl
  · rw [if_neg (by omega), if_neg ha]
    rfl

section

variable {child : Rs Obj} {child' : Rd Obj} (h : Follows k child child')

include h

lemma follows_readList : Follows k (readList child) (Store.readList child') :=
  follows_count.bind fun n => (h.times n).bind fun _ => Follows.pure _

lemma follows_readTable : Follows k (readTable child) (Store.readTable child') := by
  rw [Store.readTable, ← take_add .corrupt 8 8]
  refine (follows_fetch _ 16).bind fun counts => (Follows.stop _).ite ?_
  have hcol : Follows k (readCol child) (Store.readCol child') :=
    (follows_word 8).bind fun i => h.bind fun c => Follows.pure _
  exact (hcol.times _).bind fun cols => Follows.pure _

lemma follows_readDict : Follows k (readDict child) (Store.readDict child') :=
    h.bind fun _ => h.bind fun _ => Follows.pure _

lemma follows_readTagged (hk : k ≤ 2 ^ 64) (tag : UInt8) :
    Follows k (readTagged names child tag) (Store.readTagged names child' tag) := by
  refine Follows.ite (follows_readAtom tag) (Follows.ite follows_readSyms (Follows.ite (follows_readStrs hk) ?_))
  refine Follows.ite (follows_readList h) (Follows.ite (follows_readTable h) (Follows.ite (follows_readDict h) ?_))
  cases fixTy? tag with
  | none => exact Follows.stop _
  | some t => exact follows_readVec t hk

end

lemma follows_colReadRecursive (fuel : ℕ) (hf : fuel ≤ 2 ^ 64) :
    Follows fuel (colReadRecursive names fuel) (Store.colReadRecursive names fuel) := by
  induction fuel with
  | zero => exact fun m c hc hlt => absurd hlt (Nat.not_lt_zero _)
  | succ fuel ih =>
    rw [colReadRecursive, Store.colReadRecursive, byte_eq, byte]
    simp only [bind_assoc, pure_bind]
    exact Follows.fetch_bind one_pos fun bs => follows_readTagged (ih (by omega)) (by omega) _

lemma follows_colLoadStrList : Follows k colLoadStrList Store.colLoadStrList :=
  follows_count.bind fun n => (follows_roomFor n).bind fun _ => (follows_countedStr.times n).bind fun _ =>
    Follows.pure _

end

section

variable {m : Bytes} {p n : ℕ}

lemma rd_eq (h : p + n ≤ m.length) : rd m p n = pure ((m.drop p).take n) := if_pos h

lemma rdAll_eq {f : (bs : Bytes) → bs.length = size → α} (h : p + n * size ≤ m.length) :
    rdAll m p size f n = pure (pieces size f n ((m.drop p).take (n * size))
      (by rw [List.length_take, List.length_drop]; omega)) := dif_pos h

lemma headD_slice (m : Bytes) (p : ℕ) : ((m.drop p).take 1).headD 0 = m.getD p 0 := by
  rw [List.headD_eq_head?_getD, List.head?_take, List.head?_drop, List.getD_eq_getElem?_getD]
  rfl

def descAt (m : Bytes) (p : ℕ) (h : p + 16 ≤ m.length) : Desc :=
  ⟨(m.drop p).take 16, by rw [List.length_take, List.length_drop]; omega⟩

def descsAt (m : Bytes) (p n : ℕ) (h : p + n * 16 ≤ m.length) : List Desc :=
  pieces 16 Desc.mk n ((m.drop p).take (n * 16)) (by rw [List.length_take, List.length_drop]; omega)

def poolAt (m : Bytes) (offset poolSize : ℕ) : Bytes := (m.drop (offset + 32)).take poolSize

lemma checkDesc_eq (hp : p + 16 ≤ m.length) (hpool : offset + 32 + poolSize ≤ m.length) :
    checkDesc m offset poolSize p =
      if (descAt m p hp).Ok (poolAt m offset poolSize) then pure () else throw .corrupt := by
  have hlen : (poolAt m offset poolSize).length = poolSize := by
    rw [poolAt, List.length_take, List.length_drop]
    omega
  rw [checkDesc, rd_eq hp, pure_bind]
  change (if (descAt m p hp).len ≤ rayStrInlineMax then pure () else
    if poolSize = 0 ∨ poolSize < (descAt m p hp).poolOff ∨ poolSize - (descAt m p hp).poolOff <
      (descAt m p hp).len then throw .corrupt
    else rd m (offset + 32 + (descAt m p hp).poolOff) 4 >>= fun s =>
      if (descAt m p hp).head4 ≠ s then throw .corrupt else pure ()) = _
  generalize descAt m p hp = d
  by_cases hin : d.len ≤ rayStrInlineMax
  · rw [if_pos hin, if_pos (.inl hin)]
  · rw [if_neg hin]
    by_cases hroom : d.poolOff + d.len ≤ poolSize
    · rw [rayStrInlineMax] at hin
      have hslice : ((poolAt m offset poolSize).drop d.poolOff).take 4 =
          (m.drop (offset + 32 + d.poolOff)).take 4 := by
        rw [poolAt, List.drop_take, List.take_take, List.drop_drop, min_eq_left (by omega)]
      have hok : d.Ok (poolAt m offset poolSize) ↔ d.head4 = (m.drop (offset + 32 + d.poolOff)).take 4 := by
        rw [Desc.Ok, hlen, hslice, rayStrInlineMax]
        exact ⟨fun h => (h.resolve_left hin).2, fun h => .inr ⟨hroom, h⟩⟩
      rw [if_neg (by omega), rd_eq (by omega), pure_bind, if_congr hok rfl rfl, ite_not]
    · have hnot : ¬ d.Ok (poolAt m offset poolSize) := by
        rintro (h | h)
        · exact hin h
        · exact hroom (hlen ▸ h.1)
      rw [if_pos (by omega), if_neg hnot]

lemma checkDescs_eq (hpool : offset + 32 + poolSize ≤ m.length) (hp : p + n * 16 ≤ m.length) :
    checkDescs m offset poolSize p n =
      if ∀ d ∈ descsAt m p n hp, d.Ok (poolAt m offset poolSize) then pure () else throw .corrupt := by
  induction n generalizing p with
  | zero => rfl
  | succ n ih =>
    have hone : p + 16 ≤ m.length := by omega
    have hhead : ((m.drop p).take ((n + 1) * 16)).take 16 = (m.drop p).take 16 := by
      rw [List.take_take, min_eq_left (by omega)]
    have htail : ((m.drop p).take ((n + 1) * 16)).drop 16 = (m.drop (p + 16)).take (n * 16) := by
      rw [List.drop_take, List.drop_drop, Nat.succ_mul, Nat.add_sub_cancel]
    have hcons : descsAt m p (n + 1) hp = descAt m p hone :: descsAt m (p + 16) n (by omega) := by
      simp only [descsAt, descAt, pieces, hhead, pieces_congr htail]
    rw [checkDescs, checkDesc_eq hone hpool, ih (by omega)]
    simp only [hcons, List.forall_mem_cons]
    by_cases hfirst : (descAt m p hone).Ok (poolAt m offset poolSize)
    · rw [if_pos hfirst, pure_bind]
      exact if_congr ⟨fun h => ⟨hfirst, h⟩, And.right⟩ rfl rfl
    · have hnot : ¬ ((descAt m p hone).Ok (poolAt m offset poolSize) ∧ ∀ d ∈ descsAt m (p + 16) n (by omega),
          d.Ok (poolAt m offset poolSize)) :=
        fun h => hfirst h.1
      rw [if_neg hfirst, if_neg hnot]
      rfl

def poolSizeAt (m : Bytes) (offset : ℕ) : ℤ := leInt ((m.drop (offset + 24)).take 8)

lemma colValidateStrRegion_eq (hdata : 32 + len * 16 ≤ m.length) : colValidateStrRegion m len (len * 16) =
    if m.length - (32 + len * 16) < 32 then throw .corrupt
    else if m.getD (32 + len * 16 + 18) 0 ≠ 2 ∨ poolSizeAt m (32 + len * 16) < 0 then throw .corrupt
    else if m.length - (32 + len * 16) - 32 < (poolSizeAt m (32 + len * 16)).toNat then throw .corrupt
    else if ∀ d ∈ descsAt m 32 len hdata, d.Ok (poolAt m (32 + len * 16) (poolSizeAt m (32 + len * 16)).toNat) then
      pure (32 + len * 16, (poolSizeAt m (32 + len * 16)).toNat) else throw .corrupt := by
  generalize hoff : 32 + len * 16 = offset
  rw [colValidateStrRegion, hoff]
  by_cases hshort : m.length - offset < 32
  · rw [if_pos (.inr hshort), if_pos hshort]
  · rw [if_neg (by omega), if_neg hshort, rd_eq (by omega), rd_eq (by omega), pure_bind, pure_bind, headD_slice]
    change (if m.getD (offset + 18) 0 ≠ 2 ∨ poolSizeAt m offset < 0 then throw .corrupt
      else if m.length - offset - 32 < (poolSizeAt m offset).toNat then throw .corrupt
      else checkDescs m offset (poolSizeAt m offset).toNat 32 len >>= fun _ =>
        pure (offset, (poolSizeAt m offset).toNat)) = _
    split_ifs with htype hsize hall
    · rfl
    · rfl
    · rw [checkDescs_eq (by omega) hdata, if_pos hall]
      rfl
    · rw [checkDescs_eq (by omega) hdata, if_neg hall]
      rfl

lemma readBody_strs_eq (attrs : UInt8) (hdata : 32 + len * 16 ≤ m.length) :
    readBody rayStrTag attrs len (m.drop 32) =
    if m.length - (32 + len * 16) < 32 then .error .corrupt
    else if m.getD (32 + len * 16 + 18) 0 ≠ 2 ∨ poolSizeAt m (32 + len * 16) < 0 then .error .corrupt
    else if m.length - (32 + len * 16) - 32 < (poolSizeAt m (32 + len * 16)).toNat then .error .corrupt
    else if ∀ d ∈ descsAt m 32 len hdata, d.Ok (poolAt m (32 + len * 16) (poolSizeAt m (32 + len * 16)).toNat) then
      .ok (.strs (descsAt m 32 len hdata) (poolAt m (32 + len * 16) (poolSizeAt m (32 + len * 16)).toNat),
        m.drop (32 + len * 16 + 32 + (poolSizeAt m (32 + len * 16)).toNat)) else .error .corrupt := by
  have hmany : many desc len (m.drop 32) = .ok (descsAt m 32 len hdata, m.drop (32 + len * 16)) := by
    change many (piece Err.corrupt 16 Desc.mk) len (m.drop 32) = _
    rw [many_piece, dif_pos (by rw [List.length_drop]; omega), List.drop_drop]
    rfl
  rw [readBody, if_neg (by decide), if_pos rfl, bind_ok, hmany]
  change readPool (descsAt m 32 len hdata) (m.drop (32 + len * 16)) = _
  generalize descsAt m 32 len hdata = descs
  generalize 32 + len * 16 = offset
  rw [readPool, bind_ok, take, List.length_drop]
  by_cases hshort : m.length - offset < 32
  · rw [if_neg (by omega), if_pos hshort]
    rfl
  · have htype : ((m.drop offset).take 32).getD 18 0 = m.getD (offset + 18) 0 := by
      rw [List.getD_eq_getElem?_getD, List.getD_eq_getElem?_getD, List.getElem?_take_of_lt (by norm_num),
        List.getElem?_drop]
    have hsize : leInt (((m.drop offset).take 32).drop 24) = poolSizeAt m offset := by
      rw [poolSizeAt, List.drop_take, List.drop_drop]
    rw [if_pos (by omega), if_neg hshort, List.drop_drop]
    change (if ((m.drop offset).take 32).getD 18 0 ≠ 2 ∨ leInt (((m.drop offset).take 32).drop 24) < 0 then
      fail Err.corrupt
      else take Err.corrupt (leInt (((m.drop offset).take 32).drop 24)).toNat >>= fun pool =>
        if ∀ d ∈ descs, d.Ok pool then pure (Body.strs descs pool) else fail Err.corrupt)
          (m.drop (offset + 32)) = _
    rw [htype, hsize]
    split_ifs with hbad hmore hall
    · rfl
    · rw [bind_ok, take, List.length_drop, if_neg (by omega)]
      rfl
    · rw [bind_ok, take, List.length_drop, if_pos (by omega), List.drop_drop]
      change (if ∀ d ∈ descs, d.Ok (poolAt m offset (poolSizeAt m offset).toNat) then pure
        (Body.strs descs (poolAt m offset (poolSizeAt m offset).toNat)) else fail Err.corrupt) _ = _
      rw [if_pos hall]
      rfl
    · rw [bind_ok, take, List.length_drop, if_pos (by omega), List.drop_drop]
      change (if ∀ d ∈ descs, d.Ok (poolAt m offset (poolSizeAt m offset).toNat) then pure
        (Body.strs descs (poolAt m offset (poolSizeAt m offset).toNat)) else fail Err.corrupt) _ = _
      rw [if_neg hall]
      rfl

lemma word_eq (k : ℕ) : Store.word k = piece Err.corrupt k fun bs _ => leNat bs := by
  funext p
  rw [Store.word, bind_ok, take, piece]
  split_ifs <;> rfl

structure Sees (m : Bytes) (cm : ColMapped) (md : Mapped) : Prop where
  tag : cm.tag = m.getD 18 0
  attrs : cm.attrs = md.attrs
  rc : cm.savedSymCount = md.rc
  tail : cm.tailOffset = md.tail
  hasIndex : cm.hasIndex = md.hasIndex
  body : mappedBody m cm = pure md.body
  index : cm.hasIndex = true → cm.indexOffset + 32 + rayIndexSize ≤ m.length

def Alike (m : Bytes) (x : Outcome ColMapped) (y : Except Err Mapped) : Prop :=
  (∃ e, x = throw e ∧ y = .error e) ∨ ∃ cm md, x = pure cm ∧ y = .ok md ∧ Sees m cm md

def mappedOf (m : Bytes) (body : Body) (rest : Bytes) : Mapped where
  attrs := m.getD 19 0
  rc := leNat ((m.drop 20).take 4)
  body := body
  tail := m.length - rest.length
  hasIndex := hasIndexRegion m (m.length - rest.length)

lemma colMapped_eq {len tail : ℕ} {region : ℕ × ℕ} (hlen : 32 ≤ m.length) :
    colMapped m tag attrs len region tail = pure {
    tag, attrs, savedSymCount := leNat ((m.drop 20).take 4), len, dataSize :=
      len * elemSize tag attrs, strPoolOffset := region.1
    strPoolSize := region.2, tailOffset := tail, hasIndex := hasIndexRegion m tail, indexOffset :=
      (tail + 31) / 32 * 32 } := by
  rw [colMapped, rd_eq (by omega), rd_eq (by omega), pure_bind, pure_bind]
  rfl

lemma index_inside {tail : ℕ} (h : hasIndexRegion m tail = true) :
    (tail + 31) / 32 * 32 + 32 + rayIndexSize ≤ m.length :=
  of_decide_eq_true (Bool.and_eq_true_iff.mp h).2

lemma alike_piece {size len : ℕ} {f : (bs : Bytes) → bs.length = size → α} {g : List α → Body}
    (hlen : 32 ≤ m.length) (htag : tag = m.getD 18 0) (hattrs : attrs = m.getD 19 0)
    (hsize : elemSize tag attrs = size)
    (hread : readBody tag attrs len = (many (piece .corrupt size f) len >>= fun l => pure (g l)))
    (hbody : ∀ cm : ColMapped, cm.tag = tag → cm.attrs = attrs →
      mappedBody m cm = (rdAll m 32 size f cm.len >>= fun l => pure (g l))) :
    Alike m (if m.length < 32 + len * elemSize tag attrs then throw .corrupt
        else colMapped m tag attrs len (0, 0) (32 + len * elemSize tag attrs))
      ((readBody tag attrs len (m.drop 32)).map fun q => mappedOf m q.1 q.2) := by
  subst hsize
  have hroom : (m.drop 32).length = m.length - 32 := List.length_drop
  rw [hread, bind_ok, many_piece]
  by_cases h : m.length < 32 + len * elemSize tag attrs
  · rw [if_pos h, dif_neg (by omega)]
    exact .inl ⟨_, rfl, rfl⟩
  · rw [if_neg h, dif_pos (by omega), colMapped_eq hlen]
    refine .inr ⟨_, _, rfl, rfl, ?_⟩
    have htail : m.length - ((m.drop 32).drop (len * elemSize tag attrs)).length =
        32 + len * elemSize tag attrs := by
      rw [List.length_drop, List.length_drop]
      omega
    refine ⟨htag, hattrs, rfl, htail.symm, congrArg (hasIndexRegion m) htail.symm, ?_, index_inside⟩
    rw [hbody _ rfl rfl, rdAll_eq (not_lt.mp h), pure_bind]
    rfl

lemma alike_strs {attrs : UInt8} (hlen : 32 ≤ m.length) (htag : rayStrTag = m.getD 18 0)
    (hattrs : attrs = m.getD 19 0) :
    Alike m (if m.length < 32 + len * elemSize rayStrTag attrs then throw .corrupt
        else colValidateStrRegion m len (len * elemSize rayStrTag attrs) >>= fun region =>
          colMapped m rayStrTag attrs len region (region.1 + 32 + region.2))
      ((readBody rayStrTag attrs len (m.drop 32)).map fun q => mappedOf m q.1 q.2) := by
  change Alike m (if m.length < 32 + len * 16 then _ else colValidateStrRegion m len (len * 16) >>= _) _
  by_cases h : m.length < 32 + len * 16
  · have hshort : readBody rayStrTag attrs len (m.drop 32) = .error .corrupt := by
      rw [readBody, if_neg (by decide), if_pos rfl, bind_ok]
      change Except.bind (many (piece Err.corrupt 16 Desc.mk) len (m.drop 32)) _ = _
      rw [many_piece, dif_neg (by rw [List.length_drop]; omega)]
      rfl
    rw [if_pos h, hshort]
    exact .inl ⟨_, rfl, rfl⟩
  · have hdata : 32 + len * 16 ≤ m.length := not_lt.mp h
    rw [if_neg h, colValidateStrRegion_eq hdata, readBody_strs_eq attrs hdata]
    split_ifs with hshort htype hmore hall
    · exact .inl ⟨_, rfl, rfl⟩
    · exact .inl ⟨_, rfl, rfl⟩
    · exact .inl ⟨_, rfl, rfl⟩
    · rw [pure_bind, colMapped_eq hlen]
      refine .inr ⟨_, _, rfl, rfl, ?_⟩
      have htail : m.length - (m.drop (32 + len * 16 + 32 + (poolSizeAt m (32 + len * 16)).toNat)).length =
          32 + len * 16 + 32 + (poolSizeAt m (32 + len * 16)).toNat := by
        rw [List.length_drop]
        omega
      refine ⟨htag, hattrs, rfl, htail.symm, congrArg (hasIndexRegion m) htail.symm, ?_, index_inside⟩
      dsimp only [mappedBody]
      rw [if_neg (by decide), if_pos rfl, rdAll_eq hdata, rd_eq (by omega), pure_bind, pure_bind]
      rfl
    · exact .inl ⟨_, rfl, rfl⟩

lemma colValidateMapped_alike (m : Bytes) : Alike m (colValidateMapped m) (Store.colValidateMapped m) := by
  have hheader : ¬ (4 ≤ m.length ∧ m.take 4 ∈ extendedMagics) → m ≠ [] →
      Alike m (colValidateHeader m) (Store.colValidateMapped m) := by
    intro hmagic hne
    rw [Store.colValidateMapped, if_neg hne, if_neg hmagic, colValidateHeader]
    by_cases hlen : m.length < 32
    · rw [if_pos hlen, if_pos hlen]
      exact .inl ⟨_, rfl, rfl⟩
    · have hlong : 32 ≤ m.length := not_lt.mp hlen
      rw [if_neg hlen, if_neg hlen, rd_eq (by omega), pure_bind, rd_eq (by omega), pure_bind,
        rd_eq (by omega), pure_bind, rd_eq (by omega), pure_bind, headD_slice, headD_slice, headD_slice]
      dsimp only
      by_cases hmajor : m.getD 17 0 ≠ rayColFormatMajor
      · rw [if_pos hmajor, if_pos hmajor]
        exact .inl ⟨_, rfl, rfl⟩
      rw [if_neg hmajor, if_neg hmajor]
      by_cases htag : m.getD 18 0 ≠ raySymTag ∧ m.getD 18 0 ≠ rayStrTag ∧ fixTy? (m.getD 18 0) = none
      · rw [if_pos htag, if_pos htag]
        exact .inl ⟨_, rfl, rfl⟩
      rw [if_neg htag, if_neg htag]
      by_cases hneg : leInt ((m.drop 24).take 8) < 0
      · rw [if_pos hneg, if_pos hneg]
        exact .inl ⟨_, rfl, rfl⟩
      rw [if_neg hneg, if_neg hneg]
      by_cases hover : (2 ^ 64 - 1 - 32) / elemSize (m.getD 18 0) (m.getD 19 0) <
        (leInt ((m.drop 24).take 8)).toNat
      · rw [if_pos hover, if_pos hover]
        exact .inl ⟨_, rfl, rfl⟩
      rw [if_neg hover, if_neg hover]
      generalize (leInt ((m.drop 24).take 8)).toNat = len
      change Alike m _ ((readBody (m.getD 18 0) (m.getD 19 0) len (m.drop 32)).map fun q => mappedOf m q.1 q.2)
      by_cases hstr : m.getD 18 0 = rayStrTag
      · rw [if_pos hstr, hstr]
        exact alike_strs hlong hstr.symm rfl
      · rw [if_neg hstr]
        by_cases hsym : m.getD 18 0 = raySymTag
        · refine alike_piece (f := fun bs _ => leNat bs) (g := Body.syms) hlong rfl rfl
            (by rw [elemSize, if_pos hsym]) ?_ fun cm htag hattrs => ?_
          · rw [readBody, if_pos hsym, word_eq]
          · rw [mappedBody, htag, hattrs, if_pos hsym]
        · cases hfix : fixTy? (m.getD 18 0) with
          | none => exact absurd ⟨hsym, hstr, hfix⟩ htag
          | some t =>
            refine alike_piece (f := Cell.mk) (g := Body.fixed t) hlong rfl rfl
              (by rw [elemSize, if_neg hsym, if_neg hstr, hfix]; rfl) ?_ fun cm htag hattrs => ?_
            · rw [readBody, if_neg hsym, if_neg hstr, hfix]
              rfl
            · rw [mappedBody, htag, if_neg hsym, if_neg hstr, hfix]
  rw [colValidateMapped]
  by_cases hne : m = []
  · subst hne
    exact .inl ⟨_, rfl, rfl⟩
  rw [if_neg hne]
  by_cases hfour : 4 ≤ m.length
  · rw [if_pos hfour, rd_eq (by omega), pure_bind, List.drop_zero]
    by_cases hmem : m.take 4 ∈ extendedMagics
    · rw [if_pos hmem, Store.colValidateMapped, if_neg hne, if_pos ⟨hfour, hmem⟩]
      exact .inl ⟨_, rfl, rfl⟩
    · rw [if_neg hmem]
      exact hheader (fun h => hmem h.2) hne
  · rw [if_neg hfour]
    exact hheader (fun h => hfour h.1) hne

end

end Rayforce.Store.Raw
