import Rayforce.Store.Read

namespace Rayforce.Store

open Library.Words Library.Readers List Option
open Rayforce.Serde (FixTy Cell Vec raySymWMask rayAttrSorted rayAttrHasNulls)

variable {α β ε : Type}
variable {ss : List Bytes} {fuel : ℕ} {bs : Bytes} {tag : UInt8} {n : ℕ} {v : SymVec} {r : Rd Obj}
  {s : Bytes} {t : FixTy}

def SymVec.written (v : SymVec) (offset len : ℕ) : List Bytes :=
  (List.range len).map fun i => match v.raySymVecCell offset i with
    | .ok s => s
    | .error _ => []

mutual

def Obj.reload (names : List Bytes) : Obj → Obj
  | .nullPtr => .nullPtr
  | .error => .error
  | .atom (.fixed tag slot _) => .atom (.fixed tag slot false)
  | .atom (.guid _ addr) => .atom (.fixed guidTag addr false)
  | .atom (.sym s _) => .atom (.sym s false)
  | .atom (.str s) => .atom (.str s)
  | .vec t v => .vec t (.owned 0 v.cells)
  | .symVec v => .symVec (internSyms names (v.written 0 v.len))
  | .symSlice v offset len _ => .symVec (internSyms names (v.written offset len))
  | .strVec v => .strVec ⟨v.attrs &&& colDiskAttrsMask, v.descs, v.pool⟩
  | .strSlice v _ len _ => .strVec ⟨sliceAttrs v.attrs &&& colDiskAttrsMask, v.descs.take len, []⟩
  | .list es => .list (Obj.reloads names es)
  | .table ids cols => .table ids (Obj.reloads names cols)
  | .dict k v => .dict (k.reload names) (v.reload names)
  | .other tag => .other tag

def Obj.reloads (names : List Bytes) : List Obj → List Obj
  | [] => []
  | o :: os => o.reload names :: Obj.reloads names os

end

lemma reloads_length (names : List Bytes) (os : List Obj) : (Obj.reloads names os).length = os.length := by
  induction os with
  | nil => rfl
  | cons o os ih => rw [Obj.reloads, length_cons, ih, length_cons]

def Short (s : Bytes) : Prop := s.length < 2 ^ 32

mutual

def Obj.Framed : Obj → Prop
  | .atom (.sym s _) | .atom (.str s) => Short s
  | .symVec v => ∀ s ∈ v.written 0 v.len, Short s
  | .symSlice v offset len _ => ∀ s ∈ v.written offset len, Short s
  | .list es => Obj.FramedAll es
  | .table _ cols => Obj.FramedAll cols
  | .dict k v => k.Framed ∧ v.Framed
  | _ => True

def Obj.FramedAll : List Obj → Prop
  | [] => True
  | o :: os => o.Framed ∧ Obj.FramedAll os

end

def Atom.Held : Atom → Prop
  | .fixed tag slot _ => 128 ≤ tag.toNat ∧ tag ≠ symAtomTag ∧ tag ≠ strAtomTag ∧ tag ≠ guidTag ∧ slot.length = 8
  | .guid _ addr => addr.length = 8
  | .sym _ _ | .str _ => True

mutual

def Obj.Held (names : List Bytes) : Obj → Prop
  | .atom a => a.Held
  | .vec t v => v.cells.length * t.size < 2 ^ 59
  | .symVec v => v.len < 2 ^ 59 ∧ (∀ pos ∈ v.block.take v.len, pos < v.dom.length ∧ pos < 256 ^ 2 ^ v.width) ∧
      (if v.runtime then v.dom = names else ∀ s ∈ v.dom, s ∈ names)
  | .symSlice v offset len _ => len < 2 ^ 59 ∧
    (∀ pos ∈ (v.block.drop offset).take len, pos < v.dom.length ∧ pos < 256 ^ 2 ^ v.width) ∧
      (if v.runtime then v.dom = names else ∀ s ∈ v.dom, s ∈ names)
  | .strVec v => v.descs.length < 2 ^ 59 ∧ v.pool.length < 2 ^ 59 ∧ ∀ d ∈ v.descs, d.Ok v.pool
  | .strSlice v _ len _ => len < 2 ^ 59 ∧ v.pool.length < 2 ^ 59 ∧ ∀ d ∈ v.descs, d.Ok v.pool
  | .list es => es.length < 2 ^ 59 ∧ Obj.HeldAll names es
  | .table ids cols => ids.length = cols.length ∧ ids.length < 2 ^ 59 ∧ (∀ i ∈ ids, i < names.length) ∧
    Obj.HeldAll names cols
  | .dict k v => k.Held names ∧ v.Held names
  | .nullPtr | .error | .other _ => True

def Obj.HeldAll (names : List Bytes) : List Obj → Prop
  | [] => True
  | o :: os => o.Held names ∧ Obj.HeldAll names os

end

lemma reads_word_mod (k n : ℕ) : Reads (word k) (leBytes k n) (n % 256 ^ k) := by
  rw [← leNat_leBytes_mod]
  exact (reads_take Err.corrupt (leBytes_length k n)).bind_pure

lemma reads_word (k n : ℕ) (h : n < 256 ^ k) : Reads (word k) (leBytes k n) n := by
  have hread := reads_word_mod k n
  rwa [Nat.mod_eq_of_lt h] at hread

lemma reads_count (h : n < 2 ^ 59) : Reads count (leBytes 8 n) n := by
  have hint : leInt (leBytes 8 n) = n := leInt_leBytes 8 n (by omega)
  rw [count, ← append_nil (leBytes 8 n)]
  refine (reads_take Err.corrupt (leBytes_length 8 n)).bind ?_
  rw [hint, if_neg (by omega), Int.toNat_natCast]
  exact Reads.pure

lemma reads_countedStr (h : Short s) : Reads countedStr (counted s) s :=
  (reads_word 4 s.length h).bind (reads_take Err.corrupt rfl)

lemma yields_countedStr (h : ¬ Short s) : Yields countedStr (counted s) fun s' => s' ≠ s := by
  refine (reads_word_mod 4 s.length).bind_yields fun rest s' rest' heq hs => ?_
  have hlen := take_length heq
  rw [Short] at h
  rw [hs] at hlen
  omega

lemma reads_cell (c : Cell t) : Reads (cell t) c.bytes c := by
  intro rest
  have hle : t.size ≤ (c.bytes ++ rest).length := by
    rw [length_append, c.width]
    exact Nat.le_add_right _ _
  rw [cell, dif_pos hle]
  simp [← c.width]

lemma reads_desc (d : Desc) : Reads desc d.bytes d := by
  intro rest
  have hle : 16 ≤ (d.bytes ++ rest).length := by
    rw [length_append, d.width]
    exact Nat.le_add_right _ _
  rw [desc, dif_pos hle]
  simp [← d.width]

lemma reads_byte (b : UInt8) : Reads byte [b] b := fun _ => rfl

lemma reads_room {x : Rd α} {a : α} (h : Reads x bs a) (hn : 4 * n ≤ bs.length) :
    Reads (roomFor n >>= fun _ => x) bs a := by
  intro rest
  rw [bind_ok, roomFor, if_pos (by rw [length_append]; omega)]
  exact h rest

lemma yields_room {x : Rd α} {P : α → Prop} (h : Yields x bs P) : Yields (roomFor n >>= fun _ => x) bs P := by
  intro rest a rest' heq
  obtain ⟨u, q, hroom, hx⟩ := bind_eq_ok.mp heq
  rw [roomFor] at hroom
  split_ifs at hroom
  cases hroom
  exact h rest a rest' hx

lemma counted_length (s : Bytes) : (counted s).length = 4 + s.length := by
  rw [counted, length_append, leBytes_length]

lemma flatMap_counted_length (ss : List Bytes) : 4 * ss.length ≤ (ss.flatMap counted).length := by
  induction ss with
  | nil => simp
  | cons s ss ih =>
    rw [flatMap_cons, length_append, length_cons, counted_length]
    omega

lemma reads_countedStrs (h : ∀ s ∈ ss, Short s) : Reads (many countedStr ss.length) (ss.flatMap counted) ss := by
  have hread := reads_many (r := countedStr) (l := ss) counted id fun s hs => reads_countedStr (h s hs)
  rwa [List.map_id] at hread

lemma exists_first {p : β → Prop} {l : List β} (h : ¬ ∀ x ∈ l, p x) :
    ∃ pre x post, l = pre ++ x :: post ∧ (∀ y ∈ pre, p y) ∧ ¬ p x := by
  induction l with
  | nil => exact absurd (by simp) h
  | cons y l ih =>
    by_cases hy : p y
    · obtain ⟨pre, x, post, rfl, hpre, hx⟩ := ih fun hall => h (by simpa [hy] using hall)
      exact ⟨y :: pre, x, post, rfl, by simpa [hy] using hpre, hx⟩
    · exact ⟨[], y, l, rfl, by simp, hy⟩

lemma yields_countedStrs (h : ¬ ∀ s ∈ ss, Short s) :
    Yields (many countedStr ss.length) (ss.flatMap counted) fun ss' => ss' ≠ ss := by
  obtain ⟨pre, s, post, rfl, hpre, hs⟩ := exists_first h
  refine (yields_many counted id (fun s hs => reads_countedStr (hpre s hs)) (yields_countedStr hs)).mono ?_
  rintro ss' ⟨a, ha, hne⟩ rfl
  rw [getElem?_append_right le_rfl, Nat.sub_self] at ha
  exact hne (some.inj ha).symm

lemma mapM_eq_ok {f : α → Except ε β} {l : List α} {bs : List β} (h : l.mapM f = .ok bs) :
    List.Forall₂ (fun a b => f a = .ok b) l bs := by
  induction l generalizing bs with
  | nil =>
    cases h
    exact .nil
  | cons a l ih =>
    rw [mapM_cons] at h
    cases ha : f a with
    | error e =>
      rw [ha] at h
      cases h
    | ok b =>
      rw [ha] at h
      cases hl : l.mapM f with
      | error e =>
        rw [hl] at h
        cases h
      | ok bs' =>
        rw [hl] at h
        cases h
        exact .cons ha (ih hl)

lemma eq_written {offset : ℕ} {is : List ℕ}
    (h : List.Forall₂ (fun i s => v.raySymVecCell offset i = .ok s) is ss) :
    ss = is.map fun i => match v.raySymVecCell offset i with
      | .ok s => s
      | .error _ => [] := by
  induction h with
  | nil => rfl
  | cons hs _ ih => rw [map_cons, hs, ← ih]

lemma writeSyms_eq {offset len : ℕ} (h : writeSyms v offset len = .ok bs) :
    bs = raySymTag :: (leBytes 8 len ++ (v.written offset len).flatMap counted) ∧
    (v.written offset len).length = len := by
  rw [writeSyms] at h
  cases hm : (range len).mapM fun i => v.raySymVecCell offset i with
  | error e =>
    rw [hm] at h
    cases h
  | ok ss =>
    rw [hm] at h
    cases h
    rw [eq_written (mapM_eq_ok hm)]
    exact ⟨rfl, by rw [SymVec.written, length_map, length_range]⟩

section

variable {names : List Bytes} {child : Rd Obj}

lemma readTagged_vec (t : FixTy) : readTagged names child t.vecTag = readVec t := by
  cases t <;> rfl

lemma readTagged_atom (h : 128 ≤ tag.toNat) : readTagged names child tag = readAtom tag := if_pos h

lemma reads_level {o : Obj}
    (hr : readTagged names (colReadRecursive names fuel) tag = r) (h : Reads r bs o) :
      Reads (colReadRecursive names (fuel + 1)) (tag :: bs) o := by
  subst hr
  exact (reads_byte tag).bind h

lemma yields_level {P : Obj → Prop}
    (hr : readTagged names (colReadRecursive names fuel) tag = r) (h : Yields r bs P) :
      Yields (colReadRecursive names (fuel + 1)) (tag :: bs) P := by
  subst hr
  exact (reads_byte tag).bind_yields h

lemma reads_atom {a : Atom} (h : a.Held) (hf : (Obj.atom a).Framed) :
    Reads (colReadRecursive names (fuel + 1)) (writeAtom a) ((Obj.atom a).reload names) := by
  cases a with
  | fixed tag slot nullBit =>
    obtain ⟨hneg, hsym, hstr, -, hslot⟩ := h
    refine reads_level (readTagged_atom hneg) ?_
    rw [readAtom, if_neg hsym, if_neg hstr]
    exact (reads_take Err.corrupt hslot).bind_pure
  | guid payload addr =>
    refine reads_level (readTagged_atom (by decide)) ?_
    rw [readAtom, if_neg (by decide), if_neg (by decide)]
    exact (reads_take Err.corrupt h).bind_pure
  | sym s quoted =>
    refine reads_level (readTagged_atom (by decide)) ?_
    rw [readAtom, if_pos rfl]
    exact (reads_countedStr hf).bind_pure
  | str s =>
    refine reads_level (readTagged_atom (by decide)) ?_
    rw [readAtom, if_neg (by decide), if_pos rfl]
    exact (reads_countedStr hf).bind_pure

lemma reads_vec {cells : List (Cell t)} (h : cells.length < 2 ^ 59) :
    Reads (colReadRecursive names (fuel + 1)) (t.vecTag :: (leBytes 8 cells.length ++ cells.flatMap Cell.bytes))
    (.vec t (.owned 0 cells)) := by
  have hcells := reads_many (r := cell t) (l := cells) Cell.bytes id fun c _ => reads_cell c
  rw [List.map_id] at hcells
  exact reads_level (readTagged_vec t) ((reads_count h).bind hcells.bind_pure)

lemma reads_syms (h : ss.length < 2 ^ 59) (hs : ∀ s ∈ ss, Short s) :
    Reads (colReadRecursive names (fuel + 1)) (raySymTag :: (leBytes 8 ss.length ++ ss.flatMap counted))
    (.symVec (internSyms names ss)) := by
  refine reads_level rfl ((reads_count h).bind (reads_room ?_ (flatMap_counted_length ss)))
  exact (reads_countedStrs hs).bind_pure

lemma reads_strs {attrs : UInt8} {descs : List Desc} {pool : Bytes} (h : descs.length < 2 ^ 59)
    (hp : pool.length < 2 ^ 59) :
    Reads (colReadRecursive names (fuel + 1)) (writeStrs attrs descs pool)
    (.strVec ⟨attrs &&& colDiskAttrsMask, descs, pool⟩) := by
  have hdescs := reads_many (r := desc) (l := descs) Desc.bytes id fun d _ => reads_desc d
  rw [List.map_id] at hdescs
  rw [writeStrs, append_assoc]
  refine reads_level rfl ((reads_count h).bind ?_)
  refine (reads_byte attrs).bind (hdescs.bind ((reads_word 8 pool.length (by omega)).bind ?_))
  rw [if_neg (by omega)]
  exact (reads_take Err.corrupt rfl).bind_pure

end

section

variable {names names₀ : List Bytes}

lemma map_eq_ok {x : Except ε α} {f : α → β} {b : β} (h : x.map f = .ok b) : ∃ a, x = .ok a ∧ b = f a := by
  cases x with
  | error e => cases h
  | ok a =>
    cases h
    exact ⟨a, rfl, rfl⟩

lemma bind_eq_ok' {x : Except ε α} {f : α → Except ε β} {b : β} (h : x >>= f = .ok b) :
    ∃ a, x = .ok a ∧ f a = .ok b := by
  cases x with
  | error e => cases h
  | ok a => exact ⟨a, rfl, h⟩

lemma colWriteRecursive_ne_nil {o : Obj} (h : colWriteRecursive o = .ok []) : False := by
  cases o with
  | nullPtr | error | other => cases h
  | atom a => cases a <;> cases h
  | vec t v => cases h
  | symVec v => cases (writeSyms_eq h).1
  | symSlice v offset len inside => cases (writeSyms_eq h).1
  | strVec v => cases h
  | strSlice v offset len inside =>
    rw [colWriteRecursive] at h
    split_ifs at h
    cases h
  | list es =>
    obtain ⟨cs, -, hnil⟩ := map_eq_ok h
    cases hnil
  | table ids cols =>
    obtain ⟨cs, -, hnil⟩ := map_eq_ok h
    cases hnil
  | dict k v =>
    obtain ⟨ks, -, hrest⟩ := bind_eq_ok' h
    obtain ⟨vs, -, hnil⟩ := bind_eq_ok' hrest
    cases hnil

lemma size_pos (t : FixTy) : 1 ≤ t.size := by
  cases t <;> decide

mutual

theorem reads_reload (hn : names₀.length < 2 ^ 32) :
    ∀ (o : Obj) {bs : Bytes} {fuel : ℕ}, o.Held names₀ → o.Framed →
    colWriteRecursive o = .ok bs → bs.length ≤ fuel → Reads (colReadRecursive names fuel) bs (o.reload names)
  | o, bs, 0, hh, hf, hw, hl => by
    obtain rfl := eq_nil_of_length_eq_zero (Nat.le_zero.mp hl)
    exact (colWriteRecursive_ne_nil hw).elim
  | .atom a, bs, fuel + 1, hh, hf, hw, hl => by
    cases hw
    exact reads_atom hh hf
  | .vec t v, bs, fuel + 1, hh, hf, hw, hl => by
    cases hw
    exact reads_vec ((Nat.le_mul_of_pos_right _ (size_pos t)).trans_lt hh)
  | .symVec v, bs, fuel + 1, hh, hf, hw, hl => by
    obtain ⟨rfl, hlen⟩ := writeSyms_eq hw
    have hread : Reads (colReadRecursive names (fuel + 1)) _ _ := reads_syms (hlen.symm ▸ hh.1) hf
    rwa [hlen] at hread
  | .symSlice v offset len inside, bs, fuel + 1, hh, hf, hw, hl => by
    obtain ⟨rfl, hlen⟩ := writeSyms_eq hw
    have hread : Reads (colReadRecursive names (fuel + 1)) _ _ := reads_syms (hlen.symm ▸ hh.1) hf
    rwa [hlen] at hread
  | .strVec v, bs, fuel + 1, hh, hf, hw, hl => by
    cases hw
    exact reads_strs hh.1 hh.2.1
  | .strSlice v offset len inside, bs, fuel + 1, hh, hf, hw, hl => by
    rw [colWriteRecursive] at hw
    split_ifs at hw
    cases hw
    refine reads_strs ?_ (by norm_num)
    rw [length_take]
    exact (min_le_left _ _).trans_lt hh.1
  | .list es, bs, fuel + 1, hh, hf, hw, hl => by
    obtain ⟨cs, hcs, rfl⟩ := map_eq_ok hw
    rw [length_cons, length_append] at hl
    have helems : Reads (many (colReadRecursive names fuel) es.length) cs (Obj.reloads names es) :=
      reads_reloads hn es hh.2 hf hcs (by omega)
    exact reads_level rfl ((reads_count hh.1).bind helems.bind_pure)
  | .table ids cols, bs, fuel + 1, hh, hf, hw, hl => by
    obtain ⟨cs, hcs, rfl⟩ := map_eq_ok hw
    rw [length_cons, length_append] at hl
    have hcols : Reads (many (readCol (colReadRecursive names fuel)) ids.length) cs
        (ids.zip (Obj.reloads names cols)) :=
      reads_reloadCols hn ids cols hh.1 hh.2.2.1 hh.2.2.2 hf hcs (by omega)
    have hint : leInt (leBytes 8 ids.length) = ids.length := leInt_leBytes 8 ids.length (by have := hh.2.1; omega)
    rw [append_assoc]
    refine reads_level rfl ((reads_take Err.corrupt (leBytes_length 8 _)).bind
      ((reads_take Err.corrupt (leBytes_length 8 _)).bind ?_))
    rw [hint, if_neg (by omega), Int.toNat_natCast]
    have hread := hcols.bind_pure (g := fun cs => Obj.table (cs.map Prod.fst) (cs.map Prod.snd))
    rwa [map_fst_zip (by rw [reloads_length, hh.1]), map_snd_zip (by rw [reloads_length, hh.1])] at hread
  | .dict k v, bs, fuel + 1, hh, hf, hw, hl => by
    obtain ⟨ks, hks, hrest⟩ := bind_eq_ok' hw
    obtain ⟨vs, hvs, hpure⟩ := bind_eq_ok' hrest
    cases hpure
    rw [length_cons, length_append] at hl
    have hk : Reads (colReadRecursive names fuel) ks (k.reload names) := reads_reload hn k hh.1 hf.1 hks (by omega)
    have hv : Reads (colReadRecursive names fuel) vs (v.reload names) := reads_reload hn v hh.2 hf.2 hvs (by omega)
    exact reads_level rfl (hk.bind hv.bind_pure)
  | .nullPtr, _, _, _, _, hw, _ | .error, _, _, _, _, hw, _ | .other _, _, _, _, _, hw, _ => by cases hw

theorem reads_reloads (hn : names₀.length < 2 ^ 32) :
    ∀ (es : List Obj) {bs : Bytes} {fuel : ℕ}, Obj.HeldAll names₀ es → Obj.FramedAll es →
    writeElems es = .ok bs → bs.length ≤ fuel →
      Reads (many (colReadRecursive names fuel) es.length) bs (Obj.reloads names es)
  | [], bs, fuel, hh, hf, hw, hl => by
    cases hw
    exact Reads.pure
  | e :: es, bs, fuel, hh, hf, hw, hl => by
    obtain ⟨b, hb, hrest⟩ := bind_eq_ok' hw
    obtain ⟨cs, hcs, hpure⟩ := bind_eq_ok' hrest
    cases hpure
    rw [length_append] at hl
    have he : Reads (colReadRecursive names fuel) b (e.reload names) := reads_reload hn e hh.1 hf.1 hb (by omega)
    have hes : Reads (many (colReadRecursive names fuel) es.length) cs (Obj.reloads names es) :=
      reads_reloads hn es hh.2 hf.2 hcs (by omega)
    exact he.bind hes.bind_pure

theorem reads_reloadCols (hn : names₀.length < 2 ^ 32) :
    ∀ (ids : List ℕ) (cols : List Obj) {bs : Bytes} {fuel : ℕ},
    ids.length = cols.length → (∀ i ∈ ids, i < names₀.length) → Obj.HeldAll names₀ cols → Obj.FramedAll cols →
      writeCols ids cols = .ok bs →
    bs.length ≤ fuel → Reads (many (readCol (colReadRecursive names fuel)) ids.length) bs
    (ids.zip (Obj.reloads names cols))
  | [], [], bs, fuel, hlen, hi, hh, hf, hw, hl => by
    cases hw
    exact Reads.pure
  | i :: ids, c :: cols, bs, fuel, hlen, hi, hh, hf, hw, hl => by
    obtain ⟨b, hb, hrest⟩ := bind_eq_ok' hw
    obtain ⟨cs, hcs, hpure⟩ := bind_eq_ok' hrest
    cases hpure
    rw [length_append, length_append] at hl
    have hid : i < 256 ^ 8 := by
      have := hi i mem_cons_self
      omega
    have hc : Reads (colReadRecursive names fuel) b (c.reload names) := reads_reload hn c hh.1 hf.1 hb (by omega)
    have hcols : Reads (many (readCol (colReadRecursive names fuel)) ids.length) cs
        (ids.zip (Obj.reloads names cols)) :=
      reads_reloadCols hn ids cols (Nat.succ.inj hlen)
        (fun j hj => hi j (mem_cons_of_mem _ hj)) hh.2 hf.2 hcs (by omega)
    exact ((reads_word 8 i hid).bind hc.bind_pure).bind hcols.bind_pure
  | [], _ :: _, _, _, hlen, _, _, _, _, _ | _ :: _, [], _, _, hlen, _, _, _, _, _ => by cases hlen

end

end

lemma map_eq_error {α β ε : Type} {x : Except ε α} {f : α → β} {y : ε} (h : x.map f = .error y) :
    x = .error y := by
  cases x with
  | error z =>
    cases h
    rfl
  | ok a => cases h

end Rayforce.Store
