import Rayforce.Library.Ordered
import Rayforce.Dict.Object

namespace Rayforce.Dict

open Library.Ordered Option Function

variable {α : Type}
variable {ks ks' : Keys}

abbrev Ident := KeyType × Option Payload

def KeyAtom.ident (k : KeyAtom) : Ident := (k.type, if atomIsNull k then none else some k.payload)

def Keys.idents (ks : Keys) : List Ident :=
  ks.cells.map fun c => (ks.type, if vecIsNull ks c then none else some c)

namespace Target

def idents : Target α → List Ident
  | .dict d => d.keys.idents
  | _ => []

def IsEmpty : Target α → Prop
  | .dict d => d.keys.cells = [] ∧ d.keys.hasNulls = false ∧ d.vals = []
  | _ => True

def symWidth : Target α → SymWidth
  | .dict d => if d.keys.type = .sym ∧ d.keys.domain = none then d.keys.width else .w64
  | _ => .w64

end Target

def lastValue (k : Ident) (ops : List (Op α)) : Option α :=
  ops.foldl (fun r op => match op with
    | .upsert j v => if k = j.ident then some v else r
    | .remove j => if k = j.ident then none else r) none

def keyOrder (ops : List (Op α)) : List Ident :=
  ops.foldl (fun ks op => match op with
    | .upsert j _ => if j.ident ∈ ks then ks else ks ++ [j.ident]
    | .remove j => ks.filter (· ≠ j.ident)) []

def SymWidth.Holds (w : SymWidth) (id : ℤ) : Prop := w = .w64 ∨ 0 ≤ id ∧ id < 2 ^ w.bits

def Storable (w : SymWidth) (k : KeyAtom) : Prop :=
  atomIsNull k = false ∧ (k.type = .sym → w.Holds k.slot)

structure MapLaws (ops p : List (Op α)) (d : Target α) : Prop where
  counts : d.idents.length = d.valueCount
  distinct : d.idents.Nodup
  get_eq : ∀ k, d.get k = lastValue k.ident p
  order : d.idents = keyOrder p
  findSym_eq : ∀ id h, d.findSym id = d.findIdx (symAtom id h)
  frame : ∀ op d', p ++ [op] <+: ops → step d op = some d' → ∀ k, k.ident ≠ op.key.ident →
    d'.get k = d.get k

section

variable {d : RayDict α} {k : KeyAtom} {t : KeyType} {w : SymWidth} {id : ℤ}

lemma narrow_eq_iff : w.narrow id = id ↔ w.Holds id := by
  cases w with
  | w64 => simp [SymWidth.narrow, SymWidth.Holds]
  | _ =>
    simp only [SymWidth.narrow, SymWidth.Holds, SymWidth.bits, reduceCtorEq, false_or]
    omega

lemma narrow_narrow : w.narrow (w.narrow id) = w.narrow id := by
  cases w with
  | w64 => rfl
  | _ => simp [SymWidth.narrow]

lemma double_eq_iff {a b : Library.Binary64.Double} (hb : b.isNaN = false) :
    Library.Binary64.Double.eq a b = true ↔ a = b := by
  cases a <;> cases b <;> simp_all [Library.Binary64.Double.eq, Library.Binary64.Double.isNaN]

lemma payload_eq_iff (hk : atomIsNull k = false) (c : Payload) : c.eq k.payload = true ↔ c = k.payload := by
  obtain ⟨t, p, b, s, ha, hs⟩ := k
  cases p with
  | real v =>
    have hv : v.isNaN = false := by
      cases t with
      | f32 => exact hk
      | f64 => exact hk
      | _ => exact absurd ha Bool.false_ne_true
    cases c with
    | real u => simp [Payload.eq, double_eq_iff hv]
    | _ => simp [Payload.eq]
  | _ => cases c <;> simp [Payload.eq]

lemma vecIsNull_of_flag {ks : Keys} (hf : ks.hasNulls = false) (c : Payload) : vecIsNull ks c = false := by
  simp [vecIsNull, hf]

lemma idents_of_flag {ks : Keys} (hf : ks.hasNulls = false) : ks.idents = ks.cells.map fun c =>
    (ks.type, some c) := by
  simp [Keys.idents, vecIsNull_of_flag hf]

lemma dictFindIdx_of_flag (hf : d.keys.hasNulls = false) :
    dictFindIdx d k = d.keys.idents.findIdx? (· = k.ident) := by
  have hnever : List.findIdx? (fun _ => false) d.keys.cells = none :=
    List.findIdx?_eq_none_iff.mpr fun _ _ => rfl
  rw [idents_of_flag hf, List.findIdx?_map]
  by_cases hc : d.keys.cells = []
  · simp [dictFindIdx, hc]
  · by_cases ht : k.type = d.keys.type
    · by_cases hn : atomIsNull k = true
      · simp [dictFindIdx, hc, ht, hn, hf, KeyAtom.ident, comp_def, hnever]
      · have hk : atomIsNull k = false := by simpa using hn
        simp only [dictFindIdx, hc, ht, hk, if_false, ne_eq, not_true_eq_false, vecIsNull_of_flag hf,
          Bool.not_false, Bool.true_and, Bool.false_eq_true]
        congr 1
        ext c
        simp only [comp_apply, KeyAtom.ident, hk, ht, if_false, Bool.false_eq_true, Prod.mk.injEq,
          some.injEq, true_and]
        rw [Bool.eq_iff_iff, payload_eq_iff hk, decide_eq_true_iff]
    · have hne : ∀ c : Payload, ((d.keys.type, some c) : Ident) ≠ k.ident := by
        intro c h
        exact ht (congrArg Prod.fst h).symm
      simp [dictFindIdx, hc, ht, hne, comp_def, hnever]

lemma dictFindSym_eq_dictFindIdx (h : KeyType.admits .sym (.int id) = true) :
    dictFindSym d id = dictFindIdx d (symAtom id h) := by
  have hnull : atomIsNull (symAtom id h) = false := rfl
  by_cases ht : d.keys.type = .sym
  · have hv : ∀ c, vecIsNull d.keys c = false := by
      intro c
      simp [vecIsNull, sentinelIsNull, ht]
    by_cases hc : d.keys.cells = []
    · simp [dictFindSym, dictFindIdx, hc]
    · simp only [dictFindSym, dictFindIdx, ht, hc, hv, if_true, if_false, symAtom, ne_eq,
        not_true_eq_false, Bool.not_false, Bool.true_and]
      congr 1
      ext c
      rw [Bool.eq_iff_iff, decide_eq_true_iff]
      exact (payload_eq_iff hnull c).symm
  · have hne : (symAtom id h).type ≠ d.keys.type := fun he => ht he.symm
    simp [dictFindSym, dictFindIdx, ht, hne]

end

section

/-- What every run with keys of type `t` keeps; `w` is the width of appended symbol cells. -/
structure Sane (t : KeyType) (w : SymWidth) (d : RayDict α) : Prop where
  flag : d.keys.hasNulls = false
  type_eq : d.keys.cells ≠ [] → d.keys.type = t
  domain_eq : d.keys.cells ≠ [] → t = .sym → d.keys.domain = none
  width_eq : t = .sym → (Target.dict d).symWidth = w
  fits : ∀ c ∈ d.keys.cells, t = .sym → ∃ v, c = .int v ∧ d.keys.width.narrow v = v

def storedCell (w : SymWidth) (k : KeyAtom) : Payload :=
  if k.type = .sym then .int (w.narrow k.slot) else k.payload

variable {d d' : RayDict α} {k : KeyAtom} {v : α} {t : KeyType} {w : SymWidth} {i : ℕ}

lemma runtimeKeys_cells (h : Sane t w d) : (runtimeKeys d.keys).cells = d.keys.cells := by
  by_cases hc : d.keys.cells = []
  · simp only [runtimeKeys]
    split
    · split
      · simp [dictSymKeysToRuntime, hc]
      · rfl
    · rfl
  · by_cases ht : t = .sym
    · simp [runtimeKeys, h.domain_eq hc ht]
    · have hne : d.keys.type ≠ .sym := by rwa [h.type_eq hc]
      simp only [runtimeKeys, if_neg hne]
      split <;> rfl

lemma runtimeKeys_type (ks : Keys) : (runtimeKeys ks).type = ks.type := by
  simp only [runtimeKeys]
  split
  · split
    · rename_i hs
      exact hs.symm
    · rfl
  · rfl

lemma runtimeKeys_hasNulls (ks : Keys) : (runtimeKeys ks).hasNulls = ks.hasNulls := by
  simp only [runtimeKeys]
  split
  · split <;> rfl
  · rfl

lemma runtimeKeys_sym {ks : Keys} (ht : ks.type = .sym) : (runtimeKeys ks).domain = none ∧
      (runtimeKeys ks).width = if ks.domain = none then ks.width else .w64 := by
  cases hd : ks.domain with
  | none => simp [runtimeKeys, hd]
  | some lut => simp [runtimeKeys, hd, ht, dictSymKeysToRuntime]

lemma dictFindIdx_runtimeKeys (h : Sane t w d) :
    dictFindIdx { d with keys := runtimeKeys d.keys } k = dictFindIdx d k := by
  have hr : (runtimeKeys d.keys).hasNulls = false := (runtimeKeys_hasNulls _).trans h.flag
  rw [dictFindIdx_of_flag hr, dictFindIdx_of_flag h.flag, idents_of_flag hr, idents_of_flag h.flag,
    runtimeKeys_cells h, runtimeKeys_type]

lemma Sane.runtime (h : Sane t w d) : Sane t w { d with keys := runtimeKeys d.keys } where
  flag := (runtimeKeys_hasNulls _).trans h.flag
  type_eq hc := by
    rw [runtimeKeys_type]
    exact h.type_eq (by rwa [← runtimeKeys_cells h])
  domain_eq hc ht := by
    rw [runtimeKeys_cells h] at hc
    exact (runtimeKeys_sym ((h.type_eq hc).trans ht)).1
  width_eq ht := by
    rw [← h.width_eq ht]
    by_cases hs : d.keys.type = .sym
    · simp [Target.symWidth, runtimeKeys_type, hs, runtimeKeys_sym hs]
    · simp [Target.symWidth, runtimeKeys_type, hs]
  fits c hc ht := by
    rw [runtimeKeys_cells h] at hc
    have hne : d.keys.cells ≠ [] := List.ne_nil_of_mem hc
    have hw : (runtimeKeys d.keys).width = d.keys.width := by
      rw [(runtimeKeys_sym ((h.type_eq hne).trans ht)).2, if_pos (h.domain_eq hne ht)]
    rw [hw]
    exact h.fits c hc ht

lemma adoptType_spec (h : Sane t w d) : (adoptType (runtimeKeys d.keys) t).type = t ∧
      (adoptType (runtimeKeys d.keys) t).cells = d.keys.cells ∧
        (adoptType (runtimeKeys d.keys) t).hasNulls = false ∧
      (t = .sym → (adoptType (runtimeKeys d.keys) t).domain = none ∧
        (adoptType (runtimeKeys d.keys) t).width = w) := by
  by_cases ht : d.keys.type = t
  · have hne : ¬((runtimeKeys d.keys).cells = [] ∧ (runtimeKeys d.keys).type ≠ t) := by
      rintro ⟨-, hn⟩
      exact hn ((runtimeKeys_type _).trans ht)
    rw [adoptType, if_neg hne]
    refine ⟨(runtimeKeys_type _).trans ht, runtimeKeys_cells h, (runtimeKeys_hasNulls _).trans h.flag, ?_⟩
    intro hs
    have hsym : d.keys.type = .sym := ht.trans hs
    have hw := h.width_eq hs
    simp only [Target.symWidth, hsym, true_and] at hw
    exact ⟨(runtimeKeys_sym hsym).1, (runtimeKeys_sym hsym).2.trans hw⟩
  · have hc : d.keys.cells = [] := by
      by_contra hc
      exact ht (h.type_eq hc)
    have hpos : (runtimeKeys d.keys).cells = [] ∧ (runtimeKeys d.keys).type ≠ t :=
      ⟨(runtimeKeys_cells h).trans hc, by rwa [runtimeKeys_type]⟩
    rw [adoptType, if_pos hpos]
    refine ⟨rfl, hc.symm, rfl, fun hs => ⟨rfl, ?_⟩⟩
    have hne : d.keys.type ≠ .sym := by rwa [← hs]
    have hw := h.width_eq hs
    simp only [Target.symWidth, hne, false_and, if_false] at hw
    exact hw

lemma strVecAppend_eq_some {s : Library.Words.Bytes} (h : strVecAppend ks s = some ks') :
    ks' = vecAppend ks (.bytes s) := by
  simp only [strVecAppend] at h
  split_ifs at h
  exact (some.inj h).symm

lemma appendKey_eq_some (ht : ks.type = k.type) (h : appendKey ks k = some ks') :
    ks' = vecAppend ks (storedCell ks.width k) := by
  by_cases hs : k.type = .sym
  · simp only [appendKey, ht, hs, if_true, some.injEq] at h
    simp [← h, storedCell, hs, symVecAppend]
  · simp only [appendKey, ht, hs, if_true, if_false] at h
    rw [storedCell, if_neg hs]
    split at h
    · rename_i s hp
      rw [hp]
      split_ifs at h with hstr
      · exact strVecAppend_eq_some h
      · exact (some.inj h).symm
    · exact (some.inj h).symm

lemma upsertDict_cases (h : Sane t w d) (ht : k.type = t) (hu : upsertDict d k v = some d') :
    (∃ i, dictFindIdx d k = some i ∧ i < d.vals.length ∧ d' = ⟨runtimeKeys d.keys, d.vals.set i v⟩) ∨
    (dictFindIdx d k = none ∧ d' =
      ⟨vecAppend (adoptType (runtimeKeys d.keys) t) (storedCell w k), d.vals ++ [v]⟩) := by
  simp only [upsertDict, dictFindIdx_runtimeKeys h] at hu
  cases hi : dictFindIdx d k with
  | some i =>
    left
    simp only [hi] at hu
    split_ifs at hu with hlt
    exact ⟨i, rfl, hlt, (some.inj hu).symm⟩
  | none =>
    right
    simp only [hi, ht, map_eq_some_iff] at hu
    obtain ⟨ks, hks, rfl⟩ := hu
    obtain ⟨htype, -, -, hwidth⟩ := adoptType_spec h
    have hcell : storedCell (adoptType (runtimeKeys d.keys) t).width k = storedCell w k := by
      by_cases hs : k.type = .sym
      · rw [(hwidth (ht.symm.trans hs)).2]
      · simp [storedCell, hs]
    rw [appendKey_eq_some (htype.trans ht.symm) hks, hcell]
    exact ⟨rfl, rfl⟩

lemma copyCell_eq_some {c : Payload}
    (hfit : ks.type = .sym → ∃ v, c = .int v ∧ ks.width.narrow v = v) (h : copyCell ks c = some ks') :
      ks' = vecAppend ks c := by
  cases c with
  | bytes s =>
    simp only [copyCell] at h
    split_ifs at h
    · exact strVecAppend_eq_some h
    · exact (some.inj h).symm
  | int u =>
    simp only [copyCell] at h
    split_ifs at h with hs
    · obtain ⟨u', hu, hn⟩ := hfit hs
      obtain rfl := Payload.int.inj hu
      rw [symVecAppend, hn] at h
      exact (some.inj h).symm
    · exact (some.inj h).symm
  | byte u => exact (some.inj h).symm
  | real u => exact (some.inj h).symm

lemma foldlM_copyCell {cells : List Payload} (h : cells.foldlM copyCell ks = some ks')
    (hfit : ∀ c ∈ cells, ks.type = .sym → ∃ v, c = .int v ∧ ks.width.narrow v = v) :
      ks' = { ks with cells := ks.cells ++ cells } := by
  induction cells generalizing ks with
  | nil =>
    simp only [List.foldlM_nil, pure_def, some.injEq] at h
    simp [← h]
  | cons c cells ih =>
    simp only [List.foldlM_cons, bind_eq_bind, bind_eq_some_iff] at h
    obtain ⟨ks1, hc, hrest⟩ := h
    obtain rfl := copyCell_eq_some (hfit c List.mem_cons_self) hc
    rw [ih hrest fun c' hc' => hfit c' (List.mem_cons_of_mem _ hc')]
    simp [vecAppend]

section

variable (h : Sane t w d)
include h

lemma removeDict_cases (hr : removeDict d k = some d') :
    (dictFindIdx d k = none ∧ d' = d) ∨ (∃ i, dictFindIdx d k = some i ∧ d' =
      ⟨{ d.keys with hasNulls := false, cells := d.keys.cells.eraseIdx i }, d.vals.eraseIdx i⟩) := by
  simp only [removeDict] at hr
  cases hi : dictFindIdx d k with
  | none =>
    simp only [hi, some.injEq] at hr
    exact .inl ⟨rfl, hr.symm⟩
  | some i =>
    simp only [hi, map_eq_some_iff] at hr
    obtain ⟨ks, hks, rfl⟩ := hr
    refine .inr ⟨i, rfl, ?_⟩
    have hfit : ∀ c ∈ d.keys.cells.eraseIdx i, d.keys.type = .sym →
        ∃ v, c = .int v ∧ d.keys.width.narrow v = v := by
      intro c hc hs
      have hmem : c ∈ d.keys.cells := List.mem_of_mem_eraseIdx hc
      exact h.fits c hmem ((h.type_eq (List.ne_nil_of_mem hmem)).symm.trans hs)
    rw [foldlM_copyCell hks hfit]
    simp

lemma Sane.append (ht : k.type = t) (vs : List α) :
    Sane t w ⟨vecAppend (adoptType (runtimeKeys d.keys) t) (storedCell w k), vs⟩ := by
  obtain ⟨htype, hcells, hflag, hsym⟩ := adoptType_spec h
  refine ⟨hflag, fun _ => htype, fun _ hs => (hsym hs).1, fun hs => ?_, fun c hc hs => ?_⟩
  · have hpos : (adoptType (runtimeKeys d.keys) t).type = .sym ∧
        (adoptType (runtimeKeys d.keys) t).domain = none := ⟨htype.trans hs, (hsym hs).1⟩
    rw [Target.symWidth, if_pos (by exact hpos)]
    exact (hsym hs).2
  · obtain ⟨-, hwidth⟩ := hsym hs
    simp only [vecAppend, hcells, List.mem_append, List.mem_singleton] at hc ⊢
    rw [hwidth]
    rcases hc with hc | rfl
    · obtain ⟨u, rfl, hu⟩ := h.fits c hc hs
      have hne : d.keys.cells ≠ [] := List.ne_nil_of_mem hc
      have hw := h.width_eq hs
      simp only [Target.symWidth, (h.type_eq hne).trans hs, h.domain_eq hne hs, and_self, if_true] at hw
      exact ⟨u, rfl, by rw [← hw]; exact hu⟩
    · rw [storedCell, if_pos (ht.trans hs)]
      exact ⟨_, rfl, narrow_narrow⟩

lemma Sane.erase (i : ℕ) (vs : List α) :
    Sane t w ⟨{ d.keys with hasNulls := false, cells := d.keys.cells.eraseIdx i }, vs⟩ := by
  have hne : d.keys.cells.eraseIdx i ≠ [] → d.keys.cells ≠ [] := by
    intro hc hnil
    exact hc (by rw [hnil, List.eraseIdx_nil])
  exact ⟨rfl, fun hc => h.type_eq (hne hc), fun hc => h.domain_eq (hne hc), h.width_eq,
    fun c hc => h.fits c (List.mem_of_mem_eraseIdx hc)⟩

lemma Sane.upsert (ht : k.type = t) (hu : upsertDict d k v = some d') : Sane t w d' := by
  obtain ⟨i, -, -, rfl⟩ | ⟨-, rfl⟩ := upsertDict_cases h ht hu
  · exact ⟨h.runtime.flag, h.runtime.type_eq, h.runtime.domain_eq, h.runtime.width_eq, h.runtime.fits⟩
  · exact h.append ht _

lemma Sane.remove (hr : removeDict d k = some d') : Sane t w d' := by
  obtain ⟨-, rfl⟩ | ⟨i, -, rfl⟩ := removeDict_cases h hr
  · exact h
  · exact h.erase i _

end

end

section

variable {t : KeyType} {w : SymWidth} {d d' : Target α} {k : KeyAtom} {v : α}
  {op : Op α} {ops : List (Op α)}

def Target.Sane (t : KeyType) (w : SymWidth) : Target α → Prop
  | .dict d => Dict.Sane t w d
  | _ => w = .w64

lemma sane_vecNew : Sane t .w64 (⟨vecNew t, []⟩ : RayDict α) :=
  ⟨rfl, fun _ => rfl, fun _ _ => rfl, fun hs => by simp [Target.symWidth, vecNew], fun c hc => by
    simp [vecNew] at hc⟩

lemma Target.Sane.of_isEmpty (h : d.IsEmpty) : d.Sane t d.symWidth := by
  cases d with
  | dict d =>
    obtain ⟨hc, hf, -⟩ := h
    exact ⟨hf, fun hn => absurd hc hn, fun hn => absurd hc hn, fun _ => rfl, fun c hm => by
      rw [hc] at hm
      exact absurd hm List.not_mem_nil⟩
  | _ => rfl

def Target.opened (t : KeyType) : Target α → RayDict α
  | .dict d => d
  | _ => ⟨vecNew t, []⟩

lemma dictUpsert_eq (d : Target α) (k : KeyAtom) (v : α) :
    dictUpsert d k v = upsertDict (d.opened k.type) k v := by
  cases d <;> rfl

lemma Target.Sane.opened (h : d.Sane t w) : Dict.Sane t w (d.opened t) := by
  cases d with
  | dict d => exact h
  | _ =>
    obtain rfl : w = .w64 := h
    exact sane_vecNew

lemma Target.Sane.step (h : d.Sane t w) (ht : op.key.type = t) (hs : step d op = some d') : d'.Sane t w := by
  cases op with
  | upsert k v =>
    simp only [Dict.step, dictUpsert_eq, map_eq_some_iff] at hs
    obtain ⟨e, he, rfl⟩ := hs
    have ht : k.type = t := ht
    rw [ht] at he
    exact h.opened.upsert ht he
  | remove k =>
    cases d with
    | dict d =>
      simp only [Dict.step, dictRemove, map_eq_some_iff] at hs
      obtain ⟨e, he, rfl⟩ := hs
      exact Dict.Sane.remove h he
    | listKeyed =>
      simp only [Dict.step, dictRemove, some.injEq] at hs
      exact hs ▸ h
    | notDict => simp [Dict.step, dictRemove] at hs

lemma Target.Sane.run (h : d.Sane t w) (ht : ∀ op ∈ ops, op.key.type = t) (hr : run d ops = some d') :
    d'.Sane t w := by
  induction ops generalizing d with
  | nil =>
    simp only [Dict.run, List.foldlM_nil, pure_def, some.injEq] at hr
    exact hr ▸ h
  | cons op ops ih =>
    simp only [Dict.run, List.foldlM_cons, bind_eq_bind, bind_eq_some_iff] at hr
    obtain ⟨d1, h1, hr⟩ := hr
    exact ih (h.step (ht op List.mem_cons_self) h1) (fun op' hop => ht op' (List.mem_cons_of_mem _ hop)) hr

end

section

variable {t : KeyType} {w : SymWidth} {d d' : RayDict α} {k : KeyAtom} {v : α}
  {es : Entries Ident α} {op : Op α} {ops p : List (Op α)}

def applyOp (es : Entries Ident α) : Op α → Entries Ident α
  | .upsert k v => put k.ident v es
  | .remove k => drop k.ident es

def entries (ops : List (Op α)) : Entries Ident α := ops.foldl applyOp []

lemma entries_append (p : List (Op α)) (op : Op α) : entries (p ++ [op]) = applyOp (entries p) op := by
  simp [entries]

lemma nodup_entries (ops : List (Op α)) : (Library.Ordered.keys (entries ops)).Nodup := by
  induction ops using List.reverseRecOn with
  | nil => exact List.nodup_nil
  | append_singleton p op ih =>
    rw [entries_append]
    cases op with
    | upsert k v => exact nodup_put ih
    | remove k => exact nodup_drop ih

lemma lastValue_eq (k : Ident) (ops : List (Op α)) : lastValue k ops = lookup k (entries ops) := by
  induction ops using List.reverseRecOn with
  | nil => rfl
  | append_singleton p op ih =>
    rw [entries_append, lastValue, List.foldl_append]
    rw [lastValue] at ih
    rw [List.foldl_cons, List.foldl_nil, ih]
    cases op with
    | upsert j v => exact lookup_put.symm
    | remove j => exact (lookup_drop (nodup_entries p)).symm

lemma keyOrder_eq (ops : List (Op α)) : keyOrder ops = Library.Ordered.keys (entries ops) := by
  induction ops using List.reverseRecOn with
  | nil => rfl
  | append_singleton p op ih =>
    rw [entries_append, keyOrder, List.foldl_append]
    rw [keyOrder] at ih
    rw [List.foldl_cons, List.foldl_nil, ih]
    cases op with
    | upsert j v =>
      rw [applyOp, keys_put]
      by_cases h : j.ident ∈ Library.Ordered.keys (entries p) <;> simp [h]
    | remove j => exact (keys_drop (nodup_entries p)).symm

structure Represents (d : RayDict α) (es : Entries Ident α) : Prop where
  idents_eq : d.keys.idents = Library.Ordered.keys es
  vals_eq : d.vals = values es

lemma Represents.findIdx_eq (h : Represents d es) (hf : d.keys.hasNulls = false) :
    dictFindIdx d k = position k.ident es := by
  rw [dictFindIdx_of_flag hf, h.idents_eq, Library.Ordered.keys, List.findIdx?_map]
  rfl

lemma Represents.get_eq (h : Represents d es) (hf : d.keys.hasNulls = false) :
    dictGet d k = lookup k.ident es := by
  rw [dictGet, h.findIdx_eq hf, h.vals_eq, lookup_eq_position]

lemma Sane.idents_eq (h : Sane t w d) : d.keys.idents = d.keys.cells.map fun c => (t, some c) := by
  rw [idents_of_flag h.flag]
  by_cases hc : d.keys.cells = []
  · simp [hc]
  · rw [h.type_eq hc]

lemma storedCell_eq (hk : Storable w k) : storedCell w k = k.payload := by
  by_cases hs : k.type = .sym
  · rw [storedCell, if_pos hs, narrow_eq_iff.mpr (hk.2 hs), k.sym_slot hs]
  · rw [storedCell, if_neg hs]

lemma Represents.upsert (h : Represents d es) (hsane : Sane t w d) (ht : k.type = t)
    (hk : Storable w k) (hu : upsertDict d k v = some d') : Represents d' (put k.ident v es) := by
  have hsane' : Sane t w d' := hsane.upsert ht hu
  have hfind : dictFindIdx d k = position k.ident es := h.findIdx_eq hsane.flag
  obtain ⟨i, hi, -, rfl⟩ | ⟨hnone, rfl⟩ := upsertDict_cases hsane ht hu
  · rw [hfind] at hi
    have hmem : k.ident ∈ Library.Ordered.keys es := by
      by_contra hmem
      rw [position_eq_none.mpr hmem] at hi
      cases hi
    constructor
    · rw [hsane'.idents_eq, keys_put, if_pos hmem, ← h.idents_eq, hsane.idents_eq, runtimeKeys_cells hsane]
    · simp [put, hi, values, h.vals_eq, List.map_set]
  · rw [hfind] at hnone
    have hmem : k.ident ∉ Library.Ordered.keys es := position_eq_none.mp hnone
    have hident : k.ident = (t, some k.payload) := by
      simp [KeyAtom.ident, ht, hk.1]
    constructor
    · rw [hsane'.idents_eq, keys_put, if_neg hmem, ← h.idents_eq, hsane.idents_eq, hident]
      simp [vecAppend, (adoptType_spec hsane).2.1, storedCell_eq hk]
    · simp [put, hnone, values, h.vals_eq]

lemma Represents.remove (h : Represents d es) (hsane : Sane t w d) (hr : removeDict d k = some d') :
    Represents d' (drop k.ident es) := by
  have hsane' : Sane t w d' := hsane.remove hr
  have hfind : dictFindIdx d k = position k.ident es := h.findIdx_eq hsane.flag
  obtain ⟨hnone, rfl⟩ | ⟨i, hi, rfl⟩ := removeDict_cases hsane hr
  · rw [hfind] at hnone
    simpa [drop, hnone] using h
  · rw [hfind] at hi
    constructor
    · have hkeys := h.idents_eq
      rw [hsane.idents_eq] at hkeys
      have hdrop : Library.Ordered.keys (drop k.ident es) = (Library.Ordered.keys es).eraseIdx i := by
        simp [drop, hi, Library.Ordered.keys, List.eraseIdx_map]
      rw [hsane'.idents_eq, hdrop, ← hkeys, List.eraseIdx_map]
    · simp [drop, hi, values, h.vals_eq, List.eraseIdx_map]

lemma dictGet_upsert_not_storable (hsane : Sane t w d) (ht : k.type = t) (hk : ¬Storable w k)
    (hu : upsertDict d k v = some d') : dictGet d' k = none := by
  have hsane' : Sane t w d' := hsane.upsert ht hu
  have hnone : dictFindIdx d' k = none := by
    rw [dictFindIdx_of_flag hsane'.flag, hsane'.idents_eq, List.findIdx?_eq_none_iff]
    intro x hx
    obtain ⟨c, hc, rfl⟩ := List.mem_map.mp hx
    refine decide_eq_false fun he => hk ?_
    have hnull : atomIsNull k = false := by
      by_contra hn
      rw [Bool.not_eq_false] at hn
      simp [KeyAtom.ident, hn] at he
    refine ⟨hnull, fun hs => ?_⟩
    have hc' : c = .int k.slot := by
      simp only [KeyAtom.ident, hnull, k.sym_slot hs, Bool.false_eq_true, if_false, Prod.mk.injEq,
        some.injEq] at he
      exact he.2
    obtain ⟨u, hu', hfit⟩ := hsane'.fits c hc (ht.symm.trans hs)
    obtain rfl : u = k.slot := Payload.int.inj (hu'.symm.trans hc')
    have hne : d'.keys.cells ≠ [] := List.ne_nil_of_mem hc
    have hw := hsane'.width_eq (ht.symm.trans hs)
    simp only [Target.symWidth, (hsane'.type_eq hne).trans (ht.symm.trans hs),
      hsane'.domain_eq hne (ht.symm.trans hs), and_self, if_true] at hw
    rw [← hw]
    exact narrow_eq_iff.mp hfit
  rw [dictGet, hnone, bind_none]

end

section

variable {t : KeyType} {w : SymWidth} {start d d' final : Target α} {k : KeyAtom}
  {es : Entries Ident α} {op : Op α} {ops p : List (Op α)}

def Target.Represents (es : Entries Ident α) : Target α → Prop
  | .dict d => Dict.Represents d es
  | _ => es = []

lemma Target.Represents.of_isEmpty (h : d.IsEmpty) : d.Represents [] := by
  cases d with
  | dict d =>
    obtain ⟨hc, -, hv⟩ := h
    exact ⟨by simp [Keys.idents, hc, Library.Ordered.keys], by simp [hv, values]⟩
  | _ => rfl

lemma Target.Represents.opened (h : d.Represents es) : Dict.Represents (d.opened t) es := by
  cases d with
  | dict d => exact h
  | _ =>
    obtain rfl : es = [] := h
    exact ⟨rfl, rfl⟩

lemma Target.Represents.step (h : d.Represents es) (hsane : d.Sane t w) (ht : op.key.type = t)
    (hk : ∀ k v, op = .upsert k v → Storable w k) (hs : step d op = some d') : d'.Represents (applyOp es op) := by
  cases op with
  | upsert k v =>
    simp only [Dict.step, dictUpsert_eq, map_eq_some_iff] at hs
    obtain ⟨e, he, rfl⟩ := hs
    have ht : k.type = t := ht
    rw [ht] at he
    exact h.opened.upsert hsane.opened ht (hk k v rfl) he
  | remove k =>
    cases d with
    | dict d =>
      simp only [Dict.step, dictRemove, map_eq_some_iff] at hs
      obtain ⟨e, he, rfl⟩ := hs
      exact Dict.Represents.remove h hsane he
    | listKeyed =>
      simp only [Dict.step, dictRemove, some.injEq] at hs
      obtain rfl : es = [] := h
      exact hs ▸ rfl
    | notDict => simp [Dict.step, dictRemove] at hs

lemma run_append (d : Target α) (p : List (Op α)) (op : Op α) :
    run d (p ++ [op]) = (run d p).bind (step · op) := by
  simp [run, List.foldlM_append]

lemma represents_run (hstart : start.IsEmpty) (ht : ∀ op ∈ p, op.key.type = t)
    (hk : ∀ k v, .upsert k v ∈ p → Storable start.symWidth k) (hr : run start p = some d) :
      d.Represents (entries p) := by
  induction p using List.reverseRecOn generalizing d with
  | nil =>
    simp only [run, List.foldlM_nil, pure_def, some.injEq] at hr
    exact hr ▸ .of_isEmpty hstart
  | append_singleton p op ih =>
    rw [run_append, bind_eq_some_iff] at hr
    obtain ⟨d1, h1, hs⟩ := hr
    have htp : ∀ op ∈ p, op.key.type = t := fun o ho => ht o (List.mem_append_left _ ho)
    have hmem : op ∈ p ++ [op] := List.mem_append_right _ List.mem_cons_self
    rw [entries_append]
    refine (ih htp (fun k v h => hk k v (List.mem_append_left _ h)) h1).step
      ((Target.Sane.of_isEmpty hstart).run htp h1) (ht op hmem) ?_ hs
    rintro k v rfl
    exact hk k v hmem

lemma Target.Represents.get_eq (h : d.Represents es) (hsane : d.Sane t w) : d.get k = lookup k.ident es := by
  cases d with
  | dict d => exact Dict.Represents.get_eq h hsane.flag
  | _ =>
    obtain rfl : es = [] := h
    rfl

lemma Target.Represents.idents_eq (h : d.Represents es) : d.idents = Library.Ordered.keys es := by
  cases d with
  | dict d => exact Dict.Represents.idents_eq h
  | _ =>
    obtain rfl : es = [] := h
    rfl

lemma Target.Represents.valueCount_eq (h : d.Represents es) : d.valueCount = es.length := by
  cases d with
  | dict d =>
    rw [Target.valueCount, Dict.Represents.vals_eq h, values, List.length_map]
  | _ =>
    obtain rfl : es = [] := h
    rfl

lemma findSym_eq_findIdx (d : Target α) (id : ℤ) (h : KeyType.admits .sym (.int id) = true) :
    d.findSym id = d.findIdx (symAtom id h) := by
  cases d with
  | dict d => exact dictFindSym_eq_dictFindIdx h
  | _ => rfl

lemma lookup_applyOp (hn : (Library.Ordered.keys es).Nodup) {j : Ident} (h : j ≠ op.key.ident) :
    lookup j (applyOp es op) = lookup j es := by
  cases op with
  | upsert k v => exact lookup_put.trans (if_neg h)
  | remove k => exact (lookup_drop hn).trans (if_neg h)

/-- The laws hold along a run exactly when every key that is put in can be found again. -/
theorem dict_map_laws (hstart : start.IsEmpty) (ht : ∀ op ∈ ops, op.key.type = t)
    (hrun : run start ops = some final) :
    (∀ p d, p <+: ops → run start p = some d → MapLaws ops p d) ↔
      ∀ k v, .upsert k v ∈ ops → Storable start.symWidth k := by
  have hsane : ∀ p d, p <+: ops → run start p = some d → d.Sane t start.symWidth := by
    intro p d hp hr
    exact (Target.Sane.of_isEmpty hstart).run (fun op hop => ht op (hp.subset hop)) hr
  constructor
  · intro hlaws k v hmem
    by_contra hk
    obtain ⟨p, q, rfl⟩ := List.append_of_mem hmem
    have hpre : p ++ [.upsert k v] <+: p ++ .upsert k v :: q := ⟨q, by simp⟩
    have hpre' : p <+: p ++ .upsert k v :: q := ⟨.upsert k v :: q, rfl⟩
    -- the run gets past this call, so the state right after it exists
    obtain ⟨d1, h1, d2, h2, -⟩ : ∃ d1, run start p = some d1 ∧ ∃ d2, step d1 (.upsert k v) = some d2 ∧
        run d2 q = some final := by
      simpa [run, List.foldlM_append, bind_eq_some_iff] using hrun
    have hr : run start (p ++ [.upsert k v]) = some d2 := by rw [run_append, h1, bind_some, h2]
    have hget := (hlaws _ d2 hpre hr).get_eq k
    rw [lastValue_eq, entries_append, applyOp, lookup_put, if_pos rfl] at hget
    have hkt : k.type = t := ht _ hmem
    simp only [step, dictUpsert_eq, map_eq_some_iff, hkt] at h2
    obtain ⟨e, he, rfl⟩ := h2
    have hlost := dictGet_upsert_not_storable (hsane p d1 hpre' h1).opened hkt hk he
    rw [Target.get, hlost] at hget
    cases hget
  · intro hk p d hp hr
    have hrep := represents_run hstart (fun op hop => ht op (hp.subset hop))
      (fun k v h => hk k v (hp.subset h)) hr
    have hs := hsane p d hp hr
    refine ⟨?_, ?_, ?_, ?_, findSym_eq_findIdx d, ?_⟩
    · rw [hrep.idents_eq, hrep.valueCount_eq, Library.Ordered.keys, List.length_map]
    · rw [hrep.idents_eq]
      exact nodup_entries p
    · intro k
      rw [hrep.get_eq hs, lastValue_eq]
    · rw [hrep.idents_eq, keyOrder_eq]
    · intro op d' hop hstep k hne
      have hr' : run start (p ++ [op]) = some d' := by rw [run_append, hr, bind_some, hstep]
      have hrep' := represents_run hstart (fun o ho => ht o (hop.subset ho))
        (fun k v h => hk k v (hop.subset h)) hr'
      rw [hrep'.get_eq (hsane _ d' hop hr'), hrep.get_eq hs, entries_append]
      exact lookup_applyOp (nodup_entries p) hne

def nullLong : KeyAtom := ⟨.i64, .int (-2 ^ 63), false, -2 ^ 63, by decide, by decide⟩

theorem dict_map_laws_of_two_symbols :
    ∃ d, run (.notDict : Target ℕ)
    [.upsert (symAtom 5 rfl) 1, .upsert (symAtom 7 rfl) 2, .remove (symAtom 5 rfl)] =
        some d ∧
      MapLaws [.upsert (symAtom 5 rfl) 1, .upsert (symAtom 7 rfl) 2, .remove (symAtom 5 rfl)]
        [.upsert (symAtom 5 rfl) 1, .upsert (symAtom 7 rfl) 2, .remove (symAtom 5 rfl)] d := by
  have hempty : (.notDict : Target ℕ).IsEmpty := trivial
  refine ⟨_, rfl, (dict_map_laws (t := .sym) hempty ?_ rfl).mpr ?_ _ _ (List.prefix_refl _) rfl⟩
  · intro op hop
    fin_cases hop <;> rfl
  · intro k v hkv
    simp only [List.mem_cons, Op.upsert.injEq, reduceCtorEq, List.not_mem_nil, or_false] at hkv
    obtain ⟨rfl, -⟩ | ⟨rfl, -⟩ := hkv <;> exact ⟨rfl, fun _ => .inl rfl⟩

/-- A null key is appended by every upsert, and a wide id is stored as another one. -/
theorem null_and_wide_keys_lost :
    (∃ d, run (.notDict : Target ℕ) [.upsert nullLong 1, .upsert nullLong 2] = some d ∧
      d.valueCount = 2 ∧ d.get nullLong = none ∧
      lastValue nullLong.ident [.upsert nullLong 1, .upsert nullLong 2] = some 2) ∧
    ∃ d, run (.dict ⟨⟨.sym, .w8, none, false, []⟩, []⟩ : Target ℕ) [.upsert (symAtom 300 rfl) 1] = some d ∧
      d.get (symAtom 300 rfl) = none ∧ d.get (symAtom 44 rfl) = some 1 ∧
      lastValue (symAtom 300 rfl).ident [.upsert (symAtom 300 rfl) 1] = some 1 :=
  ⟨⟨_, rfl, by decide⟩, ⟨_, rfl, by decide⟩⟩

end

end Rayforce.Dict
