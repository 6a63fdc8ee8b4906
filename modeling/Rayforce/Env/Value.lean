import Rayforce.Dict.Laws

namespace Rayforce.Env

open Rayforce.Dict Library.Ordered

variable {es : Entries Ident Val} {w : SymWidth}

abbrev Sym := {id : ℤ // KeyType.admits .sym (.int id) = true}

def Sym.atom (s : Sym) : KeyAtom := symAtom s.1 s.2

/-- `leaf` is any other object. The key vector of a dictionary is its own, no slice of another's. -/
inductive Val
  | leaf (obj : ℕ)
  | table (cols : List (Sym × Val))
  | dict (d : RayDict Val)
  | boxed (keys : List (Option Sym)) (vals : List Val)
  | typed (keys : Keys) (vals : List ℕ)

namespace Val

def isDict : Val → Bool
  | .dict _ | .boxed _ _ | .typed _ _ => true
  | _ => false

def len : Val → ℕ
  | .dict d => d.keys.cells.length
  | .boxed keys _ => keys.length
  | .typed keys _ => keys.cells.length
  | _ => 0

def probe (s : Sym) : Val → Option Val
  | .dict d => (dictFindSym d s.1).bind fun i => d.vals[i]?
  | _ => none

def containerProbe (s : Sym) : Val → Option Val
  | .table cols => (cols.find? fun c => c.1 = s).map Prod.snd
  | v => v.probe s

def fresh : Val := .dict ⟨vecNew .sym, []⟩

def upsert (v : Val) (s : Sym) (x : Val) : Option Val :=
  match v with
  | .dict d => (upsertDict d s.atom x).map .dict
  | .boxed keys vals =>
    if keys = [] then (upsertDict ⟨vecNew .sym, vals⟩ s.atom x).map .dict
    else match keys.findIdx? (· = some s) with
      | some i => some (.boxed keys (vals.set i x))
      | none => none
  | .typed keys vals => (upsertDict ⟨keys, vals.map .leaf⟩ s.atom x).map .dict
  | _ => (upsertDict ⟨vecNew .sym, []⟩ s.atom x).map .dict

def remove (s : Sym) : Val → Option Val
  | .dict d => (removeDict d s.atom).map .dict
  | .boxed keys vals =>
    match keys.findIdx? (· = some s) with
    | some i => some (.boxed (keys.eraseIdx i) (vals.eraseIdx i))
    | none => some (.boxed keys vals)
  | .typed keys vals =>
    match dictFindIdx (⟨keys, vals⟩ : RayDict ℕ) s.atom with
    | some _ => (removeDict ⟨keys, vals.map .leaf⟩ s.atom).map .dict
    | none => some (.typed keys vals)
  | _ => none

end Val

section

structure IsSpace (d : RayDict Val) : Prop where
  type : d.keys.type = .sym
  domain : d.keys.domain = none
  flag : d.keys.hasNulls = false
  symbols : ∀ c ∈ d.keys.cells, ∃ s : Sym, c = .int s.1 ∧ d.keys.width.narrow s.1 = s.1
  distinct : d.keys.cells.Nodup
  lengths : d.vals.length = d.keys.cells.length

def Val.Space (s : Sym) : Val → Prop
  | .dict d => IsSpace d ∧ d.keys.width.Holds s.1
  | .boxed keys vals => keys = [] ∧ vals = []
  | _ => False

variable {s t : Sym} {x v : Val} {d d' : RayDict Val}

lemma IsSpace.sane (h : IsSpace d) : Sane .sym d.keys.width d where
  flag := h.flag
  type_eq := fun _ => h.type
  domain_eq := fun _ _ => h.domain
  width_eq := fun _ => by rw [Target.symWidth, if_pos ⟨h.type, h.domain⟩]
  fits := fun c hc _ => by
    obtain ⟨s, hs, hw⟩ := h.symbols c hc
    exact ⟨s.1, hs, hw⟩

def spaceEntries (d : RayDict Val) : Entries Ident Val := d.keys.idents.zip d.vals

lemma IsSpace.idents_eq (h : IsSpace d) : d.keys.idents = d.keys.cells.map fun c => (.sym, some c) :=
    h.sane.idents_eq

lemma IsSpace.keys_entries (h : IsSpace d) : Library.Ordered.keys (spaceEntries d) = d.keys.idents := by
  rw [Library.Ordered.keys, spaceEntries, List.map_fst_zip]
  rw [h.idents_eq, List.length_map, h.lengths]

lemma IsSpace.represents (h : IsSpace d) : Represents d (spaceEntries d) where
  idents_eq := h.keys_entries.symm
  vals_eq := by
    rw [values, spaceEntries, List.map_snd_zip]
    rw [h.idents_eq, List.length_map, h.lengths]

lemma IsSpace.nodup (h : IsSpace d) : (Library.Ordered.keys (spaceEntries d)).Nodup := by
  rw [h.keys_entries, h.idents_eq]
  exact h.distinct.map fun a b hab => by simpa using hab

lemma atom_ident (s : Sym) : s.atom.ident = (.sym, some (.int s.1)) := rfl

lemma atom_ident_inj : s.atom.ident = t.atom.ident ↔ s = t := by
  simp [atom_ident, Subtype.ext_iff]

lemma IsSpace.probe_eq (h : IsSpace d) (s : Sym) :
    (Val.dict d).probe s = lookup s.atom.ident (spaceEntries d) := by
  rw [← h.represents.get_eq h.flag, Val.probe, dictFindSym_eq_dictFindIdx s.2]
  rfl

lemma IsSpace.mem_keys (h : IsSpace d) : ∀ k ∈ Library.Ordered.keys (spaceEntries d), ∃ s :
    Sym, k = s.atom.ident := by
  intro k hk
  rw [h.keys_entries, h.idents_eq] at hk
  obtain ⟨c, hc, rfl⟩ := List.mem_map.mp hk
  obtain ⟨s, rfl, -⟩ := h.symbols c hc
  exact ⟨s, rfl⟩

lemma isSpace_of_represents (hs : Sane .sym w d) (ht : d.keys.type = .sym)
    (hd : d.keys.domain = none) (hr : Represents d es) (hn : (Library.Ordered.keys es).Nodup)
    (hk : ∀ k ∈ Library.Ordered.keys es, ∃ s : Sym, k = s.atom.ident) : IsSpace d where
  type := ht
  domain := hd
  flag := hs.flag
  symbols := by
    intro c hc
    obtain ⟨v, rfl, hw⟩ := hs.fits c hc rfl
    have hmem : (KeyType.sym, some (Payload.int v)) ∈ Library.Ordered.keys es := by
      rw [← hr.idents_eq, hs.idents_eq]
      exact List.mem_map_of_mem hc
    obtain ⟨s, hs'⟩ := hk _ hmem
    have hv : v = s.1 := by simpa [atom_ident] using hs'
    exact ⟨s, by rw [hv], by rw [← hv, hw]⟩
  distinct := by
    rw [← hr.idents_eq, hs.idents_eq] at hn
    exact List.Nodup.of_map _ hn
  lengths := by
    have hlen := congrArg List.length hr.idents_eq
    rw [hs.idents_eq, List.length_map, Library.Ordered.keys, List.length_map] at hlen
    rw [hr.vals_eq, values, List.length_map, hlen]

lemma IsSpace.entries_eq (hr : Represents d es) : spaceEntries d = es := by
  rw [spaceEntries, hr.idents_eq, hr.vals_eq]
  exact (List.zip_of_prod rfl rfl).symm

lemma storable_atom (hw : w.Holds s.1) : Storable w s.atom := ⟨rfl, fun _ => hw⟩

lemma IsSpace.exists_upsert (h : IsSpace d) (s : Sym) (x : Val) : ∃ d', upsertDict d s.atom x = some d' ∧
    d'.keys.type = .sym ∧ d'.keys.domain = none ∧ d'.keys.width = d.keys.width := by
  have hrun : runtimeKeys d.keys = d.keys := by rw [runtimeKeys, h.domain]
  have hadopt : adoptType d.keys .sym = d.keys := if_neg fun hc => hc.2 h.type
  rw [upsertDict]
  simp only [hrun]
  cases hf : dictFindIdx d s.atom with
  | some i =>
    have hpos := h.represents.findIdx_eq h.flag ▸ hf
    obtain ⟨y, hy⟩ := position_eq_some hpos
    have hi : i < d.vals.length := by
      have hlt := (List.getElem?_eq_some_iff.mp hy).1
      rw [spaceEntries, List.length_zip, h.idents_eq, List.length_map, h.lengths, Nat.min_self] at hlt
      rw [h.lengths]
      exact hlt
    exact ⟨_, if_pos hi, h.type, h.domain, rfl⟩
  | none =>
    have happ : appendKey (adoptType d.keys s.atom.type) s.atom = some (symVecAppend d.keys s.atom.slot) := by
      show appendKey (adoptType d.keys .sym) s.atom = _
      rw [hadopt, appendKey, if_pos h.type]
    simp only [happ]
    exact ⟨_, rfl, h.type, h.domain, rfl⟩

lemma IsSpace.upsert (h : IsSpace d) (hw : d.keys.width.Holds s.1) (x : Val) :
    ∃ d', upsertDict d s.atom x = some d' ∧
    IsSpace d' ∧ ∀ t, (Val.dict d').probe t = if t = s then some x else (Val.dict d).probe t := by
  obtain ⟨d', hu, ht, hd, -⟩ := h.exists_upsert s x
  have hr : Represents d' (put s.atom.ident x (spaceEntries d)) :=
    h.represents.upsert h.sane rfl (storable_atom hw) hu
  have hk : ∀ k ∈ Library.Ordered.keys (put s.atom.ident x (spaceEntries d)), ∃ t : Sym, k = t.atom.ident := by
    intro k hk
    rw [keys_put] at hk
    split at hk
    · exact h.mem_keys k hk
    · rcases List.mem_append.mp hk with hk | hk
      · exact h.mem_keys k hk
      · exact ⟨s, List.mem_singleton.mp hk⟩
  have hs : IsSpace d' := isSpace_of_represents (h.sane.upsert rfl hu) ht hd hr (nodup_put h.nodup) hk
  refine ⟨d', hu, hs, fun t => ?_⟩
  rw [hs.probe_eq, IsSpace.entries_eq hr, lookup_put, h.probe_eq]
  simp only [atom_ident_inj]

lemma exists_copy {cells : List Payload} (hc : ∀ c ∈ cells, ∃ v, c = .int v) (ks : Keys) :
    ∃ ks', cells.foldlM copyCell ks = some ks' := by
  induction cells generalizing ks with
  | nil => exact ⟨ks, rfl⟩
  | cons c cells ih =>
    obtain ⟨v, rfl⟩ := hc c (by simp)
    obtain ⟨ks', hks⟩ : ∃ ks', copyCell ks (.int v) = some ks' := by
      rw [copyCell]
      split
      · exact ⟨_, rfl⟩
      · exact ⟨_, rfl⟩
    rw [List.foldlM_cons, hks]
    exact ih (fun c' hc' => hc c' (List.mem_cons_of_mem _ hc')) ks'

lemma IsSpace.exists_remove (h : IsSpace d) (s : Sym) : ∃ d', removeDict d s.atom = some d' ∧
    d'.keys.type = .sym ∧ d'.keys.domain = none := by
  obtain ⟨d', hd'⟩ : ∃ d', removeDict d s.atom = some d' := by
    rw [removeDict]
    cases dictFindIdx d s.atom with
    | none => exact ⟨d, rfl⟩
    | some i =>
      have hc : ∀ c ∈ d.keys.cells.eraseIdx i, ∃ v, c = .int v := by
        intro c hc
        obtain ⟨s, hs, -⟩ := h.symbols c (List.mem_of_mem_eraseIdx hc)
        exact ⟨s.1, hs⟩
      obtain ⟨ks, hks⟩ := exists_copy hc ⟨d.keys.type, d.keys.width, none, false, []⟩
      simp only [hks]
      exact ⟨_, rfl⟩
  obtain ⟨-, rfl⟩ | ⟨i, -, rfl⟩ := removeDict_cases h.sane hd'
  · exact ⟨_, hd', h.type, h.domain⟩
  · exact ⟨_, hd', h.type, h.domain⟩

lemma IsSpace.remove (h : IsSpace d) (s : Sym) : ∃ d', removeDict d s.atom = some d' ∧
    IsSpace d' ∧ ∀ t, (Val.dict d').probe t = if t = s then none else (Val.dict d).probe t := by
  obtain ⟨d', hu, ht, hd⟩ := h.exists_remove s
  have hr : Represents d' (drop s.atom.ident (spaceEntries d)) := h.represents.remove h.sane hu
  have hk : ∀ k ∈ Library.Ordered.keys (drop s.atom.ident (spaceEntries d)), ∃ t : Sym, k = t.atom.ident := by
    intro k hk
    rw [keys_drop h.nodup] at hk
    exact h.mem_keys k (List.mem_of_mem_filter hk)
  have hs : IsSpace d' := isSpace_of_represents (h.sane.remove hu) ht hd hr (nodup_drop h.nodup) hk
  refine ⟨d', hu, hs, fun t => ?_⟩
  rw [hs.probe_eq, IsSpace.entries_eq hr, lookup_drop h.nodup, h.probe_eq]
  simp only [atom_ident_inj]

lemma IsSpace.len_eq_zero (h : IsSpace d) : (Val.dict d).len = 0 ↔ ∀ t, (Val.dict d).probe t = none := by
  rw [Val.len, List.length_eq_zero_iff]
  constructor
  · intro hc t
    rw [h.probe_eq]
    refine lookup_eq_none ?_
    rw [h.keys_entries, h.idents_eq, hc]
    exact List.not_mem_nil
  · intro hnone
    by_contra hc
    obtain ⟨c, hmem⟩ := List.exists_mem_of_ne_nil _ hc
    obtain ⟨s, rfl, -⟩ := h.symbols c hmem
    have hpos : s.atom.ident ∈ Library.Ordered.keys (spaceEntries d) := by
      rw [h.keys_entries, h.idents_eq]
      exact List.mem_map_of_mem hmem
    have hl := hnone s
    rw [h.probe_eq, lookup_eq_position] at hl
    cases hp : position s.atom.ident (spaceEntries d) with
    | none => exact position_eq_none.mp hp hpos
    | some i =>
      obtain ⟨x, hx⟩ := position_eq_some hp
      rw [hp, Option.bind_some, values, List.getElem?_map, hx] at hl
      cases hl

lemma isSpace_fresh : IsSpace ⟨vecNew .sym, []⟩ where
  type := rfl
  domain := rfl
  flag := rfl
  symbols := fun _ hc => (List.not_mem_nil hc).elim
  distinct := List.nodup_nil
  lengths := rfl

lemma space_fresh (s : Sym) : Val.fresh.Space s := ⟨isSpace_fresh, .inl rfl⟩

lemma probe_fresh (t : Sym) : Val.fresh.probe t = none := rfl

lemma Val.Space.isDict (h : v.Space s) : v.isDict = true := by
  cases v with
  | leaf obj => cases h
  | table cols => cases h
  | _ => rfl

lemma containerProbe_of_isDict (h : v.isDict = true) (t : Sym) : v.containerProbe t = v.probe t := by
  cases v with
  | table cols => cases h
  | _ => rfl

lemma Val.Space.upsert (h : v.Space s) (x : Val) : ∃ d', v.upsert s x = some (.dict d') ∧ IsSpace d' ∧
    ∀ t, (Val.dict d').probe t = if t = s then some x else v.probe t := by
  cases v with
  | dict d =>
    obtain ⟨d', hu, hs, hp⟩ := h.1.upsert h.2 x
    exact ⟨d', by rw [Val.upsert, hu]; rfl, hs, hp⟩
  | boxed keys vals =>
    obtain ⟨rfl, rfl⟩ := h
    obtain ⟨d', hu, hs, hp⟩ := isSpace_fresh.upsert (s := s) (.inl rfl) x
    exact ⟨d', by rw [Val.upsert, if_pos rfl, hu]; rfl, hs, hp⟩
  | _ => cases h

lemma Val.Space.remove (h : v.Space s) (hp : v.probe s ≠ none) : ∃ d', v.remove s = some (.dict d') ∧ IsSpace d' ∧
    ∀ t, (Val.dict d').probe t = if t = s then none else v.probe t := by
  cases v with
  | dict d =>
    obtain ⟨d', hu, hs, hd⟩ := h.1.remove s
    exact ⟨d', by rw [Val.remove, hu]; rfl, hs, hd⟩
  | boxed keys vals => exact (hp rfl).elim
  | _ => cases h

end

end Rayforce.Env
