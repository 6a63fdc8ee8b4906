import Rayforce.Dict.Object
import Rayforce.Join.Keys

/-! Symbol vectors: positions of a domain, in cells of one width. -/

namespace Rayforce.Symvec

open Library.Words Rayforce.Dict Rayforce.Join List Option

/-- Without `domain` the cells are runtime ids. -/
structure SymVec where
  width : SymWidth
  domain : Option ℕ
  cells : List ℕ
  fits : ∀ c ∈ cells, c < 2 ^ width.bits

section

variable (S : Symbols) (d : Option ℕ)

def domainStr (pos : ℕ) : Option Bytes := (S.names d)[pos]?

def domainFind (s : Bytes) : Option ℕ := (S.names d).idxOf? s

def atomStr (id : ℕ) : Option Bytes := domainStr S none id

def inDomain (id : ℕ) : Option ℕ :=
  match d with
  | none => some id
  | some d => (atomStr S id).bind (domainFind S (some d))

def runtimeId (pos : ℕ) : Option ℕ :=
  match d with
  | none => some pos
  | some d => (domainStr S (some d) pos).bind (domainFind S none)

end

section

variable {S : Symbols} {d : Option ℕ} {s : Bytes} {id pos pos' : ℕ}

lemma domainFind_eq_some : domainFind S d s = some pos ↔ domainStr S d pos = some s := by
  rw [domainFind, domainStr, idxOf?_eq_some_iff, getElem?_eq_some_iff]
  constructor
  · rintro ⟨h, he, -⟩
    exact ⟨h, he⟩
  · rintro ⟨h, he⟩
    refine ⟨h, he, fun j hj hje => ?_⟩
    have hjs : (S.names d)[j]? = (S.names d)[pos]? := by
      rw [getElem?_eq_getElem (hj.trans h), getElem?_eq_getElem h, hje, he]
    exact hj.ne ((getElem?_inj (hj.trans h) (names_nodup S d)).mp hjs)

lemma domainStr_isSome : (domainStr S d pos).isSome ↔ pos < (S.names d).length := by
  rw [domainStr, isSome_getElem?]

lemma domainStr_inj (hpos : (domainStr S d pos).isSome) : domainStr S d pos = domainStr S d pos' ↔ pos = pos' :=
  getElem?_inj (domainStr_isSome.mp hpos) (names_nodup S d)

lemma inDomain_eq_some (hid : (atomStr S id).isSome) :
    inDomain S d id = some pos ↔ domainStr S d pos = atomStr S id := by
  cases d with
  | none =>
    rw [inDomain, some.injEq, ← domainStr_inj hid]
    exact eq_comm
  | some d =>
    obtain ⟨s, hs⟩ := isSome_iff_exists.mp hid
    rw [inDomain, hs, bind_some, domainFind_eq_some]

lemma runtimeId_eq_some (hid : (atomStr S id).isSome) :
    runtimeId S d pos = some id ↔ domainStr S d pos = atomStr S id := by
  cases d with
  | none =>
    rw [runtimeId, some.injEq, eq_comm, eq_comm (a := domainStr S none pos)]
    exact (domainStr_inj hid).symm
  | some d =>
    cases hs : domainStr S (some d) pos with
    | none =>
      rw [runtimeId, hs]
      exact ⟨fun h => (some_ne_none _ h.symm).elim, fun h => by rw [← h] at hid; cases hid⟩
    | some s =>
      rw [runtimeId, hs, bind_some, domainFind_eq_some, atomStr]
      exact eq_comm

lemma atomStr_runtimeId : (runtimeId S d pos).bind (atomStr S) = domainStr S d pos := by
  cases d with
  | none => rfl
  | some d =>
    cases hs : domainStr S (some d) pos with
    | none => rw [runtimeId, hs, bind_none, bind_none]
    | some s =>
      have hmem : s ∈ S.runtime := S.file_sub d s (mem_of_getElem? hs)
      obtain ⟨id, hid⟩ := mem_iff_getElem?.mp hmem
      have hstr : domainStr S none id = some s := hid
      rw [runtimeId, hs, bind_some, domainFind_eq_some.mpr hstr]
      exact hid

end

section

variable (S : Symbols)

def SymVec.str (v : SymVec) (c : ℕ) : Option Bytes := domainStr S v.domain c

def SymVec.append (v : SymVec) (id : ℕ) : SymVec where
  width := v.width
  domain := v.domain
  cells := v.cells ++ [id % 2 ^ v.width.bits]
  fits := by
    intro c hc
    rcases List.mem_append.mp hc with hc | hc
    · exact v.fits c hc
    · rw [List.mem_singleton.mp hc]
      exact Nat.mod_lt _ (Nat.two_pow_pos _)

def SymVec.words (stray : ℕ → ℕ) (v : SymVec) : List ℕ :=
  if v.width = .w64 then v.cells else (List.range v.cells.length).map fun r => stray r % 2 ^ 64

@[simp] lemma SymVec.length_words (stray : ℕ → ℕ) (v : SymVec) : (v.words stray).length = v.cells.length := by
  rw [words]
  split
  · rfl
  · rw [length_map, length_range]

lemma SymVec.words_lt (stray : ℕ → ℕ) (v : SymVec) : ∀ c ∈ v.words stray, c < 2 ^ 64 := by
  intro c hc
  rw [words] at hc
  split at hc
  · rename_i hw
    have hlt := v.fits c hc
    rwa [hw] at hlt
  · obtain ⟨r, -, rfl⟩ := mem_map.mp hc
    exact Nat.mod_lt _ (Nat.two_pow_pos _)

lemma SymVec.words_full (stray : ℕ → ℕ) {v : SymVec} (hw : v.width = .w64) : v.words stray = v.cells := if_pos hw

def SymVec.Placed (v : SymVec) : Prop := ∀ c ∈ v.cells, (v.str S c).isSome

end

end Rayforce.Symvec
