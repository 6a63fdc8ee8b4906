import Rayforce.Serde.Parse

namespace Rayforce.Serde

open Library.Words List Option

variable {t : FixTy} {s : Bytes}

mutual

def Obj.depth : Obj → ℕ
  | .list _ es => Obj.depths es
  | .table _ _ _ cols => Obj.depths cols + 1
  | .dict _ k v => max k.depth v.depth + 1
  | .lambda _ p b => max p.depth b.depth + 1
  | _ => 0

def Obj.depths : List Obj → ℕ
  | [] => 0
  | e :: es => max (e.depth + 1) (Obj.depths es)

end

def NulFree (s : Bytes) : Prop := 0 ∉ s

def poolBytes (cells : List Bytes) : ℕ :=
  ((cells.filter fun s => rayStrInlineMax < s.length).map List.length).sum

def AtomFits : Atom → Prop
  | .sym s _ => NulFree s
  | .str s => s.length < 2 ^ 63
  | _ => True

-- every length within the decoder's limits, every symbol free of NUL, no error and no block without
-- an encoding; `fnOk` says which builtins may occur
def Obj.Fits (fnOk : FnKind → Bytes → Prop) : Obj → Prop
  | .error _ => False
  | .atom a => AtomFits a
  | .vec _ v => v.cells.length ≤ 1000000000
  | .symVec _ cells => cells.length ≤ 1000000000 ∧ ∀ s ∈ cells, NulFree s
  | .symSlice _ block _ len _ => len ≤ 1000000000 ∧ ∀ s ∈ block, NulFree s
  | .strVec v => v.cells.length ≤ 1000000000 ∧ (∀ s ∈ v.cells, s.length ≤ uint32Max) ∧
      poolBytes v.cells ≤ uint32Max
  | .list _ es => es.length ≤ 1000000000
  | .table _ names _ cols => cols.length ≤ 1000000000 ∧ names.length = cols.length ∧ ∀ s ∈ names, NulFree s
  | .fn k name => fnOk k name
  | .other _ _ => False
  | _ => True

abbrev Obj.Sendable (fnOk : FnKind → Bytes → Prop) (o : Obj) : Prop := o.Every (Obj.Fits fnOk)
abbrev Obj.SendableAll (fnOk : FnKind → Bytes → Prop) (es : List Obj) : Prop := Obj.EveryAll (Obj.Fits fnOk) es

mutual

def Obj.decoded (rt : Runtime) : Obj → Obj
  | .nullPtr => .null
  | .null => .null
  | .error code => .error code
  | .atom a => .atom a
  | .vec t v => .vec t (.owned (wireAttrs v.attrs) v.cells)
  | .symVec attrs cells => .symVec (raySymW64 ||| wireAttrs attrs) cells
  | .symSlice attrs block offset len _ =>
    .symVec (raySymW64 ||| wireAttrs (rayAttrSlice ||| (attrs &&& raySymWMask)))
      ((symSliceCells attrs block offset len).getD [])
  | .strVec v => .strVec (.owned (wireAttrs v.attrs) v.cells)
  | .list attrs es => .list (attrs &&& raySerdeAttrWireMask) (Obj.decodedAll rt es)
  | .table _ names _ cols => .table 0 names 0 (Obj.decodedAll rt cols)
  | .dict attrs k v => .dict (attrs &&& raySerdeAttrWireMask) (k.decoded rt) (v.decoded rt)
  | .lambda _ p b => .lambda 0 (p.decoded rt) (b.decoded rt)
  | .fn _ name => (rt.env (fnWireName name)).getD (.error codeName)
  | .other tag h => .other tag h

def Obj.decodedAll (rt : Runtime) : List Obj → List Obj
  | [] => []
  | e :: es => e.decoded rt :: Obj.decodedAll rt es

end

-- neither C's `NULL` nor an error: a child every compound branch keeps
def Obj.Plain : Obj → Prop
  | .nullPtr => False
  | .error _ => False
  | _ => True

def Resolves (rt : Runtime) (fnOk : FnKind → Bytes → Prop) : Prop :=
  ∀ k name, fnOk k name → NulFree (fnWireName name) ∧ ∃ f, rt.env (fnWireName name) = some f ∧ f.Plain

@[simp] lemma decodedAll_length (rt : Runtime) (es : List Obj) : (Obj.decodedAll rt es).length = es.length := by
  induction es with
  | nil => rfl
  | cons e es ih => simp [Obj.decodedAll, ih]

section

variable {rt : Runtime} {fnOk : FnKind → Bytes → Prop}

lemma decoded_plain (hfn : Resolves rt fnOk) (o : Obj) (h : o.Sendable fnOk) : (o.decoded rt).Plain := by
  cases o with
  | error => exact h.elim
  | other => exact h.elim
  | fn k name =>
    obtain ⟨-, f, hf, hp⟩ := hfn k name h
    simpa [Obj.decoded, hf] using hp
  | _ => trivial

@[simp] lemma ofByte_vecTag (t : FixTy) : Tag.ofByte t.vecTag = .fixedVec t := by cases t <;> rfl
@[simp] lemma ofByte_atomTag (t : FixTy) : Tag.ofByte t.atomTag = .fixedAtom t := by cases t <;> rfl
@[simp] lemma ofByte_wireTag (k : FnKind) : Tag.ofByte k.wireTag = .fn k := by cases k <;> rfl

@[simp] lemma ofByte_raySerdeNull : Tag.ofByte raySerdeNull = .null := rfl
@[simp] lemma ofByte_rayError : Tag.ofByte rayError = .error := rfl
@[simp] lemma ofByte_raySymVec : Tag.ofByte raySymVec = .symVec := rfl
@[simp] lemma ofByte_rayStrVec : Tag.ofByte rayStrVec = .strVec := rfl
@[simp] lemma ofByte_raySymAtom : Tag.ofByte raySymAtom = .symAtom := rfl
@[simp] lemma ofByte_rayStrAtom : Tag.ofByte rayStrAtom = .strAtom := rfl
@[simp] lemma ofByte_rayList : Tag.ofByte rayList = .list := rfl
@[simp] lemma ofByte_rayTable : Tag.ofByte rayTable = .table := rfl
@[simp] lemma ofByte_rayDict : Tag.ofByte rayDict = .dict := rfl
@[simp] lemma ofByte_rayLambda : Tag.ofByte rayLambda = .lambda := rfl

@[simp] lemma wireLen_length (n : ℕ) : (wireLen n).length = 8 := leBytes_length 8 n

lemma leInt_wireLen {n : ℕ} (h : n < 2 ^ 63) : leInt (wireLen n) = n := leInt_leBytes 8 n (by omega)

lemma cutNul_append (h : NulFree s) (rest : Bytes) : cutNul (s ++ 0 :: rest) = some (s, rest) := by
  induction s with
  | nil => rfl
  | cons b s ih =>
    have hb : b ≠ 0 := fun hb => h (by simp [hb])
    have hs : NulFree s := fun hm => h (mem_cons_of_mem _ hm)
    simp [cutNul, hb, ih hs]

lemma parseHeader_wire {n : ℕ} (h : n ≤ 1000000000) (a : UInt8) (bs : Bytes) (k : UInt8 → ℕ → Bytes → Parsed) :
    parseHeader (a :: (wireLen n ++ bs)) k = k a n bs := by
  have hl : leInt (wireLen n) = n := leInt_wireLen (by omega)
  have htake : ((a :: (wireLen n ++ bs)).take 9).drop 1 = wireLen n := by
    simp
  have hdrop : (a :: (wireLen n ++ bs)).drop 9 = bs := by
    rw [drop_succ_cons]
    exact drop_left' (wireLen_length n)
  unfold parseHeader
  rw [if_neg (by simp)]
  dsimp only
  rw [htake, hdrop, hl, if_neg (by simp only [deMaxLen]; omega)]
  simp

lemma cellsOf_flatMap (cells : List (Cell t)) {l : ℕ} {bs : Bytes} (h : bs.length = l * t.size)
    (hl : l = cells.length) (hb : bs = cells.flatMap Cell.bytes) : cellsOf t l bs h = cells := by
  induction cells generalizing l bs with
  | nil => subst hl; rfl
  | cons c cells ih =>
    subst hl
    have hd : bs.drop t.size = cells.flatMap Cell.bytes := by
      rw [hb, flatMap_cons]
      exact drop_left' c.width
    have ht : bs.take t.size = c.bytes := by
      rw [hb, flatMap_cons]
      exact take_left' c.width
    simp only [length_cons, cellsOf, ht]
    rw [ih _ rfl hd]

lemma flatMap_bytes_length (cells : List (Cell t)) :
    (cells.flatMap Cell.bytes).length = cells.length * t.size := by
  induction cells with
  | nil => simp
  | cons c cells ih =>
    rw [flatMap_cons, length_append, ih, c.width, length_cons]
    ring

lemma parseFixedVec_ser (a : UInt8) (cells : List (Cell t)) (h : cells.length ≤ 1000000000) (rest : Bytes) :
    parseFixedVec t (a :: (wireLen cells.length ++ (cells.flatMap Cell.bytes ++ rest))) =
      (.vec t (.owned (keepNulls a) cells), rest) := by
  have hb := flatMap_bytes_length cells
  unfold parseFixedVec
  rw [parseHeader_wire h, dif_neg (by simp only [length_append]; omega)]
  refine Prod.ext ?_ (drop_left' hb)
  exact congrArg (fun cs => Obj.vec t (.owned (keepNulls a) cs)) (cellsOf_flatMap cells _ rfl (take_left' hb))

lemma parseSyms_ser (cells : List Bytes) (h : ∀ s ∈ cells, NulFree s) (rest : Bytes) :
    parseSyms cells.length (serSyms cells ++ rest) = (some cells, rest) := by
  induction cells with
  | nil => rfl
  | cons s cells ih =>
    have hc : cutNul (serSyms (s :: cells) ++ rest) = some (s, serSyms cells ++ rest) := by
      simpa [serSyms] using cutNul_append (h s (by simp)) (serSyms cells ++ rest)
    simp only [length_cons, parseSyms, hc, ih fun s hs => h s (mem_cons_of_mem _ hs), map_some]

lemma serSyms_length (cells : List Bytes) : cells.length ≤ (serSyms cells).length := by
  induction cells with
  | nil => simp
  | cons s cells ih =>
    simp only [serSyms, flatMap_cons, length_append, length_cons] at ih ⊢
    omega

lemma parseSymVec_ser (a : UInt8) (cells : List Bytes) (h : cells.length ≤ 1000000000)
    (hn : ∀ s ∈ cells, NulFree s) (rest : Bytes) :
    parseSymVec (a :: (wireLen cells.length ++ (serSyms cells ++ rest))) =
    (.symVec (raySymW64 ||| keepNulls a) cells, rest) := by
  have hl := serSyms_length cells
  unfold parseSymVec
  rw [parseHeader_wire h, if_neg (by simp only [length_append]; omega), parseSyms_ser cells hn]

lemma rayStrVecAppend_fits {pool : ℕ} {cells : List Bytes} (hs : s.length ≤ uint32Max)
    (hp : pool + poolBytes (s :: cells) ≤ uint32Max) :
    ∃ pool', rayStrVecAppend pool s.length = some pool' ∧ pool' + poolBytes cells ≤ uint32Max := by
  unfold rayStrVecAppend
  rw [if_neg (by omega)]
  by_cases hi : s.length ≤ rayStrInlineMax
  · refine ⟨pool, if_pos hi, ?_⟩
    simpa [poolBytes, filter_cons, not_lt.mpr hi] using hp
  · simp only [poolBytes, filter_cons, decide_eq_true (not_le.mp hi), if_true, map_cons, sum_cons] at hp
    exact ⟨pool + s.length, by rw [if_neg hi, if_neg (by omega)], by simp only [poolBytes]; omega⟩

lemma parseStrs_ser (cells : List Bytes) (pool : ℕ) (h : ∀ s ∈ cells, s.length ≤ uint32Max)
    (hp : pool + poolBytes cells ≤ uint32Max) (rest : Bytes) :
    parseStrs cells.length pool (serStrs cells ++ rest) = (.ok cells, rest) := by
  induction cells generalizing pool with
  | nil => rfl
  | cons s cells ih =>
    have hs := h s (by simp)
    obtain ⟨pool', ha, hp'⟩ := rayStrVecAppend_fits hs hp
    have hser : serStrs (s :: cells) ++ rest = wireLen s.length ++ (s ++ (serStrs cells ++ rest)) := by
      simp [serStrs]
    have hlen : leInt (wireLen s.length) = s.length := leInt_wireLen (by simp only [uint32Max] at hs; omega)
    have ht : (wireLen s.length ++ (s ++ (serStrs cells ++ rest))).take 8 = wireLen s.length :=
      take_left' (wireLen_length _)
    have hd : (wireLen s.length ++ (s ++ (serStrs cells ++ rest))).drop 8 = s ++ (serStrs cells ++ rest) :=
      drop_left' (wireLen_length _)
    rw [hser, length_cons, parseStrs, if_neg (by simp)]
    dsimp only
    rw [ht, hd, hlen, if_neg (by simp; omega), Int.toNat_natCast, ha]
    simp only [drop_left, take_left, ih pool' (fun s hs => h s (mem_cons_of_mem _ hs)) hp']
    rfl

lemma serStrs_length (cells : List Bytes) : cells.length ≤ (serStrs cells).length := by
  induction cells with
  | nil => simp
  | cons s cells ih =>
    simp only [serStrs, flatMap_cons, length_append, length_cons, wireLen_length] at ih ⊢
    omega

lemma parseStrVec_ser (a : UInt8) (cells : List Bytes) (h : cells.length ≤ 1000000000)
    (hs : ∀ s ∈ cells, s.length ≤ uint32Max) (hp : poolBytes cells ≤ uint32Max) (rest : Bytes) :
    parseStrVec (a :: (wireLen cells.length ++ (serStrs cells ++ rest))) =
    (.strVec (.owned (keepNulls a) cells), rest) := by
  have hl := serStrs_length cells
  unfold parseStrVec
  rw [parseHeader_wire h, if_neg (by simp only [length_append]; omega), parseStrs_ser cells 0 hs (by omega)]

end

end Rayforce.Serde
