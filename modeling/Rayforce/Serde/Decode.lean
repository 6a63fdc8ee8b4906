import Rayforce.Serde.Encode

/-! `de_raw_inner`, with pointer, counter and depth apart. -/

namespace Rayforce.Serde

open Library.Words

def rayDeMaxDepth : ℕ := 512
def deMaxLen : ℤ := 1000000000

def codeType : Bytes := [0x74, 0x79, 0x70, 0x65]
def codeName : Bytes := [0x6e, 0x61, 0x6d, 0x65]
def codeRange : Bytes := [0x72, 0x61, 0x6e, 0x67, 0x65]

inductive AllocKind
  | fixedWidth (esz : ℕ)
  | chars
  | counted
  | columns
  | slots
  deriving DecidableEq, Repr

structure Alloc where
  kind : AllocKind
  count : ℤ
  room : ℤ
  deriving DecidableEq, Repr

structure DeState where
  len : ℤ
  depth : ℕ
  allocs : List Alloc
  deriving DecidableEq, Repr

def DeState.skip (s : DeState) (n : ℤ) : DeState := { s with len := s.len - n }

def DeState.alloc (s : DeState) (kind : AllocKind) (count : ℤ) : DeState :=
  { s with allocs := s.allocs ++ [⟨kind, count, s.len⟩] }

abbrev De := Option (Obj × DeState)

def rd (m : Bytes) (p n : ℕ) : Option Bytes :=
  if p + n ≤ m.length then some ((m.drop p).take n) else none

def safeStrlen (m : Bytes) (p : ℕ) : ℕ → Option ℕ
  | 0 => some 0
  | max + 1 =>
    (rd m p 1).bind fun b => if b = [0] then some 0 else (safeStrlen m (p + 1) max).map (· + 1)

def raise (code : Bytes) (s : DeState) : De := some (.error code, s)

def rayTypedNull (t : FixTy) : Obj := .atom (.null t)

lemma settle_length (t : FixTy) (bs : Bytes) (h : bs.length = t.size) : (settle t bs).length = t.size := by
  cases t <;> simp_all [settle, FixTy.size]
  split <;> simp [h]

lemma nanBits_quiet (n : ℕ) (h : nanBits 23 8 n = true) : nanBits 23 8 (n ||| 2 ^ 22) = true := by
  simp only [nanBits, Bool.and_eq_true, beq_iff_eq, bne_iff_ne] at h ⊢
  have hd : (n ||| 2 ^ 22) / 2 ^ 23 = n / 2 ^ 23 := by
    rw [← Nat.shiftRight_eq_div_pow, ← Nat.shiftRight_eq_div_pow, Nat.shiftRight_or_distrib]
    simp
  have hm : (n ||| 2 ^ 22) % 2 ^ 23 = n % 2 ^ 23 ||| 2 ^ 22 := by
    rw [Nat.or_mod_two_pow]
    rfl
  refine ⟨by rw [hd]; exact h.1, ?_⟩
  rw [hm]
  have hle : 2 ^ 22 ≤ n % 2 ^ 23 ||| 2 ^ 22 := Nat.right_le_or
  exact (lt_of_lt_of_le (by norm_num) hle).ne'

lemma settle_idem (t : FixTy) (bs : Bytes) (h : bs.length = t.size) : settle t (settle t bs) = settle t bs := by
  cases t with
  | bool =>
    simp only [settle, List.map_map]
    apply List.map_congr_left
    intro b _
    by_cases hb : b = 0 <;> simp [hb]
  | f32 =>
    simp only [settle]
    by_cases hn : nanBits 23 8 (leNat bs) = true
    · have hlt : leNat bs ||| 2 ^ 22 < 256 ^ 4 := by
        have hl : leNat bs < 2 ^ 32 := by simpa [h, FixTy.size] using leNat_lt bs
        exact Nat.or_lt_two_pow hl (by norm_num)
      have hor : leNat bs ||| 2 ^ 22 ||| 2 ^ 22 = leNat bs ||| 2 ^ 22 := by rw [Nat.or_assoc, Nat.or_self]
      simp only [hn, if_true, leNat_leBytes 4 _ hlt, nanBits_quiet _ hn, hor]
    · simp [hn]
  | _ => rfl

def fixedAtom (t : FixTy) (bs : Bytes) (h : bs.length = t.size) : Obj :=
  .atom (.fixed t ⟨settle t bs, settle_length t bs h⟩ (settle_idem t bs h))

lemma rd_length {m : Bytes} {p n : ℕ} {bs : Bytes} (h : rd m p n = some bs) : bs.length = n := by
  unfold rd at h
  split at h
  · cases h
    simp
    omega
  · cases h

def deFixedAtom (m : Bytes) (p : ℕ) (s : DeState) (isNull : Bool) (t : FixTy) : De :=
  if s.len < t.size then raise codeDomain s
  else
    match h : rd m p t.size with
    | none => none
    | some bs => some (if isNull then rayTypedNull t else fixedAtom t bs (rd_length h), s.skip t.size)

def deSymAtom (m : Bytes) (p : ℕ) (s : DeState) (isNull quoted : Bool) : De :=
  (safeStrlen m p s.len.toNat).bind fun slen =>
    if s.len ≤ slen then raise codeDomain s
    else if isNull then some (.atom (.sym [] false), s.skip (slen + 1))
    else (rd m p slen).map fun bs => (.atom (.sym bs quoted), s.skip (slen + 1))

def deStrAtom (m : Bytes) (p : ℕ) (s : DeState) (isNull : Bool) : De :=
  if s.len < 8 then raise codeDomain s
  else (rd m p 8).bind fun w =>
    let slen := leInt w
    let s := s.skip 8
    if s.len < slen ∨ slen < 0 then raise codeDomain s
    else if isNull then some (.atom .nullStr, s.skip slen)
    else (rd m (p + 8) slen.toNat).map fun bs =>
      (.atom (.str bs), (s.skip slen).alloc .chars slen)

def deAtom (m : Bytes) (p : ℕ) (s : DeState) (t : Tag) : De :=
  if s.len < 1 then raise codeDomain s
  else (rd m p 1).bind fun f =>
    let aflags := f.headD 0
    let isNull := aflags &&& 1 != 0
    let s := s.skip 1
    match t with
    | .fixedAtom t => deFixedAtom m (p + 1) s isNull t
    | .symAtom => deSymAtom m (p + 1) s isNull (aflags &&& attrQuoted != 0)
    | .strAtom => deStrAtom m (p + 1) s isNull
    | _ => raise codeType s

def deHeader (m : Bytes) (p : ℕ) (s : DeState) (k : UInt8 → ℤ → DeState → De) : De :=
  if s.len < 9 then raise codeDomain s
  else (rd m p 9).bind fun h =>
    let l := leInt (h.drop 1)
    let s := s.skip 9
    if l < 0 ∨ deMaxLen < l then raise codeDomain s else k (h.headD 0) l s

def keepNulls (attrs : UInt8) : UInt8 := attrs &&& rayAttrHasNulls

def cellsOf (t : FixTy) : (l : ℕ) → (bs : Bytes) → bs.length = l * t.size → List (Cell t)
  | 0, _, _ => []
  | l + 1, bs, h =>
    ⟨bs.take t.size, by simp [h, Nat.succ_mul]⟩ :: cellsOf t l (bs.drop t.size) (by simp [h, Nat.succ_mul])

def deFixedVec (m : Bytes) (p : ℕ) (s : DeState) (t : FixTy) : De :=
  deHeader m p s fun attrs l s =>
    if s.len < l * t.size then raise codeDomain s
    else
      let s := s.alloc (.fixedWidth t.size) l
      match h : rd m (p + 9) (l.toNat * t.size) with
      | none => none
      | some bs =>
        some (.vec t (.owned (keepNulls attrs) (cellsOf t l.toNat bs (rd_length h))), s.skip (l * t.size))

def deSyms (m : Bytes) : ℕ → ℕ → DeState → Option (Option (List Bytes) × DeState)
  | 0, _, s => some (some [], s)
  | n + 1, p, s =>
    (safeStrlen m p s.len.toNat).bind fun slen =>
      if s.len ≤ slen then some (none, s)
      else (rd m p slen).bind fun bs =>
        (deSyms m n (p + slen + 1) (s.skip (slen + 1))).map fun r => (r.1.map (bs :: ·), r.2)

def deSymVec (m : Bytes) (p : ℕ) (s : DeState) : De :=
  deHeader m p s fun attrs l s =>
    if s.len < l then raise codeDomain s
    else
      (deSyms m l.toNat (p + 9) (s.alloc .counted l)).map fun r =>
        match r.1 with
        | none => (.error codeDomain, r.2)
        | some cells => (.symVec (raySymW64 ||| keepNulls attrs) cells, r.2)

def uint32Max : ℕ := 2 ^ 32 - 1

-- `ray_str_vec_append`: the pool bytes in use afterwards, unless a limit is passed
def rayStrVecAppend (pool : ℕ) (slen : ℕ) : Option ℕ :=
  if uint32Max < slen then none
  else if slen ≤ rayStrInlineMax then some pool
  else if uint32Max < pool ∨ uint32Max - pool < slen then none
  else some (pool + slen)

def deStrs (m : Bytes) : ℕ → ℕ → ℕ → DeState → Option (Except Bytes (List Bytes) × DeState)
  | 0, _, _, s => some (.ok [], s)
  | n + 1, pool, p, s =>
    if s.len < 8 then some (.error codeDomain, s)
    else (rd m p 8).bind fun w =>
      let slen := leInt w
      let s := s.skip 8
      if s.len < slen ∨ slen < 0 then some (.error codeDomain, s)
      else (rd m (p + 8) slen.toNat).bind fun bs =>
        match rayStrVecAppend pool slen.toNat with
        | none => some (.error codeRange, s)
        | some pool =>
          (deStrs m n pool (p + 8 + slen.toNat) (s.skip slen)).map fun r => (r.1.map (bs :: ·), r.2)

def deStrVec (m : Bytes) (p : ℕ) (s : DeState) : De :=
  deHeader m p s fun attrs l s =>
    if s.len < l then raise codeDomain s
    else
      (deStrs m l.toNat 0 (p + 9) (s.alloc .counted l)).map fun r =>
        match r.1 with
        | .error code => (.error code, r.2)
        | .ok cells => (.strVec (.owned (keepNulls attrs) cells), r.2)

def orNullObj : Obj → Obj
  | .nullPtr => .null
  | o => o

-- the child pointer is `buf + (saved - *len)`
def childPtr (p : ℕ) (saved : ℤ) (s : DeState) : ℕ := p + (saved - s.len).toNat

def deElems (child : ℕ → DeState → De) (p : ℕ) (saved : ℤ) :
    ℕ → DeState → Option (Except Bytes (List Obj) × DeState)
  | 0, s => some (.ok [], s)
  | n + 1, s =>
    (child (childPtr p saved s) s).bind fun r =>
      match r.1 with
      | .error code => some (.error code, r.2)
      | o => (deElems child p saved n r.2).map fun q => (q.1.map (orNullObj o :: ·), q.2)

def deList (child : ℕ → DeState → De) (m : Bytes) (p : ℕ) (s : DeState) : De :=
  deHeader m p s fun attrs l s =>
    if s.len < l then raise codeDomain s
    else
      let s := s.alloc .counted l
      (deElems child (p + 9) s.len l.toNat s).map fun r =>
        match r.1 with
        | .error code => (.error code, r.2)
        | .ok elems => (.list (attrs &&& raySerdeAttrWireMask) elems, r.2)

def dePair (child : ℕ → DeState → De) (m : Bytes) (p : ℕ) (s : DeState)
    (k : UInt8 → Obj → Obj → DeState → De) : De :=
  if s.len < 1 then raise codeDomain s
  else (rd m p 1).bind fun a =>
    let s := s.skip 1
    let saved := s.len
    (child (p + 1) s).bind fun r =>
      match r.1 with
      | .nullPtr => some (.nullPtr, r.2)
      | .error code => some (.error code, r.2)
      | first =>
        (child (childPtr (p + 1) saved r.2) r.2).bind fun q =>
          match q.1 with
          | .nullPtr => some (.nullPtr, q.2)
          | .error code => some (.error code, q.2)
          | second => k (a.headD 0) first second q.2

def schemaNames (symStr : ℤ → Bytes) : Obj → Option (List Bytes)
  | .symVec _ cells => some cells
  | .vec .i64 v => some (v.cells.map fun c => symStr (leInt c.bytes))
  | _ => none

def columnList : Obj → Option (List Obj)
  | .list _ elems => some elems
  | _ => none

def rebuildTable (names : List Bytes) (cols : List Obj) : Obj :=
  .table 0 (names.take cols.length) 0 (cols.take names.length)

def deTable (symStr : ℤ → Bytes) (schema cols : Obj) (s : DeState) : De :=
  match columnList cols, schemaNames symStr schema with
  | some cs, some names => some (rebuildTable names cs, s.alloc .columns cs.length)
  | _, _ => raise codeDomain s

def deFn (env : Env) (m : Bytes) (p : ℕ) (s : DeState) : De :=
  (safeStrlen m p s.len.toNat).bind fun nlen =>
    if s.len ≤ nlen then raise codeDomain s
    else (rd m p nlen).bind fun name =>
      match env name with
      | none => raise codeName s
      | some f => some (f, s.skip (nlen + 1))

def deError (m : Bytes) (p : ℕ) (s : DeState) : De :=
  if s.len < 8 then raise codeDomain s
  else (rd m p 8).map fun bs => (.error ((bs.takeWhile (· != 0)).take 7), s.skip 8)

def deRawInner (rt : Runtime) (child : ℕ → DeState → De) (m : Bytes) (p : ℕ) (s : DeState) : De :=
  if s.len < 1 then some (.nullPtr, s)
  else (rd m p 1).bind fun b =>
    let s := s.skip 1
    let p := p + 1
    match Tag.ofByte (b.headD 0) with
    | .null => some (.null, s)
    | .fixedVec t => deFixedVec m p s t
    | .symVec => deSymVec m p s
    | .strVec => deStrVec m p s
    | .list => deList child m p s
    | .table => dePair child m p s fun _ schema cols s => deTable rt.symStr schema cols s
    | .dict => dePair child m p s fun attrs keys vals s =>
        some (.dict (attrs &&& raySerdeAttrWireMask) keys vals, s.alloc .slots 2)
    | .lambda => dePair child m p s fun _ params body s =>
        some (.lambda 0 params body, s.alloc .slots 7)
    | .fn _ => deFn rt.env m p s
    | .error => deError m p s
    | .unknown => raise codeType s
    | t => deAtom m p s t

-- `fuel` bounds the recursion for Lean; `rayDeMaxDepth - depth` of it always suffices
def rayDeRaw (rt : Runtime) (m : Bytes) : ℕ → ℕ → DeState → De
  | 0, _, s => if rayDeMaxDepth ≤ s.depth then raise codeDomain s else none
  | fuel + 1, p, s =>
    if rayDeMaxDepth ≤ s.depth then raise codeDomain s
    else
      (deRawInner rt (rayDeRaw rt m fuel) m p { s with depth := s.depth + 1 }).map fun r =>
        (r.1, { r.2 with depth := r.2.depth - 1 })

end Rayforce.Serde
