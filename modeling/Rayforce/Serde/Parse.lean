import Rayforce.Serde.Decode

/-! The decoder as a function of the bytes still to be read. -/

namespace Rayforce.Serde

open Library.Words

abbrev Parsed := Obj × Bytes

def cutNul : Bytes → Option (Bytes × Bytes)
  | [] => none
  | b :: bs => if b = 0 then some ([], bs) else (cutNul bs).map fun r => (b :: r.1, r.2)

def parseFixedAtom (isNull : Bool) (t : FixTy) (bs : Bytes) : Parsed :=
  if h : bs.length < t.size then (.error codeDomain, bs)
  else (if isNull then rayTypedNull t else fixedAtom t (bs.take t.size) (by simp; omega), bs.drop t.size)

def parseSymAtom (isNull quoted : Bool) (bs : Bytes) : Parsed :=
  match cutNul bs with
  | none => (.error codeDomain, bs)
  | some (name, rest) => (.atom (if isNull then .sym [] false else .sym name quoted), rest)

def parseStrAtom (isNull : Bool) (bs : Bytes) : Parsed :=
  if bs.length < 8 then (.error codeDomain, bs)
  else
    let slen := leInt (bs.take 8)
    let bs := bs.drop 8
    if bs.length < slen ∨ slen < 0 then (.error codeDomain, bs)
    else (.atom (if isNull then .nullStr else .str (bs.take slen.toNat)), bs.drop slen.toNat)

def parseAtom (t : Tag) (bs : Bytes) : Parsed :=
  if bs.length < 1 then (.error codeDomain, bs)
  else
    let aflags := bs.headD 0
    let isNull := aflags &&& 1 != 0
    let bs := bs.drop 1
    match t with
    | .fixedAtom t => parseFixedAtom isNull t bs
    | .symAtom => parseSymAtom isNull (aflags &&& attrQuoted != 0) bs
    | .strAtom => parseStrAtom isNull bs
    | _ => (.error codeType, bs)

def parseHeader (bs : Bytes) (k : UInt8 → ℕ → Bytes → Parsed) : Parsed :=
  if bs.length < 9 then (.error codeDomain, bs)
  else
    let l := leInt ((bs.take 9).drop 1)
    let rest := bs.drop 9
    if l < 0 ∨ deMaxLen < l then (.error codeDomain, rest) else k (bs.headD 0) l.toNat rest

def parseFixedVec (t : FixTy) (bs : Bytes) : Parsed :=
  parseHeader bs fun attrs l bs =>
    if h : bs.length < l * t.size then (.error codeDomain, bs)
    else
      (.vec t (.owned (keepNulls attrs) (cellsOf t l (bs.take (l * t.size)) (by simp; omega))),
        bs.drop (l * t.size))

def parseSyms : ℕ → Bytes → Option (List Bytes) × Bytes
  | 0, bs => (some [], bs)
  | n + 1, bs =>
    match cutNul bs with
    | none => (none, bs)
    | some (name, rest) => let r := parseSyms n rest; (r.1.map (name :: ·), r.2)

def parseSymVec (bs : Bytes) : Parsed :=
  parseHeader bs fun attrs l bs =>
    if bs.length < l then (.error codeDomain, bs)
    else
      match parseSyms l bs with
      | (none, rest) => (.error codeDomain, rest)
      | (some cells, rest) => (.symVec (raySymW64 ||| keepNulls attrs) cells, rest)

def parseStrs : ℕ → ℕ → Bytes → Except Bytes (List Bytes) × Bytes
  | 0, _, bs => (.ok [], bs)
  | n + 1, pool, bs =>
    if bs.length < 8 then (.error codeDomain, bs)
    else
      let slen := leInt (bs.take 8)
      let bs := bs.drop 8
      if bs.length < slen ∨ slen < 0 then (.error codeDomain, bs)
      else
        match rayStrVecAppend pool slen.toNat with
        | none => (.error codeRange, bs)
        | some pool =>
          let r := parseStrs n pool (bs.drop slen.toNat)
          (r.1.map (bs.take slen.toNat :: ·), r.2)

def parseStrVec (bs : Bytes) : Parsed :=
  parseHeader bs fun attrs l bs =>
    if bs.length < l then (.error codeDomain, bs)
    else
      match parseStrs l 0 bs with
      | (.error code, rest) => (.error code, rest)
      | (.ok cells, rest) => (.strVec (.owned (keepNulls attrs) cells), rest)

def parseElems (child : Bytes → Parsed) : ℕ → Bytes → Except Bytes (List Obj) × Bytes
  | 0, bs => (.ok [], bs)
  | n + 1, bs =>
    match child bs with
    | (.error code, rest) => (.error code, rest)
    | (o, rest) => let r := parseElems child n rest; (r.1.map (orNullObj o :: ·), r.2)

def parseList (child : Bytes → Parsed) (bs : Bytes) : Parsed :=
  parseHeader bs fun attrs l bs =>
    if bs.length < l then (.error codeDomain, bs)
    else
      match parseElems child l bs with
      | (.error code, rest) => (.error code, rest)
      | (.ok elems, rest) => (.list (attrs &&& raySerdeAttrWireMask) elems, rest)

def parsePair (child : Bytes → Parsed) (bs : Bytes) (k : UInt8 → Obj → Obj → Obj) : Parsed :=
  if bs.length < 1 then (.error codeDomain, bs)
  else
    match child (bs.drop 1) with
    | (.nullPtr, rest) => (.nullPtr, rest)
    | (.error code, rest) => (.error code, rest)
    | (first, rest) =>
      match child rest with
      | (.nullPtr, rest) => (.nullPtr, rest)
      | (.error code, rest) => (.error code, rest)
      | (second, rest) => (k (bs.headD 0) first second, rest)

def tableOf (symStr : ℤ → Bytes) (schema cols : Obj) : Obj :=
  match columnList cols, schemaNames symStr schema with
  | some cs, some names => rebuildTable names cs
  | _, _ => .error codeDomain

def parseFn (env : Env) (bs : Bytes) : Parsed :=
  match cutNul bs with
  | none => (.error codeDomain, bs)
  | some (name, rest) =>
    match env name with
    | none => (.error codeName, bs)
    | some f => (f, rest)

def parseError (bs : Bytes) : Parsed :=
  if bs.length < 8 then (.error codeDomain, bs)
  else (.error (((bs.take 8).takeWhile (· != 0)).take 7), bs.drop 8)

def parseInner (rt : Runtime) (child : Bytes → Parsed) (bs : Bytes) : Parsed :=
  match bs with
  | [] => (.nullPtr, [])
  | b :: bs =>
    match Tag.ofByte b with
    | .null => (.null, bs)
    | .fixedVec t => parseFixedVec t bs
    | .symVec => parseSymVec bs
    | .strVec => parseStrVec bs
    | .list => parseList child bs
    | .table => parsePair child bs fun _ schema cols => tableOf rt.symStr schema cols
    | .dict => parsePair child bs fun attrs keys vals => .dict (attrs &&& raySerdeAttrWireMask) keys vals
    | .lambda => parsePair child bs fun _ params body => .lambda 0 params body
    | .fn _ => parseFn rt.env bs
    | .error => parseError bs
    | .unknown => (.error codeType, bs)
    | t => parseAtom t bs

def parse (rt : Runtime) : ℕ → Bytes → Parsed
  | 0, bs => (.error codeDomain, bs)
  | levels + 1, bs => parseInner rt (parse rt levels) bs

end Rayforce.Serde
