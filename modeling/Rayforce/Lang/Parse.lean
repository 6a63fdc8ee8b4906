import Rayforce.Lang.Token

namespace Rayforce.Lang

open Library.Words Library.Binary64 Library.Reading

def isBlank (c : UInt8) : Bool := oneOf [' ', '\t', '\n', '\r'] c

def skipBlanks : Bool → Text → Text
  | _, [] => []
  | true, c :: cs => if c = newline then skipBlanks false cs else skipBlanks true cs
  | false, c :: cs =>
    if isBlank c then skipBlanks false cs
    else if isChar ';' c then skipBlanks true cs
    else c :: cs

def skipWsAndComments (r : Text) : Text := skipBlanks false r

def quoteName : Value → Value
  | .sym name _ => .sym name true
  | v => v

def strInlineMax : ℕ := 12

def checkStrings : ℕ → List Value → Parsed Unit
  | _, [] => .ok ()
  | pool, .str s :: vs =>
    if 2 ^ 32 - 1 < s.length then
      rayError "range" (some ("str_vec_append: string length exceeds 4294967295 bytes, got " ++
        toString s.length))
    else if strInlineMax < s.length then
      if 2 ^ 32 - 1 < pool + s.length then
        rayError "range" (some "str_vec_append: pool offset exceeds 4294967295 bytes")
      else checkStrings (pool + s.length) vs
    else checkStrings pool vs
  | pool, _ :: vs => checkStrings pool vs

def toF64 : Value → Value
  | .i64 v => if v = -2 ^ 63 then .f64 .nan else .f64 (Double.ofInt v)
  | v => v

def isNumber (v : Value) : Bool := v.atomType = some .i64 || v.atomType = some .f64

def vecOf (t : AtomType) (items : List Value) : Value := .vec t (items.any Value.isNull) items

def mixedError : Parsed α :=
  rayError "domain" (some "parse: vector literal mixes incompatible element types")

def buildVector : List Value → Parsed Value
  | [] => .ok (.vec .i64 false [])
  | v :: vs =>
    let items := (v :: vs).map quoteName
    match v.atomType with
    | none => mixedError
    | some t =>
      if vs.all fun w => w.atomType = some t then do
        if t = .str then checkStrings 0 items
        .ok (vecOf t items)
      else if (v :: vs).all isNumber then .ok (vecOf .f64 (items.map toF64))
      else mixedError

section

variable (expr : Text → Parsed (Value × Text))

def parseItems (close : UInt8) (limit : Option ℕ) : ℕ → Text → List Value → Parsed (List Value × Text)
  | 0, _, _ => .error .fuel
  | fuel + 1, r, acc => do
    let c ← peek r 0
    if c = 0 ∨ c = close then .ok (acc, r)
    else if limit.any (· ≤ acc.length) then rayError "limit" none
    else
      let (v, r) ← expr r
      parseItems close limit fuel (skipWsAndComments r) (acc ++ [v])

def closeBracket (close : UInt8) (r : Text) : Parsed Text := do
  if (← peek r 0) = close then skip r 1 else parseError

def elemsMax : ℕ := 4096

def parseVector (p : Text) : Parsed (Value × Text) := do
  let r := skipWsAndComments (← skip p 1)
  let (items, r) ← parseItems expr (byte ']') (some elemsMax) (r.length + 1) r []
  let r ← closeBracket (byte ']') r
  let v ← buildVector items
  .ok (v, r)

def parseList (p : Text) : Parsed (Value × Text) := do
  let r := skipWsAndComments (← skip p 1)
  let (items, r) ← parseItems expr (byte ')') none (r.length + 1) r []
  let r ← closeBracket (byte ')') r
  .ok (.list items, r)

def parseDictKey (r : Text) : Parsed (Value × Text) := do
  if (← peek r 0) = quoteByte then parseString r
  else
    let rest ← scan isDictKeyChar r
    if taken r rest = [] then parseError else .ok (.sym (taken r rest) false, rest)

def parsePair (r : Text) : Parsed ((Value × Value) × Text) := do
  let (k, r) ← parseDictKey r
  let r ← expect ⟨"parse", none⟩ ':' (skipWsAndComments r)
  let (v, r) ← expr (skipWsAndComments r)
  .ok ((k, v), r)

def parsePairs : ℕ → Text → List (Value × Value) → Parsed (List (Value × Value) × Text)
  | 0, _, _ => .error .fuel
  | fuel + 1, r, acc => do
    let c ← peek r 0
    if c = 0 ∨ c = byte '\x7d' then .ok (acc, r)
    else
      let (kv, r) ← parsePair expr r
      parsePairs fuel (skipWsAndComments r) (acc ++ [kv])

def dictKeys (ks : List Value) : Parsed Value := do
  if ks ≠ [] ∧ ks.all (fun k => k.atomType = some .sym) then
    .ok (.vec .sym false (ks.map quoteName))
  else if ks ≠ [] ∧ ks.all (fun k => k.atomType = some .str) then
    checkStrings 0 ks
    .ok (.vec .str false ks)
  else .ok (.list ks)

def parseDict (p : Text) : Parsed (Value × Text) := do
  let r := skipWsAndComments (← skip p 1)
  let (kvs, r) ← parsePairs expr (r.length + 1) r []
  let r ← closeBracket (byte '\x7d') r
  let keys ← dictKeys (kvs.map Prod.fst)
  .ok (.dict keys (kvs.map Prod.snd), r)

end

section

variable (readF64 : Bytes → Option Double)

def rayParseMaxDepth : ℕ := 1024

def parseMinus (r : Text) : Parsed (Value × Text) := do
  if isDigit (← peek r 1) then parseNumber readF64 r else parseName r

def parseExprInner (expr : Text → Parsed (Value × Text)) (p : Text) : Parsed (Value × Text) := do
  let r := skipWsAndComments p
  match pa (← peek r 0) with
  | .finish => parseError
  | .digit => parseNumber readF64 r
  | .minus => parseMinus readF64 r
  | .alpha => parseName r
  | .string => parseString r
  | .quote => parseSymbol r
  | .lparen => parseList expr r
  | .lbrack => parseVector expr r
  | .lbrace => parseDict expr r
  | .rparen => parseError
  | .rbrack => parseError
  | .rbrace => parseError
  | .colon => parseKeyword r
  | _ => parseName r

def depthError : ParseError := ⟨"parse", some ("nesting too deep, limit " ++ toString rayParseMaxDepth)⟩

def parseExpr : (stack depth : ℕ) → Text → Parsed (Value × Text)
  | 0, depth, _ => if rayParseMaxDepth < depth + 1 then .error (.error depthError) else .error .stack
  | stack + 1, depth, p =>
    if rayParseMaxDepth < depth + 1 then .error (.error depthError)
    else parseExprInner readF64 (parseExpr stack (depth + 1)) p

def exprsMax : ℕ := 256

def parseMore (expr : Text → Parsed (Value × Text)) : ℕ → Text → List Value → Parsed (List Value)
  | 0, _, _ => .error .fuel
  | fuel + 1, r, acc => do
    if (← peek r 0) = 0 then .ok acc
    else if exprsMax ≤ acc.length then
      rayError "domain" (some "parse: too many top-level expressions, limit 256")
    else
      let (v, r) ← expr r
      parseMore expr fuel (skipWsAndComments r) (acc ++ [v])

def parseSource (stack : ℕ) (src : Text) : Parsed Value := do
  let (first, r) ← parseExpr readF64 stack 0 src
  let r := skipWsAndComments r
  if (← peek r 0) = 0 then .ok first
  else
    let exprs ← parseMore (parseExpr readF64 stack 0) (r.length + 1) r [first]
    .ok (.list (.sym [byte 'd', byte 'o'] false :: exprs))

def rayParse (src : Text) : Parsed Value := parseSource readF64 rayParseMaxDepth src

end

end Rayforce.Lang
