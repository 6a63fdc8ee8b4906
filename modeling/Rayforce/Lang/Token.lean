import Rayforce.Library.Reading
import Rayforce.Lang.Scanner
import Rayforce.Lang.Value

/-! The literals of the language. -/

namespace Rayforce.Lang

open Library.Words Library.Binary64 Library.Reading

abbrev Parsed (α : Type) := Outcome ParseError α

def quoteByte : UInt8 := 34

def tickByte : UInt8 := 39

def backslash : UInt8 := 92

def newline : UInt8 := 10

def rayError (code : String) (msg : Option String) : Parsed α := .error (.error ⟨code, msg⟩)

def parseError : Parsed α := rayError "parse" none

inductive CharClass
  | err | digit | alpha | string | quote | lparen | rparen | lbrack | rbrack | lbrace | rbrace | colon
  | ws | finish | minus | semi
deriving DecidableEq

def CharClass.ofCode : ℕ → CharClass
  | 1 => .digit
  | 2 => .alpha
  | 3 => .string
  | 4 => .quote
  | 5 => .lparen
  | 6 => .rparen
  | 7 => .lbrack
  | 8 => .rbrack
  | 9 => .lbrace
  | 10 => .rbrace
  | 11 => .colon
  | 12 => .ws
  | 13 => .finish
  | 14 => .minus
  | 15 => .semi
  | _ => .err

def paTable : List ℕ :=
  [13, 0, 0, 0, 0, 0, 0, 0, 0, 12, 12, 0, 0, 12, 0, 0, 0, 0, 0, 0, 0, 0, 0, 0, 0, 0, 0, 0, 0, 0, 0, 0,
   12, 2, 3, 2, 2, 2, 2, 4, 5, 6, 2, 2, 2, 14, 2, 2,
   1, 1, 1, 1, 1, 1, 1, 1, 1, 1, 11, 15, 2, 2, 2, 2,
   2, 2, 2, 2, 2, 2, 2, 2, 2, 2, 2, 2, 2, 2, 2, 2,
   2, 2, 2, 2, 2, 2, 2, 2, 2, 2, 2, 7, 0, 8, 2, 2,
   0, 2, 2, 2, 2, 2, 2, 2, 2, 2, 2, 2, 2, 2, 2, 2,
   2, 2, 2, 2, 2, 2, 2, 2, 2, 2, 2, 9, 2, 10, 2, 0]

def pa (c : UInt8) : CharClass := .ofCode (if c.toNat < 128 then paTable.getD c.toNat 0 else 0)

def isChar (c : Char) (b : UInt8) : Bool := b = byte c

def isDigit (c : UInt8) : Bool := byte '0' ≤ c && c ≤ byte '9'

def isOctal (c : UInt8) : Bool := byte '0' ≤ c && c ≤ byte '7'

def isLetter (c : UInt8) : Bool := (byte 'a' ≤ c && c ≤ byte 'z') || (byte 'A' ≤ c && c ≤ byte 'Z')

def isIdentCont (c : UInt8) : Bool := isLetter c || isDigit c || isChar '_' c

def isAlnum (c : UInt8) : Bool := pa c = .alpha || pa c = .digit

def oneOf (cs : List Char) (b : UInt8) : Bool := cs.any (isChar · b)

def isSymChar (c : UInt8) : Bool := isAlnum c || oneOf ['_', '.', '-'] c

def isNameChar (c : UInt8) : Bool :=
  isAlnum c || oneOf ['_', '.', '-', '!', '?', '+', '*', '/', '%', '<', '>', '=', '&', '|'] c

def isKeywordChar (c : UInt8) : Bool := isAlnum c || oneOf ['_', '.', '-', '/', '?'] c

def isDictKeyChar (c : UInt8) : Bool := isAlnum c || oneOf ['_', '-'] c

def digitVal (c : UInt8) : ℕ := c.toNat - 48

def digitsValue (ds : Bytes) : ℕ := ds.foldl (fun v c => v * 10 + digitVal c) 0

def toInt32 (n : ℕ) : ℤ :=
  if n % 4294967296 < 2147483648 then (n % 4294967296 : ℕ) else (n % 4294967296 : ℕ) - 4294967296

def hexVal (c : UInt8) : Option ℕ :=
  if isDigit c then some (c.toNat - 48)
  else if byte 'a' ≤ c && c ≤ byte 'f' then some (c.toNat - 87)
  else if byte 'A' ≤ c && c ≤ byte 'F' then some (c.toNat - 55)
  else none

def rayParseU64Hex : ℕ → Text → ℕ → ℕ → Parsed (ℕ × ℕ × Text)
  | 0, r, taken, v => .ok (taken, v, r)
  | n + 1, r, taken, v => do
    match hexVal (← peek r 0) with
    | some d => rayParseU64Hex n (← skip r 1) (taken + 1) (v * 16 + d)
    | none => .ok (taken, v, r)

def rayParseF64 (readF64 : Bytes → Option Double) (text : Bytes) : Option Double :=
  if text = [] then none else readF64 text

def taken (start rest : Text) : Bytes := start.take (start.length - rest.length)

def readPair (r : Text) : Outcome ε (ℕ × Text) := do
  let a ← peek r 0
  let b ← peek r 1
  let r ← skip r 2
  .ok (digitVal a * 10 + digitVal b, r)

def pairField (e : ε) (r : Text) : Outcome ε (ℕ × Text) := do
  if ← looksAt [isDigit, isDigit] r then readPair r else .error (.error e)

def expect (e : ε) (c : Char) (r : Text) : Outcome ε Text := do
  if isChar c (← peek r 0) then skip r 1 else .error (.error e)

def optDigit (ms : ℕ) (r : Text) : Outcome ε (ℕ × Text) := do
  let c ← peek r 0
  if isDigit c then
    let r ← skip r 1
    .ok (ms * 10 + digitVal c, r)
  else
    .ok (ms, r)

def readMillis (r : Text) : Outcome Unit (ℕ × Text) := do
  if isChar '.' (← peek r 0) then
    let r ← skip r 1
    let c ← peek r 0
    if isDigit c then
      let r ← skip r 1
      let (ms, r) ← optDigit (digitVal c) r
      optDigit ms r
    else .error (.error ())
  else .ok (0, r)

def readClock (r : Text) : Outcome Unit (ℕ × Text) := do
  let (hh, r) ← pairField () r
  let r ← expect () ':' r
  let (mm, r) ← pairField () r
  let r ← expect () ':' r
  let (ss, r) ← pairField () r
  let (ms, r) ← readMillis r
  .ok ((hh * 3600 + mm * 60 + ss) * 1000 + ms, r)

def tryParseTime (start : Text) : Outcome Unit (ℤ × Text) := do
  if isChar '-' (← peek start 0) then
    let (ms, r) ← readClock (← skip start 1)
    .ok (-ms, r)
  else
    let (ms, r) ← readClock start
    .ok (ms, r)

def pad (width n : ℕ) : String :=
  let s := toString n
  String.ofList (List.replicate (width - s.length) '0') ++ s

def nanosOf (fstart : Text) (flen : ℤ) : ℕ :=
  digitsValue (fstart.take (min flen 9).toNat) * 10 ^ (9 - flen).toNat

def readTimeOfDay (r : Text) : Parsed ((ℕ × ℕ × ℕ × ℕ) × Text) := do
  let e : ParseError := ⟨"parse", none⟩
  let (hh, r) ← pairField e r
  let r ← expect e ':' r
  let (mi, r) ← pairField e r
  let r ← expect e ':' r
  let (ss, r) ← pairField e r
  let fstart ← expect e '.' r
  if 23 < hh ∨ 59 < mi ∨ 59 < ss then
    rayError "parse" (some ("invalid time " ++ pad 2 hh ++ ":" ++ pad 2 mi ++ ":" ++ pad 2 ss))
  else
    let r ← scan isDigit fstart
    .ok ((hh, mi, ss, nanosOf fstart (toInt32 (fstart.length - r.length))), r)

def nsecsInDay : ℤ := 24 * 60 * 60 * 1000000000

def timeNs (t : ℕ × ℕ × ℕ × ℕ) : ℤ := ((t.1 : ℤ) * 3600 + t.2.1 * 60 + t.2.2.1) * 1000000000 + t.2.2.2

def encodeTimestamp (days : ℤ) (t : ℕ × ℕ × ℕ × ℕ) : Parsed Value :=
  if (2 ^ 63 - 1 : ℤ).tdiv nsecsInDay < days ∨ days < (-2 ^ 63 : ℤ).tdiv nsecsInDay then
    rayError "parse" (some "timestamp year out of representable range")
  else .ok (.timestamp ((days * nsecsInDay + timeNs t).bmod (2 ^ 64)))

def dateError (year month day : ℕ) : ParseError :=
  ⟨"parse", some ("invalid date " ++ pad 4 year ++ "." ++ pad 2 month ++ "." ++ pad 2 day ++
    ": month must be 1-12, day 1-31")⟩

def finishDate (days : ℤ) (r : Text) : Parsed (Value × Text) := do
  if isChar 'D' (← peek r 0) then
    let (t, r) ← readTimeOfDay (← skip r 1)
    let v ← encodeTimestamp days t
    .ok (v, r)
  else .ok (.date days, r)

def readYear (r : Text) : Parsed ℕ := do
  let a ← peek r 0
  let b ← peek r 1
  let c ← peek r 2
  let d ← peek r 3
  .ok (digitsValue [a, b, c, d])

section

variable (readF64 : Bytes → Option Double)

def scanFraction (r : Text) : Parsed (Bool × Text) := do
  if ← looksAt [isChar '.', isDigit] r then
    let r ← scan isDigit (← skip r 1)
    .ok (true, r)
  else .ok (false, r)

def skipSign (r : Text) : Parsed Text := do
  let c ← peek r 0
  if isChar '+' c || isChar '-' c then skip r 1 else .ok r

def scanExponent (r : Text) : Parsed (Bool × Text) := do
  let c ← peek r 0
  if isChar 'e' c || isChar 'E' c then
    let r ← skipSign (← skip r 1)
    let r ← scan isDigit r
    .ok (true, r)
  else .ok (false, r)

def floatLiteral (text : Bytes) (r : Text) : Parsed (Value × Text) :=
  match rayParseF64 readF64 text with
  | some v => .ok (.f64 v, r)
  | none => parseError

def intSuffix (v : ℤ) (r : Text) : Parsed (Value × Text) := do
  let c ← peek r 0
  if isChar 'h' c then
    let r ← skip r 1
    if v < -32767 ∨ 32767 < v then
      rayError "domain" (some ("parse: i16 literal out of range [-32767,32767], got " ++ toString v))
    else .ok (.i16 v, r)
  else if isChar 'i' c then
    let r ← skip r 1
    if v < -2147483647 ∨ 2147483647 < v then
      rayError "domain"
        (some ("parse: i32 literal out of range [-2147483647,2147483647], got " ++ toString v))
    else .ok (.i32 v, r)
  else .ok (.i64 v, r)

def plainNumber (start r : Text) : Parsed (Value × Text) := do
  let (frac, r) ← scanFraction r
  let (exp, r) ← scanExponent r
  if frac || exp then floatLiteral readF64 (taken start r) r
  else
    match Numparse.rayParseI64 (taken start r) with
    | none => floatLiteral readF64 (taken start r) r
    | some (_, v) => intSuffix v.toInt r

end

section

variable (readF64 : Bytes → Option Double)

def parseDate (start dstart r : Text) : Parsed (Value × Text) := do
  let year ← readYear dstart
  let (month, r) ← readPair (← skip r 1)
  if isChar '.' (← peek r 0) then
    let r ← skip r 1
    if ← looksAt [isDigit, isDigit] r then
      let (day, r) ← readPair r
      if month < 1 ∨ 12 < month ∨ day < 1 ∨ 31 < day then .error (.error (dateError year month day))
      else finishDate (ymdToDate year month day) r
    else plainNumber readF64 start start
  else plainNumber readF64 start start

def parseTime (start pos : Text) : Parsed (Value × Text) := do
  match ← attempt (tryParseTime start) with
  | some (ms, r) => .ok (.time ms, r)
  | none => plainNumber readF64 start (← scan isDigit pos)

def parseDigits (start : Text) (isNeg : Bool) (dstart : Text) : Parsed (Value × Text) := do
  let r ← scan isDigit dstart
  let ndigits := toInt32 (dstart.length - r.length)
  if ndigits = 4 ∧ isNeg = false then
    if ← looksAt [isChar '.', isDigit, isDigit, isChar '.'] r then parseDate readF64 start dstart r
    else plainNumber readF64 start r
  else if ndigits = 2 then
    if isChar ':' (← peek r 0) then parseTime readF64 start dstart
    else plainNumber readF64 start r
  else plainNumber readF64 start r

def nullLiteral (c : UInt8) : Option Value :=
  if isChar 'h' c then some (.i16 (-2 ^ 15))
  else if isChar 'i' c then some (.i32 (-2 ^ 31))
  else if isChar 'd' c then some (.date (-2 ^ 31))
  else if isChar 't' c then some (.time (-2 ^ 31))
  else if isChar 'p' c then some (.timestamp (-2 ^ 63))
  else if isChar 'l' c then some (.i64 (-2 ^ 63))
  else if isChar 'f' c then some (.f64 .nan)
  else none

def parseNull (start pos : Text) : Parsed (Value × Text) := do
  let c ← peek pos 2
  match nullLiteral c with
  | some v =>
    let r ← skip pos 3
    .ok (v, r)
  | none =>
    if isIdentCont c then parseDigits readF64 start false pos
    else
      let r ← skip pos 2
      .ok (.i64 (-2 ^ 63), r)

def parseHex (r : Text) : Parsed (Value × Text) := do
  let (n, v, r) ← rayParseU64Hex 16 r 0 0
  if n = 0 then parseError else .ok (.u8 (UInt8.ofNat v), r)

def parseUnsigned (start : Text) (isNeg : Bool) (pos : Text) : Parsed (Value × Text) := do
  if ← looksAt [isChar '0', isChar 'x'] pos then parseHex (← skip pos 2)
  else if isNeg then parseDigits readF64 start true pos
  else if ← looksAt [isChar '0', isChar 'N'] pos then parseNull readF64 start pos
  else parseDigits readF64 start false pos

def parseNumber (start : Text) : Parsed (Value × Text) := do
  if isChar '-' (← peek start 0) then parseUnsigned readF64 start true (← skip start 1)
  else parseUnsigned readF64 start false start

end

def octalVal (ds : Bytes) : UInt8 := ds.foldl (fun v c => v * 8 + (c - byte '0')) 0

def simpleEscape (c : UInt8) : Option UInt8 :=
  if isChar 'n' c then some newline
  else if isChar 't' c then some 9
  else if isChar 'r' c then some 13
  else if c = backslash then some backslash
  else none

def scanString : Text → Bool → Text × Bool
  | [], esc => ([], esc)
  | c :: cs, esc =>
    if c = quoteByte then (c :: cs, esc)
    else if c = backslash then
      match cs with
      | [] => ([], esc)
      | _ :: ds => scanString ds true
    else scanString cs esc

def escapeBuffer : ℕ := 4096

def decodeEscapes : Bytes → Bytes → Parsed Bytes
  | [], out => .ok out
  | c :: cs, out =>
    if escapeBuffer - 2 ≤ out.length then
      rayError "domain" (some "parse: string literal exceeds 4094-byte escape buffer")
    else if c = backslash then
      match cs with
      | [] => .ok (out ++ [c])
      | d :: ds =>
        if d = quoteByte then decodeEscapes ds (out ++ [d])
        else
          match simpleEscape d with
          | some b => decodeEscapes ds (out ++ [b])
          | none =>
            if isOctal d then
              match ds with
              | [] => .ok (out ++ [octalVal [d]])
              | e :: es =>
                if isOctal e then
                  match es with
                  | [] => .ok (out ++ [octalVal [d, e]])
                  | f :: fs =>
                    if isOctal f then decodeEscapes fs (out ++ [octalVal [d, e, f]])
                    else decodeEscapes (f :: fs) (out ++ [octalVal [d, e]])
                else decodeEscapes (e :: es) (out ++ [octalVal [d]])
            else decodeEscapes ds (out ++ [c, d])
    else decodeEscapes cs (out ++ [c])

def parseString (p : Text) : Parsed (Value × Text) := do
  let start ← skip p 1
  let (r, esc) := scanString start false
  if (← peek r 0) = quoteByte then
    let rest ← skip r 1
    if esc then
      let s ← decodeEscapes (taken start r) []
      .ok (.str s, rest)
    else .ok (.str (taken start r), rest)
  else parseError

def charEscape (esc : Text) : Parsed (UInt8 × ℕ) := do
  let c ← peek esc 0
  match simpleEscape c with
  | some b => .ok (b, 1)
  | none =>
    if isOctal c then
      let c1 ← peek esc 1
      if isOctal c1 then
        let c2 ← peek esc 2
        if isOctal c2 then .ok (octalVal [c, c1, c2], 3) else .ok (octalVal [c, c1], 2)
      else .ok (octalVal [c], 1)
    else .ok (c, 1)

def regularSymbol (start : Text) : Parsed (Value × Text) := do
  let r ← scan isSymChar start
  .ok (.sym (taken start r) true, r)

def endsSymbol (c : UInt8) : Bool := c = 0 || oneOf [' ', '\t', '\n', ')', ']', '\x7d'] c

def escapedSymbol (start : Text) : Parsed (Value × Text) := do
  let esc ← skip start 1
  let (ch, len) ← charEscape esc
  if (← peek esc 0) = 0 then regularSymbol start
  else if (← peek esc len) = tickByte then
    let r ← skip esc (len + 1)
    .ok (.str [ch], r)
  else regularSymbol start

def parseSymbol (p : Text) : Parsed (Value × Text) := do
  let start ← skip p 1
  let c ← peek start 0
  if endsSymbol c then .ok (.sym [] true, start)
  else if c = backslash then escapedSymbol start
  else if (← peek start 1) = tickByte then
    let r ← skip start 2
    .ok (.str [c], r)
  else regularSymbol start

def nameValue (name : Bytes) : Value :=
  if name = [byte 't', byte 'r', byte 'u', byte 'e'] then .bool true
  else if name = [byte 'f', byte 'a', byte 'l', byte 's', byte 'e'] then .bool false
  else .sym name false

def parseName (start : Text) : Parsed (Value × Text) := do
  let r ← scan isNameChar start
  if taken start r = [] then parseError else .ok (nameValue (taken start r), r)

def parseKeyword (p : Text) : Parsed (Value × Text) := do
  let start ← skip p 1
  let r ← scan isKeywordChar start
  if taken start r = [] then rayError "parse" (some "empty keyword")
  else .ok (.sym (taken start r) true, r)

end Rayforce.Lang
