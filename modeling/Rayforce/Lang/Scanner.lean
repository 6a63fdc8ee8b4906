import Rayforce.Library.Words

/-! The integer scanner of `core/numparse.c`. -/

namespace Rayforce.Lang

open Library.Words

def byte (c : Char) : UInt8 := c.toUInt8

namespace Numparse

def loadWord (p : Bytes) : UInt64 := UInt64.ofNat (leNat (p.take 8))

def rayIs8Digits (p : Bytes) : Bool :=
  let chunk := loadWord p
  let low := chunk - 0x3030303030303030
  let high := chunk + 0x4646464646464646
  (low ||| high) &&& 0x8080808080808080 == 0

def rayParse8Digits (p : Bytes) : UInt64 :=
  let chunk := loadWord p - 0x3030303030303030
  let tens : UInt64 := chunk &&& 0x000F000F000F000F
  let ones : UInt64 := (chunk >>> 8) &&& 0x000F000F000F000F
  let pairs : UInt64 := tens * 10 + ones
  let pHi : UInt64 := pairs &&& 0x000000FF000000FF
  let pLo : UInt64 := (pairs >>> 16) &&& 0x000000FF000000FF
  let quads : UInt64 := pHi * 100 + pLo
  let first : UInt64 := quads &&& 0xFFFFFFFF
  let second : UInt64 := quads >>> 32
  first * 10000 + second

def isDigitByte (c : UInt8) : Bool := c.toUInt32 - 48 < 10

def leadingZeros : Bytes → ℕ
  | [] => 0
  | c :: cs => if c = byte '0' then leadingZeros cs + 1 else 0

def swarDigits (text : Bytes) : ℕ × UInt64 :=
  if 8 ≤ text.length ∧ rayIs8Digits text = true then
    let result := rayParse8Digits text
    let rest := text.drop 8
    if 8 ≤ rest.length ∧ result ≤ 922337203 ∧
      rayIs8Digits rest = true then (16, result * 100000000 + rayParse8Digits rest)
    else (8, result)
  else (0, 0)

def scalarTail : Bytes → ℕ → UInt64 → Option (ℕ × UInt64)
  | [], sig, result => some (sig, result)
  | c :: cs, sig, result =>
    if isDigitByte c then
      if 19 ≤ sig then none
      else
        let next := result * 10 + (c - byte '0').toUInt64
        if next < result then none else scalarTail cs (sig + 1) next
    else some (sig, result)

def signLen (src : Bytes) : ℕ :=
  if src.getD 0 0 = byte '-' then 1 else if src.getD 0 0 = byte '+' then 1 else 0

-- how many bytes are taken and what is stored; `none` is the return of zero
def rayParseI64 (src : Bytes) : Option (ℕ × Int64) :=
  if src.length = 0 then none
  else
    let neg := src.getD 0 0 = byte '-'
    let digitStart := signLen src
    if digitStart = src.length then none
    else
      let sigStart := digitStart + leadingZeros (src.drop digitStart)
      let chunks := swarDigits (src.drop sigStart)
      match scalarTail (src.drop (sigStart + chunks.1)) chunks.1 chunks.2 with
      | none => none
      | some (sig, result) =>
        let i := sigStart + sig
        if i = digitStart then none
        else if neg then if 0x7FFFFFFFFFFFFFFF + 1 < result then none else some (i, (0 - result).toInt64)
        else if 0x7FFFFFFFFFFFFFFF < result then none
        else some (i, result.toInt64)

end Numparse

end Rayforce.Lang
