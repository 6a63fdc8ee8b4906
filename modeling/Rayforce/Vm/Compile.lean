import Mathlib

/-! The compiler of lambda bodies. -/

namespace Rayforce.Vm

inductive FnKind
  | unary | binary | vary
  deriving DecidableEq, Repr

/-- `addr` tells heap objects apart; `names` is the id vector of the live locals. -/
inductive Obj
  | null
  | i64 (n : ℤ)
  | f64 (addr : ℕ) (bits : UInt64)
  | bool (b : Bool)
  | sym (name : String) (quoted : Bool)
  | symVec (addr : ℕ) (syms : List String)
  | names (locals : List (Option String))
  | list (addr : ℕ) (elems : List Obj)
  | dict (addr : ℕ) (keys vals : Obj)
  | builtin (addr : ℕ) (kind : FnKind) (restricted : Bool)
  | lambda (addr : ℕ)
  | lazy (addr : ℕ)
  | error (code : String)
  | other (type : ℤ) (addr : ℕ)

def f64Nan (x : UInt64) : Bool := 0x7FF0000000000000 < x &&& 0x7FFFFFFFFFFFFFFF

-- C's ==: no NaN is equal to anything, and the two zeros are equal
def f64Eq (x y : UInt64) : Bool :=
  !f64Nan x && !f64Nan y && (x == y || (x ||| y) &&& 0x7FFFFFFFFFFFFFFF == 0)

def Obj.same : Obj → Obj → Bool
  | .null, .null => true
  | .i64 m, .i64 n => m = n
  | .f64 a x, .f64 b y => a = b || f64Eq x y
  | .bool a, .bool b => a = b
  | .sym a p, .sym b q => a = b ∧ p = q
  | .symVec a _, .symVec b _ => a = b
  | .list a _, .list b _ => a = b
  | .dict a _ _, .dict b _ _ => a = b
  | .builtin a k r, .builtin b l t => a = b ∧ k = l ∧ r = t
  | .lambda a, .lambda b => a = b
  | .lazy a, .lazy b => a = b
  | .other _ a, .other _ b => a = b
  | _, _ => false

inductive Op
  | ret | jmp | jmpf | loadconst | loadenv | storeenv | pop | resolve | call1 | call2 | calln | callf
  | calls | calld | dup | loadconstW | resolveW | trap | trapEnd | storeglobal | storeglobalW
  | scopeBegin | scopeEnd | tryh | force
  deriving DecidableEq, Repr

namespace Op

def all : List Op :=
  [ret, jmp, jmpf, loadconst, loadenv, storeenv, pop, resolve, call1, call2, calln, callf, calls, calld, dup,
    loadconstW, resolveW, trap, trapEnd, storeglobal, storeglobalW, scopeBegin, scopeEnd, tryh, force]

def byte (op : Op) : UInt8 := UInt8.ofNat (all.idxOf op)

def ofByte (b : UInt8) : Option Op := all[b.toNat]?

lemma ofByte_byte (op : Op) : ofByte op.byte = some op := by
  cases op <;> decide

end Op

inductive Instr
  | ret
  | jmp (offset : ℤ)
  | jmpf (offset : ℤ)
  | loadconst (idx : ℕ)
  | loadenv (slot : ℕ)
  | storeenv (slot : ℕ)
  | pop
  | resolve (idx : ℕ)
  | call1
  | call2
  | calln (argc : ℕ)
  | callf (argc : ℕ)
  | calls (argc : ℕ)
  | calld (argc : ℕ)
  | dup
  | trap (offset : ℤ)
  | trapEnd
  | storeglobal (idx : ℕ)
  | scopeBegin
  | scopeEnd
  | tryh
  | force
  deriving DecidableEq, Repr

def word16 (hi lo : UInt8) : ℕ := hi.toNat * 256 + lo.toNat

def int16 (hi lo : UInt8) : ℤ := if word16 hi lo < 2 ^ 15 then word16 hi lo else word16 hi lo - 2 ^ 16

def decode (code : List UInt8) (ip : ℕ) : Option (Instr × ℕ) :=
  (code[ip]?.bind Op.ofByte).bind fun op =>
    let b1 := code[ip + 1]?
    let b2 := code[ip + 2]?
    match op with
    | .ret => some (.ret, ip + 1)
    | .jmp => b1.bind fun hi => b2.map fun lo => (.jmp (int16 hi lo), ip + 3)
    | .jmpf => b1.bind fun hi => b2.map fun lo => (.jmpf (int16 hi lo), ip + 3)
    | .loadconst => b1.map fun b => (.loadconst b.toNat, ip + 2)
    | .loadenv => b1.map fun b => (.loadenv b.toNat, ip + 2)
    | .storeenv => b1.map fun b => (.storeenv b.toNat, ip + 2)
    | .pop => some (.pop, ip + 1)
    | .resolve => b1.map fun b => (.resolve b.toNat, ip + 2)
    | .call1 => some (.call1, ip + 1)
    | .call2 => some (.call2, ip + 1)
    | .calln => b1.map fun b => (.calln b.toNat, ip + 2)
    | .callf => b1.map fun b => (.callf b.toNat, ip + 2)
    | .calls => b1.map fun b => (.calls b.toNat, ip + 2)
    | .calld => b1.map fun b => (.calld b.toNat, ip + 2)
    | .dup => some (.dup, ip + 1)
    | .loadconstW => b1.bind fun hi => b2.map fun lo => (.loadconst (word16 hi lo), ip + 3)
    | .resolveW => b1.bind fun hi => b2.map fun lo => (.resolve (word16 hi lo), ip + 3)
    | .trap => b1.bind fun hi => b2.map fun lo => (.trap (int16 hi lo), ip + 3)
    | .trapEnd => some (.trapEnd, ip + 1)
    | .storeglobal => b1.map fun b => (.storeglobal b.toNat, ip + 2)
    | .storeglobalW => b1.bind fun hi => b2.map fun lo => (.storeglobal (word16 hi lo), ip + 3)
    | .scopeBegin => some (.scopeBegin, ip + 1)
    | .scopeEnd => some (.scopeEnd, ip + 1)
    | .tryh => some (.tryh, ip + 1)
    | .force => some (.force, ip + 1)

/-- An error between `start` and `stop` continues at `handler`. -/
structure TryBody where
  start : ℕ
  stop : ℕ
  handler : ℕ
  deriving DecidableEq, Repr

def TryBody.covers (tb : TryBody) (ip : ℕ) : Bool := tb.start ≤ ip ∧ ip ≤ tb.stop

structure Lambda where
  params : List String
  body : List Obj

/-- `tries` lists the try bodies; the executor does not read it. -/
structure Code where
  bytes : List UInt8
  consts : List Obj
  nLocals : ℕ
  tries : List TryBody

structure Globals where
  get : String → Option Obj
  isSpecialForm : Obj → Bool

/-- `compiler_t`; `tries` records the completed try bodies. -/
structure Compiler where
  code : List UInt8
  consts : List Obj
  locals : List (Option String)
  trapDepth : ℕ
  tries : List TryBody

namespace Compiler

def init : Compiler := ⟨[], [], [], 0, []⟩

def emit (c : Compiler) (b : UInt8) : Compiler := { c with code := c.code ++ [b] }

def emitOp (c : Compiler) (op : Op) : Compiler := c.emit op.byte

def addConstant (c : Compiler) (value : Obj) : ℕ × Compiler :=
  match c.consts.findIdx? (Obj.same · value) with
  | some i => (i, c)
  | none => (c.consts.length, { c with consts := c.consts ++ [value] })

def emitIndexed (c : Compiler) (narrow wide : Op) (idx : ℕ) : Compiler :=
  if idx < 256 then (c.emitOp narrow).emit (UInt8.ofNat idx)
  else ((c.emitOp wide).emit (UInt8.ofNat (idx / 256))).emit (UInt8.ofNat (idx % 256))

def emitConst (c : Compiler) (idx : ℕ) : Compiler := c.emitIndexed .loadconst .loadconstW idx

def loadConstant (c : Compiler) (value : Obj) : Compiler :=
  let (idx, c) := c.addConstant value
  c.emitConst idx

def findLocal (c : Compiler) (name : String) : Option ℕ :=
  (c.locals.reverse.idxOf? (some name)).map fun i => c.locals.length - 1 - i

def addLocal (c : Compiler) (name : Option String) : Option (ℕ × Compiler) :=
  if 256 ≤ c.locals.length then none else some (c.locals.length, { c with locals := c.locals ++ [name] })

def emitJump (c : Compiler) (op : Op) : ℕ × Compiler :=
  let c := c.emitOp op
  (c.code.length, (c.emit 0).emit 0)

def patchJump (c : Compiler) (pos : ℕ) : Option Compiler :=
  let raw : ℤ := (c.code.length : ℤ) - pos - 2
  if raw > 32767 ∨ raw < -32768 then none
  else
    let offset := (raw % 2 ^ 16).toNat
    some
      { c with code := (c.code.set pos (UInt8.ofNat (offset / 256))).set (pos + 1) (UInt8.ofNat (offset % 256)) }

def emitTrapEnds (c : Compiler) : Compiler :=
  (List.replicate c.trapDepth ()).foldl (fun c _ => c.emitOp .trapEnd) c

def addTry (c : Compiler) (start stop : ℕ) : Compiler :=
  { c with tries := c.tries ++ [⟨start, stop, c.code.length⟩] }

def enterTry (c : Compiler) : Compiler := { c with trapDepth := c.trapDepth + 1 }

def leaveTry (c : Compiler) : Compiler := { c with trapDepth := c.trapDepth - 1 }

def symIsLocalRef (c : Compiler) (name : String) : Bool :=
  name = "self" ∨ name = "eval" ∨ name = "resolve" ∨ some name ∈ c.locals

end Compiler

mutual

def astRefsLocals (c : Compiler) : Obj → Bool
  | .sym name _ => c.symIsLocalRef name
  | .symVec _ syms => syms.any c.symIsLocalRef
  | .list _ elems => anyRefsLocals c elems
  | .dict _ keys vals => astRefsLocals c keys || astRefsLocals c vals
  | _ => false

def anyRefsLocals (c : Compiler) : List Obj → Bool
  | [] => false
  | e :: es => astRefsLocals c e || anyRefsLocals c es

end

def isReserved (name : String) : Bool :=
  name.toList.head? = some '.' ∧
    name ∉ [".ipc.on.open", ".ipc.on.close", ".ipc.on.sync", ".ipc.on.async", ".ipc.on.auth"]

def compileSpecial (c : Compiler) (ast : Obj) : Compiler :=
  let evalForm := fun c : Compiler => ((c.loadConstant ast).emitOp .calld).emit 0
  if !astRefsLocals c ast then evalForm c
  else
    let (symsIdx, c) := c.addConstant (.names c.locals)
    let c := (c.emitConst symsIdx).emitOp .scopeBegin
    ((evalForm c).emitConst symsIdx).emitOp .scopeEnd

def emitCall (c : Compiler) (fn : Option Obj) (argc : ℕ) : Compiler :=
  match fn with
  | some (.builtin _ .unary _) =>
    if argc = 1 then c.emitOp .call1 else (c.emitOp .callf).emit (UInt8.ofNat argc)
  | some (.builtin _ .binary _) =>
    if argc = 2 then c.emitOp .call2 else (c.emitOp .callf).emit (UInt8.ofNat argc)
  | some (.builtin _ .vary _) => (c.emitOp .calln).emit (UInt8.ofNat argc)
  | _ => (c.emitOp .callf).emit (UInt8.ofNat argc)

def headValue (g : Globals) : Obj → Option Obj
  | .sym name false => g.get name
  | _ => none

def Obj.name? : Obj → Option String
  | .sym name false => some name
  | _ => none

mutual

def compileExpr (g : Globals) (c : Compiler) : Obj → Option Compiler
  | .error _ => some c
  | .sym name false =>
    if name = "null" then some (c.loadConstant .null)
    else
      match c.findLocal name with
      | some slot => some ((c.emitOp .loadenv).emit (UInt8.ofNat slot))
      | none =>
        let (idx, c) := c.addConstant (.sym name false)
        some (c.emitIndexed .resolve .resolveW idx)
  | .list addr elems => compileList g c addr elems
  | ast => some (c.loadConstant ast)

def compileList (g : Globals) (c : Compiler) (addr : ℕ) : List Obj → Option Compiler
  | [] => some (c.loadConstant (.list addr []))
  | head :: args =>
    match head.name?, args with
    | some "set", [name, value] =>
      match name with
      | .sym n q => do
        let c ← compileExpr g c value
        let (idx, c) := c.addConstant (.sym n q)
        return c.emitIndexed .storeglobal .storeglobalW idx
      | _ => none
    | some "let", [name, value] =>
      match name with
      | .sym n _ =>
        if isReserved n then none
        else do
          let c ← compileExpr g c value
          let c := (c.emitOp .force).emitOp .dup
          let (slot, c) ← (match c.findLocal n with
            | some slot => some (slot, c)
            | none => c.addLocal (some n))
          return (c.emitOp .storeenv).emit (UInt8.ofNat slot)
      | _ => none
    | some "if", cond :: thn :: els => do
      let c ← compileExpr g c cond
      let (jmpfPos, c) := c.emitJump .jmpf
      let c ← compileExpr g c thn
      let (jmpPos, c) := c.emitJump .jmp
      let c ← c.patchJump jmpfPos
      let c ← (match els with
        | [] => some (c.loadConstant (.i64 0))
        | e :: _ => compileExpr g c e)
      c.patchJump jmpPos
    | some "do", e :: es => do
      let c ← compileExpr g c e
      compileRest g c es
    | some "fn", _ :: _ :: _ => some (((c.loadConstant (.list addr (head :: args))).emitOp .calld).emit 0)
    | some "try", [body, handler] => do
      let (errSlot, c) ← c.addLocal none
      let (trapPos, c) := c.emitJump .trap
      let start := c.code.length
      let c ← compileExpr g c.enterTry body
      let c := c.leaveTry
      let stop := c.code.length
      let (jmpPos, c) := (c.emitOp .trapEnd).emitJump .jmp
      let c ← c.patchJump trapPos
      let c := c.addTry start stop
      let c := (c.emitOp .storeenv).emit (UInt8.ofNat errSlot)
      let c ← compileExpr g c handler
      let c := (((c.emitOp .loadenv).emit (UInt8.ofNat errSlot)).emitOp .tryh)
      c.patchJump jmpPos
    | some "return", [] => some ((c.loadConstant .null).emitTrapEnds.emitOp .ret)
    | some "return", [value] => do
      let c ← compileExpr g c value
      return c.emitTrapEnds.emitOp .ret
    | some "self", args =>
      if 64 < args.length then none
      else do
        let c ← compileArgs g c args
        return (c.emitOp .calls).emit (UInt8.ofNat args.length)
    | _, args =>
      let fn := headValue g head
      if fn.any g.isSpecialForm then some (compileSpecial c (.list addr (head :: args)))
      else do
        let c ← (match fn with
          | some (.builtin a k r) => some (c.loadConstant (.builtin a k r))
          | _ => compileExpr g c head)
        if 64 < args.length then none
        else do
          let c ← compileArgs g c args
          return emitCall c fn args.length

def compileArgs (g : Globals) (c : Compiler) : List Obj → Option Compiler
  | [] => some c
  | e :: es => do
    let c ← compileExpr g c e
    compileArgs g c es

def compileRest (g : Globals) (c : Compiler) : List Obj → Option Compiler
  | [] => some c
  | e :: es => do
    let c ← compileExpr g (c.emitOp .pop) e
    compileRest g c es

end

def addParams (c : Compiler) (params : List String) : Option Compiler :=
  params.foldlM (fun c name => (c.addLocal (some name)).map Prod.snd) c

def compileBody (g : Globals) (c : Compiler) : List Obj → Option Compiler
  | [] => some c
  | e :: es => do
    let c ← compileExpr g c e
    compileRest g c es

def rayCompile (g : Globals) (lam : Lambda) : Option Code := do
  let c ← addParams .init lam.params
  let c ← compileBody g c lam.body
  let c := c.emitOp .ret
  return ⟨c.code, c.consts, c.locals.length, c.tries⟩

end Rayforce.Vm
