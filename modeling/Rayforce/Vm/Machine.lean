import Rayforce.Vm.Compile

/-! The bytecode executor. -/

namespace Rayforce.Vm

def vmStackSize : ℕ := 1024

def vmTrapSize : ℕ := 16

def rayScopeCap : ℕ := 64

structure Err where
  obj : Option Obj
  kind : String

structure World where
  globals : Globals
  code : ℕ → Option Code
  depth : ℕ
  raised : Option Obj
  restricted : Bool

structure Reply where
  world : World
  value : Except Err Obj
  bound : Bool
  slots : List (Option Obj)
  interrupted : Bool

structure Ctx where
  fn : Option ℕ
  fp : ℕ
  ip : ℕ

structure Trap where
  rp : ℕ
  sp : ℕ
  handlerIp : ℕ
  fn : ℕ
  fp : ℕ
  nLocals : ℕ
  scopeDepth : ℕ

/-- `ray_exec_t` with the registers of `vm_exec`. -/
structure RayExec where
  fn : ℕ
  code : Code
  ip : ℕ
  fp : ℕ
  nLocals : ℕ
  ps : List (Option Obj)
  rs : List Ctx
  ts : List Trap
  world : World
  scopeBase : ℕ

inductive Outcome
  | next (s : RayExec)
  | raise (e : Err) (s : RayExec)
  | done (value : Option Obj) (world : World)
  | stuck

def limit : Err := ⟨none, "limit"⟩

def restrictedErr : Err := ⟨some (.error "access"), "domain"⟩

namespace RayExec

def push (s : RayExec) (v : Option Obj) : Outcome :=
  if vmStackSize ≤ s.ps.length then .raise limit s else .next { s with ps := s.ps ++ [v] }

def popN (s : RayExec) (n : ℕ) : Option (List (Option Obj) × RayExec) :=
  if s.ps.length < n then none
  else some (s.ps.drop (s.ps.length - n), { s with ps := s.ps.take (s.ps.length - n) })

def answer (s : RayExec) (r : Reply) : Outcome :=
  match r.value with
  | .ok v => { s with world := r.world }.push (some v)
  | .error e => .raise e { s with world := r.world }

def symConst (s : RayExec) (idx : ℕ) : Bool :=
  match s.code.consts[idx]? with
  | some (.sym _ _) => true
  | _ => false

end RayExec

variable (lam : ℕ → Lambda) (isTruthy : Option Obj → Bool)

def ensureCompiled (w : World) (a : ℕ) : World :=
  match w.code a with
  | some _ => w
  | none =>
    match rayCompile w.globals (lam a) with
    | some c => { w with code := Function.update w.code a (some c) }
    | none => w

def enterLambda (s : RayExec) (a : ℕ) (c : Code) (args : List (Option Obj)) : RayExec :=
  { s with
    fn := a, code := c, ip := 0, fp := s.ps.length, nLocals := c.nLocals
    ps := s.ps ++ (args ++ List.replicate (c.nLocals - args.length) none)
    rs := ⟨some s.fn, s.fp, s.ip⟩ :: s.rs }

def callLambda (r : Reply) (s : RayExec) (a : ℕ) (args : List (Option Obj)) : Outcome :=
  let s := { s with world := ensureCompiled lam s.world a }
  match s.world.code a with
  | none => s.answer r
  | some c =>
    if vmStackSize ≤ s.rs.length ∨ vmStackSize ≤ s.ps.length + c.nLocals then .raise limit s
    else if args.length ≠ (lam a).params.length then .raise ⟨some (.error "arity"), "domain"⟩ s
    else if r.interrupted then .raise ⟨none, "cancel"⟩ (enterLambda s a c args)
    else .next (enterLambda s a c args)

def callBuiltin (r : Reply) (s : RayExec) (kind : FnKind) (restricted : Bool) (argc : ℕ) : Outcome :=
  if s.world.restricted ∧ restricted then .raise restrictedErr s
  else if (kind = .unary ∧ argc ≠ 1) ∨ (kind = .binary ∧ argc ≠ 2) then .raise ⟨some (.error "arity"), "domain"⟩ s
  else s.answer r

def callf (r : Reply) (s : RayExec) (argc : ℕ) : Outcome :=
  if 64 < argc then .raise ⟨none, "domain"⟩ s
  else
    match s.popN (argc + 1) with
    | some (some (.lambda a) :: args, s) => callLambda lam r s a args
    | some (some (.builtin _ kind restricted) :: _, s) => callBuiltin r s kind restricted argc
    | some (some _ :: _, s) => .raise ⟨some (.error "type"), "domain"⟩ s
    | _ => .stuck

def calls (s : RayExec) (argc : ℕ) : Outcome :=
  if vmStackSize ≤ s.rs.length ∨ vmStackSize ≤ s.ps.length + s.nLocals then .raise limit s
  else if s.ps.length < argc then .stuck
  else .next { s with
    ip := 0, fp := s.ps.length - argc
    ps := s.ps ++ List.replicate (s.nLocals - argc) none
    rs := ⟨none, s.fp, s.ip⟩ :: s.rs }

def callFn (r : Reply) (s : RayExec) (argc : ℕ) : Outcome :=
  match s.popN (argc + 1) with
  | some (some (.builtin _ _ restricted) :: _, s) =>
    if s.world.restricted ∧ restricted then .raise restrictedErr s else s.answer r
  | _ => .stuck

def ret (s : RayExec) : Outcome :=
  let result := if s.fp + s.nLocals < s.ps.length then s.ps.getLast?.getD none else some .null
  let s := { s with ps := s.ps.take s.fp }
  match s.rs with
  | [] => .done result s.world
  | ⟨none, fp, ip⟩ :: rs => { s with fp := fp, ip := ip, rs := rs }.push result
  | ⟨some f, fp, ip⟩ :: rs =>
    match s.world.code f with
    | none => .stuck
    | some c => { s with fn := f, code := c, nLocals := c.nLocals, fp := fp, ip := ip, rs := rs }.push result

def loadenv (r : Reply) (s : RayExec) (slot : ℕ) : Outcome :=
  match s.ps[s.fp + slot]? with
  | none => .stuck
  | some none => s.push (some (.i64 0))
  | some (some (.lazy _)) =>
    match r.value with
    | .ok v => { s with world := r.world, ps := s.ps.set (s.fp + slot) (some v) }.push (some v)
    | .error e => .raise e { s with world := r.world, ps := s.ps.set (s.fp + slot) none }
  | some (some v) => s.push (some v)

def storeenv (s : RayExec) (slot : ℕ) : Outcome :=
  match s.popN 1 with
  | some ([v], s) => if s.fp + slot < s.ps.length then .next { s with ps := s.ps.set (s.fp + slot) v } else .stuck
  | _ => .stuck

def storeglobal (r : Reply) (s : RayExec) (idx : ℕ) : Outcome :=
  if !s.symConst idx then .stuck
  else
    match s.popN 1 with
    | none => .stuck
    | some (_, popped) =>
      if s.world.restricted then .raise restrictedErr popped
      else
        match r.value with
        | .ok _ => .next { s with world := r.world }
        | .error e => .raise e { popped with world := r.world }

def jump (ip : ℕ) (offset : ℤ) : ℕ := (ip + offset).toNat

def trap (s : RayExec) (offset : ℤ) : Outcome :=
  if vmTrapSize ≤ s.ts.length then .raise limit s
  else .next { s with
    ts := ⟨s.rs.length, s.ps.length, jump s.ip offset, s.fn, s.fp, s.nLocals, s.world.depth⟩ :: s.ts }

def scopeBegin (r : Reply) (s : RayExec) : Outcome :=
  match s.popN 1 with
  | some ([some (.names locals)], s) =>
    if s.ps.length < s.fp + locals.length then .stuck
    else if rayScopeCap ≤ s.world.depth ∨ !r.bound then .raise limit s
    else .next { s with world := { s.world with depth := s.world.depth + 1 } }
  | _ => .stuck

def scopeEnd (r : Reply) (s : RayExec) : Outcome :=
  match s.popN 1 with
  | some ([some (.names locals)], s) =>
    if s.ps.length < s.fp + locals.length then .stuck
    else .next { s with
      ps := (r.slots.take locals.length).zipIdx.foldl (fun ps x => ps.set (s.fp + x.2) x.1) s.ps
      world := { s.world with depth := s.world.depth - 1 } }
  | _ => .stuck

def exec (r : Reply) (s : RayExec) : Outcome :=
  match decode s.code.bytes s.ip with
  | none => .stuck
  | some (i, next) =>
    let s := { s with ip := next }
    match i with
    | .ret => ret s
    | .jmp offset =>
      let s := { s with ip := jump next offset }
      if offset < 0 ∧ r.interrupted then .raise ⟨none, "cancel"⟩ s else .next s
    | .jmpf offset =>
      match s.popN 1 with
      | some ([cond], s) => .next (if isTruthy cond then s else { s with ip := jump next offset })
      | _ => .stuck
    | .loadconst idx =>
      match s.code.consts[idx]? with
      | some v => s.push (some v)
      | none => .stuck
    | .loadenv slot => loadenv r s slot
    | .storeenv slot => storeenv s slot
    | .pop => .next (if s.fp + s.nLocals < s.ps.length then { s with ps := s.ps.dropLast } else s)
    | .resolve idx => if s.symConst idx then s.answer r else .stuck
    | .call1 => callFn r s 1
    | .call2 => callFn r s 2
    | .calln argc => if 64 < argc then .raise ⟨none, "domain"⟩ s else callFn r s argc
    | .callf argc => callf lam r s argc
    | .calls argc => calls s argc
    | .calld argc =>
      match s.popN (if argc = 0 then 1 else argc + 1) with
      | some (_, s) => s.answer r
      | none => .stuck
    | .dup =>
      match s.ps.getLast? with
      | some v => s.push v
      | none => .stuck
    | .trap offset => trap s offset
    | .trapEnd => .next { s with ts := s.ts.tail }
    | .storeglobal idx => storeglobal r s idx
    | .scopeBegin => scopeBegin r s
    | .scopeEnd => scopeEnd r s
    | .tryh =>
      match s.popN 2 with
      | some (_, s) => s.answer r
      | none => .stuck
    | .force =>
      match s.popN 1 with
      | some ([some (.lazy _)], s) => s.answer r
      | some ([v], s) => s.push v
      | _ => .stuck

inductive Next
  | run (s : RayExec)
  | returned (value : Option Obj) (world : World)
  | failed (e : Err) (world : World)
  | stuck

def deliver (e : Err) (s : RayExec) : List Trap → Next
  | [] => .failed e { s.world with depth := min s.world.depth s.scopeBase }
  | t :: ts =>
    let world := { s.world with depth := min s.world.depth t.scopeDepth, raised := none }
    let value := ((s.world.raised.or e.obj).getD (.i64 0))
    let ps := s.ps.take t.sp
    match world.code t.fn with
    | none => .stuck
    | some c =>
      let s := { s with
        fn := t.fn, code := c, ip := t.handlerIp, fp := t.fp, nLocals := t.nLocals
        ps := ps, rs := s.rs.drop (s.rs.length - t.rp), ts := ts, world := world }
      if vmStackSize ≤ ps.length then deliver limit s ts else .run { s with ps := ps ++ [some value] }

def step (r : Reply) (s : RayExec) : Next :=
  match exec lam isTruthy r s with
  | .next s => .run s
  | .done v w => .returned v w
  | .raise e s => deliver e s s.ts
  | .stuck => .stuck

def start (w : World) (a : ℕ) (c : Code) (args : List (Option Obj)) : RayExec where
  fn := a
  code := c
  ip := 0
  fp := 0
  nLocals := c.nLocals
  ps := args ++ List.replicate (c.nLocals - args.length) none
  rs := []
  ts := []
  world := w
  scopeBase := w.depth

end Rayforce.Vm
