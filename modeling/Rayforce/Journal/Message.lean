import Rayforce.Serde.Frame

/-! Journal frames, and their two ways to an evaluation. -/

namespace Rayforce.Journal

open Library.Words Rayforce.Serde

def rayIpcFlagCompressed : UInt8 := 1
def rayIpcFlagRestricted : UInt8 := 2
def maxPayload : ℕ := 256 * 1024 * 1024

structure Frame where
  flags : UInt8
  msgtype : UInt8
  payload : Bytes
  deriving DecidableEq

namespace Frame

def header (f : Frame) : Bytes :=
  raySerdePrefix ++ [3, f.flags, 0, f.msgtype] ++ leBytes 8 f.payload.length

def bytes (f : Frame) : Bytes := f.header ++ f.payload

def Valid (f : Frame) : Prop := 0 < f.payload.length ∧ f.payload.length ≤ maxPayload

def restricted (f : Frame) : Bool := f.flags &&& rayIpcFlagRestricted != 0

end Frame

def rleDecode : ℕ → Bytes → ℕ → Option Bytes
  | 0, _, _ => some []
  | _ + 1, [], _ => some []
  | fuel + 1, c :: src, room =>
    if room = 0 then some []
    else if 0 < c ∧ c < 128 then
      match src with
      | [] => none
      | v :: src =>
        if room < c.toNat then none
        else (rleDecode fuel src (room - c.toNat)).map (List.replicate c.toNat v ++ ·)
    else
      let n := (256 - c.toNat) % 256
      if src.length < n ∨ room < n then none
      else (rleDecode fuel (src.drop n) (room - n)).map (src.take n ++ ·)

def undelta : UInt8 → Bytes → Bytes
  | _, [] => []
  | prev, b :: bs => (b + prev) :: undelta (b + prev) bs

def rayIpcDecompress (src : Bytes) (dstLen : ℕ) : Bytes :=
  ((rleDecode (src.length + 1) src dstLen).map (undelta 0)).getD []

def deMessage (rt : Runtime) (payload : Bytes) : Obj :=
  ((rayDeRaw rt payload rayDeMaxDepth 0 (.start payload.length 0)).map Prod.fst).getD .nullPtr

def deserFrame (rt : Runtime) (flags : UInt8) (payload : Bytes) : Obj :=
  if flags &&& rayIpcFlagCompressed ≠ 0 then
    if payload.length < 4 then .nullPtr
    else
      let uncompSize := leNat (payload.take 4)
      if uncompSize = 0 ∨ maxPayload < uncompSize then .nullPtr
      else
        let decompressed := rayIpcDecompress (payload.drop 4) uncompSize
        if decompressed.length ≠ uncompSize then .nullPtr else deMessage rt decompressed
  else deMessage rt payload

def decompressIfNeeded (flags : UInt8) (payload : Bytes) : Option Bytes :=
  if flags &&& rayIpcFlagCompressed = 0 then some payload
  else if payload.length < 4 then none
  else
    let uncompSize := leNat (payload.take 4)
    if uncompSize = 0 ∨ maxPayload < uncompSize then none
    else
      let out := rayIpcDecompress (payload.drop 4) uncompSize
      if out.length ≠ uncompSize then none else some out

inductive Route
  | hook (fn msg : Obj)
  | str (text : Bytes)
  | expr (msg : Obj)

structure Call where
  restricted : Bool
  route : Route

structure Interp (σ : Type) where
  runtime : σ → Runtime
  exec : Call → σ → σ

def Interp.step {σ : Type} (it : Interp σ) (env : σ) : Option Call → σ
  | none => env
  | some c => it.exec c env

def rayEvalLiteralFallback : UInt8 := 4

mutual

def markIpcLiteralFallbacks : Obj → Obj
  | .list attrs es => .list (attrs ||| rayEvalLiteralFallback) (markAll es)
  | o => o

def markAll : List Obj → List Obj
  | [] => []
  | e :: es => markIpcLiteralFallbacks e :: markAll es

end

def markMessage : Obj → Obj
  | .list attrs (e :: es) => .list attrs (e :: markAll es)
  | o => o

def ipcOnSync : Bytes := [0x2e, 0x69, 0x70, 0x63, 0x2e, 0x6f, 0x6e, 0x2e, 0x73, 0x79, 0x6e, 0x63]

def hookLookup (rt : Runtime) : Option Obj :=
  match rt.env ipcOnSync with
  | some (.lambda attrs params body) => some (.lambda attrs params body)
  | _ => none

def evalOne (restricted : Bool) : Obj → Option Call
  | .atom .nullStr => none
  | .atom (.str s) => if s = [] then none else some ⟨restricted, .str s⟩
  | msg => some ⟨restricted, .expr msg⟩

def dispatch (rt : Runtime) (restricted : Bool) (msg : Obj) : Option Call :=
  match hookLookup rt, markMessage msg with
  | some fn, msg => some ⟨restricted, .hook fn msg⟩
  | none, .atom .nullStr => none
  | none, .atom (.str s) => if s = [] then none else some ⟨restricted, .str s⟩
  | none, msg => some ⟨restricted, .expr msg⟩

structure Inbound where
  flags : UInt8
  payload : Bytes
  restricted : Bool
  fits : 0 < payload.length ∧ payload.length ≤ maxPayload

def rayIpcMsgSync : UInt8 := 1

namespace Inbound

def logged (i : Inbound) : Frame :=
  ⟨if i.restricted then i.flags ||| rayIpcFlagRestricted else i.flags, rayIpcMsgSync, i.payload⟩

end Inbound

def evalPayloadCore (rt : Runtime) (i : Inbound) : Option Call :=
  match deserFrame rt i.flags i.payload with
  | .nullPtr => none
  | .error _ => none
  | msg => dispatch rt i.restricted msg

section

variable {rt : Runtime}

lemma deMessage_parse (payload : Bytes) : deMessage rt payload = (parse rt rayDeMaxDepth payload).1 := by
  obtain ⟨log, he, -⟩ := rayDeRaw_parse rt payload (Nat.zero_le rayDeMaxDepth) (Nat.sub_le _ 0)
  rw [deMessage, he]
  rfl

lemma deserFrame_eq (flags : UInt8) (payload : Bytes) :
    deserFrame rt flags payload = ((decompressIfNeeded flags payload).map (deMessage rt)).getD .nullPtr := by
  rw [deserFrame, decompressIfNeeded]
  by_cases hf : flags &&& rayIpcFlagCompressed = 0
  · rw [if_neg (not_not.mpr hf), if_pos hf]
    rfl
  · rw [if_pos hf, if_neg hf]
    dsimp only
    split_ifs <;> rfl

lemma deserFrame_uncompressed {flags : UInt8} (h : flags &&& rayIpcFlagCompressed = 0) (payload : Bytes) :
    deserFrame rt flags payload = (parse rt rayDeMaxDepth payload).1 := by
  rw [deserFrame, if_neg (not_not.mpr h), deMessage_parse]

lemma dispatch_evalOne {restricted : Bool} {msg : Obj} (hook : hookLookup rt = none)
    (mark : markMessage msg = msg) : dispatch rt restricted msg = evalOne restricted msg := by
  rw [dispatch, hook, mark]
  cases msg with
  | atom a => cases a <;> rfl
  | _ => rfl

end

end Rayforce.Journal
