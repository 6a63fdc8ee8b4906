import Rayforce.Dict.Object
import Rayforce.Library.Extremes
import Rayforce.Window.Partition

/-! `exec_window` of `ops/window.c`. -/

namespace Rayforce.Window

open Library.Words Library.Binary64 Library.Sequences Library.Extremes List Option
open Rayforce.Dict (KeyType Payload sentinelIsNull)
open Rayforce.Temporal (wrap64)

variable {v w : Payload} {t : KeyType} {r : ℕ} {pre rest : List ℕ}

def cellFits : KeyType → Payload → Bool
  | .bool, .byte _ | .u8, .byte _ | .f32, .real _ | .f64, .real _ => true
  | .sym, .bytes _ | .str, .bytes _ | .guid, .bytes _ => true
  | .i16, .int v => -2 ^ 15 ≤ v ∧ v < 2 ^ 15
  | .i32, .int v | .date, .int v | .time, .int v => -2 ^ 31 ≤ v ∧ v < 2 ^ 31
  | .i64, .int v | .timestamp, .int v => -2 ^ 63 ≤ v ∧ v < 2 ^ 63
  | _, _ => false

structure Column where
  type : KeyType
  cells : List Payload
  typed : ∀ v ∈ cells, cellFits type v = true

def cellInt : Payload → ℤ
  | .int v => v
  | .byte v => v.toNat
  | _ => 0

def cellReal : Payload → Double
  | .real d => d
  | _ => .zero

def cellBytes : Payload → Bytes
  | .bytes b => b
  | _ => []

inductive WinError
  | nyi | schema | type
  | null   -- no table at all
  | depth   -- the recursion has not ended
  | undefined   -- an overflow or a read outside a partition
  deriving DecidableEq

namespace Column

def get (c : Column) (r : ℕ) : Payload := c.cells.getD r (.int 0)

def isNull (c : Column) (r : ℕ) : Bool := sentinelIsNull c.type (c.get r)

def concat (a b : Column) : Except WinError Column :=
  if h : a.type = b.type then
    .ok ⟨a.type, a.cells ++ b.cells, fun v hv => (List.mem_append.mp hv).elim (a.typed v) fun hb =>
      h ▸ b.typed v hb⟩
  else .error .type

def broadcast (c : Column) (s n : ℕ) (h : s < c.cells.length) : Column :=
  ⟨c.type, List.replicate n (c.cells.get ⟨s, h⟩), fun _ hv =>
    List.eq_of_mem_replicate hv ▸ c.typed _ (List.get_mem _ _)⟩

def isF64 (c : Column) : Bool := c.type = .f64 || c.type = .f32

def keyCol (c : Column) : KeyCol :=
  match c.type with
  | .f32 | .f64 => .real fun r => cellReal (c.get r)
  | .sym | .str => .str fun r => cellBytes (c.get r)
  | .guid => .other fun r => cellBytes (c.get r)
  | _ => .int fun r => cellInt (c.get r)

end Column

inductive AnyCol (γ : Type)
  | vec (c : Column)
  | mapcommon (keys : Column)
  | parted (segs : List Column)
  | result (cells : List (Cell γ))

abbrev Table (γ : Type) := List (Bytes × AnyCol γ)

variable {γ : Type}

namespace AnyCol

def isParted : AnyCol γ → Bool
  | .mapcommon _ | .parted _ => true
  | _ => false

def len : AnyCol γ → ℕ
  | .vec c => c.cells.length
  | .mapcommon keys => keys.cells.length
  | .parted segs => segs.length
  | .result cells => cells.length

def concat : AnyCol γ → AnyCol γ → Except WinError (AnyCol γ)
  | .vec a, .vec b => (a.concat b).map .vec
  | .result a, .result b => .ok (.result (a ++ b))
  | _, _ => .error .type

end AnyCol

def firstParted (tbl : Table γ) : List Column :=
  (tbl.findSome? fun c => match c.2 with
    | .parted segs => some segs
    | _ => none).getD []

def segmentCol (segRows s : ℕ) : AnyCol γ → Except WinError (AnyCol γ)
  | .mapcommon keys => if h : s < keys.cells.length then .ok
    (.vec (keys.broadcast s segRows h)) else .error .schema
  | .parted segs => segs[s]?.elim (.error .schema) fun c => .ok (.vec c)
  | _ => .error .schema

def buildSegmentTable (tbl : Table γ) (s : ℕ) : Except WinError (Table γ) :=
  tbl.mapM fun c => (segmentCol ((firstParted tbl)[s]?.elim 0 (·.cells.length)) s c.2).map (c.1, ·)

def resultMerge (accum part : Table γ) : Except WinError (Table γ) :=
  accum.zipIdx.mapM fun c =>
    part[c.2]?.elim (.error .schema) fun d => (c.1.2.concat d.2).map (c.1.1, ·)

def mergeStep (f : Table γ → Except WinError (Table γ)) (tbl : Table γ) (merged : Option (Table γ)) (s : ℕ) :
    Except WinError (Option (Table γ)) := do
  let part ← f (← buildSegmentTable tbl s)
  merged.elim (.ok (some part)) fun m => (resultMerge m part).map some

def mergeSegments (f : Table γ → Except WinError (Table γ)) (tbl : Table γ) : Except WinError (Table γ) :=
  ((List.range (firstParted tbl).length).foldlM (mergeStep f tbl) none).bind fun merged =>
    merged.elim (.error .null) .ok

structure Machine (γ : Type) where
  pool : Bool
  enumRank : Column → Option (Payload → ℕ)
  realBits : Double → ℕ
  symId : Bytes → ℤ
  ofInt : ℤ → γ
  ofReal : Double → γ

abbrev SortKey := Column × Bool

def payloadRank : Payload → ℕ ×ₗ ℤ ×ₗ ℚ ×ₗ List ℕ
  | .byte v => toLex (0, toLex ((v.toNat : ℤ), toLex (0, [])))
  | .int v => toLex (1, toLex (v, toLex (0, [])))
  | .real (.fin q) => toLex (2, toLex (0, toLex (q, [])))
  | .real (.inf negative) => toLex (2, toLex (if negative then -1 else 1, toLex (0, [])))
  | .real .nan => toLex (3, toLex (0, toLex (0, [])))
  | .bytes b => toLex (4, toLex (0, toLex (0, b.map UInt8.toNat)))

def valueCmp (a b : Payload) : Ordering :=
  if payloadRank a < payloadRank b then .lt else if payloadRank b < payloadRank a then .gt else .eq

def keyCmp (k : SortKey) (a b : ℕ) : Ordering :=
  if k.1.isNull a || k.1.isNull b then
    if k.1.isNull a && k.1.isNull b then .eq
    else if k.1.isNull a then (if k.2 then .lt else .gt)
    else (if k.2 then .gt else .lt)
  else if k.2 then (valueCmp (k.1.get a) (k.1.get b)).swap else valueCmp (k.1.get a) (k.1.get b)

def sortCmp : List SortKey → ℕ → ℕ → Ordering
  | [], _, _ => .eq
  | k :: ks, a, b => (keyCmp k a b).then (sortCmp ks a b)

section

variable (m : Machine γ)

def radixType : KeyType → Bool
  | .f32 | .str | .guid => false
  | _ => true

def canRadix (keys : List SortKey) : Bool :=
  keys.all fun k => radixType k.1.type && (k.1.type ≠ .sym || (m.enumRank k.1).isSome)

def typeBits : KeyType → ℕ
  | .bool | .u8 => 8
  | .i16 => 16
  | .i32 | .date | .time => 32
  | _ => 64

def singleCode (c : Column) (r : ℕ) : ℤ :=
  match c.type with
  | .sym => (m.enumRank c).elim 0 fun rank => rank (c.get r)
  | .f64 => if (cellReal (c.get r)).isNaN then 2 ^ 64 - 1 else m.realBits (cellReal (c.get r))
  | .bool | .u8 => cellInt (c.get r)
  | .i16 =>
    if (List.range c.cells.length).any c.isNull then
      (if c.isNull r then 0x10001 else cellInt (c.get r) + 2 ^ 15 + 1)
    else cellInt (c.get r) + 2 ^ 15
  | t => if c.isNull r then 2 ^ 64 - 1 else cellInt (c.get r) + 2 ^ (typeBits t - 1)

def singleKey (k : SortKey) (r : ℕ) : ℤ := if k.2 then 2 ^ 64 - 1 - singleCode m k.1 r else singleCode m k.1 r

def partValue (c : Column) (v : Payload) : ℤ :=
  match c.type with
  | .sym => (m.enumRank c).elim 0 fun rank => rank v
  | .f64 => wrap64 (m.realBits (cellReal v))
  | _ => cellInt v

def prescan (n nKeys : ℕ) (c : Column) : ℤ × ℤ :=
  if c.type = .f64 && !(m.pool && 8192 ≤ n && nKeys ≤ 8) then (2 ^ 63 - 1, -2 ^ 63)
  else ((c.cells.map (partValue m c)).foldl min (2 ^ 63 - 1), (c.cells.map (partValue m c)).foldl max (-2 ^ 63))

def partRange (n nKeys : ℕ) (c : Column) : ℕ :=
  (((prescan m n nKeys c).2 - (prescan m n nKeys c).1) % 2 ^ 64).toNat

def partBits (n nKeys : ℕ) (c : Column) : ℕ := max 1 (Nat.size (partRange m n nKeys c))

def totalBits (n nKeys : ℕ) (keys : List SortKey) : ℕ := (keys.map fun k => partBits m n nKeys k.1).sum

def partCode (n nKeys : ℕ) (k : SortKey) (r : ℕ) : ℕ :=
  let part := ((partValue m k.1 (k.1.get r) - (prescan m n nKeys k.1).1) % 2 ^ 64).toNat
  if k.2 then (((partRange m n nKeys k.1 : ℤ) - part) % 2 ^ 64).toNat else part

def composite (n nKeys : ℕ) : List SortKey → ℕ → ℕ
  | [], _ => 0
  | k :: ks, r => (partCode m n nKeys k r <<< totalBits m n nKeys ks) % 2 ^ 64 ||| composite n nKeys ks r

def compositeLe (keys : List SortKey) (n a b : ℕ) : Bool :=
  if totalBits m n keys.length keys ≤ 64 ∧ keys.length ≤ 16 then
    composite m n keys.length keys a ≤ composite m n keys.length keys b
  else (sortCmp keys a b).isLE

def radixLe (n a b : ℕ) : List SortKey → Bool
  | [k] => singleKey m k a ≤ singleKey m k b
  | keys => compositeLe m keys n a b

def rowLe (keys : List SortKey) (n a b : ℕ) : Bool :=
  if 64 < n ∧ canRadix m keys = true then radixLe m n a b keys else (sortCmp keys a b).isLE

def sortedIdx (keys : List SortKey) (n : ℕ) : List ℕ :=
  (List.range n).insertionSort fun a b => rowLe m keys n a b = true

end

def packBits : KeyType → Option ℕ
  | .sym | .i32 | .date | .time => some 32
  | .i64 | .timestamp | .f64 => some 64
  | _ => none

def canPack (types : List KeyType) : Bool :=
  (types.mapM packBits).elim false fun bits => bits.sum ≤ 64 && (types.length ≤ 1 || !bits.contains 64)

def boundary (parts : List Column) (a b : ℕ) : Bool :=
  if canPack (parts.map Column.type) then parts.any fun c => c.get a ≠ c.get b
  else winKeysDiffer (parts.map fun c => some c.keyCol) a b

inductive Kind
  | rowNumber | rank | denseRank | ntile (param : ℤ) | sum | avg | min | max | count
  | lag (param : ℤ) | lead (param : ℤ) | firstValue | lastValue | nthValue (param : ℤ)

section

variable (m : Machine γ)

def winReadI64 (type : KeyType) (v : Payload) : ℤ := if type = .sym then m.symId (cellBytes v) else cellInt v

def winReadF64 (c : Column) (v : Payload) : Double :=
  if c.isF64 then cellReal v else .ofInt (winReadI64 m c.type v)

def Column.vec {β : Type} (c : Column) (read : Payload → β) : Vec β := ⟨c.isNull, fun r => read (c.get r)⟩

def Column.values (c : Column) : Vec γ :=
  c.vec fun v => if c.isF64 then m.ofReal (cellReal v) else m.ofInt (winReadI64 m c.type v)

def Kind.func (fvec : Option Column) : Kind → Func γ
  | .rowNumber => .rowNumber
  | .rank => .rank
  | .denseRank => .denseRank
  | .ntile param => .ntile param
  | .sum =>
    if fvec.elim false Column.isF64 then .sumReal (fvec.map fun c => c.vec (winReadF64 m c))
    else .sum (fvec.map fun c => c.vec (winReadI64 m c.type))
  | .avg => .avg (fvec.map fun c => c.vec (winReadF64 m c))
  | .min => .best false (fvec.map (Column.values m))
  | .max => .best true (fvec.map (Column.values m))
  | .count => .count
  | .lag param => .lag param (fvec.map (Column.values m))
  | .lead param => .lead param (fvec.map (Column.values m))
  | .firstValue => .firstValue (fvec.map (Column.values m))
  | .lastValue => .lastValue (fvec.map (Column.values m))
  | .nthValue param => .nthValue param (fvec.map (Column.values m))

end

inductive Input (γ : Type)
  | scan (name : Bytes)
  | expr (f : Table γ → Except WinError Column)

structure Op (γ : Type) where
  frame : Frame
  partKeys : List (Input γ)
  orderKeys : List (Input γ × Bool)
  funcs : List (Kind × Option (Input γ))

def resolve (tbl : Table γ) : Input γ → Except WinError Column
  | .scan name =>
    match (tbl.find? (·.1 = name)).map Prod.snd with
    | some (.vec c) => .ok c
    | _ => .error .nyi
  | .expr f => f tbl

section

variable [LinearOrder γ] (m : Machine γ)

def runParts (idx : List ℕ) (orderVecs : List (Option KeyCol)) (fr : Frame) (funcs : List (Func γ)) :
    ℕ → List (List ℕ) → List (ℕ → Cell γ) → Except WinError (List (ℕ → Cell γ))
  | _, [], outs => .ok outs
  | ps, g :: gs, outs =>
    (winComputePartition ⟨fun i => idx.getD i 0, ps, ps + g.length⟩ orderVecs fr (funcs.zip outs)).elim
      (.error .undefined) fun outs => runParts idx orderVecs fr funcs (ps + g.length) gs outs

def dispatched (groups : List (List ℕ)) : List (List ℕ) :=
  if m.pool && 1 < groups.length then groups.take 65536 else groups

def compute (fr : Frame) (n : ℕ) (parts : List Column) (orders : List SortKey) (funcs : List (Func γ)) :
    Except WinError (List (ℕ → Cell γ)) :=
  let idx := sortedIdx m (parts.map (·, false) ++ orders) n
  runParts idx (orders.map fun k => some k.1.keyCol) fr funcs 0
    (dispatched m (idx.splitBy fun a b => !boundary parts a b)) (funcs.map fun _ _ => .null)

def winName (f : ℕ) : Bytes :=
  [95, 119] ++ (if 100 ≤ f then [UInt8.ofNat (48 + f / 100)] else []) ++
    (if 10 ≤ f then [UInt8.ofNat (48 + f / 10 % 10)] else []) ++ [UInt8.ofNat (48 + f % 10)]

def resolveFunc (tbl : Table γ) (f : Kind × Option (Input γ)) : Except WinError (Func γ) :=
  f.2.elim (.ok (f.1.func m none)) fun input => (resolve tbl input).map fun c => f.1.func m (some c)

def flatWindow (op : Op γ) (tbl : Table γ) : Except WinError (Table γ) :=
  let n := tbl.head?.elim 0 (·.2.len)
  if n = 0 ∨ op.funcs = [] then .ok tbl
  else do
    let parts ← op.partKeys.mapM (resolve tbl)
    let orders ← op.orderKeys.mapM fun k => (resolve tbl k.1).map (·, k.2)
    let funcs ← op.funcs.mapM (resolveFunc m tbl)
    let outs ← compute m op.frame n parts orders funcs
    .ok (tbl ++ outs.zipIdx.map fun out => (winName out.2, .result ((List.range n).map out.1)))

def eligible (op : Op γ) (tbl : Table γ) : Bool :=
  op.partKeys.any fun
    | .scan name => match (tbl.find? (·.1 = name)).map Prod.snd with
      | some (.mapcommon _) => true
      | _ => false
    | .expr _ => false

def execWindow : ℕ → Op γ → Table γ → Except WinError (Table γ)
  | 0, _, _ => .error .depth
  | depth + 1, op, tbl =>
    if op.frame.supported = false then .error .nyi
    else if 1 ≤ (firstParted tbl).length ∧ eligible op tbl = true then mergeSegments (execWindow depth op) tbl
    else if tbl.any (·.2.isParted) then (mergeSegments .ok tbl).bind (execWindow depth op)
    else flatWindow m op tbl

end

section

variable {k : SortKey} {keys : List SortKey} {c : Column} {a b : ℕ}

def keyRank (c : Column) (r : ℕ) : WithTop (ℕ ×ₗ ℤ ×ₗ ℚ ×ₗ List ℕ) :=
  if c.isNull r then ⊤ else (payloadRank (c.get r) : WithTop _)

lemma valueCmp_eq (v w : Payload) :
    valueCmp v w = compare (payloadRank v : WithTop (ℕ ×ₗ ℤ ×ₗ ℚ ×ₗ List ℕ)) (payloadRank w) := by
  rw [valueCmp]
  rcases lt_trichotomy (payloadRank v) (payloadRank w) with hlt | heq | hgt
  · rw [if_pos hlt, eq_comm, compare_lt_iff_lt]
    exact WithTop.coe_lt_coe.mpr hlt
  · rw [heq, if_neg (lt_irrefl _), if_neg (lt_irrefl _), eq_comm, compare_eq_iff_eq]
  · rw [if_neg hgt.not_gt, if_pos hgt, eq_comm, compare_gt_iff_gt]
    exact WithTop.coe_lt_coe.mpr hgt

lemma keyCmp_eq (k : SortKey) (a b : ℕ) :
    keyCmp k a b = if k.2 then compare (keyRank k.1 b) (keyRank k.1 a) else compare (keyRank k.1 a)
    (keyRank k.1 b) := by
  have hlt : ∀ v, compare (payloadRank v : WithTop (ℕ ×ₗ ℤ ×ₗ ℚ ×ₗ List ℕ)) ⊤ = .lt :=
    fun v => compare_lt_iff_lt.mpr (WithTop.coe_lt_top _)
  have hgt : ∀ v, compare ⊤ (payloadRank v : WithTop (ℕ ×ₗ ℤ ×ₗ ℚ ×ₗ List ℕ)) = .gt :=
    fun v => compare_gt_iff_gt.mpr (WithTop.coe_lt_top _)
  have heq : compare (⊤ : WithTop (ℕ ×ₗ ℤ ×ₗ ℚ ×ₗ List ℕ)) ⊤ = .eq := compare_eq_iff_eq.mpr rfl
  rw [keyCmp, keyRank, keyRank]
  cases k.1.isNull a <;> cases k.1.isNull b <;> cases k.2 <;>
    simp only [Bool.or_self, Bool.or_true, Bool.true_or, Bool.and_true, Bool.and_false, Bool.and_self,
      Bool.false_eq_true, if_true, if_false, hlt, hgt, heq, valueCmp_eq]
  exact Std.OrientedCmp.eq_swap.symm

instance (k : SortKey) : Std.TransCmp (keyCmp k) := by
  cases hk : k.2 with
  | false =>
    have heq : keyCmp k = compareOn (keyRank k.1) := by
      funext a b
      rw [keyCmp_eq, hk]
      rfl
    rw [heq]
    infer_instance
  | true =>
    have heq : keyCmp k = fun a b => compareOn (keyRank k.1) b a := by
      funext a b
      rw [keyCmp_eq, hk]
      rfl
    rw [heq]
    infer_instance

instance (keys : List SortKey) : Std.TransCmp (sortCmp keys) := by
  induction keys with
  | nil => exact { eq_swap := rfl, isLE_trans := fun _ _ => rfl }
  | cons k keys ih => exact inferInstanceAs (Std.TransCmp (compareLex (keyCmp k) (sortCmp keys)))

lemma sortCmp_append (keys keys' : List SortKey) (a b : ℕ) :
    sortCmp (keys ++ keys') a b = (sortCmp keys a b).then (sortCmp keys' a b) := by
  induction keys with
  | nil => rfl
  | cons k keys ih => rw [cons_append, sortCmp, sortCmp, ih, Ordering.then_assoc]

lemma payloadRank_inj (h : payloadRank v = payloadRank w) : v = w := by
  have hbytes : Function.Injective (map UInt8.toNat) := map_injective_iff.mpr fun x y => UInt8.toNat_inj.mp
  cases v with
  | real d =>
    cases w with
    | real d' => cases d <;> cases d' <;> simp_all [payloadRank] <;> split at h <;> simp_all
    | _ => cases d <;> simp_all [payloadRank]
  | _ =>
    cases w with
    | real d => cases d <;> simp_all [payloadRank]
    | _ => simp_all [payloadRank, hbytes.eq_iff, UInt8.toNat_inj]

lemma exists_sentinel (ht : t ≠ .guid) : ∃ u, ∀ v, sentinelIsNull t v = true → v = u := by
  cases t with
  | i16 => exact ⟨.int (-2 ^ 15), fun v h => by cases v <;> simp_all [sentinelIsNull]⟩
  | i32 | date | time => exact ⟨.int (-2 ^ 31), fun v h => by cases v <;> simp_all [sentinelIsNull]⟩
  | i64 | timestamp => exact ⟨.int (-2 ^ 63), fun v h => by cases v <;> simp_all [sentinelIsNull]⟩
  | f32 | f64 =>
    refine ⟨.real .nan, fun v h => ?_⟩
    cases v with
    | real d => cases d <;> first | rfl | exact absurd h Bool.false_ne_true
    | _ => exact absurd h Bool.false_ne_true
  | guid => exact absurd rfl ht
  | _ => exact ⟨.int 0, fun v h => by cases v <;> simp_all [sentinelIsNull]⟩

lemma Column.fits_get (h : a < c.cells.length) : cellFits c.type (c.get a) = true := by
  rw [Column.get, getD_eq_getElem _ _ h]
  exact c.typed _ (getElem_mem h)

lemma get_eq_of_keyCmp (hc : k.1.type ≠ .guid) (h : keyCmp k a b = .eq) : k.1.get a = k.1.get b := by
  have hrank : keyRank k.1 a = keyRank k.1 b := by
    rw [keyCmp_eq] at h
    split at h
    · exact (compare_eq_iff_eq.mp h).symm
    · exact compare_eq_iff_eq.mp h
  rw [keyRank, keyRank] at hrank
  cases hna : k.1.isNull a <;> cases hnb : k.1.isNull b <;> rw [hna, hnb] at hrank
  · exact payloadRank_inj (WithTop.coe_injective hrank)
  · exact absurd hrank (WithTop.coe_ne_top)
  · exact absurd hrank.symm (WithTop.coe_ne_top)
  · obtain ⟨u, hu⟩ := exists_sentinel hc
    rw [hu _ hna, hu _ hnb]

end

section

variable {m : Machine γ} {k : SortKey} {keys : List SortKey} {c : Column} {a b n nKeys : ℕ}

def Machine.Ranked (m : Machine γ) : Prop :=
  ∀ c rank, m.enumRank c = some rank → ∀ v ∈ c.cells, rank v < 2 ^ 32 ∧
    ∀ w ∈ c.cells, (rank v < rank w ↔ payloadRank v < payloadRank w)

structure RealKey (m : Machine γ) (n nKeys : ℕ) (c : Column) : Prop where
  seen : (m.pool && 8192 ≤ n && nKeys ≤ 8) = true
  words : ∀ v ∈ c.cells, ∀ w ∈ c.cells, partValue m c v < partValue m c w ↔ payloadRank v < payloadRank w

structure Wordly (m : Machine γ) (n nKeys : ℕ) (c : Column) : Prop where
  length : c.cells.length = n
  radix : radixType c.type = true
  ranked : c.type = .sym → (m.enumRank c).isSome = true
  real : c.type = .f64 → RealKey m n nKeys c
  full : ∀ r < n, c.isNull r = false

lemma Column.get_mem (h : a < c.cells.length) : c.get a ∈ c.cells := by
  rw [Column.get, getD_eq_getElem _ _ h]
  exact getElem_mem h

lemma isLE_compare {α : Type} [LinearOrder α] {x y : α} : (compare x y).isLE = true ↔ x ≤ y := by
  rw [Ordering.isLE_iff_ne_gt, compare_gt_iff_gt, not_lt]

lemma compare_congr {α β : Type} [LinearOrder α] [LinearOrder β] {x y : α} {x' y' : β} (h : x < y ↔ x' < y')
    (h' : y < x ↔ y' < x') :
    compare x y = compare x' y' := by
  rcases lt_trichotomy x y with hlt | rfl | hgt
  · rw [compare_lt_iff_lt.mpr hlt, compare_lt_iff_lt.mpr (h.mp hlt)]
  · have heq : x' = y' := le_antisymm (not_lt.mp fun hlt => lt_irrefl x (h'.mpr hlt))
      (not_lt.mp fun hlt => lt_irrefl x (h.mpr hlt))
    rw [compare_eq_iff_eq.mpr rfl, compare_eq_iff_eq.mpr heq]
  · rw [compare_gt_iff_gt.mpr hgt, compare_gt_iff_gt.mpr (h'.mp hgt)]

lemma cellInt_bounds {v : Payload} (hv : cellFits t v = true) : -2 ^ 63 ≤ cellInt v ∧ cellInt v < 2 ^ 63 := by
  cases v with
  | byte x =>
    have := x.toNat_lt
    rw [cellInt]
    omega
  | int x => cases t <;> simp_all [cellFits, cellInt] <;> omega
  | real d => simp [cellInt]
  | bytes b => simp [cellInt]

lemma partValue_spec (hm : m.Ranked) (hradix : radixType c.type = true)
    (hrank : c.type = .sym → (m.enumRank c).isSome = true)
    (hreal : c.type = .f64 → RealKey m n nKeys c) (hv : v ∈ c.cells) (hw : w ∈ c.cells) :
    -2 ^ 63 ≤ partValue m c v ∧ partValue m c v < 2 ^ 63 ∧
      (partValue m c v < partValue m c w ↔ payloadRank v < payloadRank w) := by
  have hfv := c.typed v hv
  have hfw := c.typed w hw
  have hwords := fun ht => (hreal ht).words v hv w hw
  rw [partValue, partValue] at hwords ⊢
  cases ht : c.type <;> rw [ht] at hradix hfv hfw hwords <;> dsimp only at hwords ⊢
  case sym =>
    obtain ⟨rank, hsome⟩ := isSome_iff_exists.mp (hrank ht)
    obtain ⟨hlt, hiff⟩ := hm c rank hsome v hv
    rw [hsome, elim_some, elim_some]
    refine ⟨by omega, by omega, ?_⟩
    rw [Nat.cast_lt]
    exact hiff w hw
  case f64 =>
    obtain ⟨hl, hh⟩ := Rayforce.Temporal.wrap64_mem (m.realBits (cellReal v))
    exact ⟨hl, hh, hwords rfl⟩
  case f32 => exact absurd hradix Bool.false_ne_true
  case str => exact absurd hradix Bool.false_ne_true
  case guid => exact absurd hradix Bool.false_ne_true
  all_goals
    refine ⟨(cellInt_bounds hfv).1, (cellInt_bounds hfv).2, ?_⟩
    cases v <;> cases w <;> simp_all [cellFits, cellInt, payloadRank, Prod.Lex.toLex_lt_toLex]

namespace Wordly

variable (hm : m.Ranked) (hc : Wordly m n nKeys c) (ha : a < n) (hb : b < n)

include hm hc ha hb

lemma value_lt : partValue m c (c.get a) < partValue m c (c.get b) ↔
    payloadRank (c.get a) < payloadRank (c.get b) :=
  (partValue_spec hm hc.radix hc.ranked hc.real (Column.get_mem (hc.length ▸ ha))
    (Column.get_mem (hc.length ▸ hb))).2.2

lemma cmp_eq (desc : Bool) : keyCmp (c, desc) a b = if desc then compare (partValue m c (c.get b))
    (partValue m c (c.get a))
      else compare (partValue m c (c.get a)) (partValue m c (c.get b)) := by
  have hvalue : ∀ x y, x < n → y < n →
      valueCmp (c.get x) (c.get y) = compare (partValue m c (c.get x)) (partValue m c (c.get y)) := by
    intro x y hx hy
    rw [valueCmp_eq]
    exact compare_congr (WithTop.coe_lt_coe.trans (hc.value_lt hm hx hy).symm)
      (WithTop.coe_lt_coe.trans (hc.value_lt hm hy hx).symm)
  rw [keyCmp, hc.full a ha, hc.full b hb]
  cases desc with
  | false =>
    simp only [Bool.or_self, Bool.false_eq_true, if_false]
    exact hvalue a b ha hb
  | true =>
    simp only [Bool.or_self, Bool.false_eq_true, if_false, if_true, hvalue a b ha hb]
    exact Std.OrientedCmp.eq_swap.symm

omit ha hb in
lemma prescan_bounds : -2 ^ 63 ≤ (prescan m n nKeys c).1 ∧ (prescan m n nKeys c).2 < 2 ^ 63 ∧
    ∀ r < n, (prescan m n nKeys c).1 ≤ partValue m c (c.get r) ∧
      partValue m c (c.get r) ≤ (prescan m n nKeys c).2 := by
  have hvalue : ∀ v ∈ c.cells, -2 ^ 63 ≤ partValue m c v ∧ partValue m c v < 2 ^ 63 := by
    intro v hv
    obtain ⟨hl, hh, -⟩ := partValue_spec hm hc.radix hc.ranked hc.real hv hv
    exact ⟨hl, hh⟩
  have hseen : (c.type = .f64 && !(m.pool && 8192 ≤ n && nKeys ≤ 8)) = false := by
    by_cases ht : c.type = .f64
    · rw [(hc.real ht).seen, Bool.not_true, Bool.and_false]
    · rw [decide_eq_false ht, Bool.false_and]
  rw [prescan, hseen, if_neg Bool.false_ne_true]
  obtain ⟨hmin, hminle⟩ := isLeast_foldl_min (2 ^ 63 - 1) (c.cells.map (partValue m c))
  obtain ⟨hmax, hmaxle⟩ := isGreatest_foldl_max (-2 ^ 63) (c.cells.map (partValue m c))
  refine ⟨?_, ?_, fun r hr => ?_⟩
  · rcases hmin with heq | hmem
    · dsimp only
      rw [heq]
      norm_num
    · obtain ⟨v, hv, hval⟩ := mem_map.mp hmem
      exact hval ▸ (hvalue v hv).1
  · rcases hmax with heq | hmem
    · dsimp only
      rw [heq]
      norm_num
    · obtain ⟨v, hv, hval⟩ := mem_map.mp hmem
      exact hval ▸ (hvalue v hv).2
  · have hmem : partValue m c (c.get r) ∈ c.cells.map (partValue m c) :=
      mem_map_of_mem (Column.get_mem (hc.length ▸ hr))
    exact ⟨hminle (Or.inr hmem), hmaxle (Or.inr hmem)⟩

omit hb in
lemma partCode_eq (desc : Bool) : (partCode m n nKeys (c, desc) a : ℤ) =
      (if desc then (prescan m n nKeys c).2 - partValue m c (c.get a) else partValue m c
        (c.get a) - (prescan m n nKeys c).1) ∧
      partCode m n nKeys (c, desc) a < 2 ^ partBits m n nKeys c := by
  obtain ⟨hmin, hmax, hall⟩ := hc.prescan_bounds hm
  obtain ⟨hl, hh⟩ := hall a ha
  have hrange : (partRange m n nKeys c : ℤ) = (prescan m n nKeys c).2 - (prescan m n nKeys c).1 := by
    rw [partRange]
    omega
  have hcode : (partCode m n nKeys (c, desc) a : ℤ) =
      if desc then (prescan m n nKeys c).2 - partValue m c (c.get a) else partValue m c
        (c.get a) - (prescan m n nKeys c).1 := by
    rw [partCode]
    cases desc with
    | false =>
      simp only [Bool.false_eq_true, if_false]
      omega
    | true =>
      simp only [if_true]
      omega
  refine ⟨hcode, ?_⟩
  have hle : partCode m n nKeys (c, desc) a ≤ partRange m n nKeys c := by
    cases desc <;> simp only [Bool.false_eq_true, if_false, if_true] at hcode <;> omega
  calc partCode m n nKeys (c, desc) a ≤ partRange m n nKeys c := hle
    _ < 2 ^ Nat.size (partRange m n nKeys c) := Nat.lt_size_self _
    _ ≤ 2 ^ partBits m n nKeys c := Nat.pow_le_pow_right (by decide) (le_max_right _ _)

lemma cmp_codes (desc : Bool) :
    keyCmp (c, desc) a b = compare (partCode m n nKeys (c, desc) a) (partCode m n nKeys (c, desc) b) := by
  obtain ⟨hca, -⟩ := hc.partCode_eq hm ha desc
  obtain ⟨hcb, -⟩ := hc.partCode_eq hm hb desc
  rw [hc.cmp_eq hm ha hb]
  cases desc <;> simp only [Bool.false_eq_true, if_false, if_true] at hca hcb ⊢ <;>
    exact compare_congr (by omega) (by omega)

end Wordly

lemma word_le {x y rx ry t : ℕ} (hx : rx < t) (hy : ry < t) :
    x * t + rx ≤ y * t + ry ↔ x < y ∨ x = y ∧ rx ≤ ry := by
  rcases lt_trichotomy x y with hlt | rfl | hgt
  · have := Nat.mul_le_mul_right t hlt
    rw [Nat.succ_mul] at this
    omega
  · omega
  · have := Nat.mul_le_mul_right t hgt
    rw [Nat.succ_mul] at this
    omega

lemma composite_spec (hm : m.Ranked) (ha : a < n) (hb : b < n) (hkeys : ∀ k ∈ keys, Wordly m n nKeys k.1)
    (hbits : totalBits m n nKeys keys ≤ 64) :
    composite m n nKeys keys a < 2 ^ totalBits m n nKeys keys ∧
      composite m n nKeys keys b < 2 ^ totalBits m n nKeys keys ∧
      (composite m n nKeys keys a ≤ composite m n nKeys keys b ↔ (sortCmp keys a b).isLE = true) := by
  induction keys with
  | nil => exact ⟨Nat.one_pos, Nat.one_pos, by simp [composite, sortCmp]⟩
  | cons k keys ih =>
    obtain ⟨c, desc⟩ := k
    have hc : Wordly m n nKeys c := hkeys (c, desc) mem_cons_self
    have htotal : totalBits m n nKeys ((c, desc) :: keys) = partBits m n nKeys c + totalBits m n nKeys keys := by
      rw [totalBits, map_cons, sum_cons]
      rfl
    obtain ⟨hla, hlb, hiff⟩ := ih (fun k hk => hkeys k (mem_cons_of_mem _ hk)) (by omega)
    have hword : ∀ r < n, composite m n nKeys keys r < 2 ^ totalBits m n nKeys keys →
        composite m n nKeys ((c, desc) :: keys) r =
          partCode m n nKeys (c, desc) r * 2 ^ totalBits m n nKeys keys + composite m n nKeys keys r := by
      intro r hr hlt
      have hcode := (hc.partCode_eq hm hr desc).2
      have hfits : partCode m n nKeys (c, desc) r <<< totalBits m n nKeys keys < 2 ^ 64 := by
        rw [Nat.shiftLeft_eq]
        calc partCode m n nKeys (c, desc) r * 2 ^ totalBits m n nKeys keys
            < 2 ^ partBits m n nKeys c * 2 ^ totalBits m n nKeys keys :=
              Nat.mul_lt_mul_of_pos_right hcode (Nat.two_pow_pos _)
          _ = 2 ^ totalBits m n nKeys ((c, desc) :: keys) := by rw [htotal, Nat.pow_add]
          _ ≤ 2 ^ 64 := Nat.pow_le_pow_right (by decide) hbits
      rw [composite, Nat.mod_eq_of_lt hfits, ← Nat.shiftLeft_add_eq_or_of_lt hlt, Nat.shiftLeft_eq]
    have hbound : ∀ r < n, composite m n nKeys keys r < 2 ^ totalBits m n nKeys keys →
        composite m n nKeys ((c, desc) :: keys) r < 2 ^ totalBits m n nKeys ((c, desc) :: keys) := by
      intro r hr hlt
      have hcode := (hc.partCode_eq hm hr desc).2
      rw [hword r hr hlt, htotal, Nat.pow_add]
      calc partCode m n nKeys (c, desc) r * 2 ^ totalBits m n nKeys keys + composite m n nKeys keys r
          < (partCode m n nKeys (c, desc) r + 1) * 2 ^ totalBits m n nKeys keys := by
            rw [Nat.add_mul, one_mul]; omega
        _ ≤ 2 ^ partBits m n nKeys c * 2 ^ totalBits m n nKeys keys := Nat.mul_le_mul_right _ hcode
    refine ⟨hbound a ha hla, hbound b hb hlb, ?_⟩
    rw [hword a ha hla, hword b hb hlb, sortCmp, hc.cmp_codes hm ha hb desc, Ordering.isLE_then_iff_or,
      compare_lt_iff_lt, compare_eq_iff_eq, ← hiff]
    exact word_le hla hlb

def Plain (m : Machine γ) (keys : List SortKey) (n : ℕ) : Prop :=
  n ≤ 64 ∨ canRadix m keys = false ∨ ¬(totalBits m n keys.length keys ≤ 64 ∧ keys.length ≤ 16) ∨
    ∀ k ∈ keys, (k.1.type = .f64 → RealKey m n keys.length k.1) ∧ ∀ r < n, k.1.isNull r = false

lemma rowLe_eq (hm : m.Ranked) (hlen : ∀ k ∈ keys, k.1.cells.length = n) (hplain : Plain m keys n)
    (hone : keys.length ≠ 1) (ha : a < n) (hb : b < n) : rowLe m keys n a b = (sortCmp keys a b).isLE := by
  by_cases hradix : 64 < n ∧ canRadix m keys = true
  · obtain ⟨hn, hcan⟩ := hradix
    have hall := hcan
    rw [canRadix, List.all_eq_true] at hall
    have hword : totalBits m n keys.length keys ≤ 64 ∧ keys.length ≤ 16 → ∀ k ∈ keys,
        Wordly m n keys.length k.1 := by
      intro hfits k hk
      have hk' := hall k hk
      rw [Bool.and_eq_true, Bool.or_eq_true, decide_eq_true_eq] at hk'
      rcases hplain with hle | hno | hno | hfull
      · omega
      · exact absurd (hno ▸ hcan) Bool.false_ne_true
      · exact absurd hfits hno
      · exact ⟨hlen k hk, hk'.1, fun hsym => hk'.2.resolve_left fun hne =>
          hne hsym, (hfull k hk).1, (hfull k hk).2⟩
    have hseveral : compositeLe m keys n a b = (sortCmp keys a b).isLE := by
      rw [compositeLe]
      split
      · rename_i hfits
        rw [Bool.eq_iff_iff, decide_eq_true_eq]
        exact (composite_spec hm ha hb (hword hfits) hfits.1).2.2
      · rfl
    rw [rowLe, if_pos ⟨hn, hcan⟩]
    rcases keys with _ | ⟨k, _ | ⟨k', keys⟩⟩
    · exact hseveral
    · exact absurd rfl hone
    · exact hseveral
  · rw [rowLe, if_neg hradix]

def sorted (le : ℕ → ℕ → Bool) (l : List ℕ) : List ℕ := l.insertionSort fun a b => le a b = true

def cmpLe (keys : List SortKey) (a b : ℕ) : Bool := (sortCmp keys a b).isLE

instance : Std.Total (fun a b => cmpLe keys a b = true) where
  total a b := by
    rw [cmpLe, cmpLe]
    have hswap : sortCmp keys b a = (sortCmp keys a b).swap := Std.OrientedCmp.eq_swap
    rw [hswap]
    cases sortCmp keys a b <;> simp

instance : IsTrans ℕ (fun a b => cmpLe keys a b = true) where
  trans _ _ _ := Std.TransCmp.isLE_trans

lemma rowLe_order (m : Machine γ) (keys : List SortKey) (n : ℕ) :
    (∃ rank : ℕ → ℤ, ∀ a b, rowLe m keys n a b = decide (rank a ≤ rank b)) ∨ ∀ a b,
      rowLe m keys n a b = cmpLe keys a b := by
  have hseveral : (∃ rank : ℕ → ℤ, ∀ a b, compositeLe m keys n a b = decide (rank a ≤ rank b)) ∨
      ∀ a b, compositeLe m keys n a b = cmpLe keys a b := by
    by_cases hbits : totalBits m n keys.length keys ≤ 64 ∧ keys.length ≤ 16
    · refine .inl ⟨fun r => composite m n keys.length keys r, fun a b => ?_⟩
      simp only [compositeLe, if_pos hbits, Nat.cast_le]
    · exact .inr fun a b => by rw [compositeLe, if_neg hbits]; rfl
  by_cases hradix : 64 < n ∧ canRadix m keys = true
  · simp only [rowLe, if_pos hradix]
    rcases keys with _ | ⟨k, _ | ⟨k', keys⟩⟩
    · exact hseveral
    · exact .inl ⟨singleKey m k, fun a b => rfl⟩
    · exact hseveral
  · exact .inr fun a b => by rw [rowLe, if_neg hradix]; rfl

instance : Std.Total (fun a b => rowLe m keys n a b = true) where
  total a b := by
    rcases rowLe_order m keys n with ⟨rank, hrank⟩ | hcmp
    · simp only [hrank, decide_eq_true_eq]
      exact le_total _ _
    · simp only [hcmp]
      exact Std.Total.total (r := fun a b => cmpLe keys a b = true) a b

instance : IsTrans ℕ (fun a b => rowLe m keys n a b = true) where
  trans a b c hab hbc := by
    rcases rowLe_order m keys n with ⟨rank, hrank⟩ | hcmp
    · simp only [hrank, decide_eq_true_eq] at hab hbc ⊢
      exact hab.trans hbc
    · simp only [hcmp] at hab hbc ⊢
      exact Std.TransCmp.isLE_trans hab hbc

end

section

variable {C c : Column} {a b off n : ℕ}

structure Shifted (off n : ℕ) (C c : Column) : Prop where
  type : c.type = C.type
  length : c.cells.length = n
  get : ∀ r < n, c.get r = C.get (off + r)

lemma Shifted.isNull (h : Shifted off n C c) (ha : a < n) : c.isNull a = C.isNull (off + a) := by
  rw [Column.isNull, Column.isNull, h.type, h.get a ha]

lemma sortCmp_shift {ks Ks : List SortKey} (h : List.Forall₂ (fun K k => Shifted off n K.1 k.1 ∧ k.2 = K.2) Ks ks)
    (ha : a < n) (hb : b < n) : sortCmp ks a b = sortCmp Ks (off + a) (off + b) := by
  induction h with
  | nil => rfl
  | cons hk _ ih =>
    obtain ⟨hs, hd⟩ := hk
    rw [sortCmp, sortCmp, ih, keyCmp, keyCmp, hs.isNull ha, hs.isNull hb, hs.get a ha, hs.get b hb, hd]

def cellDiffer (type : KeyType) (v w : Payload) : Bool :=
  match type with
  | .f32 | .f64 => !(cellReal v).eq (cellReal w)
  | .sym | .str => cellBytes v != cellBytes w
  | .guid => false
  | _ => cellInt v != cellInt w

lemma keyCol_differ : c.keyCol.differ a b = cellDiffer c.type (c.get a) (c.get b) := by
  cases ht : c.type <;> simp only [Column.keyCol, cellDiffer, ht] <;> rfl

def cellBoundary (packed : Bool) (type : KeyType) (v w : Payload) : Bool :=
  if packed then v ≠ w else cellDiffer type v w

lemma boundary_eq (parts : List Column) (a b : ℕ) :
    boundary parts a b = parts.any fun c =>
      cellBoundary (canPack (parts.map Column.type)) c.type (c.get a) (c.get b) := by
  rw [boundary]
  cases canPack (parts.map Column.type) with
  | true => rfl
  | false =>
    rw [if_neg Bool.false_ne_true, winKeysDiffer, List.any_map]
    congr 1
    funext c
    exact keyCol_differ

lemma boundary_shift {ps Ps : List Column} (h : List.Forall₂ (Shifted off n) Ps ps) (ha : a < n) (hb : b < n) :
    boundary ps a b = boundary Ps (off + a) (off + b) := by
  have htypes : ps.map Column.type = Ps.map Column.type := by
    induction h with
    | nil => rfl
    | cons hc _ ih => rw [map_cons, map_cons, hc.type, ih]
  rw [boundary_eq, boundary_eq, htypes]
  generalize canPack (Ps.map Column.type) = packed
  clear htypes
  induction h with
  | nil => rfl
  | cons hc _ ih => rw [any_cons, any_cons, hc.type, hc.get a ha, hc.get b hb, ih]

lemma cell_eq_of_differ (ht : t ≠ .guid) (hv : cellFits t v = true) (hw : cellFits t w = true)
    (h : cellDiffer t v w = false) : v = w := by
  have hreal : ∀ d e : Double, d.eq e = true → d = e := by
    intro d e hde
    cases d <;> cases e <;> simp_all [Double.eq]
  cases t <;> cases v <;> cases w <;> first
    | exact absurd hv Bool.false_ne_true
    | exact absurd hw Bool.false_ne_true
    | exact absurd rfl ht
    | exact congrArg Payload.real (hreal _ _ (by simpa [cellDiffer, cellReal] using h))
    | simpa [cellDiffer, cellInt, cellBytes, UInt8.toNat_inj] using h

variable {parts : List Column} {N : ℕ}

lemma get_eq_of_boundary (hc : c ∈ parts) (ht : c.type ≠ .guid) (hlen : c.cells.length = N)
    (ha : a < N) (hb : b < N) (h : boundary parts a b = false) : c.get a = c.get b := by
  rw [boundary_eq, List.any_eq_false] at h
  have hcell := Bool.eq_false_of_not_eq_true (h c hc)
  rw [cellBoundary] at hcell
  split at hcell
  · exact not_not.mp (of_decide_eq_false hcell)
  · exact cell_eq_of_differ ht (Column.fits_get (by rwa [hlen])) (Column.fits_get (by rwa [hlen])) hcell

end

section

variable {parts Parts : List Column} {orders : List SortKey} {off n N : ℕ}

def sortKeys (parts : List Column) (orders : List SortKey) : List SortKey := parts.map (·, false) ++ orders

def groups (le : ℕ → ℕ → Bool) (parts : List Column) (n : ℕ) : List (List ℕ) :=
  (sorted le (List.range n)).splitBy fun a b => !boundary parts a b

lemma mem_sorted {le : ℕ → ℕ → Bool} {l : List ℕ} : r ∈ sorted le l ↔ r ∈ l :=
  (perm_insertionSort _ l).mem_iff

lemma sorted_before (le : ℕ → ℕ → Bool) [Std.Total fun a b => le a b = true]
    [IsTrans ℕ fun a b => le a b = true] (n : ℕ) :
    (sorted le (List.range n)).Pairwise (Before le) := insertionSort_before pairwise_lt_range

lemma next_sorted {le : ℕ → ℕ → Bool} {l : List ℕ} {a b : ℕ} :
    Next (Before le) (sorted le l) a b ↔ Next (Before le) l a b := by
  simp only [Next, mem_sorted]

def Begins (le : ℕ → ℕ → Bool) (parts : List Column) (n r : ℕ) : Prop :=
  ∀ a < n, Next (Before le) (List.range n) a r → boundary parts a r = true

/-- The rows `g` stand next to each other in sort order, `ps` rows before them, with no partition boundary in front
of any but the first. -/
structure IsPartition (le : ℕ → ℕ → Bool) (parts : List Column) (n ps : ℕ) (g : List ℕ) : Prop where
  rows : ∀ r ∈ g, r < n
  run : g.IsChain fun a b => Next (Before le) (List.range n) a b ∧ boundary parts a b = false
  begins : ∀ r ∈ g.head?, Begins le parts n r ∧ ((List.range n).filter fun a => Before le a r).length = ps

lemma sortCmp_congr {r s : ℕ} (h : ∀ c ∈ parts, c.get r = c.get s) (x : ℕ) :
    sortCmp (parts.map (·, false)) x r = sortCmp (parts.map (·, false)) x s := by
  induction parts with
  | nil => rfl
  | cons c parts ih =>
    have hc := h c mem_cons_self
    rw [map_cons, sortCmp, sortCmp, ih fun c hc => h c (mem_cons_of_mem _ hc), keyCmp, keyCmp, Column.isNull,
      Column.isNull, Column.isNull, hc]

lemma keyCmp_eq_of_sortCmp {a b : ℕ} (h : sortCmp (parts.map (·, false)) a b = .eq) :
    ∀ c ∈ parts, keyCmp (c, false) a b = .eq := by
  induction parts with
  | nil => exact fun c hc => absurd hc not_mem_nil
  | cons c parts ih =>
    rw [map_cons, sortCmp, Ordering.then_eq_eq] at h
    exact forall_mem_cons.mpr ⟨h.1, ih h.2⟩

lemma get_eq_between {a y b : ℕ} (hget : ∀ c ∈ parts, c.get a = c.get b)
    (hay : cmpLe (sortKeys parts orders) a y = true)
    (hyb : cmpLe (sortKeys parts orders) y b = true) {c : Column} (hc : c ∈ parts) (ht : c.type ≠ .guid) :
      c.get a = c.get y := by
  have hle : ∀ x z, cmpLe (sortKeys parts orders) x z = true →
      (sortCmp (parts.map (·, false)) x z).isLE = true := by
    intro x z hxz
    rw [cmpLe, sortKeys, sortCmp_append] at hxz
    exact Ordering.isLE_left_of_isLE_then hxz
  have hya := hle y b hyb
  have hswap : sortCmp (parts.map (·, false)) y a = (sortCmp (parts.map (·, false)) a y).swap :=
    Std.OrientedCmp.eq_swap
  rw [← sortCmp_congr hget y, hswap] at hya
  exact get_eq_of_keyCmp ht (keyCmp_eq_of_sortCmp (Ordering.eq_eq_of_isLE_of_isLE_swap (hle a y hay) hya) c hc)

lemma filter_range (hoff : off + n ≤ N) :
    (List.range N).filter (fun r => off ≤ r && r < off + n) = List.range' off n := by
  obtain ⟨rest, rfl⟩ := Nat.exists_eq_add_of_le hoff
  have hsplit : range (off + n + rest) = range off ++ (range' off n ++ range' (off + n) rest) := by
    rw [range_eq_range', range_eq_range', Nat.add_assoc, ← range'_append_1, ← range'_append_1, Nat.zero_add]
  have hleft : (range off).filter (fun r => off ≤ r && r < off + n) = [] := by
    refine filter_eq_nil_iff.mpr fun r hr => ?_
    have := mem_range.mp hr
    simp [this]
  have hright : (range' (off + n) rest).filter (fun r => off ≤ r && r < off + n) = [] := by
    refine filter_eq_nil_iff.mpr fun r hr => ?_
    have := mem_range'_1.mp hr
    simp [this.1]
  have hmid : (range' off n).filter (fun r => off ≤ r && r < off + n) = range' off n := by
    refine filter_eq_self.mpr fun r hr => ?_
    have := mem_range'_1.mp hr
    simp [this]
  rw [hsplit, filter_append, filter_append, hleft, hmid, hright, nil_append, append_nil]

variable {Le le : ℕ → ℕ → Bool}

section

variable [Std.Total fun a b => Le a b = true] [IsTrans ℕ fun a b => Le a b = true]

lemma sorted_segment [Std.Total fun a b => le a b = true] [IsTrans ℕ fun a b => le a b = true]
    (horder : ∀ a < n, ∀ b < n, (Before le a b ↔ Before Le (off + a) (off + b))) (hoff : off + n ≤ N) :
    (sorted le (range n)).map (off + ·) = (sorted Le (range N)).filter fun r => off ≤ r && r < off + n := by
  have hasymm : ∀ a b, Before Le a b → ¬Before Le b a := fun _ _ hab => hab.asymm
  refine List.Perm.eq_of_pairwise (fun a b _ _ hab hba => absurd hba (hasymm a b hab)) ?_
    ((sorted_before Le N).filter _) ?_
  · rw [pairwise_map]
    exact (sorted_before le n).imp_of_mem fun ha hb hab =>
      (horder _ (mem_range.mp (mem_sorted.mp ha)) _ (mem_range.mp (mem_sorted.mp hb))).mp hab
  · have hleft : ((sorted le (range n)).map (off + ·)).Perm (range' off n) := by
      rw [range'_eq_map_range]
      exact (perm_insertionSort _ _).map _
    rw [← filter_range hoff] at hleft
    exact hleft.trans ((perm_insertionSort _ _).filter _).symm

lemma groups_segment [Std.Total fun a b => le a b = true] [IsTrans ℕ fun a b => le a b = true]
    (horder : ∀ a < n, ∀ b < n, (Before le a b ↔ Before Le (off + a) (off + b)))
    (hparts : List.Forall₂ (Shifted off n) Parts parts) (hoff : off + n ≤ N)
    (hjoined : ∀ a < N, ∀ b < N, Next (Before Le) (range N) a b → boundary Parts a b = false →
      (a ∈ range' off n ↔ b ∈ range' off n))
    (hunbroken : ∀ a ∈ range' off n, ∀ b ∈ range' off n, Next (Before Le) (range' off n) a b →
      ¬Next (Before Le) (range N) a b → boundary Parts a b = true) :
    (groups le parts n).map (List.map (off + ·)) =
    (groups Le Parts N).filter (·.any fun r => off ≤ r && r < off + n) := by
  have hlt : ∀ r ∈ sorted Le (range N), r < N := fun r hr => mem_range.mp (mem_sorted.mp hr)
  have hin : ∀ {r}, (off ≤ r && r < off + n) = true ↔ r ∈ range' off n := by
    intro r
    rw [Bool.and_eq_true, decide_eq_true_eq, decide_eq_true_eq, mem_range'_1]
  have hmem : ∀ {r}, r ∈ (sorted Le (range N)).filter (fun r => off ≤ r && r < off + n) ↔ r ∈ range' off n := by
    intro r
    rw [← filter_range hoff, mem_filter, mem_filter, mem_sorted]
  rw [groups, groups, ← splitBy_filter (fun _ _ => Before.asymm) (sorted_before Le N),
    ← sorted_segment horder hoff, splitBy_map]
  · intro a ha b hb
    rw [boundary_shift hparts (mem_range.mp (mem_sorted.mp ha)) (mem_range.mp (mem_sorted.mp hb))]
  · intro a ha b hb hab hR
    rw [Bool.eq_iff_iff, hin, hin]
    exact hjoined a (hlt a ha) b (hlt b hb) (next_sorted.mp hab) (Bool.not_eq_true' _ ▸ hR)
  · intro a ha b hb hab hno
    rw [Bool.not_eq_false']
    refine hunbroken a (hmem.mp ha) b (hmem.mp hb) ⟨hab.1, fun w hw => hab.2 w (hmem.mpr hw)⟩ fun hnext =>
      hno (next_sorted.mpr hnext)

lemma groups_partition {pre post : List (List ℕ)} {g : List ℕ} (hG : groups Le Parts N = pre ++ g :: post) :
    IsPartition Le Parts N pre.flatten.length g := by
  have hflat : (groups Le Parts N).flatten = sorted Le (range N) := flatten_splitBy _ _
  have hlt : ∀ r ∈ sorted Le (range N), r < N := fun r hr => mem_range.mp (mem_sorted.mp hr)
  have hsorted := sorted_before Le N
  have hg : g ∈ groups Le Parts N := hG ▸ mem_append_right _ mem_cons_self
  refine ⟨fun r hr => hlt r (hflat ▸ mem_flatten_of_mem hg hr), ?_, fun r hr => ⟨fun a ha hnext => ?_, ?_⟩⟩
  · refine (isChain_run (fun _ _ => Before.asymm) hsorted hg).imp fun a b hab => ⟨next_sorted.mp hab.1, ?_⟩
    exact Bool.not_eq_true' _ ▸ hab.2
  · have hR := splitBy_begins (fun _ _ => Before.asymm) hsorted hG hr a (mem_sorted.mpr (mem_range.mpr ha))
      (next_sorted.mpr hnext)
    rwa [Bool.not_eq_false'] at hR
  · have hS : sorted Le (range N) = pre.flatten ++ r :: (g.tail ++ post.flatten) := by
      rw [← hflat, hG, flatten_append, flatten_cons, ← cons_append, cons_head?_tail hr]
    have hbefore := filter_before (fun _ _ => Before.asymm) (hS ▸ hsorted)
    rw [← hS] at hbefore
    rw [← hbefore]
    exact ((perm_insertionSort _ _).filter _).length_eq.symm

lemma groups_length_le {count : ℕ}
    (hcount : ∀ l : List ℕ, l.Nodup → (∀ r ∈ l, r < N ∧ Begins Le Parts N r) → l.length ≤ count) :
    (groups Le Parts N).length ≤ count := by
  have hnodup : (sorted Le (range N)).Nodup := (perm_insertionSort _ _).nodup_iff.mpr nodup_range
  obtain ⟨l, hlen, hl, hbegins⟩ := splitBy_heads (R := fun a b => !boundary Parts a b) (fun _ _ => Before.asymm)
    (sorted_before Le N) hnodup
  rw [groups, ← hlen]
  refine hcount l hl fun r hr => ⟨mem_range.mp (mem_sorted.mp (hbegins r hr).1), fun a ha hnext => ?_⟩
  have hR := (hbegins r hr).2 a (mem_sorted.mpr (mem_range.mpr ha)) (next_sorted.mpr hnext)
  rwa [Bool.not_eq_false'] at hR

end

end

section

variable {m : Machine γ} {c : Column} {n a b : ℕ}

lemma rowLe_of_get (h : c.get a = c.get b) : rowLe m [(c, false)] n a b = true := by
  rw [rowLe]
  split
  · rw [radixLe, decide_eq_true_eq, singleKey, singleKey, singleCode, singleCode, Column.isNull, Column.isNull, h]
  · have hcmp : sortCmp ([c].map (·, false)) a a = sortCmp ([c].map (·, false)) a b :=
      sortCmp_congr (by simpa using h) a
    have hself : sortCmp ([c].map (·, false)) a a = .eq := Std.ReflCmp.compare_self
    rw [hself] at hcmp
    rw [← map_singleton (f := (·, false)), ← hcmp]
    rfl

end

section

variable [LinearOrder γ] {m : Machine γ} {idx : List ℕ} {orderVecs : List (Option KeyCol)} {fr : Frame}
    {funcs : List (Func γ)}
  {g : List ℕ} {gs : List (List ℕ)} {N : ℕ}

def groupPart (g : List ℕ) : Part := ⟨fun i => g.getD i 0, 0, g.length⟩

lemma groupPart_len : (groupPart g).len = g.length := rfl

lemma groupPart_rowAt (k : ℕ) : (groupPart g).rowAt k = g.getD k 0 := congrArg (g.getD · 0) (Nat.zero_add k)

lemma getD_map_add {off k : ℕ} (hk : k < g.length) : (g.map (off + ·)).getD k 0 = off + g.getD k 0 := by
  rw [getD_eq_getElem _ _ hk, getD_eq_getElem _ _ (by rwa [length_map]), getElem_map]

lemma getD_mem {k : ℕ} (hk : k < g.length) : g.getD k 0 ∈ g := by
  rw [getD_eq_getElem _ _ hk]
  exact getElem_mem hk

structure Done (orderVecs : List (Option KeyCol)) (fr : Frame) (gs : List (List ℕ)) (f : Func γ)
    (out out' : ℕ → Cell γ) : Prop where
  cells : ∀ g ∈ gs, ∀ k < g.length,
    out' (g.getD k 0) = ((groupPart g).means (Part.alike orderVecs) fr k f).getD (out (g.getD k 0))
  others : ∀ r ∉ gs.flatten, out' r = out r

omit [LinearOrder γ] in
lemma fits_mono {kind : Kind} {p q : Part} {c c' : Option Column} {n : ℕ} (hps : p.ps ≤ q.ps)
    (hp : p.pe = p.ps + n) (hq : q.pe = q.ps + n)
    (h : q.Fits fr (kind.func m c)) : p.Fits fr (kind.func m c') := by
  have hlen : p.len = q.len := by rw [Part.len, Part.len, hp, hq, Nat.add_sub_cancel_left, Nat.add_sub_cancel_left]
  cases kind with
  | ntile param =>
    have hlt : (q.len - 1 : ℤ) * param < 2 ^ 63 := h
    rwa [← hlen] at hlt
  | lead param =>
    have hlt : (q.pe - 1 + param : ℤ) < 2 ^ 63 := h
    have hgoal : (p.pe - 1 + param : ℤ) < 2 ^ 63 := by omega
    exact hgoal
  | nthValue param =>
    have hlt : (q.ps + Part.lo fr (q.len - 1) : ℤ) + param < 2 ^ 63 := h
    have hgoal : (p.ps + Part.lo fr (p.len - 1) : ℤ) + param < 2 ^ 63 := by
      rw [hlen]
      omega
    exact hgoal
  | sum =>
    rw [Kind.func]
    split <;> trivial
  | count => exact h
  | lag param => exact h
  | _ => trivial

def Fitting (fr : Frame) (gs : List (List ℕ)) (f : Func γ) : Prop :=
  ∀ pre g post, gs = pre ++ g :: post → ∀ p :
    Part, p.ps = pre.flatten.length → p.pe = p.ps + g.length → p.Fits fr f

omit [LinearOrder γ] in
lemma agrees_of_rowAt {p q : Part} (h : ∀ k < p.len, p.rowAt k = q.rowAt k) (f : Func γ) :
    Part.Agrees p q f f := by
  have hvec : ∀ {β : Type} (v : Option (Vec β)), Option.Rel (Part.VecsAgree p q) v v := by
    intro β v
    cases v with
    | none => exact .none
    | some v => exact .some fun k hk => by rw [h k hk]; exact ⟨rfl, rfl⟩
  cases f <;> constructor <;> exact hvec _

lemma getD_append_mid {k : ℕ} (hk : k < g.length) : (pre ++ (g ++ rest)).getD (pre.length + k) 0 = g.getD k 0 := by
  rw [getD_append_right _ _ _ _ (Nat.le_add_right _ _), Nat.add_sub_cancel_left, getD_append _ _ _ _ hk]

variable (orderVecs) in
lemma group_done (hidx : idx = pre ++ (g ++ rest)) (hnodup : idx.Nodup) (hN : idx.length ≤ N) (hlt : N < 2 ^ 63)
    (hfr : fr.supported = true) (hne : g ≠ []) {f : Func γ}
    (hf : ∀ p : Part, p.ps = pre.length → p.pe = p.ps + g.length → p.Fits fr f) (out : ℕ → Cell γ) :
    ∃ out', (Part.mk (fun i => idx.getD i 0) pre.length (pre.length + g.length)).compute orderVecs fr f out =
      some out' ∧
      Done orderVecs fr [g] f out out' := by
  have hlen : idx.length = pre.length + (g.length + rest.length) := by rw [hidx, length_append, length_append]
  set p : Part := ⟨fun i => idx.getD i 0, pre.length, pre.length + g.length⟩ with hp
  have hplen : p.len = g.length := Nat.add_sub_cancel_left pre.length g.length
  have hrow : ∀ k < g.length, p.rowAt k = g.getD k 0 := by
    intro k hk
    rw [Part.rowAt, hp, hidx]
    exact getD_append_mid hk
  have hsound : p.Sound := by
    refine ⟨fun i hi j hj hij => ?_, ?_⟩
    · have hilt : i < idx.length :=
        hi.2.trans_le (by rw [hlen]; exact Nat.add_le_add_left (Nat.le_add_right _ _) _)
      have hjlt : j < idx.length := hj.2.trans_le
        (by rw [hlen]; exact Nat.add_le_add_left (Nat.le_add_right _ _) _)
      have hij' : idx.getD i 0 = idx.getD j 0 := hij
      rw [getD_eq_getElem _ _ hilt, getD_eq_getElem _ _ hjlt] at hij'
      exact (hnodup.getElem_inj_iff).mp hij'
    · have hpe : p.pe = pre.length + g.length := rfl
      omega
  have hpos : 0 < p.len := hplen ▸ length_pos_iff.mpr hne
  obtain ⟨out', hout, hw⟩ := Part.compute_wrote hsound hpos hfr (hf p rfl rfl) out
  refine ⟨out', hout, fun g' hg' k hk => ?_, fun r hr => hw.others r fun k _ hk hkr => hr ?_⟩
  · obtain rfl := mem_singleton.mp hg'
    have hcell := hw.cells k (Nat.zero_le k) (hplen ▸ hk)
    have hrows : ∀ k < p.len, p.rowAt k = (groupPart g').rowAt k := by
      intro j hj
      rw [hrow j (hplen ▸ hj), groupPart_rowAt]
    have hmeans : p.means (Part.alike orderVecs) fr k f = (groupPart g').means (Part.alike orderVecs) fr k f :=
      Part.means_congr hplen (fun i hi => by rw [hrows i (by omega), hrows (i + 1) hi])
        (agrees_of_rowAt hrows f) (hplen ▸ hk)
    rw [hrow k hk, hmeans] at hcell
    exact hcell
  · rw [hrow k (hplen ▸ hk)] at hkr
    rw [flatten_singleton, ← hkr]
    exact getD_mem (hplen ▸ hk)

lemma Done.append {done : List (List ℕ)} {f : Func γ} {out out' : ℕ → Cell γ}
    (hnodup : (done ++ [g]).flatten.Nodup)
    (h : Done orderVecs fr done f (fun _ => .null) out) (hg : Done orderVecs fr [g] f out out') :
    Done orderVecs fr (done ++ [g]) f (fun _ => .null) out' := by
  rw [flatten_append, flatten_singleton] at hnodup
  have hdisj := disjoint_of_nodup_append hnodup
  refine ⟨fun g' hg' k hk => ?_, fun r hr => ?_⟩
  · have hmem : g'.getD k 0 ∈ g' := getD_mem hk
    rcases mem_append.mp hg' with hdone | hlast
    · have hold : g'.getD k 0 ∈ done.flatten := mem_flatten.mpr ⟨g', hdone, hmem⟩
      rw [hg.others _ fun hin => hdisj hold (by rwa [flatten_singleton] at hin)]
      exact h.cells g' hdone k hk
    · obtain rfl := mem_singleton.mp hlast
      rw [hg.cells g' (mem_singleton_self _) k hk, h.others _ fun hold => hdisj hold hmem]
  · rw [flatten_append, mem_append, not_or] at hr
    rw [hg.others r hr.2, h.others r hr.1]

lemma runParts_spec {done rest : List (List ℕ)} (hidx : idx = (done ++ gs ++ rest).flatten) (hnodup : idx.Nodup)
    (hN : idx.length ≤ N) (hlt : N < 2 ^ 63) (hfr : fr.supported = true) (hne : ∀ g ∈ gs, g ≠ [])
    (hf : ∀ f ∈ funcs, Fitting fr (done ++ gs) f) {outs : List (ℕ → Cell γ)}
    (h : List.Forall₂ (fun f out => Done orderVecs fr done f (fun _ => .null) out) funcs outs) :
    ∃ outs', runParts idx orderVecs fr funcs done.flatten.length gs outs = .ok outs' ∧
      List.Forall₂ (fun f out => Done orderVecs fr (done ++ gs) f (fun _ => .null) out) funcs outs' := by
  induction gs generalizing done outs with
  | nil => exact ⟨outs, rfl, by rwa [append_nil]⟩
  | cons g gs ih =>
    have hsplit : idx = done.flatten ++ (g ++ (gs ++ rest).flatten) := by
      rw [hidx, append_assoc, flatten_append, cons_append, flatten_cons]
    have hprefix : (done ++ [g]).flatten.Nodup := by
      rw [hsplit, ← append_assoc] at hnodup
      rw [flatten_append, flatten_singleton]
      exact hnodup.of_append_left
    obtain ⟨hg, hgs⟩ := forall_mem_cons.mp hne
    obtain ⟨outs₁, houts₁, hdone₁⟩ := mapM_zip_rel h (f := fun fo =>
      (Part.mk (fun i => idx.getD i 0) done.flatten.length (done.flatten.length + g.length)).compute
        orderVecs fr fo.1 fo.2)
      (Q := fun f out => Done orderVecs fr (done ++ [g]) f (fun _ => .null) out) fun f hmem out hout => by
        obtain ⟨out', hout', hstep⟩ :=
          group_done orderVecs hsplit hnodup hN hlt hfr hg (hf f hmem done g gs rfl) out
        exact ⟨out', hout', hout.append hprefix hstep⟩
    have hpos : ¬done.flatten.length + g.length ≤ done.flatten.length := by
      have := length_pos_iff.mpr hg
      omega
    have hlen : (done ++ [g]).flatten.length = done.flatten.length + g.length := by
      rw [flatten_append, flatten_singleton, length_append]
    obtain ⟨outs', houts', hdone'⟩ := @ih (done ++ [g]) (by rw [hidx, ← append_cons]) hgs
      (fun f hmem => by rw [← append_cons]; exact hf f hmem) outs₁ hdone₁
    refine ⟨outs', ?_, by rwa [append_assoc, singleton_append] at hdone'⟩
    rw [runParts, winComputePartition, if_neg hpos, houts₁, elim_some, ← hlen]
    exact houts'

variable {n : ℕ} {parts : List Column} {orders : List SortKey}

lemma sorted_nodup (le : ℕ → ℕ → Bool) (n : ℕ) : (sorted le (List.range n)).Nodup :=
  (perm_insertionSort _ _).nodup_iff.mpr nodup_range

omit [LinearOrder γ] in
lemma dispatched_eq (h : m.pool = true → gs.length ≤ 65536) : dispatched m gs = gs := by
  rw [dispatched]
  split
  · rename_i hpool
    exact take_of_length_le (h (Bool.and_eq_true_iff.mp hpool).1)
  · rfl

lemma compute_spec (hn : n < 2 ^ 63) (hfr : fr.supported = true)
    (hf : ∀ f ∈ funcs, Fitting fr (groups (rowLe m (sortKeys parts orders) n) parts n) f)
    (hcap : m.pool = true → (groups (rowLe m (sortKeys parts orders) n) parts n).length ≤ 65536) :
    ∃ outs, compute m fr n parts orders funcs = .ok outs ∧
      List.Forall₂ (fun f out => Done (orders.map fun k => some k.1.keyCol) fr
        (groups (rowLe m (sortKeys parts orders) n) parts n) f
        (fun _ => .null) out) funcs outs := by
  have hnodup := sorted_nodup (rowLe m (sortKeys parts orders) n) n
  have hlen : (sorted (rowLe m (sortKeys parts orders) n) (range n)).length ≤ n := by
    rw [sorted, length_insertionSort, length_range]
  have hidx : sorted (rowLe m (sortKeys parts orders) n) (range n) =
      ([] ++ groups (rowLe m (sortKeys parts orders) n) parts n ++ []).flatten := by
    rw [nil_append, append_nil, groups, flatten_splitBy]
  have hstart : List.Forall₂ (fun f out =>
    Done (orders.map fun k => some k.1.keyCol) fr [] f (fun _ => .null) out) funcs
      (funcs.map fun _ _ => .null) := by
    rw [forall₂_map_right_iff, forall₂_same]
    exact fun f _ => ⟨fun g hg => absurd hg not_mem_nil, fun _ _ => rfl⟩
  obtain ⟨outs, houts, hdone⟩ := runParts_spec hidx hnodup hlen hn hfr
    (fun g hg => ne_nil_of_mem_splitBy hg) hf hstart
  refine ⟨outs, ?_, hdone⟩
  rw [← houts, ← dispatched_eq hcap]
  rfl

lemma exists_place (le : ℕ → ℕ → Bool) (parts : List Column) (hr : r < n) :
    ∃ g ∈ groups le parts n, ∃ k < g.length, g.getD k 0 = r := by
  have hmem : r ∈ (groups le parts n).flatten := by
    rw [groups, flatten_splitBy, mem_sorted]
    exact mem_range.mpr hr
  obtain ⟨g, hg, hrg⟩ := mem_flatten.mp hmem
  obtain ⟨k, hk, hget⟩ := getElem_of_mem hrg
  exact ⟨g, hg, k, hk, by rw [getD_eq_getElem _ _ hk, hget]⟩

lemma lt_of_mem_groups {le : ℕ → ℕ → Bool} (hg : g ∈ groups le parts n) (hr : r ∈ g) : r < n := by
  have hmem : r ∈ (groups le parts n).flatten := mem_flatten.mpr ⟨g, hg, hr⟩
  rw [groups, flatten_splitBy, mem_sorted] at hmem
  exact mem_range.mp hmem

variable {off : ℕ} {Parts : List Column} {Orders : List SortKey} {Le le : ℕ → ℕ → Bool} {C c : Option Column}

lemma alike_shift (h : List.Forall₂ (fun K k => Shifted off n K.1 k.1 ∧ k.2 = K.2) Orders orders) {a b : ℕ}
    (ha : a < n) (hb : b < n) :
    Part.alike (orders.map fun k => some k.1.keyCol) a b = Part.alike (Orders.map fun k => some k.1.keyCol)
    (off + a) (off + b) := by
  have hdiffer : winKeysDiffer (orders.map fun k => some k.1.keyCol) a b =
      winKeysDiffer (Orders.map fun k => some k.1.keyCol) (off + a) (off + b) := by
    rw [winKeysDiffer, winKeysDiffer]
    induction h with
    | nil => rfl
    | cons hk _ ih =>
      rw [map_cons, map_cons, any_cons, any_cons, ih, elim_some, elim_some, keyCol_differ,
        keyCol_differ, hk.1.type, hk.1.get a ha, hk.1.get b hb]
  rw [Part.alike, Part.alike, hdiffer]

omit [LinearOrder γ] in
lemma func_agrees (m : Machine γ) (kind : Kind) (h : Option.Rel (Shifted off n) C c) (hg : ∀ r ∈ g, r < n) :
    Part.Agrees (groupPart g) (groupPart (g.map (off + ·))) (kind.func m c) (kind.func m C) := by
  have hvec : ∀ {β : Type} (read : Column → Payload → β), (∀ a b : Column, a.type = b.type → read a = read b) →
      Option.Rel (Part.VecsAgree (groupPart g) (groupPart (g.map (off + ·)))) (c.map fun c => c.vec (read c))
        (C.map fun c => c.vec (read c)) := by
    intro β read hread
    cases h with
    | none => exact .none
    | some h =>
      refine .some fun k hk => ?_
      have hr : g.getD k 0 < n := hg _ (getD_mem hk)
      have hcell := congr (hread _ _ h.type) (h.get _ hr)
      rw [groupPart_rowAt, groupPart_rowAt, getD_map_add hk]
      exact ⟨h.isNull hr, hcell⟩
  have hint := hvec (fun c => winReadI64 m c.type) fun a b hab => by rw [hab]
  have hreal := hvec (fun c => winReadF64 m c) fun a b hab => by
    funext v
    rw [winReadF64, winReadF64, Column.isF64, Column.isF64, hab]
  have hvalue := hvec (fun c v => if c.isF64 then m.ofReal (cellReal v) else m.ofInt (winReadI64 m c.type v))
      fun a b hab => by
    funext v
    rw [Column.isF64, Column.isF64, hab]
  have htype : c.elim false Column.isF64 = C.elim false Column.isF64 := by
    cases h with
    | none => rfl
    | some h => rw [elim_some, elim_some, Column.isF64, Column.isF64, h.type]
  cases kind with
  | rowNumber => exact .rowNumber
  | rank => exact .rank
  | denseRank => exact .denseRank
  | ntile param => exact .ntile param
  | sum =>
    rw [Kind.func, Kind.func, htype]
    split
    · exact .sumReal hreal
    · exact .sum hint
  | avg => exact .avg hreal
  | min => exact .best false hvalue
  | max => exact .best true hvalue
  | count => exact .count
  | lag param => exact .lag param hvalue
  | lead param => exact .lead param hvalue
  | firstValue => exact .firstValue hvalue
  | lastValue => exact .lastValue hvalue
  | nthValue param => exact .nthValue param hvalue

lemma done_segment {f F : Func γ} {ov Ov : List (Option KeyCol)} {out Out : ℕ → Cell γ}
    (h : Done ov fr (groups le parts n) f (fun _ => .null) out)
    (H : Done Ov fr (groups Le Parts N) F (fun _ => .null) Out)
    (hgroups : (groups le parts n).map (List.map (off + ·)) =
      (groups Le Parts N).filter (·.any fun r => off ≤ r && r < off + n))
    (hagree : ∀ g : List ℕ, (∀ r ∈ g, r < n) → Part.Agrees (groupPart g) (groupPart (g.map (off + ·))) f F)
    (halike : ∀ a < n, ∀ b < n, Part.alike ov a b = Part.alike Ov (off + a) (off + b)) (hr : r < n) :
      out r = Out (off + r) := by
  obtain ⟨g, hg, k, hk, rfl⟩ := exists_place le parts hr
  have hrows : ∀ r ∈ g, r < n := fun r hr => lt_of_mem_groups hg hr
  have hG : g.map (off + ·) ∈ groups Le Parts N :=
    mem_of_mem_filter (hgroups ▸ mem_map_of_mem hg)
  have hat : ∀ j < g.length, (groupPart g).rowAt j < n ∧ (groupPart (g.map (off + ·))).rowAt j =
      off + (groupPart g).rowAt j := by
    intro j hj
    rw [groupPart_rowAt, groupPart_rowAt, getD_map_add hj]
    exact ⟨hrows _ (getD_mem hj), rfl⟩
  have hlen : (groupPart g).len = (groupPart (g.map (off + ·))).len := by
    rw [groupPart_len, groupPart_len, length_map]
  have hmeans : (groupPart g).means (Part.alike ov) fr k f = (groupPart (g.map (off + ·))).means
      (Part.alike Ov) fr k F := by
    refine Part.means_congr hlen (fun i hi => ?_) (hagree g hrows) hk
    have hi' : i + 1 < g.length := hi
    rw [(hat i (by omega)).2, (hat (i + 1) hi').2]
    exact halike _ (hat i (by omega)).1 _ (hat (i + 1) hi').1
  have hcell := H.cells _ hG k (by rwa [length_map])
  rw [h.cells g hg k hk, hmeans, ← getD_map_add hk, hcell]

end

end Rayforce.Window
