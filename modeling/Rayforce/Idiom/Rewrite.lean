import Rayforce.Idiom.Rows
import Rayforce.Library.Worklist

/-! The idiom pass over an operator graph, and the executor. -/

namespace Rayforce.Idiom

open ElemType

inductive UnaryOp
  | neg | abs | not | sqrt | log | exp | ceil | floor
  | sin | asin | cos | acos | tan | atan | reciprocal | signum
  deriving DecidableEq, Repr

inductive BinaryOp
  | add | sub | mul | div | mod | eq | ne | lt | le | gt | ge | and | or | min2 | max2 | pow
  deriving DecidableEq, Repr

inductive Op
  | unary (f : UnaryOp)
  | binary (f : BinaryOp)
  | like | ilike | isIn
  | ifElse | substr | replace | concat
  | filter | alias | materialize | head | expand
  | group | sort | select | join | antijoin | pivot | window | windowJoin
  | plain (code : ℕ)
  deriving DecidableEq, Repr

inductive Opcode
  | scan
  | const
  | vec (op : VecOp)
  | red (op : RedOp)
  | countDistinct
  | op (o : Op)
  deriving DecidableEq, Repr

/-- A node; for a group the keys and then the aggregate inputs. -/
structure Node where
  opcode : Opcode
  arity : ℕ
  in0 : Option ℕ
  in1 : Option ℕ
  ext : List ℕ := []
  second : List ℕ := []
  nKeys : ℕ := 0
  hasExt : Bool := false
  sym : ℕ := 0
  outType : ℕ
  pushed : Bool := false
  dead : Bool := false
  deriving DecidableEq

/-- What `ray_table_get_col` finds. -/
inductive Column
  | flat (v : Value)
  | parted (hasNulls : Bool) (flat : Vec)
  | partedList (hasNulls : Bool) (items : List (ℕ × Payload))
  | mapCommon (flat : Vec)

structure Data where
  literal : ℕ → Option Value
  column : ℕ → Option Column
  compute : ℕ → List Value → Value

def Node.extIds (n : Node) : List ℕ := n.ext ++ n.second

def Node.inputs (n : Node) : List ℕ := n.in0.toList ++ n.in1.toList ++ n.extIds

def execScan : Option Column → Value
  | none => .err "schema" ""
  | some (.flat v) => v
  | some (.parted _ flat) => .vec flat
  | some (.partedList _ items) => .list items
  | some (.mapCommon flat) => .vec flat

section

variable (rt : Runtime) (d : Data) (sel : Option Rowsel)

def applyOp (op : Opcode) (out : ℕ) (w : Value) : Value :=
  match op with
  | .vec op => execVecOp rt op w
  | .red op => execReduction rt sel op out w
  | _ => execCountDistinct rt w

def exec (g : List Node) : ℕ → ℕ → Option Value
  | 0, _ => none
  | fuel + 1, n =>
    match g[n]? with
    | none => none
    | some nd =>
      match nd.opcode with
      | .scan => some (execScan (d.column n))
      | .const => some ((d.literal n).getD (.err "nyi" ""))
      | .op _ => (nd.inputs.mapM (exec g fuel)).map (d.compute n)
      | op => match nd.in0 with
        | none => some (.err "nyi" "")
        | some c => (exec g fuel c).map (applyOp rt sel op nd.outType)

def Computes (g : List Node) (n : ℕ) (v : Value) : Prop := ∃ fuel, exec rt d sel g fuel n = some v

end

inductive Row
  | countDistinct | countAsc | countDesc | countReverse | firstAsc | lastAsc
  deriving DecidableEq, Repr

namespace Row

def rootOp : Row → RedOp
  | firstAsc => .first
  | lastAsc => .last
  | _ => .count

def child0Op : Row → VecOp
  | countDistinct => .distinct
  | countDesc => .desc
  | countReverse => .reverse
  | _ => .asc

def guarded : Row → Bool
  | firstAsc | lastAsc => true
  | _ => false

def newOp : Row → Opcode
  | countDistinct => .countDistinct
  | firstAsc => .red .min
  | lastAsc => .red .max
  | _ => .red .count

def newOut (src : ℕ) : Row → ℕ
  | firstAsc | lastAsc => src
  | _ => i64.code

end Row

def rayIdioms : List Row := [.lastAsc, .firstAsc, .countReverse, .countDesc, .countAsc, .countDistinct]

section

variable (d : Data)

def noNullsOn (g : List Node) (src : ℕ) : Bool :=
  match (g[src]?).map Node.opcode with
  | some .const => match d.literal src with
    | some (.vec v) => !v.hasNulls
    | _ => false
  | some .scan => match d.column src with
    | some (.flat (.vec v)) => !v.hasNulls
    | some (.parted b _) => !b
    | some (.partedList b _) => !b
    | _ => false
  | _ => false

def redirectNode (old new : ℕ) (c : Node) : Node :=
  if c.dead then c
  else { c with
    in0 := if 0 < c.arity ∧ c.in0 = some old then some new else c.in0
    in1 := if 1 < c.arity ∧ c.in1 = some old then some new else c.in1 }

def redirect (old new : ℕ) (g : List Node) : List Node := g.map (redirectNode old new)

def markDead (n : ℕ) (g : List Node) : List Node := g.modify n fun c => { c with dead := true }

def pattern (g : List Node) (nd : Node) : Option (Opcode × ℕ) := do
  let c ← nd.in0
  let inner ← g[c]?
  let src ← inner.in0
  return (inner.opcode, src)

def rewriteInPlace (g : List Node) (n : ℕ) : Option (List Node × ℕ) := do
  let nd ← g[n]?
  if nd.dead then none
  else
    let (inner, src) ← pattern g nd
    let source ← g[src]?
    let row ← rayIdioms.find? fun row =>
      nd.opcode = .red row.rootOp ∧ inner = .vec row.child0Op ∧ (row.guarded → noNullsOn d g src)
    let repl : Node :=
      { opcode := row.newOp, arity := 1, in0 := some src, in1 := none, outType := row.newOut source.outType }
    return (markDead n (redirect n g.length (g ++ [repl])), g.length)

def arityInputs (nd : Node) : List ℕ :=
  (if 0 < nd.arity then nd.in0.toList else []) ++ if 1 < nd.arity then nd.in1.toList else []

def walkGraph (g : List Node) : Worklist.Graph ℕ where
  enters n := (g[n]?).isSome
  refs n := match g[n]? with
    | none => []
    | some nd => if nd.dead then [] else (arityInputs nd).map (·, false)

def walk (g : List Node) (root : ℕ) : List ℕ :=
  (Worklist.Search.search (walkGraph g) (2 * g.length) (List.range g.length) root).seen

structure PassState where
  nodes : List Node
  root : ℕ
  log : List (ℕ × ℕ)

def rewriteAt (s : PassState) (nid : ℕ) : PassState :=
  match rewriteInPlace d s.nodes nid with
  | none => s
  | some (g, r) => ⟨g, if nid = s.root then r else s.root, (nid, r) :: s.log⟩

/-- The inner `none`: `graph_alloc_node` has moved the nodes, and the pointers in use are to where they were. -/
def tryRewrite (cap : ℕ) (g : List Node) (n : ℕ) : Option (Option (List Node × ℕ)) :=
  (rewriteInPlace d g n).map fun r => if g.length < cap then some r else none

def rewriteOne (cap : ℕ) (s : PassState) (nid : ℕ) : Option PassState :=
  match tryRewrite d cap s.nodes nid with
  | none => some s
  | some none => none
  | some (some (g, r)) => some ⟨g, if nid = s.root then r else s.root, (nid, r) :: s.log⟩

def rayIdiomPass (cap : ℕ) (g : List Node) (root : ℕ) : Option PassState :=
  if g.length = 0 ∨ (2 ^ 32 - 1) / 4 < g.length then some ⟨g, root, []⟩
  else (walk g root).foldlM (rewriteOne d cap) ⟨g, root, []⟩

end

end Rayforce.Idiom
