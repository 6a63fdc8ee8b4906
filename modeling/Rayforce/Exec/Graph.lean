import Rayforce.Exec.Elementwise

namespace Rayforce.Exec

variable {i fuel fuel' : ℕ} {α : Type}

inductive Node
  | const (a : Atom)
  | input (k : ℕ)
  | unary (op : UnOp) (out : ElemType) (a : ℕ)
  | binary (op : BinOp) (l r : ℕ)
  | renamed (a : ℕ)
  deriving DecidableEq

def Node.children : Node → List ℕ
  | .const _ | .input _ => []
  | .unary _ _ a | .renamed a => [a]
  | .binary _ l r => [l, r]

structure Graph where
  nodes : List Node
  ordered : ∀ (i : ℕ) (n : Node), nodes[i]? = some n → ∀ c ∈ n.children, c < i

variable (m : Libm) (env : ℕ → Value)

def evalNode (rec : ℕ → Except Failure Value) : Option Node → Except Failure Value
  | none => .error .missing
  | some (.const a) => .ok (.atom a)
  | some (.input k) => .ok (env k)
  | some (.unary op out a) => do return .vec (← execElementwiseUnary m op out (← rec a))
  | some (.binary op l r) => do return .vec (← execElementwiseBinary m (← rec l).view (← rec r).view op)
  | some (.renamed a) => rec a

def unroll {α : Type} (step : (ℕ → Except Failure α) → Option Node → Except Failure α) (nodes : List Node) :
    ℕ → ℕ → Except Failure α
  | 0, _ => .error .missing
  | fuel + 1, i => step (unroll step nodes fuel) nodes[i]?

def eval (g : Graph) (i : ℕ) : Except Failure Value := unroll (evalNode m env) g.nodes (i + 1) i

variable {m env}

def Local {α : Type} (step : (ℕ → Except Failure α) → Option Node → Except Failure α) : Prop :=
  ∀ (f f' : ℕ → Except Failure α) (n : Option Node), (∀ n' ∈ n, ∀ c ∈ n'.children, f c = f' c) →
    step f n = step f' n

lemma evalNode_local : Local (evalNode m env) := by
  intro f f' n h
  rcases n with _ | n
  · rfl
  · cases n <;> simp_all [evalNode, Node.children]

lemma unroll_fuel {step : (ℕ → Except Failure α) → Option Node → Except Failure α} (hlocal : Local step)
    (g : Graph) (h : i < fuel) (h' : i < fuel') : unroll step g.nodes fuel i = unroll step g.nodes fuel' i := by
  induction i using Nat.strong_induction_on generalizing fuel fuel' with
  | _ i ih =>
    obtain ⟨fuel, rfl⟩ := Nat.exists_eq_succ_of_ne_zero (by omega : fuel ≠ 0)
    obtain ⟨fuel', rfl⟩ := Nat.exists_eq_succ_of_ne_zero (by omega : fuel' ≠ 0)
    simp only [unroll]
    apply hlocal
    intro n hn c hc
    have hlt := g.ordered i n hn c hc
    exact ih c hlt (by omega) (by omega)

lemma unroll_eq {step : (ℕ → Except Failure α) → Option Node → Except Failure α} (hlocal : Local step)
    (g : Graph) (i : ℕ) : unroll step g.nodes (i + 1) i =
      step (fun c => unroll step g.nodes (c + 1) c) g.nodes[i]? := by
  apply hlocal
  intro n hn c hc
  have hlt := g.ordered i n hn c hc
  exact unroll_fuel hlocal g hlt (Nat.lt_succ_self c)

lemma eval_eq (g : Graph) (i : ℕ) : eval m env g i = evalNode m env (eval m env g) g.nodes[i]? :=
  unroll_eq evalNode_local g i

end Rayforce.Exec
