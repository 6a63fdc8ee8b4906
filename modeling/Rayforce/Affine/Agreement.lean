import Rayforce.Affine.Exact

namespace Rayforce.Affine

open Rayforce.Exec

inductive Val (X : Type)
  | num (a : Atom)
  | fault (f : Fault)
  | other (x : X)
  deriving DecidableEq

def Val.ofExcept {X : Type} : Except Err Atom → Val X
  | .ok a => .num a
  | .error e => .fault (.error e)

def Val.ofFault {X : Type} : Except Fault Atom → Val X
  | .ok a => .num a
  | .error f => .fault f

/-- The vectors in memory, what `+` is bound to (`none` for the builtin), and both builtins on no vectors. -/
structure Builtins (Ω X F : Type) where
  kernels : Kernels F
  vecAt : Ω → X → Option (VecObj F)
  plus : Ω → Option (Val X → Val X → Ω → Ω × Val X)
  addOther : X → Atom → Bool → Ω → Ω × Val X
  sumOther : X → Ω → Ω × Val X

abbrev Literal := {a : Atom // a.ty.numeric = true}

inductive Program (Ω X : Type)
  | done (v : Val X)
  | act (f : Ω → Ω × Val X) (k : Val X → Program Ω X)
  | call (p : Program Ω X) (k : Val X → Program Ω X)
  | sum (c : Literal) (left : Bool) (operand : Program Ω X) (k : Val X → Program Ω X)

structure State (Ω F : Type) where
  world : Ω
  operands : List (Option (VecObj F))

def evalMaxDepth : ℕ := 512

def depthExceeded {X : Type} : Val X := .fault (.error ⟨"limit", "eval depth exceeded"⟩)

def sumAtom : Atom → Atom
  | .u8 v _ => .i64 v.toUInt64.toInt64
  | .i16 v => .i64 v.toInt64
  | a => a

namespace Builtins

variable {Ω X F : Type} (B : Builtins Ω X F)

def vectorOf (w : Ω) : Val X → Option (VecObj F)
  | .other x => B.vecAt w x
  | _ => none

def sumValue (w : Ω) : Val X → Ω × Val X
  | .num a => (w, .num (sumAtom a))
  | .fault f => (w, .fault f)
  | .other x =>
    match B.vecAt w x with
    | some o => (w, .ofExcept (o.sum B.kernels))
    | none => B.sumOther x w

def addBuiltin (w : Ω) (c : Atom) (left : Bool) : Val X → Ω × Val X
  | .num a => B.sumValue w (.ofExcept (addElem c left a))
  | .fault f => (w, .fault f)
  | .other x =>
    match B.vecAt w x with
    | some o => (w, .ofFault (o.addThenSum B.kernels c left))
    | none =>
      let r := B.addOther x c left w
      B.sumValue r.1 r.2

def addThenSum (plus : Option (Val X → Val X → Ω → Ω × Val X)) (w : Ω) (c : Atom) (left : Bool)
    (v : Val X) : Ω × Val X :=
  match plus, v with
  | _, .fault f => (w, .fault f)
  | none, v => B.addBuiltin w c left v
  | some f, v =>
    let r := if left then f (.num c) v w else f v (.num c) w
    B.sumValue r.1 r.2

def saw (s : State Ω F) (v : Val X) : State Ω F := { s with operands := B.vectorOf s.world v :: s.operands }

def afterOperand (plus : Option (Val X → Val X → Ω → Ω × Val X)) (c : Atom) (left : Bool) (r : State Ω F × Val X) :
    State Ω F × Val X :=
  let s := B.saw r.1 r.2
  let t := B.addThenSum plus s.world c left r.2
  ({ s with world := t.1 }, t.2)

def evalPlain : ℕ → Program Ω X → State Ω F → State Ω F × Val X
  | _, .done v, s => (s, v)
  | d, .act f k, s =>
    let r := f s.world
    evalPlain d (k r.2) { s with world := r.1 }
  | d, .call p k, s =>
    let r := if d < evalMaxDepth then evalPlain (d + 1) p s else (s, depthExceeded)
    evalPlain d (k r.2) r.1
  | d, .sum c left p k, s =>
    let r :=
      if d + 2 ≤ evalMaxDepth then B.afterOperand (B.plus s.world) c.1 left (evalPlain (d + 2) p s)
      else (s, depthExceeded)
    evalPlain d (k r.2) r.1

abbrev Cached (Ω F : Type) := State Ω F × List (AffineSumCacheEntry F)

def afterTry (d : ℕ) (again : Cached Ω F → Cached Ω F × Val X) (c : Atom) (left : Bool) (r : Cached Ω F × Val X) :
    Cached Ω F × Val X :=
  let s := B.saw r.1.1 r.2
  match (B.vectorOf s.world r.2).filter fun o => !o.hasNulls with
  | some o =>
    let t := sumAffine B.kernels r.1.2 o c
    ((s, t.1), .ofExcept t.2)
  | none =>
    if d + 2 ≤ evalMaxDepth then
      let q := again (s, r.1.2)
      let t := B.afterOperand (B.plus s.world) c left (q.1.1, q.2)
      ((t.1, q.1.2), t.2)
    else ((s, r.1.2), depthExceeded)

def evalFast : ℕ → Program Ω X → Cached Ω F → Cached Ω F × Val X
  | _, .done v, s => (s, v)
  | d, .act f k, s =>
    let r := f s.1.world
    evalFast d (k r.2) ({ s.1 with world := r.1 }, s.2)
  | d, .call p k, s =>
    let r := if d < evalMaxDepth then evalFast (d + 1) p s else (s, depthExceeded)
    evalFast d (k r.2) r.1
  | d, .sum c left p k, s =>
    let r :=
      if d < evalMaxDepth then B.afterTry d (evalFast (d + 2) p) c.1 left (evalFast (d + 1) p s)
      else (s, depthExceeded)
    evalFast d (k r.2) r.1

end Builtins

open Rayforce.Exec Rayforce.Library

section

variable {F : Type} {K : Kernels F} {cache : List (AffineSumCacheEntry F)} {o o' : VecObj F} {c : Atom}

def CacheValid (K : Kernels F) (cache : List (AffineSumCacheEntry F)) : Prop :=
  Memo.Valid (VecObj.header K) (VecObj.total K) cache

lemma total_eq (hh : o.header K = o'.header K) (hc : o.contents = o'.contents) : o.total K = o'.total K := by
  have hn : o.hasNulls = o'.hasNulls := congrArg Header.hasNulls hh
  rw [VecObj.total, VecObj.total, VecObj.sum, VecObj.sum, hc, hn]

lemma total_ok {a : Atom} (h : o.sum K = .ok a) : o.total K = some (totalOf a) := by
  rw [VecObj.total, h]
  rfl

lemma sum_of_total {t : Total} (h : o.total K = some t) : ∃ a, o.sum K = .ok a ∧ totalOf a = t := by
  rw [VecObj.total] at h
  cases hs : o.sum K with
  | error e =>
    rw [hs] at h
    cases h
  | ok a =>
    rw [hs] at h
    exact ⟨a, rfl, Option.some.inj h⟩

lemma sumAffine_spec (hv : CacheValid K cache)
    (hcur : ∀ e ∈ cache, e.key = o.header K → e.object.contents = o.contents) :
    (sumAffine K cache o c).2 = ((o.sum K).map fun sum => affineResult (totalOf sum) c (o.len K)) ∧
      CacheValid K (sumAffine K cache o c).1 := by
  rw [sumAffine]
  cases hl : Memo.lookup cache (o.header K) with
  | some t =>
    have ht : o.total K = some t := hv.hit (fun e he hk => total_eq ((hv e he).1.trans hk) (hcur e he hk)) hl
    obtain ⟨a, ha, rfl⟩ := sum_of_total ht
    rw [ha]
    exact ⟨rfl, hv⟩
  | none =>
    cases hs : o.sum K with
    | error e => exact ⟨rfl, hv⟩
    | ok a => exact ⟨rfl, hv.store (total_ok hs)⟩

end

namespace Builtins

variable {Ω X F : Type} (B : Builtins Ω X F)

def Summable (r : Cached Ω F × Val X) (c : Atom) (left : Bool) : Prop :=
  ∃ o, B.vectorOf r.1.1.world r.2 = some o ∧ Sound o c left ∧
    ∀ e ∈ r.1.2, e.key = o.header B.kernels → e.object.contents = o.contents

def Meets : ℕ → ℕ → Program Ω X → Cached Ω F → Prop
  | _, _, .done _, _ => True
  | d, d', .act f k, s =>
    let r := f s.1.world
    Meets d d' (k r.2) ({ s.1 with world := r.1 }, s.2)
  | d, d', .call p k, s =>
    let r := if d < evalMaxDepth then B.evalFast (d + 1) p s else (s, depthExceeded)
    (d' < evalMaxDepth ∧ Meets (d + 1) (d' + 1) p s ∨ d = d' ∧ evalMaxDepth ≤ d') ∧ Meets d d' (k r.2) r.1
  | d, d', .sum c left p k, s =>
    let r :=
      if d < evalMaxDepth then B.afterTry d (B.evalFast (d + 2) p) c.1 left (B.evalFast (d + 1) p s)
      else (s, depthExceeded)
    (d' + 2 ≤ evalMaxDepth ∧ B.plus s.1.world = none ∧ Meets (d + 1) (d' + 2) p s ∧
        B.Summable (B.evalFast (d + 1) p s) c.1 left ∨
      d = d' ∧ evalMaxDepth ≤ d') ∧ Meets d d' (k r.2) r.1

def shown (r : Cached Ω F × Val X) : State Ω F × Val X := (r.1.1, r.2)

variable {B}

lemma ofFault_mapError (e : Except Err Atom) : (Val.ofFault (e.mapError .error) : Val X) = .ofExcept e := by
  cases e <;> rfl

lemma addThenSum_vector {w : Ω} {v : Val X} {o : VecObj F} {c : Atom} {left : Bool}
    (hv : B.vectorOf w v = some o) :
    B.addThenSum none w c left v = (w, .ofFault (o.addThenSum B.kernels c left)) := by
  cases v with
  | num a => cases hv
  | fault f => cases hv
  | other x =>
    change B.vecAt w x = some o at hv
    rw [addThenSum, addBuiltin, hv]
    nofun

lemma afterTry_agrees {d : ℕ} {again : Cached Ω F → Cached Ω F × Val X} {c : Atom} {left : Bool}
    {r : Cached Ω F × Val X} (hv : CacheValid B.kernels r.1.2) (h : B.Summable r c left) :
    shown (B.afterTry d again c left r) = B.afterOperand none c left (shown r) ∧
      CacheValid B.kernels (B.afterTry d again c left r).1.2 := by
  obtain ⟨o, ho, hsound, hcur⟩ := h
  have hfilter : (B.vectorOf (B.saw r.1.1 r.2).world r.2).filter (fun o => !o.hasNulls) = some o := by
    refine Option.filter_eq_some_iff.mpr ⟨ho, ?_⟩
    rw [hsound.1]
    rfl
  obtain ⟨hval, hvalid⟩ := sumAffine_spec (c := c) hv hcur
  rw [afterTry, hfilter]
  refine ⟨?_, hvalid⟩
  have hplain : B.addThenSum none (B.saw r.1.1 r.2).world c left r.2 =
      (r.1.1.world, .ofExcept (sumAffine B.kernels r.1.2 o c).2) := by
    rw [hval, ← ofFault_mapError, ← sound_agrees B.kernels hsound]
    exact addThenSum_vector ho
  rw [afterOperand]
  dsimp only [shown]
  rw [hplain]
  rfl

theorem evalFast_agrees (p : Program Ω X) : ∀ (d d' : ℕ) (s : Cached Ω F), d ≤ d' → CacheValid B.kernels s.2 →
    B.Meets d d' p s →
    shown (B.evalFast d p s) = B.evalPlain d' p s.1 ∧ CacheValid B.kernels (B.evalFast d p s).1.2 := by
  induction p with
  | done v =>
    intro d d' s _ hv _
    exact ⟨rfl, hv⟩
  | act f k ih =>
    intro d d' s hd hv hm
    exact ih _ d d' _ hd hv hm
  | call p k ihp ihk =>
    intro d d' s hd hv hm
    obtain ⟨hstep, hrest⟩ := hm
    have hcall : ∃ r, (if d < evalMaxDepth then B.evalFast (d + 1) p s else (s, depthExceeded)) = r ∧
        shown r = (if d' < evalMaxDepth then B.evalPlain (d' + 1) p s.1 else (s.1, depthExceeded)) ∧
        CacheValid B.kernels r.1.2 := by
      refine ⟨_, rfl, ?_⟩
      obtain ⟨hlt, hp⟩ | ⟨rfl, hle⟩ := hstep
      · rw [if_pos hlt, if_pos (hd.trans_lt hlt)]
        exact ihp (d + 1) (d' + 1) s (by omega) hv hp
      · rw [if_neg (by omega), if_neg (by omega)]
        exact ⟨rfl, hv⟩
    obtain ⟨r, hr, hshown, hvr⟩ := hcall
    rw [hr] at hrest
    rw [evalFast, evalPlain]
    rw [hr, ← hshown]
    exact ihk r.2 d d' r.1 hd hvr hrest
  | sum c left p k ihp ihk =>
    intro d d' s hd hv hm
    obtain ⟨hstep, hrest⟩ := hm
    have hsum : ∃ r, (if d < evalMaxDepth then B.afterTry d (B.evalFast (d + 2) p) c.1 left
      (B.evalFast (d + 1) p s) else (s, depthExceeded)) = r ∧
        shown r = (if d' + 2 ≤ evalMaxDepth then B.afterOperand (B.plus s.1.world) c.1 left
          (B.evalPlain (d' + 2) p s.1) else (s.1, depthExceeded)) ∧
        CacheValid B.kernels r.1.2 := by
      refine ⟨_, rfl, ?_⟩
      obtain ⟨hlt, hplus, hp, hsummable⟩ | ⟨rfl, hle⟩ := hstep
      · obtain ⟨hoperand, hvp⟩ := ihp (d + 1) (d' + 2) s (by omega) hv hp
        rw [if_pos hlt, if_pos (by omega), hplus, ← hoperand]
        exact afterTry_agrees hvp hsummable
      · rw [if_neg (by omega), if_neg (by omega)]
        exact ⟨rfl, hv⟩
    obtain ⟨r, hr, hshown, hvr⟩ := hsum
    rw [hr] at hrest
    rw [evalFast, evalPlain]
    rw [hr, ← hshown]
    exact ihk r.2 d d' r.1 hd hvr hrest

def sessionFast (B : Builtins Ω X F) : List (Program Ω X) → State Ω F → State Ω F × List (Val X)
  | [], s => (s, [])
  | p :: ps, s =>
    let r := B.evalFast 1 p (s, [])
    let t := sessionFast B ps r.1.1
    (t.1, r.2 :: t.2)

def sessionPlain (B : Builtins Ω X F) : List (Program Ω X) → State Ω F → State Ω F × List (Val X)
  | [], s => (s, [])
  | p :: ps, s =>
    let r := B.evalPlain 1 p s
    let t := sessionPlain B ps r.1
    (t.1, r.2 :: t.2)

def SessionMeets (B : Builtins Ω X F) : List (Program Ω X) → State Ω F → Prop
  | [], _ => True
  | p :: ps, s => B.Meets 1 1 p (s, []) ∧ SessionMeets B ps (B.evalFast 1 p (s, [])).1.1

end Builtins

/-- Where the sums meet the conditions, nothing tells the fast path from the addition and the sum. -/
theorem affine_sums_agree {Ω X F : Type} (B : Builtins Ω X F) (ps : List (Program Ω X)) (s : State Ω F)
    (h : B.SessionMeets ps s) : B.sessionFast ps s = B.sessionPlain ps s := by
  induction ps generalizing s with
  | nil => rfl
  | cons p ps ih =>
    obtain ⟨hp, hps⟩ := h
    obtain ⟨hr, -⟩ := Builtins.evalFast_agrees p 1 1 (s, []) le_rfl Memo.valid_nil hp
    rw [Builtins.sessionFast, Builtins.sessionPlain, ih _ hps, ← hr]
    rfl

def sampleBuiltins : Builtins (List (VecObj Empty)) ℕ Empty where
  kernels := ⟨⟨fun d _ => d, id, id, id, id, id, id, id, id, id⟩, fun _ => .nan, nofun, nofun, nofun, nofun⟩
  vecAt w x := w[x]?
  plus _ := none
  addOther _ _ _ w := (w, .fault .unspecified)
  sumOther _ w := (w, .fault .unspecified)

def sampleVec (cells : List Int64) : VecObj Empty := ⟨7, 8, 0, false, .inl ⟨.i64, cells, false⟩⟩

def sampleLiteral (x : Int64) : Literal := ⟨.i64 x, rfl⟩

def holding (cells : List Int64) : List (VecObj Empty) → List (VecObj Empty) × Val ℕ :=
  fun _ => ([sampleVec cells], .other 0)

def sumOf (cells : List Int64) (x : Int64) (k : Val ℕ → Program (List (VecObj Empty)) ℕ) :
    Program (List (VecObj Empty)) ℕ :=
  .sum (sampleLiteral x) false (.act (holding cells) .done) k

/-- The sum of a vector moved by 10 and, remembered, by 20. -/
theorem affine_sums_agree_sample :
    sampleBuiltins.sessionFast [sumOf [1, 2, 3] 10 fun _ => sumOf [1, 2, 3] 20 .done] ⟨[], []⟩ =
      sampleBuiltins.sessionPlain [sumOf [1, 2, 3] 10 fun _ => sumOf [1, 2, 3] 20 .done] ⟨[], []⟩ := by
  have hsound : ∀ z : Int64, (Atom.i64 z).isNull = false →
      Sound (sampleVec [1, 2, 3]) (sampleLiteral z).1 false := by
    intro z hz
    have hdag : canDag .i64 (.i64 z) = true := by
      rw [canDag, hz]
      rfl
    refine ⟨rfl, ⟨rfl, by rintro ⟨⟩⟩, Or.inr (Or.inr ⟨rfl, hz, ⟨rfl, by rintro ⟨⟩⟩, fun x _ => ?_⟩)⟩
    exact (if_pos hdag).mpr ⟨trivial, Or.inl ⟨rfl, by rintro ⟨⟩, rfl, by rintro ⟨⟩⟩⟩
  refine affine_sums_agree _ _ _ ⟨⟨Or.inl
    ⟨by decide, rfl, trivial, sampleVec [1, 2, 3], rfl, hsound 10 (by decide), by rintro _ ⟨⟩⟩,
    Or.inl ⟨by decide, rfl, trivial, sampleVec [1, 2, 3], rfl, hsound 20 (by decide), ?_⟩, trivial⟩, trivial⟩
  intro e he _
  obtain rfl := List.mem_singleton.mp he
  rfl

def fastValue (p : Program (List (VecObj Empty)) ℕ) : Val ℕ := (sampleBuiltins.evalFast 1 p (⟨[], []⟩, [])).2

def plainValue (p : Program (List (VecObj Empty)) ℕ) : Val ℕ := (sampleBuiltins.evalPlain 1 p ⟨[], []⟩).2

def counting : Program (List (VecObj Empty)) ℕ :=
  .act (fun w => (sampleVec [] :: w, .num (.i64 (Int64.ofNat w.length)))) .done

/-- Three queries on which the fast path gives something else. -/
theorem affine_sum_differs : (fastValue (.sum (sampleLiteral 10) false counting .done) = .num (.i64 11) ∧
      plainValue (.sum (sampleLiteral 10) false counting .done) = .num (.i64 10)) ∧
    (fastValue (sumOf [1, 2] Int64.minValue .done) = .num (.i64 3) ∧
      plainValue (sumOf [1, 2] Int64.minValue .done) = .num (.i64 0)) ∧
    (fastValue (sumOf [1, 2] 5 fun _ => sumOf [10, 20] 5 .done) = .num (.i64 13) ∧
      plainValue (sumOf [1, 2] 5 fun _ => sumOf [10, 20] 5 .done) = .num (.i64 40)) := by
  decide

end Rayforce.Affine
