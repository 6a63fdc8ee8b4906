import Mathlib

/-! Programs of positive and negated atoms, and their strata. -/

namespace Rayforce.Datalog

open List Option

abbrev Row := List ℤ

abbrev Table := List Row

abbrev Tables := String → Table

def nullI64 : ℤ := -2 ^ 63

inductive Arg
  | var (v : ℕ)
  | const (k : ℤ)
deriving DecidableEq

structure Atom where
  pred : String
  args : List Arg
deriving DecidableEq

inductive Literal
  | pos (a : Atom)
  | neg (a : Atom)
deriving DecidableEq

structure Rule where
  head : Atom
  body : List Literal
deriving DecidableEq

structure Rel where
  name : String
  arity : ℕ
  isIdb : Bool
deriving DecidableEq

def Arg.var? : Arg → Option ℕ
  | .var v => some v
  | .const _ => none

def Atom.vars (a : Atom) : List ℕ := a.args.filterMap Arg.var?

def Literal.pos? : Literal → Option Atom
  | .pos a => some a
  | .neg _ => none

def Literal.neg? : Literal → Option Atom
  | .pos _ => none
  | .neg a => some a

def Rule.positives (r : Rule) : List Atom := r.body.filterMap Literal.pos?

def Rule.negatives (r : Rule) : List Atom := r.body.filterMap Literal.neg?

def Rule.bound (r : Rule) : List ℕ := r.positives.flatMap Atom.vars

def Arg.eval (σ : ℕ → ℤ) : Arg → ℤ
  | .var v => σ v
  | .const k => k

def Atom.inst (σ : ℕ → ℤ) (a : Atom) : Row := a.args.map (Arg.eval σ)

def dlFindRel (rels : List Rel) (name : String) : Option Rel := rels.find? fun rel => rel.name = name

structure Program where
  rels : List Rel
  rules : List Rule
  head_rel : ∀ r ∈ rules, ∃ rel, dlFindRel rels r.head.pred = some rel ∧ rel.isIdb = true ∧
    rel.arity = r.head.args.length
  body_rel : ∀ r ∈ rules, ∀ a ∈ r.positives ++ r.negatives, ∀ rel, dlFindRel rels a.pred = some rel →
    rel.arity = a.args.length

inductive Dep
  | none
  | pos
  | neg
deriving DecidableEq

def dlMaxStrata : ℕ := 16

lemma dlFindRel_spec {rels : List Rel} {name : String} {rel : Rel} (h : dlFindRel rels name = some rel) :
    rel ∈ rels ∧ rel.name = name := by
  refine ⟨mem_of_find?_eq_some h, ?_⟩
  simpa using find?_some h

structure Stratified (rels : List Rel) (rules : List Rule) (stratum : String → ℕ) : Prop where
  pos : ∀ r ∈ rules, ∀ a ∈ r.positives, ∀ rel head, dlFindRel rels a.pred = some rel →
    dlFindRel rels r.head.pred = some head → stratum a.pred ≤ stratum r.head.pred
  neg : ∀ r ∈ rules, ∀ a ∈ r.negatives, ∀ rel head, dlFindRel rels a.pred = some rel →
    dlFindRel rels r.head.pred = some head → stratum a.pred < stratum r.head.pred

end Rayforce.Datalog
