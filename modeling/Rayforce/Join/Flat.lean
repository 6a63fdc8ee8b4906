import Rayforce.Join.Radix

namespace Rayforce.Join

open Library.Joining List Option

variable {c : ℕ × Column}

abbrev Table := List (ℕ × Column)

def rayTableNrows (t : Table) : ℕ := t.head?.elim 0 fun c => c.2.cells.length

def rayTableGetCol (t : Table) (n : ℕ) : Option Column := (t.find? fun c => c.1 = n).map Prod.snd

inductive RightKey
  | scan (name : ℕ)
  | const (literal : Column)
  | other

structure JoinKey where
  left : Option ℕ
  right : RightKey

inductive JoinOp
  | join (kind : JoinKind)
  | anti
  deriving DecidableEq

section

variable (E : Env) (keys : List JoinKey) (order : List ℕ) (L R : Table)

def JoinKey.leftVec (L : Table) (k : JoinKey) : Option Column := k.left.bind (rayTableGetCol L)

def JoinKey.rightVec (R : Table) (k : JoinKey) : Option Column :=
  match k.right with
  | .scan n => rayTableGetCol R n
  | .const c => some c
  | .other => none

def sides : Sides where
  ls := keys.map (JoinKey.leftVec L)
  rs := keys.map (JoinKey.rightVec R)
  leftRows := rayTableNrows L
  rightRows := rayTableNrows R
  factorized := (rayTableGetCol L E.countName).isSome

def isStr (c : Option Column) : Bool := c.elim false fun c => c.type = .str

def hasStrKey : Bool := keys.any fun k => isStr (k.leftVec L) || isStr (k.rightVec R)

def tooLong : Bool := 2 ^ 31 - 1 < rayTableNrows R ∨ 2 ^ 31 - 1 < rayTableNrows L

def isKeyColumn (n : ℕ) : Bool := keys.any fun k => match k.right with
  | .scan m => m = n
  | _ => false

def gatherTable (t : Table) (idx : List (Option ℕ)) : Table := t.map fun c => (c.1, c.2.gather idx)

def outColumns : Table := R.filter fun c => !isKeyColumn keys c.1

def execJoinFlat (kind : JoinKind) : Except JoinErr Table :=
  if tooLong L R then .error .nyi
  else if hasStrKey keys L R then .error .nyi
  else
    let ps := joinPairs E (sides E keys L R) kind order
    .ok (gatherTable L (ps.map fun p => some p.1) ++ gatherTable (outColumns keys R) (ps.map Prod.snd))

def antiBuild (J : Sides) : Chains :=
  chain (fun _ => false) (fun r => hashRowKeys E J.rs r % htCap J.rightRows) (buildOrder E order J.rightRows)

def antiRows (J : Sides) : List ℕ :=
  let c := antiBuild E order J
  (List.range J.leftRows).filter fun l => !(candidates E J c l).any (joinKeysEq E J.ls J.rs l)

def execAntijoinFlat : Except JoinErr Table :=
  if tooLong L R then .error .nyi
  else if rayTableNrows R = 0 then .ok L
  else if rayTableNrows L = 0 then .ok L
  else if hasStrKey keys L R then .error .nyi
  else .ok (gatherTable L ((antiRows E order (sides E keys L R)).map some))

def flatFn : JoinOp → Except JoinErr Table
  | .join kind => execJoinFlat E keys order L R kind
  | .anti => execAntijoinFlat E keys order L R

end

section

def JoinOp.row (op : JoinOp) (eq : ℕ → ℕ → Bool) (rightRows l : ℕ) : List (ℕ × Option ℕ) :=
  match op with
  | .join kind => emit (kind = .left) l ((List.range rightRows).reverse.filter (eq l))
  | .anti => if (List.range rightRows).any (eq l) then [] else [(l, none)]

def JoinOp.spec (op : JoinOp) (eq : ℕ → ℕ → Bool) (leftRows rightRows : ℕ) : List (ℕ × Option ℕ) :=
  (List.range leftRows).flatMap (op.row eq rightRows)

def JoinOp.rightCols (op : JoinOp) (keys : List JoinKey) (R : Table) : Table :=
  match op with
  | .join _ => outColumns keys R
  | .anti => []

variable (S : Symbols)

structure LeftHolds (ps : List (ℕ × Option ℕ)) (x y : ℕ × Column) : Prop where
  name : x.1 = y.1
  type : x.2.type = y.2.type
  flagged : y.2.Flagged
  placed : y.2.Placed S
  values : y.2.values S = ps.map fun p => x.2.valueAt S (some p.1)

structure RightHolds (ps : List (ℕ × Option ℕ)) (x y : ℕ × Column) : Prop where
  name : x.1 = y.1
  type : x.2.type = y.2.type
  flagged : y.2.Flagged
  domain : y.2.type = .sym → y.2.domain = x.2.domain
  values : y.2.values S = ps.map fun p => x.2.valueAt S p.2

def Holds (L RC : Table) (ps : List (ℕ × Option ℕ)) (t : Table) : Prop :=
  ∃ A B, t = A ++ B ∧ List.Forall₂ (LeftHolds S ps) L A ∧ List.Forall₂ (RightHolds S ps) RC B

def TableOk (t : Table) : Prop :=
  ∀ c ∈ t, c.2.Flagged ∧ c.2.Placed S ∧ c.2.cells.length = rayTableNrows t

def poolOf (t : Table) : List ℕ := t.map fun c => if c.2.type = .str then c.2.pool else 0

end

variable {E : Env} {keys : List JoinKey} {order : List ℕ} {L R : Table} {S : Symbols} {op : JoinOp}
    {kind : JoinKind}
  {ps : List (ℕ × Option ℕ)}

lemma antiRows_eq {J : Sides} (hc : KeysComparable J.ls J.rs) (ho : order.Perm (List.range J.rightRows)) :
    antiRows E order J = (List.range J.leftRows).filter fun l =>
      !(List.range J.rightRows).any (joinKeysEq E J.ls J.rs l) := by
  have hp := buildOrder_perm (E := E) ho
  have hn : (buildOrder E order J.rightRows).Nodup := hp.nodup_iff.mpr nodup_range
  have hlen : (buildOrder E order J.rightRows).length ≤ J.rightRows := by rw [hp.length_eq, length_range]
  apply filter_congr
  intro l _
  congr 1
  rw [candidates, antiBuild, follow_chain _ _ hn _ hlen, any_reverse, Bool.eq_iff_iff, List.any_eq_true,
    List.any_eq_true]
  constructor
  · rintro ⟨r, hr, he⟩
    exact ⟨r, hp.subset (mem_filter.mp hr).1, he⟩
  · rintro ⟨r, hr, he⟩
    refine ⟨r, mem_filter.mpr ⟨hp.symm.subset hr, ?_⟩, he⟩
    rw [hashRowKeys_of_eq hc he]
    simp

lemma spec_anti (eq : ℕ → ℕ → Bool) (nl nr : ℕ) : JoinOp.anti.spec eq nl nr =
    ((List.range nl).filter fun l => !(List.range nr).any (eq l)).map fun l => (l, none) := by
  rw [JoinOp.spec]
  generalize range nl = ls
  induction ls with
  | nil => rfl
  | cons l ls ih =>
    rw [flatMap_cons, ih, filter_cons, JoinOp.row]
    cases (range nr).any (eq l) <;> rfl

lemma spec_bounds {eq : ℕ → ℕ → Bool} {nl nr : ℕ} {p : ℕ × Option ℕ} (h : p ∈ op.spec eq nl nr) :
    p.1 < nl ∧ ∀ r, p.2 = some r → r < nr := by
  obtain ⟨l, hl, hp⟩ := mem_flatMap.mp h
  have hlt := mem_range.mp hl
  cases op with
  | join kind =>
    rw [JoinOp.row, emit] at hp
    split_ifs at hp
    · obtain rfl := mem_singleton.mp hp
      exact ⟨hlt, by simp⟩
    · obtain ⟨r, hr, rfl⟩ := mem_map.mp hp
      refine ⟨hlt, ?_⟩
      rintro r' ⟨⟩
      exact mem_range.mp (mem_reverse.mp (mem_filter.mp hr).1)
  | anti =>
    rw [JoinOp.row] at hp
    split_ifs at hp
    · cases hp
    · obtain rfl := mem_singleton.mp hp
      exact ⟨hlt, by simp⟩

lemma leftHolds_gather (hf : c.2.Flagged) (hp : c.2.Placed S) (hps : ∀ p ∈ ps, p.1 < c.2.cells.length) :
    LeftHolds S ps c (c.1, c.2.gather (ps.map fun p => some p.1)) := by
  have hidx : (ps.map fun p => some p.1) = (ps.map Prod.fst).map some := by rw [List.map_map]; rfl
  have hin : ∀ i ∈ ps.map Prod.fst, i < c.2.cells.length := by
    intro i hi
    obtain ⟨p, hp, rfl⟩ := mem_map.mp hi
    exact hps p hp
  have hin' : ∀ i ∈ (ps.map fun p => some p.1), ∀ r, i = some r → r < c.2.cells.length := by
    rintro i hi r rfl
    obtain ⟨p, hp, he⟩ := mem_map.mp hi
    exact some.inj he ▸ hps p hp
  refine ⟨rfl, rfl, gather_flagged S hf _ hin', ?_, ?_⟩
  · rw [hidx]
    exact gather_placed hp _ hin
  · rw [values_gather hf _ hin', List.map_map]
    rfl

lemma rightHolds_gather (hf : c.2.Flagged) (hps : ∀ p ∈ ps, ∀ r, p.2 = some r → r < c.2.cells.length) :
    RightHolds S ps c (c.1, c.2.gather (ps.map Prod.snd)) := by
  have hin : ∀ i ∈ ps.map Prod.snd, ∀ r, i = some r → r < c.2.cells.length := by
    rintro i hi r rfl
    obtain ⟨p, hp, he⟩ := mem_map.mp hi
    exact hps p hp r he
  refine ⟨rfl, rfl, gather_flagged S hf _ hin, fun _ => rfl, ?_⟩
  rw [values_gather hf _ hin, List.map_map]
  rfl

lemma forall₂_gather {P : ℕ × Column → ℕ × Column → Prop} {t : Table} {idx : List (Option ℕ)}
    (h : ∀ c ∈ t, P c (c.1, c.2.gather idx)) : List.Forall₂ P t (gatherTable t idx) := by
  rw [gatherTable, forall₂_map_right_iff, forall₂_same]
  exact h

lemma poolOf_gather (t : Table) (idx : List (Option ℕ)) : poolOf (gatherTable t idx) = poolOf t := by
  rw [poolOf, gatherTable, List.map_map]
  rfl

lemma holds_gather (RC : Table) (hL : TableOk S L) (hR : TableOk S R) (hRC : ∀ c ∈ RC, c ∈ R)
    (hps : ∀ p ∈ ps, p.1 < rayTableNrows L ∧ ∀ r, p.2 = some r → r < rayTableNrows R) :
    Holds S L RC ps (gatherTable L (ps.map fun p => some p.1) ++ gatherTable RC (ps.map Prod.snd)) := by
  refine ⟨_, _, rfl, forall₂_gather fun c hc => ?_, forall₂_gather fun c hc => ?_⟩
  · obtain ⟨hf, hp, hl⟩ := hL c hc
    exact leftHolds_gather hf hp fun p hpm => by rw [hl]; exact (hps p hpm).1
  · obtain ⟨hf, -, hl⟩ := hR c (hRC c hc)
    exact rightHolds_gather hf fun p hpm => by rw [hl]; exact (hps p hpm).2

lemma holds_self (hL : TableOk S L) (h : ps = (List.range (rayTableNrows L)).map fun l => (l, none)) :
    Holds S L [] ps L := by
  refine ⟨L, [], (append_nil L).symm, forall₂_same.mpr fun c hc => ?_, .nil⟩
  obtain ⟨hf, hp, hl⟩ := hL c hc
  refine ⟨rfl, rfl, hf, hp, ?_⟩
  rw [h, List.map_map, ← hl]
  apply ext_getElem
  · simp [Column.values]
  · intro i h1 h2
    simp [Column.valueAt, getD_eq_getElem?_getD, h1]

structure KeysOk (E : Env) (keys : List JoinKey) (L R : Table) : Prop where
  comparable : ∀ k ∈ keys, ∀ lc rc, k.leftVec L = some lc → k.rightVec R = some rc → Comparable lc rc
  wide : (rayTableGetCol L E.countName).isSome → ∀ k, keys = [k] → ∀ rc, k.rightVec R = some rc →
    rc.type = .i64 ∨ rc.type = .timestamp
  noStr : hasStrKey keys L R = false

lemma KeysOk.sides (h : KeysOk E keys L R) : (sides E keys L R).Ok := by
  constructor
  · refine ⟨by simp [Join.sides], ?_⟩
    intro p hp lc rc he
    simp only [Join.sides, zip_map'] at hp
    obtain ⟨k, hk, rfl⟩ := mem_map.mp hp
    obtain ⟨h1, h2⟩ := Prod.mk.inj he
    exact h.comparable k hk lc rc h1 h2
  · intro hf lc rc hl hr
    obtain ⟨k, rfl, -⟩ := map_eq_singleton_iff.mp hl
    exact h.wide hf k rfl rc (by simpa [Join.sides] using hr)

def rowsEq (E : Env) (keys : List JoinKey) (L R : Table) : ℕ → ℕ → Bool :=
  joinKeysEq E (keys.map (JoinKey.leftVec L)) (keys.map (JoinKey.rightVec R))

def JoinOp.pairs (E : Env) (keys : List JoinKey) (L R : Table) (op : JoinOp) : List (ℕ × Option ℕ) :=
  op.spec (rowsEq E keys L R) (rayTableNrows L) (rayTableNrows R)

lemma flatFn_spec (op : JoinOp) (hL : TableOk E.S L) (hR : TableOk E.S R) (hk : KeysOk E keys L R)
    (hlong : tooLong L R = false) (ho : order.Perm (List.range (rayTableNrows R))) :
    ∃ t ps, flatFn E keys order L R op = .ok t ∧ Holds E.S L (op.rightCols keys R) ps t ∧
      ps.Perm (op.pairs E keys L R) ∧
        (rayTableNrows R ≤ rayParallelThreshold ∨ op = .anti → ps = op.pairs E keys L R) ∧
      poolOf t = poolOf L ++ poolOf (op.rightCols keys R) := by
  have hJ := hk.sides
  cases op with
  | join kind =>
    have hspec : (JoinOp.join kind).pairs E keys L R = Library.Joining.pairs (kind = .left) (rowsEq E keys L R)
        (List.range (rayTableNrows L)) (List.range (rayTableNrows R)).reverse := rfl
    have hperm : (joinPairs E (sides E keys L R) kind order).Perm ((JoinOp.join kind).pairs E keys L R) := by
      rw [hspec]
      exact (joinPairs_perm hJ ho).trans (pairs_perm (reverse_perm _).symm)
    refine ⟨_, joinPairs E (sides E keys L R) kind order, ?_, holds_gather _ hL hR ?_ ?_, hperm, ?_, ?_⟩
    · simp only [flatFn, execJoinFlat, hlong, hk.noStr, Bool.false_eq_true, if_false]
      rfl
    · exact fun c hc => (mem_filter.mp hc).1
    · exact fun p hp => spec_bounds (hperm.subset hp)
    · rintro (hs | hs)
      · rw [hspec]
        exact joinPairs_small hJ ho hs
      · cases hs
    · rw [poolOf, map_append, ← poolOf, ← poolOf, poolOf_gather, poolOf_gather]
  | anti =>
    have hspec := spec_anti (rowsEq E keys L R) (rayTableNrows L) (rayTableNrows R)
    by_cases h0 : rayTableNrows R = 0
    · refine ⟨L, _, ?_, holds_self hL ?_, .refl _, fun _ => rfl, (append_nil _).symm⟩
      · simp only [flatFn, execAntijoinFlat, hlong, h0, Bool.false_eq_true, if_false, if_true]
      · rw [JoinOp.pairs, hspec, h0]
        simp
    by_cases h1 : rayTableNrows L = 0
    · refine ⟨L, _, ?_, holds_self hL ?_, .refl _, fun _ => rfl, (append_nil _).symm⟩
      · simp only [flatFn, execAntijoinFlat, hlong, h0, h1, Bool.false_eq_true, if_false, if_true]
      · rw [JoinOp.pairs, hspec, h1]
        rfl
    have hrows := antiRows_eq (E := E) (J := sides E keys L R) hJ.comparable ho
    refine ⟨_, (antiRows E order (sides E keys L R)).map fun l => (l, none), ?_,
      holds_gather [] hL hR (by simp) ?_, ?_, ?_, ?_⟩
    · simp only [flatFn, execAntijoinFlat, hlong, h0, h1, hk.noStr, Bool.false_eq_true, if_false]
      rw [List.map_map]
      exact congrArg Except.ok (append_nil _).symm
    · intro p hp
      obtain ⟨l, hl, rfl⟩ := mem_map.mp hp
      rw [hrows] at hl
      exact ⟨mem_range.mp (mem_filter.mp hl).1, by simp⟩
    · rw [hrows, JoinOp.pairs, hspec]
      exact .refl _
    · intro _
      rw [hrows, JoinOp.pairs, hspec]
      rfl
    · rw [poolOf, map_append, ← poolOf, ← poolOf, poolOf_gather]
      rfl

end Rayforce.Join
