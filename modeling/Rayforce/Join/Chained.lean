import Rayforce.Join.Keys
import Rayforce.Library.Joining
import Rayforce.Library.Segments

/-! The chained hash table of a small join. -/

namespace Rayforce.Join

open Library.Joining Library.Segments List

variable {l r : ℕ} {lc rc : Column}

inductive JoinKind
  | inner
  | left
  deriving DecidableEq

structure Sides where
  ls : List (Option Column)
  rs : List (Option Column)
  leftRows : ℕ
  rightRows : ℕ
  /-- The left table has a column `_count`. -/
  factorized : Bool

def rayParallelThreshold : ℕ := 64 * 1024
def joinMorsel : ℕ := 8192

section

variable (E : Env) (J : Sides) (kind : JoinKind) (order : List ℕ)

def growCap (target : ℕ) : ℕ → ℕ → ℕ
  | 0, cap => cap
  | fuel + 1, cap => if cap < target then growCap target fuel (cap * 2) else cap

def htCap (rightRows : ℕ) : ℕ :=
  let cap := growCap (rightRows * 2) 64 256
  if 2 ^ 32 - 1 < cap then 2 ^ 31 else cap

structure KeySet where
  max : ℤ
  keys : List ℤ

def keySet (ks : List ℤ) : Option KeySet :=
  let mx := ks.foldl max 0
  if mx < 2 ^ 24 then some ⟨mx, ks.filter fun k => 0 ≤ k ∧ k ≤ mx⟩ else none

def KeySet.excludes (b : KeySet) (k : ℤ) : Bool := 0 ≤ k ∧ k ≤ b.max ∧ k ∉ b.keys

def aspBits : Option KeySet :=
  match J.ls, J.rs with
  | [some lc], [some _] =>
    if kind = .inner ∧ lc.type = .i64 ∧ J.leftRows * 2 < J.rightRows ∧ J.factorized then
      keySet ((List.range J.leftRows).map (cellNum lc))
    else none
  | _, _ => none

def aspSkip (r : ℕ) : Bool :=
  match aspBits J kind, J.rs with
  | some b, [some rc] => b.excludes (word64 E rc r)
  | _, _ => false

def sjoinBits : Option KeySet :=
  match J.ls, J.rs with
  | [some lc], [some rc] =>
    if kind = .inner ∧ lc.type = .i64 ∧ rc.type = .i64 ∧ J.rightRows * 2 < J.leftRows then
      keySet ((List.range J.rightRows).map (cellNum rc))
    else none
  | _, _ => none

def sjoinSkip (l : ℕ) : Bool :=
  match sjoinBits J kind, J.ls with
  | some b, [some lc] => b.excludes (cellNum lc l)
  | _, _ => false

def buildOrder (rows : ℕ) : List ℕ :=
  if E.workers.isSome ∧ rayParallelThreshold < rows then order else List.range rows

def joinBuild : Chains :=
  chain (aspSkip E J kind) (fun r => hashRowKeys E J.rs r % htCap J.rightRows) (buildOrder E order J.rightRows)

def candidates (c : Chains) (l : ℕ) : List ℕ :=
  follow c.next J.rightRows (c.heads (hashRowKeys E J.ls l % htCap J.rightRows))

def matched (c : Chains) (l : ℕ) : List ℕ := (candidates E J c l).filter (joinKeysEq E J.ls J.rs l)

def probeRow (c : Chains) (l : ℕ) : List (ℕ × Option ℕ) :=
  emit (kind = .left) l (if sjoinSkip J kind l then [] else matched E J c l)

def countRow (c : Chains) (l : ℕ) : ℕ :=
  if sjoinSkip J kind l then (if kind = .left then 1 else 0)
  else
    let n := (matched E J c l).length
    if n = 0 ∧ kind = .left then 1 else n

def morsel (t : ℕ) : List ℕ := List.range' (t * joinMorsel) (segEnd joinMorsel J.leftRows t - t * joinMorsel)

def joinCount (c : Chains) (t : ℕ) : ℕ := ((morsel J t).map (countRow E J kind c)).sum

def joinFill (c : Chains) (t : ℕ) : List (ℕ × Option ℕ) := (morsel J t).flatMap (probeRow E J kind c)

def chainedPairs : List (ℕ × Option ℕ) :=
  let c := joinBuild E J kind order
  let tasks := max 1 (segCount joinMorsel J.leftRows)
  (List.range tasks).foldl (fun a t => writeAt a (sumTo (joinCount E J kind c) t) (joinFill E J kind c t))
    (List.replicate (sumTo (joinCount E J kind c) tasks) (0, none))

end

variable {E : Env} {J : Sides} {kind : JoinKind} {order : List ℕ}

structure Sides.Ok (J : Sides) : Prop where
  comparable : KeysComparable J.ls J.rs
  wide : J.factorized = true → ∀ lc rc, J.ls = [some lc] → J.rs = [some rc] → rc.type = .i64 ∨ rc.type = .timestamp

lemma mem_keySet {ks : List ℤ} {b : KeySet} (h : keySet ks = some b) {k : ℤ} (hk : k ∈ ks) :
    b.excludes k = false := by
  simp only [keySet] at h
  split_ifs at h
  obtain rfl := Option.some.inj h
  simp only [KeySet.excludes, decide_eq_false_iff_not, mem_filter, decide_eq_true_eq]
  rintro ⟨h0, h1, hn⟩
  exact hn ⟨hk, h0, h1⟩

lemma keyEq_i64 (hl : lc.type = .i64) (hr : rc.type = .i64 ∨ rc.type = .timestamp)
    (h : keyEq E lc rc l r = true) : cellNum lc l = cellNum rc r := by
  rw [keyEq] at h
  rcases hr with hr | hr
  all_goals
    simp only [hl, hr, reduceCtorEq, if_false, false_and, readColI64] at h
    split_ifs at h
    exact of_decide_eq_true h

lemma joinKeysEq_single (h : joinKeysEq E [some lc] [some rc] l r = true) :
    keyEq E lc rc l r = true := by simpa [joinKeysEq] using h

lemma aspSkip_of_eq (hJ : J.Ok) (hl : l < J.leftRows) (h : joinKeysEq E J.ls J.rs l r = true) :
    aspSkip E J kind r = false := by
  cases hb : aspBits J kind with
  | none => rw [aspSkip, hb]
  | some b =>
    have hb' := hb
    rw [aspBits] at hb'
    split at hb'
    · rename_i lc rc hls hrs
      split_ifs at hb' with hcond
      obtain ⟨-, hty, -, hf⟩ := hcond
      have hw := hJ.wide hf lc rc hls hrs
      rw [hls, hrs] at h
      have he := keyEq_i64 hty hw (joinKeysEq_single h)
      have hword : word64 E rc r = cellNum rc r := by
        rw [word64]
        rcases hw with hw | hw <;> rw [hw]
      rw [aspSkip, hb, hrs]
      show b.excludes (word64 E rc r) = false
      rw [hword, ← he]
      exact mem_keySet hb' (mem_map_of_mem (mem_range.mpr hl))
    · cases hb'

lemma sjoinSkip_of_eq (hr : r < J.rightRows) (h : joinKeysEq E J.ls J.rs l r = true) :
    sjoinSkip J kind l = false := by
  cases hb : sjoinBits J kind with
  | none => rw [sjoinSkip, hb]
  | some b =>
    have hb' := hb
    rw [sjoinBits] at hb'
    split at hb'
    · rename_i lc rc hls hrs
      split_ifs at hb' with hcond
      obtain ⟨-, htl, htr, -⟩ := hcond
      rw [hls, hrs] at h
      have he := keyEq_i64 htl (.inl htr) (joinKeysEq_single h)
      rw [sjoinSkip, hb, hls]
      show b.excludes (cellNum lc l) = false
      rw [he]
      exact mem_keySet hb' (mem_map_of_mem (mem_range.mpr hr))
    · cases hb'

lemma countRow_eq (c : Chains) (l : ℕ) : countRow E J kind c l = (probeRow E J kind c l).length := by
  rw [countRow, probeRow, emit]
  by_cases hs : sjoinSkip J kind l
  · rw [if_pos hs, if_pos hs]
    cases kind <;> simp
  · rw [if_neg hs, if_neg hs]
    cases hm : matched E J c l <;> cases kind <;> simp

lemma joinCount_eq (c : Chains) (t : ℕ) : joinCount E J kind c t = (joinFill E J kind c t).length := by
  rw [joinCount, joinFill, length_flatMap]
  congr 1
  exact map_congr_left fun l _ => countRow_eq c l

lemma chainedPairs_eq : chainedPairs E J kind order =
    (List.range J.leftRows).flatMap (probeRow E J kind (joinBuild E J kind order)) := by
  have hcount : joinCount E J kind (joinBuild E J kind order) =
      fun t => (joinFill E J kind (joinBuild E J kind order) t).length := funext (joinCount_eq _)
  simp only [chainedPairs, hcount, foldl_writeAt]
  rw [drop_eq_nil_of_le (by rw [length_replicate]), append_nil]
  have hfill : joinFill E J kind (joinBuild E J kind order) =
      fun t => (morsel J t).flatMap (probeRow E J kind (joinBuild E J kind order)) := rfl
  have hall := flatMap_segments_to joinMorsel J.leftRows (max 1 (segCount joinMorsel J.leftRows))
  rw [min_eq_right] at hall
  · rw [hfill, ← flatMap_assoc, ← hall]
    rfl
  · have := le_segCount_mul J.leftRows (show 0 < joinMorsel by decide)
    exact this.trans (Nat.mul_le_mul_right _ (le_max_right _ _))

lemma buildOrder_perm (ho : order.Perm (List.range J.rightRows)) :
    (buildOrder E order J.rightRows).Perm (List.range J.rightRows) := by
  rw [buildOrder]
  split_ifs
  · exact ho
  · exact .refl _

lemma matched_eq (hJ : J.Ok) (ho : order.Perm (List.range J.rightRows)) {l : ℕ} (hl : l < J.leftRows) :
    matched E J (joinBuild E J kind order) l = (buildOrder E order J.rightRows).reverse.filter
    (joinKeysEq E J.ls J.rs l) := by
  have hp := buildOrder_perm (E := E) ho
  have hn : (buildOrder E order J.rightRows).Nodup := hp.nodup_iff.mpr nodup_range
  have hlen : (buildOrder E order J.rightRows).length ≤ J.rightRows := by rw [hp.length_eq, length_range]
  rw [matched, candidates, joinBuild, follow_chain _ _ hn _ hlen, filter_reverse, filter_reverse,
    filter_filter]
  congr 1
  apply filter_congr
  intro r _
  cases he : joinKeysEq E J.ls J.rs l r with
  | false => rfl
  | true =>
    rw [aspSkip_of_eq hJ hl he, hashRowKeys_of_eq hJ.comparable he]
    simp

lemma chainedPairs_spec (hJ : J.Ok) (ho : order.Perm (List.range J.rightRows)) :
    chainedPairs E J kind order = pairs (kind = .left) (joinKeysEq E J.ls J.rs) (List.range J.leftRows)
      (buildOrder E order J.rightRows).reverse := by
  rw [chainedPairs_eq, pairs]
  apply flatMap_congr
  intro l hl
  have hlt := mem_range.mp hl
  rw [probeRow, matched_eq hJ ho hlt]
  by_cases hs : sjoinSkip J kind l
  · rw [if_pos hs]
    congr 1
    refine (filter_eq_nil_iff.mpr fun r hr he => ?_).symm
    have hr' := mem_range.mp ((buildOrder_perm (E := E) ho).subset (mem_reverse.mp hr))
    rw [sjoinSkip_of_eq hr' he] at hs
    cases hs
  · rw [if_neg hs]

lemma chainedPairs_perm (hJ : J.Ok) (ho : order.Perm (List.range J.rightRows)) :
    (chainedPairs E J kind order).Perm (pairs (kind = .left) (joinKeysEq E J.ls J.rs) (List.range J.leftRows)
      (List.range J.rightRows)) := by
  rw [chainedPairs_spec hJ ho]
  exact pairs_perm ((reverse_perm _).trans (buildOrder_perm ho))

end Rayforce.Join
