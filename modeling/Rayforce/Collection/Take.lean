import Rayforce.Dict.Object
import Rayforce.Library.Sequences

/-! `take` of `collection.c`. -/

namespace Rayforce.Collection

open Library.Words Library.Sequences List Option
open Rayforce.Dict (KeyType SymWidth Payload sentinelIsNull)

/-- A typed vector. For a slice `hasNulls` is the flag of its parent, `cells` are those that `ray_data` finds and
`beyond` the cells of the parent after them. -/
structure Vec where
  type : KeyType
  width : SymWidth
  cells : List Payload
  beyond : List Payload
  hasNulls : Bool

def zeroCell : KeyType → Payload
  | .bool | .u8 => .byte 0
  | .f32 | .f64 => .real (.fin 0)
  | .str => .bytes []
  | .guid => .bytes (List.replicate 16 0)
  | _ => .int 0

def nullCell : KeyType → Payload
  | .i16 => .int (-2 ^ 15)
  | .i32 | .date | .time => .int (-2 ^ 31)
  | .i64 | .timestamp => .int (-2 ^ 63)
  | .f32 | .f64 => .real .nan
  | t => zeroCell t

namespace Vec

def isNull (v : Vec) (i : ℕ) : Bool := v.hasNulls && (v.cells[i]?.elim false (sentinelIsNull v.type))

def setNull (v : Vec) (i : ℕ) : Vec := { v with cells := v.cells.set i (nullCell v.type), hasNulls := true }

def elems (v : Vec) : List (Option Payload) :=
  v.cells.map fun c => if v.hasNulls && sentinelIsNull v.type c then none else some c

/-- `ray_data_slice_path` steps by eight bytes a symbol, whatever the width of its cells. -/
def sliceStart (v : Vec) (offset : ℕ) : ℕ := if v.type = .sym then offset * (64 / v.width.bits) else offset

/-- `none` where the view would reach past the cells of the parent. -/
def slice (v : Vec) (offset len : ℕ) : Option Vec :=
  let all := v.cells ++ v.beyond
  let first := v.sliceStart offset
  if len = 0 ∨ first + len ≤ all.length then
    some { v with cells := (all.drop first).take len, beyond := all.drop (first + len) }
  else none

end Vec

inductive Column (α : Type)
  | vec (v : Vec)
  | list (l : List α)

inductive Coll (α : Type)
  | str (s : Bytes)
  | col (c : Column α)
  | table (cols : List (ℤ × Column α))
  | dict (keys vals : Column α)

/-- The second argument of `take`. -/
inductive Count
  | atom (n : ℤ)
  | range (start amount : ℤ)

inductive TakeError
  | limit | length | range
  deriving DecidableEq

section

variable {β : Type}

def absN (n : ℤ) : Option ℕ := if n = -2 ^ 63 then none else some n.natAbs

def backIndex (len count i : ℕ) : ℕ := if len - (count - i) % len = len then 0 else len - (count - i) % len

def gather (l : List β) (n : ℤ) (count : ℕ) : Option (List β) :=
  (List.range count).mapM fun i => l[if 0 ≤ n then i % l.length else backIndex l.length count i]?

def tileLoop (count : ℕ) : ℕ → List β → List β
  | 0, dst => dst
  | fuel + 1, dst => if dst.length + dst.length ≤ count then tileLoop count fuel (dst ++ dst) else dst

def tileCopy (src : List β) (count : ℕ) : List β :=
  let dst := tileLoop count count (src.take (if count < src.length then count else src.length))
  dst ++ dst.take (count - dst.length)

end

def copyNulls (v : Vec) (place : ℕ → ℕ) (count : ℕ) (r : Vec) : Vec :=
  if v.hasNulls then (List.range count).foldl (fun r i => if v.isNull (place i) then r.setNull i else r) r else r

def takeVec (v : Vec) (n : ℤ) : Option Vec :=
  (absN n).bind fun count =>
    if v.cells.length = 0 then some ⟨v.type, v.width, List.replicate count (zeroCell v.type), [], false⟩
    else
      (if 0 ≤ n then some (if 0 < count then tileCopy v.cells count else []) else gather v.cells n count).map
        fun cells =>
        copyNulls v (fun i => if 0 ≤ n then i % v.cells.length else backIndex v.cells.length count i) count
          ⟨v.type, v.width, cells, [], false⟩

def takeList {α : Type} (l : List α) (n : ℤ) : Option (List α) :=
  (absN n).bind fun count => if l.length = 0 then some [] else gather l n count

def takeStr (s : Bytes) (n : ℤ) : Option (Except TakeError Bytes) :=
  (absN n).bind fun count =>
    if 8192 < count then some (.error .limit)
    else
      match s with
      | [c] => some (.ok (List.replicate count c))
      | [] => some (.ok [])
      | s => (gather s n count).map .ok

def clampStart (len : ℕ) (start : ℤ) : ℕ := ((if start < 0 then len + start else start).toNat)

def rangeEnd (len start : ℕ) (amount : ℤ) : Option ℕ :=
  if start + amount < 2 ^ 63 then some
    (if (len : ℤ) < start + amount then len else (start + amount).toNat) else none

def rangeCells {β : Type} (l : List β) (start amount : ℤ) : Option (List β) :=
  let first := clampStart l.length start
  if l.length ≤ first then some []
  else (rangeEnd l.length first amount).map fun stop => (l.drop first).take (stop - first)

def rangeVec (v : Vec) (start amount : ℤ) : Option Vec :=
  let first := clampStart v.cells.length start
  if v.cells.length ≤ first then some ⟨v.type, .w64, [], [], false⟩
  else (rangeEnd v.cells.length first amount).map fun stop =>
    copyNulls v (fun i => first + i) (stop - first)
      ⟨v.type, v.width, (v.cells.drop first).take (stop - first), [], false⟩

namespace Column

variable {α : Type}

def len : Column α → ℕ
  | .vec v => v.cells.length
  | .list l => l.length

def take (c : Column α) : Count → Option (Column α)
  | .atom n =>
    match c with
    | .vec v => (takeVec v n).map .vec
    | .list l => (takeList l n).map .list
  | .range start amount =>
    match c with
    | .vec v => (rangeVec v start amount).map .vec
    | .list l => (rangeCells l start amount).map .list

def slice (c : Column α) (offset len : ℕ) : Option (Except TakeError (Column α)) :=
  if c.len < offset ∨ c.len - offset < len then some (.error .range)
  else
    match c with
    | .vec v => (v.slice offset len).map fun v => .ok (.vec v)
    | .list l => some (.ok (.list ((l.drop offset).take len)))

end Column

def takeCols {α : Type} (cols : List (ℤ × Column α)) (n : Count) : Option (List (ℤ × Column α)) :=
  cols.mapM fun x : ℤ × Column α => (x.2.take n).map fun y => (x.1, y)

def rangeDict {α : Type} (keys vals : Column α) (start amount : ℤ) : Option (Except TakeError (Coll α)) :=
  let first := clampStart keys.len start
  (rangeEnd keys.len first amount).bind fun stop =>
    let stop := if stop < first then first else stop
    (keys.slice first (stop - first)).bind fun r =>
      match r with
      | .error e => some (.error e)
      | .ok nk =>
        match vals with
        | .list l => ((List.range (stop - first)).mapM fun i => l[first + i]?).map fun nv =>
          .ok (.dict nk (.list nv))
        | .vec v => (Column.slice (.vec v) first (stop - first)).map fun r => r.map fun nv => .dict nk nv

def rayTakeFn {α : Type} (c : Coll α) (n : Count) : Option (Except TakeError (Coll α)) :=
  match n with
  | .range start amount =>
    if amount < 0 then some (.error .length)
    else
      match c with
      | .table cols => (takeCols cols n).map fun cols => .ok (.table cols)
      | .str s => (rangeCells s start amount).map fun s => .ok (.str s)
      | .col c => (c.take n).map fun c => .ok (.col c)
      | .dict keys vals => rangeDict keys vals start amount
  | .atom m =>
    match c with
    | .str s => (takeStr s m).map fun r => r.map .str
    | .table cols => (takeCols cols n).map fun cols => .ok (.table cols)
    | .dict keys vals => (keys.take n).bind fun nk => (vals.take n).map fun nv => .ok (.dict nk nv)
    | .col c => (c.take n).map fun c => .ok (.col c)

section

variable {β : Type} {l r : List β} {n : ℤ} {i : ℕ}

def cyclicIndex (len : ℕ) (n : ℤ) (i : ℕ) : ℕ := (((i : ℤ) + min n 0) % len).toNat

structure IsTaken (l : List β) (n : ℤ) (r : List β) : Prop where
  length : r.length = n.natAbs
  cell : ∀ i < n.natAbs, r[i]? = l[cyclicIndex l.length n i]?

lemma cyclicIndex_lt (hl : 0 < l.length) : cyclicIndex l.length n i < l.length := by
  have hpos : (0 : ℤ) < l.length := Int.natCast_pos.mpr hl
  have hlt := Int.emod_lt_of_pos ((i : ℤ) + min n 0) hpos
  have hnn := Int.emod_nonneg ((i : ℤ) + min n 0) hpos.ne'
  rw [cyclicIndex]
  omega

lemma cyclicIndex_nonneg (hn : 0 ≤ n) (len : ℕ) : cyclicIndex len n i = i % len := by
  rw [cyclicIndex, min_eq_right hn, add_zero, ← Int.natCast_mod, Int.toNat_natCast]

lemma cyclicIndex_neg {len : ℕ} (hlen : 0 < len) (hn : n < 0) (hi : i < n.natAbs) :
    cyclicIndex len n i = backIndex len n.natAbs i := by
  obtain ⟨k, hk⟩ : ∃ k, n.natAbs - i = k := ⟨_, rfl⟩
  have hsum : (i : ℤ) + min n 0 = -(k : ℤ) := by
    rw [min_eq_left hn.le]
    omega
  have hdiv : (k : ℤ) = (k / len : ℕ) * len + (k % len : ℕ) := by exact_mod_cast (Nat.div_add_mod' k len).symm
  have hlt := Nat.mod_lt k hlen
  rw [cyclicIndex, backIndex, hk, hsum]
  by_cases hzero : k % len = 0
  · have hdvd : (len : ℤ) ∣ -(k : ℤ) :=
      (Int.dvd_neg).mpr (Int.natCast_dvd_natCast.mpr (Nat.dvd_of_mod_eq_zero hzero))
    rw [Int.emod_eq_zero_of_dvd hdvd, hzero]
    simp
  · have hform : -(k : ℤ) = ((len - k % len : ℕ) : ℤ) + len * (-((k / len : ℕ) : ℤ) - 1) := by
      rw [Nat.cast_sub hlt.le, mul_sub, mul_neg, mul_one, mul_comm (len : ℤ)]
      omega
    have hsmall : ((len - k % len : ℕ) : ℤ) < len := by omega
    rw [hform, Int.add_mul_emod_self_left, Int.emod_eq_of_lt (Int.natCast_nonneg _) hsmall, Int.toNat_natCast,
      if_neg (by omega)]

lemma gather_taken (hl : 0 < l.length) (n : ℤ) : ∃ r, gather l n n.natAbs = some r ∧ IsTaken l n r := by
  have hplace : ∀ i < n.natAbs, (if 0 ≤ n then i % l.length else backIndex l.length n.natAbs i) =
      cyclicIndex l.length n i := by
    intro i hi
    split_ifs with hn
    · exact (cyclicIndex_nonneg hn _).symm
    · exact (cyclicIndex_neg hl (not_le.mp hn) hi).symm
  obtain ⟨r, hr, hlen, hcell⟩ :=
    @mapM_range β (fun i => l[if 0 ≤ n then i % l.length else backIndex l.length n.natAbs i]?) n.natAbs
    fun i hi => by
      rw [hplace i hi]
      exact ⟨_, getElem?_eq_getElem (cyclicIndex_lt hl)⟩
  exact ⟨r, hr, hlen, fun i hi => by rw [hcell i hi, hplace i hi]⟩

end

section

variable {β : Type} {src d e : List β} {count : ℕ}

def Tiled (src d : List β) : Prop := ∀ i < d.length, d[i]? = src[i % src.length]?

lemma Tiled.take (h : Tiled src d) (n : ℕ) : Tiled src (d.take n) := by
  intro i hi
  rw [length_take] at hi
  rw [getElem?_take_of_lt (by omega), h i (by omega)]

lemma Tiled.append (hd : Tiled src d) (he : Tiled src e) (hdvd : src.length ∣ d.length) : Tiled src (d ++ e) := by
  intro i hi
  rw [length_append] at hi
  by_cases hlt : i < d.length
  · rw [getElem?_append_left hlt, hd i hlt]
  · have hle := not_lt.mp hlt
    obtain ⟨k, hk⟩ := hdvd
    rw [getElem?_append_right hle, he _ (by omega), hk, Nat.sub_mul_mod (hk ▸ hle)]

lemma tiled_take (n : ℕ) (hn : n ≤ src.length) : Tiled src (src.take n) := by
  intro i hi
  rw [length_take] at hi
  rw [getElem?_take_of_lt (by omega), Nat.mod_eq_of_lt (by omega)]

lemma tileLoop_full {fuel : ℕ} (hd : count < d.length + d.length) : tileLoop count fuel d = d := by
  cases fuel with
  | zero => rfl
  | succ fuel => rw [tileLoop, if_neg (not_le.mpr hd)]

lemma tileLoop_tiled {fuel : ℕ} (hd : Tiled src d) (hdvd : src.length ∣ d.length) (hpos : 0 < d.length)
    (hle : d.length ≤ count)
    (hfuel : count ≤ fuel + d.length) :
      Tiled src (tileLoop count fuel d) ∧ src.length ∣ (tileLoop count fuel d).length ∧
      (tileLoop count fuel d).length ≤ count ∧
        count < (tileLoop count fuel d).length + (tileLoop count fuel d).length := by
  induction fuel generalizing d with
  | zero =>
    rw [tileLoop]
    exact ⟨hd, hdvd, hle, by omega⟩
  | succ fuel ih =>
    rw [tileLoop]
    split_ifs with htwice
    · refine ih (hd.append hd hdvd) ?_ ?_ ?_ ?_
      all_goals rw [length_append]
      · exact Nat.dvd_add hdvd hdvd
      · omega
      · exact htwice
      · omega
    · exact ⟨hd, hdvd, hle, not_le.mp htwice⟩

lemma tileCopy_tiled (hsrc : 0 < src.length) (hcount : 0 < count) :
    Tiled src (tileCopy src count) ∧ (tileCopy src count).length = count := by
  rw [tileCopy]
  by_cases hlt : count < src.length
  · have hlen : (src.take count).length = count := by rw [length_take, Nat.min_eq_left hlt.le]
    simp only [if_pos hlt]
    rw [tileLoop_full (by omega), hlen, Nat.sub_self, take_zero, append_nil]
    exact ⟨tiled_take count hlt.le, hlen⟩
  · have hle := not_lt.mp hlt
    have hstart : src.take src.length = src := take_length
    simp only [if_neg hlt, hstart]
    have htiled : Tiled src src := by simpa [hstart] using tiled_take src.length le_rfl
    obtain ⟨ht, hdvd, hfit, htwice⟩ :=
      @tileLoop_tiled β src src count count htiled (dvd_refl _) hsrc hle (Nat.le_add_right _ _)
    refine ⟨ht.append (ht.take _) hdvd, ?_⟩
    rw [length_append, length_take]
    omega

end

section

variable {v r : Vec} {place : ℕ → ℕ} {count i : ℕ}

lemma sentinel_nullCell {t : KeyType} {c : Payload} (h : sentinelIsNull t c = true) :
    sentinelIsNull t (nullCell t) = true := by
  cases t <;> first | rfl | (cases c <;> cases h)

lemma foldl_setNull (v r : Vec) (place : ℕ → ℕ) (js : List ℕ) :
    let r' := js.foldl (fun r i => if v.isNull (place i) then r.setNull i else r) r
    r'.type = r.type ∧ r'.cells.length = r.cells.length ∧
      r'.hasNulls = (r.hasNulls || js.any fun i => v.isNull (place i)) ∧
      ∀ i < r.cells.length, r'.cells[i]? = if i ∈ js ∧
        v.isNull (place i) = true then some (nullCell r.type) else r.cells[i]? := by
  induction js generalizing r with
  | nil => simp
  | cons j js ih =>
    rw [foldl_cons]
    split_ifs with hj
    · obtain ⟨htype, hlen, hnulls, hcell⟩ := ih (r.setNull j)
      have hset : (r.setNull j).cells.length = r.cells.length := length_set
      refine ⟨htype, hlen.trans hset, by rw [hnulls]; simp [Vec.setNull, hj], fun i hi => ?_⟩
      rw [hcell i (hset ▸ hi)]
      by_cases hij : i = j
      · subst hij
        simp [Vec.setNull, hj, hi]
      · simp [Vec.setNull, hij, getElem?_set_ne (Ne.symm hij)]
    · obtain ⟨htype, hlen, hnulls, hcell⟩ := ih r
      refine ⟨htype, hlen, by rw [hnulls]; simp [hj], fun i hi => ?_⟩
      rw [hcell i hi]
      by_cases hij : i = j
      · subst hij
        simp [hj]
      · simp [hij]

lemma elems_getElem? (v : Vec) (i : ℕ) :
    v.elems[i]? = v.cells[i]?.map fun c => if v.hasNulls && sentinelIsNull v.type c then none else some c := by
  rw [Vec.elems, getElem?_map]

lemma copyNulls_elems (htype : r.type = v.type) (hflag : r.hasNulls = false) (hlen : r.cells.length = count)
    (hplace : ∀ i < count, place i < v.cells.length) (hcell : ∀ i < count, r.cells[i]? = v.cells[place i]?) :
    (copyNulls v place count r).type = v.type ∧ (copyNulls v place count r).elems.length = count ∧
      ∀ i < count, (copyNulls v place count r).elems[i]? = v.elems[place i]? := by
  rw [copyNulls]
  by_cases hnulls : v.hasNulls = true
  · obtain ⟨htype', hlen', hflag', hcell'⟩ := foldl_setNull v r place (range count)
    rw [if_pos hnulls]
    refine ⟨htype'.trans htype, by rw [Vec.elems, length_map, hlen', hlen], fun i hi => ?_⟩
    obtain ⟨c, hc⟩ : ∃ c, v.cells[place i]? = some c := ⟨_, getElem?_eq_getElem (hplace i hi)⟩
    have hnull : v.isNull (place i) = sentinelIsNull v.type c := by
      rw [Vec.isNull, hc, hnulls, Bool.true_and, elim_some]
    rw [elems_getElem?, elems_getElem?, hcell' i (hlen.symm ▸ hi), htype', hcell i hi, hc, htype, hnulls, hnull]
    by_cases hs : sentinelIsNull v.type c = true
    · have hany : ((range count).any fun i => v.isNull (place i)) = true :=
        any_eq_true.mpr ⟨i, mem_range.mpr hi, hnull.trans hs⟩
      rw [hflag', hany, Bool.or_true, if_pos ⟨mem_range.mpr hi, hs⟩]
      simp [sentinel_nullCell hs, hs]
    · rw [if_neg fun h => hs h.2]
      simp [hs]
  · have hfalse := Bool.eq_false_of_not_eq_true hnulls
    rw [if_neg hnulls]
    refine ⟨htype, by rw [Vec.elems, length_map, hlen], fun i hi => ?_⟩
    rw [elems_getElem?, elems_getElem?, hcell i hi, hflag, hfalse]
    rfl

end

section

variable {α : Type} {n : ℤ}

lemma absN_eq (hn : n ≠ -2 ^ 63) : absN n = some n.natAbs := if_neg hn

lemma takeVec_taken (v : Vec) (hn : n ≠ -2 ^ 63) (hv : 0 < v.cells.length) :
    ∃ r, takeVec v n = some r ∧ r.type = v.type ∧ IsTaken v.elems n r.elems := by
  have hne : ¬ v.cells.length = 0 := hv.ne'
  have hlen : v.elems.length = v.cells.length := length_map _
  have hcells : ∃ cells, (if 0 ≤ n then some (if 0 < n.natAbs then tileCopy v.cells n.natAbs else [])
      else gather v.cells n n.natAbs) = some cells ∧ IsTaken v.cells n cells := by
    by_cases hnn : 0 ≤ n
    · refine ⟨if 0 < n.natAbs then tileCopy v.cells n.natAbs else [], if_pos hnn, ?_⟩
      by_cases hpos : 0 < n.natAbs
      · obtain ⟨htiled, hcount⟩ := tileCopy_tiled hv hpos
        rw [if_pos hpos]
        exact ⟨hcount, fun i hi => by rw [htiled i (hcount.symm ▸ hi), cyclicIndex_nonneg hnn]⟩
      · rw [if_neg hpos]
        exact ⟨by rw [length_nil]; omega, fun i hi => absurd hi (by omega)⟩
    · rw [if_neg hnn]
      exact gather_taken hv n
  obtain ⟨cells, hget, htaken⟩ := hcells
  have hplace : ∀ i < n.natAbs, (if 0 ≤ n then i % v.cells.length else backIndex v.cells.length n.natAbs i) =
      cyclicIndex v.cells.length n i := by
    intro i hi
    split_ifs with hnn
    · exact (cyclicIndex_nonneg hnn _).symm
    · exact (cyclicIndex_neg hv (not_le.mp hnn) hi).symm
  obtain ⟨htype, hcount, helems⟩ := @copyNulls_elems v ⟨v.type, v.width, cells, [], false⟩
    (fun i => if 0 ≤ n then i % v.cells.length else backIndex v.cells.length n.natAbs i) n.natAbs rfl
      rfl htaken.length
    (fun i hi => by rw [hplace i hi]; exact cyclicIndex_lt hv)
      (fun i hi => by rw [hplace i hi]; exact htaken.cell i hi)
  refine ⟨_, ?_, htype, hcount, fun i hi => ?_⟩
  · rw [takeVec, absN_eq hn, bind_some, if_neg hne, hget, map_some]
  · rw [helems i hi, hplace i hi, hlen]

lemma takeList_taken (l : List α) (hn : n ≠ -2 ^ 63) (hl : 0 < l.length) :
    ∃ r, takeList l n = some r ∧ IsTaken l n r := by
  obtain ⟨r, hr, htaken⟩ := gather_taken hl n
  exact ⟨r, by rw [takeList, absN_eq hn, bind_some, if_neg hl.ne', hr], htaken⟩

lemma takeStr_taken (s : Bytes) (hn : n ≠ -2 ^ 63) (hs : 0 < s.length) (hfit : n.natAbs ≤ 8192) :
    ∃ r, takeStr s n = some (.ok r) ∧ IsTaken s n r := by
  rw [takeStr, absN_eq hn, bind_some, if_neg (not_lt.mpr hfit)]
  rcases s with _ | ⟨c, _ | ⟨d, s⟩⟩
  · exact absurd hs (lt_irrefl 0)
  · refine ⟨_, rfl, length_replicate, fun i hi => ?_⟩
    have hlt := @cyclicIndex_lt _ [c] n i one_pos
    rw [length_singleton, Nat.lt_one_iff] at hlt
    rw [getElem?_replicate_of_lt hi, length_singleton, hlt]
    rfl
  · obtain ⟨r, hr, htaken⟩ := gather_taken hs n
    refine ⟨r, ?_, htaken⟩
    dsimp only
    rw [hr, map_some]

end

section

variable {α β : Type} {start amount : ℤ}

def sliced (l : List β) (start amount : ℤ) : List β := (l.drop (clampStart l.length start)).take amount.toNat

def RangeFits (len : ℕ) (start amount : ℤ) : Prop :=
  len ≤ clampStart len start ∨ clampStart len start + amount < 2 ^ 63

lemma take_rangeEnd {l : List β} {first stop : ℕ} (hamount : 0 ≤ amount)
    (hstop : rangeEnd l.length first amount = some stop) :
    (l.drop first).take (stop - first) = (l.drop first).take amount.toNat := by
  rw [rangeEnd] at hstop
  split_ifs at hstop with hfit hlong
  · cases hstop
    rw [take_of_length_le (by rw [length_drop]), take_of_length_le (by rw [length_drop]; omega)]
  · cases hstop
    congr 1
    omega

lemma rangeEnd_some (len : ℕ) {first : ℕ} (h : first + amount < 2 ^ 63) :
    ∃ stop, rangeEnd len first amount = some stop := ⟨_, if_pos h⟩

lemma rangeEnd_bounds {len first stop : ℕ} (hamount : 0 ≤ amount) (hfirst : first ≤ len)
    (hstop : rangeEnd len first amount = some stop) :
    first ≤ stop ∧ stop ≤ len := by
  rw [rangeEnd] at hstop
  split_ifs at hstop with hfit hlong <;>
  · cases hstop
    omega

lemma rangeCells_sliced (l : List β) (hamount : 0 ≤ amount) (hfit : RangeFits l.length start amount) :
    rangeCells l start amount = some (sliced l start amount) := by
  rw [rangeCells, sliced]
  by_cases hout : l.length ≤ clampStart l.length start
  · rw [if_pos hout, drop_of_length_le hout, take_nil]
  · obtain ⟨stop, hstop⟩ := rangeEnd_some l.length (hfit.resolve_left hout)
    rw [if_neg hout, hstop, map_some, take_rangeEnd hamount hstop]

lemma rangeVec_sliced (v : Vec) (hamount : 0 ≤ amount) (hfit : RangeFits v.cells.length start amount) :
    ∃ r, rangeVec v start amount = some r ∧ r.type = v.type ∧ r.elems = sliced v.elems start amount := by
  have hlen : v.elems.length = v.cells.length := length_map _
  rw [rangeVec]
  by_cases hout : v.cells.length ≤ clampStart v.cells.length start
  · refine ⟨_, if_pos hout, rfl, ?_⟩
    rw [sliced, hlen, drop_of_length_le (by rwa [hlen]), take_nil]
    rfl
  · obtain ⟨stop, hstop⟩ := rangeEnd_some v.cells.length (hfit.resolve_left hout)
    obtain ⟨count, hcount⟩ : ∃ count, stop - clampStart v.cells.length start = count := ⟨_, rfl⟩
    have htake := take_rangeEnd hamount hstop
    rw [hcount] at htake
    have hbounds := rangeEnd_bounds hamount (not_le.mp hout).le hstop
    have hcells : ((v.cells.drop (clampStart v.cells.length start)).take count).length = count := by
      rw [length_take, length_drop]
      omega
    obtain ⟨htype, helen, helems⟩ := @copyNulls_elems v
      ⟨v.type, v.width, (v.cells.drop (clampStart v.cells.length start)).take count, [], false⟩
      (fun i => clampStart v.cells.length start + i) count rfl rfl hcells (fun i hi => by omega) fun i hi => by
        rw [getElem?_take_of_lt hi, getElem?_drop]
    refine ⟨_, ?_, htype, ?_⟩
    · rw [if_neg hout, hstop, map_some, hcount]
    · have hslice : sliced v.elems start amount = (v.elems.drop (clampStart v.cells.length start)).take count := by
        rw [sliced, hlen, Vec.elems, ← map_drop, ← map_take, ← htake, map_take]
      rw [hslice]
      apply ext_getElem?
      intro i
      by_cases hi : i < count
      · rw [helems i hi, getElem?_take_of_lt hi, getElem?_drop]
      · rw [getElem?_eq_none (by omega), getElem?_eq_none]
        rw [length_take]
        omega

def Column.Sliced (start amount : ℤ) : Column α → Column α → Prop
  | .vec v, .vec r => r.type = v.type ∧ r.elems = sliced v.elems start amount
  | .list l, .list r => r = sliced l start amount
  | _, _ => False

lemma Column.take_range (c : Column α) (hamount : 0 ≤ amount) (hfit : RangeFits c.len start amount) :
    ∃ r, c.take (.range start amount) = some r ∧ c.Sliced start amount r := by
  cases c with
  | vec v =>
    obtain ⟨r, hr, htype, helems⟩ := rangeVec_sliced v hamount hfit
    exact ⟨.vec r, by rw [Column.take, hr, map_some], htype, helems⟩
  | list l => exact ⟨.list (sliced l start amount),
    by rw [Column.take, rangeCells_sliced l hamount hfit, map_some], rfl⟩

/-- The view that `ray_vec_slice` makes starts where the range does, or shows nothing. -/
def Column.Slices (start amount : ℤ) : Column α → Prop
  | .vec v => v.type = .sym → v.width = .w64 ∨ clampStart v.cells.length start = 0 ∨
    sliced v.cells start amount = []
  | .list _ => True

lemma Vec.slice_cells {v : Vec} {offset len : ℕ} (hfit : offset + len ≤ v.cells.length)
    (hstart : len = 0 ∨ v.sliceStart offset = offset) :
    ∃ r, v.slice offset len = some r ∧ r.type = v.type ∧ r.hasNulls = v.hasNulls ∧
      r.cells = (v.cells.drop offset).take len := by
  have hin : len = 0 ∨ v.sliceStart offset + len ≤ (v.cells ++ v.beyond).length := by
    rw [length_append]
    omega
  refine ⟨_, if_pos hin, rfl, rfl, ?_⟩
  rcases hstart with rfl | hstart
  · rw [take_zero, take_zero]
  · dsimp only
    rw [hstart, drop_append_of_le_length (by omega), take_append_of_le_length (by rw [length_drop]; omega)]

lemma Column.slice_sliced (c : Column α) {stop : ℕ} (hamount : 0 ≤ amount)
    (hfirst : clampStart c.len start ≤ c.len)
    (hstop : rangeEnd c.len (clampStart c.len start) amount = some stop) (hslices : c.Slices start amount) :
    ∃ r, c.slice (clampStart c.len start) (stop - clampStart c.len start) = some (.ok r) ∧
      c.Sliced start amount r := by
  obtain ⟨hle, hlen⟩ := rangeEnd_bounds hamount hfirst hstop
  have hfit : ¬ (c.len < clampStart c.len start ∨
    c.len - clampStart c.len start < stop - clampStart c.len start) := by omega
  cases c with
  | vec v =>
    rw [Column.len] at hstop hfirst hle hlen hfit ⊢
    have htake := take_rangeEnd hamount hstop
    have hstart : stop - clampStart v.cells.length start = 0 ∨
        v.sliceStart (clampStart v.cells.length start) = clampStart v.cells.length start := by
      rw [Vec.sliceStart]
      split_ifs with hsym
      · rcases hslices hsym with hwide | hzero | hnone
        · exact .inr (by rw [hwide]; exact mul_one _)
        · exact .inr (by rw [hzero, zero_mul])
        · rw [sliced, ← htake] at hnone
          have hcount := congrArg length hnone
          rw [length_take, length_drop, length_nil] at hcount
          exact .inl (by omega)
      · exact .inr rfl
    obtain ⟨r, hr, htype, hnulls, hcells⟩ := Vec.slice_cells (v := v) (by omega) hstart
    refine ⟨.vec r, (if_neg hfit).trans ?_, htype, ?_⟩
    · dsimp only
      rw [hr, map_some]
    rw [Vec.elems, hcells, htype, hnulls, htake, sliced, Vec.elems, map_take, map_drop, length_map]
  | list l => exact ⟨_, if_neg hfit, take_rangeEnd hamount hstop⟩

end

section

variable {α : Type} {n start amount : ℤ}

def Column.Taken (n : ℤ) : Column α → Column α → Prop
  | .vec v, .vec r =>
    r.type = v.type ∧
      if v.cells.length = 0 then r.cells = List.replicate n.natAbs (zeroCell v.type) ∧
        r.hasNulls = false else IsTaken v.elems n r.elems
  | .list l, .list r => if l.length = 0 then r = [] else IsTaken l n r
  | _, _ => False

def StrTaken (n : ℤ) (s r : Bytes) : Prop := if s.length = 0 then r = [] else IsTaken s n r

/-- Strings are related by `S`, columns by `R`. -/
inductive Coll.Related (S : Bytes → Bytes → Prop) (R : Column α → Column α → Prop) : Coll α → Coll α → Prop
  | str {s t : Bytes} : S s t → Related S R (.str s) (.str t)
  | col {c d : Column α} : R c d → Related S R (.col c) (.col d)
  | table {cs ds : List (ℤ × Column α)} : List.Forall₂ (fun c d => d.1 = c.1 ∧ R c.2 d.2) cs ds →
    Related S R (.table cs) (.table ds)
  | dict {k k' v v' : Column α} : R k k' → R v v' → Related S R (.dict k v) (.dict k' v')

def Coll.RangeFits (start amount : ℤ) : Coll α → Prop
  | .str s => Collection.RangeFits s.length start amount
  | .col c => Collection.RangeFits c.len start amount
  | .table cols => ∀ c ∈ cols, Collection.RangeFits c.2.len start amount
  | .dict keys vals => keys.len = vals.len ∧ clampStart keys.len start ≤ keys.len ∧
    clampStart keys.len start + amount < 2 ^ 63 ∧
      keys.Slices start amount ∧ vals.Slices start amount

lemma Column.take_atom (c : Column α) (hn : n ≠ -2 ^ 63) : ∃ r, c.take (.atom n) = some r ∧ c.Taken n r := by
  cases c with
  | vec v =>
    by_cases hv : v.cells.length = 0
    · refine ⟨.vec ⟨v.type, v.width, replicate n.natAbs (zeroCell v.type), [], false⟩, ?_, rfl,
        (if_pos hv).mpr ⟨rfl, rfl⟩⟩
      rw [Column.take, takeVec, absN_eq hn, bind_some, if_pos hv, map_some]
    · obtain ⟨r, hr, htype, htaken⟩ := takeVec_taken v hn (Nat.pos_of_ne_zero hv)
      exact ⟨.vec r, by rw [Column.take, hr, map_some], htype, (if_neg hv).mpr htaken⟩
  | list l =>
    by_cases hl : l.length = 0
    · refine ⟨.list [], ?_, (if_pos hl).mpr rfl⟩
      rw [Column.take, takeList, absN_eq hn, bind_some, if_pos hl, map_some]
    · obtain ⟨r, hr, htaken⟩ := takeList_taken l hn (Nat.pos_of_ne_zero hl)
      exact ⟨.list r, by rw [Column.take, hr, map_some], (if_neg hl).mpr htaken⟩

lemma takeStr_strTaken (s : Bytes) (hn : n ≠ -2 ^ 63) (hfit : n.natAbs ≤ 8192) :
    ∃ r, takeStr s n = some (.ok r) ∧ StrTaken n s r := by
  by_cases hs : s.length = 0
  · refine ⟨[], ?_, (if_pos hs).mpr rfl⟩
    rw [length_eq_zero_iff.mp hs, takeStr, absN_eq hn, bind_some, if_neg (not_lt.mpr hfit)]
  · obtain ⟨r, hr, htaken⟩ := takeStr_taken s hn (Nat.pos_of_ne_zero hs) hfit
    exact ⟨r, hr, (if_neg hs).mpr htaken⟩

lemma takeCols_related {cols : List (ℤ × Column α)} {k : Count} {R : Column α → Column α → Prop}
    (h : ∀ c ∈ cols, ∃ r, c.2.take k = some r ∧ R c.2 r) :
    ∃ cols', takeCols cols k = some cols' ∧ List.Forall₂ (fun c d => d.1 = c.1 ∧ R c.2 d.2) cols cols' := by
  apply mapM_some_rel
  intro c hc
  obtain ⟨r, hr, hrel⟩ := h c hc
  exact ⟨(c.1, r), by rw [hr, map_some], rfl, hrel⟩

lemma rayTakeFn_atom (c : Coll α) (hn : n ≠ -2 ^ 63) (hfit : ∀ s, c = .str s → n.natAbs ≤ 8192) :
    ∃ r, rayTakeFn c (.atom n) = some (.ok r) ∧ c.Related (StrTaken n) (Column.Taken n) r := by
  cases c with
  | str s =>
    obtain ⟨r, hr, htaken⟩ := takeStr_strTaken s hn (hfit s rfl)
    exact ⟨.str r, by rw [rayTakeFn, hr]; rfl, .str htaken⟩
  | col c =>
    obtain ⟨r, hr, htaken⟩ := c.take_atom hn
    exact ⟨.col r, by rw [rayTakeFn, hr, map_some], .col htaken⟩
  | table cols =>
    obtain ⟨r, hr, htaken⟩ := takeCols_related fun c (_ : c ∈ cols) => c.2.take_atom hn
    exact ⟨.table r, by rw [rayTakeFn, hr, map_some], .table htaken⟩
  | dict keys vals =>
    obtain ⟨k, hk, hktaken⟩ := keys.take_atom hn
    obtain ⟨v, hv, hvtaken⟩ := vals.take_atom hn
    exact ⟨.dict k v, by rw [rayTakeFn, hk, hv, bind_some, map_some], .dict hktaken hvtaken⟩

lemma copy_slice (l : List α) {first count : ℕ} (h : first + count ≤ l.length) :
    ((List.range count).mapM fun i => l[first + i]?) = some ((l.drop first).take count) := by
  obtain ⟨bs, hbs, hlen, hcell⟩ :=
    @mapM_range α (fun i => l[first + i]?) count fun i hi => ⟨_, getElem?_eq_getElem (by omega)⟩
  rw [hbs]
  congr 1
  apply ext_getElem?
  intro i
  by_cases hi : i < count
  · rw [hcell i hi, getElem?_take_of_lt hi, getElem?_drop]
  · rw [getElem?_eq_none (by omega), getElem?_eq_none]
    rw [length_take]
    omega

lemma rangeDict_sliced (keys vals : Column α) (hamount : 0 ≤ amount)
    (hfit : (Coll.dict keys vals).RangeFits start amount) :
    ∃ k v, rangeDict keys vals start amount = some (.ok (.dict k v)) ∧ keys.Sliced start amount k ∧
      vals.Sliced start amount v := by
  obtain ⟨hlen, hinside, hsum, hkeys, hvals⟩ := hfit
  obtain ⟨stop, hstop⟩ := rangeEnd_some keys.len hsum
  obtain ⟨hfirst, hle⟩ := rangeEnd_bounds hamount hinside hstop
  obtain ⟨k, hk, hksliced⟩ := keys.slice_sliced hamount hinside hstop hkeys
  obtain ⟨v, hv, hvsliced⟩ := vals.slice_sliced hamount (hlen ▸ hinside) (hlen ▸ hstop) hvals
  have hstart : (if stop < clampStart keys.len start then clampStart keys.len start else stop) = stop :=
    if_neg (not_lt.mpr hfirst)
  refine ⟨k, v, ?_, hksliced, hvsliced⟩
  rw [← hlen] at hv
  rw [rangeDict, hstop, bind_some, hstart]
  dsimp only
  rw [hk, bind_some]
  cases vals with
  | vec w =>
    dsimp only
    rw [hv]
    rfl
  | list l =>
    have hcopy := @copy_slice α l (clampStart keys.len start) (stop - clampStart keys.len start) (by
      rw [Column.len] at hlen
      omega)
    have hin : ¬ ((Column.list l).len < clampStart keys.len start ∨
        (Column.list l).len - clampStart keys.len start < stop - clampStart keys.len start) := by omega
    rw [Column.slice, if_neg hin] at hv
    cases hv
    dsimp only
    rw [hcopy, map_some]

lemma rayTakeFn_range (c : Coll α) (hamount : 0 ≤ amount) (hfit : c.RangeFits start amount) :
    ∃ r, rayTakeFn c (.range start amount) = some (.ok r) ∧
      c.Related (fun s t => t = sliced s start amount) (Column.Sliced start amount) r := by
  cases c with
  | str s =>
    exact ⟨.str (sliced s start amount),
      by rw [rayTakeFn, if_neg (not_lt.mpr hamount), rangeCells_sliced s hamount hfit, map_some], .str rfl⟩
  | col c =>
    obtain ⟨r, hr, hsliced⟩ := c.take_range hamount hfit
    exact ⟨.col r, by rw [rayTakeFn, if_neg (not_lt.mpr hamount), hr, map_some], .col hsliced⟩
  | table cols =>
    obtain ⟨r, hr, hsliced⟩ := takeCols_related fun c hc => c.2.take_range hamount (hfit c hc)
    exact ⟨.table r, by rw [rayTakeFn, if_neg (not_lt.mpr hamount), hr, map_some], .table hsliced⟩
  | dict keys vals =>
    obtain ⟨k, v, hdict, hk, hv⟩ := rangeDict_sliced keys vals hamount hfit
    exact ⟨.dict k v, by rw [rayTakeFn, if_neg (not_lt.mpr hamount), hdict], .dict hk hv⟩

lemma IsTaken.unique {β : Type} {l r r' : List β} (h : IsTaken l n r) (h' : IsTaken l n r') : r = r' := by
  apply ext_getElem?
  intro i
  by_cases hi : i < n.natAbs
  · rw [h.cell i hi, h'.cell i hi]
  · rw [getElem?_eq_none (by rw [h.length]; omega), getElem?_eq_none (by rw [h'.length]; omega)]

lemma takeVec_eq_takeList (v : Vec) (hn : n ≠ -2 ^ 63) (hv : 0 < v.cells.length) :
    ∃ r, takeVec v n = some r ∧ takeList v.elems n = some r.elems := by
  obtain ⟨r, hr, -, htaken⟩ := takeVec_taken v hn hv
  obtain ⟨l, hl, htakenl⟩ := takeList_taken v.elems hn (by rwa [Vec.elems, length_map])
  exact ⟨r, hr, hl.trans (congrArg some (htakenl.unique htaken))⟩

/-- What `take` gives for a count and for a range, over every kind. -/
theorem take_laws (hn : n ≠ -2 ^ 63) (hamount : 0 ≤ amount) :
    (∀ c : Coll α, (∀ s, c = .str s → n.natAbs ≤ 8192) →
      ∃ r, rayTakeFn c (.atom n) = some (.ok r) ∧ c.Related (StrTaken n) (Column.Taken n) r) ∧
    (8192 < n.natAbs → ∀ s, rayTakeFn (.str s : Coll α) (.atom n) = some (.error .limit)) ∧
    (∀ v : Vec, 0 < v.cells.length → ∃ r : Vec, rayTakeFn (.col (.vec v)) (.atom n) =
      some (.ok (.col (.vec r) : Coll (Option Payload))) ∧
      rayTakeFn (.col (.list v.elems)) (.atom n) = some (.ok (.col (.list r.elems)))) ∧
    ∀ c : Coll α, c.RangeFits start amount → ∃ r, rayTakeFn c (.range start amount) = some (.ok r) ∧
      c.Related (fun s t => t = sliced s start amount) (Column.Sliced start amount) r := by
  refine ⟨fun c hfit => rayTakeFn_atom c hn hfit, fun hlong s => ?_, fun v hv => ?_, fun c hfit =>
    rayTakeFn_range c hamount hfit⟩
  · rw [rayTakeFn, takeStr, absN_eq hn, bind_some, if_pos hlong]
    rfl
  · obtain ⟨r, hr, hl⟩ := takeVec_eq_takeList v hn hv
    refine ⟨r, ?_, ?_⟩
    · rw [rayTakeFn, Column.take, hr]
      rfl
    · rw [rayTakeFn, Column.take, hl]
      rfl

/-- Two `i16` cells and three bytes of a string. -/
theorem take_laws_backwards : (∀ c : Coll ℕ, (∀ s, c = .str s → (-3 : ℤ).natAbs ≤ 8192) →
      ∃ r, rayTakeFn c (.atom (-3)) = some (.ok r) ∧ c.Related (StrTaken (-3)) (Column.Taken (-3)) r) ∧
    (∃ r, rayTakeFn (.col (.vec ⟨.i16, .w64, [.int 7, .int (-2 ^ 15)], [], true⟩)) (.atom (-3)) =
      some (.ok (.col (.vec r) : Coll (Option Payload))) ∧
      rayTakeFn (.col (.list [some (.int 7), none])) (.atom (-3)) = some (.ok (.col (.list r.elems)))) ∧
    ∃ r, rayTakeFn (.str [97, 98, 99] : Coll ℕ) (.range (-2) 5) = some (.ok r) ∧
      (Coll.str [97, 98, 99]).Related (fun s t => t = sliced s (-2) 5) (Column.Sliced (-2) 5) r :=
  have h := @take_laws ℕ (-3) (-2) 5 (by decide) (by decide)
  ⟨h.1, h.2.2.1 ⟨.i16, .w64, [.int 7, .int (-2 ^ 15)], [], true⟩ (by decide),
    h.2.2.2 (.str [97, 98, 99]) (Or.inr (by decide))⟩

/-- A string is taken through a buffer of 8192 bytes. -/
theorem str_take_limit : rayTakeFn (.str [97, 98] : Coll ℕ) (.atom 8193) = some (.error .limit) ∧
      ¬ ∀ (c : Coll ℕ) (n : ℤ), n ≠ -2 ^ 63 → ∃ r, rayTakeFn c (.atom n) = some (.ok r) := by
  have hlimit : rayTakeFn (.str [97, 98] : Coll ℕ) (.atom 8193) = some (.error .limit) := by
    rw [rayTakeFn, takeStr, absN_eq (by decide), bind_some, if_pos (by decide)]
    rfl
  refine ⟨hlimit, fun h => ?_⟩
  obtain ⟨r, hr⟩ := h (.str [97, 98]) 8193 (by decide)
  rw [hlimit] at hr
  cases hr

end

end Rayforce.Collection
