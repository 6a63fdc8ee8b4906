import Rayforce.Library.Sequences
import Rayforce.Temporal.Extract

/-! `win_compute_partition` of `ops/window.c`. -/

namespace Rayforce.Window

open Library.Words Library.Binary64 Library.Sequences Option Function
open Rayforce.Temporal (wrap64)

/-- `other` is a type that `win_keys_differ` does not compare. -/
inductive KeyCol
  | int (cell : ℕ → ℤ)
  | real (cell : ℕ → Double)
  | str (cell : ℕ → Bytes)
  | other (cell : ℕ → Bytes)

def KeyCol.differ : KeyCol → ℕ → ℕ → Bool
  | .int cell, ra, rb => cell ra != cell rb
  | .real cell, ra, rb => !(cell ra).eq (cell rb)
  | .str cell, ra, rb => cell ra != cell rb
  | .other _, _, _ => false

def winKeysDiffer (vecs : List (Option KeyCol)) (ra rb : ℕ) : Bool :=
  vecs.any fun c => c.elim false (·.differ ra rb)

/-- `ray_vec_is_null` and the value that is read. -/
structure Vec (γ : Type) where
  isNull : ℕ → Bool
  read : ℕ → γ

inductive Bound
  | unboundedPreceding | nPreceding | currentRow | nFollowing | unboundedFollowing
  deriving DecidableEq

inductive FrameType
  | rows | range
  deriving DecidableEq

structure Frame where
  type : FrameType
  start : Bound
  stop : Bound
  startN : ℤ
  fits : startN < 2 ^ 63

namespace Frame

def whole (fr : Frame) : Bool := fr.start = .unboundedPreceding && fr.stop = .unboundedFollowing

def trailing (fr : Frame) : Bool := fr.start = .nPreceding && fr.stop = .currentRow

def supported (fr : Frame) : Bool :=
  fr.whole || (fr.start = .unboundedPreceding && fr.stop = .currentRow && fr.type = .rows) ||
    (fr.trailing && fr.type = .rows && 0 ≤ fr.startN)

end Frame

inductive Func (γ : Type)
  | rowNumber
  | rank
  | denseRank
  | ntile (param : ℤ)
  | count
  | sum (fvec : Option (Vec ℤ))
  | sumReal (fvec : Option (Vec Double))
  | avg (fvec : Option (Vec Double))
  | best (wantMax : Bool) (fvec : Option (Vec γ))
  | lag (param : ℤ) (fvec : Option (Vec γ))
  | lead (param : ℤ) (fvec : Option (Vec γ))
  | firstValue (fvec : Option (Vec γ))
  | lastValue (fvec : Option (Vec γ))
  | nthValue (param : ℤ) (fvec : Option (Vec γ))

inductive Cell (γ : Type)
  | null
  | val (v : γ)
  | int (n : ℤ)
  | real (d : Double)
  deriving DecidableEq

def i64 (x : ℤ) : Option ℤ := if -2 ^ 63 ≤ x ∧ x < 2 ^ 63 then some x else none

def finCell {γ : Type} (d : Double) : Cell γ := if d.isNaN || d.isInf then .null else .real d

def cellAt {γ : Type} (fvec : Vec γ) (row : ℕ) : Cell γ := if fvec.isNull row then .null else .val (fvec.read row)

structure Part where
  sortedIdx : ℕ → ℕ
  ps : ℕ
  pe : ℕ

namespace Part

variable {γ σ : Type} (p : Part)

def len : ℕ := p.pe - p.ps

def places : List ℕ := List.range' p.ps p.len

def row (k : ℤ) : Option ℕ := if p.ps ≤ k ∧ k < p.pe then some (p.sortedIdx k.toNat) else none

def each (step : ℕ → σ → Option (σ × Cell γ)) : List ℕ → σ → (ℕ → Cell γ) → Option (ℕ → Cell γ)
  | [], _, out => some out
  | i :: is, s, out =>
    (step i s).bind fun r => (p.row i).bind fun row => each step is r.1 (Function.update out row r.2)

def every (cell : ℕ → Option (Cell γ)) : (ℕ → Cell γ) → Option (ℕ → Cell γ) :=
  p.each (fun i (_ : Unit) => (cell i).map ((), ·)) p.places ()

def rankStep (orderVecs : List (Option KeyCol)) (next : ℕ → ℤ → ℤ) (i : ℕ) (rank : ℤ) : Option (ℤ × Cell γ) :=
  (p.row (i - 1 : ℕ)).bind fun ra => (p.row i).bind fun rb =>
    let rank := if winKeysDiffer orderVecs ra rb then next i rank else rank
    some (rank, .int rank)

def rankLoop (orderVecs : List (Option KeyCol)) (next : ℕ → ℤ → ℤ) (out : ℕ → Cell γ) : Option (ℕ → Cell γ) :=
  (p.row p.ps).bind fun first =>
    p.each (p.rankStep orderVecs next) (List.range' (p.ps + 1) (p.len - 1)) 1 (Function.update out first (.int 1))

def addCell (fvec : Vec ℤ) (sign : ℤ) (acc : ℤ) (k : ℤ) : Option ℤ :=
  (p.row k).map fun row => if fvec.isNull row then acc else wrap64 (acc + sign * fvec.read row)

def sumStep (fr : Frame) (fvec : Vec ℤ) (i : ℕ) (acc : ℤ) : Option (ℤ × Cell γ) :=
  (p.addCell fvec 1 acc i).bind fun acc =>
    (if fr.trailing then
      (i64 (i - fr.startN)).bind fun x => (i64 (x - 1)).bind fun drop =>
        if p.ps ≤ drop then p.addCell fvec (-1) acc drop else some acc
    else some acc).map fun acc => (acc, .int acc)

def sum (fr : Frame) (fvec : Vec ℤ) (out : ℕ → Cell γ) : Option (ℕ → Cell γ) :=
  if fr.whole then
    (p.places.foldlM (fun total i => p.addCell fvec 1 total (i : ℕ)) 0).bind fun total =>
      p.every (fun _ => some (.int total)) out
  else p.each (p.sumStep fr fvec) p.places 0 out

def pushReal (fvec : Vec Double) (s : Double × ℤ) (k : ℤ) : Option (Double × ℤ) :=
  (p.row k).map fun row => if fvec.isNull row then s else (s.1.add (fvec.read row), s.2 + 1)

def popReal (fvec : Vec Double) (s : Double × ℤ) (k : ℤ) : Option (Double × ℤ) :=
  (p.row k).map fun row => if fvec.isNull row then s else (s.1.sub (fvec.read row), s.2 - 1)

def realStep (finish : Double × ℤ → Cell γ) (fr : Frame) (fvec : Vec Double) (i : ℕ) (s : Double × ℤ) :
    Option ((Double × ℤ) × Cell γ) :=
  (p.pushReal fvec s i).bind fun s =>
    (if fr.trailing then
      (i64 (i - fr.startN)).bind fun x => (i64 (x - 1)).bind fun drop =>
        if p.ps ≤ drop then p.popReal fvec s drop else some s
    else some s).map fun s => (s, finish s)

def real (finish : Double × ℤ → Cell γ) (fr : Frame) (fvec : Vec Double) (out : ℕ → Cell γ) :
    Option (ℕ → Cell γ) :=
  if fr.whole then
    (p.places.foldlM (fun s i => p.pushReal fvec s (i : ℕ)) (.zero, 0)).bind fun s =>
      p.every (fun _ => some (finish s)) out
  else p.each (p.realStep finish fr fvec) p.places (.zero, 0) out

def sumFinish (s : Double × ℤ) : Cell γ := finCell s.1

def avgFinish (s : Double × ℤ) : Cell γ := if 0 < s.2 then finCell (s.1.div (.ofInt s.2)) else .null

def count (fr : Frame) (out : ℕ → Cell γ) : Option (ℕ → Cell γ) :=
  if fr.whole then p.every (fun _ => some (.int p.len)) out
  else if fr.trailing then
    (i64 (fr.startN + 1)).bind fun width =>
      p.every (fun i => let seen : ℤ := i - p.ps + 1; some (.int (if seen < width then seen else width))) out
  else p.every (fun i => some (.int (i - p.ps + 1))) out

def frameLo (fr : Frame) (i : ℕ) : Option ℕ :=
  if fr.trailing then (i64 (i - fr.startN)).map fun (lo : ℤ) => if lo < p.ps then p.ps else lo.toNat
  else some p.ps

section

variable [LinearOrder γ] (wantMax : Bool) (fvec : Vec γ)

def better (best : Option γ) (v : γ) : Option γ :=
  if best.elim true (fun b => if wantMax then b < v else v < b) then some v else best

def scanCell (best : Option γ) (j : ℕ) : Option (Option γ) :=
  (p.row j).map fun row => if fvec.isNull row then best else better wantMax best (fvec.read row)

def foundCell : Option γ → Cell γ
  | some v => .val v
  | none => .null

def bestStep (i : ℕ) (best : Option γ) : Option (Option γ × Cell γ) :=
  (p.scanCell wantMax fvec best i).map fun best => (best, foundCell best)

def best (fr : Frame) (out : ℕ → Cell γ) : Option (ℕ → Cell γ) :=
  if fr.whole then
    (p.places.foldlM (p.scanCell wantMax fvec) none).bind fun best => p.every (fun _ => some (foundCell best)) out
  else if !fr.trailing then
    p.each (p.bestStep wantMax fvec) p.places none out
  else
    p.every (fun i => (p.frameLo fr i).bind fun lo =>
      ((List.range' lo (i + 1 - lo)).foldlM (p.scanCell wantMax fvec) none).map foundCell) out

end

def lag (param : ℤ) (fvec : Vec γ) : (ℕ → Cell γ) → Option (ℕ → Cell γ) :=
  let offset := if param ≤ 0 then 1 else param
  p.every fun i => (i64 (i - offset)).bind fun src =>
    if p.ps ≤ src then (p.row src).map (cellAt fvec) else some .null

def lead (param : ℤ) (fvec : Vec γ) : (ℕ → Cell γ) → Option (ℕ → Cell γ) :=
  let offset := if param ≤ 0 then 1 else param
  p.every fun i => (i64 (i + offset)).bind fun src =>
    if src < p.pe then (p.row src).map (cellAt fvec) else some .null

def firstValue (fr : Frame) (fvec : Vec γ) : (ℕ → Cell γ) → Option (ℕ → Cell γ) :=
  p.every fun i => (p.frameLo fr i).bind fun src => (p.row src).map (cellAt fvec)

def lastValue (fr : Frame) (fvec : Vec γ) (out : ℕ → Cell γ) : Option (ℕ → Cell γ) :=
  if fr.whole then (p.row (p.pe - 1 : ℕ)).bind fun row => p.every (fun _ => some (cellAt fvec row)) out
  else p.every (fun i => (p.row i).map (cellAt fvec)) out

def nthValue (fr : Frame) (param : ℤ) (fvec : Vec γ) (out : ℕ → Cell γ) : Option (ℕ → Cell γ) :=
  let nth := if param < 1 then 1 else param
  p.every (fun i => (p.frameLo fr i).bind fun lo => (i64 (lo + nth)).bind fun x => (i64 (x - 1)).bind fun src =>
    if (if fr.whole then (p.pe : ℤ) - 1 else i) < src then some .null else (p.row src).map (cellAt fvec)) out

def ntile (param : ℤ) (out : ℕ → Cell γ) : Option (ℕ → Cell γ) :=
  let n := if param ≤ 0 then 1 else param
  p.every (fun i => (i64 ((i - p.ps) * n)).map fun x => .int (x.tdiv p.len + 1)) out

def compute [LinearOrder γ] (orderVecs : List (Option KeyCol)) (fr : Frame) :
    Func γ → (ℕ → Cell γ) → Option (ℕ → Cell γ)
  | .rowNumber => p.every fun i => some (.int (i - p.ps + 1))
  | .rank => p.rankLoop orderVecs fun i _ => i - p.ps + 1
  | .denseRank => p.rankLoop orderVecs fun _ rank => rank + 1
  | .ntile param => p.ntile param
  | .count => p.count fr
  | .sum (some fvec) => p.sum fr fvec
  | .sumReal (some fvec) => p.real sumFinish fr fvec
  | .avg (some fvec) => p.real avgFinish fr fvec
  | .best wantMax (some fvec) => p.best wantMax fvec fr
  | .lag param (some fvec) => p.lag param fvec
  | .lead param (some fvec) => p.lead param fvec
  | .firstValue (some fvec) => p.firstValue fr fvec
  | .lastValue (some fvec) => p.lastValue fr fvec
  | .nthValue param (some fvec) => p.nthValue fr param fvec
  | _ => some

end Part

def winComputePartition {γ : Type} [LinearOrder γ] (p : Part) (orderVecs : List (Option KeyCol)) (fr : Frame)
    (funcs : List (Func γ × (ℕ → Cell γ))) : Option (List (ℕ → Cell γ)) :=
  if p.pe ≤ p.ps then some (funcs.map Prod.snd) else funcs.mapM fun f => p.compute orderVecs fr f.1 f.2

def KeyCol.same : KeyCol → ℕ → ℕ → Bool
  | .int cell, ra, rb => cell ra = cell rb
  | .real cell, ra, rb => cell ra = cell rb
  | .str cell, ra, rb => cell ra = cell rb
  | .other cell, ra, rb => cell ra = cell rb

def sameKeys (vecs : List (Option KeyCol)) (ra rb : ℕ) : Bool := vecs.all fun c => c.elim true (·.same ra rb)

namespace Part

variable {γ : Type} (p : Part)

def rowAt (k : ℕ) : ℕ := p.sortedIdx (p.ps + k)

def lo (fr : Frame) (k : ℕ) : ℕ := if fr.trailing then k - fr.startN.toNat else 0

def hi (fr : Frame) (k : ℕ) : ℕ := if fr.whole then p.len else k + 1

def frame (fr : Frame) (k : ℕ) : Finset ℕ := Finset.Ico (lo fr k) (p.hi fr k)

def filled (fvec : Vec γ) (s : Finset ℕ) : Finset ℕ := s.filter fun j => fvec.isNull (p.rowAt j) = false

def Tied (same : ℕ → ℕ → Bool) (j k : ℕ) : Prop := ∀ i ∈ Finset.Ico j k, same (p.rowAt i) (p.rowAt (i + 1)) = true

instance (same : ℕ → ℕ → Bool) (j k : ℕ) : Decidable (p.Tied same j k) :=
  inferInstanceAs (Decidable (∀ i ∈ Finset.Ico j k, same (p.rowAt i) (p.rowAt (i + 1)) = true))

def extreme [LinearOrder γ] (wantMax : Bool) (s : Finset γ) : Option γ := if wantMax then s.max else s.min

def bucket (n k : ℕ) : ℕ := k * n / p.len + 1

def accReal (fr : Frame) (fvec : Vec Double) : ℕ → Double × ℤ
  | 0 => (.zero, 0)
  | k + 1 =>
    let s := accReal fr fvec k
    let s := if fvec.isNull (p.rowAt k) then s else (s.1.add (fvec.read (p.rowAt k)), s.2 + 1)
    let drop := k - (fr.startN.toNat + 1)
    if fr.trailing ∧ fr.startN.toNat + 1 ≤ k then
      if fvec.isNull (p.rowAt drop) then s else (s.1.sub (fvec.read (p.rowAt drop)), s.2 - 1)
    else s

def means [LinearOrder γ] (same : ℕ → ℕ → Bool) (fr : Frame) (k : ℕ) : Func γ → Option (Cell γ)
  | .rowNumber => some (.int (k + 1))
  | .rank => some (.int (((Finset.range k).filter fun j => ¬p.Tied same j k).card + 1))
  | .denseRank => some (.int (((Finset.range k).filter fun j => ¬p.Tied same j (j + 1)).card + 1))
  | .ntile param => some (.int (p.bucket (max param 1).toNat k))
  | .count => some (.int (p.frame fr k).card)
  | .sum (some fvec) => some (.int (wrap64 (∑ j ∈ p.filled fvec (p.frame fr k), fvec.read (p.rowAt j))))
  | .sumReal (some fvec) => some (sumFinish (p.accReal fr fvec (p.hi fr k)))
  | .avg (some fvec) => some (avgFinish (p.accReal fr fvec (p.hi fr k)))
  | .best wantMax (some fvec) =>
    some (foundCell (extreme wantMax ((p.filled fvec (p.frame fr k)).image fun j => fvec.read (p.rowAt j))))
  | .lag param (some fvec) =>
    let offset := (max param 1).toNat
    some (if offset ≤ k then cellAt fvec (p.rowAt (k - offset)) else .null)
  | .lead param (some fvec) =>
    let offset := (max param 1).toNat
    some (if k + offset < p.len then cellAt fvec (p.rowAt (k + offset)) else .null)
  | .firstValue (some fvec) => some (cellAt fvec (p.rowAt (lo fr k)))
  | .lastValue (some fvec) => some (cellAt fvec (p.rowAt (p.hi fr k - 1)))
  | .nthValue param (some fvec) =>
    let src := lo fr k + ((max param 1).toNat - 1)
    some (if src < p.hi fr k then cellAt fvec (p.rowAt src) else .null)
  | _ => none

structure Balanced (n : ℕ) (bucket : ℕ → ℕ) : Prop where
  within : ∀ k < p.len, bucket k ∈ Finset.Icc 1 n
  mono : ∀ j < p.len, ∀ k < p.len, j ≤ k → bucket j ≤ bucket k
  sizes : ∀ b ∈ Finset.Icc 1 n, ∀ b' ∈ Finset.Icc 1 n,
    ((Finset.range p.len).filter (bucket · = b)).card ≤ ((Finset.range p.len).filter (bucket · = b')).card + 1

def Meets [LinearOrder γ] (orderVecs : List (Option KeyCol)) (fr : Frame) (out out' : ℕ → Cell γ) : Func γ → Prop
  | .ntile param => ∃ bucket, p.Balanced (max param 1).toNat bucket ∧ ∀ k < p.len,
    out' (p.rowAt k) = .int (bucket k)
  | f => ∀ k < p.len, out' (p.rowAt k) = (p.means (sameKeys orderVecs) fr k f).getD (out (p.rowAt k))

structure Sound : Prop where
  distinct : Set.InjOn p.sortedIdx (Set.Ico p.ps p.pe)
  fits : p.pe < 2 ^ 63

def Comparable (orderVecs : List (Option KeyCol)) : Prop :=
  ∀ col, some col ∈ orderVecs → match col with
    | .real cell => ∀ k < p.len, cell (p.rowAt k) ≠ .nan
    | .other _ => False
    | _ => True

def Fits (fr : Frame) : Func γ → Prop
  | .ntile param => (p.len - 1 : ℤ) * param < 2 ^ 63
  | .count => fr.trailing = true → fr.startN + 1 < 2 ^ 63
  | .lag param _ => param < 2 ^ 63
  | .lead param _ => p.pe - 1 + param < 2 ^ 63
  | .nthValue param _ => (p.ps + lo fr (p.len - 1) : ℤ) + param < 2 ^ 63
  | _ => True

def Safe (orderVecs : List (Option KeyCol)) (fr : Frame) : Func γ → Prop
  | .rank | .denseRank => p.Comparable orderVecs
  | f => p.Fits fr f

end Part

namespace Frame

variable {fr : Frame}

lemma trailing_eq_false (hw : fr.whole = true) : fr.trailing = false := by
  have hstart : fr.start = .unboundedPreceding := by simp_all [whole]
  rw [trailing, hstart]
  rfl

lemma startN_nonneg (hfr : fr.supported = true) (ht : fr.trailing = true) : 0 ≤ fr.startN := by
  have hstart : fr.start = .nPreceding := by simp_all [trailing]
  simp_all [supported, whole]

end Frame

namespace Part

variable {γ σ : Type} {p : Part}

lemma ps_add_len (hne : 0 < p.len) : p.ps + p.len = p.pe := Nat.add_sub_cancel' (Nat.lt_of_sub_pos hne).le

lemma row_eq {k : ℕ} (hk : k < p.len) : p.row (p.ps + k : ℕ) = some (p.rowAt k) := by
  have hlen := ps_add_len (Nat.zero_lt_of_lt hk)
  rw [row, if_pos ⟨by omega, by omega⟩, Int.toNat_natCast, rowAt]

lemma i64_eq {x : ℤ} (hl : -2 ^ 63 ≤ x) (hh : x < 2 ^ 63) : i64 x = some x := if_pos ⟨hl, hh⟩

structure Wrote (p : Part) (m : ℕ → Cell γ) (lo hi : ℕ) (out out' : ℕ → Cell γ) : Prop where
  cells : ∀ k, lo ≤ k → k < hi → out' (p.rowAt k) = m k
  others : ∀ r, (∀ k, lo ≤ k → k < hi → p.rowAt k ≠ r) → out' r = out r

lemma Wrote.nil (m : ℕ → Cell γ) (k : ℕ) (out : ℕ → Cell γ) : p.Wrote m k k out out :=
  ⟨fun _ hl hh => absurd hh (Nat.not_lt.mpr hl), fun _ _ => rfl⟩

section

variable (hp : p.Sound)
include hp

lemma Sound.rowAt_inj {j k : ℕ} (hj : j < p.len) (hk : k < p.len) (h : p.rowAt j = p.rowAt k) : j = k := by
  have hlen := ps_add_len (Nat.zero_lt_of_lt hj)
  have := hp.distinct ⟨Nat.le_add_right p.ps j, by omega⟩ ⟨Nat.le_add_right p.ps k, by omega⟩ h
  omega

lemma Wrote.cons {m : ℕ → Cell γ} {lo hi : ℕ} {out out' : ℕ → Cell γ} (hlt : lo < hi) (hhi : hi ≤ p.len)
    (h : p.Wrote m (lo + 1) hi (update out (p.rowAt lo) (m lo)) out') : p.Wrote m lo hi out out' := by
  have hne : ∀ k, lo + 1 ≤ k → k < hi → p.rowAt k ≠ p.rowAt lo := by
    intro k hl hh heq
    have := hp.rowAt_inj (by omega) (by omega) heq
    omega
  refine ⟨fun k hl hh => ?_, fun r hr => ?_⟩
  · obtain rfl | hlt' := Nat.eq_or_lt_of_le hl
    · rw [h.others _ hne, update_self]
    · exact h.cells k hlt' hh
  · rw [h.others r fun k hl hh => hr k (by omega) hh, update_of_ne (hr lo le_rfl hlt).symm]

lemma each_wrote (step : ℕ → σ → Option (σ × Cell γ)) (acc : ℕ → σ) {m : ℕ → Cell γ} {n lo : ℕ}
    (hhi : lo + n ≤ p.len) (hstep : ∀ k, lo ≤ k → k < lo + n → step (p.ps + k) (acc k) = some (acc (k + 1), m k))
    (out : ℕ → Cell γ) :
    ∃ out', p.each step (List.range' (p.ps + lo) n) (acc lo) out = some out' ∧ p.Wrote m lo (lo + n) out out' := by
  induction n generalizing lo out with
  | zero => exact ⟨out, rfl, .nil m lo out⟩
  | succ n ih =>
    have hrec := ih (by omega : lo + 1 + n ≤ p.len) fun k hl hh => hstep k (by omega) (by omega)
    obtain ⟨out', hout, hw⟩ := hrec (update out (p.rowAt lo) (m lo))
    rw [Nat.add_right_comm, Nat.add_assoc] at hw
    refine ⟨out', ?_, hw.cons hp (by omega) hhi⟩
    rw [List.range'_succ, each, hstep lo le_rfl (by omega), bind_some, row_eq (by omega), bind_some]
    exact hout

lemma each_places (step : ℕ → σ → Option (σ × Cell γ)) (acc : ℕ → σ) {m : ℕ → Cell γ}
    (hstep : ∀ k < p.len, step (p.ps + k) (acc k) = some (acc (k + 1), m k)) (out : ℕ → Cell γ) :
    ∃ out', p.each step p.places (acc 0) out = some out' ∧ p.Wrote m 0 p.len out out' := by
  have hloop := each_wrote (n := p.len) hp step acc (Nat.zero_add _).le (fun k _ hk => hstep k (by omega)) out
  rwa [Nat.zero_add] at hloop

lemma every_wrote {cell : ℕ → Option (Cell γ)} {m : ℕ → Cell γ}
    (h : ∀ k < p.len, cell (p.ps + k) = some (m k)) (out : ℕ → Cell γ) :
    ∃ out', p.every cell out = some out' ∧ p.Wrote m 0 p.len out out' := by
  refine each_places hp _ (fun _ => ()) (fun k hk => ?_) out
  rw [h k hk]
  rfl

end

lemma foldlM_range' (step : σ → ℕ → Option σ) (acc : ℕ → σ) {n lo base : ℕ}
    (hstep : ∀ k, lo ≤ k → k < lo + n → step (acc k) (base + k) = some (acc (k + 1))) :
    (List.range' (base + lo) n).foldlM step (acc lo) = some (acc (lo + n)) := by
  induction n generalizing lo with
  | zero => rfl
  | succ n ih =>
    have hrec := ih fun k (hl : lo + 1 ≤ k) hh => hstep k (by omega) (by omega)
    rw [Nat.add_right_comm, Nat.add_assoc] at hrec
    rw [List.range'_succ, List.foldlM_cons, hstep lo le_rfl (by omega)]
    exact hrec

lemma foldlM_places (step : σ → ℕ → Option σ) (acc : ℕ → σ)
    (hstep : ∀ k < p.len, step (acc k) (p.ps + k) = some (acc (k + 1))) :
      p.places.foldlM step (acc 0) = some (acc p.len) := by
  have hpass := foldlM_range' (n := p.len) step acc fun k (_ : 0 ≤ k) hk => hstep k (by omega)
  rwa [Nat.zero_add] at hpass

lemma lo_le (fr : Frame) (k : ℕ) : lo fr k ≤ k := by
  rw [lo]
  split <;> omega

lemma lo_mono (fr : Frame) {j k : ℕ} (h : j ≤ k) : lo fr j ≤ lo fr k := by
  rw [lo, lo]
  split <;> omega

lemma lo_whole {fr : Frame} (hw : fr.whole = true) (k : ℕ) : lo fr k = 0 := by
  rw [lo, Frame.trailing_eq_false hw]
  rfl

lemma drop_index (hp : p.Sound) {fr : Frame} (hfr : fr.supported = true) (ht : fr.trailing = true) {k : ℕ}
    (hk : k < p.len) :
    ((i64 ((p.ps + k : ℕ) - fr.startN)).bind fun x => i64 (x - 1)) = some ((p.ps + k : ℕ) - (fr.startN + 1)) := by
  have hn := Frame.startN_nonneg hfr ht
  have hfits := fr.fits
  have hpe := hp.fits
  have hlen := ps_add_len (Nat.zero_lt_of_lt hk)
  rw [i64_eq (by omega) (by omega), bind_some, i64_eq (by omega) (by omega)]
  congr 1
  ring

lemma wrap64_add (a b : ℤ) : wrap64 (wrap64 a + b) = wrap64 (a + b) := Int.bmod_add_bmod

variable {fvec : Vec ℤ} {fr : Frame}

def value (p : Part) (fvec : Vec ℤ) (j : ℕ) : ℤ :=
  if fvec.isNull (p.rowAt j) = false then fvec.read (p.rowAt j) else 0

lemma sum_filled (s : Finset ℕ) : ∑ j ∈ p.filled fvec s, fvec.read (p.rowAt j) = ∑ j ∈ s, p.value fvec j :=
  Finset.sum_filter _ _

lemma addCell_eq {sign a : ℤ} {k : ℕ} (hk : k < p.len) :
    p.addCell fvec sign (wrap64 a) (p.ps + k : ℕ) = some (wrap64 (a + sign * p.value fvec k)) := by
  rw [addCell, row_eq hk, map_some, value]
  cases fvec.isNull (p.rowAt k) with
  | true => simp
  | false => simp [wrap64_add]

def loBefore (fr : Frame) (k : ℕ) : ℕ := if fr.trailing then k - (fr.startN.toNat + 1) else 0

lemma loBefore_succ (k : ℕ) : loBefore fr (k + 1) = lo fr k := by
  rw [loBefore, lo, Nat.add_sub_add_right]

lemma sumStep_eq (hp : p.Sound) (hfr : fr.supported = true) {k : ℕ} (hk : k < p.len) :
    p.sumStep fr fvec (p.ps + k) (wrap64 (∑ j ∈ Finset.Ico (loBefore fr k) k, p.value fvec j)) =
      some (wrap64 (∑ j ∈ Finset.Ico (lo fr k) (k + 1), p.value fvec j),
        (.int (wrap64 (∑ j ∈ Finset.Ico (lo fr k) (k + 1), p.value fvec j)) : Cell γ)) := by
  have hle : loBefore fr k ≤ k := by
    rw [loBefore]
    split <;> omega
  rw [sumStep, addCell_eq hk, one_mul, ← Finset.sum_Ico_succ_top hle, bind_some]
  cases ht : fr.trailing with
  | false => rw [if_neg Bool.false_ne_true, map_some, loBefore, lo, ht]; rfl
  | true =>
    obtain ⟨n, hn⟩ := Int.eq_ofNat_of_zero_le (Frame.startN_nonneg hfr ht)
    have hdrop := drop_index hp hfr ht hk
    rw [if_pos rfl, ← bind_assoc, hdrop, bind_some, loBefore, lo, ht, if_pos rfl, if_pos rfl, hn,
      Int.toNat_natCast]
    by_cases hlt : n + 1 ≤ k
    · have hplace : ((p.ps + k : ℕ) : ℤ) - ((n : ℕ) + 1) = (p.ps + (k - (n + 1)) : ℕ) := by omega
      have hnext : k - n = k - (n + 1) + 1 := by omega
      rw [if_pos (by omega), hplace, addCell_eq (by omega), map_some, hnext,
        Finset.sum_eq_sum_Ico_succ_bot (by omega : k - (n + 1) < k + 1), neg_one_mul, add_neg_cancel_comm]
    · have hzero : k - (n + 1) = 0 := by omega
      have hzero' : k - n = 0 := by omega
      rw [if_neg (by omega), map_some, hzero, hzero']

lemma sum_wrote (hp : p.Sound) (fvec : Vec ℤ) (hfr : fr.supported = true) (out : ℕ → Cell γ) :
    ∃ out', p.sum fr fvec out = some out' ∧
      p.Wrote (fun k => .int (wrap64 (∑ j ∈ p.filled fvec (p.frame fr k), fvec.read (p.rowAt j)))) 0 p.len
        out out' := by
  simp only [sum_filled, frame, hi]
  rw [sum]
  cases hw : fr.whole with
  | true =>
    have htotal := foldlM_places (fun total i => p.addCell fvec 1 total (i : ℕ))
      (fun k => wrap64 (∑ j ∈ Finset.Ico 0 k, p.value fvec j)) fun k hk => by
        rw [addCell_eq hk, Finset.sum_Ico_succ_top (Nat.zero_le k), one_mul]
    rw [Finset.Ico_self, Finset.sum_empty] at htotal
    rw [if_pos rfl, show (0 : ℤ) = wrap64 0 from rfl, htotal, bind_some]
    exact every_wrote hp (fun k _ => by rw [lo_whole hw]; rfl) out
  | false =>
    have hempty : loBefore fr 0 = 0 := by
      rw [loBefore]
      split <;> omega
    have hloop := each_places hp (p.sumStep fr fvec)
      (fun k => wrap64 (∑ j ∈ Finset.Ico (loBefore fr k) k, p.value fvec j))
      (fun k hk => by rw [sumStep_eq hp hfr hk, loBefore_succ]) out
    rw [hempty, Finset.Ico_self, Finset.sum_empty] at hloop
    exact hloop

lemma pushReal_eq {fvec : Vec Double} (s : Double × ℤ) {k : ℕ} (hk : k < p.len) :
    p.pushReal fvec s (p.ps + k : ℕ) =
      some (if fvec.isNull (p.rowAt k) then s else (s.1.add (fvec.read (p.rowAt k)), s.2 + 1)) := by
  rw [pushReal, row_eq hk, map_some]

lemma realStep_eq (hp : p.Sound) (hfr : fr.supported = true) (finish : Double × ℤ → Cell γ)
    {fvec : Vec Double} {k : ℕ} (hk : k < p.len) : p.realStep finish fr fvec (p.ps + k) (p.accReal fr fvec k) =
      some (p.accReal fr fvec (k + 1), finish (p.accReal fr fvec (k + 1))) := by
  rw [realStep, pushReal_eq _ hk, bind_some, accReal]
  cases ht : fr.trailing with
  | false => simp only [Bool.false_eq_true, if_false, false_and, map_some]
  | true =>
    obtain ⟨n, hn⟩ := Int.eq_ofNat_of_zero_le (Frame.startN_nonneg hfr ht)
    have hdrop := drop_index hp hfr ht hk
    rw [if_pos rfl, ← bind_assoc, hdrop, bind_some, hn, Int.toNat_natCast]
    by_cases hlt : n + 1 ≤ k
    · have hplace : ((p.ps + k : ℕ) : ℤ) - ((n : ℕ) + 1) = (p.ps + (k - (n + 1)) : ℕ) := by omega
      rw [if_pos (by omega), if_pos (⟨rfl, hlt⟩ : true = true ∧ n + 1 ≤ k), hplace, popReal, row_eq (by omega),
        map_some, map_some]
    · rw [if_neg (by omega), if_neg (not_and_of_not_right _ hlt), map_some]

lemma real_wrote (hp : p.Sound) (finish : Double × ℤ → Cell γ) (fvec : Vec Double) (hfr : fr.supported = true)
    (out : ℕ → Cell γ) : ∃ out', p.real finish fr fvec out = some out' ∧
      p.Wrote (fun k => finish (p.accReal fr fvec (p.hi fr k))) 0 p.len out out' := by
  simp only [hi]
  rw [real]
  cases hw : fr.whole with
  | true =>
    have htotal := foldlM_places (p := p) (fun s i => p.pushReal fvec s (i : ℕ)) (p.accReal fr fvec) fun k hk => by
      rw [pushReal_eq _ hk, accReal, Frame.trailing_eq_false hw]
      simp only [Bool.false_eq_true, false_and, if_false]
    rw [accReal] at htotal
    rw [if_pos rfl, htotal, bind_some]
    exact every_wrote hp (fun k _ => rfl) out
  | false => exact each_places hp _ (p.accReal fr fvec) (fun k hk => realStep_eq hp hfr finish hk) out

lemma count_wrote (hp : p.Sound) (hfr : fr.supported = true) (hs : fr.trailing = true → fr.startN + 1 < 2 ^ 63)
    (out : ℕ → Cell γ) : ∃ out', p.count fr out = some out' ∧
      p.Wrote (fun k => .int (p.frame fr k).card) 0 p.len out out' := by
  simp only [frame, Nat.card_Ico, lo, hi]
  rw [count]
  cases hw : fr.whole with
  | true =>
    rw [if_pos rfl, Frame.trailing_eq_false hw]
    exact every_wrote hp (fun k _ => rfl) out
  | false =>
    rw [if_neg Bool.false_ne_true]
    cases ht : fr.trailing with
    | true =>
      have hn := Frame.startN_nonneg hfr ht
      rw [if_pos rfl, i64_eq (by omega) (hs ht), bind_some]
      refine every_wrote hp (fun k hk => ?_) out
      dsimp only
      simp only [if_true, Bool.false_eq_true, if_false, some.injEq, Cell.int.injEq]
      split <;> omega
    | false =>
      rw [if_neg Bool.false_ne_true]
      refine every_wrote hp (fun k hk => ?_) out
      simp only [Bool.false_eq_true, if_false, some.injEq, Cell.int.injEq]
      omega

section

variable [LinearOrder γ] {wantMax : Bool} {col : Vec γ}

lemma extreme_empty : extreme wantMax (∅ : Finset γ) = none := by
  cases wantMax <;> rfl

lemma extreme_eq {s : Finset γ} (hs : s.Nonempty) :
    extreme wantMax s = some (if wantMax then s.max' hs else s.min' hs) := by
  cases wantMax with
  | true => exact (Finset.coe_max' hs).symm
  | false => exact (Finset.coe_min' hs).symm

lemma extreme_insert (v : γ) (s : Finset γ) :
    extreme wantMax (insert v s) = better wantMax (extreme wantMax s) v := by
  obtain rfl | hs := s.eq_empty_or_nonempty
  · rw [extreme_empty, extreme_eq (Finset.insert_nonempty v ∅), better, elim_none, if_pos rfl]
    cases wantMax <;> simp
  · rw [extreme_eq (Finset.insert_nonempty v s), extreme_eq hs, better, elim_some, Finset.max'_insert v s hs,
      Finset.min'_insert v s hs]
    cases wantMax with
    | true =>
      by_cases hlt : s.max' hs < v
      · simp only [if_true, max_eq_left hlt.le, hlt, decide_true]
      · simp only [if_true, max_eq_right (not_lt.mp hlt), hlt, decide_false, Bool.false_eq_true, if_false]
    | false =>
      by_cases hlt : v < s.min' hs
      · simp only [Bool.false_eq_true, if_false, min_eq_left hlt.le, hlt, decide_true, if_true]
      · simp only [Bool.false_eq_true, if_false, min_eq_right (not_lt.mp hlt), hlt, decide_false]

def values (p : Part) (col : Vec γ) (lo hi : ℕ) : Finset γ :=
  (p.filled col (Finset.Ico lo hi)).image fun j => col.read (p.rowAt j)

lemma scanCell_eq {lo k : ℕ} (hlo : lo ≤ k) (hk : k < p.len) :
    p.scanCell wantMax col (extreme wantMax (p.values col lo k)) (p.ps + k) =
      some (extreme wantMax (p.values col lo (k + 1))) := by
  have hins : Finset.Ico lo (k + 1) = insert k (Finset.Ico lo k) := Nat.Ico_succ_right_eq_insert_Ico hlo
  rw [scanCell, row_eq hk, map_some, values, values, hins, filled, filled, Finset.filter_insert]
  cases hnull : col.isNull (p.rowAt k) with
  | true => rw [if_pos rfl, if_neg (by simp)]
  | false => rw [if_neg Bool.false_ne_true, if_pos rfl, Finset.image_insert, extreme_insert]

lemma values_self (lo : ℕ) : p.values col lo lo = ∅ := by
  rw [values, Finset.Ico_self]
  rfl

lemma scan_eq {lo hi : ℕ} (hle : lo ≤ hi) (hh : hi ≤ p.len) :
    (List.range' (p.ps + lo) (hi - lo)).foldlM (p.scanCell wantMax col) none =
      some (extreme wantMax (p.values col lo hi)) := by
  have hpass := foldlM_range' (n := hi - lo) (p.scanCell wantMax col)
    (fun k => extreme wantMax (p.values col lo k)) fun k (hl : lo ≤ k) hk => scanCell_eq (p := p) hl (by omega)
  rwa [values_self, extreme_empty, Nat.add_sub_cancel' hle] at hpass

lemma frameLo_eq (hp : p.Sound) (hfr : fr.supported = true) {k : ℕ} (hk : k < p.len) :
    p.frameLo fr (p.ps + k) = some (p.ps + lo fr k) := by
  rw [frameLo, lo]
  cases ht : fr.trailing with
  | true =>
    have hn := Frame.startN_nonneg hfr ht
    have hfits := fr.fits
    have hpe := hp.fits
    have hlen := ps_add_len (Nat.zero_lt_of_lt hk)
    rw [if_pos rfl, if_pos rfl, i64_eq (by omega) (by omega), map_some]
    congr 1
    split <;> omega
  | false => rw [if_neg Bool.false_ne_true, if_neg Bool.false_ne_true, Nat.add_zero]

lemma best_wrote (hp : p.Sound) (wantMax : Bool) (col : Vec γ) (hfr : fr.supported = true) (out : ℕ → Cell γ) :
    ∃ out', p.best wantMax col fr out = some out' ∧
      p.Wrote (fun k => foundCell (extreme wantMax (p.values col (lo fr k) (p.hi fr k)))) 0 p.len out out' := by
  simp only [hi]
  rw [best]
  cases hw : fr.whole with
  | true =>
    have htotal := foldlM_places (p.scanCell wantMax col) (fun k => extreme wantMax (p.values col 0 k))
      fun k hk => scanCell_eq (Nat.zero_le k) hk
    rw [values_self, extreme_empty] at htotal
    rw [if_pos rfl, htotal, bind_some]
    exact every_wrote hp (fun k _ => by rw [lo_whole hw]; rfl) out
  | false =>
    rw [if_neg Bool.false_ne_true]
    cases ht : fr.trailing with
    | true =>
      rw [if_neg (by decide)]
      refine every_wrote hp (fun k hk => ?_) out
      have hle := lo_le fr k
      have hwidth : p.ps + k + 1 - (p.ps + lo fr k) = k + 1 - lo fr k := by omega
      rw [frameLo_eq hp hfr hk, bind_some, hwidth, scan_eq (by omega) hk]
      rfl
    | false =>
      have hloop := each_places hp (p.bestStep wantMax col) (fun k => extreme wantMax (p.values col 0 k))
        (m := fun k => foundCell (extreme wantMax (p.values col (lo fr k) (k + 1)))) (fun k hk => by
          rw [bestStep, scanCell_eq (Nat.zero_le k) hk, map_some, lo, ht]
          rfl) out
      rw [values_self, extreme_empty] at hloop
      exact hloop

end

variable {param : ℤ}

lemma offset_eq : (if param ≤ 0 then 1 else param) = ((max param 1).toNat : ℤ) := by
  split <;> omega

section

variable (hp : p.Sound)
include hp

lemma lag_wrote (col : Vec γ) (hs : param < 2 ^ 63) (out : ℕ → Cell γ) : ∃ out', p.lag param col out = some out' ∧
      p.Wrote (fun k => if (max param 1).toNat ≤ k then cellAt col (p.rowAt (k - (max param 1).toNat)) else .null)
        0 p.len out out' := by
  rw [lag, offset_eq]
  refine every_wrote hp (fun k hk => ?_) out
  have hpe := hp.fits
  have hlen := ps_add_len (Nat.zero_lt_of_lt hk)
  rw [i64_eq (by omega) (by omega), bind_some]
  by_cases hsrc : (max param 1).toNat ≤ k
  · have hplace : ((p.ps + k : ℕ) : ℤ) - (max param 1).toNat = (p.ps + (k - (max param 1).toNat) : ℕ) := by omega
    rw [if_pos (by omega), if_pos hsrc, hplace, row_eq (by omega), map_some]
  · rw [if_neg (by omega), if_neg hsrc]

lemma lead_wrote (col : Vec γ) (hs : p.pe - 1 + param < 2 ^ 63) (out : ℕ → Cell γ) :
    ∃ out', p.lead param col out = some out' ∧
      p.Wrote (fun k =>
        if k + (max param 1).toNat < p.len then cellAt col (p.rowAt (k + (max param 1).toNat)) else .null)
        0 p.len out out' := by
  rw [lead, offset_eq]
  refine every_wrote hp (fun k hk => ?_) out
  have hpe := hp.fits
  have hlen := ps_add_len (Nat.zero_lt_of_lt hk)
  rw [i64_eq (by omega) (by omega), bind_some]
  by_cases hsrc : k + (max param 1).toNat < p.len
  · have hplace : ((p.ps + k : ℕ) : ℤ) + (max param 1).toNat = (p.ps + (k + (max param 1).toNat) : ℕ) := by omega
    rw [if_pos (by omega), if_pos hsrc, hplace, row_eq hsrc, map_some]
  · rw [if_neg (by omega), if_neg hsrc]

lemma firstValue_wrote (col : Vec γ) (hfr : fr.supported = true) (out : ℕ → Cell γ) :
    ∃ out', p.firstValue fr col out = some out' ∧
      p.Wrote (fun k => cellAt col (p.rowAt (lo fr k))) 0 p.len out out' := by
  refine every_wrote hp (fun k hk => ?_) out
  rw [frameLo_eq hp hfr hk, bind_some, row_eq ((lo_le fr k).trans_lt hk), map_some]

lemma lastValue_wrote (hne : 0 < p.len) (col : Vec γ) (out : ℕ → Cell γ) :
    ∃ out', p.lastValue fr col out = some out' ∧
      p.Wrote (fun k => cellAt col (p.rowAt (p.hi fr k - 1))) 0 p.len out out' := by
  simp only [hi]
  rw [lastValue]
  cases fr.whole with
  | true =>
    have hlast : p.pe - 1 = p.ps + (p.len - 1) := by
      have := ps_add_len hne
      omega
    rw [if_pos rfl, hlast, row_eq (by omega), bind_some]
    exact every_wrote hp (fun k _ => rfl) out
  | false =>
    rw [if_neg Bool.false_ne_true]
    refine every_wrote hp (fun k hk => ?_) out
    rw [row_eq hk, map_some]
    rfl

lemma nthValue_wrote (col : Vec γ) (hfr : fr.supported = true)
    (hs : (p.ps + lo fr (p.len - 1) : ℤ) + param < 2 ^ 63) (out : ℕ → Cell γ) :
    ∃ out', p.nthValue fr param col out = some out' ∧
      p.Wrote (fun k => if lo fr k + ((max param 1).toNat - 1) < p.hi fr k then
        cellAt col (p.rowAt (lo fr k + ((max param 1).toNat - 1))) else .null) 0 p.len out out' := by
  have hnth : (if param < 1 then 1 else param) = ((max param 1).toNat : ℤ) := by
    split <;> omega
  rw [nthValue, hnth]
  refine every_wrote hp (fun k hk => ?_) out
  have hpe := hp.fits
  have hlen := ps_add_len (Nat.zero_lt_of_lt hk)
  have hle := lo_le fr k
  have hlast : lo fr k ≤ lo fr (p.len - 1) := lo_mono fr (by omega)
  rw [frameLo_eq hp hfr hk, bind_some, i64_eq (by omega) (by omega), bind_some,
    i64_eq (by omega) (by omega), bind_some]
  have hstop : (if fr.whole = true then (p.pe : ℤ) - 1 else (p.ps + k : ℕ)) =
      ((p.ps + p.hi fr k : ℕ) : ℤ) - 1 := by
    rw [hi]
    split <;> omega
  have hhi : p.hi fr k ≤ p.len := by
    rw [hi]
    split <;> omega
  have hplace : ((p.ps + lo fr k : ℕ) : ℤ) + (max param 1).toNat - 1 =
      (p.ps + (lo fr k + ((max param 1).toNat - 1)) : ℕ) := by
    omega
  rw [hstop, hplace]
  by_cases hsrc : lo fr k + ((max param 1).toNat - 1) < p.hi fr k
  · rw [if_neg (by omega), if_pos hsrc, row_eq (by omega), map_some]
  · rw [if_pos (by omega), if_neg hsrc]

end

lemma bucket_iff {n q x L : ℕ} (hn : 0 < n) (hL : 0 < L) :
    x * n / L = q ↔ (q * L) ⌈/⌉ n ≤ x ∧ x < ((q + 1) * L) ⌈/⌉ n := by
  rw [← not_le, ceilDiv_le_iff_le_mul hn, ceilDiv_le_iff_le_mul hn, mul_comm n x, not_le,
    ← Nat.le_div_iff_mul_le hL, ← Nat.div_lt_iff_lt_mul hL]
  omega

lemma ceilDiv_succ {n q L : ℕ} (hn : 0 < n) :
    (q * L) ⌈/⌉ n + L / n ≤ ((q + 1) * L) ⌈/⌉ n ∧ ((q + 1) * L) ⌈/⌉ n ≤ (q * L) ⌈/⌉ n + L / n + 1 := by
  have hle : q * L ≤ n * ((q * L) ⌈/⌉ n) := (ceilDiv_le_iff_le_mul hn).mp le_rfl
  have hle' : q * L + L ≤ n * (((q + 1) * L) ⌈/⌉ n) :=
    (Nat.succ_mul q L).ge.trans ((ceilDiv_le_iff_le_mul hn).mp le_rfl)
  have hdiv : n * (L / n) ≤ L := Nat.mul_div_le L n
  have hlt : L < n * (L / n) + n := Nat.lt_mul_div_succ L hn
  constructor
  · rw [← Nat.le_sub_iff_add_le (Nat.le_of_mul_le_mul_left (by omega) hn), ceilDiv_le_iff_le_mul hn, Nat.mul_sub]
    omega
  · rw [ceilDiv_le_iff_le_mul hn, Nat.mul_add, Nat.mul_add, Nat.add_mul, one_mul]
    omega

lemma card_bucket (hne : 0 < p.len) {n q : ℕ} (hq : q < n) :
    ((Finset.range p.len).filter (p.bucket n · = q + 1)).card = ((q + 1) * p.len) ⌈/⌉ n - (q * p.len) ⌈/⌉ n := by
  have hn : 0 < n := by omega
  have hlast : ((q + 1) * p.len) ⌈/⌉ n ≤ p.len := (ceilDiv_le_iff_le_mul hn).mpr (Nat.mul_le_mul_right _ hq)
  have hset : (Finset.range p.len).filter (p.bucket n · = q + 1) =
      Finset.Ico ((q * p.len) ⌈/⌉ n) (((q + 1) * p.len) ⌈/⌉ n) := by
    ext k
    rw [Finset.mem_filter, Finset.mem_range, Finset.mem_Ico, bucket, Nat.add_right_cancel_iff, bucket_iff hn hne]
    omega
  rw [hset, Nat.card_Ico]

lemma bucket_balanced {n : ℕ} (hn : 0 < n) : p.Balanced n (p.bucket n) where
  within k hk := by
    have hlt : k * n / p.len < n := by
      rw [Nat.div_lt_iff_lt_mul (Nat.zero_lt_of_lt hk), mul_comm n]
      exact Nat.mul_lt_mul_of_pos_right hk hn
    exact Finset.mem_Icc.mpr ⟨Nat.le_add_left 1 _, hlt⟩
  mono j _ k _ hjk := Nat.add_le_add_right (Nat.div_le_div_right (Nat.mul_le_mul_right n hjk)) 1
  sizes b hb b' hb' := by
    rcases Nat.eq_zero_or_pos p.len with hzero | hne
    · rw [hzero]
      exact Nat.zero_le _
    obtain ⟨q, rfl⟩ := Nat.exists_eq_add_of_le' (Finset.mem_Icc.mp hb).1
    obtain ⟨q', rfl⟩ := Nat.exists_eq_add_of_le' (Finset.mem_Icc.mp hb').1
    rw [card_bucket hne (Finset.mem_Icc.mp hb).2, card_bucket hne (Finset.mem_Icc.mp hb').2]
    have hq := ceilDiv_succ (q := q) (L := p.len) hn
    have hq' := ceilDiv_succ (q := q') (L := p.len) hn
    omega

lemma ntile_wrote (hp : p.Sound) (hs : (p.len - 1 : ℤ) * param < 2 ^ 63) (out : ℕ → Cell γ) :
    ∃ out', p.ntile param out = some out' ∧
      p.Wrote (fun k => .int (p.bucket (max param 1).toNat k)) 0 p.len out out' := by
  rw [ntile, offset_eq]
  refine every_wrote hp (fun k hk => ?_) out
  have hpe := hp.fits
  have hlen := ps_add_len (Nat.zero_lt_of_lt hk)
  have hplace : ((p.ps + k : ℕ) : ℤ) - p.ps = k := by omega
  have hlt : (k : ℤ) * (max param 1).toNat < 2 ^ 63 := by
    have hle : (k : ℤ) ≤ p.len - 1 := by omega
    refine (mul_le_mul_of_nonneg_right hle (Int.natCast_nonneg _)).trans_lt ?_
    rcases le_or_gt param 1 with hp | hp
    · rw [max_eq_right hp, Int.toNat_one, Nat.cast_one, mul_one]
      omega
    · rwa [max_eq_left hp.le, Int.toNat_of_nonneg (by omega)]
  have hnonneg : (0 : ℤ) ≤ (k : ℤ) * (max param 1).toNat := by positivity
  rw [hplace, i64_eq (by omega) hlt, map_some, bucket, Nat.cast_add, Int.ofNat_tdiv, Nat.cast_mul, Nat.cast_one]

variable {orderVecs : List (Option KeyCol)} {same : ℕ → ℕ → Bool} {j k : ℕ}

lemma KeyCol.differ_eq {col : KeyCol} {ra rb : ℕ} (hother : ∀ cell, col ≠ .other cell)
    (hreal : ∀ cell, col = .real cell → cell ra ≠ .nan ∧ cell rb ≠ .nan) : col.differ ra rb = !col.same ra rb := by
  cases col with
  | int cell => rw [KeyCol.differ, KeyCol.same, bne, beq_eq_decide]
  | str cell => rw [KeyCol.differ, KeyCol.same, bne, beq_eq_decide]
  | other cell => exact absurd rfl (hother cell)
  | real cell =>
    obtain ⟨ha, hb⟩ := hreal cell rfl
    rw [KeyCol.differ, KeyCol.same]
    cases hra : cell ra <;> cases hrb : cell rb <;> simp_all [Double.eq]

lemma Comparable.differ_eq (hc : p.Comparable orderVecs) (hj : j < p.len) (hk : k < p.len) :
    winKeysDiffer orderVecs (p.rowAt j) (p.rowAt k) = !sameKeys orderVecs (p.rowAt j) (p.rowAt k) := by
  rw [winKeysDiffer, sameKeys, List.not_all_eq_any_not, Bool.eq_iff_iff, List.any_eq_true, List.any_eq_true]
  refine exists_congr fun c => and_congr_right fun hmem => ?_
  cases c with
  | none => exact Iff.rfl
  | some col =>
    have hcol := hc col hmem
    rw [elim_some, elim_some, KeyCol.differ_eq]
    · rintro cell rfl
      exact hcol
    · rintro cell rfl
      exact ⟨hcol j hj, hcol k hk⟩

lemma tied_succ (hle : j ≤ k) :
    p.Tied same j (k + 1) ↔ p.Tied same j k ∧ same (p.rowAt k) (p.rowAt (k + 1)) = true := by
  rw [Tied, Tied, Nat.Ico_succ_right_eq_insert_Ico hle, Finset.forall_mem_insert, and_comm]

lemma tied_self : p.Tied same k k := by
  rw [Tied, Finset.Ico_self]
  exact fun i hi => absurd hi (Finset.notMem_empty i)

def rankAt (p : Part) (same : ℕ → ℕ → Bool) (k : ℕ) : ℤ :=
  ((Finset.range k).filter fun j => ¬p.Tied same j k).card + 1

lemma rankAt_succ (k : ℕ) :
    p.rankAt same (k + 1) = if same (p.rowAt k) (p.rowAt (k + 1)) then p.rankAt same k else (k + 1 : ℕ) + 1 := by
  rw [rankAt]
  cases hsame : same (p.rowAt k) (p.rowAt (k + 1)) with
  | true =>
    have hset : (Finset.range (k + 1)).filter (fun j => ¬p.Tied same j (k + 1)) =
        (Finset.range k).filter fun j => ¬p.Tied same j k := by
      rw [Finset.range_add_one, Finset.filter_insert,
        if_neg (not_not.mpr ((tied_succ le_rfl).mpr ⟨tied_self, hsame⟩))]
      refine Finset.filter_congr fun j hj => ?_
      rw [tied_succ (Finset.mem_range.mp hj).le, hsame, eq_self_iff_true, and_true]
    rw [hset, if_pos rfl, rankAt]
  | false =>
    rw [if_neg Bool.false_ne_true, Finset.filter_true_of_mem, Finset.card_range]
    intro j hj htied
    have := ((tied_succ (Nat.le_of_lt_succ (Finset.mem_range.mp hj))).mp htied).2
    rw [hsame] at this
    exact Bool.false_ne_true this

def denseAt (p : Part) (same : ℕ → ℕ → Bool) (k : ℕ) : ℤ :=
  ((Finset.range k).filter fun j => ¬p.Tied same j (j + 1)).card + 1

lemma denseAt_succ (k : ℕ) :
    p.denseAt same (k + 1) =
      if same (p.rowAt k) (p.rowAt (k + 1)) then p.denseAt same k else p.denseAt same k + 1 := by
  rw [denseAt, Finset.range_add_one, Finset.filter_insert, denseAt]
  have hiff : p.Tied same k (k + 1) ↔ same (p.rowAt k) (p.rowAt (k + 1)) = true := by
    rw [tied_succ le_rfl, and_iff_right tied_self]
  cases hsame : same (p.rowAt k) (p.rowAt (k + 1)) with
  | true => rw [if_neg (not_not.mpr (hiff.mpr hsame)), if_pos rfl]
  | false =>
    rw [if_pos (fun h => Bool.false_ne_true (hsame.symm.trans (hiff.mp h))), if_neg Bool.false_ne_true,
      Finset.card_insert_of_notMem (by simp), Nat.cast_add, Nat.cast_one]

lemma rankLoop_wrote (hp : p.Sound) (hne : 0 < p.len) (next : ℕ → ℤ → ℤ) (rank : ℕ → ℤ) (hfirst : rank 0 = 1)
    (hnext : ∀ k, rank (k + 1) =
      if !winKeysDiffer orderVecs (p.rowAt k) (p.rowAt (k + 1)) then rank k else next (p.ps + (k + 1)) (rank k))
    (out : ℕ → Cell γ) :
    ∃ out', p.rankLoop orderVecs next out = some out' ∧ p.Wrote (fun k => .int (rank k)) 0 p.len out out' := by
  have hend : 1 + (p.len - 1) = p.len := by omega
  have hstep : ∀ k, 1 ≤ k → k < 1 + (p.len - 1) →
      p.rankStep orderVecs next (p.ps + k) (rank (k - 1)) =
        some (rank (k + 1 - 1), (Cell.int (rank k) : Cell γ)) := by
    intro k hl hh
    obtain ⟨n, rfl⟩ : ∃ n, k = n + 1 := ⟨k - 1, by omega⟩
    have hprev : p.ps + (n + 1) - 1 = p.ps + n := by omega
    rw [rankStep, Nat.add_sub_cancel, Nat.add_sub_cancel, hprev, row_eq (by omega), bind_some, row_eq (by omega),
      bind_some]
    dsimp only
    rw [hnext n]
    cases winKeysDiffer orderVecs (p.rowAt n) (p.rowAt (n + 1)) <;> rfl
  obtain ⟨out', hout, hw⟩ := each_wrote hp _ (fun k => rank (k - 1)) hend.le hstep
    (update out (p.rowAt 0) (.int 1))
  rw [Nat.sub_self, hfirst] at hout
  rw [hend] at hw
  refine ⟨out', ?_, Wrote.cons hp hne le_rfl (by rwa [hfirst])⟩
  have hrow : p.row p.ps = some (p.rowAt 0) := row_eq (p := p) (k := 0) hne
  rw [rankLoop, hrow, bind_some]
  exact hout

def alike (orderVecs : List (Option KeyCol)) (ra rb : ℕ) : Bool := !winKeysDiffer orderVecs ra rb

variable [LinearOrder γ] {f : Func γ}

lemma compute_wrote (hp : p.Sound) (hne : 0 < p.len) (hfr : fr.supported = true) (hs : p.Fits fr f)
    (out : ℕ → Cell γ) :
    ∃ out', p.compute orderVecs fr f out = some out' ∧
      p.Wrote (fun k => (p.means (alike orderVecs) fr k f).getD (out (p.rowAt k))) 0 p.len out out' := by
  have hnone : p.Wrote (fun k => out (p.rowAt k)) 0 p.len out out := ⟨fun _ _ _ => rfl, fun _ _ => rfl⟩
  cases f with
  | rowNumber => exact every_wrote hp (fun k _ => by rw [Nat.cast_add, add_sub_cancel_left]; rfl) out
  | rank =>
    refine rankLoop_wrote hp hne (fun i _ => i - p.ps + 1) (p.rankAt (alike orderVecs)) rfl (fun k => ?_) out
    rw [rankAt_succ, alike, Nat.cast_add p.ps, add_sub_cancel_left]
  | denseRank =>
    exact rankLoop_wrote hp hne (fun _ rank => rank + 1) (p.denseAt (alike orderVecs)) rfl denseAt_succ out
  | ntile param => exact ntile_wrote hp hs out
  | count => exact count_wrote hp hfr hs out
  | sum fvec =>
    cases fvec with
    | none => exact ⟨out, rfl, hnone⟩
    | some fvec => exact sum_wrote hp fvec hfr out
  | sumReal fvec =>
    cases fvec with
    | none => exact ⟨out, rfl, hnone⟩
    | some fvec => exact real_wrote hp sumFinish fvec hfr out
  | avg fvec =>
    cases fvec with
    | none => exact ⟨out, rfl, hnone⟩
    | some fvec => exact real_wrote hp avgFinish fvec hfr out
  | best wantMax fvec =>
    cases fvec with
    | none => exact ⟨out, rfl, hnone⟩
    | some fvec => exact best_wrote hp wantMax fvec hfr out
  | lag param fvec =>
    cases fvec with
    | none => exact ⟨out, rfl, hnone⟩
    | some fvec => exact lag_wrote hp fvec hs out
  | lead param fvec =>
    cases fvec with
    | none => exact ⟨out, rfl, hnone⟩
    | some fvec => exact lead_wrote hp fvec hs out
  | firstValue fvec =>
    cases fvec with
    | none => exact ⟨out, rfl, hnone⟩
    | some fvec => exact firstValue_wrote hp fvec hfr out
  | lastValue fvec =>
    cases fvec with
    | none => exact ⟨out, rfl, hnone⟩
    | some fvec => exact lastValue_wrote hp hne fvec out
  | nthValue param fvec =>
    cases fvec with
    | none => exact ⟨out, rfl, hnone⟩
    | some fvec => exact nthValue_wrote hp fvec hfr hs out

lemma tied_congr {same' : ℕ → ℕ → Bool}
    (h : ∀ i, i + 1 < p.len → same (p.rowAt i) (p.rowAt (i + 1)) = same' (p.rowAt i) (p.rowAt (i + 1)))
    (hk : k < p.len) : p.Tied same j k ↔ p.Tied same' j k := by
  refine forall₂_congr fun i hi => ?_
  rw [h i ((Nat.succ_le_of_lt (Finset.mem_Ico.mp hi).2).trans_lt hk)]

lemma means_sameKeys (hs : p.Safe orderVecs fr f) (hk : k < p.len) :
    p.means (alike orderVecs) fr k f = p.means (sameKeys orderVecs) fr k f := by
  have htied : p.Comparable orderVecs → ∀ j l, l < p.len →
      (p.Tied (alike orderVecs) j l ↔ p.Tied (sameKeys orderVecs) j l) := by
    intro hc j l hl
    refine tied_congr (fun i hi => ?_) hl
    rw [alike, hc.differ_eq (by omega) hi, Bool.not_not]
  cases f with
  | rank =>
    rw [means, means]
    simp only [htied hs _ k hk]
  | denseRank =>
    have hset : (Finset.range k).filter (fun j => ¬p.Tied (alike orderVecs) j (j + 1)) =
        (Finset.range k).filter fun j => ¬p.Tied (sameKeys orderVecs) j (j + 1) := by
      refine Finset.filter_congr fun j hj => not_congr (htied hs j (j + 1) ?_)
      exact (Nat.succ_le_of_lt (Finset.mem_range.mp hj)).trans_lt hk
    rw [means, means, hset]
  | rowNumber | ntile param | count => rfl
  | sum fvec | sumReal fvec | avg fvec | best _ fvec | lag _ fvec | lead _ fvec | firstValue fvec | lastValue fvec
  | nthValue _ fvec => cases fvec <;> rfl

omit [LinearOrder γ] in
lemma Safe.fits (hs : p.Safe orderVecs fr f) : p.Fits fr f := by
  cases f <;> first | exact hs | trivial

omit [LinearOrder γ] in
lemma Wrote.eqOn {m : ℕ → Cell γ} {out out' : ℕ → Cell γ} (h : p.Wrote m 0 p.len out out') :
    Set.EqOn out' out (p.sortedIdx '' Set.Ico p.ps p.pe)ᶜ := by
  intro r hr
  refine h.others r fun k _ hk heq => hr ⟨p.ps + k, ⟨Nat.le_add_right _ _, ?_⟩, heq⟩
  have := ps_add_len (Nat.zero_lt_of_lt hk)
  omega

lemma compute_meets (hp : p.Sound) (hne : 0 < p.len) (hfr : fr.supported = true) (hs : p.Safe orderVecs fr f)
    (out : ℕ → Cell γ) :
    ∃ out', p.compute orderVecs fr f out = some out' ∧ p.Meets orderVecs fr out out' f ∧
      Set.EqOn out' out (p.sortedIdx '' Set.Ico p.ps p.pe)ᶜ := by
  obtain ⟨out', hout, hw⟩ := compute_wrote hp hne hfr hs.fits out
  refine ⟨out', hout, ?_, hw.eqOn⟩
  have hcells : ∀ k < p.len, out' (p.rowAt k) = (p.means (sameKeys orderVecs) fr k f).getD (out (p.rowAt k)) := by
    intro k hk
    rw [hw.cells k (Nat.zero_le k) hk, means_sameKeys hs hk]
  cases f with
  | ntile param => exact ⟨p.bucket (max param 1).toNat, bucket_balanced (by omega), hcells⟩
  | _ => exact hcells

omit [LinearOrder γ] in
def VecsAgree (p q : Part) (v w : Vec γ) : Prop :=
  ∀ k < p.len, v.isNull (p.rowAt k) = w.isNull (q.rowAt k) ∧ v.read (p.rowAt k) = w.read (q.rowAt k)

inductive Agrees (p q : Part) : Func γ → Func γ → Prop
  | rowNumber : Agrees p q .rowNumber .rowNumber
  | rank : Agrees p q .rank .rank
  | denseRank : Agrees p q .denseRank .denseRank
  | ntile (param : ℤ) : Agrees p q (.ntile param) (.ntile param)
  | count : Agrees p q .count .count
  | sum {v w} (h : Option.Rel (VecsAgree p q) v w) : Agrees p q (.sum v) (.sum w)
  | sumReal {v w} (h : Option.Rel (VecsAgree p q) v w) : Agrees p q (.sumReal v) (.sumReal w)
  | avg {v w} (h : Option.Rel (VecsAgree p q) v w) : Agrees p q (.avg v) (.avg w)
  | best {v w} (wantMax : Bool) (h : Option.Rel (VecsAgree p q) v w) :
    Agrees p q (.best wantMax v) (.best wantMax w)
  | lag {v w} (param : ℤ) (h : Option.Rel (VecsAgree p q) v w) : Agrees p q (.lag param v) (.lag param w)
  | lead {v w} (param : ℤ) (h : Option.Rel (VecsAgree p q) v w) : Agrees p q (.lead param v) (.lead param w)
  | firstValue {v w} (h : Option.Rel (VecsAgree p q) v w) : Agrees p q (.firstValue v) (.firstValue w)
  | lastValue {v w} (h : Option.Rel (VecsAgree p q) v w) : Agrees p q (.lastValue v) (.lastValue w)
  | nthValue {v w} (param : ℤ) (h : Option.Rel (VecsAgree p q) v w) :
    Agrees p q (.nthValue param v) (.nthValue param w)

section

variable {q : Part} {v w : Vec γ} {same' : ℕ → ℕ → Bool}

omit [LinearOrder γ] in
lemma VecsAgree.cellAt_eq (h : VecsAgree p q v w) {k : ℕ} (hk : k < p.len) :
    cellAt v (p.rowAt k) = cellAt w (q.rowAt k) := by
  rw [cellAt, cellAt, (h k hk).1, (h k hk).2]

omit [LinearOrder γ] in
lemma VecsAgree.filled_eq (h : VecsAgree p q v w) {s : Finset ℕ} (hs : ∀ j ∈ s, j < p.len) :
    p.filled v s = q.filled w s :=
  Finset.filter_congr fun j hj => by rw [(h j (hs j hj)).1]

lemma frame_lt {k : ℕ} (hk : k < p.len) : ∀ j ∈ p.frame fr k, j < p.len := by
  intro j hj
  have hlt := (Finset.mem_Ico.mp hj).2
  rw [hi] at hlt
  split at hlt <;> omega

lemma accReal_congr {v w : Vec Double} (h : VecsAgree p q v w) {k : ℕ} (hk : k ≤ p.len) :
    p.accReal fr v k = q.accReal fr w k := by
  induction k with
  | zero => rfl
  | succ k ih =>
    have hdrop : k - (fr.startN.toNat + 1) < p.len := by omega
    rw [accReal, accReal, ih (by omega), (h k (by omega)).1, (h k (by omega)).2, (h _ hdrop).1, (h _ hdrop).2]

lemma means_congr (hlen : p.len = q.len)
    (hsame : ∀ i, i + 1 < p.len → same (p.rowAt i) (p.rowAt (i + 1)) = same' (q.rowAt i) (q.rowAt (i + 1)))
    {g : Func γ} (h : Agrees p q f g) {k : ℕ} (hk : k < p.len) : p.means same fr k f = q.means same' fr k g := by
  have hhi : p.hi fr k = q.hi fr k := by rw [hi, hi, hlen]
  have hframe : p.frame fr k = q.frame fr k := by rw [frame, frame, hhi]
  have htied : ∀ j l, l < p.len → (p.Tied same j l ↔ q.Tied same' j l) := by
    intro j l hl
    refine forall₂_congr fun i hi => ?_
    rw [hsame i ((Nat.succ_le_of_lt (Finset.mem_Ico.mp hi).2).trans_lt hl)]
  have hle : p.hi fr k ≤ p.len := by
    rw [hi]
    split <;> omega
  cases h with
  | rowNumber => rfl
  | rank =>
    rw [means, means]
    simp only [htied _ k hk]
  | denseRank =>
    have hset : (Finset.range k).filter (fun j => ¬p.Tied same j (j + 1)) =
        (Finset.range k).filter fun j => ¬q.Tied same' j (j + 1) := by
      refine Finset.filter_congr fun j hj => not_congr (htied j (j + 1) ?_)
      exact (Nat.succ_le_of_lt (Finset.mem_range.mp hj)).trans_lt hk
    rw [means, means, hset]
  | ntile param => rw [means, means, bucket, bucket, hlen]
  | count => rw [means, means, hframe]
  | sum h =>
    cases h with
    | none => rfl
    | some h =>
      rw [means, means, h.filled_eq (frame_lt hk), hframe]
      congr 3
      refine Finset.sum_congr rfl fun j hj => (h j ?_).2
      exact frame_lt hk j (hframe ▸ Finset.mem_of_mem_filter j hj)
  | sumReal h =>
    cases h with
    | none => rfl
    | some h => rw [means, means, ← hhi, accReal_congr h hle]
  | avg h =>
    cases h with
    | none => rfl
    | some h => rw [means, means, ← hhi, accReal_congr h hle]
  | best wantMax h =>
    cases h with
    | none => rfl
    | some h =>
      rw [means, means, h.filled_eq (frame_lt hk), hframe]
      congr 3
      refine Finset.image_congr fun j hj => (h j ?_).2
      exact frame_lt hk j (hframe ▸ Finset.mem_of_mem_filter j hj)
  | lag param h =>
    cases h with
    | none => rfl
    | some h =>
      rw [means, means]
      rw [h.cellAt_eq (by omega)]
  | lead param h =>
    cases h with
    | none => rfl
    | some h =>
      rw [means, means]
      rw [← hlen]
      split
      · rw [h.cellAt_eq ‹_›]
      · rfl
  | firstValue h =>
    cases h with
    | none => rfl
    | some h => rw [means, means, h.cellAt_eq ((lo_le fr k).trans_lt hk)]
  | lastValue h =>
    cases h with
    | none => rfl
    | some h => rw [means, means, h.cellAt_eq (by omega), hhi]
  | nthValue param h =>
    cases h with
    | none => rfl
    | some h =>
      rw [means, means]
      rw [← hhi]
      split
      · rw [h.cellAt_eq (by omega)]
      · rfl

end

lemma meets_of_empty (hempty : p.len = 0) (f : Func γ) (out : ℕ → Cell γ) : p.Meets orderVecs fr out out f := by
  have hno : ∀ k, ¬k < p.len := fun k hk => by omega
  cases f with
  | ntile param => exact ⟨p.bucket (max param 1).toNat, bucket_balanced (by omega), fun k hk => absurd hk (hno k)⟩
  | _ => exact fun k hk => absurd hk (hno k)

end Part

variable {γ : Type} [LinearOrder γ] {p : Part} {orderVecs : List (Option KeyCol)} {fr : Frame}

/-- Each function writes for each row what it means on the frame, and nothing else is touched. -/
theorem partition_means_frames {funcs : List (Func γ × (ℕ → Cell γ))} (hp : p.Sound) (hfr : fr.supported = true)
    (hs : ∀ f ∈ funcs, p.Safe orderVecs fr f.1) :
    ∃ outs, winComputePartition p orderVecs fr funcs = some outs ∧
      List.Forall₂ (fun f out' => p.Meets orderVecs fr f.2 out' f.1 ∧
        Set.EqOn out' f.2 (p.sortedIdx '' Set.Ico p.ps p.pe)ᶜ) funcs outs := by
  rcases Nat.eq_zero_or_pos p.len with hempty | hne
  · rw [winComputePartition, if_pos (Nat.sub_eq_zero_iff_le.mp hempty)]
    refine ⟨_, rfl, ?_⟩
    rw [List.forall₂_map_right_iff, List.forall₂_same]
    exact fun f _ => ⟨Part.meets_of_empty hempty f.1 f.2, Set.eqOn_refl _ _⟩
  · rw [winComputePartition, if_neg (Nat.not_le.mpr (Nat.lt_of_sub_pos hne))]
    exact mapM_some_rel fun f hf => Part.compute_meets hp hne hfr (hs f hf) f.2

def oneRow : Part := ⟨id, 0, 1⟩

def wholeFrame : Frame := ⟨.range, .unboundedPreceding, .unboundedFollowing, 0, by decide⟩

def sevens : Vec ℤ := ⟨fun _ => false, fun _ => 7⟩

def fourRows : Part := ⟨fun k => 5 - k, 1, 5⟩

def lastTwo : Frame := ⟨.rows, .nPreceding, .currentRow, 1, by decide⟩

def gapped : Vec ℤ := ⟨fun row => row = 2, fun row => if row = 4 then 5 else if row = 3 then -2 else 8⟩

def tiedKeys : List (Option KeyCol) := [some (.int fun row => if row = 4 then 10 else if row = 1 then 30 else 20)]

def sevenFuncs : List (Func ℤ × (ℕ → Cell ℤ)) :=
  [Func.sum (some gapped), .count, .rank, .ntile 3, .lag 1 (some gapped), .lead 2 (some gapped),
    .nthValue 2 (some gapped)].map (·, fun _ => Cell.null)

theorem partition_means_frames_fourRows :
    (winComputePartition fourRows tiedKeys lastTwo sevenFuncs).map
    (fun outs => outs.map fun out => [4, 3, 2, 1].map out) =
        some [[.int 5, .int 3, .int (-2), .int 8], [.int 1, .int 2, .int 2, .int 2],
          [.int 1, .int 2, .int 2, .int 4],
          [.int 1, .int 1, .int 2, .int 3], [.null, .val 5, .val (-2), .null], [.null, .val 8, .null, .null],
          [.null, .val (-2), .null, .val 8]] ∧
      ∃ outs, winComputePartition fourRows tiedKeys lastTwo sevenFuncs = some outs ∧
        List.Forall₂ (fun f out' => fourRows.Meets tiedKeys lastTwo f.2 out' f.1 ∧
          Set.EqOn out' f.2 (fourRows.sortedIdx '' Set.Ico fourRows.ps fourRows.pe)ᶜ) sevenFuncs outs := by
  refine ⟨by decide, partition_means_frames ⟨?_, by decide⟩ (by decide) fun f hf => ?_⟩
  · intro j hj k hk hjk
    simp only [fourRows, Set.mem_Ico] at hj hk hjk
    omega
  · have hties : fourRows.Comparable tiedKeys := by
      intro col hcol
      obtain rfl : col = _ := by simpa [tiedKeys] using hcol
      trivial
    simp only [sevenFuncs, List.map_cons, List.map_nil, List.mem_cons, List.not_mem_nil, or_false] at hf
    rcases hf with rfl | rfl | rfl | rfl | rfl | rfl | rfl <;>
      first
        | exact hties
        | norm_num [Part.Safe, Part.Fits, Part.lo, fourRows, Part.len, lastTwo, Frame.trailing]

/-- `LAG` by no row at all does not give the row's own cell. -/
theorem lag_zero_null :
    ((winComputePartition oneRow [] wholeFrame [(.lag 0 (some sevens), fun _ => .null)]).map fun outs =>
      outs.map (· 0)) =
        some [Cell.null] ∧
      cellAt sevens (oneRow.sortedIdx (0 - 0)) = .val 7 := by
  decide

end Rayforce.Window
