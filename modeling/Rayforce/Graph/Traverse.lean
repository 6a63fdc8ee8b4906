import Rayforce.Graph.Relation
import Rayforce.Library.Levels

/-! `traverse.c`: expansion to a depth and shortest paths. -/

namespace Rayforce.Graph

open Library.Segments Library.Levels List Option

inductive Direction
  | fwd | rev | both
  deriving DecidableEq

def Csr.targetsOf (c : Csr) (node : ℤ) : List ℤ :=
  if node < 0 ∨ c.nNodes ≤ node then []
  else slice c.targets (c.offsets.getD node.toNat 0) (c.offsets.getD (node.toNat + 1) 0)

namespace Rel

def csrs (rel : Rel) : Direction → List Csr
  | .fwd => [rel.fwd]
  | .rev => [rel.rev]
  | .both => [rel.fwd, rel.rev]

def bfsNodes (rel : Rel) : Direction → ℕ
  | .fwd => rel.fwd.nNodes
  | .rev => rel.rev.nNodes
  | .both => if rel.fwd.nNodes < rel.rev.nNodes then rel.rev.nNodes else rel.fwd.nNodes

def neighbours (rel : Rel) (dir : Direction) (node : ℤ) : List ℤ :=
  (rel.csrs dir).flatMap fun c => c.targetsOf node

end Rel

structure Buffer (β : Type) where
  cells : List β
  cap : ℕ

def Buffer.push {β : Type} (b : Buffer β) (x : β) : Option (Buffer β) :=
  let cap := if b.cap ≤ b.cells.length then b.cap * 2 else b.cap
  if b.cells.length < cap then some ⟨b.cells ++ [x], cap⟩ else none

def setBit (bits : List Bool) (i : ℤ) : Option (List Bool) :=
  if 0 ≤ i ∧ i < bits.length then some (bits.set i.toNat true) else none

structure Sweep where
  visited : List Bool
  front : Buffer ℤ
  out : Buffer (ℤ × ℤ × ℕ)

def visitNbr (bound minDepth : ℕ) (start : ℤ) (depth : ℕ) (st : Sweep) (nbr : ℤ) : Option Sweep :=
  if nbr < 0 ∨ (bound : ℤ) ≤ nbr then some st
  else
    match st.visited[nbr.toNat]? with
    | none => none
    | some true => some st
    | some false =>
      (setBit st.visited nbr).bind fun visited =>
        (st.front.push nbr).bind fun front =>
          (if minDepth ≤ depth then st.out.push (start, nbr, depth) else some st.out).map fun out =>
            ⟨visited, front, out⟩

def sweepLevel (csrs : List Csr) (bound minDepth : ℕ) (start : ℤ) (depth : ℕ) (st : Sweep) (frontier : List ℤ) :
    Option Sweep :=
  frontier.foldlM (fun st node =>
    csrs.foldlM (fun st c => (c.targetsOf node).foldlM (visitNbr bound minDepth start depth) st) st) st

def expandLevels (csrs : List Csr) (bound minDepth : ℕ) (start : ℤ) :
    ℕ → ℕ → List ℤ → List Bool → Buffer (ℤ × ℤ × ℕ) → Option (Buffer (ℤ × ℤ × ℕ))
  | 0, _, _, _, out => some out
  | fuel + 1, depth, frontier, visited, out =>
    if frontier.length = 0 then some out
    else
      let cap := if frontier.length * 4 < 64 then 64 else frontier.length * 4
      (sweepLevel csrs bound minDepth start depth ⟨visited, ⟨[], cap⟩, out⟩ frontier).bind fun st =>
        expandLevels csrs bound minDepth start fuel (depth + 1) st.front.cells st.visited st.out

def expandStart (csrs : List Csr) (bound minDepth maxDepth : ℕ) (out : Buffer (ℤ × ℤ × ℕ)) (start : ℤ) :
    Option (Buffer (ℤ × ℤ × ℕ)) :=
  if start < 0 ∨ (bound : ℤ) ≤ start then some out
  else (setBit (List.replicate bound false) start).bind fun visited =>
    expandLevels csrs bound minDepth start maxDepth 1 [start] visited out

def execVarExpand (rel : Rel) (dir : Direction) (minDepth maxDepth : ℕ) (starts : List ℤ) :
    Option (List (ℤ × ℤ × ℕ)) :=
  (starts.foldlM (expandStart (rel.csrs dir) (rel.bfsNodes dir) minDepth maxDepth) ⟨[], 1024⟩).map Buffer.cells

def expandDir (c : Csr) (srcs : List ℤ) : List (ℤ × ℤ) :=
  srcs.flatMap fun node => (c.targetsOf node).map fun nbr => (node, nbr)

def execExpand (rel : Rel) (dir : Direction) (srcs : List ℤ) : List (ℤ × ℤ) :=
  (rel.csrs dir).flatMap fun c => expandDir c srcs

section

variable {β : Type} {b : Buffer β} {bits : List Bool} {seen : List ℤ} {bound : ℕ} {v : ℤ}

def Buffer.Fits (b : Buffer β) : Prop := 0 < b.cap ∧ b.cells.length ≤ b.cap

lemma Buffer.Fits.push (h : b.Fits) (x : β) : ∃ b', b.push x = some b' ∧ b'.Fits ∧ b'.cells = b.cells ++ [x] := by
  have hroom : b.cells.length < if b.cap ≤ b.cells.length then b.cap * 2 else b.cap := by
    obtain ⟨hpos, hle⟩ := h
    split_ifs <;> omega
  refine ⟨_, if_pos hroom, ⟨Nat.zero_lt_of_lt hroom, ?_⟩, rfl⟩
  rw [length_append]
  exact hroom

def within (bound : ℕ) (v : ℤ) : Bool := decide (0 ≤ v ∧ v < bound)

lemma within_iff : within bound v = true ↔ 0 ≤ v ∧ v < bound := decide_eq_true_iff

structure Marked (bound : ℕ) (bits : List Bool) (seen : List ℤ) : Prop where
  length : bits.length = bound
  bounded : ∀ v ∈ seen, within bound v = true
  bit : ∀ v, within bound v = true → bits[v.toNat]? = some (decide (v ∈ seen))

lemma Marked.set (h : Marked bound bits seen) (hv : within bound v = true) :
    ∃ bits', setBit bits v = some bits' ∧ Marked bound bits' (v :: seen) := by
  obtain ⟨h0, hlt⟩ := within_iff.mp hv
  refine ⟨_, if_pos ⟨h0, h.length ▸ hlt⟩, ⟨by rw [length_set, h.length], forall_mem_cons.mpr ⟨hv, h.bounded⟩, ?_⟩⟩
  intro w hw
  obtain ⟨hw0, hwlt⟩ := within_iff.mp hw
  by_cases hwv : w = v
  · subst hwv
    rw [getElem?_set_self (by rw [h.length]; omega), decide_eq_true mem_cons_self]
  · rw [getElem?_set_ne (by omega), h.bit w hw]
    simp [hwv]

lemma Marked.congr {seen' : List ℤ} (h : Marked bound bits seen) (hs : ∀ v, v ∈ seen ↔ v ∈ seen') :
    Marked bound bits seen' :=
  ⟨h.length, fun v hv => h.bounded v ((hs v).mpr hv), fun v hv =>
    (h.bit v hv).trans (congrArg some (decide_eq_decide.mpr (hs v)))⟩

lemma marked_start (hv : within bound v = true) : ∃ bits, setBit (List.replicate bound false) v = some bits ∧
    Marked bound bits [v] := by
  have h : Marked bound (replicate bound false) [] := by
    refine ⟨length_replicate, by simp, fun w hw => ?_⟩
    obtain ⟨hw0, hwlt⟩ := within_iff.mp hw
    rw [getElem?_replicate_of_lt (by omega)]
    simp
  exact h.set hv

lemma foldlM_flatMap {γ δ : Type} {f : β → γ → Option β} (g : δ → List γ) (l : List δ) (x : β) :
    (l.flatMap g).foldlM f x = l.foldlM (fun x a => (g a).foldlM f x) x := by
  induction l generalizing x with
  | nil => rfl
  | cons a l ih =>
    rw [flatMap_cons, foldlM_append, foldlM_cons]
    exact congrArg _ (funext ih)

end

section

variable {rel : Rel} {dir : Direction} {csrs : List Csr} {bound minDepth depth : ℕ} {start : ℤ} {st : Sweep}
    {seen N : List ℤ}
  {O : List (ℤ × ℤ × ℕ)}

structure Swept (bound : ℕ) (st : Sweep) (seen N : List ℤ) (O : List (ℤ × ℤ × ℕ)) : Prop where
  marked : Marked bound st.visited seen
  fits : st.front.Fits
  front : st.front.cells = N
  fitsOut : st.out.Fits
  out : st.out.cells = O

def depthRows (minDepth : ℕ) (start : ℤ) (depth : ℕ) (l : List ℤ) : List (ℤ × ℤ × ℕ) :=
  if minDepth ≤ depth then l.map fun v => (start, v, depth) else []

lemma depthRows_append (l l' : List ℤ) :
    depthRows minDepth start depth (l ++ l') = depthRows minDepth start depth l ++
      depthRows minDepth start depth l' := by
  rw [depthRows, depthRows, depthRows]
  split_ifs
  · exact map_append
  · rfl

variable (minDepth depth start) in
lemma Swept.visit (h : Swept bound st seen N O) (v : ℤ) :
    ∃ st', visitNbr bound minDepth start depth st v = some st' ∧
    Swept bound st' (fresh seen ([v].filter (within bound)) ++ seen) (N ++ fresh seen ([v].filter (within bound)))
      (O ++ depthRows minDepth start depth (fresh seen ([v].filter (within bound)))) := by
  rw [visitNbr]
  by_cases hv : within bound v = true
  · obtain ⟨h0, hlt⟩ := within_iff.mp hv
    have hin : ¬ (v < 0 ∨ (bound : ℤ) ≤ v) := by omega
    have hfilter : [v].filter (within bound) = [v] := filter_eq_self.mpr (by simpa using hv)
    rw [if_neg hin, hfilter, h.marked.bit v hv, fresh]
    by_cases hseen : v ∈ seen
    · refine ⟨st, by simp [hseen], ?_⟩
      simpa [hseen, fresh, depthRows] using h
    · obtain ⟨bits, hbits, hmarked⟩ := h.marked.set hv
      obtain ⟨front, hfront, hfits, hcells⟩ := h.fits.push v
      have hout : ∃ out, (if minDepth ≤ depth then st.out.push (start, v, depth) else some st.out) =
        some out ∧ out.Fits ∧ out.cells = O ++ depthRows minDepth start depth [v] := by
        rw [depthRows]
        split_ifs
        · obtain ⟨out, hout, hfits, hcells⟩ := h.fitsOut.push (start, v, depth)
          exact ⟨out, hout, hfits, by rw [hcells, h.out]; rfl⟩
        · exact ⟨st.out, rfl, h.fitsOut, by rw [h.out, append_nil]⟩
      obtain ⟨out, hout, hfitsOut, hrows⟩ := hout
      refine ⟨⟨bits, front, out⟩, ?_, ?_⟩
      · simp [hseen, hbits, hfront, hout]
      · rw [if_neg hseen, fresh]
        exact ⟨hmarked, hfits, by rw [hcells, h.front], hfitsOut, hrows⟩
  · have hout : v < 0 ∨ (bound : ℤ) ≤ v := by
      rw [within_iff] at hv
      omega
    have hfilter : [v].filter (within bound) = [] := filter_eq_nil_iff.mpr (by simpa using hv)
    refine ⟨st, if_pos hout, ?_⟩
    rw [hfilter]
    simpa [fresh, depthRows] using h

variable (minDepth depth start) in
lemma Swept.visitAll (h : Swept bound st seen N O) (l : List ℤ) :
    ∃ st', l.foldlM (visitNbr bound minDepth start depth) st = some st' ∧
    Swept bound st' (fresh seen (l.filter (within bound)) ++ seen) (N ++ fresh seen (l.filter (within bound)))
      (O ++ depthRows minDepth start depth (fresh seen (l.filter (within bound)))) := by
  induction l generalizing st seen N O with
  | nil => exact ⟨st, rfl, by simpa [fresh, depthRows] using h⟩
  | cons v l ih =>
    obtain ⟨st₁, h₁, hs₁⟩ := h.visit minDepth depth start v
    obtain ⟨st₂, h₂, hs₂⟩ := ih hs₁
    have hfilter : (v :: l).filter (within bound) = [v].filter (within bound) ++ l.filter (within bound) :=
      filter_append [v] l
    refine ⟨st₂, ?_, ?_⟩
    · rw [foldlM_cons, h₁]
      exact h₂
    · rw [hfilter, fresh_append, depthRows_append, ← append_assoc N, ← append_assoc O]
      refine { hs₂ with marked := hs₂.marked.congr fun x => ?_ }
      simp only [mem_append]
      tauto

variable (csrs minDepth depth start) in
lemma Swept.sweepLevel (h : Swept bound st seen [] O) (frontier : List ℤ) :
    ∃ st', Graph.sweepLevel csrs bound minDepth start depth st frontier = some st' ∧
      Swept bound st' (fresh seen (frontier.flatMap fun node =>
        (csrs.flatMap fun c => c.targetsOf node).filter (within bound)) ++ seen)
        (fresh seen (frontier.flatMap fun node => (csrs.flatMap fun c => c.targetsOf node).filter (within bound)))
        (O ++ depthRows minDepth start depth
          (fresh seen (frontier.flatMap fun node =>
            (csrs.flatMap fun c => c.targetsOf node).filter (within bound)))) := by
  obtain ⟨st', hst, hs⟩ := h.visitAll minDepth depth start
    (frontier.flatMap fun node => csrs.flatMap fun c => c.targetsOf node)
  rw [foldlM_flatMap] at hst
  rw [filter_flatMap, nil_append] at hs
  refine ⟨st', ?_, hs⟩
  rw [← hst, Graph.sweepLevel]
  simp only [foldlM_flatMap]

def Rel.reach (rel : Rel) (dir : Direction) (node : ℤ) : List ℤ :=
  (rel.neighbours dir node).filter (within (rel.bfsNodes dir))

def levelRows (next : ℤ → List ℤ) (start : ℤ) (minDepth first count : ℕ) : List (ℤ × ℤ × ℕ) :=
  (List.range' first count).flatMap fun d => depthRows minDepth start d (level next start d).1

lemma levelRows_empty {next : ℤ → List ℤ} {first : ℕ} (hempty : (level next start first).1 = []) (count : ℕ) :
    levelRows next start minDepth (first + 1) count = [] := by
  rw [levelRows, flatMap_eq_nil_iff]
  intro d hd
  have hle := (mem_range'_1.mp hd).1
  have hnone : (level next start d).1 = [] := by
    rw [eq_nil_iff_forall_not_mem]
    intro v hv
    refine hops_none_of_le (m := first) (fun u hu => ?_) (by omega) v (mem_level.mp hv)
    have hmem := mem_level.mpr hu
    rw [hempty] at hmem
    exact not_mem_nil hmem
  rw [hnone, depthRows]
  split_ifs <;> rfl

lemma expandLevels_spec {visited : List Bool} {out : Buffer (ℤ × ℤ × ℕ)} {k : ℕ} (fuel : ℕ)
    (hm : Marked (rel.bfsNodes dir) visited (level (rel.reach dir) start k).2) (hfits : out.Fits) :
    ∃ out', expandLevels (rel.csrs dir) (rel.bfsNodes dir) minDepth start fuel (k + 1)
    (level (rel.reach dir) start k).1 visited out = some out' ∧
      out'.Fits ∧ out'.cells = out.cells ++ levelRows (rel.reach dir) start minDepth (k + 1) fuel := by
  induction fuel generalizing k visited out with
  | zero => exact ⟨out, rfl, hfits, by simp [levelRows]⟩
  | succ fuel ih =>
    rw [expandLevels]
    by_cases hempty : (level (rel.reach dir) start k).1.length = 0
    · rw [if_pos hempty]
      exact ⟨out, rfl, hfits, by rw [levelRows_empty (length_eq_zero_iff.mp hempty), append_nil]⟩
    · rw [if_neg hempty]
      have hcap : (⟨[], if (level (rel.reach dir) start k).1.length * 4 < 64 then
        64 else (level (rel.reach dir) start k).1.length * 4⟩ : Buffer ℤ).Fits := by
        refine ⟨?_, Nat.zero_le _⟩
        dsimp only
        split_ifs <;> omega
      have hswept : Swept (rel.bfsNodes dir) ⟨visited, _, out⟩ (level (rel.reach dir) start k).2 [] out.cells :=
        ⟨hm, hcap, rfl, hfits, rfl⟩
      obtain ⟨st, hst, hs⟩ := hswept.sweepLevel (rel.csrs dir) minDepth (k + 1) start
        (level (rel.reach dir) start k).1
      obtain ⟨out', hout, hfits', hcells⟩ := ih (k := k + 1) hs.marked hs.fitsOut
      refine ⟨out', ?_, hfits', ?_⟩
      · simp only [hst, bind_some, hs.front]
        exact hout
      · rw [hcells, hs.out, levelRows, levelRows, range'_succ, flatMap_cons, append_assoc]
        rfl

def startRows (rel : Rel) (dir : Direction) (minDepth maxDepth : ℕ) (start : ℤ) : List (ℤ × ℤ × ℕ) :=
  if within (rel.bfsNodes dir) start then levelRows (rel.reach dir) start minDepth 1 maxDepth else []

lemma expandStart_spec (rel : Rel) (dir : Direction) (minDepth maxDepth : ℕ) {out : Buffer (ℤ × ℤ × ℕ)}
    (hfits : out.Fits) (start : ℤ) :
    ∃ out', expandStart (rel.csrs dir) (rel.bfsNodes dir) minDepth maxDepth out start = some out' ∧ out'.Fits ∧
      out'.cells = out.cells ++ startRows rel dir minDepth maxDepth start := by
  rw [expandStart, startRows]
  by_cases hin : within (rel.bfsNodes dir) start = true
  · obtain ⟨h0, hlt⟩ := within_iff.mp hin
    have hno : ¬ (start < 0 ∨ (rel.bfsNodes dir : ℤ) ≤ start) := by omega
    obtain ⟨bits, hbits, hm⟩ := marked_start hin
    rw [if_neg hno, if_pos hin, hbits, bind_some]
    exact expandLevels_spec (k := 0) maxDepth hm hfits
  · have hout : start < 0 ∨ (rel.bfsNodes dir : ℤ) ≤ start := by
      rw [within_iff] at hin
      omega
    rw [if_pos hout, if_neg hin]
    exact ⟨out, rfl, hfits, (append_nil _).symm⟩

lemma expandStarts_spec (rel : Rel) (dir : Direction) (minDepth maxDepth : ℕ) {out : Buffer (ℤ × ℤ × ℕ)}
    (hfits : out.Fits) (starts : List ℤ) :
    ∃ out', starts.foldlM (expandStart (rel.csrs dir) (rel.bfsNodes dir) minDepth maxDepth) out = some out' ∧
      out'.cells = out.cells ++ starts.flatMap (startRows rel dir minDepth maxDepth) := by
  induction starts generalizing out with
  | nil => exact ⟨out, rfl, by simp⟩
  | cons s starts ih =>
    obtain ⟨out₁, h₁, hfits₁, hcells₁⟩ := expandStart_spec rel dir minDepth maxDepth hfits s
    obtain ⟨out₂, h₂, hcells₂⟩ := ih hfits₁
    refine ⟨out₂, ?_, by rw [hcells₂, hcells₁, flatMap_cons, append_assoc]⟩
    rw [foldlM_cons, h₁]
    exact h₂

lemma execVarExpand_eq (rel : Rel) (dir : Direction) (minDepth maxDepth : ℕ) (starts : List ℤ) :
    execVarExpand rel dir minDepth maxDepth starts =
      some (starts.flatMap (startRows rel dir minDepth maxDepth)) := by
  have hfits : (⟨[], 1024⟩ : Buffer (ℤ × ℤ × ℕ)).Fits := ⟨by decide, Nat.zero_le _⟩
  obtain ⟨out, hout, hcells⟩ := expandStarts_spec rel dir minDepth maxDepth hfits starts
  rw [execVarExpand, hout, map_some, hcells, nil_append]

end

section

variable {rel : Rel} {dir : Direction} {s u v : ℤ} {n : ℕ}

lemma targetsOf_within {c : Csr} (hv : v ∈ c.targetsOf u) : within c.nNodes u = true := by
  rw [Csr.targetsOf] at hv
  split_ifs at hv with hout
  · exact absurd hv not_mem_nil
  · exact within_iff.mpr (by omega)

lemma nNodes_le {c : Csr} (hc : c ∈ rel.csrs dir) : c.nNodes ≤ rel.bfsNodes dir := by
  cases dir with
  | fwd => exact (congrArg Csr.nNodes (mem_singleton.mp hc)).le
  | rev => exact (congrArg Csr.nNodes (mem_singleton.mp hc)).le
  | both =>
    obtain rfl | rfl : c = rel.fwd ∨ c = rel.rev := by simpa [Rel.csrs] using hc
    all_goals
      rw [Rel.bfsNodes]
      split_ifs <;> omega

lemma neighbours_within (hv : v ∈ rel.neighbours dir u) : within (rel.bfsNodes dir) u = true := by
  obtain ⟨c, hc, hv⟩ := mem_flatMap.mp hv
  have hu := within_iff.mp (targetsOf_within hv)
  have hle := nNodes_le hc
  exact within_iff.mpr (by omega)

lemma walk_of_reach (h : Walk (rel.reach dir) s n v) : Walk (rel.neighbours dir) s n v := by
  induction h with
  | zero => exact .zero
  | snoc _ hv ih => exact .snoc ih (mem_of_mem_filter hv)

lemma walk_reach (h : Walk (rel.neighbours dir) s n v) (hv : within (rel.bfsNodes dir) v = true) :
    Walk (rel.reach dir) s n v := by
  induction h with
  | zero => exact .zero
  | snoc _ hnbr ih => exact .snoc (ih (neighbours_within hnbr)) (mem_filter.mpr ⟨hnbr, hv⟩)

lemma hops_reach (hv : within (rel.bfsNodes dir) v = true) :
    Hops (rel.reach dir) s n v ↔ Hops (rel.neighbours dir) s n v := by
  have hwalk : ∀ k, Walk (rel.reach dir) s k v ↔ Walk (rel.neighbours dir) s k v :=
    fun k => ⟨walk_of_reach, fun h => walk_reach h hv⟩
  simp only [Hops, hwalk]

lemma reach_within (hs : within (rel.bfsNodes dir) s = true) (h : Hops (rel.reach dir) s n v) :
    within (rel.bfsNodes dir) v = true := by
  cases n with
  | zero => rwa [hops_zero.mp h]
  | succ n =>
    obtain ⟨⟨u, -, hv⟩, -⟩ := hops_succ.mp h
    exact (mem_filter.mp hv).2

lemma hops_beyond (hs : ¬ within (rel.bfsNodes dir) s = true) (h : Hops (rel.neighbours dir) s n v) : n = 0 := by
  by_contra hn
  obtain ⟨m, rfl⟩ := Nat.exists_eq_succ_of_ne_zero hn
  have hno : ∀ u, ¬ Hops (rel.neighbours dir) s 1 u := by
    intro u hu
    obtain ⟨⟨w, hw, hv⟩, -⟩ := hops_succ.mp hu
    rw [hops_zero.mp hw] at hv
    exact hs (neighbours_within hv)
  exact hops_none_of_le hno (by omega) v h

end

section

variable {rel : Rel} {dir : Direction} {minDepth maxDepth : ℕ} {s : ℤ}

lemma mem_depthRows {start : ℤ} {depth : ℕ} {l : List ℤ} {r : ℤ × ℤ × ℕ} :
    r ∈ depthRows minDepth start depth l ↔ r.1 = start ∧ r.2.1 ∈ l ∧ r.2.2 = depth ∧ minDepth ≤ depth := by
  obtain ⟨a, v, d⟩ := r
  rw [depthRows]
  split_ifs with h
  · simp only [List.mem_map, Prod.mk.injEq]
    constructor
    · rintro ⟨w, hw, rfl, rfl, rfl⟩
      exact ⟨rfl, hw, rfl, h⟩
    · rintro ⟨rfl, hv, rfl, -⟩
      exact ⟨v, hv, rfl, rfl, rfl⟩
  · simp [h]

lemma mem_levelRows {next : ℤ → List ℤ} {start : ℤ} {first count : ℕ} {r : ℤ × ℤ × ℕ} :
    r ∈ levelRows next start minDepth first count ↔
    r.1 = start ∧ Hops next start r.2.2 r.2.1 ∧ first ≤ r.2.2 ∧ r.2.2 < first + count ∧ minDepth ≤ r.2.2 := by
  rw [levelRows, mem_flatMap]
  simp only [mem_depthRows, mem_range'_1, mem_level]
  constructor
  · rintro ⟨d, hd, hr, hv, rfl, hmin⟩
    exact ⟨hr, hv, hd.1, hd.2, hmin⟩
  · rintro ⟨hr, hv, hlow, hhigh, hmin⟩
    exact ⟨_, ⟨hlow, hhigh⟩, hr, hv, rfl, hmin⟩

lemma nodup_levelRows (next : ℤ → List ℤ) (start : ℤ) (minDepth first count : ℕ) :
    (levelRows next start minDepth first count).Nodup := by
  rw [levelRows, nodup_flatMap]
  constructor
  · intro d _
    rw [depthRows]
    split_ifs
    · refine (nodup_level d).map fun v w h => ?_
      simpa using h
    · exact nodup_nil
  · refine List.Pairwise.imp (fun hne r hr hr' => hne ?_) nodup_range'
    exact (mem_depthRows.mp hr).2.2.1.symm.trans (mem_depthRows.mp hr').2.2.1

def Exact (rel : Rel) (dir : Direction) (minDepth maxDepth : ℕ) (start : ℤ) (rows : List (ℤ × ℤ × ℕ)) : Prop :=
  rows.Nodup ∧ ∀ r, r ∈ rows ↔ r.1 = start ∧ Hops (rel.neighbours dir) start r.2.2 r.2.1 ∧ max 1 minDepth ≤ r.2.2 ∧
    r.2.2 ≤ maxDepth

def VarExact (rel : Rel) (dir : Direction) (minDepth maxDepth : ℕ) (starts : List ℤ) : Prop :=
  ∃ blocks, execVarExpand rel dir minDepth maxDepth starts = some blocks.flatten ∧
    List.Forall₂ (Exact rel dir minDepth maxDepth) starts blocks

lemma mem_startRows {r : ℤ × ℤ × ℕ} :
    r ∈ startRows rel dir minDepth maxDepth s ↔ r.1 = s ∧ within (rel.bfsNodes dir) r.2.1 = true ∧
    Hops (rel.neighbours dir) s r.2.2 r.2.1 ∧ max 1 minDepth ≤ r.2.2 ∧ r.2.2 ≤ maxDepth := by
  rw [startRows]
  split_ifs with hs
  · rw [mem_levelRows]
    constructor
    · rintro ⟨hr, hd, hlow, hhigh, hmin⟩
      have hv := reach_within hs hd
      exact ⟨hr, hv, (hops_reach hv).mp hd, by omega, by omega⟩
    · rintro ⟨hr, hv, hd, hlow, hhigh⟩
      exact ⟨hr, (hops_reach hv).mpr hd, by omega, by omega, by omega⟩
  · refine iff_of_false not_mem_nil ?_
    rintro ⟨-, -, hd, hlow, -⟩
    have hzero := hops_beyond hs hd
    omega

lemma nodup_startRows (rel : Rel) (dir : Direction) (minDepth maxDepth : ℕ) (s : ℤ) :
    (startRows rel dir minDepth maxDepth s).Nodup := by
  rw [startRows]
  split_ifs
  · exact nodup_levelRows ..
  · exact nodup_nil

lemma varExact_iff (starts : List ℤ) : VarExact rel dir minDepth maxDepth starts ↔
    ∀ s ∈ starts, ∀ v d, max 1 minDepth ≤ d → d ≤ maxDepth → Hops (rel.neighbours dir) s d v →
      within (rel.bfsNodes dir) v = true := by
  rw [VarExact, execVarExpand_eq]
  constructor
  · rintro ⟨blocks, hblocks, hexact⟩ s hs v d hlow hhigh hd
    have hin : ∀ {l : List ℤ} {bs : List (List (ℤ × ℤ × ℕ))},
      List.Forall₂ (Exact rel dir minDepth maxDepth) l bs → s ∈ l → (s, v, d) ∈ bs.flatten := by
      intro l bs h
      induction h with
      | nil => exact fun hs => absurd hs not_mem_nil
      | cons hb _ ih =>
        intro hs
        rw [flatten_cons, mem_append]
        obtain rfl | hs := mem_cons.mp hs
        · exact .inl ((hb.2 _).mpr ⟨rfl, hd, hlow, hhigh⟩)
        · exact .inr (ih hs)
    have hrow := hin hexact hs
    rw [← some.inj hblocks] at hrow
    obtain ⟨s', -, hrow⟩ := mem_flatMap.mp hrow
    exact (mem_startRows.mp hrow).2.1
  · intro h
    refine ⟨starts.map (startRows rel dir minDepth maxDepth), by rw [flatMap_def], ?_⟩
    rw [forall₂_map_right_iff, forall₂_same]
    refine fun s hs => ⟨nodup_startRows .., fun r => ?_⟩
    rw [mem_startRows]
    exact ⟨fun hr => ⟨hr.1, hr.2.2⟩, fun hr => ⟨hr.1, h s hs _ _ hr.2.2.1 hr.2.2.2 hr.2.1, hr.2⟩⟩

lemma varExpand_one {rows : List (ℤ × ℤ × ℕ)} {starts : List ℤ} {v : ℤ}
    (h : execVarExpand rel dir 1 1 starts = some rows) :
    (s, v, 1) ∈ rows ↔ ((s, v) ∈ execExpand rel dir starts ∧ v ≠ s) ∧ within (rel.bfsNodes dir) v = true := by
  rw [execVarExpand_eq, some.injEq] at h
  have hone : Hops (rel.neighbours dir) s 1 v ↔ v ∈ rel.neighbours dir s ∧ v ≠ s := by
    rw [hops_succ]
    simp only [hops_zero, exists_eq_left, Nat.le_zero, forall_eq]
  have hexpand : (s, v) ∈ execExpand rel dir starts ↔ s ∈ starts ∧ v ∈ rel.neighbours dir s := by
    simp only [execExpand, expandDir, Rel.neighbours, mem_flatMap, List.mem_map, Prod.mk.injEq]
    constructor
    · rintro ⟨c, hc, _, hs, _, hv, rfl, rfl⟩
      exact ⟨hs, c, hc, hv⟩
    · rintro ⟨hs, c, hc, hv⟩
      exact ⟨c, hc, s, hs, v, hv, rfl, rfl⟩
  rw [← h, hexpand]
  simp only [mem_flatMap, mem_startRows]
  constructor
  · rintro ⟨s', hs', rfl, hw, hn, -⟩
    exact ⟨⟨⟨hs', (hone.mp hn).1⟩, (hone.mp hn).2⟩, hw⟩
  · rintro ⟨⟨⟨hs, hn⟩, hne⟩, hw⟩
    exact ⟨s, hs, rfl, hw, hone.mpr ⟨hn, hne⟩, by decide⟩

end

structure Search where
  parent : List ℤ
  queue : Buffer ℤ
  found : Bool

def tryNbr (bound : ℕ) (dst node : ℤ) (st : Search) (nbr : ℤ) : Option Search :=
  if st.found then some st
  else if nbr < 0 ∨ (bound : ℤ) ≤ nbr then some st
  else
    match st.parent[nbr.toNat]? with
    | none => none
    | some p =>
      if p ≠ -1 then some st
      else if nbr = dst then some ⟨st.parent.set nbr.toNat node, st.queue, true⟩
      else (st.queue.push nbr).map fun queue => ⟨st.parent.set nbr.toNat node, queue, false⟩

def searchLevels (csrs : List Csr) (bound : ℕ) (dst : ℤ) : ℕ → ℕ → Search → Option Search
  | 0, _, st => some st
  | fuel + 1, qStart, st =>
    if st.found then some st
    else
      ((st.queue.cells.drop qStart).foldlM
        (fun st node => csrs.foldlM (fun st (c : Csr) => (c.targetsOf node).foldlM (tryNbr bound dst node) st) st)
          st).bind fun st' => searchLevels csrs bound dst fuel st.queue.cells.length st'

def followParents (parent : List ℤ) (src : ℤ) : ℕ → ℤ → List ℤ → Option (ℤ × List ℤ)
  | 0, cur, path => some (cur, path)
  | fuel + 1, cur, path =>
    if cur = src then some (cur, path)
    else if cur < 0 then none
    else parent[cur.toNat]?.bind fun p => followParents parent src fuel p (path ++ [cur])

inductive PathError
  | nodeRange | noPath | tooLong
  deriving DecidableEq

def execShortestPath (rel : Rel) (dir : Direction) (maxDepth : ℕ) (src dst : ℤ) :
    Option (Except PathError (List (ℤ × ℕ))) :=
  let bound := rel.bfsNodes dir
  if src < 0 ∨ (bound : ℤ) ≤ src ∨ dst < 0 ∨ (bound : ℤ) ≤ dst then some (.error .nodeRange)
  else if src = dst then some (.ok [(src, 0)])
  else
    (searchLevels (rel.csrs dir) bound dst maxDepth 0
      ⟨(List.replicate bound (-1)).set src.toNat src, ⟨[src], 1024⟩, false⟩).bind fun st =>
      if st.found then
        (followParents st.parent src 255 dst []).bind fun x =>
          if x.1 ≠ src then some (.error .tooLong)
          else if x.2.length < 256 then some (.ok (x.2 ++ [src]).reverse.zipIdx)
          else none
      else some (.error .noPath)

section

variable {rel : Rel} {dir : Direction} {src dst u v : ℤ} {parent : List ℤ} {seen seen' : List ℤ} {d : ℕ}

structure Parents (rel : Rel) (dir : Direction) (src : ℤ) (parent seen : List ℤ) : Prop where
  length : parent.length = rel.bfsNodes dir
  root : src ∈ seen
  bounded : ∀ v ∈ seen, within (rel.bfsNodes dir) v = true
  mark : ∀ v, within (rel.bfsNodes dir) v = true → ∃ p, parent[v.toNat]? = some p ∧ (p ≠ -1 ↔ v ∈ seen)
  link : ∀ v ∈ seen, v ≠ src → ∃ u d, parent[v.toNat]? = some u ∧ u ∈ seen ∧ v ∈ rel.neighbours dir u ∧
    Hops (rel.reach dir) src d u ∧ Hops (rel.reach dir) src (d + 1) v

section

variable (h : Parents rel dir src parent seen)
include h

lemma Parents.set (hv : within (rel.bfsNodes dir) v = true) (hnew : v ∉ seen) (hu : u ∈ seen)
    (hnbr : v ∈ rel.neighbours dir u) (hd : Hops (rel.reach dir) src d u)
    (hd' : Hops (rel.reach dir) src (d + 1) v) :
    Parents rel dir src (parent.set v.toNat u) (v :: seen) := by
  obtain ⟨h0, hlt⟩ := within_iff.mp hv
  have hself : (parent.set v.toNat u)[v.toNat]? = some u := getElem?_set_self (by rw [h.length]; omega)
  have hother : ∀ w, within (rel.bfsNodes dir) w = true → w ≠ v → (parent.set v.toNat u)[w.toNat]? =
      parent[w.toNat]? := by
    intro w hw hwv
    have hw0 := (within_iff.mp hw).1
    exact getElem?_set_ne (by omega)
  have hu0 := (within_iff.mp (h.bounded u hu)).1
  refine ⟨by rw [length_set, h.length], mem_cons_of_mem _ h.root, forall_mem_cons.mpr ⟨hv, h.bounded⟩,
    fun w hw => ?_, fun w hw hws => ?_⟩
  · by_cases hwv : w = v
    · subst hwv
      exact ⟨u, hself, iff_of_true (by omega) mem_cons_self⟩
    · obtain ⟨p, hp, hiff⟩ := h.mark w hw
      refine ⟨p, (hother w hw hwv).trans hp, hiff.trans ?_⟩
      rw [mem_cons, or_iff_right hwv]
  · by_cases hwv : w = v
    · subst hwv
      exact ⟨u, d, hself, mem_cons_of_mem _ hu, hnbr, hd, hd'⟩
    · have hwseen := (mem_cons.mp hw).resolve_left hwv
      obtain ⟨x, e, hx, hxs, hrest⟩ := h.link w hwseen hws
      exact ⟨x, e, (hother w (h.bounded w hwseen) hwv).trans hx, mem_cons_of_mem _ hxs, hrest⟩

lemma Parents.congr (hs : ∀ v, v ∈ seen ↔ v ∈ seen') : Parents rel dir src parent seen' := by
  refine ⟨h.length, (hs src).mp h.root, fun v hv => h.bounded v ((hs v).mpr hv), fun v hv =>
    ?_, fun v hv hvs => ?_⟩
  · obtain ⟨p, hp, hiff⟩ := h.mark v hv
    exact ⟨p, hp, hiff.trans (hs v)⟩
  · obtain ⟨u, d, hu, hus, hrest⟩ := h.link v ((hs v).mpr hv) hvs
    exact ⟨u, d, hu, (hs u).mp hus, hrest⟩

lemma Parents.follow {fuel : ℕ} (hv : v ∈ seen) (hd : Hops (rel.reach dir) src d v) (hfuel : d ≤ fuel)
    (path : List ℤ) : ∃ l, followParents parent src fuel v path = some (src, path ++ l) ∧ l.length = d ∧
      (l ++ [src]).head? = some v ∧ (l ++ [src]).IsChain fun a b => a ∈ rel.neighbours dir b := by
  induction d generalizing v path fuel with
  | zero =>
    obtain rfl := hops_zero.mp hd
    refine ⟨[], ?_, rfl, rfl, isChain_singleton _⟩
    cases fuel with
    | zero => rw [followParents, append_nil]
    | succ fuel => rw [followParents, if_pos rfl, append_nil]
  | succ d ih =>
    obtain ⟨fuel, rfl⟩ : ∃ f, fuel = f + 1 := ⟨fuel - 1, by omega⟩
    have hvs : v ≠ src := by
      rintro rfl
      exact absurd (hd.unique (hops_zero.mpr rfl)) (Nat.succ_ne_zero d)
    obtain ⟨u, e, hu, hus, hnbr, hdu, hdv⟩ := h.link v hv hvs
    obtain rfl : e = d := Nat.succ.inj (hdv.unique hd)
    obtain ⟨l, hl, hlen, hhead, hchain⟩ := ih hus hdu (Nat.le_of_succ_le_succ hfuel) (path ++ [v])
    refine ⟨v :: l, ?_, by rw [length_cons, hlen], rfl, ?_⟩
    · have h0 := (within_iff.mp (h.bounded v hv)).1
      rw [followParents, if_neg hvs, if_neg (not_lt.mpr h0), hu, bind_some, hl, append_assoc]
      rfl
    · obtain ⟨w, t, ht⟩ := exists_cons_of_ne_nil (append_ne_nil_of_right_ne_nil l (cons_ne_nil src []))
      rw [ht, head?_cons, some.injEq] at hhead
      subst hhead
      rw [cons_append, ht]
      exact isChain_cons_cons.mpr ⟨hnbr, ht ▸ hchain⟩

end

structure Open (rel : Rel) (dir : Direction) (src dst : ℤ) (st : Search) (seen Q : List ℤ) : Prop where
  found : st.found = false
  parents : Parents rel dir src st.parent seen
  fits : st.queue.Fits
  queue : st.queue.cells = Q
  unseen : dst ∉ seen

def Met (rel : Rel) (dir : Direction) (src dst : ℤ) (st : Search) : Prop :=
  st.found = true ∧ ∃ seen, Parents rel dir src st.parent seen ∧ dst ∈ seen

variable {st : Search} {Q : List ℤ}

def After (rel : Rel) (dir : Direction) (src dst : ℤ) (seen Q F : List ℤ) (st : Search) : Prop :=
  dst ∉ F ∧ Open rel dir src dst st (F ++ seen) (Q ++ F) ∨ dst ∈ F ∧ Met rel dir src dst st

lemma Open.tryNbr (h : Open rel dir src dst st seen Q) (hu : u ∈ seen) (hnbr : v ∈ rel.neighbours dir u)
    (hd : Hops (rel.reach dir) src d u)
    (hd' : within (rel.bfsNodes dir) v = true → v ∉ seen → Hops (rel.reach dir) src (d + 1) v) :
    ∃ st', Graph.tryNbr (rel.bfsNodes dir) dst u st v = some st' ∧
      After rel dir src dst seen Q (fresh seen ([v].filter (within (rel.bfsNodes dir)))) st' := by
  rw [Graph.tryNbr, if_neg (by rw [h.found]; decide)]
  by_cases hv : within (rel.bfsNodes dir) v = true
  · obtain ⟨h0, hlt⟩ := within_iff.mp hv
    have hin : ¬ (v < 0 ∨ (rel.bfsNodes dir : ℤ) ≤ v) := by omega
    have hfilter : [v].filter (within (rel.bfsNodes dir)) = [v] := filter_eq_self.mpr (by simpa using hv)
    obtain ⟨p, hp, hiff⟩ := h.parents.mark v hv
    rw [if_neg hin, hfilter, hp, fresh]
    by_cases hseen : v ∈ seen
    · refine ⟨st, if_pos (hiff.mpr hseen), ?_⟩
      rw [if_pos hseen]
      exact .inl ⟨not_mem_nil, by simpa [fresh] using h⟩
    · have hset := h.parents.set hv hseen hu hnbr hd (hd' hv hseen)
      rw [if_neg hseen]
      by_cases hdst : v = dst
      · subst hdst
        refine ⟨⟨st.parent.set v.toNat u, st.queue, true⟩, ?_, .inr ⟨mem_cons_self, rfl, _, hset, mem_cons_self⟩⟩
        simp only [if_neg (hiff.not.mpr hseen), if_true]
      · obtain ⟨queue, hqueue, hfits, hcells⟩ := h.fits.push v
        refine ⟨⟨st.parent.set v.toNat u, queue, false⟩, ?_, .inl ⟨?_, rfl, hset, hfits, ?_, ?_⟩⟩
        · simp only [if_neg (hiff.not.mpr hseen), if_neg hdst, hqueue, map_some]
        · simpa [fresh] using Ne.symm hdst
        · rw [hcells, h.queue]
          rfl
        · exact fun hmem => (mem_cons.mp hmem).elim (fun he => hdst he.symm) h.unseen
  · have hout : v < 0 ∨ (rel.bfsNodes dir : ℤ) ≤ v := by
      rw [within_iff] at hv
      omega
    have hfilter : [v].filter (within (rel.bfsNodes dir)) = [] := filter_eq_nil_iff.mpr (by simpa using hv)
    refine ⟨st, if_pos hout, ?_⟩
    rw [hfilter]
    exact .inl ⟨not_mem_nil, by simpa [fresh] using h⟩

lemma tryNbr_found {bound : ℕ} (h : st.found = true) (l : List (ℤ × ℤ)) :
    l.foldlM (fun st p => tryNbr bound dst p.1 st p.2) st = some st := by
  induction l with
  | nil => rfl
  | cons p l ih =>
    have hstep : tryNbr bound dst p.1 st p.2 = some st := if_pos h
    rw [foldlM_cons, hstep]
    exact ih

lemma Open.tryAll (h : Open rel dir src dst st seen Q) (l : List (ℤ × ℤ))
    (hl : ∀ p ∈ l, p.1 ∈ seen ∧ p.2 ∈ rel.neighbours dir p.1 ∧
      Hops (rel.reach dir) src d p.1 ∧
        (within (rel.bfsNodes dir) p.2 = true → p.2 ∉ seen → Hops (rel.reach dir) src (d + 1) p.2)) :
    ∃ st', l.foldlM (fun st p => Graph.tryNbr (rel.bfsNodes dir) dst p.1 st p.2) st = some st' ∧
      After rel dir src dst seen Q (fresh seen ((l.map Prod.snd).filter (within (rel.bfsNodes dir)))) st' := by
  induction l generalizing st seen Q with
  | nil => exact ⟨st, rfl, .inl ⟨not_mem_nil, by simpa [fresh] using h⟩⟩
  | cons p l ih =>
    obtain ⟨⟨hu, hnbr, hd, hd'⟩, hl⟩ := forall_mem_cons.mp hl
    obtain ⟨st₁, h₁, hafter⟩ := h.tryNbr hu hnbr hd hd'
    have hfilter : ((p :: l).map Prod.snd).filter (within (rel.bfsNodes dir)) =
        [p.2].filter (within (rel.bfsNodes dir)) ++ (l.map Prod.snd).filter (within (rel.bfsNodes dir)) :=
          filter_append [p.2] _
    rw [foldlM_cons, h₁, hfilter, fresh_append]
    obtain ⟨hno, hopen⟩ | ⟨hyes, hmet⟩ := hafter
    · obtain ⟨st₂, h₂, hafter₂⟩ := ih hopen fun q hq => by
        obtain ⟨hqs, hqn, hqd, hqd'⟩ := hl q hq
        exact ⟨mem_append_right _ hqs, hqn, hqd, fun hw hns => hqd' hw fun hs => hns (mem_append_right _ hs)⟩
      refine ⟨st₂, h₂, ?_⟩
      obtain ⟨hno₂, hopen₂⟩ | ⟨hyes₂, hmet₂⟩ := hafter₂
      · refine .inl ⟨fun hm => (mem_append.mp hm).elim hno hno₂, ?_⟩
        rw [← append_assoc Q]
        exact { hopen₂ with
          parents := hopen₂.parents.congr fun x => by simp only [mem_append]; tauto
          unseen := fun hm => hopen₂.unseen (by simp only [mem_append] at hm ⊢; tauto) }
      · exact .inr ⟨mem_append_right _ hyes₂, hmet₂⟩
    · exact ⟨st₁, tryNbr_found hmet.1 l, .inr ⟨mem_append_left _ hyes, hmet⟩⟩

lemma searchLevels_spec {k qStart : ℕ} (fuel : ℕ) (h : Open rel dir src dst st (level (rel.reach dir) src k).2 Q)
    (hQ : Q.drop qStart = (level (rel.reach dir) src k).1) :
    ∃ st', searchLevels (rel.csrs dir) (rel.bfsNodes dir) dst fuel qStart st = some st' ∧
      (st'.found = false ∧ (∀ d ≤ k + fuel, ¬ Hops (rel.reach dir) src d dst) ∨
        Met rel dir src dst st' ∧ ∃ d ≤ k + fuel, Hops (rel.reach dir) src d dst) := by
  induction fuel generalizing st k qStart Q with
  | zero =>
    refine ⟨st, rfl, .inl ⟨h.found, fun d hd hh => h.unseen ?_⟩⟩
    exact mem_seen.mpr ⟨d, hd, mem_level.mpr hh⟩
  | succ fuel ih =>
    have hpairs : (level (rel.reach dir) src k).1.foldlM (fun st node => (rel.csrs dir).foldlM
        (fun st (c : Csr) => (c.targetsOf node).foldlM (Graph.tryNbr (rel.bfsNodes dir) dst node) st) st) st =
        ((level (rel.reach dir) src k).1.flatMap fun node => (rel.neighbours dir node).map fun nbr =>
          (node, nbr)).foldlM (fun st p => Graph.tryNbr (rel.bfsNodes dir) dst p.1 st p.2) st := by
      rw [foldlM_flatMap]
      simp only [foldlM_map, Rel.neighbours, foldlM_flatMap]
    obtain ⟨st₁, h₁, hafter⟩ := h.tryAll (d := k)
      ((level (rel.reach dir) src k).1.flatMap fun node => (rel.neighbours dir node).map fun nbr =>
        (node, nbr)) fun p hp => by
        obtain ⟨node, hnode, hp⟩ := mem_flatMap.mp hp
        obtain ⟨nbr, hnbr, rfl⟩ := List.mem_map.mp hp
        refine ⟨mem_seen.mpr ⟨k, le_rfl, hnode⟩, hnbr, mem_level.mp hnode, fun hw hns =>
          hops_succ.mpr ⟨⟨node, mem_level.mp hnode,
          mem_filter.mpr ⟨hnbr, hw⟩⟩, fun j hj hh => hns (mem_seen.mpr ⟨j, hj, mem_level.mpr hh⟩)⟩⟩
    have hnext : fresh (level (rel.reach dir) src k).2 (((level (rel.reach dir) src k).1.flatMap fun node =>
        (rel.neighbours dir node).map fun nbr => (node, nbr)).map Prod.snd |>.filter (within (rel.bfsNodes dir))) =
        (level (rel.reach dir) src (k + 1)).1 := by
      rw [level, map_flatMap, filter_flatMap]
      simp only [List.map_map, Function.comp_def, List.map_id']
      rfl
    rw [hnext] at hafter
    rw [searchLevels, if_neg (by rw [h.found]; decide), h.queue, hQ, hpairs, h₁, bind_some]
    obtain ⟨hno, hopen⟩ | ⟨hyes, hmet⟩ := hafter
    · obtain ⟨st₂, h₂, hres⟩ := ih (k := k + 1) hopen (drop_left)
      have hk : k + 1 + fuel = k + (fuel + 1) := by omega
      rw [hk] at hres
      exact ⟨st₂, h₂, hres⟩
    · refine ⟨st₁, ?_, .inr ⟨hmet, k + 1, by omega, mem_level.mp hyes⟩⟩
      cases fuel with
      | zero => rfl
      | succ fuel => rw [searchLevels, if_pos hmet.1]

def PathExact (rel : Rel) (dir : Direction) (maxDepth : ℕ) (src dst : ℤ) : Prop :=
  ∃ r, execShortestPath rel dir maxDepth src dst = some r ∧
    (∀ d ≤ maxDepth, Hops (rel.neighbours dir) src d dst → ∃ path : List ℤ, r = .ok path.zipIdx ∧
      path.length = d + 1 ∧
      path.head? = some src ∧ path.getLast? = some dst ∧ path.IsChain fun u v => v ∈ rel.neighbours dir u) ∧
    ((∀ d ≤ maxDepth, ¬ Hops (rel.neighbours dir) src d dst) → ∃ e, r = .error e)

lemma open_start (hsrc : within (rel.bfsNodes dir) src = true) (hne : src ≠ dst) :
    Open rel dir src dst ⟨(List.replicate (rel.bfsNodes dir) (-1)).set src.toNat src, ⟨[src], 1024⟩, false⟩
      (level (rel.reach dir) src 0).2 [src] := by
  obtain ⟨h0, hlt⟩ := within_iff.mp hsrc
  refine ⟨rfl, ⟨by simp, mem_singleton.mpr rfl, ?_, fun v hv => ?_, ?_⟩,
    ⟨Nat.succ_pos 1023, Nat.succ_le_succ (Nat.zero_le 1023)⟩, rfl, ?_⟩
  · intro v hv
    rwa [mem_singleton.mp hv]
  · obtain ⟨hv0, hvlt⟩ := within_iff.mp hv
    by_cases hvs : v = src
    · subst hvs
      exact ⟨v, getElem?_set_self (by rw [length_replicate]; omega),
        iff_of_true (by omega) (mem_singleton.mpr rfl)⟩
    · refine ⟨-1, ?_, iff_of_false (by simp) fun hm => hvs (mem_singleton.mp hm)⟩
      rw [getElem?_set_ne (by omega), getElem?_replicate_of_lt (by omega)]
  · exact fun v hv hvs => absurd (mem_singleton.mp hv) hvs
  · exact fun hm => hne (mem_singleton.mp hm).symm

lemma pathExact_within {maxDepth : ℕ} (hmax : maxDepth ≤ 255) (hdst : within (rel.bfsNodes dir) dst = true) :
    PathExact rel dir maxDepth src dst := by
  obtain ⟨hd0, hdlt⟩ := within_iff.mp hdst
  rw [PathExact, execShortestPath]
  by_cases hsrc : within (rel.bfsNodes dir) src = true
  · obtain ⟨hs0, hslt⟩ := within_iff.mp hsrc
    have hin : ¬ (src < 0 ∨ (rel.bfsNodes dir : ℤ) ≤ src ∨ dst < 0 ∨ (rel.bfsNodes dir : ℤ) ≤ dst) := by omega
    simp only [if_neg hin]
    by_cases hne : src = dst
    · subst hne
      refine ⟨_, if_pos rfl, fun d _ hd => ?_, fun hno => absurd (hops_zero.mpr rfl) (hno 0 (Nat.zero_le _))⟩
      obtain rfl : d = 0 := hd.unique (hops_zero.mpr rfl)
      exact ⟨[src], rfl, rfl, rfl, rfl, isChain_singleton _⟩
    · obtain ⟨st, hst, hres⟩ := searchLevels_spec maxDepth (open_start hsrc hne) (rfl : [src].drop 0 = _)
      rw [Nat.zero_add] at hres
      simp only [if_neg hne, hst, bind_some]
      obtain ⟨hfound, hno⟩ | ⟨⟨hfound, seen, hparents, hseen⟩, d, hd, hh⟩ := hres
      · refine ⟨_, if_neg (by rw [hfound]; decide), fun d hd hh =>
          absurd ((hops_reach hdst).mpr hh) (hno d hd), fun _ => ⟨_, rfl⟩⟩
      · obtain ⟨l, hl, hlen, hhead, hchain⟩ := hparents.follow hseen hh (hd.trans hmax) []
        have hroom : l.length < 256 := by omega
        rw [if_pos hfound, hl, bind_some]
        simp only [nil_append, ne_eq, not_true, if_false, if_pos hroom]
        refine ⟨_, rfl, fun e _ he => ⟨(l ++ [src]).reverse, rfl, ?_, ?_, ?_, ?_⟩, fun hno =>
          absurd ((hops_reach hdst).mp hh) (hno d hd)⟩
        · rw [((hops_reach hdst).mpr he).unique hh, length_reverse, length_append, hlen, length_singleton]
        · rw [reverse_append]
          rfl
        · rw [getLast?_reverse, hhead]
        · exact isChain_reverse.mpr hchain
  · have hout : src < 0 ∨ (rel.bfsNodes dir : ℤ) ≤ src ∨ dst < 0 ∨ (rel.bfsNodes dir : ℤ) ≤ dst := by
      rw [within_iff] at hsrc
      omega
    refine ⟨_, if_pos hout, fun d _ hh => ?_, fun _ => ⟨_, rfl⟩⟩
    have hzero := hops_beyond hsrc hh
    subst hzero
    rw [hops_zero.mp hh] at hdst
    exact absurd hdst hsrc

lemma pathExact_iff {maxDepth : ℕ} (hmax : maxDepth ≤ 255) : PathExact rel dir maxDepth src dst ↔
    ∀ d ≤ maxDepth, Hops (rel.neighbours dir) src d dst → within (rel.bfsNodes dir) dst = true := by
  by_cases hdst : within (rel.bfsNodes dir) dst = true
  · exact iff_of_true (pathExact_within hmax hdst) fun _ _ _ => hdst
  · have hout : src < 0 ∨ (rel.bfsNodes dir : ℤ) ≤ src ∨ dst < 0 ∨ (rel.bfsNodes dir : ℤ) ≤ dst := by
      rw [within_iff] at hdst
      omega
    have herr : execShortestPath rel dir maxDepth src dst = some (.error .nodeRange) := if_pos hout
    rw [PathExact, herr]
    constructor
    · rintro ⟨r, hr, hpath, -⟩ d hd hh
      obtain ⟨path, hok, -⟩ := hpath d hd hh
      rw [← some.inj hr] at hok
      cases hok
    · exact fun h => ⟨_, rfl, fun d hd hh => absurd (h d hd hh) hdst, fun _ => ⟨_, rfl⟩⟩

end

/-- Both searches are exact within their bounds. -/
theorem traverse_exact (rel : Rel) (dir : Direction) (minDepth : ℕ) {maxDepth : ℕ} (hmax : maxDepth ≤ 255)
    (starts : List ℤ) (src dst : ℤ) :
    (VarExact rel dir minDepth maxDepth starts ↔ ∀ s ∈ starts, ∀ v d, max 1 minDepth ≤ d → d ≤ maxDepth →
      Hops (rel.neighbours dir) s d v → within (rel.bfsNodes dir) v = true) ∧
    (PathExact rel dir maxDepth src dst ↔ ∀ d ≤ maxDepth, Hops (rel.neighbours dir) src d dst →
      within (rel.bfsNodes dir) dst = true) ∧
    ∃ rows, execVarExpand rel dir 1 1 starts = some rows ∧
      ((∀ s v, (s, v, 1) ∈ rows ↔ (s, v) ∈ execExpand rel dir starts ∧ v ≠ s) ↔
        ∀ s v, (s, v) ∈ execExpand rel dir starts → v ≠ s → within (rel.bfsNodes dir) v = true) := by
  refine ⟨varExact_iff starts, pathExact_iff hmax, _, execVarExpand_eq rel dir 1 1 starts, ?_⟩
  have hrow := fun s v => varExpand_one (s := s) (v := v) (execVarExpand_eq rel dir 1 1 starts)
  constructor
  · exact fun h s v hexpand hne => ((hrow s v).mp ((h s v).mpr ⟨hexpand, hne⟩)).2
  · exact fun h s v => (hrow s v).trans (and_iff_left_of_imp fun he => h s v he.1 he.2)

def oneEdge : Rel where
  fromTable := 0
  toTable := 0
  nameSym := 0
  fwd := ⟨[0, 1], [1], none, 1, 1, false⟩
  rev := ⟨[0, 0, 1], [0], none, 2, 1, false⟩

def cycleOfThree : Rel where
  fromTable := 0
  toTable := 0
  nameSym := 0
  fwd := ⟨[0, 1, 2, 3], [1, 2, 0], none, 3, 3, false⟩
  rev := ⟨[0, 1, 2, 3], [2, 0, 1], none, 3, 3, false⟩

lemma cycleOfThree_within {u v : ℤ} (h : v ∈ cycleOfThree.neighbours .fwd u) :
    within (cycleOfThree.bfsNodes .fwd) v = true := by
  obtain ⟨c, hc, ht⟩ := mem_flatMap.mp h
  obtain rfl : c = cycleOfThree.fwd := by simpa [Rel.csrs] using hc
  have hmem : v ∈ [1, 2, 0] := by
    rw [Csr.targetsOf] at ht
    split_ifs at ht
    · exact absurd ht not_mem_nil
    · exact mem_of_mem_drop (mem_of_mem_take ht)
  have hall : ∀ w ∈ [(1 : ℤ), 2, 0], within (cycleOfThree.bfsNodes .fwd) w = true := by decide
  exact hall v hmem

theorem traverse_exact_cycleOfThree :
    VarExact cycleOfThree .fwd 1 2 [0, 1] ∧ PathExact cycleOfThree .fwd 2 0 2 := by
  obtain ⟨hvar, hpath, -⟩ := traverse_exact cycleOfThree .fwd 1 (show 2 ≤ 255 by decide) [0, 1] 0 2
  refine ⟨hvar.mpr fun s _ v d hmin _ h => ?_, hpath.mpr fun _ _ _ => by decide⟩
  cases d with
  | zero => omega
  | succ d =>
    obtain ⟨⟨u, -, hu⟩, -⟩ := hops_succ.mp h
    exact cycleOfThree_within hu

lemma oneEdge_hops : Hops (oneEdge.neighbours .fwd) 0 1 1 :=
  hops_succ.mpr ⟨⟨0, hops_zero.mpr rfl, by decide⟩, fun k hk hh => by
    obtain rfl := Nat.le_zero.mp hk
    exact absurd (hops_zero.mp hh) (by decide)⟩

/-- The second target node has no row, and no path leads to it. -/
theorem oneEdge_not_exact : ¬ VarExact oneEdge .fwd 1 1 [0] ∧ ¬ PathExact oneEdge .fwd 1 0 1 := by
  constructor
  · intro h
    exact absurd ((varExact_iff [0]).mp h 0 (mem_singleton.mpr rfl) 1 1 (by decide) (by decide) oneEdge_hops)
      (by decide)
  · intro h
    exact absurd ((pathExact_iff (by decide)).mp h 1 le_rfl oneEdge_hops) (by decide)

end Rayforce.Graph
