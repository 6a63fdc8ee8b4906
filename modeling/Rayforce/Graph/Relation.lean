import Rayforce.Graph.Csr
import Rayforce.Store.RoundTrip

/-! The relations of `store/csr.c`, saved and loaded. -/

namespace Rayforce.Graph

open Library.Words Library.Segments List Option
open Rayforce.Serde (Cell)
open Rayforce.Store (Obj Proc Extra rayColSave colLoadImpl)

structure Rel where
  fromTable : ℕ
  toTable : ℕ
  nameSym : ℤ
  fwd : Csr
  rev : Csr
  deriving DecidableEq, Repr

def edgePairs (src dst : List Int64) : List EdgePair :=
  (src.zip dst).zipIdx.map fun e => ⟨e.1.1.toInt, e.1.2.toInt, e.2⟩

def maxWords : ℕ := 2 ^ 56

def rayRelFromEdges (src dst : List Int64) (nSrcNodes nDstNodes : ℤ) (sortTargets : Bool) : Option Rel :=
  if src.length ≠ dst.length then none
  else if nSrcNodes < 0 ∨ nDstNodes < 0 then none
  else if maxWords ≤ src.length ∨ maxWords ≤ nSrcNodes.toNat + 1 ∨ maxWords ≤ nDstNodes.toNat + 1 then none
  else
    let bySrc := (edgePairs src dst).mergeSort cmpEdgeBySrc
    let byDst := bySrc.mergeSort cmpEdgeByDst
    some
      { fromTable := 0, toTable := 0, nameSym := -1
        fwd := csrBuildFromPairs bySrc nSrcNodes.toNat false sortTargets
        rev := csrBuildFromPairs byDst nDstNodes.toNat true sortTargets }

abbrev Dir := List (String × Bytes)

def wordCell (v : ℤ) : Cell .i64 := ⟨leBytes 8 (v % 2 ^ 64).toNat, leBytes_length _ _⟩

def saveWords (vs : List ℤ) : Option Bytes :=
  (rayColSave [] ⟨List.replicate 8 0, none⟩ (.vec .i64 (.owned 0 (vs.map wordCell)))).toOption

def loadWords (p : Proc) (file : Bytes) : Option (List ℤ) :=
  match colLoadImpl p .process file with
  | .ok (.vec .i64 v) => some (v.cells.map fun c => leInt c.bytes)
  | _ => none

def csrSave (c : Csr) (pre : String) (dir : Dir) : Option Dir := do
  let dir := (pre ++ "_offsets", ← saveWords (c.offsets.map Int.ofNat)) :: dir
  let dir := (pre ++ "_targets", ← saveWords c.targets) :: dir
  match c.rowmap with
  | none => return dir
  | some rows => return (pre ++ "_rowmap", ← saveWords rows) :: dir

def monotone (offs : List ℤ) (n : ℕ) : Bool :=
  (List.range n).all fun i => 0 ≤ offs.getD i 0 ∧ offs.getD i 0 ≤ offs.getD (i + 1) 0

def csrLoadImpl (p : Proc) (dir : Dir) (pre : String) : Option Csr := do
  let offs ← (dir.lookup (pre ++ "_offsets")).bind (loadWords p)
  let targets ← (dir.lookup (pre ++ "_targets")).bind (loadWords p)
  let rowmap := (dir.lookup (pre ++ "_rowmap")).bind (loadWords p)
  let n := offs.length - 1
  if offs.length < 1 then failure
  if offs.getD n 0 ≠ targets.length then failure
  if !monotone offs n then failure
  return { offsets := offs.map Int.toNat, targets := targets, rowmap := rowmap, nNodes := n,
           nEdges := targets.length, sorted := false }

def rayRelSave (rel : Rel) (dir : Dir) : Option Dir := do
  let dir ← csrSave rel.fwd "fwd" dir
  let dir ← csrSave rel.rev "rev" dir
  let about ← saveWords [rel.fromTable, rel.toTable, rel.nameSym, rel.fwd.sorted.toNat, rel.rev.sorted.toNat]
  return ("meta", about) :: dir

def rayRelLoad (p : Proc) (dir : Dir) : Option Rel := do
  let fwd ← csrLoadImpl p dir "fwd"
  let rev ← csrLoadImpl p dir "rev"
  match (dir.lookup "meta").bind (loadWords p) with
  | some (a :: b :: name :: fs :: rs :: _) =>
    return { fromTable := (a % 2 ^ 16).toNat, toTable := (b % 2 ^ 16).toNat, nameSym := name,
             fwd := { fwd with sorted := fs ≠ 0 }, rev := { rev with sorted := rs ≠ 0 } }
  | _ => return { fromTable := 0, toTable := 0, nameSym := 0, fwd := fwd, rev := rev }

def IsWord (v : ℤ) : Prop := -2 ^ 63 ≤ v ∧ v < 2 ^ 63

lemma leInt_wordCell {v : ℤ} (h : IsWord v) : leInt (wordCell v).bytes = v := by
  obtain ⟨h₁, h₂⟩ := h
  have hlt : (v % 2 ^ 64).toNat < 256 ^ 8 := by omega
  rw [wordCell, leInt, leNat_leBytes _ _ hlt, leBytes_length]
  split_ifs with hc <;> push_cast at hc ⊢ <;> omega

def wordsFile (vs : List ℤ) : Bytes :=
  Store.saveRaw ⟨List.replicate 8 0, none⟩ (Serde.FixTy.vecTag .i64) (Store.savedAttrs 0) 0
    (vs.map wordCell).length ((vs.map wordCell).flatMap Cell.bytes)

lemma saveWords_eq (vs : List ℤ) : saveWords vs = some (wordsFile vs) := by
  simp only [saveWords, rayColSave, Except.toOption, wordsFile, Serde.Vec.attrs, Serde.Vec.cells]

lemma loadWords_wordsFile (p : Proc) {vs : List ℤ} (hlen : vs.length < maxWords) (hv : ∀ v ∈ vs, IsWord v) :
    loadWords p (wordsFile vs) = some vs := by
  have hsize : (vs.map wordCell).length * Serde.FixTy.size .i64 < 2 ^ 59 := by
    rw [maxWords] at hlen
    rw [length_map, Serde.FixTy.size]
    omega
  have hload : colLoadImpl p .process (wordsFile vs) =
      .ok (.vec .i64 (.owned (Store.savedAttrs 0 &&& Store.colDiskAttrsMask) (vs.map wordCell))) :=
    Store.load_vec rfl hsize
  have hcells : (vs.map wordCell).map (fun c => leInt c.bytes) = vs := by
    have hid : vs.map ((fun c : Cell .i64 => leInt c.bytes) ∘ wordCell) = vs.map id := by
      apply map_congr_left
      intro v hv'
      rw [Function.comp_apply, leInt_wordCell (hv v hv'), id]
    rw [List.map_map, hid, List.map_id]
  rw [loadWords, hload]
  simp only [Serde.Vec.cells, hcells]

lemma csrSave_eq {c : Csr} {rows : List ℤ} (h : c.rowmap = some rows) (pre : String) (dir : Dir) :
    csrSave c pre dir = some ((pre ++ "_rowmap", wordsFile rows) :: (pre ++ "_targets", wordsFile c.targets) ::
      (pre ++ "_offsets", wordsFile (c.offsets.map Int.ofNat)) :: dir) := by
  simp only [csrSave, saveWords_eq, h, bind_eq_bind, bind_some, Option.pure_def]

structure Csr.WellFormed (c : Csr) (nodes : ℤ) : Prop where
  nodes_eq : (c.nNodes : ℤ) = nodes
  offsets_length : c.offsets.length = c.nNodes + 1
  offsets_zero : c.offsets.getD 0 0 = 0
  offsets_mono : ∀ g < c.nNodes, c.offsets.getD g 0 ≤ c.offsets.getD (g + 1) 0
  offsets_last : c.offsets.getD c.nNodes 0 = c.nEdges
  targets_length : c.targets.length = c.nEdges
  rowmap_length : ∃ rows, c.rowmap = some rows ∧ rows.length = c.nEdges
  ascending : c.sorted = true → ∀ g < c.nNodes, (c.neighbors g).Pairwise fun a b => a.1 ≤ b.1

def edgesWhere (src dst : List Int64) (valid : EdgePair → Bool) : List (ℤ × ℤ × ℤ) :=
  ((edgePairs src dst).filter valid).map fun e => (e.src, e.dst, e.row)

def InRange (nodes v : ℤ) : Prop := 0 ≤ v ∧ v < nodes

instance (nodes v : ℤ) : Decidable (InRange nodes v) := inferInstanceAs (Decidable (_ ∧ _))

def Csr.edges (c : Csr) (isReverse : Bool) : List (ℤ × ℤ × ℤ) :=
  c.triples.map fun t => if isReverse then (t.2.1, t.1, t.2.2) else t

structure Indexed (src dst : List Int64) (nSrcNodes nDstNodes : ℤ) (sortTargets : Bool) (rel : Rel) : Prop where
  fwd : rel.fwd.WellFormed nSrcNodes
  rev : rel.rev.WellFormed nDstNodes
  sorted : rel.fwd.sorted = sortTargets ∧ rel.rev.sorted = sortTargets
  fwd_edges : (rel.fwd.edges false).Perm (edgesWhere src dst fun e => InRange nSrcNodes e.src)
  rev_edges : (rel.rev.edges true).Perm (edgesWhere src dst fun e => InRange nDstNodes e.dst)
  saved : ∀ p dir, (rayRelSave rel dir).bind (rayRelLoad p) = some rel

structure Lawful (src dst : List Int64) (nSrcNodes nDstNodes : ℤ) (sortTargets : Bool) (rel : Rel) : Prop
    extends Indexed src dst nSrcNodes nDstNodes sortTargets rel where
  fwd_valid : ∀ t ∈ rel.fwd.targets, InRange nDstNodes t
  rev_valid : ∀ t ∈ rel.rev.targets, InRange nSrcNodes t
  transpose : (rel.fwd.edges false).Perm (rel.rev.edges true)
  edges : (rel.fwd.edges false).Perm
    (edgesWhere src dst fun e => InRange nSrcNodes e.src ∧ InRange nDstNodes e.dst)

section

variable {isReverse sort : Bool} {n : ℕ} {pairs : List EdgePair} {c : Csr}

section

variable (h : Built isReverse sort pairs n c)
include h

lemma Built.length_cells : c.cells.length ≤ pairs.length := by
  have hlens : ∀ g < n, (adjacency isReverse sort n pairs g).length =
      (pairs.map (EdgePair.slot isReverse n)).count (some g) := by
    intro g _
    rw [(adjacency_perm g).length_eq, length_listed]
  have hslots : ∀ g, some g ∈ pairs.map (EdgePair.slot isReverse n) → g < n := by
    intro g hg
    obtain ⟨e, -, he⟩ := mem_map.mp hg
    exact (slot_eq_some.mp he).2
  rw [h.cells, length_flatMap_range, sumTo_congr hlens, Library.Grouping.sumTo_count hslots]
  exact countP_le_length.trans (length_map _).le

lemma Built.wellFormed : c.WellFormed n where
  nodes_eq := by rw [h.nNodes]
  offsets_length := by rw [h.offsets_length, h.nNodes]
  offsets_zero := by rw [h.offsets 0 n.zero_le, sumTo_zero]
  offsets_mono g hg := by
    rw [h.nNodes] at hg
    rw [h.offsets g hg.le, h.offsets (g + 1) hg]
    exact sumTo_mono _ g.le_succ
  offsets_last := by rw [h.nNodes, h.offsets n le_rfl, h.nEdges, h.cells, length_flatMap_range]
  targets_length := by rw [h.targets, length_map, h.nEdges]
  rowmap_length := ⟨_, h.rowmap, by rw [length_map, h.nEdges]⟩
  ascending hsort g hg := by
    rw [h.nNodes] at hg
    rw [h.sorted] at hsort
    rw [h.neighbors hg, adjacency, if_pos hsort]
    exact sortTargets_sorted _

lemma Built.offset_le {o : ℕ} (ho : o ∈ c.offsets) : o ≤ c.nEdges := by
  obtain ⟨g, hg, rfl⟩ := mem_iff_getElem.mp ho
  have hgn : g ≤ n := by have := h.offsets_length; omega
  have hat := h.offsets g hgn
  rw [getD_eq_getElem _ _ hg] at hat
  rw [hat, h.nEdges, h.cells, length_flatMap_range]
  exact sumTo_mono _ hgn

end

lemma getD_map_ofNat (l : List ℕ) (i : ℕ) : (l.map Int.ofNat).getD i 0 = (l.getD i 0 : ℤ) :=
  getD_map l 0 Int.ofNat

lemma Built.loads (h : Built isReverse sort pairs n c) (p : Proc) (hn : n + 1 < maxWords)
    (hp : pairs.length < maxWords) (hwords : ∀ e ∈ c.cells, IsWord e.1 ∧ IsWord e.2) (dir : Dir) (pre : String)
    (hoffs : dir.lookup (pre ++ "_offsets") = some (wordsFile (c.offsets.map Int.ofNat)))
    (htargets : dir.lookup (pre ++ "_targets") = some (wordsFile c.targets))
    (hrows : dir.lookup (pre ++ "_rowmap") = some (wordsFile (c.cells.map Prod.snd))) :
    csrLoadImpl p dir pre = some { c with sorted := false } := by
  have hedges : c.nEdges < maxWords := by
    rw [h.nEdges]
    exact h.length_cells.trans_lt hp
  have h₁ : loadWords p (wordsFile (c.offsets.map Int.ofNat)) = some (c.offsets.map Int.ofNat) := by
    refine loadWords_wordsFile p (by rw [length_map, h.offsets_length]; exact hn) fun v hv => ?_
    obtain ⟨o, ho, rfl⟩ := mem_map.mp hv
    have := h.offset_le ho
    rw [maxWords] at hedges
    exact ⟨by simp only [Int.ofNat_eq_natCast]; omega, by simp only [Int.ofNat_eq_natCast]; omega⟩
  have h₂ : loadWords p (wordsFile c.targets) = some c.targets := by
    rw [h.targets]
    refine loadWords_wordsFile p (by rw [length_map, ← h.nEdges]; exact hedges) fun v hv => ?_
    obtain ⟨e, he, rfl⟩ := mem_map.mp hv
    exact (hwords e he).1
  have h₃ : loadWords p (wordsFile (c.cells.map Prod.snd)) = some (c.cells.map Prod.snd) := by
    refine loadWords_wordsFile p (by rw [length_map, ← h.nEdges]; exact hedges) fun v hv => ?_
    obtain ⟨e, he, rfl⟩ := mem_map.mp hv
    exact (hwords e he).2
  have hlast : (c.offsets.map Int.ofNat).getD ((c.offsets.map Int.ofNat).length - 1) 0 =
      (c.targets.length : ℤ) := by
    rw [length_map, h.offsets_length, Nat.add_sub_cancel, getD_map_ofNat, h.offsets n le_rfl, h.targets,
      length_map, h.cells, length_flatMap_range]
  have hmono : monotone (c.offsets.map Int.ofNat) ((c.offsets.map Int.ofNat).length - 1) = true := by
    rw [length_map, h.offsets_length, Nat.add_sub_cancel, monotone, List.all_eq_true]
    intro g hg
    have hgn := mem_range.mp hg
    rw [getD_map_ofNat, getD_map_ofNat, h.offsets g hgn.le, h.offsets (g + 1) hgn, decide_eq_true_eq]
    exact ⟨Int.natCast_nonneg _, Int.ofNat_le.mpr (sumTo_mono _ g.le_succ)⟩
  have hpos : ¬(c.offsets.map Int.ofNat).length < 1 := by
    rw [length_map, h.offsets_length]
    omega
  have hback : (c.offsets.map Int.ofNat).map Int.toNat = c.offsets := by
    rw [List.map_map]
    exact List.map_id _
  simp only [csrLoadImpl, hoffs, htargets, hrows, bind_some, h₁, h₂, h₃, bind_eq_bind, hpos, hlast,
    hmono, hback, if_false, ne_eq, not_true, Bool.not_true, Bool.false_eq_true, Option.pure_def, some.injEq]
  have hlen : (c.offsets.map Int.ofNat).length - 1 = c.nNodes := by
    rw [length_map, h.offsets_length, h.nNodes, Nat.add_sub_cancel]
  have htl : c.targets.length = c.nEdges := by rw [h.targets, length_map, h.nEdges]
  rw [hlen, htl, ← h.rowmap]

end

section

variable {src dst : List Int64} {nSrc nDst : ℤ} {sort : Bool} {rel : Rel} {p : EdgePair}

lemma mem_edgePairs (h : p ∈ edgePairs src dst) :
    (∃ e ∈ src.zip dst, e.1.toInt = p.src ∧ e.2.toInt = p.dst) ∧ 0 ≤ p.row ∧ p.row < src.length := by
  obtain ⟨⟨e, i⟩, he, rfl⟩ := mem_map.mp h
  obtain ⟨hi, hat⟩ := mem_zipIdx' he
  have hle : i < src.length := hi.trans_le (length_zip.trans_le (min_le_left _ _))
  refine ⟨⟨e, ?_, rfl, rfl⟩, Int.natCast_nonneg _, Int.ofNat_lt.mpr hle⟩
  rw [hat]
  exact getElem_mem _

lemma edgePairs_of_mem {e : Int64 × Int64} (h : e ∈ src.zip dst) :
    ∃ p ∈ edgePairs src dst, p.src = e.1.toInt ∧ p.dst = e.2.toInt := by
  obtain ⟨i, hi, rfl⟩ := mem_iff_getElem.mp h
  refine ⟨_, mem_map.mpr ⟨((src.zip dst)[i], i), ?_, rfl⟩, rfl, rfl⟩
  exact mem_zipIdx_iff_getElem?.mpr (getElem?_eq_getElem hi)

lemma isWord_of_mem (h : p ∈ edgePairs src dst) (hlen : src.length < maxWords) :
    IsWord p.src ∧ IsWord p.dst ∧ IsWord p.row := by
  obtain ⟨⟨e, -, h₁, h₂⟩, h₃, h₄⟩ := mem_edgePairs h
  have hword : ∀ v : Int64, IsWord v.toInt := fun v => ⟨v.le_toInt, v.toInt_lt⟩
  rw [maxWords] at hlen
  refine ⟨h₁ ▸ hword e.1, h₂ ▸ hword e.2, ?_, ?_⟩ <;> omega

structure BuiltRel (src dst : List Int64) (nSrc nDst : ℕ) (sort : Bool) (rel : Rel) (bySrc byDst : List EdgePair) :
    Prop where
  bySrc_perm : bySrc.Perm (edgePairs src dst)
  byDst_perm : byDst.Perm (edgePairs src dst)
  bySrc_keys : bySrc.Pairwise fun a b => a.key false ≤ b.key false
  byDst_keys : byDst.Pairwise fun a b => a.key true ≤ b.key true
  fwd : Built false sort bySrc nSrc rel.fwd
  rev : Built true sort byDst nDst rel.rev
  about : rel.fromTable = 0 ∧ rel.toTable = 0 ∧ rel.nameSym = -1
  edges_lt : src.length < maxWords
  nodes_lt : nSrc + 1 < maxWords ∧ nDst + 1 < maxWords

lemma rayRelFromEdges_built (h : rayRelFromEdges src dst nSrc nDst sort = some rel) :
    0 ≤ nSrc ∧ 0 ≤ nDst ∧ ∃ bySrc byDst, BuiltRel src dst nSrc.toNat nDst.toNat sort rel bySrc byDst := by
  rw [rayRelFromEdges] at h
  split_ifs at h with hlen hneg hbig
  have hrel := some.inj h
  have h₁ : ((edgePairs src dst).mergeSort cmpEdgeBySrc).Pairwise fun a b => a.src ≤ b.src := mergeSort_keys _
  have h₂ : (((edgePairs src dst).mergeSort cmpEdgeBySrc).mergeSort cmpEdgeByDst).Pairwise fun a b =>
      a.dst ≤ b.dst :=
    mergeSort_keys _
  refine ⟨by omega, by omega, (edgePairs src dst).mergeSort cmpEdgeBySrc,
    ((edgePairs src dst).mergeSort cmpEdgeBySrc).mergeSort cmpEdgeByDst, ?_⟩
  exact
    { bySrc_perm := mergeSort_perm _ _
      byDst_perm := (mergeSort_perm _ _).trans (mergeSort_perm _ _)
      bySrc_keys := h₁
      byDst_keys := h₂
      fwd := by
        rw [← hrel]
        exact csrBuildFromPairs_built h₁
      rev := by
        rw [← hrel]
        exact csrBuildFromPairs_built h₂
      about := hrel ▸ ⟨rfl, rfl, rfl⟩
      edges_lt := by omega
      nodes_lt := by omega }

variable {n₁ n₂ : ℕ} {bySrc byDst : List EdgePair}

section

variable (h : BuiltRel src dst n₁ n₂ sort rel bySrc byDst)
include h

lemma BuiltRel.fwd_words : ∀ d ∈ rel.fwd.cells, IsWord d.1 ∧ IsWord d.2 := by
  intro d hd
  obtain ⟨e, he, -, rfl⟩ := h.fwd.mem_cells.mp hd
  obtain ⟨-, h₁, h₂⟩ := isWord_of_mem (h.bySrc_perm.mem_iff.mp he) h.edges_lt
  exact ⟨h₁, h₂⟩

lemma BuiltRel.rev_words : ∀ d ∈ rel.rev.cells, IsWord d.1 ∧ IsWord d.2 := by
  intro d hd
  obtain ⟨e, he, -, rfl⟩ := h.rev.mem_cells.mp hd
  obtain ⟨h₁, -, h₂⟩ := isWord_of_mem (h.byDst_perm.mem_iff.mp he) h.edges_lt
  exact ⟨h₁, h₂⟩

omit h in
lemma length_edgePairs_le : (edgePairs src dst).length ≤ src.length := by
  rw [edgePairs, length_map, length_zipIdx, length_zip]
  exact min_le_left _ _

lemma BuiltRel.saved (p : Proc) (dir : Dir) : (rayRelSave rel dir).bind (rayRelLoad p) = some rel := by
  obtain ⟨hfrom, hto, hname⟩ := h.about
  have hflag : ∀ c : Csr, IsWord c.sorted.toNat := by
    intro c
    cases c.sorted <;> constructor <;> norm_num
  have habout : loadWords p (wordsFile [(0 : ℤ), 0, -1, rel.fwd.sorted.toNat, rel.rev.sorted.toNat]) =
      some [(0 : ℤ), 0, -1, rel.fwd.sorted.toNat, rel.rev.sorted.toNat] := by
    apply loadWords_wordsFile
    · rw [maxWords]
      norm_num
    · simp only [mem_cons, not_mem_nil, or_false, forall_eq_or_imp, forall_eq, hflag, and_true]
      exact ⟨⟨by norm_num, by norm_num⟩, ⟨by norm_num, by norm_num⟩, ⟨by norm_num, by norm_num⟩⟩
  have hfwd := h.fwd.loads p h.nodes_lt.1
    (h.bySrc_perm.length_eq ▸ length_edgePairs_le.trans_lt h.edges_lt) h.fwd_words
  have hrev := h.rev.loads p h.nodes_lt.2
    (h.byDst_perm.length_eq ▸ length_edgePairs_le.trans_lt h.edges_lt) h.rev_words
  simp only [rayRelSave, csrSave_eq h.fwd.rowmap, csrSave_eq h.rev.rowmap, saveWords_eq, bind_eq_bind,
    bind_some, Option.pure_def, hfrom, hto, hname]
  rw [rayRelLoad, hfwd _ "fwd" (by simp [lookup_cons]) (by simp [lookup_cons]) (by simp [lookup_cons]),
    hrev _ "rev" (by simp [lookup_cons]) (by simp [lookup_cons]) (by simp [lookup_cons])]
  simp only [lookup_cons, bind_some, bind_eq_bind, beq_self_eq_true, Nat.cast_zero, habout,
    Option.pure_def, some.injEq]
  have hon : ∀ b : Bool, decide ((b.toNat : ℤ) ≠ 0) = b := by decide
  cases rel
  simp only at hfrom hto hname
  simp only [hon, hfrom, hto, hname, Int.zero_emod, Int.toNat_zero]

end

lemma inRange_toNat {nodes v : ℤ} (hn : 0 ≤ nodes) : (0 ≤ v ∧ v < (nodes.toNat : ℤ)) ↔ InRange nodes v := by
  rw [Int.toNat_of_nonneg hn, InRange]

lemma kept_eq {nodes : ℤ} (hn : 0 ≤ nodes) (isReverse : Bool) (l : List EdgePair) :
    kept isReverse nodes.toNat l = l.filter fun e => InRange nodes (e.key isReverse) := by
  apply filter_congr
  intro e _
  rw [EdgePair.slot, decide_eq_decide.mpr (inRange_toNat hn).symm]
  split_ifs with hr
  · exact (decide_eq_true hr).symm
  · exact (decide_eq_false hr).symm

section

variable (h : BuiltRel src dst nSrc.toNat nDst.toNat sort rel bySrc byDst)
include h

lemma BuiltRel.fwd_edges (hn : 0 ≤ nSrc) :
    (rel.fwd.edges false).Perm (edgesWhere src dst fun e => InRange nSrc e.src) := by
  have hkept := kept_eq hn false (edgePairs src dst)
  have hedges : rel.fwd.edges false = rel.fwd.triples := map_id _
  rw [hedges]
  refine (h.fwd.triples h.bySrc_keys).trans (((h.bySrc_perm.filter _).map _).trans (List.Perm.of_eq ?_))
  rw [← kept, hkept]
  rfl

lemma BuiltRel.rev_edges (hm : 0 ≤ nDst) :
    (rel.rev.edges true).Perm (edgesWhere src dst fun e => InRange nDst e.dst) := by
  have hkept := kept_eq hm true (edgePairs src dst)
  rw [Csr.edges]
  refine ((h.rev.triples h.byDst_keys).map _).trans ?_
  rw [List.map_map]
  refine ((h.byDst_perm.filter _).map _).trans (List.Perm.of_eq ?_)
  rw [← kept, hkept]
  rfl

lemma BuiltRel.indexed (hn : 0 ≤ nSrc) (hm : 0 ≤ nDst) : Indexed src dst nSrc nDst sort rel := by
  have hfwd := h.fwd.wellFormed
  have hrev := h.rev.wellFormed
  rw [Int.toNat_of_nonneg hn] at hfwd
  rw [Int.toNat_of_nonneg hm] at hrev
  exact
    { fwd := hfwd
      rev := hrev
      sorted := ⟨h.fwd.sorted, h.rev.sorted⟩
      fwd_edges := h.fwd_edges hn
      rev_edges := h.rev_edges hm
      saved := h.saved }

end

def EndsAgree (src dst : List Int64) (nSrc nDst : ℤ) : Prop :=
  ∀ e ∈ src.zip dst, InRange nSrc e.1.toInt ↔ InRange nDst e.2.toInt

section

variable (hends : EndsAgree src dst nSrc nDst)
include hends

lemma EndsAgree.pair (hp : p ∈ edgePairs src dst) : InRange nSrc p.src ↔ InRange nDst p.dst := by
  obtain ⟨⟨e, he, h₁, h₂⟩, -⟩ := mem_edgePairs hp
  rw [← h₁, ← h₂]
  exact hends e he

lemma EndsAgree.edgesWhere_src :
    edgesWhere src dst (fun e => InRange nSrc e.src) = edgesWhere src dst fun e =>
      InRange nSrc e.src ∧ InRange nDst e.dst := by
  rw [edgesWhere, edgesWhere]
  congr 1
  apply filter_congr
  intro e he
  have hag := hends.pair he
  rw [decide_eq_decide]
  tauto

lemma EndsAgree.edgesWhere_dst :
    edgesWhere src dst (fun e => InRange nDst e.dst) = edgesWhere src dst fun e =>
      InRange nSrc e.src ∧ InRange nDst e.dst := by
  rw [edgesWhere, edgesWhere]
  congr 1
  apply filter_congr
  intro e he
  have hag := hends.pair he
  rw [decide_eq_decide]
  tauto

end

lemma BuiltRel.mem_fwd_targets (h : BuiltRel src dst nSrc.toNat nDst.toNat sort rel bySrc byDst)
    (hn : 0 ≤ nSrc) {t : ℤ} :
    t ∈ rel.fwd.targets ↔ ∃ p ∈ edgePairs src dst, InRange nSrc p.src ∧ p.dst = t := by
  rw [h.fwd.mem_targets]
  simp only [inRange_toNat hn, h.bySrc_perm.mem_iff]
  rfl

lemma BuiltRel.mem_rev_targets (h : BuiltRel src dst nSrc.toNat nDst.toNat sort rel bySrc byDst)
    (hm : 0 ≤ nDst) {t : ℤ} :
    t ∈ rel.rev.targets ↔ ∃ p ∈ edgePairs src dst, InRange nDst p.dst ∧ p.src = t := by
  rw [h.rev.mem_targets]
  simp only [inRange_toNat hm, h.byDst_perm.mem_iff]
  rfl

/-- The indexes are transposes exactly when no edge has just one end in range. -/
theorem rayRelFromEdges_indexed (h : rayRelFromEdges src dst nSrc nDst sort = some rel) :
    Indexed src dst nSrc nDst sort rel ∧ (Lawful src dst nSrc nDst sort rel ↔ EndsAgree src dst nSrc nDst) := by
  obtain ⟨hn, hm, bySrc, byDst, hb⟩ := rayRelFromEdges_built h
  refine ⟨hb.indexed hn hm, ?_, ?_⟩
  · intro hl e he
    obtain ⟨p, hp, hsrc, hdst⟩ := edgePairs_of_mem he
    rw [← hsrc, ← hdst]
    constructor
    · intro hr
      exact hl.fwd_valid _ ((hb.mem_fwd_targets hn).mpr ⟨p, hp, hr, rfl⟩)
    · intro hr
      exact hl.rev_valid _ ((hb.mem_rev_targets hm).mpr ⟨p, hp, hr, rfl⟩)
  · intro hends
    have hfwd := hb.fwd_edges hn
    have hrev := hb.rev_edges hm
    rw [hends.edgesWhere_src] at hfwd
    rw [hends.edgesWhere_dst] at hrev
    refine
      { toIndexed := hb.indexed hn hm
        fwd_valid := ?_
        rev_valid := ?_
        transpose := hfwd.trans hrev.symm
        edges := hfwd }
    · intro t ht
      obtain ⟨p, hp, hr, rfl⟩ := (hb.mem_fwd_targets hn).mp ht
      exact (hends.pair hp).mp hr
    · intro t ht
      obtain ⟨p, hp, hr, rfl⟩ := (hb.mem_rev_targets hm).mp ht
      exact (hends.pair hp).mpr hr

/-- Two parallel edges, a loop and an edge outside the graph. -/
theorem rayRelFromEdges_indexed_four_edges :
    ∃ rel, rayRelFromEdges [0, 0, 1, 7] [1, 1, 1, 9] 2 2 true = some rel ∧
      Lawful [0, 0, 1, 7] [1, 1, 1, 9] 2 2 true rel := by
  have h : (rayRelFromEdges [0, 0, 1, 7] [1, 1, 1, 9] 2 2 true).isSome = true := by
    simp [rayRelFromEdges, maxWords]
  obtain ⟨rel, hrel⟩ := isSome_iff_exists.mp h
  refine ⟨rel, hrel, (rayRelFromEdges_indexed hrel).2.mpr ?_⟩
  simp [EndsAgree, InRange]

theorem rayRelFromEdges_keeps_bad_target :
    ¬∀ rel, rayRelFromEdges [0] [5] 1 2 false = some rel → Lawful [0] [5] 1 2 false rel := by
  intro h
  have hpairs : (edgePairs [0] [5]).mergeSort cmpEdgeBySrc = [⟨0, 5, 0⟩] := by
    rw [edgePairs]
    exact mergeSort_singleton _
  have hbuild : (csrBuildFromPairs [⟨0, 5, 0⟩] 1 false false).targets = [5] := by decide
  have hl := h
    { fromTable := 0, toTable := 0, nameSym := -1, fwd := csrBuildFromPairs [⟨0, 5, 0⟩] 1 false false,
      rev := csrBuildFromPairs [⟨0, 5, 0⟩] 2 true false }
    (by simp [rayRelFromEdges, maxWords, hpairs])
  have ht := hl.fwd_valid 5
  rw [hbuild] at ht
  simp [InRange] at ht

end

end Rayforce.Graph
