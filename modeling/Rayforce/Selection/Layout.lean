import Rayforce.Selection.Block

namespace Rayforce.Selection

open Library.Segments List Option

variable {s : ℕ}

def segs (n : ℕ) : ℕ := segCount rayMorselElems n

structure Kept (n : ℕ) where
  pos : ℕ → List ℕ
  ascending : ∀ s, (pos s).Pairwise (· < ·)
  inside : ∀ s, ∀ i ∈ pos s, i < segLen n s

namespace Kept

variable {n : ℕ} (f : Kept n)

def flag (s : ℕ) : SelFlag := classify (f.pos s).length (segLen n s)

def mixed (s : ℕ) : List ℕ := if f.flag s = .mix then f.pos s else []

def out (s : ℕ) : SegOut := ⟨f.flag s, (f.mixed s).length, f.mixed s⟩

def total : ℕ := sumTo (fun s => (f.pos s).length) (segs n)

def layout : Rowsel where
  totalPass := f.total
  nrows := n
  nSegs := segs n
  segFlags := (List.range (segs n)).map f.flag
  segOffsets := (List.range (segs n + 1)).map (sumTo fun s => (f.mixed s).length)
  idx := (List.range (segs n)).flatMap f.mixed

def rowsOf : List ℕ := (List.range (segs n)).flatMap fun s => (f.pos s).map (segBase s + ·)

lemma sublist_range (s : ℕ) : (f.pos s).Sublist (List.range (segLen n s)) := by
  have hsub : f.pos s ⊆ range (segLen n s) := fun i hi => mem_range.mpr (f.inside s i hi)
  exact sublist_of_subperm_of_pairwise ((f.ascending s).nodup.subperm hsub) (f.ascending s)
    pairwise_lt_range

lemma length_le (s : ℕ) : (f.pos s).length ≤ segLen n s := by
  simpa using (f.sublist_range s).length_le

lemma eq_range_of_full (h : (f.pos s).length = segLen n s) : f.pos s = List.range (segLen n s) :=
  (f.sublist_range s).eq_of_length (by simpa using h)

lemma eq_nil_of_none (h : f.flag s = .none) : f.pos s = [] := by
  simp only [flag, classify] at h
  split at h
  · exact eq_nil_of_length_eq_zero ‹_›
  · split at h <;> cases h

lemma eq_range_of_all (h : f.flag s = .all) : f.pos s = List.range (segLen n s) := by
  apply f.eq_range_of_full
  simp only [flag, classify] at h
  split at h
  · cases h
  · split at h
    · assumption
    · cases h

lemma mixed_of_mix (h : f.flag s = .mix) : f.mixed s = f.pos s := if_pos h

lemma out_eq (s : ℕ) : f.out s = if (f.pos s).length = 0 then ⟨.none, 0, []⟩
      else if (f.pos s).length = segLen n s then ⟨.all, 0, []⟩
      else ⟨.mix, (f.pos s).length, f.pos s⟩ := by
  rw [out, mixed, flag, classify]
  by_cases h0 : (f.pos s).length = 0
  · simp [h0]
  · by_cases hall : (f.pos s).length = segLen n s
    · rw [if_neg h0, if_neg h0, if_pos hall, if_pos hall]
      rfl
    · rw [if_neg h0, if_neg h0, if_neg hall, if_neg hall]
      rfl

lemma mixed_length_le (s : ℕ) : (f.mixed s).length ≤ (f.pos s).length := by
  rw [mixed]
  split <;> simp

lemma sumTo_segLen : sumTo (segLen n) (segs n) = n := sumTo_segments n (by decide)

lemma total_le : f.total ≤ n := by
  have h := sumTo_le_sumTo fun s (_ : s < segs n) => f.length_le s
  rwa [sumTo_segLen] at h

lemma mixed_total_le : sumTo (fun s => (f.mixed s).length) (segs n) ≤ f.total :=
  sumTo_le_sumTo fun s _ => f.mixed_length_le s

end Kept

lemma segLen_le (n s : ℕ) : segLen n s ≤ rayMorselElems := by
  simp only [segLen, segEnd, segBase]
  omega

lemma segLen_pos {n s : ℕ} (h : s < segs n) : 0 < segLen n s := by
  have hle : s + 1 ≤ (n + 1024 - 1) / 1024 := h
  have hmul := (Nat.le_div_iff_mul_le (by decide)).mp hle
  simp only [segLen, segEnd, segBase, rayMorselElems]
  omega

lemma segs_lt {n : ℕ} (hn : n < 2 ^ 32) : segs n < 2 ^ 32 := by
  have h : segCount rayMorselElems n ≤ n := by
    simp only [segCount, rayMorselElems]
    omega
  exact lt_of_le_of_lt h hn

lemma u32_of_lt {k : ℕ} (h : k < 2 ^ 32) : u32 k = k := Nat.mod_eq_of_lt h

lemma u16_of_inside {n s i : ℕ} (h : i < segLen n s) : u16 i = i := by
  have := segLen_le n s
  exact Nat.mod_eq_of_lt (by simp only [rayMorselElems] at this; omega)

lemma getD_map_range {β : Type*} (g : ℕ → β) (d : β) {s k : ℕ} (h : s < k) :
    ((List.range k).map g).getD s d = g s := by
  simp [getD_eq_getElem?_getD, h]

lemma rayRowselNew_ok {n total count : ℕ} (hn : n < 2 ^ 32) (ht : total ≤ n) (hc : count ≤ total) :
    rayRowselNew n total count = some
      { totalPass := total, nrows := n, nSegs := segs n
        segFlags := List.replicate (segs n) .none
        segOffsets := List.replicate (segs n + 1) 0
        idx := List.replicate count 0 } := by
  have hu : u32 (segCount rayMorselElems n) = segs n := u32_of_lt (segs_lt hn)
  simp only [rayRowselNew]
  rw [if_neg (by omega), hu]

lemma tally_eq (n k : ℕ) (pc : ℕ → ℕ) : tally n k pc
      = (sumTo pc k, sumTo (fun s => if classify (pc s) (segLen n s) = .mix then pc s else 0) k) := by
  induction k with
  | zero => rfl
  | succ k ih =>
    rw [tally] at ih ⊢
    rw [range_succ, foldl_append, ih]
    simp only [foldl_cons, foldl_nil, sumTo_succ, classify]
    split_ifs <;> simp_all

section

variable {body : ℕ → SegOut} {block : Rowsel}

lemma fillStep_run (k : ℕ) (hk : k ≤ block.segFlags.length) (ho : k ≤ block.segOffsets.length)
    (hu : sumTo (fun s => (body s).advance) k < 2 ^ 32) :
    (List.range k).foldl (Rowsel.fillStep body) (block, 0) = ({ block with
            segFlags := (List.range k).map (fun s => (body s).flag) ++ block.segFlags.drop k
            segOffsets := (List.range k).map (sumTo fun s => (body s).advance) ++ block.segOffsets.drop k
            idx := (List.range k).foldl
              (fun a s => writeAt a (sumTo (fun s => (body s).advance) s) (body s).written) block.idx },
          sumTo (fun s => (body s).advance) k) := by
  induction k with
  | zero => simp
  | succ k ih =>
    simp only [sumTo_succ] at hu
    have hflags := set_append_drop ((range k).map fun s => (body s).flag) block.segFlags (body k).flag
      (by simpa using hk)
    have hoffs := set_append_drop ((range k).map (sumTo fun s => (body s).advance)) block.segOffsets
      (sumTo (fun s => (body s).advance) k) (by simpa using ho)
    simp only [length_map, length_range] at hflags hoffs
    rw [range_succ, foldl_append, ih (by omega) (by omega) (by omega), foldl_cons, foldl_nil,
      Rowsel.fillStep, hflags, hoffs, u32_of_lt hu]
    simp

lemma fill_eq (hk : block.segFlags.length = block.nSegs) (ho : block.segOffsets.length = block.nSegs + 1)
    (hu : sumTo (fun s => (body s).advance) block.nSegs < 2 ^ 32) :
    block.fill body = { block with
          segFlags := (List.range block.nSegs).map fun s => (body s).flag
          segOffsets := (List.range (block.nSegs + 1)).map (sumTo fun s => (body s).advance)
          idx := (List.range block.nSegs).foldl
            (fun a s => writeAt a (sumTo (fun s => (body s).advance) s) (body s).written) block.idx } := by
  have hlast := set_append_drop ((range block.nSegs).map (sumTo fun s => (body s).advance)) block.segOffsets
    (sumTo (fun s => (body s).advance) block.nSegs) (by simp [ho])
  simp only [length_map, length_range] at hlast
  have hflags : block.segFlags.drop block.nSegs = [] := drop_eq_nil_of_le hk.le
  have hoffs : block.segOffsets.drop (block.nSegs + 1) = [] := drop_eq_nil_of_le ho.le
  rw [Rowsel.fill, fillStep_run block.nSegs hk.ge (by omega) hu, hlast, hflags, hoffs]
  simp [range_succ]

end

lemma fill_eq_layout {n count : ℕ} (hn : n < 2 ^ 32) (f : Kept n) (body : ℕ → SegOut)
    (hcount : count = sumTo (fun s => (f.mixed s).length) (segs n))
    (hbody : ∀ s < segs n, body s = f.out s) :
    (rayRowselNew n f.total count).bind (fun b => some (b.fill body)) = some f.layout := by
  have hc : count ≤ f.total := hcount ▸ f.mixed_total_le
  have hadv : ∀ k ≤ segs n, sumTo (fun s => (body s).advance) k = sumTo (fun s => (f.mixed s).length) k := by
    intro k hk
    apply sumTo_congr
    intro s hs
    rw [hbody s (by omega)]
    rfl
  rw [rayRowselNew_ok hn f.total_le hc, bind_some, some.injEq]
  have htot := f.total_le
  rw [fill_eq (by simp) (by simp) (by rw [hadv _ le_rfl]; omega)]
  simp only [Kept.layout, Rowsel.mk.injEq, true_and]
  refine ⟨map_congr_left ?_, map_congr_left ?_, ?_⟩
  · intro s hs
    rw [hbody s (mem_range.mp hs)]
    rfl
  · intro s hs
    exact hadv s (by have := mem_range.mp hs; omega)
  · have hwrite : (range (segs n)).foldl
        (fun a s => writeAt a (sumTo (fun s => (body s).advance) s) (body s).written) (replicate count 0)
        = (range (segs n)).foldl
        (fun a s => writeAt a (sumTo (fun s => (f.mixed s).length) s) (f.mixed s)) (replicate count 0) := by
      apply foldl_ext
      intro a s hs
      have hlt := mem_range.mp hs
      rw [hadv s hlt.le, hbody s hlt]
      rfl
    rw [hwrite, foldl_writeAt, ← hcount]
    simp

end Rayforce.Selection
