import Rayforce.Selection.Algebra
import Rayforce.Library.Bisect

/-! The selection cursor of `ops/agg_engine.c`. -/

namespace Rayforce.Selection

open Library.Segments Library.Bisect List Option

variable {s : ℕ} {slices : List (ℕ × ℕ)} {fuel : ℕ} {i : ℕ}

def aggSelChunk : ℕ := 2048

def Rowsel.selCount (sel : Rowsel) (s : ℕ) : ℕ :=
  match sel.flag s with
  | .none => 0
  | .all => segLen sel.nrows s
  | .mix => sel.offset (s + 1) - sel.offset s

def aggSelBuildPrefix (sel : Rowsel) : List ℕ :=
  let st := (List.range sel.nSegs).foldl
    (fun (st : List ℕ × ℕ) s => (st.1 ++ [st.2], st.2 + sel.selCount s)) ([], 0)
  st.1 ++ [st.2]

structure AggSelCursor where
  remaining : ℕ
  seg : ℕ
  segPos : ℕ

def aggSelCursorInit (sel : Rowsel) (pre : List ℕ) (selStart selEnd : ℕ) : AggSelCursor :=
  let remaining := selEnd - selStart
  if remaining = 0 then ⟨remaining, sel.nSegs, 0⟩
  else
    let lo := bisect (fun mid => pre.getD (mid + 1) 0 ≤ selStart) sel.nSegs 0 sel.nSegs
    ⟨remaining, lo, selStart - pre.getD lo 0⟩

def emitRows (row : ℕ → ℕ) (segSel : ℕ) : ℕ → ℕ → List ℕ → ℕ × ℕ × List ℕ
  | 0, pos, rows => (0, pos, rows)
  | rem + 1, pos, rows =>
    if pos < segSel ∧ rows.length < aggSelChunk then emitRows row segSel rem (pos + 1)
      (rows ++ [row pos]) else (rem + 1, pos, rows)

def AggSelCursor.leave (seg segSel remaining pos : ℕ) : AggSelCursor :=
  if segSel ≤ pos then ⟨remaining, seg + 1, 0⟩ else ⟨remaining, seg, pos⟩

def aggSelCursorNext (sel : Rowsel) : ℕ → AggSelCursor → List ℕ → Option (AggSelCursor × List ℕ)
  | 0, _, _ => none
  | fuel + 1, c, rows =>
    if 0 < c.remaining ∧ rows.length < aggSelChunk ∧ c.seg < sel.nSegs then
      match sel.flag c.seg with
      | .none => aggSelCursorNext sel fuel ⟨c.remaining, c.seg + 1, 0⟩ rows
      | .all =>
        let segSel := segLen sel.nrows c.seg
        let (remaining, pos, rows) := emitRows (fun i => segBase c.seg + i) segSel c.remaining c.segPos rows
        aggSelCursorNext sel fuel (.leave c.seg segSel remaining pos) rows
      | .mix =>
        let segSel := sel.offset (c.seg + 1) - sel.offset c.seg
        let (remaining, pos, rows) :=
          emitRows (fun i => segBase c.seg + sel.idx.getD (sel.offset c.seg + i) 0) segSel
            c.remaining c.segPos rows
        aggSelCursorNext sel fuel (.leave c.seg segSel remaining pos) rows
    else some (c, rows)

def aggSelChunks (sel : Rowsel) : ℕ → AggSelCursor → Option (List (List ℕ))
  | 0, _ => none
  | fuel + 1, c =>
    (aggSelCursorNext sel fuel c []).bind fun r =>
      if r.2.length = 0 then some [] else (aggSelChunks sel fuel r.1).map fun chunks => r.2 :: chunks

def aggSelRun (sel : Rowsel) (fuel selStart selEnd : ℕ) : Option (List (List ℕ)) :=
  aggSelChunks sel fuel (aggSelCursorInit sel (aggSelBuildPrefix sel) selStart selEnd)

section

variable (sel : Rowsel)

lemma prefix_run (k : ℕ) : (List.range k).foldl
    (fun (st : List ℕ × ℕ) s => (st.1 ++ [st.2], st.2 + sel.selCount s)) ([], 0) =
      ((List.range k).map (sumTo sel.selCount), sumTo sel.selCount k) := by
  induction k with
  | zero => rfl
  | succ k ih => rw [range_succ, foldl_append, ih, map_append, sumTo_succ]; rfl

lemma aggSelBuildPrefix_eq : aggSelBuildPrefix sel = (List.range (sel.nSegs + 1)).map (sumTo sel.selCount) := by
  rw [aggSelBuildPrefix, prefix_run, range_succ, map_append]
  rfl

lemma aggSelBuildPrefix_getD (h : s ≤ sel.nSegs) : (aggSelBuildPrefix sel).getD s 0 = sumTo sel.selCount s := by
  rw [aggSelBuildPrefix_eq]
  exact getD_map_range _ _ (Nat.lt_succ_of_le h)

end

section

variable {row : ℕ → ℕ} {L : List ℕ}

lemma emitRows_eq (hrow : ∀ i < L.length, L.getD i 0 = row i) (rem pos : ℕ) (rows : List ℕ) :
    emitRows row L.length rem pos rows = (rem - min rem (min (L.length - pos) (aggSelChunk - rows.length)),
        pos + min rem (min (L.length - pos) (aggSelChunk - rows.length)),
        rows ++ (L.drop pos).take (min rem (min (L.length - pos) (aggSelChunk - rows.length)))) := by
  induction rem generalizing pos rows with
  | zero => simp [emitRows]
  | succ rem ih =>
    rw [emitRows]
    by_cases h : pos < L.length ∧ rows.length < aggSelChunk
    · obtain ⟨hpos, hroom⟩ := h
      have hk : min (rem + 1) (min (L.length - pos) (aggSelChunk - rows.length)) =
          min rem (min (L.length - (pos + 1)) (aggSelChunk - (rows ++ [row pos]).length)) + 1 := by
        rw [length_append, length_singleton]
        omega
      have hdrop : L.drop pos = row pos :: L.drop (pos + 1) := by
        rw [← hrow pos hpos, getD_eq_getElem _ _ hpos]
        exact drop_eq_getElem_cons hpos
      rw [if_pos ⟨hpos, hroom⟩, ih, hk, hdrop, take_succ_cons, append_assoc, singleton_append]
      refine Prod.ext ?_ (Prod.ext ?_ rfl)
      · dsimp only
        omega
      · dsimp only
        omega
    · have hk : min (rem + 1) (min (L.length - pos) (aggSelChunk - rows.length)) = 0 := by omega
      rw [if_neg h, hk, take_zero, append_nil]
      rfl

end

namespace Kept

variable {n : ℕ} (f : Kept n)

def before (s : ℕ) : ℕ := sumTo (fun s => (f.pos s).length) s

def segRowsOf (s : ℕ) : List ℕ := (f.pos s).map (segBase s + ·)

@[simp] lemma length_segRowsOf (s : ℕ) : (f.segRowsOf s).length = (f.pos s).length := length_map _

lemma before_succ (s : ℕ) : f.before (s + 1) = f.before s + (f.pos s).length := sumTo_succ _ _

lemma before_le {s t : ℕ} (h : s ≤ t) : f.before s ≤ f.before t := sumTo_mono _ h

lemma before_segs : f.before (segs n) = f.total := rfl

lemma layout_selCount (h : s < segs n) : f.layout.selCount s = (f.pos s).length := by
  rw [Rowsel.selCount, f.layout_flag h]
  cases hf : f.flag s with
  | none => rw [f.eq_nil_of_none hf]; rfl
  | all => rw [f.eq_range_of_all hf, length_range]; rfl
  | mix => simp only [f.layout_offset_sub h, f.mixed_of_mix hf]

lemma prefix_layout (h : s ≤ segs n) : (aggSelBuildPrefix f.layout).getD s 0 = f.before s := by
  rw [aggSelBuildPrefix_getD _ h]
  exact sumTo_congr fun t ht => f.layout_selCount (by omega)

lemma rowsOf_drop {s pos : ℕ} (hs : s < segs n) (hpos : pos ≤ (f.pos s).length) :
    f.rowsOf.drop (f.before s + pos) = (f.segRowsOf s).drop pos ++ f.rowsOf.drop (f.before (s + 1)) := by
  have hlens : (fun s => (f.segRowsOf s).length) = fun s => (f.pos s).length := funext f.length_segRowsOf
  have hseg : slice f.rowsOf (f.before s) (f.before (s + 1)) = f.segRowsOf s := by
    have h := slice_flatMap f.segRowsOf hs
    rwa [hlens] at h
  have hstart : f.rowsOf.drop (f.before s) = f.segRowsOf s ++ f.rowsOf.drop (f.before (s + 1)) := by
    rw [slice, f.before_succ, Nat.add_sub_cancel_left] at hseg
    rw [f.before_succ, ← drop_drop, ← hseg, take_append_drop]
  rw [← drop_drop, hstart, drop_append_of_le_length (by rwa [f.length_segRowsOf])]

structure At (c : AggSelCursor) (a b : ℕ) : Prop where
  remaining : c.remaining = b - a
  ordered : a ≤ b
  inside : b ≤ f.total
  place : a < b → c.seg < segs n ∧ f.before c.seg + c.segPos = a ∧ c.segPos ≤ (f.pos c.seg).length

lemma At.init {a b : ℕ} (hab : a ≤ b) (hb : b ≤ f.total) :
    f.At (aggSelCursorInit f.layout (aggSelBuildPrefix f.layout) a b) a b := by
  rw [aggSelCursorInit]
  by_cases h : b - a = 0
  · simp only [h, if_true]
    exact ⟨h.symm, hab, hb, fun hlt => by omega⟩
  · simp only [h, if_false, layout_nSegs]
    have hpre : ∀ i < segs n, (aggSelBuildPrefix f.layout).getD (i + 1) 0 = f.before (i + 1) :=
      fun i hi => f.prefix_layout hi
    obtain ⟨-, hle, hbelow, habove⟩ :=
      @bisect_spec (fun mid => decide ((aggSelBuildPrefix f.layout).getD (mid + 1) 0 ≤ a))
      (segs n) 0 (segs n) (fun i j _ hij hj hbj => by
        rw [decide_eq_true_eq, hpre i (by omega)]
        rw [decide_eq_true_eq, hpre j hj] at hbj
        exact (f.before_le (by omega)).trans hbj) (Nat.zero_le _) (by omega)
    generalize bisect (fun mid => decide ((aggSelBuildPrefix f.layout).getD (mid + 1) 0 ≤ a)) (segs n) 0
      (segs n) = lo at *
    rw [f.prefix_layout hle]
    have hstart : f.before lo ≤ a := by
      cases lo with
      | zero => exact Nat.zero_le a
      | succ lo =>
        have h := of_decide_eq_true (hbelow lo (Nat.zero_le _) (by omega))
        rwa [hpre lo (by omega)] at h
    have hlt : lo < segs n := by
      by_contra hge
      have hall := f.before_le (Nat.le_of_not_lt hge)
      rw [f.before_segs] at hall
      omega
    have hend : a < f.before (lo + 1) := by
      have h := of_decide_eq_false (habove lo le_rfl hlt)
      rw [hpre lo hlt] at h
      omega
    rw [f.before_succ] at hend
    exact ⟨rfl, hab, hb, fun _ => ⟨hlt, by dsimp only; omega, by dsimp only; omega⟩⟩

variable {f} {c : AggSelCursor} {a b : ℕ}

lemma At.next_seg {r s : ℕ} (hrem : r = b - a) (hab : a ≤ b) (hb : b ≤ f.total) (hplace : f.before (s + 1) = a) :
    f.At ⟨r, s + 1, 0⟩ a b := by
  refine ⟨hrem, hab, hb, fun hlt => ⟨?_, hplace, Nat.zero_le _⟩⟩
  by_contra hge
  have hall := f.before_le (Nat.le_of_not_lt hge)
  rw [f.before_segs, hplace] at hall
  omega

lemma At.leave (h : f.At c a b) (hab : a < b) {k : ℕ} (hk : k ≤ b - a)
    (hseg : c.segPos + k ≤ (f.pos c.seg).length) :
    f.At (.leave c.seg (f.pos c.seg).length (c.remaining - k) (c.segPos + k)) (a + k) b := by
  obtain ⟨hlt, hplace, -⟩ := h.place hab
  have hrem := h.remaining
  have hsucc := f.before_succ c.seg
  rw [AggSelCursor.leave]
  split_ifs with hend
  · exact At.next_seg (by omega) (by omega) h.inside (by omega)
  · exact ⟨by dsimp only; omega, by omega, h.inside, fun _ => ⟨hlt, by dsimp only; omega, hseg⟩⟩

lemma At.taken (h : f.At c a b) (hab : a < b) {k : ℕ} (hseg : c.segPos + k ≤ (f.pos c.seg).length) :
    ((f.segRowsOf c.seg).drop c.segPos).take k = (f.rowsOf.drop a).take k := by
  obtain ⟨hlt, hplace, hpos⟩ := h.place hab
  rw [← hplace, f.rowsOf_drop hlt hpos, take_append_of_le_length]
  rw [length_drop, f.length_segRowsOf]
  omega

lemma all_getD (hflag : f.flag s = .all) (hi : i < (f.segRowsOf s).length) :
    (f.segRowsOf s).getD i 0 = segBase s + i := by
  rw [getD_eq_getElem _ _ hi]
  simp [segRowsOf, f.eq_range_of_all hflag]

lemma mix_getD (hs : s < segs n) (hflag : f.flag s = .mix) (hi : i < (f.segRowsOf s).length) :
    (f.segRowsOf s).getD i 0 = segBase s + f.layout.idx.getD (f.layout.offset s + i) 0 := by
  have hslice : slice f.layout.idx (f.layout.offset s) (f.layout.offset (s + 1)) = f.pos s :=
    (f.layout_segIdx hs).trans (f.mixed_of_mix hflag)
  have hpos : i < (f.pos s).length := by simpa using hi
  have hat : (f.pos s)[i]? = f.layout.idx[f.layout.offset s + i]? := by
    have hwide : i < f.layout.offset (s + 1) - f.layout.offset s := by
      rwa [f.layout_offset_sub hs, f.mixed_of_mix hflag]
    rw [← hslice, slice, getElem?_take_of_lt hwide, getElem?_drop]
  rw [getD_eq_getElem _ _ hi, getD_eq_getElem?_getD, ← hat, getElem?_eq_getElem hpos]
  simp [segRowsOf]

lemma At.next (h : f.At c a b) {rows : List ℕ} (hrows : rows.length ≤ aggSelChunk)
    (hfuel : segs n - c.seg + 1 ≤ fuel ∨ 1 ≤ fuel ∧ (a = b ∨ rows.length = aggSelChunk)) :
    ∃ c' k, aggSelCursorNext f.layout fuel c rows = some (c', rows ++ (f.rowsOf.drop a).take k) ∧
      f.At c' (a + k) b ∧
      rows.length + k ≤ aggSelChunk ∧ (a + k = b ∨ rows.length + k = aggSelChunk) := by
  induction fuel generalizing c a rows with
  | zero => omega
  | succ fuel ih =>
    rw [aggSelCursorNext, layout_nSegs]
    have hordered := h.ordered
    by_cases hgo : 0 < c.remaining ∧ rows.length < aggSelChunk ∧ c.seg < segs n
    · obtain ⟨hrem, hroom, hseg⟩ := hgo
      have hab : a < b := by
        have := h.remaining
        omega
      obtain ⟨-, hplace, hpos⟩ := h.place hab
      have hleft : segs n - c.seg ≤ fuel := by omega
      rw [if_pos ⟨hrem, hroom, hseg⟩, f.layout_flag hseg]
      -- a segment of either kind is read in the same way, whatever gives its rows
      have hread : ∀ row : ℕ → ℕ, (∀ i < (f.segRowsOf c.seg).length, (f.segRowsOf c.seg).getD i 0 = row i) →
          ∃ c' k, (aggSelCursorNext f.layout fuel
              (.leave c.seg (f.pos c.seg).length (emitRows row (f.pos c.seg).length c.remaining c.segPos rows).1
                (emitRows row (f.pos c.seg).length c.remaining c.segPos rows).2.1)
              (emitRows row (f.pos c.seg).length c.remaining c.segPos rows).2.2) =
            some (c', rows ++ (f.rowsOf.drop a).take k) ∧ f.At c' (a + k) b ∧
            rows.length + k ≤ aggSelChunk ∧ (a + k = b ∨ rows.length + k = aggSelChunk) := by
        intro row hrow
        have hemit := emitRows_eq hrow c.remaining c.segPos rows
        rw [f.length_segRowsOf] at hemit
        obtain ⟨k, hk⟩ : ∃ k, k = min c.remaining
          (min ((f.pos c.seg).length - c.segPos) (aggSelChunk - rows.length)) := ⟨_, rfl⟩
        rw [← hk] at hemit
        have hrem := h.remaining
        have hinside := h.inside
        have htaken := h.taken hab (k := k) (by omega)
        have hlen : ((f.rowsOf.drop a).take k).length = k := by
          rw [length_take, length_drop, f.length_rowsOf]
          omega
        rw [hemit, htaken]
        dsimp only
        have hroom' : (rows ++ (f.rowsOf.drop a).take k).length ≤ aggSelChunk := by
          rw [length_append, hlen]
          omega
        have hleave := h.leave hab (k := k) (by omega) (by omega)
        obtain ⟨c', k', hnext, hat, hle, hdone⟩ := ih hleave hroom' (by
          rw [length_append, hlen]
          by_cases hend : (f.pos c.seg).length ≤ c.segPos + k
          · rw [AggSelCursor.leave, if_pos hend]
            dsimp only
            omega
          · omega)
        rw [length_append, hlen] at hle hdone
        refine ⟨c', k + k', ?_, ?_, by omega, by omega⟩
        · rw [hnext, append_assoc, ← drop_drop, ← take_add]
        · rwa [← Nat.add_assoc]
      cases hf : f.flag c.seg with
      | none =>
        have hnil := f.eq_nil_of_none hf
        have hsucc := f.before_succ c.seg
        rw [hnil, length_nil] at hpos hsucc
        have hnext := At.next_seg (f := f) (s := c.seg) h.remaining h.ordered h.inside (by omega)
        exact ih hnext hrows (by dsimp only; omega)
      | all =>
        have hlen : segLen f.layout.nrows c.seg = (f.pos c.seg).length := by
          rw [f.eq_range_of_all hf, length_range]
          rfl
        simp only [hlen]
        exact hread _ fun i hi => all_getD hf hi
      | mix =>
        have hlen : f.layout.offset (c.seg + 1) - f.layout.offset c.seg = (f.pos c.seg).length := by
          rw [f.layout_offset_sub hseg, f.mixed_of_mix hf]
        simp only [hlen]
        exact hread _ fun i hi => mix_getD hseg hf hi
    · rw [if_neg hgo]
      refine ⟨c, 0, by simp, h, by omega, ?_⟩
      by_contra hne
      have hab : a < b := by omega
      have := h.remaining
      exact hgo ⟨by omega, by omega, (h.place hab).1⟩

lemma At.chunks (h : f.At c a b) (hfuel : segs n + (b - a) + 2 ≤ fuel) :
    ∃ chunks, aggSelChunks f.layout fuel c = some chunks ∧ chunks.flatten = (f.rowsOf.drop a).take (b - a) ∧
      ∀ rows ∈ chunks, 0 < rows.length ∧ rows.length ≤ aggSelChunk := by
  induction fuel generalizing c a with
  | zero => omega
  | succ fuel ih =>
    obtain ⟨c', k, hnext, hat, hle, hdone⟩ := h.next (show ([] : List ℕ).length ≤ aggSelChunk from Nat.zero_le _)
      (.inl (show segs n - c.seg + 1 ≤ fuel by omega))
    rw [nil_append] at hnext
    rw [length_nil, Nat.zero_add] at hle hdone
    have hend := hat.ordered
    have hinside := h.inside
    have hlen : ((f.rowsOf.drop a).take k).length = k := by
      rw [length_take, length_drop, f.length_rowsOf]
      omega
    have hchunk : 0 < aggSelChunk := by decide
    rw [aggSelChunks, hnext, bind_some, hlen]
    by_cases hk : k = 0
    · have hab : b - a = 0 := by omega
      rw [if_pos hk, hab]
      exact ⟨[], rfl, by simp, by simp⟩
    · obtain ⟨chunks, hchunks, hflat, hsizes⟩ := ih hat (by omega)
      refine ⟨(f.rowsOf.drop a).take k :: chunks, ?_, ?_, forall_mem_cons.mpr ⟨by omega, hsizes⟩⟩
      · rw [if_neg hk, hchunks, map_some]
      · rw [flatten_cons, hflat, ← drop_drop, ← take_add]
        congr 1
        omega

def Slices : ℕ → ℕ → List (ℕ × ℕ) → Prop
  | a, b, [] => a = b
  | a, b, s :: slices => s.1 = a ∧ a ≤ s.2 ∧ Slices s.2 b slices

lemma Slices.le (h : Slices a b slices) : a ≤ b := by
  induction slices generalizing a with
  | nil => exact Nat.le_of_eq h
  | cons s slices ih => exact h.2.1.trans (ih h.2.2)

lemma take_drop_append {α : Type} (l : List α) {i j k : ℕ} (hij : i ≤ j) (hjk : j ≤ k) :
    (l.drop i).take (j - i) ++ (l.drop j).take (k - j) = (l.drop i).take (k - i) := by
  have hj : j = i + (j - i) := by omega
  have hk : k - i = j - i + (k - j) := by omega
  rw [hk, take_add, drop_drop, ← hj]

lemma Slices.run (h : Slices a b slices) (hb : b ≤ f.total) (hfuel : segs n + f.total + 2 ≤ fuel) :
    ∃ chunks, List.Forall₂ (fun s cs => aggSelRun f.layout fuel s.1 s.2 = some cs) slices chunks ∧
      chunks.flatten.flatten = (f.rowsOf.drop a).take (b - a) ∧
      ∀ rows ∈ chunks.flatten, 0 < rows.length ∧ rows.length ≤ aggSelChunk := by
  induction slices generalizing a with
  | nil =>
    have hab : a = b := h
    exact ⟨[], .nil, by simp [hab], by simp⟩
  | cons s slices ih =>
    obtain ⟨rfl, hle, hrest⟩ := h
    have hend := hrest.le
    obtain ⟨chunks, hruns, hrows, hfit⟩ := ih hrest
    obtain ⟨cs, hcs, hflat, hsizes⟩ :=
      (At.init f hle (hend.trans hb)).chunks (show segs n + (s.2 - s.1) + 2 ≤ fuel by omega)
    refine ⟨cs :: chunks, .cons hcs hruns, ?_, ?_⟩
    · rw [flatten_cons, flatten_append, hflat, hrows, take_drop_append _ hle hend]
    · intro rows hmem
      rw [flatten_cons, mem_append] at hmem
      exact hmem.elim (hsizes rows) (hfit rows)

lemma getElem?_writeAt {xs out : List ℕ} {off i r : ℕ} (hoff : off ≤ out.length)
    (h : (writeAt out off xs)[i]? = some r) :
    off ≤ i ∧ i < off + xs.length ∧ r ∈ xs ∨ out[i]? = some r := by
  have htake : (out.take off).length = off := length_take_of_le hoff
  rw [writeAt, append_assoc] at h
  by_cases hi : i < off
  · rw [getElem?_append_left (by omega), getElem?_take_of_lt hi] at h
    exact .inr h
  · rw [getElem?_append_right (by omega), htake] at h
    by_cases hin : i - off < xs.length
    · rw [getElem?_append_left hin] at h
      exact .inl ⟨by omega, by omega, mem_of_getElem? h⟩
    · rw [getElem?_append_right (by omega), getElem?_drop] at h
      have hidx : off + xs.length + (i - off - xs.length) = i := by omega
      exact .inr (hidx ▸ h)

variable (f) in
lemma rowsOf_start {s : ℕ} (hs : s < segs n) (hne : f.pos s ≠ []) :
    ∃ i < 1024, f.rowsOf[f.start s]? = some (segBase s + i) := by
  have hslice := slice_flatMap (fun s => (f.pos s).map (segBase s + ·)) hs
  simp only [length_map] at hslice
  obtain ⟨i, rest, hpos⟩ := exists_cons_of_ne_nil hne
  have hi : i < 1024 := (f.inside s i (hpos ▸ mem_cons_self)).trans_le (segLen_le n s)
  have hget := congrArg (fun l => l[0]?) hslice
  have hwidth : 0 < sumTo (fun s => (f.pos s).length) (s + 1) - sumTo (fun s => (f.pos s).length) s := by
    rw [sumTo_succ, hpos, length_cons]
    omega
  simp only [slice, hpos, map_cons, getElem?_cons_zero, getElem?_take_of_lt hwidth, getElem?_drop,
    Nat.add_zero] at hget
  exact ⟨i, hi, hget⟩

variable (f) in
/-- A segment whose offset wraps is written below its place, and no other segment has its rows. -/
lemma toIndices_iff : rayRowselToIndices f.layout = f.rowsOf ↔ f.Fits := by
  refine ⟨fun heq s hs hne => ?_, f.toIndices_of_fits⟩
  by_contra hbig
  have hbig := not_lt.mp hbig
  obtain ⟨i, hi, hrow⟩ := f.rowsOf_start hs hne
  have hlt : f.start s < f.total := by
    rw [← f.length_rowsOf]
    exact (List.getElem?_eq_some_iff.mp hrow).1
  have hs0 : 0 < s := by
    refine Nat.pos_of_ne_zero fun h => ?_
    rw [h, start, sumTo_zero] at hbig
    omega
  have hrun : ∀ l : List ℕ, (∀ t ∈ l, t < segs n) → ∀ out :
    List ℕ, f.total ≤ out.length → out[f.start s]? ≠ some (segBase s + i) →
      (l.foldl (fun out t => if f.layout.flag t = .none then out
        else writeAt out ((flatOffsets f.layout).getD t 0) (f.layout.segIds t)) out)[f.start s]? ≠
          some (segBase s + i) := by
    intro l
    induction l with
    | nil => exact fun _ out _ h => h
    | cons t l ih =>
      intro hl out hlen hout
      obtain ⟨ht, hl⟩ := forall_mem_cons.mp hl
      rw [foldl_cons]
      refine ih hl _ ?_ ?_
      · split_ifs
        · exact hlen
        · rw [writeAt, length_append, length_append, length_take, length_drop]
          omega
      · split_ifs
        · exact hout
        have hoff : (flatOffsets f.layout).getD t 0 < 2 ^ 32 := by
          rw [f.flatOffsets_layout ht]
          exact Nat.mod_lt _ (by norm_num)
        intro hnew
        obtain ⟨-, hin, hmem⟩ | hold := getElem?_writeAt (by omega) hnew
        · rw [f.layout_segIds ht, length_map] at hin
          rw [f.layout_segIds ht] at hmem
          obtain ⟨j, hj, hjeq⟩ := List.mem_map.mp hmem
          have hj := (f.inside t j hj).trans_le (segLen_le n t)
          have hts : t = s := by
            simp only [segBase, rayMorselElems] at hjeq hj
            omega
          subst hts
          rw [f.flatOffsets_layout ht, u32] at hin
          have hle := (f.length_le t).trans (segLen_le n t)
          simp only [rayMorselElems] at hle
          omega
        · exact hout hold
  have hsegs : ¬(f.layout.totalPass = 0 ∨ f.layout.nSegs = 0) := by
    rw [not_or]
    exact ⟨show f.total ≠ 0 by omega, show segs n ≠ 0 by omega⟩
  rw [rayRowselToIndices, if_neg hsegs] at heq
  refine hrun _ (fun t ht => mem_range.mp ht) (replicate f.total 0) length_replicate.ge ?_ (heq ▸ hrow)
  rw [getElem?_replicate_of_lt hlt, segBase, rayMorselElems]
  intro h
  have := Option.some.inj h
  omega

lemma full_total (n : ℕ) : (full n).total = n := by
  have hlen : (fun s => ((full n).pos s).length) = segLen n := funext fun s => length_range
  rw [total, hlen, sumTo_segLen]

end Kept

/-- However the selected rows are sliced, the chunks give them in order. -/
theorem aggSelCursor_streams {n : ℕ} (f : Kept n) {slices : List (ℕ × ℕ)}
    (h : Kept.Slices 0 f.total slices) {fuel : ℕ} (hfuel : segs n + f.total + 2 ≤ fuel) :
    ∃ chunks, List.Forall₂ (fun s cs => aggSelRun f.layout fuel s.1 s.2 = some cs) slices chunks ∧
      chunks.flatten.flatten = f.rowsOf ∧ f.rowsOf.Pairwise (· < ·) ∧
      (∀ rows ∈ chunks.flatten, 0 < rows.length ∧ rows.length ≤ aggSelChunk) ∧
      (chunks.flatten.flatten = rayRowselToIndices f.layout ↔ f.Fits) := by
  obtain ⟨chunks, hruns, hrows, hfit⟩ := h.run le_rfl hfuel
  have hall : chunks.flatten.flatten = f.rowsOf := by
    rw [hrows, drop_zero, Nat.sub_zero, ← f.length_rowsOf, take_length]
  exact ⟨chunks, hruns, hall, f.rowsOf_ascending, hfit, by rw [hall, eq_comm, f.toIndices_iff]⟩

theorem aggSelCursor_streams_two : ∃ chunks,
    List.Forall₂ (fun s cs => aggSelRun (Kept.full 3).layout 6 s.1 s.2 = some cs) [(0, 1), (1, 3)] chunks ∧
      chunks.flatten.flatten = rayRowselToIndices (Kept.full 3).layout := by
  obtain ⟨chunks, hruns, -, -, -, hsame⟩ := @aggSelCursor_streams 3 (Kept.full 3) [(0, 1), (1, 3)]
    (by simp [Kept.Slices, Kept.full_total]) 6 (by decide)
  refine ⟨chunks, hruns, hsame.mpr fun s hs _ => ?_⟩
  exact ((Kept.full 3).start_le_total hs.le).trans_lt (by rw [Kept.full_total]; norm_num)

lemma full_differs {n : ℕ} (hn : 2 ^ 32 + 1024 ≤ n) :
    ∃ chunks, aggSelRun (Kept.full n).layout (segs n + n + 2) 0 n = some chunks ∧
      chunks.flatten ≠ rayRowselToIndices (Kept.full n).layout := by
  have htotal := Kept.full_total n
  have hslices : Kept.Slices 0 n [(0, n)] := ⟨rfl, Nat.zero_le n, rfl⟩
  obtain ⟨chunks, hruns, hrows, -⟩ := hslices.run (f := Kept.full n) htotal.ge
    (show segs n + (Kept.full n).total + 2 ≤ segs n + n + 2 by omega)
  cases hruns with
  | @cons _ cs _ _ hrun hnil =>
    cases hnil
    refine ⟨cs, hrun, fun heq => ?_⟩
    rw [flatten_singleton, drop_zero, Nat.sub_zero,
      take_of_length_le (by rw [Kept.length_rowsOf, htotal]), heq] at hrows
    -- the segment after the first `2 ^ 32` rows
    have hlen : ∀ s ≤ 2 ^ 22, segLen n s = 1024 := by
      intro s hs
      simp only [segLen, segEnd, segBase, rayMorselElems]
      omega
    have hseg : 2 ^ 22 < segs n := by
      simp only [segs, segCount, rayMorselElems]
      omega
    have hpos : ∀ s, ((Kept.full n).pos s).length = segLen n s := fun s => length_range
    have hne : (Kept.full n).pos (2 ^ 22) ≠ [] := ne_nil_of_length_pos (by rw [hpos, hlen _ le_rfl]; norm_num)
    have hstart : (Kept.full n).start (2 ^ 22) = sumTo (fun _ => 1024) (2 ^ 22) :=
      sumTo_congr fun s hs => (hpos s).trans (hlen s hs.le)
    rw [sumTo, map_const', sum_replicate, length_range, smul_eq_mul] at hstart
    have hfit := (Kept.full n).toIndices_iff.mp hrows (2 ^ 22) hseg hne
    omega

/-- With `2 ^ 32 + 1024` rows the last flat offset wraps to 0. -/
theorem indices_wrap : ∃ chunks,
    aggSelRun (Kept.full (2 ^ 32 + 1024)).layout (segs (2 ^ 32 + 1024) + (2 ^ 32 + 1024) + 2) 0 (2 ^ 32 + 1024) =
    some chunks ∧ chunks.flatten ≠ rayRowselToIndices (Kept.full (2 ^ 32 + 1024)).layout :=
  full_differs le_rfl

end Rayforce.Selection
