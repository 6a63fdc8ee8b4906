import Mathlib
import Rayforce.Library.Words

/-! Columns with nulls and symbol domains, and tables of them. -/

namespace Rayforce.Join

open Library.Words List Option Function

variable {t : ColType} {z : Cell} {d : Option ℕ} {n : ℕ}

inductive ColType
  | bool | u8 | i16 | i32 | i64 | f32 | f64 | date | time | timestamp | guid | sym | str | list
  deriving DecidableEq

inductive Cell
  | num (v : ℤ)
  | text (s : Bytes)
  | obj (o : Option ℕ)
  deriving DecidableEq

structure Symbols where
  runtime : List Bytes
  file : ℕ → List Bytes
  runtime_nodup : runtime.Nodup
  file_nodup : ∀ d, (file d).Nodup
  file_sub : ∀ d, ∀ s ∈ file d, s ∈ runtime

structure Column where
  type : ColType
  cells : List Cell
  hasNulls : Bool
  domain : Option ℕ
  pool : ℕ

inductive JoinErr
  | nyi
  | schema
  | type
  | range
  | corrupt
  | oom
  deriving DecidableEq

def sentinelIsNull : ColType → Cell → Bool
  | .f64, .num v => 0x7FF0000000000000 < v % 2 ^ 63
  | .f32, .num v => 0x7F800000 < v % 2 ^ 31
  | .i64, .num v => v = -2 ^ 63
  | .timestamp, .num v => v = -2 ^ 63
  | .i32, .num v => v = -2 ^ 31
  | .date, .num v => v = -2 ^ 31
  | .time, .num v => v = -2 ^ 31
  | .i16, .num v => v = -2 ^ 15
  | .guid, .num v => v = 0
  | _, _ => false

def nullCell : ColType → Option Cell
  | .f64 => some (.num 0x7FF8000000000000)
  | .f32 => some (.num 0x7FC00000)
  | .i64 => some (.num (-2 ^ 63))
  | .timestamp => some (.num (-2 ^ 63))
  | .i32 => some (.num (-2 ^ 31))
  | .date => some (.num (-2 ^ 31))
  | .time => some (.num (-2 ^ 31))
  | .i16 => some (.num (-2 ^ 15))
  | .guid => some (.num 0)
  | _ => none

def setNull (t : ColType) (x : Cell) : Cell × Bool :=
  if t = .str then (.text [], false) else (nullCell t).elim (x, false) fun z => (z, true)

def Column.isNullCell (c : Column) (x : Cell) : Bool :=
  c.type ≠ .sym && c.type ≠ .str && c.hasNulls && sentinelIsNull c.type x

def Column.isNull (c : Column) (i : ℕ) : Bool := (c.cells[i]?).elim false c.isNullCell

section

variable (S : Symbols)

def Symbols.names : Option ℕ → List Bytes
  | none => S.runtime
  | some d => S.file d

def Symbols.name (d : Option ℕ) (v : ℤ) : Option Bytes := if v < 0 then none else (S.names d)[v.toNat]?

def symIdRuntime (d : Option ℕ) (v : ℤ) : ℤ :=
  match d with
  | none => v
  | some d =>
    if v < 0 ∨ (S.file d).length ≤ v.toNat then -1 else (S.runtime.idxOf ((S.file d).getD v.toNat [])  : ℤ)

end

inductive Value
  | null
  | num (v : ℤ)
  | sym (s : Option Bytes)
  | text (s : Bytes)
  | obj (o : Option ℕ)
  deriving DecidableEq

def shown (S : Symbols) (t : ColType) (d : Option ℕ) : Cell → Value
  | .num v => if t = .sym then .sym (S.name d v) else .num v
  | .text s => .text s
  | .obj o => .obj o

def Column.value (S : Symbols) (c : Column) (x : Cell) : Value :=
  if c.isNullCell x then .null else shown S c.type c.domain x

def Column.values (S : Symbols) (c : Column) : List Value := c.cells.map (c.value S)

def zeroCell : ColType → Cell
  | .str => .text []
  | .list => .obj none
  | _ => .num 0

def Column.absent (S : Symbols) (c : Column) : Value :=
  if (nullCell c.type).isSome then .null else shown S c.type c.domain (zeroCell c.type)

def Column.valueAt (S : Symbols) (c : Column) : Option ℕ → Value
  | none => c.absent S
  | some r => (c.values S).getD r .null

def Column.gatherCell (c : Column) : Option ℕ → Cell × Bool
  | none => setNull c.type (zeroCell c.type)
  | some r =>
    let x := c.cells.getD r (zeroCell c.type)
    if c.isNullCell x then setNull c.type x else (x, false)

def Column.gather (c : Column) (idx : List (Option ℕ)) : Column where
  type := c.type
  cells := idx.map fun i => (c.gatherCell i).1
  hasNulls := idx.any fun i => (c.gatherCell i).2
  domain := c.domain
  pool := c.pool

def Column.translate (S : Symbols) (c : Column) (x : Cell) : Except JoinErr Cell :=
  match c.domain, x with
  | some d, .num v =>
    if v < 0 ∨ (S.file d).length ≤ v.toNat then .error .corrupt else .ok (.num (symIdRuntime S (some d) v))
  | _, _ => .ok x

def Column.carryNull (c : Column) (x : Cell) (y : Cell) : Cell × Bool :=
  if c.isNullCell x then setNull c.type y else (y, false)

def Column.marked (c : Column) : List (Cell × Bool) := c.cells.map fun x => c.carryNull x x

def rayVecConcat (S : Symbols) (a b : Column) : Except JoinErr Column :=
  if a.type ≠ b.type then .error .type
  else if a.type = .str then
    if 2 ^ 32 - 1 < a.pool + b.pool then .error .range
    else .ok ⟨.str, a.cells ++ b.cells, false, none, a.pool + b.pool⟩
  else if a.type = .sym ∧ a.domain ≠ b.domain then do
    let xs ← a.cells.mapM (a.translate S)
    let ys ← b.cells.mapM (b.translate S)
    return ⟨.sym, xs ++ ys, false, none, 0⟩
  else
    let marks := a.marked ++ b.marked
    .ok ⟨a.type, marks.map Prod.fst, marks.any Prod.snd, a.domain, 0⟩

def Column.Flagged (c : Column) : Prop := c.hasNulls = false → ∀ x ∈ c.cells, sentinelIsNull c.type x = false

def Column.Placed (S : Symbols) (c : Column) : Prop :=
  c.type = .sym → ∀ x ∈ c.cells, ∃ n < (S.names c.domain).length, x = .num n

variable {S : Symbols} {a b c : Column}

lemma sentinel_nullCell (h : nullCell t = some z) : sentinelIsNull t z = true := by
  cases t <;> simp only [nullCell, some.injEq, reduceCtorEq] at h <;> subst h <;> decide

lemma sentinel_of_nullCell_none (h : nullCell t = none) (x : Cell) : sentinelIsNull t x = false := by
  cases t <;> simp [nullCell] at h <;> cases x <;> rfl

lemma setNull_some (h : nullCell t = some z) (x : Cell) : setNull t x = (z, true) := by
  have ht : t ≠ .str := by
    rintro rfl
    cases h
  rw [setNull, if_neg ht, h]
  rfl

lemma setNull_none (h : nullCell t = none) (ht : t ≠ .str) (x : Cell) : setNull t x = (x, false) := by
  rw [setNull, if_neg ht, h]
  rfl

lemma isNullCell_nullable {x : Cell} (h : c.isNullCell x = true) : ∃ z, nullCell c.type = some z := by
  simp only [Column.isNullCell, Bool.and_eq_true] at h
  cases hz : nullCell c.type with
  | some z => exact ⟨z, rfl⟩
  | none =>
    rw [sentinel_of_nullCell_none hz] at h
    cases h.2

lemma nullable_not_sym (h : nullCell t = some z) : t ≠ .sym ∧ t ≠ .str := by
  constructor <;> rintro rfl <;> cases h

lemma Column.Flagged.isNullCell_iff (h : c.Flagged) {x : Cell} (hx : x ∈ c.cells) :
    c.isNullCell x = sentinelIsNull c.type x := by
  rw [Column.isNullCell]
  cases hs : sentinelIsNull c.type x with
  | false => simp
  | true =>
    have hn : c.hasNulls = true := by
      by_contra hf
      rw [h (by simpa using hf) x hx] at hs
      cases hs
    have ht : nullCell c.type ≠ none := by
      intro hz
      rw [sentinel_of_nullCell_none hz] at hs
      cases hs
    obtain ⟨z, hz⟩ := ne_none_iff_exists'.mp ht
    obtain ⟨h1, h2⟩ := nullable_not_sym hz
    simp [hn, h1, h2]

lemma isNullCell_of_mark (hz : nullCell c.type = some z) (hn : c.hasNulls = true) : c.isNullCell z = true := by
  obtain ⟨h1, h2⟩ := nullable_not_sym hz
  simp [Column.isNullCell, hn, h1, h2, sentinel_nullCell hz]

lemma isNullCell_of_sentinel {x : Cell} (h : sentinelIsNull c.type x = false) : c.isNullCell x = false := by
  simp [Column.isNullCell, h]

lemma gatherCell_cases (h : c.Flagged) (i : Option ℕ) (hi : ∀ r, i = some r → r < c.cells.length) :
    (∃ z, nullCell c.type = some z ∧ c.gatherCell i = (z, true) ∧ c.valueAt S i = .null) ∨
    (∃ x, c.gatherCell i = (x, false) ∧ sentinelIsNull c.type x = false ∧
      c.valueAt S i = shown S c.type c.domain x) := by
  cases i with
  | none =>
    cases hz : nullCell c.type with
    | some z => exact .inl ⟨z, rfl, setNull_some hz _, by simp [Column.valueAt, Column.absent, hz]⟩
    | none =>
      refine .inr ⟨zeroCell c.type, ?_, sentinel_of_nullCell_none hz _,
        by simp [Column.valueAt, Column.absent, hz]⟩
      rw [Column.gatherCell]
      by_cases ht : c.type = .str
      · rw [setNull, if_pos ht, ht]
        rfl
      · exact setNull_none hz ht _
  | some r =>
    have hr := hi r rfl
    have hget : c.cells.getD r (zeroCell c.type) = c.cells[r] := by
      rw [getD_eq_getElem?_getD, getElem?_eq_getElem hr, getD_some]
    have hval : c.valueAt S (some r) = c.value S c.cells[r] := by
      simp [Column.valueAt, Column.values, getD_eq_getElem?_getD, getElem?_eq_getElem hr]
    have hmem : c.cells[r] ∈ c.cells := getElem_mem hr
    simp only [Column.gatherCell, hget, hval]
    cases hn : c.isNullCell c.cells[r] with
    | true =>
      obtain ⟨z, hz⟩ := isNullCell_nullable hn
      exact .inl ⟨z, hz, by rw [if_pos rfl, setNull_some hz], by rw [Column.value, if_pos hn]⟩
    | false =>
      refine .inr ⟨c.cells[r], by simp, ?_, by simp [Column.value, hn]⟩
      rw [← h.isNullCell_iff hmem, hn]

lemma values_gather (h : c.Flagged) (idx : List (Option ℕ))
    (hi : ∀ i ∈ idx, ∀ r, i = some r → r < c.cells.length) : (c.gather idx).values S = idx.map (c.valueAt S) := by
  rw [Column.values, show (c.gather idx).cells = idx.map fun i => (c.gatherCell i).1 from rfl, List.map_map]
  apply map_congr_left
  intro i hm
  obtain ⟨z, hz, hg, hv⟩ | ⟨x, hg, hs, hv⟩ := gatherCell_cases h i (hi i hm)
  · have hn : (c.gather idx).hasNulls = true := any_eq_true.mpr ⟨i, hm, by rw [hg]⟩
    have hnull : (c.gather idx).isNullCell z = true := isNullCell_of_mark hz hn
    rw [hv, comp_apply, hg, Column.value, if_pos hnull]
  · have hnull : (c.gather idx).isNullCell x = false := isNullCell_of_sentinel hs
    rw [hv, comp_apply, hg, Column.value, hnull]
    rfl

lemma gather_flagged (S : Symbols) (h : c.Flagged) (idx : List (Option ℕ))
    (hi : ∀ i ∈ idx, ∀ r, i = some r → r < c.cells.length) : (c.gather idx).Flagged := by
  intro hn x hx
  obtain ⟨i, hm, rfl⟩ := mem_map.mp hx
  obtain ⟨z, hz, hg, -⟩ | ⟨x, hg, hs, -⟩ := gatherCell_cases (S := S) h i (hi i hm)
  · have : (c.gather idx).hasNulls = true := any_eq_true.mpr ⟨i, hm, by rw [hg]⟩
    rw [hn] at this
    cases this
  · rw [hg]
    exact hs

lemma gather_placed (h : c.Placed S) (is : List ℕ) (hi : ∀ i ∈ is, i < c.cells.length) :
    (c.gather (is.map some)).Placed S := by
  intro ht x hx
  obtain ⟨o, ho, rfl⟩ := mem_map.mp hx
  obtain ⟨r, hr, rfl⟩ := mem_map.mp ho
  have hlt := hi r hr
  have htt : c.type = .sym := ht
  have hnn : c.isNullCell (c.cells.getD r (zeroCell c.type)) = false := by simp [Column.isNullCell, htt]
  simp only [Column.gatherCell, hnn, Bool.false_eq_true, if_false]
  rw [getD_eq_getElem?_getD, getElem?_eq_getElem hlt, getD_some]
  exact h htt _ (getElem_mem hlt)

lemma name_symIdRuntime (hn : n < (S.names d).length) : S.name none (symIdRuntime S d n) = S.name d n := by
  cases d with
  | none => rfl
  | some d =>
    have hlt : n < (S.file d).length := hn
    have hmem : (S.file d)[n] ∈ S.runtime := S.file_sub d _ (getElem_mem hlt)
    have hget : (S.file d).getD n [] = (S.file d)[n] := by
      rw [getD_eq_getElem?_getD, getElem?_eq_getElem hlt, getD_some]
    have hidx := idxOf_lt_length_iff.mpr hmem
    have hneg : ¬((n : ℤ) < 0 ∨ (S.file d).length ≤ (n : ℤ).toNat) := by omega
    rw [symIdRuntime, if_neg hneg, Int.toNat_natCast, hget]
    simp only [Symbols.name, Symbols.names, Int.toNat_natCast]
    rw [if_neg (by omega), if_neg (by omega), getElem?_eq_getElem hidx, getElem?_eq_getElem hlt,
      getElem_idxOf hidx]

lemma symIdRuntime_placed (hn : n < (S.names d).length) :
    ∃ m < S.runtime.length, symIdRuntime S d n = (m : ℤ) := by
  cases d with
  | none => exact ⟨n, hn, rfl⟩
  | some d =>
    have hlt : n < (S.file d).length := hn
    have hmem : (S.file d)[n] ∈ S.runtime := S.file_sub d _ (getElem_mem hlt)
    have hget : (S.file d).getD n [] = (S.file d)[n] := by
      rw [getD_eq_getElem?_getD, getElem?_eq_getElem hlt, getD_some]
    refine ⟨_, idxOf_lt_length_iff.mpr hmem, ?_⟩
    have hneg : ¬((n : ℤ) < 0 ∨ (S.file d).length ≤ (n : ℤ).toNat) := by omega
    rw [symIdRuntime, if_neg hneg, Int.toNat_natCast, hget]

lemma translate_num (hn : n < (S.names c.domain).length) :
    c.translate S (.num n) = .ok (.num (symIdRuntime S c.domain n)) := by
  cases hd : c.domain with
  | none => simp only [Column.translate, hd, symIdRuntime]
  | some d =>
    rw [hd] at hn
    have hlt : n < (S.file d).length := hn
    have hneg : ¬((n : ℤ) < 0 ∨ (S.file d).length ≤ (n : ℤ).toNat) := by omega
    simp only [Column.translate, hd, if_neg hneg]

lemma translate_cells (h : c.Placed S) (ht : c.type = .sym) : ∃ xs, c.cells.mapM (c.translate S) = .ok xs ∧
    xs.map (shown S .sym none) = c.values S ∧ ∀ x ∈ xs, ∃ n < S.runtime.length, x = .num n := by
  have hall : ∀ x ∈ c.cells, ∃ n < (S.names c.domain).length, x = .num n := h ht
  have hval : ∀ x, c.value S x = shown S .sym c.domain x := by
    intro x
    simp [Column.value, Column.isNullCell, ht]
  rw [Column.values]
  generalize c.cells = cells at hall
  induction cells with
  | nil => exact ⟨[], rfl, rfl, by simp⟩
  | cons x cells ih =>
    obtain ⟨xs, hm, hv, hp⟩ := ih fun x hx => hall x (mem_cons_of_mem _ hx)
    obtain ⟨n, hn, rfl⟩ := hall x (by simp)
    obtain ⟨m, hm', he⟩ := symIdRuntime_placed hn
    refine ⟨.num (symIdRuntime S c.domain n) :: xs, ?_, ?_, ?_⟩
    · rw [mapM_cons, translate_num hn, hm]
      rfl
    · rw [map_cons, map_cons, hv, hval, shown, shown, if_pos rfl, if_pos rfl, name_symIdRuntime hn]
    · intro y hy
      rcases mem_cons.mp hy with rfl | hy
      · exact ⟨m, hm', by rw [he]⟩
      · exact hp y hy

lemma marked_cases (h : c.Flagged) {x : Cell} (hx : x ∈ c.cells) :
    (∃ z, nullCell c.type = some z ∧ c.carryNull x x = (z, true) ∧ c.value S x = .null) ∨
    (c.carryNull x x = (x, false) ∧ sentinelIsNull c.type x = false ∧
      c.value S x = shown S c.type c.domain x) := by
  rw [Column.carryNull, Column.value]
  cases hn : c.isNullCell x with
  | true =>
    obtain ⟨z, hz⟩ := isNullCell_nullable hn
    exact .inl ⟨z, hz, by rw [if_pos rfl, setNull_some hz], if_pos rfl⟩
  | false => exact .inr ⟨rfl, by rw [← h.isNullCell_iff hx, hn], rfl⟩

lemma shown_domain {d d' : Option ℕ} (h : t = .sym → d = d') (x : Cell) : shown S t d x = shown S t d' x := by
  cases x with
  | num v =>
    by_cases ht : t = .sym
    · rw [h ht]
    · simp only [shown, if_neg ht]
  | text s => rfl
  | obj o => rfl

lemma values_marked (h : c.Flagged) {d : Column} (ht : d.type = c.type)
    (hd : c.type = .sym → d.domain = c.domain) (hn : c.marked.any Prod.snd = true → d.hasNulls = true) :
    (c.marked.map Prod.fst).map (d.value S) = c.values S := by
  rw [Column.marked, Column.values, List.map_map, List.map_map]
  apply map_congr_left
  intro x hx
  simp only [comp_apply]
  obtain ⟨z, hz, hm, hv⟩ | ⟨hm, hs, hv⟩ := marked_cases h hx
  · have hnull : d.isNullCell z = true :=
      isNullCell_of_mark (by rw [ht, hz]) (hn (any_eq_true.mpr ⟨_, mem_map_of_mem hx, by rw [hm]⟩))
    rw [hv, hm, Column.value, if_pos hnull]
  · have hnull : d.isNullCell x = false := isNullCell_of_sentinel (by rw [ht, hs])
    rw [hv, hm, Column.value, hnull, ht, shown_domain hd]
    rfl

lemma marked_sentinel (S : Symbols) (h : c.Flagged) (hn : c.marked.any Prod.snd = false) {x : Cell}
    (hx : x ∈ c.marked.map Prod.fst) :
    sentinelIsNull c.type x = false := by
  obtain ⟨y, hy, rfl⟩ := mem_map.mp hx
  obtain ⟨x, hxc, rfl⟩ := mem_map.mp hy
  obtain ⟨z, hz, hm, -⟩ | ⟨hm, hs, -⟩ := marked_cases (S := S) h hxc
  · have := any_eq_false.mp hn _ (mem_map_of_mem hxc)
    rw [hm] at this
    exact absurd rfl this
  · rw [hm]
    exact hs

lemma marked_sym (ht : c.type = .sym) : c.marked.map Prod.fst = c.cells := by
  rw [Column.marked, List.map_map]
  conv_rhs => rw [← map_id c.cells]
  apply map_congr_left
  intro x _
  simp [Column.carryNull, Column.isNullCell, ht]

lemma values_of_str (h : c.type = .str) : c.values S = c.cells.map (shown S .str none) := by
  apply map_congr_left
  intro x _
  rw [Column.value, h, shown_domain (show ColType.str = .sym → c.domain = none by simp)]
  simp [Column.isNullCell, h]

structure Merged (S : Symbols) (a b c : Column) : Prop where
  type_left : a.type = c.type
  type_right : b.type = c.type
  flagged : c.Flagged
  placed : a.Placed S → b.Placed S → c.Placed S
  values : c.values S = a.values S ++ b.values S
  length : c.cells.length = a.cells.length + b.cells.length
  pool : c.type = .str → c.pool = a.pool + b.pool
  domain : a.domain = b.domain → c.type = .sym → c.domain = a.domain

structure Mergeable (S : Symbols) (a b : Column) : Prop where
  type : a.type = b.type
  flagged_left : a.Flagged
  flagged_right : b.Flagged
  pool : a.type = .str → a.pool + b.pool < 2 ^ 32
  domain : a.type = .sym → a.domain ≠ b.domain → a.Placed S ∧ b.Placed S

lemma rayVecConcat_spec (h : Mergeable S a b) : ∃ c, rayVecConcat S a b = .ok c ∧ Merged S a b c := by
  have ht := h.type
  rw [rayVecConcat, if_neg (not_not.mpr ht)]
  by_cases hstr : a.type = .str
  · have hpool : ¬2 ^ 32 - 1 < a.pool + b.pool := by
      have := h.pool hstr
      omega
    rw [if_pos hstr, if_neg hpool]
    refine ⟨_, rfl, hstr, ht ▸ hstr, ?_, fun _ _ =>
      by simp [Column.Placed], ?_, length_append, fun _ => rfl, by simp⟩
    · intro _ x _
      cases x <;> rfl
    · rw [values_of_str (c := ⟨.str, _, _, _, _⟩) rfl, values_of_str hstr, values_of_str (ht ▸ hstr), map_append]
  rw [if_neg hstr]
  by_cases hmix : a.type = .sym ∧ a.domain ≠ b.domain
  · obtain ⟨hpa, hpb⟩ := h.domain hmix.1 hmix.2
    obtain ⟨xs, hxs, hvx, hpx⟩ := translate_cells hpa hmix.1
    obtain ⟨ys, hys, hvy, hpy⟩ := translate_cells hpb (ht ▸ hmix.1)
    have hlx : xs.length = a.cells.length := by simpa [Column.values] using congrArg length hvx
    have hly : ys.length = b.cells.length := by simpa [Column.values] using congrArg length hvy
    have hval : ∀ x, Column.value S ⟨.sym, xs ++ ys, false, none, 0⟩ x = shown S .sym none x := by
      intro x
      simp [Column.value, Column.isNullCell]
    refine ⟨⟨.sym, xs ++ ys, false, none, 0⟩, ?_, hmix.1, ht ▸ hmix.1, ?_, ?_, ?_, ?_, by simp, fun h =>
      absurd h hmix.2⟩
    · rw [if_pos hmix, hxs, hys]
      rfl
    · intro _ x _
      cases x <;> rfl
    · intro _ _ _ x hx
      exact (mem_append.mp hx).elim (hpx x) (hpy x)
    · rw [Column.values, funext hval, map_append, hvx, hvy]
    · rw [length_append, hlx, hly]
  have hdom : a.type = .sym → b.domain = a.domain := by
    intro hs
    by_contra hne
    exact hmix ⟨hs, Ne.symm hne⟩
  rw [if_neg hmix]
  refine ⟨_, rfl, rfl, ht.symm, ?_, ?_, ?_, ?_, fun h => absurd h hstr, fun _ _ => rfl⟩
  · intro hn x hx
    rw [any_append, Bool.or_eq_false_iff] at hn
    rw [map_append, mem_append] at hx
    rcases hx with hx | hx
    · exact marked_sentinel S h.flagged_left hn.1 hx
    · rw [show (_ : ColType) = b.type from ht]
      exact marked_sentinel S h.flagged_right hn.2 hx
  · intro hpa hpb hs x hx
    have hs' : a.type = .sym := hs
    rw [map_append, marked_sym hs', marked_sym (ht ▸ hs')] at hx
    rcases mem_append.mp hx with hx | hx
    · exact hpa hs' x hx
    · have := hpb (ht ▸ hs') x hx
      rwa [hdom hs'] at this
  · rw [Column.values, map_append, map_append]
    congr 1
    · exact values_marked h.flagged_left rfl (fun _ => rfl) fun h => by rw [any_append, h, Bool.true_or]
    · exact values_marked h.flagged_right ht (fun h => (hdom (ht.trans h)).symm) fun h => by
        rw [any_append, h, Bool.or_true]
  · simp [Column.marked]

end Rayforce.Join
