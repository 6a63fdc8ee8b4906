import Rayforce.Library.Probing
import Rayforce.Library.Sequences

/-! The radix strategy of `agg_engine.c`. -/

namespace Rayforce.Group

open Library.Probing Library.Sequences List Option Function

abbrev Key := List UInt64

structure Input where
  nrows : ℕ
  key : ℕ → Key
  sel : Option (List ℕ)

structure Task where
  wid : ℕ
  start : ℕ
  stop : ℕ

structure Record where
  key : Key
  row : ℕ

structure PayBuf where
  recs : List Record
  cap : ℕ

abbrev Bufs := ℕ → ℕ → PayBuf

structure Part where
  firstRow : List ℕ
  keys : List Key

structure GroupState where
  cells : Cells (UInt64 × ℕ)
  part : Part

inductive Outcome
  | fallback
  | failed
  | ok (groups : List (Key × ℕ))

def partCountLoop (nworkers rows : ℕ) : ℕ → ℕ → ℕ
  | 0, n => n
  | fuel + 1, n =>
    if (n < nworkers ∨ n < rows / n + if rows % n ≠ 0 then 1 else 0) ∧
      n ≤ (2 ^ 32 - 1) / 2 then partCountLoop nworkers rows fuel (n * 2) else n

def aggRadixPartCount (nworkers nrows : ℕ) : ℕ := partCountLoop nworkers (if 0 < nrows then nrows else 1) 32 1

def poolMaxTasks : ℕ := 2 ^ 16

def hashKeys (ks : Key) : UInt64 := ks.foldl (fun h v => (h ^^^ v) * 1099511628211) 1469598103934665603

def partOf (nParts : ℕ) (ks : Key) : ℕ := (hashKeys ks).toNat % nParts

def aggPayReserve (b : PayBuf) : Option PayBuf :=
  if b.recs.length = b.cap then
    if (2 ^ 32 - 1) / 2 < b.cap then none else some { b with cap := if b.cap = 0 then 1 else b.cap * 2 }
  else some b

section

variable (c : Input) (nParts : ℕ)

def Input.count : ℕ := (c.sel.map List.length).getD c.nrows

def aggRadixScatterOne (w : ℕ) (bufs : Bufs) (x : ℕ × ℕ) : Option Bufs :=
  let p := partOf nParts (c.key x.1)
  (aggPayReserve (bufs w p)).map fun b =>
    Function.update bufs w (Function.update (bufs w) p { b with recs := b.recs ++ [⟨c.key x.1, x.2⟩] })

def rangeRows (start stop : ℕ) : List (ℕ × ℕ) :=
  match c.sel with
  | some rows => ((rows.drop start).take (stop - start)).zipIdx start
  | none => (List.range' start (stop - start)).map fun r => (r, r)

def aggRadixScatterRange (bufs : Bufs) (t : Task) : Option Bufs :=
  (rangeRows c t.start t.stop).foldlM (aggRadixScatterOne c nParts t.wid) bufs

def scatter (tasks : List Task) : Option Bufs := tasks.foldlM (aggRadixScatterRange c nParts) fun _ _ => ⟨[], 0⟩

def htCapLoop (total : ℕ) : ℕ → ℕ → ℕ
  | 0, cap => cap
  | fuel + 1, cap => if cap < total * 2 then htCapLoop total fuel (cap * 2) else cap

def htCap (total : ℕ) : ℕ := htCapLoop total total 16

def groupStep (s : GroupState) (r : Record) : Option GroupState :=
  let h := hashKeys r.key
  (lookup s.cells h.toNat fun e => e.1 = h >>> 56 ∧ s.part.keys[e.2]? = some r.key).bind fun found =>
    match found with
    | some e =>
      some { s with part := { s.part with
        firstRow :=
          if r.row < s.part.firstRow.getD e.2 0 then s.part.firstRow.set e.2 r.row else s.part.firstRow } }
    | none =>
      if 2 ^ 31 ≤ s.part.keys.length then none
      else (place s.cells h.toNat (h >>> 56, s.part.keys.length)).map fun cells =>
        ⟨cells, s.part.firstRow ++ [r.row], s.part.keys ++ [r.key]⟩

def aggRadixGroup (recs : List Record) : Option Part :=
  if recs.length = 0 then some ⟨[], []⟩
  else (recs.foldlM groupStep ⟨List.replicate (htCap recs.length) none, [], []⟩).map GroupState.part

def partRecs (nw : ℕ) (bufs : Bufs) (p : ℕ) : List Record := (List.range nw).flatMap fun w => (bufs w p).recs

def groupParts (nw : ℕ) (bufs : Bufs) : Option (List Part) :=
  (List.range nParts).mapM fun p => if p < poolMaxTasks then aggRadixGroup (partRecs nw bufs p) else some ⟨[], []⟩

def placements (parts : List Part) : List (ℕ × ℕ × ℕ) :=
  parts.zipIdx.flatMap fun x => x.1.firstRow.zipIdx.map fun y => (x.2, y.2, y.1)

def placeFirst (n : ℕ) (pairs : List ℤ) (x : ℕ × ℕ × ℕ) : Option (List ℤ) :=
  if n ≤ x.2.2 ∨ pairs.getD x.2.2 (-1) ≠ -1 then none else some (pairs.set x.2.2 (x.1 * 2 ^ 32 + x.2.1))

def compactStep (s : List ℤ × ℕ) (i : ℕ) : List ℤ × ℕ :=
  if s.1.getD i (-1) ≠ -1 then (s.1.set s.2 (s.1.getD i (-1)), s.2 + 1) else s

def orderGroups (parts : List Part) (n : ℕ) : Option (List ℤ) :=
  ((placements parts).foldlM (placeFirst n) (List.replicate n (-1))).bind fun pairs =>
    let r := (List.range n).foldl compactStep (pairs, 0)
    if r.2 = (parts.map fun part => part.keys.length).sum then some (r.1.take r.2) else none

def emit (parts : List Part) (idx : ℤ) : Key × ℕ :=
  let part := parts.getD (idx / 2 ^ 32).toNat ⟨[], []⟩
  (part.keys.getD (idx % 2 ^ 32).toNat [], part.firstRow.getD (idx % 2 ^ 32).toNat 0)

def radix (nw : ℕ) (tasks : List Task) : Option Outcome :=
  match scatter c nParts tasks with
  | none => some .fallback
  | some bufs => (groupParts nParts nw bufs).map fun parts =>
      match orderGroups parts c.count with
      | none => .failed
      | some pairs => .ok (pairs.map (emit parts))

def execGroupV2ParallelRadix (nw : ℕ) (tasks : List Task) : Option Outcome :=
  radix c (aggRadixPartCount nw c.count) nw tasks

end

lemma partCountLoop_pow {nw rows fuel k : ℕ} (hk : k ≤ 31) :
    ∃ j ≤ 31, partCountLoop nw rows fuel (2 ^ k) = 2 ^ j := by
  induction fuel generalizing k with
  | zero => exact ⟨k, hk, rfl⟩
  | succ fuel ih =>
    rw [partCountLoop]
    by_cases hgrow : (2 ^ k < nw ∨ 2 ^ k < rows / 2 ^ k + if rows % 2 ^ k ≠ 0 then 1 else 0) ∧
      2 ^ k ≤ (2 ^ 32 - 1) / 2
    · have hlt : k < 31 := by
        by_contra hge
        have hpow : 2 ^ 31 ≤ 2 ^ k := Nat.pow_le_pow_right two_pos (not_lt.mp hge)
        omega
      rw [if_pos hgrow, ← pow_succ]
      exact ih hlt
    · exact ⟨k, hk, if_neg hgrow⟩

lemma aggRadixPartCount_pow (nw nrows : ℕ) : ∃ k ≤ 31, aggRadixPartCount nw nrows = 2 ^ k :=
    partCountLoop_pow (Nat.zero_le 31)

lemma aggRadixPartCount_pos (nw nrows : ℕ) : 0 < aggRadixPartCount nw nrows := by
  obtain ⟨k, -, hk⟩ := aggRadixPartCount_pow nw nrows
  rw [hk]
  exact Nat.two_pow_pos k

lemma htCapLoop_ge {total fuel cap : ℕ} (h : total * 2 ≤ cap * 2 ^ fuel) :
    total * 2 ≤ htCapLoop total fuel cap := by
  induction fuel generalizing cap with
  | zero => rwa [pow_zero, mul_one] at h
  | succ fuel ih =>
    rw [htCapLoop]
    split_ifs with hsmall
    · exact ih (by rwa [mul_assoc, ← pow_succ'])
    · exact not_lt.mp hsmall

lemma htCap_ge (total : ℕ) : total * 2 ≤ htCap total := by
  apply htCapLoop_ge
  have hpow := (Nat.lt_two_pow_self (n := total)).le
  omega

section

variable {recs rest : List Record} {s s' : GroupState} {cap : ℕ} {k : Key}

structure Groups (recs : List Record) (part : Part) : Prop where
  nodup : part.keys.Nodup
  length : part.firstRow.length = part.keys.length
  mem_keys : ∀ k, k ∈ part.keys ↔ ∃ r ∈ recs, r.key = k
  first : ∀ (g : ℕ) (k : Key) (f : ℕ), part.keys[g]? = some k → part.firstRow[g]? = some f →
    (∃ r ∈ recs, r.key = k ∧ r.row = f) ∧ ∀ r ∈ recs, r.key = k → f ≤ r.row

def home (keys : List Key) (e : UInt64 × ℕ) : ℕ := (hashKeys (keys.getD e.2 [])).toNat

structure Grouping (cap : ℕ) (recs : List Record) (s : GroupState) : Prop extends Groups recs s.part where
  cells_length : s.cells.length = cap
  chained : Chained (home s.part.keys) s.cells
  mem_cells : ∀ e, some e ∈ s.cells ↔ ∃ k, s.part.keys[e.2]? = some k ∧ e.1 = hashKeys k >>> 56
  cells_occupied : occupied s.cells = s.part.keys.length
  bound : s.part.keys.length ≤ recs.length
  small : s.part.keys.length ≤ 2 ^ 31

lemma home_append {keys : List Key} {e : UInt64 × ℕ} (he : e.2 < keys.length) (k : Key) :
    home (keys ++ [k]) e = home keys e := by
  rw [home, home, getD_append _ _ _ _ he]

lemma Grouping.lookup_key (h : Grouping cap recs s) (hroom : recs.length < cap) (k : Key) :
    ∃ found, lookup s.cells (hashKeys k).toNat
    (fun e => e.1 = hashKeys k >>> 56 ∧ s.part.keys[e.2]? = some k) = some found ∧
      (found = none → k ∉ s.part.keys) ∧ ∀ e, found = some e → s.part.keys[e.2]? = some k := by
  have hfree : occupied s.cells < s.cells.length := by
    rw [h.cells_occupied, h.cells_length]
    exact h.bound.trans_lt hroom
  obtain ⟨found, hfound⟩ := isSome_iff_exists.mp
    (lookup_isSome (hashKeys k).toNat
      (fun e : UInt64 × ℕ => decide (e.1 = hashKeys k >>> 56 ∧ s.part.keys[e.2]? = some k)) hfree)
  refine ⟨found, hfound, fun hnone hk => ?_, fun e he => ?_⟩
  · obtain ⟨g, hg⟩ := mem_iff_getElem?.mp hk
    have hhome : home s.part.keys (hashKeys k >>> 56, g) = (hashKeys k).toNat := by
      rw [home, getD_eq_getElem?_getD, hg, getD_some]
    have hmiss := lookup_missing h.chained (congrArg (· % s.cells.length) hhome)
      ((h.mem_cells (_, g)).mpr ⟨k, hg, rfl⟩) (hnone ▸ hfound)
    exact of_decide_eq_false hmiss ⟨rfl, hg⟩
  · obtain ⟨-, hhit⟩ := lookup_found (he ▸ hfound)
    exact (of_decide_eq_true hhit).2

lemma Groups.append_known {part : Part} (h : Groups recs part)
    {r : Record} {g : ℕ} (hg : part.keys[g]? = some r.key) :
    Groups (recs ++ [r]) { part with
      firstRow := if r.row < part.firstRow.getD g 0 then part.firstRow.set g r.row else part.firstRow } := by
  obtain ⟨hlt, hkey⟩ := List.getElem?_eq_some_iff.mp hg
  have hget : part.firstRow[g]? = some (part.firstRow.getD g 0) := by
    rw [getD_eq_getElem?_getD, getElem?_eq_getElem (h.length ▸ hlt), getD_some]
  refine ⟨h.nodup, ?_, fun k => ?_, fun g' k f hk hf => ?_⟩
  · dsimp only
    split_ifs
    · rw [length_set, h.length]
    · exact h.length
  · rw [h.mem_keys]
    constructor
    · rintro ⟨x, hx, rfl⟩
      exact ⟨x, mem_append_left _ hx, rfl⟩
    · rintro ⟨x, hx, rfl⟩
      obtain hx | hx := mem_append.mp hx
      · exact ⟨x, hx, rfl⟩
      · rw [mem_singleton.mp hx, ← h.mem_keys]
        exact hkey ▸ getElem_mem hlt
  · by_cases hgg : g' = g
    · subst hgg
      obtain rfl : k = r.key := some.inj (hk.symm.trans hg)
      obtain ⟨⟨x, hx, hxkey, hxrow⟩, hleast⟩ := h.first g' r.key _ hg hget
      dsimp only at hf
      split_ifs at hf with hless
      · rw [getElem?_set_self (h.length ▸ hlt)] at hf
        cases hf
        refine ⟨⟨r, by simp, rfl, rfl⟩, fun y hy hykey => ?_⟩
        obtain hy | hy := mem_append.mp hy
        · exact hless.le.trans (hleast y hy hykey)
        · rw [mem_singleton.mp hy]
      · rw [hget] at hf
        cases hf
        refine ⟨⟨x, mem_append_left _ hx, hxkey, hxrow⟩, fun y hy hykey => ?_⟩
        obtain hy | hy := mem_append.mp hy
        · exact hleast y hy hykey
        · rw [mem_singleton.mp hy]
          exact not_lt.mp hless
    · have hother : part.firstRow[g']? = some f := by
        dsimp only at hf
        split_ifs at hf
        · rwa [getElem?_set_ne (Ne.symm hgg)] at hf
        · exact hf
      obtain ⟨⟨x, hx, hxkey, hxrow⟩, hleast⟩ := h.first g' k f hk hother
      refine ⟨⟨x, mem_append_left _ hx, hxkey, hxrow⟩, fun y hy hykey => ?_⟩
      obtain hy | hy := mem_append.mp hy
      · exact hleast y hy hykey
      · -- a group has one key, so that another one has not the key of the record
        rw [mem_singleton.mp hy] at hykey
        exact absurd ((getElem?_inj hlt h.nodup).mp (hg.trans (hk.trans (congrArg some hykey.symm)).symm)).symm hgg

lemma Groups.append_new {part : Part} (h : Groups recs part) {r : Record} (hr : r.key ∉ part.keys) :
    Groups (recs ++ [r]) ⟨part.firstRow ++ [r.row], part.keys ++ [r.key]⟩ := by
  refine ⟨?_, ?_, fun k => ?_, fun g k f hk hf => ?_⟩
  · exact nodup_append.mpr ⟨h.nodup, nodup_singleton _, fun a ha b hb hab => hr (mem_singleton.mp hb ▸ hab ▸ ha)⟩
  · rw [length_append, length_append, h.length]
    rfl
  · rw [mem_append, mem_singleton, h.mem_keys]
    constructor
    · rintro (⟨x, hx, rfl⟩ | rfl)
      · exact ⟨x, mem_append_left _ hx, rfl⟩
      · exact ⟨r, by simp, rfl⟩
    · rintro ⟨x, hx, rfl⟩
      obtain hx | hx := mem_append.mp hx
      · exact Or.inl ⟨x, hx, rfl⟩
      · exact Or.inr (mem_singleton.mp hx ▸ rfl)
  · dsimp only at hk hf
    by_cases hg : g < part.keys.length
    · rw [getElem?_append_left hg] at hk
      rw [getElem?_append_left (h.length ▸ hg)] at hf
      obtain ⟨⟨x, hx, hxkey, hxrow⟩, hleast⟩ := h.first g k f hk hf
      refine ⟨⟨x, mem_append_left _ hx, hxkey, hxrow⟩, fun y hy hykey => ?_⟩
      obtain hy | hy := mem_append.mp hy
      · exact hleast y hy hykey
      · rw [mem_singleton.mp hy] at hykey
        exact absurd (hykey ▸ mem_of_getElem? hk) hr
    · have hlen := (List.getElem?_eq_some_iff.mp hk).1
      rw [length_append, length_singleton] at hlen
      obtain rfl : g = part.keys.length := by omega
      rw [getElem?_concat_length] at hk
      rw [← h.length, getElem?_concat_length] at hf
      cases hk
      cases hf
      refine ⟨⟨r, by simp, rfl, rfl⟩, fun y hy hykey => ?_⟩
      obtain hy | hy := mem_append.mp hy
      · exact absurd ((h.mem_keys r.key).mpr ⟨y, hy, hykey⟩) hr
      · rw [mem_singleton.mp hy]

def Crowded (recs : List Record) : Prop :=
  ∃ ks : List Key, ks.Nodup ∧ 2 ^ 31 < ks.length ∧ ∀ k ∈ ks, ∃ r ∈ recs, r.key = k

lemma Grouping.step (h : Grouping cap recs s) (hroom : recs.length < cap) (r : Record) :
    (∃ s', groupStep s r = some s' ∧ Grouping cap (recs ++ [r]) s') ∨ groupStep s r = none ∧
      Crowded (recs ++ [r]) := by
  obtain ⟨found, hfound, hmiss, hhit⟩ := h.lookup_key hroom r.key
  rw [groupStep]
  dsimp only
  rw [hfound, bind_some]
  have hbound : (recs ++ [r]).length = recs.length + 1 := by rw [length_append, length_singleton]
  cases found with
  | some e =>
    exact Or.inl ⟨_, rfl, h.toGroups.append_known (hhit e rfl), h.cells_length, h.chained, h.mem_cells,
      h.cells_occupied, h.bound.trans (by omega), h.small⟩
  | none =>
    have hnew := hmiss rfl
    dsimp only
    by_cases hmany : 2 ^ 31 ≤ s.part.keys.length
    · refine Or.inr ⟨if_pos hmany, s.part.keys ++ [r.key], (h.toGroups.append_new hnew).nodup, ?_, fun k hk => ?_⟩
      · rw [length_append, length_singleton]
        omega
      · exact ((h.toGroups.append_new hnew).mem_keys k).mp hk
    · have hfree : occupied s.cells < s.cells.length := by
        rw [h.cells_occupied, h.cells_length]
        exact h.bound.trans_lt hroom
      obtain ⟨cells, hcells⟩ := isSome_iff_exists.mp
        (place_isSome (hashKeys r.key).toNat (hashKeys r.key >>> 56, s.part.keys.length) hfree)
      have hlast : home (s.part.keys ++ [r.key]) (hashKeys r.key >>> 56, s.part.keys.length) =
          (hashKeys r.key).toNat := by
        rw [home, getD_append_right _ _ _ _ le_rfl, Nat.sub_self]
        rfl
      have hchained : Chained (home (s.part.keys ++ [r.key])) s.cells := by
        intro slot e he
        obtain ⟨k, hk, -⟩ := (h.mem_cells e).mp (mem_of_cellAt he)
        rw [home_append (List.getElem?_eq_some_iff.mp hk).1]
        exact h.chained slot e he
      rw [if_neg hmany, hcells, map_some]
      refine Or.inl ⟨_, rfl, h.toGroups.append_new hnew, (place_length hcells).trans h.cells_length, ?_, fun e =>
        ?_, ?_, ?_, ?_⟩
      · exact place_chained hchained (hlast.symm ▸ hcells)
      · rw [place_mem hcells, h.mem_cells]
        constructor
        · rintro (rfl | ⟨k, hk, he⟩)
          · exact ⟨r.key, getElem?_concat_length, rfl⟩
          · exact ⟨k, (getElem?_append_left (List.getElem?_eq_some_iff.mp hk).1).trans hk, he⟩
        · rintro ⟨k, hk, he⟩
          by_cases hlt : e.2 < s.part.keys.length
          · exact Or.inr ⟨k, (getElem?_append_left hlt).symm.trans hk, he⟩
          · have hlen := (List.getElem?_eq_some_iff.mp hk).1
            rw [length_append, length_singleton] at hlen
            have hat : e.2 = s.part.keys.length := by omega
            dsimp only at hk
            rw [hat, getElem?_concat_length] at hk
            cases hk
            exact Or.inl (Prod.ext he hat)
      · rw [place_occupied hcells, h.cells_occupied, length_append, length_singleton]
      · rw [hbound, length_append, length_singleton]
        exact Nat.add_le_add_right h.bound 1
      · rw [length_append, length_singleton]
        omega

lemma Crowded.append (h : Crowded recs) (rest : List Record) : Crowded (recs ++ rest) := by
  obtain ⟨ks, hnodup, hlen, hks⟩ := h
  refine ⟨ks, hnodup, hlen, fun k hk => ?_⟩
  obtain ⟨r, hr, hkey⟩ := hks k hk
  exact ⟨r, mem_append_left _ hr, hkey⟩

lemma Grouping.run (h : Grouping cap recs s) (hroom : recs.length + rest.length ≤ cap) :
    (∃ s', rest.foldlM groupStep s = some s' ∧ Grouping cap (recs ++ rest) s') ∨ rest.foldlM groupStep s = none ∧
      Crowded (recs ++ rest) := by
  induction rest generalizing recs s with
  | nil => exact Or.inl ⟨s, rfl, (append_nil recs).symm ▸ h⟩
  | cons r rest ih =>
    have hsplit : recs ++ r :: rest = recs ++ [r] ++ rest := by rw [append_assoc, singleton_append]
    rw [length_cons] at hroom
    rw [foldlM_cons, hsplit]
    obtain ⟨s', hs', h'⟩ | ⟨hnone, hcrowd⟩ := h.step (by omega) r
    · rw [hs']
      exact ih h' (by rw [length_append, length_singleton]; omega)
    · rw [hnone]
      exact Or.inr ⟨rfl, hcrowd.append rest⟩

lemma Groups.length_le {part : Part} (h : Groups recs part) (hsmall : part.keys.length ≤ 2 ^ 31) :
    ¬ Crowded recs := by
  rintro ⟨ks, hnodup, hlen, hks⟩
  have hsub : ks.Subperm part.keys := hnodup.subperm fun k hk => (h.mem_keys k).mpr (hks k hk)
  have hle := hsub.length_le
  omega

lemma aggRadixGroup_spec (recs : List Record) :
    (∃ part, aggRadixGroup recs = some part ∧ Groups recs part ∧ part.keys.length ≤ 2 ^ 31) ∧ ¬ Crowded recs ∨
      aggRadixGroup recs = none ∧ Crowded recs := by
  rw [aggRadixGroup]
  by_cases hlen : recs.length = 0
  · obtain rfl := length_eq_zero_iff.mp hlen
    have hempty : Groups [] ⟨[], []⟩ := ⟨nodup_nil, rfl, by simp, fun g k f hk => by simp at hk⟩
    exact Or.inl ⟨⟨_, if_pos hlen, hempty, Nat.zero_le _⟩, hempty.length_le (Nat.zero_le _)⟩
  · have hstart : Grouping (htCap recs.length) [] ⟨replicate (htCap recs.length) none, [], []⟩ := by
      refine ⟨⟨nodup_nil, rfl, by simp, fun g k f hk => by simp at hk⟩, length_replicate,
        chained_replicate _, fun e => ?_, occupied_replicate _, Nat.zero_le _, Nat.zero_le _⟩
      simp [mem_replicate]
    have hcap := htCap_ge recs.length
    rw [if_neg hlen]
    obtain ⟨s, hs, h⟩ | ⟨hnone, hcrowd⟩ :=
      @Grouping.run [] recs _ (htCap recs.length) hstart (by rw [length_nil]; omega)
    · rw [hs, map_some]
      exact Or.inl ⟨⟨_, rfl, h.toGroups, h.small⟩, h.toGroups.length_le h.small⟩
    · rw [hnone]
      exact Or.inr ⟨rfl, hcrowd⟩

end

section

variable {c : Input} {nParts nw : ℕ} {bufs : Bufs} {b : PayBuf} {tasks : List Task} {events : List (ℕ × ℕ × ℕ)}

def Input.rowAt (c : Input) (i : ℕ) : ℕ := (c.sel.map fun rows => rows.getD i 0).getD i

def Input.keyAt (c : Input) (i : ℕ) : Key := c.key (c.rowAt i)

structure Covers (tasks : List Task) (nw n : ℕ) : Prop where
  wid_lt : ∀ t ∈ tasks, t.wid < nw
  perm : (tasks.flatMap fun t => List.range' t.start (t.stop - t.start)).Perm (List.range n)

def workerRows (tasks : List Task) (w : ℕ) : List ℕ :=
  (tasks.filter fun t => t.wid = w).flatMap fun t => List.range' t.start (t.stop - t.start)

def Overflows (c : Input) (nParts : ℕ) (tasks : List Task) : Prop :=
  ∃ w p, 2 ^ 31 < (workerRows tasks w).countP fun i => partOf nParts (c.keyAt i) = p

def PayBuf.Sized (b : PayBuf) : Prop := b.recs.length ≤ b.cap ∧ (b.cap = 0 ∨ ∃ k ≤ 31, b.cap = 2 ^ k)

lemma PayBuf.Sized.cap_le (h : b.Sized) : b.cap ≤ 2 ^ 31 := by
  obtain ⟨-, hzero | ⟨k, hk, hcap⟩⟩ := h
  · omega
  · exact hcap ▸ Nat.pow_le_pow_right two_pos hk

lemma PayBuf.Sized.reserve (h : b.Sized) :
    (∃ b', aggPayReserve b = some b' ∧ ∀ r, ({ b' with recs := b'.recs ++ [r] } : PayBuf).Sized ∧
      b'.recs = b.recs) ∨
      aggPayReserve b = none ∧ 2 ^ 31 ≤ b.recs.length := by
  obtain ⟨hle, hcap⟩ := h
  rw [aggPayReserve]
  by_cases hfull : b.recs.length = b.cap
  · rw [if_pos hfull]
    by_cases hlarge : (2 ^ 32 - 1) / 2 < b.cap
    · exact Or.inr ⟨if_pos hlarge, by omega⟩
    · rw [if_neg hlarge]
      refine Or.inl ⟨_, rfl, fun r => ⟨⟨?_, Or.inr ?_⟩, rfl⟩⟩
      · rw [length_append, length_singleton]
        dsimp only
        split_ifs <;> omega
      · dsimp only
        obtain hzero | ⟨k, hk, hpow⟩ := hcap
        · exact ⟨0, by omega, by rw [if_pos hzero, pow_zero]⟩
        · have hlt : k < 31 := by
            by_contra hge
            have hmono : 2 ^ 31 ≤ 2 ^ k := Nat.pow_le_pow_right two_pos (not_lt.mp hge)
            omega
          exact ⟨k + 1, hlt, by rw [if_neg (by rw [hpow]; positivity), hpow, pow_succ]⟩
  · rw [if_neg hfull]
    refine Or.inl ⟨b, rfl, fun r => ⟨⟨?_, hcap⟩, rfl⟩⟩
    rw [length_append, length_singleton]
    dsimp only
    omega

def scatterEvent (c : Input) (nParts : ℕ) (bufs : Bufs) (e : ℕ × ℕ × ℕ) : Option Bufs :=
  aggRadixScatterOne c nParts e.1 bufs e.2

def eventsOf (c : Input) (nParts : ℕ) (events : List (ℕ × ℕ × ℕ)) (w p : ℕ) : List (ℕ × ℕ × ℕ) :=
  events.filter fun e => e.1 = w ∧ partOf nParts (c.key e.2.1) = p

def Filled (c : Input) (nParts : ℕ) (events : List (ℕ × ℕ × ℕ)) (bufs : Bufs) : Prop :=
  ∀ w p, (bufs w p).Sized ∧ (bufs w p).recs = (eventsOf c nParts events w p).map fun e => ⟨c.key e.2.1, e.2.2⟩

lemma Filled.step (h : Filled c nParts events bufs) (e : ℕ × ℕ × ℕ) :
    (∃ bufs', scatterEvent c nParts bufs e = some bufs' ∧ Filled c nParts (events ++ [e]) bufs') ∨
      scatterEvent c nParts bufs e = none ∧ ∃ w p, 2 ^ 31 < (eventsOf c nParts (events ++ [e]) w p).length := by
  obtain ⟨w, row, order⟩ := e
  obtain ⟨hsized, hrecs⟩ := h w (partOf nParts (c.key row))
  have hsame : eventsOf c nParts (events ++ [(w, row, order)]) w (partOf nParts (c.key row)) =
      eventsOf c nParts events w (partOf nParts (c.key row)) ++ [(w, row, order)] := by
    rw [eventsOf, filter_append, filter_singleton, decide_eq_true ⟨rfl, rfl⟩]
    rfl
  have hother : ∀ w' p', ¬ (w' = w ∧ p' = partOf nParts (c.key row)) →
      eventsOf c nParts (events ++ [(w, row, order)]) w' p' = eventsOf c nParts events w' p' := by
    intro w' p' hne
    rw [eventsOf, filter_append, filter_singleton, decide_eq_false fun hx => hne ⟨hx.1.symm, hx.2.symm⟩]
    exact append_nil _
  rw [scatterEvent, aggRadixScatterOne]
  obtain ⟨b', hb', hnext⟩ | ⟨hnone, hlen⟩ := hsized.reserve
  · dsimp only
    rw [hb', map_some]
    refine Or.inl ⟨_, rfl, fun w' p' => ?_⟩
    by_cases hw : w' = w
    · subst hw
      by_cases hp : p' = partOf nParts (c.key row)
      · subst hp
        rw [update_self, update_self, hsame, map_append, ← hrecs]
        exact ⟨(hnext _).1, by rw [(hnext ⟨[], 0⟩).2]; rfl⟩
      · rw [update_self, update_of_ne hp, hother w' p' fun hx => hp hx.2]
        exact h w' p'
    · rw [update_of_ne hw, hother w' p' fun hx => hw hx.1]
      exact h w' p'
  · refine Or.inr ⟨by rw [hnone]; rfl, w, partOf nParts (c.key row), ?_⟩
    rw [hrecs, length_map] at hlen
    rw [hsame, length_append, length_singleton]
    omega

lemma eventsOf_append_length (events rest : List (ℕ × ℕ × ℕ)) (w p : ℕ) :
    (eventsOf c nParts events w p).length ≤ (eventsOf c nParts (events ++ rest) w p).length := by
  rw [eventsOf, eventsOf, filter_append, length_append]
  omega

lemma Filled.run {rest : List (ℕ × ℕ × ℕ)} (h : Filled c nParts events bufs) :
    (∃ bufs', rest.foldlM (scatterEvent c nParts) bufs = some bufs' ∧ Filled c nParts (events ++ rest) bufs') ∨
      rest.foldlM (scatterEvent c nParts) bufs = none ∧ ∃ w p,
        2 ^ 31 < (eventsOf c nParts (events ++ rest) w p).length := by
  induction rest generalizing events bufs with
  | nil => exact Or.inl ⟨bufs, rfl, (append_nil events).symm ▸ h⟩
  | cons e rest ih =>
    have hsplit : events ++ e :: rest = events ++ [e] ++ rest := by rw [append_assoc, singleton_append]
    rw [foldlM_cons, hsplit]
    obtain ⟨bufs', hb, h'⟩ | ⟨hnone, w, p, hover⟩ := h.step e
    · rw [hb]
      exact ih h'
    · rw [hnone]
      exact Or.inr ⟨rfl, w, p, hover.trans_le (eventsOf_append_length _ _ _ _)⟩

lemma Filled.length_le (h : Filled c nParts events bufs) (w p : ℕ) :
    (eventsOf c nParts events w p).length ≤ 2 ^ 31 := by
  obtain ⟨hsized, hrecs⟩ := h w p
  have hlen := congrArg length hrecs
  rw [length_map] at hlen
  exact hlen ▸ hsized.1.trans hsized.cap_le

def taskEvents (c : Input) (tasks : List Task) : List (ℕ × ℕ × ℕ) :=
  tasks.flatMap fun t => (rangeRows c t.start t.stop).map fun x => (t.wid, x)

lemma scatter_events (bufs : Bufs) (tasks : List Task) :
    tasks.foldlM (aggRadixScatterRange c nParts) bufs =
    (taskEvents c tasks).foldlM (scatterEvent c nParts) bufs := by
  induction tasks generalizing bufs with
  | nil => rfl
  | cons t tasks ih =>
    rw [taskEvents, flatMap_cons, foldlM_append, foldlM_map, foldlM_cons]
    exact congrArg _ (funext ih)

lemma rangeRows_eq {start stop : ℕ} (h : start < stop → stop ≤ c.count) :
    rangeRows c start stop = (List.range' start (stop - start)).map fun i => (c.rowAt i, i) := by
  cases hsel : c.sel with
  | none =>
    have hrow : ∀ i, c.rowAt i = i := fun i => by
      rw [Input.rowAt, hsel]
      rfl
    rw [rangeRows, hsel]
    dsimp only
    exact map_congr_left fun i _ => by rw [hrow]
  | some rows =>
    have hcount : c.count = rows.length := by
      rw [Input.count, hsel]
      rfl
    have hrow : ∀ i, c.rowAt i = rows.getD i 0 := fun i => by
      rw [Input.rowAt, hsel]
      rfl
    rw [hcount] at h
    rw [rangeRows, hsel]
    dsimp only
    apply ext_getElem
    · rw [length_zipIdx, length_take, length_drop, length_map, length_range']
      omega
    · intro i hi hi'
      rw [length_map, length_range'] at hi'
      have hlt : start + i < rows.length := by omega
      rw [getElem_zipIdx, getElem_map, getElem_range', one_mul, getElem_take, getElem_drop, hrow,
        getD_eq_getElem _ _ hlt]

lemma Covers.inside {n : ℕ} (h : Covers tasks nw n) {t : Task} (ht : t ∈ tasks) (hlt : t.start < t.stop) :
    t.stop ≤ n := by
  have hlast : t.stop - 1 ∈ tasks.flatMap fun t => range' t.start (t.stop - t.start) :=
    mem_flatMap.mpr ⟨t, ht, mem_range'_1.mpr (by omega)⟩
  have hin := mem_range.mp (h.perm.mem_iff.mp hlast)
  omega

lemma workerRows_cons (t : Task) (tasks : List Task) (w : ℕ) : workerRows (t :: tasks) w =
    if t.wid = w then List.range' t.start (t.stop - t.start) ++ workerRows tasks w else workerRows tasks w := by
  rw [workerRows, filter_cons]
  by_cases hw : t.wid = w
  · rw [if_pos (decide_eq_true hw), if_pos hw, flatMap_cons]
    rfl
  · rw [if_neg (by simpa using hw), if_neg hw]
    rfl

lemma eventsOf_tasks (h : ∀ t ∈ tasks, t.start < t.stop → t.stop ≤ c.count) (w p : ℕ) :
    eventsOf c nParts (taskEvents c tasks) w p =
      ((workerRows tasks w).filter fun i => partOf nParts (c.keyAt i) = p).map fun i => (w, c.rowAt i, i) := by
  induction tasks with
  | nil => rfl
  | cons t tasks ih =>
    obtain ⟨ht, htasks⟩ := forall_mem_cons.mp h
    have hrest := ih htasks
    rw [eventsOf, taskEvents] at hrest
    rw [eventsOf, taskEvents, flatMap_cons, filter_append, hrest, rangeRows_eq ht, List.map_map, List.filter_map,
      workerRows_cons]
    by_cases hw : t.wid = w
    · subst hw
      rw [if_pos rfl, filter_append, map_append]
      congr 2
      apply filter_congr
      intro i _
      exact decide_eq_decide.mpr ⟨fun hx => hx.2, fun hx => ⟨rfl, hx⟩⟩
    · rw [if_neg hw, filter_eq_nil_iff.mpr, map_nil, nil_append]
      · intro i _ hx
        exact hw (of_decide_eq_true hx).1

lemma scatter_spec (hcov : Covers tasks nw c.count) :
    (∃ bufs, scatter c nParts tasks = some bufs ∧ ¬ Overflows c nParts tasks ∧
      ∀ w p, (bufs w p).recs = ((workerRows tasks w).filter fun i => partOf nParts (c.keyAt i) = p).map fun i =>
        ⟨c.keyAt i, i⟩) ∨
      scatter c nParts tasks = none ∧ Overflows c nParts tasks := by
  have hevents := @eventsOf_tasks c nParts tasks fun t ht => hcov.inside ht
  have hlen : ∀ w p, (eventsOf c nParts (taskEvents c tasks) w p).length =
      (workerRows tasks w).countP fun i => partOf nParts (c.keyAt i) = p := fun w p => by
    rw [hevents, length_map, countP_eq_length_filter]
  have hempty : Filled c nParts [] fun _ _ => ⟨[], 0⟩ := fun w p => ⟨⟨le_rfl, Or.inl rfl⟩, rfl⟩
  rw [scatter, scatter_events]
  obtain ⟨bufs, hbufs, hfilled⟩ | ⟨hnone, w, p, hover⟩ := @Filled.run c nParts _ [] (taskEvents c tasks) hempty
  · rw [nil_append] at hfilled
    refine Or.inl ⟨bufs, hbufs, ?_, fun w p => ?_⟩
    · rintro ⟨w, p, hover⟩
      exact absurd (hfilled.length_le w p) (by rw [hlen]; omega)
    · rw [(hfilled w p).2, hevents, List.map_map]
      rfl
  · exact Or.inr ⟨hnone, w, p, by rwa [nil_append, hlen] at hover⟩

lemma Covers.mem {n i : ℕ} (h : Covers tasks nw n) : i < n ↔ ∃ w < nw, i ∈ workerRows tasks w := by
  rw [← mem_range, ← h.perm.mem_iff, mem_flatMap]
  constructor
  · rintro ⟨t, ht, hi⟩
    exact ⟨t.wid, h.wid_lt t ht, mem_flatMap.mpr ⟨t, mem_filter.mpr ⟨ht, decide_eq_true rfl⟩, hi⟩⟩
  · rintro ⟨w, -, hi⟩
    obtain ⟨t, ht, hi⟩ := mem_flatMap.mp hi
    exact ⟨t, mem_of_mem_filter ht, hi⟩

lemma mem_partRecs (hcov : Covers tasks nw c.count)
    (hbufs : ∀ w p, (bufs w p).recs =
      ((workerRows tasks w).filter fun i => partOf nParts (c.keyAt i) = p).map fun i => ⟨c.keyAt i, i⟩)
    (p : ℕ) (r : Record) : r ∈ partRecs nw bufs p ↔ ∃ i < c.count, partOf nParts (c.keyAt i) = p ∧
      r = ⟨c.keyAt i, i⟩ := by
  rw [partRecs, mem_flatMap]
  constructor
  · rintro ⟨w, hw, hr⟩
    rw [hbufs] at hr
    obtain ⟨i, hi, rfl⟩ := mem_map.mp hr
    obtain ⟨hrow, hp⟩ := mem_filter.mp hi
    exact ⟨i, hcov.mem.mpr ⟨w, mem_range.mp hw, hrow⟩, of_decide_eq_true hp, rfl⟩
  · rintro ⟨i, hi, hp, rfl⟩
    obtain ⟨w, hw, hrow⟩ := hcov.mem.mp hi
    refine ⟨w, mem_range.mpr hw, ?_⟩
    rw [hbufs]
    exact mem_map.mpr ⟨i, mem_filter.mpr ⟨hrow, decide_eq_true hp⟩, rfl⟩

end

section

variable {pairs : List ℤ} {n : ℕ} {parts : List Part}

def pairOf (x : ℕ × ℕ × ℕ) : ℤ := x.1 * 2 ^ 32 + x.2.1

lemma pairOf_ne (x : ℕ × ℕ × ℕ) : pairOf x ≠ -1 := by
  rw [pairOf]
  omega

lemma place_all {L : List (ℕ × ℕ × ℕ)} (hnodup : (L.map fun x => x.2.2).Nodup) (hlt : ∀ x ∈ L, x.2.2 < n)
    (hlen : pairs.length = n) (hfree : ∀ x ∈ L, pairs.getD x.2.2 (-1) = -1) :
    ∃ pairs', L.foldlM (placeFirst n) pairs = some pairs' ∧ pairs'.length = n ∧
    (∀ x ∈ L, pairs'.getD x.2.2 (-1) = pairOf x) ∧
      ∀ i, i ∉ L.map (fun x => x.2.2) → pairs'.getD i (-1) = pairs.getD i (-1) := by
  induction L generalizing pairs with
  | nil => exact ⟨pairs, rfl, hlen, fun x hx => absurd hx not_mem_nil, fun _ _ => rfl⟩
  | cons x L ih =>
    rw [map_cons, nodup_cons] at hnodup
    obtain ⟨hx, hL⟩ := forall_mem_cons.mp hlt
    obtain ⟨hxfree, hLfree⟩ := forall_mem_cons.mp hfree
    have hne : ∀ y ∈ L, y.2.2 ≠ x.2.2 := fun y hy he => hnodup.1 (mem_map.mpr ⟨y, hy, he⟩)
    have hset : ∀ i, i ≠ x.2.2 → (pairs.set x.2.2 (pairOf x)).getD i (-1) = pairs.getD i (-1) := fun i hi => by
      rw [getD_eq_getElem?_getD, getElem?_set_ne (Ne.symm hi), ← getD_eq_getElem?_getD]
    have hstep : placeFirst n pairs x = some (pairs.set x.2.2 (pairOf x)) :=
      if_neg (not_or.mpr ⟨not_le.mpr hx, not_not.mpr hxfree⟩)
    obtain ⟨pairs', hfold, hlen', hin, hout⟩ :=
      ih hnodup.2 hL (length_set.trans hlen) fun y hy => (hset _ (hne y hy)).trans (hLfree y hy)
    rw [foldlM_cons, hstep]
    refine ⟨pairs', hfold, hlen', fun y hy => ?_, fun i hi => ?_⟩
    · obtain rfl | hy := mem_cons.mp hy
      · rw [hout _ hnodup.1, getD_eq_getElem?_getD, getElem?_set_self (by omega), getD_some]
      · exact hin y hy
    · rw [map_cons, mem_cons, not_or] at hi
      rw [hout i hi.2, hset i hi.1]

lemma compact_prefix (pairs : List ℤ) {m : ℕ} (hm : m ≤ pairs.length) :
    ((List.range m).foldl compactStep (pairs, 0)).2 = ((pairs.take m).filter fun x => x ≠ -1).length ∧
    ((List.range m).foldl compactStep (pairs, 0)).1.take ((List.range m).foldl compactStep (pairs, 0)).2 =
    (pairs.take m).filter (fun x => x ≠ -1) ∧
      ((List.range m).foldl compactStep (pairs, 0)).1.length = pairs.length ∧
      ((List.range m).foldl compactStep (pairs, 0)).1.drop m = pairs.drop m := by
  induction m with
  | zero => exact ⟨rfl, rfl, rfl, rfl⟩
  | succ m ih =>
    obtain ⟨hk, htake, hlen, hdrop⟩ := ih (by omega)
    rw [range_succ, foldl_append, foldl_cons, foldl_nil]
    generalize (range m).foldl compactStep (pairs, 0) = s at hk htake hlen hdrop ⊢
    obtain ⟨arr, k⟩ := s
    dsimp only at hk htake hlen hdrop
    have hlt : m < pairs.length := hm
    have hnext : arr.getD m (-1) = pairs[m] := by
      rw [getD_eq_getElem?_getD, getElem?_eq_getElem (hlen.symm ▸ hlt), getD_some]
      have hhead := congrArg head? hdrop
      rw [head?_drop, head?_drop, getElem?_eq_getElem hlt, getElem?_eq_getElem (hlen.symm ▸ hlt)] at hhead
      exact some.inj hhead
    have hkm : k ≤ m := by
      have hfilter := length_filter_le (fun x : ℤ => decide (x ≠ -1)) (pairs.take m)
      rw [length_take] at hfilter
      omega
    have htail : ∀ arr' : List ℤ, arr'.drop m = pairs.drop m → arr'.drop (m + 1) = pairs.drop (m + 1) :=
        fun arr' h => by
      rw [← drop_drop, h, drop_drop]
    rw [compactStep, take_succ_eq_append_getElem hlt, filter_append, filter_singleton, hnext]
    by_cases hval : pairs[m] ≠ -1
    · rw [if_pos hval, decide_eq_true hval, cond_true, length_append, ← hk]
      dsimp only
      refine ⟨rfl, ?_, length_set.trans hlen, ?_⟩
      · have hkarr : k < (arr.set k pairs[m]).length := by
          rw [length_set]
          omega
        rw [take_succ_eq_append_getElem hkarr, getElem_set_self, take_set_of_le le_rfl, htake]
      · rw [drop_set_of_lt (by omega)]
        exact htail arr hdrop
    · rw [if_neg hval, decide_eq_false hval, cond_false, append_nil]
      exact ⟨hk, htake, hlen, htail arr hdrop⟩

lemma mem_placements (parts : List Part) (x : ℕ × ℕ × ℕ) :
    x ∈ placements parts ↔ ∃ part, parts[x.1]? = some part ∧ part.firstRow[x.2.1]? = some x.2.2 := by
  rw [placements, mem_flatMap]
  constructor
  · rintro ⟨⟨part, p⟩, hpart, hx⟩
    obtain ⟨⟨f, g⟩, hf, rfl⟩ := mem_map.mp hx
    exact ⟨part, mem_zipIdx_iff_getElem?.mp hpart, mem_zipIdx_iff_getElem?.mp hf⟩
  · rintro ⟨part, hpart, hf⟩
    exact ⟨(part, x.1), mem_zipIdx_iff_getElem?.mpr hpart,
      mem_map.mpr ⟨(x.2.2, x.2.1), mem_zipIdx_iff_getElem?.mpr hf, rfl⟩⟩

lemma nodup_zipIdx {α : Type} (l : List α) (k : ℕ) : (l.zipIdx k).Nodup := by
  apply List.Nodup.of_map Prod.snd
  rw [zipIdx_map_snd]
  exact nodup_range'

lemma placements_nodup (parts : List Part) : (placements parts).Nodup := by
  rw [placements, nodup_flatMap]
  constructor
  · intro x _
    refine (nodup_zipIdx _ 0).map fun a b hab => ?_
    obtain ⟨-, hg, hf⟩ := Prod.ext_iff.mp hab |>.imp_right Prod.ext_iff.mp
    exact Prod.ext hf hg
  · have hpairs : (parts.zipIdx.map Prod.snd).Nodup := by
      rw [zipIdx_map_snd]
      exact nodup_range'
    rw [List.Nodup, pairwise_map] at hpairs
    refine hpairs.imp fun hne => disjoint_left.mpr fun y hy hy' => ?_
    obtain ⟨_, -, rfl⟩ := mem_map.mp hy
    obtain ⟨_, -, heq⟩ := mem_map.mp hy'
    exact hne (congrArg Prod.fst heq).symm

lemma placements_length (parts : List Part) :
    (placements parts).length = (parts.map fun part => part.firstRow.length).sum := by
  rw [placements, length_flatMap]
  congr 1
  have hmap : parts.zipIdx.map (fun x => (x.1.firstRow.zipIdx.map fun y => (x.2, y.2, y.1)).length) =
      (parts.zipIdx.map Prod.fst).map fun part => part.firstRow.length := by
    rw [List.map_map]
    apply map_congr_left
    intro x _
    rw [length_map, length_zipIdx]
    rfl
  rw [hmap, zipIdx_map_fst]

lemma orderGroups_spec (hlen : ∀ part ∈ parts, part.firstRow.length = part.keys.length)
    (hnodup : ((placements parts).map fun x => x.2.2).Nodup) (hlt : ∀ x ∈ placements parts, x.2.2 < n) :
    ∃ pairs : List ℤ, orderGroups parts n =
        some (((List.range n).filter fun i => i ∈ (placements parts).map fun x => x.2.2).map fun i =>
          pairs.getD i (-1)) ∧
      ∀ x ∈ placements parts, pairs.getD x.2.2 (-1) = pairOf x := by
  obtain ⟨pairs, hplace, hsize, hin, hout⟩ :=
    @place_all (List.replicate n (-1)) n (placements parts) hnodup hlt length_replicate
    fun x hx => by rw [getD_eq_getElem?_getD, getElem?_replicate_of_lt (hlt x hx), getD_some]
  have hfilter : pairs.filter (fun x => x ≠ -1) =
      ((List.range n).filter fun i => i ∈ (placements parts).map fun x => x.2.2).map fun i =>
        pairs.getD i (-1) := by
    have hpairs : pairs = (List.range n).map fun i => pairs.getD i (-1) := by
      apply ext_getElem
      · rw [length_map, length_range, hsize]
      · intro i hi _
        rw [getElem_map, getElem_range, getD_eq_getElem _ _ hi]
    conv_lhs => rw [hpairs]
    rw [List.filter_map]
    congr 1
    apply filter_congr
    intro i hi
    apply decide_eq_decide.mpr
    by_cases hmem : i ∈ (placements parts).map fun x => x.2.2
    · obtain ⟨x, hx, rfl⟩ := mem_map.mp hmem
      exact ⟨fun _ => hmem, fun _ => (hin x hx).trans_ne (pairOf_ne x)⟩
    · refine ⟨fun hval => absurd ?_ hval, fun h => absurd h hmem⟩
      dsimp only
      rw [hout i hmem, getD_eq_getElem?_getD, getElem?_replicate_of_lt (mem_range.mp hi), getD_some]
  have hcount : ((List.range n).filter fun i => i ∈ (placements parts).map fun x => x.2.2).length =
      (parts.map fun part => part.keys.length).sum := by
    have hperm : ((List.range n).filter fun i => i ∈ (placements parts).map fun x => x.2.2).Perm
        ((placements parts).map fun x => x.2.2) := by
      rw [perm_ext_iff_of_nodup (nodup_range.filter _) hnodup]
      intro i
      rw [mem_filter, decide_eq_true_iff]
      refine ⟨fun h => h.2, fun h => ⟨?_, h⟩⟩
      obtain ⟨x, hx, rfl⟩ := mem_map.mp h
      exact mem_range.mpr (hlt x hx)
    rw [hperm.length_eq, length_map, placements_length]
    congr 1
    exact map_congr_left hlen
  obtain ⟨hk, htake, -, -⟩ := compact_prefix pairs hsize.ge
  rw [← hsize, take_length, hsize] at hk htake
  refine ⟨pairs, ?_, hin⟩
  rw [orderGroups, hplace, bind_some]
  dsimp only
  rw [if_pos, htake, hfilter]
  rw [hk, hfilter, length_map, hcount]

lemma emit_pairOf {x : ℕ × ℕ × ℕ} {part : Part} {k : Key} (hpart : parts[x.1]? = some part)
    (hk : part.keys[x.2.1]? = some k)
    (hf : part.firstRow[x.2.1]? = some x.2.2) (hsmall : x.2.1 < 2 ^ 32) : emit parts (pairOf x) = (k, x.2.2) := by
  have hdiv : (pairOf x / 2 ^ 32).toNat = x.1 := by
    rw [pairOf]
    omega
  have hmod : (pairOf x % 2 ^ 32).toNat = x.2.1 := by
    rw [pairOf]
    omega
  have hget : parts.getD x.1 ⟨[], []⟩ = part := by
    rw [getD_eq_getElem?_getD, hpart]
    rfl
  rw [emit, hdiv, hmod, hget, getD_eq_getElem?_getD, hk, getD_eq_getElem?_getD, hf]
  rfl

end

section

variable {c : Input} {nParts nw : ℕ} {bufs : Bufs} {tasks : List Task} {parts : List Part}

def firsts (c : Input) : List ℕ := (List.range c.count).filter fun i => ∀ j < i, c.keyAt j ≠ c.keyAt i

lemma firsts_lt {i : ℕ} (hi : i ∈ firsts c) : i < c.count := mem_range.mp (mem_of_mem_filter hi)

def Ordered (c : Input) (out : Option Outcome) : Prop :=
  out = some .fallback ∨ out = some (.ok ((firsts c).map fun i => (c.keyAt i, i)))

def Numbered (c : Input) (nParts : ℕ) : Prop :=
  (∀ i < c.count, partOf nParts (c.keyAt i) < poolMaxTasks) ∧
    ∀ p, ((firsts c).filter fun i => partOf nParts (c.keyAt i) = p).length ≤ 2 ^ 31

def Parted (recs : ℕ → List Record) (p : ℕ) (part : Part) : Prop :=
  if p < poolMaxTasks then Groups (recs p) part ∧ part.keys.length ≤ 2 ^ 31 else part = ⟨[], []⟩

lemma groupParts_spec (nParts nw : ℕ) (bufs : Bufs) :
    (∃ parts, groupParts nParts nw bufs = some parts ∧ parts.length = nParts ∧
      (∀ p part, parts[p]? = some part → Parted (partRecs nw bufs) p part) ∧
      ∀ p < nParts, p < poolMaxTasks → ¬ Crowded (partRecs nw bufs p)) ∨
      groupParts nParts nw bufs = none ∧ ∃ p < nParts, p < poolMaxTasks ∧ Crowded (partRecs nw bufs p) := by
  by_cases hcrowd : ∃ p < nParts, p < poolMaxTasks ∧ Crowded (partRecs nw bufs p)
  · obtain ⟨p, hp, htaken, hrecs⟩ := hcrowd
    refine Or.inr ⟨mapM_none (mem_range.mpr hp) ?_, p, hp, htaken, hrecs⟩
    rw [if_pos htaken]
    exact ((aggRadixGroup_spec _).resolve_left fun h => h.2 hrecs).1
  · have hfew : ∀ p < nParts, p < poolMaxTasks → ¬ Crowded (partRecs nw bufs p) :=
      fun p hp htaken h => hcrowd ⟨p, hp, htaken, h⟩
    have hgroup : ∀ p < nParts, ∃ part,
      (if p < poolMaxTasks then aggRadixGroup (partRecs nw bufs p) else some ⟨[], []⟩) = some part ∧
        Parted (partRecs nw bufs) p part := by
      intro p hp
      by_cases htaken : p < poolMaxTasks
      · obtain ⟨part, hpart, hgroups⟩ :=
          ((aggRadixGroup_spec (partRecs nw bufs p)).resolve_right fun h => hfew p hp htaken h.2).1
        exact ⟨part, (if_pos htaken).trans hpart, (if_pos htaken).mpr hgroups⟩
      · exact ⟨_, if_neg htaken, (if_neg htaken).mpr rfl⟩
    obtain ⟨parts, hparts, hlen, hcell⟩ :=
      @mapM_range _ (fun p => if p < poolMaxTasks then aggRadixGroup (partRecs nw bufs p) else some ⟨[], []⟩)
      nParts fun p hp => (hgroup p hp).imp fun part h => h.1
    refine Or.inl ⟨parts, hparts, hlen, fun p part hpart => ?_, hfew⟩
    have hp := hlen ▸ (List.getElem?_eq_some_iff.mp hpart).1
    obtain ⟨part', hpart', hspec⟩ := hgroup p hp
    rw [hcell p hp, hpart'] at hpart
    cases hpart
    exact hspec

def Scattered (c : Input) (nParts : ℕ) (recs : ℕ → List Record) : Prop :=
  ∀ p r, r ∈ recs p ↔ ∃ i < c.count, partOf nParts (c.keyAt i) = p ∧ r = ⟨c.keyAt i, i⟩

lemma Parted.placed {recs : ℕ → List Record} (hrecs : Scattered c nParts recs) {p g f : ℕ} {part : Part}
    (h : Parted recs p part) (hf : part.firstRow[g]? = some f) :
    p < poolMaxTasks ∧ Groups (recs p) part ∧ g < 2 ^ 31 ∧ f ∈ firsts c ∧ partOf nParts (c.keyAt f) = p ∧
      part.keys[g]? = some (c.keyAt f) := by
  rw [Parted] at h
  split_ifs at h with htaken
  · obtain ⟨hgroups, hsmall⟩ := h
    have hg : g < part.keys.length := hgroups.length ▸ (List.getElem?_eq_some_iff.mp hf).1
    obtain ⟨⟨r, hr, hkey, hrow⟩, hleast⟩ := hgroups.first g _ f (getElem?_eq_getElem hg) hf
    obtain ⟨i, hi, hp, rfl⟩ := (hrecs p r).mp hr
    dsimp only at hkey hrow
    subst hrow
    refine ⟨htaken, hgroups, by omega,
      mem_filter.mpr ⟨mem_range.mpr hi, decide_eq_true fun j hj hsame => ?_⟩, hp, ?_⟩
    · have hrec : (⟨c.keyAt j, j⟩ : Record) ∈ recs p := (hrecs p _).mpr ⟨j, hj.trans hi, hsame.symm ▸ hp, rfl⟩
      exact absurd (hleast _ hrec (hsame.trans hkey)) (not_le.mpr hj)
    · rw [getElem?_eq_getElem hg, hkey]
  · rw [h] at hf
    simp at hf

lemma orderGroups_parted {recs : ℕ → List Record} (hpos : 0 < nParts) (hrecs : Scattered c nParts recs)
    (hlen : parts.length = nParts)
    (hparts : ∀ p part, parts[p]? = some part → Parted recs p part) :
      ∃ pairs, orderGroups parts c.count = some pairs ∧
      pairs.map (emit parts) = ((firsts c).filter fun i => partOf nParts (c.keyAt i) < poolMaxTasks).map fun i =>
        (c.keyAt i, i) := by
  have hplaced : ∀ x ∈ placements parts, ∃ part, parts[x.1]? = some part ∧ part.firstRow[x.2.1]? = some x.2.2 ∧
      x.1 < poolMaxTasks ∧ Groups (recs x.1) part ∧ x.2.1 < 2 ^ 31 ∧ x.2.2 ∈ firsts c ∧
        partOf nParts (c.keyAt x.2.2) = x.1 ∧ part.keys[x.2.1]? = some (c.keyAt x.2.2) := by
    intro x hx
    obtain ⟨part, hpart, hf⟩ := (mem_placements parts x).mp hx
    exact ⟨part, hpart, hf, (hparts x.1 part hpart).placed hrecs hf⟩
  have hsizes : ∀ part ∈ parts, part.firstRow.length = part.keys.length := by
    intro part hmem
    obtain ⟨p, hp⟩ := mem_iff_getElem?.mp hmem
    have hspec := hparts p part hp
    rw [Parted] at hspec
    split_ifs at hspec
    · exact hspec.1.length
    · rw [hspec]
      rfl
  have hnodup : ((placements parts).map fun x => x.2.2).Nodup := by
    apply List.Nodup.map_on _ (placements_nodup parts)
    intro x hx y hy hxy
    obtain ⟨part, hpart, -, -, hgroups, -, -, hpx, hkx⟩ := hplaced x hx
    obtain ⟨part', hpart', -, -, -, -, -, hpy, hky⟩ := hplaced y hy
    rw [hxy] at hpx hkx
    have hp : x.1 = y.1 := hpx.symm.trans hpy
    obtain rfl : part = part' := some.inj (hpart.symm.trans (hp ▸ hpart'))
    have hg : x.2.1 = y.2.1 :=
      (getElem?_inj (List.getElem?_eq_some_iff.mp hkx).1 hgroups.nodup).mp (hkx.trans hky.symm)
    exact Prod.ext hp (Prod.ext hg hxy)
  obtain ⟨pairs, horder, hpairs⟩ := @orderGroups_spec c.count parts hsizes hnodup fun x hx => by
    obtain ⟨-, -, -, -, -, -, hfirst, -⟩ := hplaced x hx
    exact firsts_lt hfirst
  refine ⟨_, horder, ?_⟩
  have hfilter : ((List.range c.count).filter fun i => i ∈ (placements parts).map fun x => x.2.2) =
      (firsts c).filter fun i => partOf nParts (c.keyAt i) < poolMaxTasks := by
    rw [firsts, List.filter_filter]
    apply filter_congr
    intro i hi
    rw [← Bool.decide_and]
    apply decide_eq_decide.mpr
    constructor
    · intro hmem
      obtain ⟨x, hx, rfl⟩ := mem_map.mp hmem
      obtain ⟨part, -, -, htaken, -, -, hfirst, hp, -⟩ := hplaced x hx
      exact ⟨hp.symm ▸ htaken, of_decide_eq_true (mem_filter.mp hfirst).2⟩
    · rintro ⟨htaken, hfirst⟩
      have hlt : partOf nParts (c.keyAt i) < nParts := Nat.mod_lt _ hpos
      obtain ⟨part, hpart⟩ : ∃ part, parts[partOf nParts (c.keyAt i)]? = some part :=
        ⟨_, getElem?_eq_getElem (hlen.symm ▸ hlt)⟩
      have hspec := hparts _ part hpart
      rw [Parted, if_pos htaken] at hspec
      have hrec : (⟨c.keyAt i, i⟩ : Record) ∈ recs (partOf nParts (c.keyAt i)) :=
        (hrecs _ _).mpr ⟨i, mem_range.mp hi, rfl, rfl⟩
      obtain ⟨g, hg⟩ := mem_iff_getElem?.mp ((hspec.1.mem_keys (c.keyAt i)).mpr ⟨_, hrec, rfl⟩)
      obtain ⟨f, hf⟩ : ∃ f, part.firstRow[g]? = some f :=
        ⟨_, getElem?_eq_getElem (hspec.1.length.symm ▸ (List.getElem?_eq_some_iff.mp hg).1)⟩
      obtain ⟨⟨r, hr, hkey, hrow⟩, hleast⟩ := hspec.1.first g _ f hg hf
      obtain ⟨j, -, -, rfl⟩ := (hrecs _ r).mp hr
      dsimp only at hkey hrow
      subst hrow
      -- the first row of the group is not behind the position, and nothing before the position has its key
      obtain rfl : j = i := by
        refine le_antisymm (hleast _ hrec rfl) (not_lt.mp fun hlt => hfirst j hlt hkey)
      exact mem_map.mpr ⟨(_, g, j), (mem_placements parts _).mpr ⟨part, hpart, hf⟩, rfl⟩
  rw [List.map_map, ← hfilter]
  apply map_congr_left
  intro i hi
  obtain ⟨x, hx, rfl⟩ := mem_map.mp (of_decide_eq_true (mem_filter.mp hi).2)
  obtain ⟨part, hpart, hf, -, -, hsmall, -, -, hk⟩ := hplaced x hx
  rw [comp_apply, hpairs x hx]
  exact emit_pairOf hpart hk hf (by omega)

lemma first_le (c : Input) {i : ℕ} (hi : i < c.count) : ∃ f ∈ firsts c, c.keyAt f = c.keyAt i := by
  have hex : ∃ j, c.keyAt j = c.keyAt i := ⟨i, rfl⟩
  classical
  refine ⟨Nat.find hex, mem_filter.mpr ⟨?_, decide_eq_true fun j hj hsame => ?_⟩, Nat.find_spec hex⟩
  · exact mem_range.mpr ((Nat.find_min' hex rfl).trans_lt hi)
  · exact Nat.find_min hex hj (hsame.trans (Nat.find_spec hex))

lemma firsts_keys (c : Input) : ((firsts c).map c.keyAt).Nodup := by
  apply List.Nodup.map_on _ (nodup_range.filter _)
  intro i hi j hj hsame
  have hleast : ∀ {a b : ℕ}, b ∈ firsts c → c.keyAt a = c.keyAt b → ¬ a < b := fun hb hab hlt =>
    of_decide_eq_true (mem_filter.mp hb).2 _ hlt hab
  exact le_antisymm (not_lt.mp (hleast hi hsame.symm)) (not_lt.mp (hleast hj hsame))

lemma crowded_iff {recs : ℕ → List Record} (hrecs : Scattered c nParts recs) (p : ℕ) :
    Crowded (recs p) ↔ 2 ^ 31 < ((firsts c).filter fun i => partOf nParts (c.keyAt i) = p).length := by
  have hnodup : (((firsts c).filter fun i => partOf nParts (c.keyAt i) = p).map c.keyAt).Nodup :=
    (firsts_keys c).sublist (filter_sublist.map _)
  constructor
  · rintro ⟨ks, hks, hlen, hmem⟩
    have hsub : ks.Subperm (((firsts c).filter fun i => partOf nParts (c.keyAt i) = p).map c.keyAt) :=
        hks.subperm fun k hk => by
      obtain ⟨r, hr, rfl⟩ := hmem k hk
      obtain ⟨i, hi, hp, rfl⟩ := (hrecs p r).mp hr
      obtain ⟨f, hf, hsame⟩ := first_le c hi
      exact mem_map.mpr ⟨f, mem_filter.mpr ⟨hf, decide_eq_true (hsame.symm ▸ hp)⟩, hsame⟩
    have hle := hsub.length_le
    rw [length_map] at hle
    omega
  · intro hlen
    refine ⟨_, hnodup, by rwa [length_map], fun k hk => ?_⟩
    obtain ⟨i, hi, rfl⟩ := mem_map.mp hk
    obtain ⟨hfirst, hp⟩ := mem_filter.mp hi
    exact ⟨⟨c.keyAt i, i⟩, (hrecs p _).mpr ⟨i, firsts_lt hfirst, of_decide_eq_true hp, rfl⟩, rfl⟩

lemma radix_ordered (hpos : 0 < nParts) (hcov : Covers tasks nw c.count) :
    Ordered c (radix c nParts nw tasks) ↔ Overflows c nParts tasks ∨ Numbered c nParts := by
  obtain ⟨bufs, hbufs, hfit, hfilled⟩ | ⟨hnone, hover⟩ := @scatter_spec c nParts nw tasks hcov
  · have hrecs : Scattered c nParts (partRecs nw bufs) := mem_partRecs hcov hfilled
    rw [radix, hbufs]
    dsimp only
    obtain ⟨parts, hparts, hlen, hspec, hfew⟩ | ⟨hstray, p, hp, htaken, hcrowd⟩ := groupParts_spec nParts nw bufs
    · obtain ⟨pairs, horder, hemit⟩ := orderGroups_parted hpos hrecs hlen hspec
      rw [hparts, map_some, horder]
      dsimp only
      rw [hemit]
      constructor
      · rintro (hfall | hok)
        · cases hfall
        · have hall : ((firsts c).filter fun i => partOf nParts (c.keyAt i) < poolMaxTasks) = firsts c := by
            have hid : ∀ l : List ℕ, l.map (Prod.snd ∘ fun i => (c.keyAt i, i)) = l := fun l => map_id l
            have hmap := congrArg (List.map Prod.snd) (Outcome.ok.inj (some.inj hok))
            rwa [List.map_map, List.map_map, hid, hid] at hmap
          have hrows : ∀ i < c.count, partOf nParts (c.keyAt i) < poolMaxTasks := by
            intro i hi
            obtain ⟨f, hf, hsame⟩ := first_le c hi
            exact hsame ▸ of_decide_eq_true (filter_eq_self.mp hall f hf)
          refine Or.inr ⟨hrows, fun p => ?_⟩
          by_contra hmany
          have hcrowd := (crowded_iff hrecs p).mpr (not_le.mp hmany)
          obtain ⟨ks, -, hks, hmem⟩ := hcrowd
          obtain ⟨k, hk⟩ := exists_mem_of_length_pos (Nat.zero_lt_of_lt hks)
          obtain ⟨r, hr, -⟩ := hmem k hk
          obtain ⟨i, hi, hp, -⟩ := (hrecs p r).mp hr
          exact hfew p (hp ▸ Nat.mod_lt _ hpos) (hp ▸ hrows i hi) ((crowded_iff hrecs p).mpr (not_le.mp hmany))
      · rintro (hover | ⟨hrows, -⟩)
        · exact absurd hover hfit
        · have hall : ((firsts c).filter fun i => partOf nParts (c.keyAt i) < poolMaxTasks) = firsts c :=
            filter_eq_self.mpr fun i hi => decide_eq_true (hrows i (firsts_lt hi))
          rw [hall]
          exact Or.inr rfl
    · rw [hstray, map_none]
      constructor
      · rintro (hfall | hok)
        · cases hfall
        · cases hok
      · rintro (hover | ⟨-, hsmall⟩)
        · exact absurd hover hfit
        · exact absurd (hsmall p) (not_le.mpr ((crowded_iff hrecs p).mp hcrowd))
  · rw [radix, hnone]
    exact ⟨fun _ => Or.inl hover, fun _ => Or.inl rfl⟩

/-- When the groups come out in the order of first appearance. -/
theorem exec_radix_ordered (hcov : Covers tasks nw c.count) :
    Ordered c (execGroupV2ParallelRadix c nw tasks) ↔
      Overflows c (aggRadixPartCount nw c.count) tasks ∨ Numbered c (aggRadixPartCount nw c.count) :=
  radix_ordered (aggRadixPartCount_pos nw c.count) hcov

/-- Three rows in two ranges, the later one scattered first. -/
theorem exec_radix_ordered_two : Ordered ⟨3, fun r => [if r = 1 then 7 else 5], none⟩
        (execGroupV2ParallelRadix ⟨3, fun r => [if r = 1 then 7 else 5], none⟩ 2 [⟨1, 2, 3⟩, ⟨0, 0, 2⟩]) ↔
      Overflows ⟨3, fun r => [if r = 1 then 7 else 5], none⟩ 2 [⟨1, 2, 3⟩, ⟨0, 0, 2⟩] ∨
        Numbered ⟨3, fun r => [if r = 1 then 7 else 5], none⟩ 2 :=
  exec_radix_ordered ⟨by decide, by decide⟩

def tallInput : Input := ⟨2 ^ 32 + 1, fun r => if r = 0 then [2 ^ 16] else [2 ^ 62], none⟩

def quarters (a b d e : ℕ) : List Task := [⟨0, 0, a⟩, ⟨1, a, b⟩, ⟨2, b, d⟩, ⟨3, d, e⟩]

lemma quarters_covers {a b d e : ℕ} (hab : a ≤ b) (hbd : b ≤ d) (hde : d ≤ e) : Covers (quarters a b d e) 4 e := by
  have hglue : ∀ {s m n : ℕ}, s ≤ m → m ≤ n → range' s (m - s) ++ range' m (n - m) = range' s (n - s) := by
    intro s m n hsm hmn
    have happend := @range'_append_1 s (m - s) (n - m)
    have hlen : m - s + (n - m) = n - s := by omega
    rwa [Nat.add_sub_cancel' hsm, hlen] at happend
  refine ⟨fun t ht => ?_, ?_⟩
  · simp only [quarters, mem_cons, not_mem_nil, or_false] at ht
    obtain rfl | rfl | rfl | rfl := ht <;> dsimp only <;> omega
  · rw [quarters, flatMap_cons, flatMap_cons, flatMap_cons, flatMap_cons, flatMap_nil, append_nil,
      hglue hbd hde, hglue hab (hbd.trans hde), hglue (Nat.zero_le a) (hab.trans (hbd.trans hde)), range_eq_range']
    exact List.Perm.refl _

lemma quarters_fit {a b d e : ℕ} (ha : a ≤ 2 ^ 31) (hb : b - a ≤ 2 ^ 31) (hd : d - b ≤ 2 ^ 31)
    (he : e - d ≤ 2 ^ 31) :
    ¬ Overflows c nParts (quarters a b d e) := by
  rintro ⟨w, p, hover⟩
  have hlen : (workerRows (quarters a b d e) w).length ≤ 2 ^ 31 := by
    have hnil : workerRows [] w = [] := rfl
    simp only [quarters, workerRows_cons, hnil]
    split_ifs <;> simp only [length_append, length_range', length_nil] <;> omega
  exact absurd (hover.trans_le countP_le_length) (not_lt.mpr hlen)

/-- The first row is in a partition that the pool drops. -/
theorem tall_input_unordered : Covers (quarters (2 ^ 30) (2 ^ 31) (3 * 2 ^ 30) (2 ^ 32 + 1)) 4 tallInput.count ∧
    ¬ Ordered tallInput (execGroupV2ParallelRadix tallInput 4
      (quarters (2 ^ 30) (2 ^ 31) (3 * 2 ^ 30) (2 ^ 32 + 1))) := by
  have hcov : Covers (quarters (2 ^ 30) (2 ^ 31) (3 * 2 ^ 30) (2 ^ 32 + 1)) 4 tallInput.count :=
    quarters_covers (by omega) (by omega) (by omega)
  have hparts : aggRadixPartCount 4 tallInput.count = 2 ^ 17 := by decide
  have hfirst : ¬ partOf (2 ^ 17) (tallInput.keyAt 0) < poolMaxTasks := by decide
  refine ⟨hcov, fun h => ?_⟩
  rw [execGroupV2ParallelRadix, hparts, radix_ordered (by omega) hcov] at h
  obtain hover | ⟨hrows, -⟩ := h
  · exact quarters_fit (by omega) (by omega) (by omega) (by omega) hover
  · exact hfirst (hrows 0 (Nat.succ_pos _))

end

end Rayforce.Group
