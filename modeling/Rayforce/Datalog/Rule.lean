import Mathlib
import Rayforce.Datalog.Program

namespace Rayforce.Datalog

open List Option

structure Accum where
  ncols : ℕ
  rows : Table
  varCol : ℕ → Option ℕ

def dlFilterEq (tbl : Table) (c : ℕ) (k : ℤ) : Table := tbl.filter fun row => row[c]? = some k

def filterConsts (args : List Arg) (tbl : Table) : Table :=
  args.zipIdx.foldl (fun tbl ac =>
    match ac.1 with
    | .const k => dlFilterEq tbl ac.2 k
    | .var _ => tbl) tbl

def isKey (varCol : ℕ → Option ℕ) : Arg → Bool
  | .var v => (varCol v).isSome
  | .const _ => false

def keyCols (varCol : ℕ → Option ℕ) (args : List Arg) : List (ℕ × ℕ) :=
  args.zipIdx.filterMap fun ac => ac.1.var?.bind fun v => (varCol v).map fun c => (c, ac.2)

def joinKeysEq (keys : List (ℕ × ℕ)) (l r : Row) : Bool :=
  keys.all fun k =>
    match l[k.1]?, r[k.2]? with
    | some x, some y => x = y ∧ x ≠ nullI64 ∧ y ≠ nullI64
    | _, _ => false

def dropKeys (varCol : ℕ → Option ℕ) (args : List Arg) (row : Row) : Row :=
  ((args.zip row).filter fun ax => !isKey varCol ax.1).map Prod.snd

def dlJoinTables (left : Accum) (args : List Arg) (right : Table) : ℕ × Table :=
  if left.rows = [] ∨ right = [] then (left.ncols, [])
  else
    (left.ncols + (args.filter fun arg => !isKey left.varCol arg).length,
      left.rows.flatMap fun l => (right.filter (joinKeysEq (keyCols left.varCol args) l)).map fun r =>
        l ++ dropKeys left.varCol args r)

def firstCol (args : List Arg) (v : ℕ) : Option ℕ := args.findIdx? fun arg => arg = .var v

def bindVars (acc : Accum) (args : List Arg) (v : ℕ) : Option ℕ :=
  match acc.varCol v with
  | some c => some c
  | none => (firstCol args v).map fun c =>
      acc.ncols + ((args.take c).filter fun arg => !isKey acc.varCol arg).length

def joinAtom (acc : Option Accum) (args : List Arg) (tbl : Table) : Accum :=
  match acc with
  | none => ⟨args.length, tbl, firstCol args⟩
  | some acc =>
    let joined := dlJoinTables acc args tbl
    ⟨joined.1, joined.2, bindVars acc args⟩

def dlAntijoinTables (left : Accum) (args : List Arg) (right : Table) : Table :=
  left.rows.filter fun l => !right.any (joinKeysEq (keyCols left.varCol args) l)

def joinPositives (rels : List Rel) (tables : Tables) : List Atom → Option Accum → Option Accum
  | [], acc => acc
  | a :: as, acc =>
    match dlFindRel rels a.pred with
    | none => none
    | some _ => joinPositives rels tables as (some (joinAtom acc a.args (filterConsts a.args (tables a.pred))))

def dropNegatives (rels : List Rel) (tables : Tables) : List Atom → Accum → Option Accum
  | [], acc => some acc
  | a :: as, acc =>
    match dlFindRel rels a.pred with
    | none => none
    | some _ =>
      if keyCols acc.varCol a.args = [] then dropNegatives rels tables as acc
      else
        dropNegatives rels tables as
          { acc with rows := dlAntijoinTables acc a.args (filterConsts a.args (tables a.pred)) }

def headCell (acc : Accum) (row : Row) : Arg → Option ℤ
  | .const k => some k
  | .var v => (acc.varCol v).bind fun c => row[c]?

def headBound (acc : Accum) : Arg → Bool
  | .const _ => true
  | .var v => (acc.varCol v).isSome

def dlProject (acc : Accum) (head : List Arg) : Except Unit Table :=
  if head.all (headBound acc) then
    if head = [] then .ok []
    else
      match acc.rows.mapM fun row => head.mapM (headCell acc row) with
      | none => .error ()
      | some rows => .ok rows
  else .error ()

def dlCompileRule (rels : List Rel) (tables : Tables) (rule : Rule) : Except Unit (Option Table) :=
  match joinPositives rels tables rule.positives none with
  | none => .ok none
  | some acc =>
    match dropNegatives rels tables rule.negatives acc with
    | none => .ok none
    | some acc => (dlProject acc rule.head.args).map some

section

variable {varCol : ℕ → Option ℕ} {args : List Arg} {l t row : Row} {tbl : Table} {σ : ℕ → ℤ} {v c : ℕ}

lemma mem_filterConsts : t ∈ filterConsts args tbl ↔ t ∈ tbl ∧ ∀ (c : ℕ) k, args[c]? = some (Arg.const k) →
    t[c]? = some k := by
  have hfold : ∀ (acs : List (Arg × ℕ)) (tbl : Table), t ∈ acs.foldl (fun tbl ac =>
        match ac.1 with
        | .const k => dlFilterEq tbl ac.2 k
        | .var _ => tbl) tbl ↔ t ∈ tbl ∧ ∀ c k, (Arg.const k, c) ∈ acs → t[c]? = some k := by
    intro acs
    induction acs with
    | nil => exact fun tbl => ⟨fun h => ⟨h, fun c k hm => absurd hm not_mem_nil⟩, fun h => h.1⟩
    | cons ac acs ih =>
      intro tbl
      obtain ⟨arg, c⟩ := ac
      rw [foldl_cons, ih]
      cases arg with
      | const k =>
        simp only [dlFilterEq, mem_filter, decide_eq_true_eq, mem_cons, Prod.mk.injEq, Arg.const.injEq]
        constructor
        · rintro ⟨⟨hmem, hc⟩, hall⟩
          refine ⟨hmem, fun c' k' h => ?_⟩
          rcases h with ⟨rfl, rfl⟩ | h
          · exact hc
          · exact hall c' k' h
        · rintro ⟨hmem, hall⟩
          exact ⟨⟨hmem, hall c k (.inl ⟨rfl, rfl⟩)⟩, fun c' k' h => hall c' k' (.inr h)⟩
      | var v =>
        refine and_congr_right fun _ => ⟨fun hall c' k' h => ?_, fun hall c' k' h => ?_⟩
        · obtain h | h := mem_cons.mp h
          · cases h
          · exact hall c' k' h
        · exact hall c' k' (mem_cons_of_mem _ h)
  rw [filterConsts, hfold]
  refine and_congr_right fun _ => forall₂_congr fun c k => imp_congr_left ?_
  rw [mk_mem_zipIdx_iff_getElem?]

lemma joinKeysEq_iff : joinKeysEq (keyCols varCol args) l t = true ↔
    ∀ (c : ℕ) v lc, args[c]? = some (Arg.var v) → varCol v = some lc → ∃ x, l[lc]? = some x ∧ t[c]? = some x ∧
      x ≠ nullI64 := by
  rw [joinKeysEq, List.all_eq_true]
  constructor
  · intro h c v lc hc hv
    have hkey : (lc, c) ∈ keyCols varCol args := by
      refine mem_filterMap.mpr ⟨(.var v, c), mk_mem_zipIdx_iff_getElem?.mpr hc, ?_⟩
      simp [Arg.var?, hv]
    have heq := h _ hkey
    simp only at heq
    cases hl : l[lc]? with
    | none =>
      rw [hl] at heq
      cases heq
    | some x =>
      cases ht : t[c]? with
      | none =>
        rw [hl, ht] at heq
        cases heq
      | some y =>
        rw [hl, ht] at heq
        simp only [decide_eq_true_eq] at heq
        obtain ⟨rfl, hx, -⟩ := heq
        exact ⟨x, rfl, rfl, hx⟩
  · intro h k hk
    obtain ⟨⟨arg, c⟩, hmem, hsome⟩ := mem_filterMap.mp hk
    have hc := mk_mem_zipIdx_iff_getElem?.mp hmem
    cases arg with
    | const k => cases hsome
    | var v =>
      simp only [Arg.var?, bind_some, map_eq_some_iff] at hsome
      obtain ⟨lc, hlc, rfl⟩ := hsome
      obtain ⟨x, hl, ht, hx⟩ := h c v lc hc hlc
      simp only [hl, ht, decide_eq_true_eq]
      exact ⟨trivial, hx, hx⟩

lemma getElem?_dropKeys (hlen : t.length = args.length) {arg : Arg} (hc : args[c]? = some arg)
    (hkey : isKey varCol arg = false) :
    (dropKeys varCol args t)[((args.take c).filter fun arg => !isKey varCol arg).length]? = t[c]? := by
  induction args generalizing t c with
  | nil => cases hc
  | cons a args ih =>
    cases t with
    | nil => cases hlen
    | cons x t =>
      cases c with
      | zero =>
        obtain rfl : a = arg := some.inj hc
        simp [dropKeys, hkey]
      | succ c =>
        have hrest := ih (Nat.succ.inj hlen) hc
        rw [dropKeys] at hrest ⊢
        rw [take_succ_cons, zip_cons_cons]
        by_cases ha : isKey varCol a = true
        · rw [filter_cons_of_neg (by simp [ha]), filter_cons_of_neg (by simp [ha])]
          exact hrest
        · rw [filter_cons_of_pos (by simp [ha]), filter_cons_of_pos (by simp [ha]),
            map_cons, length_cons, getElem?_cons_succ]
          exact hrest

lemma length_dropKeys (hlen : t.length = args.length) :
    (dropKeys varCol args t).length = (args.filter fun arg => !isKey varCol arg).length := by
  rw [dropKeys, length_map]
  induction args generalizing t with
  | nil => rfl
  | cons a args ih =>
    cases t with
    | nil => cases hlen
    | cons x t =>
      have hrest := ih (Nat.succ.inj hlen)
      rw [zip_cons_cons]
      by_cases ha : isKey varCol a = true
      · rw [filter_cons_of_neg (by simp [ha]), filter_cons_of_neg (by simp [ha])]
        exact hrest
      · rw [filter_cons_of_pos (by simp [ha]), filter_cons_of_pos (by simp [ha]),
          length_cons, length_cons, hrest]

lemma firstCol_some (h : firstCol args v = some c) : args[c]? = some (Arg.var v) := by
  obtain ⟨hlt, heq, -⟩ := findIdx?_eq_some_iff_getElem.mp h
  rw [getElem?_eq_getElem hlt]
  simpa using heq

lemma firstCol_isSome (h : args[c]? = some (Arg.var v)) : ∃ c', firstCol args v = some c' := by
  refine isSome_iff_exists.mp ?_
  rw [firstCol, findIdx?_isSome]
  exact any_eq_true.mpr ⟨.var v, mem_of_getElem? h, decide_eq_true rfl⟩

lemma col_unique {c' : ℕ} (honce : args.count (Arg.var v) ≤ 1) (h : args[c]? = some (Arg.var v))
    (h' : args[c']? = some (Arg.var v)) : c = c' := by
  by_contra hne
  obtain ⟨hlt, heq⟩ := List.getElem?_eq_some_iff.mp h
  obtain ⟨hlt', heq'⟩ := List.getElem?_eq_some_iff.mp h'
  have hdup : List.Duplicate (Arg.var v) args := by
    rw [duplicate_iff_exists_distinct_get]
    rcases Nat.lt_or_gt_of_ne hne with hcc | hcc
    · exact ⟨⟨c, hlt⟩, ⟨c', hlt'⟩, hcc, heq.symm, heq'.symm⟩
    · exact ⟨⟨c', hlt'⟩, ⟨c, hlt⟩, hcc, heq'.symm, heq.symm⟩
  have htwo := duplicate_iff_two_le_count.mp hdup
  omega

def Agrees (varCol : ℕ → Option ℕ) (σ : ℕ → ℤ) (row : Row) : Prop :=
  ∀ v c, varCol v = some c → row[c]? = some (σ v)

lemma getElem?_inst (a : Atom) (σ : ℕ → ℤ) (c : ℕ) : (a.inst σ)[c]? = a.args[c]?.map (Arg.eval σ) :=
  getElem?_map

lemma eq_inst {a : Atom} (hlen : t.length = a.args.length)
    (hconst : ∀ (c : ℕ) k, a.args[c]? = some (Arg.const k) → t[c]? = some k)
    (hvar : ∀ (c : ℕ) v, a.args[c]? = some (Arg.var v) → t[c]? = some (σ v)) : t = a.inst σ := by
  refine ext_getElem? fun c => ?_
  rw [getElem?_inst]
  cases hc : a.args[c]? with
  | none => exact getElem?_eq_none (by rw [hlen]; exact getElem?_eq_none_iff.mp hc)
  | some arg =>
    cases arg with
    | const k => exact hconst c k hc
    | var v => exact hvar c v hc

end

section

variable {acc : Accum} {a : Atom} {tbl : Table} {l t row : Row} {σ : ℕ → ℤ} {v : ℕ}

structure Accum.Ok (acc : Accum) : Prop where
  rows : ∀ row ∈ acc.rows, row.length = acc.ncols
  cols : ∀ row ∈ acc.rows, ∀ v c, acc.varCol v = some c → c < row.length

def Accum.Binds (acc : Accum) (σ : ℕ → ℤ) : Prop := ∃ row ∈ acc.rows, Agrees acc.varCol σ row

lemma mem_vars : v ∈ a.vars ↔ Arg.var v ∈ a.args := by
  rw [Atom.vars, mem_filterMap]
  constructor
  · rintro ⟨arg, harg, hv⟩
    cases arg with
    | const k => cases hv
    | var w =>
      obtain rfl : w = v := some.inj hv
      exact harg
  · exact fun h => ⟨.var v, h, rfl⟩

lemma firstCol_isSome_iff : (firstCol a.args v).isSome ↔ v ∈ a.vars := by
  rw [mem_vars, firstCol, findIdx?_isSome, List.any_eq_true]
  exact ⟨fun ⟨arg, harg, heq⟩ => by
    rw [decide_eq_true_eq] at heq
    exact heq ▸ harg, fun h => ⟨_, h, decide_eq_true rfl⟩⟩

lemma bindVars_of_some {c : ℕ} (h : acc.varCol v = some c) : bindVars acc a.args v = some c := by
  rw [bindVars, h]

lemma bindVars_of_none (h : acc.varCol v = none) : bindVars acc a.args v = (firstCol a.args v).map fun c =>
      acc.ncols + ((a.args.take c).filter fun arg => !isKey acc.varCol arg).length := by
  rw [bindVars, h]

lemma bindVars_isSome : (bindVars acc a.args v).isSome ↔ (acc.varCol v).isSome ∨ v ∈ a.vars := by
  cases h : acc.varCol v with
  | some c =>
    rw [bindVars_of_some h]
    exact ⟨fun _ => .inl rfl, fun _ => rfl⟩
  | none =>
    rw [bindVars_of_none h, isSome_map, firstCol_isSome_iff]
    exact ⟨.inr, fun hv => hv.resolve_left (by simp)⟩

lemma mem_joinTables : row ∈ (dlJoinTables acc a.args tbl).2 ↔
    ∃ l ∈ acc.rows, ∃ t ∈ tbl, joinKeysEq (keyCols acc.varCol a.args) l t = true ∧
      row = l ++ dropKeys acc.varCol a.args t := by
  rw [dlJoinTables]
  by_cases hempty : acc.rows = [] ∨ tbl = []
  · rw [if_pos hempty]
    refine ⟨fun h => absurd h not_mem_nil, fun ⟨l, hl, t, ht, _⟩ => ?_⟩
    rcases hempty with h | h
    · rw [h] at hl
      exact absurd hl not_mem_nil
    · rw [h] at ht
      exact absurd ht not_mem_nil
  · rw [if_neg hempty, mem_flatMap]
    refine exists_congr fun l => and_congr_right fun _ => ?_
    rw [List.mem_map]
    constructor
    · rintro ⟨t, ht, rfl⟩
      obtain ⟨hmem, hkeys⟩ := mem_filter.mp ht
      exact ⟨t, hmem, hkeys, rfl⟩
    · rintro ⟨t, hmem, hkeys, rfl⟩
      exact ⟨t, mem_filter.mpr ⟨hmem, hkeys⟩, rfl⟩

lemma joined_of_agrees (hcols : ∀ v c, acc.varCol v = some c → c < l.length) (hl : l.length = acc.ncols)
    (ht : t.length = a.args.length) (hconst : ∀ (c : ℕ) k, a.args[c]? = some (Arg.const k) → t[c]? = some k)
    (honce : ∀ v, acc.varCol v = none → a.args.count (Arg.var v) ≤ 1)
    (hkeys : joinKeysEq (keyCols acc.varCol a.args) l t = true)
    (hrow : Agrees (bindVars acc a.args) σ (l ++ dropKeys acc.varCol a.args t)) :
      Agrees acc.varCol σ l ∧ t = a.inst σ := by
  have hleft : Agrees acc.varCol σ l := by
    intro v c hv
    have hget := hrow v c (bindVars_of_some hv)
    rwa [getElem?_append_left (hcols v c hv)] at hget
  refine ⟨hleft, eq_inst ht hconst fun c v hc => ?_⟩
  cases hv : acc.varCol v with
  | some lc =>
    obtain ⟨x, hlx, htx, -⟩ := joinKeysEq_iff.mp hkeys c v lc hc hv
    rw [hleft v lc hv] at hlx
    rw [htx, ← hlx]
  | none =>
    obtain ⟨c', hc'⟩ := firstCol_isSome hc
    obtain rfl := col_unique (honce v hv) hc (firstCol_some hc')
    have hget := hrow v _ (by rw [bindVars_of_none hv, hc', map_some])
    rw [← hl, getElem?_append_right (Nat.le_add_right _ _), Nat.add_sub_cancel_left,
      getElem?_dropKeys ht hc (by simp [isKey, hv])] at hget
    exact hget

lemma agrees_joined (hcols : ∀ v c, acc.varCol v = some c → c < l.length) (hl : l.length = acc.ncols)
    (hapart : ∀ v ∈ a.vars, (acc.varCol v).isSome → σ v ≠ nullI64) (hleft : Agrees acc.varCol σ l) :
    joinKeysEq (keyCols acc.varCol a.args) l (a.inst σ) = true ∧
      Agrees (bindVars acc a.args) σ (l ++ dropKeys acc.varCol a.args (a.inst σ)) := by
  have hlen : (a.inst σ).length = a.args.length := length_map ..
  have hinst : ∀ (c : ℕ) v, a.args[c]? = some (Arg.var v) → (a.inst σ)[c]? = some (σ v) := by
    intro c v hc
    rw [getElem?_inst, hc]
    rfl
  refine ⟨joinKeysEq_iff.mpr fun c v lc hc hv => ?_, fun v c hv => ?_⟩
  · exact ⟨σ v, hleft v lc hv, hinst c v hc, hapart v (mem_vars.mpr (mem_of_getElem? hc)) (by rw [hv]; rfl)⟩
  · cases hold : acc.varCol v with
    | some lc =>
      rw [bindVars_of_some hold] at hv
      obtain rfl := some.inj hv
      rw [getElem?_append_left (hcols v lc hold)]
      exact hleft v lc hold
    | none =>
      rw [bindVars_of_none hold, map_eq_some_iff] at hv
      obtain ⟨c', hc', rfl⟩ := hv
      have hat := firstCol_some hc'
      rw [← hl, getElem?_append_right (Nat.le_add_right _ _), Nat.add_sub_cancel_left,
        getElem?_dropKeys hlen hat (by simp [isKey, hold])]
      exact hinst c' v hat

lemma getElem?_of_mem_inst {c : ℕ} {k : ℤ} (hc : a.args[c]? = some (Arg.const k)) : (a.inst σ)[c]? = some k := by
  rw [getElem?_inst, hc]
  rfl

lemma mem_filterConsts_inst : a.inst σ ∈ filterConsts a.args tbl ↔ a.inst σ ∈ tbl := by
  rw [mem_filterConsts]
  exact and_iff_left fun c k hc => getElem?_of_mem_inst hc

lemma joinAtom_spec (hok : acc.Ok) (htbl : ∀ t ∈ tbl, t.length = a.args.length)
    (hapart : ∀ σ, acc.Binds σ → a.inst σ ∈ tbl → ∀ v ∈ a.vars, (acc.varCol v).isSome → σ v ≠ nullI64)
    (honce : ∀ v, acc.varCol v = none → a.args.count (Arg.var v) ≤ 1) :
    (joinAtom (some acc) a.args (filterConsts a.args tbl)).Ok ∧
      (∀ σ, (joinAtom (some acc) a.args (filterConsts a.args tbl)).Binds σ ↔ acc.Binds σ ∧ a.inst σ ∈ tbl) ∧
      (joinAtom (some acc) a.args (filterConsts a.args tbl)).varCol = bindVars acc a.args := by
  have hjoin : ∀ row ∈ (dlJoinTables acc a.args (filterConsts a.args tbl)).2,
      (dlJoinTables acc a.args (filterConsts a.args tbl)).1 =
        acc.ncols + (a.args.filter fun arg => !isKey acc.varCol arg).length := by
    intro row hrow
    obtain ⟨l, hl, t, ht, -, -⟩ := mem_joinTables.mp hrow
    rw [dlJoinTables, if_neg]
    rintro (h | h)
    · rw [h] at hl
      exact absurd hl not_mem_nil
    · rw [h] at ht
      exact absurd ht not_mem_nil
  refine ⟨⟨fun row hrow => ?_, fun row hrow v c hv => ?_⟩, fun σ => ?_, rfl⟩
  · have hn := hjoin row hrow
    obtain ⟨l, hl, t, ht, hkeys, rfl⟩ := mem_joinTables.mp hrow
    rw [length_append, hok.rows l hl, length_dropKeys (htbl t (mem_filterConsts.mp ht).1)]
    exact hn.symm
  · obtain ⟨l, hl, t, ht, hkeys, rfl⟩ := mem_joinTables.mp hrow
    have htok := htbl t (mem_filterConsts.mp ht).1
    change bindVars acc a.args v = some c at hv
    cases hold : acc.varCol v with
    | some lc =>
      rw [bindVars_of_some hold] at hv
      obtain rfl := some.inj hv
      exact (hok.cols l hl v lc hold).trans_le (by rw [length_append]; exact Nat.le_add_right _ _)
    | none =>
      rw [bindVars_of_none hold, map_eq_some_iff] at hv
      obtain ⟨c', hc', rfl⟩ := hv
      have hat := firstCol_some hc'
      have hget := getElem?_dropKeys htok hat
        (show isKey acc.varCol (Arg.var v) = false by simp [isKey, hold])
      have hlt : c' < t.length := by
        rw [htok]
        exact (List.getElem?_eq_some_iff.mp hat).1
      rw [getElem?_eq_getElem hlt] at hget
      have hlt' := (List.getElem?_eq_some_iff.mp hget).1
      rw [length_append, hok.rows l hl]
      omega
  · constructor
    · rintro ⟨row, hrow, hag⟩
      obtain ⟨l, hl, t, ht, hkeys, rfl⟩ := mem_joinTables.mp hrow
      obtain ⟨hmem, hconst⟩ := mem_filterConsts.mp ht
      obtain ⟨hleft, rfl⟩ := joined_of_agrees (hok.cols l hl) (hok.rows l hl) (htbl t hmem)
        hconst honce hkeys hag
      exact ⟨⟨l, hl, hleft⟩, hmem⟩
    · rintro ⟨⟨l, hl, hleft⟩, hmem⟩
      obtain ⟨hkeys, hag⟩ := agrees_joined (hok.cols l hl) (hok.rows l hl) (hapart σ ⟨l, hl, hleft⟩ hmem) hleft
      exact ⟨_, mem_joinTables.mpr ⟨l, hl, _, mem_filterConsts_inst.mpr hmem, hkeys, rfl⟩, hag⟩

lemma joinAtom_none_spec (htbl : ∀ t ∈ tbl, t.length = a.args.length) (honce : ∀ v, a.args.count (Arg.var v) ≤ 1) :
    (joinAtom none a.args (filterConsts a.args tbl)).Ok ∧
      (∀ σ, (joinAtom none a.args (filterConsts a.args tbl)).Binds σ ↔ a.inst σ ∈ tbl) ∧
      (joinAtom none a.args (filterConsts a.args tbl)).varCol = firstCol a.args := by
  refine ⟨⟨fun row hrow => htbl row (mem_filterConsts.mp hrow).1, fun row hrow v c hv => ?_⟩, fun σ => ?_,
    rfl⟩
  · rw [htbl row (mem_filterConsts.mp hrow).1]
    exact (List.getElem?_eq_some_iff.mp (firstCol_some hv)).1
  · constructor
    · rintro ⟨row, hrow, hag⟩
      obtain ⟨hmem, hconst⟩ := mem_filterConsts.mp hrow
      have heq : row = a.inst σ := by
        refine eq_inst (htbl row hmem) hconst fun c v hc => ?_
        obtain ⟨c', hc'⟩ := firstCol_isSome hc
        obtain rfl := col_unique (honce v) hc (firstCol_some hc')
        exact hag v c hc'
      rwa [← heq]
    · intro hmem
      refine ⟨_, mem_filterConsts_inst.mpr hmem, fun v c hv => ?_⟩
      rw [getElem?_inst, firstCol_some hv]
      rfl

end

end Rayforce.Datalog
