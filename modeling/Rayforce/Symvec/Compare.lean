import Rayforce.Library.Sorting
import Rayforce.Symvec.Vector

namespace Rayforce.Symvec

open Library.Words Library.BottomUp Rayforce.Dict Rayforce.Join List Option Function

variable {f : Bool} {α β γ : Type} {d : Option ℕ} {ss : List Bytes}

inductive CmpOp
  | eq | ne | lt | le | gt | ge
  deriving DecidableEq

inductive Atom
  | sym (id : Option ℕ)
  | str (s : Bytes)
  | null
  | other

inductive Operand
  | syms (v : SymVec)
  | strs (hasNulls : Bool) (cells : List Bytes)
  | others (nulls : List Bool)
  | atom (a : Atom)

section

variable (S : Symbols)

def CmpOp.apply : CmpOp → Ordering → Bool
  | .eq, c => c = .eq
  | .ne, c => c ≠ .eq
  | .lt, c => c = .lt
  | .le, c => c ≠ .gt
  | .gt, c => c = .gt
  | .ge, c => c ≠ .lt

def memcmp : Bytes → Bytes → Ordering
  | a :: as, b :: bs => (compare a b).then (memcmp as bs)
  | _, _ => .eq

def strCmp (a b : Bytes) : Ordering := (memcmp a b).then (compare a.length b.length)

def rayStrCmp : Bytes → Bytes → Ordering
  | a :: as, b :: bs => (compare a b).then ((memcmp as bs).then (compare (as.length + 1) (bs.length + 1)))
  | a, b => compare a.length b.length

def symAtomCmp (a b : Option ℕ) : Ordering :=
  if a = b then .eq
  else match a.bind (atomStr S), b.bind (atomStr S) with
    | some s, some t => rayStrCmp s t
    | _, _ => .eq

def Atom.isNull : Atom → Bool
  | .null => true
  | _ => false

def CmpOp.mixed : CmpOp → Bool → Bool → Option Bool
  | .eq, na, nb => if na && nb then some true else if na || nb then some false else none
  | .ne, na, nb => if na && nb then some false else if na || nb then some true else none
  | _, _, _ => none

def scalar (op : CmpOp) : Atom → Atom → Option Bool
  | .str s, .str t => some (op.apply (strCmp s t))
  | .sym a, .sym b =>
    match op with
    | .eq => some (a = b)
    | .ne => some (a ≠ b)
    | op => some (op.apply (symAtomCmp S a b))
  | a, b => op.mixed a.isNull b.isNull

end

section

variable (S : Symbols) (op : CmpOp)

def clip (w : SymWidth) (target : ℕ) : ℕ := if w = .w64 then target else target % 2 ^ w.bits

def eqAtom (invert : Bool) (v : SymVec) (id : Option ℕ) : List Bool :=
  match id.bind (inDomain S v.domain) with
  | none => v.cells.map fun _ => invert
  | some target => v.cells.map fun c => decide (c = clip v.width target) ^^ invert

def translation (ld rd : Option ℕ) : List (Option ℕ) :=
  (List.range (S.names ld).length).map fun p => (domainStr S ld p).bind (domainFind S rd)

def eqVec (invert : Bool) (l r : SymVec) : List Bool :=
  if l.domain = r.domain ∨ (S.names l.domain).length = 0 then
    List.zipWith (fun c d => decide (c = d) ^^ invert) l.cells r.cells
  else
    let lut := translation S l.domain r.domain
    List.zipWith (fun c d => decide ((lut[c]?).join = some d) ^^ invert) l.cells r.cells

structure RankEnt where
  str : Bytes
  id : ℕ
  fromR : Bool

def RankEnt.cmp (x y : RankEnt) : Ordering := strCmp x.str y.str

def entries (d : Option ℕ) (fromR : Bool) : List RankEnt :=
  (List.range (S.names d).length).map fun i => ⟨(domainStr S d i).getD [], i, fromR⟩

def symUnionRanks (ld rd : Option ℕ) : List (RankEnt × ℕ) :=
  ranks RankEnt.cmp (sort (fun x y => (x.cmp y).isLE)
    (if rd = ld then entries S ld false else entries S ld false ++ entries S rd true))

def rankOf (rs : List (RankEnt × ℕ)) (fromR : Bool) (id : ℕ) : ℕ :=
  ((rs.find? fun p => p.1.fromR = fromR ∧ p.1.id = id).map fun p => p.2).getD 0

def ordVec (l r : SymVec) : List Bool :=
  let rs := symUnionRanks S l.domain r.domain
  List.zipWith (fun c d => op.apply (compare (rankOf rs false c) (rankOf rs (r.domain ≠ l.domain) d)))
    l.cells r.cells

def verdicts (d : Option ℕ) (s : Bytes) (vecLeft : Bool) : List Ordering :=
  (List.range (S.names d).length).map fun p =>
    let c := strCmp ((domainStr S d p).getD []) s
    if vecLeft then c else c.swap

def ordAtom (v : SymVec) (s : Bytes) (vecLeft : Bool) : List Bool :=
  let vs := verdicts S v.domain s vecLeft
  v.cells.map fun c => op.apply ((vs[c]?).getD .eq)

end

section

variable (S : Symbols) (op : CmpOp)

def Operand.elems (n : ℕ) : Operand → List Atom
  | .syms v => v.cells.map fun c => .sym (runtimeId S v.domain c)
  | .strs _ cells => cells.map .str
  | .others nulls => nulls.map fun b => if b then .null else .other
  | .atom a => List.replicate n a

def slowPath (l r : Operand) (n : ℕ) : Option (List Bool) :=
  (List.zipWith (scalar S op) (l.elems S n) (r.elems S n)).mapM id

def maxVocab : ℕ := 2 ^ 22

def isEq : Bool := op = .eq || op = .ne

def atomicMapBinaryOp (l r : Operand) (n : ℕ) : Option (List Bool) :=
  match l, r with
  | .syms v, .atom (.sym id) =>
    if isEq op then some (eqAtom S (op = .ne) v id)
    else match id.bind (atomStr S) with
      | some s =>
        if 0 < (S.names v.domain).length ∧ (S.names v.domain).length ≤ maxVocab then some (ordAtom S op v s true)
        else slowPath S op l r n
      | none => slowPath S op l r n
  | .atom (.sym id), .syms v =>
    if isEq op then some (eqAtom S (op = .ne) v id)
    else match id.bind (atomStr S) with
      | some s =>
        if 0 < (S.names v.domain).length ∧ (S.names v.domain).length ≤ maxVocab then some (ordAtom S op v s false)
        else slowPath S op l r n
      | none => slowPath S op l r n
  | .syms v, .syms u =>
    if isEq op then
      if v.domain = u.domain ∨ (S.names v.domain).length ≤ maxVocab then some (eqVec S (op = .ne) v u)
      else slowPath S op l r n
    else
      let dr := if u.domain = v.domain then 0 else (S.names u.domain).length
      if (S.names v.domain).length + dr ≤ maxVocab then some (ordVec S op v u) else slowPath S op l r n
  | .strs false cs, .strs false ds => some (List.zipWith (fun s t => op.apply (strCmp s t)) cs ds)
  | .strs false cs, .atom (.str t) => some (cs.map fun s => op.apply (strCmp s t))
  | .atom (.str s), .strs false ds => some (ds.map fun t => op.apply (strCmp s t))
  | _, _ => slowPath S op l r n

end

section

variable (S : Symbols) (op : CmpOp)

inductive Shown
  | sym (s : Bytes)
  | str (s : Bytes)
  | null
  | other

def Shown.isNull : Shown → Bool
  | .null => true
  | _ => false

def onShown : Shown → Shown → Option Bool
  | .str s, .str t => some (op.apply (strCmp s t))
  | .sym s, .sym t => some (op.apply (strCmp s t))
  | a, b => op.mixed a.isNull b.isNull

def Atom.shown : Atom → Shown
  | .sym id => .sym ((id.bind (atomStr S)).getD [])
  | .str s => .str s
  | .null => .null
  | .other => .other

def Operand.shown (n : ℕ) : Operand → List Shown
  | .syms v => v.cells.map fun c => .sym ((v.str S c).getD [])
  | .strs _ cells => cells.map .str
  | .others nulls => nulls.map fun b => if b then .null else .other
  | .atom a => List.replicate n (a.shown S)

def elementwise (l r : Operand) (n : ℕ) : Option (List Bool) :=
  (List.zipWith (onShown op) (l.shown S n) (r.shown S n)).mapM id

def Atom.Known : Atom → Prop
  | .sym id => (id.bind (atomStr S)).isSome
  | _ => True

def Operand.Fits (n : ℕ) : Operand → Prop
  | .syms v => v.cells.length = n ∧ v.Placed S
  | .strs _ cells => cells.length = n
  | .others nulls => nulls.length = n
  | .atom a => a.Known S

def Aliases (v : SymVec) (id : Option ℕ) : Prop :=
  ∃ target, id.bind (inDomain S v.domain) = some target ∧ target ≠ clip v.width target ∧
    clip v.width target ∈ v.cells

def AliasedPair : Operand → Operand → Prop
  | .syms v, .atom (.sym id) => Aliases S v id
  | .atom (.sym id), .syms v => Aliases S v id
  | _, _ => False

end

section

variable {S : Symbols} {s t : Bytes} {a b : Atom} {op : CmpOp}

lemma strCmp_eq_compare (s t : Bytes) : strCmp s t = compare s t := by
  rw [List.compare_eq_compareLex]
  induction s generalizing t with
  | nil =>
    cases t with
    | nil => rfl
    | cons y t =>
      rw [List.compareLex_nil_cons]
      exact Nat.compare_eq_lt.mpr (Nat.succ_pos _)
  | cons x s ih =>
    cases t with
    | nil =>
      rw [List.compareLex_cons_nil]
      exact Nat.compare_eq_gt.mpr (Nat.succ_pos _)
    | cons y t =>
      rw [List.compareLex_cons_cons, ← ih, strCmp, strCmp, memcmp, Ordering.then_assoc]
      congr 2
      simp [Nat.compare_eq_ite_lt]

lemma rayStrCmp_eq (s t : Bytes) : rayStrCmp s t = strCmp s t := by
  cases s with
  | nil => cases t <;> rfl
  | cons x s =>
    cases t with
    | nil => rfl
    | cons y t => rw [rayStrCmp, strCmp, memcmp, Ordering.then_assoc, length_cons, length_cons]

lemma strCmp_eq_iff : strCmp s t = .eq ↔ s = t := by
  rw [strCmp_eq_compare]
  exact Std.LawfulEqOrd.compare_eq_iff_eq

instance : Std.TransCmp RankEnt.cmp where
  eq_swap {x y} := by
    rw [RankEnt.cmp, RankEnt.cmp, strCmp_eq_compare, strCmp_eq_compare]
    exact Std.OrientedOrd.eq_swap
  isLE_trans {x y z} h h' := by
    rw [RankEnt.cmp, strCmp_eq_compare] at *
    exact Std.TransOrd.isLE_trans h h'

lemma apply_of_isEq (h : isEq op = true) (s t : Bytes) :
    op.apply (strCmp s t) = (decide (s = t) ^^ decide (op = .ne)) := by
  cases op with
  | eq => simp [CmpOp.apply, strCmp_eq_iff]
  | ne => simp [CmpOp.apply, strCmp_eq_iff]
  | _ => cases h

lemma symAtomCmp_eq {i j : ℕ} (hs : atomStr S i = some s) (ht : atomStr S j = some t) :
    symAtomCmp S (some i) (some j) = strCmp s t := by
  rw [symAtomCmp]
  split
  · rename_i h
    obtain rfl := some.inj h
    obtain rfl := some.inj (hs.symm.trans ht)
    exact (strCmp_eq_iff.mpr rfl).symm
  · rw [bind_some, bind_some, hs, ht]
    exact rayStrCmp_eq s t

lemma scalar_eq (ha : a.Known S) (hb : b.Known S) : scalar S op a b = onShown op (a.shown S) (b.shown S) := by
  cases a with
  | sym i =>
    cases b with
    | sym j =>
      obtain ⟨i, rfl⟩ : ∃ k, i = some k := ne_none_iff_exists'.mp fun h => by rw [h] at ha; cases ha
      obtain ⟨j, rfl⟩ : ∃ k, j = some k := ne_none_iff_exists'.mp fun h => by rw [h] at hb; cases hb
      obtain ⟨s, hs⟩ := isSome_iff_exists.mp ha
      obtain ⟨t, ht⟩ := isSome_iff_exists.mp hb
      rw [bind_some] at hs ht
      have hiff : i = j ↔ s = t := by
        rw [← some_inj (a := s), ← hs, ← ht]
        exact (domainStr_inj (isSome_iff_exists.mpr ⟨s, hs⟩)).symm
      simp only [Atom.shown, onShown, bind_some, hs, ht, getD_some]
      cases op <;> simp [scalar, CmpOp.apply, strCmp_eq_iff, symAtomCmp_eq hs ht, hiff]
    | _ => rfl
  | str s => cases b <;> rfl
  | null => cases b <;> rfl
  | other => cases b <;> rfl

end

section

variable {S : Symbols} {op : CmpOp} {n : ℕ} {o l r : Operand} {a : Atom} {v : SymVec}

lemma known_elems (h : o.Fits S n) : ∀ a ∈ o.elems S n, a.Known S := by
  intro a ha
  cases o with
  | syms v =>
    obtain ⟨c, hc, rfl⟩ := mem_map.mp ha
    rw [Atom.Known, atomStr_runtimeId]
    exact h.2 c hc
  | strs _ cells =>
    obtain ⟨c, -, rfl⟩ := mem_map.mp ha
    trivial
  | others nulls =>
    obtain ⟨b, -, rfl⟩ := mem_map.mp ha
    cases b <;> trivial
  | atom b =>
    rw [eq_of_mem_replicate ha]
    exact h

lemma map_shown_elems (o : Operand) : (o.elems S n).map (Atom.shown S) = o.shown S n := by
  cases o with
  | syms v =>
    rw [Operand.elems, Operand.shown, List.map_map]
    refine map_congr_left fun c _ => ?_
    rw [comp_apply, Atom.shown, atomStr_runtimeId]
    rfl
  | strs _ cells =>
    rw [Operand.elems, Operand.shown, List.map_map]
    rfl
  | others nulls =>
    rw [Operand.elems, Operand.shown, List.map_map]
    refine map_congr_left fun b _ => ?_
    cases b <;> rfl
  | atom a => rw [Operand.elems, Operand.shown, map_replicate]

lemma zipWith_scalar {as bs : List Atom} (ha : ∀ a ∈ as, a.Known S) (hb : ∀ b ∈ bs, b.Known S) :
    List.zipWith (scalar S op) as bs = List.zipWith (onShown op) (as.map (Atom.shown S))
    (bs.map (Atom.shown S)) := by
  induction as generalizing bs with
  | nil => rfl
  | cons a as ih =>
    cases bs with
    | nil => rfl
    | cons b bs =>
      rw [zipWith_cons_cons, map_cons, map_cons, zipWith_cons_cons,
        scalar_eq (ha a (by simp)) (hb b (by simp)),
        ih (fun x hx => ha x (mem_cons_of_mem _ hx)) (fun x hx => hb x (mem_cons_of_mem _ hx))]

lemma slowPath_eq (hl : l.Fits S n) (hr : r.Fits S n) : slowPath S op l r n = elementwise S op l r n := by
  rw [slowPath, elementwise, zipWith_scalar (known_elems hl) (known_elems hr), map_shown_elems, map_shown_elems]

lemma mapM_id_some {β : Type} (l : List β) : (l.map some).mapM id = some l := by
  induction l with
  | nil => rfl
  | cons b l ih => rw [map_cons, mapM_cons, ih]; rfl

lemma zipWith_replicate_right (f : α → β → γ) (l : List α) (b : β) :
    List.zipWith f l (List.replicate l.length b) = l.map fun a => f a b := by
  induction l with
  | nil => rfl
  | cons a l ih => rw [length_cons, replicate_succ, zipWith_cons_cons, map_cons, ih]

lemma zipWith_replicate_left (f : β → α → γ) (l : List α) (b : β) :
    List.zipWith f (List.replicate l.length b) l = l.map fun a => f b a := by
  induction l with
  | nil => rfl
  | cons a l ih => rw [length_cons, replicate_succ, zipWith_cons_cons, map_cons, ih]

def SymVec.texts (S : Symbols) (v : SymVec) : List Bytes := v.cells.map fun c => (v.str S c).getD []

lemma shown_syms : (Operand.syms v).shown S n = (v.texts S).map .sym := by
  rw [Operand.shown, SymVec.texts, List.map_map]
  rfl

lemma mapM_zipWith_sym (ss ts : List Bytes) : (List.zipWith (onShown op) (ss.map .sym) (ts.map .sym)).mapM id =
      some (List.zipWith (fun s t => op.apply (strCmp s t)) ss ts) := by
  rw [← mapM_id_some, zipWith_map, map_zipWith]
  rfl

lemma mapM_zipWith_str (ss ts : List Bytes) : (List.zipWith (onShown op) (ss.map .str) (ts.map .str)).mapM id =
      some (List.zipWith (fun s t => op.apply (strCmp s t)) ss ts) := by
  rw [← mapM_id_some, zipWith_map, map_zipWith]
  rfl

lemma shown_sym_atom {id : Option ℕ} {s : Bytes} (hs : id.bind (atomStr S) = some s) :
    (Operand.atom (.sym id)).shown S n = (List.replicate n s).map .sym := by
  rw [Operand.shown, Atom.shown, hs, getD_some, map_replicate]

lemma elementwise_syms_atom {id : Option ℕ} {s : Bytes} (hv : v.cells.length = n)
    (hs : id.bind (atomStr S) = some s) :
    elementwise S op (.syms v) (.atom (.sym id)) n = some ((v.texts S).map fun x => op.apply (strCmp x s)) := by
  have hn : n = (v.texts S).length := by rw [SymVec.texts, length_map, hv]
  rw [elementwise, shown_syms, shown_sym_atom hs, mapM_zipWith_sym, hn, zipWith_replicate_right]

lemma elementwise_atom_syms {id : Option ℕ} {s : Bytes} (hv : v.cells.length = n)
    (hs : id.bind (atomStr S) = some s) :
    elementwise S op (.atom (.sym id)) (.syms v) n = some ((v.texts S).map fun x => op.apply (strCmp s x)) := by
  have hn : n = (v.texts S).length := by rw [SymVec.texts, length_map, hv]
  rw [elementwise, shown_syms, shown_sym_atom hs, mapM_zipWith_sym, hn, zipWith_replicate_left]

lemma elementwise_syms_syms {u : SymVec} : elementwise S op (.syms v) (.syms u) n =
    some (List.zipWith (fun s t => op.apply (strCmp s t)) (v.texts S) (u.texts S)) := by
  rw [elementwise, shown_syms, shown_syms, mapM_zipWith_sym]

lemma elementwise_strs_strs {f g : Bool} {ss ts : List Bytes} : elementwise S op (.strs f ss) (.strs g ts) n =
    some (List.zipWith (fun s t => op.apply (strCmp s t)) ss ts) := mapM_zipWith_str ss ts

lemma elementwise_strs_atom {t : Bytes} (hn : ss.length = n) :
    elementwise S op (.strs f ss) (.atom (.str t)) n = some (ss.map fun s => op.apply (strCmp s t)) := by
  have ht : (Operand.atom (.str t)).shown S n = (replicate n t).map .str := by
    rw [map_replicate]
    rfl
  rw [elementwise, ht, Operand.shown, mapM_zipWith_str, ← hn, zipWith_replicate_right]

lemma elementwise_atom_strs {t : Bytes} (hn : ss.length = n) :
    elementwise S op (.atom (.str t)) (.strs f ss) n = some (ss.map fun s => op.apply (strCmp t s)) := by
  have ht : (Operand.atom (.str t)).shown S n = (replicate n t).map .str := by
    rw [map_replicate]
    rfl
  rw [elementwise, ht, Operand.shown, mapM_zipWith_str, ← hn, zipWith_replicate_left]

end

section

variable {S : Symbols} {op : CmpOp} {v u : SymVec} {id : Option ℕ} {s : Bytes}

lemma clip_of_mem {c : ℕ} (hc : c ∈ v.cells) : clip v.width c = c := by
  rw [clip]
  split
  · rfl
  · exact Nat.mod_eq_of_lt (v.fits c hc)

lemma text_eq_iff (hs : id.bind (atomStr S) = some s) (hv : v.Placed S) {c : ℕ} (hc : c ∈ v.cells) :
    (v.str S c).getD [] = s ↔ id.bind (inDomain S v.domain) = some c := by
  obtain ⟨i, rfl⟩ : ∃ k, id = some k := ne_none_iff_exists'.mp fun h => by rw [h] at hs; cases hs
  rw [bind_some] at hs ⊢
  obtain ⟨x, hx⟩ := isSome_iff_exists.mp (hv c hc)
  rw [inDomain_eq_some (isSome_iff_exists.mpr ⟨s, hs⟩), hs, hx, getD_some,
    show domainStr S v.domain c = some x from hx, some_inj]

lemma eqAtom_eq_iff (hop : isEq op = true) (hs : id.bind (atomStr S) = some s) (hv : v.Placed S) :
    eqAtom S (op = .ne) v id = ((v.texts S).map fun x => op.apply (strCmp x s)) ↔ ¬ Aliases S v id := by
  rw [SymVec.texts, List.map_map]
  cases ht : id.bind (inDomain S v.domain) with
  | none =>
    refine iff_of_true ?_ ?_
    · rw [eqAtom, ht]
      refine map_congr_left fun c hc => ?_
      have hne : ¬ (v.str S c).getD [] = s := by
        rw [text_eq_iff hs hv hc, ht]
        exact fun h => some_ne_none _ h.symm
      simp [apply_of_isEq hop, hne]
    · rintro ⟨target, h, -⟩
      rw [ht] at h
      cases h
  | some target =>
    rw [eqAtom, ht, map_inj_left]
    have hcell : ∀ c ∈ v.cells, ((decide (c = clip v.width target) ^^ decide (op = .ne)) =
        ((fun x => op.apply (strCmp x s)) ∘ fun c => (v.str S c).getD []) c) ↔
          (c = clip v.width target ↔ c = target) := by
      intro c hc
      have hiff : (v.str S c).getD [] = s ↔ c = target := by
        rw [text_eq_iff hs hv hc, ht, some_inj]
        exact eq_comm
      rw [comp_apply, apply_of_isEq hop, Bool.xor_left_inj, decide_eq_decide, hiff]
    constructor
    · rintro h ⟨t, ht', hne, hmem⟩
      obtain rfl := some.inj (ht.symm.trans ht')
      exact hne (((hcell _ hmem).mp (h _ hmem)).mp rfl).symm
    · intro h c hc
      refine (hcell c hc).mpr ⟨fun he => ?_, fun he => ?_⟩
      · by_contra hne
        exact h ⟨target, ht, fun heq => hne (he.trans heq.symm), he ▸ hc⟩
      · rw [← he, clip_of_mem hc]

lemma zipWith_congr_of_mem {f g : α → β → γ} {as : List α} {bs : List β}
    (h : ∀ a ∈ as, ∀ b ∈ bs, f a b = g a b) : List.zipWith f as bs = List.zipWith g as bs := by
  induction as generalizing bs with
  | nil => rfl
  | cons a as ih =>
    cases bs with
    | nil => rfl
    | cons b bs =>
      rw [zipWith_cons_cons, zipWith_cons_cons, h a (by simp) b (by simp),
        ih fun x hx y hy => h x (mem_cons_of_mem _ hx) y (mem_cons_of_mem _ hy)]

lemma zipWith_texts (f : Bytes → Bytes → Bool) : List.zipWith f (v.texts S) (u.texts S) =
    List.zipWith (fun c d => f ((v.str S c).getD []) ((u.str S d).getD [])) v.cells u.cells := by
  rw [SymVec.texts, SymVec.texts, zipWith_map]

lemma getElem?_translation {ld rd : Option ℕ} {p : ℕ} (hp : p < (S.names ld).length) :
    ((translation S ld rd)[p]?).join = (domainStr S ld p).bind (domainFind S rd) := by
  rw [translation, getElem?_map, getElem?_range hp, map_some, join_some]

lemma eqVec_eq (hop : isEq op = true) (hv : v.Placed S) (hu : u.Placed S) :
    eqVec S (op = .ne) v u = List.zipWith (fun s t => op.apply (strCmp s t)) (v.texts S) (u.texts S) := by
  rw [zipWith_texts, eqVec]
  split
  · rename_i h
    refine zipWith_congr_of_mem fun c hc d hd => ?_
    rcases h with h | h
    · obtain ⟨x, hx⟩ := isSome_iff_exists.mp (hv c hc)
      obtain ⟨y, hy⟩ := isSome_iff_exists.mp (hu d hd)
      have hiff : x = y ↔ c = d := by
        rw [← some_inj (a := x), ← hx, ← hy, SymVec.str, SymVec.str, ← h]
        exact domainStr_inj (hv c hc)
      rw [hx, hy, getD_some, getD_some, apply_of_isEq hop]
      simp only [hiff]
    · have hlt := domainStr_isSome.mp (hv c hc)
      omega
  · refine zipWith_congr_of_mem fun c hc d hd => ?_
    obtain ⟨x, hx⟩ := isSome_iff_exists.mp (hv c hc)
    obtain ⟨y, hy⟩ := isSome_iff_exists.mp (hu d hd)
    have hiff : ((translation S v.domain u.domain)[c]?).join = some d ↔ x = y := by
      rw [getElem?_translation (domainStr_isSome.mp (hv c hc)), show domainStr S v.domain c = some x from hx,
        bind_some, domainFind_eq_some, show domainStr S u.domain d = some y from hy, some_inj]
      exact eq_comm
    rw [hx, hy, getD_some, getD_some, apply_of_isEq hop]
    simp only [hiff]

end

section

variable {S : Symbols} {op : CmpOp} {v u : SymVec} {s : Bytes} {ld rd : Option ℕ} {i : ℕ}

lemma ordAtom_eq (hv : v.Placed S) (vecLeft : Bool) : ordAtom S op v s vecLeft =
    (v.texts S).map fun x => op.apply (if vecLeft then strCmp x s else strCmp s x) := by
  rw [SymVec.texts, List.map_map, ordAtom]
  refine map_congr_left fun c hc => ?_
  have hc' : c < (S.names v.domain).length := domainStr_isSome.mp (hv c hc)
  have hv' : (verdicts S v.domain s vecLeft)[c]? =
      some (if vecLeft then strCmp ((v.str S c).getD []) s else (strCmp ((v.str S c).getD []) s).swap) := by
    rw [verdicts, getElem?_map, getElem?_range hc', map_some]
    rfl
  rw [hv', getD_some, comp_apply]
  cases vecLeft with
  | true => rfl
  | false =>
    congr 1
    rw [strCmp_eq_compare, strCmp_eq_compare]
    exact Std.OrientedOrd.eq_swap.symm

lemma mem_entries (hi : i < (S.names d).length) : (⟨(domainStr S d i).getD [], i, f⟩ : RankEnt) ∈ entries S d f :=
  mem_map.mpr ⟨i, mem_range.mpr hi, rfl⟩

lemma eq_of_mem_entries {x : RankEnt} (hx : x ∈ entries S d f) : x = ⟨(domainStr S d x.id).getD [], x.id, f⟩ := by
  obtain ⟨k, -, rfl⟩ := mem_map.mp hx
  rfl

def ranked (S : Symbols) (ld rd : Option ℕ) : List RankEnt :=
  if rd = ld then entries S ld false else entries S ld false ++ entries S rd true

lemma mem_ranked (x : RankEnt) : x ∈ ranked S ld rd ↔ ∃ r, (x, r) ∈ symUnionRanks S ld rd := by
  rw [← (sort_perm (fun x y => (RankEnt.cmp x y).isLE) (ranked S ld rd)).mem_iff,
    ← map_fst_ranks RankEnt.cmp (sort _ _), List.mem_map]
  constructor
  · rintro ⟨p, hp, rfl⟩
    exact ⟨p.2, hp⟩
  · rintro ⟨r, hr⟩
    exact ⟨(x, r), hr, rfl⟩

lemma ranks_of_ranked {x y : RankEnt} {r k : ℕ} (hx : (x, r) ∈ symUnionRanks S ld rd)
    (hy : (y, k) ∈ symUnionRanks S ld rd) : compare r k = strCmp x.str y.str := by
  have htotal : ∀ x y, ((RankEnt.cmp x y).isLE || (RankEnt.cmp y x).isLE) = true := by
    intro x y
    have h : RankEnt.cmp x y = (RankEnt.cmp y x).swap := Std.OrientedCmp.eq_swap
    rw [h]
    cases RankEnt.cmp y x <;> rfl
  exact ranks_agree (sort_sorted (fun _ _ _ => Std.TransCmp.isLE_trans) htotal (ranked S ld rd)) hx hy

lemma rankOf_mem (hd : f = false ∧ d = ld ∨ f = true ∧ d = rd ∧ rd ≠ ld) (hi : i < (S.names d).length) :
    ∃ x, (x, rankOf (symUnionRanks S ld rd) f i) ∈ symUnionRanks S ld rd ∧ x.str = (domainStr S d i).getD [] := by
  have hmem : (⟨(domainStr S d i).getD [], i, f⟩ : RankEnt) ∈ ranked S ld rd := by
    rw [ranked]
    rcases hd with ⟨rfl, rfl⟩ | ⟨rfl, rfl, hne⟩
    · split
      · exact mem_entries hi
      · exact mem_append_left _ (mem_entries hi)
    · rw [if_neg hne]
      exact mem_append_right _ (mem_entries hi)
  obtain ⟨r, hr⟩ := (mem_ranked _).mp hmem
  cases hfind : (symUnionRanks S ld rd).find? fun p => p.1.fromR = f ∧ p.1.id = i with
  | none =>
    have := find?_eq_none.mp hfind _ hr
    simp at this
  | some p =>
    have hp : p ∈ symUnionRanks S ld rd := mem_of_find?_eq_some hfind
    have hprop : p.1.fromR = f ∧ p.1.id = i := by simpa using find?_some hfind
    refine ⟨p.1, ?_, ?_⟩
    · rw [rankOf, hfind]
      exact hp
    · have hin : p.1 ∈ ranked S ld rd := (mem_ranked _).mpr ⟨p.2, hp⟩
      rw [ranked] at hin
      rcases hd with ⟨rfl, rfl⟩ | ⟨rfl, rfl, hne⟩
      · have hent : p.1 ∈ entries S d false := by
          split at hin
          · exact hin
          · rcases mem_append.mp hin with h | h
            · exact h
            · have := congrArg RankEnt.fromR (eq_of_mem_entries h)
              rw [hprop.1] at this
              cases this
        rw [eq_of_mem_entries hent, hprop.2]
      · rw [if_neg hne] at hin
        rcases mem_append.mp hin with h | h
        · have := congrArg RankEnt.fromR (eq_of_mem_entries h)
          rw [hprop.1] at this
          cases this
        · rw [eq_of_mem_entries h, hprop.2]

lemma ordVec_eq (hv : v.Placed S) (hu : u.Placed S) :
    ordVec S op v u = List.zipWith (fun s t => op.apply (strCmp s t)) (v.texts S) (u.texts S) := by
  rw [zipWith_texts, ordVec]
  refine zipWith_congr_of_mem fun c hc d hd => ?_
  have hl : false = false ∧ v.domain = v.domain ∨ false = true ∧ v.domain = u.domain ∧ u.domain ≠ v.domain :=
    .inl ⟨rfl, rfl⟩
  obtain ⟨x, hx, hxs⟩ := rankOf_mem hl (domainStr_isSome.mp (hv c hc))
  have hr : (decide (u.domain ≠ v.domain) = false ∧ u.domain = v.domain) ∨
      (decide (u.domain ≠ v.domain) = true ∧ u.domain = u.domain ∧ u.domain ≠ v.domain) := by
    by_cases h : u.domain = v.domain
    · exact .inl ⟨by simp [h], h⟩
    · exact .inr ⟨by simp [h], rfl, h⟩
  obtain ⟨y, hy, hys⟩ := rankOf_mem hr (domainStr_isSome.mp (hu d hd))
  rw [ranks_of_ranked hx hy, hxs, hys]
  rfl

end

section

variable {S : Symbols} {op : CmpOp} {n : ℕ} {v u : SymVec} {id : Option ℕ} {a : Atom}

lemma atom_right (hv : (Operand.syms v).Fits S n) (ha : (Operand.atom (.sym id)).Fits S n) :
    atomicMapBinaryOp S op (.syms v) (.atom (.sym id)) n = elementwise S op (.syms v) (.atom (.sym id)) n ↔
      ¬ (isEq op = true ∧ Aliases S v id) := by
  obtain ⟨s, hs⟩ := isSome_iff_exists.mp ha
  by_cases hop : isEq op = true
  · rw [elementwise_syms_atom hv.1 hs, atomicMapBinaryOp, if_pos hop, some_inj, eqAtom_eq_iff hop hs hv.2]
    simp [hop]
  · refine iff_of_true ?_ fun h => hop h.1
    rw [atomicMapBinaryOp, if_neg hop, hs]
    simp only
    split
    · rw [elementwise_syms_atom hv.1 hs, ordAtom_eq hv.2]
      rfl
    · exact slowPath_eq hv ha

lemma apply_swap_of_isEq (hop : isEq op = true) (s t : Bytes) : op.apply (strCmp s t) = op.apply (strCmp t s) := by
  rw [apply_of_isEq hop, apply_of_isEq hop]
  congr 2
  rw [eq_iff_iff]
  exact eq_comm

lemma atom_left (hv : (Operand.syms v).Fits S n) (ha : (Operand.atom (.sym id)).Fits S n) :
    atomicMapBinaryOp S op (.atom (.sym id)) (.syms v) n = elementwise S op (.atom (.sym id)) (.syms v) n ↔
      ¬ (isEq op = true ∧ Aliases S v id) := by
  obtain ⟨s, hs⟩ := isSome_iff_exists.mp ha
  by_cases hop : isEq op = true
  · rw [elementwise_atom_syms hv.1 hs, atomicMapBinaryOp, if_pos hop, some_inj]
    simp only [apply_swap_of_isEq hop s]
    rw [eqAtom_eq_iff hop hs hv.2]
    simp [hop]
  · refine iff_of_true ?_ fun h => hop h.1
    rw [atomicMapBinaryOp, if_neg hop, hs]
    simp only
    split
    · rw [elementwise_atom_syms hv.1 hs, ordAtom_eq hv.2]
      rfl
    · exact slowPath_eq ha hv

lemma syms_syms (hv : (Operand.syms v).Fits S n) (hu : (Operand.syms u).Fits S n) :
    atomicMapBinaryOp S op (.syms v) (.syms u) n = elementwise S op (.syms v) (.syms u) n := by
  rw [atomicMapBinaryOp]
  split
  · rename_i hop
    split
    · rw [elementwise_syms_syms, eqVec_eq hop hv.2 hu.2]
    · exact slowPath_eq hv hu
  · simp only
    generalize (if u.domain = v.domain then 0 else (S.names u.domain).length) = dr
    split
    · rw [elementwise_syms_syms, ordVec_eq hv.2 hu.2]
    · exact slowPath_eq hv hu

theorem atomicMapBinaryOp_eq_iff {l r : Operand} (hl : l.Fits S n) (hr : r.Fits S n) :
    atomicMapBinaryOp S op l r n = elementwise S op l r n ↔ ¬ (isEq op = true ∧ AliasedPair S l r) := by
  have hslow : slowPath S op l r n = elementwise S op l r n := slowPath_eq hl hr
  cases l with
  | syms v =>
    cases r with
    | syms u => exact iff_of_true (syms_syms hl hr) fun h => h.2
    | strs f ts => exact iff_of_true hslow fun h => h.2
    | others nulls => exact iff_of_true hslow fun h => h.2
    | atom a =>
      cases a with
      | sym id => exact atom_right hl hr
      | str s => exact iff_of_true hslow fun h => h.2
      | null => exact iff_of_true hslow fun h => h.2
      | other => exact iff_of_true hslow fun h => h.2
  | strs f ss =>
    cases r with
    | syms u => exact iff_of_true (by cases f <;> exact hslow) fun h => h.2
    | strs g ts =>
      cases f <;> cases g
      · exact iff_of_true elementwise_strs_strs.symm fun h => h.2
      all_goals exact iff_of_true hslow fun h => h.2
    | others nulls => exact iff_of_true (by cases f <;> exact hslow) fun h => h.2
    | atom a =>
      cases a with
      | sym id => exact iff_of_true (by cases f <;> exact hslow) fun h => h.2
      | str t =>
        cases f with
        | false => exact iff_of_true (elementwise_strs_atom hl).symm fun h => h.2
        | true => exact iff_of_true hslow fun h => h.2
      | null => exact iff_of_true (by cases f <;> exact hslow) fun h => h.2
      | other => exact iff_of_true (by cases f <;> exact hslow) fun h => h.2
  | others nulls => exact iff_of_true (by cases r <;> exact hslow) fun h => by cases r <;> exact h.2
  | atom a =>
    cases r with
    | syms u =>
      cases a with
      | sym id => exact atom_left hr hl
      | str s => exact iff_of_true hslow fun h => h.2
      | null => exact iff_of_true hslow fun h => h.2
      | other => exact iff_of_true hslow fun h => h.2
    | strs f ts =>
      cases a with
      | sym id => exact iff_of_true (by cases f <;> exact hslow) fun h => h.2
      | str s =>
        cases f with
        | false => exact iff_of_true (elementwise_atom_strs hr).symm fun h => h.2
        | true => exact iff_of_true hslow fun h => h.2
      | null => exact iff_of_true (by cases f <;> exact hslow) fun h => h.2
      | other => exact iff_of_true (by cases f <;> exact hslow) fun h => h.2
    | others nulls => exact iff_of_true (by cases a <;> exact hslow) fun h => by cases a <;> exact h.2
    | atom b =>
      exact iff_of_true (by cases a <;> cases b <;> exact hslow) fun h => by cases a <;> cases b <;> exact h.2

end

def lengthNames : Symbols where
  runtime := (List.range 300).map fun i => List.replicate i 0
  file := fun _ => []
  runtime_nodup := List.Nodup.map (fun i j h => by simpa using congrArg List.length h) List.nodup_range
  file_nodup := fun _ => List.nodup_nil
  file_sub := fun _ s hs => (List.not_mem_nil hs).elim

lemma atomStr_lengthNames {i : ℕ} (hi : i < 300) : atomStr lengthNames i = some (List.replicate i 0) := by
  show ((range 300).map fun i => replicate i (0 : UInt8))[i]? = _
  rw [getElem?_map, getElem?_range hi, map_some]

def narrowOne : SymVec := ⟨.w8, none, [1], by decide⟩

def narrowFour : SymVec := ⟨.w8, none, [2, 0, 5, 2], by decide⟩

lemma narrow_fits {v : SymVec} (hdomain : v.domain = none) (hsmall : ∀ c ∈ v.cells, c < 300) :
    (Operand.syms v).Fits lengthNames v.cells.length := by
  refine ⟨rfl, fun c hc => ?_⟩
  rw [SymVec.str, hdomain]
  exact isSome_iff_exists.mpr ⟨_, atomStr_lengthNames (hsmall c hc)⟩

lemma narrowOne_fits : (Operand.syms narrowOne).Fits lengthNames 1 := narrow_fits rfl (by decide)

lemma atom_fits {i n : ℕ} (hi : i < 300) : (Operand.atom (.sym (some i))).Fits lengthNames n :=
  isSome_iff_exists.mpr ⟨_, atomStr_lengthNames hi⟩

theorem atomicMapBinaryOp_eq_of_fitting_id :
    atomicMapBinaryOp lengthNames .ne (.syms narrowFour) (.atom (.sym (some 2))) 4 =
      elementwise lengthNames .ne (.syms narrowFour) (.atom (.sym (some 2))) 4 := by
  refine (atomicMapBinaryOp_eq_iff (narrow_fits (v := narrowFour) rfl (by decide)) (atom_fits (by omega))).mpr ?_
  rintro ⟨-, target, ht, hne, -⟩
  obtain rfl := some.inj ht
  exact hne rfl

theorem wide_id_equals_narrow_cell :
    ¬ ∀ (S : Symbols) (op : CmpOp) (l r : Operand) (n : ℕ), l.Fits S n → r.Fits S n →
    atomicMapBinaryOp S op l r n = elementwise S op l r n := by
  intro h
  have hall := h lengthNames .eq (.syms narrowOne) (.atom (.sym (some 257))) 1 narrowOne_fits
    (atom_fits (by omega))
  have hs : (some 257).bind (atomStr lengthNames) = some (replicate 257 0) := atomStr_lengthNames (by omega)
  have hne : ¬ ((narrowOne.str lengthNames 1).getD [] = replicate 257 0) := by
    rw [SymVec.str, show domainStr lengthNames narrowOne.domain 1 = some (replicate 1 0) from
      atomStr_lengthNames (by omega), getD_some]
    intro he
    have hlen := congrArg length he
    rw [length_replicate, length_replicate] at hlen
    omega
  rw [elementwise_syms_atom narrowOne_fits.1 hs] at hall
  have htexts : (narrowOne.texts lengthNames).map
      (fun x => CmpOp.eq.apply (strCmp x (replicate 257 0))) = [false] := by
    show [CmpOp.eq.apply (strCmp ((narrowOne.str lengthNames 1).getD []) (replicate 257 0))] = [false]
    rw [apply_of_isEq rfl, decide_eq_false hne]
    rfl
  rw [htexts] at hall
  exact absurd hall (by decide)

end Rayforce.Symvec
