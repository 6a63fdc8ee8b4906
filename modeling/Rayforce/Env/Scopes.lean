import Rayforce.Env.Path
import Rayforce.Symbol.Dotted

/-! The global bindings and the stack of local scopes. -/

namespace Rayforce.Env

open Library.Words Library.Ordered Rayforce.Symbol

structure Names where
  str : Sym → Option Bytes
  segs : Sym → List Sym
  str_inj : ∀ s t b, str s = some b → str t = some b → s = t
  segs_dotted : ∀ s b, str s = some b → Dotted b → (segs s).map str = (pieces b).map some
  segs_plain : ∀ s, (∀ b, str s = some b → ¬ Dotted b) → segs s = []

abbrev Store := Entries Sym Val

structure Scopes where
  global : Store
  frames : List Store

def envCap : ℕ := 1024

def scopeCap : ℕ := 64

def hookNames : List Bytes :=
  [".ipc.on.open", ".ipc.on.close", ".ipc.on.sync", ".ipc.on.async", ".ipc.on.auth"].map fun s => s.toUTF8.toList

section

variable (N : Names)

def Scopes.lookupFlat (E : Scopes) (s : Sym) : Option Val := (E.frames ++ [E.global]).findSome? (lookup s)

def rayEnvGet (E : Scopes) (s : Sym) : Option Val :=
  (E.lookupFlat s).or (match N.segs s with
    | h :: rest => walk rest (E.lookupFlat h)
    | [] => none)

end

section

variable (N : Names)

def bindSlot (cap : Option ℕ) (st : Store) (s : Sym) : Option Val → Except EnvErr Store
  | none => .ok (drop s st)
  | some v => if s ∈ keys st ∨ ∀ c ∈ cap, st.length < c then .ok (put s v st) else .error .oom

def envSetDotted (cap : Option ℕ) (st : Store) (segs : List Sym) (v : Option Val) : Except EnvErr Store :=
  match segs with
  | h :: t :: rest =>
    match v with
    | some x => (setPath x (lookup h st) (t :: rest)).bind fun cur => bindSlot cap st h (some cur)
    | none => (delPath (lookup h st) (t :: rest)).bind fun r =>
      match r with
      | none => .ok st
      | some cur => bindSlot cap st h (if cur.len = 0 then none else some cur)
  | _ => .error .type

def setIn (cap : Option ℕ) (st : Store) (s : Sym) (v : Option Val) : Except EnvErr Store :=
  if N.segs s = [] then bindSlot cap st s v else envSetDotted cap st (N.segs s) v

def isReserved (s : Sym) : Prop := ∃ b, N.str s = some b ∧ b.head? = some dot

def isIpcHook (s : Sym) : Prop := ∃ b ∈ hookNames, N.str s = some b

instance (s : Sym) : Decidable (isReserved N s) := by
  rw [isReserved]
  exact decidable_of_iff ((N.str s).any fun b => b.head? = some dot) (by simp [Option.any_eq_true])

instance (s : Sym) : Decidable (isIpcHook N s) := inferInstanceAs (Decidable (∃ b ∈ hookNames, N.str s = some b))

def Refused (s : Sym) : Prop := isReserved N s ∧ ¬ isIpcHook N s

instance (s : Sym) : Decidable (Refused N s) := inferInstanceAs (Decidable (_ ∧ _))

def rayEnvSet (E : Scopes) (s : Sym) (v : Option Val) : Except EnvErr Scopes :=
  if Refused N s then .error .reserved
  else (setIn N (some envCap) E.global s v).map fun st => { E with global := st }

def rayEnvSetLocal (E : Scopes) (s : Sym) (v : Option Val) : Except EnvErr Scopes :=
  if Refused N s then .error .reserved
  else match E.frames with
    | [] => rayEnvSet N E s v
    | f :: fs => (setIn N none f s v).map fun st => { E with frames := st :: fs }

def rayEnvPushScope (E : Scopes) : Except EnvErr Scopes :=
  if scopeCap ≤ E.frames.length then .error .oom else .ok { E with frames := [] :: E.frames }

def rayEnvPopScope (E : Scopes) : Scopes := { E with frames := E.frames.tail }

inductive EnvOp
  | set (s : Sym) (v : Option Val)
  | setLocal (s : Sym) (v : Option Val)
  | push
  | pop

def envCall (E : Scopes) : EnvOp → Except EnvErr Scopes
  | .set s v => rayEnvSet N E s v
  | .setLocal s v => rayEnvSetLocal N E s v
  | .push => rayEnvPushScope E
  | .pop => .ok (rayEnvPopScope E)

def envStep (E : Scopes) (op : EnvOp) : Scopes :=
  match envCall N E op with
  | .ok E' => E'
  | .error _ => E

def envRun (E : Scopes) (ops : List EnvOp) : Scopes := ops.foldl (envStep N) E

def rayEnvBindFlat (E : Scopes) (b : Sym × Val) : Scopes :=
  match bindSlot (some envCap) E.global b.1 (some b.2) with
  | .ok st => { E with global := st }
  | .error _ => E

def registered (builtins : List (Sym × Val)) : Scopes := builtins.foldl rayEnvBindFlat ⟨[], []⟩

end

section

variable (N : Names)

def Names.path (s : Sym) : List Sym := if N.segs s = [] then [s] else N.segs s

def Related (s t : Sym) : Prop := N.path s <+: N.path t ∨ N.path t <+: N.path s

def Names.head (s : Sym) : Sym :=
  match N.segs s with
  | [] => s
  | h :: _ => h

def Names.rest (s : Sym) : List Sym := (N.segs s).tail

variable {N} {s t : Sym}

lemma dotted_of_segs (h : N.segs s ≠ []) :
    ∃ b, N.str s = some b ∧ Dotted b ∧ (N.segs s).map N.str = (pieces b).map some := by
  by_contra hc
  refine h (N.segs_plain s fun b hb hd => hc ⟨b, hb, hd, N.segs_dotted s b hb hd⟩)

lemma two_le_segs (h : N.segs s ≠ []) : 2 ≤ (N.segs s).length := by
  obtain ⟨b, -, hd, hs⟩ := dotted_of_segs h
  have hlen := congrArg List.length hs
  rw [List.length_map, List.length_map] at hlen
  rw [hlen]
  exact hd.1

lemma exists_segs (h : N.segs s ≠ []) : ∃ a b l, N.segs s = a :: b :: l := by
  have hlen := two_le_segs h
  match hs : N.segs s with
  | [] => exact (h hs).elim
  | [a] =>
    rw [hs] at hlen
    simp at hlen
  | a :: b :: l => exact ⟨a, b, l, rfl⟩

lemma segs_of_mem (h : t ∈ N.segs s) : N.segs t = [] := by
  obtain ⟨b, -, -, hs⟩ := dotted_of_segs (List.ne_nil_of_mem h)
  have hmem : N.str t ∈ (pieces b).map some := by
    rw [← hs]
    exact List.mem_map_of_mem h
  obtain ⟨g, hg, he⟩ := List.mem_map.mp hmem
  refine N.segs_plain t fun b' hb' => ?_
  obtain rfl := Option.some.inj (he.trans hb')
  exact not_dotted_of_mem hg

lemma path_eq (s : Sym) : N.path s = N.head s :: N.rest s := by
  rw [Names.path, Names.head, Names.rest]
  cases N.segs s with
  | nil => rfl
  | cons h t => rfl

lemma head_of_plain (h : N.segs s = []) : N.head s = s := by rw [Names.head, h]

lemma segs_head (s : Sym) : N.segs (N.head s) = [] := by
  cases hs : N.segs s with
  | nil => rw [head_of_plain hs, hs]
  | cons h t =>
    have hh : N.head s = h := by rw [Names.head, hs]
    rw [hh]
    exact segs_of_mem (s := s) (by rw [hs]; exact List.mem_cons_self)

lemma ne_head (h : ¬ Related N s t) : t ≠ N.head s := by
  rintro rfl
  refine h (.inr ?_)
  rw [Names.path, if_pos (segs_head s), path_eq]
  exact List.cons_prefix_cons.mpr ⟨rfl, List.nil_prefix⟩

end

section

variable (N : Names) (st : Store)

def pathGet : List Sym → Option Val
  | [] => none
  | h :: rest => walk rest (lookup h st)

def ClearIn (s : Sym) : Prop := ∀ h rest, N.path s = h :: rest → Clear (lookup h st) rest

structure Bound (s : Sym) (x : Val) (st' : Store) : Prop where
  found : pathGet st' (N.path s) = some x
  others : ∀ q, ¬ q <+: N.path s → ¬ N.path s <+: q → pathGet st' q = pathGet st q
  heads : ∀ t, some t ≠ (N.path s).head? → lookup t st' = lookup t st

structure Unbound (s : Sym) (st' : Store) : Prop where
  gone : pathGet st' (N.path s) = none
  others : ∀ q, ¬ q <+: N.path s → ¬ N.path s <+: q → pathGet st' q = pathGet st q
  heads : ∀ t, some t ≠ (N.path s).head? → lookup t st' = lookup t st
  pruned : pathGet st (N.path s) ≠ none → ∀ p, p <+: N.path s → p ≠ [] → ∀ w, pathGet st' p = some w → w.len ≠ 0

variable {N st} {s t h : Sym} {rest p : List Sym} {x w cur : Val} {st' : Store} {o : Option Val} {cap : Option ℕ}

lemma pathGet_replaced (hl : ∀ t, lookup t st' = if t = h then o else lookup t st)
    (hrest : ∀ q, ¬ q <+: rest → ¬ rest <+: q → walk q o = walk q (lookup h st)) :
    ∀ q, ¬ q <+: h :: rest → ¬ h :: rest <+: q → pathGet st' q = pathGet st q := by
  intro q hq hq'
  cases q with
  | nil => exact (hq List.nil_prefix).elim
  | cons t q =>
    rw [pathGet, pathGet, hl]
    by_cases hth : t = h
    · obtain rfl := hth
      rw [if_pos rfl]
      exact hrest q (fun hp => hq (List.cons_prefix_cons.mpr ⟨rfl, hp⟩)) fun hp =>
        hq' (List.cons_prefix_cons.mpr ⟨rfl, hp⟩)
    · rw [if_neg hth]

lemma bindSlot_some (hb : bindSlot cap st h (some x) = .ok st') : st' = put h x st := by
  rw [bindSlot] at hb
  split at hb
  · exact (Except.ok.inj hb).symm
  · cases hb

lemma lookup_put_of (h : Sym) (x : Val) (st : Store) :
    ∀ t, lookup t (put h x st) = if t = h then some x else lookup t st := fun _ => lookup_put

lemma setIn_bound (hc : ClearIn N st s) (hs : setIn N cap st s (some x) = .ok st') : Bound N st s x st' := by
  by_cases hp : N.segs s = []
  · have hpath : N.path s = [s] := if_pos hp
    rw [setIn, if_pos hp] at hs
    obtain rfl := bindSlot_some hs
    constructor
    · rw [hpath, pathGet, lookup_put, if_pos rfl]
      rfl
    · rw [hpath]
      exact pathGet_replaced (lookup_put_of s x st) fun q _ hq => (hq List.nil_prefix).elim
    · intro t ht
      rw [hpath] at ht
      rw [lookup_put, if_neg fun he => ht (by rw [he]; rfl)]
  · obtain ⟨a, b, l, hsegs⟩ := exists_segs hp
    have hpath : N.path s = a :: b :: l := by rw [Names.path, if_neg hp, hsegs]
    rw [setIn, if_neg hp, hsegs, envSetDotted] at hs
    cases hcur : setPath x (lookup a st) (b :: l) with
    | error e =>
      rw [hcur] at hs
      cases hs
    | ok cur =>
      rw [hcur] at hs
      obtain rfl := bindSlot_some hs
      have hw := setPath_written (hc a _ hpath) hcur
      constructor
      · rw [hpath, pathGet, lookup_put, if_pos rfl, hw.found]
      · rw [hpath]
        exact pathGet_replaced (lookup_put_of a cur st) hw.others
      · intro t ht
        rw [hpath] at ht
        rw [lookup_put, if_neg fun he => ht (by rw [he]; rfl)]

lemma lookup_drop_of (hn : (keys st).Nodup) (h : Sym) :
    ∀ t, lookup t (drop h st) = if t = h then none else lookup t st := fun _ => lookup_drop hn

lemma setIn_unbound (hn : (keys st).Nodup) (hc : ClearIn N st s) (hs : setIn N cap st s none = .ok st') :
    Unbound N st s st' := by
  by_cases hp : N.segs s = []
  · have hpath : N.path s = [s] := if_pos hp
    rw [setIn, if_pos hp] at hs
    obtain rfl := Except.ok.inj hs
    have hgone : pathGet (drop s st) [s] = none := by
      rw [pathGet, lookup_drop hn, if_pos rfl]
      rfl
    refine ⟨by rw [hpath, hgone], ?_, fun t ht => ?_, fun _ p hpre hne w hw => ?_⟩
    · rw [hpath]
      exact pathGet_replaced (lookup_drop_of hn s) fun q _ hq => (hq List.nil_prefix).elim
    · rw [hpath] at ht
      rw [lookup_drop hn, if_neg fun he => ht (by rw [he]; rfl)]
    · rw [hpath] at hpre
      obtain rfl : p = [s] := by
        cases p with
        | nil => exact (hne rfl).elim
        | cons t p =>
          obtain ⟨rfl, hp'⟩ := List.cons_prefix_cons.mp hpre
          rw [List.prefix_nil.mp hp']
      rw [hgone] at hw
      cases hw
  · obtain ⟨a, b, l, hsegs⟩ := exists_segs hp
    have hpath : N.path s = a :: b :: l := by rw [Names.path, if_neg hp, hsegs]
    rw [setIn, if_neg hp, hsegs, envSetDotted] at hs
    cases hcur : delPath (lookup a st) (b :: l) with
    | error e =>
      rw [hcur] at hs
      cases hs
    | ok r =>
      rw [hcur] at hs
      cases r with
      | none =>
        obtain rfl := Except.ok.inj hs
        have hgone : pathGet st (N.path s) = none := by
          rw [hpath]
          exact delPath_absent (List.cons_ne_nil _ _) hcur
        exact ⟨hgone, fun _ _ _ => rfl, fun _ _ => rfl, fun hne => (hne hgone).elim⟩
      | some cur =>
        have hd := delPath_deleted (hc a _ hpath) hcur
        change bindSlot cap st a (if cur.len = 0 then none else some cur) = .ok st' at hs
        obtain ⟨d, rfl, hsp⟩ := hd.space
        by_cases hlen : (Val.dict d).len = 0
        · -- the whole namespace goes
          rw [if_pos hlen] at hs
          obtain rfl := Except.ok.inj hs
          refine ⟨?_, ?_, fun t ht => ?_, fun _ p hpre hne w hw => ?_⟩
          · rw [hpath, pathGet, lookup_drop hn, if_pos rfl, walk_none]
          · rw [hpath]
            refine pathGet_replaced (lookup_drop_of hn a) fun q hq hq' => ?_
            have hqne : q ≠ [] := by
              rintro rfl
              exact hq List.nil_prefix
            rw [← hd.others q hq hq', walk_none, walk_empty hsp hlen hqne]
          · rw [hpath] at ht
            rw [lookup_drop hn, if_neg fun he => ht (by rw [he]; rfl)]
          · rw [hpath] at hpre
            cases p with
            | nil => exact (hne rfl).elim
            | cons t p =>
              obtain ⟨rfl, -⟩ := List.cons_prefix_cons.mp hpre
              rw [pathGet, lookup_drop hn, if_pos rfl, walk_none] at hw
              cases hw
        · rw [if_neg hlen] at hs
          obtain rfl := bindSlot_some hs
          refine ⟨?_, ?_, fun t ht => ?_, fun _ p hpre hne w hw => ?_⟩
          · rw [hpath, pathGet, lookup_put, if_pos rfl, hd.gone]
          · rw [hpath]
            exact pathGet_replaced (lookup_put_of a _ st) hd.others
          · rw [hpath] at ht
            rw [lookup_put, if_neg fun he => ht (by rw [he]; rfl)]
          · rw [hpath] at hpre
            cases p with
            | nil => exact (hne rfl).elim
            | cons t p =>
              obtain ⟨rfl, hp'⟩ := List.cons_prefix_cons.mp hpre
              rw [pathGet, lookup_put, if_pos rfl] at hw
              by_cases hpe : p = []
              · subst hpe
                obtain rfl := Option.some.inj hw
                exact hlen
              · exact hd.pruned p hp' hpe w hw

lemma setIn_type (hpre : p <+: N.path s) (hne : p ≠ N.path s) (hw : pathGet st p = some w)
    (hd : w.isDict = false) :
    setIn N cap st s (some x) = .error .type := by
  cases p with
  | nil => cases hw
  | cons h q =>
    have hp : N.segs s ≠ [] := by
      intro hp
      rw [Names.path, if_pos hp] at hpre hne
      obtain ⟨rfl, hq⟩ := List.cons_prefix_cons.mp hpre
      exact hne (by rw [List.prefix_nil.mp hq])
    obtain ⟨a, b, l, hsegs⟩ := exists_segs hp
    have hpath : N.path s = a :: b :: l := by rw [Names.path, if_neg hp, hsegs]
    rw [hpath] at hpre hne
    obtain ⟨rfl, hq⟩ := List.cons_prefix_cons.mp hpre
    rw [setIn, if_neg hp, hsegs, envSetDotted, setPath_type hq (fun he => hne (by rw [he])) hw hd]
    rfl

end

end Rayforce.Env
