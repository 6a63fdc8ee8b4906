import Rayforce.Env.Value

namespace Rayforce.Env

open Rayforce.Dict List Option

inductive EnvErr
  | type
  | oom
  | reserved
  deriving DecidableEq

def walk (path : List Sym) (v : Option Val) : Option Val := path.foldl (fun v s => v.bind (Val.containerProbe s)) v

def Enterable : Option Val → Prop
  | none => True
  | some v => v.isDict = true

instance (v : Option Val) : Decidable (Enterable v) := by
  cases v with
  | none => exact isTrue trivial
  | some v => exact inferInstanceAs (Decidable (v.isDict = true))

def orOom {α : Type} : Option α → Except EnvErr α
  | some a => .ok a
  | none => .error .oom

def setPath (x : Val) : Option Val → List Sym → Except EnvErr Val
  | _, [] => .ok x
  | v, s :: path =>
    if Enterable v then (setPath x (v.bind (Val.probe s)) path).bind fun cur =>
      orOom ((v.getD .fresh).upsert s cur)
    else .error .type

def delLeaf (v : Option Val) (s : Sym) : Except EnvErr (Option Val) :=
  match v with
  | none => .ok none
  | some d => if (d.probe s).isNone then .ok none else (orOom (d.remove s)).map some

def rebuilt (v : Option Val) (s : Sym) : Option Val → Except EnvErr (Option Val)
  | none => .ok none
  | some cur =>
    (orOom (if cur.len = 0 then (v.getD .fresh).remove s else (v.getD .fresh).upsert s cur)).map some

def delPath : Option Val → List Sym → Except EnvErr (Option Val)
  | _, [] => .ok none
  | v, s :: path =>
    if Enterable v then
      if path = [] then delLeaf v s else (delPath (v.bind (Val.probe s)) path).bind (rebuilt v s)
    else .error .type

def Clear : Option Val → List Sym → Prop
  | _, [] => True
  | v, s :: path => (∀ d, v = some d → d.isDict = true → d.Space s) ∧ Clear (v.bind (Val.probe s)) path

section

variable {s t : Sym} {path q : List Sym} {v : Option Val}

lemma walk_cons : walk (s :: path) v = walk path (v.bind (Val.containerProbe s)) := rfl

@[simp] lemma walk_none (path : List Sym) : walk path none = none := by
  induction path with
  | nil => rfl
  | cons s path ih => rw [walk_cons, bind_none, ih]

lemma bind_containerProbe (h : Enterable v) (t : Sym) : v.bind (Val.containerProbe t) = v.bind (Val.probe t) := by
  cases v with
  | none => rfl
  | some d => exact containerProbe_of_isDict h t

lemma walk_cons_of_enterable (h : Enterable v) : walk (s :: path) v = walk path (v.bind (Val.probe s)) := by
  rw [walk_cons, bind_containerProbe h]

lemma parent_space (hc : Clear v (s :: path)) (h : Enterable v) : (v.getD .fresh).Space s := by
  cases v with
  | none => exact space_fresh s
  | some d => exact hc.1 d rfl h

lemma parent_probe (v : Option Val) (t : Sym) : (v.getD .fresh).probe t = v.bind (Val.probe t) := by
  cases v with
  | none => exact probe_fresh t
  | some d => rfl

lemma walk_replaced {d' : RayDict Val} {o : Option Val} (he : Enterable v)
    (hp : ∀ t, (Val.dict d').probe t = if t = s then o else (v.getD .fresh).probe t)
    (hrest : ∀ q, ¬ q <+: path → ¬ path <+: q → walk q o = walk q (v.bind (Val.probe s))) :
    ∀ q, ¬ q <+: s :: path → ¬ s :: path <+: q → walk q (some (.dict d')) = walk q v := by
  intro q hq hq'
  cases q with
  | nil => exact (hq nil_prefix).elim
  | cons t q =>
    have hd : Enterable (some (Val.dict d')) := rfl
    rw [walk_cons_of_enterable hd, walk_cons_of_enterable he, bind_some, hp]
    by_cases hts : t = s
    · obtain rfl := hts
      rw [if_pos rfl]
      exact hrest q (fun h => hq (cons_prefix_cons.mpr ⟨rfl, h⟩)) fun h => hq' (cons_prefix_cons.mpr ⟨rfl, h⟩)
    · rw [if_neg hts, parent_probe]

end

section

variable {s : Sym} {path p : List Sym} {v : Option Val} {x r w : Val}

structure Written (x : Val) (v : Option Val) (path : List Sym) (r : Val) : Prop where
  found : walk path (some r) = some x
  others : ∀ q, ¬ q <+: path → ¬ path <+: q → walk q (some r) = walk q v

lemma setPath_written (hc : Clear v path) (h : setPath x v path = .ok r) : Written x v path r := by
  induction path generalizing v r with
  | nil =>
    obtain rfl := Except.ok.inj h
    exact ⟨rfl, fun q _ hq => (hq nil_prefix).elim⟩
  | cons s path ih =>
    rw [setPath] at h
    split at h
    · rename_i he
      cases hcur : setPath x (v.bind (Val.probe s)) path with
      | error e =>
        rw [hcur] at h
        cases h
      | ok cur =>
        obtain ⟨hfound, hothers⟩ := ih hc.2 hcur
        obtain ⟨d', hu, hs, hp⟩ := (parent_space hc he).upsert cur
        rw [hcur, Except.bind, hu] at h
        obtain rfl := Except.ok.inj h
        constructor
        · have hd : Enterable (some (Val.dict d')) := rfl
          rw [walk_cons_of_enterable hd, bind_some, hp, if_pos rfl, hfound]
        · exact walk_replaced he hp hothers
    · cases h

lemma setPath_type (hp : p <+: path) (hne : p ≠ path) (hw : walk p v = some w) (hd : w.isDict = false) :
    setPath x v path = .error .type := by
  induction path generalizing v p with
  | nil => exact (hne (prefix_nil.mp hp)).elim
  | cons s path ih =>
    rw [setPath]
    split
    · rename_i he
      cases p with
      | nil =>
        obtain rfl : v = some w := hw
        rw [Enterable, hd] at he
        cases he
      | cons t p =>
        obtain ⟨rfl, hp'⟩ := cons_prefix_cons.mp hp
        rw [walk_cons_of_enterable he] at hw
        rw [ih hp' (fun h => hne (by rw [h])) hw]
        rfl
    · rfl

end

section

variable {s : Sym} {path p : List Sym} {v : Option Val} {x r w : Val}

structure Deleted (v : Option Val) (path : List Sym) (r : Val) : Prop where
  gone : walk path (some r) = none
  others : ∀ q, ¬ q <+: path → ¬ path <+: q → walk q (some r) = walk q v
  pruned : ∀ p, p <+: path → p ≠ [] → ∀ w, walk p (some r) = some w → w.len ≠ 0
  space : ∃ d, r = .dict d ∧ IsSpace d

lemma delPath_absent (hne : path ≠ []) (h : delPath v path = .ok none) : walk path v = none := by
  induction path generalizing v with
  | nil => exact (hne rfl).elim
  | cons s path ih =>
    rw [delPath] at h
    split at h
    · rename_i he
      rw [walk_cons_of_enterable he]
      split at h
      · rename_i hp
        subst hp
        cases v with
        | none => rfl
        | some d =>
          rw [delLeaf] at h
          split at h
          · rename_i hnone
            exact isNone_iff_eq_none.mp hnone
          · cases hr : d.remove s <;> rw [hr] at h <;> cases h
      · rename_i hp
        cases hr : delPath (v.bind (Val.probe s)) path with
        | error e =>
          rw [hr] at h
          cases h
        | ok o =>
          cases o with
          | none => exact ih hp hr
          | some cur =>
            rw [hr, Except.bind, rebuilt] at h
            cases ho : (if cur.len = 0 then (v.getD .fresh).remove s else (v.getD .fresh).upsert s cur) <;>
              rw [ho] at h <;> cases h
    · cases h

lemma delLeaf_deleted (hc : Clear v [s]) (he : Enterable v) (h : delLeaf v s = .ok (some r)) :
    Deleted v [s] r := by
  cases v with
  | none => cases h
  | some d =>
    rw [delLeaf] at h
    split at h
    · cases h
    · rename_i hsome
      have hfound : ((some d).getD .fresh).probe s ≠ none := fun hn => hsome (isNone_iff_eq_none.mpr hn)
      obtain ⟨d', hu, hs, hprobe⟩ := (parent_space hc he).remove hfound
      have hu' : d.remove s = some (.dict d') := hu
      rw [hu'] at h
      obtain rfl := some.inj (Except.ok.inj h)
      have hd : Enterable (some (Val.dict d')) := rfl
      have hgone : walk [s] (some (.dict d')) = none := by
        rw [walk_cons_of_enterable hd, bind_some, hprobe, if_pos rfl]
        rfl
      refine ⟨hgone, walk_replaced he hprobe fun q _ hq => (hq nil_prefix).elim, ?_, d', rfl, hs⟩
      intro p hp hpne w hw
      obtain rfl : p = [s] := by
        cases p with
        | nil => exact (hpne rfl).elim
        | cons t p =>
          obtain ⟨rfl, hp'⟩ := cons_prefix_cons.mp hp
          rw [prefix_nil.mp hp']
      rw [hgone] at hw
      cases hw

lemma delPath_none (path : List Sym) : delPath none path = .ok none := by
  induction path with
  | nil => rfl
  | cons s path ih =>
    have he : Enterable none := trivial
    rw [delPath, if_pos he]
    split
    · rfl
    · rw [bind_none, ih]
      rfl

lemma walk_empty {d : RayDict Val} (hd : IsSpace d) (hlen : (Val.dict d).len = 0) (hne : path ≠ []) :
    walk path (some (.dict d)) = none := by
  cases path with
  | nil => exact (hne rfl).elim
  | cons s path =>
    have he : Enterable (some (Val.dict d)) := rfl
    rw [walk_cons_of_enterable he, bind_some, hd.len_eq_zero.mp hlen, walk_none]

lemma rebuilt_deleted {cur : Val} (hc : Clear v (s :: path)) (he : Enterable v)
    (hfound : v.bind (Val.probe s) ≠ none) (hcur : Deleted (v.bind (Val.probe s)) path cur)
    (h : rebuilt v s (some cur) = .ok (some r)) : Deleted v (s :: path) r := by
  obtain ⟨dc, rfl, hdc⟩ := hcur.space
  have hcons : ∀ d' p, walk (s :: p) (some (Val.dict d')) = walk p ((Val.dict d').probe s) := by
    intro d' p
    have hd : Enterable (some (Val.dict d')) := rfl
    rw [walk_cons_of_enterable hd, bind_some]
  rw [rebuilt] at h
  by_cases hlen : (Val.dict dc).len = 0
  · -- the emptied dictionary goes too
    obtain ⟨d', hu, hs, hprobe⟩ := (parent_space hc he).remove (by rwa [parent_probe])
    rw [if_pos hlen, hu] at h
    obtain rfl := some.inj (Except.ok.inj h)
    refine ⟨?_, walk_replaced he hprobe fun q hq hq' => ?_, ?_, d', rfl, hs⟩
    · rw [hcons, hprobe, if_pos rfl, walk_none]
    · have hqne : q ≠ [] := by
        rintro rfl
        exact hq nil_prefix
      rw [← hcur.others q hq hq', walk_none, walk_empty hdc hlen hqne]
    · intro p hp hpne w hw
      cases p with
      | nil => exact (hpne rfl).elim
      | cons t p =>
        obtain ⟨rfl, -⟩ := cons_prefix_cons.mp hp
        rw [hcons, hprobe, if_pos rfl, walk_none] at hw
        cases hw
  · obtain ⟨d', hu, hs, hprobe⟩ := (parent_space hc he).upsert (.dict dc)
    rw [if_neg hlen, hu] at h
    obtain rfl := some.inj (Except.ok.inj h)
    refine ⟨?_, walk_replaced he hprobe hcur.others, ?_, d', rfl, hs⟩
    · rw [hcons, hprobe, if_pos rfl, hcur.gone]
    · intro p hp hpne w hw
      cases p with
      | nil => exact (hpne rfl).elim
      | cons t p =>
        obtain ⟨rfl, hp'⟩ := cons_prefix_cons.mp hp
        rw [hcons, hprobe, if_pos rfl] at hw
        by_cases hpe : p = []
        · subst hpe
          obtain rfl := some.inj hw
          exact hlen
        · exact hcur.pruned p hp' hpe w hw

lemma delPath_deleted (hc : Clear v path) (h : delPath v path = .ok (some r)) : Deleted v path r := by
  induction path generalizing v r with
  | nil => cases h
  | cons s path ih =>
    rw [delPath] at h
    split at h
    · rename_i he
      split at h
      · rename_i hp
        subst hp
        exact delLeaf_deleted hc he h
      · cases hr : delPath (v.bind (Val.probe s)) path with
        | error e =>
          rw [hr] at h
          cases h
        | ok o =>
          rw [hr, Except.bind] at h
          cases o with
          | none => cases h
          | some cur =>
            have hfound : v.bind (Val.probe s) ≠ none := by
              intro hn
              rw [hn, delPath_none] at hr
              cases hr
            exact rebuilt_deleted hc he hfound (ih hc.2 hr) h
    · cases h

end

end Rayforce.Env
