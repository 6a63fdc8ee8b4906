import Rayforce.Vm.Frames

namespace Rayforce.Vm

open List Option Function

variable {k : Kind} {kinds : List Kind} {slot : ℕ} {vals : List (Option Obj)} {W : World} {argc : ℕ}

structure Unwinds (s : RayExec) (base : ℕ) (pre : List Kind) (tries : List (TryBody × ℕ))
    (outer : List Trap) : Prop where
  locals : s.nLocals = s.code.nLocals
  guard : Guard s.world.code s.fn s.fp s.code base pre tries s.ps
  below : Below s.world.code s.scopeBase s.fn s.rs (s.ps.take s.fp) outer
  traps : s.ts = armedTraps s.scopeBase s.rs.length s.fn s.fp s.nLocals base tries ++ outer
  depth : s.scopeBase ≤ s.world.depth

structure At (s : RayExec) (ty : Ty) (base : ℕ) (outer : List Trap) :
    Prop extends Unwinds s base ty.kinds ty.tries outer where
  len : s.ps.length = base + ty.kinds.length
  scope : s.world.depth = s.scopeBase + if ty.window then 1 else 0

structure Runs (s : RayExec) (ty : Ty) (base : ℕ) (outer : List Trap) : Prop extends At s ty base outer where
  good : Good s.code s.ip ty

def Loadable (l : Lambda) : Prop :=
  (∀ e ∈ l.body, hasError e = false) ∧ ∀ g c, rayCompile g l = some c → c.consts.length ≤ 65536

def Compiled (lam : ℕ → Lambda) (W : Table) : Prop := ∀ a c, W a = some c → ∃ g, rayCompile g (lam a) = some c

structure Admits (lam : ℕ → Lambda) (r : Reply) (s : RayExec) : Prop where
  grows : Table.Grows s.world.code r.world.code
  compiled : Compiled lam r.world.code
  depth : r.world.depth = s.world.depth
  room : ∀ offset next, decode s.code.bytes s.ip = some (.trap offset, next) → s.ps.length < vmStackSize

def Sound (lam : ℕ → Lambda) (s0 : RayExec) : Outcome → Prop
  | .next s => s.scopeBase = s0.scopeBase ∧ Compiled lam s.world.code ∧ ∃ ty base outer, Runs s ty base outer
  | .raise _ s => s.scopeBase = s0.scopeBase ∧ s.ts = s0.ts ∧ Compiled lam s.world.code ∧ ∃ base pre tries outer,
    Unwinds s base pre tries outer
  | .done _ w => w.depth = s0.scopeBase
  | .stuck => False

section

variable {s : RayExec} {base : ℕ} {pre x : List Kind} {tries : List (TryBody × ℕ)} {outer : List Trap}
    {w : Bool} {ty : Ty}

lemma At.ip (h : At s ty base outer) (ip : ℕ) : At { s with ip := ip } ty base outer :=
  ⟨⟨h.locals, h.guard, h.below, h.traps, h.depth⟩, h.len, h.scope⟩

lemma Unwinds.world (h : Unwinds s base pre tries outer) (hW : Table.Grows s.world.code W.code)
    (hd : s.scopeBase ≤ W.depth) : Unwinds { s with world := W } base pre tries outer :=
  ⟨h.locals, h.guard.grow hW, h.below.grow hW, h.traps, hd⟩

lemma At.world (h : At s ty base outer) (hW : Table.Grows s.world.code W.code) (hd : W.depth = s.world.depth) :
    At { s with world := W } ty base outer :=
  ⟨h.toUnwinds.world hW (hd ▸ h.depth), h.len, hd.trans h.scope⟩

lemma Unwinds.stack (h : Unwinds s base (pre ++ x) tries outer) (hk : ∀ t ∈ tries, t.2 ≤ pre.length)
    {ps : List (Option Obj)}
    (hle : base + pre.length ≤ ps.length) (hsolid : ∀ v ∈ ps.drop (s.fp + s.nLocals), v.isSome = true)
    (heq : (ps.drop base).take pre.length = (s.ps.drop base).take pre.length)
    (hlow : ps.take s.fp = s.ps.take s.fp) :
    Unwinds { s with ps := ps } base pre tries outer where
  locals := h.locals
  guard := h.guard.replace hk hle (h.locals ▸ hsolid) heq
  below := by
    have := h.below
    rwa [← hlow] at this
  traps := h.traps
  depth := h.depth

lemma At.operands (h : At s ⟨pre ++ x, tries, w⟩ base outer) :
    List.Forall₂ Kind.accepts x (s.ps.drop (base + pre.length)) := by
  have hlen := h.len
  have hops := forall₂_drop pre.length h.guard.ops
  dsimp only at hops hlen
  rw [length_append] at hlen
  rwa [drop_left, take_of_length_le (by rw [length_drop, length_append]; omega), drop_drop] at hops

lemma At.popN (h : At s ⟨pre ++ x, tries, w⟩ base outer) (hk : ∀ t ∈ tries, t.2 ≤ pre.length) :
    ∃ vals, s.popN x.length = some (vals, { s with ps := s.ps.take (base + pre.length) }) ∧
      List.Forall₂ Kind.accepts x vals ∧
      At { s with ps := s.ps.take (base + pre.length) } ⟨pre, tries, w⟩ base outer := by
  have hlen : s.ps.length = base + pre.length + x.length := by
    rw [h.len, length_append, Nat.add_assoc]
  have hfloor := h.guard.floor
  have hpop : s.ps.length - x.length = base + pre.length := by omega
  refine ⟨s.ps.drop (base + pre.length), ?_, ?_, ?_⟩
  · rw [RayExec.popN, if_neg (by omega), hpop]
  · exact h.operands
  · refine ⟨h.toUnwinds.stack hk ?_ ?_ ?_ ?_, ?_, h.scope⟩
    · rw [length_take]
      omega
    · intro v hv
      rw [drop_take] at hv
      exact h.guard.solid v (by
        rw [← h.locals]
        exact mem_of_mem_take hv)
    · rw [drop_take, Nat.add_sub_cancel_left, take_take, Nat.min_self]
    · rw [take_take, Nat.min_eq_left (by omega)]
    · rw [length_take]
      dsimp only
      omega

lemma Unwinds.setLocal (h : Unwinds s base pre tries outer) (hs : slot < s.nLocals) (v : Option Obj) :
    Unwinds { s with ps := s.ps.set (s.fp + slot) v } base pre tries outer := by
  have hfloor := h.guard.floor
  rw [← h.locals] at hfloor
  refine ⟨h.locals, ⟨h.guard.code, h.guard.floor, ?_, ?_, ?_, h.guard.armed, h.guard.room⟩, ?_, h.traps, h.depth⟩
  · rw [length_set]
    exact h.guard.le
  · rw [drop_set_of_lt (by rw [← h.locals]; dsimp only; omega)]
    exact h.guard.solid
  · rw [drop_set_of_lt (by omega)]
    exact h.guard.ops
  · dsimp only
    rw [take_set_of_le (Nat.le_add_right _ _)]
    exact h.below

lemma At.setLocal (h : At s ty base outer) (hs : slot < s.nLocals) (v : Option Obj) :
    At { s with ps := s.ps.set (s.fp + slot) v } ty base outer :=
  ⟨h.toUnwinds.setLocal hs v, (length_set ..).trans h.len, h.scope⟩

lemma At.setLocals (h : At s ty base outer) (vals : List (Option Obj × ℕ)) (hs : ∀ v ∈ vals, v.2 < s.nLocals) :
    At { s with ps := vals.foldl (fun ps v => ps.set (s.fp + v.2) v.1) s.ps } ty base outer := by
  induction vals generalizing s with
  | nil => exact h
  | cons v vals ih =>
    exact ih (h.setLocal (hs v mem_cons_self) v.1) fun u hu => hs u (mem_cons_of_mem _ hu)

end

section

variable {lam : ℕ → Lambda} {s s0 : RayExec} {base : ℕ} {pre : List Kind} {tries : List (TryBody × ℕ)}
    {outer : List Trap}
  {w : Bool} {ty : Ty} {r : Reply}

lemma Unwinds.raise (h : Unwinds s base pre tries outer) (hc : Compiled lam s.world.code)
    (hb : s.scopeBase = s0.scopeBase) (ht : s.ts = s0.ts) (e : Err) : Sound lam s0 (.raise e s) :=
  ⟨hb, ht, hc, base, pre, tries, outer, h⟩

lemma At.next (h : At s ty base outer) (hgood : Good s.code s.ip ty) (hc : Compiled lam s.world.code)
    (hb : s.scopeBase = s0.scopeBase) : Sound lam s0 (.next s) :=
  ⟨hb, hc, ty, base, outer, ⟨h, hgood⟩⟩

lemma At.push (h : At s ⟨pre, tries, w⟩ base outer) {v : Option Obj} (hk : k.accepts v)
    (hgood : Good s.code s.ip ⟨pre ++ [k], tries, w⟩) (hc : Compiled lam s.world.code)
    (hb : s.scopeBase = s0.scopeBase) (ht : s.ts = s0.ts) : Sound lam s0 (s.push v) := by
  rw [RayExec.push]
  split_ifs
  · exact h.toUnwinds.raise hc hb ht _
  have hlen : s.ps.length = base + pre.length := h.len
  have hfloor := h.guard.floor
  refine At.next (show At _ ⟨pre ++ [k], tries, w⟩ base outer from
    ⟨⟨h.locals, ⟨h.guard.code, hfloor, ?_, ?_, ?_, h.guard.armed.append _, h.guard.room⟩, ?_, h.traps, h.depth⟩,
      ?_, h.scope⟩) hgood hc hb
  · simp only [length_append, length_singleton]
    omega
  · intro u hu
    dsimp only at hu
    rw [drop_append_of_le_length (by omega)] at hu
    rcases mem_append.mp hu with hu | hu
    · exact h.guard.solid u hu
    · rw [mem_singleton.mp hu]
      exact hk.isSome
  · have hfit : (s.ps.drop base ++ [v]).length ≤ (pre ++ [k]).length := by
      simp only [length_append, length_drop, length_singleton]
      omega
    have hops := h.guard.ops
    dsimp only at hops ⊢
    rw [take_of_length_le (by rw [length_drop]; omega)] at hops
    rw [drop_append_of_le_length (by omega), take_of_length_le hfit]
    exact rel_append hops (.cons hk .nil)
  · dsimp only
    rw [take_append_of_le_length (by omega)]
    exact h.below
  · simp only [length_append, length_singleton]
    omega

lemma At.answer (h : At s ⟨pre, tries, w⟩ base outer) (hgood : Good s.code s.ip ⟨pre ++ [.any], tries, w⟩)
    (hr : Admits lam r s0) (hw : s.world = s0.world) (hb : s.scopeBase = s0.scopeBase) (ht : s.ts = s0.ts) :
    Sound lam s0 (s.answer r) := by
  have hat := h.world (W := r.world) (hw ▸ hr.grows) (hw ▸ hr.depth)
  rw [RayExec.answer]
  cases r.value with
  | ok v => exact hat.push (k := .any) rfl hgood hr.compiled hb ht
  | error e => exact hat.toUnwinds.raise hr.compiled hb ht e

lemma At.call (h : At s ⟨pre, tries, false⟩ base outer) (hgood : Good s.code s.ip ⟨pre ++ [.any], tries, false⟩)
    (hx : Exact s.code s.ip tries) (hroom : s.ps.length < vmStackSize)
    (fn : ℕ) (c : Code) (ps : List (Option Obj)) (ctx : Ctx)
    (hctx : ctx.fn.getD fn = s.fn ∧ ctx.fp = s.fp ∧ ctx.ip = s.ip) (hcode : s.world.code fn = some c)
    (hlen : s.ps.length + c.nLocals ≤ ps.length) (hps : ps.take s.ps.length = s.ps)
    (hsolid : ∀ v ∈ ps.drop (s.ps.length + c.nLocals), v.isSome = true) :
    At { s with
      fn := fn, code := c, ip := 0, fp := s.ps.length, nLocals := c.nLocals, ps := ps, rs := ctx :: s.rs }
      ⟨[], [], false⟩ ps.length s.ts := by
  obtain ⟨hfn, hfp, hip⟩ := hctx
  refine ⟨⟨rfl, ⟨hcode, hlen, by simp, hsolid, by simp, trivial, by simp⟩, ?_, rfl, h.depth⟩, by simp, h.scope⟩
  dsimp only
  rw [hps, h.traps, ← hfn, ← hfp, h.locals]
  refine .cons ?_ h.len hroom ?_ ?_ ?_
  · rw [hfn, hfp]
    exact h.guard
  · rwa [hip]
  · rwa [hip]
  · rw [hfn, hfp]
    exact h.below

lemma At.result (h : At s ⟨kinds, tries, w⟩ base outer) :
    (if s.fp + s.nLocals < s.ps.length then s.ps.getLast?.getD none else some .null : Option Obj).isSome =
      true := by
  split_ifs with hlt
  · have hne : s.ps ≠ [] := by
      rintro heq
      simp [heq] at hlt
    rw [getLast?_eq_getLast_of_ne_nil hne, getD_some]
    apply h.guard.solid
    rw [← h.locals, ← getLast_drop (i := s.fp + s.nLocals) (by simpa using hlt)]
    exact getLast_mem _
  · rfl

lemma At.ret (h : At s ⟨kinds, [], false⟩ base outer) (hc : Compiled lam s.world.code)
    (hb : s.scopeBase = s0.scopeBase) (ht : s.ts = s0.ts) : Sound lam s0 (ret s) := by
  have hres := h.result
  rw [Vm.ret]
  dsimp only
  generalize (if s.fp + s.nLocals < s.ps.length then s.ps.getLast?.getD none else some .null : Option Obj) =
    result at hres ⊢
  have htraps : s.ts = outer := h.traps
  have hbelow := h.below
  have hcode := h.guard.code
  rw [← htraps] at hbelow
  generalize hts : s.ts = ts at hbelow
  generalize hrs : s.rs = rs at hbelow
  generalize hps : s.ps.take s.fp = ps at hbelow
  generalize hfn : s.fn = fn at hbelow
  cases hbelow with
  | nil => exact h.scope.trans hb
  | @cons _ ctx rs ps ts c base' pre tries hg hlen hroom hgood hx hb' =>
    rw [← hts]
    obtain ⟨fn', fp', ip'⟩ := ctx
    cases fn' with
    | none =>
      subst hfn
      have hcc : s.code = c := some.inj (hcode.symm.trans hg.code)
      subst hcc
      have hat : At { s with ps := ps, fp := fp', ip := ip', rs := rs } ⟨pre, tries, false⟩ base' ts := by
        refine ⟨⟨h.locals, hg, hb', ?_, h.depth⟩, hlen, h.scope⟩
        dsimp only
        rw [h.locals]
        exact hts
      exact hat.push (k := .any) hres hgood hc hb ht
    | some f =>
      dsimp only
      rw [show s.world.code f = some c from hg.code]
      dsimp only
      have hat : At { s with ps := ps, fn := f, code := c, nLocals := c.nLocals, fp := fp', ip := ip', rs := rs }
          ⟨pre, tries, false⟩ base' ts := ⟨⟨rfl, hg, hb', hts, h.depth⟩, hlen, h.scope⟩
      exact hat.push (k := .any) hres hgood hc hb ht

end

lemma forall₂_one (h : List.Forall₂ Kind.accepts [k] vals) : ∃ v : Obj, vals = [some v] ∧ k.accepts (some v) := by
  cases h with
  | cons hk hrest =>
    cases hrest
    obtain ⟨v, rfl⟩ := isSome_iff_exists.mp hk.isSome
    exact ⟨v, rfl, hk⟩

lemma forall₂_call {ks : List Kind} (h : List.Forall₂ Kind.accepts (k :: ks) vals) :
    ∃ v args, vals = some v :: args ∧ k.accepts (some v) ∧ args.length = ks.length := by
  cases h with
  | cons hk hrest =>
    obtain ⟨v, rfl⟩ := isSome_iff_exists.mp hk.isSome
    exact ⟨v, _, rfl, hk, hrest.length_eq.symm⟩

lemma ensureCompiled_grows (lam : ℕ → Lambda) (w : World) (a : ℕ) :
    Table.Grows w.code (ensureCompiled lam w a).code := by
  intro b c hb
  rw [ensureCompiled]
  split
  · exact hb
  · rename_i hnone
    split
    · dsimp only
      rw [update_of_ne, hb]
      rintro rfl
      simp [hnone] at hb
    · exact hb

lemma ensureCompiled_depth (lam : ℕ → Lambda) (w : World) (a : ℕ) : (ensureCompiled lam w a).depth = w.depth := by
  rw [ensureCompiled]
  split
  · rfl
  · split <;> rfl

lemma ensureCompiled_compiled {lam : ℕ → Lambda} {w : World} (h : Compiled lam w.code) (a : ℕ) :
    Compiled lam (ensureCompiled lam w a).code := by
  rw [ensureCompiled]
  split
  · exact h
  · split
    · rename_i c hc
      intro b d hd
      dsimp only at hd
      by_cases hab : b = a
      · subst hab
        rw [update_self] at hd
        cases hd
        exact ⟨_, hc⟩
      · rw [update_of_ne hab] at hd
        exact h b d hd
    · exact h

lemma ensureCompiled_eq {lam : ℕ → Lambda} {w : World} {a : ℕ} (h : (ensureCompiled lam w a).code a = none) :
    ensureCompiled lam w a = w := by
  rw [ensureCompiled] at h ⊢
  split
  · rfl
  · rename_i hnone
    split
    · rename_i c hc
      simp [hnone, hc] at h
    · rfl

section

variable {lam : ℕ → Lambda} {s s0 : RayExec} {base : ℕ} {pre : List Kind} {tries : List (TryBody × ℕ)}
    {outer : List Trap}
  {w : Bool} {r : Reply}

lemma At.callLambda (hlam : ∀ a, Loadable (lam a)) (h : At s ⟨pre, tries, false⟩ base outer)
    (hgood : Good s.code s.ip ⟨pre ++ [.any], tries, false⟩) (hx : Exact s.code s.ip tries) (hc : Compiled
      lam s.world.code)
    (hr : Admits lam r s0) (hw : s.world = s0.world) (hb : s.scopeBase = s0.scopeBase) (ht : s.ts = s0.ts) (a : ℕ)
    {args : List (Option Obj)} : Sound lam s0 (callLambda lam r s a args) := by
  have hat := h.world (ensureCompiled_grows lam s.world a) (ensureCompiled_depth lam s.world a)
  have hc' := ensureCompiled_compiled hc a
  rw [Vm.callLambda]
  dsimp only
  split
  · rename_i hnone
    rw [ensureCompiled_eq hnone]
    exact h.answer hgood hr hw hb ht
  · rename_i c hcode
    split_ifs with hfull harity hint
    · exact hat.toUnwinds.raise hc' hb ht _
    · exact hat.toUnwinds.raise hc' hb ht _
    all_goals
      obtain ⟨g, hcomp⟩ := hc' a c hcode
      obtain ⟨-, hparams, -⟩ := rayCompile_verified hcomp (hlam a).1 ((hlam a).2 g c hcomp)
      have hlen :
          (s.ps ++ (args ++ replicate (c.nLocals - args.length) none)).length = s.ps.length + c.nLocals := by
        simp only [length_append, length_replicate]
        omega
      have hin := hat.call hgood hx (by dsimp only; omega) a c
        (s.ps ++ (args ++ replicate (c.nLocals - args.length) none))
        ⟨some s.fn, s.fp, s.ip⟩ ⟨rfl, rfl, rfl⟩ hcode hlen.ge (take_left ..)
        (by rw [drop_eq_nil_of_le hlen.le]; simp)
    · exact hin.toUnwinds.raise hc' hb ht _
    · refine hin.next ?_ hc' hb
      exact (rayCompile_verified hcomp (hlam a).1 ((hlam a).2 g c hcomp)).1

lemma At.callf (hlam : ∀ a, Loadable (lam a)) (hargc : argc ≤ 64)
    (h : At s ⟨pre ++ (k :: List.replicate argc .any), tries, false⟩ base outer)
    (hk : ∀ t ∈ tries, t.2 ≤ pre.length)
    (hgood : Good s.code s.ip ⟨pre ++ [.any], tries, false⟩) (hx : Exact s.code s.ip tries)
    (hc : Compiled lam s.world.code)
    (hr : Admits lam r s0) (hw : s.world = s0.world) (hb : s.scopeBase = s0.scopeBase) (ht : s.ts = s0.ts) :
    Sound lam s0 (callf lam r s argc) := by
  obtain ⟨vals, hpop, hvals, hat⟩ := h.popN hk
  obtain ⟨v, args, rfl, -, -⟩ := forall₂_call hvals
  rw [length_cons, length_replicate] at hpop
  rw [Vm.callf, if_neg (by omega), hpop]
  cases v
  case lambda a => exact hat.callLambda hlam hgood hx hc hr hw hb ht a
  case builtin a kind restricted =>
    dsimp only
    rw [callBuiltin]
    split_ifs
    · exact hat.toUnwinds.raise hc hb ht _
    · exact hat.toUnwinds.raise hc hb ht _
    · exact hat.answer hgood hr hw hb ht
  all_goals exact hat.toUnwinds.raise hc hb ht _

lemma At.calls (h : At s ⟨pre ++ List.replicate argc .any, tries, false⟩ base outer) (hk : ∀ t ∈
    tries, t.2 ≤ pre.length)
    (hgood : Good s.code s.ip ⟨pre ++ [.any], tries, false⟩) (hx : Exact s.code s.ip tries) (hv : Verified s.code)
    (hc : Compiled lam s.world.code) (hb : s.scopeBase = s0.scopeBase) (ht : s.ts = s0.ts) :
    Sound lam s0 (calls s argc) := by
  have hlen : s.ps.length = base + (pre.length + argc) := by
    have := h.len
    rwa [length_append, length_replicate] at this
  obtain ⟨vals, -, -, hat⟩ := h.popN hk
  rw [Vm.calls]
  split_ifs with hfull hunder
  · exact h.toUnwinds.raise hc hb ht _
  · omega
  have hfp : s.ps.length - argc = (s.ps.take (base + pre.length)).length := by
    rw [length_take]
    omega
  have hfloor := h.guard.floor
  rw [← h.locals] at hfloor
  have hin := hat.call hgood hx (by dsimp only; omega) s.fn s.code (s.ps ++ replicate (s.nLocals - argc) none)
    ⟨none, s.fp, s.ip⟩ ⟨rfl, rfl, rfl⟩ h.guard.code
    (by
      rw [← h.locals, length_append, length_replicate, ← hfp]
      omega)
    (by
      rw [take_append_of_le_length (by rw [← hfp]; omega), ← hfp, hfp, length_take, Nat.min_eq_left (by omega)])
    (by
      intro v hmem
      dsimp only at hmem
      rw [← hfp, ← h.locals] at hmem
      rcases Nat.le_total s.nLocals argc with hle | hle
      · rw [Nat.sub_eq_zero_of_le hle, replicate_zero, append_nil] at hmem
        apply h.guard.solid
        rw [← h.locals]
        exact (drop_subset_drop_left s.ps (by omega)) hmem
      · rw [drop_eq_nil_of_le (by rw [length_append, length_replicate]; omega)] at hmem
        cases hmem)
  rw [hfp]
  simp only [h.locals] at hin ⊢
  exact hin.next hv hc hb

lemma At.callFn (argc : ℕ) (h : At s ⟨pre ++ (.fn :: List.replicate argc .any), tries, w⟩ base outer)
    (hk : ∀ t ∈ tries, t.2 ≤ pre.length) (hgood : Good s.code s.ip ⟨pre ++ [.any], tries, w⟩)
    (hc : Compiled lam s.world.code)
    (hr : Admits lam r s0) (hw : s.world = s0.world) (hb : s.scopeBase = s0.scopeBase) (ht : s.ts = s0.ts) :
    Sound lam s0 (callFn r s argc) := by
  obtain ⟨vals, hpop, hvals, hat⟩ := h.popN hk
  obtain ⟨v, args, rfl, ⟨a, kind, restricted, hv⟩, -⟩ := forall₂_call hvals
  cases hv
  rw [length_cons, length_replicate] at hpop
  rw [Vm.callFn, hpop]
  dsimp only
  split_ifs
  · exact hat.toUnwinds.raise hc hb ht _
  · exact hat.answer hgood hr hw hb ht

lemma At.loadenv (h : At s ⟨pre, tries, w⟩ base outer) (hs : slot < s.nLocals)
    (hgood : Good s.code s.ip ⟨pre ++ [.any], tries, w⟩) (hc : Compiled lam s.world.code)
    (hr : Admits lam r s0) (hw : s.world = s0.world) (hb : s.scopeBase = s0.scopeBase) (ht : s.ts = s0.ts) :
    Sound lam s0 (loadenv r s slot) := by
  have hfloor := h.guard.floor
  rw [← h.locals] at hfloor
  have hlen : s.ps.length = base + pre.length := h.len
  have hworld : ∀ v, At { s with world := r.world, ps := s.ps.set (s.fp + slot) v } ⟨pre, tries, w⟩ base outer :=
      fun v =>
    (h.setLocal hs v).world (W := r.world) (hw ▸ hr.grows) (hw ▸ hr.depth)
  rw [Vm.loadenv]
  split
  · rename_i hnone
    rw [getElem?_eq_none_iff] at hnone
    exact absurd hnone (by omega)
  · exact h.push (k := .any) rfl hgood hc hb ht
  · cases r.value with
    | ok v => exact (hworld (some v)).push (k := .any) rfl hgood hr.compiled hb ht
    | error e => exact (hworld none).toUnwinds.raise hr.compiled hb ht e
  · exact h.push (k := .any) rfl hgood hc hb ht

section

variable (h : At s ⟨pre ++ [k], tries, w⟩ base outer)
include h

lemma At.storeenv (hk : ∀ t ∈ tries, t.2 ≤ pre.length)
    (hs : slot < s.nLocals) (hgood : Good s.code s.ip ⟨pre, tries, w⟩) (hc : Compiled lam s.world.code)
    (hb : s.scopeBase = s0.scopeBase) : Sound lam s0 (storeenv s slot) := by
  obtain ⟨vals, hpop, hvals, hat⟩ := h.popN hk
  obtain ⟨v, rfl, -⟩ := forall₂_one hvals
  have hfloor := hat.guard.floor
  have hle := hat.guard.le
  dsimp only at hfloor hle
  rw [← h.locals] at hfloor
  rw [Vm.storeenv, show (1 : ℕ) = [k].length from rfl, hpop]
  dsimp only
  rw [if_pos (by omega)]
  exact (hat.setLocal hs (some v)).next hgood hc hb

lemma At.storeglobal {idx : ℕ} (hk : ∀ t ∈ tries, t.2 ≤ pre.length)
    (hidx : s.symConst idx = true) (hgood : Good s.code s.ip ⟨pre ++ [k], tries, w⟩)
    (hc : Compiled lam s.world.code)
    (hr : Admits lam r s0) (hw : s.world = s0.world) (hb : s.scopeBase = s0.scopeBase) (ht : s.ts = s0.ts) :
    Sound lam s0 (storeglobal r s idx) := by
  obtain ⟨vals, hpop, -, hat⟩ := h.popN hk
  rw [Vm.storeglobal, hidx, show (1 : ℕ) = [k].length from rfl, hpop]
  dsimp only [Bool.not_true]
  rw [if_neg (by simp)]
  split_ifs
  · exact hat.toUnwinds.raise hc hb ht _
  · cases r.value with
    | ok v => exact (h.world (W := r.world) (hw ▸ hr.grows) (hw ▸ hr.depth)).next hgood hr.compiled hb
    | error e => exact (hat.world (W := r.world) (hw ▸ hr.grows)
      (hw ▸ hr.depth)).toUnwinds.raise hr.compiled hb ht e

lemma At.top : ∃ v : Obj, s.ps.getLast? = some (some v) ∧ k.accepts (some v) := by
  obtain ⟨v, hv, hk⟩ := forall₂_one h.operands
  refine ⟨v, ?_, hk⟩
  rw [← take_append_drop (base + pre.length) s.ps, hv, getLast?_concat]

end

lemma At.trap {b : TryBody} {offset : ℤ} (h : At s ⟨kinds, tries, false⟩ base outer)
    (hh : jump s.ip offset = b.handler) (hroom : s.ps.length < vmStackSize)
    (hgood : Good s.code s.ip ⟨kinds, (b, kinds.length) :: tries, false⟩)
    (hhandler : Good s.code b.handler ⟨kinds ++ [.any], tries, false⟩) (hc : Compiled lam s.world.code)
    (hb : s.scopeBase = s0.scopeBase) (ht : s.ts = s0.ts) : Sound lam s0 (trap s offset) := by
  rw [Vm.trap]
  split_ifs
  · exact h.toUnwinds.raise hc hb ht _
  have hlen : s.ps.length = base + kinds.length := h.len
  refine At.next (show At _ ⟨kinds, (b, kinds.length) :: tries, false⟩ base outer from
    ⟨⟨h.locals, ⟨h.guard.code, h.guard.floor, h.guard.le, h.guard.solid, h.guard.ops, ?_, ?_⟩, h.below, ?_,
      h.depth⟩, h.len, h.scope⟩)
    hgood hc hb
  · refine ⟨le_rfl, ?_, ?_⟩
    · rwa [take_length]
    · rw [take_length]
      exact h.guard.armed
  · intro t ht
    rcases mem_cons.mp ht with rfl | ht
    · exact hlen ▸ hroom
    · exact h.guard.room t ht
  · dsimp only
    rw [h.traps, hh, hlen, show s.world.depth = s.scopeBase from h.scope]
    rfl

lemma At.trapEnd {t : TryBody × ℕ} (h : At s ⟨kinds, t :: tries, w⟩ base outer) :
    At { s with ts := s.ts.tail } ⟨kinds, tries, w⟩ base outer := by
  obtain ⟨b, n⟩ := t
  refine ⟨⟨h.locals, ⟨h.guard.code, h.guard.floor, h.guard.le, h.guard.solid, h.guard.ops, ?_, ?_⟩,
    h.below, ?_, h.depth⟩, h.len, h.scope⟩
  · have harmed := h.guard.armed.2.2.append (kinds.drop n)
    rwa [take_append_drop] at harmed
  · exact fun t ht => h.guard.room t (mem_cons_of_mem _ ht)
  · dsimp only
    rw [h.traps]
    rfl

lemma At.scopeBegin {n : ℕ} (h : At s ⟨pre ++ [.names n], tries, false⟩ base outer)
    (hk : ∀ t ∈ tries, t.2 ≤ pre.length)
    (hn : n ≤ s.nLocals) (hgood : Good s.code s.ip ⟨pre, tries, true⟩) (hc : Compiled lam s.world.code)
    (hb : s.scopeBase = s0.scopeBase) (ht : s.ts = s0.ts) : Sound lam s0 (scopeBegin r s) := by
  obtain ⟨vals, hpop, hvals, hat⟩ := h.popN hk
  obtain ⟨v, rfl, l, hv, hl⟩ := forall₂_one hvals
  cases hv
  have hfloor := hat.guard.floor
  have hle := hat.guard.le
  dsimp only at hfloor hle
  rw [← h.locals] at hfloor
  rw [Vm.scopeBegin, show (1 : ℕ) = [Kind.names n].length from rfl, hpop]
  dsimp only
  rw [if_neg (by omega)]
  split_ifs
  · exact hat.toUnwinds.raise hc hb ht _
  refine At.next (show At _ ⟨pre, tries, true⟩ base outer from ⟨hat.toUnwinds.world ?_ ?_, hat.len, ?_⟩) hgood hc
    hb
  · exact fun _ _ => id
  · exact hat.depth.trans (Nat.le_succ _)
  · exact congrArg (· + 1) hat.scope

lemma At.scopeEnd {n : ℕ} (h : At s ⟨pre ++ [.names n], tries, true⟩ base outer)
    (hk : ∀ t ∈ tries, t.2 ≤ pre.length)
    (hn : n ≤ s.nLocals) (hgood : Good s.code s.ip ⟨pre, tries, false⟩) (hc : Compiled lam s.world.code)
    (hb : s.scopeBase = s0.scopeBase) : Sound lam s0 (scopeEnd r s) := by
  obtain ⟨vals, hpop, hvals, hat⟩ := h.popN hk
  obtain ⟨v, rfl, l, hv, hl⟩ := forall₂_one hvals
  cases hv
  have hfloor := hat.guard.floor
  have hle := hat.guard.le
  dsimp only at hfloor hle
  rw [← h.locals] at hfloor
  rw [length_singleton] at hpop
  rw [Vm.scopeEnd, hpop]
  dsimp only
  rw [if_neg (by omega)]
  have hsync := hat.setLocals (r.slots.take l.length).zipIdx fun v hv => by
    have := snd_lt_of_mem_zipIdx hv
    have := length_take_le l.length r.slots
    dsimp only
    omega
  have hdepth : s.world.depth = s.scopeBase + 1 := h.scope
  refine At.next (show At _ ⟨pre, tries, false⟩ base outer from ⟨hsync.toUnwinds.world ?_ ?_, hsync.len, ?_⟩) hgood
    hc hb
  · exact fun _ _ => id
  · dsimp only
    omega
  · dsimp only
    simp only [Bool.false_eq_true, if_false]
    omega

theorem exec_sound (hlam : ∀ a, Loadable (lam a)) (isTruthy : Option Obj → Bool) {ty : Ty}
    (h : Runs s ty base outer)
    (hc : Compiled lam s.world.code) (hr : Admits lam r s) : Sound lam s (exec lam isTruthy r s) := by
  cases h.good with
  | @step _ next i _ succs hd hs hin hg =>
    have h0 := h.toAt.ip next
    rw [exec, hd]
    dsimp only
    cases hs with
    | @simple i pre take give tries w hcons hx hn hk hw =>
      have hnext := hg (next, ⟨pre ++ give, tries, w⟩) (by simp)
      cases hcons with
      | loadconst hv hacc =>
        dsimp only
        rw [hv]
        rw [append_nil] at h0
        exact h0.push hacc hnext hc rfl rfl
      | loadenv hlt =>
        rw [append_nil] at h0
        exact h0.loadenv (h.locals ▸ hlt) hnext hc hr rfl rfl rfl
      | storeenv hlt =>
        rw [append_nil] at hnext
        exact h0.storeenv hk (h.locals ▸ hlt) hnext hc rfl
      | @pop k =>
        rw [append_nil] at hnext
        obtain ⟨vals, -, -, hat⟩ := h0.popN hk
        have hlen : s.ps.length = base + (pre.length + 1) := by
          have := h.len
          rwa [length_append, length_singleton] at this
        have hfloor := h.guard.floor
        rw [← h.locals] at hfloor
        dsimp only
        rw [if_pos (by omega), dropLast_eq_take, show s.ps.length - 1 = base + pre.length from by omega]
        exact hat.next hnext hc rfl
      | resolve hv =>
        dsimp only
        rw [if_pos (by simp [RayExec.symConst, hv])]
        rw [append_nil] at h0
        exact h0.answer hnext hr rfl rfl rfl
      | call1 => exact h0.callFn 1 hk hnext hc hr rfl rfl rfl
      | call2 => exact h0.callFn 2 hk hnext hc hr rfl rfl rfl
      | calln hle =>
        dsimp only
        rw [if_neg (by omega)]
        exact h0.callFn _ hk hnext hc hr rfl rfl rfl
      | callf hle =>
        obtain rfl := hw rfl
        exact h0.callf hlam hle hk hnext hn hc hr rfl rfl rfl
      | calls =>
        obtain rfl := hw rfl
        obtain ⟨g, hcomp⟩ := hc _ _ h.guard.code
        exact h0.calls hk hnext hn (rayCompile_verified hcomp (hlam _).1 ((hlam _).2 g _ hcomp)).1 hc rfl rfl
      | @calld k =>
        obtain ⟨vals, hpop, -, hat⟩ := h0.popN hk
        dsimp only
        rw [if_pos rfl, show (1 : ℕ) = [k].length from rfl, hpop]
        exact hat.answer hnext hr rfl rfl rfl
      | @dup k =>
        obtain ⟨v, hv, hacc⟩ := h0.top
        dsimp only at hv ⊢
        rw [hv]
        refine At.push (show At _ ⟨pre ++ [k], tries, w⟩ base outer from h0) hacc ?_ hc rfl rfl
        rw [append_assoc]
        exact hnext
      | storeglobal hv =>
        exact h0.storeglobal hk (by simp [RayExec.symConst, hv]) hnext hc hr rfl rfl rfl
      | @tryh k l =>
        obtain ⟨vals, hpop, -, hat⟩ := h0.popN hk
        dsimp only
        rw [show (2 : ℕ) = [k, l].length from rfl, hpop]
        exact hat.answer hnext hr rfl rfl rfl
      | @force k =>
        obtain ⟨vals, hpop, hvals, hat⟩ := h0.popN hk
        obtain ⟨v, rfl, -⟩ := forall₂_one hvals
        dsimp only
        rw [show (1 : ℕ) = [k].length from rfl, hpop]
        cases v
        case lazy a => exact hat.answer hnext hr rfl rfl rfl
        all_goals exact hat.push (k := .any) rfl hnext hc rfl rfl
    | @jmp offset _ =>
      have hnext := hg _ (mem_singleton.mpr rfl)
      dsimp only at hnext ⊢
      rw [if_neg (by omega)]
      refine (h0.ip _).next ?_ hc rfl
      exact hnext
    | @jmpf offset pre k tries w hk =>
      obtain ⟨vals, hpop, hvals, hat⟩ := h0.popN hk
      obtain ⟨v, rfl, -⟩ := forall₂_one hvals
      dsimp only
      rw [show (1 : ℕ) = [k].length from rfl, hpop]
      dsimp only
      split_ifs
      · exact hat.next (hg _ mem_cons_self) hc rfl
      · exact (hat.ip _).next (hg _ (mem_cons_of_mem _ mem_cons_self)) hc rfl
    | @trap offset kinds tries b hx hh hk =>
      exact h0.trap (b := b) hh.symm (hr.room _ _ hd) (hg _ mem_cons_self) (hg _ (mem_cons_of_mem _ mem_cons_self))
        hc rfl rfl
    | @trapEnd kinds t tries w => exact h0.trapEnd.next (hg _ mem_cons_self) hc rfl
    | @scopeBegin pre n tries hx hk hn => exact h0.scopeBegin hk (h.locals ▸ hn) (hg _ mem_cons_self) hc rfl rfl
    | @scopeEnd pre n tries hk hn => exact h0.scopeEnd hk (h.locals ▸ hn) (hg _ mem_cons_self) hc rfl
    | ret => exact h0.ret hc rfl rfl

end

end Rayforce.Vm
