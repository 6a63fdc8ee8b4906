import Rayforce.Vm.Invariant

namespace Rayforce.Vm

open List Option

variable {s1 : RayExec} {c : Compiler} {e : Err} {ps : List (Option Obj)} {v : Obj} {W : Table}

def errValue (e : Err) (s : RayExec) : Obj := (s.world.raised.or e.obj).getD (.i64 0)

section

variable {s : RayExec} {base : ℕ} {pre : List Kind} {tries : List (TryBody × ℕ)} {outer : List Trap} {t : Trap}
    {ts : List Trap}
  {fr : Frame} {b : TryBody}

lemma Unwinds.resumes (h : Unwinds s base pre tries outer) (hts : s.ts = t :: ts) :
    ∃ fr b, Nonempty (Resumes s.world.code s.scopeBase s.rs s.ps t ts fr b) := by
  have htraps := h.traps
  cases tries with
  | nil =>
    obtain ⟨fr, b, -, ⟨r⟩⟩ := h.below.resumes (htraps.symm.trans hts)
    exact ⟨fr, b, ⟨{ r with stack := r.stack.trans (List.take_prefix _ _) }⟩⟩
  | cons u rest =>
    obtain ⟨b, n⟩ := u
    rw [hts, h.locals] at htraps
    obtain ⟨ht, hrest⟩ := cons.inj htraps
    exact ⟨⟨s.fn, s.fp, s.ip, s.rs.length⟩, b,
      ⟨s.code, base, pre, n, rest, outer, s.rs, s.ps, h.guard, rfl, suffix_rfl, prefix_rfl, h.below, ht, hrest⟩⟩

lemma Resumes.deliver (r : Resumes s.world.code s.scopeBase s.rs s.ps t ts fr b)
    (hd : s.scopeBase ≤ s.world.depth) (e : Err) :
    ∃ s', deliver e s (t :: ts) = .run s' ∧ s'.scopeBase = s.scopeBase ∧ s'.world.code = s.world.code ∧
      s'.fn = t.fn ∧
      s'.fp = t.fp ∧ s'.ip = t.handlerIp ∧ s'.rs.length = t.rp ∧ s'.ps.getLast? = some (some (errValue e s)) ∧
      ∃ ty base outer, Runs s' ty base outer := by
  obtain ⟨c, base, pre, n, rest, outer, rs', ps', hg, hheight, hsuffix, ⟨above, habove⟩, hbelow, rfl, rfl⟩ := r
  obtain ⟨hgood, hn, hguard⟩ := hg.head
  have hle := hg.le
  have hfloor := hg.floor
  have hps : s.ps.take (base + n) = ps'.take (base + n) := by
    rw [← habove]
    exact take_append_of_le_length (by omega)
  have hrs : s.rs.drop (s.rs.length - fr.height) = rs' := by
    rw [← hheight, ← suffix_iff_eq_drop.mp hsuffix]
  have hroom : (ps'.take (base + n)).length < vmStackSize := by
    rw [length_take]
    exact (Nat.min_le_left _ _).trans_lt (hg.room (b, n) mem_cons_self)
  have hmin : min s.world.depth s.scopeBase = s.scopeBase := Nat.min_eq_right hd
  obtain ⟨s', hs'⟩ : ∃ s' : RayExec, s' = { s with
      fn := fr.fn, code := c, ip := b.handler, fp := fr.fp, nLocals := c.nLocals
      ps := ps'.take (base + n) ++ [some (errValue e s)], rs := rs'
      ts := armedTraps s.scopeBase fr.height fr.fn fr.fp c.nLocals base rest ++ outer
      world := { s.world with depth := s.scopeBase, raised := none } } := ⟨_, rfl⟩
  have hruns : Runs s' ⟨pre.take n ++ [.any], rest, false⟩ base outer := by
    subst hs'
    refine ⟨⟨⟨rfl, hguard _, ?_, ?_, le_rfl⟩, ?_, rfl⟩, hgood⟩
    · dsimp only
      rw [take_append_of_le_length (by rw [length_take]; omega), take_take, Nat.min_eq_left (by omega)]
      exact hbelow
    · dsimp only
      rw [hheight]
    · simp only [length_append, length_take, length_singleton]
      omega
  refine ⟨s', ?_, ?_⟩
  · rw [Vm.deliver]
    dsimp only
    rw [hg.code, hps, hrs]
    dsimp only
    rw [if_neg (by omega), hmin, hs']
    rfl
  · refine ⟨?_, ?_, ?_, ?_, ?_, ?_, ?_, _, _, _, hruns⟩ <;> subst hs'
    all_goals first
      | rfl
      | exact hheight
      | exact getLast?_concat

variable {ty : Ty} {lam : ℕ → Lambda} {isTruthy : Option Obj → Bool} {r : Reply}

lemma Runs.enclosing (h : Runs s ty base outer) (hx : Exact s.code s.ip ty.tries) :
    (s.ts = [] → enclosing s.world.code s.frames = none) ∧
      ∀ t ts, s.ts = t :: ts → ∃ fr b, enclosing s.world.code s.frames = some (fr, b) ∧ t.fn = fr.fn ∧
        t.fp = fr.fp ∧
        t.handlerIp = b.handler ∧ t.rp = fr.height := by
  have htraps := h.traps
  obtain ⟨kinds, tries, w⟩ := ty
  dsimp only at hx htraps
  rw [RayExec.frames]
  cases tries with
  | nil =>
    rw [enclosing_cons_nil ⟨s.fn, s.fp, s.ip, s.rs.length⟩ _ h.guard.code hx]
    refine ⟨fun hts => h.below.enclosing_eq_none (htraps.symm.trans hts), fun t ts hts => ?_⟩
    obtain ⟨fr, b, hfind, ⟨r⟩⟩ := h.below.resumes (htraps.symm.trans hts)
    refine ⟨fr, b, hfind, ?_⟩
    rw [r.trap]
    exact ⟨rfl, rfl, rfl, rfl⟩
  | cons u rest =>
    obtain ⟨b, n⟩ := u
    rw [enclosing_cons ⟨s.fn, s.fp, s.ip, s.rs.length⟩ _ h.guard.code hx]
    constructor
    · intro hts
      cases htraps.symm.trans hts
    · intro t ts hts
      obtain ⟨rfl, -⟩ := cons.inj (htraps.symm.trans hts)
      exact ⟨_, b, rfl, rfl, rfl, rfl, rfl⟩

lemma push_not_raise {v : Option Obj} (hroom : s.ps.length < vmStackSize) : s.push v ≠ .raise e s1 := by
  rw [RayExec.push, if_neg (by omega)]
  exact Outcome.noConfusion

lemma At.ret_not_raise (h : At s ty base outer) : Vm.ret s ≠ .raise e s1 := by
  rw [Vm.ret]
  dsimp only
  have hbelow := h.below
  generalize (if s.fp + s.nLocals < s.ps.length then s.ps.getLast?.getD none else some .null : Option Obj) = result
  generalize hrs : s.rs = rs at hbelow
  generalize hps : s.ps.take s.fp = ps at hbelow
  cases hbelow with
  | nil => exact Outcome.noConfusion
  | @cons _ ctx rs ps ts c base pre tries hg hlen hroom hgood hx hb =>
    obtain ⟨fn', fp', ip'⟩ := ctx
    cases fn' with
    | none => exact push_not_raise hroom
    | some f =>
      dsimp only
      rw [show s.world.code f = some c from hg.code]
      exact push_not_raise hroom

lemma At.scopeEnd_not_raise {n : ℕ} {w : Bool} (h : At s ⟨pre ++ [.names n], tries, w⟩ base outer)
    (hk : ∀ t ∈ tries, t.2 ≤ pre.length) : Vm.scopeEnd r s ≠ .raise e s1 := by
  obtain ⟨vals, hpop, hvals, -⟩ := h.popN hk
  obtain ⟨v, rfl, l, hv, hl⟩ := forall₂_one hvals
  cases hv
  rw [length_singleton] at hpop
  rw [Vm.scopeEnd, hpop]
  dsimp only
  split_ifs <;> exact Outcome.noConfusion

lemma Runs.exact_of_raise (h : Runs s ty base outer) (he : exec lam isTruthy r s = .raise e s1) :
    Exact s.code s.ip ty.tries := by
  cases h.good with
  | @step _ next i _ succs hd hs hin hg =>
    have h0 := h.toAt.ip next
    rw [exec, hd] at he
    dsimp only at he
    cases hs with
    | simple hcons hx hn hk hw => exact hx
    | jmp =>
      dsimp only at he
      rw [if_neg (by omega)] at he
      cases he
    | @jmpf offset pre k tries w hk =>
      obtain ⟨vals, hpop, hvals, -⟩ := h0.popN hk
      obtain ⟨v, rfl, -⟩ := forall₂_one hvals
      rw [length_singleton] at hpop
      rw [hpop] at he
      cases he
    | trap hx hh hk => exact hx
    | trapEnd => cases he
    | scopeBegin hx hk hn => exact hx
    | scopeEnd hk hn => exact absurd he (h0.scopeEnd_not_raise hk)
    | ret => exact absurd he h0.ret_not_raise

end

def Trap.InFrame (W : Table) (t : Trap) (fr : Frame) : Prop :=
  fr.fn = t.fn ∧ fr.fp = t.fp ∧ fr.height = t.rp ∧
    ∃ c b, W fr.fn = some c ∧ b ∈ c.tries ∧ b.covers fr.ip = true ∧ b.handler = t.handlerIp

lemma armedTraps_inFrame {depth base : ℕ} (fr : Frame) {c : Code} {tries : List (TryBody × ℕ)}
    (hc : W fr.fn = some c)
    (hin : Within c fr.ip tries) : ∀ t ∈ armedTraps depth fr.height fr.fn fr.fp c.nLocals base tries,
      t.InFrame W fr := by
  intro t ht
  obtain ⟨u, hu, rfl⟩ := mem_map.mp ht
  obtain ⟨hmem, hcov⟩ := hin u hu
  exact ⟨rfl, rfl, rfl, c, u.1, hc, hmem, hcov, rfl⟩

lemma Below.traps {depth fn : ℕ} {rs : List Ctx} {ts : List Trap}
    (h : Below W depth fn rs ps ts) : ∀ t ∈ ts, ∃ fr ∈ callers fn rs, t.InFrame W fr := by
  induction h with
  | nil => simp
  | @cons fn ctx rs ps ts c base pre tries hg hlen hroom hgood hx hb ih =>
    intro t ht
    rcases mem_append.mp ht with ht | ht
    · exact ⟨⟨ctx.fn.getD fn, ctx.fp, ctx.ip, rs.length⟩, mem_cons_self,
        armedTraps_inFrame ⟨ctx.fn.getD fn, ctx.fp, ctx.ip, rs.length⟩ hg.code hx.within t ht⟩
    · obtain ⟨fr, hfr, hin⟩ := ih t ht
      exact ⟨fr, mem_cons_of_mem _ hfr, hin⟩

def Instr.InRange (s : RayExec) (next : ℕ) : Instr → Prop
  | .loadconst idx => idx < s.code.consts.length
  | .resolve idx | .storeglobal idx => s.symConst idx = true
  | .loadenv slot | .storeenv slot => slot < s.nLocals
  | .jmp offset | .jmpf offset | .trap offset => jump next offset < s.code.bytes.length
  | .scopeBegin | .scopeEnd => ∃ l, s.ps.getLast? = some (some (.names l)) ∧ l.length ≤ s.nLocals
  | _ => True

structure Safe (lam : ℕ → Lambda) (isTruthy : Option Obj → Bool) (s : RayExec) : Prop where
  floor : s.fp + s.nLocals ≤ s.ps.length
  operands : ∃ i next, decode s.code.bytes s.ip = some (i, next) ∧ i.InRange s next
  traps : ∀ t ∈ s.ts, ∃ fr ∈ s.frames, t.InFrame s.world.code fr
  goesOn : ∀ r, Admits lam r s → step lam isTruthy r s ≠ .stuck
  returns : ∀ r v w, Admits lam r s → step lam isTruthy r s = .returned v w → w.depth = s.scopeBase
  fails : ∀ r e w, Admits lam r s → step lam isTruthy r s = .failed e w → w.depth = s.scopeBase
  delivers : ∀ r e s1, Admits lam r s → exec lam isTruthy r s = .raise e s1 →
    match enclosing s.world.code s.frames with
    | some (fr, b) => ∃ s', step lam isTruthy r s = .run s' ∧ s'.fn = fr.fn ∧ s'.fp = fr.fp ∧ s'.ip = b.handler ∧
        s'.rs.length = fr.height ∧ s'.ps.getLast? = some (some (errValue e s1))
    | none => ∃ w, step lam isTruthy r s = .failed e w

structure Enters (lam : ℕ → Lambda) (w : World) (a : ℕ) (c : Code) (args : List (Option Obj)) : Prop where
  code : w.code a = some c
  compiled : Compiled lam w.code
  arity : args.length = (lam a).params.length

inductive Reaches (lam : ℕ → Lambda) (isTruthy : Option Obj → Bool) (s0 : RayExec) : RayExec → Prop
  | refl : Reaches lam isTruthy s0 s0
  | step {s s' : RayExec} {r : Reply} (h : Reaches lam isTruthy s0 s) (hr : Admits lam r s)
      (hs : step lam isTruthy r s = .run s') : Reaches lam isTruthy s0 s'

section

variable {lam : ℕ → Lambda} {isTruthy : Option Obj → Bool} {s s' : RayExec} {ty : Ty} {base : ℕ}
    {outer : List Trap} {r : Reply}

lemma Unwinds.deliver {pre : List Kind} {tries : List (TryBody × ℕ)}
    (h : Unwinds s base pre tries outer) (e : Err) :
    (s.ts = [] ∧ ∃ w, deliver e s s.ts = .failed e w ∧ w.depth = s.scopeBase) ∨
      ∃ t ts, s.ts = t :: ts ∧ ∃ s', deliver e s s.ts = .run s' ∧ s'.scopeBase = s.scopeBase ∧
        s'.world.code = s.world.code ∧
        s'.fn = t.fn ∧ s'.fp = t.fp ∧ s'.ip = t.handlerIp ∧ s'.rs.length = t.rp ∧
        s'.ps.getLast? = some (some (errValue e s)) ∧ ∃ ty base outer, Runs s' ty base outer := by
  cases hts : s.ts with
  | nil => exact .inl ⟨rfl, _, rfl, Nat.min_eq_right h.depth⟩
  | cons t ts =>
    obtain ⟨fr, b, ⟨r⟩⟩ := h.resumes hts
    exact .inr ⟨t, ts, rfl, r.deliver h.depth e⟩

lemma Runs.step (isTruthy : Option Obj → Bool) (hlam : ∀ a, Loadable (lam a)) (h : Runs s ty base outer)
    (hc : Compiled lam s.world.code) (hr : Admits lam r s) :
    match step lam isTruthy r s with
    | .run s' => s'.scopeBase = s.scopeBase ∧ Compiled lam s'.world.code ∧ ∃ ty base outer, Runs s' ty base outer
    | .returned _ w => w.depth = s.scopeBase
    | .failed _ w => w.depth = s.scopeBase
    | .stuck => False := by
  have hsound := exec_sound hlam isTruthy h hc hr
  rw [Vm.step]
  cases he : exec lam isTruthy r s with
  | next s1 =>
    rw [he] at hsound
    exact hsound
  | done v w =>
    rw [he] at hsound
    exact hsound
  | stuck =>
    rw [he] at hsound
    exact hsound
  | raise e s1 =>
    rw [he] at hsound
    obtain ⟨hb, hts, hc1, _, _, _, _, hun⟩ := hsound
    dsimp only
    rcases hun.deliver e with ⟨-, w, hw, hd⟩ | ⟨t, ts, -, s', hs', hb', hcode, -, -, -, -, -, hruns⟩
    · rw [hw]
      exact hd.trans hb
    · rw [hs']
      exact ⟨hb'.trans hb, hcode ▸ hc1, hruns⟩

lemma Good.lt_length {c : Code} {pos : ℕ} (h : Good c pos ty) : pos < c.bytes.length := by
  cases h with
  | step hd =>
    rw [decode] at hd
    obtain ⟨op, hop, -⟩ := bind_eq_some_iff.mp hd
    obtain ⟨b, hb, -⟩ := bind_eq_some_iff.mp hop
    exact (List.getElem?_eq_some_iff.mp hb).1

lemma Runs.operands (h : Runs s ty base outer) :
    ∃ i next, decode s.code.bytes s.ip = some (i, next) ∧ i.InRange s next := by
  cases h.good with
  | @step _ next i _ succs hd hs hin hg =>
    refine ⟨i, next, hd, ?_⟩
    cases hs with
    | simple hcons hx hn hk hw =>
      cases hcons with
      | loadconst hv hacc => exact (List.getElem?_eq_some_iff.mp hv).1
      | loadenv hlt => exact hlt.trans_eq h.locals.symm
      | storeenv hlt => exact hlt.trans_eq h.locals.symm
      | resolve hv => simp [Instr.InRange, RayExec.symConst, hv]
      | storeglobal hv => simp [Instr.InRange, RayExec.symConst, hv]
      | _ => trivial
    | jmp => exact (hg _ mem_cons_self).lt_length
    | jmpf hk => exact (hg _ (mem_cons_of_mem _ mem_cons_self)).lt_length
    | trap hx hh hk =>
      have := (hg _ (mem_cons_of_mem _ mem_cons_self)).lt_length
      rw [hh] at this
      exact this
    | scopeBegin hx hk hn =>
      obtain ⟨v, hv, l, hl, hlen⟩ := h.toAt.top
      cases hl
      exact ⟨l, hv, hlen.trans_le (h.locals ▸ hn)⟩
    | scopeEnd hk hn =>
      obtain ⟨v, hv, l, hl, hlen⟩ := h.toAt.top
      cases hl
      exact ⟨l, hv, hlen.trans_le (h.locals ▸ hn)⟩
    | _ => trivial

lemma Runs.traps_inFrame (h : Runs s ty base outer) : ∀ t ∈ s.ts, ∃ fr ∈ s.frames, t.InFrame s.world.code fr := by
  intro t ht
  have hin : Within s.code s.ip ty.tries := by
    cases h.good with
    | step hd hs hin hg => exact hin
  rw [h.traps, h.locals] at ht
  rcases mem_append.mp ht with ht | ht
  · exact ⟨_, mem_cons_self, armedTraps_inFrame ⟨s.fn, s.fp, s.ip, s.rs.length⟩ h.guard.code hin t ht⟩
  · obtain ⟨fr, hfr, ht⟩ := h.below.traps t ht
    exact ⟨fr, mem_cons_of_mem _ hfr, ht⟩

lemma Runs.safe (hlam : ∀ a, Loadable (lam a)) (h : Runs s ty base outer) (hc : Compiled lam s.world.code) :
    Safe lam isTruthy s where
  floor := by
    have hfloor := h.guard.floor
    have hle := h.guard.le
    rw [h.locals]
    omega
  operands := h.operands
  traps := h.traps_inFrame
  goesOn r hr hs := by
    have := h.step isTruthy hlam hc hr
    rwa [hs] at this
  returns r v w hr hs := by
    have := h.step isTruthy hlam hc hr
    rwa [hs] at this
  fails r e w hr hs := by
    have := h.step isTruthy hlam hc hr
    rwa [hs] at this
  delivers r e s1 hr he := by
    have hsound := exec_sound hlam isTruthy h hc hr
    rw [he] at hsound
    obtain ⟨hb, hts, hc1, _, _, _, _, hun⟩ := hsound
    obtain ⟨hnone, hsome⟩ := h.enclosing (h.exact_of_raise he)
    have hstep : Vm.step lam isTruthy r s = deliver e s1 s1.ts := by rw [Vm.step, he]
    rcases hun.deliver e with ⟨hnil, w, hw, -⟩ | ⟨t, ts, hcons, s', hs', -, -, h1, h2, h3, h4, h5, -⟩
    · rw [hnone (hts ▸ hnil)]
      exact ⟨w, hstep.trans hw⟩
    · obtain ⟨fr, b, hfind, e1, e2, e3, e4⟩ := hsome t ts (hts ▸ hcons)
      rw [hfind]
      exact ⟨s', hstep.trans hs', h1.trans e1, h2.trans e2, h3.trans e3, h4.trans e4, h5⟩

lemma Enters.runs {w : World} {a : ℕ} {c : Code} {args : List (Option Obj)} (hlam : ∀ a, Loadable (lam a))
    (h : Enters lam w a c args) : Runs (start w a c args) ⟨[], [], false⟩ c.nLocals [] := by
  obtain ⟨g, hcomp⟩ := h.compiled a c h.code
  obtain ⟨hv, hparams, -⟩ := rayCompile_verified hcomp (hlam a).1 ((hlam a).2 g c hcomp)
  have hlen : (args ++ replicate (c.nLocals - args.length) none).length = c.nLocals := by
    rw [length_append, length_replicate, h.arity]
    omega
  refine ⟨⟨⟨rfl, ⟨h.code, ?_, ?_, ?_, ?_, trivial, by simp⟩, .nil, rfl, le_rfl⟩, ?_, rfl⟩, hv⟩
  · exact (Nat.zero_add _).le
  · exact hlen.ge
  · intro v hv
    change v ∈ (args ++ replicate (c.nLocals - args.length) none).drop (0 + c.nLocals) at hv
    rw [Nat.zero_add, drop_eq_nil_of_le hlen.le] at hv
    cases hv
  · exact .nil
  · exact hlen

/-- Each reached state of emitted code is safe. -/
theorem reached_safe {w : World} {a : ℕ} {c : Code} {args : List (Option Obj)} (hlam : ∀ a, Loadable (lam a))
    (he : Enters lam w a c args) (h : Reaches lam isTruthy (start w a c args) s) :
    Safe lam isTruthy s ∧ s.scopeBase = w.depth := by
  have hinv : s.scopeBase = w.depth ∧ Compiled lam s.world.code ∧ ∃ ty base outer, Runs s ty base outer := by
    induction h with
    | refl => exact ⟨rfl, he.compiled, _, _, _, he.runs hlam⟩
    | step _ hr hs ih =>
      obtain ⟨hb, hc, _, _, _, hruns⟩ := ih
      have hstep := hruns.step isTruthy hlam hc hr
      rw [hs] at hstep
      exact ⟨hstep.1.trans hb, hstep.2⟩
  obtain ⟨hb, hc, _, _, _, hruns⟩ := hinv
  exact ⟨hruns.safe hlam hc, hb⟩

/-- The lambda `(fn [x] (try x x))`, stopped inside its try body. -/
theorem reached_safe_try :
    let lam : ℕ → Lambda := fun _ => ⟨["x"], [.list 0 [.sym "try" false, .sym "x" false, .sym "x" false]]⟩
    let g : Globals := ⟨fun _ => none, fun _ => false⟩
    let c : Code := ⟨[17, 0, 6, 4, 0, 18, 1, 0, 7, 5, 1, 4, 0, 4, 1, 23, 0], [], 2, [⟨3, 5, 9⟩]⟩
    let w : World := ⟨g, fun _ => some c, 0, none, false⟩
    let s : RayExec := { start w 0 c [some (.i64 7)] with ip := 3, ts := [⟨0, 2, 9, 0, 0, 2, 0⟩] }
    Safe lam (fun _ => true) s ∧ s.scopeBase = w.depth := by
  intro lam g c w s
  have hcode : ∀ g, rayCompile g
      ⟨["x"], [.list 0 [.sym "try" false, .sym "x" false, .sym "x" false]]⟩ = some c := by
    intro g
    rfl
  have hcomp : Compiled lam w.code := by
    rintro a d hd
    cases hd
    exact ⟨g, hcode g⟩
  have hdec : decode c.bytes 0 = some (.trap 6, 3) := by decide
  have hstep : step lam (fun _ => true) ⟨w, .ok .null, true, [], false⟩
      (start w 0 c [some (.i64 7)]) = .run s := by
    rw [step, exec, show decode (start w 0 c [some (.i64 7)]).code.bytes
      (start w 0 c [some (.i64 7)]).ip = _ from hdec]
    rfl
  refine reached_safe (fun a => ⟨by simp [lam, hasError, anyHasError], fun g d hd => ?_⟩) ⟨rfl, hcomp, rfl⟩
    (.step .refl ⟨fun _ _ => id, hcomp, rfl, fun _ _ _ => by decide⟩ hstep)
  cases (hcode g).symm.trans hd
  exact Nat.zero_le _

end

section

variable {g : Globals} {lam : ℕ → Lambda} {isTruthy : Option Obj → Bool}

lemma compileRest_concat (c : Compiler) (es : List Obj) (e : Obj) :
    compileRest g c (es ++ [e]) = (compileRest g c es).bind fun c => compileExpr g (c.emitOp .pop) e := by
  induction es generalizing c with
  | nil =>
    rw [nil_append, compileRest, compileRest, bind_some]
    cases compileExpr g (c.emitOp .pop) e <;> rfl
  | cons x es ih =>
    rw [cons_append, compileRest, compileRest]
    cases compileExpr g (c.emitOp .pop) x with
    | none => rfl
    | some c1 => exact ih c1

lemma compileBody_concat (c : Compiler) {es : List Obj} (hne : es ≠ []) (e : Obj) :
    compileBody g c (es ++ [e]) = (compileBody g c es).bind fun c => compileExpr g (c.emitOp .pop) e := by
  cases es with
  | nil => exact absurd rfl hne
  | cons x es =>
    rw [cons_append, compileBody, compileBody]
    cases compileExpr g c x with
    | none => rfl
    | some c1 => exact compileRest_concat c1 es e

lemma addConstant_fresh (h : ∀ x ∈ c.consts, Obj.same x v = false) :
    c.addConstant v = (c.consts.length, { c with consts := c.consts ++ [v] }) := by
  rw [Compiler.addConstant, findIdx?_eq_none_iff.mpr h]

lemma Reaches.quiet {s0 s s' : RayExec} (h : Reaches lam isTruthy s0 s) (hc : Compiled lam s.world.code)
    (hroom : s.ps.length < vmStackSize)
    (hs : exec lam isTruthy ⟨s.world, .ok .null, true, [], false⟩ s = .next s') :
    Reaches lam isTruthy s0 s' :=
  h.step ⟨fun _ _ => id, hc, rfl, fun _ _ _ => hroom⟩ (by rw [Vm.step, hs])

def loadBytes (idx : ℕ) : List UInt8 :=
  if idx < 256 then [Op.loadconst.byte, UInt8.ofNat idx]
  else [Op.loadconstW.byte, UInt8.ofNat (idx / 256), UInt8.ofNat (idx % 256)]

lemma emitConst_eq (c : Compiler) (idx : ℕ) : c.emitConst idx = { c with code := c.code ++ loadBytes idx } := by
  rw [Compiler.emitConst, Compiler.emitIndexed, loadBytes]
  split_ifs <;> simp [Compiler.emitOp, Compiler.emit]

lemma decode_loadBytes {bytes : List UInt8} {p idx : ℕ} (h : Bytes bytes p (loadBytes idx)) (hidx : idx < 65536) :
    decode bytes p = some (.loadconst idx, p + (loadBytes idx).length) := by
  rw [loadBytes] at h ⊢
  split_ifs at h ⊢ with hn
  · exact decode_two h hn (by simp)
  · exact decode_wide h hidx (by simp)

lemma bytes_of_prefix {code seg bytes : List UInt8} (h : code ++ seg <+: bytes) : Bytes bytes code.length seg := by
  obtain ⟨rest, rfl⟩ := h
  intro i hi
  rw [append_assoc, getElem?_append_right (Nat.le_add_right _ _), Nat.add_sub_cancel_left, getElem?_append_left hi]

lemma loadConstant_fresh (h : ∀ x ∈ c.consts, Obj.same x v = false) :
    c.loadConstant v = { c with code := c.code ++ loadBytes c.consts.length, consts := c.consts ++ [v] } := by
  rw [Compiler.loadConstant, addConstant_fresh h]
  dsimp only
  rw [emitConst_eq]

lemma exec_load {s : RayExec} {r : Reply} {idx : ℕ} (hb : Bytes s.code.bytes s.ip (loadBytes idx))
    (hidx : idx < 65536) (hv : s.code.consts[idx]? = some v) (hroom : s.ps.length < vmStackSize) :
    exec lam isTruthy r s = .next { s with ip := s.ip + (loadBytes idx).length, ps := s.ps ++ [some v] } := by
  rw [exec, decode_loadBytes hb hidx]
  dsimp only
  rw [hv]
  dsimp only
  rw [RayExec.push, if_neg (by dsimp only; omega)]

lemma exec_pop {s : RayExec} {r : Reply} {v : Option Obj} (hb : Bytes s.code.bytes s.ip [Op.pop.byte])
    (hps : s.ps = ps ++ [v]) (hfloor : s.fp + s.nLocals ≤ ps.length) :
    exec lam isTruthy r s = .next { s with ip := s.ip + 1, ps := ps } := by
  rw [exec, decode_one (i := .pop) hb (by simp)]
  dsimp only
  rw [hps, if_pos (by rw [length_append, length_singleton]; omega), dropLast_concat]

lemma ints_run (g : Globals) (lam : ℕ → Lambda) (isTruthy : Option Obj → Bool) {c0 : Compiler}
    (h0 : c0.consts = []) (ns : List ℤ) (n : ℤ) (hnd : (ns ++ [n]).Nodup) :
    ∃ c, compileBody g c0 ((ns ++ [n]).map .i64) = some c ∧
      c = { c0 with code := c.code, consts := (ns ++ [n]).map .i64 } ∧
      c0.code <+: c.code ∧
      ∀ s : RayExec, Compiled lam s.world.code → s.ip = c0.code.length → s.fp + s.nLocals = s.ps.length →
        s.ps.length + 1 < vmStackSize → c.code <+: s.code.bytes → c.consts <+: s.code.consts → ns.length < 65536 →
        Reaches lam isTruthy s { s with ip := c.code.length, ps := s.ps ++ [some (.i64 n)] } := by
  induction ns using reverseRecOn generalizing n with
  | nil =>
    have hload : c0.loadConstant (.i64 n) = { c0 with code := c0.code ++ loadBytes 0, consts := [.i64 n] } := by
      rw [loadConstant_fresh (by simp [h0]), h0]
      rfl
    refine ⟨c0.loadConstant (.i64 n), ?_, ?_, ?_, fun s hc hip hfloor hroom hcode hconsts _ => ?_⟩
    · simp [compileBody, compileRest, compileExpr]
    · rw [hload]
      rfl
    · rw [hload]
      exact prefix_append _ _
    · rw [hload] at hcode hconsts ⊢
      obtain ⟨rest, hrest⟩ := hconsts
      have hload0 : Bytes s.code.bytes s.ip (loadBytes 0) := by
        rw [hip]
        exact bytes_of_prefix hcode
      have hval : s.code.consts[0]? = some (.i64 n) := by
        rw [← hrest]
        rfl
      have := (Reaches.refl : Reaches lam isTruthy s s).quiet hc
        (by omega) (exec_load hload0 (by omega) hval (by omega))
      rwa [hip, ← length_append] at this
  | append_singleton ns m ih =>
    obtain ⟨hnd', hnew⟩ : (ns ++ [m]).Nodup ∧ n ∉ ns ++ [m] := by
      rw [nodup_append] at hnd
      exact ⟨hnd.1, fun hmem => hnd.2.2 n hmem n mem_cons_self rfl⟩
    obtain ⟨c1, hc1, heq, hpre, hrun⟩ := ih m hnd'
    have hconsts1 : c1.consts = (ns ++ [m]).map .i64 := by rw [heq]
    have hfresh : ∀ x ∈ (c1.emitOp .pop).consts, Obj.same x (.i64 n) = false := by
      intro x hx
      rw [show (c1.emitOp .pop).consts = c1.consts from rfl, hconsts1] at hx
      obtain ⟨k, hk, rfl⟩ := mem_map.mp hx
      have : k ≠ n := fun h => hnew (h ▸ hk)
      simp [Obj.same, this]
    obtain ⟨c, hc⟩ : ∃ c, c = (c1.emitOp .pop).loadConstant (.i64 n) := ⟨_, rfl⟩
    have hc' : c = { c1 with code := c1.code ++
        ([Op.pop.byte] ++ loadBytes (ns.length + 1)), consts := c1.consts ++ [.i64 n] } := by
      rw [hc, loadConstant_fresh hfresh, show (c1.emitOp .pop).consts = c1.consts from rfl, hconsts1]
      simp [Compiler.emitOp, Compiler.emit]
    refine ⟨c, ?_, ?_, ?_, fun s hcomp hip hfloor hroom hcode hconsts hlen => ?_⟩
    · rw [map_append, map_singleton, compileBody_concat _ (by simp), hc1, bind_some, hc]
      simp only [compileExpr]
    · rw [hc', hconsts1, heq]
      simp
    · rw [hc']
      exact hpre.trans (prefix_append _ _)
    · rw [length_append, length_singleton] at hlen
      rw [hc'] at hcode hconsts ⊢
      have hprev := hrun s hcomp hip hfloor hroom ((prefix_append _ _).trans hcode)
        ((prefix_append _ _).trans hconsts) (by omega)
      have hb := bytes_of_prefix hcode
      have hpop : Bytes s.code.bytes c1.code.length [Op.pop.byte] := by
        intro i hi
        obtain rfl : i = 0 := by simpa using hi
        exact hb 0 (by simp)
      have hload : Bytes s.code.bytes (c1.code.length + 1) (loadBytes (ns.length + 1)) := by
        intro i hi
        have := hb (i + 1) (by simpa using hi)
        rwa [show c1.code.length + (i + 1) = c1.code.length + 1 + i from by omega] at this
      have hval : s.code.consts[ns.length + 1]? = some (.i64 n) := by
        obtain ⟨rest, hrest⟩ := hconsts
        have hl : c1.consts.length = ns.length + 1 := by rw [hconsts1]; simp
        rw [← hrest, append_assoc, ← hl, getElem?_append_right le_rfl, Nat.sub_self]
        rfl
      have hafter := hprev.quiet hcomp (by simpa using hroom) (exec_pop hpop rfl hfloor.le)
      have hlast := hafter.quiet hcomp (by dsimp only; omega)
        (exec_load hload (by omega) hval (by dsimp only; omega))
      have hend : (c1.code ++ ([Op.pop.byte] ++ loadBytes (ns.length + 1))).length
          = c1.code.length + 1 + (loadBytes (ns.length + 1)).length := by
        simp only [length_append, length_singleton]
        omega
      rw [hend]
      exact hlast

lemma Grows.prefix_code {c c' : Compiler} (h : Grows c c') : c.code <+: c'.code :=
  prefix_iff_getElem?.mpr fun i hi => (h.code_eq i hi).trans (getElem?_eq_getElem hi)

def ints (n : ℕ) : List ℤ := (List.range n).map fun i : ℕ => (i : ℤ) + 5000

lemma ints_succ (n : ℕ) : ints (n + 1) = ints n ++ [(n : ℤ) + 5000] := by
  rw [ints, range_succ, map_append]
  rfl

lemma ints_nodup (n : ℕ) : (ints n).Nodup := by
  refine nodup_range.map fun i j h => ?_
  simpa using h

def wide (n : ℕ) : Lambda := ⟨["x"], (ints n).map .i64 ++ [.list 1 [.sym "select" false, .sym "x" false]]⟩

def selectOnly : Globals := ⟨fun name => if name = "select" then some (.builtin 0 .vary false) else none,
  fun _ => true⟩

lemma compileExpr_select (hl : c.locals = [some "x"])
    (hc : ∀ x ∈ c.consts, Obj.same x (.names [some "x"]) = false) :
    ∃ c', compileExpr selectOnly c (.list 1 [.sym "select" false, .sym "x" false]) = some c' ∧
      c.code ++ (loadBytes c.consts.length ++ [Op.scopeBegin.byte]) <+: c'.code ∧ c.consts <+: c'.consts ∧
      1 ≤ c'.locals.length ∧ c'.locals.length ≤ 256 := by
  obtain ⟨ast, hast⟩ : ∃ ast : Obj, ast = .list 1 [.sym "select" false, .sym "x" false] := ⟨_, rfl⟩
  obtain ⟨e, he⟩ : ∃ e : Compiler, e = { c with
    code := c.code ++ (loadBytes c.consts.length ++ [Op.scopeBegin.byte]), consts :=
      c.consts ++ [.names c.locals] } := ⟨_, rfl⟩
  have hrefs : astRefsLocals c ast = true := by
    rw [hast]
    simp [astRefsLocals, anyRefsLocals, Compiler.symIsLocalRef, hl]
  have hspecial : compileSpecial c ast
      = ((((e.loadConstant ast).emitOp .calld).emit 0).emitConst c.consts.length).emitOp .scopeEnd := by
    rw [compileSpecial, hrefs, hl, addConstant_fresh hc, he, hl]
    simp [emitConst_eq, Compiler.emitOp, Compiler.emit]
  have hgrows : Grows e (compileSpecial c ast) := by
    rw [hspecial]
    exact ((emits_evalForm e ast true).grows.trans (grows_append (emitConst_eq _ _))).trans (grows_append rfl)
  refine ⟨compileSpecial c ast, ?_, ?_, ?_, ?_, ?_⟩
  · rw [hast]
    rfl
  · have := hgrows.prefix_code
    rwa [he] at this
  · have := hgrows.consts
    rw [he] at this
    exact (prefix_append _ _).trans this
  · have := hgrows.locals.length_le
    rwa [he, hl] at this
  · apply hgrows.slots
    simp [he, hl]

lemma wide_run (n : ℕ) (hn : n < 65536) : ∃ f : Code, rayCompile selectOnly (wide (n + 1)) = some f ∧
    f.consts[0]? = some (.i64 5000) ∧ 1 ≤ f.nLocals ∧ f.nLocals ≤ 256 ∧ ∃ p,
      Bytes f.bytes p (loadBytes (n + 1) ++ [Op.scopeBegin.byte]) ∧
      ∀ (lam : ℕ → Lambda) (isTruthy : Option Obj → Bool) (s : RayExec), Compiled lam s.world.code →
        s.code = f → s.ip = 0 →
        s.fp + s.nLocals = s.ps.length → s.ps.length + 1 < vmStackSize →
          Reaches lam isTruthy s { s with ip := p } := by
  obtain ⟨c0, hc0⟩ : ∃ c0 : Compiler, c0 = { Compiler.init with locals := [some "x"] } := ⟨_, rfl⟩
  have hnd := ints_nodup (n + 1)
  rw [ints_succ] at hnd
  have hempty : c0.consts = [] := by rw [hc0]; rfl
  obtain ⟨c1, hc1, heq, -, -⟩ := ints_run selectOnly (fun _ => ⟨[], []⟩) (fun _ => true) hempty (ints n) _ hnd
  have hconsts1 : c1.consts = (ints (n + 1)).map .i64 := by
    rw [heq, ints_succ]
  have hlen1 : c1.consts.length = n + 1 := by simp [hconsts1, ints]
  have hlocals : (c1.emitOp .pop).locals = [some "x"] := by
    rw [show (c1.emitOp .pop).locals = c1.locals from rfl, heq, hc0]
  have hfresh : ∀ x ∈ (c1.emitOp .pop).consts, Obj.same x (.names [some "x"]) = false := by
    intro x hx
    rw [show (c1.emitOp .pop).consts = c1.consts from rfl, hconsts1] at hx
    obtain ⟨k, -, rfl⟩ := mem_map.mp hx
    rfl
  obtain ⟨c2, hc2, hcode2, hconsts2, hmin, hmax⟩ := compileExpr_select hlocals hfresh
  rw [show (c1.emitOp .pop).consts = c1.consts from rfl, hlen1] at hcode2
  obtain ⟨f, hf⟩ : ∃ f : Code, f = ⟨(c2.emitOp .ret).code, c2.consts, c2.locals.length, c2.tries⟩ := ⟨_, rfl⟩
  have hcompile : rayCompile selectOnly (wide (n + 1)) = some f := by
    rw [rayCompile, show addParams .init (wide (n + 1)).params = some c0 from by rw [hc0]; rfl, wide, ints_succ]
    rw [bind_eq_bind, bind_some, compileBody_concat _ (by simp), hc1, bind_some, hc2, hf]
    rfl
  have hbytes : c1.code ++ ([Op.pop.byte] ++ (loadBytes (n + 1) ++ [Op.scopeBegin.byte])) <+: f.bytes := by
    rw [hf, ← append_assoc]
    exact hcode2.trans (prefix_append _ _)
  have hb := bytes_of_prefix hbytes
  refine ⟨f, hcompile, ?_, hf ▸ hmin, hf ▸ hmax, c1.code.length + 1, ?_,
    fun lam isTruthy s hcomp hcode hip hfloor hroom => ?_⟩
  · obtain ⟨rest, hrest⟩ := hconsts2
    rw [hf]
    dsimp only
    rw [← hrest, show (c1.emitOp .pop).consts = c1.consts from rfl, hconsts1]
    simp [ints, range_succ_eq_map]
  · intro i hi
    have := hb (i + 1) (by simpa using hi)
    rwa [show c1.code.length + (i + 1) = c1.code.length + 1 + i from by omega] at this
  · obtain ⟨c1', hc1', -, -, hrun⟩ := ints_run selectOnly lam isTruthy hempty (ints n) _ hnd
    obtain rfl : c1 = c1' := some.inj (hc1.symm.trans hc1')
    have hstart : s.ip = c0.code.length := by rw [hip, hc0]; rfl
    have hpre : c1.consts <+: s.code.consts := by
      rw [hcode, hf]
      exact hconsts2
    have hpop : Bytes s.code.bytes c1.code.length [Op.pop.byte] := by
      intro i hi
      obtain rfl : i = 0 := by simpa using hi
      rw [hcode]
      exact hb 0 (by simp)
    have hprev := hrun s hcomp hstart hfloor hroom ((prefix_append _ _).trans (hcode ▸ hbytes)) hpre
      (by simpa [ints] using hn)
    exact hprev.quiet hcomp (by simpa using hroom) (exec_pop hpop rfl hfloor.le)

/-- The special form takes the first integer for its names. -/
theorem not_reached_safe : ¬ ∀ (lam : ℕ → Lambda) (isTruthy : Option Obj → Bool) (w : World) (a : ℕ) (c : Code)
    (args : List (Option Obj)) (s : RayExec), Enters lam w a c args → Reaches lam isTruthy (start w a c args) s →
      Safe lam isTruthy s ∧ s.scopeBase = w.depth := by
  intro hall
  obtain ⟨n, hn⟩ : ∃ n, n = 65535 := ⟨_, rfl⟩
  obtain ⟨f, hcompile, hfirst, hmin, hmax, p, hb, hrun⟩ := wide_run n (by omega)
  have hload : loadBytes (n + 1) = [Op.loadconstW.byte, UInt8.ofNat (0 / 256), UInt8.ofNat (0 % 256)] := by
    rw [hn]
    rfl
  rw [hload] at hb
  have hzero : Bytes f.bytes p [Op.loadconstW.byte, UInt8.ofNat (0 / 256), UInt8.ofNat (0 % 256)] := fun i hi => by
    rw [hb i (by simpa using Nat.lt_succ_of_lt hi), getElem?_append_left hi]
  have hbegin : Bytes f.bytes (p + 3) [Op.scopeBegin.byte] := fun i hi => by
    obtain rfl : i = 0 := by simpa using hi
    exact hb 3 (by simp)
  obtain ⟨w, hw⟩ : ∃ w : World, w = ⟨selectOnly, fun a => if a = 0 then some f else none, 0, none, false⟩ :=
    ⟨_, rfl⟩
  have hcomp : Compiled (fun _ => wide (n + 1)) w.code := by
    intro a c hc
    rw [hw] at hc
    dsimp only at hc
    split_ifs at hc
    cases hc
    exact ⟨_, hcompile⟩
  have henter : Enters (fun _ => wide (n + 1)) w 0 f [some (.i64 1)] := ⟨by rw [hw]; rfl, hcomp, rfl⟩
  obtain ⟨s, hs⟩ : ∃ s, s = start w 0 f [some (.i64 1)] := ⟨_, rfl⟩
  have hps : s.ps.length = f.nLocals := by
    rw [hs]
    simp only [start, length_append, length_singleton, length_replicate]
    omega
  have hfloor : s.fp + s.nLocals = s.ps.length := by
    rw [hps, hs]
    exact Nat.zero_add _
  have hreach := hrun (fun _ => wide (n + 1)) (fun _ => true) s (by rw [hs]; exact hcomp) (by rw [hs]; rfl)
    (by rw [hs]; rfl) hfloor (by rw [hps, vmStackSize]; omega)
  have hcode : s.code = f := by rw [hs]; rfl
  have hexec : exec (fun _ => wide (n + 1)) (fun _ => true) ⟨s.world, .ok .null, true, [], false⟩
    { s with ip := p } = .next { s with ip := p + 3, ps := s.ps ++ [some (.i64 5000)] } := by
    have hdec : decode s.code.bytes p = some (.loadconst 0, p + 3) :=
      decode_wide (hcode ▸ hzero) (by omega) (by simp)
    rw [exec, hdec]
    dsimp only
    rw [hcode, hfirst]
    dsimp only
    rw [RayExec.push, if_neg (by dsimp only; rw [hps, vmStackSize]; omega)]
  have hnext := hreach.quiet (by rw [hs]; exact hcomp) (by dsimp only; rw [hps, vmStackSize]; omega) hexec
  have hsafe : Safe (fun _ => wide (n + 1)) (fun _ => true)
      { s with ip := p + 3, ps := s.ps ++ [some (.i64 5000)] } :=
    (hall _ _ w 0 f _ _ henter (by rw [← hs]; exact hnext)).1
  obtain ⟨i, next, hdec, hrange⟩ := hsafe.operands
  have hdec' : decode s.code.bytes (p + 3) = some (.scopeBegin, p + 4) := decode_one (hcode ▸ hbegin) (by simp)
  cases hdec'.symm.trans hdec
  obtain ⟨l, hl, -⟩ := hrange
  dsimp only at hl
  rw [getLast?_concat] at hl
  cases hl

end

end Rayforce.Vm
