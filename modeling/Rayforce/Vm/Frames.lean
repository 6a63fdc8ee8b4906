import Rayforce.Vm.Emitted

namespace Rayforce.Vm

open List

variable {rest : List (TryBody × ℕ)} {b : TryBody} {n : ℕ} {fr : Frame}

abbrev Table := ℕ → Option Code

def Table.Grows (W W' : Table) : Prop := ∀ a c, W a = some c → W' a = some c

def Armed (c : Code) (kinds : List Kind) : List (TryBody × ℕ) → Prop
  | [] => True
  | (b, n) :: rest =>
    n ≤ kinds.length ∧ Good c b.handler ⟨kinds.take n ++ [.any], rest, false⟩ ∧ Armed c (kinds.take n) rest

lemma Armed.congr {c : Code} {pre x y : List Kind} {tries : List (TryBody × ℕ)} (h : Armed c (pre ++ x) tries)
    (hk : ∀ t ∈ tries, t.2 ≤ pre.length) : Armed c (pre ++ y) tries := by
  cases tries with
  | nil => trivial
  | cons t rest =>
    obtain ⟨b, n⟩ := t
    have hn : n ≤ pre.length := hk (b, n) mem_cons_self
    obtain ⟨-, hgood, hrest⟩ := h
    rw [take_append_of_le_length hn] at hgood hrest
    refine ⟨hn.trans (by simp), ?_, ?_⟩
    · rwa [take_append_of_le_length hn]
    · rwa [take_append_of_le_length hn]

lemma Armed.append {c : Code} {x : List Kind} (y : List Kind) {tries : List (TryBody × ℕ)} (h : Armed c x tries) :
    Armed c (x ++ y) tries := by
  cases tries with
  | nil => trivial
  | cons t rest =>
    obtain ⟨hn, hgood, hrest⟩ := h
    refine ⟨hn.trans (by simp), ?_, ?_⟩
    · rwa [take_append_of_le_length hn]
    · rwa [take_append_of_le_length hn]

structure Guard (W : Table) (fn fp : ℕ) (c : Code) (base : ℕ) (pre : List Kind) (tries : List (TryBody × ℕ))
    (ps : List (Option Obj)) : Prop where
  code : W fn = some c
  floor : fp + c.nLocals ≤ base
  le : base + pre.length ≤ ps.length
  solid : ∀ v ∈ ps.drop (fp + c.nLocals), v.isSome = true
  ops : List.Forall₂ Kind.accepts pre ((ps.drop base).take pre.length)
  armed : Armed c pre tries
  room : ∀ t ∈ tries, base + t.2 < vmStackSize

def armedTraps (depth height fn fp nLocals base : ℕ) (tries : List (TryBody × ℕ)) : List Trap :=
  tries.map fun t => ⟨height, base + t.2, t.1.handler, fn, fp, nLocals, depth⟩

inductive Below (W : Table) (depth : ℕ) : ℕ → List Ctx → List (Option Obj) → List Trap → Prop
  | nil {fn ps} : Below W depth fn [] ps []
  | cons {fn ctx rs ps ts c base pre tries} (hg : Guard W (ctx.fn.getD fn) ctx.fp c base pre tries ps)
      (hlen : ps.length = base + pre.length) (hroom : ps.length < vmStackSize)
      (hgood : Good c ctx.ip ⟨pre ++ [.any], tries, false⟩) (hx : Exact c ctx.ip tries)
      (hb : Below W depth (ctx.fn.getD fn) rs (ps.take ctx.fp) ts) :
      Below W depth fn (ctx :: rs) ps
        (armedTraps depth rs.length (ctx.fn.getD fn) ctx.fp c.nLocals base tries ++ ts)

section

variable {W W' : Table} {fn fp base depth : ℕ} {c : Code} {pre x : List Kind} {tries : List (TryBody × ℕ)}
  {ps ps' : List (Option Obj)} {rs : List Ctx} {ts : List Trap}

lemma Guard.grow (h : Guard W fn fp c base pre tries ps) (hW : W.Grows W') : Guard W' fn fp c base pre tries ps :=
  { h with code := hW _ _ h.code }

lemma Below.grow (h : Below W depth fn rs ps ts) (hW : W.Grows W') : Below W' depth fn rs ps ts := by
  induction h with
  | nil => exact .nil
  | cons hg hlen hroom hgood hx _ ih => exact .cons (hg.grow hW) hlen hroom hgood hx ih

lemma Guard.replace (h : Guard W fn fp c base (pre ++ x) tries ps) (hk : ∀ t ∈ tries, t.2 ≤ pre.length)
    (hle : base + pre.length ≤ ps'.length) (hsolid : ∀ v ∈ ps'.drop (fp + c.nLocals), v.isSome = true)
    (heq : (ps'.drop base).take pre.length = (ps.drop base).take pre.length) :
      Guard W fn fp c base pre tries ps' where
  code := h.code
  floor := h.floor
  le := hle
  solid := hsolid
  ops := by
    have := forall₂_take pre.length h.ops
    rw [take_left, take_take, length_append, Nat.min_eq_left (Nat.le_add_right _ _)] at this
    rwa [heq]
  armed := by
    have := h.armed.congr (y := []) hk
    rwa [append_nil] at this
  room := h.room

lemma Guard.head (h : Guard W fn fp c base pre ((b, n) :: tries) ps) :
    Good c b.handler ⟨pre.take n ++ [.any], tries, false⟩ ∧ n ≤ pre.length ∧
      ∀ v : Obj, Guard W fn fp c base (pre.take n ++ [.any]) tries (ps.take (base + n) ++ [some v]) := by
  obtain ⟨hn, hgood, hrest⟩ := h.armed
  have hfloor := h.floor
  have hle := h.le
  have hlen : (ps.take (base + n)).length = base + n := by
    rw [length_take]
    omega
  refine ⟨hgood, hn, fun v => ⟨h.code, hfloor, ?_, ?_, ?_, ?_, fun t ht => h.room t (mem_cons_of_mem _ ht)⟩⟩
  · simp only [length_append, length_take, length_singleton]
    omega
  · intro u hu
    rw [drop_append_of_le_length (by omega)] at hu
    rcases mem_append.mp hu with hu | hu
    · rw [drop_take] at hu
      exact h.solid u (mem_of_mem_take hu)
    · rw [mem_singleton.mp hu]
      rfl
  · have hops := forall₂_take n h.ops
    rw [take_take, Nat.min_eq_left hn] at hops
    have hfit : ((ps.drop base).take n ++ [some v]).length ≤ (pre.take n ++ [Kind.any]).length := by
      simp only [length_append, length_take, length_singleton, length_drop]
      omega
    rw [drop_append_of_le_length (by omega), drop_take, Nat.add_sub_cancel_left, take_of_length_le hfit]
    exact rel_append hops (.cons (show Kind.accepts .any (some v) from rfl) .nil)
  · exact hrest.append _

end

structure Frame where
  fn : ℕ
  fp : ℕ
  ip : ℕ
  height : ℕ

def callers (fn : ℕ) : List Ctx → List Frame
  | [] => []
  | ctx :: rs => ⟨ctx.fn.getD fn, ctx.fp, ctx.ip, rs.length⟩ :: callers (ctx.fn.getD fn) rs

def RayExec.frames (s : RayExec) : List Frame := ⟨s.fn, s.fp, s.ip, s.rs.length⟩ :: callers s.fn s.rs

def tryAround (W : Table) (fr : Frame) : Option (Frame × TryBody) :=
  ((W fr.fn).bind fun c => c.tries.find? (·.covers fr.ip)).map (fr, ·)

def enclosing (W : Table) (frames : List Frame) : Option (Frame × TryBody) := frames.findSome? (tryAround W)

lemma tryAround_nil {W : Table} {c : Code} (hc : W fr.fn = some c) (hx : Exact c fr.ip []) :
    tryAround W fr = none := by
  have hnone : c.tries.find? (·.covers fr.ip) = none := by
    rw [← head?_filter, ← hx]
    rfl
  simp [tryAround, hc, hnone]

lemma tryAround_cons {W : Table} {c : Code}
    (hc : W fr.fn = some c) (hx : Exact c fr.ip ((b, n) :: rest)) : tryAround W fr = some (fr, b) := by
  have hfind : c.tries.find? (·.covers fr.ip) = some b := by
    rw [← head?_filter, ← hx]
    rfl
  simp [tryAround, hc, hfind]

structure Resumes (W : Table) (depth : ℕ) (rs : List Ctx) (ps : List (Option Obj)) (t : Trap)
    (ts : List Trap) (fr : Frame)
    (b : TryBody) where
  c : Code
  base : ℕ
  pre : List Kind
  n : ℕ
  rest : List (TryBody × ℕ)
  outer : List Trap
  rs' : List Ctx
  ps' : List (Option Obj)
  guard : Guard W fr.fn fr.fp c base pre ((b, n) :: rest) ps'
  height : rs'.length = fr.height
  suffix : rs' <:+ rs
  stack : ps' <+: ps
  below : Below W depth fr.fn rs' (ps'.take fr.fp) outer
  trap : t = ⟨fr.height, base + n, b.handler, fr.fn, fr.fp, c.nLocals, depth⟩
  traps : ts = armedTraps depth fr.height fr.fn fr.fp c.nLocals base rest ++ outer

lemma enclosing_cons_nil {W : Table} (fr : Frame) (frames : List Frame) {c : Code} (hc : W fr.fn = some c)
    (hx : Exact c fr.ip []) : enclosing W (fr :: frames) = enclosing W frames := by
  simp only [enclosing, findSome?_cons, tryAround_nil hc hx]

lemma enclosing_cons {W : Table} (fr : Frame) (frames : List Frame) {c : Code}
    (hc : W fr.fn = some c) (hx : Exact c fr.ip ((b, n) :: rest)) : enclosing W (fr :: frames) = some (fr, b) := by
  simp only [enclosing, findSome?_cons, tryAround_cons hc hx]

lemma Below.enclosing_eq_none {W : Table} {depth fn : ℕ} {rs : List Ctx} {ps : List (Option Obj)} {ts : List Trap}
    (h : Below W depth fn rs ps ts) (hts : ts = []) : enclosing W (callers fn rs) = none := by
  induction h with
  | nil => rfl
  | @cons fn ctx rs ps ts c base pre tries hg hlen hroom hgood hx hb ih =>
    obtain ⟨htries, hrest⟩ := append_eq_nil_iff.mp hts
    obtain rfl : tries = [] := map_eq_nil_iff.mp htries
    exact (enclosing_cons_nil ⟨ctx.fn.getD fn, ctx.fp, ctx.ip, rs.length⟩ _ hg.code hx).trans (ih hrest)

lemma Below.resumes {W : Table} {depth fn : ℕ} {rs : List Ctx} {ps : List (Option Obj)}
    {ts ts' : List Trap} {t : Trap} (h : Below W depth fn rs ps ts) (hts : ts = t :: ts') :
    ∃ fr b, enclosing W (callers fn rs) = some (fr, b) ∧ Nonempty (Resumes W depth rs ps t ts' fr b) := by
  induction h with
  | nil => cases hts
  | @cons fn ctx rs ps ts c base pre tries hg hlen hroom hgood hx hb ih =>
    cases tries with
    | nil =>
      have hskip := enclosing_cons_nil ⟨ctx.fn.getD fn, ctx.fp, ctx.ip, rs.length⟩
        (callers (ctx.fn.getD fn) rs) hg.code hx
      obtain ⟨fr, b, hfind, ⟨r⟩⟩ := ih hts
      exact ⟨fr, b, hskip.trans hfind, ⟨{ r with
        suffix := r.suffix.trans (suffix_cons _ _)
        stack := r.stack.trans (List.take_prefix _ _) }⟩⟩
    | cons u rest =>
      obtain ⟨b, n⟩ := u
      obtain ⟨rfl, rfl⟩ := cons.inj hts
      exact ⟨⟨ctx.fn.getD fn, ctx.fp, ctx.ip, rs.length⟩, b, enclosing_cons _ _ hg.code hx,
        ⟨c, base, pre, n, rest, ts, rs, ps, hg, rfl, suffix_cons _ _, prefix_rfl, hb, rfl, rfl⟩⟩

end Rayforce.Vm
