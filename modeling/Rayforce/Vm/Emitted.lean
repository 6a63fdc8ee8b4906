import Rayforce.Vm.Machine

namespace Rayforce.Vm

inductive Kind
  | any
  | fn
  | names (n : ℕ)

def Kind.accepts : Kind → Option Obj → Prop
  | .any, v => v.isSome = true
  | .fn, v => ∃ a k r, v = some (.builtin a k r)
  | .names n, v => ∃ l : List (Option String), v = some (.names l) ∧ l.length = n

lemma Kind.accepts.isSome {k : Kind} {v : Option Obj} (h : k.accepts v) : v.isSome = true := by
  cases k with
  | any => exact h
  | fn =>
    obtain ⟨a, kind, r, rfl⟩ := h
    rfl
  | names n =>
    obtain ⟨l, rfl, -⟩ := h
    rfl

structure Ty where
  kinds : List Kind
  tries : List (TryBody × ℕ)
  window : Bool

def Exact (c : Code) (pos : ℕ) (tries : List (TryBody × ℕ)) : Prop :=
  tries.map Prod.fst = c.tries.filter (·.covers pos)

def Within (c : Code) (pos : ℕ) (tries : List (TryBody × ℕ)) : Prop :=
  ∀ t ∈ tries, t.1 ∈ c.tries ∧ t.1.covers pos = true

lemma Exact.within {c : Code} {pos : ℕ} {tries : List (TryBody × ℕ)} (h : Exact c pos tries) :
    Within c pos tries := by
  intro t ht
  have hmem : t.1 ∈ c.tries.filter (·.covers pos) := h ▸ List.mem_map_of_mem ht
  exact List.mem_filter.mp hmem

inductive Consumes (c : Code) : Instr → List Kind → List Kind → Prop
  | loadconst {idx v k} (h : c.consts[idx]? = some v) (hk : Kind.accepts k (some v)) :
    Consumes c (.loadconst idx) [] [k]
  | loadenv {slot} (h : slot < c.nLocals) : Consumes c (.loadenv slot) [] [.any]
  | storeenv {slot k} (h : slot < c.nLocals) : Consumes c (.storeenv slot) [k] []
  | pop {k} : Consumes c .pop [k] []
  | resolve {idx n q} (h : c.consts[idx]? = some (.sym n q)) : Consumes c (.resolve idx) [] [.any]
  | call1 : Consumes c .call1 [.fn, .any] [.any]
  | call2 : Consumes c .call2 [.fn, .any, .any] [.any]
  | calln {n} (h : n ≤ 64) : Consumes c (.calln n) (.fn :: List.replicate n .any) [.any]
  | callf {n k} (h : n ≤ 64) : Consumes c (.callf n) (k :: List.replicate n .any) [.any]
  | calls {n} : Consumes c (.calls n) (List.replicate n .any) [.any]
  | calld {k} : Consumes c (.calld 0) [k] [.any]
  | dup {k} : Consumes c .dup [k] [k, k]
  | storeglobal {idx n q k} (h : c.consts[idx]? = some (.sym n q)) : Consumes c (.storeglobal idx) [k] [k]
  | tryh {k l} : Consumes c .tryh [k, l] [.any]
  | force {k} : Consumes c .force [k] [.any]

def Instr.enters : Instr → Bool
  | .callf _ | .calls _ => true
  | _ => false

inductive Succs (c : Code) (pos next : ℕ) : Instr → Ty → List (ℕ × Ty) → Prop
  | simple {i pre take give tries w} (h : Consumes c i take give) (hx : Exact c pos tries)
    (hn : Exact c next tries)
      (hk : ∀ t ∈ tries, t.2 ≤ pre.length) (hw : i.enters = true → w = false) :
      Succs c pos next i ⟨pre ++ take, tries, w⟩ [(next, ⟨pre ++ give, tries, w⟩)]
  | jmp {offset : ℕ} {ty} : Succs c pos next (.jmp offset) ty [(next + offset, ty)]
  | jmpf {offset : ℕ} {pre k tries w} (hk : ∀ t ∈ tries, t.2 ≤ pre.length) :
      Succs c pos next (.jmpf offset) ⟨pre ++ [k], tries, w⟩
        [(next, ⟨pre, tries, w⟩), (next + offset, ⟨pre, tries, w⟩)]
  | trap {offset : ℕ} {kinds tries b} (hx : Exact c pos tries) (hh : b.handler = next + offset)
      (hk : ∀ t ∈ tries, t.2 ≤ kinds.length) :
      Succs c pos next (.trap offset) ⟨kinds, tries, false⟩
        [(next, ⟨kinds, (b, kinds.length) :: tries, false⟩), (b.handler, ⟨kinds ++ [.any], tries, false⟩)]
  | trapEnd {kinds t tries w} : Succs c pos next .trapEnd ⟨kinds, t :: tries, w⟩ [(next, ⟨kinds, tries, w⟩)]
  | scopeBegin {pre n tries} (hx : Exact c pos tries) (hk : ∀ t ∈ tries, t.2 ≤ pre.length) (hn : n ≤ c.nLocals) :
      Succs c pos next .scopeBegin ⟨pre ++ [.names n], tries, false⟩ [(next, ⟨pre, tries, true⟩)]
  | scopeEnd {pre n tries} (hk : ∀ t ∈ tries, t.2 ≤ pre.length) (hn : n ≤ c.nLocals) :
      Succs c pos next .scopeEnd ⟨pre ++ [.names n], tries, true⟩ [(next, ⟨pre, tries, false⟩)]
  | ret {kinds} : Succs c pos next .ret ⟨kinds, [], false⟩ []

inductive Good (c : Code) : ℕ → Ty → Prop
  | step {pos next i ty succs} (hd : decode c.bytes pos = some (i, next)) (hs : Succs c pos next i ty succs)
      (hin : Within c pos ty.tries) (hg : ∀ s ∈ succs, Good c s.1 s.2) : Good c pos ty

def Verified (c : Code) : Prop := Good c 0 ⟨[], [], false⟩

section

variable {bytes : List UInt8} {p : ℕ}

def Bytes (bytes : List UInt8) (p : ℕ) (seg : List UInt8) : Prop := ∀ i < seg.length, bytes[p + i]? = seg[i]?

lemma Bytes.head {b : UInt8} {seg : List UInt8} (h : Bytes bytes p (b :: seg)) : bytes[p]? = some b := by
  simpa using h 0 (by simp)

lemma Bytes.second {a b : UInt8} {seg : List UInt8} (h : Bytes bytes p (a :: b :: seg)) :
    bytes[p + 1]? = some b := by
  simpa using h 1 (by simp)

lemma Bytes.third {a b d : UInt8} {seg : List UInt8} (h : Bytes bytes p (a :: b :: d :: seg)) :
    bytes[p + 2]? = some d := by
  simpa using h 2 (by simp)

lemma toNat_ofNat {n : ℕ} (h : n < 256) : (UInt8.ofNat n).toNat = n := by
  rw [UInt8.toNat_ofNat']
  exact Nat.mod_eq_of_lt h

lemma word16_ofNat {n : ℕ} (h : n < 65536) : word16 (UInt8.ofNat (n / 256)) (UInt8.ofNat (n % 256)) = n := by
  rw [word16, toNat_ofNat (by omega), toNat_ofNat (by omega)]
  omega

lemma int16_ofNat {n : ℕ} (h : n ≤ 32767) : int16 (UInt8.ofNat (n / 256)) (UInt8.ofNat (n % 256)) = n := by
  rw [int16, word16_ofNat (by omega), if_pos (by omega)]

lemma decode_one {op : Op} {i : Instr} (h : Bytes bytes p [op.byte])
    (hi : (op, i) ∈ [(Op.ret, Instr.ret), (.pop, .pop), (.call1, .call1), (.call2, .call2), (.dup, .dup),
      (.trapEnd, .trapEnd),
      (.scopeBegin, .scopeBegin), (.scopeEnd, .scopeEnd), (.tryh, .tryh), (.force, .force)]) :
    decode bytes p = some (i, p + 1) := by
  rw [decode, h.head, Option.bind_some, Op.ofByte_byte, Option.bind_some]
  simp only [List.mem_cons, Prod.mk.injEq, List.not_mem_nil, or_false] at hi
  rcases hi with ⟨rfl, rfl⟩ | ⟨rfl, rfl⟩ | ⟨rfl, rfl⟩ | ⟨rfl, rfl⟩ | ⟨rfl, rfl⟩ | ⟨rfl, rfl⟩ | ⟨rfl, rfl⟩ | ⟨rfl,
    rfl⟩ | ⟨rfl, rfl⟩ | ⟨rfl, rfl⟩ <;> rfl

lemma decode_two {op : Op} {f : ℕ → Instr} {n : ℕ} (h : Bytes bytes p [op.byte, UInt8.ofNat n]) (hn : n < 256)
    (hf : (op, f) ∈ [(Op.loadconst, Instr.loadconst), (.loadenv, .loadenv), (.storeenv, .storeenv),
      (.resolve, .resolve),
      (.calln, .calln), (.callf, .callf), (.calls, .calls), (.calld, .calld), (.storeglobal, .storeglobal)]) :
    decode bytes p = some (f n, p + 2) := by
  rw [decode, h.head, Option.bind_some, Op.ofByte_byte, Option.bind_some]
  simp only [h.second, Option.map_some, toNat_ofNat hn]
  simp only [List.mem_cons, Prod.mk.injEq, List.not_mem_nil, or_false] at hf
  rcases hf with ⟨rfl, rfl⟩ | ⟨rfl, rfl⟩ | ⟨rfl, rfl⟩ | ⟨rfl, rfl⟩ | ⟨rfl, rfl⟩ | ⟨rfl, rfl⟩ | ⟨rfl, rfl⟩ | ⟨rfl,
    rfl⟩ | ⟨rfl, rfl⟩ <;> rfl

lemma decode_wide {op : Op} {f : ℕ → Instr} {n : ℕ}
    (h : Bytes bytes p [op.byte, UInt8.ofNat (n / 256), UInt8.ofNat (n % 256)])
    (hn : n < 65536) (hf : (op, f) ∈
      [(Op.loadconstW, Instr.loadconst), (.resolveW, .resolve), (.storeglobalW, .storeglobal)]) :
    decode bytes p = some (f n, p + 3) := by
  rw [decode, h.head, Option.bind_some, Op.ofByte_byte, Option.bind_some]
  simp only [h.second, h.third, Option.bind_some, Option.map_some, word16_ofNat hn]
  simp only [List.mem_cons, Prod.mk.injEq, List.not_mem_nil, or_false] at hf
  rcases hf with ⟨rfl, rfl⟩ | ⟨rfl, rfl⟩ | ⟨rfl, rfl⟩ <;> rfl

lemma decode_jump {op : Op} {f : ℤ → Instr} {hi lo : UInt8} (h : Bytes bytes p [op.byte, hi, lo])
    (hf : (op, f) ∈ [(Op.jmp, Instr.jmp), (.jmpf, .jmpf), (.trap, .trap)]) :
      decode bytes p = some (f (int16 hi lo), p + 3) := by
  rw [decode, h.head, Option.bind_some, Op.ofByte_byte, Option.bind_some]
  simp only [h.second, h.third, Option.bind_some, Option.map_some]
  simp only [List.mem_cons, Prod.mk.injEq, List.not_mem_nil, or_false] at hf
  rcases hf with ⟨rfl, rfl⟩ | ⟨rfl, rfl⟩ | ⟨rfl, rfl⟩ <;> rfl

end

section

structure Extends (c c' : Compiler) : Prop where
  len_le : c.code.length ≤ c'.code.length
  consts : c.consts <+: c'.consts
  locals : c.locals <+: c'.locals
  slots : c.locals.length ≤ 256 → c'.locals.length ≤ 256
  trapDepth : c'.trapDepth = c.trapDepth
  tries : c.tries <+: c'.tries
  inside : ∀ tb ∈ c'.tries.drop c.tries.length, c.code.length < tb.start ∧ tb.start ≤ tb.stop ∧
    tb.stop < c'.code.length

structure Grows (c c' : Compiler) : Prop extends Extends c c' where
  code_eq : ∀ i < c.code.length, c'.code[i]? = c.code[i]?

variable {c c1 c2 : Compiler}

lemma Extends.of_eq (hl : c1.code.length = c.code.length) (hc : c1.consts = c.consts) (hs : c1.locals = c.locals)
    (hd : c1.trapDepth = c.trapDepth) (ht : c1.tries = c.tries) : Extends c c1 where
  len_le := hl.ge
  consts := hc ▸ List.prefix_rfl
  locals := hs ▸ List.prefix_rfl
  slots := by simp [hs]
  trapDepth := hd
  tries := ht ▸ List.prefix_rfl
  inside := by simp [ht]

lemma Extends.drop_tries (h1 : Extends c c1) (h2 : Extends c1 c2) :
    c2.tries.drop c.tries.length = c1.tries.drop c.tries.length ++ c2.tries.drop c1.tries.length := by
  obtain ⟨t1, ht1⟩ := h1.tries
  obtain ⟨t2, ht2⟩ := h2.tries
  rw [← ht2, ← ht1]
  simp

lemma Extends.trans (h1 : Extends c c1) (h2 : Extends c1 c2) : Extends c c2 where
  len_le := h1.len_le.trans h2.len_le
  consts := h1.consts.trans h2.consts
  locals := h1.locals.trans h2.locals
  slots h := h2.slots (h1.slots h)
  trapDepth := h2.trapDepth.trans h1.trapDepth
  tries := h1.tries.trans h2.tries
  inside tb htb := by
    have hle1 := h1.len_le
    have hle2 := h2.len_le
    rw [h1.drop_tries h2] at htb
    rcases List.mem_append.mp htb with htb | htb
    · have := h1.inside tb htb
      omega
    · have := h2.inside tb htb
      omega

lemma Grows.refl (c : Compiler) : Grows c c := ⟨.of_eq rfl rfl rfl rfl rfl, fun _ _ => rfl⟩

lemma Grows.trans (h1 : Grows c c1) (h2 : Grows c1 c2) : Grows c c2 :=
  ⟨h1.toExtends.trans h2.toExtends, fun i hi => (h2.code_eq i (hi.trans_le h1.len_le)).trans (h1.code_eq i hi)⟩

structure Fits (f : Code) (c c' : Compiler) (outer : List TryBody) : Prop where
  bytes : ∀ i, c.code.length ≤ i → i < c'.code.length → f.bytes[i]? = c'.code[i]?
  consts : c'.consts <+: f.consts
  few : f.consts.length ≤ 65536
  locals : c'.locals.length ≤ f.nLocals
  slots : f.nLocals ≤ 256
  tries : ∀ pos, c.code.length ≤ pos → pos ≤ c'.code.length →
    f.tries.filter (·.covers pos) = (c'.tries.drop c.tries.length).filter (·.covers pos) ++ outer

variable {f : Code} {outer : List TryBody}

lemma filter_covers_eq_nil {tries : List TryBody} {pos : ℕ} (h : ∀ tb ∈ tries, pos < tb.start ∨ tb.stop < pos) :
    tries.filter (·.covers pos) = [] := by
  rw [List.filter_eq_nil_iff]
  intro tb htb
  have := h tb htb
  simp only [TryBody.covers, decide_eq_true_eq]
  omega

lemma Fits.left_of_bytes (h : Fits f c c2 outer) (h1 : Extends c c1) (h2 : Extends c1 c2)
    (hb : ∀ i, c.code.length ≤ i → i < c1.code.length → c2.code[i]? = c1.code[i]?) : Fits f c c1 outer where
  bytes i hi hlt := (h.bytes i hi (hlt.trans_le h2.len_le)).trans (hb i hi hlt)
  consts := h2.consts.trans h.consts
  few := h.few
  locals := h2.locals.length_le.trans h.locals
  slots := h.slots
  tries pos hp hle := by
    have hnone : (c2.tries.drop c1.tries.length).filter (·.covers pos) = [] := by
      apply filter_covers_eq_nil
      intro tb htb
      have := h2.inside tb htb
      omega
    rw [h.tries pos hp (hle.trans h2.len_le), h1.drop_tries h2, List.filter_append, hnone, List.append_nil]

lemma Fits.left (h : Fits f c c2 outer) (h1 : Extends c c1) (h2 : Grows c1 c2) : Fits f c c1 outer :=
  h.left_of_bytes h1 h2.toExtends fun i _ hi => h2.code_eq i hi

lemma Fits.right (h : Fits f c c2 outer) (h1 : Extends c c1) (h2 : Extends c1 c2) : Fits f c1 c2 outer where
  bytes i hi hlt := h.bytes i (h1.len_le.trans hi) hlt
  consts := h.consts
  few := h.few
  locals := h.locals
  slots := h.slots
  tries pos hp hle := by
    have hnone : (c1.tries.drop c.tries.length).filter (·.covers pos) = [] := by
      apply filter_covers_eq_nil
      intro tb htb
      have := h1.inside tb htb
      omega
    rw [h.tries pos (h1.len_le.trans hp) hle, h1.drop_tries h2, List.filter_append, hnone, List.nil_append]

lemma Fits.exact (h : Fits f c c1 outer) {tries : List (TryBody × ℕ)} (ht : tries.map Prod.fst = outer) {pos : ℕ}
    (hp : c.code.length ≤ pos) (hle : pos ≤ c1.code.length)
    (hout : ∀ tb ∈ c1.tries.drop c.tries.length, pos < tb.start ∨ tb.stop < pos) : Exact f pos tries := by
  rw [Exact, h.tries pos hp hle, filter_covers_eq_nil hout, ht, List.nil_append]

lemma Fits.exact_start (h : Fits f c c1 outer) (h1 : Extends c c1) {tries : List (TryBody × ℕ)}
    (ht : tries.map Prod.fst = outer) :
    Exact f c.code.length tries :=
  h.exact ht le_rfl h1.len_le fun tb htb => .inl (h1.inside tb htb).1

end

structure Emits (c c' : Compiler) (take give : List Kind) (w w' : Bool) : Prop where
  grows : Grows c c'
  good : ∀ {f : Code} {pre : List Kind} {tries : List (TryBody × ℕ)}, Fits f c c' (tries.map Prod.fst) →
    tries.length = c.trapDepth → (∀ t ∈ tries, t.2 ≤ pre.length) →
    Good f c'.code.length ⟨pre ++ give, tries, w'⟩ → Good f c.code.length ⟨pre ++ take, tries, w⟩

section

variable {c c1 c2 : Compiler} {a b d : List Kind} {w w1 w2 : Bool}

lemma Emits.trans (h1 : Emits c c1 a b w w1) (h2 : Emits c1 c2 b d w1 w2) : Emits c c2 a d w w2 where
  grows := h1.grows.trans h2.grows
  good hf ht hk hg :=
    h1.good (hf.left h1.grows.toExtends h2.grows) ht hk
      (h2.good (hf.right h1.grows.toExtends h2.grows.toExtends) (ht.trans h1.grows.trapDepth.symm) hk hg)

lemma Emits.frame (h : Emits c c1 a b w w1) (l : List Kind) : Emits c c1 (l ++ a) (l ++ b) w w1 where
  grows := h.grows
  good {f pre tries} hf ht hk hg := by
    rw [← List.append_assoc] at hg ⊢
    exact h.good hf ht (fun t h => (hk t h).trans (by simp)) hg

end

section

variable {c c' : Compiler} {take give : List Kind} {w : Bool} {i : Instr}

lemma grows_append {seg : List UInt8} (h : c' = { c with code := c.code ++ seg }) : Grows c c' := by
  subst h
  refine ⟨⟨by simp, List.prefix_rfl, List.prefix_rfl, id, rfl, List.prefix_rfl, by simp⟩, fun j hj => ?_⟩
  exact List.getElem?_append_left hj

lemma Fits.segment {f : Code} {outer : List TryBody} {seg : List UInt8} (hf : Fits f c c' outer)
    (h : c' = { c with code := c.code ++ seg }) : Bytes f.bytes c.code.length seg := by
  intro j hj
  rw [hf.bytes _ (by omega) (by rw [h]; simpa using hj), h]
  dsimp only
  rw [List.getElem?_append_right (Nat.le_add_right _ _), Nat.add_sub_cancel_left]

lemma emits_simple {seg : List UInt8} (hc : c' = { c with code := c.code ++ seg })
    (hdec : ∀ {bytes}, Bytes bytes c.code.length seg →
      decode bytes c.code.length = some (i, c.code.length + seg.length))
    (hcons : ∀ {f outer}, Fits f c c' outer → Consumes f i take give) (hw : i.enters = true → w = false) :
    Emits c c' take give w w where
  grows := grows_append hc
  good {f pre tries} hf ht hk hg := by
    have hlen : c'.code.length = c.code.length + seg.length := by rw [hc, List.length_append]
    have hnone : c'.tries.drop c.tries.length = [] := by simp [hc]
    have hx : ∀ pos, c.code.length ≤ pos → pos ≤ c'.code.length → Exact f pos tries :=
      fun pos h1 h2 => hf.exact rfl h1 h2 (by simp [hnone])
    rw [hlen] at hx hg
    refine .step (hdec (hf.segment hc))
      (.simple (hcons hf) (hx _ le_rfl (by omega)) (hx _ (by omega) le_rfl) hk hw)
      (hx _ le_rfl (by omega)).within ?_
    intro s hs
    rw [List.mem_singleton.mp hs]
    exact hg

lemma emits_one {o : Op} (hi : (o, i) ∈
    [(Op.ret, Instr.ret), (.pop, .pop), (.call1, .call1), (.call2, .call2), (.dup, .dup),
      (.trapEnd, .trapEnd), (.scopeBegin, .scopeBegin), (.scopeEnd, .scopeEnd), (.tryh, .tryh), (.force, .force)])
    (hcons : ∀ {f outer}, Fits f c (c.emitOp o) outer → Consumes f i take give)
    (hw : i.enters = true → w = false) :
    Emits c (c.emitOp o) take give w w :=
  emits_simple (show c.emitOp o = { c with code := c.code ++ [o.byte] } from rfl)
    (fun h => decode_one h hi) hcons hw

lemma emits_two {op : Op} {g : ℕ → Instr} {n : ℕ} (hn : n < 256)
    (hf : (op, g) ∈ [(Op.loadconst, Instr.loadconst), (.loadenv, .loadenv), (.storeenv, .storeenv),
      (.resolve, .resolve),
      (.calln, .calln), (.callf, .callf), (.calls, .calls), (.calld, .calld), (.storeglobal, .storeglobal)])
    (hcons : ∀ {f outer}, Fits f c ((c.emitOp op).emit (UInt8.ofNat n)) outer → Consumes f (g n) take give)
    (hw : (g n).enters = true → w = false) : Emits c ((c.emitOp op).emit (UInt8.ofNat n)) take give w w :=
  have hseg : (c.emitOp op).emit (UInt8.ofNat n) = { c with code := c.code ++ [op.byte, UInt8.ofNat n] } := by
    simp [Compiler.emitOp, Compiler.emit]
  emits_simple hseg (fun h => decode_two h hn hf) hcons hw

lemma emits_indexed {narrow wide : Op} {g : ℕ → Instr} {n : ℕ} (hn : n < c.consts.length)
    (hf : (narrow, wide, g) ∈ [(Op.loadconst, Op.loadconstW, Instr.loadconst), (.resolve, .resolveW, .resolve),
      (.storeglobal, .storeglobalW, .storeglobal)])
    (hcons : ∀ {f : Code}, c.consts <+: f.consts → Consumes f (g n) take give)
    (hw : (g n).enters = true → w = false) :
    Emits c (c.emitIndexed narrow wide n) take give w w := by
  rw [Compiler.emitIndexed]
  split_ifs with h256
  · refine emits_two h256 ?_ (fun hf => hcons hf.consts) hw
    simp only [List.mem_cons, Prod.mk.injEq, List.not_mem_nil, or_false] at hf ⊢
    tauto
  · have hseg : ((c.emitOp wide).emit (UInt8.ofNat (n / 256))).emit (UInt8.ofNat (n % 256))
        = { c with code := c.code ++ [wide.byte, UInt8.ofNat (n / 256), UInt8.ofNat (n % 256)] } := by
      simp [Compiler.emitOp, Compiler.emit]
    have hwide : (wide, g) ∈ [(Op.loadconstW, Instr.loadconst), (.resolveW, .resolve),
        (.storeglobalW, .storeglobal)] := by
      simp only [List.mem_cons, Prod.mk.injEq, List.not_mem_nil, or_false] at hf ⊢
      tauto
    refine ⟨grows_append hseg, fun {f pre tries} hfit ht hk hg => ?_⟩
    have hlt : n < 65536 := by
      have := hfit.consts.length_le
      have hc : c.consts.length ≤ f.consts.length := by simpa [hseg] using this
      exact hn.trans_le (hc.trans hfit.few)
    exact (emits_simple hseg (fun h => decode_wide h hlt hwide)
      (fun hf => hcons (by simpa [hseg] using hf.consts)) hw).good hfit ht hk hg

lemma addConstant_spec (c : Compiler) (v : Obj) : Grows c (c.addConstant v).2 ∧ (c.addConstant v).2.code = c.code ∧
      ∃ v', (c.addConstant v).2.consts[(c.addConstant v).1]? = some v' ∧ (v' = v ∨ Obj.same v' v = true) := by
  rw [Compiler.addConstant]
  cases h : c.consts.findIdx? (Obj.same · v) with
  | some j =>
    obtain ⟨hlt, hsame, -⟩ := List.findIdx?_eq_some_iff_getElem.mp h
    exact ⟨.refl c, rfl, _, List.getElem?_eq_getElem hlt, .inr hsame⟩
  | none =>
    refine ⟨⟨⟨le_rfl, List.prefix_append _ _, List.prefix_rfl, id, rfl, List.prefix_rfl, by simp⟩, fun _ _ => rfl⟩,
      rfl, v, ?_, .inl rfl⟩
    simp

lemma emits_addConstant (c : Compiler) (v : Obj) (w : Bool) : Emits c (c.addConstant v).2 [] [] w w := by
  obtain ⟨hg, hcode, -⟩ := addConstant_spec c v
  refine ⟨hg, fun _ _ _ hgood => ?_⟩
  rwa [hcode] at hgood

lemma emits_emitConst {n : ℕ} {v : Obj} {k : Kind} (hv : c.consts[n]? = some v)
    (hk : k.accepts (some v)) (w : Bool) :
    Emits c (c.emitConst n) [] [k] w w := by
  refine emits_indexed (g := .loadconst) (List.getElem?_eq_some_iff.mp hv).1 (by simp) (fun hpre => ?_)
    (by simp [Instr.enters])
  obtain ⟨rest, hrest⟩ := hpre
  refine .loadconst (v := v) ?_ hk
  rw [← hrest, List.getElem?_append_left (List.getElem?_eq_some_iff.mp hv).1, hv]

lemma emits_loadConstant (c : Compiler) (v : Obj) {k : Kind}
    (hk : ∀ v', v' = v ∨ Obj.same v' v = true → k.accepts (some v'))
    (w : Bool) : Emits c (c.loadConstant v) [] [k] w w := by
  obtain ⟨-, -, v', hv, hsame⟩ := addConstant_spec c v
  exact (emits_addConstant c v w).trans (emits_emitConst hv (hk v' hsame) w)

lemma emits_any (c : Compiler) (v : Obj) (w : Bool) : Emits c (c.loadConstant v) [] [.any] w w :=
  emits_loadConstant c v (k := .any) (fun _ _ => rfl) w

lemma emits_named {narrow wide : Op} {g : ℕ → Instr} {n : String} {q : Bool}
    (hf : (narrow, wide, g) ∈ [(Op.loadconst, Op.loadconstW, Instr.loadconst), (.resolve, .resolveW, .resolve),
      (.storeglobal, .storeglobalW, .storeglobal)])
    (hcons : ∀ {f : Code} {idx : ℕ}, f.consts[idx]? = some (.sym n q) → Consumes f (g idx) take give)
    (hw : ∀ idx, (g idx).enters = true → w = false) :
    Emits c ((c.addConstant (.sym n q)).2.emitIndexed narrow wide (c.addConstant (.sym n q)).1) take give w w := by
  obtain ⟨-, -, v', hv, hsame⟩ := addConstant_spec c (.sym n q)
  obtain rfl : v' = .sym n q := by
    rcases hsame with rfl | hsame
    · rfl
    · cases v' <;> simp_all [Obj.same]
  have hadd := (emits_addConstant c (.sym n q) w).frame take
  rw [List.append_nil] at hadd
  refine hadd.trans (emits_indexed (List.getElem?_eq_some_iff.mp hv).1 hf (fun hpre => ?_) (hw _))
  obtain ⟨rest, hrest⟩ := hpre
  apply hcons
  rw [← hrest, List.getElem?_append_left (List.getElem?_eq_some_iff.mp hv).1, hv]

end

section

variable {g : Globals} {c c' : Compiler}

lemma findLocal_lt {name : String} {slot : ℕ} (h : c.findLocal name = some slot) : slot < c.locals.length := by
  obtain ⟨j, hj, rfl⟩ := Option.map_eq_some_iff.mp h
  obtain ⟨hlt, -⟩ := List.idxOf?_eq_some_iff.mp hj
  rw [List.length_reverse] at hlt
  omega

lemma addLocal_spec {name : Option String} {slot : ℕ} (h : c.addLocal name = some (slot, c')) :
    Emits c c' [] [] false false ∧ slot < c'.locals.length ∧ c'.code = c.code ∧ c'.tries = c.tries := by
  rw [Compiler.addLocal] at h
  split_ifs at h with hfull
  cases h
  have hslots : (c.locals ++ [name]).length ≤ 256 := by
    rw [List.length_append, List.length_singleton]
    omega
  refine ⟨⟨⟨⟨le_rfl, List.prefix_rfl, List.prefix_append _ _, fun _ => hslots, rfl, List.prefix_rfl, by simp⟩,
    fun _ _ => rfl⟩, fun _ _ _ hg => hg⟩, by simp, rfl, rfl⟩

lemma emits_slot {o : Op} {i : ℕ → Instr} {take give : List Kind} {slot : ℕ} (hs : slot < c.locals.length)
    (hi : (o, i) ∈ [(Op.loadenv, Instr.loadenv), (.storeenv, .storeenv)])
    (hcons : ∀ {f : Code}, slot < f.nLocals → Consumes f (i slot) take give) :
    Emits c ((c.emitOp o).emit (UInt8.ofNat slot)) take give false false := by
  have hseg : (c.emitOp o).emit (UInt8.ofNat slot) = { c with code := c.code ++ [o.byte, UInt8.ofNat slot] } := by
    simp [Compiler.emitOp, Compiler.emit]
  refine ⟨grows_append hseg, fun {f pre tries} hfit ht hk hg => ?_⟩
  have hlt : slot < f.nLocals := hs.trans_le (by simpa [hseg] using hfit.locals)
  have hmem : (o, i) ∈ [(Op.loadconst, Instr.loadconst), (.loadenv, .loadenv), (.storeenv, .storeenv),
    (.resolve, .resolve),
      (.calln, .calln), (.callf, .callf), (.calls, .calls), (.calld, .calld), (.storeglobal, .storeglobal)] := by
    simp only [List.mem_cons, Prod.mk.injEq, List.not_mem_nil, or_false] at hi ⊢
    tauto
  exact (emits_two (hlt.trans_le hfit.slots) hmem (fun hf => hcons (hs.trans_le (by simpa [hseg] using hf.locals)))
    (fun _ => rfl)).good hfit ht hk hg

lemma emitTrapEnds_eq (c : Compiler) :
    c.emitTrapEnds = { c with code := c.code ++ List.replicate c.trapDepth Op.trapEnd.byte } := by
  have hrun : ∀ (n : ℕ) (d : Compiler), (List.replicate n ()).foldl (fun c _ => c.emitOp .trapEnd) d
      = { d with code := d.code ++ List.replicate n Op.trapEnd.byte } := by
    intro n
    induction n with
    | zero => simp
    | succ n ih =>
      intro d
      rw [List.replicate_succ, List.foldl_cons, ih]
      simp [Compiler.emitOp, Compiler.emit, List.replicate_succ]
  exact hrun _ _

lemma good_return {f : Code} {kinds : List Kind} {tries : List (TryBody × ℕ)} {p : ℕ}
    (h : Bytes f.bytes p (List.replicate tries.length Op.trapEnd.byte ++ [Op.ret.byte]))
    (hin : ∀ i ≤ tries.length, Within f (p + i) tries) : Good f p ⟨kinds, tries, false⟩ := by
  induction tries generalizing p with
  | nil => exact .step (decode_one h (by simp)) .ret (by simp [Within]) (by simp)
  | cons t tries ih =>
    rw [List.length_cons, List.replicate_succ, List.cons_append] at h
    have hfirst : Bytes f.bytes p [Op.trapEnd.byte] := by
      intro i hi
      obtain rfl : i = 0 := by simpa using hi
      simpa using h.head
    have hrest : Bytes f.bytes (p + 1) (List.replicate tries.length Op.trapEnd.byte ++ [Op.ret.byte]) := by
      intro i hi
      have := h (i + 1) (by simpa using hi)
      rw [show p + 1 + i = p + (i + 1) from by omega, this, List.getElem?_cons_succ]
    refine .step (decode_one hfirst (by simp)) .trapEnd (hin 0 (Nat.zero_le _)) ?_
    intro s hs
    rw [List.mem_singleton.mp hs]
    refine ih hrest fun i hi u hu => ?_
    have := hin (i + 1) (by simpa using hi) u (List.mem_cons_of_mem _ hu)
    rwa [show p + (i + 1) = p + 1 + i from by omega] at this

lemma emits_return (c : Compiler) (take give : List Kind) :
    Emits c (c.emitTrapEnds.emitOp .ret) take give false false := by
  have hseg : c.emitTrapEnds.emitOp .ret
      = { c with code := c.code ++ (List.replicate c.trapDepth Op.trapEnd.byte ++ [Op.ret.byte]) } := by
    rw [emitTrapEnds_eq]
    simp [Compiler.emitOp, Compiler.emit]
  refine ⟨grows_append hseg, fun {f pre tries} hfit ht _ _ => good_return ?_ fun i hi => ?_⟩
  · rw [ht]
    exact hfit.segment hseg
  · have hlen : (c.emitTrapEnds.emitOp .ret).code.length = c.code.length + (c.trapDepth + 1) := by simp [hseg]
    exact (hfit.exact rfl (Nat.le_add_right _ _) (by omega) (by simp [hseg])).within

lemma emits_evalForm (c : Compiler) (ast : Obj) (w : Bool) :
    Emits c (((c.loadConstant ast).emitOp .calld).emit 0) [] [.any] w w := by
  refine (emits_any c ast w).trans ?_
  exact emits_two (g := .calld) (n := 0) (by omega) (by simp) (fun _ => .calld) (by simp [Instr.enters])

lemma emits_special (c : Compiler) (ast : Obj) : Emits c (compileSpecial c ast) [] [.any] false false := by
  rw [compileSpecial]
  split_ifs with hrefs
  · exact emits_evalForm c ast false
  · obtain ⟨hg, hcode, v', hv, hsame⟩ := addConstant_spec c (.names c.locals)
    obtain rfl : v' = .names c.locals := by
      rcases hsame with rfl | hsame
      · rfl
      · cases v' <;> simp [Obj.same] at hsame
    obtain ⟨n, hn⟩ : ∃ n, n = c.locals.length := ⟨_, rfl⟩
    have hacc : Kind.accepts (.names n) (some (.names c.locals)) := ⟨_, rfl, hn.symm⟩
    generalize hadd : c.addConstant (.names c.locals) = x at hg hcode hv
    obtain ⟨idx, c1⟩ := x
    dsimp only at hg hcode hv ⊢
    have h1 : Emits c c1 [] [] false false := by
      have := emits_addConstant c (.names c.locals) false
      rwa [hadd] at this
    have h2 := emits_emitConst (c := c1) hv hacc false
    have h3 : Emits (c1.emitConst idx) ((c1.emitConst idx).emitOp .scopeBegin) [.names n] [] false true := by
      have hseg : (c1.emitConst idx).emitOp .scopeBegin
          = { c1.emitConst idx with code := (c1.emitConst idx).code ++ [Op.scopeBegin.byte] } := rfl
      refine ⟨grows_append hseg, fun {f pre tries} hfit ht hk hgood => ?_⟩
      have hslots : n ≤ f.nLocals := by
        have hl := (hg.locals.trans h2.grows.locals).length_le
        rw [hn]
        exact hl.trans hfit.locals
      have hx : Exact f (c1.emitConst idx).code.length tries :=
        hfit.exact rfl le_rfl (by simp [hseg]) (by simp [hseg])
      refine .step (decode_one (hfit.segment hseg) (by simp)) (.scopeBegin hx hk hslots) hx.within ?_
      · intro s hs
        rw [List.mem_singleton.mp hs]
        simpa [hseg] using hgood
    have h4 := emits_evalForm ((c1.emitConst idx).emitOp .scopeBegin) ast true
    have hv5 : (((((c1.emitConst idx).emitOp .scopeBegin).loadConstant ast).emitOp .calld).emit 0).consts[idx]?
        = some (.names c.locals) := by
      obtain ⟨rest, hrest⟩ := (h2.grows.consts.trans h3.grows.consts).trans h4.grows.consts
      rw [← hrest, List.getElem?_append_left (List.getElem?_eq_some_iff.mp hv).1, hv]
    have h5 := (emits_emitConst hv5 hacc true).frame [.any]
    have h6 : ∀ d : Compiler, n ≤ d.locals.length →
        Emits d (d.emitOp .scopeEnd) ([.any] ++ [.names n]) [.any] true false := by
      intro d hd
      have hseg : d.emitOp .scopeEnd = { d with code := d.code ++ [Op.scopeEnd.byte] } := rfl
      refine ⟨grows_append hseg, fun {f pre tries} hfit ht hk hgood => ?_⟩
      rw [← List.append_assoc]
      refine .step (decode_one (hfit.segment hseg) (by simp))
        (.scopeEnd (fun t ht => (hk t ht).trans (by simp)) (hd.trans hfit.locals))
        (hfit.exact rfl le_rfl (by simp [hseg]) (by simp [hseg])).within ?_
      intro s hs
      rw [List.mem_singleton.mp hs]
      simpa [hseg] using hgood
    refine ((((h1.trans h2).trans h3).trans h4).trans h5).trans (h6 _ ?_)
    rw [hn]
    exact (((((hg.trans h2.grows).trans h3.grows).trans h4.grows).trans h5.grows).locals).length_le

lemma emits_call (c : Compiler) (fn : Option Obj) {argc : ℕ} (hargc : argc ≤ 64) {k : Kind}
    (hk : k = .any ∧ (∀ a kind r, fn ≠ some (.builtin a kind r)) ∨ k = .fn ∧ ∃ a kind r,
      fn = some (.builtin a kind r)) :
    Emits c (emitCall c fn argc) (k :: List.replicate argc .any) [.any] false false := by
  have hcallf : ∀ k : Kind, Emits c ((c.emitOp .callf).emit (UInt8.ofNat argc)) (k :: List.replicate argc .any)
      [.any] false false :=
    fun k => emits_two (g := .callf) (by omega) (by simp) (fun _ => .callf hargc) (fun _ => rfl)
  rcases hk with ⟨rfl, hno⟩ | ⟨rfl, a, kind, r, rfl⟩
  · rw [emitCall.eq_def]
    split
    · exact absurd rfl (hno _ _ _)
    · exact absurd rfl (hno _ _ _)
    · exact absurd rfl (hno _ _ _)
    · exact hcallf .any
  · cases kind <;> simp only [emitCall]
    case unary =>
      split_ifs with h1
      · subst h1
        exact emits_one (i := .call1) (by simp) (fun _ => .call1) (by simp [Instr.enters])
      · exact hcallf .fn
    case binary =>
      split_ifs with h2
      · subst h2
        exact emits_one (i := .call2) (by simp) (fun _ => .call2) (by simp [Instr.enters])
      · exact hcallf .fn
    case vary => exact emits_two (g := .calln) (by omega) (by simp) (fun _ =>
      .calln hargc) (by simp [Instr.enters])

end

section

variable {c c1 c2 : Compiler} {pos : ℕ}

lemma emitJump_eq (c : Compiler) (op : Op) :
    c.emitJump op = (c.code.length + 1, { c with code := c.code ++ [op.byte, 0, 0] }) := by
  simp [Compiler.emitJump, Compiler.emitOp, Compiler.emit]

structure Patched (c c' : Compiler) (pos : ℕ) : Prop where
  rest : c' = { c with code := c'.code }
  len_eq : c'.code.length = c.code.length
  other : ∀ i, i ≠ pos → i ≠ pos + 1 → c'.code[i]? = c.code[i]?
  bytes : pos + 1 < c.code.length → pos + 2 ≤ c.code.length → ∃ hi lo, c'.code[pos]? = some hi ∧
    c'.code[pos + 1]? = some lo ∧ int16 hi lo = ((c.code.length - (pos + 2) : ℕ) : ℤ)

lemma Patched.same (h : Patched c c1 pos) : Extends c c1 := by
  apply Extends.of_eq h.len_eq <;> rw [h.rest]

lemma patchJump_spec (h : c.patchJump pos = some c1) : Patched c c1 pos := by
  simp only [Compiler.patchJump] at h
  split_ifs at h with hraw
  rw [← Option.some.inj h]
  refine ⟨rfl, by simp, fun i h1 h2 => ?_, fun hlt hle => ?_⟩
  · rw [List.getElem?_set_ne (Ne.symm h2), List.getElem?_set_ne (Ne.symm h1)]
  · obtain ⟨n, hn⟩ : ∃ n, n = c.code.length - (pos + 2) := ⟨_, rfl⟩
    have hoff : (((c.code.length : ℤ) - pos - 2) % 2 ^ 16).toNat = n := by omega
    refine ⟨UInt8.ofNat (n / 256), UInt8.ofNat (n % 256), ?_, ?_, ?_⟩
    · rw [hoff, List.getElem?_set_ne (Nat.succ_ne_self pos), List.getElem?_set_self (by omega)]
    · rw [hoff, List.getElem?_set_self (by simpa using hlt)]
    · rw [int16_ofNat (by omega), hn]

lemma Grows.patch (h : Grows c c1) (hp : Patched c1 c2 pos) (hpos : c.code.length ≤ pos) : Grows c c2 :=
  ⟨h.toExtends.trans hp.same, fun i hi => (hp.other i (by omega) (by omega)).trans (h.code_eq i hi)⟩

lemma grows_emitJump (c : Compiler) (op : Op) : Grows c (c.emitJump op).2 := by
  rw [emitJump_eq]
  exact grows_append rfl

lemma jump_bytes {bytes : List UInt8} {op : Op} {d d' : Compiler} {p : ℕ} (hop : bytes[p]? = some op.byte)
    (hp : Patched d d' (p + 1)) (hlen : p + 3 ≤ d.code.length) (h1 : bytes[p + 1]? = d'.code[p + 1]?)
    (h2 : bytes[p + 2]? = d'.code[p + 2]?) :
    ∃ hi lo, Bytes bytes p [op.byte, hi, lo] ∧ int16 hi lo = ((d.code.length - (p + 3) : ℕ) : ℤ) := by
  obtain ⟨hi, lo, hhi, hlo, hint⟩ := hp.bytes (by omega) (by omega)
  refine ⟨hi, lo, ?_, hint⟩
  intro i hi'
  match i with
  | 0 => exact hop
  | 1 => exact h1.trans hhi
  | 2 => exact h2.trans hlo
  | n + 3 => simp at hi'

lemma emits_if {c1 c3 c5 c6 c7 : Compiler} (hcond : Emits c c1 [] [.any] false false)
    (hthn : Emits (c1.emitJump .jmpf).2 c3 [] [.any] false false)
    (h5 : (c3.emitJump .jmp).2.patchJump (c1.emitJump .jmpf).1 = some c5)
    (hels : Emits c5 c6 [] [.any] false false)
    (h7 : c6.patchJump (c3.emitJump .jmp).1 = some c7) : Emits c c7 [] [.any] false false := by
  have hg2 := grows_emitJump c1 .jmpf
  have hg4 := grows_emitJump c3 .jmp
  have hp5 := patchJump_spec h5
  have hp7 := patchJump_spec h7
  rw [emitJump_eq] at hthn hg2
  rw [emitJump_eq] at hg4
  rw [emitJump_eq, emitJump_eq] at hp5
  rw [emitJump_eq] at hp7
  obtain ⟨c2, hc2⟩ : ∃ c2, c2 = { c1 with code := c1.code ++ [Op.jmpf.byte, 0, 0] } := ⟨_, rfl⟩
  obtain ⟨c4, hc4⟩ : ∃ c4, c4 = { c3 with code := c3.code ++ [Op.jmp.byte, 0, 0] } := ⟨_, rfl⟩
  dsimp only at hthn hg2 hg4 hp5 hp7
  rw [← hc2] at hthn hg2
  rw [← hc4] at hg4 hp5
  have len2 : c2.code.length = c1.code.length + 3 := by simp [hc2]
  have len4 : c4.code.length = c3.code.length + 3 := by simp [hc4]
  have len5 := hp5.len_eq
  have len7 := hp7.len_eq
  have le1 := hcond.grows.len_le
  have le3 := hthn.grows.len_le
  have le6 := hels.grows.len_le
  have g15 : Grows c1 c5 := ((hg2.trans hthn.grows).trans hg4).patch hp5 (by omega)
  have g17 : Grows c1 c7 := (g15.trans hels.grows).patch hp7 (by omega)
  have e37 : Extends c3 c7 := ((hg4.toExtends.trans hp5.same).trans hels.grows.toExtends).trans hp7.same
  have e27 := hthn.grows.toExtends.trans e37
  have e57 := hels.grows.toExtends.trans hp7.same
  refine ⟨hcond.grows.trans g17, fun {f pre tries} hfit ht hk hgood => ?_⟩
  have hf1 := hfit.left hcond.grows.toExtends g17
  have hf17 := hfit.right hcond.grows.toExtends g17.toExtends
  have hf27 := hf17.right hg2.toExtends e27
  -- later patches leave the code of the branches alone
  have byte7 : ∀ i, i < c3.code.length + 1 ∨ c3.code.length + 3 ≤ i → c7.code[i]? = c6.code[i]? :=
    fun i hi => hp7.other i (by omega) (by omega)
  have byte5 : ∀ i, i ≤ c1.code.length ∨ c1.code.length + 3 ≤ i → i < c5.code.length → c6.code[i]? = c4.code[i]? :=
    fun i hi hlt => (hels.grows.code_eq i hlt).trans (hp5.other i (by omega) (by omega))
  have hf3 : Fits f c2 c3 (tries.map Prod.fst) := by
    refine hf27.left_of_bytes hthn.grows.toExtends e37 fun i hi hlt => ?_
    rw [byte7 i (by omega), byte5 i (by omega) (by omega), hg4.code_eq i hlt]
  have hf6 : Fits f c5 c6 (tries.map Prod.fst) := by
    refine (hf17.right g15.toExtends e57).left_of_bytes hels.grows.toExtends hp7.same fun i hi hlt => ?_
    exact byte7 i (by omega)
  have hd1 : c1.trapDepth = c.trapDepth := hcond.grows.trapDepth
  have hd2 : c2.trapDepth = c.trapDepth := hg2.trapDepth.trans hd1
  have hd5 : c5.trapDepth = c.trapDepth := g15.trapDepth.trans hd1
  rw [len7] at hgood
  have helse : Good f c5.code.length ⟨pre, tries, false⟩ := by
    have := hels.good hf6 (ht.trans hd5.symm) hk hgood
    rwa [List.append_nil] at this
  have hjmp : Good f c3.code.length ⟨pre ++ [.any], tries, false⟩ := by
    have hop : f.bytes[c3.code.length]? = some Op.jmp.byte := by
      rw [hfit.bytes _ (by omega) (by omega), byte7 _ (by omega), byte5 _ (by omega) (by omega), hc4]
      simp
    obtain ⟨hi, lo, hb, hint⟩ := jump_bytes hop hp7 (by omega) (hfit.bytes _ (by omega) (by omega))
      (hfit.bytes _ (by omega) (by omega))
    have hdec := decode_jump (f := .jmp) hb (by simp)
    rw [hint] at hdec
    have hx := (hf27.right hthn.grows.toExtends e37).exact_start e37 rfl
    refine .step hdec .jmp hx.within ?_
    intro s hs
    rw [List.mem_singleton.mp hs]
    rwa [show c3.code.length + 3 + (c6.code.length - (c3.code.length + 3)) = c6.code.length from by omega]
  have hthen : Good f c2.code.length ⟨pre, tries, false⟩ := by
    have := hthn.good hf3 (ht.trans hd2.symm) hk hjmp
    rwa [List.append_nil] at this
  refine hcond.good hf1 ht hk ?_
  have hop : f.bytes[c1.code.length]? = some Op.jmpf.byte := by
    rw [hfit.bytes _ (by omega) (by omega), byte7 _ (by omega), byte5 _ (by omega) (by omega),
      hg4.code_eq _ (by omega), hthn.grows.code_eq _ (by omega), hc2]
    simp
  have hpatch : ∀ i, c1.code.length < i → i < c1.code.length + 3 → f.bytes[i]? = c5.code[i]? := by
    intro i h1 h2
    rw [hfit.bytes _ (by omega) (by omega), byte7 _ (by omega), hels.grows.code_eq _ (by omega)]
  obtain ⟨hi, lo, hb, hint⟩ := jump_bytes hop hp5 (by omega) (hpatch _ (by omega) (by omega))
    (hpatch _ (by omega) (by omega))
  have hdec := decode_jump (f := .jmpf) hb (by simp)
  rw [hint] at hdec
  refine .step hdec (.jmpf hk) (hf17.exact_start g17.toExtends rfl).within ?_
  intro s hs
  rcases List.mem_pair.mp hs with rfl | rfl
  · rwa [len2] at hthen
  · dsimp only
    rwa [show c1.code.length + 3 + (c4.code.length - (c1.code.length + 3)) = c5.code.length from by omega]

lemma emits_try {c c1 c3 c6 c8 c11 : Compiler} {slot : ℕ} (hlocal : c.addLocal none = some (slot, c1))
    (hbody : Emits (c1.emitJump .trap).2.enterTry c3 [] [.any] false false)
    (h6 : ((c3.leaveTry.emitOp .trapEnd).emitJump .jmp).2.patchJump (c1.emitJump .trap).1 = some c6)
    (hhandler : Emits
      (((c6.addTry (c1.emitJump .trap).2.code.length c3.leaveTry.code.length).emitOp .storeenv).emit
      (UInt8.ofNat slot)) c8 [] [.any] false false)
        (h11 : (((c8.emitOp .loadenv).emit (UInt8.ofNat slot)).emitOp .tryh).patchJump
      ((c3.leaveTry.emitOp .trapEnd).emitJump .jmp).1 = some c11) : Emits c c11 [] [.any] false false := by
  obtain ⟨hl, hslot, hcode1, htries1⟩ := addLocal_spec hlocal
  have hg2 := grows_emitJump c1 .trap
  have hp6 := patchJump_spec h6
  have hp11 := patchJump_spec h11
  rw [emitJump_eq] at hbody hg2 hhandler
  rw [emitJump_eq, emitJump_eq] at hp6
  rw [emitJump_eq] at hp11
  obtain ⟨c2, hc2⟩ : ∃ c2, c2 = { c1 with code := c1.code ++ [Op.trap.byte, 0, 0] } := ⟨_, rfl⟩
  obtain ⟨c5, hc5⟩ : ∃ c5, c5 = { c3.leaveTry with
    code := c3.code ++ [Op.trapEnd.byte, Op.jmp.byte, 0, 0] } := ⟨_, rfl⟩
  obtain ⟨d6, hd6⟩ : ∃ d6, d6 = c6.addTry c2.code.length c3.code.length := ⟨_, rfl⟩
  obtain ⟨c10, hc10⟩ : ∃ c10, c10 = ((c8.emitOp .loadenv).emit (UInt8.ofNat slot)).emitOp .tryh := ⟨_, rfl⟩
  have hc5' : ({ c3.leaveTry.emitOp .trapEnd with
      code := (c3.leaveTry.emitOp .trapEnd).code ++ [Op.jmp.byte, 0, 0] } : Compiler) = c5 := by
    rw [hc5]
    simp [Compiler.emitOp, Compiler.emit, Compiler.leaveTry]
  have hpos : (c3.leaveTry.emitOp .trapEnd).code.length + 1 = c3.code.length + 2 := by
    simp [Compiler.emitOp, Compiler.emit, Compiler.leaveTry]
  rw [hc5'] at hp6
  dsimp only at hp6 hp11 hg2 hhandler hbody
  rw [hpos, ← hc10] at hp11
  rw [← hc2] at hbody hg2
  rw [show c6.addTry (c1.code ++ [Op.trap.byte, 0, 0]).length c3.leaveTry.code.length =
    d6 from by rw [hd6, hc2]; rfl] at hhandler
  have len1 : c1.code.length = c.code.length := by rw [hcode1]
  have len2 : c2.code.length = c1.code.length + 3 := by simp [hc2]
  have len5 : c5.code.length = c3.code.length + 4 := by simp [hc5]
  have len6 := hp6.len_eq
  have lend6 : d6.code.length = c6.code.length := by rw [hd6]; rfl
  have len11 := hp11.len_eq
  have le3 : c2.code.length ≤ c3.code.length := hbody.grows.len_le
  have hd3 : c3.trapDepth = c1.trapDepth + 1 := by
    rw [hbody.grows.trapDepth, hc2]
    rfl
  have hlocals3 : c1.locals <+: c3.locals := by
    have := hbody.grows.locals
    rwa [hc2] at this
  have hconsts3 : c1.consts <+: c3.consts := by
    have := hbody.grows.consts
    rwa [hc2] at this
  have htries3 : c1.tries <+: c3.tries := by
    have := hbody.grows.tries
    rwa [hc2] at this
  have hinside3 : ∀ tb ∈ c3.tries.drop c1.tries.length, c2.code.length < tb.start ∧ tb.start ≤ tb.stop ∧
      tb.stop < c3.code.length := by
    have := hbody.grows.inside
    rwa [hc2] at this ⊢
  have hd6tries : d6.tries = c3.tries ++ [⟨c2.code.length, c3.code.length, c6.code.length⟩] := by
    rw [hd6, hp6.rest, hc5]
    rfl
  have hd6consts : d6.consts = c3.consts := by
    rw [hd6, hp6.rest, hc5]
    rfl
  have hd6locals : d6.locals = c3.locals := by
    rw [hd6, hp6.rest, hc5]
    rfl
  have hd6depth : d6.trapDepth = c1.trapDepth := by
    rw [hd6, hp6.rest, hc5]
    exact Nat.sub_eq_of_eq_add hd3
  have hd6code : d6.code = c6.code := by rw [hd6]; rfl
  have e1d : Extends c1 d6 := by
    refine ⟨by omega, hd6consts ▸ hconsts3, hd6locals ▸ hlocals3, ?_, hd6depth, ?_, ?_⟩
    · have := hbody.grows.slots
      rwa [hc2, ← hd6locals] at this
    · rw [hd6tries]
      exact htries3.trans (List.prefix_append _ _)
    · intro tb htb
      rw [hd6tries, List.drop_append_of_le_length htries3.length_le] at htb
      rcases List.mem_append.mp htb with htb | htb
      · have := hinside3 tb htb
        omega
      · rw [List.mem_singleton.mp htb]
        dsimp only
        omega
  -- the handler, from the stored error to the call
  have hrest : Emits d6 c10 [.any] [.any] false false := by
    have hs6 : slot < d6.locals.length := hslot.trans_le (e1d.locals.length_le)
    have h7 := emits_slot (o := .storeenv) (i := .storeenv) hs6 (by simp) (fun hlt => .storeenv (k := .any) hlt)
    have hs8 : slot < c8.locals.length := hs6.trans_le ((h7.grows.locals.trans hhandler.grows.locals).length_le)
    have h9 := (emits_slot (o := .loadenv) (i := .loadenv) hs8 (by simp) (fun hlt => .loadenv hlt)).frame [.any]
    have h10 := emits_one (c := (c8.emitOp .loadenv).emit (UInt8.ofNat slot)) (o := .tryh)
      (i := .tryh) (w := false) (by simp) (fun _ => .tryh (k := .any) (l := .any)) (by simp [Instr.enters])
    rw [← hc10] at h10
    exact ((h7.trans hhandler).trans h9).trans h10
  have ed11 : Extends d6 c11 := hrest.grows.toExtends.trans hp11.same
  have e111 := e1d.trans ed11
  have len10 := hrest.grows.len_le
  -- the byte at a position of the final code, back to where it was emitted
  have byte10 : ∀ i, i < c3.code.length + 2 ∨ c3.code.length + 4 ≤ i → c11.code[i]? = c10.code[i]? :=
    fun i hi => hp11.other i (by omega) (by omega)
  have byte6 : ∀ i < c6.code.length, c10.code[i]? = c6.code[i]? := fun i hi =>
    (hrest.grows.code_eq i (by omega)).trans (by rw [hd6code])
  have byte3 : ∀ i, i ≤ c1.code.length ∨ c1.code.length + 3 ≤ i → i < c3.code.length →
      c6.code[i]? = c3.code[i]? := by
    intro i hi hlt
    rw [hp6.other i (by omega) (by omega), hc5]
    exact List.getElem?_append_left hlt
  have g111 : Grows c1 c11 := by
    refine ⟨e111, fun i hi => ?_⟩
    rw [byte10 i (by omega), byte6 i (by omega), byte3 i (by omega) (by omega), hbody.grows.code_eq i (by
      change i < c2.code.length
      omega)]
    exact hg2.code_eq i hi
  refine ⟨hl.grows.trans g111, fun {f pre tries} hfit ht hk hgood => ?_⟩
  have hf1 := hfit.right hl.grows.toExtends e111
  have hd1 : c1.trapDepth = c.trapDepth := hl.grows.trapDepth
  obtain ⟨tb, htb⟩ : ∃ tb : TryBody, tb = ⟨c2.code.length, c3.code.length, c6.code.length⟩ := ⟨_, rfl⟩
  rw [← htb] at hd6tries
  have hfh : Fits f d6 c10 (tries.map Prod.fst) :=
    (hf1.right e1d ed11).left_of_bytes hrest.grows.toExtends hp11.same fun i hi _ => byte10 i (by omega)
  have hfb : Fits f c2.enterTry c3 ((tb :: tries.map Prod.fst)) := by
    have hbytes : ∀ i, c2.code.length ≤ i → i < c3.code.length → f.bytes[i]? = c3.code[i]? := by
      intro i hi hlt
      rw [hfit.bytes i (by omega) (by omega), byte10 i (by omega), byte6 i (by omega), byte3 i (by omega) hlt]
    refine ⟨hbytes, ?_, hfit.few, ?_, hfit.slots, fun pos hp hle => ?_⟩
    · rw [← hd6consts]
      exact ed11.consts.trans hfit.consts
    · rw [← hd6locals]
      exact ed11.locals.length_le.trans hfit.locals
    · have hstart : c2.code.length ≤ pos := hp
      have hafter : (c11.tries.drop d6.tries.length).filter (·.covers pos) = [] := by
        apply filter_covers_eq_nil
        intro t ht
        have := ed11.inside t ht
        omega
      have hcov : tb.covers pos = true := by
        rw [htb]
        simp only [TryBody.covers, decide_eq_true_eq]
        omega
      rw [hf1.tries pos (by omega) (by omega), e1d.drop_tries ed11, hd6tries,
        List.drop_append_of_le_length htries3.length_le, ← hd6tries, List.filter_append, hafter, List.append_nil,
        List.filter_append, List.filter_singleton, hcov, List.append_assoc]
      simp only [cond_true, List.singleton_append, hc2]
      rfl
  have hexit : Good f c10.code.length ⟨pre ++ [.any], tries, false⟩ := by rwa [← len11]
  have hhand : Good f c6.code.length ⟨pre ++ [.any], tries, false⟩ := by
    have := hrest.good hfh (ht.trans (hd6depth.trans hd1).symm) hk hexit
    rwa [lend6] at this
  have at5 : ∀ i, c3.code.length ≤ i → i < c3.code.length + 2 → f.bytes[i]? = c5.code[i]? := by
    intro i h1 h2
    rw [hfit.bytes i (by omega) (by omega), byte10 i (by omega), byte6 i (by omega),
      hp6.other i (by omega) (by omega)]
  have hjmp : Good f (c3.code.length + 1) ⟨pre ++ [.any], tries, false⟩ := by
    have hop : f.bytes[c3.code.length + 1]? = some Op.jmp.byte := by
      rw [at5 _ (by omega) (by omega), hc5]
      simp
    obtain ⟨hi, lo, hb, hint⟩ := jump_bytes hop hp11 (by omega) (hfit.bytes _ (by omega) (by omega))
      (hfit.bytes _ (by omega) (by omega))
    have hdec := decode_jump (f := .jmp) hb (by simp)
    rw [hint] at hdec
    have hx : Exact f (c3.code.length + 1) tries := by
      refine hf1.exact rfl (by omega) (by omega) fun t ht => ?_
      rw [e1d.drop_tries ed11, hd6tries, List.drop_append_of_le_length htries3.length_le] at ht
      rcases List.mem_append.mp ht with ht | ht
      · rcases List.mem_append.mp ht with ht | ht
        · have := hinside3 t ht
          omega
        · rw [List.mem_singleton.mp ht, htb]
          dsimp only
          omega
      · rw [← hd6tries] at ht
        have := ed11.inside t ht
        omega
    refine .step hdec .jmp hx.within ?_
    intro s hs
    rw [List.mem_singleton.mp hs]
    rwa [show c3.code.length + 1 + 3 + (c10.code.length - (c3.code.length + 1 + 3)) =
      c10.code.length from by omega]
  have hend : Good f c3.code.length ⟨pre ++ [.any], (tb, pre.length) :: tries, false⟩ := by
    have hop : f.bytes[c3.code.length]? = some Op.trapEnd.byte := by
      rw [at5 _ (by omega) (by omega), hc5]
      simp
    have hb : Bytes f.bytes c3.code.length [Op.trapEnd.byte] := by
      intro i hi
      obtain rfl : i = 0 := by simpa using hi
      simpa using hop
    have hx : Exact f c3.code.length ((tb, pre.length) :: tries) :=
      hfb.exact rfl le3 le_rfl fun t ht => .inr (hbody.grows.inside t ht).2.2
    refine .step (decode_one hb (by simp)) .trapEnd hx.within ?_
    intro s hs
    rw [List.mem_singleton.mp hs]
    exact hjmp
  have hbgood : Good f c2.code.length ⟨pre, (tb, pre.length) :: tries, false⟩ := by
    have := @hbody.good f pre ((tb, pre.length) :: tries) hfb
      (by rw [List.length_cons, ht, hc2, ← hd1]; rfl)
      (by
        intro t ht
        rcases List.mem_cons.mp ht with rfl | ht
        · exact le_rfl
        · exact hk t ht) hend
    rwa [List.append_nil] at this
  rw [List.append_nil, ← len1]
  have hop : f.bytes[c1.code.length]? = some Op.trap.byte := by
    rw [hfit.bytes _ (by omega) (by omega), byte10 _ (by omega), byte6 _ (by omega), byte3 _ (by omega) (by omega),
      hbody.grows.code_eq _ (by
        change c1.code.length < c2.code.length
        omega)]
    change c2.code[c1.code.length]? = _
    rw [hc2]
    simp
  have hpatch : ∀ i, c1.code.length < i → i < c1.code.length + 3 → f.bytes[i]? = c6.code[i]? := by
    intro i h1 h2
    rw [hfit.bytes _ (by omega) (by omega), byte10 _ (by omega), byte6 _ (by omega)]
  obtain ⟨hi, lo, hb, hint⟩ := jump_bytes hop hp6 (by omega) (hpatch _ (by omega) (by omega))
    (hpatch _ (by omega) (by omega))
  have hdec := decode_jump (f := .trap) hb (by simp)
  rw [hint] at hdec
  have hx : Exact f c1.code.length tries := hf1.exact_start e111 rfl
  refine .step hdec (.trap (b := tb) hx (by rw [htb]; dsimp only; omega) hk) hx.within ?_
  intro s hs
  rcases List.mem_pair.mp hs with rfl | rfl
  · rwa [len2] at hbgood
  · rw [htb]
    exact hhand

end

mutual

def hasError : Obj → Bool
  | .error _ => true
  | .list _ elems => anyHasError elems
  | _ => false

def anyHasError : List Obj → Bool
  | [] => false
  | e :: es => hasError e || anyHasError es

end

lemma anyHasError_eq_false {es : List Obj} (h : anyHasError es = false) : ∀ e ∈ es, hasError e = false := by
  induction es with
  | nil => simp
  | cons e es ih =>
    rw [anyHasError, Bool.or_eq_false_iff] at h
    intro x hx
    rcases List.mem_cons.mp hx with rfl | hx
    · exact h.1
    · exact ih h.2 x hx

section

theorem Obj.induction_elems {P : Obj → Prop} (list : ∀ addr elems, (∀ e ∈ elems, P e) → P (.list addr elems))
    (leaf : ∀ e, (∀ addr elems, e ≠ .list addr elems) → P e) (e : Obj) : P e := by
  refine Obj.rec ?_ ?_ ?_ ?_ ?_ ?_ ?_ (fun addr elems (ih : ∀ e ∈ elems, P e) => list addr elems ih)
    ?_ ?_ ?_ ?_ ?_ ?_ (List.forall_mem_nil _) (fun _ _ ihe ihes => List.forall_mem_cons.mpr ⟨ihe, ihes⟩) e
  all_goals
    intros
    exact leaf _ (by simp)

def ExprOk (g : Globals) (e : Obj) : Prop :=
  hasError e = false → ∀ {c c' : Compiler}, compileExpr g c e = some c' → Emits c c' [] [.any] false false

variable {g : Globals} {c c' : Compiler} {es : List Obj}

lemma emits_args {c c' : Compiler} (h : ∀ e ∈ es, ExprOk g e) (herr : ∀ e ∈ es, hasError e = false)
    (hc : compileArgs g c es = some c') :
    Emits c c' [] (List.replicate es.length .any) false false := by
  induction es generalizing c with
  | nil =>
    cases hc
    exact ⟨.refl _, fun _ _ _ hg => hg⟩
  | cons e es ih =>
    rw [compileArgs] at hc
    obtain ⟨c1, h1, h2⟩ := Option.bind_eq_some_iff.mp hc
    have hfirst := h e List.mem_cons_self (herr e List.mem_cons_self) h1
    have hrest := ih (fun x hx => h x (List.mem_cons_of_mem _ hx))
      (fun x hx => herr x (List.mem_cons_of_mem _ hx)) h2
    exact hfirst.trans (hrest.frame [.any])

lemma emits_rest {c c' : Compiler} (h : ∀ e ∈ es, ExprOk g e) (herr : ∀ e ∈ es, hasError e = false)
    (hc : compileRest g c es = some c') :
    Emits c c' [.any] [.any] false false := by
  induction es generalizing c with
  | nil =>
    cases hc
    exact ⟨.refl _, fun _ _ _ hg => hg⟩
  | cons e es ih =>
    rw [compileRest] at hc
    obtain ⟨c1, h1, h2⟩ := Option.bind_eq_some_iff.mp hc
    have hpop := emits_one (c := c) (o := .pop) (i := .pop) (w := false) (by simp) (fun _ => .pop (k := .any))
      (by simp [Instr.enters])
    have hfirst := h e List.mem_cons_self (herr e List.mem_cons_self) h1
    exact (hpop.trans hfirst).trans
      (ih (fun x hx => h x (List.mem_cons_of_mem _ hx)) (fun x hx => herr x (List.mem_cons_of_mem _ hx)) h2)

lemma emits_call_form {head : Obj} {args : List Obj} {addr : ℕ} (h : ∀ e ∈ head :: args, ExprOk g e)
    (herr : ∀ e ∈ head :: args, hasError e = false)
    (hc : (if (headValue g head).any g.isSpecialForm then some (compileSpecial c (.list addr (head :: args)))
      else do
        let c ← (match headValue g head with
          | some (.builtin a k r) => some (c.loadConstant (.builtin a k r))
          | _ => compileExpr g c head)
        if 64 < args.length then none
        else do
          let c ← compileArgs g c args
          return emitCall c (headValue g head) args.length) = some c') :
    Emits c c' [] [.any] false false := by
  by_cases hspecial : (headValue g head).any g.isSpecialForm
  · rw [if_pos hspecial] at hc
    cases hc
    exact emits_special c _
  · rw [if_neg hspecial] at hc
    obtain ⟨c1, h1, h2⟩ := Option.bind_eq_some_iff.mp hc
    by_cases hlen : 64 < args.length
    · rw [if_pos hlen] at h2
      cases h2
    rw [if_neg hlen] at h2
    obtain ⟨c2, h3, h4⟩ := Option.bind_eq_some_iff.mp h2
    cases h4
    have hargs := emits_args (fun x hx => h x (List.mem_cons_of_mem _ hx))
      (fun x hx => herr x (List.mem_cons_of_mem _ hx)) h3
    by_cases hb : ∃ a k r, headValue g head = some (.builtin a k r)
    · obtain ⟨a, k, r, hfn⟩ := hb
      rw [hfn] at h1
      cases h1
      have hload := emits_loadConstant c (.builtin a k r) (k := .fn) (by
        rintro v' (rfl | hsame)
        · exact ⟨a, k, r, rfl⟩
        · cases v' <;> simp [Obj.same] at hsame
          exact ⟨_, _, _, rfl⟩) false
      exact (hload.trans (hargs.frame [.fn])).trans (emits_call c2 _ (by omega) (.inr ⟨rfl, a, k, r, hfn⟩))
    · have hno : ∀ a k r, headValue g head ≠ some (.builtin a k r) := fun a k r hfn => hb ⟨a, k, r, hfn⟩
      have hhead : compileExpr g c head = some c1 := by
        split at h1
        · rename_i hfn
          exact absurd hfn (hno _ _ _)
        · exact h1
      have hload := h head List.mem_cons_self (herr head List.mem_cons_self) hhead
      exact (hload.trans (hargs.frame [.any])).trans (emits_call c2 _ (by omega) (.inl ⟨rfl, hno⟩))

lemma emits_list {addr : ℕ} (h : ∀ e ∈ es, ExprOk g e) (herr : ∀ e ∈ es, hasError e = false)
    (hc : compileList g c addr es = some c') : Emits c c' [] [.any] false false := by
  cases es with
  | nil =>
    rw [compileList] at hc
    cases hc
    exact emits_any c _ false
  | cons head args =>
    have ok : ∀ {e}, e ∈ head :: args → ∀ {c c' : Compiler}, compileExpr g c e = some c' →
        Emits c c' [] [.any] false false :=
      fun {e} he => h e he (herr e he)
    rw [compileList.eq_def] at hc
    dsimp only at hc
    split at hc
    case h_1 name value _ =>
      split at hc
      case h_2 => cases hc
      case h_1 n q =>
        obtain ⟨c1, h1, h2⟩ := Option.bind_eq_some_iff.mp hc
        cases h2
        exact (ok (by simp) h1).trans (emits_named (g := .storeglobal) (by simp) (fun hv => .storeglobal hv)
          (by simp [Instr.enters]))
    case h_2 name value _ =>
      split at hc
      case h_2 => cases hc
      case h_1 n q =>
        split_ifs at hc
        obtain ⟨c1, h1, h2⟩ := Option.bind_eq_some_iff.mp hc
        obtain ⟨⟨slot, c3⟩, h3, h4⟩ := Option.bind_eq_some_iff.mp h2
        cases h4
        have hforce := emits_one (c := c1) (o := .force) (i := .force) (w := false) (by simp)
          (fun _ => .force (k := .any)) (by simp [Instr.enters])
        have hdup := emits_one (c := c1.emitOp .force) (o := .dup) (i := .dup) (w := false) (by simp)
          (fun _ => .dup (k := .any)) (by simp [Instr.enters])
        have hslot : Emits ((c1.emitOp .force).emitOp .dup) c3 [] [] false false ∧ slot < c3.locals.length := by
          split at h3
          · rename_i hfind
            cases h3
            exact ⟨⟨.refl _, fun _ _ _ hg => hg⟩, findLocal_lt hfind⟩
          · obtain ⟨h1, h2, -⟩ := addLocal_spec h3
            exact ⟨h1, h2⟩
        have hstore := (emits_slot (o := .storeenv) (i := .storeenv) hslot.2 (by simp)
          (fun hlt => .storeenv (k := .any) hlt)).frame [.any]
        exact ((((ok (by simp) h1).trans hforce).trans hdup).trans (hslot.1.frame [.any, .any])).trans hstore
    case h_3 cond thn els _ =>
      obtain ⟨c1, h1, h2⟩ := Option.bind_eq_some_iff.mp hc
      obtain ⟨c3, h3, h4⟩ := Option.bind_eq_some_iff.mp h2
      obtain ⟨c5, h5, h6⟩ := Option.bind_eq_some_iff.mp h4
      obtain ⟨c6, h7, h8⟩ := Option.bind_eq_some_iff.mp h6
      refine emits_if (ok (by simp) h1) (ok (by simp) h3) h5 ?_ h8
      cases els with
      | nil =>
        cases h7
        exact emits_any c5 _ false
      | cons e tail => exact ok (by simp) h7
    case h_4 e tail _ =>
      obtain ⟨c1, h1, h2⟩ := Option.bind_eq_some_iff.mp hc
      exact (ok (by simp) h1).trans (emits_rest (fun x hx => h x (by simp [hx]))
        (fun x hx => herr x (by simp [hx])) h2)
    case h_5 =>
      cases hc
      exact emits_evalForm c _ false
    case h_6 body handler _ =>
      obtain ⟨⟨slot, c1⟩, h1, h2⟩ := Option.bind_eq_some_iff.mp hc
      obtain ⟨c3, h3, h4⟩ := Option.bind_eq_some_iff.mp h2
      obtain ⟨c6, h6, h7⟩ := Option.bind_eq_some_iff.mp h4
      obtain ⟨c8, h8, h9⟩ := Option.bind_eq_some_iff.mp h7
      exact emits_try h1 (ok (by simp) h3) h6 (ok (by simp) h8) h9
    case h_7 =>
      cases hc
      exact (emits_any c .null false).trans (emits_return _ _ _)
    case h_8 value _ =>
      obtain ⟨c1, h1, h2⟩ := Option.bind_eq_some_iff.mp hc
      cases h2
      exact (ok (by simp) h1).trans (emits_return _ _ _)
    case h_9 =>
      split_ifs at hc with hlen
      obtain ⟨c1, h1, h2⟩ := Option.bind_eq_some_iff.mp hc
      cases h2
      have hargs := emits_args (fun x hx => h x (List.mem_cons_of_mem _ hx))
        (fun x hx => herr x (List.mem_cons_of_mem _ hx)) h1
      exact hargs.trans (emits_two (g := .calls) (by omega) (by simp) (fun _ => .calls) (fun _ => rfl))
    case h_10 => exact emits_call_form h herr hc

theorem compileExpr_ok (g : Globals) (e : Obj) : ExprOk g e := by
  induction e using Obj.induction_elems with
  | list addr elems ih =>
    intro herr c c' hc
    rw [compileExpr] at hc
    exact emits_list ih (anyHasError_eq_false herr) hc
  | leaf e hlist =>
    intro herr c c' hc
    cases e
    case list addr elems => exact absurd rfl (hlist addr elems)
    case error => simp [hasError] at herr
    case sym name quoted =>
      cases quoted with
      | true =>
        cases hc
        exact emits_any c _ false
      | false =>
        simp only [compileExpr] at hc
        split_ifs at hc
        · cases hc
          exact emits_any c _ false
        · split at hc
          · rename_i slot hfind
            cases hc
            exact emits_slot (i := .loadenv) (findLocal_lt hfind) (by simp) (fun hlt => .loadenv hlt)
          · cases hc
            exact emits_named (g := .resolve) (by simp) (fun hv => .resolve hv) (by simp [Instr.enters])
    all_goals
      cases hc
      exact emits_any c _ false

end

lemma addParams_spec {params : List String} {c c' : Compiler} (h : addParams c params = some c') :
    Emits c c' [] [] false false ∧ c'.code = c.code ∧ c'.tries = c.tries ∧
      c'.locals.length = c.locals.length + params.length := by
  induction params generalizing c with
  | nil =>
    cases h
    exact ⟨⟨.refl _, fun _ _ _ hg => hg⟩, rfl, rfl, rfl⟩
  | cons name params ih =>
    rw [addParams, List.foldlM_cons] at h
    obtain ⟨c1, h1, h2⟩ := Option.bind_eq_some_iff.mp h
    obtain ⟨⟨slot, c2⟩, h3, rfl⟩ := Option.map_eq_some_iff.mp h1
    obtain ⟨hadd, -, hcode, htries⟩ := addLocal_spec h3
    obtain ⟨hrest, hcodes, htry, hlen⟩ := ih h2
    refine ⟨hadd.trans hrest, hcodes.trans hcode, htry.trans htries, ?_⟩
    rw [Compiler.addLocal] at h3
    split_ifs at h3
    cases h3
    rw [hlen, List.length_append, List.length_singleton, List.length_cons]
    omega

lemma compileBody_ok {g : Globals} {body : List Obj} {c c' : Compiler} (herr : ∀ e ∈ body, hasError e = false)
    (h : compileBody g c body = some c') : ∃ give, Emits c c' [] give false false := by
  cases body with
  | nil =>
    cases h
    exact ⟨[], .refl _, fun _ _ _ hg => hg⟩
  | cons e es =>
    obtain ⟨c1, h1, h2⟩ := Option.bind_eq_some_iff.mp h
    have hfirst := compileExpr_ok g e (herr e List.mem_cons_self) h1
    exact ⟨[.any], hfirst.trans (emits_rest (fun x _ => compileExpr_ok g x)
      (fun x hx => herr x (List.mem_cons_of_mem _ hx)) h2)⟩

theorem rayCompile_verified {g : Globals} {l : Lambda} {code : Code} (h : rayCompile g l = some code)
    (herr : ∀ e ∈ l.body, hasError e = false) (hfew : code.consts.length ≤ 65536) :
    Verified code ∧ l.params.length ≤ code.nLocals ∧ code.nLocals ≤ 256 := by
  obtain ⟨c1, h1, h2⟩ := Option.bind_eq_some_iff.mp h
  obtain ⟨c2, h3, h4⟩ := Option.bind_eq_some_iff.mp h2
  cases h4
  obtain ⟨hparams, -, -, hlen⟩ := addParams_spec h1
  obtain ⟨give, hbody⟩ := compileBody_ok herr h3
  have hstart := hparams.trans hbody
  have hslots : c2.locals.length ≤ 256 := hstart.grows.slots (by simp [Compiler.init])
  have hret : Grows c2 (c2.emitOp .ret) := grows_append rfl
  obtain ⟨f, hf⟩ : ∃ f : Code, f = ⟨(c2.emitOp .ret).code, c2.consts, c2.locals.length, c2.tries⟩ := ⟨_, rfl⟩
  have hfits : Fits f .init (c2.emitOp .ret) [] := by
    subst hf
    refine ⟨fun _ _ _ => rfl, List.prefix_rfl, hfew, le_rfl, hslots, fun pos _ _ => ?_⟩
    rw [List.append_nil]
    rfl
  have hend : Good f c2.code.length ⟨give, [], false⟩ :=
    good_return ((hfits.right hstart.grows.toExtends hret.toExtends).segment rfl) (by simp [Within])
  have hgood := @hstart.good f [] [] (hfits.left hstart.grows.toExtends hret) rfl (by simp) hend
  refine ⟨hf ▸ hgood, ?_, hslots⟩
  have := hbody.grows.locals.length_le
  rw [hlen] at this
  exact (Nat.le_add_left _ _).trans this

end Rayforce.Vm
