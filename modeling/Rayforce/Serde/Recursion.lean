import Rayforce.Serde.Refinement

namespace Rayforce.Serde

open Library.Words List Option

variable {saved : ℤ} {fuel : ℕ}

section

variable {rt : Runtime} {m : Bytes} {p : ℕ} {s : DeState} {bs : Bytes}

lemma At.child (h : At m (childPtr p saved s) s bs) (hs : s.len ≤ saved) {rest : Bytes}
    (hr : rest <:+ bs) (d : ℕ) (log : List Alloc) :
      At m (childPtr p saved ⟨rest.length, d, log⟩) ⟨rest.length, d, log⟩ rest := by
  obtain ⟨pre, rfl⟩ := hr
  have hskip := h.skip (n := pre.length) (by simp)
  have hp : childPtr p saved ⟨rest.length, d, log⟩ = childPtr p saved s + pre.length := by
    have hroom := h.room
    simp only [childPtr, length_append, Nat.cast_add] at hroom ⊢
    omega
  rw [drop_left] at hskip
  rw [hp]
  exact ⟨hskip.drop, hskip.inside, rfl⟩

lemma AllocOk.append {n n' : ℤ} {log log' : List Alloc} (h : ∀ a ∈ log, AllocOk rt n log a)
    (hn : n' ≤ n) (h' : ∀ a ∈ log', AllocOk rt n' log' a) : ∀ a ∈ log ++ log', AllocOk rt n (log ++ log') a := by
  intro a ha
  rcases mem_append.mp ha with ha | ha
  · exact (h a ha).mono le_rfl fun b hb => mem_append_left _ hb
  · exact (h' a ha).mono hn fun b hb => mem_append_right _ hb

section

variable {child : ℕ → DeState → De} {pchild : Bytes → Parsed} {d : ℕ}

section

variable (hch : ∀ p s bs, At m p s bs → s.depth = d → Reads rt s bs (child p s) (pchild bs))
include hch

lemma deElems_reads (n : ℕ) (h : At m (childPtr p saved s) s bs) (hs : s.len ≤ saved) (hd : s.depth = d) :
    ∃ log, deElems child p saved n s =
        some ((parseElems pchild n bs).1, ⟨(parseElems pchild n bs).2.length, s.depth, s.allocs ++ log⟩) ∧
      (parseElems pchild n bs).2 <:+ bs ∧ ∀ a ∈ log, AllocOk rt bs.length log a := by
  induction n generalizing s bs with
  | zero =>
    refine ⟨[], ?_, suffix_rfl, by simp⟩
    rw [append_nil]
    exact congrArg (fun s => some (_, s)) h.state
  | succ n ih =>
    obtain ⟨log, he, hsuf, hlog, -⟩ := hch _ s bs h hd
    unfold deElems parseElems
    rw [he, bind_some]
    rcases hp : pchild bs with ⟨o, rest⟩
    rw [hp] at hsuf
    have hle : (rest.length : ℤ) ≤ saved := by
      have hlen : rest.length ≤ bs.length := hsuf.length_le
      have := h.room
      omega
    obtain ⟨log', he', hsuf', hlog'⟩ := ih (h.child hs hsuf s.depth (s.allocs ++ log)) hle hd
    cases o with
    | error code => exact ⟨log, rfl, hsuf, hlog⟩
    | _ =>
      refine ⟨log ++ log', ?_, hsuf'.trans hsuf, AllocOk.append hlog (by exact_mod_cast hsuf.length_le) hlog'⟩
      simp only [he', map_some, append_assoc]

omit hch in
lemma parseElems_length {n : ℕ} {es : List Obj} (h : (parseElems pchild n bs).1 = .ok es) : es.length = n := by
  induction n generalizing bs es with
  | zero => cases h; rfl
  | succ n ih =>
    unfold parseElems at h
    rcases hp : pchild bs with ⟨o, rest⟩
    rw [hp] at h
    cases o with
    | error code => cases h
    | _ =>
      dsimp only at h
      rcases hq : (parseElems pchild n rest).1 with code | es'
      · rw [hq] at h; cases h
      · rw [hq] at h; cases h
        simp [ih hq]

lemma deList_reads (h : At m p s bs) (hd : s.depth = d) :
    Reads rt s bs (deList child m p s) (parseList pchild bs) := by
  refine deHeader_reads h fun attrs l s bs h hd' => ?_
  refine Reads.unlessShort h (by rfl) fun hl => ?_
  have hat : At m (childPtr (p + 9) (s.alloc .counted l).len (s.alloc .counted l)) (s.alloc .counted l) bs := by
    have hp : childPtr (p + 9) (s.alloc .counted l).len (s.alloc .counted l) = p + 9 := by simp [childPtr]
    rw [hp]
    exact h.alloc .counted l
  obtain ⟨log, he, hs, hlog⟩ := deElems_reads hch l hat le_rfl (hd'.trans hd)
  have hfit : (l : ℤ) ≤ s.len := by rw [h.room]; exact_mod_cast not_lt.mp hl
  have hone : ∀ a ∈ [(⟨.counted, l, s.len⟩ : Alloc)], AllocOk rt bs.length [⟨.counted, l, s.len⟩] a := by
    simpa [AllocOk] using hfit
  have halloc : ∀ a ∈ (⟨.counted, l, s.len⟩ : Alloc) :: log,
      AllocOk rt bs.length (⟨.counted, l, s.len⟩ :: log) a := AllocOk.append hone le_rfl hlog
  dsimp only
  rw [Int.toNat_natCast, he, map_some]
  rcases hp : parseElems pchild l bs with ⟨code | es, rest⟩
  · rw [hp] at hs
    exact ⟨_ :: log, by simp [DeState.alloc], hs, halloc, fun _ _ hc => by cases hc⟩
  · have hes := parseElems_length (congrArg Prod.fst hp)
    rw [hp] at hs
    refine ⟨⟨.counted, l, s.len⟩ :: log, by simp [DeState.alloc], hs, halloc, ?_⟩
    intro a es' hc
    cases hc
    exact Or.inl ⟨_, mem_cons_self, rfl, by simp [hes]⟩

lemma dePair_reads (h : At m p s bs) (hd : s.depth = d) {k : UInt8 → Obj → Obj → DeState → De}
    {k' : UInt8 → Obj → Obj → Obj} (hk : ∀ a first second s', ∃ log', k a first second s' =
        some (k' a first second, ⟨s'.len, s'.depth, s'.allocs ++ log'⟩) ∧
      ∀ log, ListOk rt log second → (∀ n, ∀ x ∈ log', AllocOk rt n log x) ∧ ListOk rt log (k' a first second)) :
    Reads rt s bs (dePair child m p s k) (parsePair pchild bs k') := by
  unfold dePair parsePair
  refine Reads.unlessShort h (by rfl) fun hl => ?_
  rw [rd_at h (n := 1) (by omega)]
  have h1 : At m (p + 1) (s.skip 1) (bs.drop 1) := h.skip (n := 1) (by omega)
  have hf : (bs.take 1).headD 0 = bs.headD 0 := by cases bs <;> simp
  have hw : bs.drop 1 <:+ bs := drop_suffix _ _
  obtain ⟨log, he, hs, hlog, hlist⟩ := hch _ _ _ h1 hd
  simp only [bind_some, hf, he]
  have hat : At m (childPtr (p + 1) (s.skip 1).len (s.skip 1)) (s.skip 1) (bs.drop 1) := by
    have hp : childPtr (p + 1) (s.skip 1).len (s.skip 1) = p + 1 := by simp [childPtr]
    rw [hp]
    exact h1
  have hat2 := hat.child le_rfl hs (s.skip 1).depth ((s.skip 1).allocs ++ log)
  obtain ⟨log2, he2, hs2, hlog2, hlist2⟩ := hch _ _ _ hat2 hd
  simp only [he2, bind_some]
  have hn1 : ((bs.drop 1).length : ℤ) ≤ bs.length := by exact_mod_cast hw.length_le
  have hlog : ∀ a ∈ log, AllocOk rt bs.length log a := fun a ha => (hlog a ha).mono hn1 fun b hb => hb
  have hboth := AllocOk.append hlog (by exact_mod_cast (hs.trans hw).length_le) hlog2
  have hsuf2 := (hs2.trans hs).trans hw
  rcases hp : pchild (bs.drop 1) with ⟨first, rest⟩
  rw [hp] at hs hs2 hlist2 hsuf2
  cases first with
  | nullPtr => exact ⟨log, rfl, hs.trans hw, hlog, fun _ _ hc => by cases hc⟩
  | error code => exact ⟨log, rfl, hs.trans hw, hlog, fun _ _ hc => by cases hc⟩
  | _ =>
    dsimp only at hs2 hlist2 hsuf2 ⊢
    rcases hq : pchild rest with ⟨second, rest2⟩
    rw [hq] at hs2 hlist2 hsuf2
    cases second with
    | nullPtr =>
      exact ⟨log ++ log2, by simp [DeState.skip], hsuf2, hboth, fun _ _ hc => by cases hc⟩
    | error code =>
      exact ⟨log ++ log2, by simp [DeState.skip], hsuf2, hboth, fun _ _ hc => by cases hc⟩
    | _ =>
      dsimp only at hlist2 ⊢
      obtain ⟨log3, he3, hok⟩ := hk (bs.headD 0) _ _ _
      obtain ⟨hlog3, hlist3⟩ := hok (log ++ log2) (hlist2.mono fun b hb => mem_append_right _ hb)
      refine ⟨log ++ log2 ++ log3, ?_, hsuf2, ?_, hlist3.mono fun b hb => mem_append_left _ hb⟩
      · rw [he3]
        simp [DeState.skip]
      · intro a ha
        rcases mem_append.mp ha with ha | ha
        · exact (hboth a ha).mono le_rfl fun b hb => mem_append_left _ hb
        · exact (hlog3 _ a ha).mono le_rfl fun b hb => mem_append_left _ hb

end

end

lemma deFn_reads (h : At m p s bs) : Reads rt s bs (deFn rt.env m p s) (parseFn rt.env bs) := by
  have hs : s.len.toNat = bs.length := by rw [h.room]; rfl
  unfold deFn parseFn
  rw [hs, safeStrlen_at h]
  cases hc : cutNul bs with
  | none =>
    simp only [Option.elim, bind_some, h.room, le_refl, if_true]
    exact Reads.raise h suffix_rfl rfl rfl _
  | some r =>
    obtain ⟨name, rest⟩ := r
    have hlt : ¬ s.len ≤ name.length := by rw [h.room, cutNul_some hc]; simp
    simp only [Option.elim, bind_some, hlt, if_false, rd_name h hc]
    cases hf : rt.env name with
    | none => exact Reads.raise h suffix_rfl rfl rfl _
    | some f =>
      refine ⟨[], ?_, cutNul_suffix hc, by simp, fun attrs es he => Or.inr ⟨name, by rw [hf]⟩⟩
      rw [append_nil]
      exact congrArg (fun s => some (f, s)) (h.pastName hc).state

lemma deError_reads (h : At m p s bs) : Reads rt s bs (deError m p s) (parseError bs) := by
  unfold deError parseError
  refine Reads.unlessShort h (by rfl) fun hl => ?_
  rw [rd_at h (n := 8) (by omega)]
  have h8 := h.skip (n := 8) (by omega)
  exact Reads.plain (x := (.error _, bs.drop 8)) (drop_suffix _ _) (by simp) h8.room rfl rfl

lemma deTable_spec (schema cols : Obj) (s : DeState) : ∃ log', deTable rt.symStr schema cols s =
      some (tableOf rt.symStr schema cols, ⟨s.len, s.depth, s.allocs ++ log'⟩) ∧ ∀ log, ListOk rt log cols →
      (∀ n, ∀ x ∈ log', AllocOk rt n log x) ∧ ListOk rt log (tableOf rt.symStr schema cols) := by
  unfold deTable tableOf
  cases hc : columnList cols with
  | none => exact ⟨[], by simp [raise], fun log _ => ⟨by simp, fun _ _ he => by cases he⟩⟩
  | some cs =>
    cases hn : schemaNames rt.symStr schema with
    | none => exact ⟨[], by simp [raise], fun log _ => ⟨by simp, fun _ _ he => by cases he⟩⟩
    | some names =>
      refine ⟨[⟨.columns, cs.length, s.len⟩], rfl, fun log hlist => ⟨?_, fun _ _ he => by cases he⟩⟩
      obtain ⟨attrs, rfl⟩ : ∃ attrs, cols = .list attrs cs := by
        cases cols <;> simp_all [columnList]
      simp only [mem_singleton, forall_eq]
      intro n
      rcases hlist attrs cs rfl with hb | ⟨name, he⟩
      · exact Or.inl hb
      · exact Or.inr ⟨name, attrs, cs, he, rfl⟩

lemma deRawInner_reads {child : ℕ → DeState → De} {pchild : Bytes → Parsed} {d : ℕ}
    (hch : ∀ p s bs, At m p s bs → s.depth = d → Reads rt s bs (child p s) (pchild bs))
    (h : At m p s bs) (hd : s.depth = d) :
      Reads rt s bs (deRawInner rt child m p s) (parseInner rt pchild bs) := by
  unfold deRawInner parseInner
  cases bs with
  | nil =>
    rw [if_pos (by rw [h.room]; simp)]
    exact Reads.plain (x := (.nullPtr, [])) suffix_rfl (by simp) h.room rfl rfl
  | cons b bs =>
    rw [if_neg (by rw [h.room]; simp), rd_at h (n := 1) (by simp)]
    have h1 : At m (p + 1) (s.skip 1) bs := h.skip (n := 1) (by simp)
    have hw : bs <:+ b :: bs := suffix_cons _ _
    simp only [bind_some, take_succ_cons, take_zero, headD_cons]
    cases Tag.ofByte b with
    | null => exact Reads.plain (x := (.null, bs)) hw (by simp) h1.room rfl rfl
    | fixedVec t => exact (deFixedVec_reads h1 t).weaken hw rfl rfl
    | symVec => exact (deSymVec_reads h1).weaken hw rfl rfl
    | strVec => exact (deStrVec_reads h1).weaken hw rfl rfl
    | list => exact (deList_reads hch h1 hd).weaken hw rfl rfl
    | table => exact (dePair_reads hch h1 hd fun _ schema cols s' => deTable_spec schema cols s').weaken hw rfl rfl
    | dict =>
      refine (dePair_reads hch h1 hd fun a ks vs s' => ⟨[⟨.slots, 2, s'.len⟩], rfl, ?_⟩).weaken hw rfl rfl
      exact fun log _ => ⟨by simp [AllocOk], fun _ _ he => by cases he⟩
    | lambda =>
      refine (dePair_reads hch h1 hd fun a ps body s' => ⟨[⟨.slots, 7, s'.len⟩], rfl, ?_⟩).weaken hw rfl rfl
      exact fun log _ => ⟨by simp [AllocOk], fun _ _ he => by cases he⟩
    | fn k => exact (deFn_reads h1).weaken hw rfl rfl
    | error => exact (deError_reads h1).weaken hw rfl rfl
    | unknown => exact Reads.raise h1 hw rfl rfl _
    | fixedAtom t => exact (deAtom_reads h1 _).weaken hw rfl rfl
    | symAtom => exact (deAtom_reads h1 _).weaken hw rfl rfl
    | strAtom => exact (deAtom_reads h1 _).weaken hw rfl rfl
    | unknownAtom => exact (deAtom_reads h1 _).weaken hw rfl rfl

theorem rayDeRaw_reads {fuel levels : ℕ} (hf : levels ≤ fuel) (h : At m p s bs)
    (hd : s.depth + levels = rayDeMaxDepth) : Reads rt s bs (rayDeRaw rt m fuel p s) (parse rt levels bs) := by
  induction levels generalizing fuel p s bs with
  | zero =>
    have hraise : rayDeRaw rt m fuel p s = raise codeDomain s := by
      cases fuel <;> simp only [rayDeRaw, if_pos (show rayDeMaxDepth ≤ s.depth by omega)]
    rw [hraise]
    exact Reads.raise h suffix_rfl rfl rfl _
  | succ levels ih =>
    obtain ⟨fuel, rfl⟩ : ∃ k, fuel = k + 1 := ⟨fuel - 1, by omega⟩
    simp only [rayDeRaw, if_neg (show ¬ rayDeMaxDepth ≤ s.depth by omega)]
    have hch : ∀ p s' bs, At m p s' bs → s'.depth = s.depth + 1 →
        Reads rt s' bs (rayDeRaw rt m fuel p s') (parse rt levels bs) :=
      fun p s' bs h' hd' => ih (by omega) h' (by omega)
    obtain ⟨log, he, hs, hlog, hlist⟩ := deRawInner_reads hch (h.deepen (s.depth + 1)) rfl
    exact ⟨log, by rw [he]; rfl, hs, hlog, hlist⟩

end

open Library.Words

-- an allocation within the bytes still unread, the fixed-width vectors apart
def Alloc.withinRoom (a : Alloc) : Bool :=
  match a.kind with
  | .fixedWidth _ => true
  | _ => a.count ≤ a.room

def bareRuntime : Runtime := ⟨fun _ => none, by simp, fun _ => [], id⟩

def DeState.start (len : ℤ) (depth : ℕ) : DeState := ⟨len, depth, []⟩

section

variable {rt : Runtime} {m : Bytes}

lemma at_start (bs : Bytes) (depth : ℕ) : At bs 0 (.start bs.length depth) bs := ⟨rfl, by simp, rfl⟩

lemma rayDeRaw_tooDeep {p : ℕ} {s : DeState} (h : rayDeMaxDepth ≤ s.depth) :
    rayDeRaw rt m fuel p s = raise codeDomain s := by
  cases fuel <;> simp only [rayDeRaw, if_pos h]

lemma rayDeRaw_empty {p : ℕ} {s : DeState} (hf : 0 < fuel) (h : s.depth < rayDeMaxDepth)
    (hs : s.len < 1) : rayDeRaw rt m fuel p s = some (.nullPtr, s) := by
  obtain ⟨fuel, rfl⟩ : ∃ k, fuel = k + 1 := ⟨fuel - 1, by omega⟩
  simp [rayDeRaw, if_neg (not_le.mpr h), deRawInner, hs]

lemma rayDeRaw_parse (rt : Runtime) (bs : Bytes) {depth fuel : ℕ} (hd : depth ≤ rayDeMaxDepth)
    (hf : rayDeMaxDepth - depth ≤ fuel) :
    Reads rt (.start bs.length depth) bs (rayDeRaw rt bs fuel 0 (.start bs.length depth))
    (parse rt (rayDeMaxDepth - depth) bs) :=
  rayDeRaw_reads hf (at_start bs depth) (by simp only [DeState.start]; omega)

end

theorem rayDeRaw_safe (rt : Runtime) (buf : Bytes) (len : ℤ) (hlen : len ≤ buf.length) (depth fuel : ℕ)
    (hf : rayDeMaxDepth ≤ fuel) :
    ∃ o len' log, rayDeRaw rt (buf.take len.toNat) fuel 0 (.start len depth) = some (o, ⟨len', depth, log⟩) ∧
      len' ≤ len ∧ (0 ≤ len → 0 ≤ len') ∧ ∀ a ∈ log, AllocOk rt len log a := by
  rcases le_or_gt rayDeMaxDepth depth with hd | hd
  · exact ⟨_, len, [], rayDeRaw_tooDeep hd, le_rfl, id, by simp⟩
  rcases lt_or_ge len 1 with hl | hl
  · exact ⟨_, len, [], rayDeRaw_empty (by simp only [rayDeMaxDepth] at hf; omega) hd hl, le_rfl, id, by simp⟩
  have hb : ((buf.take len.toNat).length : ℤ) = len := by simp; omega
  obtain ⟨log, he, hs, hlog, -⟩ := rayDeRaw_parse rt (buf.take len.toNat) hd.le (by omega : _ ≤ fuel)
  rw [hb] at he hlog
  refine ⟨_, _, log, he, ?_, fun _ => by simp, hlog⟩
  have := hs.length_le
  omega

theorem rayDeRaw_safe_list : ∃ o len' log,
    rayDeRaw bareRuntime ([0, 0, 1, 0, 0, 0, 0, 0, 0, 0, 126].take (11 : ℤ).toNat) 512 0
      (.start 11 3) = some (o, ⟨len', 3, log⟩) ∧
    len' ≤ 11 ∧ ((0 : ℤ) ≤ 11 → 0 ≤ len') ∧
    ∀ a ∈ log, AllocOk bareRuntime 11 log a :=
  rayDeRaw_safe bareRuntime _ 11 (by decide) 3 512 (by decide)

-- a one-column table that ends with the buffer: the column slots are requested with nothing left to read
theorem rayDeRaw_table_slots : ((rayDeRaw bareRuntime
        [98, 0, 12, 3, 1, 0, 0, 0, 0, 0, 0, 0, 97, 0, 0, 0, 1, 0, 0, 0, 0, 0, 0, 0, 126] 512 0
        (.start 25 0)).map fun r => r.2.allocs.all Alloc.withinRoom) = some false := by
  decide +kernel

end Rayforce.Serde
