import Rayforce.Serde.Frame

namespace Rayforce.Serde

open Library.Words List Option

variable {child : Bytes → Parsed} {a : UInt8}

def Obj.WellFormed : Obj → Prop
  | .table _ names _ cols => names.length = cols.length
  | .fn _ name => NulFree name
  | _ => True

def Obj.SymsClean : Obj → Prop
  | .atom (.sym s _) => NulFree s
  | .symVec _ cells => ∀ s ∈ cells, NulFree s
  | .symSlice _ block _ _ _ => ∀ s ∈ block, NulFree s
  | .table _ names _ _ => ∀ s ∈ names, NulFree s
  | _ => True

def Obj.Carries : Obj → Prop
  | .list _ es => ∀ e ∈ es, raySerRaw e ≠ some []
  | .table _ _ _ cols => ∀ e ∈ cols, raySerRaw e ≠ some []
  | .dict _ k v => raySerRaw k ≠ some [] ∧ raySerRaw v ≠ some []
  | .lambda _ p b => raySerRaw p ≠ some [] ∧ raySerRaw b ≠ some []
  | _ => True

def SizeAgrees (rt : Runtime) (o : Obj) : Prop :=
  ∃ bs, raySerRaw o = some bs ∧ raySerdeSize o = bs.length ∧ (0 < raySerdeSize o → o.Every Obj.Carries ∧
      ∃ frame o', raySer rt o = .frame frame ∧ rayDe rt frame = some o' ∧ o'.isErr = false)

def Obj.Bound (rt : Runtime) : Obj → Prop
  | .error _ => False
  | .fn _ name => ∃ f, rt.env (fnWireName name) = some f ∧ f.isErr = false
  | _ => True

def Obj.isOther : Obj → Bool
  | .other _ _ => true
  | _ => false

structure Framable (rt : Runtime) (o : Obj) : Prop where
  encodable : o.Every fun x => x.isOther = false
  readable : o.Every Obj.Readable
  guarded : o.Every Obj.Guarded
  bound : o.Every (Obj.Bound rt)
  shallow : o.depth < rayDeMaxDepth
  small : o.payload ≤ 1000000000

section

variable {rt : Runtime}

def Obj.Regular (o : Obj) : Prop := o.WellFormed ∧ o.SymsClean ∧ o.isOther = false

def boundFn (rt : Runtime) : FnKind → Bytes → Prop :=
  fun _ name => NulFree name ∧ ∃ f, rt.env (fnWireName name) = some f ∧ f.isErr = false

lemma plain_of_bound {name : Bytes} {f : Obj} (h : rt.env name = some f) (he : f.isErr = false) : f.Plain := by
  cases f with
  | nullPtr => exact absurd h (rt.bound name)
  | error => cases he
  | _ => trivial

lemma resolves_boundFn (rt : Runtime) : Resolves rt (boundFn rt) := by
  rintro k name ⟨hn, f, hf, he⟩
  exact ⟨fun hm => hn (mem_of_mem_take hm), f, hf, plain_of_bound hf he⟩

lemma payload_pos {o : Obj} (h : o.isOther = false) : 0 < o.payload := by
  cases o with
  | other => cases h
  | atom a => cases a <;> simp [Obj.payload, Atom.payload]
  | _ =>
    simp only [Obj.payload]
    omega

lemma length_le_payloads {es : List Obj} (h : Obj.EveryAll (fun x => x.isOther = false) es) :
    es.length ≤ Obj.payloads es := by
  induction es with
  | nil => simp
  | cons e es ih =>
    have := payload_pos h.1.here
    have := ih h.2
    simp only [length_cons, Obj.payloads]
    omega

lemma length_le_symsBytes (cells : List Bytes) : cells.length ≤ symsBytes cells := by
  rw [← serSyms_bytes]
  exact serSyms_length cells

lemma poolBytes_le (cells : List Bytes) : poolBytes cells + cells.length ≤ strsBytes cells := by
  induction cells with
  | nil => simp [poolBytes]
  | cons s cells ih =>
    simp only [poolBytes, strsBytes, filter_cons, map_cons, sum_cons, length_cons] at ih ⊢
    split
    · simp only [map_cons, sum_cons]
      omega
    · omega

lemma length_le_strsBytes {s : Bytes} {cells : List Bytes} (h : s ∈ cells) : s.length ≤ strsBytes cells := by
  have hm : 8 + s.length ∈ cells.map fun s => 8 + s.length := mem_map_of_mem h
  have := single_le_sum (fun _ _ => Nat.zero_le _) _ hm
  simp only [strsBytes]
  omega

mutual

lemma sendable_of_small : ∀ o : Obj, o.Every Obj.Regular → o.Every (Obj.Bound rt) → o.payload ≤ 1000000000 →
    o.Sendable (boundFn rt)
  | .nullPtr, _, _, _ | .null, _, _, _ => trivial
  | .error _, _, hb, _ => hb
  | .atom a, hr, _, hp => by
    cases a with
    | sym s quoted => exact hr.2.1
    | str s =>
      simp only [Obj.payload, Atom.payload] at hp
      change s.length < 2 ^ 63
      omega
    | _ => trivial
  | .vec t v, _, _, hp => by
    have ht : 1 ≤ t.size := by cases t <;> simp [FixTy.size]
    have := Nat.le_mul_of_pos_right v.cells.length ht
    simp only [Obj.payload] at hp
    change v.cells.length ≤ 1000000000
    omega
  | .symVec _ cells, hr, _, hp => by
    have := length_le_symsBytes cells
    simp only [Obj.payload] at hp
    exact ⟨by omega, hr.2.1⟩
  | .symSlice attrs block offset len _, hr, _, hp => by
    have hle := length_le_symsBytes (symSliceCounted attrs block offset len)
    rw [symSliceCounted_length] at hle
    simp only [Obj.payload] at hp
    exact ⟨by omega, hr.2.1⟩
  | .strVec v, _, _, hp => by
    have hpool := poolBytes_le v.cells
    simp only [Obj.payload] at hp
    refine ⟨by omega, fun s hs => ?_, ?_⟩
    · have := length_le_strsBytes hs
      simp only [uint32Max]
      omega
    · simp only [uint32Max]
      omega
  | .list _ es, hr, hb, hp => by
    simp only [Obj.payload] at hp
    have hlen := length_le_payloads (Obj.EveryAll.mono (fun _ h => h.2.2) es hr.2)
    exact ⟨show es.length ≤ 1000000000 by omega, sendableAll_of_small es hr.2 hb.2 (by omega)⟩
  | .table _ names _ cols, hr, hb, hp => by
    simp only [Obj.payload] at hp
    have hlen := length_le_payloads (Obj.EveryAll.mono (fun _ h => h.2.2) cols hr.2)
    exact ⟨⟨by omega, hr.1.1, hr.1.2.1⟩, sendableAll_of_small cols hr.2 hb.2 (by omega)⟩
  | .dict _ k v, hr, hb, hp => by
    simp only [Obj.payload] at hp
    exact ⟨trivial, sendable_of_small k hr.2.1 hb.2.1 (by omega), sendable_of_small v hr.2.2 hb.2.2 (by omega)⟩
  | .lambda _ p b, hr, hb, hp => by
    simp only [Obj.payload] at hp
    exact ⟨trivial, sendable_of_small p hr.2.1 hb.2.1 (by omega), sendable_of_small b hr.2.2 hb.2.2 (by omega)⟩
  | .fn _ _, hr, hb, _ => ⟨hr.1, hb⟩
  | .other _ _, hr, _, _ => by cases hr.2.2

lemma sendableAll_of_small : ∀ es : List Obj, Obj.EveryAll Obj.Regular es → Obj.EveryAll (Obj.Bound rt) es →
    Obj.payloads es ≤ 1000000000 → Obj.SendableAll (boundFn rt) es
  | [], _, _, _ => trivial
  | e :: es, hr, hb, hp => by
    simp only [Obj.payloads] at hp
    exact ⟨sendable_of_small e hr.1 hb.1 (by omega), sendableAll_of_small es hr.2 hb.2 (by omega)⟩

end

lemma parseElems_of_parseList {n : ℕ} {bs rest : Bytes} (hn : n ≤ 1000000000) (hb : n ≤ bs.length)
    (he : (parseList child (a :: (wireLen n ++ (bs ++ rest)))).1.isErr = false) :
    ∃ os, (parseElems child n (bs ++ rest)).1 = .ok os := by
  rw [parseList, parseHeader_wire hn, if_neg (by simp only [length_append]; omega)] at he
  rcases hq : parseElems child n (bs ++ rest) with ⟨code | os, rest'⟩
  · rw [hq] at he
    cases he
  · exact ⟨os, rfl⟩

lemma isErr_of_parsePair {bs : Bytes} {k : UInt8 → Obj → Obj → Obj}
    (he : (parsePair child (a :: bs) k).1.isErr = false) :
    (child bs).1.isErr = false ∧ ((child bs).1.Plain → (child (child bs).2).1.isErr = false) := by
  rw [parsePair, if_neg (by simp), drop_succ_cons, drop_zero] at he
  rcases hq : child bs with ⟨first, rest⟩
  rw [hq] at he
  cases first with
  | error => cases he
  | nullPtr => exact ⟨rfl, fun h => h.elim⟩
  | _ =>
    refine ⟨rfl, fun _ => ?_⟩
    dsimp only at he ⊢
    rcases hr : child rest with ⟨second, rest'⟩
    rw [hr] at he
    cases second with
    | error => cases he
    | _ => rfl

mutual

lemma bound_of_parse : ∀ (o : Obj) {bs : Bytes} {levels : ℕ} (rest : Bytes), o.Every Obj.Regular →
    o.payload ≤ 1000000000 → raySerRaw o = some bs → (parse rt levels (bs ++ rest)).1.isErr = false →
      o.Every (Obj.Bound rt) ∧ o.depth < levels
  | _, _, 0, _, _, _, _, he => by cases he
  | .nullPtr, _, _ + 1, _, _, _, _, _ | .null, _, _ + 1, _, _, _, _, _ | .atom _, _, _ + 1, _, _, _, _, _
  | .vec _ _, _, _ + 1, _, _, _, _, _ | .symVec _ _, _, _ + 1, _, _, _, _, _ | .symSlice _ _ _ _ _, _,
    _ + 1, _, _, _, _, _
  | .strVec _, _, _ + 1, _, _, _, _, _ => ⟨trivial, Nat.succ_pos _⟩
  | .error code, _, levels + 1, rest, _, _, hs, he => by
    cases hs
    have hp : parse rt (levels + 1) (rayError :: errField code ++ rest) = parseError (errField code ++ rest) := rfl
    have hl : ¬ (errField code ++ rest).length < 8 := by simp [errField]; omega
    rw [hp, parseError, if_neg hl] at he
    cases he
  | .list attrs es, _, levels + 1, rest, hr, hp, hs, he => by
    simp only [raySerRaw, map_eq_some_iff] at hs
    obtain ⟨b, hb, rfl⟩ := hs
    simp only [Obj.payload] at hp
    have hlen := length_le_payloads (Obj.EveryAll.mono (fun _ h => h.2.2) es hr.2)
    have hbl := serElems_payload es hb
    simp only [cons_append, append_assoc, parse, parseInner, ofByte_rayList] at he
    obtain ⟨os, hq⟩ := parseElems_of_parseList (by omega) (by omega) he
    obtain ⟨hall, hd⟩ := boundAll_of_parse es rest hr.2 (by omega) hb hq
    exact ⟨⟨trivial, hall⟩, by simp only [Obj.depth]; omega⟩
  | .table attrs names colAttrs cols, _, levels + 1, rest, hr, hp, hs, he => by
    simp only [raySerRaw, map_eq_some_iff] at hs
    obtain ⟨b, hb, rfl⟩ := hs
    simp only [Obj.payload] at hp
    have hlen := length_le_payloads (Obj.EveryAll.mono (fun _ h => h.2.2) cols hr.2)
    have hbl := serElems_payload cols hb
    have hnames : names.length = cols.length := hr.1.1
    simp only [cons_append, append_assoc, parse, parseInner, ofByte_rayTable] at he
    obtain ⟨hfirst, hsecond⟩ := isErr_of_parsePair he
    cases levels with
    | zero => cases hfirst
    | succ k =>
      rw [parse_schema rt k (by omega) hr.1.2.1] at hsecond
      have hlist := hsecond trivial
      simp only [parse, parseInner, ofByte_rayList] at hlist
      obtain ⟨os, hq⟩ := parseElems_of_parseList (by omega) (by omega) hlist
      obtain ⟨hall, hd⟩ := boundAll_of_parse cols rest hr.2 (by omega) hb hq
      exact ⟨⟨trivial, hall⟩, by simp only [Obj.depth]; omega⟩
  | .dict attrs k v, _, levels + 1, rest, hr, hp, hs, he => by
    simp only [raySerRaw, map_eq_some_iff, bind_eq_some_iff] at hs
    obtain ⟨ks, hk, vs, hv, rfl⟩ := hs
    simp only [Obj.payload] at hp
    simp only [cons_append, append_assoc, parse, parseInner, ofByte_rayDict] at he
    obtain ⟨hfirst, hsecond⟩ := isErr_of_parsePair he
    obtain ⟨hbk, hdk⟩ := bound_of_parse k (vs ++ rest) hr.2.1 (by omega) hk hfirst
    have hsend := sendable_of_small k hr.2.1 hbk (by omega)
    rw [parse_raySerRaw (resolves_boundFn rt) k (vs ++ rest) hsend hk hdk] at hsecond
    obtain ⟨hbv, hdv⟩ := bound_of_parse v rest hr.2.2 (by omega) hv
      (hsecond (decoded_plain (resolves_boundFn rt) k hsend))
    exact ⟨⟨trivial, hbk, hbv⟩, by simp only [Obj.depth]; omega⟩
  | .lambda attrs p b, _, levels + 1, rest, hr, hp, hs, he => by
    simp only [raySerRaw, map_eq_some_iff, bind_eq_some_iff] at hs
    obtain ⟨ps, hps, bs, hb, rfl⟩ := hs
    simp only [Obj.payload] at hp
    simp only [cons_append, append_assoc, parse, parseInner, ofByte_rayLambda] at he
    obtain ⟨hfirst, hsecond⟩ := isErr_of_parsePair he
    obtain ⟨hbp, hdp⟩ := bound_of_parse p (bs ++ rest) hr.2.1 (by omega) hps hfirst
    have hsend := sendable_of_small p hr.2.1 hbp (by omega)
    rw [parse_raySerRaw (resolves_boundFn rt) p (bs ++ rest) hsend hps hdp] at hsecond
    obtain ⟨hbb, hdb⟩ := bound_of_parse b rest hr.2.2 (by omega) hb
      (hsecond (decoded_plain (resolves_boundFn rt) p hsend))
    exact ⟨⟨trivial, hbp, hbb⟩, by simp only [Obj.depth]; omega⟩
  | .fn k name, _, levels + 1, rest, hr, _, hs, he => by
    cases hs
    have hn : NulFree (fnWireName name) := fun hm => hr.1 (mem_of_mem_take hm)
    have hc := cutNul_append hn rest
    simp only [cons_append, append_assoc, nil_append, parse, parseInner, ofByte_wireTag, parseFn, hc] at he
    cases hf : rt.env (fnWireName name) with
    | none => simp [hf, Obj.isErr] at he
    | some f => exact ⟨⟨f, hf, by simpa [hf] using he⟩, Nat.succ_pos _⟩
  | .other _ _, _, _ + 1, _, hr, _, _, _ => by cases hr.2.2

lemma boundAll_of_parse : ∀ (es : List Obj) {bs : Bytes} {levels : ℕ} {os : List Obj} (rest : Bytes),
    Obj.EveryAll Obj.Regular es → Obj.payloads es ≤ 1000000000 → serElems es = some bs →
      (parseElems (parse rt levels) es.length (bs ++ rest)).1 = .ok os →
      Obj.EveryAll (Obj.Bound rt) es ∧ Obj.depths es ≤ levels
  | [], _, _, _, _, _, _, _, _ => ⟨trivial, Nat.zero_le _⟩
  | e :: es, _, levels, os, rest, hr, hp, hs, he => by
    simp only [serElems, map_eq_some_iff, bind_eq_some_iff] at hs
    obtain ⟨b, hb, bs, hbs, rfl⟩ := hs
    simp only [Obj.payloads] at hp
    rw [append_assoc, length_cons] at he
    have hne : (parse rt levels (b ++ (bs ++ rest))).1.isErr = false := by
      rw [parseElems] at he
      rcases hq : parse rt levels (b ++ (bs ++ rest)) with ⟨o, rest'⟩
      rw [hq] at he
      cases o with
      | error => cases he
      | _ => rfl
    obtain ⟨hbe, hde⟩ := bound_of_parse e (bs ++ rest) hr.1 (by omega) hb hne
    have hsend := sendable_of_small e hr.1 hbe (by omega)
    have hparse := parse_raySerRaw (resolves_boundFn rt) e (bs ++ rest) hsend hb hde
    rw [parseElems_cons hparse (decoded_plain (resolves_boundFn rt) e hsend)] at he
    rcases hq : (parseElems (parse rt levels) es.length (bs ++ rest)).1 with code | os'
    · rw [hq] at he
      cases he
    · obtain ⟨hbes, hdes⟩ := boundAll_of_parse es rest hr.2 (by omega) hbs hq
      exact ⟨⟨hbe, hbes⟩, by simp only [Obj.depths]; omega⟩

end

lemma raySerRaw_nil_iff (o : Obj) : raySerRaw o = some [] ↔ o.isOther = true := by
  constructor
  · intro h
    by_contra hc
    have hl := raySerRaw_length o h
    have hp := payload_pos (Bool.eq_false_iff.mpr hc)
    simp at hl
    omega
  · intro h
    cases o with
    | other => rfl
    | _ => cases h

mutual

lemma carries_iff_encodable : ∀ o : Obj, o.isOther = false →
    (o.Every Obj.Carries ↔ o.Every fun x => x.isOther = false)
  | .nullPtr, _ | .null, _ | .error _, _ | .atom _, _ | .vec _ _, _ | .symVec _ _, _ | .symSlice _ _ _ _ _,
    _ | .strVec _, _
  | .fn _ _, _ => by simp [Obj.Every, Obj.Carries, Obj.isOther]
  | .other _ _, h => by cases h
  | .list _ es, _ => by simpa [Obj.Every, Obj.Carries, Obj.isOther] using carriesAll_iff_encodable es
  | .table _ _ _ cols, _ => by simpa [Obj.Every, Obj.Carries, Obj.isOther] using carriesAll_iff_encodable cols
  | .dict _ k v, _ => by
    simp only [Obj.Every, Obj.Carries, Obj.isOther, true_and, ne_eq, raySerRaw_nil_iff, Bool.not_eq_true]
    constructor
    · rintro ⟨⟨hk, hv⟩, hck, hcv⟩
      exact ⟨(carries_iff_encodable k hk).mp hck, (carries_iff_encodable v hv).mp hcv⟩
    · rintro ⟨hk, hv⟩
      exact ⟨⟨hk.here, hv.here⟩, (carries_iff_encodable k hk.here).mpr hk,
        (carries_iff_encodable v hv.here).mpr hv⟩
  | .lambda _ p b, _ => by
    simp only [Obj.Every, Obj.Carries, Obj.isOther, true_and, ne_eq, raySerRaw_nil_iff, Bool.not_eq_true]
    constructor
    · rintro ⟨⟨hp, hb⟩, hcp, hcb⟩
      exact ⟨(carries_iff_encodable p hp).mp hcp, (carries_iff_encodable b hb).mp hcb⟩
    · rintro ⟨hp, hb⟩
      exact ⟨⟨hp.here, hb.here⟩, (carries_iff_encodable p hp.here).mpr hp,
        (carries_iff_encodable b hb.here).mpr hb⟩

lemma carriesAll_iff_encodable : ∀ es : List Obj,
    ((∀ e ∈ es, raySerRaw e ≠ some []) ∧ Obj.EveryAll Obj.Carries es) ↔
      Obj.EveryAll (fun x => x.isOther = false) es
  | [] => by simp [Obj.EveryAll]
  | e :: es => by
    have hes := carriesAll_iff_encodable es
    simp only [Obj.EveryAll, forall_mem_cons, ne_eq, raySerRaw_nil_iff, Bool.not_eq_true] at hes ⊢
    constructor
    · rintro ⟨⟨he, hall⟩, hce, hces⟩
      exact ⟨(carries_iff_encodable e he).mp hce, hes.mp ⟨hall, hces⟩⟩
    · rintro ⟨he, hall⟩
      obtain ⟨hne, hces⟩ := hes.mpr hall
      exact ⟨⟨he.here, hne⟩, (carries_iff_encodable e he.here).mpr he, hces⟩

end

lemma raySer_frame {o : Obj} {bs : Bytes} (ho : o.isOther = false) (hs : raySerRaw o = some bs)
    (hsize : raySerdeSize o = bs.length) : raySer rt o = .frame (serHeader bs.length ++ bs) := by
  have hlazy : rayIsLazy o = false := by
    cases o with
    | other => cases ho
    | _ => rfl
  have hpos : 0 < bs.length := by
    rw [raySerRaw_length o hs]
    exact payload_pos ho
  rw [raySer, hlazy, if_neg (by simp), serPayload, if_neg (by omega), hs]
  cases bs with
  | nil => simp at hpos
  | cons b bs => simp [hsize]

lemma regular_of_encodable {o : Obj} (hw : o.Every Obj.WellFormed) (hc : o.Every Obj.SymsClean)
    (he : o.Every fun x => x.isOther = false) : o.Every Obj.Regular :=
  (every_and_iff o).mpr ⟨hw, (every_and_iff o).mpr ⟨hc, he⟩⟩

lemma sizeAgrees_of_framable {o : Obj} (hw : o.Every Obj.WellFormed) (hc : o.Every Obj.SymsClean)
    (h : Framable rt o) : SizeAgrees rt o := by
  obtain ⟨bs, hs⟩ := isSome_iff_exists.mp ((raySerRaw_isSome_iff o).mpr h.readable)
  have hlen := raySerRaw_length o hs
  have hsize : raySerdeSize o = bs.length := by rw [hlen]; exact (raySerdeSize_spec o).2.mpr h.guarded
  have hsend := sendable_of_small o (regular_of_encodable hw hc h.encodable) h.bound h.small
  have hparse := parse_raySerRaw (resolves_boundFn rt) o [] hsend hs h.shallow
  rw [append_nil] at hparse
  refine ⟨bs, hs, hsize, fun _ => ⟨(carries_iff_encodable o h.encodable.here).mpr h.encodable, ?_⟩⟩
  refine ⟨_, _, raySer_frame h.encodable.here hs hsize, rayDe_serHeader bs (hlen.trans_le h.small), ?_⟩
  have hplain := decoded_plain (resolves_boundFn rt) o hsend
  rw [hparse]
  cases hd : o.decoded rt with
  | error => rw [hd] at hplain; exact hplain.elim
  | _ => rfl

lemma framable_of_sizeAgrees {o : Obj} (hw : o.Every Obj.WellFormed) (hc : o.Every Obj.SymsClean)
    (ho : o.isOther = false) (h : SizeAgrees rt o) : Framable rt o := by
  obtain ⟨bs, hs, hsize, hframe⟩ := h
  have hlen := raySerRaw_length o hs
  have hpos := payload_pos ho
  obtain ⟨hcar, frame, o', hser, hde, herr⟩ := hframe (by omega)
  rw [raySer_frame ho hs hsize] at hser
  cases hser
  have hsmall : bs.length ≤ 1000000000 := bounded_of_serHeader (headerOk_of_rayDe hde herr)
  have henc := (carries_iff_encodable o ho).mp hcar
  rw [rayDe_serHeader bs hsmall] at hde
  cases hde
  rw [← append_nil bs] at herr
  obtain ⟨hbound, hdepth⟩ := bound_of_parse o [] (regular_of_encodable hw hc henc) (by omega) hs herr
  exact ⟨henc, (raySerRaw_isSome_iff o).mp (by simp [hs]), (raySerdeSize_spec o).2.mp (by omega), hbound, hdepth,
    by omega⟩

lemma sizeAgrees_other {o : Obj} (h : o.isOther = true) : SizeAgrees rt o := by
  cases o with
  | other => exact ⟨[], rfl, rfl, fun hc => absurd hc (lt_irrefl 0)⟩
  | _ => cases h

end

theorem sizeAgrees_iff_framable (rt : Runtime) (o : Obj) (hw : o.Every Obj.WellFormed)
    (hc : o.Every Obj.SymsClean) : SizeAgrees rt o ↔ o.isOther = true ∨ Framable rt o := by
  cases ho : o.isOther with
  | true => exact ⟨fun _ => Or.inl rfl, fun _ => sizeAgrees_other ho⟩
  | false =>
    refine ⟨fun h => Or.inr (framable_of_sizeAgrees hw hc ho h), ?_⟩
    rintro (h | h)
    · cases h
    · exact sizeAgrees_of_framable hw hc h

def i64Vec (ns : List ℕ) : Obj :=
  .vec .i64 (.owned 0 (ns.map fun n => ⟨leBytes 8 n, leBytes_eight n⟩))

theorem sizeAgrees_sampleTable : SizeAgrees bareRuntime (.table 0 [[0x61]] 0 [i64Vec [1, 2]]) ↔
      (Obj.table 0 [[0x61]] 0 [i64Vec [1, 2]]).isOther = true ∨
        Framable bareRuntime (.table 0 [[0x61]] 0 [i64Vec [1, 2]]) :=
  sizeAgrees_iff_framable bareRuntime _ (by simp [i64Vec, Obj.Every, Obj.EveryAll, Obj.WellFormed])
    (by simp [i64Vec, Obj.Every, Obj.EveryAll, Obj.SymsClean, NulFree])

-- a table whose first column is parted storage (type tag 37): its frame is accepted, with the second
-- column under the first name
def partedTable : Obj := .table 0 [[0x61], [0x62]] 0 [.other 37 rfl, i64Vec [1]]

theorem partedTable_not_sizeAgrees : partedTable.Every Obj.WellFormed ∧ partedTable.Every Obj.SymsClean ∧
    ¬ SizeAgrees bareRuntime partedTable := by
  refine ⟨by simp [partedTable, i64Vec, Obj.Every, Obj.EveryAll, Obj.WellFormed],
    by simp [partedTable, i64Vec, Obj.Every, Obj.EveryAll, Obj.SymsClean, NulFree], ?_⟩
  rintro ⟨bs, hs, hsize, hframe⟩
  obtain ⟨hcar, -⟩ := hframe (by decide)
  exact hcar.here (.other 37 rfl) (by simp) rfl

end Rayforce.Serde
