import Rayforce.Serde.Strict

namespace Rayforce.Serde

open Library.Words List Option

variable {k : UInt8 → Obj → Obj → Obj} {b : UInt8} {o : Obj} {n : ℕ}

structure AccountedAll (rt : Runtime) (levels : ℕ) (bs : Bytes) (es : List Obj) (rest : Bytes)
    (lossy : Bool) : Prop where
  settled : Obj.EveryAll (Obj.Settled rt) es
  fixed : Obj.decodedAll rt es = es
  shallow : Obj.depths es ≤ levels
  bytes : Spent lossy (Obj.payloads es + rest.length) bs.length

section

variable {rt : Runtime} {levels : ℕ} {bs : Bytes} {child : Bytes → Parsed} {note : Bytes → Notes}

lemma everyAll_append {p : Obj → Prop} (es es' : List Obj) :
    Obj.EveryAll p (es ++ es') ↔ Obj.EveryAll p es ∧ Obj.EveryAll p es' := by
  induction es with
  | nil => simp [Obj.EveryAll]
  | cons e es ih => simp [Obj.EveryAll, ih, and_assoc]

lemma decodedAll_append (rt : Runtime) (es es' : List Obj) :
    Obj.decodedAll rt (es ++ es') = Obj.decodedAll rt es ++ Obj.decodedAll rt es' := by
  induction es with
  | nil => rfl
  | cons e es ih => simp [Obj.decodedAll, ih]

lemma depths_append (es es' : List Obj) : Obj.depths (es ++ es') = max (Obj.depths es) (Obj.depths es') := by
  induction es with
  | nil => simp [Obj.depths]
  | cons e es ih => simp [Obj.depths, ih, max_assoc]

lemma payloads_append (es es' : List Obj) : Obj.payloads (es ++ es') = Obj.payloads es + Obj.payloads es' := by
  induction es with
  | nil => simp [Obj.payloads]
  | cons e es ih => simp [Obj.payloads, ih, Nat.add_assoc]

lemma symsBytes_append (ns ns' : List Bytes) : symsBytes (ns ++ ns') = symsBytes ns + symsBytes ns' := by
  simp [symsBytes]

lemma not_other_of_settled (h : o.Settled rt) : o.isOther = false := by
  cases o with
  | other => exact h.1.elim
  | _ => rfl

lemma Spent.add {l l' : Bool} {p q r r' n : ℕ} (h : Spent l (p + r) n) (h' : Spent l' (q + r') r) :
    Spent (l || l') (p + q + r') n := by
  obtain ⟨hex, hlo⟩ := h
  obtain ⟨hex', hlo'⟩ := h'
  constructor
  · intro hl
    rw [Bool.or_eq_false_iff] at hl
    have := hex hl.1
    have := hex' hl.2
    omega
  · intro hl
    cases l with
    | true =>
      have := hlo rfl
      cases l' with
      | true => have := hlo' rfl; omega
      | false => have := hex' rfl; omega
    | false =>
      have := hex rfl
      have := hlo' (by simpa using hl)
      omega

lemma Spent.shift {l : Bool} {out out' n n' : ℕ} (h : Spent l out n) (k : ℕ) (ho : out' = out + k)
    (hn : n' = n + k) :
    Spent l out' n' :=
  ⟨fun hl => by have := h.1 hl; omega, fun hl => by have := h.2 hl; omega⟩

section

variable (hch : ∀ bs, (note bs).cut = false → (note bs).aliased = false → (child bs).1.isErr = false →
    Accounted rt levels bs (child bs) (note bs).lossy)
include hch

lemma accounted_elems {es : List Obj} {rest : Bytes} (hp : parseElems child n bs = (.ok es, rest))
    (hcut : (elemNotes child note n bs).cut = false) (hal : (elemNotes child note n bs).aliased = false) :
    AccountedAll rt levels bs es rest (elemNotes child note n bs).lossy := by
  induction n generalizing bs es rest with
  | zero =>
    cases hp
    exact ⟨trivial, rfl, Nat.zero_le _, by simp [Obj.payloads], fun h => by cases h⟩
  | succ n ih =>
    simp only [elemNotes, Notes.join, Bool.or_eq_false_iff] at hcut hal
    have hne : (child bs).1.isErr = false := by
      rw [parseElems] at hp
      rcases hq : child bs with ⟨o, rest'⟩
      rw [hq] at hp
      cases o with
      | error => cases hp
      | _ => rfl
    have ho := hch bs hcut.1 hal.1 hne
    rcases hq : child bs with ⟨o, rest'⟩
    rw [hq] at ho hcut hal
    rw [parseElems_cons hq ho.plain] at hp
    rcases hr : parseElems child n rest' with ⟨code | es', rest''⟩
    · rw [hr] at hp
      cases hp
    · rw [hr] at hp
      cases hp
      obtain ⟨hset, hfix, hdep, hbytes⟩ := ih hr hcut.2 hal.2
      have hd : o.depth < levels := ho.shallow
      simp only [elemNotes, Notes.join, hq]
      refine ⟨⟨ho.settled, hset⟩, ?_, by simp only [Obj.depths]; omega, ho.bytes.add hbytes⟩
      simp only [Obj.decodedAll, hfix]
      rw [ho.fixed]

omit hch in
lemma header_fields (h : n ≤ 1000000000) (a : UInt8) (rest : Bytes) :
    (leInt (((a :: (wireLen n ++ rest)).take 9).drop 1)).toNat = n ∧ (a :: (wireLen n ++ rest)).drop 9 = rest := by
  have hl : leInt (wireLen n) = n := leInt_wireLen (by omega)
  constructor
  · simp [hl]
  · rw [drop_succ_cons]
    exact drop_left' (wireLen_length n)

lemma accounted_list (he : (parseList child bs).1.isErr = false) (hcut : (listNotes child note bs).cut = false)
    (hal : (listNotes child note bs).aliased = false) :
    Accounted rt (levels + 1) (b :: bs) (parseList child bs) (listNotes child note bs).lossy := by
  obtain ⟨a, n, rest, hn, rfl, hk⟩ := parseHeader_ok he
  obtain ⟨hcount, hdrop⟩ := header_fields hn a rest
  rw [listNotes, hcount, hdrop] at hcut hal ⊢
  rw [parseList] at he
  rw [parseList, hk]
  rw [hk] at he
  by_cases hl : rest.length < n
  · rw [if_pos hl] at he
    cases he
  rw [if_neg hl] at he ⊢
  rcases hq : parseElems child n rest with ⟨code | es, rest'⟩
  · rw [hq] at he
    cases he
  · have hes := parseElems_length (congrArg Prod.fst hq)
    obtain ⟨hset, hfix, hdep, hbytes⟩ := accounted_elems hch hq hcut hal
    have hle : es.length ≤ 1000000000 := by omega
    refine ⟨⟨⟨hle, trivial, rayMaxLen_le hle⟩, hset⟩, ?_, Nat.lt_succ_of_le hdep, trivial, hbytes.shift 10 ?_ ?_⟩
    · simp [Obj.decoded, hfix, UInt8.and_assoc]
    · simp only [Obj.payload]
      omega
    · simp only [length_cons, length_append, wireLen_length]
      omega

lemma accounted_pair (he : (parsePair child bs k).1.isErr = false)
    (hcut : (pairNotes child note bs).cut = false) (hal : (pairNotes child note bs).aliased = false) :
    ∃ a first second rest rest' l l', bs.length = 1 + (bs.drop 1).length ∧
      child (bs.drop 1) = (first, rest) ∧ child rest = (second, rest') ∧
      parsePair child bs k = (k a first second, rest') ∧ (pairNotes child note bs).lossy = (l || l') ∧
      Accounted rt levels (bs.drop 1) (first, rest) l ∧ Accounted rt levels rest (second, rest') l' := by
  cases bs with
  | nil => cases he
  | cons a bs =>
    simp only [pairNotes, drop_succ_cons, drop_zero, Notes.join, Bool.or_eq_false_iff] at hcut hal ⊢
    obtain ⟨hf, hs⟩ := isErr_of_parsePair he
    have hfirst := hch bs hcut.1 hal.1 hf
    have hsecond := hch _ hcut.2 hal.2 (hs hfirst.plain)
    refine ⟨a, (child bs).1, _, (child bs).2, _, _, _, by simp; omega, rfl, rfl, ?_, rfl, hfirst, hsecond⟩
    have h1 : child bs = ((child bs).1, (child bs).2) := rfl
    have h2 : child (child bs).2 = ((child (child bs).2).1, (child (child bs).2).2) := rfl
    exact parsePair_cons h1 h2 hfirst.plain hsecond.plain a k

lemma accounted_dict (hk : k = (fun a ks vs => .dict (a &&& raySerdeAttrWireMask) ks vs) ∨ k = fun _ ps body =>
    .lambda 0 ps body)
    (he : (parsePair child bs k).1.isErr = false)
    (hcut : (pairNotes child note bs).cut = false) (hal : (pairNotes child note bs).aliased = false) :
    Accounted rt (levels + 1) (b :: bs) (parsePair child bs k) (pairNotes child note bs).lossy := by
  obtain ⟨a, first, second, rest, rest', l, l', hb, -, -, hp, hl, hf, hs⟩ := accounted_pair hch he hcut hal
  rw [hp, hl]
  have hd := max_lt hf.shallow hs.shallow
  have hbytes := hf.bytes.add hs.bytes
  rcases hk with rfl | rfl
  · refine ⟨⟨⟨trivial, trivial, trivial⟩, hf.settled, hs.settled⟩, ?_, Nat.succ_lt_succ hd, trivial,
      hbytes.shift 2 ?_ ?_⟩
    · simp only [Obj.decoded, hf.fixed, hs.fixed, UInt8.and_assoc, UInt8.and_self]
    · simp only [Obj.payload]
      omega
    · simp only [length_cons]
      omega
  · refine ⟨⟨⟨trivial, trivial, trivial⟩, hf.settled, hs.settled⟩, ?_, Nat.succ_lt_succ hd, trivial,
      hbytes.shift 2 ?_ ?_⟩
    · simp only [Obj.decoded, hf.fixed, hs.fixed]
    · simp only [Obj.payload]
      omega
    · simp only [length_cons]
      omega

omit hch in
lemma rebuildTable_bytes (names : List Bytes) {cols : List Obj} (hs : Obj.EveryAll (Obj.Settled rt) cols) :
    Spent (names.length != cols.length) (rebuildTable names cols).payload
    (22 + symsBytes names + Obj.payloads cols) := by
  have hn := symsBytes_append (names.take cols.length) (names.drop cols.length)
  have hc := payloads_append (cols.take names.length) (cols.drop names.length)
  rw [take_append_drop] at hn hc
  have hdn : (names.drop cols.length).length ≤ symsBytes (names.drop cols.length) := length_le_symsBytes _
  have hdc : (cols.drop names.length).length ≤ Obj.payloads (cols.drop names.length) := by
    apply length_le_payloads
    rw [← take_append_drop names.length cols, everyAll_append] at hs
    exact Obj.EveryAll.mono (fun _ h => not_other_of_settled h) _ hs.2
  simp only [length_drop] at hdn hdc
  constructor
  · intro h
    have hl : names.length = cols.length := by simpa using h
    have hn0 : names.drop cols.length = [] := by simp [hl]
    have hc0 : cols.drop names.length = [] := by simp [hl]
    rw [hn0] at hn
    rw [hc0] at hc
    simp only [rebuildTable, Obj.payload, symsBytes, map_nil, sum_nil, Obj.payloads] at hn hc ⊢
    omega
  · intro h
    have hl : names.length ≠ cols.length := by simpa using h
    simp only [rebuildTable, Obj.payload]
    omega

lemma accounted_table
    (he : (parsePair child bs fun _ schema cols => tableOf rt.symStr schema cols).1.isErr = false)
    (hcut : (tableNotes child note bs).cut = false) (hal : (tableNotes child note bs).aliased = false) :
    Accounted rt (levels + 1) (b :: bs) (parsePair child bs fun _ schema cols => tableOf rt.symStr schema cols)
      (tableNotes child note bs).lossy := by
  simp only [tableNotes, Notes.join, Bool.or_eq_false_iff] at hcut hal
  obtain ⟨a, schema, colObj, rest, rest', l, l', hb, h1, h2, hp, hl, hf, hs⟩ :=
    accounted_pair hch he hcut.1 hal.1
  rw [hp] at he ⊢
  simp only [tableNotes, Notes.join, hl, h1, h2] at hal ⊢
  -- anything but symbols over a list of columns is refused, or is an alias
  obtain ⟨sa, names, rfl⟩ : ∃ sa names, schema = .symVec sa names := by
    cases schema with
    | symVec sa names => exact ⟨sa, names, rfl⟩
    | vec t v =>
      cases t with
      | i64 => simp [schemaNotes] at hal
      | _ => cases colObj <;> simp [tableOf, columnList, schemaNames, Obj.isErr] at he
    | _ => cases colObj <;> simp [tableOf, columnList, schemaNames, Obj.isErr] at he
  obtain ⟨ca, cols, rfl⟩ : ∃ ca cols, colObj = .list ca cols := by
    cases colObj with
    | list ca cols => exact ⟨ca, cols, rfl⟩
    | _ => simp [tableOf, columnList, Obj.isErr] at he
  have hset := hs.settled.2
  have hsplit : cols = cols.take names.length ++ cols.drop names.length := (take_append_drop _ _).symm
  have hfix : Obj.decodedAll rt cols = cols := by
    have := hs.fixed
    simp only [Obj.decoded, Obj.list.injEq] at this
    exact this.2
  have hdep : Obj.depths cols < levels := hs.shallow
  have hkeep : Obj.EveryAll (Obj.Settled rt) (cols.take names.length) := by
    rw [hsplit, everyAll_append] at hset
    exact hset.1
  have hfits : (cols.take names.length).length ≤ 1000000000 :=
    (length_take_le' _ _).trans hs.settled.here.1
  refine ⟨⟨⟨⟨hfits, ?_, ?_⟩, trivial, rayMaxLen_le hfits⟩, hkeep⟩, ?_, ?_, trivial, ?_⟩
  · simp [min_comm]
  · exact fun s hm => hf.settled.here.1.2 s (mem_of_mem_take hm)
  · have htake : Obj.decodedAll rt (cols.take names.length) = cols.take names.length := by
      have happ := decodedAll_append rt (cols.take names.length) (cols.drop names.length)
      rw [take_append_drop, hfix] at happ
      exact (append_inj (hsplit.symm.trans happ) (by simp)).1.symm
    simp only [tableOf, columnList, schemaNames, rebuildTable, Obj.decoded, htake]
  · have := depths_append (cols.take names.length) (cols.drop names.length)
    rw [take_append_drop] at this
    simp only [tableOf, columnList, schemaNames, rebuildTable, Obj.depth]
    omega
  · have hpair := hf.bytes.add hs.bytes
    have htbl := rebuildTable_bytes names hset
    simp only [Obj.payload] at hpair
    have hall : Spent (l || l') (rest'.length + (22 + symsBytes names + Obj.payloads cols)) (b :: bs).length :=
      hpair.shift 2 (by omega) (by simp only [length_cons]; omega)
    have hzero : Spent (names.length != cols.length) ((rebuildTable names cols).payload + 0) _ := htbl
    exact (hall.add hzero).shift 0 (Nat.add_comm _ _) rfl

end

theorem accounted_parse (rt : Runtime) (levels : ℕ) (bs : Bytes) (hcut : (notes rt levels bs).cut = false)
    (hal : (notes rt levels bs).aliased = false) (he : (parse rt levels bs).1.isErr = false) :
    Accounted rt levels bs (parse rt levels bs) (notes rt levels bs).lossy := by
  induction levels generalizing bs with
  | zero => cases he
  | succ levels ih =>
    cases bs with
    | nil => cases hcut
    | cons b bs =>
      simp only [parse, parseInner, notes, innerNotes] at hcut hal he ⊢
      cases ht : Tag.ofByte b with
      | null =>
        exact ⟨⟨trivial, trivial, trivial⟩, rfl, Nat.succ_pos _, trivial, by simp [Obj.payload]; omega,
          fun h => by cases h⟩
      | fixedVec t => simp only [ht] at he ⊢; exact accounted_fixedVec he
      | symVec => simp only [ht] at he ⊢; exact accounted_symVec he
      | strVec => simp only [ht] at he ⊢; exact accounted_strVec he
      | list => simp only [ht] at hcut hal he ⊢; exact accounted_list ih he hcut hal
      | table => simp only [ht] at hcut hal he ⊢; exact accounted_table ih he hcut hal
      | dict => simp only [ht] at hcut hal he ⊢; exact accounted_dict ih (Or.inl rfl) he hcut hal
      | lambda => simp only [ht] at hcut hal he ⊢; exact accounted_dict ih (Or.inr rfl) he hcut hal
      | fn k =>
        have hlossy : (fnNotes rt.env bs).lossy = false := by unfold fnNotes; split <;> rfl
        simp only [ht, hlossy] at hal he ⊢
        exact accounted_fn he hal
      | error =>
        simp only [ht, parseError] at he
        split_ifs at he <;> cases he
      | unknown => simp only [ht] at he; cases he
      | fixedAtom t | symAtom | strAtom | unknownAtom =>
        simp only [ht] at he ⊢
        cases bs with
        | nil => cases he
        | cons f bs =>
          rw [parseAtom_cons] at he ⊢
          first
            | exact accounted_fixedAtom he
            | exact accounted_symAtom he
            | exact accounted_strAtom he
            | cases he

lemma resolves_selfFn (rt : Runtime) : Resolves rt (selfFn rt) := by
  rintro k name ⟨hn, hlen, hf⟩
  rw [fnWireName_short hlen]
  exact ⟨hn, _, hf, trivial⟩

end

def Reencodes (rt : Runtime) (n : ℕ) (o : Obj) : Prop :=
  ∃ frame o', raySer rt o = .frame frame ∧ frame.length = n ∧
    rayDe rt frame = some o' ∧ o'.isErr = false ∧ o'.view = o.view

def frameNotes (rt : Runtime) (buf : Bytes) : Notes := notes rt rayDeMaxDepth (buf.drop 16)

def unread (rt : Runtime) (buf : Bytes) : Bytes := (parse rt rayDeMaxDepth (buf.drop 16)).2

def StrictlyDecoded (rt : Runtime) (buf : Bytes) (o : Obj) : Prop :=
  Reencodes rt buf.length o ∧ (frameNotes rt buf).cut = false ∧ unread rt buf = []

def CleanFrame (rt : Runtime) (buf : Bytes) : Prop := frameNotes rt buf = {} ∧ unread rt buf = []

section

variable {rt : Runtime}

lemma reencodes_of_accounted {bs : Bytes} (h : Accounted rt rayDeMaxDepth bs (o, []) false)
    (hb : bs.length ≤ 1000000000) : Reencodes rt (16 + bs.length) o := by
  obtain ⟨hfits, hread⟩ := (every_and_iff o).mp h.settled
  obtain ⟨hread, hguard⟩ := (every_and_iff o).mp hread
  have ho : o.isOther = false := not_other_of_settled h.settled.here
  obtain ⟨bytes, hs⟩ := isSome_iff_exists.mp ((raySerRaw_isSome_iff o).mpr hread)
  have hlen := raySerRaw_length o hs
  have hsize : raySerdeSize o = bytes.length := by rw [hlen]; exact (raySerdeSize_spec o).2.mpr hguard
  have hpay : o.payload = bs.length := h.bytes.1 rfl
  have hparse := parse_raySerRaw (resolves_selfFn rt) o [] hfits hs h.shallow
  rw [append_nil, h.fixed] at hparse
  have hplain : o.Plain := h.plain
  refine ⟨_, o, raySer_frame ho hs hsize, ?_, ?_, ?_, rfl⟩
  · simp only [length_append, serHeader_length]
    omega
  · rw [rayDe_serHeader bytes (by omega), hparse]
  · cases o with
    | error => exact hplain.elim
    | _ => rfl

lemma length_of_reencodes (h : Reencodes rt n o) (ho : o.isOther = false) : n = 16 + o.payload := by
  obtain ⟨frame, o', hser, hlen, -⟩ := h
  have hlazy : rayIsLazy o = false := by
    cases o with
    | other => cases ho
    | _ => rfl
  rw [raySer, hlazy, if_neg (by simp), serPayload] at hser
  split_ifs at hser
  cases hs : raySerRaw o with
  | none => simp [hs] at hser
  | some bs =>
    have hl := raySerRaw_length o hs
    cases bs with
    | nil => simp [hs] at hser
    | cons b bs =>
      simp only [hs, SerResult.frame.injEq] at hser
      rw [← hlen, ← hser, length_append, serHeader_length, hl]

end

theorem strictlyDecoded_of_clean (rt : Runtime) (buf : Bytes) (o : Obj) (h : rayDe rt buf = some o)
    (ho : o.isErr = false) :
    (CleanFrame rt buf → StrictlyDecoded rt buf o) ∧
      ((frameNotes rt buf).aliased = false → StrictlyDecoded rt buf o → CleanFrame rt buf) := by
  have hok := headerOk_of_rayDe h ho
  rw [rayDe_ok hok] at h
  cases h
  have hlen : buf.length = 16 + (buf.drop 16).length := by
    have := hok.whole
    simp only [length_drop]
    omega
  have hsmall : (buf.drop 16).length ≤ 1000000000 := by
    have := hok.bounded
    have := hok.exact
    omega
  constructor
  · rintro ⟨hnotes, hrest⟩
    have hacc := accounted_parse rt rayDeMaxDepth (buf.drop 16) (congrArg Notes.cut hnotes)
      (congrArg Notes.aliased hnotes) ho
    rw [show (notes rt rayDeMaxDepth (buf.drop 16)).lossy = false from congrArg Notes.lossy hnotes] at hacc
    rw [show parse rt rayDeMaxDepth (buf.drop 16) = ((parse rt rayDeMaxDepth (buf.drop 16)).1, []) from
      Prod.ext rfl hrest] at hacc
    refine ⟨?_, congrArg Notes.cut hnotes, hrest⟩
    rw [hlen]
    exact reencodes_of_accounted hacc hsmall
  · rintro hal ⟨hre, hcut, hrest⟩
    have hacc := accounted_parse rt rayDeMaxDepth (buf.drop 16) hcut hal ho
    have hpay := length_of_reencodes hre (not_other_of_settled hacc.settled.here)
    have hread : (parse rt rayDeMaxDepth (buf.drop 16)).2 = [] := hrest
    refine ⟨?_, hrest⟩
    have hlossy : (frameNotes rt buf).lossy = false := by
      by_contra hc
      have := hacc.bytes.2 (Bool.eq_true_of_not_eq_false hc)
      rw [hread, length_nil] at this
      omega
    cases hn : frameNotes rt buf
    simp_all

def nullPairFrame : Bytes := serHeader 12 ++ [0, 0, 2, 0, 0, 0, 0, 0, 0, 0, 126, 126]

theorem strictlyDecoded_nullPair :
    (CleanFrame bareRuntime nullPairFrame → StrictlyDecoded bareRuntime nullPairFrame (.list 0 [.null, .null])) ∧
      ((frameNotes bareRuntime nullPairFrame).aliased = false →
        StrictlyDecoded bareRuntime nullPairFrame (.list 0 [.null, .null]) →
        CleanFrame bareRuntime nullPairFrame) :=
  strictlyDecoded_of_clean bareRuntime nullPairFrame (.list 0 [.null, .null])
    (rayDe_serHeader [0, 0, 2, 0, 0, 0, 0, 0, 0, 0, 126, 126] (by decide)) rfl

-- a list of two that ends after its first element, the integer 1
def cutListPayload : Bytes := [0, 0, 2, 0, 0, 0, 0, 0, 0, 0, 251, 0, 1, 0, 0, 0, 0, 0, 0, 0]

def cutListFrame : Bytes := serHeader 20 ++ cutListPayload

theorem cutListFrame_accepted : ∃ o, rayDe bareRuntime cutListFrame = some o ∧ o.isErr = false ∧
    ¬ StrictlyDecoded bareRuntime cutListFrame o := by
  refine ⟨(parse bareRuntime rayDeMaxDepth cutListPayload).1,
    rayDe_serHeader cutListPayload (by decide), by decide +kernel, ?_⟩
  rintro ⟨hre, -⟩
  have hpay := length_of_reencodes hre (by decide +kernel)
  exact absurd hpay (by decide +kernel)

end Rayforce.Serde
