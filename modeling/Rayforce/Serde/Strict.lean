import Rayforce.Serde.Accepted

namespace Rayforce.Serde

open Library.Words List Option

variable {b : UInt8} {t : FixTy}

structure Notes where
  cut : Bool := false
  lossy : Bool := false
  aliased : Bool := false
  deriving DecidableEq, Repr

def Notes.join (a b : Notes) : Notes := ⟨a.cut || b.cut, a.lossy || b.lossy, a.aliased || b.aliased⟩

def elemNotes (child : Bytes → Parsed) (note : Bytes → Notes) : ℕ → Bytes → Notes
  | 0, _ => {}
  | n + 1, bs => (note bs).join (elemNotes child note n (child bs).2)

def listNotes (child : Bytes → Parsed) (note : Bytes → Notes) (bs : Bytes) : Notes :=
  elemNotes child note (leInt ((bs.take 9).drop 1)).toNat (bs.drop 9)

def pairNotes (child : Bytes → Parsed) (note : Bytes → Notes) (bs : Bytes) : Notes :=
  (note (bs.drop 1)).join (note (child (bs.drop 1)).2)

def schemaNotes : Obj → Obj → Notes
  | .symVec _ names, .list _ cols => { lossy := names.length != cols.length }
  | .vec .i64 _, _ => { aliased := true }
  | _, _ => {}

def tableNotes (child : Bytes → Parsed) (note : Bytes → Notes) (bs : Bytes) : Notes :=
  (pairNotes child note bs).join (schemaNotes (child (bs.drop 1)).1 (child (child (bs.drop 1)).2).1)

def isBuiltin (name : Bytes) : Obj → Bool
  | .fn _ name' => name == name' && name.length ≤ 15
  | _ => false

def fnNotes (env : Env) (bs : Bytes) : Notes :=
  match cutNul bs with
  | none => {}
  | some (name, _) => { aliased := !(env name).any (isBuiltin name) }

def symNotes (bs : Bytes) : Notes :=
  { lossy := bs.headD 0 &&& 1 != 0 && (cutNul (bs.drop 1)).any fun r => r.1 != [] }

def strNotes (bs : Bytes) : Notes :=
  { lossy := bs.headD 0 &&& 1 != 0 && leInt ((bs.drop 1).take 8) != 0 }

def innerNotes (rt : Runtime) (child : Bytes → Parsed) (note : Bytes → Notes) (bs : Bytes) : Notes :=
  match bs with
  | [] => { cut := true }
  | b :: bs =>
    match Tag.ofByte b with
    | .list => listNotes child note bs
    | .table => tableNotes child note bs
    | .dict | .lambda => pairNotes child note bs
    | .fn _ => fnNotes rt.env bs
    | .symAtom => symNotes bs
    | .strAtom => strNotes bs
    | _ => {}

def notes (rt : Runtime) : ℕ → Bytes → Notes
  | 0, _ => {}
  | levels + 1, bs => innerNotes rt (parse rt levels) (notes rt levels) bs

def selfFn (rt : Runtime) : FnKind → Bytes → Prop :=
  fun k name => NulFree name ∧ name.length ≤ 15 ∧ rt.env name = some (.fn k name)

def Obj.Settled (rt : Runtime) (o : Obj) : Prop := o.Fits (selfFn rt) ∧ o.Readable ∧ o.Guarded

abbrev Spent (lossy : Bool) (out n : ℕ) : Prop := (lossy = false → out = n) ∧ (lossy = true → out < n)

structure Accounted (rt : Runtime) (levels : ℕ) (bs : Bytes) (x : Parsed) (lossy : Bool) : Prop where
  settled : x.1.Every (Obj.Settled rt)
  fixed : x.1.decoded rt = x.1
  shallow : x.1.depth < levels
  plain : x.1.Plain
  bytes : Spent lossy (x.1.payload + x.2.length) bs.length

section

variable {rt : Runtime} {levels : ℕ} {bs : Bytes}

lemma fnWireName_short {name : Bytes} (h : name.length ≤ 15) : fnWireName name = name :=
  take_of_length_le h

lemma wireAttrs_keepNulls (a : UInt8) : wireAttrs (keepNulls a) = keepNulls a := by
  simp [wireAttrs, keepNulls, UInt8.and_assoc]

lemma rayMaxLen_le {n : ℕ} (h : n ≤ 1000000000) : n ≤ rayMaxLen := by
  simp only [rayMaxLen]
  omega

lemma accounted_fixedVec (he : (parseFixedVec t bs).1.isErr = false) :
    Accounted rt (levels + 1) (b :: bs) (parseFixedVec t bs) false := by
  obtain ⟨a, cells, rest, hl, hb, hp⟩ := parseFixedVec_ok he
  rw [hp]
  refine ⟨⟨hl, trivial, rayMaxLen_le hl⟩, ?_, Nat.succ_pos _, trivial, fun _ => ?_, fun h => by cases h⟩
  · simp [Obj.decoded, Vec.attrs, Vec.cells, wireAttrs_keepNulls]
  · rw [hb]
    simp only [Obj.payload, Vec.cells, length_cons, length_append, wireLen_length, flatMap_bytes_length]
    omega

lemma wireAttrs_symVec (a : UInt8) :
    raySymW64 ||| wireAttrs (raySymW64 ||| keepNulls a) = raySymW64 ||| keepNulls a := by
  apply UInt8.eq_of_toBitVec_eq
  simp only [wireAttrs, raySymW64, keepNulls, rayAttrHasNulls, UInt8.toBitVec_and, UInt8.toBitVec_or]
  ext i hi
  interval_cases i <;> simp [UInt8.toBitVec_ofNat]

lemma accounted_symVec (he : (parseSymVec bs).1.isErr = false) :
    Accounted rt (levels + 1) (b :: bs) (parseSymVec bs) false := by
  obtain ⟨a, cells, rest, hl, hn, hb, hp⟩ := parseSymVec_ok he
  rw [hp]
  refine ⟨⟨⟨hl, hn⟩, trivial, rayMaxLen_le hl⟩, ?_, Nat.succ_pos _, trivial, fun _ => ?_, fun h => by cases h⟩
  · simp [Obj.decoded, wireAttrs_symVec]
  · rw [hb]
    simp only [Obj.payload, length_cons, length_append, wireLen_length, serSyms_bytes]
    omega

lemma accounted_strVec (he : (parseStrVec bs).1.isErr = false) :
    Accounted rt (levels + 1) (b :: bs) (parseStrVec bs) false := by
  obtain ⟨a, cells, rest, hl, hs, hpool, hb, hp⟩ := parseStrVec_ok he
  rw [hp]
  refine ⟨⟨⟨hl, hs, hpool⟩, rfl, rayMaxLen_le hl⟩, ?_, Nat.succ_pos _, trivial, fun _ => ?_, fun h => by cases h⟩
  · simp [Obj.decoded, Vec.attrs, Vec.cells, wireAttrs_keepNulls]
  · rw [hb]
    simp only [Obj.payload, Vec.cells, length_cons, length_append, wireLen_length, serStrs_bytes]
    omega

lemma accounted_fixedAtom {b f : UInt8} {isNull : Bool} (he : (parseFixedAtom isNull t bs).1.isErr = false) :
    Accounted rt (levels + 1) (b :: f :: bs) (parseFixedAtom isNull t bs) false := by
  unfold parseFixedAtom at he ⊢
  by_cases hl : bs.length < t.size
  · rw [dif_pos hl] at he
    cases he
  rw [dif_neg hl]
  cases isNull with
  | true =>
    refine ⟨⟨trivial, trivial, trivial⟩, rfl, Nat.succ_pos _, trivial, fun _ => ?_, fun h => by cases h⟩
    simp [rayTypedNull, Obj.payload, Atom.payload]
    omega
  | false =>
    refine ⟨⟨trivial, trivial, trivial⟩, rfl, Nat.succ_pos _, trivial, fun _ => ?_, fun h => by cases h⟩
    simp [fixedAtom, Obj.payload, Atom.payload]
    omega

lemma accounted_symAtom {b f : UInt8} {quoted : Bool}
    (he : (parseSymAtom (f &&& 1 != 0) quoted bs).1.isErr = false) :
    Accounted rt (levels + 1) (b :: f :: bs) (parseSymAtom (f &&& 1 != 0) quoted bs)
    (symNotes (f :: bs)).lossy := by
  unfold parseSymAtom at he ⊢
  cases hc : cutNul bs with
  | none => simp [hc, Obj.isErr] at he
  | some r =>
    obtain ⟨name, rest⟩ := r
    have hb : bs.length = name.length + (rest.length + 1) := by rw [cutNul_some hc]; simp
    have hlossy : (symNotes (f :: bs)).lossy = (f &&& 1 != 0 && name != []) := by simp [symNotes, hc]
    rw [hlossy]
    cases f &&& 1 != 0 with
    | false =>
      refine ⟨⟨cutNul_nulFree hc, trivial, trivial⟩, rfl, Nat.succ_pos _, trivial, fun _ =>
        ?_, fun h => by simp at h⟩
      simp [Obj.payload, Atom.payload]
      omega
    | true =>
      have hp : (Obj.atom (.sym [] false)).payload = 3 := rfl
      refine ⟨⟨not_mem_nil, trivial, trivial⟩, rfl, Nat.succ_pos _, trivial, fun h => ?_, fun h => ?_⟩
      · simp only [Bool.true_and, bne_eq_false_iff_eq] at h
        subst h
        simp only [if_true, hp, length_cons, length_nil] at hb ⊢
        omega
      · have hn : name ≠ [] := by simpa using h
        have := length_pos_iff.mpr hn
        simp only [if_true, hp, length_cons]
        omega

lemma accounted_strAtom {b f : UInt8} (he : (parseStrAtom (f &&& 1 != 0) bs).1.isErr = false) :
    Accounted rt (levels + 1) (b :: f :: bs) (parseStrAtom (f &&& 1 != 0) bs) (strNotes (f :: bs)).lossy := by
  have hlossy : (strNotes (f :: bs)).lossy = (f &&& 1 != 0 && leInt (bs.take 8) != 0) := rfl
  rw [hlossy]
  unfold parseStrAtom at he ⊢
  by_cases h1 : bs.length < 8
  · rw [if_pos h1] at he
    cases he
  rw [if_neg h1] at he ⊢
  dsimp only at he ⊢
  by_cases h2 : ((bs.drop 8).length : ℤ) < leInt (bs.take 8) ∨ leInt (bs.take 8) < 0
  · rw [if_pos h2] at he
    cases he
  rw [if_neg h2]
  have hlen : 0 ≤ leInt (bs.take 8) := by omega
  have hw := (wireLen_leInt (w := bs.take 8) (by simp; omega) hlen).2
  have hd : (bs.drop 8).length + 8 = bs.length := by simp; omega
  generalize leInt (bs.take 8) = slen at *
  have hrest : ((bs.drop 8).drop slen.toNat).length + slen.toNat + 8 = bs.length := by
    simp only [length_drop] at hd h2 ⊢
    omega
  have hslen : ((bs.drop 8).take slen.toNat).length = slen.toNat := by
    simp only [length_take]
    omega
  cases f &&& 1 != 0 with
  | false =>
    refine ⟨⟨?_, trivial, trivial⟩, rfl, Nat.succ_pos _, trivial, fun _ => ?_, fun h => by simp at h⟩
    · change ((bs.drop 8).take slen.toNat).length < 2 ^ 63
      omega
    · simp only [Bool.false_eq_true, if_false, Obj.payload, Atom.payload, hslen, length_cons]
      omega
  | true =>
    refine ⟨⟨trivial, trivial, trivial⟩, rfl, Nat.succ_pos _, trivial, fun h => ?_, fun h => ?_⟩
    · have h0 : slen = 0 := by simpa using h
      simp only [if_true, Obj.payload, Atom.payload, length_cons]
      omega
    · have h0 : slen ≠ 0 := by simpa using h
      simp only [if_true, Obj.payload, Atom.payload, length_cons]
      omega

lemma accounted_fn (he : (parseFn rt.env bs).1.isErr = false) (ha : (fnNotes rt.env bs).aliased = false) :
    Accounted rt (levels + 1) (b :: bs) (parseFn rt.env bs) false := by
  unfold parseFn at he ⊢
  unfold fnNotes at ha
  cases hc : cutNul bs with
  | none => simp [hc, Obj.isErr] at he
  | some r =>
    obtain ⟨name, rest⟩ := r
    have hb : bs.length = name.length + (rest.length + 1) := by rw [cutNul_some hc]; simp
    simp only [hc] at he ha ⊢
    cases hf : rt.env name with
    | none => simp [hf] at ha
    | some f =>
      simp only [hf, any_some, Bool.not_eq_false'] at ha
      cases f with
      | fn k name' =>
        simp only [isBuiltin, Bool.and_eq_true, beq_iff_eq, decide_eq_true_eq] at ha
        obtain ⟨rfl, hlen⟩ := ha
        refine ⟨⟨⟨cutNul_nulFree hc, hlen, hf⟩, trivial, trivial⟩, ?_, Nat.succ_pos _, trivial, fun _ => ?_,
          fun h => by cases h⟩
        · simp [Obj.decoded, fnWireName_short hlen, hf]
        · simp only [Obj.payload, fnWireName_short hlen, length_cons]
          omega
      | _ => cases ha

end

end Rayforce.Serde
