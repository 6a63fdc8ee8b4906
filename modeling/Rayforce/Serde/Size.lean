import Rayforce.Serde.RoundTrip

namespace Rayforce.Serde

open Library.Words List Option

def symsBytes (cells : List Bytes) : ℕ := (cells.map fun s => s.length + 1).sum
def strsBytes (cells : List Bytes) : ℕ := (cells.map fun s => 8 + s.length).sum

def Atom.payload : Atom → ℕ
  | .fixed t _ _ => 2 + t.size
  | .null t => 2 + t.size
  | .nullStr => 10
  | .sym s _ => 3 + s.length
  | .str s => 10 + s.length

mutual

def Obj.payload : Obj → ℕ
  | .nullPtr => 1
  | .null => 1
  | .error _ => 9
  | .atom a => a.payload
  | .vec t v => 10 + v.cells.length * t.size
  | .symVec _ cells => 10 + symsBytes cells
  | .symSlice attrs block offset len _ => 10 + symsBytes (symSliceCounted attrs block offset len)
  | .strVec v => 10 + strsBytes v.cells
  | .list _ es => 10 + Obj.payloads es
  | .table _ names _ cols => 22 + symsBytes names + Obj.payloads cols
  | .dict _ k v => 2 + k.payload + v.payload
  | .lambda _ p b => 2 + p.payload + b.payload
  | .fn _ name => 2 + (fnWireName name).length
  | .other _ _ => 0

def Obj.payloads : List Obj → ℕ
  | [] => 0
  | e :: es => e.payload + Obj.payloads es

end

-- the string pool, and the cells of a symbol slice, can be read
def Obj.Readable : Obj → Prop
  | .symSlice attrs block offset len _ => (symSliceCells attrs block offset len).isSome = true
  | .strVec v => strPoolReadable v = true
  | _ => True

-- below the overflow guard of `ray_serde_size`
def Obj.Guarded : Obj → Prop
  | .vec _ v => v.cells.length ≤ rayMaxLen
  | .symVec _ cells => cells.length ≤ rayMaxLen
  | .symSlice _ _ _ len _ => len ≤ rayMaxLen
  | .strVec v => v.cells.length ≤ rayMaxLen
  | .list _ es => es.length ≤ rayMaxLen
  | .table _ _ _ cols => cols.length ≤ rayMaxLen
  | _ => True

lemma serAtom_length (a : Atom) : (serAtom a).length = a.payload := by
  cases a with
  | fixed t c hs => simp [serAtom, Atom.payload, c.width]; omega
  | null t => simp [serAtom, Atom.payload, nullBytes_length]; omega
  | nullStr => simp [serAtom, Atom.payload]
  | sym s quoted => simp [serAtom, Atom.payload]; omega
  | str s => simp [serAtom, Atom.payload]; omega

lemma serSyms_bytes (cells : List Bytes) : (serSyms cells).length = symsBytes cells := by
  induction cells with
  | nil => rfl
  | cons s cells ih =>
    simp only [serSyms, symsBytes, flatMap_cons, map_cons, sum_cons, length_append,
      length_singleton] at ih ⊢
    omega

lemma serStrs_bytes (cells : List Bytes) : (serStrs cells).length = strsBytes cells := by
  induction cells with
  | nil => rfl
  | cons s cells ih =>
    simp only [serStrs, strsBytes, flatMap_cons, map_cons, sum_cons, length_append, wireLen_length] at ih ⊢
    omega

mutual

lemma raySerRaw_length : ∀ (o : Obj) {bs : Bytes}, raySerRaw o = some bs → bs.length = o.payload
  | .nullPtr, _, h | .null, _, h | .other _ _, _, h => by cases h; rfl
  | .error code, _, h => by cases h; simp [errField, Obj.payload]
  | .atom a, _, h => by cases h; exact serAtom_length a
  | .vec t v, _, h => by
    cases h
    simp only [length_cons, length_append, wireLen_length, flatMap_bytes_length, Obj.payload]
    omega
  | .symVec _ cells, _, h => by
    cases h
    simp only [length_cons, length_append, wireLen_length, serSyms_bytes, Obj.payload]
    omega
  | .symSlice attrs block offset len _, _, h => by
    simp only [raySerRaw, map_eq_some_iff] at h
    obtain ⟨cells, hcells, rfl⟩ := h
    simp only [length_cons, length_append, wireLen_length, serSyms_bytes, Obj.payload, symSliceCounted,
      hcells, getD_some]
    omega
  | .strVec v, _, h => by
    simp only [raySerRaw] at h
    split at h <;> cases h
    simp only [length_cons, length_append, wireLen_length, serStrs_bytes, Obj.payload]
    omega
  | .list _ es, _, h => by
    simp only [raySerRaw, map_eq_some_iff] at h
    obtain ⟨b, hb, rfl⟩ := h
    simp only [length_cons, length_append, wireLen_length, serElems_payload es hb, Obj.payload]
    omega
  | .table _ names _ cols, _, h => by
    simp only [raySerRaw, map_eq_some_iff] at h
    obtain ⟨b, hb, rfl⟩ := h
    simp only [serSchemaNames, length_cons, length_append, wireLen_length, serSyms_bytes,
      serElems_payload cols hb, Obj.payload]
    omega
  | .dict _ k v, _, h => by
    simp only [raySerRaw, map_eq_some_iff, bind_eq_some_iff] at h
    obtain ⟨ks, hk, vs, hv, rfl⟩ := h
    simp only [length_cons, length_append, raySerRaw_length k hk, raySerRaw_length v hv, Obj.payload]
    omega
  | .lambda _ p b, _, h => by
    simp only [raySerRaw, map_eq_some_iff, bind_eq_some_iff] at h
    obtain ⟨ps, hp, bs, hb, rfl⟩ := h
    simp only [length_cons, length_append, raySerRaw_length p hp, raySerRaw_length b hb, Obj.payload]
    omega
  | .fn _ name, _, h => by
    cases h
    simp [Obj.payload]
    omega

lemma serElems_payload : ∀ (es : List Obj) {bs : Bytes}, serElems es = some bs → bs.length = Obj.payloads es
  | [], _, h => by cases h; rfl
  | e :: es, _, h => by
    simp only [serElems, map_eq_some_iff, bind_eq_some_iff] at h
    obtain ⟨b, hb, bs, hbs, rfl⟩ := h
    simp only [length_append, raySerRaw_length e hb, serElems_payload es hbs, Obj.payloads]

end

mutual

lemma raySerRaw_isSome_iff : ∀ o : Obj, (raySerRaw o).isSome ↔ o.Every Obj.Readable
  | .nullPtr | .null | .error _ | .other _ _ | .atom _ | .vec _ _ | .symVec _ _ | .fn _ _ => by
    simp [raySerRaw, Obj.Every, Obj.Readable]
  | .symSlice _ _ _ _ _ => by simp [raySerRaw, Obj.Every, Obj.Readable]
  | .strVec v => by
    simp only [raySerRaw, Obj.Every, Obj.Readable]
    split <;> simp_all
  | .list _ es => by simpa [raySerRaw, Obj.Every, Obj.Readable] using serElems_isSome_iff es
  | .table _ _ _ cols => by simpa [raySerRaw, Obj.Every, Obj.Readable] using serElems_isSome_iff cols
  | .dict _ k v => by
    simp only [Obj.Every, Obj.Readable, ← raySerRaw_isSome_iff k, ← raySerRaw_isSome_iff v, raySerRaw]
    cases raySerRaw k <;> cases raySerRaw v <;> simp
  | .lambda _ p b => by
    simp only [Obj.Every, Obj.Readable, ← raySerRaw_isSome_iff p, ← raySerRaw_isSome_iff b, raySerRaw]
    cases raySerRaw p <;> cases raySerRaw b <;> simp

lemma serElems_isSome_iff : ∀ es : List Obj, (serElems es).isSome ↔ Obj.EveryAll Obj.Readable es
  | [] => by simp [serElems, Obj.EveryAll]
  | e :: es => by
    simp only [Obj.EveryAll, ← raySerRaw_isSome_iff e, ← serElems_isSome_iff es, serElems]
    cases raySerRaw e <;> cases serElems es <;> simp

end

lemma cast_symsBytes (cells : List Bytes) : (cells.map fun s => (s.length : ℤ) + 1).sum = symsBytes cells := by
  induction cells with
  | nil => rfl
  | cons s cells ih => simp_all [symsBytes]

lemma cast_strsBytes (cells : List Bytes) : (cells.map fun s => 8 + (s.length : ℤ)).sum = strsBytes cells := by
  induction cells with
  | nil => rfl
  | cons s cells ih => simp_all [strsBytes]

-- the guard turns an oversized count into -1, so a sum that contains one falls short
lemma guardLen_spec (n : ℕ) (size : ℤ) (total : ℕ) (hle : size ≤ total) :
    guardLen n size ≤ total ∧ (guardLen n size = total ↔ n ≤ rayMaxLen ∧ size = total) := by
  unfold guardLen
  split_ifs with h
  · exact ⟨by omega, iff_of_false (fun hc => by omega) fun hc => by omega⟩
  · exact ⟨hle, by omega⟩

mutual

lemma raySerdeSize_spec : ∀ o : Obj, raySerdeSize o ≤ o.payload ∧
    (raySerdeSize o = o.payload ↔ o.Every Obj.Guarded)
  | .nullPtr | .null | .error _ | .other _ _ => by simp [raySerdeSize, Obj.payload, Obj.Every, Obj.Guarded]
  | .atom a => by
    have h : raySerdeSize (.atom a) = a.payload := by
      cases a <;> simp only [raySerdeSize, Atom.payload] <;> omega
    simp [h, Obj.payload, Obj.Every, Obj.Guarded]
  | .vec t v => by
    have h := guardLen_spec v.cells.length (1 + 1 + 8 + v.cells.length * t.size)
      (10 + v.cells.length * t.size) (by push_cast; omega)
    exact ⟨h.1, h.2.trans ⟨And.left, fun hl => ⟨hl, by push_cast; omega⟩⟩⟩
  | .symVec _ cells => by
    have h := guardLen_spec cells.length (1 + 1 + 8 + (cells.map fun s => (s.length : ℤ) + 1).sum)
      (10 + symsBytes cells) (by rw [cast_symsBytes]; push_cast; omega)
    exact ⟨h.1, h.2.trans ⟨And.left, fun hl => ⟨hl, by rw [cast_symsBytes]; push_cast; omega⟩⟩⟩
  | .symSlice attrs block offset len _ => by
    have h := guardLen_spec len (1 + 1 + 8 +
      ((symSliceCounted attrs block offset len).map fun s => (s.length : ℤ) + 1).sum)
      (10 + symsBytes (symSliceCounted attrs block offset len)) (by rw [cast_symsBytes]; push_cast; omega)
    exact ⟨h.1, h.2.trans ⟨And.left, fun hl => ⟨hl, by rw [cast_symsBytes]; push_cast; omega⟩⟩⟩
  | .strVec v => by
    have h := guardLen_spec v.cells.length (1 + 1 + 8 + (v.cells.map fun s => 8 + (s.length : ℤ)).sum)
      (10 + strsBytes v.cells) (by rw [cast_strsBytes]; push_cast; omega)
    exact ⟨h.1, h.2.trans ⟨And.left, fun hl => ⟨hl, by rw [cast_strsBytes]; push_cast; omega⟩⟩⟩
  | .list _ es => by
    obtain ⟨hle, heq⟩ := serdeSizes_spec es
    have h := guardLen_spec es.length (1 + 1 + 8 + serdeSizes es)
      (10 + Obj.payloads es) (by push_cast; omega)
    refine ⟨h.1, h.2.trans (and_congr Iff.rfl (Iff.trans ?_ heq))⟩
    push_cast
    omega
  | .table _ names _ cols => by
    obtain ⟨hle, heq⟩ := serdeSizes_spec cols
    have h := guardLen_spec cols.length (1 + 1 + 8 + serdeSizes cols)
      (10 + Obj.payloads cols) (by push_cast; omega)
    have hs : (1 + 1 + 8 + (serdeSizes cols) : ℤ) = (10 + Obj.payloads cols : ℕ) ↔
        serdeSizes cols = Obj.payloads cols := by
      push_cast
      omega
    rw [hs, heq] at h
    simp only [raySerdeSize, schemaNamesSerdeSize, cast_symsBytes, Obj.payload, Obj.Every, Obj.Guarded, ← h.2]
    have := h.1
    push_cast at this ⊢
    constructor <;> omega
  | .dict _ k v => by
    obtain ⟨hkle, hk⟩ := raySerdeSize_spec k
    obtain ⟨hvle, hv⟩ := raySerdeSize_spec v
    simp only [raySerdeSize, Obj.payload, Obj.Every, Obj.Guarded, true_and, ← hk, ← hv]
    push_cast
    constructor <;> omega
  | .lambda _ p b => by
    obtain ⟨hple, hp⟩ := raySerdeSize_spec p
    obtain ⟨hble, hb⟩ := raySerdeSize_spec b
    simp only [raySerdeSize, Obj.payload, Obj.Every, Obj.Guarded, true_and, ← hp, ← hb]
    push_cast
    constructor <;> omega
  | .fn _ name => by
    simp only [raySerdeSize, Obj.payload, Obj.Every, Obj.Guarded, iff_true]
    push_cast
    constructor <;> omega

lemma serdeSizes_spec : ∀ es : List Obj, serdeSizes es ≤ Obj.payloads es ∧
    (serdeSizes es = Obj.payloads es ↔ Obj.EveryAll Obj.Guarded es)
  | [] => by simp [serdeSizes, Obj.payloads, Obj.EveryAll]
  | e :: es => by
    obtain ⟨hele, he⟩ := raySerdeSize_spec e
    obtain ⟨hesle, hes⟩ := serdeSizes_spec es
    simp only [serdeSizes, Obj.payloads, Obj.EveryAll, ← he, ← hes]
    push_cast
    constructor <;> omega

end

end Rayforce.Serde
