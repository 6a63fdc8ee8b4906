import Rayforce.Domain.Object

namespace Rayforce.Domain

open Library.Words Library.Probing List
open Rayforce.Symbol (Entry symHash symStrlMagic strlFile record storedBytes)

variable {image : Bytes} {b : Cells Entry} {offs : List ℕ} {extra : ℕ} {s : Bytes}

lemma scanRecords_spec {image rest : Bytes} {n off : ℕ} (hrest : image.drop off = rest)
    (h : scanRecords n off rest = some offs) :
    offs.length = n ∧ rest.length = ((offs.map (recordAt image)).map fun s => 4 + s.length).sum ∧
      ∀ s ∈ offs.map (recordAt image), s.length < 2 ^ 32 := by
  induction n generalizing off rest offs with
  | zero =>
    simp only [scanRecords] at h
    split_ifs at h with hnil
    obtain rfl := Option.some.inj h
    simp [hnil]
  | succ n ih =>
    by_cases h4 : rest.length < 4
    · simp [scanRecords, h4] at h
    by_cases hlen : (rest.drop 4).length < leNat (rest.take 4)
    · simp only [scanRecords, if_neg h4, if_pos hlen] at h
      cases h
    simp only [scanRecords, if_neg h4, if_neg hlen] at h
    obtain ⟨offs', hscan, rfl⟩ := Option.map_eq_some_iff.mp h
    have hdrop4 : image.drop (off + 4) = rest.drop 4 := by rw [← hrest, drop_drop]
    have hnext : image.drop (off + 4 + leNat (rest.take 4)) = (rest.drop 4).drop (leNat (rest.take 4)) := by
      rw [← hdrop4, drop_drop]
    obtain ⟨hn, hsum, hshort⟩ := ih hnext hscan
    have hrec : recordAt image off = (rest.drop 4).take (leNat (rest.take 4)) := by
      rw [recordAt, hdrop4, hrest]
    have hreclen : (recordAt image off).length = leNat (rest.take 4) := by
      rw [hrec, length_take]
      omega
    have hbound : leNat (rest.take 4) < 2 ^ 32 := by
      have := leNat_lt (rest.take 4)
      rw [length_take, min_eq_left (by omega)] at this
      omega
    refine ⟨by simp [hn], ?_, ?_⟩
    · simp only [map_cons, sum_cons, hreclen, ← hsum, length_drop] at hlen ⊢
      omega
    · intro s hs
      rcases mem_cons.mp hs with rfl | hs
      · rw [hreclen]
        exact hbound
      · exact hshort s hs

structure Decodes (image : Bytes) (V : List Bytes) : Prop where
  size : image.length = storedBytes V
  magic : leNat (image.take 4) = symStrlMagic
  header : leInt ((image.drop 4).take 8) = V.length
  count : V.length < 2 ^ 32
  short : ∀ s ∈ V, s.length < 2 ^ 32

lemma parse_decodes (h : domParseStrlAtoms image = some offs) : Decodes image (offs.map (recordAt image)) := by
  by_cases h12 : image.length < 12
  · simp [domParseStrlAtoms, h12] at h
  by_cases hm : leNat (image.take 4) ≠ symStrlMagic
  · simp only [domParseStrlAtoms, if_neg h12, if_pos hm] at h
    cases h
  by_cases hc : leInt ((image.drop 4).take 8) < 0 ∨ 2 ^ 32 - 1 < leInt ((image.drop 4).take 8)
  · simp only [domParseStrlAtoms, if_neg h12, if_neg hm, if_pos hc] at h
    cases h
  simp only [domParseStrlAtoms, if_neg h12, if_neg hm, if_neg hc] at h
  obtain ⟨hn, hsum, hshort⟩ := scanRecords_spec rfl h
  refine ⟨?_, not_not.mp hm, ?_, ?_, hshort⟩
  · rw [storedBytes, ← hsum, length_drop]
    omega
  · rw [length_map, hn]
    omega
  · rw [length_map, hn]
    omega

lemma decode_eq_some {V : List Bytes} :
    decode image = some V ↔ ∃ offs, domParseStrlAtoms image = some offs ∧ offs.map (recordAt image) = V :=
  Option.map_eq_some_iff

lemma decode_decodes {V : List Bytes} (h : decode image = some V) : Decodes image V := by
  obtain ⟨offs, hp, rfl⟩ := decode_eq_some.mp h
  exact parse_decodes hp

lemma scanRecords_records (ns : List Bytes) (hns : ∀ s ∈ ns, s.length < 2 ^ 32) {off : ℕ}
    (hrest : image.drop off = ns.flatMap record) :
    ∃ offs, scanRecords ns.length off (ns.flatMap record) = some offs ∧ offs.map (recordAt image) = ns := by
  induction ns generalizing off with
  | nil => exact ⟨[], by simp [scanRecords], rfl⟩
  | cons s ns ih =>
    have hs := hns s (by simp)
    obtain ⟨hlen, hdrop⟩ := Symbol.record_split hs (ns.flatMap record)
    have hnot : ¬ (s ++ ns.flatMap record).length < s.length := by simp
    rw [flatMap_cons] at hrest
    have hdrop4 : image.drop (off + 4) = s ++ ns.flatMap record := by
      rw [← drop_drop, hrest, hdrop]
    have hnext : image.drop (off + 4 + s.length) = ns.flatMap record := by
      rw [← drop_drop, hdrop4, drop_left]
    obtain ⟨offs, hscan, hmap⟩ := ih (fun x hx => hns x (by simp [hx])) hnext
    refine ⟨off :: offs, ?_, ?_⟩
    · rw [length_cons, flatMap_cons]
      simp only [scanRecords, if_neg (Symbol.record_not_short _ _), hlen, hdrop, if_neg hnot,
        drop_left, hscan, Option.map_some]
    · have hrec : recordAt image off = s := by
        rw [recordAt, hdrop4, hrest, hlen, take_left]
      rw [map_cons, hmap, hrec]

lemma decode_strlFile {V : List Bytes} (hcount : V.length < 2 ^ 32) (hshort : ∀ s ∈ V, s.length < 2 ^ 32) :
    decode (strlFile V) = some V := by
  obtain ⟨hmagic, hhead, hdrop⟩ := Symbol.strlFile_header V hcount
  obtain ⟨offs, hscan, hmap⟩ := scanRecords_records V hshort hdrop
  refine decode_eq_some.mpr ⟨offs, ?_, hmap⟩
  have h12 : ¬ storedBytes V < 12 := by
    rw [storedBytes]
    omega
  have hrange : ¬ ((V.length : ℤ) < 0 ∨ 2 ^ 32 - 1 < (V.length : ℤ)) := by omega
  simp only [domParseStrlAtoms, Symbol.strlFile_length, if_neg h12, hmagic, ne_eq, not_true_eq_false,
    if_false, hhead, if_neg hrange, Int.toNat_natCast, hdrop, hscan]

lemma storedBytes_append (V W : List Bytes) :
    storedBytes (V ++ W) = storedBytes V + (W.map fun s => 4 + s.length).sum := by
  simp only [storedBytes, map_append, sum_append]
  omega

lemma storedBytes_mono {V U : List Bytes} (h : V <+: U) : storedBytes V ≤ storedBytes U := by
  obtain ⟨W, rfl⟩ := h
  rw [storedBytes_append]
  omega

section

structure IndexOk (b : Cells Entry) (V : List Bytes) : Prop where
  chained : Chained Entry.hash b
  occupied : occupied b = V.length
  room : 10 * V.length ≤ 7 * b.length
  large : 16 ≤ b.length
  entries : ∀ e, some e ∈ b ↔ ∃ s, V[e.id]? = some s ∧ e.hash = symHash s

/-- `d` stands for the vocabulary `V`, of which `k` strings are stored. -/
structure Holds (d : SymDomain) (V : List Bytes) (k : ℕ) : Prop where
  count : d.count = V.length
  atoms : ∀ (i : ℕ) (a : Bytes), d.atoms[i]? = some (some a) → V[i]? = some a
  empty : ∀ (i : ℕ), d.atoms[i]? = some none → i < d.baseCount
  records : ∀ (i off : ℕ), d.offsets[i]? = some off → V[i]? = some (recordAt d.image off)
  base : d.baseCount ≤ d.count
  stored : d.diskCount = k
  disk : k ≤ V.length
  size : d.diskSize = storedBytes (V.take k) ∨ k = 0 ∧ d.diskSize = 0
  root : V ≠ [] → V[0]? = some []
  limit : V.length < 2 ^ 32
  index : ∀ b, d.buckets = some b → IndexOk b V

variable {d d' : SymDomain} {V : List Bytes} {k : ℕ}

section

variable (h : Holds d V k)
include h

lemma Holds.atomAt (i : ℕ) : atomAt d i = V[i]? := by
  unfold Domain.atomAt
  split
  · rename_i hn
    have := getElem?_eq_none_iff.mp hn
    rw [getElem?_eq_none]
    rw [← h.count]
    exact this
  · rename_i a ha
    exact (h.atoms i a ha).symm
  · rename_i hn
    have hi := h.empty i hn
    rw [getElem?_eq_getElem (show i < d.offsets.length from hi), Option.map_some]
    exact (h.records i _ (getElem?_eq_getElem hi)).symm

lemma Holds.unique {W : List Bytes} {j : ℕ} (h' : Holds d W j) : V = W := by
  apply ext_getElem?
  intro i
  rw [← h.atomAt, h'.atomAt]

lemma Holds.setAtoms {atoms : List (Option Bytes)} (hlen : atoms.length = d.count)
    (hsome : ∀ (i : ℕ) (a : Bytes), atoms[i]? = some (some a) → V[i]? = some a)
    (hnone : ∀ (i : ℕ), atoms[i]? = some none → d.atoms[i]? = some none) :
      Holds { d with atoms := atoms } V k where
  count := hlen.trans h.count
  atoms := hsome
  empty i hi := h.empty i (hnone i hi)
  records := h.records
  base := by rw [SymDomain.count, hlen]; exact h.base
  stored := h.stored
  disk := h.disk
  size := h.size
  root := h.root
  limit := h.limit
  index := h.index

lemma domAtomAtLocked_spec {pos : ℕ} (hpos : pos < V.length) :
    ∃ d', domAtomAtLocked d pos = some (V[pos], d') ∧ Holds d' V k := by
  refine ⟨{ d with atoms := d.atoms.set pos (some V[pos]) },
    by simp only [domAtomAtLocked, h.atomAt, getElem?_eq_getElem hpos, Option.map_some],
    h.setAtoms (by simp [SymDomain.count]) ?_ ?_⟩
  · intro i a hi
    rw [getElem?_set] at hi
    split_ifs at hi with hip hlt
    · subst hip
      rw [getElem?_eq_getElem hpos]
      exact Option.some.inj hi
    · exact h.atoms i a hi
  · intro i hi
    rw [getElem?_set] at hi
    split_ifs at hi with hip hlt
    · simp at hi
    · exact hi

lemma materialize_spec : ∃ d', materialize d = some (V, d') ∧ Holds d' V k := by
  have hread : (range d.count).mapM (Domain.atomAt d) = some V := by
    have hall : ∀ n ≤ V.length, (range n).mapM (Domain.atomAt d) = some (V.take n) := by
      intro n
      induction n with
      | zero => simp
      | succ n ih =>
        intro hn
        rw [range_succ, mapM_append, ih (by omega), mapM_cons, h.atomAt,
          getElem?_eq_getElem (show n < V.length by omega), take_add_one,
          getElem?_eq_getElem (show n < V.length by omega)]
        rfl
    rw [h.count, hall V.length le_rfl, take_length]
  refine ⟨{ d with atoms := V.map some }, by simp only [materialize, hread, Option.map_some],
    h.setAtoms (by simp [h.count]) ?_ ?_⟩
  · intro i a hi
    simpa using hi
  · intro i hi
    simp at hi

lemma raySymDomainStr_spec (pos : ℕ) : ∃ d', raySymDomainStr d pos = some (V[pos]?, d') ∧ Holds d' V k := by
  rcases lt_or_ge pos V.length with hpos | hpos
  · obtain ⟨d', hd, hh⟩ := domAtomAtLocked_spec h hpos
    have hnot : ¬ d.count ≤ pos := by rw [h.count]; omega
    exact ⟨d', by simp [raySymDomainStr, hnot, hd, getElem?_eq_getElem hpos], hh⟩
  · refine ⟨d, ?_, h⟩
    rw [getElem?_eq_none hpos]
    simp [raySymDomainStr, h.count, hpos]

end

end

section

variable {d d' : SymDomain} {V : List Bytes} {k : ℕ}

lemma bucketCap_spec {need fuel cap c : ℕ} (h : bucketCap need fuel cap = some c) :
    10 * need ≤ 7 * c ∧ cap ≤ c := by
  induction fuel generalizing cap with
  | zero => simp [bucketCap] at h
  | succ fuel ih =>
    by_cases hsmall : 7 * cap < 10 * need
    · by_cases hmax : 2 ^ 63 ≤ cap
      · simp only [bucketCap, hsmall, hmax, if_true] at h
        cases h
      · simp only [bucketCap, hsmall, hmax, if_true, if_false] at h
        have := ih h
        omega
    · simp only [bucketCap, hsmall, if_false, Option.some.injEq] at h
      omega

lemma bucketCap_isSome {need fuel cap : ℕ} (hneed : need < 2 ^ 40) (hfuel : 2 ^ 41 ≤ cap * 2 ^ fuel) :
    (bucketCap need (fuel + 1) cap).isSome := by
  induction fuel generalizing cap with
  | zero =>
    have : ¬ 7 * cap < 10 * need := by omega
    simp [bucketCap, this]
  | succ fuel ih =>
    rw [bucketCap]
    split_ifs with hsmall hmax
    · omega
    · exact ih (by rw [pow_succ] at hfuel; rwa [mul_assoc, mul_comm 2])
    · rfl

lemma mem_entriesOf {V : List Bytes} {e : Entry} :
    some e ∈ entriesOf V ↔ ∃ s, V[e.id]? = some s ∧ e.hash = symHash s := by
  simp only [entriesOf, mem_iff_getElem?, getElem?_mapIdx]
  constructor
  · rintro ⟨i, hi⟩
    obtain ⟨s, hs, he⟩ := Option.map_eq_some_iff.mp hi
    obtain rfl := Option.some.inj he
    exact ⟨s, hs, rfl⟩
  · rintro ⟨s, hs, hh⟩
    refine ⟨e.id, ?_⟩
    rw [hs, Option.map_some, ← hh]

lemma occupied_entriesOf (V : List Bytes) : occupied (entriesOf V) = V.length := by
  rw [occupied, countP_eq_length.mpr]
  · simp [entriesOf]
  · intro c hc
    obtain ⟨i, hi⟩ := mem_iff_getElem?.mp hc
    simp only [entriesOf, getElem?_mapIdx] at hi
    obtain ⟨s, -, rfl⟩ := Option.map_eq_some_iff.mp hi
    rfl

section

variable (h : Holds d V k)
include h

lemma domBuildIndexLocked_spec (hextra : extra ≤ 1) :
    ∃ d' b, domBuildIndexLocked d extra = some (true, d') ∧ Holds d' V k ∧ d'.buckets = some b ∧
      10 * (V.length + extra) ≤ 7 * b.length := by
  have hlimit := h.limit
  obtain ⟨cap, hcap⟩ := Option.isSome_iff_exists.mp
    (bucketCap_isSome (show d.count + extra < 2 ^ 40 by rw [h.count]; omega)
      (show 2 ^ 41 ≤ 16 * 2 ^ 63 by norm_num))
  obtain ⟨hneed, hlarge⟩ := bucketCap_spec hcap
  rw [h.count] at hneed
  obtain ⟨d1, hm, hh⟩ := materialize_spec h
  obtain ⟨b, hb, hlen, hch, hocc, hmem⟩ := rehash_spec Entry.hash
    (show occupied (entriesOf V) < cap by rw [occupied_entriesOf]; omega)
  refine ⟨{ d1 with buckets := some b }, b, ?_, ⟨hh.count, hh.atoms, hh.empty, hh.records, hh.base,
    hh.stored, hh.disk, hh.size, hh.root, hh.limit, ?_⟩, rfl, by omega⟩
  · simp [domBuildIndexLocked, hcap, hm, hb]
  · rintro b' ⟨⟩
    exact ⟨hch, hocc.trans (occupied_entriesOf V), by omega, by omega,
      fun e => (hmem e).trans mem_entriesOf⟩

lemma ensureIndex_spec (hextra : extra ≤ 1) :
    ∃ d' b, ensureIndex d extra = some (true, d') ∧ Holds d' V k ∧ d'.buckets = some b := by
  cases hb : d.buckets with
  | none =>
    obtain ⟨d', b, hbuild, hh, hb', -⟩ := domBuildIndexLocked_spec h hextra
    exact ⟨d', b, by simp [ensureIndex, hb, hbuild], hh, hb'⟩
  | some b => exact ⟨d, b, by simp [ensureIndex, hb], h, hb⟩

lemma domProbeLocked_spec (hb : d.buckets = some b) (s : Bytes) :
    ∃ r, domProbeLocked d s = some r ∧ (∀ i, r = some i → V[i]? = some s) ∧ (r = none → s ∉ V) := by
  have hi := h.index b hb
  have hroom : occupied b < b.length := by
    have h1 := hi.room
    have h2 := hi.large
    rw [hi.occupied]
    omega
  have he : ∀ e, some e ∈ b ↔ ∃ s, atomAt d e.id = some s ∧ e.hash = symHash s := by
    simpa only [h.atomAt] using hi.entries
  obtain ⟨r, hr, hsome, hnone⟩ := Symbol.lookup_string hi.chained hroom he s
  simp only [h.atomAt] at hsome hnone
  refine ⟨r.map Entry.id, by simp [domProbeLocked, hb, hr], hsome, fun hn hs => ?_⟩
  obtain ⟨i, hi'⟩ := mem_iff_getElem?.mp hs
  exact hnone hn i hi'

lemma Holds.append {b b' : Cells Entry} (hb : d.buckets = some b)
    (hroom : 10 * (V.length + 1) ≤ 7 * b.length) (hlim : V.length + 1 < 2 ^ 32) (hroot : V = [] → s = [])
    (hp : place b (symHash s) ⟨symHash s, d.count⟩ = some b') :
    Holds { d with atoms := d.atoms ++ [some s], buckets := some b' } (V ++ [s]) k := by
  have hcount := h.count
  have hi := h.index b hb
  have hleft : ∀ (i : ℕ) (a : Bytes), V[i]? = some a → (V ++ [s])[i]? = some a := by
    intro i a ha
    rw [getElem?_append_left (List.getElem?_eq_some_iff.mp ha).1, ha]
  refine ⟨?_, ?_, ?_, ?_, ?_, h.stored, ?_, ?_, ?_, ?_, ?_⟩
  · simpa [SymDomain.count] using hcount
  · intro i a ha
    simp only [SymDomain.count] at hcount
    rcases lt_or_ge i d.atoms.length with hlt | hge
    · rw [getElem?_append_left hlt] at ha
      exact hleft i a (h.atoms i a ha)
    · rw [getElem?_append_right hge] at ha
      rw [getElem?_append_right (by omega), ← hcount]
      cases hk : i - d.atoms.length with
      | zero => simpa [hk] using ha
      | succ k => simp [hk] at ha
  · intro i ha
    rcases lt_or_ge i d.atoms.length with hlt | hge
    · rw [getElem?_append_left hlt] at ha
      exact h.empty i ha
    · rw [getElem?_append_right hge] at ha
      cases hk : i - d.atoms.length with
      | zero => simp [hk] at ha
      | succ k => simp [hk] at ha
  · intro i off ho
    exact hleft i _ (h.records i off ho)
  · have := h.base
    simp only [SymDomain.count, SymDomain.baseCount, length_append, length_singleton] at this ⊢
    omega
  · have := h.disk
    rw [length_append]
    omega
  · simpa only [take_append_of_le_length h.disk] using h.size
  · intro _
    cases hV : V with
    | nil => simp [hroot hV]
    | cons v V' =>
      have := h.root (by simp [hV])
      simpa [hV] using this
  · simpa using hlim
  · rintro b'' ⟨⟩
    refine ⟨place_chained hi.chained hp, ?_, ?_, ?_, ?_⟩
    · rw [place_occupied hp, hi.occupied]
      simp
    · rw [place_length hp]
      simpa using hroom
    · rw [place_length hp]
      exact hi.large
    · intro e
      rw [place_mem hp, hi.entries]
      constructor
      · rintro (rfl | ⟨a, ha, hh⟩)
        · exact ⟨s, by simp [hcount], rfl⟩
        · exact ⟨a, hleft _ a ha, hh⟩
      · rintro ⟨a, ha, hh⟩
        rcases lt_or_ge e.id V.length with hlt | hge
        · rw [getElem?_append_left hlt] at ha
          exact .inr ⟨a, ha, hh⟩
        · have hid : e.id = V.length := by
            have := (List.getElem?_eq_some_iff.mp ha).1
            simp at this
            omega
          rw [hid] at ha
          simp only [getElem?_concat_length, Option.some.injEq] at ha
          subst ha
          left
          cases e
          simp_all

lemma headroom_spec (hb : d.buckets = some b) :
    ∃ d' b', headroom d = some (true, d') ∧ Holds d' V k ∧ d'.buckets = some b' ∧
      10 * (V.length + 1) ≤ 7 * b'.length := by
  by_cases hfull : 7 * b.length < 10 * (d.count + 1)
  · obtain ⟨d', b', hbuild, hh, hb', hroom⟩ := domBuildIndexLocked_spec h le_rfl
    exact ⟨d', b', by simp [headroom, hb, hfull, hbuild], hh, hb', hroom⟩
  · refine ⟨d, b, by simp [headroom, hb, hfull], h, hb, ?_⟩
    rw [h.count] at hfull
    omega

lemma domAppendLocked_spec (hb : d.buckets = some b) (hroot : V = [] → s = []) :
    ∃ r d', domAppendLocked d s = some (r, d') ∧ ((r = none ∧ Holds d' V k ∧ V ≠ []) ∨
      (r = some V.length ∧ Holds d' (V ++ [s]) k ∧ ∃ b', d'.buckets = some b')) := by
  by_cases hlim : 2 ^ 32 - 1 ≤ d.count
  · refine ⟨none, d, by simp only [domAppendLocked, if_pos hlim], .inl ⟨rfl, h, ?_⟩⟩
    rw [h.count] at hlim
    intro hV
    simp [hV] at hlim
  · obtain ⟨d1, b1, hhead, hh, hb1, hroom⟩ := headroom_spec h hb
    have hi := hh.index b1 hb1
    have hfree : occupied b1 < b1.length := by
      have h1 := hi.room
      have h2 := hi.large
      rw [hi.occupied]
      omega
    obtain ⟨b2, hp⟩ := Option.isSome_iff_exists.mp
      (place_isSome (symHash s) (⟨symHash s, d1.count⟩ : Entry) hfree)
    rw [h.count] at hlim
    refine ⟨some V.length, _, ?_, .inr ⟨rfl, hh.append hb1 hroom (by omega) hroot hp, b2, rfl⟩⟩
    rw [← h.count] at hlim
    simp only [domAppendLocked, if_neg hlim, hhead, Option.bind_eq_bind, Option.bind_some, hb1, hp,
      Bool.true_eq_false, if_false, Option.pure_def]
    rw [hh.count]

lemma findIndexed_spec (s : Bytes) :
    ∃ r d', findIndexed d s = some (r, d') ∧ Holds d' V k ∧ (∀ i, r = some i → V[i]? = some s) ∧
    (r = none → s ∉ V) := by
  obtain ⟨d1, b, hidx, hh, hb⟩ := ensureIndex_spec h (Nat.zero_le 1)
  obtain ⟨r, hp, hsome, hnone⟩ := domProbeLocked_spec hh hb s
  exact ⟨r, d1, by simp [findIndexed, hidx, hp], hh, hsome, hnone⟩

lemma raySymDomainFind_spec (s : Bytes) :
    ∃ r d', raySymDomainFind d s = some (r, d') ∧ Holds d' V k ∧ (∀ i, r = some i → V[i]? = some s) ∧
    (r = none → s ∉ V) := by
  by_cases h0 : d.count = 0
  · refine ⟨none, d, by simp [raySymDomainFind, h0], h, by simp, ?_⟩
    rw [h.count, length_eq_zero_iff] at h0
    simp [h0]
  · by_cases hs : s = []
    · have hpos : 0 < V.length := by
        rw [h.count] at h0
        omega
      obtain ⟨d1, ha, hh⟩ := domAtomAtLocked_spec h hpos
      by_cases hempty : V[0] = []
      · refine ⟨some 0, d1, by simp [raySymDomainFind, h0, hs, ha, hempty], hh, ?_, by simp⟩
        rintro i ⟨⟩
        rw [getElem?_eq_getElem hpos, hempty, hs]
      · obtain ⟨r, d', hf, hrest⟩ := findIndexed_spec hh s
        refine ⟨r, d', ?_, hrest⟩
        rw [hs] at hf
        simp [raySymDomainFind, h0, hs, ha, hempty, hf]
    · obtain ⟨r, d', hf, hrest⟩ := findIndexed_spec h s
      exact ⟨r, d', by simp [raySymDomainFind, h0, hs, hf], hrest⟩

lemma raySymDomainIntern_spec (s : Bytes) : ∃ r d' W, raySymDomainIntern d s = some (r, d') ∧ Holds d' (V ++ W) k ∧
      (∀ i, r = some i → (V ++ W)[i]? = some s) ∧ (V.Nodup → (V ++ W).Nodup) := by
  obtain ⟨d1, b, hidx, hh, hb⟩ := ensureIndex_spec h le_rfl
  -- the state once the empty string is in place
  obtain ⟨d2, W1, hseed, hh2, ⟨b2, hb2⟩, hne, hnd⟩ : ∃ d2 W1, seedEmpty d1 s = some (true, d2) ∧
      Holds d2 (V ++ W1) k ∧ (∃ b, d2.buckets = some b) ∧ (V ++ W1 = [] → s = []) ∧
      (V.Nodup → (V ++ W1).Nodup) := by
    by_cases hz : d1.count = 0 ∧ s ≠ []
    · have hV : V = [] := by
        rw [← length_eq_zero_iff, ← hh.count]
        exact hz.1
      obtain ⟨r, d2, hap, ⟨-, -, hne⟩ | ⟨rfl, hh2, hb2⟩⟩ := domAppendLocked_spec hh hb (s := []) (by simp)
      · exact absurd hV hne
      · refine ⟨d2, [[]], ?_, hh2, hb2, by simp, by simp [hV]⟩
        simp [seedEmpty, hz, hap, hV]
    · refine ⟨d1, [], by simp only [seedEmpty, if_neg hz], by simpa using hh, ⟨b, hb⟩, ?_, by simp⟩
      intro hV
      by_contra hs
      refine hz ⟨?_, hs⟩
      rw [hh.count]
      simpa using hV
  obtain ⟨r, hp, hsome, hnone⟩ := domProbeLocked_spec hh2 hb2 s
  cases r with
  | some i =>
    exact ⟨some i, d2, W1, by simp [raySymDomainIntern, hidx, hseed, findOrAppend, hp], hh2, hsome, hnd⟩
  | none =>
    obtain ⟨r, d3, hap, ⟨rfl, hh3, -⟩ | ⟨rfl, hh3, -⟩⟩ := domAppendLocked_spec hh2 hb2 hne
    · exact ⟨none, d3, W1, by simp [raySymDomainIntern, hidx, hseed, findOrAppend, hp, hap], hh3,
        by simp, hnd⟩
    · refine ⟨_, d3, W1 ++ [s], by simp [raySymDomainIntern, hidx, hseed, findOrAppend, hp, hap]; rfl,
        by simpa using hh3, ?_, ?_⟩
      · intro i hi
        obtain rfl := Option.some.inj hi
        rw [← append_assoc, ← length_append, getElem?_concat_length]
      · intro hV
        rw [← append_assoc]
        refine (hnd hV).append (by simp) ?_
        intro x hx hxs
        exact hnone rfl (mem_singleton.mp hxs ▸ hx)

end

end

end Rayforce.Domain
