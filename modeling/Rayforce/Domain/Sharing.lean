import Rayforce.Domain.Vocabulary

namespace Rayforce.Domain

open Library.Words List Option Function
open Rayforce.Symbol (Entry symHash symStrlMagic strlFile storedBytes)

variable {d d' : SymDomain} {V : List Bytes} {k : ℕ}
variable {U : List Bytes} {file : Option Bytes} {image : Bytes} {ops : List (Bool × Op)} {V' : List Bytes}
  {fresh : List ℕ} {k' : ℕ}

lemma comparePrefixes_spec (h : Holds d V k) (hbase : d.baseCount = d.count) (image : Bytes)
    (hle : V.length ≤ fresh.length) (is : List ℕ) (his : ∀ i ∈ is, i < V.length) :
    comparePrefixes d image fresh is = some (decide (∀ i ∈ is, V[i]? = (fresh.map (recordAt image))[i]?)) := by
  induction is with
  | nil => rfl
  | cons i is ih =>
    have hi : i < V.length := his i (by simp)
    have hoff : i < d.offsets.length := by
      rw [h.count, SymDomain.baseCount] at hbase
      omega
    have hfresh : i < fresh.length := by omega
    have hold := h.records i _ (getElem?_eq_getElem hoff)
    have hnew : (fresh.map (recordAt image))[i]? = some (recordAt image fresh[i]) := by
      simp [getElem?_eq_getElem hfresh]
    simp only [comparePrefixes, getElem?_eq_getElem hoff, getElem?_eq_getElem hfresh,
      bind_eq_bind, bind_some, forall_mem_cons, hold, hnew, some.injEq]
    by_cases heq : recordAt d.image d.offsets[i] = recordAt image fresh[i]
    · rw [if_pos heq, ih fun j hj => his j (by simp [hj])]
      simp [heq]
    · simp [heq]

lemma isPrefix_of_getElem? {U : List Bytes} (h : ∀ i < V.length, V[i]? = U[i]?) : V <+: U := by
  rw [prefix_iff_eq_take]
  apply ext_getElem?
  intro i
  rcases lt_or_ge i V.length with hi | hi
  · rw [getElem?_take_of_lt hi, h i hi]
  · rw [getElem?_eq_none hi, getElem?_eq_none (by simp; omega)]

lemma getElem?_of_isPrefix (h : V <+: U) {i : ℕ} (hi : i < V.length) : V[i]? = U[i]? := by
  obtain ⟨W, rfl⟩ := h
  rw [getElem?_append_left hi]

lemma Holds.take_of_clean (h : Holds d V k) (hclean : d.count = d.diskCount) : V.take k = V := by
  rw [← h.stored, ← hclean, h.count, take_length]

lemma Holds.extendTo (h : Holds d V k) (hclean : d.count = d.diskCount) (hp : domParseStrlAtoms image = some fresh)
    (hpre : V <+: fresh.map (recordAt image))
    (hroot : fresh.map (recordAt image) ≠ [] → (fresh.map (recordAt image))[0]? = some []) :
    Holds (extendTo d image fresh) (fresh.map (recordAt image)) fresh.length := by
  have hdec := parse_decodes hp
  have hcount := h.count
  have hle : V.length ≤ fresh.length := by simpa using hpre.length_le
  by_cases hlt : d.count < fresh.length
  · simp only [Domain.extendTo, if_pos hlt]
    refine ⟨?_, ?_, ?_, ?_, ?_, rfl, by simp, .inl ?_, hroot, hdec.count, by simp⟩
    · simp only [SymDomain.count, length_append, length_replicate, length_map] at hlt ⊢
      omega
    · intro i a ha
      rcases lt_or_ge i d.atoms.length with hi | hi
      · rw [getElem?_append_left hi] at ha
        have hV := h.atoms i a ha
        rw [← getElem?_of_isPrefix hpre (List.getElem?_eq_some_iff.mp hV).1, hV]
      · rw [getElem?_append_right hi, getElem?_replicate] at ha
        split_ifs at ha
        simp at ha
    · intro i hi
      have := (List.getElem?_eq_some_iff.mp hi).1
      simp only [length_append, length_replicate, SymDomain.count, SymDomain.baseCount] at this hlt ⊢
      omega
    · intro i off ho
      rw [getElem?_map, ho]
      rfl
    · simp only [SymDomain.count, SymDomain.baseCount, length_append, length_replicate] at hlt ⊢
      omega
    · show image.length = storedBytes ((fresh.map (recordAt image)).take fresh.length)
      rw [hdec.size, take_of_length_le (by simp)]
  · have hVU : V = fresh.map (recordAt image) := by
      obtain ⟨W, hW⟩ := hpre
      have hlen := congrArg List.length hW
      simp only [length_append, length_map] at hlen
      have : W = [] := length_eq_zero_iff.mp (by omega)
      simpa [this] using hW
    simp only [Domain.extendTo, if_neg hlt]
    rw [← hVU]
    have hlen : V.length = fresh.length := by simp [hVU]
    refine ⟨h.count, h.atoms, h.empty, h.records, h.base, ?_, hlen.ge, .inl ?_, h.root, h.limit, h.index⟩
    · show d.diskCount = fresh.length
      rw [← hclean, hcount, hlen]
    · show image.length = storedBytes (V.take fresh.length)
      rw [← hlen, take_length, hdec.size, ← hVU]

lemma domExtendFromFileLocked_spec (h : Holds d V k) (image : Bytes)
    (hbase : d.count = d.diskCount → d.baseCount = d.count) :
    ∃ ok d', domExtendFromFileLocked d image = some (ok, d') ∧ (ok = false → d' = d) ∧
      (ok = true → ∃ U, decode image = some U ∧ V <+: U ∧ Holds d' U U.length) ∧ (d.count = d.diskCount →
        (ok = true ↔ ∃ U, decode image = some U ∧ V <+: U ∧ (U ≠ [] → U[0]? = some []))) := by
  by_cases hclean : d.count = d.diskCount
  · have hsize : ∀ U, decode image = some U → V <+: U → ¬ image.length < d.diskSize := by
      intro U hU hpre
      have hlen := (decode_decodes hU).size
      have hmono := storedBytes_mono hpre
      have := h.size
      rw [h.take_of_clean hclean] at this
      omega
    by_cases hsmall : image.length < d.diskSize
    · refine ⟨false, d, by simp [domExtendFromFileLocked, hsmall], fun _ => rfl, by simp, fun _ => ?_⟩
      simp only [Bool.false_eq_true, false_iff]
      rintro ⟨U, hU, hpre, -⟩
      exact hsize U hU hpre hsmall
    cases hp : domParseStrlAtoms image with
    | none =>
      refine ⟨false, d, by simp [domExtendFromFileLocked, hsmall, hclean, hp], fun _ => rfl, by simp,
        fun _ => ?_⟩
      simp [decode, hp]
    | some fresh =>
      have hdecode : decode image = some (fresh.map (recordAt image)) := by simp [decode, hp]
      have hsole : ∀ U, decode image = some U → U = fresh.map (recordAt image) := fun U hU =>
        some.inj (hU.symm.trans hdecode)
      by_cases hfew : fresh.length < d.count
      · refine ⟨false, d, by simp [domExtendFromFileLocked, hsmall, hclean, hp, hclean ▸ hfew],
          fun _ => rfl, by simp, fun _ => ?_⟩
        simp only [Bool.false_eq_true, false_iff]
        rintro ⟨U, hU, hpre, -⟩
        have := hpre.length_le
        rw [hsole U hU, length_map, ← h.count] at this
        omega
      by_cases hzero : d.count = 0 ∧ (fresh.head?.elim false fun off => recordAt image off ≠ []) = true
      · refine ⟨false, d, by simp only [domExtendFromFileLocked, if_neg hsmall, ne_eq, hclean,
          not_true_eq_false, if_false, hp, if_neg (hclean ▸ hfew), if_pos (hclean ▸ hzero)],
          fun _ => rfl, by simp, fun _ => ?_⟩
        simp only [Bool.false_eq_true, false_iff]
        rintro ⟨U, hU, -, hroot⟩
        rw [hsole U hU] at hroot
        cases hfr : fresh with
        | nil => simp [hfr] at hzero
        | cons off rest =>
          have hne : recordAt image off ≠ [] := by simpa [hfr] using hzero.2
          exact hne (by simpa [hfr] using hroot)
      have hcmp := comparePrefixes_spec h (hbase hclean) image
        (show V.length ≤ fresh.length by rw [← h.count]; omega) (List.range d.count)
        (by simp [h.count])
      have hroot : V <+: fresh.map (recordAt image) → fresh.map (recordAt image) ≠ [] →
          (fresh.map (recordAt image))[0]? = some [] := by
        intro hpre hne
        cases hV : V with
        | nil =>
          have h0 : d.count = 0 := by simp [h.count, hV]
          cases hfr : fresh with
          | nil => simp [hfr] at hne
          | cons off rest => simpa [hfr, h0] using hzero
        | cons v V' =>
          rw [← getElem?_of_isPrefix hpre (by simp [hV])]
          exact h.root (by simp [hV])
      have hiff : (∀ i ∈ List.range d.count, V[i]? = (fresh.map (recordAt image))[i]?) ↔
          V <+: fresh.map (recordAt image) := by
        rw [h.count] at hfew ⊢
        constructor
        · intro hall
          exact isPrefix_of_getElem? fun i hi => hall i (by simpa using hi)
        · intro hpre i hi
          exact getElem?_of_isPrefix hpre (by simpa using hi)
      have heval : domExtendFromFileLocked d image = if V <+: fresh.map (recordAt image) then
          some (true, extendTo d image fresh) else some (false, d) := by
        simp only [domExtendFromFileLocked, if_neg hsmall, ne_eq, hclean, not_true_eq_false, if_false,
          hp, if_neg (hclean ▸ hfew), if_neg (hclean ▸ hzero), hclean ▸ hcmp, bind_eq_bind,
          bind_some, hclean ▸ hiff, decide_eq_true_eq, Option.pure_def]
      by_cases hpre : V <+: fresh.map (recordAt image)
      · have hh := h.extendTo hclean hp hpre (hroot hpre)
        refine ⟨true, extendTo d image fresh, by rw [heval, if_pos hpre], by simp,
          fun _ => ⟨_, hdecode, hpre, by simpa using hh⟩, fun _ => ?_⟩
        simp only [true_iff]
        exact ⟨_, hdecode, hpre, hroot hpre⟩
      · refine ⟨false, d, by rw [heval, if_neg hpre], fun _ => rfl, by simp, fun _ => ?_⟩
        simp only [Bool.false_eq_true, false_iff]
        rintro ⟨U, hU, hpre', -⟩
        exact hpre (hsole U hU ▸ hpre')
  · refine ⟨false, d, ?_, fun _ => rfl, by simp, fun hc => absurd hc hclean⟩
    by_cases hsmall : image.length < d.diskSize
    · simp [domExtendFromFileLocked, hsmall]
    · simp [domExtendFromFileLocked, hsmall, hclean]

lemma domCreate_spec (h : domCreate image = some d) : ∃ U, decode image = some U ∧ Holds d U U.length := by
  cases hp : domParseStrlAtoms image with
  | none => simp [domCreate, hp] at h
  | some offs =>
    simp only [domCreate, hp] at h
    split_ifs at h with hroot
    obtain rfl := some.inj h
    have hdec := parse_decodes hp
    refine ⟨_, by simp [decode, hp], ⟨?_, ?_, ?_, ?_, ?_, by simp, le_rfl, .inl ?_, ?_, hdec.count,
      by simp⟩⟩
    · simp [SymDomain.count]
    · intro i a ha
      rw [getElem?_replicate] at ha
      split_ifs at ha
      simp at ha
    · intro i hi
      simpa [SymDomain.baseCount] using (List.getElem?_eq_some_iff.mp hi).1
    · intro i off ho
      rw [getElem?_map, ho]
      rfl
    · simp [SymDomain.count, SymDomain.baseCount]
    · rw [take_length, hdec.size]
    · intro hne
      cases hoffs : offs with
      | nil => simp [hoffs] at hne
      | cons off rest => simpa [hoffs] using hroot

lemma emptyDomain_holds : Holds emptyDomain [] 0 := by
  refine ⟨rfl, ?_, ?_, ?_, le_rfl, rfl, le_rfl, .inr ⟨rfl, rfl⟩, by simp, by simp, ?_⟩ <;>
    simp [emptyDomain]

def vocabOf (file : Option Bytes) : Option (List Bytes) :=
  match file with
  | none => some []
  | some image => if image = [] then some [] else decode image

def Persisted (file : Option Bytes) (V : List Bytes) (k : ℕ) : Prop :=
  0 < k → ∃ image U, file = some image ∧ decode image = some U ∧ V.take k <+: U

lemma vocabOf_of_decode (h : decode image = some U) : vocabOf (some image) = some U := by
  have hne : image ≠ [] := by
    rintro rfl
    simp [decode, domParseStrlAtoms] at h
  simp [vocabOf, hne, h]

lemma verifyBase_spec (h : Holds d V k) (hp : Persisted file V k)
    (hv : verifyBase file d = true) : vocabOf file = some (V.take k) := by
  have hk := h.stored
  by_cases h0 : k = 0
  · cases file with
    | none => simp [vocabOf, h0]
    | some image =>
      have : image = [] := by simpa [verifyBase, hk, h0] using hv
      simp [vocabOf, h0, this]
  · obtain ⟨image, U, rfl, hU, hpre⟩ := hp (by omega)
    have hhead := (decode_decodes hU).header
    simp only [verifyBase, hk, if_neg h0, decide_eq_true_eq] at hv
    have hlen : U.length = k := by
      have := hhead.symm.trans hv.2.2.2
      exact_mod_cast this
    have hdisk := h.disk
    rw [vocabOf_of_decode hU, hpre.eq_of_length (by rw [hlen, length_take]; omega)]

lemma raySymDomainFlush_spec (h : Holds d V k) (hp : Persisted file V k) :
    ∃ err file' d', raySymDomainFlush file d = some (err, file', d') ∧
      ((file' = file ∧ Holds d' V k ∧ (err = .ok → d' = d ∧ d.count = d.diskCount)) ∨
        (err = .ok ∧ file' = some (strlFile V) ∧ decode (strlFile V) = some V ∧ Holds d' V V.length ∧
          ∃ U, vocabOf file = some U ∧ U <+: V)) := by
  by_cases hclean : d.count = d.diskCount
  · exact ⟨.ok, file, d, by simp [raySymDomainFlush, hclean], .inl ⟨rfl, h, fun _ => ⟨rfl, hclean⟩⟩⟩
  · obtain ⟨d1, hm, hh⟩ := materialize_spec h
    simp only [raySymDomainFlush, if_neg hclean, hm, bind_eq_bind, bind_some]
    cases hv : verifyBase file d1 with
    | false => exact ⟨.corrupt, file, d1, rfl, .inl ⟨rfl, hh, by simp⟩⟩
    | true =>
      by_cases hlong : (V.any fun s => decide (2 ^ 32 ≤ s.length)) = true
      · exact ⟨.range, file, d1, by simp only [hlong]; rfl, .inl ⟨rfl, hh, by simp⟩⟩
      · have hshort : ∀ s ∈ V, s.length < 2 ^ 32 := by
          intro s hs
          by_contra hge
          exact hlong (any_eq_true.mpr ⟨s, hs, by simpa using hge⟩)
        refine ⟨.ok, some (strlFile V), { d1 with diskCount := d1.count, diskSize := (strlFile V).length },
          by simp only [hlong]; rfl, .inr ⟨rfl, rfl, decode_strlFile h.limit hshort,
            ⟨hh.count, hh.atoms, hh.empty, hh.records, hh.base, hh.count, le_rfl, .inl ?_,
              hh.root, hh.limit, hh.index⟩,
            _, verifyBase_spec hh hp hv, take_prefix _ _⟩⟩
        rw [take_length]
        exact Symbol.strlFile_length V

section

structure World where
  file : Option Bytes
  procs : Bool → Option SymDomain

inductive Op
  | openFile (create : Bool)
  | find (s : Bytes)
  | intern (s : Bytes)
  | str (pos : ℕ)
  | flush

inductive Outcome
  | opened (ok : Bool)
  | position (pos : Option ℕ)
  | text (s : Option Bytes)
  | flushed (err : FlushErr)
  | noDomain
deriving DecidableEq

namespace World

def set (w : World) (p : Bool) (d : Option SymDomain) : World := { w with procs := Function.update w.procs p d }

end World

def step (w : World) (p : Bool) : Op → Option (Outcome × World)
  | .openFile create =>
    (domOpenImpl w.file (w.procs p) create).map fun (ok, d) => (.opened ok, w.set p d)
  | .find s => (w.procs p).elim (some (.noDomain, w)) fun d =>
    (raySymDomainFind d s).map fun (pos, d) => (.position pos, w.set p (some d))
  | .intern s => (w.procs p).elim (some (.noDomain, w)) fun d =>
    (raySymDomainIntern d s).map fun (pos, d) => (.position pos, w.set p (some d))
  | .str pos => (w.procs p).elim (some (.noDomain, w)) fun d =>
    (raySymDomainStr d pos).map fun (s, d) => (.text s, w.set p (some d))
  | .flush => (w.procs p).elim (some (.noDomain, w)) fun d =>
    (raySymDomainFlush w.file d).map fun (err, file, d) =>
      (.flushed err, { (w.set p (some d)) with file := file })

def StepOk (w : World) (p : Bool) : Op → Prop
  | .openFile _ => ∀ d, w.procs p = some d → w.file.elim 0 List.length ≠ d.diskSize →
      d.count = d.diskCount → d.baseCount = d.count
  | _ => True

def Runs : World → World → Prop :=
  Relation.ReflTransGen fun w w' => ∃ p op out, step w p op = some (out, w')

def RunsOk : World → World → Prop :=
  Relation.ReflTransGen fun w w' => ∃ p op out, StepOk w p op ∧ step w p op = some (out, w')

def start (file : Option Bytes) : World := ⟨file, fun _ => none⟩

def strOf (d : SymDomain) (pos : ℕ) : Option Bytes := (raySymDomainStr d pos).bind Prod.fst

def vocab (d : SymDomain) : List Bytes := (List.range d.count).map fun i => (strOf d i).getD []

def Distinct (file : Option Bytes) : Prop := ∀ image U, file = some image → decode image = some U → U.Nodup

structure Inv (distinct : Prop) (w : World) : Prop where
  holds : ∀ p d, w.procs p = some d → ∃ V k, Holds d V k ∧ Persisted w.file V k ∧ (distinct → V.Nodup)
  file : distinct → Distinct w.file

def Grows (w w' : World) : Prop := ∀ q d V k, w.procs q = some d → Holds d V k →
  ∃ d' V' k', w'.procs q = some d' ∧ Holds d' V' k' ∧ V <+: V'

variable {D : Prop} {w w' : World} {p : Bool} {op : Op}

lemma Grows.refl (w : World) : Grows w w := fun _ d V k hd hh => ⟨d, V, k, hd, hh, prefix_refl _⟩

lemma Grows.trans {w1 w2 w3 : World} (h1 : Grows w1 w2) (h2 : Grows w2 w3) : Grows w1 w3 := by
  intro q d V k hd hh
  obtain ⟨d', V', k', hd', hh', hpre⟩ := h1 q d V k hd hh
  obtain ⟨d'', V'', k'', hd'', hh'', hpre'⟩ := h2 q d' V' k' hd' hh'
  exact ⟨d'', V'', k'', hd'', hh'', hpre.trans hpre'⟩

lemma Grows.set (h : Holds d' V' k') (hpre : ∀ d V k, w.procs p = some d → Holds d V k → V <+: V') :
    Grows w { w.set p (some d') with file := file } := by
  intro q d V k hd hh
  by_cases hq : q = p
  · subst hq
    exact ⟨d', V', k', by simp [World.set], h, hpre d V k hd hh⟩
  · exact ⟨d, V, k, by simpa [World.set, hq] using hd, hh, prefix_refl _⟩

section

variable (hinv : Inv D w)
include hinv

lemma Inv.set (h : Holds d' V' k') (hp : Persisted w.file V' k') (hn : D → V'.Nodup) :
    Inv D (w.set p (some d')) := by
  refine ⟨?_, hinv.file⟩
  intro q d hd
  by_cases hq : q = p
  · subst hq
    obtain rfl : d' = d := by simpa [World.set] using hd
    exact ⟨V', k', h, hp, hn⟩
  · exact hinv.holds q d (by simpa [World.set, hq] using hd)

lemma Inv.append (hd : w.procs p = some d) (hh : Holds d V k) {W : List Bytes}
    (h : Holds d' (V ++ W) k) (hn : V.Nodup → (V ++ W).Nodup) :
      Inv D (w.set p (some d')) ∧ Grows w (w.set p (some d')) := by
  obtain ⟨V1, k1, hh1, hp, hnd⟩ := hinv.holds p d hd
  obtain rfl := hh.unique hh1
  obtain rfl : k = k1 := hh.stored.symm.trans hh1.stored
  refine ⟨hinv.set h ?_ fun hD => hn (hnd hD), Grows.set h ?_⟩
  · intro hk
    obtain ⟨image, U, hf, hU, hpre⟩ := hp hk
    exact ⟨image, U, hf, hU, by rwa [take_append_of_le_length hh.disk]⟩
  · intro d2 V2 k2 hd2 hh2
    obtain rfl : d = d2 := some.inj (hd.symm.trans hd2)
    rw [hh2.unique hh]
    exact prefix_append _ _

lemma domOpenImpl_spec (create : Bool) (hok : StepOk w p (.openFile create)) :
    ∃ ok d', domOpenImpl w.file (w.procs p) create = some (ok, d') ∧ (d' = w.procs p ∨
      ∃ d2 U k2, d' = some d2 ∧ Holds d2 U k2 ∧ Persisted w.file U k2 ∧ (D → U.Nodup) ∧
        ∀ d V k, w.procs p = some d → Holds d V k → V <+: U) := by
  have hfile : ∀ (image : Bytes) (U : List Bytes), w.file = some image → decode image = some U →
      Persisted w.file U U.length ∧ (D → U.Nodup) := fun image U hf hU =>
    ⟨fun _ => ⟨image, U, hf, hU, by simp⟩, fun hD => hinv.file hD image U hf hU⟩
  by_cases hmiss : w.file = none ∧ create = false
  · exact ⟨false, w.procs p, by simp [domOpenImpl, hmiss], .inl rfl⟩
  cases hd : w.procs p with
  | some d =>
    obtain ⟨V, k, hh, -, -⟩ := hinv.holds p d hd
    by_cases hsame : w.file.elim 0 length = d.diskSize
    · exact ⟨true, some d, by simp only [domOpenImpl, if_neg hmiss, if_pos hsame], .inl rfl⟩
    · obtain ⟨ok, d2, hext, hfail, hgood, -⟩ :=
        domExtendFromFileLocked_spec hh (w.file.getD []) (hok d hd hsame)
      refine ⟨ok, some d2, by simp only [domOpenImpl, if_neg hmiss, if_neg hsame, hext]; rfl, ?_⟩
      cases ok with
      | false => exact .inl (by rw [hfail rfl])
      | true =>
        obtain ⟨U, hU, hpre, hh2⟩ := hgood rfl
        have hf : w.file = some (w.file.getD []) := by
          cases hf : w.file with
          | none => simp [hf, decode, domParseStrlAtoms] at hU
          | some image => rfl
        obtain ⟨hp, hn⟩ := hfile _ U hf hU
        refine .inr ⟨d2, U, U.length, rfl, hh2, hp, hn, ?_⟩
        intro d3 V3 k3 hd3 hh3
        obtain rfl : d = d3 := some.inj hd3
        rw [hh3.unique hh]
        exact hpre
  | none =>
    cases hf : w.file with
    | none =>
      refine ⟨true, some emptyDomain, ?_, .inr ⟨_, [], 0, rfl, emptyDomain_holds, ?_, by simp, by simp⟩⟩
      · have hcreate : create = true := by simpa [hf] using hmiss
        simp [domOpenImpl, hcreate]
      · intro h0
        omega
    | some image =>
      refine ⟨(domCreate image).isSome, domCreate image, by simp [domOpenImpl], ?_⟩
      cases hc : domCreate image with
      | none => exact .inl rfl
      | some d2 =>
        obtain ⟨U, hU, hh2⟩ := domCreate_spec hc
        obtain ⟨hp, hn⟩ := hfile image U hf hU
        exact .inr ⟨d2, U, U.length, rfl, hh2, hf ▸ hp, hn, by simp⟩

lemma Inv.flush (h : Holds d' V V.length) (hdec : decode (strlFile V) = some V) (hU : vocabOf w.file = some U)
    (hpre : U <+: V) (hn : D → V.Nodup) :
    Inv D { w.set p (some d') with file := some (strlFile V) } := by
  have hsole : ∀ image W, some (strlFile V) = some image → decode image = some W → W = V := by
    rintro image W ⟨⟩ hW
    exact some.inj (hW.symm.trans hdec)
  refine ⟨?_, ?_⟩
  · intro q d hd
    by_cases hq : q = p
    · subst hq
      obtain rfl : d' = d := by simpa [World.set] using hd
      exact ⟨V, V.length, h, fun _ => ⟨_, V, rfl, hdec, by simp⟩, hn⟩
    · obtain ⟨Vq, kq, hh, hp, hnq⟩ := hinv.holds q d (by simpa [World.set, hq] using hd)
      refine ⟨Vq, kq, hh, ?_, hnq⟩
      intro hk
      obtain ⟨image, Uq, hf, hUq, hpq⟩ := hp hk
      rw [hf, vocabOf_of_decode hUq] at hU
      obtain rfl := some.inj hU
      exact ⟨_, V, rfl, hdec, hpq.trans hpre⟩
  · intro hD image W hf hW
    rw [hsole image W hf hW]
    exact hn hD

lemma step_spec (hok : StepOk w p op) : ∃ out w', step w p op = some (out, w') ∧ Inv D w' ∧ Grows w w' := by
  cases op with
  | openFile create =>
    obtain ⟨ok, d', hopen, rfl | ⟨d2, U, k2, rfl, hh2, hp, hn, hpre⟩⟩ := domOpenImpl_spec hinv create hok
    · refine ⟨.opened ok, w, ?_, hinv, .refl w⟩
      simp [step, hopen, World.set, update_eq_self]
    · exact ⟨.opened ok, w.set p (some d2), by simp [step, hopen], hinv.set hh2 hp hn, Grows.set hh2 hpre⟩
  | find s =>
    cases hd : w.procs p with
    | none => exact ⟨.noDomain, w, by simp [step, hd], hinv, .refl w⟩
    | some d =>
      obtain ⟨V, k, hh, -, -⟩ := hinv.holds p d hd
      obtain ⟨r, d', hf, hh', -, -⟩ := raySymDomainFind_spec hh s
      exact ⟨.position r, w.set p (some d'), by simp [step, hd, hf],
        hinv.append hd hh (W := []) (by simpa using hh') (by simp)⟩
  | intern s =>
    cases hd : w.procs p with
    | none => exact ⟨.noDomain, w, by simp [step, hd], hinv, .refl w⟩
    | some d =>
      obtain ⟨V, k, hh, -, -⟩ := hinv.holds p d hd
      obtain ⟨r, d', W, hi, hh', -, hn⟩ := raySymDomainIntern_spec hh s
      exact ⟨.position r, w.set p (some d'), by simp [step, hd, hi], hinv.append hd hh hh' hn⟩
  | str pos =>
    cases hd : w.procs p with
    | none => exact ⟨.noDomain, w, by simp [step, hd], hinv, .refl w⟩
    | some d =>
      obtain ⟨V, k, hh, -, -⟩ := hinv.holds p d hd
      obtain ⟨d', hs, hh'⟩ := raySymDomainStr_spec hh pos
      exact ⟨.text V[pos]?, w.set p (some d'), by simp [step, hd, hs],
        hinv.append hd hh (W := []) (by simpa using hh') (by simp)⟩
  | flush =>
    cases hd : w.procs p with
    | none => exact ⟨.noDomain, w, by simp [step, hd], hinv, .refl w⟩
    | some d =>
      obtain ⟨V, k, hh, hp, hn⟩ := hinv.holds p d hd
      have hsame : ∀ d2 V2 k2, w.procs p = some d2 → Holds d2 V2 k2 → V2 <+: V := by
        intro d2 V2 k2 hd2 hh2
        obtain rfl : d = d2 := some.inj (hd.symm.trans hd2)
        rw [hh2.unique hh]
      obtain ⟨err, file', d', hfl, ⟨rfl, hh', -⟩ | ⟨rfl, rfl, hdec, hh', U, hU, hpre⟩⟩ :=
        raySymDomainFlush_spec hh hp
      · exact ⟨.flushed err, w.set p (some d'), by simp [step, hd, hfl, World.set], hinv.set hh' hp hn,
          Grows.set hh' hsame⟩
      · exact ⟨.flushed .ok, _, by simp only [step, hd, elim_some, hfl, map_some], hinv.flush hh' hdec hU hpre hn,
          Grows.set hh' hsame⟩

lemma runsOk_spec (hrun : RunsOk w w') : Inv D w' ∧ Grows w w' := by
  induction hrun with
  | refl => exact ⟨hinv, .refl w⟩
  | tail _ hstep ih =>
    obtain ⟨hinv', hgrows⟩ := ih
    obtain ⟨p, op, out, hok, hs⟩ := hstep
    obtain ⟨out', w2, hs', hinv2, hgrows2⟩ := step_spec hinv' hok
    obtain ⟨-, rfl⟩ := Prod.mk.inj (some.inj (hs.symm.trans hs'))
    exact ⟨hinv2, hgrows.trans hgrows2⟩

end

lemma start_inv (file : Option Bytes) : Inv (Distinct file) (start file) :=
  ⟨by simp [start], id⟩

lemma Holds.strOf (h : Holds d V k) (i : ℕ) : strOf d i = V[i]? := by
  obtain ⟨d', hs, -⟩ := raySymDomainStr_spec h i
  simp [Domain.strOf, hs]

lemma Holds.vocab (h : Holds d V k) : vocab d = V := by
  apply ext_getElem?
  intro i
  rw [Domain.vocab, getElem?_map, h.count]
  rcases lt_or_ge i V.length with hi | hi
  · rw [getElem?_range hi, map_some, h.strOf, getElem?_eq_getElem hi]
    rfl
  · rw [getElem?_eq_none (by simpa using hi), getElem?_eq_none hi]
    rfl

lemma set_self (hd : w.procs p = some d) : w.set p (some d) = w := by
  rw [World.set, ← hd, update_eq_self]

/-- In every interleaving positions are permanent, and an extension accepts just the files that continue its
vocabulary. -/
theorem symbol_file_shared_by_two_processes {file : Option Bytes} {w : World}
    (hrun : RunsOk (start file) w) :
    (∀ p op, StepOk w p op → (step w p op).isSome) ∧
    ∀ p d, w.procs p = some d → ((∀ i, strOf d i = (vocab d)[i]?) ∧ (vocab d ≠ [] → strOf d 0 = some []) ∧
        (Distinct file → (vocab d).Nodup) ∧
        ∀ w', RunsOk w w' → ∃ d', w'.procs p = some d' ∧ vocab d <+: vocab d') ∧
      (∀ s pos w', step w p (.find s) = some (.position (some pos), w') ∨
          step w p (.intern s) = some (.position (some pos), w') →
        ∃ d', w'.procs p = some d' ∧ strOf d' pos = some s) ∧
      (∀ w', step w p .flush = some (.flushed .ok, w') → d.count = d.diskCount ∧ w' = w ∨
        vocabOf w'.file = some (vocab d) ∧ ∃ U, vocabOf w.file = some U ∧ U <+: vocab d) ∧
      ∀ image create, w.file = some image → image.length ≠ d.diskSize → d.count = d.diskCount →
        d.baseCount = d.count → ∃ ok w', step w p (.openFile create) = some (.opened ok, w') ∧
          (ok = true ↔ ∃ U, decode image = some U ∧ vocab d <+: U ∧ (U ≠ [] → U[0]? = some [])) := by
  obtain ⟨hinv, -⟩ := runsOk_spec (start_inv file) hrun
  refine ⟨?_, ?_⟩
  · intro p op hok
    obtain ⟨out, w', hs, -⟩ := step_spec hinv hok
    simp [hs]
  · intro p d hd
    obtain ⟨V, k, hh, hp, hn⟩ := hinv.holds p d hd
    rw [hh.vocab]
    refine ⟨⟨hh.strOf, fun hV => by rw [hh.strOf, hh.root hV], hn, ?_⟩, ?_, ?_, ?_⟩
    · intro w' hrun'
      obtain ⟨-, hgrows⟩ := runsOk_spec hinv hrun'
      obtain ⟨d', V', k', hd', hh', hpre⟩ := hgrows p d V k hd hh
      exact ⟨d', hd', by rwa [hh'.vocab]⟩
    · rintro s pos w' (hf | hi)
      · obtain ⟨r, d', hfind, hh', hsome, -⟩ := raySymDomainFind_spec hh s
        simp only [step, hd, elim_some, hfind, map_some, some.injEq, Prod.mk.injEq,
          Outcome.position.injEq] at hf
        obtain ⟨rfl, rfl⟩ := hf
        exact ⟨d', by simp [World.set], by rw [hh'.strOf, hsome pos rfl]⟩
      · obtain ⟨r, d', W, hint, hh', hsome, -⟩ := raySymDomainIntern_spec hh s
        simp only [step, hd, elim_some, hint, map_some, some.injEq, Prod.mk.injEq,
          Outcome.position.injEq] at hi
        obtain ⟨rfl, rfl⟩ := hi
        exact ⟨d', by simp [World.set], by rw [hh'.strOf, hsome pos rfl]⟩
    · intro w' hfl
      obtain ⟨err, file', d', hflush, hcase⟩ := raySymDomainFlush_spec hh hp
      simp only [step, hd, elim_some, hflush, map_some, some.injEq, Prod.mk.injEq,
        Outcome.flushed.injEq] at hfl
      obtain ⟨rfl, rfl⟩ := hfl
      rcases hcase with ⟨rfl, -, hsame⟩ | ⟨-, rfl, hdec, -, hprev⟩
      · obtain ⟨rfl, hclean⟩ := hsame rfl
        exact .inl ⟨hclean, set_self hd⟩
      · exact .inr ⟨vocabOf_of_decode hdec, hprev⟩
    · intro image create hf hsize hclean hbase
      obtain ⟨ok, d', hext, -, -, hiff⟩ := domExtendFromFileLocked_spec hh image fun _ => hbase
      refine ⟨ok, w.set p (some d'), ?_, hiff hclean⟩
      simp [step, domOpenImpl, hd, hf, hsize, hext]

def runAll (w : World) : List (Bool × Op) → Option World
  | [] => some w
  | (p, op) :: ops => (step w p op).bind fun r => runAll r.2 ops

lemma runAll_runs (h : runAll w ops = some w') : Runs w w' := by
  induction ops generalizing w with
  | nil =>
    obtain rfl := some.inj h
    exact .refl
  | cons o ops ih =>
    obtain ⟨⟨out, w1⟩, hs, hrest⟩ := bind_eq_some_iff.mp h
    exact .head ⟨o.1, o.2, out, hs⟩ (ih hrest)

lemma runAll_runsOk (hops : ∀ o ∈ ops, ∀ create, o.2 ≠ .openFile create) (h : runAll w ops = some w') :
    RunsOk w w' := by
  induction ops generalizing w with
  | nil =>
    obtain rfl := some.inj h
    exact .refl
  | cons o ops ih =>
    obtain ⟨⟨out, w1⟩, hs, hrest⟩ := bind_eq_some_iff.mp h
    refine .head ⟨o.1, o.2, out, ?_, hs⟩ (ih (fun x hx => hops x (by simp [hx])) hrest)
    cases ho : o.2 with
    | openFile create => exact absurd ho (hops o (by simp) create)
    | _ => trivial

def grown : List (Bool × Op) := [(false, .openFile true), (false, .intern [97]), (false, .flush),
  (true, .openFile false), (true, .intern [98]), (true, .flush)]

theorem created_file_shared_by_two_processes : ∃ w d, RunsOk (start none) w ∧ w.procs false = some d ∧
    vocab d = [[], [97]] ∧ ∀ w', RunsOk w w' → ∃ d', w'.procs false = some d' ∧ vocab d <+: vocab d' := by
  have h : ((step (start none) false (.openFile true)).bind fun r =>
      (runAll r.2 [(false, .intern [97]), (false, .flush)]).bind fun w => (w.procs false).map vocab) =
      some [[], [97]] := by decide +kernel
  obtain ⟨⟨out, w1⟩, hopen, h⟩ := bind_eq_some_iff.mp h
  obtain ⟨w, hrest, h⟩ := bind_eq_some_iff.mp h
  obtain ⟨d, hd, hv⟩ := map_eq_some_iff.mp h
  have hrun : RunsOk (start none) w := .head ⟨false, .openFile true, out, by simp [StepOk, start], hopen⟩
    (runAll_runsOk (by simp) hrest)
  exact ⟨w, d, hrun, hd, hv, ((symbol_file_shared_by_two_processes hrun).2 false d hd).1.2.2.2⟩

/-- Opening the grown file again reads offsets that do not exist. -/
theorem reopen_after_own_flush_faults : ∃ w d U, Runs (start none) w ∧ w.procs false = some d ∧
    d.count = d.diskCount ∧ vocabOf w.file = some U ∧ vocab d <+: U ∧
    step w false (.openFile false) = none := by
  have h : ((runAll (start none) grown).bind fun w => (w.procs false).bind fun d =>
      (vocabOf w.file).map fun U => (decide (d.count = d.diskCount), vocab d, U,
        (step w false (.openFile false)).isNone)) =
      some (true, [[], [97]], [[], [97], [98]], true) := by decide +kernel
  obtain ⟨w, hrun, h⟩ := bind_eq_some_iff.mp h
  obtain ⟨d, hd, h⟩ := bind_eq_some_iff.mp h
  obtain ⟨U, hU, h⟩ := map_eq_some_iff.mp h
  simp only [Prod.mk.injEq, decide_eq_true_eq, isNone_iff_eq_none] at h
  obtain ⟨hclean, hv, rfl, hstep⟩ := h
  exact ⟨w, d, _, runAll_runs hrun, hd, hclean, hU, by rw [hv]; exact ⟨[[98]], rfl⟩, hstep⟩

end

end Rayforce.Domain
