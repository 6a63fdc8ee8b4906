import Rayforce.Domain.Sharing
import Rayforce.Splay.Steps

namespace Rayforce.Splay

open Library.Words Library.Files List Option
open Rayforce.Store (Obj SymVec)
open Rayforce.Domain (SymDomain Holds Persisted vocabOf decode)
open Rayforce.Symbol (strlFile)

variable {file file' : Option Bytes} {cached : Option SymDomain} {d d' : SymDomain} {V U base : List Bytes}
    {k : ℕ} {sym : Loc}
  {tbl : List Column} {disk disk' : Disk Loc}
variable {image : Bytes} {dom : Option (List Bytes)}

def Current (file : Option Bytes) (d : SymDomain) : Prop := ∃ V k, Holds d V k ∧ Persisted file V k

def CurrentFrom (base : List Bytes) (file : Option Bytes) (d : SymDomain) : Prop :=
  ∃ V k, Holds d V k ∧ Persisted file V k ∧ base <+: V

lemma CurrentFrom.current (h : CurrentFrom base file d) : Current file d := by
  obtain ⟨V, k, hh, hp, -⟩ := h
  exact ⟨V, k, hh, hp⟩

lemma comparePrefixes_reads {fresh is : List ℕ} (h : Domain.comparePrefixes d image fresh is = some true) :
    ∀ i ∈ is, i < d.baseCount := by
  induction is with
  | nil => simp
  | cons i is ih =>
    rw [Domain.comparePrefixes] at h
    obtain ⟨old, hold, h⟩ := bind_eq_some_iff.mp h
    obtain ⟨new, hnew, h⟩ := bind_eq_some_iff.mp h
    have hi : i < d.baseCount := (List.getElem?_eq_some_iff.mp hold).1
    split_ifs at h
    · rw [forall_mem_cons]
      exact ⟨hi, ih h⟩
    · cases h

lemma extend_base (hh : Holds d V k) (h : Domain.domExtendFromFileLocked d image = some (true, d')) :
    d.baseCount = d.count := by
  rw [Domain.domExtendFromFileLocked] at h
  split_ifs at h
  · cases h
  · cases h
  · split at h
    · cases h
    · split_ifs at h
      · cases h
      · cases h
      · obtain ⟨same, hsame, h⟩ := bind_eq_some_iff.mp h
        cases same with
        | false => cases h
        | true =>
          refine le_antisymm hh.base (not_lt.mp fun hlt => ?_)
          exact lt_irrefl _ (comparePrefixes_reads hsame d.baseCount (mem_range.mpr hlt))

lemma openDomain_current (hc : ∀ d, cached = some d → Current file d)
    (hbase : base = [] ∨ ∃ d V k, cached = some d ∧ Holds d V k ∧ base <+: V)
    (h : openDomain file cached = .ok d) : CurrentFrom base file d := by
  rw [openDomain] at h
  split at h
  · cases h
  · rename_i d2 hopen
    cases h
    have hinv : Domain.Inv False ⟨file, fun _ => cached⟩ := by
      refine ⟨fun _ d0 hd0 => ?_, False.elim⟩
      obtain ⟨V, k, hh, hp⟩ := hc d0 hd0
      exact ⟨V, k, hh, hp, False.elim⟩
    have hok : Domain.StepOk ⟨file, fun _ => cached⟩ true (.openFile true) := by
      intro d0 hd0 hsize hclean
      obtain rfl : cached = some d0 := hd0
      obtain ⟨V, k, hh, -⟩ := hc d0 rfl
      rw [Domain.domOpenImpl, if_neg (by simp)] at hopen
      dsimp only at hopen
      rw [if_neg hsize] at hopen
      obtain ⟨⟨ok, d3⟩, hext, heq⟩ := map_eq_some_iff.mp hopen
      obtain rfl : ok = true := (Prod.mk.inj heq).1
      exact extend_base hh hext
    obtain ⟨ok, d', hopen', hcase⟩ := Domain.domOpenImpl_spec hinv true hok
    obtain ⟨-, rfl⟩ := Prod.mk.inj (some.inj (hopen.symm.trans hopen'))
    rcases hcase with hsame | ⟨d3, U, k, hd3, hh, hp, -, hgrows⟩
    · obtain ⟨V, k, hh, hp⟩ := hc d hsame.symm
      refine ⟨V, k, hh, hp, ?_⟩
      rcases hbase with rfl | ⟨d0, V0, k0, hd0, hh0, hpre⟩
      · exact nil_prefix
      · obtain rfl := some.inj (hsame.trans hd0)
        rwa [hh.unique hh0]
    · obtain rfl := some.inj hd3
      refine ⟨U, k, hh, hp, ?_⟩
      rcases hbase with rfl | ⟨d0, V0, k0, hd0, hh0, hpre⟩
      · exact nil_prefix
      · exact hpre.trans (hgrows d0 V0 k0 hd0 hh0)
  · cases h

lemma internCell_current {s : Bytes} (hc : CurrentFrom base file d) (h : internCell d s = .ok d') :
    ∃ V k, Holds d' V k ∧ Persisted file V k ∧ base <+: V ∧ V ≠ [] := by
  obtain ⟨V, k, hh, hp, hpre⟩ := hc
  obtain ⟨r, d1, W, hint, hh', hsome, -⟩ := Domain.raySymDomainIntern_spec hh s
  rw [internCell, hint] at h
  cases r with
  | none => cases h
  | some pos =>
    cases h
    refine ⟨V ++ W, k, hh', fun hk => ?_, hpre.trans (prefix_append V W), ?_⟩
    · obtain ⟨image, U, hf, hU, htake⟩ := hp hk
      exact ⟨image, U, hf, hU, by rwa [take_append_of_le_length hh.disk]⟩
    · intro hnil
      rw [hnil] at hsome
      cases hsome pos rfl

lemma foldlM_invariant {α : Type} {P : SymDomain → Prop} {f : SymDomain → α → Except Stop SymDomain}
    (hf : ∀ d a d', P d → f d a = .ok d' → P d') {l : List α} (hd : P d) (h : l.foldlM f d = .ok d') : P d' := by
  induction l generalizing d with
  | nil =>
    cases h
    exact hd
  | cons a l ih =>
    rw [foldlM_cons] at h
    cases ha : f d a with
    | error e =>
      rw [ha] at h
      cases h
    | ok d1 =>
      rw [ha] at h
      exact ih (hf d a d1 hd ha) h

lemma mergeColumn_current {c : Column} (hc : CurrentFrom base file d) (h : mergeColumn d c = .ok d') :
    CurrentFrom base file d' := by
  rw [mergeColumn] at h
  split at h
  · cases h
    exact hc
  · split_ifs at h
    · cases h
      exact hc
    · refine foldlM_invariant (fun d0 i d1 hc0 h0 => ?_) hc h
      cases hs : cellStr _ _ i with
      | error e =>
        rw [hs] at h0
        cases h0
      | ok s =>
        rw [hs] at h0
        obtain ⟨V, k, hh, hp, hpre, -⟩ := internCell_current hc0 h0
        exact ⟨V, k, hh, hp, hpre⟩

lemma mergeVocabulary_current (hc : ∀ d, cached = some d → Current file d)
    (hbase : base = [] ∨ ∃ d V k, cached = some d ∧ Holds d V k ∧ base <+: V)
    (h : mergeVocabulary file cached tbl = .ok d) :
      ∃ V k, Holds d V k ∧ Persisted file V k ∧ base <+: V ∧ V ≠ [] := by
  rw [mergeVocabulary] at h
  cases hopen : openDomain file cached with
  | error e =>
    rw [hopen] at h
    cases h
  | ok d0 =>
    rw [hopen] at h
    replace h : (seedDomain d0).bind (tbl.foldlM mergeColumn) = .ok d := h
    have hc0 := openDomain_current hc hbase hopen
    cases hseed : seedDomain d0 with
    | error e =>
      rw [hseed] at h
      cases h
    | ok d1 =>
      rw [hseed] at h
      obtain ⟨V1, k1, hh1, hp1, hpre1, hne1⟩ : ∃ V k, Holds d1 V k ∧ Persisted file V k ∧ base <+: V ∧ V ≠ [] := by
        rw [seedDomain] at hseed
        split_ifs at hseed with hzero
        · exact internCell_current hc0 hseed
        · cases hseed
          obtain ⟨V, k, hh, hp, hpre⟩ := hc0
          refine ⟨V, k, hh, hp, hpre, ?_⟩
          rintro rfl
          exact hzero hh.count
      obtain ⟨V, k, hh, hp, hpre⟩ :=
        foldlM_invariant (P := CurrentFrom V1 file) (fun _ _ _ hc h => mergeColumn_current hc h)
        ⟨V1, k1, hh1, hp1, prefix_rfl⟩ h
      refine ⟨V, k, hh, hp, hpre1.trans hpre, ?_⟩
      rintro rfl
      exact hne1 (prefix_nil.mp hpre)

def Grown (file file' : Option Bytes) : Prop :=
  ∃ V U, file' = some (strlFile V) ∧ decode (strlFile V) = some V ∧ (V ≠ [] → V[0]? = some []) ∧
    vocabOf file = some U ∧ U <+: V

lemma flush_grown (hc : Current file d) {err : Domain.FlushErr}
    (h : Domain.raySymDomainFlush file d = some (err, file', d'))
    (hdirty : d.count ≠ d.diskCount) (hok : err = .ok) : Grown file file' := by
  obtain ⟨V, k, hh, hp⟩ := hc
  obtain ⟨err', f, d2, hflush, hcase⟩ := Domain.raySymDomainFlush_spec hh hp
  obtain ⟨rfl, hrest⟩ := Prod.mk.inj (some.inj (h.symm.trans hflush))
  obtain ⟨rfl, rfl⟩ := Prod.mk.inj hrest
  rcases hcase with ⟨-, -, hclean⟩ | ⟨-, hfile, hdec, hh', U, hU, hpre⟩
  · exact absurd (hclean hok).2 hdirty
  · exact ⟨V, U, hfile, hdec, hh.root, hU, hpre⟩

lemma flushPlan_stops (hc : Current (disk sym) d) (h : Stops (flushPlan sym (disk sym) d).ops disk disk') :
    disk' sym = disk sym ∨ Grown (disk sym) (disk' sym) := by
  have htmp : sym ≠ sym.tmp := fun heq => append_ne (by decide) (congrArg Loc.name heq).symm
  have hlk : sym ≠ sym.lk := fun heq => append_ne (by decide) (congrArg Loc.name heq).symm
  rw [flushPlan] at h
  split_ifs at h with hclean
  · cases h
    exact .inl rfl
  · split at h
    · exact .inl (h.frame (by simpa [Op.Touches] using hlk))
    · exact .inl (h.frame (by simpa [Op.Touches] using hlk))
    · exact .inl (h.frame (by simpa [Op.Touches] using ⟨hlk, htmp⟩))
    · rename_i f d2 hflush
      have hgrown := flush_grown hc hflush hclean rfl
      cases h with
      | here hlock => exact .inl (hlock.frame hlk)
      | later hlock hrep =>
        have hkept := hlock.frame hlk
        rcases hrep.replace htmp with hold | ⟨p, hp, hall, hnew⟩
        · exact .inl (hold.trans hkept)
        · right
          obtain ⟨V, U, rfl, hrest⟩ := hgrown
          rw [hnew, hall rfl]
          exact ⟨V, U, rfl, hrest⟩

lemma flushPlan_done (hh : Holds d V k) (hp : Persisted (disk sym) V k) (hne : V ≠ [])
    (hstop : (flushPlan sym (disk sym) d).stop = none)
    (h : Done (flushPlan sym (disk sym) d).ops disk disk') :
      ∃ image U, disk' sym = some image ∧ decode image = some U ∧ V <+: U := by
  rw [flushPlan] at hstop h
  split_ifs at hstop h with hclean
  · cases h
    have hk : k = V.length := hh.stored.symm.trans (hclean.symm.trans hh.count)
    have hpos : 0 < k := by
      rw [hk]
      exact length_pos_of_ne_nil hne
    obtain ⟨image, U, hf, hU, hpre⟩ := hp hpos
    rw [hk, take_length] at hpre
    exact ⟨image, U, hf, hU, hpre⟩
  · obtain ⟨err, f, d2, hflush, hcase⟩ := Domain.raySymDomainFlush_spec hh hp
    rw [hflush] at hstop h
    cases err with
    | corrupt => cases hstop
    | range => cases hstop
    | ok =>
      rcases hcase with ⟨-, -, hclean'⟩ | ⟨-, rfl, hdec, -, -⟩
      · exact absurd (hclean' rfl).2 hclean
      · cases h with
        | cons hlock hrep =>
          obtain ⟨p, -, hall, hnew⟩ := hrep.replace
          obtain rfl := hall rfl
          exact ⟨strlFile V, V, hnew, hdec, prefix_rfl⟩

lemma openSymfile_some {V : List Bytes} (hdec : decode image = some V) (hroot : V ≠ [] → V[0]? = some []) :
    openSymfile (some image) = .ok (some V) := by
  obtain ⟨offs, hp, hmap⟩ := Domain.decode_eq_some.mp hdec
  have hfirst : (offs.head?.elim false fun off => decide (Domain.recordAt image off ≠ [])) = false := by
    cases offs with
    | nil => rfl
    | cons off rest =>
      have hzero := hroot (by simp [← hmap])
      rw [← hmap] at hzero
      simpa using hzero
  have hcreate : Domain.domCreate image =
      some ⟨image, offs, offs.length, image.length, replicate offs.length none, none⟩ := by
    rw [Domain.domCreate, hp]
    dsimp only
    rw [hfirst, if_neg (by simp)]
  rw [openSymfile, hcreate]
  dsimp only
  rw [hmap]

lemma openSymfile_decode (h : openSymfile (some image) = .ok dom) : ∃ V, dom = some V ∧ decode image = some V := by
  rw [openSymfile] at h
  cases hc : Domain.domCreate image with
  | none =>
    rw [hc] at h
    cases h
  | some d =>
    rw [hc] at h
    cases h
    refine ⟨_, rfl, ?_⟩
    rw [Domain.domCreate] at hc
    cases hp : Domain.domParseStrlAtoms image with
    | none =>
      rw [hp] at hc
      cases hc
    | some offs =>
      rw [hp] at hc
      dsimp only at hc
      split_ifs at hc
      obtain rfl := some.inj hc
      rw [decode, hp]
      rfl

lemma Grown.opens (h : Grown file file') (hdom : openSymfile file = .ok dom) :
    ∃ V, openSymfile file' = .ok (some V) ∧ ∀ U, dom = some U → U <+: V := by
  obtain ⟨V, U, rfl, hdec, hroot, hU, hpre⟩ := h
  refine ⟨V, openSymfile_some hdec hroot, ?_⟩
  rintro W rfl
  cases file with
  | none => cases hdom
  | some image =>
    obtain ⟨W', hW, himage⟩ := openSymfile_decode hdom
    obtain rfl := some.inj hW
    rw [Domain.vocabOf_of_decode himage] at hU
    obtain rfl := some.inj hU
    exact hpre

end Rayforce.Splay
