import Rayforce.Journal.Replay

/-! Appending under write failures. -/

namespace Rayforce.Journal

open Library.Words List

inductive JournalMode
  | off | async | sync
  deriving DecidableEq, Repr

structure JournalState where
  mode : JournalMode
  isOpen : Bool
  inReplay : Bool
  file : Bytes

structure WriteFate where
  landed : ℕ
  synced : Bool

def rayJournalWriteBytes (j : JournalState) (f : Frame) (w : WriteFate) : JournalState × Bool :=
  if j.isOpen = false ∨ j.inReplay = true then (j, true)
  else if w.landed < f.header.length then ({ j with file := j.file ++ f.header.take w.landed }, false)
  else if w.landed - f.header.length < f.payload.length then
    ({ j with file := j.file ++ (f.header ++ f.payload.take (w.landed - f.header.length)) }, false)
  else ({ j with file := j.file ++ f.bytes }, !(j.mode == .sync && !w.synced))

def writeAll : JournalState → List (Frame × WriteFate) → JournalState × List Bool
  | j, [] => (j, [])
  | j, (f, w) :: cs =>
    let r := rayJournalWriteBytes j f w
    let q := writeAll r.1 cs
    (q.1, r.2 :: q.2)

def okFrames (cs : List (Frame × WriteFate)) (results : List Bool) : List Frame :=
  ((cs.zip results).filter fun x => x.2).map fun x => x.1.1

def Frame.key (f : Frame) : UInt8 × Bytes := (f.flags, f.payload)

def AppendsReplayed {σ : Type} (it : Interp σ) (j : JournalState) (cs : List (Frame × WriteFate))
    (env : σ) : Prop :=
  ((okFrames cs (writeAll j cs).2).map Frame.key).Sublist
    (rayJournalReplay it (writeAll j cs).1.file env).evaluated

def wholeFate (c : Frame × WriteFate) : Prop := c.1.bytes.length ≤ c.2.landed

def tornFate (c : Frame × WriteFate) : Prop := 0 < c.2.landed ∧ c.2.landed < c.1.bytes.length

instance (c : Frame × WriteFate) : Decidable (wholeFate c) := inferInstanceAs (Decidable (_ ≤ _))
instance (c : Frame × WriteFate) : Decidable (tornFate c) := inferInstanceAs (Decidable (_ ∧ _))

def succeeds (mode : JournalMode) (c : Frame × WriteFate) : Prop :=
  wholeFate c ∧ (mode = .sync → c.2.synced = true)

instance (mode : JournalMode) (c : Frame × WriteFate) : Decidable (succeeds mode c) :=
  inferInstanceAs (Decidable (_ ∧ (_ → _)))

def NoneAfterTorn (mode : JournalMode) : List (Frame × WriteFate) → Prop
  | [] => True
  | c :: cs => (tornFate c → ∀ d ∈ cs, ¬ succeeds mode d) ∧ NoneAfterTorn mode cs

def landedFrames : List (Frame × WriteFate) → List Frame
  | [] => []
  | c :: cs => if tornFate c then [] else if wholeFate c then c.1 :: landedFrames cs else landedFrames cs

section

variable {j : JournalState} {f : Frame} {w : WriteFate}

lemma bytes_length (f : Frame) : f.bytes.length = f.header.length + f.payload.length := by
  rw [Frame.bytes, length_append]

lemma rayJournalWriteBytes_cases (hopen : j.isOpen = true) (hidle : j.inReplay = false) :
    (w.landed = 0 ∧ rayJournalWriteBytes j f w = (j, false)) ∨
    (tornFate (f, w) ∧ ∃ part, rayJournalWriteBytes j f w = ({ j with file := j.file ++ part }, false)) ∨
    (wholeFate (f, w) ∧ rayJournalWriteBytes j f w =
      ({ j with file := j.file ++ f.bytes }, decide (succeeds j.mode (f, w)))) := by
  have hl := header_length f
  have hb := bytes_length f
  rw [rayJournalWriteBytes, if_neg (by simp [hopen, hidle])]
  by_cases h0 : w.landed = 0
  · left
    refine ⟨h0, ?_⟩
    rw [if_pos (by omega), h0, take_zero, append_nil]
  by_cases hh : w.landed < f.header.length
  · right
    left
    exact ⟨by simp only [tornFate]; omega, _, by rw [if_pos hh]⟩
  by_cases hp : w.landed - f.header.length < f.payload.length
  · right
    left
    exact ⟨by simp only [tornFate]; omega, _, by rw [if_neg hh, if_pos hp]⟩
  · right
    right
    have hw : wholeFate (f, w) := by simp only [wholeFate]; omega
    refine ⟨hw, ?_⟩
    rw [if_neg hh, if_neg hp]
    congr 1
    cases hm : j.mode <;> cases hs : w.synced <;> simp [succeeds, hw, hs]

lemma writeAll_file (cs : List (Frame × WriteFate)) (j : JournalState) (hopen : j.isOpen = true)
    (hidle : j.inReplay = false) : ∃ part, (writeAll j cs).1.file = j.file ++ part := by
  induction cs generalizing j with
  | nil => exact ⟨[], (append_nil _).symm⟩
  | cons c cs ih =>
    obtain ⟨f, w⟩ := c
    rcases rayJournalWriteBytes_cases (f := f) (w := w) hopen hidle with ⟨-, h⟩ | ⟨-, part, h⟩ | ⟨-, h⟩
    · simp only [writeAll, h]
      exact ih j hopen hidle
    · simp only [writeAll, h]
      obtain ⟨more, hm⟩ := ih { j with file := j.file ++ part } hopen hidle
      exact ⟨part ++ more, by rw [hm, append_assoc]⟩
    · simp only [writeAll, h]
      obtain ⟨more, hm⟩ := ih { j with file := j.file ++ f.bytes } hopen hidle
      exact ⟨f.bytes ++ more, by rw [hm, append_assoc]⟩

lemma okFrames_none (cs : List (Frame × WriteFate)) (j : JournalState) (hopen : j.isOpen = true)
    (hidle : j.inReplay = false) (h : ∀ d ∈ cs, ¬ succeeds j.mode d) : okFrames cs (writeAll j cs).2 = [] := by
  induction cs generalizing j with
  | nil => rfl
  | cons c cs ih =>
    obtain ⟨f, w⟩ := c
    have hrest : ∀ d ∈ cs, ¬ succeeds j.mode d := fun d hd => h d (mem_cons_of_mem _ hd)
    have hno := h (f, w) mem_cons_self
    rcases rayJournalWriteBytes_cases (f := f) (w := w) hopen hidle with ⟨-, he⟩ | ⟨-, part, he⟩ | ⟨-, he⟩
    · simpa [writeAll, he, okFrames] using ih j hopen hidle hrest
    · simpa [writeAll, he, okFrames] using ih { j with file := j.file ++ part } hopen hidle hrest
    · simpa [writeAll, he, okFrames, hno] using ih { j with file := j.file ++ f.bytes } hopen hidle hrest

-- the file holds the landed frames and whatever the first torn call left behind them; every accepted
-- frame is among those
lemma writeAll_spec (cs : List (Frame × WriteFate)) (j : JournalState) (hopen : j.isOpen = true)
    (hidle : j.inReplay = false) (h : NoneAfterTorn j.mode cs) :
    (∃ tail, (writeAll j cs).1.file = j.file ++ (framesBytes (landedFrames cs) ++ tail)) ∧
      (okFrames cs (writeAll j cs).2).Sublist (landedFrames cs) := by
  induction cs generalizing j with
  | nil => exact ⟨⟨[], by simp [writeAll, landedFrames, framesBytes]⟩, List.Sublist.slnil⟩
  | cons c cs ih =>
    obtain ⟨f, w⟩ := c
    obtain ⟨htorn, hrest⟩ := h
    rcases rayJournalWriteBytes_cases (f := f) (w := w) hopen hidle with ⟨h0, he⟩ | ⟨ht, part, he⟩ | ⟨hw, he⟩
    · have hnt : ¬ tornFate (f, w) := fun ht => by have := ht.1; simp only at this; omega
      have hnw : ¬ wholeFate (f, w) := by
        have := bytes_length f
        have := header_length f
        simp only [wholeFate]
        omega
      have := ih j hopen hidle hrest
      simp only [landedFrames, if_neg hnt, if_neg hnw, writeAll, he]
      simpa [okFrames] using this
    · simp only [landedFrames, if_pos ht, writeAll, he]
      obtain ⟨more, hm⟩ := writeAll_file cs { j with file := j.file ++ part } hopen hidle
      have hnone := okFrames_none cs { j with file := j.file ++ part } hopen hidle (htorn ht)
      refine ⟨⟨part ++ more, by rw [hm]; simp [framesBytes]⟩, ?_⟩
      have hcons : okFrames ((f, w) :: cs) (false :: (writeAll { j with file := j.file ++ part } cs).2) = [] := by
        simpa [okFrames] using hnone
      rw [hcons]
    · have hnt : ¬ tornFate (f, w) := fun ht => by
        have hlt := ht.2
        simp only [wholeFate] at hw hlt
        omega
      obtain ⟨⟨tail, hfile⟩, hsub⟩ := ih { j with file := j.file ++ f.bytes } hopen hidle hrest
      simp only [landedFrames, if_neg hnt, if_pos hw, writeAll, he]
      refine ⟨⟨tail, by rw [hfile]; simp [framesBytes]⟩, ?_⟩
      by_cases hs : succeeds j.mode (f, w)
      · simpa [okFrames, hs] using hsub
      · refine List.Sublist.cons f ?_
        simpa [okFrames, hs] using hsub

end

theorem appendsReplayed_of_noneAfterTorn {σ : Type} (it : Interp σ) (j : JournalState)
    (cs : List (Frame × WriteFate)) (env : σ) (hopen : j.isOpen = true) (hidle : j.inReplay = false)
    (old : List Frame) (hfile : j.file = framesBytes old) (htorn : NoneAfterTorn j.mode cs)
    (hdec : FramesDecode it (old ++ landedFrames cs) env) : AppendsReplayed it j cs env := by
  obtain ⟨⟨tail, htail⟩, hsub⟩ := writeAll_spec cs j hopen hidle htorn
  have hbytes : (writeAll j cs).1.file = framesBytes (old ++ landedFrames cs) ++ tail := by
    rw [htail, hfile]
    simp [framesBytes]
  obtain ⟨k, hk⟩ := rayJournalReplay_frames (old ++ landedFrames cs) tail env hdec
  rw [AppendsReplayed, hbytes, hk, map_append]
  apply (hsub.map Frame.key).trans
  rw [append_assoc]
  apply List.Sublist.trans _ (sublist_append_right _ _)
  exact sublist_append_left _ _

def nullFrame : Frame := ⟨0, rayIpcMsgSync, [126]⟩

lemma nullFrame_decodes : nullFrame.Decodes bareRuntime := by
  have h : frameMessage bareRuntime nullFrame = .null := deserFrame_uncompressed rfl _
  rw [Frame.Decodes, h]
  trivial

theorem appendsReplayed_nullFrame :
    AppendsReplayed countingInterp ⟨.sync, true, false, []⟩ [(nullFrame, ⟨0, true⟩), (nullFrame, ⟨17, true⟩)] 0 :=
  appendsReplayed_of_noneAfterTorn countingInterp ⟨.sync, true, false, []⟩
    [(nullFrame, ⟨0, true⟩), (nullFrame, ⟨17, true⟩)] 0 rfl rfl [] rfl
    ⟨fun h => absurd h (by decide), fun h => absurd h (by decide), trivial⟩
    ⟨⟨by decide, by decide⟩, nullFrame_decodes, trivial⟩

-- five header bytes of the first frame reach the disk before it fills up, then space is freed
theorem tornFrame_not_appendsReplayed :
    ¬ AppendsReplayed countingInterp ⟨.sync, true, false, []⟩
    [(nullFrame, ⟨5, true⟩), (nullFrame, ⟨17, true⟩)] 0 := by
  intro h
  have hlen := h.length_le
  exact absurd hlen (by decide +kernel)

end Rayforce.Journal
