import Rayforce.Journal.Append

/-! `ray_journal_validate`. -/

namespace Rayforce.Journal

open Library.Words List Option

structure Validated where
  chunks : ℕ
  validBytes : ℕ
  deriving DecidableEq

def validateLoop : ℕ → Bytes → Validated → Validated
  | 0, _, v => v
  | fuel + 1, log, v =>
    if log = [] then v
    else if log.length < 16 then v
    else if headerValid (log.take 16) = false then v
    else
      let size := (headerSize (log.take 16)).toNat
      if (log.drop 16).length < size then v
      else validateLoop fuel ((log.drop 16).drop size) ⟨v.chunks + 1, v.validBytes + (16 + size)⟩

def rayJournalValidate (log : Bytes) : Validated := validateLoop (log.length + 1) log ⟨0, 0⟩

variable {σ : Type} {it : Interp σ} {f g : Frame} {log tail rest rest' : Bytes} {fs gs : List Frame} {env : σ}

def Torn (log : Bytes) : Prop := ∀ f rest, f.Valid → log ≠ Frame.bytes f ++ rest

lemma frame_of_header (hlen : 16 ≤ log.length) (hh : headerValid (log.take 16) = true)
    (hsize : (headerSize (log.take 16)).toNat ≤ (log.drop 16).length) :
      ∃ f rest, f.Valid ∧ log = Frame.bytes f ++ rest := by
  have hhdr : (log.take 16).length = 16 := by
    rw [length_take]
    omega
  generalize hg : log.take 16 = hdr at hh hsize hhdr
  simp only [headerValid, Bool.and_eq_true, beq_iff_eq, decide_eq_true_eq] at hh
  obtain ⟨⟨⟨⟨hpre, hversion⟩, hendian⟩, hpos⟩, hmax⟩ := hh
  have hmid : ((hdr.drop 4).take 4).length = 4 := by
    rw [length_take, length_drop, hhdr]
    rfl
  obtain ⟨v, flags, e, msgtype, hquad⟩ : ∃ v flags e msgtype, (hdr.drop 4).take 4 = [v, flags, e, msgtype] := by
    exact length_eq_four.mp hmid
  have hat : ∀ i < 4, hdr[4 + i]? = [v, flags, e, msgtype][i]? := by
    intro i hi
    rw [← hquad, getElem?_take_of_lt hi, getElem?_drop]
  have hv : v = 3 := by
    have h0 := hat 0 (by norm_num)
    rw [getD_eq_getElem?_getD, h0] at hversion
    exact hversion
  have he : e = 0 := by
    have h2 := hat 2 (by norm_num)
    rw [getD_eq_getElem?_getD, h2] at hendian
    exact hendian
  have hlast : (hdr.drop 8).length = 8 := by
    rw [length_drop, hhdr]
  have hword := leInt_nonneg (hdr.drop 8) hpos.le
  have hnat : (headerSize hdr).toNat = leNat (hdr.drop 8) := by
    rw [headerSize, hword.1, Int.toNat_natCast]
  have hpay : ((log.drop 16).take (headerSize hdr).toNat).length = (headerSize hdr).toNat := by
    rw [length_take, min_eq_left hsize]
  have hbytes : hdr.drop 8 = leBytes 8 (headerSize hdr).toNat := by
    have h8 := leBytes_leNat (hdr.drop 8)
    rw [hlast] at h8
    rw [hnat, h8]
  refine ⟨⟨flags, msgtype, (log.drop 16).take (headerSize hdr).toNat⟩,
    (log.drop 16).drop (headerSize hdr).toNat, ?_, ?_⟩
  · rw [Frame.Valid, hpay]
    omega
  · have hparts : hdr = hdr.take 4 ++ ((hdr.drop 4).take 4 ++ hdr.drop 8) := by
      have hdrop : hdr.drop 8 = (hdr.drop 4).drop 4 := by rw [drop_drop]
      rw [hdrop, take_append_drop, take_append_drop]
    have hheader : hdr = (⟨flags, msgtype, (log.drop 16).take (headerSize hdr).toNat⟩ : Frame).header := by
      rw [Frame.header, hpay, ← hbytes]
      refine hparts.trans ?_
      rw [hpre, hquad, hv, he, append_assoc]
    have hlog : log = hdr ++ log.drop 16 := by
      rw [← hg, take_append_drop]
    rw [Frame.bytes, ← hheader, append_assoc, take_append_drop]
    exact hlog

lemma bytes_take (f : Frame) (rest : Bytes) : (f.bytes ++ rest).take 16 = f.header := by
  rw [Frame.bytes, append_assoc, take_left' (header_length f)]

lemma bytes_drop (f : Frame) (rest : Bytes) : (f.bytes ++ rest).drop 16 = f.payload ++ rest := by
  rw [Frame.bytes, append_assoc, drop_left' (header_length f)]

lemma bytes_ne_nil (f : Frame) (rest : Bytes) : f.bytes ++ rest ≠ [] := by
  refine ne_nil_of_length_pos ?_
  rw [Frame.bytes, length_append, length_append, header_length]
  omega

lemma bytes_long (f : Frame) (rest : Bytes) : ¬ (f.bytes ++ rest).length < 16 := by
  rw [Frame.bytes, length_append, length_append, header_length]
  omega

lemma bytes_inj (hf : f.Valid) (hg : g.Valid) (h : f.bytes ++ rest = g.bytes ++ rest') : f = g ∧ rest = rest' := by
  have hheader : f.header = g.header := by
    rw [← bytes_take f rest, ← bytes_take g rest', h]
  have hpayload : f.payload ++ rest = g.payload ++ rest' := by
    rw [← bytes_drop f rest, ← bytes_drop g rest', h]
  have hsize : f.payload.length = g.payload.length := by
    have := headerSize_header f hf
    rw [hheader, headerSize_header g hg] at this
    exact_mod_cast this.symm
  obtain ⟨hpay, hrest⟩ := append_inj hpayload hsize
  have hflags : f.flags = g.flags := congrArg (·.getD 5 0) hheader
  have hmsg : f.msgtype = g.msgtype := congrArg (·.getD 7 0) hheader
  refine ⟨?_, hrest⟩
  cases f
  cases g
  simp_all

lemma framesBytes_cons (f : Frame) (fs : List Frame) (rest : Bytes) :
    framesBytes (f :: fs) ++ rest = f.bytes ++ (framesBytes fs ++ rest) := by
  rw [framesBytes, flatMap_cons, append_assoc]
  rfl

lemma exists_frames (log : Bytes) : ∃ fs tail, (∀ f ∈ fs, f.Valid) ∧ log = framesBytes fs ++ tail ∧ Torn tail := by
  induction hn : log.length using Nat.strong_induction_on generalizing log with
  | _ n ih =>
    by_cases htorn : Torn log
    · exact ⟨[], log, by simp, rfl, htorn⟩
    · simp only [Torn, not_forall, not_not] at htorn
      obtain ⟨f, rest, hf, rfl⟩ := htorn
      have hshort : rest.length < n := by
        rw [← hn, Frame.bytes, length_append, length_append, header_length]
        omega
      obtain ⟨fs, tail, hfs, rfl, htail⟩ := ih _ hshort rest rfl
      refine ⟨f :: fs, tail, ?_, (framesBytes_cons f fs tail).symm, htail⟩
      rw [forall_mem_cons]
      exact ⟨hf, hfs⟩

lemma frames_longest (hfs : ∀ f ∈ fs, f.Valid) (hgs : ∀ g ∈ gs, g.Valid) (htail : Torn tail)
    (h : framesBytes gs <+: framesBytes fs ++ tail) : (framesBytes gs).length ≤ (framesBytes fs).length := by
  induction fs generalizing gs with
  | nil =>
    cases gs with
    | nil => exact le_rfl
    | cons g gs =>
      obtain ⟨more, hmore⟩ := h
      rw [framesBytes_cons] at hmore
      exact absurd hmore.symm (htail g _ (hgs g mem_cons_self))
  | cons f fs ih =>
    cases gs with
    | nil => exact Nat.zero_le _
    | cons g gs =>
      obtain ⟨more, hmore⟩ := h
      rw [framesBytes_cons, framesBytes_cons] at hmore
      rw [forall_mem_cons] at hfs hgs
      obtain ⟨rfl, hrest⟩ := bytes_inj hgs.1 hfs.1 hmore
      have hle := ih hfs.2 hgs.2 ⟨more, hrest⟩
      have hcons : ∀ ks : List Frame, (framesBytes (g :: ks)).length =
          g.bytes.length + (framesBytes ks).length := by
        intro ks
        rw [framesBytes, flatMap_cons, length_append]
        rfl
      rw [hcons, hcons]
      omega

lemma Torn.unframed (h : Torn log) (hlen : ¬log.length < 16) (hh : ¬headerValid (log.take 16) = false) :
    (log.drop 16).length < (headerSize (log.take 16)).toNat := by
  refine not_le.mp fun hsize => ?_
  obtain ⟨f, rest, hf, hlog⟩ := frame_of_header (not_lt.mp hlen) (by simpa using hh) hsize
  exact h f rest hf hlog

lemma validateLoop_torn (fuel : ℕ) (v : Validated) (h : Torn log) : validateLoop fuel log v = v := by
  cases fuel with
  | zero => rfl
  | succ fuel =>
    rw [validateLoop]
    by_cases hnil : log = []
    · rw [if_pos hnil]
    by_cases hlen : log.length < 16
    · rw [if_neg hnil, if_pos hlen]
    by_cases hhdr : headerValid (log.take 16) = false
    · rw [if_neg hnil, if_neg hlen, if_pos hhdr]
    rw [if_neg hnil, if_neg hlen, if_neg hhdr]
    exact if_pos (h.unframed hlen hhdr)

lemma validateLoop_frame (fuel : ℕ) (v : Validated) (hf : f.Valid) :
    validateLoop (fuel + 1) (f.bytes ++ rest) v =
      validateLoop fuel rest ⟨v.chunks + 1, v.validBytes + f.bytes.length⟩ := by
  have hlength : f.bytes.length = 16 + f.payload.length := by
    rw [Frame.bytes, length_append, header_length]
  rw [validateLoop, if_neg (bytes_ne_nil f rest), if_neg (bytes_long f rest), bytes_take,
    if_neg (by simp [headerValid_header f hf]), bytes_drop]
  dsimp only
  rw [headerSize_header f hf, Int.toNat_natCast, if_neg (by simp), drop_left, hlength]

lemma validateLoop_frames (fuel : ℕ) (v : Validated) (hfs : ∀ f ∈ fs, f.Valid) (htail : Torn tail) :
    validateLoop (fs.length + fuel) (framesBytes fs ++ tail) v =
      ⟨v.chunks + fs.length, v.validBytes + (framesBytes fs).length⟩ := by
  induction fs generalizing v with
  | nil => exact validateLoop_torn _ v htail
  | cons f fs ih =>
    rw [forall_mem_cons] at hfs
    have hfuel : (f :: fs).length + fuel = fs.length + fuel + 1 := by
      rw [length_cons]
      omega
    have hsum : (framesBytes (f :: fs)).length = f.bytes.length + (framesBytes fs).length := by
      rw [framesBytes, flatMap_cons, length_append]
      rfl
    rw [framesBytes_cons, hfuel, validateLoop_frame _ v hfs.1, ih _ hfs.2, hsum, length_cons]
    dsimp only
    congr 1 <;> omega

lemma rayJournalValidate_frames (hfs : ∀ f ∈ fs, f.Valid) (htail : Torn tail) :
    rayJournalValidate (framesBytes fs ++ tail) = ⟨fs.length, (framesBytes fs).length⟩ := by
  have hle := length_le_framesBytes fs
  have hfuel : (framesBytes fs ++ tail).length + 1 =
      fs.length + ((framesBytes fs ++ tail).length + 1 - fs.length) := by
    rw [length_append]
    omega
  rw [rayJournalValidate, hfuel, validateLoop_frames _ _ hfs htail, Nat.zero_add, Nat.zero_add]

lemma replayLoop_torn (fuel : ℕ) (h : Torn log) :
    replayLoop it fuel log env = .stop .ok env ∨ replayLoop it fuel log env = .stop .badTail env := by
  cases fuel with
  | zero => exact .inl rfl
  | succ fuel =>
    rw [replayLoop]
    by_cases hnil : log = []
    · exact .inl (if_pos hnil)
    right
    by_cases hlen : log.length < 16
    · rw [if_neg hnil, if_pos hlen]
    by_cases hhdr : headerValid (log.take 16) = false
    · rw [if_neg hnil, if_neg hlen, if_pos hhdr]
    rw [if_neg hnil, if_neg hlen, if_neg hhdr]
    exact if_pos (h.unframed hlen hhdr)

lemma replayLoop_undecoded (fuel : ℕ) (hf : f.Valid) (h : ¬ f.Decodes (it.runtime env)) :
    (replayLoop it (fuel + 1) (f.bytes ++ rest) env).status ≠ .badTail := by
  have hflags : f.header.getD 5 0 = f.flags := rfl
  rw [Frame.Decodes, frameMessage, deserFrame_eq] at h
  rw [replayLoop, if_neg (bytes_ne_nil f rest), if_neg (bytes_long f rest), bytes_take,
    if_neg (by simp [headerValid_header f hf]), bytes_drop]
  dsimp only
  rw [headerSize_header f hf, Int.toNat_natCast, hflags, if_neg (by simp), take_left]
  cases hd : decompressIfNeeded f.flags f.payload with
  | none => rintro ⟨⟩
  | some plain =>
    rw [hd] at h
    dsimp only
    cases hm : deMessage (it.runtime env) plain with
    | nullPtr | error => rintro ⟨⟩
    | _ =>
      refine absurd ?_ h
      rw [map_some, getD_some, hm]
      trivial

lemma framesDecode_of_badTail (fuel : ℕ) (hfs : ∀ f ∈ fs, f.Valid)
    (h : (replayLoop it (fuel + fs.length) (framesBytes fs ++ tail) env).status = .badTail) :
      FramesDecode it fs env := by
  induction fs generalizing env with
  | nil => trivial
  | cons f fs ih =>
    rw [forall_mem_cons] at hfs
    rw [framesBytes_cons, length_cons, ← Nat.add_assoc] at h
    by_cases hd : f.Decodes (it.runtime env)
    · rw [replayLoop_frame _ f _ env hfs.1 hd] at h
      exact ⟨hfs.1, hd, ih hfs.2 h⟩
    · exact absurd h (replayLoop_undecoded _ hfs.1 hd)

/-- The file cut at the offset of the validation replays to the same and ends well. -/
theorem rayJournalValidate_recovers (it : Interp σ) (log : Bytes) (env : σ) :
    ((rayJournalReplay it log env).status = .badTail →
      (rayJournalValidate log).chunks = (rayJournalReplay it log env).evaluated.length ∧
      rayJournalReplay it (log.take (rayJournalValidate log).validBytes) env =
        { rayJournalReplay it log env with status := .ok }) ∧
    (∃ fs, (∀ f ∈ fs, f.Valid) ∧ log.take (rayJournalValidate log).validBytes = framesBytes fs ∧
      (framesBytes fs).length = (rayJournalValidate log).validBytes) ∧
    ∀ gs, (∀ g ∈ gs, g.Valid) → framesBytes gs <+: log →
      (framesBytes gs).length ≤ (rayJournalValidate log).validBytes := by
  obtain ⟨fs, tail, hfs, rfl, htail⟩ := exists_frames log
  rw [rayJournalValidate_frames hfs htail]
  dsimp only
  rw [take_left]
  refine ⟨fun hbad => ?_, ⟨fs, hfs, rfl, rfl⟩, fun gs hgs hpre => frames_longest hfs hgs htail hpre⟩
  have hle := length_le_framesBytes fs
  have hfuel : (framesBytes fs ++ tail).length + 1 =
      (framesBytes fs ++ tail).length + 1 - fs.length + fs.length := by
    rw [length_append]
    omega
  have hdec : FramesDecode it fs env := by
    rw [rayJournalReplay, hfuel] at hbad
    exact framesDecode_of_badTail _ hfs hbad
  obtain ⟨k, hk⟩ := rayJournalReplay_frames fs tail env hdec
  have hstop : (replayLoop it k tail (envAfter it fs env)).evaluated = [] ∧
    (replayLoop it k tail (envAfter it fs env)).calls = [] ∧
      (replayLoop it k tail (envAfter it fs env)).env = envAfter it fs env := by
    rcases replayLoop_torn k htail with h | h <;>
    · rw [h]
      exact ⟨rfl, rfl, rfl⟩
  obtain ⟨heval, hcalls, henv⟩ := hstop
  rw [hk, rayJournalReplay_whole fs env hdec, heval, hcalls, henv, append_nil, append_nil, length_map]
  exact ⟨rfl, rfl⟩

theorem rayJournalValidate_recovers_cut : (rayJournalValidate (nullFrame.bytes ++ [206])).chunks =
        (rayJournalReplay countingInterp (nullFrame.bytes ++ [206]) 0).evaluated.length ∧
      rayJournalReplay countingInterp
        ((nullFrame.bytes ++ [206]).take (rayJournalValidate (nullFrame.bytes ++ [206])).validBytes) 0 =
        { rayJournalReplay countingInterp (nullFrame.bytes ++ [206]) 0 with status := .ok } :=
  (rayJournalValidate_recovers countingInterp (nullFrame.bytes ++ [206]) 0).1 (by decide)

end Rayforce.Journal
