import Rayforce.Journal.Message

namespace Rayforce.Journal

open Library.Words Rayforce.Serde List

inductive ReplayStatus
  | ok | badTail | decomp | deser
  deriving DecidableEq, Repr

structure Replayed (σ : Type) where
  status : ReplayStatus
  evaluated : List (UInt8 × Bytes)
  calls : List Call
  env : σ

def headerSize (hdr : Bytes) : ℤ := leInt (hdr.drop 8)

def headerValid (hdr : Bytes) : Bool :=
  hdr.take 4 == raySerdePrefix && hdr.getD 4 0 == 3 && hdr.getD 6 0 == 0 &&
    0 < headerSize hdr && headerSize hdr ≤ maxPayload

section

variable {σ : Type}

def Replayed.stop (status : ReplayStatus) (env : σ) : Replayed σ := ⟨status, [], [], env⟩

def Replayed.after (r : Replayed σ) (flags : UInt8) (payload : Bytes) (c : Option Call) : Replayed σ :=
  ⟨r.status, (flags, payload) :: r.evaluated, c.toList ++ r.calls, r.env⟩

def replayLoop (it : Interp σ) : ℕ → Bytes → σ → Replayed σ
  | 0, _, env => .stop .ok env
  | fuel + 1, log, env =>
    if log = [] then .stop .ok env
    else if log.length < 16 then .stop .badTail env
    else if headerValid (log.take 16) = false then .stop .badTail env
    else
      let size := (headerSize (log.take 16)).toNat
      let flags := (log.take 16).getD 5 0
      if (log.drop 16).length < size then .stop .badTail env
      else
        let payload := (log.drop 16).take size
        match decompressIfNeeded flags payload with
        | none => .stop .decomp env
        | some plain =>
          match deMessage (it.runtime env) plain with
          | .nullPtr => .stop .deser env
          | .error _ => .stop .deser env
          | msg =>
            let c := evalOne (flags &&& rayIpcFlagRestricted != 0) msg
            (replayLoop it fuel ((log.drop 16).drop size) (it.step env c)).after flags payload c

def rayJournalReplay (it : Interp σ) (log : Bytes) (env : σ) : Replayed σ :=
  replayLoop it (log.length + 1) log env

def frameMessage (rt : Runtime) (f : Frame) : Obj := deserFrame rt f.flags f.payload

def Frame.Decodes (rt : Runtime) (f : Frame) : Prop := (frameMessage rt f).Plain

def replayCall (rt : Runtime) (f : Frame) : Option Call := evalOne f.restricted (frameMessage rt f)

variable {it : Interp σ}

lemma header_length (f : Frame) : f.header.length = 16 := by simp [Frame.header, raySerdePrefix]

lemma headerSize_header (f : Frame) (h : f.Valid) : headerSize f.header = f.payload.length := by
  have hm : f.payload.length < 2 ^ 63 := lt_of_le_of_lt h.2 (by norm_num [maxPayload])
  have hd : f.header.drop 8 = leBytes 8 f.payload.length := rfl
  rw [headerSize, hd, leInt_leBytes 8 _ (by omega)]

lemma headerValid_header (f : Frame) (h : f.Valid) : headerValid f.header = true := by
  have hs := headerSize_header f h
  have h1 : f.header.take 4 = raySerdePrefix := rfl
  have h2 : f.header.getD 4 0 = 3 := rfl
  have h3 : f.header.getD 6 0 = 0 := rfl
  simp only [headerValid, h1, h2, h3, hs, beq_self_eq_true, Bool.true_and, Bool.and_eq_true, decide_eq_true_eq]
  exact ⟨by exact_mod_cast h.1, by exact_mod_cast h.2⟩

lemma decodes_plain {rt : Runtime} {f : Frame} (h : f.Decodes rt) :
    ∃ plain, decompressIfNeeded f.flags f.payload = some plain ∧ frameMessage rt f = deMessage rt plain := by
  rw [Frame.Decodes, frameMessage, deserFrame_eq] at h
  rw [frameMessage, deserFrame_eq]
  cases hd : decompressIfNeeded f.flags f.payload with
  | none =>
    rw [hd] at h
    exact h.elim
  | some plain => exact ⟨plain, rfl, rfl⟩

lemma replayLoop_frame (fuel : ℕ) (f : Frame) (rest : Bytes) (env : σ) (hv : f.Valid)
    (hd : f.Decodes (it.runtime env)) : replayLoop it (fuel + 1) (f.bytes ++ rest) env =
      (replayLoop it fuel rest (it.step env (replayCall (it.runtime env) f))).after f.flags f.payload
        (replayCall (it.runtime env) f) := by
  have happ : f.bytes ++ rest = f.header ++ (f.payload ++ rest) := by rw [Frame.bytes, append_assoc]
  have htake : (f.header ++ (f.payload ++ rest)).take 16 = f.header := take_left' (header_length f)
  have hdrop : (f.header ++ (f.payload ++ rest)).drop 16 = f.payload ++ rest := drop_left' (header_length f)
  have hne : f.header ++ (f.payload ++ rest) ≠ [] := by
    intro hc
    have := congrArg length hc
    simp [header_length] at this
  have hflags : f.header.getD 5 0 = f.flags := rfl
  obtain ⟨plain, hplain, hmsg⟩ := decodes_plain hd
  rw [Frame.Decodes, hmsg] at hd
  rw [replayLoop, happ, if_neg hne, if_neg (by simp [header_length]), htake,
    if_neg (by simp [headerValid_header f hv])]
  dsimp only
  rw [headerSize_header f hv, Int.toNat_natCast, hdrop, hflags, if_neg (by simp), take_left, drop_left]
  simp only [hplain, replayCall, hmsg, Frame.restricted]
  cases hm : deMessage (it.runtime env) plain with
  | nullPtr => rw [hm] at hd; exact hd.elim
  | error => rw [hm] at hd; exact hd.elim
  | _ => rfl

lemma replayLoop_nil (fuel : ℕ) (env : σ) : replayLoop it fuel [] env = .stop .ok env := by
  cases fuel <;> rfl

def framesBytes (fs : List Frame) : Bytes := fs.flatMap Frame.bytes

def FramesDecode (it : Interp σ) : List Frame → σ → Prop
  | [], _ => True
  | f :: fs, env => f.Valid ∧ f.Decodes (it.runtime env) ∧
      FramesDecode it fs (it.step env (replayCall (it.runtime env) f))

def envAfter (it : Interp σ) : List Frame → σ → σ
  | [], env => env
  | f :: fs, env => envAfter it fs (it.step env (replayCall (it.runtime env) f))

def callsOf (it : Interp σ) : List Frame → σ → List Call
  | [], _ => []
  | f :: fs, env => (replayCall (it.runtime env) f).toList ++
      callsOf it fs (it.step env (replayCall (it.runtime env) f))

lemma replayLoop_frames (fs : List Frame) (tail : Bytes) (k : ℕ) (env : σ) (h : FramesDecode it fs env) :
    replayLoop it (k + fs.length) (framesBytes fs ++ tail) env =
      ⟨(replayLoop it k tail (envAfter it fs env)).status,
        fs.map (fun f => (f.flags, f.payload)) ++ (replayLoop it k tail (envAfter it fs env)).evaluated,
        callsOf it fs env ++ (replayLoop it k tail (envAfter it fs env)).calls,
        (replayLoop it k tail (envAfter it fs env)).env⟩ := by
  induction fs generalizing env with
  | nil => rfl
  | cons f fs ih =>
    obtain ⟨hv, hd, hrest⟩ := h
    have happ : framesBytes (f :: fs) ++ tail = f.bytes ++ (framesBytes fs ++ tail) := by
      rw [framesBytes, flatMap_cons, append_assoc]
      rfl
    rw [happ, length_cons, ← Nat.add_assoc, replayLoop_frame _ f _ env hv hd, ih _ hrest]
    simp only [Replayed.after, envAfter, callsOf, map_cons, cons_append, append_assoc]

lemma length_le_framesBytes (fs : List Frame) : fs.length ≤ (framesBytes fs).length := by
  induction fs with
  | nil => simp
  | cons f fs ih =>
    have hb : f.bytes.length = 16 + f.payload.length := by rw [Frame.bytes, length_append, header_length]
    have happ : (framesBytes (f :: fs)).length = f.bytes.length + (framesBytes fs).length := by
      rw [framesBytes, flatMap_cons, length_append]
      rfl
    rw [length_cons]
    omega

theorem rayJournalReplay_frames (fs : List Frame) (tail : Bytes) (env : σ) (h : FramesDecode it fs env) :
    ∃ k, rayJournalReplay it (framesBytes fs ++ tail) env = ⟨(replayLoop it k tail (envAfter it fs env)).status,
        fs.map (fun f => (f.flags, f.payload)) ++ (replayLoop it k tail (envAfter it fs env)).evaluated,
        callsOf it fs env ++ (replayLoop it k tail (envAfter it fs env)).calls,
        (replayLoop it k tail (envAfter it fs env)).env⟩ := by
  have hl := length_le_framesBytes fs
  refine ⟨(framesBytes fs ++ tail).length + 1 - fs.length, ?_⟩
  rw [← replayLoop_frames fs tail _ env h, rayJournalReplay]
  congr 1
  simp only [length_append]
  omega

theorem rayJournalReplay_whole (fs : List Frame) (env : σ) (h : FramesDecode it fs env) :
    rayJournalReplay it (framesBytes fs) env =
      ⟨.ok, fs.map fun f => (f.flags, f.payload), callsOf it fs env, envAfter it fs env⟩ := by
  obtain ⟨k, hk⟩ := rayJournalReplay_frames fs [] env h
  rw [append_nil] at hk
  rw [hk, replayLoop_nil]
  simp [Replayed.stop]

end

def countingInterp : Interp ℕ := ⟨fun _ => bareRuntime, fun _ n => n + 1⟩

open Library.Words Rayforce.Serde

structure Live (σ : Type) where
  log : Bytes
  calls : List Call
  env : σ

section

variable {σ : Type}

def live (it : Interp σ) : List Inbound → σ → Live σ
  | [], env => ⟨[], [], env⟩
  | i :: is, env =>
    let c := evalPayloadCore (it.runtime env) i
    let r := live it is (it.step env c)
    ⟨i.logged.bytes ++ r.log, c.toList ++ r.calls, r.env⟩

def RefinesLive (it : Interp σ) (is : List Inbound) (env : σ) : Prop :=
  (rayJournalReplay it (live it is env).log env).status = .ok ∧
    (rayJournalReplay it (live it is env).log env).calls = (live it is env).calls ∧
    (rayJournalReplay it (live it is env).log env).env = (live it is env).env

def Silent (msg : Obj) : Prop := msg = .atom .nullStr ∨ msg = .atom (.str [])

-- the frame decodes, no hook is installed, marking finds no list among the arguments, and the client
-- has not set the restricted bit on a connection that is not restricted
structure Replayable (rt : Runtime) (i : Inbound) : Prop where
  decodes : (deserFrame rt i.flags i.payload).Plain
  unhooked : hookLookup rt = none
  unmarked : markMessage (deserFrame rt i.flags i.payload) = deserFrame rt i.flags i.payload
  honest : i.flags &&& rayIpcFlagRestricted = 0 ∨ i.restricted = true ∨ Silent (deserFrame rt i.flags i.payload)

def ReplayableRun (it : Interp σ) : List Inbound → σ → Prop
  | [], _ => True
  | i :: is, env => Replayable (it.runtime env) i ∧
      ReplayableRun it is (it.step env (evalPayloadCore (it.runtime env) i))

variable {it : Interp σ} {rt : Runtime}

lemma compressed_or_restricted (flags : UInt8) :
    (flags ||| rayIpcFlagRestricted) &&& rayIpcFlagCompressed = flags &&& rayIpcFlagCompressed := by
  apply UInt8.eq_of_toBitVec_eq
  simp only [rayIpcFlagRestricted, rayIpcFlagCompressed, UInt8.toBitVec_and, UInt8.toBitVec_or]
  ext i hi
  interval_cases i <;> simp [UInt8.toBitVec_ofNat]

lemma restricted_or_restricted (flags : UInt8) :
    (flags ||| rayIpcFlagRestricted) &&& rayIpcFlagRestricted = rayIpcFlagRestricted := by
  apply UInt8.eq_of_toBitVec_eq
  simp only [rayIpcFlagRestricted, UInt8.toBitVec_and, UInt8.toBitVec_or]
  ext i hi
  interval_cases i <;> simp [UInt8.toBitVec_ofNat]

lemma frameMessage_logged (i : Inbound) : frameMessage rt i.logged = deserFrame rt i.flags i.payload := by
  rw [frameMessage, Inbound.logged]
  dsimp only
  cases i.restricted with
  | false => rfl
  | true =>
    rw [if_pos rfl, deserFrame, deserFrame, compressed_or_restricted]

lemma evalOne_silent {msg : Obj} (h : Silent msg) (restricted : Bool) : evalOne restricted msg = none := by
  rcases h with rfl | rfl <;> rfl

lemma restricted_logged {i : Inbound} (h : i.flags &&& rayIpcFlagRestricted = 0 ∨ i.restricted = true) :
    i.logged.restricted = i.restricted := by
  rw [Frame.restricted, Inbound.logged]
  dsimp only
  cases hr : i.restricted with
  | false =>
    rw [hr] at h
    have hz : i.flags &&& rayIpcFlagRestricted = 0 := h.resolve_right (by simp)
    simp [hz]
  | true =>
    rw [if_pos rfl, restricted_or_restricted]
    rfl

lemma evalPayloadCore_plain {i : Inbound} (h : (deserFrame rt i.flags i.payload).Plain) :
    evalPayloadCore rt i = dispatch rt i.restricted (deserFrame rt i.flags i.payload) := by
  rw [evalPayloadCore]
  cases hm : deserFrame rt i.flags i.payload with
  | nullPtr => rw [hm] at h; exact h.elim
  | error => rw [hm] at h; exact h.elim
  | _ => rfl

lemma evalPayloadCore_eq_replayCall {i : Inbound} (h : Replayable rt i) :
    evalPayloadCore rt i = replayCall rt i.logged := by
  rw [evalPayloadCore_plain h.decodes, dispatch_evalOne h.unhooked h.unmarked, replayCall, frameMessage_logged]
  rcases h.honest with hf | hr | hs
  · rw [restricted_logged (Or.inl hf)]
  · rw [restricted_logged (Or.inr hr)]
  · rw [evalOne_silent hs, evalOne_silent hs]

lemma live_spec (is : List Inbound) (env : σ) (h : ReplayableRun it is env) :
    FramesDecode it (is.map Inbound.logged) env ∧
      live it is env = ⟨framesBytes (is.map Inbound.logged), callsOf it (is.map Inbound.logged) env,
        envAfter it (is.map Inbound.logged) env⟩ := by
  induction is generalizing env with
  | nil => exact ⟨trivial, rfl⟩
  | cons i is ih =>
    obtain ⟨hi, his⟩ := h
    have hc := evalPayloadCore_eq_replayCall hi
    rw [hc] at his
    obtain ⟨hd, hl⟩ := ih _ his
    refine ⟨⟨i.fits, ?_, hd⟩, ?_⟩
    · rw [Frame.Decodes, frameMessage_logged]
      exact hi.decodes
    · rw [live, hc, hl]
      rfl

lemma ReplayableRun.take {is : List Inbound} {env : σ} (h : ReplayableRun it is env) (k : ℕ) :
    ReplayableRun it (is.take k) env := by
  induction is generalizing env k with
  | nil => simpa using h
  | cons i is ih =>
    cases k with
    | zero => trivial
    | succ k => exact ⟨h.1, ih h.2 k⟩

end

theorem replay_refinesLive {σ : Type} (it : Interp σ) (is : List Inbound) (env : σ)
    (h : ReplayableRun it is env) (k : ℕ) : RefinesLive it (is.take k) env := by
  obtain ⟨hd, hl⟩ := live_spec (is.take k) env (h.take k)
  rw [RefinesLive, hl, rayJournalReplay_whole _ env hd]
  exact ⟨rfl, rfl, rfl⟩

def stringFrame (flags : UInt8) (restricted : Bool) : Inbound :=
  ⟨flags, [243, 0, 1, 0, 0, 0, 0, 0, 0, 0, 0x78], restricted, by decide⟩

lemma deserFrame_stringFrame (flags : UInt8) (restricted : Bool) (h : flags &&& rayIpcFlagCompressed = 0) :
    deserFrame bareRuntime (stringFrame flags restricted).flags (stringFrame flags restricted).payload =
      .atom (.str [0x78]) :=
  deserFrame_uncompressed h _

lemma replayable_stringFrame (flags : UInt8) (restricted : Bool) (h : flags &&& rayIpcFlagCompressed = 0)
    (hr : flags &&& rayIpcFlagRestricted = 0) : Replayable bareRuntime (stringFrame flags restricted) := by
  have hm := deserFrame_stringFrame flags restricted h
  exact ⟨hm ▸ trivial, rfl, hm ▸ rfl, Or.inl hr⟩

theorem replay_refinesLive_strings :
    RefinesLive countingInterp ([stringFrame 0 false, stringFrame 4 true].take 2) 0 :=
  replay_refinesLive countingInterp [stringFrame 0 false, stringFrame 4 true] 0
    ⟨replayable_stringFrame 0 false rfl rfl, replayable_stringFrame 4 true rfl rfl, trivial⟩ 2

-- one byte that is no value: the live server answers null and goes on, replay stops in front of it
def poisonFrame : Inbound := ⟨0, [200], false, by decide⟩

theorem poisonFrame_not_refinesLive :
    ¬ RefinesLive countingInterp [poisonFrame, stringFrame 0 false] 0 := by
  rintro ⟨hstatus, -⟩
  exact absurd hstatus (by decide +kernel)

end Rayforce.Journal
