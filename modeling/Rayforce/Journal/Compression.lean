import Rayforce.Journal.Message
import Rayforce.Library.Segments

/-! The byte compression of IPC payloads. -/

namespace Rayforce.Journal

open Library.Words Library.Segments List Option

variable {xs : Bytes} {c : UInt8} {a : Bytes} {off : ℕ}

def rayIpcCompressThreshold : ℕ := 2000

def delta : UInt8 → Bytes → Bytes
  | _, [] => []
  | prev, b :: bs => (b - prev) :: delta b bs

def runMore (val : UInt8) : ℕ → Bytes → ℕ
  | 0, _ => 0
  | _ + 1, [] => 0
  | room + 1, b :: bs => if b = val then runMore val room bs + 1 else 0

def literalLen : ℕ → Bytes → ℕ
  | 0, _ => 0
  | _ + 1, [] => 0
  | _ + 1, [_] => 1
  | room + 1, a :: b :: rest => if a = b then 0 else literalLen room (b :: rest) + 1

def literalControl (llen : ℕ) : UInt8 := (-(Int8.ofNat llen)).toUInt8

def startsRun : Bytes → Bool
  | a :: b :: _ => a == b
  | _ => false

def rleEncode : ℕ → Bytes → ℕ → Option Bytes
  | 0, _, _ => some []
  | _ + 1, [], _ => some []
  | fuel + 1, a :: rest, room =>
    if startsRun (a :: rest) then
      let run := 1 + runMore a 126 rest
      if room < 2 then none
      else (rleEncode fuel ((a :: rest).drop run) (room - 2)).map (UInt8.ofNat run :: a :: ·)
    else
      let llen := literalLen 128 (a :: rest)
      if room < 1 + llen then none
      else (rleEncode fuel ((a :: rest).drop llen) (room - (1 + llen))).map
        (literalControl llen :: (a :: rest).take llen ++ ·)

def rayIpcCompress (src : Bytes) (dstCap : ℕ) : Bytes :=
  if src.length ≤ rayIpcCompressThreshold then []
  else
    match rleEncode src.length (delta 0 src) dstCap with
    | none => []
    | some out => if src.length ≤ out.length then [] else out

def packPayload (payload : Bytes) : UInt8 × Bytes :=
  if rayIpcCompressThreshold < payload.length then
    let comp := rayIpcCompress payload payload.length
    if 0 < comp.length ∧ comp.length + 4 < payload.length then
      (rayIpcFlagCompressed, leBytes 4 payload.length ++ comp)
    else (0, payload)
  else (0, payload)

section

variable {fuel fuel' room : ℕ} {d out : Bytes}

@[simp] lemma delta_length (prev : UInt8) (src : Bytes) : (delta prev src).length = src.length := by
  induction src generalizing prev with
  | nil => rfl
  | cons b bs ih => rw [delta, length_cons, ih, length_cons]

lemma undelta_delta (prev : UInt8) (src : Bytes) : undelta prev (delta prev src) = src := by
  induction src generalizing prev with
  | nil => rfl
  | cons b bs ih =>
    rw [delta, undelta, sub_add_cancel, ih]

lemma runMore_le (val : UInt8) (room : ℕ) (bs : Bytes) :
    runMore val room bs ≤ room ∧ runMore val room bs ≤ bs.length := by
  induction room generalizing bs with
  | zero => simp [runMore]
  | succ room ih =>
    cases bs with
    | nil => simp [runMore]
    | cons b bs =>
      have h := ih bs
      rw [runMore, length_cons]
      split <;> omega

lemma runMore_take (val : UInt8) (room : ℕ) (bs : Bytes) :
    bs.take (runMore val room bs) = List.replicate (runMore val room bs) val := by
  induction room generalizing bs with
  | zero => rfl
  | succ room ih =>
    cases bs with
    | nil => rfl
    | cons b bs =>
      rw [runMore]
      by_cases hb : b = val
      · rw [if_pos hb, take_succ_cons, replicate_succ, ih, hb]
      · rw [if_neg hb]
        rfl

lemma literalLen_le (room : ℕ) (bs : Bytes) : literalLen room bs ≤ room ∧ literalLen room bs ≤ bs.length := by
  induction room generalizing bs with
  | zero => simp [literalLen]
  | succ room ih =>
    match bs with
    | [] => simp [literalLen]
    | [_] => simp [literalLen]
    | a :: b :: rest =>
      have h := ih (b :: rest)
      rw [literalLen, length_cons]
      split <;> omega

lemma literalLen_pos {a : UInt8} {rest : Bytes} (room : ℕ) (h : startsRun (a :: rest) = false) :
    0 < literalLen (room + 1) (a :: rest) := by
  cases rest with
  | nil => exact Nat.one_pos
  | cons b rest =>
    have hab : a ≠ b := by simpa [startsRun] using h
    rw [literalLen, if_neg hab]
    omega

lemma literalControl_spec {llen : ℕ} (hpos : 0 < llen) (h : llen ≤ 128) :
    ¬ (0 < literalControl llen ∧ literalControl llen < 128) ∧
    (256 - (literalControl llen).toNat) % 256 = llen := by
  have hall : ∀ n : Fin 129, 0 < n.val → ¬ (0 < literalControl n ∧ literalControl n < 128) ∧
      (256 - (literalControl n).toNat) % 256 = n := by
    decide
  exact hall ⟨llen, by omega⟩ hpos

lemma runControl_spec {run : ℕ} (hpos : 0 < run) (h : run ≤ 127) :
    (0 < UInt8.ofNat run ∧ UInt8.ofNat run < 128) ∧ (UInt8.ofNat run).toNat = run := by
  have hall : ∀ n : Fin 128, 0 < n.val → (0 < UInt8.ofNat n ∧ UInt8.ofNat n < 128) ∧
      (UInt8.ofNat n).toNat = n := by
    decide
  exact hall ⟨run, by omega⟩ hpos

lemma rleDecode_full (fuel : ℕ) (src : Bytes) : rleDecode fuel src 0 = some [] := by
  match fuel, src with
  | 0, _ => rfl
  | _ + 1, [] => rfl
  | _ + 1, _ :: _ =>
    rw [rleDecode.eq_def]
    exact if_pos rfl

lemma rleDecode_run (fuel : ℕ) {c v : UInt8} (src : Bytes) (hroom : room ≠ 0) (hc : 0 < c ∧ c < 128) :
    rleDecode (fuel + 1) (c :: v :: src) room =
      if room < c.toNat then none else (rleDecode fuel src (room - c.toNat)).map
        (List.replicate c.toNat v ++ ·) := by
  rw [rleDecode, if_neg hroom, if_pos hc]

lemma rleDecode_cut (fuel : ℕ) (hroom : room ≠ 0) (hc : 0 < c ∧ c < 128) :
    rleDecode (fuel + 1) [c] room = none := by
  rw [rleDecode, if_neg hroom, if_pos hc]

lemma rleDecode_literal (fuel : ℕ) (src : Bytes) (hroom : room ≠ 0) (hc : ¬ (0 < c ∧ c < 128)) :
    rleDecode (fuel + 1) (c :: src) room = if src.length < (256 - c.toNat) % 256 ∨
      room < (256 - c.toNat) % 256 then none
      else (rleDecode fuel (src.drop ((256 - c.toNat) % 256)) (room - (256 - c.toNat) % 256)).map
        (src.take ((256 - c.toNat) % 256) ++ ·) := by
  rw [rleDecode.eq_def]
  dsimp only
  rw [if_neg hroom, if_neg hc]

lemma rleEncode_fits (h : rleEncode fuel d room = some out) : out.length ≤ room := by
  induction fuel generalizing d room out with
  | zero =>
    obtain rfl := some.inj h
    exact Nat.zero_le _
  | succ fuel ih =>
    cases d with
    | nil =>
      obtain rfl := some.inj h
      exact Nat.zero_le _
    | cons a rest =>
      rw [rleEncode] at h
      dsimp only at h
      split at h
      · split at h
        · cases h
        obtain ⟨more, hmore, rfl⟩ := map_eq_some_iff.mp h
        have hle := ih hmore
        simp only [length_cons]
        omega
      · split at h
        · cases h
        obtain ⟨more, hmore, rfl⟩ := map_eq_some_iff.mp h
        have hle := ih hmore
        simp only [length_cons, length_append, length_take]
        omega

lemma rleDecode_rleEncode (h : rleEncode fuel d room = some out) (hd : d.length ≤ fuel)
    (hfuel : out.length < fuel') :
    rleDecode fuel' out d.length = some d := by
  induction fuel generalizing d room out fuel' with
  | zero =>
    obtain rfl := eq_nil_of_length_eq_zero (Nat.le_zero.mp hd)
    obtain rfl := some.inj h
    cases fuel' <;> rfl
  | succ fuel ih =>
    cases d with
    | nil =>
      obtain rfl := some.inj h
      cases fuel' <;> rfl
    | cons a rest =>
      obtain ⟨k, rfl⟩ : ∃ k, fuel' = k + 1 := ⟨fuel' - 1, by omega⟩
      have hcons : (a :: rest).length = rest.length + 1 := rfl
      rw [rleEncode] at h
      dsimp only at h
      by_cases hrun : startsRun (a :: rest) = true
      · rw [if_pos hrun] at h
        split at h
        · cases h
        obtain ⟨more, hmore, rfl⟩ := map_eq_some_iff.mp h
        have hmax := runMore_le a 126 rest
        obtain ⟨hpos, hnat⟩ := (runControl_spec (by omega) (by omega) :
          (0 < UInt8.ofNat (1 + runMore a 126 rest) ∧ UInt8.ofNat (1 + runMore a 126 rest) < 128) ∧
            (UInt8.ofNat (1 + runMore a 126 rest)).toNat = 1 + runMore a 126 rest)
        have htake : (a :: rest).take (1 + runMore a 126 rest) = replicate (1 + runMore a 126 rest) a := by
          rw [Nat.add_comm, take_succ_cons, runMore_take, replicate_succ]
        have hlen : ((a :: rest).drop (1 + runMore a 126 rest)).length =
            (a :: rest).length - (1 + runMore a 126 rest) :=
          length_drop
        simp only [length_cons] at hfuel
        have hback := ih hmore (by omega) (show more.length < k by omega)
        rw [hlen] at hback
        rw [rleDecode_run k _ (by simp) hpos, hnat, if_neg (by rw [length_cons]; omega), hback, map_some, ← htake,
          take_append_drop]
      · rw [Bool.not_eq_true] at hrun
        rw [if_neg (by simp [hrun])] at h
        split at h
        · cases h
        obtain ⟨more, hmore, rfl⟩ := map_eq_some_iff.mp h
        have hmax := literalLen_le 128 (a :: rest)
        have hmin : 0 < literalLen 128 (a :: rest) := literalLen_pos 127 hrun
        obtain ⟨hneg, hcount⟩ := literalControl_spec hmin hmax.1
        have htake : ((a :: rest).take (literalLen 128 (a :: rest))).length = literalLen 128 (a :: rest) := by
          rw [length_take, min_eq_left hmax.2]
        have hlen : ((a :: rest).drop (literalLen 128 (a :: rest))).length =
            (a :: rest).length - literalLen 128 (a :: rest) := length_drop
        simp only [length_append, length_cons] at hfuel
        have hback := ih hmore (by omega) (show more.length < k by omega)
        rw [hlen] at hback
        change rleDecode (k + 1) (literalControl _ :: (take _ _ ++ more)) _ = _
        rw [rleDecode_literal k _ (by simp) hneg, hcount, if_neg, drop_left' htake, take_left' htake, hback,
          map_some, take_append_drop]
        rw [length_append, htake]
        omega

lemma rayIpcDecompress_rayIpcCompress {src : Bytes} {cap : ℕ} (h : rayIpcCompress src cap ≠ []) :
    (rayIpcCompress src cap).length < src.length ∧ (rayIpcCompress src cap).length ≤ cap ∧
      rayIpcDecompress (rayIpcCompress src cap) src.length = src := by
  rw [rayIpcCompress] at h ⊢
  by_cases hshort : src.length ≤ rayIpcCompressThreshold
  · rw [if_pos hshort] at h
    exact absurd rfl h
  rw [if_neg hshort] at h ⊢
  cases hout : rleEncode src.length (delta 0 src) cap with
  | none =>
    rw [hout] at h
    exact absurd rfl h
  | some out =>
    rw [hout] at h
    dsimp only at h ⊢
    by_cases hlong : src.length ≤ out.length
    · rw [if_pos hlong] at h
      exact absurd rfl h
    rw [if_neg hlong]
    refine ⟨not_le.mp hlong, rleEncode_fits hout, ?_⟩
    have hback := rleDecode_rleEncode hout (delta_length 0 src).le (Nat.lt_succ_self out.length)
    rw [delta_length] at hback
    rw [rayIpcDecompress, hback, map_some, getD_some, undelta_delta]

end

section

inductive Touch
  | src (i : ℕ)
  | decoded (i : ℕ)
  | dst (i : ℕ)

def Touch.Inside (clen dstLen : ℕ) : Touch → Prop
  | .src i => i < clen
  | .decoded i => i < dstLen
  | .dst i => i < dstLen

structure Decoding where
  si : ℕ
  di : ℕ
  decoded : Bytes
  touched : List Touch

inductive DecodeTurn
  | stop
  | refuse (touched : List Touch)
  | next (d : Decoding)

def decodeTurn (src : Bytes) (dstLen : ℕ) (d : Decoding) : DecodeTurn :=
  if d.si < src.length ∧ d.di < dstLen then
    let count := src.getD d.si 0
    let read := d.touched ++ [Touch.src d.si]
    if 0 < count ∧ count < 128 then
      if src.length ≤ d.si + 1 then .refuse read
      else
        let val := src.getD (d.si + 1) 0
        let n := count.toNat
        if dstLen < d.di + n then .refuse (read ++ [.src (d.si + 1)])
        else
          .next ⟨d.si + 2, d.di + n, writeAt d.decoded d.di (List.replicate n val),
            read ++ [.src (d.si + 1)] ++ (List.range' d.di n).map .decoded⟩
    else
      let n := (256 - count.toNat) % 256
      if src.length < d.si + 1 + n ∨ dstLen < d.di + n then .refuse read
      else
        .next ⟨d.si + 1 + n, d.di + n, writeAt d.decoded d.di (slice src (d.si + 1) (d.si + 1 + n)),
          read ++ (List.range' (d.si + 1) n).map .src ++ (List.range' d.di n).map .decoded⟩
  else .stop

structure Decompressed where
  out : Bytes
  touched : List Touch

-- `none` is a loop still running when the fuel is used up
def decodeLoop (src : Bytes) (dstLen : ℕ) : ℕ → Decoding → Option Decompressed
  | 0, _ => none
  | fuel + 1, d =>
    match decodeTurn src dstLen d with
    | .stop =>
      some ⟨undelta 0 (d.decoded.take d.di), d.touched ++ (List.range d.di).map .decoded ++
        (List.range d.di).map .dst⟩
    | .refuse touched => some ⟨[], touched⟩
    | .next d => decodeLoop src dstLen fuel d

def decompressAt (src : Bytes) (dstLen : ℕ) : Option Decompressed :=
  decodeLoop src dstLen (src.length + 1) ⟨0, 0, List.replicate dstLen 0, []⟩

structure Decoding.Safe (clen dstLen : ℕ) (d : Decoding) : Prop where
  si : d.si ≤ clen
  di : d.di ≤ dstLen
  decoded : d.decoded.length = dstLen
  touched : ∀ t ∈ d.touched, t.Inside clen dstLen

variable {src : Bytes} {dstLen fuel : ℕ} {d d' : Decoding}

lemma drop_cons {i : ℕ} (h : i < src.length) : src.drop i = src.getD i 0 :: src.drop (i + 1) := by
  rw [drop_eq_getElem_cons h, getD_eq_getElem _ _ h]

lemma writeAt_length (h : off + xs.length ≤ a.length) : (writeAt a off xs).length = a.length := by
  rw [writeAt, length_append, length_append, length_take, length_drop]
  omega

lemma writeAt_take (h : off ≤ a.length) : (writeAt a off xs).take (off + xs.length) = a.take off ++ xs := by
  have hlen : (a.take off ++ xs).length = off + xs.length := by
    rw [length_append, length_take, min_eq_left h]
  rw [writeAt, take_left' hlen]

structure Advances (src : Bytes) (dstLen fuel : ℕ) (d d' : Decoding) (chunk : Bytes) : Prop where
  safe : d'.Safe src.length dstLen
  further : d.si < d'.si
  decoded : d'.decoded.take d'.di = d.decoded.take d.di ++ chunk
  rest : rleDecode (fuel + 1) (src.drop d.si) (dstLen - d.di) =
    (rleDecode fuel (src.drop d'.si) (dstLen - d'.di)).map (chunk ++ ·)

lemma decodeTurn_cases (fuel : ℕ) (hd : d.Safe src.length dstLen) :
    (decodeTurn src dstLen d = .stop ∧ (src.length ≤ d.si ∨ dstLen ≤ d.di)) ∨
    (∃ touched, decodeTurn src dstLen d = .refuse touched ∧ (∀ t ∈ touched, t.Inside src.length dstLen) ∧
      rleDecode (fuel + 1) (src.drop d.si) (dstLen - d.di) = none) ∨
    ∃ d' chunk, decodeTurn src dstLen d = .next d' ∧ Advances src dstLen fuel d d' chunk := by
  have hdi := hd.di
  have hlen := hd.decoded
  by_cases hgo : d.si < src.length ∧ d.di < dstLen
  swap
  · refine .inl ⟨if_neg hgo, ?_⟩
    rwa [not_and_or, not_lt, not_lt] at hgo
  right
  obtain ⟨hsi, hroom⟩ := hgo
  have hdrop := drop_cons hsi
  have hleft : dstLen - d.di ≠ 0 := by omega
  have hread : ∀ t ∈ d.touched ++ [Touch.src d.si], t.Inside src.length dstLen := by
    rw [forall_mem_append, forall_mem_singleton]
    exact ⟨hd.touched, hsi⟩
  have hwrite : ∀ n, d.di + n ≤ dstLen → ∀ t ∈ (List.range' d.di n).map Touch.decoded,
      t.Inside src.length dstLen := by
    intro n hn
    rw [List.forall_mem_map]
    intro i hi
    rw [mem_range'_1] at hi
    change i < dstLen
    omega
  rw [decodeTurn, if_pos ⟨hsi, hroom⟩, hdrop]
  dsimp only
  by_cases hc : 0 < src.getD d.si 0 ∧ src.getD d.si 0 < 128
  · rw [if_pos hc]
    by_cases hcut : src.length ≤ d.si + 1
    · rw [if_pos hcut, drop_eq_nil_of_le hcut]
      exact .inl ⟨_, rfl, hread, rleDecode_cut fuel hleft hc⟩
    rw [if_neg hcut, drop_cons (not_le.mp hcut), rleDecode_run fuel _ hleft hc]
    have hread' : ∀ t ∈ d.touched ++ [Touch.src d.si] ++ [Touch.src (d.si + 1)], t.Inside src.length dstLen := by
      rw [forall_mem_append, forall_mem_singleton]
      exact ⟨hread, not_le.mp hcut⟩
    by_cases hfull : dstLen < d.di + (src.getD d.si 0).toNat
    · rw [if_pos hfull]
      exact .inl ⟨_, rfl, hread', if_pos (by omega)⟩
    rw [if_neg hfull]
    have hrep : (List.replicate (src.getD d.si 0).toNat (src.getD (d.si + 1) 0)).length =
        (src.getD d.si 0).toNat :=
      length_replicate
    refine .inr ⟨_, List.replicate (src.getD d.si 0).toNat (src.getD (d.si + 1) 0), rfl, ⟨?_, by simp, ?_, ?_⟩⟩
    · refine ⟨by dsimp only; omega, by dsimp only; omega, ?_, ?_⟩
      · exact (writeAt_length (by rw [hrep]; omega)).trans hlen
      · dsimp only
        rw [forall_mem_append]
        exact ⟨hread', hwrite _ (by omega)⟩
    · have htake : (writeAt d.decoded d.di _).take _ = d.decoded.take d.di ++ List.replicate
          (src.getD d.si 0).toNat (src.getD (d.si + 1) 0) :=
        writeAt_take (by omega)
      rwa [hrep] at htake
    · rw [hdrop, drop_cons (not_le.mp hcut), rleDecode_run fuel _ hleft hc, if_neg (by omega)]
      dsimp only
      rw [Nat.sub_add_eq]
  · rw [if_neg hc, rleDecode_literal fuel _ hleft hc]
    set n := (256 - (src.getD d.si 0).toNat) % 256 with hn
    have hshort : (src.drop (d.si + 1)).length = src.length - (d.si + 1) := length_drop
    by_cases hfull : src.length < d.si + 1 + n ∨ dstLen < d.di + n
    · rw [if_pos hfull]
      exact .inl ⟨_, rfl, hread, if_pos (by omega)⟩
    rw [if_neg hfull]
    rw [not_or, not_lt, not_lt] at hfull
    have hslice : slice src (d.si + 1) (d.si + 1 + n) = (src.drop (d.si + 1)).take n := by
      rw [slice, Nat.add_sub_cancel_left]
    have hcopy : ((src.drop (d.si + 1)).take n).length = n := by
      rw [length_take, hshort]
      omega
    refine .inr ⟨_, (src.drop (d.si + 1)).take n, rfl, ⟨?_, ?_, ?_, ?_⟩⟩
    · rw [hslice]
      refine ⟨hfull.1, hfull.2, (writeAt_length (by rw [hcopy]; omega)).trans hlen, ?_⟩
      dsimp only
      rw [forall_mem_append, forall_mem_append]
      refine ⟨⟨hread, ?_⟩, hwrite _ hfull.2⟩
      rw [List.forall_mem_map]
      intro i hi
      rw [mem_range'_1] at hi
      change i < src.length
      omega
    · dsimp only
      omega
    · have htake : (writeAt d.decoded d.di _).take _ = d.decoded.take d.di ++ (src.drop (d.si + 1)).take n :=
        writeAt_take (by omega)
      rw [hcopy] at htake
      dsimp only
      rw [hslice, htake]
    · rw [hdrop, rleDecode_literal fuel _ hleft hc, ← hn, if_neg (by omega), drop_drop]
      dsimp only
      rw [Nat.sub_add_eq]

lemma decodeLoop_eq (hd : d.Safe src.length dstLen) (hfuel : src.length - d.si < fuel) :
    ∃ r, decodeLoop src dstLen fuel d = some r ∧ (∀ t ∈ r.touched, t.Inside src.length dstLen) ∧
      r.out = ((rleDecode fuel (src.drop d.si) (dstLen - d.di)).map fun more =>
        undelta 0 (d.decoded.take d.di ++ more)).getD [] := by
  induction fuel generalizing d with
  | zero => omega
  | succ fuel ih =>
    have hdi := hd.di
    rw [decodeLoop]
    obtain ⟨hturn, hend⟩ | ⟨touched, hturn, hinside, hnone⟩ | ⟨d', chunk, hturn, hadv⟩ := decodeTurn_cases fuel hd
    · rw [hturn]
      refine ⟨_, rfl, ?_, ?_⟩
      · dsimp only
        rw [forall_mem_append, forall_mem_append, List.forall_mem_map, List.forall_mem_map]
        refine ⟨⟨hd.touched, fun i hi => ?_⟩, fun i hi => ?_⟩ <;>
        · rw [mem_range] at hi
          exact lt_of_lt_of_le hi hdi
      · have hdone : rleDecode (fuel + 1) (src.drop d.si) (dstLen - d.di) = some [] := by
          obtain hsi | hroom := hend
          · rw [drop_eq_nil_of_le hsi]
            rfl
          · rw [Nat.sub_eq_zero_of_le hroom, rleDecode_full]
        rw [hdone, map_some, getD_some, append_nil]
    · rw [hturn, hnone]
      exact ⟨_, rfl, hinside, rfl⟩
    · rw [hturn]
      have hsi := hadv.safe.si
      have hfurther := hadv.further
      obtain ⟨r, hr, hinside, hout⟩ := ih hadv.safe (by omega)
      refine ⟨r, hr, hinside, ?_⟩
      rw [hout, hadv.rest, hadv.decoded, Option.map_map]
      refine congrArg (fun f => (Option.map f _).getD []) ?_
      funext more
      rw [Function.comp_apply, append_assoc]

lemma decompressAt_eq (src : Bytes) (dstLen : ℕ) :
    ∃ r, decompressAt src dstLen = some r ∧ (∀ t ∈ r.touched, t.Inside src.length dstLen) ∧
      r.out = rayIpcDecompress src dstLen := by
  have hstart : (⟨0, 0, replicate dstLen 0, []⟩ : Decoding).Safe src.length dstLen :=
    ⟨Nat.zero_le _, Nat.zero_le _, length_replicate, by simp⟩
  obtain ⟨r, hr, hinside, hout⟩ := decodeLoop_eq hstart (show src.length - 0 < src.length + 1 by omega)
  refine ⟨r, hr, hinside, hout.trans ?_⟩
  dsimp only
  rw [rayIpcDecompress, drop_zero, Nat.sub_zero]
  rfl

end

/-- What was compressed is smaller and comes back; decompression stays in its buffers. -/
theorem rayIpcCompress_roundTrip (src wire : Bytes) (dstCap dstLen : ℕ) : (rayIpcCompress src dstCap ≠ [] →
      (rayIpcCompress src dstCap).length < src.length ∧ (rayIpcCompress src dstCap).length ≤ dstCap ∧
        rayIpcDecompress (rayIpcCompress src dstCap) src.length = src) ∧
    ∃ r, decompressAt wire dstLen = some r ∧ (∀ t ∈ r.touched, t.Inside wire.length dstLen) ∧
      r.out = rayIpcDecompress wire dstLen :=
  ⟨rayIpcDecompress_rayIpcCompress, decompressAt_eq wire dstLen⟩

def zeros : Bytes := List.replicate 2001 0

theorem rayIpcCompress_roundTrip_zeros :
    (rayIpcCompress zeros 40).length < zeros.length ∧ (rayIpcCompress zeros 40).length ≤ 40 ∧
      rayIpcDecompress (rayIpcCompress zeros 40) zeros.length = zeros :=
  (rayIpcCompress_roundTrip zeros [] 40 0).1 (by decide +kernel)

section

open Rayforce.Serde

/-- The frame that carries a serialised message, with the flags of the sender beside that of the compression. -/
def sentFrame (msgtype extra : UInt8) (wire : Bytes) : Frame :=
  ⟨(packPayload wire).1 ||| extra, msgtype, (packPayload wire).2⟩

lemma packPayload_cases (wire : Bytes) : packPayload wire = (0, wire) ∨ ∃ comp,
    packPayload wire = (rayIpcFlagCompressed, leBytes 4 wire.length ++ comp) ∧
    comp.length + 4 < wire.length ∧ rayIpcDecompress comp wire.length = wire := by
  rw [packPayload]
  dsimp only
  split_ifs with hlong hcomp
  · exact .inr ⟨_, rfl, hcomp.2, (rayIpcDecompress_rayIpcCompress (ne_nil_of_length_pos hcomp.1)).2.2⟩
  · exact .inl rfl
  · exact .inl rfl

/-- A message is taken by the peer and comes out as it went in exactly if its bytes before compression number at
most 256 MiB. -/
theorem sentFrame_arrives_iff (rt : Runtime) {o : Obj} {wire : Bytes} {extra : UInt8} (msgtype : UInt8)
    (hextra : extra &&& rayIpcFlagCompressed = 0)
    (ho : o.Sendable noFn) (hd : o.depth < rayDeMaxDepth) (hs : raySerRaw o = some wire) (hpos : 0 < wire.length) :
    ((sentFrame msgtype extra wire).Valid ∧
      decompressIfNeeded (sentFrame msgtype extra wire).flags (sentFrame msgtype extra wire).payload = some wire ↔
        wire.length ≤ maxPayload) ∧
      (wire.length ≤ maxPayload → deserFrame rt (sentFrame msgtype extra wire).flags
        (sentFrame msgtype extra wire).payload = o.decoded rt) := by
  have hmsg : deMessage rt wire = o.decoded rt := by
    obtain ⟨log, hrun⟩ := rayDeRaw_raySerRaw (resolves_noFn rt) ho hd hs []
    rw [append_nil] at hrun
    rw [deMessage, hrun]
    rfl
  rw [deserFrame_eq, sentFrame, Frame.Valid]
  obtain hplain | ⟨comp, hpack, hshort, hback⟩ := packPayload_cases wire
  · have hget : decompressIfNeeded ((0 : UInt8) ||| extra) wire = some wire := by
      rw [decompressIfNeeded, UInt8.zero_or, if_pos hextra]
    rw [hplain, hget]
    exact ⟨⟨fun h => h.1.2, fun h => ⟨⟨hpos, h⟩, rfl⟩⟩, fun _ => hmsg⟩
  · have hflag : (rayIpcFlagCompressed ||| extra) &&& rayIpcFlagCompressed ≠ 0 := by
      simp [rayIpcFlagCompressed, ← UInt8.toNat_inj]
    have hlen : (leBytes 4 wire.length ++ comp).length = comp.length + 4 := by
      rw [length_append, leBytes_length, Nat.add_comm]
    have hget (h : wire.length ≤ maxPayload) :
        decompressIfNeeded (rayIpcFlagCompressed ||| extra) (leBytes 4 wire.length ++ comp) = some wire := by
      have hsize : leNat ((leBytes 4 wire.length ++ comp).take 4) = wire.length := by
        rw [take_left' (leBytes_length 4 _), leNat_leBytes 4 _ (h.trans_lt (by decide))]
      rw [decompressIfNeeded, if_neg hflag, if_neg (by omega), drop_left' (leBytes_length 4 _)]
      simp only [hsize]
      rw [if_neg (by omega), hback, if_neg (by omega)]
    rw [hpack]
    refine ⟨⟨fun h => ?_, fun h => ⟨⟨by dsimp only; omega, by dsimp only; omega⟩, hget h⟩⟩, fun h =>
      by rw [hget h]; exact hmsg⟩
    have hread := h.2
    rw [decompressIfNeeded, if_neg hflag] at hread
    dsimp only at hread
    split_ifs at hread with hfour hsize hout
    rw [some.inj hread] at hout
    omega

theorem sentFrame_arrives_iff_sample : ∃ wire, raySerRaw sampleDict = some wire ∧
    deserFrame bareRuntime (sentFrame 1 0 wire).flags (sentFrame 1 0 wire).payload =
      sampleDict.decoded bareRuntime :=
  ⟨_, rfl, (sentFrame_arrives_iff bareRuntime 1 rfl
    (by simp [sampleDict, Obj.Sendable, Obj.Every, Obj.EveryAll, Obj.Fits, AtomFits, NulFree,
    Vec.cells]) (by decide) rfl (by decide)).2 (by decide)⟩

end

end Rayforce.Journal
