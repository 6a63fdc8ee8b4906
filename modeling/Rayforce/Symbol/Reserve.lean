import Rayforce.Symbol.Dotted

namespace Rayforce.Symbol

open Library.Words Library.Probing List Option

variable {grant : Bool}

/-- Which allocations of a call succeed. -/
structure Grants where
  buckets : Bool
  strings : Bool
  chunk : Bool
  left : ℕ

structure ArenaTable where
  tab : SymTable
  free : ℕ

def arenaChunkSize : ℕ := 1024 * 1024

def arenaAlignUp (n : ℕ) : ℕ := (n + 31) / 32 * 32

def arenaBlock (nbytes : ℕ) : ℕ := arenaAlignUp (32 + nbytes)

def arenaStrBlock (len : ℕ) : ℕ :=
  if len < 7 then arenaBlock 0 else arenaBlock (arenaAlignUp (32 + (len + 1)))

def raySymBytesUpper (len : ℕ) : ℕ := if len < 7 then 32 else 32 + arenaAlignUp (32 + len + 1)

def arenaNewChunk (bytes : ℕ) : ℕ := if arenaChunkSize < bytes then arenaAlignUp bytes else arenaChunkSize

def arenaAlloc (grant : Bool) (free block : ℕ) : Option ℕ :=
  if block ≤ free then some (free - block)
  else if grant then some (arenaNewChunk block - block)
  else none

def arenaReserve (grant : Bool) (free bytes : ℕ) : Option ℕ :=
  if bytes = 0 ∨ bytes ≤ free then some free
  else if grant then some (arenaNewChunk bytes)
  else none

lemma arenaStrBlock_eq (len : ℕ) : arenaStrBlock len = raySymBytesUpper len := by
  simp only [arenaStrBlock, raySymBytesUpper, arenaBlock, arenaAlignUp]
  split_ifs <;> omega

lemma arenaReserve_le {free bytes room : ℕ} (h : arenaReserve grant free bytes = some room) : bytes ≤ room := by
  simp only [arenaReserve, arenaNewChunk, arenaAlignUp] at h
  split_ifs at h <;> rw [some.injEq] at h <;> omega

lemma arenaAlloc_of_le {free block : ℕ} (h : block ≤ free) :
    arenaAlloc grant free block = some (free - block) := if_pos h

def growLoadedG (g : Grants) (T : SymTable) : Option (Bool × SymTable) :=
  if T.buckets.length * 70 ≤ T.count * 100 ∧ g.buckets = false then
    some (decide (T.count * 100 < T.buckets.length * 95), T)
  else growLoaded T

def symCommitNewG (g : Grants) (A : ArenaTable) (hash : ℕ) (str : Bytes) : Option (Option ℕ × ArenaTable) := do
  let (room, T) ← growLoadedG g A.tab
  if room = false then return (none, ⟨T, A.free⟩)
  let newId := T.count
  if T.strCap ≤ newId ∧ (strCapMax ≤ T.strCap ∨ g.strings = false) then return (none, ⟨T, A.free⟩)
  let cap := if T.strCap ≤ newId then T.strCap * 2 else T.strCap
  match arenaAlloc g.chunk A.free (arenaStrBlock str.length) with
  | none => return (none, ⟨{ T with strCap := cap }, A.free⟩)
  | some free =>
    let buckets ← htInsert T.buckets hash newId
    return (some newId, ⟨{ T with
      buckets := buckets, strCap := cap, slots := T.slots ++ [{ emptySlot with str := some str }] }, free⟩)

def growStrings (g : Grants) (strCap need : ℕ) : Option ℕ :=
  if strCap < need then (strTarget need 33 strCap).bind fun cap => if g.strings then some cap else none
  else some strCap

def symReserveCapacityG (g : Grants) (A : ArenaTable) (newSymCount arenaBytes : ℕ) :
    Option (Bool × ArenaTable) := do
  let newCount := A.tab.count + newSymCount
  match bucketTarget newCount 33 A.tab.buckets.length with
  | none => return (false, A)
  | some target =>
    if A.tab.buckets.length < target ∧ g.buckets = false then return (false, A)
    let T ← growBuckets A.tab target
    match growStrings g T.strCap newCount with
    | none => return (false, ⟨T, A.free⟩)
    | some cap =>
      let T := { T with strCap := cap }
      match arenaReserve g.chunk A.free arenaBytes with
      | none => return (false, ⟨T, A.free⟩)
      | some free => return (true, ⟨T, free⟩)

def commitSegsG (g : Grants) : ArenaTable → List (Bytes × Option ℕ) → Option (Option (List ℕ) × ArenaTable)
  | A, [] => some (some [], A)
  | A, (_, some i) :: descs => do
    let (ids, A) ← commitSegsG g A descs
    return (ids.map (i :: ·), A)
  | A, (s, none) :: descs => do
    let (sid, A) ← symCommitNewG g A (symHash s) s
    match sid with
    | none => return (none, A)
    | some sid =>
      let (ids, A) ← commitSegsG g ⟨A.tab.markScanned sid, A.free⟩ descs
      return (ids.map (sid :: ·), A)

def newSegBytes (descs : List (Bytes × Option ℕ)) : ℕ :=
  ((descs.filter fun d => d.2.isNone).map fun d => raySymBytesUpper d.1.length).sum

def segsBytes (nsegs : ℕ) : ℕ := arenaAlignUp (32 + nsegs * 8)

def symCacheSegmentsG (g : Grants) (A : ArenaTable) (newId : ℕ) (str : Bytes) : Option (Bool × ArenaTable) :=
  if A.tab.isScanned newId then some (true, A)
  else
    match dottedSegs str with
    | none => some (true, ⟨A.tab.markScanned newId, A.free⟩)
    | some segs => do
      let descs ← probeSegs A.tab segs
      let (ok, A) ← symReserveCapacityG g A (newSegCount descs) (newSegBytes descs + segsBytes segs.length)
      if ok = false then return (false, A)
      let (ids, A) ← commitSegsG g A descs
      match ids with
      | none => return (false, A)
      | some ids =>
        match arenaAlloc g.chunk A.free (arenaBlock (segs.length * 8)) with
        | none => return (false, A)
        | some free => return (true, ⟨A.tab.cacheAt newId ids, free⟩)

def commitMainG (g : Grants) (A : ArenaTable) (hash : ℕ) (str : Bytes) :
    Option (Bool × Option ℕ × ArenaTable) := do
  let (isDotted, segs) := scanDotted str
  let descs ← probeSegs A.tab segs
  let arenaBytes := raySymBytesUpper str.length + if isDotted then newSegBytes descs + segsBytes segs.length else 0
  let (ok, A) ← symReserveCapacityG g A (1 + newSegCount descs) arenaBytes
  if ok = false then return (false, none, A)
  let (ids, A) ← if isDotted then commitSegsG g A descs else pure (some [], A)
  match ids with
  | none => return (true, none, A)
  | some ids =>
    let (mainId, A) ← symCommitNewG g A hash str
    match mainId with
    | none => return (true, none, A)
    | some mainId =>
      if isDotted then
        match arenaAlloc g.chunk A.free (arenaBlock (segs.length * 8)) with
        | none => return (true, some mainId, A)
        | some free => return (true, some mainId, ⟨A.tab.cacheAt mainId ids, free⟩)
      else return (true, some mainId, ⟨A.tab.markScanned mainId, A.free⟩)

inductive Outcome
  | done
  | refused
  | unreadable
  deriving DecidableEq

def Outcome.ofGrant (ok : Bool) : Outcome := if ok then .done else .refused

def probeMainG (g : Grants) (A : ArenaTable) (str : Bytes) (searchLazy : Bool) :
    Option (Bool × Option ℕ × ArenaTable) := do
  let (readable, existing, T) ← probeMain A.tab (symHash str) str searchLazy
  return (readable, existing, ⟨T, if T.lazy = A.tab.lazy then A.free else g.left⟩)

def symInternG (g : Grants) (A : ArenaTable) (str : Bytes) (searchLazy : Bool) :
    Option (Outcome × Option ℕ × ArenaTable) := do
  let (readable, existing, A) ← probeMainG g A str searchLazy
  if readable = false then return (.unreadable, none, A)
  match existing with
  | some i =>
    let (ok, A) ← symCacheSegmentsG g A i str
    return (.ofGrant ok, some i, A)
  | none =>
    let (ok, r, A) ← commitMainG g A (symHash str) str
    return (.ofGrant ok, r, A)

def symInternNoSplitG (g : Grants) (A : ArenaTable) (str : Bytes) : Option (Option ℕ × ArenaTable) := do
  let (readable, existing, A) ← probeMainG g A str true
  if readable = false then return (none, A)
  match existing with
  | some i => return (some i, A)
  | none => symCommitNewG g A (symHash str) str

def rebuildLoopG (grants : ℕ → Grants) : List ℕ → ArenaTable → Option (SymErr × ArenaTable)
  | [], A => some (.ok, A)
  | i :: is, A =>
    if A.tab.isScanned i then rebuildLoopG grants is A
    else
      match A.tab.strAt i with
      | none => rebuildLoopG grants is A
      | some s => do
        let (ok, A) ← symCacheSegmentsG (grants i) A i s
        if ok then rebuildLoopG grants is A else return (.oom, A)

def raySymRebuildSegmentsG (grants : ℕ → Grants) (A : ArenaTable) : Option (SymErr × ArenaTable) :=
  rebuildLoopG grants (List.range A.tab.count) A

def raySymEnsureCapG (g : Grants) (A : ArenaTable) (needed : UInt32) : Option (Bool × ArenaTable) :=
  match ensuredStrCap A.tab.strCap needed.toNat with
  | none => some (false, A)
  | some cap =>
    if A.tab.strCap < cap ∧ g.strings = false then some (false, A)
    else
      let T := { A.tab with strCap := cap }
      match bucketsFor (rawBuckets needed.toNat) with
      | none => some (false, ⟨T, A.free⟩)
      | some cap =>
        if T.buckets.length < cap ∧ g.buckets = false then some (false, ⟨T, A.free⟩)
        else (growBuckets T cap).map fun T => (true, ⟨T, A.free⟩)

def loadEntriesG (grants : ℕ → Grants) : ℕ → ℕ → Bytes → ArenaTable → Option (SymErr × Bytes × ArenaTable)
  | 0, _, rest, A => some (.ok, rest, A)
  | n + 1, i, rest, A =>
    if rest.length < 4 then some (.corrupt, rest, A)
    else
      let slen := leNat (rest.take 4)
      let rest := rest.drop 4
      if rest.length < slen then some (.corrupt, rest, A)
      else do
        let (id, A) ← symInternNoSplitG (grants i) A (rest.take slen)
        match id with
        | none => return (.oom, rest, A)
        | some id =>
          if id = i then loadEntriesG grants n (i + 1) (rest.drop slen) A else return (.corrupt, rest, A)

def loadEagerG (grants rebuilding : ℕ → Grants) (A : ArenaTable) (diskCount : ℕ) (rest : Bytes) :
    Option (SymErr × ArenaTable) := do
  let (err, rest, A) ← loadEntriesG grants diskCount 0 rest A
  if err ≠ .ok then return (err, A)
  if rest ≠ [] then return (.corrupt, A)
  raySymRebuildSegmentsG rebuilding A

def reserveForG (g : Grants) (A : ArenaTable) (diskCount : ℕ) : Option (Bool × ArenaTable) :=
  if A.tab.count < diskCount then symReserveCapacityG g A (diskCount - A.tab.count) 0 else some (true, A)

def loadLazyG (g : Grants) (A : ArenaTable) (diskCount : ℕ) (rest : Bytes) : Option (SymErr × ArenaTable) := do
  let validate := min A.tab.count diskCount
  let (ok, A) ← reserveForG g A diskCount
  if ok = false then return (.oom, A)
  let (ok, T) ← validateMap (mapFile A.tab diskCount rest) validate
  if ok then return (.ok, ⟨T, g.left⟩) else return (.corrupt, ⟨{ T with lazy := none }, g.left⟩)

def raySymLoadG (grants rebuilding : ℕ → Grants) (A : ArenaTable) (file : Bytes) : Option (SymErr × ArenaTable) :=
  if file.length < 12 then some (.corrupt, A)
  else if leNat (file.take 4) ≠ symStrlMagic then some (.corrupt, A)
  else
    let diskCount := leInt ((file.drop 4).take 8)
    if diskCount < 0 ∨ 2 ^ 32 - 1 < diskCount then some (.corrupt, A)
    else if symLazyLoadMinBytes ≤ file.length then loadLazyG (grants 0) A diskCount.toNat (file.drop 12)
    else loadEagerG grants rebuilding A diskCount.toNat (file.drop 12)

section

variable {g : Grants} {A : ArenaTable} {n bytes : ℕ}

structure Room (A : ArenaTable) (n bytes : ℕ) : Prop where
  load : (A.tab.count + n) * 100 < A.tab.buckets.length * 70
  strings : A.tab.count + n ≤ A.tab.strCap
  arena : bytes ≤ A.free

lemma growStrings_le {strCap need cap : ℕ} (h : growStrings g strCap need = some cap) :
    strCap ≤ cap ∧ need ≤ cap := by
  rw [growStrings] at h
  by_cases hlt : strCap < need
  · rw [if_pos hlt] at h
    obtain ⟨t, ht, h⟩ := bind_eq_some_iff.mp h
    split_ifs at h
    obtain rfl := some.inj h
    exact strTarget_le ht
  · rw [if_neg hlt] at h
    obtain rfl := some.inj h
    omega

lemma symReserveCapacityG_spec (h : Indexed A.tab) (g : Grants) (n bytes : ℕ) :
    ∃ ok A', symReserveCapacityG g A n bytes = some (ok, A') ∧ Indexed A'.tab ∧ A'.tab.slots = A.tab.slots ∧
      A'.tab.lazy = A.tab.lazy ∧ (ok = true → Room A' n bytes) := by
  simp only [symReserveCapacityG]
  cases ht : bucketTarget (A.tab.count + n) 33 A.tab.buckets.length with
  | none => exact ⟨false, A, rfl, h, rfl, rfl, by simp⟩
  | some target =>
    obtain ⟨hneed, hsm⟩ := bucketTarget_spec ht
    obtain ⟨b, hb, hlen, hi⟩ := growBuckets_spec h (hsm h.small)
    have hload : (A.tab.count + n) * 100 < b.length * 70 := by omega
    simp only
    by_cases hdeny : A.tab.buckets.length < target ∧ g.buckets = false
    · exact ⟨false, A, by simp only [if_pos hdeny]; rfl, h, rfl, rfl, by simp⟩
    simp only [if_neg hdeny, hb, bind_eq_bind, bind_some]
    cases hcap : growStrings g A.tab.strCap (A.tab.count + n) with
    | none => exact ⟨false, ⟨{ A.tab with buckets := b }, A.free⟩, rfl, hi, rfl, rfl, by simp⟩
    | some cap =>
      obtain ⟨hle, hstr⟩ := growStrings_le hcap
      have hi' : Indexed { A.tab with buckets := b, strCap := cap } := hi.congr rfl rfl hle
      cases hr : arenaReserve g.chunk A.free bytes with
      | none => exact ⟨false, ⟨{ A.tab with buckets := b, strCap := cap }, A.free⟩, rfl, hi', rfl, rfl, by simp⟩
      | some free =>
        exact ⟨true, ⟨{ A.tab with buckets := b, strCap := cap }, free⟩, rfl, hi', rfl, rfl,
          fun _ => ⟨hload, hstr, arenaReserve_le hr⟩⟩

lemma symCommitNewG_room (h : Indexed A.tab) {s : Bytes} (hr : Room A (n + 1) (raySymBytesUpper s.length + bytes))
    (g : Grants) :
    ∃ A', symCommitNewG g A (symHash s) s = some (some A.tab.count, A') ∧ Indexed A'.tab ∧
      A'.tab.lazy = A.tab.lazy ∧
      A'.tab.slots = A.tab.slots ++ [{ emptySlot with str := some s }] ∧ Room A' n bytes := by
  obtain ⟨hload, hstr, harena⟩ := hr
  have hlarge := h.large
  rw [symInitCap] at hlarge
  have hgrow : growLoadedG g A.tab = some (true, A.tab) := by
    rw [growLoadedG, if_neg (fun hc => by omega), growLoaded, if_neg (by omega)]
  obtain ⟨b, hb⟩ := isSome_iff_exists.mp
    (place_isSome (symHash s) (⟨symHash s, A.tab.count⟩ : Entry) h.notFull)
  have hins : htInsert A.tab.buckets (symHash s) A.tab.count = some b := hb
  have hcap : ¬A.tab.strCap ≤ A.tab.count := by omega
  have hblock : arenaAlloc g.chunk A.free (arenaStrBlock s.length) =
      some (A.free - raySymBytesUpper s.length) := by
    rw [arenaStrBlock_eq]
    exact arenaAlloc_of_le (by omega)
  refine ⟨⟨{ A.tab with buckets := b, slots := A.tab.slots ++ [{ emptySlot with str := some s }] },
    A.free - raySymBytesUpper s.length⟩, ?_, h.append rfl le_rfl (by omega) hb, rfl, rfl, ?_⟩
  · simp only [symCommitNewG, hgrow, bind_eq_bind, bind_some, Bool.true_eq_false, if_false, hcap, false_and,
      hblock, hins]
    rfl
  · have hlen := place_length hb
    refine ⟨?_, ?_, ?_⟩
    · simp only [SymTable.count, length_append, length_singleton, hlen]
      rw [SymTable.count] at hload
      omega
    · simp only [SymTable.count, length_append, length_singleton]
      rw [SymTable.count] at hstr
      omega
    · show bytes ≤ A.free - raySymBytesUpper s.length
      omega

lemma newSegBytes_cons_none (s : Bytes) (descs : List (Bytes × Option ℕ)) :
    newSegBytes ((s, none) :: descs) = raySymBytesUpper s.length + newSegBytes descs := by
  simp [newSegBytes]

lemma newSegBytes_cons_some (s : Bytes) (i : ℕ) (descs : List (Bytes × Option ℕ)) :
    newSegBytes ((s, some i) :: descs) = newSegBytes descs := by
  simp [newSegBytes]

lemma commitSegsG_room (h : Indexed A.tab) (descs : List (Bytes × Option ℕ))
    (hfound : ∀ d ∈ descs, ∀ i, d.2 = some i → A.tab.strAt i = some d.1)
    (hr : Room A (newSegCount descs + n) (newSegBytes descs + bytes)) (g : Grants) :
    ∃ ids A', commitSegsG g A descs = some (some ids, A') ∧ Indexed A'.tab ∧ A'.tab.lazy = A.tab.lazy ∧
      A'.tab.slots = A.tab.slots ++ ((descs.filter fun d => d.2.isNone).map Prod.fst).map plainSlot ∧
      ids.map A'.tab.strAt = descs.map (fun d => some d.1) ∧ Room A' n bytes := by
  induction descs generalizing A with
  | nil => exact ⟨[], A, rfl, h, rfl, by simp, rfl, by simpa [newSegCount, newSegBytes] using hr⟩
  | cons d descs ih =>
    obtain ⟨s, o⟩ := d
    cases o with
    | some i =>
      rw [newSegBytes_cons_some] at hr
      obtain ⟨ids, A', hc, hi, hl, hs, hmap, hroom⟩ := ih h (fun d hd => hfound d (by simp [hd]))
        (by simpa [newSegCount] using hr)
      have hat : A'.tab.strAt i = some s := strAt_append_left hs (hfound (s, some i) (by simp) i rfl)
      exact ⟨i :: ids, A', by simp [commitSegsG, hc], hi, hl, by simpa using hs, by simp [hmap, hat], hroom⟩
    | none =>
      have hcount : newSegCount ((s, none) :: descs) = newSegCount descs + 1 := by simp [newSegCount]
      have hrooms : newSegCount descs + 1 + n = newSegCount descs + n + 1 := by omega
      rw [newSegBytes_cons_none, hcount, hrooms, add_assoc (raySymBytesUpper _)] at hr
      obtain ⟨A1, hc1, hi1, hl1, hs1, hroom1⟩ := symCommitNewG_room h hr g
      have hmark : (A1.tab.markScanned A.tab.count).slots = A.tab.slots ++ [plainSlot s] := by
        simp only [SymTable.markScanned, SymTable.update, hs1, SymTable.count, modify_concat]
        rfl
      have hi2 : Indexed (A1.tab.markScanned A.tab.count) := hi1.update _ _ fun _ => rfl
      have hroom2 : Room ⟨A1.tab.markScanned A.tab.count, A1.free⟩ (newSegCount descs + n)
          (newSegBytes descs + bytes) := by
        have hsame : (A1.tab.markScanned A.tab.count).count = A1.tab.count := by
          simp [SymTable.markScanned, SymTable.update, SymTable.count]
        obtain ⟨hload, hstr, harena⟩ := hroom1
        refine ⟨?_, ?_, harena⟩
        · rw [← hsame] at hload
          exact hload
        · rw [← hsame] at hstr
          exact hstr
      obtain ⟨ids, A', hc, hi, hl, hs, hmap, hroom⟩ := ih hi2
        (fun d hd i hdi => strAt_append_left hmark (hfound d (by simp [hd]) i hdi)) hroom2
      have hat : (A1.tab.markScanned A.tab.count).strAt A.tab.count = some s := by
        rw [SymTable.strAt, hmark]
        simp [SymTable.count, plainSlot]
      have hat' : A'.tab.strAt A.tab.count = some s := strAt_append_left hs hat
      refine ⟨A.tab.count :: ids, A', by simp [commitSegsG, hc1, hc], hi, hl.trans hl1, ?_,
        by simp [hmap, hat'], hroom⟩
      rw [hs, hmark]
      simp

end

end Rayforce.Symbol
