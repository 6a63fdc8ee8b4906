import Rayforce.Pool.Machine

namespace Rayforce.Pool

open Library.Tickets List Option

variable {idx : ℕ} {cap : ℕ} {cur : ℕ}

def Event.claim? : Event → Option ℕ
  | .claimed _ idx => some idx
  | _ => none

def Event.settled? : Event → Option ℕ
  | .skipped idx | .ran _ idx _ => some idx
  | _ => none

def Event.done? : Event → Option ℕ
  | .done idx => some idx
  | _ => none

def Event.tasks : Event → List Task
  | .published _ _ ts => ts
  | _ => []

def Pc.ticket? : Pc → Option ℕ
  | .loadCancelled idx | .loadTasks idx | .loadCap idx _ | .loadWord idx _ _ _ | .call idx _ | .finish idx =>
    some idx
  | _ => none

def Pc.settled? : Pc → Option ℕ
  | .finish idx => some idx
  | _ => none

namespace RayPool

def claims (s : RayPool) : List ℕ := s.log.filterMap Event.claim?

def settled (s : RayPool) : List ℕ := s.log.filterMap Event.settled?

def finished (s : RayPool) : List ℕ := s.log.filterMap Event.done?

def tickets (s : RayPool) : List Task := s.log.flatMap Event.tasks

def held (s : RayPool) : List ℕ := s.threads.filterMap Pc.ticket?

def settling (s : RayPool) : List ℕ := s.threads.filterMap Pc.settled?

def PcOk (s : RayPool) : Pc → Prop
  | .cas cur => cur < s.taskLimit
  | .loadCap _ block => block = s.tasks
  | .loadWord idx block cap got =>
    block = s.tasks ∧ cap = s.taskCap ∧ got.length < 4 ∧ ∃ t, s.tickets[idx]? = some t ∧
      got = t.words.take got.length
  | .call idx words => s.tickets[idx]?.map Task.words = some words
  | _ => True

def Stored (s : RayPool) (ts : List Task) (base m : ℕ) : Prop :=
  ∀ j < m, s.mem s.tasks (slot s.taskCap (base + j / 4)) (j % 4) = wordAt ts j

def target (s : RayPool) : ℕ :=
  match s.phase with
  | .setLimit ts base => base + ts.length
  | _ => s.taskLimit

structure Open (s : RayPool) (ts : List Task) (base : ℕ) : Prop where
  limit : s.taskLimit = base + ts.length
  tickets : s.tickets.drop base = ts
  fits : ts.length ≤ s.taskCap
  stored : s.Stored ts base (4 * ts.length)
  before : ∀ t < base, t ∈ s.finished

def RingCap (cap : ℕ) : Prop := (∃ k, cap = 2 ^ k) ∧ initTasks ≤ cap ∧ cap ≤ maxTasks

def PhaseOk (s : RayPool) : Prop :=
  match s.phase with
  | .idle | .closing _ => s.pending = 0
  | .realloc _ cap | .setTasks _ _ cap | .setCap _ cap => s.pending = 0 ∧ RingCap cap
  | .loadBase ts => s.pending = 0 ∧ ts.length ≤ s.taskCap
  | .fill ts base j => s.pending = 0 ∧ base = s.taskLimit ∧ ts.length ≤ s.taskCap ∧ j < 4 * ts.length ∧
    s.Stored ts base j
  | .setPending ts base => s.pending = 0 ∧ base = s.taskLimit ∧ ts.length ≤ s.taskCap ∧
    s.Stored ts base (4 * ts.length)
  | .setLimit ts base =>
    s.pending = ts.length ∧ base = s.taskLimit ∧ ts.length ≤ s.taskCap ∧ s.Stored ts base (4 * ts.length)
  | .signal ts base _ | .work ts base | .spin ts base => s.Open ts base

def window? (s : RayPool) : Option (List Task × ℕ) :=
  match s.phase with
  | .signal ts base _ | .work ts base | .spin ts base => some (ts, base)
  | _ => none

structure Inv (s : RayPool) : Prop where
  cap : RingCap s.taskCap
  claims : s.claims = List.range s.taskClaim
  held : (s.finished ++ s.held).Perm (List.range s.taskClaim)
  settled : s.settled.Perm (s.finished ++ s.settling)
  le : s.taskClaim ≤ s.taskLimit
  tickets : s.tickets.length = s.taskLimit
  ran : ∀ i idx words, .ran i idx words ∈ s.log → s.tickets[idx]?.map Task.words = some words
  pending : s.pending + s.finished.length = s.target
  pcs : ∀ pc ∈ s.threads, s.PcOk pc
  main : (∃ ts base, s.phase = .work ts base) ∨ s.threads[0]? = some .asleep
  phase : s.PhaseOk

variable {s s' : RayPool} {ts : List Task} {base : ℕ}

lemma Inv.open_of_window (h : s.Inv) (hw : s.window? = some (ts, base)) : s.Open ts base := by
  have hp := h.phase
  rw [PhaseOk] at hp
  rw [window?] at hw
  cases hph : s.phase <;> rw [hph] at hp hw <;> cases hw
  all_goals exact hp

lemma Inv.quiet (h : s.Inv) (hw : s.window? = none) : s.finished.length = s.taskLimit ∧ s.held = [] := by
  have hfin : s.finished.length = s.taskLimit := by
    have hp := h.phase
    have hpend := h.pending
    rw [PhaseOk] at hp
    rw [target] at hpend
    rw [window?] at hw
    cases hph : s.phase <;> rw [hph] at hp hpend hw <;> dsimp only at hp hpend
    case signal | work | spin => cases hw
    all_goals omega
  have hlen := h.held.length_eq
  rw [length_append, length_range] at hlen
  have hle := h.le
  exact ⟨hfin, eq_nil_of_length_eq_zero (by omega)⟩

lemma PcOk.of_quiet {pc : Pc} (h : s.PcOk pc) (hpc : pc.ticket? = none) (hle : s.taskLimit ≤ s'.taskLimit) :
    s'.PcOk pc := by
  cases pc <;> first | exact trivial | exact lt_of_lt_of_le h hle | cases hpc

lemma Inv.prepare (h : s.Inv) (hw : s.window? = none) (hthreads : s'.threads = s.threads) (hlog : s'.log = s.log)
    (hclaim : s'.taskClaim = s.taskClaim) (hlimit : s'.taskLimit = s.taskLimit) (hcap : RingCap s'.taskCap)
    (hpend : s'.pending + s.finished.length = s'.target) (hwork : ∀ ts base, s.phase ≠ .work ts base)
    (hp : s'.PhaseOk) : s'.Inv := by
  have hheld := (h.quiet hw).2
  refine ⟨hcap, ?_, ?_, ?_, ?_, ?_, ?_, ?_, ?_, ?_, hp⟩
  · rw [RayPool.claims, hlog, hclaim]
    exact h.claims
  · rw [finished, RayPool.held, hlog, hthreads, hclaim]
    exact h.held
  · rw [RayPool.settled, finished, settling, hlog, hthreads]
    exact h.settled
  · rw [hclaim, hlimit]
    exact h.le
  · rw [RayPool.tickets, hlog, hlimit]
    exact h.tickets
  · intro i idx words hmem
    rw [RayPool.tickets, hlog]
    exact h.ran i idx words (hlog ▸ hmem)
  · rw [finished, hlog]
    exact hpend
  · intro pc hpc
    rw [hthreads] at hpc
    exact (h.pcs pc hpc).of_quiet (filterMap_eq_nil_iff.mp hheld pc hpc) hlimit.ge
  · rw [hthreads]
    exact .inr (h.main.resolve_left fun ⟨ts, base, hph⟩ => hwork ts base hph)

lemma RingCap.double (h : RingCap cap) (hlt : cap < maxTasks) : RingCap (cap * 2) := by
  obtain ⟨⟨k, rfl⟩, hlow, -⟩ := h
  have hk : k + 1 ≤ 16 := (Nat.pow_lt_pow_iff_right one_lt_two).mp hlt
  refine ⟨⟨k + 1, (pow_succ 2 k).symm⟩, by omega, ?_⟩
  rw [← pow_succ]
  exact Nat.pow_le_pow_right two_pos hk

lemma RingCap.grow (n fuel : ℕ) (h : RingCap cap) : RingCap (growCap n fuel cap) := by
  induction fuel generalizing cap with
  | zero => exact h
  | succ fuel ih =>
    rw [growCap]
    split_ifs with hlt
    · exact ih (h.double hlt.2)
    · exact h

lemma RingCap.slot (h : RingCap cap) (idx : ℕ) : slot cap idx = idx % cap := by
  obtain ⟨⟨k, rfl⟩, -⟩ := h
  exact land_mask idx k

lemma split_length (r : Request) (cap : ℕ) : (r.split cap).length ≤ cap := by
  cases r <;> simp only [Request.split, length_map, length_range] <;> split_ifs <;> omega

lemma Stored.mono {m n : ℕ} (h : s.Stored ts base n) (hm : m ≤ n) : s.Stored ts base m :=
  fun j hj => h j (hj.trans_le hm)

lemma Stored.store {j : ℕ} (h : s.Stored ts base j) (hcap : RingCap s.taskCap) (hfit : ts.length ≤ s.taskCap)
    (hj : j < 4 * ts.length) :
    (s.store (slot s.taskCap (base + j / 4)) (j % 4) (wordAt ts j)).Stored ts base (j + 1) := by
  intro i hi
  rw [RayPool.store]
  dsimp only
  rw [if_pos rfl]
  by_cases hij : i = j
  · rw [hij, if_pos ⟨rfl, rfl⟩]
  · rw [if_neg, h i (by omega)]
    rintro ⟨hslot, hword⟩
    rw [hcap.slot, hcap.slot] at hslot
    have := slot_inj (by omega) (by omega) hslot
    omega

section

variable (s : RayPool) (e : Event)

@[simp] lemma note_claims : (s.note e).claims = s.claims ++ e.claim?.toList := by
  rw [RayPool.claims, note, filterMap_append]
  cases e <;> rfl

@[simp] lemma note_settled : (s.note e).settled = s.settled ++ e.settled?.toList := by
  rw [RayPool.settled, note, filterMap_append]
  cases e <;> rfl

@[simp] lemma note_finished : (s.note e).finished = s.finished ++ e.done?.toList := by
  rw [finished, note, filterMap_append]
  cases e <;> rfl

@[simp] lemma note_tickets : (s.note e).tickets = s.tickets ++ e.tasks := by
  rw [RayPool.tickets, note, flatMap_append]
  simp [RayPool.tickets]

end

structure SameRing (s s' : RayPool) : Prop where
  mem : s'.mem = s.mem
  tasks : s'.tasks = s.tasks
  taskCap : s'.taskCap = s.taskCap
  taskLimit : s'.taskLimit = s.taskLimit
  tickets : s'.tickets = s.tickets
  finished_mem : ∀ t ∈ s.finished, t ∈ s'.finished

structure Keeps (s s' : RayPool) : Prop where
  mem : s'.mem = s.mem
  tasks : s'.tasks = s.tasks
  taskCap : s'.taskCap = s.taskCap
  taskClaim : s'.taskClaim = s.taskClaim
  taskLimit : s'.taskLimit = s.taskLimit
  pending : s'.pending = s.pending
  claims : s'.claims = s.claims
  settled : s'.settled = s.settled
  finished : s'.finished = s.finished
  tickets : s'.tickets = s.tickets
  ran : ∀ i idx words, .ran i idx words ∈ s'.log → .ran i idx words ∈ s.log

lemma PcOk.congr {pc : Pc} (h : s.PcOk pc) (ht : s'.tasks = s.tasks) (hc : s'.taskCap = s.taskCap)
    (hl : s.taskLimit ≤ s'.taskLimit)
    (htick : ∀ (idx : ℕ) (t : Task), s.tickets[idx]? = some t → s'.tickets[idx]? = some t) : s'.PcOk pc := by
  cases pc with
  | cas cur => exact lt_of_lt_of_le h hl
  | loadCap idx block => exact h.trans ht.symm
  | loadWord idx block cap got =>
    obtain ⟨h1, h2, h3, t, h4, h5⟩ := h
    exact ⟨h1.trans ht.symm, h2.trans hc.symm, h3, t, htick idx t h4, h5⟩
  | call idx words =>
    obtain ⟨t, h1, h2⟩ := map_eq_some_iff.mp h
    exact map_eq_some_iff.mpr ⟨t, htick idx t h1, h2⟩
  | _ => trivial

lemma Keeps.sameRing (k : Keeps s s') : SameRing s s' :=
  ⟨k.mem, k.tasks, k.taskCap, k.taskLimit, k.tickets, fun _ => k.finished ▸ id⟩

lemma Open.congr (h : s.Open ts base) (k : SameRing s s') : s'.Open ts base where
  limit := k.taskLimit.trans h.limit
  tickets := k.tickets ▸ h.tickets
  fits := k.taskCap ▸ h.fits
  stored := by
    rw [Stored, k.mem, k.tasks, k.taskCap]
    exact h.stored
  before t ht := k.finished_mem t (h.before t ht)

lemma PhaseOk.congr (h : s.PhaseOk) (k : Keeps s s') (hphase : s'.phase = s.phase) : s'.PhaseOk := by
  rw [PhaseOk] at h ⊢
  rw [hphase]
  cases hph : s.phase <;> rw [hph] at h <;> dsimp only at h ⊢
  case signal | work | spin => exact h.congr k.sameRing
  all_goals
    simp only [Stored, k.mem, k.tasks, k.taskCap, k.pending, k.taskLimit]
    exact h

lemma Inv.keep (h : s.Inv) (k : Keeps s s') (hheld : s'.held.Perm s.held) (hset : s'.settling.Perm s.settling)
    (hpcs : ∀ pc ∈ s'.threads, s.PcOk pc) (htarget : s'.target = s.target)
    (hmain : (∃ ts base, s'.phase = .work ts base) ∨ s'.threads[0]? = some .asleep)
    (hp : s'.PhaseOk) : s'.Inv where
  cap := k.taskCap ▸ h.cap
  claims := by
    rw [k.claims, k.taskClaim]
    exact h.claims
  held := by
    rw [k.finished, k.taskClaim]
    exact (hheld.append_left _).trans h.held
  settled := by
    rw [k.settled, k.finished]
    exact h.settled.trans (hset.symm.append_left _)
  le := by
    rw [k.taskClaim, k.taskLimit]
    exact h.le
  tickets := by
    rw [k.tickets, k.taskLimit]
    exact h.tickets
  ran i idx words hmem := by
    rw [k.tickets]
    exact h.ran i idx words (k.ran i idx words hmem)
  pending := by
    rw [k.pending, k.finished, htarget]
    exact h.pending
  pcs pc hpc := PcOk.congr (hpcs pc hpc) k.tasks k.taskCap k.taskLimit.ge fun _ _ => by
    rw [k.tickets]
    exact id
  main := hmain
  phase := hp

lemma Inv.publish (h : s.Inv) (hph : s.phase = .setLimit ts base) :
    ({ s with taskLimit := base + ts.length, phase := .signal ts base 0 }.note
      (.published base s.taskCap ts)).Inv := by
  obtain ⟨hfin, hheld⟩ := h.quiet (by rw [window?, hph])
  have hp := h.phase
  rw [PhaseOk, hph] at hp
  obtain ⟨hpend, hbase, hfit, hstored⟩ := hp
  have hclaims := h.claims
  have hperm := h.held
  rw [hheld, append_nil] at hperm
  have hclaim : s.taskClaim = s.taskLimit := by
    have := hperm.length_eq
    rw [length_range] at this
    omega
  have htick := h.tickets
  have hold : ∀ (idx : ℕ) (t : Task), s.tickets[idx]? = some t → (s.tickets ++ ts)[idx]? = some t := by
    intro idx t hidx
    rw [getElem?_append_left (List.getElem?_eq_some_iff.mp hidx).1, hidx]
  obtain ⟨s', hs'⟩ : ∃ s', s' = { s with taskLimit := base + ts.length, phase := .signal ts base 0 }.note
    (.published base s.taskCap ts) := ⟨_, rfl⟩
  have hclaims' : s'.claims = s.claims := by
    rw [hs']
    exact (note_claims _ _).trans (append_nil _)
  have hsettled' : s'.settled = s.settled := by
    rw [hs']
    exact (note_settled _ _).trans (append_nil _)
  have hfin' : s'.finished = s.finished := by
    rw [hs']
    exact (note_finished _ _).trans (append_nil _)
  have htick' : s'.tickets = s.tickets ++ ts := by
    rw [hs']
    exact note_tickets _ _
  have hlimit' : s'.taskLimit = base + ts.length := by rw [hs']; rfl
  rw [← hs']
  have hthreads' : s'.threads = s.threads := by rw [hs']; rfl
  have hclaim' : s'.taskClaim = s.taskClaim := by rw [hs']; rfl
  refine ⟨hs' ▸ h.cap, ?_, ?_, ?_, ?_, ?_, ?_, ?_, ?_, ?_, ?_⟩
  · rw [hclaims', hclaim']
    exact hclaims
  · rw [hfin', hclaim', RayPool.held, hthreads']
    exact h.held
  · rw [hsettled', hfin', settling, hthreads']
    exact h.settled
  · rw [hclaim', hlimit']
    omega
  · rw [htick', hlimit', length_append]
    omega
  · intro i idx words hmem
    rw [htick']
    have hmem' : Event.ran i idx words ∈ s.log := by
      rw [hs'] at hmem
      simpa [note] using hmem
    obtain ⟨t, ht, hw⟩ := map_eq_some_iff.mp (h.ran i idx words hmem')
    exact map_eq_some_iff.mpr ⟨t, hold idx t ht, hw⟩
  · have := h.pending
    rw [target, hph] at this
    rw [hfin', hs']
    exact this
  · intro pc hpc
    rw [hthreads'] at hpc
    exact (h.pcs pc hpc).of_quiet (filterMap_eq_nil_iff.mp hheld pc hpc) (by omega)
  · rw [hthreads']
    refine .inr (h.main.resolve_left ?_)
    rintro ⟨ts', base', hph'⟩
    rw [hph] at hph'
    cases hph'
  · have hopen : s'.Open ts base := by
      refine ⟨hlimit', ?_, hs' ▸ hfit, hs' ▸ hstored, fun t ht => ?_⟩
      · rw [htick', hbase, ← htick, drop_left]
      · rw [hfin']
        exact hperm.mem_iff.mpr (mem_range.mpr (by omega))
    subst hs'
    exact hopen

def Silent (e : Event) : Prop := e.claim? = none ∧ e.settled? = none ∧ e.done? = none ∧ e.tasks = []

lemma Silent.keeps {e : Event} (he : Silent e) (s : RayPool) : Keeps s (s.note e) := by
  obtain ⟨hclaim, hsettled, hdone, htasks⟩ := he
  refine ⟨rfl, rfl, rfl, rfl, rfl, rfl, ?_, ?_, ?_, ?_, fun i idx words hmem => ?_⟩
  · rw [note_claims, hclaim, toList_none, append_nil]
  · rw [note_settled, hsettled, toList_none, append_nil]
  · rw [note_finished, hdone, toList_none, append_nil]
  · rw [note_tickets, htasks, append_nil]
  · rcases mem_append.mp hmem with hmem | hmem
    · exact hmem
    · rw [← mem_singleton.mp hmem] at hsettled
      cases hsettled

lemma Inv.note_silent (h : s.Inv) {e : Event} (he : Silent e) : (s.note e).Inv :=
  h.keep (he.keeps s) (.refl _) (.refl _) h.pcs rfl h.main (PhaseOk.congr h.phase (he.keeps s) rfl)

lemma split_phaseOk (hpend : s.pending = 0) (r : Request) : (s.clamp r).PhaseOk := ⟨hpend, split_length r _⟩

theorem Inv.producerStep (h : s.Inv) {ok : Bool} (hs : s.producerStep ok = some s') : s'.Inv := by
  have hpend := h.pending
  have hp := h.phase
  have hmain := h.main
  rw [PhaseOk] at hp
  rw [target] at hpend
  rw [RayPool.producerStep] at hs
  cases hph : s.phase with
  | idle =>
    rw [hph] at hs
    cases hs
  | realloc r cap =>
    rw [hph] at hs hp hpend
    cases hs
    cases ok
    · exact h.prepare (by rw [window?, hph]) rfl rfl rfl rfl h.cap hpend (by simp [hph]) (split_phaseOk hp.1 r)
    · exact h.prepare (by rw [window?, hph]) rfl rfl rfl rfl h.cap hpend (by simp [hph]) hp
  | setTasks r block cap =>
    rw [hph] at hs hp hpend
    cases hs
    exact h.prepare (by rw [window?, hph]) rfl rfl rfl rfl h.cap hpend (by simp [hph]) hp
  | setCap r cap =>
    rw [hph] at hs hp hpend
    cases hs
    exact h.prepare (by rw [window?, hph]) rfl rfl rfl rfl hp.2 hpend (by simp [hph])
      (split_phaseOk (s := { s with taskCap := cap }) hp.1 r)
  | loadBase ts =>
    rw [hph] at hs hp hpend
    cases hs
    rw [fillNext]
    split_ifs with hlt
    · exact h.prepare (by rw [window?, hph]) rfl rfl rfl rfl h.cap hpend (by simp [hph])
        ⟨hp.1, rfl, hp.2, hlt, fun j hj => by omega⟩
    · exact h.prepare (by rw [window?, hph]) rfl rfl rfl rfl h.cap hpend (by simp [hph])
        ⟨hp.1, rfl, hp.2, fun j hj => by omega⟩
  | fill ts base j =>
    rw [hph] at hs hp hpend
    cases hs
    obtain ⟨hzero, hbase, hfit, hj, hstored⟩ := hp
    have hnext := hstored.store h.cap hfit hj
    rw [fillNext]
    split_ifs with hlt
    · exact h.prepare (by rw [window?, hph]) rfl rfl rfl rfl h.cap hpend (by simp [hph])
        ⟨hzero, hbase, hfit, hlt, hnext⟩
    · exact h.prepare (by rw [window?, hph]) rfl rfl rfl rfl h.cap hpend (by simp [hph])
        ⟨hzero, hbase, hfit, hnext.mono (by omega)⟩
  | setPending ts base =>
    rw [hph] at hs hp hpend
    cases hs
    obtain ⟨hzero, hbase, hfit, hstored⟩ := hp
    refine h.prepare (by rw [window?, hph]) rfl rfl rfl rfl h.cap ?_ (by simp [hph]) ⟨rfl, hbase, hfit, hstored⟩
    dsimp only at hpend ⊢
    rw [target]
    dsimp only
    omega
  | setLimit ts base =>
    rw [hph] at hs
    cases hs
    exact h.publish hph
  | signal ts base i =>
    rw [hph] at hs hp hpend
    have hasleep : s.threads[0]? = some .asleep := by
      refine hmain.resolve_left ?_
      rintro ⟨ts', base', hph'⟩
      rw [hph] at hph'
      cases hph'
    cases hs
    split_ifs
    · have k : Keeps s { s with workReady := s.workReady + 1, phase := .signal ts base (i + 1) } :=
        ⟨rfl, rfl, rfl, rfl, rfl, rfl, rfl, rfl, rfl, rfl, fun _ _ _ => id⟩
      exact h.keep k (.refl _) (.refl _) h.pcs (by rw [target, target, hph]) (.inr hasleep)
        (Open.congr hp k.sameRing)
    · have k : Keeps s { s with threads := s.threads.set 0 .loadClaim, phase := .work ts base } :=
        ⟨rfl, rfl, rfl, rfl, rfl, rfl, rfl, rfl, rfl, rfl, fun _ _ _ => id⟩
      refine h.keep k (filterMap_set_same hasleep rfl)
        (filterMap_set_same hasleep rfl) ?_ (by rw [target, target, hph])
        (.inl ⟨ts, base, rfl⟩) (Open.congr hp k.sameRing)
      intro pc hpc
      rcases mem_or_eq_of_mem_set hpc with hpc | rfl
      · exact h.pcs pc hpc
      · trivial
  | work ts base =>
    rw [hph] at hs
    cases hs
  | spin ts base =>
    rw [hph] at hs hp hpend
    have hasleep : s.threads[0]? = some .asleep := by
      refine hmain.resolve_left ?_
      rintro ⟨ts', base', hph'⟩
      rw [hph] at hph'
      cases hph'
    cases hs
    split_ifs with hpos
    · exact h
    · have k : Keeps s { s with phase := .idle } :=
        ⟨rfl, rfl, rfl, rfl, rfl, rfl, rfl, rfl, rfl, rfl, fun _ _ _ => id⟩
      have hidle : ({ s with phase := .idle } : RayPool).Inv :=
        h.keep k (.refl _) (.refl _) h.pcs (by rw [target, target, hph]) (.inr hasleep)
          (Nat.eq_zero_of_not_pos hpos)
      exact hidle.note_silent ⟨rfl, rfl, rfl, rfl⟩
  | closing i =>
    rw [hph] at hs hp hpend
    dsimp only at hs
    split_ifs at hs
    cases hs
    exact h.prepare (by rw [window?, hph]) rfl rfl rfl rfl h.cap hpend (by simp [hph]) hp

lemma Inv.split_up (h : s.Inv) (hph : s.phase = .idle) (r : Request) :
    (s.clamp r).Inv ∧ ∀ cap, RingCap cap → ({ s with phase := .realloc r cap } : RayPool).Inv := by
  have hpend := h.pending
  have hp := h.phase
  rw [PhaseOk, hph] at hp
  rw [target, hph] at hpend
  constructor
  · exact h.prepare (by rw [window?, hph]) rfl rfl rfl rfl h.cap hpend (by simp [hph]) (split_phaseOk hp r)
  · intro cap hcap
    exact h.prepare (by rw [window?, hph]) rfl rfl rfl rfl h.cap hpend (by simp [hph]) ⟨hp, hcap⟩

lemma Inv.dispatch (h : s.Inv) (hph : s.phase = .idle) (r : Request) : (s.dispatch r).Inv := by
  obtain ⟨hclamp, hgrow⟩ := (h.note_silent (e := .dispatched r) ⟨rfl, rfl, rfl, rfl⟩).split_up hph r
  rw [RayPool.dispatch]
  dsimp only
  split_ifs
  · exact h
  · exact hgrow _ (h.cap.grow _ _)
  · exact hclamp
  · exact hclamp

section

variable {i : ℕ} {pc pc' : Pc}

section

variable (h : s.Inv)
include h

lemma Inv.held_open (hidx : idx ∈ s.held) :
    ∃ ts base, s.window? = some (ts, base) ∧ s.Open ts base ∧ base ≤ idx ∧ idx < s.taskLimit := by
  cases hw : s.window? with
  | none => simp [(h.quiet hw).2] at hidx
  | some window =>
    obtain ⟨ts, base⟩ := window
    have hopen := h.open_of_window hw
    have hnd : (s.finished ++ s.held).Nodup := h.held.nodup_iff.mpr nodup_range
    have hlt : idx < s.taskClaim := mem_range.mp (h.held.mem_iff.mp (mem_append_right _ hidx))
    refine ⟨ts, base, rfl, hopen, ?_, hlt.trans_le h.le⟩
    by_contra hbase
    exact (nodup_append.mp hnd).2.2 idx (hopen.before idx (by omega)) idx hidx rfl

lemma Inv.ticket_lt (hidx : idx ∈ s.held) : ∃ t, s.tickets[idx]? = some t := by
  obtain ⟨ts, base, -, -, -, hlt⟩ := h.held_open hidx
  rw [← h.tickets] at hlt
  exact ⟨_, getElem?_eq_getElem hlt⟩

lemma Inv.word_eq {idx k : ℕ} (hidx : idx ∈ s.held) {t : Task} (ht : s.tickets[idx]? = some t) (hk : k < 4) :
    t.words[k]? = some (s.mem s.tasks (slot s.taskCap idx) k) := by
  obtain ⟨ts, base, -, hopen, hle, hlt⟩ := h.held_open hidx
  have hts : ts[idx - base]? = some t := by
    rw [← hopen.tickets, getElem?_drop, Nat.add_sub_cancel' hle, ht]
  have hstored := hopen.stored (4 * (idx - base) + k) (by
    have := hopen.limit
    omega)
  rw [show (4 * (idx - base) + k) / 4 = idx - base from by omega, show (4 * (idx - base) + k) % 4 =
    k from by omega, Nat.add_sub_cancel' hle] at hstored
  rw [hstored, wordAt, show (4 * (idx - base) + k) / 4 = idx - base from by omega,
    show (4 * (idx - base) + k) % 4 = k from by omega, hts]
  have hlen : t.words.length = 4 := rfl
  simp [getD_eq_getElem?_getD, getElem?_eq_getElem (hlen ▸ hk)]

lemma Inv.main_set (hi : s.threads[i]? = some pc) (hne : pc ≠ .asleep ∨ i ≠ 0) :
    (∃ ts base, s.phase = .work ts base) ∨ (s.threads.set i pc')[0]? = some .asleep := by
  rcases h.main with hwork | hasleep
  · exact .inl hwork
  · right
    rw [getElem?_set_ne, hasleep]
    rintro rfl
    rw [hi] at hasleep
    cases hasleep
    simp at hne

lemma Inv.move (k : Keeps s s') (hthreads : s'.threads = s.threads.set i pc') (hphase : s'.phase = s.phase)
    (hi : s.threads[i]? = some pc) (ht : pc'.ticket? = pc.ticket?) (hset : pc'.settled? = pc.settled?)
    (hok : s.PcOk pc') (hne : pc ≠ .asleep ∨ i ≠ 0) : s'.Inv := by
  refine h.keep k ?_ ?_ ?_ ?_ ?_ ?_
  · rw [RayPool.held, hthreads]
    exact filterMap_set_same hi ht
  · rw [settling, hthreads]
    exact filterMap_set_same hi hset
  · intro p hp
    rw [hthreads] at hp
    rcases mem_or_eq_of_mem_set hp with hp | rfl
    · exact h.pcs p hp
    · exact hok
  · rw [target, target, hphase, k.taskLimit]
  · rw [hphase, hthreads]
    exact h.main_set hi hne
  · exact PhaseOk.congr h.phase k hphase

omit h in
lemma keeps_setPc (s : RayPool) (i : ℕ) (pc : Pc) : Keeps s (s.setPc i pc) :=
  ⟨rfl, rfl, rfl, rfl, rfl, rfl, rfl, rfl, rfl, rfl, fun _ _ _ => id⟩

lemma Inv.leave (hi : s.threads[i]? = some (.loadLimit cur)) : (s.leave i).Inv := by
  have hasleep : (s.threads.set 0 .asleep)[0]? = some .asleep ∨ i ≠ 0 := by
    by_cases h0 : i = 0
    · subst h0
      left
      rw [getElem?_set_self (List.getElem?_eq_some_iff.mp hi).1]
    · exact .inr h0
  rw [RayPool.leave.eq_def]
  dsimp only
  split
  · rename_i ts base hph
    change s.phase = .work ts base at hph
    have k : Keeps s { s.setPc 0 .asleep with phase := .spin ts base } :=
      ⟨rfl, rfl, rfl, rfl, rfl, rfl, rfl, rfl, rfl, rfl, fun _ _ _ => id⟩
    have hopen : s.Open ts base := by
      have hp := h.phase
      rwa [PhaseOk, hph] at hp
    refine h.keep k (filterMap_set_same hi rfl) (filterMap_set_same hi rfl) ?_ (by rw [target, target, hph]; rfl)
      (.inr (hasleep.resolve_right (by simp))) (hopen.congr k.sameRing)
    intro p hp
    rcases mem_or_eq_of_mem_set hp with hp | rfl
    · exact h.pcs p hp
    · trivial
  · exact h.move (keeps_setPc s _ .asleep) rfl rfl hi rfl rfl trivial (.inl (by simp))

lemma Inv.ledger (k : SameRing s s') (hw : s.window? = some (ts, base))
    (hthreads : s'.threads = s.threads.set i pc')
    (hphase : s'.phase = s.phase) (hi : s.threads[i]? = some pc) (hok : s.PcOk pc') (hne : pc ≠ .asleep)
    (hclaims : s'.claims = List.range s'.taskClaim)
    (hheld : (s'.finished ++ s'.held).Perm (List.range s'.taskClaim))
    (hsettled : s'.settled.Perm (s'.finished ++ s'.settling)) (hle : s'.taskClaim ≤ s.taskLimit)
    (hran : ∀ i idx words, .ran i idx words ∈ s'.log → s.tickets[idx]?.map Task.words = some words)
    (hpend : s'.pending + s'.finished.length = s.taskLimit) : s'.Inv := by
  have hopen := (h.open_of_window hw).congr k
  refine ⟨k.taskCap ▸ h.cap, hclaims, hheld, hsettled, k.taskLimit ▸ hle, ?_, ?_, ?_, ?_, ?_, ?_⟩
  · rw [k.tickets, k.taskLimit]
    exact h.tickets
  · rw [k.tickets]
    exact hran
  · rw [hpend, target, hphase, k.taskLimit]
    rw [window?] at hw
    cases hph : s.phase
    case setLimit =>
      rw [hph] at hw
      cases hw
    all_goals rfl
  · intro p hp
    rw [hthreads] at hp
    have hp' : s.PcOk p := by
      rcases mem_or_eq_of_mem_set hp with hp | rfl
      · exact h.pcs p hp
      · exact hok
    refine hp'.congr k.tasks k.taskCap k.taskLimit.ge fun _ _ => ?_
    rw [k.tickets]
    exact id
  · rw [hphase, hthreads]
    exact h.main_set hi (.inl hne)
  · rw [window?] at hw
    rw [PhaseOk, hphase]
    cases hph : s.phase <;> rw [hph] at hw <;> cases hw <;> exact hopen

lemma Inv.target_eq (hw : s.window? = some (ts, base)) : s.pending + s.finished.length = s.taskLimit := by
  have hpend := h.pending
  rw [target] at hpend
  rw [window?] at hw
  cases hph : s.phase <;> rw [hph] at hw hpend <;> cases hw <;> exact hpend

lemma Inv.window_of_lt (hlt : s.taskClaim < s.taskLimit) : ∃ ts base, s.window? = some (ts, base) := by
  cases hw : s.window? with
  | some window => exact ⟨window.1, window.2, rfl⟩
  | none =>
    obtain ⟨hfin, hheld⟩ := h.quiet hw
    have := h.held.length_eq
    rw [hheld, append_nil, length_range] at this
    omega

lemma Inv.claim (hi : s.threads[i]? = some (.cas cur)) (hcur : s.taskClaim = cur) :
    (({ s with taskClaim := cur + 1 }.setPc i (.loadCancelled cur)).note (.claimed i cur)).Inv := by
  have hlt : cur < s.taskLimit := h.pcs _ (mem_of_getElem? hi)
  obtain ⟨ts, base, hw⟩ := h.window_of_lt (hcur ▸ hlt)
  obtain ⟨s', hs'⟩ : ∃ s', s' = ({ s with taskClaim := cur + 1 }.setPc i (.loadCancelled cur)).note
    (.claimed i cur) := ⟨_, rfl⟩
  have hclaims' : s'.claims = s.claims ++ [cur] := by
    rw [hs']
    exact note_claims _ _
  have hsettled' : s'.settled = s.settled := by
    rw [hs']
    exact (note_settled _ _).trans (append_nil _)
  have hfin' : s'.finished = s.finished := by
    rw [hs']
    exact (note_finished _ _).trans (append_nil _)
  have htick' : s'.tickets = s.tickets := by
    rw [hs']
    exact (note_tickets _ _).trans (append_nil _)
  have hthreads' : s'.threads = s.threads.set i (.loadCancelled cur) := by rw [hs']; rfl
  have hclaim' : s'.taskClaim = cur + 1 := by rw [hs']; rfl
  have k : SameRing s s' := ⟨by rw [hs']; rfl, by rw [hs']; rfl, by rw [hs']; rfl, by rw [hs']; rfl, htick',
    by rw [hfin']; simp⟩
  rw [← hs']
  refine h.ledger k hw hthreads' (by rw [hs']; rfl) hi trivial (by simp) ?_ ?_ ?_ ?_ ?_ ?_
  · rw [hclaims', hclaim', h.claims, hcur, range_succ]
  · rw [hfin', hclaim', RayPool.held, hthreads', range_succ]
    have hheld := filterMap_set_take (f := Pc.ticket?) (b := .loadCancelled cur) hi rfl rfl
    refine (hheld.append_left _).trans (perm_middle.trans ?_)
    have := h.held
    rw [hcur] at this
    exact (this.cons cur).trans (perm_append_singleton cur _).symm
  · rw [hsettled', hfin', settling, hthreads']
    have hsame := filterMap_set_same (f := Pc.settled?) (b := .loadCancelled cur) hi rfl
    exact h.settled.trans (hsame.symm.append_left _)
  · rw [hclaim']
    exact hlt
  · intro i idx words hmem
    refine h.ran i idx words ?_
    rw [hs'] at hmem
    simpa [note, setPc] using hmem
  · rw [hfin', show s'.pending = s.pending from by rw [hs']; rfl]
    exact h.target_eq hw

lemma Inv.settle {e : Event} (hi : s.threads[i]? = some pc) (hpc : pc.ticket? = some idx)
    (hpc' : pc.settled? = none) (he : e.settled? = some idx)
    (he' : e.claim? = none ∧ e.done? = none ∧ e.tasks = [])
    (hran : ∀ j words, e = .ran j idx words → s.tickets[idx]?.map Task.words = some words) :
    ((s.setPc i (.finish idx)).note e).Inv := by
  obtain ⟨ts, base, hw, -⟩ := h.held_open (mem_filterMap_of_getElem? hi hpc)
  obtain ⟨s', hs'⟩ : ∃ s', s' = (s.setPc i (.finish idx)).note e := ⟨_, rfl⟩
  have hclaims' : s'.claims = s.claims := by
    rw [hs', note_claims, he'.1]
    exact append_nil _
  have hsettled' : s'.settled = s.settled ++ [idx] := by
    rw [hs', note_settled, he]
    rfl
  have hfin' : s'.finished = s.finished := by
    rw [hs', note_finished, he'.2.1]
    exact append_nil _
  have htick' : s'.tickets = s.tickets := by
    rw [hs', note_tickets, he'.2.2]
    exact append_nil _
  have hthreads' : s'.threads = s.threads.set i (.finish idx) := by rw [hs']; rfl
  have hclaim' : s'.taskClaim = s.taskClaim := by rw [hs']; rfl
  have k : SameRing s s' := ⟨by rw [hs']; rfl, by rw [hs']; rfl, by rw [hs']; rfl, by rw [hs']; rfl, htick',
    by rw [hfin']; simp⟩
  rw [← hs']
  refine h.ledger k hw hthreads' (by rw [hs']; rfl) hi trivial ?_ ?_ ?_ ?_ ?_ ?_ ?_
  · rintro rfl
    cases hpc
  · rw [hclaims', hclaim', h.claims]
  · rw [hfin', hclaim', RayPool.held, hthreads']
    have hsame := filterMap_set_same (f := Pc.ticket?) (b := .finish idx) hi hpc.symm
    exact (hsame.append_left _).trans h.held
  · rw [hsettled', hfin', settling, hthreads']
    have htake := filterMap_set_take (f := Pc.settled?) (b := .finish idx) hi hpc' rfl
    refine (perm_append_singleton idx _).trans ((h.settled.cons idx).trans ?_)
    exact perm_middle.symm.trans (htake.symm.append_left _)
  · rw [hclaim']
    exact h.le
  · intro j idx' words hmem
    rw [hs'] at hmem
    rcases mem_append.mp hmem with hmem | hmem
    · exact h.ran j idx' words hmem
    · obtain rfl := mem_singleton.mp hmem
      cases he
      exact hran j words rfl
  · rw [hfin', show s'.pending = s.pending from by rw [hs']; rfl]
    exact h.target_eq hw

lemma Inv.finish (hi : s.threads[i]? = some (.finish idx)) :
    (({ s with pending := (s.pending + (2 ^ 32 - 1)) % 2 ^ 32 }.setPc i .loadClaim).note (.done idx)).Inv := by
  obtain ⟨ts, base, hw, hopen, hle, hlt⟩ := h.held_open (mem_filterMap_of_getElem? hi rfl)
  obtain ⟨s', hs'⟩ : ∃ s', s' = ({ s with pending := (s.pending + (2 ^ 32 - 1)) % 2 ^ 32 }.setPc i .loadClaim).note
    (.done idx) := ⟨_, rfl⟩
  have hclaims' : s'.claims = s.claims := by
    rw [hs']
    exact (note_claims _ _).trans (append_nil _)
  have hsettled' : s'.settled = s.settled := by
    rw [hs']
    exact (note_settled _ _).trans (append_nil _)
  have hfin' : s'.finished = s.finished ++ [idx] := by
    rw [hs']
    exact note_finished _ _
  have htick' : s'.tickets = s.tickets := by
    rw [hs']
    exact (note_tickets _ _).trans (append_nil _)
  have hthreads' : s'.threads = s.threads.set i .loadClaim := by rw [hs']; rfl
  have hclaim' : s'.taskClaim = s.taskClaim := by rw [hs']; rfl
  have hpend' : s'.pending = (s.pending + (2 ^ 32 - 1)) % 2 ^ 32 := by rw [hs']; rfl
  have k : SameRing s s' := by
    refine ⟨by rw [hs']; rfl, by rw [hs']; rfl, by rw [hs']; rfl, by rw [hs']; rfl, htick', fun t ht => ?_⟩
    rw [hfin']
    exact mem_append_left _ ht
  have hgive := filterMap_set_give (f := Pc.ticket?) (b := .loadClaim) hi rfl rfl
  have hpend := h.target_eq hw
  -- the pending count is positive and fits its 32 bits
  have hlen := h.held.length_eq
  have hheld : s.held.length = (filterMap Pc.ticket? (s.threads.set i .loadClaim)).length + 1 := hgive.length_eq
  rw [length_append, length_range] at hlen
  have hbefore : base ≤ s.finished.length := by
    have hsub : range base ⊆ s.finished := fun t ht => hopen.before t (mem_range.mp ht)
    have := (nodup_range.subperm hsub).length_le
    rwa [length_range] at this
  have hfits := hopen.fits
  have hcap := h.cap.2
  have hlimit := hopen.limit
  have hclaimle := h.le
  have hmax : maxTasks = 2 ^ 16 := rfl
  rw [← hs']
  refine h.ledger k hw hthreads' (by rw [hs']; rfl) hi trivial (by simp) ?_ ?_ ?_ ?_ ?_ ?_
  · rw [hclaims', hclaim', h.claims]
  · rw [hfin', hclaim', RayPool.held, hthreads', append_assoc, singleton_append]
    exact (hgive.symm.append_left _).trans h.held
  · rw [hsettled', hfin', settling, hthreads', append_assoc, singleton_append]
    have hset := filterMap_set_give (f := Pc.settled?) (b := .loadClaim) hi rfl rfl
    exact h.settled.trans (hset.append_left _)
  · rw [hclaim']
    exact h.le
  · intro j idx' words hmem
    refine h.ran j idx' words ?_
    rw [hs'] at hmem
    simpa [note, setPc] using hmem
  · rw [hfin', hpend', length_append, length_singleton]
    omega

theorem Inv.threadStep {spurious : Bool} (hs : s.threadStep i spurious = some s') : s'.Inv := by
  rw [RayPool.threadStep] at hs
  cases hi : s.threads[i]? with
  | none =>
    rw [hi] at hs
    cases hs
  | some pc =>
    rw [hi] at hs
    have hok := h.pcs pc (mem_of_getElem? hi)
    cases pc with
    | asleep =>
      dsimp only at hs
      split_ifs at hs with hwake
      cases hs
      have k : Keeps s ({ s with workReady := s.workReady - 1 }.setPc i .woken) :=
        ⟨rfl, rfl, rfl, rfl, rfl, rfl, rfl, rfl, rfl, rfl, fun _ _ _ => id⟩
      exact h.move k rfl rfl hi rfl rfl trivial (.inr hwake.1)
    | woken =>
      cases hs
      split_ifs <;> exact h.move (keeps_setPc s i _) rfl rfl hi rfl rfl trivial (.inl (by simp))
    | exited => cases hs
    | loadClaim =>
      cases hs
      exact h.move (keeps_setPc s i _) rfl rfl hi rfl rfl trivial (.inl (by simp))
    | loadLimit cur =>
      cases hs
      split_ifs with hlim
      · exact h.leave hi
      · exact h.move (keeps_setPc s i _) rfl rfl hi rfl rfl (Nat.lt_of_not_le hlim) (.inl (by simp))
    | cas cur =>
      dsimp only at hs
      split_ifs at hs with hcas
      · cases hs
        exact h.claim hi hcas.1
      · cases hs
        exact h.move (keeps_setPc s i _) rfl rfl hi rfl rfl trivial (.inl (by simp))
    | loadCancelled idx =>
      cases hs
      split_ifs
      · exact h.settle hi rfl rfl rfl ⟨rfl, rfl, rfl⟩ (by simp)
      · exact h.move (keeps_setPc s i _) rfl rfl hi rfl rfl trivial (.inl (by simp))
    | loadTasks idx =>
      cases hs
      exact h.move (keeps_setPc s i _) rfl rfl hi rfl rfl rfl (.inl (by simp))
    | loadCap idx block =>
      cases hs
      obtain ⟨t, ht⟩ := h.ticket_lt (mem_filterMap_of_getElem? hi rfl)
      exact h.move (keeps_setPc s i _) rfl rfl hi rfl rfl ⟨hok, rfl, by simp, t, ht, rfl⟩ (.inl (by simp))
    | loadWord idx block cap got =>
      obtain ⟨hblock, hcap, hlen, t, ht, hgot⟩ := hok
      have hword := h.word_eq (mem_filterMap_of_getElem? hi rfl) ht hlen
      have hnext : got ++ [s.mem block (slot cap idx) got.length] = t.words.take (got.length + 1) := by
        rw [hblock, hcap, take_add_one, hword, ← hgot]
        rfl
      cases hs
      split_ifs with hfull
      · refine h.move (keeps_setPc s i _) rfl rfl hi rfl rfl ?_ (.inl (by simp))
        rw [PcOk, ht, hnext, take_of_length_le]
        · rfl
        · rw [length_append, length_singleton] at hfull
          exact hfull.ge
      · refine h.move (keeps_setPc s i _) rfl rfl hi rfl rfl ⟨hblock, hcap, ?_, t, ht, ?_⟩ (.inl (by simp))
        · rw [length_append, length_singleton] at hfull ⊢
          omega
        · rw [length_append, length_singleton, ← hnext]
    | call idx words =>
      cases hs
      refine h.settle hi rfl rfl rfl ⟨rfl, rfl, rfl⟩ fun j words' hw => ?_
      cases hw
      exact hok
    | finish idx =>
      cases hs
      exact h.finish hi

end

end

lemma create_inv (n : ℕ) : (create n).Inv where
  cap := ⟨⟨10, rfl⟩, le_refl initTasks, show initTasks ≤ maxTasks by decide⟩
  claims := rfl
  held := by
    have hheld : (create n).held = [] := by
      rw [RayPool.held, filterMap_eq_nil_iff]
      intro pc hpc
      rw [eq_of_mem_replicate hpc]
      rfl
    rw [hheld]
    exact .refl _
  settled := by
    have hset : (create n).settling = [] := by
      rw [settling, filterMap_eq_nil_iff]
      intro pc hpc
      rw [eq_of_mem_replicate hpc]
      rfl
    rw [hset]
    exact .refl _
  le := le_rfl
  tickets := rfl
  ran := by simp [create]
  pending := rfl
  pcs pc hpc := by
    rw [eq_of_mem_replicate hpc]
    trivial
  main := .inr rfl
  phase := rfl

theorem Inv.step (h : s.Inv) {a : Act} (hs : s.step a = some s') : s'.Inv := by
  cases a with
  | dispatch r =>
    rw [RayPool.step] at hs
    split at hs <;> cases hs
    exact h.dispatch ‹_› r
  | free =>
    rw [RayPool.step] at hs
    split at hs <;> cases hs
    rename_i hph
    have hpend := h.pending
    have hp := h.phase
    rw [PhaseOk, hph] at hp
    rw [target, hph] at hpend
    exact h.prepare (by rw [window?, hph]) rfl rfl rfl rfl h.cap hpend (by simp [hph]) hp
  | producer ok => exact h.producerStep hs
  | thread i spurious => exact h.threadStep hs
  | cancel flag =>
    cases hs
    have k : Keeps s { s with cancelled := flag } :=
      ⟨rfl, rfl, rfl, rfl, rfl, rfl, rfl, rfl, rfl, rfl, fun _ _ _ => id⟩
    have hflag : ({ s with cancelled := flag } : RayPool).Inv :=
      h.keep k (.refl _) (.refl _) h.pcs rfl h.main (PhaseOk.congr h.phase k rfl)
    exact hflag.note_silent ⟨rfl, rfl, rfl, rfl⟩

end RayPool

theorem Reachable.inv {n : ℕ} {s : RayPool} (h : Reachable n s) : s.Inv := by
  induction h with
  | create => exact RayPool.create_inv n
  | step _ hs ih => exact ih.step hs

end Rayforce.Pool
