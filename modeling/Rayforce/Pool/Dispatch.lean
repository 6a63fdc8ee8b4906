import Rayforce.Pool.Windows

namespace Rayforce.Pool

open Library.Tickets List Option

variable {n : ℕ} {s s' : RayPool}

namespace RayPool

variable {ts : List Task} {base : ℕ}

def unfinished (s : RayPool) (base len : ℕ) : List ℕ := (List.range len).filter fun j => base + j ∉ s.finished

lemma Inv.pending_eq (h : s.Inv) (hw : s.window? = some (ts, base)) :
    s.pending = (s.unfinished base ts.length).length := by
  have hopen := h.open_of_window hw
  have hnd : s.finished.Nodup := (h.held.nodup_iff.mpr nodup_range).of_append_left
  have hlt : ∀ t ∈ s.finished, t < s.taskLimit := fun t ht =>
    (mem_range.mp (h.held.mem_iff.mp (mem_append_left _ ht))).trans_le h.le
  have hperm : ((List.range s.taskLimit).filter fun t => t ∈ s.finished).Perm s.finished := by
    refine (perm_ext_iff_of_nodup (nodup_range.filter _) hnd).mpr fun t => ?_
    rw [mem_filter, mem_range, decide_eq_true_eq]
    exact and_iff_right_of_imp (hlt t)
  have hsplit := length_eq_length_filter_add (l := List.range s.taskLimit) fun t => decide (t ∈ s.finished)
  have hbefore : (List.range base).filter (fun t => !decide (t ∈ s.finished)) = [] := by
    refine filter_eq_nil_iff.mpr fun t ht => ?_
    simpa using hopen.before t (mem_range.mp ht)
  have htarget := h.target_eq hw
  rw [hperm.length_eq, length_range] at hsplit
  have hrest : ((List.range s.taskLimit).filter fun t => !decide (t ∈ s.finished)).length =
      (s.unfinished base ts.length).length := by
    rw [hopen.limit, range_add, filter_append, hbefore, nil_append, List.filter_map, length_map, unfinished]
    congr 2
    funext j
    simp
  omega

lemma Calls.published_of_window (h : s.Calls) (hw : s.window? = some (ts, base)) :
    .published base s.taskCap ts ∈ s.log := by
  have hp := h.phase
  rw [CallOk] at hp
  rw [window?] at hw
  cases hph : s.phase <;> rw [hph] at hp hw <;> cases hw
  all_goals exact hp

end RayPool

def RayPool.run (s : RayPool) : List Act → Option RayPool
  | [] => some s
  | a :: as => (s.step a).bind (RayPool.run · as)

lemma Reachable.run (h : Reachable n s) {as : List Act} (hs : s.run as = some s') : Reachable n s' := by
  induction as generalizing s with
  | nil =>
    cases hs
    exact h
  | cons a as ih =>
    obtain ⟨t, ht, hrun⟩ := bind_eq_some_iff.mp hs
    exact ih (h.step ht) hrun

/-- The caller loses a ticket to worker 1, which sleeps again; worker 2 wakes late, on a signal left over, while
the next window is being filled, and takes its first ticket. -/
def lateWorker : List Act :=
  .dispatch (.tasks 7 8 2) :: List.replicate 14 (.producer true) ++ List.replicate 4 (.thread 1 false) ++
  List.replicate 2 (.thread 0 false) ++ [.thread 1 false] ++ List.replicate 3 (.thread 0 false) ++
  List.replicate 11 (.thread 1 false) ++ List.replicate 11 (.thread 0 false) ++ [.producer true] ++
  .dispatch (.elems 9 10 20000) :: List.replicate 5 (.producer true) ++ List.replicate 3 (.thread 2 false) ++
  List.replicate 13 (.producer true) ++ List.replicate 12 (.thread 2 false) ++ List.replicate 26
    (.thread 0 false) ++ [.producer true]

section

structure Alone (r : Request) (s : RayPool) : Prop where
  reachable : Reachable 0 s
  requests : s.log.filterMap Event.request? = [r]
  flags : s.log.filterMap Event.flag? = []
  nWorkers : s.nWorkers = 0
  main : s.threads.length = 1

variable {r : Request}

lemma quiet_log {α : Type*} (f : Event → Option α) {log : List Event} {e : Event} (he : f e = none) :
    (log ++ [e]).filterMap f = log.filterMap f := by
  rw [filterMap_append, filterMap_cons_none he, filterMap_nil, append_nil]

structure Quiet (s s' : RayPool) : Prop where
  nWorkers : s'.nWorkers = s.nWorkers
  threads : s'.threads.length = s.threads.length
  log : s'.log = s.log ∨ ∃ e, s'.log = s.log ++ [e] ∧ e.request? = none ∧ e.flag? = none

lemma Quiet.same (hn : s'.nWorkers = s.nWorkers) (ht : s'.threads.length = s.threads.length)
    (hlog : s'.log = s.log) : Quiet s s' :=
  ⟨hn, ht, .inl hlog⟩

lemma producerStep_quiet {ok : Bool} (hs : s.producerStep ok = some s') : Quiet s s' := by
  rw [RayPool.producerStep] at hs
  cases hph : s.phase with
  | idle | work ts base =>
    rw [hph] at hs
    cases hs
  | realloc r cap =>
    rw [hph] at hs
    cases hs
    cases ok <;> exact .same rfl rfl rfl
  | setTasks r block cap | setCap r cap | setPending ts base =>
    rw [hph] at hs
    cases hs
    exact .same rfl rfl rfl
  | loadBase ts | fill ts base j =>
    rw [hph] at hs
    cases hs
    exact .same rfl rfl rfl
  | setLimit ts base =>
    rw [hph] at hs
    cases hs
    exact ⟨rfl, rfl, .inr ⟨_, rfl, rfl, rfl⟩⟩
  | signal ts base i =>
    rw [hph] at hs
    cases hs
    split_ifs
    · exact .same rfl rfl rfl
    · exact .same rfl length_set rfl
  | spin ts base =>
    rw [hph] at hs
    cases hs
    split_ifs
    · exact .same rfl rfl rfl
    · exact ⟨rfl, rfl, .inr ⟨_, rfl, rfl, rfl⟩⟩
  | closing i =>
    rw [hph] at hs
    dsimp only at hs
    split_ifs at hs
    cases hs
    exact .same rfl rfl rfl

lemma leave_quiet (s : RayPool) (i : ℕ) : Quiet s (s.leave i) := by
  rw [RayPool.leave.eq_def]
  dsimp only
  split <;> exact .same rfl length_set rfl

lemma threadStep_quiet {i : ℕ} {spurious : Bool} (hs : s.threadStep i spurious = some s') : Quiet s s' := by
  rw [RayPool.threadStep] at hs
  cases hi : s.threads[i]? with
  | none =>
    rw [hi] at hs
    cases hs
  | some pc =>
    rw [hi] at hs
    cases pc with
    | asleep =>
      dsimp only at hs
      split_ifs at hs
      cases hs
      exact .same rfl length_set rfl
    | exited => cases hs
    | woken | loadClaim | loadTasks idx | loadCap idx block | loadWord idx block cap got =>
      cases hs
      exact .same rfl length_set rfl
    | loadLimit cur =>
      cases hs
      split_ifs
      · exact leave_quiet s i
      · exact .same rfl length_set rfl
    | cas cur =>
      dsimp only at hs
      split_ifs at hs <;> cases hs
      · exact ⟨rfl, length_set, .inr ⟨_, rfl, rfl, rfl⟩⟩
      · exact .same rfl length_set rfl
    | loadCancelled idx =>
      cases hs
      split_ifs
      · exact ⟨rfl, length_set, .inr ⟨_, rfl, rfl, rfl⟩⟩
      · exact .same rfl length_set rfl
    | call idx words | finish idx =>
      cases hs
      exact ⟨rfl, length_set, .inr ⟨_, rfl, rfl, rfl⟩⟩

section

variable (h : Alone r s)
include h

lemma Alone.quiet (hr : Reachable 0 s') (hq : Quiet s s') : Alone r s' := by
  refine ⟨hr, ?_, ?_, hq.nWorkers.trans h.nWorkers, hq.threads.trans h.main⟩
  · rcases hq.log with hlog | ⟨e, hlog, he, -⟩
    · rw [hlog, h.requests]
    · rw [hlog, quiet_log _ he, h.requests]
  · rcases hq.log with hlog | ⟨e, hlog, -, he⟩
    · rw [hlog, h.flags]
    · rw [hlog, quiet_log _ he, h.flags]

lemma Alone.producer (hs : s.producerStep true = some s') : Alone r s' :=
  h.quiet (h.reachable.step (a := .producer true) hs) (producerStep_quiet hs)

lemma Alone.thread (hs : s.threadStep 0 false = some s') : Alone r s' :=
  h.quiet (h.reachable.step (a := .thread 0 false) hs) (threadStep_quiet hs)

lemma Alone.filled {base j : ℕ} (hph : s.phase = .fill ts base j) :
    ∃ s', Alone r s' ∧ s'.phase = .setPending ts base := by
  obtain ⟨k, hk⟩ : ∃ k, 4 * ts.length - j = k := ⟨_, rfl⟩
  induction k generalizing s j with
  | zero =>
    refine ⟨_, h.producer (by rw [RayPool.producerStep, hph]), ?_⟩
    exact if_neg (by omega)
  | succ k ih =>
    by_cases hlt : j + 1 < 4 * ts.length
    · exact ih (h.producer (by rw [RayPool.producerStep, hph])) (j := j + 1) (if_pos hlt) (by omega)
    · exact ⟨_, h.producer (by rw [RayPool.producerStep, hph]), if_neg hlt⟩

lemma Alone.opened (hph : s.phase = .loadBase ts) :
    ∃ s' base, Alone r s' ∧ s'.phase = .work ts base ∧ s'.threads[0]? = some .loadClaim := by
  have hloaded : ∃ s' base, Alone r s' ∧ s'.phase = .setPending ts base := by
    have hstep : Alone r (s.fillNext ts s.taskLimit 0) := h.producer (by rw [RayPool.producerStep, hph])
    by_cases hlt : 0 < 4 * ts.length
    · obtain ⟨s', hs', hph'⟩ := hstep.filled (if_pos hlt)
      exact ⟨s', _, hs', hph'⟩
    · exact ⟨_, _, hstep, if_neg hlt⟩
  obtain ⟨s₁, base, h₁, hph₁⟩ := hloaded
  obtain ⟨s₂, h₂, hph₂⟩ : ∃ s', Alone r s' ∧ s'.phase = .setLimit ts base :=
    ⟨_, h₁.producer (by rw [RayPool.producerStep, hph₁]), rfl⟩
  obtain ⟨s₃, h₃, hph₃⟩ : ∃ s', Alone r s' ∧ s'.phase = .signal ts base 0 :=
    ⟨_, h₂.producer (by rw [RayPool.producerStep, hph₂]), rfl⟩
  refine ⟨{ s₃ with threads := s₃.threads.set 0 .loadClaim, phase := .work ts base }, base,
    h₃.producer ?_, rfl, ?_⟩
  · rw [RayPool.producerStep, hph₃]
    dsimp only
    rw [if_neg (by rw [h₃.nWorkers]; omega)]
  · exact getElem?_set_self (by rw [h₃.main]; exact one_pos)

end

def soloRank (claim : ℕ) : Pc → ℕ
  | .loadClaim => 3
  | .loadLimit cur => if cur = claim then 2 else 5
  | .cas cur => if cur = claim then 1 else 4
  | .loadCancelled _ => 14
  | .loadTasks _ => 13
  | .loadCap _ _ => 12
  | .loadWord _ _ _ got => 10 - got.length
  | .call _ _ => 5
  | .finish _ => 4
  | .asleep | .woken | .exited => 0

lemma Alone.worked (h : Alone r s) {pc : Pc} (hph : s.phase = .work ts base)
    (hpc : s.threads[0]? = some pc) (hrank : soloRank s.taskClaim pc ≠ 0)
    (hcur : ∀ cur, pc = .loadLimit cur → cur ≤ s.taskClaim) :
    ∃ s', Alone r s' ∧ s'.phase = .spin ts base ∧ s'.taskLimit ≤ s'.taskClaim ∧ s'.threads = [.asleep] := by
  obtain ⟨m, hm⟩ : ∃ m, 20 * (s.taskLimit - s.taskClaim) + soloRank s.taskClaim pc = m := ⟨_, rfl⟩
  induction m using Nat.strong_induction_on generalizing s pc with
  | _ m ih =>
    have hset : ∀ pc', (s.threads.set 0 pc')[0]? = some pc' := fun pc' =>
      getElem?_set_self (by rw [h.main]; exact one_pos)
    have hok := h.reachable.inv.pcs pc (mem_of_getElem? hpc)
    have next : ∀ (s' : RayPool) (pc' : Pc), s.threadStep 0 false = some s' → s'.phase = s.phase →
      s'.threads = s.threads.set 0 pc' →
        soloRank s'.taskClaim pc' ≠ 0 → 20 * (s'.taskLimit - s'.taskClaim) + soloRank s'.taskClaim pc' < m →
        (∀ cur, pc' = .loadLimit cur → cur ≤ s'.taskClaim) →
        ∃ s', Alone r s' ∧ s'.phase = .spin ts base ∧ s'.taskLimit ≤ s'.taskClaim ∧ s'.threads = [.asleep] := by
      intro s' pc' hs hph' hthreads hne hlt hcur'
      exact ih _ hlt (h.thread hs) (hph'.trans hph) (hthreads ▸ hset pc') hne hcur' rfl
    subst hm
    rw [RayPool.threadStep, hpc] at next
    cases pc with
    | asleep | woken | exited => exact absurd rfl hrank
    | loadClaim =>
      refine next _ (.loadLimit s.taskClaim) rfl rfl rfl ?_ ?_ ?_
      all_goals simp [RayPool.setPc, soloRank]
    | loadLimit cur =>
      by_cases hle : s.taskLimit ≤ cur
      · refine ⟨s.leave 0, h.thread (by rw [RayPool.threadStep, hpc]; exact congrArg some (if_pos hle)), ?_⟩
        obtain ⟨pc, hthreads⟩ := length_eq_one_iff.mp h.main
        simp [RayPool.leave.eq_def, RayPool.setPc, hph, hthreads, hle.trans (hcur cur rfl)]
      · refine next _ (.cas cur) (congrArg some (if_neg hle)) rfl rfl ?_ ?_ (by simp)
        all_goals
          dsimp only [RayPool.setPc, soloRank]
          split_ifs <;> omega
    | cas cur =>
      by_cases hclaim : s.taskClaim = cur
      · have hlt : cur < s.taskLimit := hok
        refine next _ (.loadCancelled cur) (if_pos ⟨hclaim, rfl⟩) rfl rfl (by simp [soloRank]) ?_ (by simp)
        simp only [RayPool.setPc, RayPool.note, soloRank, hclaim, if_true]
        omega
      · refine next _ (.loadLimit s.taskClaim) (if_neg fun hand => hclaim hand.1) rfl rfl ?_ ?_ ?_
        all_goals simp [RayPool.setPc, soloRank, Ne.symm hclaim]
    | loadCancelled idx =>
      by_cases hflag : s.cancelled = true
      · refine next _ (.finish idx) (congrArg some (if_pos hflag)) rfl rfl ?_ ?_ ?_
        all_goals simp [RayPool.setPc, RayPool.note, soloRank]
      · refine next _ (.loadTasks idx) (congrArg some (if_neg hflag)) rfl rfl ?_ ?_ ?_
        all_goals simp [RayPool.setPc, soloRank]
    | loadTasks idx =>
      refine next _ (.loadCap idx s.tasks) rfl rfl rfl ?_ ?_ ?_
      all_goals simp [RayPool.setPc, soloRank]
    | loadCap idx block =>
      refine next _ (.loadWord idx block s.taskCap []) rfl rfl rfl ?_ ?_ ?_
      all_goals simp [RayPool.setPc, soloRank]
    | loadWord idx block cap got =>
      have hlen : got.length < 4 := hok.2.2.1
      refine next _ _ rfl rfl rfl ?_ ?_ ?_
      · split_ifs <;> simp only [soloRank, length_append, length_singleton] <;> omega
      · simp only [RayPool.setPc, length_append, length_singleton]
        split_ifs <;> simp only [soloRank, length_append, length_singleton] <;> omega
      · split_ifs <;> simp
    | call idx words =>
      refine next _ (.finish idx) rfl rfl rfl ?_ ?_ ?_
      all_goals simp [RayPool.setPc, RayPool.note, soloRank]
    | finish idx =>
      refine next _ .loadClaim rfl rfl rfl ?_ ?_ ?_
      all_goals simp [RayPool.setPc, RayPool.note, soloRank]

theorem exists_returned (hr : r.isEmpty = false) : ∃ s, Alone r s ∧ s.phase = .idle := by
  obtain ⟨s₀, hs₀, hn, ht, hlog, hph₀⟩ : ∃ s, (create 0).dispatch r = s ∧ s.nWorkers = 0 ∧ s.threads.length = 1 ∧
      s.log = [.dispatched r] ∧ ((∃ ts, s.phase = .loadBase ts) ∨ ∃ cap, s.phase = .realloc r cap) := by
    rw [RayPool.dispatch, if_neg (by simp [hr])]
    dsimp only
    split_ifs
    · exact ⟨_, rfl, rfl, rfl, rfl, .inr ⟨_, rfl⟩⟩
    · exact ⟨_, rfl, rfl, rfl, rfl, .inl ⟨_, rfl⟩⟩
    · exact ⟨_, rfl, rfl, rfl, rfl, .inl ⟨_, rfl⟩⟩
  have h₀ : Alone r s₀ := ⟨Reachable.create.step (a := .dispatch r) (congrArg some hs₀), hlog ▸ rfl,
    hlog ▸ rfl, hn, ht⟩
  obtain ⟨s₁, ts, h₁, hph₁⟩ : ∃ s ts, Alone r s ∧ s.phase = .loadBase ts := by
    rcases hph₀ with ⟨ts, hph₀⟩ | ⟨cap, hph₀⟩
    · exact ⟨s₀, ts, h₀, hph₀⟩
    · obtain ⟨s₁, h₁, hph₁⟩ : ∃ s', Alone r s' ∧ s'.phase = .setTasks r s₀.blocks cap :=
        ⟨_, h₀.producer (by rw [RayPool.producerStep, hph₀]), rfl⟩
      obtain ⟨s₂, h₂, hph₂⟩ : ∃ s', Alone r s' ∧ s'.phase = .setCap r cap :=
        ⟨_, h₁.producer (by rw [RayPool.producerStep, hph₁]), rfl⟩
      exact ⟨_, _, h₂.producer (by rw [RayPool.producerStep, hph₂]), rfl⟩
  obtain ⟨s₂, base, h₂, hph₂, hpc⟩ := h₁.opened hph₁
  obtain ⟨s₃, h₃, hph₃, hle, hthreads⟩ := h₂.worked hph₂ hpc (by simp [soloRank]) (by simp)
  have hinv := h₃.reachable.inv
  have hlen := hinv.held.length_eq
  have hwindow : s₃.window? = some (ts, base) := by rw [RayPool.window?, hph₃]
  have htarget := hinv.target_eq hwindow
  rw [RayPool.held, hthreads, filterMap_cons_none rfl, filterMap_nil, append_nil, length_range] at hlen
  refine ⟨{ s₃ with phase := .idle }.note (.returned base ts), h₃.producer ?_, rfl⟩
  rw [RayPool.producerStep, hph₃]
  dsimp only
  rw [if_neg (by omega)]

end

end Rayforce.Pool
