import Rayforce.Pool.Invariant

namespace Rayforce.Pool

open Library.Tickets List Option

variable {total : ℤ} {e : Event} {log : List Event} {cap : ℕ}

def Event.request? : Event → Option Request
  | .dispatched r => some r
  | _ => none

def Event.flag? : Event → Option Bool
  | .cancel flag => some flag
  | _ => none

def lastRequest? (log : List Event) : Option Request := (log.filterMap Event.request?).getLast?

def lastFlag (log : List Event) : Bool := (log.filterMap Event.flag?).getLast?.getD false

def Request.Served (cap : ℕ) (ts : List Task) : Request → Prop
  | .elems fn ctx total => total ≤ taskGrain * (2 ^ 32 - 1) → ∀ x, 0 ≤ x → x < total →
      ∃! i : ℕ, ∃ t : Task, ts[i]? = some t ∧ t.fn = fn ∧ t.ctx = ctx ∧ t.start ≤ x ∧ x < t.stop
  | .tasks fn ctx n => ts = ((List.range n).map fun i : ℕ => (⟨fn, ctx, i, i + 1⟩ : Task)).take cap

def Sound (before : List Event) : Event → Prop
  | .published base cap ts => base = (before.flatMap Event.tasks).length ∧ initTasks ≤ cap ∧ cap ≤ maxTasks ∧
      ∃ r, lastRequest? before = some r ∧ r.Served cap ts
  | .claimed _ idx => idx = (before.filterMap Event.claim?).length ∧ idx < (before.flatMap Event.tasks).length
  | .skipped idx => lastFlag before = true ∧ ∃ i, .claimed i idx ∈ before
  | .ran i idx words => .claimed i idx ∈ before ∧ (before.flatMap Event.tasks)[idx]?.map Task.words = some words
  | .done idx => idx ∈ before.filterMap Event.settled?
  | .returned base ts => (∃ cap, .published base cap ts ∈ before) ∧ ∀ j < ts.length,
      (before.filterMap Event.claim?).count (base + j) = 1 ∧
        (before.filterMap Event.settled?).count (base + j) = 1 ∧
        (before.filterMap Event.done?).count (base + j) = 1
  | .dispatched _ | .cancel _ => True

lemma ranges_cover (fn ctx : ℤ) {total grain x : ℤ} {n : ℕ} (hgrain : 0 < grain) (hn : total ≤ n * grain)
    (hx : 0 ≤ x) (hlt : x < total) :
    ∃! i : ℕ, ∃ t : Task, ((List.range n).map fun i : ℕ =>
      (⟨fn, ctx, i * grain, if i * grain + grain > total then total else i * grain + grain⟩ : Task))[i]? = some t ∧
      t.fn = fn ∧ t.ctx = ctx ∧ t.start ≤ x ∧ x < t.stop := by
  obtain ⟨q, hq⟩ := Int.eq_ofNat_of_zero_le (Int.ediv_nonneg hx hgrain.le)
  have hlow : q * grain ≤ x := hq ▸ Int.ediv_mul_le x hgrain.ne'
  have hhigh : x < (q + 1) * grain := hq ▸ Int.lt_ediv_add_one_mul_self x hgrain
  have hqn : (q : ℤ) < n := lt_of_mul_lt_mul_right ((hlow.trans_lt hlt).trans_le hn) hgrain.le
  rw [add_one_mul] at hhigh
  refine ⟨q, ⟨⟨fn, ctx, q * grain, if q * grain + grain > total then total else q * grain + grain⟩, ?_, rfl, rfl,
    hlow, ?_⟩, ?_⟩
  · rw [getElem?_map, getElem?_range (Int.ofNat_lt.mp hqn), map_some]
  · dsimp only
    split_ifs <;> omega
  · rintro i ⟨t, ht, -, -, hstart, hstop⟩
    obtain ⟨k, hk, rfl⟩ := map_eq_some_iff.mp (getElem?_map .. ▸ ht)
    obtain ⟨hin, rfl⟩ := List.getElem?_eq_some_iff.mp hk
    rw [getElem_range] at hstart hstop
    have hstop' : x < (i + 1) * grain := by
      rw [add_one_mul]
      split_ifs at hstop <;> omega
    have hiq : (i : ℤ) < q + 1 := lt_of_mul_lt_mul_right (hstart.trans_lt (by rwa [add_one_mul])) hgrain.le
    have hqi : (q : ℤ) < i + 1 := lt_of_mul_lt_mul_right (hlow.trans_lt hstop') hgrain.le
    omega

lemma split_count (fn ctx : ℤ) (hpos : 0 < total) (hsmall : total ≤ taskGrain * (2 ^ 32 - 1)) :
    (Request.elems fn ctx total).total = total ∧ ((Request.elems fn ctx total).nTasks : ℤ) =
    (total + taskGrain - 1) / taskGrain := by
  rw [taskGrain] at hsmall
  have htotal : (Request.elems fn ctx total).total = total := by
    rw [Request.total, if_neg]
    rw [taskGrain]
    omega
  refine ⟨htotal, ?_⟩
  dsimp only [Request.nTasks]
  rw [htotal, taskGrain]
  omega

lemma split_elems (fn ctx : ℤ) {total x : ℤ} (hcap : 0 < cap) (hsmall : total ≤ taskGrain * (2 ^ 32 - 1))
    (hx : 0 ≤ x) (hlt : x < total) : ∃! i : ℕ, ∃ t :
      Task, ((Request.elems fn ctx total).split cap)[i]? = some t ∧ t.fn = fn ∧
      t.ctx = ctx ∧ t.start ≤ x ∧ x < t.stop := by
  obtain ⟨htotal, htasks⟩ := split_count fn ctx (hx.trans_lt hlt) hsmall
  rw [taskGrain] at htasks
  rw [Request.split]
  dsimp only
  rw [htotal]
  split_ifs with hfew
  · have hcap' : (0 : ℤ) < cap := Int.natCast_pos.mpr hcap
    have hceil : total + cap - 1 < ((total + cap - 1) / cap + 1) * cap := Int.lt_ediv_add_one_mul_self _ hcap'
    have hgrain : 1 ≤ (total + cap - 1) / cap := Int.le_ediv_of_mul_le hcap' (by omega)
    rw [add_one_mul, mul_comm] at hceil
    exact ranges_cover fn ctx hgrain (by omega) hx hlt
  · exact ranges_cover fn ctx (by decide) (by rw [taskGrain]; omega) hx hlt

lemma split_tasks (fn ctx : ℤ) (n cap : ℕ) :
    (Request.tasks fn ctx n).split cap = (List.range (min n cap)).map fun i : ℕ =>
    (⟨fn, ctx, i, i + 1⟩ : Task) := by
  have hmin : (if cap < (Request.tasks fn ctx n).nTasks then cap else (Request.tasks fn ctx n).nTasks) =
      min n cap := by
    rw [Request.nTasks]
    grind
  rw [Request.split, hmin]

lemma split_served (hcap : 0 < cap) (r : Request) : r.Served cap (r.split cap) := by
  cases r with
  | elems fn ctx total => exact fun hsmall x hx hlt => split_elems fn ctx hcap hsmall hx hlt
  | tasks fn ctx n => rw [Request.Served, split_tasks, ← map_take, take_range, min_comm]

def cut (fn ctx total grain : ℤ) (i : ℕ) : Task :=
  ⟨fn, ctx, i * grain, if i * grain + grain > total then total else i * grain + grain⟩

lemma cut_stop (fn ctx total grain : ℤ) (i : ℕ) : (cut fn ctx total grain i).stop ≤ total := by
  rw [cut]
  dsimp only
  split_ifs <;> omega

lemma cut_ordered (fn ctx : ℤ) {total grain : ℤ} (hgrain : 0 ≤ grain) (i : ℕ) :
    (cut fn ctx total grain i).start ≤ (cut fn ctx total grain i).stop ↔ i * grain ≤ total := by
  rw [cut]
  dsimp only
  split_ifs <;> omega

lemma split_cut (fn ctx : ℤ) (cap : ℕ) (hpos : 0 < total) (hsmall : total ≤ taskGrain * (2 ^ 32 - 1)) :
    (Request.elems fn ctx total).split cap =
      if cap < (Request.elems fn ctx total).nTasks then (List.range cap).map
        (cut fn ctx total ((total + cap - 1) / cap))
      else (List.range (Request.elems fn ctx total).nTasks).map (cut fn ctx total taskGrain) := by
  rw [Request.split]
  dsimp only
  rw [(split_count fn ctx hpos hsmall).1]
  split_ifs <;> rfl

lemma ceil_grain {cap i : ℕ} (hpos : 0 < total) (hi : i < cap) :
    0 ≤ (total + cap - 1) / cap ∧ i * ((total + cap - 1) / cap) ≤ ((cap : ℤ) - 1) * ((total + cap - 1) / cap) ∧
      ((cap : ℤ) - 1) * ((total + cap - 1) / cap) ≤ total + cap - 1 := by
  have hcap : (0 : ℤ) < cap := by omega
  have hgrain : 0 ≤ (total + cap - 1) / cap := Int.ediv_nonneg (by omega) hcap.le
  have hmul : (total + cap - 1) / cap * cap ≤ total + cap - 1 := Int.ediv_mul_le _ hcap.ne'
  refine ⟨hgrain, mul_le_mul_of_nonneg_right (by omega) hgrain, ?_⟩
  rw [sub_one_mul, mul_comm (cap : ℤ)]
  omega

/-- What the ranges of a dispatch are meant to be. -/
structure WellSplit (fn ctx total : ℤ) (cap : ℕ) : Prop where
  count : ((Request.elems fn ctx total).nTasks : ℤ) = (total + taskGrain - 1) / taskGrain
  sums : total + taskGrain - 1 < 2 ^ 63 ∧ total + cap - 1 < 2 ^ 63
  within : ∀ t ∈ (Request.elems fn ctx total).split cap, 0 ≤ t.start ∧ t.start < 2 ^ 62 ∧ t.stop ≤ total
  ordered : ∀ t ∈ (Request.elems fn ctx total).split cap, t.start ≤ t.stop
  cover : ∀ x, 0 ≤ x → x < total →
    ∃! i : ℕ, ∃ t : Task, ((Request.elems fn ctx total).split cap)[i]? = some t ∧ t.start ≤ x ∧ x < t.stop

section

variable (fn ctx : ℤ) (hpos : 0 < total) (hsmall : total ≤ taskGrain * (2 ^ 32 - 1))
include hpos hsmall

lemma few_iff (cap : ℕ) : cap < (Request.elems fn ctx total).nTasks ↔ cap * taskGrain < total := by
  have hcount := (split_count fn ctx hpos hsmall).2
  rw [taskGrain] at hcount ⊢
  omega

lemma start_lt {i : ℕ} (hi : i < (Request.elems fn ctx total).nTasks) : (i : ℤ) * taskGrain < total :=
  (few_iff fn ctx hpos hsmall i).mp hi

lemma split_within (hmax : cap ≤ maxTasks) :
    ∀ t ∈ (Request.elems fn ctx total).split cap, 0 ≤ t.start ∧ t.start < 2 ^ 62 ∧ t.stop ≤ total := by
  intro t ht
  have hbound : total ≤ 8192 * (2 ^ 32 - 1) := hsmall
  have hcap : (cap : ℤ) ≤ 65536 := by
    rw [maxTasks] at hmax
    omega
  rw [split_cut fn ctx cap hpos hsmall] at ht
  split_ifs at ht with hfew
  · obtain ⟨i, hi, rfl⟩ := List.mem_map.mp ht
    obtain ⟨hgrain, hle, htop⟩ := ceil_grain (i := i) hpos (mem_range.mp hi)
    refine ⟨mul_nonneg (Int.natCast_nonneg i) hgrain, ?_, cut_stop _ _ _ _ _⟩
    rw [cut]
    dsimp only
    omega
  · obtain ⟨i, hi, rfl⟩ := List.mem_map.mp ht
    have hlt := start_lt fn ctx hpos hsmall (mem_range.mp hi)
    refine ⟨mul_nonneg (Int.natCast_nonneg i) (by decide), ?_, cut_stop _ _ _ _ _⟩
    rw [cut]
    dsimp only
    omega

lemma split_ordered (hcap : 0 < cap) : (∀ t ∈ (Request.elems fn ctx total).split cap, t.start ≤ t.stop) ↔
    (cap * taskGrain < total → ((cap : ℤ) - 1) * ((total + cap - 1) / cap) ≤ total) := by
  rw [split_cut fn ctx cap hpos hsmall, ← few_iff fn ctx hpos hsmall]
  split_ifs with hfew
  · rw [List.forall_mem_map]
    constructor
    · intro hall _
      obtain ⟨hgrain, -⟩ := ceil_grain hpos (Nat.sub_lt hcap one_pos)
      have hlast := (cut_ordered fn ctx hgrain (cap - 1)).mp (hall _ (mem_range.mpr (by omega)))
      rwa [Nat.cast_sub hcap, Nat.cast_one] at hlast
    · intro hlast i hi
      obtain ⟨hgrain, hle, -⟩ := ceil_grain (i := i) hpos (mem_range.mp hi)
      exact (cut_ordered fn ctx hgrain i).mpr (hle.trans (hlast hfew))
  · refine iff_of_true ?_ fun h => absurd h hfew
    rw [List.forall_mem_map]
    exact fun i hi => (cut_ordered fn ctx (by decide) i).mpr (start_lt fn ctx hpos hsmall (mem_range.mp hi)).le

lemma split_cover {x : ℤ} (hcap : 0 < cap) (hx : 0 ≤ x) (hlt : x < total) :
    ∃! i : ℕ, ∃ t : Task, ((Request.elems fn ctx total).split cap)[i]? = some t ∧ t.start ≤ x ∧ x < t.stop := by
  obtain ⟨i, ⟨t, ht, -, -, hstart, hstop⟩, hunique⟩ := split_elems fn ctx hcap hsmall hx hlt
  refine ⟨i, ⟨t, ht, hstart, hstop⟩, ?_⟩
  rintro j ⟨u, hu, hstart', hstop'⟩
  refine hunique j ⟨u, hu, ?_, ?_, hstart', hstop'⟩
  all_goals
    rw [split_cut fn ctx cap hpos hsmall] at hu
    split_ifs at hu <;>
    · obtain ⟨k, -, rfl⟩ := List.mem_map.mp (mem_of_getElem? hu)
      rfl

end

/-- The ranges are what they are meant to be unless the count of tasks is cut off or the last start lies past the
end. -/
theorem split_ranges (fn ctx : ℤ) {total : ℤ} (hpos : 0 < total) {cap : ℕ} (hcap : 0 < cap)
    (hmax : cap ≤ maxTasks) : (WellSplit fn ctx total cap ↔ total ≤ taskGrain * (2 ^ 32 - 1) ∧
      (cap * taskGrain < total → ((cap : ℤ) - 1) * ((total + cap - 1) / cap) ≤ total)) ∧
    ∀ n, (Request.tasks fn ctx n).split cap =
    ((List.range n).map fun i : ℕ => (⟨fn, ctx, i, i + 1⟩ : Task)) ↔ n ≤ cap := by
  constructor
  · constructor
    · intro h
      have hsmall : total ≤ taskGrain * (2 ^ 32 - 1) := by
        have hcount := h.count
        have hlt : (Request.elems fn ctx total).nTasks < 2 ^ 32 := Nat.mod_lt _ (by norm_num)
        rw [taskGrain] at hcount ⊢
        omega
      exact ⟨hsmall, (split_ordered fn ctx hpos hsmall hcap).mp h.ordered⟩
    · rintro ⟨hsmall, hlast⟩
      have hbound : total ≤ 8192 * (2 ^ 32 - 1) := hsmall
      rw [maxTasks] at hmax
      exact ⟨(split_count fn ctx hpos hsmall).2, ⟨by rw [taskGrain]; omega, by omega⟩,
        split_within fn ctx hpos hsmall hmax,
        (split_ordered fn ctx hpos hsmall hcap).mpr hlast, fun x hx hlt =>
          split_cover fn ctx hpos hsmall hcap hx hlt⟩
  · intro n
    rw [split_tasks]
    constructor
    · intro h
      have hlen := congrArg List.length h
      simp only [length_map, length_range] at hlen
      omega
    · intro h
      rw [Nat.min_eq_left h]

/-- Three tasks in a ring of two slots. -/
theorem split_ranges_three : WellSplit 1 2 20000 2 :=
  (split_ranges 1 2 (by decide) (by decide) (by decide)).1.mpr ⟨by decide, fun _ => by decide⟩

/-- One element more than the full ring: the last tasks start past the end. -/
theorem split_starts_past_end : ¬ WellSplit 1 2 (2 ^ 29 + 1) (2 ^ 16) := by
  intro h
  have hlast := (split_ordered 1 2 (by norm_num) (by rw [taskGrain]; norm_num) (by norm_num)).mp h.ordered
  exact absurd (hlast (by rw [taskGrain]; norm_num)) (by norm_num)

namespace RayPool

def CallOk (s : RayPool) : Prop :=
  match s.phase with
  | .realloc r cap | .setTasks r _ cap | .setCap r cap => lastRequest? s.log = some r ∧ 0 < cap
  | .loadBase ts | .fill ts _ _ | .setPending ts _ | .setLimit ts _ =>
    ∃ r, lastRequest? s.log = some r ∧ r.Served s.taskCap ts
  | .signal ts base _ | .work ts base | .spin ts base => .published base s.taskCap ts ∈ s.log
  | .idle | .closing _ => True

structure Calls (s : RayPool) : Prop where
  flag : s.cancelled = lastFlag s.log
  claimer : ∀ i pc idx, s.threads[i]? = some pc → pc.ticket? = some idx → .claimed i idx ∈ s.log
  phase : s.CallOk
  history : Past Sound s.log

variable {s s' : RayPool} {ts : List Task} {base : ℕ}

lemma lastRequest?_concat (he : e.request? = none) : lastRequest? (log ++ [e]) = lastRequest? log := by
  rw [lastRequest?, filterMap_append, filterMap_cons_none he, filterMap_nil, append_nil, lastRequest?]

lemma lastFlag_concat (he : e.flag? = none) : lastFlag (log ++ [e]) = lastFlag log := by
  rw [lastFlag, filterMap_append, filterMap_cons_none he, filterMap_nil, append_nil, lastFlag]

lemma CallOk.congr (h : s.CallOk) (hphase : s'.phase = s.phase) (hcap : s'.taskCap = s.taskCap)
    (hreq : lastRequest? s'.log = lastRequest? s.log) (hlog : ∀ e ∈ s.log, e ∈ s'.log) : s'.CallOk := by
  rw [CallOk] at h ⊢
  rw [hphase, hreq, hcap]
  cases hph : s.phase <;> rw [hph] at h <;> first | exact h | exact hlog _ h

lemma Calls.note (h : s.Calls) (he : Sound s.log e) (hreq : e.request? = none) (hflag : e.flag? = none) :
    (s.note e).Calls where
  flag := h.flag.trans (lastFlag_concat hflag).symm
  claimer i pc idx hi hpc := mem_append_left _ (h.claimer i pc idx hi hpc)
  phase := h.phase.congr rfl rfl (lastRequest?_concat hreq) fun _ => mem_append_left _
  history := h.history.concat he

lemma Calls.setPc (h : s.Calls) {i : ℕ} {pc : Pc} (hpc : ∀ idx, pc.ticket? = some idx → .claimed i idx ∈ s.log) :
    (s.setPc i pc).Calls where
  flag := h.flag
  claimer j pc' idx hj hpc' := by
    rw [RayPool.setPc, getElem?_set] at hj
    split_ifs at hj with hij
    · cases hj
      exact hij ▸ hpc idx hpc'
    · exact h.claimer j pc' idx hj hpc'
  phase := h.phase.congr rfl rfl rfl fun _ => id
  history := h.history

lemma Calls.congr (h : s.Calls) (hthreads : s'.threads = s.threads) (hlog : s'.log = s.log)
    (hflag : s'.cancelled = s.cancelled) (hphase : s'.CallOk) : s'.Calls where
  flag := by
    rw [hflag, hlog]
    exact h.flag
  claimer := by
    rw [hthreads, hlog]
    exact h.claimer
  phase := hphase
  history := hlog ▸ h.history

lemma Calls.setCounters (h : s.Calls) (claim pending : ℕ) :
    ({ s with taskClaim := claim, pending := pending } : RayPool).Calls :=
  h.congr rfl rfl rfl (h.phase.congr rfl rfl rfl fun _ => id)

lemma Inv.once (h : s.Inv) {t : ℕ} (ht : t ∈ s.finished) :
    s.claims.count t = 1 ∧ s.settled.count t = 1 ∧ s.finished.count t = 1 := by
  have hnd : (s.finished ++ s.held).Nodup := h.held.nodup_iff.mpr nodup_range
  have hfin : s.finished.count t = 1 := count_eq_one_of_mem hnd.of_append_left ht
  have hset : t ∉ s.settling := by
    intro hmem
    obtain ⟨pc, hpc, hidx⟩ := mem_filterMap.mp hmem
    refine (nodup_append.mp hnd).2.2 t ht t (mem_filterMap.mpr ⟨pc, hpc, ?_⟩) rfl
    cases pc <;> cases hidx
    rfl
  refine ⟨?_, ?_, hfin⟩
  · rw [h.claims]
    exact count_eq_one_of_mem nodup_range (h.held.mem_iff.mp (mem_append_left _ ht))
  · rw [h.settled.count_eq, count_append, hfin, count_eq_zero_of_not_mem hset]

lemma Inv.all_finished (h : s.Inv) (hw : s.window? = some (ts, base)) (hpend : s.pending = 0) {t : ℕ}
    (ht : t < base + ts.length) :
    t ∈ s.finished := by
  have htarget := h.target_eq hw
  have hlimit := (h.open_of_window hw).limit
  have hlen := h.held.length_eq
  have hle := h.le
  rw [length_append, length_range] at hlen
  have hheld : s.held = [] := eq_nil_of_length_eq_zero (by omega)
  have hperm := h.held
  rw [hheld, append_nil] at hperm
  exact hperm.mem_iff.mpr (mem_range.mpr (by omega))

lemma Calls.leave (h : s.Calls) (i : ℕ) : (s.leave i).Calls := by
  have hset : (s.setPc i .asleep).Calls := h.setPc (by simp [Pc.ticket?])
  rw [RayPool.leave.eq_def]
  dsimp only
  split
  · rename_i ts base hph
    have hp := hset.phase
    rw [CallOk, hph] at hp
    exact hset.congr rfl rfl rfl hp
  · exact hset

lemma Calls.threadStep (h : s.Calls) (hI : s.Inv) {i : ℕ} {spurious : Bool}
    (hs : s.threadStep i spurious = some s') : s'.Calls := by
  rw [RayPool.threadStep] at hs
  cases hi : s.threads[i]? with
  | none =>
    rw [hi] at hs
    cases hs
  | some pc =>
    rw [hi] at hs
    have hok := hI.pcs pc (mem_of_getElem? hi)
    have hclaim := h.claimer i pc
    cases pc with
    | asleep =>
      dsimp only at hs
      split_ifs at hs
      cases hs
      have hwoken : RayPool.Calls { s with workReady := s.workReady - 1 } := h.congr rfl rfl rfl h.phase
      exact hwoken.setPc (by simp [Pc.ticket?])
    | woken =>
      cases hs
      refine h.setPc ?_
      split_ifs <;> simp [Pc.ticket?]
    | exited => cases hs
    | loadClaim =>
      cases hs
      exact h.setPc (by simp [Pc.ticket?])
    | loadLimit cur =>
      cases hs
      split_ifs
      · exact h.leave i
      · exact h.setPc (by simp [Pc.ticket?])
    | cas cur =>
      dsimp only at hs
      split_ifs at hs with hcur
      · cases hs
        have hsound : Sound s.log (.claimed i cur) := by
          constructor
          · exact (by rw [← hcur.1, ← length_range (n := s.taskClaim), ← hI.claims]; rfl)
          · exact lt_of_lt_of_eq hok hI.tickets.symm
        exact ((h.setCounters (cur + 1) s.pending).note hsound rfl rfl).setPc fun idx hidx => by
          cases hidx
          exact mem_append_right _ (mem_singleton.mpr rfl)
      · cases hs
        exact h.setPc (by simp [Pc.ticket?])
    | loadCancelled idx =>
      cases hs
      split_ifs with hflag
      · have hsound : Sound s.log (.skipped idx) := ⟨h.flag ▸ hflag, i, hclaim idx hi rfl⟩
        exact (h.note hsound rfl rfl).setPc fun j hj => mem_append_left _ (hclaim j hi hj)
      · exact h.setPc fun j hj => hclaim j hi hj
    | loadTasks idx =>
      cases hs
      exact h.setPc fun j hj => hclaim j hi hj
    | loadCap idx block =>
      cases hs
      exact h.setPc fun j hj => hclaim j hi hj
    | loadWord idx block cap got =>
      cases hs
      refine h.setPc fun j hj => hclaim j hi ?_
      split_ifs at hj <;> exact hj
    | call idx words =>
      cases hs
      have hsound : Sound s.log (.ran i idx words) := ⟨hclaim idx hi rfl, hok⟩
      exact (h.note hsound rfl rfl).setPc fun j hj => mem_append_left _ (hclaim j hi hj)
    | finish idx =>
      cases hs
      have hsound : Sound s.log (.done idx) := by
        have hsettling : idx ∈ s.settling := mem_filterMap_of_getElem? hi rfl
        exact hI.settled.mem_iff.mpr (mem_append_right _ hsettling)
      exact ((h.setCounters s.taskClaim _).setPc (by simp [Pc.ticket?])).note hsound rfl rfl

lemma Calls.producerStep (h : s.Calls) (hI : s.Inv) {ok : Bool} (hs : s.producerStep ok = some s') : s'.Calls := by
  have hp := h.phase
  have hcap : 0 < s.taskCap := lt_of_lt_of_le (by decide) hI.cap.2.1
  have hP := hI.phase
  rw [CallOk] at hp
  rw [PhaseOk] at hP
  rw [RayPool.producerStep] at hs
  cases hph : s.phase with
  | idle =>
    rw [hph] at hs
    cases hs
  | realloc r cap =>
    rw [hph] at hs hp
    cases hs
    cases ok
    · exact h.congr rfl rfl rfl ⟨r, hp.1, split_served hcap r⟩
    · exact h.congr rfl rfl rfl hp
  | setTasks r block cap =>
    rw [hph] at hs hp
    cases hs
    exact h.congr rfl rfl rfl hp
  | setCap r cap =>
    rw [hph] at hs hp
    cases hs
    exact h.congr rfl rfl rfl ⟨r, hp.1, split_served hp.2 r⟩
  | loadBase ts =>
    rw [hph] at hs hp
    cases hs
    rw [fillNext]
    split_ifs
    · exact h.congr rfl rfl rfl hp
    · exact h.congr rfl rfl rfl hp
  | fill ts base j =>
    rw [hph] at hs hp
    cases hs
    rw [fillNext]
    split_ifs
    · exact h.congr rfl rfl rfl hp
    · exact h.congr rfl rfl rfl hp
  | setPending ts base =>
    rw [hph] at hs hp
    cases hs
    exact h.congr rfl rfl rfl hp
  | setLimit ts base =>
    rw [hph] at hs hp hP
    cases hs
    obtain ⟨r, hr, hserved⟩ := hp
    have hsound : Sound s.log (.published base s.taskCap ts) :=
      ⟨hP.2.1.trans hI.tickets.symm, hI.cap.2.1, hI.cap.2.2, r, hr, hserved⟩
    have hlog : Event.published base s.taskCap ts ∈ s.log ++ [.published base s.taskCap ts] :=
      mem_append_right _ (mem_singleton.mpr rfl)
    exact (h.note hsound rfl rfl).congr rfl rfl rfl hlog
  | signal ts base i =>
    rw [hph] at hs hp
    cases hs
    split_ifs
    · exact h.congr rfl rfl rfl hp
    · have hset : (s.setPc 0 .loadClaim).Calls := h.setPc (by simp [Pc.ticket?])
      exact hset.congr rfl rfl rfl hp
  | work ts base =>
    rw [hph] at hs
    cases hs
  | spin ts base =>
    rw [hph] at hs hp
    cases hs
    split_ifs with hpos
    · exact h
    · have hsound : Sound s.log (.returned base ts) :=
        ⟨⟨_, hp⟩, fun j hj => hI.once (hI.all_finished (by rw [window?, hph])
          (Nat.eq_zero_of_not_pos hpos) (by omega))⟩
      exact (h.note hsound rfl rfl).congr rfl rfl rfl trivial
  | closing i =>
    rw [hph] at hs
    dsimp only at hs
    split_ifs at hs
    cases hs
    exact h.congr rfl rfl rfl trivial

lemma Calls.dispatch (h : s.Calls) (hI : s.Inv) (hph : s.phase = .idle) (r : Request) : (s.dispatch r).Calls := by
  have hcap : 0 < s.taskCap := lt_of_lt_of_le (by decide) hI.cap.2.1
  have hlast : lastRequest? (s.log ++ [.dispatched r]) = some r := by
    rw [lastRequest?, filterMap_append]
    exact getLast?_concat
  have hnote : (s.note (.dispatched r)).Calls := by
    refine ⟨h.flag.trans (lastFlag_concat rfl).symm, fun i pc idx hi hpc =>
      mem_append_left _ (h.claimer i pc idx hi hpc), ?_, h.history.concat trivial⟩
    rw [CallOk, show (s.note (.dispatched r)).phase = .idle from hph]
    trivial
  have hclamp : ((s.note (.dispatched r)).clamp r).Calls := hnote.congr rfl rfl rfl ⟨r, hlast, split_served hcap r⟩
  rw [RayPool.dispatch]
  dsimp only
  split_ifs with hempty hfew hgrow
  · exact h
  · exact hnote.congr rfl rfl rfl ⟨hlast, (Nat.zero_le _).trans_lt hgrow⟩
  · exact hclamp
  · exact hclamp

lemma create_calls (n : ℕ) : (create n).Calls where
  flag := rfl
  claimer i pc idx hi hpc := by
    rw [eq_of_mem_replicate (mem_of_getElem? hi)] at hpc
    cases hpc
  phase := trivial
  history := Past.nil Sound

theorem Calls.step (h : s.Calls) (hI : s.Inv) {a : Act} (hs : s.step a = some s') : s'.Calls := by
  cases a with
  | dispatch r =>
    rw [RayPool.step] at hs
    split at hs <;> cases hs
    exact h.dispatch hI ‹_› r
  | free =>
    rw [RayPool.step] at hs
    split at hs <;> cases hs
    exact h.congr rfl rfl rfl trivial
  | producer ok => exact h.producerStep hI hs
  | thread i spurious => exact h.threadStep hI hs
  | cancel flag =>
    cases hs
    refine ⟨?_, fun i pc idx hi hpc => mem_append_left _ (h.claimer i pc idx hi hpc), ?_, h.history.concat trivial⟩
    · rw [lastFlag, RayPool.note, filterMap_append]
      exact congrArg (getD · false) getLast?_concat.symm
    · exact h.phase.congr rfl rfl (lastRequest?_concat rfl) fun _ => mem_append_left _

end RayPool

theorem Reachable.calls {n : ℕ} {s : RayPool} (h : Reachable n s) : s.Calls := by
  induction h with
  | create => exact RayPool.create_calls n
  | step hr hs ih => exact ih.step hr.inv hs

end Rayforce.Pool
