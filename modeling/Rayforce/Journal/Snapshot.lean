import Rayforce.Journal.Replay

/-! `ray_journal_snapshot` as a sequence of file operations. -/

namespace Rayforce.Journal

section

variable {M σ : Type}

-- `<base>.qdb`, `<base>.qdb.tmp`, `<base>.log` and the rolled logs
structure Disk (M σ : Type) where
  qdb : Option σ
  tmp : Option σ
  log : Option (List M)
  archives : List (List M)

inductive Phase
  | idle | saved | renamed | closed | archived
  deriving DecidableEq, Repr

structure Server (M σ : Type) where
  env : σ
  disk : Disk M σ
  fp : Bool
  phase : Phase

inductive Event (M : Type)
  | message (m : M)
  | save (ok : Bool)
  | renameQdb (ok : Bool)
  | close (ok reopened : Bool)
  | renameLog (ok reopened : Bool)
  | reopen (ok : Bool)
  | crash
  deriving DecidableEq, Repr

def Disk.entries (d : Disk M σ) : List M := d.log.getD []

def replayLog (exec : M → σ → σ) : List M → σ → σ
  | [], env => env
  | m :: ms, env => replayLog exec ms (exec m env)

def rayJournalRecover (exec : M → σ → σ) (init : σ) (d : Disk M σ) : σ :=
  replayLog exec d.entries (d.qdb.getD init)

def Disk.openLog (d : Disk M σ) : Disk M σ := { d with log := some d.entries }

def openLogForAppend (s : Server M σ) (ok : Bool) : Server M σ :=
  if ok then { s with fp := true, disk := s.disk.openLog, phase :=
    .idle } else { s with fp := false, phase := .idle }

def step (exec : M → σ → σ) (init : σ) (s : Server M σ) : Event M → Server M σ
  | .message m =>
    if s.phase ≠ .idle then s
    else if s.fp then
      { s with env := exec m s.env, disk := { s.disk with log := some (s.disk.entries ++ [m]) } }
    else { s with env := exec m s.env }
  | .save ok =>
    if s.phase ≠ .idle ∨ s.fp = false then s
    else if ok then { s with disk := { s.disk with tmp := some s.env }, phase := .saved }
    else { s with disk := { s.disk with tmp := none } }
  | .renameQdb ok =>
    if s.phase ≠ .saved then s
    else if ok then { s with disk := { s.disk with qdb := s.disk.tmp, tmp := none }, phase := .renamed }
    else { s with disk := { s.disk with tmp := none }, phase := .idle }
  | .close ok reopened =>
    if s.phase ≠ .renamed then s
    else if ok then { s with fp := false, phase := .closed } else openLogForAppend s reopened
  | .renameLog ok reopened =>
    if s.phase ≠ .closed then s
    else if ok then
      { s with
        disk := { s.disk with log := none, archives := s.disk.archives ++ [s.disk.entries] }
        phase := .archived }
    else openLogForAppend s reopened
  | .reopen ok => if s.phase ≠ .archived then s else openLogForAppend s ok
  | .crash => openLogForAppend { s with env := rayJournalRecover exec init s.disk } true

def Server.fresh (init : σ) : Server M σ := ⟨init, ⟨none, none, some [], []⟩, true, .idle⟩

def CrashSafe (exec : M → σ → σ) (init : σ) : List (Event M) → Server M σ → Prop
  | [], _ => True
  | e :: es, s => (e = .crash → rayJournalRecover exec init s.disk = s.env) ∧
      CrashSafe exec init es (step exec init s e)

def Absorbed (exec : M → σ → σ) (s : Server M σ) : Prop := replayLog exec s.disk.entries s.env = s.env

def Guard (exec : M → σ → σ) (s : Server M σ) : Event M → Prop
  | .message m => s.phase = .idle → s.fp = true ∨ exec m s.env = s.env
  | .close false _ => s.phase = .renamed → Absorbed exec s
  | .renameLog false _ => s.phase = .closed → Absorbed exec s
  | .crash => s.phase = .renamed ∨ s.phase = .closed → Absorbed exec s
  | _ => True

def GuardedRun (exec : M → σ → σ) (init : σ) : List (Event M) → Server M σ → Prop
  | [], _ => True
  | e :: es, s => Guard exec s e ∧ GuardedRun exec init es (step exec init s e)

-- between the two renames the snapshot is ahead of the log, elsewhere the two together give the environment
def Inv (exec : M → σ → σ) (init : σ) (s : Server M σ) : Prop :=
  match s.phase with
  | .idle => rayJournalRecover exec init s.disk = s.env
  | .saved => rayJournalRecover exec init s.disk = s.env ∧ s.disk.tmp = some s.env
  | .renamed => s.disk.qdb = some s.env
  | .closed => s.disk.qdb = some s.env
  | .archived => s.disk.qdb = some s.env ∧ s.disk.log = none

variable {exec : M → σ → σ} {init : σ} {s : Server M σ}

lemma replayLog_append (ms ms' : List M) (env : σ) :
    replayLog exec (ms ++ ms') env = replayLog exec ms' (replayLog exec ms env) := by
  induction ms generalizing env with
  | nil => rfl
  | cons m ms ih => exact ih _

lemma recover_openLog (d : Disk M σ) : rayJournalRecover exec init d.openLog = rayJournalRecover exec init d := rfl

lemma inv_openLogForAppend (ok : Bool) (h : rayJournalRecover exec init s.disk = s.env) :
    Inv exec init (openLogForAppend s ok) := by
  cases ok with
  | false => exact h
  | true => exact (recover_openLog s.disk).trans h

lemma recover_of_absorbed (hq : s.disk.qdb = some s.env) (ha : Absorbed exec s) : rayJournalRecover exec init
    s.disk = s.env := by
  rw [rayJournalRecover, hq, Option.getD_some]
  exact ha

lemma recover_of_inv (hi : Inv exec init s) (hg : Guard exec s .crash) :
    rayJournalRecover exec init s.disk = s.env := by
  rw [Inv] at hi
  cases hp : s.phase with
  | idle => rw [hp] at hi; exact hi
  | saved => rw [hp] at hi; exact hi.1
  | renamed => rw [hp] at hi; exact recover_of_absorbed hi (hg (Or.inl hp))
  | closed => rw [hp] at hi; exact recover_of_absorbed hi (hg (Or.inr hp))
  | archived =>
    rw [hp] at hi
    rw [rayJournalRecover, Disk.entries, hi.1, hi.2]
    rfl

lemma inv_step (e : Event M) (hi : Inv exec init s) (hg : Guard exec s e) : Inv exec init
    (step exec init s e) := by
  cases e with
  | message m =>
    rw [step]
    by_cases hp : s.phase = .idle
    · rw [if_neg (not_not.mpr hp)]
      have hrec : rayJournalRecover exec init s.disk = s.env := by
        rw [Inv, hp] at hi
        exact hi
      by_cases hf : s.fp = true
      · rw [if_pos hf, Inv]
        simp only [hp]
        rw [rayJournalRecover, Disk.entries, Option.getD_some, replayLog_append]
        exact congrArg (exec m) hrec
      · rw [if_neg hf, Inv]
        simp only [hp]
        rw [hrec]
        exact ((hg hp).resolve_left hf).symm
    · rw [if_pos hp]
      exact hi
  | save ok =>
    rw [step]
    by_cases hp : s.phase ≠ .idle ∨ s.fp = false
    · rw [if_pos hp]
      exact hi
    · rw [if_neg hp]
      push Not at hp
      have hrec : rayJournalRecover exec init s.disk = s.env := by
        rw [Inv, hp.1] at hi
        exact hi
      cases ok with
      | true => exact ⟨hrec, rfl⟩
      | false =>
        rw [if_neg (by simp), Inv]
        simp only [hp.1]
        exact hrec
  | renameQdb ok =>
    rw [step]
    by_cases hp : s.phase = .saved
    · rw [if_neg (not_not.mpr hp)]
      rw [Inv, hp] at hi
      cases ok with
      | true => exact hi.2
      | false => exact hi.1
    · rw [if_pos hp]
      exact hi
  | close ok reopened =>
    rw [step]
    by_cases hp : s.phase = .renamed
    · rw [if_neg (not_not.mpr hp)]
      rw [Inv, hp] at hi
      cases ok with
      | true => exact hi
      | false => exact inv_openLogForAppend reopened (recover_of_absorbed hi (hg hp))
    · rw [if_pos hp]
      exact hi
  | renameLog ok reopened =>
    rw [step]
    by_cases hp : s.phase = .closed
    · rw [if_neg (not_not.mpr hp)]
      rw [Inv, hp] at hi
      cases ok with
      | true => exact ⟨hi, rfl⟩
      | false => exact inv_openLogForAppend reopened (recover_of_absorbed hi (hg hp))
    · rw [if_pos hp]
      exact hi
  | reopen ok =>
    rw [step]
    by_cases hp : s.phase = .archived
    · rw [if_neg (not_not.mpr hp)]
      have hrec := recover_of_inv hi fun h => by simp [hp] at h
      exact inv_openLogForAppend ok hrec
    · rw [if_pos hp]
      exact hi
  | crash =>
    have hrec := recover_of_inv hi hg
    rw [step, hrec]
    exact inv_openLogForAppend true hrec

lemma crashSafe_of_inv (es : List (Event M)) (s : Server M σ) (hi : Inv exec init s)
    (hg : GuardedRun exec init es s) : CrashSafe exec init es s := by
  induction es generalizing s with
  | nil => trivial
  | cons e es ih =>
    refine ⟨?_, ih _ (inv_step e hi hg.1) hg.2⟩
    rintro rfl
    exact recover_of_inv hi hg.1

end

theorem snapshot_crashSafe {M σ : Type} (exec : M → σ → σ) (init : σ) (es : List (Event M))
    (h : GuardedRun exec init es (.fresh init)) : CrashSafe exec init es (.fresh init) :=
  crashSafe_of_inv es (.fresh init) rfl h

def addOne : Unit → ℕ → ℕ := fun _ n => n + 1

theorem snapshot_crashSafe_counter :
    CrashSafe addOne 0 [.message (), .save true, .renameQdb true, .close true false, .renameLog true false, .crash,
      .message (), .crash] (.fresh 0) :=
  snapshot_crashSafe addOne 0 _
    ⟨fun _ => Or.inl rfl, trivial, trivial, trivial, trivial, fun h => absurd h (by decide), fun _ => Or.inl rfl,
      fun h => absurd h (by decide), trivial⟩

-- the snapshot holds the message already, and the log that holds it too is still in place
theorem snapshot_crash_between_renames :
    ¬ CrashSafe addOne 0 [.message (), .save true, .renameQdb true, .crash] (.fresh 0) := by
  rintro ⟨-, -, -, hcrash, -⟩
  exact absurd (hcrash rfl) (by decide)

end Rayforce.Journal
