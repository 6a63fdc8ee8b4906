import Rayforce.Library.Tickets

/-! The thread pool. -/

namespace Rayforce.Pool

def taskGrain : ℤ := 8 * 1024

def initTasks : ℕ := 1024

def maxTasks : ℕ := 2 ^ 16

structure Task where
  fn : ℤ
  ctx : ℤ
  start : ℤ
  stop : ℤ
  deriving DecidableEq

def Task.words (t : Task) : List ℤ := [t.fn, t.ctx, t.start, t.stop]

inductive Request
  | elems (fn ctx total : ℤ)
  | tasks (fn ctx : ℤ) (n : ℕ)

namespace Request

def total : Request → ℤ
  | .elems _ _ total => if total > 2 ^ 63 - 1 - taskGrain + 1 then 2 ^ 63 - 1 - taskGrain + 1 else total
  | .tasks _ _ n => n

def nTasks (r : Request) : ℕ :=
  match r with
  | .elems _ _ _ => ((r.total + taskGrain - 1) / taskGrain).toNat % 2 ^ 32
  | .tasks _ _ n => n

def isEmpty : Request → Bool
  | .elems _ _ total => total ≤ 0
  | .tasks _ _ n => n = 0

def split (r : Request) (cap : ℕ) : List Task :=
  let n := if cap < r.nTasks then cap else r.nTasks
  match r with
  | .elems fn ctx _ =>
    let grain := if cap < r.nTasks then (r.total + n - 1) / n else taskGrain
    (List.range n).map fun i : ℕ =>
      let start := i * grain
      ⟨fn, ctx, start, if start + grain > r.total then r.total else start + grain⟩
  | .tasks fn ctx _ => (List.range n).map fun i : ℕ => ⟨fn, ctx, i, i + 1⟩

end Request

def growCap (n : ℕ) : ℕ → ℕ → ℕ
  | 0, cap => cap
  | fuel + 1, cap => if cap < n ∧ cap < maxTasks then growCap n fuel (cap * 2) else cap

/-- Where a thread is in its loop. -/
inductive Pc
  | asleep
  | woken
  | exited
  | loadClaim
  | loadLimit (cur : ℕ)
  | cas (cur : ℕ)
  | loadCancelled (idx : ℕ)
  | loadTasks (idx : ℕ)
  | loadCap (idx block : ℕ)
  | loadWord (idx block cap : ℕ) (got : List ℤ)
  | call (idx : ℕ) (words : List ℤ)
  | finish (idx : ℕ)
  deriving DecidableEq

inductive Phase
  | idle
  | realloc (r : Request) (cap : ℕ)
  | setTasks (r : Request) (block cap : ℕ)
  | setCap (r : Request) (cap : ℕ)
  | loadBase (ts : List Task)
  | fill (ts : List Task) (base j : ℕ)
  | setPending (ts : List Task) (base : ℕ)
  | setLimit (ts : List Task) (base : ℕ)
  | signal (ts : List Task) (base i : ℕ)
  | work (ts : List Task) (base : ℕ)
  | spin (ts : List Task) (base : ℕ)
  | closing (i : ℕ)

inductive Event
  | dispatched (r : Request)
  | published (base cap : ℕ) (ts : List Task)
  | claimed (thread idx : ℕ)
  | skipped (idx : ℕ)
  | ran (thread idx : ℕ) (words : List ℤ)
  | done (idx : ℕ)
  | returned (base : ℕ) (ts : List Task)
  | cancel (flag : Bool)

/-- `struct ray_pool`, its threads and the events so far. -/
structure RayPool where
  nWorkers : ℕ
  threads : List Pc
  phase : Phase
  mem : ℕ → ℕ → ℕ → ℤ
  blocks : ℕ
  tasks : ℕ
  taskCap : ℕ
  taskClaim : ℕ
  taskLimit : ℕ
  pending : ℕ
  workReady : ℕ
  cancelled : Bool
  shutdown : Bool
  log : List Event

def create (nWorkers : ℕ) : RayPool where
  nWorkers := nWorkers
  threads := List.replicate (nWorkers + 1) .asleep
  phase := .idle
  mem := fun _ _ _ => 0
  blocks := 1
  tasks := 0
  taskCap := initTasks
  taskClaim := 0
  taskLimit := 0
  pending := 0
  workReady := 0
  cancelled := false
  shutdown := false
  log := []

/-- `ok`: the allocation succeeds; `spurious`: the swap fails. -/
inductive Act
  | dispatch (r : Request)
  | free
  | producer (ok : Bool)
  | thread (i : ℕ) (spurious : Bool)
  | cancel (flag : Bool)

namespace RayPool

def note (s : RayPool) (e : Event) : RayPool := { s with log := s.log ++ [e] }

def slot (cap idx : ℕ) : ℕ := idx &&& (cap - 1)

def wordAt (ts : List Task) (j : ℕ) : ℤ := ((ts[j / 4]?.map Task.words).getD []).getD (j % 4) 0

def clamp (s : RayPool) (r : Request) : RayPool := { s with phase := .loadBase (r.split s.taskCap) }

def dispatch (s : RayPool) (r : Request) : RayPool :=
  if r.isEmpty then s
  else
    let s := s.note (.dispatched r)
    if s.taskCap < r.nTasks then
      let cap := growCap r.nTasks maxTasks s.taskCap
      if s.taskCap < cap then { s with phase := .realloc r cap } else s.clamp r
    else s.clamp r

def moveRing (s : RayPool) (r : Request) (cap : ℕ) : RayPool :=
  { s with
    mem := fun b => if b = s.blocks then s.mem s.tasks else s.mem b
    blocks := s.blocks + 1
    phase := .setTasks r s.blocks cap }

def store (s : RayPool) (k j : ℕ) (v : ℤ) : RayPool :=
  { s with mem := fun b => if b = s.tasks then fun i w => if i = k ∧ w = j then v else s.mem b i w else s.mem b }

def fillNext (s : RayPool) (ts : List Task) (base j : ℕ) : RayPool :=
  { s with phase := if j < 4 * ts.length then .fill ts base j else .setPending ts base }

def producerStep (s : RayPool) (ok : Bool) : Option RayPool :=
  match s.phase with
  | .idle => none
  | .realloc r cap => some (if ok then s.moveRing r cap else s.clamp r)
  | .setTasks r block cap => some { s with tasks := block, phase := .setCap r cap }
  | .setCap r cap => some ({ s with taskCap := cap }.clamp r)
  | .loadBase ts => some (s.fillNext ts s.taskLimit 0)
  | .fill ts base j =>
    some ((s.store (slot s.taskCap (base + j / 4)) (j % 4) (wordAt ts j)).fillNext ts base (j + 1))
  | .setPending ts base => some { s with pending := ts.length, phase := .setLimit ts base }
  | .setLimit ts base =>
    some ({ s with taskLimit := base + ts.length, phase := .signal ts base 0 }.note (.published base s.taskCap ts))
  | .signal ts base i =>
    some (if i < s.nWorkers then { s with workReady := s.workReady + 1, phase := .signal ts base (i + 1) }
      else { s with threads := s.threads.set 0 .loadClaim, phase := .work ts base })
  | .work _ _ => none
  | .spin ts base => some (if 0 < s.pending then s else { s with phase := .idle }.note (.returned base ts))
  | .closing i => if i < s.nWorkers then some
    { s with workReady := s.workReady + 1, phase := .closing (i + 1) } else none

def setPc (s : RayPool) (i : ℕ) (pc : Pc) : RayPool := { s with threads := s.threads.set i pc }

def leave (s : RayPool) (i : ℕ) : RayPool :=
  let s := s.setPc i .asleep
  match i, s.phase with
  | 0, .work ts base => { s with phase := .spin ts base }
  | _, _ => s

def threadStep (s : RayPool) (i : ℕ) (spurious : Bool) : Option RayPool :=
  match s.threads[i]? with
  | none => none
  | some .asleep =>
    if i ≠ 0 ∧ 0 < s.workReady then some ({ s with workReady := s.workReady - 1 }.setPc i .woken) else none
  | some .woken => some (s.setPc i (if s.shutdown then .exited else .loadClaim))
  | some .exited => none
  | some .loadClaim => some (s.setPc i (.loadLimit s.taskClaim))
  | some (.loadLimit cur) => some (if s.taskLimit ≤ cur then s.leave i else s.setPc i (.cas cur))
  | some (.cas cur) =>
    if s.taskClaim = cur ∧ !spurious then
      some (({ s with taskClaim := cur + 1 }.setPc i (.loadCancelled cur)).note (.claimed i cur))
    else some (s.setPc i (.loadLimit s.taskClaim))
  | some (.loadCancelled idx) =>
    some (if s.cancelled then (s.setPc i (.finish idx)).note (.skipped idx) else s.setPc i (.loadTasks idx))
  | some (.loadTasks idx) => some (s.setPc i (.loadCap idx s.tasks))
  | some (.loadCap idx block) => some (s.setPc i (.loadWord idx block s.taskCap []))
  | some (.loadWord idx block cap got) =>
    let got := got ++ [s.mem block (slot cap idx) got.length]
    some (s.setPc i (if got.length = 4 then .call idx got else .loadWord idx block cap got))
  | some (.call idx words) => some ((s.setPc i (.finish idx)).note (.ran i idx words))
  | some (.finish idx) =>
    some (({ s with pending := (s.pending + (2 ^ 32 - 1)) % 2 ^ 32 }.setPc i .loadClaim).note (.done idx))

def step (s : RayPool) : Act → Option RayPool
  | .dispatch r => match s.phase with
    | .idle => some (s.dispatch r)
    | _ => none
  | .free => match s.phase with
    | .idle => some { s with shutdown := true, phase := .closing 0 }
    | _ => none
  | .producer ok => s.producerStep ok
  | .thread i spurious => s.threadStep i spurious
  | .cancel flag => some ({ s with cancelled := flag }.note (.cancel flag))

end RayPool

inductive Reachable (n : ℕ) : RayPool → Prop
  | create : Reachable n (create n)
  | step {s s' : RayPool} {a : Act} (h : Reachable n s) (hs : s.step a = some s') : Reachable n s'

end Rayforce.Pool
