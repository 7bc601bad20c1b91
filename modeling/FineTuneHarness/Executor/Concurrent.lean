import FineTuneHarness.Executor.Fleet
import FineTuneHarness.Library.Table

/-!
# `drain_concurrent`

The parent loop is a machine over what it reads: task counts, free memory, messages of its
children, whether a child is alive. `concurrent` puts it beside its children, each of which
runs one `run_once` on the shared store and sends one message. The waits between two readings
have no effect and are left out; so is `stop_fn`, which is refused here.
-/
namespace FineTuneHarness

open Library

/-! ## The parent -/

/-- What a child reports. -/
inductive ChildOutcome
  | succeeded | empty | oom | error
deriving DecidableEq

/-- An entry of `in_flight`; `worker` names the process as well. -/
structure InFlight where
  pid : Nat
  worker : WorkerId
  device : Nat
deriving DecidableEq

/-- The arguments of one call, and its first reading of the devices. `hooks` is what the
hooks factory builds in a child. -/
structure Draining where
  workerId : WorkerId
  runId : RunId
  concurrency : ConcurrencyConfig
  perDevice : List PyFloat
  hooks : HookRegistry := {}
  seed : Option Int := none

/-- Where the parent loop stands. -/
inductive Point
  /-- At the condition of the admission loop. -/
  | admitting
  /-- The condition held; the devices are read next. -/
  | choosing
  /-- `in_flight` is empty; the tasks are counted once more. -/
  | checking
  /-- At `result_q.get`. -/
  | waiting
  /-- In the loop over the children after a timeout. -/
  | sweeping (next : InFlight) (rest : List InFlight)
  | reclaiming (dead : InFlight) (rest : List InFlight)
  /-- A message is taken, and its process waited for. -/
  | joining (entry : Option InFlight) (outcome : ChildOutcome)
  /-- Out of the loop, before the scan for failed tasks. -/
  | concluding
  | ended (ending : LocalWorker.DrainEnd)

structure Parent where
  ceiling : Int
  minFree : ℚ
  childSeq : Nat := 0
  succeeded : Nat := 0
  inFlight : Table InFlight Nat InFlight.pid := .empty
  point : Point := .admitting

/-- `_free_for`. -/
def freeFor (device : Nat) (live : List PyFloat) : PyFloat := live[device]?.getD (.finite 0)

/-- `a <= b` between floats. -/
def PyFloat.le : PyFloat → PyFloat → Bool
  | .finite q, .finite q' => q ≤ q'
  | .inf true, .finite _ | .inf true, .inf _ | .finite _, .inf false | .inf false, .inf false => true
  | _, _ => false

namespace Draining

variable (c : Draining)

def numDevices : Nat := c.perDevice.length

/-- `monitor.free_memory_per_device() or per_device`. -/
def reading : Option (List PyFloat) → List PyFloat
  | some (x :: xs) => x :: xs
  | _ => c.perDevice

/-- The devices by free memory, most of it first. -/
def deviceOrder (live : List PyFloat) : List Nat :=
  (List.range c.numDevices).insertionSort fun d d' => (freeFor d' live).le (freeFor d live)

end Draining

namespace Parent

/-- The locals before the loop. -/
def start (c : Draining) : Parent where
  ceiling := max 1 c.concurrency.maxConcurrent
  minFree := c.concurrency.minFreeMb

variable (c : Draining) (p : Parent)

/-- `inflight_by_dev[d]`. -/
def load (d : Nat) : Nat := p.inFlight.rows.countP fun e => e.device = d

/-- The device of the next child, if there is one for it. -/
def chooseDevice (live : List PyFloat) : Option Nat :=
  let order := c.deviceOrder live
  (order.find? fun d => p.load d = 0).or
    (order.find? fun d => (PyFloat.finite p.minFree).le (freeFor d live))

/-- `child_wid`. -/
def nextWorker : WorkerId := s!"{c.workerId}-c{p.childSeq + 1}"

/-- The child is started and entered under its pid. -/
def admitTo (device pid : Nat) : Parent :=
  { p with
    childSeq := p.childSeq + 1
    inFlight := p.inFlight.put { pid, worker := p.nextWorker c, device }
    point := .admitting }

/-- Behind the admission loop. -/
def leaveAdmission : Parent :=
  { p with point := if p.inFlight.rows.isEmpty then .checking else .waiting }

/-- On to the next child of the sweep, or back to the head of the loop. -/
def sweepOn : List InFlight → Parent
  | [] => { p with point := .admitting }
  | e :: rest => { p with point := .sweeping e rest }

def lowerCeiling : Parent := { p with ceiling := max 1 (p.ceiling - 1) }

/-- What a message changes. -/
def settle : ChildOutcome → Parent
  | .succeeded => { p with succeeded := p.succeeded + 1, point := .admitting }
  | .oom => { p.lowerCeiling with minFree := p.minFree * (3 / 2), point := .admitting }
  | .empty | .error => { p with point := .admitting }

/-- What the loop reads. -/
inductive Input
  /-- `_count_leaseable`. -/
  | count (leaseable : Nat)
  /-- The monitor's answer, and the pid of the child if one is started. -/
  | launch (live : Option (List PyFloat)) (pid : Nat)
  | message (pid : Nat) (outcome : ChildOutcome)
  /-- `queue.Empty`. -/
  | timeout
  /-- `is_alive()` of the next child of the sweep. -/
  | alive (isAlive : Bool)
  /-- `reclaim_dead_worker` has returned. -/
  | reclaimed
  /-- `join()` has returned. -/
  | joined
  /-- `list_tasks` of the final scan. -/
  | tasks (tasks : List TaskRecord)

/-- One step of the loop, `none` where it does not read this. -/
def step : Point → Input → Option Parent
  | .admitting, .count n =>
    if (p.inFlight.rows.length : Int) < p.ceiling ∧ 0 < n then some { p with point := .choosing }
    else some p.leaveAdmission
  | .choosing, .launch live pid =>
    match p.chooseDevice c (c.reading live) with
    | some device => some (p.admitTo c device pid)
    | none => some p.leaveAdmission
  | .checking, .count n => some { p with point := if n = 0 then .concluding else .admitting }
  | .waiting, .message pid outcome =>
    some { p with
      inFlight := p.inFlight.erase pid, point := .joining (p.inFlight.find? pid) outcome }
  | .waiting, .timeout => some (p.sweepOn p.inFlight.rows)
  | .sweeping next rest, .alive isAlive =>
    if isAlive then some (p.sweepOn rest)
    else some { p with inFlight := p.inFlight.erase next.pid, point := .reclaiming next rest }
  | .reclaiming _ rest, .reclaimed => some (p.lowerCeiling.sweepOn rest)
  | .joining _ outcome, .joined => some (p.settle outcome)
  | .concluding, .tasks tasks =>
    let failedTasks := tasks.filter (·.status.unsuccessful)
    let ending := if failedTasks.isEmpty then .succeeded p.succeeded
      else .degraded failedTasks p.succeeded
    some { p with point := .ended ending }
  | _, _ => none

end Parent

/-- The parent loop by itself, whatever it reads. -/
def Draining.loop (c : Draining) : Machine Parent Parent.Input := ⟨fun p i => p.step c p.point i⟩

/-! ## The parent and its children -/

/-- How far a child process has got, and what it has reported. -/
inductive ChildStage
  | starting
  | running
  | reported (said : ChildOutcome)
  | exited (said : Option ChildOutcome)
deriving DecidableEq

/-- The process has ended. -/
def ChildStage.ended : ChildStage → Bool
  | .exited _ => true
  | _ => false

structure Child where
  worker : WorkerId
  pid : Nat
  stage : ChildStage

/-- The children run as workers of a fleet on the parent's store; `queue` holds the messages
that are under way. -/
structure Concurrent where
  pool : FleetState
  parent : Parent
  children : Table Child WorkerId Child.worker := .empty
  queue : List (Nat × ChildOutcome) := []

/-- What `_run_once_subprocess` makes of the end of its `run_once`. -/
def childOutcome (pf : Platform) : Library.Client Effect Effect.Reply PyExc Outcome → Option ChildOutcome
  | .running (.ret (_, .ok (some _))) => some .succeeded
  | .running (.ret (_, .ok none)) => some .empty
  | .running (.ret (_, .error exc)) | .running (.raise exc) =>
    some (if isOomError pf exc then .oom else .error)
  | _ => none

/-- What may happen next: a step of a child, or of the parent with what it finds. -/
inductive DrainAct
  | begin (child : WorkerId)
  | call (child : WorkerId) (answers : Answers)
  | report (child : WorkerId)
  | exit (child : WorkerId)
  | count (now : Instant)
  | launch (live : Option (List PyFloat)) (pid : Nat)
  | deliver (n : Nat)
  | timeout
  | look
  | reclaim (clock : Clock)
  | join
  | conclude

namespace Draining

variable (c : Draining) (pf : Platform)

/-- The worker a child builds, primed for its run. -/
def childJob : Job where
  worker := { workerId := "", hooks := c.hooks, maxOomRetries := c.concurrency.maxOomRetries }
  memory := [(c.runId, c.seed)]
  runId := c.runId

end Draining

namespace Concurrent

variable (c : Draining) (pf : Platform) (s : Concurrent)

def child? (i : WorkerId) : Option Child := s.children.find? i

/-- The stage of a child that has been started. -/
def stage (i : WorkerId) : Option ChildStage := (s.child? i).map (·.stage)

/-- The process of a child has ended. -/
def gone (i : WorkerId) : Bool := (s.stage i).any (·.ended)

def setStage (i : WorkerId) (stage : ChildStage) : Concurrent :=
  { s with children := s.children.modify i ({ · with stage }) fun _ => rfl }

/-- The pids of processes that have not ended. -/
def livePids : List Nat := (s.children.rows.filter fun x => !x.stage.ended).map (·.pid)

/-- The parent reads `i`. -/
def tell (i : Parent.Input) : Option Concurrent :=
  (s.parent.step c s.parent.point i).map fun parent => { s with parent }

/-- `_count_leaseable`. -/
def countLeaseable (now : Instant) : Nat :=
  ((s.pool.shared.store.tasksOf c.runId).filter (·.leaseable now)).length

/-- The admission with the reading `live`; a child that is started gets the pid. -/
def launch (live : Option (List PyFloat)) (pid : Nat) : Option Concurrent :=
  (s.tell c (.launch live pid)).bind fun s' =>
    if s'.parent.childSeq = s.parent.childSeq then some s'
    else
      let worker := s.parent.nextWorker c
      -- the pid of a new process differs from those of all processes there are
      if pid ∈ s.livePids then none
      else if h : worker ∉ s.children.rows.map Child.worker then
        some { s' with children := s.children.insert { worker, pid, stage := .starting } h }
      else none

def step : DrainAct → Option Concurrent
  | .begin i =>
    if s.stage i = some .starting then
      ((fleet pf).step s.pool (.start i c.childJob)).map fun pool =>
        { s.setStage i .running with pool }
    else none
  | .call i a =>
    if s.stage i = some .running then
      ((fleet pf).step s.pool (.call i a)).map fun pool => { s with pool }
    else none
  | .report i =>
    if s.stage i = some .running then
      (childOutcome pf (s.pool.client i)).bind fun outcome => (s.child? i).map fun x =>
        { s.setStage i (.reported outcome) with queue := s.queue ++ [(x.pid, outcome)] }
    else none
  | .exit i =>
    match s.stage i with
    | some (.reported said) => some (s.setStage i (.exited (some said)))
    | some .starting | some .running =>
      ((fleet pf).step s.pool (.crash i)).map fun pool => { s.setStage i (.exited none) with pool }
    | _ => none
  | .count now => s.tell c (.count (s.countLeaseable c now))
  | .launch live pid => s.launch c live pid
  | .deliver n =>
    match s.queue[n]? with
    | some (pid, outcome) =>
      ({ s with queue := s.queue.eraseIdx n } : Concurrent).tell c (.message pid outcome)
    | none => none
  | .timeout => s.tell c .timeout
  | .look =>
    match s.parent.point with
    | .sweeping next _ => s.tell c (.alive !(s.gone next.worker))
    | _ => none
  | .reclaim clock =>
    match s.parent.point with
    | .reclaiming dead _ =>
      ((fleet pf).step s.pool (.env
        (.reclaimDeadWorker c.runId dead.worker c.concurrency.maxOomRetries, clock))).bind
          fun pool => ({ s with pool } : Concurrent).tell c .reclaimed
    | _ => none
  | .join =>
    match s.parent.point with
    | .joining entry _ =>
      if entry.all fun e => s.gone e.worker then s.tell c .joined else none
    | _ => none
  | .conclude => s.tell c (.tasks (s.pool.shared.store.tasksOf c.runId))

end Concurrent

/-- One call of `drain_concurrent`. -/
def Draining.machine (c : Draining) (pf : Platform) : Machine Concurrent DrainAct :=
  ⟨fun s a => s.step c pf a⟩

/-- The call at the head of its loop, on the store it finds there. -/
def Draining.begin (c : Draining) (store : StateStore) : Concurrent where
  pool := fleetOn store
  parent := .start c

end FineTuneHarness
