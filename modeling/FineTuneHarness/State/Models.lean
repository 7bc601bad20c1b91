import FineTuneHarness.State.Value

/-!
# Run, task, event and artifact records

Instants are microseconds of UTC time. An event's own id and time stamp are not kept:
nothing in the harness decides anything by them.
-/
namespace FineTuneHarness

abbrev RunId := String
abbrev TaskId := String
abbrev WorkerId := String
abbrev Instant := Int

inductive RunStatus
  | created | validated | running | partialFailed | failed | completed | cancelled
deriving DecidableEq

inductive TaskStatus
  | pending | leased | running | succeeded | failed | timedOut | degenerate | cancelled
deriving DecidableEq

def RunStatus.value : RunStatus → String
  | .created => "created"
  | .validated => "validated"
  | .running => "running"
  | .partialFailed => "partial_failed"
  | .failed => "failed"
  | .completed => "completed"
  | .cancelled => "cancelled"

def TaskStatus.value : TaskStatus → String
  | .pending => "pending"
  | .leased => "leased"
  | .running => "running"
  | .succeeded => "succeeded"
  | .failed => "failed"
  | .timedOut => "timed_out"
  | .degenerate => "degenerate"
  | .cancelled => "cancelled"

structure RunRecord where
  runId : RunId
  name : String
  status : RunStatus
  config : Dict
  createdAt : Instant
  envSnapshot : Dict := []
  finishedAt : Option Instant := none
  seed : Option Int := none
  datasetHashes : Dict := []
  configHash : Option String := none

structure TaskRecord where
  taskId : TaskId
  runId : RunId
  taskKey : String
  status : TaskStatus
  payload : Dict
  result : Option Dict := none
  error : Option String := none
  leaseOwner : Option WorkerId := none
  leasedUntil : Option Instant := none
  attemptCount : Nat := 0

structure EventRecord where
  runId : RunId
  taskId : Option TaskId
  kind : String
  payload : Dict := []

structure ArtifactRecord where
  artifactId : String
  runId : RunId
  taskId : Option TaskId
  kind : String
  path : String
  checksum : String

/-! ## Leases -/

/-- `Lease.from_seconds`, given the clock reading it makes. -/
def leaseUntil (now : Instant) (seconds : Int) : Instant := now + seconds * 1000000

/-- A lease is live up to and including its instant. -/
def Lease.isExpired (leasedUntil now : Instant) : Bool := leasedUntil < now

/-- `PENDING`, or `LEASED` with an expired lease. -/
def TaskRecord.leaseable (t : TaskRecord) (now : Instant) : Bool :=
  t.status = .pending || (t.status = .leased && t.leasedUntil.any fun u => u < now)

/-! ## Lifecycle -/

/-- `ALLOWED_RUN_TRANSITIONS`. -/
def allowedRunTransitions : RunStatus → List RunStatus
  | .created => [.validated, .cancelled]
  | .validated => [.running, .cancelled]
  | .running => [.partialFailed, .failed, .completed, .cancelled]
  | .partialFailed => [.failed, .completed, .cancelled]
  | .failed => []
  | .completed => []
  | .cancelled => []

/-- `ALLOWED_TASK_TRANSITIONS`; `RUNNING → PENDING` is the retry path. -/
def allowedTaskTransitions : TaskStatus → List TaskStatus
  | .pending => [.leased, .cancelled]
  | .leased => [.running, .cancelled, .timedOut]
  | .running => [.succeeded, .failed, .timedOut, .degenerate, .cancelled, .pending]
  | .succeeded => []
  | .failed => []
  | .timedOut => []
  | .degenerate => []
  | .cancelled => []

def invalidRunTransition (current target : RunStatus) : PyExc :=
  .valueError s!"invalid run transition: {current.value} -> {target.value}"

def invalidTaskTransition (current target : TaskStatus) : PyExc :=
  .valueError s!"invalid task transition: {current.value} -> {target.value}"

def ensureRunTransition (current target : RunStatus) : Except PyExc Unit :=
  if target ∈ allowedRunTransitions current then .ok ()
  else .error (invalidRunTransition current target)

def ensureTaskTransition (current target : TaskStatus) : Except PyExc Unit :=
  if target ∈ allowedTaskTransitions current then .ok ()
  else .error (invalidTaskTransition current target)

/-- `SUCCEEDED`, `FAILED`, `TIMED_OUT`, `DEGENERATE` and `CANCELLED`. -/
def TaskStatus.terminal (s : TaskStatus) : Bool :=
  s ∈ [.succeeded, .failed, .timedOut, .degenerate, .cancelled]

/-- The statuses the code calls unsuccessful. -/
def TaskStatus.unsuccessful (s : TaskStatus) : Bool := s ∈ [.failed, .timedOut, .degenerate]

def TaskStatus.inProgress (s : TaskStatus) : Bool := s ∈ [.pending, .leased, .running]

theorem TaskStatus.terminal_iff (s : TaskStatus) :
    s.terminal = true ↔ s.inProgress = false := by
  cases s <;> decide

/-- No edge leaves a terminal task status. -/
theorem allowedTaskTransitions_terminal {s : TaskStatus} (h : s.terminal = true) :
    allowedTaskTransitions s = [] := by
  cases s <;> first | rfl | (simp [TaskStatus.terminal] at h)

end FineTuneHarness
