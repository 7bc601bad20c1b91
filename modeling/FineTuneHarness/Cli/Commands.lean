import FineTuneHarness.Executor.Concurrent

/-!
# The commands that write

`create-run`, `start-run` and `run` as programs over one database, each up to its exit, and
the gate that `start-run` asks. `shell` interleaves the processes of any number of commands;
commands one after the other are one kind of its runs. What a command prints is left out.
-/
namespace FineTuneHarness

open Library (Program Machine)

/-! ## `InteractiveApprovalGate` -/

/-- `resolve_actor`; `osUser` is what `getpass.getuser()` answers, if it does. -/
def resolveActor (osUser : Option String) : Option String → String
  | some actor => if actor = "" then osUser.getD "unknown" else actor
  | none => osUser.getD "unknown"

def approvalError (text : String) : PyExc := ⟨"ApprovalError", ["Exception"], text⟩

/-- `actor in actors`. -/
def isAmong (actor : String) (actors : List PyVal) : Bool :=
  actors.any fun
    | .str a => a = actor
    | _ => false

/-- What `<` looks at. Texts are ordered, and numbers; a list is taken to be ordered with nothing. -/
def PyVal.orderKey : PyVal → PyKey
  | .str s => .str s
  | .int i => .int i
  | .bool b => .bool b
  | .float f => .float f
  | .none => .none
  | v => .other v.typeName

/-- `sorted(actors)`. -/
def sortedActors (actors : List PyVal) : Except PyExc (List PyVal) :=
  if PyKey.sortable (actors.map PyVal.orderKey) then
    .ok (actors.insertionSort fun a b => PyKey.le a.orderKey b.orderKey)
  else .error (.typeError "'<' not supported between instances of different types")

/-- `answer.strip().lower() in ("y", "yes")`; there is no answer at the end of the input. -/
def isYes : Option String → Bool
  | some answer => (PyVal.strip answer).map Char.toLower ∈ ["y".toList, "yes".toList]
  | none => false

structure InteractiveApprovalGate where
  actor : String
  allowedActors : Option (List PyVal)

namespace InteractiveApprovalGate

variable (pf : Platform) (gate : InteractiveApprovalGate) (runId : RunId)

def authorize : Except PyExc Unit :=
  match gate.allowedActors with
  | none => .ok ()
  | some actors =>
    if isAmong gate.actor actors then .ok ()
    else do
      let allowed ← sortedActors actors
      throw (approvalError s!"actor {pf.repr (.str gate.actor)} is not authorized to approve run {pf.repr (.str runId)} (allowed: {pf.repr (.list allowed)})")

/-- `check`: the actor who approves. -/
def check (answer : Option String) : Except PyExc String := do
  gate.authorize pf runId
  if isYes answer then return gate.actor
  else throw (approvalError s!"run {pf.repr (.str runId)} denied by operator")

end InteractiveApprovalGate

/-- `FineTuneRunner.await_approval`. -/
def awaitApproval (pf : Platform) (runId : RunId) (gate : InteractiveApprovalGate)
    (answer : Option String) : Prog Unit := do
  match ← call (.getRun runId) with
  | none => throw (unknownRun runId)
  | some run =>
    let _ ← call (.listTasks runId)
    let actor ← Program.ofExcept (gate.check pf run.runId answer)
    record runId none "run_approved" [("gate", .str "InteractiveApprovalGate"), ("actor", .str actor)]

/-! ## The commands -/

/-- A key, met in an iteration over its dictionary. -/
def PyKey.value : PyKey → PyVal
  | .str s => .str s
  | .int i => .int i
  | .bool b => .bool b
  | .float f => .float f
  | .none => .none
  | .other cls => .obj cls (some true)

/-- `tuple(v)`. -/
def PyVal.tuple : PyVal → Except PyExc (List PyVal)
  | .list xs => .ok xs
  | .str s => .ok (s.toList.map fun c => .str (String.singleton c))
  | .dict d | .mapping d => .ok (d.map fun kv => kv.1.value)
  | v => .error (.typeError s!"'{v.typeName}' object is not iterable")

/-- The same drain on a store that others have written to. -/
def Concurrent.onStore (t : Concurrent) (store : StateStore) : Concurrent :=
  { t with pool := { t.pool with shared := { t.pool.shared with store } } }

namespace Cli

def systemExit : PyExc := ⟨"SystemExit", ["BaseException"], "1"⟩

/-- `create-run`. With `--memory` the run stays in the process. -/
def createRun (pf : Platform) (memory : Bool) (name : String) (config : Dict) (tasks : List Dict) :
    Prog Unit :=
  if memory then pure ()
  else do
    let _ ← FineTuneHarness.createRun pf name config tasks
    pure ()

/-- The allowlist that `start-run` hands to the gate. -/
def allowedActors (config : Dict) : Except PyExc (Option (List PyVal)) :=
  match Configs.section? config "approval" with
  | some approval => do
    let given ← (approval.get "allowed_actors").truth
    if given then return some (← (approval.get "allowed_actors").tuple) else return none
  | none => .ok none

/-- `start-run`. -/
def startRun (pf : Platform) (osUser : Option String) (runId : RunId)
    (approver answer : Option String) : Prog Unit := do
  match ← call (.getRun runId) with
  | none => throw systemExit
  | some run =>
    let allowed ← Program.ofExcept (allowedActors run.config)
    match ← (awaitApproval pf runId ⟨resolveActor osUser approver, allowed⟩ answer).attempt with
    | .ok () => pure ()
    | .error exc => if exc.isInstance "ApprovalError" then throw systemExit else throw exc

/-- The arguments of `run`. `concurrency` is what `_resolve_concurrency` makes of the config and
the flags, `perDevice` the first answer of the monitor, `rounds` the rounds that a drain in the
process itself gets to. -/
structure RunArgs where
  runId : RunId
  skipApproval : Bool := false
  handlerLoads : Bool := true
  concurrency : ConcurrencyConfig := {}
  perDevice : Option (List PyFloat) := none
  rounds : Nat := 0

/-- `_is_approved`. -/
def isApproved (events : List EventRecord) : Bool := events.any fun e => e.kind = "run_approved"

def passGate (osUser : Option String) (args : RunArgs) : Prog Unit :=
  if args.skipApproval then
    record args.runId none "approval_skipped" [("actor", .str (resolveActor osUser none))]
  else do
    let events ← call (.listEvents args.runId)
    if isApproved events then pure () else throw systemExit

/-- The drain of `run`: finished in this process, or handed to the loop of `drain_concurrent`. -/
def drainRun (pf : Platform) (args : RunArgs) : Prog (Option Draining) :=
  let worker : LocalWorker := { workerId := "cli" }
  match args.concurrency.mode, args.perDevice with
  | .resourceAware, some perDevice => do
    let memory ← worker.startRun [] args.runId
    worker.recordDrainStarted args.runId args.concurrency
    pure (some {
      workerId := "cli", runId := args.runId, concurrency := args.concurrency, perDevice
      seed := memory.seed args.runId })
  | _, _ => do
    let _ ← worker.drain pf args.rounds [] args.runId
    pure none

/-- `run`. -/
def run (pf : Platform) (osUser : Option String) (args : RunArgs) : Prog (Option Draining) := do
  match ← call (.getRun args.runId) with
  | none => throw systemExit
  | some _ =>
    passGate osUser args
    if args.handlerLoads then drainRun pf args else throw systemExit

inductive Command
  | createRun (memory : Bool) (name : String) (config : Dict) (tasks : List Dict)
  | startRun (runId : RunId) (approver answer : Option String)
  | run (args : RunArgs)

def Command.program (pf : Platform) (osUser : Option String) : Command → Prog (Option Draining)
  | .createRun memory name config tasks => do
    Cli.createRun pf memory name config tasks
    pure none
  | .startRun runId approver answer => do
    Cli.startRun pf osUser runId approver answer
    pure none
  | .run args => Cli.run pf osUser args

/-! ## Processes on one database -/

/-- What a process is at: nothing, the requests of its command, or the loop of a concurrent drain. -/
inductive Process
  | idle
  | command (cmd : Command) (p : Prog (Option Draining))
  | draining (c : Draining) (t : Concurrent)

structure Shell where
  store : StateStore
  process : Nat → Process

inductive ShellAct
  | enter (i : Nat) (osUser : Option String) (cmd : Command)
  | request (i : Nat) (a : Answers)
  /-- The command has come to the loop of `drain_concurrent`. -/
  | loop (i : Nat)
  | drain (i : Nat) (a : DrainAct)
  /-- The process ends, or is killed. -/
  | leave (i : Nat)

namespace Shell

/-- No process on the empty database. -/
def initial : Shell where
  store := { backend := .sqlite, tables := .empty }
  process := fun _ => .idle

variable (pf : Platform) (s : Shell)

/-- The process goes on with the database as it leaves it. -/
def put (i : Nat) (store : StateStore) (p : Process) : Shell where
  store := store
  process := Function.update s.process i p

def step : ShellAct → Option Shell
  | .enter i osUser cmd =>
    match s.process i with
    | .idle => some (s.put i s.store (.command cmd (cmd.program pf osUser)))
    | _ => none
  | .request i a =>
    match s.process i with
    | .command cmd (.call e next) =>
      some (s.put i (e.perform a s.store).2 (.command cmd (next (e.perform a s.store).1)))
    | _ => none
  | .loop i =>
    match s.process i with
    | .command _ (.ret (some c)) => some (s.put i s.store (.draining c (c.begin s.store)))
    | _ => none
  | .drain i a =>
    match s.process i with
    | .draining c t =>
      -- the children find the database as the other processes have left it
      ((t.onStore s.store).step c pf a).map fun t' => s.put i t'.pool.shared.store (.draining c t')
    | _ => none
  | .leave i => some (s.put i s.store .idle)

end Shell

/-- Any number of command processes, and the children of those that drain concurrently. -/
def shell (pf : Platform) : Machine Shell ShellAct := ⟨fun s a => s.step pf a⟩

end Cli
end FineTuneHarness
