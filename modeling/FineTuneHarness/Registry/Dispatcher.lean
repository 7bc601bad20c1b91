import FineTuneHarness.Library.Registry
import FineTuneHarness.Executor.Workload

/-!
# Task dispatcher

A handler that looks at `payload["kind"]` and hands the task to the function registered for it.
-/
namespace FineTuneHarness

open Library

/-- `sorted(payload.keys())`. -/
def sortedKeys (payload : Dict) : Except PyExc (List PyKey) :=
  let keys := payload.map (·.1)
  if PyKey.sortable keys then .ok (keys.insertionSort fun a b => PyKey.le a b)
  else .error (.typeError "'<' not supported between instances of different key types")

/-- `validate_task_payload`, returning the kind it has checked. -/
def validateTaskPayload (pf : Platform) (task : TaskRecord) : Except PyExc String :=
  let id := pf.repr (.str task.taskId)
  match task.payload.get? "kind" with
  | none => do
    let keys := String.intercalate ", " ((← sortedKeys task.payload).map pf.reprKey)
    throw (.valueError
      s!"task {id} payload is missing required field 'kind'. Got keys: [{keys}]")
  | some (.str kind) =>
    if (PyVal.strip kind).isEmpty then
      throw (.valueError s!"task {id} payload['kind'] must be non-empty")
    else pure kind
  | some v =>
    throw (.valueError s!"task {id} payload['kind'] must be a str, got {v.typeName}")

structure TaskDispatcher where
  registry : Registry String TaskFn

namespace TaskDispatcher

variable (pf : Platform) (d : TaskDispatcher)

/-- `TaskDispatcher()`. -/
def new : TaskDispatcher := ⟨.empty⟩

def kinds : List String := d.registry.names.insertionSort (· ≤ ·)

/-- The function a task goes to. -/
def route (task : TaskRecord) : Except PyExc TaskFn := do
  let kind ← validateTaskPayload pf task
  match d.registry.find kind with
  | some fn => return fn
  | none =>
    let known := pf.repr (.list (d.kinds.map .str))
    throw (.valueError s!"No handler registered for task kind {pf.repr (.str kind)}. Registered kinds: {known}")

variable {pf : Platform} {d : TaskDispatcher}

/-! ## Registration -/

end TaskDispatcher

end FineTuneHarness
