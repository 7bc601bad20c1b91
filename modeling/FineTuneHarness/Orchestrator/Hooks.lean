import FineTuneHarness.State.Models

/-!
# Hook registry

The registered functions themselves are outside code: a hook call is answered by the
environment, which may change the payload of the working task and the result in place. An
exception in a hook is swallowed by `fire`, so it is no answer at all.
-/
namespace FineTuneHarness

inductive HookPoint
  | beforeRunStart | beforeTask | afterTaskSuccess | afterTaskFailure | afterTaskTimeout
  | onRunStatusChanged
deriving DecidableEq

def HookPoint.value : HookPoint → String
  | .beforeRunStart => "before_run_start"
  | .beforeTask => "before_task"
  | .afterTaskSuccess => "after_task_success"
  | .afterTaskFailure => "after_task_failure"
  | .afterTaskTimeout => "after_task_timeout"
  | .onRunStatusChanged => "on_run_status_changed"

/-- A registered function: its qualified name and, where it is a method of an object that
declares `cumulative_across_tasks`, the type name of that object. -/
structure HookFn where
  qualname : String
  cumulative : Option String := none

structure HookRegistry where
  hooks : List (HookPoint × HookFn) := []

namespace HookRegistry

/-- The functions registered at a point, in order. -/
def hooksAt (r : HookRegistry) (p : HookPoint) : List HookFn :=
  (r.hooks.filter fun h => h.1 = p).map (·.2)

def hookNames (r : HookRegistry) (p : HookPoint) : List String := (r.hooksAt p).map (·.qualname)

def total (r : HookRegistry) : Nat := r.hooks.length

def cumulativeHookTypes (r : HookRegistry) : List String :=
  (r.hooks.filterMap (·.2.cumulative)).dedup.insertionSort (· ≤ ·)

end HookRegistry

/-- The keyword arguments of one `fire`. -/
inductive HookCall
  | beforeRunStart (runId : RunId)
  | beforeTask (task : TaskRecord)
  | afterTaskSuccess (task : TaskRecord) (result : Dict)
  | afterTaskFailure (task : TaskRecord) (error : PyExc)
  | afterTaskTimeout (task : TaskRecord)
  | onRunStatusChanged (runId : RunId) (status : RunStatus)

namespace HookCall

def point : HookCall → HookPoint
  | .beforeRunStart _ => .beforeRunStart
  | .beforeTask _ => .beforeTask
  | .afterTaskSuccess .. => .afterTaskSuccess
  | .afterTaskFailure .. => .afterTaskFailure
  | .afterTaskTimeout _ => .afterTaskTimeout
  | .onRunStatusChanged .. => .onRunStatusChanged

/-- The arguments after a hook has changed the two dictionaries it can reach. -/
def mutate (payload result : Dict) : HookCall → HookCall
  | .beforeTask t => .beforeTask { t with payload }
  | .afterTaskSuccess t _ => .afterTaskSuccess { t with payload } result
  | .afterTaskFailure t e => .afterTaskFailure { t with payload } e
  | .afterTaskTimeout t => .afterTaskTimeout { t with payload }
  | c => c

def payload : HookCall → Dict
  | .beforeTask t | .afterTaskSuccess t _ | .afterTaskFailure t _ | .afterTaskTimeout t =>
    t.payload
  | _ => []

def result : HookCall → Dict
  | .afterTaskSuccess _ r => r
  | _ => []

end HookCall
end FineTuneHarness
