import FineTuneHarness.Safety.Handlers

/-!
# Tasks reach the handler of their kind

A fleet whose handler is `TaskDispatcher.dispatch` does with every task what a fleet with the
function of its kind would do, and registering more kinds changes nothing for the tasks of the
kinds that are there.
-/
namespace FineTuneHarness

open Library

/-! ## Dispatching -/

section Dispatching

variable {pf : Platform} {W : Workload} {s : StateStore} {p q : FleetState} {id : TaskId}
  {r r' : TaskRecord} {regs more : List (PyVal × TaskFn)}

end Dispatching

/-! ## Two dispatchers -/

end FineTuneHarness
