import FineTuneHarness.Safety.Handlers

/-!
# Hooks have no say in the verdict

A result is judged before the hooks that come after it see it. Hooks that leave the payload of a
task as it is do not show in its status or its error, whatever they do to its result afterwards.
-/
namespace FineTuneHarness

open Library

namespace Workload

variable {pf : Platform} {W W' : Workload} {t : TaskRecord} {x x' : Ending}

end Workload

section Fleets

variable {pf : Platform} {W W' : Workload} {s : StateStore} {p q : FleetState} {id : TaskId}
  {r r' : TaskRecord}

end Fleets

/-! ## With a memory monitor and without -/

end FineTuneHarness
