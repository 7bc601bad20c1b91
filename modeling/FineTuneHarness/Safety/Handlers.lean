import FineTuneHarness.Registry.Dispatcher
import FineTuneHarness.Safety.ScheduleIndependence

/-!
# Workloads with a given handler

Of a handler, what it makes of the task at hand is all that counts for the ending of the task.
-/
namespace FineTuneHarness

open Library

namespace Workload

variable {pf : Platform} {W : Workload} {fn fn' : TaskFn} {t : TaskRecord} {x : Ending}

end Workload

end FineTuneHarness
