import FineTuneHarness.Executor.Ending

/-!
# What `TIMED_OUT` says

A passed deadline and an exception of the handler reach `run_once` through the same `except`
clause: a `TimeoutError` that the handler raises itself is taken for the deadline, with or
without one in force.
-/
namespace FineTuneHarness

open Library Library.Program

namespace LocalWorker

variable (pf : Platform) (w : LocalWorker) (ext : (x : Ext) → x.Reply) (s : StateStore)
  (runId : RunId) (mem : RunMemory)

variable {pf w ext s runId mem} {a : Attempt} {row : TaskRecord}

end LocalWorker

end FineTuneHarness
