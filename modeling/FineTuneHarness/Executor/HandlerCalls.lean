import FineTuneHarness.Executor.Closing

/-!
# Where the handler is called

One `run_once` calls its handler at one place only: before and after, its requests go to the
store, to hooks, to the clock and to the artifact store.
-/
namespace FineTuneHarness

open Library Library.Program

/-- Requests that create no task, lease none and call no handler. -/
def Unhandled : Effect → Prop
  | .ext x => x.handled = none
  | .store (.createTask _) | .store (.leaseNextPendingTask ..) => False
  | .store _ => True

theorem Unhandled.call {op : StoreOp} (h : Unhandled (.store op)) : (call op).Only Unhandled := by
  simp only [Only, wp_call]
  exact ⟨h, fun r _ _ => by cases r <;> trivial⟩

theorem Routine.unhandled {runId : RunId} {e : Effect} (h : Routine runId e) : Unhandled e := by
  cases e with
  | ext x => exact h
  | store op => cases op <;> first | exact h.elim | trivial

theorem only_unhandled {α : Type} {runId : RunId} {p : Prog α} (h : p.Only (Routine runId)) :
    p.Only Unhandled :=
  h.mono fun _ => Routine.unhandled

theorem Closing.unhandled {a : Attempt} {sts : List TaskStatus} {e : Effect} (h : Closing a sts e) :
    Unhandled e := by
  cases e with
  | ext x => exact h
  | store op => cases op <;> first | exact h.elim | trivial

theorem unhandled_record {runId : RunId} {taskId : Option TaskId} {kind : String}
    {payload : List (String × PyVal)} : (record runId taskId kind payload).Only Unhandled :=
  Unhandled.call trivial

namespace LocalWorker

variable (pf : Platform) (w : LocalWorker)

theorem unhandled_seedAttempt (seed : Option Int) : (seedAttempt pf seed).Only Unhandled := by
  cases seed with
  | none => trivial
  | some seed => exact only_ofExcept _

/-- After the handler call, the handler is not called again. -/
theorem unhandled_finish (a : Attempt) (run : HandlerRun (Except PyExc PyVal)) :
    (w.finish pf a run).Only Unhandled :=
  (w.closing_finish pf a run).mono fun _ => Closing.unhandled

end LocalWorker
end FineTuneHarness
