import FineTuneHarness.Executor.Discipline

/-!
# After the handler call

From the end of the handler call on, an attempt updates its own task, reads and writes events of
its run and goes on with routine. `Closing` lists these requests, with the statuses a branch
writes; whatever all of them are, every branch is.
-/
namespace FineTuneHarness

open Library Library.Program

/-- The events of an attempt that follow its `task_running`. -/
def closingKinds : List String :=
  ["hook_fired", "run_status_changed", "task_succeeded", "task_failed", "task_retry_scheduled",
    "task_timed_out", "task_degenerate", oomRequeuedKind]

/-- A request of the attempt's end that writes one of these statuses, if it writes one. -/
def Closing (a : Attempt) (sts : List TaskStatus) : Effect → Prop
  | .store (.listEvents runId) => runId = a.runId
  | .store (.updateTaskStatus t st ..) => t = a.task.taskId ∧ st ∈ sts
  | .store (.appendEvent e) => e.runId = a.runId ∧ e.kind ∈ closingKinds
  | e => Routine a.runId e

section Closing

variable {a : Attempt} {sts sts' : List TaskStatus}

theorem Routine.closing {e : Effect} (h : Routine a.runId e) : Closing a sts e := by
  cases e with
  | ext x => exact h
  | store op =>
    cases op <;> first | exact h.elim | exact h | skip
    case appendEvent e =>
      exact ⟨h.1, (show ["run_status_changed", "hook_fired"] ⊆ closingKinds by decide) h.2⟩

theorem Closing.mono {e : Effect} (h : Closing a sts e) (hs : sts ⊆ sts') : Closing a sts' e := by
  cases e with
  | ext x => exact h
  | store op =>
    cases op <;> first | exact h | skip
    case updateTaskStatus t st r err => exact ⟨h.1, hs h.2⟩

theorem only_closing {α : Type} {p : Prog α} (h : p.Only (Routine a.runId)) : p.Only (Closing a sts) :=
  h.mono fun _ => Routine.closing

theorem Closing.call {op : StoreOp} (h : Closing a sts (.store op)) :
    (FineTuneHarness.call op).Only (Closing a sts) := by
  simp only [Only, wp_call]
  exact ⟨h, fun r _ _ => by cases r <;> trivial⟩

end Closing

namespace LocalWorker

variable (pf : Platform) (w : LocalWorker) (a : Attempt) {sts : List TaskStatus}

theorem closing_update {st : TaskStatus} (h : st ∈ sts) (r : Option Dict) (e : Option String) :
    (call (.updateTaskStatus a.task.taskId st r e)).Only (Closing a sts) :=
  Closing.call ⟨rfl, h⟩

theorem closing_recordAttempt {kind : String} (h : kind ∈ closingKinds) (more : List (String × PyVal)) :
    (w.recordAttempt a kind more).Only (Closing a sts) :=
  Closing.call ⟨rfl, h⟩

theorem closing_refresh : (refreshRunStatus a.runId).Only (Closing a sts) :=
  only_closing (routine_refreshRunStatus a.runId)

theorem closing_onTimeout (payload : Dict) (exc : PyExc) :
    (w.onTimeout a payload exc).Only (Closing a [.timedOut]) :=
  only_bind (closing_update a (by decide) _ _) fun _ =>
    only_bind (w.closing_recordAttempt a (by decide) _) fun _ =>
    only_bind (closing_refresh a) fun _ =>
    only_closing (w.routine_notify _ a _ _ fun _ => only_throw _)

theorem closing_requeueOnOom (exc : PyExc) :
    (w.requeueOnOom pf a exc).Only (Closing a [.pending, .failed]) := by
  unfold requeueOnOom
  split
  · refine only_bind (Closing.call rfl) fun events => ?_
    dsimp only
    split
    · exact only_pure _
    · exact only_bind (closing_update a (by decide) _ _) fun _ =>
        only_bind (w.closing_recordAttempt a (by decide) _) fun _ =>
        only_bind (closing_refresh a) fun _ =>
        only_bind (only_closing (w.routine_announceStatus a _)) fun _ => only_throw _
  · exact only_pure _

theorem closing_recordFailure (exc : PyExc) (m : Int) :
    (w.recordFailure a exc m).Only (Closing a [.pending, .failed]) := by
  unfold recordFailure
  split <;> exact only_bind (closing_update a (by decide) _ _) fun _ =>
    w.closing_recordAttempt a (by decide) _

theorem closing_onException (payload : Dict) (exc : PyExc) :
    (w.onException pf a payload exc).Only (Closing a [.pending, .failed]) :=
  only_bind (w.closing_requeueOnOom pf a exc) fun _ => only_bind (only_ofExcept _) fun m =>
    only_bind (w.closing_recordFailure a exc m) fun _ => only_bind (closing_refresh a) fun _ =>
    only_closing (w.routine_notify _ a _ _ fun _ =>
      only_bind (w.routine_backOff a _) fun _ => only_throw _)

theorem closing_onReturn (payload : Dict) (wall : PyFloat) (v : PyVal) :
    (w.onReturn pf a payload wall v).Only (Closing a [.succeeded, .degenerate]) := by
  refine only_bind (only_ofExcept _) fun judged => ?_
  obtain ⟨result, outcome⟩ := judged
  dsimp only
  split
  · exact only_bind (closing_update a (by decide) _ _) fun _ =>
      only_bind (only_closing (w.routine_keepArtifact a _)) fun _ =>
      only_bind (w.closing_recordAttempt a (by decide) _) fun _ =>
      only_bind (closing_refresh a) fun _ =>
      only_closing (w.routine_notify _ a _ _ fun _ => only_throw _)
  · refine only_bind (only_closing (routine_fire _ _)) fun _ =>
      only_bind (only_closing (routine_record (by decide))) fun _ => ?_
    exact only_bind (closing_update a (by decide) _ _) fun _ =>
      only_bind (only_closing (w.routine_keepArtifact a _)) fun _ =>
      only_bind (w.closing_recordAttempt a (by decide) _) fun _ =>
      only_bind (closing_refresh a) fun _ =>
      only_bind (only_closing (w.routine_announceStatus a _)) fun _ => only_pure _

/-- **The end of an attempt**, whichever branch it takes. -/
theorem closing_finish (run : HandlerRun (Except PyExc PyVal)) : (w.finish pf a run).Only
    (Closing a [.succeeded, .degenerate, .pending, .failed, .timedOut]) := by
  unfold finish
  split
  · split
    · exact (w.closing_onTimeout a _ _).mono fun _ h => h.mono (by decide)
    · exact (w.closing_onException pf a _ _).mono fun _ h => h.mono (by decide)
  · exact (w.closing_onReturn pf a _ _ _).mono fun _ h => h.mono (by decide)

end LocalWorker
end FineTuneHarness
