import FineTuneHarness.Executor.Attempt
import FineTuneHarness.Executor.Discipline

/-!
# A worker alone keeps the run status fitting

With one worker on the store the tasks never contradict the stored run status: the calls of
`run_once` only carry the tasks on, and a refresh moves the status to what they ask for or
leaves it.
-/
namespace FineTuneHarness

open Library Library.Program

/-- The run is on record, and its tasks do not contradict its status. -/
def RunFits (s : StateStore) (runId : RunId) : Prop :=
  ∃ r, s.run? runId = some r ∧ Fits (s.tasksOf runId) r.status

/-- Requests that create no task and move no run. -/
def Onward : Effect → Prop
  | .ext _ => True
  | .store (.createTask _) | .store (.updateRunStatus ..) => False
  | .store _ => True

theorem Onward.exec {op : StoreOp} (h : Onward (.store op)) {s : StateStore} {runId : RunId}
    (clk : Clock) (hs : RunFits s runId) : RunFits (s.exec op clk).2 runId := by
  obtain ⟨r, hr, hfit⟩ := hs
  have hkeeps : StateStore.keepsTasks op := by cases op <;> first | exact h.elim | trivial
  refine ⟨StateStore.runAfter runId r op, s.exec_run? clk hr op, ?_⟩
  have hstatus : (StateStore.runAfter runId r op).status = r.status := by
    cases op <;> first | exact h.elim | rfl | skip
    case updateRunFinishedAt id t =>
      show (if id = runId then r.finish t else r).status = r.status
      split <;> rfl
  rw [hstatus]
  exact hfit.evolves (s.exec_evolves clk hkeeps)

theorem Still.onward {e : Effect} (h : Still e) : Onward e := by
  cases e with
  | ext x => trivial
  | store op => cases op <;> first | exact h.elim | trivial

section Keeps

variable {α : Type} {ok : Admits} {runId : RunId}

/-- The run status keeps fitting throughout. -/
abbrev KeepsFitting (ok : Admits) (runId : RunId) (p : Prog α) : Prop :=
  Keeps (alone ok) (fun l => RunFits l.store runId) p

theorem keepsFitting_of_only (hok : ¬ ok.refreshable) {p : Prog α} (h : p.Only Onward) :
    KeepsFitting ok runId p := by
  refine Keeps.of_only h fun l e hl he => ⟨alone_may hok l e, fun r l' hlearn => ?_⟩
  cases e with
  | ext x =>
    obtain ⟨-, rfl⟩ := hlearn
    exact hl
  | store op =>
    obtain ⟨-, clk, -, hx⟩ := hlearn
    have hfits := Onward.exec he clk hl
    rw [hx] at hfits
    exact hfits

theorem keepsFitting_still (hok : ¬ ok.refreshable) {p : Prog α} (h : p.Only Still) :
    KeepsFitting ok runId p :=
  keepsFitting_of_only hok (h.mono fun _ => Still.onward)

theorem keepsFitting_call (hok : ¬ ok.refreshable) {op : StoreOp}
    (h : Onward (.store op) := by exact trivial) : KeepsFitting ok runId (call op) := by
  refine keepsFitting_of_only hok ?_
  simp only [Only, wp_call]
  exact ⟨h, fun r _ _ => by cases r <;> trivial⟩

/-- A refresh of the run itself. -/
theorem keepsFitting_refresh (hok : ¬ ok.refreshable) :
    KeepsFitting ok runId (refreshRunStatus runId) := by
  rintro ⟨s, cs⟩ ⟨r, hr, hfit⟩
  cases hreach : r.status.canReach (targetStatus (s.tasksOf runId)) with
  | true =>
    refine alone_refreshRunStatus hr hreach fun s' ho hr' => ?_
    obtain ⟨r', hr', hst⟩ := hr'
    refine ⟨r', hr', ?_⟩
    rw [hst, ho.tasksOf]
    exact fits_targetStatus
  | false => exact alone_refreshRunStatus_stuck hok hr hreach ⟨r, hr, hfit⟩

end Keeps

namespace LocalWorker

variable (pf : Platform) (w : LocalWorker) {ok : Admits} (hok : ¬ ok.refreshable) {a : Attempt}

include hok

theorem keepsFitting_recordAttempt {kind : String} {more : List (String × PyVal)} :
    KeepsFitting ok a.runId (w.recordAttempt a kind more) :=
  keepsFitting_call hok

/-- A settlement, its event, the refresh, and whatever follows. -/
theorem keepsFitting_close {α : Type} {st : TaskStatus} {r : Option Dict} {err : Option String}
    {kind : String} {more : List (String × PyVal)} {f : RunStatus → Prog α}
    (hf : ∀ status, (f status).Only Still) :
    KeepsFitting ok a.runId (do
      call (.updateTaskStatus a.task.taskId st r err)
      w.recordAttempt a kind more
      let status ← refreshRunStatus a.runId
      f status : Prog α) :=
  (keepsFitting_call hok).bind fun _ => (w.keepsFitting_recordAttempt hok).bind fun _ =>
    (keepsFitting_refresh hok).bind fun status => keepsFitting_still hok (hf status)

theorem keepsFitting_persist {α : Type} {st : TaskStatus} {result : Dict} {err : Option String}
    {kind : String} {more : List (String × PyVal)} {f : RunStatus → Prog α}
    (hf : ∀ status, (f status).Only Still) :
    KeepsFitting ok a.runId (do
      call (.updateTaskStatus a.task.taskId st (some result) err)
      w.keepArtifact a result
      w.recordAttempt a kind more
      let status ← refreshRunStatus a.runId
      f status : Prog α) := by
  refine (keepsFitting_call hok).bind fun _ => Keeps.bind ?_ fun _ =>
    (w.keepsFitting_recordAttempt hok).bind fun _ =>
      (keepsFitting_refresh hok).bind fun status => keepsFitting_still hok (hf status)
  unfold keepArtifact
  split
  · exact (keepsFitting_still hok (still_ask _)).bind fun _ => (Keeps.ofExcept _).bind fun _ =>
      keepsFitting_call hok
  · exact Keeps.pure _

theorem keepsFitting_onException (payload : Dict) (exc : PyExc) :
    KeepsFitting ok a.runId (w.onException pf a payload exc) := by
  have hrecord : ∀ m, KeepsFitting ok a.runId (w.recordFailure a exc m) := by
    intro m
    unfold recordFailure
    split
    · exact (keepsFitting_call hok).bind fun _ => w.keepsFitting_recordAttempt hok
    · exact (keepsFitting_call hok).bind fun _ => w.keepsFitting_recordAttempt hok
  refine Keeps.bind ?_ fun _ => (Keeps.ofExcept _).bind fun m => (hrecord m).bind fun _ =>
    (keepsFitting_refresh hok).bind fun status => keepsFitting_still hok
      (w.still_notify _ _ _ _ fun c => only_bind (w.still_backOff _ _) fun _ => only_throw _)
  unfold requeueOnOom
  split
  · refine (keepsFitting_call hok).bind fun events => ?_
    dsimp only
    split
    · exact Keeps.pure _
    · exact w.keepsFitting_close hok fun status =>
        only_bind (w.still_announceStatus _ _) fun _ => only_throw _
  · exact Keeps.pure _

theorem keepsFitting_onReturn (payload : Dict) (wall : PyFloat) (v : PyVal) :
    KeepsFitting ok a.runId (w.onReturn pf a payload wall v) := by
  refine (Keeps.ofExcept _).bind fun judged => ?_
  obtain ⟨result, outcome⟩ := judged
  dsimp only
  split
  · exact w.keepsFitting_persist hok fun status =>
      w.still_notify _ _ _ _ fun _ => only_throw _
  · exact (keepsFitting_still hok (still_fire _ _)).bind fun c =>
      (keepsFitting_still hok (w.still_recordHookFired _ _)).bind fun _ =>
        w.keepsFitting_persist hok fun status =>
          only_bind (w.still_announceStatus _ _) fun _ => only_pure _

theorem keepsFitting_finish (run : HandlerRun (Except PyExc PyVal)) :
    KeepsFitting ok a.runId (w.finish pf a run) := by
  unfold finish
  split
  · split
    · exact w.keepsFitting_close hok fun status =>
        w.still_notify _ _ _ _ fun _ => only_throw _
    · exact w.keepsFitting_onException pf hok _ _
  · exact w.keepsFitting_onReturn pf hok _ _ _

theorem keepsFitting_begin {α : Type} {runId : RunId} {task : TaskRecord} {f : Attempt → Prog α}
    (hf : ∀ count, KeepsFitting ok runId (f ⟨runId, task, count⟩)) :
    KeepsFitting ok runId (w.beginAttempt runId task >>= f) := by
  have hassoc : KeepsFitting ok runId (do
      let count ← call (.incrementTaskAttempts task.taskId)
      call (.markTaskRunning task.taskId)
      w.recordAttempt ⟨runId, task, count⟩ "task_running" []
      let _ ← refreshRunStatus runId
      f ⟨runId, task, count⟩) :=
    (keepsFitting_call hok).bind fun count => (keepsFitting_call hok).bind
      fun _ => (keepsFitting_call hok).bind fun _ => (keepsFitting_refresh hok).bind
        fun _ => hf count
  intro l hl
  have hwp := hassoc l hl
  unfold beginAttempt
  simp only [wp_bind, wp_pure] at hwp ⊢
  exact hwp

theorem keepsFitting_leaseAndRun (seed : Option Int) (runId : RunId) :
    KeepsFitting ok runId (w.leaseAndRun pf seed runId) := by
  refine (keepsFitting_call hok).bind fun leased => ?_
  cases leased with
  | none => exact Keeps.pure _
  | some task =>
    refine Keeps.bind ?_ fun _ => Keeps.pure _
    refine w.keepsFitting_begin hok fun count => ?_
    refine (keepsFitting_still hok (w.still_prepare pf seed _)).bind fun prepared => ?_
    exact (keepsFitting_still hok (still_execute _ _)).bind fun run =>
      w.keepsFitting_finish pf hok (a := ⟨runId, task, count⟩) run

/-- **`run_once` alone on the store keeps the run status fitting**, whatever it is answered. -/
theorem keepsFitting_runOnce (mem : RunMemory) (runId : RunId) :
    KeepsFitting ok runId (w.runOnce pf mem runId) :=
  (keepsFitting_still hok (w.still_startRun mem runId)).bind fun _ =>
    (w.keepsFitting_leaseAndRun pf hok _ runId).attempt.bind fun _ => Keeps.pure _

omit hok in
theorem runOnce_fits {s : StateStore} {runId : RunId} (mem : RunMemory) (ans : Answers)
    (h : RunFits s runId) : RunFits (atomically (w.runOnce pf mem runId) ans s).2 runId := by
  have hrun := atomically_of_wp (keepsFitting_runOnce pf w id mem runId ⟨s, []⟩ h)
    (Admits.any_meets ans)
  generalize atomically (w.runOnce pf mem runId) ans s = out at hrun ⊢
  obtain ⟨r, s'⟩ := out
  cases r with
  | ok _ => obtain ⟨_, h⟩ := hrun; exact h
  | error _ => obtain ⟨_, h⟩ := hrun; exact h

end LocalWorker
end FineTuneHarness
