import FineTuneHarness.Executor.Discipline

/-!
# From the count to the verdict

`Phase` follows the task rows. `Stage` also follows the handler: it is called once, after the
mark, and an update to `FAILED` or back to `PENDING` is decided on the number counted before
the mark and on the payload the handler leaves.
-/
namespace FineTuneHarness

open Library Library.Program

/-- The payload of the working task after a handler call. -/
def Ext.payloadLeft : (x : Ext) → x.Reply → Dict
  | .runHandler _, run => run.payload
  | .runHandlerWithin .., run => run.payload
  | _, _ => []

/-- What the handler has raised. -/
def Ext.raised : (x : Ext) → x.Reply → Option PyExc
  | .runHandler _, run =>
    match run.outcome with
    | .error exc => some exc
    | .ok _ => none
  | .runHandlerWithin .., run =>
    match run.outcome with
    | some (.error exc) => some exc
    | _ => none
  | _, _ => none

/-- How far one `run_once` has got with its task; `oom` says whether the handler has raised an
out-of-memory error. -/
inductive Stage
  | free
  | leased (t : TaskId)
  | counted (t : TaskId) (n : Nat)
  | marked (t : TaskId) (n : Nat)
  | called (t : TaskId) (n : Nat) (payload : Dict) (oom : Bool)
  | over

/-- The worker is between its count and its mark. -/
def Stage.waits : Stage → Bool
  | .counted .. => true
  | _ => false

/-- Requests that touch no task row and call no handler. -/
def Aside : Effect → Prop
  | .ext x => x.handled = none
  | .store (.getRun _) | .store (.listTasks _) | .store (.listEvents _)
  | .store (.updateRunStatus ..) | .store (.updateRunFinishedAt ..)
  | .store (.createArtifact _) | .store (.appendEvent _) => True
  | _ => False

theorem Aside.perform_tasks {e : Effect} (h : Aside e) (a : Answers) (s : StateStore) :
    (e.perform a s).2.tables.tasks = s.tables.tasks := by
  cases e with
  | ext x => rfl
  | store op =>
    cases op <;> try exact h.elim
    case listEvents id => rw [Effect.perform, s.exec_listEvents]
    case appendEvent e =>
      rw [Effect.perform, s.exec_appendEvent]
      split <;> rfl
    all_goals
      apply Quiet.perform_tasks
      trivial

theorem Routine.aside {runId : RunId} {e : Effect} (h : Routine runId e) : Aside e := by
  cases e with
  | ext x => exact h
  | store op => cases op <;> first | exact h.elim | trivial

theorem only_aside {α : Type} {runId : RunId} {p : Prog α} (h : p.Only (Routine runId)) :
    p.Only Aside :=
  h.mono fun _ => Routine.aside

theorem aside_call {op : StoreOp} (h : Aside (.store op)) : (call op).Only Aside := by
  simp only [Only, wp_call]
  exact ⟨h, fun r _ _ => by cases r <;> trivial⟩

theorem aside_record (runId : RunId) (taskId : Option TaskId) (kind : String)
    (payload : List (String × PyVal)) : (record runId taskId kind payload).Only Aside :=
  aside_call trivial

/-- `_resolve_max_attempts` of a worker whose policy says `default`. -/
def attemptsAllowed (default : Int) (payload : Dict) : Except PyExc Int :=
  LocalWorker.resolveMaxAttempts { workerId := "", retryPolicy := { maxAttempts := default } }
    payload

namespace Stage

variable (pf : Platform) (default : Int)

/-- What a worker may request next. -/
def may (w : WorkerId) : Stage → Effect → Prop
  | .free, .store (.leaseNextPendingTask _ w' _) => w' = w
  | .leased t, .store (.incrementTaskAttempts t') => t' = t
  | .counted t _, .store (.markTaskRunning t') => t' = t
  | .marked t _, .ext x => ∀ task, x.handled = some task → task.taskId = t
  | .called t n payload oom, .store (.updateTaskStatus t' st _ _) =>
    t' = t ∧ st.settled = true ∧
      (st = .failed → ∃ m, attemptsAllowed default payload = .ok m ∧ m ≤ n) ∧
      (st = .pending → oom = true ∨ ∃ m, attemptsAllowed default payload = .ok m ∧ (n : Int) < m)
  | _, e => Aside e

/-- What the reply says about the stage. -/
def next : Stage → (e : Effect) → e.Reply → Stage
  | .free, .store (.leaseNextPendingTask ..), .ok (some (t : TaskRecord)) => .leased t.taskId
  | .free, .store (.leaseNextPendingTask ..), _ => .over
  | .leased t, .store (.incrementTaskAttempts _), .ok (n : Nat) => .counted t n
  | .leased _, .store (.incrementTaskAttempts _), _ => .over
  | .counted t n, .store (.markTaskRunning _), .ok _ => .marked t n
  | .counted _ _, .store (.markTaskRunning _), _ => .over
  | .marked t n, .ext x, r =>
    if x.handled.isSome then .called t n (x.payloadLeft r) ((x.raised r).any (isOomError pf))
    else .marked t n
  | .called .., .store (.updateTaskStatus ..), _ => .over
  | p, _, _ => p

variable {w : WorkerId} (p : Stage) {e : Effect}

theorem may_of_aside (h : Aside e) : p.may default w e := by
  cases e with
  | ext x =>
    cases p <;> first | exact h | skip
    case marked t n =>
      intro task htask
      rw [show x.handled = none from h] at htask
      cases htask
  | store op => cases op <;> first | exact h.elim | (cases p <;> trivial)

theorem next_of_aside (h : Aside e) (r : e.Reply) : p.next pf e r = p := by
  cases e with
  | ext x =>
    cases p <;> first | rfl | skip
    case marked t n =>
      have hx : x.handled = none := h
      simp only [next, hx, Option.isSome_none, Bool.false_eq_true, if_false]
  | store op => cases op <;> first | exact h.elim | (cases p <;> rfl)

end Stage

/-- The stages of one worker whose retry policy says `default`. -/
def stages (pf : Platform) (default : Int) (w : WorkerId) :
    Protocol Effect Effect.Reply Stage where
  may := fun st e => st.may default w e
  learns := fun st e r st' => st' = st.next pf e r

theorem stages_ignores {pf : Platform} {default : Int} {w : WorkerId} {e : Effect}
    (h : Aside e) (st : Stage) : (stages pf default w).Ignores st e :=
  ⟨st.may_of_aside default h, fun r l' hl => by rw [hl, st.next_of_aside pf h r]⟩

/-! ## `run_once` goes through the stages -/

namespace LocalWorker

variable (pf : Platform) (w : LocalWorker)

/-- The rest of a call keeps to the stages, and does not end between the count and the mark. -/
def Staged {α : Type} (p : Prog α) (st : Stage) : Prop :=
  p.wp (stages pf w.retryPolicy.maxAttempts w.workerId) (fun _ st => st.waits = false)
    (fun _ st => st.waits = false) st

variable {pf w} {α β : Type} {st : Stage} {a : Attempt}

theorem staged_of_aside (hst : st.waits = false) {p : Prog α} (h : p.Only Aside) :
    w.Staged pf p st :=
  wp_of_only h (fun _ he => stages_ignores he _) (fun _ => hst) fun _ => hst

theorem staged_aside_bind (hst : st.waits = false) {p : Prog α} {f : α → Prog β}
    (hp : p.Only Aside) (hf : ∀ a, w.Staged pf (f a) st) : w.Staged pf (p >>= f) st :=
  (wp_bind p f).mpr (wp_of_only hp (fun _ he => stages_ignores he _) hf fun _ => hst)

/-- One call, after which the stage is read off the reply. -/
theorem staged_call {op : StoreOp} {f : op.Reply → Prog β}
    (hm : st.may w.retryPolicy.maxAttempts w.workerId (.store op))
    (he : ∀ e, (st.next pf (.store op) (.error e)).waits = false)
    (hf : ∀ r, w.Staged pf (f r) (st.next pf (.store op) (.ok r))) :
    w.Staged pf (call op >>= f) st := by
  refine (wp_bind _ _).mpr (wp_call.mpr ⟨hm, fun r l' hl => ?_⟩)
  obtain rfl := hl
  cases r with
  | ok a => exact hf a
  | error e => exact he e

theorem staged_onTimeout {n : Nat} {payload : Dict} {exc : PyExc} {p : Dict} {oom : Bool} :
    w.Staged pf (w.onTimeout a payload exc) (.called a.task.taskId n p oom) := by
  apply staged_call
  · exact ⟨rfl, rfl, (by intro h; cases h), (by intro h; cases h)⟩
  · intro _
    rfl
  · intro _
    apply staged_of_aside rfl
    exact only_bind (aside_record _ _ _ _) fun _ =>
      only_bind (only_aside (routine_refreshRunStatus a.runId)) fun st =>
        only_aside (w.routine_notify _ a _ _ fun _ => only_throw _)

/-- The requeue of `_handle_oom` raises in the end, so nothing is left to show after it. -/
theorem staged_oomRequeue {n : Nat} {exc : PyExc} {prior : Nat} {p : Dict}
    {Q : Unit → Stage → Prop} :
    (w.oomRequeue a exc prior).wp (stages pf w.retryPolicy.maxAttempts w.workerId) Q
      (fun _ st => st.waits = false) (.called a.task.taskId n p true) := by
  refine (wp_bind _ _).mpr (wp_call.mpr ⟨⟨rfl, rfl, ?_, fun _ => .inl rfl⟩, fun r l' hl => ?_⟩)
  · intro h
    cases h
  obtain rfl := hl
  cases r with
  | error e => rfl
  | ok u =>
    refine (wp_bind _ _).mpr (wp_of_only (aside_record _ _ _ _)
      (fun _ he => stages_ignores he _) (fun _ => ?_) fun _ => rfl)
    refine (wp_bind _ _).mpr (wp_of_only (only_aside (routine_refreshRunStatus a.runId))
      (fun _ he => stages_ignores he _) (fun status => ?_) fun _ => rfl)
    exact (wp_bind _ _).mpr (wp_of_only (only_aside (w.routine_announceStatus a status))
      (fun _ he => stages_ignores he _) (fun _ => rfl) fun _ => rfl)

/-- The retry decision. -/
theorem staged_recordFailure {payload : Dict} {exc : PyExc} {oom : Bool} {m : Int}
    (hm : w.resolveMaxAttempts payload = .ok m) {f : Unit → Prog β}
    (hf : ∀ u, (f u).Only Aside) :
    w.Staged pf (w.recordFailure a exc m >>= f) (.called a.task.taskId a.count payload oom) := by
  have hwrites : ∀ (status : TaskStatus) (kind : String) (more : List (String × PyVal)),
      Stage.may w.retryPolicy.maxAttempts w.workerId (.called a.task.taskId a.count payload oom)
        (.store (.updateTaskStatus a.task.taskId status none (some exc.text))) →
      w.Staged pf ((do
        call (.updateTaskStatus a.task.taskId status none (some exc.text))
        w.recordAttempt a kind more : Prog Unit) >>= f)
        (.called a.task.taskId a.count payload oom) := by
    intro status kind more hmay
    rw [Staged, wp_bind, wp_bind]
    refine wp_call.mpr ⟨hmay, fun r l' hl => ?_⟩
    obtain rfl := hl
    cases r with
    | error e => rfl
    | ok u => exact (wp_bind _ _).mp (staged_of_aside rfl (only_bind (aside_record _ _ _ _) hf))
  unfold recordFailure
  split
  next hlt =>
    apply hwrites
    exact ⟨rfl, rfl, (by intro h; cases h), fun _ => .inr ⟨m, hm, hlt⟩⟩
  next hge =>
    apply hwrites
    exact ⟨rfl, rfl, fun _ => ⟨m, hm, by omega⟩, (by intro h; cases h)⟩

theorem staged_onException {payload : Dict} {exc : PyExc} :
    w.Staged pf (w.onException pf a payload exc)
      (.called a.task.taskId a.count payload (isOomError pf exc)) := by
  -- the part after the OOM check
  have hrest : w.Staged pf (do
      let maxAttempts ← Program.ofExcept (w.resolveMaxAttempts payload)
      w.recordFailure a exc maxAttempts
      let status ← refreshRunStatus a.runId
      let c ← w.hooks.fire (.afterTaskFailure { a.task with payload } exc)
      w.recordHookFired a .afterTaskFailure
      w.announceStatus a status
      w.backOff a c.payload
      throw exc : Prog TaskRecord)
      (.called a.task.taskId a.count payload (isOomError pf exc)) := by
    refine (wp_bind _ _).mpr ((wp_ofExcept _).mpr ?_)
    cases hm : w.resolveMaxAttempts payload with
    | error e => rfl
    | ok m =>
      apply staged_recordFailure hm
      intro _
      exact only_bind (only_aside (routine_refreshRunStatus a.runId)) fun st => only_aside
        (w.routine_notify _ a _ _ fun c => only_bind (w.routine_backOff a _) fun _ => only_throw _)
  refine (wp_bind _ _).mpr ?_
  unfold requeueOnOom
  split
  next hoom =>
    refine (wp_bind _ _).mpr (wp_of_only (aside_call trivial)
      (fun _ he => stages_ignores he _) (fun events => ?_) fun _ => rfl)
    dsimp only
    split
    · exact hrest
    · rw [hoom.2]
      exact staged_oomRequeue
  next => exact hrest

theorem staged_onReturn {payload p : Dict} {wall : PyFloat} {v : PyVal} {n : Nat} {oom : Bool} :
    w.Staged pf (w.onReturn pf a payload wall v) (.called a.task.taskId n p oom) := by
  refine staged_aside_bind rfl (only_ofExcept _) fun judged => ?_
  obtain ⟨result, outcome⟩ := judged
  dsimp only
  split
  · apply staged_call
    · exact ⟨rfl, rfl, (by intro h; cases h), (by intro h; cases h)⟩
    · intro _
      rfl
    · intro _
      apply staged_of_aside rfl
      exact only_bind (only_aside (w.routine_keepArtifact a _)) fun _ =>
        only_bind (aside_record _ _ _ _) fun _ =>
        only_bind (only_aside (routine_refreshRunStatus a.runId)) fun st =>
          only_aside (w.routine_notify _ a _ _ fun _ => only_throw _)
  · refine staged_aside_bind rfl (only_aside (@routine_fire a.runId _ _)) fun c =>
      staged_aside_bind rfl (aside_record _ _ _ _) fun _ => ?_
    apply staged_call
    · exact ⟨rfl, rfl, (by intro h; cases h), (by intro h; cases h)⟩
    · intro _
      rfl
    · intro _
      apply staged_of_aside rfl
      exact only_bind (only_aside (w.routine_keepArtifact a _)) fun _ =>
        only_bind (aside_record _ _ _ _) fun _ =>
        only_bind (only_aside (routine_refreshRunStatus a.runId)) fun st =>
        only_bind (only_aside (w.routine_announceStatus a _)) fun _ => only_pure _

/-- A deadline makes no error of the handler an out-of-memory error, or a `TimeoutError`. -/
theorem withinDeadline_error {seconds : Int} {outcome : Option (Except PyExc PyVal)} {exc : PyExc}
    (h : withinDeadline seconds outcome = .error exc)
    (ht : exc.isInstance "TimeoutError" = false) : outcome = some (.error exc) := by
  have hpassed : (deadlinePassed seconds).isInstance "TimeoutError" = true := by
    simp [deadlinePassed, PyExc.timeoutError, PyExc.isInstance]
  unfold withinDeadline at h
  split at h
  next =>
    rw [← Except.error.inj h, hpassed] at ht
    cases ht
  next e =>
    split at h
    · rw [← Except.error.inj h, hpassed] at ht
      cases ht
    · rw [Except.error.inj h]
  next => cases h

/-- The end of the handler call, whatever has been raised. -/
theorem staged_finish (run : HandlerRun (Except PyExc PyVal)) {oom : Bool}
    (hoom : ∀ exc, run.outcome = .error exc → exc.isInstance "TimeoutError" = false →
      oom = isOomError pf exc) :
    w.Staged pf (w.finish pf a run) (.called a.task.taskId a.count run.payload oom) := by
  unfold finish
  split
  next exc hexc =>
    split
    · exact staged_onTimeout
    next ht =>
      rw [hoom exc hexc (Bool.eq_false_iff.mpr ht)]
      exact staged_onException
  next => exact staged_onReturn

/-- The handler call and what follows it. -/
theorem staged_execute {task : TaskRecord} (ht : task.taskId = a.task.taskId)
    (timeout : Option Int) :
    w.Staged pf (do
      let run ← execute task timeout
      w.finish pf a run) (.marked a.task.taskId a.count) := by
  refine (wp_bind _ _).mpr ?_
  cases timeout with
  | none =>
    refine ⟨fun task' h => ?_, fun run l' hl => ?_⟩
    · rw [← Option.some.inj h]
      exact ht
    · obtain rfl := hl
      apply staged_finish
      intro exc hexc _
      simp only [Ext.raised, hexc, Option.any_some]
  | some seconds =>
    refine (wp_bind _ _).mpr ⟨fun task' h => ?_, fun run l' hl => ?_⟩
    · rw [← Option.some.inj h]
      exact ht
    · obtain rfl := hl
      apply staged_finish
      intro exc hexc hnot
      simp only [Ext.raised, withinDeadline_error hexc hnot, Option.any_some]

theorem staged_attempt (seed : Option Int) (runId : RunId) (task : TaskRecord) :
    w.Staged pf (w.attempt pf seed runId task) (.leased task.taskId) := by
  rw [Staged, attempt, wp_bind, beginAttempt]
  refine (wp_bind _ _).mpr (wp_call.mpr ⟨rfl, fun r l' hl => ?_⟩)
  obtain rfl := hl
  cases r with
  | error e => rfl
  | ok n =>
    refine (wp_bind _ _).mpr (wp_call.mpr ⟨rfl, fun r l' hl => ?_⟩)
    obtain rfl := hl
    cases r with
    | error e => rfl
    | ok u =>
      refine (wp_bind _ _).mpr (wp_of_only (aside_record _ _ _ _)
        (fun _ he => stages_ignores he _) (fun _ => ?_) fun _ => rfl)
      refine (wp_bind _ _).mpr (wp_of_only (only_aside (routine_refreshRunStatus runId))
        (fun _ he => stages_ignores he _) (fun _ => ?_) fun _ => rfl)
      refine staged_aside_bind rfl (only_aside (w.routine_prepare pf seed ⟨runId, task, n⟩))
        fun prepared => ?_
      exact @staged_execute pf w ⟨runId, task, n⟩ { task with payload := prepared.1 } rfl prepared.2

/-- **`run_once` goes through the stages in order**, whatever it is answered, and never ends
between its count and its mark. -/
theorem staged_runOnce (mem : RunMemory) (runId : RunId) :
    w.Staged pf (w.runOnce pf mem runId) .free := by
  refine staged_aside_bind rfl (only_aside (w.routine_startRun mem runId)) fun mem' => ?_
  refine (wp_bind _ _).mpr ((wp_attempt _).mpr ?_)
  refine (wp_bind _ _).mpr (wp_call.mpr ⟨rfl, fun r l' hl => ?_⟩)
  obtain rfl := hl
  cases r with
  | error e => rfl
  | ok found =>
    cases found with
    | none => rfl
    | some task =>
      exact (wp_bind _ _).mpr (wp_mono (staged_attempt _ runId task) (fun _ _ h => h)
        fun _ _ h => h)

end LocalWorker
end FineTuneHarness
