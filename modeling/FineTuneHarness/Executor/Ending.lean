import FineTuneHarness.Safety.Accounting

/-!
# The row an attempt ends in

With one worker on the store, the end of the handler call decides the row of the leased task,
and no other task changes. `endRow` says which row it is; an exception inside `run_once` leaves
the row it has been marked with.
-/
namespace FineTuneHarness

open Library Library.Program

namespace LocalWorker

variable (pf : Platform) (w : LocalWorker) (ext : (x : Ext) → x.Reply) (s : StateStore)

instance (runId : RunId) (task : TaskRecord) (exc : PyExc) :
    Decidable (w.RequeuesOom pf s runId task exc) := by
  unfold RequeuesOom
  infer_instance

/-- The row of a result: unchanged where the store cannot keep it. -/
def keptRow (row : TaskRecord) (status : TaskStatus) (result : Dict) (error : Option String) :
    TaskRecord :=
  match s.keep (some result) with
  | .error _ => row
  | .ok r => row.settle status r error

/-- The row of an exception that is no deadline. -/
def failedRow (a : Attempt) (row : TaskRecord) (payload : Dict) (exc : PyExc) : TaskRecord :=
  if w.RequeuesOom pf s a.runId a.task exc then row.settle .pending none (some exc.text)
  else
    match w.resolveMaxAttempts payload with
    | .error _ => row
    | .ok m => row.settle (if (a.count : Int) < m then .pending else .failed) none (some exc.text)

/-- The row of a returned value. -/
def returnedRow (a : Attempt) (row : TaskRecord) (run : HandlerRun (Except PyExc PyVal))
    (v : PyVal) : TaskRecord :=
  match judge pf run.payload run.wallSeconds v with
  | .error _ => row
  | .ok (result, outcome) =>
    if outcome.status.rejected then
      keptRow s row .degenerate result
        (some s!"{outcome.status.value}: {pf.repr (.list (outcome.validationErrors.map .str))}")
    else
      keptRow s row .succeeded
        (w.hooks.applied ext (.afterTaskSuccess { a.task with payload := run.payload } result)).result
        none

/-- The row of a task whose handler call has ended. -/
def endRow (a : Attempt) (row : TaskRecord) (run : HandlerRun (Except PyExc PyVal)) : TaskRecord :=
  match run.outcome with
  | .error exc =>
    if exc.isInstance "TimeoutError" then row.settle .timedOut none (some exc.text)
    else w.failedRow pf s a row run.payload exc
  | .ok v => w.returnedRow pf ext s a row run v

/-- What the handler is called with, if `run_once` gets that far with a leased task: the task as
the hooks leave it, and the deadline. -/
def handlerCall (runId : RunId) (mem : RunMemory) (task : TaskRecord) :
    Option (TaskRecord × Option Int) :=
  if (s.run? runId).any (fun r => r.status.canReach (begunStatus (s.tasksOf runId))) &&
      (seedFor s runId mem).all (fun seed => (applySeed pf seed).isOk) then
    match w.resolveTimeout (w.hooks.applied ext (.beforeTask task)).payload with
    | .error _ => none
    | .ok timeout =>
      some ({ task with payload := (w.hooks.applied ext (.beforeTask task)).payload }, timeout)
  else none

/-- The row a leased task is left in. -/
def attemptRow (runId : RunId) (mem : RunMemory) (t : TaskRecord) (expiry : Instant) :
    TaskRecord :=
  match w.handlerCall pf ext s runId mem (t.leaseTo w.workerId expiry) with
  | none => markedRow t w.workerId expiry
  | some (task, timeout) =>
    w.endRow pf ext s ⟨runId, t.leaseTo w.workerId expiry, t.attemptCount + 1⟩
      (markedRow t w.workerId expiry) (executed ext task timeout)

end LocalWorker

/-- One row of the task table has become `row`. -/
def RowIs (s s' : StateStore) (id : TaskId) (row : TaskRecord) : Prop :=
  ∀ id', s'.task? id' = if id' = id then some row else s.task? id'

/-- The program leaves the task in this row, however it ends. -/
def Leaves {α : Type} (ans : Answers) (s : StateStore) (id : TaskId) (row : TaskRecord)
    (p : Prog α) (l : Ledger) : Prop :=
  p.wp (alone (.exactly ans)) (fun _ l' => RowIs s l'.store id row)
    (fun _ l' => RowIs s l'.store id row) l

/-- The task has been marked, and nothing its settlement depends on has changed since. -/
structure Working (s s' : StateStore) (a : Attempt) (row : TaskRecord) : Prop where
  inHand : InHand s s' a.runId a.task.taskId
  table : RowIs s s' a.task.taskId row

/-- The request leaves the task table alone. -/
def Untasked (e : Effect) : Prop :=
  ∀ a s, (e.perform a s).2.tables.tasks = s.tables.tasks

theorem only_untasked {α : Type} {p : Prog α} (h : p.Only Quiet) : p.Only Untasked :=
  h.mono fun _ he => he.perform_tasks

theorem untasked_record {runId : RunId} {taskId : Option TaskId} {kind : String}
    {payload : List (String × PyVal)} : (record runId taskId kind payload).Only Untasked := by
  refine ⟨fun a s => ?_, fun r _ _ => by cases r <;> trivial⟩
  rw [Effect.perform, s.exec_appendEvent]
  split <;> rfl

section Blocks

variable {α β : Type} {ans : Answers} {s s' s'' : StateStore} {id : TaskId} {cs : List TaskId}
  {row : TaskRecord} {a : Attempt} {st : TaskStatus} {err : Option String}

theorem RowIs.quiet (h : RowIs s s' id row) (ht : s''.tables.tasks = s'.tables.tasks) :
    RowIs s s'' id row := by
  intro id'
  rw [StateStore.task?, ht, ← StateStore.task?]
  exact h id'

/-- What follows touches no task. -/
theorem RowIs.rest (h : RowIs s s' id row) {p : Prog α} (hp : p.Only Untasked) :
    Leaves ans s id row p ⟨s', cs⟩ := by
  refine wp_keep_of_only (I := fun l : Ledger => RowIs s l.store id row) hp
    (fun l e hI hq => ?_) h
  refine ⟨alone_may (fun h => False.elim h) l e, fun r l' hl => ?_⟩
  cases e with
  | ext x => obtain ⟨-, rfl⟩ := hl; exact hI
  | store op =>
    obtain ⟨-, clk, -, hx⟩ := hl
    have htasks := hq { Answers.steady 0 (.ok .none) with clock := clk } l.store
    rw [Effect.perform, hx] at htasks
    exact hI.quiet htasks

theorem RowIs.settle (h : RowIs s s' id row) {r : Option Dict} :
    RowIs s (s'.modifyTask id (·.settle st r err) (·.settle_taskId _ _ _)) id
      (row.settle st r err) := by
  intro id'
  rw [StateStore.modifyTask_task?, h id]
  split
  next hid => rw [if_pos rfl]; rfl
  next hid => rw [h id', if_neg hid]

/-- Whatever the block does to the task, what follows does nothing. -/
theorem Leaves.then {p : Prog α} {f : α → Prog β} {l : Ledger} (h : Leaves ans s id row p l)
    (hf : ∀ x, (f x).Only Untasked) : Leaves ans s id row (p >>= f) l :=
  (wp_bind _ _).mpr (wp_mono h (fun x _ hx => RowIs.rest hx (hf x)) fun _ _ h => h)

variable {pf : Platform} {w : LocalWorker}

theorem Working.addEvent (h : Working s s' a row) {e : EventRecord}
    (he : Silent a.task.taskId e) : Working s (s'.addEvents [e]) a row :=
  ⟨h.inHand.addEvent he, h.table⟩

/-- The event of a hook point is on record, and the task still in hand. -/
theorem Working.hookFired {ok : Admits} (h : Working s s' a row) (p : HookPoint)
    {Q : Unit → Ledger → Prop} {E : PyExc → Ledger → Prop}
    (hq : ∀ s'', Working s s'' a row → Q () ⟨s'', cs⟩) :
    (w.recordHookFired a p).wp (alone ok) Q E ⟨s', cs⟩ := by
  refine w.alone_hookFired h.inHand.run h.inHand.task fun e hkind => hq _ (h.addEvent ?_)
  exact LocalWorker.silent_of_kind hkind fun st => by cases st <;> decide

/-- The settling update and what follows it. -/
theorem Working.update (h : Working s s' a row) (hst : st ∈ allowedTaskTransitions .running)
    (r : Option Dict) {f : Unit → Prog β} (hf : ∀ u, (f u).Only Untasked) :
    match s.keep r with
    | .error _ => Leaves ans s a.task.taskId row
        (call (.updateTaskStatus a.task.taskId st r err) >>= f) ⟨s', cs⟩
    | .ok r' => Leaves ans s a.task.taskId (row.settle st r' err)
        (call (.updateTaskStatus a.task.taskId st r err) >>= f) ⟨s', cs⟩ := by
  have hrow : s'.task? a.task.taskId = some row := by rw [h.table, if_pos rfl]
  have hrun : row.status = .running := by
    have hstatus := h.inHand.status
    rw [StateStore.statusOf_eq hrow] at hstatus
    exact Option.some.inj hstatus
  have hedge : ensureTaskTransition row.status st = .ok () := by
    rw [hrun, ensureTaskTransition, if_pos hst]
  cases hk : s.keep r with
  | error x =>
    refine (wp_bind _ _).mpr (alone_call fun clk _ => ?_)
    rw [s'.exec_updateTaskStatus, hrow]
    simp only [hedge, h.inHand.keep, hk]
    exact h.table
  | ok r' =>
    refine (wp_bind _ _).mpr (alone_call fun clk _ => ?_)
    rw [s'.exec_updateTaskStatus, hrow]
    simp only [hedge, h.inHand.keep, hk]
    exact h.table.settle.rest (hf ())

/-- An update without a result is kept. -/
theorem Working.fail (h : Working s s' a row) (hst : st ∈ allowedTaskTransitions .running)
    {f : Unit → Prog β} (hf : ∀ u, (f u).Only Untasked) :
    Leaves ans s a.task.taskId (row.settle st none err)
      (call (.updateTaskStatus a.task.taskId st none err) >>= f) ⟨s', cs⟩ := by
  have hkeep : s.keep none = .ok none := by
    unfold StateStore.keep
    cases s.backend <;> rfl
  have hupdate := @Working.update _ ans s s' cs row a st err h hst none _ hf
  rw [hkeep] at hupdate
  exact hupdate

/-- A result is kept or leaves the row as it is. -/
theorem Working.keep (h : Working s s' a row) (hst : st ∈ allowedTaskTransitions .running)
    (result : Dict) {f : Unit → Prog β} (hf : ∀ u, (f u).Only Untasked) :
    Leaves ans s a.task.taskId (LocalWorker.keptRow s row st result err)
      (call (.updateTaskStatus a.task.taskId st (some result) err) >>= f) ⟨s', cs⟩ := by
  have hupdate := @Working.update _ ans s s' cs row a st err h hst (some result) _ hf
  unfold LocalWorker.keptRow
  cases hk : s.keep (some result) with
  | error x => rw [hk] at hupdate; exact hupdate
  | ok r => rw [hk] at hupdate; exact hupdate

theorem Working.recordFailure (h : Working s s' a row) (exc : PyExc) (m : Int)
    {f : Unit → Prog β} (hf : ∀ u, (f u).Only Untasked) :
    Leaves ans s a.task.taskId
      (row.settle (if (a.count : Int) < m then .pending else .failed) none (some exc.text))
      (w.recordFailure a exc m >>= f) ⟨s', cs⟩ := by
  unfold LocalWorker.recordFailure
  split
  · refine (h.fail (by decide) fun _ => ?_).then hf
    exact untasked_record
  · refine (h.fail (by decide) fun _ => ?_).then hf
    exact untasked_record

theorem Working.onTimeout (h : Working s s' a row) (payload : Dict) (exc : PyExc) :
    Leaves ans s a.task.taskId (row.settle .timedOut none (some exc.text))
      (w.onTimeout a payload exc) ⟨s', cs⟩ := by
  refine h.fail (by decide) fun _ => only_bind untasked_record fun _ => only_untasked ?_
  exact only_bind (only_refreshRunStatus _) fun st =>
    only_quiet (w.still_notify _ _ _ _ fun _ => only_throw _)

theorem Working.onException (h : Working s s' a row) (payload : Dict) (exc : PyExc) :
    Leaves ans s a.task.taskId (w.failedRow pf s a row payload exc)
      (w.onException pf a payload exc) ⟨s', cs⟩ := by
  have hrest : ∀ row', (∀ (hno : ¬ w.RequeuesOom pf s a.runId a.task exc),
      row' = w.failedRow pf s a row payload exc) → ¬ w.RequeuesOom pf s a.runId a.task exc →
      Leaves ans s a.task.taskId row' (do
        let maxAttempts ← Program.ofExcept (w.resolveMaxAttempts payload)
        w.recordFailure a exc maxAttempts
        let status ← refreshRunStatus a.runId
        let c ← w.hooks.fire (.afterTaskFailure { a.task with payload } exc)
        w.recordHookFired a .afterTaskFailure
        w.announceStatus a status
        w.backOff a c.payload
        throw exc : Prog TaskRecord) ⟨s', cs⟩ := by
    intro row' heq hno
    rw [heq hno, LocalWorker.failedRow, if_neg hno]
    refine (wp_bind _ _).mpr ?_
    rw [wp_ofExcept]
    cases w.resolveMaxAttempts payload with
    | error e => exact h.table
    | ok m =>
      refine h.recordFailure exc m fun _ => only_untasked ?_
      exact only_bind (only_refreshRunStatus _) fun st => only_quiet
        (w.still_notify _ _ _ _ fun c => only_bind (w.still_backOff _ _) fun _ => only_throw _)
  refine (wp_bind _ _).mpr ?_
  unfold LocalWorker.requeueOnOom
  split
  next hoom =>
    refine (wp_bind _ _).mpr (alone_listEvents ?_)
    rw [h.inHand.oomRequeues]
    dsimp only
    split
    next hge =>
      have hno : ¬ w.RequeuesOom pf s a.runId a.task exc := fun hr => absurd hr.2 (by omega)
      exact hrest _ (fun _ => rfl) hno
    next hlt =>
      -- the requeue raises, so the rest of `run_once` does not run
      have hyes : w.RequeuesOom pf s a.runId a.task exc := ⟨hoom, by omega⟩
      have hmay : ∀ (l : Ledger) (e : Effect), (alone (.exactly ans)).may l e :=
        alone_may id
      have hdone : Leaves ans s a.task.taskId (w.failedRow pf s a row payload exc)
          (w.oomRequeue a exc (LocalWorker.oomRequeues a.task.taskId (s.eventsOf a.runId)))
          ⟨s', cs⟩ := by
        rw [LocalWorker.failedRow, if_pos hyes]
        refine h.fail (by decide) fun _ => only_bind untasked_record fun _ => only_untasked ?_
        exact only_bind (only_refreshRunStatus _) fun st =>
          only_quiet (only_bind (w.still_announceStatus _ _) fun _ => only_throw _)
      have hraises : (w.oomRequeue a exc
          (LocalWorker.oomRequeues a.task.taskId (s.eventsOf a.runId))).wp
          (alone (.exactly ans)) (fun _ _ => False) (fun _ _ => True) ⟨s', cs⟩ :=
        wp_raises hmay fun _ _ => wp_raises hmay fun _ _ => wp_raises hmay fun _ _ =>
          wp_raises hmay fun _ _ => trivial
      exact wp_mono (wp_and hdone hraises) (fun _ _ hx => hx.2.elim) fun _ _ hx => hx.1
  next hoom =>
    exact hrest _ (fun _ => rfl) fun hr => hoom hr.1

theorem Working.onReturn (h : Working s s' a row) (run : HandlerRun (Except PyExc PyVal))
    (v : PyVal) :
    Leaves ans s a.task.taskId (w.returnedRow pf ans.ext s a row run v)
      (w.onReturn pf a run.payload run.wallSeconds v) ⟨s', cs⟩ := by
  refine (wp_bind _ _).mpr ?_
  rw [wp_ofExcept]
  unfold LocalWorker.returnedRow
  cases LocalWorker.judge pf run.payload run.wallSeconds v with
  | error e => exact h.table
  | ok judged =>
    obtain ⟨result, outcome⟩ := judged
    dsimp only
    split
    · refine h.keep (by decide) result fun _ =>
        only_bind (only_untasked (w.only_keepArtifact _ _)) fun _ => only_bind untasked_record
          fun _ => only_untasked ?_
      exact only_bind (only_refreshRunStatus _) fun st =>
        only_quiet (w.still_notify _ _ _ _ fun _ => only_throw _)
    · refine (wp_bind _ _).mpr (alone_fire_applied ((wp_bind _ _).mpr
        (h.hookFired _ fun s'' hs'' => ?_)))
      refine hs''.keep (by decide) _ fun _ =>
        only_bind (only_untasked (w.only_keepArtifact _ _)) fun _ => only_bind untasked_record
          fun _ => only_untasked ?_
      exact only_bind (only_refreshRunStatus _) fun st =>
        only_quiet (only_bind (w.still_announceStatus _ _) fun _ => only_pure _)

/-- **The end of the handler call decides the row.** -/
theorem Working.finish (h : Working s s' a row) (run : HandlerRun (Except PyExc PyVal)) :
    Leaves ans s a.task.taskId (w.endRow pf ans.ext s a row run) (w.finish pf a run) ⟨s', cs⟩ := by
  unfold LocalWorker.finish LocalWorker.endRow
  cases run.outcome with
  | error exc =>
    dsimp only
    split
    · exact h.onTimeout run.payload exc
    · exact h.onException run.payload exc
  | ok v => exact h.onReturn run v

/-- From the seed to the end of the handler call. -/
theorem Working.prepared (h : Working s s' a row) (seed : Option Int) :
    Leaves ans s a.task.taskId
      (if seed.all (fun i => (applySeed pf i).isOk) then
        match w.resolveTimeout (w.hooks.applied ans.ext (.beforeTask a.task)).payload with
        | .error _ => row
        | .ok timeout => w.endRow pf ans.ext s a row (LocalWorker.executed ans.ext
            { a.task with payload := (w.hooks.applied ans.ext (.beforeTask a.task)).payload }
            timeout)
      else row)
      (do
        let (payload, timeout) ← w.prepare pf seed a
        let run ← LocalWorker.execute { a.task with payload } timeout
        w.finish pf a run) ⟨s', cs⟩ := by
  have hall : (∀ i, seed = some i → (applySeed pf i).isOk = true) ↔
      seed.all (fun i => (applySeed pf i).isOk) = true := by
    cases seed <;> simp
  refine (wp_bind _ _).mpr ((wp_bind _ _).mpr (LocalWorker.alone_seedAttempt pf (fun hs => ?_)
    fun hs e => ?_))
  swap
  · rw [if_neg fun hx => hs (hall.mpr hx)]
    exact h.table
  rw [if_pos (hall.mp hs)]
  refine (wp_bind _ _).mpr (alone_fire_applied ((wp_bind _ _).mpr
    (h.hookFired _ fun s'' hs'' => (wp_bind _ _).mpr ?_)))
  rw [wp_ofExcept]
  cases w.resolveTimeout (w.hooks.applied ans.ext (.beforeTask a.task)).payload with
  | error e => exact hs''.table
  | ok timeout =>
    refine (wp_bind _ _).mpr ?_
    cases timeout with
    | none =>
      refine alone_ask.mpr fun run hrun => ?_
      obtain rfl : run = _ := hrun
      exact hs''.finish _
    | some seconds =>
      refine (wp_bind _ _).mpr (alone_ask.mpr fun run hrun => ?_)
      obtain rfl : run = _ := hrun
      exact hs''.finish _

end Blocks

/-! ## From the lease on -/

section Lease

variable {pf : Platform} {w : LocalWorker} {ans : Answers} {s s' : StateStore} {cs : List TaskId}
  {runId : RunId} {t : TaskRecord} {expiry : Instant}

theorem marked_rowIs (ht : s.task? t.taskId = some t) (w : WorkerId) (expiry : Instant) :
    RowIs s (LocalWorker.marked s t w expiry) t.taskId (LocalWorker.markedRow t w expiry) := by
  intro id
  split
  next hid => rw [hid, LocalWorker.marked_task? ht]
  next hid => exact LocalWorker.marked_other hid w expiry

/-- Where the run can be refreshed, the attempt begins; elsewhere it raises. -/
theorem leaves_beginAttempt (ht : s.task? t.taskId = some t) (hrun : t.runId = runId)
    (hst : t.status = .pending ∨ t.status = .leased) {row : TaskRecord}
    {f : Attempt → Prog TaskRecord}
    (hf : ∀ s', Working s s' ⟨runId, t.leaseTo w.workerId expiry, t.attemptCount + 1⟩
      (LocalWorker.markedRow t w.workerId expiry) → Leaves ans s t.taskId row
        (f ⟨runId, t.leaseTo w.workerId expiry, t.attemptCount + 1⟩) ⟨s', cs⟩) :
    Leaves ans s t.taskId
      (if (s.run? runId).any (fun r => r.status.canReach (begunStatus (s.tasksOf runId))) then row
        else LocalWorker.markedRow t w.workerId expiry)
      (w.beginAttempt runId (t.leaseTo w.workerId expiry) >>= f)
      ⟨(s.modifyTask t.taskId (·.leaseTo w.workerId expiry) (·.leaseTo_taskId _ _)).addEvents
        (StateStore.takeover t w.workerId), cs⟩ := by
  have hmarked := marked_rowIs ht w.workerId expiry
  have hrest : ∀ es, RowIs s ((LocalWorker.marked s t w.workerId expiry).addEvents es) t.taskId
      (LocalWorker.markedRow t w.workerId expiry) := fun es => hmarked.quiet rfl
  refine (wp_bind _ _).mpr ?_
  cases hr : s.run? runId with
  | none =>
    rw [Option.any_none, if_neg Bool.false_ne_true]
    exact w.alone_beginAttempt_unknown ht id hr (fun _ => hmarked) fun e _ _ => hrest [e]
  | some r =>
    have hin := LocalWorker.marked_inHand ht (by rw [hr]; exact Option.some_ne_none r)
      w.workerId expiry
    rw [Option.any_some]
    cases hreach : r.status.canReach (begunStatus (s.tasksOf runId)) with
    | true =>
      rw [if_pos rfl]
      refine w.alone_beginAttempt_reached ht hrun hst hr hreach fun e s' he ho _ => ?_
      have hin' := (hin.addEvent (LocalWorker.marked_event he t.taskId)).onRun ho
      exact hf s' ⟨hin', (hrest [e]).quiet ho.tasks⟩
    | false =>
      rw [if_neg Bool.false_ne_true]
      exact w.alone_beginAttempt_stuck ht hrun hst id hr hreach fun e _ _ => hrest [e]

theorem attemptRow_eq (ext : (x : Ext) → x.Reply) (mem : RunMemory) :
    w.attemptRow pf ext s runId mem t expiry =
      if (s.run? runId).any (fun r => r.status.canReach (begunStatus (s.tasksOf runId))) then
        if (LocalWorker.seedFor s runId mem).all (fun i => (applySeed pf i).isOk) then
          match w.resolveTimeout
              (w.hooks.applied ext (.beforeTask (t.leaseTo w.workerId expiry))).payload with
          | .error _ => LocalWorker.markedRow t w.workerId expiry
          | .ok timeout =>
            w.endRow pf ext s ⟨runId, t.leaseTo w.workerId expiry, t.attemptCount + 1⟩
              (LocalWorker.markedRow t w.workerId expiry)
              (LocalWorker.executed ext { t.leaseTo w.workerId expiry with
                payload := (w.hooks.applied ext (.beforeTask (t.leaseTo w.workerId expiry))).payload }
                timeout)
        else LocalWorker.markedRow t w.workerId expiry
      else LocalWorker.markedRow t w.workerId expiry := by
  unfold LocalWorker.attemptRow LocalWorker.handlerCall
  by_cases hreach : (s.run? runId).any
      (fun r => r.status.canReach (begunStatus (s.tasksOf runId))) = true
  · by_cases hseed : (LocalWorker.seedFor s runId mem).all (fun i => (applySeed pf i).isOk) = true
    · rw [hreach, hseed]
      cases w.resolveTimeout
        (w.hooks.applied ext (.beforeTask (t.leaseTo w.workerId expiry))).payload <;> rfl
    · rw [hreach, Bool.eq_false_iff.mpr hseed]
      rfl
  · rw [Bool.eq_false_iff.mpr hreach]
    rfl

theorem leaves_leaseAndRun {mem : RunMemory} (ht : s.nextLeaseable runId ans.clock.now = some t) :
    Leaves ans s t.taskId
      (w.attemptRow pf ans.ext s runId mem t (leaseUntil ans.clock.later LocalWorker.leaseSeconds))
      (w.leaseAndRun pf (LocalWorker.seedFor s runId mem) runId) ⟨s, cs⟩ := by
  obtain ⟨hrow, hrun, hfree⟩ := s.nextLeaseable_some ht
  rw [attemptRow_eq]
  refine (wp_bind _ _).mpr (alone_call fun clk hclk => ?_)
  obtain rfl : clk = ans.clock := hclk
  rw [s.exec_leaseNextPendingTask, ht]
  refine (wp_bind _ _).mpr ?_
  exact leaves_beginAttempt hrow hrun (StateStore.leaseable_status hfree) fun s' hs' =>
    hs'.prepared (LocalWorker.seedFor s runId mem)

/-- **The row `run_once` leaves its task in**, and no other task changes. -/
theorem leaves_runOnce (mem : RunMemory) (ht : s.nextLeaseable runId ans.clock.now = some t) :
    Leaves ans s t.taskId
      (w.attemptRow pf ans.ext s runId mem t (leaseUntil ans.clock.later LocalWorker.leaseSeconds))
      (w.runOnce pf mem runId) ⟨s, cs⟩ := by
  refine (wp_bind _ _).mpr (w.alone_startRun (fun h => h.elim) fun mem' _ hseed => ?_)
  rw [hseed]
  exact (wp_bind _ _).mpr ((wp_attempt _).mpr (leaves_leaseAndRun ht))

theorem runOnce_row (pf : Platform) (w : LocalWorker) (mem : RunMemory)
    (ht : s.nextLeaseable runId ans.clock.now = some t) :
    RowIs s (atomically (w.runOnce pf mem runId) ans s).2 t.taskId
      (w.attemptRow pf ans.ext s runId mem t
        (leaseUntil ans.clock.later LocalWorker.leaseSeconds)) := by
  have hrun := atomically_of_wp (@leaves_runOnce pf w ans s [] runId t mem ht)
    (Admits.exactly_meets ans)
  generalize atomically (w.runOnce pf mem runId) ans s = out at hrun ⊢
  obtain ⟨r, s'⟩ := out
  cases r with
  | ok _ => obtain ⟨_, h⟩ := hrun; exact h
  | error _ => obtain ⟨_, h⟩ := hrun; exact h

end Lease
end FineTuneHarness
