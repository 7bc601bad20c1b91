import FineTuneHarness.Executor.Appends
import FineTuneHarness.Executor.Ending

/-!
# What an attempt writes into the log

The lifecycle events of a task are its history. With one worker on the store, an attempt adds
the event of its mark and at most one closing event, both under the attempt's number, and no
lifecycle event of another task.
-/
namespace FineTuneHarness

open Library Library.Program

/-- The events that open and close an attempt. -/
def attemptKinds : List String :=
  ["task_running", "task_succeeded", "task_failed", "task_retry_scheduled", "task_timed_out",
    "task_degenerate", oomRequeuedKind]

/-- The events that tell the history of a task. -/
def lifecycleKinds : List String := "task_created" :: attemptKinds

/-- The kind of a lifecycle event, and the attempt it names. -/
abbrev LifeEvent := String × Option PyVal

/-- The lifecycle event of a task; `task_created` carries the payload of the task and names no
attempt. -/
def lifeEvent (t : TaskId) (e : EventRecord) : Option LifeEvent :=
  if e.taskId = some t ∧ e.kind ∈ lifecycleKinds then
    some (e.kind, if e.kind = "task_created" then none else e.payload.get? "attempt")
  else none

/-- The history of a task, in the order of the log. -/
def StateStore.lifeEvents (s : StateStore) (runId : RunId) (t : TaskId) : List LifeEvent :=
  (s.eventsOf runId).filterMap (lifeEvent t)

/-- The log has grown by these lifecycle events of this task, and by none of any other task. -/
def LogIs (s s' : StateStore) (runId : RunId) (t : TaskId) (log : List LifeEvent) : Prop :=
  ∀ id, s'.lifeEvents runId id = s.lifeEvents runId id ++ if id = t then log else []

section Log

variable {s s' s'' : StateStore} {runId : RunId} {t : TaskId} {log : List LifeEvent}

theorem lifeEvents_append {es : List EventRecord} (h : s'.events = s.events ++ es)
    (runId : RunId) (t : TaskId) :
    s'.lifeEvents runId t =
      s.lifeEvents runId t ++ (es.filter fun e => e.runId = runId).filterMap (lifeEvent t) := by
  unfold StateStore.lifeEvents StateStore.eventsOf
  rw [h, List.filter_append, List.filterMap_append]

theorem LogIs.refl (s : StateStore) (runId : RunId) (t : TaskId) : LogIs s s runId t [] := by
  intro id
  rw [ite_self, List.append_nil]

/-- Events of other kinds, and events of no task, are no part of the history. -/
theorem lifeEvent_none {e : EventRecord} (h : e.kind ∉ lifecycleKinds ∨ e.taskId = none)
    (id : TaskId) : lifeEvent id e = none := by
  refine if_neg fun hx => ?_
  rcases h with hk | ht
  · exact hk hx.2
  · have hsome := hx.1
    rw [ht] at hsome
    cases hsome

theorem LogIs.quiet (h : LogIs s s' runId t log) {es : List EventRecord}
    (hev : s''.events = s'.events ++ es)
    (hes : ∀ e ∈ es, e.kind ∉ lifecycleKinds ∨ e.taskId = none) : LogIs s s'' runId t log := by
  intro id
  have hnil : (es.filter fun e => e.runId = runId).filterMap (lifeEvent id) = [] := by
    rw [List.filterMap_eq_nil_iff]
    intro e he
    exact lifeEvent_none (hes e (List.mem_of_mem_filter he)) id
  rw [lifeEvents_append hev, hnil, List.append_nil]
  exact h id

theorem LogIs.same (h : LogIs s s' runId t log) (hev : s''.events = s'.events) :
    LogIs s s'' runId t log :=
  h.quiet (hev.trans (List.append_nil _).symm) (by simp)

theorem lifeEvent_attempt {e : EventRecord} {attempt : Option PyVal} (ht : e.taskId = some t)
    (hk : e.kind ∈ attemptKinds) (ha : e.payload.get? "attempt" = attempt) :
    lifeEvent t e = some (e.kind, attempt) := by
  have hne : e.kind ≠ "task_created" := by
    intro he
    rw [he] at hk
    exact absurd hk (by decide)
  rw [lifeEvent, if_pos ⟨ht, List.mem_cons_of_mem _ hk⟩, if_neg hne, ha]

/-- An event of the task itself is. -/
theorem LogIs.report (h : LogIs s s' runId t log) {e : EventRecord} {ev : LifeEvent}
    (hrun : e.runId = runId) (ht : e.taskId = some t) (he : lifeEvent t e = some ev) :
    LogIs s (s'.addEvents [e]) runId t (log ++ [ev]) := by
  intro id
  rw [lifeEvents_append (s'.addEvents_events [e]), h id,
    List.append_assoc, List.filter_cons_of_pos (by simpa using hrun), List.filter_nil]
  by_cases hid : id = t
  · subst hid
    rw [if_pos rfl, if_pos rfl, List.filterMap_cons_some he]
    rfl
  · have hlife : lifeEvent id e = none := by
      refine if_neg fun hx => hid ?_
      exact Option.some.inj (hx.1.symm.trans ht)
    rw [if_neg hid, if_neg hid, List.filterMap_cons_none hlife]
    rfl

end Log

/-! ## The closing event -/

namespace LocalWorker

variable (pf : Platform) (w : LocalWorker) (ext : (x : Ext) → x.Reply) (s : StateStore)

instance (runId : RunId) (task : TaskRecord) (result : Dict) :
    Decidable (w.Persists ext s runId task result) :=
  have {α : Type} (x : Except PyExc α) (p : α → Prop) [DecidablePred p] :
      Decidable (∃ v, x = .ok v ∧ p v) :=
    match x with
    | .error _ => isFalse (by simp)
    | .ok v => decidable_of_iff (p v) (by simp)
  inferInstanceAs (Decidable (_ ∧ (_ → _)))

/-- The kind of the event that closes an attempt, if it gets that far. -/
def closingKind (a : Attempt) (run : HandlerRun (Except PyExc PyVal)) : Option String :=
  match run.outcome with
  | .error exc =>
    if exc.isInstance "TimeoutError" then some "task_timed_out"
    else if w.RequeuesOom pf s a.runId a.task exc then some oomRequeuedKind
    else
      match w.resolveMaxAttempts run.payload with
      | .error _ => none
      | .ok m => some (if (a.count : Int) < m then "task_retry_scheduled" else "task_failed")
  | .ok v =>
    match judge pf run.payload run.wallSeconds v with
    | .error _ => none
    | .ok (result, outcome) =>
      if outcome.status.rejected then
        if w.Persists ext s a.runId a.task result then some "task_degenerate" else none
      else if w.Persists ext s a.runId a.task
          (w.hooks.applied ext (.afterTaskSuccess { a.task with payload := run.payload } result)).result
        then some "task_succeeded"
      else none

/-- A lifecycle event of this attempt. -/
def numbered (a : Attempt) (kind : String) : LifeEvent := (kind, some (.int a.count))

/-- The lifecycle events of an attempt at a task. -/
def attemptLog (runId : RunId) (mem : RunMemory) (t : TaskRecord) (expiry : Instant) :
    List LifeEvent :=
  let a : Attempt := ⟨runId, t.leaseTo w.workerId expiry, t.attemptCount + 1⟩
  numbered a "task_running" ::
    match w.handlerCall pf ext s runId mem a.task with
    | none => []
    | some (task, timeout) =>
      (w.closingKind pf ext s a (executed ext task timeout)).toList.map (numbered a)

end LocalWorker

/-! ## The blocks of `run_once` -/

/-- However the program ends, it has added these lifecycle events of the task. -/
def Writes {α : Type} (ans : Answers) (s : StateStore) (runId : RunId) (t : TaskId)
    (log : List LifeEvent) (p : Prog α) (l : Ledger) : Prop :=
  p.wp (alone (.exactly ans)) (fun _ l' => LogIs s l'.store runId t log)
    (fun _ l' => LogIs s l'.store runId t log) l

/-- The task is `RUNNING`, and these lifecycle events of it are on record since. -/
structure Running (s s' : StateStore) (a : Attempt) (log : List LifeEvent) : Prop where
  inHand : InHand s s' a.runId a.task.taskId
  log : LogIs s s' a.runId a.task.taskId log

/-- Run and task are on record. -/
structure Known (s s' : StateStore) (a : Attempt) (log : List LifeEvent) : Prop where
  run : s'.run? a.runId ≠ none
  task : s'.task? a.task.taskId ≠ none
  log : LogIs s s' a.runId a.task.taskId log

theorem routine_appends {runId : RunId} {α : Type} {p : Prog α} (h : p.Only (Routine runId)) :
    p.Only (Appends fun e => e.kind ∉ lifecycleKinds) := by
  refine h.mono fun e he => ?_
  cases e with
  | ext x => trivial
  | store op =>
    cases op <;> first | exact he.elim | exact fun _ hlog => False.elim hlog | skip
    case appendEvent ev =>
      intro e' hlog
      rw [hlog.2.2]
      have hkind := he.2
      simp only [List.mem_cons, List.not_mem_nil, or_false] at hkind
      rcases hkind with hkind | hkind <;> rw [hkind] <;> decide

section Blocks

variable {α β : Type} {ans : Answers} {s s' s'' : StateStore} {cs : List TaskId} {a : Attempt}
  {log : List LifeEvent} {st : TaskStatus} {err : Option String} {w : LocalWorker}

/-- What follows a settlement adds nothing. -/
theorem LogIs.rest {runId : RunId} {t : TaskId} (h : LogIs s s' runId t log) {p : Prog α}
    (hp : p.Only (Routine runId)) : Writes ans s runId t log p ⟨s', cs⟩ := by
  have happ := @alone_appends _ (.exactly ans) id _ _ (routine_appends hp) ⟨s', cs⟩
  refine wp_mono happ (fun _ l' hl => ?_) fun _ l' hl => ?_
  · obtain ⟨es, hes, hk⟩ := hl
    exact h.quiet hes fun e he => .inl (hk e he)
  · obtain ⟨es, hes, hk⟩ := hl
    exact h.quiet hes fun e he => .inl (hk e he)

theorem Running.addEvent (h : Running s s' a log) {e : EventRecord}
    (he : Silent a.task.taskId e) (hk : e.kind ∉ lifecycleKinds) :
    Running s (s'.addEvents [e]) a log :=
  ⟨h.inHand.addEvent he, h.log.quiet (s'.addEvents_events [e]) (by simpa using Or.inl hk)⟩

theorem Running.onRun (h : Running s s' a log) (ho : OnRun a.runId s' s'') :
    Running s s'' a log := by
  obtain ⟨es, hes, hnone⟩ := ho.events
  exact ⟨h.inHand.onRun ho, h.log.quiet hes fun e he => .inr (hnone e he)⟩

theorem Running.hookFired {ok : Admits} (h : Running s s' a log) (p : HookPoint)
    {Q : Unit → Ledger → Prop} {E : PyExc → Ledger → Prop}
    (hq : ∀ s'', Running s s'' a log → Q () ⟨s'', cs⟩) :
    (w.recordHookFired a p).wp (alone ok) Q E ⟨s', cs⟩ := by
  refine w.alone_hookFired h.inHand.run h.inHand.task fun e hkind => hq _ (h.addEvent ?_ ?_)
  · exact LocalWorker.silent_of_kind hkind fun st => by cases st <;> decide
  · rw [hkind]
    decide

/-- The settling update adds no event. -/
theorem Running.settle (h : Running s s' a log) {r : Option Dict} :
    Known s (s'.modifyTask a.task.taskId (·.settle st r err) (·.settle_taskId _ _ _)) a log :=
  ⟨h.inHand.settle.run, h.inHand.settle.task, h.log.same rfl⟩

/-- The event of an attempt is under its number. -/
theorem LogIs.reportAttempt {a : Attempt} (h : LogIs s s' a.runId a.task.taskId log) {kind : String}
    {e : EventRecord} (he : LocalWorker.Numbers a kind e) (hk : kind ∈ attemptKinds) :
    LogIs s (s'.addEvents [e]) a.runId a.task.taskId (log ++ [LocalWorker.numbered a kind]) := by
  obtain ⟨hrun, htask, rfl, hattempt⟩ := he
  exact h.report hrun htask (lifeEvent_attempt htask hk hattempt)

/-- The closing event, and what follows it. -/
theorem Known.report (h : Known s s' a log) {kind : String} {more : List (String × PyVal)}
    (hk : kind ∈ attemptKinds) (hp : more.all (·.2.plain) = true) {f : Unit → Prog β}
    (hf : ∀ u, (f u).Only (Routine a.runId)) :
    Writes ans s a.runId a.task.taskId (log ++ [LocalWorker.numbered a kind])
      (w.recordAttempt a kind more >>= f) ⟨s', cs⟩ := by
  refine (wp_bind _ _).mpr (w.alone_recordAttempt h.run h.task hp fun e he => ?_)
  exact (h.log.reportAttempt he hk).rest (hf ())

/-- The settling update of a task in hand: refused only for a result that cannot be kept. -/
theorem Running.update (h : Running s s' a log) {log' : List LifeEvent}
    (hst : st ∈ allowedTaskTransitions .running) (r : Option Dict) {f : Unit → Prog β}
    (hno : (s.keep r).isOk = false → log' = log)
    (hf : (s.keep r).isOk = true → ∀ r', Writes ans s a.runId a.task.taskId log' (f ())
      ⟨s'.modifyTask a.task.taskId (·.settle st r' err) (·.settle_taskId _ _ _), cs⟩) :
    Writes ans s a.runId a.task.taskId log'
      (call (.updateTaskStatus a.task.taskId st r err) >>= f) ⟨s', cs⟩ := by
  obtain ⟨row, hrow⟩ := Option.ne_none_iff_exists'.mp h.inHand.task
  have hrun : row.status = .running := by
    have hstatus := h.inHand.status
    rw [StateStore.statusOf_eq hrow] at hstatus
    exact Option.some.inj hstatus
  have hedge : ensureTaskTransition row.status st = .ok () := by
    rw [hrun, ensureTaskTransition, if_pos hst]
  refine (wp_bind _ _).mpr (alone_call fun clk _ => ?_)
  rw [s'.exec_updateTaskStatus, hrow]
  simp only [hedge, h.inHand.keep]
  cases hk : s.keep r with
  | error x =>
    rw [hk] at hno
    rw [hno rfl]
    exact h.log
  | ok r' =>
    rw [hk] at hf
    exact hf rfl r'

/-- An update without a result, its event, and what follows. -/
theorem Running.close (h : Running s s' a log) {kind : String} {more : List (String × PyVal)}
    (hst : st ∈ allowedTaskTransitions .running) (hk : kind ∈ attemptKinds)
    (hp : more.all (·.2.plain) = true) {f : Unit → Prog β}
    (hf : ∀ u, (f u).Only (Routine a.runId)) :
    Writes ans s a.runId a.task.taskId (log ++ [LocalWorker.numbered a kind])
      (call (.updateTaskStatus a.task.taskId st none err) >>= fun _ =>
        w.recordAttempt a kind more >>= f) ⟨s', cs⟩ := by
  refine h.update hst none (fun hno => ?_) fun _ r' => h.settle.report hk hp hf
  rw [s.keep_none] at hno
  cases hno

theorem Known.addArtifact (h : Known s s' a log) (artifact : ArtifactRecord) :
    Known s (s'.addArtifact artifact) a log :=
  ⟨h.run, h.task, h.log.same rfl⟩

/-- A result is stored, kept as an artifact and reported. -/
theorem Running.persist (h : Running s s' a log) (result : Dict) {kind : String}
    {more : List (String × PyVal)} (hst : st ∈ allowedTaskTransitions .running)
    (hk : kind ∈ attemptKinds) (hp : more.all (·.2.plain) = true) {f : Unit → Prog β}
    (hf : ∀ u, (f u).Only (Routine a.runId)) :
    Writes ans s a.runId a.task.taskId
      (log ++ (if w.Persists ans.ext s a.runId a.task result then some kind else none).toList.map
        (LocalWorker.numbered a))
      (call (.updateTaskStatus a.task.taskId st (some result) err) >>= fun _ =>
        w.keepArtifact a result >>= fun _ => w.recordAttempt a kind more >>= f) ⟨s', cs⟩ := by
  by_cases hall : w.Persists ans.ext s a.runId a.task result
  · rw [if_pos hall]
    refine h.update hst _ (fun hno => ?_) fun _ r' => ?_
    · rw [hall.1] at hno
      cases hno
    refine (wp_bind _ _).mpr ?_
    unfold LocalWorker.keepArtifact
    split
    next hstore =>
      obtain ⟨artifact, hwritten, hacc⟩ := hall.2 hstore
      refine (wp_bind _ _).mpr (alone_ask.mpr fun written hw => (wp_bind _ _).mpr ?_)
      obtain rfl : written = _ := hw
      rw [wp_ofExcept, hwritten]
      refine alone_call fun clk _ => ?_
      have hx := (s'.modifyTask a.task.taskId (·.settle st r' err)
        (·.settle_taskId _ _ _)).exec_createArtifact_of clk artifact
      rw [h.inHand.acceptsArtifact, if_pos hacc] at hx
      rw [hx]
      exact (h.settle.addArtifact artifact).report hk hp hf
    next hstore => exact h.settle.report hk hp hf
  · rw [if_neg hall]
    show Writes ans s a.runId a.task.taskId (log ++ []) _ _
    rw [List.append_nil]
    refine h.update hst _ (fun _ => rfl) fun hkeep r' => ?_
    refine (wp_bind _ _).mpr ?_
    unfold LocalWorker.keepArtifact
    split
    next hstore =>
      refine (wp_bind _ _).mpr (alone_ask.mpr fun written hw => (wp_bind _ _).mpr ?_)
      obtain rfl : written = _ := hw
      rw [wp_ofExcept]
      split
      next artifact hwritten =>
        have hacc : ¬ s.acceptsArtifact artifact = true := fun hacc =>
          hall ⟨hkeep, fun _ => ⟨artifact, hwritten, hacc⟩⟩
        refine alone_call fun clk _ => ?_
        have hx := (s'.modifyTask a.task.taskId (·.settle st r' err)
          (·.settle_taskId _ _ _)).exec_createArtifact_of clk artifact
        rw [h.inHand.acceptsArtifact, if_neg hacc] at hx
        obtain ⟨e, hx⟩ := hx
        rw [hx]
        exact h.settle.log
      next e hwritten => exact h.settle.log
    next hstore => exact absurd ⟨hkeep, fun hs => absurd hs hstore⟩ hall

/-- The events this outcome of the attempt adds. -/
def Concludes {α : Type} (ans : Answers) (s : StateStore) (a : Attempt) (log : List LifeEvent)
    (closing : Option String) (p : Prog α) (l : Ledger) : Prop :=
  Writes ans s a.runId a.task.taskId (log ++ closing.toList.map (LocalWorker.numbered a)) p l

variable {pf : Platform}

theorem Running.raised (h : Running s s' a log) :
    LogIs s s' a.runId a.task.taskId
      (log ++ (none : Option String).toList.map (LocalWorker.numbered a)) := by
  show LogIs s s' a.runId a.task.taskId (log ++ [])
  rw [List.append_nil]
  exact h.log

theorem Running.onTimeout (h : Running s s' a log) (payload : Dict) (exc : PyExc) :
    Concludes ans s a log (some "task_timed_out") (w.onTimeout a payload exc) ⟨s', cs⟩ := by
  refine h.close (by decide) (by decide) rfl fun _ => ?_
  exact only_bind (routine_refreshRunStatus _) fun st =>
    w.routine_notify _ _ _ _ fun _ => only_throw _

theorem Running.recordFailure (h : Running s s' a log) (exc : PyExc) (m : Int)
    {f : Unit → Prog β} (hf : ∀ u, (f u).Only (Routine a.runId)) :
    Concludes ans s a log
      (some (if (a.count : Int) < m then "task_retry_scheduled" else "task_failed"))
      (w.recordFailure a exc m >>= f) ⟨s', cs⟩ := by
  have hassoc : ∀ {st : TaskStatus} {kind : String} {more : List (String × PyVal)},
      st ∈ allowedTaskTransitions .running → kind ∈ attemptKinds →
      more.all (·.2.plain) = true →
      Concludes ans s a log (some kind) ((do
        call (.updateTaskStatus a.task.taskId st none (some exc.text))
        w.recordAttempt a kind more : Prog Unit) >>= f) ⟨s', cs⟩ := by
    intro st kind more hst hk hp
    have hclose := @Running.close _ ans s s' cs a log st (some exc.text) w h kind more hst hk hp f hf
    unfold Writes at hclose
    unfold Concludes Writes
    simp only [wp_bind] at hclose ⊢
    exact hclose
  unfold LocalWorker.recordFailure
  split
  · exact hassoc (by decide) (by decide) rfl
  · exact hassoc (by decide) (by decide) rfl

theorem Running.onException (h : Running s s' a log) (payload : Dict) (exc : PyExc) :
    Concludes ans s a log
      (if w.RequeuesOom pf s a.runId a.task exc then some oomRequeuedKind
      else match w.resolveMaxAttempts payload with
        | .error _ => none
        | .ok m => some (if (a.count : Int) < m then "task_retry_scheduled" else "task_failed"))
      (w.onException pf a payload exc) ⟨s', cs⟩ := by
  have hrest : ¬ w.RequeuesOom pf s a.runId a.task exc →
      Concludes ans s a log
        (if w.RequeuesOom pf s a.runId a.task exc then some oomRequeuedKind
        else match w.resolveMaxAttempts payload with
          | .error _ => none
          | .ok m => some (if (a.count : Int) < m then "task_retry_scheduled" else "task_failed"))
        (do
          let maxAttempts ← Program.ofExcept (w.resolveMaxAttempts payload)
          w.recordFailure a exc maxAttempts
          let status ← refreshRunStatus a.runId
          let c ← w.hooks.fire (.afterTaskFailure { a.task with payload } exc)
          w.recordHookFired a .afterTaskFailure
          w.announceStatus a status
          w.backOff a c.payload
          throw exc : Prog TaskRecord) ⟨s', cs⟩ := by
    intro hno
    rw [if_neg hno]
    refine (wp_bind _ _).mpr ?_
    rw [wp_ofExcept]
    cases w.resolveMaxAttempts payload with
    | error e => exact h.raised
    | ok m =>
      refine h.recordFailure exc m fun _ => ?_
      exact only_bind (routine_refreshRunStatus _) fun st =>
        w.routine_notify _ _ _ _ fun c => only_bind (w.routine_backOff _ _) fun _ => only_throw _
  refine (wp_bind _ _).mpr ?_
  unfold LocalWorker.requeueOnOom
  split
  next hoom =>
    refine (wp_bind _ _).mpr (alone_listEvents ?_)
    rw [h.inHand.oomRequeues]
    dsimp only
    split
    next hge => exact hrest fun hr => absurd hr.2 (by omega)
    next hlt =>
      -- the requeue raises, so the rest of `run_once` does not run
      have hyes : w.RequeuesOom pf s a.runId a.task exc := ⟨hoom, by omega⟩
      have hmay : ∀ (l : Ledger) (e : Effect), (alone (.exactly ans)).may l e :=
        alone_may id
      rw [if_pos hyes]
      have hdone : Concludes ans s a log (some oomRequeuedKind)
          (w.oomRequeue a exc (LocalWorker.oomRequeues a.task.taskId (s.eventsOf a.runId)))
          ⟨s', cs⟩ := by
        refine h.close (by decide) (by decide) rfl fun _ => ?_
        exact only_bind (routine_refreshRunStatus _) fun st =>
          only_bind (w.routine_announceStatus _ _) fun _ => only_throw _
      have hraises : (w.oomRequeue a exc
          (LocalWorker.oomRequeues a.task.taskId (s.eventsOf a.runId))).wp
          (alone (.exactly ans)) (fun _ _ => False) (fun _ _ => True) ⟨s', cs⟩ :=
        wp_raises hmay fun _ _ => wp_raises hmay fun _ _ => wp_raises hmay fun _ _ =>
          wp_raises hmay fun _ _ => trivial
      exact wp_mono (wp_and hdone hraises) (fun _ _ hx => hx.2.elim) fun _ _ hx => hx.1
  next hoom => exact hrest fun hr => hoom hr.1

theorem Running.onReturn (h : Running s s' a log) (run : HandlerRun (Except PyExc PyVal))
    (v : PyVal) (hv : run.outcome = .ok v) :
    Concludes ans s a log (w.closingKind pf ans.ext s a run)
      (w.onReturn pf a run.payload run.wallSeconds v) ⟨s', cs⟩ := by
  refine (wp_bind _ _).mpr ?_
  rw [wp_ofExcept]
  unfold LocalWorker.closingKind
  rw [hv]
  dsimp only
  cases LocalWorker.judge pf run.payload run.wallSeconds v with
  | error e => exact h.raised
  | ok judged =>
    obtain ⟨result, outcome⟩ := judged
    dsimp only
    split
    · refine h.persist result (by decide) (by decide) ?_ fun _ => ?_
      · simp [PyVal.plain]
      · exact only_bind (routine_refreshRunStatus _) fun st =>
          w.routine_notify _ _ _ _ fun _ => only_throw _
    · refine (wp_bind _ _).mpr (alone_fire_applied ((wp_bind _ _).mpr
        (h.hookFired _ fun s'' hs'' => ?_)))
      refine hs''.persist _ (by decide) (by decide) rfl fun _ => ?_
      exact only_bind (routine_refreshRunStatus _) fun st =>
        only_bind (w.routine_announceStatus _ _) fun _ => only_pure _

/-- **The end of the handler call decides the closing event.** -/
theorem Running.finish (h : Running s s' a log) (run : HandlerRun (Except PyExc PyVal)) :
    Concludes ans s a log (w.closingKind pf ans.ext s a run) (w.finish pf a run) ⟨s', cs⟩ := by
  unfold LocalWorker.finish
  cases hout : run.outcome with
  | error exc =>
    unfold LocalWorker.closingKind
    rw [hout]
    dsimp only
    split
    · exact h.onTimeout run.payload exc
    · exact h.onException run.payload exc
  | ok v => exact h.onReturn run v hout

end Blocks

/-! ## From the lease on -/

section Lease

variable {pf : Platform} {w : LocalWorker} {ans : Answers} {s s' : StateStore} {cs : List TaskId}
  {runId : RunId} {t : TaskRecord} {expiry : Instant} {log : List LifeEvent} {a : Attempt}

/-- From the seed to the end of the handler call. -/
theorem Running.prepared (h : Running s s' a log) (seed : Option Int) :
    Writes ans s a.runId a.task.taskId
      (log ++ if seed.all (fun i => (applySeed pf i).isOk) then
        match w.resolveTimeout (w.hooks.applied ans.ext (.beforeTask a.task)).payload with
        | .error _ => []
        | .ok timeout => (w.closingKind pf ans.ext s a (LocalWorker.executed ans.ext
            { a.task with payload := (w.hooks.applied ans.ext (.beforeTask a.task)).payload }
            timeout)).toList.map (LocalWorker.numbered a)
      else [])
      (do
        let (payload, timeout) ← w.prepare pf seed a
        let run ← LocalWorker.execute { a.task with payload } timeout
        w.finish pf a run) ⟨s', cs⟩ := by
  have hall : (∀ i, seed = some i → (applySeed pf i).isOk = true) ↔
      seed.all (fun i => (applySeed pf i).isOk) = true := by
    cases seed <;> simp
  refine (wp_bind _ _).mpr ((wp_bind _ _).mpr (LocalWorker.alone_seedAttempt pf (fun hs => ?_)
    fun hs e => ?_))
  swap
  · rw [if_neg fun hx => hs (hall.mpr hx)]
    exact h.raised
  rw [if_pos (hall.mp hs)]
  refine (wp_bind _ _).mpr (alone_fire_applied ((wp_bind _ _).mpr
    (h.hookFired _ fun s'' hs'' => (wp_bind _ _).mpr ?_)))
  rw [wp_ofExcept]
  cases w.resolveTimeout (w.hooks.applied ans.ext (.beforeTask a.task)).payload with
  | error e => exact hs''.raised
  | ok timeout =>
    refine (wp_bind _ _).mpr ?_
    cases timeout with
    | none =>
      refine alone_ask.mpr fun run hrun => ?_
      obtain rfl : run = _ := hrun
      exact hs''.finish _
    | some seconds =>
      refine (wp_bind _ _).mpr (alone_ask.mpr fun run hrun => ?_)
      obtain rfl : run = _ := hrun
      exact hs''.finish _

/-- Lease, count and mark are no lifecycle events. -/
theorem marked_logIs (w : WorkerId) :
    LogIs s (LocalWorker.marked s t w expiry) runId t.taskId [] := by
  have hes : (LocalWorker.marked s t w expiry).events = s.events ++ StateStore.takeover t w := rfl
  refine (LogIs.refl s runId t.taskId).quiet hes fun e he => ?_
  unfold StateStore.takeover at he
  split at he
  · cases he
  · rw [List.mem_singleton.mp he]
    exact .inl (by
      rw [show (leaseExpiredEvent t (some w)).kind = "lease_expired" from rfl]
      decide)

/-- The event of the mark; where the run can be refreshed, the attempt goes on. -/
theorem writes_beginAttempt {r : RunRecord} (ht : s.task? t.taskId = some t)
    (hrun : t.runId = runId) (hst : t.status = .pending ∨ t.status = .leased)
    (hr : s.run? runId = some r) {f : Attempt → Prog TaskRecord}
    (hf : ∀ s', Running s s' ⟨runId, t.leaseTo w.workerId expiry, t.attemptCount + 1⟩
      [LocalWorker.numbered ⟨runId, t.leaseTo w.workerId expiry, t.attemptCount + 1⟩
        "task_running"] →
      Writes ans s runId t.taskId (LocalWorker.numbered
        ⟨runId, t.leaseTo w.workerId expiry, t.attemptCount + 1⟩ "task_running" :: log)
        (f ⟨runId, t.leaseTo w.workerId expiry, t.attemptCount + 1⟩) ⟨s', cs⟩) :
    Writes ans s runId t.taskId (LocalWorker.numbered
        ⟨runId, t.leaseTo w.workerId expiry, t.attemptCount + 1⟩ "task_running" ::
        if r.status.canReach (begunStatus (s.tasksOf runId)) then log else [])
      (w.beginAttempt runId (t.leaseTo w.workerId expiry) >>= f)
      ⟨(s.modifyTask t.taskId (·.leaseTo w.workerId expiry) (·.leaseTo_taskId _ _)).addEvents
        (StateStore.takeover t w.workerId), cs⟩ := by
  have hin := LocalWorker.marked_inHand ht (by rw [hr]; exact Option.some_ne_none r)
    w.workerId expiry
  have hmark : LogIs s (LocalWorker.marked s t w.workerId expiry) runId t.taskId [] :=
    marked_logIs w.workerId
  have hrunning : ∀ e, LocalWorker.Numbers
      ⟨runId, t.leaseTo w.workerId expiry, t.attemptCount + 1⟩ "task_running" e →
      Running s ((LocalWorker.marked s t w.workerId expiry).addEvents [e])
        ⟨runId, t.leaseTo w.workerId expiry, t.attemptCount + 1⟩
        [LocalWorker.numbered ⟨runId, t.leaseTo w.workerId expiry, t.attemptCount + 1⟩
          "task_running"] := by
    intro e he
    exact ⟨hin.addEvent (LocalWorker.marked_event he _), hmark.reportAttempt he (by decide)⟩
  refine (wp_bind _ _).mpr ?_
  cases hreach : r.status.canReach (begunStatus (s.tasksOf runId)) with
  | true =>
    rw [if_pos rfl]
    refine w.alone_beginAttempt_reached ht hrun hst hr hreach fun e s' he ho _ => ?_
    exact hf s' ((hrunning e he).onRun ho)
  | false =>
    rw [if_neg Bool.false_ne_true]
    exact w.alone_beginAttempt_stuck ht hrun hst id hr hreach fun e _ he => (hrunning e he).log

theorem attemptLog_eq {r : RunRecord} (hr : s.run? runId = some r)
    (ext : (x : Ext) → x.Reply) (mem : RunMemory) :
    w.attemptLog pf ext s runId mem t expiry =
      LocalWorker.numbered ⟨runId, t.leaseTo w.workerId expiry, t.attemptCount + 1⟩
        "task_running" ::
      if r.status.canReach (begunStatus (s.tasksOf runId)) then
        if (LocalWorker.seedFor s runId mem).all (fun i => (applySeed pf i).isOk) then
          match w.resolveTimeout
              (w.hooks.applied ext (.beforeTask (t.leaseTo w.workerId expiry))).payload with
          | .error _ => []
          | .ok timeout =>
            (w.closingKind pf ext s ⟨runId, t.leaseTo w.workerId expiry, t.attemptCount + 1⟩
              (LocalWorker.executed ext { t.leaseTo w.workerId expiry with
                payload := (w.hooks.applied ext (.beforeTask (t.leaseTo w.workerId expiry))).payload }
                timeout)).toList.map (LocalWorker.numbered
                  ⟨runId, t.leaseTo w.workerId expiry, t.attemptCount + 1⟩)
        else []
      else [] := by
  unfold LocalWorker.attemptLog LocalWorker.handlerCall
  dsimp only
  rw [hr, Option.any_some]
  congr 1
  by_cases hreach : r.status.canReach (begunStatus (s.tasksOf runId)) = true
  · by_cases hseed : (LocalWorker.seedFor s runId mem).all (fun i => (applySeed pf i).isOk) = true
    · rw [hreach, hseed]
      cases w.resolveTimeout
        (w.hooks.applied ext (.beforeTask (t.leaseTo w.workerId expiry))).payload <;> rfl
    · rw [hreach, Bool.eq_false_iff.mpr hseed]
      rfl
  · rw [Bool.eq_false_iff.mpr hreach]
    rfl

theorem writes_leaseAndRun {mem : RunMemory} (hr : s.run? runId ≠ none)
    (ht : s.nextLeaseable runId ans.clock.now = some t) :
    Writes ans s runId t.taskId
      (w.attemptLog pf ans.ext s runId mem t (leaseUntil ans.clock.later LocalWorker.leaseSeconds))
      (w.leaseAndRun pf (LocalWorker.seedFor s runId mem) runId) ⟨s, cs⟩ := by
  obtain ⟨r, hr⟩ := Option.ne_none_iff_exists'.mp hr
  obtain ⟨hrow, hrun, hfree⟩ := s.nextLeaseable_some ht
  rw [attemptLog_eq hr]
  refine (wp_bind _ _).mpr (alone_call fun clk hclk => ?_)
  obtain rfl : clk = ans.clock := hclk
  rw [s.exec_leaseNextPendingTask, ht]
  refine (wp_bind _ _).mpr ?_
  exact writes_beginAttempt hrow hrun (StateStore.leaseable_status hfree) hr fun s' hs' =>
    hs'.prepared (LocalWorker.seedFor s runId mem)

/-- **What `run_once` adds to the log of a run on record**: the events of one attempt at the
task it leases. -/
theorem writes_runOnce (mem : RunMemory) (hr : s.run? runId ≠ none)
    (ht : s.nextLeaseable runId ans.clock.now = some t) :
    Writes ans s runId t.taskId
      (w.attemptLog pf ans.ext s runId mem t (leaseUntil ans.clock.later LocalWorker.leaseSeconds))
      (w.runOnce pf mem runId) ⟨s, cs⟩ := by
  refine (wp_bind _ _).mpr (w.alone_startRun (fun h => h.elim) fun mem' _ hseed => ?_)
  rw [hseed]
  exact (wp_bind _ _).mpr ((wp_attempt _).mpr (writes_leaseAndRun hr ht))

theorem runOnce_log (pf : Platform) (w : LocalWorker) (mem : RunMemory) (hr : s.run? runId ≠ none)
    (ht : s.nextLeaseable runId ans.clock.now = some t) :
    LogIs s (atomically (w.runOnce pf mem runId) ans s).2 runId t.taskId
      (w.attemptLog pf ans.ext s runId mem t
        (leaseUntil ans.clock.later LocalWorker.leaseSeconds)) := by
  have hrun := atomically_of_wp (@writes_runOnce pf w ans s [] runId t mem hr ht)
    (Admits.exactly_meets ans)
  generalize atomically (w.runOnce pf mem runId) ans s = out at hrun ⊢
  obtain ⟨r, s'⟩ := out
  cases r with
  | ok _ => obtain ⟨_, h⟩ := hrun; exact h
  | error _ => obtain ⟨_, h⟩ := hrun; exact h

end Lease
end FineTuneHarness
