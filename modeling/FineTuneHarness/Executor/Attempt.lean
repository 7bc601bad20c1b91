import FineTuneHarness.Executor.Worker
import FineTuneHarness.Orchestrator.Refresh

/-!
# One attempt of a worker alone on the store

`Held` describes the store from the mark of a task on, `Settled` the store after its
settlement and the refresh. The rules here are the parts of `run_once` on the paths where
nothing between the two raises.
-/
namespace FineTuneHarness

open Library Library.Program

/-! ## The target of a run in which a task runs -/

/-- The target of a run one of whose tasks is `RUNNING`. -/
def begunStatus (tasks : List TaskRecord) : RunStatus :=
  if tasks.any (·.status.unsuccessful) then .partialFailed else .running

section Begin

variable {tasks : List TaskRecord}

theorem begunStatus_cases (tasks : List TaskRecord) :
    (∃ t ∈ tasks, t.status.unsuccessful = true) ∧ begunStatus tasks = .partialFailed ∨
      (∀ t ∈ tasks, t.status.unsuccessful = false) ∧ begunStatus tasks = .running := by
  unfold begunStatus
  cases h : tasks.any (·.status.unsuccessful) with
  | true => exact .inl ⟨List.any_eq_true.mp h, rfl⟩
  | false => exact .inr ⟨by simpa [List.any_eq_false] using h, rfl⟩

/-- A running task leaves two targets. -/
theorem targetStatus_of_running {t : TaskRecord} (ht : t ∈ tasks) (hr : t.status = .running) :
    targetStatus tasks = begunStatus tasks := by
  have hne : tasks.isEmpty = false := by
    rw [List.isEmpty_eq_false_iff]
    exact List.ne_nil_of_mem ht
  have hall : ∀ {p : TaskRecord → Bool}, p t = false → tasks.all p = false := fun hp =>
    List.all_eq_false.mpr ⟨t, ht, by rw [hp]; exact Bool.false_ne_true⟩
  have hany : ∀ {p : TaskRecord → Bool}, p t = true → tasks.any p = true := fun hp =>
    List.any_eq_true.mpr ⟨t, ht, hp⟩
  unfold targetStatus begunStatus
  rw [hne, hall (p := fun t => decide (t.status = .succeeded)) (by rw [hr]; rfl),
    hall (p := fun t => t.status.unsuccessful || decide (t.status = .cancelled)) (by rw [hr]; rfl),
    hany (p := fun t => t.status.inProgress) (by rw [hr]; rfl),
    hany (p := fun t => decide (t.status = .running)) (by rw [hr]; rfl)]
  simp

variable {s s' : StateStore} {runId : RunId}

/-- Tasks that differ in one row, which is unsuccessful in neither, have the same begun
status. -/
theorem begunStatus_congr {id : TaskId} {t t' : TaskRecord} (ht : s.task? id = some t)
    (ht' : s'.task? id = some t') (hu : t.status.unsuccessful = false)
    (hu' : t'.status.unsuccessful = false)
    (hother : ∀ id', id' ≠ id → s'.task? id' = s.task? id') :
    begunStatus (s'.tasksOf runId) = begunStatus (s.tasksOf runId) := by
  have hiff : (∃ r ∈ s'.tasksOf runId, r.status.unsuccessful = true) ↔
      ∃ r ∈ s.tasksOf runId, r.status.unsuccessful = true := by
    constructor
    · rintro ⟨r, hm, hr⟩
      obtain ⟨h1, h2⟩ := s'.mem_tasksOf.mp hm
      have hne : r.taskId ≠ id := by
        rintro rfl
        obtain rfl := Option.some.inj (h1.symm.trans ht')
        rw [hr] at hu'
        cases hu'
      exact ⟨r, s.mem_tasksOf.mpr ⟨(hother _ hne).symm.trans h1, h2⟩, hr⟩
    · rintro ⟨r, hm, hr⟩
      obtain ⟨h1, h2⟩ := s.mem_tasksOf.mp hm
      have hne : r.taskId ≠ id := by
        rintro rfl
        obtain rfl := Option.some.inj (h1.symm.trans ht)
        rw [hr] at hu
        cases hu
      exact ⟨r, s'.mem_tasksOf.mpr ⟨(hother _ hne).trans h1, h2⟩, hr⟩
  rcases begunStatus_cases (s'.tasksOf runId) with ⟨hx, he⟩ | ⟨hn, he⟩
  · rcases begunStatus_cases (s.tasksOf runId) with ⟨-, he'⟩ | ⟨hn', -⟩
    · rw [he, he']
    · obtain ⟨r, hm, hr⟩ := hiff.mp hx
      rw [hn' r hm] at hr
      cases hr
  · rcases begunStatus_cases (s.tasksOf runId) with ⟨hx', -⟩ | ⟨-, he'⟩
    · obtain ⟨r, hm, hr⟩ := hiff.mpr hx'
      rw [hn r hm] at hr
      cases hr
    · rw [he, he']

end Begin

/-- From a status that fits, a run is refreshed once one of its waiting tasks runs. -/
theorem Fits.begun {tasks : List TaskRecord} {st : RunStatus} {t : TaskRecord}
    (h : Fits tasks st) (ht : t ∈ tasks) (hw : t.status = .pending ∨ t.status = .leased) :
    st.canReach (begunStatus tasks) = true := by
  have hus : t.status.unsuccessful = false := by rcases hw with hw | hw <;> rw [hw] <;> rfl
  cases st with
  | created | cancelled => exact h.elim
  | validated | running => rcases begunStatus_cases tasks with ⟨-, he⟩ | ⟨-, he⟩ <;> rw [he] <;> decide
  | partialFailed =>
    rcases begunStatus_cases tasks with ⟨-, he⟩ | ⟨hn, -⟩
    · rw [he]; decide
    · obtain ⟨u, hu, hx⟩ := h
      rw [hn u hu] at hx
      cases hx
  | completed =>
    have := h.2 t ht
    rcases hw with hw | hw <;> rw [hw] at this <;> cases this
  | failed =>
    rcases h.2 t ht with hx | hx
    · rw [hus] at hx; cases hx
    · rcases hw with hw | hw <;> rw [hw] at hx <;> cases hx

/-! ## States of an attempt -/

/-- The task is in this row and has been attempted; no other task has changed, and the
tasks do not contradict the status of the run. -/
structure Held (s s' : StateStore) (a : Attempt) (row : TaskRecord) : Prop where
  found : s'.task? a.task.taskId = some row
  begun : 0 < row.attemptCount
  ofRun : row.runId = a.runId
  others : ∀ id, id ≠ a.task.taskId → s'.task? id = s.task? id
  backend : s'.backend = s.backend
  run : ∃ r, s'.run? a.runId = some r ∧ Fits (s'.tasksOf a.runId) r.status

/-- The task is in this row, no other task has changed, and the run has the status its
tasks ask for. -/
structure Settled (s s' : StateStore) (a : Attempt) (row : TaskRecord) : Prop where
  found : s'.task? a.task.taskId = some row
  others : ∀ id, id ≠ a.task.taskId → s'.task? id = s.task? id
  backend : s'.backend = s.backend
  run : ∃ r, s'.run? a.runId = some r ∧ r.status = targetStatus (s'.tasksOf a.runId)

theorem Held.addEvents {s s' : StateStore} {a : Attempt} {row : TaskRecord}
    (h : Held s s' a row) (es : List EventRecord) : Held s (s'.addEvents es) a row :=
  ⟨h.found, h.begun, h.ofRun, h.others, h.backend, h.run⟩

theorem Settled.addEvents {s s' : StateStore} {a : Attempt} {row : TaskRecord}
    (h : Settled s s' a row) (es : List EventRecord) : Settled s (s'.addEvents es) a row :=
  ⟨h.found, h.others, h.backend, h.run⟩

section Alone

variable {ok : Admits} {s s' : StateStore} {cs : List TaskId} {E : PyExc → Ledger → Prop}
  {runId : RunId} {t : TaskRecord}

/-- Once a task has been attempted, a run whose status fits is refreshed. -/
theorem alone_refresh_begun {Q : RunStatus → Ledger → Prop} {r : RunRecord}
    (hr : s.run? runId = some r) (hfit : Fits (s.tasksOf runId) r.status)
    (ht : t ∈ s.tasksOf runId) (hb : 0 < t.attemptCount)
    (h : ∀ s', OnRun runId s s' →
      (∃ r, s'.run? runId = some r ∧ r.status = targetStatus (s.tasksOf runId)) →
      Q (targetStatus (s.tasksOf runId)) ⟨s', cs⟩) :
    (refreshRunStatus runId).wp (alone ok) Q E ⟨s, cs⟩ :=
  alone_refreshRunStatus hr
    ((canReach_target hfit).mpr fun hc => targetStatus_ne_validated ht (.inl hb) hc.2) h

end Alone

namespace LocalWorker

variable (pf : Platform) (w : LocalWorker) {ok : Admits} {s s' : StateStore}
  {cs : List TaskId} {E : PyExc → Ledger → Prop} {runId : RunId} {t row : TaskRecord}
  {a : Attempt}

/-- The seed `run_once` applies. -/
def seedFor (s : StateStore) (runId : RunId) (mem : RunMemory) : Option Int :=
  if mem.started runId then mem.seed runId else (s.run? runId).bind (·.seed)

/-- `before_run_start`: the store stays as it is, and the seed of the run is cached. -/
theorem alone_startRun {mem : RunMemory} {Q : RunMemory → Ledger → Prop}
    (hread : ok.refreshable → Refreshable s runId)
    (hq : ∀ mem', (∀ s', seedFor s' runId mem' = seedFor s runId mem) →
      mem'.seed runId = seedFor s runId mem → Q mem' ⟨s, cs⟩) :
    (w.startRun mem runId).wp (alone ok) Q E ⟨s, cs⟩ := by
  unfold startRun
  split
  next hstarted =>
    refine hq mem (fun s' => ?_) ?_
    · rw [seedFor, seedFor, if_pos hstarted, if_pos hstarted]
    · rw [seedFor, if_pos hstarted]
  next hstarted =>
    have hseed : ∀ seed, RunMemory.seed ((runId, seed) :: mem) runId = seed := fun seed => by
      simp [RunMemory.seed]
    refine (wp_bind _ _).mpr (alone_getRun hread ((wp_bind _ _).mpr (alone_fire fun _ => ?_)))
    refine hq _ (fun s' => ?_) ?_
    · rw [seedFor, seedFor, if_neg hstarted, if_pos (by simp [RunMemory.started]), hseed]
    · rw [seedFor, if_neg hstarted, hseed]

/-- The seed is applied, or raises. -/
theorem alone_seedAttempt {seed : Option Int} {l : Ledger} {Q : Unit → Ledger → Prop}
    (hq : (∀ i, seed = some i → (applySeed pf i).isOk = true) → Q () l)
    (he : ¬ (∀ i, seed = some i → (applySeed pf i).isOk = true) → ∀ e, E e l) :
    (seedAttempt pf seed).wp (alone ok) Q E l := by
  cases seed with
  | none => exact hq fun i hi => by cases hi
  | some i =>
    cases hs : applySeed pf i with
    | ok u =>
      simp only [seedAttempt, hs]
      exact hq fun j hj => by rw [← Option.some.inj hj, hs]; rfl
    | error e =>
      simp only [seedAttempt, hs]
      exact he (fun hall => by have := hall i rfl; rw [hs] at this; cases this) e

/-! ## Up to the mark -/

/-- The store after the lease, the count and the mark of one task. -/
def marked (s : StateStore) (t : TaskRecord) (w : WorkerId) (expiry : Instant) : StateStore :=
  ((((s.modifyTask t.taskId (·.leaseTo w expiry) (·.leaseTo_taskId _ _)).addEvents
    (StateStore.takeover t w)).modifyTask t.taskId TaskRecord.countAttempt
      TaskRecord.countAttempt_taskId).modifyTask t.taskId (·.setStatus .running)
        (·.setStatus_taskId _))

/-- The row of a task that has been leased, counted and marked. -/
def markedRow (t : TaskRecord) (w : WorkerId) (expiry : Instant) : TaskRecord :=
  ((t.leaseTo w expiry).countAttempt).setStatus .running

theorem marked_task? (ht : s.task? t.taskId = some t) (w : WorkerId) (expiry : Instant) :
    (marked s t w expiry).task? t.taskId = some (markedRow t w expiry) := by
  simp only [marked, markedRow, StateStore.modifyTask_task?_self, StateStore.addEvents_task?, ht,
    Option.map_some]

theorem marked_other {id : TaskId} (hid : id ≠ t.taskId) (w : WorkerId) (expiry : Instant) :
    (marked s t w expiry).task? id = s.task? id := by
  simp only [marked, StateStore.modifyTask_task?, StateStore.addEvents_task?, if_neg hid]

theorem targetStatus_marked (ht : s.task? t.taskId = some t) (hrun : t.runId = runId)
    (hst : t.status = .pending ∨ t.status = .leased) (w : WorkerId) (expiry : Instant) :
    targetStatus ((marked s t w expiry).tasksOf runId) = begunStatus (s.tasksOf runId) := by
  have hmarked := marked_task? ht w expiry
  refine (targetStatus_of_running (t := markedRow t w expiry)
    ((StateStore.mem_tasksOf _).mpr ⟨hmarked, hrun⟩) rfl).trans ?_
  refine begunStatus_congr ht hmarked ?_ rfl fun id hid => marked_other hid _ _
  rcases hst with h | h <;> rw [h] <;> rfl

/-- The count and the mark of a leased task. -/
theorem alone_mark {expiry : Instant} {Q : Attempt → Ledger → Prop}
    (ht : s.task? t.taskId = some t)
    (h : (do
      w.recordAttempt ⟨runId, t.leaseTo w.workerId expiry, t.attemptCount + 1⟩ "task_running" []
      let _ ← refreshRunStatus runId
      pure ⟨runId, t.leaseTo w.workerId expiry, t.attemptCount + 1⟩ : Prog Attempt).wp (alone ok)
        Q E ⟨marked s t w.workerId expiry, cs⟩) :
    (w.beginAttempt runId (t.leaseTo w.workerId expiry)).wp (alone ok) Q E
      ⟨(s.modifyTask t.taskId (·.leaseTo w.workerId expiry) (·.leaseTo_taskId _ _)).addEvents
        (StateStore.takeover t w.workerId), cs⟩ := by
  have hrow : ((s.modifyTask t.taskId (·.leaseTo w.workerId expiry)
      (·.leaseTo_taskId _ _)).addEvents (StateStore.takeover t w.workerId)).task? t.taskId =
      some (t.leaseTo w.workerId expiry) := by
    simp [ht]
  refine (wp_bind _ _).mpr (alone_call fun clk _ => ?_)
  rw [TaskRecord.leaseTo_taskId, StateStore.exec_incrementTaskAttempts _ clk hrow]
  refine (wp_bind _ _).mpr (alone_call fun clk' _ => ?_)
  rw [StateStore.exec_markTaskRunning, if_pos (by
    rw [StateStore.modifyTask_task?_self, hrow]; rfl)]
  exact h

/-- The event of an attempt, under its number. -/
structure Numbers (a : Attempt) (kind : String) (e : EventRecord) : Prop where
  ofRun : e.runId = a.runId
  ofTask : e.taskId = some a.task.taskId
  kind : e.kind = kind
  attempt : e.payload.get? "attempt" = some (.int a.count)

/-- The event as the worker hands it over. -/
def attemptEvent (a : Attempt) (kind : String) (more : List (String × PyVal)) : EventRecord where
  runId := a.runId
  taskId := some a.task.taskId
  kind := kind
  payload := Dict.ofList ([("worker_id", .str w.workerId), ("attempt", .int a.count)] ++ more)

theorem recordAttempt_eq (kind : String) (more : List (String × PyVal)) :
    w.recordAttempt a kind more = call (.appendEvent (w.attemptEvent a kind more)) := rfl

theorem numbers_of_kept {kind : String} {more : List (String × PyVal)} {e : EventRecord}
    (h : s.keepEvent (w.attemptEvent a kind more) = .ok e) : Numbers a kind e := by
  obtain ⟨hrun, htask, hkind⟩ := s.keepEvent_ok h
  have hkeys : (w.attemptEvent a kind more).payload.stringKeys = true := by
    simp [attemptEvent, Dict.stringKeys, Dict.ofList, PyKey.isStr]
  have hattempt : (w.attemptEvent a kind more).payload.get? "attempt" = some (.int a.count) := rfl
  exact ⟨hrun, htask, hkind, s.keepEvent_get? h hkeys hattempt rfl rfl⟩

theorem alone_recordAttempt {kind : String} {more : List (String × PyVal)}
    {Q : Unit → Ledger → Prop} (hr : s.run? a.runId ≠ none)
    (ht : s.task? a.task.taskId ≠ none) (hp : more.all (·.2.plain) = true)
    (hq : ∀ e, Numbers a kind e → Q () ⟨s.addEvents [e], cs⟩) :
    (w.recordAttempt a kind more).wp (alone ok) Q E ⟨s, cs⟩ := by
  have hjson : (w.attemptEvent a kind more).payload.throughJson.isOk = true := by
    apply Dict.throughJson_ofList
    rw [List.all_append, hp]
    rfl
  have htask : ∀ id, (w.attemptEvent a kind more).taskId = some id → s.task? id ≠ none := by
    intro id hid
    obtain rfl := Option.some.inj hid
    exact ht
  obtain ⟨e, he⟩ := s.keepEvent_of hjson hr htask
  rw [recordAttempt_eq]
  refine alone_call fun clk _ => ?_
  rw [s.exec_appendEvent, he]
  exact hq e (w.numbers_of_kept he)

theorem marked_known {r : RunRecord} (expiry : Instant) (ht : s.task? t.taskId = some t)
    (hr : s.run? runId = some r) :
    (marked s t w.workerId expiry).run? runId ≠ none ∧
      (marked s t w.workerId expiry).task? (t.leaseTo w.workerId expiry).taskId ≠ none := by
  have hmarked := marked_task? ht w.workerId expiry
  refine ⟨?_, fun hn => ?_⟩
  · rw [show (marked s t w.workerId expiry).run? runId = s.run? runId from rfl, hr]
    exact Option.some_ne_none r
  · have : some _ = none := hmarked.symm.trans hn
    cases this

section Begin

variable {expiry : Instant} {Q : Attempt → Ledger → Prop} {r : RunRecord}
  (ht : s.task? t.taskId = some t) (hrun : t.runId = runId)
  (hst : t.status = .pending ∨ t.status = .leased)
include ht

/-- The count, the mark and the event of an attempt in a known run. -/
theorem alone_reported (hr : s.run? runId = some r)
    (hq : ∀ e, Numbers ⟨runId, t.leaseTo w.workerId expiry, t.attemptCount + 1⟩ "task_running" e →
      (do
        let _ ← refreshRunStatus runId
        pure ⟨runId, t.leaseTo w.workerId expiry, t.attemptCount + 1⟩ : Prog Attempt).wp (alone ok)
          Q E ⟨(marked s t w.workerId expiry).addEvents [e], cs⟩) :
    (w.beginAttempt runId (t.leaseTo w.workerId expiry)).wp (alone ok) Q E
      ⟨(s.modifyTask t.taskId (·.leaseTo w.workerId expiry) (·.leaseTo_taskId _ _)).addEvents
        (StateStore.takeover t w.workerId), cs⟩ := by
  have hknown := w.marked_known expiry ht hr
  exact w.alone_mark ht ((wp_bind _ _).mpr (w.alone_recordAttempt hknown.1 hknown.2 rfl hq))

/-- No such run: the event may still be kept, but the refresh raises. -/
theorem alone_beginAttempt_unknown (hok : ¬ ok.refreshable) (hr : s.run? runId = none)
    (hlost : ∀ x, E x ⟨marked s t w.workerId expiry, cs⟩)
    (hq : ∀ e x, Numbers ⟨runId, t.leaseTo w.workerId expiry, t.attemptCount + 1⟩
      "task_running" e → E x ⟨(marked s t w.workerId expiry).addEvents [e], cs⟩) :
    (w.beginAttempt runId (t.leaseTo w.workerId expiry)).wp (alone ok) Q E
      ⟨(s.modifyTask t.taskId (·.leaseTo w.workerId expiry) (·.leaseTo_taskId _ _)).addEvents
        (StateStore.takeover t w.workerId), cs⟩ := by
  refine w.alone_mark ht ((wp_bind _ _).mpr ?_)
  rw [recordAttempt_eq]
  refine alone_call fun clk _ => ?_
  rw [StateStore.exec_appendEvent]
  cases hk : (marked s t w.workerId expiry).keepEvent (w.attemptEvent
      ⟨runId, t.leaseTo w.workerId expiry, t.attemptCount + 1⟩ "task_running" []) with
  | error x => exact hlost x
  | ok e =>
    exact (wp_bind _ _).mpr (alone_refreshRunStatus_unknown hok hr (hq e _ (w.numbers_of_kept hk)))

include hrun hst

/-- The status that the tasks ask for is out of reach: the refresh raises. -/
theorem alone_beginAttempt_stuck (hok : ¬ ok.refreshable) (hr : s.run? runId = some r)
    (hstuck : r.status.canReach (begunStatus (s.tasksOf runId)) = false)
    (hq : ∀ e x, Numbers ⟨runId, t.leaseTo w.workerId expiry, t.attemptCount + 1⟩
      "task_running" e → E x ⟨(marked s t w.workerId expiry).addEvents [e], cs⟩) :
    (w.beginAttempt runId (t.leaseTo w.workerId expiry)).wp (alone ok) Q E
      ⟨(s.modifyTask t.taskId (·.leaseTo w.workerId expiry) (·.leaseTo_taskId _ _)).addEvents
        (StateStore.takeover t w.workerId), cs⟩ := by
  refine w.alone_reported ht hr fun e he => (wp_bind _ _).mpr ?_
  have hr' : ((marked s t w.workerId expiry).addEvents [e]).run? runId = some r := hr
  have htarget : targetStatus (((marked s t w.workerId expiry).addEvents [e]).tasksOf runId) =
      begunStatus (s.tasksOf runId) := targetStatus_marked ht hrun hst _ _
  exact alone_refreshRunStatus_stuck hok hr' (by rw [htarget]; exact hstuck) (hq e _ he)

/-- The status is in reach: the run is refreshed, and the handler comes next. -/
theorem alone_beginAttempt_reached (hr : s.run? runId = some r)
    (hreach : r.status.canReach (begunStatus (s.tasksOf runId)) = true)
    (hq : ∀ e s', Numbers ⟨runId, t.leaseTo w.workerId expiry, t.attemptCount + 1⟩
      "task_running" e → OnRun runId ((marked s t w.workerId expiry).addEvents [e]) s' →
      (∃ r', s'.run? runId = some r' ∧ Fits (s'.tasksOf runId) r'.status) →
      Q ⟨runId, t.leaseTo w.workerId expiry, t.attemptCount + 1⟩ ⟨s', cs⟩) :
    (w.beginAttempt runId (t.leaseTo w.workerId expiry)).wp (alone ok) Q E
      ⟨(s.modifyTask t.taskId (·.leaseTo w.workerId expiry) (·.leaseTo_taskId _ _)).addEvents
        (StateStore.takeover t w.workerId), cs⟩ := by
  refine w.alone_reported ht hr fun e he => (wp_bind _ _).mpr ?_
  have hr' : ((marked s t w.workerId expiry).addEvents [e]).run? runId = some r := hr
  have htarget : targetStatus (((marked s t w.workerId expiry).addEvents [e]).tasksOf runId) =
      begunStatus (s.tasksOf runId) := targetStatus_marked ht hrun hst _ _
  refine alone_refreshRunStatus hr' (by rw [htarget]; exact hreach) fun s' ho hend => ?_
  obtain ⟨r', hr', hst'⟩ := hend
  have hfit : Fits (s'.tasksOf runId) r'.status := by
    rw [hst', ← ho.tasksOf]
    exact fits_targetStatus
  exact hq e s' he ho ⟨r', hr', hfit⟩

/-- The count, the mark, the event and the refresh before the handler. -/
theorem alone_beginAttempt (hr : s.run? runId = some r)
    (hreach : r.status.canReach (begunStatus (s.tasksOf runId)) = true)
    (hq : ∀ s', Held s s' ⟨runId, t.leaseTo w.workerId expiry, t.attemptCount + 1⟩
      (markedRow t w.workerId expiry) →
      Q ⟨runId, t.leaseTo w.workerId expiry, t.attemptCount + 1⟩ ⟨s', cs⟩) :
    (w.beginAttempt runId (t.leaseTo w.workerId expiry)).wp (alone ok) Q E
      ⟨(s.modifyTask t.taskId (·.leaseTo w.workerId expiry) (·.leaseTo_taskId _ _)).addEvents
        (StateStore.takeover t w.workerId), cs⟩ := by
  refine w.alone_beginAttempt_reached ht hrun hst hr hreach fun e s' _ ho hfit => hq s' {
    found := ?_, begun := Nat.succ_pos _, ofRun := hrun, others := fun id hid => ?_
    backend := ho.backend, run := hfit }
  · show s'.task? t.taskId = _
    rw [ho.task?, StateStore.addEvents_task?]
    exact marked_task? ht w.workerId expiry
  · show s'.task? id = _
    rw [ho.task?, StateStore.addEvents_task?]
    exact marked_other hid _ _

end Begin

/-! ## From the settlement on -/

theorem alone_hookFired {p : HookPoint} {Q : Unit → Ledger → Prop}
    (hr : s.run? a.runId ≠ none) (ht : s.task? a.task.taskId ≠ none)
    (hq : ∀ e : EventRecord, e.kind = "hook_fired" → Q () ⟨s.addEvents [e], cs⟩) :
    (w.recordHookFired a p).wp (alone ok) Q E ⟨s, cs⟩ := by
  refine alone_record ?_ hr (fun id hid => ?_) fun e _ _ hkind => hq e hkind
  · simp [PyVal.plain]
  · obtain rfl := Option.some.inj hid
    exact ht

end LocalWorker

namespace Held

variable {ok : Admits} {s s' : StateStore} {cs : List TaskId} {E : PyExc → Ledger → Prop}
  {row : TaskRecord} {a : Attempt} {st : TaskStatus} {r r' : Option Dict} {err : Option String}

theorem known (h : Held s s' a row) :
    s'.run? a.runId ≠ none ∧ s'.task? a.task.taskId ≠ none := by
  obtain ⟨r, hr, -⟩ := h.run
  rw [hr, h.found]
  exact ⟨Option.some_ne_none _, Option.some_ne_none _⟩

theorem keep (h : Held s s' a row) (r : Option Dict) : s'.keep r = s.keep r := by
  unfold StateStore.keep
  rw [h.backend]

theorem settle (h : Held s s' a row) (hrun : row.status = .running) :
    Held s (s'.modifyTask a.task.taskId (·.settle st r err) (·.settle_taskId _ _ _)) a
      (row.settle st r err) where
  found := by rw [StateStore.modifyTask_task?_self, h.found]; rfl
  begun := h.begun
  ofRun := h.ofRun
  others := fun id hid => by
    rw [StateStore.modifyTask_task?, if_neg hid]
    exact h.others id hid
  backend := h.backend
  run := by
    obtain ⟨run, hr, hfit⟩ := h.run
    refine ⟨run, hr, hfit.evolves (StateStore.Evolves.modifyTask fun t ht => ?_)⟩
    obtain rfl := Option.some.inj (ht.symm.trans h.found)
    exact ⟨rfl, rfl, rfl, rfl, le_rfl, fun hterm => by rw [hrun] at hterm; cases hterm⟩

/-- The settling update of a running task. -/
theorem alone_update (h : Held s s' a row) (hrun : row.status = .running)
    (hst : st ∈ allowedTaskTransitions .running) (hk : s.keep r = .ok r')
    {Q : Unit → Ledger → Prop}
    (hq : ∀ s'', Held s s'' a (row.settle st r' err) → Q () ⟨s'', cs⟩) :
    (call (.updateTaskStatus a.task.taskId st r err)).wp (alone ok) Q E ⟨s', cs⟩ := by
  refine alone_call fun clk _ => ?_
  rw [s'.exec_updateTaskStatus, h.found]
  simp only [hrun, ensureTaskTransition, if_pos hst, h.keep, hk]
  exact hq _ (h.settle hrun)

theorem alone_refresh (h : Held s s' a row) {Q : RunStatus → Ledger → Prop}
    (hq : ∀ st s'', Settled s s'' a row → Q st ⟨s'', cs⟩) :
    (refreshRunStatus a.runId).wp (alone ok) Q E ⟨s', cs⟩ := by
  obtain ⟨run, hr, hfit⟩ := h.run
  have hid := s'.task?_taskId h.found
  refine alone_refresh_begun hr hfit ((s'.mem_tasksOf).mpr ⟨by rw [hid]; exact h.found, h.ofRun⟩)
    h.begun fun s'' ho hr' => hq _ s'' {
      found := by rw [ho.task?]; exact h.found
      others := fun id hid => by rw [ho.task?]; exact h.others id hid
      backend := ho.backend.trans h.backend
      run := by rw [ho.tasksOf]; exact hr' }

end Held

theorem Settled.known {s s' : StateStore} {a : Attempt} {row : TaskRecord}
    (h : Settled s s' a row) : s'.run? a.runId ≠ none ∧ s'.task? a.task.taskId ≠ none := by
  obtain ⟨r, hr, -⟩ := h.run
  rw [hr, h.found]
  exact ⟨Option.some_ne_none _, Option.some_ne_none _⟩

end FineTuneHarness
