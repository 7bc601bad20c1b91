import FineTuneHarness.State.JsonColumn
import FineTuneHarness.State.Store

/-!
# What the store calls do

One equation for each call, proved for both implementations. `TaskRecord.leaseTo`,
`settle`, `release` and `abandon` are the row updates the calls are made of.
-/
namespace FineTuneHarness

open Library (Table)

/-- An integer that fits its column is kept as it is. -/
theorem Sqlite.integerColumn_isOk {i : Option Int} (h : (Sqlite.integerColumn i).isOk = true) :
    Sqlite.integerColumn i = .ok i := by
  cases i with
  | none => rfl
  | some n =>
    unfold Sqlite.integerColumn at h ⊢
    dsimp only at h ⊢
    split
    · rfl
    next hout =>
      rw [if_neg hout] at h
      cases h

namespace TaskRecord

/-- `status = LEASED, lease_owner = worker, leased_until = until`. -/
def leaseTo (worker : WorkerId) (expiry : Instant) (t : TaskRecord) : TaskRecord :=
  { t with status := .leased, leaseOwner := some worker, leasedUntil := some expiry }

def setStatus (status : TaskStatus) (t : TaskRecord) : TaskRecord := { t with status }

def countAttempt (t : TaskRecord) : TaskRecord := { t with attemptCount := t.attemptCount + 1 }

/-- The row `update_task_status` writes. -/
def settle (status : TaskStatus) (result : Option Dict) (error : Option String)
    (t : TaskRecord) : TaskRecord :=
  { t with status, result, error, leaseOwner := none, leasedUntil := none }

/-- The row of a task that goes back to the queue. -/
def release (t : TaskRecord) : TaskRecord :=
  { t with status := .pending, leaseOwner := none, leasedUntil := none }

/-- The row of a task whose dead worker has no reclaim left. -/
def abandon (worker : WorkerId) (prior : Nat) (t : TaskRecord) : TaskRecord :=
  { t with
    status := .failed, leaseOwner := none, leasedUntil := none,
    error := some (diedError worker prior) }

section Fields

variable (t : TaskRecord) (w : WorkerId) (n : Instant) (st : TaskStatus) (r : Option Dict)
  (e : Option String) (k : Nat)

@[simp] theorem leaseTo_taskId : (t.leaseTo w n).taskId = t.taskId := rfl
@[simp] theorem leaseTo_runId : (t.leaseTo w n).runId = t.runId := rfl
@[simp] theorem leaseTo_taskKey : (t.leaseTo w n).taskKey = t.taskKey := rfl
@[simp] theorem leaseTo_status : (t.leaseTo w n).status = .leased := rfl
@[simp] theorem leaseTo_leaseOwner : (t.leaseTo w n).leaseOwner = some w := rfl
@[simp] theorem leaseTo_attemptCount : (t.leaseTo w n).attemptCount = t.attemptCount := rfl
@[simp] theorem leaseTo_payload : (t.leaseTo w n).payload = t.payload := rfl

@[simp] theorem setStatus_taskId : (t.setStatus st).taskId = t.taskId := rfl
@[simp] theorem setStatus_runId : (t.setStatus st).runId = t.runId := rfl
@[simp] theorem setStatus_taskKey : (t.setStatus st).taskKey = t.taskKey := rfl
@[simp] theorem setStatus_status : (t.setStatus st).status = st := rfl
@[simp] theorem setStatus_leaseOwner : (t.setStatus st).leaseOwner = t.leaseOwner := rfl
@[simp] theorem setStatus_attemptCount : (t.setStatus st).attemptCount = t.attemptCount := rfl
@[simp] theorem setStatus_payload : (t.setStatus st).payload = t.payload := rfl

@[simp] theorem countAttempt_taskId : t.countAttempt.taskId = t.taskId := rfl
@[simp] theorem countAttempt_runId : t.countAttempt.runId = t.runId := rfl
@[simp] theorem countAttempt_taskKey : t.countAttempt.taskKey = t.taskKey := rfl
@[simp] theorem countAttempt_status : t.countAttempt.status = t.status := rfl
@[simp] theorem countAttempt_leaseOwner : t.countAttempt.leaseOwner = t.leaseOwner := rfl
@[simp] theorem countAttempt_attemptCount :
    t.countAttempt.attemptCount = t.attemptCount + 1 := rfl
@[simp] theorem countAttempt_payload : t.countAttempt.payload = t.payload := rfl

@[simp] theorem settle_taskId : (t.settle st r e).taskId = t.taskId := rfl
@[simp] theorem settle_runId : (t.settle st r e).runId = t.runId := rfl
@[simp] theorem settle_taskKey : (t.settle st r e).taskKey = t.taskKey := rfl
@[simp] theorem settle_status : (t.settle st r e).status = st := rfl
@[simp] theorem settle_result : (t.settle st r e).result = r := rfl
@[simp] theorem settle_error : (t.settle st r e).error = e := rfl
@[simp] theorem settle_leaseOwner : (t.settle st r e).leaseOwner = none := rfl
@[simp] theorem settle_attemptCount : (t.settle st r e).attemptCount = t.attemptCount := rfl
@[simp] theorem settle_payload : (t.settle st r e).payload = t.payload := rfl

@[simp] theorem release_taskId : t.release.taskId = t.taskId := rfl
@[simp] theorem release_runId : t.release.runId = t.runId := rfl
@[simp] theorem release_taskKey : t.release.taskKey = t.taskKey := rfl
@[simp] theorem release_status : t.release.status = .pending := rfl
@[simp] theorem release_leaseOwner : t.release.leaseOwner = none := rfl
@[simp] theorem release_attemptCount : t.release.attemptCount = t.attemptCount := rfl
@[simp] theorem release_payload : t.release.payload = t.payload := rfl

@[simp] theorem abandon_taskId : (t.abandon w k).taskId = t.taskId := rfl
@[simp] theorem abandon_runId : (t.abandon w k).runId = t.runId := rfl
@[simp] theorem abandon_taskKey : (t.abandon w k).taskKey = t.taskKey := rfl
@[simp] theorem abandon_status : (t.abandon w k).status = .failed := rfl
@[simp] theorem abandon_leaseOwner : (t.abandon w k).leaseOwner = none := rfl
@[simp] theorem abandon_attemptCount : (t.abandon w k).attemptCount = t.attemptCount := rfl
@[simp] theorem abandon_payload : (t.abandon w k).payload = t.payload := rfl

end Fields
end TaskRecord

namespace RunRecord

def setStatus (status : RunStatus) (r : RunRecord) : RunRecord := { r with status }

def finish (at' : Instant) (r : RunRecord) : RunRecord := { r with finishedAt := some at' }

variable (r : RunRecord) (st : RunStatus) (t : Instant)

@[simp] theorem setStatus_runId : (r.setStatus st).runId = r.runId := rfl
@[simp] theorem setStatus_status : (r.setStatus st).status = st := rfl
@[simp] theorem setStatus_seed : (r.setStatus st).seed = r.seed := rfl
@[simp] theorem finish_runId : (r.finish t).runId = r.runId := rfl
@[simp] theorem finish_status : (r.finish t).status = r.status := rfl
@[simp] theorem finish_seed : (r.finish t).seed = r.seed := rfl

end RunRecord

namespace StateStore

variable (s : StateStore) (clk : Clock)

/-! ## Reads -/

theorem exec_backend (op : StoreOp) : (s.exec op clk).2.backend = s.backend := by
  have hcommit : ∀ {α : Type} (memory sqlite : Tables → Except PyExc (α × Tables)),
      (s.commit memory sqlite).2.backend = s.backend := by
    intro α memory sqlite
    unfold commit
    split <;> rfl
  cases op <;> exact hcommit _ _

theorem exec_getRun (id : RunId) : s.exec (.getRun id) clk = (.ok (s.run? id), s) := by
  cases s with | mk b t => cases b <;> rfl

theorem exec_listTasks (id : RunId) : s.exec (.listTasks id) clk = (.ok (s.tasksOf id), s) := by
  cases s with | mk b t => cases b <;> rfl

/-- The events of a run, as `list_events` returns them. -/
def eventsOf (id : RunId) : List EventRecord := s.events.filter fun e => e.runId = id

theorem exec_listEvents (id : RunId) :
    s.exec (.listEvents id) clk = (.ok (s.eventsOf id), s) := by
  cases s with | mk b t => cases b <;> rfl

theorem mem_tasksOf {id : RunId} {t : TaskRecord} :
    t ∈ s.tasksOf id ↔ s.task? t.taskId = some t ∧ t.runId = id := by
  simp only [tasksOf, sortByKey, List.mem_insertionSort, List.mem_filter, decide_eq_true_eq,
    Table.mem_rows_iff, task?]

theorem task?_taskId {id : TaskId} {t : TaskRecord} (h : s.task? id = some t) :
    t.taskId = id :=
  (Table.find?_eq_some_iff.mp h).2

theorem run?_runId {id : RunId} {r : RunRecord} (h : s.run? id = some r) : r.runId = id :=
  (Table.find?_eq_some_iff.mp h).2

/-! ## Calls on one task -/

theorem exec_markTaskRunning (id : TaskId) :
    s.exec (.markTaskRunning id) clk =
      if (s.task? id).any (·.status = .leased) then
        (.ok (), s.modifyTask id (·.setStatus .running) (·.setStatus_taskId _))
      else (.error (notRunningReady id), s) := by
  obtain ⟨b, m⟩ := s
  cases hf : m.tasks.find? id with
  | none =>
    have hc := Table.countWhere_eq_zero hf (q := fun t => decide (t.status = .leased))
    simp only [decide_eq_true_eq] at hc
    cases b <;>
      simp only [exec, commit, InMemory.markTaskRunning, Sqlite.markTaskRunning, task?, hf, hc,
        Option.any_none, Bool.false_eq_true, ne_eq, Nat.zero_ne_one, not_false_eq_true, if_true,
        if_false]
  | some t =>
    have hc := Table.countWhere_and_key hf (q := fun t => decide (t.status = .leased))
    simp only [decide_eq_true_eq] at hc
    by_cases hl : t.status = .leased
    · have hu : m.tasks.updateWhere (fun t => t.taskId = id ∧ t.status = .leased)
          ({ · with status := .running }) (fun _ => rfl) =
          m.tasks.modify id ({ · with status := .running }) fun _ => rfl := by
        refine Table.updateWhere_congr _ _ fun a ha => ?_
        by_cases hk : a.taskId = id
        · have : a = t := by
            have := Table.find?_eq_some_iff.mpr ⟨ha, hk⟩
            rw [hf] at this
            exact (Option.some.inj this).symm
          subst this
          simp [hk, hl]
        · simp [hk]
      rw [if_pos hl] at hc
      cases b
      · simp only [exec, commit, InMemory.markTaskRunning, task?, hf, hl, ne_eq,
          not_true_eq_false, if_false, Option.any_some, decide_true, if_true]
        rfl
      · simp only [exec, commit, Sqlite.markTaskRunning, task?, hf, hl, hc, hu, ne_eq,
          not_true_eq_false, if_false, Option.any_some, decide_true, if_true]
        rfl
    · rw [if_neg hl] at hc
      cases b <;>
        simp only [exec, commit, InMemory.markTaskRunning, Sqlite.markTaskRunning, task?, hf, hl,
          hc, ne_eq, not_false_eq_true, if_true, Option.any_some, decide_false,
          Bool.false_eq_true, Nat.zero_ne_one, if_false]

theorem exec_incrementTaskAttempts {id : TaskId} {t : TaskRecord} (h : s.task? id = some t) :
    s.exec (.incrementTaskAttempts id) clk =
      (.ok (t.attemptCount + 1), s.modifyTask id TaskRecord.countAttempt TaskRecord.countAttempt_taskId) := by
  obtain ⟨b, m⟩ := s
  have h' : m.tasks.find? id = some t := h
  cases b
  · simp only [exec, commit, InMemory.incrementTaskAttempts, h']
    rfl
  · have hc := Table.countWhere_key (t := m.tasks) (k := id) (by simp [h'])
    have hm : (m.tasks.updateWhere (fun t => t.taskId = id)
        (fun t => { t with attemptCount := t.attemptCount + 1 }) fun _ => rfl).find? id =
        some t.countAttempt := by
      have := Table.find?_modify_self (t := m.tasks) (k := id) (f := TaskRecord.countAttempt)
        fun _ => rfl
      rw [h'] at this
      exact this
    simp only [exec, commit, Sqlite.incrementTaskAttempts, hc, hm]
    rfl

theorem exec_incrementTaskAttempts_none {id : TaskId} (h : s.task? id = none) :
    ∃ e, s.exec (.incrementTaskAttempts id) clk = (.error e, s) := by
  obtain ⟨b, m⟩ := s
  have h' : m.tasks.find? id = none := h
  cases b
  · exact ⟨.keyError id, by simp only [exec, commit, InMemory.incrementTaskAttempts, h']⟩
  · have hc := Table.countWhere_eq_zero h' (q := fun _ => true)
    simp only [and_true] at hc
    exact ⟨unknownTask id, by
      simp only [exec, commit, Sqlite.incrementTaskAttempts, hc]; rfl⟩

/-- `update_task_status`: the transition is checked first, then the result is encoded,
then the row is written. -/
theorem exec_updateTaskStatus (id : TaskId) (st : TaskStatus) (r : Option Dict)
    (e : Option String) :
    s.exec (.updateTaskStatus id st r e) clk =
      match s.task? id with
      | none => (.error (unknownTask id), s)
      | some t =>
        match ensureTaskTransition t.status st with
        | .error x => (.error x, s)
        | .ok () =>
          match s.keep r with
          | .error x => (.error x, s)
          | .ok r' => (.ok (), s.modifyTask id (·.settle st r' e) (·.settle_taskId _ _ _)) := by
  obtain ⟨b, m⟩ := s
  cases hf : m.tasks.find? id with
  | none =>
    cases b <;>
      simp [exec, commit, InMemory.updateTaskStatus, Sqlite.updateTaskStatus, task?, hf]
  | some t =>
    have hc := Table.countWhere_key (t := m.tasks) (k := id) (by simp [hf])
    cases ht : ensureTaskTransition t.status st with
    | error x =>
      cases b <;>
        simp only [exec, commit, InMemory.updateTaskStatus, Sqlite.updateTaskStatus, task?, hf,
          ht] <;> rfl
    | ok u =>
      cases b
      · simp only [exec, commit, InMemory.updateTaskStatus, task?, hf, ht, keep]
        rfl
      · cases hj : Sqlite.jsonColumn r with
        | error x =>
          simp only [exec, commit, Sqlite.updateTaskStatus, task?, hf, ht, hj, keep]
          rfl
        | ok r' =>
          simp only [exec, commit, Sqlite.updateTaskStatus, task?, hf, ht, hj, hc, keep]
          rfl

theorem keep_none : (s.keep none).isOk = true := by
  unfold keep
  split <;> rfl

/-- Every store keeps a result that can be written. -/
theorem keep_some {s : StateStore} {d : Dict} (h : d.throughJson.isOk = true) :
    ∃ r, s.keep (some d) = .ok r := by
  unfold StateStore.keep
  split
  · exact ⟨_, rfl⟩
  · cases hd : d.throughJson with
    | error e => rw [hd] at h; cases h
    | ok d' => exact ⟨some d', by simp only [Sqlite.jsonColumn, hd]; rfl⟩

/-- What a store refuses to keep is a `TypeError`. -/
theorem keep_error {s : StateStore} {r : Option Dict} {x : PyExc} (h : s.keep r = .error x) :
    x.cls = "TypeError" := by
  unfold keep at h
  split at h
  · cases h
  · cases r with
    | none => cases h
    | some d =>
      cases hd : d.throughJson with
      | ok d' => simp [Sqlite.jsonColumn, hd, bind, Except.bind, pure, Except.pure] at h
      | error y =>
        simp only [Sqlite.jsonColumn, hd, bind, Except.bind] at h
        obtain rfl := Except.error.inj h
        exact Dict.throughJson_error hd

/-! ## Leases -/

theorem nextLeaseable_some {runId : RunId} {now : Instant} {t : TaskRecord}
    (h : s.nextLeaseable runId now = some t) :
    s.task? t.taskId = some t ∧ t.runId = runId ∧ t.leaseable now = true :=
  have hm := s.mem_tasksOf.mp (List.mem_of_find?_eq_some h)
  ⟨hm.1, hm.2, @List.find?_some _ (fun t : TaskRecord => t.leaseable now) _ _ h⟩

theorem nextLeaseable_none {runId : RunId} {now : Instant} :
    s.nextLeaseable runId now = none ↔ ∀ t ∈ s.tasksOf runId, t.leaseable now = false := by
  simp [nextLeaseable, List.find?_eq_none]

theorem leaseable_status {t : TaskRecord} {now : Instant} (h : t.leaseable now = true) :
    t.status = .pending ∨ t.status = .leased := by
  simp only [TaskRecord.leaseable, Bool.or_eq_true, decide_eq_true_eq, Bool.and_eq_true] at h
  exact h.imp_right (·.1)

/-- The audit event of a lease that takes over an expired one. -/
def takeover (t : TaskRecord) (worker : WorkerId) : List EventRecord :=
  if t.status = .pending then [] else [leaseExpiredEvent t (some worker)]

private theorem find_leaseable_eq_head (l : List TaskRecord) (runId : RunId) (now : Instant) :
    (sortByKey (l.filter fun t => t.runId = runId && t.leaseable now)).head? =
      (sortByKey (l.filter fun t => t.runId = runId)).find? (·.leaseable now) := by
  have : Std.Total fun a b : TaskRecord => a.taskKey ≤ b.taskKey :=
    ⟨fun a b => String.le_total a.taskKey b.taskKey⟩
  have : IsTrans TaskRecord fun a b => a.taskKey ≤ b.taskKey :=
    ⟨fun _ _ _ => String.le_trans⟩
  rw [← List.head?_filter, sortByKey, sortByKey, Library.filter_insertionSort,
    List.filter_filter]
  congr 2
  exact List.filter_congr fun t _ => Bool.and_comm _ _

theorem exec_leaseNextPendingTask (runId : RunId) (w : WorkerId) (n : Int) :
    s.exec (.leaseNextPendingTask runId w n) clk =
      match s.nextLeaseable runId clk.now with
      | none => (.ok none, s)
      | some t =>
        (.ok (some (t.leaseTo w (leaseUntil clk.later n))),
          (s.modifyTask t.taskId (·.leaseTo w (leaseUntil clk.later n))
            (·.leaseTo_taskId _ _)).addEvents
            (takeover t w)) := by
  obtain ⟨b, m⟩ := s
  cases hn : nextLeaseable ⟨b, m⟩ runId clk.now with
  | none =>
    have hn' : (sortByKey (m.tasks.rows.filter fun t => t.runId = runId)).find?
        (·.leaseable clk.now) = none := hn
    cases b
    · simp only [exec, commit, InMemory.leaseNextPendingTask, hn']
    · simp only [exec, commit, Sqlite.leaseNextPendingTask, find_leaseable_eq_head, hn']
  | some t =>
    have hn' : (sortByKey (m.tasks.rows.filter fun t => t.runId = runId)).find?
        (·.leaseable clk.now) = some t := hn
    obtain ⟨hf, -, hl⟩ := nextLeaseable_some _ hn
    have hc := Table.countWhere_key (t := m.tasks) (k := t.taskId)
      (by rw [show m.tasks.find? t.taskId = some t from hf]; simp)
    have hs : ∀ es : List EventRecord,
        (if t.status = .pending then m.events else m.events ++ es) =
          m.events ++ if t.status = .pending then [] else es := by
      intro es; split <;> simp
    have hs' : ∀ es : List EventRecord,
        (if t.status = .leased then m.events ++ es else m.events) =
          m.events ++ if t.status = .pending then [] else es := by
      intro es
      rcases leaseable_status hl with h | h <;> simp [h]
    cases b
    · simp only [exec, commit, InMemory.leaseNextPendingTask, hn', hs]
      rfl
    · simp only [exec, commit, Sqlite.leaseNextPendingTask, find_leaseable_eq_head, hn', hc, hs']
      rfl

/-- The tasks of a run whose lease has expired. -/
def expiredLeases (runId : RunId) (now : Instant) : List TaskRecord :=
  s.tables.tasks.rows.filter (InMemory.expired runId now)

theorem exec_requeueExpiredLeases (runId : RunId) :
    s.exec (.requeueExpiredLeases runId) clk =
      (.ok (s.expiredLeases runId clk.now).length,
        (s.updateTasks (InMemory.expired runId clk.now) TaskRecord.release
          TaskRecord.release_taskId).addEvents
          ((s.expiredLeases runId clk.now).map (leaseExpiredEvent · none))) := by
  obtain ⟨b, m⟩ := s
  cases b
  · rfl
  · have he : (fun t : TaskRecord => t.runId = runId && t.status = .leased &&
        t.leasedUntil.any fun u => u < clk.now) = InMemory.expired runId clk.now := rfl
    simp only [exec, commit, Sqlite.requeueExpiredLeases, he]
    by_cases h : (m.tasks.rows.filter (InMemory.expired runId clk.now)).isEmpty = true
    · have hnil := List.isEmpty_iff.mp h
      have hno : ∀ a ∈ m.tasks.rows, InMemory.expired runId clk.now a = false := by
        simpa [List.filter_eq_nil_iff] using hnil
      simp only [expiredLeases, hnil, updateTasks, addEvents,
        Table.updateWhere_eq_self (t := m.tasks) (f := TaskRecord.release) (fun _ => rfl) hno]
      simp
    · simp only [if_neg h]
      rfl

/-- The task of the run that a worker holds in flight, as `reclaim_dead_worker` finds it. -/
def heldBy (runId : RunId) (w : WorkerId) : Option TaskRecord :=
  s.tables.tasks.rows.find? (InMemory.heldBy runId w)

theorem heldBy_some {runId : RunId} {w : WorkerId} {t : TaskRecord}
    (h : s.heldBy runId w = some t) :
    s.task? t.taskId = some t ∧ t.runId = runId ∧ t.leaseOwner = some w ∧
      (t.status = .leased ∨ t.status = .running) := by
  have hm := List.mem_of_find?_eq_some h
  have hp := List.find?_some h
  simp only [InMemory.heldBy, Bool.and_eq_true, decide_eq_true_eq, List.mem_cons,
    List.not_mem_nil, or_false] at hp
  exact ⟨Table.find?_eq_some_iff.mpr ⟨hm, rfl⟩, hp.1.1, hp.1.2, hp.2⟩

/-- How often the task has been reclaimed from a dead worker. -/
def priorReclaims (id : TaskId) : Nat :=
  (s.events.filter fun e => e.taskId = some id ∧ e.kind = "lease_reclaimed").length

theorem exec_reclaimDeadWorker (runId : RunId) (w : WorkerId) (n : Int) :
    s.exec (.reclaimDeadWorker runId w n) clk =
      match s.heldBy runId w with
      | none => (.ok .none, s)
      | some t =>
        if (s.priorReclaims t.taskId : Int) ≥ n then
          (.ok .failed,
            (s.modifyTask t.taskId (·.abandon w (s.priorReclaims t.taskId))
              (·.abandon_taskId _ _)).addEvents
              [reclaimEvent runId t.taskId "task_abandoned" w (s.priorReclaims t.taskId)])
        else
          (.ok .requeued,
            (s.modifyTask t.taskId TaskRecord.release
          TaskRecord.release_taskId).addEvents
              [reclaimEvent runId t.taskId "lease_reclaimed" w (s.priorReclaims t.taskId)]) := by
  obtain ⟨b, m⟩ := s
  have hp : (fun t : TaskRecord => decide (t.runId = runId ∧ t.leaseOwner = some w ∧
      t.status ∈ [.leased, .running])) = InMemory.heldBy runId w := by
    funext t; simp [InMemory.heldBy, Bool.and_assoc]
  have hq : (m.tasks.rows.filter (InMemory.heldBy runId w)).head? =
      m.tasks.rows.find? (InMemory.heldBy runId w) := List.head?_filter
  cases hf : m.tasks.rows.find? (InMemory.heldBy runId w) with
  | none =>
    cases b <;>
      simp only [exec, commit, InMemory.reclaimDeadWorker, Sqlite.reclaimDeadWorker, hp, hq, hf,
        heldBy]
  | some t =>
    have hh : heldBy ⟨b, m⟩ runId w = some t := hf
    simp only [hh]
    by_cases hn : (priorReclaims ⟨b, m⟩ t.taskId : Int) ≥ n
    · refine Eq.trans ?_ (if_pos hn).symm
      have hn' : ((m.events.filter fun e =>
        e.taskId = some t.taskId ∧ e.kind = "lease_reclaimed").length : Int) ≥ n := hn
      cases b <;>
        simp only [exec, commit, InMemory.reclaimDeadWorker, Sqlite.reclaimDeadWorker, hp, hq, hf,
          if_pos hn'] <;> rfl
    · refine Eq.trans ?_ (if_neg hn).symm
      have hn' : ¬ ((m.events.filter fun e =>
        e.taskId = some t.taskId ∧ e.kind = "lease_reclaimed").length : Int) ≥ n := hn
      cases b <;>
        simp only [exec, commit, InMemory.reclaimDeadWorker, Sqlite.reclaimDeadWorker, hp, hq, hf,
          if_neg hn'] <;> rfl

/-! ## Calls on a run, events and artifacts -/

theorem exec_updateRunStatus {id : RunId} {r : RunRecord} (h : s.run? id = some r)
    (st : RunStatus) :
    s.exec (.updateRunStatus id st) clk =
      (.ok (), s.modifyRun id (·.setStatus st) (·.setStatus_runId _)) := by
  obtain ⟨b, m⟩ := s
  have h' : m.runs.find? id = some r := h
  have hc := Table.countWhere_key (t := m.runs) (k := id) (by simp [h'])
  cases b
  · simp only [exec, commit, InMemory.updateRunStatus, h']
    rfl
  · simp only [exec, commit, Sqlite.updateRunStatus, Sqlite.updateRunWhere, hc]
    rfl

theorem exec_updateRunFinishedAt {id : RunId} {r : RunRecord} (h : s.run? id = some r)
    (t : Instant) :
    s.exec (.updateRunFinishedAt id t) clk =
      (.ok (), s.modifyRun id (·.finish t) (·.finish_runId _)) := by
  obtain ⟨b, m⟩ := s
  have h' : m.runs.find? id = some r := h
  have hc := Table.countWhere_key (t := m.runs) (k := id) (by simp [h'])
  cases b
  · simp only [exec, commit, InMemory.updateRunFinishedAt, h']
    rfl
  · simp only [exec, commit, Sqlite.updateRunFinishedAt, Sqlite.updateRunWhere, hc]
    rfl

private theorem exec_updateRun_none {id : RunId} (h : s.run? id = none) :
    (∀ st, ∃ e, s.exec (.updateRunStatus id st) clk = (.error e, s)) ∧
      ∀ t, ∃ e, s.exec (.updateRunFinishedAt id t) clk = (.error e, s) := by
  obtain ⟨b, m⟩ := s
  have h' : m.runs.find? id = none := h
  have hc := Table.countWhere_eq_zero h' (q := fun _ => true)
  simp only [and_true] at hc
  cases b
  · exact ⟨fun st => ⟨.keyError id, by simp only [exec, commit, InMemory.updateRunStatus, h']⟩,
      fun t => ⟨unknownRun id, by simp only [exec, commit, InMemory.updateRunFinishedAt, h']⟩⟩
  · exact ⟨fun st => ⟨unknownRun id, by
        simp only [exec, commit, Sqlite.updateRunStatus, Sqlite.updateRunWhere, hc]; rfl⟩,
      fun t => ⟨unknownRun id, by
        simp only [exec, commit, Sqlite.updateRunFinishedAt, Sqlite.updateRunWhere, hc]; rfl⟩⟩

theorem exec_updateRunStatus_none {id : RunId} (h : s.run? id = none) (st : RunStatus) :
    ∃ e, s.exec (.updateRunStatus id st) clk = (.error e, s) :=
  (s.exec_updateRun_none clk h).1 st

theorem exec_updateRunFinishedAt_none {id : RunId} (h : s.run? id = none) (t : Instant) :
    ∃ e, s.exec (.updateRunFinishedAt id t) clk = (.error e, s) :=
  (s.exec_updateRun_none clk h).2 t

/-- What the store keeps of an event it is given, or why it refuses it. -/
def keepEvent (e : EventRecord) : Except PyExc EventRecord :=
  match s.backend with
  | .memory => .ok e
  | .sqlite =>
    match e.payload.throughJson with
    | .error x => .error x
    | .ok payload =>
      if s.tables.runs.find? e.runId = none then .error Sqlite.foreignKeyFailed
      else if e.taskId.any (fun id => s.tables.tasks.find? id = none) then
        .error Sqlite.foreignKeyFailed
      else .ok { e with payload }

theorem exec_appendEvent (e : EventRecord) :
    s.exec (.appendEvent e) clk =
      match s.keepEvent e with
      | .error x => (.error x, s)
      | .ok e' => (.ok (), s.addEvents [e']) := by
  obtain ⟨b, m⟩ := s
  cases b
  · rfl
  · simp only [exec, commit, Sqlite.appendEvent, keepEvent]
    cases e.payload.throughJson with
    | error x => rfl
    | ok payload =>
      simp only [bind, Except.bind]
      by_cases hr : m.runs.find? e.runId = none
      · simp only [if_pos hr]
        rfl
      · by_cases ht : e.taskId.any (fun id => decide (m.tasks.find? id = none)) = true
        · simp only [if_neg hr, if_pos ht]
          rfl
        · simp only [if_neg hr, if_neg ht]
          rfl

/-- An event that is kept is kept under its own run, task and kind. -/
theorem keepEvent_ok {e e' : EventRecord} (h : s.keepEvent e = .ok e') :
    e'.runId = e.runId ∧ e'.taskId = e.taskId ∧ e'.kind = e.kind := by
  unfold keepEvent at h
  split at h
  · obtain rfl := Except.ok.inj h
    exact ⟨rfl, rfl, rfl⟩
  · split at h
    · cases h
    · split at h
      · cases h
      · split at h
        · cases h
        · obtain rfl := Except.ok.inj h
          exact ⟨rfl, rfl, rfl⟩

/-- An event of a run and task the store has, with a payload JSON can encode, is kept. -/
theorem keepEvent_of {e : EventRecord} (hp : e.payload.throughJson.isOk = true)
    (hr : s.run? e.runId ≠ none) (ht : ∀ id, e.taskId = some id → s.task? id ≠ none) :
    ∃ e', s.keepEvent e = .ok e' := by
  unfold keepEvent
  split
  · exact ⟨e, rfl⟩
  · cases hj : e.payload.throughJson with
    | error x => rw [hj] at hp; cases hp
    | ok payload =>
      have hn : ¬ e.taskId.any (fun id => s.tables.tasks.find? id = none) = true := by
        simp only [Option.any_eq_true, not_exists, not_and, decide_eq_true_eq]
        exact ht
      have hr' : ¬ s.tables.runs.find? e.runId = none := hr
      refine ⟨{ e with payload }, ?_⟩
      simp only [if_neg hr', if_neg hn]

/-- An entry that JSON gives back as it was is kept in the payload of an event. -/
theorem keepEvent_get? {e e' : EventRecord} {k : String} {v : PyVal}
    {j : Json} (h : s.keepEvent e = .ok e') (hk : e.payload.stringKeys = true)
    (hv : e.payload.get? k = some v) (hj : v.dumps = .ok j) (hl : j.loads = v) :
    e'.payload.get? k = some v := by
  unfold keepEvent at h
  split at h
  · obtain rfl := Except.ok.inj h
    exact hv
  · cases hjson : e.payload.throughJson with
    | error x => rw [hjson] at h; cases h
    | ok payload =>
      rw [hjson] at h
      dsimp only at h
      split at h
      · cases h
      split at h
      · cases h
      obtain rfl := Except.ok.inj h
      have hget := Dict.throughJson_get? hk hjson k
      rw [hv] at hget
      show payload.get? k = some v
      cases hp : payload.get? k with
      | none => rw [hp] at hget; cases hget
      | some v' =>
        rw [hp] at hget
        cases hget with
        | some hread =>
          obtain ⟨j', hj', rfl⟩ := hread
          obtain rfl := Except.ok.inj (hj.symm.trans hj')
          rw [hl]

/-- Whether the store takes an artifact: SQLite wants a new id and a known run and task. -/
def acceptsArtifact (a : ArtifactRecord) : Bool :=
  match s.backend with
  | .memory => true
  | .sqlite => a.artifactId ∉ s.tables.artifacts.map (·.artifactId) &&
      (s.run? a.runId).isSome && a.taskId.all fun id => (s.task? id).isSome

theorem exec_createArtifact_of (a : ArtifactRecord) :
    if s.acceptsArtifact a then s.exec (.createArtifact a) clk = (.ok (), s.addArtifact a)
    else ∃ e, s.exec (.createArtifact a) clk = (.error e, s) := by
  obtain ⟨b, m⟩ := s
  cases b
  · rfl
  · simp only [exec, commit, Sqlite.createArtifact, acceptsArtifact, run?, task?]
    by_cases hu : a.artifactId ∈ m.artifacts.map (·.artifactId)
    · simp only [hu, not_true_eq_false, decide_false, Bool.false_and, Bool.false_eq_true,
        if_false, if_true]
      exact ⟨_, rfl⟩
    cases hr : m.runs.find? a.runId with
    | none =>
      simp only [hu, if_false, if_true, Option.isSome_none, Bool.and_false, Bool.false_and,
        Bool.false_eq_true]
      exact ⟨_, rfl⟩
    | some r =>
      cases ha : a.taskId with
      | none => simp [hu]; rfl
      | some id =>
        cases ht : m.tasks.find? id with
        | none => simp [hu, ht]
        | some t => simp [hu, ht]; rfl

theorem exec_createArtifact (a : ArtifactRecord) :
    s.exec (.createArtifact a) clk = (.ok (), s.addArtifact a) ∨
      ∃ e, s.exec (.createArtifact a) clk = (.error e, s) := by
  have h := s.exec_createArtifact_of clk a
  split at h
  · exact .inl h
  · exact .inr h

/-! ## Creation -/

def addRun (r : RunRecord) (h : r.runId ∉ s.tables.runs.rows.map (·.runId)) : StateStore :=
  { s with tables := { s.tables with runs := s.tables.runs.insert r h } }

def addTask (t : TaskRecord) (h : t.taskId ∉ s.tables.tasks.rows.map (·.taskId)) : StateStore :=
  { s with tables := { s.tables with tasks := s.tables.tasks.insert t h } }

@[simp] theorem addTask_run? {t : TaskRecord} {h : t.taskId ∉ s.tables.tasks.rows.map (·.taskId)}
    {id : RunId} : (s.addTask t h).run? id = s.run? id := rfl

theorem addTask_task? {t : TaskRecord} {h : t.taskId ∉ s.tables.tasks.rows.map (·.taskId)}
    {id : TaskId} :
    (s.addTask t h).task? id = if id = t.taskId then some t else s.task? id :=
  Table.find?_insert h

theorem addRun_run? {r : RunRecord} {h : r.runId ∉ s.tables.runs.rows.map (·.runId)}
    {id : RunId} : (s.addRun r h).run? id = if id = r.runId then some r else s.run? id :=
  Table.find?_insert h

/-- A new task joins the tasks of its run. -/
theorem tasksOf_addTask {t : TaskRecord} {h : t.taskId ∉ s.tables.tasks.rows.map (·.taskId)} :
    ((s.addTask t h).tasksOf t.runId).Perm (t :: s.tasksOf t.runId) := by
  refine (List.perm_insertionSort _ _).trans ?_
  have : (s.addTask t h).tables.tasks.rows.filter (fun t' => decide (t'.runId = t.runId)) =
      s.tables.tasks.rows.filter (fun t' => decide (t'.runId = t.runId)) ++ [t] := by
    simp [addTask, Table.insert, List.filter_append]
  rw [this]
  exact (List.perm_append_singleton t _).trans (.cons t (List.perm_insertionSort _ _).symm)

theorem createRun_cases (r : RunRecord) :
    (∃ r' h, s.exec (.createRun r) clk = (.ok (), s.addRun r' h) ∧ r'.runId = r.runId ∧
      r'.status = r.status ∧ r'.seed = r.seed ∧ r'.finishedAt = r.finishedAt ∧
      r'.configHash = r.configHash) ∨
    ∃ e, s.exec (.createRun r) clk = (.error e, s) := by
  obtain ⟨b, m⟩ := s
  cases b
  · simp only [exec, commit, InMemory.createRun]
    by_cases h : r.runId ∈ m.runs.rows.map (·.runId)
    · exact .inr ⟨_, by rw [dif_pos h]⟩
    · exact .inl ⟨r, h, by rw [dif_neg h]; rfl, rfl, rfl, rfl, rfl, rfl⟩
  · simp only [exec, commit, Sqlite.createRun, bind, Except.bind]
    cases r.config.throughJson with
    | error e => exact .inr ⟨e, rfl⟩
    | ok config =>
    cases r.envSnapshot.throughJson with
    | error e => exact .inr ⟨e, rfl⟩
    | ok envSnapshot =>
    cases r.datasetHashes.throughJson with
    | error e => exact .inr ⟨e, rfl⟩
    | ok datasetHashes =>
    cases hs : Sqlite.integerColumn r.seed with
    | error e => exact .inr ⟨e, rfl⟩
    | ok seed =>
      have hseed : seed = r.seed := by
        cases hr : r.seed with
        | none => rw [hr] at hs; exact (Except.ok.inj hs).symm
        | some i =>
          rw [hr, Sqlite.integerColumn] at hs
          split at hs
          · exact (Except.ok.inj hs).symm
          · cases hs
      by_cases h : r.runId ∈ m.runs.rows.map (·.runId)
      · exact .inr ⟨_, by simp only [dif_pos h]; rfl⟩
      · exact .inl ⟨{ r with config, envSnapshot, datasetHashes, seed }, h,
          by simp only [dif_neg h]; rfl, rfl, rfl, hseed, rfl, rfl⟩

/-- What `create_run` asks of a record besides a new id: in SQLite, encodable columns and a
seed that fits 64 bits. -/
def acceptsRun (r : RunRecord) : Bool :=
  match s.backend with
  | .memory => true
  | .sqlite => r.config.throughJson.isOk && r.envSnapshot.throughJson.isOk &&
      r.datasetHashes.throughJson.isOk && (Sqlite.integerColumn r.seed).isOk

/-- `create_run` under a new id. -/
theorem createRun_isOk {r : RunRecord} (hid : s.run? r.runId = none) :
    (s.exec (.createRun r) clk).1.isOk = s.acceptsRun r := by
  obtain ⟨b, m⟩ := s
  have hnew : ¬ r.runId ∈ m.runs.rows.map (·.runId) := by
    intro hm
    obtain ⟨r', hr', he⟩ := List.mem_map.mp hm
    exact Table.find?_eq_none_iff.mp hid r' hr' he
  cases b
  · simp only [exec, commit, InMemory.createRun, dif_neg hnew]
    rfl
  · simp only [exec, commit, Sqlite.createRun, acceptsRun, bind, Except.bind]
    cases r.config.throughJson with
    | error e => rfl
    | ok config =>
    cases r.envSnapshot.throughJson with
    | error e => rfl
    | ok envSnapshot =>
    cases r.datasetHashes.throughJson with
    | error e => rfl
    | ok datasetHashes =>
    cases Sqlite.integerColumn r.seed with
    | error e => rfl
    | ok seed =>
      simp only [dif_neg hnew]
      rfl

/-- What `create_task` keeps of a task: everything but, in SQLite, the exact objects of its
payload and result. -/
theorem createTask_cases (t : TaskRecord) :
    (∃ payload result h, s.exec (.createTask t) clk =
      (.ok (), s.addTask { t with payload, result } h)) ∨
    ∃ e, s.exec (.createTask t) clk = (.error e, s) := by
  obtain ⟨b, m⟩ := s
  cases b
  · simp only [exec, commit, InMemory.createTask]
    by_cases h : t.taskId ∈ m.tasks.rows.map (·.taskId)
    · exact .inr ⟨_, by rw [dif_pos h]⟩
    · exact .inl ⟨t.payload, t.result, h, by rw [dif_neg h]; rfl⟩
  · simp only [exec, commit, Sqlite.createTask, bind, Except.bind]
    cases t.payload.throughJson with
    | error e => exact .inr ⟨e, rfl⟩
    | ok payload =>
    cases Sqlite.jsonColumn t.result with
    | error e => exact .inr ⟨e, rfl⟩
    | ok result =>
      by_cases h : t.taskId ∈ m.tasks.rows.map (·.taskId)
      · exact .inr ⟨_, by simp only [dif_pos h]; rfl⟩
      · by_cases hk : m.tasks.rows.any (fun t' => t'.runId = t.runId ∧ t'.taskKey = t.taskKey)
        · exact .inr ⟨_, by simp only [dif_neg h, if_pos hk]; rfl⟩
        · by_cases hr : m.runs.find? t.runId = none
          · exact .inr ⟨_, by simp only [dif_neg h, if_neg hk, if_pos hr]; rfl⟩
          · exact .inl ⟨payload, result, h, by
              simp only [dif_neg h, if_neg hk, if_neg hr]; rfl⟩

variable {s} in
/-- `create_task` of a new id with a new key in a known run. -/
theorem createTask_ok {t : TaskRecord} (hid : s.task? t.taskId = none)
    (hp : t.payload.throughJson.isOk = true) (hres : t.result = none)
    (hrun : s.run? t.runId ≠ none)
    (hkey : t.taskKey ∉ (s.tasksOf t.runId).map (·.taskKey)) :
    (s.exec (.createTask t) clk).1 = .ok () := by
  obtain ⟨b, m⟩ := s
  have hnew : ¬ t.taskId ∈ m.tasks.rows.map (·.taskId) := by
    intro hm
    obtain ⟨t', ht', he⟩ := List.mem_map.mp hm
    exact Table.find?_eq_none_iff.mp hid t' ht' he
  cases b
  · simp only [exec, commit, InMemory.createTask, dif_neg hnew]
  · have hfree : ¬ m.tasks.rows.any
        (fun t' => t'.runId = t.runId ∧ t'.taskKey = t.taskKey) = true := by
      simp only [List.any_eq_true, decide_eq_true_eq, not_exists, not_and]
      intro t' ht' hr hk
      exact hkey (List.mem_map.mpr
        ⟨t', (mem_tasksOf _).mpr ⟨Table.mem_rows_iff.mp ht', hr⟩, hk⟩)
    have hknown : ¬ m.runs.find? t.runId = none := hrun
    cases hj : t.payload.throughJson with
    | error e => rw [hj] at hp; cases hp
    | ok payload =>
      simp only [exec, commit, Sqlite.createTask, hj, hres, Sqlite.jsonColumn, bind, Except.bind,
        dif_neg hnew, if_neg hfree, if_neg hknown]
      rfl

/-! ## What one call can do

Each statement lists everything a call can do to the tasks, guards included. -/

theorem lease_cases (runId : RunId) (w : WorkerId) (n : Int) :
    (∃ t es, s.task? t.taskId = some t ∧ t.runId = runId ∧ t.leaseable clk.now = true ∧
      s.exec (.leaseNextPendingTask runId w n) clk =
        (.ok (some (t.leaseTo w (leaseUntil clk.later n))),
          (s.modifyTask t.taskId (·.leaseTo w (leaseUntil clk.later n))
            (·.leaseTo_taskId _ _)).addEvents
            es)) ∨
    ((∀ t ∈ s.tasksOf runId, t.leaseable clk.now = false) ∧
      s.exec (.leaseNextPendingTask runId w n) clk = (.ok none, s)) := by
  rw [exec_leaseNextPendingTask]
  cases hn : s.nextLeaseable runId clk.now with
  | none => exact .inr ⟨s.nextLeaseable_none.mp hn, rfl⟩
  | some t =>
    obtain ⟨hf, hr, hl⟩ := s.nextLeaseable_some hn
    exact .inl ⟨t, _, hf, hr, hl, rfl⟩

theorem mark_cases (id : TaskId) :
    (∃ t, s.task? id = some t ∧ t.status = .leased ∧
      s.exec (.markTaskRunning id) clk =
        (.ok (), s.modifyTask id (·.setStatus .running) (·.setStatus_taskId _))) ∨
    ((∀ t, s.task? id = some t → t.status ≠ .leased) ∧
      s.exec (.markTaskRunning id) clk = (.error (notRunningReady id), s)) := by
  rw [exec_markTaskRunning]
  cases hf : s.task? id with
  | none => exact .inr ⟨fun t ht => by simp at ht, rfl⟩
  | some t =>
    by_cases hl : t.status = .leased
    · exact .inl ⟨t, rfl, hl, by simp only [Option.any_some, hl, decide_true, if_true]⟩
    · refine .inr ⟨fun t' ht => by obtain rfl := Option.some.inj ht; exact hl, ?_⟩
      simp only [Option.any_some, hl, decide_false, Bool.false_eq_true, if_false]

theorem increment_cases (id : TaskId) :
    (∃ t, s.task? id = some t ∧ s.exec (.incrementTaskAttempts id) clk =
      (.ok (t.attemptCount + 1), s.modifyTask id TaskRecord.countAttempt TaskRecord.countAttempt_taskId)) ∨
    ∃ e, s.exec (.incrementTaskAttempts id) clk = (.error e, s) := by
  cases hf : s.task? id with
  | none => exact .inr (s.exec_incrementTaskAttempts_none clk hf)
  | some t => exact .inl ⟨t, rfl, s.exec_incrementTaskAttempts clk hf⟩

theorem ensureTaskTransition_cases (current target : TaskStatus) :
    (target ∈ allowedTaskTransitions current ∧ ensureTaskTransition current target = .ok ()) ∨
    (target ∉ allowedTaskTransitions current ∧
      ensureTaskTransition current target = .error (invalidTaskTransition current target)) := by
  unfold ensureTaskTransition
  by_cases h : target ∈ allowedTaskTransitions current
  · exact .inl ⟨h, if_pos h⟩
  · exact .inr ⟨h, if_neg h⟩

theorem update_cases (id : TaskId) (st : TaskStatus) (r : Option Dict) (e : Option String) :
    (∃ t r', s.task? id = some t ∧ st ∈ allowedTaskTransitions t.status ∧ s.keep r = .ok r' ∧
      s.exec (.updateTaskStatus id st r e) clk =
        (.ok (), s.modifyTask id (·.settle st r' e) (·.settle_taskId _ _ _))) ∨
    ∃ x, s.exec (.updateTaskStatus id st r e) clk = (.error x, s) ∧
      (s.task? id = none ∧ x = unknownTask id ∨
        ∃ t, s.task? id = some t ∧
          (st ∉ allowedTaskTransitions t.status ∧ x = invalidTaskTransition t.status st ∨
            st ∈ allowedTaskTransitions t.status ∧ s.keep r = .error x)) := by
  rw [exec_updateTaskStatus]
  cases hf : s.task? id with
  | none => exact .inr ⟨_, rfl, .inl ⟨rfl, rfl⟩⟩
  | some t =>
    rcases ensureTaskTransition_cases t.status st with ⟨ha, he⟩ | ⟨ha, he⟩
    · simp only [he]
      cases hk : s.keep r with
      | error x => exact .inr ⟨x, rfl, .inr ⟨t, rfl, .inr ⟨ha, rfl⟩⟩⟩
      | ok r' => exact .inl ⟨t, r', rfl, ha, rfl, rfl⟩
    · simp only [he]
      exact .inr ⟨_, rfl, .inr ⟨t, rfl, .inl ⟨ha, rfl⟩⟩⟩

theorem reclaim_cases (runId : RunId) (w : WorkerId) (n : Int) :
    (∃ t f es, s.task? t.taskId = some t ∧ t.runId = runId ∧ t.leaseOwner = some w ∧
      (t.status = .leased ∨ t.status = .running) ∧
      ((f = TaskRecord.release ∧ (s.priorReclaims t.taskId : Int) < n ∧
          (s.exec (.reclaimDeadWorker runId w n) clk).1 = .ok .requeued ∧
          es = [reclaimEvent runId t.taskId "lease_reclaimed" w (s.priorReclaims t.taskId)]) ∨
        (f = TaskRecord.abandon w (s.priorReclaims t.taskId) ∧
          n ≤ (s.priorReclaims t.taskId : Int) ∧
          (s.exec (.reclaimDeadWorker runId w n) clk).1 = .ok .failed ∧
          es = [reclaimEvent runId t.taskId "task_abandoned" w (s.priorReclaims t.taskId)])) ∧
      ∃ hf : ∀ t, (f t).taskId = t.taskId,
        (s.exec (.reclaimDeadWorker runId w n) clk).2 =
          (s.modifyTask t.taskId f hf).addEvents es) ∨
    (s.heldBy runId w = none ∧
      s.exec (.reclaimDeadWorker runId w n) clk = (.ok .none, s)) := by
  rw [exec_reclaimDeadWorker]
  cases hh : s.heldBy runId w with
  | none => exact .inr ⟨rfl, rfl⟩
  | some t =>
    obtain ⟨hf, hr, ho, hs⟩ := s.heldBy_some hh
    refine .inl ⟨t, ?_⟩
    by_cases hn : (s.priorReclaims t.taskId : Int) ≥ n
    · exact ⟨_, _, hf, hr, ho, hs, .inr ⟨rfl, hn, by simp only [if_pos hn], rfl⟩, fun _ => rfl,
        by simp only [if_pos hn]⟩
    · exact ⟨_, _, hf, hr, ho, hs, .inl ⟨rfl, by omega, by simp only [if_neg hn], rfl⟩,
        fun _ => rfl, by simp only [if_neg hn]⟩

/-- What a call may add to the event log. -/
def Logs : StoreOp → EventRecord → Prop
  | .leaseNextPendingTask runId _ _, e | .requeueExpiredLeases runId, e =>
    e.runId = runId ∧ e.kind = "lease_expired"
  | .reclaimDeadWorker runId _ _, e =>
    e.runId = runId ∧ (e.kind = "lease_reclaimed" ∨ e.kind = "task_abandoned")
  | .appendEvent e', e => e.runId = e'.runId ∧ e.taskId = e'.taskId ∧ e.kind = e'.kind
  | _, _ => False

/-- **Events are only ever appended**, and each call appends its own kind. -/
theorem exec_logs (op : StoreOp) :
    ∃ es, (s.exec op clk).2.events = s.events ++ es ∧ ∀ e ∈ es, Logs op e := by
  have hsame : (s.exec op clk).2.events = s.events →
      ∃ es, (s.exec op clk).2.events = s.events ++ es ∧ ∀ e ∈ es, Logs op e :=
    fun h => ⟨[], by rw [h, List.append_nil], by simp⟩
  cases op with
  | createRun r =>
    rcases s.createRun_cases clk r with ⟨r', h, hx, -⟩ | ⟨e, hx⟩ <;> exact hsame (congrArg (·.2.events) hx)
  | updateRunStatus id st =>
    cases hr : s.run? id with
    | some r => exact hsame (by rw [s.exec_updateRunStatus clk hr]; rfl)
    | none =>
      obtain ⟨x, hx⟩ := s.exec_updateRunStatus_none clk hr st
      exact hsame (congrArg (·.2.events) hx)
  | updateRunFinishedAt id t =>
    cases hr : s.run? id with
    | some r => exact hsame (by rw [s.exec_updateRunFinishedAt clk hr]; rfl)
    | none =>
      obtain ⟨x, hx⟩ := s.exec_updateRunFinishedAt_none clk hr t
      exact hsame (congrArg (·.2.events) hx)
  | getRun id => exact hsame (by rw [s.exec_getRun])
  | listRuns => exact hsame (by cases s with | mk b t => cases b <;> rfl)
  | listTasks id => exact hsame (by rw [s.exec_listTasks])
  | listArtifacts id => exact hsame (by cases s with | mk b t => cases b <;> rfl)
  | listEvents id => exact hsame (by rw [s.exec_listEvents])
  | createTask t =>
    rcases s.createTask_cases clk t with ⟨p, r, h, hx⟩ | ⟨e, hx⟩ <;> exact hsame (congrArg (·.2.events) hx)
  | updateTaskStatus id st r e =>
    rcases s.update_cases clk id st r e with ⟨t, r', -, -, -, hx⟩ | ⟨x, hx, -⟩ <;>
      exact hsame (congrArg (·.2.events) hx)
  | leaseNextPendingTask runId w n =>
    rw [s.exec_leaseNextPendingTask]
    cases hn : s.nextLeaseable runId clk.now with
    | none => exact ⟨[], (List.append_nil _).symm, by simp⟩
    | some t =>
      refine ⟨takeover t w, rfl, fun e he => ?_⟩
      unfold takeover at he
      split at he
      · cases he
      · obtain rfl := List.mem_singleton.mp he
        exact ⟨(s.nextLeaseable_some hn).2.1, rfl⟩
  | markTaskRunning id =>
    rcases s.mark_cases clk id with ⟨t, -, -, hx⟩ | ⟨-, hx⟩ <;> exact hsame (congrArg (·.2.events) hx)
  | incrementTaskAttempts id =>
    rcases s.increment_cases clk id with ⟨t, -, hx⟩ | ⟨x, hx⟩ <;> exact hsame (congrArg (·.2.events) hx)
  | requeueExpiredLeases runId =>
    refine ⟨_, by rw [s.exec_requeueExpiredLeases]; rfl, fun e he => ?_⟩
    obtain ⟨t, ht, rfl⟩ := List.mem_map.mp he
    have hexp := (List.mem_filter.mp ht).2
    simp only [InMemory.expired, Bool.and_eq_true, decide_eq_true_eq] at hexp
    exact ⟨hexp.1.1, rfl⟩
  | reclaimDeadWorker runId w n =>
    rcases s.reclaim_cases clk runId w n with ⟨t, f, es, -, -, -, -, hes, hid, hx⟩ | ⟨-, hx⟩
    · refine ⟨es, by rw [hx]; rfl, fun e he => ?_⟩
      rcases hes with ⟨-, -, -, rfl⟩ | ⟨-, -, -, rfl⟩ <;> obtain rfl := List.mem_singleton.mp he
      · exact ⟨rfl, .inl rfl⟩
      · exact ⟨rfl, .inr rfl⟩
    · exact hsame (congrArg (·.2.events) hx)
  | appendEvent e =>
    rw [s.exec_appendEvent]
    cases hk : s.keepEvent e with
    | error x => exact ⟨[], (List.append_nil _).symm, by simp⟩
    | ok e' =>
      refine ⟨[e'], rfl, fun e'' he => ?_⟩
      obtain rfl := List.mem_singleton.mp he
      exact s.keepEvent_ok hk
  | createArtifact a =>
    rcases s.exec_createArtifact clk a with hx | ⟨e, hx⟩ <;> exact hsame (congrArg (·.2.events) hx)

theorem exec_events (op : StoreOp) : ∃ es, (s.exec op clk).2.events = s.events ++ es := by
  obtain ⟨es, h, -⟩ := s.exec_logs clk op
  exact ⟨es, h⟩

/-- The row of a run on record after a call. -/
def runAfter (id : RunId) (r : RunRecord) : StoreOp → RunRecord
  | .updateRunStatus id' st => if id' = id then r.setStatus st else r
  | .updateRunFinishedAt id' t => if id' = id then r.finish t else r
  | _ => r

/-- **A run on record stays on record**, and two calls only change it. -/
theorem exec_run? {id : RunId} {r : RunRecord} (h : s.run? id = some r) (op : StoreOp) :
    (s.exec op clk).2.run? id = some (runAfter id r op) := by
  cases op with
  | createRun r' =>
    rcases s.createRun_cases clk r' with ⟨r'', hnew, hx, -⟩ | ⟨e, hx⟩ <;> rw [hx]
    · have hne : id ≠ r''.runId := by
        rintro rfl
        exact hnew (List.mem_map.mpr ⟨r, (Table.find?_eq_some_iff.mp h).1, s.run?_runId h⟩)
      rw [addRun_run?, if_neg hne]
      exact h
    · exact h
  | updateRunStatus id' st =>
    cases hr : s.run? id' with
    | some r' =>
      rw [s.exec_updateRunStatus clk hr, modifyRun_run?, runAfter]
      by_cases hid : id = id'
      · subst hid
        obtain rfl := Option.some.inj (h.symm.trans hr)
        rw [if_pos rfl, if_pos rfl, h]
        rfl
      · rw [if_neg hid, if_neg (Ne.symm hid), h]
    | none =>
      obtain ⟨x, hx⟩ := s.exec_updateRunStatus_none clk hr st
      have hid : id' ≠ id := fun e => by rw [e, h] at hr; cases hr
      rw [hx, runAfter, if_neg hid]
      exact h
  | updateRunFinishedAt id' t =>
    cases hr : s.run? id' with
    | some r' =>
      rw [s.exec_updateRunFinishedAt clk hr, modifyRun_run?, runAfter]
      by_cases hid : id = id'
      · subst hid
        obtain rfl := Option.some.inj (h.symm.trans hr)
        rw [if_pos rfl, if_pos rfl, h]
        rfl
      · rw [if_neg hid, if_neg (Ne.symm hid), h]
    | none =>
      obtain ⟨x, hx⟩ := s.exec_updateRunFinishedAt_none clk hr t
      have hid : id' ≠ id := fun e => by rw [e, h] at hr; cases hr
      rw [hx, runAfter, if_neg hid]
      exact h
  | listRuns | listArtifacts => cases s with | mk b t => cases b <;> exact h
  | getRun id' => rw [s.exec_getRun]; exact h
  | listTasks id' => rw [s.exec_listTasks]; exact h
  | listEvents id' => rw [s.exec_listEvents]; exact h
  | createTask t =>
    rcases s.createTask_cases clk t with ⟨p, r', hnew, hx⟩ | ⟨e, hx⟩ <;> rw [hx] <;> exact h
  | updateTaskStatus id' st r' e =>
    rcases s.update_cases clk id' st r' e with ⟨t, r'', -, -, -, hx⟩ | ⟨x, hx, -⟩ <;> rw [hx] <;>
      exact h
  | leaseNextPendingTask id' w n =>
    rcases s.lease_cases clk id' w n with ⟨t, es, -, -, -, hx⟩ | ⟨-, hx⟩ <;> rw [hx] <;> exact h
  | markTaskRunning id' =>
    rcases s.mark_cases clk id' with ⟨t, -, -, hx⟩ | ⟨-, hx⟩ <;> rw [hx] <;> exact h
  | incrementTaskAttempts id' =>
    rcases s.increment_cases clk id' with ⟨t, -, hx⟩ | ⟨x, hx⟩ <;> rw [hx] <;> exact h
  | requeueExpiredLeases id' => rw [s.exec_requeueExpiredLeases]; exact h
  | reclaimDeadWorker id' w n =>
    rcases s.reclaim_cases clk id' w n with ⟨t, f, es, -, -, -, -, -, hid, hx⟩ | ⟨-, hx⟩
    · rw [hx]; exact h
    · rw [hx]; exact h
  | appendEvent e =>
    rw [s.exec_appendEvent]
    split <;> exact h
  | createArtifact x =>
    rcases s.exec_createArtifact clk x with hx | ⟨e, hx⟩ <;> rw [hx] <;> exact h

/-- The status of a task, if there is such a task. -/
def statusOf (id : TaskId) : Option TaskStatus := (s.task? id).map (·.status)

variable {s}

theorem statusOf_modifyTask {id id' : TaskId} {t : TaskRecord} {f : TaskRecord → TaskRecord}
    {hf : ∀ t, (f t).taskId = t.taskId} (h : s.task? id = some t) :
    (s.modifyTask id f hf).statusOf id' =
      if id' = id then some (f t).status else s.statusOf id' := by
  unfold statusOf
  rw [modifyTask_task?]
  split
  · simp [h]
  · rfl

@[simp] theorem statusOf_addEvents {id : TaskId} {es : List EventRecord} :
    (s.addEvents es).statusOf id = s.statusOf id := rfl

theorem statusOf_eq {id : TaskId} {t : TaskRecord} (h : s.task? id = some t) :
    s.statusOf id = some t.status := by
  simp [statusOf, h]

end StateStore
end FineTuneHarness
