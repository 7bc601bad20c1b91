import FineTuneHarness.State.StoreSpec

/-!
# How the tasks of a store evolve

Whatever store calls are made, `create_task` apart, no task appears or disappears, attempt
counts only grow, and a terminal status stays.
-/
namespace FineTuneHarness

namespace TaskRecord

/-- `t'` is the same task, some store calls later. -/
structure Later (t t' : TaskRecord) : Prop where
  taskId : t'.taskId = t.taskId
  runId : t'.runId = t.runId
  taskKey : t'.taskKey = t.taskKey
  payload : t'.payload = t.payload
  attempts : t.attemptCount ≤ t'.attemptCount
  frozen : t.status.terminal = true → t'.status = t.status

variable {t t' t'' : TaskRecord}

theorem Later.refl (t : TaskRecord) : Later t t := ⟨rfl, rfl, rfl, rfl, le_rfl, fun _ => rfl⟩

theorem Later.trans (h : Later t t') (h' : Later t' t'') : Later t t'' where
  taskId := h'.taskId.trans h.taskId
  runId := h'.runId.trans h.runId
  taskKey := h'.taskKey.trans h.taskKey
  payload := h'.payload.trans h.payload
  attempts := h.attempts.trans h'.attempts
  frozen := fun ht => (h'.frozen (by rw [h.frozen ht]; exact ht)).trans (h.frozen ht)

end TaskRecord

namespace StateStore

/-- The same tasks, some store calls later. -/
def Evolves (s s' : StateStore) : Prop :=
  ∀ id, match s.task? id, s'.task? id with
    | some t, some t' => t.Later t'
    | none, none => True
    | _, _ => False

namespace Evolves

variable {s s' s'' : StateStore} {id : TaskId} {t t' : TaskRecord}

theorem refl (s : StateStore) : Evolves s s := by
  intro id
  cases s.task? id with
  | none => trivial
  | some t => exact .refl t

theorem forward (h : Evolves s s') (ht : s.task? id = some t) :
    ∃ t', s'.task? id = some t' ∧ t.Later t' := by
  have := h id
  rw [ht] at this
  cases ht' : s'.task? id with
  | none => rw [ht'] at this; exact this.elim
  | some t' => rw [ht'] at this; exact ⟨t', rfl, this⟩

theorem backward (h : Evolves s s') (ht : s'.task? id = some t') :
    ∃ t, s.task? id = some t ∧ t.Later t' := by
  have := h id
  rw [ht] at this
  cases ht' : s.task? id with
  | none => rw [ht'] at this; exact this.elim
  | some t => rw [ht'] at this; exact ⟨t, rfl, this⟩

theorem trans (h : Evolves s s') (h' : Evolves s' s'') : Evolves s s'' := by
  intro id
  cases ht : s.task? id with
  | none =>
    cases ht'' : s''.task? id with
    | none => trivial
    | some t'' =>
      obtain ⟨t', hs', -⟩ := h'.backward ht''
      obtain ⟨t, hs, -⟩ := h.backward hs'
      rw [ht] at hs
      cases hs
  | some t =>
    obtain ⟨t', hs', hl⟩ := h.forward ht
    obtain ⟨t'', hs'', hl'⟩ := h'.forward hs'
    rw [hs'']
    exact hl.trans hl'

theorem of_task? (h : ∀ id, s'.task? id = s.task? id) : Evolves s s' := by
  intro id
  rw [h id]
  exact refl s id

theorem of_tasks (h : s'.tables.tasks = s.tables.tasks) : Evolves s s' :=
  of_task? fun id => by rw [task?, h, task?]

theorem updateTasks {p : TaskRecord → Bool} {f : TaskRecord → TaskRecord}
    {hf : ∀ t, (f t).taskId = t.taskId}
    (h : ∀ id t, s.task? id = some t → p t = true → t.Later (f t)) :
    Evolves s (s.updateTasks p f hf) := by
  intro id
  rw [updateTasks_task?]
  cases ht : s.task? id with
  | none => trivial
  | some t =>
    change t.Later (if p t = true then f t else t)
    split
    next hp => exact h id t ht hp
    next => exact .refl t

theorem modifyTask {f : TaskRecord → TaskRecord} {hf : ∀ t, (f t).taskId = t.taskId}
    (h : ∀ t, s.task? id = some t → t.Later (f t)) : Evolves s (s.modifyTask id f hf) :=
  updateTasks fun id' t ht hp => by
    obtain rfl := (of_decide_eq_true hp).symm.trans (s.task?_taskId ht)
    exact h t ht

theorem mem_tasksOf (h : Evolves s s') {runId : RunId} (ht : t ∈ s.tasksOf runId) :
    ∃ t' ∈ s'.tasksOf runId, t.Later t' := by
  obtain ⟨hs, hr⟩ := s.mem_tasksOf.mp ht
  obtain ⟨t', ht', hl⟩ := h.forward hs
  refine ⟨t', s'.mem_tasksOf.mpr ⟨?_, hl.runId.trans hr⟩, hl⟩
  rw [s'.task?_taskId ht']
  exact ht'

theorem of_mem_tasksOf (h : Evolves s s') {runId : RunId} (ht : t' ∈ s'.tasksOf runId) :
    ∃ t ∈ s.tasksOf runId, t.Later t' := by
  obtain ⟨hs, hr⟩ := s'.mem_tasksOf.mp ht
  obtain ⟨t, ht', hl⟩ := h.backward hs
  refine ⟨t, s.mem_tasksOf.mpr ⟨?_, hl.runId.symm.trans hr⟩, hl⟩
  rw [s.task?_taskId ht']
  exact ht'

end Evolves

/-! ## The store calls -/

/-- Calls other than `create_task`. -/
def keepsTasks : StoreOp → Prop
  | .createTask _ => False
  | _ => True

theorem updateRun_tasks (s : StateStore) (clk : Clock) (id : RunId) (st : RunStatus) :
    (s.exec (.updateRunStatus id st) clk).2.tables.tasks = s.tables.tasks := by
  cases hr : s.run? id with
  | some r => rw [s.exec_updateRunStatus clk hr]; rfl
  | none =>
    obtain ⟨x, hx⟩ := s.exec_updateRunStatus_none clk hr st
    rw [hx]

theorem updateFinished_tasks (s : StateStore) (clk : Clock) (id : RunId) (t : Instant) :
    (s.exec (.updateRunFinishedAt id t) clk).2.tables.tasks = s.tables.tasks := by
  cases hr : s.run? id with
  | some r => rw [s.exec_updateRunFinishedAt clk hr]; rfl
  | none =>
    obtain ⟨x, hx⟩ := s.exec_updateRunFinishedAt_none clk hr t
    rw [hx]

theorem createRun_tasks (s : StateStore) (clk : Clock) (r : RunRecord) :
    (s.exec (.createRun r) clk).2.tables.tasks = s.tables.tasks := by
  rcases s.createRun_cases clk r with ⟨r', h, hx, -⟩ | ⟨e, hx⟩ <;> rw [hx]
  rfl

theorem exec_listRuns (s : StateStore) (clk : Clock) :
    s.exec .listRuns clk = (.ok s.tables.runs.rows, s) := by
  cases s with | mk b t => cases b <;> rfl

theorem exec_listArtifacts (s : StateStore) (clk : Clock) (id : RunId) :
    s.exec (.listArtifacts id) clk =
      (.ok (s.tables.artifacts.filter fun a => a.runId = id), s) := by
  cases s with | mk b t => cases b <;> rfl

/-- What one store call can do to one row. -/
inductive RowChange (s : StateStore) (clk : Clock) (t : TaskRecord) :
    StoreOp → TaskRecord → Prop
  | same {op : StoreOp} : RowChange s clk t op t
  | lease {runId : RunId} {w : WorkerId} {n : Int} (run : t.runId = runId)
      (free : t.leaseable clk.now = true) :
      RowChange s clk t (.leaseNextPendingTask runId w n) (t.leaseTo w (leaseUntil clk.later n))
  | count : RowChange s clk t (.incrementTaskAttempts t.taskId) t.countAttempt
  | mark (leased : t.status = .leased) :
      RowChange s clk t (.markTaskRunning t.taskId) (t.setStatus .running)
  | settle {st : TaskStatus} {r r' : Option Dict} {e : Option String}
      (edge : st ∈ allowedTaskTransitions t.status) (kept : s.keep r = .ok r') :
      RowChange s clk t (.updateTaskStatus t.taskId st r e) (t.settle st r' e)
  | expire {runId : RunId} (expired : InMemory.expired runId clk.now t = true) :
      RowChange s clk t (.requeueExpiredLeases runId) t.release
  | reclaim {runId : RunId} {w : WorkerId} {n : Int} (held : s.heldBy runId w = some t)
      (budget : (s.priorReclaims t.taskId : Int) < n) :
      RowChange s clk t (.reclaimDeadWorker runId w n) t.release
  | abandon {runId : RunId} {w : WorkerId} {n : Int} (held : s.heldBy runId w = some t)
      (spent : n ≤ (s.priorReclaims t.taskId : Int)) :
      RowChange s clk t (.reclaimDeadWorker runId w n) (t.abandon w (s.priorReclaims t.taskId))

theorem allowed_not_terminal {st : TaskStatus} {t : TaskRecord}
    (h : st ∈ allowedTaskTransitions t.status) : t.status.terminal = false := by
  cases hs : t.status <;> first | rfl | (rw [hs] at h; cases h)

/-- Terminal rows are left alone, but for their attempt count. -/
theorem RowChange.later {s : StateStore} {clk : Clock} {t t' : TaskRecord} {op : StoreOp}
    (h : RowChange s clk t op t') : t.Later t' := by
  have hnot : t.status.terminal = false → ∀ {p : Prop}, t.status.terminal = true → p :=
    fun h0 _ h1 => by rw [h0] at h1; cases h1
  have hheld : ∀ {runId w}, s.heldBy runId w = some t → t.status.terminal = false := by
    intro runId w hh
    rcases (s.heldBy_some hh).2.2.2 with h | h <;> rw [h] <;> rfl
  cases h with
  | same => exact .refl t
  | lease run free =>
    refine ⟨rfl, rfl, rfl, rfl, le_rfl, hnot ?_⟩
    rcases leaseable_status free with hst | hst <;> rw [hst] <;> rfl
  | count => exact ⟨rfl, rfl, rfl, rfl, Nat.le_succ _, fun _ => rfl⟩
  | mark leased => exact ⟨rfl, rfl, rfl, rfl, le_rfl, hnot (by rw [leased]; rfl)⟩
  | settle edge kept => exact ⟨rfl, rfl, rfl, rfl, le_rfl, hnot (allowed_not_terminal edge)⟩
  | expire expired =>
    simp only [InMemory.expired, Bool.and_eq_true, decide_eq_true_eq] at expired
    exact ⟨rfl, rfl, rfl, rfl, le_rfl, hnot (by rw [expired.1.2]; rfl)⟩
  | reclaim held budget => exact ⟨rfl, rfl, rfl, rfl, le_rfl, hnot (hheld held)⟩
  | abandon held spent => exact ⟨rfl, rfl, rfl, rfl, le_rfl, hnot (hheld held)⟩

/-- **Inversion, row by row.** -/
theorem exec_row (s : StateStore) (clk : Clock) {op : StoreOp} (h : keepsTasks op)
    (id : TaskId) :
    s.task? id = none ∧ (s.exec op clk).2.task? id = none ∨
    ∃ t t', s.task? id = some t ∧ (s.exec op clk).2.task? id = some t' ∧
      RowChange s clk t op t' := by
  have hid : s.task? id = none ∧ s.task? id = none ∨
      ∃ t t', s.task? id = some t ∧ s.task? id = some t' ∧ RowChange s clk t op t' := by
    cases ht : s.task? id with
    | none => exact .inl ⟨rfl, rfl⟩
    | some t => exact .inr ⟨t, t, rfl, rfl, .same⟩
  have hsame : (s.exec op clk).2.tables.tasks = s.tables.tasks →
      s.task? id = none ∧ (s.exec op clk).2.task? id = none ∨
      ∃ t t', s.task? id = some t ∧ (s.exec op clk).2.task? id = some t' ∧
        RowChange s clk t op t' := by
    intro heq
    rw [show (s.exec op clk).2.task? id = s.task? id by rw [task?, heq, ← task?]]
    exact hid
  -- a call that writes the row of one task
  have hrow : ∀ {t₀ : TaskRecord} {f : TaskRecord → TaskRecord} {hf},
      s.task? t₀.taskId = some t₀ → RowChange s clk t₀ op (f t₀) →
      s.task? id = none ∧ (s.modifyTask t₀.taskId f hf).task? id = none ∨
      ∃ t t', s.task? id = some t ∧ (s.modifyTask t₀.taskId f hf).task? id = some t' ∧
        RowChange s clk t op t' := by
    intro t₀ f hf h0 hc
    rw [modifyTask_task?]
    split
    next he =>
      subst he
      rw [h0]
      exact .inr ⟨t₀, f t₀, rfl, rfl, hc⟩
    next => exact hid
  cases op with
  | createTask t => exact h.elim
  | createRun r => exact hsame (s.createRun_tasks clk r)
  | updateRunStatus id st => exact hsame (s.updateRun_tasks clk id st)
  | updateRunFinishedAt id t => exact hsame (s.updateFinished_tasks clk id t)
  | getRun id => exact hsame (by rw [s.exec_getRun])
  | listRuns => exact hsame (by rw [s.exec_listRuns])
  | listTasks id => exact hsame (by rw [s.exec_listTasks])
  | listArtifacts id => exact hsame (by rw [s.exec_listArtifacts])
  | listEvents id => exact hsame (by rw [s.exec_listEvents])
  | appendEvent e =>
    refine hsame ?_
    rw [s.exec_appendEvent]
    split <;> rfl
  | createArtifact a =>
    refine hsame ?_
    rcases s.exec_createArtifact clk a with hx | ⟨x, hx⟩ <;> rw [hx]
    rfl
  | updateTaskStatus id st r e =>
    rcases s.update_cases clk id st r e with ⟨t₀, r', h0, ha, hk, hx⟩ | ⟨x, hx, -⟩
    · obtain rfl := s.task?_taskId h0
      rw [hx]
      exact hrow h0 (.settle ha hk)
    · exact hsame (by rw [hx])
  | leaseNextPendingTask runId w n =>
    rcases s.lease_cases clk runId w n with ⟨t₀, es, h0, hr, hl, hx⟩ | ⟨-, hx⟩
    · rw [hx, addEvents_task?]
      exact hrow h0 (.lease hr hl)
    · exact hsame (by rw [hx])
  | markTaskRunning id =>
    rcases s.mark_cases clk id with ⟨t₀, h0, hl, hx⟩ | ⟨-, hx⟩
    · obtain rfl := s.task?_taskId h0
      rw [hx]
      exact hrow h0 (.mark hl)
    · exact hsame (by rw [hx])
  | incrementTaskAttempts id =>
    rcases s.increment_cases clk id with ⟨t₀, h0, hx⟩ | ⟨x, hx⟩
    · obtain rfl := s.task?_taskId h0
      rw [hx]
      exact hrow h0 .count
    · exact hsame (by rw [hx])
  | requeueExpiredLeases runId =>
    rw [s.exec_requeueExpiredLeases, addEvents_task?, updateTasks_task?]
    cases ht : s.task? id with
    | none => exact .inl ⟨rfl, rfl⟩
    | some t =>
      by_cases he : InMemory.expired runId clk.now t = true
      · exact .inr ⟨t, t.release, rfl, congrArg some (if_pos he), .expire he⟩
      · exact .inr ⟨t, t, rfl, congrArg some (if_neg he), .same⟩
  | reclaimDeadWorker runId w n =>
    rw [s.exec_reclaimDeadWorker]
    cases hh : s.heldBy runId w with
    | none => exact hid
    | some t₀ =>
      have h0 := (s.heldBy_some hh).1
      by_cases hn : (s.priorReclaims t₀.taskId : Int) ≥ n
      · simp only [if_pos hn, addEvents_task?]
        exact hrow h0 (.abandon hh hn)
      · simp only [if_neg hn, addEvents_task?]
        exact hrow h0 (.reclaim hh (by omega))

/-- The row a call leaves of a task. -/
theorem exec_row_some {s : StateStore} (clk : Clock) {op : StoreOp} (h : keepsTasks op)
    {id : TaskId} {t t' : TaskRecord} (ht : s.task? id = some t)
    (ht' : (s.exec op clk).2.task? id = some t') : RowChange s clk t op t' := by
  rcases s.exec_row clk h id with ⟨hn, -⟩ | ⟨t₀, t₁, h0, h1, hc⟩
  · rw [hn] at ht; cases ht
  · rw [h0] at ht; rw [h1] at ht'
    rw [← Option.some.inj ht, ← Option.some.inj ht']
    exact hc

/-- **A store call later, the tasks are the same.** -/
theorem exec_evolves (s : StateStore) (clk : Clock) {op : StoreOp} (h : keepsTasks op) :
    Evolves s (s.exec op clk).2 := by
  intro id
  rcases s.exec_row clk h id with ⟨hn, hn'⟩ | ⟨t, t', ht, ht', hc⟩
  · rw [hn, hn']; trivial
  · rw [ht, ht']; exact hc.later

/-! ## One task among the others -/

theorem tasksOf_nodup (s : StateStore) (runId : RunId) :
    ((s.tasksOf runId).map (·.taskId)).Nodup := by
  have hp : (s.tasksOf runId).Perm (s.tables.tasks.rows.filter fun t => t.runId = runId) :=
    List.perm_insertionSort _ _
  refine ((hp.map _).nodup_iff).mpr ?_
  exact (List.filter_sublist.map _).nodup s.tables.tasks.nodup

/-- The tasks of a run without one of them. -/
def others (s : StateStore) (runId : RunId) (id : TaskId) : List TaskRecord :=
  (s.tasksOf runId).filter fun t => t.taskId ≠ id

theorem mem_others {s : StateStore} {runId : RunId} {id : TaskId} {t : TaskRecord} :
    t ∈ s.others runId id ↔ t ∈ s.tasksOf runId ∧ t.taskId ≠ id := by
  simp [others]

theorem others_nodup (s : StateStore) (runId : RunId) (id : TaskId) :
    (s.others runId id).Nodup :=
  (List.filter_sublist.map _ |>.nodup (s.tasksOf_nodup runId)).of_map

theorem tasksOf_perm {s : StateStore} {runId : RunId} {t : TaskRecord}
    (h : t ∈ s.tasksOf runId) :
    (s.tasksOf runId).Perm (t :: s.others runId t.taskId) := by
  refine (List.perm_ext_iff_of_nodup (s.tasksOf_nodup runId).of_map ?_).mpr fun x => ?_
  · exact List.nodup_cons.mpr ⟨fun hm => (mem_others.mp hm).2 rfl, s.others_nodup _ _⟩
  · rw [List.mem_cons, mem_others]
    constructor
    · intro hx
      by_cases hid : x.taskId = t.taskId
      · have h1 := (s.mem_tasksOf.mp hx).1
        rw [hid, (s.mem_tasksOf.mp h).1] at h1
        exact .inl (Option.some.inj h1).symm
      · exact .inr ⟨hx, hid⟩
    · rintro (rfl | hx)
      · exact h
      · exact hx.1

theorem others_perm {s s' : StateStore} (runId : RunId) {id : TaskId}
    (h : ∀ i, i ≠ id → s'.task? i = s.task? i) :
    (s'.others runId id).Perm (s.others runId id) := by
  refine (List.perm_ext_iff_of_nodup (s'.others_nodup _ _) (s.others_nodup _ _)).mpr fun x => ?_
  rw [mem_others, mem_others, s.mem_tasksOf, s'.mem_tasksOf]
  constructor
  · rintro ⟨⟨h1, h2⟩, h3⟩
    exact ⟨⟨by rw [← h _ h3]; exact h1, h2⟩, h3⟩
  · rintro ⟨⟨h1, h2⟩, h3⟩
    exact ⟨⟨by rw [h _ h3]; exact h1, h2⟩, h3⟩

end StateStore
end FineTuneHarness
