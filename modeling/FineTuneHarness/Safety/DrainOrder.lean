import FineTuneHarness.Executor.Alone
import FineTuneHarness.Executor.Closing
import FineTuneHarness.Executor.Stages
import FineTuneHarness.Safety.Leaseable
import FineTuneHarness.State.Evolution

/-!
# A drain goes by the keys

`drain` takes one task at a time, so the handler sees the tasks of a run in the order of their
keys, and all attempts at one task before the next. `stop_fn` can only cut that short.
-/
namespace FineTuneHarness

open Library Library.Program

namespace LocalWorker

variable (pf : Platform) (w : LocalWorker)

/-- The loop of `drain` where `stop n` is what `stop_fn` answers, or raises, after the `n`-th
success. An exception is swallowed like one of the task's. -/
def drainLoopUntil (stop : Nat → Except PyExc Bool) (runId : RunId) :
    Nat → RunMemory → Nat → Prog (Option Nat)
  | 0, _, _ => pure none
  | fuel + 1, mem, succeeded => do
    let (mem, outcome) ← w.runOnce pf mem runId
    match outcome with
    | .ok none => pure (some succeeded)
    | .ok (some _) =>
      match stop (succeeded + 1) with
      | .ok true => pure (some (succeeded + 1))
      | _ => drainLoopUntil stop runId fuel mem (succeeded + 1)
    | .error _ => drainLoopUntil stop runId fuel mem succeeded

/-- Without `stop_fn`. -/
theorem drainLoopUntil_never (runId : RunId) (fuel : Nat) (mem : RunMemory) (n : Nat) :
    w.drainLoopUntil pf (fun _ => .ok false) runId fuel mem n = w.drainLoop pf runId fuel mem n := by
  induction fuel generalizing mem n with
  | zero => rfl
  | succ fuel ih =>
    rw [drainLoopUntil, drainLoop]
    refine congrArg _ (funext fun done => ?_)
    obtain ⟨mem, outcome⟩ := done
    rcases outcome with e | _ | t
    · exact ih mem n
    · rfl
    · exact ih mem (n + 1)

/-- `drain` with `stop_fn`. -/
def drainUntil (stop : Nat → Except PyExc Bool) (fuel : Nat) (mem : RunMemory) (runId : RunId) :
    Prog (Option DrainEnd) := do
  w.recordDrainStarted runId {}
  match ← w.drainLoopUntil pf stop runId fuel mem 0 with
  | none => pure none
  | some succeeded => do
    let ending ← concludeDrain runId succeeded
    pure (some ending)

end LocalWorker

/-- By the keys of the two tasks, the first need not wait for the second. -/
def StateStore.NotAfter (s : StateStore) (id id' : TaskId) : Prop :=
  ∀ t t', s.task? id = some t → s.task? id' = some t' → t.taskKey ≤ t'.taskKey

/-- A request of an attempt at one task: it handles no other, and writes no other row. -/
def OnTask (id : TaskId) : Effect → Prop
  | .ext x => x.handles = [] ∨ x.handles = [id]
  | .store (.incrementTaskAttempts t) | .store (.markTaskRunning t) => t = id
  | .store (.updateTaskStatus t st ..) => t = id ∧ st ≠ .leased
  | .store (.createTask _) | .store (.leaseNextPendingTask ..) | .store (.requeueExpiredLeases _)
  | .store (.reclaimDeadWorker ..) => False
  | _ => True

section Requests

variable {id : TaskId} {a : Attempt}

theorem Ext.handles_of_none {x : Ext} (h : x.handled = none) : x.handles = [] := by
  cases x <;> first | rfl | cases h

theorem Routine.onTask {runId : RunId} {e : Effect} (h : Routine runId e) : OnTask id e := by
  cases e with
  | ext x => exact .inl (Ext.handles_of_none h)
  | store op => cases op <;> first | exact h.elim | trivial

theorem Closing.onTask {sts : List TaskStatus} {e : Effect} (h : Closing a sts e)
    (hs : .leased ∉ sts) : OnTask a.task.taskId e := by
  cases e with
  | ext x => exact .inl (Ext.handles_of_none h)
  | store op =>
    cases op <;> first | exact h.elim | trivial | skip
    case updateTaskStatus t st r err =>
      refine ⟨h.1, fun hst => ?_⟩
      rw [hst] at h
      exact hs h.2

theorem OnTask.keepsTasks {op : StoreOp} (h : OnTask id (.store op)) :
    StateStore.keepsTasks op := by
  cases op <;> first | exact h.elim | trivial

end Requests

namespace StateStore

variable {s s₀ : StateStore} {a b c : TaskId}

theorem NotAfter.refl (s : StateStore) (a : TaskId) : s.NotAfter a a := by
  intro t t' ht ht'
  obtain rfl := Option.some.inj (ht.symm.trans ht')
  exact String.le_refl _

theorem NotAfter.trans {t : TaskRecord} (hb : s.task? b = some t) (h : s.NotAfter a b)
    (h' : s.NotAfter b c) : s.NotAfter a c :=
  fun x y hx hy => String.le_trans (h x t hx hb) (h' t y hb hy)

/-- Keys do not change, so the order can be read off later rows. -/
theorem NotAfter.of_later {t t' : TaskRecord} (h : s₀.Evolves s) (ht : s.task? a = some t)
    (ht' : s.task? b = some t') (hkey : t.taskKey ≤ t'.taskKey) : s₀.NotAfter a b := by
  intro x y hx hy
  obtain ⟨t₁, ht₁, hlater⟩ := h.forward hx
  obtain ⟨t₂, ht₂, hlater'⟩ := h.forward hy
  obtain rfl := Option.some.inj (ht₁.symm.trans ht)
  obtain rfl := Option.some.inj (ht₂.symm.trans ht')
  rw [← hlater.taskKey, ← hlater'.taskKey]
  exact hkey

end StateStore

/-! ## The invariants -/

section Invariants

variable {s₀ : StateStore} {runId : RunId} {id : TaskId} {l : Ledger}

/-- The handler has been called with tasks of the run, in the order of their keys. -/
structure Called (s₀ : StateStore) (runId : RunId) (l : Ledger) : Prop where
  evolves : s₀.Evolves l.store
  ours : ∀ id ∈ l.calls, ∃ t, s₀.task? id = some t ∧ t.runId = runId
  ordered : l.calls.Pairwise fun later earlier => s₀.NotAfter earlier later

/-- Between two rounds: nothing is leased, and what is pending comes after all calls. -/
structure InOrder (s₀ : StateStore) (runId : RunId) (l : Ledger) : Prop
    extends Called s₀ runId l where
  unleased : ∀ t ∈ l.store.tasksOf runId, t.status ≠ .leased
  waiting : ∀ t ∈ l.store.tasksOf runId, t.status = .pending →
    ∀ c ∈ l.calls, s₀.NotAfter c t.taskId

/-- During an attempt at the task `id`. -/
structure Trying (s₀ : StateStore) (runId : RunId) (id : TaskId) (l : Ledger) : Prop
    extends Called s₀ runId l where
  task : ∃ t, s₀.task? id = some t ∧ t.runId = runId
  latest : ∀ c ∈ l.calls, s₀.NotAfter c id
  unleased : ∀ t ∈ l.store.tasksOf runId, t.taskId ≠ id → t.status ≠ .leased
  waiting : ∀ t ∈ l.store.tasksOf runId, t.taskId ≠ id → t.status = .pending →
    s₀.NotAfter id t.taskId

/-- The task is off its lease. -/
def Unleased (id : TaskId) (l : Ledger) : Prop :=
  ∀ t, l.store.task? id = some t → t.status ≠ .leased

theorem Trying.done (h : Trying s₀ runId id l) (hown : Unleased id l) : InOrder s₀ runId l where
  toCalled := h.toCalled
  unleased := by
    intro t ht
    by_cases hid : t.taskId = id
    · exact hown t (hid ▸ (l.store.mem_tasksOf.mp ht).1)
    · exact h.unleased t ht hid
  waiting := by
    intro t ht hpending c hc
    by_cases hid : t.taskId = id
    · rw [hid]
      exact h.latest c hc
    · obtain ⟨t₀, ht₀, -⟩ := h.task
      exact (h.latest c hc).trans ht₀ (h.waiting t ht hid hpending)

/-- The handler is called with the task. -/
theorem Trying.handle (h : Trying s₀ runId id l) :
    Trying s₀ runId id { l with calls := [id] ++ l.calls } where
  evolves := h.evolves
  ours := by
    intro c hc
    rcases List.mem_cons.mp hc with rfl | hc
    · exact h.task
    · exact h.ours c hc
  ordered := List.pairwise_cons.mpr ⟨h.latest, h.ordered⟩
  task := h.task
  latest := by
    intro c hc
    rcases List.mem_cons.mp hc with rfl | hc
    · exact .refl _ _
    · exact h.latest c hc
  unleased := h.unleased
  waiting := h.waiting

/-- A call on the task's own row, or on none, leaves the row of another task alone. -/
theorem OnTask.other {op : StoreOp} (h : OnTask id (.store op)) {s : StateStore} {clk : Clock}
    {t t' : TaskRecord} (hc : StateStore.RowChange s clk t op t') (hid : t'.taskId ≠ id) :
    t' = t := by
  cases hc with
  | same => rfl
  | lease run free => exact h.elim
  | count => exact absurd h hid
  | mark leased => exact absurd h hid
  | settle edge kept => exact absurd h.1 hid
  | expire expired => exact h.elim
  | reclaim held budget => exact h.elim
  | abandon held spent => exact h.elim

theorem Trying.call (h : Trying s₀ runId id l) (op : StoreOp) (hop : OnTask id (.store op))
    (clk : Clock) : Trying s₀ runId id { l with store := (l.store.exec op clk).2 } := by
  have hevolves := l.store.exec_evolves clk hop.keepsTasks
  -- a row of another task is the row it was
  have hother : ∀ t ∈ (l.store.exec op clk).2.tasksOf runId, t.taskId ≠ id →
      t ∈ l.store.tasksOf runId := by
    intro t ht hid
    obtain ⟨hrow, hrun⟩ := (StateStore.mem_tasksOf _).mp ht
    obtain ⟨t₀, ht₀, -⟩ := hevolves.backward hrow
    obtain rfl := hop.other (StateStore.exec_row_some clk hop.keepsTasks ht₀ hrow) hid
    exact l.store.mem_tasksOf.mpr ⟨ht₀, hrun⟩
  exact {
    evolves := h.evolves.trans hevolves
    ours := h.ours
    ordered := h.ordered
    task := h.task
    latest := h.latest
    unleased := fun t ht hid => h.unleased t (hother t ht hid) hid
    waiting := fun t ht hid => h.waiting t (hother t ht hid) hid }

theorem Unleased.call (h : Unleased id l) (op : StoreOp) (hop : OnTask id (.store op))
    (clk : Clock) : Unleased id { l with store := (l.store.exec op clk).2 } := by
  intro t ht
  obtain ⟨t₀, ht₀, -⟩ := (l.store.exec_evolves clk hop.keepsTasks).backward ht
  have hrow := h t₀ ht₀
  cases StateStore.exec_row_some clk hop.keepsTasks ht₀ ht with
  | same => exact hrow
  | lease run free => exact hop.elim
  | count => exact hrow
  | mark leased => exact fun hst => by cases hst
  | settle edge kept => exact hop.2
  | expire expired => exact hop.elim
  | reclaim held budget => exact hop.elim
  | abandon held spent => exact hop.elim

/-- A lease takes the least key of those that wait, and all that wait come after the calls. -/
theorem InOrder.lease {s : StateStore} {c : List TaskId} {clk : Clock} {t : TaskRecord}
    (h : InOrder s₀ runId ⟨s, c⟩) (hnext : s.nextLeaseable runId clk.now = some t) (w : WorkerId)
    (n : Int) :
    Trying s₀ runId t.taskId ⟨(s.exec (.leaseNextPendingTask runId w n) clk).2, c⟩ := by
  obtain ⟨hrow, hrun, hfree, hleast⟩ := nextLeaseable_least hnext
  have hmem : t ∈ s.tasksOf runId := s.mem_tasksOf.mpr ⟨hrow, hrun⟩
  have hpending : t.status = .pending :=
    (StateStore.leaseable_status hfree).resolve_right (h.unleased t hmem)
  obtain ⟨t₀, ht₀, hlater⟩ := h.evolves.backward hrow
  -- the rows of the other tasks are as they were
  have hother : ∀ t' ∈ (s.exec (.leaseNextPendingTask runId w n) clk).2.tasksOf runId,
      t'.taskId ≠ t.taskId → t' ∈ s.tasksOf runId := by
    intro t' ht' hid
    rw [StateStore.mem_tasksOf, s.exec_leaseNextPendingTask, hnext] at ht'
    simp only [StateStore.addEvents_task?, StateStore.modifyTask_task?, if_neg hid] at ht'
    exact s.mem_tasksOf.mpr ht'
  exact {
    evolves := h.evolves.trans (s.exec_evolves clk trivial)
    ours := h.ours
    ordered := h.ordered
    task := ⟨t₀, ht₀, hlater.runId.symm.trans hrun⟩
    latest := h.waiting t hmem hpending
    unleased := fun t' ht' hid => h.unleased t' (hother t' ht' hid)
    waiting := by
      intro t' ht' hid hst
      have hin := hother t' ht' hid
      have hleaseable : t'.leaseable clk.now = true := by
        rw [TaskRecord.leaseable, hst]
        rfl
      exact .of_later h.evolves hrow (s.mem_tasksOf.mp hin).1 (hleast t' hin hleaseable) }

/-- **Every request of an attempt** keeps the order, once the task is off its lease. -/
theorem trying_keep {α : Type} {p : Prog α} (hp : p.Only (OnTask id))
    (h : Trying s₀ runId id l) (hown : Unleased id l) :
    p.wp (alone .any) (fun _ => InOrder s₀ runId) (fun _ => InOrder s₀ runId) l := by
  have hkeep : p.wp (alone .any) (fun _ l' => Trying s₀ runId id l' ∧ Unleased id l')
      (fun _ l' => Trying s₀ runId id l' ∧ Unleased id l') l := by
    refine wp_keep_of_only hp ?_ ⟨h, hown⟩
    intro l e hl he
    refine ⟨alone_may (fun h => h) l e, fun r l' hlearn => ?_⟩
    cases e with
    | ext x =>
      obtain ⟨-, rfl⟩ := hlearn
      rcases he with he | he
      · rw [he]
        exact hl
      · rw [he]
        exact ⟨hl.1.handle, hl.2⟩
    | store op =>
      obtain ⟨hcalls, clk, -, hx⟩ := hlearn
      have hl' : l' = { l with store := (l.store.exec op clk).2 } := by
        rw [hx, ← hcalls]
      rw [hl']
      exact ⟨hl.1.call op he clk, hl.2.call op he clk⟩
  exact wp_mono hkeep (fun _ _ h => h.1.done h.2) fun _ _ h => h.1.done h.2

theorem inOrder_aside {α : Type} {p : Prog α} (hp : p.Only Aside) (h : InOrder s₀ runId l) :
    p.wp (alone .any) (fun _ => InOrder s₀ runId) (fun _ => InOrder s₀ runId) l := by
  refine wp_keep_of_only hp ?_ h
  intro l e hl he
  refine ⟨alone_may (fun h => h) l e, fun r l' hlearn => ?_⟩
  cases e with
  | ext x =>
    obtain ⟨-, rfl⟩ := hlearn
    rw [Ext.handles_of_none he]
    exact hl
  | store op =>
    obtain ⟨s', c'⟩ := l'
    obtain ⟨rfl, clk, -, hx⟩ := hlearn
    have htasks : s'.tables.tasks = l.store.tables.tasks := by
      have h := Aside.perform_tasks he { Answers.steady 0 (.ok .none) with clock := clk } l.store
      rw [Effect.perform, hx] at h
      exact h
    have hof : s'.tasksOf runId = l.store.tasksOf runId := by
      rw [StateStore.tasksOf, htasks, ← StateStore.tasksOf]
    exact {
      evolves := hl.evolves.trans (.of_tasks htasks)
      ours := hl.ours
      ordered := hl.ordered
      unleased := fun t ht => hl.unleased t (hof ▸ ht)
      waiting := fun t ht => hl.waiting t (hof ▸ ht) }

end Invariants

/-! ## One attempt -/

namespace LocalWorker

variable {pf : Platform} {w : LocalWorker}

theorem onTask_execute {id : TaskId} {task : TaskRecord} (timeout : Option Int)
    (hid : task.taskId = id) : (execute task timeout).Only (OnTask id) := by
  subst hid
  cases timeout with
  | none => exact ⟨.inr rfl, fun _ _ _ => trivial⟩
  | some seconds => exact only_bind ⟨.inr rfl, fun _ _ _ => trivial⟩ fun _ => only_pure _

theorem onTask_record {runId : RunId} {id : TaskId} {taskId : Option TaskId} {kind : String}
    {payload : List (String × PyVal)} :
    (record runId taskId kind payload).Only (OnTask id) :=
  ⟨trivial, fun r _ _ => by cases r <;> trivial⟩

/-- What follows the mark. -/
theorem onTask_rest (seed : Option Int) (a : Attempt) :
    (do
      w.recordAttempt a "task_running" []
      let _ ← refreshRunStatus a.runId
      let (payload, timeout) ← w.prepare pf seed a
      let run ← execute { a.task with payload } timeout
      w.finish pf a run : Prog TaskRecord).Only (OnTask a.task.taskId) := by
  refine only_bind onTask_record fun _ => only_bind ?_ fun _ => only_bind ?_ fun p => ?_
  · exact (routine_refreshRunStatus a.runId).mono fun _ h => h.onTask
  · exact (w.routine_prepare pf seed a).mono fun _ h => h.onTask
  · refine only_bind (onTask_execute _ rfl) fun run => ?_
    exact (w.closing_finish pf a run).mono fun _ h => h.onTask (by decide)

variable {s₀ : StateStore} {runId : RunId} {l : Ledger}

/-- An attempt at a task that has just been leased. -/
theorem inOrder_attempt (seed : Option Int) {task t : TaskRecord}
    (h : Trying s₀ runId task.taskId l) (hrow : l.store.task? task.taskId = some t)
    (hleased : t.status = .leased) :
    (w.attempt pf seed runId task).wp (alone .any) (fun _ => InOrder s₀ runId)
      (fun _ => InOrder s₀ runId) l := by
  obtain ⟨s, c⟩ := l
  refine (wp_bind _ _).mpr ((wp_bind _ _).mpr (alone_call fun clk _ => ?_))
  have hcount := h.call (.incrementTaskAttempts task.taskId) rfl clk
  rw [s.exec_incrementTaskAttempts clk hrow] at hcount ⊢
  refine (wp_bind _ _).mpr (alone_call fun clk _ => ?_)
  have hmark := hcount.call (.markTaskRunning task.taskId) rfl clk
  have hrow' : (s.modifyTask task.taskId TaskRecord.countAttempt
      TaskRecord.countAttempt_taskId).task? task.taskId = some t.countAttempt := by
    rw [StateStore.modifyTask_task?_self, hrow]
    rfl
  have hready : ((s.modifyTask task.taskId TaskRecord.countAttempt
      TaskRecord.countAttempt_taskId).task? task.taskId).any (·.status = .leased) = true := by
    rw [hrow']
    exact decide_eq_true hleased
  rw [StateStore.exec_markTaskRunning, if_pos hready] at hmark ⊢
  have hown : Unleased task.taskId
      ⟨(s.modifyTask task.taskId TaskRecord.countAttempt TaskRecord.countAttempt_taskId).modifyTask
        task.taskId (·.setStatus .running) (·.setStatus_taskId _), c⟩ := by
    intro t' ht'
    rw [StateStore.modifyTask_task?_self, hrow'] at ht'
    obtain rfl := Option.some.inj ht'
    exact fun hst => by cases hst
  have hrest := trying_keep (@onTask_rest pf w seed ⟨runId, task, t.attemptCount + 1⟩) hmark hown
  simp only [wp_bind] at hrest ⊢
  exact hrest

/-- **The lease** takes a task with the least key of those that are pending. -/
theorem inOrder_leaseAndRun (seed : Option Int) (h : InOrder s₀ runId l) :
    (w.leaseAndRun pf seed runId).wp (alone .any) (fun _ => InOrder s₀ runId)
      (fun _ => InOrder s₀ runId) l := by
  obtain ⟨s, c⟩ := l
  refine (wp_bind _ _).mpr (alone_call fun clk _ => ?_)
  have hlease : ∀ t, s.nextLeaseable runId clk.now = some t → Trying s₀ runId t.taskId
      ⟨(s.exec (.leaseNextPendingTask runId w.workerId leaseSeconds) clk).2, c⟩ :=
    fun t hnext => h.lease hnext w.workerId leaseSeconds
  rw [s.exec_leaseNextPendingTask] at hlease ⊢
  cases hnext : s.nextLeaseable runId clk.now with
  | none => exact h
  | some t =>
    rw [hnext] at hlease
    have hrow : ((s.modifyTask t.taskId (·.leaseTo w.workerId (leaseUntil clk.later leaseSeconds))
        (·.leaseTo_taskId _ _)).addEvents (StateStore.takeover t w.workerId)).task? t.taskId =
          some (t.leaseTo w.workerId (leaseUntil clk.later leaseSeconds)) := by
      rw [StateStore.addEvents_task?, StateStore.modifyTask_task?_self,
        (nextLeaseable_least hnext).row]
      rfl
    exact (wp_bind _ _).mpr (inOrder_attempt seed (hlease t rfl) hrow rfl)

/-! ## Rounds -/

theorem inOrder_runOnce (mem : RunMemory) (h : InOrder s₀ runId l) :
    (w.runOnce pf mem runId).wp (alone .any) (fun _ => InOrder s₀ runId)
      (fun _ => InOrder s₀ runId) l := by
  refine (wp_bind _ _).mpr (wp_mono (inOrder_aside ?_ h) (fun mem l h => ?_) fun _ _ h => h)
  · exact only_aside (w.routine_startRun mem runId)
  · exact (wp_bind _ _).mpr ((wp_attempt _).mpr
      (wp_mono (inOrder_leaseAndRun _ h) (fun _ _ h => h) fun _ _ h => h))

theorem inOrder_drainLoopUntil (stop : Nat → Except PyExc Bool) (fuel : Nat) (mem : RunMemory)
    (n : Nat) (h : InOrder s₀ runId l) :
    (w.drainLoopUntil pf stop runId fuel mem n).wp (alone .any) (fun _ => InOrder s₀ runId)
      (fun _ => InOrder s₀ runId) l := by
  induction fuel generalizing mem n l with
  | zero => exact h
  | succ fuel ih =>
    refine (wp_bind _ _).mpr (wp_mono (inOrder_runOnce mem h) (fun done l h => ?_) fun _ _ h => h)
    obtain ⟨mem, outcome⟩ := done
    dsimp only
    split
    next => exact h
    next =>
      split
      · exact h
      · exact ih mem (n + 1) h
    next => exact ih mem n h

theorem inOrder_drainUntil (stop : Nat → Except PyExc Bool) (fuel : Nat) (mem : RunMemory)
    (h : InOrder s₀ runId l) :
    (w.drainUntil pf stop fuel mem runId).wp (alone .any) (fun _ => InOrder s₀ runId)
      (fun _ => InOrder s₀ runId) l := by
  refine (wp_bind _ _).mpr
    (wp_mono (inOrder_aside (aside_record _ _ _ _) h) (fun _ l h => ?_) fun _ _ h => h)
  refine (wp_bind _ _).mpr
    (wp_mono (inOrder_drainLoopUntil stop fuel mem 0 h) (fun done l h => ?_) fun _ _ h => h)
  cases done with
  | none => exact h
  | some n =>
    refine (wp_bind _ _).mpr (wp_mono (inOrder_aside ?_ h) (fun _ l h => h) fun _ _ h => h)
    refine only_bind (aside_call trivial) fun tasks => ?_
    dsimp only
    split <;> exact only_pure _

/-! ## The calls of a drain -/

/-- The tasks that a program calls the handler with when it runs alone, first to last. -/
def handled {α : Type} (p : Prog α) (env : Nat → Answers) (s : StateStore) : List TaskId :=
  (p.run (Session.exec env) { ledger := { store := s } }).2.ledger.calls.reverse

section Calls

variable {env : Nat → Answers}

/-- Calls are only added. -/
theorem calls_suffix {α : Type} (p : Prog α) (σ : Session) :
    σ.ledger.calls <:+ (p.run (Session.exec env) σ).2.ledger.calls := by
  induction p generalizing σ with
  | ret a => exact List.suffix_rfl
  | raise e => exact List.suffix_rfl
  | call e next ih =>
    have hstep : σ.ledger.calls <:+ (Session.exec env e σ).2.ledger.calls :=
      List.suffix_append _ _
    exact hstep.trans (ih _ _)

theorem calls_suffix_bind {α β : Type} (p : Prog α) (f : α → Prog β) (σ : Session) :
    (p.run (Session.exec env) σ).2.ledger.calls <:+
      ((p >>= f).run (Session.exec env) σ).2.ledger.calls := by
  rw [bind_def, run_bind]
  generalize p.run (Session.exec env) σ = out
  obtain ⟨r, σ'⟩ := out
  cases r with
  | ok a => exact calls_suffix _ _
  | error e => exact List.suffix_rfl

theorem calls_bind_suffix {α β : Type} (p : Prog α) {f g : α → Prog β} {σ : Session}
    (h : ∀ a σ, ((f a).run (Session.exec env) σ).2.ledger.calls <:+
      ((g a).run (Session.exec env) σ).2.ledger.calls) :
    ((p >>= f).run (Session.exec env) σ).2.ledger.calls <:+
      ((p >>= g).run (Session.exec env) σ).2.ledger.calls := by
  rw [bind_def, bind_def, run_bind, run_bind]
  generalize p.run (Session.exec env) σ = out
  obtain ⟨r, σ'⟩ := out
  cases r with
  | ok a => exact h a σ'
  | error e => exact List.suffix_rfl

/-- The calls of a program that is followed by one without any. -/
theorem calls_bind_idle {α β : Type} (p : Prog α) {f : α → Prog β} {σ : Session}
    (h : ∀ a σ, ((f a).run (Session.exec env) σ).2.ledger.calls = σ.ledger.calls) :
    ((p >>= f).run (Session.exec env) σ).2.ledger.calls =
      (p.run (Session.exec env) σ).2.ledger.calls := by
  rw [bind_def, run_bind]
  generalize p.run (Session.exec env) σ = out
  obtain ⟨r, σ'⟩ := out
  cases r with
  | ok a => exact h a σ'
  | error e => rfl

/-- What the drain without `stop_fn` goes on to do comes on top. -/
theorem drainLoopUntil_calls (stop : Nat → Except PyExc Bool) (fuel : Nat) (mem : RunMemory)
    (n : Nat) (σ : Session) :
    ((w.drainLoopUntil pf stop runId fuel mem n).run (Session.exec env) σ).2.ledger.calls <:+
      ((w.drainLoop pf runId fuel mem n).run (Session.exec env) σ).2.ledger.calls := by
  induction fuel generalizing mem n σ with
  | zero => exact List.suffix_rfl
  | succ fuel ih =>
    refine calls_bind_suffix (w.runOnce pf mem runId) fun done σ => ?_
    obtain ⟨mem, outcome⟩ := done
    rcases outcome with e | _ | t
    · exact ih mem n σ
    · exact List.suffix_rfl
    · dsimp only
      split
      · exact calls_suffix _ _
      · exact ih mem (n + 1) σ

theorem concludeDrain_calls (n : Nat) (σ : Session) :
    ((concludeDrain runId n).run (Session.exec env) σ).2.ledger.calls = σ.ledger.calls := by
  rw [concludeDrain, calls_bind_idle]
  · rw [call, run_call]
    cases (Session.exec env (.store (.listTasks runId)) σ).1 <;> rfl
  · intro tasks σ
    dsimp only
    split <;> rfl

theorem drainUntil_calls (stop : Nat → Except PyExc Bool) (fuel : Nat) (mem : RunMemory)
    (σ : Session) :
    ((w.drainUntil pf stop fuel mem runId).run (Session.exec env) σ).2.ledger.calls <:+
      ((w.drain pf fuel mem runId).run (Session.exec env) σ).2.ledger.calls := by
  refine calls_bind_suffix _ fun _ σ => ?_
  have hends : ∀ done σ, ((match done with
      | none => pure none
      | some n => do
        let ending ← concludeDrain runId n
        pure (some ending) : Prog (Option DrainEnd)).run (Session.exec env) σ).2.ledger.calls =
          σ.ledger.calls := by
    intro done σ
    cases done with
    | none => rfl
    | some n => exact (calls_bind_idle _ fun _ _ => rfl).trans (concludeDrain_calls n σ)
  exact (calls_bind_idle _ hends) ▸
    (drainLoopUntil_calls stop fuel mem 0 σ).trans (calls_suffix_bind _ _ σ)

end Calls

/-- **A drain goes by the keys.** Alone on the store, and with nothing of the run leased, it calls
the handler with tasks of the run in the order of their keys, whatever handler, hooks, clock and
`stop_fn` do; where keys are distinct, all attempts at one task come before the next task.
`stop_fn` does not change the calls that are made before it stops the drain. -/
theorem drain_in_key_order {s : StateStore} (pf : Platform) (w : LocalWorker)
    (hs : ∀ t ∈ s.tasksOf runId, t.status ≠ .leased) (stop : Nat → Except PyExc Bool) (fuel : Nat)
    (mem : RunMemory) (env : Nat → Answers) :
    let calls := handled (w.drainUntil pf stop fuel mem runId) env s
    (∀ id ∈ calls, ∃ t, s.task? id = some t ∧ t.runId = runId) ∧
    calls.Pairwise s.NotAfter ∧
    (((s.tasksOf runId).map (·.taskKey)).Nodup →
      ∀ id id', [id, id', id].Sublist calls → id' = id) ∧
    calls <+: handled (w.drain pf fuel mem runId) env s := by
  have hstart : InOrder s runId ⟨s, []⟩ :=
    { evolves := .refl s
      ours := fun id hid => by cases hid
      ordered := .nil
      unleased := hs
      waiting := fun t ht hst c hc => by cases hc }
  have hcalled : Called s runId
      ((w.drainUntil pf stop fuel mem runId).run (Session.exec env) ⟨⟨s, []⟩, 0⟩).2.ledger := by
    have hwp : (w.drainUntil pf stop fuel mem runId).wp (alone .any) (fun _ => InOrder s runId)
        (fun _ => InOrder s runId) (⟨⟨s, []⟩, 0⟩ : Session).ledger :=
      inOrder_drainUntil stop fuel mem hstart
    have hrun := Session.run_of_wp hwp fun n => Admits.any_meets (env n)
    generalize (w.drainUntil pf stop fuel mem runId).run (Session.exec env) ⟨⟨s, []⟩, 0⟩ = out
      at hrun ⊢
    obtain ⟨r, σ⟩ := out
    cases r <;> exact hrun.toCalled
  intro calls
  have hordered : calls.Pairwise s.NotAfter := List.pairwise_reverse.mpr hcalled.ordered
  refine ⟨fun id hid => hcalled.ours id (List.mem_reverse.mp hid), hordered, ?_, ?_⟩
  · intro hkeys id id' hsub
    have hthree : [id, id', id].Pairwise s.NotAfter := hordered.sublist hsub
    rw [List.pairwise_cons, List.pairwise_cons] at hthree
    have hmem : ∀ c ∈ [id, id', id], ∃ t, s.task? c = some t ∧ t.runId = runId :=
      fun c hc => hcalled.ours c (List.mem_reverse.mp (hsub.subset hc))
    obtain ⟨t, ht, hrun⟩ := hmem id (by simp)
    obtain ⟨t', ht', hrun'⟩ := hmem id' (by simp)
    have hkey : t.taskKey = t'.taskKey :=
      String.le_antisymm (hthree.1 id' (by simp) t t' ht ht')
        (hthree.2.1 id (by simp) t' t ht' ht)
    have hid := s.task?_taskId ht
    have hid' := s.task?_taskId ht'
    have hsame : t = t' := List.inj_on_of_nodup_map hkeys
      (s.mem_tasksOf.mpr ⟨hid.symm ▸ ht, hrun⟩) (s.mem_tasksOf.mpr ⟨hid'.symm ▸ ht', hrun'⟩) hkey
    rw [← hid, ← hid', hsame]
  · exact List.reverse_prefix.mpr (drainUntil_calls stop fuel mem _)

/-! ## Two tasks, two attempts each -/

/-- A run with two tasks; the one with the greater key comes first in the table. -/
def twoTasks : StateStore where
  backend := .sqlite
  tables := {
    runs := ⟨[{ runId := "r", name := "demo", status := .validated, config := [], createdAt := 0 }],
      List.nodup_singleton _⟩
    tasks := ⟨[pendingTask "b" [], pendingTask "a" []], by decide⟩
    events := []
    artifacts := [] }

/-- A handler that always fails, and a worker that tries twice. -/
theorem drain_in_key_order_twoTasks :
    let w : LocalWorker := { workerId := "A", retryPolicy := { maxAttempts := 2 } }
    let env : Nat → Answers := fun _ => .steady 0 (.error (.valueError "no data"))
    let calls := handled (w.drainUntil .bare (fun _ => .ok true) 5 [] "r") env twoTasks
    calls = ["a", "a", "b", "b"] ∧ calls.Pairwise twoTasks.NotAfter ∧
      ∀ id id', [id, id', id].Sublist calls → id' = id := by
  intro w env calls
  have hs : ∀ t ∈ twoTasks.tasksOf "r", t.status ≠ .leased := by decide +kernel
  have hkeys : ((twoTasks.tasksOf "r").map (·.taskKey)).Nodup := by decide +kernel
  obtain ⟨-, hordered, hconsecutive, -⟩ :=
    drain_in_key_order .bare w hs (fun _ => .ok true) 5 [] env
  exact ⟨by decide +kernel, hordered, hconsecutive hkeys⟩

end LocalWorker
end FineTuneHarness
