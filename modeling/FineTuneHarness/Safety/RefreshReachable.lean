import FineTuneHarness.Executor.Fleet
import FineTuneHarness.Orchestrator.Creation

/-!
# When a refresh is refused

The target status is computed from tasks that can move backwards: a leased task that nobody
has counted yet goes back to the queue, and nothing is left of the lease. If the run was
stored as `RUNNING` meanwhile, its target is `VALIDATED` again, and no edge leads there.
-/
namespace FineTuneHarness

open Library Library.Program

/-- The store calls of workers and of maintenance. -/
def workerCall : StoreOp → Bool
  | .leaseNextPendingTask .. | .incrementTaskAttempts _ | .markTaskRunning _
  | .requeueExpiredLeases _ | .reclaimDeadWorker .. | .appendEvent _ | .createArtifact _
  | .getRun _ | .listTasks _ | .listEvents _ => true
  | .updateTaskStatus _ st _ _ => st ∈ [.succeeded, .failed, .timedOut, .degenerate, .pending]
  | _ => false

/-- One atomic step of the workers or of maintenance, or a refresh in one piece. -/
inductive RunEvent
  | call (op : StoreOp) (allowed : workerCall op = true)
  | refresh (runId : RunId)
  | getStatus (runId : RunId)

def runEvents : Machine StateStore (RunEvent × Answers) where
  step s
    | (.call op _, a) => some (s.exec op a.clock).2
    | (.refresh runId, a) => some (atomically (refreshRunStatus runId) a s).2
    | (.getStatus runId, a) => some (atomically (getRunStatus runId) a s).2

/-- The next refresh of the run is refused for its transition. -/
def RefreshRefused (runId : RunId) (s : StateStore) : Prop :=
  ∃ a current target, (atomically (refreshRunStatus runId) a s).1 =
    .error (invalidRunTransition current target)

/-- The call puts the task back into the queue. -/
def PutsBack (s : StateStore) (clk : Clock) : StoreOp → TaskRecord → Prop
  | .requeueExpiredLeases id, t => InMemory.expired id clk.now t = true
  | .reclaimDeadWorker id w n, t => s.heldBy id w = some t ∧ (s.priorReclaims t.taskId : Int) < n
  | .updateTaskStatus id st r _, t =>
    t.taskId = id ∧ st = .pending ∧ t.status = .running ∧ (s.keep r).isOk = true
  | _, _ => False

/-- While the run is stored as `RUNNING`, some task has an attempt on record, or is in
hand and stays so. -/
def KeepsTrace (runId : RunId) (s : StateStore) : RunEvent × Answers → Prop
  | (.call op _, a) => ∀ r, s.run? runId = some r → r.status = .running →
    ∃ t ∈ s.tasksOf runId, 0 < t.attemptCount ∨
      t.status ≠ .pending ∧ ¬ PutsBack s a.clock op t
  | _ => True

/-! ## One store call -/

section Call

variable {s : StateStore} {clk : Clock} {op : StoreOp} {runId : RunId}

theorem workerCall_keeps (h : workerCall op = true) : StateStore.keepsTasks op := by
  cases op <;> trivial

theorem workerCall_run? (h : workerCall op = true) :
    (s.exec op clk).2.run? runId = s.run? runId := by
  cases op <;> try cases h
  case getRun id => rw [s.exec_getRun]
  case listTasks id => rw [s.exec_listTasks]
  case listEvents id => rw [s.exec_listEvents]
  case updateTaskStatus id st r e =>
    rcases s.update_cases clk id st r e with ⟨t, r', -, -, -, hx⟩ | ⟨x, hx, -⟩ <;> rw [hx]
    rfl
  case leaseNextPendingTask id w n =>
    rcases s.lease_cases clk id w n with ⟨t, es, -, -, -, hx⟩ | ⟨-, hx⟩ <;> rw [hx]
    rfl
  case markTaskRunning id =>
    rcases s.mark_cases clk id with ⟨t, -, -, hx⟩ | ⟨-, hx⟩ <;> rw [hx]
    rfl
  case incrementTaskAttempts id =>
    rcases s.increment_cases clk id with ⟨t, -, hx⟩ | ⟨x, hx⟩ <;> rw [hx]
    rfl
  case requeueExpiredLeases id => rw [s.exec_requeueExpiredLeases]; rfl
  case reclaimDeadWorker id w n =>
    rcases s.reclaim_cases clk id w n with ⟨t, f, es, -, -, -, -, -, hid, hx⟩ | ⟨-, hx⟩
    · rw [hx]; rfl
    · rw [hx]
  case appendEvent e =>
    rw [s.exec_appendEvent]
    split <;> rfl
  case createArtifact x =>
    rcases s.exec_createArtifact clk x with hx | ⟨e, hx⟩ <;> rw [hx]
    rfl

/-- A task is pending after a call because it was, or because the call put it back. -/
theorem pending_after {id : TaskId} {t t' : TaskRecord} (h : workerCall op = true)
    (ht : s.task? id = some t) (ht' : (s.exec op clk).2.task? id = some t')
    (hp : t'.status = .pending) : t.status = .pending ∨ PutsBack s clk op t := by
  have hc := StateStore.exec_row_some clk (workerCall_keeps h) ht ht'
  cases hc with
  | same | count => exact .inl hp
  | lease | mark | abandon => cases hp
  | settle edge kept =>
    obtain rfl : _ = TaskStatus.pending := hp
    refine .inr ⟨rfl, rfl, ?_, by rw [kept]; rfl⟩
    cases hs : t.status <;> rw [hs] at edge <;> first | rfl | simp [allowedTaskTransitions] at edge
  | expire expired => exact .inr expired
  | reclaim held budget => exact .inr ⟨held, budget⟩

/-- What a call puts back is pending afterwards, under the same attempt count. -/
theorem put_back_after {t : TaskRecord} (ht : s.task? t.taskId = some t)
    (hp : PutsBack s clk op t) :
    ∃ t', (s.exec op clk).2.task? t.taskId = some t' ∧ t'.status = .pending ∧
      t'.attemptCount = t.attemptCount := by
  cases op <;> try exact hp.elim
  case requeueExpiredLeases id =>
    refine ⟨t.release, ?_, rfl, rfl⟩
    rw [s.exec_requeueExpiredLeases, StateStore.addEvents_task?, StateStore.updateTasks_task?, ht]
    exact congrArg some (if_pos hp)
  case reclaimDeadWorker id w n =>
    refine ⟨t.release, ?_, rfl, rfl⟩
    rw [s.exec_reclaimDeadWorker, hp.1]
    have hn : ¬ (s.priorReclaims t.taskId : Int) ≥ n := by have := hp.2; omega
    simp only [if_neg hn, StateStore.addEvents_task?, StateStore.modifyTask_task?_self, ht,
      Option.map_some]
  case updateTaskStatus id st r e =>
    obtain ⟨rfl, rfl, hrun, hk⟩ := hp
    cases hkeep : s.keep r with
    | error x => rw [hkeep] at hk; cases hk
    | ok r' =>
      refine ⟨t.settle .pending r' e, ?_, rfl, rfl⟩
      have hedge : ensureTaskTransition t.status .pending = .ok () := by rw [hrun]; rfl
      rw [s.exec_updateTaskStatus, ht]
      simp only [hedge, hkeep, StateStore.modifyTask_task?_self, ht, Option.map_some]

/-- A call that puts some task back leaves the other pending tasks as they are. -/
theorem pending_stays {id : TaskId} {t t' t₀ : TaskRecord} (h : workerCall op = true)
    (hp : PutsBack s clk op t₀) (ht : s.task? id = some t)
    (ht' : (s.exec op clk).2.task? id = some t') (hst : t.status = .pending) :
    t'.status = .pending ∧ t'.attemptCount = t.attemptCount := by
  have hc := StateStore.exec_row_some clk (workerCall_keeps h) ht ht'
  cases hc with
  | same => exact ⟨hst, rfl⟩
  | count | lease | mark => exact hp.elim
  | settle edge kept =>
    obtain ⟨-, rfl, -⟩ := hp
    exact ⟨rfl, rfl⟩
  | expire | reclaim => exact ⟨rfl, rfl⟩
  | abandon held spent =>
    rcases (s.heldBy_some held).2.2.2 with hl | hl <;> rw [hl] at hst <;> cases hst

/-- Workers cancel nothing. -/
theorem not_cancelled_after {id : TaskId} {t t' : TaskRecord} (h : workerCall op = true)
    (ht : s.task? id = some t) (ht' : (s.exec op clk).2.task? id = some t')
    (hn : t.status ≠ .cancelled) : t'.status ≠ .cancelled := by
  have hc := StateStore.exec_row_some clk (workerCall_keeps h) ht ht'
  cases hc with
  | same | count => exact hn
  | settle edge kept =>
    rintro rfl
    simp [workerCall] at h
  | lease | mark | expire | reclaim | abandon => exact fun hx => by cases hx

end Call

/-! ## The runs that are never refused -/

section Runs

variable {s : StateStore} {runId : RunId}

/-- What holds of the run and its tasks between two steps. -/
structure Tracked (runId : RunId) (s : StateStore) : Prop where
  run : ∃ r, s.run? runId = some r ∧ Fits (s.tasksOf runId) r.status ∧
    (r.status = .running → ¬ Untouched s runId)
  uncancelled : ∀ t ∈ s.tasksOf runId, t.status ≠ .cancelled

theorem FreshRun.tracked {seed : Option Int} {n : Nat} (h : FreshRun runId seed n s) :
    Tracked runId s where
  run := by
    obtain ⟨r, hr, hst, -⟩ := h.run
    exact ⟨r, hr, by rw [hst]; trivial, fun hrun => by rw [hst] at hrun; cases hrun⟩
  uncancelled := fun t ht hc => by rw [(h.untouched t ht).1] at hc; cases hc

/-- A tracked run is not refused. -/
theorem Tracked.not_refused (h : Tracked runId s) : ¬ RefreshRefused runId s := by
  rintro ⟨a, current, target, he⟩
  obtain ⟨r, hr, hfit, hrun⟩ := h.run
  have hspec := refresh_atomically s runId a
  rw [hr] at hspec
  dsimp only at hspec
  split at hspec
  next =>
    obtain ⟨s', r', hok, -⟩ := hspec
    rw [hok] at he
    cases he
  next hstuck =>
    rw [canReach_target hfit, not_not] at hstuck
    exact hrun hstuck.1 ((targetStatus_eq_validated h.uncancelled).mp hstuck.2)

/-- A run stored as `RUNNING` whose tasks are all untouched is refused. -/
theorem refused_of_untouched {r : RunRecord} (hr : s.run? runId = some r)
    (hst : r.status = .running) (hu : Untouched s runId) : RefreshRefused runId s := by
  have htarget : targetStatus (s.tasksOf runId) = .validated := targetStatus_validated hu
  have hspec := refresh_atomically s runId (Answers.steady 0 (.ok .none))
  rw [hr] at hspec
  dsimp only at hspec
  rw [hst, htarget, if_neg (by decide)] at hspec
  exact ⟨_, _, _, congrArg Prod.fst hspec⟩

theorem Tracked.of_onRun {id : RunId} {s' : StateStore} (h : Tracked runId s)
    (ho : OnRun id s s')
    (hr : id = runId → ∃ r', s'.run? id = some r' ∧ r'.status = targetStatus (s.tasksOf id)) :
    Tracked runId s' := by
  have htasks : s'.tasksOf runId = s.tasksOf runId := ho.tasksOf runId
  refine ⟨?_, by rw [htasks]; exact h.uncancelled⟩
  by_cases hid : id = runId
  · subst hid
    obtain ⟨r', hr', hst⟩ := hr rfl
    refine ⟨r', hr', by rw [htasks, hst]; exact fits_targetStatus, fun hrun hu => ?_⟩
    have hu' : Untouched s id := fun t ht => hu t (by rw [htasks]; exact ht)
    rw [hst, targetStatus_validated hu'] at hrun
    cases hrun
  · obtain ⟨r, hr, hfit, hrun⟩ := h.run
    refine ⟨r, by rw [ho.others runId (Ne.symm hid)]; exact hr, by rw [htasks]; exact hfit,
      fun hst hu => hrun hst fun t ht => hu t (by rw [htasks]; exact ht)⟩

theorem Tracked.refresh (h : Tracked runId s) (id : RunId) (a : Answers) :
    Tracked runId (atomically (refreshRunStatus id) a s).2 := by
  have hspec := refresh_atomically s id a
  cases hr : s.run? id with
  | none => rw [hr] at hspec; rw [hspec]; exact h
  | some r =>
    rw [hr] at hspec
    dsimp only at hspec
    split at hspec
    next =>
      obtain ⟨s', r', he, ho, hr', hst⟩ := hspec
      rw [he]
      exact h.of_onRun ho fun _ => ⟨r', hr', hst⟩
    next => rw [hspec]; exact h

/-- `get_run_status` leaves the store as its refresh leaves it. -/
theorem getRunStatus_store (id : RunId) (a : Answers) :
    (atomically (getRunStatus id) a s).2 = (atomically (refreshRunStatus id) a s).2 := by
  unfold atomically getRunStatus
  rw [bind_def, Program.run_bind]
  generalize (refreshRunStatus id).run (Session.exec fun _ => a) ⟨⟨s, []⟩, 0⟩ = out
  obtain ⟨r, ⟨s', c⟩, n⟩ := out
  cases r with
  | error e => rfl
  | ok st =>
    dsimp only
    rw [call, bind_def, Program.bind, run_call]
    simp only [Session.exec, Effect.perform, s'.exec_getRun, Program.ofExcept, Program.bind]
    cases s'.run? id with
    | none => rfl
    | some r =>
      simp only [call, bind_def, Program.bind, run_call, Session.exec, Effect.perform,
        s'.exec_listTasks, Program.ofExcept]
      rfl

theorem Tracked.call {op : StoreOp} {a : Answers} (h : Tracked runId s)
    {hw : workerCall op = true} (hC : KeepsTrace runId s (.call op hw, a)) :
    Tracked runId (s.exec op a.clock).2 := by
  have hev := s.exec_evolves a.clock (workerCall_keeps hw)
  obtain ⟨r, hr, hfit, hrun⟩ := h.run
  refine ⟨⟨r, by rw [workerCall_run? hw]; exact hr, hfit.evolves hev, fun hst hu => ?_⟩, ?_⟩
  · obtain ⟨t, ht, hkeep⟩ := hC r hr hst
    obtain ⟨t', ht', hl⟩ := hev.mem_tasksOf ht
    have hu' := hu t' ht'
    rcases hkeep with hpos | ⟨hne, hnot⟩
    · have := hl.attempts
      omega
    · have hrow := ((s.exec op a.clock).2.mem_tasksOf.mp ht').1
      rw [hl.taskId] at hrow
      rcases pending_after hw (s.mem_tasksOf.mp ht).1 hrow hu'.1 with hp | hp
      · exact hne hp
      · exact hnot hp
  · intro t' ht'
    obtain ⟨t, ht, hl⟩ := hev.of_mem_tasksOf ht'
    have hrow := ((s.exec op a.clock).2.mem_tasksOf.mp ht').1
    rw [hl.taskId] at hrow
    exact not_cancelled_after hw (s.mem_tasksOf.mp ht).1 hrow (h.uncancelled t ht)

theorem Tracked.step {s' : StateStore} {e : RunEvent × Answers} (h : Tracked runId s)
    (hC : KeepsTrace runId s e) (hs : runEvents.step s e = some s') : Tracked runId s' := by
  obtain ⟨e, a⟩ := e
  cases e with
  | call op hw =>
    obtain rfl := Option.some.inj hs
    exact h.call hC
  | refresh id =>
    obtain rfl := Option.some.inj hs
    exact h.refresh id a
  | getStatus id =>
    obtain rfl := Option.some.inj hs
    rw [getRunStatus_store]
    exact h.refresh id a

/-- A call that puts the last started task back gets the next refresh refused. -/
theorem Tracked.refused_after {op : StoreOp} {hw : workerCall op = true} {a : Answers}
    (h : Tracked runId s) (hC : ¬ KeepsTrace runId s (.call op hw, a)) :
    RefreshRefused runId (s.exec op a.clock).2 := by
  simp only [KeepsTrace, not_forall, not_exists, not_and, not_or, not_not] at hC
  obtain ⟨r, hr, hst, hall⟩ := hC
  obtain ⟨r', hr', -, hrun⟩ := h.run
  obtain rfl := Option.some.inj (hr.symm.trans hr')
  -- some task is not pending, so the call puts something back
  obtain ⟨t₀, ht₀, hp₀⟩ : ∃ t₀ ∈ s.tasksOf runId, PutsBack s a.clock op t₀ := by
    by_contra hno
    refine hrun hst fun t ht => ?_
    obtain ⟨h0, hp⟩ := hall t ht
    by_cases hpend : t.status = .pending
    · exact ⟨hpend, by omega⟩
    · exact absurd ⟨t, ht, hp hpend⟩ hno
  refine refused_of_untouched (by rw [workerCall_run? hw]; exact hr) hst fun t' ht' => ?_
  obtain ⟨t, ht, hl⟩ := (s.exec_evolves a.clock (workerCall_keeps hw)).of_mem_tasksOf ht'
  obtain ⟨h0, hp⟩ := hall t ht
  have hrow := (s.mem_tasksOf.mp ht).1
  have hrow' := ((s.exec op a.clock).2.mem_tasksOf.mp ht').1
  rw [hl.taskId] at hrow'
  by_cases hpend : t.status = .pending
  · obtain ⟨h1, h2⟩ := pending_stays hw hp₀ hrow hrow' hpend
    exact ⟨h1, by omega⟩
  · obtain ⟨t'', hr'', h1, h2⟩ := put_back_after hrow (hp hpend)
    obtain rfl := Option.some.inj (hrow'.symm.trans hr'')
    exact ⟨h1, by omega⟩

/-- **No refresh is refused exactly where some trace of the started tasks is kept.** From a
run that `create_run` has returned, a refresh is never refused along a sequence of steps if
and only if, while the run is stored as `RUNNING`, every store call leaves a task with an
attempt on record or a task in hand. -/
theorem refresh_never_refused_iff (pf : Platform) (env : Nat → Answers) (name : String)
    (config : Dict) (payloads : List Dict) (s₀ : StateStore) (runId : RunId) (σ : Session)
    (created : (createRun pf name config payloads).run (Session.exec env) ⟨⟨s₀, []⟩, 0⟩ =
      (.ok runId, σ))
    (new : s₀.tasksOf runId = []) (events : List (RunEvent × Answers)) :
    runEvents.Always (fun s => ¬ RefreshRefused runId s) σ.ledger.store events ↔
      runEvents.Along (KeepsTrace runId) σ.ledger.store events := by
  refine Machine.always_iff_along (K := Tracked runId) (fun s h => h.not_refused)
    (fun s e s' h hC hs => h.step hC hs) (fun s e h hC => ?_) ?_
  · obtain ⟨e, a⟩ := e
    cases e with
    | refresh | getStatus => exact absurd trivial hC
    | call op hw => exact ⟨_, rfl, not_not.mpr (h.refused_after hC)⟩
  · have hfresh := Session.run_of_wp (s := ⟨⟨s₀, []⟩, 0⟩)
      (alone_createRun pf name config payloads s₀ id) fun n => Admits.any_meets (env n)
    rw [created] at hfresh
    obtain ⟨seed, -, hf⟩ := hfresh new
    exact hf.tracked

/-- A lease, a refresh, and the lease expires. -/
def leaseLost : List (RunEvent × Answers) :=
  [(.call (.leaseNextPendingTask "0" "A" 300) rfl, .steady 0 (.ok .none)),
    (.refresh "0", .steady 0 (.ok .none)),
    (.call (.requeueExpiredLeases "0") rfl, .steady 400000000 (.ok .none))]

/-- A run with one task, on SQLite. -/
private theorem demo_created : ∃ σ : Session, demoRun .bare .sqlite [[]] = (.ok "0", σ) ∧
    (runEvents.run σ.ledger.store leaseLost).any (fun s =>
      (s.run? "0").any (·.status = .running) &&
        (s.tasksOf "0").all fun t => t.status = .pending && t.attemptCount = 0) = true := by
  have hid : (demoRun .bare .sqlite [[]]).1.toOption = some "0" := by decide +kernel
  refine ⟨(demoRun .bare .sqlite [[]]).2, ?_, by decide +kernel⟩
  generalize demoRun .bare .sqlite [[]] = out at hid
  obtain ⟨r, σ⟩ := out
  cases r with
  | error e => cases hid
  | ok id => rw [Option.some.inj hid]

/-- The rule at work on the lost lease. -/
theorem refresh_after_lost_lease : ∃ σ : Session,
    demoRun .bare .sqlite [[]] = (.ok "0", σ) ∧
    (runEvents.Always (fun s => ¬ RefreshRefused "0" s) σ.ledger.store leaseLost ↔
      runEvents.Along (KeepsTrace "0") σ.ledger.store leaseLost) := by
  obtain ⟨σ, hσ, -⟩ := demo_created
  exact ⟨σ, hσ, refresh_never_refused_iff .bare (Answers.numbered 0) "demo" demoConfig [[]]
    (.empty .sqlite) "0" σ hσ (by rfl) leaseLost⟩

/-- **The lost lease.** A worker leases the only task of a run and dies; the run is refreshed
to `RUNNING`, the lease expires and is requeued, and the next refresh is refused. -/
theorem lost_lease_refuses_refresh : ∃ (σ : Session) (s : StateStore),
    demoRun .bare .sqlite [[]] = (.ok "0", σ) ∧ runEvents.Reaches σ.ledger.store s ∧
    RefreshRefused "0" s := by
  obtain ⟨σ, hσ, hb⟩ := demo_created
  obtain ⟨s, hs, hb⟩ := Option.any_eq_true _ _ |>.mp hb
  simp only [Bool.and_eq_true, Option.any_eq_true, decide_eq_true_eq, List.all_eq_true] at hb
  obtain ⟨⟨r, hr, hst⟩, hu⟩ := hb
  exact ⟨σ, s, hσ, Machine.reaches_of_run hs, refused_of_untouched hr hst hu⟩

end Runs
end FineTuneHarness
