import FineTuneHarness.Executor.Appends
import FineTuneHarness.Orchestrator.StatusTrail

/-!
# The audit trail of a run's status

From `create_run` on, refreshes in one piece are the only writers of the run's status; its
tasks may change in any way in between. The end time is set where a refresh enters a terminal
status, and `PARTIAL_FAILED` is none.
-/
namespace FineTuneHarness

open Library Library.Program

/-- The `run_status_changed` events of a run, in order. -/
def StateStore.statusChanges (s : StateStore) (runId : RunId) : List EventRecord :=
  (s.eventsOf runId).filter fun e => e.kind = "run_status_changed"

theorem StateStore.statusChanges_append {s s' : StateStore} {es : List EventRecord}
    (h : s'.events = s.events ++ es) (runId : RunId) :
    s'.statusChanges runId = s.statusChanges runId ++
      es.filter (fun e => e.kind = "run_status_changed" ∧ e.runId = runId) := by
  simp only [statusChanges, eventsOf, h, List.filter_append, List.filter_filter,
    Bool.decide_and]

/-- One step: a refresh, a store call, or any rewriting of the task table. -/
inductive AuditStep
  | refresh (id : RunId)
  | call (op : StoreOp)
  | retask (tasks : Table TaskRecord TaskId TaskRecord.taskId)

def auditing : Machine StateStore (AuditStep × Answers) where
  step s
    | (.refresh id, a) => some (atomically (refreshRunStatus id) a s).2
    | (.call op, a) => some (s.exec op a.clock).2
    | (.retask tasks, _) => some { s with tables := { s.tables with tasks } }

/-- Nobody but the refreshes writes the status of the run, or an event that says so. -/
def Untampered (runId : RunId) : AuditStep → Prop
  | .call (.updateRunStatus id _) => id ≠ runId
  | .call (.appendEvent e) => ¬ (e.kind = "run_status_changed" ∧ e.runId = runId)
  | _ => True

/-- The events spell a walk from `VALIDATED` to the stored status, and a run that has ended
has an end time. -/
structure Audited (runId : RunId) (path : List RunStatus) (s : StateStore) : Prop where
  walk : IsWalk .validated path
  changes : s.statusChanges runId = walkEvents runId .validated path
  stored : ∃ r, s.run? runId = some r ∧ r.status = path.getLastD .validated ∧
    (r.status.terminal = true → r.finishedAt ≠ none)

section Runs

variable {runId : RunId} {path : List RunStatus} {s s' : StateStore}

theorem Audited.of_events (h : Audited runId path s) {es : List EventRecord}
    (hes : s'.events = s.events ++ es)
    (hnone : ∀ e ∈ es, ¬ (e.kind = "run_status_changed" ∧ e.runId = runId))
    (hr : ∃ r, s'.run? runId = some r ∧ r.status = path.getLastD .validated ∧
      (r.status.terminal = true → r.finishedAt ≠ none)) : Audited runId path s' := by
  refine ⟨h.walk, ?_, hr⟩
  have hnil : es.filter (fun e => e.kind = "run_status_changed" ∧ e.runId = runId) = [] := by
    rw [List.filter_eq_nil_iff]
    exact fun e he hk => hnone e he (of_decide_eq_true hk)
  rw [StateStore.statusChanges_append hes, hnil, List.append_nil]
  exact h.changes

/-- A call that is no tampering. -/
theorem Audited.call (h : Audited runId path s) {op : StoreOp} {clk : Clock}
    (hop : Untampered runId (.call op)) : Audited runId path (s.exec op clk).2 := by
  obtain ⟨es, hes, hlogs⟩ := s.exec_logs clk op
  obtain ⟨r, hr, hst, hend⟩ := h.stored
  apply h.of_events hes
  · rintro e he ⟨hkind, hrun⟩
    have hlog := hlogs e he
    cases op with
    | leaseNextPendingTask id w n | requeueExpiredLeases id =>
      rw [hlog.2] at hkind
      exact absurd hkind (by decide)
    | reclaimDeadWorker id w n =>
      rcases hlog.2 with hk | hk <;> (rw [hk] at hkind; exact absurd hkind (by decide))
    | appendEvent ev => exact hop ⟨hlog.2.2.symm.trans hkind, hlog.1.symm.trans hrun⟩
    | _ => exact hlog
  · refine ⟨_, s.exec_run? clk hr op, ?_⟩
    cases op with
    | updateRunStatus id st =>
      have hid : id ≠ runId := hop
      rw [StateStore.runAfter, if_neg hid]
      exact ⟨hst, hend⟩
    | updateRunFinishedAt id t =>
      by_cases hid : id = runId
      · rw [StateStore.runAfter, if_pos hid]
        exact ⟨hst, fun _ => Option.some_ne_none t⟩
      · rw [StateStore.runAfter, if_neg hid]
        exact ⟨hst, hend⟩
    | _ => exact ⟨hst, hend⟩

/-- A refresh of the run extends the path by its route. -/
theorem Audited.refreshed {run : RunRecord} {target : RunStatus} (h : Audited runId path s)
    (hr : s.run? runId = some run) (hreach : run.status.canReach target = true)
    (href : Refreshed runId run target s s') :
    Audited runId (path ++ run.status.route target) s' := by
  obtain ⟨r, hr', hst, hend⟩ := h.stored
  obtain rfl := Option.some.inj (hr.symm.trans hr')
  obtain ⟨r', hrun', hst', hset, hkept⟩ := href.stored
  constructor
  · apply h.walk.append
    rw [← hst]
    exact isWalk_route hreach
  · rw [StateStore.statusChanges_append href.events, walkEvents_append, ← hst, h.changes]
    congr 1
    rw [List.filter_eq_self]
    intro e he
    have hkind := walkEvents_kind he
    exact decide_eq_true ⟨hkind.2, hkind.1⟩
  · refine ⟨r', hrun', ?_, fun hterm => ?_⟩
    · rw [walk_end_append, ← hst, route_getLastD, hst']
    · by_cases hs : Stamps run target
      · exact hset hs
      · rw [hkept hs]
        rw [hst'] at hterm
        simp only [Stamps, not_and] at hs
        by_cases heq : target = run.status
        · exact hend (heq ▸ hterm)
        · exact hs heq hterm

/-- The refresh of any run. -/
theorem Audited.refresh (h : Audited runId path s) (id : RunId) (a : Answers) :
    ∃ more, Audited runId (path ++ more) (atomically (refreshRunStatus id) a s).2 := by
  have hsame : path ++ [] = path := List.append_nil path
  rcases refresh_trail s id a with ⟨run, s', hr, hreach, hok, hon, href⟩ | ⟨e, herr⟩
  · rw [hok]
    by_cases hid : id = runId
    · subst hid
      exact ⟨_, h.refreshed hr hreach href⟩
    · refine ⟨[], hsame.symm ▸ h.of_events href.events (fun e he hk => ?_) ?_⟩
      · exact hid ((walkEvents_kind he).1.symm.trans hk.2)
      · rw [hon.others runId (Ne.symm hid)]
        exact h.stored
  · rw [herr]
    exact ⟨[], hsame.symm ▸ h⟩

/-- **One step.** -/
theorem Audited.step {e : AuditStep × Answers} (h : ∃ path, Audited runId path s)
    (hC : Untampered runId e.1) (hs : auditing.step s e = some s') :
    ∃ path, Audited runId path s' := by
  obtain ⟨path, h⟩ := h
  obtain ⟨e, a⟩ := e
  cases e with
  | refresh id =>
    obtain rfl := Option.some.inj hs
    obtain ⟨more, h'⟩ := h.refresh id a
    exact ⟨_, h'⟩
  | call op =>
    obtain rfl := Option.some.inj hs
    exact ⟨path, h.call hC⟩
  | retask tasks =>
    obtain rfl := Option.some.inj hs
    exact ⟨path, h.walk, h.changes, h.stored⟩

end Runs

/-- A created run has an empty trail. -/
theorem alone_createRun_audited {ok : Admits} (hok : ¬ ok.refreshable) (pf : Platform)
    (name : String) (config : Dict) (payloads : List Dict) (l : Ledger) :
    (createRun pf name config payloads).wp (alone ok)
      (fun runId l' => l.store.eventsOf runId = [] → Audited runId [] l'.store)
      (fun _ _ => True) l := by
  have hboth := wp_and (alone_createRun_stores pf name config payloads l hok)
    (alone_appends hok (createRun_appends pf name config payloads) l)
  refine wp_mono hboth (fun runId l' h hnone => ?_) fun _ _ _ => trivial
  obtain ⟨⟨-, record, clk, s', hx, hrecord, rfl, hkept⟩, es, hes, hkinds⟩ := h
  refine ⟨trivial, ?_, ?_⟩
  · rw [StateStore.statusChanges_append hes, StateStore.statusChanges, hnone]
    apply List.filter_eq_nil_iff.mpr
    intro e he hk
    have hkind := hkinds e he
    rw [(of_decide_eq_true hk).1] at hkind
    exact absurd hkind (by decide)
  · rcases l.store.createRun_cases clk record with ⟨r, hnew, hr, hid, -, -, hfin, -⟩ | ⟨e, hr⟩
    · rw [hx] at hr
      obtain rfl := (Prod.mk.inj hr).2
      refine ⟨_, hkept r ?_, rfl, fun hterm => absurd hterm (by simp [RunStatus.terminal])⟩
      rw [StateStore.addRun_run?, if_pos hid.symm]
    · rw [hx] at hr
      cases (Prod.mk.inj hr).1

/-- **The audit trail of a run.** From `create_run` on, the run's `run_status_changed` events
spell a walk along the edges of the lifecycle from `VALIDATED` to the stored status; a refresh
that raises changes nothing, and one that returns leaves an end time that is set. -/
theorem status_audit_trail (pf : Platform) (env : Nat → Answers) (name : String) (config : Dict)
    (payloads : List Dict) (s₀ : StateStore) (runId : RunId) (σ : Session)
    (created : (createRun pf name config payloads).run (Session.exec env) ⟨⟨s₀, []⟩, 0⟩ =
      (.ok runId, σ))
    (new : s₀.eventsOf runId = []) {s : StateStore}
    (h : auditing.Steps (fun _ e => Untampered runId e.1) σ.ledger.store s) :
    (∃ path, IsWalk .validated path ∧
      s.statusChanges runId = walkEvents runId .validated path ∧
      (s.run? runId).map (·.status) = some (path.getLastD .validated)) ∧
    (∀ a e s', atomically (refreshRunStatus runId) a s = (.error e, s') → s' = s) ∧
    ∀ a r t, s.run? runId = some r → r.finishedAt = some t →
      ∃ r', (atomically (refreshRunStatus runId) a s).2.run? runId = some r' ∧
        r'.finishedAt = some t := by
  have h₀ := Session.run_of_wp (s := ⟨⟨s₀, []⟩, 0⟩)
    (@alone_createRun_audited .any id pf name config payloads ⟨s₀, []⟩)
    fun n => Admits.any_meets (env n)
  rw [created] at h₀
  obtain ⟨path, haudit⟩ := h.invariant ⟨[], h₀ new⟩ fun _ _ _ hin hC hs => Audited.step hin hC hs
  refine ⟨⟨path, haudit.walk, haudit.changes, ?_⟩, fun a e s' he => ?_, fun a r t hr ht => ?_⟩
  · obtain ⟨r, hr, hst, -⟩ := haudit.stored
    rw [hr, Option.map_some, hst]
  · rcases refresh_trail s runId a with ⟨run, s'', -, -, hok, -⟩ | ⟨e', herr⟩
    · rw [hok] at he
      cases (Prod.mk.inj he).1
    · rw [herr] at he
      exact (Prod.mk.inj he).2.symm
  · rcases refresh_trail s runId a with ⟨run, s', hr', -, hok, -, href⟩ | ⟨e, herr⟩
    · obtain rfl := Option.some.inj (hr.symm.trans hr')
      obtain ⟨r', hrun', -, -, hkept⟩ := href.stored
      have hset : ¬ Stamps r (targetStatus (s.tasksOf runId)) := fun hs => by
        rw [hs.2.2] at ht
        cases ht
      exact ⟨r', by rw [hok]; exact hrun', (hkept hset).trans ht⟩
    · exact ⟨r, by rw [herr]; exact hr, ht⟩

/-- The task of a run is leased, executed and succeeds; the run is refreshed twice. -/
def auditedTask : List (AuditStep × Answers) :=
  let a := Answers.steady 0 (.ok .none)
  [(.call (.leaseNextPendingTask "0" "A" 300), a), (.refresh "0", a),
    (.call (.incrementTaskAttempts "7"), a), (.call (.markTaskRunning "7"), a),
    (.call (.updateTaskStatus "7" .succeeded (some []) none), a), (.refresh "0", a)]

theorem audited_task_completes : ∃ (σ : Session) (s : StateStore),
    demoRun .bare .sqlite [[]] = (.ok "0", σ) ∧ auditing.run σ.ledger.store auditedTask = some s ∧
    (s.statusChanges "0").length = 2 ∧
    ∃ path, IsWalk .validated path ∧ s.statusChanges "0" = walkEvents "0" .validated path ∧
      (s.run? "0").map (·.status) = some (path.getLastD .validated) := by
  have hrun : ((auditing.run (demoRun .bare .sqlite [[]]).2.ledger.store auditedTask).any fun s =>
      (s.statusChanges "0").length = 2) = true := by decide +kernel
  obtain ⟨s, hs, hlen⟩ := Option.any_eq_true _ _ |>.mp hrun
  have hcreated : demoRun .bare .sqlite [[]] = (.ok "0", (demoRun .bare .sqlite [[]]).2) :=
    demoRun_eq (by decide +kernel)
  refine ⟨_, s, hcreated, hs, of_decide_eq_true hlen, ?_⟩
  have hsteps := Machine.steps_of_run (C := fun _ e => Untampered "0" e.1) hs
    (Machine.along_of_forall (by simp [auditedTask, Untampered]) _)
  exact (status_audit_trail .bare (Answers.numbered 0) "demo" demoConfig [[]] (.empty .sqlite) "0"
    _ hcreated rfl hsteps).1

/-! ## The end time -/

end FineTuneHarness
