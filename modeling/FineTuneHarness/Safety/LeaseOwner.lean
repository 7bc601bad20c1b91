import FineTuneHarness.Executor.Discipline

/-!
# The lease owner of a running task

`reclaim_dead_worker` finds a dead worker's task by `lease_owner`, which the lease writes;
`mark_task_running` compares the status only. A worker that wakes up after its lease has
been taken over marks the task under the other worker's name. The owner is the executor in
exactly those runs in which every mark happens while the lease is still the marker's own.
-/
namespace FineTuneHarness

open Library

/-- Every running task is owned by the worker whose mark moved it to `RUNNING`. -/
def OwnerExecutes (p : FleetState) : Prop :=
  ∀ t r, p.shared.store.task? t = some r → r.status = .running →
    ∃ w, executor t p.shared.log = some w ∧ r.leaseOwner = some w

/-- A leased task is marked only while its lease belongs to the marker. -/
def marksOwnLease : FleetGuard where
  call := fun s i e _ => ∀ t r, e = .store (.markTaskRunning t) → s.store.task? t = some r →
    r.status = .leased → r.leaseOwner = some i

/-- The invariant, on the trace alone. -/
def Owned (s : Traced) (_ : WorkerId → Int × Phase) : Prop :=
  ∀ t r, s.store.task? t = some r → r.status = .running →
    ∃ w, executor t s.log = some w ∧ r.leaseOwner = some w

theorem executor_plain {e : Entry} (h : e.Plain) (t : TaskId) (log : List Entry) :
    executor t (e :: log) = executor t log := by
  simp [executor, (h t).1]

/-- A write on one row that leaves it not running, or running as it was. -/
theorem Owned.row_step {s : Traced} {l l' : WorkerId → Int × Phase} (h : Owned s l) {e : Entry}
    (he : ∀ t, e.marks t = false) {store : StateStore} (id : TaskId)
    (f : TaskRecord → TaskRecord)
    (hs : ∀ t, store.task? t = if t = id then (s.store.task? id).map f else s.store.task? t)
    (hf : ∀ r, (f r).status = .running →
      r.status = .running ∧ (f r).leaseOwner = r.leaseOwner) :
    Owned { s with store, log := e :: s.log } l' := by
  intro t r hr hrun
  have hex : executor t (e :: s.log) = executor t s.log := by simp [executor, he t]
  rw [hex]
  rw [hs] at hr
  split at hr
  next ht =>
    subst ht
    obtain ⟨r', hr', rfl⟩ := Option.map_eq_some_iff.mp hr
    obtain ⟨hst, ho⟩ := hf r' hrun
    rw [ho]
    exact h t r' hr' hst
  next => exact h t r hr hrun

theorem owned_call_step {s : Traced} {l : WorkerId → Int × Phase} (h : Owned s l)
    {i : WorkerId} {e : Effect} (a : Answers) (hm : (discipline i).may (l i) e)
    (hG : marksOwnLease.call s i e a) (l' : WorkerId → Int × Phase) :
    Owned { s with store := (e.perform a s.store).2, log := ⟨i, e, (e.perform a s.store).1⟩ :: s.log }
      l' := by
  have hc := perform_cases (show (l i).2.may i (l i).1 e from hm) a s.store
  generalize hen : (⟨i, e, (e.perform a s.store).1⟩ : Entry) = en at hc ⊢
  generalize (e.perform a s.store).2 = s' at hc ⊢
  generalize (l i).2 = ph at hc
  generalize ph.next (l i).1 e (e.perform a s.store).1 = ph' at hc
  rcases hc with hidle | hrow
  · intro t r hr hrun
    rw [executor_plain hidle.plain]
    have hr' : s.store.task? t = some r := by
      rw [StateStore.task?, hidle.tasks] at hr
      exact hr
    exact h t r hr' hrun
  · cases hrow with
    | @lease t es runId n row run free =>
      refine h.row_step (fun _ => rfl) t.taskId (·.leaseTo i (leaseUntil a.clock.later n))
        (fun _ => ?_) fun r hrun => ?_
      · rw [StateStore.addEvents_task?, StateStore.modifyTask_task?]
      · cases hrun
    | @count t id row =>
      refine h.row_step (fun _ => rfl) id TaskRecord.countAttempt (fun _ => ?_)
        fun r hrun => ?_
      · rw [StateStore.modifyTask_task?]
      · exact ⟨hrun, rfl⟩
    | @settle t id st r r' err ph row edge settled executes kept oom =>
      refine h.row_step (fun _ => rfl) id (·.settle st r' err) (fun _ => ?_) fun r hrun => ?_
      · rw [StateStore.modifyTask_task?]
      · rw [TaskRecord.settle_status] at hrun
        rw [hrun] at settled
        cases settled
    | @mark t id n row leased =>
      intro t' r hr hrun
      rw [StateStore.modifyTask_task?] at hr
      have hex : executor t' (⟨i, .store (.markTaskRunning id), .ok ()⟩ :: s.log) =
          if id = t' then some i else executor t' s.log := by
        simp [executor, Entry.marks]
      rw [hex]
      split at hr
      next ht =>
        subst ht
        rw [row] at hr
        obtain rfl := Option.some.inj hr
        exact ⟨i, if_pos rfl, hG _ t (by injection hen) row leased⟩
      next ht =>
        rw [if_neg fun e => ht e.symm]
        exact h t' r hr hrun

/-- Requeueing and reclaiming leave no running task behind that was not running before. -/
theorem owned_maintenance {s : Traced} {l : WorkerId → Int × Phase} (h : Owned s l)
    (d : Maintenance) (clk : Clock) :
    Owned { s with store := (s.store.exec d.op clk).2 } l := by
  intro t r hr hrun
  refine h t r ?_ hrun
  cases d with
  | requeueExpiredLeases runId =>
    rw [Maintenance.op, StateStore.exec_requeueExpiredLeases, StateStore.addEvents_task?,
      StateStore.updateTasks_task?] at hr
    obtain ⟨r', hr', he⟩ := Option.map_eq_some_iff.mp hr
    split at he
    · rw [← he] at hrun; cases hrun
    · rw [← he]; exact hr'
  | reclaimDeadWorker runId w n =>
    rcases s.store.reclaim_cases clk runId w n with
      ⟨t', f, es, hf, -, -, -, hcase, hid, he⟩ | ⟨-, he⟩
    · rw [Maintenance.op, he, StateStore.addEvents_task?, StateStore.modifyTask_task?] at hr
      split at hr
      next ht =>
        rw [hf] at hr
        obtain rfl := Option.some.inj hr
        rcases hcase with ⟨rfl, -⟩ | ⟨rfl, -⟩ <;> cases hrun
      next => exact hr
    · rw [Maintenance.op, he] at hr
      exact hr

theorem owned_sound (pf : Platform) :
    (fleet pf).Sound discipline (fun _ => True) Owned marksOwnLease where
  call := fun s l i e a hJ hm hG => ⟨_, rfl, owned_call_step hJ a hm hG _⟩
  start := by
    intro s l i job prog s' hJ _ _ hsp
    obtain ⟨-, rfl, rfl⟩ := fleet_spawn hsp
    exact ⟨((job.workerFor i).maxOomRetries, .free),
      (job.workerFor i).disciplined_runOnce pf job.memory job.runId, hJ⟩
  crash := fun s l i hJ _ => ⟨l i, hJ⟩
  env := by
    intro s l d s' hJ _ hs
    obtain rfl := Option.some.inj hs
    exact owned_maintenance hJ d.1 d.2

/-- A mark under somebody else's lease breaks the property at once. -/
theorem breaks_of_stale_mark (pf : Platform) {p : FleetState}
    {a : Act WorkerId Answers Job (Maintenance × Clock)} (h : ¬ marksOwnLease.Meets p a) :
    ∃ p', (fleet pf).machine.step p a = some p' ∧ ¬ OwnerExecutes p' := by
  cases a with
  | start | crash | env => exact absurd trivial h
  | call i ans =>
    simp only [Service.Guard.Meets] at h
    split at h
    swap; · exact absurd trivial h
    next op next hc =>
    simp only [marksOwnLease, not_forall] at h
    obtain ⟨t, r, rfl, hr, hl, ho⟩ := h
    refine ⟨_, Service.step_call hc ans, fun hown => ho ?_⟩
    rcases p.shared.store.mark_cases ans.clock t with ⟨r', hr', -, he⟩ | ⟨hne, -⟩
    · rw [hr] at hr'
      obtain rfl := Option.some.inj hr'
      obtain ⟨w, hw, how⟩ := hown t (r.setStatus .running)
        (by simp only [fleet, Effect.perform, he, StateStore.modifyTask_task?_self, hr]; rfl) rfl
      have hex : executor t (⟨i, .store (.markTaskRunning t), .ok ()⟩ :: p.shared.log) =
          some i := by simp [executor, Entry.marks]
      have hw' : some i = some w := by
        rw [← hex, ← hw]
        simp only [fleet, Effect.perform, he]
      rw [hw']
      exact how
    · exact absurd hl (hne r hr)

/-- **The owner is the executor exactly where no stale holder marks.** On a store without
running tasks, a run keeps `lease_owner` of every running task equal to its executor in
every state if and only if each of its marks happens under the marker's own lease. -/
theorem owner_executes_iff (pf : Platform) (s : StateStore)
    (h0 : ∀ t r, s.task? t = some r → r.status ≠ .running)
    (acts : List (Act WorkerId Answers Job (Maintenance × Clock))) :
    (fleet pf).machine.Always OwnerExecutes (fleetOn s) acts ↔
      (fleet pf).machine.Along marksOwnLease.Meets (fleetOn s) acts := by
  refine Machine.always_iff_along
    (K := fun p => Service.Conforms discipline (fun _ => True) Owned p)
    (fun p ⟨_, hJ, _⟩ => hJ) (fun p a p' hK hC hs => (owned_sound pf).step hK hC hs)
    (fun p a _ hC => breaks_of_stale_mark pf hC) ?_
  exact Service.conforms_initial (l := (0, .free)) (fun t r hr hrun => absurd hrun (h0 t r hr))
    trivial

/-- The rule at work on the race for one lease, where `A` marks under the lease of `B`. -/
theorem owner_executes_race :
    ¬ (fleet .bare).machine.Along marksOwnLease.Meets
      (fleetOn (storeWith .sqlite .validated (pendingTask "t" []))) leaseRace ↔
    ¬ (fleet .bare).machine.Always OwnerExecutes
      (fleetOn (storeWith .sqlite .validated (pendingTask "t" []))) leaseRace :=
  not_congr (owner_executes_iff .bare _ (fun _ r hr hrun => by
    rw [storeWith_task? hr] at hrun
    cases hrun) leaseRace).symm

/-- **The stale holder.** `B` takes over the expired lease of `A`; `A` wakes up and marks the
task, which now runs on `A` under the name of `B`. -/
theorem stale_holder_executes : ∃ p : FleetState,
    (fleet .bare).machine.Reaches
      (fleetOn (storeWith .sqlite .validated (pendingTask "t" []))) p ∧
    executor "t" p.shared.log = some "A" ∧
    (∃ r, p.shared.store.task? "t" = some r ∧ r.status = .running ∧ r.leaseOwner = some "B") ∧
    ¬ OwnerExecutes p := by
  have hrun : ((fleet .bare).machine.run
      (fleetOn (storeWith .sqlite .validated (pendingTask "t" []))) leaseRace).any (fun p =>
        executor "t" p.shared.log = some "A" && (p.shared.store.task? "t").any fun r =>
          r.status = .running && r.leaseOwner = some "B") = true := by decide +kernel
  obtain ⟨p, hp, hb⟩ := Option.any_eq_true _ _ |>.mp hrun
  simp only [Bool.and_eq_true, decide_eq_true_eq, Option.any_eq_true] at hb
  obtain ⟨hA, r, hr, hst, ho⟩ := hb
  refine ⟨p, Machine.reaches_of_run hp, hA, ⟨r, hr, hst, ho⟩, fun hown => ?_⟩
  obtain ⟨w, hw, how⟩ := hown "t" r hr hst
  rw [hA] at hw
  rw [ho] at how
  exact absurd (Option.some.inj (how.trans hw.symm)) (by decide)

end FineTuneHarness
