import FineTuneHarness.Executor.Fleet
import FineTuneHarness.Safety.TerminalTasks

/-!
# Reclaims from dead workers stay within their budget

The budget is read off the event log, while the effect is on the task row. `Reclaims` keeps,
beside the store, what became of the tasks that reclaims have found. The callers are
arbitrary: any calls, with any arguments, one after the other.
-/
namespace FineTuneHarness

open Library (Machine)

/-- A store, and the reclaims that found a task there, newest first. -/
structure Reclaims where
  store : StateStore
  outcomes : List (TaskId × Reclaim) := []

namespace Reclaims

variable (s : Reclaims) (t : TaskId)

/-- How often a reclaim has requeued the task. -/
def requeued : Nat := s.outcomes.count (t, .requeued)

/-- How often a reclaim has given the task up. -/
def failed : Nat := s.outcomes.count (t, .failed)

end Reclaims

/-- The task a call reclaims, and what becomes of it. -/
def StateStore.reclaimed (s : StateStore) (clk : Clock) : StoreOp → Option (TaskId × Reclaim)
  | .reclaimDeadWorker runId w n =>
    (s.heldBy runId w).bind fun t =>
      (s.exec (.reclaimDeadWorker runId w n) clk).1.toOption.map fun r => (t.taskId, r)
  | _ => none

/-- A store and its callers, with a record of the reclaims. -/
def reclaimers : Machine Reclaims (StoreOp × Clock) where
  step s c := some {
    store := (s.store.exec c.1 c.2).2
    outcomes := (s.store.reclaimed c.2 c.1).toList ++ s.outcomes }

/-- Reclaims are called with the budget `M`, and write their audit events themselves. -/
def WithBudget (M : Nat) : StoreOp → Prop
  | .reclaimDeadWorker _ _ n => n = M
  | .appendEvent e => e.kind ≠ "lease_reclaimed"
  | _ => True

/-- One reclaim has changed the one task it found, and has left one event about it. -/
structure ReclaimedOne (s s' : StateStore) (runId : RunId) (w : WorkerId) (t : TaskRecord) :
    Prop where
  found : s.task? t.taskId = some t
  ofRun : t.runId = runId
  owned : t.leaseOwner = some w
  inFlight : t.status = .leased ∨ t.status = .running
  changed : s'.statusOf t.taskId ≠ some t.status
  others : ∀ id, id ≠ t.taskId → s'.task? id = s.task? id
  event : ∃ e, s'.events = s.events ++ [e] ∧ e.taskId = some t.taskId

namespace StateStore

variable {s : StateStore} {clk : Clock} {runId : RunId} {w : WorkerId} {n : Int} {t : TaskRecord}

/-- Calls that are no reclaims leave the count of reclaims alone. -/
theorem priorReclaims_exec {M : Nat} {op : StoreOp} (hop : WithBudget M op)
    (hne : ∀ runId w n, op ≠ .reclaimDeadWorker runId w n) (id : TaskId) :
    (s.exec op clk).2.priorReclaims id = s.priorReclaims id := by
  obtain ⟨es, hes, hlogs⟩ := s.exec_logs clk op
  have hnone : es.filter (fun e => e.taskId = some id ∧ e.kind = "lease_reclaimed") = [] := by
    rw [List.filter_eq_nil_iff]
    intro e he hk
    have hkind := (of_decide_eq_true hk).2
    have hlog := hlogs e he
    cases op with
    | leaseNextPendingTask runId w n | requeueExpiredLeases runId =>
      rw [hlog.2] at hkind
      exact absurd hkind (by decide)
    | reclaimDeadWorker runId w n => exact hne runId w n rfl
    | appendEvent e' => exact hop (hlog.2.2.symm.trans hkind)
    | _ => exact hlog
  unfold priorReclaims
  rw [hes, List.filter_append, hnone, List.append_nil]

/-- A reclaim that finds a task. -/
theorem reclaim_found (clk : Clock) (n : Int) (h : s.heldBy runId w = some t) :
    ∃ r, (s.exec (.reclaimDeadWorker runId w n) clk).1 = .ok r ∧
      ReclaimedOne s (s.exec (.reclaimDeadWorker runId w n) clk).2 runId w t ∧
      ((s.priorReclaims t.taskId : Int) < n ∧ r = .requeued ∧
          (∀ id, (s.exec (.reclaimDeadWorker runId w n) clk).2.priorReclaims id =
            s.priorReclaims id + if id = t.taskId then 1 else 0) ∨
        n ≤ (s.priorReclaims t.taskId : Int) ∧ r = .failed ∧
          (∀ id, (s.exec (.reclaimDeadWorker runId w n) clk).2.priorReclaims id =
            s.priorReclaims id) ∧
          (s.exec (.reclaimDeadWorker runId w n) clk).2.statusOf t.taskId = some .failed) := by
  obtain ⟨hfound, hrun, howned, hflight⟩ := s.heldBy_some h
  rw [exec_reclaimDeadWorker, h]
  by_cases hn : (s.priorReclaims t.taskId : Int) ≥ n
  · simp only [if_pos hn]
    refine ⟨.failed, rfl, ⟨hfound, hrun, howned, hflight, ?_, ?_, ⟨_, rfl, rfl⟩⟩,
      .inr ⟨hn, rfl, fun id => ?_, ?_⟩⟩
    · rw [statusOf_addEvents, statusOf_modifyTask hfound, if_pos rfl, TaskRecord.abandon_status]
      rcases hflight with hst | hst <;> rw [hst] <;> decide
    · intro id hid
      rw [addEvents_task?, modifyTask_task?, if_neg hid]
    · simp [priorReclaims, reclaimEvent]
    · rw [statusOf_addEvents, statusOf_modifyTask hfound, if_pos rfl, TaskRecord.abandon_status]
  · simp only [if_neg hn]
    refine ⟨.requeued, rfl, ⟨hfound, hrun, howned, hflight, ?_, ?_, ⟨_, rfl, rfl⟩⟩,
      .inl ⟨by omega, rfl, fun id => ?_⟩⟩
    · rw [statusOf_addEvents, statusOf_modifyTask hfound, if_pos rfl, TaskRecord.release_status]
      rcases hflight with hst | hst <;> rw [hst] <;> decide
    · intro id hid
      rw [addEvents_task?, modifyTask_task?, if_neg hid]
    · by_cases hid : id = t.taskId
      · simp [priorReclaims, reclaimEvent, hid]
      · simp [priorReclaims, reclaimEvent, hid, Ne.symm hid]

end StateStore

/-- The outcomes agree with the event log, and a task that was given up has ended. -/
structure Reclaims.Within (M : Nat) (s : Reclaims) : Prop where
  counted : ∀ t, s.store.priorReclaims t = s.requeued t
  bound : ∀ t, s.requeued t ≤ M
  once : ∀ t, s.failed t ≤ 1
  ended : ∀ t, 0 < s.failed t → s.requeued t = M ∧
    ∃ row, s.store.task? t = some row ∧ row.status.terminal = true

namespace Reclaims

variable {M : Nat} {s s' : Reclaims} {c : StoreOp × Clock}

theorem Within.initial {s : StateStore} (h : ∀ e ∈ s.events, e.kind ≠ "lease_reclaimed") :
    Within M { store := s } where
  counted t := by
    refine List.length_eq_zero_iff.mpr (List.filter_eq_nil_iff.mpr fun e he hk => ?_)
    exact h e he (of_decide_eq_true hk).2
  bound _ := Nat.zero_le M
  once _ := Nat.zero_le 1
  ended _ h := absurd h (Nat.lt_irrefl 0)

theorem count_outcomes (t id : TaskId) (r r' : Reclaim) (outcomes : List (TaskId × Reclaim)) :
    ((t, r) :: outcomes).count (id, r') =
      outcomes.count (id, r') + if r = r' ∧ id = t then 1 else 0 := by
  rw [List.count_cons]
  congr 1
  simp only [beq_iff_eq, Prod.mk.injEq, and_comm, eq_comm (a := t)]

/-- What has ended stays ended. -/
theorem Within.stays_ended (h : Within M s) {t : TaskId} (ht : 0 < s.failed t) (c : StoreOp × Clock) :
    ∃ row, (s.store.exec c.1 c.2).2.task? t = some row ∧ row.status.terminal = true := by
  obtain ⟨-, row, hrow, hterm⟩ := h.ended t ht
  obtain ⟨row', hrow', hend⟩ := s.store.exec_sameEnding c.1 c.2 hrow hterm
  exact ⟨row', hrow', by rw [hend.status]; exact hterm⟩

/-- A call that finds no task to reclaim. -/
theorem Within.still (h : Within M s) (hnone : s.store.reclaimed c.2 c.1 = none)
    (hprior : ∀ t, (s.store.exec c.1 c.2).2.priorReclaims t = s.store.priorReclaims t) :
    Within M { store := (s.store.exec c.1 c.2).2
               outcomes := (s.store.reclaimed c.2 c.1).toList ++ s.outcomes } := by
  rw [hnone]
  exact ⟨fun t => (hprior t).trans (h.counted t), h.bound, h.once,
    fun t ht => ⟨(h.ended t ht).1, h.stays_ended ht c⟩⟩

/-- A reclaim that finds a task. -/
theorem Within.reclaim (h : Within M s) {runId : RunId} {w : WorkerId} {clk : Clock}
    {t : TaskRecord} (hheld : s.store.heldBy runId w = some t) :
    Within M {
      store := (s.store.exec (.reclaimDeadWorker runId w M) clk).2
      outcomes :=
        (s.store.reclaimed clk (.reclaimDeadWorker runId w M)).toList ++ s.outcomes } := by
  obtain ⟨hfound, -, -, hflight⟩ := s.store.heldBy_some hheld
  have hlive : s.failed t.taskId = 0 := by
    by_contra hne
    obtain ⟨-, row, hrow, hterm⟩ := h.ended t.taskId (Nat.pos_of_ne_zero hne)
    obtain rfl := Option.some.inj (hrow.symm.trans hfound)
    rcases hflight with hst | hst <;> (rw [hst] at hterm; cases hterm)
  have hcount := h.counted t.taskId
  have hbound := h.bound t.taskId
  obtain ⟨r, hr, hone, hcase⟩ := StateStore.reclaim_found clk M hheld
  have hout : s.store.reclaimed clk (.reclaimDeadWorker runId w M) = some (t.taskId, r) := by
    simp only [StateStore.reclaimed, hheld, hr]
    rfl
  have hended : ∀ id, 0 < s.failed id → ∃ row,
      (s.store.exec (.reclaimDeadWorker runId w M) clk).2.task? id = some row ∧
        row.status.terminal = true := fun id hid =>
    h.stays_ended hid (.reclaimDeadWorker runId w M, clk)
  rw [hout]
  have hreq : ∀ id, requeued ⟨(s.store.exec (.reclaimDeadWorker runId w M) clk).2,
      [(t.taskId, r)] ++ s.outcomes⟩ id =
      s.requeued id + if r = .requeued ∧ id = t.taskId then 1 else 0 := fun id =>
    count_outcomes t.taskId id r .requeued s.outcomes
  have hfail : ∀ id, failed ⟨(s.store.exec (.reclaimDeadWorker runId w M) clk).2,
      [(t.taskId, r)] ++ s.outcomes⟩ id =
      s.failed id + if r = .failed ∧ id = t.taskId then 1 else 0 := fun id =>
    count_outcomes t.taskId id r .failed s.outcomes
  rcases hcase with ⟨hlt, rfl, hprior⟩ | ⟨hge, rfl, hprior, hst⟩
  · -- within the budget: one requeue more, one event more
    simp only [true_and, reduceCtorEq, false_and, if_false, Nat.add_zero] at hreq hfail
    refine ⟨fun id => ?_, fun id => ?_, fun id => ?_, fun id hid => ?_⟩
    · exact (hprior id).trans ((congrArg (· + _) (h.counted id)).trans (hreq id).symm)
    · refine (hreq id).trans_le ?_
      split
      next he => subst he; omega
      next => exact h.bound id
    · exact (hfail id).trans_le (h.once id)
    · have hid' : 0 < s.failed id := (hfail id) ▸ hid
      have hne : id ≠ t.taskId := by
        rintro rfl
        omega
      refine ⟨?_, hended id hid'⟩
      rw [Option.toList, hreq, if_neg hne]
      exact (h.ended id hid').1
  · -- the budget is spent: the task is given up, once
    simp only [true_and, reduceCtorEq, false_and, if_false, Nat.add_zero] at hreq hfail
    refine ⟨fun id => ?_, fun id => ?_, fun id => ?_, fun id hid => ?_⟩
    · exact (hprior id).trans ((h.counted id).trans (hreq id).symm)
    · exact (hreq id).trans_le (h.bound id)
    · refine (hfail id).trans_le ?_
      split
      next he => subst he; omega
      next => exact h.once id
    · by_cases hid' : id = t.taskId
      · subst hid'
        obtain ⟨row, hrow, hstatus⟩ := Option.map_eq_some_iff.mp hst
        refine ⟨(hreq _).trans ?_, row, hrow, ?_⟩
        · omega
        · rw [hstatus]
          rfl
      · have hold : 0 < s.failed id := by
          have hid : 0 < s.failed id + if id = t.taskId then 1 else 0 := (hfail id) ▸ hid
          rwa [if_neg hid'] at hid
        exact ⟨(hreq id).trans (h.ended id hold).1, hended id hold⟩

/-- **One call.** -/
theorem Within.step (h : Within M s) (hc : WithBudget M c.1) (hs : reclaimers.step s c = some s') :
    Within M s' := by
  obtain rfl := Option.some.inj hs
  obtain ⟨op, clk⟩ := c
  by_cases hop : ∀ runId w n, op ≠ .reclaimDeadWorker runId w n
  · apply h.still
    · cases op with
      | reclaimDeadWorker runId w n => exact absurd rfl (hop runId w n)
      | _ => rfl
    · exact StateStore.priorReclaims_exec hc hop
  · push Not at hop
    obtain ⟨runId, w, n, rfl⟩ := hop
    obtain rfl : n = M := hc
    cases hheld : s.store.heldBy runId w with
    | some t => exact h.reclaim hheld
    | none =>
      apply h.still
      · simp only [StateStore.reclaimed, hheld]
        rfl
      · intro t
        simp only [s.store.exec_reclaimDeadWorker, hheld]

end Reclaims

/-- **Reclaims are bounded and local.** With the budget `M`, every task is requeued at most `M`
times and given up at most once, its `lease_reclaimed` events count its requeues, and a reclaim
either finds no task and changes nothing, or changes the one task it finds and leaves one
event: it gives up a task that has been requeued `M` times, and requeues any other. -/
theorem dead_worker_reclaims {M : Nat} {before : StateStore} {s : Reclaims}
    (h₀ : ∀ e ∈ before.events, e.kind ≠ "lease_reclaimed")
    (h : reclaimers.Steps (fun _ c => WithBudget M c.1) { store := before } s) :
    (∀ t, s.requeued t ≤ M ∧ s.failed t ≤ 1 ∧ s.store.priorReclaims t = s.requeued t) ∧
    ∀ runId w clk,
      s.store.exec (.reclaimDeadWorker runId w M) clk = (.ok .none, s.store) ∨
      ∃ t r s', s.store.exec (.reclaimDeadWorker runId w M) clk = (.ok r, s') ∧
        ReclaimedOne s.store s' runId w t ∧
        (r = .requeued ∧ s.requeued t.taskId < M ∨ r = .failed ∧ s.requeued t.taskId = M) := by
  have hin : s.Within M :=
    h.invariant (Reclaims.Within.initial h₀) fun _ _ _ hin hc hs => hin.step hc hs
  refine ⟨fun t => ⟨hin.bound t, hin.once t, hin.counted t⟩, fun runId w clk => ?_⟩
  cases hheld : s.store.heldBy runId w with
  | none =>
    left
    rw [s.store.exec_reclaimDeadWorker, hheld]
  | some t =>
    right
    obtain ⟨r, hr, hone, hcase⟩ := StateStore.reclaim_found clk M hheld
    have hcount := hin.counted t.taskId
    have hbound := hin.bound t.taskId
    refine ⟨t, r, _, Prod.ext hr rfl, hone, ?_⟩
    rcases hcase with ⟨hlt, rfl, -⟩ | ⟨hge, rfl, -⟩
    · exact .inl ⟨rfl, by omega⟩
    · exact .inr ⟨rfl, by omega⟩

/-- A worker dies with the task leased, and again with the task running. -/
def twoDeaths : List (StoreOp × Clock) :=
  [(.leaseNextPendingTask "r" "w" 300, ⟨0, 0⟩), (.reclaimDeadWorker "r" "w" 1, ⟨0, 0⟩),
    (.leaseNextPendingTask "r" "w" 300, ⟨0, 0⟩), (.markTaskRunning "t", ⟨0, 0⟩),
    (.reclaimDeadWorker "r" "w" 1, ⟨0, 0⟩)]

theorem second_death_gives_up : ∃ s,
    reclaimers.run { store := storeWith .sqlite .validated (pendingTask "t" []) } twoDeaths = some s ∧
      s.outcomes = [("t", .failed), ("t", .requeued)] ∧ s.store.priorReclaims "t" = s.requeued "t" := by
  obtain ⟨s, hs⟩ := Option.isSome_iff_exists.mp (show (reclaimers.run
    { store := storeWith .sqlite .validated (pendingTask "t" []) } twoDeaths).isSome = true from rfl)
  have hout : (reclaimers.run { store := storeWith .sqlite .validated (pendingTask "t" []) }
      twoDeaths).map (·.outcomes) = some [("t", .failed), ("t", .requeued)] := by decide +kernel
  rw [hs] at hout
  refine ⟨s, hs, Option.some.inj hout, ?_⟩
  have hsteps := Machine.steps_of_run (C := fun _ c => WithBudget 1 c.1) hs
    (Machine.along_of_forall (by simp [twoDeaths, WithBudget]) _)
  exact ((dead_worker_reclaims (by simp [StateStore.events, storeWith]) hsteps).1 "t").2.2

end FineTuneHarness
