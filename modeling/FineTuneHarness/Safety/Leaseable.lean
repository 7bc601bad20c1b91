import FineTuneHarness.Executor.Concurrent
import FineTuneHarness.State.LeaseChecks

/-!
# One meaning of "leaseable"

All checks whether a lease is over say the same at every instant that has a date time, and a
worker that counts leaseable tasks counts those that `lease_next_pending_task` would take.
-/
namespace FineTuneHarness

open DateTime (InRange)

/-- What the checks say of one task is what its status and `Lease.is_expired` say. -/
structure ChecksAgree (runId : RunId) (now : Instant) (t : TaskRecord) : Prop where
  expired : ∀ u, t.leasedUntil = some u →
    datetimeBefore u now = Lease.isExpired u now ∧ textBefore u now = Lease.isExpired u now
  claimed : InMemory.claims now t = t.leaseable now
  claimedWhere : Sqlite.claimsWhere runId now t = (decide (t.runId = runId) && t.leaseable now)
  requeued : InMemory.requeues runId now t =
    (decide (t.runId = runId) && t.expiredBy (Lease.isExpired · now))
  requeuedWhere : Sqlite.requeuesWhere runId now t =
    (decide (t.runId = runId) && t.expiredBy (Lease.isExpired · now))
  counted : LocalWorker.countFrom now 0 [t] = if t.leaseable now then 1 else 0

theorem checks_agree {runId : RunId} {now : Instant} {t : TaskRecord} (ht : t.Dated)
    (hnow : InRange now) : ChecksAgree runId now t := by
  constructor
  case expired =>
    intro u hu
    exact ⟨datetimeBefore_eq (ht u hu) hnow, textBefore_eq (ht u hu) hnow⟩
  case claimed => exact InMemory.claims_eq ht hnow
  case claimedWhere => exact Sqlite.claimsWhere_eq ht hnow
  case requeued => rw [InMemory.requeues, expiredBy_datetime ht hnow]
  case requeuedWhere => rw [Sqlite.requeuesWhere, Sqlite.expiredWhere, expiredBy_text ht hnow]
  case counted =>
    rw [LocalWorker.countFrom_eq hnow [t] (by simpa using ht), List.filter_singleton]
    cases t.leaseable now <;> rfl

/-- The task is the first leaseable one of the run by its key. -/
structure LeastLeaseable (s : StateStore) (runId : RunId) (now : Instant) (t : TaskRecord) :
    Prop where
  row : s.task? t.taskId = some t
  run : t.runId = runId
  free : t.leaseable now = true
  least : ∀ t' ∈ s.tasksOf runId, t'.leaseable now = true → t.taskKey ≤ t'.taskKey

/-- What a lease on the run does where its end is a date time. -/
structure LeasesCounted (s : StateStore) (runId : RunId) (worker : WorkerId) (expiry : Instant)
    (now : Instant) (out : Except PyExc (Option TaskRecord) × StateStore) : Prop where
  iff_counted : (∃ t, out.1 = .ok (some t)) ↔ 0 < LocalWorker.countLeaseable s runId now
  leased : ∀ t', out.1 = .ok (some t') → ∃ t, LeastLeaseable s runId now t ∧
    t' = t.leaseTo worker expiry ∧ out.2.task? t.taskId = some t' ∧
      ∀ id ≠ t.taskId, out.2.task? id = s.task? id
  idle : LocalWorker.countLeaseable s runId now = 0 → out = (.ok none, s)

/-- What a lease does where its end is no date time. -/
structure RaisesOverflow (s : StateStore) (runId : RunId) (now : Instant)
    (out : Except PyExc (Option TaskRecord) × StateStore) : Prop where
  unchanged : out.2 = s
  raised : (∃ e, out.1 = .error e ∧ e.cls = "OverflowError") ↔
    s.backend = .sqlite ∨ 0 < LocalWorker.countLeaseable s runId now
  idle : ¬ (∃ e, out.1 = .error e) → out.1 = .ok none

section Lease

variable {s : StateStore} {runId : RunId} {worker : WorkerId} {seconds : Int} {clk : Clock}

theorem countLeaseable_eq (hs : s.Dated) (hnow : InRange clk.now) :
    LocalWorker.countLeaseable s runId clk.now =
      ((s.tasksOf runId).filter (·.leaseable clk.now)).length := by
  rw [LocalWorker.countLeaseable, LocalWorker.countFrom_eq hnow _ fun t ht => hs.of_mem ht,
    Nat.zero_add]

/-- The number by which `drain_concurrent` admits workers is this count. -/
theorem drain_countLeaseable {c : Draining} {p : Concurrent} (hs : p.pool.shared.store.Dated)
    (hnow : InRange clk.now) : p.countLeaseable c clk.now =
      LocalWorker.countLeaseable p.pool.shared.store c.runId clk.now :=
  (countLeaseable_eq hs hnow).symm

theorem countLeaseable_eq_zero (hs : s.Dated) (hnow : InRange clk.now) :
    LocalWorker.countLeaseable s runId clk.now = 0 ↔ s.nextLeaseable runId clk.now = none := by
  rw [countLeaseable_eq hs hnow, s.nextLeaseable_none, List.length_eq_zero_iff,
    List.filter_eq_nil_iff]
  simp only [Bool.not_eq_true]

theorem countLeaseable_pos (hs : s.Dated) (hnow : InRange clk.now) :
    0 < LocalWorker.countLeaseable s runId clk.now ↔ ∃ t, s.nextLeaseable runId clk.now = some t := by
  rw [Nat.pos_iff_ne_zero, ne_eq, countLeaseable_eq_zero hs hnow]
  exact Option.ne_none_iff_exists'

/-- The first task by key that passes a check has the least key of those that pass. -/
theorem nextLeaseable_least {t : TaskRecord} (h : s.nextLeaseable runId clk.now = some t) :
    LeastLeaseable s runId clk.now t := by
  obtain ⟨hrow, hrun, hfree⟩ := s.nextLeaseable_some h
  refine ⟨hrow, hrun, hfree, fun t' ht' hfree' => ?_⟩
  have hsorted : (s.tasksOf runId).Pairwise fun a b => a.taskKey ≤ b.taskKey := by
    have : Std.Total fun a b : TaskRecord => a.taskKey ≤ b.taskKey :=
      ⟨fun a b => String.le_total a.taskKey b.taskKey⟩
    have : IsTrans TaskRecord fun a b => a.taskKey ≤ b.taskKey := ⟨fun _ _ _ => String.le_trans⟩
    exact List.pairwise_insertionSort _ _
  obtain ⟨-, before, after, hlist, hbefore⟩ := List.find?_eq_some_iff_append.mp h
  rw [hlist] at ht' hsorted
  rcases List.mem_append.mp ht' with hin | hin
  · have hnot := hbefore t' hin
    rw [hfree'] at hnot
    cases hnot
  · rcases List.mem_cons.mp hin with rfl | hin
    · exact String.le_refl _
    · exact (List.pairwise_cons.mp (List.pairwise_append.mp hsorted).2.1).1 t' hin

theorem leaseNext_counted (hs : s.Dated) (hnow : InRange clk.now)
    (hend : InRange (leaseUntil clk.later seconds)) :
    LeasesCounted s runId worker (leaseUntil clk.later seconds) clk.now
      (s.leaseNext runId worker seconds clk) := by
  rw [StateStore.leaseNext_eq hs hnow, if_pos (.inl hend), s.exec_leaseNextPendingTask]
  have hcount := @countLeaseable_pos s runId clk hs hnow
  have hzero := @countLeaseable_eq_zero s runId clk hs hnow
  cases hn : s.nextLeaseable runId clk.now with
  | none =>
    rw [hn] at hcount
    constructor
    case iff_counted =>
      rw [hcount]
      constructor
      · intro ⟨t, ht⟩
        cases ht
      · intro ⟨t, ht⟩
        cases ht
    case leased =>
      intro t' ht'
      cases ht'
    case idle =>
      intro _
      rfl
  | some t =>
    rw [hn] at hcount hzero
    have hleast := nextLeaseable_least hn
    constructor
    case iff_counted => exact iff_of_true ⟨_, rfl⟩ (hcount.mpr ⟨t, rfl⟩)
    case leased =>
      intro t' ht'
      obtain rfl := Option.some.inj (Except.ok.inj ht')
      refine ⟨t, hleast, rfl, ?_, fun id hid => ?_⟩
      · rw [StateStore.addEvents_task?, StateStore.modifyTask_task?, if_pos rfl, hleast.row]
        rfl
      · rw [StateStore.addEvents_task?, StateStore.modifyTask_task?, if_neg hid]
    case idle =>
      intro h
      cases hzero.mp h

theorem leaseNext_raises (hs : s.Dated) (hnow : InRange clk.now)
    (hend : ¬ InRange (leaseUntil clk.later seconds)) :
    RaisesOverflow s runId clk.now (s.leaseNext runId worker seconds clk) := by
  have hcount := @countLeaseable_pos s runId clk hs hnow
  have hsome : (∃ t, s.nextLeaseable runId clk.now = some t) ↔
    ¬ s.nextLeaseable runId clk.now = none := Option.ne_none_iff_exists'.symm
  have hbackend : s.backend = .sqlite ↔ ¬ s.backend = .memory := by
    cases s.backend <;> simp
  have hraises : (s.backend = .sqlite ∨ 0 < LocalWorker.countLeaseable s runId clk.now) ↔
      ¬ (InRange (leaseUntil clk.later seconds) ∨
        s.backend = .memory ∧ s.nextLeaseable runId clk.now = none) := by
    rw [hcount, hsome, hbackend, not_or, not_and_or]
    exact (and_iff_right hend).symm
  rw [StateStore.leaseNext_eq hs hnow]
  by_cases hquiet : InRange (leaseUntil clk.later seconds) ∨
      s.backend = .memory ∧ s.nextLeaseable runId clk.now = none
  · have hnone := (hquiet.resolve_left hend).2
    rw [if_pos hquiet, s.exec_leaseNextPendingTask, hnone]
    refine ⟨rfl, iff_of_false ?_ fun h => hraises.mp h hquiet, fun _ => rfl⟩
    intro ⟨e, he, _⟩
    cases he
  · rw [if_neg hquiet]
    refine ⟨rfl, iff_of_true ⟨_, rfl, rfl⟩ (hraises.mpr hquiet), fun h => ?_⟩
    exact absurd ⟨_, rfl⟩ h

end Lease

/-- **All definitions of "leaseable" agree.** Texts are in the order of time, all checks on a task
say the same, and a lease takes the first of the tasks that are counted. -/
theorem leaseable_definitions_agree :
    (∀ a b : DateTime, (a.isoformat < b.isoformat ↔ a.toInstant < b.toInstant) ∧
      (a.before b = true ↔ a.toInstant < b.toInstant)) ∧
    (∀ runId now t, TaskRecord.Dated t → InRange now → ChecksAgree runId now t) ∧
    ∀ (s : StateStore) runId worker seconds clk, s.Dated → InRange clk.now →
      (InRange (leaseUntil clk.later seconds) →
        LeasesCounted s runId worker (leaseUntil clk.later seconds) clk.now
          (s.leaseNext runId worker seconds clk)) ∧
      (¬ InRange (leaseUntil clk.later seconds) →
        RaisesOverflow s runId clk.now (s.leaseNext runId worker seconds clk)) := by
  refine ⟨fun a b => ⟨?_, ?_⟩, fun _ _ _ => checks_agree, fun s runId worker seconds clk hs hnow =>
    ⟨leaseNext_counted hs hnow, leaseNext_raises hs hnow⟩⟩
  · rw [DateTime.isoformat_lt, DateTime.toInstant_lt]
  · rw [DateTime.before, decide_eq_true_eq, DateTime.toInstant_lt]

/-- A task with an expired lease, a whole second before the instant of the next lease. -/
def staleTask : TaskRecord :=
  { pendingTask "a" [] with
    status := .leased, leaseOwner := some "B", leasedUntil := some 1000000 }

/-- The text of the lease has no fraction, the text of the instant has one. -/
theorem leaseable_definitions_agree_fraction :
    isoText 1000000 = "1970-01-01T00:00:01+00:00" ∧
    isoText 1000001 = "1970-01-01T00:00:01.000001+00:00" ∧
    ChecksAgree "r" 1000001 staleTask ∧
    LeasesCounted (storeWith .sqlite .running staleTask) "r" "A" 301000001 1000001
      ((storeWith .sqlite .running staleTask).leaseNext "r" "A" 300 ⟨1000001, 1000001⟩) := by
  have hdated : staleTask.Dated := by
    intro u hu
    obtain rfl := Option.some.inj hu
    decide
  have hstore : (storeWith .sqlite .running staleTask).Dated := by
    intro t ht
    obtain rfl := List.mem_singleton.mp ht
    exact hdated
  refine ⟨by decide +kernel, by decide +kernel, ?_, ?_⟩
  · exact leaseable_definitions_agree.2.1 "r" 1000001 staleTask hdated (by decide)
  · exact (leaseable_definitions_agree.2.2 (storeWith .sqlite .running staleTask) "r" "A" 300
      ⟨1000001, 1000001⟩ hstore (by decide)).1 (by decide)

/-- **At the end of the calendar** a task is counted and cannot be leased: its lease would end
after the year 9999. -/
theorem counted_but_not_leased :
    isoText DateTime.maxInstant = "9999-12-31T23:59:59.999999+00:00" ∧
    ∀ backend ∈ [Backend.memory, .sqlite],
      0 < LocalWorker.countLeaseable (storeWith backend .running (pendingTask "a" [])) "r"
        DateTime.maxInstant ∧
      ((storeWith backend .running (pendingTask "a" [])).leaseNext "r" "A" 300
        ⟨DateTime.maxInstant, DateTime.maxInstant⟩).1.isOk = false := by
  decide +kernel

end FineTuneHarness
