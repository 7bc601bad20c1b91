import FineTuneHarness.State.DateTime
import FineTuneHarness.State.StoreSpec
import Mathlib.Data.List.Find

/-!
# Whether a task can be leased, five times over

`Lease.is_expired`, two methods of the in-memory store, the `WHERE` clauses of SQLite and
`_count_leaseable` each ask it on their own: with date times, or with their texts. Here each has
its own form, and the two `lease_next_pending_task` have the `Lease.from_seconds` that can raise.
-/
namespace FineTuneHarness

open DateTime (InRange)

/-! ## Comparisons -/

/-- `a < b` for the date times of two instants. -/
def datetimeBefore (a b : Instant) : Bool :=
  if h : InRange a ∧ InRange b then (DateTime.ofInstant a h.1).before (DateTime.ofInstant b h.2)
  else false

/-- `isoformat()` of the date time. -/
def isoText (i : Instant) : String :=
  if h : InRange i then (DateTime.ofInstant i h).isoformat else ""

/-- `a.isoformat() < b.isoformat()`, as `BINARY` collates: ASCII texts, byte by byte. -/
def textBefore (a b : Instant) : Bool := isoText a < isoText b

section Comparisons

variable {a b : Instant}

theorem datetimeBefore_eq (ha : InRange a) (hb : InRange b) :
    datetimeBefore a b = Lease.isExpired a b := by
  rw [datetimeBefore, dif_pos ⟨ha, hb⟩, DateTime.before, Lease.isExpired, decide_eq_decide,
    ← DateTime.toInstant_lt, DateTime.toInstant_ofInstant, DateTime.toInstant_ofInstant]

theorem textBefore_eq (ha : InRange a) (hb : InRange b) :
    textBefore a b = Lease.isExpired a b := by
  rw [textBefore, isoText, isoText, dif_pos ha, dif_pos hb, Lease.isExpired, decide_eq_decide,
    DateTime.isoformat_lt, ← DateTime.toInstant_lt, DateTime.toInstant_ofInstant,
    DateTime.toInstant_ofInstant]

end Comparisons

/-! ## The five checks -/

/-- A lease that `before` finds to be over. -/
def TaskRecord.expiredBy (before : Instant → Bool) (t : TaskRecord) : Bool :=
  t.status = .leased && t.leasedUntil.any before

/-- Every lease of the task ends at some date time. -/
def TaskRecord.Dated (t : TaskRecord) : Prop := ∀ u, t.leasedUntil = some u → InRange u

namespace InMemory

/-- `reclaimed_expired` in `lease_next_pending_task`. -/
def reclaimedExpired (now : Instant) (t : TaskRecord) : Bool := t.expiredBy (datetimeBefore · now)

def claims (now : Instant) (t : TaskRecord) : Bool :=
  t.status = .pending || reclaimedExpired now t

/-- The condition in `requeue_expired_leases`. -/
def requeues (runId : RunId) (now : Instant) (t : TaskRecord) : Bool :=
  t.runId = runId && t.expiredBy (datetimeBefore · now)

end InMemory

namespace Sqlite

/-- `status = LEASED AND leased_until IS NOT NULL AND leased_until < ?`. -/
def expiredWhere (now : Instant) (t : TaskRecord) : Bool := t.expiredBy (textBefore · now)

/-- `run_id = ? AND (status = PENDING OR …)`. -/
def claimsWhere (runId : RunId) (now : Instant) (t : TaskRecord) : Bool :=
  t.runId = runId && (t.status = .pending || expiredWhere now t)

def requeuesWhere (runId : RunId) (now : Instant) (t : TaskRecord) : Bool :=
  t.runId = runId && expiredWhere now t

end Sqlite

namespace LocalWorker

/-- The loop of `_count_leaseable`. -/
def countFrom (now : Instant) : Nat → List TaskRecord → Nat
  | n, [] => n
  | n, t :: ts =>
    if t.status = .pending then countFrom now (n + 1) ts
    else if t.expiredBy (datetimeBefore · now) then countFrom now (n + 1) ts
    else countFrom now n ts

/-- `_count_leaseable`. -/
def countLeaseable (s : StateStore) (runId : RunId) (now : Instant) : Nat :=
  countFrom now 0 (s.tasksOf runId)

end LocalWorker

section Checks

variable {t : TaskRecord} {now : Instant} {runId : RunId}

theorem expiredBy_congr {p q : Instant → Bool} (h : ∀ u, t.leasedUntil = some u → p u = q u) :
    t.expiredBy p = t.expiredBy q := by
  unfold TaskRecord.expiredBy
  cases hu : t.leasedUntil with
  | none => rfl
  | some u => rw [Option.any_some, Option.any_some, h u hu]

theorem leaseable_eq : t.leaseable now = (decide (t.status = .pending) ||
    t.expiredBy (Lease.isExpired · now)) := rfl

variable (ht : t.Dated) (hnow : InRange now)
include ht hnow

theorem expiredBy_datetime :
    t.expiredBy (datetimeBefore · now) = t.expiredBy (Lease.isExpired · now) :=
  expiredBy_congr fun u hu => datetimeBefore_eq (ht u hu) hnow

theorem expiredBy_text : t.expiredBy (textBefore · now) = t.expiredBy (Lease.isExpired · now) :=
  expiredBy_congr fun u hu => textBefore_eq (ht u hu) hnow

theorem InMemory.claims_eq : InMemory.claims now t = t.leaseable now := by
  rw [InMemory.claims, InMemory.reclaimedExpired, expiredBy_datetime ht hnow, leaseable_eq]

/-- What `requeue_expired_leases` finds to be expired, in either store. -/
theorem InMemory.requeues_eq : InMemory.requeues runId now t = InMemory.expired runId now t := by
  rw [InMemory.requeues, expiredBy_datetime ht hnow, InMemory.expired, Bool.and_assoc]
  rfl

theorem Sqlite.claimsWhere_eq :
    Sqlite.claimsWhere runId now t = (decide (t.runId = runId) && t.leaseable now) := by
  rw [Sqlite.claimsWhere, Sqlite.expiredWhere, expiredBy_text ht hnow, leaseable_eq]

theorem Sqlite.requeuesWhere_eq :
    Sqlite.requeuesWhere runId now t = InMemory.expired runId now t := by
  rw [Sqlite.requeuesWhere, Sqlite.expiredWhere, expiredBy_text ht hnow, InMemory.expired,
    Bool.and_assoc]
  rfl

end Checks

theorem LocalWorker.countFrom_eq {now : Instant} (hnow : InRange now) (ts : List TaskRecord)
    (hts : ∀ t ∈ ts, t.Dated) (n : Nat) :
    LocalWorker.countFrom now n ts = n + (ts.filter (·.leaseable now)).length := by
  induction ts generalizing n with
  | nil => rfl
  | cons t ts ih =>
    have ih := ih fun t' ht' => hts t' (List.mem_cons_of_mem _ ht')
    have hexp := expiredBy_datetime (hts t List.mem_cons_self) hnow
    rw [LocalWorker.countFrom, hexp, List.filter_cons, leaseable_eq]
    by_cases hp : t.status = .pending
    · rw [if_pos hp, ih, hp]
      simp
      omega
    · rw [if_neg hp, ih, ih]
      cases t.expiredBy (Lease.isExpired · now) with
      | true =>
        simp [hp]
        omega
      | false => simp [hp]

/-! ## Leasing -/

/-- `Lease.from_seconds`: the sum of a date time and a duration has to be a date time. -/
def Lease.fromSeconds (now : Instant) (seconds : Int) : Except PyExc Instant :=
  if InRange (leaseUntil now seconds) then .ok (leaseUntil now seconds)
  else .error (.overflowError "date value out of range")

/-- `lease_next_pending_task` of the in-memory store. The lease is made once a task is found. -/
def InMemory.leaseNext (runId : RunId) (worker : WorkerId) (seconds : Int) (clk : Clock)
    (m : Tables) : Except PyExc (Option TaskRecord × Tables) :=
  match (InMemory.listTasks runId m).find? (InMemory.claims clk.now) with
  | none => .ok (none, m)
  | some task => do
    let leasedUntil ← Lease.fromSeconds clk.later seconds
    let leased := { task with
      status := .leased, leaseOwner := some worker, leasedUntil := some leasedUntil }
    let tasks := m.tasks.modify task.taskId
      ({ · with status := .leased, leaseOwner := some worker, leasedUntil := some leasedUntil })
      fun _ => rfl
    let events :=
      if InMemory.reclaimedExpired clk.now task then m.events ++ [leaseExpiredEvent task (some worker)]
      else m.events
    return (some leased, { m with tasks, events })

/-- `lease_next_pending_task` of the SQLite store. The lease is made before the query. -/
def Sqlite.leaseNext (runId : RunId) (worker : WorkerId) (seconds : Int) (clk : Clock)
    (db : Tables) : Except PyExc (Option TaskRecord × Tables) := do
  let leasedUntil ← Lease.fromSeconds clk.later seconds
  match (sortByKey (db.tasks.rows.filter (Sqlite.claimsWhere runId clk.now))).head? with
  | none => return (none, db)
  | some row =>
    if db.tasks.countWhere (fun t => t.taskId = row.taskId) ≠ 1 then return (none, db)
    else
      let tasks := db.tasks.updateWhere (fun t => t.taskId = row.taskId)
        ({ · with status := .leased, leaseOwner := some worker, leasedUntil := some leasedUntil })
        fun _ => rfl
      let events :=
        if row.status = .leased then db.events ++ [leaseExpiredEvent row (some worker)]
        else db.events
      return (some { row with
        status := .leased, leaseOwner := some worker, leasedUntil := some leasedUntil },
        { db with tasks, events })

namespace StateStore

/-- `lease_next_pending_task`. -/
def leaseNext (s : StateStore) (runId : RunId) (worker : WorkerId) (seconds : Int) (clk : Clock) :
    Except PyExc (Option TaskRecord) × StateStore :=
  s.commit (InMemory.leaseNext runId worker seconds clk) (Sqlite.leaseNext runId worker seconds clk)

/-- Every lease in the store ends at some date time. -/
def Dated (s : StateStore) : Prop := ∀ t ∈ s.tables.tasks.rows, t.Dated

variable {s : StateStore} {runId : RunId} {worker : WorkerId} {seconds : Int} {clk : Clock}

theorem Dated.of_mem (hs : s.Dated) {t : TaskRecord} (ht : t ∈ s.tasksOf runId) : t.Dated :=
  hs t (Library.Table.mem_rows_iff.mpr (s.mem_tasksOf.mp ht).1)

theorem find?_claims (hs : s.Dated) (hnow : InRange clk.now) :
    (s.tasksOf runId).find? (InMemory.claims clk.now) = s.nextLeaseable runId clk.now := by
  unfold nextLeaseable
  apply List.find?_congr
  intro t ht
  exact InMemory.claims_eq (hs.of_mem ht) hnow

theorem filter_claimsWhere (hs : s.Dated) (hnow : InRange clk.now) :
    s.tables.tasks.rows.filter (Sqlite.claimsWhere runId clk.now) =
      s.tables.tasks.rows.filter fun t => t.runId = runId && t.leaseable clk.now :=
  List.filter_congr fun t ht => Sqlite.claimsWhere_eq (hs t ht) hnow

/-- An audit event is left for a task that was taken over. -/
theorem reclaimedExpired_iff {t : TaskRecord} (ht : t.Dated) (hnow : InRange clk.now)
    (hfree : t.leaseable clk.now = true) :
    InMemory.reclaimedExpired clk.now t = true ↔ t.status ≠ .pending := by
  rw [InMemory.reclaimedExpired, expiredBy_datetime ht hnow]
  rw [leaseable_eq, Bool.or_eq_true, decide_eq_true_eq] at hfree
  constructor
  · intro h hp
    rw [TaskRecord.expiredBy, hp] at h
    cases h
  · intro hp
    exact hfree.resolve_left hp

/-- **Leasing with date times or texts** is leasing by instants, or the lease cannot be made. -/
theorem leaseNext_eq (hs : s.Dated) (hnow : InRange clk.now) :
    s.leaseNext runId worker seconds clk =
      if InRange (leaseUntil clk.later seconds) ∨
          s.backend = .memory ∧ s.nextLeaseable runId clk.now = none then
        s.exec (.leaseNextPendingTask runId worker seconds) clk
      else (.error (.overflowError "date value out of range"), s) := by
  have hfind := @find?_claims s runId clk hs hnow
  have hfilter := @filter_claimsWhere s runId clk hs hnow
  obtain ⟨b, m⟩ := s
  cases b with
  | memory =>
    have hlist : InMemory.listTasks runId m = tasksOf ⟨.memory, m⟩ runId := rfl
    have hrows : sortByKey (m.tasks.rows.filter fun t => t.runId = runId) =
      tasksOf ⟨.memory, m⟩ runId := rfl
    simp only [leaseNext, commit, InMemory.leaseNext, hlist, hfind, exec,
      InMemory.leaseNextPendingTask, hrows]
    rw [show (tasksOf ⟨.memory, m⟩ runId).find? (·.leaseable clk.now) =
      nextLeaseable ⟨.memory, m⟩ runId clk.now from rfl]
    cases hn : nextLeaseable ⟨.memory, m⟩ runId clk.now with
    | none =>
      rw [if_pos (.inr ⟨trivial, rfl⟩)]
    | some t =>
      obtain ⟨hrow, -, hfree⟩ := nextLeaseable_some _ hn
      have hover := reclaimedExpired_iff (hs t (Library.Table.mem_rows_iff.mpr hrow)) hnow hfree
      by_cases hr : InRange (leaseUntil clk.later seconds)
      · rw [if_pos (.inl hr)]
        simp only [Lease.fromSeconds, if_pos hr, hover]
        by_cases hp : t.status = .pending
        · rw [if_pos hp]
          simp only [hp]
          rfl
        · rw [if_neg hp]
          simp only [ne_eq, hp, not_false_eq_true, if_true]
          rfl
      · rw [if_neg (by simp [hr])]
        simp only [Lease.fromSeconds, if_neg hr]
        rfl
  | sqlite =>
    simp only [leaseNext, commit, Sqlite.leaseNext, reduceCtorEq, false_and, or_false]
    by_cases hr : InRange (leaseUntil clk.later seconds)
    · rw [if_pos hr, Lease.fromSeconds, if_pos hr]
      simp only [exec, commit, Sqlite.leaseNextPendingTask, hfilter]
      rfl
    · rw [if_neg hr, Lease.fromSeconds, if_neg hr]
      rfl

end StateStore

end FineTuneHarness
