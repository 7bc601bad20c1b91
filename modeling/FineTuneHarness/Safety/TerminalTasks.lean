import FineTuneHarness.Library.Machine
import FineTuneHarness.State.Evolution

/-!
# Terminal tasks are frozen

The callers of a store are arbitrary here: any calls, with any arguments, one after the
other. A row with a terminal status keeps everything but its attempt count.
-/
namespace FineTuneHarness

open Library (Machine)

namespace TaskRecord

/-- `t'` ended as `t` did. -/
structure SameEnding (t t' : TaskRecord) : Prop where
  status : t'.status = t.status
  result : t'.result = t.result
  error : t'.error = t.error
  leaseOwner : t'.leaseOwner = t.leaseOwner
  leasedUntil : t'.leasedUntil = t.leasedUntil

variable {t t' t'' : TaskRecord}

theorem SameEnding.refl (t : TaskRecord) : SameEnding t t := ⟨rfl, rfl, rfl, rfl, rfl⟩

theorem SameEnding.trans (h : SameEnding t t') (h' : SameEnding t' t'') : SameEnding t t'' where
  status := h'.status.trans h.status
  result := h'.result.trans h.result
  error := h'.error.trans h.error
  leaseOwner := h'.leaseOwner.trans h.leaseOwner
  leasedUntil := h'.leasedUntil.trans h.leasedUntil

theorem leaseable_terminal {now : Instant} (h : t.status.terminal = true) :
    t.leaseable now = false := by
  by_contra hl
  rcases StateStore.leaseable_status (Bool.not_eq_false _ ▸ hl) with hs | hs <;>
    (rw [hs] at h; cases h)

end TaskRecord

namespace StateStore

variable {s s' : StateStore} {clk : Clock} {id : TaskId} {t t' : TaskRecord} {op : StoreOp}

/-- A row change needs a status that is not terminal, but for the attempt count. -/
theorem RowChange.sameEnding (h : RowChange s clk t op t') (hterm : t.status.terminal = true) :
    t.SameEnding t' := by
  have hheld : ∀ {runId w}, s.heldBy runId w = some t → t.SameEnding t' := by
    intro runId w hh
    rcases (s.heldBy_some hh).2.2.2 with hs | hs <;> (rw [hs] at hterm; cases hterm)
  cases h with
  | same => exact .refl t
  | count => exact ⟨rfl, rfl, rfl, rfl, rfl⟩
  | lease run free =>
    rw [TaskRecord.leaseable_terminal hterm] at free
    cases free
  | mark leased =>
    rw [leased] at hterm
    cases hterm
  | settle edge kept =>
    rw [allowed_not_terminal edge] at hterm
    cases hterm
  | expire expired =>
    simp only [InMemory.expired, Bool.and_eq_true, decide_eq_true_eq] at expired
    rw [expired.1.2] at hterm
    cases hterm
  | reclaim held budget => exact hheld held
  | abandon held spent => exact hheld held

/-- `create_task` leaves the rows that are there, whatever id it is given. -/
theorem createTask_keeps (clk : Clock) (new : TaskRecord) (ht : s.task? id = some t) :
    (s.exec (.createTask new) clk).2.task? id = some t := by
  rcases s.createTask_cases clk new with ⟨payload, result, h, hx⟩ | ⟨e, hx⟩ <;> rw [hx]
  · have hne : id ≠ new.taskId := by
      rintro rfl
      have hm := Library.Table.find?_eq_some_iff.mp ht
      exact h (List.mem_map.mpr ⟨t, hm.1, hm.2⟩)
    exact s.addTask_task?.trans ((if_neg hne).trans ht)
  · exact ht

/-- **One call.** Whether it succeeds or raises, a terminal row ends as it did. -/
theorem exec_sameEnding (op : StoreOp) (clk : Clock) (ht : s.task? id = some t)
    (hterm : t.status.terminal = true) :
    ∃ t', (s.exec op clk).2.task? id = some t' ∧ t.SameEnding t' := by
  by_cases hop : keepsTasks op
  · obtain ⟨t', ht', -⟩ := (s.exec_evolves clk hop).forward ht
    exact ⟨t', ht', (exec_row_some clk hop ht ht').sameEnding hterm⟩
  · cases op with
    | createTask new => exact ⟨t, createTask_keeps clk new ht, .refl t⟩
    | _ => exact absurd trivial hop

/-- A lease hands out a task that was leaseable. -/
theorem lease_not_terminal {runId : RunId} {w : WorkerId} {n : Int} {leased : TaskRecord}
    (h : (s.exec (.leaseNextPendingTask runId w n) clk).1 = .ok (some leased))
    (ht : s.task? id = some t) (hterm : t.status.terminal = true) : leased.taskId ≠ id := by
  rcases s.lease_cases clk runId w n with ⟨t₀, es, h0, -, hl, hx⟩ | ⟨-, hx⟩ <;> rw [hx] at h
  · obtain rfl := Option.some.inj (Except.ok.inj h)
    rintro rfl
    obtain rfl := Option.some.inj (h0.symm.trans ht)
    rw [TaskRecord.leaseable_terminal hterm] at hl
    cases hl
  · cases h

end StateStore

/-- A store and its callers: each step is one call, carried out or refused. -/
def callers : Machine StateStore (StoreOp × Clock) where
  step s c := some (s.exec c.1 c.2).2

/-- **Terminal tasks are frozen.** Once a task has a terminal status, no sequence of store
calls changes its status, result, error, lease owner or lease, and no lease returns it. -/
theorem terminal_task_frozen {s s' : StateStore} {id : TaskId} {t : TaskRecord}
    (ht : s.task? id = some t) (hterm : t.status.terminal = true) (h : callers.Reaches s s') :
    (∃ t', s'.task? id = some t' ∧ t.SameEnding t') ∧
    ∀ runId w n clk leased,
      (s'.exec (.leaseNextPendingTask runId w n) clk).1 = .ok (some leased) →
        leased.taskId ≠ id := by
  have hrow : ∃ t', s'.task? id = some t' ∧ t.SameEnding t' := by
    refine h.invariant (I := fun s => ∃ t', s.task? id = some t' ∧ t.SameEnding t')
      ⟨t, ht, .refl t⟩ fun s₁ c s₂ hkept _ hs => ?_
    obtain ⟨t₁, ht₁, h₁⟩ := hkept
    obtain rfl := Option.some.inj hs
    obtain ⟨t₂, ht₂, h₂⟩ := s₁.exec_sameEnding c.1 c.2 ht₁ (by rw [h₁.status]; exact hterm)
    exact ⟨t₂, ht₂, h₁.trans h₂⟩
  refine ⟨hrow, fun runId w n clk leased hl => ?_⟩
  obtain ⟨t', ht', h'⟩ := hrow
  exact StateStore.lease_not_terminal hl ht' (by rw [h'.status]; exact hterm)

/-- A run with one task that has succeeded, in SQLite. -/
def oneDone : StateStore where
  backend := .sqlite
  tables := {
    runs := ⟨[{ runId := "r", name := "demo", status := .validated, config := [], createdAt := 0 }],
      by decide⟩
    tasks := ⟨[{ taskId := "t", runId := "r", taskKey := "k", status := .succeeded, payload := [] }],
      by decide⟩
    events := []
    artifacts := [] }

/-- A cancellation, a reclaim, a second task under the same id, a requeue. -/
def meddling : List (StoreOp × Clock) :=
  [(.updateTaskStatus "t" .cancelled none none, ⟨0, 0⟩), (.reclaimDeadWorker "r" "w" 0, ⟨0, 0⟩),
    (.createTask { taskId := "t", runId := "r", taskKey := "k'", status := .pending, payload := [] },
      ⟨0, 0⟩), (.requeueExpiredLeases "r", ⟨0, 0⟩)]

theorem meddling_leaves_done_task : ∃ s', callers.run oneDone meddling = some s' ∧
    (s'.task? "t").map (·.status) = some .succeeded := by
  obtain ⟨s', hs'⟩ := Option.isSome_iff_exists.mp
    (show (callers.run oneDone meddling).isSome = true from rfl)
  have hdone : oneDone.task? "t" =
      some { taskId := "t", runId := "r", taskKey := "k", status := .succeeded, payload := [] } := rfl
  obtain ⟨t', ht', hend⟩ := (terminal_task_frozen hdone rfl (Machine.reaches_of_run hs')).1
  refine ⟨s', hs', ?_⟩
  rw [ht']
  exact congrArg some hend.status

end FineTuneHarness
