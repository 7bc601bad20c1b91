import FineTuneHarness.Executor.Attempt
import FineTuneHarness.Orchestrator.Creation

/-!
# The verdict of a sequential drain

`verdict` is what an attempt of a bare worker is worth: the status, result and error its
task ends in, from the attempt number and the end of the handler call alone. One round of
the drain gives one task its verdict; the sum of the remaining attempts goes down with
every round, so the drain ends, and the scan at its end finds every task terminal.
-/
namespace FineTuneHarness

open Library Library.Program

/-- How a task comes out of an attempt. -/
structure Verdict where
  status : TaskStatus
  result : Option Dict := none
  error : Option String := none

namespace LocalWorker

/-- No hooks, no artifact store, no OOM budget. -/
structure Bare (w : LocalWorker) : Prop where
  hooks : w.hooks = {}
  artifactStore : w.artifactStore = false
  maxOomRetries : w.maxOomRetries = 0

variable (pf : Platform) (w : LocalWorker)

/-- The verdict on a result. -/
def judged (result : Dict) (outcome : ValidationOutcome) : Verdict :=
  if outcome.status.rejected then {
    status := .degenerate, result := some result
    error := some s!"{outcome.status.value}: {pf.repr (.list (outcome.validationErrors.map .str))}" }
  else { status := .succeeded, result := some result }

/-- The verdict on the `count`-th attempt at a task. -/
def verdict (count : Nat) (run : HandlerRun (Except PyExc PyVal)) : Except PyExc Verdict :=
  match run.outcome with
  | .error exc =>
    if exc.isInstance "TimeoutError" then .ok { status := .timedOut, error := some exc.text }
    else do
      let maxAttempts ← w.resolveMaxAttempts run.payload
      return {
        status := if (count : Int) < maxAttempts then .pending else .failed
        error := some exc.text }
  | .ok v => do
    let (result, outcome) ← judge pf run.payload run.wallSeconds v
    return judged pf result outcome

variable {w} {ok : Admits} {s s' : StateStore} {cs : List TaskId} {E : PyExc → Ledger → Prop}
  {Q : TaskRecord → Ledger → Prop} {row : TaskRecord} {a : Attempt}

theorem Bare.fire (hw : w.Bare) (c : HookCall) : w.hooks.fire c = pure c := by
  rw [hw.hooks]
  rfl

theorem Bare.keepArtifact (hw : w.Bare) (a : Attempt) (r : Dict) :
    w.keepArtifact a r = pure () := by
  rw [LocalWorker.keepArtifact, hw.artifactStore]
  rfl

theorem Bare.requeueOnOom (hw : w.Bare) (a : Attempt) (exc : PyExc) :
    w.requeueOnOom pf a exc = pure () := by
  rw [LocalWorker.requeueOnOom, if_neg]
  rw [hw.maxOomRetries]
  exact fun h => absurd h.1 (by omega)

/-! ## One handler call settled -/

end LocalWorker

/-! ## The handlers of the claim -/

/-- A value a handler may return: a dictionary under string keys that `json.dumps` writes and
on which, stamped with the wall time, `validate_result` does not raise. -/
def Acceptable (pf : Platform) (payload : Dict) (wall : PyFloat) (v : PyVal) : Prop :=
  ∃ d : Dict, v = .dict d ∧ (d.map (·.1)).all PyKey.isStr = true ∧
    d.throughJson.isOk = true ∧ ∀ v', LocalWorker.stampWall wall (.dict d) = .ok v' →
      (validateResult pf v' (payload.get "method")).isOk = true

/-- The handler leaves the payload alone and raises, runs into its deadline, or returns an
acceptable value. -/
def fair (pf : Platform) : Admits where
  ext x r :=
    match x, r with
    | .runHandler t, run =>
      run.payload = t.payload ∧
        ∀ v, run.outcome = .ok v → Acceptable pf t.payload run.wallSeconds v
    | .runHandlerWithin t _, run =>
      run.payload = t.payload ∧
        ∀ v, run.outcome = some (.ok v) → Acceptable pf t.payload run.wallSeconds v
    | _, _ => True
  refreshable := True

theorem judge_dict {pf : Platform} {payload d : Dict} {wall : PyFloat} {v : PyVal}
    {outcome : ValidationOutcome} (hs : LocalWorker.stampWall wall v = .ok (.dict d))
    (hv : validateResult pf (.dict d) (payload.get "method") = .ok outcome) :
    LocalWorker.judge pf payload wall v =
      let result := d.set "_validation_status" (.str outcome.status.value)
      .ok (if outcome.status.rejected then
        result.set "_validation_errors" (.list (outcome.validationErrors.map .str)) else result,
        outcome) := by
  rw [LocalWorker.judge, hs]
  change (validateResult pf (.dict d) (payload.get "method") >>= _) = _
  rw [hv]
  change (if outcome.status.rejected = true then _ else _) = _
  split <;> rfl

/-- An acceptable value can be judged, and what becomes of it stored. -/
theorem Acceptable.judge {pf : Platform} {payload : Dict} {wall : PyFloat} {v : PyVal}
    (h : Acceptable pf payload wall v) :
    ∃ result outcome, LocalWorker.judge pf payload wall v = .ok (result, outcome) ∧
      result.throughJson.isOk = true := by
  obtain ⟨d, rfl, hkeys, hjson, hval⟩ := h
  obtain ⟨d', hstamp, hkeys', hjson'⟩ : ∃ d' : Dict,
      LocalWorker.stampWall wall (.dict d) = .ok (.dict d') ∧
      (d'.map (·.1)).all PyKey.isStr = true ∧ d'.throughJson.isOk = true := by
    unfold LocalWorker.stampWall
    dsimp only
    split
    · exact ⟨d, rfl, hkeys, hjson⟩
    · have hset := Dict.throughJson_set (k := "wall_seconds") (v := .float wall) rfl hkeys hjson
      exact ⟨_, rfl, hset.1, hset.2⟩
  have hv := hval _ hstamp
  cases hr : validateResult pf (.dict d') (payload.get "method") with
  | error e => rw [hr] at hv; cases hv
  | ok outcome =>
    have h1 := Dict.throughJson_set (k := "_validation_status") (v := .str outcome.status.value)
      rfl hkeys' hjson'
    have h2 := Dict.throughJson_set (k := "_validation_errors")
      (v := .list (outcome.validationErrors.map .str)) (by simp [PyVal.plain]) h1.1 h1.2
    rw [judge_dict hstamp hr]
    refine ⟨_, outcome, rfl, ?_⟩
    split
    · exact h2.2
    · exact h1.2

/-- `SUCCEEDED`, `FAILED`, `TIMED_OUT` or `DEGENERATE`. -/
def TaskStatus.ended (st : TaskStatus) : Bool := st = .succeeded || st.unsuccessful

namespace LocalWorker

variable {pf : Platform} {w : LocalWorker} {s s' : StateStore} {cs : List TaskId}

variable {E : PyExc → Ledger → Prop} {a : Attempt} {row t : TaskRecord} {runId : RunId}

/-- What an attempt leaves of the ledger: the handler has been called once more, and the task
is back in the queue with an attempt less to go, or has ended. -/
structure Attempted (w : LocalWorker) (s : StateStore) (cs : List TaskId) (runId : RunId)
    (t : TaskRecord) (l : Ledger) (t' : TaskRecord) : Prop where
  calls : l.calls = t.taskId :: cs
  found : l.store.task? t.taskId = some t'
  others : ∀ id, id ≠ t.taskId → l.store.task? id = s.task? id
  run : ∃ r, l.store.run? runId = some r ∧ r.status = targetStatus (l.store.tasksOf runId)
  ofRun : t'.runId = t.runId
  payload : t'.payload = t.payload
  count : t'.attemptCount = t.attemptCount + 1
  outcome : t'.status = .pending ∧ (∀ m, w.resolveMaxAttempts t.payload = .ok m →
    (t'.attemptCount : Int) < m) ∨ t'.status.ended = true

/-- `max(1, int(max_attempts))`, of the task or of the retry policy. -/
def attemptLimit (w : LocalWorker) (payload : Dict) : Nat :=
  match w.resolveMaxAttempts payload with
  | .ok m => m.toNat
  | .error _ => 0

theorem resolveMaxAttempts_ok (w : LocalWorker) {payload : Dict}
    (h : (w.resolveMaxAttempts payload).isOk = true) :
    w.resolveMaxAttempts payload = .ok (w.attemptLimit payload : Int) ∧
      1 ≤ w.attemptLimit payload := by
  unfold attemptLimit
  cases hm : w.resolveMaxAttempts payload with
  | error e => rw [hm] at h; cases h
  | ok m =>
    have h1 : 1 ≤ m := by
      unfold resolveMaxAttempts at hm
      cases hi : ((payload.get? "max_attempts").getD (.int w.retryPolicy.maxAttempts)).toInt with
      | error e => rw [hi] at hm; cases hm
      | ok raw =>
        rw [hi] at hm
        obtain rfl := Except.ok.inj hm
        exact le_max_left 1 raw
    dsimp only
    exact ⟨by rw [Int.toNat_of_nonneg (by omega)], by omega⟩

/-- Where a task stands between two rounds, having had `calls` handler calls. -/
structure Progress (w : LocalWorker) (calls : Nat) (t : TaskRecord) : Prop where
  calls : calls = t.attemptCount
  limit : t.attemptCount ≤ w.attemptLimit t.payload
  stage : t.status = .pending ∧ t.attemptCount < w.attemptLimit t.payload ∨
    t.status.ended = true ∧ 0 < t.attemptCount
  attempts : (w.resolveMaxAttempts t.payload).isOk = true
  timeout : (w.resolveTimeout t.payload).isOk = true

/-- **The loop invariant of a drain**: the run has the status its tasks ask for, every task
waits or has ended, and `n` tasks have succeeded. -/
structure Draining (w : LocalWorker) (runId : RunId) (n : Nat) (l : Ledger) : Prop where
  run : ∃ r, l.store.run? runId = some r ∧ r.status = targetStatus (l.store.tasksOf runId)
  tasks : ∀ t ∈ l.store.tasksOf runId, w.Progress (l.calls.count t.taskId) t
  succeeded : n = (l.store.tasksOf runId).countP (·.status = .succeeded)

theorem Draining.addEvents {n : Nat} (h : w.Draining runId n ⟨s, cs⟩) (es : List EventRecord) :
    w.Draining runId n ⟨s.addEvents es, cs⟩ := ⟨h.run, h.tasks, h.succeeded⟩

theorem Draining.refreshable {n : Nat} {l : Ledger} (h : w.Draining runId n l) :
    Refreshable l.store runId := by
  obtain ⟨r, hr, hst⟩ := h.run
  exact ⟨r, hr, by simp [RunStatus.canReach, hst]⟩

theorem Draining.ended {n : Nat} {l : Ledger} (h : w.Draining runId n l)
    (hnone : ∀ t ∈ l.store.tasksOf runId, t.status ≠ .pending) {t : TaskRecord}
    (ht : t ∈ l.store.tasksOf runId) : t.status.ended = true := by
  rcases (h.tasks t ht).stage with h | ⟨h, -⟩
  · exact absurd h.1 (hnone t ht)
  · exact h

end LocalWorker

/-- A fresh run is where a drain starts. -/
theorem FreshRun.draining {w : LocalWorker} {runId : RunId} {seed : Option Int} {k : Nat}
    {s : StateStore} (h : FreshRun runId seed k s)
    (hset : ∀ t ∈ s.tasksOf runId, (w.resolveMaxAttempts t.payload).isOk = true ∧
      (w.resolveTimeout t.payload).isOk = true) : w.Draining runId 0 ⟨s, []⟩ where
  run := by
    obtain ⟨r, hr, hst, -⟩ := h.run
    exact ⟨r, hr, hst.trans (targetStatus_validated h.untouched).symm⟩
  tasks := fun t ht => by
    obtain ⟨hp, hz⟩ := h.untouched t ht
    obtain ⟨-, h1⟩ := w.resolveMaxAttempts_ok (hset t ht).1
    exact ⟨hz.symm, by omega, .inl ⟨hp, by omega⟩, (hset t ht).1, (hset t ht).2⟩
  succeeded := by
    refine (List.countP_eq_zero.mpr fun t ht => ?_).symm
    rw [(h.untouched t ht).1]
    decide

end FineTuneHarness
