import FineTuneHarness.Evaluation.Revalidation
import FineTuneHarness.Executor.Discipline

/-!
# What a task comes to

A workload is a handler and hooks that look at a task as it was created, not at who has leased it
or how often it has been tried. For such a workload `comesTo` says what the terminal row of a task
is, given the time the handler takes: no attempt of any worker writes a different one.
-/
namespace FineTuneHarness

open Library Library.Program

/-- The task as it was created: nothing of what leases and attempts change. -/
def TaskRecord.described (t : TaskRecord) : TaskRecord :=
  { t with
    status := .pending, result := none, error := none, leaseOwner := none, leasedUntil := none,
    attemptCount := 0 }

def HookCall.described : HookCall → HookCall
  | .beforeTask t => .beforeTask t.described
  | .afterTaskSuccess t r => .afterTaskSuccess t.described r
  | .afterTaskFailure t e => .afterTaskFailure t.described e
  | .afterTaskTimeout t => .afterTaskTimeout t.described
  | c => c

/-- The rows of a terminal status. -/
structure Ending where
  status : TaskStatus
  result : Option Dict
  error : Option String

/-- The settings that decide what becomes of a task, and what its handler and its hooks answer. -/
structure Workload where
  hooks : HookRegistry := {}
  timeoutPolicy : TimeoutPolicy := {}
  ext : (e : Ext) → e.Reply

/-- What a call of a handler leaves in `task.payload`, and what it returns or raises. -/
structure Handled where
  payload : Dict
  outcome : Except PyExc PyVal

abbrev TaskFn := TaskRecord → Handled

namespace Workload

variable (pf : Platform) (W : Workload)

/-- What the handler makes of the payload it is given, in time. -/
def outcome (task : TaskRecord) (timeout : Option Int) : Except PyExc PyVal :=
  match timeout with
  | none => (W.ext (.runHandler task)).outcome
  | some seconds =>
    LocalWorker.withinDeadline seconds (some (W.ext (.runHandler task)).outcome)

/-- The row of a result that the validator has judged. -/
def judged (task : TaskRecord) (payload result : Dict) (outcome : ValidationOutcome) : Ending :=
  if outcome.status.rejected then
    { status := .degenerate, result := some result
      error := some s!"{outcome.status.value}: {pf.repr (.list (outcome.validationErrors.map .str))}" }
  else
    { status := .succeeded, error := none
      result :=
        some (W.hooks.applied W.ext (.afterTaskSuccess { task with payload } result)).result }

/-- The terminal row of a task whose last attempt took `wall` seconds, unless that attempt raises
before it is settled. -/
def comesTo (task : TaskRecord) (wall : PyFloat) : Except PyExc Ending := do
  let task := task.described
  let payload := (W.hooks.applied W.ext (.beforeTask task)).payload
  let timeout ←
    LocalWorker.resolveTimeout { workerId := "", timeoutPolicy := W.timeoutPolicy } payload
  match W.outcome { task with payload } timeout with
  | .error exc =>
    if exc.isInstance "TimeoutError" then return ⟨.timedOut, none, some exc.text⟩
    else return ⟨.failed, none, some exc.text⟩
  | .ok v => do
    let payload := (W.ext (.runHandler { task with payload })).payload
    let (result, outcome) ← LocalWorker.judge pf payload wall v
    return W.judged pf task payload result outcome

end Workload

/-- The ending is what the task comes to. -/
def Workload.Settles (pf : Platform) (W : Workload) (task : TaskRecord) (x : Ending) : Prop :=
  ∃ q, W.comesTo pf task (.finite q) = .ok x

/-- What a worker is told when its surroundings run the workload. -/
def Workload.Tells (W : Workload) : (e : Effect) → e.Reply → Prop
  | .ext (.runHandler t), (run : HandlerRun (Except PyExc PyVal)) =>
    run.payload = (W.ext (.runHandler t.described)).payload ∧
      run.outcome = (W.ext (.runHandler t.described)).outcome ∧ ∃ q, run.wallSeconds = .finite q
  | .ext (.runHandlerWithin t _), (run : HandlerRun (Option (Except PyExc PyVal))) =>
    run.payload = (W.ext (.runHandler t.described)).payload ∧
      run.outcome = some (W.ext (.runHandler t.described)).outcome ∧
      ∃ q, run.wallSeconds = .finite q
  | .ext (.hook name c), r => r = W.ext (.hook name c.described)
  | _, _ => True

namespace Validator

variable {pf : Platform} {d d' : Dict} {m : PyVal}

theorem floatsOf_congr {ks : List String} (h : ∀ k ∈ ks, d'.get? k = d.get? k) :
    floatsOf d' ks = floatsOf d ks := by
  induction ks with
  | nil => rfl
  | cons k ks ih =>
    rw [floatsOf, floatsOf, h k List.mem_cons_self,
      ih fun k' hk' => h k' (List.mem_cons_of_mem _ hk')]

/-- The checks look at no entry `wall_seconds` but in the metric loop. -/
theorem validateDict_congr (h : ∀ k, k ≠ "wall_seconds" → d'.get? k = d.get? k)
    (hmetrics : metricErrors pf d' = metricErrors pf d) :
    validateDict pf d' m = validateDict pf d m := by
  have hget : ∀ k, k ≠ "wall_seconds" → d'.get k = d.get k := by
    intro k hk
    rw [Dict.get, Dict.get, h k hk]
  have hfloats : ∀ ks : List String, "wall_seconds" ∉ ks → floatsOf d' ks = floatsOf d ks := by
    intro ks hks
    apply floatsOf_congr
    intro k hk
    apply h
    rintro rfl
    exact hks hk
  have hmethod : effectiveMethod m d' = effectiveMethod m d := by
    rw [effectiveMethod, effectiveMethod, hget _ (by decide), hget _ (by decide)]
  have heval : evalExamplesError pf d' = evalExamplesError pf d := by
    rw [evalExamplesError, evalExamplesError, h _ (by decide)]
  have hwarnings : warningsOf d' = warningsOf d := by
    rw [warningsOf, warningsOf, h _ (by decide)]
  have hcaught : ∀ caught, caughtError pf caught d' = caughtError pf caught d := by
    intro caught
    rw [caughtError, caughtError, hget _ (by decide)]
  have hpoor : poorPerformance d' = poorPerformance d := by
    rw [poorPerformance, poorPerformance, hfloats _ (by decide)]
  have hzeros : zeroReasons d' = zeroReasons d := by
    rw [zeroReasons, zeroReasons, hfloats _ (by decide), hget _ (by decide)]
  have hmissing : missingReasons d' = missingReasons d := by
    rw [missingReasons, missingReasons, h _ (by decide), h _ (by decide)]
  have htotal : totalReasons pf d' = totalReasons pf d := by
    rw [totalReasons, totalReasons, h _ (by decide), h _ (by decide)]
  have htrainable : ∀ adapter eff, trainableReasons pf adapter eff d' =
      trainableReasons pf adapter eff d := by
    intro adapter eff
    rw [trainableReasons, trainableReasons, zeroTrainable, zeroTrainable, h _ (by decide)]
  have hreasons : ∀ eff, degeneracyReasons pf eff d' = degeneracyReasons pf eff d := by
    intro eff
    simp only [degeneracyReasons_eq, hzeros, hmissing, htotal, htrainable]
  unfold validateDict
  simp only [hget "caught_exception" (by decide), hmethod, hmetrics, hcaught, heval, hreasons,
    hwarnings, hpoor]

/-- A finite time is no metric that the loop complains about. -/
theorem metricErrors_timed (q : ℚ) :
    metricErrors pf (d ++ [(.str "wall_seconds", .float (.finite q))]) = metricErrors pf d := by
  induction d with
  | nil => rfl
  | cons kv d ih =>
    obtain ⟨k, raw⟩ := kv
    rw [List.cons_append, metricErrors, metricErrors, ih]

/-- **The time a handler takes does not show in the verdict.** -/
theorem validateDict_timed (q : ℚ) :
    validateDict pf (d ++ [(.str "wall_seconds", .float (.finite q))]) m = validateDict pf d m := by
  apply validateDict_congr
  · intro k hk
    rw [Dict.get?, Dict.get?, List.find?_append, List.find?_cons_of_neg
      (by simpa using fun h => hk h.symm)]
    simp
  · exact metricErrors_timed q
end Validator

/-! ## The time a handler takes -/

namespace LocalWorker

variable {pf : Platform}

/-- The handler says itself how long it took, or the worker does not get as far as its stamp. -/
def timesItself : PyVal → Bool
  | .dict d | .mapping d => Dict.contains d "wall_seconds"
  | _ => true

theorem stampWall_timed {v : PyVal} (h : timesItself v = true) (wall wall' : PyFloat) :
    stampWall wall v = stampWall wall' v := by
  cases v <;> try rfl
  all_goals
    simp only [timesItself] at h
    simp only [stampWall, h, if_true]

/-- The verdict on a result does not depend on the time it took. -/
theorem judge_outcome (payload : Dict) (v : PyVal) (q q' : ℚ) :
    (judge pf payload (.finite q) v).map (·.2) = (judge pf payload (.finite q') v).map (·.2) := by
  have hstamped : ∀ d : Dict, d.contains "wall_seconds" = false → ∀ q,
      validateResult pf (.dict (d.set "wall_seconds" (.float (.finite q)))) (payload.get "method") =
        Validator.validateDict pf d (payload.get "method") := by
    intro d hd q
    rw [Dict.set, hd]
    exact Validator.validateDict_timed q
  by_cases htimed : timesItself v = true
  · rw [judge, judge, stampWall_timed htimed (.finite q) (.finite q')]
  have hset : ∃ d : Dict, d.contains "wall_seconds" = false ∧ ∀ q,
      stampWall (.finite q) v = .ok (.dict (d.set "wall_seconds" (.float (.finite q)))) := by
    cases v <;> try exact absurd rfl htimed
    all_goals
      rename_i d
      have hd : Dict.contains d "wall_seconds" = false := Bool.eq_false_iff.mpr htimed
      refine ⟨d, hd, fun q => ?_⟩
      simp only [stampWall, hd]
      rfl
  obtain ⟨d, hd, hstamp⟩ := hset
  unfold judge
  simp only [hstamp, hstamped d hd, Bind.bind, Except.bind, pure, Except.pure]
  cases Validator.validateDict pf d (payload.get "method") with
  | error e => rfl
  | ok o =>
    dsimp only
    split <;> rfl

end LocalWorker

namespace Workload

variable {pf : Platform} {W : Workload}

/-- The handler reports its own time in every result. -/
def ReportsTime (W : Workload) : Prop :=
  ∀ t v, (W.ext (.runHandler t)).outcome = .ok v → LocalWorker.timesItself v = true

/-- The task as the handler is given it. -/
def prepared (W : Workload) (t : TaskRecord) : TaskRecord :=
  { t.described with payload := (W.hooks.applied W.ext (.beforeTask t.described)).payload }

/-- What `_execute` makes of the handler's answer. -/
def inTime : Option Int → Except PyExc PyVal → Except PyExc PyVal
  | none, outcome => outcome
  | some seconds, outcome => LocalWorker.withinDeadline seconds (some outcome)

/-- What becomes of the task once its handler has done with it. -/
def concludes (pf : Platform) (W : Workload) (t : TaskRecord) (wall : PyFloat) (h : Handled) :
    Except PyExc Ending := do
  let timeout ← LocalWorker.resolveTimeout { workerId := "", timeoutPolicy := W.timeoutPolicy }
    (W.prepared t).payload
  match inTime timeout h.outcome with
  | .error exc =>
    if exc.isInstance "TimeoutError" then return ⟨.timedOut, none, some exc.text⟩
    else return ⟨.failed, none, some exc.text⟩
  | .ok v => do
    let (result, outcome) ← LocalWorker.judge pf h.payload wall v
    return W.judged pf t.described h.payload result outcome

/-- What the handler makes of a task. -/
def handled (W : Workload) (t : TaskRecord) : Handled :=
  ⟨(W.ext (.runHandler t)).payload, (W.ext (.runHandler t)).outcome⟩

theorem comesTo_eq (W : Workload) (t : TaskRecord) (wall : PyFloat) :
    W.comesTo pf t wall = W.concludes pf t wall (W.handled (W.prepared t)) := by
  have houtcome : ∀ task timeout, W.outcome task timeout = inTime timeout (W.handled task).outcome := by
    intro task timeout
    cases timeout <;> rfl
  unfold comesTo concludes
  simp only [houtcome]
  rfl

/-- The verdict is passed before the hooks that come after it. -/
theorem judged_verdict (W W' : Workload) (task : TaskRecord) (payload r r' : Dict)
    (o : ValidationOutcome) :
    (W.judged pf task payload r o).status = (W'.judged pf task payload r' o).status ∧
      (W.judged pf task payload r o).error = (W'.judged pf task payload r' o).error := by
  unfold judged
  split <;> exact ⟨rfl, rfl⟩

theorem inTime_ok {timeout : Option Int} {outcome : Except PyExc PyVal} {v : PyVal}
    (h : inTime timeout outcome = .ok v) : outcome = .ok v := by
  cases timeout with
  | none => exact h
  | some seconds =>
    rw [inTime] at h
    unfold LocalWorker.withinDeadline at h
    split at h
    next hnone => cases hnone
    next => split at h <;> cases h
    next v' hv' =>
      obtain rfl := Except.ok.inj h
      exact Option.some.inj hv'

/-- **Two endings of one answer** of the handler: the time it took and the hooks that come after do
not show in the status and the error. -/
theorem concludes_shown {W' : Workload} {task : TaskRecord} {q q' : ℚ} {x x' : Ending} {h : Handled}
    (htimeout : W.timeoutPolicy = W'.timeoutPolicy) (hprepared : W.prepared task = W'.prepared task)
    (hx : W.concludes pf task (.finite q) h = .ok x)
    (hx' : W'.concludes pf task (.finite q') h = .ok x') :
    x.status = x'.status ∧ x.error = x'.error ∧
      ((∀ payload r o, W.judged pf task.described payload r o =
          W'.judged pf task.described payload r o) →
        (∀ v, h.outcome = .ok v → LocalWorker.timesItself v = true) → x = x') := by
  obtain ⟨timeout, hresolved, hx⟩ := Except.bind_ok hx
  obtain ⟨timeout', hresolved', hx'⟩ := Except.bind_ok hx'
  rw [← htimeout, ← hprepared] at hresolved'
  obtain rfl := Except.ok.inj (hresolved.symm.trans hresolved')
  split at hx
  next exc hexc =>
    rw [hexc] at hx'
    obtain rfl := Except.ok.inj (hx.symm.trans hx')
    exact ⟨rfl, rfl, fun _ _ => rfl⟩
  next v hv =>
    rw [hv] at hx'
    obtain ⟨judged, hjudged, hx⟩ := Except.bind_ok hx
    obtain ⟨judged', hjudged', hx'⟩ := Except.bind_ok hx'
    have houtcome := @LocalWorker.judge_outcome pf h.payload v q q'
    rw [hjudged, hjudged'] at houtcome
    have houtcome : judged.2 = judged'.2 := Except.ok.inj houtcome
    obtain rfl := Except.ok.inj hx
    obtain rfl := Except.ok.inj hx'
    rw [← houtcome]
    obtain ⟨hstatus, herror⟩ := judged_verdict W W' task.described h.payload judged.1 judged'.1 judged.2
    refine ⟨hstatus, herror, fun hsame htimed => ?_⟩
    rw [LocalWorker.judge, LocalWorker.stampWall_timed (htimed v (inTime_ok hv)) (.finite q)
      (.finite q'), ← LocalWorker.judge] at hjudged
    obtain rfl := Except.ok.inj (hjudged.symm.trans hjudged')
    exact hsame _ _ _

/-- **Two endings of one task** have the same status and the same error text; where the handler
reports its own time, they are the same. -/
theorem Settles.unique {task : TaskRecord} {x x' : Ending} (h : W.Settles pf task x)
    (h' : W.Settles pf task x') :
    x.status = x'.status ∧ x.error = x'.error ∧ (W.ReportsTime → x = x') := by
  obtain ⟨q, hq⟩ := h
  obtain ⟨q', hq'⟩ := h'
  rw [comesTo_eq] at hq hq'
  obtain ⟨hstatus, herror, hsame⟩ := concludes_shown rfl rfl hq hq'
  exact ⟨hstatus, herror, fun hreports => hsame (fun _ _ _ => rfl) fun v hv => hreports _ v hv⟩

end Workload

/-! ## What a worker may write -/

namespace LocalWorker

variable {pf : Platform} {W : Workload} {w : LocalWorker} {l : Option TaskRecord} {α β : Type}

/-- What the worker knows once its handler has returned or raised. -/
structure Ran (W : Workload) (task : TaskRecord) (run : HandlerRun (Except PyExc PyVal)) :
    Prop where
  prepared : ∃ timeout,
    resolveTimeout { workerId := "", timeoutPolicy := W.timeoutPolicy }
      (W.hooks.applied W.ext (.beforeTask task.described)).payload = .ok timeout ∧
    run.outcome = W.outcome
      { task.described with payload := (W.hooks.applied W.ext (.beforeTask task.described)).payload }
      timeout
  payload : run.payload = (W.ext (.runHandler { task.described with
    payload := (W.hooks.applied W.ext (.beforeTask task.described)).payload })).payload
  wall : ∃ q, run.wallSeconds = .finite q

/-- The ending of an attempt is the one its task comes to. -/
theorem Ran.comesTo {task : TaskRecord} {run : HandlerRun (Except PyExc PyVal)}
    (h : Ran W task run) (wall : PyFloat) : W.comesTo pf task wall =
      match run.outcome with
      | .error exc =>
        if exc.isInstance "TimeoutError" then .ok ⟨.timedOut, none, some exc.text⟩
        else .ok ⟨.failed, none, some exc.text⟩
      | .ok v => (judge pf run.payload wall v).map fun x =>
          W.judged pf task.described run.payload x.1 x.2 := by
  obtain ⟨timeout, htimeout, houtcome⟩ := h.prepared
  have hpayload := h.payload
  unfold Workload.comesTo
  dsimp only
  rw [htimeout, houtcome, hpayload]
  dsimp only [Bind.bind, Except.bind]
  split
  · split <;> rfl
  · cases judge pf _ wall _ <;> rfl

/-! ### The ways an attempt can end -/

end LocalWorker
end FineTuneHarness
