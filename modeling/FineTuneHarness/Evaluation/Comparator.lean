import FineTuneHarness.Evaluation.Validator
import FineTuneHarness.Orchestrator.Runner

/-!
# Comparing runs

`compareRuns` reads the runs, then their tasks, and sets the tasks of one key side by side.
Sums, quotients and differences of metrics are exact where the code rounds to doubles.
-/
namespace FineTuneHarness

open Library (Program)

/-! ## `==` on Python values -/

/-- Numbers are equal by value, whatever their types; text equals text only. -/
def PyKey.eq : PyKey → PyKey → Bool
  | .str s, .str s' => s = s'
  | .none, .none => true
  | k, k' =>
    match k.number?, k'.number? with
    | some x, some y => x = y && x ≠ .nan
    | _, _ => false

mutual

/-- `v == w` on the types JSON knows; the order of a dictionary does not count. -/
def PyVal.eq : PyVal → PyVal → Bool
  | .list xs, .list ys => eqList xs ys
  | .dict d, .dict d' => d.length = d'.length && eqItems d d'
  | .str s, .str s' => s = s'
  | .none, .none => true
  | v, w =>
    match Validator.number? v, Validator.number? w with
    | some x, some y => x = y && x ≠ .nan
    | _, _ => false

def eqList : List PyVal → List PyVal → Bool
  | [], [] => true
  | x :: xs, y :: ys => x.eq y && eqList xs ys
  | _, _ => false

/-- Every entry has its match in `d'`. -/
def eqItems : List (PyKey × PyVal) → Dict → Bool
  | [], _ => true
  | (k, v) :: rest, d' =>
    (match d'.find? fun kv => k.eq kv.1 with | some kv => v.eq kv.2 | none => false) &&
      eqItems rest d'

end

def PyVal.isNone : PyVal → Bool
  | .none => true
  | _ => false

namespace Comparator

/-! ## Comparability -/

inductive Severity
  | error | warning
deriving DecidableEq

structure ComparabilityIssue where
  severity : Severity
  field : String
  baselineValue : PyVal
  compareValue : PyVal
  message : String

/-- `_COMPARABLE_CONFIG_KEYS`, sorted. -/
def comparableConfigKeys : List String :=
  ["max_length", "model_name", "model_type", "num_labels", "tokenizer_type", "vocab_size"]

/-- Both maps are populated and differ. -/
def hashesDiffer (a b : Dict) : Bool :=
  !a.isEmpty && !b.isEmpty && !(PyVal.dict a).eq (.dict b)

def datasetHashesIssue (pf : Platform) (a b : Dict) : List ComparabilityIssue :=
  if hashesDiffer a b then
    let left := pf.repr (.dict a)
    let right := pf.repr (.dict b)
    [{ severity := .error, field := "dataset_hashes", baselineValue := .dict a
       compareValue := .dict b
       message := s!"dataset_hashes differ — results measure different data: {left} vs {right}" }]
  else []

/-- A warning where both values are there and differ. -/
def warnDifferent (field : String) (message : PyVal → PyVal → String) (a b : PyVal) :
    List ComparabilityIssue :=
  if a.isNone || b.isNone || a.eq b then []
  else [{ severity := .warning, field, baselineValue := a, compareValue := b
          message := message a b }]

def seedIssue (pf : Platform) : PyVal → PyVal → List ComparabilityIssue :=
  warnDifferent "seed" fun a b =>
    s!"seed differs: {pf.repr a} vs {pf.repr b} — variance from different seeds may exceed metric deltas"

/-- `commit[:8]` of a text, `str(commit)` of anything else. -/
def shortCommit (pf : Platform) : PyVal → String
  | .str s => String.ofList (s.toList.take 8)
  | v => pf.repr v

def commitIssue (pf : Platform) : PyVal → PyVal → List ComparabilityIssue :=
  warnDifferent "git_commit" fun a b =>
    s!"git_commit differs: {shortCommit pf a} vs {shortCommit pf b} — code may have changed between runs"

def configIssue (pf : Platform) (key : String) : PyVal → PyVal → List ComparabilityIssue :=
  warnDifferent s!"config.{key}" fun a b =>
    s!"config.{key} differs: {pf.repr a} vs {pf.repr b}"

def checkComparability (pf : Platform) (a b : RunRecord) : List ComparabilityIssue :=
  datasetHashesIssue pf a.datasetHashes b.datasetHashes ++
    seedIssue pf (a.config.get "seed") (b.config.get "seed") ++
    commitIssue pf (a.envSnapshot.get "git_commit") (b.envSnapshot.get "git_commit") ++
    comparableConfigKeys.flatMap fun key => configIssue pf key (a.config.get key) (b.config.get key)

def errorsOf (issues : List ComparabilityIssue) : List ComparabilityIssue :=
  issues.filter (·.severity = .error)

def comparabilityError (issues : List ComparabilityIssue) : PyExc where
  cls := "ComparabilityError"
  bases := ["ValueError", "Exception"]
  text := "Runs are not comparable: " ++
    String.intercalate "; " ((errorsOf issues).map (·.message))

/-! ## Metrics of one result -/

/-- `DEFAULT_THRESHOLDS`: the doubles nearest to 0.02, 0.03 and 0.05. -/
def defaultThresholds : List (String × PyFloat) :=
  let two := PyFloat.finite (5764607523034235 / 2 ^ 58)
  let three := PyFloat.finite (1080863910568919 / 2 ^ 55)
  let five := PyFloat.finite (3602879701896397 / 2 ^ 56)
  [("accuracy", two), ("f1", two), ("f1_macro", two), ("f1_micro", two), ("f1_weighted", two),
    ("precision", three), ("recall", three), ("auc", two), ("roc_auc", two),
    ("balanced_accuracy", two), ("loss", five), ("val_loss", five)]

def lowerIsBetter : List String := ["loss", "val_loss", "loss_start", "loss_end"]

/-- The finite numbers of a result, as `float()` gives them. -/
def finiteMetrics : Dict → Except PyExc (List (PyKey × ℚ))
  | [] => .ok []
  | (k, v) :: rest =>
    match v.toFloat? with
    | none => finiteMetrics rest
    | some f => do
      match ← f with
      | .finite q => return (k, q) :: (← finiteMetrics rest)
      | _ => finiteMetrics rest

def numericMetrics : Option Dict → Except PyExc (List (PyKey × ℚ))
  | none => .ok []
  | some result => finiteMetrics result

def negate : PyFloat → PyFloat
  | .finite q => .finite (-q)
  | .inf negative => .inf !negative
  | .nan => .nan

def isMetricRegression (key : PyKey) (delta : ℚ) (thresholds : List (String × PyFloat)) : Bool :=
  match thresholds.find? fun t => key = .str t.1 with
  | none => false
  | some (_, threshold) =>
    if Validator.memberOf lowerIsBetter key then Validator.floatLt threshold (.finite delta)
    else Validator.floatLt (.finite delta) (negate threshold)

/-- `_result_is_valid_for_comparison`. -/
def resultIsValidForComparison (pf : Platform) : Option Dict → Except PyExc (Bool × String)
  | none => .ok (false, "result is None")
  | some result => do
    let outcome ← validateResult pf (.dict result) .none
    if outcome.status.rejected then
      let reasons := String.intercalate "; " (outcome.validationErrors.take 3)
      return (false, s!"{outcome.status.value}: {reasons}")
    else return (true, "")

/-! ## One run -/

structure RunSnapshot where
  runId : RunId
  name : String
  status : RunStatus
  totalTasks : Nat
  succeeded : Nat
  failed : Nat
  /-- `none` for a run without tasks. -/
  successRate : Option ℚ
  /-- `none` where no task has reported a time. -/
  totalWallSeconds : Option PyFloat
  createdAt : Instant
  finishedAt : Option Instant
  degenerate : Nat

def addFloat : PyFloat → PyFloat → PyFloat
  | .finite p, .finite q => .finite (p + q)
  | .nan, _ | _, .nan => .nan
  | .inf n, .inf m => if n = m then .inf n else .nan
  | .inf n, _ | _, .inf n => .inf n

/-- `float(result["wall_seconds"])` where it is a number. -/
def wallSecondsOf (result : Option Dict) : Except PyExc (Option PyFloat) :=
  match (result.bind (Dict.get? · "wall_seconds")).bind PyVal.toFloat? with
  | none => .ok none
  | some f => do return some (← f)

def timesOf : List TaskRecord → Except PyExc (List PyFloat)
  | [] => .ok []
  | t :: ts => do
    let wall ← wallSecondsOf t.result
    return wall.toList ++ (← timesOf ts)

/-- The statuses that count as failed: every ending but success. -/
def TaskStatus.failedForComparison (st : TaskStatus) : Bool :=
  st ∈ [.failed, .timedOut, .cancelled, .degenerate]

def snapshot (run : RunRecord) (tasks : List TaskRecord) : Except PyExc RunSnapshot := do
  let succeeded := (tasks.filter fun t => t.status = .succeeded).length
  let timed ← timesOf tasks
  return {
    runId := run.runId, name := run.name, status := run.status, totalTasks := tasks.length
    succeeded
    failed := (tasks.filter fun t => TaskStatus.failedForComparison t.status).length
    successRate := if tasks.isEmpty then none else some (succeeded / tasks.length)
    totalWallSeconds := if timed.isEmpty then none else some (timed.foldl addFloat (.finite 0))
    createdAt := run.createdAt, finishedAt := run.finishedAt
    degenerate := (tasks.filter fun t => t.status = .degenerate).length }

/-! ## One task in several runs -/

/-- A dictionary by run is the list of what the loop over the runs puts into it; `metricDeltas`
and `metricRegressions` list each metric with a run and its delta. -/
structure TaskComparison where
  taskKey : String
  statusByRun : List (RunId × String)
  resultByRun : List (RunId × Option Dict)
  metricDeltas : List (PyKey × RunId × ℚ)
  wallSecondsByRun : List (RunId × Option PyFloat)
  isRegression : Bool
  isImprovement : Bool
  metricRegressions : List (PyKey × RunId × ℚ)
  excludedFromMetrics : List (RunId × String)

/-- The status text of a task, or of its absence. -/
def statusText : Option TaskRecord → String
  | some t => t.status.value
  | none => "missing"

def failTexts : List String :=
  [TaskStatus.failed.value, TaskStatus.timedOut.value, TaskStatus.cancelled.value,
    TaskStatus.degenerate.value, "missing"]

def okTexts : List String := [TaskStatus.succeeded.value]

/-- The baseline succeeded and a later run did not. -/
def statusRegressed (baseline : String) (later : List String) : Bool :=
  baseline ∈ okTexts && later.any (· ∈ failTexts)

def statusImproved (baseline : String) (later : List String) : Bool :=
  baseline ∈ failTexts && later.any (· ∈ okTexts)

section Task

variable (pf : Platform) (resultOf : RunId → Option Dict)

/-- The runs whose result is left out of the metrics, each with the reason. -/
def exclusions : List RunId → Except PyExc (List (RunId × String))
  | [] => .ok []
  | id :: ids => do
    let (valid, reason) ← resultIsValidForComparison pf (resultOf id)
    let rest ← exclusions ids
    return if !valid && (resultOf id).isSome then (id, reason) :: rest else rest

def isExcluded (excluded : List (RunId × String)) (id : RunId) : Bool :=
  excluded.any fun e => e.1 = id

/-- The deltas of one run against the baseline; wall time is no metric. -/
def runDeltas (baseline metrics : List (PyKey × ℚ)) (id : RunId) : List (PyKey × RunId × ℚ) :=
  baseline.filterMap fun (key, q) =>
    if key = .str "wall_seconds" then none
    else (metrics.find? fun m => key.eq m.1).map fun m => (key, id, m.2 - q)

def metricDeltasOf (excluded : List (RunId × String)) (baselineId : RunId)
    (baseline : List (PyKey × ℚ)) : List RunId → Except PyExc (List (PyKey × RunId × ℚ))
  | [] => .ok []
  | id :: ids =>
    if isExcluded excluded id || isExcluded excluded baselineId then
      metricDeltasOf excluded baselineId baseline ids
    else do
      let metrics ← numericMetrics (resultOf id)
      return runDeltas baseline metrics id ++
        (← metricDeltasOf excluded baselineId baseline ids)

def wallSecondsByRun : List RunId → Except PyExc (List (RunId × Option PyFloat))
  | [] => .ok []
  | id :: ids => do
    let wall ← wallSecondsOf (resultOf id)
    return (id, wall) :: (← wallSecondsByRun ids)

def compareTask (thresholds : List (String × PyFloat)) (baselineId : RunId) (later : List RunId)
    (taskAt : RunId → Option TaskRecord) (key : String) : Except PyExc TaskComparison := do
  let resultOf := fun id => (taskAt id).bind (·.result)
  let excluded ← exclusions pf resultOf (baselineId :: later)
  let baseline ←
    if isExcluded excluded baselineId then pure [] else numericMetrics (resultOf baselineId)
  let deltas ← metricDeltasOf resultOf excluded baselineId baseline later
  let regressions := deltas.filter fun (k, _, delta) => isMetricRegression k delta thresholds
  let walls ← wallSecondsByRun resultOf (baselineId :: later)
  let baselineStatus := statusText (taskAt baselineId)
  let laterStatuses := later.map fun id => statusText (taskAt id)
  return {
    taskKey := key
    statusByRun := (baselineId :: later).map fun id => (id, statusText (taskAt id))
    resultByRun := (baselineId :: later).map fun id => (id, resultOf id)
    metricDeltas := deltas
    wallSecondsByRun := walls
    isRegression := statusRegressed baselineStatus laterStatuses || !regressions.isEmpty
    isImprovement := statusImproved baselineStatus laterStatuses
    metricRegressions := regressions
    excludedFromMetrics := excluded }

def compareTasks (thresholds : List (String × PyFloat)) (baselineId : RunId) (later : List RunId)
    (taskAt : String → RunId → Option TaskRecord) :
    List String → Except PyExc (List TaskComparison)
  | [] => .ok []
  | key :: keys => do
    let comparison ← compareTask pf thresholds baselineId later (taskAt key) key
    return comparison :: (← compareTasks thresholds baselineId later taskAt keys)

end Task

/-! ## `compare_runs` -/

/-- In the three lists of task keys, `metricRegressions` has those that `regressions` has
not. -/
structure ComparisonReport where
  runIds : List RunId
  snapshots : List (RunId × RunSnapshot)
  taskComparisons : List TaskComparison
  regressions : List String
  improvements : List String
  metricRegressions : List String
  comparabilityIssues : List ComparabilityIssue
  excludedTasks : List (RunId × List String)

/-- The runs of the ids, in their order. -/
def loadRuns (pf : Platform) : List RunId → Prog (List (RunId × RunRecord))
  | [] => pure []
  | id :: ids => do
    match ← call (.getRun id) with
    | none =>
      let name := pf.repr (.str id)
      throw (.keyError s!"unknown run_id: {name}")
    | some run => do
      let rest ← loadRuns pf ids
      pure ((id, run) :: rest)

/-- What a dictionary filled from the pairs has under `id`: the last one. -/
def latest {α : Type} (pairs : List (RunId × α)) (id : RunId) : Option α :=
  (pairs.reverse.find? fun p => p.1 = id).map (·.2)

/-- The tasks and the snapshot of each run. -/
def loadTasks : List (RunId × RunRecord) → Prog (List (RunId × List TaskRecord × RunSnapshot))
  | [] => pure []
  | (id, run) :: runs => do
    let tasks ← call (.listTasks id)
    let snap ← Program.ofExcept (snapshot run tasks)
    let rest ← loadTasks runs
    pure ((id, tasks, snap) :: rest)

/-- `{t.task_key: t for t in tasks}[key]`. -/
def taskUnder (tasks : List TaskRecord) (key : String) : Option TaskRecord :=
  tasks.reverse.find? fun t => t.taskKey = key

/-- The comparison of tasks that are loaded. -/
def report (pf : Platform) (thresholds : List (String × PyFloat)) (baselineId : RunId)
    (later : List RunId) (loaded : List (RunId × List TaskRecord × RunSnapshot))
    (issues : List ComparabilityIssue) : Except PyExc ComparisonReport := do
  let runIds := baselineId :: later
  let tasksOf := fun id => ((latest loaded id).map (·.1)).getD []
  let keys := (((runIds.flatMap tasksOf).map (·.taskKey)).dedup).insertionSort (· ≤ ·)
  let comparisons ← compareTasks pf thresholds baselineId later
    (fun key id => taskUnder (tasksOf id) key) keys
  let regressed := fun key => statusRegressed (statusText (taskUnder (tasksOf baselineId) key))
    (later.map fun id => statusText (taskUnder (tasksOf id) key))
  return {
    runIds
    snapshots := loaded.map fun l => (l.1, l.2.2)
    taskComparisons := comparisons
    regressions := keys.filter regressed
    improvements := (comparisons.filter (·.isImprovement)).map (·.taskKey)
    metricRegressions := (comparisons.filter fun c =>
      !c.metricRegressions.isEmpty && !regressed c.taskKey).map (·.taskKey)
    comparabilityIssues := issues
    excludedTasks := (runIds.eraseDups.map fun id => (id, comparisons.flatMap fun c =>
      if isExcluded c.excludedFromMetrics id then List.replicate (runIds.count id) c.taskKey
      else [])).filter fun e => !e.2.isEmpty }

def issuesOf (pf : Platform) (runs : List (RunId × RunRecord)) (baseline : RunRecord)
    (later : List RunId) : List ComparabilityIssue :=
  later.flatMap fun id => ((latest runs id).map (checkComparability pf baseline)).getD []

def compareRuns (pf : Platform) (runIds : List RunId)
    (thresholds : Option (List (String × PyFloat))) (strict : Bool) :
    Prog ComparisonReport := do
  match runIds with
  | baselineId :: later@(_ :: _) =>
    let runs ← loadRuns pf (baselineId :: later)
    match latest runs baselineId with
    | none => throw (.keyError baselineId)
    | some baseline =>
      let issues := issuesOf pf runs baseline later
      if strict && issues.any (·.severity = .error) then throw (comparabilityError issues)
      else do
        let loaded ← loadTasks ((baselineId :: later).filterMap fun id =>
          (latest runs id).map fun run => (id, run))
        Program.ofExcept
          (report pf (thresholds.getD defaultThresholds) baselineId later loaded issues)
  | _ => throw (.valueError "compare_runs requires at least two run_ids")

end Comparator
end FineTuneHarness
