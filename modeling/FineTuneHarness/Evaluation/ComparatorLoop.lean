import FineTuneHarness.Evaluation.Summary

/-!
# The loop of `compare_runs`, list by list

`compare_runs` fills its dictionaries and lists of task keys on the way: the deltas and the
regressions of one task side by side, the three lists of keys as the tasks come by. `report`
states them as filters of the finished comparisons. Here they are accumulated as in the code, and
the two are the same.
-/
namespace FineTuneHarness

namespace Comparator

/-! ## The metrics of one task -/

/-- `metric_deltas` and `task_metric_regressions`. -/
structure MetricTables where
  deltas : List (PyKey × RunId × ℚ)
  regressions : List (PyKey × RunId × ℚ)

/-- One metric of one run: its delta is noted, and noted again if it is a regression. -/
def MetricTables.note (thresholds : List (String × PyFloat)) (tables : MetricTables)
    (e : PyKey × RunId × ℚ) : MetricTables where
  deltas := tables.deltas ++ [e]
  regressions :=
    if isMetricRegression e.1 e.2.2 thresholds then tables.regressions ++ [e]
    else tables.regressions

section Task

variable (pf : Platform) (resultOf : RunId → Option Dict) (thresholds : List (String × PyFloat))

/-- `for run_id in run_ids[1:]`, with the metrics of each run. -/
def metricLoop (excluded : List (RunId × String)) (baselineId : RunId)
    (baseline : List (PyKey × ℚ)) : List RunId → MetricTables → Except PyExc MetricTables
  | [], tables => .ok tables
  | id :: ids, tables =>
    if isExcluded excluded id || isExcluded excluded baselineId then
      metricLoop excluded baselineId baseline ids tables
    else do
      let metrics ← numericMetrics (resultOf id)
      metricLoop excluded baselineId baseline ids
        ((runDeltas baseline metrics id).foldl (MetricTables.note thresholds) tables)

/-- The body of the loop over the keys, up to the comparison of the task. -/
def visitTask (baselineId : RunId) (later : List RunId) (taskAt : RunId → Option TaskRecord)
    (key : String) : Except PyExc TaskComparison := do
  let resultOf := fun id => (taskAt id).bind (·.result)
  let excluded ← exclusions pf resultOf (baselineId :: later)
  let baseline ←
    if isExcluded excluded baselineId then pure [] else numericMetrics (resultOf baselineId)
  let tables ← metricLoop resultOf thresholds excluded baselineId baseline later ⟨[], []⟩
  let walls ← wallSecondsByRun resultOf (baselineId :: later)
  let baselineStatus := statusText (taskAt baselineId)
  let laterStatuses := later.map fun id => statusText (taskAt id)
  return {
    taskKey := key
    statusByRun := (baselineId :: later).map fun id => (id, statusText (taskAt id))
    resultByRun := (baselineId :: later).map fun id => (id, resultOf id)
    metricDeltas := tables.deltas
    wallSecondsByRun := walls
    isRegression := statusRegressed baselineStatus laterStatuses || !tables.regressions.isEmpty
    isImprovement := statusImproved baselineStatus laterStatuses
    metricRegressions := tables.regressions
    excludedFromMetrics := excluded }

/-! ## The tasks -/

/-- What the loop over the keys has put together so far. -/
structure ReportLists where
  taskComparisons : List TaskComparison := []
  regressions : List String := []
  improvements : List String := []
  metricRegressions : List String := []

/-- The end of the loop body. A task that is listed as a regression is not listed for its metrics
again. -/
def ReportLists.add (lists : ReportLists) (regressed : Bool) (tc : TaskComparison) :
    ReportLists :=
  let regressions :=
    if regressed then lists.regressions ++ [tc.taskKey] else lists.regressions
  { taskComparisons := lists.taskComparisons ++ [tc]
    regressions
    improvements :=
      if tc.isImprovement then lists.improvements ++ [tc.taskKey] else lists.improvements
    metricRegressions :=
      if !tc.metricRegressions.isEmpty && !decide (tc.taskKey ∈ regressions) then
        lists.metricRegressions ++ [tc.taskKey]
      else lists.metricRegressions }

/-- `for task_key in sorted(all_keys)`. -/
def compareLoop (baselineId : RunId) (later : List RunId)
    (taskAt : String → RunId → Option TaskRecord) :
    List String → ReportLists → Except PyExc ReportLists
  | [], lists => .ok lists
  | key :: keys, lists => do
    let tc ← visitTask pf thresholds baselineId later (taskAt key) key
    let regressed := statusRegressed (statusText (taskAt key baselineId))
      (later.map fun id => statusText (taskAt key id))
    compareLoop baselineId later taskAt keys (lists.add regressed tc)

end Task

/-! ## What the loops leave -/

section Loops

variable {pf : Platform} {resultOf : RunId → Option Dict} {thresholds : List (String × PyFloat)}
  {baselineId : RunId} {later : List RunId}

theorem foldl_note (es : List (PyKey × RunId × ℚ)) (tables : MetricTables) :
    es.foldl (MetricTables.note thresholds) tables =
      ⟨tables.deltas ++ es,
        tables.regressions ++ es.filter fun e => isMetricRegression e.1 e.2.2 thresholds⟩ := by
  induction es generalizing tables with
  | nil => simp
  | cons e es ih =>
    rw [List.foldl_cons, ih, MetricTables.note, List.filter_cons]
    cases isMetricRegression e.1 e.2.2 thresholds <;> simp

/-- The regressions are those of the deltas that cross a threshold. -/
theorem metricLoop_eq {excluded : List (RunId × String)} {baseline : List (PyKey × ℚ)}
    (ids : List RunId) (tables : MetricTables) :
    metricLoop resultOf thresholds excluded baselineId baseline ids tables =
      (fun es => ⟨tables.deltas ++ es,
        tables.regressions ++ es.filter fun e => isMetricRegression e.1 e.2.2 thresholds⟩) <$>
        metricDeltasOf resultOf excluded baselineId baseline ids := by
  induction ids generalizing tables with
  | nil =>
    show Except.ok tables = .ok ⟨tables.deltas ++ [], tables.regressions ++ []⟩
    rw [List.append_nil, List.append_nil]
  | cons id ids ih =>
    rw [metricLoop, metricDeltasOf]
    split
    · exact ih tables
    · simp only [ih, foldl_note, map_bind, map_pure, List.append_assoc, List.filter_append]
      rfl

theorem visitTask_eq (taskAt : RunId → Option TaskRecord) (key : String) :
    visitTask pf thresholds baselineId later taskAt key =
      compareTask pf thresholds baselineId later taskAt key := by
  unfold visitTask compareTask
  simp only [metricLoop_eq, List.nil_append, bind_map_left]

theorem taskKey_of_compareTask {taskAt : RunId → Option TaskRecord} {key : String}
    {tc : TaskComparison}
    (h : compareTask pf thresholds baselineId later taskAt key = .ok tc) : tc.taskKey = key := by
  obtain ⟨excluded, hex, -⟩ := Except.bind_ok h
  rw [compareTask_eq (judged_of_exclusions hex)] at h
  exact congrArg TaskComparison.taskKey (Except.ok.inj h).symm

theorem ReportLists.mem_add {lists : ReportLists} {regressed : Bool} {tc : TaskComparison}
    {key : String} : key ∈ (lists.add regressed tc).regressions ↔
      key ∈ lists.regressions ∨ regressed = true ∧ key = tc.taskKey := by
  cases regressed <;> simp [ReportLists.add]

/-- **The lists of the report** hold the keys in the order of the loop, each by the flags of its
task. -/
theorem compareLoop_eq {taskAt : String → RunId → Option TaskRecord} {keys : List String}
    {regressed : String → Bool} {lists : ReportLists}
    (hregressed : ∀ key, regressed key = statusRegressed (statusText (taskAt key baselineId))
      (later.map fun id => statusText (taskAt key id)))
    (hnodup : keys.Nodup) (hnew : ∀ key ∈ keys, key ∉ lists.regressions) :
    compareLoop pf thresholds baselineId later taskAt keys lists =
      (fun cs =>
        { taskComparisons := lists.taskComparisons ++ cs
          regressions := lists.regressions ++ keys.filter regressed
          improvements := lists.improvements ++ (cs.filter (·.isImprovement)).map (·.taskKey)
          metricRegressions := lists.metricRegressions ++ (cs.filter fun c =>
            !c.metricRegressions.isEmpty && !regressed c.taskKey).map (·.taskKey) }) <$>
        compareTasks pf thresholds baselineId later taskAt keys := by
  induction keys generalizing lists with
  | nil =>
    obtain ⟨comparisons, regressions, improvements, metricRegressions⟩ := lists
    simp [compareLoop, compareTasks, Functor.map, Except.map]
  | cons key keys ih =>
    obtain ⟨hkey, hnodup⟩ := List.nodup_cons.mp hnodup
    rw [compareLoop, compareTasks, visitTask_eq, ← hregressed]
    cases htc : compareTask pf thresholds baselineId later (taskAt key) key with
    | error e => rfl
    | ok tc =>
      have hname : tc.taskKey = key := taskKey_of_compareTask htc
      have hfresh : tc.taskKey ∉ lists.regressions := hname ▸ hnew key List.mem_cons_self
      have hnew' : ∀ key' ∈ keys, key' ∉ (lists.add (regressed key) tc).regressions := by
        intro key' hkey' hlisted
        rcases ReportLists.mem_add.mp hlisted with hold | ⟨-, heq⟩
        · exact hnew key' (List.mem_cons_of_mem _ hkey') hold
        · exact hkey (hname ▸ heq ▸ hkey')
      show compareLoop _ _ _ _ _ keys (lists.add (regressed key) tc) = _
      rw [ih hnodup hnew']
      show _ = _ <$> (compareTasks pf thresholds baselineId later taskAt keys >>= _)
      rw [map_bind, map_eq_pure_bind]
      congr 1
      funext cs
      have hlisted : decide (key ∈ if regressed key = true then lists.regressions ++ [key]
          else lists.regressions) = regressed key := by
        rw [hname] at hfresh
        cases regressed key <;> simp [hfresh]
      simp only [map_pure, ReportLists.add, List.filter_cons, hname, hlisted]
      cases regressed key <;> cases tc.isImprovement <;> cases tc.metricRegressions.isEmpty <;>
        simp [hname]

/-- The tasks that `loadTasks` has under the id. -/
def loadedTasks (loaded : List (RunId × List TaskRecord × RunSnapshot)) (id : RunId) :
    List TaskRecord :=
  ((latest loaded id).map (·.1)).getD []

/-- **The report is what the loops leave.** -/
theorem report_eq_loop {loaded : List (RunId × List TaskRecord × RunSnapshot)}
    {issues : List ComparabilityIssue} :
    report pf thresholds baselineId later loaded issues = do
      let runIds := baselineId :: later
      let keys := (((runIds.flatMap (loadedTasks loaded)).map (·.taskKey)).dedup).insertionSort
        (· ≤ ·)
      let lists ← compareLoop pf thresholds baselineId later
        (fun key id => taskUnder (loadedTasks loaded id) key) keys {}
      return {
        runIds
        snapshots := loaded.map fun l => (l.1, l.2.2)
        taskComparisons := lists.taskComparisons
        regressions := lists.regressions
        improvements := lists.improvements
        metricRegressions := lists.metricRegressions
        comparabilityIssues := issues
        excludedTasks := (runIds.eraseDups.map fun id =>
          (id, lists.taskComparisons.flatMap fun c =>
            if isExcluded c.excludedFromMetrics id then
              List.replicate (runIds.count id) c.taskKey
            else [])).filter fun e => !e.2.isEmpty } := by
  have hnodup : (((((baselineId :: later).flatMap (loadedTasks loaded)).map
      (·.taskKey)).dedup).insertionSort (· ≤ ·)).Nodup :=
    (List.perm_insertionSort _ _).nodup_iff.mpr (List.nodup_dedup _)
  have hloop := @compareLoop_eq pf thresholds baselineId later
    (fun key id => taskUnder (loadedTasks loaded id) key) _
    (fun key => statusRegressed (statusText (taskUnder (loadedTasks loaded baselineId) key))
      (later.map fun id => statusText (taskUnder (loadedTasks loaded id) key))) {}
    (fun _ => rfl) hnodup fun _ _ => List.not_mem_nil
  dsimp only
  rw [hloop]
  simp only [bind_map_left, List.nil_append]
  rfl

end Loops

end Comparator
end FineTuneHarness
