import FineTuneHarness.Evaluation.Summary
import FineTuneHarness.Evaluation.Revalidation
import FineTuneHarness.Executor.Persisted
import FineTuneHarness.Safety.TerminalTasks

/-!
# The comparator's second look

The worker validates a result under the method of the payload and stamps it; the comparator
validates the stamped result under the method the result gives itself. What the first look
takes from the payload, or sees where the stamps go, the second look misses.
-/
namespace FineTuneHarness

open Library Comparator

/-- The result with the wall time of the call, where the handler has given none. -/
def LocalWorker.timed (wall : PyFloat) (d : Dict) : Dict :=
  if d.contains "wall_seconds" then d else d.set "wall_seconds" (.float wall)

/-! ## What is stored of a dictionary -/

theorem judged_dict {pf : Platform} {payload d r : Dict} {wall : PyFloat} {o : ValidationOutcome}
    (h : LocalWorker.judge pf payload wall (.dict d) = .ok (r, o)) :
    Validator.validateDict pf (LocalWorker.timed wall d) (payload.get "method") = .ok o ∧
      r = Validator.stamped (LocalWorker.timed wall d) o := by
  obtain ⟨o', ho, h⟩ := Except.bind_ok
    (show ((validateResult pf (.dict (LocalWorker.timed wall d)) (payload.get "method")) >>=
      fun outcome => _) = .ok (r, o) from h)
  unfold Validator.stamped
  split at h
  next hr =>
    obtain ⟨rfl, rfl⟩ := Prod.mk.inj (Except.ok.inj h)
    exact ⟨ho, (if_pos hr).symm⟩
  next hr =>
    obtain ⟨rfl, rfl⟩ := Prod.mk.inj (Except.ok.inj h)
    exact ⟨ho, (if_neg hr).symm⟩

/-- A dictionary that can be written and has one string key has string keys only. -/
theorem stringKeys_of_throughJson {d d' : Dict} (h : d.throughJson = .ok d')
    (hk : ∃ kv ∈ d, kv.1.isStr = true) : d.stringKeys = true := by
  obtain ⟨kv, hm, hs⟩ := hk
  have hsort := (Dict.throughJson_isOk.mp (by rw [h]; rfl)).1
  have hm' : kv.1 ∈ d.map (·.1) := List.mem_map_of_mem hm
  unfold PyKey.sortable at hsort
  simp only [Bool.or_eq_true, decide_eq_true_eq] at hsort
  rcases hsort with (hall | hnum) | hone
  · exact hall
  · have := List.all_eq_true.mp hnum kv.1 hm'
    cases hkey : kv.1 with
    | str s => rw [hkey] at this; cases this
    | _ => rw [hkey] at hs; cases hs
  · refine List.all_eq_true.mpr fun k hk => ?_
    obtain ⟨k', hk'⟩ := List.length_eq_one_iff.mp
      (Nat.le_antisymm hone (List.length_pos_of_mem hm'))
    rw [hk', List.mem_singleton] at hk hm'
    rw [hk, ← hm']
    exact hs

theorem stamped_hasStr (d : Dict) (o : ValidationOutcome) :
    ∃ kv ∈ Validator.stamped d o, kv.1.isStr = true := by
  have hset : ∀ (x : Dict) (k : String) (v : PyVal), ∃ kv ∈ x.set k v, kv.1.isStr = true := by
    intro x k v
    by_contra hnone
    have hall : ∀ kv ∈ x.set k v, ¬ kv.1.isStr = true := fun kv hkv h => hnone ⟨kv, hkv, h⟩
    exact (Dict.forall_set.mp hall).2 rfl
  unfold Validator.stamped
  dsimp only
  split <;> exact hset _ _ _

/-- What the store keeps of a stamped result looks like it. -/
theorem kept_seenAlike {s : StateStore} {d : Dict} {o : ValidationOutcome} {res : Option Dict}
    (h : s.keep (some (Validator.stamped d o)) = .ok res) :
    ∃ kept, res = some kept ∧ Validator.SeenAlike (Validator.stamped d o) kept ∧
      ∀ pf, Validator.metricErrors pf kept = .ok [] ↔
        Validator.metricErrors pf (Validator.stamped d o) = .ok [] := by
  unfold StateStore.keep at h
  split at h
  · obtain rfl := Except.ok.inj h
    exact ⟨_, rfl, .of_eq fun _ _ => rfl, fun _ => Iff.rfl⟩
  · obtain ⟨kept, hkept, h⟩ := Except.bind_ok h
    obtain rfl := Except.ok.inj h
    have hkeys := stringKeys_of_throughJson hkept (stamped_hasStr d o)
    exact ⟨kept, rfl, Validator.seenAlike_throughJson hkeys hkept,
      fun pf => Validator.metricErrors_throughJson hkeys hkept⟩

/-! ## Agreement -/

/-- The task is left out of the metrics of the report: it is listed as excluded, no delta is of
its run, and as the baseline it leaves no deltas at all. -/
def LeftOut (rep : ComparisonReport) (t : TaskRecord) : Prop :=
  ∀ c ∈ rep.taskComparisons, c.taskKey = t.taskKey →
    isExcluded c.excludedFromMetrics t.runId = true ∧
    (∀ e ∈ c.metricDeltas ++ c.metricRegressions, e.2.1 ≠ t.runId) ∧
    (rep.runIds.head? = some t.runId → c.metricDeltas = [] ∧ c.metricRegressions = [])

def TakenIn (rep : ComparisonReport) (t : TaskRecord) : Prop :=
  ∀ c ∈ rep.taskComparisons, c.taskKey = t.taskKey →
    isExcluded c.excludedFromMetrics t.runId = false

/-- The report has the task, and follows the worker's verdict on it. -/
structure FollowsVerdict (rep : ComparisonReport) (t : TaskRecord) : Prop where
  listed : ∃ c ∈ rep.taskComparisons, c.taskKey = t.taskKey
  degenerate : t.status = .degenerate → LeftOut rep t
  succeeded : t.status = .succeeded → TakenIn rep t

theorem resultIsValid_some {pf : Platform} {kept : Dict} {verdict : Bool × String}
    (h : resultIsValidForComparison pf (some kept) = .ok verdict) :
    ∃ o, Validator.validateDict pf kept .none = .ok o ∧ verdict.1 = !o.status.rejected := by
  obtain ⟨o, ho, h⟩ := Except.bind_ok h
  refine ⟨o, ho, ?_⟩
  split at h
  next hr => rw [← Except.ok.inj h, hr]; rfl
  next hr => rw [← Except.ok.inj h, Bool.eq_false_iff.mpr hr]; rfl

section

variable {pf : Platform} {thresholds : List (String × PyFloat)} {strict : Bool} {s : StateStore}
  {baselineId : RunId} {later : List RunId} {rep : ComparisonReport} {t : TaskRecord}
  {c : TaskComparison}

/-- A report has each task of its runs. -/
theorem listed_of_reported (h : Reported pf thresholds strict s baselineId later rep)
    (hrun : t.runId ∈ baselineId :: later) (hin : t ∈ s.tasksOf t.runId) :
    ∃ c ∈ rep.taskComparisons, c.taskKey = t.taskKey := by
  have hkey : t.taskKey ∈ keysOf s (baselineId :: later) := mem_keysOf.mpr ⟨_, hrun, t, hin, rfl⟩
  rw [h.eq]
  exact ⟨_, List.mem_map_of_mem hkey, rfl⟩

/-- In a report, the comparisons of a task exclude its run or not by one verdict: that on the
result in the store. -/
theorem excluded_iff_rejected (h : Reported pf thresholds strict s baselineId later rep)
    {kept : Dict} (hrun : t.runId ∈ baselineId :: later)
    (hunder : taskUnder (s.tasksOf t.runId) t.taskKey = some t)
    (hres : t.result = some kept) (hc : c ∈ rep.taskComparisons) (hkey : c.taskKey = t.taskKey) :
    ∃ o, Validator.validateDict pf kept .none = .ok o ∧
      isExcluded c.excludedFromMetrics t.runId = o.status.rejected := by
  rw [h.eq] at hc
  obtain ⟨key, -, rfl⟩ := List.mem_map.mp hc
  obtain rfl : key = t.taskKey := hkey
  have hresult : resultAt (taskOf s t.taskKey) t.runId = some kept := by
    rw [resultAt, taskOf, hunder]
    exact hres
  obtain ⟨verdict, hv⟩ := (h.readable _ hrun).judged t.taskKey
  rw [hresult] at hv
  obtain ⟨o, ho, hverdict⟩ := resultIsValid_some hv
  refine ⟨o, ho, ?_⟩
  show isExcluded (excludedOf pf _ _) _ = _
  rw [isExcluded_excludedOf hrun, hresult, exclusionReason, hv]
  show (Option.map _ (Option.filter _ (some verdict))).isSome = _
  rw [Option.filter_some, hverdict]
  cases o.status.rejected <;> rfl

/-- A task that is excluded is left out altogether. -/
theorem leftOut_iff (h : Reported pf thresholds strict s baselineId later rep)
    (hrun : t.runId ∈ baselineId :: later) :
    LeftOut rep t ↔ ∀ c ∈ rep.taskComparisons, c.taskKey = t.taskKey →
      isExcluded c.excludedFromMetrics t.runId = true := by
  refine ⟨fun hout c hc hkey => (hout c hc hkey).1, fun hex c hc hkey => ?_⟩
  have hexcluded := hex c hc hkey
  rw [h.eq] at hc ⊢
  obtain ⟨key, -, rfl⟩ := List.mem_map.mp hc
  have hreason : (exclusionReason pf (resultAt (taskOf s key) t.runId)).isSome = true := by
    rw [← isExcluded_excludedOf hrun]
    exact hexcluded
  have hdeltas : ∀ e ∈ (comparisonOf pf thresholds baselineId later (taskOf s key) key).metricDeltas,
      e.2.1 ≠ t.runId := by
    intro e he hid
    obtain ⟨id, -, he⟩ := List.mem_flatMap.mp he
    obtain ⟨hrun', hin, -⟩ := mem_pairDeltas.mp he
    rw [← hrun', hid, hreason] at hin
    cases hin
  refine ⟨hexcluded, fun e he => ?_, fun hhead => ?_⟩
  · rcases List.mem_append.mp he with he | he
    · exact hdeltas e he
    · exact hdeltas e (List.mem_filter.mp he).1
  · have hnone : ∀ e, e ∉
        (comparisonOf pf thresholds baselineId later (taskOf s key) key).metricDeltas := by
      intro e he
      obtain ⟨id, -, he⟩ := List.mem_flatMap.mp he
      obtain ⟨-, -, hin, -⟩ := mem_pairDeltas.mp he
      rw [show baselineId = t.runId from Option.some.inj hhead, hreason] at hin
      cases hin
    exact ⟨List.eq_nil_iff_forall_not_mem.mpr hnone,
      List.eq_nil_iff_forall_not_mem.mpr fun e he => hnone e (List.mem_filter.mp he).1⟩

/-- **One report.** It follows the worker's verdict on a task exactly where the second look at
the kept result gives the verdict again. -/
theorem followsVerdict_iff (h : Reported pf thresholds strict s baselineId later rep)
    {x : Returned} {d : Dict} {st : StateStore} (hrun : t.runId ∈ baselineId :: later)
    (hunder : taskUnder (s.tasksOf t.runId) t.taskKey = some t)
    (hin : t ∈ s.tasksOf t.runId) (hfrom : PersistedFrom pf st x t) (hd : x.value = .dict d) :
    FollowsVerdict rep t ↔
      Validator.SameVerdict pf (x.payload.get "method") (LocalWorker.timed x.wall d) := by
  obtain ⟨res, ⟨r, o, hjudge, rfl, hst⟩, hkeep⟩ := hfrom.judged
  rw [hd] at hjudge
  obtain ⟨hfirst, rfl⟩ := judged_dict hjudge
  obtain ⟨kept, hres, halike, hmetrics⟩ := kept_seenAlike hkeep
  obtain ⟨c, hc, hkey⟩ := listed_of_reported h hrun hin
  obtain ⟨o', hsecond, hex⟩ := excluded_iff_rejected h hrun hunder hres hc hkey
  -- every comparison of the task goes by this one verdict
  have hall : ∀ c' ∈ rep.taskComparisons, c'.taskKey = t.taskKey →
      isExcluded c'.excludedFromMetrics t.runId = o'.status.rejected := by
    intro c' hc' hkey'
    obtain ⟨o'', ho'', hex'⟩ := excluded_iff_rejected h hrun hunder hres hc' hkey'
    rw [hsecond] at ho''
    rw [hex', Except.ok.inj ho'']
  rw [← Validator.second_verdict_iff hfirst halike (hmetrics pf) hsecond]
  constructor
  · intro hf
    cases hr : o.status.rejected with
    | true =>
      rw [hr] at hst
      rw [← hex]
      exact (hf.degenerate hst c hc hkey).1
    | false =>
      rw [hr] at hst
      rw [← hex]
      exact hf.succeeded hst c hc hkey
  · intro heq
    refine ⟨⟨c, hc, hkey⟩, fun hdeg => (leftOut_iff h hrun).mpr fun c' hc' hkey' => ?_,
      fun hsucc c' hc' hkey' => ?_⟩
    · rw [hall c' hc' hkey', heq]
      by_contra hrej
      rw [if_neg hrej, hdeg] at hst
      cases hst
    · rw [hall c' hc' hkey', heq]
      by_contra hrej
      rw [if_pos (by simpa using hrej), hsucc] at hst
      cases hst

end

/-! ## From the worker's write to the report -/

/-- Later calls leave a terminal row, its run and its key as they were. -/
theorem row_later {s s' : StateStore} {id : TaskId} {t : TaskRecord} (ht : s.task? id = some t)
    (hterm : t.status.terminal = true) (h : callers.Reaches s s') :
    ∃ t', s'.task? id = some t' ∧ t.SameEnding t' ∧ t'.runId = t.runId ∧ t'.taskKey = t.taskKey := by
  refine h.invariant (I := fun s => ∃ t', s.task? id = some t' ∧ t.SameEnding t' ∧
    t'.runId = t.runId ∧ t'.taskKey = t.taskKey) ⟨t, ht, .refl t, rfl, rfl⟩
    fun s₁ c s₂ hkept _ hs => ?_
  obtain ⟨t₁, ht₁, h₁, hr₁, hk₁⟩ := hkept
  obtain rfl := Option.some.inj hs
  obtain ⟨t₂, ht₂, h₂⟩ := s₁.exec_sameEnding c.1 c.2 ht₁ (by rw [h₁.status]; exact hterm)
  refine ⟨t₂, ht₂, h₁.trans h₂, ?_⟩
  by_cases hop : StateStore.keepsTasks c.1
  · obtain ⟨t₃, ht₃, hlater⟩ := (s₁.exec_evolves c.2 hop).forward ht₁
    obtain rfl := Option.some.inj (ht₃.symm.trans ht₂)
    exact ⟨hlater.runId.trans hr₁, hlater.taskKey.trans hk₁⟩
  · obtain ⟨op, clk⟩ := c
    cases op with
    | createTask new =>
      obtain rfl := Option.some.inj ((StateStore.createTask_keeps clk new ht₁).symm.trans ht₂)
      exact ⟨hr₁, hk₁⟩
    | _ => exact absurd trivial hop

theorem taskUnder_unique {ts : List TaskRecord} {t : TaskRecord} (ht : t ∈ ts)
    (hone : ∀ u ∈ ts, u.taskKey = t.taskKey → u = t) : taskUnder ts t.taskKey = some t := by
  unfold taskUnder
  cases hf : ts.reverse.find? fun u => decide (u.taskKey = t.taskKey) with
  | none =>
    have := List.find?_eq_none.mp hf t (List.mem_reverse.mpr ht)
    simp at this
  | some u =>
    have hu : u.taskKey = t.taskKey := by simpa using List.find?_some hf
    rw [hone u (List.mem_reverse.mp (List.mem_of_find?_eq_some hf)) hu]

/-- **Verdict and comparison agree exactly where the payload's method makes no difference.** A
task that a worker without hooks has persisted goes back to a handler call; if that returned a
dictionary, every later report on the run follows the worker's verdict if and only if
`SameVerdict` holds of what the handler was given and returned. -/
theorem comparison_follows_verdict_iff {pf : Platform} {s : StateStore} {p : FleetState}
    {id : TaskId} {t : TaskRecord}
    (hrun : (fleet pf).machine.Steps withoutHooks.Meets (fleetOn s) p)
    (fresh : ∀ t₀, s.task? id = some t₀ → t₀.status.judged = false)
    (ht : p.shared.store.task? id = some t) (hj : t.status = .succeeded ∨ t.status = .degenerate) :
    ∃ x, OnLog p.shared.log x ∧ PersistedFrom pf p.shared.store x t ∧
      ∀ d, x.value = .dict d → ∀ s', callers.Reaches p.shared.store s' →
      (∀ u ∈ s'.tasksOf t.runId, u.taskKey = t.taskKey → u.taskId = id) →
      ∀ ids thresholds strict env n rep σ, t.runId ∈ ids →
      (compareRuns pf ids thresholds strict).run (Session.exec env) ⟨⟨s', []⟩, n⟩ = (.ok rep, σ) →
      (FollowsVerdict rep t ↔
        Validator.SameVerdict pf (x.payload.get "method") (LocalWorker.timed x.wall d)) := by
  have hjudged : t.status.judged = true := by rcases hj with h | h <;> rw [h] <;> rfl
  have hterm : t.status.terminal = true := by rcases hj with h | h <;> rw [h] <;> rfl
  obtain ⟨x, hlog, hfrom⟩ := persisted_from_handler hrun fresh ht hjudged
  refine ⟨x, hlog, hfrom, fun d hd s' hlater hkeys ids thresholds strict env n rep σ hids hrep => ?_⟩
  obtain ⟨t', ht', hend, hr', hk'⟩ := row_later ht hterm hlater
  have hid' := s'.task?_taskId ht'
  have hin : t' ∈ s'.tasksOf t'.runId := s'.mem_tasksOf.mpr ⟨by rw [hid']; exact ht', rfl⟩
  have hunder : taskUnder (s'.tasksOf t'.runId) t'.taskKey = some t' := by
    refine taskUnder_unique hin fun u hu hku => ?_
    have huid := hkeys u (by rw [← hr']; exact hu) (hku.trans hk')
    have hu' := (s'.mem_tasksOf.mp hu).1
    rw [huid, ht'] at hu'
    exact (Option.some.inj hu').symm
  have hfrom' : PersistedFrom pf p.shared.store x t' := by
    obtain ⟨res, hx, hkeep⟩ := hfrom.judged
    refine ⟨?_, res, by rw [hend.status]; exact hx, by rw [hend.result]; exact hkeep⟩
    rw [hfrom.task, p.shared.store.task?_taskId ht, hid']
  obtain ⟨baselineId, later, rfl, hreported⟩ := reported_of_run hrep
  have hfollows := followsVerdict_iff hreported (by rw [hr']; exact hids) hunder hin hfrom' hd
  rw [← hfollows]
  -- the two rows are told apart by nothing a report looks at
  have hsame : ∀ {a b : TaskRecord}, a.status = b.status → a.runId = b.runId →
      a.taskKey = b.taskKey → FollowsVerdict rep a → FollowsVerdict rep b := by
    intro a b h1 h2 h3 hf
    have hlisted := hf.listed
    have hdeg := hf.degenerate
    have hsucc := hf.succeeded
    unfold LeftOut TakenIn at *
    rw [h1, h2, h3] at hdeg
    rw [h1, h2, h3] at hsucc
    rw [h3] at hlisted
    exact ⟨hlisted, hdeg, hsucc⟩
  exact ⟨hsame hend.status.symm hr'.symm hk'.symm, hsame hend.status hr' hk'⟩

/-! ## An adapter without parameters -/

/-- The method is given in the payload alone. -/
def loraTask : TaskRecord := pendingTask "t" (Dict.ofList [("method", .str "lora")])

/-- A LoRA run that trained nothing and says nothing of its method. -/
def nothingTrained : PyVal :=
  .dict (Dict.ofList [("trainable_params", .int 0), ("accuracy", .float (.finite (1 / 2)))])

/-- One attempt at the task, to its end. -/
def loraAttempt : List (Act WorkerId Answers Job (Maintenance × Clock)) :=
  .start "A" { worker := { workerId := "A" }, runId := "r" } ::
    turns "A" (Answers.steady 0 (.ok nothingTrained)) 20

/-- The run compared with itself. -/
def selfComparison (s : StateStore) : Except PyExc ComparisonReport × Session :=
  (compareRuns .bare ["r", "r"] none false).run
    (Session.exec fun _ => Answers.steady 0 (.ok nothingTrained)) ⟨⟨s, []⟩, 0⟩

/-- The report takes in the one task of the run, which is persisted as degenerate. -/
def takesInDegenerate (s : StateStore) : Bool :=
  (s.tasksOf "r").all (·.taskId = "t") &&
  (s.task? "t").any fun t => t.status = .degenerate && t.runId = "r" &&
    (selfComparison s).1.toOption.any fun rep => rep.taskComparisons.any fun c =>
      c.taskKey = t.taskKey && !isExcluded c.excludedFromMetrics t.runId

theorem loraAttempt_run : ∃ p t rep σ,
    (fleet .bare).machine.Steps withoutHooks.Meets
      (fleetOn (storeWith .sqlite .validated loraTask)) p ∧
    p.shared.store.task? "t" = some t ∧ t.status = .degenerate ∧ t.runId = "r" ∧
    (∀ u ∈ p.shared.store.tasksOf "r", u.taskId = "t") ∧
    selfComparison p.shared.store = (.ok rep, σ) ∧
    ∃ c ∈ rep.taskComparisons, c.taskKey = t.taskKey ∧
      isExcluded c.excludedFromMetrics t.runId = false := by
  have hrun : ((fleet .bare).machine.run (fleetOn (storeWith .sqlite .validated loraTask))
      loraAttempt).any (fun p => takesInDegenerate p.shared.store) = true := by decide +kernel
  obtain ⟨p, hp, htakes⟩ := Option.any_eq_true _ _ |>.mp hrun
  obtain ⟨hone, htakes⟩ := Bool.and_eq_true _ _ |>.mp htakes
  obtain ⟨t, ht, htakes⟩ := Option.any_eq_true _ _ |>.mp htakes
  simp only [Bool.and_eq_true, decide_eq_true_eq] at htakes
  obtain ⟨⟨hst, hr⟩, htakes⟩ := htakes
  generalize hout : selfComparison p.shared.store = out at htakes
  obtain ⟨r, σ⟩ := out
  cases r with
  | error e => cases htakes
  | ok rep =>
    obtain ⟨c, hc, hin⟩ := List.any_eq_true.mp htakes
    simp only [Bool.and_eq_true, decide_eq_true_eq, Bool.not_eq_true'] at hin
    refine ⟨p, t, rep, σ, Machine.steps_of_run hp (Machine.along_of_forall (fun a ha s => ?_) _),
      ht, hst, hr, fun u hu => by simpa using List.all_eq_true.mp hone u hu, hout, c, hc, hin⟩
    rcases List.mem_cons.mp ha with rfl | ha
    · exact rfl
    · obtain rfl := List.eq_of_mem_replicate ha
      simp only [Service.Guard.Meets]
      split <;> trivial

/-- **A degenerate result is compared.** The worker knows the method from the payload and
persists the task as `DEGENERATE`; the report on its run takes it in. -/
theorem degenerate_result_compared : ∃ p t rep σ,
    (fleet .bare).machine.Steps withoutHooks.Meets
      (fleetOn (storeWith .sqlite .validated loraTask)) p ∧
    p.shared.store.task? "t" = some t ∧ t.status = .degenerate ∧
    selfComparison p.shared.store = (.ok rep, σ) ∧ ¬ LeftOut rep t := by
  obtain ⟨p, t, rep, σ, hp, ht, hst, -, -, hrep, c, hc, hkey, hin⟩ := loraAttempt_run
  refine ⟨p, t, rep, σ, hp, ht, hst, hrep, fun hout => ?_⟩
  rw [(hout c hc hkey).1] at hin
  cases hin

/-- The rule at work on this run: the payload's method makes the difference. -/
theorem payload_method_makes_difference : ∃ p x, OnLog (p : FleetState).shared.log x ∧
    ∀ d, x.value = .dict d → ¬ Validator.SameVerdict .bare (x.payload.get "method")
      (LocalWorker.timed x.wall d) := by
  obtain ⟨p, t, rep, σ, hp, ht, hst, hr, hone, hrep, c, hc, hkey, hin⟩ := loraAttempt_run
  have hfresh : ∀ t₀, (storeWith .sqlite .validated loraTask).task? "t" = some t₀ →
      t₀.status.judged = false := by
    intro t₀ h0
    rw [storeWith_task? h0]
    rfl
  obtain ⟨x, hlog, -, hiff⟩ := comparison_follows_verdict_iff hp hfresh ht (.inr hst)
  refine ⟨p, x, hlog, fun d hd hsame => ?_⟩
  have hids : t.runId ∈ ["r", "r"] := by rw [hr]; decide
  have hfollows := (hiff d hd _ .refl (fun u hu _ => hone u (by rw [← hr]; exact hu)) _ _ _ _ _ rep
    σ hids hrep).mpr hsame
  have hexcluded := (hfollows.degenerate hst c hc hkey).1
  rw [hin] at hexcluded
  cases hexcluded

end FineTuneHarness
