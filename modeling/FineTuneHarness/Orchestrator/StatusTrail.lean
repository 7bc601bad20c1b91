import FineTuneHarness.Orchestrator.Refresh

/-!
# The trail a refresh leaves

A refresh stores no status, one, or two: `RunStatus.route` lists them. Each of them leaves one
`run_status_changed` event, so the events spell a walk along the edges of the lifecycle.
-/
namespace FineTuneHarness

open Library (Table)
open Library.Program (wp_bind wp_pure)

/-! ## Walks -/

/-- The `run_status_changed` event of one step. -/
def changeEvent (runId : RunId) (source target : RunStatus) : EventRecord where
  runId := runId
  taskId := none
  kind := "run_status_changed"
  payload := Dict.ofList [("from", .str source.value), ("to", .str target.value)]

/-- The events of a walk from `st`, one for each step. -/
def walkEvents (runId : RunId) : RunStatus → List RunStatus → List EventRecord
  | _, [] => []
  | st, next :: path => changeEvent runId st next :: walkEvents runId next path

/-- Every step of the walk is an edge of the lifecycle. -/
def IsWalk : RunStatus → List RunStatus → Prop
  | _, [] => True
  | st, next :: path => next ∈ allowedRunTransitions st ∧ IsWalk next path

section Walks

variable {runId : RunId} {st target : RunStatus} {p q : List RunStatus}

theorem walkEvents_append :
    walkEvents runId st (p ++ q) = walkEvents runId st p ++ walkEvents runId (p.getLastD st) q := by
  induction p generalizing st with
  | nil => rfl
  | cons next p ih =>
    rw [List.cons_append, walkEvents, walkEvents, ih, List.getLastD_cons]
    rfl

/-- Where a walk of two parts ends. -/
theorem walk_end_append : (p ++ q).getLastD st = q.getLastD (p.getLastD st) := by
  induction p generalizing st with
  | nil => rfl
  | cons next p ih => rw [List.cons_append, List.getLastD_cons, List.getLastD_cons, ih]

theorem IsWalk.append (hp : IsWalk st p) (hq : IsWalk (p.getLastD st) q) : IsWalk st (p ++ q) := by
  induction p generalizing st with
  | nil => exact hq
  | cons next p ih =>
    rw [List.getLastD_cons] at hq
    exact ⟨hp.1, ih hp.2 hq⟩

theorem walkEvents_kind {e : EventRecord} (he : e ∈ walkEvents runId st p) :
    e.runId = runId ∧ e.kind = "run_status_changed" := by
  induction p generalizing st with
  | nil => cases he
  | cons next p ih =>
    rcases List.mem_cons.mp he with rfl | he
    · exact ⟨rfl, rfl⟩
    · exact ih he

/-- The statuses a refresh stores on the way to its target. -/
def RunStatus.route (st target : RunStatus) : List RunStatus :=
  if target = st then []
  else if target ∈ allowedRunTransitions st then [target]
  else [.running, target]

theorem isWalk_route (h : st.canReach target = true) : IsWalk st (st.route target) := by
  simp only [RunStatus.canReach, Bool.or_eq_true, decide_eq_true_eq, Bool.and_eq_true] at h
  unfold RunStatus.route
  split
  · trivial
  split
  · next hedge => exact ⟨hedge, trivial⟩
  · next hne hedge =>
    have hvia := h.resolve_left fun h => h.elim hne hedge
    exact ⟨hvia.1, hvia.2, trivial⟩

theorem route_getLastD : (st.route target).getLastD st = target := by
  unfold RunStatus.route
  split
  · next h => exact h.symm
  split <;> rfl

end Walks

/-! ## The refresh of one party alone -/

/-- The refresh that moves `run` to the target sets the end time. -/
def Stamps (run : RunRecord) (target : RunStatus) : Prop :=
  target ≠ run.status ∧ target.terminal = true ∧ run.finishedAt = none

/-- What a refresh that returns has left of the run and of the event log. -/
structure Refreshed (runId : RunId) (run : RunRecord) (target : RunStatus) (s s' : StateStore) :
    Prop where
  stored : ∃ r, s'.run? runId = some r ∧ r.status = target ∧
    (Stamps run target → r.finishedAt ≠ none) ∧
    (¬ Stamps run target → r.finishedAt = run.finishedAt)
  events : s'.events = s.events ++ walkEvents runId run.status (run.status.route target)

theorem throughJson_change (a b : String) :
    (Dict.ofList [("from", .str a), ("to", .str b)]).throughJson =
      .ok (Dict.ofList [("from", .str a), ("to", .str b)]) := by
  have hle : PyKey.le (.str "from") (.str "to") = true := by decide
  have hs : PyKey.sortable [.str "from", .str "to"] = true := by decide
  simp [Dict.throughJson, Dict.ofList, PyVal.dumps, hs, dumpsItems, PyKey.jsonName, hle,
    Json.loads, loadsItems, bind, Except.bind, pure, Except.pure, Except.map]

section Alone

variable {ok : Admits} {s : StateStore} {c : List TaskId} {E : PyExc → Ledger → Prop}
  {runId : RunId} {run : RunRecord} {source target : RunStatus}

/-- The event of a step is kept as it is. -/
theorem alone_recordChange {Q : Unit → Ledger → Prop} (hr : s.run? runId ≠ none)
    (h : Q () ⟨s.addEvents [changeEvent runId source target], c⟩) :
    (recordStatusChange runId source target).wp (alone ok) Q E ⟨s, c⟩ := by
  show (call (.appendEvent (changeEvent runId source target))).wp (alone ok) Q E ⟨s, c⟩
  refine alone_call fun clk _ => ?_
  have hkeep : s.keepEvent (changeEvent runId source target) =
      .ok (changeEvent runId source target) := by
    unfold StateStore.keepEvent
    cases s.backend with
    | memory => rfl
    | sqlite =>
      have hr' : ¬ s.tables.runs.find? runId = none := hr
      simp only [changeEvent, throughJson_change, if_neg hr', Option.any_none, Bool.false_eq_true,
        if_false]
  rw [s.exec_appendEvent, hkeep]
  exact h

/-- One step along an edge: the status, the end time, the event. -/
theorem alone_step {Q : Unit → Ledger → Prop} {run' : RunRecord} (hr : s.run? runId = some run)
    (hfin : run'.finishedAt = run.finishedAt)
    (h : ∀ s' r, s'.run? runId = some r → r.status = target →
      (target.terminal = true ∧ run.finishedAt = none → r.finishedAt ≠ none) →
      (¬ (target.terminal = true ∧ run.finishedAt = none) → r.finishedAt = run.finishedAt) →
      s'.events = s.events ++ [changeEvent runId source target] → Q () ⟨s', c⟩) :
    (do
      call (.updateRunStatus runId target)
      stampFinished runId run' target
      recordStatusChange runId source target : Prog Unit).wp (alone ok) Q E ⟨s, c⟩ := by
  refine (wp_bind _ _).mpr (alone_updateRunStatus hr ((wp_bind _ _).mpr ?_))
  have hr1 : (s.modifyRun runId (·.setStatus target) (·.setStatus_runId _)).run? runId =
      some (run.setStatus target) := by simp [hr]
  have hstamp : (target.terminal && run'.finishedAt.isNone) = true ↔
      target.terminal = true ∧ run.finishedAt = none := by
    rw [hfin, Bool.and_eq_true, Option.isNone_iff_eq_none]
  unfold stampFinished
  by_cases hst : target.terminal = true ∧ run.finishedAt = none
  · rw [if_pos (hstamp.mpr hst)]
    refine (wp_bind _ _).mpr (alone_ask.mpr fun now _ => alone_updateRunFinishedAt hr1 ?_)
    have hr2 : ((s.modifyRun runId (·.setStatus target) (·.setStatus_runId _)).modifyRun runId
        (·.finish now) (·.finish_runId _)).run? runId =
          some ((run.setStatus target).finish now) := by
      rw [StateStore.modifyRun_run?_self, hr1]
      rfl
    apply alone_recordChange
    · rw [hr2]
      exact Option.some_ne_none _
    · exact h _ _ hr2 rfl (fun _ => Option.some_ne_none _) (fun hn => absurd hst hn) rfl
  · rw [if_neg fun hc => hst (hstamp.mp hc)]
    apply alone_recordChange
    · rw [hr1]
      exact Option.some_ne_none _
    · exact h _ _ hr1 rfl (fun hc => absurd hc hst) (fun _ => rfl) rfl

/-- **A refresh whose target is in reach** stores the route to the target. -/
theorem alone_refresh_trail {Q : RunStatus → Ledger → Prop} (hr : s.run? runId = some run)
    (hreach : run.status.canReach (targetStatus (s.tasksOf runId)) = true)
    (h : ∀ s', Refreshed runId run (targetStatus (s.tasksOf runId)) s s' →
      Q (targetStatus (s.tasksOf runId)) ⟨s', c⟩) :
    (refreshRunStatus runId).wp (alone ok) Q E ⟨s, c⟩ := by
  refine (wp_bind _ _).mpr (alone_getRun (fun _ => ⟨run, hr, hreach⟩) ?_)
  rw [hr]
  refine (wp_bind _ _).mpr (alone_listTasks ?_)
  generalize htarget : targetStatus (s.tasksOf runId) = target at hreach h ⊢
  split
  next heq =>
    apply h
    constructor
    · exact ⟨run, hr, heq.symm, fun hst => absurd heq hst.1, fun _ => rfl⟩
    · rw [RunStatus.route, if_pos heq, walkEvents, List.append_nil]
  next hne =>
  refine (wp_bind _ _).mpr ?_
  unfold moveRun stepThroughRunning
  by_cases hedge : target ∈ allowedRunTransitions run.status
  · rw [if_neg fun hc => hc.1 hedge]
    refine (wp_bind _ _).mpr ?_
    rw [wp_pure]
    refine (wp_bind _ _).mpr ?_
    rw [ensureRunTransition, if_pos hedge]
    refine alone_step hr rfl fun s' r hr' hst hset hkept he => h s' ?_
    constructor
    · exact ⟨r, hr', hst, fun hs => hset hs.2, fun hs => hkept fun hc => hs ⟨hne, hc⟩⟩
    · rw [he, RunStatus.route, if_neg hne, if_pos hedge]
      rfl
  · have hvia := hreach
    simp only [RunStatus.canReach, hne, hedge, decide_false, Bool.false_or, Bool.and_eq_true,
      decide_eq_true_eq] at hvia
    rw [if_pos ⟨hedge, hvia⟩]
    refine (wp_bind _ _).mpr ((wp_bind _ _).mpr ?_)
    rw [ensureRunTransition, if_pos hvia.1]
    refine (wp_bind _ _).mpr (alone_updateRunStatus hr ?_)
    have hr1 : (s.modifyRun runId (·.setStatus .running) (·.setStatus_runId _)).run? runId =
        some (run.setStatus .running) := by simp [hr]
    refine (wp_bind _ _).mpr (alone_recordChange (by rw [hr1]; exact Option.some_ne_none _) ?_)
    have hread : Refreshable ((s.modifyRun runId (·.setStatus .running)
        (·.setStatus_runId _)).addEvents [changeEvent runId run.status .running]) runId := by
      refine ⟨_, hr1, ?_⟩
      have htasks : targetStatus (((s.modifyRun runId (·.setStatus .running)
          (·.setStatus_runId _)).addEvents
            [changeEvent runId run.status .running]).tasksOf runId) = target := htarget
      simp [RunStatus.canReach, htasks, hvia.2]
    refine (wp_bind _ _).mpr (alone_getRun (fun _ => hread) ?_)
    rw [StateStore.addEvents_run?, hr1]
    refine (wp_bind _ _).mpr ?_
    rw [RunRecord.setStatus_status, ensureRunTransition, if_pos hvia.2]
    refine alone_step hr1 rfl fun s' r hr' hst hset hkept he =>
      h s' ?_
    constructor
    · exact ⟨r, hr', hst, fun hs => hset hs.2, fun hs => hkept fun hc => hs ⟨hne, hc⟩⟩
    · rw [he, RunStatus.route, if_neg hne, if_neg hedge]
      simp [walkEvents]

end Alone

/-- **A refresh in one piece** stores the route to its target, or raises and changes nothing. -/
theorem refresh_trail (s : StateStore) (runId : RunId) (a : Answers) :
    (∃ run s', s.run? runId = some run ∧
      run.status.canReach (targetStatus (s.tasksOf runId)) = true ∧
      atomically (refreshRunStatus runId) a s = (.ok (targetStatus (s.tasksOf runId)), s') ∧
      OnRun runId s s' ∧ Refreshed runId run (targetStatus (s.tasksOf runId)) s s') ∨
    ∃ e, atomically (refreshRunStatus runId) a s = (.error e, s) := by
  have hspec := refresh_atomically s runId a
  cases hr : s.run? runId with
  | none =>
    rw [hr] at hspec
    exact .inr ⟨_, hspec⟩
  | some run =>
    rw [hr] at hspec
    dsimp only at hspec
    split at hspec
    next hreach =>
      obtain ⟨s', r', hok, hon, -⟩ := hspec
      have hpost := atomically_of_wp (p := refreshRunStatus runId) (s := s)
        (Q := fun _ l => Refreshed runId run (targetStatus (s.tasksOf runId)) s l.store)
        (E := fun _ _ => False) (alone_refresh_trail hr hreach fun s' h => h) (Admits.any_meets a)
      rw [hok] at hpost
      obtain ⟨c, href⟩ := hpost
      exact .inl ⟨run, s', rfl, hreach, hok, hon, href⟩
    next => exact .inr ⟨_, hspec⟩

end FineTuneHarness
