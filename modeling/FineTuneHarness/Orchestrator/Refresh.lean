import FineTuneHarness.Executor.Alone
import FineTuneHarness.Orchestrator.Runner
import FineTuneHarness.State.Evolution

/-!
# What a refresh does to a run

`Fits` says which stored run statuses the task statuses still allow: a status, once
written, keeps fitting because terminal tasks stay as they are. From a status that fits,
every target can be reached, except `VALIDATED` from `RUNNING`.
-/
namespace FineTuneHarness

open Library Library.Program

/-- The tasks do not contradict the stored run status. -/
def Fits (tasks : List TaskRecord) : RunStatus → Prop
  | .validated => True
  | .running => tasks ≠ []
  | .partialFailed => ∃ t ∈ tasks, t.status.unsuccessful = true
  | .completed => tasks ≠ [] ∧ ∀ t ∈ tasks, t.status = .succeeded
  | .failed => tasks ≠ [] ∧ ∀ t ∈ tasks, t.status.unsuccessful = true ∨ t.status = .cancelled
  | .created | .cancelled => False

/-! ## The target -/

section Target

variable {tasks : List TaskRecord}

theorem targetStatus_completed (h : tasks ≠ []) (hs : ∀ t ∈ tasks, t.status = .succeeded) :
    targetStatus tasks = .completed := by
  have h1 : tasks.all (·.status = .succeeded) = true := by simpa [List.all_eq_true] using hs
  simp [targetStatus, h, h1]

theorem targetStatus_failed (h : tasks ≠ [])
    (hs : ∀ t ∈ tasks, t.status.unsuccessful = true ∨ t.status = .cancelled) :
    targetStatus tasks = .failed := by
  obtain ⟨t, ht⟩ := List.exists_mem_of_ne_nil _ h
  have hns : ∀ t ∈ tasks, t.status ≠ .succeeded ∧ t.status.inProgress = false := by
    intro t ht
    rcases hs t ht with h | h
    · cases hst : t.status <;> simp [hst, TaskStatus.unsuccessful, TaskStatus.inProgress] at h ⊢
    · simp [h, TaskStatus.inProgress]
  have h1 : tasks.all (·.status = .succeeded) = false := by
    simp only [List.all_eq_false, decide_eq_true_eq]
    exact ⟨t, ht, (hns t ht).1⟩
  have h2 : tasks.any (·.status = .succeeded) = false := by
    simpa [List.any_eq_false] using fun t ht => (hns t ht).1
  have h3 : tasks.any (·.status.inProgress) = false := by
    simpa [List.any_eq_false] using fun t ht => (hns t ht).2
  have h4 : tasks.all (fun t => t.status.unsuccessful || t.status = .cancelled) = true := by
    simpa [List.all_eq_true] using hs
  simp [targetStatus, h, h1, h2, h3, h4]

/-- An unsuccessful task leaves two targets. -/
theorem targetStatus_of_unsuccessful {t : TaskRecord} (ht : t ∈ tasks)
    (hu : t.status.unsuccessful = true) :
    targetStatus tasks = .partialFailed ∨ targetStatus tasks = .failed := by
  have h : tasks ≠ [] := List.ne_nil_of_mem ht
  have h1 : tasks.all (·.status = .succeeded) = false := by
    simp only [List.all_eq_false, decide_eq_true_eq]
    exact ⟨t, ht, fun e => by rw [e] at hu; cases hu⟩
  have h2 : tasks.any (·.status.unsuccessful) = true := List.any_eq_true.mpr ⟨t, ht, hu⟩
  by_cases h3 : (tasks.any (·.status = .succeeded) || tasks.any (·.status.inProgress)) = true
  · left; simp [targetStatus, h, h1, h2, h3]
  · right
    refine targetStatus_failed h fun t ht => ?_
    simp only [Bool.or_eq_true, List.any_eq_true, decide_eq_true_eq, not_or, not_exists,
      not_and] at h3
    have hs := h3.1 t ht
    have hp := h3.2 t ht
    cases hst : t.status <;>
      simp [hst, TaskStatus.unsuccessful, TaskStatus.inProgress] at hs hp ⊢

/-- A task that has been started, or is being started, keeps the run off `VALIDATED`. -/
theorem targetStatus_ne_validated {t : TaskRecord} (ht : t ∈ tasks)
    (h : 0 < t.attemptCount ∨ t.status = .leased ∨ t.status = .running ∨ t.status = .succeeded) :
    targetStatus tasks ≠ .validated := by
  have hne : tasks.isEmpty = false := by
    rw [List.isEmpty_eq_false_iff]
    exact List.ne_nil_of_mem ht
  have hlast : (tasks.any (·.status = .running) || tasks.any (·.status = .leased) ||
      tasks.any (·.status = .succeeded) || tasks.any (fun t => 0 < t.attemptCount)) = true := by
    simp only [Bool.or_eq_true, List.any_eq_true, decide_eq_true_eq]
    rcases h with h | h | h | h
    · exact .inr ⟨t, ht, h⟩
    · exact .inl (.inl (.inr ⟨t, ht, h⟩))
    · exact .inl (.inl (.inl ⟨t, ht, h⟩))
    · exact .inl (.inr ⟨t, ht, h⟩)
  unfold targetStatus
  rw [hne, hlast]
  simp only [Bool.false_eq_true, if_false, if_true, ne_eq]
  repeat' split
  all_goals decide

/-- Untouched tasks ask for `VALIDATED`. -/
theorem targetStatus_validated (h : ∀ t ∈ tasks, t.status = .pending ∧ t.attemptCount = 0) :
    targetStatus tasks = .validated := by
  cases tasks with
  | nil => rfl
  | cons t tasks =>
    have h0 := h t List.mem_cons_self
    have hany : ∀ p : TaskRecord → Bool, (∀ t : TaskRecord, t.status = .pending →
        t.attemptCount = 0 → p t = false) → (t :: tasks).any p = false := by
      intro p hp
      rw [List.any_eq_false]
      intro t ht
      rw [hp t (h t ht).1 (h t ht).2]
      exact Bool.false_ne_true
    unfold targetStatus
    rw [hany (fun t => t.status.unsuccessful) fun t ht _ => by rw [ht]; rfl,
      hany (fun t => decide (t.status = .succeeded)) fun t ht _ => by rw [ht]; rfl,
      hany (fun t => decide (t.status = .running)) fun t ht _ => by rw [ht]; rfl,
      hany (fun t => decide (t.status = .leased)) fun t ht _ => by rw [ht]; rfl,
      hany (fun t => decide (0 < t.attemptCount)) fun t _ ht => by rw [ht]; rfl]
    simp [h0.1, TaskStatus.unsuccessful]

/-- The target fits the tasks it is computed from. -/
theorem fits_targetStatus : Fits tasks (targetStatus tasks) := by
  unfold targetStatus
  split; · trivial
  rename_i hne
  have hne : tasks ≠ [] := fun h => hne (List.isEmpty_iff.mpr h)
  split
  · rename_i h; exact ⟨hne, by simpa [List.all_eq_true] using h⟩
  split
  · rename_i h
    simp only [Bool.and_eq_true, List.any_eq_true] at h
    exact h.1
  split
  · rename_i h; exact ⟨hne, by simpa [List.all_eq_true] using h⟩
  split
  · exact hne
  · trivial

/-- From a status that fits, one target is out of reach: `VALIDATED` from `RUNNING`. -/
theorem canReach_target {st : RunStatus} (h : Fits tasks st) :
    st.canReach (targetStatus tasks) = true ↔
      ¬ (st = .running ∧ targetStatus tasks = .validated) := by
  have hfit : Fits tasks (targetStatus tasks) := fits_targetStatus
  cases st with
  | created | cancelled => exact h.elim
  | validated =>
    cases ht : targetStatus tasks <;> rw [ht] at hfit <;>
      first | exact hfit.elim | simp [RunStatus.canReach, allowedRunTransitions]
  | running =>
    cases ht : targetStatus tasks <;> rw [ht] at hfit <;>
      first | exact hfit.elim | simp [RunStatus.canReach, allowedRunTransitions]
  | partialFailed =>
    obtain ⟨t, ht, hu⟩ := h
    rcases targetStatus_of_unsuccessful ht hu with e | e <;> rw [e] <;> decide
  | completed => rw [targetStatus_completed h.1 h.2]; decide
  | failed => rw [targetStatus_failed h.1 h.2]; decide

/-- Where nothing is cancelled, only untouched tasks ask for `VALIDATED`. -/
theorem targetStatus_eq_validated (hc : ∀ t ∈ tasks, t.status ≠ .cancelled) :
    targetStatus tasks = .validated ↔
      ∀ t ∈ tasks, t.status = .pending ∧ t.attemptCount = 0 := by
  refine ⟨fun h t ht => ?_, targetStatus_validated⟩
  have hun : t.status.unsuccessful = false := by
    cases hu : t.status.unsuccessful with
    | false => rfl
    | true => rcases targetStatus_of_unsuccessful ht hu with e | e <;> rw [e] at h <;> cases h
  have hst : ¬ (0 < t.attemptCount ∨ t.status = .leased ∨ t.status = .running ∨
      t.status = .succeeded) := fun hst => targetStatus_ne_validated ht hst h
  have hct := hc t ht
  refine ⟨?_, by omega⟩
  cases hs : t.status <;> simp [hs, TaskStatus.unsuccessful] at hun hst hct ⊢

/-- The target depends only on which statuses occur, and whether an attempt is on record. -/
theorem targetStatus_congr {tasks' : List TaskRecord}
    (h : ∀ t ∈ tasks, ∃ t' ∈ tasks', t'.status = t.status ∧
      (0 < t'.attemptCount ↔ 0 < t.attemptCount))
    (h' : ∀ t' ∈ tasks', ∃ t ∈ tasks, t.status = t'.status ∧
      (0 < t.attemptCount ↔ 0 < t'.attemptCount)) :
    targetStatus tasks' = targetStatus tasks := by
  have hany : ∀ p : TaskStatus → Bool → Bool,
      tasks'.any (fun t => p t.status (0 < t.attemptCount)) =
        tasks.any (fun t => p t.status (0 < t.attemptCount)) := by
    intro p
    rw [Bool.eq_iff_iff, List.any_eq_true, List.any_eq_true]
    constructor
    · rintro ⟨t', ht', hp⟩
      obtain ⟨t, ht, hs, ha⟩ := h' t' ht'
      exact ⟨t, ht, by rw [hs, decide_eq_decide.mpr ha]; exact hp⟩
    · rintro ⟨t, ht, hp⟩
      obtain ⟨t', ht', hs, ha⟩ := h t ht
      exact ⟨t', ht', by rw [hs, decide_eq_decide.mpr ha]; exact hp⟩
  have hempty : tasks'.isEmpty = tasks.isEmpty := by
    have := hany fun _ _ => true
    cases tasks <;> cases tasks' <;> simp at this ⊢
  unfold targetStatus
  rw [hempty, List.all_eq_not_any_not, List.all_eq_not_any_not, List.all_eq_not_any_not,
    List.all_eq_not_any_not, hany fun st _ => !decide (st = .succeeded),
    hany fun st _ => st.unsuccessful, hany fun st _ => decide (st = .succeeded),
    hany fun st _ => st.inProgress,
    hany fun st _ => !(st.unsuccessful || decide (st = .cancelled)),
    hany fun st _ => decide (st = .running), hany fun st _ => decide (st = .leased),
    hany fun _ b => b]

/-- Where a task was unsuccessful, it depends on the statuses alone. -/
theorem targetStatus_congr_of_unsuccessful {tasks' : List TaskRecord}
    (h : ∀ t ∈ tasks, ∃ t' ∈ tasks', t'.status = t.status)
    (h' : ∀ t' ∈ tasks', ∃ t ∈ tasks, t.status = t'.status) {t : TaskRecord} (ht : t ∈ tasks)
    (hu : t.status.unsuccessful = true) : targetStatus tasks' = targetStatus tasks := by
  obtain ⟨t', ht', hs⟩ := h t ht
  have hfailed : ∀ {l l' : List TaskRecord}, l' ≠ [] → (∀ t' ∈ l', ∃ t ∈ l, t.status = t'.status) →
      targetStatus l = .failed → targetStatus l' = .failed := by
    intro l l' hne hsub hl
    have hfit : Fits l (targetStatus l) := fits_targetStatus
    rw [hl] at hfit
    refine targetStatus_failed hne fun t' ht' => ?_
    obtain ⟨t, ht, hs⟩ := hsub t' ht'
    rw [← hs]
    exact hfit.2 t ht
  rcases targetStatus_of_unsuccessful ht hu with hold | hold
  · rcases targetStatus_of_unsuccessful ht' (by rw [hs]; exact hu) with hnew | hnew
    · exact hnew.trans hold.symm
    · exact hnew.trans (hfailed (List.ne_nil_of_mem ht) h hnew).symm
  · exact (hfailed (List.ne_nil_of_mem ht') h' hold).trans hold.symm

end Target

/-- What the tasks allowed once, they allow later. -/
theorem Fits.evolves {s s' : StateStore} {runId : RunId} {st : RunStatus}
    (h : Fits (s.tasksOf runId) st) (he : StateStore.Evolves s s') :
    Fits (s'.tasksOf runId) st := by
  have hne : s.tasksOf runId ≠ [] → s'.tasksOf runId ≠ [] := by
    intro hne
    obtain ⟨t, ht⟩ := List.exists_mem_of_ne_nil _ hne
    obtain ⟨t', ht', -⟩ := he.mem_tasksOf ht
    exact List.ne_nil_of_mem ht'
  cases st with
  | created | cancelled => exact h.elim
  | validated => trivial
  | running => exact hne h
  | partialFailed =>
    obtain ⟨t, ht, hu⟩ := h
    obtain ⟨t', ht', hl⟩ := he.mem_tasksOf ht
    refine ⟨t', ht', ?_⟩
    rw [hl.frozen (by cases hs : t.status <;> rw [hs] at hu <;> first | rfl | cases hu)]
    exact hu
  | completed =>
    refine ⟨hne h.1, fun t' ht' => ?_⟩
    obtain ⟨t, ht, hl⟩ := he.of_mem_tasksOf ht'
    rw [hl.frozen (by rw [h.2 t ht]; rfl), h.2 t ht]
  | failed =>
    refine ⟨hne h.1, fun t' ht' => ?_⟩
    obtain ⟨t, ht, hl⟩ := he.of_mem_tasksOf ht'
    have hst := h.2 t ht
    rw [hl.frozen (by cases hs : t.status <;> simp [hs, TaskStatus.unsuccessful] at hst ⊢ <;> rfl)]
    exact hst

/-! ## The refresh of one party alone -/

/-- Only the row of one run and events of that run, of none of its tasks, have changed. -/
structure OnRun (runId : RunId) (s s' : StateStore) : Prop where
  backend : s'.backend = s.backend
  tasks : s'.tables.tasks = s.tables.tasks
  artifacts : s'.tables.artifacts = s.tables.artifacts
  others : ∀ id, id ≠ runId → s'.run? id = s.run? id
  seed : (s'.run? runId).map (·.seed) = (s.run? runId).map (·.seed)
  events : ∃ es, s'.events = s.events ++ es ∧ ∀ e ∈ es, e.taskId = none

namespace OnRun

variable {id : RunId} {s s' s'' : StateStore}

theorem refl : OnRun id s s := ⟨rfl, rfl, rfl, fun _ _ => rfl, rfl, [], by simp, by simp⟩

theorem trans (h : OnRun id s s') (h' : OnRun id s' s'') : OnRun id s s'' where
  backend := h'.backend.trans h.backend
  tasks := h'.tasks.trans h.tasks
  artifacts := h'.artifacts.trans h.artifacts
  others := fun i hi => (h'.others i hi).trans (h.others i hi)
  seed := h'.seed.trans h.seed
  events := by
    obtain ⟨es, he, hn⟩ := h.events
    obtain ⟨es', he', hn'⟩ := h'.events
    refine ⟨es ++ es', by rw [he', he, List.append_assoc], fun e hm => ?_⟩
    exact (List.mem_append.mp hm).elim (hn e) (hn' e)

theorem modifyRun {f : RunRecord → RunRecord} {hf : ∀ r, (f r).runId = r.runId}
    (hs : ∀ r, (f r).seed = r.seed) : OnRun id s (s.modifyRun id f hf) where
  backend := rfl
  tasks := rfl
  artifacts := rfl
  others := fun i hi => by rw [StateStore.modifyRun_run?, if_neg hi]
  seed := by
    rw [StateStore.modifyRun_run?_self, Option.map_map]
    exact congrArg (fun g => (s.run? id).map g) (funext hs)
  events := ⟨[], by simp, by simp⟩

theorem addEvent {e : EventRecord} (h : e.taskId = none) : OnRun id s (s.addEvents [e]) where
  backend := rfl
  tasks := rfl
  artifacts := rfl
  others := fun _ _ => rfl
  seed := rfl
  events := ⟨[e], rfl, by simpa using h⟩

theorem task? (h : OnRun id s s') (t : TaskId) : s'.task? t = s.task? t := by
  rw [StateStore.task?, h.tasks, StateStore.task?]

theorem tasksOf (h : OnRun id s s') (i : RunId) : s'.tasksOf i = s.tasksOf i := by
  rw [StateStore.tasksOf, h.tasks, StateStore.tasksOf]

end OnRun

section Alone

variable {ok : Admits} {s : StateStore} {c : List TaskId} {E : PyExc → Ledger → Prop}
  {runId : RunId} {run : RunRecord} {target : RunStatus}

theorem alone_recordStatusChange {source : RunStatus} {Q : Unit → Ledger → Prop}
    (hr : s.run? runId ≠ none)
    (h : ∀ e : EventRecord, e.taskId = none → Q () ⟨s.addEvents [e], c⟩) :
    (recordStatusChange runId source target).wp (alone ok) Q E ⟨s, c⟩ :=
  alone_record rfl hr (fun _ he => by cases he) fun e _ he _ => h e he

theorem alone_stampFinished {Q : Unit → Ledger → Prop} (hr : s.run? runId = some run)
    {run' : RunRecord}
    (h : ∀ f, ∀ hf : ∀ r : RunRecord, (f r).runId = r.runId,
      (∀ r, (f r).status = r.status ∧ (f r).seed = r.seed) →
      Q () ⟨s.modifyRun runId f hf, c⟩) :
    (stampFinished runId run' target).wp (alone ok) Q E ⟨s, c⟩ := by
  unfold stampFinished
  split
  · exact (wp_bind _ _).mpr (alone_ask.mpr fun now _ => alone_updateRunFinishedAt hr
      (h _ _ fun _ => ⟨rfl, rfl⟩))
  · have := h id (fun _ => rfl) fun _ => ⟨rfl, rfl⟩
    have hid : s.modifyRun runId id (fun _ => rfl) = s := by
      obtain ⟨b, m⟩ := s
      simp only [StateStore.modifyRun, Table.modify]
      congr 2
      exact Table.ext' (by simp [Table.updateWhere])
    rwa [hid] at this

/-- Along an edge. -/
theorem alone_moveEdge {Q : Unit → Ledger → Prop} {source : RunStatus} {run' : RunRecord}
    (hr : s.run? runId = some run)
    (h : ∀ s', OnRun runId s s' → (∃ r, s'.run? runId = some r ∧ r.status = target) →
      Q () ⟨s', c⟩) :
    (do
      call (.updateRunStatus runId target)
      stampFinished runId run' target
      recordStatusChange runId source target : Prog Unit).wp (alone ok) Q E ⟨s, c⟩ := by
  refine (wp_bind _ _).mpr (alone_updateRunStatus hr ?_)
  have hr1 : (s.modifyRun runId (·.setStatus target) (·.setStatus_runId _)).run? runId =
      some (run.setStatus target) := by simp [hr]
  refine (wp_bind _ _).mpr (alone_stampFinished hr1 fun f hf hfs => ?_)
  have hr2 : ((s.modifyRun runId (·.setStatus target) (·.setStatus_runId _)).modifyRun runId f
      hf).run? runId = some (f (run.setStatus target)) := by
    rw [StateStore.modifyRun_run?_self, hr1]
    rfl
  refine alone_recordStatusChange (by rw [hr2]; exact Option.some_ne_none _) fun e he => ?_
  refine h _ (((OnRun.modifyRun (f := (·.setStatus target)) fun r => r.setStatus_seed _).trans
    (OnRun.modifyRun fun r => (hfs r).2)).trans (OnRun.addEvent he)) ⟨_, hr2, ?_⟩
  exact (hfs _).1

theorem alone_moveRun {Q : Unit → Ledger → Prop} (hr : s.run? runId = some run)
    (htarget : targetStatus (s.tasksOf runId) = target) (hne : target ≠ run.status)
    (hreach : run.status.canReach target = true)
    (h : ∀ s', OnRun runId s s' → (∃ r, s'.run? runId = some r ∧ r.status = target) →
      Q () ⟨s', c⟩) : (moveRun runId run target).wp (alone ok) Q E ⟨s, c⟩ := by
  unfold moveRun stepThroughRunning
  by_cases hedge : target ∈ allowedRunTransitions run.status
  · rw [if_neg fun hc => hc.1 hedge]
    refine (wp_bind _ _).mpr ?_
    rw [wp_pure]
    refine (wp_bind _ _).mpr ?_
    rw [ensureRunTransition, if_pos hedge]
    exact alone_moveEdge hr h
  · simp only [RunStatus.canReach, hne, hedge, decide_false, Bool.false_or, Bool.and_eq_true,
      decide_eq_true_eq] at hreach
    rw [if_pos ⟨hedge, hreach⟩]
    refine (wp_bind _ _).mpr ((wp_bind _ _).mpr ?_)
    rw [ensureRunTransition, if_pos hreach.1]
    refine (wp_bind _ _).mpr (alone_updateRunStatus hr ?_)
    have hr1 : (s.modifyRun runId (·.setStatus .running) (·.setStatus_runId _)).run? runId =
        some (run.setStatus .running) := by simp [hr]
    refine (wp_bind _ _).mpr (alone_recordStatusChange
      (by rw [hr1]; exact Option.some_ne_none _) fun e he => ?_)
    have hread : Refreshable ((s.modifyRun runId (·.setStatus .running)
        (·.setStatus_runId _)).addEvents [e]) runId := by
      refine ⟨_, hr1, ?_⟩
      have htasks : targetStatus (((s.modifyRun runId (·.setStatus .running)
          (·.setStatus_runId _)).addEvents [e]).tasksOf runId) = target := htarget
      simp [RunStatus.canReach, htasks, hreach.2]
    refine (wp_bind _ _).mpr (alone_getRun (fun _ => hread) ?_)
    rw [StateStore.addEvents_run?, hr1]
    refine (wp_bind _ _).mpr ?_
    rw [RunRecord.setStatus_status, ensureRunTransition, if_pos hreach.2]
    refine alone_moveEdge hr1 fun s' hs' => ?_
    exact h s' (((OnRun.modifyRun (f := (·.setStatus .running)) fun r =>
      r.setStatus_seed _).trans (OnRun.addEvent he)).trans hs')

/-- **A refresh whose target is in reach** leaves the target in the store and returns it. -/
theorem alone_refreshRunStatus {Q : RunStatus → Ledger → Prop} (hr : s.run? runId = some run)
    (hreach : run.status.canReach (targetStatus (s.tasksOf runId)) = true)
    (h : ∀ s', OnRun runId s s' →
      (∃ r, s'.run? runId = some r ∧ r.status = targetStatus (s.tasksOf runId)) →
      Q (targetStatus (s.tasksOf runId)) ⟨s', c⟩) :
    (refreshRunStatus runId).wp (alone ok) Q E ⟨s, c⟩ := by
  refine (wp_bind _ _).mpr (alone_getRun (fun _ => ⟨run, hr, hreach⟩) ?_)
  rw [hr]
  refine (wp_bind _ _).mpr (alone_listTasks ?_)
  split
  next heq => exact h s .refl ⟨run, hr, heq.symm⟩
  next hne => exact (wp_bind _ _).mpr (alone_moveRun hr rfl hne hreach h)

/-- A refresh whose target is out of reach raises and leaves the store as it was. -/
theorem alone_refreshRunStatus_stuck {Q : RunStatus → Ledger → Prop}
    (hok : ¬ ok.refreshable) (hr : s.run? runId = some run)
    (hstuck : run.status.canReach (targetStatus (s.tasksOf runId)) = false)
    (h : E (invalidRunTransition run.status (targetStatus (s.tasksOf runId))) ⟨s, c⟩) :
    (refreshRunStatus runId).wp (alone ok) Q E ⟨s, c⟩ := by
  simp only [RunStatus.canReach, Bool.or_eq_false_iff, decide_eq_false_iff_not,
    Bool.and_eq_false_iff] at hstuck
  obtain ⟨⟨hne, hedge⟩, hvia⟩ := hstuck
  refine (wp_bind _ _).mpr (alone_getRun (fun hx => absurd hx hok) ?_)
  rw [hr]
  refine (wp_bind _ _).mpr (alone_listTasks ?_)
  rw [if_neg hne]
  refine (wp_bind _ _).mpr ?_
  unfold moveRun stepThroughRunning
  rw [if_neg fun hc => hvia.elim (fun h => h hc.2.1) fun h => h hc.2.2]
  refine (wp_bind _ _).mpr ?_
  rw [wp_pure]
  refine (wp_bind _ _).mpr ?_
  rw [ensureRunTransition, if_neg hedge]
  exact h

theorem alone_refreshRunStatus_unknown {Q : RunStatus → Ledger → Prop}
    (hok : ¬ ok.refreshable) (hr : s.run? runId = none) (h : E (unknownRun runId) ⟨s, c⟩) :
    (refreshRunStatus runId).wp (alone ok) Q E ⟨s, c⟩ := by
  refine (wp_bind _ _).mpr (alone_getRun (fun hx => absurd hx hok) ?_)
  rw [hr]
  exact h

end Alone

/-- **A refresh in one piece**: it moves the run to its target, or raises and changes
nothing. -/
theorem refresh_atomically (s : StateStore) (runId : RunId) (a : Answers) :
    match s.run? runId with
    | none => atomically (refreshRunStatus runId) a s = (.error (unknownRun runId), s)
    | some r =>
      if r.status.canReach (targetStatus (s.tasksOf runId)) then
        ∃ s' r', atomically (refreshRunStatus runId) a s =
          (.ok (targetStatus (s.tasksOf runId)), s') ∧ OnRun runId s s' ∧
          s'.run? runId = some r' ∧ r'.status = targetStatus (s.tasksOf runId)
      else atomically (refreshRunStatus runId) a s =
        (.error (invalidRunTransition r.status (targetStatus (s.tasksOf runId))), s) := by
  have hpost := fun {Q : RunStatus → Ledger → Prop} {E : PyExc → Ledger → Prop} =>
    fun hp => atomically_of_wp (p := refreshRunStatus runId) (s := s) (Q := Q) (E := E) hp
      (Admits.any_meets a)
  generalize atomically (refreshRunStatus runId) a s = out at hpost ⊢
  obtain ⟨res, s'⟩ := out
  cases hr : s.run? runId with
  | none =>
    have := hpost (Q := fun _ _ => False) (E := fun e l => e = unknownRun runId ∧ l.store = s)
      (alone_refreshRunStatus_unknown id hr ⟨rfl, rfl⟩)
    cases res with
    | ok v => obtain ⟨c, h⟩ := this; exact h.elim
    | error e => obtain ⟨c, rfl, rfl⟩ := this; rfl
  | some r =>
    dsimp only
    split
    next hreach =>
      have := hpost (Q := fun st l => st = targetStatus (s.tasksOf runId) ∧
          OnRun runId s l.store ∧
          ∃ r', l.store.run? runId = some r' ∧ r'.status = targetStatus (s.tasksOf runId))
        (E := fun _ _ => False)
        (alone_refreshRunStatus hr hreach fun s' ho hr' => ⟨rfl, ho, hr'⟩)
      cases res with
      | ok v => obtain ⟨c, rfl, ho, r', hr', hst⟩ := this; exact ⟨s', r', rfl, ho, hr', hst⟩
      | error e => obtain ⟨c, h⟩ := this; exact h.elim
    next hstuck =>
      have := hpost (Q := fun _ _ => False)
        (E := fun e l => e = invalidRunTransition r.status (targetStatus (s.tasksOf runId)) ∧
          l.store = s)
        (alone_refreshRunStatus_stuck id hr (Bool.eq_false_iff.mpr hstuck) ⟨rfl, rfl⟩)
      cases res with
      | ok v => obtain ⟨c, h⟩ := this; exact h.elim
      | error e => obtain ⟨c, rfl, rfl⟩ := this; rfl

end FineTuneHarness
