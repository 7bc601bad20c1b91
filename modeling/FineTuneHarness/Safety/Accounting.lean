import FineTuneHarness.Executor.Attempt
import FineTuneHarness.Executor.Discipline

/-!
# Every attempt accounted for

`run_once` writes the outcome of an attempt inside its `try` statement and on the two
paths after it. A statement in between that raises leaves the task `RUNNING`, and `drain`
swallows the exception. `Accountable` lists what has to go well: the stored run status, the
seed, the deadline, the attempt limit, the validation, the encoding and the artifact.
-/
namespace FineTuneHarness

open Library Library.Program

/-- The events that report a task in this status. -/
def TaskStatus.outcomeKinds : TaskStatus → List String
  | .pending => ["task_retry_scheduled", oomRequeuedKind]
  | .succeeded => ["task_succeeded"]
  | .failed => ["task_failed"]
  | .timedOut => ["task_timed_out"]
  | .degenerate => ["task_degenerate"]
  | .leased | .running | .cancelled => []

/-- Between the two stores the task has been settled and its status reported: it is
`PENDING` or terminal, and the matching event is among the new ones. -/
def Accounted (s s' : StateStore) (t : TaskId) : Prop :=
  ∃ st e, s'.statusOf t = some st ∧ e ∈ s'.events.drop s.events.length ∧
    e.taskId = some t ∧ e.kind ∈ st.outcomeKinds

/-! ## What has to go well -/

namespace LocalWorker

variable (pf : Platform) (w : LocalWorker) (ext : (x : Ext) → x.Reply) (s : StateStore)
  (runId : RunId)

/-- How the handler call ends. -/
def executed (task : TaskRecord) : Option Int → HandlerRun (Except PyExc PyVal)
  | none => ext (.runHandler task)
  | some seconds =>
    let run := ext (.runHandlerWithin task seconds)
    { run with outcome := withinDeadline seconds run.outcome }

/-- The result can be stored and its artifact, if there is one, written and registered. -/
def Persists (task : TaskRecord) (result : Dict) : Prop :=
  (s.keep (some result)).isOk = true ∧ (w.artifactStore = true →
    ∃ artifact, ext (.writeArtifact {
      runId, taskId := task.taskId, kind := "task_result", payload := result
      filename := s!"{task.taskKey}-result.json" }) = .ok artifact ∧
    s.acceptsArtifact artifact = true)

/-- The exception is a GPU out-of-memory error, and the task has OOM requeues left. -/
def RequeuesOom (task : TaskRecord) (exc : PyExc) : Prop :=
  (w.maxOomRetries > 0 ∧ isOomError pf exc = true) ∧
    (oomRequeues task.taskId (s.eventsOf runId) : Int) < w.maxOomRetries

/-- What has to go well after the handler call. -/
def Handled (task : TaskRecord) (run : HandlerRun (Except PyExc PyVal)) : Prop :=
  match run.outcome with
  | .error exc =>
    exc.isInstance "TimeoutError" = true ∨ w.RequeuesOom pf s runId task exc ∨
      (w.resolveMaxAttempts run.payload).isOk = true
  | .ok v =>
    match judge pf run.payload run.wallSeconds v with
    | .error _ => False
    | .ok (result, outcome) =>
      if outcome.status.rejected then w.Persists ext s runId task result
      else w.Persists ext s runId task
        (w.hooks.applied ext (.afterTaskSuccess { task with payload := run.payload } result)).result

end LocalWorker

/-! ## States along the way -/

/-- The event is no outcome of the task. -/
def Silent (t : TaskId) (e : EventRecord) : Prop :=
  e.taskId = some t → ∀ st : TaskStatus, e.kind ∉ st.outcomeKinds

/-- The task has this status since the store was `s`, and no outcome is on record. -/
structure Unreported (s s' : StateStore) (runId : RunId) (t : TaskId) (st : TaskStatus) :
    Prop where
  status : s'.statusOf t = some st
  run : s'.run? runId ≠ none
  events : ∃ es, s'.events = s.events ++ es ∧ ∀ e ∈ es, Silent t e

/-- The task is `RUNNING` and nothing else has changed that its settlement depends on. -/
structure InHand (s s' : StateStore) (runId : RunId) (t : TaskId) : Prop
    extends Unreported s s' runId t .running where
  backend : s'.backend = s.backend
  artifacts : s'.tables.artifacts = s.tables.artifacts
  runs : ∀ id, (s'.run? id).isSome = (s.run? id).isSome
  tasks : ∀ id, (s'.task? id).isSome = (s.task? id).isSome

section States

variable {s s' s'' : StateStore} {runId : RunId} {t : TaskId} {st : TaskStatus}

/-- One more event that is no outcome. -/
theorem silent_addEvent (h : ∃ es, s'.events = s.events ++ es ∧ ∀ e ∈ es, Silent t e)
    {e : EventRecord} (he : Silent t e) :
    ∃ es, (s'.addEvents [e]).events = s.events ++ es ∧ ∀ e ∈ es, Silent t e := by
  obtain ⟨es, hes, hsil⟩ := h
  refine ⟨es ++ [e], by rw [StateStore.addEvents_events, hes, List.append_assoc], ?_⟩
  intro e' hm
  rcases List.mem_append.mp hm with hm | hm
  · exact hsil e' hm
  · rw [List.mem_singleton.mp hm]
    exact he

theorem Unreported.report (h : Unreported s s' runId t st) {e : EventRecord}
    (ht : e.taskId = some t) (hk : e.kind ∈ st.outcomeKinds) :
    Accounted s (s'.addEvents [e]) t := by
  obtain ⟨es, he, -⟩ := h.events
  refine ⟨st, e, h.status, ?_, ht, hk⟩
  rw [StateStore.addEvents_events, he, List.append_assoc, List.drop_left]
  exact List.mem_append_right _ List.mem_cons_self

theorem Unreported.task (h : Unreported s s' runId t st) : s'.task? t ≠ none := by
  intro hn
  have := h.status
  rw [StateStore.statusOf, hn] at this
  cases this

/-- What is accounted for stays so while the tasks stay and events are added. -/
theorem Accounted.quiet (h : Accounted s s' t) (htasks : s''.tables.tasks = s'.tables.tasks)
    (hev : ∃ es, s''.events = s'.events ++ es) : Accounted s s'' t := by
  obtain ⟨st, e, hst, hm, ht, hk⟩ := h
  obtain ⟨es, he⟩ := hev
  refine ⟨st, e, ?_, ?_, ht, hk⟩
  · rw [StateStore.statusOf, StateStore.task?, htasks, ← StateStore.task?, ← StateStore.statusOf]
    exact hst
  · rw [he, List.drop_append]
    exact List.mem_append_left _ hm

theorem InHand.addEvent (h : InHand s s' runId t) {e : EventRecord} (he : Silent t e) :
    InHand s (s'.addEvents [e]) runId t where
  status := h.status
  run := h.run
  backend := h.backend
  artifacts := h.artifacts
  runs := h.runs
  tasks := h.tasks
  events := silent_addEvent h.events he

theorem InHand.onRun (h : InHand s s' runId t) (ho : OnRun runId s' s'') :
    InHand s s'' runId t where
  status := by rw [StateStore.statusOf, ho.task?, ← StateStore.statusOf]; exact h.status
  run := fun hn => by
    have := ho.seed
    rw [hn] at this
    exact h.run (Option.map_eq_none_iff.mp this.symm)
  backend := ho.backend.trans h.backend
  artifacts := ho.artifacts.trans h.artifacts
  runs := fun id => by
    by_cases hid : id = runId
    · subst hid
      have := congrArg Option.isSome ho.seed
      rw [Option.isSome_map, Option.isSome_map] at this
      exact this.trans (h.runs id)
    · rw [ho.others id hid]; exact h.runs id
  tasks := fun id => by rw [ho.task?]; exact h.tasks id
  events := by
    obtain ⟨es, hes, hsil⟩ := h.events
    obtain ⟨es', hes', hnone⟩ := ho.events
    refine ⟨es ++ es', by rw [hes', hes, List.append_assoc], fun e hm => ?_⟩
    rcases List.mem_append.mp hm with hm | hm
    · exact hsil e hm
    · exact fun ht => by rw [hnone e hm] at ht; cases ht

theorem InHand.settle (h : InHand s s' runId t) {r : Option Dict} {e : Option String} :
    Unreported s (s'.modifyTask t (·.settle st r e) (·.settle_taskId _ _ _)) runId t st where
  status := by
    obtain ⟨row, hrow⟩ := Option.ne_none_iff_exists'.mp h.task
    rw [StateStore.statusOf_modifyTask hrow, if_pos rfl]
    rfl
  run := h.run
  events := h.events

theorem Unreported.addArtifact (h : Unreported s s' runId t st) (a : ArtifactRecord) :
    Unreported s (s'.addArtifact a) runId t st := ⟨h.status, h.run, h.events⟩

theorem InHand.keep (h : InHand s s' runId t) (r : Option Dict) : s'.keep r = s.keep r := by
  unfold StateStore.keep
  rw [h.backend]

theorem InHand.acceptsArtifact (h : InHand s s' runId t) {r : Option Dict} {e : Option String}
    (a : ArtifactRecord) :
    (s'.modifyTask t (·.settle st r e) (·.settle_taskId _ _ _)).acceptsArtifact a =
      s.acceptsArtifact a := by
  have htask : ∀ id, ((s'.modifyTask t (·.settle st r e) (·.settle_taskId _ _ _)).task? id).isSome =
      (s.task? id).isSome := by
    intro id
    rw [StateStore.modifyTask_task?, ← h.tasks id]
    split
    next hid => subst hid; rw [Option.isSome_map]
    next => rfl
  unfold StateStore.acceptsArtifact
  rw [StateStore.modifyTask_backend, h.backend, StateStore.modifyTask_run?, h.runs]
  simp only [htask]
  have hart : (s'.modifyTask t (·.settle st r e) (·.settle_taskId _ _ _)).tables.artifacts =
      s.tables.artifacts := h.artifacts
  rw [hart]

/-- The OOM requeues on record have not changed. -/
theorem InHand.oomRequeues (h : InHand s s' runId t) :
    LocalWorker.oomRequeues t (s'.eventsOf runId) = LocalWorker.oomRequeues t (s.eventsOf runId) := by
  obtain ⟨es, hes, hsil⟩ := h.events
  unfold LocalWorker.oomRequeues StateStore.eventsOf
  rw [hes, List.filter_append, List.filter_append, List.length_append]
  have hnil : (es.filter fun e => e.runId = runId).filter (fun e =>
      e.taskId = some t ∧ e.kind = "task_oom_requeued") = [] := by
    rw [List.filter_eq_nil_iff]
    intro e hm
    simp only [decide_eq_true_eq, not_and]
    intro ht hk
    exact hsil e (List.mem_of_mem_filter hm) ht .pending (by rw [hk]; decide)
  rw [hnil]
  rfl

end States
/-! ## The blocks of `run_once` -/

theorem alone_fire_applied {r : HookRegistry} {h : HookCall} {ans : Answers}
    {s : StateStore} {c : List TaskId} {Q : HookCall → Ledger → Prop}
    {E : PyExc → Ledger → Prop} (hq : Q (r.applied ans.ext h) ⟨s, c⟩) :
    (r.fire h).wp (alone (.exactly ans)) Q E ⟨s, c⟩ := by
  have hf : ∀ fns h, Q (HookRegistry.appliedAll ans.ext fns h) ⟨s, c⟩ →
      (HookRegistry.fireAll fns h).wp (alone (.exactly ans)) Q E ⟨s, c⟩ := by
    intro fns
    induction fns with
    | nil => exact fun h hq => hq
    | cons fn fns ih =>
      intro h hq
      refine (wp_bind _ _).mpr (alone_ask.mpr fun m hm => ?_)
      obtain rfl : m = ans.ext (.hook fn.qualname h) := hm
      exact ih _ hq
  exact hf _ _ hq

/-- However the program ends, the task is accounted for exactly if `c` holds. -/
def Decides {α : Type} (ans : Answers) (s : StateStore) (t : TaskId) (p : Prog α)
    (c : Prop) (l : Ledger) : Prop :=
  p.wp (alone (.exactly ans)) (fun _ l' => Accounted s l'.store t ↔ c)
    (fun _ l' => Accounted s l'.store t ↔ c) l

section Decides

variable {α β : Type} {ans : Answers} {s s' : StateStore} {t : TaskId} {c : Prop}
  {cs : List TaskId} {runId : RunId} {st : TaskStatus}

theorem Decides.congr {p : Prog α} {c' : Prop} {l : Ledger} (h : Decides ans s t p c l)
    (hc : c ↔ c') : Decides ans s t p c' l := by
  rwa [← propext hc]

theorem Quiet.exec {op : StoreOp} (h : Quiet (.store op)) (clk : Clock) (s : StateStore) :
    (s.exec op clk).2.tables.tasks = s.tables.tasks :=
  h.perform_tasks { Answers.steady 0 (.ok .none) with clock := clk } s

/-- Once the outcome is on record, quiet requests do not matter. -/
theorem Accounted.rest (h : Accounted s s' t) {p : Prog α} (hp : p.Only Quiet) (hc : c) :
    Decides ans s t p c ⟨s', cs⟩ := by
  refine wp_mono (wp_keep_of_only (I := fun l => Accounted s l.store t) hp
    (fun l e hI hq => ⟨alone_may id l e, fun r l' hl => ?_⟩) h)
    (fun _ _ hI => iff_of_true hI hc) (fun _ _ hI => iff_of_true hI hc)
  cases e with
  | ext x => obtain ⟨-, rfl⟩ := hl; exact hI
  | store op =>
    obtain ⟨-, clk, -, hx⟩ := hl
    have htasks := Quiet.exec hq clk l.store
    have hev := l.store.exec_events clk op
    rw [hx] at htasks hev
    exact hI.quiet htasks hev

end Decides

namespace LocalWorker

variable (pf : Platform) (w : LocalWorker) {ans : Answers} {s s' : StateStore}
  {cs : List TaskId} {a : Attempt}

theorem silent_of_kind {t : TaskId} {e : EventRecord} {kind : String} (h : e.kind = kind)
    (hk : ∀ st : TaskStatus, kind ∉ st.outcomeKinds) : Silent t e :=
  fun _ st => by rw [h]; exact hk st

end LocalWorker

/-! ## From the lease to the handler -/

namespace LocalWorker

variable (pf : Platform) (w : LocalWorker) {ans : Answers} {s : StateStore}
  {cs : List TaskId} {runId : RunId} {t : TaskRecord}

theorem marked_silent (w : WorkerId) (expiry : Instant) :
    ∃ es, (marked s t w expiry).events = s.events ++ es ∧ ∀ e ∈ es, Silent t.taskId e := by
  refine ⟨StateStore.takeover t w, rfl, fun e hm => ?_⟩
  unfold StateStore.takeover at hm
  split at hm
  · cases hm
  · rw [List.mem_singleton.mp hm]
    exact silent_of_kind (show _ = "lease_expired" from rfl) fun st => by cases st <;> decide

theorem marked_inHand (ht : s.task? t.taskId = some t) (hr : s.run? runId ≠ none)
    (w : WorkerId) (expiry : Instant) : InHand s (marked s t w expiry) runId t.taskId where
  status := StateStore.statusOf_eq (marked_task? ht w expiry)
  run := hr
  events := marked_silent w expiry
  backend := rfl
  artifacts := rfl
  runs := fun _ => rfl
  tasks := fun id => by
    by_cases hid : id = t.taskId
    · subst hid; rw [marked_task? ht, ht]; rfl
    · rw [marked_other hid]

theorem marked_event {a : Attempt} {e : EventRecord} (he : Numbers a "task_running" e)
    (t : TaskId) : Silent t e :=
  silent_of_kind he.kind fun st => by cases st <;> decide

end LocalWorker

end FineTuneHarness
