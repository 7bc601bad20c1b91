import FineTuneHarness.Executor.Fleet
import FineTuneHarness.Orchestrator.Creation
import FineTuneHarness.Safety.TerminalTasks

/-!
# What the schema promises

The callers of a database are arbitrary, as for `terminal_task_frozen`. Whatever they call, no row
refers to a run or a task that is not there, and no two tasks of a run have the same key. Callers
who leave leasing to `lease_next_pending_task` and `mark_task_running` also find every lease with
its owner and its expiry, and no owner without a lease.
-/
namespace FineTuneHarness

open Library

/-- The task is leased or runs. -/
def TaskRecord.held (t : TaskRecord) : Prop := t.status = .leased ∨ t.status = .running

/-- Owner and expiry are set while the task is held, and only then. -/
structure TaskRecord.Coherent (t : TaskRecord) : Prop where
  owner : t.leaseOwner.isSome = true ↔ t.held
  expiry : t.leasedUntil.isSome = true ↔ t.held

theorem TaskRecord.Coherent.of_free {t : TaskRecord} (howner : t.leaseOwner = none)
    (hexpiry : t.leasedUntil = none) (hfree : ¬ t.held) : t.Coherent where
  owner := iff_of_false (by rw [howner]; exact Bool.false_ne_true) hfree
  expiry := iff_of_false (by rw [hexpiry]; exact Bool.false_ne_true) hfree

/-- A call that makes no lease of its own: tasks are created coherent, and updated to what is
neither leased nor running. -/
def StoreOp.Ordinary : StoreOp → Prop
  | .createTask t => t.Coherent
  | .updateTaskStatus _ st _ _ => st ≠ .leased ∧ st ≠ .running
  | _ => True

namespace StateStore

/-- The run is on record, and so is the task if there is one. -/
structure Names (s : StateStore) (runId : RunId) (taskId : Option TaskId) : Prop where
  run : s.run? runId ≠ none
  task : ∀ id, taskId = some id → s.task? id ≠ none

/-- References lead somewhere, and keys tell the tasks of a run apart. -/
structure Integral (s : StateStore) : Prop where
  tasks : ∀ id t, s.task? id = some t → s.run? t.runId ≠ none
  keys : ∀ id id' t t', s.task? id = some t → s.task? id' = some t' → t.runId = t'.runId →
    t.taskKey = t'.taskKey → id = id'
  events : ∀ e ∈ s.events, s.Names e.runId e.taskId
  artifacts : ∀ a ∈ s.tables.artifacts, s.Names a.runId a.taskId
  artifactIds : (s.tables.artifacts.map (·.artifactId)).Nodup

/-- Every task of the store is coherent. -/
def Leased (s : StateStore) : Prop := ∀ id t, s.task? id = some t → t.Coherent

variable {s s' : StateStore} {clk : Clock}

/-! ## Growth -/

/-- Nothing that is on record is lost. -/
structure Retains (s s' : StateStore) : Prop where
  runs : ∀ id, s.run? id ≠ none → s'.run? id ≠ none
  tasks : ∀ id, s.task? id ≠ none → s'.task? id ≠ none

theorem Retains.names (h : Retains s s') {runId : RunId} {taskId : Option TaskId}
    (hn : s.Names runId taskId) : s'.Names runId taskId :=
  ⟨h.runs _ hn.run, fun id hid => h.tasks _ (hn.task id hid)⟩

theorem keeps_or_creates (op : StoreOp) : keepsTasks op ∨ ∃ t, op = .createTask t := by
  cases op with
  | createTask t => exact .inr ⟨t, rfl⟩
  | _ => exact .inl trivial

theorem exec_retains (s : StateStore) (op : StoreOp) (clk : Clock) :
    Retains s (s.exec op clk).2 where
  runs := by
    intro id hid
    obtain ⟨r, hr⟩ := Option.ne_none_iff_exists'.mp hid
    rw [s.exec_run? clk hr op]
    exact Option.some_ne_none _
  tasks := by
    intro id hid
    obtain ⟨t, ht⟩ := Option.ne_none_iff_exists'.mp hid
    rcases keeps_or_creates op with hkeeps | ⟨t', rfl⟩
    · obtain ⟨t', ht', -⟩ := (s.exec_evolves clk hkeeps).forward ht
      rw [ht']
      exact Option.some_ne_none _
    · rcases s.createTask_cases clk t' with ⟨payload, result, hnew, hx⟩ | ⟨e, hx⟩ <;> rw [hx]
      · rw [addTask_task?]
        split
        · exact Option.some_ne_none _
        · exact hid
      · exact hid

/-! ## Checks -/

/-- What SQLite asks of a new task. -/
theorem createTask_checked (hb : s.backend = .sqlite) (t : TaskRecord) :
    (∃ payload result h, s.exec (.createTask t) clk =
      (.ok (), s.addTask { t with payload, result } h) ∧ s.run? t.runId ≠ none ∧
        ∀ id t', s.task? id = some t' → t'.runId = t.runId → t'.taskKey ≠ t.taskKey) ∨
    ∃ e, s.exec (.createTask t) clk = (.error e, s) := by
  obtain ⟨b, m⟩ := s
  obtain rfl : b = .sqlite := hb
  simp only [exec, commit, Sqlite.createTask, bind, Except.bind]
  cases t.payload.throughJson with
  | error e => exact .inr ⟨e, rfl⟩
  | ok payload =>
  cases Sqlite.jsonColumn t.result with
  | error e => exact .inr ⟨e, rfl⟩
  | ok result =>
  by_cases h : t.taskId ∈ m.tasks.rows.map (·.taskId)
  · exact .inr ⟨_, by simp only [dif_pos h]; rfl⟩
  by_cases hk : m.tasks.rows.any (fun t' => t'.runId = t.runId ∧ t'.taskKey = t.taskKey) = true
  · exact .inr ⟨_, by simp only [dif_neg h, if_pos hk]; rfl⟩
  by_cases hr : m.runs.find? t.runId = none
  · exact .inr ⟨_, by simp only [dif_neg h, if_neg hk, if_pos hr]; rfl⟩
  refine .inl ⟨payload, result, h, by simp only [dif_neg h, if_neg hk, if_neg hr]; rfl, hr, ?_⟩
  intro id t' ht' hrun hkey
  have hrow := (Table.find?_eq_some_iff.mp ht').1
  exact hk (List.any_eq_true.mpr ⟨t', hrow, decide_eq_true ⟨hrun, hkey⟩⟩)

theorem keepEvent_named (hb : s.backend = .sqlite) {e e' : EventRecord}
    (h : s.keepEvent e = .ok e') : s.Names e'.runId e'.taskId := by
  obtain ⟨hrunId, htaskId, -⟩ := s.keepEvent_ok h
  rw [hrunId, htaskId]
  unfold keepEvent at h
  rw [hb] at h
  dsimp only at h
  split at h
  · cases h
  split at h
  · cases h
  next hrun =>
    split at h
    · cases h
    next htask =>
      refine ⟨hrun, fun id hid hnone => htask ?_⟩
      rw [hid]
      exact decide_eq_true hnone

/-- What SQLite asks of a new artifact. -/
theorem acceptsArtifact_checked (hb : s.backend = .sqlite) {a : ArtifactRecord}
    (h : s.acceptsArtifact a = true) :
    a.artifactId ∉ s.tables.artifacts.map (·.artifactId) ∧ s.Names a.runId a.taskId := by
  rw [acceptsArtifact, hb] at h
  simp only [Bool.and_eq_true, decide_eq_true_eq, Option.all_eq_true] at h
  obtain ⟨⟨hnew, hrun⟩, htask⟩ := h
  refine ⟨hnew, Option.ne_none_iff_isSome.mpr hrun, fun id hid => ?_⟩
  exact Option.ne_none_iff_isSome.mpr (htask id hid)

/-- An event that a call adds names a run and a task on record. -/
theorem exec_event_named (hb : s.backend = .sqlite) (h : s.Integral) (op : StoreOp)
    {e : EventRecord} (he : e ∈ (s.exec op clk).2.events) :
    e ∈ s.events ∨ s.Names e.runId e.taskId := by
  have hrow : ∀ t, s.task? t.taskId = some t → s.Names t.runId (some t.taskId) := by
    intro t ht
    refine ⟨h.tasks _ t ht, fun id hid => ?_⟩
    obtain rfl := Option.some.inj hid
    rw [ht]
    exact Option.some_ne_none _
  cases op with
  | appendEvent e' =>
    rw [s.exec_appendEvent] at he
    cases hk : s.keepEvent e' with
    | error x => rw [hk] at he; exact .inl he
    | ok kept =>
      rw [hk] at he
      rcases List.mem_append.mp he with he | he
      · exact .inl he
      · obtain rfl := List.mem_singleton.mp he
        exact .inr (keepEvent_named hb hk)
  | leaseNextPendingTask runId w n =>
    rw [s.exec_leaseNextPendingTask] at he
    cases hnext : s.nextLeaseable runId clk.now with
    | none => rw [hnext] at he; exact .inl he
    | some t =>
      rw [hnext] at he
      rcases List.mem_append.mp he with he | he
      · exact .inl he
      · unfold takeover at he
        split at he
        · cases he
        · obtain rfl := List.mem_singleton.mp he
          exact .inr (hrow t (s.nextLeaseable_some hnext).1)
  | requeueExpiredLeases runId =>
    rw [s.exec_requeueExpiredLeases] at he
    rcases List.mem_append.mp he with he | he
    · exact .inl he
    · obtain ⟨t, ht, rfl⟩ := List.mem_map.mp he
      exact .inr (hrow t (Table.find?_eq_some_iff.mpr ⟨(List.mem_filter.mp ht).1, rfl⟩))
  | reclaimDeadWorker runId w n =>
    rcases s.reclaim_cases clk runId w n with ⟨t, f, es, ht, hrun, -, -, hes, hid, hx⟩ | ⟨-, hx⟩
    · rw [hx] at he
      have hnames : s.Names runId (some t.taskId) := hrun ▸ hrow t ht
      rcases List.mem_append.mp he with he | he
      · exact .inl he
      · rcases hes with ⟨-, -, -, rfl⟩ | ⟨-, -, -, rfl⟩
        · obtain rfl := List.mem_singleton.mp he
          exact .inr hnames
        · obtain rfl := List.mem_singleton.mp he
          exact .inr hnames
    · rw [hx] at he
      exact .inl he
  | _ =>
    obtain ⟨es, hes, hlogs⟩ := s.exec_logs clk _
    rw [hes] at he
    rcases List.mem_append.mp he with he | he
    · exact .inl he
    · exact (hlogs e he).elim

/-- Only `create_artifact` adds an artifact, and it adds one. -/
theorem exec_artifacts (s : StateStore) (op : StoreOp) (clk : Clock) :
    (s.exec op clk).2.tables.artifacts = s.tables.artifacts ∨
    ∃ a, s.acceptsArtifact a = true ∧
      (s.exec op clk).2.tables.artifacts = s.tables.artifacts ++ [a] := by
  have hsame : ∀ {r : Except PyExc op.Reply} {s' : StateStore}, s.exec op clk = (r, s') →
      s'.tables.artifacts = s.tables.artifacts →
      (s.exec op clk).2.tables.artifacts = s.tables.artifacts := fun hx h => by rw [hx]; exact h
  cases op with
  | createArtifact a =>
    have hx := s.exec_createArtifact_of clk a
    split at hx
    next haccepts => exact .inr ⟨a, haccepts, by rw [hx]; rfl⟩
    next =>
      obtain ⟨e, hx⟩ := hx
      exact .inl (hsame hx rfl)
  | createRun r =>
    rcases s.createRun_cases clk r with ⟨r', h, hx, -⟩ | ⟨e, hx⟩ <;> exact .inl (hsame hx rfl)
  | createTask t =>
    rcases s.createTask_cases clk t with ⟨p, r, h, hx⟩ | ⟨e, hx⟩ <;> exact .inl (hsame hx rfl)
  | updateRunStatus id st =>
    cases hr : s.run? id with
    | some r => exact .inl (hsame (s.exec_updateRunStatus clk hr st) rfl)
    | none =>
      obtain ⟨x, hx⟩ := s.exec_updateRunStatus_none clk hr st
      exact .inl (hsame hx rfl)
  | updateRunFinishedAt id t =>
    cases hr : s.run? id with
    | some r => exact .inl (hsame (s.exec_updateRunFinishedAt clk hr t) rfl)
    | none =>
      obtain ⟨x, hx⟩ := s.exec_updateRunFinishedAt_none clk hr t
      exact .inl (hsame hx rfl)
  | getRun id => exact .inl (hsame (s.exec_getRun clk id) rfl)
  | listRuns => exact .inl (hsame (s.exec_listRuns clk) rfl)
  | listTasks id => exact .inl (hsame (s.exec_listTasks clk id) rfl)
  | listArtifacts id => exact .inl (hsame (s.exec_listArtifacts clk id) rfl)
  | listEvents id => exact .inl (hsame (s.exec_listEvents clk id) rfl)
  | appendEvent e =>
    have hx := s.exec_appendEvent clk e
    split at hx <;> exact .inl (hsame hx rfl)
  | updateTaskStatus id st r e =>
    rcases s.update_cases clk id st r e with ⟨t, r', -, -, -, hx⟩ | ⟨x, hx, -⟩ <;>
      exact .inl (hsame hx rfl)
  | leaseNextPendingTask runId w n =>
    rcases s.lease_cases clk runId w n with ⟨t, es, -, -, -, hx⟩ | ⟨-, hx⟩ <;>
      exact .inl (hsame hx rfl)
  | markTaskRunning id =>
    rcases s.mark_cases clk id with ⟨t, -, -, hx⟩ | ⟨-, hx⟩ <;> exact .inl (hsame hx rfl)
  | incrementTaskAttempts id =>
    rcases s.increment_cases clk id with ⟨t, -, hx⟩ | ⟨x, hx⟩ <;> exact .inl (hsame hx rfl)
  | requeueExpiredLeases runId => exact .inl (hsame (s.exec_requeueExpiredLeases clk runId) rfl)
  | reclaimDeadWorker runId w n =>
    rcases s.reclaim_cases clk runId w n with ⟨t, f, es, -, -, -, -, -, hid, hx⟩ | ⟨-, hx⟩
    · exact .inl (by rw [hx]; rfl)
    · exact .inl (hsame hx rfl)

/-! ## One call -/

theorem Integral.exec_keys (h : s.Integral) (hb : s.backend = .sqlite) (op : StoreOp)
    {id id' : TaskId} {t t' : TaskRecord} (ht : (s.exec op clk).2.task? id = some t)
    (ht' : (s.exec op clk).2.task? id' = some t') (hrun : t.runId = t'.runId)
    (hkey : t.taskKey = t'.taskKey) : id = id' := by
  rcases keeps_or_creates op with hkeeps | ⟨new, rfl⟩
  · obtain ⟨t₀, ht₀, hlater⟩ := (s.exec_evolves clk hkeeps).backward ht
    obtain ⟨t₁, ht₁, hlater'⟩ := (s.exec_evolves clk hkeeps).backward ht'
    refine h.keys id id' t₀ t₁ ht₀ ht₁ ?_ ?_
    · rw [← hlater.runId, hrun, hlater'.runId]
    · rw [← hlater.taskKey, hkey, hlater'.taskKey]
  · rcases createTask_checked hb new with ⟨p, r, hnew, hx, -, hfree⟩ | ⟨e, hx⟩
    · rw [hx] at ht ht'
      rw [addTask_task?] at ht ht'
      split at ht <;> split at ht'
      next hid hid' => rw [hid, hid']
      next hid _ =>
        obtain rfl := Option.some.inj ht
        exact absurd hkey.symm (hfree id' t' ht' hrun.symm)
      next _ hid' =>
        obtain rfl := Option.some.inj ht'
        exact absurd hkey (hfree id t ht hrun)
      next => exact h.keys id id' t t' ht ht' hrun hkey
    · rw [hx] at ht ht'
      exact h.keys id id' t t' ht ht' hrun hkey

theorem Integral.exec_tasks (h : s.Integral) (hb : s.backend = .sqlite) (op : StoreOp)
    {id : TaskId} {t : TaskRecord} (ht : (s.exec op clk).2.task? id = some t) :
    (s.exec op clk).2.run? t.runId ≠ none := by
  have hretains := s.exec_retains op clk
  rcases keeps_or_creates op with hkeeps | ⟨new, rfl⟩
  · obtain ⟨t₀, ht₀, hlater⟩ := (s.exec_evolves clk hkeeps).backward ht
    rw [hlater.runId]
    exact hretains.runs _ (h.tasks id t₀ ht₀)
  · apply hretains.runs
    rcases createTask_checked hb new with ⟨p, r, hnew, hx, hrun, -⟩ | ⟨e, hx⟩
    · rw [hx, addTask_task?] at ht
      split at ht
      · obtain rfl := Option.some.inj ht
        exact hrun
      · exact h.tasks id t ht
    · rw [hx] at ht
      exact h.tasks id t ht

/-- **One call** keeps what the schema promises. -/
theorem Integral.exec (h : s.Integral) (hb : s.backend = .sqlite) (op : StoreOp) (clk : Clock) :
    (s.exec op clk).2.Integral := by
  have hretains := s.exec_retains op clk
  refine ⟨fun _ _ ht => h.exec_tasks hb op ht,
    fun _ _ _ _ ht ht' hrun hkey => h.exec_keys hb op ht ht' hrun hkey, fun e he => ?_, ?_, ?_⟩
  · rcases exec_event_named hb h op he with he | hnames
    · exact hretains.names (h.events e he)
    · exact hretains.names hnames
  · intro a ha
    rcases s.exec_artifacts op clk with hx | ⟨new, haccepts, hx⟩
    · exact hretains.names (h.artifacts a (hx ▸ ha))
    · rw [hx] at ha
      rcases List.mem_append.mp ha with ha | ha
      · exact hretains.names (h.artifacts a ha)
      · obtain rfl := List.mem_singleton.mp ha
        exact hretains.names (acceptsArtifact_checked hb haccepts).2
  · rcases s.exec_artifacts op clk with hx | ⟨new, haccepts, hx⟩
    · rw [hx]
      exact h.artifactIds
    · rw [hx, List.map_append, List.nodup_append]
      refine ⟨h.artifactIds, List.nodup_singleton _, fun i hi j hj hij => ?_⟩
      obtain rfl := List.mem_singleton.mp hj
      rw [hij] at hi
      exact (acceptsArtifact_checked hb haccepts).1 hi

/-- **One ordinary call** keeps leases, owners and expiries together, in either store. -/
theorem Leased.exec (h : s.Leased) {op : StoreOp} (hop : op.Ordinary) (clk : Clock) :
    (s.exec op clk).2.Leased := by
  intro id t' ht'
  rcases keeps_or_creates op with hkeeps | ⟨new, rfl⟩
  · obtain ⟨t, ht, -⟩ := (s.exec_evolves clk hkeeps).backward ht'
    have hcoherent := h id t ht
    cases exec_row_some clk hkeeps ht ht' with
    | same => exact hcoherent
    | count => exact ⟨hcoherent.owner, hcoherent.expiry⟩
    | lease run free => exact ⟨iff_of_true rfl (.inl rfl), iff_of_true rfl (.inl rfl)⟩
    | mark leased =>
      exact ⟨iff_of_true (hcoherent.owner.mpr (.inl leased)) (.inr rfl),
        iff_of_true (hcoherent.expiry.mpr (.inl leased)) (.inr rfl)⟩
    | settle edge kept => exact .of_free rfl rfl fun hheld => hheld.elim hop.1 hop.2
    | expire | reclaim => exact .of_free rfl rfl fun hheld => by rcases hheld with h | h <;> cases h
    | abandon => exact .of_free rfl rfl fun hheld => by rcases hheld with h | h <;> cases h
  · rcases s.createTask_cases clk new with ⟨p, r, hnew, hx⟩ | ⟨e, hx⟩
    · rw [hx, addTask_task?] at ht'
      split at ht'
      · obtain rfl := Option.some.inj ht'
        exact ⟨hop.owner, hop.expiry⟩
      · exact h id t' ht'
    · rw [hx] at ht'
      exact h id t' ht'

theorem empty_integral (b : Backend) : (StateStore.empty b).Integral where
  tasks := fun _ _ ht => by cases ht
  keys := fun _ _ _ _ ht => by cases ht
  events := fun _ he => by cases he
  artifacts := fun _ ha => by cases ha
  artifactIds := List.nodup_nil

end StateStore

/-! ## Any calls -/

/-- **A database keeps its promises.** Whatever calls are made on a database, one after the other,
by any callers and with any arguments, carried out or refused: every task, event and artifact
refers to a run on record, and to a task on record if to any; keys tell the tasks of a run apart,
and artifacts have ids of their own. If no call makes a lease of its own, a task has an owner, and
an expiry, exactly while it is leased or runs. -/
theorem database_integral {C : StateStore → StoreOp × Clock → Prop} {s : StateStore}
    (h : callers.Steps C (.empty .sqlite) s) :
    s.Integral ∧ ((∀ s c, C s c → c.1.Ordinary) → s.Leased) := by
  have hintegral : s.backend = .sqlite ∧ s.Integral := by
    refine h.invariant (I := fun s => s.backend = .sqlite ∧ s.Integral)
      ⟨rfl, StateStore.empty_integral _⟩ fun s₁ c s₂ hs₁ _ hstep => ?_
    obtain rfl := Option.some.inj hstep
    exact ⟨(s₁.exec_backend c.2 c.1).trans hs₁.1, hs₁.2.exec hs₁.1 c.1 c.2⟩
  refine ⟨hintegral.2, fun hordinary => ?_⟩
  refine h.invariant (I := StateStore.Leased) (fun _ _ ht => by cases ht)
    fun s₁ c s₂ hs₁ hc hstep => ?_
  obtain rfl := Option.some.inj hstep
  exact hs₁.exec (hordinary s₁ c hc) c.2

/-- A task is created, created again, leased and marked, and reported under a wrong run. -/
def integrityCalls : List (StoreOp × Clock) :=
  [.createRun { runId := "r", name := "demo", status := .validated, config := [], createdAt := 0 },
    .createTask (pendingTask "a" []), .createTask (pendingTask "a" []),
    .leaseNextPendingTask "r" "A" 300, .markTaskRunning "a",
    .appendEvent { runId := "other", taskId := some "a", kind := "task_running" },
    .appendEvent { runId := "r", taskId := some "a", kind := "task_running" }].map (·, ⟨0, 0⟩)

theorem database_integral_running :
    ∃ s, callers.run (.empty .sqlite) integrityCalls = some s ∧ s.Integral ∧ s.Leased ∧
      s.statusOf "a" = some .running ∧ s.events.length = 1 := by
  have hordinary : ∀ c ∈ integrityCalls, ∀ _ : StateStore, c.1.Ordinary := by
    have hpending : (pendingTask "a" []).Coherent :=
      .of_free rfl rfl fun hheld => by rcases hheld with h | h <;> cases h
    intro c hc _
    simp only [integrityCalls, List.map_cons, List.map_nil, List.mem_cons, List.not_mem_nil,
      or_false] at hc
    rcases hc with rfl | rfl | rfl | rfl | rfl | rfl | rfl <;> first | exact hpending | trivial
  have hend : (callers.run (.empty .sqlite) integrityCalls).map
      (fun s => (s.statusOf "a", s.events.length)) = some (some .running, 1) := by decide +kernel
  obtain ⟨s, hrun, hs⟩ := Option.map_eq_some_iff.mp hend
  obtain ⟨hintegral, hleased⟩ := database_integral
    (Machine.steps_of_run hrun (Machine.along_of_forall hordinary _))
  exact ⟨s, hrun, hintegral, hleased fun _ _ h => h, congrArg Prod.fst hs, congrArg Prod.snd hs⟩

end FineTuneHarness
