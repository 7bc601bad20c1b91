import FineTuneHarness.Executor.Closing
import FineTuneHarness.Orchestrator.Creation

/-!
# What a program may log

A store call appends events of its own kind only, so the calls a program can make bound the
events it can leave behind.
-/
namespace FineTuneHarness

open Library Library.Program

/-- Whatever the request appends to the event log meets `P`. -/
def Appends (P : EventRecord → Prop) : Effect → Prop
  | .ext _ => True
  | .store op => ∀ e, StateStore.Logs op e → P e

section Alone

variable {P P' : EventRecord → Prop}

theorem Appends.call {op : StoreOp} (h : ∀ e, StateStore.Logs op e → P e) :
    (call op).Only (Appends P) := by
  simp only [Only, wp_call]
  exact ⟨h, fun r _ _ => by cases r <;> trivial⟩

theorem Appends.ask (x : Ext) : (ask x).Only (Appends P) := ⟨trivial, fun _ _ _ => trivial⟩

/-- The event itself decides what an `append_event` may append. -/
theorem Appends.event {e : EventRecord}
    (h : ∀ e' : EventRecord, e'.runId = e.runId → e'.taskId = e.taskId → e'.kind = e.kind → P e') :
    (FineTuneHarness.call (.appendEvent e)).Only (Appends P) :=
  Appends.call fun e' he' => h e' he'.1 he'.2.1 he'.2.2

/-- **The events a program leaves behind.** -/
theorem alone_appends {ok : Admits} (hok : ¬ ok.refreshable) {α : Type} {p : Prog α}
    (hp : p.Only (Appends P)) (l : Ledger) :
    p.wp (alone ok)
      (fun _ l' => ∃ es, l'.store.events = l.store.events ++ es ∧ ∀ e ∈ es, P e)
      (fun _ l' => ∃ es, l'.store.events = l.store.events ++ es ∧ ∀ e ∈ es, P e) l := by
  refine wp_keep_of_only
    (I := fun l' : Ledger => ∃ es, l'.store.events = l.store.events ++ es ∧ ∀ e ∈ es, P e)
    hp (fun l' e hl he => ?_) ⟨[], (List.append_nil _).symm, by simp⟩
  refine ⟨alone_may hok l' e, fun reply l'' hlearn => ?_⟩
  obtain ⟨es, hes, hP⟩ := hl
  cases e with
  | store op =>
    obtain ⟨-, clk, -, hx⟩ := hlearn
    obtain ⟨es', hes', hlogs⟩ := l'.store.exec_logs clk op
    rw [hx] at hes'
    refine ⟨es ++ es', by rw [hes', hes, List.append_assoc], fun e he' => ?_⟩
    exact (List.mem_append.mp he').elim (hP e) fun h => he e (hlogs e h)
  | ext x =>
    obtain ⟨-, rfl⟩ := hlearn
    exact ⟨es, hes, hP⟩

end Alone

/-! ## `create_run` -/

def creationKinds : List String := ["run_created", "run_validated", "task_created"]

theorem createRun_appends (pf : Platform) (name : String) (config : Dict) (payloads : List Dict) :
    (createRun pf name config payloads).Only (Appends fun e => e.kind ∈ creationKinds) := by
  have hevent : ∀ (runId : RunId) (kind : String) (payload : List (String × PyVal)),
      kind ∈ creationKinds →
      (record runId none kind payload).Only (Appends fun e => e.kind ∈ creationKinds) := by
    intro runId kind payload hkind
    exact Appends.event fun e _ _ he => he.symm ▸ hkind
  refine only_bind (only_ofExcept _) fun seed => only_bind (Appends.ask _) fun runId =>
    only_bind (only_ofExcept _) fun configHash => only_bind (Appends.ask _) fun createdAt =>
    only_bind (Appends.ask _) fun env => only_bind (Appends.call fun e he => he.elim) fun _ =>
    only_bind (hevent _ _ _ (by decide)) fun _ => only_bind (only_ofExcept _) fun _ =>
    only_bind (Appends.call fun e he => he.elim) fun _ =>
    only_bind (hevent _ _ _ (by decide)) fun _ => only_bind ?_ fun _ => only_pure _
  refine (createTasks_only payloads 0).mono fun e he => ?_
  cases e with
  | ext x => trivial
  | store op =>
    cases op <;> try exact he.elim
    case createTask t => exact fun _ hlog => hlog.elim
    case appendEvent ev =>
      intro e' hlog
      have hkind : e'.kind = "task_created" := hlog.2.2.trans he
      rw [hkind]
      decide

/-! ## A worker -/

def workerKinds : List String :=
  ["drain_started", "lease_expired", "task_running", "hook_fired", "run_status_changed",
    "task_succeeded", "task_failed", "task_retry_scheduled", "task_timed_out", "task_degenerate",
    oomRequeuedKind]

/-- An event that a worker of the run may log. -/
def OfWorker (runId : RunId) (e : EventRecord) : Prop := e.runId = runId ∧ e.kind ∈ workerKinds

section Worker

variable {runId : RunId}

/-- A call that logs nothing. -/
theorem OfWorker.call {op : StoreOp} (h : ∀ e, ¬ StateStore.Logs op e) :
    (FineTuneHarness.call op).Only (Appends (OfWorker runId)) :=
  Appends.call fun e he => absurd he (h e)

theorem OfWorker.record {taskId : Option TaskId} {kind : String} {payload : List (String × PyVal)}
    (h : kind ∈ workerKinds) :
    (FineTuneHarness.record runId taskId kind payload).Only (Appends (OfWorker runId)) :=
  Appends.event fun _ hrun _ hkind => ⟨hrun, hkind.symm ▸ h⟩

theorem OfWorker.event {ev : EventRecord} {kinds : List String} (hrun : ev.runId = runId)
    (hkind : ev.kind ∈ kinds) (h : kinds ⊆ workerKinds) :
    Appends (OfWorker runId) (.store (.appendEvent ev)) := by
  intro e hlog
  constructor
  · exact hlog.1.trans hrun
  · rw [hlog.2.2]
    exact h hkind

theorem Closing.ofWorker {a : Attempt} {sts : List TaskStatus} {e : Effect} (h : Closing a sts e) :
    Appends (OfWorker a.runId) e := by
  cases e with
  | ext x => trivial
  | store op =>
    cases op <;> try exact h.elim
    case appendEvent ev => exact OfWorker.event h.1 h.2 (by decide)
    all_goals exact fun _ hlog => hlog.elim

theorem Routine.ofWorker {e : Effect} (h : Routine runId e) : Appends (OfWorker runId) e := by
  cases e with
  | ext x => trivial
  | store op =>
    cases op <;> try exact h.elim
    case appendEvent ev => exact OfWorker.event h.1 h.2 (by decide)
    all_goals exact fun _ hlog => hlog.elim

theorem only_ofWorker {α : Type} {p : Prog α} (h : p.Only (Routine runId)) :
    p.Only (Appends (OfWorker runId)) :=
  h.mono fun _ => Routine.ofWorker

end Worker

namespace LocalWorker

variable (pf : Platform) (w : LocalWorker)

theorem ofWorker_execute (runId : RunId) (task : TaskRecord) (timeout : Option Int) :
    (execute task timeout).Only (Appends (OfWorker runId)) := by
  cases timeout with
  | none => exact Appends.ask _
  | some seconds => exact only_bind (Appends.ask _) fun _ => only_pure _

theorem ofWorker_attempt (seed : Option Int) (runId : RunId) (task : TaskRecord) :
    (w.attempt pf seed runId task).Only (Appends (OfWorker runId)) := by
  -- cut open as far as `beginAttempt` goes, to know whose attempt it hands back
  rw [Only, attempt, wp_bind, beginAttempt, wp_bind]
  refine wp_mono (OfWorker.call fun _ => id) (fun count _ _ => ?_) fun _ _ _ => trivial
  rw [wp_bind]
  refine wp_mono (OfWorker.call fun _ => id) (fun _ _ _ => ?_) fun _ _ _ => trivial
  rw [wp_bind]
  refine wp_mono (OfWorker.record (by decide)) (fun _ _ _ => ?_) fun _ _ _ => trivial
  rw [wp_bind]
  refine wp_mono (only_ofWorker (routine_refreshRunStatus runId)) (fun _ _ _ => ?_) fun _ _ _ => trivial
  exact only_bind (only_ofWorker (w.routine_prepare pf seed ⟨runId, task, count⟩)) fun prepared =>
    only_bind (ofWorker_execute runId _ prepared.2) fun run =>
      (w.closing_finish pf ⟨runId, task, count⟩ run).mono fun _ => Closing.ofWorker

theorem ofWorker_leaseAndRun (seed : Option Int) (runId : RunId) :
    (w.leaseAndRun pf seed runId).Only (Appends (OfWorker runId)) := by
  have hexpired : "lease_expired" ∈ workerKinds := by decide
  refine only_bind (Appends.call fun e he => ⟨he.1, he.2.symm ▸ hexpired⟩) fun leased => ?_
  cases leased with
  | none => exact only_pure _
  | some task => exact only_bind (w.ofWorker_attempt pf seed runId task) fun _ => only_pure _

/-- **What `run_once` logs.** -/
theorem ofWorker_runOnce (mem : RunMemory) (runId : RunId) :
    (w.runOnce pf mem runId).Only (Appends (OfWorker runId)) := by
  refine only_bind (only_ofWorker (w.routine_startRun mem runId)) fun mem => only_bind ?_ fun _ => only_pure _
  exact (wp_attempt _).mpr (w.ofWorker_leaseAndRun pf _ runId)

theorem ofWorker_drainLoop (runId : RunId) (fuel : Nat) (mem : RunMemory) (n : Nat) :
    (w.drainLoop pf runId fuel mem n).Only (Appends (OfWorker runId)) := by
  induction fuel generalizing mem n with
  | zero => exact only_pure _
  | succ fuel ih =>
    refine only_bind (w.ofWorker_runOnce pf mem runId) fun done => ?_
    obtain ⟨mem, outcome⟩ := done
    dsimp only
    split
    · exact only_pure _
    · exact ih mem (n + 1)
    · exact ih mem n

theorem ofWorker_concludeDrain (runId : RunId) (n : Nat) :
    (concludeDrain runId n).Only (Appends (OfWorker runId)) := by
  refine only_bind (OfWorker.call fun _ => id) fun tasks => ?_
  dsimp only
  split <;> exact only_pure _

/-- **What a drain logs**, wherever it is stopped. -/
theorem ofWorker_drain (fuel : Nat) (mem : RunMemory) (runId : RunId) :
    (w.drain pf fuel mem runId).Only (Appends (OfWorker runId)) := by
  refine only_bind (OfWorker.record (by decide)) fun _ =>
    only_bind (w.ofWorker_drainLoop pf runId fuel mem 0) fun done => ?_
  cases done with
  | none => exact only_pure _
  | some n => exact only_bind (ofWorker_concludeDrain runId n) fun _ => only_pure _

end LocalWorker

end FineTuneHarness
