import FineTuneHarness.Orchestrator.Runner
import FineTuneHarness.State.StoreSpec

/-!
# One party alone on the store

With nobody else on the store, a request for a store call sees exactly what the requests
before it left; the clock and the surroundings may answer whatever `ok` admits. A weakest
precondition under `alone` holds for every such run.
-/
namespace FineTuneHarness

open Library Library.Program

/-- `refresh_run_status` leaves the status, moves it along an edge, or along two edges
by way of `RUNNING`. -/
def RunStatus.canReach (st target : RunStatus) : Bool :=
  target = st || target ∈ allowedRunTransitions st ||
    (.running ∈ allowedRunTransitions st && target ∈ allowedRunTransitions .running)

/-- The run is on record, and its status can be moved to what its tasks ask for. -/
def Refreshable (s : StateStore) (runId : RunId) : Prop :=
  ∃ r, s.run? runId = some r ∧ r.status.canReach (targetStatus (s.tasksOf runId)) = true

/-- What the surroundings may answer, what the clock may show, and whether a run is only
read, as a refresh reads it first, where it is refreshable. -/
structure Admits where
  ext : (x : Ext) → x.Reply → Prop
  clock : Clock → Prop := fun _ => True
  refreshable : Prop := False

namespace Admits

/-- Any answers whatever. -/
def any : Admits where
  ext _ _ := True

/-- One fixed answer to every request. -/
def exactly (a : Answers) : Admits where
  ext x r := r = a.ext x
  clock clk := clk = a.clock

structure Meets (ok : Admits) (a : Answers) : Prop where
  ext : ∀ x, ok.ext x (a.ext x)
  clock : ok.clock a.clock

theorem any_meets (a : Answers) : any.Meets a := ⟨fun _ => trivial, trivial⟩

theorem exactly_meets (a : Answers) : (exactly a).Meets a := ⟨fun _ => rfl, rfl⟩

end Admits

/-- The store, and the tasks the handler has been called with, newest first. -/
structure Ledger where
  store : StateStore
  calls : List TaskId := []

/-- The task a request calls the handler with. -/
def Ext.handles : Ext → List TaskId
  | .runHandler t | .runHandlerWithin t _ => [t.taskId]
  | _ => []

/-- Sole use of a store, under answers that `ok` admits. -/
def alone (ok : Admits) : Protocol Effect Effect.Reply Ledger where
  may := fun l e =>
    match e with
    | .store (.getRun id) => ok.refreshable → Refreshable l.store id
    | _ => True
  learns := fun l e r l' =>
    match e, r with
    | .store op, r =>
      l'.calls = l.calls ∧ ∃ clk, ok.clock clk ∧ l.store.exec op clk = (r, l'.store)
    | .ext x, r => ok.ext x r ∧ l' = { l with calls := x.handles ++ l.calls }

section Rules

variable {ok : Admits} {s : StateStore} {c : List TaskId} {E : PyExc → Ledger → Prop}

/-- Nothing is asked of a party whose reads need not be refreshable. -/
theorem alone_may (h : ¬ ok.refreshable) (l : Ledger) (e : Effect) : (alone ok).may l e := by
  unfold alone
  dsimp only
  split
  · exact fun hr => absurd hr h
  · trivial

theorem alone_call {op : StoreOp} {Q : op.Reply → Ledger → Prop}
    (h : ∀ clk, ok.clock clk →
      match s.exec op clk with
      | (.ok a, s') => Q a ⟨s', c⟩
      | (.error e, s') => E e ⟨s', c⟩)
    (hmay : (alone ok).may ⟨s, c⟩ (.store op) := by exact trivial) :
    (call op).wp (alone ok) Q E ⟨s, c⟩ := by
  refine wp_call.mpr ⟨hmay, fun r l' hl => ?_⟩
  obtain ⟨s', c'⟩ := l'
  obtain ⟨rfl, clk, hclk, hx⟩ : c' = c ∧ ∃ clk, ok.clock clk ∧ s.exec op clk = (r, s') := hl
  have := h clk hclk
  rw [hx] at this
  cases r <;> exact this

theorem alone_ask {x : Ext} {Q : x.Reply → Ledger → Prop} :
    (ask x).wp (alone ok) Q E ⟨s, c⟩ ↔ ∀ r, ok.ext x r → Q r ⟨s, x.handles ++ c⟩ := by
  rw [wp_ask]
  exact ⟨fun h r hr => h.2 r _ ⟨hr, rfl⟩,
    fun h => ⟨trivial, fun r l' hl => by obtain ⟨hr, rfl⟩ := hl; exact h r hr⟩⟩

theorem alone_getRun {id : RunId} {Q : Option RunRecord → Ledger → Prop}
    (hread : ok.refreshable → Refreshable s id) (h : Q (s.run? id) ⟨s, c⟩) :
    (call (.getRun id)).wp (alone ok) Q E ⟨s, c⟩ := by
  refine alone_call (fun clk _ => ?_) hread
  rw [StateStore.exec_getRun]
  exact h

theorem alone_listTasks {id : RunId} {Q : List TaskRecord → Ledger → Prop}
    (h : Q (s.tasksOf id) ⟨s, c⟩) : (call (.listTasks id)).wp (alone ok) Q E ⟨s, c⟩ := by
  refine alone_call fun clk _ => ?_
  rw [StateStore.exec_listTasks]
  exact h

theorem alone_listEvents {id : RunId} {Q : List EventRecord → Ledger → Prop}
    (h : Q (s.eventsOf id) ⟨s, c⟩) : (call (.listEvents id)).wp (alone ok) Q E ⟨s, c⟩ := by
  refine alone_call fun clk _ => ?_
  rw [StateStore.exec_listEvents]
  exact h

theorem alone_updateRunStatus {id : RunId} {r : RunRecord} (hr : s.run? id = some r)
    {st : RunStatus} {Q : Unit → Ledger → Prop}
    (h : Q () ⟨s.modifyRun id (·.setStatus st) (·.setStatus_runId _), c⟩) :
    (call (.updateRunStatus id st)).wp (alone ok) Q E ⟨s, c⟩ := by
  refine alone_call fun clk _ => ?_
  rw [StateStore.exec_updateRunStatus s _ hr]
  exact h

theorem alone_updateRunFinishedAt {id : RunId} {r : RunRecord} (hr : s.run? id = some r)
    {t : Instant} {Q : Unit → Ledger → Prop}
    (h : Q () ⟨s.modifyRun id (·.finish t) (·.finish_runId _), c⟩) :
    (call (.updateRunFinishedAt id t)).wp (alone ok) Q E ⟨s, c⟩ := by
  refine alone_call fun clk _ => ?_
  rw [StateStore.exec_updateRunFinishedAt s _ hr]
  exact h

/-- An event of a known run and task with a writable payload is appended, in some
encoding, under its own names. -/
theorem alone_appendEvent {e : EventRecord} {Q : Unit → Ledger → Prop}
    (hp : e.payload.throughJson.isOk = true) (hr : s.run? e.runId ≠ none)
    (ht : ∀ id, e.taskId = some id → s.task? id ≠ none)
    (h : ∀ e' : EventRecord, e'.runId = e.runId → e'.taskId = e.taskId → e'.kind = e.kind →
      Q () ⟨s.addEvents [e'], c⟩) :
    (call (.appendEvent e)).wp (alone ok) Q E ⟨s, c⟩ := by
  refine alone_call fun clk _ => ?_
  obtain ⟨e', he⟩ := s.keepEvent_of hp hr ht
  obtain ⟨h1, h2, h3⟩ := s.keepEvent_ok he
  rw [s.exec_appendEvent, he]
  exact h e' h1 h2 h3

theorem alone_record {runId : RunId} {taskId : Option TaskId} {kind : String}
    {payload : List (String × PyVal)} {Q : Unit → Ledger → Prop}
    (hp : payload.all (·.2.plain) = true) (hr : s.run? runId ≠ none)
    (ht : ∀ id, taskId = some id → s.task? id ≠ none)
    (h : ∀ e : EventRecord, e.runId = runId → e.taskId = taskId → e.kind = kind →
      Q () ⟨s.addEvents [e], c⟩) :
    (record runId taskId kind payload).wp (alone ok) Q E ⟨s, c⟩ :=
  alone_appendEvent (Dict.throughJson_ofList hp) hr ht h

/-- Hooks leave the store alone. -/
theorem alone_fire {r : HookRegistry} {h : HookCall} {Q : HookCall → Ledger → Prop}
    (hq : ∀ h', Q h' ⟨s, c⟩) : (r.fire h).wp (alone ok) Q E ⟨s, c⟩ := by
  have hf : ∀ fns h, (HookRegistry.fireAll fns h).wp (alone ok) Q E ⟨s, c⟩ := by
    intro fns
    induction fns with
    | nil => exact hq
    | cons fn fns ih =>
      intro h
      exact (wp_bind _ _).mpr (alone_ask.mpr fun m _ => ih (h.mutate m.1 m.2))
  exact hf _ h

end Rules

/-! ## Runs in an environment -/

/-- A party alone on a store: the ledger, and how many requests it has made. -/
structure Session where
  ledger : Ledger
  requests : Nat := 0

namespace Session

/-- The `n`-th request is answered by `env n`. -/
def exec (env : Nat → Answers) (e : Effect) (s : Session) : e.Reply × Session :=
  let calls := match e with | .ext x => x.handles | .store _ => []
  ((e.perform (env s.requests) s.ledger.store).1,
    { ledger := {
        store := (e.perform (env s.requests) s.ledger.store).2
        calls := calls ++ s.ledger.calls }
      requests := s.requests + 1 })

variable {ok : Admits} {env : Nat → Answers}

theorem exec_learns (h : ∀ n, ok.Meets (env n)) (e : Effect) (s : Session) :
    (alone ok).learns s.ledger e (exec env e s).1 (exec env e s).2.ledger := by
  cases e with
  | store op => exact ⟨rfl, (env s.requests).clock, (h _).clock, rfl⟩
  | ext x => exact ⟨(h _).ext x, rfl⟩

/-- What holds under `alone` holds of every session whose answers are admitted. -/
theorem run_of_wp {α : Type} {p : Prog α} {Q : α → Ledger → Prop} {E : PyExc → Ledger → Prop}
    {s : Session} (hp : p.wp (alone ok) Q E s.ledger) (h : ∀ n, ok.Meets (env n)) :
    match p.run (exec env) s with
    | (.ok a, s') => Q a s'.ledger
    | (.error e, s') => E e s'.ledger := by
  have hrun := Program.run_of_wp (exec_learns h) hp
  generalize p.run (exec env) s = out at hrun ⊢
  obtain ⟨r, s'⟩ := out
  cases r <;> exact hrun

/-- A program that cannot raise returns. -/
theorem run_returns {α : Type} {p : Prog α} {Q : α → Ledger → Prop} {s : Session}
    (hp : p.wp (alone ok) Q (fun _ _ => False) s.ledger) (h : ∀ n, ok.Meets (env n)) :
    ∃ a s', p.run (exec env) s = (.ok a, s') ∧ Q a s'.ledger := by
  have hrun := run_of_wp hp h
  generalize p.run (exec env) s = out at hrun ⊢
  obtain ⟨r, s'⟩ := out
  cases r with
  | ok a => exact ⟨a, s', rfl, hrun⟩
  | error e => exact hrun.elim

end Session

/-- A program run with nothing in between, under one reading of the clock. -/
def atomically {α : Type} (p : Prog α) (a : Answers) (s : StateStore) :
    Except PyExc α × StateStore :=
  let out := p.run (Session.exec fun _ => a) { ledger := { store := s } }
  (out.1, out.2.ledger.store)

theorem atomically_of_wp {α : Type} {p : Prog α} {a : Answers} {s : StateStore} {ok : Admits}
    {Q : α → Ledger → Prop} {E : PyExc → Ledger → Prop}
    (hp : p.wp (alone ok) Q E ⟨s, []⟩) (h : ok.Meets a) :
    match atomically p a s with
    | (.ok v, s') => ∃ c, Q v ⟨s', c⟩
    | (.error e, s') => ∃ c, E e ⟨s', c⟩ := by
  have hrun : match p.run (Session.exec fun _ => a) ⟨⟨s, []⟩, 0⟩ with
      | (.ok v, s') => Q v s'.ledger
      | (.error e, s') => E e s'.ledger := Session.run_of_wp hp fun _ => h
  unfold atomically
  generalize p.run (Session.exec fun _ => a) ⟨⟨s, []⟩, 0⟩ = out at hrun ⊢
  obtain ⟨r, ⟨s', c⟩, n⟩ := out
  cases r <;> exact ⟨c, hrun⟩

end FineTuneHarness
