import FineTuneHarness.Executor.Alone
import FineTuneHarness.Executor.Discipline

/-!
# The order in which `run_once` refreshes its run

Whenever a worker has moved its task, it reads the run, lists the tasks and writes what it
has computed, before it ends. `Duty` says how far it has got with that; a worker whose
`run_once` ends owes nothing, unless a reply has been one that `Served` rules out.
-/
namespace FineTuneHarness

open Library Library.Program

/-- What a worker still owes to the stored status of its run. -/
inductive Duty
  | clear
  | leased (t : TaskId)
  | owing (t : TaskId)
  | read (source : RunStatus)
  | listed (source target : RunStatus)
  | stepped (target : RunStatus)

/-- The call has gone well: it did not raise, it found the run, it wrote the file. -/
def Served : (e : Effect) → e.Reply → Prop
  | .store (.getRun _), r => ∃ run : RunRecord, r = .ok (some run)
  | .store _, r => r.isOk = true
  | .ext (.writeArtifact _), r => r.isOk = true
  | .ext _, _ => True

namespace Duty

/-- What a worker of this run may request next. -/
def may (runId : RunId) : Duty → Effect → Prop
  | .clear, .store (.leaseNextPendingTask id ..) => id = runId
  | .clear, .store (.getRun _) | .clear, .store (.listEvents _) | .clear, .store (.appendEvent _)
  | .clear, .store (.updateRunFinishedAt ..) | .clear, .store (.updateTaskStatus ..) => True
  | .leased t, .store (.incrementTaskAttempts id) | .leased t, .store (.markTaskRunning id) =>
    id = t
  | .owing t, .store (.appendEvent e) =>
    e.runId = runId ∧ e.taskId = some t ∧ e.payload.throughJson.isOk = true
  | .owing _, .store (.createArtifact _) => True
  | .owing _, .store (.getRun id) | .read _, .store (.listTasks id)
  | .stepped _, .store (.getRun id) => id = runId
  | .listed source target, .store (.updateRunStatus id st) =>
    id = runId ∧ st = if target ∈ allowedRunTransitions source then target else .running
  | .stepped _, .store (.appendEvent e) =>
    e.runId = runId ∧ e.taskId = none ∧ e.payload.throughJson.isOk = true
  | .clear, .ext _ | .owing _, .ext _ => True
  | _, _ => False

/-- Once the tasks are listed: nothing to do, a status to write, or a refused transition. -/
def afterList (source target : RunStatus) : Duty :=
  if target ≠ source ∧ source.canReach target = true then .listed source target else .clear

/-- Once the run is read again on the way through `RUNNING`. -/
def afterStep (source target : RunStatus) : Duty :=
  if target ∈ allowedRunTransitions source then .listed source target else .clear

/-- What the reply says about the duty. -/
def next : Duty → (e : Effect) → e.Reply → Duty
  | .clear, .store (.leaseNextPendingTask ..), .ok (some (t : TaskRecord)) => .leased t.taskId
  | .clear, .store (.updateTaskStatus t ..), .ok _ => .owing t
  | .leased t, .store (.markTaskRunning _), .ok _ => .owing t
  | .leased _, .store (.markTaskRunning _), .error _ => .clear
  | .owing _, .store (.getRun _), .ok (some (r : RunRecord)) => .read r.status
  | .read source, .store (.listTasks _), .ok tasks => afterList source (targetStatus tasks)
  | .listed source target, .store (.updateRunStatus ..), _ =>
    if target ∈ allowedRunTransitions source then .clear else .stepped target
  | .stepped target, .store (.getRun _), .ok (some (r : RunRecord)) => afterStep r.status target
  | d, _, _ => d

end Duty

/-- A call that may go wrong and leave nothing owed. -/
def Effect.mayFail (d : Duty) : Effect → Prop
  | .store (.markTaskRunning _) => True
  | _ => d = .clear

/-- The duties of one worker of the run. -/
def refreshing (runId : RunId) : Protocol Effect Effect.Reply Duty where
  may := fun d e => d.may runId e
  learns := fun d e r d' => (e.mayFail d ∨ Served e r) ∧ d' = d.next e r

variable {runId : RunId}

theorem refreshing_ignores {e : Effect} (h : Still e) : (refreshing runId).Ignores .clear e := by
  cases e with
  | ext x => exact ⟨trivial, fun r d hd => hd.2⟩
  | store op => cases op <;> first | exact h.elim | exact ⟨trivial, fun r d hd => hd.2⟩

/-- The program takes the duty from `d` to `d'`, or raises with nothing owed. -/
def Takes {α : Type} (runId : RunId) (p : Prog α) (d d' : Duty) : Prop :=
  p.wp (refreshing runId) (fun _ x => x = d') (fun _ x => x = .clear) d

/-- The program ends with nothing owed, however it ends. -/
abbrev Settles {α : Type} (runId : RunId) (p : Prog α) (d : Duty) : Prop :=
  Takes runId p d .clear

theorem Takes.bind {α β : Type} {p : Prog α} {f : α → Prog β} {d d' d'' : Duty}
    (hp : Takes runId p d d') (hf : ∀ a, Takes runId (f a) d' d'') :
    Takes runId (p >>= f) d d'' :=
  (wp_bind p f).mpr (wp_mono hp (fun a _ hd => by rw [hd]; exact hf a) fun _ _ hd => hd)

theorem Settles.still {α : Type} {p : Prog α} (h : p.Only Still) : Settles runId p .clear :=
  wp_of_only h (fun _ he => refreshing_ignores he) (fun _ => rfl) fun _ => rfl

theorem Settles.still_bind {α β : Type} {p : Prog α} {f : α → Prog β} (hp : p.Only Still)
    (hf : ∀ a, Settles runId (f a) .clear) : Settles runId (p >>= f) .clear :=
  (wp_bind p f).mpr (wp_of_only hp (fun _ he => refreshing_ignores he) hf fun _ => rfl)

/-- A call that is served while something is owed. -/
theorem wp_served {β : Type} {op : StoreOp} {f : op.Reply → Prog β} {d : Duty}
    {Q : β → Duty → Prop} {E : PyExc → Duty → Prop} (hm : d.may runId (.store op))
    (hd : ¬ Effect.mayFail d (.store op))
    (hf : ∀ r, Served (.store op) (.ok r) →
      (f r).wp (refreshing runId) Q E (d.next (.store op) (.ok r))) :
    (call op >>= f).wp (refreshing runId) Q E d := by
  refine (wp_bind _ _).mpr (wp_call.mpr ⟨hm, fun r d' hl => ?_⟩)
  obtain ⟨hserved, rfl⟩ := hl
  have hserved := hserved.resolve_left hd
  cases r with
  | ok a => exact hf a hserved
  | error e =>
    cases op <;> first | (obtain ⟨_, hx⟩ := hserved; cases hx) | cases hserved

/-! ## The refresh -/

/-- The last write of a refresh, along an edge. -/
theorem settles_moveEdge {source source' target : RunStatus} {run : RunRecord}
    (hedge : target ∈ allowedRunTransitions source) :
    Settles runId (do
      call (.updateRunStatus runId target)
      stampFinished runId run target
      recordStatusChange runId source' target : Prog Unit) (.listed source target) := by
  refine wp_served ⟨rfl, (if_pos hedge).symm⟩ (fun h => by cases h) fun _ _ => ?_
  rw [Duty.next, if_pos hedge]
  unfold stampFinished
  split
  · refine Takes.bind (Settles.still_bind (still_ask _) fun now => ?_) fun _ =>
      Settles.still (still_record (by decide))
    refine wp_call.mpr ⟨trivial, fun r d' hl => ?_⟩
    obtain ⟨-, rfl⟩ := hl
    cases r <;> rfl
  · exact Settles.still (only_bind (only_pure _) fun _ => still_record (by decide))

theorem settles_moveRun {run : RunRecord} {target : RunStatus} (hne : target ≠ run.status) :
    Settles runId (moveRun runId run target) (Duty.afterList run.status target) := by
  unfold moveRun stepThroughRunning
  by_cases hedge : target ∈ allowedRunTransitions run.status
  · rw [show Duty.afterList run.status target = .listed run.status target from
      if_pos ⟨hne, by simp [RunStatus.canReach, hedge]⟩, if_neg fun hc => hc.1 hedge]
    change Settles runId (do
      Program.ofExcept (ensureRunTransition run.status target)
      _ : Prog Unit) _
    rw [ensureRunTransition, if_pos hedge]
    exact settles_moveEdge hedge
  by_cases hvia : .running ∈ allowedRunTransitions run.status ∧
      target ∈ allowedRunTransitions .running
  swap
  · have hstuck : ¬ (target ≠ run.status ∧ run.status.canReach target = true) := by
      rintro ⟨-, hc⟩
      simp only [RunStatus.canReach, hne, hedge, decide_false, Bool.false_or, Bool.and_eq_true,
        decide_eq_true_eq] at hc
      exact hvia hc
    rw [show Duty.afterList run.status target = .clear from if_neg hstuck,
      if_neg fun hc => hvia hc.2]
    change Settles runId (do
      Program.ofExcept (ensureRunTransition run.status target)
      _ : Prog Unit) _
    rw [ensureRunTransition, if_neg hedge]
    exact rfl
  rw [show Duty.afterList run.status target = .listed run.status target from
    if_pos ⟨hne, by simp [RunStatus.canReach, hvia.1, hvia.2]⟩, if_pos ⟨hedge, hvia⟩,
    ensureRunTransition, if_pos hvia.1]
  -- to `RUNNING` first; what is read back then decides on the rest
  have hmay : (Duty.listed run.status target).may runId (.store (.updateRunStatus runId .running)) :=
    ⟨rfl, (if_neg hedge).symm⟩
  refine (wp_bind _ _).mpr (wp_served hmay (fun h => by cases h) fun _ _ => ?_)
  rw [show (Duty.listed run.status target).next (.store (.updateRunStatus runId .running))
    (.ok ()) = .stepped target from if_neg hedge]
  refine wp_served ⟨rfl, rfl, Dict.throughJson_ofList rfl⟩ (fun h => by cases h) fun _ _ =>
    wp_served rfl (fun h => by cases h) fun r hr => ?_
  obtain ⟨run', hr⟩ := hr
  obtain rfl := Except.ok.inj hr
  change Settles runId (do
    Program.ofExcept (ensureRunTransition run'.status target)
    _ : Prog Unit) (Duty.afterStep run'.status target)
  unfold Duty.afterStep
  by_cases hedge' : target ∈ allowedRunTransitions run'.status
  · rw [if_pos hedge', ensureRunTransition, if_pos hedge']
    exact settles_moveEdge hedge'
  · rw [if_neg hedge', ensureRunTransition, if_neg hedge']
    exact rfl

/-- **A refresh settles what is owed**, whether it returns or raises. -/
theorem settles_refreshRunStatus (t : TaskId) :
    Settles runId (refreshRunStatus runId) (.owing t) := by
  refine wp_served rfl (fun h => by cases h) fun r hr => ?_
  obtain ⟨run, hr⟩ := hr
  obtain rfl := Except.ok.inj hr
  change Settles runId (do
    let tasks ← call (.listTasks runId)
    _ : Prog RunStatus) (.read run.status)
  refine wp_served rfl (fun h => by cases h) fun tasks _ => ?_
  change Settles runId _ (Duty.afterList run.status (targetStatus tasks))
  split
  next heq =>
    rw [show Duty.afterList run.status (targetStatus tasks) = .clear from if_neg fun h => h.1 heq]
    exact rfl
  next hne => exact Takes.bind (settles_moveRun hne) fun _ => rfl

/-! ## `run_once` settles what it owes -/

namespace LocalWorker

variable (pf : Platform) (w : LocalWorker)

/-- An event of the attempt, while a refresh is owed. -/
theorem takes_recordAttempt (a : Attempt) {kind : String} {more : List (String × PyVal)}
    (hp : more.all (·.2.plain) = true) :
    Takes a.runId (w.recordAttempt a kind more) (.owing a.task.taskId) (.owing a.task.taskId) := by
  refine wp_call.mpr ⟨⟨rfl, rfl, Dict.throughJson_ofList ?_⟩, fun r d hl => ?_⟩
  · simp only [List.all_append, Bool.and_eq_true]
    exact ⟨rfl, hp⟩
  · obtain ⟨hserved, rfl⟩ := hl
    cases r with
    | ok u => rfl
    | error e => cases hserved.resolve_left fun h => by cases h

theorem takes_keepArtifact (a : Attempt) (result : Dict) (t : TaskId) :
    Takes runId (w.keepArtifact a result) (.owing t) (.owing t) := by
  unfold keepArtifact
  split
  · refine (wp_bind _ _).mpr (wp_ask.mpr ⟨trivial, fun r d hl => ?_⟩)
    obtain ⟨hserved, rfl⟩ := hl
    have hserved : r.isOk = true := hserved.resolve_left fun h => by cases h
    cases r with
    | error e => cases hserved
    | ok x =>
      refine wp_call.mpr ⟨trivial, fun r d hl => ?_⟩
      obtain ⟨hserved, rfl⟩ := hl
      cases r with
      | ok u => rfl
      | error e => cases hserved.resolve_left fun h => by cases h
  · rfl

/-- An update of the task leaves a refresh to be made, if it does not raise. -/
theorem takes_update (t : TaskId) (st : TaskStatus) (r : Option Dict) (e : Option String) :
    Takes runId (call (.updateTaskStatus t st r e)) .clear (.owing t) := by
  refine wp_call.mpr ⟨trivial, fun r d hl => ?_⟩
  obtain ⟨-, rfl⟩ := hl
  cases r <;> rfl

/-- A refresh of the attempt's run, followed by requests that move nothing. -/
theorem settles_refresh {β : Type} {t : TaskId} {f : RunStatus → Prog β}
    (hf : ∀ st, (f st).Only Still) : Settles runId (refreshRunStatus runId >>= f) (.owing t) :=
  Takes.bind (settles_refreshRunStatus t) fun st => Settles.still (hf st)

variable (a : Attempt)

theorem settles_onTimeout (payload : Dict) (exc : PyExc) :
    Settles a.runId (w.onTimeout a payload exc) .clear :=
  Takes.bind (takes_update _ _ _ _) fun _ => Takes.bind (w.takes_recordAttempt a rfl) fun _ =>
    settles_refresh fun _ => w.still_notify _ _ _ _ fun _ => only_throw _

theorem settles_oomRequeue (exc : PyExc) (prior : Nat) :
    Settles a.runId (w.oomRequeue a exc prior) .clear :=
  Takes.bind (takes_update _ _ _ _) fun _ => Takes.bind (w.takes_recordAttempt a rfl) fun _ =>
    settles_refresh fun _ => only_bind (w.still_announceStatus _ _) fun _ => only_throw _

theorem settles_requeueOnOom (exc : PyExc) :
    Settles a.runId (w.requeueOnOom pf a exc) .clear := by
  unfold requeueOnOom
  split
  · refine (wp_bind _ _).mpr (wp_call.mpr ⟨trivial, fun r d hl => ?_⟩)
    obtain ⟨-, rfl⟩ := hl
    cases r with
    | error e => rfl
    | ok events =>
      dsimp only
      split
      · rfl
      · exact w.settles_oomRequeue a exc _
  · rfl

theorem takes_recordFailure (exc : PyExc) (m : Int) :
    Takes a.runId (w.recordFailure a exc m) .clear (.owing a.task.taskId) := by
  unfold recordFailure
  split
  · exact Takes.bind (takes_update _ _ _ _) fun _ => w.takes_recordAttempt a rfl
  · exact Takes.bind (takes_update _ _ _ _) fun _ => w.takes_recordAttempt a rfl

theorem settles_onException (payload : Dict) (exc : PyExc) :
    Settles a.runId (w.onException pf a payload exc) .clear :=
  Takes.bind (w.settles_requeueOnOom pf a exc) fun _ =>
    Settles.still_bind (only_ofExcept _) fun m =>
    Takes.bind (w.takes_recordFailure a exc m) fun _ => settles_refresh fun _ =>
      w.still_notify _ _ _ _ fun _ => only_bind (w.still_backOff _ _) fun _ => only_throw _

theorem settles_onReturn (payload : Dict) (wall : PyFloat) (v : PyVal) :
    Settles a.runId (w.onReturn pf a payload wall v) .clear := by
  refine Settles.still_bind (only_ofExcept _) fun judged => ?_
  obtain ⟨result, outcome⟩ := judged
  dsimp only
  split
  · refine Takes.bind (takes_update _ _ _ _) fun _ => Takes.bind (w.takes_keepArtifact a _ _)
      fun _ => Takes.bind (w.takes_recordAttempt a ?_) fun _ => settles_refresh fun _ =>
        w.still_notify _ _ _ _ fun _ => only_throw _
    simp [PyVal.plain]
  · exact Settles.still_bind (still_fire _ _) fun c =>
      Settles.still_bind (w.still_recordHookFired _ _) fun _ =>
      Takes.bind (takes_update _ _ _ _) fun _ => Takes.bind (w.takes_keepArtifact a _ _)
        fun _ => Takes.bind (w.takes_recordAttempt a rfl) fun _ => settles_refresh fun _ =>
          only_bind (w.still_announceStatus _ _) fun _ => only_pure _

theorem settles_finish (run : HandlerRun (Except PyExc PyVal)) :
    Settles a.runId (w.finish pf a run) .clear := by
  unfold finish
  split
  · split
    · exact w.settles_onTimeout a run.payload _
    · exact w.settles_onException pf a run.payload _
  · exact w.settles_onReturn pf a run.payload run.wallSeconds _

theorem wp_beginAttempt (task : TaskRecord) :
    (w.beginAttempt runId task).wp (refreshing runId) (fun a d => a.runId = runId ∧ d = .clear)
      (fun _ d => d = .clear) (.leased task.taskId) := by
  refine wp_served rfl (fun h => by cases h) fun n _ => ?_
  refine (wp_bind _ _).mpr (wp_call.mpr ⟨rfl, fun r d hl => ?_⟩)
  obtain ⟨-, rfl⟩ := hl
  cases r with
  | error e => rfl
  | ok u =>
    refine (wp_bind _ _).mpr (wp_mono (w.takes_recordAttempt ⟨runId, task, n⟩ rfl)
      (fun _ d hd => ?_) fun _ _ hd => hd)
    obtain rfl := hd
    exact (wp_bind _ _).mpr (wp_mono (settles_refreshRunStatus _) (fun _ d hd => ⟨rfl, hd⟩)
      fun _ _ hd => hd)

theorem settles_attempt (seed : Option Int) (task : TaskRecord) :
    Settles runId (w.attempt pf seed runId task) (.leased task.taskId) := by
  refine (wp_bind _ _).mpr (wp_mono (w.wp_beginAttempt task) (fun a d hd => ?_) fun _ _ hd => hd)
  obtain ⟨rfl, rfl⟩ := hd
  exact Settles.still_bind (w.still_prepare pf seed a) fun prepared =>
    Settles.still_bind (still_execute _ _) fun run => w.settles_finish pf a run

/-- **`run_once` settles what it owes**, unless a reply rules that out. -/
theorem settles_runOnce (mem : RunMemory) (runId : RunId) :
    Settles runId (w.runOnce pf mem runId) .clear := by
  refine Settles.still_bind (w.still_startRun mem runId) fun mem' => ?_
  have hrun : Settles runId (w.leaseAndRun pf (mem'.seed runId) runId) .clear := by
    refine (wp_bind _ _).mpr (wp_call.mpr ⟨rfl, fun r d hl => ?_⟩)
    obtain ⟨-, rfl⟩ := hl
    cases r with
    | error e => rfl
    | ok leased =>
      cases leased with
      | none => rfl
      | some task => exact Takes.bind (w.settles_attempt pf _ task) fun _ => rfl
  exact (wp_bind _ _).mpr ((wp_attempt _).mpr hrun)

end LocalWorker
end FineTuneHarness
