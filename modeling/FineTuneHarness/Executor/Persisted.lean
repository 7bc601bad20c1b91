import FineTuneHarness.Executor.Closing
import FineTuneHarness.Executor.Fleet
import FineTuneHarness.State.Evolution

/-!
# Where a persisted result comes from

A worker writes `SUCCEEDED` or `DEGENERATE` only with what `judge` makes of a value its handler
has returned for that task. Without hooks nothing comes in between, so every such row of the
store goes back to a handler call on the log.
-/
namespace FineTuneHarness

open Library Library.Program

/-- A value the handler has returned for a task. -/
structure Returned where
  task : TaskId
  payload : Dict
  wall : PyFloat
  value : PyVal

/-- The value a request brings back from the handler, if it is a handler call that returns. -/
def returned : (e : Effect) → e.Reply → Option Returned
  | .ext (.runHandler t), (run : HandlerRun (Except PyExc PyVal)) =>
    run.outcome.toOption.map fun v => ⟨t.taskId, run.payload, run.wallSeconds, v⟩
  | .ext (.runHandlerWithin t _), (run : HandlerRun (Option (Except PyExc PyVal))) =>
    (run.outcome.bind (·.toOption)).map fun v => ⟨t.taskId, run.payload, run.wallSeconds, v⟩
  | _, _ => none

/-- The statuses a judged result is persisted with. -/
def TaskStatus.judged (st : TaskStatus) : Bool := st ∈ [.succeeded, .degenerate]

/-- The judge has given the value this status and made it this result. -/
def Returned.JudgedAs (pf : Platform) (x : Returned) (st : TaskStatus) (res : Option Dict) : Prop :=
  ∃ r o, LocalWorker.judge pf x.payload x.wall x.value = .ok (r, o) ∧ res = some r ∧
    st = if o.status.rejected then .degenerate else .succeeded

/-- A worker may write a judged status with a judged value only. The local state is what its
handler has returned so far. -/
def judging (pf : Platform) : Protocol Effect Effect.Reply (List Returned) where
  may := fun l e =>
    match e with
    | .store (.createTask _) => False
    | .store (.updateTaskStatus t st res _) =>
      st.judged = true → ∃ x ∈ l, x.task = t ∧ x.JudgedAs pf st res
    | _ => True
  learns := fun l e r l' => l' = (returned e r).toList ++ l

/-- Requests that write no judged status. -/
def Unjudged : Effect → Prop
  | .store (.createTask _) => False
  | .store (.updateTaskStatus _ st _ _) => st.judged = false
  | _ => True

theorem Quiet.unjudged {e : Effect} (h : Quiet e) : Unjudged e := by
  cases e with
  | ext x => trivial
  | store op => cases op <;> first | exact h.elim | trivial

theorem Closing.unjudged {a : Attempt} {sts : List TaskStatus} {e : Effect} (h : Closing a sts e)
    (hs : ∀ st ∈ sts, st.judged = false) : Unjudged e := by
  cases e with
  | ext x => trivial
  | store op =>
    cases op <;> first | exact h.elim | trivial | skip
    case updateTaskStatus t st r err => exact hs st h.2

theorem only_unjudged {α : Type} {p : Prog α} (h : p.Only Quiet) : p.Only Unjudged :=
  h.mono fun _ => Quiet.unjudged

theorem Unjudged.call {op : StoreOp} (h : Unjudged (.store op)) : (call op).Only Unjudged := by
  simp only [Only, wp_call]
  exact ⟨h, fun r _ _ => by cases r <;> trivial⟩

theorem only_unjudged_bind {α β : Type} {p : Prog α} {f : α → Prog β} (hp : p.Only Quiet)
    (hf : ∀ a, (f a).Only Unjudged) : (p >>= f).Only Unjudged :=
  only_bind (only_unjudged hp) hf

namespace LocalWorker

variable {pf : Platform} (w : LocalWorker) {l : List Returned}

theorem unjudged_beginAttempt (runId : RunId) (task : TaskRecord) :
    (w.beginAttempt runId task).Only Unjudged :=
  only_bind (Unjudged.call trivial) fun _ => only_bind (Unjudged.call trivial) fun _ =>
    only_unjudged_bind (only_quiet (w.still_recordAttempt _ (by decide))) fun _ =>
    only_unjudged_bind (only_refreshRunStatus _) fun _ => only_pure _

theorem unjudged_onTimeout (a : Attempt) (payload : Dict) (exc : PyExc) :
    (w.onTimeout a payload exc).Only Unjudged :=
  (w.closing_onTimeout a payload exc).mono fun _ h => h.unjudged (by decide)

theorem unjudged_requeueOnOom (a : Attempt) (exc : PyExc) :
    (w.requeueOnOom pf a exc).Only Unjudged :=
  (w.closing_requeueOnOom pf a exc).mono fun _ h => h.unjudged (by decide)

theorem unjudged_recordFailure (a : Attempt) (exc : PyExc) (m : Int) :
    (w.recordFailure a exc m).Only Unjudged :=
  (w.closing_recordFailure a exc m).mono fun _ h => h.unjudged (by decide)

theorem unjudged_onException (a : Attempt) (payload : Dict) (exc : PyExc) :
    (w.onException pf a payload exc).Only Unjudged :=
  (w.closing_onException pf a payload exc).mono fun _ h => h.unjudged (by decide)

/-- Nothing is asked of requests that write no judged status. -/
theorem judging_unjudged {α : Type} {p : Prog α} (h : p.Only Unjudged) :
    p.wp (judging pf) (fun _ _ => True) (fun _ _ => True) l := by
  refine wp_keep_of_only (I := fun _ => True) h (fun l e _ he => ⟨?_, fun _ _ _ => trivial⟩) trivial
  cases e with
  | ext x => trivial
  | store op =>
    cases op <;> first | exact he.elim | trivial | exact fun hj => by rw [he] at hj; cases hj

theorem judging_unjudged_bind {α β : Type} {p : Prog α} {f : α → Prog β} (h : p.Only Unjudged)
    (hf : ∀ a l, (f a).wp (judging pf) (fun _ _ => True) (fun _ _ => True) l) :
    (p >>= f).wp (judging pf) (fun _ _ => True) (fun _ _ => True) l :=
  (wp_bind _ _).mpr (wp_mono (judging_unjudged h) (fun a l' _ => hf a l') fun _ _ _ => trivial)

/-- A quiet request forgets no returned value. -/
theorem judging_quiet_bind {α β : Type} {p : Prog α} {f : α → Prog β} {x : Returned}
    (h : p.Only Quiet) (hx : x ∈ l)
    (hf : ∀ a l, x ∈ l → (f a).wp (judging pf) (fun _ _ => True) (fun _ _ => True) l) :
    (p >>= f).wp (judging pf) (fun _ _ => True) (fun _ _ => True) l := by
  refine (wp_bind _ _).mpr (wp_mono (wp_keep_of_only (I := fun l => x ∈ l) h
    (fun l e hm he => ⟨?_, fun r l' hl => ?_⟩) hx) (fun a l' hm => hf a l' hm) fun _ _ _ => trivial)
  · cases e with
    | ext x => trivial
    | store op => cases op <;> first | exact he.elim | trivial
  · obtain rfl := hl
    exact List.mem_append_right _ hm

/-- The update that persists a judged value. -/
theorem judging_update_bind {β : Type} {x : Returned} {st : TaskStatus} {res : Option Dict}
    {err : Option String} {f : Unit → Prog β} (hx : x ∈ l) (hj : x.JudgedAs pf st res)
    (hf : ∀ u, (f u).Only Unjudged) :
    (call (.updateTaskStatus x.task st res err) >>= f).wp (judging pf) (fun _ _ => True)
      (fun _ _ => True) l := by
  refine (wp_bind _ _).mpr (wp_call.mpr ⟨fun _ => ⟨x, hx, rfl, hj⟩, fun r l' _ => ?_⟩)
  cases r with
  | error e => trivial
  | ok u => exact judging_unjudged (hf u)

theorem judging_onReturn (hooks : w.hooks.hooks = []) (a : Attempt) (payload : Dict)
    (wall : PyFloat) (v : PyVal) (hx : (⟨a.task.taskId, payload, wall, v⟩ : Returned) ∈ l) :
    (w.onReturn pf a payload wall v).wp (judging pf) (fun _ _ => True) (fun _ _ => True) l := by
  refine (wp_bind _ _).mpr ?_
  rw [wp_ofExcept]
  cases hj : judge pf payload wall v with
  | error e => trivial
  | ok judged =>
  obtain ⟨result, outcome⟩ := judged
  dsimp only
  split
  next hr =>
    refine judging_update_bind hx ⟨result, outcome, hj, rfl, (if_pos hr).symm⟩ fun _ => ?_
    exact only_unjudged_bind (w.only_keepArtifact _ _) fun _ =>
      only_unjudged_bind (only_quiet (w.still_recordAttempt _ (by decide))) fun _ =>
      only_unjudged_bind (only_refreshRunStatus _) fun st =>
      only_unjudged (only_quiet (w.still_notify _ _ _ _ fun _ => only_throw _))
  next hr =>
    -- without hooks the result is persisted as it was judged
    have hfire : w.hooks.fire (.afterTaskSuccess { a.task with payload } result) =
        pure (.afterTaskSuccess { a.task with payload } result) := by
      unfold HookRegistry.fire HookRegistry.hooksAt
      rw [hooks]
      rfl
    rw [onSuccess, hfire]
    refine (wp_bind _ _).mpr ((wp_pure _).mpr ?_)
    refine judging_quiet_bind (only_quiet (w.still_recordHookFired _ _)) hx fun _ l hx =>
      judging_update_bind hx ⟨result, outcome, hj, rfl, (if_neg hr).symm⟩ fun _ => ?_
    exact only_unjudged_bind (w.only_keepArtifact _ _) fun _ =>
      only_unjudged_bind (only_quiet (w.still_recordAttempt _ (by decide))) fun _ =>
      only_unjudged_bind (only_refreshRunStatus _) fun st =>
      only_unjudged_bind (only_quiet (w.still_announceStatus _ _)) fun _ => only_pure _

theorem judging_finish (hooks : w.hooks.hooks = []) (a : Attempt)
    (run : HandlerRun (Except PyExc PyVal)) (hx : ∀ v, run.outcome = .ok v →
      (⟨a.task.taskId, run.payload, run.wallSeconds, v⟩ : Returned) ∈ l) :
    (w.finish pf a run).wp (judging pf) (fun _ _ => True) (fun _ _ => True) l := by
  unfold finish
  split
  · split
    · exact judging_unjudged (w.unjudged_onTimeout _ _ _)
    · exact judging_unjudged (w.unjudged_onException _ _ _)
  next v hv => exact w.judging_onReturn hooks _ _ _ _ (hx v hv)

theorem judging_attempt (hooks : w.hooks.hooks = []) (seed : Option Int) (runId : RunId)
    (task : TaskRecord) :
    (w.attempt pf seed runId task).wp (judging pf) (fun _ _ => True) (fun _ _ => True) l := by
  have hquiet : ∀ {α : Type} {p : Prog α} {Q : α → List Returned → Prop} {l}, p.Only Quiet →
      (∀ a l, Q a l) → p.wp (judging pf) Q (fun _ _ => True) l := fun hp hq =>
    wp_mono (judging_unjudged (only_unjudged hp)) (fun a l _ => hq a l) fun _ _ _ => trivial
  rw [attempt, wp_bind, beginAttempt]
  refine (wp_bind _ _).mpr (wp_call.mpr ⟨trivial, fun r l' _ => ?_⟩)
  cases r with
  | error e => trivial
  | ok n =>
  refine (wp_bind _ _).mpr (wp_call.mpr ⟨trivial, fun r l' _ => ?_⟩)
  cases r with
  | error e => trivial
  | ok u =>
  refine (wp_bind _ _).mpr (hquiet (only_quiet (w.still_recordAttempt _ (by decide))) fun _ l => ?_)
  refine (wp_bind _ _).mpr (hquiet (only_refreshRunStatus _) fun _ l => (wp_pure _).mpr ?_)
  refine (wp_bind _ _).mpr (hquiet (only_quiet (w.still_prepare pf seed _)) fun prepared l => ?_)
  obtain ⟨payload, timeout⟩ := prepared
  refine (wp_bind _ _).mpr ?_
  cases timeout with
  | none =>
    refine wp_ask.mpr ⟨trivial, fun run l' hl => w.judging_finish hooks _ run fun v hv => ?_⟩
    obtain rfl := hl
    refine List.mem_append_left _ (Option.mem_toList.mpr ?_)
    simp [returned, hv, Except.toOption]
  | some seconds =>
    refine (wp_bind _ _).mpr (wp_ask.mpr ⟨trivial, fun run l' hl => (wp_pure _).mpr
      (w.judging_finish hooks _ _ fun v hv => ?_)⟩)
    obtain rfl := hl
    refine List.mem_append_left _ (Option.mem_toList.mpr ?_)
    obtain ⟨payload', wall, outcome⟩ := run
    -- the deadline hands on a value only if the handler returned it in time
    have hout : outcome = some (.ok v) := by
      unfold withinDeadline at hv
      dsimp only at hv
      split at hv
      · cases hv
      · split at hv <;> cases hv
      next v' => rw [Except.ok.inj hv]
    subst hout
    rfl

/-- **A call of `run_once` without hooks** persists judged values only. -/
theorem judging_runOnce (hooks : w.hooks.hooks = []) (mem : RunMemory) (runId : RunId) :
    (w.runOnce pf mem runId).wp (judging pf) (fun _ _ => True) (fun _ _ => True) l := by
  refine judging_unjudged_bind (only_unjudged (only_quiet (w.still_startRun mem runId)))
    fun mem' l => (wp_bind _ _).mpr ((wp_attempt _).mpr ?_)
  refine wp_mono (Q := fun _ _ => True) (E := fun _ _ => True) ?_ (fun _ _ _ => trivial)
    fun _ _ _ => trivial
  refine (wp_bind _ _).mpr (wp_call.mpr ⟨trivial, fun r l' _ => ?_⟩)
  cases r with
  | error e => trivial
  | ok leased =>
    cases leased with
    | none => trivial
    | some task =>
      exact (wp_bind _ _).mpr (wp_mono (w.judging_attempt hooks _ runId task)
        (fun _ _ _ => trivial) fun _ _ _ => trivial)

end LocalWorker

/-! ## The rows of the store -/

/-- The value is on the log. -/
def OnLog (log : List Entry) (x : Returned) : Prop :=
  ∃ en ∈ log, returned en.effect en.reply = some x

/-- The row holds what the judge has made of the value, as the store keeps it. -/
structure PersistedFrom (pf : Platform) (s : StateStore) (x : Returned) (t : TaskRecord) :
    Prop where
  task : x.task = t.taskId
  judged : ∃ res, x.JudgedAs pf t.status res ∧ s.keep res = .ok t.result

/-- Workers of a run are started without hooks. -/
def withoutHooks : FleetGuard where
  start _ _ j := j.worker.hooks.hooks = []

/-- What the handlers of the workers have returned is on the log, and the row of the task goes
back to one of these values once it has a judged status. -/
structure Traceable (pf : Platform) (id : TaskId) (s : Traced) (l : WorkerId → List Returned) :
    Prop where
  logged : ∀ i, ∀ x ∈ l i, OnLog s.log x
  row : ∀ t, s.store.task? id = some t → t.status.judged = true →
    ∃ x, OnLog s.log x ∧ PersistedFrom pf s.store x t

theorem OnLog.cons {log : List Entry} {x : Returned} (h : OnLog log x) (en : Entry) :
    OnLog (en :: log) x := by
  obtain ⟨en', hm, hx⟩ := h
  exact ⟨en', List.mem_cons_of_mem _ hm, hx⟩

theorem keep_of_backend {s s' : StateStore} (h : s'.backend = s.backend) (r : Option Dict) :
    s'.keep r = s.keep r := by
  unfold StateStore.keep
  rw [h]

/-- A store call that is no judged update leaves judged rows what they were. -/
theorem row_kept {s : StateStore} {clk : Clock} {op : StoreOp} {id : TaskId}
    {t' : TaskRecord} (hop : StateStore.keepsTasks op) (ht' : (s.exec op clk).2.task? id = some t')
    (hj : t'.status.judged = true) :
    (∃ t, s.task? id = some t ∧ t.status = t'.status ∧ t.result = t'.result) ∨
      ∃ st r r' e, op = .updateTaskStatus id st r e ∧ s.keep r = .ok r' ∧ t'.status = st ∧
        t'.result = r' ∧ t'.taskId = id := by
  obtain ⟨t, ht, -⟩ := (s.exec_evolves clk hop).backward ht'
  have hid := s.task?_taskId ht
  cases StateStore.exec_row_some clk hop ht ht' with
  | same => exact .inl ⟨t', ht, rfl, rfl⟩
  | count => exact .inl ⟨t, ht, rfl, rfl⟩
  | settle edge kept =>
    exact .inr ⟨_, _, _, _, congrArg (StoreOp.updateTaskStatus · _ _ _) hid, kept, rfl, rfl, hid⟩
  | lease | mark | expire | reclaim | abandon => cases hj

theorem traceable_sound (pf : Platform) (id : TaskId) :
    (fleet pf).Sound (fun _ => judging pf) (fun _ => True) (Traceable pf id) withoutHooks where
  call := by
    intro s l i e a hJ hm _
    refine ⟨_, rfl, fun j x hx => ?_, fun t' ht' hj => ?_⟩
    · by_cases hji : j = i
      · subst hji
        rw [Function.update_self] at hx
        rcases List.mem_append.mp hx with hx | hx
        · exact ⟨_, List.mem_cons_self, Option.mem_toList.mp hx⟩
        · exact (hJ.logged j x hx).cons _
      · rw [Function.update_of_ne hji] at hx
        exact (hJ.logged j x hx).cons _
    · cases e with
      | ext x =>
        obtain ⟨x, hlog, hfrom⟩ := hJ.row t' ht' hj
        exact ⟨x, hlog.cons _, hfrom⟩
      | store op =>
        have hop : StateStore.keepsTasks op := by
          cases op <;> first | exact hm.elim | trivial
        have hbackend := s.store.exec_backend a.clock op
        rcases row_kept hop ht' hj with ⟨t, ht, hst, hres⟩ | ⟨st, r, r', err, rfl, hk, hst, hres, hid⟩
        · obtain ⟨x, hlog, hfrom⟩ := hJ.row t ht (by rw [hst]; exact hj)
          obtain ⟨res, hjudged, hkeep⟩ := hfrom.judged
          refine ⟨x, hlog.cons _, ?_, res, by rw [← hst]; exact hjudged, ?_⟩
          · rw [hfrom.task, s.store.task?_taskId ht, StateStore.task?_taskId _ ht']
          · exact (keep_of_backend hbackend _).trans (hkeep.trans (congrArg _ hres))
        · obtain ⟨x, hx, htask, hjudged⟩ := hm (by rw [← hst]; exact hj)
          refine ⟨x, (hJ.logged i x hx).cons _, htask.trans hid.symm, r, ?_, ?_⟩
          · rw [hst]
            exact hjudged
          · exact (keep_of_backend hbackend _).trans (hk.trans (congrArg _ hres.symm))
  start := by
    intro s l i job prog s' hJ _ hG hsp
    obtain ⟨-, rfl, rfl⟩ := fleet_spawn hsp
    refine ⟨[], (job.workerFor i).judging_runOnce hG job.memory job.runId, ?_, hJ.row⟩
    intro j x hx
    by_cases hji : j = i
    · subst hji
      rw [Function.update_self] at hx
      cases hx
    · rw [Function.update_of_ne hji] at hx
      exact hJ.logged j x hx
  crash := by
    intro s l i hJ _
    refine ⟨l i, ?_, hJ.row⟩
    rw [Function.update_eq_self]
    exact hJ.logged
  env := by
    intro s l d s' hJ _ hs
    obtain rfl := Option.some.inj hs
    refine ⟨hJ.logged, fun t' ht' hj => ?_⟩
    have hop : StateStore.keepsTasks d.1.op := by cases d.1 <;> trivial
    rcases row_kept hop ht' hj with ⟨t, ht, hst, hres⟩ | ⟨st, r, r', err, hx, -⟩
    · obtain ⟨x, hlog, hfrom⟩ := hJ.row t ht (by rw [hst]; exact hj)
      obtain ⟨res, hjudged, hkeep⟩ := hfrom.judged
      refine ⟨x, hlog, ?_, res, by rw [← hst]; exact hjudged, ?_⟩
      · rw [hfrom.task, s.store.task?_taskId ht, StateStore.task?_taskId _ ht']
      · exact (keep_of_backend (s.store.exec_backend d.2 d.1.op) _).trans
          (hkeep.trans (congrArg _ hres))
    · cases hd : d.1 <;> rw [hd] at hx <;> cases hx

/-- **Every judged row goes back to a handler call.** -/
theorem persisted_from_handler {pf : Platform} {s : StateStore} {p : FleetState} {id : TaskId}
    {t : TaskRecord} (h : (fleet pf).machine.Steps withoutHooks.Meets (fleetOn s) p)
    (h0 : ∀ t₀, s.task? id = some t₀ → t₀.status.judged = false)
    (ht : p.shared.store.task? id = some t) (hj : t.status.judged = true) :
    ∃ x, OnLog p.shared.log x ∧ PersistedFrom pf p.shared.store x t := by
  have hinit : Service.Conforms (fun _ => judging pf) (fun _ => True) (Traceable pf id)
      (fleetOn s) := Service.conforms_initial (l := []) ⟨fun _ _ hx => (nomatch hx), fun t₀ h1 h2 => by
        rw [h0 t₀ h1] at h2
        cases h2⟩ trivial
  obtain ⟨l, hJ, -⟩ := (traceable_sound pf id).invariant h hinit
  exact hJ.row t ht hj

end FineTuneHarness
