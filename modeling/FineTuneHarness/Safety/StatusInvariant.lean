import FineTuneHarness.Executor.Attempt
import FineTuneHarness.Executor.RefreshOrder
import FineTuneHarness.Safety.MutualExclusion
import FineTuneHarness.Safety.RefreshReachable

/-!
# What the stored status of a run and its tasks have to do with each other

A refresh reads the run, lists the tasks and writes what it has computed; in between other
workers move the tasks and write as well. `Agreeing` says that the stored status is the target
of the tasks, or some worker is on its way to make it so. A request of a worker keeps it, unless
a status is written on the strength of a list that has been overtaken.
-/
namespace FineTuneHarness

open Library Library.Program

/-- The status stored for the run. -/
def StateStore.runStatus (s : StateStore) (id : RunId) : Option RunStatus :=
  (s.run? id).map (·.status)

/-! ## Reading the trace -/

/-- The tasks a `list_tasks` of the run has returned. -/
def Entry.lists (runId : RunId) : Entry → Option (List TaskRecord)
  | ⟨_, .store (.listTasks id), .ok tasks⟩ => if id = runId then some tasks else none
  | _ => none

/-- The tasks of the run as the worker has listed them last. -/
def lastListed (runId : RunId) (i : WorkerId) : List Entry → Option (List TaskRecord)
  | [] => none
  | e :: log => if e.worker = i then (e.lists runId).or (lastListed runId i log)
      else lastListed runId i log

/-- A status is written only while the tasks its worker has listed ask for the same as the
stored tasks; artifacts are written and registered. -/
def writesFresh (runId : RunId) (s : Traced) (i : WorkerId) (e : Effect) (a : Answers) : Bool :=
  match e with
  | .store (.updateRunStatus id _) => id ≠ runId || (lastListed runId i s.log).any fun tasks =>
      targetStatus tasks = targetStatus (s.store.tasksOf runId)
  | .store (.createArtifact x) => s.store.acceptsArtifact x
  | .ext (.writeArtifact x) => (a.ext (.writeArtifact x)).isOk
  | _ => true

/-- Workers of one run, none of which writes a status that has been overtaken. -/
def freshWrites (runId : RunId) : FleetGuard where
  start := fun _ _ j => j.runId = runId
  env := fun _ _ => False
  call := fun s i e a => writesFresh runId s i e a = true

/-! ## What a phase and a duty say about the store -/

/-- Somebody has taken the task. -/
def Taken (t : TaskRecord) : Prop := t.status = .leased ∨ 0 < t.attemptCount

/-- The task has been taken, or it has been taken away again and waits for the next worker, or
has been given up. -/
def StillTaken (waits : Prop) (t : TaskRecord) : Prop :=
  Taken t ∨ waits ∧ (t.status = .pending ∨ t.status.unsuccessful = true)

/-- Some task of the run has been attempted. -/
def Begun (s : StateStore) (runId : RunId) : Prop := ∃ t ∈ s.tasksOf runId, 0 < t.attemptCount

/-- The task is one of the run's and has been attempted. -/
def Attempted (s : StateStore) (runId : RunId) (t : TaskId) : Prop :=
  ∃ row, s.task? t = some row ∧ row.runId = runId ∧ 0 < row.attemptCount

/-- Some task of the run is `PENDING`. -/
def HasPending (s : StateStore) (runId : RunId) : Prop := ∃ t ∈ s.tasksOf runId, t.status = .pending

def Phase.Backed (waits : Prop) (runId : RunId) (s : StateStore) : Phase → Prop
  | .leased t => ∃ row, s.task? t = some row ∧ row.runId = runId ∧ StillTaken waits row
  | .counted t _ | .marked t _ | .oomSeen t _ _ => Attempted s runId t
  | _ => True

/-- What holds of the statuses a refresh has in hand when `st` is stored. -/
def Duty.Backed (runId : RunId) (s : StateStore) (st : RunStatus) : Duty → Prop
  | .clear | .leased _ => True
  | .owing t => Attempted s runId t
  | .read source => Begun s runId ∧ Fits (s.tasksOf runId) source ∧
      (source ≠ .validated → st ≠ .validated)
  | .listed source target => target ≠ .validated ∧ target ≠ source ∧
      source.canReach target = true ∧ (source ≠ .validated → st ≠ .validated)
  | .stepped target => target ∈ allowedRunTransitions .running ∧ st ≠ .validated

/-- The target a refresh has computed. -/
def Duty.target? : Duty → Option RunStatus
  | .listed _ target | .stepped target => some target
  | _ => none

/-- Some task is being executed. -/
def Phase.Executing (ph : Phase) : Prop := ∃ t, ph.executes t

/-- The refresh before the handler has been made, or is being made; where it has been made,
the run is no longer `VALIDATED`. -/
structure Linked (ph : Phase) (d : Duty) (st : RunStatus) : Prop where
  leased : ∀ t, d = .leased t → ph = .leased t ∨ ∃ n, ph = .counted t n
  begun : d = .clear → ph.Executing → st ≠ .validated
  owing : ∀ t, d = .owing t → ¬ ph.Executing → st ≠ .validated
  source : ∀ X, (d = .read X ∨ ∃ T, d = .listed X T) → ¬ ph.Executing → X ≠ .validated

/-- The worker is on its way to store what the tasks ask for. -/
def Duty.Repairs (runId : RunId) (s : StateStore) (st : RunStatus) : Duty → Prop
  | .clear => False
  | .leased t => s.statusOf t = some .leased
  | .owing _ => True
  | .read source => source = st
  | .listed _ target => target = targetStatus (s.tasksOf runId)
  | .stepped target => target = targetStatus (s.tasksOf runId) ∧ st = .running

/-- The invariant, with `st` stored for the run. Where tasks are taken away from their workers,
a `PENDING` task is as good as a refresh: `waits` says whether they are. -/
structure Agreeing (waits : Prop) (runId : RunId) (s : Traced)
    (l : WorkerId → (Int × Phase) × Duty) (st : RunStatus) : Prop where
  stored : s.store.runStatus runId = some st
  fits : Fits (s.store.tasksOf runId) st
  phases : ∀ i, (l i).1.2.Backed waits runId s.store
  duties : ∀ i, (l i).2.Backed runId s.store st
  linked : ∀ i, Linked (l i).1.2 (l i).2 st
  listing : ∀ i T, (l i).2.target? = some T →
    (lastListed runId i s.log).map targetStatus = some T
  repair : st = targetStatus (s.store.tasksOf runId) ∨ (∃ i, (l i).2.Repairs runId s.store st) ∨
    waits ∧ HasPending s.store runId

/-! ## What every step keeps -/

/-- Attempts are never uncounted, and a task stays in hand. -/
structure Keeps (waits : Prop) (s s' : StateStore) : Prop where
  evolves : s.Evolves s'
  hand : ∀ t row row', s.task? t = some row → s'.task? t = some row' →
    StillTaken waits row → StillTaken waits row'

section Keep

variable {waits : Prop} {runId : RunId} {s s' : StateStore} {st st' : RunStatus}

theorem Keeps.of_tasks (h : s'.tables.tasks = s.tables.tasks) : Keeps waits s s' where
  evolves := .of_tasks h
  hand := by
    intro t row row' hr hr' ht
    rw [StateStore.task?, h, ← StateStore.task?, hr] at hr'
    obtain rfl := Option.some.inj hr'
    exact ht

theorem Attempted.keep {t : TaskId} (h : Attempted s runId t) (hk : s.Evolves s') :
    Attempted s' runId t := by
  obtain ⟨row, hr, hid, ha⟩ := h
  obtain ⟨row', hr', hl⟩ := hk.forward hr
  exact ⟨row', hr', hl.runId.trans hid, ha.trans_le hl.attempts⟩

theorem Attempted.begun {t : TaskId} (h : Attempted s runId t) : Begun s runId := by
  obtain ⟨row, hr, hid, ha⟩ := h
  exact ⟨row, s.mem_tasksOf.mpr ⟨by rw [s.task?_taskId hr]; exact hr, hid⟩, ha⟩

theorem Begun.keep (h : Begun s runId) (hk : s.Evolves s') : Begun s' runId := by
  obtain ⟨t, ht, ha⟩ := h
  obtain ⟨t', ht', hl⟩ := hk.mem_tasksOf ht
  exact ⟨t', ht', ha.trans_le hl.attempts⟩

theorem Begun.target (h : Begun s runId) : targetStatus (s.tasksOf runId) ≠ .validated := by
  obtain ⟨t, ht, ha⟩ := h
  exact targetStatus_ne_validated ht (.inl ha)

theorem Phase.Backed.keep {ph : Phase} (h : ph.Backed waits runId s) (hk : Keeps waits s s') :
    ph.Backed waits runId s' := by
  cases ph with
  | leased t =>
    obtain ⟨row, hr, hid, ht⟩ := h
    obtain ⟨row', hr', hl⟩ := hk.evolves.forward hr
    exact ⟨row', hr', hl.runId.trans hid, hk.hand t row row' hr hr' ht⟩
  | counted | marked | oomSeen => exact Attempted.keep h hk.evolves
  | _ => trivial

theorem Duty.Backed.keep {d : Duty} (h : d.Backed runId s st) (hk : s.Evolves s')
    (hleft : st ≠ .validated → st' ≠ .validated) : d.Backed runId s' st' := by
  cases d with
  | clear | leased => trivial
  | owing t => exact Attempted.keep h hk
  | read source => exact ⟨h.1.keep hk, h.2.1.evolves hk, fun hx => hleft (h.2.2 hx)⟩
  | listed source target => exact ⟨h.1, h.2.1, h.2.2.1, fun hx => hleft (h.2.2.2 hx)⟩
  | stepped target => exact ⟨h.1, hleft h.2⟩

theorem Linked.keep {ph : Phase} {d : Duty} (h : Linked ph d st)
    (hleft : st ≠ .validated → st' ≠ .validated) : Linked ph d st' where
  leased := h.leased
  begun := fun hd hx => hleft (h.begun hd hx)
  owing := fun t hd hx => hleft (h.owing t hd hx)
  source := h.source

theorem lastListed_other {i j : WorkerId} {e : Entry} {log : List Entry} (hi : e.worker = i)
    (hj : j ≠ i) : lastListed runId j (e :: log) = lastListed runId j log := by
  rw [lastListed, if_neg fun h => hj (h.symm.trans hi)]

theorem lastListed_still {i : WorkerId} {e : Entry} {log : List Entry}
    (he : e.lists runId = none) : lastListed runId i (e :: log) = lastListed runId i log := by
  rw [lastListed, he, Option.none_or, ite_self]

end Keep

section Steps

variable {waits : Prop} {runId : RunId} {s : Traced} {l : WorkerId → (Int × Phase) × Duty} {st st' : RunStatus}
  {i : WorkerId}

/-- One worker's own entry: what is left to show of it, of the store and of its duty. -/
theorem Agreeing.advance (h : Agreeing waits runId s l st) {store : StateStore} {e : Entry}
    {b : Int} {ph : Phase} {d : Duty} (hi : e.worker = i)
    (hstored : store.runStatus runId = some st') (hfits : Fits (store.tasksOf runId) st')
    (hk : Keeps waits s.store store) (hleft : st ≠ .validated → st' ≠ .validated)
    (hph : ph.Backed waits runId store) (hd : d.Backed runId store st') (hlink : Linked ph d st')
    (hlist : ∀ T, d.target? = some T →
      (lastListed runId i (e :: s.log)).map targetStatus = some T)
    (hrepair : st' = targetStatus (store.tasksOf runId) ∨ d.Repairs runId store st' ∨
      (∃ j, j ≠ i ∧ (l j).2.Repairs runId store st') ∨ waits ∧ HasPending store runId) :
    Agreeing waits runId { s with store, log := e :: s.log } (Function.update l i ((b, ph), d)) st' where
  stored := hstored
  fits := hfits
  phases j := by
    by_cases hj : j = i
    · subst hj; rw [Function.update_self]; exact hph
    · rw [Function.update_of_ne hj]; exact (h.phases j).keep hk
  duties j := by
    by_cases hj : j = i
    · subst hj; rw [Function.update_self]; exact hd
    · rw [Function.update_of_ne hj]; exact (h.duties j).keep hk.evolves hleft
  linked j := by
    by_cases hj : j = i
    · subst hj; rw [Function.update_self]; exact hlink
    · rw [Function.update_of_ne hj]; exact (h.linked j).keep hleft
  listing j T hT := by
    by_cases hj : j = i
    · subst hj; rw [Function.update_self] at hT; exact hlist T hT
    · rw [Function.update_of_ne hj] at hT
      rw [lastListed_other hi hj]
      exact h.listing j T hT
  repair := by
    rcases hrepair with hs | hd | ⟨j, hj, hr⟩ | hw
    · exact .inl hs
    · exact .inr (.inl ⟨i, by rw [Function.update_self]; exact hd⟩)
    · exact .inr (.inl ⟨j, by rw [Function.update_of_ne hj]; exact hr⟩)
    · exact .inr (.inr hw)

/-- An entry that leaves the tasks and the stored status alone. -/
theorem Agreeing.still (h : Agreeing waits runId s l st) {store : StateStore} {e : Entry}
    {b : Int} {ph : Phase} {d : Duty} (hi : e.worker = i)
    (htasks : store.tables.tasks = s.store.tables.tasks)
    (hstored : store.runStatus runId = s.store.runStatus runId)
    (hph : ph.Backed waits runId s.store) (hd : d.Backed runId s.store st) (hlink : Linked ph d st)
    (hlist : ∀ T, d.target? = some T →
      (lastListed runId i (e :: s.log)).map targetStatus = some T)
    (hrepair : (l i).2.Repairs runId s.store st →
      st = targetStatus (s.store.tasksOf runId) ∨ d.Repairs runId s.store st) :
    Agreeing waits runId { s with store, log := e :: s.log } (Function.update l i ((b, ph), d)) st := by
  have hk : Keeps waits s.store store := .of_tasks htasks
  have hof : store.tasksOf runId = s.store.tasksOf runId := by
    rw [StateStore.tasksOf, htasks, StateStore.tasksOf]
  have hsame : ∀ d : Duty, d.Repairs runId s.store st → d.Repairs runId store st := by
    intro d hd
    cases d with
    | leased t =>
      change store.statusOf t = _
      rw [StateStore.statusOf, StateStore.task?, htasks]
      exact hd
    | listed source target => exact Eq.trans hd (congrArg targetStatus hof.symm)
    | stepped target => exact ⟨hd.1.trans (congrArg targetStatus hof.symm), hd.2⟩
    | clear | owing | read => exact hd
  refine h.advance hi (hstored.trans h.stored) (hof ▸ h.fits) hk id (hph.keep hk)
    (hd.keep hk.evolves id) hlink hlist ?_
  rw [hof]
  rcases h.repair with hs | ⟨j, hj⟩ | ⟨hw, hp⟩
  · exact .inl hs
  · by_cases hji : j = i
    · exact (hrepair (hji ▸ hj)).imp_right fun hr => .inl (hsame d hr)
    · exact .inr (.inr (.inl ⟨j, hji, hsame _ hj⟩))
  · exact .inr (.inr (.inr ⟨hw, by rw [HasPending, hof]; exact hp⟩))

/-- Requests that write neither a task nor the status of a run. -/
theorem quiet_runStatus {e : Effect} (hq : Quiet e)
    (hne : ∀ id x, e ≠ .store (.updateRunStatus id x)) (a : Answers) (s : StateStore) :
    (e.perform a s).2.runStatus runId = s.runStatus runId := by
  cases e with
  | ext x => rfl
  | store op =>
    cases op with
    | updateRunStatus id x => exact absurd rfl (hne id x)
    | updateRunFinishedAt id t =>
      cases hr : s.run? id with
      | none =>
        obtain ⟨x, hx⟩ := s.exec_updateRunFinishedAt_none a.clock hr t
        rw [Effect.perform, hx]
      | some r =>
        rw [Effect.perform, s.exec_updateRunFinishedAt _ hr, StateStore.runStatus,
          StateStore.modifyRun_run?]
        split
        next hid => rw [hid, StateStore.runStatus, hr]; rfl
        next => rfl
    | getRun | listTasks | appendEvent | createArtifact =>
      exact congrArg (Option.map RunRecord.status) (workerCall_run? rfl)
    | _ => exact hq.elim

/-- The calls of workers keep what is in hand, if only attempted tasks are marked and settled. -/
theorem keeps_exec {s : StateStore} {clk : Clock} {op : StoreOp} (hw : StateStore.keepsTasks op)
    (hq : ∀ id, op ≠ .requeueExpiredLeases id) (hr : ∀ id w n, op ≠ .reclaimDeadWorker id w n)
    (hatt : ∀ t, (op = .markTaskRunning t ∨ ∃ st r e, op = .updateTaskStatus t st r e) →
      Attempted s runId t) : Keeps waits s (s.exec op clk).2 where
  evolves := s.exec_evolves clk hw
  hand := by
    intro t row row' ht ht' hhand
    have hid := s.task?_taskId ht
    have hcount : Attempted s runId t → 0 < row.attemptCount := by
      rintro ⟨row₀, h0, -, ha⟩
      rw [Option.some.inj (ht.symm.trans h0)]
      exact ha
    have hc := StateStore.exec_row_some clk hw ht ht'
    cases hc with
    | same => exact hhand
    | lease => exact .inl (.inl rfl)
    | count => exact .inl (.inr (Nat.succ_pos _))
    | mark => exact .inl (.inr (hcount (hatt t (.inl (by rw [hid])))))
    | settle => exact .inl (.inr (hcount (hatt t (.inr ⟨_, _, _, by rw [hid]⟩))))
    | expire => exact absurd rfl (hq _)
    | reclaim | abandon => exact absurd rfl (hr _ _ _)

/-! ## The requests of one worker -/

variable {a : Answers}

theorem Agreeing.run_known (h : Agreeing waits runId s l st) :
    ∃ r, s.store.run? runId = some r ∧ r.status = st :=
  Option.map_eq_some_iff.mp h.stored

/-- A task in hand is on record. -/
theorem Agreeing.task_known (h : Agreeing waits runId s l st) {t : TaskId}
    (ht : (l i).2 = .leased t ∨ (l i).2 = .owing t) : ∃ row, s.store.task? t = some row := by
  have hph := h.phases i
  rcases ht with ht | ht
  · rcases (h.linked i).leased t ht with hp | ⟨n, hp⟩ <;> rw [hp] at hph
    · obtain ⟨row, hr, -⟩ := hph
      exact ⟨row, hr⟩
    · obtain ⟨row, hr, -⟩ := hph
      exact ⟨row, hr⟩
  · have hd := h.duties i
    rw [ht] at hd
    obtain ⟨row, hr, -⟩ := hd
    exact ⟨row, hr⟩

/-- While something is owed, every request is served. -/
theorem Agreeing.served (h : Agreeing waits runId s l st) {e : Effect}
    (hm : (l i).2.may runId e) (hG : writesFresh runId s i e a = true) :
    e.mayFail (l i).2 ∨ Served e (e.perform a s.store).1 := by
  obtain ⟨r, hr, -⟩ := h.run_known
  have hevent : ∀ e : EventRecord, e.runId = runId → e.payload.throughJson.isOk = true →
      (∀ t, e.taskId = some t → ∃ row, s.store.task? t = some row) →
      Served (.store (.appendEvent e)) ((Effect.store (.appendEvent e)).perform a s.store).1 := by
    intro e hid hp ht
    obtain ⟨e', he⟩ := s.store.keepEvent_of hp (by rw [hid, hr]; exact Option.some_ne_none r)
      fun t htask => by
        obtain ⟨row, hrow⟩ := ht t htask
        rw [hrow]
        exact Option.some_ne_none row
    rw [Effect.perform, s.store.exec_appendEvent, he]
    rfl
  have hget : ∀ id, id = runId → Served (.store (.getRun id))
      ((Effect.store (.getRun id)).perform a s.store).1 := by
    rintro id rfl
    rw [Effect.perform, s.store.exec_getRun]
    exact ⟨r, congrArg Except.ok hr⟩
  cases hd : (l i).2 with
  | clear =>
    cases e with
    | ext x => exact .inl rfl
    | store op => cases op <;> first | exact .inl rfl | exact .inl trivial
  | leased t =>
    rw [hd] at hm
    cases e with
    | ext x => exact hm.elim
    | store op =>
      cases op <;> first | exact hm.elim | skip
      · exact .inl trivial
      next id =>
        obtain rfl : id = t := hm
        obtain ⟨row, hrow⟩ := h.task_known (.inl hd)
        rw [Effect.perform, s.store.exec_incrementTaskAttempts _ hrow]
        exact .inr rfl
  | owing t =>
    rw [hd] at hm
    cases e with
    | ext x =>
      cases x <;> first | exact .inr hG | exact .inr trivial
    | store op =>
      cases op <;> first | exact hm.elim | skip
      · exact .inr (hget _ hm)
      next e =>
        obtain ⟨hid, htask, hp⟩ := hm
        refine .inr (hevent e hid hp fun t' ht' => ?_)
        obtain rfl := Option.some.inj (htask.symm.trans ht')
        exact h.task_known (.inr hd)
      next x =>
        have hx := s.store.exec_createArtifact_of a.clock x
        rw [if_pos (show s.store.acceptsArtifact x = true from hG)] at hx
        rw [Effect.perform, hx]
        exact .inr rfl
  | read source =>
    rw [hd] at hm
    cases e with
    | ext x => exact hm.elim
    | store op =>
      cases op <;> first | exact hm.elim | skip
      rw [Effect.perform, s.store.exec_listTasks]
      exact .inr rfl
  | listed source target =>
    rw [hd] at hm
    cases e with
    | ext x => exact hm.elim
    | store op =>
      cases op <;> first | exact hm.elim | skip
      obtain ⟨rfl, -⟩ := hm
      rw [Effect.perform, s.store.exec_updateRunStatus _ hr]
      exact .inr rfl
  | stepped target =>
    rw [hd] at hm
    cases e with
    | ext x => exact hm.elim
    | store op =>
      cases op <;> first | exact hm.elim | skip
      · exact .inr (hget _ hm)
      next e =>
        obtain ⟨hid, htask, hp⟩ := hm
        exact .inr (hevent e hid hp fun t ht => by rw [htask] at ht; cases ht)

/-- The statuses that no refresh may move. -/
def RunStatus.ended (st : RunStatus) : Prop := st = .completed ∨ st = .failed

theorem Fits.ended_target {tasks : List TaskRecord} (h : Fits tasks st) (he : st.ended) :
    targetStatus tasks = st := by
  rcases he with rfl | rfl
  · exact targetStatus_completed h.1 h.2
  · exact targetStatus_failed h.1 h.2

/-- No task runs in a run that has ended. -/
theorem Fits.not_running {tasks : List TaskRecord} (h : Fits tasks st) (he : st.ended)
    {t : TaskRecord} (ht : t ∈ tasks) : t.status ≠ .running := by
  intro hr
  rcases he with rfl | rfl
  · have := h.2 t ht
    rw [hr] at this
    cases this
  · rcases h.2 t ht with hx | hx <;> rw [hr] at hx <;> cases hx

/-- The run is written while the tasks still ask for the listed target. -/
theorem Agreeing.write_step (h : Agreeing waits runId s l st) {source target : RunStatus}
    (hd : (l i).2 = .listed source target) {x : RunStatus}
    (hxt : x = if target ∈ allowedRunTransitions source then target else .running)
    (hG : writesFresh runId s i (.store (.updateRunStatus runId x)) a = true) {r : RunRecord}
    (hr : s.store.run? runId = some r) :
    Agreeing waits runId
      { s with
        store := s.store.modifyRun runId (·.setStatus x) (·.setStatus_runId _)
        log := ⟨i, .store (.updateRunStatus runId x), .ok ()⟩ :: s.log }
      (Function.update l i (((l i).1.1, (l i).1.2),
        if target ∈ allowedRunTransitions source then .clear else .stepped target)) x ∧
    ((Exclusive s fun i => (l i).1) → st.ended → x = st) := by
  have hduty := h.duties i
  rw [hd] at hduty
  obtain ⟨hv, hne, hreach, hsv⟩ := hduty
  -- the guard and the list say that the target is still the tasks'
  have htarget : target = targetStatus (s.store.tasksOf runId) := by
    simp only [writesFresh, ne_eq, not_true_eq_false, decide_false, Bool.false_or,
      Option.any_eq_true, decide_eq_true_eq] at hG
    obtain ⟨tasks, hts, heq⟩ := hG
    have := h.listing i target (by rw [hd]; rfl)
    rw [hts] at this
    exact (Option.some.inj this).symm.trans heq
  have hstored : (s.store.modifyRun runId (·.setStatus x) (·.setStatus_runId _)).runStatus runId =
      some x := by
    rw [StateStore.runStatus, StateStore.modifyRun_run?_self, hr]
    rfl
  have hk : Keeps waits s.store (s.store.modifyRun runId (·.setStatus x) (·.setStatus_runId _)) :=
    .of_tasks rfl
  have hlast : lastListed runId i
      ((⟨i, .store (.updateRunStatus runId x), .ok ()⟩ : Entry) :: s.log) =
      lastListed runId i s.log := lastListed_still rfl
  by_cases hedge : target ∈ allowedRunTransitions source
  · rw [if_pos hedge] at hxt ⊢
    subst hxt
    refine ⟨h.advance rfl hstored ?_ hk (fun _ => hv) ((h.phases i).keep hk) trivial
      ⟨(by intro t ht; cases ht), fun _ _ => hv, (by intro t ht; cases ht), ?_⟩
      (by intro T hT; cases hT) (.inl htarget), fun _ he => ?_⟩
    · exact htarget ▸ fits_targetStatus
    · rintro X (hX | ⟨T, hX⟩) <;> cases hX
    · exact htarget.trans (h.fits.ended_target he)
  · rw [if_neg hedge] at hxt ⊢
    subst hxt
    simp only [RunStatus.canReach, hne, hedge, decide_false, Bool.false_or, Bool.and_eq_true,
      decide_eq_true_eq] at hreach
    refine ⟨h.advance rfl hstored ?_ hk (fun _ => by decide) ((h.phases i).keep hk)
      ⟨hreach.2, by decide⟩
      ⟨(by intro t ht; cases ht), (by intro ht; cases ht), (by intro t ht; cases ht), ?_⟩
      ?_ (.inr (.inl ⟨htarget, rfl⟩)), fun hx he => ?_⟩
    · intro hemp
      rw [htarget] at hv
      exact hv (by rw [show s.store.tasksOf runId = [] from hemp]; rfl)
    · rintro X (hX | ⟨T, hX⟩) <;> cases hX
    · intro T hT
      obtain rfl := Option.some.inj hT
      rw [hlast]
      exact h.listing i _ (by rw [hd]; rfl)
    · -- only a refresh before the handler starts from `VALIDATED`, and then a task runs
      have hsource : source = .validated := by
        cases source <;> first | rfl | (exact absurd hreach.1 (by decide))
      have hex : (l i).1.2.Executing := by
        by_contra hn
        exact (h.linked i).source source (.inr ⟨target, hd⟩) hn hsource
      obtain ⟨t, hex⟩ := hex
      have hrun := hx.running i t (hx.executes i t hex)
      have hph := h.phases i
      have hatt : Attempted s.store runId t := by
        generalize (l i).1.2 = ph at hex hph
        cases ph <;> first | exact hex.elim | (obtain rfl := hex; exact hph)
      obtain ⟨row, hrow, hid, -⟩ := hatt
      have hm : row ∈ s.store.tasksOf runId :=
        s.store.mem_tasksOf.mpr ⟨by rw [s.store.task?_taskId hrow]; exact hrow, hid⟩
      refine absurd ?_ (h.fits.not_running he hm)
      rw [StateStore.statusOf_eq hrow] at hrun
      exact Option.some.inj hrun

/-- The run is read at the start of a refresh, or again on the way through `RUNNING`. -/
theorem Agreeing.read_step (h : Agreeing waits runId s l st) {id : RunId}
    (hm : (l i).2.may runId (.store (.getRun id))) {r : RunRecord}
    (hr : s.store.run? runId = some r) (hst : r.status = st) :
    Agreeing waits runId
      { s with log := ⟨i, .store (.getRun id), .ok (s.store.run? id)⟩ :: s.log }
      (Function.update l i ((l i).1, (l i).2.next (.store (.getRun id)) (.ok (s.store.run? id))))
      st := by
  have hd := h.duties i
  have hlink := h.linked i
  have hlisting := h.listing i
  generalize hph : (l i).1 = p at hlink ⊢
  obtain ⟨b, ph⟩ := p
  have hph' : ph.Backed waits runId s.store := by
    have := h.phases i
    rwa [hph] at this
  cases hdu : (l i).2 with
  | clear =>
    rw [hdu] at hd hlink
    exact h.still rfl rfl rfl hph' trivial hlink (by intro T hT; cases hT)
      fun hx => by rw [hdu] at hx; exact hx.elim
  | owing t =>
    rw [hdu] at hm hd hlink
    obtain rfl : id = runId := hm
    rw [hr]
    change Agreeing _ _ _ (Function.update l i ((b, ph), .read r.status)) st
    rw [hst]
    refine h.still rfl rfl rfl hph' ⟨Attempted.begun hd, h.fits, fun hx => hx⟩
      ⟨(by intro t ht; cases ht), (by intro ht; cases ht), (by intro t ht; cases ht), ?_⟩
      (by intro T hT; cases hT) fun _ => .inr rfl
    rintro X (hX | ⟨T, hX⟩) hn
    · obtain rfl : st = X := Duty.read.inj hX
      exact hlink.owing t rfl hn
    · cases hX
  | stepped target =>
    rw [hdu] at hm hd hlink hlisting
    obtain rfl : id = runId := hm
    obtain ⟨htarget, hleft⟩ := hd
    have hlast : lastListed id i ((⟨i, .store (.getRun id), .ok (some r)⟩ : Entry) :: s.log) =
        lastListed id i s.log := lastListed_still rfl
    rw [hr]
    change Agreeing _ _ _ (Function.update l i ((b, ph), Duty.afterStep r.status target)) st
    rw [hst]
    unfold Duty.afterStep
    split
    next hedge =>
      have hne : target ≠ st ∧ target ≠ .validated := by
        constructor
        · rintro rfl
          cases target <;> simp [allowedRunTransitions] at hedge
        · rintro rfl
          exact absurd htarget (by decide)
      refine h.still rfl rfl rfl hph'
        ⟨hne.2, hne.1, by simp [RunStatus.canReach, hedge], fun _ => hleft⟩
        ⟨(by intro t ht; cases ht), (by intro ht; cases ht), (by intro t ht; cases ht), ?_⟩
        ?_ fun hx => .inr ?_
      · rintro X (hX | ⟨T, hX⟩) hn
        · cases hX
        · obtain ⟨rfl, -⟩ := Duty.listed.inj hX
          exact hleft
      · intro T hT
        rw [hlast]
        exact hlisting T hT
      · rw [hdu] at hx
        exact hx.1
    next hstuck =>
      refine h.still rfl rfl rfl hph' trivial
        ⟨(by intro t ht; cases ht), fun _ _ => hleft, (by intro t ht; cases ht), ?_⟩
        (by intro T hT; cases hT) fun hx => ?_
      · rintro X (hX | ⟨T, hX⟩) <;> cases hX
      · rw [hdu] at hx
        exact absurd htarget (by rw [← hx.2]; exact hstuck)
  | leased | read | listed => rw [hdu] at hm; exact hm.elim

/-- The tasks are listed, and the target is compared with the status that was read. -/
theorem Agreeing.list_step (h : Agreeing waits runId s l st) {id : RunId}
    (hm : (l i).2.may runId (.store (.listTasks id))) :
    Agreeing waits runId
      { s with log := ⟨i, .store (.listTasks id), .ok (s.store.tasksOf id)⟩ :: s.log }
      (Function.update l i
        ((l i).1, (l i).2.next (.store (.listTasks id)) (.ok (s.store.tasksOf id)))) st := by
  have hd := h.duties i
  have hlink := h.linked i
  generalize hph : (l i).1 = p at hlink ⊢
  obtain ⟨b, ph⟩ := p
  have hph' : ph.Backed waits runId s.store := by
    have := h.phases i
    rwa [hph] at this
  cases hdu : (l i).2 with
  | clear | leased | owing | listed | stepped => rw [hdu] at hm; exact hm.elim
  | read source =>
    rw [hdu] at hm hd hlink
    obtain rfl : id = runId := hm
    obtain ⟨hbegun, hfit, hleft⟩ := hd
    have hv := hbegun.target
    change Agreeing _ _ _ (Function.update l i
      ((b, ph), Duty.afterList source (targetStatus (s.store.tasksOf id)))) st
    unfold Duty.afterList
    split
    next hmove =>
      refine h.still rfl rfl rfl hph' ⟨hv, hmove.1, hmove.2, hleft⟩
        ⟨(by intro t ht; cases ht), (by intro ht; cases ht), (by intro t ht; cases ht), ?_⟩
        ?_ fun _ => .inr rfl
      · rintro X (hX | ⟨T, hX⟩) hn
        · cases hX
        · obtain ⟨rfl, -⟩ := Duty.listed.inj hX
          exact hlink.source _ (.inl rfl) hn
      · intro T hT
        obtain rfl := Option.some.inj hT
        simp [lastListed, Entry.lists]
    next hstay =>
      -- whatever fits reaches the target, so the two are the same
      have hreach := (canReach_target hfit).mpr fun hc => hv hc.2
      have hsame : targetStatus (s.store.tasksOf id) = source := by
        by_contra hne
        exact hstay ⟨hne, hreach⟩
      refine h.still rfl rfl rfl hph' trivial
        ⟨(by intro t ht; cases ht), fun _ _ => hleft (hsame ▸ hv), (by intro t ht; cases ht), ?_⟩
        (by intro T hT; cases hT) fun hx => .inl ?_
      · rintro X (hX | ⟨T, hX⟩) <;> cases hX
      · rw [hdu] at hx
        exact (show source = st from hx).symm.trans hsame.symm

/-- Every other request that touches no row. -/
theorem Agreeing.idle_step (h : Agreeing waits runId s l st) {e : Effect} (hq : Quiet e)
    (hget : ∀ id, e ≠ .store (.getRun id)) (hlist : ∀ id, e ≠ .store (.listTasks id))
    (hwrite : ∀ id x, e ≠ .store (.updateRunStatus id x)) :
    Agreeing waits runId
      { s with store := (e.perform a s.store).2, log := ⟨i, e, (e.perform a s.store).1⟩ :: s.log }
      (Function.update l i ((l i).1, (l i).2.next e (e.perform a s.store).1)) st := by
  generalize (e.perform a s.store).1 = reply
  have hnext : (l i).2.next e reply = (l i).2 := by
    cases e with
    | ext x => cases (l i).2 <;> rfl
    | store op =>
      cases op with
      | getRun id => exact absurd rfl (hget id)
      | listTasks id => exact absurd rfl (hlist id)
      | updateRunStatus id x => exact absurd rfl (hwrite id x)
      | appendEvent | createArtifact | updateRunFinishedAt => cases (l i).2 <;> rfl
      | _ => exact hq.elim
  have hlists : Entry.lists runId ⟨i, e, reply⟩ = none := by
    cases e with
    | ext x => rfl
    | store op => cases op <;> first | rfl | exact absurd rfl (hlist _)
  rw [hnext]
  refine h.still rfl (hq.perform_tasks a s.store) (quiet_runStatus hq hwrite a s.store)
    (h.phases i) (h.duties i) (h.linked i) (fun T hT => ?_) .inr
  rw [lastListed_still hlists]
  exact h.listing i T hT

/-! ### Requests on the task in hand -/

theorem Agreeing.lease_step (h : Agreeing waits runId s l st) {n : Int}
    (hph : (l i).1.2 = .free) (hdu : (l i).2 = .clear) :
    Agreeing waits runId
      { s with
        store := (s.store.exec (.leaseNextPendingTask runId i n) a.clock).2
        log := ⟨i, .store (.leaseNextPendingTask runId i n),
          (s.store.exec (.leaseNextPendingTask runId i n) a.clock).1⟩ :: s.log }
      (Function.update l i (((l i).1.1, (l i).1.2.next (l i).1.1
          (.store (.leaseNextPendingTask runId i n))
          (s.store.exec (.leaseNextPendingTask runId i n) a.clock).1),
        (l i).2.next (.store (.leaseNextPendingTask runId i n))
          (s.store.exec (.leaseNextPendingTask runId i n) a.clock).1)) st := by
  have hk : Keeps waits s.store (s.store.exec (.leaseNextPendingTask runId i n) a.clock).2 :=
    @keeps_exec waits runId _ _ _ trivial (fun _ he => by cases he) (fun _ _ _ he => by cases he)
      fun t ht => by rcases ht with ht | ⟨_, _, _, ht⟩ <;> cases ht
  rw [hph, hdu]
  rcases s.store.lease_cases a.clock runId i n with ⟨t, es, hr, hid, -, hx⟩ | ⟨-, hx⟩ <;>
    rw [hx] at hk ⊢
  · have hrow : ((s.store.modifyTask t.taskId (·.leaseTo i (leaseUntil a.clock.later n))
        (·.leaseTo_taskId _ _)).addEvents es).task? t.taskId =
        some (t.leaseTo i (leaseUntil a.clock.later n)) := by
      simp [hr]
    refine h.advance rfl h.stored (h.fits.evolves hk.evolves) hk (fun hx => hx)
      ⟨_, hrow, hid, .inl (.inl rfl)⟩ trivial
      ⟨fun t' ht => .inl (by rw [← Duty.leased.inj ht]; rfl), (by intro ht; cases ht),
        (by intro t ht; cases ht), ?_⟩ (by intro T hT; cases hT) (.inr (.inl ?_))
    · rintro X (hX | ⟨T, hX⟩) <;> cases hX
    · exact StateStore.statusOf_eq hrow
  · refine h.still rfl rfl rfl trivial trivial
      ⟨(by intro t ht; cases ht), ?_, (by intro t ht; cases ht), ?_⟩
      (by intro T hT; cases hT) fun hx => by rw [hdu] at hx; exact hx.elim
    · rintro - ⟨t, hx⟩
      exact hx.elim
    · rintro X (hX | ⟨T, hX⟩) <;> cases hX

/-- A count moves no target where the task has been attempted before or has been given up. -/
theorem targetStatus_counted {s : StateStore} {t : TaskRecord} (hr : s.task? t.taskId = some t)
    (hid : t.runId = runId) (ha : 0 < t.attemptCount ∨ t.status.unsuccessful = true) :
    targetStatus ((s.modifyTask t.taskId TaskRecord.countAttempt
      TaskRecord.countAttempt_taskId).tasksOf runId) = targetStatus (s.tasksOf runId) := by
  have hfwd : ∀ u ∈ s.tasksOf runId, ∃ u' ∈ (s.modifyTask t.taskId TaskRecord.countAttempt
      TaskRecord.countAttempt_taskId).tasksOf runId, u'.status = u.status ∧
      (0 < t.attemptCount → (0 < u'.attemptCount ↔ 0 < u.attemptCount)) := by
    intro u hu
    obtain ⟨h1, h2⟩ := s.mem_tasksOf.mp hu
    by_cases hid : u.taskId = t.taskId
    · rw [hid, hr] at h1
      obtain rfl := Option.some.inj h1
      refine ⟨t.countAttempt, (StateStore.mem_tasksOf _).mpr ⟨?_, h2⟩, rfl, fun ha => ?_⟩
      · change (s.modifyTask t.taskId _ _).task? t.taskId = _
        rw [StateStore.modifyTask_task?_self, hr]
        rfl
      · exact ⟨fun _ => ha, fun _ => Nat.succ_pos _⟩
    · exact ⟨u, (StateStore.mem_tasksOf _).mpr
        ⟨by rw [StateStore.modifyTask_task?, if_neg hid]; exact h1, h2⟩, rfl, fun _ => Iff.rfl⟩
  have hback : ∀ u' ∈ (s.modifyTask t.taskId TaskRecord.countAttempt
      TaskRecord.countAttempt_taskId).tasksOf runId, ∃ u ∈ s.tasksOf runId, u.status = u'.status ∧
      (0 < t.attemptCount → (0 < u.attemptCount ↔ 0 < u'.attemptCount)) := by
    intro u' hu'
    obtain ⟨h1, h2⟩ := (StateStore.mem_tasksOf _).mp hu'
    by_cases hid : u'.taskId = t.taskId
    · rw [hid, StateStore.modifyTask_task?_self, hr] at h1
      obtain rfl : t.countAttempt = u' := Option.some.inj h1
      exact ⟨t, s.mem_tasksOf.mpr ⟨hr, h2⟩, rfl, fun ha => ⟨fun _ => Nat.succ_pos _, fun _ => ha⟩⟩
    · rw [StateStore.modifyTask_task?, if_neg hid] at h1
      exact ⟨u', s.mem_tasksOf.mpr ⟨h1, h2⟩, rfl, fun _ => Iff.rfl⟩
  rcases ha with ha | hu
  · refine targetStatus_congr (fun u hu => ?_) fun u' hu' => ?_
    · obtain ⟨u', hu', hs, hc⟩ := hfwd u hu
      exact ⟨u', hu', hs, hc ha⟩
    · obtain ⟨u, hu, hs, hc⟩ := hback u' hu'
      exact ⟨u, hu, hs, hc ha⟩
  · refine targetStatus_congr_of_unsuccessful (fun u hu => ?_) (fun u' hu' => ?_)
      (s.mem_tasksOf.mpr ⟨hr, hid⟩) hu
    · obtain ⟨u', hu', hs, -⟩ := hfwd u hu
      exact ⟨u', hu', hs⟩
    · obtain ⟨u, hu, hs, -⟩ := hback u' hu'
      exact ⟨u, hu, hs⟩

theorem Agreeing.count_step (h : Agreeing waits runId s l st) {t : TaskId}
    (hph : (l i).1.2 = .leased t) (hdu : (l i).2 = .leased t) :
    Agreeing waits runId
      { s with
        store := (s.store.exec (.incrementTaskAttempts t) a.clock).2
        log := ⟨i, .store (.incrementTaskAttempts t),
          (s.store.exec (.incrementTaskAttempts t) a.clock).1⟩ :: s.log }
      (Function.update l i (((l i).1.1, (l i).1.2.next (l i).1.1
          (.store (.incrementTaskAttempts t))
          (s.store.exec (.incrementTaskAttempts t) a.clock).1),
        (l i).2.next (.store (.incrementTaskAttempts t))
          (s.store.exec (.incrementTaskAttempts t) a.clock).1)) st := by
  have hk : Keeps waits s.store (s.store.exec (.incrementTaskAttempts t) a.clock).2 :=
    @keeps_exec waits runId _ _ _ trivial (fun _ he => by cases he) (fun _ _ _ he => by cases he)
      fun t ht => by rcases ht with ht | ⟨_, _, _, ht⟩ <;> cases ht
  have hback := h.phases i
  rw [hph] at hback
  obtain ⟨row, hr, hid, htaken⟩ := hback
  obtain rfl := s.store.task?_taskId hr
  rw [s.store.exec_incrementTaskAttempts _ hr] at hk ⊢
  rw [hph, hdu]
  have hrow : (s.store.modifyTask row.taskId TaskRecord.countAttempt
      TaskRecord.countAttempt_taskId).task? row.taskId = some row.countAttempt := by
    rw [StateStore.modifyTask_task?_self, hr]
    rfl
  refine h.advance rfl h.stored (h.fits.evolves hk.evolves) hk (fun hx => hx)
    ⟨_, hrow, hid, Nat.succ_pos _⟩ trivial
    ⟨fun t' ht => .inr ⟨row.attemptCount + 1, by rw [← Duty.leased.inj ht]; rfl⟩,
      (by intro ht; cases ht), (by intro t ht; cases ht), ?_⟩ (by intro T hT; cases hT) ?_
  · rintro X (hX | ⟨T, hX⟩) <;> cases hX
  · by_cases hleased : row.status = .leased
    · exact .inr (.inl ((StateStore.statusOf_eq hrow).trans (congrArg some hleased)))
    -- the lease has been lost
    have hstays : (0 < row.attemptCount ∨ row.status.unsuccessful = true) ∨
        waits ∧ row.status = .pending := by
      rcases htaken with (hl | ha) | ⟨hw, hp | hu⟩
      · exact absurd hl hleased
      · exact .inl (.inl ha)
      · exact .inr ⟨hw, hp⟩
      · exact .inl (.inr hu)
    rcases hstays with hstays | ⟨hw, hp⟩
    swap
    · exact .inr (.inr (.inr ⟨hw, row.countAttempt, (StateStore.mem_tasksOf _).mpr ⟨hrow, hid⟩, hp⟩))
    -- the task has been attempted before or given up, so the target stays
    have hsame := targetStatus_counted hr hid hstays
    rw [hsame]
    rcases h.repair with hs | ⟨j, hj⟩ | ⟨hw, u, hu, hp⟩
    · exact .inl hs
    · refine .inr (.inr (.inl ⟨j, ?_, ?_⟩))
      · rintro rfl
        rw [hdu] at hj
        have hj : s.store.statusOf row.taskId = some .leased := hj
        rw [StateStore.statusOf_eq hr] at hj
        exact hleased (Option.some.inj hj)
      · generalize (l j).2 = d at hj ⊢
        cases d with
        | leased t =>
          change StateStore.statusOf _ t = _
          rw [StateStore.statusOf_modifyTask hr]
          split
          next ht =>
            have hj : s.store.statusOf t = some .leased := hj
            rw [ht, StateStore.statusOf_eq hr] at hj
            exact hj
          next => exact hj
        | listed source target => exact Eq.trans hj hsame.symm
        | stepped target => exact ⟨hj.1.trans hsame.symm, hj.2⟩
        | clear | owing | read => exact hj
    · refine .inr (.inr (.inr ⟨hw, ?_⟩))
      obtain ⟨h1, h2⟩ := s.store.mem_tasksOf.mp hu
      by_cases huid : u.taskId = row.taskId
      · rw [huid, hr] at h1
        obtain rfl := Option.some.inj h1
        exact ⟨row.countAttempt, (StateStore.mem_tasksOf _).mpr ⟨hrow, hid⟩, hp⟩
      · exact ⟨u, (StateStore.mem_tasksOf _).mpr
          ⟨by rw [StateStore.modifyTask_task?, if_neg huid]; exact h1, h2⟩, hp⟩

theorem Agreeing.mark_step (h : Agreeing waits runId s l st) {t : TaskId} {n : Nat}
    (hph : (l i).1.2 = .counted t n) (hdu : (l i).2 = .leased t) :
    Agreeing waits runId
      { s with
        store := (s.store.exec (.markTaskRunning t) a.clock).2
        log := ⟨i, .store (.markTaskRunning t),
          (s.store.exec (.markTaskRunning t) a.clock).1⟩ :: s.log }
      (Function.update l i (((l i).1.1, (l i).1.2.next (l i).1.1
          (.store (.markTaskRunning t)) (s.store.exec (.markTaskRunning t) a.clock).1),
        (l i).2.next (.store (.markTaskRunning t))
          (s.store.exec (.markTaskRunning t) a.clock).1)) st := by
  have hback : Attempted s.store runId t := by
    have := h.phases i
    rwa [hph] at this
  have hk : Keeps waits s.store (s.store.exec (.markTaskRunning t) a.clock).2 :=
    keeps_exec trivial (fun _ he => by cases he) (fun _ _ _ he => by cases he)
      fun t' ht => by
        rcases ht with ht | ⟨_, _, _, ht⟩
        · rw [← StoreOp.markTaskRunning.inj ht]; exact hback
        · cases ht
  have hatt := hback.keep hk.evolves
  rw [hph, hdu]
  rcases s.store.mark_cases a.clock t with ⟨row, hr, -, hx⟩ | ⟨hnot, hx⟩ <;> rw [hx] at hk hatt ⊢
  · refine h.advance rfl h.stored (h.fits.evolves hk.evolves) hk (fun hx => hx) hatt hatt
      ⟨(by intro t ht; cases ht), (by intro ht; cases ht), fun _ _ hn => absurd ⟨t, rfl⟩ hn, ?_⟩
      (by intro T hT; cases hT) (.inr (.inl trivial))
    rintro X (hX | ⟨T, hX⟩) <;> cases hX
  · refine h.still rfl rfl rfl trivial trivial
      ⟨(by intro t ht; cases ht), ?_, (by intro t ht; cases ht), ?_⟩
      (by intro T hT; cases hT) fun hx => ?_
    · rintro - ⟨t, hx⟩
      exact hx.elim
    · rintro X (hX | ⟨T, hX⟩) <;> cases hX
    · rw [hdu] at hx
      obtain ⟨row, hr, -⟩ := hback
      have hx : s.store.statusOf t = some .leased := hx
      rw [StateStore.statusOf_eq hr] at hx
      exact absurd (Option.some.inj hx) (hnot row hr)

theorem Agreeing.settle_step (h : Agreeing waits runId s l st) {t : TaskId} {x : TaskStatus}
    {r : Option Dict} {err : Option String} (hex : (l i).1.2.executes t)
    (hdu : (l i).2 = .clear) :
    Agreeing waits runId
      { s with
        store := (s.store.exec (.updateTaskStatus t x r err) a.clock).2
        log := ⟨i, .store (.updateTaskStatus t x r err),
          (s.store.exec (.updateTaskStatus t x r err) a.clock).1⟩ :: s.log }
      (Function.update l i (((l i).1.1, (l i).1.2.next (l i).1.1
          (.store (.updateTaskStatus t x r err))
          (s.store.exec (.updateTaskStatus t x r err) a.clock).1),
        (l i).2.next (.store (.updateTaskStatus t x r err))
          (s.store.exec (.updateTaskStatus t x r err) a.clock).1)) st := by
  have hleft := (h.linked i).begun hdu ⟨t, hex⟩
  have hback : Attempted s.store runId t := by
    have := h.phases i
    generalize (l i).1.2 = ph at this hex
    cases ph <;> first | exact hex.elim | (obtain rfl := hex; exact this)
  have hk : Keeps waits s.store (s.store.exec (.updateTaskStatus t x r err) a.clock).2 :=
    keeps_exec trivial (fun _ he => by cases he) (fun _ _ _ he => by cases he)
      fun t' ht => by
        rcases ht with ht | ⟨_, _, _, ht⟩
        · cases ht
        · rw [← (StoreOp.updateTaskStatus.inj ht).1]; exact hback
  have hatt := hback.keep hk.evolves
  -- whatever the reply, the task is not executed any longer
  have hover : ∀ reply, ((l i).1.2.next (l i).1.1 (.store (.updateTaskStatus t x r err))
      reply).Backed waits runId (s.store.exec (.updateTaskStatus t x r err) a.clock).2 ∧
      ∀ t', ¬ ((l i).1.2.next (l i).1.1 (.store (.updateTaskStatus t x r err))
        reply).executes t' := by
    intro reply
    generalize (l i).1.2 = ph at hex
    cases ph <;> try exact hex.elim
    · exact ⟨trivial, fun _ => id⟩
    · cases reply with
      | error e => exact ⟨trivial, fun _ => id⟩
      | ok u =>
        simp only [Phase.next]
        split <;> exact ⟨trivial, fun _ => id⟩
  have hlink : ∀ {ph : Phase} {d : Duty}, (∀ t', ¬ ph.executes t') →
      (d = .clear ∨ d = .owing t) → Linked ph d st := by
    intro ph d hn hd
    refine ⟨?_, ?_, fun _ _ _ => hleft, ?_⟩
    · rintro t' rfl
      rcases hd with hd | hd <;> cases hd
    · rintro - ⟨t', hx⟩
      exact absurd hx (hn t')
    · rintro X (rfl | ⟨T, rfl⟩) <;> rcases hd with hd | hd <;> cases hd
  rw [hdu]
  rcases s.store.update_cases a.clock t x r err with ⟨row, r', hr, -, -, hx⟩ | ⟨e, hx, -⟩ <;>
    rw [hx] at hk hatt hover ⊢
  · exact h.advance rfl h.stored (h.fits.evolves hk.evolves) hk (fun hx => hx) (hover _).1 hatt
      (hlink (hover _).2 (.inr rfl)) (by intro T hT; cases hT) (.inr (.inl trivial))
  · exact h.still rfl rfl rfl (hover _).1 trivial (hlink (hover _).2 (.inl rfl))
      (by intro T hT; cases hT) fun hx => by rw [hdu] at hx; exact hx.elim

/-- The reads and the record of an OOM requeue move the phase only. -/
theorem Agreeing.oom_step (h : Agreeing waits runId s l st) {op : StoreOp}
    (hm : (l i).1.2.may i (l i).1.1 (.store op)) (hdm : (l i).2.may runId (.store op))
    (hop : (∃ id, op = .listEvents id) ∨ ∃ e, op = .appendEvent e ∧ e.kind = oomRequeuedKind) :
    Agreeing waits runId
      { s with
        store := (s.store.exec op a.clock).2
        log := ⟨i, .store op, (s.store.exec op a.clock).1⟩ :: s.log }
      (Function.update l i
        (((l i).1.1, (l i).1.2.next (l i).1.1 (.store op) (s.store.exec op a.clock).1),
        (l i).2.next (.store op) (s.store.exec op a.clock).1)) st := by
  have hback := h.phases i
  have hlink := h.linked i
  have hlisting := h.listing i
  rcases hop with ⟨id, rfl⟩ | ⟨e, rfl, hkind⟩
  · have hdu : (l i).2 = .clear := by
      generalize (l i).2 = d at hdm
      cases d <;> first | rfl | exact hdm.elim
    rw [s.store.exec_listEvents, hdu]
    rw [hdu] at hlink
    generalize hph : (l i).1.2 = ph at hm hback hlink
    cases ph <;> try exact hm.elim
    refine h.still rfl rfl rfl hback trivial
      ⟨(by intro t ht; cases ht), fun _ _ => hlink.begun rfl ⟨_, rfl⟩, (by intro t ht; cases ht), ?_⟩
      (by intro T hT; cases hT) fun hx => by rw [hdu] at hx; exact hx.elim
    rintro X (hX | ⟨T, hX⟩) <;> cases hX
  · have hdu : ∀ reply, (l i).2.next (.store (.appendEvent e)) reply = (l i).2 := by
      intro reply
      cases (l i).2 <;> rfl
    generalize hph : (l i).1.2 = ph at hm hback hlink
    cases ph <;> try exact absurd hkind hm
    rename_i t
    have hover : ∀ reply, (Phase.oomMoved t).next (l i).1.1 (.store (.appendEvent e)) reply =
        .over := fun reply => if_pos hkind
    rw [hdu, hover]
    have hnot : ¬ (Phase.oomMoved t).Executing := fun ⟨_, hx⟩ => hx.elim
    have hstore : (s.store.exec (.appendEvent e) a.clock).2.tables.tasks = s.store.tables.tasks ∧
        (s.store.exec (.appendEvent e) a.clock).2.runStatus runId = s.store.runStatus runId := by
      rw [s.store.exec_appendEvent]
      split <;> exact ⟨rfl, rfl⟩
    refine h.still rfl hstore.1 hstore.2 trivial (h.duties i)
      ⟨fun t' ht => ?_, ?_, fun t' ht _ => hlink.owing t' ht hnot,
        fun X hX _ => hlink.source X hX hnot⟩ (fun T hT => ?_) .inr
    · rcases hlink.leased t' ht with hp | ⟨n, hp⟩ <;> cases hp
    · rintro - ⟨t', hx⟩
      exact hx.elim
    · rw [lastListed_still rfl]
      exact hlisting T hT

/-- **One request of a worker keeps the agreement**, and leaves an ended run its status if no
task has two executors. -/
theorem Agreeing.call_step (h : Agreeing waits runId s l st) {e : Effect} (a : Answers)
    (hm : ((discipline i).prod (refreshing runId)).may (l i) e)
    (hG : writesFresh runId s i e a = true) :
    ∃ st', Agreeing waits runId
      { s with store := (e.perform a s.store).2, log := ⟨i, e, (e.perform a s.store).1⟩ :: s.log }
      (Function.update l i
        (((l i).1.1, (l i).1.2.next (l i).1.1 e (e.perform a s.store).1),
          (l i).2.next e (e.perform a s.store).1)) st' ∧
      ((Exclusive s fun i => (l i).1) → st.ended → st' = st) := by
  obtain ⟨hph, hdu⟩ : (l i).1.2.may i (l i).1.1 e ∧ (l i).2.may runId e := hm
  obtain ⟨r, hr, hst⟩ := h.run_known
  by_cases hq : Quiet e
  · rw [(l i).1.2.next_of_quiet hq]
    by_cases hwrite : ∃ id x, e = .store (.updateRunStatus id x)
    · obtain ⟨id, x, rfl⟩ := hwrite
      cases hd : (l i).2 with
      | clear | leased | owing | read | stepped => rw [hd] at hdu; exact hdu.elim
      | listed source target =>
        rw [hd] at hdu
        obtain ⟨rfl, hxt⟩ := hdu
        rw [Effect.perform, s.store.exec_updateRunStatus _ hr]
        exact ⟨x, h.write_step hd hxt hG hr⟩
    by_cases hget : ∃ id, e = .store (.getRun id)
    · obtain ⟨id, rfl⟩ := hget
      rw [Effect.perform, s.store.exec_getRun]
      exact ⟨st, h.read_step hdu hr hst, fun _ _ => rfl⟩
    by_cases hlist : ∃ id, e = .store (.listTasks id)
    · obtain ⟨id, rfl⟩ := hlist
      rw [Effect.perform, s.store.exec_listTasks]
      exact ⟨st, h.list_step hdu, fun _ _ => rfl⟩
    exact ⟨st, h.idle_step hq (fun id he => hget ⟨id, he⟩) (fun id he => hlist ⟨id, he⟩)
      fun id x he => hwrite ⟨id, x, he⟩, fun _ _ => rfl⟩
  refine ⟨st, ?_, fun _ _ => rfl⟩
  cases e with
  | ext x => exact absurd trivial hq
  | store op =>
    cases op with
    | leaseNextPendingTask id w n =>
      generalize hp : (l i).1.2 = ph at hph
      generalize hd : (l i).2 = d at hdu
      cases ph <;> try exact hph.elim
      cases d <;> try exact hdu.elim
      obtain rfl : w = i := hph
      obtain rfl : id = runId := hdu
      have := h.lease_step (a := a) (n := n) hp hd
      rwa [hp, hd] at this
    | incrementTaskAttempts id =>
      generalize hp : (l i).1.2 = ph at hph
      generalize hd : (l i).2 = d at hdu
      cases ph <;> try exact hph.elim
      cases d <;> try exact hdu.elim
      obtain rfl : id = _ := hph
      obtain rfl : id = _ := hdu
      have := h.count_step (a := a) hp hd
      rwa [hp, hd] at this
    | markTaskRunning id =>
      generalize hp : (l i).1.2 = ph at hph
      generalize hd : (l i).2 = d at hdu
      cases ph <;> try exact hph.elim
      cases d <;> try exact hdu.elim
      obtain rfl : id = _ := hph
      obtain rfl : id = _ := hdu
      have := h.mark_step (a := a) hp hd
      rwa [hp, hd] at this
    | updateTaskStatus id x res err =>
      refine h.settle_step (a := a) ?_ ?_
      · generalize (l i).1.2 = ph at hph
        cases ph <;> first | exact hph.elim | exact hph.1.symm
      · generalize (l i).2 = d at hdu
        cases d <;> first | rfl | exact hdu.elim
    | listEvents id => exact h.oom_step hph hdu (.inl ⟨id, rfl⟩)
    | appendEvent e => exact h.oom_step hph hdu (.inr ⟨e, rfl, not_not.mp hq⟩)
    | _ => first
      | exact absurd trivial hq
      | (generalize (l i).1.2 = ph at hph; cases ph <;> exact hph.elim)

/-- A worker starts afresh, and what it has owed is not needed. -/
theorem Agreeing.drop (h : Agreeing waits runId s l st) (b : Int)
    (hspare : (l i).2.Repairs runId s.store st →
      st = targetStatus (s.store.tasksOf runId) ∨ waits ∧ HasPending s.store runId) :
    Agreeing waits runId s (Function.update l i ((b, .free), .clear)) st where
  stored := h.stored
  fits := h.fits
  phases j := by
    by_cases hj : j = i
    · subst hj; rw [Function.update_self]; trivial
    · rw [Function.update_of_ne hj]; exact h.phases j
  duties j := by
    by_cases hj : j = i
    · subst hj; rw [Function.update_self]; trivial
    · rw [Function.update_of_ne hj]; exact h.duties j
  linked j := by
    by_cases hj : j = i
    · subst hj
      rw [Function.update_self]
      refine ⟨(by intro t ht; cases ht), ?_, (by intro t ht; cases ht), ?_⟩
      · rintro - ⟨t, hx⟩
        exact hx.elim
      · rintro X (hX | ⟨T, hX⟩) <;> cases hX
    · rw [Function.update_of_ne hj]; exact h.linked j
  listing j T hT := by
    by_cases hj : j = i
    · subst hj; rw [Function.update_self] at hT; cases hT
    · rw [Function.update_of_ne hj] at hT; exact h.listing j T hT
  repair := by
    rcases h.repair with hs | ⟨j, hj⟩ | hw
    · exact .inl hs
    · by_cases hji : j = i
      · exact (hspare (hji ▸ hj)).imp_right .inr
      · exact .inr (.inl ⟨j, by rw [Function.update_of_ne hji]; exact hj⟩)
    · exact .inr (.inr hw)

/-- A worker that starts owes nothing. -/
theorem Agreeing.start (h : Agreeing waits runId s l st) (hdone : (l i).2 = .clear) (b : Int) :
    Agreeing waits runId s (Function.update l i ((b, .free), .clear)) st :=
  h.drop b fun hr => by
    rw [hdone] at hr
    exact hr.elim

/-- Before anything is done. -/
theorem Agreeing.initial {store : StateStore}
    (agrees : store.runStatus runId = some (targetStatus (store.tasksOf runId))) (b : Int) :
    Agreeing waits runId { store } (fun _ => ((b, .free), .clear))
      (targetStatus (store.tasksOf runId)) where
  stored := agrees
  fits := fits_targetStatus
  phases _ := trivial
  duties _ := trivial
  linked _ := by
    refine ⟨(by intro t ht; cases ht), ?_, (by intro t ht; cases ht), ?_⟩
    · rintro - ⟨t, hx⟩
      exact hx.elim
    · rintro X (hX | ⟨T, hX⟩) <;> cases hX
  listing _ T hT := by cases hT
  repair := .inl rfl

end Steps
end FineTuneHarness
