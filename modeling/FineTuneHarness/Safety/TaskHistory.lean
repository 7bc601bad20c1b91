import FineTuneHarness.Executor.Fitting
import FineTuneHarness.Executor.History
import FineTuneHarness.Safety.DrainVerdict

/-!
# The event log is a faithful history

Under a fair handler every attempt ends in a settled status and leaves two lifecycle events:
that of its mark and the one that closes it. The closing kinds of a task therefore tell how
often it has been attempted and which status it is in.
-/
namespace FineTuneHarness

open Library Library.Program

/-- The status that an event of this kind reports. -/
def closedStatus (kind : String) : Option TaskStatus :=
  [.pending, .succeeded, .failed, .timedOut, .degenerate].find? fun st => kind ∈ st.outcomeKinds

/-- The lifecycle events of attempts that have closed with these kinds, counted from 1. -/
def attemptsLog (closings : List String) : List LifeEvent :=
  (closings.zipIdx 1).flatMap fun c =>
    [("task_running", some (.int c.2)), (c.1, some (.int c.2))]

/-- The history of a task whose attempts have closed with these kinds. -/
structure Chronicle (closings : List String) (log : List LifeEvent) (t : TaskRecord) : Prop where
  count : closings.length = t.attemptCount
  log : log = ("task_created", none) :: attemptsLog closings
  requeues : ∀ kind ∈ closings.dropLast, closedStatus kind = some .pending
  status : closings.getLast?.elim (some .pending) closedStatus = some t.status

theorem closedStatus_cases {kind : String} {st : TaskStatus} (h : closedStatus kind = some st) :
    st = .pending ∨ st.ended = true := by
  have hm := List.mem_of_find?_eq_some h
  simp only [List.mem_cons, List.not_mem_nil, or_false] at hm
  rcases hm with rfl | rfl | rfl | rfl | rfl
  · exact .inl rfl
  all_goals exact .inr rfl

theorem attemptsLog_concat (closings : List String) (kind : String) :
    attemptsLog (closings ++ [kind]) =
      attemptsLog closings ++
        [("task_running", some (.int (closings.length + 1 : Nat))),
          (kind, some (.int (closings.length + 1 : Nat)))] := by
  unfold attemptsLog
  rw [List.zipIdx_append, List.flatMap_append, Nat.add_comm]
  rfl

section Chronicle

variable {closings : List String} {log : List LifeEvent} {t t' : TaskRecord}

theorem Chronicle.created (hst : t.status = .pending) (hn : t.attemptCount = 0) :
    Chronicle [] [("task_created", none)] t :=
  ⟨hn.symm, rfl, by simp, by rw [hst]; rfl⟩

theorem Chronicle.waits (h : Chronicle closings log t) : t.status = .pending ∨ t.status.ended = true := by
  have hst := h.status
  cases hlast : closings.getLast? with
  | none =>
    rw [hlast] at hst
    exact .inl (Option.some.inj hst).symm
  | some kind =>
    rw [hlast] at hst
    exact closedStatus_cases hst

/-- A further attempt at a waiting task. -/
theorem Chronicle.attempt (h : Chronicle closings log t) (hp : t.status = .pending) {kind : String}
    (hn : t'.attemptCount = t.attemptCount + 1) (hk : closedStatus kind = some t'.status) :
    Chronicle (closings ++ [kind])
      (log ++ [("task_running", some (.int (t.attemptCount + 1 : Nat))),
        (kind, some (.int (t.attemptCount + 1 : Nat)))]) t' where
  count := by rw [List.length_append, h.count, hn]; rfl
  log := by rw [attemptsLog_concat, h.count, h.log]; rfl
  requeues := by
    rw [List.dropLast_concat]
    intro k hm
    rcases List.eq_nil_or_concat closings with rfl | ⟨init, last, rfl⟩
    · cases hm
    have hlast := h.status
    have hinit := h.requeues
    rw [List.concat_eq_append] at hm hlast hinit
    rw [List.getLast?_concat, hp] at hlast
    rw [List.dropLast_concat] at hinit
    rcases List.mem_append.mp hm with hm | hm
    · exact hinit k hm
    · rw [List.mem_singleton.mp hm]
      exact hlast
  status := by rw [List.getLast?_concat]; exact hk

end Chronicle

/-! ## From `create_run` on -/

/-- Nothing has happened to the tasks of the run but their creation. -/
structure FreshLog (s : StateStore) (runId : RunId) : Prop where
  tasks : ∀ t ∈ s.tasksOf runId, s.lifeEvents runId t.taskId = [("task_created", none)]
  unknown : ∀ id, s.task? id = none → s.lifeEvents runId id = []

section Create

variable {ok : Admits} {s s' : StateStore} {runId : RunId} {cs : List TaskId}

/-- A new task and its `task_created`. -/
theorem FreshLog.addTask (h : FreshLog s runId) {t : TaskRecord} {e : EventRecord}
    {hnew : t.taskId ∉ s.tables.tasks.rows.map (·.taskId)} (he : e.runId = runId)
    (ht : e.taskId = some t.taskId) (hk : e.kind = "task_created") :
    FreshLog ((s.addTask t hnew).addEvents [e]) runId := by
  have hlife : lifeEvent t.taskId e = some ("task_created", none) := by
    rw [lifeEvent, if_pos ⟨ht, by rw [hk]; decide⟩, if_pos hk, hk]
  have hadd : LogIs s (s.addTask t hnew) runId t.taskId [] := (LogIs.refl s runId t.taskId).same rfl
  have hlog : LogIs s ((s.addTask t hnew).addEvents [e]) runId t.taskId
      ([] ++ [("task_created", none)]) := hadd.report he ht hlife
  have hnone : s.task? t.taskId = none :=
    Table.find?_eq_none_iff.mpr fun a ha hid => hnew (List.mem_map.mpr ⟨a, ha, hid⟩)
  constructor
  · intro t' ht'
    obtain ⟨hrow, hrun⟩ := StateStore.mem_tasksOf _ |>.mp ht'
    rw [StateStore.addEvents_task?, StateStore.addTask_task?] at hrow
    rw [hlog]
    by_cases hid : t'.taskId = t.taskId
    · rw [if_pos hid, hid, h.unknown _ hnone]
      rfl
    · rw [if_neg hid] at hrow
      rw [if_neg hid, List.append_nil]
      exact h.tasks t' (s.mem_tasksOf.mpr ⟨hrow, hrun⟩)
  · intro id hid
    rw [StateStore.addEvents_task?, StateStore.addTask_task?] at hid
    split at hid
    · cases hid
    next hne =>
      rw [hlog, if_neg hne, List.append_nil]
      exact h.unknown id hid

end Create

/-! ## One call of `run_once` -/

namespace LocalWorker

variable {pf : Platform} {w : LocalWorker} {ans : Answers} {s : StateStore} {runId : RunId}
  {mem : RunMemory}

/-- A fair handler leaves the payload alone and returns what can be judged, if anything. -/
theorem executed_fair (hans : (fair pf).Meets ans) (task : TaskRecord) (timeout : Option Int) :
    (executed ans.ext task timeout).payload = task.payload ∧
      ∀ v, (executed ans.ext task timeout).outcome = .ok v →
        Acceptable pf task.payload (executed ans.ext task timeout).wallSeconds v := by
  cases timeout with
  | none => exact hans.ext (.runHandler task)
  | some seconds =>
    have hrun := hans.ext (.runHandlerWithin task seconds)
    refine ⟨hrun.1, fun v hv => hrun.2 v ?_⟩
    change withinDeadline seconds (ans.ext (.runHandlerWithin task seconds)).outcome = .ok v at hv
    unfold withinDeadline at hv
    split at hv
    · cases hv
    · split at hv <;> cases hv
    next v' ho =>
      obtain rfl := Except.ok.inj hv
      exact ho

/-- Without an artifact store a result persists if it can be kept. -/
theorem persists_of_keep {ext : (x : Ext) → x.Reply} (hstore : w.artifactStore = false)
    {task : TaskRecord} {result : Dict} (hk : (s.keep (some result)).isOk = true) :
    w.Persists ext s runId task result :=
  ⟨hk, fun h => by rw [hstore] at h; cases h⟩

/-- **Under a fair handler an attempt is settled**, and its closing event says how. -/
theorem endRow_closes (pf : Platform) (s : StateStore) (hw : w.hooks = {})
    (hstore : w.artifactStore = false) (a : Attempt) (row : TaskRecord)
    (run : HandlerRun (Except PyExc PyVal)) {m : Int} (ext : (x : Ext) → x.Reply)
    (hm : w.resolveMaxAttempts run.payload = .ok m)
    (hv : ∀ v, run.outcome = .ok v → Acceptable pf run.payload run.wallSeconds v) :
    ∃ st r err kind, w.endRow pf ext s a row run = row.settle st r err ∧
      w.closingKind pf ext s a run = some kind ∧ closedStatus kind = some st := by
  unfold endRow closingKind
  cases hout : run.outcome with
  | error exc =>
    dsimp only
    split
    · exact ⟨_, _, _, _, rfl, rfl, by decide⟩
    · unfold failedRow
      rw [hm]
      split
      · exact ⟨_, _, _, _, rfl, rfl, by decide⟩
      · refine ⟨_, _, _, _, rfl, rfl, ?_⟩
        split <;> decide
  | ok v =>
    obtain ⟨result, outcome, hj, hjson⟩ := (hv v hout).judge
    obtain ⟨r, hr⟩ := s.keep_some hjson
    have happlied : (w.hooks.applied ext (.afterTaskSuccess
        { a.task with payload := run.payload } result)).result = result := by
      rw [hw]
      rfl
    have hpersist : w.Persists ext s a.runId a.task result :=
      persists_of_keep hstore (by rw [hr]; rfl)
    dsimp only
    unfold returnedRow
    rw [hj]
    dsimp only
    rw [happlied, if_pos hpersist, if_pos hpersist]
    unfold keptRow
    rw [hr]
    split
    · exact ⟨_, _, _, _, rfl, rfl, by decide⟩
    · exact ⟨_, _, _, _, rfl, rfl, by decide⟩

/-- A call that finds nothing to lease leaves the store as it is. -/
theorem runOnce_idle (mem : RunMemory) (hn : s.nextLeaseable runId ans.clock.now = none) :
    (atomically (w.runOnce pf mem runId) ans s).2 = s := by
  have hwp : (w.runOnce pf mem runId).wp (alone (.exactly ans)) (fun _ l => l.store = s)
      (fun _ l => l.store = s) ⟨s, []⟩ := by
    refine (wp_bind _ _).mpr (w.alone_startRun (fun h => h.elim) fun mem' _ _ => ?_)
    refine (wp_bind _ _).mpr ((wp_attempt _).mpr ((wp_bind _ _).mpr (alone_call fun clk hclk => ?_)))
    obtain rfl : clk = ans.clock := hclk
    rw [s.exec_leaseNextPendingTask, hn]
    rfl
  have hrun := atomically_of_wp hwp (Admits.exactly_meets ans)
  generalize atomically (w.runOnce pf mem runId) ans s = out at hrun ⊢
  obtain ⟨r, s'⟩ := out
  cases r with
  | ok _ => obtain ⟨_, h⟩ := hrun; exact h
  | error _ => obtain ⟨_, h⟩ := hrun; exact h

/-- What the worker keeps between two calls, and the store. -/
def nextCall (pf : Platform) (w : LocalWorker) (runId : RunId) (c : RunMemory × StateStore)
    (ans : Answers) : RunMemory × StateStore :=
  let out := atomically (w.runOnce pf c.1 runId) ans c.2
  ((out.1.toOption.map (·.1)).getD c.1, out.2)

/-- The seed of the run is cached by the first call. -/
theorem nextCall_seed (s' : StateStore) (c : RunMemory × StateStore) :
    seedFor s' runId (nextCall pf w runId c ans).1 = seedFor c.2 runId c.1 := by
  obtain ⟨mem, s⟩ := c
  have hwp : (w.runOnce pf mem runId).wp (alone (.exactly ans))
      (fun out _ => ∀ s', seedFor s' runId out.1 = seedFor s runId mem) (fun _ _ => False)
      ⟨s, []⟩ := by
    refine (wp_bind _ _).mpr (w.alone_startRun (fun h => h.elim) fun mem' hseed _ => ?_)
    refine (wp_bind _ _).mpr ((wp_attempt _).mpr ?_)
    exact wp_mono (wp_trivial (alone_may id)) (fun _ _ _ => hseed) fun _ _ _ => hseed
  have hrun := atomically_of_wp hwp (Admits.exactly_meets ans)
  unfold nextCall
  dsimp only
  generalize atomically (w.runOnce pf mem runId) ans s = out at hrun ⊢
  obtain ⟨r, s''⟩ := out
  cases r with
  | ok out => obtain ⟨_, h⟩ := hrun; exact h s'
  | error _ => obtain ⟨_, h⟩ := hrun; exact h.elim

/-- A leased task gets to its handler when nothing before the call raises. -/
theorem handlerCall_fair (hw : w.hooks = {}) (task : TaskRecord) {r : RunRecord}
    {timeout : Option Int} (ext : (x : Ext) → x.Reply) (hr : s.run? runId = some r)
    (hreach : r.status.canReach (begunStatus (s.tasksOf runId)) = true)
    (hseed : ∀ i, seedFor s runId mem = some i → (applySeed pf i).isOk = true)
    (htime : w.resolveTimeout task.payload = .ok timeout) :
    w.handlerCall pf ext s runId mem task = some (task, timeout) := by
  have happlied : (w.hooks.applied ext (.beforeTask task)).payload = task.payload := by
    rw [hw]
    rfl
  have hall : (seedFor s runId mem).all (fun i => (applySeed pf i).isOk) = true := by
    cases hs : seedFor s runId mem with
    | none => rfl
    | some i => exact hseed i hs
  unfold handlerCall
  rw [hr, Option.any_some, hreach, hall, happlied, htime]
  rfl

end LocalWorker

/-! ## Every sequence of calls -/

/-- Between two calls the log tells the history of every task, and every task has settings
that can be read. -/
structure Recorded (w : LocalWorker) (runId : RunId) (s : StateStore) : Prop where
  fits : RunFits s runId
  tasks : ∀ t ∈ s.tasksOf runId, (∃ closings, Chronicle closings (s.lifeEvents runId t.taskId) t) ∧
    (w.resolveMaxAttempts t.payload).isOk = true ∧ (w.resolveTimeout t.payload).isOk = true

section Recorded

variable {pf : Platform} {w : LocalWorker} {ans : Answers} {s : StateStore} {runId : RunId}
  {mem : RunMemory}

theorem Recorded.runOnce (h : Recorded w runId s) (hw : w.hooks = {})
    (hstore : w.artifactStore = false) (hans : (fair pf).Meets ans)
    (hseed : ∀ i, LocalWorker.seedFor s runId mem = some i → (applySeed pf i).isOk = true) :
    Recorded w runId (atomically (w.runOnce pf mem runId) ans s).2 := by
  cases hn : s.nextLeaseable runId ans.clock.now with
  | none => rwa [LocalWorker.runOnce_idle mem hn]
  | some t =>
    obtain ⟨hrow, hrun, hfree⟩ := s.nextLeaseable_some hn
    have ht : t ∈ s.tasksOf runId := s.mem_tasksOf.mpr ⟨hrow, hrun⟩
    obtain ⟨⟨closings, hc⟩, hmax, htime⟩ := h.tasks t ht
    have hp : t.status = .pending := by
      rcases StateStore.leaseable_status hfree with hp | hp
      · exact hp
      · rcases hc.waits with h | h
        · exact h
        · rw [hp] at h; cases h
    obtain ⟨r, hr, hfit⟩ := h.fits
    obtain ⟨timeout, htimeout⟩ : ∃ d, w.resolveTimeout t.payload = .ok d := by
      cases hd : w.resolveTimeout t.payload with
      | error e => rw [hd] at htime; cases htime
      | ok d => exact ⟨d, rfl⟩
    have hcall := LocalWorker.handlerCall_fair hw
      (t.leaseTo w.workerId (leaseUntil ans.clock.later LocalWorker.leaseSeconds)) ans.ext hr
      (hfit.begun ht (.inl hp)) hseed htimeout
    obtain ⟨hpay, hacc⟩ := LocalWorker.executed_fair hans
      (t.leaseTo w.workerId (leaseUntil ans.clock.later LocalWorker.leaseSeconds)) timeout
    obtain ⟨hlimit, -⟩ := w.resolveMaxAttempts_ok hmax
    obtain ⟨st, res, err, kind, hend, hkind, hclosed⟩ := LocalWorker.endRow_closes pf s hw
      hstore
      ⟨runId, t.leaseTo w.workerId (leaseUntil ans.clock.later LocalWorker.leaseSeconds),
        t.attemptCount + 1⟩
      (LocalWorker.markedRow t w.workerId (leaseUntil ans.clock.later LocalWorker.leaseSeconds))
      (LocalWorker.executed ans.ext (t.leaseTo w.workerId
        (leaseUntil ans.clock.later LocalWorker.leaseSeconds)) timeout)
      ans.ext (by rw [hpay]; exact hlimit) (by rw [hpay]; exact hacc)
    have hrows := runOnce_row pf w mem hn
    have hlog := runOnce_log pf w mem (by rw [hr]; exact Option.some_ne_none r) hn
    unfold LocalWorker.attemptRow at hrows
    unfold LocalWorker.attemptLog at hlog
    dsimp only at hlog
    rw [hcall] at hrows hlog
    dsimp only at hrows hlog
    rw [hend] at hrows
    rw [hkind] at hlog
    refine ⟨w.runOnce_fits pf mem ans h.fits, fun t' ht' => ?_⟩
    obtain ⟨hrow', hrun'⟩ := StateStore.mem_tasksOf _ |>.mp ht'
    rw [hrows] at hrow'
    rw [hlog]
    by_cases hid : t'.taskId = t.taskId
    · rw [if_pos hid] at hrow'
      obtain rfl := Option.some.inj hrow'
      rw [if_pos hid, hid]
      exact ⟨⟨closings ++ [kind], hc.attempt hp rfl hclosed⟩, hmax, htime⟩
    · rw [if_neg hid] at hrow'
      rw [if_neg hid, List.append_nil]
      exact h.tasks t' (s.mem_tasksOf.mpr ⟨hrow', hrun'⟩)

/-- Any number of calls. -/
theorem Recorded.calls (hw : w.hooks = {}) (hstore : w.artifactStore = false)
    {answers : List Answers} (hans : ∀ ans ∈ answers, (fair pf).Meets ans)
    {c : RunMemory × StateStore} (h : Recorded w runId c.2)
    (hseed : ∀ i, LocalWorker.seedFor c.2 runId c.1 = some i → (applySeed pf i).isOk = true) :
    Recorded w runId (answers.foldl (w.nextCall pf runId) c).2 := by
  induction answers generalizing c with
  | nil => exact h
  | cons ans rest ih =>
    refine ih (fun a ha => hans a (List.mem_cons_of_mem _ ha)) ?_ fun i hi => ?_
    · exact h.runOnce hw hstore (hans ans List.mem_cons_self) hseed
    · rw [LocalWorker.nextCall_seed] at hi
      exact hseed i hi

end Recorded

end FineTuneHarness
