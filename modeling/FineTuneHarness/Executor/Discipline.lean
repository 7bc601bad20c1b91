import FineTuneHarness.Executor.Fleet
import FineTuneHarness.State.StoreSpec

/-!
# The order in which `run_once` touches its task

Whatever the handler, the hooks and the other workers do, one `run_once` leases at most
one task, counts and marks that task only, and settles it at most once; a requeue after an
OOM is decided on the events read just before. `Phase` says how far a call has got.
-/
namespace FineTuneHarness

open Library Library.Program

/-- How far one `run_once` has got with its task. -/
inductive Phase
  | free
  | leased (t : TaskId)
  | counted (t : TaskId) (n : Nat)
  | marked (t : TaskId) (n : Nat)
  | oomSeen (t : TaskId) (n prior : Nat)
  | oomMoved (t : TaskId)
  | over

def oomRequeuedKind : String := "task_oom_requeued"

/-- Requests that touch no task row and record no OOM requeue. -/
def Quiet : Effect → Prop
  | .ext _ => True
  | .store (.getRun _) | .store (.listTasks _) | .store (.updateRunStatus ..)
  | .store (.updateRunFinishedAt ..) | .store (.createArtifact _) => True
  | .store (.appendEvent e) => e.kind ≠ oomRequeuedKind
  | _ => False

/-- Quiet requests leave the task table alone. -/
theorem Quiet.perform_tasks {e : Effect} (h : Quiet e) (a : Answers) (s : StateStore) :
    (e.perform a s).2.tables.tasks = s.tables.tasks := by
  cases e with
  | ext x => rfl
  | store op =>
    cases op <;> try exact h.elim
    case getRun id => rw [Effect.perform, s.exec_getRun]
    case listTasks id => rw [Effect.perform, s.exec_listTasks]
    case updateRunStatus id st =>
      cases hr : s.run? id with
      | some r => rw [Effect.perform, s.exec_updateRunStatus _ hr]; rfl
      | none =>
        obtain ⟨x, hx⟩ := s.exec_updateRunStatus_none a.clock hr st
        rw [Effect.perform, hx]
    case updateRunFinishedAt id t =>
      cases hr : s.run? id with
      | some r => rw [Effect.perform, s.exec_updateRunFinishedAt _ hr]; rfl
      | none =>
        obtain ⟨x, hx⟩ := s.exec_updateRunFinishedAt_none a.clock hr t
        rw [Effect.perform, hx]
    case appendEvent e =>
      rw [Effect.perform, s.exec_appendEvent]
      split <;> rfl
    case createArtifact x =>
      rcases s.exec_createArtifact a.clock x with hx | ⟨_, hx⟩ <;> rw [Effect.perform, hx]
      rfl

/-- The statuses `run_once` settles a task with. -/
def TaskStatus.settled (s : TaskStatus) : Bool :=
  s ∈ [.succeeded, .failed, .timedOut, .degenerate, .pending]

namespace Phase

/-- What a worker with this id and OOM budget may request next. -/
def may (w : WorkerId) (budget : Int) : Phase → Effect → Prop
  | .free, .store (.leaseNextPendingTask _ w' _) => w' = w
  | .leased t, .store (.incrementTaskAttempts t') => t' = t
  | .counted t _, .store (.markTaskRunning t') => t' = t
  | .marked _ _, .store (.listEvents _) => True
  | .marked t _, .store (.updateTaskStatus t' st _ _) => t' = t ∧ st.settled = true
  | .oomSeen t _ prior, .store (.updateTaskStatus t' st _ _) =>
    t' = t ∧ st.settled = true ∧ ((prior : Int) < budget → st = .pending)
  | .oomMoved t, .store (.appendEvent e) => e.kind = oomRequeuedKind → e.taskId = some t
  | _, e => Quiet e

/-- What the reply says about the phase. -/
def next (budget : Int) : Phase → (e : Effect) → e.Reply → Phase
  | .free, .store (.leaseNextPendingTask ..), .ok (some (t : TaskRecord)) => .leased t.taskId
  | .free, .store (.leaseNextPendingTask ..), _ => .over
  | .leased t, .store (.incrementTaskAttempts _), .ok (n : Nat) => .counted t n
  | .leased _, .store (.incrementTaskAttempts _), _ => .over
  | .counted t n, .store (.markTaskRunning _), .ok _ => .marked t n
  | .counted _ _, .store (.markTaskRunning _), _ => .over
  | .marked t n, .store (.listEvents _), .ok (es : List EventRecord) =>
    .oomSeen t n (LocalWorker.oomRequeues t es)
  | .marked _ _, .store (.listEvents _), _ => .over
  | .marked _ _, .store (.updateTaskStatus ..), _ => .over
  | .oomSeen t _ prior, .store (.updateTaskStatus ..), .ok _ =>
    if (prior : Int) < budget then .oomMoved t else .over
  | .oomSeen .., .store (.updateTaskStatus ..), _ => .over
  | .oomMoved t, .store (.appendEvent e), _ =>
    if e.kind = oomRequeuedKind then .over else .oomMoved t
  | p, _, _ => p

variable {w : WorkerId} {budget : Int} (p : Phase) {e : Effect}

theorem may_of_quiet (h : Quiet e) : p.may w budget e := by
  cases e with
  | ext x => cases p <;> trivial
  | store op =>
    cases op <;> first | exact h.elim | skip
    case appendEvent e =>
      have hk : e.kind ≠ oomRequeuedKind := h
      cases p <;> exact fun hk' => absurd hk' hk
    all_goals cases p <;> trivial

theorem next_of_quiet (h : Quiet e) (r : e.Reply) : p.next budget e r = p := by
  cases e with
  | ext x => cases p <;> rfl
  | store op =>
    cases op <;> first | exact h.elim | skip
    case appendEvent e =>
      have hk : e.kind ≠ oomRequeuedKind := h
      cases p <;> simp [next, hk]
    all_goals cases p <;> rfl

end Phase

/-- The discipline of one worker. The local state is its OOM budget and its phase. -/
def discipline (w : WorkerId) : Protocol Effect Effect.Reply (Int × Phase) where
  may := fun l e => l.2.may w l.1 e
  learns := fun l e r l' => l' = (l.1, l.2.next l.1 e r)

theorem discipline_ignores {w : WorkerId} {e : Effect} (h : Quiet e) (l : Int × Phase) :
    (discipline w).Ignores l e :=
  ⟨l.2.may_of_quiet h, fun r l' hl => by rw [hl, l.2.next_of_quiet h r]⟩

/-! ## What one permitted request can do -/

/-- The task this phase executes. -/
def Phase.executes (t : TaskId) : Phase → Prop
  | .marked t' _ | .oomSeen t' _ _ => t' = t
  | _ => False

namespace Entry

/-- Neither a mark nor an update of any task. -/
def Plain (e : Entry) : Prop := ∀ t, e.marks t = false ∧ e.settles t = false

theorem Plain.of_quiet {i : WorkerId} {e : Effect} (h : Quiet e) (r : e.Reply) :
    Plain ⟨i, e, r⟩ := by
  intro t
  cases e with
  | ext x => exact ⟨rfl, rfl⟩
  | store op => cases op <;> first | exact h.elim | exact ⟨rfl, rfl⟩

theorem not_invalid_of_quiet {i : WorkerId} {e : Effect} (h : Quiet e) (r : e.Reply) :
    ¬ InvalidTransition ⟨i, e, r⟩ := by
  cases e with
  | ext x => exact id
  | store op => cases op <;> first | exact h.elim | exact id

end Entry

/-- A request that leaves the task table alone. It executes nothing new, and it is refused
for its transition only where the task is not `RUNNING`. -/
structure IdleStep (i : WorkerId) (ph : Phase) (s : StateStore) (en : Entry) (s' : StateStore)
    (ph' : Phase) : Prop where
  tasks : s'.tables.tasks = s.tables.tasks
  plain : en.Plain
  executes : ∀ t, ph'.executes t → ph.executes t
  refused : en.InvalidTransition → ∃ t, ph.executes t ∧ s.statusOf t ≠ some .running

/-- A successful request on one task row: what it writes, and how the phase goes on. -/
inductive RowStep (i : WorkerId) (budget : Int) (a : Answers) (s : StateStore) :
    Phase → Entry → StateStore → Phase → Prop
  | lease {t : TaskRecord} {es : List EventRecord} {runId : RunId} {n : Int}
      (row : s.task? t.taskId = some t) (run : t.runId = runId)
      (free : t.leaseable a.clock.now = true) :
      RowStep i budget a s .free
        ⟨i, .store (.leaseNextPendingTask runId i n),
          .ok (some (t.leaseTo i (leaseUntil a.clock.later n)))⟩
        ((s.modifyTask t.taskId (·.leaseTo i (leaseUntil a.clock.later n))
          (·.leaseTo_taskId _ _)).addEvents es)
        (.leased t.taskId)
  | count {t : TaskRecord} {id : TaskId} (row : s.task? id = some t) :
      RowStep i budget a s (.leased id)
        ⟨i, .store (.incrementTaskAttempts id), .ok (t.attemptCount + 1)⟩
        (s.modifyTask id TaskRecord.countAttempt TaskRecord.countAttempt_taskId)
        (.counted id (t.attemptCount + 1))
  | mark {t : TaskRecord} {id : TaskId} {n : Nat} (row : s.task? id = some t)
      (leased : t.status = .leased) :
      RowStep i budget a s (.counted id n)
        ⟨i, .store (.markTaskRunning id), .ok ()⟩
        (s.modifyTask id (·.setStatus .running) (·.setStatus_taskId _))
        (.marked id n)
  | settle {t : TaskRecord} {id : TaskId} {st : TaskStatus} {r r' : Option Dict}
      {err : Option String} {ph : Phase} (row : s.task? id = some t)
      (edge : st ∈ allowedTaskTransitions t.status) (settled : st.settled = true)
      (executes : ph.executes id) (kept : s.keep r = .ok r')
      (oom : ∀ n prior, ph = .oomSeen id n prior → (prior : Int) < budget → st = .pending) :
      RowStep i budget a s ph
        ⟨i, .store (.updateTaskStatus id st r err), .ok ()⟩
        (s.modifyTask id (·.settle st r' err) (·.settle_taskId _ _ _))
        (ph.next budget (.store (.updateTaskStatus id st r err)) (.ok ()))

theorem settled_allowed {st : TaskStatus} (h : st.settled = true) :
    st ∈ allowedTaskTransitions .running := by
  cases st <;> first | decide | cases h

/-- Encoding errors and transition errors are of different classes. -/
theorem keep_error_ne {s : StateStore} {r : Option Dict} {x : PyExc} (h : s.keep r = .error x) :
    ¬ ∃ current target, x = invalidTaskTransition current target := by
  rintro ⟨current, target, rfl⟩
  exact absurd (show "ValueError" = "TypeError" from StateStore.keep_error h) (by decide)

/-- **Inversion.** A permitted request either leaves every task row alone or is one of
the four writes of `run_once`. -/
theorem perform_cases {i : WorkerId} {budget : Int} {ph : Phase} {e : Effect}
    (hm : ph.may i budget e) (a : Answers) (s : StateStore) :
    IdleStep i ph s ⟨i, e, (e.perform a s).1⟩ (e.perform a s).2
        (ph.next budget e (e.perform a s).1) ∨
      RowStep i budget a s ph ⟨i, e, (e.perform a s).1⟩ (e.perform a s).2
        (ph.next budget e (e.perform a s).1) := by
  by_cases hq : Quiet e
  · refine .inl ⟨hq.perform_tasks a s, .of_quiet hq _, fun t ht => ?_, fun hi => ?_⟩
    · rwa [ph.next_of_quiet hq] at ht
    · exact absurd hi (Entry.not_invalid_of_quiet hq _)
  cases e with
  | ext x => exact absurd trivial hq
  | store op =>
    cases op with
    | leaseNextPendingTask runId w n =>
      cases ph <;> try exact hm.elim
      obtain rfl : w = i := hm
      rcases s.lease_cases a.clock runId w n with ⟨t, es, hf, hr, hl, he⟩ | ⟨-, he⟩ <;>
        rw [Effect.perform, he]
      · exact .inr (.lease hf hr hl)
      · exact .inl ⟨rfl, fun _ => ⟨rfl, rfl⟩, fun _ ht => ht.elim, fun hi => hi.elim⟩
    | incrementTaskAttempts id =>
      cases ph <;> try exact hm.elim
      obtain rfl : id = _ := hm
      rcases s.increment_cases a.clock id with ⟨t, hf, he⟩ | ⟨x, he⟩ <;> rw [Effect.perform, he]
      · exact .inr (.count hf)
      · exact .inl ⟨rfl, fun _ => ⟨rfl, rfl⟩, fun _ ht => ht.elim, fun hi => hi.elim⟩
    | markTaskRunning id =>
      cases ph <;> try exact hm.elim
      obtain rfl : id = _ := hm
      rcases s.mark_cases a.clock id with ⟨t, hf, hs, he⟩ | ⟨-, he⟩ <;> rw [Effect.perform, he]
      · exact .inr (.mark hf hs)
      · exact .inl ⟨rfl, fun _ => ⟨rfl, rfl⟩, fun _ ht => ht.elim, fun hi => hi.elim⟩
    | updateTaskStatus id st r err =>
      have hex : ph.executes id ∧ st.settled = true ∧
          ∀ n prior, ph = .oomSeen id n prior → (prior : Int) < budget → st = .pending := by
        cases ph <;> try exact hm.elim
        · exact ⟨hm.1.symm, hm.2, fun _ _ h => by cases h⟩
        · obtain ⟨rfl, hs, hp⟩ := hm
          exact ⟨rfl, hs, fun n prior h hlt => by obtain ⟨-, -, rfl⟩ := h; exact hp hlt⟩
      rcases s.update_cases a.clock id st r err with ⟨t, r', hf, he, hk, hx⟩ | ⟨x, hx, hc⟩ <;>
        rw [Effect.perform, hx]
      · exact .inr (.settle hf he hex.2.1 hex.1 hk hex.2.2)
      · refine .inl ⟨rfl, fun _ => ⟨rfl, rfl⟩, fun t ht => ?_, fun hi => ⟨id, hex.1, fun hrun => ?_⟩⟩
        · cases ph <;> first | exact hm.elim | exact ht.elim
        · rcases hc with ⟨hn, -⟩ | ⟨t, hf, ⟨hna, -⟩ | ⟨-, hk⟩⟩
          · rw [StateStore.statusOf, hn] at hrun; cases hrun
          · rw [StateStore.statusOf_eq hf] at hrun
            rw [Option.some.inj hrun] at hna
            exact absurd (settled_allowed hex.2.1) hna
          · exact keep_error_ne hk hi
    | listEvents id =>
      cases ph <;> try exact hm.elim
      rw [Effect.perform, s.exec_listEvents]
      exact .inl ⟨rfl, fun _ => ⟨rfl, rfl⟩, fun _ ht => ht, fun hi => hi.elim⟩
    | appendEvent ev =>
      have hk : ev.kind = oomRequeuedKind := not_not.mp hq
      cases ph <;> try exact absurd hm hq
      refine .inl ⟨?_, fun _ => ⟨rfl, rfl⟩, fun t ht => ?_, fun hi => hi.elim⟩
      · rw [Effect.perform, s.exec_appendEvent]
        split <;> rfl
      · simp only [Phase.next, hk, if_true] at ht
        exact ht.elim
    | _ => first | exact absurd trivial hq | (cases ph <;> exact hm.elim)

/-! ## Programs that keep quiet -/

/-- Requests that touch no row of a task or a run and list neither tasks nor events. -/
def Still : Effect → Prop
  | .ext _ | .store (.getRun _) => True
  | .store (.appendEvent e) => e.kind ≠ oomRequeuedKind
  | _ => False

theorem Still.quiet {e : Effect} (h : Still e) : Quiet e := by
  cases e with
  | ext x => trivial
  | store op => cases op <;> first | exact h.elim | exact h

theorem only_quiet {α : Type} {p : Prog α} (h : p.Only Still) : p.Only Quiet :=
  h.mono fun _ => Still.quiet

theorem still_record {runId : RunId} {taskId : Option TaskId} {kind : String}
    {payload : List (String × PyVal)} (h : kind ≠ oomRequeuedKind) :
    (record runId taskId kind payload).Only Still := by
  simp only [Only, record]
  exact ⟨h, fun r _ _ => by cases r <;> trivial⟩

theorem still_fire (r : HookRegistry) (c : HookCall) : (r.fire c).Only Still :=
  (r.only_fire c).mono fun e h => by
    cases e with
    | ext x => trivial
    | store op => exact h.elim

theorem Still.call {op : StoreOp} (h : Still (.store op)) : (call op).Only Still := by
  simp only [Only, wp_call]
  exact ⟨h, fun r _ _ => by cases r <;> trivial⟩

theorem only_bind {α β : Type} {N : Effect → Prop} {p : Prog α} {f : α → Prog β}
    (hp : p.Only N) (hf : ∀ a, (f a).Only N) : (p >>= f).Only N :=
  (wp_bind p f).mpr (wp_mono hp (fun a _ _ => hf a) fun _ _ _ => trivial)

theorem only_ofExcept {α : Type} {N : Effect → Prop} (x : Except PyExc α) :
    (Program.ofExcept x : Prog α).Only N := by
  cases x <;> trivial

theorem only_pure {α : Type} {N : Effect → Prop} (a : α) : (pure a : Prog α).Only N := trivial

theorem only_throw {α : Type} {N : Effect → Prop} (e : PyExc) : (throw e : Prog α).Only N :=
  trivial

theorem still_ask (x : Ext) : (ask x).Only Still := ⟨trivial, fun _ _ _ => trivial⟩

/-! ### Routine -/

/-- Requests that go round the task: the refresh of the run, hooks and their events, artifacts. -/
def Routine (runId : RunId) : Effect → Prop
  | .ext x => x.handled = none
  | .store (.getRun _) | .store (.listTasks _) | .store (.updateRunStatus ..)
  | .store (.updateRunFinishedAt ..) | .store (.createArtifact _) => True
  | .store (.appendEvent e) => e.runId = runId ∧ e.kind ∈ ["run_status_changed", "hook_fired"]
  | _ => False

section Routine

variable {runId : RunId}

theorem Routine.quiet {e : Effect} (h : Routine runId e) : Quiet e := by
  cases e with
  | ext x => trivial
  | store op =>
    cases op <;> first | exact h.elim | trivial | skip
    case appendEvent e =>
      intro hk
      have hkind := h.2
      rw [hk] at hkind
      exact absurd hkind (by decide)

theorem only_of_routine {α : Type} {p : Prog α} (h : p.Only (Routine runId)) : p.Only Quiet :=
  h.mono fun _ => Routine.quiet

theorem Routine.call {op : StoreOp} (h : Routine runId (.store op)) :
    (call op).Only (Routine runId) := by
  simp only [Only, wp_call]
  exact ⟨h, fun r _ _ => by cases r <;> trivial⟩

theorem Routine.ask {x : Ext} (h : x.handled = none) : (ask x).Only (Routine runId) :=
  ⟨h, fun _ _ _ => trivial⟩

theorem routine_record {taskId : Option TaskId} {kind : String} {payload : List (String × PyVal)}
    (h : kind ∈ ["run_status_changed", "hook_fired"]) :
    (record runId taskId kind payload).Only (Routine runId) :=
  Routine.call ⟨rfl, h⟩

theorem routine_fire (r : HookRegistry) (c : HookCall) : (r.fire c).Only (Routine runId) :=
  (r.only_fire c).mono fun e h => by
    cases e with
    | ext x => cases x <;> first | rfl | exact h.elim
    | store op => exact h.elim

theorem routine_moveRun (run : RunRecord) (target : RunStatus) :
    (moveRun runId run target).Only (Routine runId) := by
  refine only_bind ?_ fun run' => only_bind (only_ofExcept _) fun _ =>
    only_bind (Routine.call trivial) fun _ => only_bind ?_ fun _ => routine_record (by decide)
  · unfold stepThroughRunning
    split
    · refine only_bind (only_ofExcept _) fun _ => only_bind (Routine.call trivial) fun _ =>
        only_bind (routine_record (by decide)) fun _ => only_bind (Routine.call trivial) fun r => ?_
      split <;> trivial
    · trivial
  · unfold stampFinished
    split
    · exact only_bind (Routine.ask rfl) fun _ => Routine.call trivial
    · trivial

theorem routine_refreshRunStatus (runId : RunId) :
    (refreshRunStatus runId).Only (Routine runId) := by
  refine only_bind (Routine.call trivial) fun r => ?_
  split
  · trivial
  · refine only_bind (Routine.call trivial) fun tasks => ?_
    split
    · trivial
    · exact only_bind (routine_moveRun _ _) fun _ => trivial

end Routine

namespace LocalWorker

variable (w : LocalWorker)

theorem routine_announceStatus (a : Attempt) (st : RunStatus) :
    (w.announceStatus a st).Only (Routine a.runId) :=
  only_bind (routine_fire _ _) fun _ => trivial

theorem routine_startRun (mem : RunMemory) (runId : RunId) :
    (w.startRun mem runId).Only (Routine runId) := by
  unfold startRun
  split
  · trivial
  · exact only_bind (Routine.call trivial) fun _ => only_bind (routine_fire _ _) fun _ => trivial

theorem routine_keepArtifact (a : Attempt) (result : Dict) :
    (w.keepArtifact a result).Only (Routine a.runId) := by
  unfold keepArtifact
  split
  · exact only_bind (Routine.ask rfl) fun _ => only_bind (only_ofExcept _) fun _ =>
      Routine.call trivial
  · trivial

theorem routine_backOff (a : Attempt) (payload : Dict) :
    (w.backOff a payload).Only (Routine a.runId) := by
  refine only_bind (only_ofExcept _) fun _ => ?_
  split
  · exact only_bind (only_ofExcept _) fun _ => Routine.ask rfl
  · trivial

/-- What follows the refresh of an attempt that did not succeed. -/
theorem routine_notify {α : Type} (c : HookCall) (a : Attempt) (p : HookPoint) (st : RunStatus)
    {k : HookCall → Prog α} (hk : ∀ c, (k c).Only (Routine a.runId)) :
    (do
      let c ← w.hooks.fire c
      w.recordHookFired a p
      w.announceStatus a st
      k c : Prog α).Only (Routine a.runId) :=
  only_bind (routine_fire _ _) fun c => only_bind (routine_record (by decide)) fun _ =>
    only_bind (w.routine_announceStatus _ _) fun _ => hk c

theorem routine_prepare (pf : Platform) (seed : Option Int) (a : Attempt) :
    (w.prepare pf seed a).Only (Routine a.runId) := by
  refine only_bind ?_ fun _ => only_bind (routine_fire _ _) fun _ =>
    only_bind (routine_record (by decide)) fun _ => only_bind (only_ofExcept _) fun _ => only_pure _
  cases seed with
  | none => trivial
  | some seed => exact only_ofExcept _

end LocalWorker

theorem only_refreshRunStatus (runId : RunId) : (refreshRunStatus runId).Only Quiet :=
  only_of_routine (routine_refreshRunStatus runId)

namespace LocalWorker

variable (pf : Platform) (w : LocalWorker)

theorem still_recordAttempt (a : Attempt) {kind : String} {more : List (String × PyVal)}
    (h : kind ≠ oomRequeuedKind) : (w.recordAttempt a kind more).Only Still :=
  still_record h

theorem still_recordHookFired (a : Attempt) (p : HookPoint) :
    (w.recordHookFired a p).Only Still :=
  still_record (by decide)

theorem still_announceStatus (a : Attempt) (st : RunStatus) : (w.announceStatus a st).Only Still :=
  only_bind (still_fire _ _) fun _ => trivial

/-- What follows the refresh of an attempt that did not succeed. -/
theorem still_notify {α : Type} (c : HookCall) (a : Attempt) (p : HookPoint) (st : RunStatus)
    {k : HookCall → Prog α} (hk : ∀ c, (k c).Only Still) :
    (do
      let c ← w.hooks.fire c
      w.recordHookFired a p
      w.announceStatus a st
      k c : Prog α).Only Still :=
  only_bind (still_fire _ _) fun c => only_bind (w.still_recordHookFired _ _) fun _ =>
    only_bind (w.still_announceStatus _ _) fun _ => hk c

theorem only_keepArtifact (a : Attempt) (result : Dict) : (w.keepArtifact a result).Only Quiet :=
  only_of_routine (w.routine_keepArtifact a result)

theorem still_startRun (mem : RunMemory) (runId : RunId) : (w.startRun mem runId).Only Still := by
  unfold startRun
  split
  · trivial
  · exact only_bind (Still.call trivial) fun _ => only_bind (still_fire _ _) fun _ => trivial

theorem still_prepare (seed : Option Int) (a : Attempt) : (w.prepare pf seed a).Only Still := by
  refine only_bind ?_ fun _ => only_bind (still_fire _ _) fun _ =>
    only_bind (w.still_recordHookFired _ _) fun _ => only_bind (only_ofExcept _) fun _ => only_pure _
  cases seed with
  | none => trivial
  | some seed => exact only_ofExcept _

theorem still_execute (task : TaskRecord) (timeout : Option Int) :
    (execute task timeout).Only Still := by
  cases timeout with
  | none => exact still_ask _
  | some seconds => exact only_bind (still_ask _) fun _ => trivial

theorem still_backOff (a : Attempt) (payload : Dict) : (w.backOff a payload).Only Still := by
  refine only_bind (only_ofExcept _) fun _ => ?_
  split
  · exact only_bind (only_ofExcept _) fun _ => still_ask _
  · trivial

end LocalWorker

/-! ## `run_once` keeps the discipline -/

namespace LocalWorker

variable (pf : Platform) (w : LocalWorker)

/-- The rest of a call keeps the discipline; nothing is asked of how it ends. -/
def Disciplined {α : Type} (w : LocalWorker) (p : Prog α) (ph : Phase) : Prop :=
  p.wp (discipline w.workerId) (fun _ _ => True) (fun _ _ => True) (w.maxOomRetries, ph)

theorem disciplined_of_quiet {α : Type} {p : Prog α} (h : p.Only Quiet) (ph : Phase) :
    w.Disciplined p ph :=
  wp_of_only h (fun _ he => discipline_ignores he _) (fun _ => trivial) fun _ => trivial

theorem disciplined_quiet_bind {α β : Type} {p : Prog α} {f : α → Prog β} {ph : Phase}
    (hp : p.Only Quiet) (hf : ∀ a, w.Disciplined (f a) ph) : w.Disciplined (p >>= f) ph :=
  (wp_bind p f).mpr (wp_of_only hp (fun _ he => discipline_ignores he _) hf fun _ => trivial)

/-- One call, after which the phase is read off the reply. -/
theorem disciplined_call {β : Type} {op : StoreOp} {f : op.Reply → Prog β} {ph : Phase}
    (hm : ph.may w.workerId w.maxOomRetries (.store op))
    (hf : ∀ r, w.Disciplined (f r) (ph.next w.maxOomRetries (.store op) (.ok r))) :
    w.Disciplined (call op >>= f) ph := by
  refine (wp_bind _ _).mpr (wp_call.mpr ⟨hm, fun r l' hl => ?_⟩)
  cases r with
  | ok a => obtain rfl := hl; exact hf a
  | error e => trivial

/-- An update that is permitted now, followed by quiet requests. -/
theorem disciplined_settle {β : Type} {t : TaskId} {st : TaskStatus} {r : Option Dict}
    {e : Option String} {f : Unit → Prog β} {ph : Phase}
    (hm : ph.may w.workerId w.maxOomRetries (.store (.updateTaskStatus t st r e)))
    (hf : ∀ u, (f u).Only Quiet) :
    w.Disciplined (call (.updateTaskStatus t st r e) >>= f) ph :=
  w.disciplined_call hm fun u => w.disciplined_of_quiet (hf u) _

theorem disciplined_recordFailure {β : Type} (a : Attempt) (exc : PyExc) (m : Int)
    {f : Unit → Prog β} {ph : Phase}
    (hm : ∀ st, st = .pending ∨ st = .failed → ph.may w.workerId w.maxOomRetries
      (.store (.updateTaskStatus a.task.taskId st none (some exc.text))))
    (hf : ∀ u, (f u).Only Quiet) : w.Disciplined (w.recordFailure a exc m >>= f) ph := by
  have hb : ∀ (st : TaskStatus) (kind : String) (more : List (String × PyVal)),
      kind ≠ oomRequeuedKind → st = .pending ∨ st = .failed →
      w.Disciplined ((do
        call (.updateTaskStatus a.task.taskId st none (some exc.text))
        w.recordAttempt a kind more : Prog Unit) >>= f) ph := by
    intro st kind more hk hst
    rw [Disciplined, wp_bind, wp_bind]
    refine wp_call.mpr ⟨hm st hst, fun r l' hl => ?_⟩
    cases r with
    | error e => trivial
    | ok u =>
      obtain rfl := hl
      exact (wp_bind _ _).mp (w.disciplined_of_quiet
        (only_bind (only_quiet (w.still_recordAttempt a hk)) hf) _)
  unfold recordFailure
  split
  · exact hb .pending _ _ (by decide) (.inl rfl)
  · exact hb .failed _ _ (by decide) (.inr rfl)

/-- The requeue of `_handle_oom` raises in the end, so nothing is left to show after it. -/
theorem wp_oomRequeue (a : Attempt) (exc : PyExc) (n prior : Nat)
    (h : (prior : Int) < w.maxOomRetries) {Q : Unit → Int × Phase → Prop} :
    (w.oomRequeue a exc prior).wp (discipline w.workerId) Q (fun _ _ => True)
      (w.maxOomRetries, .oomSeen a.task.taskId n prior) := by
  refine (wp_bind _ _).mpr (wp_call.mpr ⟨⟨rfl, rfl, fun _ => rfl⟩, fun r l' hl => ?_⟩)
  cases r with
  | error e => trivial
  | ok u =>
    have hl' : l' = (w.maxOomRetries, .oomMoved a.task.taskId) := by
      simpa [discipline, Phase.next, h] using hl
    subst hl'
    refine (wp_bind _ _).mpr (wp_call.mpr ⟨fun _ => rfl, fun r l' _ => ?_⟩)
    cases r with
    | error e => trivial
    | ok u =>
      refine (wp_bind _ _).mpr (wp_of_only (only_refreshRunStatus _)
        (fun _ he => discipline_ignores he _) (fun st => ?_) fun _ => trivial)
      exact (wp_bind _ _).mpr (wp_of_only (only_quiet (w.still_announceStatus a st))
        (fun _ he => discipline_ignores he _) (fun _ => trivial) fun _ => trivial)

theorem disciplined_onException (a : Attempt) (payload : Dict) (exc : PyExc) (n : Nat) :
    w.Disciplined (w.onException pf a payload exc) (.marked a.task.taskId n) := by
  -- the part after the OOM check, from either phase it can be reached in
  have hrest : ∀ ph : Phase, (∀ st, st = .pending ∨ st = .failed →
      ph.may w.workerId w.maxOomRetries
        (.store (.updateTaskStatus a.task.taskId st none (some exc.text)))) →
      w.Disciplined (do
        let maxAttempts ← Program.ofExcept (w.resolveMaxAttempts payload)
        w.recordFailure a exc maxAttempts
        let status ← refreshRunStatus a.runId
        let c ← w.hooks.fire (.afterTaskFailure { a.task with payload } exc)
        w.recordHookFired a .afterTaskFailure
        w.announceStatus a status
        w.backOff a c.payload
        throw exc : Prog TaskRecord) ph := by
    intro ph hm
    refine w.disciplined_quiet_bind (only_ofExcept _) fun m =>
      w.disciplined_recordFailure a exc m hm fun _ => ?_
    exact only_bind (only_refreshRunStatus _) fun st => only_quiet
      (w.still_notify _ _ _ _ fun c => only_bind (w.still_backOff _ _) fun _ => only_throw _)
  have hmarked := hrest (.marked a.task.taskId n) fun st hst => by
    rcases hst with rfl | rfl <;> exact ⟨rfl, rfl⟩
  refine (wp_bind _ _).mpr ?_
  unfold requeueOnOom
  split
  · refine (wp_bind _ _).mpr (wp_call.mpr ⟨trivial, fun r l' hl => ?_⟩)
    cases r with
    | error e => trivial
    | ok events =>
      obtain rfl := hl
      dsimp only
      split
      next hge =>
        refine hrest (.oomSeen a.task.taskId n _) fun st hst => ?_
        have hlt : ¬ ((oomRequeues a.task.taskId events : Nat) : Int) < w.maxOomRetries := by
          omega
        rcases hst with rfl | rfl <;> exact ⟨rfl, rfl, fun h => absurd h hlt⟩
      next hlt => exact w.wp_oomRequeue a exc n _ (by omega)
  · exact hmarked

theorem disciplined_onTimeout (a : Attempt) (payload : Dict) (exc : PyExc) (n : Nat) :
    w.Disciplined (w.onTimeout a payload exc) (.marked a.task.taskId n) := by
  refine w.disciplined_settle ⟨rfl, rfl⟩ fun _ => ?_
  exact only_bind (only_quiet (w.still_recordAttempt _ (by decide))) fun _ =>
    only_bind (only_refreshRunStatus _) fun st =>
      only_quiet (w.still_notify _ _ _ _ fun _ => only_throw _)

theorem disciplined_onReturn (a : Attempt) (payload : Dict) (wall : PyFloat) (v : PyVal)
    (n : Nat) : w.Disciplined (w.onReturn pf a payload wall v) (.marked a.task.taskId n) := by
  refine w.disciplined_quiet_bind (only_ofExcept _) fun judged => ?_
  obtain ⟨result, outcome⟩ := judged
  dsimp only
  split
  · refine w.disciplined_settle ⟨rfl, rfl⟩ fun _ => ?_
    exact only_bind (w.only_keepArtifact _ _) fun _ =>
      only_bind (only_quiet (w.still_recordAttempt _ (by decide))) fun _ =>
      only_bind (only_refreshRunStatus _) fun st =>
        only_quiet (w.still_notify _ _ _ _ fun _ => only_throw _)
  · refine w.disciplined_quiet_bind (only_quiet (still_fire _ _)) fun c =>
      w.disciplined_quiet_bind (only_quiet (w.still_recordHookFired _ _)) fun _ =>
      w.disciplined_settle ⟨rfl, rfl⟩ fun _ => ?_
    exact only_bind (w.only_keepArtifact _ _) fun _ =>
      only_bind (only_quiet (w.still_recordAttempt _ (by decide))) fun _ =>
      only_bind (only_refreshRunStatus _) fun st =>
        only_quiet (only_bind (w.still_announceStatus _ _) fun _ => only_pure _)

theorem disciplined_attempt (seed : Option Int) (runId : RunId) (task : TaskRecord) :
    w.Disciplined (w.attempt pf seed runId task) (.leased task.taskId) := by
  rw [Disciplined, attempt, wp_bind, beginAttempt]
  refine (wp_bind _ _).mpr (wp_call.mpr ⟨rfl, fun r l' hl => ?_⟩)
  cases r with
  | error e => trivial
  | ok n =>
    obtain rfl := hl
    refine (wp_bind _ _).mpr (wp_call.mpr ⟨rfl, fun r l' hl => ?_⟩)
    cases r with
    | error e => trivial
    | ok u =>
      obtain rfl := hl
      refine (wp_bind _ _).mpr (wp_of_only (only_quiet (w.still_recordAttempt _ (by decide)))
        (fun _ he => discipline_ignores he _) (fun _ => ?_) fun _ => trivial)
      refine (wp_bind _ _).mpr (wp_of_only (only_refreshRunStatus _)
        (fun _ he => discipline_ignores he _) (fun _ => ?_) fun _ => trivial)
      refine w.disciplined_quiet_bind (only_quiet (w.still_prepare pf seed _)) fun prepared =>
        w.disciplined_quiet_bind (only_quiet (still_execute _ _)) fun run => ?_
      unfold finish
      split
      · split
        · exact w.disciplined_onTimeout ⟨runId, task, n⟩ run.payload _ n
        · exact w.disciplined_onException pf ⟨runId, task, n⟩ run.payload _ n
      · exact w.disciplined_onReturn pf ⟨runId, task, n⟩ run.payload _ _ n

theorem disciplined_leaseAndRun (seed : Option Int) (runId : RunId) :
    w.Disciplined (w.leaseAndRun pf seed runId) .free := by
  refine w.disciplined_call rfl fun r => ?_
  cases r with
  | none => trivial
  | some task =>
    exact (wp_bind _ _).mpr (wp_mono (w.disciplined_attempt pf seed runId task)
      (fun _ _ _ => trivial) fun _ _ _ => trivial)

/-- **`run_once` keeps the discipline**, from a fresh start and whatever it is answered. -/
theorem disciplined_runOnce (mem : RunMemory) (runId : RunId) :
    w.Disciplined (w.runOnce pf mem runId) .free := by
  refine w.disciplined_quiet_bind (only_quiet (w.still_startRun mem runId)) fun mem' => ?_
  refine (wp_bind _ _).mpr ((wp_attempt _).mpr ?_)
  exact wp_mono (w.disciplined_leaseAndRun pf _ runId) (fun _ _ _ => trivial)
    fun _ _ _ => trivial

end LocalWorker
end FineTuneHarness
