import Mathlib.Algebra.Order.BigOperators.Group.List
import FineTuneHarness.Executor.Attempt
import FineTuneHarness.Safety.DrainOrder

/-!
# A drain ends

Every attempt of a worker that is alone on the store uses up one of the tries that are left to its
task, however it ends. So a drain ends, and unless `stop_fn` has stopped it no task still waits.
-/
namespace FineTuneHarness

open Library Library.Program

/-- The attempts that are left to a task: none unless it waits; else one, one for each further
attempt of the `A` that are allowed, and one for each OOM requeue of the worker's budget. -/
def LocalWorker.triesLeft (w : LocalWorker) (A : Nat) (runId : RunId) (s : StateStore)
    (id : TaskId) : Nat :=
  match s.task? id with
  | none => 0
  | some t =>
    if t.status = .pending then
      1 + (A - 1 - t.attemptCount) +
        (w.maxOomRetries.toNat - LocalWorker.oomRequeues id (s.eventsOf runId))
    else 0

/-- The payload asks for at most `A` attempts. -/
def LocalWorker.AsksAtMost (w : LocalWorker) (A : Nat) (payload : Dict) : Prop :=
  ∀ m, w.resolveMaxAttempts payload = .ok m → m ≤ A

/-- Neither a handler nor a hook that comes before it makes a payload ask for more than `A`
attempts. -/
structure LocalWorker.AsksNoMore (w : LocalWorker) (A : Nat) (ext : (x : Ext) → x.Reply → Prop) :
    Prop where
  handler : ∀ x task r, x.handled = some task → ext x r → w.AsksAtMost A task.payload →
    w.AsksAtMost A (x.payloadLeft r)
  hook : ∀ name task r, ext (.hook name (.beforeTask task)) r → w.AsksAtMost A task.payload →
    w.AsksAtMost A r.1

/-- The successes that a drain reports. -/
def LocalWorker.DrainEnd.tally : LocalWorker.DrainEnd → Nat
  | .succeeded n => n
  | .degraded _ n => n

namespace LocalWorker

variable {w : LocalWorker} {A : Nat} {runId : RunId} {s s' : StateStore} {id : TaskId}
  {t : TaskRecord}

theorem triesLeft_waiting (h : s.task? id = some t) (hst : t.status = .pending) :
    w.triesLeft A runId s id =
      1 + (A - 1 - t.attemptCount) +
        (w.maxOomRetries.toNat - oomRequeues id (s.eventsOf runId)) := by
  simp only [triesLeft, h, hst, if_true]

theorem triesLeft_idle (h : ∀ t, s.task? id = some t → t.status ≠ .pending) :
    w.triesLeft A runId s id = 0 := by
  unfold triesLeft
  split
  · rfl
  next t ht => exact if_neg (h t ht)

theorem oomRequeues_le (runId : RunId) (id : TaskId) (h : s.events <+: s'.events) :
    oomRequeues id (s.eventsOf runId) ≤ oomRequeues id (s'.eventsOf runId) :=
  ((h.filter _).filter _).length_le

/-- A longer log leaves no more tries. -/
theorem triesLeft_le (hrow : s'.task? id = s.task? id) (h : s.events <+: s'.events) :
    w.triesLeft A runId s' id ≤ w.triesLeft A runId s id := by
  unfold triesLeft
  rw [hrow]
  cases s.task? id with
  | none => exact le_rfl
  | some t =>
    dsimp only
    split
    · have := oomRequeues_le runId id h
      omega
    · exact le_rfl

end LocalWorker

/-! ## Requests aside -/

/-- The tasks are as they were; events have come on top. -/
structure Grown (runId : RunId) (l l' : Ledger) : Prop where
  tasks : l'.store.tables.tasks = l.store.tables.tasks
  events : l.store.events <+: l'.store.events
  known : l.store.run? runId ≠ none → l'.store.run? runId ≠ none
  calls : l'.calls = l.calls

section Aside

variable {runId : RunId} {l l' l'' : Ledger} {ok : Admits}

theorem Grown.refl (l : Ledger) : Grown runId l l := ⟨rfl, List.prefix_rfl, fun h => h, rfl⟩

theorem Grown.trans (h : Grown runId l l') (h' : Grown runId l' l'') : Grown runId l l'' :=
  ⟨h'.tasks.trans h.tasks, h.events.trans h'.events, fun hr => h'.known (h.known hr),
    h'.calls.trans h.calls⟩

theorem Grown.task? (h : Grown runId l l') (id : TaskId) :
    l'.store.task? id = l.store.task? id := by
  rw [StateStore.task?, h.tasks, ← StateStore.task?]

theorem Grown.addEvents (s : StateStore) (c : List TaskId) (es : List EventRecord) :
    Grown runId ⟨s, c⟩ ⟨s.addEvents es, c⟩ :=
  ⟨rfl, List.prefix_append _ _, fun h => h, rfl⟩

/-- A run on record stays there. -/
theorem StateStore.exec_known {s : StateStore} (h : s.run? runId ≠ none) (op : StoreOp)
    (clk : Clock) : (s.exec op clk).2.run? runId ≠ none := by
  obtain ⟨r, hr⟩ := Option.ne_none_iff_exists'.mp h
  rw [s.exec_run? clk hr op]
  exact Option.some_ne_none _

theorem Grown.of_aside {e : Effect} (he : Aside e) {r : e.Reply}
    (h : (alone ok).learns l e r l') : Grown runId l l' := by
  cases e with
  | ext x =>
    obtain ⟨-, rfl⟩ := h
    exact ⟨rfl, List.prefix_rfl, fun h => h, by rw [Ext.handles_of_none he]; rfl⟩
  | store op =>
    obtain ⟨s', c'⟩ := l'
    obtain ⟨hcalls, clk, -, hx⟩ := h
    have hs' : s' = (l.store.exec op clk).2 := (congrArg Prod.snd hx).symm
    have htasks := Aside.perform_tasks he { Answers.steady 0 (.ok .none) with clock := clk } l.store
    obtain ⟨es, hes⟩ := l.store.exec_events clk op
    refine ⟨?_, ?_, fun hr => ?_, hcalls⟩
    · rw [hs']
      exact htasks
    · rw [hs', hes]
      exact List.prefix_append _ _
    · rw [hs']
      exact StateStore.exec_known hr op clk

/-- **The frame** of requests aside. -/
theorem grown_aside {α : Type} {p : Prog α} (hp : p.Only Aside) (hok : ¬ ok.refreshable) :
    p.wp (alone ok) (fun _ => Grown runId l) (fun _ => Grown runId l) l :=
  wp_keep_of_only hp (fun l' e hl he =>
    ⟨alone_may hok l' e, fun _ _ hlearn => hl.trans (.of_aside he hlearn)⟩) (.refl l)

end Aside

/-! ## One attempt -/

section Attempt

variable {w : LocalWorker} {A : Nat} {runId : RunId} {s : StateStore} {c : List TaskId}
  {id : TaskId} {n : Nat}
  {l l' : Ledger}

/-- Since the lease of the task `id`, other tasks have been left alone, and the handler has been
called with this one only, if at all. -/
structure Since (runId : RunId) (s : StateStore) (c : List TaskId) (id : TaskId) (l : Ledger) :
    Prop where
  others : ∀ id', id' ≠ id → l.store.task? id' = s.task? id'
  events : s.events <+: l.store.events
  own : ∀ t', l.store.task? id = some t' →
    ∃ t, s.task? id = some t ∧ t.payload = t'.payload ∧ t.runId = t'.runId
  known : l.store.run? runId ≠ none
  calls : l.calls = c ∨ l.calls = id :: c

/-- The task is in its `n`-th attempt, or past it. -/
structure Counted (id : TaskId) (n : Nat) (l : Ledger) : Prop where
  row : ∃ t, l.store.task? id = some t ∧ t.attemptCount = n ∧ t.status ≠ .pending ∧
    t.status ≠ .leased

/-- The attempt has used up a try. -/
structure Spent (w : LocalWorker) (A : Nat) (runId : RunId) (s : StateStore) (c : List TaskId)
    (id : TaskId) (l : Ledger) : Prop extends Since runId s c id l where
  fewer : w.triesLeft A runId l.store id < w.triesLeft A runId s id
  unleased : Unleased id l

theorem Since.grown (h : Since runId s c id l) (hg : Grown runId l l') : Since runId s c id l' where
  others := fun id' hid => (hg.task? id').trans (h.others id' hid)
  events := h.events.trans hg.events
  own := fun t' ht' => h.own t' ((hg.task? id).symm.trans ht')
  known := hg.known h.known
  calls := by rw [hg.calls]; exact h.calls

theorem Counted.grown (h : Counted id n l) (hg : Grown runId l l') : Counted id n l' := by
  obtain ⟨t, ht, hrow⟩ := h.row
  exact ⟨t, (hg.task? id).trans ht, hrow⟩

theorem Spent.grown (h : Spent w A runId s c id l) (hg : Grown runId l l') :
    Spent w A runId s c id l' where
  toSince := h.toSince.grown hg
  fewer := lt_of_le_of_lt (LocalWorker.triesLeft_le (hg.task? id) hg.events) h.fewer
  unleased := fun t ht => h.unleased t ((hg.task? id).symm.trans ht)

theorem Counted.spent (hc : Counted id n l) (h : Since runId s c id l)
    (hs : 0 < w.triesLeft A runId s id) : Spent w A runId s c id l := by
  obtain ⟨t, ht, -, hpending, hleased⟩ := hc.row
  have hrow : ∀ t', l.store.task? id = some t' → t' = t :=
    fun t' ht' => Option.some.inj (ht'.symm.trans ht)
  refine ⟨h, ?_, fun t' ht' => hrow t' ht' ▸ hleased⟩
  rw [LocalWorker.triesLeft_idle fun t' ht' => hrow t' ht' ▸ hpending]
  exact hs

/-- The attempt is under way: the task no longer waits, and is off its lease. -/
structure Underway (s : StateStore) (c : List TaskId) (a : Attempt) (l : Ledger) : Prop
    extends Since a.runId s c a.task.taskId l, Counted a.task.taskId a.count l

/-- The task waited in `s`, for the attempt `a`. -/
def Awaited (s : StateStore) (a : Attempt) : Prop :=
  ∃ t, s.task? a.task.taskId = some t ∧ t.status = .pending ∧ t.attemptCount + 1 = a.count

variable {a : Attempt} {ok : Admits}

theorem Underway.grown (h : Underway s c a l) (hg : Grown a.runId l l') : Underway s c a l' :=
  ⟨h.toSince.grown hg, h.toCounted.grown hg⟩

theorem Underway.spent (h : Underway s c a l) (hs : Awaited s a) :
    Spent w A a.runId s c a.task.taskId l := by
  obtain ⟨t, ht, hst, -⟩ := hs
  refine h.toCounted.spent h.toSince ?_
  rw [LocalWorker.triesLeft_waiting ht hst]
  omega

/-- Back to the queue, with an attempt or an OOM requeue less to come. -/
theorem Since.spent_of_pending (h : Since a.runId s c a.task.taskId l) (hs : Awaited s a)
    {t : TaskRecord} (ht : l.store.task? a.task.taskId = some t) (hst : t.status = .pending)
    (hcount : t.attemptCount = a.count)
    (hless : a.count < A ∨ LocalWorker.oomRequeues a.task.taskId (s.eventsOf a.runId) <
      LocalWorker.oomRequeues a.task.taskId (l.store.eventsOf a.runId) ∧
        LocalWorker.oomRequeues a.task.taskId (s.eventsOf a.runId) <
          w.maxOomRetries.toNat) :
    Spent w A a.runId s c a.task.taskId l := by
  obtain ⟨t₀, ht₀, hst₀, hcount₀⟩ := hs
  have hmore := LocalWorker.oomRequeues_le a.runId a.task.taskId h.events
  refine ⟨h, ?_, fun t' ht' hleased => ?_⟩
  · rw [LocalWorker.triesLeft_waiting ht hst, LocalWorker.triesLeft_waiting ht₀ hst₀, hcount,
      ← hcount₀]
    omega
  · obtain rfl := Option.some.inj (ht'.symm.trans ht)
    rw [hst] at hleased
    cases hleased

/-- The update of the task in hand: its row has the status, or the update is refused. -/
theorem Underway.update (h : Underway s c a l) {st : TaskStatus} {r : Option Dict}
    {err : Option String} {Q : Unit → Ledger → Prop} {E : PyExc → Ledger → Prop}
    (hq : ∀ l' t, Since a.runId s c a.task.taskId l' → l'.store.task? a.task.taskId = some t →
      t.attemptCount = a.count → t.status = st → l'.store.events = l.store.events → Q () l')
    (he : ∀ x, E x l) :
    (call (.updateTaskStatus a.task.taskId st r err)).wp (alone ok) Q E l := by
  obtain ⟨s', c'⟩ := l
  refine alone_call fun clk _ => ?_
  rcases s'.update_cases clk a.task.taskId st r err with ⟨t, r', ht, -, -, hx⟩ | ⟨x, hx, -⟩
  · rw [hx]
    obtain ⟨t', ht', hcount, -⟩ := h.row
    obtain rfl := Option.some.inj (ht'.symm.trans ht)
    have hrow : (s'.modifyTask a.task.taskId (·.settle st r' err) (·.settle_taskId _ _ _)).task?
        a.task.taskId = some (t'.settle st r' err) := by
      rw [StateStore.modifyTask_task?_self]
      exact congrArg (Option.map _) ht'
    refine hq _ (t'.settle st r' err) ?_ hrow hcount rfl rfl
    refine ⟨fun id hid => ?_, h.events, fun t'' ht'' => ?_, h.known, h.calls⟩
    · rw [StateStore.modifyTask_task?, if_neg hid]
      exact h.others id hid
    · obtain rfl := Option.some.inj (ht''.symm.trans hrow)
      exact h.own t' ht'
  · rw [hx]
    exact he x

/-- An update that neither ends the wait of the task nor leases it. -/
theorem Underway.update_over (h : Underway s c a l) {st : TaskStatus} {r : Option Dict}
    {err : Option String} (hpending : st ≠ .pending) (hleased : st ≠ .leased) :
    (call (.updateTaskStatus a.task.taskId st r err)).wp (alone ok) (fun _ => Underway s c a)
      (fun _ => Underway s c a) l :=
  h.update (fun _ t hsince ht hcount hst _ =>
    ⟨hsince, ⟨t, ht, hcount, hst ▸ hpending, hst ▸ hleased⟩⟩) fun _ => h

end Attempt

namespace LocalWorker

section Ends

variable {pf : Platform} {w : LocalWorker} {A : Nat} {s : StateStore} {c : List TaskId}
  {a : Attempt} {l : Ledger} {ok : Admits}

/-- With tries used up, the rest is requests aside. -/
theorem spent_aside {α : Type} {runId : RunId} {id : TaskId} {p : Prog α}
    (h : Spent w A runId s c id l) (hok : ¬ ok.refreshable) (hp : p.Only Aside) :
    p.wp (alone ok) (fun _ => Spent w A runId s c id) (fun _ => Spent w A runId s c id) l :=
  wp_mono (grown_aside hp hok) (fun _ _ hg => h.grown hg) fun _ _ hg => h.grown hg

theorem underway_aside {α : Type} {p : Prog α} (h : Underway s c a l) (hok : ¬ ok.refreshable)
    (hp : p.Only Aside) :
    p.wp (alone ok) (fun _ => Underway s c a) (fun _ => Underway s c a) l :=
  wp_mono (grown_aside hp hok) (fun _ _ hg => h.grown hg) fun _ _ hg => h.grown hg

/-- The OOM requeues, after one more. -/
theorem oomRequeues_addEvents {s : StateStore} {e : EventRecord} (hrun : e.runId = a.runId)
    (htask : e.taskId = some a.task.taskId) (hkind : e.kind = "task_oom_requeued") :
    oomRequeues a.task.taskId ((s.addEvents [e]).eventsOf a.runId) =
      oomRequeues a.task.taskId (s.eventsOf a.runId) + 1 := by
  simp [StateStore.eventsOf, oomRequeues, List.filter_append, hrun, htask, hkind]

/-- A branch that does not put the task back in the queue. -/
theorem underway_closing {α : Type} {p : Prog α} {sts : List TaskStatus} (h : Underway s c a l)
    (hok : ¬ ok.refreshable) (hp : p.Only (Closing a sts)) (hpending : .pending ∉ sts)
    (hleased : .leased ∉ sts) :
    p.wp (alone ok) (fun _ => Underway s c a) (fun _ => Underway s c a) l := by
  refine wp_keep_of_only hp (fun l e hl he => ⟨alone_may hok l e, fun r l' hlearn => ?_⟩) h
  by_cases haside : Aside e
  · exact hl.grown (.of_aside haside hlearn)
  · cases e with
    | ext x => exact absurd he haside
    | store op =>
      cases op <;> first | exact he.elim | exact absurd trivial haside | skip
      case updateTaskStatus id st r' err =>
        obtain ⟨rfl, hst⟩ := he
        have hover : (call (.updateTaskStatus a.task.taskId st r' err)).wp (alone ok)
            (fun _ => Underway s c a) (fun _ => Underway s c a) l :=
          hl.update_over (fun h => hpending (h ▸ hst)) fun h => hleased (h ▸ hst)
        have hdone := (wp_call.mp hover).2 r l' hlearn
        cases r <;> exact hdone

/-- The requeue after an out-of-memory error, which raises. -/
theorem spent_oomRequeue (h : Underway s c a l) (hs : Awaited s a) (hok : ¬ ok.refreshable)
    (exc : PyExc) {Q : Unit → Ledger → Prop}
    (hless : (oomRequeues a.task.taskId (l.store.eventsOf a.runId) : Int) < w.maxOomRetries) :
    (w.oomRequeue a exc (oomRequeues a.task.taskId (l.store.eventsOf a.runId))).wp (alone ok) Q
      (fun _ => Spent w A a.runId s c a.task.taskId) l := by
  refine (wp_bind _ _).mpr (h.update (fun l' t hsince ht hcount hst hevents => ?_)
    fun _ => h.spent hs)
  obtain ⟨s', c'⟩ := l'
  refine (wp_bind _ _).mpr (w.alone_recordAttempt hsince.known
    (fun hn => by cases ht.symm.trans hn) rfl fun e he => ?_)
  have hcounted : oomRequeues a.task.taskId ((s'.addEvents [e]).eventsOf a.runId) =
      oomRequeues a.task.taskId (l.store.eventsOf a.runId) + 1 := by
    rw [oomRequeues_addEvents he.ofRun he.ofTask he.kind, StateStore.eventsOf, hevents,
      ← StateStore.eventsOf]
  have hprior := LocalWorker.oomRequeues_le a.runId a.task.taskId h.events
  have hspent : Spent w A a.runId s c a.task.taskId ⟨s'.addEvents [e], c'⟩ :=
    (hsince.grown (.addEvents s' c' [e])).spent_of_pending hs ht hst hcount
      (.inr ⟨by rw [hcounted]; omega, by omega⟩)
  refine (wp_bind _ _).mpr (wp_mono (spent_aside hspent hok
    (only_aside (routine_refreshRunStatus a.runId))) (fun _ _ h => ?_) fun _ _ h => h)
  exact (wp_bind _ _).mpr (wp_mono (spent_aside h hok (only_aside (w.routine_announceStatus a _)))
    (fun _ _ h => h) fun _ _ h => h)

theorem spent_requeueOnOom (h : Underway s c a l) (hs : Awaited s a) (hok : ¬ ok.refreshable)
    (exc : PyExc) :
    (w.requeueOnOom pf a exc).wp (alone ok) (fun _ => Underway s c a)
      (fun _ => Spent w A a.runId s c a.task.taskId) l := by
  unfold requeueOnOom
  split
  · obtain ⟨s', c'⟩ := l
    refine (wp_bind _ _).mpr (alone_listEvents ?_)
    dsimp only
    split
    · exact h
    next hless => exact spent_oomRequeue h hs hok exc (not_le.mp hless)
  · exact h

/-- A failure is written down: the task is over, or an attempt less is left to it. -/
theorem spent_recordFailure (h : Underway s c a l) (hs : Awaited s a) (hok : ¬ ok.refreshable)
    (exc : PyExc) {m : Int} (hm : m ≤ A) :
    (w.recordFailure a exc m).wp (alone ok) (fun _ => Spent w A a.runId s c a.task.taskId)
      (fun _ => Spent w A a.runId s c a.task.taskId) l := by
  unfold recordFailure
  split
  next hlt =>
    refine (wp_bind _ _).mpr (h.update (fun l' t hsince ht hcount hst _ => ?_) fun _ => h.spent hs)
    exact spent_aside (hsince.spent_of_pending hs ht hst hcount (.inl (by omega))) hok
      (aside_record _ _ _ _)
  next hge =>
    refine (wp_bind _ _).mpr (wp_mono (h.update_over (by decide) (by decide))
      (fun _ l' h' => ?_) fun _ _ h' => h'.spent hs)
    exact spent_aside (h'.spent hs) hok (aside_record _ _ _ _)

theorem spent_onException (h : Underway s c a l) (hs : Awaited s a) (hok : ¬ ok.refreshable)
    {payload : Dict} (hA : w.AsksAtMost A payload) (exc : PyExc) :
    (w.onException pf a payload exc).wp (alone ok)
      (fun _ => Spent w A a.runId s c a.task.taskId)
      (fun _ => Spent w A a.runId s c a.task.taskId) l := by
  unfold onException
  refine (wp_bind _ _).mpr (wp_mono (spent_requeueOnOom h hs hok exc) (fun _ l h => ?_)
    fun _ _ h => h)
  refine (wp_bind _ _).mpr ((wp_ofExcept _).mpr ?_)
  cases hm : w.resolveMaxAttempts payload with
  | error e => exact h.spent hs
  | ok m =>
    refine (wp_bind _ _).mpr (wp_mono (spent_recordFailure h hs hok exc (hA m hm))
      (fun _ l h => ?_) fun _ _ h => h)
    exact spent_aside h hok (only_bind (only_aside (routine_refreshRunStatus a.runId)) fun _ =>
      only_aside (w.routine_notify _ a _ _ fun _ =>
        only_bind (w.routine_backOff a _) fun _ => only_throw _))

/-- **The end of an attempt** has used up a try, whichever branch it takes. -/
theorem spent_finish (h : Underway s c a l) (hs : Awaited s a) (hok : ¬ ok.refreshable)
    (run : HandlerRun (Except PyExc PyVal)) (hA : w.AsksAtMost A run.payload) :
    (w.finish pf a run).wp (alone ok)
      (fun _ => Spent w A a.runId s c a.task.taskId)
      (fun _ => Spent w A a.runId s c a.task.taskId) l := by
  unfold finish
  split
  next exc _ =>
    split
    · exact wp_mono (underway_closing h hok (w.closing_onTimeout a run.payload exc) (by decide)
        (by decide)) (fun _ _ h => h.spent hs) fun _ _ h => h.spent hs
    · exact spent_onException h hs hok hA exc
  next v _ =>
    exact wp_mono (underway_closing h hok (w.closing_onReturn pf a run.payload run.wallSeconds v)
      (by decide) (by decide)) (fun _ _ h => h.spent hs) fun _ _ h => h.spent hs

/-- The handler call and what follows it. -/
theorem spent_execute (task : TaskRecord) (hask : w.AsksNoMore A ok.ext)
    (h : Underway s c a l) (hs : Awaited s a) (hcalls : l.calls = c) (hok : ¬ ok.refreshable)
    (htask : task.taskId = a.task.taskId) (hA : w.AsksAtMost A task.payload)
    (timeout : Option Int) :
    (execute task timeout >>= w.finish pf a).wp (alone ok)
      (fun _ => Spent w A a.runId s c a.task.taskId)
      (fun _ => Spent w A a.runId s c a.task.taskId) l := by
  obtain ⟨s', c'⟩ := l
  obtain rfl : c' = c := hcalls
  have hcalled : Underway s c' a ⟨s', [task.taskId] ++ c'⟩ :=
    ⟨⟨h.others, h.events, h.own, h.known, .inr (by rw [htask]; rfl)⟩, ⟨h.row⟩⟩
  cases timeout with
  | none =>
    exact (wp_bind _ _).mpr (alone_ask.mpr fun run hrun =>
      spent_finish hcalled hs hok run (hask.handler _ task run rfl hrun hA))
  | some seconds =>
    refine (wp_bind _ _).mpr ((wp_bind _ _).mpr (alone_ask.mpr fun run hrun => ?_))
    exact spent_finish hcalled hs hok { run with outcome := withinDeadline seconds run.outcome }
      (hask.handler _ task run rfl hrun hA)

/-- The hooks before the task leave a payload that asks for no more. -/
theorem asks_prepare (hask : w.AsksNoMore A ok.ext) (hok : ¬ ok.refreshable) (seed : Option Int)
    (hA : w.AsksAtMost A a.task.payload) :
    (w.prepare pf seed a).wp (alone ok) (fun prepared _ => w.AsksAtMost A prepared.1)
      (fun _ _ => True) l := by
  have hfire : ∀ fns (task : TaskRecord) l, w.AsksAtMost A task.payload →
      (HookRegistry.fireAll fns (.beforeTask task)).wp (alone ok)
        (fun c _ => w.AsksAtMost A c.payload) (fun _ _ => True) l := by
    intro fns
    induction fns with
    | nil => exact fun _ _ h => h
    | cons fn fns ih =>
      intro task l h
      obtain ⟨s, c⟩ := l
      exact (wp_bind _ _).mpr (alone_ask.mpr fun r hr =>
        ih { task with payload := r.1 } _ (hask.hook fn.qualname task r hr h))
  refine (wp_bind _ _).mpr (wp_mono (wp_trivial (alone_may hok)) (fun _ l _ => ?_) fun _ _ h => h)
  refine (wp_bind _ _).mpr (wp_mono (hfire _ a.task l hA) (fun c l hc => ?_) fun _ _ h => h)
  refine (wp_bind _ _).mpr (wp_mono (wp_trivial (alone_may hok)) (fun _ l _ => ?_) fun _ _ h => h)
  refine (wp_bind _ _).mpr ((wp_ofExcept _).mpr ?_)
  cases w.resolveTimeout c.payload with
  | error e => trivial
  | ok timeout => exact hc

/-- **An attempt**, from the lease on. -/
theorem spent_attempt (hask : w.AsksNoMore A ok.ext) (hok : ¬ ok.refreshable) {runId : RunId}
    {t : TaskRecord} (ht : s.task? t.taskId = some t) (hst : t.status = .pending)
    (hknown : s.run? runId ≠ none) (hA : w.AsksAtMost A t.payload) (seed : Option Int)
    (expiry : Instant) :
    (w.attempt pf seed runId (t.leaseTo w.workerId expiry)).wp (alone ok)
      (fun _ => Spent w A runId s c t.taskId)
      (fun _ => Spent w A runId s c t.taskId)
      ⟨(s.modifyTask t.taskId (·.leaseTo w.workerId expiry) (·.leaseTo_taskId _ _)).addEvents
        (StateStore.takeover t w.workerId), c⟩ := by
  let a : Attempt := ⟨runId, t.leaseTo w.workerId expiry, t.attemptCount + 1⟩
  have hs : Awaited s a := ⟨t, ht, hst, rfl⟩
  have hmarked : Underway s c a ⟨marked s t w.workerId expiry, c⟩ :=
    { others := fun id hid => marked_other hid _ _
      events := List.prefix_append _ _
      own := fun t' ht' => by
        obtain rfl := Option.some.inj (ht'.symm.trans (marked_task? ht _ _))
        exact ⟨t, ht, rfl, rfl⟩
      known := hknown
      calls := .inl rfl
      row := ⟨_, marked_task? ht _ _, rfl, (fun h => by cases h), fun h => by cases h⟩ }
  -- nobody calls the handler before `execute`
  have hquiet : ∀ {α : Type} {p : Prog α} {l : Ledger}, p.Only Aside →
      Underway s c a l ∧ l.calls = c →
      p.wp (alone ok) (fun _ l' => Underway s c a l' ∧ l'.calls = c)
        (fun _ => Spent w A runId s c t.taskId) l :=
    fun hp h => wp_mono (grown_aside hp hok) (fun _ _ hg => ⟨h.1.grown hg, hg.calls.trans h.2⟩)
      fun _ _ hg => (h.1.grown hg).spent hs
  refine (wp_bind _ _).mpr (w.alone_mark ht ?_)
  refine (wp_bind _ _).mpr (wp_mono (hquiet (aside_record _ _ _ _) ⟨hmarked, rfl⟩)
    (fun _ l h => ?_) fun _ _ h => h)
  refine (wp_bind _ _).mpr (wp_mono (hquiet (only_aside (routine_refreshRunStatus runId)) h)
    (fun _ l h => ?_) fun _ _ h => h)
  refine (wp_bind _ _).mpr (wp_mono (wp_and (hquiet (only_aside (w.routine_prepare pf seed a)) h)
    (asks_prepare hask hok seed hA)) (fun prepared l h => ?_) fun _ _ h => h.1)
  obtain ⟨payload, timeout⟩ := prepared
  exact spent_execute { a.task with payload } hask h.1.1 hs h.1.2 hok rfl h.2 timeout

end Ends

/-! ## Rounds -/

section Rounds

variable {pf : Platform} {w : LocalWorker} {A : Nat} {s₀ s : StateStore} {runId : RunId}
  {ids : List TaskId} {l : Ledger} {ok : Admits}

/-- Nothing of the run waits. -/
def Drained (runId : RunId) (s : StateStore) : Prop :=
  ∀ t ∈ s.tasksOf runId, t.status ≠ .pending ∧ t.status ≠ .leased

/-- Between two rounds: nothing is leased, and each handler call has been paid for. -/
structure Affords (w : LocalWorker) (A : Nat) (runId : RunId) (ids : List TaskId)
    (s₀ : StateStore) (l : Ledger) : Prop where
  known : l.store.run? runId ≠ none
  unleased : ∀ t ∈ l.store.tasksOf runId, t.status ≠ .leased
  listed : ∀ t ∈ l.store.tasksOf runId, t.taskId ∈ ids
  asks : ∀ t ∈ l.store.tasksOf runId, w.AsksAtMost A t.payload
  tries : ∀ id, l.calls.count id + w.triesLeft A runId l.store id ≤ w.triesLeft A runId s₀ id

/-- The tries that are left to these tasks. -/
def allTries (w : LocalWorker) (A : Nat) (runId : RunId) (ids : List TaskId) (s : StateStore) :
    Nat :=
  (ids.map (w.triesLeft A runId s)).sum

theorem Affords.grown {l' : Ledger} (h : Affords w A runId ids s₀ l) (hg : Grown runId l l') :
    Affords w A runId ids s₀ l' ∧
      allTries w A runId ids l'.store ≤ allTries w A runId ids l.store := by
  have hof : l'.store.tasksOf runId = l.store.tasksOf runId := by
    rw [StateStore.tasksOf, hg.tasks, ← StateStore.tasksOf]
  have hless : ∀ id, w.triesLeft A runId l'.store id ≤ w.triesLeft A runId l.store id :=
    fun id => LocalWorker.triesLeft_le (hg.task? id) hg.events
  refine ⟨⟨hg.known h.known, hof ▸ h.unleased, hof ▸ h.listed, hof ▸ h.asks, fun id => ?_⟩,
    List.sum_le_sum fun id _ => hless id⟩
  rw [hg.calls]
  exact (Nat.add_le_add_left (hless id) _).trans (h.tries id)

/-- A round that has used up a try of a task. -/
theorem Affords.spent {c : List TaskId} {id : TaskId} (h : Affords w A runId ids s₀ ⟨s, c⟩)
    (hid : id ∈ ids) (hs : Spent w A runId s c id l) :
    Affords w A runId ids s₀ l ∧
      allTries w A runId ids l.store < allTries w A runId ids s := by
  have hless : ∀ id', w.triesLeft A runId l.store id' ≤ w.triesLeft A runId s id' := by
    intro id'
    by_cases hid' : id' = id
    · rw [hid']
      exact hs.fewer.le
    · exact LocalWorker.triesLeft_le (hs.others id' hid') hs.events
  -- the row of another task is the row it was
  have hrows : ∀ t ∈ l.store.tasksOf runId,
      t.taskId = id ∧ l.store.task? id = some t ∧ t.runId = runId ∨ t ∈ s.tasksOf runId := by
    intro t ht
    obtain ⟨hrow, hrun⟩ := (StateStore.mem_tasksOf _).mp ht
    by_cases hne : t.taskId = id
    · exact .inl ⟨hne, hne ▸ hrow, hrun⟩
    · exact .inr ((StateStore.mem_tasksOf _).mpr ⟨(hs.others _ hne).symm.trans hrow, hrun⟩)
  refine ⟨⟨hs.known, fun t ht => ?_, fun t ht => ?_, fun t ht => ?_, fun id' => ?_⟩,
    List.sum_lt_sum _ _ (fun id' _ => hless id') ⟨id, hid, hs.fewer⟩⟩
  · rcases hrows t ht with ⟨-, hrow, -⟩ | hbefore
    · exact hs.unleased t hrow
    · exact h.unleased t hbefore
  · rcases hrows t ht with ⟨heq, -, -⟩ | hbefore
    · rw [heq]
      exact hid
    · exact h.listed t hbefore
  · rcases hrows t ht with ⟨-, hrow, hrun⟩ | hbefore
    · obtain ⟨t₀, ht₀, hpayload, hrun₀⟩ := hs.own t hrow
      rw [← hpayload]
      refine h.asks t₀ ((StateStore.mem_tasksOf _).mpr ⟨?_, hrun₀.trans hrun⟩)
      rw [s.task?_taskId ht₀]
      exact ht₀
    · exact h.asks t hbefore
  · have hbefore : c.count id' + w.triesLeft A runId s id' ≤ w.triesLeft A runId s₀ id' :=
      h.tries id'
    have hnow := hless id'
    rcases hs.calls with hcalls | hcalls
    · rw [hcalls]
      omega
    · rw [hcalls, List.count_cons]
      by_cases hid' : id' = id
      · have := hs.fewer
        subst hid'
        simp only [beq_self_eq_true, if_true]
        omega
      · rw [if_neg (by simpa using Ne.symm hid')]
        omega

/-- What follows when nothing can be leased. -/
theorem Affords.drained {now : Instant} (h : Affords w A runId ids s₀ l)
    (hnext : l.store.nextLeaseable runId now = none) : Drained runId l.store := by
  intro t ht
  refine ⟨fun hst => ?_, h.unleased t ht⟩
  have hfree := (l.store.nextLeaseable_none).mp hnext t ht
  rw [TaskRecord.leaseable, hst] at hfree
  cases hfree

/-- What a round leaves behind. -/
structure RoundEnd (w : LocalWorker) (A : Nat) (runId : RunId) (ids : List TaskId)
    (s₀ s : StateStore) (idle : Prop) (l : Ledger) : Prop where
  affords : Affords w A runId ids s₀ l
  drained : idle → Drained runId l.store
  fewer : ¬ idle → allTries w A runId ids l.store < allTries w A runId ids s

variable (hask : w.AsksNoMore A ok.ext) (hok : ¬ ok.refreshable)
include hask hok

/-- **The lease, and the attempt** at the task if there is one. -/
theorem affords_leaseAndRun (seed : Option Int) (h : Affords w A runId ids s₀ l) :
    (w.leaseAndRun pf seed runId).wp (alone ok)
      (fun done => RoundEnd w A runId ids s₀ l.store (done = none))
      (fun _ => RoundEnd w A runId ids s₀ l.store False) l := by
  obtain ⟨s, c⟩ := l
  refine (wp_bind _ _).mpr (alone_call fun clk _ => ?_)
  rw [s.exec_leaseNextPendingTask]
  cases hnext : s.nextLeaseable runId clk.now with
  | none => exact ⟨h, fun _ => h.drained hnext, fun hne => absurd rfl hne⟩
  | some t =>
    obtain ⟨hrow, hrun, hfree⟩ := s.nextLeaseable_some hnext
    have hmem : t ∈ s.tasksOf runId := s.mem_tasksOf.mpr ⟨hrow, hrun⟩
    have hpending : t.status = .pending :=
      (StateStore.leaseable_status hfree).resolve_right (h.unleased t hmem)
    refine (wp_bind _ _).mpr (wp_mono (spent_attempt hask hok hrow hpending h.known (h.asks t hmem)
      seed _) (fun _ l hs => ?_) fun _ l hs => ?_)
    · obtain ⟨hafter, hfewer⟩ := h.spent (h.listed t hmem) hs
      exact ⟨hafter, (fun hn => by cases hn), fun _ => hfewer⟩
    · obtain ⟨hafter, hfewer⟩ := h.spent (h.listed t hmem) hs
      exact ⟨hafter, False.elim, fun _ => hfewer⟩

theorem affords_runOnce (mem : RunMemory) (h : Affords w A runId ids s₀ l) :
    (w.runOnce pf mem runId).wp (alone ok)
      (fun done => RoundEnd w A runId ids s₀ l.store (done.2 = .ok none))
      (fun _ _ => False) l := by
  have hround : ∀ mem (l' : Ledger), Grown runId l l' →
      (do
        let outcome ← (w.leaseAndRun pf (RunMemory.seed mem runId) runId).attempt
        pure (mem, outcome) : Prog (RunMemory × Except PyExc (Option TaskRecord))).wp (alone ok)
          (fun done => RoundEnd w A runId ids s₀ l.store (done.2 = .ok none))
          (fun _ _ => False) l' := by
    intro mem l' hg
    obtain ⟨hbegun, hle⟩ := h.grown hg
    refine (wp_bind _ _).mpr ((wp_attempt _).mpr
      (wp_mono (affords_leaseAndRun hask hok _ hbegun) (fun done l hend => ?_) fun e l hend => ?_))
    · refine ⟨hend.affords, fun hover => hend.drained (Except.ok.inj hover), fun hover => ?_⟩
      exact (hend.fewer fun hnone => hover (congrArg _ hnone)).trans_le hle
    · exact ⟨hend.affords, (fun hover => by cases hover), fun _ => (hend.fewer id).trans_le hle⟩
  refine (wp_bind _ _).mpr ?_
  unfold startRun
  split
  · exact hround mem l (.refl l)
  · obtain ⟨s, c⟩ := l
    exact (wp_bind _ _).mpr (alone_getRun (fun hr => absurd hr hok)
      ((wp_bind _ _).mpr (alone_fire fun _ => hround _ _ (.refl _))))

/-- **The loop** ends before its fuel does: each round has a try less to go. -/
theorem affords_drainLoopUntil (stop : Nat → Except PyExc Bool) (fuel : Nat) (mem : RunMemory)
    (n : Nat) (h : Affords w A runId ids s₀ l)
    (hfuel : allTries w A runId ids l.store < fuel) :
    (w.drainLoopUntil pf stop runId fuel mem n).wp (alone ok)
      (fun done l' => Affords w A runId ids s₀ l' ∧
        ∃ m, done = some m ∧ (stop m = .ok true ∨ Drained runId l'.store))
      (fun _ _ => False) l := by
  induction fuel generalizing mem n l with
  | zero => exact absurd hfuel (Nat.not_lt_zero _)
  | succ fuel ih =>
    refine (wp_bind _ _).mpr (wp_mono (affords_runOnce hask hok mem h) (fun done l' hend => ?_)
      fun _ _ h => h)
    obtain ⟨mem, outcome⟩ := done
    have hless : ¬ outcome = .ok none →
        allTries w A runId ids l'.store < fuel := fun hover => by
      have hfewer := hend.fewer hover
      omega
    dsimp only
    split
    next => exact ⟨hend.affords, n, rfl, .inr (hend.drained rfl)⟩
    next task =>
      split
      next hstop => exact ⟨hend.affords, n + 1, rfl, .inl hstop⟩
      next => exact ih mem (n + 1) hend.affords (hless fun h => by cases h)
    next => exact ih mem n hend.affords (hless fun h => by cases h)

theorem affords_drainUntil (stop : Nat → Except PyExc Bool) (fuel : Nat) (mem : RunMemory)
    (h : Affords w A runId ids s₀ l)
    (hfuel : allTries w A runId ids l.store < fuel) :
    (w.drainUntil pf stop fuel mem runId).wp (alone ok)
      (fun done l' => Affords w A runId ids s₀ l' ∧
        ∃ ending, done = some ending ∧ (stop ending.tally = .ok true ∨ Drained runId l'.store))
      (fun _ _ => False) l := by
  obtain ⟨s, c⟩ := l
  refine (wp_bind _ _).mpr (alone_record rfl h.known (fun id hid => by cases hid) fun e _ _ _ => ?_)
  obtain ⟨hbegun, hle⟩ := h.grown (.addEvents s c [e])
  refine (wp_bind _ _).mpr (wp_mono (affords_drainLoopUntil hask hok stop fuel mem 0 hbegun
    (hle.trans_lt hfuel)) (fun done l' hdone => ?_) fun _ _ h => h)
  obtain ⟨hafter, m, rfl, hover⟩ := hdone
  obtain ⟨s', c'⟩ := l'
  refine (wp_bind _ _).mpr ((wp_bind _ _).mpr (alone_listTasks ?_))
  dsimp only
  split
  · exact ⟨hafter, _, rfl, hover⟩
  · exact ⟨hafter, _, rfl, hover⟩

end Rounds

/-- **A drain ends.** Let it be alone on the store, with the run on record, nothing of it leased and
no task asking for more than `A` attempts. Whatever handler, hooks, clock and `stop_fn` do, short of
asking for more, it takes at most one round more than there are tries left to the tasks of the run.
It calls the handler with no task more often than there were tries left to it; and nothing of the
run still waits at its end, unless it was `stop_fn` that ended it. -/
theorem drain_ends {A : Nat} {s : StateStore} {runId : RunId} {env : Nat → Answers} (pf : Platform)
    (w : LocalWorker) (hknown : s.run? runId ≠ none)
    (hs : ∀ t ∈ s.tasksOf runId, t.status ≠ .leased)
    (hA : ∀ t ∈ s.tasksOf runId, w.AsksAtMost A t.payload)
    (hask : ∀ n, w.AsksNoMore A fun x r => r = (env n).ext x) (stop : Nat → Except PyExc Bool)
    (mem : RunMemory) {fuel : Nat}
    (hfuel : ((s.tasksOf runId).map fun t => w.triesLeft A runId s t.taskId).sum < fuel) :
    ∃ ending σ,
      (w.drainUntil pf stop fuel mem runId).run (Session.exec env) { ledger := { store := s } } =
        (.ok (some ending), σ) ∧
      (∀ id, σ.ledger.calls.count id ≤ w.triesLeft A runId s id) ∧
      (stop ending.tally = .ok true ∨
        ∀ t ∈ σ.ledger.store.tasksOf runId, t.status ≠ .pending ∧ t.status ≠ .leased) := by
  let ids := (s.tasksOf runId).map (·.taskId)
  let ok : Admits := { ext := fun x r => ∃ n, r = (env n).ext x }
  have hmeets : ∀ n, ok.Meets (env n) := fun n => ⟨fun x => ⟨n, rfl⟩, trivial⟩
  have hmore : w.AsksNoMore A ok.ext := by
    refine ⟨fun x task r hx hr => ?_, fun name task r hr => ?_⟩
    · obtain ⟨n, hr⟩ := hr
      exact (hask n).handler x task r hx hr
    · obtain ⟨n, hr⟩ := hr
      exact (hask n).hook name task r hr
  have hstart : Affords w A runId ids s ⟨s, []⟩ :=
    { known := hknown
      unleased := hs
      listed := fun t ht => List.mem_map_of_mem ht
      asks := hA
      tries := fun id => (Nat.zero_add _).le }
  have htotal : allTries w A runId ids s < fuel := by
    rw [allTries, List.map_map]
    exact hfuel
  have hwp : (w.drainUntil pf stop fuel mem runId).wp (alone ok)
      (fun done l => Affords w A runId ids s l ∧
        ∃ ending, done = some ending ∧ (stop ending.tally = .ok true ∨ Drained runId l.store))
      (fun _ _ => False) (⟨⟨s, []⟩, 0⟩ : Session).ledger :=
    affords_drainUntil hmore (fun h => h) stop fuel mem hstart htotal
  obtain ⟨done, σ, hrun, hafter, ending, rfl, hover⟩ := Session.run_returns hwp hmeets
  exact ⟨ending, σ, hrun, fun id => (Nat.le_add_right _ _).trans (hafter.tries id), hover⟩

/-! ## Two tasks that never fit -/

theorem asksNoMore_steady (w : LocalWorker) (A : Nat) (now : Instant)
    (outcome : Except PyExc PyVal) :
    w.AsksNoMore A fun x r => r = (Answers.steady now outcome).ext x := by
  refine ⟨fun x task r hx hr hA => ?_, fun name task r hr hA => ?_⟩
  · subst hr
    cases x with
    | runHandler t | runHandlerWithin t =>
      obtain rfl := Option.some.inj hx
      exact hA
    | _ => cases hx
  · subst hr
    exact hA

/-- Each of two tasks is requeued once, then tried for the last time. -/
theorem drain_ends_out_of_memory :
    let w : LocalWorker :=
      { workerId := "A", retryPolicy := { maxAttempts := 2 }, maxOomRetries := 1 }
    let env : Nat → Answers := fun _ => .steady 0 (.error (.runtimeError "CUDA out of memory"))
    let out := (w.drainUntil .bare (fun _ => .ok false) 7 [] "r").run (Session.exec env)
      { ledger := { store := twoTasks } }
    out.2.ledger.calls = ["b", "b", "a", "a"] ∧ w.triesLeft 2 "r" twoTasks "a" = 3 ∧
      (∃ ending, out.1 = .ok (some ending)) ∧
      ∀ t ∈ out.2.ledger.store.tasksOf "r", t.status ≠ .pending ∧ t.status ≠ .leased := by
  intro w env out
  have hknown : twoTasks.run? "r" ≠ none := Option.ne_none_iff_isSome.mpr (by decide +kernel)
  have hs : ∀ t ∈ twoTasks.tasksOf "r", t.status ≠ .leased := by decide +kernel
  have hempty : ∀ t ∈ twoTasks.tasksOf "r", t.payload.isEmpty = true := by decide +kernel
  have hA : ∀ t ∈ twoTasks.tasksOf "r", w.AsksAtMost 2 t.payload := by
    intro t ht m hm
    rw [List.isEmpty_iff.mp (hempty t ht)] at hm
    obtain rfl := Except.ok.inj hm
    decide
  have hfuel : ((twoTasks.tasksOf "r").map fun t =>
      w.triesLeft 2 "r" twoTasks t.taskId).sum < 7 := by decide +kernel
  obtain ⟨ending, σ, hrun, -, hover⟩ := drain_ends .bare w hknown hs hA
    (fun _ => asksNoMore_steady w 2 0 _) (fun _ => .ok false) [] hfuel
  have hout : out = (.ok (some ending), σ) := hrun
  refine ⟨by decide +kernel, by decide +kernel, ⟨ending, congrArg Prod.fst hout⟩, ?_⟩
  rw [hout]
  exact hover.resolve_left fun h => by cases h

end LocalWorker
end FineTuneHarness
