import FineTuneHarness.Executor.AttemptCount

/-!
# Attempts counted and attempts made

`increment_task_attempts` is a transaction of its own, before the `mark_task_running` that
decides who executes. A worker that dies in between, or whose mark comes too late, has spent an
attempt of the task without starting its handler, and the retry decision does not know. The
count is right as long as every count is followed by its mark, in turn, and no task is taken
from a worker that has not called the handler yet.
-/
namespace FineTuneHarness

open Library

/-! ## The condition -/

/-- A mark finds the task `LEASED`, and comes from the worker that has waited longest. -/
def marksInTurn (s : Traced) (i : WorkerId) : Effect → Bool
  | .store (.markTaskRunning t) =>
    s.store.statusOf t = some .leased && (waiting t s.log).head? = some i
  | _ => true

/-- The handler leaves the task its `max_attempts`, and the GPU has memory enough. -/
def plainCall (pf : Platform) (default : Int) (maxAttempts : TaskId → Int) (a : Answers) :
    Effect → Bool
  | .ext x =>
    x.handled.all fun task =>
      (attemptsAllowed default (x.payloadLeft (a.ext x))).toOption =
          some (fullAttempts maxAttempts task.taskId) &&
        !(x.raised (a.ext x)).any (isOomError pf)
  | _ => true

/-- A task that is `RUNNING` is taken from a dead executor, which has called the handler, and
has attempts left if it must not get more than its full number. -/
def reclaimsStarted (maxAttempts : TaskId → Int) (strict : Bool) (s : Traced) : Maintenance → Bool
  | .reclaimDeadWorker runId w _ =>
    (s.store.heldBy runId w).all fun r => r.status ≠ .running ||
      ((executor r.taskId s.log).any (· ∈ s.dead) && !unstarted r.taskId s.log &&
        (!strict || runningMoves r.taskId s.log < fullAttempts maxAttempts r.taskId))
  | _ => true

/-- Every count is followed by its mark, in turn. `default` is what the retry policies of the
workers say, and `maxAttempts` what the decisions about each task go by. -/
def countsInTurn (pf : Platform) (default : WorkerId → Int) (maxAttempts : TaskId → Int)
    (strict : Bool) : FleetGuard where
  start := fun _ i j => j.worker.retryPolicy.maxAttempts = default i
  call := fun s i e a => (marksInTurn s i e && plainCall pf (default i) maxAttempts a e) = true
  crash := fun s i => (s.store.tables.tasks.rows.all fun r => i ∉ waiting r.taskId s.log) = true
  env := fun s d => reclaimsStarted maxAttempts strict s d.1 = true

/-! ## The invariant -/

structure CountedInTurn (default : WorkerId → Int) (maxAttempts : TaskId → Int) (strict : Bool)
    (s : Traced) (l : WorkerId → Stage) : Prop where
  dead : ∀ i ∈ s.dead, l i = .over
  task : ∀ t, InTurn default maxAttempts strict s l t
  failed : ∀ t e before, e :: before <:+ s.log → e.fails t = true →
    fullAttempts maxAttempts t ≤ handlerStarts t before ∧
      (strict = true → (handlerStarts t before : Int) = fullAttempts maxAttempts t)

section Steps

variable {pf : Platform} {default : WorkerId → Int} {maxAttempts : TaskId → Int} {strict : Bool}
  {s s' : Traced} {l l' : WorkerId → Stage} {t : TaskId} {i : WorkerId}

/-- One worker's own entry: what is left to show of it. -/
theorem CountedInTurn.advance (h : CountedInTurn default maxAttempts strict s l)
    {store : StateStore} {e : Entry} {st : Stage} (hover : l i = .over → st = .over)
    (htask : ∀ t, InTurn default maxAttempts strict { s with store, log := e :: s.log }
      (Function.update l i st) t)
    (hfail : ∀ t, e.fails t = true → fullAttempts maxAttempts t ≤ handlerStarts t s.log ∧
      (strict = true → (handlerStarts t s.log : Int) = fullAttempts maxAttempts t)) :
    CountedInTurn default maxAttempts strict { s with store, log := e :: s.log }
      (Function.update l i st) := by
  constructor
  · intro j hj
    by_cases hji : j = i
    · subst hji
      rw [Function.update_self]
      exact hover (h.dead j hj)
    · rw [Function.update_of_ne hji]
      exact h.dead j hj
  · exact htask
  · intro t e' before hsuffix hfails
    rcases List.suffix_cons_iff.mp hsuffix with heq | hold
    · obtain ⟨rfl, rfl⟩ := List.cons.inj heq
      exact hfail t hfails
    · exact h.failed t e' before hold hfails

/-- A request that touches no task row and calls no handler. -/
theorem CountedInTurn.aside_step (h : CountedInTurn default maxAttempts strict s l) {e : Effect}
    (he : Aside e) (a : Answers) :
    CountedInTurn default maxAttempts strict
      { s with store := (e.perform a s.store).2, log := ⟨i, e, (e.perform a s.store).1⟩ :: s.log }
      (Function.update l i (l i)) := by
  apply h.advance id
  · intro t
    rw [Function.update_eq_self]
    apply (h.task t).same
    · cases e with
      | ext x =>
        apply SameAttempts.cons rfl rfl
        have hx : x.handled = none := he
        simp only [Entry.handles, hx, Option.any_none]
      | store op => cases op <;> first | exact he.elim | exact SameAttempts.cons rfl rfl rfl
    · rw [StateStore.task?, he.perform_tasks a s.store, StateStore.task?]
    · intro j _
      rfl
    · intro j n _
      rfl
  · intro t hfails
    cases e with
    | ext x => cases hfails
    | store op => cases op <;> first | exact he.elim | cases hfails

/-- A request that ends in a refusal. -/
theorem CountedInTurn.refused_step (h : CountedInTurn default maxAttempts strict s l) {e : Entry}
    (he : ∀ t, SameAttempts t s.log (e :: s.log)) (hfails : ∀ t, e.fails t = false)
    (hi : ∀ t n, l i ≠ .counted t n) :
    CountedInTurn default maxAttempts strict { s with log := e :: s.log }
      (Function.update l i .over) := by
  apply @CountedInTurn.advance default maxAttempts strict s l i h s.store e .over fun _ => rfl
  · intro t
    apply (h.task t).same (he t)
    · rfl
    · apply Stage.counts_update
      intro hc
      cases hc
    · exact Stage.counted_update (hi t) .over
  · intro t ht
    rw [hfails t] at ht
    cases ht

/-- An entry about one task. -/
theorem CountedInTurn.row_step (h : CountedInTurn default maxAttempts strict s l)
    {store : StateStore} {e : Entry} {st : Stage} (hover : l i ≠ .over)
    (hmine : InTurn default maxAttempts strict { s with store, log := e :: s.log }
      (Function.update l i st) t)
    (hlog : ∀ t', t' ≠ t → SameAttempts t' s.log (e :: s.log))
    (hrow : ∀ t', t' ≠ t → store.task? t' = s.store.task? t')
    (hi : ∀ t', (l i).counts = some t' → t' = t) (hst : ∀ t', st.counts = some t' → t' = t)
    (hfail : ∀ t, e.fails t = true → fullAttempts maxAttempts t ≤ handlerStarts t s.log ∧
      (strict = true → (handlerStarts t s.log : Int) = fullAttempts maxAttempts t)) :
    CountedInTurn default maxAttempts strict { s with store, log := e :: s.log }
      (Function.update l i st) := by
  apply h.advance (fun ho => absurd ho hover) ?_ hfail
  intro t'
  by_cases ht : t' = t
  · rw [ht]
    exact hmine
  · exact (h.task t').elsewhere (hlog t' ht) (hrow t' ht) (fun hc => ht (hi t' hc))
      fun hc => ht (hst t' hc)

theorem CountedInTurn.lease_step (h : CountedInTurn default maxAttempts strict s l)
    (hi : l i = .free) {runId : RunId} {n : Int} (a : Answers) :
    CountedInTurn default maxAttempts strict
      { s with
        store := (s.store.exec (.leaseNextPendingTask runId i n) a.clock).2
        log := ⟨i, .store (.leaseNextPendingTask runId i n),
          (s.store.exec (.leaseNextPendingTask runId i n) a.clock).1⟩ :: s.log }
      (Function.update l i (Stage.next pf .free (.store (.leaseNextPendingTask runId i n))
        (s.store.exec (.leaseNextPendingTask runId i n) a.clock).1)) := by
  rcases s.store.lease_cases a.clock runId i n with ⟨r, es, hr, hrun, hfree, hx⟩ | ⟨-, hx⟩ <;>
    rw [hx]
  swap
  · apply h.refused_step
    · intro t
      exact SameAttempts.cons rfl rfl rfl
    · intro t
      rfl
    · intro t n hc
      rw [hi] at hc
      cases hc
  have hrow : ((s.store.modifyTask r.taskId (·.leaseTo i (leaseUntil a.clock.later n))
      (·.leaseTo_taskId _ _)).addEvents es).task? r.taskId =
      some (r.leaseTo i (leaseUntil a.clock.later n)) := by
    rw [StateStore.addEvents_task?, StateStore.modifyTask_task?_self, hr]
    rfl
  have hstatus := StateStore.statusOf_eq hr
  have hidle : s.store.statusOf r.taskId ≠ some .running := by
    rw [hstatus]
    rcases StateStore.leaseable_status hfree with hst | hst <;> rw [hst] <;> intro hc <;> cases hc
  have hlog : ∀ t, SameAttempts t s.log (⟨i, .store (.leaseNextPendingTask runId i n),
      .ok (some (r.leaseTo i (leaseUntil a.clock.later n)))⟩ :: s.log) := by
    intro t
    exact SameAttempts.cons rfl rfl rfl
  apply @CountedInTurn.row_step default maxAttempts strict s l r.taskId i h
  · rw [hi]
    intro hc
    cases hc
  · apply (h.task r.taskId).step (hlog _)
    · apply Stage.counts_update
      intro hc
      cases hc
    · apply Stage.counted_update
      intro m hc
      rw [hi] at hc
      cases hc
    · intro _
      rw [hrow]
      exact Option.some_ne_none _
    · intro r' hr'
      obtain rfl := Option.some.inj (hrow.symm.trans hr')
      exact ⟨r, hr, rfl⟩
    · intro j m hj
      by_cases hji : j = i
      · rw [hji, Function.update_self] at hj
        exact hj.elim
      · rw [Function.update_of_ne hji] at hj
        exact absurd ((h.task r.taskId).executes j m hj).1 hidle
    · intro _
      exact (h.task r.taskId).rest hidle
    · intro hstrict _
      apply (h.task r.taskId).left hstrict
      rw [hstatus]
      exact (StateStore.leaseable_status hfree).imp (congrArg some) (congrArg some)
  · intro t _
    exact hlog t
  · intro t ht
    rw [StateStore.addEvents_task?, StateStore.modifyTask_task?, if_neg ht]
  · intro t hc
    rw [hi] at hc
    cases hc
  · intro t hc
    cases hc
  · intro t hfails
    cases hfails

theorem CountedInTurn.count_step (h : CountedInTurn default maxAttempts strict s l)
    (hi : l i = .leased t) (a : Answers) :
    CountedInTurn default maxAttempts strict
      { s with
        store := (s.store.exec (.incrementTaskAttempts t) a.clock).2
        log := ⟨i, .store (.incrementTaskAttempts t),
          (s.store.exec (.incrementTaskAttempts t) a.clock).1⟩ :: s.log }
      (Function.update l i (Stage.next pf (.leased t) (.store (.incrementTaskAttempts t))
        (s.store.exec (.incrementTaskAttempts t) a.clock).1)) := by
  rcases s.store.increment_cases a.clock t with ⟨r, hr, hx⟩ | ⟨x, hx⟩ <;> rw [hx]
  swap
  · apply h.refused_step
    · intro t
      exact SameAttempts.cons rfl rfl rfl
    · intro t
      rfl
    · intro t n hc
      rw [hi] at hc
      cases hc
  apply h.row_step _ ((h.task t).count_step hr hi)
  · intro t' ht
    exact SameAttempts.cons (decide_eq_false (Ne.symm ht)) rfl rfl
  · intro t' ht
    rw [StateStore.modifyTask_task?, if_neg ht]
  · intro t' hc
    rw [hi] at hc
    cases hc
  · intro t' hc
    exact (Option.some.inj hc).symm
  · intro t' hfails
    cases hfails
  · rw [hi]
    intro hc
    cases hc

theorem CountedInTurn.mark_step (h : CountedInTurn default maxAttempts strict s l) {n : Nat}
    (hi : l i = .counted t n) (hG : marksInTurn s i (.store (.markTaskRunning t)) = true)
    (a : Answers) :
    CountedInTurn default maxAttempts strict
      { s with
        store := (s.store.exec (.markTaskRunning t) a.clock).2
        log := ⟨i, .store (.markTaskRunning t),
          (s.store.exec (.markTaskRunning t) a.clock).1⟩ :: s.log }
      (Function.update l i (Stage.next pf (.counted t n) (.store (.markTaskRunning t))
        (s.store.exec (.markTaskRunning t) a.clock).1)) := by
  simp only [marksInTurn, Bool.and_eq_true, decide_eq_true_eq] at hG
  obtain ⟨hleased, hhead⟩ := hG
  rcases s.store.mark_cases a.clock t with ⟨r, -, -, hx⟩ | ⟨hno, -⟩
  swap
  · cases hr : s.store.task? t with
    | none =>
      rw [StateStore.statusOf, hr] at hleased
      cases hleased
    | some r =>
      rw [StateStore.statusOf_eq hr] at hleased
      exact absurd (Option.some.inj hleased) (hno r hr)
  rw [hx]
  apply h.row_step _ ((h.task t).mark_step hi hleased hhead)
  · intro t' ht
    exact SameAttempts.cons rfl (decide_eq_false (Ne.symm ht)) rfl
  · intro t' ht
    rw [StateStore.modifyTask_task?, if_neg ht]
  · intro t' hc
    rw [hi] at hc
    exact (Option.some.inj hc).symm
  · intro t' hc
    exact (Option.some.inj hc).symm
  · intro t' hfails
    cases hfails
  · rw [hi]
    intro hc
    cases hc

/-- The handler call of a marked task. -/
theorem CountedInTurn.handle_step (h : CountedInTurn default maxAttempts strict s l) {n : Nat}
    (hi : l i = .marked t n) {x : Ext} {task : TaskRecord} (hx : x.handled = some task)
    (ht : task.taskId = t) (a : Answers)
    (hG : plainCall pf (default i) maxAttempts a (.ext x) = true) :
    CountedInTurn default maxAttempts strict { s with log := ⟨i, .ext x, a.ext x⟩ :: s.log }
      (Function.update l i (Stage.next pf (.marked t n) (.ext x) (a.ext x))) := by
  simp only [plainCall, hx, Option.all_some, Bool.and_eq_true, decide_eq_true_eq,
    Bool.not_eq_true', ht] at hG
  obtain ⟨hallowed, hoom⟩ := hG
  have hnext : Stage.next pf (.marked t n) (.ext x) (a.ext x) =
      .called t n (x.payloadLeft (a.ext x)) ((x.raised (a.ext x)).any (isOomError pf)) := by
    simp only [Stage.next, hx, Option.isSome_some, if_true]
  have hok : attemptsAllowed (default i) (x.payloadLeft (a.ext x)) =
      .ok (fullAttempts maxAttempts t) := by
    cases hm : attemptsAllowed (default i) (x.payloadLeft (a.ext x)) with
    | error e => rw [hm] at hallowed; cases hallowed
    | ok m => rw [hm] at hallowed; exact congrArg _ (Option.some.inj hallowed)
  rw [hnext]
  apply h.row_step _ ((h.task t).handle_step hi hx ht hok hoom)
  · intro t' hne
    apply SameAttempts.cons rfl rfl
    simp only [Entry.handles, hx, Option.any_some, ht, decide_eq_false (Ne.symm hne)]
  · intro t' _
    rfl
  · intro t' hc
    rw [hi] at hc
    exact (Option.some.inj hc).symm
  · intro t' hc
    exact (Option.some.inj hc).symm
  · intro t' hfails
    cases hfails
  · rw [hi]
    intro hc
    cases hc

/-- The update that ends an attempt. -/
theorem CountedInTurn.settle_step (h : CountedInTurn default maxAttempts strict s l) {n : Nat}
    {payload : Dict} {oom : Bool} (hi : l i = .called t n payload oom) {st : TaskStatus}
    {r : Option Dict} {err : Option String} (a : Answers)
    (hm : Stage.may (default i) i (.called t n payload oom)
      (.store (.updateTaskStatus t st r err))) :
    CountedInTurn default maxAttempts strict
      { s with
        store := (s.store.exec (.updateTaskStatus t st r err) a.clock).2
        log := ⟨i, .store (.updateTaskStatus t st r err),
          (s.store.exec (.updateTaskStatus t st r err) a.clock).1⟩ :: s.log }
      (Function.update l i .over) := by
  obtain ⟨-, hsettled, hfailed, hpending⟩ := hm
  have hmine : (l i).executes t n := by rw [hi]; exact ⟨rfl, rfl⟩
  obtain ⟨hrunning, hexecutor, hn⟩ := (h.task t).executes i n hmine
  obtain ⟨hstarted, hallowed, hoom⟩ := (h.task t).called i n payload oom hi
  have htally := (h.task t).tally
  rw [hstarted] at htally
  rcases s.store.update_cases a.clock t st r err with ⟨row, r', hrow, -, -, hx⟩ | ⟨x, hx, -⟩ <;>
    rw [hx]
  swap
  · apply h.refused_step
    · intro t'
      exact SameAttempts.cons rfl rfl rfl
    · intro t'
      cases st <;> rfl
    · intro t' m hc
      rw [hi] at hc
      cases hc
  have hrow' : (s.store.modifyTask t (·.settle st r' err) (·.settle_taskId _ _ _)).task? t =
      some (row.settle st r' err) := by
    rw [StateStore.modifyTask_task?_self, hrow]
    rfl
  have hstatus : (s.store.modifyTask t (·.settle st r' err)
      (·.settle_taskId _ _ _)).statusOf t = some st := StateStore.statusOf_eq hrow'
  apply @CountedInTurn.row_step default maxAttempts strict s l t i h
  · rw [hi]
    intro hc
    cases hc
  · apply (h.task t).step (SameAttempts.cons rfl rfl rfl)
    · apply Stage.counts_update
      intro hc
      cases hc
    · apply Stage.counted_update
      intro m hc
      rw [hi] at hc
      cases hc
    · intro _
      rw [hrow']
      exact Option.some_ne_none _
    · intro row' hrow''
      obtain rfl := Option.some.inj (hrow'.symm.trans hrow'')
      exact ⟨row, hrow, rfl⟩
    · intro j m hj
      by_cases hji : j = i
      · rw [hji, Function.update_self] at hj
        exact hj.elim
      · rw [Function.update_of_ne hji] at hj
        have hexec := ((h.task t).executes j m hj).2.1
        rw [hexecutor] at hexec
        exact absurd (Option.some.inj hexec).symm hji
    · intro _
      exact hstarted
    · intro _ hst
      rw [hstatus] at hst
      rcases hst with hst | hst <;> obtain rfl := Option.some.inj hst
      · rcases hpending rfl with ho | ⟨m, hm, hlt⟩
        · rw [hoom] at ho
          cases ho
        · rw [hallowed] at hm
          obtain rfl := Except.ok.inj hm
          omega
      · exact absurd hsettled (by decide)
  · intro t' _
    exact SameAttempts.cons rfl rfl rfl
  · intro t' ht
    rw [StateStore.modifyTask_task?, if_neg ht]
  · intro t' hc
    rw [hi] at hc
    exact (Option.some.inj hc).symm
  · intro t' hc
    cases hc
  · intro t' hfails
    obtain ⟨rfl, rfl⟩ : st = .failed ∧ t = t' := by
      cases st <;> first | cases hfails | exact ⟨rfl, of_decide_eq_true hfails⟩
    obtain ⟨m, hm, hle⟩ := hfailed rfl
    rw [hallowed] at hm
    obtain rfl := Except.ok.inj hm
    simp only [Bool.toNat_false, Nat.add_zero] at htally
    constructor
    · omega
    · intro hstrict
      have hmost := (h.task t).most hstrict
      omega

/-- **Every permitted request keeps the count in turn.** -/
theorem CountedInTurn.call_step (h : CountedInTurn default maxAttempts strict s l) {e : Effect}
    (a : Answers) (hm : (stages pf (default i) i).may (l i) e)
    (hG : (countsInTurn pf default maxAttempts strict).call s i e a) :
    CountedInTurn default maxAttempts strict
      { s with store := (e.perform a s.store).2, log := ⟨i, e, (e.perform a s.store).1⟩ :: s.log }
      (Function.update l i ((l i).next pf e (e.perform a s.store).1)) := by
  obtain ⟨hmark, hplain⟩ := Bool.and_eq_true_iff.mp hG
  by_cases haside : Aside e
  · rw [(l i).next_of_aside pf haside]
    exact h.aside_step haside a
  generalize hi : (l i) = st at hm
  have hm' : st.may (default i) i e := hm
  cases e with
  | ext x =>
    cases st <;> try exact absurd hm' haside
    case marked t n =>
      cases hx : x.handled with
      | none => exact absurd hx haside
      | some task => exact h.handle_step hi hx (hm' task hx) a hplain
  | store op =>
    cases op <;> try exact absurd trivial haside
    case leaseNextPendingTask runId w n =>
      cases st <;> try exact hm'.elim
      obtain rfl : w = i := hm'
      exact h.lease_step hi a
    case incrementTaskAttempts t =>
      cases st <;> try exact hm'.elim
      obtain rfl : t = _ := hm'
      exact h.count_step hi a
    case markTaskRunning t =>
      cases st <;> try exact hm'.elim
      obtain rfl : t = _ := hm'
      exact h.mark_step hi hmark a
    case updateTaskStatus t status r err =>
      cases st <;> try exact hm'.elim
      obtain rfl : t = _ := hm'.1
      exact h.settle_step hi a hm'
    all_goals
      cases st <;> exact hm'.elim

/-! ### Starts, crashes and the environment -/

/-- A worker that starts or dies has counted nothing that it has not marked. -/
theorem CountedInTurn.stage_step (h : CountedInTurn default maxAttempts strict s l) {st : Stage}
    (hi : ∀ t n, l i ≠ .counted t n) (hst : ∀ t, st.counts ≠ some t) {dead : List WorkerId}
    (hdead : ∀ j ∈ dead, Function.update l i st j = .over) :
    CountedInTurn default maxAttempts strict { s with dead } (Function.update l i st) where
  dead := hdead
  failed := h.failed
  task t := by
    apply (h.task t).same
    · exact SameAttempts.refl t s.log
    · rfl
    · exact Stage.counts_update (hst t)
    · exact Stage.counted_update (hi t) st

/-- A reclaim takes a task that is `RUNNING` from a dead executor. -/
theorem CountedInTurn.reclaim_step (h : CountedInTurn default maxAttempts strict s l)
    (hr : s.store.task? t = some r) (hr' : store.task? t = some r')
    (hcount : r'.attemptCount = r.attemptCount) {runId : RunId} {w : WorkerId} {n : Int}
    (hheld : s.store.heldBy runId w = some r)
    (hG : reclaimsStarted maxAttempts strict s (.reclaimDeadWorker runId w n) = true) :
    InTurn default maxAttempts strict { s with store } l t := by
  rcases (s.store.heldBy_some hheld).2.2.2 with hleased | hrunning
  · exact (h.task t).unlease_step hr hr' hcount hleased
  have hid := s.store.task?_taskId hr
  simp only [reclaimsStarted, hheld, Option.all_some, hrunning, ne_eq, not_true_eq_false,
    decide_false, Bool.false_or, Bool.and_eq_true, Bool.not_eq_true', hid, Bool.or_eq_true,
    decide_eq_true_eq] at hG
  obtain ⟨⟨hexecutor, hstarted⟩, hleft⟩ := hG
  obtain ⟨i, hi, hdead⟩ := Option.any_eq_true _ _ |>.mp hexecutor
  apply (h.task t).release_step hr hr' hcount
  · intro j m hj
    have hexec := ((h.task t).executes j m hj).2.1
    rw [hi] at hexec
    obtain rfl := Option.some.inj hexec
    rw [h.dead i (of_decide_eq_true hdead)] at hj
    exact hj
  · exact hstarted
  · intro hstrict
    apply hleft.resolve_left
    rw [hstrict]
    decide

/-- Requeueing and reclaiming leave the counts alone. -/
theorem CountedInTurn.env_step (h : CountedInTurn default maxAttempts strict s l)
    {d : Maintenance × Clock} (hG : (countsInTurn pf default maxAttempts strict).env s d) :
    CountedInTurn default maxAttempts strict
      { s with store := (s.store.exec d.1.op d.2).2 } l where
  dead := h.dead
  failed := h.failed
  task t := by
    have hkeeps : StateStore.keepsTasks d.1.op := by cases d.1 <;> trivial
    have hsame : (s.store.exec d.1.op d.2).2.task? t = s.store.task? t →
        InTurn default maxAttempts strict { s with store := (s.store.exec d.1.op d.2).2 } l t := by
      intro hrow
      apply (h.task t).same
      · exact SameAttempts.refl t s.log
      · exact hrow
      · intro j _
        rfl
      · intro j n _
        rfl
    rcases s.store.exec_row d.2 hkeeps t with ⟨hn, hn'⟩ | ⟨r, r', hr, hr', hc⟩
    · exact hsame (hn'.trans hn.symm)
    obtain ⟨m, clk⟩ := d
    cases m with
    | requeueExpiredLeases runId =>
      cases hc with
      | same => exact hsame (hr'.trans hr.symm)
      | expire expired =>
        simp only [InMemory.expired, Bool.and_eq_true, decide_eq_true_eq] at expired
        exact (h.task t).unlease_step hr hr' rfl expired.1.2
    | reclaimDeadWorker runId w n =>
      cases hc with
      | same => exact hsame (hr'.trans hr.symm)
      | reclaim held _ => exact h.reclaim_step hr hr' rfl held hG
      | abandon held _ => exact h.reclaim_step hr hr' rfl held hG

theorem countedInTurn_sound (pf : Platform) (default : WorkerId → Int)
    (maxAttempts : TaskId → Int) (strict : Bool) :
    (fleet pf).Sound (fun i => stages pf (default i) i) (fun st => st.waits = false)
      (CountedInTurn default maxAttempts strict)
      (countsInTurn pf default maxAttempts strict) where
  call := fun s l i e a hJ hm hG => ⟨_, rfl, hJ.call_step a hm hG⟩
  start := by
    intro s l i job prog s' hJ hdone hG hsp
    obtain ⟨hi, rfl, rfl⟩ := fleet_spawn hsp
    refine ⟨.free, ?_, hJ.stage_step ?_ ?_ ?_⟩
    · have hstaged := @LocalWorker.staged_runOnce pf (job.workerFor i) job.memory job.runId
      unfold LocalWorker.Staged at hstaged
      rw [show (job.workerFor i).retryPolicy.maxAttempts = default i from hG] at hstaged
      exact hstaged
    · intro t n hc
      rw [hc] at hdone
      cases hdone
    · intro t hc
      cases hc
    · intro j hj
      have hji : j ≠ i := by
        rintro rfl
        exact hi hj
      rw [Function.update_of_ne hji]
      exact hJ.dead j hj
  crash := by
    intro s l i hJ hG
    refine ⟨.over, hJ.stage_step ?_ ?_ ?_⟩
    · intro t n hi
      obtain ⟨hm, -⟩ := (hJ.task t).turn i n hi
      obtain ⟨r, hr⟩ := Option.ne_none_iff_exists'.mp ((hJ.task t).waits i hm).1
      have hout := List.all_eq_true.mp hG r (Table.find?_eq_some_iff.mp hr).1
      rw [s.store.task?_taskId hr] at hout
      exact of_decide_eq_true hout hm
    · intro t hc
      cases hc
    · intro j hj
      by_cases hji : j = i
      · rw [hji, Function.update_self]
      · rw [Function.update_of_ne hji]
        exact hJ.dead j ((List.mem_cons.mp hj).resolve_left hji)
  env := by
    intro s l d s' hJ hG hs
    obtain rfl := Option.some.inj hs
    exact hJ.env_step hG

end Steps

/-! ## Runs -/

theorem countedInTurn_initial {default : WorkerId → Int} {maxAttempts : TaskId → Int}
    {strict : Bool} {s : StateStore} (hs : ∀ r ∈ s.tables.tasks.rows, r.attemptCount = 0) :
    CountedInTurn default maxAttempts strict { store := s } fun _ => .over where
  dead := by
    intro i hi
    cases hi
  failed := by
    intro t e before hsuffix
    cases List.suffix_nil.mp hsuffix
  task t := by
    have hpos : 1 ≤ fullAttempts maxAttempts t := le_max_left 1 _
    constructor
    · intro r hr
      exact hs r (Table.find?_eq_some_iff.mp hr).1
    · exact List.nodup_nil
    · intro i hi
      cases hi
    · intro i n hi
      cases hi
    · intro i n hi
      exact hi.elim
    · intro i n hi
      cases hi
    · intro i n payload oom hi
      cases hi
    · intro _
      rfl
    · intro _ _
      show ((0 : Nat) : Int) < _
      omega
    · intro _
      show ((0 : Nat) : Int) ≤ _
      omega
    · rfl

/-- **Full attempts.** On a store whose tasks have no attempts yet, in every run of any number
of workers in which each count is followed by its mark in turn and no task is reclaimed from a
worker that has not called the handler: with no living worker between count and mark,
`attempt_count` is the number of moves to `RUNNING`; and a task that is marked `FAILED` has had
its handler started as often as `max_attempts` says, not more if reclaims leave an attempt. -/
theorem failed_after_full_attempts (pf : Platform) (default : WorkerId → Int)
    (maxAttempts : TaskId → Int) (strict : Bool) (s : StateStore)
    (hs : ∀ r ∈ s.tables.tasks.rows, r.attemptCount = 0) {p : FleetState}
    (h : (fleet pf).machine.Steps (countsInTurn pf default maxAttempts strict).Meets
      (fleetOn s) p) :
    (∀ t r, p.shared.store.task? t = some r → (∀ w ∈ waiting t p.shared.log, w ∈ p.shared.dead) →
        r.attemptCount = runningMoves t p.shared.log) ∧
      ∀ t e before, e :: before <:+ p.shared.log → e.fails t = true →
        fullAttempts maxAttempts t ≤ handlerStarts t before ∧
          (strict = true → (handlerStarts t before : Int) = fullAttempts maxAttempts t) := by
  have h0 : Service.Conforms (fun i => stages pf (default i) i) (fun st => st.waits = false)
      (CountedInTurn default maxAttempts strict) (fleetOn s) :=
    Service.conforms_initial (countedInTurn_initial hs) rfl
  obtain ⟨l, hJ, -⟩ := (countedInTurn_sound pf default maxAttempts strict).invariant h h0
  constructor
  · intro t r hr hdead
    have hnone : waiting t p.shared.log = [] := by
      rw [List.eq_nil_iff_forall_not_mem]
      intro w hw
      obtain ⟨-, n, hn⟩ := (hJ.task t).waits w hw
      rw [hJ.dead w (hdead w hw)] at hn
      cases hn
    rw [(hJ.task t).count r hr, hnone, List.length_nil, Nat.add_zero]
  · exact hJ.failed

/-! ## An attempt that is counted and not made -/

/-- A task that may be tried twice. -/
def triedTwice : TaskRecord := pendingTask "t" (Dict.ofList [("max_attempts", .int 2)])

/-- A worker that has started the run `r`. -/
def plainJob : Job where
  worker := { workerId := "" }
  memory := [("r", none)]
  runId := "r"

/-- The handler raises. -/
def raisingAt (now : Instant) : Answers := .steady now (.error (.valueError "boom"))

/-- `A` dies between its count and its mark. After the lease has run out, `B` counts again,
executes the task and marks it `FAILED`. -/
def countedTwice : List (Act WorkerId Answers Job (Maintenance × Clock)) :=
  [.start "A" plainJob] ++ turns "A" (raisingAt 0) 2 ++ [.crash "A", .start "B" plainJob] ++
    turns "B" (raisingAt 400000000) 9

/-- **The attempt that is not made.** With `max_attempts` 2 the task is marked `FAILED` after one
start of its handler: `attempt_count` is 2 after a single move to `RUNNING`. -/
theorem counted_attempt_not_made : ∃ (p : FleetState) (e : Entry) (before : List Entry),
    (fleet .bare).machine.Reaches (fleetOn (storeWith .sqlite .running triedTwice)) p ∧
    (attemptsAllowed 1 triedTwice.payload).toOption = some 2 ∧
    p.shared.log = e :: before ∧ e.fails "t" = true ∧ handlerStarts "t" before = 1 ∧
    (p.shared.store.task? "t").map (·.attemptCount) = some 2 ∧
    runningMoves "t" p.shared.log = 1 ∧ ∀ w ∈ waiting "t" p.shared.log, w ∈ p.shared.dead := by
  have hrun : ((fleet .bare).machine.run
      (fleetOn (storeWith .sqlite .running triedTwice)) countedTwice).any (fun p =>
        p.shared.log.head?.any (·.fails "t") && handlerStarts "t" p.shared.log.tail = 1 &&
        (p.shared.store.task? "t").map (·.attemptCount) = some 2 &&
        runningMoves "t" p.shared.log = 1 &&
        (waiting "t" p.shared.log).all (· ∈ p.shared.dead)) = true := by decide +kernel
  obtain ⟨p, hp, hb⟩ := Option.any_eq_true _ _ |>.mp hrun
  simp only [Bool.and_eq_true, decide_eq_true_eq, List.all_eq_true] at hb
  obtain ⟨⟨⟨⟨hfails, hstarts⟩, hcount⟩, hmoves⟩, hdead⟩ := hb
  cases hlog : p.shared.log with
  | nil =>
    rw [hlog] at hfails
    cases hfails
  | cons e before =>
    rw [hlog] at hfails hstarts
    exact ⟨p, e, before, Machine.reaches_of_run hp, by decide +kernel, hlog, hfails, hstarts,
      hcount, hmoves, hdead⟩

section Decidable

variable (pf : Platform) (default : WorkerId → Int) (maxAttempts : TaskId → Int) (strict : Bool)

instance : ∀ s i e a,
    Decidable ((countsInTurn pf default maxAttempts strict).call s i e a) :=
  fun s i e a => inferInstanceAs
    (Decidable ((marksInTurn s i e && plainCall pf (default i) maxAttempts a e) = true))

instance : ∀ s i j, Decidable ((countsInTurn pf default maxAttempts strict).start s i j) :=
  fun _ i j => inferInstanceAs (Decidable (j.worker.retryPolicy.maxAttempts = default i))

instance : ∀ s i, Decidable ((countsInTurn pf default maxAttempts strict).crash s i) :=
  fun s i => inferInstanceAs
    (Decidable ((s.store.tables.tasks.rows.all fun r => i ∉ waiting r.taskId s.log) = true))

instance : ∀ s d, Decidable ((countsInTurn pf default maxAttempts strict).env s d) :=
  fun s d => inferInstanceAs (Decidable (reclaimsStarted maxAttempts strict s d.1 = true))

end Decidable

/-- `A` dies with its lease, before it has counted; `B` and `C` make an attempt each. -/
def countedOnce : List (Act WorkerId Answers Job (Maintenance × Clock)) :=
  [.start "A" plainJob] ++ turns "A" (raisingAt 0) 1 ++ [.crash "A", .start "B" plainJob] ++
    turns "B" (raisingAt 400000000) 14 ++ [.start "C" plainJob] ++
    turns "C" (raisingAt 400000000) 9

/-- The rule at work: two starts before the task is marked `FAILED`. -/
theorem failed_after_two_attempts : ∃ (p : FleetState) (e : Entry) (before : List Entry),
    (fleet .bare).machine.run (fleetOn (storeWith .sqlite .running triedTwice)) countedOnce =
      some p ∧
    p.shared.log = e :: before ∧ e.fails "t" = true ∧ handlerStarts "t" before = 2 := by
  have hrun : ((fleet .bare).machine.run
      (fleetOn (storeWith .sqlite .running triedTwice)) countedOnce).any
        (fun p => p.shared.log.head?.any (·.fails "t")) = true := by decide +kernel
  obtain ⟨p, hp, hfails⟩ := Option.any_eq_true _ _ |>.mp hrun
  have hsteps : (fleet .bare).machine.Steps
      (countsInTurn .bare (fun _ => 1) (fun _ => 2) true).Meets _ p :=
    Machine.steps_of_run hp (by decide +kernel)
  have hfresh : ∀ r ∈ (storeWith .sqlite .running triedTwice).tables.tasks.rows,
      r.attemptCount = 0 := by
    intro r hr
    rw [List.mem_singleton.mp hr]
    rfl
  obtain ⟨-, hfull⟩ := failed_after_full_attempts .bare (fun _ => 1) (fun _ => 2) true _ hfresh
    hsteps
  cases hlog : p.shared.log with
  | nil =>
    rw [hlog] at hfails
    cases hfails
  | cons e before =>
    rw [hlog] at hfails
    obtain ⟨-, hstarts⟩ := hfull "t" e before (by rw [hlog]) hfails
    refine ⟨p, e, before, hp, hlog, hfails, ?_⟩
    have htwo := hstarts rfl
    rw [show fullAttempts (fun _ => 2) "t" = 2 from rfl] at htwo
    exact_mod_cast htwo

end FineTuneHarness
