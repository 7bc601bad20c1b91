import FineTuneHarness.Executor.History

/-!
# Two budgets and one counter

An OOM requeue leaves `max_attempts` untouched, but the attempt it ends has been counted: the
retry decision compares `attempt_count`, which counts the attempts of either kind, with
`max_attempts`, and an OOM failure beyond `max_oom_retries` is decided there too.
-/
namespace FineTuneHarness

open Library Library.Program

/-- How an attempt has ended. -/
inductive AttemptOutcome
  | oom | failure | success
deriving DecidableEq

/-- The store, and how the attempts at one task have ended so far, the last one first. -/
structure Tried where
  store : StateStore
  outcomes : List AttemptOutcome := []

/-- What happens between two attempts leaves the task alone. -/
inductive TrialStep
  | attempt (w : LocalWorker) (mem : RunMemory) (ans : Answers)
  | between (s : StateStore)

/-- The status of a task under two independent budgets: `FAILED` once the ordinary failures
reach the one or the OOM failures exceed the other. -/
def budgetVerdict (maxAttempts maxOomRetries : Int) (outcomes : List AttemptOutcome) : TaskStatus :=
  if outcomes.head? = some .success then .succeeded
  else if maxAttempts ≤ outcomes.count .failure ∨ maxOomRetries < outcomes.count .oom then .failed
  else .pending

namespace LocalWorker

variable (pf : Platform) (w : LocalWorker)

/-- The outcome of a handler call under the two budgets; a deadline, a rejected or unusable
result and other budgets are none of the three. -/
def handlerOutcome (s : StateStore) (ext : (x : Ext) → x.Reply) (task : TaskRecord)
    (maxAttempts maxOomRetries : Int) (run : HandlerRun (Except PyExc PyVal)) :
    Option AttemptOutcome :=
  match run.outcome with
  | .error exc =>
    if exc.isInstance "TimeoutError" = false ∧ w.maxOomRetries = maxOomRetries ∧
        (w.resolveMaxAttempts run.payload).toOption = some maxAttempts then
      if isOomError pf exc then some .oom else some .failure
    else none
  | .ok v =>
    match judge pf run.payload run.wallSeconds v with
    | .error _ => none
    | .ok (result, outcome) =>
      if outcome.status.rejected = false ∧ (s.keep (some (w.hooks.applied ext
          (.afterTaskSuccess { task with payload := run.payload } result)).result)).isOk then
        some .success
      else none

/-- The outcome of the next attempt, if it is one at this task that gets to its handler. -/
def trialOutcome (runId : RunId) (id : TaskId) (maxAttempts maxOomRetries : Int) (s : StateStore)
    (mem : RunMemory) (ans : Answers) : Option AttemptOutcome :=
  (s.nextLeaseable runId ans.clock.now).bind fun t =>
    if t.taskId = id then
      (w.handlerCall pf ans.ext s runId mem
        (t.leaseTo w.workerId (leaseUntil ans.clock.later leaseSeconds))).bind fun call =>
        w.handlerOutcome pf s ans.ext
          (t.leaseTo w.workerId (leaseUntil ans.clock.later leaseSeconds)) maxAttempts maxOomRetries
          (executed ans.ext call.1 call.2)
    else none

end LocalWorker

/-- Attempts at one task, one at a time, by any workers. -/
def trials (pf : Platform) (runId : RunId) (id : TaskId) (maxAttempts maxOomRetries : Int) :
    Machine Tried TrialStep where
  step σ
    | .attempt w mem ans =>
      (w.trialOutcome pf runId id maxAttempts maxOomRetries σ.store mem ans).map fun o =>
        { store := (atomically (w.runOnce pf mem runId) ans σ.store).2
          outcomes := o :: σ.outcomes }
    | .between s =>
      if (s.task? id).map (fun t => (t.status, t.attemptCount)) =
            (σ.store.task? id).map (fun t => (t.status, t.attemptCount)) ∧
          LocalWorker.oomRequeues id (s.eventsOf runId) =
            LocalWorker.oomRequeues id (σ.store.eventsOf runId) then
        some { σ with store := s }
      else none

/-! ## One attempt -/

theorem oomRequeues_eq (s : StateStore) (runId : RunId) (t : TaskId) :
    LocalWorker.oomRequeues t (s.eventsOf runId) =
      (s.lifeEvents runId t).countP fun e => e.1 = oomRequeuedKind := by
  unfold StateStore.lifeEvents LocalWorker.oomRequeues
  rw [List.countP_filterMap, List.countP_eq_length_filter]
  congr 1
  refine List.filter_congr fun e _ => ?_
  unfold lifeEvent
  by_cases ht : e.taskId = some t
  · by_cases hk : e.kind = oomRequeuedKind
    · rw [if_pos ⟨ht, by rw [hk]; decide⟩]
      simp [ht, hk, oomRequeuedKind]
    · have hk' : ¬ e.kind = "task_oom_requeued" := hk
      by_cases hl : e.kind ∈ lifecycleKinds
      · rw [if_pos ⟨ht, hl⟩]
        simp [hk, hk']
      · rw [if_neg fun hx => hl hx.2]
        simp [hk']
  · rw [if_neg fun hx => ht hx.1]
    simp [ht]

/-- What an attempt with this outcome makes of the task, and of its OOM requeues. -/
structure TrialResult (maxAttempts maxOomRetries : Int) (o : AttemptOutcome) (t t' : TaskRecord)
    (k k' : Nat) : Prop where
  count : t'.attemptCount = t.attemptCount + 1
  status : t'.status =
    if o = .success then .succeeded
    else if o = .oom ∧ (k : Int) < maxOomRetries then .pending
    else if ((t.attemptCount + 1 : Nat) : Int) < maxAttempts then .pending else .failed
  requeues : k' = if o = .oom ∧ (k : Int) < maxOomRetries then k + 1 else k

section Trial

variable {pf : Platform} {w : LocalWorker} {ans : Answers} {s : StateStore} {runId : RunId}
  {mem : RunMemory} {id : TaskId} {maxAttempts maxOomRetries : Int} {o : AttemptOutcome}

/-- The OOM requeues after an attempt. -/
theorem LogIs.oomRequeues {s' : StateStore} {log : List LifeEvent} (h : LogIs s s' runId id log) :
    LocalWorker.oomRequeues id (s'.eventsOf runId) =
      LocalWorker.oomRequeues id (s.eventsOf runId) +
        log.countP fun e => e.1 = oomRequeuedKind := by
  rw [oomRequeues_eq, oomRequeues_eq, h id, if_pos rfl, List.countP_append]

/-- At most the closing event of an attempt is an OOM requeue. -/
theorem countP_attempt (a : Attempt) (kind : Option String) :
    (LocalWorker.numbered a "task_running" :: kind.toList.map (LocalWorker.numbered a)).countP
      (fun e => e.1 = oomRequeuedKind) = if kind = some oomRequeuedKind then 1 else 0 := by
  cases kind with
  | none => rfl
  | some k =>
    by_cases hk : k = oomRequeuedKind
    · subst hk
      rfl
    · have hk' : ¬ k = "task_oom_requeued" := hk
      rw [if_neg (by simpa using hk)]
      simp [LocalWorker.numbered, hk', oomRequeuedKind]

/-- **The row and the closing event of an attempt with this outcome.** -/
theorem endRow_trial (hM : 1 ≤ maxOomRetries) (a : Attempt) (row : TaskRecord)
    {run : HandlerRun (Except PyExc PyVal)}
    (ho : w.handlerOutcome pf s ans.ext a.task maxAttempts maxOomRetries run = some o) :
    ∃ st r err kind, w.endRow pf ans.ext s a row run = row.settle st r err ∧
      w.closingKind pf ans.ext s a run = kind ∧
      (o = .success ∧ st = .succeeded ∧ kind ≠ some oomRequeuedKind ∨
        o = .oom ∧ (LocalWorker.oomRequeues a.task.taskId (s.eventsOf a.runId) : Int) <
            maxOomRetries ∧ st = .pending ∧ kind = some oomRequeuedKind ∨
        ¬ (o = .oom ∧ (LocalWorker.oomRequeues a.task.taskId (s.eventsOf a.runId) : Int) <
            maxOomRetries) ∧ o ≠ .success ∧
          st = (if (a.count : Int) < maxAttempts then .pending else .failed) ∧
          kind ≠ some oomRequeuedKind) := by
  unfold LocalWorker.handlerOutcome at ho
  unfold LocalWorker.endRow LocalWorker.closingKind
  cases hout : run.outcome with
  | error exc =>
    rw [hout] at ho
    dsimp only at ho ⊢
    split at ho
    swap; · cases ho
    next hguard =>
    obtain ⟨ht, hbudget, hmax⟩ := hguard
    obtain hlimit : w.resolveMaxAttempts run.payload = .ok maxAttempts := by
      cases hm : w.resolveMaxAttempts run.payload with
      | error e => rw [hm] at hmax; cases hmax
      | ok m => rw [hm] at hmax; rw [Option.some.inj hmax]
    rw [if_neg (by rw [ht]; exact Bool.false_ne_true), if_neg (by rw [ht]; exact Bool.false_ne_true)]
    unfold LocalWorker.failedRow
    rw [hlimit]
    have hrequeues : w.RequeuesOom pf s a.runId a.task exc ↔ isOomError pf exc = true ∧
        (LocalWorker.oomRequeues a.task.taskId (s.eventsOf a.runId) : Int) < maxOomRetries := by
      unfold LocalWorker.RequeuesOom
      rw [hbudget]
      constructor
      · rintro ⟨⟨-, h1⟩, h2⟩
        exact ⟨h1, h2⟩
      · rintro ⟨h1, h2⟩
        exact ⟨⟨by omega, h1⟩, h2⟩
    have hoom : isOomError pf exc = true ↔ o = .oom := by
      split at ho
      next h => simp [h, ← Option.some.inj ho]
      next h => simp [h, ← Option.some.inj ho]
    have hfail : o ≠ .success := by
      rintro rfl
      split at ho <;> cases ho
    by_cases hr : w.RequeuesOom pf s a.runId a.task exc
    · rw [if_pos hr, if_pos hr]
      obtain ⟨h1, h2⟩ := hrequeues.mp hr
      exact ⟨_, _, _, _, rfl, rfl, .inr (.inl ⟨hoom.mp h1, h2, rfl, rfl⟩)⟩
    · rw [if_neg hr, if_neg hr]
      refine ⟨_, _, _, _, rfl, rfl, .inr (.inr ⟨?_, hfail, rfl, ?_⟩)⟩
      · exact fun hx => hr (hrequeues.mpr ⟨hoom.mpr hx.1, hx.2⟩)
      · intro hx
        dsimp only at hx
        split at hx <;> exact absurd (Option.some.inj hx) (by decide)
  | ok v =>
    rw [hout] at ho
    dsimp only at ho ⊢
    unfold LocalWorker.returnedRow
    cases hj : LocalWorker.judge pf run.payload run.wallSeconds v with
    | error e => rw [hj] at ho; cases ho
    | ok judged =>
      obtain ⟨result, outcome⟩ := judged
      rw [hj] at ho
      dsimp only at ho ⊢
      split at ho
      swap; · cases ho
      next hguard =>
      obtain ⟨hrej, hkeep⟩ := hguard
      obtain rfl := Option.some.inj ho
      rw [if_neg (by rw [hrej]; exact Bool.false_ne_true),
        if_neg (by rw [hrej]; exact Bool.false_ne_true)]
      unfold LocalWorker.keptRow
      cases hk : s.keep (some (w.hooks.applied ans.ext
          (.afterTaskSuccess { a.task with payload := run.payload } result)).result) with
      | error e => rw [hk] at hkeep; cases hkeep
      | ok r =>
        refine ⟨_, _, _, _, rfl, rfl, .inl ⟨rfl, rfl, ?_⟩⟩
        split <;> decide

/-- **One attempt of the task.** -/
theorem trialOutcome_spec (hM : 1 ≤ maxOomRetries)
    (ho : w.trialOutcome pf runId id maxAttempts maxOomRetries s mem ans = some o) :
    ∃ t t', s.task? id = some t ∧ (t.status = .pending ∨ t.status = .leased) ∧
      (atomically (w.runOnce pf mem runId) ans s).2.task? id = some t' ∧
      TrialResult maxAttempts maxOomRetries o t t'
        (LocalWorker.oomRequeues id (s.eventsOf runId))
        (LocalWorker.oomRequeues id
          ((atomically (w.runOnce pf mem runId) ans s).2.eventsOf runId)) := by
  unfold LocalWorker.trialOutcome at ho
  obtain ⟨t, hn, htask⟩ := Option.bind_eq_some_iff.mp ho
  clear ho
  split at htask
  swap; · cases htask
  next hid =>
  subst hid
  obtain ⟨call, hcall, hhandled⟩ := Option.bind_eq_some_iff.mp htask
  obtain ⟨hrow, hrun, hfree⟩ := s.nextLeaseable_some hn
  have hknown : s.run? runId ≠ none := by
    intro hnone
    unfold LocalWorker.handlerCall at hcall
    rw [hnone] at hcall
    cases hcall
  obtain ⟨st, r, err, kind, hend, hkind, hcase⟩ := endRow_trial hM
    ⟨runId, t.leaseTo w.workerId (leaseUntil ans.clock.later LocalWorker.leaseSeconds),
      t.attemptCount + 1⟩
    (LocalWorker.markedRow t w.workerId (leaseUntil ans.clock.later LocalWorker.leaseSeconds))
    hhandled
  dsimp only at hcase
  rw [TaskRecord.leaseTo_taskId] at hcase
  have hrows := runOnce_row pf w mem hn t.taskId
  have hlog := runOnce_log pf w mem hknown hn
  have hrequeues := hlog.oomRequeues
  rw [if_pos rfl] at hrows
  unfold LocalWorker.attemptRow at hrows
  unfold LocalWorker.attemptLog at hrequeues
  dsimp only at hrequeues
  rw [hcall] at hrows hrequeues
  dsimp only at hrows hrequeues
  rw [hend] at hrows
  rw [hkind] at hrequeues
  rw [countP_attempt] at hrequeues
  refine ⟨t, _, hrow, StateStore.leaseable_status hfree, hrows, rfl, ?_, ?_⟩
  · rcases hcase with ⟨rfl, rfl, -⟩ | ⟨rfl, hlt, rfl, -⟩ | ⟨hno, hne, rfl, -⟩
    · rfl
    · rw [if_neg (by decide), if_pos ⟨rfl, hlt⟩]
      rfl
    · rw [if_neg hne, if_neg hno]
      rfl
  · rw [hrequeues]
    rcases hcase with ⟨rfl, -, hk⟩ | ⟨rfl, hlt, -, hk⟩ | ⟨hno, -, -, hk⟩
    · rw [if_neg hk, if_neg (by simp)]
      rfl
    · rw [if_pos hk, if_pos ⟨rfl, hlt⟩]
    · rw [if_neg hk, if_neg hno]
      rfl

end Trial

/-! ## Every sequence of attempts -/

/-- The attempt costs neither budget what belongs to the other: an ordinary failure at the
last counted attempt is the last ordinary failure, and an OOM failure beyond the OOM budget
comes at a last counted attempt. -/
def KeepsApart (maxAttempts maxOomRetries : Int) (outcomes : List AttemptOutcome) :
    AttemptOutcome → Prop
  | .failure =>
    maxAttempts ≤ (outcomes.length + 1 : Nat) → maxAttempts ≤ (outcomes.count .failure + 1 : Nat)
  | .oom => maxOomRetries ≤ outcomes.count .oom → maxAttempts ≤ (outcomes.length + 1 : Nat)
  | .success => True

/-- The condition on one step of a run. -/
def BudgetsApart (pf : Platform) (runId : RunId) (id : TaskId) (maxAttempts maxOomRetries : Int)
    (σ : Tried) : TrialStep → Prop
  | .attempt w mem ans =>
    ∀ o, w.trialOutcome pf runId id maxAttempts maxOomRetries σ.store mem ans = some o →
      KeepsApart maxAttempts maxOomRetries σ.outcomes o
  | .between _ => True

/-- The task has the status of independent budgets; while it waits, no attempt has succeeded and
every OOM failure has been requeued under the OOM budget. -/
structure OnBudget (runId : RunId) (id : TaskId) (maxAttempts maxOomRetries : Int) (σ : Tried) :
    Prop where
  row : ∃ t, σ.store.task? id = some t ∧
    t.status = budgetVerdict maxAttempts maxOomRetries σ.outcomes ∧
    t.attemptCount = σ.outcomes.length
  waiting : budgetVerdict maxAttempts maxOomRetries σ.outcomes = .pending →
    LocalWorker.oomRequeues id (σ.store.eventsOf runId) = σ.outcomes.count .oom ∧
      σ.outcomes.length = σ.outcomes.count .failure + σ.outcomes.count .oom

theorem budgetVerdict_cases (maxAttempts maxOomRetries : Int) (outcomes : List AttemptOutcome) :
    budgetVerdict maxAttempts maxOomRetries outcomes = .succeeded ∨
    budgetVerdict maxAttempts maxOomRetries outcomes = .failed ∨
    budgetVerdict maxAttempts maxOomRetries outcomes = .pending ∧
      (outcomes.count .failure : Int) < maxAttempts ∧
      (outcomes.count .oom : Int) ≤ maxOomRetries := by
  unfold budgetVerdict
  split
  · exact .inl rfl
  · split
    · exact .inr (.inl rfl)
    · exact .inr (.inr ⟨rfl, by omega, by omega⟩)

theorem budgetVerdict_failure (maxAttempts maxOomRetries : Int) (outcomes : List AttemptOutcome) :
    budgetVerdict maxAttempts maxOomRetries (.failure :: outcomes) =
      if maxAttempts ≤ (outcomes.count .failure + 1 : Nat) ∨ maxOomRetries < outcomes.count .oom then
        .failed
      else .pending := by
  unfold budgetVerdict
  rw [List.count_cons_self, List.count_cons_of_ne (by decide), if_neg (by simp)]

theorem budgetVerdict_oom (maxAttempts maxOomRetries : Int) (outcomes : List AttemptOutcome) :
    budgetVerdict maxAttempts maxOomRetries (.oom :: outcomes) =
      if maxAttempts ≤ outcomes.count .failure ∨ maxOomRetries < (outcomes.count .oom + 1 : Nat) then
        .failed
      else .pending := by
  unfold budgetVerdict
  rw [List.count_cons_self, List.count_cons_of_ne (by decide), if_neg (by simp)]

section Verdict

variable {maxAttempts maxOomRetries : Int} {outcomes : List AttemptOutcome} {t t' : TaskRecord}
  {k' : Nat} {o : AttemptOutcome}

/-- While both budgets last, an attempt that keeps them apart is decided like independent
budgets decide it. -/
theorem TrialResult.verdict
    (h : TrialResult maxAttempts maxOomRetries o t t' (outcomes.count .oom) k')
    (hn : t.attemptCount = outcomes.length)
    (hf : (outcomes.count .failure : Int) < maxAttempts)
    (hk : (outcomes.count .oom : Int) ≤ maxOomRetries) :
    t'.status = budgetVerdict maxAttempts maxOomRetries (o :: outcomes) ↔
      KeepsApart maxAttempts maxOomRetries outcomes o := by
  have hle : outcomes.count .failure ≤ outcomes.length := List.count_le_length
  have hstatus := h.status
  rw [hn] at hstatus
  cases o with
  | success => exact iff_of_true hstatus trivial
  | failure =>
    rw [if_neg (by decide), if_neg (by simp)] at hstatus
    rw [hstatus, budgetVerdict_failure]
    unfold KeepsApart
    by_cases hlast : maxAttempts ≤ (outcomes.length + 1 : Nat)
    · rw [if_neg (by omega)]
      by_cases hfull : maxAttempts ≤ (outcomes.count .failure + 1 : Nat)
      · rw [if_pos (.inl hfull)]
        exact iff_of_true rfl fun _ => hfull
      · rw [if_neg (by omega)]
        exact iff_of_false (by decide) fun hx => hfull (hx hlast)
    · rw [if_pos (by omega), if_neg (by omega)]
      exact iff_of_true rfl fun hx => absurd hx hlast
  | oom =>
    rw [if_neg (by decide)] at hstatus
    rw [hstatus, budgetVerdict_oom]
    unfold KeepsApart
    by_cases hbudget : (outcomes.count .oom : Int) < maxOomRetries
    · -- the OOM budget lasts: the attempt is requeued either way
      rw [if_pos ⟨rfl, hbudget⟩, if_neg (by omega)]
      exact iff_of_true rfl fun hx => by omega
    · have hspent : maxOomRetries < (outcomes.count .oom + 1 : Nat) := by omega
      rw [if_neg fun hx => hbudget hx.2, if_pos (Or.inr hspent)]
      by_cases hlast : maxAttempts ≤ (outcomes.length + 1 : Nat)
      · rw [if_neg (by omega)]
        exact iff_of_true rfl fun _ => hlast
      · rw [if_pos (by omega)]
        exact iff_of_false (by decide) fun hx => hlast (hx (by omega))

/-- While the verdict is to wait, every OOM failure has been requeued. -/
theorem TrialResult.waiting
    (h : TrialResult maxAttempts maxOomRetries o t t' (outcomes.count .oom) k')
    (hlen : outcomes.length = outcomes.count .failure + outcomes.count .oom)
    (hv : budgetVerdict maxAttempts maxOomRetries (o :: outcomes) = .pending) :
    k' = (o :: outcomes).count .oom ∧
      (o :: outcomes).length = (o :: outcomes).count .failure + (o :: outcomes).count .oom := by
  have hrequeues := h.requeues
  cases o with
  | success => cases hv
  | failure =>
    rw [if_neg (by simp)] at hrequeues
    rw [List.count_cons_self, List.count_cons_of_ne (by decide), List.length_cons]
    exact ⟨hrequeues, by omega⟩
  | oom =>
    rw [budgetVerdict_oom] at hv
    split at hv
    · cases hv
    next hlasts =>
      rw [if_pos ⟨rfl, by omega⟩] at hrequeues
      rw [List.count_cons_self, List.count_cons_of_ne (by decide), List.length_cons]
      exact ⟨hrequeues, by omega⟩

end Verdict

section Runs

variable {pf : Platform} {runId : RunId} {id : TaskId} {maxAttempts maxOomRetries : Int}
  {σ : Tried}

/-- **One attempt** ends in the status of independent budgets exactly if it keeps them apart. -/
theorem OnBudget.attempt (h : OnBudget runId id maxAttempts maxOomRetries σ)
    (hM : 1 ≤ maxOomRetries) {w : LocalWorker} {mem : RunMemory} {ans : Answers}
    {o : AttemptOutcome}
    (ho : w.trialOutcome pf runId id maxAttempts maxOomRetries σ.store mem ans = some o) :
    (KeepsApart maxAttempts maxOomRetries σ.outcomes o →
      OnBudget runId id maxAttempts maxOomRetries
        ⟨(atomically (w.runOnce pf mem runId) ans σ.store).2, o :: σ.outcomes⟩) ∧
    (¬ KeepsApart maxAttempts maxOomRetries σ.outcomes o →
      (atomically (w.runOnce pf mem runId) ans σ.store).2.statusOf id ≠
        some (budgetVerdict maxAttempts maxOomRetries (o :: σ.outcomes))) := by
  obtain ⟨t, t', ht, hwaits, ht', hres⟩ := trialOutcome_spec hM ho
  obtain ⟨t₀, ht₀, hst, hn⟩ := h.row
  obtain rfl := Option.some.inj (ht.symm.trans ht₀)
  have hnot : t.status ≠ .succeeded ∧ t.status ≠ .failed := by
    rcases hwaits with hx | hx <;> rw [hx] <;> decide
  obtain ⟨hpend, hf, hk⟩ := (budgetVerdict_cases maxAttempts maxOomRetries σ.outcomes).resolve_left
    (fun hv => hnot.1 (hst.trans hv)) |>.resolve_left fun hv => hnot.2 (hst.trans hv)
  obtain ⟨hreq, hlen⟩ := h.waiting hpend
  rw [hreq] at hres
  have hverdict := hres.verdict hn hf hk
  refine ⟨fun hC => ⟨⟨t', ht', hverdict.mpr hC, ?_⟩, hres.waiting hlen⟩, fun hC => ?_⟩
  · rw [hres.count, hn]
    rfl
  · rw [StateStore.statusOf_eq ht']
    exact fun hx => hC (hverdict.mp (Option.some.inj hx))

/-- Whatever happens between two attempts. -/
theorem OnBudget.between (h : OnBudget runId id maxAttempts maxOomRetries σ) {s : StateStore}
    (hrow : (s.task? id).map (fun t => (t.status, t.attemptCount)) =
      (σ.store.task? id).map (fun t => (t.status, t.attemptCount)))
    (hoom : LocalWorker.oomRequeues id (s.eventsOf runId) =
      LocalWorker.oomRequeues id (σ.store.eventsOf runId)) :
    OnBudget runId id maxAttempts maxOomRetries { σ with store := s } := by
  obtain ⟨t, ht, hst, hn⟩ := h.row
  rw [ht, Option.map_some] at hrow
  obtain ⟨t', ht', heq⟩ := Option.map_eq_some_iff.mp hrow
  obtain ⟨h1, h2⟩ := Prod.mk.inj heq
  exact ⟨⟨t', ht', h1.trans hst, h2.trans hn⟩, fun hv => by rw [hoom]; exact h.waiting hv⟩

end Runs

/-- **When the two budgets are independent.** One attempt at a time, at a task that nobody has
tried: in every state of a run the status is that of two independent budgets if and only if
every attempt keeps them apart. They run into each other where an ordinary failure finds
`max_attempts` used up by OOM requeues, and where an OOM failure beyond `max_oom_retries` still
finds attempts left. -/
theorem budgets_independent_iff (pf : Platform) (runId : RunId) (id : TaskId)
    {maxAttempts maxOomRetries : Int} (hA : 1 ≤ maxAttempts) (hM : 1 ≤ maxOomRetries)
    {s : StateStore} {t : TaskRecord} (found : s.task? id = some t) (waits : t.status = .pending)
    (untried : t.attemptCount = 0)
    (unrequeued : LocalWorker.oomRequeues id (s.eventsOf runId) = 0) (steps : List TrialStep) :
    (trials pf runId id maxAttempts maxOomRetries).Always
      (fun σ => σ.store.statusOf id = some (budgetVerdict maxAttempts maxOomRetries σ.outcomes))
      { store := s } steps ↔
    (trials pf runId id maxAttempts maxOomRetries).Along
      (BudgetsApart pf runId id maxAttempts maxOomRetries) { store := s } steps := by
  refine Machine.always_iff_along (K := OnBudget runId id maxAttempts maxOomRetries)
    (fun σ h => ?_) (fun σ e σ' h hC hs => ?_) (fun σ e h hC => ?_) ?_
  · obtain ⟨t, ht, hst, -⟩ := h.row
    rw [StateStore.statusOf_eq ht, hst]
  · cases e with
    | attempt w mem ans =>
      obtain ⟨o, ho, rfl⟩ := Option.map_eq_some_iff.mp hs
      exact (h.attempt hM ho).1 (hC o ho)
    | between s' =>
      unfold trials at hs
      dsimp only at hs
      split at hs
      · next hsame =>
        obtain rfl := Option.some.inj hs
        exact h.between hsame.1 hsame.2
      · cases hs
  · cases e with
    | attempt w mem ans =>
      unfold BudgetsApart at hC
      push Not at hC
      obtain ⟨o, ho, hno⟩ := hC
      refine ⟨⟨(atomically (w.runOnce pf mem runId) ans σ.store).2, o :: σ.outcomes⟩, ?_,
        (h.attempt hM ho).2 hno⟩
      show Option.map _ _ = _
      rw [ho]
      rfl
    | between s' => exact absurd trivial hC
  · have hnone : budgetVerdict maxAttempts maxOomRetries [] = .pending := by
      unfold budgetVerdict
      rw [if_neg (by simp), if_neg (by simp; omega)]
    exact ⟨⟨t, found, waits.trans hnone.symm, untried⟩, fun _ => ⟨unrequeued, rfl⟩⟩

/-! ## Two attempts at a task -/

/-- Attempts of a worker with one OOM retry whose handler raises these errors. -/
def raising (errors : List PyExc) : List TrialStep :=
  errors.map fun exc =>
    .attempt { workerId := "A", maxOomRetries := 1 } [("r", none)] (.steady 0 (.error exc))

/-- A task nobody has tried. -/
def untriedTask (maxAttempts : Int) : Tried where
  store := storeWith .sqlite .validated
    (pendingTask "t" (Dict.ofList [("max_attempts", .int maxAttempts)]))

def cudaOom : PyExc := .runtimeError "CUDA out of memory"

/-- **The budgets run into each other.** With two attempts, an OOM failure leaves room for one
ordinary failure only; with five, a second OOM failure is retried although one OOM retry was
allowed. -/
theorem oom_requeue_uses_attempt :
    (∃ σ, (trials .bare "r" "t" 2 1).run (untriedTask 2) (raising [cudaOom, .runtimeError "boom"]) =
        some σ ∧ σ.outcomes = [.failure, .oom] ∧ σ.store.statusOf "t" = some .failed ∧
        budgetVerdict 2 1 σ.outcomes = .pending) ∧
    ∃ σ, (trials .bare "r" "t" 5 1).run (untriedTask 5) (raising [cudaOom, cudaOom]) = some σ ∧
      σ.outcomes = [.oom, .oom] ∧ σ.store.statusOf "t" = some .pending ∧
      budgetVerdict 5 1 σ.outcomes = .failed := by
  have hrun : ∀ (m : Int) (errors : List PyExc) (outcomes : List AttemptOutcome) (st : TaskStatus),
      ((trials .bare "r" "t" m 1).run (untriedTask m) (raising errors)).map
        (fun σ => (σ.outcomes, σ.store.statusOf "t")) = some (outcomes, some st) →
      ∃ σ, (trials .bare "r" "t" m 1).run (untriedTask m) (raising errors) = some σ ∧
        σ.outcomes = outcomes ∧ σ.store.statusOf "t" = some st := by
    intro m errors outcomes st h
    obtain ⟨σ, hσ, heq⟩ := Option.map_eq_some_iff.mp h
    obtain ⟨h1, h2⟩ := Prod.mk.inj heq
    exact ⟨σ, hσ, h1, h2⟩
  constructor
  · obtain ⟨σ, hσ, ho, hst⟩ := hrun 2 [cudaOom, .runtimeError "boom"] [.failure, .oom] .failed
      (by decide +kernel)
    exact ⟨σ, hσ, ho, hst, by rw [ho]; decide⟩
  · obtain ⟨σ, hσ, ho, hst⟩ := hrun 5 [cudaOom, cudaOom] [.oom, .oom] .pending (by decide +kernel)
    exact ⟨σ, hσ, ho, hst, by rw [ho]; decide⟩

/-- The rule at work: the second of these attempts does not keep the budgets apart. -/
theorem oom_then_failure_not_apart :
    ¬ (trials .bare "r" "t" 2 1).Along (BudgetsApart .bare "r" "t" 2 1) (untriedTask 2)
      (raising [cudaOom, .runtimeError "boom"]) := by
  intro halong
  have hrun : ((trials .bare "r" "t" 2 1).run (untriedTask 2)
      (raising [cudaOom, .runtimeError "boom"])).map
      (fun σ => decide (σ.store.statusOf "t" = some (budgetVerdict 2 1 σ.outcomes))) =
      some false := by decide +kernel
  obtain ⟨σ, hσ, hst⟩ := Option.map_eq_some_iff.mp hrun
  have hlast := ((@budgets_independent_iff .bare "r" "t" 2 1 (by decide) (by decide)
    (untriedTask 2).store _ rfl rfl rfl rfl _).mpr halong).last hσ
  exact of_decide_eq_false hst hlast

end FineTuneHarness
