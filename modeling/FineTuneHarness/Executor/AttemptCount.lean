import FineTuneHarness.Executor.Stages
import FineTuneHarness.State.Evolution

/-!
# The attempts at one task

`attempt_count` is read next to what the trace says of a task: who has counted and not yet
marked, how often the task has moved to `RUNNING`, how often its handler has been started.
Each lemma is about one kind of step.
-/
namespace FineTuneHarness

open Library

/-! ## Reading the trace -/

namespace Entry

/-- A successful `increment_task_attempts(t)`. -/
def increments (t : TaskId) : Entry → Bool
  | ⟨_, .store (.incrementTaskAttempts t'), .ok _⟩ => t' = t
  | _ => false

/-- A `mark_task_running(t)`, refused or not. -/
def triesToMark (t : TaskId) : Entry → Bool
  | ⟨_, .store (.markTaskRunning t'), _⟩ => t' = t
  | _ => false

/-- A start of the handler of `t`. -/
def handles (t : TaskId) : Entry → Bool
  | ⟨_, .ext x, _⟩ => x.handled.any fun task => task.taskId = t
  | _ => false

/-- An update that has set `FAILED`. -/
def fails (t : TaskId) : Entry → Bool
  | ⟨_, .store (.updateTaskStatus t' .failed _ _), .ok _⟩ => t' = t
  | _ => false

end Entry

/-- The workers between their count and their mark of `t`, in the order of their counts. -/
def waiting (t : TaskId) : List Entry → List WorkerId
  | [] => []
  | e :: log =>
    if e.increments t then waiting t log ++ [e.worker]
    else if e.triesToMark t then (waiting t log).erase e.worker
    else waiting t log

/-- How often the task has moved from `LEASED` to `RUNNING`. -/
def runningMoves (t : TaskId) (log : List Entry) : Nat := log.countP (·.marks t)

/-- How often the handler of the task has been started. -/
def handlerStarts (t : TaskId) (log : List Entry) : Nat := log.countP (·.handles t)

/-- The last mark of the task is not yet followed by a start of its handler. -/
def unstarted (t : TaskId) : List Entry → Bool
  | [] => false
  | e :: log => if e.marks t then true else if e.handles t then false else unstarted t log

/-- The executions a task gets. -/
def fullAttempts (maxAttempts : TaskId → Int) (t : TaskId) : Int := max 1 (maxAttempts t)

/-! ## One task -/

/-- The task whose attempt the worker has counted and not yet settled. -/
def Stage.counts : Stage → Option TaskId
  | .counted t _ | .marked t _ | .called t _ _ _ => some t
  | _ => none

/-- The worker executes the task, on this count. -/
def Stage.executes (t : TaskId) (n : Nat) : Stage → Prop
  | .marked t' n' | .called t' n' _ _ => t' = t ∧ n' = n
  | _ => False

/-- One task: its count, its moves to `RUNNING`, the starts of its handler. -/
structure InTurn (default : WorkerId → Int) (maxAttempts : TaskId → Int) (strict : Bool)
    (s : Traced) (l : WorkerId → Stage) (t : TaskId) : Prop where
  count : ∀ r, s.store.task? t = some r →
    r.attemptCount = runningMoves t s.log + (waiting t s.log).length
  queue : (waiting t s.log).Nodup
  waits : ∀ i ∈ waiting t s.log, s.store.task? t ≠ none ∧ ∃ n, l i = .counted t n
  turn : ∀ i n, l i = .counted t n →
    i ∈ waiting t s.log ∧ n = runningMoves t s.log + (waiting t s.log).idxOf i + 1
  executes : ∀ i n, (l i).executes t n →
    s.store.statusOf t = some .running ∧ executor t s.log = some i ∧ n = runningMoves t s.log
  marked : ∀ i n, l i = .marked t n → unstarted t s.log = true
  called : ∀ i n payload oom, l i = .called t n payload oom → unstarted t s.log = false ∧
    attemptsAllowed (default i) payload = .ok (fullAttempts maxAttempts t) ∧ oom = false
  rest : s.store.statusOf t ≠ some .running → unstarted t s.log = false
  left : strict = true → s.store.statusOf t = some .pending ∨ s.store.statusOf t = some .leased →
    runningMoves t s.log < fullAttempts maxAttempts t
  most : strict = true → runningMoves t s.log ≤ fullAttempts maxAttempts t
  tally : runningMoves t s.log = handlerStarts t s.log + (unstarted t s.log).toNat

/-! ### What an entry leaves as it is -/

/-- Two logs say the same about the attempts at a task. -/
structure SameAttempts (t : TaskId) (log log' : List Entry) : Prop where
  moves : runningMoves t log' = runningMoves t log
  waiting : waiting t log' = waiting t log
  starts : handlerStarts t log' = handlerStarts t log
  unstarted : unstarted t log' = unstarted t log
  executor : executor t log' = executor t log

section Trace

variable {t : TaskId} {e : Entry} {log : List Entry}

theorem Entry.triesToMark_of_marks (h : e.marks t = true) : e.triesToMark t = true := by
  obtain ⟨w, effect, reply⟩ := e
  cases effect with
  | ext x => cases h
  | store op =>
    cases op <;> try cases h
    cases reply with
    | error x => cases h
    | ok u => exact h

theorem SameAttempts.refl (t : TaskId) (log : List Entry) : SameAttempts t log log :=
  ⟨rfl, rfl, rfl, rfl, rfl⟩

theorem SameAttempts.cons (hi : e.increments t = false) (hm : e.triesToMark t = false)
    (hh : e.handles t = false) : SameAttempts t log (e :: log) := by
  have hmarks : e.marks t = false := by
    rw [Bool.eq_false_iff]
    intro h
    rw [Entry.triesToMark_of_marks h] at hm
    cases hm
  constructor
  · simp [runningMoves, hmarks]
  · simp [FineTuneHarness.waiting, hi, hm]
  · simp [handlerStarts, hh]
  · simp [FineTuneHarness.unstarted, hmarks, hh]
  · simp [FineTuneHarness.executor, hmarks]

end Trace

section Steps

variable {pf : Platform} {default : WorkerId → Int} {maxAttempts : TaskId → Int} {strict : Bool}
  {s s' : Traced} {l l' : WorkerId → Stage} {t : TaskId} {i : WorkerId}

/-- A step that is no part of an attempt at the task, or settles it. -/
theorem InTurn.step (h : InTurn default maxAttempts strict s l t)
    (hlog : SameAttempts t s.log s'.log)
    (hnew : ∀ j, (l' j).counts = some t → l' j = l j)
    (hold : ∀ j n, l j = .counted t n → l' j = l j)
    (hrow : s.store.task? t ≠ none → s'.store.task? t ≠ none)
    (hcount : ∀ r', s'.store.task? t = some r' →
      ∃ r, s.store.task? t = some r ∧ r'.attemptCount = r.attemptCount)
    (hrun : ∀ j n, (l' j).executes t n → s'.store.statusOf t = some .running)
    (hrest : s'.store.statusOf t ≠ some .running → unstarted t s.log = false)
    (hleft : strict = true →
      s'.store.statusOf t = some .pending ∨ s'.store.statusOf t = some .leased →
      runningMoves t s.log < fullAttempts maxAttempts t) :
    InTurn default maxAttempts strict s' l' t := by
  have hexec : ∀ j n, (l' j).executes t n → l' j = l j := by
    intro j n hj
    apply hnew
    cases hl : l' j <;> rw [hl] at hj <;> first | exact hj.elim | rw [hj.1]; rfl
  constructor
  · intro r' hr'
    obtain ⟨r, hr, hc⟩ := hcount r' hr'
    rw [hc, hlog.moves, hlog.waiting]
    exact h.count r hr
  · rw [hlog.waiting]
    exact h.queue
  · intro j hj
    rw [hlog.waiting] at hj
    obtain ⟨hsome, n, hn⟩ := h.waits j hj
    exact ⟨hrow hsome, n, (hold j n hn).trans hn⟩
  · intro j n hj
    have hsame : l' j = l j := hnew j (by rw [hj]; rfl)
    rw [hlog.moves, hlog.waiting]
    exact h.turn j n (hsame.symm.trans hj)
  · intro j n hj
    rw [hlog.executor, hlog.moves]
    have hold' := hj
    rw [hexec j n hj] at hold'
    exact ⟨hrun j n hj, (h.executes j n hold').2⟩
  · intro j n hj
    have hsame : l' j = l j := hnew j (by rw [hj]; rfl)
    rw [hlog.unstarted]
    exact h.marked j n (hsame.symm.trans hj)
  · intro j n payload oom hj
    have hsame : l' j = l j := hnew j (by rw [hj]; rfl)
    rw [hlog.unstarted]
    exact h.called j n payload oom (hsame.symm.trans hj)
  · rw [hlog.unstarted]
    exact hrest
  · rw [hlog.moves]
    exact hleft
  · rw [hlog.moves]
    exact h.most
  · rw [hlog.moves, hlog.starts, hlog.unstarted]
    exact h.tally

/-- A step elsewhere. -/
theorem InTurn.same (h : InTurn default maxAttempts strict s l t)
    (hlog : SameAttempts t s.log s'.log) (hrow : s'.store.task? t = s.store.task? t)
    (hnew : ∀ j, (l' j).counts = some t → l' j = l j)
    (hold : ∀ j n, l j = .counted t n → l' j = l j) :
    InTurn default maxAttempts strict s' l' t := by
  have hstatus : s'.store.statusOf t = s.store.statusOf t := by
    rw [StateStore.statusOf, StateStore.statusOf, hrow]
  apply h.step hlog hnew hold
  · rw [hrow]
    exact id
  · intro r hr
    rw [hrow] at hr
    exact ⟨r, hr, rfl⟩
  · intro j n hj
    have hsame : l' j = l j := by
      apply hnew
      cases hl : l' j <;> rw [hl] at hj <;> first | exact hj.elim | rw [hj.1]; rfl
    rw [hsame] at hj
    rw [hstatus]
    exact (h.executes j n hj).1
  · rw [hstatus]
    exact h.rest
  · rw [hstatus]
    exact h.left

/-- A worker that comes to a stage without the task is not among those with the task. -/
theorem Stage.counts_update {st : Stage} (hst : st.counts ≠ some t) (j : WorkerId)
    (hj : (Function.update l i st j).counts = some t) : Function.update l i st j = l j := by
  apply Function.update_of_ne
  rintro rfl
  rw [Function.update_self] at hj
  exact hst hj

/-- The workers before their mark stay where they are if another worker moves. -/
theorem Stage.counted_update (hi : ∀ n, l i ≠ .counted t n) (st : Stage) (j : WorkerId) (n : Nat)
    (hj : l j = .counted t n) : Function.update l i st j = l j := by
  apply Function.update_of_ne
  rintro rfl
  exact hi n hj

/-- A worker that counts joins the queue at its end. -/
theorem InTurn.count_step (h : InTurn default maxAttempts strict s l t) {r : TaskRecord}
    (hr : s.store.task? t = some r) (hi : l i = .leased t) :
    InTurn default maxAttempts strict
      { s with
        store := s.store.modifyTask t TaskRecord.countAttempt TaskRecord.countAttempt_taskId
        log := ⟨i, .store (.incrementTaskAttempts t), .ok (r.attemptCount + 1)⟩ :: s.log }
      (Function.update l i (.counted t (r.attemptCount + 1))) t := by
  have hout : i ∉ waiting t s.log := by
    intro hm
    obtain ⟨-, n, hn⟩ := h.waits i hm
    rw [hi] at hn
    cases hn
  have hwaiting : waiting t (⟨i, .store (.incrementTaskAttempts t), .ok (r.attemptCount + 1)⟩ ::
      s.log) = waiting t s.log ++ [i] := by
    simp [waiting, Entry.increments]
  have hrow : (s.store.modifyTask t TaskRecord.countAttempt TaskRecord.countAttempt_taskId).task? t =
      some r.countAttempt := by
    rw [StateStore.modifyTask_task?_self, hr]
    rfl
  have hstatus : (s.store.modifyTask t TaskRecord.countAttempt
      TaskRecord.countAttempt_taskId).statusOf t = s.store.statusOf t := by
    rw [StateStore.statusOf_eq hrow, StateStore.statusOf_eq hr]
    rfl
  have hcount := h.count r hr
  constructor
  · intro r' hr'
    obtain rfl := Option.some.inj (hrow.symm.trans hr')
    rw [hwaiting, List.length_append, TaskRecord.countAttempt_attemptCount]
    show r.attemptCount + 1 = runningMoves t s.log + _
    simp only [List.length_singleton]
    omega
  · rw [hwaiting]
    exact (List.perm_append_singleton i _).nodup_iff.mpr (List.nodup_cons.mpr ⟨hout, h.queue⟩)
  · intro j hj
    rw [hwaiting] at hj
    refine ⟨by rw [hrow]; exact Option.some_ne_none _, ?_⟩
    by_cases hji : j = i
    · rw [hji, Function.update_self]
      exact ⟨_, rfl⟩
    · rw [Function.update_of_ne hji]
      apply (h.waits j _).2
      simpa [hji] using hj
  · intro j n hj
    rw [hwaiting]
    by_cases hji : j = i
    · subst hji
      rw [Function.update_self] at hj
      injection hj with _ hn
      refine ⟨by simp, ?_⟩
      rw [List.idxOf_append_of_notMem hout, List.idxOf_cons_self, ← hn]
      show r.attemptCount + 1 = runningMoves t s.log + _ + 1
      omega
    · rw [Function.update_of_ne hji] at hj
      obtain ⟨hm, hn⟩ := h.turn j n hj
      rw [List.idxOf_append_of_mem hm]
      exact ⟨List.mem_append_left _ hm, hn⟩
  · intro j n hj
    by_cases hji : j = i
    · rw [hji, Function.update_self] at hj
      exact hj.elim
    · rw [Function.update_of_ne hji] at hj
      rw [hstatus]
      exact h.executes j n hj
  · intro j n hj
    exact h.marked j n (of_update (fun hc => by cases hc) hj).2
  · intro j n payload oom hj
    exact h.called j n payload oom (of_update (fun hc => by cases hc) hj).2
  · rw [hstatus]
    exact h.rest
  · rw [hstatus]
    exact h.left
  · exact h.most
  · exact h.tally

/-- A worker that marks in turn leaves the queue at its head. -/
theorem InTurn.mark_step (h : InTurn default maxAttempts strict s l t) {n : Nat}
    (hi : l i = .counted t n) (hleased : s.store.statusOf t = some .leased)
    (hhead : (waiting t s.log).head? = some i) {hf} :
    InTurn default maxAttempts strict
      { s with
        store := s.store.modifyTask t (·.setStatus .running) hf
        log := ⟨i, .store (.markTaskRunning t), .ok ()⟩ :: s.log }
      (Function.update l i (.marked t n)) t := by
  obtain ⟨r, hr⟩ : ∃ r, s.store.task? t = some r := by
    cases hr : s.store.task? t with
    | none => rw [StateStore.statusOf, hr] at hleased; cases hleased
    | some r => exact ⟨r, rfl⟩
  obtain ⟨rest, hrest⟩ : ∃ rest, waiting t s.log = i :: rest := List.head?_eq_some_iff.mp hhead
  generalize he : (⟨i, .store (.markTaskRunning t), .ok ()⟩ : Entry) = e
  have hmarks : e.marks t = true := by rw [← he]; exact decide_eq_true rfl
  have hwaiting : waiting t (e :: s.log) = rest := by
    rw [← he]
    simp [waiting, Entry.increments, Entry.triesToMark, hrest]
  have hmoves : runningMoves t (e :: s.log) = runningMoves t s.log + 1 :=
    List.countP_cons_of_pos hmarks
  have hstarts : handlerStarts t (e :: s.log) = handlerStarts t s.log := by
    rw [← he]
    rfl
  have hunstarted : unstarted t (e :: s.log) = true := by
    rw [unstarted, if_pos hmarks]
  have hrow : (s.store.modifyTask t (·.setStatus .running) hf).task? t =
      some (r.setStatus .running) := by
    rw [StateStore.modifyTask_task?_self, hr]
    rfl
  have hstatus : (s.store.modifyTask t (·.setStatus .running) hf).statusOf t = some .running :=
    StateStore.statusOf_eq hrow
  have hnot : ∀ j m, ¬ (l j).executes t m := by
    intro j m hj
    have hrunning := (h.executes j m hj).1
    rw [hleased] at hrunning
    cases hrunning
  have hqueue : (i :: rest).Nodup := hrest ▸ h.queue
  have hcount := h.count r hr
  obtain ⟨-, hn⟩ := h.turn i n hi
  rw [hrest] at hcount hn
  rw [List.idxOf_cons_self] at hn
  constructor
  · intro r' hr'
    obtain rfl := Option.some.inj (hrow.symm.trans hr')
    rw [TaskRecord.setStatus_attemptCount, hwaiting, hmoves, hcount, List.length_cons]
    omega
  · rw [hwaiting]
    exact (List.nodup_cons.mp hqueue).2
  · intro j hj
    rw [hwaiting] at hj
    have hji : j ≠ i := by
      rintro rfl
      exact (List.nodup_cons.mp hqueue).1 hj
    rw [Function.update_of_ne hji]
    refine ⟨by rw [hrow]; exact Option.some_ne_none _, (h.waits j ?_).2⟩
    rw [hrest]
    exact List.mem_cons_of_mem _ hj
  · intro j m hj
    obtain ⟨hji, hj⟩ := of_update (fun hc => by cases hc) hj
    obtain ⟨hm, hturn⟩ := h.turn j m hj
    rw [hrest] at hm hturn
    rw [List.idxOf_cons_ne _ (Ne.symm hji)] at hturn
    rw [hwaiting, hmoves]
    exact ⟨(List.mem_cons.mp hm).resolve_left hji, by omega⟩
  · intro j m hj
    by_cases hji : j = i
    · subst hji
      rw [Function.update_self] at hj
      rw [hmoves, ← hj.2]
      refine ⟨hstatus, ?_, by omega⟩
      rw [executor, if_pos hmarks, ← he]
    · rw [Function.update_of_ne hji] at hj
      exact absurd hj (hnot j m)
  · intro _ _ _
    exact hunstarted
  · intro j m payload oom hj
    obtain ⟨-, hj⟩ := of_update (fun hc => by cases hc) hj
    exact absurd (by rw [hj]; exact ⟨rfl, rfl⟩) (hnot j m)
  · intro hne
    exact absurd hstatus hne
  · intro _ hst
    rw [hstatus] at hst
    rcases hst with hst | hst <;> cases hst
  · intro hstrict
    have hlt := h.left hstrict (.inr hleased)
    rw [hmoves]
    omega
  · have htally := h.tally
    rw [h.rest (by rw [hleased]; intro hc; cases hc)] at htally
    rw [hmoves, hstarts, hunstarted, htally]
    rfl

/-- The handler is called by the executor, once. -/
theorem InTurn.handle_step (h : InTurn default maxAttempts strict s l t) {n : Nat} {x : Ext}
    {r : x.Reply} {task : TaskRecord} (hi : l i = .marked t n) (hx : x.handled = some task)
    (ht : task.taskId = t)
    (hallowed : attemptsAllowed (default i) (x.payloadLeft r) = .ok (fullAttempts maxAttempts t))
    (hoom : (x.raised r).any (isOomError pf) = false) :
    InTurn default maxAttempts strict { s with log := ⟨i, .ext x, r⟩ :: s.log }
      (Function.update l i
        (.called t n (x.payloadLeft r) ((x.raised r).any (isOomError pf)))) t := by
  generalize he : (⟨i, .ext x, r⟩ : Entry) = e
  have hhandles : e.handles t = true := by
    rw [← he]
    simp [Entry.handles, hx, ht]
  have hmarks : e.marks t = false := by rw [← he]; rfl
  have hwaiting : waiting t (e :: s.log) = waiting t s.log := by rw [← he]; rfl
  have hmoves : runningMoves t (e :: s.log) = runningMoves t s.log := by rw [← he]; rfl
  have hexecutor : executor t (e :: s.log) = executor t s.log := by rw [← he]; rfl
  have hstarts : handlerStarts t (e :: s.log) = handlerStarts t s.log + 1 :=
    List.countP_cons_of_pos hhandles
  have hunstarted : unstarted t (e :: s.log) = false := by
    rw [unstarted, hmarks, if_neg Bool.false_ne_true, if_pos hhandles]
  have hmine : (l i).executes t n := by rw [hi]; exact ⟨rfl, rfl⟩
  have honly : ∀ j m, (l j).executes t m → j = i := by
    intro j m hj
    have hexec := (h.executes j m hj).2.1
    rw [(h.executes i n hmine).2.1] at hexec
    exact (Option.some.inj hexec).symm
  constructor
  · intro r' hr'
    rw [hmoves, hwaiting]
    exact h.count r' hr'
  · rw [hwaiting]
    exact h.queue
  · intro j hj
    rw [hwaiting] at hj
    obtain ⟨hsome, m, hm⟩ := h.waits j hj
    have hmarked : ∀ k, l i ≠ .counted t k := by
      intro k hc
      rw [hi] at hc
      cases hc
    exact ⟨hsome, m, (Stage.counted_update hmarked _ j m hm).trans hm⟩
  · intro j m hj
    rw [hwaiting, hmoves]
    exact h.turn j m (of_update (fun hc => by cases hc) hj).2
  · intro j m hj
    rw [hexecutor, hmoves]
    by_cases hji : j = i
    · subst hji
      rw [Function.update_self] at hj
      rw [← hj.2]
      exact h.executes j n hmine
    · rw [Function.update_of_ne hji] at hj
      exact h.executes j m hj
  · intro j m hj
    obtain ⟨hji, hj⟩ := of_update (fun hc => by cases hc) hj
    exact absurd (honly j m (by rw [hj]; exact ⟨rfl, rfl⟩)) hji
  · intro j m payload oom hj
    refine ⟨hunstarted, ?_⟩
    by_cases hji : j = i
    · subst hji
      rw [Function.update_self] at hj
      injection hj with _ _ hp ho
      rw [← hp, ← ho]
      exact ⟨hallowed, hoom⟩
    · rw [Function.update_of_ne hji] at hj
      exact (h.called j m payload oom hj).2
  · intro _
    exact hunstarted
  · rw [hmoves]
    exact h.left
  · rw [hmoves]
    exact h.most
  · have htally := h.tally
    rw [h.marked i n hi] at htally
    rw [hmoves, hstarts, hunstarted, htally]
    rfl

/-- A worker that has nothing to do with the task goes on. -/
theorem InTurn.elsewhere (h : InTurn default maxAttempts strict s l t) {st : Stage}
    (hlog : SameAttempts t s.log s'.log) (hrow : s'.store.task? t = s.store.task? t)
    (hi : (l i).counts ≠ some t) (hst : st.counts ≠ some t) :
    InTurn default maxAttempts strict s' (Function.update l i st) t := by
  apply h.same hlog hrow (Stage.counts_update hst)
  apply Stage.counted_update
  intro n hc
  rw [hc] at hi
  exact hi rfl

section Released

variable {store : StateStore} {r r' : TaskRecord}

/-- The row is given back, or given up, while nobody executes the task. -/
theorem InTurn.release_step (h : InTurn default maxAttempts strict s l t)
    (hr : s.store.task? t = some r) (hr' : store.task? t = some r')
    (hcount : r'.attemptCount = r.attemptCount) (hnone : ∀ j n, ¬ (l j).executes t n)
    (hstarted : unstarted t s.log = false)
    (hleft : strict = true → runningMoves t s.log < fullAttempts maxAttempts t) :
    InTurn default maxAttempts strict { s with store } l t := by
  apply h.step
  · exact SameAttempts.refl t s.log
  · intro j _
    rfl
  · intro j n _
    rfl
  · intro _
    show store.task? t ≠ none
    rw [hr']
    exact Option.some_ne_none _
  · intro r'' hr''
    obtain rfl := Option.some.inj (hr'.symm.trans hr'')
    exact ⟨r, hr, hcount⟩
  · intro j n hj
    exact absurd hj (hnone j n)
  · intro _
    exact hstarted
  · intro hstrict _
    exact hleft hstrict

/-- Nobody executes a task that is `LEASED`. -/
theorem InTurn.unlease_step (h : InTurn default maxAttempts strict s l t)
    (hr : s.store.task? t = some r) (hr' : store.task? t = some r')
    (hcount : r'.attemptCount = r.attemptCount) (hleased : r.status = .leased) :
    InTurn default maxAttempts strict { s with store } l t := by
  have hstatus : s.store.statusOf t = some .leased := by
    rw [StateStore.statusOf_eq hr, hleased]
  have hidle : s.store.statusOf t ≠ some .running := by
    rw [hstatus]
    intro hx
    cases hx
  apply h.release_step hr hr' hcount
  · intro j n hj
    exact hidle (h.executes j n hj).1
  · exact h.rest hidle
  · intro hstrict
    exact h.left hstrict (.inr hstatus)

end Released

end Steps

end FineTuneHarness
