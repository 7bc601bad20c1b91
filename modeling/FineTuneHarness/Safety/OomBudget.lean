import FineTuneHarness.Executor.Discipline
import FineTuneHarness.State.Evolution

/-!
# The budget of OOM requeues

A child counts the recorded OOM requeues of its task, puts the task back into the queue and
records the requeue last. In between another child can lease the task and count too little.
The budget holds as long as every requeue is on record when the next child counts, and no
lease is used by anybody but its owner.
-/
namespace FineTuneHarness

open Library

/-! ## Reading the trace -/

namespace Entry

/-- A successful `mark_task_running`. -/
def starts : Entry → Bool
  | ⟨_, .store (.markTaskRunning _), .ok _⟩ => true
  | _ => false

/-- The events a `list_events` has returned. -/
def counts : Entry → Option (List EventRecord)
  | ⟨_, .store (.listEvents _), .ok es⟩ => some es
  | _ => none

/-- An update that has put the task back into the queue. -/
def requeues (t : TaskId) : Entry → Bool
  | ⟨_, .store (.updateTaskStatus t' .pending _ _), .ok _⟩ => t' = t
  | _ => false

end Entry

/-- The events a worker has counted since its last mark. -/
def counted (i : WorkerId) : List Entry → Option (List EventRecord)
  | [] => none
  | e :: log =>
    if e.worker ≠ i then counted i log
    else if e.starts then none
    else e.counts.or (counted i log)

/-- The update is the one of `_handle_oom`: its worker has counted less than the budget. -/
def isOomMove (budget : Int) (t : TaskId) (e : Entry) (log : List Entry) : Bool :=
  e.requeues t && (counted e.worker log).any fun es => (LocalWorker.oomRequeues t es : Int) < budget

/-- How often the task has been moved back to `PENDING` by `_handle_oom`. -/
def oomMoves (budget : Int) (t : TaskId) : List Entry → Nat
  | [] => 0
  | e :: log => oomMoves budget t log + if isOomMove budget t e log then 1 else 0

/-- A leased task is marked by the owner of its lease. -/
def marksOwn (s : Traced) (i : WorkerId) : Effect → Bool
  | .store (.markTaskRunning t) =>
    (s.store.task? t).all fun r => r.status ≠ .leased || r.leaseOwner = some i
  | _ => true

/-- A worker counts only when every OOM requeue of the task it executes is on record. -/
def countsAll (cap : Nat) (s : Traced) (i : WorkerId) : Effect → Bool
  | .store (.listEvents runId) =>
    s.store.tables.tasks.rows.all fun r => !between i r.taskId s.log ||
      oomMoves cap r.taskId s.log ≤ LocalWorker.oomRequeues r.taskId (s.store.eventsOf runId)
  | _ => true

/-- Only a child that has ended is reclaimed. -/
def reclaimsDead (s : Traced) : Maintenance → Bool
  | .reclaimDeadWorker _ w _ => w ∈ s.dead
  | _ => true

/-- The children of one drain, which all have its OOM budget. -/
def requeuesOnRecord (cap : Nat) : FleetGuard where
  start := fun _ _ j => j.worker.maxOomRetries = cap
  env := fun s d => reclaimsDead s d.1 = true
  call := fun s i e _ => (marksOwn s i e && countsAll cap s i e) = true

/-! ## The invariant -/

structure Budgeted (cap : Nat) (s : Traced) (l : WorkerId → Int × Phase) : Prop where
  budget : ∀ i, (l i).1 = cap
  dead : ∀ i ∈ s.dead, (l i).2 = .over
  own : ∀ i t, (l i).2.executes t →
    ∃ r, s.store.task? t = some r ∧ r.status = .running ∧ r.leaseOwner = some i
  marked : ∀ i t n, (l i).2 = .marked t n →
    between i t s.log = true ∧ counted i s.log = none
  seen : ∀ i t n prior, (l i).2 = .oomSeen t n prior →
    (∃ es, counted i s.log = some es ∧ LocalWorker.oomRequeues t es = prior) ∧
      oomMoves cap t s.log ≤ prior
  bound : ∀ t, oomMoves cap t s.log ≤ cap

section Trace

variable {i w : WorkerId} {t : TaskId} {e : Entry} {log : List Entry} {budget : Int}

theorem counted_other (h : e.worker ≠ w) : counted w (e :: log) = counted w log := by
  simp [counted, h]

theorem between_other (h : e.worker ≠ w) : between w t (e :: log) = between w t log := by
  simp [between, h]

theorem between_still (h : e.Plain) : between w t (e :: log) = between w t log := by
  simp [between, (h t).1, (h t).2]

theorem Entry.Plain.not_starts (h : e.Plain) : e.starts = false := by
  obtain ⟨w, effect, reply⟩ := e
  cases effect with
  | ext x => rfl
  | store op =>
    cases op <;> try rfl
    next id =>
    cases reply with
    | error x => rfl
    | ok u => have := (h id).1; simp [Entry.marks] at this

theorem Entry.Plain.not_requeues (h : e.Plain) (t : TaskId) : e.requeues t = false := by
  have hs := (h t).2
  obtain ⟨w, effect, reply⟩ := e
  cases effect with
  | ext x => rfl
  | store op =>
    cases op <;> try rfl
    next id st r err =>
    cases reply with
    | error x => cases st <;> rfl
    | ok u => cases st <;> first | rfl | exact hs

/-- Neither a mark nor a count. -/
theorem counted_still (h : e.Plain) (hc : e.counts = none) :
    counted w (e :: log) = counted w log := by
  simp [counted, h.not_starts, hc]

theorem oomMoves_still (h : e.requeues t = false) :
    oomMoves budget t (e :: log) = oomMoves budget t log := by
  simp [oomMoves, isOomMove, h]

end Trace

/-- The phase goes on executing its task only by staying what it is, or by a count. -/
theorem Phase.next_executes {i : WorkerId} {budget : Int} {ph : Phase} {e : Effect}
    {r : e.Reply} (hm : ph.may i budget e) (hne : ∀ runId, e ≠ .store (.listEvents runId))
    (hmark : ∀ t, e ≠ .store (.markTaskRunning t)) {t : TaskId}
    (h : (ph.next budget e r).executes t) : ph.next budget e r = ph := by
  by_cases hq : Quiet e
  · exact ph.next_of_quiet hq r
  cases e with
  | ext x => exact absurd trivial hq
  | store op =>
    cases op with
    | listEvents runId => exact absurd rfl (hne runId)
    | markTaskRunning id => exact absurd rfl (hmark id)
    | updateTaskStatus id st res err =>
      cases ph <;> try exact hm.elim
      · exact h.elim
      · cases r with
        | error x => exact h.elim
        | ok u =>
          simp only [Phase.next] at h
          split at h <;> exact h.elim
    | appendEvent ev =>
      cases ph <;> try exact absurd hm hq
      simp only [Phase.next] at h
      split at h <;> exact h.elim
    | leaseNextPendingTask runId w n =>
      cases ph <;> try exact hm.elim
      cases r with
      | error x => exact h.elim
      | ok o => cases o <;> exact h.elim
    | incrementTaskAttempts id =>
      cases ph <;> try exact hm.elim
      cases r <;> exact h.elim
    | _ => first | exact absurd trivial hq | (cases ph <;> exact hm.elim)

section Steps

variable {cap : Nat} {s : Traced} {l : WorkerId → Int × Phase} {i : WorkerId}

/-- Two workers never execute the same task: it has one owner. -/
theorem Budgeted.unique (h : Budgeted cap s l) {j : WorkerId} {t : TaskId}
    (hi : (l i).2.executes t) (hj : (l j).2.executes t) : i = j := by
  obtain ⟨r, hr, -, ho⟩ := h.own i t hi
  obtain ⟨r', hr', -, ho'⟩ := h.own j t hj
  obtain rfl := Option.some.inj (hr.symm.trans hr')
  exact Option.some.inj (ho.symm.trans ho')

/-- One worker's own entry: what is left to show of it, of its phase and of the store. -/
theorem Budgeted.advance (h : Budgeted cap s l) {store : StateStore} {e : Entry} {ph : Phase}
    (hi : e.worker = i)
    (hdead : (l i).2 = .over → ph = .over)
    (hstore : ∀ j t, j ≠ i → (l j).2.executes t → ∀ r, s.store.task? t = some r →
      r.status = .running → r.leaseOwner = some j →
      ∃ r', store.task? t = some r' ∧ r'.status = .running ∧ r'.leaseOwner = some j)
    (hown : ∀ t, ph.executes t →
      ∃ r, store.task? t = some r ∧ r.status = .running ∧ r.leaseOwner = some i)
    (hmarked : ∀ t n, ph = .marked t n →
      between i t (e :: s.log) = true ∧ counted i (e :: s.log) = none)
    (hseen : ∀ t n prior, ph = .oomSeen t n prior →
      (∃ es, counted i (e :: s.log) = some es ∧ LocalWorker.oomRequeues t es = prior) ∧
        oomMoves cap t (e :: s.log) ≤ prior)
    (hmoves : ∀ t, oomMoves cap t (e :: s.log) = oomMoves cap t s.log ∨
      (l i).2.executes t ∧ oomMoves cap t (e :: s.log) ≤ cap) :
    Budgeted cap { s with store, log := e :: s.log } (Function.update l i ((l i).1, ph)) where
  budget j := by
    by_cases hj : j = i
    · subst hj; rw [Function.update_self]; exact h.budget j
    · rw [Function.update_of_ne hj]; exact h.budget j
  dead j hm := by
    by_cases hj : j = i
    · subst hj; rw [Function.update_self]; exact hdead (h.dead j hm)
    · rw [Function.update_of_ne hj]; exact h.dead j hm
  own j t hex := by
    by_cases hj : j = i
    · subst hj; rw [Function.update_self] at hex; exact hown t hex
    · rw [Function.update_of_ne hj] at hex
      obtain ⟨r, hr, hst, ho⟩ := h.own j t hex
      exact hstore j t hj hex r hr hst ho
  marked j t n hph := by
    by_cases hj : j = i
    · subst hj; rw [Function.update_self] at hph; exact hmarked t n hph
    · rw [Function.update_of_ne hj] at hph
      have hne : e.worker ≠ j := fun he => hj (he.symm.trans hi)
      rw [between_other hne, counted_other hne]
      exact h.marked j t n hph
  seen j t n prior hph := by
    by_cases hj : j = i
    · subst hj; rw [Function.update_self] at hph; exact hseen t n prior hph
    · rw [Function.update_of_ne hj] at hph
      have hne : e.worker ≠ j := fun he => hj (he.symm.trans hi)
      have hex : (l j).2.executes t := by rw [hph]; exact rfl
      obtain ⟨hes, hle⟩ := h.seen j t n prior hph
      refine ⟨by rw [counted_other hne]; exact hes, ?_⟩
      rcases hmoves t with heq | ⟨hexi, -⟩
      · rw [heq]; exact hle
      · exact absurd (h.unique hex hexi) hj
  bound t := by
    rcases hmoves t with heq | ⟨-, hle⟩
    · rw [heq]; exact h.bound t
    · exact hle

/-- A count that every requeue is on record for. -/
theorem Budgeted.count_step (h : Budgeted cap s l) {runId : RunId} (a : Answers) {t : TaskId}
    {n : Nat} (hph : (l i).2 = .marked t n)
    (hG : (requeuesOnRecord cap).call s i (.store (.listEvents runId)) a) :
    Budgeted cap
      { s with log := ⟨i, .store (.listEvents runId), .ok (s.store.eventsOf runId)⟩ :: s.log }
      (Function.update l i
        ((l i).1, .oomSeen t n (LocalWorker.oomRequeues t (s.store.eventsOf runId)))) := by
  obtain ⟨hb, -⟩ := h.marked i t n hph
  refine h.advance rfl (fun ho => by rw [hph] at ho; cases ho)
    (fun j t' _ _ r hr hst ho => ⟨r, hr, hst, ho⟩) (fun t' hex => ?_)
    (fun _ _ he => by cases he) (fun t' n' prior he => ?_) (fun t' => .inl (oomMoves_still rfl))
  · obtain rfl : t = t' := hex
    exact h.own i t (by rw [hph]; exact rfl)
  · obtain ⟨rfl, rfl, rfl⟩ : t = t' ∧ n = n' ∧
        LocalWorker.oomRequeues t (s.store.eventsOf runId) = prior := by
      injection he with h1 h2 h3
      exact ⟨h1, h2, h3⟩
    refine ⟨⟨_, by simp [counted, Entry.starts, Entry.counts], rfl⟩, ?_⟩
    rw [oomMoves_still rfl]
    obtain ⟨r, hr, -⟩ := h.own i t (by rw [hph]; exact rfl)
    have hall := List.all_eq_true.mp (Bool.and_eq_true_iff.mp hG).2 r
      (Table.find?_eq_some_iff.mp hr).1
    rw [s.store.task?_taskId hr, hb] at hall
    simpa using hall

/-- A request that leaves the task table alone. -/
theorem Budgeted.idle_step (h : Budgeted cap s l) {e : Entry} {store : StateStore} {ph : Phase}
    (hi : e.worker = i) (hidle : IdleStep i (l i).2 s.store e store ph) (hc : e.counts = none)
    (hover : (l i).2 = .over → ph = .over) (hstay : ∀ t, ph.executes t → ph = (l i).2) :
    Budgeted cap { s with store, log := e :: s.log } (Function.update l i ((l i).1, ph)) := by
  have htask : ∀ t, store.task? t = s.store.task? t := fun t => by
    rw [StateStore.task?, hidle.tasks, ← StateStore.task?]
  refine h.advance hi hover (fun j t _ _ r hr hst ho => ⟨r, by rw [htask]; exact hr, hst, ho⟩)
    (fun t hex => ?_) (fun t n he => ?_) (fun t n prior he => ?_)
    (fun t => .inl (oomMoves_still (hidle.plain.not_requeues t)))
  · obtain ⟨r, hr, hst, ho⟩ := h.own i t (hidle.executes t hex)
    exact ⟨r, by rw [htask]; exact hr, hst, ho⟩
  · rw [between_still hidle.plain, counted_still hidle.plain hc]
    exact h.marked i t n ((hstay t (by rw [he]; exact rfl)).symm.trans he)
  · rw [counted_still hidle.plain hc, oomMoves_still (hidle.plain.not_requeues t)]
    exact h.seen i t n prior ((hstay t (by rw [he]; exact rfl)).symm.trans he)

/-- A requeue that has been counted stays within the cap. -/
theorem Budgeted.settle_moves (h : Budgeted cap s l) {id t : TaskId} {st : TaskStatus}
    {r : Option Dict} {err : Option String} (hexi : (l i).2.executes id) :
    oomMoves cap t (⟨i, .store (.updateTaskStatus id st r err), .ok ()⟩ :: s.log) =
        oomMoves cap t s.log ∨
      (l i).2.executes t ∧
        oomMoves cap t (⟨i, .store (.updateTaskStatus id st r err), .ok ()⟩ :: s.log) ≤ cap := by
  by_cases hmove : isOomMove cap t ⟨i, .store (.updateTaskStatus id st r err), .ok ()⟩ s.log
  swap
  · exact .inl (by simp [oomMoves, hmove])
  right
  simp only [isOomMove, Bool.and_eq_true, Option.any_eq_true, decide_eq_true_eq] at hmove
  obtain ⟨hreq, es, hes, hlt⟩ := hmove
  have ht : id = t := by
    cases st <;> simp only [Entry.requeues, decide_eq_true_eq, Bool.false_eq_true] at hreq
    exact hreq
  subst ht
  refine ⟨hexi, ?_⟩
  have hsucc : oomMoves cap id (⟨i, .store (.updateTaskStatus id st r err), .ok ()⟩ :: s.log)
      ≤ oomMoves cap id s.log + 1 := by
    rw [oomMoves]
    split <;> omega
  cases hp : (l i).2 with
  | marked t' n =>
    rw [(h.marked i t' n hp).2] at hes
    cases hes
  | oomSeen t' n prior =>
    obtain ⟨⟨es', hes', hprior⟩, hle⟩ := h.seen i t' n prior hp
    rw [hp] at hexi
    obtain rfl : t' = id := hexi
    obtain rfl := Option.some.inj (hes.symm.trans hes')
    omega
  | _ => rw [hp] at hexi; exact hexi.elim

/-- A write on one row. -/
theorem Budgeted.row_step (h : Budgeted cap s l) {a : Answers} {e : Entry} {store : StateStore}
    {ph : Phase} (hrow : RowStep i (l i).1 a s.store (l i).2 e store ph)
    (hmine : ∀ t r, e.effect = .store (.markTaskRunning t) → s.store.task? t = some r →
      r.status = .leased → r.leaseOwner = some i) :
    Budgeted cap { s with store, log := e :: s.log } (Function.update l i ((l i).1, ph)) := by
  generalize hph : (l i).2 = ph₀ at hrow
  -- the row of a task somebody executes is another one, unless the row is still running
  have hkeep : ∀ {id : TaskId} {f : TaskRecord → TaskRecord} {t₀ : TaskRecord}
      (hf : ∀ t, (f t).taskId = t.taskId) (es : List EventRecord),
      s.store.task? id = some t₀ →
      (t₀.status ≠ .running ∨ (f t₀).status = .running ∧ (f t₀).leaseOwner = t₀.leaseOwner) →
      ∀ t r w, s.store.task? t = some r → r.status = .running → r.leaseOwner = some w →
      ∃ r', ((s.store.modifyTask id f hf).addEvents es).task? t = some r' ∧
        r'.status = .running ∧ r'.leaseOwner = some w := by
    intro id f t₀ hf es h0 hsafe t r w hr hst ho
    rw [StateStore.addEvents_task?, StateStore.modifyTask_task?]
    split
    next ht =>
      subst ht
      obtain rfl := Option.some.inj (h0.symm.trans hr)
      rcases hsafe with hn | ⟨hs, hw⟩
      · exact absurd hst hn
      · exact ⟨f t₀, by rw [h0]; rfl, hs, hw.trans ho⟩
    next => exact ⟨r, hr, hst, ho⟩
  cases hrow with
  | @lease t es runId n row run free =>
    have hnr : t.status ≠ .running := by
      rcases StateStore.leaseable_status free with hst | hst <;> rw [hst] <;> decide
    exact h.advance rfl (fun ho => by rw [hph] at ho; cases ho)
      (fun j t' _ _ r hr hst ho => hkeep _ es row (.inl hnr) t' r j hr hst ho)
      (fun _ hex => hex.elim) (fun _ _ he => by cases he) (fun _ _ _ he => by cases he)
      (fun _ => .inl (oomMoves_still rfl))
  | @count t id row =>
    exact h.advance rfl (fun ho => by rw [hph] at ho; cases ho)
      (fun j t' _ _ r hr hst ho => by
        by_cases hrun : t.status = .running
        · exact hkeep TaskRecord.countAttempt_taskId [] row (.inr ⟨hrun, rfl⟩) t' r j hr hst ho
        · exact hkeep TaskRecord.countAttempt_taskId [] row (.inl hrun) t' r j hr hst ho)
      (fun _ hex => hex.elim) (fun _ _ he => by cases he) (fun _ _ _ he => by cases he)
      (fun _ => .inl (oomMoves_still rfl))
  | @mark t id n row leased =>
    have hnr : t.status ≠ .running := by rw [leased]; decide
    refine h.advance rfl (fun ho => by rw [hph] at ho; cases ho)
      (fun j t' _ _ r hr hst ho => hkeep (·.setStatus_taskId _) [] row (.inl hnr) t' r j hr hst ho)
      (fun t' hex => ?_) (fun t' n' he => ?_) (fun _ _ _ he => by cases he)
      (fun _ => .inl (oomMoves_still rfl))
    · obtain rfl : id = t' := hex
      refine ⟨t.setStatus .running, ?_, rfl, hmine id t rfl row leased⟩
      rw [StateStore.modifyTask_task?_self, row]
      rfl
    · obtain ⟨rfl, -⟩ : id = t' ∧ n = n' := by injection he with h1 h2; exact ⟨h1, h2⟩
      simp [between, counted, Entry.marks, Entry.starts]
  | @settle t id st r r' err ph' row edge settled executes kept oom =>
    have hexi : (l i).2.executes id := by rw [hph]; exact executes
    have hnot : ∀ t', ¬ (ph₀.next (l i).1 (.store (.updateTaskStatus id st r err))
        (.ok ())).executes t' := by
      intro t' hex
      cases ph₀ <;> try exact executes.elim
      · exact hex
      · simp only [Phase.next] at hex
        split at hex <;> exact hex
    refine h.advance rfl (fun ho => ?_) (fun j t' hj hexj r₁ hr hst ho => ?_)
      (fun t' hex => absurd hex (hnot t')) (fun t' n he => ?_) (fun t' n prior he => ?_)
      (fun t' => ?_)
    · rw [hph] at ho
      subst ho
      exact executes.elim
    · refine ⟨r₁, ?_, hst, ho⟩
      rw [StateStore.modifyTask_task?, if_neg ?_]
      · exact hr
      · rintro rfl
        exact hj (h.unique hexj hexi)
    · exact absurd (by rw [he]; exact rfl) (hnot t')
    · exact absurd (by rw [he]; exact rfl) (hnot t')
    · exact h.settle_moves hexi

theorem Phase.next_over {budget : Int} {e : Effect} (r : e.Reply) :
    Phase.next budget .over e r = .over := by
  cases e with
  | ext x => rfl
  | store op => cases op <;> rfl

theorem counts_none {e : Effect} {r : e.Reply} (h : ∀ runId, e ≠ .store (.listEvents runId)) :
    (⟨i, e, r⟩ : Entry).counts = none := by
  cases e with
  | ext x => rfl
  | store op =>
    cases op <;> try rfl
    exact absurd rfl (h _)

theorem Budgeted.call_step (h : Budgeted cap s l) {e : Effect} (a : Answers)
    (hm : (discipline i).may (l i) e) (hG : (requeuesOnRecord cap).call s i e a) :
    Budgeted cap
      { s with store := (e.perform a s.store).2, log := ⟨i, e, (e.perform a s.store).1⟩ :: s.log }
      (Function.update l i ((l i).1, (l i).2.next (l i).1 e (e.perform a s.store).1)) := by
  have hm' : (l i).2.may i (l i).1 e := hm
  by_cases hlist : ∃ runId, e = .store (.listEvents runId)
  · obtain ⟨runId, rfl⟩ := hlist
    rw [Effect.perform, s.store.exec_listEvents]
    cases hph : (l i).2 <;> rw [hph] at hm' <;> try exact hm'.elim
    exact h.count_step a hph hG
  have hlist : ∀ runId, e ≠ .store (.listEvents runId) := fun runId he => hlist ⟨runId, he⟩
  rcases perform_cases hm' a s.store with hidle | hrow
  · refine h.idle_step rfl hidle (counts_none hlist) (fun ho => ?_) fun t hex => ?_
    · rw [ho]; exact Phase.next_over _
    · by_cases hmark : ∃ t', e = .store (.markTaskRunning t')
      · obtain ⟨t', rfl⟩ := hmark
        have hex' := hidle.executes t hex
        generalize (l i).2 = ph at hm' hex'
        cases ph <;> first | exact hm'.elim | exact hex'.elim
      · exact Phase.next_executes hm' hlist (fun t' he => hmark ⟨t', he⟩) hex
  · refine h.row_step hrow fun t r he hr hl => ?_
    obtain rfl : e = .store (.markTaskRunning t) := he
    have hmine := (Bool.and_eq_true_iff.mp hG).1
    simp only [marksOwn, hr, Option.all_some, hl] at hmine
    simpa using hmine

/-- Requeueing touches no running task, and a reclaim only those of the dead. -/
theorem Budgeted.env_step (h : Budgeted cap s l) {d : Maintenance × Clock}
    (hG : (requeuesOnRecord cap).env s d) :
    Budgeted cap { s with store := (s.store.exec d.1.op d.2).2 } l where
  budget := h.budget
  dead := h.dead
  marked := h.marked
  seen := h.seen
  bound := h.bound
  own i t hex := by
    obtain ⟨r, hr, hst, ho⟩ := h.own i t hex
    have hkeeps : StateStore.keepsTasks d.1.op := by cases d.1 <;> trivial
    rcases s.store.exec_row d.2 hkeeps t with ⟨hn, -⟩ | ⟨r₀, r', h0, hr', hc⟩
    · rw [hn] at hr; cases hr
    obtain rfl := Option.some.inj (hr.symm.trans h0)
    obtain ⟨m, clk⟩ := d
    refine ⟨r', hr', ?_⟩
    cases m with
    | requeueExpiredLeases runId =>
      cases hc with
      | same => exact ⟨hst, ho⟩
      | expire expired =>
        simp only [InMemory.expired, Bool.and_eq_true, decide_eq_true_eq] at expired
        rw [hst] at expired
        exact absurd expired.1.2 (by decide)
    | reclaimDeadWorker runId w n =>
      have hw : w ∈ s.dead := of_decide_eq_true hG
      have hne : w ≠ i := by
        rintro rfl
        rw [h.dead w hw] at hex
        exact hex
      have hheld : s.store.heldBy runId w ≠ some r := fun hh => by
        rw [(s.store.heldBy_some hh).2.2.1] at ho
        exact hne (Option.some.inj ho)
      cases hc with
      | same => exact ⟨hst, ho⟩
      | reclaim held _ | abandon held _ => exact absurd held hheld

/-- A worker that starts or dies executes nothing. -/
theorem Budgeted.stage_step (h : Budgeted cap s l) {budget : Int} {ph : Phase}
    (hbudget : budget = cap) (hidle : ∀ t, ¬ ph.executes t) {dead : List WorkerId}
    (hdead : ∀ j ∈ dead, (Function.update l i (budget, ph) j).2 = .over) :
    Budgeted cap { s with dead } (Function.update l i (budget, ph)) := by
  have hother : ∀ j t, (Function.update l i (budget, ph) j).2.executes t →
      Function.update l i (budget, ph) j = l j := by
    intro j t hex
    apply Function.update_of_ne
    rintro rfl
    rw [Function.update_self] at hex
    exact hidle t hex
  refine ⟨fun j => ?_, hdead, fun j t hex => ?_, fun j t n hph => ?_,
    fun j t n prior hph => ?_, h.bound⟩
  · by_cases hji : j = i
    · rw [hji, Function.update_self]
      exact hbudget
    · rw [Function.update_of_ne hji]
      exact h.budget j
  · rw [hother j t hex] at hex
    exact h.own j t hex
  · rw [hother j t (by rw [hph]; exact rfl)] at hph
    exact h.marked j t n hph
  · rw [hother j t (by rw [hph]; exact rfl)] at hph
    exact h.seen j t n prior hph

theorem budgeted_sound (pf : Platform) (cap : Nat) :
    (fleet pf).Sound discipline (fun _ => True) (Budgeted cap) (requeuesOnRecord cap) where
  call := fun s l i e a hJ hm hG => ⟨_, rfl, hJ.call_step a hm hG⟩
  start := by
    intro s l i job prog s' hJ _ hG hsp
    obtain ⟨hi, rfl, rfl⟩ := fleet_spawn hsp
    have hcap : (job.workerFor i).maxOomRetries = cap := hG
    refine ⟨((job.workerFor i).maxOomRetries, .free),
      (job.workerFor i).disciplined_runOnce pf job.memory job.runId, ?_⟩
    apply hJ.stage_step hcap
    · intro t hex
      exact hex
    · intro j hj
      have hji : j ≠ i := by
        rintro rfl
        exact hi hj
      rw [Function.update_of_ne hji]
      exact hJ.dead j hj
  crash := by
    intro s l i hJ _
    refine ⟨((l i).1, .over), hJ.stage_step (hJ.budget i) ?_ ?_⟩
    · intro t hex
      exact hex
    · intro j hj
      by_cases hji : j = i
      · rw [hji, Function.update_self]
      · rw [Function.update_of_ne hji]
        exact hJ.dead j ((List.mem_cons.mp hj).resolve_left hji)
  env := by
    intro s l d s' hJ hG hs
    obtain rfl := Option.some.inj hs
    exact hJ.env_step hG

end Steps

/-- **The OOM budget.** In every run of the children of one drain in which every requeue is on
record when the next child of the task counts, and every mark is made by the owner of the
lease, no task is moved back to `PENDING` by `_handle_oom` more than `max_oom_retries` times. -/
theorem oom_requeues_within_budget (pf : Platform) (cap : Nat) (s : StateStore)
    {p : FleetState}
    (h : (fleet pf).machine.Steps (requeuesOnRecord cap).Meets (fleetOn s) p) (t : TaskId) :
    oomMoves cap t p.shared.log ≤ cap := by
  have h0 : Service.Conforms discipline (fun _ => True)
      (Budgeted cap) (fleetOn s) := by
    refine Service.conforms_initial (l := (cap, .over)) ?_ trivial
    exact ⟨fun _ => rfl, (by intro i hm; cases hm), (by intro i t hex; exact hex.elim),
      (by intro i t n he; cases he), (by intro i t n prior he; cases he), fun _ => Nat.zero_le _⟩
  obtain ⟨l, hJ, -⟩ := (budgeted_sound pf cap).invariant h h0
  exact hJ.bound t

/-! ## Two children and a requeue that is not on record -/

/-- A child of a drain of the run `r` with a budget of one OOM requeue. -/
def oomChild : Job where
  worker := { workerId := "", maxOomRetries := 1 }
  memory := [("r", none)]
  runId := "r"

/-- The handler runs out of memory. -/
def outOfMemory : Answers := .steady 0 (.error (.runtimeError "CUDA out of memory"))

/-- `A` moves the task back and dies before it has recorded that; `B` does it again. -/
def unrecordedRequeue : List (Act WorkerId Answers Job (Maintenance × Clock)) :=
  [.start "A" oomChild] ++ turns "A" outOfMemory 10 ++ [.crash "A", .start "B" oomChild] ++
    turns "B" outOfMemory 10

/-- **The unrecorded requeue.** With a budget of one, the task is moved back twice. -/
theorem unrecorded_requeue_exceeds_budget : ∃ p : FleetState,
    (fleet .bare).machine.Reaches
      (fleetOn (storeWith .sqlite .running (pendingTask "t" []))) p ∧
    oomMoves (1 : Nat) "t" p.shared.log = 2 := by
  have hrun : ((fleet .bare).machine.run
      (fleetOn (storeWith .sqlite .running (pendingTask "t" []))) unrecordedRequeue).any
        (fun p => oomMoves (1 : Nat) "t" p.shared.log = 2) = true := by decide +kernel
  obtain ⟨p, hp, hb⟩ := Option.any_eq_true _ _ |>.mp hrun
  exact ⟨p, Machine.reaches_of_run hp, of_decide_eq_true hb⟩

instance (cap : Nat) : ∀ s i e a, Decidable ((requeuesOnRecord cap).call s i e a) :=
  fun s i e _ => inferInstanceAs (Decidable ((marksOwn s i e && countsAll cap s i e) = true))

instance (cap : Nat) : ∀ s i j, Decidable ((requeuesOnRecord cap).start s i j) :=
  fun _ _ j => inferInstanceAs (Decidable (j.worker.maxOomRetries = cap))

instance (cap : Nat) : ∀ s i, Decidable ((requeuesOnRecord cap).crash s i) :=
  fun _ _ => inferInstanceAs (Decidable True)

instance (cap : Nat) : ∀ s d, Decidable ((requeuesOnRecord cap).env s d) :=
  fun s d => inferInstanceAs (Decidable (reclaimsDead s d.1 = true))

/-- `A` records its requeue before it ends; `B` finds the budget spent and fails the task. -/
def recordedRequeue : List (Act WorkerId Answers Job (Maintenance × Clock)) :=
  [.start "A" oomChild] ++ turns "A" outOfMemory 11 ++ [.crash "A", .start "B" oomChild] ++
    turns "B" outOfMemory 10

/-- The rule at work on two children of which the second finds the requeue on record. -/
theorem recorded_requeue_within_budget : ∃ p : FleetState,
    (fleet .bare).machine.run
      (fleetOn (storeWith .sqlite .running (pendingTask "t" []))) recordedRequeue = some p ∧
    p.shared.store.statusOf "t" = some .failed ∧ oomMoves (1 : Nat) "t" p.shared.log ≤ 1 := by
  have hrun : ((fleet .bare).machine.run
      (fleetOn (storeWith .sqlite .running (pendingTask "t" []))) recordedRequeue).any
        (fun p => p.shared.store.statusOf "t" = some .failed) = true := by decide +kernel
  obtain ⟨p, hp, hb⟩ := Option.any_eq_true _ _ |>.mp hrun
  have hsteps : (fleet .bare).machine.Steps (requeuesOnRecord 1).Meets _ p :=
    Machine.steps_of_run hp (by decide +kernel)
  exact ⟨p, hp, of_decide_eq_true hb, oom_requeues_within_budget .bare 1 _ hsteps "t"⟩

end FineTuneHarness
