import FineTuneHarness.Executor.ConcurrentSpec
import FineTuneHarness.Executor.SuccessReport
import Mathlib.Data.List.Perm.Basic

/-!
# The successes that a concurrent drain counts

A success is in the store before it is reported, and reported before it is counted. Between
these moments the child may die or raise, and the parent may end its loop with the message
still under way.
-/
namespace FineTuneHarness

open Library Library.Program

/-! ## Tasks that have moved -/

/-- How many tasks have moved to `SUCCEEDED`. -/
def movedToSucceeded (before after : StateStore) : Nat :=
  before.tables.tasks.rows.countP fun t =>
    t.status ≠ .succeeded && after.statusOf t.taskId = some .succeeded

section Moves

variable {s : StateStore} {clk : Clock} {op : StoreOp} {id : TaskId}

/-- No other call moves a task to `SUCCEEDED`, or away from it. -/
theorem succeeded_unchanged (hk : StateStore.keepsTasks op)
    (hs : succeeds (.store op) (s.exec op clk).1 = false) :
    (s.exec op clk).2.statusOf id = some .succeeded ↔ s.statusOf id = some .succeeded := by
  have hrow : (∀ t st r e, op ≠ .updateTaskStatus t st r e) →
      ((s.exec op clk).2.statusOf id = some .succeeded ↔ s.statusOf id = some .succeeded) := by
    intro hne
    rcases s.exec_row clk hk id with ⟨hn, hn'⟩ | ⟨t, t', ht, ht', hc⟩
    · simp [StateStore.statusOf, hn, hn']
    rw [StateStore.statusOf_eq ht, StateStore.statusOf_eq ht']
    have hleft : t.status ≠ .succeeded → t'.status ≠ .succeeded →
        (some t'.status = some TaskStatus.succeeded ↔ some t.status = some .succeeded) := by
      intro h h'
      simp [h, h']
    cases hc with
    | same | count => rfl
    | lease _ free =>
      refine hleft ?_ (by simp [TaskRecord.leaseTo])
      rcases StateStore.leaseable_status free with h | h <;> simp [h]
    | mark leased => exact hleft (by simp [leased]) (by simp [TaskRecord.setStatus])
    | settle => exact absurd rfl (hne _ _ _ _)
    | expire expired =>
      simp only [InMemory.expired, Bool.and_eq_true, decide_eq_true_eq] at expired
      exact hleft (by simp [expired.1.2]) (by simp [TaskRecord.release])
    | reclaim held =>
      refine hleft ?_ (by simp [TaskRecord.release])
      rcases (s.heldBy_some held).2.2.2 with h | h <;> simp [h]
    | abandon held =>
      refine hleft ?_ (by simp [TaskRecord.abandon])
      rcases (s.heldBy_some held).2.2.2 with h | h <;> simp [h]
  cases op with
  | updateTaskStatus t st r e =>
    rcases s.update_cases clk t st r e with ⟨t₀, r', h0, ha, -, hx⟩ | ⟨x, hx, -⟩
    · rw [hx] at hs ⊢
      have hst : st ≠ .succeeded := by
        rintro rfl
        cases hs
      rw [StateStore.statusOf_modifyTask h0]
      split
      next he =>
        subst he
        rw [StateStore.statusOf_eq h0]
        have hold : t₀.status ≠ .succeeded := by
          intro hc
          rw [hc] at ha
          cases ha
        simp [TaskRecord.settle, hst, hold]
      next => rfl
    · rw [hx]
  | _ => exact hrow fun _ _ _ _ => by simp

/-- The update moves one task, which has not been there before. -/
theorem succeeded_moves (hs : succeeds (.store op) (s.exec op clk).1 = true) :
    ∃ t row, s.task? t = some row ∧ row.status ≠ .succeeded ∧
      (s.exec op clk).2.statusOf t = some .succeeded ∧
      ∀ id, id ≠ t → (s.exec op clk).2.statusOf id = s.statusOf id := by
  cases op with
  | updateTaskStatus t st r e =>
    rcases s.update_cases clk t st r e with ⟨t₀, r', h0, ha, -, hx⟩ | ⟨x, hx, -⟩
    · rw [hx] at hs ⊢
      have hst : st = .succeeded := by cases st <;> first | rfl | cases hs
      subst hst
      refine ⟨t, t₀, h0, fun hc => ?_, ?_, fun id hid => ?_⟩
      · rw [hc] at ha
        cases ha
      · rw [StateStore.statusOf_modifyTask h0, if_pos rfl]
        rfl
      · rw [StateStore.statusOf_modifyTask h0, if_neg hid]
    · rw [hx] at hs
      cases st <;> cases hs
  | _ => cases hs

/-- A call counts for one task, or for none. -/
theorem movedToSucceeded_exec {before : StateStore} (hev : before.Evolves s)
    (hk : StateStore.keepsTasks op) : movedToSucceeded before (s.exec op clk).2 =
      movedToSucceeded before s + if succeeds (.store op) (s.exec op clk).1 then 1 else 0 := by
  cases hs : succeeds (.store op) (s.exec op clk).1 with
  | false =>
    refine List.countP_congr fun t _ => ?_
    simp only [Bool.and_eq_true, decide_eq_true_eq, succeeded_unchanged hk hs]
  | true =>
    obtain ⟨t, row, hrow, hst, hafter, hrest⟩ := succeeded_moves hs
    obtain ⟨row₀, h0, hl⟩ := hev.backward hrow
    have hid : row₀.taskId = t := before.task?_taskId h0
    have hst₀ : row₀.status ≠ .succeeded := fun hc =>
      hst (by rw [hl.frozen (by rw [hc]; rfl), hc])
    have hnow : s.statusOf t ≠ some .succeeded := by
      rw [StateStore.statusOf_eq hrow]
      simpa using hst
    have hcount := Table.countP_congr_at (t := before.tables.tasks) (k := t) (a := row₀)
      (p := fun t => t.status ≠ .succeeded && s.statusOf t.taskId = some .succeeded)
      (q := fun t => t.status ≠ .succeeded &&
        (s.exec op clk).2.statusOf t.taskId = some .succeeded) h0
      fun b _ hb => by simp only [hrest b.taskId hb]
    simp only [hid, hafter, hnow, hst₀, decide_true, decide_false, ne_eq, not_false_eq_true,
      Bool.and_true, Bool.and_false, Bool.false_eq_true, if_true, if_false] at hcount
    exact hcount

/-- The same of any request a `run_once` may make. -/
theorem movedToSucceeded_perform {before : StateStore} {l : Bool} {e : Effect} {a : Answers}
    (hev : before.Evolves s) (hmay : tallying.may l e) :
    before.Evolves (e.perform a s).2 ∧ movedToSucceeded before (e.perform a s).2 =
      movedToSucceeded before s + if succeeds e (e.perform a s).1 then 1 else 0 := by
  cases e with
  | ext x => exact ⟨hev, rfl⟩
  | store op =>
    have hk : StateStore.keepsTasks op := by
      rcases hmay with h | ⟨-, t, r, err, h⟩
      · cases op <;> first | exact h.elim | trivial
      · obtain rfl := Effect.store.inj h
        trivial
    exact ⟨hev.trans (s.exec_evolves a.clock hk), movedToSucceeded_exec hev hk⟩

end Moves

/-! ## What a child has done, and what it has said -/

/-- The worker has moved a task to `SUCCEEDED`. -/
def hasSucceeded (i : WorkerId) (log : List Entry) : Bool :=
  log.any fun en => en.worker = i && succeeds en.effect en.reply

theorem hasSucceeded_cons (i : WorkerId) (en : Entry) (log : List Entry) :
    hasSucceeded i (en :: log) =
      ((if en.worker = i then succeeds en.effect en.reply else false) || hasSucceeded i log) := by
  unfold hasSucceeded
  rw [List.any_cons]
  split
  next h => rw [decide_eq_true h, Bool.true_and]
  next h => rw [decide_eq_false h, Bool.false_and]

/-- What a child has reported. -/
def ChildStage.said : ChildStage → Option ChildOutcome
  | .reported outcome => some outcome
  | .exited said => said
  | _ => none

/-- The child has reported a success. -/
def Child.reportedSuccess (x : Child) : Bool := x.stage.said = some .succeeded

/-- A success has been read, and its process is waited for. -/
def Point.heard : Point → Nat
  | .joining _ .succeeded => 1
  | _ => 0

/-- The successes of which the parent has the message. -/
def Parent.counted (p : Parent) : Nat := p.succeeded + p.point.heard

theorem Parent.counted_at {p : Parent} {pt : Point} (hpt : p.point = pt) (h : pt.heard = 0) :
    p.counted = p.succeeded := by
  rw [counted, hpt, h, Nat.add_zero]

theorem Parent.counted_leaveAdmission (p : Parent) : p.leaveAdmission.counted = p.succeeded := by
  unfold leaveAdmission
  cases p.inFlight.rows.isEmpty <;> rfl

theorem Parent.counted_sweepOn (p : Parent) (rest : List InFlight) :
    (p.sweepOn rest).counted = p.succeeded := by
  cases rest <;> rfl

theorem Parent.counted_settle {p : Parent} {entry : Option InFlight} {outcome : ChildOutcome}
    (hpt : p.point = .joining entry outcome) : (p.settle outcome).counted = p.counted := by
  unfold counted
  rw [hpt]
  cases outcome <;> rfl

namespace Concurrent

/-- The successes whose messages are under way. -/
def unread (s : Concurrent) : Nat := s.queue.countP fun m => m.2 = .succeeded

/-- The children that have moved a task to `SUCCEEDED`. -/
def successes (s : Concurrent) : Nat :=
  s.children.rows.countP fun x => hasSucceeded x.worker s.pool.shared.log

end Concurrent

/-- How far the client of a child is, given whether it has moved a task. -/
def Standing (client : Client Effect Effect.Reply PyExc Outcome) (succeeded : Bool) :
    ChildStage → Prop
  | .starting => client = .idle ∧ succeeded = false
  | .running => ∃ prog, client = .running prog ∧ prog.wp tallying Tells (fun _ _ => True) succeeded
  | .reported outcome | .exited (some outcome) => outcome = .succeeded → succeeded = true
  | .exited none => True

/-- What is reported has been done. -/
theorem Standing.of_said {client : Client Effect Effect.Reply PyExc Outcome} {succeeded : Bool}
    {st : ChildStage} (h : Standing client succeeded st) (hs : st.said = some .succeeded) :
    succeeded = true := by
  cases st with
  | starting | running => cases hs
  | reported outcome => exact h (Option.some.inj hs)
  | exited said =>
    obtain rfl : said = some .succeeded := hs
    exact h rfl

/-- What holds between two steps. -/
structure Tallied (before : StateStore) (s : Concurrent) : Prop where
  evolves : before.Evolves s.pool.shared.store
  standing : ∀ x ∈ s.children.rows,
    Standing (s.pool.client x.worker) (hasSucceeded x.worker s.pool.shared.log) x.stage
  idle : ∀ i, i ∉ s.children.rows.map Child.worker →
    s.pool.client i = .idle ∧ hasSucceeded i s.pool.shared.log = false
  moved : movedToSucceeded before s.pool.shared.store = s.successes
  said : s.parent.counted + s.unread = s.children.rows.countP Child.reportedSuccess

namespace Tallied

variable {c : Draining} {pf : Platform} {before : StateStore} {s s' : Concurrent} {a : DrainAct}

theorem initial (c : Draining) (store : StateStore) : Tallied store (c.begin store) where
  evolves := .refl store
  standing := nofun
  idle _ _ := ⟨rfl, rfl⟩
  moved := by
    refine List.countP_eq_zero.mpr fun t ht => ?_
    have hrow : store.task? t.taskId = some t := Table.mem_rows_iff.mp ht
    simp [Draining.begin, fleetOn, StateStore.statusOf_eq hrow]
  said := rfl

/-- The parent moves, and the messages it has and those under way are as many as before. -/
theorem parentOn (h : Tallied before s) (parent : Parent) (queue : List (Nat × ChildOutcome))
    (hcount : parent.counted + queue.countP (fun m => m.2 = .succeeded) =
      s.parent.counted + s.unread) : Tallied before { s with parent, queue } :=
  ⟨h.evolves, h.standing, h.idle, h.moved, hcount.trans h.said⟩

/-- The parent moves without a message. -/
theorem goOn (h : Tallied before s) {parent : Parent} (hcount : parent.counted = s.parent.counted) :
    Tallied before { s with parent } :=
  h.parentOn parent s.queue (congrArg (· + s.unread) hcount)

/-- A child changes its stage, and its client and the log with it. -/
theorem childOn (h : Tallied before s) (pool : FleetState) (queue : List (Nat × ChildOutcome))
    {x : Child} {st : ChildStage} (hx : s.child? x.worker = some x)
    (hstore : before.Evolves pool.shared.store)
    (hothers : ∀ j, j ≠ x.worker → pool.client j = s.pool.client j ∧
      hasSucceeded j pool.shared.log = hasSucceeded j s.pool.shared.log)
    (hstand : Standing (pool.client x.worker) (hasSucceeded x.worker pool.shared.log) st)
    (hmoved : movedToSucceeded before pool.shared.store +
        (if hasSucceeded x.worker s.pool.shared.log then 1 else 0) =
      movedToSucceeded before s.pool.shared.store +
        if hasSucceeded x.worker pool.shared.log then 1 else 0)
    (hsaid : queue.countP (fun m => m.2 = .succeeded) + (if x.reportedSuccess then 1 else 0) =
      s.unread + if st.said = some .succeeded then 1 else 0) :
    Tallied before { s.setStage x.worker st with pool, queue } where
  evolves := hstore
  standing y hy := by
    rcases (Concurrent.mem_setStage hx).mp hy with rfl | ⟨hy, hne⟩
    · exact hstand
    · show Standing (pool.client y.worker) (hasSucceeded y.worker pool.shared.log) y.stage
      rw [(hothers _ hne).1, (hothers _ hne).2]
      exact h.standing y hy
  idle i hi := by
    obtain ⟨hne, hi⟩ := Concurrent.not_child_setStage hx hi
    rw [show ({ s.setStage x.worker st with pool, queue } : Concurrent).pool = pool from rfl,
      (hothers i hne).1, (hothers i hne).2]
    exact h.idle i hi
  moved := by
    have hstage := Table.countP_modify (t := s.children) (f := ({ · with stage := st }))
      (q := fun y => hasSucceeded y.worker pool.shared.log) (fun _ => rfl) hx
    dsimp only at hstage
    have hlog := Table.countP_congr_at (t := s.children) hx
      (p := fun y => hasSucceeded y.worker s.pool.shared.log)
      (q := fun y => hasSucceeded y.worker pool.shared.log) fun y _ hy => (hothers _ hy).2
    have hold : movedToSucceeded before s.pool.shared.store =
        s.children.rows.countP fun y => hasSucceeded y.worker s.pool.shared.log := h.moved
    have hnow : movedToSucceeded before pool.shared.store =
        (s.children.modify x.worker ({ · with stage := st }) fun _ => rfl).rows.countP
          fun y => hasSucceeded y.worker pool.shared.log := by omega
    exact hnow
  said := by
    have hstage := Table.countP_modify (t := s.children) (f := ({ · with stage := st }))
      (q := Child.reportedSuccess) (fun _ => rfl) hx
    have hold := h.said
    have hnow : s.parent.counted + queue.countP (fun m => m.2 = .succeeded) =
        (s.children.modify x.worker ({ · with stage := st }) fun _ => rfl).rows.countP
          Child.reportedSuccess := by
      simp only [Child.reportedSuccess, decide_eq_true_eq] at hstage hsaid hold ⊢
      omega
    exact hnow

/-- The client of a child gets on, and nobody else does. -/
theorem clientOn (h : Tallied before s) {x : Child} {pool : FleetState}
    (hx : s.child? x.worker = some x) (hstore : before.Evolves pool.shared.store)
    (hothers : ∀ j, j ≠ x.worker → pool.client j = s.pool.client j ∧
      hasSucceeded j pool.shared.log = hasSucceeded j s.pool.shared.log)
    (hstand : Standing (pool.client x.worker) (hasSucceeded x.worker pool.shared.log) x.stage)
    (hmoved : movedToSucceeded before pool.shared.store +
        (if hasSucceeded x.worker s.pool.shared.log then 1 else 0) =
      movedToSucceeded before s.pool.shared.store +
        if hasSucceeded x.worker pool.shared.log then 1 else 0) :
    Tallied before { s with pool } := by
  have hsame := h.childOn pool s.queue hx hstore hothers hstand hmoved (by
    simp only [Child.reportedSuccess, decide_eq_true_eq, Concurrent.unread])
  rwa [Concurrent.setStage, Table.modify_eq_self _ hx rfl] at hsame

theorem call (h : Tallied before s) {x : Child} {a : Answers} {pool : FleetState}
    (hx : s.child? x.worker = some x) (hst : x.stage = .running)
    (hpool : (fleet pf).machine.step s.pool (.call x.worker a) = some pool) :
    Tallied before { s with pool } := by
  obtain ⟨e, next, hclient, rfl⟩ := Service.call_some hpool
  have hstand := h.standing x (Table.find?_eq_some_iff.mp hx).1
  rw [hst] at hstand
  obtain ⟨prog, hprog, hwp⟩ := hstand
  obtain rfl := Client.running.inj (hclient.symm.trans hprog)
  obtain ⟨hmay, hnext⟩ := hwp
  obtain ⟨hev, hmoved⟩ := movedToSucceeded_perform (a := a) h.evolves hmay
  have hlog : hasSucceeded x.worker
      (⟨x.worker, e, (e.perform a s.pool.shared.store).1⟩ :: s.pool.shared.log) =
        (hasSucceeded x.worker s.pool.shared.log ||
          succeeds e (e.perform a s.pool.shared.store).1) := by
    rw [hasSucceeded_cons, if_pos rfl, Bool.or_comm]
  refine h.clientOn hx hev (fun j hj => ⟨Function.update_of_ne hj _ _, ?_⟩) ?_ ?_
  · exact (hasSucceeded_cons _ _ _).trans (by rw [if_neg fun he => hj he.symm, Bool.false_or])
  · rw [hst]
    exact ⟨_, Function.update_self _ _ _, hnext _ _ hlog⟩
  · change movedToSucceeded before (e.perform a s.pool.shared.store).2 + _ = _ +
      if hasSucceeded x.worker
        (⟨x.worker, e, (e.perform a s.pool.shared.store).1⟩ :: s.pool.shared.log) then 1 else 0
    rw [hmoved, hlog]
    cases hs : succeeds e (e.perform a s.pool.shared.store).1 with
    | false => simp
    | true => simp [tallying_once hmay hs]

/-- A child gets on, and the store and the log stay as they are. -/
theorem stageOn (h : Tallied before s) (pool : FleetState) (queue : List (Nat × ChildOutcome))
    {x : Child} {st : ChildStage} (hx : s.child? x.worker = some x)
    (hstore : pool.shared.store = s.pool.shared.store) (hlog : pool.shared.log = s.pool.shared.log)
    (hothers : ∀ j, j ≠ x.worker → pool.client j = s.pool.client j)
    (hstand : Standing (pool.client x.worker) (hasSucceeded x.worker s.pool.shared.log) st)
    (hsaid : queue.countP (fun m => m.2 = .succeeded) + (if x.reportedSuccess then 1 else 0) =
      s.unread + if st.said = some .succeeded then 1 else 0) :
    Tallied before { s.setStage x.worker st with pool, queue } := by
  refine h.childOn pool queue hx (by rw [hstore]; exact h.evolves) (fun j hj => ⟨hothers j hj, by rw [hlog]⟩)
    (by rw [hlog]; exact hstand) ?_ hsaid
  rw [hstore, hlog]

/-- A child is started. -/
theorem begin (h : Tallied before s) {x : Child} {pool : FleetState}
    (hx : s.child? x.worker = some x) (hst : x.stage = .starting)
    (hpool : (fleet pf).machine.step s.pool (.start x.worker c.childJob) = some pool) :
    Tallied before { s.setStage x.worker .running with pool } := by
  obtain ⟨prog, shared, hspawn, rfl⟩ := Service.start_some hpool
  obtain ⟨-, rfl, rfl⟩ := fleet_spawn hspawn
  have hstand := h.standing x (Table.find?_eq_some_iff.mp hx).1
  rw [hst] at hstand
  refine h.stageOn _ s.queue hx rfl rfl (fun j hj => Function.update_of_ne hj _ _)
    ⟨_, Function.update_self _ _ _, ?_⟩ ?_
  · rw [hstand.2]
    exact LocalWorker.tallying_runOnce pf _ _ _
  · simp [Child.reportedSuccess, hst, ChildStage.said, Concurrent.unread]

theorem report (h : Tallied before s) {x : Child} {outcome : ChildOutcome}
    (hx : s.child? x.worker = some x) (hst : x.stage = .running)
    (hsaid : childOutcome pf (s.pool.client x.worker) = some outcome) :
    Tallied before { s.setStage x.worker (.reported outcome) with
      queue := s.queue ++ [(x.pid, outcome)] } := by
  have hstand := h.standing x (Table.find?_eq_some_iff.mp hx).1
  rw [hst] at hstand
  obtain ⟨prog, hprog, hwp⟩ := hstand
  refine h.stageOn s.pool _ hx rfl rfl (fun _ _ => rfl) ?_ ?_
  · rintro rfl
    rw [hprog] at hsaid
    cases prog with
    | ret out =>
      obtain ⟨mem, r⟩ := out
      cases r with
      | ok found =>
        cases found with
        | some t => exact hwp.returned t rfl
        | none => cases hsaid
      | error exc =>
        simp only [childOutcome] at hsaid
        split at hsaid <;> cases hsaid
    | raise exc =>
      simp only [childOutcome] at hsaid
      split at hsaid <;> cases hsaid
    | call => cases hsaid
  · simp [Child.reportedSuccess, hst, ChildStage.said, Concurrent.unread, List.countP_append,
      List.countP_cons]

/-- A child ends, after its report or before it. -/
theorem leave (h : Tallied before s) {x : Child} {said : ChildOutcome}
    (hx : s.child? x.worker = some x) (hst : x.stage = .reported said) :
    Tallied before (s.setStage x.worker (.exited (some said))) := by
  have hstand := h.standing x (Table.find?_eq_some_iff.mp hx).1
  rw [hst] at hstand
  refine h.stageOn s.pool s.queue hx rfl rfl (fun _ _ => rfl) hstand ?_
  simp [Child.reportedSuccess, hst, ChildStage.said, Concurrent.unread]

theorem die (h : Tallied before s) {x : Child} {pool : FleetState}
    (hx : s.child? x.worker = some x) (hst : x.stage = .starting ∨ x.stage = .running)
    (hpool : (fleet pf).machine.step s.pool (.crash x.worker) = some pool) :
    Tallied before { s.setStage x.worker (.exited none) with pool } := by
  obtain rfl := Service.crash_some hpool
  refine h.stageOn _ s.queue hx rfl rfl (fun j hj => Function.update_of_ne hj _ _) trivial ?_
  rcases hst with hst | hst <;>
    simp [Child.reportedSuccess, hst, ChildStage.said, Concurrent.unread]

/-- A new child has done nothing yet. -/
theorem launch (h : Tallied before s) {d pid : Nat} (hpt : s.parent.point = .choosing)
    (fresh : s.parent.nextWorker c ∉ s.children.rows.map Child.worker) :
    Tallied before { s with
      parent := s.parent.admitTo c d pid
      children := s.children.insert
        { worker := s.parent.nextWorker c, pid, stage := .starting } fresh } where
  evolves := h.evolves
  standing x hx := by
    rcases List.mem_append.mp hx with hx | hx
    · exact h.standing x hx
    · obtain rfl := List.mem_singleton.mp hx
      exact h.idle _ fresh
  idle i hi := h.idle i fun hm => hi (by
    simp only [Table.insert, List.map_append]
    exact List.mem_append_left _ hm)
  moved := by
    have hidle := (h.idle _ fresh).2
    have hold := h.moved
    simp only [Concurrent.successes, Table.insert, List.countP_append, List.countP_singleton,
      hidle] at hold ⊢
    exact hold
  said := by
    have hold := h.said
    simp only [Parent.counted, Concurrent.unread, Table.insert, List.countP_append,
      List.countP_singleton, hpt, Parent.admitTo, Child.reportedSuccess, ChildStage.said] at hold ⊢
    exact hold

/-- A reclaim moves no task to `SUCCEEDED`. -/
theorem reclaim (h : Tallied before s) {dead : InFlight} {rest : List InFlight} {clock : Clock}
    {pool : FleetState} (hpt : s.parent.point = .reclaiming dead rest)
    (hpool : (fleet pf).machine.step s.pool (.env
      (.reclaimDeadWorker c.runId dead.worker c.concurrency.maxOomRetries, clock)) = some pool) :
    Tallied before { s with pool, parent := s.parent.lowerCeiling.sweepOn rest } := by
  obtain ⟨shared, henv, rfl⟩ := Service.env_some hpool
  obtain rfl := Option.some.inj henv
  refine ⟨h.evolves.trans (s.pool.shared.store.exec_evolves clock trivial), h.standing, h.idle, ?_, ?_⟩
  · have hop : StateStore.keepsTasks
        (.reclaimDeadWorker c.runId dead.worker c.concurrency.maxOomRetries) := trivial
    have hmoved := @movedToSucceeded_exec _ clock _ _ h.evolves hop
    exact hmoved.trans h.moved
  · have hold := h.said
    rw [Parent.counted_at hpt rfl] at hold
    exact (congrArg (· + s.unread) (Parent.counted_sweepOn _ rest)).trans hold

/-- A message is read. -/
theorem deliver (h : Tallied before s) {n pid : Nat} {outcome : ChildOutcome}
    (hpt : s.parent.point = .waiting) (hm : s.queue[n]? = some (pid, outcome)) :
    Tallied before { s with
      parent := { s.parent with
        inFlight := s.parent.inFlight.erase pid
        point := .joining (s.parent.inFlight.find? pid) outcome }
      queue := s.queue.eraseIdx n } := by
  refine h.parentOn _ _ ?_
  obtain ⟨hn, hm⟩ := List.getElem?_eq_some_iff.mp hm
  have hperm := (List.getElem_cons_eraseIdx_perm hn).countP_eq fun m => m.2 = .succeeded
  rw [List.countP_cons, hm] at hperm
  rw [Parent.counted_at hpt rfl, Concurrent.unread, ← hperm]
  cases outcome <;> simp [Parent.counted, Point.heard]
  omega

/-- **One step.** -/
theorem step (h : Tallied before s) (hs : Concurrent.Steps c pf s a s') : Tallied before s' := by
  have hname : ∀ {i x}, s.child? i = some x → x.worker = i := fun hx =>
    (Table.find?_eq_some_iff.mp hx).2
  cases hs with
  | begin child stage fleet =>
    obtain rfl := hname child
    exact h.begin child stage fleet
  | call child stage fleet =>
    obtain rfl := hname child
    exact h.call child stage fleet
  | report child stage said =>
    obtain rfl := hname child
    exact h.report child stage said
  | leave child stage =>
    obtain rfl := hname child
    exact h.leave child stage
  | die child stage fleet =>
    obtain rfl := hname child
    exact h.die child stage fleet
  | @count now p loop =>
    rcases Parent.loop_count loop with ⟨hpt, rfl | rfl⟩ | ⟨hpt, rfl⟩
    · exact h.goOn (Parent.counted_at hpt rfl).symm
    · exact h.goOn ((Parent.counted_leaveAdmission _).trans (Parent.counted_at hpt rfl).symm)
    · refine h.goOn ((Parent.counted_at rfl ?_).trans (Parent.counted_at hpt rfl).symm)
      cases s.countLeaseable c now <;> rfl
  | pass loop seq =>
    obtain ⟨hpt, ⟨d, rfl⟩ | rfl⟩ := Parent.loop_launch loop
    · exact absurd seq (Nat.succ_ne_self _)
    · exact h.goOn ((Parent.counted_leaveAdmission _).trans (Parent.counted_at hpt rfl).symm)
  | launch loop seq free fresh =>
    obtain ⟨hpt, ⟨d, rfl⟩ | rfl⟩ := Parent.loop_launch loop
    · exact h.launch hpt fresh
    · exact absurd rfl seq
  | deliver message loop =>
    obtain ⟨hpt, rfl⟩ := Parent.loop_message loop
    exact h.deliver hpt message
  | timeout loop =>
    obtain ⟨hpt, rfl⟩ := Parent.loop_timeout loop
    exact h.goOn ((Parent.counted_sweepOn _ _).trans (Parent.counted_at hpt rfl).symm)
  | @look next rest p point loop =>
    rw [Parent.loop_alive point loop]
    cases s.gone next.worker with
    | false => exact h.goOn ((Parent.counted_sweepOn _ _).trans (Parent.counted_at point rfl).symm)
    | true => exact h.goOn (Parent.counted_at point rfl).symm
  | reclaim point fleet loop =>
    rw [Parent.loop_reclaimed point loop]
    exact h.reclaim point fleet
  | join point _ loop =>
    rw [Parent.loop_joined point loop]
    exact h.goOn (Parent.counted_settle point)
  | conclude loop =>
    obtain ⟨hpt, rfl⟩ := Parent.loop_tasks loop
    exact h.goOn (Parent.counted_at hpt rfl).symm

end Tallied

/-! ## When the count is right -/

/-- A process that has reported no success, and will report none. -/
def ChildStage.mute : ChildStage → Bool
  | .starting | .running => false
  | .reported outcome => outcome ≠ .succeeded
  | .exited said => said ≠ some .succeeded

theorem ChildStage.not_said_of_mute {st : ChildStage} (h : st.mute = true) :
    st.said ≠ some .succeeded := by
  cases st with
  | starting | running => cases h
  | reported outcome =>
    intro hs
    exact of_decide_eq_true h (Option.some.inj hs)
  | exited said => exact of_decide_eq_true h

theorem ChildStage.mute_of_not_said {st : ChildStage} (hended : st.ended = true)
    (h : st.said ≠ some .succeeded) : st.mute = true := by
  cases st with
  | exited said => exact decide_eq_true h
  | _ => cases hended

namespace Concurrent

/-- A child has moved a task to `SUCCEEDED` and will not say so. -/
def Unsaid (s : Concurrent) : Prop :=
  ∃ x ∈ s.children.rows, hasSucceeded x.worker s.pool.shared.log = true ∧ x.stage.mute = true

/-- A success is never to be counted. -/
def Missed (s : Concurrent) : Prop :=
  s.Unsaid ∨ (∃ ending, s.parent.point = .ended ending) ∧ s.unread ≠ 0

/-- A child that has moved a task to `SUCCEEDED` ends its `run_once` without an exception and
does not die before its report, and the parent leaves no report of a success unread. -/
def Announces (pf : Platform) (s : Concurrent) : DrainAct → Prop
  | .report i => hasSucceeded i s.pool.shared.log = true →
    childOutcome pf (s.pool.client i) = some .succeeded
  | .exit i => s.stage i = some .running → hasSucceeded i s.pool.shared.log = false
  | .conclude => s.unread = 0
  | _ => True

instance (pf : Platform) (s : Concurrent) : DecidablePred (s.Announces pf)
  | .report i => inferInstanceAs (Decidable (hasSucceeded i s.pool.shared.log = true →
      childOutcome pf (s.pool.client i) = some .succeeded))
  | .exit i => inferInstanceAs (Decidable (s.stage i = some .running →
      hasSucceeded i s.pool.shared.log = false))
  | .conclude => inferInstanceAs (Decidable (s.unread = 0))
  | .begin _ | .call .. | .count _ | .launch .. | .deliver _ | .timeout | .look | .reclaim _ | .join =>
    .isTrue trivial

variable {c : Draining} {pf : Platform} {s s' : Concurrent} {a : DrainAct}

theorem missed_iff (h : ∀ ending, s.parent.point ≠ .ended ending) : s.Missed ↔ s.Unsaid :=
  ⟨fun hm => hm.resolve_right fun ⟨⟨e, he⟩, _⟩ => h e he, .inl⟩

/-- A child changes its stage: what that adds. -/
theorem unsaid_childOn {x : Child} {st : ChildStage} {pool : FleetState}
    {queue : List (Nat × ChildOutcome)} {B : Prop} (hx : s.child? x.worker = some x)
    (hothers : ∀ j, j ≠ x.worker →
      hasSucceeded j pool.shared.log = hasSucceeded j s.pool.shared.log)
    (hown : hasSucceeded x.worker pool.shared.log = true ∧ st.mute = true ↔
      (hasSucceeded x.worker s.pool.shared.log = true ∧ x.stage.mute = true) ∨ B) :
    ({ s.setStage x.worker st with pool, queue } : Concurrent).Unsaid ↔ s.Unsaid ∨ B := by
  have hrow := (Table.find?_eq_some_iff.mp hx).1
  have hself : ∀ z ∈ s.children.rows, z.worker = x.worker → z = x := fun z hz he =>
    Option.some.inj ((Table.find?_eq_some_iff.mpr ⟨hz, he⟩).symm.trans hx)
  have hnew : hasSucceeded x.worker pool.shared.log = true ∧ st.mute = true →
      ({ s.setStage x.worker st with pool, queue } : Concurrent).Unsaid := fun hn =>
    ⟨{ x with stage := st }, (Concurrent.mem_setStage hx).mpr (.inl rfl), hn⟩
  constructor
  · rintro ⟨y, hy, hsucc, hmute⟩
    rcases (Concurrent.mem_setStage hx).mp hy with rfl | ⟨hy, hne⟩
    · rcases hown.mp ⟨hsucc, hmute⟩ with hold | hB
      · exact .inl ⟨x, hrow, hold⟩
      · exact .inr hB
    · exact .inl ⟨y, hy, (hothers _ hne).symm.trans hsucc, hmute⟩
  · rintro (⟨y, hy, hsucc, hmute⟩ | hB)
    · by_cases hyx : y.worker = x.worker
      · obtain rfl := hself y hy hyx
        exact hnew (hown.mpr (.inl ⟨hsucc, hmute⟩))
      · exact ⟨y, (Concurrent.mem_setStage hx).mpr (.inr ⟨hy, hyx⟩), (hothers _ hyx).trans hsucc, hmute⟩
    · exact hnew (hown.mpr (.inr hB))

/-- The parent moves, with the same children. -/
theorem missed_parentOn (queue : List (Nat × ChildOutcome)) {parent : Parent} {i : Parent.Input}
    (hloop : c.loop.step s.parent i = some parent) (hi : ∀ tasks, i ≠ .tasks tasks) :
    ({ s with parent, queue } : Concurrent).Missed ↔ s.Missed ∨ ¬ True := by
  rw [missed_iff (Parent.not_ended_of_loop hloop), not_true_eq_false, or_false]
  refine missed_iff fun ending he => ?_
  obtain ⟨tasks, ht⟩ := Parent.tasks_of_ended hloop he
  exact hi tasks ht

end Concurrent

/-- What a drain that counts rests on. -/
structure Counting (c : Draining) (before : StateStore) (s : Concurrent) : Prop where
  tallied : Tallied before s
  tracked : Watched c s.parent s.children
  total : ∀ ending, s.parent.point = .ended ending → ending.count = s.parent.succeeded

namespace Counting

variable {c : Draining} {pf : Platform} {before : StateStore} {s s' : Concurrent} {a : DrainAct}

theorem initial (c : Draining) (store : StateStore) : Counting c store (c.begin store) :=
  ⟨.initial c store, .initial c, nofun⟩

/-- A child that has not ended holds up the end of the call. -/
theorem not_ended (h : Counting c before s) {i : WorkerId} {x : Child} (hx : s.child? i = some x)
    (hl : x.stage.ended = false) (ending : LocalWorker.DrainEnd) :
    s.parent.point ≠ .ended ending := by
  intro hend
  have hended := h.tracked.allEnded (by rw [hend]; rfl) (Table.find?_eq_some_iff.mp hx).1
  rw [hl] at hended
  cases hended

theorem step (h : Counting c before s) (hs : Concurrent.Steps c pf s a s') :
    Counting c before s' := by
  refine ⟨h.tallied.step hs, Concurrent.tracked_step h.tracked hs, fun ending hend => ?_⟩
  have hloop : ∀ {i p}, c.loop.step s.parent i = some p → p.point = .ended ending →
      (∀ tasks, i ≠ .tasks tasks) → ending.count = p.succeeded := by
    intro i p hl he hi
    obtain ⟨tasks, ht⟩ := Parent.tasks_of_ended hl he
    exact absurd ht (hi tasks)
  cases hs with
  | begin child stage | report child stage | leave child stage =>
    exact absurd hend (h.not_ended child (by rw [stage]; rfl) ending)
  | die child stage =>
    exact absurd hend (h.not_ended child (by rcases stage with hst | hst <;> rw [hst] <;> rfl) ending)
  | call => exact h.total ending hend
  | count loop | pass loop | launch loop | deliver _ loop | timeout loop | look _ loop
  | reclaim _ _ loop | join _ _ loop => exact hloop loop hend nofun
  | conclude loop =>
    obtain ⟨-, rfl⟩ := Parent.loop_tasks loop
    obtain rfl := Point.ended.inj hend
    unfold Parent.endingOf
    split <;> rfl

theorem missed_childOn (h : Counting c before s) (pool : FleetState)
    (queue : List (Nat × ChildOutcome)) {x : Child} {st : ChildStage} {B : Prop} (hx : s.child? x.worker = some x)
    (hlive : x.stage.ended = false)
    (hothers : ∀ j, j ≠ x.worker →
      hasSucceeded j pool.shared.log = hasSucceeded j s.pool.shared.log)
    (hown : hasSucceeded x.worker pool.shared.log = true ∧ st.mute = true ↔
      (hasSucceeded x.worker s.pool.shared.log = true ∧ x.stage.mute = true) ∨ B) :
    ({ s.setStage x.worker st with pool, queue } : Concurrent).Missed ↔ s.Missed ∨ B := by
  rw [Concurrent.missed_iff (h.not_ended hx hlive),
    Concurrent.missed_iff (s := { s.setStage x.worker st with pool, queue }) (h.not_ended hx hlive)]
  exact Concurrent.unsaid_childOn hx hothers hown

theorem missed_stageOn (h : Counting c before s) (pool : FleetState)
    (queue : List (Nat × ChildOutcome)) {x : Child} {st : ChildStage} {B : Prop} (hx : s.child? x.worker = some x)
    (hlive : x.stage.ended = false) (hlog : pool.shared.log = s.pool.shared.log)
    (hown : hasSucceeded x.worker s.pool.shared.log = true ∧ st.mute = true ↔
      (hasSucceeded x.worker s.pool.shared.log = true ∧ x.stage.mute = true) ∨ B) :
    ({ s.setStage x.worker st with pool, queue } : Concurrent).Missed ↔ s.Missed ∨ B :=
  h.missed_childOn pool queue hx hlive (fun j _ => by rw [hlog]) (by rwa [hlog])

/-- **A success is missed where a step does not announce it.** -/
theorem missed_step (h : Counting c before s) (hs : Concurrent.Steps c pf s a s') :
    s'.Missed ↔ s.Missed ∨ ¬ s.Announces pf a := by
  have hname : ∀ {i x}, s.child? i = some x → x.worker = i := fun hx =>
    (Table.find?_eq_some_iff.mp hx).2
  cases hs with
  | @begin i x pool child stage fleet =>
    obtain rfl := hname child
    obtain ⟨prog, shared, hspawn, rfl⟩ := Service.start_some fleet
    obtain ⟨-, rfl, rfl⟩ := fleet_spawn hspawn
    refine h.missed_stageOn _ s.queue child (by rw [stage]; rfl) rfl ?_
    simp [stage, ChildStage.mute, Concurrent.Announces]
  | @call i x answers pool child stage fleet =>
    obtain rfl := hname child
    have hlog : ∀ j, j ≠ x.worker →
        hasSucceeded j pool.shared.log = hasSucceeded j s.pool.shared.log := by
      obtain ⟨e, next, -, rfl⟩ := Service.call_some fleet
      intro j hj
      exact (hasSucceeded_cons _ _ _).trans (by rw [if_neg hj.symm, Bool.false_or])
    have hsame : ({ s.setStage x.worker x.stage with pool } : Concurrent).Missed ↔
        s.Missed ∨ ¬ s.Announces pf (.call x.worker answers) :=
      h.missed_childOn pool s.queue child (by rw [stage]; rfl) hlog
      (by simp [stage, ChildStage.mute, Concurrent.Announces])
    rwa [Concurrent.setStage, Table.modify_eq_self _ child rfl] at hsame
  | @report i x outcome child stage said =>
    obtain rfl := hname child
    refine h.missed_stageOn s.pool _ child (by rw [stage]; rfl) rfl ?_
    simp [stage, ChildStage.mute, Concurrent.Announces, said]
  | @leave i x said child stage =>
    obtain rfl := hname child
    refine h.missed_stageOn s.pool s.queue child (by rw [stage]; rfl) rfl ?_
    simp [stage, ChildStage.mute, Concurrent.Announces, Concurrent.stage, child]
  | @die i x pool child stage fleet =>
    obtain rfl := hname child
    obtain rfl := Service.crash_some fleet
    refine h.missed_stageOn _ s.queue child
      (by rcases stage with hst | hst <;> rw [hst] <;> rfl) rfl ?_
    have hstand := h.tallied.standing x (Table.find?_eq_some_iff.mp child).1
    rcases stage with hst | hst
    · rw [hst] at hstand
      simp [hst, ChildStage.mute, Concurrent.Announces, Concurrent.stage, child, hstand.2]
    · simp [hst, ChildStage.mute, Concurrent.Announces, Concurrent.stage, child]
  | count loop | pass loop | deliver _ loop | timeout loop | look _ loop | join _ _ loop =>
    exact Concurrent.missed_parentOn _ loop (by simp)
  | @launch live pid p loop seq free fresh =>
    refine Iff.trans ?_ (Concurrent.missed_parentOn s.queue loop (by simp))
    -- the new child has done nothing and may still speak
    apply or_congr_left
    constructor
    · rintro ⟨x, hx, hsucc, hmute⟩
      rcases List.mem_append.mp hx with hx | hx
      · exact ⟨x, hx, hsucc, hmute⟩
      · obtain rfl := List.mem_singleton.mp hx
        cases hmute
    · rintro ⟨x, hx, hu⟩
      exact ⟨x, List.mem_append_left _ hx, hu⟩
  | @reclaim dead rest clock pool p point fleet loop =>
    obtain ⟨shared, henv, rfl⟩ := Service.env_some fleet
    obtain rfl := Option.some.inj henv
    exact Concurrent.missed_parentOn s.queue loop (by simp)
  | conclude loop =>
    obtain ⟨hpt, rfl⟩ := Parent.loop_tasks loop
    rw [Concurrent.missed_iff (s := s) (Parent.not_ended_of_loop loop)]
    exact or_congr_right (and_iff_right ⟨_, rfl⟩)

/-- At the end, the count is right if nothing has been missed. -/
theorem count_iff (h : Counting c before s) {ending : LocalWorker.DrainEnd}
    (hend : s.parent.point = .ended ending) :
    ending.count = movedToSucceeded before s.pool.shared.store ↔ ¬ s.Missed := by
  have hended : ∀ x ∈ s.children.rows, x.stage.ended = true := fun x hx =>
    h.tracked.allEnded (by rw [hend]; rfl) hx
  have htold : ∀ x ∈ s.children.rows, x.reportedSuccess = true →
      hasSucceeded x.worker s.pool.shared.log = true := fun x hx hr =>
    (h.tallied.standing x hx).of_said (of_decide_eq_true hr)
  have hsaid := h.tallied.said
  have hmoved : movedToSucceeded before s.pool.shared.store =
      s.children.rows.countP fun x => hasSucceeded x.worker s.pool.shared.log := h.tallied.moved
  have hle := List.countP_mono_left htold
  rw [Parent.counted_at hend rfl] at hsaid
  have hcount : s.parent.succeeded = movedToSucceeded before s.pool.shared.store ↔
      s.unread = 0 ∧ s.children.rows.countP Child.reportedSuccess =
        s.children.rows.countP fun x => hasSucceeded x.worker s.pool.shared.log := by omega
  rw [h.total ending hend, hcount, countP_eq_iff_of_imp htold, Concurrent.Missed, not_or, and_comm]
  refine and_congr ⟨fun hall => ?_, fun hall x hx hsucc => ?_⟩ ?_
  · rintro ⟨x, hx, hsucc, hmute⟩
    exact absurd (of_decide_eq_true (hall x hx hsucc)) (ChildStage.not_said_of_mute hmute)
  · refine Classical.byContradiction fun hr => hall ⟨x, hx, hsucc, ?_⟩
    exact ChildStage.mute_of_not_said (hended x hx) fun hs => hr (decide_eq_true hs)
  · exact ⟨fun hu hm => hm.2 hu, fun hm => Classical.byContradiction fun hu => hm ⟨⟨_, hend⟩, hu⟩⟩

end Counting

/-- **The count of a concurrent drain.** It is the number of tasks that have moved to `SUCCEEDED`
if and only if every step announces the successes it concerns. -/
theorem drain_counts_successes_iff {c : Draining} {pf : Platform} {store : StateStore}
    {acts : List DrainAct} {s : Concurrent} {ending : LocalWorker.DrainEnd}
    (hrun : (c.machine pf).run (c.begin store) acts = some s)
    (hend : s.parent.point = .ended ending) :
    ending.count = movedToSucceeded store s.pool.shared.store ↔
      (c.machine pf).Along (Concurrent.Announces pf) (c.begin store) acts := by
  have hcounting : Counting c store s := (Machine.reaches_of_run hrun).invariant
    (Counting.initial c store) fun _ _ _ hI _ hs => hI.step (Concurrent.step_steps hs)
  have hmissed := Machine.flag_run (K := Counting c store) (F := Concurrent.Missed)
    (C := Concurrent.Announces pf) (fun _ _ _ hI hs => hI.step (Concurrent.step_steps hs))
    (fun _ _ _ hI hs => hI.missed_step (Concurrent.step_steps hs)) hrun (.initial c store)
  have hstart : ¬ (c.begin store).Missed := by
    rintro (⟨x, hx, -⟩ | ⟨⟨e, he⟩, -⟩)
    · cases hx
    · cases he
  rw [hcounting.count_iff hend, hmissed, not_or, not_not]
  exact and_iff_right hstart

/-! ## A success that is not counted -/

/-- **The message that is not read.** The parent's `get` times out before the report arrives, the
child has exited by then, and with no child left in flight the loop ends. -/
theorem unread_success_not_counted : ∃ (s : Concurrent) (ending : LocalWorker.DrainEnd),
    (oneByOne.machine .bare).run
      (oneByOne.begin (storeWith .sqlite .validated (pendingTask "k" [])))
      (oneChild ++ [.timeout, .look, .reclaim ⟨0, 0⟩, .count 0, .count 0, .conclude]) = some s ∧
    s.parent.point = .ended ending ∧ ending.count = 0 ∧
    movedToSucceeded (storeWith .sqlite .validated (pendingTask "k" [])) s.pool.shared.store = 1 := by
  have hrun : ((oneByOne.machine .bare).run
      (oneByOne.begin (storeWith .sqlite .validated (pendingTask "k" [])))
      (oneChild ++ [.timeout, .look, .reclaim ⟨0, 0⟩, .count 0, .count 0, .conclude])).any (fun s =>
        s.endedWith 0 && movedToSucceeded (storeWith .sqlite .validated (pendingTask "k" []))
          s.pool.shared.store = 1) = true := by decide +kernel
  obtain ⟨s, hs, hb⟩ := Option.any_eq_true _ _ |>.mp hrun
  obtain ⟨hend, hmoved⟩ := Bool.and_eq_true_iff.mp hb
  obtain ⟨ending, hpt, hn⟩ := Concurrent.of_endedWith hend
  exact ⟨s, ending, hs, hpt, hn, of_decide_eq_true hmoved⟩

/-- The parent reads the report before it looks for dead children. -/
theorem read_success_counted : ∃ (s : Concurrent) (ending : LocalWorker.DrainEnd),
    (oneByOne.machine .bare).run
      (oneByOne.begin (storeWith .sqlite .validated (pendingTask "k" [])))
      (oneChild ++ [.deliver 0, .join, .count 0, .count 0, .conclude]) = some s ∧
    s.parent.point = .ended ending ∧ ending.count = 1 ∧
    movedToSucceeded (storeWith .sqlite .validated (pendingTask "k" [])) s.pool.shared.store = 1 := by
  have hrun : ((oneByOne.machine .bare).run
      (oneByOne.begin (storeWith .sqlite .validated (pendingTask "k" [])))
      (oneChild ++ [.deliver 0, .join, .count 0, .count 0, .conclude])).any (·.endedWith 1) = true := by
    decide +kernel
  have halong : (oneByOne.machine .bare).Along (Concurrent.Announces .bare)
      (oneByOne.begin (storeWith .sqlite .validated (pendingTask "k" [])))
      (oneChild ++ [.deliver 0, .join, .count 0, .count 0, .conclude]) := by decide +kernel
  obtain ⟨s, hs, hend⟩ := Option.any_eq_true _ _ |>.mp hrun
  obtain ⟨ending, hpt, hn⟩ := Concurrent.of_endedWith hend
  have hcount := (drain_counts_successes_iff hs hpt).mpr halong
  exact ⟨s, ending, hs, hpt, hn, hcount.symm.trans hn⟩

end FineTuneHarness
