import FineTuneHarness.Executor.Discipline
import FineTuneHarness.State.StoreSpec

/-!
# At most one executor for each task

A lease may run out under a slow worker, so several workers can believe they hold a task.
Only the compare-and-set of `mark_task_running` decides between them. The invariant ties
being between a mark and the update that follows it to the stored status `RUNNING`.
-/
namespace FineTuneHarness

open Library

structure Exclusive (s : Traced) (l : WorkerId → Int × Phase) : Prop where
  running : ∀ w t, between w t s.log = true → s.store.statusOf t = some .running
  unique : ∀ w w' t, between w t s.log = true → between w' t s.log = true → w = w'
  executes : ∀ w t, (l w).2.executes t → between w t s.log = true
  outcomes : ∀ t, terminalOutcomes t s.log = 0 ∨
    terminalOutcomes t s.log = 1 ∧ ∃ st, s.store.statusOf t = some st ∧ st.terminal = true
  accepted : ∀ e ∈ s.log, ¬ e.InvalidTransition

theorem Exclusive.initial (s : StateStore) (l : Int × Phase) (h : ∀ t, ¬ l.2.executes t) :
    Exclusive { store := s } fun _ => l where
  running := fun _ _ h => by cases h
  unique := fun _ _ _ h => by cases h
  executes := fun _ t hl => absurd hl (h t)
  outcomes := fun _ => .inl rfl
  accepted := fun _ h => by cases h

/-! ## Trace lemmas -/

theorem Entry.not_terminates {t : TaskId} {e : Entry} (h : e.settles t = false) :
    e.terminates t = false := by
  obtain ⟨w, effect, reply⟩ := e
  cases effect with
  | ext x => rfl
  | store op =>
    cases op <;> try rfl
    cases reply with
    | error x => rfl
    | ok u => simp only [Entry.settles, Entry.terminates, decide_eq_false_iff_not] at h ⊢; simp [h]

theorem between_plain {e : Entry} (h : e.Plain) (w : WorkerId) (t : TaskId) (log : List Entry) :
    between w t (e :: log) = between w t log := by
  simp [between, (h t).1, (h t).2]

theorem terminalOutcomes_plain {e : Entry} (h : e.Plain) (t : TaskId) (log : List Entry) :
    terminalOutcomes t (e :: log) = terminalOutcomes t log := by
  simp [terminalOutcomes, Entry.not_terminates (h t).2]

/-- Running and finished tasks stay as they are. -/
def KeepsBusy (s s' : StateStore) : Prop :=
  ∀ t st, st = .running ∨ st.terminal = true → s.statusOf t = some st → s'.statusOf t = some st

variable {s : Traced} {l : WorkerId → Int × Phase} {i : WorkerId} {l' : Int × Phase}

/-- A step that marks nothing, settles nothing and leaves busy tasks alone. -/
theorem Exclusive.plain_step (h : Exclusive s l) {e : Entry} (he : e.Plain)
    (hi : ¬ e.InvalidTransition) {store : StateStore} (hk : KeepsBusy s.store store)
    (hl : ∀ t, l'.2.executes t → (l i).2.executes t) :
    Exclusive { s with store, log := e :: s.log } (Function.update l i l') where
  running := fun w t hb => hk t _ (.inl rfl) (h.running w t (by rwa [between_plain he] at hb))
  unique := fun w w' t hb hb' =>
    h.unique w w' t (by rwa [between_plain he] at hb) (by rwa [between_plain he] at hb')
  executes := fun w t hw => by
    rw [between_plain he]
    by_cases hwi : w = i
    · subst hwi
      rw [Function.update_self] at hw
      exact h.executes w t (hl t hw)
    · rw [Function.update_of_ne hwi] at hw
      exact h.executes w t hw
  outcomes := fun t => by
    rw [terminalOutcomes_plain he]
    rcases h.outcomes t with h0 | ⟨h1, st, hs, ht⟩
    · exact .inl h0
    · exact .inr ⟨h1, st, hk t st (.inr ht) hs, ht⟩
  accepted := fun e' he' => by
    rcases List.mem_cons.mp he' with rfl | hm
    · exact hi
    · exact h.accepted e' hm

/-- The compare-and-set makes its caller the only executor. -/
theorem Exclusive.mark_step (h : Exclusive s l) {t : TaskId} {r : TaskRecord}
    (hr : s.store.task? t = some r) (hs : r.status = .leased) {hf}
    (hl : ∀ t', l'.2.executes t' → t' = t) :
    Exclusive
      { s with
        store := s.store.modifyTask t (·.setStatus .running) hf
        log := ⟨i, .store (.markTaskRunning t), .ok ()⟩ :: s.log }
      (Function.update l i l') := by
  have hst : s.store.statusOf t = some .leased := by rw [StateStore.statusOf_eq hr, hs]
  have hnone : ∀ w, between w t s.log = false := by
    intro w
    cases hb : between w t s.log with
    | false => rfl
    | true => exact absurd ((h.running w t hb).symm.trans hst) (by decide)
  have hbetween : ∀ w t', between w t'
      (⟨i, .store (.markTaskRunning t), .ok ()⟩ :: s.log) =
      if t' = t then decide (w = i) else between w t' s.log := by
    intro w t'
    by_cases ht : t' = t
    · subst ht
      by_cases hw : w = i
      · simp [between, Entry.marks, hw]
      · have : ¬ i = w := fun e => hw e.symm
        simp [between, hnone, hw, this]
    · have : ¬ t = t' := fun e => ht e.symm
      simp [between, Entry.marks, Entry.settles, ht, this]
  refine ⟨fun w t' hb => ?_, fun w w' t' hb hb' => ?_, fun w t' hw => ?_, fun t' => ?_,
    fun e he => ?_⟩
  · rw [hbetween] at hb
    rw [StateStore.statusOf_modifyTask hr]
    split at hb
    next ht => rw [if_pos ht]; rfl
    next ht => rw [if_neg ht]; exact h.running w t' hb
  · rw [hbetween] at hb hb'
    split at hb
    next ht =>
      rw [if_pos ht] at hb'
      exact (of_decide_eq_true hb).trans (of_decide_eq_true hb').symm
    next ht =>
      rw [if_neg ht] at hb'
      exact h.unique w w' t' hb hb'
  · rw [hbetween]
    by_cases hwi : w = i
    · subst hwi
      rw [Function.update_self] at hw
      rw [if_pos (hl t' hw)]
      exact decide_eq_true rfl
    · rw [Function.update_of_ne hwi] at hw
      have hb := h.executes w t' hw
      rw [if_neg fun ht => by rw [ht, hnone w] at hb; cases hb]
      exact hb
  · have hc : terminalOutcomes t' (⟨i, .store (.markTaskRunning t), .ok ()⟩ :: s.log) =
        terminalOutcomes t' s.log := rfl
    rw [hc]
    rcases h.outcomes t' with h0 | ⟨h1, st, hs', ht'⟩
    · exact .inl h0
    · refine .inr ⟨h1, st, ?_, ht'⟩
      rw [StateStore.statusOf_modifyTask hr, if_neg ?_]
      · exact hs'
      · rintro rfl
        rw [hst] at hs'
        obtain rfl := Option.some.inj hs'
        cases ht'
  · rcases List.mem_cons.mp he with rfl | hm
    · exact id
    · exact h.accepted e hm

/-- The executor's own update ends its turn, and the task's first terminal outcome is
its last. -/
theorem Exclusive.settle_step (h : Exclusive s l) {t : TaskId} {r : TaskRecord}
    {st : TaskStatus} {res res' : Option Dict} {err : Option String}
    (hr : s.store.task? t = some r) (hb : between i t s.log = true) {hf}
    (hl : ∀ t', ¬ l'.2.executes t') :
    Exclusive
      { s with
        store := s.store.modifyTask t (·.settle st res' err) hf
        log := ⟨i, .store (.updateTaskStatus t st res err), .ok ()⟩ :: s.log }
      (Function.update l i l') := by
  have hbetween : ∀ w t', between w t'
      (⟨i, .store (.updateTaskStatus t st res err), .ok ()⟩ :: s.log) =
      (!decide (t' = t) && between w t' s.log) := by
    intro w t'
    by_cases ht : t' = t
    · subst ht
      by_cases hw : w = i
      · simp [between, Entry.marks, Entry.settles, hw]
      · have hn : between w t' s.log = false := by
          cases hb' : between w t' s.log with
          | false => rfl
          | true => exact absurd (h.unique w i t' hb' hb) hw
        simp [between, Entry.marks, hn]
    · have : ¬ t = t' := fun e => ht e.symm
      simp [between, Entry.marks, Entry.settles, ht, this]
  refine ⟨fun w t' hb' => ?_, fun w w' t' h1 h2 => ?_, fun w t' hw => ?_, fun t' => ?_,
    fun e he => ?_⟩
  · rw [hbetween, Bool.and_eq_true, Bool.not_eq_true', decide_eq_false_iff_not] at hb'
    rw [StateStore.statusOf_modifyTask hr, if_neg hb'.1]
    exact h.running w t' hb'.2
  · rw [hbetween, Bool.and_eq_true] at h1 h2
    exact h.unique w w' t' h1.2 h2.2
  · by_cases hwi : w = i
    · subst hwi
      rw [Function.update_self] at hw
      exact absurd hw (hl t')
    · rw [Function.update_of_ne hwi] at hw
      have hb' := h.executes w t' hw
      rw [hbetween, hb', Bool.and_true, Bool.not_eq_true', decide_eq_false_iff_not]
      rintro rfl
      exact hwi (h.unique w i t' hb' hb)
  · have hrun := h.running i t hb
    by_cases ht : t' = t
    · subst ht
      have h0 : terminalOutcomes t' s.log = 0 := by
        rcases h.outcomes t' with h0 | ⟨-, st', hs', ht'⟩
        · exact h0
        · rw [hrun] at hs'
          obtain rfl := Option.some.inj hs'
          cases ht'
      rw [StateStore.statusOf_modifyTask hr, if_pos rfl]
      by_cases hterm : st.terminal = true
      · refine .inr ⟨?_, st, rfl, hterm⟩
        simp [terminalOutcomes, Entry.terminates, hterm] at h0 ⊢
        exact h0
      · refine .inl ?_
        simpa [terminalOutcomes, Entry.terminates, hterm] using h0
    · have hc : terminalOutcomes t' (⟨i, .store (.updateTaskStatus t st res err), .ok ()⟩ :: s.log)
          = terminalOutcomes t' s.log := by
        have : ¬ t = t' := fun e => ht e.symm
        simp [terminalOutcomes, Entry.terminates, this]
      rw [hc, StateStore.statusOf_modifyTask hr, if_neg ht]
      exact h.outcomes t'
  · rcases List.mem_cons.mp he with rfl | hm
    · exact id
    · exact h.accepted e hm

/-! ## Every permitted request keeps the invariant -/

theorem keepsBusy_of_tasks {s s' : StateStore} (h : s'.tables.tasks = s.tables.tasks) :
    KeepsBusy s s' := by
  intro t st _ hs
  rwa [StateStore.statusOf, StateStore.task?, h]

theorem Exclusive.call_step (h : Exclusive s l) {e : Effect} (a : Answers)
    (hm : (discipline i).may (l i) e) :
    Exclusive
      { s with store := (e.perform a s.store).2, log := ⟨i, e, (e.perform a s.store).1⟩ :: s.log }
      (Function.update l i ((l i).1, (l i).2.next (l i).1 e (e.perform a s.store).1)) := by
  generalize hen : (⟨i, e, (e.perform a s.store).1⟩ : Entry) = en
  generalize hs' : (e.perform a s.store).2 = s'
  generalize hph : (l i).2 = ph at *
  generalize hph' : ph.next (l i).1 e (e.perform a s.store).1 = ph'
  have hm' : ph.may i (l i).1 e := by rw [← hph]; exact hm
  have hc := perform_cases hm' a s.store
  rw [hen, hs', hph'] at hc
  rcases hc with hidle | hrow
  · refine h.plain_step hidle.plain (fun hi => ?_) (keepsBusy_of_tasks hidle.tasks)
      fun t ht => by rw [hph]; exact hidle.executes t ht
    obtain ⟨t, hex, hne⟩ := hidle.refused hi
    exact hne (h.running i t (h.executes i t (by rwa [hph])))
  · cases hrow with
    | lease row run free =>
      refine h.plain_step (fun _ => ⟨rfl, rfl⟩) id (fun t' st hst hs => ?_) fun _ ht => ht.elim
      rw [StateStore.statusOf_addEvents, StateStore.statusOf_modifyTask row, if_neg ?_]
      · exact hs
      · rintro rfl
        rw [StateStore.statusOf_eq row] at hs
        obtain rfl := Option.some.inj hs
        rcases StateStore.leaseable_status free with hp | hp <;> rw [hp] at hst <;>
          rcases hst with hst | hst <;> cases hst
    | count row =>
      refine h.plain_step (fun _ => ⟨rfl, rfl⟩) id (fun t' st _ hs => ?_) fun _ ht => ht.elim
      rw [StateStore.statusOf_modifyTask row]
      split
      next ht => rw [ht, StateStore.statusOf_eq row] at hs; exact hs
      next => exact hs
    | mark row leased => exact h.mark_step row leased fun t' ht => ht.symm
    | settle row edge settled executes kept oom =>
      refine h.settle_step row (h.executes i _ (by rwa [hph])) fun t' ht => ?_
      cases ph <;> try exact executes.elim
      · exact ht
      · simp only [Phase.next] at ht
        split at ht <;> exact ht

/-- A worker that starts executes nothing yet. -/
theorem Exclusive.start (h : Exclusive s l) (hl : ∀ t, ¬ l'.2.executes t) :
    Exclusive s (Function.update l i l') where
  running := h.running
  unique := h.unique
  executes := fun w t hw => by
    by_cases hwi : w = i
    · subst hwi
      rw [Function.update_self] at hw
      exact absurd hw (hl t)
    · rw [Function.update_of_ne hwi] at hw
      exact h.executes w t hw
  outcomes := h.outcomes
  accepted := h.accepted

/-- Requeueing expired leases touches `LEASED` tasks only. -/
theorem requeue_keepsBusy (s : StateStore) (runId : RunId) (clk : Clock) :
    KeepsBusy s (s.exec (.requeueExpiredLeases runId) clk).2 := by
  intro t st hst hs
  rw [s.exec_requeueExpiredLeases, StateStore.statusOf_addEvents, StateStore.statusOf,
    StateStore.updateTasks_task?]
  cases hf : s.task? t with
  | none => rw [StateStore.statusOf, hf] at hs; cases hs
  | some r =>
    rw [StateStore.statusOf_eq hf] at hs
    obtain rfl := Option.some.inj hs
    have hn : InMemory.expired runId clk.now r = false := by
      have hl : r.status ≠ .leased := by
        rintro hl
        rw [hl] at hst
        rcases hst with h | h <;> cases h
      simp [InMemory.expired, hl]
    simp [hn]

/-- Expired leases may be requeued at any time; dead workers are not reclaimed. -/
def noReclaim : FleetGuard where
  env := fun _ d => ∃ runId, d.1 = .requeueExpiredLeases runId

theorem exclusive_sound (pf : Platform) :
    (fleet pf).Sound discipline (fun _ => True) Exclusive noReclaim where
  call := fun s l i e a hJ hm _ => ⟨_, rfl, hJ.call_step a hm⟩
  start := by
    intro s l i job prog s' hJ _ _ hsp
    obtain ⟨-, rfl, rfl⟩ := fleet_spawn hsp
    exact ⟨((job.workerFor i).maxOomRetries, .free),
      (job.workerFor i).disciplined_runOnce pf job.memory job.runId, hJ.start fun _ => id⟩
  crash := fun s l i hJ _ => ⟨l i, by
    rw [Function.update_eq_self]
    exact ⟨hJ.running, hJ.unique, hJ.executes, hJ.outcomes, hJ.accepted⟩⟩
  env := by
    intro s l d s' hJ hG hs
    obtain ⟨runId, hd⟩ := hG
    obtain rfl := Option.some.inj hs
    have hk : KeepsBusy s.store (s.store.exec d.1.op d.2).2 := by
      rw [hd]
      exact requeue_keepsBusy s.store runId d.2
    refine ⟨fun w t hb => hk t _ (.inl rfl) (hJ.running w t hb), hJ.unique, hJ.executes,
      fun t => ?_, hJ.accepted⟩
    exact (hJ.outcomes t).imp_right fun ⟨h1, st, hs, ht⟩ => ⟨h1, st, hk t st (.inr ht) hs, ht⟩

/-- **Mutual exclusion.** From any store and for any number of workers, however their
`run_once` calls interleave, leases expire, workers crash and expired leases are requeued:
at most one worker is between its mark of a task and its update of it, no update is refused
for its transition, and no task receives two terminal outcomes. -/
theorem mutual_exclusion (pf : Platform) (s : StateStore) {p : FleetState}
    (h : (fleet pf).machine.Steps noReclaim.Meets (fleetOn s) p) :
    (∀ t w w', between w t p.shared.log = true → between w' t p.shared.log = true → w = w') ∧
      (∀ e ∈ p.shared.log, ¬ e.InvalidTransition) ∧
      ∀ t, terminalOutcomes t p.shared.log ≤ 1 := by
  have h0 : Service.Conforms discipline (fun _ => True) Exclusive
      (fleetOn s) :=
    Service.conforms_initial (Exclusive.initial s (0, .free) fun _ => id) trivial
  obtain ⟨l, hJ, -⟩ := (exclusive_sound pf).invariant h h0
  refine ⟨fun t w w' => hJ.unique w w' t, hJ.accepted, fun t => ?_⟩
  rcases hJ.outcomes t with h0 | ⟨h1, -⟩ <;> omega

/-- In the race `A` executes the task, and `B` does not. -/
theorem mutual_exclusion_race : ∃ p : FleetState,
    (fleet .bare).machine.run
      (fleetOn (storeWith .sqlite .validated (pendingTask "t" []))) leaseRace = some p ∧
    between "A" "t" p.shared.log = true ∧ between "B" "t" p.shared.log = false ∧
    terminalOutcomes "t" p.shared.log ≤ 1 := by
  have hrun : ((fleet .bare).machine.run
      (fleetOn (storeWith .sqlite .validated (pendingTask "t" []))) leaseRace).any
        (fun p => between "A" "t" p.shared.log) = true := by decide +kernel
  obtain ⟨p, hp, hA⟩ := Option.any_eq_true _ _ |>.mp hrun
  have hsteps : (fleet .bare).machine.Steps noReclaim.Meets _ p :=
    Machine.steps_of_run hp (Machine.along_of_forall (fun e he s => by
      simp only [leaseRace, turns, List.mem_append, List.mem_cons, List.mem_replicate,
        List.not_mem_nil, or_false] at he
      rcases he with ((((rfl | rfl) | ⟨-, rfl⟩) | ⟨-, rfl⟩) | ⟨-, rfl⟩) | ⟨-, rfl⟩ <;>
        first | trivial | (simp only [Service.Guard.Meets]; split <;> trivial)) _)
  obtain ⟨hunique, -, houtcomes⟩ := mutual_exclusion .bare _ hsteps
  refine ⟨p, hp, hA, ?_, houtcomes "t"⟩
  cases hB : between "B" "t" p.shared.log with
  | false => rfl
  | true => exact absurd (hunique "t" "A" "B" hA hB) (by decide)

end FineTuneHarness
