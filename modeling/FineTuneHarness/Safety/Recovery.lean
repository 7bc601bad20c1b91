import FineTuneHarness.Executor.Attempt
import FineTuneHarness.Executor.Fleet
import FineTuneHarness.Orchestrator.Creation

/-!
# A drain after a crash

The lease takes `PENDING` tasks and `LEASED` tasks whose lease has expired. A task whose
worker died after the mark is `RUNNING`: no lease takes it, and the scan at the end of a
drain does not look for it. The other tasks are carried through, one in each round, as long
as nothing between the mark and the settlement raises.
-/
namespace FineTuneHarness

open Library Library.Program

/-! ## The restart -/

/-- The handler has returned a value that passes the validation and can be stored. -/
def Valid (pf : Platform) (payload : Dict) (wall : PyFloat) (outcome : Except PyExc PyVal) :
    Prop :=
  ∃ v result verdict, outcome = .ok v ∧
    LocalWorker.judge pf payload wall v = .ok (result, verdict) ∧
    verdict.status.rejected = false ∧ result.throughJson.isOk = true

/-- A handler that always returns a valid result, in time; hooks that leave the deadline
alone and the result writable; and a clock past every lease recorded in `s₀`. -/
def restarted (pf : Platform) (s₀ : StateStore) (runId : RunId) : Admits where
  ext x r :=
    match x, r with
    | .runHandler _, run => Valid pf run.payload run.wallSeconds run.outcome
    | .runHandlerWithin _ _, run =>
      ∃ outcome, run.outcome = some outcome ∧ Valid pf run.payload run.wallSeconds outcome
    | .hook _ c, (payload, result) =>
      payload.get? "timeout_seconds" = c.payload.get? "timeout_seconds" ∧
        (c.result.throughJson.isOk = true → result.throughJson.isOk = true)
    | _, _ => True
  clock clk := ∀ t ∈ s₀.tasksOf runId, t.status = .leased →
    ∃ u, t.leasedUntil = some u ∧ u < clk.now

/-- `PENDING` or `LEASED`. -/
def Waiting (t : TaskRecord) : Prop := t.status = .pending ∨ t.status = .leased

instance (t : TaskRecord) : Decidable (Waiting t) := inferInstanceAs (Decidable (_ ∨ _))

/-- The run can be refreshed once one of its waiting tasks runs. -/
def Refreshes (s : StateStore) (runId : RunId) : Prop :=
  ∃ r, s.run? runId = some r ∧ r.status.canReach (begunStatus (s.tasksOf runId)) = true

/-- What one round makes of a task: it has succeeded if `c` holds, and is left `RUNNING`
otherwise. -/
structure Rescued (c : Prop) (s : StateStore) (runId : RunId) (t : TaskRecord) (l : Ledger) :
    Prop where
  task : ∃ t', l.store.task? t.taskId = some t' ∧ t'.runId = t.runId ∧
    (t'.status = .succeeded ∧ c ∨ t'.status = .running ∧ ¬ c)
  others : ∀ id, id ≠ t.taskId → l.store.task? id = s.task? id
  run : ∃ r, l.store.run? runId = some r ∧
    (Refreshes s runId ∧ Fits (l.store.tasksOf runId) r.status ∨
      s.run? runId = some r ∧ r.status.canReach (begunStatus (s.tasksOf runId)) = false)

section Fire

variable {ok : Admits} {s : StateStore} {cs : List TaskId} {E : PyExc → Ledger → Prop}

/-- Hooks hand on what each of them keeps. -/
theorem alone_fire_keeps {r : HookRegistry} {c : HookCall} {I : HookCall → Prop} (h : I c)
    (hI : ∀ name c m, I c → ok.ext (.hook name c) m → I (c.mutate m.1 m.2))
    {Q : HookCall → Ledger → Prop} (hq : ∀ c', I c' → Q c' ⟨s, cs⟩) :
    (r.fire c).wp (alone ok) Q E ⟨s, cs⟩ := by
  have hf : ∀ fns c, I c → (HookRegistry.fireAll fns c).wp (alone ok) Q E ⟨s, cs⟩ := by
    intro fns
    induction fns with
    | nil => exact fun c h => hq c h
    | cons fn fns ih =>
      exact fun c h => (wp_bind _ _).mpr (alone_ask.mpr fun m hm => ih _ (hI _ _ _ h hm))
  exact hf _ _ h

end Fire

namespace LocalWorker

variable (pf : Platform) (w : LocalWorker) {s s' s₀ : StateStore} {cs : List TaskId}
  {runId : RunId} {a : Attempt} {row t : TaskRecord}

/-- A held task in the state that `c` asks for. -/
theorem rescued_of_held {c : Prop} (hre : Refreshes s runId) (h : Held s s' a row) (ha : a.runId = runId)
    (hid : a.task.taskId = t.taskId) (hrun : t.runId = runId)
    (hst : row.status = .succeeded ∧ c ∨ row.status = .running ∧ ¬ c) :
    Rescued c s runId t ⟨s', cs⟩ := by
  obtain ⟨r, hr, hfit⟩ := h.run
  subst ha
  refine ⟨⟨row, ?_, h.ofRun.trans hrun.symm, hst⟩, fun id hne => h.others id (by rwa [hid]), r, hr,
    .inl ⟨hre, hfit⟩⟩
  rw [← hid]
  exact h.found

theorem held_of_settled (h : Settled s s' a row) (hb : 0 < row.attemptCount)
    (hr : row.runId = a.runId) : Held s s' a row := by
  obtain ⟨r, hr', hst⟩ := h.run
  exact ⟨h.found, hb, hr, h.others, h.backend, r, hr', by rw [hst]; exact fits_targetStatus⟩

/-- From the settlement as `SUCCEEDED` on, whatever happens leaves the task there. -/
theorem alone_succeed {c : Prop} {ok : Admits} (hre : Refreshes s runId) (hc : c) (h : Held s s' a row)
    (hrunning : row.status = .running) (hid : a.task.taskId = t.taskId)
    (ha : a.runId = runId) (hrun : t.runId = runId) {payload result : Dict}
    (hres : result.throughJson.isOk = true)
    (hok : ∀ name (c : HookCall) m, ok.ext (.hook name c) m →
      c.result.throughJson.isOk = true → m.2.throughJson.isOk = true) :
    (w.onSuccess a payload result).wp (alone ok) (fun _ l => Rescued c s runId t l)
      (fun _ l => Rescued c s runId t l) ⟨s', cs⟩ := by
  have hend : ∀ {s''} {r : Option Dict}, Held s s'' a (row.settle .succeeded r none) →
      Rescued c s runId t ⟨s'', cs⟩ := fun h'' =>
    rescued_of_held hre h'' ha hid hrun (.inl ⟨rfl, hc⟩)
  have hcall : (HookCall.afterTaskSuccess { a.task with payload } result).point =
      .afterTaskSuccess ∧ result.throughJson.isOk = true := ⟨rfl, hres⟩
  refine (wp_bind _ _).mpr (alone_fire_keeps (I := fun c => c.point = .afterTaskSuccess ∧
    c.result.throughJson.isOk = true) hcall (fun name c m hI hm => ?_) fun c' hI => ?_)
  · cases c with
    | afterTaskSuccess task r => exact ⟨rfl, hok _ _ _ hm hI.2⟩
    | _ => cases hI.1
  refine (wp_bind _ _).mpr (w.alone_hookFired h.known.1 h.known.2 fun e _ => ?_)
  obtain ⟨r, hk⟩ := s.keep_some hI.2
  refine (wp_bind _ _).mpr ((h.addEvents [e]).alone_update hrunning (by decide) hk fun s1 h1 => ?_)
  have hrest : ∀ s2, Held s s2 a (row.settle .succeeded r none) →
      (do
        w.recordAttempt a "task_succeeded" []
        let status ← refreshRunStatus a.runId
        w.announceStatus a status
        pure a.task : Prog TaskRecord).wp (alone ok) (fun _ l => Rescued c s runId t l)
        (fun _ l => Rescued c s runId t l) ⟨s2, cs⟩ := by
    intro s2 h2
    refine (wp_bind _ _).mpr (w.alone_recordAttempt h2.known.1 h2.known.2 rfl fun e _ => ?_)
    refine (wp_bind _ _).mpr ((h2.addEvents [e]).alone_refresh fun st s3 h3 => ?_)
    refine (wp_bind _ _).mpr ((wp_bind _ _).mpr (alone_fire fun _ => ?_))
    exact hend (held_of_settled h3 h.begun h.ofRun)
  unfold keepArtifact
  split
  · refine (wp_bind _ _).mpr ((wp_bind _ _).mpr (alone_ask.mpr fun written _ =>
      (wp_bind _ _).mpr ?_))
    rw [wp_ofExcept]
    cases written with
    | error e => exact hend h1
    | ok artifact =>
      refine alone_call fun clk _ => ?_
      rcases s1.exec_createArtifact clk artifact with hx | ⟨e, hx⟩
      · rw [hx]
        exact hrest _ ⟨h1.found, h1.begun, h1.ofRun, h1.others, h1.backend, h1.run⟩
      · rw [hx]
        exact hend h1
  · exact (wp_bind _ _).mpr (hrest s1 h1)

theorem resolveTimeout_congr {p p' : Dict}
    (h : p'.get? "timeout_seconds" = p.get? "timeout_seconds") :
    w.resolveTimeout p' = w.resolveTimeout p := by
  unfold resolveTimeout
  rw [h]

/-- What has to go well for a waiting task to be carried through. -/
def CarriesThrough (seed : Option Int) (s : StateStore) (runId : RunId) (t : TaskRecord) : Prop :=
  Refreshes s runId ∧ (∀ i, seed = some i → (applySeed pf i).isOk = true) ∧
    (w.resolveTimeout t.payload).isOk = true

/-- A valid return value settles its task. -/
theorem alone_finish_valid {c : Prop} {run : HandlerRun (Except PyExc PyVal)}
    (hre : Refreshes s runId) (hc : c)
    (hv : Valid pf run.payload run.wallSeconds run.outcome) (h : Held s s' a row)
    (hrunning : row.status = .running) (hid : a.task.taskId = t.taskId)
    (ha : a.runId = runId) (hrun : t.runId = runId) :
    (w.finish pf a run).wp (alone (restarted pf s₀ runId)) (fun _ l => Rescued c s runId t l)
      (fun _ l => Rescued c s runId t l) ⟨s', cs⟩ := by
  obtain ⟨payload, wall, outcome⟩ := run
  obtain ⟨v, result, verdict, ho, hj, hrej, hjson⟩ := hv
  obtain rfl : outcome = .ok v := ho
  change (w.onReturn pf a payload wall v).wp _ _ _ _
  unfold onReturn
  rw [hj]
  change Program.wp _ (if verdict.status.rejected = true then _ else _) _ _ _
  rw [if_neg (by rw [hrej]; exact Bool.false_ne_true)]
  exact w.alone_succeed hre hc h hrunning hid ha hrun hjson fun _ _ _ hm => hm.2

/-- **One task after a restart**: it succeeds, or it is left `RUNNING`. -/
theorem alone_rescue {seed : Option Int} {expiry : Instant} (ht : s.task? t.taskId = some t)
    (hrun : t.runId = runId) (hst : Waiting t) (hr : s.run? runId ≠ none) :
    (w.attempt pf seed runId (t.leaseTo w.workerId expiry)).wp (alone (restarted pf s₀ runId))
      (fun _ l => Rescued (w.CarriesThrough pf seed s runId t) s runId t l)
      (fun _ l => Rescued (w.CarriesThrough pf seed s runId t) s runId t l)
      ⟨(s.modifyTask t.taskId (·.leaseTo w.workerId expiry) (·.leaseTo_taskId _ _)).addEvents
        (StateStore.takeover t w.workerId), cs⟩ := by
  obtain ⟨r, hr⟩ := Option.ne_none_iff_exists'.mp hr
  refine (wp_bind _ _).mpr ?_
  cases hreach : r.status.canReach (begunStatus (s.tasksOf runId)) with
  | false =>
    refine w.alone_beginAttempt_stuck ht hrun hst id hr hreach fun e x _ => ?_
    refine ⟨⟨markedRow t w.workerId expiry, marked_task? ht _ _, rfl, .inr ⟨rfl, ?_⟩⟩,
      fun id hid => ?_, r, hr, .inr ⟨hr, hreach⟩⟩
    · rintro ⟨⟨r', hr', hx⟩, -⟩
      obtain rfl := Option.some.inj (hr.symm.trans hr')
      rw [hreach] at hx
      cases hx
    · rw [StateStore.addEvents_task?]
      exact marked_other hid _ _
  | true =>
    refine w.alone_beginAttempt ht hrun hst hr hreach fun s1 h1 => ?_
    -- what raises from here on leaves the task in hand
    have hlost : ¬ w.CarriesThrough pf seed s runId t → ∀ {s2},
        Held s s2 ⟨runId, t.leaseTo w.workerId expiry, t.attemptCount + 1⟩
          (markedRow t w.workerId expiry) →
        Rescued (w.CarriesThrough pf seed s runId t) s runId t ⟨s2, cs⟩ := fun hc _ h2 =>
      rescued_of_held ⟨r, hr, hreach⟩ h2 rfl rfl hrun (.inr ⟨rfl, hc⟩)
    refine (wp_bind _ _).mpr ((wp_bind _ _).mpr (alone_seedAttempt pf (fun hseed => ?_)
      fun hseed e => hlost (fun hc => hseed hc.2.1) h1))
    have hcall : (HookCall.beforeTask (t.leaseTo w.workerId expiry)).point = .beforeTask ∧
        (HookCall.beforeTask (t.leaseTo w.workerId expiry)).payload.get? "timeout_seconds" =
          t.payload.get? "timeout_seconds" := ⟨rfl, rfl⟩
    refine (wp_bind _ _).mpr (alone_fire_keeps (I := fun c => c.point = .beforeTask ∧
      c.payload.get? "timeout_seconds" = t.payload.get? "timeout_seconds") hcall
      (fun name c m hI hm => ?_) fun c' hI => ?_)
    · cases c with
      | beforeTask task => exact ⟨rfl, hm.1.trans hI.2⟩
      | _ => cases hI.1
    refine (wp_bind _ _).mpr (w.alone_hookFired h1.known.1 h1.known.2 fun e _ => ?_)
    have h2 := h1.addEvents [e]
    refine (wp_bind _ _).mpr ?_
    rw [wp_ofExcept, w.resolveTimeout_congr hI.2]
    cases hd : w.resolveTimeout t.payload with
    | error x => exact hlost (fun hc => by have := hc.2.2; rw [hd] at this; cases this) h2
    | ok timeout =>
      have hc : w.CarriesThrough pf seed s runId t :=
        ⟨⟨r, hr, hreach⟩, hseed, by rw [hd]; rfl⟩
      refine (wp_bind _ _).mpr ?_
      cases timeout with
      | none =>
        refine alone_ask.mpr fun run hv => ?_
        exact w.alone_finish_valid pf hc.1 hc hv h2 rfl rfl rfl hrun
      | some seconds =>
        refine (wp_bind _ _).mpr (alone_ask.mpr fun run hv => ?_)
        obtain ⟨outcome, ho, hv⟩ := hv
        refine w.alone_finish_valid pf hc.1 hc ?_ h2 rfl rfl rfl hrun
        obtain ⟨v, result, verdict, rfl, hj⟩ := hv
        refine ⟨v, result, verdict, ?_, hj⟩
        change withinDeadline seconds run.outcome = .ok v
        rw [ho]
        rfl

/-! ## The rounds of the drain -/

/-- Where a task of the crashed run is, some rounds later: untouched, or carried through if
`c` holds and left `RUNNING` otherwise. -/
def Carried (c : Prop) (t t' : TaskRecord) : Prop :=
  t' = t ∨ Waiting t ∧ t'.runId = t.runId ∧
    (t'.status = .succeeded ∧ c ∨ t'.status = .running ∧ ¬ c)

/-- The invariant of the rounds, from the restart on `s₀`. -/
structure Recovering (seed : Option Int) (runId : RunId) (s₀ s : StateStore) : Prop where
  forward : ∀ t ∈ s₀.tasksOf runId, ∃ t', s.task? t.taskId = some t' ∧
    Carried (w.CarriesThrough pf seed s₀ runId t) t t'
  backward : ∀ t' ∈ s.tasksOf runId, ∃ t ∈ s₀.tasksOf runId, t.taskId = t'.taskId
  known : s.run? runId ≠ none
  refreshes : ∀ t ∈ s.tasksOf runId, Waiting t → (Refreshes s runId ↔ Refreshes s₀ runId)

variable {pf w} {seed : Option Int}

theorem Recovering.initial (known : s₀.run? runId ≠ none) :
    Recovering pf w seed runId s₀ s₀ where
  forward := fun t ht => ⟨t, (s₀.mem_tasksOf.mp ht).1, .inl rfl⟩
  backward := fun t ht => ⟨t, ht, rfl⟩
  known := known
  refreshes := fun _ _ _ => Iff.rfl

theorem Recovering.addEvents (h : Recovering pf w seed runId s₀ s) (es : List EventRecord) :
    Recovering pf w seed runId s₀ (s.addEvents es) :=
  ⟨h.forward, h.backward, h.known, h.refreshes⟩

/-- A waiting task is as it was at the restart. -/
theorem Recovering.untouched (h : Recovering pf w seed runId s₀ s) (ht : t ∈ s.tasksOf runId)
    (hw : Waiting t) : t ∈ s₀.tasksOf runId := by
  obtain ⟨t₀, ht₀, hid⟩ := h.backward t ht
  obtain ⟨t', hrow, hc⟩ := h.forward t₀ ht₀
  rw [hid, (s.mem_tasksOf.mp ht).1] at hrow
  obtain rfl := Option.some.inj hrow
  rcases hc with rfl | ⟨-, -, ⟨hs, -⟩ | ⟨hs, -⟩⟩
  · exact ht₀
  · rcases hw with hw | hw <;> rw [hw] at hs <;> cases hs
  · rcases hw with hw | hw <;> rw [hw] at hs <;> cases hs

/-- Each task of the crashed run is still there. -/
theorem Recovering.found (h : Recovering pf w seed runId s₀ s) (ht : t ∈ s₀.tasksOf runId) :
    ∃ t' ∈ s.tasksOf runId, Carried (w.CarriesThrough pf seed s₀ runId t) t t' := by
  obtain ⟨t', hrow, hc⟩ := h.forward t ht
  have hrun : t'.runId = runId := by
    rcases hc with rfl | ⟨-, hr, -⟩
    · exact (s₀.mem_tasksOf.mp ht).2
    · exact hr.trans (s₀.mem_tasksOf.mp ht).2
  refine ⟨t', s.mem_tasksOf.mpr ⟨?_, hrun⟩, hc⟩
  rw [s.task?_taskId hrow]
  exact hrow

/-- No round makes a task unsuccessful. -/
theorem Recovering.still_successful (h : Recovering pf w seed runId s₀ s)
    (hs : ∀ t ∈ s₀.tasksOf runId, t.status.unsuccessful = false) :
    ∀ t ∈ s.tasksOf runId, t.status.unsuccessful = false := by
  intro t' ht'
  obtain ⟨t, ht, hid⟩ := h.backward t' ht'
  obtain ⟨t'', hrow, hc⟩ := h.forward t ht
  rw [hid, (s.mem_tasksOf.mp ht').1] at hrow
  obtain rfl := Option.some.inj hrow
  rcases hc with rfl | ⟨-, -, ⟨hst, -⟩ | ⟨hst, -⟩⟩
  · exact hs _ ht
  · rw [hst]; rfl
  · rw [hst]; rfl

/-- One round keeps the invariant and leaves one waiting task less. -/
theorem Recovering.round {l : Ledger} (h : Recovering pf w seed runId s₀ s)
    (ht : t ∈ s.tasksOf runId) (hw : Waiting t)
    (hr : Rescued (w.CarriesThrough pf seed s runId t) s runId t l) :
    Recovering pf w seed runId s₀ l.store ∧
      (l.store.tasksOf runId).countP (fun t => Waiting t) <
        (s.tasksOf runId).countP fun t => Waiting t := by
  obtain ⟨hrow, hrun⟩ := s.mem_tasksOf.mp ht
  obtain ⟨t', hrow', hrun', hst'⟩ := hr.task
  have hid' : t'.taskId = t.taskId := l.store.task?_taskId hrow'
  have ht' : t' ∈ l.store.tasksOf runId :=
    l.store.mem_tasksOf.mpr ⟨by rw [hid']; exact hrow', hrun'.trans hrun⟩
  have hnw : ¬ Waiting t' := by
    rintro (hp | hp) <;> rcases hst' with ⟨hs, -⟩ | ⟨hs, -⟩ <;> rw [hp] at hs <;> cases hs
  have ht₀ := h.untouched ht hw
  have hsame : w.CarriesThrough pf seed s runId t ↔ w.CarriesThrough pf seed s₀ runId t :=
    and_congr_left' (h.refreshes t ht hw)
  refine ⟨⟨fun x hx => ?_, fun x hx => ?_, ?_, fun x hx hxw => ?_⟩, ?_⟩
  · by_cases hid : x.taskId = t.taskId
    · have h1 := (s₀.mem_tasksOf.mp hx).1
      rw [hid, (s₀.mem_tasksOf.mp ht₀).1] at h1
      obtain rfl := Option.some.inj h1
      exact ⟨t', hrow', .inr ⟨hw, hrun', hst'.imp (fun h => ⟨h.1, hsame.mp h.2⟩)
        fun h => ⟨h.1, fun hc => h.2 (hsame.mpr hc)⟩⟩⟩
    · rw [hr.others _ hid]
      exact h.forward x hx
  · obtain ⟨hx1, hx2⟩ := l.store.mem_tasksOf.mp hx
    by_cases hid : x.taskId = t.taskId
    · exact ⟨t, ht₀, hid.symm⟩
    · rw [hr.others _ hid] at hx1
      exact h.backward x (s.mem_tasksOf.mpr ⟨hx1, hx2⟩)
  · obtain ⟨r, hr, -⟩ := hr.run
    rw [hr]
    exact Option.some_ne_none r
  · rw [← h.refreshes t ht hw]
    obtain ⟨r, hr1, ⟨hre, hfit⟩ | ⟨hr2, hstuck⟩⟩ := hr.run
    · exact iff_of_true ⟨r, hr1, hfit.begun hx hxw⟩ hre
    · have hbegun : begunStatus (l.store.tasksOf runId) = begunStatus (s.tasksOf runId) := by
        refine begunStatus_congr hrow hrow' ?_ ?_ hr.others
        · rcases hw with hw | hw <;> rw [hw] <;> rfl
        · rcases hst' with ⟨hs, -⟩ | ⟨hs, -⟩ <;> rw [hs] <;> rfl
      refine iff_of_false ?_ ?_
      · rintro ⟨r', hr', hx⟩
        obtain rfl := Option.some.inj (hr1.symm.trans hr')
        rw [hbegun, hstuck] at hx
        cases hx
      · rintro ⟨r', hr', hx⟩
        obtain rfl := Option.some.inj (hr2.symm.trans hr')
        rw [hstuck] at hx
        cases hx
  · have hafter : (l.store.tasksOf runId).Perm (t' :: s.others runId t.taskId) := by
      refine (StateStore.tasksOf_perm ht').trans (List.Perm.cons _ ?_)
      rw [hid']
      exact StateStore.others_perm runId hr.others
    rw [hafter.countP_eq, (StateStore.tasksOf_perm ht).countP_eq,
      List.countP_cons_of_neg (by simpa using hnw), List.countP_cons_of_pos (by simpa using hw)]
    exact Nat.lt_succ_self _

/-- What a round leaves: no waiting task, or one less than before. -/
def Rescue (w : LocalWorker) (pf : Platform) (seed : Option Int) (runId : RunId)
    (s₀ s : StateStore) (l : Ledger) (stopped : Bool) : Prop :=
  Recovering pf w seed runId s₀ l.store ∧
    if stopped then ∀ t ∈ l.store.tasksOf runId, ¬ Waiting t
    else (l.store.tasksOf runId).countP (fun t => Waiting t) <
      (s.tasksOf runId).countP fun t => Waiting t

theorem alone_rescueRound (h : Recovering pf w seed runId s₀ s) :
    (w.leaseAndRun pf seed runId).wp (alone (restarted pf s₀ runId))
      (fun task l => w.Rescue pf seed runId s₀ s l task.isNone)
      (fun _ l => w.Rescue pf seed runId s₀ s l false) ⟨s, cs⟩ := by
  refine (wp_bind _ _).mpr (alone_call fun clk hclk => ?_)
  rw [s.exec_leaseNextPendingTask]
  cases hn : s.nextLeaseable runId clk.now with
  | none =>
    refine ⟨h, fun t ht hw => ?_⟩
    have hfree := s.nextLeaseable_none.mp hn t ht
    rcases hw with hp | hl
    · rw [TaskRecord.leaseable, hp] at hfree
      cases hfree
    · obtain ⟨u, hu, hlt⟩ := hclk t (h.untouched ht (.inr hl)) hl
      simp [TaskRecord.leaseable, hl, hu, hlt] at hfree
  | some t =>
    obtain ⟨hrow, hrun, hfree⟩ := s.nextLeaseable_some hn
    have ht : t ∈ s.tasksOf runId := s.mem_tasksOf.mpr ⟨hrow, hrun⟩
    have hw : Waiting t := StateStore.leaseable_status hfree
    refine (wp_bind _ _).mpr (wp_mono (w.alone_rescue pf hrow hrun hw h.known)
      (fun _ l hl => ?_) fun _ l hl => ?_)
    · exact h.round ht hw hl
    · exact h.round ht hw hl

theorem alone_rescueOnce {mem : RunMemory} (hm : seedFor s runId mem = seed)
    (h : Recovering pf w seed runId s₀ s) :
    (w.runOnce pf mem runId).wp (alone (restarted pf s₀ runId))
      (fun out l => (∀ s', seedFor s' runId out.1 = seed) ∧
        match out.2 with
        | .ok task => w.Rescue pf seed runId s₀ s l task.isNone
        | .error _ => w.Rescue pf seed runId s₀ s l false)
      (fun _ _ => False) ⟨s, cs⟩ := by
  have hlease : ∀ mem' : RunMemory, mem'.started runId = true → mem'.seed runId = seed →
      (do
        let outcome ← (w.leaseAndRun pf (mem'.seed runId) runId).attempt
        pure (mem', outcome) : Prog (RunMemory × Except PyExc (Option TaskRecord))).wp
        (alone (restarted pf s₀ runId)) (fun out l => (∀ s', seedFor s' runId out.1 = seed) ∧
          match out.2 with
          | .ok task => w.Rescue pf seed runId s₀ s l task.isNone
          | .error _ => w.Rescue pf seed runId s₀ s l false)
        (fun _ _ => False) ⟨s, cs⟩ := by
    intro mem' hst hs
    have hseed : ∀ s', seedFor s' runId mem' = seed := fun s' => by rw [seedFor, if_pos hst, hs]
    rw [hs]
    refine (wp_bind _ _).mpr ((wp_attempt _).mpr (wp_mono (alone_rescueRound h)
      (fun task l hl => ⟨hseed, hl⟩) fun e l hl => ⟨hseed, hl⟩))
  refine (wp_bind _ _).mpr ?_
  unfold startRun
  split
  next hst => exact hlease mem hst (by rw [← hm, seedFor, if_pos hst])
  next hst =>
    refine (wp_bind _ _).mpr (alone_getRun (fun hx => hx.elim)
      ((wp_bind _ _).mpr (alone_fire fun _ => hlease _ ?_ ?_)))
    · simp [RunMemory.started]
    · rw [← hm, seedFor, if_neg hst]
      simp [RunMemory.seed]

/-- **The rounds end** with no waiting task. -/
theorem alone_recovers (fuel : Nat) (mem : RunMemory) (n : Nat) (s : StateStore)
    (cs : List TaskId) (hm : seedFor s runId mem = seed) (h : Recovering pf w seed runId s₀ s)
    (hf : ((s.tasksOf runId).countP fun t => Waiting t) < fuel) :
    (w.drainLoop pf runId fuel mem n).wp (alone (restarted pf s₀ runId))
      (fun out l => (∃ n', out = some n') ∧ Recovering pf w seed runId s₀ l.store ∧
        ∀ t ∈ l.store.tasksOf runId, ¬ Waiting t) (fun _ _ => False) ⟨s, cs⟩ := by
  induction fuel generalizing mem n s cs with
  | zero => exact absurd hf (Nat.not_lt_zero _)
  | succ fuel ih =>
    refine (wp_bind _ _).mpr (wp_mono (alone_rescueOnce hm h) (fun out l hl => ?_)
      fun _ _ hl => hl)
    obtain ⟨mem', outcome⟩ := out
    obtain ⟨hmem, hround⟩ := hl
    cases outcome with
    | ok task =>
      cases task with
      | none => exact ⟨⟨n, rfl⟩, hround.1, hround.2⟩
      | some task =>
        obtain ⟨hrec, hlt⟩ := hround
        have hlt : (l.store.tasksOf runId).countP (fun t => Waiting t) <
          (s.tasksOf runId).countP fun t => Waiting t := hlt
        exact ih mem' (n + 1) l.store l.calls (hmem l.store) hrec (by omega)
    | error e =>
      obtain ⟨hrec, hlt⟩ := hround
      have hlt : (l.store.tasksOf runId).countP (fun t => Waiting t) <
        (s.tasksOf runId).countP fun t => Waiting t := hlt
      exact ih mem' n l.store l.calls (hmem l.store) hrec (by omega)

/-- The drain ends as its last scan finds the tasks. -/
theorem alone_drain_recovers (fuel : Nat) (mem : RunMemory) (known : s₀.run? runId ≠ none)
    (enough : ((s₀.tasksOf runId).countP fun t => Waiting t) < fuel) :
    (w.drain pf fuel mem runId).wp (alone (restarted pf s₀ runId))
      (fun out l => Recovering pf w (seedFor s₀ runId mem) runId s₀ l.store ∧
        (∀ t ∈ l.store.tasksOf runId, ¬ Waiting t) ∧
        ∃ ending, out = some ending ∧ ((∃ n, ending = .succeeded n) ↔
          ∀ t ∈ l.store.tasksOf runId, t.status.unsuccessful = false))
      (fun _ _ => False) ⟨s₀, cs⟩ := by
  refine (wp_bind _ _).mpr (alone_record rfl known (fun _ hid => by cases hid) fun e _ _ _ =>
    (wp_bind _ _).mpr (wp_mono (alone_recovers fuel mem 0 _ cs rfl
      ((Recovering.initial known).addEvents [e]) enough) (fun out l hl => ?_) fun _ _ hl => hl))
  obtain ⟨⟨n, rfl⟩, hrec, hnone⟩ := hl
  refine (wp_bind _ _).mpr ((wp_bind _ _).mpr (alone_listTasks ?_))
  dsimp only
  split
  next hemp =>
    refine ⟨hrec, hnone, _, rfl, iff_of_true ⟨n, rfl⟩ fun t ht => ?_⟩
    simpa using List.filter_eq_nil_iff.mp (List.isEmpty_iff.mp hemp) t ht
  next hsome =>
    refine ⟨hrec, hnone, _, rfl, iff_of_false (fun ⟨n, hn⟩ => by cases hn) fun hall => hsome ?_⟩
    exact List.isEmpty_iff.mpr (List.filter_eq_nil_iff.mpr fun t ht => by simp [hall t ht])

end LocalWorker

/-- **When a drain after a crash loses no task.** A lone worker drains a run after the leases
of a crash have run out, under a handler that always returns a valid result. The drain ends;
and that every task is terminal where it returns normally holds if and only if a task of the
run had been unsuccessful already, or none was left `RUNNING` and every waiting task can be
carried through. -/
theorem drain_recovers_iff (pf : Platform) (w : LocalWorker) (s₀ : StateStore) (runId : RunId)
    (mem : RunMemory) (env : Nat → Answers) (fuel : Nat) (known : s₀.run? runId ≠ none)
    (restart : ∀ n, (restarted pf s₀ runId).Meets (env n))
    (enough : ((s₀.tasksOf runId).countP fun t => Waiting t) < fuel) :
    let out := (w.drain pf fuel mem runId).run (Session.exec env) { ledger := { store := s₀ } }
    (∃ ending, out.1 = .ok (some ending)) ∧
    ((∀ n, out.1 = .ok (some (.succeeded n)) →
        ∀ t ∈ out.2.ledger.store.tasksOf runId, t.status.terminal = true) ↔
      (∃ t ∈ s₀.tasksOf runId, t.status.unsuccessful = true) ∨
        ∀ t ∈ s₀.tasksOf runId, t.status ≠ .running ∧
          (Waiting t → w.CarriesThrough pf (LocalWorker.seedFor s₀ runId mem) s₀ runId t)) := by
  obtain ⟨a, σ, hrun, hrec, hnone, ending, rfl, hend⟩ := Session.run_returns
    (s := { ledger := { store := s₀ } })
    (LocalWorker.alone_drain_recovers fuel mem known enough) restart
  intro out
  have hout : out = (.ok (some ending), σ) := hrun
  clear_value out
  subst hout
  refine ⟨⟨ending, rfl⟩, fun hterm => ?_, ?_⟩
  · by_cases hu : ∃ t ∈ s₀.tasksOf runId, t.status.unsuccessful = true
    · exact .inl hu
    · have hall : ∀ t ∈ s₀.tasksOf runId, t.status.unsuccessful = false := fun t ht =>
        Bool.eq_false_iff.mpr fun hx => hu ⟨t, ht, hx⟩
      obtain ⟨n, rfl⟩ := hend.mpr (hrec.still_successful hall)
      refine .inr fun t ht => ?_
      obtain ⟨t', ht', hc⟩ := hrec.found ht
      have hterm := hterm n rfl t' ht'
      rcases hc with rfl | ⟨hw, -, hc⟩
      · exact ⟨fun hr => (by rw [hr] at hterm; cases hterm), fun hw => absurd hw (hnone _ ht')⟩
      · refine ⟨fun hr => (by rcases hw with hw | hw <;> rw [hr] at hw <;> cases hw), fun _ => ?_⟩
        rcases hc with ⟨-, hc⟩ | ⟨hs, -⟩
        · exact hc
        · rw [hs] at hterm; cases hterm
  · rintro (⟨t, ht, hu⟩ | hall) n hn t' ht'
    · have hend := hend.mp ⟨n, Option.some.inj (Except.ok.inj hn)⟩
      obtain ⟨t', ht', hc⟩ := hrec.found ht
      rcases hc with rfl | ⟨hw, -⟩
      · rw [hend _ ht'] at hu; cases hu
      · rcases hw with hw | hw <;> rw [hw] at hu <;> cases hu
    · obtain ⟨t, ht, hid⟩ := hrec.backward t' ht'
      obtain ⟨t'', hrow, hc⟩ := hrec.forward t ht
      rw [hid, (σ.ledger.store.mem_tasksOf.mp ht').1] at hrow
      obtain rfl := Option.some.inj hrow
      obtain ⟨hnr, hcarry⟩ := hall t ht
      rcases hc with rfl | ⟨hw, -, ⟨hs, -⟩ | ⟨-, hc⟩⟩
      · have hw := hnone _ ht'
        cases hst : t'.status <;> simp [Waiting, hst, TaskStatus.terminal] at hw hnr ⊢
      · rw [hs]; rfl
      · exact absurd (hcarry hw) hc

/-! ## A crash after the mark -/

/-- The handler returns `{}` and leaves an empty payload. -/
def Answers.returning (now : Instant) : Answers where
  clock := ⟨now, now⟩
  ext
    | .runHandler _ => ⟨[], .finite 0, .ok (.dict [])⟩
    | .runHandlerWithin .. => ⟨[], .finite 0, some (.ok (.dict []))⟩
    | x => (Answers.steady now (.ok .none)).ext x

theorem returning_meets {s₀ : StateStore} {runId : RunId} (now : Instant)
    (h : ∀ t ∈ s₀.tasksOf runId, t.status ≠ .leased) :
    (restarted .bare s₀ runId).Meets (.returning now) := by
  have hv : Valid .bare [] (.finite 0) (.ok (.dict [])) :=
    ⟨.dict [], _, _, rfl, rfl, rfl, rfl⟩
  refine ⟨fun x => ?_, fun t ht hl => absurd hl (h t ht)⟩
  cases x with
  | runHandler t => exact hv
  | runHandlerWithin t n => exact ⟨_, rfl, hv⟩
  | hook name c => exact ⟨rfl, id⟩
  | _ => trivial

/-- `A` leases the task, counts it, marks it and dies. -/
def crashAfterMark : List (Act WorkerId Answers Job (Maintenance × Clock)) :=
  [.start "A" { worker := { workerId := "A" }, runId := "0" }] ++
    turns "A" (.returning 0) 4 ++ [.crash "A"]

/-- **The lost task.** A worker dies after its mark. The drain that follows finds nothing to
lease, no task that failed, and returns normally; the task stays `RUNNING`. -/
theorem crash_after_mark_loses_task : ∃ (σ : Session) (p : FleetState),
    demoRun .bare .sqlite [[]] = (.ok "0", σ) ∧
    (fleet .bare).machine.run (fleetOn σ.ledger.store) crashAfterMark = some p ∧
    (restarted .bare p.shared.store "0").Meets (.returning 400000000) ∧
    let out := (LocalWorker.drain .bare { workerId := "B" } 1 [] "0").run
      (Session.exec fun _ => .returning 400000000) { ledger := { store := p.shared.store } }
    out.1 = .ok (some (.succeeded 0)) ∧
      (out.2.ledger.store.tasksOf "0").map (·.status) = [.running] := by
  have hid : (demoRun .bare .sqlite [[]]).1.toOption = some "0" := by decide +kernel
  have hb : ((fleet .bare).machine.run (fleetOn (demoRun .bare .sqlite [[]]).2.ledger.store)
      crashAfterMark).any (fun p =>
        let out := (LocalWorker.drain .bare { workerId := "B" } 1 [] "0").run
          (Session.exec fun _ => .returning 400000000) { ledger := { store := p.shared.store } }
        (p.shared.store.tasksOf "0").all (·.status ≠ .leased) &&
          LocalWorker.drainReturned 0 out.1 &&
          (out.2.ledger.store.tasksOf "0").map (·.status) = [.running]) = true := by
    decide +kernel
  obtain ⟨p, hp, hb⟩ := Option.any_eq_true _ _ |>.mp hb
  simp only [Bool.and_eq_true, List.all_eq_true, decide_eq_true_eq] at hb
  obtain ⟨⟨hleased, hret⟩, hst⟩ := hb
  generalize hdemo : demoRun .bare .sqlite [[]] = demo at hid hp
  obtain ⟨r, σ⟩ := demo
  cases r with
  | error e => cases hid
  | ok id =>
    obtain rfl := Option.some.inj hid
    exact ⟨σ, p, rfl, hp, returning_meets _ hleased, LocalWorker.eq_of_drainReturned hret, hst⟩

/-- The rule at work on one waiting task. -/
theorem waiting_task_recovers :
    let out := (LocalWorker.drain .bare { workerId := "B" } 2 [] "r").run
      (Session.exec fun _ => .returning 0)
      { ledger := { store := storeWith .sqlite .validated (pendingTask "t" []) } }
    ∀ n, out.1 = .ok (some (.succeeded n)) →
      ∀ t ∈ out.2.ledger.store.tasksOf "r", t.status.terminal = true := by
  have htasks : (storeWith .sqlite .validated (pendingTask "t" [])).tasksOf "r" =
      [pendingTask "t" []] := rfl
  have hquiet : ∀ t ∈ (storeWith .sqlite .validated (pendingTask "t" [])).tasksOf "r",
      t.status ≠ .leased := by
    rw [htasks]
    decide
  have hcarry : ∀ t ∈ (storeWith .sqlite .validated (pendingTask "t" [])).tasksOf "r",
      t.status ≠ .running ∧ (Waiting t → LocalWorker.CarriesThrough .bare { workerId := "B" }
        (LocalWorker.seedFor (storeWith .sqlite .validated (pendingTask "t" [])) "r" [])
        (storeWith .sqlite .validated (pendingTask "t" [])) "r" t) := by
    intro t ht
    rw [htasks, List.mem_singleton] at ht
    subst ht
    exact ⟨by decide, fun _ => ⟨⟨_, rfl, by decide⟩, fun i hi => (by cases hi), rfl⟩⟩
  have hdrain := (drain_recovers_iff .bare { workerId := "B" }
    (storeWith .sqlite .validated (pendingTask "t" [])) "r" [] (fun _ => .returning 0) 2
    (by decide) (fun _ => returning_meets 0 hquiet) (by decide)).2
  exact hdrain.mpr (.inr hcarry)

end FineTuneHarness
