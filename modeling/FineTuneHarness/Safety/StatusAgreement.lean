import FineTuneHarness.Safety.StatusInvariant

/-!
# When the stored status of a run is what its tasks ask for

Workers interleave their `run_once` calls. As long as no status is written on the strength of
a list that has been overtaken, the stored status is the target of the tasks, or some worker
is on its way to make it so.
-/
namespace FineTuneHarness

open Library Library.Program

theorem update_fst {i : WorkerId} {f : WorkerId → (Int × Phase) × Duty} {x : (Int × Phase) × Duty} :
    (fun j => (Function.update f i x j).1) = Function.update (fun j => (f j).1) i x.1 := by
  funext j
  by_cases hj : j = i
  · subst hj; rw [Function.update_self, Function.update_self]
  · rw [Function.update_of_ne hj, Function.update_of_ne hj]

/-- What holds between two steps. -/
def Agreed (runId : RunId) (s : Traced) (l : WorkerId → (Int × Phase) × Duty) : Prop :=
  Exclusive s (fun i => (l i).1) ∧ ∃ st, Agreeing False runId s l st

theorem agreed_sound (pf : Platform) (runId : RunId) :
    (fleet pf).Sound (fun i => (discipline i).prod (refreshing runId)) (fun l => l.2 = .clear)
      (Agreed runId) (freshWrites runId) where
  call := by
    rintro s l i e a ⟨hx, st, hJ⟩ hm hG
    obtain ⟨st', hJ', -⟩ := hJ.call_step a hm hG
    have hx' := hx.call_step (i := i) a hm.1
    refine ⟨(((l i).1.1, (l i).1.2.next (l i).1.1 e (e.perform a s.store).1),
      (l i).2.next e (e.perform a s.store).1), ⟨rfl, hJ.served hm.2 hG, rfl⟩, ?_, st', hJ'⟩
    rw [update_fst]
    exact hx'
  start := by
    rintro s l i job prog s' ⟨hx, st, hJ⟩ hdone hG hsp
    obtain ⟨-, rfl, rfl⟩ := fleet_spawn hsp
    obtain rfl : job.runId = runId := hG
    refine ⟨(((job.workerFor i).maxOomRetries, .free), .clear), ?_, ?_, st, hJ.start hdone _⟩
    · exact wp_mono (wp_prod ((job.workerFor i).disciplined_runOnce pf job.memory job.runId)
        ((job.workerFor i).settles_runOnce pf job.memory job.runId)) (fun _ _ hl => hl.2)
        fun _ _ hl => hl.2
    · rw [update_fst]
      exact hx.start fun _ => id
  crash := by
    rintro s l i ⟨hx, st, hJ⟩ -
    refine ⟨l i, ?_, st, ?_⟩ <;> rw [Function.update_eq_self]
    · exact ⟨hx.running, hx.unique, hx.executes, hx.outcomes, hx.accepted⟩
    · exact ⟨hJ.stored, hJ.fits, hJ.phases, hJ.duties, hJ.linked, hJ.listing, hJ.repair⟩
  env := fun _ _ _ _ _ hG _ => hG.elim

/-- **When the stored status is the tasks'.** Workers of one run, the stored status of which
is what its tasks ask for, interleave their `run_once` calls in any order. If no status is
written on the strength of a list that has been overtaken, and artifacts are registered, then
the stored status is what the tasks ask for whenever no worker has a request left to make, and
no step overwrites `COMPLETED` or `FAILED`. -/
theorem run_status_agrees (pf : Platform) (s : StateStore) (runId : RunId)
    (agrees : s.runStatus runId = some (targetStatus (s.tasksOf runId))) {p : FleetState}
    (h : (fleet pf).machine.Steps (freshWrites runId).Meets (fleetOn s) p) :
    ((∀ i, (p.client i).finished = true) →
      p.shared.store.runStatus runId = some (targetStatus (p.shared.store.tasksOf runId))) ∧
    ∀ a p', (freshWrites runId).Meets p a → (fleet pf).machine.step p a = some p' →
      ∀ st, st.ended → p.shared.store.runStatus runId = some st →
        p'.shared.store.runStatus runId = some st := by
  have h0 : Service.Conforms (fun i => (discipline i).prod (refreshing runId))
      (fun l => l.2 = .clear) (Agreed runId) (fleetOn s) :=
    Service.conforms_initial (l := ((0, .free), .clear))
      ⟨Exclusive.initial s (0, .free) fun _ => id, _, Agreeing.initial agrees 0⟩ rfl
  obtain ⟨l, ⟨hx, st, hJ⟩, hconf⟩ := (agreed_sound pf runId).invariant h h0
  refine ⟨fun hquiet => ?_, fun a p' hG hs st' hend hst' => ?_⟩
  · rcases hJ.repair with hst | ⟨i, hi⟩ | ⟨hw, -⟩
    · rw [hJ.stored, hst]
    · rw [show (l i).2 = .clear from (hconf i).done (hquiet i)] at hi
      exact hi.elim
    · exact hw.elim
  · obtain rfl := Option.some.inj (hJ.stored.symm.trans hst')
    have hs : (fleet pf).step p a = some p' := hs
    cases a with
    | call i c =>
      simp only [Service.step] at hs
      split at hs
      next e next hc =>
        obtain rfl := Option.some.inj hs
        have hi := hconf i
        rw [hc] at hi
        simp only [freshWrites, Service.Guard.Meets, hc] at hG
        obtain ⟨st', hJ', hkeep⟩ := hJ.call_step c hi.1 hG
        rw [← hkeep hx hend]
        exact hJ'.stored
      next => cases hs
    | start i b =>
      simp only [Service.step] at hs
      split at hs
      · obtain ⟨⟨prog, s'⟩, hsp, rfl⟩ := Option.map_eq_some_iff.mp hs
        obtain ⟨-, -, rfl⟩ := fleet_spawn hsp
        exact hst'
      · cases hs
    | crash i =>
      simp only [Service.step] at hs
      split at hs
      · cases hs
      · rw [← Option.some.inj hs]
        exact hst'
    | env d => exact hG.elim

/-! ## A refresh that is overtaken -/

/-- The handler raises. -/
def failing : Answers := .steady 0 (.error (.runtimeError "boom"))

/-- A worker that gives every task one attempt. -/
def oneAttempt (i : WorkerId) : Job where
  worker := { workerId := i, retryPolicy := { maxAttempts := 1 } }
  runId := "0"

/-- `A` fails its task and lists the tasks; `B` fails the other task and refreshes; then `A`
writes what it has computed. -/
def overtaken : List (Act WorkerId Answers Job (Maintenance × Clock)) :=
  [.start "A" (oneAttempt "A")] ++ turns "A" failing 15 ++ [.start "B" (oneAttempt "B")] ++
    turns "B" failing 20

/-- **The overtaken refresh.** `B` stores `FAILED`; `A` overwrites it by `PARTIAL_FAILED`, and
that is the stored status when both have ended, although every task has failed. -/
theorem overtaken_refresh_overwrites_failed : ∃ (σ : Session) (p q : FleetState),
    demoRun .bare .sqlite [[], []] = (.ok "0", σ) ∧
    (fleet .bare).machine.Reaches (fleetOn σ.ledger.store) p ∧
    p.shared.store.runStatus "0" = some .failed ∧
    (fleet .bare).machine.Reaches p q ∧ (∀ i, (q.client i).finished = true) ∧
    q.shared.store.runStatus "0" = some .partialFailed ∧
    targetStatus (q.shared.store.tasksOf "0") = .failed := by
  have hid : (demoRun .bare .sqlite [[], []]).1.toOption = some "0" := by decide +kernel
  have hrun : ((fleet .bare).machine.run
      (fleetOn (demoRun .bare .sqlite [[], []]).2.ledger.store) overtaken).any (fun p =>
        p.shared.store.runStatus "0" = some .failed &&
        ((fleet .bare).machine.run p (turns "A" failing 3)).any fun q =>
          (q.client "A").finished && (q.client "B").finished &&
          q.shared.store.runStatus "0" = some .partialFailed &&
          targetStatus (q.shared.store.tasksOf "0") = .failed) = true := by decide +kernel
  obtain ⟨p, hp, hb⟩ := Option.any_eq_true _ _ |>.mp hrun
  simp only [Bool.and_eq_true, decide_eq_true_eq] at hb
  obtain ⟨hfailed, hb⟩ := hb
  obtain ⟨q, hq, hb⟩ := Option.any_eq_true _ _ |>.mp hb
  simp only [Bool.and_eq_true, decide_eq_true_eq] at hb
  obtain ⟨⟨⟨hA, hB⟩, hst⟩, htarget⟩ := hb
  refine ⟨_, p, q, demoRun_eq hid, Machine.reaches_of_run hp, hfailed, Machine.reaches_of_run hq,
    fun i => ?_, hst, htarget⟩
  by_cases hi : i = "A" ∨ i = "B"
  · rcases hi with rfl | rfl <;> assumption
  · have hq : q.client i = p.client i := Service.client_of_run hq fun a ha hc => hi (.inl ?_)
    have hp : p.client i = .idle := Service.client_of_run hp fun a ha hc => hi ?_
    · rw [hq, hp]
      rfl
    · simp only [overtaken, turns, List.mem_append, List.mem_singleton, List.mem_replicate] at ha
      rcases ha with ((rfl | ⟨-, rfl⟩) | rfl) | ⟨-, rfl⟩ <;>
        first | exact .inl (Option.some.inj hc).symm | exact .inr (Option.some.inj hc).symm
    · obtain rfl := (List.mem_replicate.mp ha).2
      exact (Option.some.inj hc).symm

instance (runId : RunId) : ∀ s i e a, Decidable ((freshWrites runId).call s i e a) :=
  fun s i e a => inferInstanceAs (Decidable (writesFresh runId s i e a = true))

instance (runId : RunId) : ∀ s i j, Decidable ((freshWrites runId).start s i j) :=
  fun _ _ j => inferInstanceAs (Decidable (j.runId = runId))

instance (runId : RunId) : ∀ s i, Decidable ((freshWrites runId).crash s i) :=
  fun _ _ => inferInstanceAs (Decidable True)

instance (runId : RunId) : ∀ s d, Decidable ((freshWrites runId).env s d) :=
  fun _ _ => inferInstanceAs (Decidable False)

/-- `A` refreshes the run before `B` starts. -/
def inTurn : List (Act WorkerId Answers Job (Maintenance × Clock)) :=
  [.start "A" (oneAttempt "A")] ++ turns "A" failing 18 ++ [.start "B" (oneAttempt "B")] ++
    turns "B" failing 18

/-- The rule at work where `A` refreshes the run before `B` starts. -/
theorem refresh_in_turn_agrees : ∃ (σ : Session) (p : FleetState),
    demoRun .bare .sqlite [[], []] = (.ok "0", σ) ∧
    (fleet .bare).machine.run (fleetOn σ.ledger.store) inTurn = some p ∧
    p.shared.store.runStatus "0" = some (targetStatus (p.shared.store.tasksOf "0")) := by
  have hid : (demoRun .bare .sqlite [[], []]).1.toOption = some "0" := by decide +kernel
  have hrun : ((fleet .bare).machine.run
      (fleetOn (demoRun .bare .sqlite [[], []]).2.ledger.store) inTurn).any (fun p =>
        (p.client "A").finished && (p.client "B").finished) = true := by decide +kernel
  have hfresh : (fleet .bare).machine.Along (freshWrites "0").Meets
      (fleetOn (demoRun .bare .sqlite [[], []]).2.ledger.store) inTurn := by decide +kernel
  obtain ⟨p, hp, hb⟩ := Option.any_eq_true _ _ |>.mp hrun
  obtain ⟨hA, hB⟩ := Bool.and_eq_true_iff.mp hb
  have hsteps := Machine.steps_of_run hp hfresh
  refine ⟨_, p, demoRun_eq hid, hp,
    (run_status_agrees .bare _ "0" (by decide +kernel) hsteps).1 fun i => ?_⟩
  by_cases hi : i = "A" ∨ i = "B"
  · rcases hi with rfl | rfl <;> assumption
  · have hidle : p.client i = .idle := Service.client_of_run hp fun a ha hc => hi ?_
    · rw [hidle]
      rfl
    · simp only [inTurn, turns, List.mem_append, List.mem_singleton, List.mem_replicate] at ha
      rcases ha with ((rfl | ⟨-, rfl⟩) | rfl) | ⟨-, rfl⟩ <;>
        first | exact .inl (Option.some.inj hc).symm | exact .inr (Option.some.inj hc).symm

end FineTuneHarness
