import FineTuneHarness.Executor.ConcurrentSpec
import FineTuneHarness.Safety.StatusInvariant

/-!
# The stored run status when a concurrent drain ends

A child refreshes the run whenever it has moved its task. The parent moves the tasks of dead
children as well, and refreshes nothing; so a task that it gives up may leave a stored status
behind that nobody corrects.
-/
namespace FineTuneHarness

open Library Library.Program

/-! ## What is owed, read off the trace -/

/-- How far the worker has got with its refresh. -/
def dutyOf (i : WorkerId) : List Entry → Duty
  | [] => .clear
  | e :: log => if e.worker = i then (dutyOf i log).next e.effect e.reply else dutyOf i log

/-- A task has been moved, and the refresh that follows is not over. -/
def Duty.owes : Duty → Bool
  | .clear | .leased _ => false
  | _ => true

/-- The stored status is what the tasks ask for, or a task is left whose worker will see to it. -/
def UpToDate (runId : RunId) (s : StateStore) : Prop :=
  s.runStatus runId = some (targetStatus (s.tasksOf runId)) ∨ HasPending s runId

instance (runId : RunId) (s : StateStore) : Decidable (UpToDate runId s) :=
  inferInstanceAs (Decidable (_ ∨ ∃ t ∈ s.tasksOf runId, t.status = .pending))

/-- A reclaim of the dead worker's task gives the task up. -/
def StateStore.givesUp (s : StateStore) (runId : RunId) (w : WorkerId) (n : Int) (clk : Clock) :
    Bool :=
  match (s.exec (.reclaimDeadWorker runId w n) clk).1 with
  | .ok .failed => true
  | _ => false

/-- Workers of one run that live, write no status that has been overtaken, and leave nothing
behind when they die or their task is given up. -/
def lookedAfter (runId : RunId) : FleetGuard where
  call := fun s i e a => i ∉ s.dead ∧ writesFresh runId s i e a = true
  start := fun _ _ j => j.runId = runId
  crash := fun s i => (dutyOf i s.log).owes = true → UpToDate runId s.store
  env := fun s d => ∃ w n, d.1 = .reclaimDeadWorker runId w n ∧
    (s.store.givesUp runId w n d.2 = true →
      UpToDate runId (s.store.exec (.reclaimDeadWorker runId w n) d.2).2)

/-! ## The fleet -/

/-- The invariant of the fleet: live workers owe what the trace says, and dead ones nothing. -/
structure Tended (runId : RunId) (s : Traced) (l : WorkerId → (Int × Phase) × Duty) : Prop where
  agreeing : ∃ st, Agreeing True runId s l st
  known : ∀ i, i ∉ s.dead → (l i).2 = dutyOf i s.log
  spared : ∀ i ∈ s.dead, (l i).2.owes = false

section Tend

variable {runId : RunId} {s : Traced} {l : WorkerId → (Int × Phase) × Duty} {st : RunStatus}

/-- A reclaim leaves no task in a hand that is not known. -/
theorem keeps_reclaim (s : StateStore) (clk : Clock) (w : WorkerId) (n : Int) :
    Keeps True s (s.exec (.reclaimDeadWorker runId w n) clk).2 where
  evolves := s.exec_evolves clk trivial
  hand t row row' hr hr' hhand := by
    have hop : StateStore.keepsTasks (.reclaimDeadWorker runId w n) := trivial
    cases StateStore.exec_row_some clk hop hr hr' with
    | same => exact hhand
    | reclaim => exact .inr ⟨trivial, .inl rfl⟩
    | abandon => exact .inr ⟨trivial, .inr rfl⟩

/-- **The reclaim of a dead worker's task.** A task that is requeued waits for the next worker. -/
theorem Agreeing.reclaim (h : Agreeing True runId s l st) {w : WorkerId} {n : Int} {clk : Clock}
    (hG : s.store.givesUp runId w n clk = true →
      UpToDate runId (s.store.exec (.reclaimDeadWorker runId w n) clk).2) :
    Agreeing True runId { s with store := (s.store.exec (.reclaimDeadWorker runId w n) clk).2 } l st := by
  rcases s.store.reclaim_cases clk runId w n with ⟨t, f, es, hr, hid, -, -, hf, hfid, hx⟩ | ⟨-, hx⟩
  swap
  · rw [hx]
    exact h
  have hk := @keeps_reclaim runId s.store clk w n
  have hstored : (s.store.exec (.reclaimDeadWorker runId w n) clk).2.runStatus runId = some st := by
    rw [hx]
    exact h.stored
  refine ⟨hstored, h.fits.evolves hk.evolves, fun i => (h.phases i).keep hk,
    fun i => (h.duties i).keep hk.evolves id, h.linked, h.listing, ?_⟩
  rcases hf with ⟨rfl, -, -, -⟩ | ⟨-, -, hreply, -⟩
  · refine .inr (.inr ⟨trivial, t.release, (StateStore.mem_tasksOf _).mpr ⟨?_, hid⟩, rfl⟩)
    change (s.store.exec (.reclaimDeadWorker runId w n) clk).2.task? t.taskId = _
    rw [hx, StateStore.addEvents_task?, StateStore.modifyTask_task?_self, hr]
    rfl
  · rcases hG (by rw [StateStore.givesUp, hreply]) with hst | hp
    · exact .inl (Option.some.inj (hstored.symm.trans hst))
    · exact .inr (.inr ⟨trivial, hp⟩)

/-- The entry of one worker leaves the duties of the others. -/
theorem dutyOf_cons {i j : WorkerId} {e : Entry} (hi : e.worker = i) (log : List Entry) :
    dutyOf j (e :: log) = if j = i then (dutyOf i log).next e.effect e.reply else dutyOf j log := by
  subst hi
  rw [dutyOf]
  by_cases hj : j = e.worker
  · subst hj
    rw [if_pos rfl]
  · rw [if_neg fun h => hj h.symm, if_neg hj]

theorem tended_sound (pf : Platform) (runId : RunId) :
    (fleet pf).Sound (fun i => (discipline i).prod (refreshing runId)) (fun l => l.2 = .clear)
      (Tended runId) (lookedAfter runId) where
  call := by
    rintro s l i e a ⟨⟨st, hJ⟩, hknown, hspared⟩ hm ⟨halive, hG⟩
    obtain ⟨st', hJ', -⟩ := hJ.call_step a hm hG
    refine ⟨(((l i).1.1, (l i).1.2.next (l i).1.1 e (e.perform a s.store).1),
      (l i).2.next e (e.perform a s.store).1), ⟨rfl, hJ.served hm.2 hG, rfl⟩, ⟨st', hJ'⟩,
      fun j hj => ?_, fun j hj => ?_⟩
    · change _ = dutyOf j (⟨i, e, (e.perform a s.store).1⟩ :: s.log)
      rw [dutyOf_cons rfl]
      by_cases hji : j = i
      · subst hji
        rw [Function.update_self, if_pos rfl, ← hknown j hj]
      · rw [Function.update_of_ne hji, if_neg hji]
        exact hknown j hj
    · rw [Function.update_of_ne (by rintro rfl; exact halive hj)]
      exact hspared j hj
  start := by
    rintro s l i job prog s' ⟨⟨st, hJ⟩, hknown, hspared⟩ hdone hG hsp
    obtain ⟨halive, rfl, rfl⟩ := fleet_spawn hsp
    obtain rfl : job.runId = runId := hG
    refine ⟨(((job.workerFor i).maxOomRetries, .free), .clear), ?_, ⟨st, hJ.start hdone _⟩,
      fun j hj => ?_, fun j hj => ?_⟩
    · exact wp_mono (wp_prod ((job.workerFor i).disciplined_runOnce pf job.memory job.runId)
        ((job.workerFor i).settles_runOnce pf job.memory job.runId)) (fun _ _ hl => hl.2)
        fun _ _ hl => hl.2
    · by_cases hji : j = i
      · subst hji
        rw [Function.update_self, ← hknown j hj]
        exact hdone.symm
      · rw [Function.update_of_ne hji]
        exact hknown j hj
    · rw [Function.update_of_ne (by rintro rfl; exact halive hj)]
      exact hspared j hj
  crash := by
    rintro s l i ⟨⟨st, hJ⟩, hknown, hspared⟩ hG
    have hothers : ∀ x j, j ∉ i :: s.dead → (Function.update l i x j).2 = dutyOf j s.log := by
      intro x j hj
      obtain ⟨hji, hj⟩ := not_or.mp fun h => hj (List.mem_cons.mpr h)
      rw [Function.update_of_ne hji]
      exact hknown j hj
    have hdead : ∀ x : (Int × Phase) × Duty, x.2.owes = false → ∀ j ∈ i :: s.dead,
        (Function.update l i x j).2.owes = false := by
      intro x hx j hj
      by_cases hji : j = i
      · subst hji
        rw [Function.update_self]
        exact hx
      · rw [Function.update_of_ne hji]
        exact hspared j ((List.mem_cons.mp hj).resolve_left hji)
    cases howes : (l i).2.owes with
    | false =>
      refine ⟨l i, ⟨st, ?_⟩, hothers _, hdead _ howes⟩
      rw [Function.update_eq_self]
      exact ⟨hJ.stored, hJ.fits, hJ.phases, hJ.duties, hJ.linked, hJ.listing, hJ.repair⟩
    | true =>
      -- what this worker owes is not needed
      have halive : i ∉ s.dead := fun hi => by
        rw [hspared i hi] at howes
        cases howes
      have hJ' := hJ.drop (i := i) 0 fun _ => by
        rcases hG (by rw [← hknown i halive]; exact howes) with hst | hp
        · exact .inl (Option.some.inj (hJ.stored.symm.trans hst))
        · exact .inr ⟨trivial, hp⟩
      exact ⟨((0, .free), .clear), ⟨st, hJ'.stored, hJ'.fits, hJ'.phases, hJ'.duties, hJ'.linked,
        hJ'.listing, hJ'.repair⟩, hothers _, hdead _ rfl⟩
  env := by
    rintro s l ⟨d, clk⟩ s' ⟨⟨st, hJ⟩, hknown, hspared⟩ ⟨w, n, rfl, hG⟩ hs
    obtain rfl := Option.some.inj hs
    exact ⟨⟨st, hJ.reclaim hG⟩, hknown, hspared⟩

end Tend

/-! ## The call -/

/-- The child whose task is reclaimed next. -/
def Point.dead? : Point → Option InFlight
  | .reclaiming dead _ => some dead
  | _ => none

/-- A status that a child writes has not been overtaken; a child that dies owes no refresh, and a
task that the parent gives up changes nothing, or else a task is left for a later child; and no
task is left `LEASED` at the end. -/
def Concurrent.KeepsUp (c : Draining) (s : Concurrent) : DrainAct → Prop
  | .call i a => ∀ e ∈ (s.pool.client i).request, writesFresh c.runId s.pool.shared i e a = true
  | .exit i => s.stage i = some .running → (dutyOf i s.pool.shared.log).owes = true →
    UpToDate c.runId s.pool.shared.store
  | .reclaim clock => ∀ dead ∈ s.parent.point.dead?,
    s.pool.shared.store.givesUp c.runId dead.worker c.concurrency.maxOomRetries clock = true →
      UpToDate c.runId (s.pool.shared.store.exec
        (.reclaimDeadWorker c.runId dead.worker c.concurrency.maxOomRetries) clock).2
  | .conclude => ∀ t ∈ s.pool.shared.store.tasksOf c.runId, t.status ≠ .leased
  | _ => True

instance (c : Draining) (s : Concurrent) : DecidablePred (s.KeepsUp c)
  | .call i a => inferInstanceAs (Decidable (∀ e ∈ (s.pool.client i).request,
      writesFresh c.runId s.pool.shared i e a = true))
  | .exit i => inferInstanceAs (Decidable (s.stage i = some .running →
      (dutyOf i s.pool.shared.log).owes = true → UpToDate c.runId s.pool.shared.store))
  | .reclaim clock => inferInstanceAs (Decidable (∀ dead ∈ s.parent.point.dead?,
      s.pool.shared.store.givesUp c.runId dead.worker c.concurrency.maxOomRetries clock = true →
        UpToDate c.runId (s.pool.shared.store.exec
          (.reclaimDeadWorker c.runId dead.worker c.concurrency.maxOomRetries) clock).2))
  | .conclude => inferInstanceAs (Decidable (∀ t ∈ s.pool.shared.store.tasksOf c.runId,
      t.status ≠ .leased))
  | .begin _ | .report _ | .count _ | .launch .. | .deliver _ | .timeout | .look | .join => .isTrue trivial

/-- What holds between two steps of the call. -/
structure Attended (c : Draining) (s : Concurrent) : Prop where
  seated : Seated s
  watched : Watched c s.parent s.children
  pool : Service.Conforms (fun i => (discipline i).prod (refreshing c.runId))
    (fun l => l.2 = .clear) (Tended c.runId) s.pool
  pending : s.parent.point.late = true → ¬ HasPending s.pool.shared.store c.runId
  leased : ∀ ending, s.parent.point = .ended ending →
    ∀ t ∈ s.pool.shared.store.tasksOf c.runId, t.status ≠ .leased

namespace Attended

variable {c : Draining} {pf : Platform} {s s' : Concurrent} {a : DrainAct}

theorem initial {store : StateStore}
    (agrees : store.runStatus c.runId = some (targetStatus (store.tasksOf c.runId))) :
    Attended c (c.begin store) where
  seated := .initial c store
  watched := .initial c
  pool := Service.conforms_initial (l := ((0, .free), .clear))
    ⟨⟨_, .initial agrees 0⟩, fun _ _ => rfl, nofun⟩ rfl
  pending := nofun
  leased := nofun

/-- A child that has not begun owes nothing. -/
theorem owes_starting (h : Attended c s) {x : Child} (hx : s.child? x.worker = some x)
    (hst : x.stage = .starting) : (dutyOf x.worker s.pool.shared.log).owes = false := by
  obtain ⟨l, hJ, hconf⟩ := h.pool
  have hseat := h.seated.child x (Table.find?_eq_some_iff.mp hx).1
  rw [hst] at hseat
  rw [← hJ.known _ hseat.2,
    show (l x.worker).2 = .clear from (hconf x.worker).done (by rw [hseat.1]; rfl)]
  rfl

/-- The fleet moves by a step that meets the guard. -/
theorem pool_step (h : Attended c s) {act : Act WorkerId Answers Job (Maintenance × Clock)}
    {pool : FleetState} (hG : (lookedAfter c.runId).Meets s.pool act)
    (hs : (fleet pf).machine.step s.pool act = some pool) :
    Service.Conforms (fun i => (discipline i).prod (refreshing c.runId))
      (fun l => l.2 = .clear) (Tended c.runId) pool :=
  (tended_sound pf c.runId).step h.pool hG hs

theorem conforms_step (h : Attended c s) (hk : s.KeepsUp c a) (hs : Concurrent.Steps c pf s a s') :
    Service.Conforms (fun i => (discipline i).prod (refreshing c.runId))
      (fun l => l.2 = .clear) (Tended c.runId) s'.pool := by
  have hfind : ∀ {i x}, s.child? i = some x → x ∈ s.children.rows ∧ x.worker = i := fun hx =>
    Table.find?_eq_some_iff.mp hx
  cases hs with
  | begin child stage fleet =>
    exact h.pool_step (show (lookedAfter c.runId).Meets s.pool (.start _ c.childJob) from rfl) fleet
  | @call i x answers pool child stage fleet =>
    obtain ⟨hx, rfl⟩ := hfind child
    have hseat := h.seated.child x hx
    rw [stage] at hseat
    obtain ⟨e, next, hclient, -⟩ := Service.call_some fleet
    refine h.pool_step ?_ fleet
    simp only [Service.Guard.Meets, hclient]
    exact ⟨hseat, hk e (by rw [hclient]; rfl)⟩
  | @die i x pool child stage fleet =>
    obtain ⟨hx, rfl⟩ := hfind child
    refine h.pool_step (show (lookedAfter c.runId).Meets s.pool (.crash _) from fun howes => ?_) fleet
    rcases stage with hst | hst
    · rw [h.owes_starting child hst] at howes
      cases howes
    · exact hk (by rw [Concurrent.stage, child]; exact congrArg some hst) howes
  | @reclaim dead rest clock pool p point fleet loop =>
    refine h.pool_step (show (lookedAfter c.runId).Meets s.pool (.env _) from
      ⟨dead.worker, _, rfl, hk dead ?_⟩) fleet
    rw [point]
    rfl
  | report | leave | count | pass | launch | deliver | timeout | look | join | conclude => exact h.pool

theorem step (h : Attended c s) (hk : s.KeepsUp c a) (hs : Concurrent.Steps c pf s a s') :
    Attended c s' := by
  refine ⟨h.seated.step hs, Concurrent.tracked_step h.watched hs, h.conforms_step hk hs,
    fun hlate => ?_, fun ending hend => ?_⟩
  · obtain ⟨hpool, ⟨now, -, hcount, -⟩ | ⟨-, hpt⟩⟩ := Concurrent.late_step h.watched hs hlate
    · rintro ⟨t, ht, hp⟩
      rw [hpool] at ht
      have hleaseable := List.eq_nil_of_length_eq_zero hcount
      have hmem : t ∈ (s.pool.shared.store.tasksOf c.runId).filter (·.leaseable now) :=
        List.mem_filter.mpr ⟨ht, by simp [TaskRecord.leaseable, hp]⟩
      rw [hleaseable] at hmem
      cases hmem
    · rw [hpool]
      exact h.pending (by rw [hpt]; rfl)
  · obtain ⟨hpool, ⟨now, -, -, hpt⟩ | ⟨rfl, -⟩⟩ :=
      Concurrent.late_step h.watched hs (by rw [hend]; rfl)
    · rw [hpt] at hend
      cases hend
    · rw [hpool]
      exact hk

/-- At the end every client that has not died is through with its `run_once`. -/
theorem finished (h : Attended c s) {ending : LocalWorker.DrainEnd}
    (hend : s.parent.point = .ended ending) {i : WorkerId} (hi : i ∉ s.pool.shared.dead) :
    (s.pool.client i).finished = true := by
  by_cases hm : i ∈ s.children.rows.map Child.worker
  · obtain ⟨x, hx, rfl⟩ := List.mem_map.mp hm
    have hseat := h.seated.child x hx
    have hended := h.watched.allEnded (by rw [hend]; rfl) hx
    cases hst : x.stage with
    | exited said =>
      rw [hst] at hseat
      cases said with
      | some outcome => exact hseat.1
      | none => exact absurd hseat hi
    | _ => rw [hst] at hended; cases hended
  · rw [(h.seated.idle i hm).1]
    rfl

/-- At the end nothing is left to be refreshed. -/
theorem up_to_date (h : Attended c s) {ending : LocalWorker.DrainEnd}
    (hend : s.parent.point = .ended ending) : s.pool.shared.store.runStatus c.runId =
      some (targetStatus (s.pool.shared.store.tasksOf c.runId)) := by
  obtain ⟨l, ⟨⟨st, hJ⟩, hknown, hspared⟩, hconf⟩ := h.pool
  rcases hJ.repair with hst | ⟨i, hi⟩ | ⟨-, hp⟩
  · rw [hJ.stored, hst]
  · exfalso
    by_cases hdead : i ∈ s.pool.shared.dead
    · have hduty := hspared i hdead
      have hlinked := (hJ.linked i).leased
      have hphase := hJ.phases i
      generalize (l i).2 = d at hi hduty hlinked
      generalize (l i).1.2 = ph at hlinked hphase
      cases d with
      | clear => exact hi
      | leased t =>
        obtain ⟨row, hr, hid⟩ : ∃ row, s.pool.shared.store.task? t = some row ∧ row.runId = c.runId := by
          rcases hlinked t rfl with rfl | ⟨n, rfl⟩
          · obtain ⟨row, hr, hid, -⟩ := hphase
            exact ⟨row, hr, hid⟩
          · obtain ⟨row, hr, hid, -⟩ := hphase
            exact ⟨row, hr, hid⟩
        refine h.leased ending hend row (StateStore.mem_tasksOf _ |>.mpr
          ⟨by rw [StateStore.task?_taskId _ hr]; exact hr, hid⟩) ?_
        have hi : s.pool.shared.store.statusOf t = some .leased := hi
        rw [StateStore.statusOf_eq hr] at hi
        exact Option.some.inj hi
      | _ => cases hduty
    · rw [show (l i).2 = .clear from (hconf i).done (h.finished hend hdead)] at hi
      exact hi
  · exact absurd hp (h.pending (by rw [hend]; rfl))

end Attended

/-- **The stored status when the call ends.** If it was what the tasks ask for at the start, and
every step keeps up, it is what they ask for at the end. -/
theorem drain_ends_up_to_date {c : Draining} {pf : Platform} {store : StateStore} {s : Concurrent}
    {ending : LocalWorker.DrainEnd}
    (agrees : store.runStatus c.runId = some (targetStatus (store.tasksOf c.runId)))
    (h : (c.machine pf).Steps (Concurrent.KeepsUp c) (c.begin store) s)
    (hend : s.parent.point = .ended ending) : s.pool.shared.store.runStatus c.runId =
      some (targetStatus (s.pool.shared.store.tasksOf c.runId)) := by
  have hattended : Attended c s := h.invariant (Attended.initial agrees)
    fun _ _ _ hI hk hs => hI.step hk (Concurrent.step_steps hs)
  exact hattended.up_to_date hend

/-! ## A task that is given up -/

/-- No reclaim requeues a task. -/
def noRetries : Draining :=
  { oneByOne with concurrency := { maxConcurrent := 1, maxOomRetries := 0 } }

/-- The only child dies in its handler, and the parent finds it dead. -/
def lostChild : List DrainAct :=
  [.count 0, .launch none 7, .count 0, .begin "w-c1"] ++
    List.replicate 9 (.call "w-c1" (Answers.steady 0 (.ok (.dict [])))) ++
    [.exit "w-c1", .timeout, .look, .reclaim ⟨0, 0⟩, .count 0, .count 0, .conclude]

/-- **The status nobody refreshes.** The task of the dead child is marked `FAILED`, and the run
stays `RUNNING`. -/
theorem given_up_task_leaves_running : ∃ (s : Concurrent) (ending : LocalWorker.DrainEnd),
    (storeWith .sqlite .validated (pendingTask "k" [])).runStatus "r" =
      some (targetStatus ((storeWith .sqlite .validated (pendingTask "k" [])).tasksOf "r")) ∧
    (noRetries.machine .bare).run
      (noRetries.begin (storeWith .sqlite .validated (pendingTask "k" []))) lostChild = some s ∧
    s.parent.point = .ended ending ∧
    s.pool.shared.store.runStatus "r" = some .running ∧
    targetStatus (s.pool.shared.store.tasksOf "r") = .failed := by
  have hrun : ((noRetries.machine .bare).run
      (noRetries.begin (storeWith .sqlite .validated (pendingTask "k" []))) lostChild).any (fun s =>
        s.endedWith 0 && s.pool.shared.store.runStatus "r" = some .running &&
          targetStatus (s.pool.shared.store.tasksOf "r") = .failed) = true := by decide +kernel
  obtain ⟨s, hs, hb⟩ := Option.any_eq_true _ _ |>.mp hrun
  simp only [Bool.and_eq_true, decide_eq_true_eq] at hb
  obtain ⟨⟨hend, hst⟩, htarget⟩ := hb
  obtain ⟨ending, hpt, -⟩ := Concurrent.of_endedWith hend
  exact ⟨s, ending, by decide +kernel, hs, hpt, hst, htarget⟩

/-- The child that finishes its task leaves the run `COMPLETED`. -/
theorem finished_task_completes_run : ∃ s : Concurrent,
    (oneByOne.machine .bare).run
      (oneByOne.begin (storeWith .sqlite .validated (pendingTask "k" [])))
      (oneChild ++ [.deliver 0, .join, .count 0, .count 0, .conclude]) = some s ∧
    s.pool.shared.store.runStatus "r" =
      some (targetStatus (s.pool.shared.store.tasksOf "r")) := by
  have hrun : ((oneByOne.machine .bare).run
      (oneByOne.begin (storeWith .sqlite .validated (pendingTask "k" [])))
      (oneChild ++ [.deliver 0, .join, .count 0, .count 0, .conclude])).any (·.endedWith 1) = true := by
    decide +kernel
  have halong : (oneByOne.machine .bare).Along (Concurrent.KeepsUp oneByOne)
      (oneByOne.begin (storeWith .sqlite .validated (pendingTask "k" [])))
      (oneChild ++ [.deliver 0, .join, .count 0, .count 0, .conclude]) := by decide +kernel
  obtain ⟨s, hs, hend⟩ := Option.any_eq_true _ _ |>.mp hrun
  obtain ⟨ending, hpt, -⟩ := Concurrent.of_endedWith hend
  have hagrees : (storeWith .sqlite .validated (pendingTask "k" [])).runStatus oneByOne.runId =
      some (targetStatus ((storeWith .sqlite .validated (pendingTask "k" [])).tasksOf oneByOne.runId)) := by
    decide +kernel
  exact ⟨s, hs, drain_ends_up_to_date hagrees (Machine.steps_of_run hs halong) hpt⟩

end FineTuneHarness
