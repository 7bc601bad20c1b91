import FineTuneHarness.Executor.Workload
import FineTuneHarness.State.Evolution

/-!
# The schedule does not show in the outcome

Two runs of one workload on one store may differ in everything the scheduler decides: how many
workers there are, who leases what and when, which leases expire, who crashes. A task that is
finished in both is finished alike.
-/
namespace FineTuneHarness

open Library Library.Program

theorem TaskRecord.Later.described {t t' : TaskRecord} (h : t.Later t') :
    t'.described = t.described := by
  obtain ⟨id, run, key, st, payload, res, err, owner, expiry, n⟩ := t
  obtain ⟨id', run', key', st', payload', res', err', owner', expiry', n'⟩ := t'
  obtain ⟨rfl, rfl, rfl, rfl, -, -⟩ := h
  rfl

/-- The task has been given up after its workers died. -/
def TaskRecord.GivenUp (t : TaskRecord) : Prop :=
  t.status = .failed ∧ ∃ w prior, t.error = some (diedError w prior)

/-- The row shows what the task comes to, as the store keeps it. -/
def StateStore.ShowsEnding (pf : Platform) (W : Workload) (s : StateStore) (t : TaskRecord) :
    Prop :=
  ∃ result, W.Settles pf t ⟨t.status, result, t.error⟩ ∧ s.keep result = .ok t.result

theorem StateStore.keep_congr {s s' : StateStore} (h : s'.backend = s.backend)
    (r : Option Dict) : s'.keep r = s.keep r := by
  unfold keep
  rw [h]

theorem Workload.settles_described {pf : Platform} {W : Workload} {t t' : TaskRecord} {x : Ending}
    (h : t'.described = t.described) (hx : W.Settles pf t x) : W.Settles pf t' x := by
  obtain ⟨q, hq⟩ := hx
  refine ⟨q, ?_⟩
  unfold comesTo at hq ⊢
  rw [h]
  exact hq

/-- Two rows of one task that show its ending. -/
theorem StateStore.ShowsEnding.unique {pf : Platform} {W : Workload} {s : StateStore}
    {r r' : TaskRecord} (h : s.ShowsEnding pf W r) (h' : s.ShowsEnding pf W r')
    (hdescribed : r.described = r'.described) :
    r.status = r'.status ∧ r.error = r'.error ∧ (W.ReportsTime → r.result = r'.result) := by
  obtain ⟨result, hsettles, hkeep⟩ := h
  obtain ⟨result', hsettles', hkeep'⟩ := h'
  have hsettles₁ := W.settles_described hdescribed hsettles'
  obtain ⟨hstatus, herror, hsame⟩ := hsettles.unique hsettles₁
  refine ⟨hstatus, herror, fun hreports => ?_⟩
  obtain rfl : result = result' := congrArg Ending.result (hsame hreports)
  rw [hkeep] at hkeep'
  exact Except.ok.inj hkeep'

section Invariant

variable {pf : Platform} {W : Workload} {s₀ : StateStore}

/-- What the rows and the workers show in every state that is reached from `s₀`. -/
structure Unscheduled (pf : Platform) (W : Workload) (s₀ : StateStore) (s : Traced)
    (l : WorkerId → Option TaskRecord) : Prop where
  evolves : s₀.Evolves s.store
  backend : s.store.backend = s₀.backend
  leased : ∀ i t, l i = some t →
    ∃ r, s.store.task? t.taskId = some r ∧ r.described = t.described
  ended : ∀ id r, s.store.task? id = some r → r.status.terminal = true →
    r.GivenUp ∨ s₀.ShowsEnding pf W r

variable {s : Traced} {l : WorkerId → Option TaskRecord}

/-- A call on the store that is permitted to worker `i` keeps the endings. -/
theorem Unscheduled.row_step (h : Unscheduled pf W s₀ s l) {op : StoreOp} (clk : Clock)
    (hkeeps : StateStore.keepsTasks op)
    (hmay : ∀ id st res err, op = .updateTaskStatus id st res err → st.terminal = true →
      ∃ r, s.store.task? id = some r ∧ W.Settles pf r ⟨st, res, err⟩)
    {id : TaskId} {r : TaskRecord} (hr : (s.store.exec op clk).2.task? id = some r)
    (hterm : r.status.terminal = true) : r.GivenUp ∨ s₀.ShowsEnding pf W r := by
  obtain ⟨r₀, hr₀, -⟩ := (s.store.exec_evolves clk hkeeps).backward hr
  have hended := h.ended id r₀ hr₀
  cases StateStore.exec_row_some clk hkeeps hr₀ hr with
  | same => exact hended hterm
  | lease run free => cases hterm
  | count =>
    rcases hended hterm with hgiven | ⟨result, hsettles, hkept⟩
    · exact .inl hgiven
    · exact .inr ⟨result, W.settles_described rfl hsettles, hkept⟩
  | mark leased => cases hterm
  | settle edge kept =>
    obtain ⟨r', hr', hsettles⟩ := hmay _ _ _ _ rfl hterm
    have hid := s.store.task?_taskId hr₀
    rw [hid, hr₀] at hr'
    obtain rfl := Option.some.inj hr'
    refine .inr ⟨_, W.settles_described rfl hsettles, ?_⟩
    rw [← StateStore.keep_congr h.backend]
    exact kept
  | expire expired => cases hterm
  | reclaim held budget => cases hterm
  | abandon held spent => exact .inl ⟨rfl, _, _, rfl⟩

/-- What every call keeps, the endings apart. -/
theorem Unscheduled.call_step (h : Unscheduled pf W s₀ s l) {op : StoreOp} (clk : Clock)
    (hkeeps : StateStore.keepsTasks op)
    (hended : ∀ id r, (s.store.exec op clk).2.task? id = some r → r.status.terminal = true →
      r.GivenUp ∨ s₀.ShowsEnding pf W r) {log : List Entry} :
    Unscheduled pf W s₀ { s with store := (s.store.exec op clk).2, log } l where
  evolves := h.evolves.trans (s.store.exec_evolves clk hkeeps)
  backend := (s.store.exec_backend clk op).trans h.backend
  leased := by
    intro i t hi
    obtain ⟨r, hr, hdescribed⟩ := h.leased i t hi
    obtain ⟨r', hr', hlater⟩ := (s.store.exec_evolves clk hkeeps).forward hr
    exact ⟨r', hr', hlater.described.trans hdescribed⟩
  ended := hended

/-- What a worker learns: its lease is on the row it was told. -/
theorem Unscheduled.update (h : Unscheduled pf W s₀ s l) {i : WorkerId} {x : Option TaskRecord}
    (hx : ∀ t, x = some t → ∃ r, s.store.task? t.taskId = some r ∧ r.described = t.described) :
    Unscheduled pf W s₀ s (Function.update l i x) := by
  refine ⟨h.evolves, h.backend, fun j t hj => ?_, h.ended⟩
  by_cases hji : j = i
  · rw [hji, Function.update_self] at hj
    exact hx t hj
  · rw [Function.update_of_ne hji] at hj
    exact h.leased j t hj

end Invariant

/-! ## Runs -/

section Runs

variable {pf : Platform} {W : Workload} {s : StateStore} {p q : FleetState} {id : TaskId}
  {r r' : TaskRecord}

end Runs

/-! ## One worker, or two -/

end FineTuneHarness
