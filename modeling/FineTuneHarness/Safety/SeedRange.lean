import FineTuneHarness.Executor.Ending
import FineTuneHarness.Executor.HandlerCalls
import FineTuneHarness.Safety.CreateRun

/-!
# Which seeds can be used

`validate_run_config` accepts every integer as a seed. Three consumers follow, each with a range
of its own: the integer column of SQLite, `np.random.seed`, and `run_once`, which applies the
seed between the mark and the handler call, outside its `try`.
-/
namespace FineTuneHarness

open Library Library.Program

/-! ## The seed in the store -/

/-- `create_run` stores the run, and `get_run` returns it with the seed. -/
def KeepsSeed (s : StateStore) (run : RunRecord) (seed : Int) : Prop :=
  ∀ clk clk', ∃ s' kept, s.exec (.createRun run) clk = (.ok (), s') ∧
    (s'.exec (.getRun run.runId) clk').1 = .ok (some kept) ∧ kept.seed = some seed

theorem integerColumn_isOk {seed : Int} :
    (Sqlite.integerColumn (some seed)).isOk = true ↔ -2 ^ 63 ≤ seed ∧ seed < 2 ^ 63 := by
  rw [Sqlite.integerColumn]
  split
  next h => exact iff_of_true rfl h
  next h => exact iff_of_false Bool.false_ne_true h

theorem acceptsRun_seed {s : StateStore} {run : RunRecord} {seed : Int} (hs : s.backend = .sqlite)
    (hhashes : run.datasetHashes = datasetHashesOf run.config) (hseed : run.seed = some seed) :
    s.acceptsRun run = true ↔
      (run.config.throughJson.isOk = true ∧ run.envSnapshot.throughJson.isOk = true) ∧
        -2 ^ 63 ≤ seed ∧ seed < 2 ^ 63 := by
  have hdata : run.config.throughJson.isOk = true →
      run.datasetHashes.throughJson.isOk = true := fun h => hhashes ▸ throughJson_datasetHashesOf h
  rw [StateStore.acceptsRun, hs, hseed]
  simp only [Bool.and_eq_true, integerColumn_isOk]
  constructor
  · intro h
    obtain ⟨⟨⟨hconfig, henv⟩, -⟩, hfit⟩ := h
    exact ⟨⟨hconfig, henv⟩, hfit⟩
  · intro h
    obtain ⟨⟨hconfig, henv⟩, hfit⟩ := h
    exact ⟨⟨⟨hconfig, henv⟩, hdata hconfig⟩, hfit⟩

/-- SQLite keeps the seeds of a signed 64-bit word, of a run it can write at all. -/
theorem keepsSeed_iff {s : StateStore} {run : RunRecord} {seed : Int} (hs : s.backend = .sqlite)
    (hhashes : run.datasetHashes = datasetHashesOf run.config) (hseed : run.seed = some seed)
    (hnew : s.run? run.runId = none) :
    KeepsSeed s run seed ↔
      (run.config.throughJson.isOk = true ∧ run.envSnapshot.throughJson.isOk = true) ∧
        -2 ^ 63 ≤ seed ∧ seed < 2 ^ 63 := by
  rw [← acceptsRun_seed hs hhashes hseed]
  constructor
  · intro h
    obtain ⟨s', -, hx, -⟩ := h ⟨0, 0⟩ ⟨0, 0⟩
    rw [← s.createRun_isOk ⟨0, 0⟩ hnew, hx]
    rfl
  · intro h clk clk'
    rcases s.createRun_cases clk run with ⟨kept, hid, hx, hrun, -, hkept, -⟩ | ⟨e, hx⟩
    · refine ⟨_, kept, hx, ?_, hkept.trans hseed⟩
      rw [StateStore.exec_getRun, StateStore.addRun_run?, if_pos hrun.symm]
    · rw [← s.createRun_isOk clk hnew, hx] at h
      cases h

/-! ## The seed on the way to the handler -/

/-- However the program ends, it has called the handler with the task exactly if `c` holds. -/
def Calls {α : Type} (ans : Answers) (id : TaskId) (c : Prop) (p : Prog α) (l : Ledger) : Prop :=
  p.wp (alone (.exactly ans)) (fun _ l' => id ∈ l'.calls ↔ c) (fun _ l' => id ∈ l'.calls ↔ c) l

section Calls

variable {ans : Answers} {id : TaskId} {c : Prop} {l : Ledger}

/-- Requests that do not go to the handler. -/
theorem calls_unhandled {α : Type} {p : Prog α} (hp : p.Only Unhandled) (h : id ∈ l.calls ↔ c) :
    Calls ans id c p l := by
  refine wp_keep_of_only (I := fun l : Ledger => id ∈ l.calls ↔ c) hp (fun l e hI he => ?_) h
  refine ⟨alone_may (fun h => False.elim h) l e, fun r l' hl => ?_⟩
  cases e with
  | store op =>
    rw [show l'.calls = l.calls from hl.1]
    exact hI
  | ext x =>
    obtain ⟨-, rfl⟩ := hl
    have hx : x.handles = [] := by
      cases x <;> first | rfl | cases he
    rw [hx]
    exact hI

end Calls

namespace LocalWorker

variable (pf : Platform) (w : LocalWorker) {ans : Answers} {s s' : StateStore} {cs : List TaskId}
  {runId : RunId} {t row : TaskRecord} {a : Attempt}

/-- From the seed on: the handler is called if the seed is applied and the deadline can be read. -/
theorem calls_prepared (seed : Option Int) (hs : s'.run? a.runId ≠ none)
    (ht : s'.task? a.task.taskId ≠ none) (hcs : a.task.taskId ∉ cs) :
    Calls ans a.task.taskId
      ((∀ i, seed = some i → (applySeed pf i).isOk = true) ∧
        (w.resolveTimeout (w.hooks.applied ans.ext (.beforeTask a.task)).payload).isOk = true)
      (do
        let (payload, timeout) ← w.prepare pf seed a
        let run ← execute { a.task with payload } timeout
        w.finish pf a run) ⟨s', cs⟩ := by
  refine (wp_bind _ _).mpr ((wp_bind _ _).mpr (alone_seedAttempt pf (fun hseed => ?_)
    fun hseed e => iff_of_false hcs fun hc => hseed hc.1))
  refine (wp_bind _ _).mpr (alone_fire_applied ((wp_bind _ _).mpr
    (w.alone_hookFired hs ht fun e _ => (wp_bind _ _).mpr ?_)))
  rw [wp_ofExcept]
  cases w.resolveTimeout (w.hooks.applied ans.ext (.beforeTask a.task)).payload with
  | error e => exact iff_of_false hcs fun hc => by cases hc.2
  | ok timeout =>
    have hcalled : a.task.taskId ∈ a.task.taskId :: cs := List.mem_cons_self ..
    refine (wp_bind _ _).mpr ?_
    cases timeout with
    | none =>
      refine alone_ask.mpr fun run _ => ?_
      exact calls_unhandled (w.unhandled_finish pf a run) (iff_of_true hcalled ⟨hseed, rfl⟩)
    | some seconds =>
      refine (wp_bind _ _).mpr (alone_ask.mpr fun run _ => ?_)
      exact calls_unhandled (w.unhandled_finish pf a _) (iff_of_true hcalled ⟨hseed, rfl⟩)

/-- **Which leased tasks reach the handler**: those of a run that can be refreshed, with a seed
that is applied and a deadline that can be read. -/
theorem calls_runOnce {r : RunRecord} (mem : RunMemory) (hr : s.run? runId = some r)
    (ht : s.nextLeaseable runId ans.clock.now = some t) (hcs : t.taskId ∉ cs) :
    Calls ans t.taskId
      (r.status.canReach (begunStatus (s.tasksOf runId)) = true ∧
        (∀ i, seedFor s runId mem = some i → (applySeed pf i).isOk = true) ∧
        (w.resolveTimeout (w.hooks.applied ans.ext (.beforeTask
          (t.leaseTo w.workerId (leaseUntil ans.clock.later leaseSeconds)))).payload).isOk = true)
      (w.runOnce pf mem runId) ⟨s, cs⟩ := by
  obtain ⟨hrow, hrun, hfree⟩ := s.nextLeaseable_some ht
  have hst := StateStore.leaseable_status hfree
  refine (wp_bind _ _).mpr (w.alone_startRun (fun h => h.elim) fun mem' _ hseed => ?_)
  rw [hseed]
  refine (wp_bind _ _).mpr ((wp_attempt _).mpr ((wp_bind _ _).mpr (alone_call fun clk hclk => ?_)))
  obtain rfl : clk = ans.clock := hclk
  rw [s.exec_leaseNextPendingTask, ht]
  refine (wp_bind _ _).mpr ((wp_bind _ _).mpr ?_)
  cases hreach : r.status.canReach (begunStatus (s.tasksOf runId)) with
  | false =>
    refine w.alone_beginAttempt_stuck hrow hrun hst id hr hreach fun e x _ => ?_
    exact iff_of_false hcs fun hc => by cases hc.1
  | true =>
    refine w.alone_beginAttempt hrow hrun hst hr hreach fun s1 h1 => ?_
    refine wp_mono (w.calls_prepared pf (seedFor s runId mem) h1.known.1 h1.known.2 hcs) ?_ ?_
    · intro _ l hl
      exact hl.trans ⟨fun hc => ⟨rfl, hc⟩, fun hc => hc.2⟩
    · intro _ l hl
      exact hl.trans ⟨fun hc => ⟨rfl, hc⟩, fun hc => hc.2⟩

/-- `run_once` calls the handler with the task. -/
def ReachesHandler (mem : RunMemory) (runId : RunId) (ans : Answers) (s : StateStore)
    (id : TaskId) : Prop :=
  id ∈ ((w.runOnce pf mem runId).run (Session.exec fun _ => ans)
    { ledger := { store := s } }).2.ledger.calls

theorem reachesHandler_iff {r : RunRecord} (mem : RunMemory) (hr : s.run? runId = some r)
    (ht : s.nextLeaseable runId ans.clock.now = some t) :
    w.ReachesHandler pf mem runId ans s t.taskId ↔
      r.status.canReach (begunStatus (s.tasksOf runId)) = true ∧
        (∀ i, seedFor s runId mem = some i → (applySeed pf i).isOk = true) ∧
        (w.resolveTimeout (w.hooks.applied ans.ext (.beforeTask
          (t.leaseTo w.workerId (leaseUntil ans.clock.later leaseSeconds)))).payload).isOk = true := by
  have hcalls := w.calls_runOnce pf mem hr ht (List.not_mem_nil (a := t.taskId))
  have hrun := Session.run_of_wp (s := { ledger := { store := s } }) hcalls
    fun _ => Admits.exactly_meets ans
  unfold ReachesHandler
  generalize (w.runOnce pf mem runId).run (Session.exec fun _ => ans) { ledger := { store := s } } =
    out at hrun ⊢
  obtain ⟨res, σ⟩ := out
  cases res with
  | ok _ => exact hrun
  | error _ => exact hrun

end LocalWorker

/-! ## From the config to the handler -/

/-- Where numpy imports, its generator decides. -/
theorem applySeed_isOk {pf : Platform} (hnumpy : pf.numpy = true) {seed : Int} :
    (applySeed pf seed).isOk = true ↔ 0 ≤ seed ∧ seed < 2 ^ 32 := by
  by_cases h : 0 ≤ seed ∧ seed < 2 ^ 32
  · have htorch : ¬ (pf.torch = true ∧ ¬ (-2 ^ 63 ≤ seed ∧ seed < 2 ^ 64)) := by omega
    rw [applySeed, if_neg (fun hc => hc.2 h), if_neg htorch]
    exact iff_of_true rfl h
  · rw [applySeed, if_pos ⟨hnumpy, h⟩]
    exact iff_of_false Bool.false_ne_true h

/-- The seed is stored and read back, `apply_seed` takes it, and `run_once` brings the leased
task to its handler. -/
def SeedUsable (pf : Platform) (w : LocalWorker) (mem : RunMemory) (ans : Answers)
    (created : StateStore) (run : RunRecord) (seed : Int) (s : StateStore) (id : TaskId) : Prop :=
  KeepsSeed created run seed ∧ (applySeed pf seed).isOk = true ∧
    w.ReachesHandler pf mem run.runId ans s id

/-- **An accepted seed is usable** exactly from 0 to `2 ^ 32 - 1`, in a run that can be written
and refreshed and for a task whose deadline can be read. -/
theorem accepted_seed_usable_iff {pf : Platform} (hnumpy : pf.numpy = true) {config : Dict}
    {seed : Int} (accepted : validateRunConfig pf config = .ok seed) {s₀ : StateStore}
    {run : RunRecord} (hsqlite : s₀.backend = .sqlite) (hcreated : CreationRecord config run)
    (hseed : run.seed = (validateRunConfig pf config).toOption) (hnew : s₀.run? run.runId = none)
    (w : LocalWorker) (mem : RunMemory) (ans : Answers) {s : StateStore} {r : RunRecord}
    {t : TaskRecord} (hr : s.run? run.runId = some r)
    (hsame : LocalWorker.seedFor s run.runId mem = run.seed)
    (ht : s.nextLeaseable run.runId ans.clock.now = some t) :
    SeedUsable pf w mem ans s₀ run seed s t.taskId ↔
      (0 ≤ seed ∧ seed < 2 ^ 32) ∧
      (config.throughJson.isOk = true ∧ run.envSnapshot.throughJson.isOk = true) ∧
      r.status.canReach (begunStatus (s.tasksOf run.runId)) = true ∧
      (w.resolveTimeout (w.hooks.applied ans.ext (.beforeTask
        (t.leaseTo w.workerId (leaseUntil ans.clock.later
          LocalWorker.leaseSeconds)))).payload).isOk = true := by
  rw [accepted] at hseed
  have hkeep := keepsSeed_iff hsqlite (hcreated.given ▸ hcreated.hashes) hseed hnew
  have happly := @applySeed_isOk pf hnumpy seed
  have hall : (∀ i, LocalWorker.seedFor s run.runId mem = some i → (applySeed pf i).isOk = true) ↔
      0 ≤ seed ∧ seed < 2 ^ 32 := by
    rw [← happly, hsame, hseed]
    exact ⟨fun h => h seed rfl, fun h i hi => Option.some.inj hi ▸ h⟩
  rw [hcreated.given] at hkeep
  rw [SeedUsable, hkeep, happly, w.reachesHandler_iff pf mem hr ht, hall]
  constructor
  · intro ⟨⟨hjson, _⟩, hrange, hreach, _, hdeadline⟩
    exact ⟨hrange, hjson, hreach, hdeadline⟩
  · intro ⟨hrange, hjson, hreach, hdeadline⟩
    exact ⟨⟨hjson, by omega⟩, hrange, hreach, hrange, hdeadline⟩

/-! ## Seeds on both sides of the bound -/

/-- A machine on which only numpy imports. -/
def numpyOnly : Platform := { Platform.bare with numpy := true }

def seededConfig (seed : Int) : Dict := demoConfig.set "seed" (.int seed)

/-- The record of a run with the seed. -/
def seededRun (seed : Int) : RunRecord where
  runId := "r"
  name := "demo"
  status := .created
  config := seededConfig seed
  createdAt := 0
  seed := some seed
  datasetHashes := datasetHashesOf (seededConfig seed)

/-- The run with one pending task. -/
def seededStore (seed : Int) : StateStore where
  backend := .sqlite
  tables := {
    runs := ⟨[{ seededRun seed with status := .validated }], List.nodup_singleton _⟩
    tasks := ⟨[pendingTask "a" []], List.nodup_singleton _⟩
    events := []
    artifacts := [] }

/-- The largest seed numpy takes. -/
theorem accepted_seed_usable_largest :
    SeedUsable numpyOnly { workerId := "A" } [] (.steady 0 (.ok (.dict []))) (.empty .sqlite)
      (seededRun (2 ^ 32 - 1)) (2 ^ 32 - 1) (seededStore (2 ^ 32 - 1)) "a" := by
  have haccepted : validateRunConfig numpyOnly (seededConfig (2 ^ 32 - 1)) = .ok (2 ^ 32 - 1) := by
    decide +kernel
  have hcreated : CreationRecord (seededConfig (2 ^ 32 - 1)) (seededRun (2 ^ 32 - 1)) :=
    ⟨rfl, rfl, rfl, rfl⟩
  have hnext : (seededStore (2 ^ 32 - 1)).nextLeaseable "r" 0 = some (pendingTask "a" []) := rfl
  exact (accepted_seed_usable_iff rfl haccepted rfl hcreated (by rw [haccepted]; rfl) rfl
    { workerId := "A" } [] (.steady 0 (.ok (.dict []))) (s := seededStore (2 ^ 32 - 1))
    rfl rfl hnext).mpr (by decide +kernel)

/-- **Accepted, and of no use.** numpy refuses -1 and `2 ^ 32` when the task is already marked
running, and SQLite refuses `2 ^ 63`. -/
theorem accepted_seed_not_usable :
    (∀ seed ∈ [-1, 2 ^ 32, 2 ^ 63], validateRunConfig numpyOnly (seededConfig seed) = .ok seed) ∧
    (∀ seed ∈ [-1, 2 ^ 32], (applySeed numpyOnly seed).isOk = false ∧
      ¬ LocalWorker.ReachesHandler numpyOnly { workerId := "A" } [] "r"
        (.steady 0 (.ok (.dict []))) (seededStore seed) "a" ∧
      ((LocalWorker.runOnce numpyOnly { workerId := "A" } [] "r").run
        (Session.exec fun _ => .steady 0 (.ok (.dict [])))
        { ledger := { store := seededStore seed } }).2.ledger.store.statusOf "a" = some .running) ∧
    ¬ KeepsSeed (.empty .sqlite) (seededRun (2 ^ 63)) (2 ^ 63) := by
  refine ⟨by decide +kernel, fun seed hseed => ?_, fun h => ?_⟩
  · refine ⟨?_, ?_, ?_⟩
    · revert seed
      decide +kernel
    · revert seed
      unfold LocalWorker.ReachesHandler
      decide +kernel
    · revert seed
      decide +kernel
  · obtain ⟨s', -, hx, -⟩ := h ⟨0, 0⟩ ⟨0, 0⟩
    have hraises : ((StateStore.empty .sqlite).exec (.createRun (seededRun (2 ^ 63)))
        ⟨0, 0⟩).1.isOk = false := by decide +kernel
    rw [hx] at hraises
    cases hraises

end FineTuneHarness
