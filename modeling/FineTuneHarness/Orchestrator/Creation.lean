import FineTuneHarness.Orchestrator.Refresh

/-!
# What `create_run` leaves behind

A run that `create_run` returns is `VALIDATED`, carries the checked seed and has one
`PENDING` task that nobody has attempted for each payload.
-/
namespace FineTuneHarness

open Library Library.Program

/-- The tasks of the run have not been touched. -/
def Untouched (s : StateStore) (runId : RunId) : Prop :=
  ∀ t ∈ s.tasksOf runId, t.status = .pending ∧ t.attemptCount = 0

/-- A validated run with `n` untouched tasks. -/
structure FreshRun (runId : RunId) (seed : Option Int) (n : Nat) (s : StateStore) : Prop where
  run : ∃ r, s.run? runId = some r ∧ r.status = .validated ∧ r.seed = seed
  untouched : Untouched s runId
  count : (s.tasksOf runId).length = n

namespace FreshRun

variable {runId : RunId} {seed : Option Int} {n : Nat} {s s' : StateStore}

theorem addTask (hf : FreshRun runId seed n s) {t : TaskRecord}
    {h : t.taskId ∉ s.tables.tasks.rows.map (·.taskId)} (hr : t.runId = runId)
    (hs : t.status = .pending) (ha : t.attemptCount = 0) :
    FreshRun runId seed (n + 1) (s.addTask t h) := by
  subst hr
  refine ⟨hf.run, fun t' ht' => ?_, ?_⟩
  · rcases List.mem_cons.mp (s.tasksOf_addTask.mem_iff.mp ht') with rfl | hm
    · exact ⟨hs, ha⟩
    · exact hf.untouched t' hm
  · rw [s.tasksOf_addTask.length_eq, List.length_cons, hf.count]

theorem addEvents (hf : FreshRun runId seed n s) (es : List EventRecord) :
    FreshRun runId seed n (s.addEvents es) := ⟨hf.run, hf.untouched, hf.count⟩

end FreshRun

section Alone

variable {ok : Admits} {runId : RunId} {seed : Option Int} {c : List TaskId}

/-- Whatever happens to it, the event is appended or the call raises. -/
theorem alone_appendEvent_any {s : StateStore} {e : EventRecord} {Q : Unit → Ledger → Prop}
    (h : ∀ e' : EventRecord, e'.runId = e.runId → e'.taskId = e.taskId → e'.kind = e.kind →
      Q () ⟨s.addEvents [e'], c⟩) :
    (call (.appendEvent e)).wp (alone ok) Q (fun _ _ => True) ⟨s, c⟩ := by
  refine alone_call fun clk _ => ?_
  rw [s.exec_appendEvent]
  cases he : s.keepEvent e with
  | error x => trivial
  | ok e' =>
    obtain ⟨h1, h2, h3⟩ := s.keepEvent_ok he
    exact h e' h1 h2 h3

theorem alone_createTasks (payloads : List Dict) (index : Nat) {n : Nat} {s : StateStore}
    (hf : FreshRun runId seed n s) :
    (createTasks runId payloads index).wp (alone ok)
      (fun _ l => FreshRun runId seed (n + payloads.length) l.store) (fun _ _ => True) ⟨s, c⟩ := by
  induction payloads generalizing index n s c with
  | nil => exact hf
  | cons payload rest ih =>
    refine (wp_bind _ _).mpr (alone_ask.mpr fun taskId _ => (wp_bind _ _).mpr ?_)
    rw [wp_ofExcept]
    cases taskKeyOf payload index with
    | error e => trivial
    | ok taskKey =>
      refine (wp_bind _ _).mpr (alone_call fun clk _ => ?_)
      rcases s.createTask_cases clk { taskId, runId, taskKey, status := .pending, payload } with
        ⟨payload', result, h, hx⟩ | ⟨e, hx⟩ <;> rw [hx]
      · refine (wp_bind _ _).mpr (alone_appendEvent_any fun e _ _ _ => ?_)
        have hcount : n + (payload :: rest).length = n + 1 + rest.length := by
          rw [List.length_cons]; omega
        rw [hcount]
        exact ih (index + 1) ((hf.addTask rfl rfl rfl).addEvents [e])
      · trivial

/-- The record `create_run` hands to the store. -/
structure CreationRecord (config : Dict) (record : RunRecord) : Prop where
  status : record.status = .created
  given : record.config = config
  hashes : record.datasetHashes = datasetHashesOf config
  unfinished : record.finishedAt = none

/-- `create_run` up to its tasks: the record is stored and the run moved to `VALIDATED`. -/
structure RunBegun (config : Dict) (seed : Int) (s s' : StateStore) (runId : RunId) : Prop where
  stored : ∃ record clk r h, s.exec (.createRun record) clk = (.ok (), s.addRun r h) ∧
    CreationRecord config record ∧ record.runId = runId ∧ r.runId = runId ∧
    r.seed = some seed ∧ s'.run? runId = some (r.setStatus .validated)
  tasks : s'.tables.tasks = s.tables.tasks
  events : ∃ es, s'.events = s.events ++ es ∧ ∀ e ∈ es, e.taskId = none

theorem RunBegun.tasksOf {config : Dict} {seed : Int} {s s' : StateStore} {runId : RunId}
    (h : RunBegun config seed s s' runId) (id : RunId) : s'.tasksOf id = s.tasksOf id := by
  unfold StateStore.tasksOf
  rw [h.tasks]

/-- The run carries the hash of the config. -/
def CarriesHash (pf : Platform) (config : Dict) (s : StateStore) (runId : RunId) : Prop :=
  ∃ r hash, s.run? runId = some r ∧ canonicalJsonHash pf config = .ok hash ∧
    r.configHash = some hash

/-- **What `create_run` does before it creates the tasks.** -/
theorem alone_createRun_begun (pf : Platform) (name : String) (config : Dict)
    (payloads : List Dict) (s : StateStore) {Q : RunId → Ledger → Prop}
    (hq : ∀ seed runId s', validateRunConfig pf config = .ok seed →
      RunBegun config seed s s' runId → CarriesHash pf config s' runId →
      (createTasks runId payloads 0).wp (alone ok) (fun _ => Q runId) (fun _ _ => True) ⟨s', c⟩) :
    (createRun pf name config payloads).wp (alone ok) Q (fun _ _ => True) ⟨s, c⟩ := by
  refine (wp_bind _ _).mpr ?_
  rw [wp_ofExcept]
  cases hv : validateRunConfig pf config with
  | error e => trivial
  | ok seed =>
  refine (wp_bind _ _).mpr (alone_ask.mpr fun runId _ => (wp_bind _ _).mpr ?_)
  rw [wp_ofExcept]
  cases hc : canonicalJsonHash pf config with
  | error e => trivial
  | ok hash =>
  refine (wp_bind _ _).mpr (alone_ask.mpr fun now _ => (wp_bind _ _).mpr
    (alone_ask.mpr fun env _ => (wp_bind _ _).mpr (alone_call (fun clk _ => ?_))))
  generalize hrecord : ({
    runId, name, status := .created, config, createdAt := now, envSnapshot := env
    seed := some seed, datasetHashes := datasetHashesOf config
    configHash := some hash } : RunRecord) = record
  have hcreation : CreationRecord config record := by
    subst hrecord
    exact ⟨rfl, rfl, rfl, rfl⟩
  have hid : record.runId = runId := by
    subst hrecord
    rfl
  have hseed : record.seed = some seed := by
    subst hrecord
    rfl
  have hhash : record.configHash = some hash := by
    subst hrecord
    rfl
  rcases s.createRun_cases clk record with ⟨r, h, hx, hrid, -, hrseed, -, hrhash⟩ | ⟨e, hx⟩ <;>
    rw [hx]
  swap; · trivial
  have hr : (s.addRun r h).run? runId = some r := by
    rw [StateStore.addRun_run?, if_pos (hrid.trans hid).symm]
  refine (wp_bind _ _).mpr (alone_appendEvent_any fun e _ he _ => (wp_bind _ _).mpr ?_)
  rw [wp_ofExcept]
  change Program.wp _ _ _ _ _
  refine (wp_bind _ _).mpr (alone_updateRunStatus (((s.addRun r h).addEvents_run? [e]).trans hr)
    ((wp_bind _ _).mpr (alone_appendEvent_any fun e' _ he' _ => (wp_bind _ _).mpr ?_)))
  refine hq seed runId _ hv {
    stored := ⟨record, clk, r, h, hx, hcreation, hid, hrid.trans hid, hrseed.trans hseed, ?_⟩
    tasks := rfl
    events := ⟨[e] ++ [e'], List.append_assoc _ _ _, ?_⟩ }
    ⟨r.setStatus .validated, hash, ?_, hc, hrhash.trans hhash⟩
  · rw [StateStore.addEvents_run?, StateStore.modifyRun_run?_self, StateStore.addEvents_run?, hr]
    rfl
  · intro x hx
    rcases List.mem_append.mp hx with hx | hx
    · rw [List.mem_singleton.mp hx]
      exact he
    · rw [List.mem_singleton.mp hx]
      exact he'
  · rw [StateStore.addEvents_run?, StateStore.modifyRun_run?_self, StateStore.addEvents_run?, hr]
    rfl

/-- **A created run is fresh**, if there was no task under its id. -/
theorem alone_createRun (pf : Platform) (name : String) (config : Dict) (payloads : List Dict)
    (s : StateStore) (hok : ¬ ok.refreshable) :
    (createRun pf name config payloads).wp (alone ok)
      (fun runId l => s.tasksOf runId = [] → ∃ seed, validateRunConfig pf config = .ok seed ∧
        FreshRun runId (some seed) payloads.length l.store) (fun _ _ => True) ⟨s, c⟩ := by
  refine alone_createRun_begun pf name config payloads s fun seed runId s' hv hb _ => ?_
  by_cases hnone : s.tasksOf runId = []
  · have hfresh : FreshRun runId (some seed) 0 s' := by
      obtain ⟨-, -, r, -, -, -, -, -, hseed, hr⟩ := hb.stored
      refine ⟨⟨r.setStatus .validated, hr, rfl, hseed⟩, fun t ht => ?_, ?_⟩
      · rw [hb.tasksOf, hnone] at ht
        cases ht
      · rw [hb.tasksOf, hnone]
        rfl
    refine wp_mono (alone_createTasks payloads 0 hfresh) (fun _ l' hl => ?_) fun _ _ _ => trivial
    intro _
    rw [Nat.zero_add] at hl
    exact ⟨seed, hv, hl⟩
  · refine wp_mono (Q := fun _ _ => True) (E := fun _ _ => True) ?_ (fun _ _ _ hn =>
      absurd hn hnone) fun _ _ _ => trivial
    exact wp_trivial (alone_may hok)

/-- Requests that leave the rows of the runs alone. -/
def keepsRuns : Effect → Prop
  | .ext _ | .store (.createTask _) | .store (.appendEvent _) => True
  | _ => False

/-- The requests `create_run` makes for its tasks. -/
def createsTasks : Effect → Prop
  | .ext _ | .store (.createTask _) => True
  | .store (.appendEvent e) => e.kind = "task_created"
  | _ => False

theorem createTasks_only (payloads : List Dict) (index : Nat) :
    (createTasks runId payloads index).Only createsTasks := by
  induction payloads generalizing index with
  | nil => trivial
  | cons payload rest ih =>
    refine (wp_bind _ _).mpr ⟨trivial, fun taskId _ _ => (wp_bind _ _).mpr ?_⟩
    rw [wp_ofExcept]
    cases taskKeyOf payload index with
    | error e => trivial
    | ok key =>
      refine (wp_bind _ _).mpr (wp_call.mpr ⟨trivial, fun r _ _ => ?_⟩)
      cases r with
      | error e => trivial
      | ok _ =>
        refine (wp_bind _ _).mpr (wp_call.mpr ⟨rfl, fun r _ _ => ?_⟩)
        cases r with
        | error e => trivial
        | ok _ => exact ih (index + 1)

theorem only_createTasks (payloads : List Dict) (index : Nat) :
    (createTasks runId payloads index).Only keepsRuns :=
  (createTasks_only payloads index).mono fun e he => by
    cases e with
    | ext x => trivial
    | store op => cases op <;> first | exact he.elim | trivial

theorem exec_keepsRuns {s : StateStore} {op : StoreOp} (h : keepsRuns (.store op)) (clk : Clock)
    (id : RunId) : (s.exec op clk).2.run? id = s.run? id := by
  cases op with
  | createTask t =>
    rcases s.createTask_cases clk t with ⟨p, r, hid, hx⟩ | ⟨e, hx⟩ <;> rw [hx]
    exact s.addTask_run?
  | appendEvent e =>
    rw [s.exec_appendEvent]
    split <;> rfl
  | _ => exact h.elim

theorem alone_keepsRuns (hok : ¬ ok.refreshable) {α : Type} {p : Prog α} (hp : p.Only keepsRuns)
    {id : RunId} {r : Option RunRecord} {l : Ledger} (h : l.store.run? id = r) :
    p.wp (alone ok) (fun _ l => l.store.run? id = r) (fun _ l => l.store.run? id = r) l := by
  refine wp_keep_of_only (I := fun l : Ledger => l.store.run? id = r) hp (fun l e hl he => ?_) h
  refine ⟨alone_may hok l e, fun reply l' hlearn => ?_⟩
  cases e with
  | store op =>
    obtain ⟨-, clk, -, hx⟩ := hlearn
    have hkeep := exec_keepsRuns (s := l.store) he clk id
    rw [hx] at hkeep
    exact hkeep.trans hl
  | ext x =>
    obtain ⟨-, rfl⟩ := hlearn
    exact hl

/-- **The row of a created run** is the stored record, moved to `VALIDATED`. -/
theorem alone_createRun_stores (pf : Platform) (name : String) (config : Dict)
    (payloads : List Dict) (l : Ledger) (hok : ¬ ok.refreshable) :
    (createRun pf name config payloads).wp (alone ok)
      (fun runId l' => (∃ seed, validateRunConfig pf config = .ok seed) ∧
        ∃ record clk s', l.store.exec (.createRun record) clk = (.ok (), s') ∧
          CreationRecord config record ∧ record.runId = runId ∧
          ∀ r, s'.run? runId = some r → l'.store.run? runId = some (r.setStatus .validated))
      (fun _ _ => True) l := by
  obtain ⟨s, c⟩ := l
  refine alone_createRun_begun pf name config payloads s fun seed runId s' hv hb _ => ?_
  obtain ⟨record, clk, r, h, hx, hcreation, hid, hrid, -, hr⟩ := hb.stored
  refine wp_mono (alone_keepsRuns hok (only_createTasks payloads 0) hr) (fun _ l' hl => ?_)
    fun _ _ _ => trivial
  refine ⟨⟨seed, hv⟩, record, clk, s.addRun r h, hx, hcreation, hid, fun r' hr' => ?_⟩
  rw [StateStore.addRun_run?, if_pos hrid.symm] at hr'
  obtain rfl := Option.some.inj hr'
  exact hl

/-- **A created run carries the hash of its config.** -/
theorem alone_createRun_hash (pf : Platform) (name : String) (config : Dict)
    (payloads : List Dict) (l : Ledger) (hok : ¬ ok.refreshable) :
    (createRun pf name config payloads).wp (alone ok)
      (fun runId l' => CarriesHash pf config l'.store runId) (fun _ _ => True) l := by
  obtain ⟨s, c⟩ := l
  apply alone_createRun_begun pf name config payloads s
  intro seed runId s' _ _ hhash
  obtain ⟨r, hash, hr, hconfig, hcarries⟩ := hhash
  apply wp_mono (alone_keepsRuns hok (only_createTasks payloads 0) hr)
  · intro _ l' hl
    exact ⟨r, hash, hl, hconfig, hcarries⟩
  · intro _ _ _
    trivial

end Alone

/-! ## A small run to replay -/

/-- The least config that `validate_run_config` accepts. -/
def demoConfig : Dict :=
  Dict.ofList [("project", .dict (Dict.ofList [("name", .str "demo")])),
    ("executor", .dict []), ("artifacts", .dict (Dict.ofList [("root", .str "out")])),
    ("seed", .int 42), ("dataset_hash", .str "sha256:demo")]

/-- Identifiers are request numbers; the clock stands at `now`. -/
def Answers.numbered (now : Instant) (n : Nat) : Answers where
  clock := ⟨now, now⟩
  ext
    | .uuid4 => toString n
    | x => (Answers.steady now (.ok .none)).ext x

def StateStore.empty (backend : Backend) : StateStore where
  backend := backend
  tables := { runs := .empty, tasks := .empty, events := [], artifacts := [] }

/-- `create_run` with one payload after the other, on an empty store. -/
def demoRun (pf : Platform) (backend : Backend) (payloads : List Dict) :
    Except PyExc RunId × Session :=
  (createRun pf "demo" demoConfig payloads).run (Session.exec (Answers.numbered 0))
    ⟨⟨.empty backend, []⟩, 0⟩

theorem demoRun_eq {pf : Platform} {backend : Backend} {payloads : List Dict} {id : RunId}
    (h : (demoRun pf backend payloads).1.toOption = some id) :
    demoRun pf backend payloads = (.ok id, (demoRun pf backend payloads).2) := by
  generalize demoRun pf backend payloads = out at h
  obtain ⟨r, σ⟩ := out
  cases r with
  | error e => cases h
  | ok id' => rw [Option.some.inj h]

end FineTuneHarness
