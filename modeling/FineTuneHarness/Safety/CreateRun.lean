import FineTuneHarness.Orchestrator.Creation

/-!
# `create_run`, whole or not at all

`create_run` is a row of separate transactions. The run is inserted before the first task, so
from then on an exception leaves something behind; what can raise there is a task key that
the run already has.
-/
namespace FineTuneHarness

open Library Library.Program

/-! ## One environment, request by request -/

/-- The party whose `n`-th request is answered by `env n`. -/
def session (env : Nat → Answers) : Protocol Effect Effect.Reply Session where
  may _ _ := True
  learns σ e r σ' := Session.exec env e σ = (r, σ')

section Rules

variable {env : Nat → Answers} {s : StateStore} {c : List TaskId} {n : Nat}
  {E : PyExc → Session → Prop}

theorem session_call {op : StoreOp} {Q : op.Reply → Session → Prop}
    (h : match (s.exec op (env n).clock).1 with
      | .ok a => Q a ⟨⟨(s.exec op (env n).clock).2, c⟩, n + 1⟩
      | .error e => E e ⟨⟨(s.exec op (env n).clock).2, c⟩, n + 1⟩) :
    (call op).wp (session env) Q E ⟨⟨s, c⟩, n⟩ := by
  refine wp_call.mpr ⟨trivial, fun r σ' hl => ?_⟩
  obtain ⟨rfl, rfl⟩ := Prod.mk.inj (show _ = (r, σ') from hl)
  exact h

theorem session_ask {x : Ext} {Q : x.Reply → Session → Prop}
    (h : Q ((env n).ext x) ⟨⟨s, x.handles ++ c⟩, n + 1⟩) :
    (ask x).wp (session env) Q E ⟨⟨s, c⟩, n⟩ := by
  refine wp_ask.mpr ⟨trivial, fun r σ' hl => ?_⟩
  obtain ⟨rfl, rfl⟩ := Prod.mk.inj (show _ = (r, σ') from hl)
  exact h

/-- An event of a known run and task with a writable payload is appended. -/
theorem session_appendEvent {e : EventRecord} {Q : Unit → Session → Prop}
    (hp : e.payload.throughJson.isOk = true) (hr : s.run? e.runId ≠ none)
    (ht : ∀ id, e.taskId = some id → s.task? id ≠ none)
    (h : ∀ es, Q () ⟨⟨s.addEvents es, c⟩, n + 1⟩) :
    (call (.appendEvent e)).wp (session env) Q E ⟨⟨s, c⟩, n⟩ := by
  obtain ⟨e', he⟩ := s.keepEvent_of hp hr ht
  refine session_call ?_
  rw [s.exec_appendEvent, he]
  exact h [e']

theorem session_record {runId : RunId} {taskId : Option TaskId} {kind : String}
    {payload : List (String × PyVal)} {Q : Unit → Session → Prop}
    (hp : payload.all (·.2.plain) = true) (hr : s.run? runId ≠ none)
    (ht : ∀ id, taskId = some id → s.task? id ≠ none)
    (h : ∀ es, Q () ⟨⟨s.addEvents es, c⟩, n + 1⟩) :
    (record runId taskId kind payload).wp (session env) Q E ⟨⟨s, c⟩, n⟩ :=
  session_appendEvent (Dict.throughJson_ofList hp) hr ht h

theorem session_updateRunStatus {id : RunId} {r : RunRecord} (hr : s.run? id = some r)
    {st : RunStatus} {Q : Unit → Session → Prop}
    (h : Q () ⟨⟨s.modifyRun id (·.setStatus st) (·.setStatus_runId _), c⟩, n + 1⟩) :
    (call (.updateRunStatus id st)).wp (session env) Q E ⟨⟨s, c⟩, n⟩ := by
  refine session_call ?_
  rw [s.exec_updateRunStatus _ hr]
  exact h

end Rules

/-! ## Identifiers and keys -/

/-- The identifier that request `n` would draw. -/
def mint (env : Nat → Answers) (n : Nat) : String := (env n).ext .uuid4

/-- `uuid4` never returns an identifier twice, nor one that the store knows. -/
structure MintsFresh (env : Nat → Answers) (s : StateStore) : Prop where
  distinct : ∀ m n, m ≠ n → mint env m ≠ mint env n
  noRun : ∀ n, s.run? (mint env n) = none
  noTask : ∀ n, s.task? (mint env n) = none
  noTasksOf : ∀ n, s.tasksOf (mint env n) = []

/-- A JSON object whose `task_key`, if it has one, is a string. -/
def isTaskPayload (payload : Dict) : Prop :=
  payload.throughJson.isOk = true ∧
    (payload.get? "task_key" = none ∨ ∃ k, payload.get? "task_key" = some (.str k))

/-- The explicit key of a payload, or the automatic one. -/
def taskKeyAt (payload : Dict) (index : Nat) : String :=
  match payload.get? "task_key" with
  | some (.str k) => k
  | _ => s!"task-{index}"

/-- The keys `create_run` gives to the tasks of a list of payloads. -/
def taskKeysFrom : Nat → List Dict → List String
  | _, [] => []
  | index, payload :: rest => taskKeyAt payload index :: taskKeysFrom (index + 1) rest

theorem taskKeyOf_payload {payload : Dict} (h : isTaskPayload payload) (index : Nat) :
    taskKeyOf payload index = .ok (taskKeyAt payload index) := by
  unfold taskKeyOf taskKeyAt
  rcases h.2 with hk | ⟨k, hk⟩ <;> rw [hk]

theorem length_taskKeysFrom (index : Nat) (payloads : List Dict) :
    (taskKeysFrom index payloads).length = payloads.length := by
  induction payloads generalizing index with
  | nil => rfl
  | cons payload rest ih => exact congrArg (· + 1) (ih (index + 1))

/-! ## The tasks, one transaction after the other -/

/-- The run is there with the tasks of `keys`, and the identifiers from `n` on are free. -/
structure Building (env : Nat → Answers) (runId : RunId) (keys : List String) (s : StateStore)
    (n : Nat) : Prop where
  run : ∃ r, s.run? runId = some r ∧ r.status = .validated
  free : ∀ m, n ≤ m → s.task? (mint env m) = none
  keys : ((s.tasksOf runId).map (·.taskKey)).Perm keys
  pending : ∀ t ∈ s.tasksOf runId, t.status = .pending

namespace Building

variable {env : Nat → Answers} {runId : RunId} {keys : List String} {s : StateStore} {n : Nat}

theorem addTask (hs : Building env runId keys s n)
    (hmint : ∀ m m', m ≠ m' → mint env m ≠ mint env m') {t : TaskRecord}
    {h : t.taskId ∉ s.tables.tasks.rows.map (·.taskId)} (hid : t.taskId = mint env n)
    (hrun : t.runId = runId) (hst : t.status = .pending) {k : Nat} (hk : n < k) :
    Building env runId (t.taskKey :: keys) (s.addTask t h) k := by
  subst hrun
  refine ⟨hs.run, fun m hm => ?_, ?_, fun t' ht' => ?_⟩
  · rw [s.addTask_task?, hid, if_neg (hmint m n (by omega))]
    exact hs.free m (by omega)
  · exact (s.tasksOf_addTask.map _).trans (hs.keys.cons _)
  · rcases List.mem_cons.mp (s.tasksOf_addTask.mem_iff.mp ht') with rfl | hm
    · exact hst
    · exact hs.pending t' hm

end Building

/-- **The loop of `create_run`.** It ends with a task for every key, or at a key the run
already has. -/
theorem session_createTasks {env : Nat → Answers} {runId : RunId}
    (hmint : ∀ m n, m ≠ n → mint env m ≠ mint env n) {payloads : List Dict}
    (hp : ∀ p ∈ payloads, isTaskPayload p) (index : Nat) {keys : List String} {s : StateStore}
    {c : List TaskId} {n : Nat} (hs : Building env runId keys s n) :
    (createTasks runId payloads index).wp (session env)
      (fun _ σ => Building env runId ((taskKeysFrom index payloads).reverse ++ keys)
        σ.ledger.store σ.requests)
      (fun _ σ => σ.ledger.store.run? runId ≠ none ∧
        ¬ ((taskKeysFrom index payloads).reverse ++ keys).Nodup) ⟨⟨s, c⟩, n⟩ := by
  induction payloads generalizing index keys s c n with
  | nil => exact hs
  | cons payload rest ih =>
    have hpay := hp payload List.mem_cons_self
    obtain ⟨r, hr, hst⟩ := hs.run
    have happend : (taskKeysFrom index (payload :: rest)).reverse ++ keys =
        (taskKeysFrom (index + 1) rest).reverse ++ (taskKeyAt payload index :: keys) := by
      simp [taskKeysFrom]
    rw [happend]
    refine (wp_bind _ _).mpr (session_ask ((wp_bind _ _).mpr ?_))
    rw [wp_ofExcept, taskKeyOf_payload hpay]
    refine (wp_bind _ _).mpr (session_call ?_)
    have hnone : s.task? (mint env n) = none := hs.free n le_rfl
    rcases s.createTask_cases (env (n + 1)).clock
        { taskId := mint env n, runId, taskKey := taskKeyAt payload index, status := .pending,
          payload } with ⟨payload', result, h, hx⟩ | ⟨e, hx⟩
    · rw [show (env n).ext .uuid4 = mint env n from rfl, hx]
      have hs' := hs.addTask hmint (h := h) rfl rfl rfl (Nat.lt_succ_of_lt (Nat.lt_succ_self n))
      refine (wp_bind _ _).mpr (session_appendEvent hpay.1 ?_ (fun id hid => ?_) fun es => ?_)
      · rw [StateStore.addTask_run?, hr]
        exact Option.some_ne_none r
      · rw [← Option.some.inj hid, StateStore.addTask_task?, if_pos rfl]
        exact Option.some_ne_none _
      · exact ih (fun p hp' => hp p (List.mem_cons_of_mem _ hp')) (index + 1)
          ⟨hs'.run, fun m hm => hs'.free m (by omega), hs'.keys, hs'.pending⟩
    · rw [show (env n).ext .uuid4 = mint env n from rfl, hx]
      refine ⟨by rw [hr]; exact Option.some_ne_none r, fun hnodup => ?_⟩
      have hnew : taskKeyAt payload index ∉ keys :=
        (List.nodup_cons.mp (List.Nodup.of_append_right hnodup)).1
      have hok := StateStore.createTask_ok (env (n + 1)).clock (s := s)
        (t := { taskId := mint env n, runId, taskKey := taskKeyAt payload index,
                status := .pending, payload })
        hnone hpay.1 rfl (by rw [hr]; exact Option.some_ne_none r)
        (fun hm => hnew (hs.keys.mem_iff.mp hm))
      rw [hx] at hok
      cases hok

/-! ## The record of the run -/

/-- Whether the record of a run can be stored: its config is JSON, and SQLite can hold the
seed. -/
def runStorable (backend : Backend) (config : Dict) (seed : Int) : Bool :=
  config.throughJson.isOk && (backend = .memory || (-2 ^ 63 ≤ seed && seed < 2 ^ 63))

theorem canonicalJsonHash_isOk (pf : Platform) (config : Dict) :
    (canonicalJsonHash pf config).isOk = config.throughJson.isOk := by
  rw [Dict.throughJson_isOk_eq, canonicalJsonHash]
  cases (PyVal.dict config).dumps <;> rfl

/-- The dataset hashes of a config that can be written can be written. -/
theorem throughJson_datasetHashesOf {config : Dict} (h : config.throughJson.isOk = true) :
    (datasetHashesOf config).throughJson.isOk = true := by
  unfold datasetHashesOf
  split
  · refine Dict.throughJson_isOk.mpr ⟨PyKey.sortable_of_isStr rfl, fun kv hkv => ?_⟩
    obtain rfl := List.mem_singleton.mp hkv
    exact ⟨rfl, Dict.dumps_get h "dataset_hash"⟩
  · cases hs : Configs.section? config "datasets" with
    | none => rfl
    | some d =>
      have hd : config.get "datasets" = .dict d := by
        unfold Configs.section? at hs
        split at hs
        next d' hd' => rw [hd', Option.some.inj hs]
        next => cases hs
      rw [Option.getD_some, Dict.throughJson_isOk_eq, ← hd]
      exact Dict.dumps_get h "datasets"

/-- The record that `create_run` builds is stored exactly where its config and seed are. -/
theorem acceptsRun_eq {s : StateStore} {r : RunRecord} {seed : Int} (hseed : r.seed = some seed)
    (henv : r.envSnapshot.throughJson.isOk = true) (hhashes : r.datasetHashes = datasetHashesOf r.config)
    (hconfig : r.config.throughJson.isOk = true) :
    s.acceptsRun r = runStorable s.backend r.config seed := by
  obtain ⟨b, m⟩ := s
  cases b
  · simp [StateStore.acceptsRun, runStorable, hconfig]
  · have hd := throughJson_datasetHashesOf hconfig
    rw [← hhashes] at hd
    simp only [StateStore.acceptsRun, runStorable, hconfig, henv, hd, hseed, Bool.true_and,
      Sqlite.integerColumn]
    split
    next hfit => simpa [Except.isOk, Except.toBool] using hfit
    next hfit => simpa [Except.isOk, Except.toBool] using hfit

/-! ## The whole call -/

/-- What `create_run` should leave of a store: a validated run with `n` pending tasks under
different keys, or, if it raises, the runs, tasks and events as they were. -/
def AllOrNothing (before : StateStore) (n : Nat) : Except PyExc RunId × Session → Prop
  | (.ok runId, σ) =>
    (∃ r, σ.ledger.store.run? runId = some r ∧ r.status = .validated) ∧
    (σ.ledger.store.tasksOf runId).length = n ∧
    ((σ.ledger.store.tasksOf runId).map (·.taskKey)).Nodup ∧
    ∀ t ∈ σ.ledger.store.tasksOf runId, t.status = .pending
  | (.error _, σ) =>
    σ.ledger.store.tables.runs = before.tables.runs ∧
    σ.ledger.store.tables.tasks = before.tables.tasks ∧
    σ.ledger.store.events = before.events

section Whole

variable (pf : Platform) (name : String) {config : Dict} {payloads : List Dict}
  {env : Nat → Answers} {s : StateStore} {seed : Int}

/-- **How `create_run` ends.** -/
theorem session_createRun (accepted : validateRunConfig pf config = .ok seed)
    (json : ∀ p ∈ payloads, isTaskPayload p) (fresh : MintsFresh env s)
    (snapshot : ∀ n, ((env n).ext .captureEnvSnapshot).throughJson.isOk = true) :
    (createRun pf name config payloads).wp (session env)
      (fun runId σ => Building env runId (taskKeysFrom 0 payloads).reverse σ.ledger.store
        σ.requests ∧ runStorable s.backend config seed = true)
      (fun _ σ => σ.ledger.store = s ∧ runStorable s.backend config seed = false ∨
        σ.ledger.store.run? (mint env 0) ≠ none ∧ runStorable s.backend config seed = true ∧
          ¬ (taskKeysFrom 0 payloads).Nodup) ⟨⟨s, []⟩, 0⟩ := by
  refine (wp_bind _ _).mpr ?_
  rw [wp_ofExcept, accepted]
  refine (wp_bind _ _).mpr (session_ask ((wp_bind _ _).mpr ?_))
  rw [wp_ofExcept]
  have hhash := canonicalJsonHash_isOk pf config
  cases hc : canonicalJsonHash pf config with
  | error e =>
    rw [hc] at hhash
    exact .inl ⟨rfl, by rw [runStorable, ← hhash]; rfl⟩
  | ok hash =>
  rw [hc] at hhash
  refine (wp_bind _ _).mpr (session_ask ((wp_bind _ _).mpr (session_ask ((wp_bind _ _).mpr
    (session_call ?_)))))
  generalize hrec : ({
      runId := (env 0).ext .uuid4, name, status := .created, config
      createdAt := (env 1).ext .utcNow, envSnapshot := (env 2).ext .captureEnvSnapshot
      seed := some seed, datasetHashes := datasetHashesOf config
      configHash := some hash } : RunRecord) = rec
  have hid : rec.runId = mint env 0 := by rw [← hrec]; rfl
  have haccept := s.createRun_isOk (env 3).clock (r := rec) (by rw [hid]; exact fresh.noRun 0)
  have hseed : rec.seed = some seed := by rw [← hrec]
  rw [acceptsRun_eq hseed (by rw [← hrec]; exact snapshot 2)
    (by rw [← hrec]) (by rw [← hrec]; exact hhash.symm),
    show rec.config = config by rw [← hrec]] at haccept
  rcases s.createRun_cases (env 3).clock rec with ⟨r, h, hx, hrid, hst, -⟩ | ⟨e, hx⟩ <;>
    rw [hx] at haccept ⊢
  · have hrid : r.runId = mint env 0 := hrid.trans hid
    have hr : (s.addRun r h).run? (mint env 0) = some r := by
      rw [StateStore.addRun_run?, if_pos hrid.symm]
    have hknown : (s.addRun r h).run? (mint env 0) ≠ none := by rw [hr]; nofun
    refine (wp_bind _ _).mpr (session_record rfl hknown nofun fun es => (wp_bind _ _).mpr ?_)
    rw [wp_ofExcept]
    change Program.wp _ _ _ _ _
    refine (wp_bind _ _).mpr (session_updateRunStatus ((StateStore.addEvents_run? _ es).trans hr) ?_)
    have hr' : (((s.addRun r h).addEvents es).modifyRun (mint env 0) (·.setStatus .validated)
        (·.setStatus_runId _)).run? (mint env 0) = some (r.setStatus .validated) := by
      rw [StateStore.modifyRun_run?_self, StateStore.addEvents_run?, hr]
      rfl
    have hknown' : (((s.addRun r h).addEvents es).modifyRun (mint env 0) (·.setStatus .validated)
        (·.setStatus_runId _)).run? (mint env 0) ≠ none := by rw [hr']; nofun
    refine (wp_bind _ _).mpr (session_record rfl hknown' nofun fun es' => (wp_bind _ _).mpr ?_)
    have hbuild : Building env (mint env 0) [] ((((s.addRun r h).addEvents es).modifyRun
        (mint env 0) (·.setStatus .validated) (·.setStatus_runId _)).addEvents es') 7 := by
      refine ⟨⟨_, hr', rfl⟩, fun m _ => fresh.noTask m, ?_, fun t ht => ?_⟩
      · exact List.Perm.of_eq (congrArg (List.map TaskRecord.taskKey) (fresh.noTasksOf 0))
      · have : t ∈ s.tasksOf (mint env 0) := ht
        rw [fresh.noTasksOf 0] at this
        cases this
    refine wp_mono (session_createTasks fresh.distinct json 0 hbuild) (fun _ σ hσ => ?_)
      fun _ σ hσ => ?_
    · rw [List.append_nil] at hσ
      exact ⟨hσ, haccept.symm⟩
    · rw [List.append_nil, List.nodup_reverse] at hσ
      exact .inr ⟨hσ.1, haccept.symm, hσ.2⟩
  · exact .inl ⟨rfl, haccept.symm⟩

/-- **`create_run` is all or nothing** exactly where the keys of its tasks are different, or
the record of the run is refused before anything is written. -/
theorem create_run_all_or_nothing_iff (accepted : validateRunConfig pf config = .ok seed)
    (json : ∀ p ∈ payloads, isTaskPayload p) (fresh : MintsFresh env s)
    (snapshot : ∀ n, ((env n).ext .captureEnvSnapshot).throughJson.isOk = true) :
    AllOrNothing s payloads.length
        ((createRun pf name config payloads).run (Session.exec env) ⟨⟨s, []⟩, 0⟩) ↔
      (runStorable s.backend config seed = true → (taskKeysFrom 0 payloads).Nodup) := by
  have hlearns : ∀ op σ, (session env).learns σ op (Session.exec env op σ).1
      (Session.exec env op σ).2 := fun _ _ => rfl
  have hwp := session_createRun pf name accepted json fresh snapshot
  have hrun := Program.run_of_wp hlearns hwp
  generalize (createRun pf name config payloads).run (Session.exec env) ⟨⟨s, []⟩, 0⟩ = out
    at hrun ⊢
  obtain ⟨r, σ⟩ := out
  cases r with
  | ok runId =>
    have hs : Building env runId (taskKeysFrom 0 payloads).reverse σ.ledger.store σ.requests ∧
      runStorable s.backend config seed = true := hrun
    obtain ⟨hs, hstore⟩ := hs
    have hcount := hs.keys.length_eq
    rw [List.length_map, List.length_reverse, length_taskKeysFrom] at hcount
    have hnodup := hs.keys.nodup_iff.trans List.nodup_reverse
    exact ⟨fun h _ => hnodup.mp h.2.2.1,
      fun h => ⟨hs.run, hcount, hnodup.mpr (h hstore), hs.pending⟩⟩
  | error e =>
    rcases hrun with ⟨hsame, hrefused⟩ | ⟨hleft, hstore, hdup⟩
    · refine iff_of_true ?_ fun hstore => ?_
      · obtain rfl : σ.ledger.store = s := hsame
        exact ⟨rfl, rfl, rfl⟩
      · rw [hrefused] at hstore
        cases hstore
    · refine iff_of_false (fun h => hleft ?_) fun h => hdup (h hstore)
      have hgone := fresh.noRun 0
      rw [StateStore.run?, ← h.1] at hgone
      exact hgone

end Whole

/-! ## A key given twice -/

/-- An automatic key and the same key given explicitly. -/
def clashing : List Dict := [[], Dict.ofList [("task_key", .str "task-0")]]

/-- **The second task fails.** SQLite refuses it and keeps the run with one task; in memory
the run gets two tasks under one key. -/
theorem clashing_keys_half_a_run :
    ¬ AllOrNothing (.empty .sqlite) 2 (demoRun .bare .sqlite clashing) ∧
    ¬ AllOrNothing (.empty .memory) 2 (demoRun .bare .memory clashing) := by
  have hraised : (demoRun .bare .sqlite clashing).1.isOk = false ∧
      (demoRun .bare .sqlite clashing).2.ledger.store.tables.runs.rows.length = 1 := by
    decide +kernel
  have hkept : (demoRun .bare .memory clashing).1.toOption = some "0" ∧
      ¬ (((demoRun .bare .memory clashing).2.ledger.store.tasksOf "0").map (·.taskKey)).Nodup := by
    decide +kernel
  constructor
  · intro h
    generalize demoRun .bare .sqlite clashing = out at h hraised
    obtain ⟨r, σ⟩ := out
    cases r with
    | ok id => cases hraised.1
    | error e =>
      have hruns := hraised.2
      rw [h.1] at hruns
      cases hruns
  · intro h
    rw [demoRun_eq hkept.1] at h
    exact hkept.2 h.2.2.1

/-- Every request draws a longer identifier than the one before. -/
def Answers.growing (n : Nat) : Answers where
  clock := ⟨0, 0⟩
  ext
    | .uuid4 => String.ofList (List.replicate n 'i')
    | x => (Answers.steady 0 (.ok .none)).ext x

theorem growing_fresh (backend : Backend) : MintsFresh Answers.growing (.empty backend) where
  distinct m n hne h := by
    have h := congrArg String.length h
    simp only [mint, Answers.growing, String.length_ofList, List.length_replicate] at h
    exact hne h
  noRun _ := rfl
  noTask _ := rfl
  noTasksOf _ := rfl

/-- An automatic key and another one. -/
def differing : List Dict := [[], Dict.ofList [("task_key", .str "a")]]

/-- Two tasks under different keys are created together. -/
theorem differing_keys_whole_run :
    AllOrNothing (.empty .sqlite) 2 ((createRun .bare "demo" demoConfig differing).run
      (Session.exec Answers.growing) ⟨⟨.empty .sqlite, []⟩, 0⟩) := by
  have haccepted : validateRunConfig .bare demoConfig = .ok 42 := by decide +kernel
  have hpayloads : ∀ p ∈ differing, isTaskPayload p := by
    intro p hp
    rcases List.mem_cons.mp hp with rfl | hp
    · exact ⟨rfl, .inl rfl⟩
    · obtain rfl := List.mem_singleton.mp hp
      exact ⟨by decide +kernel, .inr ⟨"a", rfl⟩⟩
  exact (create_run_all_or_nothing_iff .bare "demo" haccepted hpayloads (growing_fresh .sqlite)
    fun _ => rfl).mpr fun _ => by decide

end FineTuneHarness
