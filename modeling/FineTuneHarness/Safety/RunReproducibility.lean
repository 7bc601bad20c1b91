import FineTuneHarness.Safety.DatasetHashes
import FineTuneHarness.Safety.TerminalTasks
import FineTuneHarness.State.Assessment
import FineTuneHarness.State.EnvSnapshot

/-!
# The verdict on a run is settled when it is created

What `assess_reproducibility` looks at is written once, by `create_run`. Nothing that is done to the
run afterwards can change it, in either store; only the modes of its drains are added.
-/
namespace FineTuneHarness

open Library Library.Program
open Reproducibility

/-! ## What the machine allows -/

namespace Surroundings

variable (m : Surroundings)

/-- A run is reproducible from its commit, and all the way down only in a container with a digest. -/
def level : Reproducibility :=
  if m.commit?.all (· = "") then .fail else if m.digest? = none then .incomplete else .pass

/-- What is added to the warning about a tree with changes. -/
def diffSuffix : String :=
  match m.diffHash?.filter (· ≠ "") with
  | some hash =>
    let short := String.ofList (hash.toList.take 12)
    s!" (diff_hash={short}...)"
  | none => ""

/-- The verdict on every run that is created on the machine. -/
def assessment (concurrent : Bool) : ReproducibilityAssessment where
  level := m.level
  bitwiseReproducible := false
  replayable := m.level ≠ .fail
  missingFields := if m.level = .fail then ["env_snapshot.git_commit"] else []
  warnings :=
    warnIf concurrent concurrentWarning ++
    warnIf (m.env "CUBLAS_WORKSPACE_CONFIG" = none) cublasWarning ++
    warnIf (m.env "CUDA_LAUNCH_BLOCKING" ≠ some "1") blockingWarning ++
    warnIf (m.dirty? = some true) (dirtyWarning ++ m.diffSuffix) ++
    warnIf (m.level = .incomplete) (unpinnedWarning m.image?.isSome)

end Surroundings

/-- The fields that `create_run` fills in. -/
structure RunRecord.Identified (run : RunRecord) : Prop where
  seed : run.seed ≠ none
  hashes : run.datasetHashes ≠ []
  config : ∃ hash, run.configHash = some hash ∧ hash ≠ ""

section Assessment

variable {m : Surroundings} {pf : Platform} {run : RunRecord}

theorem truth_text (x : Option String) :
    ((x.map PyVal.str).getD .none).truth = .ok (x.any (· ≠ "")) := by
  cases x with
  | none => rfl
  | some s => rfl

theorem Dict.get_text {d : Dict} {k : String} {x : Option String} (h : d.get? k = x.map .str) :
    (d.get k).truth = .ok (x.any (· ≠ "")) := by
  rw [Dict.get, h, truth_text]

theorem any_ne_empty {x : Option String} (hx : ∀ s, x = some s → s ≠ "") :
    x.any (fun s => decide (s ≠ "")) = x.isSome := by
  cases x with
  | none => rfl
  | some s => simpa using hx s rfl

theorem dirtyWarnings_captured {d : Dict} (h : m.Captured d) :
    dirtyWarnings pf d = .ok (warnIf (m.dirty? = some true) (dirtyWarning ++ m.diffSuffix)) := by
  have hdirty : (d.get "git_dirty").truth = .ok (decide (m.dirty? = some true)) := by
    rw [Dict.get, h.dirty]
    rcases m.dirty? with _ | _ | _ <;> rfl
  unfold dirtyWarnings
  rw [hdirty, Dict.get_text h.diffHash]
  cases hm : decide (m.dirty? = some true) with
  | false => rfl
  | true =>
    unfold Surroundings.diffSuffix
    cases hhash : m.diffHash? with
    | none =>
      show Except.ok [dirtyWarning] = Except.ok [dirtyWarning ++ ""]
      rw [String.append_empty]
    | some hash =>
      have hget : d.get "git_diff_hash" = .str hash := by
        rw [Dict.get, h.diffHash, hhash]
        rfl
      by_cases hne : hash = ""
      · subst hne
        show Except.ok [dirtyWarning] = Except.ok [dirtyWarning ++ ""]
        rw [String.append_empty]
      · simp only [Option.any_some, ne_eq, hne, not_false_eq_true, decide_true, hget, Option.filter_some,
          if_true]
        rfl

/-- **The verdict is the machine's.** -/
theorem assess_captured (hrun : run.Identified) (henv : m.Captured run.envSnapshot)
    (events : List EventRecord) :
    assessReproducibility pf run events =
      .ok (m.assessment ("resource_aware" ∈ drainModes events)) := by
  obtain ⟨c, hc, hcontained⟩ := henv.container
  obtain ⟨f, hf, hforces⟩ := henv.determinism
  obtain ⟨hash, hhash, hne⟩ := hrun.config
  have hcontainer : sectionOf run.envSnapshot "container" = .dict c := by
    rw [sectionOf, hc]
    rfl
  have hdet : sectionOf run.envSnapshot "determinism_env" = .dict f := by
    rw [sectionOf, hf]
    rfl
  have hforced : (Dict.get f "harness_enforces_determinism").truth = .ok true := by
    rw [Dict.get, hforces.forced]
    rfl
  have hcublas : Dict.get f "CUBLAS_WORKSPACE_CONFIG" =
      ((m.env "CUBLAS_WORKSPACE_CONFIG").map .str).getD .none := by
    rw [Dict.get, hforces.cublas]
    rfl
  have hblocking : Dict.get f "CUDA_LAUNCH_BLOCKING" =
      ((m.env "CUDA_LAUNCH_BLOCKING").map .str).getD .none := by
    rw [Dict.get, hforces.blocking]
    rfl
  have hunset : unset (((m.env "CUBLAS_WORKSPACE_CONFIG").map PyVal.str).getD .none) =
      decide (m.env "CUBLAS_WORKSPACE_CONFIG" = none) := by
    cases m.env "CUBLAS_WORKSPACE_CONFIG" <;> rfl
  have hblocks : isOne (((m.env "CUDA_LAUNCH_BLOCKING").map PyVal.str).getD .none) =
      decide (m.env "CUDA_LAUNCH_BLOCKING" = some "1") := by
    cases m.env "CUDA_LAUNCH_BLOCKING" <;> simp [isOne]
  have hmissing : (if run.seed = none then ["seed"] else []) ++
      (if run.datasetHashes.isEmpty then ["dataset_hashes"] else []) ++
      (if run.configHash.all (· = "") then ["config_hash"] else []) = [] := by
    rw [if_neg hrun.seed, if_neg (by simpa using hrun.hashes), hhash,
      if_neg (by simpa using hne)]
    rfl
  unfold assessReproducibility
  simp only [Dict.get_text henv.commit, hdet, getFrom, Bind.bind, Except.bind, hforced, hcublas, hblocking,
    dirtyWarnings_captured henv, hcontainer, Dict.get_text hcontained.digest,
    Dict.get_text hcontained.image, hunset, hblocks, hmissing, List.nil_append,
    any_ne_empty fun _ => m.digest?_ne, any_ne_empty fun _ => m.image?_ne]
  unfold Surroundings.assessment Surroundings.level
  cases hcommit : m.commit?.any fun x => decide (x ≠ "") with
  | false =>
    have hall : m.commit?.all (fun x => decide (x = "")) = true := by
      cases hm : m.commit? with
      | none => rfl
      | some x => simpa [hm] using hcommit
    rw [if_pos hall]
    simp [warnIf, pure, Except.pure]
  | true =>
    have hall : ¬ m.commit?.all (fun x => decide (x = "")) = true := by
      cases hm : m.commit? with
      | none =>
        rw [hm] at hcommit
        cases hcommit
      | some x => simpa [hm] using hcommit
    rw [if_neg hall]
    cases m.digest? <;> simp [warnIf, pure, Except.pure]

end Assessment

/-! ## What `create_run` writes down -/

/-- A record that is stored keeps what it is identified by; its snapshot is kept as the store keeps
dictionaries. -/
theorem StateStore.createRun_identified {s s' : StateStore} {clk : Clock} {r : RunRecord}
    (h : s.exec (.createRun r) clk = (.ok (), s')) (hr : r.Identified) :
    ∃ r', s'.run? r.runId = some r' ∧ r'.Identified ∧ s.keepDict r.envSnapshot = .ok r'.envSnapshot := by
  obtain ⟨b, m⟩ := s
  cases b with
  | memory =>
    simp only [exec, commit, InMemory.createRun] at h
    by_cases hid : r.runId ∈ m.runs.rows.map (·.runId)
    · rw [dif_pos hid] at h
      cases h
    · rw [dif_neg hid] at h
      obtain rfl := (Prod.mk.inj h).2
      exact ⟨r, (Table.find?_insert hid).trans (if_pos rfl), hr, rfl⟩
  | sqlite =>
    simp only [exec, commit, Sqlite.createRun, Bind.bind, Except.bind] at h
    cases hc : r.config.throughJson with
    | error e => rw [hc] at h; cases h
    | ok config =>
    cases he : r.envSnapshot.throughJson with
    | error e => rw [hc, he] at h; cases h
    | ok envSnapshot =>
    cases hd : r.datasetHashes.throughJson with
    | error e => rw [hc, he, hd] at h; cases h
    | ok datasetHashes =>
    cases hs : Sqlite.integerColumn r.seed with
    | error e => rw [hc, he, hd, hs] at h; cases h
    | ok seed =>
      rw [hc, he, hd, hs] at h
      by_cases hid : r.runId ∈ m.runs.rows.map (·.runId)
      · simp only [dif_pos hid] at h; cases h
      · simp only [dif_neg hid] at h
        obtain rfl := (Prod.mk.inj h).2
        let kept : RunRecord := { r with config, envSnapshot, datasetHashes, seed }
        have hnew : kept.runId ∉ m.runs.rows.map (·.runId) := hid
        have hlength : datasetHashes.length = r.datasetHashes.length := (Dict.throughJson_values hd).1
        refine ⟨kept, (Table.find?_insert hnew).trans (if_pos rfl), ⟨?_, ?_, hr.config⟩, he⟩
        · have hok : (Sqlite.integerColumn r.seed).isOk = true := by rw [hs]; rfl
          have hseed := Except.ok.inj (hs.symm.trans (Sqlite.integerColumn_isOk hok))
          show seed ≠ none
          rw [hseed]
          exact hr.seed
        · intro hnil
          rw [show datasetHashes = [] from hnil] at hlength
          exact hr.hashes (List.length_eq_zero_iff.mp hlength.symm)

section Creation

variable {m : Surroundings} {ok : Admits} {pf : Platform}

/-- No config without a dataset is accepted. -/
theorem datasetHashesOf_ne {config : Dict} {seed : Int} (h : validateRunConfig pf config = .ok seed) :
    datasetHashesOf config ≠ [] := by
  have hdeclares := declares_of_accepted h
  generalize datasetHashesOf config = d at hdeclares
  cases hdeclares with
  | hash | null => exact List.cons_ne_nil _ _
  | splits absent given filled named noNull => exact filled

/-- The run is on record with all that its verdict rests on. -/
def Documented (m : Surroundings) (s : StateStore) (runId : RunId) : Prop :=
  ∃ run, s.run? runId = some run ∧ run.Identified ∧ m.Captured run.envSnapshot

/-- **A created run is documented.** -/
theorem alone_createRun_documented (name : String) (config : Dict) (payloads : List Dict) (l : Ledger)
    (hok : ¬ ok.refreshable) (hprobe : ∀ d, ok.ext .captureEnvSnapshot d → d = m.captureEnvSnapshot)
    (hdigest : ∀ j, pf.digest j ≠ "") :
    (createRun pf name config payloads).wp (alone ok)
      (fun runId l' => Documented m l'.store runId) (fun _ _ => True) l := by
  obtain ⟨s, c⟩ := l
  refine (wp_bind _ _).mpr ?_
  rw [wp_ofExcept]
  cases hv : validateRunConfig pf config with
  | error e => trivial
  | ok seed =>
  refine (wp_bind _ _).mpr (alone_ask.mpr fun runId _ => (wp_bind _ _).mpr ?_)
  rw [wp_ofExcept]
  cases hc : canonicalJsonHash pf config with
  | error e => trivial
  | ok hash =>
  have hhash : hash ≠ "" := by
    obtain ⟨j, -, hj⟩ := Except.bind_ok hc
    exact Except.ok.inj hj ▸ hdigest j
  refine (wp_bind _ _).mpr (alone_ask.mpr fun now _ => (wp_bind _ _).mpr
    (alone_ask.mpr fun env henv => (wp_bind _ _).mpr (alone_call fun clk _ => ?_)))
  obtain rfl := hprobe env henv
  generalize hrecord : ({
    runId, name, status := .created, config, createdAt := now, envSnapshot := m.captureEnvSnapshot
    seed := some seed, datasetHashes := datasetHashesOf config
    configHash := some hash } : RunRecord) = record
  have hidentified : record.Identified := by
    subst hrecord
    exact ⟨nofun, datasetHashesOf_ne hv, hash, rfl, hhash⟩
  have hsnapshot : record.envSnapshot = m.captureEnvSnapshot := by
    subst hrecord
    rfl
  have hid : record.runId = runId := by
    subst hrecord
    rfl
  cases hx : s.exec (.createRun record) clk with
  | mk reply s₁ =>
  cases reply with
  | error e => trivial
  | ok u =>
  obtain ⟨r, hr, hkept, hcolumn⟩ := StateStore.createRun_identified hx hidentified
  rw [hid] at hr
  have hcaptured : m.Captured r.envSnapshot := by
    rw [hsnapshot, StateStore.keepDict] at hcolumn
    split at hcolumn
    · exact Except.ok.inj hcolumn ▸ Surroundings.captured
    · exact Surroundings.captured_throughJson hcolumn
  refine (wp_bind _ _).mpr (alone_appendEvent_any fun e _ _ _ => (wp_bind _ _).mpr ?_)
  rw [wp_ofExcept]
  change Program.wp _ _ _ _ _
  have hr₁ : (s₁.addEvents [e]).run? runId = some r := hr
  refine (wp_bind _ _).mpr (alone_updateRunStatus hr₁
    ((wp_bind _ _).mpr (alone_appendEvent_any fun e' _ _ _ => (wp_bind _ _).mpr ?_)))
  have hr₂ : (((s₁.addEvents [e]).modifyRun runId (·.setStatus .validated)
      (·.setStatus_runId _)).addEvents [e']).run? runId = some (r.setStatus .validated) := by
    rw [StateStore.addEvents_run?, StateStore.modifyRun_run?_self, hr₁]
    rfl
  refine wp_mono (alone_keepsRuns hok (only_createTasks payloads 0) hr₂) (fun _ l' hl => ?_)
    fun _ _ _ => trivial
  exact ⟨r.setStatus .validated, hl, ⟨hkept.seed, hkept.hashes, hkept.config⟩, hcaptured⟩

end Creation

/-! ## What is done to the run afterwards -/

/-- **No call changes what the verdict rests on.** -/
theorem Documented.callers {m : Surroundings} {s s' : StateStore} {runId : RunId}
    (h : Documented m s runId) (hreach : callers.Reaches s s') : Documented m s' runId := by
  refine hreach.invariant (I := fun s => Documented m s runId) h fun s₁ c s₂ hdoc _ hstep => ?_
  obtain ⟨run, hrun, hidentified, hcaptured⟩ := hdoc
  obtain rfl := Option.some.inj hstep
  refine ⟨_, s₁.exec_run? c.2 hrun c.1, ?_⟩
  have hkeep : ∀ op, (StateStore.runAfter runId run op).Identified ∧
      m.Captured (StateStore.runAfter runId run op).envSnapshot := by
    intro op
    unfold StateStore.runAfter
    split
    · split <;> exact ⟨⟨hidentified.seed, hidentified.hashes, hidentified.config⟩, hcaptured⟩
    · split <;> exact ⟨⟨hidentified.seed, hidentified.hashes, hidentified.config⟩, hcaptured⟩
    · exact ⟨hidentified, hcaptured⟩
  exact hkeep c.1

/-- A created run is documented from its creation on. -/
theorem created_documented {m : Surroundings} {pf : Platform} {name : String} {config : Dict}
    {payloads : List Dict} {env : Nat → Answers} {σ σ' : Session} {runId : RunId} {s : StateStore}
    (hprobe : ∀ n, (env n).ext .captureEnvSnapshot = m.captureEnvSnapshot)
    (hdigest : ∀ j, pf.digest j ≠ "")
    (hrun : (createRun pf name config payloads).run (Session.exec env) σ = (.ok runId, σ'))
    (hreach : callers.Reaches σ'.ledger.store s) : Documented m s runId := by
  let ok : Admits := { ext := fun x r => ∃ n, r = (env n).ext x }
  have hmeets : ∀ n, ok.Meets (env n) := fun n => ⟨fun x => ⟨n, rfl⟩, trivial⟩
  have hprobed : ∀ d, ok.ext .captureEnvSnapshot d → d = m.captureEnvSnapshot := by
    rintro d ⟨n, rfl⟩
    exact hprobe n
  have hdocumented := Session.run_of_wp
    (alone_createRun_documented name config payloads σ.ledger id hprobed hdigest) hmeets
  rw [hrun] at hdocumented
  exact Documented.callers hdocumented hreach

/-- **The verdict on a run is settled when it is created.** On a machine with the surroundings `m`,
whatever is done to the store after `create_run` has returned, and whichever store it is, the run is
there and assessing it returns the verdict of the machine, with the warning about concurrency if and
only if its events tell of a concurrent drain. -/
theorem verdict_settled_at_creation {m : Surroundings} {pf : Platform} {name : String} {config : Dict}
    {payloads : List Dict} {env : Nat → Answers} {σ σ' : Session} {runId : RunId} {s : StateStore}
    (hprobe : ∀ n, (env n).ext .captureEnvSnapshot = m.captureEnvSnapshot)
    (hdigest : ∀ j, pf.digest j ≠ "")
    (hrun : (createRun pf name config payloads).run (Session.exec env) σ = (.ok runId, σ'))
    (hreach : callers.Reaches σ'.ledger.store s) :
    ∃ run, s.run? runId = some run ∧ ∀ events, assessReproducibility pf run events =
      .ok (m.assessment ("resource_aware" ∈ drainModes events)) := by
  obtain ⟨run, hrun', hidentified, hcaptured⟩ := created_documented hprobe hdigest hrun hreach
  exact ⟨run, hrun', fun events => assess_captured hidentified hcaptured events⟩

/-- A container with a digest, and a clean tree. -/
def dockerMachine : Surroundings where
  pythonVersion := "3.11"
  platform := "Linux"
  harnessVersion := none
  packageVersion := fun _ => none
  gitHead := some "4f2a\n"
  gitBranch := some "main\n"
  gitDiffers := some false
  gitDiffHash := none
  dockerenv := true
  env := fun name => if name = "IMAGE_DIGEST" then some "sha256:1" else none
  hostname := none
  cpu := none
  memoryGb := none
  cuda := none

/-- A machine that hashes everything to one text. -/
def constantDigest : Platform := { Platform.bare with digest := fun _ => "0" }

/-- A run that is created there, in SQLite. -/
def dockerRun : Except PyExc RunId × Session :=
  (createRun constantDigest "demo" demoConfig []).run
    (Session.exec fun n =>
      { Answers.numbered 0 n with
        ext := fun
          | .captureEnvSnapshot => dockerMachine.captureEnvSnapshot
          | x => (Answers.numbered 0 n).ext x })
    ⟨⟨.empty .sqlite, []⟩, 0⟩

theorem verdict_on_docker_run : ∃ run,
    (dockerRun.2.ledger.store.exec (.updateRunStatus "0" .cancelled) ⟨9, 9⟩).2.run? "0" = some run ∧
    ∀ events, assessReproducibility constantDigest run events =
      .ok (dockerMachine.assessment ("resource_aware" ∈ drainModes events)) := by
  have hne : "0" ≠ "" := by decide
  have hdigest : ∀ j, constantDigest.digest j ≠ "" := fun _ => hne
  have hcreated : dockerRun.1.toOption = some "0" := by decide +kernel
  have hrun : dockerRun = (.ok "0", dockerRun.2) := by
    generalize dockerRun = out at hcreated
    obtain ⟨reply, σ⟩ := out
    cases reply with
    | error e => cases hcreated
    | ok id => rw [Option.some.inj hcreated]
  exact verdict_settled_at_creation (m := dockerMachine) (fun _ => rfl) hdigest hrun
    (.tail (.updateRunStatus "0" .cancelled, ⟨9, 9⟩) .refl trivial rfl)

end FineTuneHarness
