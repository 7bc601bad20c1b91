import FineTuneHarness.Executor.Policy
import FineTuneHarness.State.LeaseChecks

/-!
# How reproducible a run is

`assess_reproducibility` looks at what was written down when the run was created, and at the modes
the run was drained in. `export_manifest` gathers the same into one document.
-/
namespace FineTuneHarness

inductive Reproducibility
  | fail | incomplete | pass
deriving DecidableEq

/-- The names of the levels. -/
def Reproducibility.value : Reproducibility → String
  | .fail => "FAIL"
  | .incomplete => "PARTIAL"
  | .pass => "PASS"

structure ReproducibilityAssessment where
  level : Reproducibility
  bitwiseReproducible : Bool
  replayable : Bool
  missingFields : List String := []
  warnings : List String := []

namespace Reproducibility

/-- `_drain_modes`: the modes of the drains, each where it is first seen. -/
def drainModes (events : List EventRecord) : List String :=
  (events.filter fun e => e.kind = "drain_started").foldl (fun seen e =>
    match e.payload.get "mode" with
    | .str mode => if mode ∈ seen then seen else seen ++ [mode]
    | _ => seen) []

/-- `v.get(key)`, which only mappings have. -/
def getFrom (v : PyVal) (key : String) : Except PyExc PyVal :=
  match v with
  | .dict d | .mapping d => .ok (Dict.get d key)
  | v => .error (.attributeError s!"'{v.typeName}' object has no attribute 'get'")

/-- `f"{v[:12]}"`. -/
def firstTwelve (pf : Platform) : PyVal → Except PyExc String
  | .str s => .ok (String.ofList (s.toList.take 12))
  | .list xs => .ok (pf.repr (.list (xs.take 12)))
  | .dict _ | .mapping _ => .error (.typeError "unhashable type: 'slice'")
  | v => .error (.typeError s!"'{v.typeName}' object is not subscriptable")

/-- `v is None`. -/
def unset : PyVal → Bool
  | .none => true
  | _ => false

/-- `v == "1"`. -/
def isOne : PyVal → Bool
  | .str s => s = "1"
  | _ => false

/-- `run.env_snapshot.get(key, {})`. -/
def sectionOf (env : Dict) (key : String) : PyVal := (env.get? key).getD (.dict [])

def concurrentWarning : String :=
  "run executed under resource_aware concurrency; reproducibility relies on " ++
  "per-process RNG isolation (each task runs in its own process). This is " ++
  "sound, but sequential execution remains the gold standard for bit-for-bit comparison."

def unforcedWarning : String :=
  "deterministic algorithms were not forced for this run " ++
  "(torch.use_deterministic_algorithms / cudnn.deterministic) — results may " ++
  "not be bit-for-bit reproducible even with full metadata."

def cublasWarning : String :=
  "CUBLAS_WORKSPACE_CONFIG was not set — cuBLAS may use non-deterministic algorithms. " ++
  "Set CUBLAS_WORKSPACE_CONFIG=:4096:8 before launching for reproducible GPU results."

def blockingWarning : String :=
  "CUDA_LAUNCH_BLOCKING was not set to 1 — async GPU execution may produce " ++
  "non-deterministic results under some workloads."

def dirtyWarning : String :=
  "git working tree was dirty at run time — uncommitted changes may not be recoverable " ++
  "from git_commit alone"

def unpinnedWarning (hasImageName : Bool) : String :=
  (if hasImageName then
    "container image name recorded but no digest — image tags are mutable " ++
    "and may point to different layers in the future. "
  else "no container digest recorded — ") ++
  "reproducibility_level=environment_snapshot_only. " ++
  "Package versions are captured, but system libraries (glibc, CUDA driver, firmware) " ++
  "are not pinned. Use Docker/Apptainer with a digest for full reproducibility."

/-- A warning, where there is reason for it. -/
def warnIf (b : Bool) (text : String) : List String := if b then [text] else []

/-- The warning about a tree with changes. -/
def dirtyWarnings (pf : Platform) (env : Dict) : Except PyExc (List String) := do
  if !(← (env.get "git_dirty").truth) then return []
  if !(← (env.get "git_diff_hash").truth) then return [dirtyWarning]
  let hash ← firstTwelve pf (env.get "git_diff_hash")
  return [dirtyWarning ++ s!" (diff_hash={hash}...)"]

end Reproducibility

open Reproducibility in
/-- `assess_reproducibility`. -/
def assessReproducibility (pf : Platform) (run : RunRecord) (events : List EventRecord) :
    Except PyExc ReproducibilityAssessment := do
  let env := run.envSnapshot
  let commit ← (env.get "git_commit").truth
  let missing :=
    (if run.seed = none then ["seed"] else []) ++
    (if run.datasetHashes.isEmpty then ["dataset_hashes"] else []) ++
    (if run.configHash.all (· = "") then ["config_hash"] else []) ++
    (if commit then [] else ["env_snapshot.git_commit"])
  let det := sectionOf env "determinism_env"
  let forced ← (← getFrom det "harness_enforces_determinism").truth
  let cublas ← getFrom det "CUBLAS_WORKSPACE_CONFIG"
  let blocking ← getFrom det "CUDA_LAUNCH_BLOCKING"
  let dirty ← dirtyWarnings pf env
  let warnings :=
    warnIf ("resource_aware" ∈ drainModes events) concurrentWarning ++
    warnIf (!forced) unforcedWarning ++
    warnIf (unset cublas) cublasWarning ++ warnIf (!isOne blocking) blockingWarning ++ dirty
  if !missing.isEmpty then
    return {
      level := .fail, bitwiseReproducible := false, replayable := false
      missingFields := missing, warnings }
  let container := sectionOf env "container"
  let hasContainerDigest ← (← getFrom container "digest").truth
  if !hasContainerDigest then
    let hasImageName ← (← getFrom container "image").truth
    return {
      level := .incomplete, bitwiseReproducible := false, replayable := true
      warnings := warnings ++ [unpinnedWarning hasImageName] }
  -- all there is to know is known, but the results were not forced to repeat
  if !forced then
    return { level := .incomplete, bitwiseReproducible := false, replayable := true, warnings }
  return { level := .pass, bitwiseReproducible := false, replayable := true, warnings }

/-! ## The manifest -/

namespace Manifest

/-- A text that may be missing. -/
def textOrNone (x : Option String) : PyVal := (x.map .str).getD .none

def gitInfo (env : Dict) : Dict := Dict.ofList [
  ("commit", env.get "git_commit"), ("branch", env.get "git_branch"),
  ("dirty", (env.get? "git_dirty").getD (.bool false)), ("diff_hash", env.get "git_diff_hash")]

/-- `output_hashes`: a later artifact with the same id replaces an earlier one. -/
def outputHashes (artifacts : List ArtifactRecord) : Dict :=
  artifacts.foldl (fun d a => d.set a.artifactId (.dict (Dict.ofList [
    ("kind", .str a.kind), ("path", .str a.path), ("sha256", .str a.checksum),
    ("task_id", textOrNone a.taskId)]))) []

def taskSummary (t : TaskRecord) : Dict := Dict.ofList [
  ("task_id", .str t.taskId), ("task_key", .str t.taskKey), ("status", .str t.status.value),
  ("result", (t.result.map .dict).getD .none), ("error", textOrNone t.error),
  ("attempt_count", .int t.attemptCount)]

def assessed (a : ReproducibilityAssessment) : Dict := Dict.ofList [
  ("level", .str a.level.value), ("bitwise_reproducible", .bool a.bitwiseReproducible),
  ("replayable", .bool a.replayable), ("missing_fields", .list (a.missingFields.map .str)),
  ("warnings", .list (a.warnings.map .str))]

end Manifest

open Manifest Reproducibility in
/-- `export_manifest`. -/
def exportManifest (pf : Platform) (run : RunRecord) (tasks : List TaskRecord)
    (artifacts : List ArtifactRecord) (events : List EventRecord) : Except PyExc Dict := do
  let assessment ← assessReproducibility pf run events
  let env := run.envSnapshot
  return Dict.ofList [
    ("manifest_version", .str "1"), ("run_id", .str run.runId), ("name", .str run.name),
    ("created_at", .str (isoText run.createdAt)),
    ("finished_at", textOrNone (run.finishedAt.map isoText)),
    -- what a replay starts from
    ("seed", (run.seed.map .int).getD .none), ("dataset_hashes", .dict run.datasetHashes),
    ("config_hash", textOrNone run.configHash), ("config", .dict run.config),
    ("git", .dict (gitInfo env)), ("env_snapshot", .dict env),
    ("container", (env.get? "container").getD (.dict (Dict.ofList [("engine", .str "none")]))),
    ("hardware", sectionOf env "hardware"),
    ("execution", .dict (Dict.ofList [("drain_modes", .list ((drainModes events).map .str))])),
    ("reproducibility", .dict (assessed assessment)),
    ("tasks", .list (tasks.map fun t => .dict (taskSummary t))),
    ("output_hashes", .dict (outputHashes artifacts))]

/-- What a replay starts from is in the manifest. -/
theorem exportManifest_ok {pf : Platform} {run : RunRecord} {events : List EventRecord}
    {a : ReproducibilityAssessment} (h : assessReproducibility pf run events = .ok a)
    (tasks : List TaskRecord) (artifacts : List ArtifactRecord) :
    ∃ manifest, exportManifest pf run tasks artifacts events = .ok manifest ∧
      manifest.get "config" = .dict run.config ∧
      manifest.get "seed" = (run.seed.map .int).getD .none ∧
      manifest.get "config_hash" = Manifest.textOrNone run.configHash := by
  rw [exportManifest, h]
  exact ⟨_, rfl, rfl, rfl, rfl⟩

end FineTuneHarness
