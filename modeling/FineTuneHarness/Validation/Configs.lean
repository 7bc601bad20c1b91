import FineTuneHarness.Executor.Policy

/-!
# Run configuration checks

`validateRunConfig` stops at the first check that fails, with its message.
-/
namespace FineTuneHarness

namespace Configs

def requiredTopLevelKeys : List String := ["artifacts", "executor", "project"]

def validConcurrencyModes : List String := ["sequential", "resource_aware"]

def reject {α : Type} (text : String) : Except PyExc α := .error (.valueError text)

/-- `config.get(key)` where it is a dictionary. -/
def section? (config : Dict) (key : String) : Option Dict :=
  match config.get key with
  | .dict d => some d
  | _ => none

/-- `isinstance(v, str) and v`. -/
def nonEmptyStr : PyVal → Bool
  | .str s => s ≠ ""
  | _ => false

/-- `isinstance(v, str) and v.strip()`. -/
def nonBlankStr : PyVal → Bool
  | .str s => !(PyVal.strip s).isEmpty
  | _ => false

/-- A number that is no `bool` and not negative; NaN is not negative. -/
def nonNegativeNumber : PyVal → Bool
  | .int i => 0 ≤ i
  | .float (.finite q) => 0 ≤ q
  | .float (.inf negative) => !negative
  | .float .nan => true
  | _ => false

/-- An `int` that is no `bool`, from a bound on. -/
def intFrom (bound : Int) : PyVal → Bool
  | .int i => bound ≤ i
  | _ => false

/-- A check on an optional key of the `concurrency` section. -/
def checkKey (pf : Platform) (conc : Dict) (accept : PyVal → Bool) (what key : String) :
    Except PyExc Unit :=
  match conc.get? key with
  | none => .ok ()
  | some v =>
    if accept v then .ok ()
    else reject s!"run config 'executor.concurrency.{key}' must be a {what}, got {pf.repr v}"

/-- `mode in _VALID_CONCURRENCY_MODES`. -/
def validMode : PyVal → Bool
  | .str m => m ∈ validConcurrencyModes
  | _ => false

def validateConcurrency (pf : Platform) : PyVal → Except PyExc Unit
  | .dict conc => do
    let mode := (Dict.get? conc "mode").getD (.str "sequential")
    if !validMode mode then
      reject s!"run config 'executor.concurrency.mode' must be one of ('sequential', 'resource_aware'), got {pf.repr mode}"
    checkKey pf conc nonNegativeNumber "non-negative number" "min_free_mb"
    checkKey pf conc nonNegativeNumber "non-negative number" "settle_seconds"
    checkKey pf conc (intFrom 1) "positive int" "max_concurrent"
    checkKey pf conc (intFrom 0) "non-negative int" "max_oom_retries"
  | _ => reject "run config 'executor.concurrency' must be a dict"

/-- The seed, which has to be an `int` and no `bool`. -/
def validateSeed (pf : Platform) (config : Dict) : Except PyExc Int :=
  match config.get "seed" with
  | .none => reject "run config missing required field 'seed' (int). Set a deterministic seed to enable reproducibility. Example: \x7b\"seed\": 42\x7d"
  | .int i => .ok i
  | v => reject s!"run config 'seed' must be an int, got {pf.repr (.str v.typeName)}. Example: \x7b\"seed\": 42\x7d"

def validateDatasetHash (pf : Platform) (config : Dict) : Except PyExc Unit := do
  let datasetHash := config.get "dataset_hash"
  let datasets := config.get "datasets"
  match datasetHash with
  | .none =>
    if !(← datasets.truth) then
      reject "run config missing required reproducibility field. Provide either:\n  'dataset_hash': 'sha256:<hex>' (single dataset), or\n  'datasets': \x7b'train': 'sha256:<hex>', 'validation': 'sha256:<hex>', ...\x7d"
  | v =>
    if !nonBlankStr v then
      reject "run config 'dataset_hash' must be a non-empty string (e.g. 'sha256:abc123...' or a stable identifier for your data)"
  match datasets with
  | .none => return
  | .dict splits =>
    if splits.isEmpty then reject "run config 'datasets' must not be empty"
    match splits.find? fun kv => !nonBlankStr kv.2 with
    | some (.str k, _) => reject s!"run config 'datasets.{k}' must be a non-empty string hash"
    | some (k, _) => reject s!"run config 'datasets.{pf.reprKey k}' must be a non-empty string hash"
    | none => return
  | _ => reject "run config 'datasets' must be a dict mapping split names to hash strings"

end Configs

open Configs in
/-- `validate_run_config`, returning the seed it has checked. -/
def validateRunConfig (pf : Platform) (config : Dict) : Except PyExc Int := do
  let missing := requiredTopLevelKeys.filter fun k => !config.contains k
  if !missing.isEmpty then
    let names := String.intercalate ", " missing
    reject s!"invalid run config: missing keys: {names}"
  let some project := section? config "project" | reject "run config 'project' must be a dict"
  if !nonEmptyStr (project.get "name") then
    reject "run config 'project.name' must be a non-empty string"
  let some executor := section? config "executor" | reject "run config 'executor' must be a dict"
  match executor.get? "concurrency" with
  | some conc => validateConcurrency pf conc
  | none => pure ()
  let some artifacts := section? config "artifacts"
    | reject "run config 'artifacts' must be a dict"
  if !nonEmptyStr (artifacts.get "root") then
    reject "run config 'artifacts.root' must be a non-empty string"
  let seed ← validateSeed pf config
  validateDatasetHash pf config
  return seed

end FineTuneHarness
