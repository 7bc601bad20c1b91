import FineTuneHarness.Executor.Policy

/-!
# Result validation

`validateResult` follows `validate_result` check by check, in its order, with the messages
it collects. It raises where the code does: a number too large for `float()`, a method
name without `lower`, a value without a truth value.
-/
namespace FineTuneHarness

inductive ResultStatus
  | succeededValidated | succeededWithWarnings | failedValidation | degenerateResult
  | failedRuntime
deriving DecidableEq

def ResultStatus.value : ResultStatus → String
  | .succeededValidated => "SUCCEEDED_VALIDATED"
  | .succeededWithWarnings => "SUCCEEDED_WITH_WARNINGS"
  | .failedValidation => "FAILED_VALIDATION"
  | .degenerateResult => "DEGENERATE_RESULT"
  | .failedRuntime => "FAILED_RUNTIME"

structure ValidationOutcome where
  status : ResultStatus
  poorPerformance : Option Bool
  metricValidated : Bool
  degeneracyFlag : Bool
  validationErrors : List String := []
  validationWarnings : List String := []

/-- The statuses `run_once` records as `DEGENERATE`. -/
def ResultStatus.rejected (s : ResultStatus) : Bool := s ∈ [.degenerateResult, .failedValidation]

namespace Validator

def adapterMethods : List String := ["lora", "adalora", "ia3", "prefix", "prompt", "adapter"]

def boundedMetrics : List String :=
  ["accuracy", "f1", "f1_macro", "f1_micro", "f1_weighted", "precision", "recall", "auc",
    "roc_auc", "balanced_accuracy"]

def nonNegativeMetrics : List String := ["loss", "loss_start", "loss_end", "val_loss"]

/-- `a < b` on Python floats. -/
def floatLt : PyFloat → PyFloat → Bool
  | .nan, _ | _, .nan => false
  | .finite p, .finite q => p < q
  | .inf n, .finite _ => n
  | .finite _, .inf n => !n
  | .inf n, .inf m => n && !m

/-- A number as Python compares it: no rounding, no overflow. -/
def number? : PyVal → Option PyFloat
  | .bool b => some (.finite (if b then 1 else 0))
  | .int i => some (.finite i)
  | .float f => some f
  | _ => none

def isNumber (v : PyVal) (p : PyFloat → Bool) : Bool := (number? v).any p

def memberOf (names : List String) : PyKey → Bool
  | .str s => s ∈ names
  | _ => false

/-- One round of the metric loop: the message it adds, if any. -/
def metricError (pf : Platform) (key : PyKey) (v : PyFloat) : List String :=
  match v with
  | .nan => [s!"metric {pf.reprKey key} is NaN"]
  | .inf _ => [s!"metric {pf.reprKey key} is Inf"]
  | .finite q =>
    if memberOf boundedMetrics key && !(0 ≤ q && q ≤ 1) then
      [s!"metric {pf.reprKey key} = {pf.repr (.float v)} is outside the expected range [0, 1]"]
    else if memberOf nonNegativeMetrics key && q < 0 then
      [s!"metric {pf.reprKey key} = {pf.repr (.float v)} is negative — loss must be >= 0"]
    else []

def metricErrors (pf : Platform) : Dict → Except PyExc (List String)
  | [] => .ok []
  | (key, raw) :: rest =>
    match raw.toFloat? with
    | none => metricErrors pf rest
    | some v => do return metricError pf key (← v) ++ (← metricErrors pf rest)

/-- `a or b`. -/
def pyOr (a b : PyVal) : Except PyExc PyVal := do if ← a.truth then return a else return b

def effectiveMethod (method : PyVal) (result : Dict) : Except PyExc PyVal := do
  pyOr (← pyOr method (result.get "method")) (result.get "technique")

def isAdapterMethod : PyVal → Except PyExc Bool
  | .none => .ok false
  | .str s => .ok (adapterMethods.any fun m => m.toList = lower s)
  | v => .error (.attributeError s!"'{v.typeName}' object has no attribute 'lower'")

def evalExamplesError (pf : Platform) (result : Dict) : List String :=
  match result.get? "eval_examples" with
  | some n =>
    if isNumber n (!floatLt (.finite 0) ·) && isNumber n (· ≠ .nan) then
      [s!"eval_examples = {pf.repr n} — evaluation over zero examples"]
    else []
  | none => []

/-- `{k: float(result[k]) for k in …}`, as the list of its values. -/
def floatsOf (result : Dict) : List String → Except PyExc (List PyFloat)
  | [] => .ok []
  | k :: ks =>
    match (result.get? k).bind PyVal.toFloat? with
    | none => floatsOf result ks
    | some v => do return (← v) :: (← floatsOf result ks)

def isFalse : Option PyVal → Bool
  | some (.bool false) => true
  | _ => false

def degeneracyReasons (pf : Platform) (method : PyVal) (result : Dict) :
    Except PyExc (List String) := do
  let predictions :=
    if isFalse (result.get? "predictions_non_empty") then ["predictions_non_empty is False"]
    else []
  let isAdapter ← isAdapterMethod method
  let adapter :=
    if isFalse (result.get? "adapter_loaded") then ["adapter_loaded is False"] else []
  let trainable :=
    match result.get? "trainable_params" with
    | some tp =>
      if isAdapter && isNumber tp (· = .finite 0) then
        [s!"trainable_params == 0 for adapter method {pf.repr method}"]
      else []
    | none => []
  let total :=
    match result.get? "trainable_params", result.get? "total_params" with
    | some tp, some tot =>
      if isNumber tp fun p => isNumber tot fun q => floatLt q p then
        [s!"trainable_params ({pf.repr tp}) > total_params ({pf.repr tot})"]
      else []
    | _, _ => []
  let bounded ← floatsOf result boundedMetrics
  let zeros ←
    if !bounded.isEmpty && bounded.all (· = .finite 0) then do
      if ← (result.get "all_zeros_expected").truth then pure []
      else pure ["all bounded metrics (accuracy, f1, …) are exactly 0.0 without all_zeros_expected flag"]
    else pure []
  return predictions ++ adapter ++ trainable ++ total ++ zeros

/-- `max(…)`: the first value that no later one exceeds. -/
def maxFloat : List PyFloat → Option PyFloat
  | [] => none
  | v :: vs => some (vs.foldl (fun m x => if floatLt m x then x else m) v)

/-- The double nearest to 0.55. -/
def poorThreshold : ℚ := 2476979795053773 / 2 ^ 52

def poorPerformance (result : Dict) : Except PyExc (Option Bool) := do
  match maxFloat (← floatsOf result ["accuracy", "f1", "auc", "roc_auc"]) with
  | some (.finite q) => return some (q < poorThreshold)
  | _ => return none

def warningsOf (result : Dict) : List String :=
  match result.get? "predictions_constant" with
  | some (.bool true) =>
    ["predictions_constant is True — all predictions are the same class; may indicate model collapse"]
  | _ => []

def caughtError (pf : Platform) (caught : Bool) (result : Dict) : List String :=
  if caught then
    let caught := pf.repr (result.get "caught_exception")
    [s!"caught_exception is set: {caught} — a silently-caught error cannot be exported as a valid result"]
  else []

/-- The checks on a result that is a dictionary. -/
def validateDict (pf : Platform) (d : Dict) (method : PyVal) : Except PyExc ValidationOutcome := do
  let caught ← (d.get "caught_exception").truth
  let method ← effectiveMethod method d
  let metrics ← metricErrors pf d
  let errors := caughtError pf caught d ++ metrics ++ evalExamplesError pf d
  let reasons ← degeneracyReasons pf method d
  let warnings := warningsOf d
  let poor ← poorPerformance d
  let (status, errors) :=
    if !errors.isEmpty || caught then (ResultStatus.failedValidation, errors)
    else if !reasons.isEmpty then (.degenerateResult, errors ++ reasons)
    else if !warnings.isEmpty then (.succeededWithWarnings, errors)
    else (.succeededValidated, errors)
  return {
    status, poorPerformance := poor
    metricValidated := status ∈ [.succeededValidated, .succeededWithWarnings]
    degeneracyFlag := status = .degenerateResult
    validationErrors := errors, validationWarnings := warnings }

end Validator

def validateResult (pf : Platform) (result : PyVal) (method : PyVal) :
    Except PyExc ValidationOutcome :=
  match result with
  | .dict d => Validator.validateDict pf d method
  | v => .ok {
      status := .failedValidation, poorPerformance := none, metricValidated := false
      degeneracyFlag := false
      validationErrors := [s!"result must be a dict, got {v.typeName}"] }

end FineTuneHarness
