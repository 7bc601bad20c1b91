import FineTuneHarness.State.Value
import Mathlib.Data.List.Infix

/-!
# Policies, seeding and out-of-memory classification

`Platform` is what the code finds on the machine it runs on: which optional libraries
import, how the interpreter spells a value in a message, and the digest of a JSON text.
-/
namespace FineTuneHarness

structure Platform where
  numpy : Bool
  torch : Bool
  repr : PyVal → String
  reprKey : PyKey → String
  digest : Json → String

/-- A machine without optional libraries. -/
def Platform.bare : Platform where
  numpy := false
  torch := false
  repr := fun _ => ""
  reprKey := fun _ => ""
  digest := fun _ => ""

/-! ## Retry and timeout -/

structure RetryPolicy where
  maxAttempts : Int := 1
  baseDelaySeconds : ℚ := 1
  maxDelaySeconds : ℚ := 60
  jitter : Bool := true

structure TimeoutPolicy where
  timeoutSeconds : Option Int := none

/-- `delay_for_attempt`: the delay, or with jitter its upper end. `math.pow` overflows
from `2 ** 1024` on. -/
def RetryPolicy.delayForAttempt (p : RetryPolicy) (attempt : Nat) : Except PyExc ℚ :=
  if attempt = 0 then .ok 0
  else if attempt > 1024 then .error (.overflowError "math range error")
  else .ok (min p.maxDelaySeconds (p.baseDelaySeconds * 2 ^ (attempt - 1)))

/-! ## Seeding -/

/-- `apply_seed`: `random` takes any integer, `numpy` one of 32 bits and `torch` one
that fits a signed or an unsigned 64-bit word. -/
def applySeed (pf : Platform) (seed : Int) : Except PyExc Unit :=
  if pf.numpy ∧ ¬ (0 ≤ seed ∧ seed < 2 ^ 32) then
    .error (.valueError "Seed must be between 0 and 2**32 - 1")
  else if pf.torch ∧ ¬ (-2 ^ 63 ≤ seed ∧ seed < 2 ^ 64) then
    .error (.runtimeError "Overflow when unpacking long")
  else .ok ()

/-! ## GPU out of memory -/

def oomMarkers : List String :=
  ["cuda out of memory", "cuda error: out of memory", "cublas_status_alloc_failed",
    "cudnn_status_alloc_failed", "outofmemoryerror"]

/-- `marker in text`. -/
def isSubstring (marker : String) (text : List Char) : Bool := marker.toList <:+: text

/-- `text.lower()`, as far as it can produce the ASCII words it is compared with. -/
def lower (text : String) : List Char := text.toList.map Char.toLower

def isOomError (pf : Platform) (e : PyExc) : Bool :=
  (pf.torch && e.isInstance "torch.cuda.OutOfMemoryError") ||
    e.cls ∈ ["OutOfMemoryError", "CudaOutOfMemoryError"] ||
    oomMarkers.any fun marker => isSubstring marker (lower e.text)

example (pf : Platform) :
    isOomError pf (.runtimeError "CUDA out of memory. Tried to allocate 2 GiB") = true := by
  simp only [isOomError, Bool.or_eq_true]
  exact .inr (by decide)

inductive ConcurrencyMode
  | sequential | resourceAware
deriving DecidableEq

def ConcurrencyMode.value : ConcurrencyMode → String
  | .sequential => "sequential"
  | .resourceAware => "resource_aware"

structure ConcurrencyConfig where
  mode : ConcurrencyMode := .sequential
  minFreeMb : ℚ := 2000
  maxConcurrent : Int := 8
  settleSeconds : ℚ := 1
  maxOomRetries : Int := 5

end FineTuneHarness
