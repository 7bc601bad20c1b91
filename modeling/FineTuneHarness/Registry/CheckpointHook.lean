import FineTuneHarness.Executor.Policy
import FineTuneHarness.Orchestrator.Hooks

/-!
# `CheckpointHook`

`Path(…).resolve()` and `is_relative_to` belong to the operating system; a `FileSystem` says
what they answer. The hook's count of tasks decides nothing and is left out.
-/
namespace FineTuneHarness

/-- Resolved paths, and what `Path(value).resolve()` makes of a value. -/
structure FileSystem where
  Path : Type
  resolve : PyVal → Except PyExc Path
  isRelativeTo : Path → Path → Bool

/-- `root` is the hook's own `checkpoint_dir`. -/
structure CheckpointHook where
  root : String

namespace CheckpointHook

def qualname : String := "CheckpointHook.before_task"

/-- `before_task`: the payload it leaves behind, or the exception it raises. -/
def beforeTask (fs : FileSystem) (pf : Platform) (hook : CheckpointHook) (payload : Dict) :
    Except PyExc Dict :=
  match payload.get? "checkpoint_dir" with
  | some dir => do
    let requested ← fs.resolve dir
    let allowed ← fs.resolve (.str hook.root)
    if fs.isRelativeTo requested allowed then return payload
    else
      let root := PyVal.str hook.root
      throw (.valueError
        s!"checkpoint_dir {pf.repr dir} is outside the allowed root {pf.repr root}")
  | none => .ok (payload.set "checkpoint_dir" (.str hook.root))

/-- What `fire` makes of it: an exception is logged, and the payload is as it was. -/
def fired (fs : FileSystem) (pf : Platform) (hook : CheckpointHook) (payload : Dict) : Dict :=
  match hook.beforeTask fs pf payload with
  | .ok payload' => payload'
  | .error _ => payload

variable {fs : FileSystem} {pf : Platform} {hook : CheckpointHook}

/-- The payload names a directory that resolves to a path inside the root. -/
def Confined (fs : FileSystem) (hook : CheckpointHook) (payload : Dict) : Prop :=
  ∃ dir requested allowed, payload.get? "checkpoint_dir" = some dir ∧
    fs.resolve dir = .ok requested ∧ fs.resolve (.str hook.root) = .ok allowed ∧
    fs.isRelativeTo requested allowed = true

/-- The root resolves, and a path is relative to itself. -/
structure Rooted (fs : FileSystem) (hook : CheckpointHook) : Prop where
  resolves : (fs.resolve (.str hook.root)).isOk = true
  relative : ∀ path, fs.isRelativeTo path path = true

/-- A payload that names a directory goes through as it is, whatever the hook thinks of it. -/
theorem fired_some {payload : Dict} {dir : PyVal} (h : payload.get? "checkpoint_dir" = some dir) :
    hook.fired fs pf payload = payload := by
  unfold fired
  split
  next payload' hok =>
    unfold beforeTask at hok
    rw [h] at hok
    obtain ⟨requested, -, hok⟩ := Except.bind_ok hok
    obtain ⟨allowed, -, hok⟩ := Except.bind_ok hok
    split at hok
    · exact (Except.ok.inj hok).symm
    · cases hok
  next => rfl

theorem fired_none {payload : Dict} (h : payload.get? "checkpoint_dir" = none) :
    hook.fired fs pf payload = payload.set "checkpoint_dir" (.str hook.root) := by
  unfold fired beforeTask
  rw [h]

/-- Firing the hook twice is firing it once. -/
theorem fired_fired (payload : Dict) :
    hook.fired fs pf (hook.fired fs pf payload) = hook.fired fs pf payload := by
  cases h : payload.get? "checkpoint_dir" with
  | some dir => rw [fired_some h, fired_some h]
  | none =>
    rw [fired_none h]
    exact fired_some (Dict.get?_set_self)

/-- **What the hook achieves.** The payload it leaves behind is confined exactly where the
payload it was given names no directory, or one inside the root. -/
theorem confined_fired_iff (hroot : Rooted fs hook) (payload : Dict) :
    hook.Confined fs (hook.fired fs pf payload) ↔
      payload.get? "checkpoint_dir" = none ∨ hook.Confined fs payload := by
  cases h : payload.get? "checkpoint_dir" with
  | some dir => simp [fired_some h]
  | none =>
    refine iff_of_true ?_ (.inl rfl)
    obtain ⟨allowed, hallowed⟩ : ∃ path, fs.resolve (.str hook.root) = .ok path := by
      have := hroot.resolves
      cases hr : fs.resolve (.str hook.root) with
      | error e => rw [hr] at this; cases this
      | ok path => exact ⟨path, rfl⟩
    rw [fired_none h]
    exact ⟨_, _, _, Dict.get?_set_self, hallowed, hallowed, hroot.relative _⟩

end CheckpointHook
end FineTuneHarness
