import FineTuneHarness.Executor.Policy
import FineTuneHarness.Orchestrator.Hooks
import FineTuneHarness.State.Store

/-!
# What the harness asks of its surroundings

The runner and the workers are programs over two kinds of requests: calls of the store,
which are atomic, and everything that is answered by outside code: the clock, the handler,
the hooks, the artifact store, the process API. Log lines are left out.
-/
namespace FineTuneHarness

open Library (Program)

/-- A finished handler call: the payload of the working task as the handler leaves it, the
rounded wall time, and what came back. -/
structure HandlerRun (ω : Type) where
  payload : Dict
  wallSeconds : PyFloat
  outcome : ω

structure ArtifactWrite where
  runId : RunId
  taskId : TaskId
  kind : String
  payload : Dict
  filename : String

inductive Ext
  | utcNow
  | uuid4
  | captureEnvSnapshot
  | runHandler (task : TaskRecord)
  | runHandlerWithin (task : TaskRecord) (seconds : Int)
  | hook (name : String) (call : HookCall)
  | writeArtifact (w : ArtifactWrite)
  | sleep (upTo : ℚ)

/-- The handler's answer under a deadline is `none` when the deadline passes first; a hook
answers with the payload and the result it leaves behind. -/
@[reducible] def Ext.Reply : Ext → Type
  | .utcNow => Instant
  | .uuid4 => String
  | .captureEnvSnapshot => Dict
  | .runHandler _ => HandlerRun (Except PyExc PyVal)
  | .runHandlerWithin .. => HandlerRun (Option (Except PyExc PyVal))
  | .hook .. => Dict × Dict
  | .writeArtifact _ => Except PyExc ArtifactRecord
  | .sleep _ => Unit

/-- The task the handler is called with. -/
def Ext.handled : Ext → Option TaskRecord
  | .runHandler t | .runHandlerWithin t _ => some t
  | _ => none

inductive Effect
  | store (op : StoreOp)
  | ext (e : Ext)

@[reducible] def Effect.Reply : Effect → Type
  | .store op => Except PyExc op.Reply
  | .ext e => e.Reply

abbrev Prog (α : Type) := Program Effect Effect.Reply PyExc α

/-- One store call; an exception of the store goes through. -/
def call (op : StoreOp) : Prog op.Reply := .call (.store op) fun r => Program.ofExcept r

def ask (e : Ext) : Prog e.Reply := .call (.ext e) .ret

/-- `append_event`. -/
def record (runId : RunId) (taskId : Option TaskId) (kind : String)
    (payload : List (String × PyVal)) : Prog Unit :=
  call (.appendEvent { runId, taskId, kind, payload := Dict.ofList payload })

namespace HookRegistry

/-- One hook after the other; each sees what the ones before it left. -/
def fireAll : List HookFn → HookCall → Prog HookCall
  | [], c => pure c
  | fn :: fns, c => do
    let (payload, result) ← ask (.hook fn.qualname c)
    fireAll fns (c.mutate payload result)

def fire (r : HookRegistry) (c : HookCall) : Prog HookCall := fireAll (r.hooksAt c.point) c

/-- The arguments as one hook after the other leaves them, when `ext` says what hooks do. -/
def appliedAll (ext : (e : Ext) → e.Reply) : List HookFn → HookCall → HookCall
  | [], c => c
  | fn :: fns, c =>
    let (payload, result) := ext (.hook fn.qualname c)
    appliedAll ext fns (c.mutate payload result)

def applied (r : HookRegistry) (ext : (e : Ext) → e.Reply) (c : HookCall) : HookCall :=
  appliedAll ext (r.hooksAt c.point) c

end HookRegistry

/-! ## Proof rules -/

section Rules

variable {L α : Type} {P : Program.Protocol Effect Effect.Reply L} {l : L}

@[simp] theorem wp_call {op : StoreOp} {Q : op.Reply → L → Prop} {E : PyExc → L → Prop} :
    (call op).wp P Q E l ↔
      P.may l (.store op) ∧ ∀ (r : Except PyExc op.Reply) (l' : L),
        P.learns l (.store op) r l' → match r with | .ok a => Q a l' | .error e => E e l' := by
  refine and_congr_right fun _ => forall_congr' fun r => forall_congr' fun l' =>
    imp_congr_right fun _ => ?_
  cases r <;> rfl

@[simp] theorem wp_ask {x : Ext} {Q : x.Reply → L → Prop} {E : PyExc → L → Prop} :
    (ask x).wp P Q E l ↔
      P.may l (.ext x) ∧ ∀ (r : x.Reply) (l' : L), P.learns l (.ext x) r l' → Q r l' := Iff.rfl

/-- A hook request. -/
def IsHook : Effect → Prop
  | .ext (.hook ..) => True
  | _ => False

theorem HookRegistry.only_fire (r : HookRegistry) (c : HookCall) : (r.fire c).Only IsHook := by
  have h : ∀ fns c, (HookRegistry.fireAll fns c).Only IsHook := by
    intro fns
    induction fns with
    | nil => intro c; trivial
    | cons fn fns ih => exact fun c => ⟨trivial, fun m _ _ => ih (c.mutate m.1 m.2)⟩
  exact h _ c

end Rules

/-! ## Answers -/

/-- What the surroundings answer at one moment. -/
structure Answers where
  clock : Clock
  ext : (e : Ext) → e.Reply

/-- One request, carried out on a store. -/
def Effect.perform (e : Effect) (a : Answers) (s : StateStore) : e.Reply × StateStore :=
  match e with
  | .store op => s.exec op a.clock
  | .ext x => (a.ext x, s)

/-- One clock reading, one handler outcome, hooks that leave everything as it is, and an
artifact store that is full. -/
def Answers.steady (now : Instant) (outcome : Except PyExc PyVal) : Answers where
  clock := ⟨now, now⟩
  ext
    | .utcNow => now
    | .uuid4 => ""
    | .captureEnvSnapshot => []
    | .runHandler t => ⟨t.payload, .finite 0, outcome⟩
    | .runHandlerWithin t _ => ⟨t.payload, .finite 0, some outcome⟩
    | .hook _ c => (c.payload, c.result)
    | .writeArtifact _ => .error ⟨"OSError", ["Exception"], "no space left on device"⟩
    | .sleep _ => ()

end FineTuneHarness
