import FineTuneHarness.Executor.Workload
import FineTuneHarness.Registry.MetricsHook

/-!
# Sandboxes

`FirejailSandbox` runs a handler in a process of its own. The task goes there as a copy; what comes
back is a JSON text on the standard output of the child, behind whatever the handler has printed.
-/
namespace FineTuneHarness

open Library Library.JsonText
open MetricsHook (loadValue loadItems loadMembers spaced)

/-! ## The text of an answer -/

mutual

/-- `json.dumps(v)`, which writes the members of a dictionary in its order. -/
def PyVal.written : PyVal → Except PyExc (Value PyFloat)
  | .none => .ok .null
  | .bool b => .ok (.bool b)
  | .int i => .ok (.int i)
  | .float f => .ok (.float f)
  | .str s => .ok (.str s)
  | .list xs => (writtenItems xs).map .arr
  | .dict items => (writtenMembers items).map .obj
  | .mapping _ => .error (.typeError "Object of type mappingproxy is not JSON serializable")
  | .obj cls _ => .error (.typeError s!"Object of type {cls} is not JSON serializable")

def writtenItems : List PyVal → Except PyExc (List (Value PyFloat))
  | [] => .ok []
  | v :: vs => do return (← v.written) :: (← writtenItems vs)

def writtenMembers : List (PyKey × PyVal) → Except PyExc (List (String × Value PyFloat))
  | [] => .ok []
  | (k, v) :: rest => do return (← k.jsonName, ← v.written) :: (← writtenMembers rest)

end

/-- `v[key]`. -/
def subscript (v : PyVal) (key : String) : Except PyExc PyVal :=
  match v with
  | .dict d | .mapping d =>
    match Dict.get? d key with
    | some x => .ok x
    | none => .error (.keyError s!"'{key}'")
  | .list _ => .error (.typeError "list indices must be integers or slices, not str")
  | .str _ => .error (.typeError "string indices must be integers, not 'str'")
  | v => .error (.typeError s!"'{v.typeName}' object is not subscriptable")

/-- `str(v)`. -/
def pyStr (pf : Platform) : PyVal → String
  | .str s => s
  | v => pf.repr v

/-! ## The sandbox -/

/-- `NoSandbox.run`. -/
def NoSandbox.run (fn : TaskFn) : TaskFn := fn

/-- A child process, apart from the handler: what has been printed before the runner writes its
answer, and how the process ends, which may be before it writes. -/
structure Subprocess where
  printed : List Char := []
  died : Bool := false
  returncode : Int := 0
  stderr : String := ""

/-- What `pickle.dumps` says to the handler and the task, and the child that is started. -/
structure FirejailSandbox where
  pickleError : TaskRecord → Option PyExc := fun _ => none
  child : TaskRecord → Subprocess := fun _ => {}

namespace FirejailSandbox

variable (pf : Platform) (fl : Floats PyFloat)

/-- `msg` of the runner. -/
def msg (exc : PyExc) : String := s!"{exc.cls}: {exc.text}"

/-- The answer of the runner, when the handler has returned or raised. -/
def answer (outcome : Except PyExc PyVal) : Value PyFloat :=
  match outcome.bind PyVal.written with
  | .ok result => .obj [("ok", .bool true), ("result", result)]
  | .error exc => .obj [("ok", .bool false), ("error", .str (msg exc))]

def handlerRaised (error : String) : PyExc :=
  .runtimeError s!"handler raised in sandbox: {error}"

def childFailed (child : Subprocess) : PyExc :=
  .runtimeError s!"firejail subprocess failed (exit {child.returncode}): {child.stderr}"

/-- What the parent makes of the standard output. -/
def readAnswer (child : Subprocess) (stdout : List Char) : Except PyExc PyVal :=
  match decode fl stdout with
  | none => .error (childFailed child)
  | some v => do
    let data := loadValue v
    if ← (← subscript data "ok").truth then subscript data "result"
    else throw (handlerRaised (pyStr pf (← subscript data "error")))

def notPicklable (exc : PyExc) : PyExc :=
  if exc.isInstance "AttributeError" || exc.isInstance "PicklingError" then
    .runtimeError s!"FirejailSandbox requires a module-level function, not a lambda or closure. Define your handler as a top-level def in an importable module. pickle error: {exc.text}"
  else exc

/-- `run`: the task of the parent is not touched. -/
def run (sb : FirejailSandbox) (fn : TaskFn) : TaskFn := fun task =>
  let outcome :=
    match sb.pickleError task with
    | some exc => .error (notPicklable exc)
    | none =>
      let child := sb.child task
      let written :=
        if child.died then [] else encode fl spaced (answer (fn task).outcome)
      readAnswer pf fl child (child.printed ++ written)
  ⟨task.payload, outcome⟩

end FirejailSandbox

/-! ## What comes through -/

mutual

/-- A JSON document: string keys, no two of them the same, at any depth. -/
def PyVal.isDocument : PyVal → Bool
  | .none | .bool _ | .int _ | .float _ | .str _ => true
  | .list xs => documentItems xs
  | .dict items => documentMembers items
  | _ => false

def documentItems : List PyVal → Bool
  | [] => true
  | v :: vs => v.isDocument && documentItems vs

def documentMembers : List (PyKey × PyVal) → Bool
  | [] => true
  | (k, v) :: rest =>
    k.isStr && rest.all (fun kv => kv.1 ≠ k) && v.isDocument && documentMembers rest

end

theorem keys_of_documentMembers {d : Dict} (h : documentMembers d = true) :
    (d.map (·.1)).Nodup := by
  induction d with
  | nil => exact List.nodup_nil
  | cons item d ih =>
    obtain ⟨k, v⟩ := item
    simp only [documentMembers, Bool.and_eq_true, List.all_eq_true, decide_eq_true_eq] at h
    refine List.nodup_cons.mpr ⟨fun hmem => ?_, ih h.2⟩
    obtain ⟨kv, hkv, hk⟩ := List.mem_map.mp hmem
    exact h.1.1.2 kv hkv hk

mutual

/-- **A document comes back as it was.** -/
theorem PyVal.loadValue_written {x : PyVal} (h : x.isDocument = true) :
    ∃ j, x.written = .ok j ∧ loadValue j = x := by
  cases x with
  | none | bool | int | float | str => exact ⟨_, rfl, rfl⟩
  | list xs =>
    obtain ⟨js, hjs, hload⟩ := loadItems_written h
    refine ⟨.arr js, ?_, ?_⟩
    · rw [PyVal.written, hjs]
      rfl
    · rw [loadValue, hload]
  | dict d =>
    obtain ⟨js, hjs, hload⟩ := loadMembers_written h
    refine ⟨.obj js, ?_, ?_⟩
    · rw [PyVal.written, hjs]
      rfl
    · rw [loadValue, hload, Assoc.merge_nil (keys_of_documentMembers h)]
  | mapping | obj => cases h

theorem loadItems_written {xs : List PyVal} (h : documentItems xs = true) :
    ∃ js, writtenItems xs = .ok js ∧ loadItems js = xs := by
  cases xs with
  | nil => exact ⟨[], rfl, rfl⟩
  | cons x xs =>
    rw [documentItems, Bool.and_eq_true] at h
    obtain ⟨j, hj, hx⟩ := PyVal.loadValue_written h.1
    obtain ⟨js, hjs, hxs⟩ := loadItems_written h.2
    refine ⟨j :: js, ?_, ?_⟩
    · rw [writtenItems, hj, hjs]
      rfl
    · rw [loadItems, hx, hxs]

theorem loadMembers_written {d : List (PyKey × PyVal)} (h : documentMembers d = true) :
    ∃ js, writtenMembers d = .ok js ∧ loadMembers js = d := by
  cases d with
  | nil => exact ⟨[], rfl, rfl⟩
  | cons item d =>
    obtain ⟨k, x⟩ := item
    simp only [documentMembers, Bool.and_eq_true] at h
    obtain ⟨j, hj, hx⟩ := PyVal.loadValue_written h.1.2
    obtain ⟨js, hjs, hd⟩ := loadMembers_written h.2
    cases k with
    | str k =>
      refine ⟨(k, j) :: js, ?_, ?_⟩
      · rw [writtenMembers, hj, hjs]
        rfl
      · rw [loadMembers, hx, hd]
    | _ => cases h.1.1.1

end

namespace FirejailSandbox

variable {pf : Platform} {fl : Floats PyFloat} {sb : FirejailSandbox} {fn : TaskFn}
  {task : TaskRecord}

/-- The task reaches the child, and the runner is the only one to print. -/
structure Quiet (sb : FirejailSandbox) (task : TaskRecord) : Prop where
  picklable : sb.pickleError task = none
  printed : (sb.child task).printed = []
  lived : (sb.child task).died = false

/-- A child that dies before it answers, having printed nothing. -/
theorem run_died (hpickle : sb.pickleError task = none) (hprinted : (sb.child task).printed = [])
    (hdied : (sb.child task).died = true) :
    sb.run pf fl fn task = ⟨task.payload, .error (childFailed (sb.child task))⟩ := by
  unfold run
  simp only [hpickle, hprinted, hdied, if_true, List.nil_append]
  rfl

/-! ### Out of memory -/

theorem lower_append (a b : String) : lower (a ++ b) = lower a ++ lower b := by
  rw [lower, String.toList_append, List.map_append]
  rfl

/-- An exception whose class name or message says that the GPU is out of memory still says so when
it comes back. -/
theorem oom_comes_through {exc : PyExc}
    (h : exc.cls ∈ ["OutOfMemoryError", "CudaOutOfMemoryError"] ∨
      (oomMarkers.any fun marker => isSubstring marker (lower exc.text)) = true) :
    isOomError pf (handlerRaised (msg exc)) = true := by
  have htext : lower (handlerRaised (msg exc)).text =
      lower "handler raised in sandbox: " ++ (lower exc.cls ++ lower ": " ++ lower exc.text) := by
    rw [← lower_append, ← lower_append, ← lower_append]
    rfl
  have hmarked : ∃ marker ∈ oomMarkers,
      marker.toList <:+: lower (handlerRaised (msg exc)).text := by
    rw [htext]
    rcases h with hcls | hmessage
    · refine ⟨"outofmemoryerror", by decide, ?_⟩
      have hname : "outofmemoryerror".toList <:+: lower exc.cls := by
        rcases List.mem_pair.mp hcls with h | h <;> rw [h] <;> decide
      exact ((hname.trans (List.infix_append' [] _ _)).trans (List.infix_append' [] _ _)).trans
        (List.suffix_append _ _).isInfix
    · obtain ⟨marker, hmem, hmarker⟩ := List.any_eq_true.mp hmessage
      refine ⟨marker, hmem, ?_⟩
      exact ((of_decide_eq_true hmarker).trans (List.suffix_append _ _).isInfix).trans
        (List.suffix_append _ _).isInfix
  obtain ⟨marker, hmem, hmarker⟩ := hmarked
  rw [isOomError, Bool.or_eq_true]
  exact .inr (List.any_eq_true.mpr ⟨marker, hmem, decide_eq_true hmarker⟩)

end FirejailSandbox

end FineTuneHarness
