import FineTuneHarness.Executor.Fleet
import FineTuneHarness.Executor.HandlerCalls
import FineTuneHarness.Registry.CheckpointHook
import FineTuneHarness.State.Evolution

/-!
# Checkpoint directories and their root

`CheckpointHook.before_task` raises where a payload names a directory outside the root;
`HookRegistry.fire` logs the exception and goes on, and `run_once` calls the handler with the
payload as it was.
-/
namespace FineTuneHarness

open Library Library.Program CheckpointHook

variable {fs : FileSystem} {pf : Platform} {hook : CheckpointHook}

/-- What a `before_task` hook makes of the payload: the checkpoint hook is the only one that
changes anything. -/
def hookedPayload (fs : FileSystem) (pf : Platform) (hook : CheckpointHook) (name : String)
    (payload : Dict) : Dict :=
  if name = qualname then hook.fired fs pf payload else payload

/-- A checkpoint hook is registered among hooks that mutate nothing. -/
def checkpointed (fs : FileSystem) (pf : Platform) (hook : CheckpointHook) : FleetGuard where
  call _ _ e a := ∀ name t, e = .ext (.hook name (.beforeTask t)) →
    (a.ext (.hook name (.beforeTask t))).1 = hookedPayload fs pf hook name t.payload
  start _ _ j := ∃ fn ∈ j.worker.hooks.hooksAt .beforeTask, fn.qualname = qualname

/-! ## One worker -/

/-- The handler is called with the leased task only, and with its payload as the checkpoint hook
leaves it. The local state is the task that was leased. -/
def confining (fs : FileSystem) (pf : Platform) (hook : CheckpointHook) :
    Protocol Effect Effect.Reply (Option TaskRecord) where
  may := fun l e =>
    match e with
    | .ext x => ∀ task, x.handled = some task → ∃ leased, l = some leased ∧
        task.taskId = leased.taskId ∧ task.payload = hook.fired fs pf leased.payload
    | .store (.createTask _) => False
    | .store _ => True
  learns := fun l e r l' =>
    match e, r with
    | .store (.leaseNextPendingTask ..), .ok (some (t : TaskRecord)) => l' = some t
    | .ext (.hook name (.beforeTask t)), r =>
      l' = l ∧ (r : Dict × Dict).1 = hookedPayload fs pf hook name t.payload
    | _, _ => l' = l

theorem confining_ignores {l : Option TaskRecord} {e : Effect} (h : Unhandled e) :
    (confining fs pf hook).Ignores l e := by
  cases e with
  | ext x =>
    have hx : x.handled = none := h
    refine ⟨fun task ht => (nomatch hx.symm.trans ht), fun r l' hl => ?_⟩
    cases x with
    | hook name c =>
      cases c with
      | beforeTask t => exact hl.1
      | _ => exact hl
    | _ => exact hl
  | store op =>
    cases op <;> first | exact h.elim | exact ⟨trivial, fun r l' hl => hl⟩

namespace LocalWorker

variable (w : LocalWorker) {l : Option TaskRecord}

/-- Requests that neither lease nor call the handler, followed by others. -/
theorem confining_bind {α β : Type} {p : Prog α} {f : α → Prog β} {Q : β → Option TaskRecord → Prop}
    (hp : p.Only Unhandled)
    (hf : ∀ a, (f a).wp (confining fs pf hook) Q (fun _ _ => True) l) :
    (p >>= f).wp (confining fs pf hook) Q (fun _ _ => True) l :=
  (wp_bind _ _).mpr (wp_of_only hp (fun _ he => confining_ignores he) hf fun _ => trivial)

/-- **Firing `before_task`.** One hook after the other leaves the payload alone, but for the
checkpoint hook. -/
theorem confining_fireAll {fns : List HookFn} {t : TaskRecord} {Q : HookCall → Option TaskRecord → Prop}
    (hq : ∀ payload, (payload = hook.fired fs pf t.payload ∨
      payload = t.payload ∧ ∀ fn ∈ fns, fn.qualname ≠ qualname) →
      Q (.beforeTask { t with payload }) l) :
    (HookRegistry.fireAll fns (.beforeTask t)).wp (confining fs pf hook) Q (fun _ _ => True) l := by
  induction fns generalizing t with
  | nil => exact hq t.payload (.inr ⟨rfl, nofun⟩)
  | cons fn fns ih =>
    refine (wp_bind _ _).mpr (wp_ask.mpr ⟨fun task ht => (nomatch ht), fun r l' hl => ?_⟩)
    obtain ⟨payload', result⟩ := r
    obtain ⟨rfl, hpayload⟩ := hl
    dsimp only at hpayload
    refine ih fun payload hcase => hq payload ?_
    dsimp only at hcase
    unfold hookedPayload at hpayload
    split at hpayload
    next hname =>
      subst hpayload
      refine .inl ?_
      rcases hcase with hc | ⟨hc, -⟩
      · rw [hc, fired_fired]
      · exact hc
    next hname =>
      subst hpayload
      rcases hcase with hc | ⟨hc, hnone⟩
      · exact .inl hc
      · exact .inr ⟨hc, List.forall_mem_cons.mpr ⟨hname, hnone⟩⟩

theorem confining_prepare (hreg : ∃ fn ∈ w.hooks.hooksAt .beforeTask, fn.qualname = qualname)
    (seed : Option Int) (a : Attempt) {Q : Dict × Option Int → Option TaskRecord → Prop}
    (hq : ∀ timeout, Q (hook.fired fs pf a.task.payload, timeout) l) :
    (w.prepare pf seed a).wp (confining fs pf hook) Q (fun _ _ => True) l := by
  refine confining_bind (unhandled_seedAttempt pf seed) fun _ => (wp_bind _ _).mpr ?_
  refine confining_fireAll fun payload hcase => ?_
  have hpayload : payload = hook.fired fs pf a.task.payload := by
    rcases hcase with h | ⟨-, hnone⟩
    · exact h
    · obtain ⟨fn, hfn, hname⟩ := hreg
      exact absurd hname (hnone fn hfn)
  refine confining_bind unhandled_record fun _ => confining_bind (only_ofExcept _) fun timeout =>
    (wp_pure _).mpr ?_
  rw [← hpayload] at hq
  exact hq timeout

theorem confining_attempt (hreg : ∃ fn ∈ w.hooks.hooksAt .beforeTask, fn.qualname = qualname)
    (seed : Option Int) (runId : RunId) (task : TaskRecord) :
    (w.attempt pf seed runId task).wp (confining fs pf hook) (fun _ _ => True) (fun _ _ => True)
      (some task) := by
  rw [attempt, wp_bind, beginAttempt]
  refine confining_bind (Unhandled.call trivial) fun n =>
    confining_bind (Unhandled.call trivial) fun _ => confining_bind unhandled_record fun _ =>
    confining_bind (only_unhandled (routine_refreshRunStatus _)) fun _ => (wp_pure _).mpr ?_
  refine (wp_bind _ _).mpr (w.confining_prepare hreg seed _ fun timeout => ?_)
  have hmay : ∀ x : Ext, x.handled = some { task with payload := hook.fired fs pf task.payload } →
      (confining fs pf hook).may (some task) (.ext x) := by
    intro x hx task' ht
    obtain rfl := Option.some.inj (hx.symm.trans ht)
    exact ⟨task, rfl, rfl, rfl⟩
  have hfinish : ∀ run, (w.finish pf ⟨runId, task, n⟩ run).wp (confining fs pf hook)
      (fun _ _ => True) (fun _ _ => True) (some task) := fun run =>
    wp_of_only (w.unhandled_finish pf _ run) (fun _ he => confining_ignores he)
      (fun _ => trivial) fun _ => trivial
  refine (wp_bind _ _).mpr ?_
  cases timeout with
  | none =>
    refine wp_ask.mpr ⟨hmay _ rfl, fun run l' hl => ?_⟩
    obtain rfl := hl
    exact hfinish run
  | some seconds =>
    refine (wp_bind _ _).mpr (wp_ask.mpr ⟨hmay _ rfl, fun run l' hl => (wp_pure _).mpr ?_⟩)
    obtain rfl := hl
    exact hfinish _

theorem confining_runOnce (hreg : ∃ fn ∈ w.hooks.hooksAt .beforeTask, fn.qualname = qualname)
    (mem : RunMemory) (runId : RunId) :
    (w.runOnce pf mem runId).wp (confining fs pf hook) (fun _ _ => True) (fun _ _ => True) l := by
  refine confining_bind (only_unhandled (w.routine_startRun mem runId)) fun mem' =>
    (wp_bind _ _).mpr ((wp_attempt _).mpr ?_)
  refine wp_mono (Q := fun _ _ => True) (E := fun _ _ => True) ?_ (fun _ _ _ => trivial)
    fun _ _ _ => trivial
  refine (wp_bind _ _).mpr (wp_call.mpr ⟨trivial, fun r l' hl => ?_⟩)
  cases r with
  | error e => trivial
  | ok leased =>
    cases leased with
    | none => trivial
    | some task =>
      obtain rfl := hl
      exact (wp_bind _ _).mpr (wp_mono (w.confining_attempt hreg _ runId task)
        (fun _ _ _ => trivial) fun _ _ _ => trivial)

end LocalWorker

/-! ## Every handler call of every run -/

/-- The tasks that are held are tasks of the store, and so are those the handler was called
with: it got their payloads as the checkpoint hook leaves them. -/
structure Confining (fs : FileSystem) (pf : Platform) (hook : CheckpointHook) (s : Traced)
    (l : WorkerId → Option TaskRecord) : Prop where
  held : ∀ i leased, l i = some leased →
    ∃ row, s.store.task? leased.taskId = some row ∧ row.payload = leased.payload
  called : ∀ en ∈ s.log, ∀ x task, en.effect = .ext x → x.handled = some task →
    ∃ row, s.store.task? task.taskId = some row ∧ task.payload = hook.fired fs pf row.payload

/-- No payload changes in the store. -/
theorem payload_kept {s s' : StateStore} (h : StateStore.Evolves s s') {id : TaskId}
    {row : TaskRecord} (hr : s.task? id = some row) :
    ∃ row', s'.task? id = some row' ∧ row'.payload = row.payload := by
  obtain ⟨row', hr', hl⟩ := h.forward hr
  exact ⟨row', hr', hl.payload⟩

theorem Confining.evolves {s : Traced} {l : WorkerId → Option TaskRecord} {s' : StateStore}
    (h : Confining fs pf hook s l) (hs : StateStore.Evolves s.store s') :
    Confining fs pf hook { s with store := s' } l where
  held i leased hl := by
    obtain ⟨row, hr, hp⟩ := h.held i leased hl
    obtain ⟨row', hr', hp'⟩ := payload_kept hs hr
    exact ⟨row', hr', hp'.trans hp⟩
  called en hen x task hx ht := by
    obtain ⟨row, hr, hp⟩ := h.called en hen x task hx ht
    obtain ⟨row', hr', hp'⟩ := payload_kept hs hr
    exact ⟨row', hr', by rw [hp, hp']⟩

theorem confining_sound (fs : FileSystem) (pf : Platform) (hook : CheckpointHook) :
    (fleet pf).Sound (fun _ => confining fs pf hook) (fun _ => True) (Confining fs pf hook)
      (checkpointed fs pf hook) where
  call := by
    intro s l i e a hJ hm hG
    cases e with
    | ext x =>
      have hlearn : (confining fs pf hook).learns (l i) (.ext x) (a.ext x) (l i) := by
        cases x with
        | hook name c =>
          cases c with
          | beforeTask t => exact ⟨rfl, hG name t rfl⟩
          | _ => exact rfl
        | _ => exact rfl
      refine ⟨l i, hlearn, ?_, fun en hen y task hy ht => ?_⟩
      · rw [Function.update_eq_self]
        exact hJ.held
      · rcases List.mem_cons.mp hen with rfl | hen
        · obtain rfl := Effect.ext.inj hy
          obtain ⟨leased, hl, hid, hpayload⟩ := hm task ht
          obtain ⟨row, hr, hp⟩ := hJ.held i leased hl
          exact ⟨row, by rw [hid]; exact hr, by rw [hpayload, hp]⟩
        · exact hJ.called en hen y task hy ht
    | store op =>
      have hop : StateStore.keepsTasks op := by
        cases op <;> first | exact hm.elim | trivial
      have hstep := hJ.evolves (s.store.exec_evolves a.clock hop)
      have hcalled : ∀ en ∈ ((fleet pf).exec i (.store op) a s).2.log, ∀ x task,
          en.effect = .ext x → x.handled = some task → ∃ row,
          ((fleet pf).exec i (.store op) a s).2.store.task? task.taskId = some row ∧
            task.payload = hook.fired fs pf row.payload := by
        intro en hen x task hx ht
        rcases List.mem_cons.mp hen with rfl | hen
        · cases hx
        · exact hstep.called en hen x task hx ht
      have hsame : ∀ j leased, Function.update l i (l i) j = some leased →
          ∃ row, ((fleet pf).exec i (.store op) a s).2.store.task? leased.taskId = some row ∧
            row.payload = leased.payload := by
        rw [Function.update_eq_self]
        exact hstep.held
      cases op with
      | leaseNextPendingTask runId w n =>
        rcases s.store.lease_cases a.clock runId w n with ⟨t, es, hf, -, -, hx⟩ | ⟨-, hx⟩
        · refine ⟨some (t.leaseTo w (leaseUntil a.clock.later n)), ?_, fun j leased hj => ?_, hcalled⟩
          · simp only [fleet, Effect.perform, hx]
            rfl
          · by_cases hji : j = i
            · subst hji
              rw [Function.update_self] at hj
              obtain rfl := Option.some.inj hj
              obtain ⟨row, hr, hp⟩ := payload_kept (s.store.exec_evolves a.clock hop) hf
              exact ⟨row, hr, hp⟩
            · rw [Function.update_of_ne hji] at hj
              exact hstep.held j leased hj
        · refine ⟨l i, ?_, hsame, hcalled⟩
          simp only [fleet, Effect.perform, hx]
          rfl
      | _ => exact ⟨l i, rfl, hsame, hcalled⟩
  start := by
    intro s l i job prog s' hJ _ hG hsp
    obtain ⟨-, rfl, rfl⟩ := fleet_spawn hsp
    refine ⟨l i, (job.workerFor i).confining_runOnce hG job.memory job.runId, ?_⟩
    rw [Function.update_eq_self]
    exact hJ
  crash := by
    intro s l i hJ _
    refine ⟨l i, ?_⟩
    rw [Function.update_eq_self]
    exact ⟨hJ.held, hJ.called⟩
  env := by
    intro s l d s' hJ _ hs
    obtain rfl := Option.some.inj hs
    exact hJ.evolves (s.store.exec_evolves d.2 (by cases d.1 <;> trivial))

/-- **Confinement depends on the payload alone.** With a checkpoint hook registered among hooks
that mutate nothing, in every run of any workers and at every handler call: the directory in the
working task resolves to a path inside the root exactly where the payload of the stored task names
no directory, or one inside the root. -/
theorem checkpoint_confined_iff {s : StateStore} {p : FleetState} {en : Entry} {x : Ext}
    {task : TaskRecord} (hroot : Rooted fs hook)
    (hrun : (fleet pf).machine.Steps (checkpointed fs pf hook).Meets (fleetOn s) p)
    (hen : en ∈ p.shared.log) (hx : en.effect = .ext x) (hcalled : x.handled = some task) :
    ∃ row, p.shared.store.task? task.taskId = some row ∧
      (hook.Confined fs task.payload ↔
        row.payload.get? "checkpoint_dir" = none ∨ hook.Confined fs row.payload) := by
  have hinit : Service.Conforms (fun _ => confining fs pf hook) (fun _ => True)
      (Confining fs pf hook) (fleetOn s) :=
    Service.conforms_initial (l := none) ⟨fun _ _ h => (nomatch h), fun _ h => (nomatch h)⟩ trivial
  obtain ⟨l, hJ, -⟩ := (confining_sound fs pf hook).invariant hrun hinit
  obtain ⟨row, hr, hp⟩ := hJ.called en hen x task hx hcalled
  exact ⟨row, hr, by rw [hp]; exact confined_fired_iff hroot row.payload⟩

/-! ## A directory outside the root -/

/-- The parts of a path between its slashes. -/
def pathParts : List Char → List (List Char)
  | [] => [[]]
  | '/' :: cs => [] :: pathParts cs
  | c :: cs =>
    match pathParts cs with
    | part :: parts => (c :: part) :: parts
    | [] => [[c]]

/-- One step of a resolution without symbolic links: `..` goes up, and stays at the top. -/
def stepInto (path : List (List Char)) : List Char → List (List Char)
  | [] | ['.'] => path
  | ['.', '.'] => path.dropLast
  | name => path ++ [name]

/-- Absolute paths on a machine without symbolic links. -/
def plainFiles : FileSystem where
  Path := List (List Char)
  resolve
    | .str s => .ok ((pathParts s.toList).foldl stepInto [])
    | v => .error (.typeError s!"expected str, bytes or os.PathLike object, not {v.typeName}")
  isRelativeTo path root := root.isPrefixOf path

def srvHook : CheckpointHook := ⟨"/srv/checkpoints"⟩

theorem srvHook_rooted : Rooted plainFiles srvHook := 
  ⟨rfl, fun path => List.isPrefixOf_iff_prefix.mpr (List.prefix_refl (path : List (List Char)))⟩

/-- A payload that climbs out of the root. -/
def climbingTask : TaskRecord :=
  pendingTask "t" (Dict.ofList [("checkpoint_dir", .str "/srv/checkpoints/../../etc")])

/-- Hooks answer as they do; the handler returns an empty result. -/
def Answers.hooked : Answers where
  clock := ⟨0, 0⟩
  ext
    | .hook name c => (hookedPayload plainFiles .bare srvHook name c.payload, c.result)
    | x => (Answers.steady 0 (.ok (.dict []))).ext x

/-- A worker with the checkpoint hook, up to its handler call. -/
def hookedRun : List (Act WorkerId Answers Job (Maintenance × Clock)) :=
  .start "A" { worker := {
    workerId := "A", hooks := ⟨[(.beforeTask, { qualname := qualname })]⟩ }, runId := "r" } ::
    List.replicate 12 (.call "A" .hooked)

/-- The payload the handler was called with last. -/
def handledPayload (log : List Entry) : Option Dict :=
  log.head?.bind fun en =>
    match en.effect with
    | .ext x => x.handled.map (·.payload)
    | .store _ => none

/-- The directory in a payload resolves to a path outside `/srv/checkpoints`. -/
def escapes (payload : Dict) : Bool :=
  match payload.get? "checkpoint_dir" with
  | some (.str dir) =>
    !(plainFiles.isRelativeTo ((pathParts dir.toList).foldl stepInto [])
      ((pathParts srvHook.root.toList).foldl stepInto []))
  | _ => false

theorem not_confined_of_escapes {payload : Dict} (h : escapes payload = true) :
    ¬ srvHook.Confined plainFiles payload := by
  rintro ⟨dir, requested, allowed, hdir, hreq, hall, hrel⟩
  unfold escapes at h
  rw [hdir] at h
  cases dir with
  | str s =>
    obtain rfl := Except.ok.inj hreq
    obtain rfl := Except.ok.inj hall
    exact Bool.false_ne_true ((Bool.not_eq_true' _ ▸ h).symm.trans hrel)
  | _ => cases h

theorem hookedRun_steps {task : TaskRecord} {p : FleetState}
    (h : (fleet .bare).machine.run (fleetOn (storeWith .sqlite .validated task)) hookedRun = some p) :
    (fleet .bare).machine.Steps (checkpointed plainFiles .bare srvHook).Meets
      (fleetOn (storeWith .sqlite .validated task)) p := by
  refine Machine.steps_of_run h (Machine.along_of_forall (fun a ha s => ?_) _)
  rcases List.mem_cons.mp ha with rfl | ha
  · exact ⟨{ qualname := qualname }, List.mem_singleton.mpr rfl, rfl⟩
  · obtain rfl := List.eq_of_mem_replicate ha
    simp only [Service.Guard.Meets]
    split
    · intro name t he
      subst he
      rfl
    · trivial

theorem handledPayload_some {log : List Entry} {payload : Dict}
    (h : handledPayload log = some payload) : ∃ en ∈ log, ∃ x task, en.effect = .ext x ∧
      x.handled = some task ∧ task.payload = payload := by
  obtain ⟨en, hen, h⟩ := Option.bind_eq_some_iff.mp h
  split at h
  next x hx =>
    obtain ⟨task, ht, hp⟩ := Option.map_eq_some_iff.mp h
    exact ⟨en, List.mem_of_head? hen, x, task, hx, ht, hp⟩
  next => cases h

/-- **A directory outside the root reaches the handler.** The hook raises, and the handler is
called all the same. -/
theorem escaping_directory_reaches_handler : ∃ p en x task,
    (fleet .bare).machine.Steps (checkpointed plainFiles .bare srvHook).Meets
      (fleetOn (storeWith .sqlite .validated climbingTask)) p ∧
    en ∈ p.shared.log ∧ en.effect = .ext x ∧ x.handled = some task ∧
    ¬ srvHook.Confined plainFiles task.payload := by
  have hrun : ((fleet .bare).machine.run (fleetOn (storeWith .sqlite .validated climbingTask))
      hookedRun).any (fun p => (handledPayload p.shared.log).any escapes) = true := by
    decide +kernel
  obtain ⟨p, hp, hesc⟩ := Option.any_eq_true _ _ |>.mp hrun
  obtain ⟨payload, hpayload, hesc⟩ := Option.any_eq_true _ _ |>.mp hesc
  obtain ⟨en, hen, x, task, hx, ht, rfl⟩ := handledPayload_some hpayload
  exact ⟨p, en, x, task, hookedRun_steps hp, hen, hx, ht, not_confined_of_escapes hesc⟩

/-- A task without a directory of its own is confined. -/
theorem root_directory_confined : ∃ p en x task,
    (fleet .bare).machine.Steps (checkpointed plainFiles .bare srvHook).Meets
      (fleetOn (storeWith .sqlite .validated (pendingTask "t" []))) p ∧
    en ∈ p.shared.log ∧ en.effect = .ext x ∧ x.handled = some task ∧
    srvHook.Confined plainFiles task.payload := by
  have hrun : ((fleet .bare).machine.run (fleetOn (storeWith .sqlite .validated (pendingTask "t" [])))
      hookedRun).any (fun p => (handledPayload p.shared.log).isSome &&
        (p.shared.store.tables.tasks.rows.all fun row =>
          (row.payload.get? "checkpoint_dir").isNone)) = true := by decide +kernel
  obtain ⟨p, hp, hrun⟩ := Option.any_eq_true _ _ |>.mp hrun
  rw [Bool.and_eq_true] at hrun
  obtain ⟨payload, hpayload⟩ := Option.isSome_iff_exists.mp hrun.1
  obtain ⟨en, hen, x, task, hx, ht, -⟩ := handledPayload_some hpayload
  obtain ⟨row, hr, hiff⟩ := checkpoint_confined_iff srvHook_rooted (hookedRun_steps hp) hen hx ht
  refine ⟨p, en, x, task, hookedRun_steps hp, hen, hx, ht, hiff.mpr (.inl ?_)⟩
  exact Option.isNone_iff_eq_none.mp
    (List.all_eq_true.mp hrun.2 row (Table.find?_eq_some_iff.mp hr).1)

end FineTuneHarness
