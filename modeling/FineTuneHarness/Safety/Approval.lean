import FineTuneHarness.Cli.Database
import FineTuneHarness.Executor.ConcurrentSpec

/-!
# Nothing runs unapproved

A run is executed after its gate has been passed, whatever commands there are and in whatever
order; and an allowlist binds the approvers, unless it is empty. `start-run` asks whether the
list is true where it has to ask whether it is there.
-/
namespace FineTuneHarness

open Library Library.Program

namespace Cli

/-! ## Children of a drain -/

/-- The children of one drain are started on its run. -/
def startsOn (runId : RunId) : FleetGuard where
  start := fun _ _ j => j.runId = runId

/-- A child logs what a worker of the run may log. -/
def working (runId : RunId) : Protocol Effect Effect.Reply Unit where
  may _ := Appends (OfWorker runId)
  learns _ _ _ _ := True

section Children

variable {pf : Platform} {runId : RunId} {l : StateStore} {c : Draining} {t t' : Concurrent} {a : DrainAct}

/-- Maintenance approves nothing and executes nothing. -/
theorem authorised_maintenance {s : StateStore} (h : s.Authorised) (d : Maintenance) (clk : Clock) :
    (s.exec d.op clk).2.Authorised := by
  have hkinds : ∀ ev, StateStore.Logs d.op ev →
      ev.kind ∈ ["lease_expired", "lease_reclaimed", "task_abandoned"] := by
    intro ev hlog
    cases d with
    | requeueExpiredLeases runId =>
      rw [hlog.2]
      decide
    | reclaimDeadWorker runId w n =>
      rcases hlog.2 with hkind | hkind <;> rw [hkind] <;> decide
  obtain ⟨es, hes, hlogs⟩ := s.exec_logs clk d.op
  refine h.grow (s.exec_grows clk d.op) hes (fun ev hev h => ?_) fun ev hev h => ?_
  · have hkind := hkinds ev (hlogs ev hev)
    rw [h] at hkind
    exact absurd hkind (by decide)
  · have hkind := hkinds ev (hlogs ev hev)
    rw [h] at hkind
    exact absurd hkind (by decide)

/-- What the children add is authorised as soon as the run has been cleared before. -/
theorem working_sound (pf : Platform) (h : l.Cleared runId) :
    (fleet pf).Sound (fun _ => working runId) (fun _ => True)
      (fun s _ => l.Grows s.store ∧ s.store.Authorised) (startsOn runId) where
  call s _ i e a hs hmay _ := by
    refine ⟨(), trivial, hs.1.trans (s.store.perform_grows e a), ?_⟩
    exact hs.2.perform hmay (ofWorker_harmless (h.grow hs.1)) a
  start s _ i job prog s' hs _ hrun hspawn := by
    obtain ⟨-, rfl, rfl⟩ := fleet_spawn hspawn
    obtain rfl : job.runId = runId := hrun
    exact ⟨(), (job.workerFor i).ofWorker_runOnce pf job.memory job.runId, hs⟩
  crash s _ i hs _ := ⟨(), hs⟩
  env s _ d s' hs _ henv := by
    obtain rfl := Option.some.inj henv
    exact ⟨hs.1.trans (s.store.exec_grows d.2 d.1.op), authorised_maintenance hs.2 d.1 d.2⟩

/-- Every child keeps to what a worker may log, on a store that has grown from `l`. -/
abbrev InOrder (l : StateStore) (runId : RunId) (pool : FleetState) : Prop :=
  Service.Conforms (fun _ => working runId) (fun _ => True)
    (fun (s : Traced) (_ : WorkerId → Unit) => l.Grows s.store ∧ s.store.Authorised) pool

theorem inOrder_step (hl : l.Cleared c.runId) (h : InOrder l c.runId t.pool)
    (hs : Concurrent.Steps c pf t a t') : InOrder l c.runId t'.pool := by
  have hstep : ∀ {act : Act WorkerId Answers Job (Maintenance × Clock)} {pool : FleetState},
      (fleet pf).machine.step t.pool act = some pool → (startsOn c.runId).Meets t.pool act →
      InOrder l c.runId pool := fun hpool hmeets => (working_sound pf hl).step h hmeets hpool
  cases hs with
  | begin child stage fleet =>
    apply hstep fleet
    rfl
  | call child stage fleet =>
    apply hstep fleet
    unfold Service.Guard.Meets
    dsimp only
    split <;> trivial
  | die child stage fleet =>
    apply hstep fleet
    trivial
  | reclaim point fleet loop =>
    apply hstep fleet
    trivial
  | report | leave | count | pass | launch | deliver | timeout | look | join | conclude => exact h

end Children

/-! ## Processes -/

/-- The rest of a process keeps to the rules. -/
def Process.Abides (s : StateStore) : Process → Prop
  | .idle => True
  | .command cmd p =>
    p.wp (onDatabase cmd) (fun o l' => ∀ c, o = some c → l'.Cleared c.runId) (fun _ _ => True) s
  | .draining c t => s.Cleared c.runId ∧
    ∀ i, (t.pool.client i).Conforms (working c.runId) (fun _ => True) ()

theorem Process.Abides.grow {s s' : StateStore} {p : Process} (h : p.Abides s) (hg : s.Grows s') :
    p.Abides s' := by
  cases p with
  | idle => trivial
  | command cmd p =>
    refine wp_carry h (fun e hmay s'' a hg' => hmay s'' a (hg.trans hg')) (fun e r l'' hl => ?_)
      (fun o hcleared c hc => (hcleared c hc).grow hg) fun _ _ => trivial
    obtain ⟨s'', a, hg', hperform⟩ := hl
    exact ⟨s'', a, hg.trans hg', hperform⟩
  | draining c t => exact ⟨h.1.grow hg, h.2⟩

namespace Shell

/-- What holds between two steps of the processes. -/
structure InOrder (s : Shell) : Prop where
  authorised : s.store.Authorised
  abides : ∀ i, (s.process i).Abides s.store

/-- No `start-run` that is answered with yes asks for a run with an empty allowlist. -/
def Enforced (s : Shell) : ShellAct → Prop
  | .request i _ =>
    match s.process i with
    | .command cmd _ => cmd.Enforced s.store
    | _ => True
  | _ => True

instance (s : StateStore) : DecidablePred (Command.Enforced s)
  | .startRun _ _ answer => inferInstanceAs (Decidable (isYes answer = true → _ = false))
  | .createRun .. | .run _ => .isTrue trivial

instance (s : Shell) : DecidablePred s.Enforced
  | .request i _ =>
    match h : s.process i with
    | .command cmd _ => decidable_of_iff (cmd.Enforced s.store) (by simp only [Enforced, h])
    | .idle | .draining .. => .isTrue (by simp only [Enforced, h])
  | .enter .. | .loop _ | .drain .. | .leave _ => .isTrue trivial

variable {pf : Platform} {s s' : Shell} {a : ShellAct}

theorem InOrder.put {i : Nat} {store : StateStore} {p : Process} (h : s.InOrder)
    (hg : s.store.Grows store) (hauth : store.Authorised) (hp : p.Abides store) :
    (s.put i store p).InOrder where
  authorised := hauth
  abides j := by
    show (Function.update s.process i p j).Abides store
    by_cases hj : j = i
    · subst hj
      rw [Function.update_self]
      exact hp
    · rw [Function.update_of_ne hj]
      exact (h.abides j).grow hg

theorem InOrder.initial : Shell.initial.InOrder where
  authorised := {
    cleared := fun _ before e after heq _ => by cases before <;> cases heq
    named := fun e he _ => by cases he }
  abides _ := trivial

/-- A step of a drain leaves the database in order for everybody. -/
theorem InOrder.drain {i : Nat} {c : Draining} {t t' : Concurrent} {act : DrainAct} (h : s.InOrder)
    (hp : s.process i = .draining c t) (hs : (t.onStore s.store).step c pf act = some t') :
    (s.put i t'.pool.shared.store (.draining c t')).InOrder := by
  have habides := h.abides i
  rw [hp] at habides
  obtain ⟨hcleared, hclients⟩ := habides
  have hpool : Cli.InOrder s.store c.runId (t.onStore s.store).pool :=
    ⟨fun _ => (), ⟨.refl s.store, h.authorised⟩, hclients⟩
  obtain ⟨l, ⟨hg, hauth⟩, hclients'⟩ := inOrder_step hcleared hpool (Concurrent.step_steps hs)
  exact h.put hg hauth ⟨hcleared.grow hg, hclients'⟩

theorem InOrder.step (h : s.InOrder) (hk : s.Enforced a) (hs : s.step pf a = some s') : s'.InOrder := by
  cases a with
  | enter i osUser cmd =>
    simp only [Shell.step] at hs
    split at hs
    · obtain rfl := Option.some.inj hs
      exact h.put (.refl _) h.authorised (cmd.onDatabase_program pf osUser s.store)
    · cases hs
  | request i ans =>
    simp only [Shell.step] at hs
    split at hs
    next cmd e next hp =>
      obtain rfl := Option.some.inj hs
      have habides := h.abides i
      rw [hp] at habides
      obtain ⟨hmay, hrest⟩ := habides
      have hfull : cmd.Enforced s.store := by
        simp only [Enforced, hp] at hk
        exact hk
      exact h.put (s.store.perform_grows e ans) (hmay s.store ans (.refl _) hfull h.authorised)
        (hrest _ _ ⟨s.store, ans, .refl _, hfull, rfl⟩)
    next => cases hs
  | loop i =>
    simp only [Shell.step] at hs
    split at hs
    next cmd c hp =>
      obtain rfl := Option.some.inj hs
      have habides := h.abides i
      rw [hp] at habides
      exact h.put (.refl _) h.authorised ⟨habides c rfl, fun _ => trivial⟩
    next => cases hs
  | drain i act =>
    simp only [Shell.step] at hs
    split at hs
    next c t hp =>
      obtain ⟨t', ht, rfl⟩ := Option.map_eq_some_iff.mp hs
      exact h.drain hp ht
    next => cases hs
  | leave i =>
    obtain rfl := Option.some.inj hs
    exact h.put (.refl _) h.authorised trivial

end Shell

/-- **Executions through the commands are authorised**, in every state that any number of commands
can bring the database to, if no `start-run` on an empty allowlist is answered with yes: what is
executed has been approved or let through before, and whoever approved is on the list. -/
theorem executions_authorised {pf : Platform} {s : Shell}
    (h : (shell pf).Steps Shell.Enforced .initial s) (runId : RunId) :
    ClearedFirst (s.store.eventsOf runId) ∧
      ∀ run actors, s.store.run? runId = some run → allowlist? run.config = some actors →
        ∀ e ∈ s.store.eventsOf runId, e.kind = "run_approved" →
          ∃ actor, e.payload.get? "actor" = some (.str actor) ∧ PyVal.str actor ∈ actors := by
  have horder : s.InOrder := h.invariant Shell.InOrder.initial fun _ _ _ hI hk hs => hI.step hk hs
  refine ⟨horder.authorised.cleared runId, fun run actors hrun hactors e he hkind => ?_⟩
  obtain ⟨hmem, hid⟩ := List.mem_filter.mp he
  obtain ⟨run', hrun', hnamed⟩ := horder.authorised.named e hmem hkind
  rw [of_decide_eq_true hid, hrun] at hrun'
  obtain rfl := Option.some.inj hrun'
  exact hnamed actors hactors

/-! ## A small session -/

/-- The least config, with an allowlist. -/
def configFor (actors : List String) : Dict :=
  demoConfig.set "approval" (.dict (Dict.ofList [("allowed_actors", .list (actors.map .str))]))

/-- One command after the other, each with a number of requests. -/
def session : List (Command × Nat) → List ShellAct
  | [] => []
  | (cmd, n) :: rest =>
    [.enter 0 none cmd] ++ (List.range n).map (fun k => .request 0 (Answers.numbered 0 k)) ++ [.leave 0] ++
      session rest

/-- A run is created, and `approver` says yes to it. -/
def approval (actors : List String) (approver : String) : List (Command × Nat) :=
  [(.createRun false "demo" (configFor actors) [[]], 10), (.startRun "0" (some approver) (some "y"), 4)]

/-- **The empty allowlist.** Nobody may approve the run, and `start-run` lets anybody. -/
theorem empty_allowlist_admits_anybody : ∃ s : Shell, (shell .bare).Reaches .initial s ∧
    ∃ run, s.store.run? "0" = some run ∧ allowlist? run.config = some [] ∧
      ∃ e ∈ s.store.eventsOf "0", e.kind = "run_approved" ∧
        ¬ ∃ actor, e.payload.get? "actor" = some (.str actor) ∧ PyVal.str actor ∈ ([] : List PyVal) := by
  have hrun : ((shell .bare).run .initial (session (approval [] "mallory"))).any (fun s =>
      (s.store.run? "0").any (fun run => (allowlist? run.config).any List.isEmpty) &&
        (s.store.eventsOf "0").any fun e => e.kind = "run_approved") = true := by decide +kernel
  obtain ⟨s, hs, hb⟩ := Option.any_eq_true _ _ |>.mp hrun
  obtain ⟨hlist, happroved⟩ := Bool.and_eq_true _ _ |>.mp hb
  obtain ⟨run, hr, hlist⟩ := Option.any_eq_true _ _ |>.mp hlist
  obtain ⟨actors, hactors, hempty⟩ := Option.any_eq_true _ _ |>.mp hlist
  obtain rfl := List.isEmpty_iff.mp hempty
  obtain ⟨e, he, hkind⟩ := List.any_eq_true.mp happroved
  refine ⟨s, Machine.reaches_of_run hs, run, hr, hactors, e, he, of_decide_eq_true hkind, ?_⟩
  rintro ⟨actor, -, hmem⟩
  cases hmem

/-- A run is created, approved by somebody on its list, and executed. -/
def execution : List (Command × Nat) :=
  approval ["alice"] "alice" ++ [(.run { runId := "0", rounds := 1 }, 8)]

/-- Somebody on the list approves the run, and its task is executed. -/
theorem approved_run_executes : ∃ s : Shell,
    (shell .bare).run .initial (session execution) = some s ∧
    (∃ e ∈ s.store.eventsOf "0", e.kind = "task_running") ∧ ClearedFirst (s.store.eventsOf "0") := by
  have hrun : ((shell .bare).run .initial (session execution)).any (fun s =>
      (s.store.eventsOf "0").any fun e => e.kind = "task_running") = true := by decide +kernel
  have halong : (shell .bare).Along Shell.Enforced .initial (session execution) := by decide +kernel
  obtain ⟨s, hs, hb⟩ := Option.any_eq_true _ _ |>.mp hrun
  obtain ⟨e, he, hkind⟩ := List.any_eq_true.mp hb
  exact ⟨s, hs, ⟨e, he, of_decide_eq_true hkind⟩,
    (executions_authorised (Machine.steps_of_run hs halong) "0").1⟩

end Cli
end FineTuneHarness
