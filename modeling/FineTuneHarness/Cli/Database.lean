import FineTuneHarness.Cli.Authorised
import FineTuneHarness.Cli.Commands

/-!
# What a command does to the database

A command knows an earlier state of the database; whatever others have added since, its next
request leaves the database authorised.
-/
namespace FineTuneHarness

open Library Library.Program

/-! ## The commands -/

namespace Cli

/-- The allowlist of the run is there, and it is empty. -/
def emptyAllowlist (s : StateStore) (runId : RunId) : Bool :=
  ((s.run? runId).bind fun run => allowlist? run.config).any List.isEmpty

/-- A `start-run` that is answered with yes is not about a run with an empty allowlist. -/
def Command.Enforced (s : StateStore) : Command → Prop
  | .startRun runId _ answer => isYes answer = true → emptyAllowlist s runId = false
  | _ => True

/-- What a command knows is an earlier state of the database; others may have added to it. -/
def onDatabase (cmd : Command) : Protocol Effect Effect.Reply StateStore where
  may l e := ∀ s a, l.Grows s → cmd.Enforced s → s.Authorised → (e.perform a s).2.Authorised
  learns l e r l' := ∃ s a, l.Grows s ∧ cmd.Enforced s ∧ e.perform a s = (r, l')

section Commands

variable {cmd : Command} {l : StateStore} {α : Type} {p : Prog α} {runId : RunId}

/-- A call that reads. -/
theorem onDatabase_read {op : StoreOp} {f : StateStore → op.Reply} {Q : op.Reply → StateStore → Prop}
    {E : PyExc → StateStore → Prop} (hread : ∀ (s : StateStore) clk, s.exec op clk = (.ok (f s), s))
    (h : ∀ s, l.Grows s → cmd.Enforced s → Q (f s) s) : (call op).wp (onDatabase cmd) Q E l := by
  refine wp_call.mpr ⟨fun s a _ _ hs => ?_, fun r l' hl => ?_⟩
  · show (s.exec op a.clock).2.Authorised
    rw [hread]
    exact hs
  · obtain ⟨s, a, hg, he, hperform⟩ := hl
    have hexec : s.exec op a.clock = (r, l') := hperform
    rw [hread] at hexec
    obtain ⟨rfl, rfl⟩ := Prod.mk.inj hexec
    exact h s hg he

/-- A part of a command that approves nothing and executes cleared runs only. -/
theorem onDatabase_appends {P : EventRecord → Prop} (hp : p.Only (Appends P))
    (hP : ∀ ev, P ev → ev.kind ≠ "run_approved" ∧ (ev.kind = "task_running" → l.Cleared ev.runId)) :
    p.wp (onDatabase cmd) (fun _ => l.Grows) (fun _ => l.Grows) l := by
  refine wp_keep_of_only hp (fun l' e hl he => ⟨fun s a hg _ hs => ?_, fun r l'' hlearn => ?_⟩) (.refl l)
  · refine hs.perform he (fun ev hev => ⟨(hP ev hev).1, fun hkind => ?_⟩) a
    exact ((hP ev hev).2 hkind).grow (hl.trans hg)
  · obtain ⟨s, a, hg, -, hperform⟩ := hlearn
    have hlater := s.perform_grows e a
    rw [hperform] at hlater
    exact (hl.trans hg).trans hlater

/-! ### `create-run` -/

theorem onDatabase_createRun (pf : Platform) (memory : Bool) (name : String) (config : Dict)
    (tasks : List Dict) : (Cli.createRun pf memory name config tasks).wp (onDatabase cmd)
      (fun _ _ => True) (fun _ _ => True) l := by
  unfold Cli.createRun
  split
  · trivial
  · refine (wp_bind _ _).mpr (wp_mono (onDatabase_appends (createRun_appends pf name config tasks) ?_)
      (fun _ _ _ => trivial) fun _ _ _ => trivial)
    intro ev hkind
    constructor
    · intro h
      rw [h] at hkind
      exact absurd hkind (by decide)
    · intro h
      rw [h] at hkind
      exact absurd hkind (by decide)

/-! ### `start-run` -/

theorem mem_of_isAmong {actor : String} {actors : List PyVal} (h : isAmong actor actors = true) :
    PyVal.str actor ∈ actors := by
  obtain ⟨v, hv, heq⟩ := List.any_eq_true.mp h
  cases v with
  | str a =>
    obtain rfl := of_decide_eq_true heq
    exact hv
  | _ => cases heq

/-- Who passes the gate is allowed by it, and has been answered for. -/
theorem check_ok {pf : Platform} {gate : InteractiveApprovalGate} {answer : Option String}
    {actor : String} (h : gate.check pf runId answer = .ok actor) : isYes answer = true ∧
      ∀ actors, gate.allowedActors = some actors → PyVal.str actor ∈ actors := by
  obtain ⟨_, hauth, h⟩ := Except.bind_ok h
  split at h
  next hyes =>
    obtain rfl := Except.ok.inj h
    refine ⟨hyes, fun actors hactors => ?_⟩
    unfold InteractiveApprovalGate.authorize at hauth
    rw [hactors] at hauth
    dsimp only at hauth
    split at hauth
    next hin => exact mem_of_isAmong hin
    next =>
      obtain ⟨_, -, hauth⟩ := Except.bind_ok hauth
      cases hauth
  next => cases h

/-- A list that is not empty reaches the gate as it is. -/
theorem allowedActors_of_list {config : Dict} {allowed : Option (List PyVal)} {actors : List PyVal}
    (h : allowedActors config = .ok allowed) (hlist : allowlist? config = some actors)
    (hne : actors ≠ []) : allowed = some actors := by
  obtain ⟨approval, happroval, hactors⟩ := Option.bind_eq_some_iff.mp hlist
  unfold allowedActors at h
  rw [happroval] at h
  dsimp only at h
  split at hactors
  next xs hget =>
    obtain rfl := Option.some.inj hactors
    rw [hget] at h
    cases xs with
    | nil => exact absurd rfl hne
    | cons x xs => exact (Except.ok.inj h).symm
  next => cases hactors

/-- The allowlist that `start-run` has read binds whoever it lets approve. -/
theorem approver_allowed {pf : Platform} {config : Dict} {allowed : Option (List PyVal)} {actor who : String}
    {answer : Option String} {s : StateStore} {run : RunRecord}
    (hread : allowedActors config = .ok allowed)
    (hcheck : InteractiveApprovalGate.check pf ⟨who, allowed⟩ runId answer = .ok actor)
    (hrun : s.run? runId = some run) (hconfig : run.config = config)
    (hfull : isYes answer = true → emptyAllowlist s runId = false) (actors : List PyVal)
    (hactors : allowlist? run.config = some actors) : PyVal.str actor ∈ actors := by
  obtain ⟨hyes, hin⟩ := check_ok hcheck
  have hne : actors ≠ [] := by
    rintro rfl
    have hfull := hfull hyes
    rw [emptyAllowlist, hrun, Option.bind_some, hactors] at hfull
    cases hfull
  rw [hconfig] at hactors
  exact hin actors (allowedActors_of_list hread hactors hne)

theorem onDatabase_awaitApproval {pf : Platform} {config : Dict} {allowed : Option (List PyVal)}
    {who : String} {approver answer : Option String} (hread : allowedActors config = .ok allowed)
    (hconfig : ∀ s run, l.Grows s → s.run? runId = some run → run.config = config) :
    (awaitApproval pf runId ⟨who, allowed⟩ answer).wp (onDatabase (.startRun runId approver answer))
      (fun _ _ => True) (fun _ _ => True) l := by
  refine (wp_bind _ _).mpr (onDatabase_read (fun s clk => s.exec_getRun clk runId) fun s hg _ => ?_)
  cases hrun : s.run? runId with
  | none => trivial
  | some run =>
    refine (wp_bind _ _).mpr (onDatabase_read (fun s clk => s.exec_listTasks clk runId) fun s' hg' _ => ?_)
    rw [s.run?_runId hrun]
    refine (wp_bind _ _).mpr ((wp_ofExcept _).mpr ?_)
    cases hcheck : InteractiveApprovalGate.check pf ⟨who, allowed⟩ runId answer with
    | error exc => trivial
    | ok actor =>
      refine wp_call.mpr ⟨fun s'' a hg'' hfull hs => ?_, fun r _ _ => by cases r <;> trivial⟩
      have hlater := hg'.trans hg''
      obtain ⟨run'', hrun'', -⟩ := hlater.configs runId run hrun
      exact hs.approve rfl rfl hrun''
        (approver_allowed hread hcheck hrun'' (hconfig s'' run'' (hg.trans hlater) hrun'') hfull) a

theorem onDatabase_startRun (pf : Platform) (osUser approver answer : Option String) (runId : RunId)
    (l : StateStore) : (startRun pf osUser runId approver answer).wp
      (onDatabase (.startRun runId approver answer)) (fun _ _ => True) (fun _ _ => True) l := by
  refine (wp_bind _ _).mpr (onDatabase_read (fun s clk => s.exec_getRun clk runId) fun s hg _ => ?_)
  cases hrun : s.run? runId with
  | none => trivial
  | some run =>
    refine (wp_bind _ _).mpr ((wp_ofExcept _).mpr ?_)
    cases hread : allowedActors run.config with
    | error exc => trivial
    | ok allowed =>
      refine (wp_bind _ _).mpr ((wp_attempt _).mpr (wp_mono (onDatabase_awaitApproval hread ?_)
        (fun _ _ _ => trivial) fun exc _ _ => ?_))
      · intro s' run' hg' hrun'
        obtain ⟨run'', hrun'', hconfig⟩ := hg'.configs runId run hrun
        rw [hrun'] at hrun''
        rw [Option.some.inj hrun'']
        exact hconfig
      · dsimp only
        split <;> trivial

/-! ### `run` -/

theorem onDatabase_skip {ev : EventRecord} (hkind : ev.kind = "approval_skipped") :
    (call (.appendEvent ev)).wp (onDatabase cmd) (fun _ l' => l'.Cleared ev.runId)
      (fun _ _ => True) l := by
  refine wp_call.mpr ⟨fun s a _ _ hs => ?_, fun r l' hl => ?_⟩
  · have happ : Appends (fun e => e.kind = "approval_skipped") (.store (.appendEvent ev)) :=
      fun e hlog => hlog.2.2.trans hkind
    refine hs.perform happ (fun e hskip => ?_) a
    rw [hskip]
    exact ⟨by decide, fun h => absurd h (by decide)⟩
  · obtain ⟨s, a, -, -, hperform⟩ := hl
    have hexec : s.exec (.appendEvent ev) a.clock = (r, l') := hperform
    rw [s.exec_appendEvent] at hexec
    cases hk : s.keepEvent ev with
    | error x =>
      rw [hk] at hexec
      obtain ⟨rfl, -⟩ := Prod.mk.inj hexec
      trivial
    | ok e =>
      rw [hk] at hexec
      obtain ⟨rfl, rfl⟩ := Prod.mk.inj hexec
      obtain ⟨hid, -, hkept⟩ := s.keepEvent_ok hk
      have hmem : e ∈ s.events ++ [e] := List.mem_append_right _ List.mem_cons_self
      refine ⟨e, List.mem_filter.mpr ⟨hmem, decide_eq_true hid⟩, ?_⟩
      rw [EventRecord.clears, hkept, hkind]
      decide

/-- **The gate of `run`**: whoever gets past it has a run that is cleared. -/
theorem onDatabase_passGate (osUser : Option String) (args : RunArgs) (l : StateStore) :
    (passGate osUser args).wp (onDatabase cmd) (fun _ l' => l'.Cleared args.runId) (fun _ _ => True) l := by
  unfold passGate
  split
  · exact onDatabase_skip rfl
  · refine (wp_bind _ _).mpr (onDatabase_read (fun s clk => s.exec_listEvents clk args.runId) fun s _ _ => ?_)
    split
    next happroved =>
      obtain ⟨e, he, hkind⟩ := List.any_eq_true.mp happroved
      refine ⟨e, he, ?_⟩
      rw [EventRecord.clears, of_decide_eq_true hkind]
      decide
    next => trivial

/-- A worker of a cleared run approves nothing. -/
theorem ofWorker_harmless (h : l.Cleared runId) (ev : EventRecord) (hev : OfWorker runId ev) :
    ev.kind ≠ "run_approved" ∧ (ev.kind = "task_running" → l.Cleared ev.runId) := by
  obtain ⟨rfl, hkind⟩ := hev
  refine ⟨fun h => ?_, fun _ => h⟩
  rw [h] at hkind
  exact absurd hkind (by decide)

theorem onDatabase_drainRun (pf : Platform) (args : RunArgs) (h : l.Cleared args.runId) :
    (drainRun pf args).wp (onDatabase cmd) (fun o l' => ∀ c, o = some c → l'.Cleared c.runId)
      (fun _ _ => True) l := by
  unfold drainRun
  split
  · refine (wp_bind _ _).mpr (wp_mono (onDatabase_appends (only_ofWorker
      (LocalWorker.routine_startRun _ [] args.runId)) (ofWorker_harmless h)) (fun mem l' hg => ?_)
      fun _ _ _ => trivial)
    refine (wp_bind _ _).mpr (wp_mono (onDatabase_appends (P := OfWorker args.runId)
      (OfWorker.record (by decide)) (ofWorker_harmless (h.grow hg))) (fun _ l'' hg' => ?_)
      fun _ _ _ => trivial)
    intro c hc
    obtain rfl := Option.some.inj hc
    exact (h.grow hg).grow hg'
  · refine (wp_bind _ _).mpr (wp_mono (onDatabase_appends
      (LocalWorker.ofWorker_drain pf _ args.rounds [] args.runId) (ofWorker_harmless h))
      (fun _ _ _ c hc => ?_) fun _ _ _ => trivial)
    cases hc

theorem onDatabase_run (pf : Platform) (osUser : Option String) (args : RunArgs) (l : StateStore) :
    (run pf osUser args).wp (onDatabase cmd) (fun o l' => ∀ c, o = some c → l'.Cleared c.runId)
      (fun _ _ => True) l := by
  refine (wp_bind _ _).mpr (onDatabase_read (fun s clk => s.exec_getRun clk args.runId) fun s _ _ => ?_)
  cases s.run? args.runId with
  | none => trivial
  | some _ =>
    refine (wp_bind _ _).mpr (wp_mono (onDatabase_passGate osUser args s) (fun _ l' hcleared => ?_)
      fun _ _ _ => trivial)
    split
    · exact onDatabase_drainRun pf args hcleared
    · trivial

/-- **Every command keeps to the rules**; one that goes on as the parent of children has its run
cleared. -/
theorem Command.onDatabase_program (pf : Platform) (osUser : Option String) (cmd : Command)
    (l : StateStore) : (cmd.program pf osUser).wp (onDatabase cmd)
      (fun o l' => ∀ c, o = some c → l'.Cleared c.runId) (fun _ _ => True) l := by
  cases cmd with
  | createRun memory name config tasks =>
    refine (wp_bind _ _).mpr (wp_mono (onDatabase_createRun pf memory name config tasks)
      (fun _ _ _ c hc => ?_) fun _ _ _ => trivial)
    cases hc
  | startRun runId approver answer =>
    refine (wp_bind _ _).mpr (wp_mono (onDatabase_startRun pf osUser approver answer runId l)
      (fun _ _ _ c hc => ?_) fun _ _ _ => trivial)
    cases hc
  | run args => exact onDatabase_run pf osUser args l

end Commands

end Cli
end FineTuneHarness
