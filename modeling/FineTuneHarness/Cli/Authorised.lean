import FineTuneHarness.Executor.History
import FineTuneHarness.Safety.DatasetHashes

/-!
# An authorised database

Each run is executed after an event that lets its workers begin, and each approval is in the
name of somebody on the allowlist of the run. Whatever is added to such a database has to be
asked for these two things only.
-/
namespace FineTuneHarness

open Library Library.Program

/-! ## What the log has to say -/

/-- The event lets the workers of a run begin. -/
def EventRecord.clears (e : EventRecord) : Bool := e.kind ∈ ["run_approved", "approval_skipped"]

/-- Each `task_running` event has an event before it that lets the workers begin. -/
def ClearedFirst (log : List EventRecord) : Prop :=
  ∀ before e after, log = before ++ e :: after → e.kind = "task_running" →
    ∃ c ∈ before, c.clears = true

theorem ClearedFirst.append {log es : List EventRecord} (h : ClearedFirst log)
    (hes : ∀ e ∈ es, e.kind = "task_running" → ∃ c ∈ log, c.clears = true) :
    ClearedFirst (log ++ es) := by
  intro before e after heq hkind
  rcases List.append_eq_append_iff.mp heq with ⟨mid, rfl, hsplit⟩ | ⟨mid, rfl, hsplit⟩
  · -- the event is one of the new ones
    have hmem : e ∈ es := by rw [hsplit]; exact List.mem_append_right _ List.mem_cons_self
    obtain ⟨c, hc, hclears⟩ := hes e hmem hkind
    exact ⟨c, List.mem_append_left _ hc, hclears⟩
  · cases mid with
    | nil =>
      have hmem : e ∈ es := by rw [← show e :: after = es from hsplit]; exact List.mem_cons_self
      obtain ⟨c, hc, hclears⟩ := hes e hmem hkind
      rw [List.append_nil] at hc
      exact ⟨c, hc, hclears⟩
    | cons x mid =>
      obtain ⟨rfl, -⟩ := List.cons.inj hsplit
      exact h before e mid rfl hkind

/-- `approval.allowed_actors`, where it is a list. -/
def allowlist? (config : Dict) : Option (List PyVal) :=
  (Configs.section? config "approval").bind fun approval =>
    match approval.get "allowed_actors" with
    | .list actors => some actors
    | _ => none

/-- A section of a config comes back as the section it is by itself. -/
theorem section?_throughJson {config config' d : Dict} {key : String} (hkeys : config.stringKeys = true)
    (hkept : config.throughJson = .ok config') (h : Configs.section? config key = some d) :
    ∃ d', Configs.section? config' key = some d' ∧ d.throughJson = .ok d' := by
  unfold Configs.section? at h
  split at h
  swap; · cases h
  next d₀ hget =>
  obtain rfl := Option.some.inj h
  have hrel := Dict.throughJson_get? hkeys hkept key
  rw [Dict.get?_of_get hget (by intro h; cases h)] at hrel
  cases hget' : config'.get? key with
  | none => rw [hget'] at hrel; cases hrel
  | some v =>
    rw [hget'] at hrel
    cases hrel with
    | some hread =>
      obtain ⟨j, hj, rfl⟩ := hread
      obtain ⟨members, rfl⟩ := PyVal.dumps_dict hj
      refine ⟨loadsItems members, ?_, ?_⟩
      · rw [Configs.section?, Dict.get, hget']
        rfl
      · unfold Dict.throughJson
        rw [hj]
        rfl

/-- An allowlist that has been through JSON names the same actors. -/
theorem allowlist?_throughJson {config config' approval : Dict} {actors : List PyVal}
    (hkeys : config.stringKeys = true) (hkept : config.throughJson = .ok config')
    (hsection : Configs.section? config "approval" = some approval) (hkeys' : approval.stringKeys = true)
    (hlist : allowlist? config = some actors) :
    ∃ actors', allowlist? config' = some actors' ∧
      ∀ a, PyVal.str a ∈ actors' ↔ PyVal.str a ∈ actors := by
  obtain ⟨approval', hsection', hkept'⟩ := section?_throughJson hkeys hkept hsection
  rw [allowlist?, hsection, Option.bind_some] at hlist
  split at hlist
  swap; · cases hlist
  next xs hget =>
  obtain rfl := Option.some.inj hlist
  have hrel := Dict.throughJson_get? hkeys' hkept' "allowed_actors"
  rw [Dict.get?_of_get hget (by intro h; cases h)] at hrel
  cases hget' : approval'.get? "allowed_actors" with
  | none => rw [hget'] at hrel; cases hrel
  | some v =>
    rw [hget'] at hrel
    cases hrel with
    | some hread =>
      obtain ⟨j, hj, rfl⟩ := hread
      obtain ⟨js, hjs, rfl⟩ := Except.map_ok hj
      refine ⟨loadsList js, ?_, str_mem_loadsList hjs⟩
      rw [allowlist?, hsection', Option.bind_some, Dict.get, hget']
      rfl

/-- **The list on record** names the actors of the list that the run was created with. -/
theorem StateStore.createRun_allowlist {s s' : StateStore} {clk : Clock} {run : RunRecord}
    {approval : Dict} {actors : List PyVal} (h : s.exec (.createRun run) clk = (.ok (), s'))
    (hkeys : run.config.stringKeys = true)
    (hsection : Configs.section? run.config "approval" = some approval)
    (hkeys' : approval.stringKeys = true) (hlist : allowlist? run.config = some actors) :
    ∃ run' actors', s'.run? run.runId = some run' ∧ allowlist? run'.config = some actors' ∧
      ∀ a, PyVal.str a ∈ actors' ↔ PyVal.str a ∈ actors := by
  obtain ⟨run', hrun', hconfig, -⟩ := StateStore.createRun_keeps h
  unfold StateStore.keepDict at hconfig
  split at hconfig
  · rw [Except.ok.inj hconfig] at hlist
    exact ⟨run', actors, hrun', hlist, fun _ => Iff.rfl⟩
  · obtain ⟨actors', hlist', hsame⟩ := allowlist?_throughJson hkeys hconfig hsection hkeys' hlist
    exact ⟨run', actors', hrun', hlist', hsame⟩

namespace StateStore

/-- An event of the run lets its workers begin. -/
def Cleared (s : StateStore) (runId : RunId) : Prop := ∃ e ∈ s.eventsOf runId, e.clears = true

/-- The run of the event is on record, and its allowlist, if it has one, names the actor. -/
def NamesActor (s : StateStore) (e : EventRecord) : Prop :=
  ∃ run, s.run? e.runId = some run ∧ ∀ actors, allowlist? run.config = some actors →
    ∃ actor, e.payload.get? "actor" = some (.str actor) ∧ PyVal.str actor ∈ actors

/-- Events are added, and no config changes. -/
structure Grows (s s' : StateStore) : Prop where
  events : ∃ es, s'.events = s.events ++ es
  configs : ∀ id run, s.run? id = some run → ∃ run', s'.run? id = some run' ∧ run'.config = run.config

/-- What holds of the database between two requests. -/
structure Authorised (s : StateStore) : Prop where
  cleared : ∀ runId, ClearedFirst (s.eventsOf runId)
  named : ∀ e ∈ s.events, e.kind = "run_approved" → s.NamesActor e

section Grows

variable {s s' s'' : StateStore} {runId : RunId} {ev : EventRecord}

theorem Grows.refl (s : StateStore) : s.Grows s :=
  ⟨⟨[], (List.append_nil _).symm⟩, fun _ run h => ⟨run, h, rfl⟩⟩

theorem Grows.trans (h : s.Grows s') (h' : s'.Grows s'') : s.Grows s'' where
  events := by
    obtain ⟨es, hes⟩ := h.events
    obtain ⟨es', hes'⟩ := h'.events
    exact ⟨es ++ es', by rw [hes', hes, List.append_assoc]⟩
  configs := by
    intro id run hrun
    obtain ⟨run', hrun', hconfig⟩ := h.configs id run hrun
    obtain ⟨run'', hrun'', hconfig'⟩ := h'.configs id run' hrun'
    exact ⟨run'', hrun'', hconfig'.trans hconfig⟩

theorem exec_grows (s : StateStore) (clk : Clock) (op : StoreOp) : s.Grows (s.exec op clk).2 where
  events := s.exec_events clk op
  configs := by
    intro id run hrun
    refine ⟨_, s.exec_run? clk hrun op, ?_⟩
    unfold runAfter
    split <;> first | rfl | (split <;> rfl)

theorem perform_grows (s : StateStore) (e : Effect) (a : Answers) : s.Grows (e.perform a s).2 := by
  cases e with
  | store op => exact s.exec_grows a.clock op
  | ext x => exact .refl s

theorem Cleared.grow (h : s.Cleared runId) (hg : s.Grows s') : s'.Cleared runId := by
  obtain ⟨e, he, hclears⟩ := h
  obtain ⟨es, hes⟩ := hg.events
  refine ⟨e, ?_, hclears⟩
  rw [eventsOf, hes, List.filter_append]
  exact List.mem_append_left _ he

theorem NamesActor.grow (h : s.NamesActor ev) (hg : s.Grows s') : s'.NamesActor ev := by
  obtain ⟨run, hrun, hactor⟩ := h
  obtain ⟨run', hrun', hconfig⟩ := hg.configs _ run hrun
  exact ⟨run', hrun', by rw [hconfig]; exact hactor⟩

/-- New events may execute a run that is cleared, and approve one in the name of an allowed actor. -/
theorem Authorised.grow {es : List EventRecord} (h : s.Authorised) (hg : s.Grows s')
    (hes : s'.events = s.events ++ es)
    (hrunning : ∀ e ∈ es, e.kind = "task_running" → s.Cleared e.runId)
    (happroved : ∀ e ∈ es, e.kind = "run_approved" → s'.NamesActor e) : s'.Authorised where
  cleared runId := by
    rw [eventsOf, hes, List.filter_append]
    refine (h.cleared runId).append fun e he hkind => ?_
    obtain ⟨hmem, hrun⟩ := List.mem_filter.mp he
    obtain rfl := of_decide_eq_true hrun
    exact hrunning e hmem hkind
  named e he hkind := by
    rw [hes] at he
    rcases List.mem_append.mp he with he | he
    · exact (h.named e he hkind).grow hg
    · exact happroved e he hkind

/-- A request that approves nothing, and executes cleared runs only. -/
theorem Authorised.perform {P : EventRecord → Prop} {e : Effect} (h : s.Authorised)
    (he : Appends P e) (hP : ∀ ev, P ev → ev.kind ≠ "run_approved" ∧
      (ev.kind = "task_running" → s.Cleared ev.runId)) (a : Answers) :
    (e.perform a s).2.Authorised := by
  cases e with
  | ext x => exact h
  | store op =>
    obtain ⟨es, hes, hlogs⟩ := s.exec_logs a.clock op
    refine h.grow (s.exec_grows a.clock op) hes (fun ev hev => ?_) fun ev hev hkind => ?_
    · exact (hP ev (he ev (hlogs ev hev))).2
    · exact absurd hkind (hP ev (he ev (hlogs ev hev))).1

/-- An approval in the name of an allowed actor. -/
theorem Authorised.approve (h : s.Authorised) {actor : String} {run : RunRecord}
    (hpayload : ev.payload = Dict.ofList [("gate", .str "InteractiveApprovalGate"), ("actor", .str actor)])
    (hkind : ev.kind = "run_approved") (hrun : s.run? ev.runId = some run)
    (hallowed : ∀ actors, allowlist? run.config = some actors → PyVal.str actor ∈ actors) (a : Answers) :
    ((Effect.store (.appendEvent ev)).perform a s).2.Authorised := by
  have hg := s.exec_grows a.clock (.appendEvent ev)
  show (s.exec (.appendEvent ev) a.clock).2.Authorised
  rw [s.exec_appendEvent] at hg ⊢
  cases hk : s.keepEvent ev with
  | error x => exact h
  | ok ev' =>
    rw [hk] at hg
    obtain ⟨hid, -, hkind'⟩ := s.keepEvent_ok hk
    refine h.grow hg (s.addEvents_events [ev']) (fun e he hrunning => ?_) fun e he _ => ?_
    · obtain rfl := List.mem_singleton.mp he
      rw [hkind', hkind] at hrunning
      exact absurd hrunning (by decide)
    · obtain rfl := List.mem_singleton.mp he
      have hget : ev.payload.get? "actor" = some (.str actor) := by rw [hpayload]; rfl
      have hkeys : ev.payload.stringKeys = true := by rw [hpayload]; rfl
      refine ⟨run, by rw [hid]; exact hrun, fun actors hactors => ?_⟩
      exact ⟨actor, keepEvent_get? _ hk hkeys hget rfl rfl, hallowed actors hactors⟩

end Grows

end StateStore
end FineTuneHarness
