import FineTuneHarness.Executor.Persisted

/-!
# What the end of a `run_once` says about its task

A call of `run_once` moves at most one task to `SUCCEEDED`. Where it returns a task it has moved
it, and where it finds none it has moved none; where it raises it may have done either.
-/
namespace FineTuneHarness

open Library Library.Program

/-- An update of a task to `SUCCEEDED` that went through. -/
def succeeds : (e : Effect) → e.Reply → Bool
  | .store (.updateTaskStatus _ .succeeded _ _), .ok _ => true
  | _, _ => false

/-- Requests that create no task and move none to `SUCCEEDED`. -/
def Unsucceeding : Effect → Prop
  | .store (.createTask _) => False
  | .store (.updateTaskStatus _ st _ _) => st ≠ .succeeded
  | _ => True

/-- One task is moved to `SUCCEEDED` at most. The local state says whether one has been. -/
def tallying : Protocol Effect Effect.Reply Bool where
  may := fun l e => Unsucceeding e ∨
    l = false ∧ ∃ t r err, e = .store (.updateTaskStatus t .succeeded r err)
  learns := fun l e r l' => l' = (l || succeeds e r)

/-- What the end of a `run_once` tells of its task. -/
structure Tells (out : Outcome) (succeeded : Bool) : Prop where
  returned : ∀ t, out.2 = .ok (some t) → succeeded = true
  empty : out.2 = .ok none → succeeded = false

theorem Unjudged.unsucceeding {e : Effect} (h : Unjudged e) : Unsucceeding e := by
  cases e with
  | ext x => trivial
  | store op =>
    cases op with
    | createTask t => exact h.elim
    | updateTaskStatus t st r err =>
      rintro rfl
      have h : TaskStatus.succeeded.judged = false := h
      cases h
    | _ => trivial

theorem Unsucceeding.not_succeeds {e : Effect} (h : Unsucceeding e) (r : e.Reply) :
    succeeds e r = false := by
  cases e with
  | ext x => rfl
  | store op =>
    cases op with
    | updateTaskStatus t st res err =>
      have h : st ≠ .succeeded := h
      cases st <;> first | rfl | exact absurd rfl h
    | _ => rfl

/-- A success is the first of its `run_once`. -/
theorem tallying_once {l : Bool} {e : Effect} {r : e.Reply} (hm : tallying.may l e)
    (hs : succeeds e r = true) : l = false := by
  rcases hm with h | ⟨h, -⟩
  · rw [h.not_succeeds r] at hs
    cases hs
  · exact h

theorem tallying_ignores {l : Bool} {e : Effect} (h : Unsucceeding e) : tallying.Ignores l e where
  may := .inl h
  stays r l' hl := by rw [hl, h.not_succeeds r, Bool.or_false]

theorem only_unsucceeding {α : Type} {p : Prog α} (h : p.Only Quiet) : p.Only Unsucceeding :=
  h.mono fun _ he => he.unjudged.unsucceeding

/-- Requests that move no task, and then the rest. -/
theorem tallying_bind {α β : Type} {p : Prog α} {f : α → Prog β} {l : Bool}
    {Q : β → Bool → Prop} (hp : p.Only Unsucceeding)
    (hf : ∀ a, (f a).wp tallying Q (fun _ _ => True) l) :
    (p >>= f).wp tallying Q (fun _ _ => True) l :=
  (wp_bind _ _).mpr (wp_of_only hp (fun _ => tallying_ignores) hf fun _ => trivial)

theorem tallying_quiet {α β : Type} {p : Prog α} {f : α → Prog β} {l : Bool}
    {Q : β → Bool → Prop} (hp : p.Only Quiet) (hf : ∀ a, (f a).wp tallying Q (fun _ _ => True) l) :
    (p >>= f).wp tallying Q (fun _ _ => True) l :=
  tallying_bind (only_unsucceeding hp) hf

theorem Unjudged.only {α : Type} {p : Prog α} (h : p.Only Unjudged) : p.Only Unsucceeding :=
  h.mono fun _ => Unjudged.unsucceeding

theorem Unsucceeding.call {op : StoreOp} (h : Unsucceeding (.store op)) :
    (call op).Only Unsucceeding := by
  simp only [Only, wp_call]
  exact ⟨h, fun r _ _ => by cases r <;> trivial⟩

namespace LocalWorker

variable (pf : Platform) (w : LocalWorker) {l : Bool} {Q : TaskRecord → Bool → Prop}

/-! ## The branches that raise -/

theorem tallying_notify (c : HookCall) (a : Attempt) (p : HookPoint) (st : RunStatus)
    {k : HookCall → Prog TaskRecord} (hk : ∀ c, (k c).wp tallying Q (fun _ _ => True) l) :
    (do
      let c ← w.hooks.fire c
      w.recordHookFired a p
      w.announceStatus a st
      k c : Prog TaskRecord).wp tallying Q (fun _ _ => True) l :=
  tallying_quiet (only_quiet (still_fire _ _)) fun c =>
    tallying_quiet (only_quiet (w.still_recordHookFired _ _)) fun _ =>
    tallying_quiet (only_quiet (w.still_announceStatus _ _)) fun _ => hk c

theorem tallying_onTimeout (a : Attempt) (payload : Dict) (exc : PyExc) :
    (w.onTimeout a payload exc).wp tallying Q (fun _ _ => True) l :=
  tallying_bind (Unsucceeding.call nofun) fun _ =>
    tallying_quiet (only_quiet (w.still_recordAttempt _ (by decide))) fun _ =>
    tallying_quiet (only_refreshRunStatus _) fun _ => w.tallying_notify _ _ _ _ fun _ => trivial

theorem tallying_onException (a : Attempt) (payload : Dict) (exc : PyExc) :
    (w.onException pf a payload exc).wp tallying Q (fun _ _ => True) l :=
  tallying_bind (Unjudged.only (w.unjudged_requeueOnOom a exc)) fun _ =>
    tallying_quiet (only_ofExcept _) fun m =>
    tallying_bind (Unjudged.only (w.unjudged_recordFailure a exc m)) fun _ =>
    tallying_quiet (only_refreshRunStatus _) fun _ => w.tallying_notify _ _ _ _ fun _ =>
    tallying_quiet (only_quiet (w.still_backOff _ _)) fun _ => trivial

theorem tallying_recordDegenerate (a : Attempt) (payload result : Dict) (o : ValidationOutcome) :
    (w.recordDegenerate pf a payload result o).wp tallying Q (fun _ _ => True) l :=
  tallying_bind (Unsucceeding.call nofun) fun _ =>
    tallying_quiet (w.only_keepArtifact _ _) fun _ =>
    tallying_quiet (only_quiet (w.still_recordAttempt _ (by decide))) fun _ =>
    tallying_quiet (only_refreshRunStatus _) fun _ => w.tallying_notify _ _ _ _ fun _ => trivial

/-! ## The branch that returns -/

/-- The task is moved before it is returned. -/
theorem tallying_onSuccess (a : Attempt) (payload result : Dict) :
    (w.onSuccess a payload result).wp tallying (fun _ l => l = true) (fun _ _ => True) false := by
  refine tallying_quiet (only_quiet (still_fire _ _)) fun c =>
    tallying_quiet (only_quiet (w.still_recordHookFired _ _)) fun _ => ?_
  refine (wp_bind _ _).mpr (wp_call.mpr ⟨.inr ⟨rfl, _, _, _, rfl⟩, fun r l' hl => ?_⟩)
  cases r with
  | error e => trivial
  | ok u =>
    obtain rfl : l' = true := hl
    exact tallying_quiet (w.only_keepArtifact _ _) fun _ =>
      tallying_quiet (only_quiet (w.still_recordAttempt _ (by decide))) fun _ =>
      tallying_quiet (only_refreshRunStatus _) fun _ =>
      tallying_quiet (only_quiet (w.still_announceStatus _ _)) fun _ => rfl

theorem tallying_finish (a : Attempt) (run : HandlerRun (Except PyExc PyVal)) :
    (w.finish pf a run).wp tallying (fun _ l => l = true) (fun _ _ => True) false := by
  unfold finish
  split
  · split
    · exact w.tallying_onTimeout _ _ _
    · exact w.tallying_onException pf _ _ _
  · refine tallying_quiet (only_ofExcept _) fun judged => ?_
    obtain ⟨result, outcome⟩ := judged
    dsimp only
    split
    · exact w.tallying_recordDegenerate pf _ _ _ _
    · exact w.tallying_onSuccess _ _ _

theorem tallying_attempt (seed : Option Int) (runId : RunId) (task : TaskRecord) :
    (w.attempt pf seed runId task).wp tallying (fun _ l => l = true) (fun _ _ => True) false :=
  tallying_bind (Unjudged.only (w.unjudged_beginAttempt _ _)) fun a =>
    tallying_quiet (only_quiet (w.still_prepare pf seed a)) fun _ =>
    tallying_quiet (only_quiet (still_execute _ _)) fun run => w.tallying_finish pf a run

/-- **What `run_once` reports.** A task that is returned has been moved to `SUCCEEDED`; where
none is found, none has been. -/
theorem tallying_runOnce (mem : RunMemory) (runId : RunId) :
    (w.runOnce pf mem runId).wp tallying Tells (fun _ _ => True) false := by
  refine tallying_quiet (only_quiet (w.still_startRun mem runId)) fun mem' =>
    (wp_bind _ _).mpr ((wp_attempt _).mpr ?_)
  refine (wp_bind _ _).mpr (wp_call.mpr ⟨.inl trivial, fun r l' hl => ?_⟩)
  have hl : l' = false := by
    rw [hl]
    cases r <;> rfl
  subst hl
  cases r with
  | error e => exact ⟨nofun, nofun⟩
  | ok leased =>
    cases leased with
    | none => exact ⟨nofun, fun _ => rfl⟩
    | some task =>
      refine (wp_bind _ _).mpr (wp_mono (w.tallying_attempt pf _ runId task) (fun t l hl => ?_)
        fun e l _ => ⟨nofun, nofun⟩)
      exact ⟨fun _ _ => hl, nofun⟩

end LocalWorker
end FineTuneHarness
