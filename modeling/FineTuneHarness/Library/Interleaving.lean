import FineTuneHarness.Library.Machine
import FineTuneHarness.Library.Program
import Mathlib.Logic.Function.Basic

/-!
# Clients interleaved over a shared object

Any number of clients each run a `Program`; every request is one atomic step on the
shared object and the scheduler picks the next client freely. A client can be started,
can crash between two requests, and the environment can act by itself.
-/
namespace Library

variable {ι σ Op : Type} {Res : Op → Type} {ε α χ π δ : Type}

/-- Of the clients that stand at `y`, none has moved if a client moves elsewhere. -/
theorem of_update [DecidableEq ι] {L : Type} {l : ι → L} {i j : ι} {x y : L} (hx : x ≠ y)
    (hj : Function.update l i x j = y) : j ≠ i ∧ l j = y := by
  by_cases hji : j = i
  · rw [hji, Function.update_self] at hj
    exact absurd hj hx
  · rw [Function.update_of_ne hji] at hj
    exact ⟨hji, hj⟩

/-- Where a client stands: not started, running the rest of a program, or dead. -/
inductive Client (Op : Type) (Res : Op → Type) (ε α : Type) : Type
  | idle
  | running (p : Program Op Res ε α)
  | crashed

namespace Client

/-- A client that has no request left to make. -/
def finished : Client Op Res ε α → Bool
  | .idle => true
  | .running (.ret _) => true
  | .running (.raise _) => true
  | .running (.call _ _) => false
  | .crashed => false

/-- The request a client makes next. -/
def request : Client Op Res ε α → Option Op
  | .running (.call op _) => some op
  | _ => none

variable {L : Type}

/-- The rest of a client's program is permitted at its local state, and the program
ends in `Done`, however it ends. -/
def Conforms (P : Program.Protocol Op Res L) (Done : L → Prop) (l : L) :
    Client Op Res ε α → Prop
  | .idle => Done l
  | .running prog => prog.wp P (fun _ => Done) (fun _ => Done) l
  | .crashed => True

/-- A finished client has met the postcondition of its program. -/
theorem Conforms.done {P : Program.Protocol Op Res L} {Done : L → Prop} {l : L}
    {c : Client Op Res ε α} (h : c.Conforms P Done l) (hf : c.finished = true) : Done l := by
  cases c with
  | idle => exact h
  | crashed => simp [finished] at hf
  | running prog =>
    cases prog with
    | ret a => exact h
    | raise e => exact h
    | call op next => simp [finished] at hf

end Client

/-- How the shared object answers: `χ` is what the scheduler chooses for a request
(clock readings, replies of outside code), `π` what a client is started with and `δ`
an action of the environment. -/
structure Service (ι σ Op : Type) (Res : Op → Type) (ε α χ π δ : Type) where
  exec : ι → (op : Op) → χ → σ → Res op × σ
  spawn : ι → π → σ → Option (Program Op Res ε α × σ)
  crash : ι → σ → σ
  env : δ → σ → Option σ

structure Pool (ι σ Op : Type) (Res : Op → Type) (ε α : Type) where
  shared : σ
  client : ι → Client Op Res ε α

inductive Act (ι χ π δ : Type) : Type
  | call (i : ι) (c : χ)
  | start (i : ι) (p : π)
  | crash (i : ι)
  | env (d : δ)

/-- The client an act is about. -/
def Act.client : Act ι χ π δ → Option ι
  | .call i _ | .start i _ | .crash i => some i
  | .env _ => none

namespace Service

variable [DecidableEq ι] (S : Service ι σ Op Res ε α χ π δ)

def step (p : Pool ι σ Op Res ε α) : Act ι χ π δ → Option (Pool ι σ Op Res ε α)
  | .call i c =>
    match p.client i with
    | .running (.call op next) =>
      let (r, s) := S.exec i op c p.shared
      some { shared := s, client := Function.update p.client i (.running (next r)) }
    | _ => none
  | .start i b =>
    if (p.client i).finished then
      (S.spawn i b p.shared).map fun (prog, s) =>
        { shared := s, client := Function.update p.client i (.running prog) }
    else none
  | .crash i =>
    match p.client i with
    | .crashed => none
    | _ => some { shared := S.crash i p.shared, client := Function.update p.client i .crashed }
  | .env d => (S.env d p.shared).map fun s => { p with shared := s }

def machine : Machine (Pool ι σ Op Res ε α) (Act ι χ π δ) := ⟨S.step⟩

theorem step_call {S : Service ι σ Op Res ε α χ π δ} {p : Pool ι σ Op Res ε α} {i : ι} {op : Op}
    {next : Res op → Program Op Res ε α} (h : p.client i = .running (.call op next)) (c : χ) :
    S.machine.step p (.call i c) = some {
      shared := (S.exec i op c p.shared).2
      client := Function.update p.client i (.running (next (S.exec i op c p.shared).1)) } := by
  simp only [machine, Service.step, h]

section Inversion

variable {S : Service ι σ Op Res ε α χ π δ} {p p' : Pool ι σ Op Res ε α} {i : ι}

theorem call_some {c : χ} (h : S.machine.step p (.call i c) = some p') :
    ∃ op next, p.client i = .running (.call op next) ∧ p' = {
      shared := (S.exec i op c p.shared).2
      client := Function.update p.client i (.running (next (S.exec i op c p.shared).1)) } := by
  simp only [machine, Service.step] at h
  split at h
  next op next hc => exact ⟨op, next, hc, (Option.some.inj h).symm⟩
  next => cases h

theorem start_some {b : π} (h : S.machine.step p (.start i b) = some p') :
    ∃ prog s, S.spawn i b p.shared = some (prog, s) ∧
      p' = { shared := s, client := Function.update p.client i (.running prog) } := by
  simp only [machine, Service.step] at h
  split at h
  · obtain ⟨⟨prog, s⟩, hs, rfl⟩ := Option.map_eq_some_iff.mp h
    exact ⟨prog, s, hs, rfl⟩
  · cases h

theorem crash_some (h : S.machine.step p (.crash i) = some p') :
    p' = { shared := S.crash i p.shared, client := Function.update p.client i .crashed } := by
  simp only [machine, Service.step] at h
  split at h
  · cases h
  · exact (Option.some.inj h).symm

theorem env_some {d : δ} (h : S.machine.step p (.env d) = some p') :
    ∃ s, S.env d p.shared = some s ∧ p' = { p with shared := s } := by
  obtain ⟨s, hs, rfl⟩ := Option.map_eq_some_iff.mp h
  exact ⟨s, hs, rfl⟩

end Inversion

/-- A client that no act of the replay is about stays as it is. -/
theorem client_of_run {S : Service ι σ Op Res ε α χ π δ} {p p' : Pool ι σ Op Res ε α} {i : ι}
    {acts : List (Act ι χ π δ)} (h : S.machine.run p acts = some p')
    (hi : ∀ a ∈ acts, a.client ≠ some i) : p'.client i = p.client i := by
  induction acts generalizing p with
  | nil => rw [← Option.some.inj h]
  | cons a acts ih =>
    obtain ⟨q, hq, hrest⟩ := Option.bind_eq_some_iff.mp h
    rw [ih hrest fun b hb => hi b (List.mem_cons_of_mem _ hb)]
    have hne : ∀ j, a.client = some j → i ≠ j := by
      rintro j hj rfl
      exact hi a List.mem_cons_self hj
    have hq : S.step p a = some q := hq
    cases a with
    | call j c =>
      simp only [Service.step] at hq
      split at hq
      · rw [← Option.some.inj hq]
        exact Function.update_of_ne (hne j rfl) _ _
      · cases hq
    | start j b =>
      simp only [Service.step] at hq
      split at hq
      · obtain ⟨x, -, rfl⟩ := Option.map_eq_some_iff.mp hq
        exact Function.update_of_ne (hne j rfl) _ _
      · cases hq
    | crash j =>
      simp only [Service.step] at hq
      split at hq
      · cases hq
      · rw [← Option.some.inj hq]
        exact Function.update_of_ne (hne j rfl) _ _
    | env d =>
      obtain ⟨x, -, rfl⟩ := Option.map_eq_some_iff.mp hq
      rfl

/-- Conditions on what may happen next, read off the shared object alone. -/
structure Guard (ι σ Op χ π δ : Type) where
  call : σ → ι → Op → χ → Prop := fun _ _ _ _ => True
  start : σ → ι → π → Prop := fun _ _ _ => True
  crash : σ → ι → Prop := fun _ _ => True
  env : σ → δ → Prop := fun _ _ => True

/-- The act meets the guard in this pool. -/
def Guard.Meets (G : Guard ι σ Op χ π δ) (p : Pool ι σ Op Res ε α) : Act ι χ π δ → Prop
  | .call i c =>
    match p.client i with
    | .running (.call op _) => G.call p.shared i op c
    | _ => True
  | .start i b => G.start p.shared i b
  | .crash i => G.crash p.shared i
  | .env d => G.env p.shared d

instance Guard.decidableMeets (G : Guard ι σ Op χ π δ) [∀ s i op c, Decidable (G.call s i op c)]
    [∀ s i b, Decidable (G.start s i b)] [∀ s i, Decidable (G.crash s i)]
    [∀ s d, Decidable (G.env s d)] (p : Pool ι σ Op Res ε α) :
    (a : Act ι χ π δ) → Decidable (G.Meets p a)
  | .call i c =>
    match h : p.client i with
    | .running (.call op _) =>
      decidable_of_iff (G.call p.shared i op c) (by simp only [Guard.Meets, h])
    | .running (.ret _) | .running (.raise _) | .idle | .crashed =>
      .isTrue (by simp only [Guard.Meets, h])
  | .start i b => inferInstanceAs (Decidable (G.start p.shared i b))
  | .crash i => inferInstanceAs (Decidable (G.crash p.shared i))
  | .env d => inferInstanceAs (Decidable (G.env p.shared d))

/-- Every client conforms to its protocol at its local state, and `J` relates the
local states to the shared object. -/
def Conforms {L : Type} (P : ι → Program.Protocol Op Res L) (Done : L → Prop)
    (J : σ → (ι → L) → Prop) (p : Pool ι σ Op Res ε α) : Prop :=
  ∃ l : ι → L, J p.shared l ∧ ∀ i, (p.client i).Conforms (P i) Done (l i)

/-- What has to be shown of a protocol: one obligation for each kind of act. -/
structure Sound {L : Type} (P : ι → Program.Protocol Op Res L) (Done : L → Prop)
    (J : σ → (ι → L) → Prop) (G : Guard ι σ Op χ π δ) : Prop where
  call : ∀ s l i op c, J s l → (P i).may (l i) op → G.call s i op c →
    ∃ l', (P i).learns (l i) op (S.exec i op c s).1 l' ∧
      J (S.exec i op c s).2 (Function.update l i l')
  start : ∀ s l i b prog s', J s l → Done (l i) → G.start s i b →
    S.spawn i b s = some (prog, s') →
    ∃ l', prog.wp (P i) (fun _ => Done) (fun _ => Done) l' ∧ J s' (Function.update l i l')
  crash : ∀ s l i, J s l → G.crash s i → ∃ l', J (S.crash i s) (Function.update l i l')
  env : ∀ s l d s', J s l → G.env s d → S.env d s = some s' → J s' l

variable {S} {L : Type} {P : ι → Program.Protocol Op Res L} {Done : L → Prop}
  {J : σ → (ι → L) → Prop} {G : Guard ι σ Op χ π δ}

private theorem conforms_update {p : Pool ι σ Op Res ε α} {i : ι} {l : ι → L} {l' : L}
    {c : Client Op Res ε α} {s : σ} (hJ : J s (Function.update l i l'))
    (hi : c.Conforms (P i) Done l') (hl : ∀ j, (p.client j).Conforms (P j) Done (l j)) :
    Conforms P Done J { shared := s, client := Function.update p.client i c } := by
  refine ⟨Function.update l i l', hJ, fun j => ?_⟩
  by_cases hj : j = i
  · subst hj
    simpa only [Function.update_self] using hi
  · simpa only [Function.update_of_ne hj] using hl j

/-- **Interleaving rule, one step.** -/
theorem Sound.step (hS : S.Sound P Done J G) {p p' : Pool ι σ Op Res ε α}
    {a : Act ι χ π δ} (h : Conforms P Done J p) (hG : G.Meets p a)
    (hs : S.step p a = some p') : Conforms P Done J p' := by
  obtain ⟨l, hJ, hl⟩ := h
  cases a with
  | call i c =>
    have hi := hl i
    simp only [Service.step] at hs
    split at hs
    next op next hc =>
      obtain rfl := Option.some.inj hs
      rw [hc] at hi
      obtain ⟨hmay, hrest⟩ := hi
      simp only [Guard.Meets, hc] at hG
      obtain ⟨l', hlearn, hJ'⟩ := hS.call _ l i op c hJ hmay hG
      exact conforms_update hJ' (c := .running _) (hrest _ _ hlearn) hl
    next => cases hs
  | start i b =>
    simp only [Service.step] at hs
    split at hs
    next hf =>
      obtain ⟨⟨prog, s'⟩, hsp, rfl⟩ := Option.map_eq_some_iff.mp hs
      obtain ⟨l', hwp, hJ'⟩ := hS.start _ l i b prog s' hJ ((hl i).done hf) hG hsp
      exact conforms_update hJ' (c := .running _) hwp hl
    next => cases hs
  | crash i =>
    obtain ⟨l', hJ'⟩ := hS.crash _ l i hJ hG
    have hs' : some (Pool.mk (S.crash i p.shared) (Function.update p.client i .crashed)) =
        some p' := by
      simp only [Service.step] at hs
      split at hs
      · cases hs
      · exact hs
    obtain rfl := Option.some.inj hs'
    exact conforms_update (c := .crashed) hJ' trivial hl
  | env d =>
    obtain ⟨s', hs', rfl⟩ := Option.map_eq_some_iff.mp hs
    exact ⟨l, hS.env _ l d s' hJ hG hs', hl⟩

/-- **Interleaving rule.** If every program conforms to the protocol and every permitted
request keeps `J`, then `J` holds in every state reached by acts that meet the guard. -/
theorem Sound.invariant (hS : S.Sound P Done J G) {p p' : Pool ι σ Op Res ε α}
    (h : S.machine.Steps G.Meets p p') (h0 : Conforms P Done J p) : Conforms P Done J p' :=
  h.invariant h0 fun _ _ _ hI hG hs => hS.step hI hG hs

omit [DecidableEq ι] in
/-- A pool in which no client has started conforms as soon as `J` holds. -/
theorem conforms_initial {s : σ} {l : L} (hJ : J s fun _ => l) (hD : Done l) :
    Conforms P Done J
      ({ shared := s, client := fun _ : ι => .idle } : Pool ι σ Op Res ε α) :=
  ⟨fun _ => l, hJ, fun _ => hD⟩

end Service
end Library
