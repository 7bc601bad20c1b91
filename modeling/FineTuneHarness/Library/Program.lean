import Mathlib.Logic.Basic

/-!
# Programs over atomic operations

A `Program` is a tree of requests: each node names one atomic operation and says
how to go on for every reply. Exceptions are leaves, so `raise` needs no second
monad. The same tree is run alone (`Program.run`) and interleaved with others
(`Library.Interleaving`); both readings share the local proof rules below.
-/
namespace Library

/-- A request tree. `Res op` is the type of replies the operation `op` may get. -/
inductive Program (Op : Type) (Res : Op → Type) (ε α : Type) : Type
  | ret (a : α)
  | raise (e : ε)
  | call (op : Op) (next : Res op → Program Op Res ε α)

namespace Program

variable {Op : Type} {Res : Op → Type} {ε α β γ : Type}

def bind : Program Op Res ε α → (α → Program Op Res ε β) → Program Op Res ε β
  | .ret a, f => f a
  | .raise e, _ => .raise e
  | .call op next, f => .call op fun r => (next r).bind f

/-- `try p except e => handle e`. -/
def catching : Program Op Res ε α → (ε → Program Op Res ε α) → Program Op Res ε α
  | .ret a, _ => .ret a
  | .raise e, handle => handle e
  | .call op next, handle => .call op fun r => (next r).catching handle

/-- `p`, with its exception handed back as a value. -/
def attempt : Program Op Res ε α → Program Op Res ε (Except ε α)
  | .ret a => .ret (.ok a)
  | .raise e => .ret (.error e)
  | .call op next => .call op fun r => (next r).attempt

instance : Monad (Program Op Res ε) where
  pure := .ret
  bind := bind

instance : MonadExceptOf ε (Program Op Res ε) where
  throw := .raise
  tryCatch := catching

theorem bind_def (p : Program Op Res ε α) (f : α → Program Op Res ε β) :
    p >>= f = p.bind f := rfl

/-- Issue one operation and hand back its reply. -/
def request (op : Op) : Program Op Res ε (Res op) := .call op .ret

/-- A computed result: `ok` goes on, `error` raises. -/
def ofExcept : Except ε α → Program Op Res ε α
  | .ok a => .ret a
  | .error e => .raise e

/-! ## Running a program alone -/

section Run

variable {σ : Type} (exec : (op : Op) → σ → Res op × σ)

/-- Run every request against `exec`, with nothing in between. -/
def run : Program Op Res ε α → σ → Except ε α × σ
  | .ret a, s => (.ok a, s)
  | .raise e, s => (.error e, s)
  | .call op next, s => (next (exec op s).1).run (exec op s).2

theorem run_call (op : Op) (next : Res op → Program Op Res ε α) (s : σ) :
    (Program.call op next).run exec s = (next (exec op s).1).run exec (exec op s).2 := rfl

theorem run_bind (p : Program Op Res ε α) (f : α → Program Op Res ε β) (s : σ) :
    (p.bind f).run exec s =
      match p.run exec s with
      | (.ok a, s') => (f a).run exec s'
      | (.error e, s') => (.error e, s') := by
  induction p generalizing s with
  | ret a => rfl
  | raise e => rfl
  | call op next ih => exact ih _ _

/-- The requests of a run, each with the state it is made in. -/
def trace : Program Op Res ε α → σ → List (Op × σ)
  | .ret _, _ => []
  | .raise _, _ => []
  | .call op next, s => (op, s) :: (next (exec op s).1).trace (exec op s).2

end Run

/-! ## Local reasoning -/

/-- What one client may request, and what it learns from a reply. The local state
`L` is private to the client: nobody else moves it. -/
structure Protocol (Op : Type) (Res : Op → Type) (L : Type) where
  may : L → Op → Prop
  learns : L → (op : Op) → Res op → L → Prop

variable {L : Type}

/-- Weakest precondition under a protocol: every request is permitted where it is
made, and whatever is learned the rest ends in `Q` (or raises in `E`). -/
def wp (P : Protocol Op Res L) :
    Program Op Res ε α → (α → L → Prop) → (ε → L → Prop) → L → Prop
  | .ret a, Q, _, l => Q a l
  | .raise e, _, E, l => E e l
  | .call op next, Q, E, l =>
      P.may l op ∧ ∀ r l', P.learns l op r l' → (next r).wp P Q E l'

section Rules

variable {P : Protocol Op Res L} {Q Q' : α → L → Prop} {E E' : ε → L → Prop} {l : L}

@[simp] theorem wp_ret (a : α) :
    (Program.ret a : Program Op Res ε α).wp P Q E l ↔ Q a l := Iff.rfl

@[simp] theorem wp_raise (e : ε) :
    (Program.raise e : Program Op Res ε α).wp P Q E l ↔ E e l := Iff.rfl

theorem wp_call (op : Op) (next : Res op → Program Op Res ε α) :
    (Program.call op next).wp P Q E l ↔
      P.may l op ∧ ∀ r l', P.learns l op r l' → (next r).wp P Q E l' := Iff.rfl

@[simp] theorem wp_pure (a : α) :
    (pure a : Program Op Res ε α).wp P Q E l ↔ Q a l := Iff.rfl

@[simp] theorem wp_throw (e : ε) :
    (throw e : Program Op Res ε α).wp P Q E l ↔ E e l := Iff.rfl

theorem wp_bind' (p : Program Op Res ε α) (f : α → Program Op Res ε β)
    {Q : β → L → Prop} :
    (p.bind f).wp P Q E l ↔ p.wp P (fun a l' => (f a).wp P Q E l') E l := by
  induction p generalizing l with
  | ret a => rfl
  | raise e => rfl
  | call op next ih =>
    simp only [bind, wp_call, ih]

/-- Sequencing: the first part must establish what the rest needs. -/
@[simp] theorem wp_bind (p : Program Op Res ε α) (f : α → Program Op Res ε β)
    {Q : β → L → Prop} :
    (p >>= f).wp P Q E l ↔ p.wp P (fun a l' => (f a).wp P Q E l') E l :=
  wp_bind' p f

@[simp] theorem wp_request (op : Op) {Q : Res op → L → Prop} :
    (request op : Program Op Res ε (Res op)).wp P Q E l ↔
      P.may l op ∧ ∀ r l', P.learns l op r l' → Q r l' := Iff.rfl

@[simp] theorem wp_ofExcept (x : Except ε α) :
    (ofExcept x : Program Op Res ε α).wp P Q E l ↔
      match x with | .ok a => Q a l | .error e => E e l := by
  cases x <;> rfl

/-- A caught program does not raise; both its endings are results. -/
@[simp] theorem wp_attempt (p : Program Op Res ε α) {Q : Except ε α → L → Prop} :
    p.attempt.wp P Q E l ↔ p.wp P (fun a => Q (.ok a)) (fun e => Q (.error e)) l := by
  induction p generalizing l with
  | ret a => rfl
  | raise e => rfl
  | call op next ih => simp only [attempt, wp_call, ih]

theorem wp_mono {p : Program Op Res ε α} (h : p.wp P Q E l)
    (hq : ∀ a l', Q a l' → Q' a l') (he : ∀ e l', E e l' → E' e l') : p.wp P Q' E' l := by
  induction p generalizing l with
  | ret a => exact hq a l h
  | raise e => exact he e l h
  | call op next ih => exact ⟨h.1, fun r l' hr => ih r (h.2 r l' hr)⟩

/-- A client that learns less than at `l` and may do as much goes on from `l'` as from `l`. -/
theorem wp_carry {p : Program Op Res ε α} {l' : L} (h : p.wp P Q E l)
    (hmay : ∀ op, P.may l op → P.may l' op)
    (hlearn : ∀ op r l'', P.learns l' op r l'' → P.learns l op r l'')
    (hq : ∀ a, Q a l → Q a l') (he : ∀ e, E e l → E e l') : p.wp P Q E l' := by
  cases p with
  | ret a => exact hq a h
  | raise e => exact he e h
  | call op next => exact ⟨hmay op h.1, fun r l'' hl => h.2 r l'' (hlearn op r l'' hl)⟩

theorem wp_and {p : Program Op Res ε α} (h : p.wp P Q E l) (h' : p.wp P Q' E' l) :
    p.wp P (fun a l' => Q a l' ∧ Q' a l') (fun e l' => E e l' ∧ E' e l') l := by
  induction p generalizing l with
  | ret a => exact ⟨h, h'⟩
  | raise e => exact ⟨h, h'⟩
  | call op next ih => exact ⟨h.1, fun r l' hr => ih r (h.2 r l' hr) (h'.2 r l' hr)⟩

/-- Where everything is permitted, nothing has to be shown for no postcondition. -/
theorem wp_trivial {p : Program Op Res ε α} (h : ∀ l op, P.may l op) :
    p.wp P (fun _ _ => True) (fun _ _ => True) l := by
  induction p generalizing l with
  | ret a => trivial
  | raise e => trivial
  | call op next ih => exact ⟨h l op, fun r l' _ => ih r⟩

/-- A program that ends in a raise does not return. -/
theorem wp_raises {p : Program Op Res ε α} {f : α → Program Op Res ε β}
    (h : ∀ l op, P.may l op) (hf : ∀ a l, (f a).wp P (fun _ _ => False) (fun _ _ => True) l) :
    (p >>= f).wp P (fun _ _ => False) (fun _ _ => True) l :=
  (wp_bind p f).mpr (wp_mono (wp_trivial h) (fun a l' _ => hf a l') fun _ _ _ => trivial)

end Rules

/-! ### Requests that change nothing -/

/-- Every request the program can make lies in `N`. -/
def Only (N : Op → Prop) (p : Program Op Res ε α) : Prop :=
  p.wp (L := Unit) ⟨fun _ => N, fun _ _ _ _ => True⟩ (fun _ _ => True) (fun _ _ => True) ()

/-- At `l` the request is permitted and teaches nothing. -/
structure Protocol.Ignores (P : Protocol Op Res L) (l : L) (op : Op) : Prop where
  may : P.may l op
  stays : ∀ r l', P.learns l op r l' → l' = l

/-- A program that makes ignored requests only leaves the local state where it is. -/
theorem wp_of_only {P : Protocol Op Res L} {Q : α → L → Prop} {E : ε → L → Prop} {l : L}
    {N : Op → Prop} {p : Program Op Res ε α} (hp : p.Only N) (hN : ∀ op, N op → P.Ignores l op)
    (hq : ∀ a, Q a l) (he : ∀ e, E e l) : p.wp P Q E l := by
  induction p with
  | ret a => exact hq a
  | raise e => exact he e
  | call op next ih =>
    refine ⟨(hN op hp.1).may, fun r l' hl => ?_⟩
    obtain rfl := (hN op hp.1).stays r l' hl
    exact ih r (hp.2 r () trivial)

/-- What every request in `N` keeps, a program of such requests keeps. -/
theorem wp_keep_of_only {P : Protocol Op Res L} {I : L → Prop} {l : L} {N : Op → Prop}
    {p : Program Op Res ε α} (hp : p.Only N)
    (hN : ∀ l op, I l → N op → P.may l op ∧ ∀ r l', P.learns l op r l' → I l') (hI : I l) :
    p.wp P (fun _ => I) (fun _ => I) l := by
  induction p generalizing l with
  | ret a => exact hI
  | raise e => exact hI
  | call op next ih =>
    obtain ⟨hmay, hkeep⟩ := hN l op hI hp.1
    exact ⟨hmay, fun r l' hl => ih r (hp.2 r () trivial) (hkeep r l' hl)⟩

theorem Only.mono {N N' : Op → Prop} {p : Program Op Res ε α} (h : p.Only N)
    (hN : ∀ op, N op → N' op) : p.Only N' := by
  induction p with
  | ret a => trivial
  | raise e => trivial
  | call op next ih => exact ⟨hN op h.1, fun r _ _ => ih r (h.2 r () trivial)⟩

/-! ### Programs that keep an invariant -/

/-- However it ends, the program keeps `I`. -/
def Keeps (P : Protocol Op Res L) (I : L → Prop) (p : Program Op Res ε α) : Prop :=
  ∀ l, I l → p.wp P (fun _ => I) (fun _ => I) l

section Keeps

variable {P : Protocol Op Res L} {I : L → Prop}

theorem Keeps.pure (a : α) : Keeps P I (Pure.pure a : Program Op Res ε α) := fun _ h => h

theorem Keeps.bind {p : Program Op Res ε α} {f : α → Program Op Res ε β} (hp : Keeps P I p)
    (hf : ∀ a, Keeps P I (f a)) : Keeps P I (p >>= f) := by
  intro l hl
  exact (wp_bind p f).mpr (wp_mono (hp l hl) (fun a l' hl' => hf a l' hl') fun _ _ h => h)

theorem Keeps.ofExcept (x : Except ε α) : Keeps P I (Program.ofExcept x) := by
  intro l hl
  cases x <;> exact hl

theorem Keeps.attempt {p : Program Op Res ε α} (hp : Keeps P I p) : Keeps P I p.attempt := by
  intro l hl
  exact (wp_attempt p).mpr (hp l hl)

theorem Keeps.of_only {N : Op → Prop} {p : Program Op Res ε α} (hp : p.Only N)
    (hN : ∀ l op, I l → N op → P.may l op ∧ ∀ r l', P.learns l op r l' → I l') :
    Keeps P I p := fun _ hl => wp_keep_of_only hp hN hl

end Keeps

/-! ### Two protocols at once -/

def Protocol.prod {L' : Type} (P : Protocol Op Res L) (P' : Protocol Op Res L') :
    Protocol Op Res (L × L') where
  may := fun l op => P.may l.1 op ∧ P'.may l.2 op
  learns := fun l op r l' => P.learns l.1 op r l'.1 ∧ P'.learns l.2 op r l'.2

/-- A program that conforms to each of two protocols conforms to both together. -/
theorem wp_prod {L' : Type} {P : Protocol Op Res L} {P' : Protocol Op Res L'}
    {p : Program Op Res ε α} {Q : α → L → Prop} {E : ε → L → Prop} {Q' : α → L' → Prop}
    {E' : ε → L' → Prop} {l : L} {l' : L'} (h : p.wp P Q E l) (h' : p.wp P' Q' E' l') :
    p.wp (P.prod P') (fun a m => Q a m.1 ∧ Q' a m.2) (fun e m => E e m.1 ∧ E' e m.2) (l, l') := by
  induction p generalizing l l' with
  | ret a => exact ⟨h, h'⟩
  | raise e => exact ⟨h, h'⟩
  | call op next ih =>
    exact ⟨⟨h.1, h'.1⟩, fun r m hm => ih r (h.2 r m.1 hm.1) (h'.2 r m.2 hm.2)⟩

/-! ### From proofs to runs -/

section Soundness

variable {σ : Type} {exec : (op : Op) → σ → Res op × σ} {view : σ → L} {P : Protocol Op Res L}
  {p : Program Op Res ε α} {Q : α → L → Prop} {E : ε → L → Prop} {s : σ}

/-- Where the protocol describes `exec`, a weakest precondition describes the run. -/
theorem run_of_wp
    (hexec : ∀ op s, P.learns (view s) op (exec op s).1 (view (exec op s).2))
    (h : p.wp P Q E (view s)) :
    match p.run exec s with
    | (.ok a, s') => Q a (view s')
    | (.error e, s') => E e (view s') := by
  induction p generalizing s with
  | ret a => exact h
  | raise e => exact h
  | call op next ih => exact ih _ (h.2 _ _ (hexec op s))

end Soundness

end Program
end Library
