import FineTuneHarness.Library.Machine
import Mathlib.Logic.Function.Basic

/-!
# Records appended under an exclusive lock

Any number of writers append one record each to one text. A writer takes the lock of its group
and then the lock of the text, puts its record down piece by piece, and gives the locks back.
Nothing stops a writer that does not hold the lock; that only the holder writes is proved here.
While nobody holds the lock, the text is the records in the order in which it was taken.
-/
namespace Library

namespace ExclusiveLog

variable {ι κ α : Type}

/-- How far a writer has come. -/
inductive Stage (α : Type)
  | idle
  | inside
  | writing (rest : List α)
  | closed
  | done

/-- `log` is the order in which the lock of the text was taken. There is no text before the
first writer opens it. -/
structure State (ι κ α : Type) where
  text : Option (List α)
  holder : Option ι
  entered : κ → Option ι
  stage : ι → Stage α
  log : List ι

inductive Event (ι : Type)
  | enter (i : ι)
  | lock (i : ι)
  | write (i : ι) (n : Nat)
  | unlock (i : ι)
  | leave (i : ι)

def initial : State ι κ α where
  text := none
  holder := none
  entered _ := none
  stage _ := .idle
  log := []

variable (group : ι → κ) (record : ι → List α)

def step [DecidableEq ι] [DecidableEq κ] (s : State ι κ α) : Event ι → Option (State ι κ α)
  | .enter i =>
    match s.stage i, s.entered (group i) with
    | .idle, none => some { s with
        text := some (s.text.getD [])
        entered := Function.update s.entered (group i) (some i)
        stage := Function.update s.stage i .inside }
    | _, _ => none
  | .lock i =>
    match s.stage i, s.holder with
    | .inside, none => some { s with
        holder := some i
        stage := Function.update s.stage i (.writing (record i))
        log := s.log ++ [i] }
    | _, _ => none
  | .write i n =>
    match s.stage i with
    | .writing rest => some { s with
        text := some (s.text.getD [] ++ rest.take n)
        stage := Function.update s.stage i (.writing (rest.drop n)) }
    | _ => none
  | .unlock i =>
    match s.stage i with
    | .writing [] => some { s with holder := none, stage := Function.update s.stage i .closed }
    | _ => none
  | .leave i =>
    match s.stage i with
    | .closed => some { s with
        entered := Function.update s.entered (group i) none
        stage := Function.update s.stage i .done }
    | _ => none

def machine [DecidableEq ι] [DecidableEq κ] : Machine (State ι κ α) (Event ι) := ⟨step group record⟩

/-- The writer has taken the lock of the text, now or before. -/
def Stage.locked : Stage α → Bool
  | .idle | .inside => false
  | _ => true

/-- Where the text stands: nobody writes, or the holder is in the middle of its record. -/
inductive Standing (s : State ι κ α) : Prop
  | free (holder : s.holder = none) (text : s.text.getD [] = s.log.flatMap record)
    (quiet : ∀ i rest, s.stage i ≠ .writing rest)
  | held {i : ι} {before : List ι} {written rest : List α} (holder : s.holder = some i)
    (log : s.log = before ++ [i]) (stage : s.stage i = .writing rest)
    (whole : written ++ rest = record i)
    (text : s.text.getD [] = before.flatMap record ++ written)
    (alone : ∀ j rest', s.stage j = .writing rest' → j = i)

/-- What holds in every run. -/
structure Orderly (s : State ι κ α) : Prop where
  nodup : s.log.Nodup
  logged : ∀ i, i ∈ s.log ↔ (s.stage i).locked = true
  standing : Standing record s

variable {group record} {s s' : State ι κ α}

theorem orderly_initial : Orderly record (initial : State ι κ α) where
  nodup := List.nodup_nil
  logged _ := iff_of_false List.not_mem_nil Bool.false_ne_true
  standing := .free rfl rfl fun _ _ h => by cases h

variable [DecidableEq ι]

/-- A writer that moves on without the lock changes nothing of the log. -/
theorem Orderly.aside (h : Orderly record s) {i : ι} {st : Stage α}
    (hst : st.locked = (s.stage i).locked) (hold : ∀ rest, s.stage i ≠ .writing rest)
    (hnew : ∀ rest, st ≠ .writing rest) (htext : s'.text.getD [] = s.text.getD [])
    (hholder : s'.holder = s.holder) (hlog : s'.log = s.log)
    (hstage : s'.stage = Function.update s.stage i st) : Orderly record s' := by
  have hwriting : ∀ j rest, s'.stage j = .writing rest ↔ s.stage j = .writing rest := by
    intro j rest
    rw [hstage]
    by_cases hj : j = i
    · subst hj
      rw [Function.update_self]
      exact iff_of_false (hnew rest) (hold rest)
    · rw [Function.update_of_ne hj]
  refine ⟨hlog ▸ h.nodup, fun j => ?_, ?_⟩
  · rw [hlog, h.logged, hstage]
    by_cases hj : j = i
    · subst hj
      rw [Function.update_self, hst]
    · rw [Function.update_of_ne hj]
  · cases h.standing with
    | free holder text quiet =>
      apply Standing.free (hholder.trans holder)
      · rw [htext, text, hlog]
      · intro j rest hj
        exact quiet j rest ((hwriting j rest).mp hj)
    | held holder log stage whole text alone =>
      apply Standing.held (hholder.trans holder) (hlog.trans log) ((hwriting _ _).mpr stage) whole
      · rw [htext, text]
      · intro j rest hj
        exact alone j rest ((hwriting j rest).mp hj)

/-- The lock is taken: nobody writes, and the record of the writer is still to come. -/
theorem Orderly.lock (h : Orderly record s) {i : ι} (hi : s.stage i = .inside)
    (hfree : s.holder = none) : Orderly record { s with
      holder := some i
      stage := Function.update s.stage i (.writing (record i))
      log := s.log ++ [i] } := by
  have hnew : i ∉ s.log := by
    rw [h.logged, hi]
    exact Bool.false_ne_true
  constructor
  · have hne : ∀ a ∈ s.log, ∀ b ∈ [i], a ≠ b := by
      intro a ha b hb hab
      rw [hab, List.mem_singleton.mp hb] at ha
      exact hnew ha
    exact List.nodup_append.mpr ⟨h.nodup, List.pairwise_singleton _ i, hne⟩
  · intro j
    show j ∈ s.log ++ [i] ↔ (Function.update s.stage i _ j).locked = true
    by_cases hj : j = i
    · subst hj
      rw [Function.update_self]
      exact iff_of_true (List.mem_append_right _ List.mem_cons_self) rfl
    · rw [Function.update_of_ne hj, List.mem_append, h.logged, List.mem_singleton]
      exact or_iff_left hj
  · cases h.standing with
    | held holder =>
      rw [hfree] at holder
      cases holder
    | free _ text quiet =>
      have hwhole : [] ++ record i = record i := List.nil_append _
      refine .held rfl rfl (Function.update_self _ _ _) hwhole ?_ ?_
      · rw [List.append_nil]
        exact text
      · intro j rest hj
        by_contra hne
        exact quiet j rest ((Function.update_of_ne hne _ _).symm.trans hj)

/-- Only the holder writes, and what it writes is the next piece of its record. -/
theorem Orderly.write (h : Orderly record s) {i : ι} {rest : List α} (hi : s.stage i = .writing rest)
    (n : Nat) : Orderly record { s with
      text := some (s.text.getD [] ++ rest.take n)
      stage := Function.update s.stage i (.writing (rest.drop n)) } := by
  refine ⟨h.nodup, fun j => ?_, ?_⟩
  · show j ∈ s.log ↔ (Function.update s.stage i _ j).locked = true
    by_cases hj : j = i
    · subst hj
      rw [Function.update_self, h.logged, hi]
      rfl
    · rw [Function.update_of_ne hj, h.logged]
  · cases h.standing with
    | free _ _ quiet => exact absurd hi (quiet i rest)
    | @held i' before written rest' holder log stage whole text alone =>
      obtain rfl := alone i rest hi
      obtain rfl := Stage.writing.inj (hi.symm.trans stage)
      have hwhole : written ++ rest.take n ++ rest.drop n = record i := by
        rw [List.append_assoc, List.take_append_drop, whole]
      refine .held holder log (Function.update_self _ _ _) hwhole ?_ ?_
      · show s.text.getD [] ++ _ = _
        rw [text, List.append_assoc]
      · intro j rest' hj
        by_contra hne
        exact hne (alone j rest' ((Function.update_of_ne hne _ _).symm.trans hj))

/-- The lock is given back once the record is out. -/
theorem Orderly.unlock (h : Orderly record s) {i : ι} (hi : s.stage i = .writing []) :
    Orderly record { s with holder := none, stage := Function.update s.stage i .closed } := by
  refine ⟨h.nodup, fun j => ?_, ?_⟩
  · show j ∈ s.log ↔ (Function.update s.stage i _ j).locked = true
    by_cases hj : j = i
    · subst hj
      rw [Function.update_self, h.logged, hi]
      rfl
    · rw [Function.update_of_ne hj, h.logged]
  · cases h.standing with
    | free _ _ quiet => exact absurd hi (quiet i [])
    | @held i' before written rest holder log stage whole text alone =>
      obtain rfl := alone i [] hi
      obtain rfl := Stage.writing.inj (hi.symm.trans stage)
      apply Standing.free rfl
      · show s.text.getD [] = s.log.flatMap record
        rw [text, log, List.flatMap_append, List.flatMap_singleton, ← whole, List.append_nil]
      · intro j rest hj
        by_cases hne : j = i
        · subst hne
          cases (Function.update_self _ _ _).symm.trans hj
        · exact hne (alone j rest ((Function.update_of_ne hne _ _).symm.trans hj))

variable [DecidableEq κ]

theorem Orderly.step (h : Orderly record s) {e : Event ι} (hs : step group record s e = some s') :
    Orderly record s' := by
  cases e with
  | enter i =>
    rw [ExclusiveLog.step] at hs
    split at hs
    next hi _ =>
      obtain rfl := Option.some.inj hs
      exact h.aside (by rw [hi]; rfl) (by simp [hi]) (by simp) rfl rfl rfl rfl
    next => cases hs
  | lock i =>
    rw [ExclusiveLog.step] at hs
    split at hs
    next hi hfree =>
      obtain rfl := Option.some.inj hs
      exact h.lock hi hfree
    next => cases hs
  | write i n =>
    rw [ExclusiveLog.step] at hs
    split at hs
    next rest hi =>
      obtain rfl := Option.some.inj hs
      exact h.write hi n
    next => cases hs
  | unlock i =>
    rw [ExclusiveLog.step] at hs
    split at hs
    next hi =>
      obtain rfl := Option.some.inj hs
      exact h.unlock hi
    next => cases hs
  | leave i =>
    rw [ExclusiveLog.step] at hs
    split at hs
    next hi =>
      obtain rfl := Option.some.inj hs
      exact h.aside (by rw [hi]; rfl) (by simp [hi]) (by simp) rfl rfl rfl rfl
    next => cases hs

theorem orderly_of_reaches (h : (machine group record).Reaches initial s) : Orderly record s :=
  h.invariant orderly_initial fun _ _ _ hi _ hs => hi.step hs

/-- **While the lock is free, the text is the records in lock order.** -/
theorem text_of_free (h : (machine group record).Reaches initial s) (hfree : s.holder = none) :
    s.text.getD [] = s.log.flatMap record := by
  cases (orderly_of_reaches h).standing with
  | free _ text => exact text
  | held holder =>
    rw [hfree] at holder
    cases holder

end ExclusiveLog

/-! ## Records that are lines -/

/-- Records without a mark, each closed by a mark, are told apart by the marks. -/
theorem splitOnP_lines {α : Type} {p : α → Bool} {mark : α} (hmark : p mark = true)
    {rs : List (List α)} (hrs : ∀ r ∈ rs, ∀ a ∈ r, p a = false) :
    (rs.flatMap (· ++ [mark])).splitOnP p = rs ++ [[]] := by
  induction rs with
  | nil => rfl
  | cons r rs ih =>
    rw [List.flatMap_cons, List.append_assoc, List.singleton_append,
      List.splitOnP_append_cons_of_forall_mem (hrs r List.mem_cons_self) mark hmark,
      ih fun r' hr' => hrs r' (.tail r hr'), List.cons_append]

end Library
