import FineTuneHarness.Executor.Concurrent
import Mathlib.Tactic.Linarith

/-!
# Who is admitted, and where

Nothing is assumed of what the parent loop reads: counts, readings, messages and deaths come
in any order. The ceiling only falls and the headroom only rises, a child goes to an idle device
as long as there is one, and with no child in flight the next one is always admitted.
-/
namespace FineTuneHarness

open Library

namespace Parent

variable {c : Draining} {p p' : Parent} {i : Input}

/-! ## The choice of a device -/

theorem mem_deviceOrder {live : List PyFloat} {d : Nat} :
    d ∈ c.deviceOrder live ↔ d < c.numDevices := by
  rw [Draining.deviceOrder, List.mem_insertionSort, List.mem_range]

/-- The device is idle, or no device is and this one clears the headroom. -/
def Suits (c : Draining) (p : Parent) (live : List PyFloat) (d : Nat) : Prop :=
  p.load d = 0 ∨
    (∀ d' < c.numDevices, p.load d' ≠ 0) ∧ (PyFloat.finite p.minFree).le (freeFor d live) = true

theorem chooseDevice_some {live : List PyFloat} {d : Nat}
    (h : p.chooseDevice c live = some d) : d < c.numDevices ∧ p.Suits c live d := by
  unfold chooseDevice at h
  dsimp only at h
  cases hidle : (c.deviceOrder live).find? fun d => p.load d = 0 with
  | some d' =>
    rw [hidle] at h
    obtain rfl := Option.some.inj h
    exact ⟨mem_deviceOrder.mp (List.mem_of_find?_eq_some hidle),
      .inl (by simpa using List.find?_some hidle)⟩
  | none =>
    rw [hidle] at h
    have h : ((c.deviceOrder live).find? fun d => (PyFloat.finite p.minFree).le (freeFor d live)) =
        some d := h
    have hclears : (PyFloat.finite p.minFree).le (freeFor d live) = true := by
      simpa using List.find?_some h
    refine ⟨mem_deviceOrder.mp (List.mem_of_find?_eq_some h), .inr ⟨fun d' hd' => ?_, hclears⟩⟩
    simpa using List.find?_eq_none.mp hidle d' (mem_deviceOrder.mpr hd')

/-- With no child in flight there is an idle device. -/
theorem chooseDevice_idle (hdev : 0 < c.numDevices) (hnone : p.inFlight.rows = [])
    (live : List PyFloat) : ∃ d, p.chooseDevice c live = some d := by
  have hload : ∀ d, p.load d = 0 := fun d => by rw [load, hnone]; rfl
  cases hidle : (c.deviceOrder live).find? fun d => p.load d = 0 with
  | some d => exact ⟨d, by unfold chooseDevice; dsimp only; rw [hidle]; rfl⟩
  | none =>
    have := List.find?_eq_none.mp hidle 0 (mem_deviceOrder.mpr hdev)
    simp [hload 0] at this

/-! ## What one step does -/

/-- A step moves on, or changes one of the four counters with it. -/
inductive Moves (c : Draining) (p : Parent) : Input → Parent → Prop
  | goTo {j : Input} (pt : Point) (hc : pt = .choosing → (p.inFlight.rows.length : Int) < p.ceiling)
      (hw : pt = .waiting → p.inFlight.rows ≠ []) (hk : pt = .checking → p.inFlight.rows = []) :
      Moves c p j { p with point := pt }
  | launch (live : Option (List PyFloat)) (d pid : Nat) (hp : p.point = .choosing)
      (hd : p.chooseDevice c (c.reading live) = some d) :
      Moves c p (.launch live pid) (p.admitTo c d pid)
  | drop {j : Input} (pid : Nat) (pt : Point) (hc : pt ≠ .choosing) (hw : pt ≠ .waiting)
      (hk : pt ≠ .checking) : Moves c p j { p with inFlight := p.inFlight.erase pid, point := pt }
  | lower {j : Input} (pt : Point) (hc : pt ≠ .choosing) (hw : pt ≠ .waiting) (hk : pt ≠ .checking) :
      Moves c p j { p.lowerCeiling with point := pt }
  | settle {j : Input} (outcome : ChildOutcome) : Moves c p j (p.settle outcome)

theorem leaveAdmission_moves : Moves c p i p.leaveAdmission := by
  unfold leaveAdmission
  cases hr : p.inFlight.rows with
  | nil => exact .goTo _ (by simp) (by simp) fun _ => hr
  | cons e rest => exact .goTo _ (by simp) (fun _ => by rw [hr]; simp) (by simp)

theorem sweepOn_moves (rest : List InFlight) : Moves c p i (p.sweepOn rest) := by
  cases rest <;> exact .goTo _ nofun nofun nofun

theorem lower_sweepOn_moves (rest : List InFlight) : Moves c p i (p.lowerCeiling.sweepOn rest) := by
  cases rest <;> exact .lower _ nofun nofun nofun

theorem step_moves (h : c.loop.step p i = some p') : Moves c p i p' := by
  change p.step c p.point i = some p' at h
  unfold step at h
  split at h
  next n hpt =>
    split at h <;> obtain rfl := Option.some.inj h
    next hn => exact .goTo _ (fun _ => hn.1) nofun nofun
    next => exact leaveAdmission_moves
  next live pid hpt =>
    split at h <;> obtain rfl := Option.some.inj h
    next d hd => exact .launch _ d pid hpt hd
    next => exact leaveAdmission_moves
  next n hpt =>
    obtain rfl := Option.some.inj h
    split <;> exact .goTo _ nofun nofun nofun
  next => obtain rfl := Option.some.inj h; exact .drop _ _ nofun nofun nofun
  next => obtain rfl := Option.some.inj h; exact sweepOn_moves _
  next =>
    split at h <;> obtain rfl := Option.some.inj h
    · exact sweepOn_moves _
    · exact .drop _ _ nofun nofun nofun
  next => obtain rfl := Option.some.inj h; exact lower_sweepOn_moves _
  next => obtain rfl := Option.some.inj h; exact .settle _
  next => obtain rfl := Option.some.inj h; exact .goTo _ nofun nofun nofun
  next => cases h

namespace Moves

/-- No step raises the ceiling or lowers the headroom. -/
theorem monotone (h : Moves c p i p') (hpos : 1 ≤ p.ceiling) (hfree : 0 ≤ p.minFree) :
    1 ≤ p'.ceiling ∧ p'.ceiling ≤ p.ceiling ∧ p.minFree ≤ p'.minFree := by
  have hlower : 1 ≤ max 1 (p.ceiling - 1) ∧ max 1 (p.ceiling - 1) ≤ p.ceiling := by omega
  cases h with
  | goTo | launch | drop => exact ⟨hpos, le_refl _, le_refl _⟩
  | lower => exact ⟨hlower.1, hlower.2, le_refl _⟩
  | settle outcome =>
    cases outcome with
    | oom => exact ⟨hlower.1, hlower.2, by change p.minFree ≤ p.minFree * (3 / 2); linarith⟩
    | _ => exact ⟨hpos, le_refl _, le_refl _⟩

/-- Only an admission starts a child. -/
theorem admission (h : Moves c p i p') (hseq : p'.childSeq ≠ p.childSeq) :
    ∃ live pid d, i = .launch live pid ∧ p.point = .choosing ∧
      p.chooseDevice c (c.reading live) = some d ∧ p' = p.admitTo c d pid := by
  cases h with
  | launch live d pid hp hd => exact ⟨live, pid, d, rfl, hp, hd, rfl⟩
  | settle outcome => cases outcome <;> exact absurd rfl hseq
  | goTo | drop | lower => exact absurd rfl hseq

/-- Without an admission no device has more children than before. -/
theorem load_le (h : Moves c p i p') (hseq : p'.childSeq = p.childSeq) (d : Nat) :
    p'.load d ≤ p.load d := by
  cases h with
  | goTo | lower => exact le_refl _
  | drop pid => exact Table.countP_erase_le _ _
  | settle outcome => cases outcome <;> exact le_refl _
  | launch => exact absurd hseq (Nat.succ_ne_self _)

end Moves

/-- An admission adds one child to its device, and none to any other. -/
theorem load_admitTo_le (d pid d' : Nat) :
    (p.admitTo c d pid).load d' ≤ p.load d' + if d = d' then 1 else 0 := by
  have h := Table.countP_put_le (t := p.inFlight) (fun e => decide (e.device = d'))
    { pid, worker := p.nextWorker c, device := d : InFlight }
  simp only [decide_eq_true_eq] at h
  exact h

/-! ## The invariant -/

structure Admitting (c : Draining) (p : Parent) : Prop where
  positive : 1 ≤ p.ceiling
  headroom : c.concurrency.minFreeMb ≤ p.minFree
  choosing : p.point = .choosing → (p.inFlight.rows.length : Int) < p.ceiling
  waiting : p.point = .waiting → p.inFlight.rows ≠ []

theorem admitting_start (c : Draining) : Admitting c (start c) where
  positive := le_max_left _ _
  headroom := le_refl _
  choosing := nofun
  waiting := nofun

theorem Admitting.step (h : Admitting c p) (hfree : 0 ≤ c.concurrency.minFreeMb)
    (hm : Moves c p i p') : Admitting c p' := by
  obtain ⟨hpos, -, hroom⟩ := hm.monotone h.positive (hfree.trans h.headroom)
  refine ⟨hpos, h.headroom.trans hroom, ?_, ?_⟩ <;> intro hpt
  · cases hm with
    | goTo pt hc _ _ => exact hc hpt
    | launch => cases hpt
    | drop pid pt hc _ _ | lower pt hc _ _ => exact absurd hpt hc
    | settle outcome => cases outcome <;> cases hpt
  · cases hm with
    | goTo pt _ hw _ => exact hw hpt
    | launch => cases hpt
    | drop pid pt _ hw _ | lower pt _ hw _ => exact absurd hpt hw
    | settle outcome => cases outcome <;> cases hpt

/-- After an admission the ceiling is respected. -/
theorem Admitting.room (h : Admitting c p) (hpt : p.point = .choosing) (d pid : Nat) :
    ((p.admitTo c d pid).inFlight.rows.length : Int) ≤ (p.admitTo c d pid).ceiling := by
  have hlen := Table.length_put_le (t := p.inFlight)
    { pid, worker := p.nextWorker c, device := d : InFlight }
  have hceil := h.choosing hpt
  change ((p.inFlight.put _).rows.length : Int) ≤ p.ceiling
  omega

/-- With no child in flight, a count above zero admits one, whatever the reading. -/
theorem Admitting.admits (h : Admitting c p) (hdev : 0 < c.numDevices)
    (hnone : p.inFlight.rows = []) (hpt : p.point = .admitting) {n : Nat} (hn : 0 < n)
    (live : Option (List PyFloat)) (pid : Nat) :
    ∃ d, c.loop.run p [.count n, .launch live pid] = some (p.admitTo c d pid) := by
  obtain ⟨d, hd⟩ := chooseDevice_idle (p := { p with point := .choosing }) hdev hnone
    (c.reading live)
  have hcount : c.loop.step p (.count n) = some { p with point := .choosing } := by
    change p.step c p.point (.count n) = _
    have hlen : (p.inFlight.rows.length : Int) < p.ceiling := by
      rw [hnone]
      exact h.positive
    rw [hpt, Parent.step, if_pos ⟨hlen, hn⟩]
  have hlaunch : c.loop.step { p with point := .choosing } (.launch live pid) =
      some (p.admitTo c d pid) := by
    change ({ p with point := .choosing } : Parent).step c .choosing (.launch live pid) = _
    rw [Parent.step, hd]
    rfl
  refine ⟨d, ?_⟩
  simp only [Machine.run, hcount, Option.bind_some, hlaunch]

/-! ## Runs of the loop -/

/-- The reading of the device stays below the initial headroom, whenever devices are read. -/
def StaysBelow (c : Draining) (d : Nat) (_ : Parent) (i : Input) : Prop :=
  ∀ live pid, i = .launch live pid →
    (PyFloat.finite c.concurrency.minFreeMb).le (freeFor d (c.reading live)) = false

theorem le_of_headroom {q q' : ℚ} {f : PyFloat} (hq : q ≤ q')
    (h : (PyFloat.finite q').le f = true) : (PyFloat.finite q).le f = true := by
  cases f with
  | finite r =>
    have h : q' ≤ r := of_decide_eq_true h
    exact decide_eq_true (hq.trans h)
  | inf negative => cases negative <;> first | rfl | cases h
  | nan => cases h

/-- A device below the headroom gets a child only while it has none. -/
theorem load_below {d : Nat} (h : c.loop.Steps (StaysBelow c d) (start c) p)
    (hfree : 0 ≤ c.concurrency.minFreeMb) : Admitting c p ∧ p.load d ≤ 1 := by
  refine h.invariant (I := fun q => Admitting c q ∧ q.load d ≤ 1)
    ⟨admitting_start c, Nat.zero_le 1⟩ fun q i q' hq hbelow hs => ?_
  have hm := step_moves hs
  refine ⟨hq.1.step hfree hm, ?_⟩
  by_cases hseq : q'.childSeq = q.childSeq
  · exact (hm.load_le hseq d).trans hq.2
  obtain ⟨live, pid, d', rfl, -, hd', rfl⟩ := hm.admission hseq
  refine (load_admitTo_le d' pid d).trans ?_
  split
  next heq =>
    subst heq
    rcases (chooseDevice_some hd').2 with hidle | ⟨-, hclears⟩
    · rw [hidle]
    · have := hbelow live pid rfl
      rw [le_of_headroom hq.1.headroom hclears] at this
      cases this
  next => exact hq.2

/-- **Admission.** Whatever the loop reads: the ceiling starts at `max(1, max_concurrent)`, only
falls, and stays positive; the headroom only rises. After an admission the ceiling is respected,
and the child is on a device that was idle, or, if none was, on one whose reading clears the
headroom. With no child in flight the loop does not wait for one, leaves only where nothing is
leaseable, and otherwise admits. A device whose readings stay below the initial headroom never
has two children. -/
theorem admission_invariants (c : Draining) (hdev : 0 < c.numDevices)
    (hfree : 0 ≤ c.concurrency.minFreeMb) :
    (start c).ceiling = max 1 c.concurrency.maxConcurrent ∧
    (start c).minFree = c.concurrency.minFreeMb ∧
    (∀ p, c.loop.Reaches (start c) p →
      1 ≤ p.ceiling ∧
      (∀ i p', c.loop.step p i = some p' → p'.ceiling ≤ p.ceiling ∧ p.minFree ≤ p'.minFree) ∧
      (∀ i p', c.loop.step p i = some p' → p'.childSeq ≠ p.childSeq →
        (p'.inFlight.rows.length : Int) ≤ p'.ceiling ∧
        ∃ live pid d, i = .launch live pid ∧ d < c.numDevices ∧ p' = p.admitTo c d pid ∧
          p.Suits c (c.reading live) d) ∧
      (p.inFlight.rows = [] → p.point ≠ .waiting ∧
        ∀ n, 0 < n →
          (p.point = .checking →
            c.loop.step p (.count n) = some { p with point := .admitting }) ∧
          (p.point = .admitting → ∀ live pid, ∃ d,
            c.loop.run p [.count n, .launch live pid] = some (p.admitTo c d pid)))) ∧
    ∀ d p, c.loop.Steps (StaysBelow c d) (start c) p → p.load d ≤ 1 := by
  refine ⟨rfl, rfl, fun p h => ?_, fun d p h => (load_below h hfree).2⟩
  have hp : Admitting c p :=
    h.invariant (admitting_start c) fun _ _ _ hq _ hs => hq.step hfree (step_moves hs)
  refine ⟨hp.positive, fun i p' hs => ?_, fun i p' hs hseq => ?_, fun hnone => ?_⟩
  · exact ((step_moves hs).monotone hp.positive (hfree.trans hp.headroom)).2
  · obtain ⟨live, pid, d, rfl, hpt, hd, rfl⟩ := (step_moves hs).admission hseq
    obtain ⟨hlt, hsuits⟩ := chooseDevice_some hd
    exact ⟨hp.room hpt d pid, live, pid, d, rfl, hlt, rfl, hsuits⟩
  · refine ⟨fun hw => hp.waiting hw hnone, fun n hn => ⟨fun hpt => ?_, fun hpt => ?_⟩⟩
    · change p.step c p.point (.count n) = _
      rw [hpt, Parent.step, if_neg (Nat.pos_iff_ne_zero.mp hn)]
    · exact hp.admits hdev hnone hpt hn

/-- Two devices and room for three children. -/
def twoDevices : Draining where
  workerId := "w"
  runId := "r"
  concurrency := { maxConcurrent := 3 }
  perDevice := [.finite 8000, .finite 500]

/-- Two children on two devices; the second device never clears the headroom. -/
theorem two_devices_admission : ∃ p, twoDevices.loop.run (start twoDevices)
      [.count 3, .launch none 10, .count 3, .launch none 11] = some p ∧
    1 ≤ p.ceiling ∧ p.load 1 ≤ 1 := by
  have hreads : ∀ i ∈ [Input.count 3, .launch none 10, .count 3, .launch none 11],
      ∀ q, StaysBelow twoDevices 1 q i := by
    intro i hi q live pid he
    simp only [List.mem_cons, List.not_mem_nil, or_false] at hi
    rcases hi with rfl | rfl | rfl | rfl <;> cases he <;> decide +kernel
  have hrun : (twoDevices.loop.run (start twoDevices)
      [.count 3, .launch none 10, .count 3, .launch none 11]).isSome = true := by decide +kernel
  obtain ⟨p, hp⟩ := Option.isSome_iff_exists.mp hrun
  obtain ⟨-, -, hreach, hload⟩ := admission_invariants twoDevices (by decide) (by decide +kernel)
  exact ⟨p, hp, (hreach p (Machine.reaches_of_run hp)).1,
    hload 1 p (Machine.steps_of_run hp (Machine.along_of_forall hreads _))⟩

end Parent
end FineTuneHarness
