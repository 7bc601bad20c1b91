import FineTuneHarness.Executor.Concurrent

/-!
# What one step of `drain_concurrent` does

The steps of the parent and its children, read as steps of the parent loop and of the fleet;
and which children the parent keeps in sight.
-/
namespace FineTuneHarness

open Library

/-! ## The loop, input by input -/

/-- The successes a drain ends with. -/
def LocalWorker.DrainEnd.count : LocalWorker.DrainEnd → Nat
  | .succeeded n => n
  | .degraded _ n => n

/-- Points behind the loop. -/
def Point.late : Point → Bool
  | .concluding | .ended _ => true
  | _ => false

namespace Parent

variable {c : Draining} {p p' : Parent}

/-- A step of the loop is a step at its point. -/
theorem loop_step (i : Input) : c.loop.step p i = p.step c p.point i := rfl

theorem loop_count {n : Nat} (h : c.loop.step p (.count n) = some p') :
    (p.point = .admitting ∧ (p' = { p with point := .choosing } ∨ p' = p.leaveAdmission)) ∨
      p.point = .checking ∧ p' = { p with point := if n = 0 then .concluding else .admitting } := by
  rw [loop_step] at h
  cases hpt : p.point with
  | admitting =>
    rw [hpt, step] at h
    refine .inl ⟨rfl, ?_⟩
    split at h
    · exact .inl (Option.some.inj h).symm
    · exact .inr (Option.some.inj h).symm
  | checking =>
    rw [hpt] at h
    exact .inr ⟨rfl, (Option.some.inj h).symm⟩
  | _ => rw [hpt] at h; cases h

theorem loop_launch {live : Option (List PyFloat)} {pid : Nat}
    (h : c.loop.step p (.launch live pid) = some p') : p.point = .choosing ∧
      ((∃ d, p' = p.admitTo c d pid) ∨ p' = p.leaveAdmission) := by
  rw [loop_step] at h
  cases hpt : p.point with
  | choosing =>
    rw [hpt, step] at h
    refine ⟨rfl, ?_⟩
    split at h
    next d _ => exact .inl ⟨d, (Option.some.inj h).symm⟩
    next => exact .inr (Option.some.inj h).symm
  | _ => rw [hpt] at h; cases h

theorem loop_message {pid : Nat} {outcome : ChildOutcome}
    (h : c.loop.step p (.message pid outcome) = some p') : p.point = .waiting ∧
      p' = { p with
        inFlight := p.inFlight.erase pid, point := .joining (p.inFlight.find? pid) outcome } := by
  rw [loop_step] at h
  cases hpt : p.point with
  | waiting => rw [hpt] at h; exact ⟨rfl, (Option.some.inj h).symm⟩
  | _ => rw [hpt] at h; cases h

theorem loop_timeout (h : c.loop.step p .timeout = some p') :
    p.point = .waiting ∧ p' = p.sweepOn p.inFlight.rows := by
  rw [loop_step] at h
  cases hpt : p.point with
  | waiting => rw [hpt] at h; exact ⟨rfl, (Option.some.inj h).symm⟩
  | _ => rw [hpt] at h; cases h

theorem loop_alive {next : InFlight} {rest : List InFlight} {isAlive : Bool}
    (hpt : p.point = .sweeping next rest) (h : c.loop.step p (.alive isAlive) = some p') :
    p' = if isAlive then p.sweepOn rest
      else { p with inFlight := p.inFlight.erase next.pid, point := .reclaiming next rest } := by
  rw [loop_step, hpt, step] at h
  split at h
  next hb => rw [if_pos hb]; exact (Option.some.inj h).symm
  next hb => rw [if_neg hb]; exact (Option.some.inj h).symm

theorem loop_reclaimed {dead : InFlight} {rest : List InFlight}
    (hpt : p.point = .reclaiming dead rest) (h : c.loop.step p .reclaimed = some p') :
    p' = p.lowerCeiling.sweepOn rest := by
  rw [loop_step, hpt] at h
  exact (Option.some.inj h).symm

theorem loop_joined {entry : Option InFlight} {outcome : ChildOutcome}
    (hpt : p.point = .joining entry outcome) (h : c.loop.step p .joined = some p') :
    p' = p.settle outcome := by
  rw [loop_step, hpt] at h
  exact (Option.some.inj h).symm

/-- How a drain that counted `n` successes ends. -/
def endingOf (tasks : List TaskRecord) (n : Nat) : LocalWorker.DrainEnd :=
  if (tasks.filter (·.status.unsuccessful)).isEmpty then .succeeded n
  else .degraded (tasks.filter (·.status.unsuccessful)) n

theorem loop_tasks {tasks : List TaskRecord} (h : c.loop.step p (.tasks tasks) = some p') :
    p.point = .concluding ∧ p' = { p with point := .ended (endingOf tasks p.succeeded) } := by
  rw [loop_step] at h
  cases hpt : p.point with
  | concluding => rw [hpt] at h; exact ⟨rfl, (Option.some.inj h).symm⟩
  | _ => rw [hpt] at h; cases h

/-- A call that has ended reads nothing more. -/
theorem not_ended_of_loop {i : Input} (h : c.loop.step p i = some p')
    (ending : LocalWorker.DrainEnd) : p.point ≠ .ended ending := by
  intro hpt
  rw [loop_step, hpt] at h
  cases i <;> cases h

/-- The loop is left after a count of no task, and the call ends with its final scan. -/
theorem of_late {i : Input} (h : c.loop.step p i = some p') (hlate : p'.point.late = true) :
    i = .count 0 ∧ p'.point = .concluding ∨ ∃ tasks, i = .tasks tasks := by
  have hsweep : ∀ (q : Parent) rest, (q.sweepOn rest).point.late = false := by
    intro q rest
    cases rest <;> rfl
  have hleave : p.leaveAdmission.point.late = false := by
    unfold leaveAdmission
    cases p.inFlight.rows.isEmpty <;> rfl
  have hs := h
  rw [loop_step] at hs
  cases i with
  | count n =>
    rcases loop_count h with ⟨-, rfl | rfl⟩ | ⟨-, rfl⟩
    · cases hlate
    · rw [hleave] at hlate; cases hlate
    · cases n with
      | zero => exact .inl ⟨rfl, rfl⟩
      | succ n => cases hlate
  | launch live pid =>
    obtain ⟨-, ⟨d, rfl⟩ | rfl⟩ := loop_launch h
    · cases hlate
    · rw [hleave] at hlate; cases hlate
  | message pid outcome =>
    obtain ⟨-, rfl⟩ := loop_message h
    cases hlate
  | timeout =>
    obtain ⟨-, rfl⟩ := loop_timeout h
    rw [hsweep] at hlate; cases hlate
  | alive isAlive =>
    cases hpt : p.point with
    | sweeping next rest =>
      rw [loop_alive hpt h] at hlate
      split at hlate
      · rw [hsweep] at hlate; cases hlate
      · cases hlate
    | _ => rw [hpt] at hs; cases hs
  | reclaimed =>
    cases hpt : p.point with
    | reclaiming dead rest =>
      rw [loop_reclaimed hpt h, hsweep] at hlate
      cases hlate
    | _ => rw [hpt] at hs; cases hs
  | joined =>
    cases hpt : p.point with
    | joining entry outcome =>
      rw [loop_joined hpt h] at hlate
      cases outcome <;> cases hlate
    | _ => rw [hpt] at hs; cases hs
  | tasks tasks => exact .inr ⟨tasks, rfl⟩

/-- A call ends with its final scan. -/
theorem tasks_of_ended {i : Input} (h : c.loop.step p i = some p') {ending : LocalWorker.DrainEnd}
    (hend : p'.point = .ended ending) : ∃ tasks, i = .tasks tasks := by
  rcases of_late h (by rw [hend]; rfl) with ⟨-, hpt⟩ | ht
  · rw [hpt] at hend
    cases hend
  · exact ht

end Parent

/-! ## The parent and its children, step by step -/

namespace Concurrent

variable {c : Draining} {pf : Platform} {s s' : Concurrent}

/-- **Inversion, step by step.** -/
inductive Steps (c : Draining) (pf : Platform) (s : Concurrent) : DrainAct → Concurrent → Prop
  | begin {i x pool} (child : s.child? i = some x) (stage : x.stage = .starting)
      (fleet : (fleet pf).machine.step s.pool (.start i c.childJob) = some pool) :
      Steps c pf s (.begin i) { s.setStage i .running with pool }
  | call {i x a pool} (child : s.child? i = some x) (stage : x.stage = .running)
      (fleet : (fleet pf).machine.step s.pool (.call i a) = some pool) :
      Steps c pf s (.call i a) { s with pool }
  | report {i x outcome} (child : s.child? i = some x) (stage : x.stage = .running)
      (said : childOutcome pf (s.pool.client i) = some outcome) :
      Steps c pf s (.report i)
        { s.setStage i (.reported outcome) with queue := s.queue ++ [(x.pid, outcome)] }
  | leave {i x said} (child : s.child? i = some x) (stage : x.stage = .reported said) :
      Steps c pf s (.exit i) (s.setStage i (.exited (some said)))
  | die {i x pool} (child : s.child? i = some x) (stage : x.stage = .starting ∨ x.stage = .running)
      (fleet : (fleet pf).machine.step s.pool (.crash i) = some pool) :
      Steps c pf s (.exit i) { s.setStage i (.exited none) with pool }
  | count {now p} (loop : c.loop.step s.parent (.count (s.countLeaseable c now)) = some p) :
      Steps c pf s (.count now) { s with parent := p }
  | pass {live pid p} (loop : c.loop.step s.parent (.launch live pid) = some p)
      (seq : p.childSeq = s.parent.childSeq) : Steps c pf s (.launch live pid) { s with parent := p }
  | launch {live pid p} (loop : c.loop.step s.parent (.launch live pid) = some p)
      (seq : p.childSeq ≠ s.parent.childSeq) (free : pid ∉ s.livePids)
      (fresh : s.parent.nextWorker c ∉ s.children.rows.map Child.worker) :
      Steps c pf s (.launch live pid)
        { s with
          parent := p
          children := s.children.insert
            { worker := s.parent.nextWorker c, pid, stage := .starting } fresh }
  | deliver {n pid outcome p} (message : s.queue[n]? = some (pid, outcome))
      (loop : c.loop.step s.parent (.message pid outcome) = some p) :
      Steps c pf s (.deliver n) { s with parent := p, queue := s.queue.eraseIdx n }
  | timeout {p} (loop : c.loop.step s.parent .timeout = some p) :
      Steps c pf s .timeout { s with parent := p }
  | look {next rest p} (point : s.parent.point = .sweeping next rest)
      (loop : c.loop.step s.parent (.alive !(s.gone next.worker)) = some p) :
      Steps c pf s .look { s with parent := p }
  | reclaim {dead rest clock pool p} (point : s.parent.point = .reclaiming dead rest)
      (fleet : (fleet pf).machine.step s.pool (.env
        (.reclaimDeadWorker c.runId dead.worker c.concurrency.maxOomRetries, clock)) = some pool)
      (loop : c.loop.step s.parent .reclaimed = some p) :
      Steps c pf s (.reclaim clock) { s with pool, parent := p }
  | join {entry outcome p} (point : s.parent.point = .joining entry outcome)
      (ended : ∀ e, entry = some e → s.gone e.worker = true)
      (loop : c.loop.step s.parent .joined = some p) : Steps c pf s .join { s with parent := p }
  | conclude {p} (loop : c.loop.step s.parent (.tasks (s.pool.shared.store.tasksOf c.runId)) = some p) :
      Steps c pf s .conclude { s with parent := p }

theorem stage_eq_some {i : WorkerId} {st : ChildStage} (h : s.stage i = some st) :
    ∃ x, s.child? i = some x ∧ x.stage = st := Option.map_eq_some_iff.mp h

theorem tell_some {i : Parent.Input} (h : s.tell c i = some s') :
    ∃ p, c.loop.step s.parent i = some p ∧ s' = { s with parent := p } := by
  obtain ⟨p, hp, rfl⟩ := Option.map_eq_some_iff.mp h
  exact ⟨p, hp, rfl⟩

theorem launch_some {live : Option (List PyFloat)} {pid : Nat} (h : s.launch c live pid = some s') :
    Steps c pf s (.launch live pid) s' := by
  obtain ⟨t, ht, h⟩ := Option.bind_eq_some_iff.mp h
  obtain ⟨p, hp, rfl⟩ := tell_some ht
  dsimp only at h
  split at h
  next hseq =>
    obtain rfl := Option.some.inj h
    exact .pass hp hseq
  next hseq =>
    split at h
    · cases h
    next hfree =>
      split at h
      next hfresh =>
        obtain rfl := Option.some.inj h
        exact .launch hp hseq hfree hfresh
      next => cases h

theorem step_steps {a : DrainAct} (h : (c.machine pf).step s a = some s') : Steps c pf s a s' := by
  change s.step c pf a = some s' at h
  cases a with
  | begin i =>
    simp only [step] at h
    split at h
    next hst =>
      obtain ⟨x, hx, hst⟩ := stage_eq_some hst
      obtain ⟨pool, hp, rfl⟩ := Option.map_eq_some_iff.mp h
      exact .begin hx hst hp
    next => cases h
  | call i a =>
    simp only [step] at h
    split at h
    next hst =>
      obtain ⟨x, hx, hst⟩ := stage_eq_some hst
      obtain ⟨pool, hp, rfl⟩ := Option.map_eq_some_iff.mp h
      exact .call hx hst hp
    next => cases h
  | report i =>
    simp only [step] at h
    split at h
    next hst =>
      obtain ⟨x, hx, hst⟩ := stage_eq_some hst
      obtain ⟨outcome, ho, h⟩ := Option.bind_eq_some_iff.mp h
      obtain ⟨x', hx', rfl⟩ := Option.map_eq_some_iff.mp h
      obtain rfl := Option.some.inj (hx.symm.trans hx')
      exact .report hx hst ho
    next => cases h
  | exit i =>
    simp only [step] at h
    split at h
    next said hst =>
      obtain ⟨x, hx, hst⟩ := stage_eq_some hst
      obtain rfl := Option.some.inj h
      exact .leave hx hst
    next hst =>
      obtain ⟨x, hx, hst⟩ := stage_eq_some hst
      obtain ⟨pool, hp, rfl⟩ := Option.map_eq_some_iff.mp h
      exact .die hx (.inl hst) hp
    next hst =>
      obtain ⟨x, hx, hst⟩ := stage_eq_some hst
      obtain ⟨pool, hp, rfl⟩ := Option.map_eq_some_iff.mp h
      exact .die hx (.inr hst) hp
    next => cases h
  | count now =>
    obtain ⟨p, hp, rfl⟩ := tell_some h
    exact .count hp
  | launch live pid => exact launch_some h
  | deliver n =>
    simp only [step] at h
    split at h
    next pid outcome hm =>
      obtain ⟨p, hp, rfl⟩ := tell_some h
      exact .deliver hm hp
    next => cases h
  | timeout =>
    obtain ⟨p, hp, rfl⟩ := tell_some h
    exact .timeout hp
  | look =>
    simp only [step] at h
    split at h
    next next rest hpt =>
      obtain ⟨p, hp, rfl⟩ := tell_some h
      exact .look hpt hp
    next => cases h
  | reclaim clock =>
    simp only [step] at h
    split at h
    next dead rest hpt =>
      obtain ⟨pool, hpool, h⟩ := Option.bind_eq_some_iff.mp h
      obtain ⟨p, hp, rfl⟩ := tell_some h
      exact .reclaim hpt hpool hp
    next => cases h
  | join =>
    simp only [step] at h
    split at h
    next entry outcome hpt =>
      split at h
      next hall =>
        obtain ⟨p, hp, rfl⟩ := tell_some h
        refine .join hpt (fun e he => ?_) hp
        subst he
        exact hall
      next => cases h
    next => cases h
  | conclude =>
    obtain ⟨p, hp, rfl⟩ := tell_some h
    exact .conclude hp

end Concurrent

/-! ## Children in sight -/

/-- What is left of a sweep. -/
def Point.pending : Point → List InFlight
  | .sweeping next rest => next :: rest
  | .reclaiming _ rest => rest
  | _ => []

/-- Points that are reached with no child in flight. -/
def Point.over : Point → Bool
  | .checking | .concluding | .ended _ => true
  | _ => false

/-- The process of the entry has ended. -/
def EndedIn (children : Table Child WorkerId Child.worker) (e : InFlight) : Prop :=
  ∃ x, children.find? e.worker = some x ∧ x.stage.ended = true

/-- Every child that is alive is in flight, or waited for. -/
structure Watched (c : Draining) (p : Parent) (children : Table Child WorkerId Child.worker) :
    Prop where
  named : ∀ x ∈ children.rows, ∃ k < p.childSeq, x.worker = s!"{c.workerId}-c{k + 1}"
  inSight : ∀ x ∈ children.rows, x.stage.ended = false →
    (∃ e ∈ p.inFlight.rows, e.worker = x.worker ∧ e.pid = x.pid) ∨
      ∃ e o, p.point = .joining (some e) o ∧ e.worker = x.worker
  pending : ∀ e ∈ p.point.pending, e ∈ p.inFlight.rows
  distinct : (p.point.pending.map InFlight.pid).Nodup
  dead : ∀ d rest, p.point = .reclaiming d rest → EndedIn children d
  empty : p.point.over = true → p.inFlight.rows = []

namespace Watched

variable {c : Draining} {p p' : Parent} {children : Table Child WorkerId Child.worker}

theorem initial (c : Draining) : Watched c (.start c) .empty where
  named := nofun
  inSight := nofun
  pending := nofun
  distinct := List.nodup_nil
  dead := nofun
  empty := nofun

/-- A child gets on, or ends. -/
theorem setStage (h : Watched c p children) {i : WorkerId} {x : Child} {st : ChildStage}
    (hx : children.find? i = some x) (hlive : x.stage.ended = false) :
    Watched c p (children.modify i ({ · with stage := st }) fun _ => rfl) where
  named y hy := by
    obtain ⟨z, hz, rfl⟩ := (Table.mem_modify _).mp hy
    obtain ⟨k, hk, hw⟩ := h.named z hz
    exact ⟨k, hk, by split <;> exact hw⟩
  inSight y hy hl := by
    obtain ⟨z, hz, rfl⟩ := (Table.mem_modify _).mp hy
    have hzl : z.stage.ended = false := by
      by_cases hzi : z.worker = i
      · have hzx : children.find? i = some z := hzi ▸ Table.mem_rows_iff.mp hz
        rwa [Option.some.inj (hzx.symm.trans hx)]
      · rwa [if_neg hzi] at hl
    have hsame : (if z.worker = i then { z with stage := st } else z).worker = z.worker ∧
        (if z.worker = i then { z with stage := st } else z).pid = z.pid := by
      split <;> exact ⟨rfl, rfl⟩
    rw [hsame.1, hsame.2]
    exact h.inSight z hz hzl
  pending := h.pending
  distinct := h.distinct
  dead d rest hpt := by
    obtain ⟨y, hy, he⟩ := h.dead d rest hpt
    refine ⟨y, ?_, he⟩
    rw [Table.find?_modify_of_ne _ fun hd => ?_, hy]
    rw [hd, hx] at hy
    rw [← Option.some.inj hy, hlive] at he
    cases he
  empty := h.empty

/-- The parent goes on with the children it has. -/
theorem goOn (h : Watched c p children) (hflight : p'.inFlight = p.inFlight)
    (hseq : p'.childSeq = p.childSeq)
    (hjoin : ∀ e o, p.point = .joining (some e) o → EndedIn children e)
    (hpend : ∀ e ∈ p'.point.pending, e ∈ p.inFlight.rows)
    (hdistinct : (p'.point.pending.map InFlight.pid).Nodup)
    (hdead : ∀ d rest, p'.point ≠ .reclaiming d rest)
    (hempty : p'.point.over = true → p.inFlight.rows = []) : Watched c p' children where
  named := by rw [hseq]; exact h.named
  inSight x hx hl := by
    rw [hflight]
    rcases h.inSight x hx hl with hin | ⟨e, o, hpt, hw⟩
    · exact .inl hin
    · obtain ⟨y, hy, he⟩ := hjoin e o hpt
      rw [hw, Table.mem_rows_iff.mp hx] at hy
      rw [← Option.some.inj hy, hl] at he
      cases he
  pending := by rw [hflight]; exact hpend
  distinct := hdistinct
  dead d rest hpt := absurd hpt (hdead d rest)
  empty := by rw [hflight]; exact hempty

/-- The parent goes on to a point where nothing is swept and nothing joined. -/
theorem goTo (h : Watched c p children) (hflight : p'.inFlight = p.inFlight)
    (hseq : p'.childSeq = p.childSeq)
    (hjoin : ∀ e o, p.point = .joining (some e) o → EndedIn children e)
    (hpend : p'.point.pending = []) (hdead : ∀ d rest, p'.point ≠ .reclaiming d rest)
    (hempty : p'.point.over = true → p.inFlight.rows = []) : Watched c p' children :=
  h.goOn hflight hseq hjoin (by rw [hpend]; exact nofun) (by rw [hpend]; exact List.nodup_nil)
    hdead hempty

theorem leaveAdmission (h : Watched c p children)
    (hjoin : ∀ e o, p.point = .joining (some e) o → EndedIn children e) :
    Watched c p.leaveAdmission children := by
  unfold Parent.leaveAdmission
  cases hr : p.inFlight.rows with
  | nil => exact h.goTo rfl rfl hjoin rfl nofun fun _ => hr
  | cons e rest => exact h.goTo rfl rfl hjoin rfl nofun nofun

theorem sweepOn (h : Watched c p children)
    (hjoin : ∀ e o, p.point = .joining (some e) o → EndedIn children e) {rest : List InFlight}
    (hrest : ∀ e ∈ rest, e ∈ p.inFlight.rows) (hdistinct : (rest.map InFlight.pid).Nodup) :
    Watched c (p.sweepOn rest) children := by
  cases rest with
  | nil => exact h.goTo rfl rfl hjoin rfl nofun nofun
  | cons e rest => exact h.goOn rfl rfl hjoin hrest hdistinct nofun nofun

/-- A new child is in flight under the pid of no other live one. -/
theorem admitTo (h : Watched c p children) {d pid : Nat} (hpt : p.point = .choosing)
    (hfree : ∀ x ∈ children.rows, x.stage.ended = false → x.pid ≠ pid)
    (hfresh : p.nextWorker c ∉ children.rows.map Child.worker) :
    Watched c (p.admitTo c d pid)
      (children.insert { worker := p.nextWorker c, pid, stage := .starting } hfresh) where
  named x hx := by
    rcases List.mem_append.mp hx with hx | hx
    · obtain ⟨k, hk, hw⟩ := h.named x hx
      exact ⟨k, Nat.lt_succ_of_lt hk, hw⟩
    · obtain rfl := List.mem_singleton.mp hx
      exact ⟨p.childSeq, Nat.lt_succ_self _, rfl⟩
  inSight x hx hl := by
    refine .inl ?_
    rcases List.mem_append.mp hx with hx | hx
    · rcases h.inSight x hx hl with ⟨e, he, hw, hp⟩ | ⟨e, o, hj, -⟩
      · exact ⟨e, Table.mem_put.mpr (.inr ⟨he, fun hk => hfree x hx hl (hp.symm.trans hk)⟩), hw, hp⟩
      · rw [hpt] at hj; cases hj
    · obtain rfl := List.mem_singleton.mp hx
      exact ⟨_, Table.mem_put.mpr (.inl rfl), rfl, rfl⟩
  pending := nofun
  distinct := List.nodup_nil
  dead := nofun
  empty := nofun

/-- The process of a message is waited for. -/
theorem message (h : Watched c p children) {pid : Nat} {outcome : ChildOutcome}
    (hpt : p.point = .waiting) : Watched c { p with
      inFlight := p.inFlight.erase pid, point := .joining (p.inFlight.find? pid) outcome } children where
  named := h.named
  inSight x hx hl := by
    rcases h.inSight x hx hl with ⟨e, he, hw, hp⟩ | ⟨e, o, hj, -⟩
    · by_cases hk : e.pid = pid
      · exact .inr ⟨e, outcome, by rw [← hk, Table.mem_rows_iff.mp he], hw⟩
      · exact .inl ⟨e, Table.mem_erase.mpr ⟨he, hk⟩, hw, hp⟩
    · rw [hpt] at hj; cases hj
  pending := nofun
  distinct := List.nodup_nil
  dead := nofun
  empty := nofun

/-- A child that is found dead is no longer in flight. -/
theorem drop (h : Watched c p children) {next : InFlight} {rest : List InFlight}
    (hpt : p.point = .sweeping next rest) (hended : EndedIn children next) :
    Watched c { p with
      inFlight := p.inFlight.erase next.pid, point := .reclaiming next rest } children := by
  have hpend := h.pending
  have hdistinct := h.distinct
  rw [hpt] at hpend hdistinct
  obtain ⟨hnot, hdistinct⟩ := List.nodup_cons.mp hdistinct
  obtain ⟨hnext, hrest⟩ := List.forall_mem_cons.mp hpend
  obtain ⟨y, hy, hye⟩ := hended
  refine ⟨h.named, fun x hx hl => ?_, fun e he => ?_, hdistinct, ?_, nofun⟩
  · rcases h.inSight x hx hl with ⟨e, he, hw, hp⟩ | ⟨e, o, hj, -⟩
    · refine .inl ⟨e, Table.mem_erase.mpr ⟨he, fun hk => ?_⟩, hw, hp⟩
      -- the pid selects the entry of the dead child, and this one is alive
      have hen : e = next := List.inj_on_of_nodup_map p.inFlight.nodup he hnext hk
      rw [← hen, hw, Table.mem_rows_iff.mp hx] at hy
      rw [← Option.some.inj hy, hl] at hye
      cases hye
    · rw [hpt] at hj; cases hj
  · exact Table.mem_erase.mpr ⟨hrest e he, fun hk => hnot (hk ▸ List.mem_map_of_mem he)⟩
  · intro d rest' hd
    obtain ⟨rfl, -⟩ := Point.reclaiming.inj hd
    exact ⟨y, hy, hye⟩

/-- When the loop is over, every child has ended. -/
theorem allEnded (h : Watched c p children) (hover : p.point.over = true) {x : Child}
    (hx : x ∈ children.rows) : x.stage.ended = true := by
  cases hl : x.stage.ended with
  | true => rfl
  | false =>
    rcases h.inSight x hx hl with ⟨e, he, -⟩ | ⟨e, o, hj, -⟩
    · rw [h.empty hover] at he; cases he
    · rw [hj] at hover; cases hover

/-- The name of the next child is new. -/
theorem fresh (h : Watched c p children) :
    p.nextWorker c ∉ children.rows.map Child.worker := by
  intro hm
  obtain ⟨x, hx, hw⟩ := List.mem_map.mp hm
  obtain ⟨k, hk, hw'⟩ := h.named x hx
  have hname : s!"{c.workerId}-c{k + 1}" = s!"{c.workerId}-c{p.childSeq + 1}" := hw'.symm.trans hw
  have hdigits := congrArg String.toList hname
  simp only [toString, String.toList_append, List.append_cancel_left_eq, Nat.toList_repr] at hdigits
  have hnumber := congrArg (Nat.ofDigitChars 10 · 0) hdigits
  simp only [Nat.ofDigitChars_ten_toDigits] at hnumber
  omega

end Watched

namespace Concurrent

variable {c : Draining} {pf : Platform} {s s' : Concurrent} {a : DrainAct}

theorem gone_iff {e : InFlight} : s.gone e.worker = true ↔ EndedIn s.children e := by
  unfold gone stage child? EndedIn
  cases s.children.find? e.worker with
  | none => simp
  | some x => simp

theorem not_mem_livePids {pid : Nat} (h : pid ∉ s.livePids) :
    ∀ x ∈ s.children.rows, x.stage.ended = false → x.pid ≠ pid := by
  rintro x hx hl rfl
  exact h (List.mem_map_of_mem (List.mem_filter.mpr ⟨hx, by simp [hl]⟩))

theorem tracked_step (h : Watched c s.parent s.children) (hs : Steps c pf s a s') :
    Watched c s'.parent s'.children := by
  cases hs with
  | begin child stage | report child stage | leave child stage =>
    exact h.setStage child (by rw [stage]; rfl)
  | die child stage => exact h.setStage child (by rcases stage with hst | hst <;> rw [hst] <;> rfl)
  | call => exact h
  | count loop =>
    rcases Parent.loop_count loop with ⟨hpt, rfl | rfl⟩ | ⟨hpt, rfl⟩
    · exact h.goTo rfl rfl (by rw [hpt]; exact nofun) rfl nofun nofun
    · exact h.leaveAdmission (by rw [hpt]; exact nofun)
    · refine h.goTo rfl rfl (by rw [hpt]; exact nofun) ?_ ?_ fun _ => h.empty (by rw [hpt]; rfl)
      · dsimp only; split <;> rfl
      · dsimp only; split <;> exact nofun
  | pass loop seq =>
    obtain ⟨hpt, ⟨d, rfl⟩ | rfl⟩ := Parent.loop_launch loop
    · exact absurd seq (Nat.succ_ne_self _)
    · exact h.leaveAdmission (by rw [hpt]; exact nofun)
  | launch loop seq free fresh =>
    obtain ⟨hpt, ⟨d, rfl⟩ | rfl⟩ := Parent.loop_launch loop
    · exact h.admitTo hpt (not_mem_livePids free) fresh
    · exact absurd rfl seq
  | deliver _ loop =>
    obtain ⟨hpt, rfl⟩ := Parent.loop_message loop
    exact h.message hpt
  | timeout loop =>
    obtain ⟨hpt, rfl⟩ := Parent.loop_timeout loop
    exact h.sweepOn (by rw [hpt]; exact nofun) (fun _ => id) s.parent.inFlight.nodup
  | @look next rest p point loop =>
    have hpend := h.pending
    have hdistinct := h.distinct
    rw [point] at hpend hdistinct
    rw [Parent.loop_alive point loop]
    cases hg : s.gone next.worker with
    | false =>
      exact h.sweepOn (by rw [point]; exact nofun) (List.forall_mem_cons.mp hpend).2
        (List.nodup_cons.mp hdistinct).2
    | true => exact h.drop point (gone_iff.mp hg)
  | reclaim point _ loop =>
    have hpend := h.pending
    have hdistinct := h.distinct
    rw [point] at hpend hdistinct
    rw [Parent.loop_reclaimed point loop]
    have hlower : Watched c s.parent.lowerCeiling s.children :=
      ⟨h.named, h.inSight, h.pending, h.distinct, h.dead, h.empty⟩
    exact hlower.sweepOn (fun e o he => nomatch point.symm.trans he) hpend hdistinct
  | @join entry outcome p point ended loop =>
    rw [Parent.loop_joined point loop]
    have hjoin : ∀ e o, s.parent.point = .joining (some e) o → EndedIn s.children e := by
      intro e o he
      obtain ⟨rfl, -⟩ := Point.joining.inj (point.symm.trans he)
      exact gone_iff.mp (ended e rfl)
    cases outcome <;> exact h.goTo rfl rfl hjoin rfl nofun nofun
  | conclude loop =>
    obtain ⟨hpt, rfl⟩ := Parent.loop_tasks loop
    exact h.goTo rfl rfl (by rw [hpt]; exact nofun) rfl nofun fun _ => h.empty (by rw [hpt]; rfl)

/-- A child that has not ended keeps the parent in its loop. -/
theorem not_late (h : Watched c s.parent s.children) {i : WorkerId} {x : Child}
    (hx : s.child? i = some x) (hl : x.stage.ended = false) : s.parent.point.late = false := by
  cases hlate : s.parent.point.late with
  | false => rfl
  | true =>
    have hover : s.parent.point.over = true := by
      cases hpt : s.parent.point <;> rw [hpt] at hlate <;> first | rfl | cases hlate
    have hended := h.allEnded hover (Table.find?_eq_some_iff.mp hx).1
    rw [hl] at hended
    cases hended

/-- The loop is left by a count of no task, and the call ended by the final scan; neither moves
a task. -/
theorem late_step (h : Watched c s.parent s.children) (hs : Steps c pf s a s')
    (hlate : s'.parent.point.late = true) : s'.pool = s.pool ∧
      ((∃ now, a = .count now ∧ s.countLeaseable c now = 0 ∧ s'.parent.point = .concluding) ∨
        a = .conclude ∧ s.parent.point = .concluding) := by
  have hloop : ∀ {i p}, c.loop.step s.parent i = some p → p.point.late = true → i ≠ .count 0 →
      (∀ tasks, i ≠ .tasks tasks) → False := by
    intro i p hl hp hcount htasks
    rcases Parent.of_late hl hp with ⟨hi, -⟩ | ⟨tasks, hi⟩
    · exact hcount hi
    · exact htasks tasks hi
  have hchild : ∀ {i x}, s.child? i = some x → x.stage.ended = false →
      s.parent.point.late = true → False := by
    intro i x hx hl hp
    rw [not_late h hx hl] at hp
    cases hp
  cases hs with
  | begin child stage | report child stage | leave child stage | call child stage =>
    exact (hchild child (by rw [stage]; rfl) hlate).elim
  | die child stage =>
    exact (hchild child (by rcases stage with hst | hst <;> rw [hst] <;> rfl) hlate).elim
  | @count now p loop =>
    rcases Parent.of_late loop hlate with ⟨hi, hpt⟩ | ⟨tasks, hi⟩
    · exact ⟨rfl, .inl ⟨now, rfl, Parent.Input.count.inj hi, hpt⟩⟩
    · cases hi
  | pass loop | launch loop | deliver _ loop | timeout loop | look _ loop | reclaim _ _ loop
  | join _ _ loop => exact (hloop loop hlate nofun nofun).elim
  | conclude loop => exact ⟨rfl, .inr ⟨rfl, (Parent.loop_tasks loop).1⟩⟩

/-- **Every child that is alive is in sight**, in every state of every call. -/
theorem tracked {store : StateStore} (h : (c.machine pf).Reaches (c.begin store) s) :
    Watched c s.parent s.children :=
  h.invariant (I := fun s => Watched c s.parent s.children) (Watched.initial c)
    fun _ _ _ hI _ hs => tracked_step hI (step_steps hs)

end Concurrent

/-! ## The clients of the children -/

/-- Where the client of a child is; `dead` says whether the fleet has lost it. -/
def ChildStage.Seats (client : Client Effect Effect.Reply PyExc Outcome) (dead : Prop) :
    ChildStage → Prop
  | .starting => client = .idle ∧ ¬ dead
  | .running => ¬ dead
  | .reported _ | .exited (some _) => client.finished = true ∧ ¬ dead
  | .exited none => dead

theorem finished_of_childOutcome {pf : Platform}
    {client : Client Effect Effect.Reply PyExc Outcome} {outcome : ChildOutcome}
    (h : childOutcome pf client = some outcome) : client.finished = true := by
  cases client with
  | running prog => cases prog <;> first | rfl | cases h
  | _ => cases h

section Stage

variable {s : Concurrent} {x : Child} {st : ChildStage} (hx : s.child? x.worker = some x)
include hx

/-- The children after a change of stage: the one changed, and the others. -/
theorem Concurrent.mem_setStage {y : Child} : y ∈ (s.setStage x.worker st).children.rows ↔
    y = { x with stage := st } ∨ y ∈ s.children.rows ∧ y.worker ≠ x.worker :=
  Table.mem_modify_iff (f := ({ · with stage := st })) (fun _ => rfl) hx

/-- Who has no child after a change of stage had none before. -/
theorem Concurrent.not_child_setStage {i : WorkerId}
    (hi : i ∉ (s.setStage x.worker st).children.rows.map Child.worker) :
    i ≠ x.worker ∧ i ∉ s.children.rows.map Child.worker := by
  rw [Concurrent.setStage, Table.map_key_modify] at hi
  refine ⟨?_, hi⟩
  rintro rfl
  exact hi (List.mem_map_of_mem (Table.find?_eq_some_iff.mp hx).1)

end Stage

/-- Every client is where its child is, and nobody else has one. -/
structure Seated (s : Concurrent) : Prop where
  child : ∀ x ∈ s.children.rows,
    x.stage.Seats (s.pool.client x.worker) (x.worker ∈ s.pool.shared.dead)
  idle : ∀ i, i ∉ s.children.rows.map Child.worker →
    s.pool.client i = .idle ∧ i ∉ s.pool.shared.dead

namespace Seated

variable {c : Draining} {pf : Platform} {s s' : Concurrent} {a : DrainAct}

theorem initial (c : Draining) (store : StateStore) : Seated (c.begin store) :=
  ⟨nofun, fun _ _ => ⟨rfl, nofun⟩⟩

/-- A child gets on, and nobody else's client moves. -/
theorem childOn (h : Seated s) (pool : FleetState) (queue : List (Nat × ChildOutcome)) {x : Child}
    {st : ChildStage} (hx : s.child? x.worker = some x)
    (hothers : ∀ j, j ≠ x.worker → pool.client j = s.pool.client j ∧
      (j ∈ pool.shared.dead ↔ j ∈ s.pool.shared.dead))
    (hseat : st.Seats (pool.client x.worker) (x.worker ∈ pool.shared.dead)) :
    Seated { s.setStage x.worker st with pool, queue } where
  child y hy := by
    rcases (Concurrent.mem_setStage hx).mp hy with rfl | ⟨hy, hne⟩
    · exact hseat
    · show y.stage.Seats (pool.client y.worker) (y.worker ∈ pool.shared.dead)
      rw [(hothers _ hne).1, (hothers _ hne).2]
      exact h.child y hy
  idle i hi := by
    obtain ⟨hne, hi⟩ := Concurrent.not_child_setStage hx hi
    change pool.client i = .idle ∧ i ∉ pool.shared.dead
    rw [(hothers i hne).1, (hothers i hne).2]
    exact h.idle i hi

theorem step (h : Seated s) (hs : Concurrent.Steps c pf s a s') : Seated s' := by
  have hfind : ∀ {i x}, s.child? i = some x → x ∈ s.children.rows ∧ x.worker = i := fun hx =>
    Table.find?_eq_some_iff.mp hx
  cases hs with
  | @begin i x pool child stage fleet =>
    obtain ⟨hx, rfl⟩ := hfind child
    have hseat := h.child x hx
    rw [stage] at hseat
    obtain ⟨prog, shared, hspawn, rfl⟩ := Service.start_some fleet
    obtain ⟨-, -, rfl⟩ := fleet_spawn hspawn
    exact h.childOn _ s.queue child
      (fun j hj => ⟨Function.update_of_ne hj _ _, Iff.rfl⟩) hseat.2
  | @call i x answers pool child stage fleet =>
    obtain ⟨hx, rfl⟩ := hfind child
    have hseat := h.child x hx
    rw [stage] at hseat
    have hpool : (∀ j, j ≠ x.worker → pool.client j = s.pool.client j) ∧
        pool.shared.dead = s.pool.shared.dead := by
      obtain ⟨e, next, -, rfl⟩ := Service.call_some fleet
      exact ⟨fun j hj => Function.update_of_ne hj _ _, rfl⟩
    have hsame : Seated { s.setStage x.worker x.stage with pool } := h.childOn pool s.queue child
      (fun j hj => ⟨hpool.1 j hj, by rw [hpool.2]⟩) (by rw [stage, hpool.2]; exact hseat)
    rwa [Concurrent.setStage, Table.modify_eq_self _ child rfl] at hsame
  | @report i x outcome child stage said =>
    obtain ⟨hx, rfl⟩ := hfind child
    have hseat := h.child x hx
    rw [stage] at hseat
    exact h.childOn s.pool _ child (fun _ _ => ⟨rfl, Iff.rfl⟩)
      ⟨finished_of_childOutcome said, hseat⟩
  | @leave i x said child stage =>
    obtain ⟨hx, rfl⟩ := hfind child
    have hseat := h.child x hx
    rw [stage] at hseat
    exact h.childOn s.pool s.queue child (fun _ _ => ⟨rfl, Iff.rfl⟩) hseat
  | @die i x pool child stage fleet =>
    obtain ⟨hx, rfl⟩ := hfind child
    obtain rfl := Service.crash_some fleet
    exact h.childOn _ s.queue child
      (fun j hj => ⟨Function.update_of_ne hj _ _, by
        change j ∈ x.worker :: s.pool.shared.dead ↔ _
        rw [List.mem_cons]
        exact or_iff_right hj⟩) List.mem_cons_self
  | @launch live pid p loop seq free fresh =>
    refine ⟨fun x hx => ?_, fun i hi => h.idle i fun hm => hi ?_⟩
    · rcases List.mem_append.mp hx with hx | hx
      · exact h.child x hx
      · obtain rfl := List.mem_singleton.mp hx
        exact h.idle _ fresh
    · simp only [Table.insert, List.map_append]
      exact List.mem_append_left _ hm
  | reclaim point fleet loop =>
    obtain ⟨shared, henv, rfl⟩ := Service.env_some fleet
    obtain rfl := Option.some.inj henv
    exact ⟨h.child, h.idle⟩
  | count | pass | deliver | timeout | look | join | conclude => exact ⟨h.child, h.idle⟩

end Seated

/-! ## A small call to replay -/

/-- One device and one child at a time. -/
def oneByOne : Draining where
  workerId := "w"
  runId := "r"
  concurrency := { maxConcurrent := 1 }
  perDevice := [.finite 8000]

/-- The only child finishes its task, reports it and exits. -/
def oneChild : List DrainAct :=
  [.count 0, .launch none 7, .count 0, .begin "w-c1"] ++
    List.replicate 19 (.call "w-c1" (Answers.steady 0 (.ok (.dict [])))) ++
    [.report "w-c1", .exit "w-c1"]

/-- The call has ended with `n` successes. -/
def Concurrent.endedWith (s : Concurrent) (n : Nat) : Bool :=
  match s.parent.point with
  | .ended ending => ending.count = n
  | _ => false

theorem Concurrent.of_endedWith {s : Concurrent} {n : Nat} (h : s.endedWith n = true) :
    ∃ ending, s.parent.point = .ended ending ∧ ending.count = n := by
  unfold endedWith at h
  split at h
  next ending hpt => exact ⟨ending, hpt, of_decide_eq_true h⟩
  next => cases h

end FineTuneHarness
