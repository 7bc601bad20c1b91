import FineTuneHarness.Registry.MetricsHook

/-!
# The metrics file as a log

However the calls of `after_task_success` interleave, the file holds their entries in the order in
which they took its lock, and reading gives them back. But an entry is merged from the task's key
and id and from the result: a result with an item of either name passes itself off as another task.
-/
namespace FineTuneHarness

open Library Library.JsonText MetricsHook

/-- One call of `after_task_success`, on one of the hooks that share the file. -/
structure MetricsCall (κ : Type) where
  hook : κ
  task : TaskRecord
  now : ℚ
  result : Dict

namespace MetricsCall

variable {κ : Type} (call : MetricsCall κ)

def entry : Dict := metricEntry call.task (.finite call.now) call.result

/-- The result has distinct string keys, and its numbers are finite and can be written, as the
time can. -/
structure Writable (fl : Floats PyFloat) : Prop where
  keys : call.result.stringKeys = true
  distinct : (call.result.map (·.1)).Nodup
  values : ∀ kv ∈ call.result, isMetric kv.2 = true → Recordable fl kv.2
  now : fl.Faithful (.finite call.now)

/-- The entry is the task's own: its key, its id, and otherwise the numbers and texts of the
result; the time is left open. -/
structure Attributed (m : PyVal) : Prop where
  dict : isDict m = true
  taskKey : (items m).get? "task_key" = some (.str call.task.taskKey)
  taskId : (items m).get? "task_id" = some (.str call.task.taskId)
  rest : ∀ k, k ∉ ["task_key", "task_id", "timestamp"] →
    (items m).get? k = (call.result.get? k).filter isMetric

/-- No number or text of the result claims to be the key or the id of another task. -/
def KeepsProvenance : Prop :=
  (∀ v, call.result.get? "task_key" = some v → isMetric v = true → v = .str call.task.taskKey) ∧
  ∀ v, call.result.get? "task_id" = some v → isMetric v = true → v = .str call.task.taskId

end MetricsCall

theorem filter_or_eq_iff {α : Type} {p : α → Bool} {o : Option α} {a : α} :
    (o.filter p).or (some a) = some a ↔ ∀ b, o = some b → p b = true → b = a := by
  cases o with
  | none => simp
  | some b => cases hb : p b <;> simp [Option.filter, hb]

section Log

variable {ι κ : Type} {fl : Floats PyFloat} {call : MetricsCall κ}

theorem MetricsCall.attributed_iff (hcall : call.Writable fl) :
    call.Attributed (.dict call.entry) ↔ call.KeepsProvenance := by
  have hget : ∀ k, call.entry.get? k = ((call.result.get? k).filter isMetric).or
      (Dict.get? (Dict.ofList [("task_key", .str call.task.taskKey),
        ("task_id", .str call.task.taskId), ("timestamp", .float (.finite call.now))]) k) :=
    get?_metricEntry hcall.distinct
  have hkey : call.entry.get? "task_key" = some (.str call.task.taskKey) ↔
      ∀ v, call.result.get? "task_key" = some v → isMetric v = true → v = .str call.task.taskKey := by
    rw [hget]
    exact filter_or_eq_iff
  have hid : call.entry.get? "task_id" = some (.str call.task.taskId) ↔
      ∀ v, call.result.get? "task_id" = some v → isMetric v = true → v = .str call.task.taskId := by
    rw [hget]
    exact filter_or_eq_iff
  constructor
  · intro h
    exact ⟨hkey.mp h.taskKey, hid.mp h.taskId⟩
  · intro h
    refine ⟨rfl, hkey.mpr h.1, hid.mpr h.2, fun k hk => ?_⟩
    simp only [List.mem_cons, List.not_mem_nil, or_false, not_or] at hk
    have hbase : Dict.get? (Dict.ofList [("task_key", .str call.task.taskKey),
        ("task_id", .str call.task.taskId), ("timestamp", .float (.finite call.now))]) k = none := by
      simp [Dict.get?, Dict.ofList, Ne.symm hk.1, Ne.symm hk.2.1, Ne.symm hk.2.2]
    show call.entry.get? k = _
    rw [hget, hbase, Option.or_none]

theorem MetricsCall.isEntry (hcall : call.Writable fl) : IsEntry fl call.entry :=
  isEntry_metricEntry hcall.keys hcall.values hcall.now

variable [DecidableEq ι] [DecidableEq κ] (fl) (calls : ι → MetricsCall κ)

/-- The hooks at work: a call takes the lock of its hook, then the lock of the file, and writes
its line. -/
abbrev metricsHooks : Machine (ExclusiveLog.State ι κ Char) (ExclusiveLog.Event ι) :=
  ExclusiveLog.machine (fun c => (calls c).hook) fun c => line fl (calls c).entry

/-- The file is a lossless log of the calls that have returned: one entry a call, in lock order,
each attributed to its task. -/
structure LosslessLog (s : ExclusiveLog.State ι κ Char) : Prop where
  once : s.log.Nodup
  complete : ∀ c, s.stage c = .done → c ∈ s.log
  entries : List.Forall₂ (fun c m => (calls c).Attributed m) s.log (readMetricsFile fl s.text)

/-- A file with the same entries in another order has the same summary, whoever wrote it. -/
def SummaryOfEntries (file : Option (List Char)) : Prop :=
  ∀ st file', (readMetricsFile fl file').Perm (readMetricsFile fl file) →
    SameSummary (getSummary st (readMetricsFile fl file')) (getSummary st (readMetricsFile fl file))

variable {fl calls} {s : ExclusiveLog.State ι κ Char}

/-- **While the file is not locked, it reads as the entries in lock order.** -/
theorem read_unlocked (hcalls : ∀ c, (calls c).Writable fl)
    (h : (metricsHooks fl calls).Reaches ExclusiveLog.initial s) (hfree : s.holder = none) :
    readMetricsFile fl s.text = s.log.map fun c => .dict (calls c).entry := by
  have hopened : readMetricsFile fl s.text = readMetricsFile fl (some (s.text.getD [])) := by
    cases s.text <;> rfl
  have hentries : ∀ d ∈ s.log.map fun c => (calls c).entry, IsEntry fl d := by
    intro d hd
    obtain ⟨c, -, rfl⟩ := List.mem_map.mp hd
    exact MetricsCall.isEntry (hcalls c)
  have hlines : s.log.flatMap (fun c => line fl (calls c).entry) =
      (s.log.map fun c => (calls c).entry).flatMap (line fl) := by
    rw [List.flatMap_map]
  rw [hopened, ExclusiveLog.text_of_free h hfree, hlines, read_lines hentries, List.map_map]
  rfl

theorem entries_attributed_iff (hcalls : ∀ c, (calls c).Writable fl)
    (h : (metricsHooks fl calls).Reaches ExclusiveLog.initial s) (hfree : s.holder = none) :
    List.Forall₂ (fun c m => (calls c).Attributed m) s.log (readMetricsFile fl s.text) ↔
      ∀ c ∈ s.log, (calls c).KeepsProvenance := by
  rw [read_unlocked hcalls h hfree, List.forall₂_map_right_iff, List.forall₂_same]
  exact forall₂_congr fun c _ => MetricsCall.attributed_iff (hcalls c)

/-- **The metrics file is a lossless, attributable log** exactly if no result that was recorded
has a number or a text under `task_key` or `task_id` that is not its own task's. The summary
never depends on the order of the entries. -/
theorem metrics_log_attributable_iff (hcalls : ∀ c, (calls c).Writable fl)
    (h : (metricsHooks fl calls).Reaches ExclusiveLog.initial s) (hfree : s.holder = none) :
    LosslessLog fl calls s ∧ SummaryOfEntries fl s.text ↔
      ∀ c ∈ s.log, (calls c).KeepsProvenance := by
  have hentries := entries_attributed_iff hcalls h hfree
  have horder := ExclusiveLog.orderly_of_reaches h
  constructor
  · intro hlog
    exact hentries.mp hlog.1.entries
  · intro hkeeps
    constructor
    · refine ⟨horder.nodup, fun c hc => ?_, hentries.mpr hkeeps⟩
      rw [horder.logged, hc]
      rfl
    · intro st file' hperm
      exact getSummary_perm st hperm

end Log

/-! ## Two processes -/

/-- Two processes record a task each. The result of the second may name the task of the first. -/
def twoCalls (named second : Bool) : MetricsCall Bool where
  hook := second
  task := {
    taskId := if second then "id-2" else "id-1"
    runId := "run"
    taskKey := if second then "task-2" else "task-1"
    status := .succeeded
    payload := [] }
  now := 1 / 2
  result := Dict.ofList (("note", .str "two\nlines") ::
    if named && second then [("task_key", .str "task-1")] else [])

/-- The second process waits while the first writes its line in two pieces. -/
def twoWrites : List (ExclusiveLog.Event Bool) :=
  [.enter false, .lock false, .enter true, .write false 20, .write false 100, .unlock false,
    .lock true, .write true 150, .leave false, .unlock true, .leave true]

theorem twoCalls_writable (named second : Bool) : (twoCalls named second).Writable halves := by
  have hvalues : ∀ kv ∈ (twoCalls named second).result, Recordable halves kv.2 := by
    cases named <;> cases second <;> simp [twoCalls, Dict.ofList, Recordable.str]
  constructor
  · cases named <;> cases second <;> rfl
  · cases named <;> cases second <;> decide
  · intro kv hkv _
    exact hvalues kv hkv
  · exact halves_faithful

theorem twoWrites_reaches (named : Bool) : ∃ s,
    (metricsHooks halves (twoCalls named)).Reaches ExclusiveLog.initial s ∧ s.holder = none ∧
      s.log = [false, true] := by
  have hrun : ((metricsHooks halves (twoCalls named)).run ExclusiveLog.initial twoWrites).map
      (fun s => (s.holder, s.log)) = some (none, [false, true]) := by
    cases named <;> decide +kernel
  obtain ⟨s, hs, hend⟩ := Option.map_eq_some_iff.mp hrun
  obtain ⟨hholder, hlog⟩ := Prod.mk.inj hend
  exact ⟨s, Machine.reaches_of_run hs, hholder, hlog⟩

/-- The two entries are read back, each under its own task. -/
theorem metrics_log_attributable_two : ∃ s,
    (metricsHooks halves (twoCalls false)).Reaches ExclusiveLog.initial s ∧
      s.log = [false, true] ∧ LosslessLog halves (twoCalls false) s := by
  obtain ⟨s, h, hfree, hlog⟩ := twoWrites_reaches false
  have hkeeps : ∀ c ∈ s.log, (twoCalls false c).KeepsProvenance := by
    intro c _
    cases c
    · exact ⟨fun v hv => (by cases hv), fun v hv => (by cases hv)⟩
    · exact ⟨fun v hv => (by cases hv), fun v hv => (by cases hv)⟩
  have hlossless := (metrics_log_attributable_iff (twoCalls_writable false) h hfree).mpr hkeeps
  exact ⟨s, h, hlog, hlossless.1⟩

/-- A result that names another task: the entry of the second task is read as one of the first. -/
theorem metrics_entry_misattributed : ∃ s,
    (metricsHooks halves (twoCalls true)).Reaches ExclusiveLog.initial s ∧ s.holder = none ∧
    s.log = [false, true] ∧ (∀ c, (twoCalls true c).Writable halves) ∧
    (readMetricsFile halves s.text).map (fun m => (items m).get? "task_key") =
      [some (.str "task-1"), some (.str "task-1")] ∧
    ¬ LosslessLog halves (twoCalls true) s := by
  obtain ⟨s, h, hfree, hlog⟩ := twoWrites_reaches true
  have hread := read_unlocked (twoCalls_writable true) h hfree
  refine ⟨s, h, hfree, hlog, twoCalls_writable true, ?_, fun hlossless => ?_⟩
  · rw [hread, hlog]
    rfl
  · have hkeeps := (entries_attributed_iff (twoCalls_writable true) h hfree).mp
      hlossless.entries true (by rw [hlog]; decide)
    have hkey := hkeeps.1 (.str "task-1") rfl rfl
    exact absurd (PyVal.str.inj hkey) (by decide)

end FineTuneHarness
