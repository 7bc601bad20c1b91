import FineTuneHarness.Library.Assoc
import FineTuneHarness.Library.ExclusiveLog
import FineTuneHarness.State.Reproducibility
import Mathlib.Algebra.BigOperators.Group.List.Basic

/-!
# `MetricsHook`

Every successful task adds a line to a file: an entry with the task's key and id, the time, and the
numbers and texts of its result. Whoever asks for a summary reads the file. The list the hook keeps
in memory is read by nobody and left out.
-/
namespace FineTuneHarness

open Library Library.JsonText

namespace MetricsHook

/-! ## Writing -/

/-- `isinstance(v, (int, float, str))`; a `bool` is an `int`. -/
def isMetric : PyVal → Bool
  | .bool _ | .int _ | .float _ | .str _ => true
  | _ => false

/-- `metric_entry`: the items of the result are merged over those of the task. -/
def metricEntry (task : TaskRecord) (now : PyFloat) (result : Dict) : Dict :=
  Assoc.merge
    (Dict.ofList [("task_key", .str task.taskKey), ("task_id", .str task.taskId), ("timestamp", .float now)])
    (result.filter fun kv => isMetric kv.2)

/-- The defaults of `json.dumps`. -/
def spaced : Style where
  ascii := true
  blanks := 1

/-- `json.dumps(metric_entry) + "\n"`. Entries that are no JSON objects are not looked at: nothing
is written for them here. -/
def line (fl : Floats PyFloat) (entry : Dict) : List Char :=
  match (PyVal.dict entry).jsonValue with
  | some v => encode fl spaced v ++ ['\n']
  | none => []

/-! ## Reading -/

mutual

/-- What `json.loads` makes of a value: of two members of one name the last one counts. -/
def loadValue : Value PyFloat → PyVal
  | .null => .none
  | .bool b => .bool b
  | .int i => .int i
  | .float f => .float f
  | .str s => .str s
  | .arr xs => .list (loadItems xs)
  | .obj ms => .dict (Assoc.merge [] (loadMembers ms))

def loadItems : List (Value PyFloat) → List PyVal
  | [] => []
  | x :: xs => loadValue x :: loadItems xs

def loadMembers : List (String × Value PyFloat) → Dict
  | [] => []
  | (k, x) :: ms => (.str k, loadValue x) :: loadMembers ms

end

/-- The value of a line; a blank line has none, and a line that is not JSON is skipped. -/
def readLine (fl : Floats PyFloat) (line : List Char) : Option PyVal :=
  let line := PyVal.strip (String.ofList line)
  if line = [] then none else (decode fl line).map loadValue

/-- A text file is read with universal newlines; the line between `\r` and `\n` is blank. -/
def isLineBreak (c : Char) : Bool := c = '\n' || c = '\r'

/-- `_read_metrics_file`. -/
def readMetricsFile (fl : Floats PyFloat) : Option (List Char) → List PyVal
  | none => []
  | some text => (text.splitOnP isLineBreak).filterMap (readLine fl)

/-! ## The summary -/

/-- How `statistics` delivers exact results: `mean` as the type of its data, ints or floats, and
`stdev` as a root. Both raise where the result is too large for a float. -/
structure Statistics where
  convert : (ints : Bool) → ℚ → Option ℚ
  root : ℚ → Option ℚ

/-- The numbers of a metric; `1` and `1.0` are one number. -/
structure MetricStats where
  mean : ℚ
  min : ℚ
  max : ℚ
  stdev : ℚ

inductive SummaryItem
  | count (n : Nat)
  | stats (s : MetricStats)

def isInt : PyVal → Bool
  | .int _ => true
  | _ => false

/-- An int or a finite float. -/
def value? : PyVal → Option ℚ
  | .int i => some i
  | .float (.finite q) => some q
  | _ => none

/-- An item that is summarised: `isinstance(v, (int, float)) and not isinstance(v, bool)`, and the
key is not `timestamp`. -/
def isMeasurement (kv : PyKey × PyVal) : Bool :=
  (match kv.2 with
  | .int _ | .float _ => true
  | _ => false) && kv.1 ≠ .str "timestamp"

/-- `statistics.variance`, exactly. -/
def variance (xs : List ℚ) : ℚ :=
  (xs.length * (xs.map fun x => x * x).sum - xs.sum * xs.sum) / xs.length / (xs.length - 1)

/-- The statistics of a metric. Numbers that are not finite are not looked at. -/
def statsOf (st : Statistics) (vals : List PyVal) : Option MetricStats :=
  if vals.all fun v => (value? v).isSome then do
    let xs := vals.filterMap value?
    let mean ← st.convert (vals.all isInt) (xs.sum / xs.length)
    let min ← xs.min?
    let max ← xs.max?
    let stdev ← if 1 < xs.length then st.root (variance xs) else some 0
    return { mean, min, max, stdev }
  else none

def items : PyVal → Dict
  | .dict d => d
  | _ => []

def isDict : PyVal → Bool
  | .dict _ => true
  | _ => false

/-- `numeric`: the numbers of each metric, over all entries. -/
def numeric (metrics : List PyVal) : List (PyKey × List PyVal) :=
  Assoc.collect (metrics.flatMap fun m => (items m).filter isMeasurement)

def summaryItems (st : Statistics) :
    List (PyKey × List PyVal) → Option (List (PyKey × SummaryItem))
  | [] => some []
  | (k, vals) :: rest => do return (k, .stats (← statsOf st vals)) :: (← summaryItems st rest)

/-- `get_summary`, of what has been read; `none` where it raises. -/
def getSummary (st : Statistics) (metrics : List PyVal) : Option (List (PyKey × SummaryItem)) :=
  if metrics.isEmpty then some [(.str "count", .count 0)]
  else if metrics.all isDict then do
    return Assoc.merge [(.str "count", .count metrics.length)] (← summaryItems st (numeric metrics))
  else none

/-! ## Reading what was written -/

section Lines

variable {fl : Floats PyFloat}

/-- A value an entry can have. -/
inductive Recordable (fl : Floats PyFloat) : PyVal → Prop
  | bool (b : Bool) : Recordable fl (.bool b)
  | int (i : Int) : Recordable fl (.int i)
  | str (s : String) : Recordable fl (.str s)
  | float {q : ℚ} (h : fl.Faithful (.finite q)) : Recordable fl (.float (.finite q))

/-- An entry: distinct strings with numbers and texts. -/
structure IsEntry (fl : Floats PyFloat) (d : Dict) : Prop where
  keys : d.stringKeys = true
  distinct : (d.map (·.1)).Nodup
  values : ∀ kv ∈ d, Recordable fl kv.2

theorem Recordable.jsonValue {v : PyVal} (h : Recordable fl v) :
    ∃ x, v.jsonValue = some x ∧ loadValue x = v ∧ ∀ f ∈ x.floats, fl.Faithful f := by
  cases h with
  | bool b => exact ⟨.bool b, rfl, rfl, fun f hf => by cases hf⟩
  | int i => exact ⟨.int i, rfl, rfl, fun f hf => by cases hf⟩
  | str s => exact ⟨.str s, rfl, rfl, fun f hf => by cases hf⟩
  | float h => exact ⟨.float _, rfl, rfl, List.forall_mem_singleton.mpr h⟩

theorem jsonMembers_entry {d : Dict} (hkeys : d.stringKeys = true)
    (hvalues : ∀ kv ∈ d, Recordable fl kv.2) :
    ∃ ms, jsonMembers d = some ms ∧ loadMembers ms = d ∧ ∀ f ∈ memberFloats ms, fl.Faithful f := by
  induction d with
  | nil => exact ⟨[], rfl, rfl, fun f hf => by cases hf⟩
  | cons kv d ih =>
    obtain ⟨k, v⟩ := kv
    simp only [Dict.stringKeys, List.map_cons, List.all_cons, Bool.and_eq_true] at hkeys ih
    obtain ⟨x, hx, hload, hfloats⟩ := (hvalues _ List.mem_cons_self).jsonValue
    obtain ⟨ms, hms, hloads, hrest⟩ := ih hkeys.2 fun kv hkv => hvalues kv (.tail _ hkv)
    cases k with
    | str k =>
      refine ⟨(k, x) :: ms, ?_, ?_, ?_⟩
      · show (v.jsonValue).bind _ = _
        rw [hx]
        show (jsonMembers d).bind _ = _
        rw [hms]
        rfl
      · rw [loadMembers, hload, hloads]
      · exact List.forall_mem_append.mpr ⟨hfloats, hrest⟩
    | _ => cases hkeys.1

/-- The line of an entry is an object that stands for the entry. -/
theorem line_entry {d : Dict} (hd : IsEntry fl d) :
    ∃ ms, line fl d = encode fl spaced (.obj ms) ++ ['\n'] ∧ loadValue (.obj ms) = .dict d ∧
      ∀ f ∈ (Value.obj ms).floats, fl.Faithful f := by
  obtain ⟨ms, hms, hload, hfloats⟩ := jsonMembers_entry hd.keys hd.values
  have hvalue : (PyVal.dict d).jsonValue = some (.obj ms) := by
    rw [PyVal.jsonValue, hms]
    rfl
  refine ⟨ms, ?_, ?_, hfloats⟩
  · rw [line, hvalue]
  · rw [loadValue, hload, Assoc.merge_nil hd.distinct]

theorem strip_braces (cs : List Char) :
    PyVal.strip (String.ofList ('{' :: (cs ++ ['}']))) = '{' :: (cs ++ ['}']) := by
  have hopen : PyVal.isSpace '{' = false := by decide
  have hclose : PyVal.isSpace '}' = false := by decide
  rw [PyVal.strip, String.toList_ofList, List.dropWhile_cons_of_neg (by simp [hopen]),
    List.reverse_cons, List.reverse_append, List.reverse_singleton, List.singleton_append,
    List.cons_append, List.dropWhile_cons_of_neg (by simp [hclose])]
  simp

theorem readLine_entry {d : Dict} {ms : List (String × Value PyFloat)}
    (hload : loadValue (.obj ms) = .dict d) (hfloats : ∀ f ∈ (Value.obj ms).floats, fl.Faithful f) :
    readLine fl (encode fl spaced (.obj ms)) = some (.dict d) := by
  have hbraces : ∃ cs, encode fl spaced (.obj ms) = '{' :: (cs ++ ['}']) := encode_obj ms
  obtain ⟨cs, hcs⟩ := hbraces
  have hstrip : PyVal.strip (String.ofList (encode fl spaced (.obj ms))) =
      encode fl spaced (.obj ms) := by
    rw [hcs]
    exact strip_braces cs
  have hdecode : decode fl (encode fl spaced (.obj ms)) = some (.obj ms) := decode_encode _ hfloats
  rw [readLine, hstrip, if_neg (by rw [hcs]; exact List.cons_ne_nil _ _), hdecode, Option.map_some,
    hload]

/-- **Reading lines** gives the entries they were written for, in order. -/
theorem read_lines {ds : List Dict} (hds : ∀ d ∈ ds, IsEntry fl d) :
    readMetricsFile fl (some (ds.flatMap (line fl))) = ds.map .dict := by
  have hlines : ∃ ls : List (List Char), ds.flatMap (line fl) = ls.flatMap (· ++ ['\n']) ∧
      (∀ l ∈ ls, ∀ c ∈ l, isLineBreak c = false) ∧ ls.filterMap (readLine fl) = ds.map .dict := by
    induction ds with
    | nil => exact ⟨[], rfl, fun l hl => (by cases hl), rfl⟩
    | cons d ds ih =>
      obtain ⟨ls, htext, hplain, hread⟩ := ih fun d' hd' => hds d' (.tail d hd')
      obtain ⟨ms, hline, hload, hfloats⟩ := line_entry (hds d List.mem_cons_self)
      refine ⟨encode fl spaced (.obj ms) :: ls, ?_, ?_, ?_⟩
      · rw [List.flatMap_cons, List.flatMap_cons, hline, htext]
      · refine List.forall_mem_cons.mpr ⟨fun c hc => ?_, hplain⟩
        have hprintable := printable_encode rfl _ hfloats c hc
        have hline : c ≠ '\n' := fun h => by rw [h] at hprintable; exact absurd hprintable (by decide)
        have hreturn : c ≠ '\r' := fun h => by rw [h] at hprintable; exact absurd hprintable (by decide)
        simp [isLineBreak, hline, hreturn]
      · rw [List.filterMap_cons_some (readLine_entry hload hfloats), hread, List.map_cons]
  obtain ⟨ls, htext, hplain, hread⟩ := hlines
  have hblank : readLine fl [] = none := rfl
  rw [readMetricsFile, htext, splitOnP_lines rfl hplain, List.filterMap_append, hread,
    List.filterMap_cons_none hblank, List.filterMap_nil, List.append_nil]

end Lines

/-! ## Entries -/

theorem get?_eq_lookup (d : Dict) (k : String) : d.get? k = d.lookup (.str k) := by
  induction d with
  | nil => rfl
  | cons kv d ih =>
    obtain ⟨key, v⟩ := kv
    by_cases h : key = .str k
    · subst h
      simp [Dict.get?]
    · rw [Assoc.lookup_cons_of_ne (Ne.symm h), ← ih, Dict.get?, List.find?_cons_of_neg (by simpa using h)]
      rfl

section Entry

variable {fl : Floats PyFloat} {task : TaskRecord} {now : ℚ} {result : Dict}

/-- **The items of an entry**: where the result has a number or a text, that is the value. -/
theorem get?_metricEntry (hresult : (result.map (·.1)).Nodup) (k : String) :
    (metricEntry task (.finite now) result).get? k =
      ((result.get? k).filter isMetric).or (Dict.get? (Dict.ofList [("task_key", .str task.taskKey),
        ("task_id", .str task.taskId), ("timestamp", .float (.finite now))]) k) := by
  have hmetrics : ((result.filter fun kv => isMetric kv.2).map (·.1)).Nodup :=
    hresult.sublist (List.filter_sublist.map _)
  rw [get?_eq_lookup, metricEntry, Assoc.lookup_merge hmetrics, Assoc.lookup_filter isMetric hresult,
    ← get?_eq_lookup, ← get?_eq_lookup]

theorem isEntry_metricEntry (hkeys : result.stringKeys = true)
    (hvalues : ∀ kv ∈ result, isMetric kv.2 = true → Recordable fl kv.2)
    (hnow : fl.Faithful (.finite now)) : IsEntry fl (metricEntry task (.finite now) result) := by
  have hitems : ∀ kv ∈ metricEntry task (.finite now) result,
      kv.1.isStr = true ∧ Recordable fl kv.2 := by
    intro kv hkv
    rcases Assoc.mem_merge hkv with hbase | hresult
    · rcases List.mem_map.mp hbase with ⟨item, hitem, rfl⟩
      simp only [List.mem_cons, List.not_mem_nil, or_false] at hitem
      rcases hitem with rfl | rfl | rfl
      · exact ⟨rfl, .str _⟩
      · exact ⟨rfl, .str _⟩
      · exact ⟨rfl, .float hnow⟩
    · obtain ⟨hkv, hmetric⟩ := List.mem_filter.mp hresult
      exact ⟨List.all_eq_true.mp hkeys _ (List.mem_map_of_mem hkv), hvalues kv hkv hmetric⟩
  constructor
  · apply List.all_eq_true.mpr
    intro k hk
    obtain ⟨kv, hkv, rfl⟩ := List.mem_map.mp hk
    exact (hitems kv hkv).1
  · exact Assoc.nodup_merge (by simp [Dict.ofList])
  · intro kv hkv
    exact (hitems kv hkv).2

end Entry

/-! ## The order of the entries -/

/-- Equal as dictionaries, or both raised. -/
def SameSummary (a b : Option (List (PyKey × SummaryItem))) : Prop :=
  Option.Rel (fun a b => ∀ k, a.lookup k = b.lookup k) a b

theorem variance_perm {xs ys : List ℚ} (h : xs.Perm ys) : variance xs = variance ys := by
  have hsquares : (xs.map fun x => x * x).sum = (ys.map fun x => x * x).sum := (h.map _).sum_eq
  rw [variance, variance, h.length_eq, h.sum_eq, hsquares]

theorem min?_perm {xs ys : List ℚ} (h : xs.Perm ys) : xs.min? = ys.min? := by
  apply Option.ext
  intro a
  rw [List.min?_eq_some_iff, List.min?_eq_some_iff, h.mem_iff]
  exact and_congr_right fun _ => forall_congr' fun b => by rw [h.mem_iff]

theorem max?_perm {xs ys : List ℚ} (h : xs.Perm ys) : xs.max? = ys.max? := by
  apply Option.ext
  intro a
  rw [List.max?_eq_some_iff, List.max?_eq_some_iff, h.mem_iff]
  exact and_congr_right fun _ => forall_congr' fun b => by rw [h.mem_iff]

theorem statsOf_perm (st : Statistics) {vals vals' : List PyVal} (h : vals.Perm vals') :
    statsOf st vals = statsOf st vals' := by
  have hxs := h.filterMap value?
  have hfinite : (vals.all fun v => (value? v).isSome) = vals'.all fun v => (value? v).isSome :=
    h.all_eq
  simp only [statsOf, hfinite, h.all_eq, hxs.sum_eq, hxs.length_eq, min?_perm hxs, max?_perm hxs,
    variance_perm hxs]

/-- Where no metric raises, the summary has the statistics of each. -/
theorem summaryItems_some {st : Statistics} {groups : List (PyKey × List PyVal)}
    {items : List (PyKey × SummaryItem)} (h : summaryItems st groups = some items) :
    items.map (·.1) = groups.map (·.1) ∧
      ∀ k, items.lookup k = (groups.lookup k).bind fun vals => (statsOf st vals).map .stats := by
  induction groups generalizing items with
  | nil =>
    obtain rfl := Option.some.inj h
    exact ⟨rfl, fun _ => rfl⟩
  | cons group groups ih =>
    obtain ⟨k₀, vals⟩ := group
    obtain ⟨stats, hstats, h⟩ := Option.bind_eq_some_iff.mp h
    obtain ⟨rest, hrest, h⟩ := Option.bind_eq_some_iff.mp h
    obtain rfl := Option.some.inj h
    obtain ⟨hkeys, hlookup⟩ := ih hrest
    refine ⟨by rw [List.map_cons, List.map_cons, hkeys], fun k => ?_⟩
    by_cases hk : k = k₀
    · subst hk
      simp [hstats]
    · rw [Assoc.lookup_cons_of_ne hk, Assoc.lookup_cons_of_ne hk, hlookup]

theorem summaryItems_none {st : Statistics} {groups : List (PyKey × List PyVal)} :
    summaryItems st groups = none ↔ ∃ group ∈ groups, statsOf st group.2 = none := by
  induction groups with
  | nil => simp [summaryItems]
  | cons group groups ih =>
    rw [List.exists_mem_cons_iff, ← ih, summaryItems]
    cases statsOf st group.2 with
    | none => simp
    | some stats => cases summaryItems st groups <;> simp

/-- The numbers of a metric, over all entries, in the order of the entries. -/
theorem numeric_perm {metrics metrics' : List PyVal} (h : metrics.Perm metrics') (k : PyKey) :
    Option.Rel List.Perm ((numeric metrics).lookup k) ((numeric metrics').lookup k) := by
  have hvalues := Assoc.valuesOf_perm (h.flatMap_right fun m => (items m).filter isMeasurement) k
  rw [numeric, numeric, Assoc.lookup_collect, Assoc.lookup_collect]
  by_cases hnil : Assoc.valuesOf k (metrics.flatMap fun m => (items m).filter isMeasurement) = []
  · rw [if_pos hnil, if_pos (hvalues.symm.trans (.of_eq hnil)).eq_nil]
    exact .none
  · rw [if_neg hnil, if_neg fun h => hnil (hvalues.trans (.of_eq h)).eq_nil]
    exact .some hvalues

theorem summaryItems_perm (st : Statistics) {metrics metrics' : List PyVal}
    (h : metrics.Perm metrics') :
    Option.Rel (fun a b : List (PyKey × SummaryItem) => (a.map (·.1)).Nodup ∧ (b.map (·.1)).Nodup ∧
      ∀ k, a.lookup k = b.lookup k) (summaryItems st (numeric metrics))
      (summaryItems st (numeric metrics')) := by
  have hraise : ∀ {ms ms' : List PyVal}, ms.Perm ms' → summaryItems st (numeric ms) = none →
      summaryItems st (numeric ms') = none := by
    intro ms ms' hms hnone
    obtain ⟨⟨k, vals⟩, hgroup, hraises⟩ := summaryItems_none.mp hnone
    have hlookup := (Assoc.mem_iff_lookup (Assoc.nodup_collect _)).mp hgroup
    have hperm := numeric_perm hms k
    rw [numeric, hlookup] at hperm
    generalize hfound : (numeric ms').lookup k = found at hperm
    cases hperm with
    | @some _ vals' hvals =>
      have hgroup' := (Assoc.mem_iff_lookup (Assoc.nodup_collect _)).mpr hfound
      exact summaryItems_none.mpr ⟨(k, vals'), hgroup', (statsOf_perm st hvals).symm.trans hraises⟩
  cases ha : summaryItems st (numeric metrics) with
  | none =>
    rw [hraise h ha]
    exact .none
  | some a =>
    cases hb : summaryItems st (numeric metrics') with
    | none =>
      rw [hraise h.symm hb] at ha
      cases ha
    | some b =>
      obtain ⟨hkeys, hlookup⟩ := summaryItems_some ha
      obtain ⟨hkeys', hlookup'⟩ := summaryItems_some hb
      refine .some ⟨hkeys ▸ Assoc.nodup_collect _, hkeys' ▸ Assoc.nodup_collect _, fun k => ?_⟩
      rw [hlookup, hlookup']
      have hperm := numeric_perm h k
      generalize (numeric metrics).lookup k = vals at hperm
      generalize (numeric metrics').lookup k = vals' at hperm
      cases hperm with
      | none => rfl
      | some hvals => rw [Option.bind_some, Option.bind_some, statsOf_perm st hvals]

/-- **The summary depends on the entries, not on their order.** -/
theorem getSummary_perm (st : Statistics) {metrics metrics' : List PyVal}
    (h : metrics.Perm metrics') : SameSummary (getSummary st metrics) (getSummary st metrics') := by
  rw [getSummary, getSummary, h.isEmpty_eq, h.all_eq, h.length_eq]
  split
  · exact .some fun _ => rfl
  split
  · have hitems := summaryItems_perm st h
    generalize summaryItems st (numeric metrics) = a at hitems ⊢
    generalize summaryItems st (numeric metrics') = b at hitems ⊢
    cases hitems with
    | none => exact .none
    | some hab =>
      refine .some fun k => ?_
      rw [Assoc.lookup_merge hab.1, Assoc.lookup_merge hab.2.1, hab.2.2]
  · exact .none

end MetricsHook

end FineTuneHarness
