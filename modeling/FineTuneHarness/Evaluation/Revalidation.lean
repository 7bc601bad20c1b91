import FineTuneHarness.Evaluation.Validator
import FineTuneHarness.State.JsonColumn

/-!
# What a verdict rests on

The verdict on a result splits into what the result shows under any method, what it shows
under entries that the worker's stamps replace, and the one check that depends on the method.
A result that went through a JSON column shows the same.
-/
namespace FineTuneHarness

namespace Validator

variable {pf : Platform} {d : Dict} {m : PyVal}

/-! ## The metric loop -/

/-- An entry that adds no message. -/
def Fine (pf : Platform) (kv : PyKey × PyVal) : Prop :=
  ∀ f, kv.2.toFloat? = some f → ∃ v, f = .ok v ∧ metricError pf kv.1 v = []

theorem metricErrors_nil : metricErrors pf d = .ok [] ↔ ∀ kv ∈ d, Fine pf kv := by
  induction d with
  | nil => exact iff_of_true rfl nofun
  | cons kv d ih =>
    obtain ⟨k, raw⟩ := kv
    rw [List.forall_mem_cons, ← ih, metricErrors, Fine]
    cases hf : raw.toFloat? with
    | none => simp
    | some f =>
      cases f with
      | error e => exact iff_of_false nofun fun h => by obtain ⟨v, hv, -⟩ := h.1 _ rfl; cases hv
      | ok v =>
        cases hm : metricErrors pf d with
        | error e =>
          refine iff_of_false (fun h => ?_) fun h => by cases h.2
          simp [Bind.bind, Except.bind] at h
        | ok es => simp [Bind.bind, Except.bind, pure, Except.pure]

/-! ## The one check that depends on the method -/

/-- No trainable parameter. -/
def zeroTrainable (d : Dict) : Bool :=
  (d.get? "trainable_params").any fun tp => isNumber tp (· = .finite 0)

/-- The method the checks go by is one of the adapter methods. -/
def AdapterUnder (m : PyVal) (d : Dict) : Prop :=
  (effectiveMethod m d >>= isAdapterMethod) = .ok true

/-! ### The reasons, one by one -/

/-- The reasons in the order in which they are collected: empty predictions and a missing
adapter first. -/
def missingReasons (d : Dict) : List String :=
  (if isFalse (d.get? "predictions_non_empty") then ["predictions_non_empty is False"] else []) ++
    if isFalse (d.get? "adapter_loaded") then ["adapter_loaded is False"] else []

def trainableReasons (pf : Platform) (adapter : Bool) (m : PyVal) (d : Dict) : List String :=
  if adapter && zeroTrainable d then [s!"trainable_params == 0 for adapter method {pf.repr m}"]
  else []

def totalReasons (pf : Platform) (d : Dict) : List String :=
  match d.get? "trainable_params", d.get? "total_params" with
  | some tp, some tot =>
    if isNumber tp fun p => isNumber tot fun q => floatLt q p then
      [s!"trainable_params ({pf.repr tp}) > total_params ({pf.repr tot})"]
    else []
  | _, _ => []

def zeroReasons (d : Dict) : Except PyExc (List String) := do
  let bounded ← floatsOf d boundedMetrics
  if !bounded.isEmpty && bounded.all (· = .finite 0) then do
    if ← (d.get "all_zeros_expected").truth then pure []
    else pure ["all bounded metrics (accuracy, f1, …) are exactly 0.0 without all_zeros_expected flag"]
  else pure []

theorem degeneracyReasons_eq (pf : Platform) (m : PyVal) (d : Dict) :
    degeneracyReasons pf m d = (isAdapterMethod m).bind fun adapter =>
      (zeroReasons d).map fun zeros =>
        missingReasons d ++ trainableReasons pf adapter m d ++ totalReasons pf d ++ zeros := by
  unfold degeneracyReasons zeroReasons missingReasons trainableReasons totalReasons zeroTrainable
  cases isAdapterMethod m with
  | error e => rfl
  | ok adapter =>
  cases floatsOf d boundedMetrics with
  | error e => rfl
  | ok bounded =>
  simp only [Bind.bind, Except.bind]
  generalize (d.get "all_zeros_expected").truth = expected
  cases d.get? "trainable_params" <;> cases adapter <;> split <;>
    (try cases expected) <;> try rfl
  all_goals
    rename_i expected
    cases expected <;> rfl

theorem degeneracyReasons_nil :
    degeneracyReasons pf .none d = .ok [] ↔
      missingReasons d = [] ∧ totalReasons pf d = [] ∧ zeroReasons d = .ok [] := by
  rw [degeneracyReasons_eq]
  cases zeroReasons d with
  | error e => exact iff_of_false nofun nofun
  | ok zeros =>
    simp [isAdapterMethod, Except.bind, Except.map, trainableReasons]

/-- Under an adapter method there is one reason more, where no parameter is trainable. -/
theorem degeneracyReasons_ok {rs : List String} (h : degeneracyReasons pf m d = .ok rs) :
    ∃ adapter rs₀, isAdapterMethod m = .ok adapter ∧ degeneracyReasons pf .none d = .ok rs₀ ∧
      (rs = [] ↔ rs₀ = [] ∧ ¬ (zeroTrainable d = true ∧ adapter = true)) := by
  rw [degeneracyReasons_eq] at h ⊢
  cases hm : isAdapterMethod m with
  | error e => rw [hm] at h; cases h
  | ok adapter =>
    rw [hm] at h
    cases hz : zeroReasons d with
    | error e => rw [hz] at h; cases h
    | ok zeros =>
      rw [hz] at h
      obtain rfl := Except.ok.inj h
      refine ⟨adapter, _, rfl, rfl, ?_⟩
      simp only [trainableReasons, List.append_eq_nil_iff]
      cases adapter <;> cases zeroTrainable d <;> simp

/-! ## The verdict -/

/-- Something is wrong with the result under any method: a caught exception, a metric, an
empty evaluation, or a degeneracy that does not depend on the method. -/
def Flawed (pf : Platform) (d : Dict) : Prop :=
  (d.get "caught_exception").truth = .ok true ∨ metricErrors pf d ≠ .ok [] ∨
    evalExamplesError pf d ≠ [] ∨ degeneracyReasons pf .none d ≠ .ok []

/-- **When a result is rejected.** -/
theorem validateDict_rejected {o : ValidationOutcome} (h : validateDict pf d m = .ok o) :
    o.status.rejected = true ↔
      Flawed pf d ∨ zeroTrainable d = true ∧ AdapterUnder m d := by
  obtain ⟨caught, hc, h⟩ := Except.bind_ok h
  obtain ⟨eff, hm, h⟩ := Except.bind_ok h
  obtain ⟨es, he, h⟩ := Except.bind_ok h
  obtain ⟨rs, hr, h⟩ := Except.bind_ok h
  obtain ⟨poor, -, h⟩ := Except.bind_ok h
  obtain ⟨adapter, rs₀, ha, hr₀, hrs⟩ := degeneracyReasons_ok hr
  have hstatus : o.status =
      if (!(caughtError pf caught d ++ es ++ evalExamplesError pf d).isEmpty || caught) = true then
        .failedValidation
      else if (!rs.isEmpty) = true then .degenerateResult
      else if (!(warningsOf d).isEmpty) = true then .succeededWithWarnings
      else .succeededValidated := by
    dsimp only at h
    split at h
    next hbad => rw [if_pos hbad, ← Except.ok.inj h]
    next hgood =>
      rw [if_neg hgood]
      split at h
      next hd => rw [if_pos hd, ← Except.ok.inj h]
      next hd =>
        rw [if_neg hd]
        split at h
        next hw => rw [if_pos hw, ← Except.ok.inj h]
        next hw => rw [if_neg hw, ← Except.ok.inj h]
  rw [Flawed, AdapterUnder, hc, he, hr₀, hm, hstatus,
    show ((Except.ok eff : Except PyExc PyVal) >>= isAdapterMethod) = .ok adapter from ha]
  simp only [Except.ok.injEq, ne_eq]
  by_cases hfirst : (caught = true ∨ ¬ es = [] ∨ ¬ evalExamplesError pf d = [])
  · have hbad : (!(caughtError pf caught d ++ es ++ evalExamplesError pf d).isEmpty || caught) =
        true := by
      rcases hfirst with h | h | h <;> simp [h]
    rw [if_pos hbad]
    refine iff_of_true rfl (.inl ?_)
    rcases hfirst with h | h | h
    · exact .inl h
    · exact .inr (.inl h)
    · exact .inr (.inr (.inl h))
  · simp only [not_or, not_not, Bool.not_eq_true] at hfirst
    obtain ⟨rfl, rfl, hev⟩ := hfirst
    rw [if_neg (by simp [caughtError, hev])]
    by_cases hrs' : rs = []
    · have hno := hrs.mp hrs'
      rw [if_neg (by simp [hrs'])]
      refine iff_of_false ?_ ?_
      · split <;> exact Bool.false_ne_true
      · rintro ((h | h | h | h) | h)
        · cases h
        · exact h rfl
        · exact h hev
        · exact h hno.1
        · exact hno.2 h
    · rw [if_pos (by simpa using hrs')]
      refine iff_of_true rfl ?_
      by_cases h : rs₀ = []
      · by_contra hcon
        exact hrs' (hrs.mpr ⟨h, fun hz => hcon (.inr hz)⟩)
      · exact .inl (.inr (.inr (.inr h)))

/-! ## The same looks -/

/-- Nothing that the checks read tells the two values apart. -/
structure Resembles (v v' : PyVal) : Prop where
  truth : v'.truth = v.truth
  toFloat : v'.toFloat? = v.toFloat?
  number : number? v' = number? v
  isFalse : Validator.isFalse (some v') = Validator.isFalse (some v)
  adapter : isAdapterMethod v' = isAdapterMethod v
  isNone : v' = .none ↔ v = .none

theorem Resembles.isNumber {v v' : PyVal} (h : Resembles v v') (p : PyFloat → Bool) :
    Validator.isNumber v' p = Validator.isNumber v p := by
  unfold Validator.isNumber
  rw [h.number]

theorem loadsList_length (xs : List Json) : (loadsList xs).length = xs.length := by
  induction xs with
  | nil => rfl
  | cons x xs ih => rw [loadsList, List.length_cons, List.length_cons, ih]

theorem dumpsList_length {vs : List PyVal} {js : List Json} (h : dumpsList vs = .ok js) :
    js.length = vs.length := by
  induction vs generalizing js with
  | nil =>
    obtain rfl := Except.ok.inj h
    rfl
  | cons v vs ih =>
    obtain ⟨j, -, h⟩ := Except.bind_ok h
    obtain ⟨js', hjs, h⟩ := Except.bind_ok h
    obtain rfl := Except.ok.inj h
    rw [List.length_cons, List.length_cons, ih hjs]

theorem isEmpty_of_length {α β : Type} {xs : List α} {ys : List β} (h : xs.length = ys.length) :
    xs.isEmpty = ys.isEmpty := by
  rw [Bool.eq_iff_iff, List.isEmpty_iff_length_eq_zero, List.isEmpty_iff_length_eq_zero, h]

/-- **A value read back from JSON** resembles the value that was written. -/
theorem resembles_of_json {v : PyVal} {j : Json} (h : v.dumps = .ok j) : Resembles v j.loads := by
  cases v with
  | none | bool | int | float | str =>
    obtain rfl := Except.ok.inj h
    exact ⟨rfl, rfl, rfl, rfl, rfl, Iff.rfl⟩
  | list xs =>
    obtain ⟨js, hjs, rfl⟩ : ∃ js, dumpsList xs = .ok js ∧ Json.arr js = j := by
      rw [PyVal.dumps] at h
      cases hd : dumpsList xs with
      | error e => rw [hd] at h; cases h
      | ok js => rw [hd] at h; exact ⟨js, rfl, Except.ok.inj h⟩
    refine ⟨?_, rfl, rfl, rfl, rfl, by simp [Json.loads]⟩
    rw [Json.loads, PyVal.truth, PyVal.truth,
      isEmpty_of_length ((loadsList_length js).trans (dumpsList_length hjs))]
  | dict d =>
    have hthrough : ∃ d', j.loads = .dict d' ∧ d'.length = d.length := by
      have hj : ∃ members, Json.obj members = j := by
        rw [PyVal.dumps] at h
        split at h
        · cases hd : dumpsItems d with
          | error e => rw [hd] at h; cases h
          | ok ms => rw [hd] at h; exact ⟨_, Except.ok.inj h⟩
        · cases h
      obtain ⟨members, rfl⟩ := hj
      refine ⟨loadsItems members, rfl, (Dict.throughJson_values ?_).1⟩
      rw [Dict.throughJson, h]
      rfl
    obtain ⟨d', hd', hlen⟩ := hthrough
    rw [hd']
    refine ⟨?_, rfl, rfl, rfl, rfl, by simp⟩
    rw [PyVal.truth, PyVal.truth, isEmpty_of_length hlen]
  | mapping | obj => cases h

theorem Resembles.refl (v : PyVal) : Resembles v v := ⟨rfl, rfl, rfl, rfl, rfl, Iff.rfl⟩

/-- A reason is given where its condition holds. -/
theorem reason_nil {α : Type} {c : Prop} [Decidable c] {a : α} :
    (if c then [a] else []) = [] ↔ ¬ c := by
  split <;> simp [*]

/-! ### Results that look alike beside the stamps -/

/-- The keys under which the worker writes its own verdict. -/
def stamps : List String := ["_validation_status", "_validation_errors"]

/-- A lookup beside the stamps finds the same in both. -/
def SeenAlike (d d' : Dict) : Prop :=
  ∀ k, k ∉ stamps → Option.Rel Resembles (d.get? k) (d'.get? k)

namespace SeenAlike

variable {d' : Dict} {k : String}

theorem of_eq (h : ∀ k, k ∉ stamps → d'.get? k = d.get? k) : SeenAlike d d' := by
  intro k hk
  rw [h k hk]
  cases d.get? k with
  | none => exact .none
  | some v => exact .some (.refl v)

theorem get (h : SeenAlike d d') (hk : k ∉ stamps) : Resembles (d.get k) (d'.get k) := by
  have hrel := h k hk
  unfold Dict.get
  generalize d.get? k = found at hrel ⊢
  generalize d'.get? k = found' at hrel ⊢
  cases hrel with
  | none => exact .refl _
  | some hv => exact hv

theorem isFalse (h : SeenAlike d d') (hk : k ∉ stamps) :
    Validator.isFalse (d'.get? k) = Validator.isFalse (d.get? k) := by
  have hrel := h k hk
  generalize d.get? k = found at hrel ⊢
  generalize d'.get? k = found' at hrel ⊢
  cases hrel with
  | none => rfl
  | some hv => exact hv.isFalse

theorem toFloat (h : SeenAlike d d') (hk : k ∉ stamps) :
    (d'.get? k).bind PyVal.toFloat? = (d.get? k).bind PyVal.toFloat? := by
  have hrel := h k hk
  generalize d.get? k = found at hrel ⊢
  generalize d'.get? k = found' at hrel ⊢
  cases hrel with
  | none => rfl
  | some hv => exact hv.toFloat

theorem floatsOf (h : SeenAlike d d') {ks : List String} (hks : ∀ k ∈ ks, k ∉ stamps) :
    Validator.floatsOf d' ks = Validator.floatsOf d ks := by
  induction ks with
  | nil => rfl
  | cons k ks ih =>
    rw [Validator.floatsOf, Validator.floatsOf, h.toFloat (hks k List.mem_cons_self),
      ih fun k' hk' => hks k' (List.mem_cons_of_mem _ hk')]

theorem zeroTrainable (h : SeenAlike d d') :
    Validator.zeroTrainable d' = Validator.zeroTrainable d := by
  have hrel := h "trainable_params" (by decide)
  unfold Validator.zeroTrainable
  generalize d.get? "trainable_params" = found at hrel ⊢
  generalize d'.get? "trainable_params" = found' at hrel ⊢
  cases hrel with
  | none => rfl
  | some hv => exact hv.isNumber _

theorem evalExamples (h : SeenAlike d d') :
    evalExamplesError pf d' = [] ↔ evalExamplesError pf d = [] := by
  have hrel := h "eval_examples" (by decide)
  unfold evalExamplesError
  generalize d.get? "eval_examples" = found at hrel ⊢
  generalize d'.get? "eval_examples" = found' at hrel ⊢
  cases hrel with
  | none => rfl
  | some hv =>
    dsimp only
    rw [hv.isNumber, hv.isNumber, reason_nil, reason_nil]

theorem totalReasons (h : SeenAlike d d') :
    Validator.totalReasons pf d' = [] ↔ Validator.totalReasons pf d = [] := by
  have hrel := h "trainable_params" (by decide)
  have hrel' := h "total_params" (by decide)
  unfold Validator.totalReasons
  generalize d.get? "trainable_params" = found at hrel ⊢
  generalize d'.get? "trainable_params" = found' at hrel ⊢
  generalize d.get? "total_params" = total at hrel' ⊢
  generalize d'.get? "total_params" = total' at hrel' ⊢
  cases hrel with
  | none => rfl
  | some hv =>
    cases hrel' with
    | none => rfl
    | some hv' =>
      dsimp only
      simp only [hv'.isNumber]
      rw [hv.isNumber, reason_nil, reason_nil]

theorem zeroReasons (h : SeenAlike d d') :
    Validator.zeroReasons d' = Validator.zeroReasons d := by
  unfold Validator.zeroReasons
  rw [h.floatsOf (by decide), (h.get (k := "all_zeros_expected") (by decide)).truth]

theorem degeneracyReasons (h : SeenAlike d d') :
    Validator.degeneracyReasons pf .none d' = .ok [] ↔
      Validator.degeneracyReasons pf .none d = .ok [] := by
  rw [degeneracyReasons_nil, degeneracyReasons_nil, h.totalReasons, h.zeroReasons]
  unfold missingReasons
  rw [h.isFalse (by decide), h.isFalse (by decide)]

/-- Results that look alike and have the same flaws in their metrics have the same flaws. -/
theorem flawed (h : SeenAlike d d')
    (hmetrics : metricErrors pf d' = .ok [] ↔ metricErrors pf d = .ok []) :
    Flawed pf d' ↔ Flawed pf d := by
  unfold Flawed
  rw [(h.get (by decide)).truth]
  simp only [ne_eq, hmetrics, h.evalExamples, h.degeneracyReasons]

/-- The method a result gives itself. -/
theorem adapterUnder (h : SeenAlike d d') : AdapterUnder .none d' ↔ AdapterUnder .none d := by
  have hm := h.get (k := "method") (by decide)
  have ht := h.get (k := "technique") (by decide)
  have heff : ∀ x : Dict, effectiveMethod .none x = pyOr (x.get "method") (x.get "technique") :=
    fun _ => rfl
  unfold AdapterUnder
  rw [heff, heff, pyOr, pyOr, hm.truth]
  cases (d.get "method").truth with
  | error e => exact Iff.rfl
  | ok b =>
    cases b with
    | true =>
      change isAdapterMethod _ = _ ↔ isAdapterMethod _ = _
      rw [hm.adapter]
    | false =>
      change isAdapterMethod _ = _ ↔ isAdapterMethod _ = _
      rw [ht.adapter]

end SeenAlike

theorem fine_resembles {k : PyKey} {v v' : PyVal} (h : Resembles v v') :
    Fine pf (k, v') ↔ Fine pf (k, v) := by
  unfold Fine
  dsimp only
  rw [h.toFloat]

/-- **Through a JSON column** a result looks the same, -/
theorem seenAlike_throughJson {d d' : Dict} (hk : d.stringKeys = true)
    (h : d.throughJson = .ok d') : SeenAlike d d' := by
  intro k _
  have hrel := Dict.throughJson_get? hk h k
  generalize d.get? k = found at hrel ⊢
  generalize d'.get? k = found' at hrel ⊢
  cases hrel with
  | none => exact .none
  | some hv =>
    obtain ⟨j, hj, rfl⟩ := hv
    exact .some (resembles_of_json hj)

/-- and its metrics have the same flaws. -/
theorem metricErrors_throughJson {d d' : Dict} (hk : d.stringKeys = true)
    (h : d.throughJson = .ok d') :
    metricErrors pf d' = .ok [] ↔ metricErrors pf d = .ok [] := by
  obtain ⟨xs, hxs, hperm⟩ := Dict.throughJson_perm hk h
  rw [metricErrors_nil, metricErrors_nil]
  have hall : (∀ kv ∈ xs.map fun x => (PyKey.str x.1, x.2.loads), Fine pf kv) ↔
      ∀ kv ∈ d, Fine pf kv := by
    clear hperm h hk
    induction hxs with
    | nil => exact Iff.rfl
    | @cons kv x d xs hm _ ih =>
      obtain ⟨k, v⟩ := kv
      obtain ⟨rfl, hv⟩ := hm
      rw [List.map_cons, List.forall_mem_cons, List.forall_mem_cons, ih,
        fine_resembles (resembles_of_json hv)]
  exact Iff.trans ⟨fun h kv hkv => h kv (hperm.mem_iff.mpr hkv),
    fun h kv hkv => h kv (hperm.mem_iff.mp hkv)⟩ hall

/-! ### The stamps -/

/-- The entries the stamps leave alone, and those they replace. -/
def besideStamps (d : Dict) : Dict := d.filter fun kv => !memberOf stamps kv.1

def underStamps (d : Dict) : Dict := d.filter fun kv => memberOf stamps kv.1

theorem seenAlike_besideStamps (d : Dict) : SeenAlike d (besideStamps d) :=
  .of_eq fun k hk => by
    unfold Dict.get? besideStamps
    rw [List.find?_filter]
    congr 2
    funext kv
    by_cases hkv : kv.1 = .str k
    · simp [hkv, memberOf, hk]
    · simp [hkv]

theorem metricErrors_split :
    metricErrors pf d = .ok [] ↔
      metricErrors pf (besideStamps d) = .ok [] ∧ metricErrors pf (underStamps d) = .ok [] := by
  simp only [metricErrors_nil, besideStamps, underStamps, List.mem_filter]
  constructor
  · exact fun h => ⟨fun kv hkv => h kv hkv.1, fun kv hkv => h kv hkv.1⟩
  · rintro ⟨h, h'⟩ kv hkv
    cases hs : memberOf stamps kv.1 with
    | true => exact h' kv ⟨hkv, hs⟩
    | false => exact h kv ⟨hkv, by rw [hs]; rfl⟩

/-- NaN or an infinity where a stamp goes. -/
def FlawedUnderStamps (pf : Platform) (d : Dict) : Prop := metricErrors pf (underStamps d) ≠ .ok []

theorem flawed_iff :
    Flawed pf d ↔ Flawed pf (besideStamps d) ∨ FlawedUnderStamps pf d := by
  have halike := seenAlike_besideStamps d
  unfold Flawed FlawedUnderStamps
  rw [(halike.get (by decide)).truth]
  simp only [ne_eq, halike.evalExamples, halike.degeneracyReasons]
  rw [metricErrors_split, not_and_or]
  generalize metricErrors pf (underStamps d) = under
  generalize metricErrors pf (besideStamps d) = beside
  tauto

theorem besideStamps_set {k : String} {v : PyVal} (hk : k ∈ stamps) :
    besideStamps (d.set k v) = besideStamps d := by
  unfold besideStamps Dict.set
  split
  · rw [List.filter_map]
    have hsame : ((fun kv : PyKey × PyVal => !memberOf stamps kv.1) ∘
        fun kv : PyKey × PyVal => if kv.1 = .str k then (kv.1, v) else kv) =
        fun kv => !memberOf stamps kv.1 := by
      funext kv
      simp only [Function.comp]
      split <;> rfl
    rw [hsame]
    refine (List.map_congr_left fun kv hkv => ?_).trans (List.map_id _)
    have hout := (List.mem_filter.mp hkv).2
    refine if_neg fun hc => ?_
    rw [hc] at hout
    simp [memberOf, hk] at hout
  · rw [List.filter_append, List.filter_cons_of_neg (by simp [memberOf, hk]), List.filter_nil,
      List.append_nil]

/-- What `run_once` persists of a judged result. -/
def stamped (d : Dict) (o : ValidationOutcome) : Dict :=
  let r := d.set "_validation_status" (.str o.status.value)
  if o.status.rejected then r.set "_validation_errors" (.list (o.validationErrors.map .str)) else r

theorem besideStamps_stamped (d : Dict) (o : ValidationOutcome) :
    besideStamps (stamped d o) = besideStamps d := by
  unfold stamped
  dsimp only
  split
  · rw [besideStamps_set (by decide), besideStamps_set (by decide)]
  · rw [besideStamps_set (by decide)]

theorem fine_text {k : PyKey} {s : String} : Fine pf (k, .str s) := fun f h => by cases h

theorem fine_list {k : PyKey} {xs : List PyVal} : Fine pf (k, .list xs) := fun f h => by cases h

/-- Once a rejected result is stamped, no metric is under a stamp; in an accepted one there was
no flaw to begin with. -/
theorem not_flawedUnderStamps {o : ValidationOutcome}
    (h : o.status.rejected = true ∨ ¬ FlawedUnderStamps pf d) :
    ¬ FlawedUnderStamps pf (stamped d o) := by
  unfold FlawedUnderStamps
  rw [not_not, metricErrors_nil]
  intro kv hkv
  obtain ⟨hm, hs⟩ := List.mem_filter.mp hkv
  revert hs
  revert kv
  have key : ∀ kv ∈ stamped d o, memberOf stamps kv.1 = true → Fine pf kv := by
    unfold stamped
    dsimp only
    split
    · rw [Dict.forall_set, Dict.forall_set]
      refine ⟨⟨fun kv _ h1 h2 hs => ?_, fun _ _ => fine_text⟩, fun _ => fine_list⟩
      obtain ⟨k, v⟩ := kv
      cases k <;> simp_all [memberOf, stamps]
    next hacc =>
      have hfine := not_not.mp (h.resolve_left hacc)
      rw [metricErrors_nil] at hfine
      rw [Dict.forall_set]
      exact ⟨fun kv hkv _ hs => hfine kv (List.mem_filter.mpr ⟨hkv, hs⟩), fun _ => fine_text⟩
  exact fun kv hkv hm hs => key kv hm hs

/-! ## Two verdicts -/

/-- The payload's method makes no difference: the result is flawed of its own, or what the
stamps hide and what the payload's method adds weigh as much as what the result's own method
adds. -/
def SameVerdict (pf : Platform) (m : PyVal) (d : Dict) : Prop :=
  Flawed pf (besideStamps d) ∨
    ((FlawedUnderStamps pf d ∨ zeroTrainable d = true ∧ AdapterUnder m d) ↔
      zeroTrainable d = true ∧ AdapterUnder .none d)

/-- **The second look** at a stamped result, as the store has kept it, agrees with the first
exactly where the payload's method makes no difference. -/
theorem second_verdict_iff {d' : Dict} {o o' : ValidationOutcome}
    (hfirst : validateDict pf d m = .ok o) (halike : SeenAlike (stamped d o) d')
    (hmetrics : metricErrors pf d' = .ok [] ↔ metricErrors pf (stamped d o) = .ok [])
    (hsecond : validateDict pf d' .none = .ok o') :
    (o'.status.rejected = o.status.rejected) ↔ SameVerdict pf m d := by
  have hworker := validateDict_rejected hfirst
  rw [flawed_iff] at hworker
  have hstill : SeenAlike d (stamped d o) := .of_eq fun k hk => by
    have h1 : k ≠ "_validation_status" := fun h => hk (by rw [h]; decide)
    have h2 : k ≠ "_validation_errors" := fun h => hk (by rw [h]; decide)
    unfold stamped
    dsimp only
    split
    · rw [Dict.get?_set_of_ne h2, Dict.get?_set_of_ne h1]
    · rw [Dict.get?_set_of_ne h1]
  have hunder : ¬ FlawedUnderStamps pf (stamped d o) := by
    refine not_flawedUnderStamps ?_
    by_cases hr : o.status.rejected = true
    · exact .inl hr
    · exact .inr fun hu => hr (hworker.mpr (.inl (.inr hu)))
  have hcomparator := validateDict_rejected hsecond
  rw [halike.flawed hmetrics, flawed_iff, besideStamps_stamped, halike.zeroTrainable,
    halike.adapterUnder, hstill.zeroTrainable, hstill.adapterUnder] at hcomparator
  simp only [hunder, or_false] at hcomparator
  rw [Bool.eq_iff_iff, hworker, hcomparator, SameVerdict]
  clear hworker hcomparator hunder hsecond hfirst hmetrics halike hstill
  by_cases hown : Flawed pf (besideStamps d)
  · exact iff_of_true (iff_of_true (.inl hown) (.inl (.inl hown))) (.inl hown)
  · simp only [hown, false_or]
    exact Iff.comm


end Validator
end FineTuneHarness
