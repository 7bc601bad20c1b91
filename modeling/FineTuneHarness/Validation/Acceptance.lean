import FineTuneHarness.Validation.Configs

/-!
# What `validate_run_config` accepts

The checks of a config, one after the other, come to one condition on it, the same on any machine.
-/
namespace FineTuneHarness

namespace Configs

/-- What the checks of a `concurrency` section let through. -/
structure ConcurrencyAccepted (conc : Dict) : Prop where
  mode : validMode ((conc.get? "mode").getD (.str "sequential")) = true
  minFreeMb : ∀ v, conc.get? "min_free_mb" = some v → nonNegativeNumber v = true
  settleSeconds : ∀ v, conc.get? "settle_seconds" = some v → nonNegativeNumber v = true
  maxConcurrent : ∀ v, conc.get? "max_concurrent" = some v → intFrom 1 v = true
  maxOomRetries : ∀ v, conc.get? "max_oom_retries" = some v → intFrom 0 v = true

/-- A map of names to hashes. -/
def NamesHashes (v : PyVal) : Prop :=
  ∃ d, v = .dict d ∧ d ≠ [] ∧ ∀ kv ∈ d, nonBlankStr kv.2 = true

/-- The data is named by one hash or by a map of hashes. -/
def DataAccepted (config : Dict) : Prop :=
  nonBlankStr (config.get "dataset_hash") = true ∧
      (config.get "datasets" = .none ∨ NamesHashes (config.get "datasets")) ∨
    config.get "dataset_hash" = .none ∧ NamesHashes (config.get "datasets")

/-- What `validate_run_config` lets through, with the seed it has checked. -/
structure Accepted (config : Dict) (seed : Int) : Prop where
  project : ∃ d, section? config "project" = some d ∧ nonEmptyStr (d.get "name") = true
  executor : ∃ d, section? config "executor" = some d ∧
    ∀ v, d.get? "concurrency" = some v → ∃ conc, v = .dict conc ∧ ConcurrencyAccepted conc
  artifacts : ∃ d, section? config "artifacts" = some d ∧ nonEmptyStr (d.get "root") = true
  seed : config.get "seed" = .int seed
  data : DataAccepted config

section Checks

variable {pf : Platform} {config conc : Dict}

theorem checkKey_iff {accept : PyVal → Bool} {what key : String} :
    checkKey pf conc accept what key = .ok () ↔
      ∀ v, conc.get? key = some v → accept v = true := by
  unfold checkKey
  cases conc.get? key with
  | none => exact iff_of_true rfl fun v hv => by cases hv
  | some v =>
    dsimp only
    by_cases hv : accept v = true
    · rw [if_pos hv]
      exact iff_of_true rfl fun w hw => Option.some.inj hw ▸ hv
    · rw [if_neg hv]
      exact iff_of_false (fun h => by cases h) fun h => hv (h v rfl)

theorem validateConcurrency_iff {v : PyVal} :
    validateConcurrency pf v = .ok () ↔ ∃ conc, v = .dict conc ∧ ConcurrencyAccepted conc := by
  constructor
  · intro h
    cases v with
    | dict conc =>
      refine ⟨conc, rfl, ?_⟩
      simp only [validateConcurrency] at h
      split at h
      · cases h
      next hmode =>
      obtain ⟨⟨⟩, hfree, h⟩ := Except.bind_ok h
      obtain ⟨⟨⟩, hsettle, h⟩ := Except.bind_ok h
      obtain ⟨⟨⟩, hmax, h⟩ := Except.bind_ok h
      exact ⟨by simpa using hmode, checkKey_iff.mp hfree, checkKey_iff.mp hsettle,
        checkKey_iff.mp hmax, checkKey_iff.mp h⟩
    | _ => cases h
  · rintro ⟨conc, rfl, h⟩
    simp only [validateConcurrency, h.mode, Bool.not_true, Bool.false_eq_true, if_false,
      checkKey_iff.mpr h.minFreeMb, checkKey_iff.mpr h.settleSeconds,
      checkKey_iff.mpr h.maxConcurrent]
    exact checkKey_iff.mpr h.maxOomRetries

theorem validateSeed_iff {seed : Int} :
    validateSeed pf config = .ok seed ↔ config.get "seed" = .int seed := by
  unfold validateSeed
  cases config.get "seed" with
  | int i => exact Except.ok.injEq i seed ▸ PyVal.int.injEq i seed ▸ Iff.rfl
  | _ => exact iff_of_false (fun h => by cases h) fun h => by cases h

theorem find_blank {d : Dict} :
    (d.find? fun kv => !nonBlankStr kv.2) = none ↔ ∀ kv ∈ d, nonBlankStr kv.2 = true := by
  rw [List.find?_eq_none]
  exact forall₂_congr fun kv _ => by rw [Bool.not_eq_true', Bool.not_eq_false]

theorem validateDatasetHash_iff :
    validateDatasetHash pf config = .ok () ↔ DataAccepted config := by
  unfold validateDatasetHash DataAccepted
  generalize config.get "dataset_hash" = hash
  generalize config.get "datasets" = datasets
  constructor
  · intro h
    extract_lets found named rest at h
    subst found named
    have hrest : rest () = .ok () → datasets = .none ∨ NamesHashes datasets := by
      intro h
      cases datasets with
      | none => exact .inl rfl
      | dict d =>
        simp only [rest] at h
        split at h
        · cases h
        next hne =>
        refine .inr ⟨d, rfl, fun hd => hne (by rw [hd]; rfl), find_blank.mp ?_⟩
        split at h
        · cases h
        · cases h
        next hnone => exact hnone
      | _ => cases h
    cases hash with
    | none =>
      simp only at h
      obtain ⟨filled, htruth, h⟩ := Except.bind_ok h
      split at h
      · cases h
      next hfilled =>
      obtain rfl | hnames := hrest h
      · obtain rfl := Except.ok.inj htruth
        exact absurd rfl hfilled
      · exact .inr ⟨rfl, hnames⟩
    | str x =>
      simp only at h
      split at h
      · cases h
      next hfilled => exact .inl ⟨by simpa using hfilled, hrest h⟩
    | _ => cases h
  · have hsplits : ∀ d : Dict, d ≠ [] → (∀ kv ∈ d, nonBlankStr kv.2 = true) →
        d.isEmpty = false ∧ (d.find? fun kv => !nonBlankStr kv.2) = none :=
      fun d hne hall => ⟨by simpa using hne, find_blank.mpr hall⟩
    rintro (⟨hfilled, rfl | ⟨d, rfl, hne, hall⟩⟩ | ⟨rfl, d, rfl, hne, hall⟩)
    · cases hash with
      | str x => simp [hfilled, pure, Except.pure]
      | _ => cases hfilled
    · obtain ⟨hempty, hnone⟩ := hsplits d hne hall
      cases hash with
      | str x => simp [hfilled, hempty, hnone, pure, Except.pure]
      | _ => cases hfilled
    · obtain ⟨hempty, hnone⟩ := hsplits d hne hall
      simp [PyVal.truth, hempty, hnone, pure, Except.pure, Bind.bind, Except.bind]

end Checks

end Configs

theorem Configs.contains_of_section {config d : Dict} {key : String}
    (h : section? config key = some d) : config.contains key = true := by
  unfold section? Dict.get at h
  cases hget : config.get? key with
  | none =>
    rw [hget] at h
    cases h
  | some v => exact List.any_eq_true.mpr ⟨_, Dict.mem_of_get? hget, decide_eq_true rfl⟩

open Configs in
/-- **What is accepted** is a condition on the config, on any machine. -/
theorem validateRunConfig_iff {pf : Platform} {config : Dict} {seed : Int} :
    validateRunConfig pf config = .ok seed ↔ Accepted config seed := by
  constructor
  · intro h
    unfold validateRunConfig at h
    extract_lets missing data fromArtifacts fromExecutor fromProject names at h
    -- the checks from the `artifacts` section on
    have hrest : ∀ {project executor : Dict}, section? config "project" = some project →
        nonEmptyStr (project.get "name") = true → section? config "executor" = some executor →
        (∀ v, executor.get? "concurrency" = some v → validateConcurrency pf v = .ok ()) →
        fromArtifacts () = .ok seed → Accepted config seed := by
      intro project executor hproject hname hexecutor hconc h
      simp only [fromArtifacts, data] at h
      split at h
      swap; · cases h
      next artifacts hartifacts =>
      split at h
      · cases h
      next hroot =>
      obtain ⟨seed', hseed, h⟩ := Except.bind_ok h
      obtain ⟨⟨⟩, hdata, h⟩ := Except.bind_ok h
      obtain rfl := Except.ok.inj h
      exact {
        project := ⟨project, hproject, hname⟩
        executor := ⟨executor, hexecutor, fun v hv => validateConcurrency_iff.mp (hconc v hv)⟩
        artifacts := ⟨artifacts, hartifacts, by simpa using hroot⟩
        seed := validateSeed_iff.mp hseed
        data := validateDatasetHash_iff.mp hdata }
    split at h
    · cases h
    simp only [fromProject] at h
    split at h
    swap; · cases h
    next project hproject =>
    split at h
    · cases h
    next hname =>
    have hname : nonEmptyStr (project.get "name") = true := by simpa using hname
    simp only [fromExecutor] at h
    split at h
    swap; · cases h
    next executor hexecutor =>
    split at h
    next conc hconc =>
      obtain ⟨⟨⟩, haccepted, h⟩ := Except.bind_ok h
      refine hrest hproject hname hexecutor (fun v hv => ?_) h
      obtain rfl := Option.some.inj (hconc.symm.trans hv)
      exact haccepted
    next hnone =>
      refine hrest hproject hname hexecutor (fun v hv => ?_) h
      rw [hnone] at hv
      cases hv
  · intro h
    obtain ⟨project, hproject, hname⟩ := h.project
    obtain ⟨executor, hexecutor, hconc⟩ := h.executor
    obtain ⟨artifacts, hartifacts, hroot⟩ := h.artifacts
    have hpresent : (requiredTopLevelKeys.filter fun k => !config.contains k) = [] := by
      simp only [requiredTopLevelKeys, List.filter_cons, contains_of_section hproject,
        contains_of_section hexecutor, contains_of_section hartifacts, Bool.not_true,
        Bool.false_eq_true, if_false, List.filter_nil]
    unfold validateRunConfig
    simp only [hpresent, hproject, hname, hexecutor, hartifacts, hroot, validateSeed_iff.mpr h.seed,
      validateDatasetHash_iff.mpr h.data]
    rw [if_neg (by decide), if_neg (by decide)]
    cases hget : executor.get? "concurrency" with
    | none => rfl
    | some v =>
      dsimp only
      rw [validateConcurrency_iff.mpr (hconc v hget)]
      rfl

end FineTuneHarness
