import FineTuneHarness.Safety.Admission
import FineTuneHarness.Safety.Replay

/-!
# The config limits the drain

`run` takes the settings of a drain from the config that the store has kept, and from its flags.
What `validate_run_config` let through at creation is what the drain gets, and its loop never has
more children in flight than `max_concurrent`.
-/
namespace FineTuneHarness

open Library

/-- What the checks of a `concurrency` section ask of the fields. -/
structure ConcurrencyConfig.Sound (c : ConcurrencyConfig) : Prop where
  minFreeMb : 0 ≤ c.minFreeMb
  maxConcurrent : 1 ≤ c.maxConcurrent
  settleSeconds : 0 ≤ c.settleSeconds
  maxOomRetries : 0 ≤ c.maxOomRetries

namespace Cli

open Configs

/-! ## Flags over the config over the defaults -/

/-- The flags of `run` that go over the config; `--concurrency-mode` is one of two choices. -/
structure ConcurrencyFlags where
  concurrencyMode : Option ConcurrencyMode := none
  minFreeMb : Option PyFloat := none
  maxConcurrent : Option Int := none

/-- The fields that `_resolve_concurrency` fills in; it checks nothing about them. -/
structure Settings where
  mode : PyVal
  minFreeMb : PyVal
  maxConcurrent : PyVal
  settleSeconds : PyVal
  maxOomRetries : PyVal

/-- A `ConcurrencyConfig`, field by field. -/
def settingsOf (c : ConcurrencyConfig) : Settings where
  mode := .str c.mode.value
  minFreeMb := .float (.finite c.minFreeMb)
  maxConcurrent := .int c.maxConcurrent
  settleSeconds := .float (.finite c.settleSeconds)
  maxOomRetries := .int c.maxOomRetries

/-- `executor.concurrency` of the config, or nothing. -/
def concurrencySection (config : Dict) : Dict :=
  match section? config "executor" with
  | some executor => (section? executor "concurrency").getD []
  | none => []

/-- `if flag is not None: conc[key] = flag`. -/
def override (key : String) (flag : Option PyVal) (conc : Dict) : Dict :=
  match flag with
  | some v => conc.set key v
  | none => conc

/-- `_resolve_concurrency`. -/
def resolveConcurrency (config : Dict) (args : ConcurrencyFlags) : Settings :=
  let conc := concurrencySection config
  let conc := override "mode" (args.concurrencyMode.map fun m => .str m.value) conc
  let conc := override "min_free_mb" (args.minFreeMb.map .float) conc
  let conc := override "max_concurrent" (args.maxConcurrent.map .int) conc
  let defaults := settingsOf {}
  { mode := (conc.get? "mode").getD defaults.mode
    minFreeMb := (conc.get? "min_free_mb").getD defaults.minFreeMb
    maxConcurrent := (conc.get? "max_concurrent").getD defaults.maxConcurrent
    settleSeconds := (conc.get? "settle_seconds").getD defaults.settleSeconds
    maxOomRetries := (conc.get? "max_oom_retries").getD defaults.maxOomRetries }

/-- The settings are the numbers of a `ConcurrencyConfig`, whether written as `int` or `float`. -/
structure Settings.Means (x : Settings) (c : ConcurrencyConfig) : Prop where
  mode : x.mode = .str c.mode.value
  minFreeMb : Validator.number? x.minFreeMb = some (.finite c.minFreeMb)
  maxConcurrent : x.maxConcurrent = .int c.maxConcurrent
  settleSeconds : Validator.number? x.settleSeconds = some (.finite c.settleSeconds)
  maxOomRetries : x.maxOomRetries = .int c.maxOomRetries

/-- The flags pass the checks that `validate_run_config` makes of the config. -/
structure ConcurrencyFlags.Sound (args : ConcurrencyFlags) : Prop where
  minFreeMb : ∀ f, args.minFreeMb = some f → ∃ q, f = .finite q ∧ 0 ≤ q
  maxConcurrent : ∀ n, args.maxConcurrent = some n → 1 ≤ n

section Resolve

variable {config config' conc conc' : Dict} {args : ConcurrencyFlags} {key : String}

theorem override_get? {flag : Option PyVal} {k : String} :
    (override key flag conc).get? k =
      if k = key then flag.or (conc.get? key) else conc.get? k := by
  cases flag with
  | some v =>
    rw [override, Option.some_or]
    split
    next hk => rw [hk, Dict.get?_set_self]
    next hk => exact Dict.get?_set_of_ne hk
  | none =>
    rw [override, Option.none_or]
    split
    next hk => rw [hk]
    next => rfl

/-- **Precedence.** The flag, the config, the default. -/
theorem resolveConcurrency_eq (config : Dict) (args : ConcurrencyFlags) :
    resolveConcurrency config args =
      { mode := ((args.concurrencyMode.map fun m => .str m.value).or
          ((concurrencySection config).get? "mode")).getD (.str "sequential")
        minFreeMb := ((args.minFreeMb.map .float).or
          ((concurrencySection config).get? "min_free_mb")).getD (.float (.finite 2000))
        maxConcurrent := ((args.maxConcurrent.map .int).or
          ((concurrencySection config).get? "max_concurrent")).getD (.int 8)
        settleSeconds := ((concurrencySection config).get? "settle_seconds").getD
          (.float (.finite 1))
        maxOomRetries := ((concurrencySection config).get? "max_oom_retries").getD (.int 5) } := by
  simp [resolveConcurrency, override_get?, settingsOf, ConcurrencyMode.value]

/-- The section of an accepted config: what the check has seen, or nothing. -/
theorem concurrencySection_accepted {seed : Int} (ha : Accepted config seed) :
    ConcurrencyAccepted (concurrencySection config) := by
  have hempty : ConcurrencyAccepted [] :=
    { mode := rfl
      minFreeMb := fun _ h => by cases h
      settleSeconds := fun _ h => by cases h
      maxConcurrent := fun _ h => by cases h
      maxOomRetries := fun _ h => by cases h }
  obtain ⟨executor, hexecutor, hconc⟩ := ha.executor
  unfold concurrencySection
  rw [hexecutor]
  dsimp only
  cases hget : executor.get? "concurrency" with
  | none =>
    rw [section?, Dict.get, hget]
    exact hempty
  | some v =>
    obtain ⟨conc, rfl, haccepted⟩ := hconc v hget
    rw [section?, Dict.get, hget]
    exact haccepted

/-! ## What the store keeps of the section -/

theorem section_getD_rewritten (h : config.IsJson) (hc : config.throughJson = .ok config')
    (key : String) :
    ((section? config key).getD []).IsJson ∧
      ((section? config key).getD []).throughJson = .ok ((section? config' key).getD []) := by
  cases hd : section? config key with
  | some d =>
    obtain ⟨hjson, d', hd', hthrough⟩ := section_rewritten h hc hd
    rw [hd']
    exact ⟨hjson, hthrough⟩
  | none =>
    have hnone : section? config' key = none := by
      unfold section? at hd ⊢
      rcases (get_rewritten h hc key).cases with hx | ⟨xs, xs', -, hx⟩ | ⟨d, d', hx, -, -⟩
      · rw [hx]
        exact hd
      · rw [hx]
      · rw [hx] at hd
        cases hd
    rw [hnone]
    exact ⟨⟨⟨_, rfl⟩, rfl⟩, rfl⟩

theorem concurrencySection_eq (config : Dict) :
    concurrencySection config =
      (section? ((section? config "executor").getD []) "concurrency").getD [] := by
  unfold concurrencySection
  cases section? config "executor" <;> rfl

theorem concurrencySection_rewritten (h : config.IsJson) (hc : config.throughJson = .ok config') :
    (concurrencySection config).IsJson ∧
      (concurrencySection config).throughJson = .ok (concurrencySection config') := by
  obtain ⟨hjson, hthrough⟩ := section_getD_rewritten h hc "executor"
  rw [concurrencySection_eq, concurrencySection_eq]
  exact section_getD_rewritten hjson hthrough "concurrency"

/-- A check that only scalars pass. -/
structure OnlyScalars (accept : PyVal → Bool) : Prop where
  list : ∀ xs, accept (.list xs) = false
  dict : ∀ d, accept (.dict d) = false

/-- A value that has passed such a check is kept as it is. -/
theorem OnlyScalars.kept {accept : PyVal → Bool} (ha : OnlyScalars accept) (h : conc.IsJson)
    (hc : conc.throughJson = .ok conc') (hx : ∀ x, conc.get? key = some x → accept x = true) :
    conc'.get? key = conc.get? key := by
  have hrel := Dict.throughJson_get? h.stringKeys hc key
  generalize conc.get? key = x at hrel hx ⊢
  generalize conc'.get? key = x' at hrel ⊢
  cases hrel with
  | none => rfl
  | some hv =>
    have haccepted := hx _ rfl
    rcases PyVal.Rewritten.cases hv with rfl | ⟨xs, xs', rfl, -⟩ | ⟨d, d', rfl, -, -⟩
    · rfl
    · rw [ha.list] at haccepted
      cases haccepted
    · rw [ha.dict] at haccepted
      cases haccepted

theorem nonNegativeNumber_only : OnlyScalars nonNegativeNumber := ⟨fun _ => rfl, fun _ => rfl⟩

theorem intFrom_only (bound : Int) : OnlyScalars (intFrom bound) := ⟨fun _ => rfl, fun _ => rfl⟩

theorem validMode_only : OnlyScalars validMode := ⟨fun _ => rfl, fun _ => rfl⟩

/-- **The store changes no setting** of an accepted config. -/
theorem resolveConcurrency_kept {seed : Int} (ha : Accepted config seed) (h : config.IsJson)
    (hc : config.throughJson = .ok config') (args : ConcurrencyFlags) :
    resolveConcurrency config' args = resolveConcurrency config args := by
  obtain ⟨hjson, hthrough⟩ := concurrencySection_rewritten h hc
  have haccepted := concurrencySection_accepted ha
  rw [resolveConcurrency_eq, resolveConcurrency_eq,
    validMode_only.kept hjson hthrough fun x hx => by
      have hmode := haccepted.mode
      rw [hx] at hmode
      exact hmode,
    nonNegativeNumber_only.kept hjson hthrough haccepted.minFreeMb,
    (intFrom_only 1).kept hjson hthrough haccepted.maxConcurrent,
    nonNegativeNumber_only.kept hjson hthrough haccepted.settleSeconds,
    (intFrom_only 0).kept hjson hthrough haccepted.maxOomRetries]

/-! ## The settings of an accepted config -/

/-- The flag, the config and the default pass a check, so what is resolved does. -/
theorem setting_passes {P : PyVal → Prop} {flag : Option PyVal} {default : PyVal}
    (hflag : ∀ x, flag = some x → P x) (hconc : ∀ x, conc.get? key = some x → P x)
    (hdefault : P default) : P ((flag.or (conc.get? key)).getD default) := by
  cases flag with
  | some x => exact hflag x rfl
  | none =>
    rw [Option.none_or]
    cases hx : conc.get? key with
    | none => exact hdefault
    | some x => exact hconc x hx

theorem amount_of_nonNegative (h : conc.IsJson) {x : PyVal} (hx : conc.get? key = some x)
    (hn : nonNegativeNumber x = true) :
    ∃ q, Validator.number? x = some (.finite q) ∧ 0 ≤ q := by
  obtain ⟨⟨w, hw⟩, -⟩ := h.get? hx
  cases x with
  | int i => exact ⟨i, rfl, Int.cast_nonneg (of_decide_eq_true hn)⟩
  | float f =>
    cases f with
    | finite q => exact ⟨q, rfl, of_decide_eq_true hn⟩
    | _ => cases hw
  | _ => cases hn

theorem int_of_intFrom {bound : Int} {x : PyVal} (h : intFrom bound x = true) :
    ∃ n, x = .int n ∧ bound ≤ n := by
  cases x with
  | int n => exact ⟨n, rfl, of_decide_eq_true h⟩
  | _ => cases h

theorem mode_of_validMode {x : PyVal} (h : validMode x = true) :
    ∃ m : ConcurrencyMode, x = .str m.value := by
  cases x with
  | str m =>
    have hm : m ∈ validConcurrencyModes := of_decide_eq_true h
    rcases List.mem_cons.mp hm with rfl | hm
    · exact ⟨.sequential, rfl⟩
    · obtain rfl := List.mem_singleton.mp hm
      exact ⟨.resourceAware, rfl⟩
  | _ => cases h

/-- **The settings** are sound: what the checks have let through, for want of a flag. -/
theorem resolveConcurrency_means {seed : Int} (ha : Accepted config seed) (h : config.IsJson)
    (hargs : args.Sound) :
    ∃ c : ConcurrencyConfig, (resolveConcurrency config args).Means c ∧ c.Sound := by
  have hjson : (concurrencySection config).IsJson := by
    obtain ⟨kept, hkept, -⟩ := h.through
    exact (concurrencySection_rewritten h hkept).1
  have haccepted := concurrencySection_accepted ha
  have hmode : ∃ m : ConcurrencyMode, (resolveConcurrency config args).mode = .str m.value := by
    rw [resolveConcurrency_eq]
    refine setting_passes (P := fun x => ∃ m : ConcurrencyMode, x = .str m.value)
      (fun x hx => ?_) (fun x hx => ?_) ⟨.sequential, rfl⟩
    · obtain ⟨m, -, rfl⟩ := Option.map_eq_some_iff.mp hx
      exact ⟨m, rfl⟩
    · have hvalid := haccepted.mode
      rw [hx] at hvalid
      exact mode_of_validMode hvalid
  have hfree : ∃ q, Validator.number? (resolveConcurrency config args).minFreeMb =
      some (.finite q) ∧ 0 ≤ q := by
    rw [resolveConcurrency_eq]
    refine setting_passes (P := fun x => ∃ q, Validator.number? x = some (.finite q) ∧ 0 ≤ q)
      (fun x hx => ?_) (fun x hx => amount_of_nonNegative hjson hx (haccepted.minFreeMb x hx))
      ⟨2000, rfl, by norm_num⟩
    obtain ⟨f, hf, rfl⟩ := Option.map_eq_some_iff.mp hx
    obtain ⟨q, rfl, hq⟩ := hargs.minFreeMb f hf
    exact ⟨q, rfl, hq⟩
  have hceiling : ∃ n, (resolveConcurrency config args).maxConcurrent = .int n ∧ 1 ≤ n := by
    rw [resolveConcurrency_eq]
    refine setting_passes (P := fun x => ∃ n, x = .int n ∧ 1 ≤ n) (fun x hx => ?_)
      (fun x hx => int_of_intFrom (haccepted.maxConcurrent x hx)) ⟨8, rfl, by decide⟩
    obtain ⟨n, hn, rfl⟩ := Option.map_eq_some_iff.mp hx
    exact ⟨n, rfl, hargs.maxConcurrent n hn⟩
  have hsettle : ∃ q, Validator.number? (resolveConcurrency config args).settleSeconds =
      some (.finite q) ∧ 0 ≤ q := by
    rw [resolveConcurrency_eq]
    exact setting_passes (P := fun x => ∃ q, Validator.number? x = some (.finite q) ∧ 0 ≤ q)
      (fun x (hx : none = some x) => by cases hx)
      (fun x hx => amount_of_nonNegative hjson hx (haccepted.settleSeconds x hx))
      ⟨1, rfl, by norm_num⟩
  have hretries : ∃ n, (resolveConcurrency config args).maxOomRetries = .int n ∧ 0 ≤ n := by
    rw [resolveConcurrency_eq]
    exact setting_passes (P := fun x => ∃ n, x = .int n ∧ 0 ≤ n)
      (fun x (hx : none = some x) => by cases hx) (fun x hx => int_of_intFrom (haccepted.maxOomRetries x hx))
      ⟨5, rfl, by decide⟩
  obtain ⟨mode, hmode⟩ := hmode
  obtain ⟨minFreeMb, hfree, hfree'⟩ := hfree
  obtain ⟨maxConcurrent, hceiling, hceiling'⟩ := hceiling
  obtain ⟨settleSeconds, hsettle, hsettle'⟩ := hsettle
  obtain ⟨maxOomRetries, hretries, hretries'⟩ := hretries
  exact ⟨{ mode, minFreeMb, maxConcurrent, settleSeconds, maxOomRetries },
    ⟨hmode, hfree, hceiling, hsettle, hretries⟩, ⟨hfree', hceiling', hsettle', hretries'⟩⟩

end Resolve
end Cli

/-! ## The drain -/

/-- **The limit.** However the ceiling falls, no more children are in flight than it was at the
start. -/
theorem Parent.inFlight_le {c : Draining} {p : Parent} (hfree : 0 ≤ c.concurrency.minFreeMb)
    (h : c.loop.Reaches (start c) p) :
    (p.inFlight.rows.length : Int) ≤ max 1 c.concurrency.maxConcurrent := by
  have hp : Admitting c p ∧ p.ceiling ≤ max 1 c.concurrency.maxConcurrent ∧
      (p.inFlight.rows.length : Int) ≤ max 1 c.concurrency.maxConcurrent := by
    refine h.invariant (I := fun p => Admitting c p ∧
      p.ceiling ≤ max 1 c.concurrency.maxConcurrent ∧
      (p.inFlight.rows.length : Int) ≤ max 1 c.concurrency.maxConcurrent)
      ⟨admitting_start c, le_refl _, by simp [start, Table.empty]⟩ ?_
    rintro q i q' ⟨hq, hceiling, hlength⟩ - hs
    have hm := step_moves hs
    have hfalls := (hm.monotone hq.positive (hfree.trans hq.headroom)).2.1
    refine ⟨hq.step hfree hm, hfalls.trans hceiling, ?_⟩
    cases hm with
    | goTo | lower => exact hlength
    | launch live d pid hpt => exact (hq.room hpt d pid).trans hceiling
    | drop pid =>
      have hless : (q.inFlight.erase pid).rows.length ≤ q.inFlight.rows.length :=
        List.length_filter_le _ _
      exact (Int.ofNat_le.mpr hless).trans hlength
    | settle outcome => cases outcome <;> exact hlength
  exact hp.2.2

open Cli (ConcurrencyFlags resolveConcurrency)

/-- **The config limits the drain.** Take a run that was created in SQLite with a JSON config, and
anything that is done to the database after that. `run` resolves the settings from what the store
has kept just as it would from the config itself, whatever its flags. If the flags pass the checks
of the config, the settings are those of a sound `ConcurrencyConfig`, and in a drain with it there
are never more than `max_concurrent` children in flight, whatever its loop reads. -/
theorem config_limits_drain {pf : Platform} {config : Dict} {name : String} {payloads : List Dict}
    {env : Nat → Answers} {σ σ' : Session} {runId : RunId} {s : StateStore}
    (hjson : config.IsJson) (hsql : σ.ledger.store.backend = .sqlite)
    (hrun : (createRun pf name config payloads).run (Session.exec env) σ = (.ok runId, σ'))
    (hreach : callers.Reaches σ'.ledger.store s) :
    ∃ run, s.run? runId = some run ∧ ∀ args : ConcurrencyFlags,
      resolveConcurrency run.config args = resolveConcurrency config args ∧
      (args.Sound → ∃ settings : ConcurrencyConfig,
        (resolveConcurrency run.config args).Means settings ∧ settings.Sound ∧
        ∀ c : Draining, c.concurrency = settings → ∀ p, c.loop.Reaches (Parent.start c) p →
          (p.inFlight.rows.length : Int) ≤ settings.maxConcurrent) := by
  obtain ⟨run, hrow, hrecords⟩ := created_records hsql hrun hreach
  obtain ⟨seed, hv, -⟩ := hrecords.seed
  have haccepted := validateRunConfig_iff.mp hv
  refine ⟨run, hrow, fun args => ?_⟩
  have hkept := Cli.resolveConcurrency_kept haccepted hjson hrecords.kept args
  refine ⟨hkept, fun hargs => ?_⟩
  obtain ⟨settings, hmeans, hsound⟩ := Cli.resolveConcurrency_means haccepted hjson hargs
  refine ⟨settings, hkept ▸ hmeans, hsound, ?_⟩
  rintro c rfl p hp
  have hlimit := Parent.inFlight_le hsound.minFreeMb hp
  rwa [max_eq_right hsound.maxConcurrent] at hlimit

/-! ## A run with room for two -/

def limitedConfig : Dict :=
  demoConfig.set "executor" (.dict (Dict.ofList [("concurrency", .dict (Dict.ofList
    [("mode", .str "resource_aware"), ("max_concurrent", .int 2), ("min_free_mb", .int 500)]))]))

def limitedRun : Except PyExc RunId × Session :=
  (createRun .bare "demo" limitedConfig []).run (Session.exec (Answers.numbered 0))
    ⟨⟨.empty .sqlite, []⟩, 0⟩

theorem config_limits_drain_to_two : ∃ run settings,
    limitedRun.2.ledger.store.run? "0" = some run ∧
    (resolveConcurrency run.config {}).Means settings ∧ settings.mode = .resourceAware ∧
    settings.maxConcurrent = 2 ∧
    ∀ c : Draining, c.concurrency = settings → ∀ p, c.loop.Reaches (Parent.start c) p →
      (p.inFlight.rows.length : Int) ≤ 2 := by
  have hjson : Dict.IsJson limitedConfig := ⟨⟨_, rfl⟩, by decide +kernel⟩
  have hcreated : limitedRun.1.toOption = some "0" := by decide +kernel
  have hrun : limitedRun = (.ok "0", limitedRun.2) := by
    generalize limitedRun = out at hcreated
    obtain ⟨reply, σ⟩ := out
    cases reply with
    | error e => cases hcreated
    | ok id => rw [Option.some.inj hcreated]
  obtain ⟨run, hrow, hsettings⟩ := config_limits_drain hjson rfl hrun .refl
  obtain ⟨hsame, hmeant⟩ := hsettings {}
  obtain ⟨settings, hmeans, -, hlimit⟩ := hmeant ⟨(fun _ h => by cases h), fun _ h => by cases h⟩
  have hresolved : resolveConcurrency run.config {} =
      { mode := .str "resource_aware", minFreeMb := .int 500, maxConcurrent := .int 2
        settleSeconds := .float (.finite 1), maxOomRetries := .int 5 } := hsame
  have hmode : settings.mode = .resourceAware := by
    have hmode := hmeans.mode
    rw [hresolved] at hmode
    cases hm : settings.mode with
    | resourceAware => rfl
    | sequential =>
      rw [hm] at hmode
      exact absurd (PyVal.str.inj hmode) (by decide)
  have hceiling : settings.maxConcurrent = 2 := by
    have hceiling := hmeans.maxConcurrent
    rw [hresolved] at hceiling
    exact (PyVal.int.inj hceiling).symm
  exact ⟨run, settings, hrow, hmeans, hmode, hceiling, hceiling ▸ hlimit⟩

end FineTuneHarness
