import FineTuneHarness.Safety.RunReproducibility
import FineTuneHarness.State.JsonNormal
import FineTuneHarness.Validation.Acceptance

/-!
# A run can be created again from its manifest

`export_manifest` carries the config as the store has kept it. A run that is created with that
config, on whatever machine and in whatever database, carries the same seed, the same dataset
hashes and the same `config_hash`, and the two runs can be compared.
-/
namespace FineTuneHarness

open Library Library.Program

/-! ## The checks after JSON -/

namespace Configs

variable {config config' d d' : Dict}

/-- What a lookup finds after JSON. -/
theorem get_rewritten (h : config.IsJson) (hc : config.throughJson = .ok config') (key : String) :
    (config.get key).Rewritten (config'.get key) := by
  have hrel := Dict.throughJson_get? h.stringKeys hc key
  unfold Dict.get
  generalize config.get? key = x at hrel ⊢
  generalize config'.get? key = x' at hrel ⊢
  cases hrel with
  | none => exact ⟨.null, rfl, rfl⟩
  | some hv => exact hv

/-- A check that gives one answer to all lists and one to all dictionaries. -/
structure ChecksScalars (accept : PyVal → Bool) : Prop where
  list : ∀ xs xs', accept (.list xs') = accept (.list xs)
  dict : ∀ d d', accept (.dict d') = accept (.dict d)

/-- The answer of such a check after JSON. -/
theorem ChecksScalars.rewritten {accept : PyVal → Bool} (ha : ChecksScalars accept)
    {x x' : PyVal} (h : x.Rewritten x') : accept x' = accept x := by
  rcases h.cases with rfl | ⟨xs, xs', rfl, rfl⟩ | ⟨d, d', rfl, rfl, -⟩
  · rfl
  · exact ha.list xs xs'
  · exact ha.dict d d'

theorem nonEmptyStr_scalars : ChecksScalars nonEmptyStr := ⟨fun _ _ => rfl, fun _ _ => rfl⟩

theorem nonBlankStr_scalars : ChecksScalars nonBlankStr := ⟨fun _ _ => rfl, fun _ _ => rfl⟩

theorem nonNegativeNumber_scalars : ChecksScalars nonNegativeNumber :=
  ⟨fun _ _ => rfl, fun _ _ => rfl⟩

theorem intFrom_scalars (bound : Int) : ChecksScalars (intFrom bound) :=
  ⟨fun _ _ => rfl, fun _ _ => rfl⟩

theorem validMode_scalars : ChecksScalars validMode := ⟨fun _ _ => rfl, fun _ _ => rfl⟩

theorem section_rewritten (h : config.IsJson) (hc : config.throughJson = .ok config') {key : String}
    (hd : section? config key = some d) :
    d.IsJson ∧ ∃ d', section? config' key = some d' ∧ d.throughJson = .ok d' := by
  have hget : config.get key = .dict d := by
    unfold section? at hd
    split at hd
    next heq =>
      obtain rfl := Option.some.inj hd
      exact heq
    next => cases hd
  have hrewritten := get_rewritten h hc key
  rw [hget] at hrewritten
  obtain ⟨d', hd', hthrough⟩ := hrewritten.of_dict
  refine ⟨h.of_get? (Dict.get?_of_get hget fun hn => by cases hn), d', ?_, hthrough⟩
  rw [section?, hd']

/-- The check of an optional key. -/
theorem ChecksScalars.optional {accept : PyVal → Bool} (ha : ChecksScalars accept)
    (h : config.IsJson) (hc : config.throughJson = .ok config') {key : String}
    (hx : ∀ x, config.get? key = some x → accept x = true) :
    ∀ x, config'.get? key = some x → accept x = true := by
  intro x' hx'
  have hrel := Dict.throughJson_get? h.stringKeys hc key
  rw [hx'] at hrel
  generalize hg : config.get? key = g at hrel
  cases hrel with
  | some hv => rw [ha.rewritten hv, hx _ hg]

theorem ConcurrencyAccepted.rewritten (ha : ConcurrencyAccepted config) (h : config.IsJson)
    (hc : config.throughJson = .ok config') : ConcurrencyAccepted config' where
  mode := by
    have hrel := Dict.throughJson_get? h.stringKeys hc "mode"
    have haccepted := ha.mode
    generalize config.get? "mode" = x at hrel haccepted
    generalize config'.get? "mode" = x' at hrel ⊢
    cases hrel with
    | none => exact haccepted
    | some hv => exact (validMode_scalars.rewritten hv).trans haccepted
  minFreeMb := nonNegativeNumber_scalars.optional h hc ha.minFreeMb
  settleSeconds := nonNegativeNumber_scalars.optional h hc ha.settleSeconds
  maxConcurrent := (intFrom_scalars 1).optional h hc ha.maxConcurrent
  maxOomRetries := (intFrom_scalars 0).optional h hc ha.maxOomRetries

theorem NamesHashes.rewritten {x x' : PyVal} (hx : NamesHashes x) (h : x.Rewritten x') :
    NamesHashes x' := by
  obtain ⟨d, rfl, hne, hall⟩ := hx
  obtain ⟨d', rfl, hthrough⟩ := h.of_dict
  obtain ⟨hlength, hvalues⟩ := Dict.throughJson_values hthrough
  refine ⟨d', rfl, fun hnil => hne ?_, fun kv' hkv' => ?_⟩
  · rw [hnil] at hlength
    exact List.length_eq_zero_iff.mp hlength.symm
  · obtain ⟨kv, hkv, hrewritten⟩ := hvalues kv' hkv'
    rw [nonBlankStr_scalars.rewritten hrewritten, hall kv hkv]

/-- **An accepted config is accepted after JSON**, with the same seed. -/
theorem Accepted.rewritten {seed : Int} (ha : Accepted config seed) (h : config.IsJson)
    (hc : config.throughJson = .ok config') : Accepted config' seed := by
  have hnamed : ∀ {d d' : Dict} {key : String}, d.IsJson → d.throughJson = .ok d' →
      nonEmptyStr (d.get key) = true → nonEmptyStr (d'.get key) = true :=
    fun hd hd' hn => (nonEmptyStr_scalars.rewritten (get_rewritten hd hd' _)).trans hn
  constructor
  case project =>
    obtain ⟨d, hd, hname⟩ := ha.project
    obtain ⟨hjson, d', hd', hthrough⟩ := section_rewritten h hc hd
    exact ⟨d', hd', hnamed hjson hthrough hname⟩
  case artifacts =>
    obtain ⟨d, hd, hroot⟩ := ha.artifacts
    obtain ⟨hjson, d', hd', hthrough⟩ := section_rewritten h hc hd
    exact ⟨d', hd', hnamed hjson hthrough hroot⟩
  case executor =>
    obtain ⟨d, hd, hconc⟩ := ha.executor
    obtain ⟨hjson, d', hd', hthrough⟩ := section_rewritten h hc hd
    refine ⟨d', hd', fun x' hx' => ?_⟩
    have hrel := Dict.throughJson_get? hjson.stringKeys hthrough "concurrency"
    rw [hx'] at hrel
    generalize hg : d.get? "concurrency" = g at hrel
    cases hrel with
    | some hv =>
      obtain ⟨conc, rfl, haccepted⟩ := hconc _ hg
      obtain ⟨conc', rfl, hconc'⟩ := PyVal.Rewritten.of_dict hv
      exact ⟨conc', rfl, haccepted.rewritten (hjson.of_get? hg) hconc'⟩
  case seed =>
    have hrewritten := get_rewritten h hc "seed"
    rw [ha.seed] at hrewritten
    obtain ⟨j, hj, hx⟩ := hrewritten
    obtain rfl := Except.ok.inj hj
    exact hx
  case data =>
    have hhash := get_rewritten h hc "dataset_hash"
    have hsplits := get_rewritten h hc "datasets"
    have hnone : ∀ {x x' : PyVal}, x.Rewritten x' → x = .none → x' = .none := by
      rintro x x' ⟨j, hj, rfl⟩ rfl
      obtain rfl := Except.ok.inj hj
      rfl
    rcases ha.data with ⟨hfilled, hdata⟩ | ⟨habsent, hdata⟩
    · refine .inl ⟨(nonBlankStr_scalars.rewritten hhash).trans hfilled, ?_⟩
      exact hdata.imp (hnone hsplits) fun hd => hd.rewritten hsplits
    · exact .inr ⟨hnone hhash habsent, hdata.rewritten hsplits⟩

end Configs

/-! ## The record of a run -/

/-- What SQLite has kept of a run that was created with the config. -/
structure RunRecord.RecordsConfig (pf : Platform) (config : Dict) (run : RunRecord) : Prop where
  seed : ∃ seed, validateRunConfig pf config = .ok seed ∧ run.seed = some seed
  hash : ∃ hash, canonicalJsonHash pf config = .ok hash ∧ run.configHash = some hash
  kept : config.throughJson = .ok run.config
  hashes : (datasetHashesOf config).throughJson = .ok run.datasetHashes

section Record

variable {pf : Platform} {config : Dict}

/-- **A run records its config** from its creation on, whatever is done to the store. -/
theorem created_records {name : String} {payloads : List Dict} {env : Nat → Answers}
    {σ σ' : Session} {runId : RunId} {s : StateStore} (hsql : σ.ledger.store.backend = .sqlite)
    (hrun : (createRun pf name config payloads).run (Session.exec env) σ = (.ok runId, σ'))
    (hreach : callers.Reaches σ'.ledger.store s) :
    ∃ run, s.run? runId = some run ∧ run.RecordsConfig pf config := by
  have hcreated : (createRun pf name config payloads).wp (alone .any)
      (fun runId l => ∃ run, l.store.run? runId = some run ∧ run.RecordsConfig pf config)
      (fun _ _ => True) σ.ledger := by
    obtain ⟨⟨s₀, c⟩, n⟩ := σ
    have hsql : s₀.backend = .sqlite := hsql
    refine alone_createRun_begun pf name config payloads s₀ fun seed runId s' hv hb hhash => ?_
    obtain ⟨record, clk, r, h, hx, hcreation, hid, hrid, hseed, hr⟩ := hb.stored
    obtain ⟨r₁, hash, hr₁, hconfig, hcarries⟩ := hhash
    obtain ⟨r₂, hr₂, hkept, hkept'⟩ := StateStore.createRun_keeps hx
    obtain rfl := Option.some.inj (hr₁.symm.trans hr)
    have hsame : r₂ = r := by
      rw [hid, StateStore.addRun_run?, if_pos hrid.symm] at hr₂
      exact (Option.some.inj hr₂).symm
    subst hsame
    rw [StateStore.keepDict, hsql] at hkept hkept'
    rw [hcreation.given] at hkept
    rw [hcreation.hashes] at hkept'
    refine wp_mono (alone_keepsRuns (fun h => h) (only_createTasks payloads 0) hr)
      (fun _ l hl => ⟨_, hl, ?_⟩) fun _ _ _ => trivial
    exact ⟨⟨seed, hv, hseed⟩, ⟨hash, hconfig, hcarries⟩, hkept, hkept'⟩
  have hrun' := Session.run_of_wp hcreated fun n => Admits.any_meets (env n)
  rw [hrun] at hrun'
  refine hreach.invariant
    (I := fun s => ∃ run, s.run? runId = some run ∧ run.RecordsConfig pf config) hrun' ?_
  rintro s₁ c s₂ ⟨run, hrow, hrecords⟩ - hstep
  obtain rfl := Option.some.inj hstep
  refine ⟨_, s₁.exec_run? c.2 hrow c.1, ?_⟩
  obtain ⟨hseed, hhash, hconfig, hhashes⟩ := hrecords
  unfold StateStore.runAfter
  split
  · split <;> exact ⟨hseed, hhash, hconfig, hhashes⟩
  · split <;> exact ⟨hseed, hhash, hconfig, hhashes⟩
  · exact ⟨hseed, hhash, hconfig, hhashes⟩

/-- The dataset hashes of a config and of what the store keeps of it. -/
theorem datasetHashes_rewritten {config' : Dict} {seed : Int} (ha : Configs.Accepted config seed)
    (h : config.IsJson) (hc : config.throughJson = .ok config') :
    ∃ hashes, (datasetHashesOf config).throughJson = .ok hashes ∧
      (datasetHashesOf config').throughJson = .ok hashes ∧
      (PyVal.dict hashes).eq (.dict hashes) = true := by
  have hget := Configs.get_rewritten h hc "dataset_hash"
  have hcontains : config'.contains "dataset_hash" = config.contains "dataset_hash" := by
    rw [contains_iff, contains_iff]
    have hrel := Dict.throughJson_get? h.stringKeys hc "dataset_hash"
    generalize config.get? "dataset_hash" = x at hrel ⊢
    generalize config'.get? "dataset_hash" = x' at hrel ⊢
    cases hrel <;> rfl
  unfold datasetHashesOf
  rw [hcontains]
  by_cases hin : config.contains "dataset_hash" = true
  · rw [if_pos hin, if_pos hin]
    have hscalar : config.get "dataset_hash" = .none ∨ ∃ s, config.get "dataset_hash" = .str s := by
      rcases ha.data with ⟨hfilled, -⟩ | ⟨hnone, -⟩
      · exact .inr ((str_of_nonBlank hfilled).imp fun s hs => hs.1)
      · exact .inl hnone
    obtain ⟨j, hj, hx⟩ := hget
    rcases hscalar with hs | ⟨s, hs⟩
    · rw [hs] at hj
      obtain rfl := Except.ok.inj hj
      rw [hs, hx]
      exact ⟨_, rfl, rfl, rfl⟩
    · rw [hs] at hj
      obtain rfl := Except.ok.inj hj
      rw [hs, hx]
      refine ⟨_, rfl, rfl, ?_⟩
      simp [Json.loads, loadsItems, PyVal.eq, eqItems, PyKey.eq, List.insertionSort]
  · rw [if_neg hin, if_neg hin]
    have hnone : config.get "dataset_hash" = .none := by
      rw [contains_iff, Bool.not_eq_true, Option.isSome_eq_false_iff, Option.isNone_iff_eq_none] at hin
      rw [Dict.get, hin]
      rfl
    obtain ⟨d, hd, -⟩ : Configs.NamesHashes (config.get "datasets") := by
      rcases ha.data with ⟨hfilled, -⟩ | ⟨-, hnamed⟩
      · rw [hnone] at hfilled
        cases hfilled
      · exact hnamed
    have hsection : Configs.section? config "datasets" = some d := by
      rw [Configs.section?, hd]
    obtain ⟨hjson, d', hd', hthrough⟩ := Configs.section_rewritten h hc hsection
    obtain ⟨e, he, hagain, -, hself⟩ := hjson.through
    obtain rfl := Except.ok.inj (hthrough.symm.trans he)
    rw [hsection, hd']
    exact ⟨d', hthrough, hagain, hself⟩

end Record

/-! ## The replay -/

/-- The second run starts as the first did. -/
structure RunRecord.StartsAs (run run' : RunRecord) : Prop where
  config : run'.config = run.config
  seed : run'.seed = run.seed
  hashes : run'.datasetHashes = run.datasetHashes
  configHash : run'.configHash = run.configHash

section Replay

variable {pf pf' : Platform} {config : Dict} {run run' : RunRecord}

theorem canonicalJsonHash_dumps {d d' : Dict} (hdigest : pf'.digest = pf.digest)
    (h : (PyVal.dict d').dumps = (PyVal.dict d).dumps) :
    canonicalJsonHash pf' d' = canonicalJsonHash pf d := by
  rw [canonicalJsonHash, canonicalJsonHash, h, hdigest]

/-- **A run with the config that another has kept** starts as the other did. -/
theorem RunRecord.RecordsConfig.startsAs (hdigest : pf'.digest = pf.digest) (hjson : config.IsJson)
    (h : run.RecordsConfig pf config) (h' : run'.RecordsConfig pf' run.config) :
    run.StartsAs run' ∧ (PyVal.dict run.config).eq (.dict run.config) = true ∧
      (PyVal.dict run.datasetHashes).eq (.dict run.datasetHashes) = true := by
  obtain ⟨kept, hkept, hagain, hdumps, hself⟩ := hjson.through
  obtain rfl := Except.ok.inj (h.kept.symm.trans hkept)
  obtain ⟨seed, hv, hseed⟩ := h.seed
  have haccepted := validateRunConfig_iff.mp hv
  obtain ⟨seed', hv', hseed'⟩ := h'.seed
  have hsame : validateRunConfig pf' run.config = .ok seed :=
    validateRunConfig_iff.mpr (haccepted.rewritten hjson h.kept)
  obtain rfl := Except.ok.inj (hv'.symm.trans hsame)
  obtain ⟨hash, hconfig, hhash⟩ := h.hash
  obtain ⟨hash', hconfig', hhash'⟩ := h'.hash
  rw [canonicalJsonHash_dumps hdigest hdumps, hconfig] at hconfig'
  obtain rfl := Except.ok.inj hconfig'
  obtain ⟨hashes, hhashes, hhashes', hselfhashes⟩ := datasetHashes_rewritten haccepted hjson h.kept
  obtain rfl := Except.ok.inj (h.hashes.symm.trans hhashes)
  have hhashes' := Except.ok.inj (h'.hashes.symm.trans hhashes')
  refine ⟨⟨Except.ok.inj (h'.kept.symm.trans hagain), ?_, hhashes', ?_⟩, hself, hselfhashes⟩
  · rw [hseed, hseed']
  · rw [hhash, hhash']

open Comparator

theorem warnDifferent_self {field : String} {message : PyVal → PyVal → String} {x : PyVal}
    (h : x = .none ∨ x.eq x = true) : warnDifferent field message x x = [] := by
  unfold warnDifferent
  rcases h with rfl | h
  · rfl
  · rw [h, Bool.or_true, if_pos rfl]

/-- A lookup in a dictionary that is equal to itself. -/
theorem get_self {d : Dict} (h : (PyVal.dict d).eq (.dict d) = true) (key : String) :
    d.get key = .none ∨ (d.get key).eq (d.get key) = true := by
  cases hget : d.get? key with
  | none => exact .inl (by rw [Dict.get, hget]; rfl)
  | some x =>
    rw [PyVal.eq, Bool.and_eq_true, eqItems_iff] at h
    obtain ⟨q, hq, hxq⟩ := h.2 _ (Dict.mem_of_get? hget)
    have hfound : q.2 = x := by
      simp only [PyKey.eq_str] at hq
      rw [Dict.get?, hq] at hget
      exact Option.some.inj hget
    rw [Dict.get, hget, Option.getD_some]
    exact .inr (hfound ▸ hxq)

/-- Runs that start alike differ in nothing but the commit. -/
theorem checkComparability_startsAs (h : run.StartsAs run')
    (hconfig : (PyVal.dict run.config).eq (.dict run.config) = true)
    (hhashes : (PyVal.dict run.datasetHashes).eq (.dict run.datasetHashes) = true) :
    ∀ issue ∈ checkComparability pf run run', issue.severity = .warning ∧
      issue.field = "git_commit" := by
  have hseed : seedIssue pf (run.config.get "seed") (run.config.get "seed") = [] :=
    warnDifferent_self (get_self hconfig "seed")
  have hkeys : (comparableConfigKeys.flatMap fun key =>
      configIssue pf key (run.config.get key) (run.config.get key)) = [] :=
    List.flatMap_eq_nil_iff.mpr fun key _ => warnDifferent_self (get_self hconfig key)
  have hdata : datasetHashesIssue pf run.datasetHashes run.datasetHashes = [] := by
    rw [datasetHashesIssue, hashesDiffer, hhashes, Bool.not_true, Bool.and_false, if_neg Bool.false_ne_true]
  intro issue hissue
  unfold checkComparability at hissue
  rw [h.config, h.hashes, hseed, hkeys, hdata, List.nil_append, List.append_nil, List.nil_append,
    commitIssue, warnDifferent] at hissue
  split at hissue
  · cases hissue
  · rw [List.mem_singleton.mp hissue]
    exact ⟨rfl, rfl⟩

/-- **A run can be created again from its manifest.** Take a run that was created in SQLite with a
JSON config, on a machine with some surroundings, and anything that is done to the database after
that. The manifest of the run can be exported, and its config is accepted everywhere, with the seed
and the hash the manifest names. A run that is created with it, in whatever database, starts as the
first did, whatever is done afterwards, and the two are comparable, up to a warning about the commit. -/
theorem run_replays_from_manifest {m : Surroundings} {name : String} {payloads : List Dict}
    {env : Nat → Answers} {σ σ₁ : Session} {runId : RunId} {s : StateStore}
    (hdigest : pf'.digest = pf.digest) (hjson : config.IsJson)
    (hprobe : ∀ n, (env n).ext .captureEnvSnapshot = m.captureEnvSnapshot)
    (hne : ∀ j, pf.digest j ≠ "") (hsql : σ.ledger.store.backend = .sqlite)
    (hrun : (createRun pf name config payloads).run (Session.exec env) σ = (.ok runId, σ₁))
    (hreach : callers.Reaches σ₁.ledger.store s) :
    ∃ run, s.run? runId = some run ∧ ∀ tasks artifacts events,
      ∃ manifest replayed seed hash, exportManifest pf run tasks artifacts events = .ok manifest ∧
        manifest.get "config" = .dict replayed ∧ manifest.get "seed" = .int seed ∧
        manifest.get "config_hash" = .str hash ∧ validateRunConfig pf' replayed = .ok seed ∧
        canonicalJsonHash pf' replayed = .ok hash ∧
        ∀ {name' : String} {payloads' : List Dict} {env' : Nat → Answers} {σ' σ₂ : Session}
          {runId' : RunId} {s' : StateStore}, σ'.ledger.store.backend = .sqlite →
          (createRun pf' name' replayed payloads').run (Session.exec env') σ' =
            (.ok runId', σ₂) → callers.Reaches σ₂.ledger.store s' →
          ∃ run', s'.run? runId' = some run' ∧ run.StartsAs run' ∧
            ∀ issue ∈ checkComparability pf' run run', issue.severity = .warning ∧
              issue.field = "git_commit" := by
  obtain ⟨run, hrow, hrecords⟩ := created_records hsql hrun hreach
  obtain ⟨run₁, hrow₁, hidentified, hcaptured⟩ := created_documented hprobe hne hrun hreach
  obtain rfl := Option.some.inj (hrow.symm.trans hrow₁)
  refine ⟨run, hrow, fun tasks artifacts events => ?_⟩
  obtain ⟨seed, hv, hseed⟩ := hrecords.seed
  obtain ⟨hash, hconfig, hhash⟩ := hrecords.hash
  obtain ⟨kept, hkept, -, hdumps, -⟩ := hjson.through
  obtain rfl := Except.ok.inj (hrecords.kept.symm.trans hkept)
  have haccepted := (validateRunConfig_iff.mp hv).rewritten hjson hrecords.kept
  obtain ⟨manifest, hmanifest, hreplayed, hmseed, hmhash⟩ :=
    exportManifest_ok (@assess_captured m pf run hidentified hcaptured events) tasks artifacts
  rw [hseed] at hmseed
  rw [hhash] at hmhash
  refine ⟨manifest, run.config, seed, hash, hmanifest, hreplayed, hmseed, hmhash,
    validateRunConfig_iff.mpr haccepted, ?_, ?_⟩
  · rw [canonicalJsonHash_dumps hdigest hdumps, hconfig]
  · intro name' payloads' env' σ' σ₂ runId' s' hsql' hrun' hreach'
    obtain ⟨run', hrow', hrecords'⟩ := created_records hsql' hrun' hreach'
    obtain ⟨hstarts, hself, hself'⟩ := hrecords.startsAs hdigest hjson hrecords'
    exact ⟨run', hrow', hstarts, checkComparability_startsAs hstarts hself hself'⟩

end Replay

/-! ## One run, created again -/

/-- A run with the config of the first run's manifest, in a new database. -/
def dockerReplay (run : RunRecord) : Option (Except PyExc RunId × Session) :=
  match exportManifest constantDigest run [] [] [] with
  | .error _ => none
  | .ok manifest =>
    match manifest.get "config" with
    | .dict replayed =>
      some ((createRun constantDigest "again" replayed []).run (Session.exec (Answers.numbered 7))
        ⟨⟨.empty .sqlite, []⟩, 0⟩)
    | _ => none

theorem docker_run_replayed : ∃ run run' σ,
    (dockerRun.2.ledger.store.exec (.updateRunStatus "0" .cancelled) ⟨9, 9⟩).2.run? "0" = some run ∧
    dockerReplay run = some (.ok "0", σ) ∧ σ.ledger.store.run? "0" = some run' ∧
    run.StartsAs run' ∧ ∀ issue ∈ Comparator.checkComparability constantDigest run run',
      issue.severity = .warning ∧ issue.field = "git_commit" := by
  have hne : "0" ≠ "" := by decide
  have hjson : Dict.IsJson demoConfig := ⟨⟨_, rfl⟩, by decide +kernel⟩
  have hcreated : dockerRun.1.toOption = some "0" := by decide +kernel
  have hrun : dockerRun = (.ok "0", dockerRun.2) := by
    generalize dockerRun = out at hcreated
    obtain ⟨reply, σ⟩ := out
    cases reply with
    | error e => cases hcreated
    | ok id => rw [Option.some.inj hcreated]
  obtain ⟨run, hrow, hreplays⟩ := run_replays_from_manifest (m := dockerMachine)
    (rfl : constantDigest.digest = constantDigest.digest) hjson (fun _ => rfl) (fun _ => hne) rfl hrun
    (.tail (.updateRunStatus "0" .cancelled, ⟨9, 9⟩) .refl trivial rfl)
  obtain ⟨manifest, replayed, -, -, hmanifest, hreplayed, -, -, -, -, hstarts⟩ := hreplays [] [] []
  have hagain : ((((dockerRun.2.ledger.store.exec (.updateRunStatus "0" .cancelled)
      ⟨9, 9⟩).2.run? "0").bind dockerReplay).map (·.1.toOption)) = some (some "0") := by
    decide +kernel
  rw [hrow, Option.bind_some] at hagain
  obtain ⟨⟨reply, σ⟩, hreplay, hreply⟩ := Option.map_eq_some_iff.mp hagain
  obtain rfl : reply = .ok "0" := by
    cases reply with
    | error e => cases hreply
    | ok id => rw [Option.some.inj hreply]
  have hcreated' : (createRun constantDigest "again" replayed []).run
      (Session.exec (Answers.numbered 7)) ⟨⟨.empty .sqlite, []⟩, 0⟩ = (.ok "0", σ) := by
    simp only [dockerReplay, hmanifest, hreplayed] at hreplay
    exact Option.some.inj hreplay
  obtain ⟨run', hrow', hsame, hissues⟩ := hstarts rfl hcreated' .refl
  exact ⟨run, run', σ, hrow, hreplay, hrow', hsame, hissues⟩

end FineTuneHarness
