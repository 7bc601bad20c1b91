import FineTuneHarness.Evaluation.Equality
import FineTuneHarness.Evaluation.Summary
import FineTuneHarness.Orchestrator.Creation
import FineTuneHarness.State.JsonColumn

/-!
# A validated run knows its data

`validate_dataset_hash` asks whether `dataset_hash` is `None`, `create_run` whether the key is
there. A config with the key and the value `None` passes the one and misleads the other.
-/
namespace FineTuneHarness

open Library Library.Program

/-! ## What the store keeps of the hashes -/

namespace StateStore

/-- What a store keeps of a dictionary it is given. -/
def keepDict (s : StateStore) (d : Dict) : Except PyExc Dict :=
  match s.backend with
  | .memory => .ok d
  | .sqlite => d.throughJson

/-- A record that is stored keeps its config and its dataset hashes, as the store keeps dictionaries. -/
theorem createRun_keeps {s s' : StateStore} {clk : Clock} {r : RunRecord}
    (h : s.exec (.createRun r) clk = (.ok (), s')) :
    ∃ r', s'.run? r.runId = some r' ∧ s.keepDict r.config = .ok r'.config ∧
      s.keepDict r.datasetHashes = .ok r'.datasetHashes := by
  obtain ⟨b, m⟩ := s
  cases b
  · simp only [exec, commit, InMemory.createRun] at h
    by_cases hid : r.runId ∈ m.runs.rows.map (·.runId)
    · rw [dif_pos hid] at h; cases h
    · rw [dif_neg hid] at h
      obtain rfl := (Prod.mk.inj h).2
      exact ⟨r, (Table.find?_insert hid).trans (if_pos rfl), rfl, rfl⟩
  · simp only [exec, commit, Sqlite.createRun, Bind.bind, Except.bind] at h
    cases hc : r.config.throughJson with
    | error e => rw [hc] at h; cases h
    | ok config =>
    cases he : r.envSnapshot.throughJson with
    | error e => rw [hc, he] at h; cases h
    | ok envSnapshot =>
    cases hd : r.datasetHashes.throughJson with
    | error e => rw [hc, he, hd] at h; cases h
    | ok datasetHashes =>
    cases hs : Sqlite.integerColumn r.seed with
    | error e => rw [hc, he, hd, hs] at h; cases h
    | ok seed =>
      rw [hc, he, hd, hs] at h
      by_cases hid : r.runId ∈ m.runs.rows.map (·.runId)
      · simp only [dif_pos hid] at h; cases h
      · simp only [dif_neg hid] at h
        obtain rfl := (Prod.mk.inj h).2
        let kept : RunRecord := { r with config, envSnapshot, datasetHashes, seed }
        have hnew : kept.runId ∉ m.runs.rows.map (·.runId) := hid
        exact ⟨kept, (Table.find?_insert hnew).trans (if_pos rfl), hc, hd⟩

end StateStore

section Alone

variable {ok : Admits} {runId : RunId}

/-- **The record of a created run** holds the hashes of its config. -/
theorem alone_createRun_hashes (pf : Platform) (name : String) (config : Dict)
    (payloads : List Dict) (l : Ledger) (hok : ¬ ok.refreshable) :
    (createRun pf name config payloads).wp (alone ok)
      (fun runId l' => (∃ seed, validateRunConfig pf config = .ok seed) ∧
        ∃ r, l'.store.run? runId = some r ∧
          l.store.keepDict (datasetHashesOf config) = .ok r.datasetHashes) (fun _ _ => True) l := by
  refine wp_mono (alone_createRun_stores pf name config payloads l hok) (fun runId l' h => ?_)
    fun _ _ _ => trivial
  obtain ⟨hvalid, record, clk, s', hstored, hrecord, rfl, hkept⟩ := h
  obtain ⟨r, hr, -, hd⟩ := StateStore.createRun_keeps hstored
  rw [hrecord.hashes] at hd
  exact ⟨hvalid, r.setStatus .validated, hkept r hr, hd⟩

end Alone

/-! ## Configs -/

/-- An accepted config has passed the dataset checks. -/
theorem validateRunConfig_datasets {pf : Platform} {config : Dict} {seed : Int}
    (h : validateRunConfig pf config = .ok seed) :
    Configs.validateDatasetHash pf config = .ok () := by
  have hlast : ∀ {seed' : Int}, (do
      let seed ← Configs.validateSeed pf config
      Configs.validateDatasetHash pf config
      pure seed) = Except.ok seed' → Configs.validateDatasetHash pf config = .ok () := by
    intro seed' h
    obtain ⟨_, -, h⟩ := Except.bind_ok h
    obtain ⟨_, hd, -⟩ := Except.bind_ok h
    exact hd
  unfold validateRunConfig at h
  simp only at h
  split at h
  · cases h
  split at h
  swap; · cases h
  split at h
  · cases h
  split at h
  swap; · cases h
  split at h
  on_goal 1 => obtain ⟨_, -, h⟩ := Except.bind_ok h
  all_goals
    split at h
    · split at h
      · cases h
      · exact hlast h
    · cases h

/-- **What the dataset checks let through**: a hash, or no hash and a map of hashes. -/
theorem validateDatasetHash_ok {pf : Platform} {config : Dict}
    (h : Configs.validateDatasetHash pf config = .ok ()) :
    (∃ s, config.get "dataset_hash" = .str s ∧ Configs.nonBlankStr (.str s) = true) ∨
    (config.get "dataset_hash" = .none ∧ ∃ d, config.get "datasets" = .dict d ∧ d ≠ [] ∧
      ∀ kv ∈ d, Configs.nonBlankStr kv.2 = true) := by
  unfold Configs.validateDatasetHash at h
  generalize config.get "dataset_hash" = hash at h ⊢
  generalize config.get "datasets" = datasets at h ⊢
  cases hash with
  | none =>
    simp only at h
    obtain ⟨filled, htruth, h⟩ := Except.bind_ok h
    split at h
    · cases h
    next hfilled =>
    obtain rfl : filled = true := by simpa using hfilled
    cases datasets with
    | none => cases htruth
    | dict d =>
      simp only at h
      split at h
      · cases h
      next hne =>
      refine .inr ⟨rfl, d, rfl, fun hd => hne (by rw [hd]; rfl), fun kv hkv => ?_⟩
      by_contra hblank
      split at h
      · cases h
      · cases h
      next hnone =>
      have := List.find?_eq_none.mp hnone kv hkv
      simp [hblank] at this
    | _ => cases h
  | str s =>
    simp only at h
    split at h
    · cases h
    next hs => exact .inl ⟨s, rfl, by simpa using hs⟩
  | _ => cases h

/-- `dataset_hash` is there, and it is `None`. -/
def declaresNull (config : Dict) : Bool := (config.get? "dataset_hash").any PyVal.isNone

theorem contains_iff (d : Dict) (k : String) : d.contains k = (d.get? k).isSome := by
  rw [Dict.get?, Option.isSome_map, Bool.eq_iff_iff, List.find?_isSome, Dict.contains,
    List.any_eq_true]

/-- **What a config declares**, and the hashes its run is created with. -/
inductive Declares (config : Dict) : Dict → Prop
  | hash {s : String} (given : config.get "dataset_hash" = .str s)
      (filled : Configs.nonBlankStr (.str s) = true) (named : declaresNull config = false) :
      Declares config [(.str "default", .str s)]
  | null (absent : declaresNull config = true) : Declares config [(.str "default", .none)]
  | splits {d : Dict} (absent : config.get "dataset_hash" = .none)
      (given : Configs.section? config "datasets" = some d) (filled : d ≠ [])
      (named : ∀ kv ∈ d, Configs.nonBlankStr kv.2 = true) (noNull : declaresNull config = false) :
      Declares config d

theorem declares_of_accepted {pf : Platform} {config : Dict} {seed : Int}
    (h : validateRunConfig pf config = .ok seed) : Declares config (datasetHashesOf config) := by
  unfold datasetHashesOf
  have hsome := contains_iff config "dataset_hash"
  rcases validateDatasetHash_ok (validateRunConfig_datasets h) with
    ⟨s, hs, hfilled⟩ | ⟨hnone, d, hd, hne, hnamed⟩
  · cases hg : config.get? "dataset_hash" with
    | none =>
      rw [Dict.get, hg] at hs
      cases hs
    | some v =>
      rw [hg] at hsome
      obtain rfl : v = .str s := by rw [Dict.get, hg] at hs; exact hs
      rw [if_pos (show config.contains "dataset_hash" = true from hsome), hs]
      exact .hash hs hfilled (by rw [declaresNull, hg]; rfl)
  · cases hg : config.get? "dataset_hash" with
    | none =>
      rw [hg] at hsome
      have hsec : Configs.section? config "datasets" = some d := by rw [Configs.section?, hd]
      rw [if_neg (by rw [hsome]; exact Bool.false_ne_true), hsec]
      exact .splits hnone hsec hne hnamed (by rw [declaresNull, hg]; rfl)
    | some v =>
      rw [hg] at hsome
      rw [if_pos (show config.contains "dataset_hash" = true from hsome), hnone]
      rw [Dict.get, hg] at hnone
      obtain rfl : v = .none := hnone
      exact .null (by rw [declaresNull, hg]; rfl)

/-! ## Knowing the data -/

theorem str_of_nonBlank {v : PyVal} (h : Configs.nonBlankStr v = true) :
    ∃ s, v = .str s ∧ s ≠ "" := by
  cases v with
  | str s =>
    refine ⟨s, rfl, ?_⟩
    rintro rfl
    cases h
  | _ => cases h

section Strict

open Comparator

variable {pf : Platform}

end Strict

/-! ## Two created runs -/

/-- `r` is the record of a run that `create_run` has returned for the config. -/
def CreatedWith (pf : Platform) (config : Dict) (r : RunRecord) : Prop :=
  ∃ name payloads env σ σ' runId,
    (createRun pf name config payloads).run (Session.exec env) σ = (.ok runId, σ') ∧
    σ'.ledger.store.run? runId = some r

theorem CreatedWith.hashes {pf : Platform} {config : Dict} {r : RunRecord}
    (h : CreatedWith pf config r) : Declares config (datasetHashesOf config) ∧
      ∃ s : StateStore, s.keepDict (datasetHashesOf config) = .ok r.datasetHashes := by
  obtain ⟨name, payloads, env, σ, σ', runId, hrun, hr⟩ := h
  have hwp := Session.run_of_wp (@alone_createRun_hashes .any pf name config payloads σ.ledger
    fun h => h) fun n => Admits.any_meets (env n)
  rw [hrun] at hwp
  obtain ⟨⟨seed, hseed⟩, r', hr', hd⟩ := hwp
  obtain rfl := Option.some.inj (hr'.symm.trans hr)
  exact ⟨declares_of_accepted hseed, _, hd⟩

/-- The record of a run without tasks, created on an empty store. -/
def createdOn (backend : Backend) (config : Dict) : Option RunRecord :=
  let (r, σ) := (createRun .bare "demo" config []).run (Session.exec (Answers.numbered 0))
    ⟨⟨.empty backend, []⟩, 0⟩
  r.toOption.bind σ.ledger.store.run?

theorem CreatedWith.of_run {pf : Platform} {config : Dict} {name : String} {payloads : List Dict}
    {env : Nat → Answers} {σ : Session} {out : Except PyExc RunId × Session} {r : RunRecord}
    (hout : (createRun pf name config payloads).run (Session.exec env) σ = out)
    (h : out.1.toOption.bind out.2.ledger.store.run? = some r) : CreatedWith pf config r := by
  obtain ⟨x, σ'⟩ := out
  cases x with
  | error e => cases h
  | ok runId => exact ⟨name, payloads, env, σ, σ', runId, hout, h⟩

end FineTuneHarness
