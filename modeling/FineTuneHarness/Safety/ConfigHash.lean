import FineTuneHarness.Safety.DatasetHashes
import FineTuneHarness.State.Reproducibility

/-!
# The hash of a config identifies it

`create_run` hashes the config before it stores it. As long as SHA-256 does not collide, two runs
carry one hash exactly if their configs are the same JSON value, whatever the order of members.
-/
namespace FineTuneHarness

open Library Library.JsonText

/-- A created run carries the hash of its config. -/
theorem CreatedWith.configHash {pf : Platform} {config : Dict} {r : RunRecord}
    (h : CreatedWith pf config r) :
    ∃ hash, canonicalJsonHash pf config = .ok hash ∧ r.configHash = some hash := by
  obtain ⟨name, payloads, env, σ, σ', runId, hrun, hr⟩ := h
  have hwp := Session.run_of_wp (@alone_createRun_hash .any pf name config payloads σ.ledger
    fun h => h) fun n => Admits.any_meets (env n)
  rw [hrun] at hwp
  obtain ⟨r', hash, hr', hconfig, hhash⟩ := hwp
  obtain rfl := Option.some.inj (hr'.symm.trans hr)
  exact ⟨hash, hconfig, hhash⟩

/-- SHA-256 tells the two texts apart, if they are different. -/
def NoCollision (sha256 : ByteArray → String) (x y : ByteArray) : Prop := sha256 x = sha256 y → x = y

/-- The config is the JSON object `v`. -/
structure IsJson (fl : Floats PyFloat) (config : Dict) (v : Value PyFloat) : Prop where
  value : (PyVal.dict config).jsonValue = some v
  hashable : Hashable fl v

/-- **`config_hash` identifies the configuration.** Whatever the floats are and however they are
spelled, two JSON values have one canonical hash exactly if they are the same up to the order of
members, at any depth; and that is when two runs created with them carry one `config_hash`. -/
theorem config_hash_identifies_config (sha256 : ByteArray → String) :
    (∀ {F : Type} (fl : Floats F) (v w : Value F), Hashable fl v → Hashable fl w →
      NoCollision sha256 (canonical fl v) (canonical fl w) →
      (canonicalHash fl sha256 v = canonicalHash fl sha256 w ↔ Same v w)) ∧
    ∀ (pf : Platform) (fl : Floats PyFloat) (a b : Dict) (v w : Value PyFloat),
      IsJson fl a v → IsJson fl b w → NoCollision sha256 (canonical fl v) (canonical fl w) →
      (canonicalJsonHash (pf.hashing fl sha256) a = canonicalJsonHash (pf.hashing fl sha256) b ↔
        Same v w) ∧
      ∀ ra rb, CreatedWith (pf.hashing fl sha256) a ra → CreatedWith (pf.hashing fl sha256) b rb →
        (ra.configHash = rb.configHash ↔ Same v w) := by
  constructor
  · intro F fl v w hv hw hsha
    exact canonicalHash_eq_iff sha256 hv hw hsha
  · intro pf fl a b v w ha hb hsha
    have hsame := canonicalHash_eq_iff sha256 ha.hashable hb.hashable hsha
    have hhasha : canonicalJsonHash (pf.hashing fl sha256) a = .ok (canonicalHash fl sha256 v) :=
      canonicalJsonHash_eq pf ha.value
    have hhashb : canonicalJsonHash (pf.hashing fl sha256) b = .ok (canonicalHash fl sha256 w) :=
      canonicalJsonHash_eq pf hb.value
    constructor
    · rw [hhasha, hhashb, Except.ok.injEq]
      exact hsame
    · intro ra rb hra hrb
      obtain ⟨x, hx, hrax⟩ := hra.configHash
      obtain ⟨y, hy, hrby⟩ := hrb.configHash
      obtain rfl := Except.ok.inj (hhasha.symm.trans hx)
      obtain rfl := Except.ok.inj (hhashb.symm.trans hy)
      rw [hrax, hrby, Option.some.injEq]
      exact hsame

/-! ## One config, written in two orders -/

def halvesSha256 (_ : ByteArray) : String :=
  "7c07d2de0e7be50429b00326ce7fe29368b65d7887dcb85cedb8db0d34f0a036"

/-- A config in one order; `turned` turns the order of its members, and of its executor's. -/
def orderedConfig (turned : Bool) : Dict :=
  let executor := Dict.ofList [("note", .str "a \"b\"\n"), ("rate", .float (.finite (1 / 2)))]
  let config := Dict.ofList [("project", .dict (Dict.ofList [("name", .str "demo")])),
    ("executor", .dict (if turned then executor.reverse else executor)),
    ("artifacts", .dict (Dict.ofList [("root", .str "out")])), ("seed", .int 42),
    ("dataset_hash", .str "sha256:demo")]
  if turned then config.reverse else config

def orderedValue (turned : Bool) : Value PyFloat :=
  let executor := [("note", .str "a \"b\"\n"), ("rate", .float (.finite (1 / 2)))]
  let config := [("project", .obj [("name", .str "demo")]),
    ("executor", .obj (if turned then executor.reverse else executor)),
    ("artifacts", .obj [("root", .str "out")]), ("seed", .int 42),
    ("dataset_hash", .str "sha256:demo")]
  .obj (if turned then config.reverse else config)

theorem orderedConfig_isJson (turned : Bool) :
    IsJson halves (orderedConfig turned) (orderedValue turned) := by
  cases turned
  · exact ⟨rfl, by decide +kernel, List.forall_mem_singleton.mpr halves_faithful⟩
  · exact ⟨rfl, by decide +kernel, List.forall_mem_singleton.mpr halves_faithful⟩

theorem orderedValue_same : Same (orderedValue false) (orderedValue true) := by
  have hexecutor : Same (Value.obj [("note", .str "a \"b\"\n"), ("rate", .float (PyFloat.finite (1 / 2)))])
      (.obj [("rate", .float (.finite (1 / 2))), ("note", .str "a \"b\"\n")]) :=
    .obj (List.Perm.swap _ _ _) (.cons (.refl _) (.cons (.refl _) .nil))
  exact .obj (List.reverse_perm _).symm (.cons (.refl _) (.cons (.refl _) (.cons (.refl _)
    (.cons hexecutor (.cons (.refl _) .nil)))))

/-- Two runs with the members in different orders carry one hash. -/
theorem config_hash_identifies_config_turned : ∃ ra rb,
    CreatedWith (Platform.bare.hashing halves halvesSha256) (orderedConfig false) ra ∧
    CreatedWith (Platform.bare.hashing halves halvesSha256) (orderedConfig true) rb ∧
    ra.configHash = rb.configHash := by
  have hcreated : ∀ turned, ∃ r,
      CreatedWith (Platform.bare.hashing halves halvesSha256) (orderedConfig turned) r := by
    intro turned
    have hsome : (let out := (createRun (Platform.bare.hashing halves halvesSha256) "demo"
        (orderedConfig turned) []).run (Session.exec (Answers.numbered 0)) ⟨⟨.empty .memory, []⟩, 0⟩
        (out.1.toOption.bind out.2.ledger.store.run?).isSome) = true := by
      cases turned <;> decide +kernel
    obtain ⟨r, hr⟩ := Option.isSome_iff_exists.mp hsome
    exact ⟨r, CreatedWith.of_run rfl hr⟩
  obtain ⟨ra, hra⟩ := hcreated false
  obtain ⟨rb, hrb⟩ := hcreated true
  have hone : canonical halves (orderedValue false) = canonical halves (orderedValue true) :=
    (canonical_eq_iff (orderedConfig_isJson false).hashable (orderedConfig_isJson true).hashable).mpr
      orderedValue_same
  have hidentifies := (config_hash_identifies_config halvesSha256).2 .bare halves _ _ _ _
    (orderedConfig_isJson false) (orderedConfig_isJson true) fun _ => hone
  exact ⟨ra, rb, hra, hrb, (hidentifies.2 ra rb hra hrb).mpr orderedValue_same⟩

end FineTuneHarness
