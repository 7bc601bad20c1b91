import FineTuneHarness.State.JsonColumn
import FineTuneHarness.State.Models

/-!
# The environment of a run

`capture_env_snapshot` writes down what it can find out about the machine. `Surroundings` is what
there is to find: a tool that is missing or fails has no answer.
-/
namespace FineTuneHarness

/-- What `torch` tells of a machine with a GPU. -/
structure TorchCuda where
  deviceCount : Int
  deviceName : Option String
  cudaVersion : Option String
  driver : Option String

structure Surroundings where
  pythonVersion : String
  platform : String
  harnessVersion : Option String
  packageVersion : String → Option String
  /-- The output of `git rev-parse HEAD`, if it succeeds. -/
  gitHead : Option String
  gitBranch : Option String
  /-- Whether `git diff --quiet HEAD` exits with another code than 0, if it can be started. -/
  gitDiffers : Option Bool
  /-- The hash of the output of `git diff HEAD`, if it succeeds. -/
  gitDiffHash : Option String
  /-- Whether `/.dockerenv` exists. -/
  dockerenv : Bool
  /-- `os.environ.get`. -/
  env : String → Option String
  hostname : Option String
  /-- `platform.processor() or platform.machine()`. -/
  cpu : Option String
  memoryGb : Option PyFloat
  cuda : Option TorchCuda

namespace Surroundings

variable (m : Surroundings)

def trackedPackages : List String :=
  ["torch", "torchvision", "torchaudio", "transformers", "tokenizers", "accelerate", "peft", "trl",
    "datasets", "evaluate", "bitsandbytes", "flash-attn", "einops", "numpy", "scipy", "safetensors",
    "sentencepiece", "protobuf", "wandb", "mlflow", "scikit-learn", "finetuneharness"]

def installedPackages : List (String × PyVal) :=
  trackedPackages.filterMap fun name => (m.packageVersion name).map fun v => (name, .str v)

/-- `text.strip()`. -/
def stripped (text : String) : String := String.ofList (PyVal.strip text)

/-- An item, where there is something to write down. -/
def item (name : String) (x : Option PyVal) : List (String × PyVal) :=
  match x with
  | none => []
  | some v => [(name, v)]

/-- `_git_info`. Nothing is known of the tree where the commit is not. -/
def gitInfo : List (String × PyVal) :=
  match m.gitHead with
  | none => []
  | some head =>
    ("git_commit", .str (stripped head)) :: item "git_branch" (m.gitBranch.map fun b => .str (stripped b)) ++
      match m.gitDiffers with
      | none => []
      | some dirty =>
        ("git_dirty", .bool dirty) ::
          if dirty then item "git_diff_hash" (m.gitDiffHash.map .str) else []

/-- `os.environ.get(a) or os.environ.get(b)`, where it is true. -/
def envOr (a b : String) : Option String :=
  match (m.env a).filter (· ≠ "") with
  | some v => some v
  | none => (m.env b).filter (· ≠ "")

/-- The image of an Apptainer or a Singularity container. -/
def apptainerImage : Option String := m.envOr "APPTAINER_CONTAINER" "SINGULARITY_CONTAINER"

/-- `_container_info`. -/
def containerInfo : List (String × PyVal) :=
  if m.dockerenv then
    ("engine", .str "docker") ::
      item "digest" ((m.envOr "IMAGE_DIGEST" "DOCKER_IMAGE_DIGEST").map .str) ++
      item "image" ((m.envOr "IMAGE_NAME" "DOCKER_IMAGE").map .str)
  else
    match m.apptainerImage with
    | some image => [("engine", .str "apptainer"), ("image", .str image)] ++
        item "digest" ((m.envOr "APPTAINER_IMAGE_DIGEST" "SINGULARITY_IMAGE_DIGEST").map .str)
    | none => [("engine", .str "none")]

/-- `_hardware_info`. What fails ends its part of the search. -/
def hardwareInfo : List (String × PyVal) :=
  (match m.hostname with
  | none => []
  | some name =>
    ("hostname", .str name) ::
      match m.cpu with
      | none => []
      | some cpu =>
        item "cpu" ((some cpu).filter (· ≠ "") |>.map .str) ++
          item "memory_gb" (m.memoryGb.map .float)) ++
  match m.cuda with
  | none => []
  | some gpu =>
    ("gpu_count", .int gpu.deviceCount) ::
      match gpu.deviceName with
      | none => []
      | some name => ("gpu_name", .str name) :: item "gpu_driver_version" (gpu.driver.map .str)

/-- `_cuda_info`. -/
def cudaInfo : List (String × PyVal) :=
  match m.cuda.bind fun gpu => gpu.deviceName.map fun name => (gpu, name) with
  | none => []
  | some (gpu, name) =>
    [("device_count", .int gpu.deviceCount), ("device_name", .str name),
      ("cuda_version", (gpu.cudaVersion.map .str).getD .none)]

/-- `_determinism_env`. The harness forces determinism before every task, and says so. -/
def determinismEnv : List (String × PyVal) :=
  (["CUBLAS_WORKSPACE_CONFIG", "CUDA_LAUNCH_BLOCKING", "PYTHONHASHSEED"].map fun v =>
    (v, ((m.env v).map .str).getD .none)) ++ [("harness_enforces_determinism", .bool true)]

/-- A section, where it has items. -/
def dictItem (name : String) (items : List (String × PyVal)) : List (String × PyVal) :=
  if items.isEmpty then [] else [(name, .dict (Dict.ofList items))]

def captureEnvSnapshot : Dict :=
  Dict.ofList <|
    [("python_version", .str m.pythonVersion), ("platform", .str m.platform),
      ("harness_version", .str (m.harnessVersion.getD "dev")),
      ("packages", .dict (Dict.ofList m.installedPackages))] ++
    m.gitInfo ++ dictItem "container" m.containerInfo ++ dictItem "hardware" m.hardwareInfo ++
    dictItem "cuda" m.cudaInfo ++ [("determinism_env", .dict (Dict.ofList m.determinismEnv))]

/-! ## What the snapshot says -/

/-- The commit the snapshot names. -/
def commit? : Option String := m.gitHead.map stripped

/-- Whether the snapshot says that the tree differs from the commit. -/
def dirty? : Option Bool := m.gitHead.bind fun _ => m.gitDiffers

/-- The hash of the differences, where there are any. -/
def diffHash? : Option String := if m.dirty? = some true then m.gitDiffHash else none

/-- The digest of the container. -/
def digest? : Option String :=
  if m.dockerenv then m.envOr "IMAGE_DIGEST" "DOCKER_IMAGE_DIGEST"
  else m.apptainerImage.bind fun _ => m.envOr "APPTAINER_IMAGE_DIGEST" "SINGULARITY_IMAGE_DIGEST"

/-- The image of the container. -/
def image? : Option String :=
  if m.dockerenv then m.envOr "IMAGE_NAME" "DOCKER_IMAGE" else m.apptainerImage

theorem envOr_ne {a b v : String} (h : m.envOr a b = some v) : v ≠ "" := by
  unfold envOr at h
  split at h
  next w hw =>
    obtain rfl := Option.some.inj h
    simpa using (Option.filter_eq_some_iff.mp hw).2
  next => simpa using (Option.filter_eq_some_iff.mp h).2

theorem digest?_ne {v : String} (h : m.digest? = some v) : v ≠ "" := by
  unfold digest? at h
  split at h
  · exact m.envOr_ne h
  · obtain ⟨image, -, h⟩ := Option.bind_eq_some_iff.mp h
    exact m.envOr_ne h

theorem image?_ne {v : String} (h : m.image? = some v) : v ≠ "" := by
  unfold image? at h
  split at h
  · exact m.envOr_ne h
  · exact m.envOr_ne h

/-- A dictionary that answers as the container section of the snapshot does. -/
structure Contained (d : Dict) : Prop where
  digest : d.get? "digest" = m.digest?.map .str
  image : d.get? "image" = m.image?.map .str

/-- A dictionary that answers as the determinism section does. -/
structure Forces (d : Dict) : Prop where
  forced : d.get? "harness_enforces_determinism" = some (.bool true)
  cublas : d.get? "CUBLAS_WORKSPACE_CONFIG" =
    some (((m.env "CUBLAS_WORKSPACE_CONFIG").map .str).getD .none)
  blocking : d.get? "CUDA_LAUNCH_BLOCKING" =
    some (((m.env "CUDA_LAUNCH_BLOCKING").map .str).getD .none)

/-- A dictionary that answers as the snapshot does, where a run is assessed by it. -/
structure Captured (d : Dict) : Prop where
  commit : d.get? "git_commit" = m.commit?.map .str
  dirty : d.get? "git_dirty" = m.dirty?.map .bool
  diffHash : d.get? "git_diff_hash" = m.diffHash?.map .str
  container : ∃ c, d.get? "container" = some (.dict c) ∧ m.Contained c
  determinism : ∃ c, d.get? "determinism_env" = some (.dict c) ∧ m.Forces c

variable {m}

theorem get?_ofList (items : List (String × PyVal)) (k : String) :
    (Dict.ofList items).get? k = (items.find? fun kv => kv.1 = k).map (·.2) := by
  rw [Dict.get?, Dict.ofList, List.find?_map, Option.map_map]
  simp only [Function.comp_def, PyKey.str.injEq]

theorem find?_dictItem {name k : String} {items : List (String × PyVal)} :
    ((dictItem name items).find? fun kv => kv.1 = k) =
      if name = k ∧ items.isEmpty = false then some (name, .dict (Dict.ofList items)) else none := by
  unfold dictItem
  by_cases hk : name = k <;> cases items <;> simp [hk]

theorem find?_gitInfo {k : String} (hk : k ∉ ["git_commit", "git_branch", "git_dirty", "git_diff_hash"]) :
    (m.gitInfo.find? fun kv => kv.1 = k) = none := by
  simp only [List.mem_cons, List.not_mem_nil, or_false, not_or] at hk
  rw [List.find?_eq_none]
  intro kv hkv
  have hname : kv.1 ∈ ["git_commit", "git_branch", "git_dirty", "git_diff_hash"] := by
    revert hkv
    unfold gitInfo item
    cases m.gitHead <;> cases m.gitBranch <;> cases m.gitDiffers <;> cases m.gitDiffHash <;>
      simp <;> grind
  simp only [List.mem_cons, List.not_mem_nil, or_false] at hname
  grind

/-- What git has found out is looked up in the snapshot as it is among the findings. -/
theorem get?_git {k : String} (hk : k ∈ ["git_commit", "git_branch", "git_dirty", "git_diff_hash"]) :
    m.captureEnvSnapshot.get? k = (m.gitInfo.find? fun kv => kv.1 = k).map (·.2) := by
  have hnames : k ≠ "python_version" ∧ k ≠ "platform" ∧ k ≠ "harness_version" ∧ k ≠ "packages" ∧
      k ≠ "container" ∧ k ≠ "hardware" ∧ k ≠ "cuda" ∧ k ≠ "determinism_env" := by
    simp only [List.mem_cons, List.not_mem_nil, or_false] at hk
    rcases hk with rfl | rfl | rfl | rfl <;> decide
  obtain ⟨h₁, h₂, h₃, h₄, h₅, h₆, h₇, h₈⟩ := hnames
  rw [captureEnvSnapshot, get?_ofList]
  simp [List.find?_append, find?_dictItem, Ne.symm h₁, Ne.symm h₂, Ne.symm h₃, Ne.symm h₄, Ne.symm h₅,
    Ne.symm h₆, Ne.symm h₇, Ne.symm h₈]

theorem get?_container : m.captureEnvSnapshot.get? "container" =
    some (.dict (Dict.ofList m.containerInfo)) := by
  have hcontainer : m.containerInfo.isEmpty = false := by
    unfold containerInfo
    split
    · rfl
    · split <;> rfl
  rw [captureEnvSnapshot, get?_ofList]
  simp [List.find?_append, find?_dictItem, find?_gitInfo, hcontainer]

theorem get?_determinism : m.captureEnvSnapshot.get? "determinism_env" =
    some (.dict (Dict.ofList m.determinismEnv)) := by
  rw [captureEnvSnapshot, get?_ofList]
  simp [List.find?_append, find?_dictItem, find?_gitInfo]

theorem contained : m.Contained (Dict.ofList m.containerInfo) where
  digest := by
    rw [get?_ofList]
    unfold containerInfo digest? item
    cases m.dockerenv with
    | true => cases m.envOr "IMAGE_DIGEST" "DOCKER_IMAGE_DIGEST" <;>
        cases m.envOr "IMAGE_NAME" "DOCKER_IMAGE" <;> rfl
    | false =>
      cases m.apptainerImage with
      | none => rfl
      | some image => cases m.envOr "APPTAINER_IMAGE_DIGEST" "SINGULARITY_IMAGE_DIGEST" <;> rfl
  image := by
    rw [get?_ofList]
    unfold containerInfo image? item
    cases m.dockerenv with
    | true => cases m.envOr "IMAGE_DIGEST" "DOCKER_IMAGE_DIGEST" <;>
        cases m.envOr "IMAGE_NAME" "DOCKER_IMAGE" <;> rfl
    | false => cases m.apptainerImage <;> rfl

theorem forces : m.Forces (Dict.ofList m.determinismEnv) := ⟨rfl, rfl, rfl⟩

/-- **The snapshot says what there is to find.** -/
theorem captured : m.Captured m.captureEnvSnapshot where
  commit := by
    rw [get?_git (by decide)]
    unfold gitInfo commit?
    cases m.gitHead <;> rfl
  dirty := by
    rw [get?_git (by decide)]
    unfold gitInfo dirty? item
    cases m.gitHead <;> cases m.gitBranch <;> cases m.gitDiffers <;> rfl
  diffHash := by
    rw [get?_git (by decide)]
    unfold gitInfo diffHash? dirty? item
    cases m.gitHead <;> cases m.gitBranch <;> rcases m.gitDiffers with _ | _ | _ <;>
      cases m.gitDiffHash <;> rfl
  container := ⟨_, get?_container, contained⟩
  determinism := ⟨_, get?_determinism, forces⟩

end Surroundings

/-! ## After a JSON column -/

section Column

variable {d d' : Dict} {k : String}

/-- A value that JSON gives back as it was is found as it was. -/
theorem Dict.throughJson_same (hk : d.stringKeys = true) (h : d.throughJson = .ok d')
    {x : Option PyVal} (hx : d.get? k = x) (hflat : ∀ v, x = some v → ∃ j, v.dumps = .ok j ∧ j.loads = v) :
    d'.get? k = x := by
  have hread := Dict.throughJson_get? hk h k
  rw [hx] at hread
  generalize d'.get? k = x' at hread ⊢
  cases hread with
  | none => rfl
  | @some v v' hv =>
    obtain ⟨j, hj, rfl⟩ := hv
    obtain ⟨j', hj', hloads⟩ := hflat v rfl
    obtain rfl := Except.ok.inj (hj.symm.trans hj')
    rw [hloads]

theorem Dict.throughJson_text (hk : d.stringKeys = true) (h : d.throughJson = .ok d')
    {x : Option String} (hx : d.get? k = x.map .str) : d'.get? k = x.map .str := by
  apply Dict.throughJson_same hk h hx
  intro v hv
  obtain ⟨s, -, rfl⟩ := Option.map_eq_some_iff.mp hv
  exact ⟨.str s, rfl, rfl⟩

/-- A dictionary in a dictionary goes through JSON with it. -/
theorem Dict.throughJson_section (hk : d.stringKeys = true) (h : d.throughJson = .ok d') {c : Dict}
    (hx : d.get? k = some (.dict c)) : ∃ c', d'.get? k = some (.dict c') ∧ c.throughJson = .ok c' := by
  have hread := Dict.throughJson_get? hk h k
  rw [hx] at hread
  generalize d'.get? k = x' at hread ⊢
  cases hread with
  | some hv =>
    obtain ⟨j, hj, rfl⟩ := hv
    obtain ⟨members, rfl⟩ := PyVal.dumps_dict hj
    refine ⟨loadsItems members, rfl, ?_⟩
    rw [Dict.throughJson, hj]
    rfl

end Column

namespace Surroundings

variable {m : Surroundings}

theorem stringKeys_ofList (items : List (String × PyVal)) : (Dict.ofList items).stringKeys = true := by
  simp [Dict.stringKeys, Dict.ofList, PyKey.isStr]

/-- **The snapshot says the same once it has been stored.** -/
theorem captured_throughJson {d : Dict} (h : m.captureEnvSnapshot.throughJson = .ok d) :
    m.Captured d := by
  have hkeys : ∀ items, (Dict.ofList items).stringKeys = true := stringKeys_ofList
  have henv : ∀ name v, some (((m.env name).map .str).getD .none) = some v →
      ∃ j, PyVal.dumps v = .ok j ∧ j.loads = v := by
    intro name v hv
    obtain rfl := Option.some.inj hv
    cases m.env name with
    | none => exact ⟨.null, rfl, rfl⟩
    | some text => exact ⟨.str text, rfl, rfl⟩
  obtain ⟨c, hc, hcolumn⟩ := Dict.throughJson_section (hkeys _) h get?_container
  obtain ⟨f, hf, hforced⟩ := Dict.throughJson_section (hkeys _) h get?_determinism
  constructor
  · exact Dict.throughJson_text (hkeys _) h captured.commit
  · apply Dict.throughJson_same (hkeys _) h captured.dirty
    intro v hv
    obtain ⟨b, -, rfl⟩ := Option.map_eq_some_iff.mp hv
    exact ⟨.bool b, rfl, rfl⟩
  · exact Dict.throughJson_text (hkeys _) h captured.diffHash
  · exact ⟨c, hc, Dict.throughJson_text (hkeys _) hcolumn contained.digest,
      Dict.throughJson_text (hkeys _) hcolumn contained.image⟩
  · refine ⟨f, hf, ?_, ?_, ?_⟩
    · apply Dict.throughJson_same (hkeys _) hforced forces.forced
      intro v hv
      obtain rfl := Option.some.inj hv
      exact ⟨.bool true, rfl, rfl⟩
    · exact Dict.throughJson_same (hkeys _) hforced forces.cublas (henv _)
    · exact Dict.throughJson_same (hkeys _) hforced forces.blocking (henv _)

end Surroundings

end FineTuneHarness
