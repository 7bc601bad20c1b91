import FineTuneHarness.State.Models

/-!
# The JSON log

`JsonFormatter` copies the extra fields of a record into one JSON object. Of a `LogRecord` the
model keeps what `format` reads; the traceback and the stack are the texts that
`formatException` and `formatStack` give.
-/
namespace FineTuneHarness

/-- `_BUILTIN_ATTRS`. -/
def builtinAttrs : List String :=
  ["args", "created", "exc_info", "exc_text", "filename", "funcName", "levelname", "levelno",
    "lineno", "message", "module", "msecs", "msg", "name", "pathname", "process", "processName",
    "relativeCreated", "stack_info", "thread", "threadName", "taskName"]

def sensitiveWords : List String :=
  ["token", "secret", "password", "passwd", "passphrase", "credential", "credentials", "auth"]

def sensitiveFullKeys : List String :=
  ["api_key", "apikey", "private_key", "access_key", "auth_key", "auth_token", "bearer_token",
    "oauth_token", "root_pass", "db_pass", "user_pass", "admin_pass"]

def redacted : String := "[REDACTED]"

/-- `key.lower()`, as far as the two sets can tell: besides the capitals, the Kelvin sign is
the one character that becomes an ASCII letter on its own. -/
def lowerKey (key : String) : List Char :=
  key.toList.map fun c => if c.toNat = 0x212a then 'k' else c.toLower

/-- `_SPLIT_RE.split`. -/
def keyWords (key : List Char) : List (List Char) :=
  key.splitOnP fun c => c = '_' || c = '-' || c = '.'

/-- `_is_sensitive`. -/
def isSensitive (key : String) : Bool :=
  let k := lowerKey key
  sensitiveFullKeys.any (fun name => name.toList = k) ||
    (keyWords k).any fun word => sensitiveWords.any fun s => s.toList = word

example : ["HF_TOKEN", "db.password", "api_key", "author", "pass_rate"].map isSensitive =
    [true, true, true, false, false] := by decide +kernel

/-- What `_json_default` makes of an object of a foreign class, and `isoformat()`. -/
structure LogText where
  jsonDefault : PyVal → Except PyExc String
  isoformat : Instant → String

mutual

/-- `json.dumps(v, default=_json_default)`: keys stay where they are. -/
def PyVal.emit (tx : LogText) : PyVal → Except PyExc Json
  | .none => .ok .null
  | .bool b => .ok (.bool b)
  | .int i => .ok (.int i)
  | .float f => .ok (.float f)
  | .str s => .ok (.str s)
  | .list xs => (emitList tx xs).map .arr
  | .dict items => (emitItems tx items).map .obj
  | .mapping items => (tx.jsonDefault (.mapping items)).map .str
  | .obj cls truth => (tx.jsonDefault (.obj cls truth)).map .str

def emitList (tx : LogText) : List PyVal → Except PyExc (List Json)
  | [] => .ok []
  | v :: vs => do return (← v.emit tx) :: (← emitList tx vs)

def emitItems (tx : LogText) : List (PyKey × PyVal) → Except PyExc (List (String × Json))
  | [] => .ok []
  | (k, v) :: rest => do return (← k.jsonName, ← v.emit tx) :: (← emitItems tx rest)

end

/-- `extra` holds the attributes that the caller adds to the record. -/
structure LogRecord where
  created : Instant
  name : String
  levelname : String
  message : String
  extra : List (String × PyVal) := []
  keys : (extra.map (·.1)).Nodup := by simp
  excInfo : Option String := none
  stackInfo : Option String := none

namespace JsonFormatter

/-- A built-in attribute, or one with a leading underscore. -/
def skipped (key : String) : Bool := key ∈ builtinAttrs || key.toList.head? = some '_'

/-- One round of the loop over the attributes. -/
def addExtra (payload : Dict) (field : String × PyVal) : Dict :=
  if skipped field.1 then payload
  else payload.set field.1 (if isSensitive field.1 then .str redacted else field.2)

/-- `payload[key] = text`, if there is a text. -/
def addText (payload : Dict) (key : String) : Option String → Dict
  | some text => payload.set key (.str text)
  | none => payload

/-- The payload before `json.dumps`. -/
def payload (tx : LogText) (record : LogRecord) : Dict :=
  let base := Dict.ofList [("ts", .str (tx.isoformat record.created)), ("logger", .str record.name),
    ("level", .str record.levelname), ("message", .str record.message)]
  addText (addText (record.extra.foldl addExtra base) "exc" record.excInfo) "stack" record.stackInfo

def format (tx : LogText) (record : LogRecord) : Except PyExc Json :=
  (PyVal.dict (payload tx record)).emit tx

end JsonFormatter

/-! ## The record of a new run -/

/-- `asdict(run)`; the instants stand there as `_json_default` writes them. -/
def RunRecord.asdict (tx : LogText) (run : RunRecord) : Dict :=
  Dict.ofList [("run_id", .str run.runId), ("name", .str run.name), ("status", .str run.status.value),
    ("config", .dict run.config), ("created_at", .str (tx.isoformat run.createdAt)),
    ("env_snapshot", .dict run.envSnapshot),
    ("finished_at", (run.finishedAt.map fun t => PyVal.str (tx.isoformat t)).getD .none),
    ("seed", (run.seed.map PyVal.int).getD .none), ("dataset_hashes", .dict run.datasetHashes),
    ("config_hash", (run.configHash.map PyVal.str).getD .none)]

/-- The record that `create_run` logs. -/
def runCreatedLog (tx : LogText) (now : Instant) (run : RunRecord) (taskCount : Nat) : LogRecord where
  created := now
  name := "finetuneharness.runner"
  levelname := "INFO"
  message := "run_created"
  extra := [("run_id", .str run.runId), ("task_count", .int taskCount), ("config", .dict (run.asdict tx))]

end FineTuneHarness
