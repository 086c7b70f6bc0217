import OmiLocal.Providers.Profile

/-!
# The engine file before the registry

`EngineConfig.load` as the legacy import calls it: no registry and no pinned
profile, so the settings are those of `stt-engine.json`, completed with the
defaults of the engine and of the class.
-/
namespace OmiLocal.Providers
open Lib.Json

/-- What the import reads from the machine: the two old files and the installed runtimes. -/
structure Runtime where
  /-- Each old file is absent or a JSON object of at most 2 MiB. -/
  readable : Bool
  engineFile : Option Fields
  liveFile : Option Fields
  repoRoot : Option String
  managed : Bool
  managedPython : Option String
  managedAssets : String
  fingerprint : String
  expanduser : String → String
  whisperkitRevision : String → String

def isText (text : String) (value : Option Value) : Bool :=
  match value with
  | some (.str s) => s == text
  | _ => false

def getText (key default : String) (data : Fields) : Value := (field key data).getD (.str default)

/-- `{**first, **second}`. -/
def merge (first second : Fields) : Fields :=
  second.foldl (fun data f => setField f.1 f.2 data) first

def whisperkitModel : String := "openai_whisper-large-v3-v20240930_626MB"

def classDefaults : Fields :=
  [("speaker_revision", .str "exclusive-v1"), ("speaker_model", .str ""), ("speaker_python", .str ""),
    ("speaker_device", .str "cpu"), ("speaker_threads", .int 4), ("speaker_count", .int 0),
    ("provider_url", .str ""), ("engine", .str "whisperx"), ("model", .str "large-v3-turbo"),
    ("language", .str "ru"), ("compute_type", .str "float32"), ("batch_size", .int 1), ("python", .str ""),
    ("library_path", .str ""), ("assets_path", .str ""), ("runtime_revision", .str ""),
    ("device", .str "cpu"), ("chunk_duration", .int 60), ("overlap_duration", .int 5),
    ("diarization_model", .str "pyannote/speaker-diarization-community-1"), ("pipeline", .null),
    ("credential_store", .null)]

def managedRuntime (py : Python) (rt : Runtime) (data : Fields) : Option Fields :=
  let standard := data.isEmpty ∨ (isText "large-v3-turbo" (some (getText "model" "large-v3-turbo" data)) ∧
    isText "ru" (some (getText "language" "ru" data)) ∧ isText "none" (field "diarization_model" data))
  if standard ∧ isText "whisperx" (some (getText "engine" "whisperx" data)) ∧
      ¬ truthy py (getText "python" "" data) ∧ rt.managed then
    rt.managedPython.map fun python =>
      merge (merge [("diarization_model", .str "none")] data)
        [("python", .str python), ("assets_path", .str rt.managedAssets),
          ("runtime_revision", .str rt.fingerprint)]
  else some data

def whisperkitRuntime (py : Python) (rt : Runtime) (data : Fields) : Option Fields := do
  let root ← match truthy py (getText "assets_path" "" data), field "assets_path" data with
    | true, some (.str assets) => some (rt.expanduser assets)
    | true, _ => none
    | false, _ => rt.repoRoot.map (· ++ "/.local/whisperkit")
  return merge (merge [("model", .str whisperkitModel), ("device", .str "cpuAndNeuralEngine"),
      ("diarization_model", .str "none")] data)
    [("assets_path", .str root), ("runtime_revision", .str (rt.whisperkitRevision root))]

/-- `local_openai_stt.validate_url` as a check. -/
def localSttUrl (py : Python) : Value → Bool
  | .str value =>
      match urlsplit py value with
      | none => false
      | some url =>
          url.scheme == "http" && url.hostname py == some "127.0.0.1" && (url.port.join.getD 0 != 0) &&
            rstripSlash url.path == "/v1" && url.query == "" && url.fragment == "" && !url.hasUser
  | _ => false

def resolve (py : Python) (rt : Runtime) (data : Fields) : Option Fields := do
  let data ← managedRuntime py rt data
  let data := if isText "parakeet-mlx" (field "engine" data) then
      merge [("model", .str "mlx-community/parakeet-tdt-0.6b-v3"), ("language", .str "auto"),
        ("device", .str "gpu")] data
    else data
  let data ← if isText "whisperkit" (field "engine" data) then whisperkitRuntime py rt data else some data
  let data ← if isText "openai-compatible" (field "engine" data) then
      let data := merge [("language", .str "auto"), ("device", .str "server"),
        ("diarization_model", .str "none")] data
      if localSttUrl py (getText "provider_url" "" data) then some data else none
    else some data
  let data := match truthy py (getText "speaker_model" "" data), truthy py (getText "speaker_python" "" data),
      rt.repoRoot with
    | true, false, some root =>
        setField "speaker_python" (.str (root ++ "/.local/diarization/venv/bin/python")) data
    | _, _, _ => data
  if data.all (fun f => (field f.1 classDefaults).isSome) then some (merge classDefaults data) else none

def boundedInt (low high : Int) (value : Option Value) : Bool :=
  match value with
  | some (.int n) => decide (low ≤ n ∧ n ≤ high)
  | _ => false

def textIn (options : List String) (value : Option Value) : Bool :=
  match value with
  | some (.str s) => s ∈ options
  | _ => false

def modelText (value : Option Value) : Bool :=
  match value with
  | some (.str s) => s.toList ≠ [] && s.toList.all (fun c =>
      (c.isAlphanum && c.toNat < 128) || c == '_' || c == '.' || c == '/' || c == '-')
  | _ => false

def languageOk (value : Option Value) : Bool :=
  match value with
  | some (.str s) => languageCode s || s == "auto"
  | _ => false

/-- The checks of `load` that hold for every engine. -/
def generalChecks (py : Python) (engine : Fields) : Bool :=
  isText "exclusive-v1" (field "speaker_revision" engine) &&
  (!truthy py (getText "speaker_model" "" engine) || textIn speakerModels (field "speaker_model" engine)) &&
  textIn ["cpu", "mps"] (field "speaker_device" engine) &&
  boundedInt 1 16 (field "speaker_threads" engine) && boundedInt 0 32 (field "speaker_count" engine) &&
  (!truthy py (getText "speaker_model" "" engine) || isText "none" (field "diarization_model" engine)) &&
  modelText (field "model" engine) && languageOk (field "language" engine) &&
  textIn ["float32", "int8", "int8_float32"] (field "compute_type" engine) &&
  boundedInt 1 8 (field "batch_size" engine)

def embeddedModels : List String := ["pyannote/speaker-diarization-community-1", "none"]

def engineChecks (py : Python) (kind : Kind) (engine : Fields) : Bool :=
  match kind with
  | .openaiCompatible =>
      isText "server" (field "device" engine) && isText "none" (field "diarization_model" engine)
  | .whisperkit =>
      isText whisperkitModel (field "model" engine) && isText "cpuAndNeuralEngine" (field "device" engine) &&
      isText "none" (field "diarization_model" engine) && !truthy py (getText "python" "" engine) &&
      !truthy py (getText "library_path" "" engine)
  | .parakeetMlx =>
      isText "float32" (field "compute_type" engine) && isText "gpu" (field "device" engine) &&
      isText "auto" (field "language" engine) && boundedInt 10 60 (field "chunk_duration" engine) &&
      boundedInt 1 ((intField "chunk_duration" engine).getD 0 - 1) (field "overlap_duration" engine) &&
      textIn embeddedModels (field "diarization_model" engine)
  | .whisperx =>
      !isText "auto" (field "language" engine) && isText "cpu" (field "device" engine) &&
      textIn embeddedModels (field "diarization_model" engine)
  | _ => false

def engineKind (engine : Fields) : Option Kind :=
  [Kind.whisperx, .parakeetMlx, .whisperkit, .openaiCompatible].find?
    (fun kind => isText kind.name (field "engine" engine))

/-- `EngineConfig.load(cfg)` without a registry: the engine's kind and attributes. -/
def loadEngine (py : Python) (rt : Runtime) : Option (Kind × Fields) := do
  let engine ← resolve py rt (rt.engineFile.getD [])
  let kind ← engineKind engine
  if generalChecks py engine ∧ engineChecks py kind engine then some (kind, engine) else none

end OmiLocal.Providers
