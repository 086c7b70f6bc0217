import OmiLocal.Providers.Atomicity

/-!
# Jobs and their engine

`EngineConfig.load` and `profile` in full, and the reload of `Worker.tick`. A
job keeps the profile that its recording was admitted with, less the fields
that the engine does not need; the reload completes it from the settings of the
day, from the pipeline in the profile and from the defaults. `none` is any
exception.
-/
namespace OmiLocal.Providers
open Lib.Json Lib.Text

/-- What a load reads: the installed runtimes, the value of `stt-engine.json` (an empty object without the file) and the
registry. `some none` is a registry that cannot be read, else its selections are given. -/
structure Place where
  runtime : Runtime
  settings : Option Value
  registry : Option (Option Fields)

/-- `registry.pipeline()`, or `None` without a registry. -/
def Place.pipeline (place : Place) : Option Value :=
  match place.registry with
  | none => some .null
  | some none => none
  | some (some effective) =>
      some (.obj (["stt", "diarization", "summary"].map fun stage => (stage, (field stage effective).getD .null)))

/-! ## Loading -/

/-- The pairs that `dict.update` takes from a value. A key that is no text makes the load fail later on. -/
def pairOf : Value → Option (String × Value)
  | .arr [.str key, value] => some (key, value)
  | .obj [(key, _), (value, _)] => some (key, .str value)
  | .str text =>
      match text.toList with
      | [key, value] => some (String.singleton key, .str (String.singleton value))
      | _ => none
  | _ => none

def pairsOf : Value → Option Fields
  | .obj fields => some fields
  | .arr items => items.mapM pairOf
  | .str "" => some []
  | _ => none

def asObject : Option Value → Option Fields
  | some (.obj fields) => some fields
  | _ => none

/-- The selected diarization stage decides whether speakers run. -/
def diarizationStage (py : Python) (diarization : Value) (data : Fields) : Option Fields :=
  let data := merge data [("diarization_model", .str "none"), ("speaker_model", .str "")]
  match diarization with
  | .null => some data
  | .obj stage =>
      if truthy py ((field "embedded" stage).getD (.bool false)) then
        if textIn ["whisperx", "parakeet-mlx"] (field "engine" data) then do
          let settings ← asObject (field "settings" stage)
          let model ← field "speaker_model" settings
          return setField "diarization_model" model data
        else none
      else do
        let kind ← field "kind" stage
        if isText "pyannote" (some kind) then do
          let settings ← (field "settings" stage).bind pairsOf
          return merge data settings
        else some data
  | _ => none

/-- Stands for the registry object. -/
def registryStore : Value := .str "providers.json"

/-- The settings of the selected transcription provider. -/
def sttData (pipeline : Value) : Option Fields := do
  let stages ← asObject (some pipeline)
  let stt ← asObject (field "stt" stages)
  let settings ← asObject (field "settings" stt)
  let kind ← field "kind" stt
  return merge (merge [("diarization_model", .str "none")] settings) [("engine", kind), ("pipeline", pipeline)]

def diarizationOf : Value → Value
  | .obj stages => (field "diarization" stages).getD .null
  | _ => .null

def pipelineData (py : Python) (pipeline : Value) (profile : Option Fields) : Option Fields := do
  let data ← sttData pipeline
  let data ← diarizationStage py (diarizationOf pipeline) (merge data (profile.getD []))
  return setField "credential_store" registryStore data

def speakerDefaults : Fields :=
  [("speaker_model", .str ""), ("speaker_device", .str "cpu"), ("speaker_count", .int 0), ("speaker_threads", .int 4)]

/-- Without a pipeline: the settings of today count for a job only when they are of its engine. -/
def legacyData (data : Fields) : Option Fields → Option Fields
  | none => some data
  | some profile =>
      match field "engine" profile with
      | some (.str engine) =>
          let kept := if isText engine (some (getText "engine" "whisperx" data)) then data else []
          some (merge (merge kept speakerDefaults) profile)
      | _ => none

def parakeetStage (data : Fields) : Fields :=
  if isText "parakeet-mlx" (field "engine" data) then
    merge [("model", .str "mlx-community/parakeet-tdt-0.6b-v3"), ("language", .str "auto"), ("device", .str "gpu")] data
  else data

def whisperkitStage (py : Python) (rt : Runtime) (data : Fields) : Option Fields :=
  if isText "whisperkit" (field "engine" data) then whisperkitRuntime py rt data else some data

def serverStage (urlOk : Value → Bool) (data : Fields) : Option Fields :=
  if isText "openai-compatible" (field "engine" data) then
    let data := merge [("language", .str "auto"), ("device", .str "server"), ("diarization_model", .str "none")] data
    if urlOk (getText "provider_url" "" data) then some data else none
  else some data

def speakerStage (py : Python) (rt : Runtime) (data : Fields) : Fields :=
  match truthy py (getText "speaker_model" "" data), truthy py (getText "speaker_python" "" data), rt.repoRoot with
  | true, false, some root => setField "speaker_python" (.str (root ++ "/.local/diarization/venv/bin/python")) data
  | _, _, _ => data

/-- The call of the class, which knows these attributes only. -/
def attributes (data : Fields) : Option Fields :=
  if data.all (fun f => (field f.1 classDefaults).isSome) then some (merge classDefaults data) else none

/-- The runtime and the defaults of the engine, up to the attributes of the class. -/
def complete (py : Python) (rt : Runtime) (urlOk : Value → Bool) (data : Fields) : Option Fields := do
  let data ← managedRuntime py rt data
  let data ← whisperkitStage py rt (parakeetStage data)
  let data ← serverStage urlOk data
  attributes (speakerStage py rt data)

/-- The import of the old settings completes them in the same way. -/
theorem resolve_eq (py : Python) (rt : Runtime) (data : Fields) : resolve py rt data = complete py rt (localSttUrl py) data := by
  unfold resolve complete
  cases managedRuntime py rt data with
  | none => rfl
  | some first =>
      simp only [Option.bind_eq_bind, Option.bind_some, parakeetStage, whisperkitStage, serverStage, attributes, speakerStage]
      split
      · split
        · congr 1
          funext data
          split
          · split <;> rfl
          · rfl
        · rw [Option.bind_some]
          split
          · split <;> rfl
          · rfl
      · split
        · congr 1
          funext data
          split
          · split <;> rfl
          · rfl
        · rw [Option.bind_some]
          split
          · split <;> rfl
          · rfl

/-- A server of the registry may name its model as it likes. -/
def serverModel (py : Python) : Option Value → Bool
  | some (.str model) =>
      0 < model.toList.length && model.toList.length ≤ 256 && strip model != "" && model.toList.all py.isprintable
  | _ => false

def speakerChecks (py : Python) (engine : Fields) : Bool :=
  isText "exclusive-v1" (field "speaker_revision" engine) &&
  (!truthy py (getText "speaker_model" "" engine) || textIn speakerModels (field "speaker_model" engine)) &&
  textIn ["cpu", "mps"] (field "speaker_device" engine) &&
  boundedInt 1 16 (field "speaker_threads" engine) && boundedInt 0 32 (field "speaker_count" engine) &&
  (!truthy py (getText "speaker_model" "" engine) || isText "none" (field "diarization_model" engine))

def settingsChecks (engine : Fields) : Bool :=
  languageOk (field "language" engine) &&
  textIn ["float32", "int8", "int8_float32"] (field "compute_type" engine) && boundedInt 1 8 (field "batch_size" engine)

/-- The providers of a job stay those of its profile. -/
def snapshot (place : Place) : Option Fields → Option Value
  | some profile => some ((field "pipeline" profile).getD .null)
  | none => place.pipeline

/-- The settings to complete. -/
def source (py : Python) (settings pipeline : Value) (profile : Option Fields) : Option Fields :=
  if isNull (some pipeline) then (asObject (some settings)).bind fun data => legacyData data profile
  else pipelineData py pipeline profile

def providerUrl (py : Python) (pipeline url : Value) : Bool :=
  if isNull (some pipeline) then localSttUrl py url else (validateUrl py false url).isSome

def modelOk (py : Python) (pipeline : Value) (kind : Kind) (engine : Fields) : Bool :=
  if !isNull (some pipeline) && kind == .openaiCompatible then serverModel py (field "model" engine)
  else modelText (field "model" engine)

/-- `EngineConfig.load`: the attributes of the engine. -/
def loadPinned (py : Python) (place : Place) (profile : Option Fields) : Option Fields := do
  let settings ← place.settings
  let pipeline ← snapshot place profile
  let data ← source py settings pipeline profile
  let engine ← complete py place.runtime (providerUrl py pipeline) data
  let kind ← engineKind engine
  if speakerChecks py engine ∧ modelOk py pipeline kind engine ∧ settingsChecks engine ∧ engineChecks py kind engine then
    some engine
  else none

/-! ## Profiles -/

def getAttr (key : String) (engine : Fields) : Value := (field key engine).getD .null

/-- The fields that `profile` leaves out. -/
def excluded (py : Python) (engine : Fields) : List String :=
  ["python", "library_path", "assets_path", "speaker_python", "credential_store"] ++
  (if isNull (field "pipeline" engine) then ["pipeline"] else []) ++
  (if truthy py (getAttr "speaker_model" engine) then []
    else ["speaker_revision", "speaker_model", "speaker_device", "speaker_threads", "speaker_count"]) ++
  (if isText "openai-compatible" (field "engine" engine) then
      ["compute_type", "batch_size", "chunk_duration", "overlap_duration"]
    else ["provider_url"]) ++
  (if truthy py (getAttr "runtime_revision" engine) then [] else ["runtime_revision"]) ++
  (if isText "whisperx" (field "engine" engine) then
      ["device", "chunk_duration", "overlap_duration"] ++
        (if isText "none" (field "diarization_model" engine) then [] else ["diarization_model"])
    else []) ++
  (if isText "whisperkit" (field "engine" engine) then
      ["compute_type", "batch_size", "chunk_duration", "overlap_duration"]
    else [])

def profile (py : Python) (engine : Fields) : Fields :=
  pick ((classDefaults.map Prod.fst).filter (· ∉ excluded py engine)) engine

def defaultDiarization : Value := .str "pyannote/speaker-diarization-community-1"

/-- The profile that a turn of the worker loads: without the runtime's revision, and a WhisperX job without a diarization
model gets the default one. -/
def pinned (job : Fields) : Fields :=
  let profile := job.filter fun f => f.1 ≠ "runtime_revision"
  if isText "whisperx" (field "engine" profile) ∧ (field "diarization_model" profile).isNone then
    profile ++ [("diarization_model", defaultDiarization)]
  else profile

/-- One attempt at a job: the profile that it is stored with. -/
def reload (py : Python) (later : Place) (job : Fields) : Option Fields :=
  (loadPinned py later (some (pinned job))).map (profile py)

end OmiLocal.Providers
