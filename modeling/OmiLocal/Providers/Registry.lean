import OmiLocal.Providers.Engine
import OmiLocal.Lib.Transition

/-!
# The provider registry

`Registry`: drafts, the effective selection, credentials and optimistic edits.
The stored file is the state it encodes, together with the size of that
encoding. An edit holds the lock from its load to its last write; the `read`
with which it ends comes after the lock is given back and is a step of its own.
-/
namespace OmiLocal.Providers
open Lib.Json

structure Profile extends Card where
  id : String
  configurationRevision : Option Nat

structure State where
  revision : Nat
  profiles : List Profile
  effective : Stage → Option Profile

/-! ## Files -/

def Kind.json : Kind → Value
  | .other json => .real json
  | kind => .str kind.name

def Profile.json (p : Profile) : Value :=
  .obj ([("id", .str p.id), ("name", .str p.name), ("stage", .str p.stage.name), ("kind", p.kind.json),
      ("settings", .obj p.settings)] ++
    (if p.embedded then [("embedded", .bool true)] else []) ++
    (match p.credentialRef with | some ref => [("credential_ref", .str ref)] | none => []) ++
    (match p.configurationRevision with | some n => [("configuration_revision", .int n)] | none => []))

def State.json (s : State) : Value :=
  .obj [("version", .int 1), ("revision", .int s.revision), ("profiles", .arr (s.profiles.map Profile.json)),
    ("effective", .obj (stages.map fun stage =>
      (stage.name, match s.effective stage with | some p => p.json | none => .null)))]

/-- Bytes of `json.dump(value, stream, ensure_ascii=False)`. -/
def jsonSize (value : Value) : Nat := (encodeUtf8 (write spaced value)).length

def fileLimit : Nat := 2 * 1024 * 1024

/-- A key as a save supplied it, with the card of that save. -/
structure Supply where
  ref : String
  key : String
  card : Card

structure Disk where
  providers : Option State
  vault : List (String × String)
  uuids : Nat
  supplied : List Supply

def vaultJson (vault : List (String × String)) : Value := .obj (vault.map fun (ref, key) => (ref, .str key))

def unavailable {α : Type} : Result α := .error (.settings "Файл настроек недоступен." 503 none)

/-- What the machine does to an edit: the lock may be held and each write may fail. -/
structure Io where
  busy : Bool
  vaultWritten : Bool
  written : Bool
  restored : Bool

/-! ## Legacy import -/

def sttName : Kind → String
  | .whisperkit => "WhisperKit"
  | .whisperx => "WhisperX"
  | .parakeetMlx => "Parakeet MLX"
  | .openaiCompatible => "Текущий STT-сервер"
  | kind => kind.name

def pick (names : List String) (data : Fields) : Fields :=
  names.filterMap fun name => (field name data).map (name, ·)

def liveKind : Value → Kind
  | .str "external" => .external
  | .str "whisperlivekit" => .whisperlivekit
  | value => .other (String.ofList (write spaced value))

def legacyStt (kind : Kind) (engine : Fields) : Profile :=
  ⟨⟨sttName kind, .stt, kind, pick engineFields engine, false, none⟩, "current-stt", none⟩

def legacySpeakers (py : Python) (engine : Fields) : Option Profile :=
  if truthy py (getText "speaker_model" "" engine) then
    some ⟨⟨"Pyannote на этом Mac", .diarization, .pyannote, pick speakerFields engine, false, none⟩,
      "current-diarization", none⟩
  else if isText "none" (some (getText "diarization_model" "none" engine)) then none
  else
    let python := if truthy py (getText "python" "" engine) then
      [("speaker_python", getText "python" "" engine)] else []
    some ⟨⟨"Встроенная диаризация STT", .diarization, .pyannote,
      ("speaker_model", getText "diarization_model" "none" engine) :: python, true, none⟩,
      "current-diarization", none⟩

def legacyLive (py : Python) (live : Fields) : Option Profile :=
  if truthy py ((field "url" live).getD .null) then
    some ⟨⟨"Текущий Live STT", .live, liveKind (getText "provider" "external" live),
      live.filter (fun f => f.1 ∈ liveFields), false, none⟩, "current-live", none⟩
  else none

def legacy (py : Python) (rt : Runtime) : Result State :=
  if ¬ rt.readable then unavailable
  else match loadEngine py rt with
    | none => .error (.settings "Текущие настройки движка недоступны." 503 none)
    | some (kind, engine) =>
        let stt := legacyStt kind engine
        let speakers := legacySpeakers py engine
        let files := rt.liveFile.getD []
        let live := legacyLive py files
        let enabled := truthy py ((field "enabled" files).getD .null)
        .ok { revision := 0
              profiles := stt :: (speakers.toList ++ live.toList)
              effective := fun
                | .stt => some stt
                | .diarization => speakers
                | .live => if enabled then live else none
                | _ => none }

def load (py : Python) (rt : Runtime) (d : Disk) : Result State :=
  match d.providers with
  | some state => if jsonSize state.json > fileLimit then unavailable else .ok state
  | none => legacy py rt

/-! ## Edits -/

/-- The head of `_edit`: the lock, the load and the revision. -/
def edit (py : Python) (rt : Runtime) (io : Io) (revision : Option Value) (d : Disk) : Result State :=
  if io.busy then .error (.settings "Настройки сейчас применяются. Повторите позже." 409 none)
  else do
    let state ← load py rt d
    match revision with
    | some (.int n) =>
        if n = state.revision then return state
        else .error (.settings "Настройки изменились в другом окне. Обновите страницу." 409 none)
    | _ => .error (.settings "Настройки изменились в другом окне. Обновите страницу." 409 none)

def findProfile (id : Option String) (state : State) : Option Profile :=
  id.bind fun id => state.profiles.find? (fun p => p.id == id)

/-- What a draft takes over from the stored profile of its identifier. -/
def inherit (py : Python) (previous : Option Profile) (draft : Draft) : Result Draft :=
  match previous with
  | none => .ok draft
  | some previous =>
      if previous.stage ≠ draft.stage ∨ previous.kind ≠ draft.kind then
        invalid "Для другого типа создайте новую карточку." none
      else match identity py previous.toCard, identity py draft.toCard with
        | some old, some new =>
            .ok { draft with embedded := previous.embedded,
                             credentialRef := if old = new then previous.credentialRef else none }
        | _, _ => .error (.value "Invalid URL")

def clearKey (py : Python) (body : Fields) (draft : Draft) : Draft :=
  if truthy py ((field "clear_key" body).getD .null) then { draft with credentialRef := none } else draft

def draftOf (py : Python) (models : Bool) (body : Fields) (state : State) : Result (Draft × Option String) := do
  let draft ← validateProfile py models ((field "profile" body).getD .null)
  let draft ← inherit py (findProfile draft.id state) draft
  match (field "api_key" body).getD .null with
  | .null => return (clearKey py body draft, none)
  | key => do
      let key ← authHeaders key
      return (clearKey py body draft, some key)

/-- `key(snapshot)`: the empty text when the card has no reference. -/
def key (d : Disk) (card : Card) : Result String :=
  match card.credentialRef with
  | none => .ok ""
  | some ref =>
      if jsonSize (vaultJson d.vault) > fileLimit then unavailable
      else match d.vault.find? (fun entry => entry.1 == ref) with
        | none => .error (.settings
            "API-ключ этого задания недоступен. Настройте провайдера снова." 409 none)
        | some (_, key) => authHeaders (.str key)

def draft (py : Python) (rt : Runtime) (models : Bool) (body : Fields) (d : Disk) : Result (Draft × String) := do
  let state ← load py rt d
  let (draft, supplied) ← draftOf py models body state
  match supplied with
  | some supplied => if supplied ≠ "" then return (draft, supplied) else return (draft, ← key d draft.toCard)
  | none => return (draft, ← key d draft.toCard)

/-- The vault step of `save`: the card's reference afterwards. -/
def storeKey (uuid : Nat → String) (io : Io) (card : Card) (supplied : Option String) (d : Disk) :
    Disk × Result (Option String) :=
  match supplied with
  | none => (d, .ok card.credentialRef)
  | some supplied =>
      if supplied = "" then (d, .ok card.credentialRef)
      else if jsonSize (vaultJson d.vault) > fileLimit then (d, unavailable)
      else
        let ref := uuid d.uuids
        if io.vaultWritten then
          ({ d with uuids := d.uuids + 1, vault := (ref, supplied) :: d.vault,
                    supplied := d.supplied ++ [⟨ref, supplied, card⟩] }, .ok (some ref))
        else ({ d with uuids := d.uuids + 1 }, .error .os)

def putProfile (profile : Profile) (profiles : List Profile) : Result (List Profile) :=
  match profiles.findIdx? (fun p => p.id == profile.id) with
  | some index => .ok (profiles.set index profile)
  | none =>
      if profiles.length ≥ 64 then invalid "Достигнут предел: 64 провайдера." none
      else .ok (profiles ++ [profile])

def writeState (io : Io) (state : State) (d : Disk) : Disk × Result Unit :=
  if io.written then ({ d with providers := some state }, .ok ()) else (d, .error .os)

/-- `save` up to the end of its lock. -/
def save (py : Python) (uuid : Nat → String) (rt : Runtime) (io : Io) (body : Fields) (d : Disk) :
    Disk × Result Unit :=
  match edit py rt io (field "revision" body) d with
  | .error e => (d, .error e)
  | .ok state =>
      match draftOf py false body state with
      | .error e => (d, .error e)
      | .ok (draft, supplied) =>
          let id := draft.id.getD (uuid d.uuids)
          match storeKey uuid io draft.toCard supplied { d with uuids := d.uuids + 1 } with
          | (d, .error e) => (d, .error e)
          | (d, .ok ref) =>
              let profile : Profile :=
                ⟨{ draft.toCard with credentialRef := ref }, id, some (state.revision + 1)⟩
              match putProfile profile state.profiles with
              | .error e => (d, .error e)
              | .ok profiles =>
                  writeState io { state with profiles := profiles, revision := state.revision + 1 } d

/-- The diarization mode that an active recogniser gets. -/
def embeddedModel (diarization : Option Profile) : Result Value :=
  match diarization with
  | some p =>
      if p.embedded then
        match field "speaker_model" p.settings with
        | some model => .ok model
        | none => .error (.value "speaker_model")
      else .ok (.str "none")
  | none => .ok (.str "none")

def withModel (model : Value) (p : Profile) : Profile :=
  { p with settings := setField "diarization_model" model p.settings }

def setEffective (stage : Stage) (selected : Option Profile) (state : State) : State :=
  { state with effective := fun other => if other = stage then selected else state.effective other }

/-- The recogniser's mode follows the diarization that is to be active. -/
def withEmbedded (stage : Stage) (diarization : Option Profile) (state : State) : Result State :=
  if stage = .stt ∨ stage = .diarization then
    match state.effective .stt with
    | some stt =>
        (embeddedModel diarization).map fun model => setEffective .stt (some (withModel model stt)) state
    | none => .ok state
  else .ok state

/-- `publish` without its write. -/
def published (stage : Stage) (selected diarization : Option Profile) (state : State) : Result State :=
  (withEmbedded stage diarization (setEffective stage selected state)).map fun next =>
    { next with revision := state.revision + 1 }

/-- What becomes of the preparation that calls `publish`. -/
inductive Preparation where
  | fails
  | publishes
  | publishesThenFails
deriving DecidableEq

def isNull : Option Value → Bool
  | none => true
  | some .null => true
  | _ => false

def wantedProfile (stage : Stage) (wanted : Option Value) (state : State) : Option Profile :=
  match wanted with
  | some (.str id) => state.profiles.find? (fun p => p.id == id && p.stage == stage)
  | _ => none

def isEmbedded (diarization : Option Profile) : Bool := (diarization.map (fun p => p.embedded)).getD false

def supportsEmbedded (stt : Option Profile) : Bool :=
  (stt.map (fun p => decide (p.kind = .whisperx ∨ p.kind = .parakeetMlx))).getD false

def nextStt (stage : Stage) (wanted : Option Value) (state : State) : Option Profile :=
  if stage = .stt then wantedProfile stage wanted state else state.effective .stt

def nextDiarization (stage : Stage) (wanted : Option Value) (state : State) : Option Profile :=
  if stage = .diarization then wantedProfile stage wanted state else state.effective .diarization

/-- The profile that an activation selects and the diarization that is then active. -/
def selectProfile (stage : Stage) (wanted : Option Value) (state : State) :
    Result (Option Profile × Option Profile) :=
  let selected := wantedProfile stage wanted state
  let diarization := nextDiarization stage wanted state
  if ¬ isNull wanted ∧ selected.isNone then .error (.settings "Провайдер не найден." 404 none)
  else if (stage = .stt ∨ stage = .diarization) ∧ isEmbedded diarization ∧
      ¬ supportsEmbedded (nextStt stage wanted state) then
    .error (.settings ("Сначала выберите отдельного провайдера диаризации или выключите её: " ++
      "встроенная диаризация недоступна для этого STT.") 409 none)
  else if stage = .stt then
    (embeddedModel diarization).map fun model => (selected.map (withModel model), diarization)
  else .ok (selected, diarization)

def activate (py : Python) (rt : Runtime) (io : Io) (preparation : Preparation) (body : Fields) (d : Disk) :
    Disk × Result Unit :=
  let failed : Disk × Result Unit := (d, .error (.service "preparation"))
  match stageOf body with
  | none => (d, invalid "Выберите провайдера распознавания." none)
  | some stage =>
      if stage = .stt ∧ isNull (field "id" body) then
        (d, invalid "Выберите провайдера распознавания." none)
      else match edit py rt io (field "revision" body) d with
        | .error e => (d, .error e)
        | .ok original =>
            match selectProfile stage (field "id" body) original with
            | .error e => (d, .error e)
            | .ok (selected, diarization) =>
                match preparation, published stage selected diarization original with
                | .fails, _ => failed
                | _, .error e => (d, .error e)
                | .publishes, .ok next => writeState io next d
                | .publishesThenFails, .ok next =>
                    if ¬ io.written then failed
                    else if io.restored then ({ d with providers := some original }, .error (.service "preparation"))
                    else ({ d with providers := some next }, .error .os)

def delete (py : Python) (rt : Runtime) (io : Io) (profileId : String) (revision : Option Value) (d : Disk) :
    Disk × Result Unit :=
  match edit py rt io revision d with
  | .error e => (d, .error e)
  | .ok state =>
      if stages.any (fun stage => (state.effective stage).any (fun p => p.id == profileId)) then
        (d, .error (.settings "Сначала выберите другой активный провайдер или выключите этап." 409 none))
      else if (state.profiles.filter (fun p => p.id != profileId)).length = state.profiles.length then
        (d, .error (.settings "Провайдер не найден." 404 none))
      else writeState io { state with profiles := state.profiles.filter (fun p => p.id != profileId),
                                      revision := state.revision + 1 } d

/-- The applied translator, or the applied text model in its place. -/
def translation (state : State) : Option Profile :=
  match state.effective .translation with
  | some p => some p
  | none =>
      match state.effective .summary with
      | some p => if p.kind = .openaiCompatible then some { p with stage := .translation } else none
      | none => none

/-- `_public`: a profile without its reference. -/
structure Public where
  card : Profile
  hidden : card.credentialRef = none
  hasKey : Bool

def toPublic (p : Profile) : Public where
  card := { p with credentialRef := none }
  hidden := rfl
  hasKey := p.credentialRef.isSome

structure View where
  revision : Nat
  profiles : List Public
  effective : Stage → Option Public
  active : Stage → Option String

def read (py : Python) (rt : Runtime) (d : Disk) : Result View :=
  (load py rt d).map fun state =>
    { revision := state.revision
      profiles := state.profiles.map toPublic
      effective := fun stage =>
        (if stage = .translation then translation state else state.effective stage).map toPublic
      active := fun stage => (state.effective stage).map (fun p => p.id) }

inductive Edit where
  | save (body : Fields)
  | activate (preparation : Preparation) (body : Fields)
  | delete (profileId : String) (revision : Option Value)

def Edit.run (py : Python) (uuid : Nat → String) (rt : Runtime) (io : Io) (d : Disk) :
    Edit → Disk × Result Unit
  | .save body => Providers.save py uuid rt io body d
  | .activate preparation body => Providers.activate py rt io preparation body d
  | .delete profileId revision => Providers.delete py rt io profileId revision d

def Edit.revision : Edit → Option Value
  | .save body => field "revision" body
  | .activate _ body => field "revision" body
  | .delete _ revision => revision

def emptyDisk : Disk := ⟨none, [], 0, []⟩

end OmiLocal.Providers
