import Mathlib.Algebra.Order.Ring.Rat
import OmiLocal.Lib.Json
import OmiLocal.Lib.Text

/-!
# Provider cards

Addresses, the checks of `validate_profile`, and the identity that a stored key
is bound to. Settings stay JSON objects, since the source copies and edits them
as dictionaries. What needs the Unicode tables, `ipaddress` or floating point
is a field of `Python`; every result here holds for each such library.
-/
namespace OmiLocal.Providers
open Lib.Json Lib.Text

abbrev Fields := List (String × Value)

/-- An address as `ipaddress.ip_address` reads it. -/
structure Address where
  version : Nat
  value : Nat
  isLinkLocal : Bool
  isMulticast : Bool
  isUnspecified : Bool

structure Python where
  isprintable : Char → Bool
  lower : String → String
  nfkc : String → String
  ipAddress : String → Option Address
  /-- Whether `urlsplit` takes the text between square brackets for a host. -/
  bracketedHost : String → Bool
  float : String → ℚ

inductive Raised where
  | settings (message : String) (status : Nat) (field : Option String)
  | service (message : String)
  | value (message : String)
  | os

abbrev Result := Except Raised

def invalid {α : Type} (message : String) (field : Option String) : Result α :=
  .error (.settings message 400 field)

/-! ## Addresses -/

structure SplitResult where
  scheme : String
  netloc : String
  path : String
  query : String
  fragment : String

def schemeChar (c : Char) : Bool := (c.isAlphanum && c.toNat < 128) || c == '+' || c == '-' || c == '.'

/-- The text before and after the first `c`, or the whole text. -/
def partition (c : Char) (cs : List Char) : List Char × List Char :=
  (cs.takeWhile (· ≠ c), (cs.dropWhile (· ≠ c)).drop 1)

def checkNetloc (py : Python) (netloc : List Char) : Bool :=
  let bare := netloc.filter (fun c => c ∉ ['@', ':', '#', '?'])
  let folded := (py.nfkc (String.ofList bare)).toList
  netloc.all (fun c => c.toNat < 128) || bare == folded ||
    !folded.any (fun c => c ∈ ['/', '?', '#', '@', ':'])

def bracketsOk (py : Python) (netloc : List Char) : Bool :=
  if '[' ∈ netloc ∧ ']' ∈ netloc then
    py.bracketedHost (String.ofList (partition ']' (partition '[' netloc).2).1)
  else '[' ∉ netloc ∧ ']' ∉ netloc

/-- `urllib.parse.urlsplit`; `none` is its `ValueError`. -/
def urlsplit (py : Python) (url : String) : Option SplitResult :=
  let url := (url.toList.dropWhile (fun c => c.toNat ≤ 32)).filter (fun c => c ∉ ['\t', '\r', '\n'])
  let first := partition ':' url
  let hasScheme := ':' ∈ url ∧ first.1 ≠ [] ∧ (first.1.headD ' ').isAlpha ∧ first.1.all schemeChar
  let scheme := if hasScheme then py.lower (String.ofList first.1) else ""
  let url := if hasScheme then first.2 else url
  let netloc := if url.take 2 = ['/', '/'] then
      (url.drop 2).takeWhile (fun c => c ∉ ['/', '?', '#']) else []
  let url := if url.take 2 = ['/', '/'] then
      (url.drop 2).dropWhile (fun c => c ∉ ['/', '?', '#']) else url
  if ¬ bracketsOk py netloc ∨ ¬ checkNetloc py netloc then none
  else
    let (url, fragment) := partition '#' url
    let (path, query) := partition '?' url
    some ⟨scheme, String.ofList netloc, String.ofList path, String.ofList query, String.ofList fragment⟩

namespace SplitResult

def hostinfo (parsed : SplitResult) : List Char × List Char :=
  let host := ((parsed.netloc.toList.reverse).takeWhile (· ≠ '@')).reverse
  if '[' ∈ host then
    let (name, rest) := partition ']' (partition '[' host).2
    (name, (partition ':' rest).2)
  else partition ':' host

def hostname (py : Python) (parsed : SplitResult) : Option String :=
  let name := parsed.hostinfo.1
  if name = [] then none
  else
    let host := name.takeWhile (· ≠ '%')
    some (String.ofList ((py.lower (String.ofList host)).toList ++ name.dropWhile (· ≠ '%')))

/-- The outer `none` is the `ValueError` of a port that is no number up to 65535. -/
def port (parsed : SplitResult) : Option (Option Nat) :=
  let digits := parsed.hostinfo.2
  if digits = [] then some none
  else if digits.all Lib.Json.isDigit ∧ digitsValue digits ≤ 65535 then some (some (digitsValue digits))
  else none

def hasUser (parsed : SplitResult) : Bool := '@' ∈ parsed.netloc.toList

end SplitResult

/-- The networks of `PRIVATE_NETWORKS`: version, first address and prefix length. -/
def privateNetworks : List (Nat × Nat × Nat) :=
  [(4, 127 * 2 ^ 24, 8), (4, 10 * 2 ^ 24, 8), (4, 172 * 2 ^ 24 + 16 * 2 ^ 16, 12),
    (4, 192 * 2 ^ 24 + 168 * 2 ^ 16, 16), (4, 100 * 2 ^ 24 + 64 * 2 ^ 16, 10), (6, 1, 128),
    (6, 0xfc * 2 ^ 120, 7)]

def privateAddress (address : Address) : Bool :=
  privateNetworks.any fun (version, base, length) =>
    address.version == version &&
      (let bits := (if version = 4 then 32 else 128) - length
       address.value / 2 ^ bits == base / 2 ^ bits)

def urlMessage : String := "Укажите HTTPS/WSS адрес сервера; HTTP/WS доступны только для Mac и LAN/VPN."

def rstripSlash (text : String) : String :=
  String.ofList ((text.toList.reverse.dropWhile (· = '/')).reverse)

/-- `validate_url`; `none` is its `ValueError` with `urlMessage`. -/
def validateUrl (py : Python) (websocket : Bool) : Value → Option String
  | .str value =>
      if value.toList.length > 2048 ∨ value.toList.any (fun c => c.toNat < 33) then none
      else do
        let parsed ← urlsplit py value
        let schemes := if websocket then ["ws", "wss"] else ["http", "https"]
        let port ← parsed.port
        let hostname ← parsed.hostname py
        if parsed.scheme ∉ schemes ∨ parsed.hasUser ∨ parsed.query ≠ "" ∨ parsed.fragment ≠ "" ∨
            '\\' ∈ value.toList ∨ port = some 0 then none
        else
          let plain := parsed.scheme = "http" ∨ parsed.scheme = "ws"
          match py.ipAddress hostname with
          | some address =>
              if address.isLinkLocal ∨ address.isMulticast ∨ address.isUnspecified then none
              else if plain ∧ ¬ privateAddress address then none
              else some (rstripSlash value)
          | none => if plain ∧ hostname ≠ "localhost" then none else some (rstripSlash value)
  | _ => none

def keyMessage : String := "Недопустимый API-ключ."

/-- `auth_headers`, as the check it makes of a key. -/
def authHeaders : Value → Result String
  | .str key =>
      if key.toList.length > 8192 ∨ key.toList.any (fun c => c.toNat < 32 ∨ c.toNat > 126) then
        .error (.value keyMessage)
      else .ok key
  | _ => .error (.value keyMessage)

/-! ## Cards -/

inductive Stage where
  | live
  | stt
  | diarization
  | summary
  | translation
deriving DecidableEq

/-- `other` is whatever else an old live file names, by its JSON text. -/
inductive Kind where
  | external
  | whisperlivekit
  | whisperkit
  | whisperx
  | parakeetMlx
  | openaiCompatible
  | pyannote
  | mycelia
  | other (json : String)
deriving DecidableEq

def stages : List Stage := [.live, .stt, .diarization, .summary, .translation]

def Stage.name : Stage → String
  | .live => "live"
  | .stt => "stt"
  | .diarization => "diarization"
  | .summary => "summary"
  | .translation => "translation"

def Kind.name : Kind → String
  | .external => "external"
  | .whisperlivekit => "whisperlivekit"
  | .whisperkit => "whisperkit"
  | .whisperx => "whisperx"
  | .parakeetMlx => "parakeet-mlx"
  | .openaiCompatible => "openai-compatible"
  | .pyannote => "pyannote"
  | .mycelia => "mycelia"
  | .other json => json

def kinds : Stage → List Kind
  | .live => [.external, .whisperlivekit]
  | .stt => [.whisperkit, .whisperx, .parakeetMlx, .openaiCompatible]
  | .diarization => [.pyannote, .mycelia]
  | .summary => [.openaiCompatible]
  | .translation => [.openaiCompatible]

def stageOf (fields : Fields) : Option Stage :=
  (strField "stage" fields).bind fun name => stages.find? (fun stage => stage.name == name)

def kindOf (stage : Stage) (fields : Fields) : Option Kind :=
  (strField "kind" fields).bind fun name => (kinds stage).find? (fun kind => kind.name == name)

/-- What a draft and a stored profile share. -/
structure Card where
  name : String
  stage : Stage
  kind : Kind
  settings : Fields
  embedded : Bool
  credentialRef : Option String

/-- The endpoint that a key belongs to. -/
structure Identity where
  stage : Stage
  kind : Kind
  scheme : String
  netloc : String
deriving DecidableEq

def truthy (py : Python) : Value → Bool
  | .null => false
  | .bool b => b
  | .int n => n ≠ 0
  | .real text => py.float text ≠ 0
  | .str s => s ≠ ""
  | .arr items => !items.isEmpty
  | .obj fields => !fields.isEmpty

/-- The first of the three address fields that holds something. -/
def endpointField (py : Python) (settings : Fields) : Value :=
  ((["provider_url", "base_url", "url"].filterMap (field · settings)).find? (truthy py)).getD (.str "")

/-- `none` is the exception of `urlsplit`. -/
def identity (py : Python) (card : Card) : Option Identity :=
  match endpointField py card.settings with
  | .str endpoint => (urlsplit py endpoint).map fun parsed =>
      ⟨card.stage, card.kind, parsed.scheme, parsed.netloc⟩
  | _ => none

/-! ## Checks -/

def inRange (py : Python) (low high : Int) (integer : Bool) : Value → Bool
  | .int n => decide (low ≤ n ∧ n ≤ high)
  | .real text => !integer && decide ((low : ℚ) ≤ py.float text ∧ py.float text ≤ (high : ℚ))
  | _ => false

def number (py : Python) (settings : Fields) (key : String) (default low high : Int) (integer : Bool) :
    Result Fields :=
  let value := (field key settings).getD (.int default)
  if inRange py low high integer value then .ok (setField key value settings)
  else invalid ("Недопустимое значение: " ++ key) (some key)

def textField (py : Python) (settings : Fields) (key : String) (default : String) (required : Bool)
    (limit : Nat) : Result Fields :=
  match (field key settings).getD (.str default) with
  | .str value =>
      if value.toList.length > limit ∨ ¬ value.toList.all py.isprintable then
        invalid ("Недопустимое значение: " ++ key) (some key)
      else if required ∧ strip value = "" then invalid ("Заполните поле: " ++ key) (some key)
      else if strip value ≠ "" ∨ (field key settings).isSome ∨ default ≠ "" then
        .ok (setField key (.str (strip value)) settings)
      else .ok settings
  | _ => invalid ("Недопустимое значение: " ++ key) (some key)

def endpoint (py : Python) (settings : Fields) (key : String) (websocket : Bool) : Result Fields :=
  match validateUrl py websocket ((field key settings).getD (.str "")) with
  | some url => .ok (setField key (.str url) settings)
  | none => invalid urlMessage (some key)

def engineFields : List String :=
  ["provider_url", "model", "language", "compute_type", "batch_size", "python", "library_path",
    "assets_path", "runtime_revision", "device", "chunk_duration", "overlap_duration", "diarization_model"]

def speakerFields : List String :=
  ["speaker_model", "speaker_python", "speaker_device", "speaker_threads", "speaker_count",
    "speaker_revision"]

def liveFields : List String := ["url", "python", "model_dir", "chunk_seconds", "language", "diarization"]

def allowedFields (stage : Stage) (kind : Kind) : List String :=
  match stage with
  | .stt => engineFields
  | .live => liveFields
  | .diarization => if kind = .pyannote then speakerFields else ["base_url", "min_speakers", "max_speakers"]
  | _ => ["base_url", "model", "reasoning"]

def nonTextFields : List String :=
  ["diarization", "batch_size", "chunk_duration", "overlap_duration", "speaker_threads", "speaker_count",
    "chunk_seconds", "min_speakers", "max_speakers"]

def textFields (py : Python) (settings : Fields) : Result Fields :=
  (settings.map Prod.fst).foldlM (fun data key =>
    if key ∈ nonTextFields then .ok data else textField py data key "" false 2048) settings

def languageCode (text : String) : Bool :=
  (text.toList.length == 2 || text.toList.length == 3) &&
    text.toList.all (fun c => decide ('a' ≤ c ∧ c ≤ 'z'))

def when (condition : Bool) (check : Result Fields) (data : Fields) : Result Fields :=
  if condition then check else .ok data

def sttSettings (py : Python) (kind : Kind) (models : Bool) (data : Fields) : Result Fields := do
  let data ← textField py data "model" "" (!models) 256
  let data ← textField py data "language" (if kind = .whisperx then "ru" else "auto") false 32
  let data ← when (kind = .openaiCompatible) (do
    let data ← endpoint py data "provider_url" false
    if ¬ ((strField "provider_url" data).getD "").endsWith "/v1" then
      invalid "Адрес STT должен оканчиваться на /v1." (some "provider_url")
    return data) data
  let data ← when (field "batch_size" data).isSome (number py data "batch_size" 1 1 8 true) data
  let data ← when (field "chunk_duration" data).isSome (number py data "chunk_duration" 60 10 60 true) data
  let data ← when (field "overlap_duration" data).isSome
    (number py data "overlap_duration" 5 1 ((intField "chunk_duration" data).getD 60 - 1) true) data
  let language := (strField "language" data).getD ""
  if ¬ (languageCode language ∨ language = "auto") ∨ (kind = .whisperx ∧ language = "auto") ∨
      (kind = .parakeetMlx ∧ language ≠ "auto") then
    invalid "Язык не поддерживается выбранным движком." (some "language")
  return data

/-- `diarization_settings`: `ServiceError` unless disabled or within bounds. -/
def diarizationSettings (py : Python) (live : Fields) : Result Unit :=
  let refuse : Result Unit := .error (.service "Invalid local live diarization settings")
  match (field "diarization" live).getD (.obj []) with
  | .obj data =>
      if data.isEmpty ∨ ¬ truthy py ((field "enabled" data).getD (.bool false)) then .ok ()
      else
        let port := intField "port" data
        let livePort := ((strField "url" live).bind (urlsplit py)).bind SplitResult.port
        let model := (field "model" data).getD (.str "pyannote/speaker-diarization-3.1")
        let device := (field "device" data).getD (.str "mps")
        let threads := (field "threads" data).getD (.int 4)
        let interval := (field "interval_seconds" data).getD (.int 15)
        let ok :=
          (match port, livePort with
            | some port, some livePort =>
                decide (1024 ≤ port ∧ port ≤ 65535) && livePort.map (Nat.cast (R := Int)) != some port
            | _, _ => false) &&
          (match model with
            | .str model => model ∈ ["pyannote/speaker-diarization-3.1",
                "pyannote/speaker-diarization-community-1"]
            | _ => false) &&
          (match device with
            | .str device => device ∈ ["cpu", "mps"]
            | _ => false) &&
          (match threads with
            | .int threads => decide (1 ≤ threads ∧ threads ≤ 16)
            | _ => false) &&
          (match interval with
            | .int n => decide (5 ≤ n ∧ n ≤ 120)
            | .real text => decide (5 ≤ py.float text ∧ py.float text ≤ 120)
            | _ => false) &&
          (strField "python" data).isSome
        if ok then .ok () else refuse
  | _ => refuse

def liveSettings (py : Python) (kind : Kind) (data : Fields) : Result Fields := do
  let data ← endpoint py data "url" true
  let data ← when (kind = .whisperlivekit) (do
    let parsed := (strField "url" data).bind (urlsplit py)
    match parsed with
    | none => .error (.value "Invalid URL")
    | some parsed =>
        if parsed.scheme ≠ "ws" ∨ parsed.hostname py ≠ some "127.0.0.1" ∨
            parsed.port.join.getD 0 = 0 ∨ parsed.path ≠ "/asr" then
          invalid "Управляемый WhisperLiveKit должен работать на 127.0.0.1 с путём /asr." (some "url")
        let data ← textField py data "python" "" true 2048
        let data ← textField py data "model_dir" "" true 2048
        let data ← number py data "chunk_seconds" 4 1 10 false
        match (field "language" data).getD (.str "ru") with
        | .str language =>
            if language ∉ ["ru", "en", "auto"] then invalid "Выберите язык ru, en или auto." none
            else return data
        | _ => invalid "Выберите язык ru, en или auto." none) data
  if truthy py ((field "diarization" data).getD .null) then diarizationSettings py data
  return data

def speakerModels : List String :=
  ["pyannote/speaker-diarization-community-1", "pyannote/speaker-diarization-3.1"]

def pyannoteSettings (py : Python) (data : Fields) : Result Fields := do
  match strField "speaker_model" data with
  | none => invalid "Выберите подготовленную модель Pyannote." (some "speaker_model")
  | some model =>
      if model ∉ speakerModels then
        invalid "Выберите подготовленную модель Pyannote." (some "speaker_model")
  if (strField "speaker_device" data).getD "cpu" ∉ ["cpu", "mps"] then invalid "Выберите CPU или MPS." none
  let data ← number py data "speaker_threads" 4 1 16 true
  number py data "speaker_count" 0 0 32 true

def textModelSettings (py : Python) (models : Bool) (data : Fields) : Result Fields := do
  let data ← endpoint py data "base_url" false
  let data ← textField py data "model" "" (!models) 256
  let reasoning := (strField "reasoning" data).getD "default"
  if reasoning ≠ "default" ∧ reasoning ≠ "off" then
    invalid "Режим рассуждений: по умолчанию или отключён." (some "reasoning")
  return if strField "reasoning" data = some "default" then data.filter (fun f => f.1 ≠ "reasoning") else data

def myceliaSettings (py : Python) (data : Fields) : Result Fields := do
  let data ← endpoint py data "base_url" false
  let data ← when (field "min_speakers" data).isSome (number py data "min_speakers" 1 1 32 true) data
  let data ← when (field "max_speakers" data).isSome (number py data "max_speakers" 1 1 32 true) data
  if (intField "min_speakers" data).getD 1 > (intField "max_speakers" data).getD 32 then
    invalid "Минимум говорящих превышает максимум." none
  return data

def checkSettings (py : Python) (stage : Stage) (kind : Kind) (models : Bool) (data : Fields) :
    Result Fields :=
  match stage with
  | .stt => sttSettings py kind models data
  | .live => liveSettings py kind data
  | .diarization => if kind = .pyannote then pyannoteSettings py data else myceliaSettings py data
  | .summary => textModelSettings py models data
  | .translation => textModelSettings py models data

def profileId (value : Fields) : Result (Option String) :=
  match field "id" value with
  | none => .ok none
  | some .null => .ok none
  | some (.str id) =>
      if id.toList.length = 0 ∨ id.toList.length > 64 ∨
          ¬ id.toList.all (fun c => (c.isAlphanum && c.toNat < 128) || c == '_' || c == '-') then
        invalid "Некорректная карточка провайдера." none
      else .ok (some id)
  | some _ => invalid "Некорректная карточка провайдера." none

def nameLimit : Nat := 100

/-- A draft: a card that has no identifier yet, or the one its body names. -/
structure Draft extends Card where
  id : Option String

def validateProfile (py : Python) (models : Bool) : Value → Result Draft
  | .obj value => do
      let unsupported : Result Draft := invalid "Выберите поддерживаемый тип провайдера." none
      match stageOf value with
      | none => unsupported
      | some stage =>
          match kindOf stage value with
          | none => unsupported
          | some kind =>
              let name := (strField "name" value).getD ""
              if strip name = "" ∨ name.toList.length > nameLimit ∨ name.toList.any (fun c => c.toNat < 32) then
                invalid "Введите название провайдера (до 100 символов)." (some "name")
              match (field "settings" value).getD (.obj []) with
              | .obj data =>
                  if ¬ data.all (fun f => f.1 ∈ allowedFields stage kind) then
                    invalid "Параметры не соответствуют выбранному типу провайдера." none
                  let data ← textFields py data
                  let data ← checkSettings py stage kind models data
                  let id ← profileId value
                  return ⟨⟨strip name, stage, kind, data, false, none⟩, id⟩
              | _ => invalid "Некорректные параметры провайдера." none
  | _ => invalid "Некорректная карточка провайдера." none

end OmiLocal.Providers
