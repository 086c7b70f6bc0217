import OmiLocal.Capture.Journal

/-!
# Parts on the server

`parsePart`, `validatePreroll` and `decodeFreshAudio` over arbitrary bodies.
What they take from Python's library is a parameter, `Python`: results about
every body hold for every such library, and the results about the phone's own
parts fix `json.loads` and `datetime.fromisoformat` to `python`.
-/
namespace OmiLocal.Delivery
open Lib.Framing Lib.Json Capture

/-- `json.loads` on bytes and `datetime.fromisoformat`; `none` is a raised
`ValueError`, and the Boolean tells whether the time carries a timezone. -/
structure Python where
  loads : Bytes → Option Value
  fromisoformat : String → Option Bool

abbrev Fields := List (String × Value)

def maxBodyBytes : Nat := 16 * 1024 * 1024
def maxHeaderBytes : Nat := 4096
def serverFrameBytes : Nat := 4096
def maxPcmBytes : Nat := 301 * 16000 * 2
def maxPrerollFrames : Nat := 32
def maxFrames : Nat := 60000

/-- `_uuid` accepts exactly the canonical text forms. -/
def uuid (value : Option String) : Except String String :=
  match value with
  | some text => if canonicalUuid text then .ok text else .error "Invalid audio part identity"
  | none => .error "Invalid audio part identity"

def validatePreroll (fields : Fields) (frames : List Packet) : Except String Nat :=
  let version := intField "version" fields
  if (version ≠ some 1 ∧ version ≠ some 2) ∨
      (version = some 2 ∧ (field "preroll_frames" fields).isNone) then
    .error "Unsupported audio pre-roll protocol version"
  else
    let count : Option Int := match field "preroll_frames" fields with
      | none => some 0
      | some (.int n) => some n
      | some _ => none
    match count with
    | none => .error "Invalid audio pre-roll count or empty fresh audio"
    | some count =>
        if count < 0 ∨ count > maxPrerollFrames ∨ (frames.length : Int) ≤ count then
          .error "Invalid audio pre-roll count or empty fresh audio"
        else if count = 0 then .ok 0
        else if version ≠ some 2 then .error "Audio pre-roll requires delivery protocol version 2"
        else if strField "codec" fields = some "pcm16" ∨ intField "index" fields = some 0 then
          .error "Audio pre-roll requires a later Opus part"
        else do
          let durations ← (frames.take count.toNat).mapM serverPacketMicroseconds
          let total := durations.sum
          if ¬ (80000 ≤ total ∧ total < 200000) ∨ total - durations.headD 0 ≥ 80000 then
            .error "Audio pre-roll must be the bounded 80 ms preceding suffix"
          else .ok count.toNat

/-- The packet loop of `parsePart`. Every packet shortens the rest. -/
def readFrames : Nat → Nat → Bytes → Except String (List Packet)
  | _, _, [] => .ok []
  | 0, _, _ => .error "Incomplete audio packet length"
  | fuel + 1, count, bs =>
      match head be32 serverFrameBytes bs with
      | .short => .error "Incomplete audio packet length"
      | .invalid => .error "Incomplete or oversized audio packet"
      | .torn => .error "Incomplete or oversized audio packet"
      | .record frame rest =>
          if count + 1 > maxFrames then .error "Too many audio packets"
          else (readFrames fuel (count + 1) rest).map (frame :: ·)

def replaceZ (text : String) : String :=
  String.ofList (text.toList.flatMap fun c => if c = 'Z' then "+00:00".toList else [c])

def supportedPair (fields : Fields) : Bool :=
  match strField "source" fields, strField "codec" fields with
  | some "omi", some "opus" => true
  | some "omi", some "opus_fs320" => true
  | some "phone", some "pcm16" => true
  | _, _ => false

/-- The header checks of `parsePart`, in their order. -/
def checkHeader (py : Python) (fields : Fields) : Except String Unit := do
  if intField "version" fields ≠ some 1 ∧ intField "version" fields ≠ some 2 then
    throw "Invalid audio part version"
  let _ ← uuid (strField "id" fields)
  let _ ← uuid (strField "recording_id" fields)
  match intField "index" fields with
  | none => throw "Invalid audio part order"
  | some index => if ¬ (0 ≤ index ∧ index ≤ 1000000000) then throw "Invalid audio part order"
  match strField "server_id" fields with
  | none => throw "Invalid audio part server binding"
  | some server => if ¬ hexDigest server then throw "Invalid audio part server binding"
  if ¬ supportedPair fields then throw "Unsupported audio part format"
  match strField "started_at" fields with
  | none => throw "Invalid audio part time"
  | some started =>
      if started.toList.length > 40 then throw "Invalid audio part time"
      match py.fromisoformat (replaceZ started) with
      | none => throw "Invalid isoformat string"
      | some aware => if ¬ aware then throw "Audio part time requires a timezone"

def parsePart (py : Python) (body : Bytes) : Except String (Fields × List Packet) :=
  if body.length > maxBodyBytes ∨ body.length < 12 ∨ body.take 8 ≠ magic then
    .error "Invalid audio part envelope"
  else
    let size := fromBigEndian ((body.drop 8).take 4)
    if ¬ (0 < size ∧ size ≤ maxHeaderBytes) ∨ 12 + size > body.length then
      .error "Invalid audio part header"
    else
      match py.loads ((body.drop 12).take size) with
      | none => .error "Invalid JSON"
      | some (.obj fields) => do
          checkHeader py fields
          let frames ← readFrames body.length 0 (body.drop (12 + size))
          if frames = [] then throw "Audio part is empty"
          let _ ← validatePreroll fields frames
          return (fields, frames)
      | some _ => .error "Invalid audio part version"

/-- A decoder sees the frames before and the frame; `none` is its own error. -/
abbrev Decoder := List Packet → Packet → Option Bytes

def decodeFrom (decode : Decoder) (preroll limit : Nat) :
    List Packet → Bytes → List Packet → Except String Bytes
  | _, pcm, [] => .ok pcm
  | seen, pcm, frame :: rest =>
      match decode seen frame with
      | none => .error "corrupted stream"
      | some decoded =>
          if decoded = [] ∨ decoded.length % 2 = 1 then .error "Invalid decoded PCM16 audio"
          else if seen.length < preroll then decodeFrom decode preroll limit (seen ++ [frame]) pcm rest
          else if (pcm ++ decoded).length > limit then .error "Audio part exceeds its duration limit"
          else decodeFrom decode preroll limit (seen ++ [frame]) (pcm ++ decoded) rest

def decodeFreshAudio (frames : List Packet) (preroll : Nat) (decode : Decoder) (limit : Nat) :
    Except String Bytes :=
  decodeFrom decode preroll limit [] [] frames

/-- What an accepted body has passed. -/
theorem parsePart_ok {py : Python} {body : Bytes} {fields : Fields} {frames : List Packet}
    (parsed : parsePart py body = .ok (fields, frames)) :
    checkHeader py fields = .ok () ∧ py.loads ((body.drop 12).take (fromBigEndian ((body.drop 8).take 4))) = some (.obj fields) ∧
      readFrames body.length 0 (body.drop (12 + fromBigEndian ((body.drop 8).take 4))) = .ok frames ∧
      ∃ preroll, validatePreroll fields frames = .ok preroll := by
  unfold parsePart at parsed
  split at parsed
  · cases parsed
  · dsimp only at parsed
    split at parsed
    · cases parsed
    · split at parsed
      · cases parsed
      · rename_i fields' read
        cases checked : checkHeader py fields' with
        | error e =>
            rw [checked] at parsed
            cases parsed
        | ok done =>
            cases framed : readFrames body.length 0 (body.drop (12 + fromBigEndian ((body.drop 8).take 4))) with
            | error e =>
                rw [checked, framed] at parsed
                cases parsed
            | ok frames' =>
                rw [checked, framed] at parsed
                simp only [bind, Except.bind] at parsed
                split at parsed
                · cases parsed
                · cases valid : validatePreroll fields' frames' with
                  | error e =>
                      rw [valid] at parsed
                      cases parsed
                  | ok preroll =>
                      rw [valid] at parsed
                      cases parsed
                      exact ⟨checked, read, rfl, preroll, valid⟩
      · cases parsed

/-! ## The library functions that the phone's parts meet -/

def fixedNat (width : Nat) (cs : List Char) : Option (Nat × List Char) :=
  if (cs.take width).length = width ∧ (cs.take width).all Lib.Json.isDigit then
    some (digitsValue (cs.take width), cs.drop width)
  else none

def expectChar (c : Char) : List Char → Option (List Char)
  | d :: rest => if c = d then some rest else none
  | [] => none

/-- `YYYY-MM-DD`, a date of the years 1 to 9999. -/
def isoDate (cs : List Char) : Option (List Char) := do
  let (year, cs) ← fixedNat 4 cs
  let cs ← expectChar '-' cs
  let (month, cs) ← fixedNat 2 cs
  let cs ← expectChar '-' cs
  let (day, cs) ← fixedNat 2 cs
  if 1 ≤ year ∧ 1 ≤ month ∧ month ≤ 12 ∧ 1 ≤ day ∧ day ≤ daysInMonth year month then some cs
  else none

def isoFraction (cs : List Char) : Option (List Char) :=
  match fixedNat 6 cs with
  | some (_, rest) => some rest
  | none => (fixedNat 3 cs).map Prod.snd

/-- `HH[:MM[:SS[.fff[fff]]]]`. -/
def isoClock (cs : List Char) : Option (List Char) := do
  let (hour, cs) ← fixedNat 2 cs
  if 24 ≤ hour then none
  else match expectChar ':' cs with
  | none => some cs
  | some cs => do
      let (minute, cs) ← fixedNat 2 cs
      if 60 ≤ minute then none
      else match expectChar ':' cs with
      | none => some cs
      | some cs => do
          let (second, cs) ← fixedNat 2 cs
          if 60 ≤ second then none
          else match expectChar '.' cs with
          | none => some cs
          | some cs => isoFraction cs

/-- `datetime.fromisoformat` on its documented extended format; any character
may stand between date and time. -/
def fromisoformat (text : String) : Option Bool := do
  let cs ← isoDate text.toList
  match cs with
  | [] => some false
  | _ :: cs => do
      let cs ← isoClock cs
      match cs with
      | [] => some false
      | sign :: cs =>
          if sign = '+' ∨ sign = '-' then do
            let cs ← isoClock cs
            if cs = [] then some true else none
          else none

def python : Python := ⟨Lib.Json.loads, fromisoformat⟩

end OmiLocal.Delivery
