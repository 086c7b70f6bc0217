import OmiLocal.Lib.Loop
import OmiLocal.Limitless.Wire

/-!
# The parser of the Android app

`LimitlessProtocol.kt`. `Int` has 32 bits and `Long` 64, and both wrap around;
an exception ends the function whose `try` block it leaves. `none` of a parser
is a loop that still runs when the fuel is spent. A position that a varint is
read from is never negative: a byte has been read just before it.
-/
namespace OmiLocal.Limitless.Kotlin
open Lib.Framing (Bytes)
open Lib.Loop

def toInt (n : Int) : Int := n.bmod (2 ^ 32)

def toLong (n : Int) : Int := n.bmod (2 ^ 64)

/-- `data[pos]`, which throws outside the array. -/
def byteAt (data : Bytes) (pos : Int) : Option UInt8 := if pos < 0 then none else data[pos.toNat]?

/-- Throws on a range that is not one of the array. -/
def copyOfRange (data : Bytes) (start stop : Int) : Option Bytes :=
  if 0 ≤ start ∧ start ≤ stop ∧ stop ≤ data.length then some ((data.drop start.toNat).take (stop - start).toNat) else none

/-- A shift of a `Long` uses the low six bits of its count. -/
def shl (value : BitVec 64) (shift : Nat) : BitVec 64 := value <<< (shift % 64)

def decodeVarint (data : Bytes) (startPos : Int) : Int × Int :=
  let (value, count) := varintFrom shl (data.drop startPos.toNat) 0 0
  (value.toInt, startPos + count)

/-! ## Packets -/

structure PacketWalk where
  pos : Int
  index : Option Int
  seq : Int
  numFrags : Option Int
  payload : Option Bytes

def PacketWalk.packet (s : PacketWalk) : Option BlePacket :=
  match s.index, s.numFrags, s.payload with
  | some index, some numFrags, some payload => some ⟨index, s.seq, numFrags, payload⟩
  | _, _, _ => none

def PacketWalk.setField (s : PacketWalk) (field : Nat) (value : Int) : PacketWalk :=
  match field with
  | 1 => { s with index := some (toInt value) }
  | 2 => { s with seq := toInt value }
  | 3 => { s with numFrags := some (toInt value) }
  | _ => s

def packetTurn (data : Bytes) (s : PacketWalk) : Turn PacketWalk (Option BlePacket) :=
  if data.length ≤ s.pos then .leave s.packet
  else
    match byteAt data s.pos with
    | none => .leave none
    | some tag =>
        if wireType tag = 0 then
          let (value, next) := decodeVarint data (s.pos + 1)
          .again { s.setField (fieldNum tag) value with pos := next }
        else if wireType tag = 2 then
          let (length, next) := decodeVarint data (s.pos + 1)
          if length < 0 ∨ data.length < toLong (next + length) then
            if fieldNum tag = 4 then .leave none else .leave s.packet
          else
            let stop := toInt (next + toInt length)
            if fieldNum tag = 4 then
              match copyOfRange data next stop with
              | none => .leave none
              | some payload => .again { s with payload := some payload, pos := stop }
            else .again { s with pos := stop }
        else .leave s.packet

def parseBlePacket (fuel : Nat) (data : Bytes) : Option (Option BlePacket) :=
  run (fun s => some (packetTurn data s)) fuel ⟨0, none, 0, none, none⟩

/-! ## Opus frames of a flash page -/

/-- The frames added so far: `error` when an exception is on its way to the caller. -/
abbrev Frames := Except (List Bytes) (List Bytes)

def extractOpusRecursive (data : Bytes) : Nat → Int → Int → List Bytes → Option Frames
  | 0, _, _, _ => none
  | fuel + 1, pos, stop, frames =>
      if toInt (stop - 1) ≤ pos then some (.ok frames)
      else
        match byteAt data pos with
        | none => some (.error frames)
        | some tag =>
            if wireType tag = 2 then
              let (length, next) := decodeVarint data (pos + 1)
              if length < 0 ∨ stop < toLong (next + length) then some (.ok frames)
              else
                let len := toInt length
                if 0 < len then
                  match copyOfRange data next (toInt (next + len)) with
                  | none => some (.error frames)
                  | some fieldData =>
                      if 10 ≤ len ∧ len ≤ 200 ∧ fieldData.head?.any isValidOpusToc then
                        extractOpusRecursive data fuel (toInt (next + len)) stop (frames ++ [fieldData])
                      else if 10 < len then
                        match extractOpusRecursive data fuel next (toInt (next + len)) frames with
                        | some (.ok frames) => extractOpusRecursive data fuel (toInt (next + len)) stop frames
                        | other => other
                      else extractOpusRecursive data fuel (toInt (next + len)) stop frames
                else extractOpusRecursive data fuel (toInt (next + len)) stop frames
            else if wireType tag = 0 then extractOpusRecursive data fuel (decodeVarint data (pos + 1)).2 stop frames
            else some (.ok frames)

structure FrameWalk where
  pos : Int
  frames : List Bytes

def audioTurn (fuel : Nat) (data : Bytes) (wrapperEnd : Int) (s : FrameWalk) : Option (Turn FrameWalk Frames) :=
  if toInt (wrapperEnd - 1) ≤ s.pos then some (.leave (.ok s.frames))
  else
    match byteAt data s.pos with
    | none => some (.leave (.error s.frames))
    | some marker =>
        if marker = 0x08 then some (.again { s with pos := (decodeVarint data (s.pos + 1)).2 })
        else if marker = 0x12 then
          let (audioLength, next) := decodeVarint data (s.pos + 1)
          if audioLength < 0 ∨ data.length < toLong (next + audioLength) then some (.leave (.ok s.frames))
          else
            let audioEnd := toInt (next + toInt audioLength)
            match extractOpusRecursive data fuel next audioEnd s.frames with
            | none => none
            | some (.error frames) => some (.leave (.error frames))
            | some (.ok frames) => some (.again ⟨audioEnd, frames⟩)
        else if wireType marker = 0 then some (.again { s with pos := (decodeVarint data (s.pos + 1)).2 })
        else if wireType marker = 2 then
          let (length, next) := decodeVarint data (s.pos + 1)
          if length < 0 ∨ wrapperEnd < toLong (next + length) then some (.leave (.ok s.frames))
          else some (.again { s with pos := toInt (toLong (next + length)) })
        else some (.again { s with pos := s.pos + 1 })

/-- The loop over the wrappers of a page; an exception ends it with the frames it has. -/
def wrapperTurn (fuel : Nat) (data : Bytes) (s : FrameWalk) : Option (Turn FrameWalk (List Bytes)) :=
  if data.length - 2 ≤ s.pos then some (.leave s.frames)
  else
    match byteAt data s.pos with
    | none => some (.leave s.frames)
    | some marker =>
        if marker = 0x1a then
          let (wrapperLength, next) := decodeVarint data (s.pos + 1)
          if wrapperLength < 0 ∨ data.length < toLong (next + wrapperLength) then some (.leave s.frames)
          else
            let wrapperEnd := toInt (next + toInt wrapperLength)
            match run (audioTurn fuel data wrapperEnd) fuel ⟨next, s.frames⟩ with
            | none => none
            | some (.error frames) => some (.leave frames)
            | some (.ok frames) => some (.again ⟨wrapperEnd, frames⟩)
        else some (.again { s with pos := s.pos + 1 })

/-- The position behind a varint field with this tag, if it stands here. -/
def skipField (data : Bytes) (tag : UInt8) (pos : Int) : Int :=
  if byteAt data pos = some tag then (decodeVarint data (pos + 1)).2 else pos

def extractOpusFramesFromFlashPage (fuel : Nat) (flashPageData : Bytes) : Option (List Bytes) :=
  run (wrapperTurn fuel flashPageData) fuel ⟨skipField flashPageData 0x10 (skipField flashPageData 0x08 0), []⟩

/-! ## Audio pages and diagnostic pages -/

/-- Leaves with `true` when the function returns `true` from here. -/
def subfieldTurn (data : Bytes) (wrapperEnd : Int) (pos : Int) : Turn Int Bool :=
  if toInt (wrapperEnd - 1) ≤ pos then .leave false
  else
    match byteAt data pos with
    | none => .leave true
    | some marker =>
        if marker = 0x12 then .leave true
        else
          match wireType marker with
          | 0 => .again (decodeVarint data (pos + 1)).2
          | 2 =>
              let (length, next) := decodeVarint data (pos + 1)
              if length < 0 ∨ wrapperEnd < toLong (next + length) then .again wrapperEnd
              else .again (toInt (toLong (next + length)))
          | 1 => .again (toInt (pos + 1 + 8))
          | 5 => .again (toInt (pos + 1 + 4))
          | _ => .leave true

def fieldTurn (fuel : Nat) (data : Bytes) (pos : Int) : Option (Turn Int Bool) :=
  if data.length - 2 ≤ pos then some (.leave false)
  else
    match byteAt data pos with
    | none => some (.leave true)
    | some marker =>
        if marker = 0x1a then
          let (wrapperLength, next) := decodeVarint data (pos + 1)
          if wrapperLength < 0 ∨ data.length < toLong (next + wrapperLength) then some (.leave false)
          else
            let wrapperEnd := toInt (next + toInt wrapperLength)
            match run (fun pos => some (subfieldTurn data wrapperEnd pos)) fuel next with
            | none => none
            | some true => some (.leave true)
            | some false => some (.again wrapperEnd)
        else
          match wireType marker with
          | 0 => some (.again (decodeVarint data (pos + 1)).2)
          | 2 =>
              let (length, next) := decodeVarint data (pos + 1)
              if length < 0 ∨ data.length < toLong (next + length) then some (.leave false)
              else some (.again (toInt (toLong (next + length))))
          | 1 => some (.again (toInt (pos + 1 + 8)))
          | 5 => some (.again (toInt (pos + 1 + 4)))
          | _ => some (.leave true)

def hasAudioSubfields (fuel : Nat) (flashPageData : Bytes) : Option Bool :=
  run (fieldTurn fuel flashPageData) fuel (skipField flashPageData 0x10 (skipField flashPageData 0x08 0))

/-! ## Messages -/

def parseFlashPageTimestampMs (flashPageData : Bytes) : Int :=
  if flashPageData.head? = some 0x08 then (decodeVarint flashPageData 1).1 else 0

structure StorageWalk where
  pos : Int
  session : Option Int
  index : Option Int
  flashPageData : Option Bytes

def StorageWalk.setField (s : StorageWalk) (field : Nat) (value : Int) : StorageWalk :=
  match field with
  | 2 => { s with session := some (toInt value) }
  | 5 => { s with index := some (toInt value) }
  | _ => s

/-- The walk over the fields; it leaves with nothing on an exception. -/
def storageTurn (data : Bytes) (s : StorageWalk) : Turn StorageWalk (Option StorageWalk) :=
  if data.length ≤ s.pos then .leave (some s)
  else
    match byteAt data s.pos with
    | none => .leave none
    | some tag =>
        if wireType tag = 0 then
          let (value, next) := decodeVarint data (s.pos + 1)
          .again { s.setField (fieldNum tag) value with pos := next }
        else if wireType tag = 2 then
          let (length, next) := decodeVarint data (s.pos + 1)
          if length < 0 ∨ data.length < toLong (next + length) then .leave (some s)
          else
            let stop := toInt (next + toInt length)
            if fieldNum tag = 6 then
              match copyOfRange data next stop with
              | none => .leave none
              | some page => .again { s with flashPageData := some page, pos := stop }
            else .again { s with pos := stop }
        else .again { s with pos := s.pos + 2 }

/-- An audio page without a frame is a parse failure. -/
def parseFailed (fuel : Nat) (pageData : Bytes) (frames : List Bytes) : Option Bool :=
  if frames.isEmpty then hasAudioSubfields fuel pageData else some false

def StorageWalk.page (fuel : Nat) (s : StorageWalk) : Option (Option FlashPage) :=
  match s.flashPageData with
  | none => some none
  | some pageData =>
      if pageData.isEmpty then some none
      else do
        let frames ← extractOpusFramesFromFlashPage fuel pageData
        let failed ← parseFailed fuel pageData frames
        if failed then some none
        else some (some ⟨s.index, s.session, parseFlashPageTimestampMs pageData, frames⟩)

def parseStorageBuffer (fuel : Nat) (storageData : Bytes) : Option (Option FlashPage) := do
  match ← run (fun s => some (storageTurn storageData s)) fuel ⟨0, none, none, none⟩ with
  | none => some none
  | some s => s.page fuel

structure MessageWalk where
  pos : Int
  pages : List FlashPage

def messageTurn (fuel : Nat) (payload : Bytes) (s : MessageWalk) : Option (Turn MessageWalk (List FlashPage)) :=
  if payload.length ≤ s.pos then some (.leave s.pages)
  else
    match byteAt payload s.pos with
    | none => some (.leave s.pages)
    | some tag =>
        if wireType tag = 2 then
          let (length, next) := decodeVarint payload (s.pos + 1)
          if length < 0 ∨ payload.length < toLong (next + length) then some (.leave s.pages)
          else
            let stop := toInt (next + toInt length)
            if fieldNum tag = 2 then
              match copyOfRange payload next stop with
              | none => some (.leave s.pages)
              | some storageData =>
                  match parseStorageBuffer fuel storageData with
                  | none => none
                  | some page => some (.again ⟨stop, s.pages ++ page.toList⟩)
            else some (.again { s with pos := stop })
        else if wireType tag = 0 then some (.again { s with pos := (decodeVarint payload (s.pos + 1)).2 })
        else some (.again { s with pos := s.pos + 2 })

def parsePendantMessage (fuel : Nat) (payload : Bytes) : Option (List FlashPage) :=
  run (messageTurn fuel payload) fuel ⟨0, []⟩

/-! ## Device status -/

/-- Where a search that goes up from `pos` finds the byte, below `stop`. It stays inside the array. -/
def seek (data : Bytes) (byte : UInt8) (pos stop : Int) : Option Int :=
  ((List.range (stop - pos).toNat).map fun i : Nat => pos + i).find? fun at_ => byteAt data at_ == some byte

structure StatusWalk where
  pos : Int
  state : StorageState
  any : Bool

def StatusWalk.setField (s : StatusWalk) (marker : UInt8) (value : Int) : StorageState :=
  match marker.toNat with
  | 0x08 => { s.state with oldestFlashPage := toInt value }
  | 0x10 => { s.state with newestFlashPage := toInt value }
  | 0x18 => { s.state with currentStorageSession := toInt value }
  | 0x20 => { s.state with freeCapturePages := toInt value }
  | _ => { s.state with totalCapturePages := toInt value }

def statusTurn (data : Bytes) (storageEnd : Int) (s : StatusWalk) : Turn StatusWalk StatusWalk :=
  if storageEnd - 1 ≤ s.pos then .leave s
  else
    match byteAt data s.pos with
    | none => .leave s
    | some marker =>
        if data.length ≤ s.pos + 1 then .leave s
        else if marker ∈ [0x08, 0x10, 0x18, 0x20, 0x28] then
          let (value, next) := decodeVarint data (s.pos + 1)
          .again ⟨next, s.setField marker value, true⟩
        else .again { s with pos := s.pos + 1 }

def parseStorageState (fuel : Nat) (data : Bytes) (start stop : Int) : Option (Option StorageState) :=
  if start < 0 ∨ data.length < stop ∨ stop ≤ start then some none
  else
    match seek data 0x2a start (min (stop - 1) data.length) with
    | none => some none
    | some at_ =>
        if data.length ≤ at_ + 1 then some none
        else
          let (storageLength, next) := decodeVarint data (at_ + 1)
          if storageLength < 0 ∨ 200 < storageLength ∨ data.length < next + storageLength then some none
          else do
            let s ← run (fun s => some (statusTurn data (next + storageLength) s)) fuel ⟨next, ⟨0, 0, 0, 0, 0⟩, false⟩
            some (if s.any then some s.state else none)

def parseDeviceStatus (fuel : Nat) (data : Bytes) : Option (Option StorageState) :=
  if data.length < 20 then some none
  else
    match seek data 0x22 0 (data.length - 5) with
    | none => some none
    | some at_ =>
        let (payloadLength, pos) := decodeVarint data (at_ + 1)
        if payloadLength < 10 ∨ data.length - pos < payloadLength then some none
        else
          match seek data 0x2a pos (pos + payloadLength - 5) with
          | none => some none
          | some inner =>
              let (statusLength, next) := decodeVarint data (inner + 1)
              if statusLength < 5 ∨ 500 < statusLength ∨ data.length < next + statusLength then some none
              else parseStorageState fuel data next (next + statusLength)

end OmiLocal.Limitless.Kotlin
