import OmiLocal.Limitless.Kotlin

/-!
# Encoding the pendant's messages

The field encoders of `LimitlessProtocol.kt`, and the page format that
`limitless_golden_test.dart` builds its messages by: a flash page in a storage
buffer in a pendant message, and a wrapper around each fragment of it.
-/
namespace OmiLocal.Limitless
open Lib.Framing (Bytes)

/-- A negative `Long` is not above `0x7f`, so only its low seven bits are written. -/
def encodeVarint (value : Int) : Bytes :=
  if 0x7f < value then UInt8.ofNat (value.toNat % 128 + 128) :: encodeVarint (value / 128)
  else [UInt8.ofNat (value % 128).toNat]
termination_by value.toNat
decreasing_by omega

def encodeField (fieldNum wireType : Nat) (value : Bytes) : Bytes :=
  encodeVarint ((fieldNum * 8 + wireType : Nat) : Int) ++ value

def encodeBytesField (fieldNum : Nat) (data : Bytes) : Bytes :=
  encodeField fieldNum 2 (encodeVarint data.length ++ data)

def encodeMessage (fieldNum : Nat) (msgBytes : Bytes) : Bytes := encodeBytesField fieldNum msgBytes

def encodeIntField (fieldNum : Nat) (value : Int) : Bytes := encodeField fieldNum 0 (encodeVarint value)

/-- The wrapper of a fragment. -/
def bleWrapper (index seq numFrags : Int) (payload : Bytes) : Bytes :=
  encodeIntField 1 index ++ encodeIntField 2 seq ++ encodeIntField 3 numFrags ++ encodeBytesField 4 payload

/-- The wrapper of a whole message. -/
def encodeBleWrapper (messageIndex : Int) (payload : Bytes) : Bytes := bleWrapper messageIndex 0 1 payload

/-- An opus frame in its field. -/
structure OpusField where
  fieldNum : Nat
  frame : Bytes
  numbered : 1 ≤ fieldNum ∧ fieldNum ≤ 15
  size : 10 ≤ frame.length ∧ frame.length ≤ 200
  toc : frame.head?.any isValidOpusToc = true

structure AudioWrapper where
  offset : Option Int
  audio : List OpusField

def audioBlobOfFrames (audio : List OpusField) : Bytes := audio.flatMap fun f => encodeBytesField f.fieldNum f.frame

def AudioWrapper.content (w : AudioWrapper) : Bytes :=
  w.offset.elim [] (encodeIntField 1) ++ encodeBytesField 2 (audioBlobOfFrames w.audio)

def audioWrapper (w : AudioWrapper) : Bytes := encodeBytesField 3 w.content

def AudioWrapper.frames (w : AudioWrapper) : List Bytes := w.audio.map OpusField.frame

def flashPageBytes (timestampMs : Int) (wrappers : List AudioWrapper) : Bytes :=
  encodeIntField 1 timestampMs ++ wrappers.flatMap audioWrapper

def storageBufferBytes (session seq index : Int) (page : Bytes) : Bytes :=
  encodeIntField 2 session ++ encodeIntField 4 seq ++ encodeIntField 5 index ++ encodeBytesField 6 page

def pendantMessage (storageBuffer : Bytes) : Bytes := encodeMessage 2 storageBuffer

/-- The packets of a message that was cut into fragments. -/
def blePackets (index : Int) (fragments : List Bytes) : List Bytes :=
  fragments.zipIdx.map fun f => bleWrapper index f.2 fragments.length f.1

end OmiLocal.Limitless
