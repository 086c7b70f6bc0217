import OmiLocal.Lib.Framing

/-!
# The pendant's wire format

What the three parsers of the pendant's packets share: varints, field tags and
the values they return. A notification wraps a fragment of a message; a message
holds storage buffers, and each of these holds one flash page.
-/
namespace OmiLocal.Limitless
open Lib.Framing (Bytes)

/-- The value of a varint and the number of its bytes. `shl` is the left shift of the language. -/
def varintFrom (shl : BitVec 64 → Nat → BitVec 64) : Bytes → Nat → BitVec 64 → BitVec 64 × Nat
  | [], _, value => (value, 0)
  | byte :: rest, shift, value =>
      let value := value ||| shl (BitVec.ofNat 64 (byte.toNat % 128)) shift
      if byte.toNat < 128 then (value, 1)
      else
        let (value, count) := varintFrom shl rest (shift + 7) value
        (value, count + 1)

def fieldNum (tag : UInt8) : Nat := tag.toNat / 8

def wireType (tag : UInt8) : Nat := tag.toNat % 8

def isValidOpusToc (byte : UInt8) : Bool :=
  byte == 0xb8 || byte == 0x78 || byte == 0xf8 || byte == 0xb0 || byte == 0x70 || byte == 0xf0

structure BlePacket where
  index : Int
  seq : Int
  numFrags : Int
  payload : Bytes
  deriving DecidableEq, Repr

structure FlashPage where
  index : Option Int
  session : Option Int
  timestampMs : Int
  opusFrames : List Bytes
  deriving DecidableEq, Repr

structure StorageState where
  oldestFlashPage : Int
  newestFlashPage : Int
  currentStorageSession : Int
  freeCapturePages : Int
  totalCapturePages : Int
  deriving DecidableEq, Repr

end OmiLocal.Limitless
