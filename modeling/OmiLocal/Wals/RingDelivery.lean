import OmiLocal.Wals.RingSafety

/-!
# From the ring to the server

The records as the device packs them, through the app and its files to the
server's reader: nothing is lost, repeated or invented on the way.
-/
namespace OmiLocal.Wals.Ring
open Lib Lib.Framing Lib.Blocks Sync
open RingProtocol (parseFrom parseAudioPayload)

/-! ## What the device packs -/

/-- The end of a payload: zeros, or the size of a frame that went to the next payload and stale bytes behind it. -/
inductive Closes : Bytes → Prop
  | padding (more : Nat) : Closes (List.replicate (more + 1) 0)
  | cut (size : UInt8) (stale : Bytes) (named : size ≠ 0) (tooShort : stale.length ≤ size.toNat) : Closes (size :: stale)

theorem Closes.ne_nil {tail : Bytes} (closes : Closes tail) : tail ≠ [] := by
  cases closes with
  | padding more => exact List.cons_ne_nil _ _
  | cut size stale named tooShort => exact List.cons_ne_nil _ _

/-- `[timestamp:4 BE][audio_payload:440]`. -/
structure Packed where
  timestamp : Bytes
  frames : List Bytes
  tail : Bytes
  stamped : timestamp.length = RingProtocol.timestampBytes
  fits : ∀ frame ∈ frames, Packable frame
  closes : Closes tail
  full : (frames.flatMap packed ++ tail).length = RingProtocol.audioPayloadBytes

def Packed.bytes (r : Packed) : Bytes := r.timestamp ++ (r.frames.flatMap packed ++ r.tail)

end OmiLocal.Wals.Ring
