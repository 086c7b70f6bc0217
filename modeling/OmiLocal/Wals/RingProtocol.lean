import OmiLocal.Lib.Framing
import Mathlib.Data.List.GetD

/-!
# Frames in a storage payload

The 440 audio bytes of a ring record hold `[size:1][frame:size]...` with zero padding.
`RingProtocol.parseAudioPayload` and the copy of it in the notification handler of
`StorageSyncImpl` read them back.
-/
namespace OmiLocal.Wals
open Lib.Framing

namespace RingProtocol

def timestampBytes : Nat := 4

def audioPayloadBytes : Nat := 440

def recordSize : Nat := audioPayloadBytes + timestampBytes

def parseFrom (audio : Bytes) (offset : Nat) (frames : List Bytes) : List Bytes :=
  if offset < audio.length - 1 then
    let size := (audio.getD offset 0).toNat
    if size = 0 then parseFrom audio (offset + 1) frames
    else if offset + 1 + size ≥ audio.length then frames
    else parseFrom audio (offset + (size + 1)) (frames ++ [(audio.take (offset + 1 + size)).drop (offset + 1)])
  else frames
termination_by audio.length - offset

def parseAudioPayload (audio : Bytes) : List Bytes := parseFrom audio 0 []

end RingProtocol

namespace StorageSync

/-- The loop of the notification handler, over the same bytes. -/
def packageFrom (audioData : Bytes) (packageOffset : Nat) (bytesData : List Bytes) : List Bytes :=
  if packageOffset < audioData.length - 1 then
    let packageSize := (audioData.getD packageOffset 0).toNat
    if packageSize = 0 then packageFrom audioData (packageOffset + 1) bytesData
    else if packageOffset + 1 + packageSize ≥ audioData.length then bytesData
    else
      let frame := (audioData.take (packageOffset + 1 + packageSize)).drop (packageOffset + 1)
      packageFrom audioData (packageOffset + (packageSize + 1)) (bytesData ++ [frame])
  else bytesData
termination_by audioData.length - packageOffset

/-- `[timestamp:4 BE][audio_data]`: what a data packet adds to `bytesData`. -/
def receivePacket (bytesData : List Bytes) (value : Bytes) : List Bytes :=
  if 4 < value.length then packageFrom (value.drop 4) 0 bytesData else bytesData

end StorageSync

/-- The firmware's `[size:1][frame:size]` of one frame. -/
def packed (frame : Bytes) : Bytes := UInt8.ofNat frame.length :: frame

def Packable (frame : Bytes) : Prop := 1 ≤ frame.length ∧ frame.length ≤ 255

section Parsing
open RingProtocol StorageSync

theorem parseFrom_append (audio : Bytes) (offset : Nat) (before frames : List Bytes) :
    parseFrom audio offset (before ++ frames) = before ++ parseFrom audio offset frames := by
  fun_induction parseFrom audio offset frames with
  | case1 offset frames inside size padding ih =>
      rw [parseFrom, if_pos inside, if_pos padding]
      exact ih
  | case2 offset frames inside size framed torn =>
      rw [parseFrom, if_pos inside, if_neg framed, if_pos torn]
  | case3 offset frames inside size framed whole ih =>
      rw [parseFrom, if_pos inside, if_neg framed, if_neg whole, List.append_assoc]
      exact ih
  | case4 offset frames finished => rw [parseFrom, if_neg finished]

theorem packageFrom_eq (audio : Bytes) (offset : Nat) (frames : List Bytes) :
    packageFrom audio offset frames = parseFrom audio offset frames := by
  fun_induction parseFrom audio offset frames with
  | case1 offset frames inside size padding ih =>
      rw [packageFrom, if_pos inside, if_pos padding]
      exact ih
  | case2 offset frames inside size framed torn =>
      rw [packageFrom, if_pos inside, if_neg framed, if_pos torn]
  | case3 offset frames inside size framed whole ih =>
      rw [packageFrom, if_pos inside, if_neg framed, if_neg whole]
      exact ih
  | case4 offset frames finished => rw [packageFrom, if_neg finished]

/-- Zero padding up to the end holds no frame. -/
theorem parseFrom_padding {audio : Bytes} {offset : Nat} (frames : List Bytes)
    (zeros : ∀ i, offset ≤ i → i < audio.length → audio.getD i 0 = 0) : parseFrom audio offset frames = frames := by
  fun_induction parseFrom audio offset frames with
  | case1 offset frames inside size padding ih => exact ih fun i later => zeros i (by omega)
  | case2 offset frames inside size framed torn => rfl
  | case3 offset frames inside size framed whole ih =>
      refine absurd ?_ framed
      rw [show size = (audio.getD offset 0).toNat from rfl, zeros offset le_rfl (by omega)]
      rfl
  | case4 offset frames finished => rfl

/-- A frame with a byte after it is read, and the parser goes on behind it. -/
theorem parseFrom_packed {frame : Bytes} (fits : Packable frame) (front rest : Bytes) (more : rest ≠ [])
    (frames : List Bytes) :
    parseFrom (front ++ (packed frame ++ rest)) front.length frames =
      parseFrom (front ++ (packed frame ++ rest)) (front ++ packed frame).length (frames ++ [frame]) := by
  have positive : 0 < rest.length := List.length_pos_iff.mpr more
  have total : (front ++ (packed frame ++ rest)).length = front.length + (frame.length + 1) + rest.length := by
    simp [packed]
    omega
  have size : ((front ++ (packed frame ++ rest)).getD front.length 0).toNat = frame.length := by
    have := fits.2
    simp [packed]
    omega
  rw [parseFrom, if_pos (by omega)]
  simp only [size]
  rw [if_neg (by have := fits.1; omega), if_neg (by omega)]
  congr 1
  · simp [packed]
  · congr 2
    have taken : front ++ (packed frame ++ rest) = (front ++ [UInt8.ofNat frame.length]) ++ (frame ++ rest) := by
      simp [packed]
    have start : front.length + 1 = (front ++ [UInt8.ofNat frame.length]).length := by simp
    rw [taken, start, List.drop_take, List.drop_left, Nat.add_sub_cancel_left, List.take_left]

theorem parseFrom_packedAll {payloads : List Bytes} (fits : ∀ frame ∈ payloads, Packable frame) (front : Bytes)
    (padding : Nat) (frames : List Bytes) :
    parseFrom (front ++ (payloads.flatMap packed ++ List.replicate (padding + 1) 0)) front.length frames =
      frames ++ payloads := by
  induction payloads generalizing front frames with
  | nil =>
      rw [List.append_nil]
      refine parseFrom_padding frames fun i later inside => ?_
      rw [List.flatMap_nil, List.nil_append, List.getD_append_right _ _ _ _ later, List.getD_replicate]
      simp at inside ⊢
      omega
  | cons frame payloads ih =>
      rw [List.flatMap_cons, List.append_assoc,
        parseFrom_packed (fits frame List.mem_cons_self) _ _ (by simp), ← List.append_assoc,
        ih (fun f member => fits f (List.mem_cons_of_mem frame member)), List.append_assoc, List.singleton_append]

/-- Frames packed into a payload with at least one byte of padding are read back. -/
theorem parseAudioPayload_packed {payloads : List Bytes} (fits : ∀ frame ∈ payloads, Packable frame) {padding : Nat}
    (padded : 0 < padding) :
    parseAudioPayload (payloads.flatMap packed ++ List.replicate padding 0) = payloads := by
  obtain ⟨padding, rfl⟩ : ∃ n, padding = n + 1 := ⟨padding - 1, by omega⟩
  exact parseFrom_packedAll fits [] padding []

/-- The copy in `StorageSyncImpl` adds the same frames. -/
theorem receivePacket_eq (bytesData : List Bytes) {header : Bytes} (size : header.length = 4) (audio : Bytes) :
    receivePacket bytesData (header ++ audio) = bytesData ++ parseAudioPayload audio := by
  have rest : (header ++ audio).drop 4 = audio := by rw [← size, List.drop_left]
  unfold receivePacket parseAudioPayload
  rw [rest, packageFrom_eq, ← parseFrom_append, List.append_nil]
  split
  · rfl
  · rename_i short
    have empty : audio = [] := by
      apply List.eq_nil_of_length_eq_zero
      rw [List.length_append, size] at short
      omega
    rw [empty, parseFrom, if_neg (by simp)]

end Parsing
end OmiLocal.Wals
