import OmiLocal.Lib.Framing

/-!
# Decoding offline frame files

The loops of `decode_pcm_file_to_wav` and `decode_opus_file_to_wav` over the bytes of a file.
The Opus decoder is a parameter: its state, and the PCM of a frame or an exception.
-/
namespace OmiLocal.Sync
open Lib.Framing

def maxSyncFrameBytes : Nat := 65536

/-- What a WAV file is written with. -/
structure Wav where
  channels : Nat
  sampleWidth : Nat
  sampleRate : Nat
  data : Bytes
  deriving DecidableEq

/-- `frames` records what was taken from the file. -/
structure PcmStream where
  frames : List Bytes
  pcmData : Bytes
  corruptStream : Bool
  deriving DecidableEq

def PcmStream.empty : PcmStream := ⟨[], [], false⟩

def PcmStream.corrupt (s : PcmStream) : PcmStream := { s with corruptStream := true }

def PcmStream.extend (s : PcmStream) (frameData : Bytes) : PcmStream :=
  { s with frames := s.frames ++ [frameData], pcmData := s.pcmData ++ frameData }

/-- `width` is `sample_width * channels`. For a width of zero the division raises at the first
frame, and then too nothing is decoded. -/
def readPcm (width : Nat) (f : Bytes) (s : PcmStream) : PcmStream :=
  let lengthBytes := f.take 4
  if lengthBytes.length = 0 then s
  else if lengthBytes.length < 4 then s.corrupt
  else
    let frameLength := fromLittleEndian lengthBytes
    if frameLength = 0 ∨ maxSyncFrameBytes < frameLength then s.corrupt
    else
      let frameData := (f.drop 4).take frameLength
      if frameData.length < frameLength then s.corrupt
      else if frameLength % width ≠ 0 then s.corrupt
      else readPcm width ((f.drop 4).drop frameLength) (s.extend frameData)
termination_by f.length
decreasing_by
  have inside : lengthBytes.length ≤ f.length := List.length_take_le' 4 f
  rw [List.length_drop, List.length_drop]
  omega

/-- The WAV file that is left when the function returns `True`. -/
def decodePcmFileToWav (file : Bytes) (sampleRate channels sampleWidth : Nat) : Option Wav :=
  let s := readPcm (sampleWidth * channels) file .empty
  if s.pcmData = [] then none else some ⟨channels, sampleWidth, sampleRate, s.pcmData⟩

section Opus
variable {σ : Type} (decode : σ → Bytes → Option (Bytes × σ))

/-- `frames` records what was given to the decoder. -/
structure OpusStream (σ : Type) where
  decoder : σ
  frames : List Bytes
  written : Bytes
  frameCount : Nat
  corruptStream : Bool

def OpusStream.start (decoder : σ) : OpusStream σ := ⟨decoder, [], [], 0, false⟩

def OpusStream.corrupt (s : OpusStream σ) : OpusStream σ := { s with corruptStream := true }

def OpusStream.take (s : OpusStream σ) (opusData : Bytes) : OpusStream σ := { s with frames := s.frames ++ [opusData] }

def OpusStream.write (s : OpusStream σ) (pcmFrame : Bytes) (decoder : σ) : OpusStream σ :=
  { s with decoder := decoder, written := s.written ++ pcmFrame, frameCount := s.frameCount + 1 }

def readOpus (f : Bytes) (s : OpusStream σ) : OpusStream σ :=
  let lengthBytes := f.take 4
  if lengthBytes.length = 0 then s
  else if lengthBytes.length < 4 then s.corrupt
  else
    let frameLength := fromLittleEndian lengthBytes
    if frameLength = 0 ∨ maxSyncFrameBytes < frameLength then s.corrupt
    else
      let opusData := (f.drop 4).take frameLength
      if opusData.length < frameLength then s.corrupt
      else
        match decode s.decoder opusData with
        | none => (s.take opusData).corrupt
        | some (pcmFrame, decoder) => readOpus ((f.drop 4).drop frameLength) ((s.take opusData).write pcmFrame decoder)
termination_by f.length
decreasing_by
  have inside : lengthBytes.length ≤ f.length := List.length_take_le' 4 f
  rw [List.length_drop, List.length_drop]
  omega

def decodeOpusFileToWav (file : Bytes) (decoder : σ) (sampleRate channels : Nat) : Option Wav :=
  let s := readOpus decode file (.start decoder)
  if 0 < s.frameCount then some ⟨channels, 2, sampleRate, s.written⟩ else none

/-- The frames a decoder is given: all of them, or up to the first it refuses. -/
def handed (decoder : σ) : List Bytes → List Bytes
  | [] => []
  | frame :: frames =>
      match decode decoder frame with
      | none => [frame]
      | some (_, next) => frame :: handed next frames

theorem handed_all (accepts : ∀ state frame, decode state frame ≠ none) (decoder : σ) (frames : List Bytes) :
    handed decode decoder frames = frames := by
  induction frames generalizing decoder with
  | nil => rfl
  | cons frame frames ih =>
      unfold handed
      split
      · rename_i refused
        exact absurd refused (accepts decoder frame)
      · rw [ih]

end Opus

/-! ## The loops in terms of the framing -/

section Records
variable {σ : Type} {decode : σ → Bytes → Option (Bytes × σ)}

/-- The tests of both loops at the front of a file. -/
theorem front_cases (f : Bytes) :
    (f.take 4).length = 0 ∧ f = [] ∧ head le32 maxSyncFrameBytes f = .short ∨
      (f.take 4).length ≠ 0 ∧ (f.take 4).length < 4 ∧ f ≠ [] ∧ head le32 maxSyncFrameBytes f = .short ∨
      (f.take 4).length ≠ 0 ∧ ¬(f.take 4).length < 4 ∧ head le32 maxSyncFrameBytes f =
        if fromLittleEndian (f.take 4) = 0 ∨ maxSyncFrameBytes < fromLittleEndian (f.take 4) then .invalid
        else if ((f.drop 4).take (fromLittleEndian (f.take 4))).length < fromLittleEndian (f.take 4) then .torn
        else .record ((f.drop 4).take (fromLittleEndian (f.take 4))) ((f.drop 4).drop (fromLittleEndian (f.take 4))) := by
  have taken : (f.take 4).length = min 4 f.length := List.length_take
  by_cases none : f = []
  · subst none
    exact .inl ⟨rfl, rfl, rfl⟩
  have some : f.length ≠ 0 := by simpa using none
  by_cases short : f.length < 4
  · exact .inr (.inl ⟨by omega, by omega, none, if_pos short⟩)
  refine .inr (.inr ⟨by omega, by omega, ?_⟩)
  unfold head
  rw [if_neg (show ¬f.length < le32.width from short)]
  simp only [show le32.width = 4 from rfl, show le32.decode = fromLittleEndian from rfl, List.drop_drop]
  split
  · rfl
  · refine if_congr ?_ rfl rfl
    rw [List.length_take, List.length_drop]
    omega

theorem readPcm_eq (width : Nat) (f : Bytes) (s : PcmStream) :
    readPcm width f s =
      match head le32 maxSyncFrameBytes f with
      | .short => if f = [] then s else s.corrupt
      | .invalid => s.corrupt
      | .torn => s.corrupt
      | .record frame rest => if frame.length % width ≠ 0 then s.corrupt else readPcm width rest (s.extend frame) := by
  rw [readPcm]
  rcases front_cases f with ⟨none, empty, front⟩ | ⟨some, short, nonempty, front⟩ | ⟨some, whole, front⟩
  · rw [if_pos none, front, empty]
    rfl
  · rw [if_neg some, if_pos short, front]
    exact (if_neg nonempty).symm
  · rw [if_neg some, if_neg whole, front]
    dsimp only
    by_cases invalid : fromLittleEndian (f.take 4) = 0 ∨ maxSyncFrameBytes < fromLittleEndian (f.take 4)
    · rw [if_pos invalid, if_pos invalid]
    · rw [if_neg invalid, if_neg invalid]
      by_cases torn : ((f.drop 4).take (fromLittleEndian (f.take 4))).length < fromLittleEndian (f.take 4)
      · rw [if_pos torn, if_pos torn]
      · rw [if_neg torn, if_neg torn]
        have size : ((f.drop 4).take (fromLittleEndian (f.take 4))).length = fromLittleEndian (f.take 4) := by
          have := List.length_take_le (fromLittleEndian (f.take 4)) (f.drop 4)
          omega
        dsimp only
        rw [size]

theorem readOpus_eq (f : Bytes) (s : OpusStream σ) :
    readOpus decode f s =
      match head le32 maxSyncFrameBytes f with
      | .short => if f = [] then s else s.corrupt
      | .invalid => s.corrupt
      | .torn => s.corrupt
      | .record frame rest =>
          match decode s.decoder frame with
          | none => (s.take frame).corrupt
          | some (pcmFrame, decoder) => readOpus decode rest ((s.take frame).write pcmFrame decoder) := by
  rw [readOpus]
  rcases front_cases f with ⟨none, empty, front⟩ | ⟨some, short, nonempty, front⟩ | ⟨some, whole, front⟩
  · rw [if_pos none, front, empty]
    rfl
  · rw [if_neg some, if_pos short, front]
    exact (if_neg nonempty).symm
  · rw [if_neg some, if_neg whole, front]
    dsimp only
    by_cases invalid : fromLittleEndian (f.take 4) = 0 ∨ maxSyncFrameBytes < fromLittleEndian (f.take 4)
    · rw [if_pos invalid, if_pos invalid]
    · rw [if_neg invalid, if_neg invalid]
      by_cases torn : ((f.drop 4).take (fromLittleEndian (f.take 4))).length < fromLittleEndian (f.take 4)
      · rw [if_pos torn, if_pos torn]
      · rw [if_neg torn, if_neg torn]

/-- Whole aligned frames and an incomplete one: all the whole ones are read. -/
theorem readPcm_encodeAll {width : Nat} {frames : List Bytes} (fits : ∀ p ∈ frames, Fits le32 maxSyncFrameBytes p)
    (aligned : ∀ p ∈ frames, width ∣ p.length) {tail : Bytes}
    (stop : head le32 maxSyncFrameBytes tail = .short ∨ head le32 maxSyncFrameBytes tail = .torn) (s : PcmStream) :
    (readPcm width (encodeAll le32 frames ++ tail) s).frames = s.frames ++ frames ∧
      (readPcm width (encodeAll le32 frames ++ tail) s).pcmData = s.pcmData ++ frames.flatten := by
  induction frames generalizing s with
  | nil =>
      rw [encodeAll_nil, List.nil_append, readPcm_eq]
      rcases stop with h | h
      · rw [h]
        dsimp only
        split <;> simp [PcmStream.corrupt]
      · simp [h, PcmStream.corrupt]
  | cons p frames ih =>
      have whole : p.length % width = 0 := Nat.mod_eq_zero_of_dvd (aligned p List.mem_cons_self)
      obtain ⟨read, data⟩ := ih (fun q member => fits q (List.mem_cons_of_mem p member))
        (fun q member => aligned q (List.mem_cons_of_mem p member)) (s.extend p)
      rw [encodeAll_cons, List.append_assoc, readPcm_eq, head_record (fits p List.mem_cons_self)]
      dsimp only
      rw [if_neg (not_not.mpr whole), read, data]
      simp [PcmStream.extend]

/-- The decoder is given the whole frames, up to the first that it refuses. -/
theorem readOpus_encodeAll {frames : List Bytes} (fits : ∀ p ∈ frames, Fits le32 maxSyncFrameBytes p) {tail : Bytes}
    (stop : head le32 maxSyncFrameBytes tail = .short ∨ head le32 maxSyncFrameBytes tail = .torn) (s : OpusStream σ) :
    (readOpus decode (encodeAll le32 frames ++ tail) s).frames = s.frames ++ handed decode s.decoder frames := by
  induction frames generalizing s with
  | nil =>
      rw [encodeAll_nil, List.nil_append, readOpus_eq]
      rcases stop with h | h
      · rw [h]
        dsimp only
        split <;> simp [OpusStream.corrupt, handed]
      · simp [h, OpusStream.corrupt, handed]
  | cons p frames ih =>
      rw [encodeAll_cons, List.append_assoc, readOpus_eq, head_record (fits p List.mem_cons_self), handed]
      dsimp only
      cases decode s.decoder p with
      | none => rfl
      | some taken =>
          dsimp only
          rw [ih fun q member => fits q (List.mem_cons_of_mem p member)]
          simp [OpusStream.take, OpusStream.write]

end Records
end OmiLocal.Sync
