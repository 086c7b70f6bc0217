import OmiLocal.Wals.RingProtocol
import OmiLocal.Sync.Files

/-!
# Offline frame files

The file that `RingStorageSyncImpl._flushToDisk` writes, cut off anywhere, as the server
reads it.
-/
namespace OmiLocal.Wals
open Lib.Framing Sync

/-- `[frame_length_u32_le][frame_data]...`. -/
def flushToDisk (frames : List Bytes) : Bytes :=
  frames.foldl (fun data frame => data ++ littleEndian32 frame.length ++ frame) []

theorem flushToDisk_eq (frames : List Bytes) : flushToDisk frames = encodeAll le32 frames := by
  have appended : ∀ data, frames.foldl (fun data frame => data ++ littleEndian32 frame.length ++ frame) data =
      data ++ encodeAll le32 frames := by
    induction frames with
    | nil => simp
    | cons frame frames ih =>
        intro data
        rw [List.foldl_cons, ih, encodeAll_cons, record]
        simp [le32]
  exact (appended []).trans (List.nil_append _)

/-- The frames of a file that lie completely before the cut. -/
def completeBefore (cut : Nat) (frames : List Bytes) : List Bytes := before le32 cut frames

theorem fits_of_size {frame : Bytes} (size : 1 ≤ frame.length ∧ frame.length ≤ 65536) :
    Fits le32 maxSyncFrameBytes frame := by
  refine ⟨?_, size.2, lt_of_le_of_lt size.2 (by decide)⟩
  rintro rfl
  exact absurd size.1 (by decide)

/-- A file cut off anywhere is its complete frames and a front that ends every loop. -/
theorem flushToDisk_take {frames : List Bytes} (sizes : ∀ f ∈ frames, 1 ≤ f.length ∧ f.length ≤ 65536) (cut : Nat) :
    ∃ tail, (flushToDisk frames).take cut = encodeAll le32 (completeBefore cut frames) ++ tail ∧
      (head le32 maxSyncFrameBytes tail = .short ∨ head le32 maxSyncFrameBytes tail = .torn) := by
  obtain ⟨tail, front, incomplete⟩ := @take_encodeAll le32 cut frames
  refine ⟨tail, by rw [flushToDisk_eq, front, completeBefore], ?_⟩
  rcases incomplete with rfl | ⟨p, member, inside, short⟩
  · exact .inl (head_nil (by decide))
  · exact head_cut (fits_of_size (sizes p member)) inside short

/-- The WAV file of a cut off PCM file: there is one if a frame is complete, with the samples
of the complete frames. -/
theorem decodePcmFileToWav_cut {frames : List Bytes} (sizes : ∀ f ∈ frames, 1 ≤ f.length ∧ f.length ≤ 65536)
    {sampleWidth channels : Nat} (aligned : ∀ f ∈ frames, sampleWidth * channels ∣ f.length) (cut sampleRate : Nat) :
    decodePcmFileToWav ((flushToDisk frames).take cut) sampleRate channels sampleWidth =
      if completeBefore cut frames = [] then none
      else some ⟨channels, sampleWidth, sampleRate, (completeBefore cut frames).flatten⟩ := by
  obtain ⟨tail, file, stop⟩ := flushToDisk_take sizes cut
  have within : ∀ p ∈ completeBefore cut frames, p ∈ frames := fun p member =>
    (before_initial cut frames).subset member
  have data := (readPcm_encodeAll (fun p member => fits_of_size (sizes p (within p member)))
    (fun p member => aligned p (within p member)) stop .empty).2
  rw [show PcmStream.empty.pcmData = [] from rfl, List.nil_append] at data
  unfold decodePcmFileToWav
  rw [file]
  dsimp only
  rw [data]
  refine if_congr ?_ rfl rfl
  constructor
  · intro silent
    refine List.eq_nil_iff_forall_not_mem.mpr fun p member => ?_
    have nothing : p = [] := List.flatten_eq_nil_iff.mp silent p member
    have := (sizes p (within p member)).1
    rw [nothing] at this
    exact absurd this (by decide)
  · intro none
    rw [none]
    rfl

/-- The frames of a cut off file are read up to the cut by both server loops, and the
frames of a padded payload by both parsers of the app. -/
theorem frame_files_survive_truncation :
    (∀ (frames : List Bytes), (∀ f ∈ frames, 1 ≤ f.length ∧ f.length ≤ 65536) → ∀ cut,
      (∀ width, (∀ f ∈ frames, width ∣ f.length) →
        (readPcm width ((flushToDisk frames).take cut) .empty).frames = completeBefore cut frames ∧
        (readPcm width ((flushToDisk frames).take cut) .empty).pcmData = (completeBefore cut frames).flatten) ∧
      ∀ (σ : Type) (decode : σ → Bytes → Option (Bytes × σ)) (decoder : σ),
        (readOpus decode ((flushToDisk frames).take cut) (.start decoder)).frames =
          handed decode decoder (completeBefore cut frames) ∧
        ((∀ state frame, decode state frame ≠ none) →
          (readOpus decode ((flushToDisk frames).take cut) (.start decoder)).frames = completeBefore cut frames)) ∧
    (∀ (frames : List Bytes), (∀ f ∈ frames, Packable f) → ∀ padding, 0 < padding →
      RingProtocol.parseAudioPayload (frames.flatMap packed ++ List.replicate padding 0) = frames) ∧
    ∀ (bytesData : List Bytes) (header audio : Bytes), header.length = 4 →
      StorageSync.receivePacket bytesData (header ++ audio) = bytesData ++ RingProtocol.parseAudioPayload audio := by
  refine ⟨?_, fun frames fits padding padded => parseAudioPayload_packed fits padded,
    fun bytesData header audio size => receivePacket_eq bytesData size audio⟩
  intro frames sizes cut
  obtain ⟨tail, file, stop⟩ := flushToDisk_take sizes cut
  have within : ∀ p ∈ completeBefore cut frames, p ∈ frames := fun p member =>
    (before_initial cut frames).subset member
  have fits : ∀ p ∈ completeBefore cut frames, Fits le32 maxSyncFrameBytes p := fun p member =>
    fits_of_size (sizes p (within p member))
  rw [file]
  constructor
  · intro width aligned
    have read := readPcm_encodeAll fits (fun p member => aligned p (within p member)) stop .empty
    simpa [PcmStream.empty] using read
  · intro σ decode decoder
    have given := @readOpus_encodeAll σ decode _ fits tail stop (.start decoder)
    rw [show (OpusStream.start decoder).frames = [] from rfl, List.nil_append] at given
    refine ⟨given, fun accepts => ?_⟩
    rw [given]
    exact handed_all decode accepts decoder _

end OmiLocal.Wals
