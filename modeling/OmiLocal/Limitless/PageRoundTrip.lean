import OmiLocal.Lib.Slices
import OmiLocal.Limitless.Encode
import OmiLocal.Limitless.FlashDrain

/-!
# Reading a page back

Extraction is a scan: tags of one byte, loops that stop one or two bytes before
the end of what they walk over, and a recursion into anything that is not a
frame. On a page that was written in the page format it finds every frame, and
nothing else.
-/
namespace OmiLocal.Limitless
open Lib.Framing (Bytes)
open Lib.Slices Lib.Loop

/-! ## Varints -/

theorem toNat_encoded {n : Nat} (small : n < 256) : (UInt8.ofNat n).toNat = n := by
  rw [UInt8.toNat_ofNat']
  exact Nat.mod_eq_of_lt small

theorem encodeVarint_small {n : Nat} (small : n < 128) : encodeVarint n = [UInt8.ofNat n] := by
  rw [encodeVarint, if_neg (by omega)]
  congr 2
  omega

theorem encodeVarint_large {n : Nat} (large : 128 ≤ n) :
    encodeVarint n = UInt8.ofNat (n % 128 + 128) :: encodeVarint (n / 128 : Nat) := by
  rw [encodeVarint, if_pos (by omega), Int.toNat_natCast, Int.natCast_ediv]
  rfl

/-- The groups of a varint do not overlap. -/
theorem toNat_or_shl {value : BitVec 64} {n shift : Nat} (low : value.toNat < 2 ^ shift) (fits : n * 2 ^ shift < 2 ^ 63)
    (inside : shift < 64) :
    (value ||| Kotlin.shl (BitVec.ofNat 64 n) shift).toNat = value.toNat + n * 2 ^ shift := by
  have small : n ≤ n * 2 ^ shift := Nat.le_mul_of_pos_right n (Nat.two_pow_pos shift)
  rw [Kotlin.shl, BitVec.toNat_or, BitVec.toNat_shiftLeft, BitVec.toNat_ofNat, Nat.mod_eq_of_lt inside,
    Nat.mod_eq_of_lt (by omega : n < 2 ^ 64), Nat.shiftLeft_eq, Nat.mod_eq_of_lt (by omega : n * 2 ^ shift < 2 ^ 64),
    Nat.or_comm, Nat.mul_comm, ← Nat.two_pow_add_eq_or_of_lt low, Nat.add_comm]

/-- By induction on the number: each byte adds the next seven bits above those read so far. -/
theorem varintFrom_encodeVarint (n : Nat) {shift : Nat} {value : BitVec 64} (low : value.toNat < 2 ^ shift)
    (fits : n * 2 ^ shift < 2 ^ 63) (inside : shift < 64) (rest : Bytes) :
    varintFrom Kotlin.shl (encodeVarint n ++ rest) shift value =
      (BitVec.ofNat 64 (value.toNat + n * 2 ^ shift), (encodeVarint n).length) := by
  induction n using Nat.strongRecOn generalizing shift value with
  | ind n ih =>
      have group : n % 128 * 2 ^ shift ≤ n * 2 ^ shift := Nat.mul_le_mul_right _ (Nat.mod_le n 128)
      have joined := toNat_or_shl (n := n % 128) low (by omega) inside
      rcases Nat.lt_or_ge n 128 with small | large
      · rw [Nat.mod_eq_of_lt small] at joined
        rw [encodeVarint_small small, List.singleton_append, varintFrom]
        rw [toNat_encoded (by omega), Nat.mod_eq_of_lt small, if_pos small, ← joined, BitVec.ofNat_toNat,
          BitVec.setWidth_eq]
        rfl
      · have split_ : n / 128 * 2 ^ (shift + 7) + n % 128 * 2 ^ shift = n * 2 ^ shift := by
          rw [Nat.pow_add, Nat.mul_comm (2 ^ shift), ← Nat.mul_assoc, ← Nat.add_mul, Nat.mul_comm (n / 128),
            Nat.div_add_mod]
        have next_low : value.toNat + n % 128 * 2 ^ shift < 2 ^ (shift + 7) := by
          have upper : n % 128 * 2 ^ shift ≤ 127 * 2 ^ shift := Nat.mul_le_mul_right _ (by omega)
          rw [Nat.pow_add]
          omega
        have next_inside : shift + 7 < 64 := by
          have some_ : 2 ^ (shift + 7) ≤ n / 128 * 2 ^ (shift + 7) := Nat.le_mul_of_pos_left _ (by omega)
          have below : 2 ^ (shift + 7) < 2 ^ 63 := by omega
          have := (Nat.pow_lt_pow_iff_right (by decide)).mp below
          omega
        rw [← joined] at next_low
        have rest_read := ih (n / 128) (by omega) next_low (by omega) next_inside
        rw [encodeVarint_large large, List.cons_append, varintFrom]
        rw [toNat_encoded (by omega), if_neg (by omega), Nat.add_mod_right, Nat.mod_mod, rest_read, joined,
          Nat.add_assoc, Nat.add_comm (n % 128 * 2 ^ shift), split_]
        rfl

/-- How many bytes a varint has does not depend on what is made of them. -/
theorem count_encodeVarint (value : Int) (rest : Bytes) (shift : Nat) (read : BitVec 64) :
    (varintFrom Kotlin.shl (encodeVarint value ++ rest) shift read).2 = (encodeVarint value).length := by
  induction value using encodeVarint.induct generalizing shift read with
  | case1 value large ih =>
      rw [encodeVarint, if_pos large, List.cons_append, varintFrom]
      rw [toNat_encoded (by omega), if_neg (by omega), List.length_cons, ← ih]
  | case2 value small =>
      have group : (UInt8.ofNat (value % 128).toNat).toNat < 128 := by
        rw [toNat_encoded (by omega)]
        omega
      rw [encodeVarint, if_neg small, List.singleton_append, varintFrom]
      rw [if_pos group]
      rfl

theorem encodeVarint_length_pos (value : Int) : 0 < (encodeVarint value).length := by
  rw [encodeVarint]
  split
  · exact Nat.succ_pos _
  · exact Nat.one_pos

namespace Kotlin
variable {data : Bytes} {pos : Int}

theorem toInt_eq {n : Int} (above : -2 ^ 31 ≤ n) (below : n < 2 ^ 31) : toInt n = n :=
  Int.bmod_eq_of_le (by omega) (by omega)

theorem toLong_eq {n : Int} (above : -2 ^ 63 ≤ n) (below : n < 2 ^ 63) : toLong n = n :=
  Int.bmod_eq_of_le (by omega) (by omega)

theorem byteAt_stands {byte : UInt8} {rest : Bytes} (stands : Stands data pos (byte :: rest)) :
    byteAt data pos = some byte := by
  rw [byteAt, if_neg (not_lt.mpr stands.nonneg), stands.getElem?]

theorem copyOfRange_stands {bytes : Bytes} (stands : Stands data pos bytes) :
    copyOfRange data pos (pos + bytes.length) = some bytes := by
  rw [copyOfRange, if_pos ⟨stands.nonneg, by omega, stands.le_length⟩, add_sub_cancel_left, Int.toNat_natCast,
    stands.take]

theorem decodeVarint_stands {n : Nat} (fits : n < 2 ^ 63) (stands : Stands data pos (encodeVarint n)) :
    decodeVarint data pos = ((n : Int), pos + (encodeVarint n).length) := by
  obtain ⟨after, rest⟩ := stands.drop
  have read : varintFrom shl (encodeVarint n ++ after) 0 0 = (BitVec.ofNat 64 n, (encodeVarint n).length) := by
    have step : (0 : BitVec 64).toNat < 2 ^ 0 := by decide
    simpa using varintFrom_encodeVarint n step (by omega) (by decide) after
  have value : (BitVec.ofNat 64 n).toNat = n := by
    rw [BitVec.toNat_ofNat]
    exact Nat.mod_eq_of_lt (by omega)
  rw [decodeVarint, rest, read]
  dsimp only
  rw [BitVec.toInt_eq_toNat_of_lt (by omega), value]

theorem decodeVarint_next {value : Int} (stands : Stands data pos (encodeVarint value)) :
    (decodeVarint data pos).2 = pos + (encodeVarint value).length := by
  obtain ⟨after, rest⟩ := stands.drop
  rw [decodeVarint, rest, ← count_encodeVarint value after 0 0]

/-! ## Fields -/

theorem encodeField_eq {num wire : Nat} (numbered : num ≤ 15) (typed : wire < 8) (value : Bytes) :
    encodeField num wire value = UInt8.ofNat (num * 8 + wire) :: value := by
  rw [encodeField, encodeVarint_small (by omega), List.singleton_append]

theorem fieldNum_tag {num wire : Nat} (numbered : num ≤ 15) (typed : wire < 8) :
    fieldNum (UInt8.ofNat (num * 8 + wire)) = num := by
  rw [fieldNum, toNat_encoded (by omega)]
  omega

theorem wireType_tag {num wire : Nat} (numbered : num ≤ 15) (typed : wire < 8) :
    wireType (UInt8.ofNat (num * 8 + wire)) = wire := by
  rw [wireType, toNat_encoded (by omega)]
  omega

theorem encodeIntField_length (num : Nat) (numbered : num ≤ 15) (value : Int) :
    (encodeIntField num value).length = 1 + (encodeVarint value).length := by
  rw [encodeIntField, encodeField_eq numbered (by decide), List.length_cons, Nat.add_comm]

theorem encodeBytesField_length (num : Nat) (numbered : num ≤ 15) (bytes : Bytes) :
    (encodeBytesField num bytes).length = 1 + (encodeVarint bytes.length).length + bytes.length := by
  rw [encodeBytesField, encodeField_eq numbered (by decide), List.length_cons, List.length_append]
  omega

/-- What a walk finds at an integer field. -/
theorem intField_stands {num : Nat} (numbered : num ≤ 15) {value : Int} (stands : Stands data pos (encodeIntField num value)) :
    byteAt data pos = some (UInt8.ofNat (num * 8 + 0)) ∧
      (decodeVarint data (pos + 1)).2 = pos + (encodeIntField num value).length := by
  rw [encodeIntField_length num numbered]
  rw [encodeIntField, encodeField_eq numbered (by decide)] at stands
  refine ⟨byteAt_stands stands, ?_⟩
  rw [decodeVarint_next stands.tail]
  omega

theorem intField_value {num : Nat} (numbered : num ≤ 15) {value : Nat} (fits : value < 2 ^ 63)
    (stands : Stands data pos (encodeIntField num value)) : (decodeVarint data (pos + 1)).1 = value := by
  rw [encodeIntField, encodeField_eq numbered (by decide)] at stands
  rw [decodeVarint_stands fits stands.tail]

theorem toLong_stands {bytes : Bytes} (array : data.length < 2 ^ 31) (stands : Stands data pos bytes) :
    toLong (pos + bytes.length) = pos + bytes.length := by
  have before := stands.nonneg
  have after := stands.le_length
  exact toLong_eq (by omega) (by omega)

theorem toInt_stands {bytes : Bytes} (array : data.length < 2 ^ 31) (stands : Stands data pos bytes) :
    toInt (pos + bytes.length) = pos + bytes.length := by
  have before := stands.nonneg
  have after := stands.le_length
  exact toInt_eq (by omega) (by omega)

theorem toInt_length {bytes : Bytes} (array : data.length < 2 ^ 31) (stands : Stands data pos bytes) :
    toInt bytes.length = bytes.length := by
  have before := stands.nonneg
  have after := stands.le_length
  exact toInt_eq (by omega) (by omega)

/-- What a walk finds at a length-delimited field, in an array. -/
theorem bytesField_stands {num : Nat} (numbered : num ≤ 15) {bytes : Bytes} (array : data.length < 2 ^ 31)
    (stands : Stands data pos (encodeBytesField num bytes)) :
    byteAt data pos = some (UInt8.ofNat (num * 8 + 2)) ∧
      ∃ next : Int, decodeVarint data (pos + 1) = ((bytes.length : Int), next) ∧ Stands data next bytes ∧
        next + bytes.length = pos + (encodeBytesField num bytes).length := by
  rw [encodeBytesField_length num numbered]
  rw [encodeBytesField, encodeField_eq numbered (by decide)] at stands
  have content := stands.tail.right
  have before := content.nonneg
  have after := content.le_length
  exact ⟨byteAt_stands stands, _, decodeVarint_stands (by omega) stands.tail.left, content, by omega⟩

/-- Such a field passes the checks of its length. -/
theorem length_fits {bytes : Bytes} (array : data.length < 2 ^ 31) (stands : Stands data pos bytes) {stop : Int}
    (inside : pos + bytes.length ≤ stop) : ¬((bytes.length : Int) < 0 ∨ stop < toLong (pos + bytes.length)) := by
  rw [toLong_stands array stands]
  omega

/-! ## Frames -/

/-- The recursion takes every field of the audio data for a frame, and stops at its end. -/
theorem extractOpusRecursive_frames (array : data.length < 2 ^ 31) {audio : List OpusField}
    (stands : Stands data pos (audioBlobOfFrames audio)) {fuel : Nat} (enough : audio.length < fuel)
    (frames : List Bytes) :
    extractOpusRecursive data fuel pos (pos + (audioBlobOfFrames audio).length) frames =
      some (.ok (frames ++ audio.map OpusField.frame)) := by
  induction audio generalizing pos fuel frames with
  | nil =>
      have before := stands.nonneg
      have after := stands.le_length
      cases fuel with
      | zero => cases enough
      | succ fuel =>
          rw [audioBlobOfFrames, List.flatMap_nil, List.length_nil] at after ⊢
          rw [List.map_nil, List.append_nil, extractOpusRecursive, if_pos]
          rw [toInt_eq (by omega) (by omega)]
          omega
  | cons f audio ih =>
      have before := stands.nonneg
      have after := stands.le_length
      cases fuel with
      | zero => cases enough
      | succ fuel =>
          have blob : audioBlobOfFrames (f :: audio) = encodeBytesField f.fieldNum f.frame ++ audioBlobOfFrames audio :=
            List.flatMap_cons
          have numbered := f.numbered.2
          have size := f.size
          rw [blob] at stands
          rw [blob, List.length_append] at after ⊢
          obtain ⟨tag, next, read, content, stop⟩ := bytesField_stands numbered array stands.left
          have fieldSize := encodeBytesField_length f.fieldNum numbered f.frame
          rw [extractOpusRecursive, if_neg (by rw [toInt_eq (by omega) (by omega)]; omega), tag]
          dsimp only
          rw [if_pos (wireType_tag numbered (by decide)), read]
          dsimp only
          rw [if_neg (length_fits array content (by omega)), toInt_length array content, if_pos (by omega),
            toInt_stands array content, copyOfRange_stands content]
          dsimp only
          rw [if_pos ⟨by omega, by omega, f.toc⟩, stop, Int.natCast_add, ← Int.add_assoc,
            ih stands.right (Nat.lt_of_succ_lt_succ enough), List.append_assoc, List.map_cons, List.singleton_append]

/-! ## Wrappers -/

section Wrappers
variable (array : data.length < 2 ^ 31)
include array

theorem audioTurn_end {stop : Int} (nonneg : 0 ≤ stop) (held : stop ≤ data.length) (fuel : Nat) (frames : List Bytes) :
    audioTurn fuel data stop ⟨stop, frames⟩ = some (.leave (.ok frames)) := by
  rw [audioTurn, if_pos]
  dsimp only
  rw [toInt_eq (by omega) (by omega)]
  omega

theorem audioTurn_offset {offset : Int} (stands : Stands data pos (encodeIntField 1 offset)) {stop : Int}
    (inside : pos + 1 < stop) (held : stop ≤ data.length) (fuel : Nat) (frames : List Bytes) :
    audioTurn fuel data stop ⟨pos, frames⟩ = some (.again ⟨pos + (encodeIntField 1 offset).length, frames⟩) := by
  have before := stands.nonneg
  obtain ⟨tag, next⟩ := intField_stands (by decide) stands
  rw [audioTurn]
  dsimp only
  rw [if_neg (by rw [toInt_eq (by omega) (by omega)]; omega), tag]
  dsimp only
  rw [if_pos (by decide), next]

theorem audioTurn_audio {audio : List OpusField}
    (stands : Stands data pos (encodeBytesField 2 (audioBlobOfFrames audio))) {stop : Int}
    (ends : pos + (encodeBytesField 2 (audioBlobOfFrames audio)).length = stop) {fuel : Nat}
    (enough : audio.length < fuel) (frames : List Bytes) :
    audioTurn fuel data stop ⟨pos, frames⟩ = some (.again ⟨stop, frames ++ audio.map OpusField.frame⟩) := by
  have before := stands.nonneg
  have after := stands.le_length
  have size := encodeBytesField_length 2 (by decide) (audioBlobOfFrames audio)
  have varint := encodeVarint_length_pos (audioBlobOfFrames audio).length
  obtain ⟨tag, next, read, content, same⟩ := bytesField_stands (by decide) array stands
  rw [audioTurn]
  dsimp only
  rw [if_neg (by rw [toInt_eq (by omega) (by omega)]; omega), tag]
  dsimp only
  rw [if_neg (by decide), if_pos (by decide), read]
  dsimp only
  rw [if_neg (length_fits array content content.le_length), toInt_length array content, toInt_stands array content,
    extractOpusRecursive_frames array content enough, same, ends]

theorem run_wrapper {w : AudioWrapper} {fuel count : Nat} (enough : w.audio.length < fuel) (passes : 3 ≤ count)
    (stands : Stands data pos w.content) (frames : List Bytes) :
    run (audioTurn fuel data (pos + w.content.length)) count ⟨pos, frames⟩ = some (.ok (frames ++ w.frames)) := by
  have before := stands.nonneg
  have after := stands.le_length
  have leave := audioTurn_end array (by omega) after fuel (frames ++ w.frames)
  obtain ⟨count, rfl⟩ := Nat.exists_eq_add_of_le' passes
  obtain ⟨offset, audio⟩ := w
  cases offset with
  | none =>
      exact (run_again (audioTurn_audio array stands rfl enough frames) (count + 2)).trans (run_leave leave (count + 1))
  | some offset =>
      have field : (AudioWrapper.content ⟨some offset, audio⟩).length =
          (encodeIntField 1 offset).length + (encodeBytesField 2 (audioBlobOfFrames audio)).length :=
        List.length_append
      have first : Stands data pos (encodeIntField 1 offset) := Stands.left stands
      have second : Stands data (pos + (encodeIntField 1 offset).length) (encodeBytesField 2 (audioBlobOfFrames audio)) :=
        Stands.right stands
      have size := encodeIntField_length 1 (by decide) offset
      have varint := encodeVarint_length_pos offset
      rw [run_again (audioTurn_offset array first (by omega) after fuel frames) (count + 2)]
      rw [run_again (audioTurn_audio array second (by omega) enough frames) (count + 1)]
      exact run_leave leave count

theorem wrapperTurn_wrapper {w : AudioWrapper} (stands : Stands data pos (audioWrapper w)) {fuel : Nat}
    (enough : w.audio.length < fuel) (passes : 3 ≤ fuel) (frames : List Bytes) :
    wrapperTurn fuel data ⟨pos, frames⟩ = some (.again ⟨pos + (audioWrapper w).length, frames ++ w.frames⟩) := by
  have before := stands.nonneg
  have after := stands.le_length
  have size := encodeBytesField_length 3 (by decide) w.content
  have varint := encodeVarint_length_pos w.content.length
  have inner : 2 ≤ w.content.length := by
    have audio := encodeBytesField_length 2 (by decide) (audioBlobOfFrames w.audio)
    have some_ := encodeVarint_length_pos (audioBlobOfFrames w.audio).length
    rw [AudioWrapper.content, List.length_append]
    omega
  obtain ⟨tag, next, read, content, same⟩ := bytesField_stands (by decide) array stands
  rw [audioWrapper] at after ⊢
  rw [wrapperTurn]
  dsimp only
  rw [if_neg (by omega), tag]
  dsimp only
  rw [if_pos (by decide), read]
  dsimp only
  rw [if_neg (length_fits array content content.le_length), toInt_length array content, toInt_stands array content,
    run_wrapper array enough passes content, same]

/-- By induction on the wrappers: the loop stops where the page ends. -/
theorem run_wrappers {wrappers : List AudioWrapper} (stands : Stands data pos (wrappers.flatMap audioWrapper))
    (last : pos + (wrappers.flatMap audioWrapper).length = data.length) {fuel count : Nat}
    (enough : ∀ w ∈ wrappers, w.audio.length < fuel) (passes : 3 ≤ fuel) (turns : wrappers.length < count)
    (frames : List Bytes) :
    run (wrapperTurn fuel data) count ⟨pos, frames⟩ = some (frames ++ wrappers.flatMap AudioWrapper.frames) := by
  induction wrappers generalizing pos count frames with
  | nil =>
      cases count with
      | zero => cases turns
      | succ count =>
          rw [List.flatMap_nil, List.length_nil] at last
          rw [List.flatMap_nil, List.append_nil]
          refine run_leave ?_ count
          rw [wrapperTurn, if_pos]
          dsimp only
          omega
  | cons w wrappers ih =>
      cases count with
      | zero => cases turns
      | succ count =>
          rw [List.flatMap_cons] at stands last
          rw [List.length_append, Int.natCast_add, ← Int.add_assoc] at last
          have turn := wrapperTurn_wrapper array stands.left (enough w List.mem_cons_self) passes frames
          rw [run_again turn, ih stands.right last (fun v member => enough v (List.mem_cons_of_mem w member))
            (Nat.lt_of_succ_lt_succ turns), List.flatMap_cons, List.append_assoc]

end Wrappers

/-! ## Pages -/

theorem length_audio (audio : List OpusField) : audio.length ≤ (audioBlobOfFrames audio).length := by
  induction audio with
  | nil => exact Nat.le_refl _
  | cons f audio ih =>
      have size := encodeBytesField_length f.fieldNum f.numbered.2 f.frame
      rw [audioBlobOfFrames, List.flatMap_cons, List.length_append, List.length_cons]
      rw [audioBlobOfFrames] at ih
      omega

theorem length_audioWrapper (w : AudioWrapper) : w.audio.length + 4 ≤ (audioWrapper w).length := by
  have audio := length_audio w.audio
  have size := encodeBytesField_length 3 (by decide) w.content
  have inner := encodeBytesField_length 2 (by decide) (audioBlobOfFrames w.audio)
  have varint := encodeVarint_length_pos w.content.length
  have varint' := encodeVarint_length_pos (audioBlobOfFrames w.audio).length
  have content : w.content.length = _ := List.length_append
  rw [audioWrapper]
  omega

theorem length_wrapper_le {w : AudioWrapper} {wrappers : List AudioWrapper} (member : w ∈ wrappers) :
    (audioWrapper w).length ≤ (wrappers.flatMap audioWrapper).length :=
  (List.sublist_flatten_of_mem (List.mem_map_of_mem member)).length_le

theorem length_wrappers (wrappers : List AudioWrapper) : wrappers.length ≤ (wrappers.flatMap audioWrapper).length := by
  induction wrappers with
  | nil => exact Nat.le_refl _
  | cons w wrappers ih =>
      have size := length_audioWrapper w
      rw [List.flatMap_cons, List.length_append, List.length_cons]
      omega

theorem extractOpusFramesFromFlashPage_page {timestampMs : Int} {wrappers : List AudioWrapper} (some_ : wrappers ≠ [])
    (array : (flashPageBytes timestampMs wrappers).length < 2 ^ 31) {fuel : Nat}
    (enough : (flashPageBytes timestampMs wrappers).length < fuel) :
    extractOpusFramesFromFlashPage fuel (flashPageBytes timestampMs wrappers) =
      some (wrappers.flatMap AudioWrapper.frames) := by
  have whole : Stands _ 0 (encodeIntField 1 timestampMs ++ wrappers.flatMap audioWrapper) :=
    Stands.whole (flashPageBytes timestampMs wrappers)
  have size : (flashPageBytes timestampMs wrappers).length = _ := List.length_append
  have wrapped := length_wrappers wrappers
  have time := encodeIntField_length 1 (by decide) timestampMs
  have varint := encodeVarint_length_pos timestampMs
  obtain ⟨tag, next⟩ := intField_stands (by decide) whole.left
  have audio : byteAt (flashPageBytes timestampMs wrappers) (0 + (encodeIntField 1 timestampMs).length) = some 0x1a := by
    obtain ⟨w, rest, rfl⟩ := List.exists_cons_of_ne_nil some_
    have first := whole.right
    rw [List.flatMap_cons] at first
    exact (bytesField_stands (by decide) array first.left).1
  have skipped : skipField (flashPageBytes timestampMs wrappers) 0x08 0 = 0 + (encodeIntField 1 timestampMs).length := by
    rw [skipField, if_pos (by exact tag), next]
  have kept : skipField (flashPageBytes timestampMs wrappers) 0x10 (0 + (encodeIntField 1 timestampMs).length) =
      0 + (encodeIntField 1 timestampMs).length := by
    rw [skipField, if_neg (by rw [audio]; decide)]
  rw [extractOpusFramesFromFlashPage, skipped, kept]
  refine run_wrappers array whole.right (by omega) (fun w member => ?_) (by omega) (by omega) []
  have inside := length_audioWrapper w
  have below := length_wrapper_le member
  omega

theorem parseFlashPageTimestampMs_page {timestampMs : Nat} (fits : timestampMs < 2 ^ 63) (wrappers : List AudioWrapper) :
    parseFlashPageTimestampMs (flashPageBytes timestampMs wrappers) = timestampMs := by
  have whole : Stands _ 0 (encodeIntField 1 timestampMs ++ wrappers.flatMap audioWrapper) :=
    Stands.whole (flashPageBytes timestampMs wrappers)
  have head : (flashPageBytes timestampMs wrappers).head? = some 0x08 := by
    rw [flashPageBytes, encodeIntField, encodeField_eq (by decide) (by decide)]
    rfl
  rw [parseFlashPageTimestampMs, if_pos head]
  exact intField_value (by decide) fits whole.left

/-! ## Messages -/

/-- What the walk over a storage buffer does with an integer field. -/
theorem storageTurn_int {num : Nat} (numbered : num ≤ 15) {value : Int}
    (stands : Stands data pos (encodeIntField num value)) (s : StorageWalk) (here : s.pos = pos) :
    storageTurn data s = .again { s.setField num (decodeVarint data (pos + 1)).1 with
      pos := pos + (encodeIntField num value).length } := by
  have after := stands.le_length
  have size := encodeIntField_length num numbered value
  obtain ⟨tag, next⟩ := intField_stands numbered stands
  rw [storageTurn, here, if_neg (by omega), tag]
  dsimp only
  rw [if_pos (wireType_tag numbered (by decide)), fieldNum_tag numbered (by decide), next]

theorem storageTurn_page (array : data.length < 2 ^ 31) {page : Bytes} (stands : Stands data pos (encodeBytesField 6 page))
    (s : StorageWalk) (here : s.pos = pos) :
    storageTurn data s =
      .again { s with flashPageData := some page, pos := pos + (encodeBytesField 6 page).length } := by
  have after := stands.le_length
  have size := encodeBytesField_length 6 (by decide) page
  obtain ⟨tag, next, read, content, same⟩ := bytesField_stands (by decide) array stands
  rw [storageTurn, here, if_neg (by omega), tag]
  dsimp only
  rw [if_neg (by decide), if_pos (by decide), read]
  dsimp only
  rw [if_neg (length_fits array content content.le_length), toInt_length array content, toInt_stands array content,
    if_pos (by decide), copyOfRange_stands content, same]

theorem run_storage {session index : Nat} (session_fits : session < 2 ^ 31) (index_fits : index < 2 ^ 31) (seq : Int)
    {page : Bytes} (array : (storageBufferBytes session seq index page).length < 2 ^ 31) {fuel : Nat} (enough : 5 ≤ fuel) :
    run (fun s => some (storageTurn (storageBufferBytes session seq index page) s)) fuel ⟨0, none, none, none⟩ =
      some (some ⟨(storageBufferBytes session seq index page).length, some session, some index, some page⟩) := by
  have whole : Stands _ 0 (encodeIntField 2 session ++ encodeIntField 4 seq ++ encodeIntField 5 index ++
    encodeBytesField 6 page) := Stands.whole (storageBufferBytes session seq index page)
  generalize ends : storageBufferBytes session seq index page = data at whole array ⊢
  have length : (data.length : Int) = 0 + (encodeIntField 2 session ++ encodeIntField 4 seq ++ encodeIntField 5 index).length +
      (encodeBytesField 6 page).length := by
    rw [← ends, storageBufferBytes, List.length_append, Int.natCast_add, Int.zero_add]
  have second : Stands data (0 + (encodeIntField 2 session).length) (encodeIntField 4 seq) := whole.left.left.right
  have third : Stands data _ (encodeIntField 5 index) := whole.left.right
  have fourth : Stands data _ (encodeBytesField 6 page) := whole.right
  have atSession : storageTurn data ⟨0, none, none, none⟩ =
      .again ⟨0 + (encodeIntField 2 session).length, some session, none, none⟩ := by
    rw [storageTurn_int (by decide) whole.left.left.left _ rfl, intField_value (by decide) (by omega) whole.left.left.left,
      StorageWalk.setField, toInt_eq (by omega) (by omega)]
  have atSeq : storageTurn data ⟨0 + (encodeIntField 2 session).length, some session, none, none⟩ =
      .again ⟨0 + (encodeIntField 2 session ++ encodeIntField 4 seq).length, some session, none, none⟩ := by
    rw [storageTurn_int (by decide) second _ rfl, StorageWalk.setField, List.length_append, Int.natCast_add, Int.add_assoc]
    exacts [by decide, by decide]
  have atIndex : storageTurn data ⟨0 + (encodeIntField 2 session ++ encodeIntField 4 seq).length, some session, none, none⟩ =
      .again ⟨0 + (encodeIntField 2 session ++ encodeIntField 4 seq ++ encodeIntField 5 index).length, some session,
        some index, none⟩ := by
    rw [storageTurn_int (by decide) third _ rfl, intField_value (by decide) (by omega) third, StorageWalk.setField,
      toInt_eq (by omega) (by omega), @List.length_append _ (_ ++ _), Int.natCast_add, Int.add_assoc]
  have atPage : storageTurn data ⟨0 + (encodeIntField 2 session ++ encodeIntField 4 seq ++ encodeIntField 5 index).length,
      some session, some index, none⟩ = .again ⟨data.length, some session, some index, some page⟩ := by
    rw [storageTurn_page array fourth _ rfl, length]
  obtain ⟨fuel, rfl⟩ := Nat.exists_eq_add_of_le' enough
  rw [run_again (congrArg some atSession) (fuel + 4), run_again (congrArg some atSeq) (fuel + 3),
    run_again (congrArg some atIndex) (fuel + 2), run_again (congrArg some atPage) (fuel + 1)]
  refine run_leave (congrArg some ?_) fuel
  rw [storageTurn, if_pos (Int.le_refl _)]

theorem parseStorageBuffer_page {session index timestampMs : Nat} (session_fits : session < 2 ^ 31)
    (index_fits : index < 2 ^ 31) (timestamp_fits : timestampMs < 2 ^ 63) (seq : Int) {wrappers : List AudioWrapper}
    (audio : wrappers.flatMap AudioWrapper.frames ≠ [])
    (array : (storageBufferBytes session seq index (flashPageBytes timestampMs wrappers)).length < 2 ^ 31) {fuel : Nat}
    (enough : (storageBufferBytes session seq index (flashPageBytes timestampMs wrappers)).length < fuel) :
    parseStorageBuffer fuel (storageBufferBytes session seq index (flashPageBytes timestampMs wrappers)) =
      some (some ⟨some index, some session, timestampMs, wrappers.flatMap AudioWrapper.frames⟩) := by
  have length : (storageBufferBytes session seq index (flashPageBytes timestampMs wrappers)).length = _ := List.length_append
  have pageField := encodeBytesField_length 6 (by decide) (flashPageBytes timestampMs wrappers)
  have page : (flashPageBytes timestampMs wrappers).length = _ := List.length_append
  have time := encodeIntField_length 1 (by decide) timestampMs
  have some_ : wrappers ≠ [] := by
    rintro rfl
    exact audio rfl
  have wrapped : 4 ≤ (wrappers.flatMap audioWrapper).length := by
    obtain ⟨w, rest, rfl⟩ := List.exists_cons_of_ne_nil some_
    have size := length_audioWrapper w
    have below := length_wrapper_le (List.mem_cons_self (a := w) (l := rest))
    omega
  have nonempty : (flashPageBytes timestampMs wrappers).isEmpty = false := by
    rw [List.isEmpty_eq_false_iff, ← List.length_pos_iff]
    omega
  have extracted : extractOpusFramesFromFlashPage fuel (flashPageBytes timestampMs wrappers) = _ :=
    extractOpusFramesFromFlashPage_page some_ (by omega) (by omega)
  have accepted : parseFailed fuel (flashPageBytes timestampMs wrappers) (wrappers.flatMap AudioWrapper.frames) =
      some false := by
    rw [parseFailed, if_neg (by rw [List.isEmpty_iff]; exact audio)]
  rw [parseStorageBuffer, run_storage session_fits index_fits seq array (by omega)]
  simp only [Option.bind_eq_bind, Option.bind_some, StorageWalk.page, nonempty, extracted, accepted,
    parseFlashPageTimestampMs_page timestamp_fits, Bool.false_eq_true, if_false]

theorem parsePendantMessage_page {session index timestampMs : Nat} (session_fits : session < 2 ^ 31)
    (index_fits : index < 2 ^ 31) (timestamp_fits : timestampMs < 2 ^ 63) (seq : Int) {wrappers : List AudioWrapper}
    (audio : wrappers.flatMap AudioWrapper.frames ≠ [])
    (array : (pendantMessage (storageBufferBytes session seq index (flashPageBytes timestampMs wrappers))).length < 2 ^ 31)
    {fuel : Nat}
    (enough : (pendantMessage (storageBufferBytes session seq index (flashPageBytes timestampMs wrappers))).length < fuel) :
    parsePendantMessage fuel (pendantMessage (storageBufferBytes session seq index (flashPageBytes timestampMs wrappers))) =
      some [⟨some index, some session, timestampMs, wrappers.flatMap AudioWrapper.frames⟩] := by
  have whole := Stands.whole (pendantMessage (storageBufferBytes session seq index (flashPageBytes timestampMs wrappers)))
  have size := encodeBytesField_length 2 (by decide)
    (storageBufferBytes session seq index (flashPageBytes timestampMs wrappers))
  have same : pendantMessage (storageBufferBytes session seq index (flashPageBytes timestampMs wrappers)) =
    encodeBytesField 2 (storageBufferBytes session seq index (flashPageBytes timestampMs wrappers)) := rfl
  rw [same] at array enough whole ⊢
  have varint := encodeVarint_length_pos
    (storageBufferBytes session seq index (flashPageBytes timestampMs wrappers)).length
  obtain ⟨tag, next, read, content, stop⟩ := bytesField_stands (by decide) array whole
  have parsed : parseStorageBuffer fuel _ = _ :=
    parseStorageBuffer_page session_fits index_fits timestamp_fits seq audio (by omega) (by omega)
  generalize storageBufferBytes session seq index (flashPageBytes timestampMs wrappers) = storage at *
  have turn : messageTurn fuel (encodeBytesField 2 storage) ⟨0, []⟩ =
      some (.again ⟨(encodeBytesField 2 storage).length,
        [⟨some index, some session, timestampMs, wrappers.flatMap AudioWrapper.frames⟩]⟩) := by
    rw [messageTurn]
    dsimp only
    rw [if_neg (by omega), tag]
    dsimp only
    rw [if_pos (by decide), read]
    dsimp only
    rw [if_neg (length_fits array content content.le_length), toInt_length array content, toInt_stands array content,
      if_pos (by decide), copyOfRange_stands content]
    dsimp only
    rw [parsed, stop, Int.zero_add]
    rfl
  obtain ⟨fuel, rfl⟩ := Nat.exists_eq_add_of_le' (show 2 ≤ fuel by omega)
  rw [parsePendantMessage, run_again turn (fuel + 1)]
  refine run_leave ?_ fuel
  rw [messageTurn, if_pos (Int.le_refl _)]

/-! ## Packets -/

theorem packetTurn_int {num : Nat} (numbered : num ≤ 15) {value : Int}
    (stands : Stands data pos (encodeIntField num value)) (s : PacketWalk) (here : s.pos = pos) :
    packetTurn data s = .again { s.setField num (decodeVarint data (pos + 1)).1 with
      pos := pos + (encodeIntField num value).length } := by
  have after := stands.le_length
  have size := encodeIntField_length num numbered value
  obtain ⟨tag, next⟩ := intField_stands numbered stands
  rw [packetTurn, here, if_neg (by omega), tag]
  dsimp only
  rw [if_pos (wireType_tag numbered (by decide)), fieldNum_tag numbered (by decide), next]

theorem packetTurn_payload (array : data.length < 2 ^ 31) {payload : Bytes}
    (stands : Stands data pos (encodeBytesField 4 payload)) (s : PacketWalk) (here : s.pos = pos) :
    packetTurn data s = .again { s with payload := some payload, pos := pos + (encodeBytesField 4 payload).length } := by
  have after := stands.le_length
  have size := encodeBytesField_length 4 (by decide) payload
  obtain ⟨tag, next, read, content, same⟩ := bytesField_stands (by decide) array stands
  rw [packetTurn, here, if_neg (by omega), tag]
  dsimp only
  rw [if_neg (by decide), if_pos (by decide), read]
  dsimp only
  rw [if_neg (length_fits array content content.le_length), toInt_length array content, toInt_stands array content,
    if_pos (by decide), copyOfRange_stands content, same]

theorem parseBlePacket_wrapper {index seq numFrags : Nat} (index_fits : index < 2 ^ 31) (seq_fits : seq < 2 ^ 31)
    (numFrags_fits : numFrags < 2 ^ 31) {payload : Bytes}
    (array : (bleWrapper index seq numFrags payload).length < 2 ^ 31) {fuel : Nat} (enough : 5 ≤ fuel) :
    parseBlePacket fuel (bleWrapper index seq numFrags payload) = some (some ⟨index, seq, numFrags, payload⟩) := by
  have whole : Stands _ 0 (encodeIntField 1 index ++ encodeIntField 2 seq ++ encodeIntField 3 numFrags ++
    encodeBytesField 4 payload) := Stands.whole (bleWrapper index seq numFrags payload)
  generalize ends : bleWrapper index seq numFrags payload = data at whole array ⊢
  have length : (data.length : Int) = 0 + (encodeIntField 1 index ++ encodeIntField 2 seq ++ encodeIntField 3 numFrags).length +
      (encodeBytesField 4 payload).length := by
    rw [← ends, bleWrapper, List.length_append, Int.natCast_add, Int.zero_add]
  have first : Stands data 0 (encodeIntField 1 index) := whole.left.left.left
  have second : Stands data (0 + (encodeIntField 1 index).length) (encodeIntField 2 seq) := whole.left.left.right
  have third : Stands data _ (encodeIntField 3 numFrags) := whole.left.right
  have fourth : Stands data _ (encodeBytesField 4 payload) := whole.right
  have atIndex : packetTurn data ⟨0, none, 0, none, none⟩ =
      .again ⟨0 + (encodeIntField 1 index).length, some index, 0, none, none⟩ := by
    rw [packetTurn_int (by decide) first _ rfl, intField_value (by decide) (by omega) first,
      PacketWalk.setField, toInt_eq (by omega) (by omega)]
  have atSeq : packetTurn data ⟨0 + (encodeIntField 1 index).length, some index, 0, none, none⟩ =
      .again ⟨0 + (encodeIntField 1 index ++ encodeIntField 2 seq).length, some index, seq, none, none⟩ := by
    rw [packetTurn_int (by decide) second _ rfl, intField_value (by decide) (by omega) second,
      PacketWalk.setField, toInt_eq (by omega) (by omega), List.length_append, Int.natCast_add, Int.add_assoc]
  have atNumFrags : packetTurn data ⟨0 + (encodeIntField 1 index ++ encodeIntField 2 seq).length, some index, seq, none, none⟩ =
      .again ⟨0 + (encodeIntField 1 index ++ encodeIntField 2 seq ++ encodeIntField 3 numFrags).length, some index, seq,
        some numFrags, none⟩ := by
    rw [packetTurn_int (by decide) third _ rfl, intField_value (by decide) (by omega) third, PacketWalk.setField,
      toInt_eq (by omega) (by omega), @List.length_append _ (_ ++ _), Int.natCast_add, Int.add_assoc]
  have atPayload : packetTurn data ⟨0 + (encodeIntField 1 index ++ encodeIntField 2 seq ++
      encodeIntField 3 numFrags).length, some index, seq, some numFrags, none⟩ =
      .again ⟨data.length, some index, seq, some numFrags, some payload⟩ := by
    rw [packetTurn_payload array fourth _ rfl, length]
  obtain ⟨fuel, rfl⟩ := Nat.exists_eq_add_of_le' enough
  rw [parseBlePacket, run_again (congrArg some atIndex) (fuel + 4), run_again (congrArg some atSeq) (fuel + 3),
    run_again (congrArg some atNumFrags) (fuel + 2), run_again (congrArg some atPayload) (fuel + 1)]
  refine run_leave (congrArg some ?_) fuel
  rw [packetTurn, if_pos (Int.le_refl _)]
  rfl

end Kotlin

end OmiLocal.Limitless
