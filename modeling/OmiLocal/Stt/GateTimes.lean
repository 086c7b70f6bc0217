import OmiLocal.Stt.VadGate
import Mathlib.Tactic.Linarith
import Mathlib.Tactic.FieldSimp
import Mathlib.Tactic.Ring
import Mathlib.Data.List.Range

/-!
# Gated timestamps and the original audio

A session delivers chunks in real time: the wall time of a chunk is the first
chunk's plus the duration of all audio before it. Each received byte carries its
offset, so the forwarded audio says where each of its bytes came from. Provider
time maps back to that offset as long as every silence-to-speech transition keeps
`Sound`: a checkpoint set after shadow audio stands for that audio too, so it is
right only when nothing was dropped before it.
-/
namespace OmiLocal.Stt

open Lib.Bisect

abbrev Heard := UInt8 × Nat

structure Session where
  gate : Gate Heard
  received : List Heard
  forwarded : List Heard
  shadowChunks : List (List Heard)
  transitions : Nat

inductive Action where
  | deliver (pcm : List UInt8) (isSpeech : Bool)
  | activate

namespace Session

def opened (mode : GateMode) : Session := ⟨.new mode, [], [], [], 0⟩

def Initial (s : Session) : Prop := ∃ mode, s = opened mode

/-- A speech chunk that finds the gate silent. -/
def Onset (s : Session) (isSpeech : Bool) : Prop :=
  s.gate.mode = .active ∧ s.gate.state = .silence ∧ isSpeech = true

instance (s : Session) (isSpeech : Bool) : Decidable (s.Onset isSpeech) :=
  inferInstanceAs (Decidable (_ ∧ _ ∧ _))

def WholeFrames (config : Config) (s : Session) : Prop :=
  ∀ chunk ∈ s.shadowChunks, config.frameBytes ∣ chunk.length

/-- Forwarded audio and the pre-roll together are all the audio received with `pcm`. -/
def NothingDropped (config : Config) (s : Session) (pcm : List Heard) : Prop :=
  s.forwarded.length + (s.gate.bufferPreRoll config pcm).1.flatten.length = s.received.length + pcm.length

variable (config : Config) (start : ℚ)

def heard (s : Session) (pcm : List UInt8) : List Heard := pcm.zipIdx s.received.length

def deliver (s : Session) (pcm : List UInt8) (isSpeech : Bool) : Session :=
  let chunk := s.heard pcm
  let result := s.gate.processAudio config chunk isSpeech (start + config.seconds s.received.length)
  { gate := result.1
    received := s.received ++ chunk
    forwarded := s.forwarded ++ result.2.audioToSend
    shadowChunks := if s.gate.mode = .shadow then s.shadowChunks ++ [chunk] else s.shadowChunks
    transitions := s.transitions + if s.Onset isSpeech then 1 else 0 }

def act (s : Session) : Action → Session
  | .deliver pcm isSpeech => s.deliver config start pcm isSpeech
  | .activate => { s with gate := s.gate.activate }

def Step (s : Session) (action : Action) (t : Session) : Prop := t = s.act config start action

/-- What a silence-to-speech transition needs: `wallRel` reads a first wall time of
zero as missing, and the first checkpoint also stands for all shadow audio, whose
length `activate` takes from a count of whole frames. -/
def Sound (s : Session) : Action → Prop
  | .activate => True
  | .deliver pcm isSpeech =>
    s.Onset isSpeech →
      (start = 0 → s.NothingDropped config (s.heard pcm)) ∧
      (s.gate.mapper.checkpoints = [] → s.forwarded ≠ [] →
        start ≠ 0 ∧ s.WholeFrames config ∧ s.NothingDropped config (s.heard pcm))

def SoundStep (s : Session) (action : Action) (t : Session) : Prop :=
  s.Sound config start action ∧ s.Step config start action t

/-- Every forwarded byte's provider time maps to its offset in the received audio. -/
def PointsAtOriginal (s : Session) : Prop :=
  ∀ k byte, s.forwarded[k]? = some byte → s.gate.mapper.dgToWallRel (config.seconds k) = config.seconds byte.2

end Session

namespace Config

variable (config : Config)

theorem bytesPerSecond_pos : (0 : ℚ) < config.bytesPerSecond := by
  have positive : 0 < config.bytesPerSecond :=
    Nat.mul_pos (Nat.mul_pos (by decide) config.channels_pos) config.sampleRate_pos
  exact_mod_cast positive

@[simp] theorem seconds_zero : config.seconds 0 = 0 := by simp [seconds]

theorem seconds_add (m n : Nat) : config.seconds (m + n) = config.seconds m + config.seconds n := by
  simp [seconds, add_div]

theorem seconds_nonneg (n : Nat) : 0 ≤ config.seconds n := by
  exact div_nonneg (Nat.cast_nonneg n) config.bytesPerSecond_pos.le

theorem seconds_lt {m n : Nat} (h : m < n) : config.seconds m < config.seconds n := by
  exact (div_lt_div_iff_of_pos_right config.bytesPerSecond_pos).mpr (by exact_mod_cast h)

theorem seconds_le {m n : Nat} (h : m ≤ n) : config.seconds m ≤ config.seconds n := by
  rcases Nat.lt_or_eq_of_le h with less | rfl
  · exact (config.seconds_lt less).le
  · exact le_refl _

/-- The sample count of a chunk of whole frames gives its exact duration. -/
theorem samples_ms {n : Nat} (whole : config.frameBytes ∣ n) :
    ((n / config.frameBytes : Nat) : ℚ) * 1000 / config.sampleRate = config.seconds n * 1000 := by
  obtain ⟨samples, rfl⟩ := whole
  have frame : 0 < config.frameBytes := Nat.mul_pos (by decide) config.channels_pos
  have frameQ : (config.frameBytes : ℚ) ≠ 0 := by exact_mod_cast frame.ne'
  have rateQ : (config.sampleRate : ℚ) ≠ 0 := by exact_mod_cast config.sampleRate_pos.ne'
  have split : (config.bytesPerSecond : ℚ) = config.frameBytes * config.sampleRate := by
    exact_mod_cast rfl
  rw [Nat.mul_div_cancel_left samples frame, seconds, split]
  push_cast
  field_simp

end Config

namespace WallTimeMapper

variable {mapper : WallTimeMapper} {last : Checkpoint} {t : ℚ}

theorem dgToWallRel_nil (none : mapper.checkpoints = []) : mapper.dgToWallRel t = t := by
  simp [dgToWallRel, none]

theorem dgToWallRel_last (final : mapper.checkpoints.getLast? = some last)
    (passed : ∀ c ∈ mapper.checkpoints, c.dgSec ≤ t) :
    mapper.dgToWallRel t = last.wallRelSec + (t - last.dgSec) := by
  have count : bisectRight (mapper.checkpoints.map (·.dgSec)) t = mapper.checkpoints.length := by
    rw [bisectRight_of_forall_le, List.length_map]
    intro mark h
    obtain ⟨c, member, rfl⟩ := List.mem_map.mp h
    exact passed c member
  rw [List.getLast?_eq_getElem?] at final
  simp only [dgToWallRel, count, final]

/-- A checkpoint ahead of `t` matters only when it is the first one. -/
theorem dgToWallRel_snoc {later : WallTimeMapper} (some : mapper.checkpoints ≠ [])
    (appended : later.checkpoints = mapper.checkpoints ++ [last]) (ahead : t < last.dgSec) :
    later.dgToWallRel t = mapper.dgToWallRel t := by
  have same : bisectRight ((mapper.checkpoints ++ [last]).map (·.dgSec)) t =
      bisectRight (mapper.checkpoints.map (·.dgSec)) t := by
    rw [List.map_append]
    exact bisectRight_append_of_lt ahead
  have inside : bisectRight (mapper.checkpoints.map (·.dgSec)) t - 1 < mapper.checkpoints.length := by
    have bound := bisectRight_le_length (mapper.checkpoints.map (·.dgSec)) t
    rw [List.length_map] at bound
    have positive := List.length_pos_iff.mpr some
    omega
  simp only [dgToWallRel, appended, same, List.getElem?_append_left inside]

theorem dgToWallRel_single (only : mapper.checkpoints = [last]) :
    mapper.dgToWallRel t = last.wallRelSec + (t - last.dgSec) := by
  have index : bisectRight (mapper.checkpoints.map (·.dgSec)) t - 1 = 0 := by
    have bound := bisectRight_le_length (mapper.checkpoints.map (·.dgSec)) t
    rw [only, List.length_map, List.length_singleton] at bound
    rw [only]
    omega
  simp only [dgToWallRel, index]
  simp [only]

theorem onAudioSent_sending {duration wall : ℚ} (sending : mapper.sending = true) :
    mapper.onAudioSent duration wall = { mapper with providerCursorSec := mapper.providerCursorSec + duration } := by
  simp [onAudioSent, sending]

theorem onAudioSent_resumed {duration wall : ℚ} (stopped : mapper.sending = false)
    (room : mapper.checkpoints.length < maxCheckpoints) :
    mapper.onAudioSent duration wall =
      ⟨mapper.checkpoints ++ [⟨mapper.providerCursorSec, mapper.clampWall wall⟩],
        mapper.providerCursorSec + duration, true⟩ := by
  simp [onAudioSent, stopped, compact, Nat.not_lt.mpr (Nat.succ_le_of_lt room)]

end WallTimeMapper

/-! ### Bytes that carry their offsets -/

/-- The bytes of `audio` were received one after the other from offset `first` on. -/
def Numbered (first : Nat) (audio : List Heard) : Prop :=
  ∀ j byte, audio[j]? = some byte → byte.2 = first + j

namespace Numbered

theorem nil (first : Nat) : Numbered first [] := by
  intro j byte h
  simp at h

theorem zipIdx (pcm : List UInt8) (first : Nat) : Numbered first (pcm.zipIdx first) := by
  intro j byte h
  rw [List.getElem?_zipIdx] at h
  obtain ⟨value, _, rfl⟩ := Option.map_eq_some_iff.mp h
  rfl

theorem append {first : Nat} {front back : List Heard} (left : Numbered first front)
    (right : Numbered (first + front.length) back) : Numbered first (front ++ back) := by
  intro j byte h
  rcases Nat.lt_or_ge j front.length with inside | outside
  · rw [List.getElem?_append_left inside] at h
    exact left j byte h
  · rw [List.getElem?_append_right outside] at h
    rw [right _ byte h]
    omega

theorem left {first : Nat} {front audio : List Heard} (all : Numbered first audio) (part : front <+: audio) :
    Numbered first front := by
  obtain ⟨rest, rfl⟩ := part
  intro j byte h
  obtain ⟨inside, _⟩ := List.getElem?_eq_some_iff.mp h
  exact all j byte (by rw [List.getElem?_append_left inside, h])

theorem suffix {first : Nat} {back audio : List Heard} (all : Numbered first audio) (part : back <:+ audio) :
    Numbered (first + (audio.length - back.length)) back := by
  obtain ⟨front, rfl⟩ := part
  intro j byte h
  have moved : (front ++ back)[front.length + j]? = some byte := by
    rw [List.getElem?_append_right (Nat.le_add_right _ _), Nat.add_sub_cancel_left, h]
  rw [all _ byte moved, List.length_append]
  omega

end Numbered

/-! ### What the mapper knows -/

/-- Provider time maps back for all forwarded audio, whose last byte was received just before `upto`. -/
structure Mapped (config : Config) (mapper : WallTimeMapper) (forwarded : List Heard) (upto : Nat) : Prop where
  cursor : mapper.providerCursorSec = config.seconds forwarded.length
  marks : ∀ c ∈ mapper.checkpoints, c.dgSec ≤ mapper.providerCursorSec
  last : ∃ last, mapper.checkpoints.getLast? = some last ∧ mapper.minWall last = config.seconds upto
  points : ∀ k byte, forwarded[k]? = some byte → mapper.dgToWallRel (config.seconds k) = config.seconds byte.2

namespace Mapped

variable {config : Config} {mapper : WallTimeMapper} {forwarded audio : List Heard} {upto first : Nat}

theorem checkpoints_ne_nil (mapped : Mapped config mapper forwarded upto) : mapper.checkpoints ≠ [] := by
  obtain ⟨last, final, _⟩ := mapped.last
  intro none
  simp [none] at final

theorem skip (mapped : Mapped config mapper forwarded upto) :
    Mapped config mapper.onSilenceSkipped forwarded upto := by
  exact ⟨mapped.cursor, mapped.marks, mapped.last, mapped.points⟩

/-- Bytes at the provider cursor map from the last checkpoint. -/
theorem points_new {later : WallTimeMapper} {last : Checkpoint} (final : later.checkpoints.getLast? = some last)
    (marks : ∀ c ∈ later.checkpoints, c.dgSec ≤ config.seconds forwarded.length)
    (begins : last.wallRelSec + (config.seconds forwarded.length - last.dgSec) = config.seconds first)
    (numbered : Numbered first audio) (j : Nat) (byte : Heard) (h : audio[j]? = some byte) :
    later.dgToWallRel (config.seconds (forwarded.length + j)) = config.seconds byte.2 := by
  have ahead := config.seconds_le (Nat.le_add_right forwarded.length j)
  rw [WallTimeMapper.dgToWallRel_last final (fun c member => (marks c member).trans ahead), numbered j byte h,
    config.seconds_add, config.seconds_add, ← begins]
  ring

theorem extend {later : WallTimeMapper} (old : ∀ k byte, forwarded[k]? = some byte →
      later.dgToWallRel (config.seconds k) = config.seconds byte.2)
    (new : ∀ j byte, audio[j]? = some byte →
      later.dgToWallRel (config.seconds (forwarded.length + j)) = config.seconds byte.2)
    (k : Nat) (byte : Heard) (h : (forwarded ++ audio)[k]? = some byte) :
    later.dgToWallRel (config.seconds k) = config.seconds byte.2 := by
  rcases Nat.lt_or_ge k forwarded.length with inside | outside
  · rw [List.getElem?_append_left inside] at h
    exact old k byte h
  · rw [List.getElem?_append_right outside] at h
    have moved := new (k - forwarded.length) byte h
    rwa [Nat.add_sub_cancel' outside] at moved

theorem send (mapped : Mapped config mapper forwarded upto) (sending : mapper.sending = true) (wall : ℚ)
    (numbered : Numbered upto audio) :
    Mapped config (mapper.onAudioSent (config.seconds audio.length) wall) (forwarded ++ audio)
      (upto + audio.length) := by
  obtain ⟨last, final, reach⟩ := mapped.last
  rw [WallTimeMapper.onAudioSent_sending sending]
  constructor
  · rw [List.length_append, config.seconds_add, ← mapped.cursor]
  · intro c member
    exact (mapped.marks c member).trans (le_add_of_nonneg_right (config.seconds_nonneg _))
  · refine ⟨last, final, ?_⟩
    rw [config.seconds_add, ← reach]
    simp only [WallTimeMapper.minWall]
    ring
  · apply extend
    · exact mapped.points
    · refine points_new final ?_ ?_ numbered
      · rw [← mapped.cursor]
        exact mapped.marks
      · rw [← mapped.cursor]
        exact reach

/-- A new checkpoint at the provider cursor, with the session time of the audio sent there. -/
theorem restart {wall : ℚ} (cursor : mapper.providerCursorSec = config.seconds forwarded.length)
    (marks : ∀ c ∈ mapper.checkpoints, c.dgSec ≤ mapper.providerCursorSec)
    (stopped : mapper.sending = false) (room : mapper.checkpoints.length < maxCheckpoints)
    (clamped : mapper.clampWall wall = config.seconds first) (numbered : Numbered first audio)
    (old : ∀ k byte, forwarded[k]? = some byte →
      (mapper.onAudioSent (config.seconds audio.length) wall).dgToWallRel (config.seconds k) = config.seconds byte.2) :
    Mapped config (mapper.onAudioSent (config.seconds audio.length) wall) (forwarded ++ audio)
      (first + audio.length) := by
  rw [WallTimeMapper.onAudioSent_resumed stopped room] at old ⊢
  have all : ∀ c ∈ mapper.checkpoints ++ [⟨mapper.providerCursorSec, mapper.clampWall wall⟩],
      c.dgSec ≤ mapper.providerCursorSec := by
    intro c member
    rcases List.mem_append.mp member with before | new
    · exact marks c before
    · rw [List.mem_singleton.mp new]
  constructor
  · rw [List.length_append, config.seconds_add, ← cursor]
  · intro c member
    exact (all c member).trans (le_add_of_nonneg_right (config.seconds_nonneg _))
  · refine ⟨_, List.getLast?_concat, ?_⟩
    simp only [WallTimeMapper.minWall, clamped, config.seconds_add]
    ring
  · apply extend old
    refine points_new List.getLast?_concat ?_ ?_ numbered
    · rw [← cursor]
      exact all
    · rw [clamped, cursor]
      ring

theorem resume {wall : ℚ} (mapped : Mapped config mapper forwarded upto) (stopped : mapper.sending = false)
    (room : mapper.checkpoints.length < maxCheckpoints) (clamped : mapper.clampWall wall = config.seconds first)
    (numbered : Numbered first audio) :
    Mapped config (mapper.onAudioSent (config.seconds audio.length) wall) (forwarded ++ audio)
      (first + audio.length) := by
  refine restart mapped.cursor mapped.marks stopped room clamped numbered ?_
  intro k byte h
  obtain ⟨inside, _⟩ := List.getElem?_eq_some_iff.mp h
  rw [WallTimeMapper.onAudioSent_resumed stopped room, ← mapped.points k byte h]
  apply WallTimeMapper.dgToWallRel_snoc mapped.checkpoints_ne_nil rfl
  rw [mapped.cursor]
  exact config.seconds_lt inside

/-- The first checkpoint of a session also stands for all audio forwarded before it. -/
theorem first_checkpoint {wall : ℚ} (none : mapper.checkpoints = []) (stopped : mapper.sending = false)
    (cursor : mapper.providerCursorSec = config.seconds forwarded.length) (timed : wall = config.seconds first)
    (numbered : Numbered first audio) (before : Numbered 0 forwarded)
    (whole : forwarded ≠ [] → first = forwarded.length) :
    Mapped config (mapper.onAudioSent (config.seconds audio.length) wall) (forwarded ++ audio)
      (first + audio.length) := by
  have room : mapper.checkpoints.length < maxCheckpoints := by
    rw [none]
    decide
  have clamped : mapper.clampWall wall = config.seconds first := by
    rw [WallTimeMapper.clampWall, none]
    exact timed
  refine restart cursor (by simp [none]) stopped room clamped numbered ?_
  intro k byte h
  have some : forwarded ≠ [] := by
    rintro rfl
    simp at h
  rw [WallTimeMapper.onAudioSent_resumed stopped room, none, List.nil_append,
    WallTimeMapper.dgToWallRel_single rfl, clamped, cursor, whole some, before k byte h, Nat.zero_add]
  ring

end Mapped

/-! ### The pre-roll -/

namespace Gate

variable {α : Type} (config : Config)

theorem evict_suffix (chunks : List (List α)) (totalMs : ℚ) : (evict config chunks totalMs).1 <:+ chunks := by
  induction chunks generalizing totalMs with
  | nil => exact List.suffix_refl []
  | cons oldest rest ih =>
      cases rest with
      | nil => exact List.suffix_refl [oldest]
      | cons next rest =>
          rw [evict]
          split
          · exact (ih _).trans (List.suffix_cons oldest _)
          · exact List.suffix_refl _

theorem evict_keeps_newest (chunks : List (List α)) (pcm : List α) (totalMs : ℚ) :
    [pcm] <:+ (evict config (chunks ++ [pcm]) totalMs).1 := by
  induction chunks generalizing totalMs with
  | nil => exact List.suffix_refl [pcm]
  | cons oldest rest ih =>
      obtain ⟨next, others, shape⟩ : ∃ next others, rest ++ [pcm] = next :: others :=
        List.exists_cons_of_ne_nil (by simp)
      rw [List.cons_append, shape, evict]
      split
      · rw [← shape]
        exact ih _
      · exact (List.suffix_append rest [pcm]).trans (shape ▸ List.suffix_cons oldest _)

theorem bufferPreRoll_suffix (gate : Gate α) (pcm : List α) :
    (gate.bufferPreRoll config pcm).1.flatten <:+ gate.preRoll.flatten ++ pcm := by
  obtain ⟨dropped, split⟩ := evict_suffix config (gate.preRoll ++ [pcm])
    (gate.preRollTotalMs + config.seconds pcm.length * 1000)
  refine ⟨dropped.flatten, ?_⟩
  rw [bufferPreRoll, ← List.flatten_append, split]
  simp

theorem length_le_bufferPreRoll (gate : Gate α) (pcm : List α) :
    pcm.length ≤ (gate.bufferPreRoll config pcm).1.flatten.length := by
  obtain ⟨older, split⟩ := evict_keeps_newest config gate.preRoll pcm
    (gate.preRollTotalMs + config.seconds pcm.length * 1000)
  rw [bufferPreRoll, ← split]
  simp

end Gate

/-- The pre-roll is the newest audio, all of it received after `upto`. -/
structure Held (preRoll : List (List Heard)) (received : List Heard) (upto : Nat) : Prop where
  newest : preRoll.flatten <:+ received
  fresh : upto + preRoll.flatten.length ≤ received.length

namespace Held

variable {received chunk : List Heard} {upto : Nat}

theorem empty (h : upto ≤ received.length) : Held [] received upto := by
  constructor
  · exact List.nil_suffix
  · simpa using h

theorem buffer (config : Config) {gate : Gate Heard} (held : Held gate.preRoll received upto) (chunk : List Heard) :
    Held (gate.bufferPreRoll config chunk).1 (received ++ chunk) upto := by
  have part := gate.bufferPreRoll_suffix config chunk
  constructor
  · exact part.trans ((List.suffix_append_inj_of_length_eq rfl).mpr ⟨held.newest, rfl⟩)
  · have short := part.length_le
    have fresh := held.fresh
    rw [List.length_append] at short ⊢
    omega

end Held

/-! ### The phases of a session -/

inductive Phase (config : Config) (start : ℚ) (s : Session) : Prop
  | shadow (mode : s.gate.mode = .shadow) (state : s.gate.state = .silence) (mapper : s.gate.mapper = .new)
      (all : s.forwarded = s.received) (chunks : s.shadowChunks.flatten = s.forwarded)
      (cursor : s.WholeFrames config → s.gate.audioCursorMs = config.seconds s.forwarded.length * 1000)
  | waiting (mode : s.gate.mode = .active) (state : s.gate.state = .silence)
      (none : s.gate.mapper.checkpoints = []) (stopped : s.gate.mapper.sending = false)
      (front : s.forwarded <+: s.received) (chunks : s.shadowChunks.flatten = s.forwarded)
      (cursor : s.WholeFrames config → s.gate.mapper.providerCursorSec = config.seconds s.forwarded.length)
      (held : Held s.gate.preRoll s.received s.forwarded.length)
  | silent (upto : Nat) (mode : s.gate.mode = .active) (state : s.gate.state = .silence)
      (stopped : s.gate.mapper.sending = false) (mapped : Mapped config s.gate.mapper s.forwarded upto)
      (held : Held s.gate.preRoll s.received upto) (counted : s.gate.mapper.checkpoints.length ≤ s.transitions)
      (zero : start = 0 → upto = s.forwarded.length)
  | sending (mode : s.gate.mode = .active) (state : s.gate.state ≠ .silence)
      (sending : s.gate.mapper.sending = true) (mapped : Mapped config s.gate.mapper s.forwarded s.received.length)
      (counted : s.gate.mapper.checkpoints.length ≤ s.transitions)
      (zero : start = 0 → s.received.length = s.forwarded.length)

structure Aligned (config : Config) (start : ℚ) (s : Session) : Prop where
  numbered : Numbered 0 s.received
  clock : s.gate.firstAudioWallTime = some start ∨ s.gate.firstAudioWallTime = none ∧ s.received = []
  phase : s.transitions ≤ maxCheckpoints → Phase config start s

section Chunk

variable {config : Config} {start : ℚ} {s : Session}

namespace Session

def tracked (config : Config) (start : ℚ) (s : Session) (pcm : List UInt8) (isSpeech : Bool) : Gate Heard :=
  s.gate.track config (s.heard pcm) isSpeech (start + config.seconds s.received.length)

theorem deliver_shadow (mode : s.gate.mode = .shadow) (pcm : List UInt8) (isSpeech : Bool) :
    s.deliver config start pcm isSpeech =
      ⟨s.tracked config start pcm isSpeech, s.received ++ s.heard pcm, s.forwarded ++ s.heard pcm,
        s.shadowChunks ++ [s.heard pcm], s.transitions⟩ := by
  simp [deliver, Gate.processAudio, mode, Onset, tracked]

theorem deliver_active (mode : s.gate.mode = .active) (pcm : List UInt8) (isSpeech : Bool) :
    s.deliver config start pcm isSpeech =
      let result := (s.tracked config start pcm isSpeech).updateState config (s.heard pcm) isSpeech
        (start + config.seconds s.received.length)
      ⟨result.1, s.received ++ s.heard pcm, s.forwarded ++ result.2.audioToSend, s.shadowChunks,
        s.transitions + if s.Onset isSpeech then 1 else 0⟩ := by
  simp [deliver, Gate.processAudio, mode, tracked]

theorem heard_numbered (s : Session) (pcm : List UInt8) : Numbered s.received.length (s.heard pcm) := by
  exact Numbered.zipIdx pcm s.received.length

end Session

theorem tracked_clock (aligned : Aligned config start s) (pcm : List UInt8) (isSpeech : Bool) :
    (s.tracked config start pcm isSpeech).firstAudioWallTime = some start := by
  rcases aligned.clock with known | ⟨unknown, empty⟩
  · simp [Session.tracked, Gate.track, known]
  · simp [Session.tracked, Gate.track, unknown, empty]

theorem tracked_wallRel (aligned : Aligned config start s) (pcm : List UInt8) (isSpeech : Bool) :
    (s.tracked config start pcm isSpeech).wallRel (start + config.seconds s.received.length) =
      if start ≠ 0 then config.seconds s.received.length else 0 := by
  rw [Gate.wallRel, tracked_clock aligned]
  simp only [add_sub_cancel_left]

/-- The session time that an onset gives its pre-roll. -/
theorem onset_wall (aligned : Aligned config start s) (pcm : List UInt8) (isSpeech : Bool) {audio : List Heard}
    (newest : (s.heard pcm).length ≤ audio.length) (part : audio.length ≤ s.received.length + (s.heard pcm).length) :
    max 0 ((s.tracked config start pcm isSpeech).wallRel (start + config.seconds s.received.length) -
        config.seconds audio.length + config.seconds (s.heard pcm).length) =
      if start ≠ 0 then config.seconds (s.received.length + (s.heard pcm).length - audio.length) else 0 := by
  rw [tracked_wallRel aligned]
  split
  · have total : config.seconds (s.received.length + (s.heard pcm).length - audio.length) + config.seconds audio.length =
        config.seconds s.received.length + config.seconds (s.heard pcm).length := by
      rw [← config.seconds_add, ← config.seconds_add, Nat.sub_add_cancel part]
    have positive := config.seconds_nonneg (s.received.length + (s.heard pcm).length - audio.length)
    rw [max_eq_right] <;> linarith
  · have short := config.seconds_le newest
    rw [max_eq_left]
    linarith

theorem Session.WholeFrames.of_snoc {gate : Gate Heard} {received forwarded chunk : List Heard} {n : Nat}
    (whole : Session.WholeFrames config ⟨gate, received, forwarded, s.shadowChunks ++ [chunk], n⟩) :
    s.WholeFrames config ∧ config.frameBytes ∣ chunk.length := by
  constructor
  · intro other member
    exact whole other (List.mem_append_left _ member)
  · exact whole chunk (List.mem_append_right _ (List.mem_singleton_self chunk))

theorem shadow_deliver (mode : s.gate.mode = .shadow) (state : s.gate.state = .silence)
    (mapper : s.gate.mapper = .new) (all : s.forwarded = s.received) (chunks : s.shadowChunks.flatten = s.forwarded)
    (cursor : s.WholeFrames config → s.gate.audioCursorMs = config.seconds s.forwarded.length * 1000)
    (pcm : List UInt8) (isSpeech : Bool) : Phase config start (s.deliver config start pcm isSpeech) := by
  rw [Session.deliver_shadow mode]
  refine .shadow mode state mapper ?_ ?_ ?_
  · rw [all]
  · rw [List.flatten_append, chunks, List.flatten_singleton]
  · intro whole
    obtain ⟨before, frames⟩ := Session.WholeFrames.of_snoc whole
    rw [List.length_append, config.seconds_add, add_mul, ← cursor before, ← config.samples_ms frames]
    rfl

/-- Silence: the chunk only enters the pre-roll. -/
theorem silence_deliver (mode : s.gate.mode = .active) (state : s.gate.state = .silence) (pcm : List UInt8) :
    s.deliver config start pcm false =
      ⟨{ s.tracked config start pcm false with
          preRoll := (s.gate.bufferPreRoll config (s.heard pcm)).1
          preRollTotalMs := (s.gate.bufferPreRoll config (s.heard pcm)).2
          mapper := s.gate.mapper.onSilenceSkipped },
        s.received ++ s.heard pcm, s.forwarded, s.shadowChunks, s.transitions⟩ := by
  have same : (s.tracked config start pcm false).state = .silence := state
  rw [Session.deliver_active mode]
  simp only [Gate.updateState, same, Gate.updateSilence, Session.Onset]
  simp
  exact ⟨rfl, rfl, rfl⟩

theorem onset_deliver (mode : s.gate.mode = .active) (state : s.gate.state = .silence) (pcm : List UInt8) :
    let audio := (s.gate.bufferPreRoll config (s.heard pcm)).1.flatten
    s.deliver config start pcm true =
      ⟨{ s.tracked config start pcm true with
          state := .speech
          preRoll := []
          preRollTotalMs := 0
          mapper := s.gate.mapper.onAudioSent (config.seconds audio.length)
            (max 0 ((s.tracked config start pcm true).wallRel (start + config.seconds s.received.length) -
              config.seconds audio.length + config.seconds (s.heard pcm).length)) },
        s.received ++ s.heard pcm, s.forwarded ++ audio, s.shadowChunks, s.transitions + 1⟩ := by
  have same : (s.tracked config start pcm true).state = .silence := state
  have onset : s.Onset true := ⟨mode, state, rfl⟩
  rw [Session.deliver_active mode]
  simp only [Gate.updateState, same, Gate.updateSilence, if_pos onset]
  rfl

theorem waiting_silence (mode : s.gate.mode = .active) (state : s.gate.state = .silence)
    (none : s.gate.mapper.checkpoints = []) (front : s.forwarded <+: s.received)
    (chunks : s.shadowChunks.flatten = s.forwarded)
    (cursor : s.WholeFrames config → s.gate.mapper.providerCursorSec = config.seconds s.forwarded.length)
    (held : Held s.gate.preRoll s.received s.forwarded.length) (pcm : List UInt8) :
    Phase config start (s.deliver config start pcm false) := by
  rw [silence_deliver mode state]
  refine .waiting mode state none rfl ?_ chunks cursor (held.buffer config _)
  exact front.trans (List.prefix_append _ _)

theorem silent_silence {upto : Nat} (mode : s.gate.mode = .active) (state : s.gate.state = .silence)
    (mapped : Mapped config s.gate.mapper s.forwarded upto) (held : Held s.gate.preRoll s.received upto)
    (counted : s.gate.mapper.checkpoints.length ≤ s.transitions) (zero : start = 0 → upto = s.forwarded.length)
    (pcm : List UInt8) : Phase config start (s.deliver config start pcm false) := by
  rw [silence_deliver mode state]
  exact .silent upto mode state rfl mapped.skip (held.buffer config _) counted zero

/-- The audio an onset sends is the newest received, and it begins where the mapper is told. -/
structure Begins (config : Config) (s : Session) (pcm : List UInt8) (first : Nat) (audio : List Heard) : Prop where
  total : first + audio.length = s.received.length + (s.heard pcm).length
  numbered : Numbered first audio
  newest : (s.heard pcm).length ≤ audio.length

theorem onset_begins (aligned : Aligned config start s) {upto : Nat} (held : Held s.gate.preRoll s.received upto)
    (pcm : List UInt8) : ∃ first, upto ≤ first ∧
      Begins config s pcm first (s.gate.bufferPreRoll config (s.heard pcm)).1.flatten := by
  have after := held.buffer config (s.heard pcm)
  have fresh := after.fresh
  rw [List.length_append] at fresh
  refine ⟨s.received.length + (s.heard pcm).length -
    (s.gate.bufferPreRoll config (s.heard pcm)).1.flatten.length, by omega, by omega, ?_,
    s.gate.length_le_bufferPreRoll config (s.heard pcm)⟩
  have received : Numbered 0 (s.received ++ s.heard pcm) := by
    apply aligned.numbered.append
    rw [Nat.zero_add]
    exact s.heard_numbered pcm
  have numbered := received.suffix after.newest
  rwa [Nat.zero_add, List.length_append] at numbered

theorem Begins.wall (aligned : Aligned config start s) {pcm : List UInt8} {first : Nat} {audio : List Heard}
    (begins : Begins config s pcm first audio) (isSpeech : Bool) :
    max 0 ((s.tracked config start pcm isSpeech).wallRel (start + config.seconds s.received.length) -
        config.seconds audio.length + config.seconds (s.heard pcm).length) =
      if start ≠ 0 then config.seconds first else 0 := by
  have total := begins.total
  rw [onset_wall aligned pcm isSpeech begins.newest (by omega)]
  have same : s.received.length + (s.heard pcm).length - audio.length = first := by omega
  rw [same]

theorem waiting_onset (aligned : Aligned config start s) (mode : s.gate.mode = .active)
    (state : s.gate.state = .silence) (none : s.gate.mapper.checkpoints = [])
    (stopped : s.gate.mapper.sending = false) (front : s.forwarded <+: s.received)
    (chunks : s.shadowChunks.flatten = s.forwarded)
    (cursor : s.WholeFrames config → s.gate.mapper.providerCursorSec = config.seconds s.forwarded.length)
    (held : Held s.gate.preRoll s.received s.forwarded.length) {pcm : List UInt8}
    (sound : s.Sound config start (.deliver pcm true)) :
    Phase config start (s.deliver config start pcm true) := by
  obtain ⟨first, _, begins⟩ := onset_begins aligned held pcm
  obtain ⟨dropless, whole⟩ := sound ⟨mode, state, rfl⟩
  have total := begins.total
  have frames : s.WholeFrames config := by
    by_cases empty : s.forwarded = []
    · intro chunk member
      rw [empty, List.flatten_eq_nil_iff] at chunks
      rw [chunks chunk member]
      exact dvd_zero _
    · exact (whole none empty).2.1
  have timed : (if start ≠ 0 then config.seconds first else 0) = config.seconds first := by
    by_cases zero : start = 0
    · have empty : s.forwarded = [] := by
        by_contra some
        exact (whole none some).1 zero
      have kept := dropless zero
      rw [Session.NothingDropped, empty, List.length_nil] at kept
      have none_before : first = 0 := by omega
      simp [none_before]
    · rw [if_pos zero]
  have keeps : s.forwarded ≠ [] → first = s.forwarded.length := by
    intro some
    have kept := (whole none some).2.2
    rw [Session.NothingDropped] at kept
    omega
  have mapped := Mapped.first_checkpoint none stopped (cursor frames) timed begins.numbered
    (aligned.numbered.left front) keeps
  rw [onset_deliver mode state, begins.wall aligned]
  refine .sending mode (by simp) rfl ?_ ?_ ?_
  · rwa [List.length_append, ← total]
  · rw [WallTimeMapper.onAudioSent_resumed stopped (by rw [none]; decide), none]
    simp
  · intro zero
    have kept := dropless zero
    rw [Session.NothingDropped] at kept
    rw [List.length_append, List.length_append]
    omega

theorem clampWall_of_mapped {mapper : WallTimeMapper} {forwarded : List Heard} {upto first : Nat}
    (mapped : Mapped config mapper forwarded upto) (later : upto ≤ first) (zero : start = 0 → first = upto) :
    mapper.clampWall (if start ≠ 0 then config.seconds first else 0) = config.seconds first := by
  obtain ⟨last, final, reach⟩ := mapped.last
  rw [WallTimeMapper.clampWall, final]
  simp only [reach]
  split
  · exact max_eq_left (config.seconds_le later)
  · rename_i missing
    rw [zero (not_not.mp missing)]
    exact max_eq_right (config.seconds_nonneg upto)

theorem silent_onset (aligned : Aligned config start s) {upto : Nat} (mode : s.gate.mode = .active)
    (state : s.gate.state = .silence) (stopped : s.gate.mapper.sending = false)
    (mapped : Mapped config s.gate.mapper s.forwarded upto) (held : Held s.gate.preRoll s.received upto)
    (counted : s.gate.mapper.checkpoints.length ≤ s.transitions) (zero : start = 0 → upto = s.forwarded.length)
    {pcm : List UInt8} (sound : s.Sound config start (.deliver pcm true)) (few : s.transitions < maxCheckpoints) :
    Phase config start (s.deliver config start pcm true) := by
  obtain ⟨first, later, begins⟩ := onset_begins aligned held pcm
  obtain ⟨dropless, _⟩ := sound ⟨mode, state, rfl⟩
  have total := begins.total
  have room := Nat.lt_of_le_of_lt counted few
  have whole : start = 0 → first = s.forwarded.length := by
    intro missing
    have kept := dropless missing
    rw [Session.NothingDropped] at kept
    omega
  have clamped := clampWall_of_mapped mapped later (fun missing => (whole missing).trans (zero missing).symm)
  have next := mapped.resume stopped room clamped begins.numbered
  rw [onset_deliver mode state, begins.wall aligned]
  refine .sending mode (by simp) rfl ?_ ?_ ?_
  · rwa [List.length_append, ← total]
  · rw [WallTimeMapper.onAudioSent_resumed stopped room, List.length_append, List.length_singleton]
    exact Nat.succ_le_succ counted
  · intro missing
    have before := whole missing
    rw [List.length_append, List.length_append]
    omega

/-- What a chunk can do outside silence: it is sent, or the hangover ends and it is buffered. -/
theorem sending_update (config : Config) (gate : Gate Heard) (chunk : List Heard) (isSpeech : Bool) (wallTime : ℚ)
    (loud : gate.state ≠ .silence) :
    let result := gate.updateState config chunk isSpeech wallTime
    result.1.mode = gate.mode ∧
      (result.1.state ≠ .silence ∧ result.2.audioToSend = chunk ∧
          result.1.mapper = gate.mapper.onAudioSent (config.seconds chunk.length) (gate.wallRel wallTime) ∨
        result.1.state = .silence ∧ result.2.audioToSend = [] ∧ result.1.preRoll = [chunk] ∧
          result.1.mapper = gate.mapper.onSilenceSkipped) := by
  cases state : gate.state with
  | silence => exact absurd state loud
  | speech =>
      simp only [Gate.updateState, state, Gate.updateSpeech]
      split
      · exact ⟨rfl, .inl ⟨by simp, rfl, rfl⟩⟩
      · exact ⟨rfl, .inl ⟨by simp, rfl, rfl⟩⟩
  | hangover =>
      simp only [Gate.updateState, state, Gate.updateHangover]
      split
      · exact ⟨rfl, .inl ⟨by simp, rfl, rfl⟩⟩
      · split
        · exact ⟨rfl, .inr ⟨rfl, rfl, rfl, rfl⟩⟩
        · exact ⟨rfl, .inl ⟨by simp, rfl, rfl⟩⟩

theorem sending_deliver (mode : s.gate.mode = .active) (loud : s.gate.state ≠ .silence)
    (sending : s.gate.mapper.sending = true) (mapped : Mapped config s.gate.mapper s.forwarded s.received.length)
    (counted : s.gate.mapper.checkpoints.length ≤ s.transitions)
    (zero : start = 0 → s.received.length = s.forwarded.length) (pcm : List UInt8) (isSpeech : Bool) :
    Phase config start (s.deliver config start pcm isSpeech) := by
  have quiet : ¬ s.Onset isSpeech := by
    rintro ⟨_, silent, _⟩
    exact loud silent
  have update := sending_update config (s.tracked config start pcm isSpeech) (s.heard pcm) isSpeech
    (start + config.seconds s.received.length) loud
  rw [Session.deliver_active mode, if_neg quiet]
  obtain ⟨same, ⟨state, sent, mapper⟩ | ⟨state, sent, preRoll, mapper⟩⟩ := update
  · refine .sending (same.trans mode) state ?_ ?_ ?_ ?_
    · rw [mapper]
      rfl
    · simp only [mapper, sent, List.length_append]
      exact mapped.send sending _ (s.heard_numbered pcm)
    · simp only [mapper]
      exact (congrArg (·.checkpoints.length) (WallTimeMapper.onAudioSent_sending sending)).trans_le counted
    · intro missing
      simp only [sent, List.length_append]
      rw [zero missing]
  · refine .silent s.received.length (same.trans mode) state ?_ ?_ ?_ ?_ ?_
    · rw [mapper]
      rfl
    · simp only [mapper, sent, List.append_nil]
      exact mapped.skip
    · simp only [preRoll]
      constructor
      · simp
      · simp
    · simp only [mapper]
      exact counted
    · intro missing
      simp only [sent, List.append_nil]
      exact zero missing

end Chunk

/-! ### Whole runs -/

section Run

variable {config : Config} {start : ℚ} {s : Session}

theorem Phase.deliver (aligned : Aligned config start s) (phase : Phase config start s) {pcm : List UInt8}
    {isSpeech : Bool} (sound : s.Sound config start (.deliver pcm isSpeech))
    (few : (s.deliver config start pcm isSpeech).transitions ≤ maxCheckpoints) :
    Phase config start (s.deliver config start pcm isSpeech) := by
  cases phase with
  | shadow mode state mapper all chunks cursor => exact shadow_deliver mode state mapper all chunks cursor pcm isSpeech
  | waiting mode state none stopped front chunks cursor held =>
      cases isSpeech with
      | false => exact waiting_silence mode state none front chunks cursor held pcm
      | true => exact waiting_onset aligned mode state none stopped front chunks cursor held sound
  | silent upto mode state stopped mapped held counted zero =>
      cases isSpeech with
      | false => exact silent_silence mode state mapped held counted zero pcm
      | true =>
          rw [onset_deliver mode state] at few
          exact silent_onset aligned mode state stopped mapped held counted zero sound few
  | sending mode loud sending mapped counted zero =>
      exact sending_deliver mode loud sending mapped counted zero pcm isSpeech

theorem Phase.activate (phase : Phase config start s) :
    Phase config start { s with gate := s.gate.activate } := by
  cases phase with
  | shadow mode state mapper all chunks cursor =>
      simp only [Gate.activate, mode]
      refine .waiting rfl rfl (by simp [mapper, WallTimeMapper.new]) (by simp [mapper, WallTimeMapper.new]) ?_ chunks
        ?_ ?_
      · exact all ▸ List.prefix_refl s.forwarded
      · intro whole
        rw [cursor whole]
        exact mul_div_cancel_right₀ _ (by norm_num)
      · exact Held.empty (by rw [all])
  | waiting mode state none stopped front chunks cursor held =>
      simp only [Gate.activate, mode]
      exact .waiting mode state none stopped front chunks cursor held
  | silent upto mode state stopped mapped held counted zero =>
      simp only [Gate.activate, mode]
      exact .silent upto mode state stopped mapped held counted zero
  | sending mode loud sending mapped counted zero =>
      simp only [Gate.activate, mode]
      exact .sending mode loud sending mapped counted zero

theorem Gate.processAudio_clock (gate : Gate Heard) (chunk : List Heard) (isSpeech : Bool) (wallTime : ℚ) :
    (gate.processAudio config chunk isSpeech wallTime).1.firstAudioWallTime =
      (gate.track config chunk isSpeech wallTime).firstAudioWallTime := by
  simp only [Gate.processAudio]
  split
  · rfl
  · simp only [Gate.updateState, Gate.updateSilence, Gate.updateSpeech, Gate.updateHangover]
    split
    · split <;> rfl
    · split <;> rfl
    · split
      · rfl
      · split <;> rfl

theorem Gate.activate_clock {α : Type} (gate : Gate α) : gate.activate.firstAudioWallTime = gate.firstAudioWallTime := by
  rw [Gate.activate]
  split <;> rfl

theorem Aligned.initial (started : s.Initial) : Aligned config start s := by
  obtain ⟨mode, rfl⟩ := started
  constructor
  · exact Numbered.nil 0
  · exact .inr ⟨rfl, rfl⟩
  · intro _
    cases mode with
    | shadow => exact .shadow rfl rfl rfl rfl rfl (fun _ => by simp [Session.opened, Gate.new])
    | active =>
        exact .waiting rfl rfl rfl rfl (List.prefix_refl []) rfl
          (fun _ => by simp [Session.opened, Gate.new, WallTimeMapper.new]) (Held.empty (le_refl 0))

theorem Aligned.step (aligned : Aligned config start s) {action : Action} (sound : s.Sound config start action) :
    Aligned config start (s.act config start action) := by
  cases action with
  | deliver pcm isSpeech =>
      constructor
      · apply aligned.numbered.append
        rw [Nat.zero_add]
        exact s.heard_numbered pcm
      · apply Or.inl
        exact (Gate.processAudio_clock _ _ _ _).trans (tracked_clock aligned pcm isSpeech)
      · intro few
        exact (aligned.phase ((Nat.le_add_right _ _).trans few)).deliver aligned sound few
  | activate =>
      constructor
      · exact aligned.numbered
      · simpa only [Session.act, Gate.activate_clock] using aligned.clock
      · intro few
        exact (aligned.phase few).activate

theorem Phase.points (aligned : Aligned config start s) (phase : Phase config start s) :
    s.PointsAtOriginal config := by
  have unmapped : s.gate.mapper.checkpoints = [] → s.forwarded <+: s.received → s.PointsAtOriginal config := by
    intro none front k byte h
    rw [WallTimeMapper.dgToWallRel_nil none, aligned.numbered.left front k byte h, Nat.zero_add]
  cases phase with
  | shadow mode state mapper all chunks cursor =>
      exact unmapped (by rw [mapper]; rfl) (all ▸ List.prefix_refl s.forwarded)
  | waiting mode state none stopped front chunks cursor held => exact unmapped none front
  | silent upto mode state stopped mapped held counted zero => exact mapped.points
  | sending mode loud sending mapped counted zero => exact mapped.points

/-- In every run whose onsets are sound, forwarded bytes map back to where they were received. -/
theorem gated_times_exact (reachable : Lib.Transition.Reachable Session.Initial (Session.SoundStep config start) s)
    (few : s.transitions ≤ maxCheckpoints) : s.PointsAtOriginal config := by
  have aligned : Aligned config start s := by
    apply reachable.invariant
    · intro t started
      exact Aligned.initial started
    · rintro t action _ aligned ⟨sound, rfl⟩
      exact aligned.step sound
  exact (aligned.phase few).points aligned

end Run

def phoneMono : Config := ⟨16000, 1, by decide, by decide⟩

/-- 400 ms of silence, then 10 ms of speech that pushes the silence out of the pre-roll. -/
def quietThenSpeech : Session :=
  [Action.deliver (List.replicate 12800 0) false, .deliver (List.replicate 320 0) true].foldl
    (Session.act phoneMono 1) (.opened .active)

theorem gated_times_exact_after_quiet :
    quietThenSpeech.transitions = 1 ∧ quietThenSpeech.forwarded.length = 320 ∧
      quietThenSpeech.PointsAtOriginal phoneMono := by
  refine ⟨by decide +kernel, by decide +kernel, ?_⟩
  have opened : Lib.Transition.Reachable Session.Initial (Session.SoundStep phoneMono 1) (Session.opened .active) :=
    .start ⟨.active, rfl⟩
  have silence : Session.Sound phoneMono 1 (.opened .active) (.deliver (List.replicate 12800 0) false) := by
    rintro ⟨_, _, spoken⟩
    cases spoken
  have onset : Session.Sound phoneMono 1 (Session.act phoneMono 1 (.opened .active)
      (.deliver (List.replicate 12800 0) false)) (.deliver (List.replicate 320 0) true) := by
    intro _
    constructor
    · intro zero
      exact absurd zero one_ne_zero
    · intro _ some
      exact absurd rfl some
  have spoken := (opened.next ⟨silence, rfl⟩).next ⟨onset, rfl⟩
  exact gated_times_exact (s := quietThenSpeech) spoken (by decide +kernel)

/-- 10 ms forwarded in shadow mode, then 400 ms of silence and 400 ms of speech. -/
def shadowThenSpeech : Session :=
  [Action.deliver (List.replicate 320 0) false, .activate, .deliver (List.replicate 12800 0) false,
    .deliver (List.replicate 12800 0) true].foldl (Session.act phoneMono 1) (.opened .shadow)

/-- The first shadow byte maps 0.4 s late: the first checkpoint is extended backwards over the skipped silence. -/
theorem shadow_audio_shifted :
    ¬ ∀ (config : Config) (start : ℚ) (s : Session),
      Lib.Transition.Reachable Session.Initial (Session.Step config start) s →
        s.transitions ≤ maxCheckpoints → s.PointsAtOriginal config := by
  intro claim
  have opened : Lib.Transition.Reachable Session.Initial (Session.Step phoneMono 1) (Session.opened .shadow) :=
    .start ⟨.shadow, rfl⟩
  have forwarded := opened.next (a := .deliver (List.replicate 320 0) false) rfl
  have active := forwarded.next (a := .activate) rfl
  have quiet := active.next (a := .deliver (List.replicate 12800 0) false) rfl
  have spoken := quiet.next (a := .deliver (List.replicate 12800 0) true) rfl
  have mapped := claim phoneMono 1 shadowThenSpeech spoken (by decide +kernel) 0 (0, 0) (by decide +kernel)
  have late : shadowThenSpeech.gate.mapper.dgToWallRel (phoneMono.seconds 0) = 2 / 5 := by decide +kernel
  rw [late] at mapped
  norm_num [Config.seconds] at mapped

end OmiLocal.Stt
