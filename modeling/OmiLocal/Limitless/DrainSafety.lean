import OmiLocal.Limitless.FlashDrain

/-!
# What an acknowledgement frees

An acknowledgement is cumulative, and its watermark is the highest page that was
appended. The writer keeps what it is given: a page is on the disk, in the file
that the next barrier flushes, or it makes that barrier fail. So a page that was
appended is on the disk when it is acknowledged. The engine does not look at the
pages below the watermark that never came, which is the condition of the runs.
-/
namespace OmiLocal.Limitless
open Lib.Framing (Bytes)
open Lib.Transition

/-! ## The writer keeps its pages -/

namespace BatchAudioWriter
variable {w v : BatchAudioWriter} {p : AudioPage}

/-- A file with pages in it is not empty, so its close is not a delete. -/
def Sound (w : BatchAudioWriter) : Prop :=
  ∀ file, w.raf = some file → file.unsynced ≠ [] → 0 < file.currentBytes

def Holds (w : BatchAudioWriter) (p : AudioPage) : Prop :=
  p ∈ w.safe ∨ (∃ file, w.raf = some file ∧ p ∈ file.unsynced) ∨ w.closeSyncFailed = true

/-- `v` comes of a step of the writer `w`. -/
structure Keeps (w v : BatchAudioWriter) : Prop where
  sound : v.Sound
  holds : ∀ p, w.Holds p → v.Holds p

theorem Keeps.refl (sound : w.Sound) : Keeps w w := ⟨sound, fun _ held => held⟩

theorem Keeps.trans {u : BatchAudioWriter} (first : Keeps w v) (second : Keeps v u) : Keeps w u :=
  ⟨second.sound, fun p held => second.holds p (first.holds p held)⟩

theorem closeCurrentLocked_keeps (sound : w.Sound) (synced : Bool) : Keeps w (w.closeCurrentLocked synced) := by
  unfold closeCurrentLocked
  split
  · rename_i absent
    exact ⟨fun file here => absurd (absent.symm.trans here) (by simp), fun p held => held⟩
  · rename_i file here
    have closed : ∀ p, p ∈ file.unsynced → 0 < file.currentBytes := fun p member =>
      sound file here (List.ne_nil_of_mem member)
    split
    · refine ⟨fun _ gone => (nomatch gone), fun p held => ?_⟩
      rcases held with safe | ⟨file', here', member⟩ | failed
      · exact .inl (List.mem_append_left _ safe)
      · cases here.symm.trans here'
        exact .inl (List.mem_append_right _ member)
      · exact .inr (.inr failed)
    · split
      · exact ⟨fun _ gone => (nomatch gone), fun _ _ => .inr (.inr rfl)⟩
      · rename_i empty
        refine ⟨fun _ gone => (nomatch gone), fun p held => ?_⟩
        rcases held with safe | ⟨file', here', member⟩ | failed
        · exact .inl safe
        · cases here.symm.trans here'
          exact absurd (closed p member) empty
        · exact .inr (.inr failed)

theorem fsyncLocked_keeps (sound : w.Sound) (synced : Bool) : Keeps w (w.fsyncLocked synced).2 := by
  unfold fsyncLocked
  split
  · exact .refl sound
  · rename_i file here
    split
    · refine ⟨fun file' same full => ?_, fun p held => ?_⟩
      · cases same
        exact absurd rfl full
      · rcases held with safe | ⟨file', here', member⟩ | failed
        · exact .inl (List.mem_append_left _ safe)
        · cases here.symm.trans here'
          exact .inl (List.mem_append_right _ member)
        · exact .inr (.inr failed)
    · exact .refl sound

theorem rotate_keeps (sound : w.Sound) (ts : Int) (synced : Bool) : Keeps w (w.rotate ts synced) := by
  have full : ∀ {v : BatchAudioWriter}, Keeps w v →
      Keeps w (if v.raf.any fun file => maxAudioSeconds * framesPerSecond ≤ file.currentFrames then
        v.closeCurrentLocked synced else v) := by
    intro v kept
    split
    · exact kept.trans (closeCurrentLocked_keeps kept.sound synced)
    · exact kept
  unfold rotate
  split
  · exact full (closeCurrentLocked_keeps sound synced)
  · exact full (.refl sound)

theorem openFile_keeps {opened : Option Nat} {now : Int} {file : PartFile} (sound : w.Sound)
    (found : w.openFile opened now = some file) : Keeps w { w with raf := some file } := by
  unfold openFile at found
  split at found
  · rename_i current here
    cases found
    rw [← here]
    exact .refl sound
  · rename_i absent
    obtain ⟨length, -, rfl⟩ := Option.map_eq_some_iff.mp found
    refine ⟨fun file' same full => ?_, fun p held => ?_⟩
    · cases same
      exact absurd rfl full
    · rcases held with safe | ⟨file', here', -⟩ | failed
      · exact .inl safe
      · cases absent.symm.trans here'
      · exact .inr (.inr failed)

theorem sizeOf_pos {frames : List Bytes} (audio : frames ≠ []) : 0 < sizeOf frames := by
  cases frames with
  | nil => exact absurd rfl audio
  | cons frame rest =>
      unfold sizeOf
      rw [List.map_cons, List.sum_cons]
      omega

theorem writeFramesLocked_keeps {file : PartFile} (opened : Keeps w { w with raf := some file })
    (index : Int) {frames : List Bytes} (audio : frames ≠ []) (disk : Disk) :
    Keeps w (w.writeFramesLocked file index frames disk).2 ∧
      ((w.writeFramesLocked file index frames disk).1 = true →
        (w.writeFramesLocked file index frames disk).2.Holds (index, frames)) := by
  unfold writeFramesLocked
  split
  · rename_i bytes torn
    have grown : Keeps w { w with raf := some { file with currentBytes := file.currentBytes + bytes } } := by
      refine ⟨fun file' same full => ?_, fun p held => ?_⟩
      · cases same
        exact Nat.lt_of_lt_of_le (opened.sound file rfl full) (Nat.le_add_right _ _)
      · rcases opened.holds p held with safe | ⟨file', here, member⟩ | failed
        · exact .inl safe
        · cases here
          exact .inr (.inl ⟨_, rfl, member⟩)
        · exact .inr (.inr failed)
    exact ⟨grown.trans (closeCurrentLocked_keeps grown.sound disk.closed), fun written => by cases written⟩
  · refine ⟨⟨fun file' same _ => ?_, fun p held => ?_⟩, fun _ => ?_⟩
    · cases same
      exact Nat.lt_of_lt_of_le (sizeOf_pos audio) (Nat.le_add_left _ _)
    · rcases opened.holds p held with safe | ⟨file', here, member⟩ | failed
      · exact .inl safe
      · cases here
        exact .inr (.inl ⟨_, rfl, List.mem_append_left _ member⟩)
      · exact .inr (.inr failed)
    · exact .inr (.inl ⟨_, rfl, List.mem_append_right _ List.mem_cons_self⟩)

theorem maybeFsyncLocked_keeps (sound : w.Sound) (now : Int) (synced : Bool) :
    Keeps w (w.maybeFsyncLocked now synced) := by
  unfold maybeFsyncLocked
  split
  · have flushed := fsyncLocked_keeps sound synced
    refine ⟨fun file same full => ?_, fun p held => ?_⟩
    · obtain ⟨file, here, rfl⟩ := Option.map_eq_some_iff.mp same
      exact flushed.sound file here full
    · rcases flushed.holds p held with safe | ⟨file, here, member⟩ | failed
      · exact .inl safe
      · exact .inr (.inl ⟨_, Option.map_eq_some_iff.mpr ⟨file, here, rfl⟩, member⟩)
      · exact .inr (.inr failed)
  · exact .refl sound

theorem append_keeps (sound : w.Sound) (index : Int) (frames : List Bytes) (pageTimestampMs now : Int) (disk : Disk) :
    Keeps w (w.append index frames pageTimestampMs now disk).2 ∧
      ((w.append index frames pageTimestampMs now disk).1 = true → frames ≠ [] →
        (w.append index frames pageTimestampMs now disk).2.Holds (index, frames)) := by
  unfold append
  split
  · rename_i silent
    exact ⟨.refl sound, fun _ audio => absurd (List.isEmpty_iff.mp silent) audio⟩
  · rename_i audio
    have rotated := rotate_keeps sound (w.pageTime pageTimestampMs now) disk.rotated
    simp only
    split
    · exact ⟨rotated, fun written => by cases written⟩
    · rename_i file found
      obtain ⟨kept, held⟩ := writeFramesLocked_keeps (openFile_keeps rotated.sound found) index
        (fun silent => audio (List.isEmpty_iff.mpr silent)) disk
      split
      · rename_i written
        have stamped : Keeps _ { (BatchAudioWriter.writeFramesLocked _ file index frames disk).2 with
            lastPageTimestampMs := w.pageTime pageTimestampMs now } := ⟨kept.sound, kept.holds⟩
        have flushed := maybeFsyncLocked_keeps stamped.sound now disk.fsynced
        exact ⟨(rotated.trans stamped).trans flushed, fun _ _ => flushed.holds _ (held written)⟩
      · exact ⟨rotated.trans kept, fun written => by cases written⟩

theorem sync_keeps (sound : w.Sound) (synced : Bool) : (w.sync synced).2.Sound := by
  unfold sync
  split
  · exact sound
  · exact (fsyncLocked_keeps sound synced).sound

/-- What is held is on the disk when the barrier succeeds. -/
theorem sync_safe {synced : Bool} (succeeds : (w.sync synced).1 = true) (held : w.Holds p) :
    p ∈ (w.sync synced).2.safe := by
  unfold sync at succeeds ⊢
  split
  · rename_i failed
    rw [if_pos failed] at succeeds
    cases succeeds
  · rename_i clean
    rw [if_neg clean] at succeeds
    unfold fsyncLocked at succeeds ⊢
    rcases held with safe | ⟨file, here, member⟩ | failed
    · split
      · exact safe
      · split
        · exact List.mem_append_left _ safe
        · exact safe
    · rw [here] at succeeds ⊢
      simp only at succeeds ⊢
      split
      · exact List.mem_append_right _ member
      · rename_i unsynced
        rw [if_neg unsynced] at succeeds
        cases succeeds
    · exact absurd failed clean

end BatchAudioWriter

/-! ## Runs without a gap below the watermark -/

/-- `flash k` is the audio that page `k` of the pendant holds. -/
def Ack.Covers (flash : Int → List Bytes) (a : Ack) : Prop :=
  ∀ k, a.oldest ≤ k → k ≤ a.upToIndex → flash k ≠ [] → (k, flash k) ∈ a.safe

namespace FlashDrain
variable {equalsIgnoreCase : String → String → Bool} {flash : Int → List Bytes} {s t : FlashDrain}

/-- The barrier sends an acknowledgement. -/
def Acknowledges (s : FlashDrain) (synced : Bool) : Prop :=
  s.deviceAddress.isSome ∧ s.lastAckedPageIndex < s.lastAppendedPageIndex ∧ (s.writer.sync synced).1 = true

/-- Every page below the watermark that holds audio has come with all its frames and was appended, in this drain and
after its last failed barrier, or is on the disk from an earlier drain. -/
def NoGap (flash : Int → List Bytes) (s : FlashDrain) : Prop :=
  ∀ k, s.oldest ≤ k → k ≤ s.lastAppendedPageIndex → flash k ≠ [] → (k, flash k) ∈ s.arrived ∨ (k, flash k) ∈ s.writer.safe

/-- A barrier follows this page: 25 pages since the last acknowledgement, a failed append, the end page reached. -/
def Due (s : FlashDrain) (written : Bool) : Prop :=
  (written = true ∧ ackEveryPages ≤ s.pagesSinceAck) ∨
    (s.phase = .draining ∧ (written = false ∨ s.endPage ≤ s.maxSeenPageIndex))

/-- The condition of the runs: no gap where a barrier acknowledges, behind a page or at a stall. -/
def Action.Steady (flash : Int → List Bytes) (s : FlashDrain) : Action → Prop
  | .settle _ synced =>
      match s.work with
      | .appended written _ => s.Due written → s.Acknowledges synced → s.NoGap flash
      | .pages _ => True
  | .stallCheck now _ synced => s.phase = .draining → stallMs < now - s.lastPageAtMs → s.Acknowledges synced → s.NoGap flash
  | _ => True

instance (flash : Int → List Bytes) (s : FlashDrain) : Decidable (s.NoGap flash) :=
  decidable_of_iff (∀ i ∈ List.range (s.lastAppendedPageIndex - s.oldest + 1).toNat, flash (s.oldest + (i : Nat)) ≠ [] →
    (s.oldest + (i : Nat), flash (s.oldest + (i : Nat))) ∈ s.arrived ∨
      (s.oldest + (i : Nat), flash (s.oldest + (i : Nat))) ∈ s.writer.safe) <| by
    constructor
    · intro all k first last
      have here := all (k - s.oldest).toNat (List.mem_range.mpr (by omega))
      rwa [show s.oldest + ((k - s.oldest).toNat : Int) = k by omega] at here
    · intro whole i below
      have below := List.mem_range.mp below
      exact whole _ (by omega) (by omega)

instance (s : FlashDrain) (synced : Bool) : Decidable (s.Acknowledges synced) := by
  unfold Acknowledges
  infer_instance

instance (s : FlashDrain) (written : Bool) : Decidable (s.Due written) := by
  unfold Due
  infer_instance

instance (flash : Int → List Bytes) (s : FlashDrain) (a : Action) : Decidable (a.Steady flash s) := by
  unfold Action.Steady
  split
  · split <;> infer_instance
  · infer_instance
  · infer_instance

abbrev Reached (equalsIgnoreCase : String → String → Bool) : FlashDrain → Prop :=
  Reachable (· = start) fun s a t => s.act equalsIgnoreCase a = some t

abbrev ReachedSteady (equalsIgnoreCase : String → String → Bool) (flash : Int → List Bytes) : FlashDrain → Prop :=
  Reachable (· = start) fun s a t => a.Steady flash s ∧ s.act equalsIgnoreCase a = some t

structure Inv (flash : Int → List Bytes) (s : FlashDrain) : Prop where
  sound : s.writer.Sound
  held : ∀ p ∈ s.arrived, p.2 ≠ [] → s.writer.Holds p
  covered : ∀ a ∈ s.acks, a.Covers flash

theorem Inv.start : Inv flash start :=
  ⟨fun _ gone => (nomatch gone), fun _ none => (nomatch none), fun _ none => (nomatch none)⟩

theorem Inv.keeps (inv : Inv flash s) {w : BatchAudioWriter} (kept : s.writer.Keeps w) : Inv flash { s with writer := w } :=
  ⟨kept.sound, fun p member audio => kept.holds p (inv.held p member audio), inv.covered⟩

theorem Inv.ackWritten (inv : Inv flash s) (synced : Bool) (steady : s.Acknowledges synced → s.NoGap flash) :
    Inv flash (s.ackWritten synced).2 := by
  unfold FlashDrain.ackWritten
  split
  · exact inv
  · rename_i address found
    split
    · exact inv
    · rename_i ahead
      split
      · rename_i succeeds
        have whole := steady ⟨by rw [found, Option.isSome_some], Int.not_le.mp ahead, succeeds⟩
        have safe : ∀ p, s.writer.Holds p → p ∈ (s.writer.sync synced).2.safe := fun p held =>
          BatchAudioWriter.sync_safe succeeds held
        refine ⟨BatchAudioWriter.sync_keeps inv.sound synced, fun p member audio => .inl (safe p (inv.held p member audio)), ?_⟩
        intro a member
        rcases List.mem_append.mp member with earlier | this
        · exact inv.covered a earlier
        · obtain rfl := List.mem_singleton.mp this
          intro k first last audio
          rcases whole k first last audio with arrived | earlier
          · exact safe _ (inv.held _ arrived audio)
          · exact safe _ (.inl earlier)
      · exact ⟨BatchAudioWriter.sync_keeps inv.sound synced, fun _ none => (nomatch none), inv.covered⟩

theorem Inv.finishDrain (inv : Inv flash s) (config : Option Config) (synced : Bool)
    (steady : s.phase = .draining → s.Acknowledges synced → s.NoGap flash) : Inv flash (s.finishDrain config synced) := by
  unfold FlashDrain.finishDrain
  split
  · exact inv
  · rename_i draining
    have checked : Inv flash { s with stallCheckTask := false } := ⟨inv.sound, inv.held, inv.covered⟩
    have acked := checked.ackWritten synced (steady (not_not.mp draining))
    exact ⟨acked.sound, acked.held, acked.covered⟩

/-- Behind a barrier the watermark is the last acknowledgement, so a second barrier sends none. -/
theorem ackWritten_quiet {synced : Bool} : ¬(s.ackWritten synced).2.Acknowledges synced := by
  rintro ⟨known, ahead, -⟩
  unfold ackWritten at known ahead
  split at known
  · rename_i unknown
    rw [unknown] at known
    cases known
  · rename_i address found
    simp only [found] at ahead
    split at ahead
    · rename_i behind
      exact absurd ahead (Int.not_lt.mpr behind)
    · split at ahead <;> exact absurd ahead (lt_irrefl _)

theorem Inv.settlePage (inv : Inv flash s) (config : Option Config) {written : Bool} {synced : Bool}
    (steady : s.Due written → s.Acknowledges synced → s.NoGap flash) : Inv flash (s.settlePage written config synced) := by
  have finished : s.phase = .draining ∧ (written = false ∨ s.endPage ≤ s.maxSeenPageIndex) →
      Inv flash (s.finishDrain config synced) := fun due => inv.finishDrain _ _ fun _ => steady (.inr due)
  unfold FlashDrain.settlePage
  split
  · rename_i failed
    exact inv.finishDrain _ _ fun draining => steady (.inr ⟨draining, .inl (by simpa using failed)⟩)
  · rename_i written'
    have written' : written = true := by simpa using written'
    split
    · rename_i many
      have acked := inv.ackWritten synced (steady (.inl ⟨written', many⟩))
      have last := acked.finishDrain config synced fun _ again => absurd again ackWritten_quiet
      simp only
      split
      · exact last
      · split
        · exact last
        · exact acked
    · split
      · rename_i reached
        exact inv.finishDrain _ _ fun draining => steady (.inr ⟨draining, .inr reached⟩)
      · exact inv

theorem Inv.appendPage (inv : Inv flash s) (page : FlashPage) (left : List FlashPage) (now appendNow : Int)
    (disk : BatchAudioWriter.Disk) : Inv flash (s.appendPage page left now appendNow disk) := by
  unfold FlashDrain.appendPage
  simp only
  split
  · exact ⟨inv.sound, inv.held, inv.covered⟩
  · rename_i index _
    obtain ⟨kept, added⟩ := BatchAudioWriter.append_keeps inv.sound index page.opusFrames page.timestampMs appendNow disk
    have wrote := inv.keeps kept
    split
    · exact ⟨wrote.sound, wrote.held, wrote.covered⟩
    · rename_i written
      refine ⟨wrote.sound, fun p member audio => ?_, wrote.covered⟩
      rcases List.mem_append.mp member with earlier | this
      · exact wrote.held p earlier audio
      · obtain rfl := List.mem_singleton.mp this
        exact added (by simpa using written) audio

theorem Inv.onStorageState (inv : Inv flash s) (state : StorageState) (now : Int) :
    Inv flash (s.onStorageState state now) := by
  unfold FlashDrain.onStorageState
  split
  · exact inv
  · simp only
    split
    · exact ⟨inv.sound, inv.held, inv.covered⟩
    · split
      · exact ⟨inv.sound, inv.held, inv.covered⟩
      · exact ⟨inv.sound, fun _ none => (nomatch none), inv.covered⟩

theorem Inv.onPacket (inv : Inv flash s) {packet : BlePacket} {fuel : Nat} (done : s.onPacket packet fuel = some t) :
    Inv flash t := by
  unfold FlashDrain.onPacket at done
  simp only at done
  split at done
  · cases done
    exact ⟨inv.sound, inv.held, inv.covered⟩
  · split at done
    · obtain ⟨pages, -, done⟩ := Option.bind_eq_some_iff.mp done
      cases done
      exact ⟨inv.sound, inv.held, inv.covered⟩
    · cases done
      exact ⟨inv.sound, inv.held, inv.covered⟩

theorem Inv.processPacket (inv : Inv flash s) {data : Bytes} {now : Int} {fuel : Nat}
    (done : s.processPacket data now fuel = some t) : Inv flash t := by
  unfold FlashDrain.processPacket at done
  obtain ⟨status, -, done⟩ := Option.bind_eq_some_iff.mp done
  have told : Inv flash (status.elim s fun state => s.onStorageState state now) := by
    cases status with
    | none => exact inv
    | some state => exact inv.onStorageState state now
  obtain ⟨packet, -, done⟩ := Option.bind_eq_some_iff.mp done
  split at done
  · cases done
    exact told
  · exact told.onPacket done

theorem Inv.act (inv : Inv flash s) {a : Action} (steady : a.Steady flash s) (done : s.act equalsIgnoreCase a = some t) :
    Inv flash t := by
  have closed : ∀ synced, Inv flash { s with writer := s.writer.closeCurrentLocked synced } := fun synced =>
    inv.keeps (BatchAudioWriter.closeCurrentLocked_keeps inv.sound synced)
  cases a with
  | closeWriter synced =>
      cases done
      exact closed synced
  | page now appendNow disk =>
      simp only [FlashDrain.act] at done
      split at done
      · cases done
        exact inv.appendPage _ _ now appendNow disk
      · cases done
  | settle config synced =>
      simp only [FlashDrain.act] at done
      split at done
      · rename_i written left here
        cases done
        have settled := inv.settlePage config (by simpa only [Action.Steady, here] using steady)
        exact ⟨settled.sound, settled.held, settled.covered⟩
      · cases done
  | deviceReady address config =>
      simp only [FlashDrain.act] at done
      split at done
      · cases done
      · split at done <;> cases done <;> exact ⟨inv.sound, inv.held, inv.covered⟩
  | deviceDisconnected address synced =>
      simp only [FlashDrain.act] at done
      split at done
      · cases done
      · split at done
        · cases done
          exact inv
        · cases done
          exact ⟨(closed synced).sound, (closed synced).held, inv.covered⟩
  | stop =>
      simp only [FlashDrain.act] at done
      split at done
      · cases done
      · cases done
        exact ⟨inv.sound, inv.held, inv.covered⟩
  | cycle config now synced =>
      simp only [FlashDrain.act] at done
      split at done
      · cases done
      · split at done
        · cases done
          exact inv
        · split at done
          · cases done
            exact inv
          · split at done
            · cases done
              exact closed synced
            · split at done <;> cases done <;> exact ⟨inv.sound, inv.held, inv.covered⟩
  | statusTimeout =>
      simp only [FlashDrain.act] at done
      split at done
      · cases done
      · cases done
        exact ⟨inv.sound, inv.held, inv.covered⟩
  | packet config address serviceUuid characteristicUuid data now fuel =>
      simp only [FlashDrain.act] at done
      split at done
      · cases done
      · split at done
        · exact inv.processPacket done
        · cases done
          exact inv
  | stallCheck now config synced =>
      simp only [FlashDrain.act] at done
      split at done
      · cases done
      · split at done
        · rename_i stalled
          cases done
          exact inv.finishDrain _ _ fun draining => steady draining stalled.2
        · cases done
          exact inv

/-- In every run in which no barrier acknowledges over a gap, each acknowledgement covers only pages whose frames a
successful fsync had put on the disk. -/
theorem acknowledged_pages_durable (reached : ReachedSteady equalsIgnoreCase flash s) : ∀ a ∈ s.acks, a.Covers flash := by
  have initial : ∀ s, s = start → Inv flash s := by
    rintro _ rfl
    exact Inv.start
  have inv : Inv flash s := reached.invariant initial fun _ _ _ inv step => inv.act step.1 step.2
  exact inv.covered

/-! ## A page that never came -/

def sampleFrame (k : Nat) : Bytes := [0xb8, 0, 0, 0, 0, 0, 0, 0, 0, UInt8.ofNat k]

/-- Pages 1 and 2 hold one frame each. -/
def sampleFlash (k : Int) : List Bytes := if k = 1 ∨ k = 2 then [sampleFrame k.toNat] else []

def sampleStatus : Bytes :=
  [0x08, 0x0f, 0x10, 0, 0x18, 1, 0x22, 0x16, 0x08, 0x55, 0x2a, 0x12, 0x08, 0x55, 0x2a, 0x0e,
    0x08, 1, 0x10, 2, 0x18, 3, 0x20, 0xc0, 0xa9, 0x07, 0x28, 0x90, 0xb0, 0x0a]

def samplePage (k : Nat) : Bytes :=
  [0x08, UInt8.ofNat k, 0x10, 0, 0x18, 1, 0x22, 0x18, 0x12, 0x16, 0x28, UInt8.ofNat k, 0x32, 0x12,
    0x08, 1, 0x1a, 0x0e, 0x12, 0x0c, 0x0a, 0x0a] ++ sampleFrame k

def sampleConfig : Config := ⟨"pendant", "service", "characteristic"⟩

def sampleDisk : BatchAudioWriter.Disk := ⟨true, some 0, none, true, true⟩

def sampleStart : List Action :=
  [.deviceReady "pendant" (some sampleConfig), .cycle (some sampleConfig) 0 true,
    .packet sampleConfig "pendant" "service" "characteristic" sampleStatus 0 100]

def samplePageActions (k : Nat) : List Action :=
  [.packet sampleConfig "pendant" "service" "characteristic" (samplePage k) 0 100, .page 0 0 sampleDisk,
    .settle (some sampleConfig) true]

def guarded (s : FlashDrain) (a : Action) : Option FlashDrain :=
  if a.Steady sampleFlash s then s.act (· == ·) a else none

theorem reachedSteady_of_guarded {actions : List Action} (done : actions.foldlM guarded start = some s) :
    ReachedSteady (· == ·) sampleFlash s := by
  refine Reachable.actions (fun a _ s t step => ?_) (.start rfl) done
  unfold guarded at step
  split at step
  · rename_i steady
    exact ⟨steady, step⟩
  · cases step

/-- Both pages come, so their acknowledgement covers them. -/
theorem acknowledged_pages_durable_both :
    ∃ s : FlashDrain, s.acks = [⟨1, 2, [(1, [sampleFrame 1]), (2, [sampleFrame 2])]⟩] ∧
      ∀ a ∈ s.acks, a.Covers sampleFlash := by
  have run : ((sampleStart ++ samplePageActions 1 ++ samplePageActions 2).foldlM guarded start).map FlashDrain.acks =
      some [⟨1, 2, [(1, [sampleFrame 1]), (2, [sampleFrame 2])]⟩] := by decide +kernel
  obtain ⟨s, done, acks⟩ := Option.map_eq_some_iff.mp run
  exact ⟨s, acks, acknowledged_pages_durable (reachedSteady_of_guarded done)⟩

/-- The pendant holds pages 1 and 2, and only page 2 arrives. It ends the drain, whose acknowledgement frees page 1. -/
theorem lost_page_acknowledged :
    ¬∀ s : FlashDrain, Reached (· == ·) s → ∀ a ∈ s.acks, a.Covers sampleFlash := by
  have run : ((sampleStart ++ samplePageActions 2).foldlM (act · (· == ·)) start).map FlashDrain.acks =
      some [⟨1, 2, [(2, [sampleFrame 2])]⟩] := by decide +kernel
  obtain ⟨s, done, acks⟩ := Option.map_eq_some_iff.mp run
  intro covered
  have reached : Reached (· == ·) s := Reachable.actions (fun _ _ _ _ step => step) (.start rfl) done
  have freed := covered s reached _ (by rw [acks]; exact List.mem_singleton_self _)
  exact absurd (freed 1 (by decide) (by decide) (by decide)) (by decide)

end FlashDrain
end OmiLocal.Limitless
