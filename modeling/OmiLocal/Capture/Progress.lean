import OmiLocal.Capture.Actions

/-!
# An undisturbed recording

What the outbox does when nothing fails: a packet that is added to a recording
without an open part ends up in a new file, a checkpoint seals that file, and a
delivery that is acknowledged removes it. `Shelf.phone` is a phone with one
recording and no other activity.
-/
namespace OmiLocal.Capture
open Lib.Framing Lib.Json Lib.Transition

/-- The steps that need no server. -/
def localStep (limits : Limits) (sha256 : Bytes → String) (p : Phone) (a : PhoneAction) (p' : Phone) : Prop :=
  perform limits sha256 p a = some p' ∧ ∀ id digest, a ≠ .acknowledge id digest

structure Shelf where
  files : List PartFile
  pendingBytes : Nat
  pendingParts : Nat
  issued : List Uuid
  persisted : List (Uuid × Packet)
  begun : List (Uuid × Packet)

def Shelf.phone (shelf : Shelf) (r : Recording) (jobs : List Job) (stage : Stage) (queued : Nat) : Phone where
  files := shelf.files
  recordings := [r]
  jobs := jobs
  stage := stage
  recovery := none
  drain := none
  pendingBytes := shelf.pendingBytes
  pendingParts := shelf.pendingParts
  queuedBytes := queued
  issued := shelf.issued
  persisted := shelf.persisted
  begun := shelf.begun

def noFailure (id : Uuid) : WorkIo := ⟨false, false, id⟩

section Running

variable {limits : Limits} {sha256 : Bytes → String} {p p' : Phone}

theorem reaches_work (io : WorkIo) (done : work limits io p = some p') : Reaches (localStep limits sha256) p p' :=
  .single ⟨.work io, done, nofun⟩

theorem appendFile_nil (files : List PartFile) (id : Uuid) : appendFile files id [] = files := by
  simp [appendFile, changeFile]

theorem appendFile_append (files : List PartFile) (id : Uuid) (front back : Bytes) :
    appendFile (appendFile files id front) id back = appendFile files id (front ++ back) := by
  unfold appendFile changeFile
  rw [List.map_map]
  refine List.map_congr_left fun f _ => ?_
  by_cases mine : f.id = id <;> simp [mine]

theorem changeFile_absent {files : List PartFile} {id : Uuid} (absent : ∀ f ∈ files, f.id ≠ id)
    (change : PartFile → PartFile) : changeFile files id change = files := by
  unfold changeFile
  conv_rhs => rw [← List.map_id files]
  refine List.map_congr_left fun f member => ?_
  rw [if_neg (absent f member)]
  rfl

theorem changeFile_last {files : List PartFile} {f : PartFile} (absent : ∀ g ∈ files, g.id ≠ f.id)
    (change : PartFile → PartFile) : changeFile (files ++ [f]) f.id change = files ++ [change f] := by
  have front := changeFile_absent absent change
  unfold changeFile at front ⊢
  rw [List.map_append, front]
  simp

variable {shelf : Shelf} {r : Recording} {jobs : List Job} {queued : Nat} {payload : Packet} {duration : Nat}
  {now : DateTime}

/-- `_open`'s writes, byte by byte. -/
theorem reaches_opened (header : Header) (preroll : List Packet) (bytes : Bytes) :
    Reaches (localStep limits sha256)
      (shelf.phone r (.add 0 payload duration now :: jobs) (.opening header preroll bytes) queued)
      ({ shelf with files := appendFile shelf.files header.id bytes }.phone r (.add 0 payload duration now :: jobs)
        (.opening header preroll []) queued) := by
  induction bytes generalizing shelf with
  | nil =>
      rw [appendFile_nil]
      exact .refl
  | cons b bytes ih =>
      have first : Reaches (localStep limits sha256)
          (shelf.phone r (.add 0 payload duration now :: jobs) (.opening header preroll (b :: bytes)) queued)
          ({ shelf with files := appendFile shelf.files header.id [b] }.phone r (.add 0 payload duration now :: jobs)
            (.opening header preroll bytes) queued) := reaches_work (noFailure header.id) rfl
      have rest := @ih { shelf with files := appendFile shelf.files header.id [b] }
      rw [appendFile_append] at rest
      exact first.trans rest

/-- A packet, byte by byte. -/
theorem reaches_writing {id : Uuid} (handle : r.handle = some id) (bytes : Bytes) :
    Reaches (localStep limits sha256)
      (shelf.phone r (.add 0 payload duration now :: jobs) (.writing bytes) queued)
      ({ shelf with files := appendFile shelf.files id bytes }.phone r (.add 0 payload duration now :: jobs)
        (.writing []) queued) := by
  induction bytes generalizing shelf with
  | nil =>
      rw [appendFile_nil]
      exact .refl
  | cons b bytes ih =>
      have first : Reaches (localStep limits sha256)
          (shelf.phone r (.add 0 payload duration now :: jobs) (.writing (b :: bytes)) queued)
          ({ shelf with files := appendFile shelf.files id [b] }.phone r (.add 0 payload duration now :: jobs)
            (.writing bytes) queued) := by
        refine reaches_work (noFailure id) ?_
        simp only [Shelf.phone, work, List.getElem?_cons_zero, workAdd, handle]
        rfl
      have rest := @ih { shelf with files := appendFile shelf.files id [b] }
      rw [appendFile_append] at rest
      exact first.trans rest

/-- A recording that can take a packet into a new part. -/
structure Between (r : Recording) : Prop where
  open_ : r.closed = false
  sound : r.writeFailed = false
  handle : r.handle = none
  codec : r.codec = .pcm16
  preroll : r.preroll = .empty

/-- The recording after `_open`. -/
def openedRecording (r : Recording) (id : Uuid) (now : DateTime) : Recording :=
  { r with
    index := r.index + 1
    audioMicroseconds := 0
    file := some id
    handle := some id
    bytes := openingBytes (openHeader r id now) []
    packetCount := 0 }

/-- The outbox after `_open`. -/
def Shelf.opened (shelf : Shelf) (r : Recording) (id : Uuid) (now : DateTime) : Shelf :=
  { shelf with
    files := shelf.files ++ [⟨id, false, opening (openHeader r id now) []⟩]
    pendingBytes := shelf.pendingBytes + openingBytes (openHeader r id now) []
    pendingParts := shelf.pendingParts + 1
    issued := shelf.issued ++ [id] }

theorem reaches_open (between : Between r) {id : Uuid} (new : id ∉ shelf.issued) (absent : ∀ f ∈ shelf.files, f.id ≠ id)
    (room : shelf.pendingBytes + openingBytes (openHeader r id now) [] + (payload.length + 4) ≤ limits.maxStorageBytes) :
    Reaches (localStep limits sha256) (shelf.phone r [.add 0 payload duration now] .start queued)
      ((shelf.opened r id now).phone (openedRecording r id now) [.add 0 payload duration now] .quota queued) := by
  obtain ⟨-, sound, handle, -, preroll⟩ := between
  have noContext : r.preroll.packets = [] := by
    rw [preroll]
    rfl
  have noFile : ¬ ((noFailure id).fails = true ∨
      (shelf.files.any fun f => decide (f.id = (openHeader r id now).id) && !f.ready) = true) := by
    simp only [noFailure, Bool.false_eq_true, false_or, List.any_eq_true, Bool.and_eq_true, decide_eq_true_eq]
    rintro ⟨f, member, same, -⟩
    exact absent f member same
  let job : Job := .add 0 payload duration now
  let created : Recording := { r with index := r.index + 1, audioMicroseconds := 0, file := some id }
  let known : Shelf := { shelf with issued := shelf.issued ++ [id] }
  let made : Shelf := { known with files := shelf.files ++ [⟨id, false, []⟩] }
  have chosen : Reaches (localStep limits sha256) (shelf.phone r [job] .start queued)
      (shelf.phone r [job] .fresh queued) := by
    refine reaches_work (noFailure id) ?_
    simp [Shelf.phone, job, work, workAdd, sound, handle]
  have named : Reaches (localStep limits sha256) (shelf.phone r [job] .fresh queued)
      (known.phone created [job] (.create (openHeader r id now) []) queued) := by
    refine reaches_work (noFailure id) ?_
    simp only [Shelf.phone, job, work, workAdd, List.getElem?_cons_zero, noFailure, if_neg new, noContext]
    exact (if_neg (Nat.not_lt.mpr room)).trans rfl
  have placed : Reaches (localStep limits sha256)
      (known.phone created [job] (.create (openHeader r id now) []) queued)
      (made.phone created [job] (.handle (openHeader r id now) []) queued) :=
    reaches_work (noFailure id) ((if_neg noFile).trans rfl)
  have held : Reaches (localStep limits sha256) (made.phone created [job] (.handle (openHeader r id now) []) queued)
      (made.phone { created with handle := some id } [job]
        (.opening (openHeader r id now) [] (opening (openHeader r id now) [])) queued) :=
    reaches_work (noFailure id) rfl
  have written : Reaches (localStep limits sha256)
      (made.phone { created with handle := some id } [job]
        (.opening (openHeader r id now) [] (opening (openHeader r id now) [])) queued)
      ({ made with files := appendFile made.files (openHeader r id now).id (opening (openHeader r id now) []) }.phone
        { created with handle := some id } [job] (.opening (openHeader r id now) [] []) queued) :=
    reaches_opened (openHeader r id now) [] (opening (openHeader r id now) [])
  rw [show appendFile made.files (openHeader r id now).id (opening (openHeader r id now) []) =
    (shelf.opened r id now).files from changeFile_last (f := ⟨id, false, []⟩) absent _] at written
  exact ((((chosen.trans named).trans placed).trans held).trans written).trans (reaches_work (noFailure id) rfl)

/-- The outbox after a packet went to the last file. -/
def Shelf.append (shelf : Shelf) (front : List PartFile) (id : Uuid) (content : Bytes) (r : Recording)
    (payload : Packet) : Shelf :=
  { shelf with
    files := front ++ [⟨id, false, content ++ record be32 payload⟩]
    pendingBytes := shelf.pendingBytes + payload.length + 4
    persisted := shelf.persisted ++ [(r.recordingId, payload)]
    begun := shelf.begun ++ [(r.recordingId, payload)] }

theorem reaches_append {front : List PartFile} {id : Uuid} {content : Bytes}
    (files : shelf.files = front ++ [⟨id, false, content⟩]) (absent : ∀ f ∈ front, f.id ≠ id)
    (handle : r.handle = some id) (codec : r.codec = .pcm16)
    (room : shelf.pendingBytes + payload.length + 4 ≤ limits.maxStorageBytes) :
    Reaches (localStep limits sha256) (shelf.phone r [.add 0 payload duration now] .quota payload.length)
      ((shelf.append front id content r payload).phone (countPacket r payload duration) [] .start 0) := by
  let started : Shelf := { shelf with begun := shelf.begun ++ [(r.recordingId, payload)] }
  have paid : Reaches (localStep limits sha256) (shelf.phone r [.add 0 payload duration now] .quota payload.length)
      (started.phone r [.add 0 payload duration now] (.writing (record be32 payload)) payload.length) :=
    reaches_work (noFailure id) ((if_neg (Nat.not_lt.mpr room)).trans rfl)
  have written : Reaches (localStep limits sha256)
      (started.phone r [.add 0 payload duration now] (.writing (record be32 payload)) payload.length)
      ({ started with files := appendFile started.files id (record be32 payload) }.phone r
        [.add 0 payload duration now] (.writing []) payload.length) :=
    reaches_writing handle (record be32 payload)
  have changed : appendFile started.files id (record be32 payload) = (shelf.append front id content r payload).files := by
    change appendFile shelf.files id _ = _
    rw [files]
    exact changeFile_last (f := ⟨id, false, content⟩) absent _
  rw [changed] at written
  refine (paid.trans written).trans (reaches_work (noFailure id) ?_)
  simp only [Shelf.phone, work, workAdd, List.getElem?_cons_zero, noFailure]
  rw [if_pos codec]
  simp [finishJob, setRecording, countPacket, codec, Shelf.append, started]

/-- The outbox after the first packet of a new part. -/
def Shelf.added (shelf : Shelf) (r : Recording) (id : Uuid) (now : DateTime) (payload : Packet) : Shelf :=
  (shelf.opened r id now).append shelf.files id (opening (openHeader r id now) []) r payload

/-- A packet that arrives between two parts is written to a new one. -/
theorem reaches_added (between : Between r) {id : Uuid} (new : id ∉ shelf.issued) (absent : ∀ f ∈ shelf.files, f.id ≠ id)
    (small : payload ≠ [] ∧ payload.length ≤ maxFrameBytes) (timed : packetMicroseconds .pcm16 payload = .ok duration)
    (queue : payload.length ≤ limits.maxQueuedBytes)
    (room : shelf.pendingBytes + openingBytes (openHeader r id now) [] + (payload.length + 4) ≤ limits.maxStorageBytes) :
    Reaches (localStep limits sha256) (shelf.phone r [] .start 0)
      ((shelf.added r id now payload).phone (countPacket (openedRecording r id now) payload duration) [] .start 0) := by
  have admitted : ¬ (r.closed = true ∨ payload = [] ∨ payload.length > maxFrameBytes ∨
      0 + payload.length > limits.maxQueuedBytes) := by
    have := small.2
    simp only [between.open_, Bool.false_eq_true, small.1, false_or]
    omega
  have asked : Reaches (localStep limits sha256) (shelf.phone r [] .start 0)
      (shelf.phone r [.add 0 payload duration now] .start payload.length) := by
    refine .single ⟨.add 0 payload now, (if_neg admitted).trans ?_, nofun⟩
    rw [between.codec, timed]
    simp [Shelf.phone]
  have opened : Reaches (localStep limits sha256) (shelf.phone r [.add 0 payload duration now] .start payload.length)
      ((shelf.opened r id now).phone (openedRecording r id now) [.add 0 payload duration now] .quota payload.length) :=
    reaches_open between new absent room
  refine (asked.trans opened).trans (reaches_append rfl absent rfl between.codec ?_)
  change shelf.pendingBytes + openingBytes (openHeader r id now) [] + payload.length + 4 ≤ _
  omega

/-- A checkpoint seals the open part. -/
theorem reaches_sealed {id : Uuid} (open_ : r.closed = false) (sound : r.writeFailed = false) (handle : r.handle = some id)
    (file : r.file = some id) :
    Reaches (localStep limits sha256) (shelf.phone r [] .start 0)
      ({ shelf with files := sealFile shelf.files id }.phone { r with handle := none, file := none } [] .start 0) := by
  have asked : Reaches (localStep limits sha256) (shelf.phone r [] .start 0) (shelf.phone r [.checkpoint 0] .start 0) :=
    .single ⟨.checkpoint 0, rfl, nofun⟩
  have chosen : Reaches (localStep limits sha256) (shelf.phone r [.checkpoint 0] .start 0)
      (shelf.phone r [.checkpoint 0] .flush 0) := by
    refine reaches_work (noFailure id) ?_
    simp [Shelf.phone, work, workCheckpoint, open_, sound, handle]
  have flushed : Reaches (localStep limits sha256) (shelf.phone r [.checkpoint 0] .flush 0)
      (shelf.phone r [.checkpoint 0] .close 0) := reaches_work (noFailure id) rfl
  have closed : Reaches (localStep limits sha256) (shelf.phone r [.checkpoint 0] .close 0)
      (shelf.phone { r with handle := none } [.checkpoint 0] .rename 0) := reaches_work (noFailure id) rfl
  refine (((asked.trans chosen).trans flushed).trans closed).trans (reaches_work (noFailure id) ?_)
  simp [Shelf.phone, work, workCheckpoint, workSeal, file, noFailure, finishJob, setRecording]

theorem reaches_phone (run : Reaches (localStep limits sha256) p p') : Reaches (phoneStep limits sha256) p p' := by
  induction run with
  | refl => exact .refl
  | tail _ last ih =>
      obtain ⟨a, done, -⟩ := last
      exact ih.tail ⟨a, done⟩

/-- A pass over a single sealed file whose upload is acknowledged empties the outbox. -/
theorem reaches_delivered {id : Uuid} {content : Bytes} {fields : List (String × Value)} {preroll start : Nat}
    {text : String} (files : shelf.files = [⟨id, true, content⟩]) (size : content.length ≤ maxPartBytes)
    (read : header content = .ok (fields, preroll, start)) (named : strField "id" fields = some text) :
    Reaches (phoneStep limits sha256) (shelf.phone r [] .start 0)
      ({ shelf with files := [], pendingBytes := 0, pendingParts := 0 }.phone r [] .start 0) := by
  let idle := shelf.phone r [] .start 0
  let gone : Phone := { idle with files := [] }
  have started : Reaches (phoneStep limits sha256) idle { idle with drain := some ⟨[id], none, false⟩ } := by
    refine .single ⟨.startDrain, ?_⟩
    simp [phoneStep, perform, startDrain, idle, Shelf.phone, files]
  have uploaded : Reaches (phoneStep limits sha256) { idle with drain := some ⟨[id], none, false⟩ }
      { idle with drain := some ⟨[], some (id, content), false⟩ } := by
    refine .single ⟨.readPart false, ?_⟩
    simp [phoneStep, perform, readPart, idle, Shelf.phone, files, findFile, Nat.not_lt.mpr size, read]
  have acknowledged : Reaches (phoneStep limits sha256) { idle with drain := some ⟨[], some (id, content), false⟩ }
      { gone with drain := some ⟨[], none, false⟩ } := by
    refine .single ⟨.acknowledge text (sha256 content), ?_⟩
    simp [phoneStep, perform, acknowledge, gone, idle, Shelf.phone, files, read, named, deleteFile]
  have ended : Reaches (phoneStep limits sha256) { gone with drain := some ⟨[], none, false⟩ }
      { gone with drain := some ⟨[], none, true⟩, jobs := [.count] } := .single ⟨.endDrain, rfl⟩
  exact (((started.trans uploaded).trans acknowledged).trans ended).trans (.single ⟨.work (noFailure id), rfl⟩)

/-- A phone recording right after `begin`. -/
def startedRecording (recordingId : Uuid) (serverId : Digest) : Recording :=
  ⟨recordingId, .phone, .pcm16, serverId, 0, none, none, 0, 0, 0, 0, .empty, false, false, false⟩

theorem startedRecording_between (recordingId : Uuid) (serverId : Digest) :
    Between (startedRecording recordingId serverId) := ⟨rfl, rfl, rfl, rfl, rfl⟩

theorem reaches_started (recordingId : Uuid) (serverId : Digest) :
    Reaches (localStep limits sha256) newPhone
      ((⟨[], 0, 0, [recordingId], [], []⟩ : Shelf).phone (startedRecording recordingId serverId) [] .start 0) := by
  have opened : Reaches (localStep limits sha256) newPhone { newPhone with recovery := none } :=
    .single ⟨.recover false, rfl, nofun⟩
  exact opened.trans (.single ⟨.begin recordingId .phone .pcm16 serverId, rfl, nofun⟩)

end Running

end OmiLocal.Capture
