import OmiLocal.Capture.Ledger

/-!
# The invariant of the outbox

Every file is a state of its part, every recording between two jobs either has
failed or stands at the end of its last part, and the job that runs is somewhere
on its way between the two. `Moves` is what a step does to the files as seen from
outside: a part whose file is sealed or gone never changes again.
-/
namespace OmiLocal.Capture
open Lib.Framing Lib.Json

structure FilesOk (parts : List Part) (files : List PartFile) : Prop where
  ids : (files.map PartFile.id).Nodup
  held : ∀ f ∈ files, ∃ q ∈ parts, q.id = f.id ∧ (f.ready = false → Content q f.content) ∧
    (f.ready = true → Sealed q f.content)

/-- Nothing of the recording is begun and not persisted. -/
def Clean (parts : List Part) (recordingId : Uuid) : Prop :=
  ∀ q ∈ parts, q.recordingId = recordingId → q.extra = none

structure RecordingOk (parts : List Part) (issued : List Uuid) (persisted : List (Uuid × Packet)) (r : Recording) :
    Prop where
  known : r.recordingId ∈ issued
  format : supportedFormat r.source r.codec = true
  index : ∀ q ∈ parts, q.recordingId = r.recordingId → q.header.index < r.index
  codec : ∀ q ∈ parts, q.recordingId = r.recordingId → q.header.codec = r.codec
  pcm : r.codec = .pcm16 → r.preroll = .empty
  opus : r.codec ≠ .pcm16 → r.preroll.holds (timed r.codec (logOf persisted r.recordingId))

/-- The part is the last one of the recording. -/
structure Current (parts : List Part) (r : Recording) (part : Part) : Prop where
  member : part ∈ parts
  mine : part.recordingId = r.recordingId
  last : ∀ q ∈ parts, q.recordingId = r.recordingId → q.header.index ≤ part.header.index

/-- The recording's counters agree with its last part, whose file ends with the last persisted packet. -/
structure Open (parts : List Part) (files : List PartFile) (r : Recording) (part : Part) : Prop extends
    Current parts r part where
  file : ⟨part.id, false, part.written⟩ ∈ files
  bytes : r.bytes = part.written.length
  count : r.packetCount = part.preroll.length + part.fresh.length
  audio : r.audioMicroseconds = audio r.codec part.fresh

/-- A recording between two of its jobs. -/
def Idle (parts : List Part) (files : List PartFile) (r : Recording) : Prop :=
  r.writeFailed = true ∨ Clean parts r.recordingId ∧ (r.handle = none ∨ ∃ part, Open parts files r part ∧
    part.fresh ≠ [] ∧ r.handle = some part.id ∧ r.file = some part.id)

/-- A part that `_open` is about to create. -/
structure NewPart (limits : Limits) (parts : List Part) (issued : List Uuid) (r : Recording) (header : Header)
    (preroll : List Packet) : Prop where
  new : ∀ q ∈ parts, q.id ≠ header.id
  known : header.id ∈ issued
  mine : header.recordingId = r.recordingId
  codec : header.codec = r.codec
  above : ∀ q ∈ parts, q.recordingId = r.recordingId → q.header.index < header.index
  below : header.index < r.index
  ok : PartOk limits (freshOf parts r.recordingId) ⟨header, preroll, [], none⟩

/-- The packet still fits into the part. -/
structure Room (limits : Limits) (r : Recording) (part : Part) (payload : Packet) : Prop where
  small : payload ≠ [] ∧ payload.length ≤ maxFrameBytes
  duration : ∃ d, packetMicroseconds r.codec payload = .ok d
  room : part.preroll.length + part.fresh.length + 1 ≤ maxPartPackets
  size : part.written.length + payload.length + 4 ≤ maxPartBytes ∨ part.fresh = []
  length : audio r.codec part.fresh + microseconds r.codec payload ≤ limits.partMicroseconds ∨ part.fresh = []

def Job.recording : Job → Option Nat
  | .add k _ _ _ => some k
  | .checkpoint k => some k
  | .stop k => some k
  | .count => none

def Job.payload : Job → Option Packet
  | .add _ payload _ _ => some payload
  | _ => none

/-- Where the job that runs stands, for the recording it works on. -/
def AtStage (limits : Limits) (parts : List Part) (files : List PartFile) (issued : List Uuid) (r : Recording)
    (job : Job) : Stage → Prop
  | .start => Idle parts files r
  | .flush => Clean parts r.recordingId ∧ ∃ part, Open parts files r part ∧ part.fresh ≠ [] ∧
      r.handle = some part.id ∧ r.file = some part.id
  | .close => Clean parts r.recordingId ∧ ∃ part, Open parts files r part ∧ part.fresh ≠ [] ∧
      r.handle = some part.id ∧ r.file = some part.id
  | .rename => Clean parts r.recordingId ∧ r.handle = none ∧ ∃ part, Open parts files r part ∧ part.fresh ≠ [] ∧
      r.file = some part.id
  | .fresh => Clean parts r.recordingId ∧ r.handle = none
  | .create header preroll => Clean parts r.recordingId ∧ r.handle = none ∧ r.file = some header.id ∧
      r.audioMicroseconds = 0 ∧ NewPart limits parts issued r header preroll
  | .handle header preroll => Clean parts r.recordingId ∧ r.file = some header.id ∧ r.audioMicroseconds = 0 ∧
      Current parts r ⟨header, preroll, [], none⟩ ∧ ⟨header.id, false, []⟩ ∈ files
  | .opening header preroll rest => Clean parts r.recordingId ∧ r.handle = some header.id ∧
      r.file = some header.id ∧ r.audioMicroseconds = 0 ∧ Current parts r ⟨header, preroll, [], none⟩ ∧
      ∃ done, done ++ rest = opening header preroll ∧ ⟨header.id, false, done⟩ ∈ files
  | .quota => Clean parts r.recordingId ∧ ∃ part payload, Open parts files r part ∧ job.payload = some payload ∧
      r.handle = some part.id ∧ r.file = some part.id ∧ Room limits r part payload
  | .writing rest => ∃ part payload, Current parts r part ∧ job.payload = some payload ∧
      part.extra = some payload ∧ (∀ q ∈ parts, q.recordingId = r.recordingId → q ≠ part → q.extra = none) ∧
      r.handle = some part.id ∧ r.file = some part.id ∧ r.bytes = part.written.length ∧
      r.packetCount = part.preroll.length + part.fresh.length ∧ r.audioMicroseconds = audio r.codec part.fresh ∧
      ∃ done, done ++ rest = record be32 payload ∧ ⟨part.id, false, part.written ++ done⟩ ∈ files

/-- The body that went out for a part; its file, while it is there, stays exactly this. -/
def SentAs (parts : List Part) (files : List PartFile) (id : Uuid) (body : Bytes) : Prop :=
  ∃ q ∈ parts, q.id = id ∧ Sealed q body ∧ ∀ f ∈ files, f.id = id → f.ready = true ∧ f.content = body

def Ready (parts : List Part) (files : List PartFile) (id : Uuid) : Prop :=
  ∃ q ∈ parts, q.id = id ∧ ∀ f ∈ files, f.id = id → f.ready = true

def JobOk (recordings : List Recording) (job : Job) : Prop :=
  ∀ k payload duration now, job = .add k payload duration now → ∃ r, recordings[k]? = some r ∧
    (payload ≠ [] ∧ payload.length ≤ maxFrameBytes) ∧ packetMicroseconds r.codec payload = .ok duration

structure RecoveryOk (parts : List Part) (p : Phone) (recovery : Recovery) : Prop where
  recordings : p.recordings = []
  jobs : p.jobs = []
  drain : p.drain = none
  nodup : (recovery.cut.toList ++ recovery.rest).Nodup
  rest : ∀ id ∈ recovery.rest, ∀ f ∈ p.files, f.id = id → f.ready = false
  cut : ∀ id, recovery.cut = some id → ∃ q ∈ parts, q.id = id ∧ ∃ content, ⟨id, false, content⟩ ∈ p.files ∧
    Sealed q content

structure DrainOk (parts : List Part) (files : List PartFile) (drain : Drain) : Prop where
  rest : ∀ id ∈ drain.rest, Ready parts files id
  current : ∀ id body, drain.current = some (id, body) → SentAs parts files id body

structure Inv (limits : Limits) (parts : List Part) (p : Phone) : Prop where
  ledger : Ledger limits parts p.issued p.persisted p.begun
  files : FilesOk parts p.files
  distinct : (p.recordings.map Recording.recordingId).Nodup
  recordings : ∀ (j : Nat) r, p.recordings[j]? = some r → RecordingOk parts p.issued p.persisted r
  idle : ∀ (j : Nat) r, p.recordings[j]? = some r → (p.stage = .start ∨ p.jobs.head?.bind Job.recording ≠ some j) →
    Idle parts p.files r
  jobs : ∀ job ∈ p.jobs, JobOk p.recordings job
  running : p.stage ≠ .start → ∃ job rest k r, p.jobs = job :: rest ∧ job.recording = some k ∧
    p.recordings[k]? = some r ∧ AtStage limits parts p.files p.issued r job p.stage
  recovery : ∀ recovery, p.recovery = some recovery → RecoveryOk parts p recovery
  drain : ∀ drain, p.drain = some drain → DrainOk parts p.files drain

/-- What a step does to the directory, seen from outside: only a part whose file is not sealed changes, a file goes
away only where `gone` allows it, and no file appears under the name of an older one. -/
structure Moves (gone : Uuid → Prop) (parts : List Part) (files : List PartFile) (parts' : List Part)
    (files' : List PartFile) : Prop where
  settled : ∀ q ∈ parts, (∀ f ∈ files, f.id = q.id → f.ready = true) → q ∈ parts'
  present : ∀ q ∈ parts', (∃ f ∈ files', f.id = q.id) ∨ gone q.id ∨ (∃ q' ∈ parts, q'.id = q.id) ∧
    ∀ f ∈ files, f.id ≠ q.id
  fixed : ∀ f ∈ files', f ∈ files ∨ ∀ q ∈ parts, q.id = f.id → ∃ f' ∈ files, f'.id = f.id ∧ f'.ready = false

/-- A change that leaves the other recordings alone. -/
structure Frame (recordingId : Uuid) (parts : List Part) (files : List PartFile) (parts' : List Part)
    (files' : List PartFile) : Prop where
  others : ∀ q, q.recordingId ≠ recordingId → (q ∈ parts' ↔ q ∈ parts)
  kept : ∀ f ∈ files, f.ready = false → (∃ q ∈ parts, q.id = f.id ∧ q.recordingId ≠ recordingId) → f ∈ files'

section Frames

variable {limits : Limits} {parts parts' : List Part} {files files' : List PartFile} {gone : Uuid → Prop}

theorem Moves.same (parts : List Part) (files : List PartFile) : Moves gone parts files parts files where
  settled := fun _ h _ => h
  present := fun q h => by
    by_cases there : ∃ f ∈ files, f.id = q.id
    · exact .inl there
    · exact .inr (.inr ⟨⟨q, h, rfl⟩, fun f hf same => there ⟨f, hf, same⟩⟩)
  fixed := fun _ h => .inl h

theorem Frame.same (recordingId : Uuid) (parts : List Part) (files : List PartFile) :
    Frame recordingId parts files parts files := ⟨fun _ _ => Iff.rfl, fun _ h _ _ => h⟩

theorem SentAs.moves {id : Uuid} {body : Bytes} (moves : Moves gone parts files parts' files')
    (sent : SentAs parts files id body) : SentAs parts' files' id body := by
  obtain ⟨q, member, rfl, done, fixed⟩ := sent
  refine ⟨q, moves.settled q member fun f hf same => (fixed f hf same).1, rfl, done, fun f hf same => ?_⟩
  rcases moves.fixed f hf with old | changed
  · exact fixed f old same
  · obtain ⟨f', hf', same', notReady⟩ := changed q member same.symm
    rw [(fixed f' hf' (same'.trans same)).1] at notReady
    cases notReady

theorem Ready.moves {id : Uuid} (moves : Moves gone parts files parts' files') (ready : Ready parts files id) :
    Ready parts' files' id := by
  obtain ⟨q, member, rfl, fixed⟩ := ready
  refine ⟨q, moves.settled q member fixed, rfl, fun f hf same => ?_⟩
  rcases moves.fixed f hf with old | changed
  · exact fixed f old same
  · obtain ⟨f', hf', same', notReady⟩ := changed q member same.symm
    rw [fixed f' hf' (same'.trans same)] at notReady
    cases notReady

theorem DrainOk.moves {drain : Drain} (moves : Moves gone parts files parts' files') (ok : DrainOk parts files drain) :
    DrainOk parts' files' drain :=
  ⟨fun id h => (ok.rest id h).moves moves, fun id body h => (ok.current id body h).moves moves⟩

theorem Open.frame {r : Recording} {part : Part} {recordingId : Uuid} (other : r.recordingId ≠ recordingId)
    (frame : Frame recordingId parts files parts' files') (before : Open parts files r part) :
    Open parts' files' r part := by
  have partOther : part.recordingId ≠ recordingId := before.mine ▸ other
  refine ⟨⟨(frame.others part partOther).mpr before.member, before.mine, fun q hq mine => ?_⟩, ?_, before.bytes,
    before.count, before.audio⟩
  · exact before.last q ((frame.others q (mine ▸ other)).mp hq) mine
  · exact frame.kept _ before.file rfl ⟨part, before.member, rfl, partOther⟩

theorem Idle.frame {r : Recording} {recordingId : Uuid} (other : r.recordingId ≠ recordingId)
    (frame : Frame recordingId parts files parts' files') (before : Idle parts files r) : Idle parts' files' r := by
  refine before.imp (fun h => h) ?_
  rintro ⟨clean, handle⟩
  refine ⟨fun q hq mine => clean q ((frame.others q (mine ▸ other)).mp hq) mine, ?_⟩
  refine handle.imp (fun h => h) ?_
  rintro ⟨part, opened, rest⟩
  exact ⟨part, opened.frame other frame, rest⟩

theorem RecordingOk.frame {issued issued' : List Uuid} {persisted persisted' : List (Uuid × Packet)} {r : Recording}
    {recordingId : Uuid} (other : r.recordingId ≠ recordingId) (frame : Frame recordingId parts files parts' files')
    (known : ∀ id ∈ issued, id ∈ issued')
    (log : ∀ id, id ≠ recordingId → logOf persisted' id = logOf persisted id)
    (before : RecordingOk parts issued persisted r) : RecordingOk parts' issued' persisted' r := by
  have back : ∀ q ∈ parts', q.recordingId = r.recordingId → q ∈ parts := fun q hq mine =>
    (frame.others q (mine ▸ other)).mp hq
  refine ⟨known _ before.known, before.format, fun q hq mine => before.index q (back q hq mine) mine,
    fun q hq mine => before.codec q (back q hq mine) mine, before.pcm, fun opus => ?_⟩
  rw [log _ other]
  exact before.opus opus

/-- Only files that are not sealed matter to a recording. -/
theorem Open.onFiles {r : Recording} {part : Part} (kept : ∀ f ∈ files, f.ready = false → f ∈ files')
    (before : Open parts files r part) : Open parts files' r part :=
  { before with file := kept _ before.file rfl }

theorem Idle.onFiles {r : Recording} (kept : ∀ f ∈ files, f.ready = false → f ∈ files') (before : Idle parts files r) :
    Idle parts files' r := by
  refine before.imp (fun h => h) ?_
  rintro ⟨clean, handle⟩
  refine ⟨clean, handle.imp (fun h => h) ?_⟩
  rintro ⟨part, opened, rest⟩
  exact ⟨part, opened.onFiles kept, rest⟩

theorem AtStage.onFiles {issued : List Uuid} {r : Recording} {job : Job} {stage : Stage}
    (kept : ∀ f ∈ files, f.ready = false → f ∈ files') (before : AtStage limits parts files issued r job stage) :
    AtStage limits parts files' issued r job stage := by
  cases stage with
  | start => exact Idle.onFiles kept before
  | flush =>
      obtain ⟨clean, part, opened, rest⟩ := before
      exact ⟨clean, part, opened.onFiles kept, rest⟩
  | close =>
      obtain ⟨clean, part, opened, rest⟩ := before
      exact ⟨clean, part, opened.onFiles kept, rest⟩
  | rename =>
      obtain ⟨clean, handle, part, opened, rest⟩ := before
      exact ⟨clean, handle, part, opened.onFiles kept, rest⟩
  | fresh => exact before
  | create header preroll => exact before
  | handle header preroll =>
      obtain ⟨clean, file, silent, current, here⟩ := before
      exact ⟨clean, file, silent, current, kept _ here rfl⟩
  | opening header preroll rest =>
      obtain ⟨clean, handle, file, silent, current, done, all, here⟩ := before
      exact ⟨clean, handle, file, silent, current, done, all, kept _ here rfl⟩
  | quota =>
      obtain ⟨clean, part, payload, opened, rest⟩ := before
      exact ⟨clean, part, payload, opened.onFiles kept, rest⟩
  | writing rest =>
      obtain ⟨part, payload, current, job, extra, others, handle, file, bytes, count, audio, done, all, here⟩ := before
      exact ⟨part, payload, current, job, extra, others, handle, file, bytes, count, audio, done, all,
        kept _ here rfl⟩

theorem AtStage.issue {issued : List Uuid} {r : Recording} {job : Job} {stage : Stage}
    (before : AtStage limits parts files issued r job stage) (id : Uuid) :
    AtStage limits parts files (issued ++ [id]) r job stage := by
  cases stage with
  | create header preroll =>
      obtain ⟨clean, handle, file, silent, new⟩ := before
      exact ⟨clean, handle, file, silent, { new with known := List.mem_append_left _ new.known }⟩
  | _ => exact before

theorem Open.flags {r : Recording} {part : Part} (before : Open parts files r part) (closed stopping : Bool) :
    Open parts files { r with closed := closed, stopping := stopping } part :=
  ⟨⟨before.member, before.mine, before.last⟩, before.file, before.bytes, before.count, before.audio⟩

theorem Idle.flags {r : Recording} (before : Idle parts files r) (closed stopping : Bool) :
    Idle parts files { r with closed := closed, stopping := stopping } := by
  refine before.imp (fun h => h) ?_
  rintro ⟨clean, handle⟩
  refine ⟨clean, handle.imp (fun h => h) ?_⟩
  rintro ⟨part, opened, rest⟩
  exact ⟨part, opened.flags closed stopping, rest⟩

theorem AtStage.flags {issued : List Uuid} {r : Recording} {job : Job} {stage : Stage}
    (before : AtStage limits parts files issued r job stage) (closed stopping : Bool) :
    AtStage limits parts files issued { r with closed := closed, stopping := stopping } job stage := by
  cases stage with
  | start => exact Idle.flags before closed stopping
  | flush =>
      obtain ⟨clean, part, opened, rest⟩ := before
      exact ⟨clean, part, opened.flags closed stopping, rest⟩
  | close =>
      obtain ⟨clean, part, opened, rest⟩ := before
      exact ⟨clean, part, opened.flags closed stopping, rest⟩
  | rename =>
      obtain ⟨clean, handle, part, opened, rest⟩ := before
      exact ⟨clean, handle, part, opened.flags closed stopping, rest⟩
  | fresh => exact before
  | create header preroll =>
      obtain ⟨clean, handle, file, silent, new⟩ := before
      exact ⟨clean, handle, file, silent, new.new, new.known, new.mine, new.codec, new.above, new.below, new.ok⟩
  | handle header preroll =>
      obtain ⟨clean, file, silent, current, here⟩ := before
      exact ⟨clean, file, silent, ⟨current.member, current.mine, current.last⟩, here⟩
  | opening header preroll rest =>
      obtain ⟨clean, handle, file, silent, current, rest⟩ := before
      exact ⟨clean, handle, file, silent, ⟨current.member, current.mine, current.last⟩, rest⟩
  | quota =>
      obtain ⟨clean, part, payload, opened, job, handle, file, room⟩ := before
      exact ⟨clean, part, payload, opened.flags closed stopping, job, handle, file, room.small, room.duration, room.room,
        room.size, room.length⟩
  | writing rest =>
      obtain ⟨part, payload, current, rest⟩ := before
      exact ⟨part, payload, ⟨current.member, current.mine, current.last⟩, rest⟩

/-! ## Changing files -/

theorem mem_changeFile {id : Uuid} {change : PartFile → PartFile} {f : PartFile} :
    f ∈ changeFile files id change ↔ ∃ f' ∈ files, f = if f'.id = id then change f' else f' := by
  unfold changeFile
  rw [List.mem_map]
  constructor <;> rintro ⟨f', h, e⟩ <;> exact ⟨f', h, e.symm⟩

theorem mem_changeFile_of_mem {id : Uuid} {change : PartFile → PartFile} {f : PartFile} (member : f ∈ files)
    (here : f.id = id) : change f ∈ changeFile files id change :=
  mem_changeFile.mpr ⟨f, member, by rw [if_pos here]⟩

theorem mem_changeFile_of_ne {id : Uuid} {change : PartFile → PartFile} {f : PartFile} (member : f ∈ files)
    (other : f.id ≠ id) : f ∈ changeFile files id change :=
  mem_changeFile.mpr ⟨f, member, by rw [if_neg other]⟩

theorem eq_of_file_id (nodup : (files.map PartFile.id).Nodup) {f f' : PartFile} (hf : f ∈ files) (hf' : f' ∈ files)
    (same : f.id = f'.id) : f = f' :=
  List.inj_on_of_nodup_map nodup hf hf' same

theorem FilesOk.change {id : Uuid} {change : PartFile → PartFile} (ok : FilesOk parts files)
    (sameId : ∀ f, (change f).id = f.id) (others : ∀ q ∈ parts, q.id ≠ id → q ∈ parts')
    (changed : ∀ f ∈ files, f.id = id → ∃ q ∈ parts', q.id = id ∧
      ((change f).ready = false → Content q (change f).content) ∧
      ((change f).ready = true → Sealed q (change f).content)) :
    FilesOk parts' (changeFile files id change) := by
  have ids : (changeFile files id change).map PartFile.id = files.map PartFile.id := by
    unfold changeFile
    rw [List.map_map]
    refine List.map_congr_left fun f _ => ?_
    simp only [Function.comp]
    split
    · exact sameId f
    · rfl
  refine ⟨by rw [ids]; exact ok.ids, fun f member => ?_⟩
  obtain ⟨f', old, rfl⟩ := mem_changeFile.mp member
  split
  · rename_i here
    obtain ⟨q, hq, qid, content⟩ := changed f' old here
    exact ⟨q, hq, by rw [sameId, here]; exact qid, content⟩
  · rename_i other
    obtain ⟨q, hq, qid, content⟩ := ok.held f' old
    exact ⟨q, others q hq (qid ▸ other), qid, content⟩

theorem Moves.change {id : Uuid} {change : PartFile → PartFile} (sameId : ∀ f, (change f).id = f.id)
    {f : PartFile} (member : f ∈ files) (here : f.id = id) (unsealed : f.ready = false)
    (others : ∀ q ∈ parts, q.id ≠ id → q ∈ parts') (ids : ∀ q ∈ parts', ∃ q' ∈ parts, q'.id = q.id) :
    Moves gone parts files parts' (changeFile files id change) := by
  refine ⟨fun q hq sealed_ => ?_, fun q hq => ?_, fun f' member' => ?_⟩
  · refine others q hq fun same => ?_
    rw [sealed_ f member (here.trans same.symm)] at unsealed
    cases unsealed
  · by_cases there : ∃ f' ∈ files, f'.id = q.id
    · obtain ⟨f', hf', same⟩ := there
      refine .inl ⟨_, mem_changeFile.mpr ⟨f', hf', rfl⟩, ?_⟩
      split
      · rw [sameId, same]
      · exact same
    · exact .inr (.inr ⟨ids q hq, fun f' hf' same => there ⟨f', hf', same⟩⟩)
  · obtain ⟨f'', old, rfl⟩ := mem_changeFile.mp member'
    split
    · rename_i mine
      exact .inr fun q _ _ => ⟨f, member, by rw [sameId, here, mine], unsealed⟩
    · exact .inl old

/-- A change of one part and its file, inside one recording. -/
theorem Frame.change {recordingId id : Uuid} {change : PartFile → PartFile}
    (nodup : (parts.map Part.id).Nodup) {part : Part} (member : part ∈ parts) (partId : part.id = id)
    (mine : part.recordingId = recordingId)
    (others : ∀ q, q.recordingId ≠ recordingId → (q ∈ parts' ↔ q ∈ parts)) :
    Frame recordingId parts files parts' (changeFile files id change) := by
  refine ⟨others, fun f hf _ other => ?_⟩
  obtain ⟨q, hq, qid, notMine⟩ := other
  refine mem_changeFile_of_ne hf fun same => notMine ?_
  rw [List.inj_on_of_nodup_map nodup hq member (qid.trans (same.trans partId.symm))]
  exact mine

end Frames

/-! ## One step of a job -/

theorem set_self {recordings : List Recording} {k : Nat} {r : Recording} (found : recordings[k]? = some r) :
    recordings.set k r = recordings := by
  obtain ⟨bound, rfl⟩ := List.getElem?_eq_some_iff.mp found
  exact List.set_getElem_self bound

section Jobs

variable {limits : Limits} {parts parts' : List Part} {p p' : Phone} {k : Nat} {r n : Recording} {job : Job}
  {rest : List Job}

/-- What a step of the job on recording `k` has to establish. -/
structure Progress (limits : Limits) (parts : List Part) (p : Phone) (job : Job) (rest : List Job) (k : Nat)
    (r : Recording) (parts' : List Part) (p' : Phone) (n : Recording) : Prop where
  recordings : p'.recordings = p.recordings.set k n
  recordingId : n.recordingId = r.recordingId
  codec : n.codec = r.codec
  issued : ∀ id ∈ p.issued, id ∈ p'.issued
  log : ∀ id, id ≠ r.recordingId → logOf p'.persisted id = logOf p.persisted id
  ledger : Ledger limits parts' p'.issued p'.persisted p'.begun
  files : FilesOk parts' p'.files
  frame : Frame r.recordingId parts p.files parts' p'.files
  moves : Moves (fun _ => False) parts p.files parts' p'.files
  ok : RecordingOk parts' p'.issued p'.persisted n
  next : p'.jobs = p.jobs ∧ p'.stage ≠ .start ∧ AtStage limits parts' p'.files p'.issued n job p'.stage ∨
    p'.jobs = rest ∧ p'.stage = .start ∧ Idle parts' p'.files n
  recovery : p'.recovery = p.recovery
  drain : p'.drain = p.drain

theorem Inv.progress (inv : Inv limits parts p) (jobs : p.jobs = job :: rest) (on : job.recording = some k)
    (found : p.recordings[k]? = some r) (progress : Progress limits parts p job rest k r parts' p' n) :
    Inv limits parts' p' := by
  obtain ⟨bound, isR⟩ := List.getElem?_eq_some_iff.mp found
  have other : ∀ (j : Nat) s, j ≠ k → p.recordings[j]? = some s → s.recordingId ≠ r.recordingId := by
    intro j s ne here same
    obtain ⟨inside, rfl⟩ := List.getElem?_eq_some_iff.mp here
    have repeated : (p.recordings.map (·.recordingId))[j]? = (p.recordings.map (·.recordingId))[k]? := by
      rw [List.getElem?_map, List.getElem?_map, here, found, Option.map_some, Option.map_some, same]
    exact ne ((List.getElem?_inj (by simpa using inside) inv.distinct).mp repeated)
  have lookup : ∀ j : Nat, p'.recordings[j]? = if j = k then some n else p.recordings[j]? := by
    intro j
    rw [progress.recordings, List.getElem?_set]
    by_cases same : j = k
    · subst same
      simp [bound]
    · rw [if_neg (Ne.symm same), if_neg same]
  have jobOk : ∀ job, JobOk p.recordings job → JobOk p'.recordings job := by
    intro job ok j payload duration now isAdd
    obtain ⟨s, here, small, timed⟩ := ok j payload duration now isAdd
    rw [lookup]
    by_cases same : j = k
    · rw [if_pos same]
      rw [same, found] at here
      cases here
      exact ⟨n, rfl, small, progress.codec ▸ timed⟩
    · rw [if_neg same]
      exact ⟨s, here, small, timed⟩
  refine ⟨progress.ledger, progress.files, ?_, ?_, ?_, ?_, ?_, ?_, ?_⟩
  · have same : (p.recordings.set k n).map Recording.recordingId = p.recordings.map Recording.recordingId := by
      refine List.ext_getElem? fun j => ?_
      rw [List.getElem?_map, ← progress.recordings, lookup, List.getElem?_map]
      by_cases here : j = k
      · rw [if_pos here, here, found, Option.map_some, Option.map_some, progress.recordingId]
      · rw [if_neg here]
    rw [progress.recordings, same]
    exact inv.distinct
  · intro j s here
    rw [lookup] at here
    by_cases same : j = k
    · rw [if_pos same] at here
      cases here
      exact progress.ok
    · rw [if_neg same] at here
      exact (inv.recordings j s here).frame (other j s same here) progress.frame progress.issued progress.log
  · intro j s here quiet
    rw [lookup] at here
    by_cases same : j = k
    · rw [if_pos same] at here
      cases here
      rcases progress.next with ⟨jobs', busy, -⟩ | ⟨-, -, idle⟩
      · rcases quiet with start | notHead
        · exact absurd start busy
        · rw [jobs', jobs] at notHead
          exact absurd (by simpa [same] using on) notHead
      · exact idle
    · rw [if_neg same] at here
      refine (inv.idle j s here ?_).frame (other j s same here) progress.frame
      right
      rw [jobs, List.head?_cons, Option.bind_some, on]
      exact fun h => same (Option.some.inj h).symm
  · intro job' member
    refine jobOk job' (inv.jobs job' ?_)
    rcases progress.next with ⟨jobs', -, -⟩ | ⟨jobs', -, -⟩
    · rw [jobs'] at member
      exact member
    · rw [jobs'] at member
      rw [jobs]
      exact List.mem_cons_of_mem _ member
  · intro busy
    rcases progress.next with ⟨jobs', -, at_⟩ | ⟨-, start, -⟩
    · exact ⟨job, rest, k, n, jobs'.trans jobs, on, by rw [lookup, if_pos rfl], at_⟩
    · exact absurd start busy
  · intro recovery here
    rw [progress.recovery] at here
    have := (inv.recovery recovery here).jobs
    rw [jobs] at this
    cases this
  · intro drain here
    rw [progress.drain] at here
    exact (inv.drain drain here).moves progress.moves

theorem Inv.at_stage (inv : Inv limits parts p) (jobs : p.jobs = job :: rest) (on : job.recording = some k)
    (found : p.recordings[k]? = some r) : AtStage limits parts p.files p.issued r job p.stage := by
  by_cases start : p.stage = .start
  · rw [start]
    exact inv.idle k r found (.inl start)
  · obtain ⟨job', rest', k', n, jobs', on', found', at_⟩ := inv.running start
    rw [jobs] at jobs'
    cases jobs'
    rw [on] at on'
    cases on'
    rw [found] at found'
    cases found'
    exact at_

/-- The invariant after a step, with what the step did. -/
def Step (limits : Limits) (gone : Uuid → Prop) (parts : List Part) (p p' : Phone) : Prop :=
  ∃ parts', Inv limits parts' p' ∧ Moves gone parts p.files parts' p'.files

/-- A step that writes nothing. -/
theorem Inv.local (inv : Inv limits parts p) (jobs : p.jobs = job :: rest) (on : job.recording = some k)
    (found : p.recordings[k]? = some r) (recordings : p'.recordings = p.recordings.set k n)
    (recordingId : n.recordingId = r.recordingId) (codec : n.codec = r.codec) (files : p'.files = p.files)
    (issued : p'.issued = p.issued) (persisted : p'.persisted = p.persisted) (begun : p'.begun = p.begun)
    (recovery : p'.recovery = p.recovery) (drain : p'.drain = p.drain)
    (ok : RecordingOk parts p.issued p.persisted n)
    (next : p'.jobs = p.jobs ∧ p'.stage ≠ .start ∧ AtStage limits parts p.files p.issued n job p'.stage ∨
      p'.jobs = rest ∧ p'.stage = .start ∧ Idle parts p.files n) : Step limits (fun _ => False) parts p p' := by
  refine ⟨parts, inv.progress (n := n) jobs on found ?_, files ▸ Moves.same parts p'.files⟩
  refine ⟨recordings, recordingId, codec, fun id h => issued ▸ h, fun id _ => by rw [persisted], ?_, ?_, ?_, ?_, ?_,
    ?_, recovery, drain⟩
  · rw [issued, persisted, begun]
    exact inv.ledger
  · rw [files]
    exact inv.files
  · rw [files]
    exact Frame.same _ _ _
  · rw [files]
    exact Moves.same _ _
  · rw [issued, persisted]
    exact ok
  · rw [files, issued]
    exact next

theorem RecordingOk.update {issued : List Uuid} {persisted : List (Uuid × Packet)}
    (ok : RecordingOk parts issued persisted r) (recordingId : n.recordingId = r.recordingId)
    (source : n.source = r.source) (codec : n.codec = r.codec) (index : r.index ≤ n.index)
    (preroll : n.preroll = r.preroll) : RecordingOk parts issued persisted n := by
  refine ⟨recordingId ▸ ok.known, by rw [source, codec]; exact ok.format, fun q hq mine => ?_, fun q hq mine => ?_, ?_, ?_⟩
  · exact (ok.index q hq (mine.trans recordingId)).trans_le index
  · rw [codec]
    exact ok.codec q hq (mine.trans recordingId)
  · rw [codec, preroll]
    exact ok.pcm
  · rw [codec, preroll, recordingId]
    exact ok.opus

end Jobs

end OmiLocal.Capture
