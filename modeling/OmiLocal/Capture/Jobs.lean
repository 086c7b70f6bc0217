import OmiLocal.Capture.Invariant

/-!
# The jobs keep the invariant

One lemma for each stage of `add`'s closure and of `_seal`: what is written goes
to the last part of the recording, and a failure at any stage only latches.
-/
namespace OmiLocal.Capture
open Lib.Framing Lib.Json

section Stages

variable {limits : Limits} {parts : List Part} {p p' : Phone} {k : Nat} {r n : Recording} {job : Job}
  {rest : List Job} {payload : Packet} {duration : Nat} {now : DateTime}

theorem failAdd_step (inv : Inv limits parts p) (jobs : p.jobs = .add k payload duration now :: rest)
    (found : p.recordings[k]? = some r) : Step limits (fun _ => False) parts p (failAdd p k r payload) := by
  refine inv.local (n := { r with writeFailed := true }) jobs rfl found rfl rfl rfl rfl rfl rfl rfl rfl rfl
    ((inv.recordings k r found).update rfl rfl rfl le_rfl rfl) (.inr ⟨?_, rfl, .inl rfl⟩)
  change p.jobs.tail = rest
  rw [jobs]
  rfl

/-- Only the stage changes. -/
theorem stage_step (inv : Inv limits parts p) (jobs : p.jobs = job :: rest) (on : job.recording = some k)
    (found : p.recordings[k]? = some r) {stage : Stage} (busy : stage ≠ .start)
    (next : AtStage limits parts p.files p.issued r job stage) :
    Step limits (fun _ => False) parts p { p with stage := stage } :=
  inv.local jobs on found (set_self found).symm rfl rfl rfl rfl rfl rfl rfl rfl (inv.recordings k r found)
    (.inl ⟨rfl, busy, next⟩)

theorem audio_append (codec : Codec) (packets : List Packet) (packet : Packet) :
    audio codec (packets ++ [packet]) = audio codec packets + microseconds codec packet := by
  simp [audio]

theorem microseconds_ok {codec : Codec} {packet : Packet} {d : Nat} (ok : packetMicroseconds codec packet = .ok d) :
    microseconds codec packet = d := by
  rw [microseconds, ok]
  rfl

theorem start_step (inv : Inv limits parts p) (jobs : p.jobs = .add k payload duration now :: rest)
    (found : p.recordings[k]? = some r) (stage : p.stage = .start) :
    Step limits (fun _ => False) parts p (if r.writeFailed then failAdd p k r payload
      else if r.handle.isNone then { p with stage := .fresh }
      else if needsRotation limits r payload duration then { p with stage := .flush } else { p with stage := .quota }) := by
  have idle := inv.at_stage jobs rfl found
  rw [stage] at idle
  obtain ⟨r0, found0, small, timed⟩ := inv.jobs _ (by rw [jobs]; exact List.mem_cons_self) k payload duration now rfl
  rw [found] at found0
  cases found0
  split
  · exact failAdd_step inv jobs found
  · rename_i working
    obtain ⟨clean, handle⟩ := idle.resolve_left working
    split
    · rename_i closed
      exact stage_step inv jobs rfl found (by simp) ⟨clean, by simpa using closed⟩
    · rename_i held
      obtain ⟨part, opened, some, isHandle, isFile⟩ := handle.resolve_left fun h => held (by rw [h]; rfl)
      split
      · exact stage_step inv jobs rfl found (by simp) ⟨clean, part, opened, some, isHandle, isFile⟩
      · rename_i fits
        simp only [needsRotation, Bool.or_eq_true, decide_eq_true_eq, not_or, not_lt, not_le, gt_iff_lt, ge_iff_le] at fits
        obtain ⟨⟨short, few⟩, light⟩ := fits
        refine stage_step inv jobs rfl found (by simp)
          ⟨clean, part, payload, opened, rfl, isHandle, isFile, small, ⟨duration, timed⟩, ?_, .inl ?_, .inl ?_⟩
        · rw [opened.count] at few
          omega
        · rw [opened.bytes] at light
          exact light
        · rw [opened.audio] at short
          rw [microseconds_ok timed]
          exact short

/-! ## Sealing -/

theorem rename_step (inv : Inv limits parts p) (jobs : p.jobs = job :: rest) (on : job.recording = some k)
    (found : p.recordings[k]? = some r) (stage : p.stage = .rename) {id : Uuid} (isFile : r.file = some id)
    (recordings : p'.recordings = p.recordings.set k { r with file := none }) (files : p'.files = sealFile p.files id)
    (issued : p'.issued = p.issued) (persisted : p'.persisted = p.persisted) (begun : p'.begun = p.begun)
    (recovery : p'.recovery = p.recovery) (drain : p'.drain = p.drain)
    (next : p'.jobs = p.jobs ∧ p'.stage = .fresh ∨ p'.jobs = rest ∧ p'.stage = .start) :
    Step limits (fun _ => False) parts p p' := by
  have here := inv.at_stage jobs on found
  rw [stage] at here
  obtain ⟨clean, handle, part, opened, some, isFile'⟩ := here
  obtain rfl : part.id = id := Option.some.inj (isFile'.symm.trans isFile)
  have moves : Moves (fun _ => False) parts p.files parts (sealFile p.files part.id) :=
    Moves.change (fun _ => rfl) opened.file rfl rfl (fun _ h _ => h) (fun q h => ⟨q, h, rfl⟩)
  refine ⟨parts, inv.progress (n := { r with file := none }) jobs on found ?_, files ▸ moves⟩
  refine ⟨recordings, rfl, rfl, fun id h => issued ▸ h, fun id _ => by rw [persisted], ?_, ?_, ?_, files ▸ moves, ?_, ?_,
    recovery, drain⟩
  · rw [issued, persisted, begun]
    exact inv.ledger
  · rw [files]
    refine inv.files.change (fun _ => rfl) (fun _ h _ => h) fun f hf same => ?_
    obtain rfl := eq_of_file_id inv.files.ids hf opened.file same
    refine ⟨part, opened.member, rfl, fun h => (by cases h), fun _ => ⟨[], List.nil_prefix, by simpa using some, ?_⟩⟩
    rw [List.append_nil]
    rfl
  · rw [files]
    exact Frame.change inv.ledger.ids opened.member rfl opened.mine fun _ _ => Iff.rfl
  · rw [issued, persisted]
    exact (inv.recordings k r found).update rfl rfl rfl le_rfl rfl
  · rcases next with ⟨sameJobs, atFresh⟩ | ⟨done, atStart⟩
    · exact .inl ⟨sameJobs, by rw [atFresh]; simp, by rw [atFresh]; exact ⟨clean, handle⟩⟩
    · exact .inr ⟨done, atStart, .inr ⟨clean, .inl handle⟩⟩

/-! ## Opening a part -/

/-- The persisted packets are admitted packets. -/
theorem log_small (inv : Inv limits parts p) (ok : RecordingOk parts p.issued p.persisted r) :
    ∀ packet ∈ logOf p.persisted r.recordingId, (packet ≠ [] ∧ packet.length ≤ maxFrameBytes) ∧
      ∃ d, packetMicroseconds r.codec packet = .ok d := by
  intro packet member
  rw [inv.ledger.persisted, freshOf, List.mem_flatMap] at member
  obtain ⟨q, hq, here⟩ := member
  obtain ⟨inside, mine⟩ := List.mem_filter.mp hq
  obtain ⟨before, partOk⟩ := inv.ledger.part_ok inside
  have begun : packet ∈ q.begun := List.mem_append_left _ here
  rw [← ok.codec q inside (by simpa using mine)]
  exact ⟨partOk.packets packet (List.mem_append_right _ begun), partOk.durations packet begun⟩

theorem timed_bounds {codec : Codec} (opus : codec ≠ .pcm16) {packets : List Packet}
    (admitted : ∀ packet ∈ packets, ∃ d, packetMicroseconds codec packet = .ok d) :
    ∀ e ∈ timed codec packets, serverPacketMicroseconds e.1 = .ok e.2 ∧ 2500 ≤ e.2 ∧ e.2 ≤ 120000 := by
  intro e member
  obtain ⟨packet, here, rfl⟩ := List.mem_map.mp member
  obtain ⟨d, ok⟩ := admitted packet here
  have server := serverPacketMicroseconds_of_phone opus ok
  have bounds := serverPacketMicroseconds_bounds server
  dsimp only
  rw [microseconds_ok ok]
  exact ⟨server, bounds.1, bounds.2.1⟩

theorem packets_empty : LocalOpusPreroll.empty.packets = [] := rfl

/-- The context of a new part: empty, or the shortest suffix of 80 ms. -/
theorem preroll_context (inv : Inv limits parts p) (found : p.recordings[k]? = some r) :
    r.preroll.packets = [] ∨ r.codec ≠ .pcm16 ∧ 0 < r.index ∧ r.preroll.packets.length ≤ 32 ∧
      (∀ packet ∈ r.preroll.packets, packet ≠ [] ∧ packet.length ≤ maxFrameBytes) ∧
      (∀ packet ∈ freshOf parts r.recordingId, ∃ d, packetMicroseconds r.codec packet = .ok d) ∧ ∃ context,
        r.preroll.packets = context.map Prod.fst ∧ Lib.Suffix.Shortest Prod.snd LocalOpusPreroll.minimumMicroseconds
          (timed r.codec (freshOf parts r.recordingId)) context := by
  have ok := inv.recordings k r found
  have small := log_small inv ok
  by_cases pcm : r.codec = .pcm16
  · left
    rw [ok.pcm pcm]
    exact packets_empty
  · rcases LocalOpusPreroll.packets_spec (ok.opus pcm) with none | ⟨context, same, shortest⟩
    · exact .inl none
    · right
      have bounds := timed_bounds pcm fun packet h => (small packet h).2
      obtain ⟨few, -, -, nonempty⟩ := shortest_context_bounds (fun e h => (bounds e h).2) shortest
      have inside : ∀ packet ∈ r.preroll.packets, packet ∈ logOf p.persisted r.recordingId := by
        intro packet member
        rw [same] at member
        obtain ⟨e, here, rfl⟩ := List.mem_map.mp member
        obtain ⟨packet, logged, rfl⟩ := List.mem_map.mp (shortest.suffix.mem here)
        exact logged
      refine ⟨pcm, ?_, by rw [same, List.length_map]; exact few, fun packet h => (small packet (inside packet h)).1,
        fun packet h => (small packet (inv.ledger.persisted _ ▸ h)).2, context, same, inv.ledger.persisted _ ▸ shortest⟩
      obtain ⟨e, others, rfl⟩ := List.exists_cons_of_ne_nil nonempty
      have logged := inside e.1 (by rw [same]; simp)
      rw [inv.ledger.persisted, freshOf, List.mem_flatMap] at logged
      obtain ⟨q, hq, -⟩ := logged
      obtain ⟨member, mine⟩ := List.mem_filter.mp hq
      have := ok.index q member (by simpa using mine)
      omega

theorem openHeader_ok (inv : Inv limits parts p) (found : p.recordings[k]? = some r) {id : Uuid}
    (countable : (openHeader r id now).encode.length < 2 ^ 32) :
    PartOk limits (freshOf parts r.recordingId) ⟨openHeader r id now, r.preroll.packets, [], none⟩ := by
  have context := preroll_context inv found
  have few : r.preroll.packets.length ≤ 32 := by
    rcases context with none | ⟨-, -, few, -⟩
    · simp [none]
    · exact few
  refine ⟨rfl, (inv.recordings k r found).format, countable, rfl, few, ?_, fun _ h => (by cases h), ?_,
    .inr (by simp [Part.begun]), .inr (by simp [Part.begun]), ?_⟩
  · intro packet member
    have : packet ∈ r.preroll.packets := by simpa [Part.begun] using member
    rcases context with none | ⟨-, -, -, small, -⟩
    · rw [none] at this
      cases this
    · exact small packet this
  · simp only [Part.begun, List.nil_append, Option.toList_none, List.length_nil, maxPartPackets]
    omega
  · rcases context with none | ⟨opus, later, -, -, suffix⟩
    · exact .inl none
    · exact .inr ⟨opus, later, suffix⟩

theorem fresh_step (inv : Inv limits parts p) (jobs : p.jobs = .add k payload duration now :: rest)
    (found : p.recordings[k]? = some r) (stage : p.stage = .fresh) {id : Uuid} (new : id ∉ p.issued)
    (fits : p.pendingBytes + openingBytes (openHeader r id now) r.preroll.packets + (payload.length + 4) ≤
      limits.maxStorageBytes)
    (recordings : p'.recordings = p.recordings.set k
      { r with index := r.index + 1, audioMicroseconds := 0, file := some id })
    (files : p'.files = p.files) (issued : p'.issued = p.issued ++ [id]) (persisted : p'.persisted = p.persisted)
    (begun : p'.begun = p.begun) (recovery : p'.recovery = p.recovery) (drain : p'.drain = p.drain)
    (sameJobs : p'.jobs = p.jobs) (next : p'.stage = .create (openHeader r id now) r.preroll.packets) :
    Step limits (fun _ => False) parts p p' := by
  have here := inv.at_stage jobs rfl found
  rw [stage] at here
  obtain ⟨clean, handle⟩ := here
  have ok := inv.recordings k r found
  have countable : (openHeader r id now).encode.length < 2 ^ 32 := by
    have := limits.storage
    unfold openingBytes at fits
    omega
  refine ⟨parts, inv.progress (n := { r with index := r.index + 1, audioMicroseconds := 0, file := some id }) jobs rfl
    found ?_, files ▸ Moves.same _ _⟩
  refine ⟨recordings, rfl, rfl, fun id h => issued ▸ List.mem_append_left _ h, fun id _ => by rw [persisted], ?_,
    files ▸ inv.files, files ▸ Frame.same _ _ _, files ▸ Moves.same _ _, ?_, .inl ⟨sameJobs, by rw [next]; simp, ?_⟩,
    recovery, drain⟩
  · rw [issued, persisted, begun]
    exact inv.ledger.issue id
  · rw [persisted, issued]
    have updated := ok.update (n := { r with index := r.index + 1, audioMicroseconds := 0, file := some id }) rfl rfl
      rfl (Nat.le_succ _) rfl
    exact { updated with known := List.mem_append_left _ updated.known }
  · rw [next, files, issued]
    refine ⟨clean, handle, rfl, rfl, fun q hq same => new ?_, by simp [openHeader], rfl, rfl, ok.index,
      Nat.lt_succ_self _, openHeader_ok inv found countable⟩
    have : q.id = id := same
    exact this ▸ (inv.ledger.known q hq).1

theorem create_step (inv : Inv limits parts p) (jobs : p.jobs = .add k payload duration now :: rest)
    (found : p.recordings[k]? = some r) {header : Header} {preroll : List Packet}
    (stage : p.stage = .create header preroll) :
    Step limits (fun _ => False) parts p
      { p with files := p.files ++ [⟨header.id, false, []⟩], stage := .handle header preroll } := by
  have here := inv.at_stage jobs rfl found
  rw [stage] at here
  obtain ⟨clean, handle, isFile, silent, new⟩ := here
  have ok := inv.recordings k r found
  have mine : Part.recordingId ⟨header, preroll, [], none⟩ = r.recordingId := new.mine
  have absent : ∀ f ∈ p.files, f.id ≠ header.id := by
    intro f hf same
    obtain ⟨q, hq, qid, -⟩ := inv.files.held f hf
    exact new.new q hq (qid.trans same)
  have moves : Moves (fun _ => False) parts p.files (parts ++ [⟨header, preroll, [], none⟩])
      (p.files ++ [⟨header.id, false, []⟩]) := by
    refine ⟨fun q hq _ => List.mem_append_left _ hq, fun q hq => ?_, fun f hf => ?_⟩
    · rcases List.mem_append.mp hq with old | last
      · by_cases there : ∃ f ∈ p.files, f.id = q.id
        · obtain ⟨f, hf, same⟩ := there
          exact .inl ⟨f, List.mem_append_left _ hf, same⟩
        · exact .inr (.inr ⟨⟨q, old, rfl⟩, fun f hf same => there ⟨f, hf, same⟩⟩)
      · rw [List.mem_singleton.mp last]
        exact .inl ⟨⟨header.id, false, []⟩, by simp, rfl⟩
    · rcases List.mem_append.mp hf with old | last
      · exact .inl old
      · rw [List.mem_singleton.mp last]
        exact .inr fun q hq same => absurd same (new.new q hq)
  refine ⟨parts ++ [⟨header, preroll, [], none⟩], inv.progress (n := r) jobs rfl found ?_, moves⟩
  refine ⟨(set_self found).symm, rfl, rfl, fun _ h => h, fun _ _ => rfl, ?_, ⟨?_, ?_⟩, ⟨?_, ?_⟩, moves, ?_,
    .inl ⟨rfl, by simp, ?_⟩, rfl, rfl⟩
  · refine inv.ledger.snoc rfl (fun q hq => new.new q hq) ⟨new.known, mine ▸ ok.known⟩ (fun q hq same => ?_) (mine ▸ new.ok)
    exact ⟨new.above q hq (same.trans mine), clean q hq (same.trans mine)⟩
  · rw [List.map_append, List.nodup_append]
    refine ⟨inv.files.ids, List.nodup_singleton _, fun a ha b hb same => ?_⟩
    obtain ⟨f, hf, rfl⟩ := List.mem_map.mp ha
    exact absent f hf (same.trans (List.mem_singleton.mp hb))
  · intro f hf
    rcases List.mem_append.mp hf with old | last
    · obtain ⟨q, hq, rest⟩ := inv.files.held f old
      exact ⟨q, List.mem_append_left _ hq, rest⟩
    · rw [List.mem_singleton.mp last]
      exact ⟨⟨header, preroll, [], none⟩, by simp, rfl, fun _ => .inl ⟨rfl, List.nil_prefix⟩, fun h => (by cases h)⟩
  · intro q other
    rw [List.mem_append, List.mem_singleton]
    exact ⟨fun h => h.resolve_right fun e => other (e ▸ mine), .inl⟩
  · exact fun f hf _ _ => List.mem_append_left _ hf
  · refine ⟨ok.known, ok.format, fun q hq same => ?_, fun q hq same => ?_, ok.pcm, ok.opus⟩
    · rcases List.mem_append.mp hq with old | last
      · exact ok.index q old same
      · rw [List.mem_singleton.mp last]
        exact new.below
    · rcases List.mem_append.mp hq with old | last
      · exact ok.codec q old same
      · rw [List.mem_singleton.mp last]
        exact new.codec
  · refine ⟨fun q hq same => ?_, isFile, silent, ⟨by simp, mine, fun q hq same => ?_⟩, by simp⟩
    · rcases List.mem_append.mp hq with old | last
      · exact clean q old same
      · rw [List.mem_singleton.mp last]
    · rcases List.mem_append.mp hq with old | last
      · exact (new.above q old same).le
      · rw [List.mem_singleton.mp last]

theorem handle_step (inv : Inv limits parts p) (jobs : p.jobs = .add k payload duration now :: rest)
    (found : p.recordings[k]? = some r) {header : Header} {preroll : List Packet}
    (stage : p.stage = .handle header preroll) :
    Step limits (fun _ => False) parts p { setRecording p k { r with handle := some header.id } with
      stage := .opening header preroll (opening header preroll) } := by
  have here := inv.at_stage jobs rfl found
  rw [stage] at here
  obtain ⟨clean, isFile, silent, current, there⟩ := here
  exact inv.local (n := { r with handle := some header.id }) jobs rfl found rfl rfl rfl rfl rfl rfl rfl rfl rfl
    ((inv.recordings k r found).update rfl rfl rfl le_rfl rfl)
    (.inl ⟨rfl, by simp, clean, rfl, isFile, silent,
      ⟨current.member, current.mine, current.last⟩, [], rfl, there⟩)

/-- A byte goes to the file of a part and the file stays a state of that part. -/
theorem append_step (inv : Inv limits parts p) (jobs : p.jobs = .add k payload duration now :: rest)
    (found : p.recordings[k]? = some r) {part : Part} (current : Current parts r part) {content bytes : Bytes}
    (there : ⟨part.id, false, content⟩ ∈ p.files) (still : Content part (content ++ bytes)) {stage : Stage}
    (busy : stage ≠ .start)
    (next : AtStage limits parts (appendFile p.files part.id bytes) p.issued r (.add k payload duration now) stage) :
    Step limits (fun _ => False) parts p
      { p with files := appendFile p.files part.id bytes, stage := stage } := by
  have moves : Moves (fun _ => False) parts p.files parts (appendFile p.files part.id bytes) :=
    Moves.change (fun _ => rfl) there rfl rfl (fun _ h _ => h) (fun q h => ⟨q, h, rfl⟩)
  refine ⟨parts, inv.progress (n := r) jobs rfl found ?_, moves⟩
  refine ⟨(set_self found).symm, rfl, rfl, fun _ h => h, fun _ _ => rfl, inv.ledger, ?_, ?_, moves,
    inv.recordings k r found, .inl ⟨rfl, busy, next⟩, rfl, rfl⟩
  · refine inv.files.change (fun _ => rfl) (fun _ h _ => h) fun f hf same => ?_
    obtain rfl := eq_of_file_id inv.files.ids hf there same
    exact ⟨part, current.member, rfl, fun _ => still, fun h => (by cases h)⟩
  · exact Frame.change inv.ledger.ids current.member rfl current.mine fun _ _ => Iff.rfl

theorem mem_appendFile {files : List PartFile} {id : Uuid} {content : Bytes} (there : ⟨id, false, content⟩ ∈ files)
    (bytes : Bytes) : ⟨id, false, content ++ bytes⟩ ∈ appendFile files id bytes :=
  mem_changeFile_of_mem there rfl

theorem opening_step (inv : Inv limits parts p) (jobs : p.jobs = .add k payload duration now :: rest)
    (found : p.recordings[k]? = some r) {header : Header} {preroll : List Packet} {b : UInt8} {left : Bytes}
    (stage : p.stage = .opening header preroll (b :: left)) :
    Step limits (fun _ => False) parts p
      { p with files := appendFile p.files header.id [b], stage := .opening header preroll left } := by
  have here := inv.at_stage jobs rfl found
  rw [stage] at here
  obtain ⟨clean, handle, isFile, silent, current, done, all, there⟩ := here
  have grown : (done ++ [b]) ++ left = opening header preroll := by rw [List.append_assoc]; exact all
  refine append_step inv jobs found current there (.inl ⟨rfl, ⟨left, grown⟩⟩) (by simp) ?_
  exact ⟨clean, handle, isFile, silent, current, done ++ [b], grown, mem_appendFile there [b]⟩

theorem length_opening (header : Header) (preroll : List Packet) :
    (opening header preroll).length = openingBytes header preroll := by
  have records : (encodeAll be32 preroll).length = (preroll.map fun packet => 4 + packet.length).sum := by
    induction preroll with
    | nil => rfl
    | cons packet preroll ih =>
        rw [encodeAll_cons, List.length_append, ih, length_record, List.map_cons, List.sum_cons]
        rfl
  rw [opening, List.length_append, records, length_envelope]
  rfl

theorem opened_step (inv : Inv limits parts p) (jobs : p.jobs = .add k payload duration now :: rest)
    (found : p.recordings[k]? = some r) {header : Header} {preroll : List Packet}
    (stage : p.stage = .opening header preroll []) {pendingBytes pendingParts : Nat} :
    Step limits (fun _ => False) parts p
      { setRecording p k { r with bytes := openingBytes header preroll, packetCount := preroll.length } with
        pendingBytes := pendingBytes, pendingParts := pendingParts, stage := .quota } := by
  have here := inv.at_stage jobs rfl found
  rw [stage] at here
  obtain ⟨clean, handle, isFile, silent, current, done, all, there⟩ := here
  obtain ⟨r0, found0, small, timed⟩ := inv.jobs _ (by rw [jobs]; exact List.mem_cons_self) k payload duration now rfl
  rw [found] at found0
  cases found0
  obtain ⟨before, partOk⟩ := inv.ledger.part_ok current.member
  have written : Part.written ⟨header, preroll, [], none⟩ = opening header preroll := List.append_nil _
  rw [List.append_nil] at all
  refine inv.local (n := { r with bytes := openingBytes header preroll, packetCount := preroll.length }) jobs rfl found
    rfl rfl rfl rfl rfl rfl rfl rfl rfl ((inv.recordings k r found).update rfl rfl rfl le_rfl rfl)
    (.inl ⟨rfl, by simp, clean, ⟨header, preroll, [], none⟩, payload,
      ⟨⟨current.member, current.mine, current.last⟩, ?_, ?_, rfl, ?_⟩, rfl, handle, isFile, small, ⟨duration, timed⟩, ?_,
      .inr rfl, .inr rfl⟩)
  · rw [written, ← all]
    exact there
  · rw [written, length_opening]
  · exact silent
  · have := partOk.few
    simp only [List.length_nil, maxPartPackets] at *
    omega

/-! ## Writing a packet -/

/-- One part takes the place of another one with the same header. -/
structure Replaced (parts : List Part) (part : Part) (parts' : List Part) (part' : Part) : Prop where
  header : part'.header = part.header
  member : part' ∈ parts'
  forward : ∀ q ∈ parts, q.id ≠ part.id → q ∈ parts'
  back : ∀ q ∈ parts', q = part' ∨ q ∈ parts ∧ q.id ≠ part.id

theorem replaced {front back : List Part} {part : Part} (part' : Part)
    (ids : ((front ++ part :: back).map Part.id).Nodup) (header : part'.header = part.header) :
    Replaced (front ++ part :: back) part (front ++ part' :: back) part' := by
  refine ⟨header, by simp, fun q hq other => ?_, fun q hq => ?_⟩
  · rcases List.mem_append.mp hq with h | h
    · exact List.mem_append_left _ h
    · rcases List.mem_cons.mp h with rfl | h
      · exact absurd rfl other
      · simp [h]
  · rw [List.map_append, List.map_cons, List.nodup_append, List.nodup_cons] at ids
    rcases List.mem_append.mp hq with h | h
    · refine .inr ⟨List.mem_append_left _ h, fun same => ?_⟩
      exact ids.2.2 q.id (List.mem_map_of_mem h) part.id List.mem_cons_self same
    · rcases List.mem_cons.mp h with rfl | h
      · exact .inl rfl
      · refine .inr ⟨by simp [h], fun same => ids.2.1.1 ?_⟩
        exact same ▸ List.mem_map_of_mem h

section Replace

variable {parts' : List Part} {part part' : Part} {files : List PartFile}

theorem Replaced.recordingId (replace : Replaced parts part parts' part') :
    part'.recordingId = part.recordingId := congrArg Header.recordingId replace.header

theorem Replaced.id (replace : Replaced parts part parts' part') : part'.id = part.id :=
  congrArg Header.id replace.header

theorem Replaced.headers (replace : Replaced parts part parts' part') (member : part ∈ parts) :
    ∀ q ∈ parts', ∃ q' ∈ parts, q'.header = q.header := by
  intro q hq
  rcases replace.back q hq with rfl | ⟨old, -⟩
  · exact ⟨part, member, replace.header.symm⟩
  · exact ⟨q, old, rfl⟩

theorem changeFile_self (files : List PartFile) (id : Uuid) : changeFile files id (fun f => f) = files := by
  simp [changeFile]

theorem Replaced.moves (replace : Replaced parts part parts' part') (member : part ∈ parts) {content : Bytes}
    (there : ⟨part.id, false, content⟩ ∈ files) : Moves (fun _ => False) parts files parts' files := by
  have moved : Moves (fun _ => False) parts files parts' (changeFile files part.id fun f => f) := by
    apply Moves.change (fun _ => rfl) there rfl rfl replace.forward
    intro q hq
    obtain ⟨q', hq', same⟩ := replace.headers member q hq
    exact ⟨q', hq', congrArg Header.id same⟩
  rwa [changeFile_self] at moved

theorem Replaced.frame (replace : Replaced parts part parts' part') (ids : (parts.map Part.id).Nodup)
    (member : part ∈ parts) {recordingId : Uuid} (mine : part.recordingId = recordingId) :
    Frame recordingId parts files parts' files := by
  refine ⟨fun q other => ⟨fun hq => ?_, fun hq => replace.forward q hq fun same => other ?_⟩, fun f hf _ _ => hf⟩
  · rcases replace.back q hq with rfl | ⟨old, -⟩
    · exact absurd (replace.recordingId.trans mine) other
    · exact old
  · rw [List.inj_on_of_nodup_map ids hq member same]
    exact mine

theorem Replaced.filesOk (replace : Replaced parts part parts' part') (ok : FilesOk parts files) {content : Bytes}
    (there : ⟨part.id, false, content⟩ ∈ files) (still : Content part' content) : FilesOk parts' files := by
  have changed : FilesOk parts' (changeFile files part.id fun f => f) := by
    apply ok.change (fun _ => rfl) replace.forward
    intro f hf same
    obtain rfl := eq_of_file_id ok.ids hf there same
    exact ⟨part', replace.member, replace.id, fun _ => still, fun h => (by cases h)⟩
  rwa [changeFile_self] at changed

theorem Replaced.current (replace : Replaced parts part parts' part') (current : Current parts r part) :
    Current parts' r part' := by
  refine ⟨replace.member, replace.recordingId.trans current.mine, fun q hq mine => ?_⟩
  obtain ⟨q', hq', same⟩ := replace.headers current.member q hq
  rw [replace.header, ← same]
  exact current.last q' hq' ((congrArg Header.recordingId same).trans mine)

theorem Replaced.recordingOk (replace : Replaced parts part parts' part') (member : part ∈ parts) {issued : List Uuid}
    {persisted : List (Uuid × Packet)} (ok : RecordingOk parts issued persisted r) :
    RecordingOk parts' issued persisted r := by
  refine ⟨ok.known, ok.format, fun q hq mine => ?_, fun q hq mine => ?_, ok.pcm, ok.opus⟩
  · obtain ⟨q', hq', same⟩ := replace.headers member q hq
    rw [← same]
    exact ok.index q' hq' ((congrArg Header.recordingId same).trans mine)
  · obtain ⟨q', hq', same⟩ := replace.headers member q hq
    rw [← same]
    exact ok.codec q' hq' ((congrArg Header.recordingId same).trans mine)

end Replace

theorem PartOk.same_begun {before : List Packet} {part part' : Part} (ok : PartOk limits before part)
    (header : part'.header = part.header) (preroll : part'.preroll = part.preroll) (begun : part'.begun = part.begun) :
    PartOk limits before part' := by
  obtain ⟨version, format, countable, count, few, packets, durations, room, size, length, context⟩ := ok
  constructor <;> simp only [header, preroll, begun] <;> assumption

/-- A packet that fits keeps the limits of its part. -/
theorem Room.part_ok {before : List Packet} {part : Part} (room : Room limits r part payload)
    (ok : PartOk limits before part) (clean : part.extra = none) (codec : part.header.codec = r.codec) :
    PartOk limits before { part with extra := some payload } := by
  have begun : part.begun = part.fresh := by simp [Part.begun, clean]
  have begun' : Part.begun { part with extra := some payload } = part.fresh ++ [payload] := rfl
  refine ⟨ok.version, ok.format, ok.countable, ok.count, ok.few, ?_, ?_, ?_, ?_, ?_, ok.context⟩
  · intro packet member
    rw [begun', ← List.append_assoc] at member
    rcases List.mem_append.mp member with old | last
    · exact ok.packets packet (by rw [begun]; exact old)
    · rw [List.mem_singleton.mp last]
      exact room.small
  · intro packet member
    rw [begun'] at member
    rcases List.mem_append.mp member with old | last
    · exact ok.durations packet (by rw [begun]; exact old)
    · rw [List.mem_singleton.mp last]
      dsimp only
      rw [codec]
      exact room.duration
  · rw [begun', List.length_append, List.length_singleton]
    exact room.room
  · rw [begun']
    refine room.size.imp (fun small => ?_) fun none => by simp [none]
    rw [encodeAll_append, ← List.append_assoc, List.length_append, encodeAll_cons, encodeAll_nil, List.append_nil,
      length_record]
    have : be32.width = 4 := rfl
    unfold Part.written at small
    dsimp only
    omega
  · rw [begun']
    refine room.length.imp (fun short => ?_) fun none => by simp [none]
    rw [audio_append, codec]
    exact short

theorem quota_step (inv : Inv limits parts p) (jobs : p.jobs = .add k payload duration now :: rest)
    (found : p.recordings[k]? = some r) (stage : p.stage = .quota) :
    Step limits (fun _ => False) parts p
      { p with begun := p.begun ++ [(r.recordingId, payload)], stage := .writing (record be32 payload) } := by
  have here := inv.at_stage jobs rfl found
  rw [stage] at here
  obtain ⟨clean, part, payload', opened, isPayload, handle, isFile, room⟩ := here
  cases isPayload
  have rok := inv.recordings k r found
  have none := clean part opened.member opened.mine
  obtain ⟨front, back, split, last⟩ := inv.ledger.split opened.member fun q hq mine =>
    opened.last q hq (mine.trans opened.mine)
  have ledger := inv.ledger
  rw [split] at ledger
  have partOk := ledger.ok front part ⟨back, by simp⟩
  have replace := replaced { part with extra := some payload } ledger.ids rfl
  rw [← split] at replace
  have next := ledger.replace { part with extra := some payload } [] [payload] last
    rfl (by simp) (by simp [Part.begun, none]) (room.part_ok partOk none (rok.codec part opened.member opened.mine))
  rw [opened.mine, List.map_nil, List.append_nil] at next
  have moves := replace.moves opened.member opened.file
  refine ⟨_, inv.progress (n := r) jobs rfl found ?_, moves⟩
  refine ⟨(set_self found).symm, rfl, rfl, fun _ h => h, fun _ _ => rfl, next, ?_,
    replace.frame inv.ledger.ids opened.member opened.mine, moves, replace.recordingOk opened.member rok,
    .inl ⟨rfl, by simp, ?_⟩, rfl, rfl⟩
  · exact replace.filesOk inv.files opened.file (.inr ⟨[], (List.append_nil _).symm, List.nil_prefix⟩)
  · refine ⟨{ part with extra := some payload }, payload, replace.current opened.toCurrent, rfl, rfl, fun q hq mine ne => ?_,
      handle, isFile, opened.bytes, opened.count, opened.audio, [], rfl, ?_⟩
    · rcases replace.back q hq with same | ⟨old, -⟩
      · exact absurd same ne
      · exact clean q old mine
    · rw [List.append_nil]
      exact opened.file

theorem writing_step (inv : Inv limits parts p) (jobs : p.jobs = .add k payload duration now :: rest)
    (found : p.recordings[k]? = some r) {b : UInt8} {left : Bytes} (stage : p.stage = .writing (b :: left)) {id : Uuid}
    (isHandle : r.handle = some id) : Step limits (fun _ => False) parts p
      { p with files := appendFile p.files id [b], stage := .writing left } := by
  have here := inv.at_stage jobs rfl found
  rw [stage] at here
  obtain ⟨part, payload', current, isPayload, extra, others, handle, isFile, bytes, count, audio, done, all, there⟩ := here
  cases isPayload
  obtain rfl : part.id = id := Option.some.inj (handle.symm.trans isHandle)
  have grown : (done ++ [b]) ++ left = record be32 payload := by rw [List.append_assoc]; exact all
  refine append_step inv jobs found current there (.inr ⟨done ++ [b], by rw [List.append_assoc], ?_⟩) (by simp) ?_
  · rw [extra, Option.toList_some, encodeAll_cons, encodeAll_nil, List.append_nil]
    exact ⟨left, grown⟩
  · refine ⟨part, payload, current, rfl, extra, others, handle, isFile, bytes, count, audio, done ++ [b], grown, ?_⟩
    rw [← List.append_assoc]
    exact mem_appendFile there [b]

/-- The packet is flushed: it belongs to the persisted ones, whether or not its callback then throws. -/
theorem written_step (inv : Inv limits parts p) (jobs : p.jobs = .add k payload duration now :: rest)
    (found : p.recordings[k]? = some r) (stage : p.stage = .writing []) {preroll : LocalOpusPreroll}
    {failed : Bool}
    (remembered : (if r.codec = .pcm16 then .ok r.preroll else r.preroll.remember payload duration) =
      Except.ok (ε := String) preroll)
    (nIs : n = { countPacket r payload duration with preroll := preroll, writeFailed := failed })
    (recordings : p'.recordings = p.recordings.set k n) (files : p'.files = p.files) (issued : p'.issued = p.issued)
    (persisted : p'.persisted = p.persisted ++ [(r.recordingId, payload)]) (begun : p'.begun = p.begun)
    (recovery : p'.recovery = p.recovery) (drain : p'.drain = p.drain) (done : p'.jobs = rest)
    (start : p'.stage = .start) : Step limits (fun _ => False) parts p p' := by
  have here := inv.at_stage jobs rfl found
  rw [stage] at here
  obtain ⟨part, payload', current, isPayload, extra, others, handle, isFile, bytes, count, audioIs, written, all, there⟩ := here
  cases isPayload
  rw [List.append_nil] at all
  obtain ⟨r0, found0, small, timedIs⟩ := inv.jobs _ (by rw [jobs]; exact List.mem_cons_self) k payload duration now rfl
  rw [found] at found0
  cases found0
  have rok := inv.recordings k r found
  obtain ⟨front, back, split, last⟩ := inv.ledger.split current.member fun q hq mine =>
    current.last q hq (mine.trans current.mine)
  have ledger := inv.ledger
  rw [split] at ledger
  have partOk := ledger.ok front part ⟨back, by simp⟩
  have begunIs : part.begun = part.fresh ++ [payload] := by rw [Part.begun, extra]; rfl
  have begunIs' : Part.begun { part with fresh := part.fresh ++ [payload], extra := none } = part.begun := by
    rw [begunIs]
    simp [Part.begun]
  have replace := replaced { part with fresh := part.fresh ++ [payload], extra := none } ledger.ids rfl
  rw [← split] at replace
  have next := ledger.replace { part with fresh := part.fresh ++ [payload], extra := none }
    [payload] [] last rfl rfl (by rw [begunIs', List.append_nil])
    (partOk.same_begun rfl rfl begunIs')
  rw [current.mine, List.map_nil, List.append_nil] at next
  have moves := replace.moves current.member there
  have whole : Part.written { part with fresh := part.fresh ++ [payload], extra := none } = part.written ++ written := by
    simp only [Part.written]
    rw [encodeAll_append, encodeAll_cons, encodeAll_nil, List.append_nil, all, List.append_assoc]
  have rid : n.recordingId = r.recordingId := by rw [nIs]; rfl
  have codec : n.codec = r.codec := by rw [nIs]; rfl
  have index : n.index = r.index := by rw [nIs]; rfl
  have source : n.source = r.source := by rw [nIs]; rfl
  have prerollIs : n.preroll = preroll := by rw [nIs]
  refine ⟨_, inv.progress (n := n) jobs rfl found ?_, by rw [files]; exact moves⟩
  refine ⟨recordings, rid, codec, fun _ h => issued ▸ h, fun id other => ?_, by rw [issued, persisted, begun]; exact next,
    ?_, by rw [files]; exact replace.frame inv.ledger.ids current.member current.mine, by rw [files]; exact moves, ?_,
    .inr ⟨done, start, .inr ⟨fun q hq mine => ?_, .inr ?_⟩⟩, recovery, drain⟩
  · rw [persisted, logOf_append]
    have : logOf [(r.recordingId, payload)] id = [] := by simp [logOf, Ne.symm other]
    rw [this, List.append_nil]
  · rw [files]
    exact replace.filesOk inv.files there (.inr ⟨[], by rw [whole, List.append_nil], List.nil_prefix⟩)
  · have same := replace.recordingOk current.member rok
    rw [issued, persisted]
    refine ⟨rid ▸ same.known, by rw [source, codec]; exact same.format, fun q hq mine => ?_, fun q hq mine => ?_, fun pcm => ?_,
      fun opus => ?_⟩
    · rw [index]
      exact same.index q hq (mine.trans rid)
    · rw [codec]
      exact same.codec q hq (mine.trans rid)
    · rw [codec] at pcm
      rw [if_pos pcm] at remembered
      rw [prerollIs, ← Except.ok.inj remembered]
      exact rok.pcm pcm
    · rw [codec] at opus
      rw [if_neg opus] at remembered
      have log : logOf (p.persisted ++ [(r.recordingId, payload)]) n.recordingId =
          logOf p.persisted r.recordingId ++ [payload] := by
        rw [rid, logOf_append]
        simp [logOf]
      rw [log, codec]
      have holds := LocalOpusPreroll.remember_holds (rok.opus opus) remembered
      rw [prerollIs, timed, List.map_append, List.map_singleton, microseconds_ok timedIs]
      exact holds
  · rw [rid] at mine
    rcases replace.back q hq with rfl | ⟨old, ne⟩
    · rfl
    · exact others q old mine fun same => ne (same ▸ rfl)
  · have current' := replace.current current
    refine ⟨{ part with fresh := part.fresh ++ [payload], extra := none },
      ⟨⟨current'.member, current'.mine.trans rid.symm, fun q hq mine => current'.last q hq (mine.trans rid)⟩,
        ?_, ?_, ?_, ?_⟩, by simp, ?_, ?_⟩
    · rw [whole, files]
      exact there
    · have bytes' : n.bytes = r.bytes + payload.length + 4 := by rw [nIs]; rfl
      rw [bytes', whole, List.length_append, all, length_record, bytes]
      have : be32.width = 4 := rfl
      omega
    · have count' : n.packetCount = r.packetCount + 1 := by rw [nIs]; rfl
      rw [count', count, List.length_append, List.length_singleton]
      rfl
    · have audio' : n.audioMicroseconds = r.audioMicroseconds + duration := by rw [nIs]; rfl
      rw [audio', audioIs, codec, audio_append, microseconds_ok timedIs]
    · rw [nIs]
      exact handle
    · rw [nIs]
      exact isFile

/-! ## Whole jobs -/

theorem close_step (inv : Inv limits parts p) (jobs : p.jobs = job :: rest) (on : job.recording = some k)
    (found : p.recordings[k]? = some r) (stage : p.stage = .close) :
    Step limits (fun _ => False) parts p { setRecording p k { r with handle := none } with stage := .rename } := by
  have here := inv.at_stage jobs on found
  rw [stage] at here
  obtain ⟨clean, part, opened, some, -, isFile⟩ := here
  exact inv.local (n := { r with handle := none }) jobs on found rfl rfl rfl rfl rfl rfl rfl rfl rfl
    ((inv.recordings k r found).update rfl rfl rfl le_rfl rfl)
    (.inl ⟨rfl, by simp, clean, rfl, part,
      ⟨⟨opened.member, opened.mine, opened.last⟩, opened.file, opened.bytes, opened.count, opened.audio⟩, some, isFile⟩)

theorem workAdd_step {io : WorkIo} (inv : Inv limits parts p) (jobs : p.jobs = .add k payload duration now :: rest)
    (found : p.recordings[k]? = some r) (worked : workAdd limits io p k r payload duration now = some p') :
    Step limits (fun _ => False) parts p p' := by
  have failed := failAdd_step inv jobs found
  have tail : p.jobs.tail = rest := by rw [jobs]; rfl
  have here := inv.at_stage jobs rfl found
  unfold workAdd at worked
  dsimp only at worked
  cases stage : p.stage with
  | start =>
      rw [stage] at worked
      have := start_step inv jobs found stage
      dsimp only at worked
      split at worked
      · cases worked
        exact failed
      · rename_i working
        rw [if_neg working] at this
        split at worked <;> rename_i h <;> [rw [if_pos h] at this; rw [if_neg h] at this]
        · cases worked
          exact this
        · split at worked <;> rename_i h <;> [rw [if_pos h] at this; rw [if_neg h] at this] <;> cases worked <;> exact this
  | flush =>
      rw [stage] at worked here
      dsimp only at worked
      split at worked <;> cases worked
      · exact failed
      · exact stage_step inv jobs rfl found (by simp) here
  | close =>
      rw [stage] at worked
      dsimp only at worked
      split at worked <;> cases worked
      · exact failed
      · exact close_step inv jobs rfl found stage
  | rename =>
      rw [stage] at worked
      dsimp only at worked
      split at worked
      · cases worked
        exact failed
      · rename_i isFile
        split at worked <;> cases worked
        · exact failed
        · exact rename_step inv jobs rfl found stage isFile rfl rfl rfl rfl rfl rfl rfl (.inl ⟨rfl, rfl⟩)
  | fresh =>
      rw [stage] at worked here
      dsimp only at worked
      split at worked
      · cases worked
      · rename_i new
        split at worked
        · cases worked
          refine ⟨parts, inv.progress (n := { r with index := r.index + 1, audioMicroseconds := 0, writeFailed := true })
            jobs rfl found ?_, Moves.same _ _⟩
          have updated := (inv.recordings k r found).update
            (n := { r with index := r.index + 1, audioMicroseconds := 0, writeFailed := true }) rfl rfl rfl
            (Nat.le_succ _) rfl
          exact ⟨rfl, rfl, rfl, fun _ h => List.mem_append_left _ h, fun _ _ => rfl, inv.ledger.issue io.id, inv.files,
            Frame.same _ _ _, Moves.same _ _, { updated with known := List.mem_append_left _ updated.known },
            .inr ⟨tail, rfl, .inl rfl⟩, rfl, rfl⟩
        · rename_i fits
          cases worked
          exact fresh_step inv jobs found stage new (not_lt.mp fits) rfl rfl rfl rfl rfl rfl rfl rfl rfl
  | create header preroll =>
      rw [stage] at worked
      dsimp only at worked
      split at worked <;> cases worked
      · exact failed
      · exact create_step inv jobs found stage
  | handle header preroll =>
      rw [stage] at worked
      dsimp only at worked
      split at worked <;> cases worked
      · exact failed
      · exact handle_step inv jobs found stage
  | opening header preroll left =>
      rw [stage] at worked
      cases left with
      | nil =>
          dsimp only at worked
          split at worked <;> cases worked
          · exact failed
          · exact opened_step inv jobs found stage
      | cons b left =>
          dsimp only at worked
          split at worked <;> cases worked
          · exact failed
          · exact opening_step inv jobs found stage
  | quota =>
      rw [stage] at worked
      dsimp only at worked
      split at worked <;> cases worked
      · exact failed
      · exact quota_step inv jobs found stage
  | writing left =>
      rw [stage] at worked
      cases left with
      | cons b left =>
          dsimp only at worked
          split at worked
          · cases worked
            exact failed
          · rename_i isHandle
            split at worked <;> cases worked
            · exact failed
            · exact writing_step inv jobs found stage isHandle
      | nil =>
          dsimp only at worked
          split at worked
          · cases worked
            exact failed
          · split at worked
            · cases worked
              exact inv.local (n := { countPacket r payload duration with writeFailed := true }) jobs rfl found rfl rfl rfl
                rfl rfl rfl rfl rfl rfl ((inv.recordings k r found).update rfl rfl rfl le_rfl rfl)
                (.inr ⟨tail, rfl, .inl rfl⟩)
            · rename_i preroll remembered
              split at worked <;> cases worked
              · exact written_step inv jobs found stage remembered rfl rfl rfl rfl rfl rfl rfl rfl tail rfl
              · exact written_step inv jobs found stage remembered rfl rfl rfl rfl rfl rfl rfl rfl
                  tail rfl

theorem workSeal_step {io : WorkIo} {failed : Phone} (inv : Inv limits parts p) (jobs : p.jobs = job :: rest)
    (on : job.recording = some k) (found : p.recordings[k]? = some r)
    (fails : Step limits (fun _ => False) parts p failed) (worked : workSeal io p k r failed = some p') :
    Step limits (fun _ => False) parts p p' := by
  have here := inv.at_stage jobs on found
  unfold workSeal at worked
  split at worked
  · rename_i stage
    rw [stage] at here
    split at worked <;> cases worked
    · exact fails
    · exact stage_step inv jobs on found (by simp) here
  · rename_i stage
    split at worked <;> cases worked
    · exact fails
    · exact close_step inv jobs on found stage
  · rename_i stage
    split at worked
    · cases worked
      exact fails
    · rename_i isFile
      split at worked <;> cases worked
      · exact fails
      · refine rename_step inv jobs on found stage isFile rfl rfl rfl rfl rfl rfl rfl (.inr ⟨?_, rfl⟩)
        change p.jobs.tail = rest
        rw [jobs]
        rfl
  · cases worked

/-- A job that ends with its recording as it stands between two jobs. -/
theorem finish_step (inv : Inv limits parts p) (jobs : p.jobs = job :: rest) (on : job.recording = some k)
    (found : p.recordings[k]? = some r) (recordingId : n.recordingId = r.recordingId) (source : n.source = r.source)
    (codec : n.codec = r.codec) (index : n.index = r.index) (preroll : n.preroll = r.preroll)
    (idle : Idle parts p.files n) :
    Step limits (fun _ => False) parts p (finishJob (setRecording p k n)) := by
  refine inv.local (n := n) jobs on found rfl recordingId codec rfl rfl rfl rfl rfl rfl
    ((inv.recordings k r found).update recordingId source codec index.ge preroll) (.inr ⟨?_, rfl, idle⟩)
  change p.jobs.tail = rest
  rw [jobs]
  rfl

theorem finishJob_self (found : p.recordings[k]? = some r) : finishJob (setRecording p k r) = finishJob p := by
  unfold setRecording
  rw [set_self found]

/-- Whatever stage `_seal` fails at, `stop` leaves an idle recording. -/
theorem idle_of_stage (here : AtStage limits parts p.files p.issued r job p.stage)
    (stage : p.stage = .flush ∨ p.stage = .close ∨ p.stage = .rename) : Idle parts p.files r := by
  rcases stage with stage | stage | stage <;> rw [stage] at here
  · obtain ⟨clean, part, opened, some, isHandle, isFile⟩ := here
    exact .inr ⟨clean, .inr ⟨part, opened, some, isHandle, isFile⟩⟩
  · obtain ⟨clean, part, opened, some, isHandle, isFile⟩ := here
    exact .inr ⟨clean, .inr ⟨part, opened, some, isHandle, isFile⟩⟩
  · exact .inr ⟨here.1, .inl here.2.1⟩

theorem workSeal_stage {io : WorkIo} {failed : Phone} (worked : workSeal io p k r failed = some p') :
    p.stage = .flush ∨ p.stage = .close ∨ p.stage = .rename := by
  unfold workSeal at worked
  split at worked
  · rename_i stage
    exact .inl stage
  · rename_i stage
    exact .inr (.inl stage)
  · rename_i stage
    exact .inr (.inr stage)
  · cases worked

theorem workCheckpoint_step {io : WorkIo} (inv : Inv limits parts p) (jobs : p.jobs = .checkpoint k :: rest)
    (found : p.recordings[k]? = some r) (worked : workCheckpoint io p k r = some p') :
    Step limits (fun _ => False) parts p p' := by
  have here := inv.at_stage jobs rfl found
  unfold workCheckpoint at worked
  split at worked
  · rename_i stage
    rw [stage] at here
    split at worked <;> cases worked
    · rw [← finishJob_self found]
      exact finish_step inv jobs rfl found rfl rfl rfl rfl rfl here
    · rename_i working
      simp only [not_or] at working
      obtain ⟨clean, handle⟩ := Or.resolve_left here working.2.1
      refine stage_step inv jobs rfl found (by simp) ⟨clean, handle.resolve_left fun none => working.2.2 ?_⟩
      rw [none]
      rfl
  · exact workSeal_step inv jobs rfl found
      (finish_step (n := { r with writeFailed := true }) inv jobs rfl found rfl rfl rfl rfl rfl (.inl rfl)) worked

theorem workStop_step {io : WorkIo} (inv : Inv limits parts p) (jobs : p.jobs = .stop k :: rest)
    (found : p.recordings[k]? = some r) (worked : workStop io p k r = some p') :
    Step limits (fun _ => False) parts p p' := by
  have here := inv.at_stage jobs rfl found
  have unchanged : ∀ (idle : Idle parts p.files r), Step limits (fun _ => False) parts p (finishJob p) := by
    intro idle
    rw [← finishJob_self found]
    exact finish_step inv jobs rfl found rfl rfl rfl rfl rfl idle
  unfold workStop at worked
  split at worked
  · rename_i stage
    rw [stage] at here
    split at worked
    · cases worked
      exact unchanged here
    · rename_i held
      split at worked <;> cases worked
      · rename_i failed
        split
        · exact unchanged here
        · exact finish_step inv jobs rfl found rfl rfl rfl rfl rfl (.inl failed)
      · rename_i working
        obtain ⟨clean, handle⟩ := Or.resolve_left here working
        refine stage_step inv jobs rfl found (by simp) ⟨clean, handle.resolve_left fun none => held ?_⟩
        rw [none]
        rfl
  · exact workSeal_step inv jobs rfl found (unchanged (idle_of_stage here (workSeal_stage worked))) worked

end Stages

end OmiLocal.Capture
