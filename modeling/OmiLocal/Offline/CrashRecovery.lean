import Mathlib.Data.List.Basic
import OmiLocal.Lib.Fallible
import OmiLocal.Offline.AudioCapture

/-!
# Captured audio survives the end of the process

Every operation leaves a directory in one of four forms, and each form says where
the audio of the session is: nowhere yet, in the part, in the part and in the WAV,
or in the WAV only. The recovery turns the middle forms into the last.
-/
namespace OmiLocal.Offline

open Lib.Framing Lib.Json Lib.Transition Lib.Fallible Capture

/-- The PCM of the frames that were written to a session. -/
def framesOf (written : List (Nat × Bytes)) (k : Nat) : Bytes := (written.filter fun e => decide (e.1 = k)).flatMap Prod.snd

theorem framesOf_append (front back : List (Nat × Bytes)) (k : Nat) :
    framesOf (front ++ back) k = framesOf front k ++ framesOf back k := by
  simp [framesOf]

theorem framesOf_single (dir : Nat) (pcm : Bytes) (k : Nat) : framesOf [(dir, pcm)] k = if dir = k then pcm else [] := by
  by_cases same : dir = k <;> simp [framesOf, same]

theorem framesOf_beyond {written : List (Nat × Bytes)} {n : Nat} (inside : ∀ e ∈ written, e.1 < n) : framesOf written n = [] := by
  have none : written.filter (fun e => decide (e.1 = n)) = [] := by
    apply List.filter_eq_nil_iff.mpr
    intro e member
    have := inside e member
    simp only [decide_eq_true_eq]
    omega
  rw [framesOf, none, List.flatMap_nil]

/-! ## Metadata that recovery accepts -/

theorem toLower_isHex {c : Char} (hex : isHex c = true) : c.toLower = c := by
  unfold isHex at hex
  simp only [Bool.or_eq_true, Bool.and_eq_true, decide_eq_true_eq] at hex
  refine dif_neg fun upper => ?_
  have low := UInt32.le_iff_toNat_le.mp upper.1
  have high := UInt32.le_iff_toNat_le.mp upper.2
  simp at low high
  omega

theorem lower_canonical {name : String} (canonical : canonicalUuid name = true) : lower name = name := by
  have fixed : ∀ c ∈ name.toList, c.toLower = id c := by
    intro c member
    simp only [canonicalUuid, Bool.and_eq_true, List.all_eq_true] at canonical
    obtain ⟨i, inside, rfl⟩ := List.mem_iff_getElem.mp member
    have shape := canonical.2 (name.toList[i], i) (by
      rw [List.mem_zipIdx_iff_getElem?]
      simp [inside])
    dsimp only at shape
    split at shape
    · rw [beq_iff_eq] at shape
      rw [shape]
      decide
    · exact toLower_isHex shape
  unfold lower
  rw [List.map_congr_left fixed, List.map_id, String.ofList_toList]

/-- What the captures write to `metadata.json.part`. -/
def Progress (py : Python) (name : String) (payload : Value) : Prop :=
  ∃ startedAt codec source counters decoded, inputFormatSupported source codec = true ∧
    payload = captureMetadata py name startedAt none codec source counters decoded "recording"

theorem countField_int (py : Python) {key : String} {fields : List (String × Value)} {n : Int}
    (here : field key fields = some (.int n)) : countField py key fields = .ok n := by
  unfold countField
  rw [here]
  by_cases zero : n = 0
  · simp [truthy, zero]
  · simp [truthy, zero]

/-- The recovery accepts every part that a capture leaves with a progress file. -/
theorem recoverOne_ok (py : Python) {d : SessionDir} {pcm : Bytes} {payload : Value} (canonical : canonicalUuid d.name = true)
    (part : d.pcmPart = some pcm) (even : pcm.length % 2 = 0) (metadata : d.metadataPart = some payload)
    (progress : Progress py d.name payload) (endedAt : String) : ∃ recovered, recoverOne py d endedAt = .ok recovered := by
  obtain ⟨startedAt, codec, source, counters, decoded, supported, rfl⟩ := progress
  have known : (inputCodecs.any fun entry => entry.1 == source) = true := by
    unfold inputFormatSupported at supported
    obtain ⟨entry, member, both⟩ := List.any_eq_true.mp supported
    exact List.any_eq_true.mpr ⟨entry, member, (Bool.and_eq_true _ _ ▸ both).1⟩
  have valid : validatedSessionId d.name = .ok d.name := by
    rw [validatedSessionId, lower_canonical canonical, if_pos canonical]
  have version : field "schema_version" (captureFields py d.name startedAt none codec source counters decoded "recording") =
      some (.int schemaVersion) := by simp [field, captureFields]
  have sourceIs : field "source" (captureFields py d.name startedAt none codec source counters decoded "recording") =
      some (.str source) := by simp [field, captureFields]
  have session : strField "session_id" (captureFields py d.name startedAt none codec source counters decoded "recording") =
      some d.name := by simp [strField, field, captureFields]
  have input : field "input" (captureFields py d.name startedAt none codec source counters decoded "recording") =
      some (.obj [("codec", .str codec), ("sample_rate", .int outputSampleRate), ("channels", .int outputChannels)]) := by
    simp [field, captureFields]
  have frames : field "frames_received" (captureFields py d.name startedAt none codec source counters decoded "recording") =
      some (.int counters.framesReceived) := by simp [field, captureFields]
  have encoded : field "encoded_bytes" (captureFields py d.name startedAt none codec source counters decoded "recording") =
      some (.int counters.encodedBytes) := by simp [field, captureFields]
  have errors : field "decode_errors" (captureFields py d.name startedAt none codec source counters decoded "recording") =
      some (.int counters.decodeErrors) := by simp [field, captureFields]
  unfold recoverOne
  rw [valid, metadata, part]
  simp only [captureMetadata, Option.elim, bind, Except.bind]
  rw [version, sourceIs, session, input, countField_int py frames, countField_int py encoded, countField_int py errors]
  simp [equalsInt, known, field, supported, outputSampleWidthBytes, even]

/-! ## Forms of a directory -/

/-- The part has all of the audio and a progress file. -/
structure PartOk (py : Python) (d : SessionDir) (pcm : Bytes) : Prop where
  part : d.pcmPart = some pcm
  even : pcm.length % 2 = 0
  progress : ∃ payload, d.metadataPart = some payload ∧ Progress py d.name payload

inductive DirOk (py : Python) (d : SessionDir) (pcm : Bytes) : Prop where
  | made : d.pcmPart = none → d.wav = none → pcm = [] → DirOk py d pcm
  | opened : d.pcmPart = some [] → d.metadataPart = none → d.wav = none → pcm = [] → DirOk py d pcm
  | recording : PartOk py d pcm → (d.wav = none ∨ d.wav = some pcm) → DirOk py d pcm
  | published : d.pcmPart = none → d.wav = some pcm → DirOk py d pcm

/-- A program in the middle of its operations: its flag says whether the capture is closed. -/
inductive Runs (py : Python) (d : SessionDir) (pcm : Bytes) : Bool → List FileOp → Bytes → Prop where
  | create {p copied} : d.pcmPart = none → d.metadataPart = none → d.wav = none → pcm = [] →
      Progress py d.name p → Runs py d pcm false (.createPcm :: progressOps p) copied
  | opening {p copied} : d.pcmPart = some [] → d.metadataPart = none → d.wav = none → pcm = [] →
      Progress py d.name p → Runs py d pcm false (progressOps p) copied
  | opened {p copied} : d.pcmPart = some [] → d.metadataPart = none → d.wav = none → pcm = [] →
      Progress py d.name p → Runs py d pcm false [.replaceMetadataPart p] copied
  | idle {copied} : PartOk py d pcm → d.wav = none → Runs py d pcm false [] copied
  | append {more p copied} : PartOk py d pcm → d.wav = none → more.length % 2 = 0 → Progress py d.name p →
      Runs py d pcm false (.appendPcm more :: progressOps p) copied
  | progress {p copied} : PartOk py d pcm → d.wav = none → Progress py d.name p →
      Runs py d pcm false (progressOps p) copied
  | replace {p copied} : PartOk py d pcm → d.wav = none → Progress py d.name p →
      Runs py d pcm false [.replaceMetadataPart p] copied
  | close {p copied} : PartOk py d pcm → d.wav = none → Runs py d pcm true (.closePcm :: publishOps p) copied
  | publish {p copied} : PartOk py d pcm → (d.wav = none ∨ d.wav = some pcm) →
      Runs py d pcm true (publishOps p) copied
  | copy {p copied} : PartOk py d pcm → (d.wav = none ∨ d.wav = some pcm) → copied <+: pcm →
      Runs py d pcm true ((publishOps p).drop 1) copied
  | copied {p} : PartOk py d pcm → (d.wav = none ∨ d.wav = some pcm) →
      Runs py d pcm true ((publishOps p).drop 2) pcm
  | replaced {p copied} : PartOk py d pcm → d.wav = some pcm → Runs py d pcm true ((publishOps p).drop 3) copied
  | described {p copied} : PartOk py d pcm → d.wav = some pcm → Runs py d pcm true ((publishOps p).drop 4) copied
  | unlink {copied} : PartOk py d pcm → d.wav = some pcm → Runs py d pcm true [.unlinkPcm, .unlinkMetadataPart] copied
  | unlinked {copied} : d.pcmPart = none → d.wav = some pcm → Runs py d pcm true [.unlinkMetadataPart] copied
  | done {copied} : d.pcmPart = none → d.wav = some pcm → Runs py d pcm true [] copied

section Programs

variable {py : Python} {d : SessionDir} {pcm : Bytes} {closed : Bool} {todo : List FileOp} {copied : Bytes}

theorem Runs.dirOk (runs : Runs py d pcm closed todo copied) : DirOk py d pcm := by
  cases runs with
  | create part _ wav nothing _ => exact .made part wav nothing
  | opening part progress wav nothing _ => exact .opened part progress wav nothing
  | opened part progress wav nothing _ => exact .opened part progress wav nothing
  | idle ok wav => exact .recording ok (.inl wav)
  | append ok wav _ _ => exact .recording ok (.inl wav)
  | progress ok wav _ => exact .recording ok (.inl wav)
  | replace ok wav _ => exact .recording ok (.inl wav)
  | close ok wav => exact .recording ok (.inl wav)
  | publish ok wav => exact .recording ok wav
  | copy ok wav _ => exact .recording ok wav
  | copied ok wav => exact .recording ok wav
  | replaced ok wav => exact .recording ok (.inr wav)
  | described ok wav => exact .recording ok (.inr wav)
  | unlink ok wav => exact .recording ok (.inr wav)
  | unlinked part wav => exact .published part wav
  | done part wav => exact .published part wav

/-- The PCM that the next operation adds. -/
def nextPcm : List FileOp → Bytes
  | .appendPcm pcm :: _ => pcm
  | _ => []

theorem perform_name (d : SessionDir) (p : Program) : (perform d p).1.name = d.name := by
  unfold perform
  split
  case h_7 =>
    dsimp only
    split <;> rfl
  all_goals rfl

/-- One round of the copy loop. -/
theorem copy_runs {payload : Value} (ok : PartOk py d pcm) (wav : d.wav = none ∨ d.wav = some pcm) (front : copied <+: pcm) :
    Runs py (perform d ⟨(publishOps payload).drop 1, copied⟩).1 pcm true
      (perform d ⟨(publishOps payload).drop 1, copied⟩).2.todo (perform d ⟨(publishOps payload).drop 1, copied⟩).2.copied := by
  obtain ⟨rest, rfl⟩ := front
  have chunk : ((d.pcmPart.getD []).drop copied.length).take copyBytes = rest.take copyBytes := by
    rw [ok.part, Option.getD_some, List.drop_left]
  simp only [publishOps, List.drop_one, List.tail_cons, perform, chunk]
  split
  · rename_i ended
    have nothing : rest = [] := by
      rcases List.take_eq_nil_iff.mp ended with zero | nothing
      · exact absurd zero (by decide)
      · exact nothing
    subst nothing
    rw [List.append_nil] at ok wav ⊢
    exact .copied (p := payload) ok wav
  · apply Runs.copy (p := payload) ok wav
    exact (List.prefix_append_right_inj copied).mpr (List.take_prefix copyBytes rest)

/-- Every operation of a program leads to the next form. -/
theorem perform_runs (runs : Runs py d pcm closed todo copied) (more : todo ≠ []) :
    Runs py (perform d ⟨todo, copied⟩).1 (pcm ++ nextPcm todo) closed (perform d ⟨todo, copied⟩).2.todo
      (perform d ⟨todo, copied⟩).2.copied := by
  cases runs with
  | create part progress wav nothing payload => exact .opening rfl progress wav (by rw [nothing]; rfl) payload
  | opening part progress wav nothing payload => exact .opened part progress wav (by rw [nothing]; rfl) payload
  | opened part progress wav nothing payload =>
      subst nothing
      exact .idle ⟨part, rfl, _, rfl, payload⟩ wav
  | idle ok wav => exact absurd rfl more
  | append ok wav even payload =>
      rename_i extra _
      obtain ⟨old, here, known⟩ := ok.progress
      have longer : PartOk py { d with pcmPart := d.pcmPart.map (· ++ extra) } (pcm ++ extra) := by
        refine ⟨by rw [ok.part]; rfl, ?_, old, here, known⟩
        have := ok.even
        rw [List.length_append]
        omega
      exact .progress longer wav payload
  | progress ok wav payload =>
      rw [show nextPcm (progressOps _) = [] from rfl, List.append_nil]
      exact .replace ok wav payload
  | replace ok wav payload =>
      rw [show nextPcm _ = [] from rfl, List.append_nil]
      exact .idle ⟨ok.part, ok.even, _, rfl, payload⟩ wav
  | close ok wav =>
      rw [show nextPcm _ = [] from rfl, List.append_nil]
      exact .publish ok (.inl wav)
  | publish ok wav =>
      rw [show nextPcm _ = [] from rfl, List.append_nil]
      exact .copy ok wav List.nil_prefix
  | copy ok wav front =>
      rw [show nextPcm _ = [] from rfl, List.append_nil]
      exact copy_runs ok wav front
  | copied ok wav =>
      rw [show nextPcm _ = [] from rfl, List.append_nil]
      exact .replaced ⟨ok.part, ok.even, ok.progress⟩ rfl
  | replaced ok wav =>
      rw [show nextPcm _ = [] from rfl, List.append_nil]
      exact .described ok wav
  | described ok wav =>
      rw [show nextPcm _ = [] from rfl, List.append_nil]
      exact .unlink ⟨ok.part, ok.even, ok.progress⟩ wav
  | unlink ok wav =>
      rw [show nextPcm _ = [] from rfl, List.append_nil]
      exact .unlinked rfl wav
  | unlinked part wav =>
      rw [show nextPcm _ = [] from rfl, List.append_nil]
      exact .done part wav
  | done part wav => exact absurd rfl more

theorem perform_todo (runs : Runs py d pcm true todo copied) : nextPcm todo = [] := by
  cases runs <;> rfl

end Programs

/-! ## The process -/

structure CaptureOk (py : Python) (s : World) (c : OfflineAudioCapture) : Prop where
  supported : inputFormatSupported c.source c.inputCodec = true
  runs : ∃ d, s.dirs[c.dir]? = some d ∧ c.sessionId = d.name ∧
    Runs py d (framesOf s.written c.dir) c.closed c.program.todo c.program.copied

/-- A part is left to the recovery, in work, or one that it raises for. -/
structure RecoveryOk (py : Python) (s : World) (r : Recovery) : Prop where
  alone : s.live = []
  runs : r.program.todo ≠ [] → ∃ d, s.dirs[r.dir]? = some d ∧
    Runs py d (framesOf s.written r.dir) true r.program.todo r.program.copied
  covers : ∀ k d, s.dirs[k]? = some d → d.pcmPart.isSome → k ∈ r.rest ∨ (k = r.dir ∧ r.program.todo ≠ []) ∨ d.metadataPart = none
  left : ∀ k ∈ r.rest, ∃ d, s.dirs[k]? = some d ∧ d.pcmPart.isSome
  apart : r.rest.Nodup ∧ (r.program.todo ≠ [] → r.dir ∉ r.rest)

structure WorldOk (py : Python) (s : World) : Prop where
  names : ∀ d ∈ s.dirs, canonicalUuid d.name = true
  inside : ∀ e ∈ s.written, e.1 < s.dirs.length
  dirs : ∀ k d, s.dirs[k]? = some d → DirOk py d (framesOf s.written k)
  live : ∀ c ∈ s.live, CaptureOk py s c
  apart : (s.live.map OfflineAudioCapture.dir).Nodup
  recovery : ∀ r, s.recovery = some r → RecoveryOk py s r

section Steps

variable {py : Python} {s t : World}

theorem CaptureOk.inside {c : OfflineAudioCapture} (ok : CaptureOk py s c) : c.dir < s.dirs.length := by
  obtain ⟨d, found, -⟩ := ok.runs
  exact (List.getElem?_eq_some_iff.mp found).1

theorem CaptureOk.progress {c : OfflineAudioCapture} (supported : inputFormatSupported c.source c.inputCodec = true) :
    Progress py c.sessionId (c.progress py) :=
  ⟨c.startedAt, c.inputCodec, c.source, c.counters, c.decodedPcmBytes, supported, rfl⟩

theorem addCapture_ok (ok : WorldOk py s) (free : s.recovery = none) {sessionId source inputCodec now : String}
    (added : s.addCapture py sessionId source inputCodec now = some t) : WorldOk py t := by
  unfold World.addCapture at added
  split at added
  · cases added
  · rename_i id validated
    obtain ⟨new, same⟩ := Option.ite_none_left_eq_some.mp added
    cases same
    have canonical : canonicalUuid id = true := by
      unfold validatedSessionId at validated
      split at validated
      · cases validated
        assumption
      · cases validated
    have supported : inputFormatSupported source inputCodec = true := by
      rw [not_or, Bool.not_eq_false] at new
      exact new.1
    have nothing := framesOf_beyond ok.inside
    have last : (s.dirs ++ [newDir id])[s.dirs.length]? = some (newDir id) := by simp
    have old : ∀ {k : Nat}, k < s.dirs.length → (s.dirs ++ [newDir id])[k]? = s.dirs[k]? := fun bound =>
      List.getElem?_append_left bound
    constructor
    · intro d member
      rcases List.mem_append.mp member with before | added
      · exact ok.names d before
      · cases List.mem_singleton.mp added
        exact canonical
    · intro e member
      have := ok.inside e member
      simp only [List.length_append, List.length_singleton]
      omega
    · intro k d found
      by_cases before : k < s.dirs.length
      · rw [old before] at found
        exact ok.dirs k d found
      · have bound := (List.getElem?_eq_some_iff.mp found).1
        simp only [List.length_append, List.length_singleton] at bound
        obtain rfl : k = s.dirs.length := by omega
        cases last.symm.trans found
        exact .made rfl rfl nothing
    · intro c member
      rcases List.mem_append.mp member with before | added
      · have captured := ok.live c before
        obtain ⟨d, found, rest⟩ := captured.runs
        exact ⟨captured.supported, d, by rw [old captured.inside]; exact found, rest⟩
      · cases List.mem_singleton.mp added
        refine ⟨supported, newDir id, last, rfl, ?_⟩
        exact .create rfl rfl rfl nothing ⟨now, inputCodec, source, _, _, supported, rfl⟩
    · rw [List.map_append]
      apply ok.apart.append (List.nodup_singleton _)
      intro k before added
      cases List.mem_singleton.mp added
      obtain ⟨c, member, same⟩ := List.mem_map.mp before
      have below := (ok.live c member).inside
      rw [same] at below
      exact absurd below (lt_irrefl _)
    · intro r running
      rw [free] at running
      cases running

theorem map_dir_set {live : List OfflineAudioCapture} {i : Nat} {c next : OfflineAudioCapture} (here : live[i]? = some c)
    (dir : next.dir = c.dir) : (live.set i next).map OfflineAudioCapture.dir = live.map OfflineAudioCapture.dir := by
  obtain ⟨bound, isC⟩ := List.getElem?_eq_some_iff.mp here
  rw [List.map_set, dir, ← isC]
  apply List.ext_getElem (by simp)
  intro j inside _
  rw [List.getElem_set]
  split
  · rename_i same
    subst same
    rw [List.getElem_map]
  · rfl

/-- After the replacement of one capture the others have other directories. -/
theorem mem_set_live {live : List OfflineAudioCapture} (apart : (live.map OfflineAudioCapture.dir).Nodup) {i : Nat}
    {c next other : OfflineAudioCapture} (here : live[i]? = some c) (member : other ∈ live.set i next) :
    other = next ∨ other ∈ live ∧ other.dir ≠ c.dir := by
  obtain ⟨j, place⟩ := List.mem_iff_getElem?.mp member
  by_cases same : i = j
  · subst same
    have bound := (List.getElem?_eq_some_iff.mp here).1
    rw [List.getElem?_set_self bound] at place
    exact .inl (Option.some.inj place).symm
  · rw [List.getElem?_set_ne same] at place
    refine .inr ⟨List.mem_of_getElem? place, fun equal => same ?_⟩
    have repeated : (live.map OfflineAudioCapture.dir)[i]? = (live.map OfflineAudioCapture.dir)[j]? := by
      rw [List.getElem?_map, List.getElem?_map, here, place, Option.map_some, Option.map_some, equal]
    have bound := (List.getElem?_eq_some_iff.mp here).1
    exact (List.getElem?_inj (by simpa using bound) apart).mp repeated

/-- A call replaces the program of one capture. -/
theorem WorldOk.setCapture (ok : WorldOk py s) {i : Nat} {c next : OfflineAudioCapture} (found : s.live[i]? = some c)
    (dir : next.dir = c.dir) (capture : CaptureOk py s next) : WorldOk py { s with live := s.live.set i next } := by
  have bound : i < s.live.length := (List.getElem?_eq_some_iff.mp found).1
  constructor
  · exact ok.names
  · exact ok.inside
  · exact ok.dirs
  · intro other member
    rcases List.mem_or_eq_of_mem_set member with before | rfl
    · exact ⟨(ok.live other before).supported, (ok.live other before).runs⟩
    · exact ⟨capture.supported, capture.runs⟩
  · rw [map_dir_set found dir]
    exact ok.apart
  · intro r running
    have alone := (ok.recovery r running).alone
    rw [alone] at bound
    cases bound

theorem call_ok (ok : WorldOk py s) {i : Nat} {f : OfflineAudioCapture → Except String OfflineAudioCapture}
    (each : ∀ c next, CaptureOk py s c → c.program.todo = [] → f c = .ok next →
      next.dir = c.dir ∧ CaptureOk py s next) (called : s.call i f = some t) : WorldOk py t := by
  obtain ⟨c, found, rest⟩ := Option.bind_eq_some_iff.mp called
  obtain ⟨idle, rest⟩ := Option.ite_none_left_eq_some.mp rest
  obtain ⟨next, returned, rfl⟩ := Option.map_eq_some_iff.mp rest
  rw [not_or, not_not] at idle
  have answer : f c = .ok next := by
    cases result : f c with
    | error e =>
        rw [result] at returned
        cases returned
    | ok value =>
        rw [result] at returned
        cases returned
        rfl
  obtain ⟨dir, capture⟩ := each c next (ok.live c (List.mem_of_getElem? found)) idle.1 answer
  exact ok.setCapture found dir capture

/-- A capture without operations left that is not closed has its audio in the part. -/
theorem CaptureOk.idle {c : OfflineAudioCapture} (ok : CaptureOk py s c) (todo : c.program.todo = []) (open_ : c.closed = false) :
    ∃ d, s.dirs[c.dir]? = some d ∧ c.sessionId = d.name ∧ PartOk py d (framesOf s.written c.dir) ∧ d.wav = none := by
  obtain ⟨d, found, name, runs⟩ := ok.runs
  rw [todo, open_] at runs
  cases runs with
  | idle part wav => exact ⟨d, found, name, part, wav⟩

theorem recordDecodedFrame_ok {c next : OfflineAudioCapture} (ok : CaptureOk py s c) (todo : c.program.todo = [])
    {encodedBytes : Nat} {pcm : Bytes} (done : c.recordDecodedFrame py encodedBytes pcm = .ok next) :
    next.dir = c.dir ∧ CaptureOk py s next := by
  unfold OfflineAudioCapture.recordDecodedFrame at done
  split at done
  · cases done
  · rename_i open_
    split at done
    · cases done
    · rename_i even
      cases done
      rw [Bool.not_eq_true] at open_
      obtain ⟨d, found, name, part, wav⟩ := ok.idle todo open_
      refine ⟨rfl, ok.supported, d, found, name, ?_⟩
      dsimp only
      rw [open_]
      apply Runs.append part wav (by simpa [outputSampleWidthBytes] using even)
      rw [← name]
      exact ⟨_, _, _, _, _, ok.supported, rfl⟩

theorem recordDecodeError_ok {c next : OfflineAudioCapture} (ok : CaptureOk py s c) (todo : c.program.todo = [])
    {encodedBytes : Nat} (done : c.recordDecodeError py encodedBytes = .ok next) :
    next.dir = c.dir ∧ CaptureOk py s next := by
  unfold OfflineAudioCapture.recordDecodeError at done
  split at done
  · cases done
  · rename_i open_
    cases done
    rw [Bool.not_eq_true] at open_
    obtain ⟨d, found, name, part, wav⟩ := ok.idle todo open_
    refine ⟨rfl, ok.supported, d, found, name, ?_⟩
    dsimp only
    rw [open_]
    apply Runs.progress part wav
    rw [← name]
    exact ⟨_, _, _, _, _, ok.supported, rfl⟩

theorem finalize_ok {c next : OfflineAudioCapture} (ok : CaptureOk py s c) (todo : c.program.todo = []) {now : String}
    (done : c.finalize py now = .ok next) : next.dir = c.dir ∧ CaptureOk py s next := by
  unfold OfflineAudioCapture.finalize at done
  split at done
  · cases done
  · rename_i open_
    cases done
    rw [Bool.not_eq_true] at open_
    obtain ⟨d, found, name, part, wav⟩ := ok.idle todo open_
    exact ⟨rfl, ok.supported, d, found, name, .close part wav⟩

theorem rotate_ok {c next : OfflineAudioCapture} (ok : CaptureOk py s c) (todo : c.program.todo = []) {now : String}
    (done : c.rotate py now = .ok next) : next.dir = c.dir ∧ CaptureOk py s next := by
  unfold OfflineAudioCapture.rotate at done
  split at done
  · cases done
    exact ⟨rfl, ok⟩
  · cases finalized : c.finalize py now with
    | error e =>
        rw [finalized] at done
        cases done
    | ok closed =>
        rw [finalized] at done
        cases done
        obtain ⟨dir, capture⟩ := finalize_ok ok todo finalized
        exact ⟨dir, capture.supported, capture.runs⟩

theorem performAt_eq {k : Nat} {d : SessionDir} (found : s.dirs[k]? = some d) (p : Program) :
    s.performAt k p = (s.dirs.set k (perform d p).1, (perform d p).2) := by
  unfold World.performAt
  rw [found]

theorem writtenBy_frames (c : OfflineAudioCapture) (k : Nat) :
    framesOf (World.writtenBy c) k = if c.dir = k then nextPcm c.program.todo else [] := by
  unfold World.writtenBy
  split
  · rename_i pcm rest todo
    rw [todo]
    exact framesOf_single c.dir pcm k
  · rename_i other
    have nothing : nextPcm c.program.todo = [] := by
      unfold nextPcm
      split
      · rename_i pcm rest todo
        exact absurd todo (other pcm rest)
      · rfl
    rw [nothing, ite_self]
    rfl

/-- Forms of the other directories stay. -/
theorem dirs_set {k : Nat} {d d' : SessionDir} (found : s.dirs[k]? = some d) {written : List (Nat × Bytes)}
    (old : ∀ j e, s.dirs[j]? = some e → DirOk py e (framesOf s.written j)) (here : DirOk py d' (framesOf written k))
    (others : ∀ j, j ≠ k → framesOf written j = framesOf s.written j) :
    ∀ j e, (s.dirs.set k d')[j]? = some e → DirOk py e (framesOf written j) := by
  intro j e there
  have bound := (List.getElem?_eq_some_iff.mp found).1
  by_cases same : j = k
  · subst same
    rw [List.getElem?_set_self bound] at there
    cases there
    exact here
  · rw [List.getElem?_set_ne (Ne.symm same)] at there
    rw [others j same]
    exact old j e there

theorem names_set {k : Nat} {d : SessionDir} (found : s.dirs[k]? = some d) (names : ∀ e ∈ s.dirs, canonicalUuid e.name = true)
    (p : Program) : ∀ e ∈ s.dirs.set k (perform d p).1, canonicalUuid e.name = true := by
  intro e member
  rcases List.mem_or_eq_of_mem_set member with before | rfl
  · exact names e before
  · rw [perform_name]
    exact names d (List.mem_of_getElem? found)

theorem perform_ok (ok : WorldOk py s) {i : Nat} (done : s.act py (.perform i) = some t) : WorldOk py t := by
  obtain ⟨c, here, rest⟩ := Option.bind_eq_some_iff.mp done
  obtain ⟨more, same⟩ := Option.ite_none_left_eq_some.mp rest
  have member := List.mem_of_getElem? here
  have capture := ok.live c member
  obtain ⟨d, found, name, runs⟩ := capture.runs
  rw [performAt_eq found] at same
  cases same
  have next := perform_runs runs more
  have grown : ∀ k, framesOf (s.written ++ World.writtenBy c) k =
      framesOf s.written k ++ if c.dir = k then nextPcm c.program.todo else [] := fun k => by
    rw [framesOf_append, writtenBy_frames]
  have mine : framesOf (s.written ++ World.writtenBy c) c.dir = framesOf s.written c.dir ++ nextPcm c.program.todo := by
    rw [grown, if_pos rfl]
  have others : ∀ k, k ≠ c.dir → framesOf (s.written ++ World.writtenBy c) k = framesOf s.written k := fun k other => by
    rw [grown, if_neg (Ne.symm other), List.append_nil]
  rw [← mine] at next
  have bound := capture.inside
  constructor
  · exact names_set found ok.names c.program
  · intro e inside
    rw [List.length_set]
    rcases List.mem_append.mp inside with old | new
    · exact ok.inside e old
    · unfold World.writtenBy at new
      split at new
      · cases List.mem_singleton.mp new
        exact bound
      · exact absurd new List.not_mem_nil
  · exact dirs_set found ok.dirs next.dirOk others
  · intro other inside
    rcases mem_set_live ok.apart here inside with rfl | ⟨old, same⟩
    · refine ⟨capture.supported, (perform d c.program).1, ?_, ?_, next⟩
      · exact List.getElem?_set_self bound
      · rw [perform_name]
        exact name
    · obtain ⟨d', found', name', runs'⟩ := (ok.live other old).runs
      refine ⟨(ok.live other old).supported, d', ?_, name', ?_⟩
      · dsimp only
        rw [List.getElem?_set_ne (Ne.symm same)]
        exact found'
      · dsimp only
        rw [others other.dir same]
        exact runs'
  · rw [map_dir_set here (show OfflineAudioCapture.dir { c with program := (perform d c.program).2 } = c.dir from rfl)]
    exact ok.apart
  · intro r running
    have alone := (ok.recovery r running).alone
    rw [alone] at member
    exact absurd member List.not_mem_nil

theorem mem_partDirs {dirs : List SessionDir} {k : Nat} : k ∈ World.partDirs dirs ↔ ∃ d, dirs[k]? = some d ∧ d.pcmPart.isSome := by
  unfold World.partDirs
  simp only [List.mem_map, List.mem_mergeSort, List.mem_filter, Prod.exists, exists_eq_right, List.mem_zipIdx_iff_getElem?]

theorem nodup_partDirs (dirs : List SessionDir) : (World.partDirs dirs).Nodup := by
  unfold World.partDirs
  rw [((List.mergeSort_perm _ _).map Prod.snd).nodup_iff]
  apply List.Nodup.sublist (List.filter_sublist.map Prod.snd)
  rw [List.zipIdx_map_snd]
  exact List.nodup_range'

theorem recover_ok (ok : WorldOk py s) (done : s.act py .recover = some t) : WorldOk py t := by
  obtain ⟨free, same⟩ := Option.ite_none_left_eq_some.mp done
  cases same
  rw [not_or, not_not] at free
  refine ⟨ok.names, ok.inside, ok.dirs, fun c member => ?_, ok.apart, ?_⟩
  · exact ⟨(ok.live c member).supported, (ok.live c member).runs⟩
  · rintro _ ⟨⟩
    exact ⟨free.1, fun more => absurd rfl more, fun k d found part => .inl (mem_partDirs.mpr ⟨d, found, part⟩),
      fun k member => mem_partDirs.mp member, nodup_partDirs s.dirs, fun more => absurd rfl more⟩

/-- The recovery raises only for a part without a progress file. -/
theorem recoverOne_error (ok : WorldOk py s) {k : Nat} {d : SessionDir} (found : s.dirs[k]? = some d) (part : d.pcmPart.isSome)
    {endedAt : String} {e : String} (raised : recoverOne py d endedAt = .error e) : d.metadataPart = none := by
  cases ok.dirs k d found with
  | made none _ _ =>
      rw [none] at part
      cases part
  | opened _ progress _ _ => exact progress
  | recording part _ =>
      obtain ⟨payload, here, known⟩ := part.progress
      obtain ⟨recovered, fine⟩ := recoverOne_ok py (ok.names d (List.mem_of_getElem? found)) part.part part.even here known endedAt
      rw [fine] at raised
      cases raised
  | published none _ =>
      rw [none] at part
      cases part

theorem recoverOne_parts {d : SessionDir} {endedAt : String} {payload : Value} (fine : recoverOne py d endedAt = .ok payload) :
    d.pcmPart.isSome ∧ d.metadataPart ≠ none := by
  unfold recoverOne at fine
  obtain ⟨sessionId, -, rest⟩ := bind_ok fine
  obtain ⟨loaded, progress, rest⟩ := bind_ok rest
  obtain ⟨pcm, part, -⟩ := bind_ok rest
  constructor
  · cases found : d.pcmPart with
    | none =>
        rw [found] at part
        cases part
    | some _ => rfl
  · intro none
    rw [none] at progress
    cases progress

theorem recoverNext_ok (ok : WorldOk py s) {endedAt : String} (done : s.act py (.recoverNext endedAt) = some t) : WorldOk py t := by
  obtain ⟨r, running, rest⟩ := Option.bind_eq_some_iff.mp done
  obtain ⟨idle, rest⟩ := Option.ite_none_left_eq_some.mp rest
  rw [not_not] at idle
  have before := ok.recovery r running
  split at rest
  · cases rest
  · rename_i dir remaining isRest
    obtain ⟨d, found, rfl⟩ := Option.map_eq_some_iff.mp rest
    have waiting : ∀ k ∈ remaining, ∃ d, s.dirs[k]? = some d ∧ d.pcmPart.isSome := fun k member =>
      before.left k (isRest ▸ List.mem_cons_of_mem dir member)
    have apart := before.apart.1
    rw [isRest, List.nodup_cons] at apart
    split
    · rename_i e raised
      refine ⟨ok.names, ok.inside, ok.dirs, fun c member => ?_, ok.apart, ?_⟩
      · exact ⟨(ok.live c member).supported, (ok.live c member).runs⟩
      · rintro _ ⟨⟩
        refine ⟨before.alone, fun more => absurd rfl more, fun k d' found' part => ?_, waiting, apart.2,
          fun more => absurd rfl more⟩
        rcases before.covers k d' found' part with left | ⟨-, working⟩ | none
        · rw [isRest] at left
          rcases List.mem_cons.mp left with rfl | later
          · cases found.symm.trans found'
            exact .inr (.inr (recoverOne_error ok found part raised))
          · exact .inl later
        · exact absurd idle working
        · exact .inr (.inr none)
    · rename_i payload fine
      obtain ⟨some_, progress⟩ := recoverOne_parts fine
      refine ⟨ok.names, ok.inside, ok.dirs, fun c member => ?_, ok.apart, ?_⟩
      · exact ⟨(ok.live c member).supported, (ok.live c member).runs⟩
      · rintro _ ⟨⟩
        refine ⟨before.alone, fun _ => ⟨d, found, ?_⟩, fun k d' found' part => ?_, waiting, apart.2, fun _ => apart.1⟩
        · cases ok.dirs dir d found with
          | made none _ _ =>
              rw [none] at some_
              cases some_
          | opened _ none _ _ => exact absurd none progress
          | recording part wav => exact .publish part wav
          | published none _ =>
              rw [none] at some_
              cases some_
        · rcases before.covers k d' found' part with left | ⟨-, working⟩ | none
          · rw [isRest] at left
            rcases List.mem_cons.mp left with rfl | later
            · exact .inr (.inl ⟨rfl, by simp [run, publishOps]⟩)
            · exact .inl later
          · exact absurd idle working
          · exact .inr (.inr none)

theorem recoverPerform_ok (ok : WorldOk py s) (done : s.act py .recoverPerform = some t) : WorldOk py t := by
  obtain ⟨r, running, rest⟩ := Option.bind_eq_some_iff.mp done
  obtain ⟨more, same⟩ := Option.ite_none_left_eq_some.mp rest
  have before := ok.recovery r running
  obtain ⟨d, found, runs⟩ := before.runs more
  rw [performAt_eq found] at same
  cases same
  have next := perform_runs runs more
  rw [perform_todo runs, List.append_nil] at next
  have bound := (List.getElem?_eq_some_iff.mp found).1
  constructor
  · exact names_set found ok.names r.program
  · intro e inside
    rw [List.length_set]
    exact ok.inside e inside
  · exact dirs_set found ok.dirs next.dirOk fun _ _ => rfl
  · intro c member
    rw [show s.live = [] from before.alone] at member
    exact absurd member List.not_mem_nil
  · exact ok.apart
  · rintro _ ⟨⟩
    refine ⟨before.alone, fun _ => ⟨_, List.getElem?_set_self bound, next⟩, fun k d' found' part => ?_, fun k member => ?_,
      before.apart.1, fun _ => before.apart.2 more⟩
    on_goal 2 =>
      have other : r.dir ≠ k := fun same => before.apart.2 more (same ▸ member)
      obtain ⟨d', found', part⟩ := before.left k member
      exact ⟨d', (List.getElem?_set_ne other).trans found', part⟩
    by_cases same : k = r.dir
    · subst same
      rw [List.getElem?_set_self bound] at found'
      cases found'
      by_cases ended : (perform d r.program).2.todo = []
      · rw [ended] at next
        cases next with
        | done none _ =>
            rw [none] at part
            cases part
      · exact .inr (.inl ⟨rfl, ended⟩)
    · rw [List.getElem?_set_ne (Ne.symm same)] at found'
      rcases before.covers k d' found' part with left | ⟨here, -⟩ | none
      · exact .inl left
      · exact absurd here same
      · exact .inr (.inr none)

theorem WorldOk.alone (ok : WorldOk py s) : WorldOk py { s with live := [], recovery := none } where
  names := ok.names
  inside := ok.inside
  dirs := ok.dirs
  live := fun _ member => absurd member List.not_mem_nil
  apart := List.nodup_nil
  recovery := nofun

theorem rotated_ok (ok : WorldOk py s) {i : Nat} {sessionId now : String}
    (done : s.act py (.rotated i sessionId now) = some t) : WorldOk py t := by
  obtain ⟨c, here, rest⟩ := Option.bind_eq_some_iff.mp done
  obtain ⟨-, added⟩ := Option.ite_none_left_eq_some.mp rest
  have member := List.mem_of_getElem? here
  have capture := ok.live c member
  have settled : WorldOk py { s with live := s.live.set i { c with rotating := false } } :=
    ok.setCapture here rfl ⟨capture.supported, capture.runs⟩
  refine addCapture_ok settled ?_ added
  cases running : s.recovery with
  | none => rfl
  | some r =>
      have alone := (ok.recovery r running).alone
      rw [alone] at member
      exact absurd member List.not_mem_nil

theorem step_ok (ok : WorldOk py s) {a : Action} (done : s.step py a t) : WorldOk py t := by
  cases a with
  | create sessionId source inputCodec now =>
      obtain ⟨free, added⟩ := Option.ite_none_left_eq_some.mp done
      exact addCapture_ok ok (by simpa using free) added
  | frame i encodedBytes pcm =>
      exact call_ok ok (fun c next capture idle answer => recordDecodedFrame_ok capture idle answer) done
  | decodeError i encodedBytes =>
      exact call_ok ok (fun c next capture idle answer => recordDecodeError_ok capture idle answer) done
  | finalize i now => exact call_ok ok (fun c next capture idle answer => finalize_ok capture idle answer) done
  | rotate i now => exact call_ok ok (fun c next capture idle answer => rotate_ok capture idle answer) done
  | rotated i sessionId now => exact rotated_ok ok done
  | perform i => exact perform_ok ok done
  | die =>
      cases done
      exact ok.alone
  | recover => exact recover_ok ok done
  | recoverNext endedAt => exact recoverNext_ok ok done
  | recoverPerform => exact recoverPerform_ok ok done
  | recovered =>
      obtain ⟨r, running, rest⟩ := Option.bind_eq_some_iff.mp done
      obtain ⟨-, same⟩ := Option.ite_none_left_eq_some.mp rest
      cases same
      refine ⟨ok.names, ok.inside, ok.dirs, fun c member => ?_, ok.apart, nofun⟩
      exact ⟨(ok.live c member).supported, (ok.live c member).runs⟩

theorem run_ok (reached : Reachable World.init (World.step py) s) : WorldOk py s := by
  apply Reachable.invariant _ _ reached
  · rintro s ⟨noDirs, noLive, noRecovery, nothing⟩
    refine ⟨?_, ?_, ?_, ?_, ?_, ?_⟩
    · rw [noDirs]
      exact fun _ member => absurd member List.not_mem_nil
    · rw [nothing]
      exact fun _ member => absurd member List.not_mem_nil
    · intro k d found
      rw [noDirs] at found
      cases found
    · rw [noLive]
      exact fun _ member => absurd member List.not_mem_nil
    · rw [noLive]
      exact List.nodup_nil
    · rw [noRecovery]
      nofun
  · intro s a t ok done
    exact step_ok ok done

end Steps

/-! ## The result -/

/-- A dead directory that the recovery raises for. -/
structure Stuck (k : Nat) (d : SessionDir) (s : World) : Prop where
  found : s.dirs[k]? = some d
  progress : d.metadataPart = none
  live : ∀ c ∈ s.live, c.dir ≠ k
  recovery : ∀ r, s.recovery = some r → r.program.todo ≠ [] → r.dir ≠ k

section Stuck

variable {py : Python} {s t : World} {k : Nat} {d : SessionDir}

theorem addCapture_stuck {sessionId source inputCodec now : String} (stuck : Stuck k d s)
    (added : s.addCapture py sessionId source inputCodec now = some t) : Stuck k d t := by
  unfold World.addCapture at added
  split at added
  · cases added
  · obtain ⟨-, same⟩ := Option.ite_none_left_eq_some.mp added
    cases same
    have bound := (List.getElem?_eq_some_iff.mp stuck.found).1
    refine ⟨?_, stuck.progress, fun c member => ?_, stuck.recovery⟩
    · dsimp only
      rw [List.getElem?_append_left bound]
      exact stuck.found
    · rcases List.mem_append.mp member with old | new
      · exact stuck.live c old
      · cases List.mem_singleton.mp new
        exact Nat.ne_of_gt bound

theorem call_stuck {i : Nat} {f : OfflineAudioCapture → Except String OfflineAudioCapture}
    (same : ∀ c next, f c = .ok next → next.dir = c.dir) (stuck : Stuck k d s) (called : s.call i f = some t) : Stuck k d t := by
  obtain ⟨c, found, rest⟩ := Option.bind_eq_some_iff.mp called
  obtain ⟨-, rest⟩ := Option.ite_none_left_eq_some.mp rest
  obtain ⟨next, returned, rfl⟩ := Option.map_eq_some_iff.mp rest
  refine ⟨stuck.found, stuck.progress, fun other member => ?_, stuck.recovery⟩
  rcases List.mem_or_eq_of_mem_set member with old | rfl
  · exact stuck.live other old
  · have answer : f c = .ok other := by
      cases result : f c with
      | error e =>
          rw [result] at returned
          cases returned
      | ok value =>
          rw [result] at returned
          cases returned
          rfl
    rw [same c other answer]
    exact stuck.live c (List.mem_of_getElem? found)

theorem recordDecodedFrame_dir {c next : OfflineAudioCapture} {encodedBytes : Nat} {pcm : Bytes}
    (done : c.recordDecodedFrame py encodedBytes pcm = .ok next) : next.dir = c.dir := by
  unfold OfflineAudioCapture.recordDecodedFrame at done
  split at done
  · cases done
  · split at done
    · cases done
    · cases done
      rfl

theorem recordDecodeError_dir {c next : OfflineAudioCapture} {encodedBytes : Nat}
    (done : c.recordDecodeError py encodedBytes = .ok next) : next.dir = c.dir := by
  unfold OfflineAudioCapture.recordDecodeError at done
  split at done
  · cases done
  · cases done
    rfl

theorem finalize_dir {c next : OfflineAudioCapture} {now : String} (done : c.finalize py now = .ok next) :
    next.dir = c.dir := by
  unfold OfflineAudioCapture.finalize at done
  split at done
  · cases done
  · cases done
    rfl

theorem rotate_dir {c next : OfflineAudioCapture} {now : String} (done : c.rotate py now = .ok next) :
    next.dir = c.dir := by
  unfold OfflineAudioCapture.rotate at done
  split at done
  · cases done
    rfl
  · obtain ⟨closed, finalized, rfl⟩ := map_ok done
    have dir := finalize_dir finalized
    exact dir

theorem performAt_other {k dir : Nat} (other : dir ≠ k) (p : Program) : (s.performAt dir p).1[k]? = s.dirs[k]? := by
  unfold World.performAt
  split
  · rfl
  · exact List.getElem?_set_ne other

/-- Nothing changes such a directory any more. -/
theorem step_stuck (stuck : Stuck k d s) {a : Action} (done : s.step py a t) : Stuck k d t := by
  cases a with
  | create sessionId source inputCodec now =>
      obtain ⟨-, added⟩ := Option.ite_none_left_eq_some.mp done
      exact addCapture_stuck stuck added
  | frame i encodedBytes pcm => exact call_stuck (fun _ _ answer => recordDecodedFrame_dir answer) stuck done
  | decodeError i encodedBytes => exact call_stuck (fun _ _ answer => recordDecodeError_dir answer) stuck done
  | finalize i now => exact call_stuck (fun _ _ answer => finalize_dir answer) stuck done
  | rotate i now => exact call_stuck (fun _ _ answer => rotate_dir answer) stuck done
  | rotated i sessionId now =>
      obtain ⟨c, here, rest⟩ := Option.bind_eq_some_iff.mp done
      obtain ⟨-, added⟩ := Option.ite_none_left_eq_some.mp rest
      have settled : Stuck k d { s with live := s.live.set i { c with rotating := false } } := by
        refine ⟨stuck.found, stuck.progress, fun other member => ?_, stuck.recovery⟩
        rcases List.mem_or_eq_of_mem_set member with old | rfl
        · exact stuck.live other old
        · exact stuck.live c (List.mem_of_getElem? here)
      exact addCapture_stuck settled added
  | perform i =>
      obtain ⟨c, here, rest⟩ := Option.bind_eq_some_iff.mp done
      obtain ⟨-, same⟩ := Option.ite_none_left_eq_some.mp rest
      cases same
      have apart := stuck.live c (List.mem_of_getElem? here)
      refine ⟨(performAt_other apart c.program).trans stuck.found, stuck.progress, fun other member => ?_, stuck.recovery⟩
      rcases List.mem_or_eq_of_mem_set member with old | rfl
      · exact stuck.live other old
      · exact apart
  | die =>
      cases done
      exact ⟨stuck.found, stuck.progress, fun _ member => absurd member List.not_mem_nil, nofun⟩
  | recover =>
      obtain ⟨-, same⟩ := Option.ite_none_left_eq_some.mp done
      cases same
      refine ⟨stuck.found, stuck.progress, stuck.live, ?_⟩
      rintro _ ⟨⟩ more
      exact absurd rfl more
  | recoverNext endedAt =>
      obtain ⟨r, running, rest⟩ := Option.bind_eq_some_iff.mp done
      obtain ⟨-, rest⟩ := Option.ite_none_left_eq_some.mp rest
      split at rest
      · cases rest
      · rename_i dir remaining isRest
        obtain ⟨d', found, rfl⟩ := Option.map_eq_some_iff.mp rest
        split
        · refine ⟨stuck.found, stuck.progress, stuck.live, ?_⟩
          rintro _ ⟨⟩ more
          exact absurd rfl more
        · rename_i payload fine
          refine ⟨stuck.found, stuck.progress, stuck.live, ?_⟩
          rintro _ ⟨⟩ - same
          dsimp only at same
          subst same
          cases stuck.found.symm.trans found
          exact (recoverOne_parts fine).2 stuck.progress
  | recoverPerform =>
      obtain ⟨r, running, rest⟩ := Option.bind_eq_some_iff.mp done
      obtain ⟨more, same⟩ := Option.ite_none_left_eq_some.mp rest
      cases same
      have apart := stuck.recovery r running more
      refine ⟨(performAt_other apart r.program).trans stuck.found, stuck.progress, stuck.live, ?_⟩
      rintro _ ⟨⟩ -
      exact apart
  | recovered =>
      obtain ⟨r, running, rest⟩ := Option.bind_eq_some_iff.mp done
      obtain ⟨-, same⟩ := Option.ite_none_left_eq_some.mp rest
      cases same
      exact ⟨stuck.found, stuck.progress, stuck.live, nofun⟩

end Stuck

/-- Steps of recovery runs, also of ones that end early. -/
def World.recoveryStep (py : Python) (s : World) (a : Action) (t : World) : Prop :=
  s.step py a t ∧ match a with
    | .die | .recover | .recoverNext _ | .recoverPerform | .recovered => True
    | _ => False

/-- Every part that is left has no progress file, and no program runs. -/
structure Settled (s : World) : Prop where
  live : s.live = []
  parts : ∀ d ∈ s.dirs, d.pcmPart.isSome → d.metadataPart = none
  recovery : ∀ r, s.recovery = some r → r.program.todo = []

theorem recoveryStep_settled {py : Python} {s t : World} {a : Action} (settled : Settled s) (done : s.recoveryStep py a t) :
    Settled t ∧ t.dirs = s.dirs := by
  obtain ⟨done, kind⟩ := done
  cases a with
  | create _ _ _ _ => cases kind
  | frame _ _ _ => cases kind
  | decodeError _ _ => cases kind
  | finalize _ _ => cases kind
  | rotate _ _ => cases kind
  | rotated _ _ _ => cases kind
  | perform _ => cases kind
  | die =>
      cases done
      exact ⟨⟨rfl, settled.parts, nofun⟩, rfl⟩
  | recover =>
      obtain ⟨-, same⟩ := Option.ite_none_left_eq_some.mp done
      cases same
      refine ⟨⟨settled.live, settled.parts, ?_⟩, rfl⟩
      rintro _ ⟨⟩
      rfl
  | recoverNext endedAt =>
      obtain ⟨r, running, rest⟩ := Option.bind_eq_some_iff.mp done
      obtain ⟨-, rest⟩ := Option.ite_none_left_eq_some.mp rest
      split at rest
      · cases rest
      · obtain ⟨d, found, rfl⟩ := Option.map_eq_some_iff.mp rest
        split
        · refine ⟨⟨settled.live, settled.parts, ?_⟩, rfl⟩
          rintro _ ⟨⟩
          rfl
        · rename_i payload fine
          obtain ⟨part, progress⟩ := recoverOne_parts fine
          exact absurd (settled.parts d (List.mem_of_getElem? found) part) progress
  | recoverPerform =>
      obtain ⟨r, running, rest⟩ := Option.bind_eq_some_iff.mp done
      obtain ⟨more, -⟩ := Option.ite_none_left_eq_some.mp rest
      exact absurd (settled.recovery r running) more
  | recovered =>
      obtain ⟨r, running, rest⟩ := Option.bind_eq_some_iff.mp done
      obtain ⟨-, same⟩ := Option.ite_none_left_eq_some.mp rest
      cases same
      exact ⟨⟨settled.live, settled.parts, nofun⟩, rfl⟩

theorem filter_lt_succ {written : List (Nat × Bytes)} (sorted : written.Pairwise fun a b => a.1 ≤ b.1) (n : Nat) :
    written.filter (fun e => decide (e.1 < n + 1)) =
      written.filter (fun e => decide (e.1 < n)) ++ written.filter (fun e => decide (e.1 = n)) := by
  induction written with
  | nil => rfl
  | cons e rest ih =>
      obtain ⟨first, sorted⟩ := List.pairwise_cons.mp sorted
      have rest := ih sorted
      rcases Nat.lt_trichotomy e.1 n with less | same | more
      · rw [List.filter_cons_of_pos (by simp; omega), List.filter_cons_of_pos (by simpa using less),
          List.filter_cons_of_neg (by simp; omega), rest, List.cons_append]
      · have none : ∀ f ∈ ‹List (Nat × Bytes)›, decide (f.1 < n) ≠ true := by
          intro f member
          have := first f member
          simp only [ne_eq, decide_eq_true_eq]
          omega
        rw [List.filter_cons_of_pos (by simp; omega), List.filter_cons_of_neg (by simp; omega),
          List.filter_cons_of_pos (by simpa using same), rest, List.filter_eq_nil_iff.mpr none, List.nil_append, List.nil_append]
      · rw [List.filter_cons_of_neg (by simp; omega), List.filter_cons_of_neg (by simp; omega),
          List.filter_cons_of_neg (by simp; omega), rest]

/-- Frames that were written to one session after the other are in the order of the sessions. -/
theorem flatMap_framesOf {written : List (Nat × Bytes)} (sorted : written.Pairwise fun a b => a.1 ≤ b.1) (n : Nat) :
    (List.range n).flatMap (framesOf written) = (written.filter fun e => decide (e.1 < n)).flatMap Prod.snd := by
  induction n with
  | zero => simp
  | succ n ih =>
      rw [List.range_succ, List.flatMap_append, ih, filter_lt_succ sorted, List.flatMap_append, List.flatMap_cons,
        List.flatMap_nil, List.append_nil]
      rfl

/-- What the sessions have on disk as WAV files, in the order of their creation. -/
def World.audio (s : World) : Bytes := s.dirs.flatMap fun d => d.wav.getD []

theorem audio_eq {s : World} (each : ∀ k d, s.dirs[k]? = some d → d.wav.getD [] = framesOf s.written k) :
    s.audio = (List.range s.dirs.length).flatMap (framesOf s.written) := by
  unfold World.audio
  rw [List.flatMap_def, List.flatMap_def]
  congr 1
  apply List.ext_getElem (by simp)
  intro k inside _
  have bound : k < s.dirs.length := by simpa using inside
  rw [List.getElem_map, List.getElem_map, List.getElem_range]
  exact each k s.dirs[k] (List.getElem?_eq_getElem bound)

/-- Offline capture survives the end of the process. After a complete run of the recovery, in every run of captures,
deaths and earlier recoveries, the WAV files hold exactly the PCM of the frames whose write completed, session by session
(in the order of writing, when each session was written after the earlier ones); another recovery, also one that ends
early, changes no file; and a session whose recovery raises keeps its part from then on. -/
theorem capture_survives_crash {py : Python} {s : World} (reached : Reachable World.init (World.step py) s) :
    (∀ t, s.step py .recovered t →
      (∀ k d, t.dirs[k]? = some d → d.wav.getD [] = framesOf t.written k) ∧
      t.audio = (List.range t.dirs.length).flatMap (framesOf t.written) ∧
      (t.written.Pairwise (fun a b => a.1 ≤ b.1) → t.audio = t.written.flatMap Prod.snd) ∧
      ∀ u, Reaches (World.recoveryStep py) t u → u.dirs = t.dirs) ∧
    ∀ t r k rest d endedAt e, s.step py (.recoverNext endedAt) t → s.recovery = some r → r.rest = k :: rest →
      s.dirs[k]? = some d → recoverOne py d endedAt = .error e →
      t.dirs = s.dirs ∧ d.pcmPart = some (framesOf s.written k) ∧ ∀ u, Reaches (World.step py) t u → u.dirs[k]? = some d := by
  have ok := run_ok reached
  constructor
  · intro t done
    obtain ⟨r, running, rest⟩ := Option.bind_eq_some_iff.mp done
    obtain ⟨ended, same⟩ := Option.ite_none_left_eq_some.mp rest
    rw [not_or, not_not, not_not] at ended
    have before := ok.recovery r running
    cases same
    have left : ∀ (k : Nat) (d : SessionDir), s.dirs[k]? = some d → d.pcmPart.isSome → d.metadataPart = none := by
      intro k d found part
      rcases before.covers k d found part with waiting | ⟨-, working⟩ | none
      · rw [ended.2] at waiting
        exact absurd waiting List.not_mem_nil
      · exact absurd ended.1 working
      · exact none
    have each : ∀ k d, s.dirs[k]? = some d → d.wav.getD [] = framesOf s.written k := by
      intro k d found
      cases ok.dirs k d found with
      | made _ wav nothing => rw [wav, nothing, Option.getD_none]
      | opened _ _ wav nothing => rw [wav, nothing, Option.getD_none]
      | recording part _ =>
          obtain ⟨payload, here, -⟩ := part.progress
          have none := left k d found (by rw [part.part]; rfl)
          rw [here] at none
          cases none
      | published _ wav => rw [wav, Option.getD_some]
    have whole := audio_eq each
    refine ⟨each, whole, fun sorted => ?_, fun u later => ?_⟩
    · have all : s.written.filter (fun e => decide (e.1 < s.dirs.length)) = s.written := by
        apply List.filter_eq_self.mpr
        intro e member
        simpa using ok.inside e member
      exact (whole.trans (flatMap_framesOf sorted s.dirs.length)).trans (by rw [all])
    · have settled : Settled { s with recovery := none } := by
        refine ⟨before.alone, fun d member part => ?_, nofun⟩
        obtain ⟨k, found⟩ := List.mem_iff_getElem?.mp member
        exact left k d found part
      have both : Settled u ∧ u.dirs = s.dirs := by
        apply Reaches.stable (P := fun v => Settled v ∧ v.dirs = s.dirs) _ later ⟨settled, rfl⟩
        rintro v a w ⟨settled, same⟩ done
        obtain ⟨next, unchanged⟩ := recoveryStep_settled settled done
        exact ⟨next, unchanged.trans same⟩
      exact both.2
  · intro t r k rest d endedAt e done running isRest found raised
    have before := ok.recovery r running
    obtain ⟨idle, same⟩ : r.program.todo = [] ∧
        t = { s with recovery := some ⟨rest, k, run [], r.recovered, r.failed + 1⟩ } := by
      obtain ⟨r', running', moved⟩ := Option.bind_eq_some_iff.mp done
      cases running.symm.trans running'
      obtain ⟨idle, moved⟩ := Option.ite_none_left_eq_some.mp moved
      rw [isRest] at moved
      obtain ⟨d', found', moved⟩ := Option.map_eq_some_iff.mp moved
      cases found.symm.trans found'
      rw [raised] at moved
      exact ⟨not_not.mp idle, moved.symm⟩
    obtain ⟨d', found', part⟩ := before.left k (isRest ▸ List.mem_cons_self)
    cases found.symm.trans found'
    have progress := recoverOne_error ok found part raised
    have stuck : Stuck k d t := by
      rw [same]
      refine ⟨found, progress, fun c member => ?_, ?_⟩
      · rw [show s.live = [] from before.alone] at member
        exact absurd member List.not_mem_nil
      · rintro _ ⟨⟩ more
        exact absurd rfl more
    refine ⟨by rw [same], ?_, fun u later => ?_⟩
    · cases ok.dirs k d found with
      | made none _ _ =>
          rw [none] at part
          cases part
      | opened empty _ _ nothing => rw [empty, nothing]
      | recording kept _ => exact kept.part
      | published none _ =>
          rw [none] at part
          cases part
    · have still : Stuck k d u := Reaches.stable (P := Stuck k d) (fun v a w before done => step_stuck before done) later stuck
      exact still.found

/-! ## A run -/

def samplePython : Python := ⟨fun _ => 0, fun _ => "", fun _ => none, fun _ => "0.0"⟩

def sampleId : String := "00000000-0000-4000-8000-000000000001"

/-- The process has ended right after the first frame was written. -/
def crashed : World :=
  ⟨[⟨sampleId, some [1, 2], some (captureMetadata samplePython sampleId "t0" none "pcm16" "phone" ⟨0, 0, 0⟩ 0 "recording"),
    none, none⟩], [], none, [(0, [1, 2])]⟩

def recovering : World := { crashed with recovery := some ⟨[0], 0, run [], 0, 0⟩ }

def recoveredDir : SessionDir :=
  ⟨sampleId, none, none, some [1, 2],
    some (captureMetadata samplePython sampleId "t0" (some "t1") "pcm16" "phone" ⟨0, 0, 0⟩ 2 "recovered")⟩

theorem reachable_recovered : ∃ s, Reachable World.init (World.step samplePython) s ∧
    s.step samplePython .recovered ⟨[recoveredDir], [], none, [(0, [1, 2])]⟩ := by
  have start : Reachable World.init (World.step samplePython) ⟨[], [], none, []⟩ := .start ⟨rfl, rfl, rfl, rfl⟩
  have ended : Reachable World.init (World.step samplePython) crashed := by
    apply start.actions (f := World.act samplePython) (fun _ _ _ _ done => done)
    exact (rfl : List.foldlM (World.act samplePython) (⟨[], [], none, []⟩ : World)
      [.create sampleId "phone" "pcm16" "t0", .perform 0, .perform 0, .perform 0, .frame 0 2 [1, 2], .perform 0, .die] =
        some crashed)
  have begun : World.step samplePython crashed .recover recovering := by
    simp [World.step, World.act, crashed, recovering, World.partDirs, run]
  refine ⟨⟨[recoveredDir], [], some ⟨[], 0, ⟨[], []⟩, 1, 0⟩, [(0, [1, 2])]⟩, ?_, rfl⟩
  apply (ended.next begun).actions (f := World.act samplePython) (fun _ _ _ _ done => done)
  exact (rfl : List.foldlM (World.act samplePython) recovering (.recoverNext "t1" :: List.replicate 8 .recoverPerform) =
    some ⟨[recoveredDir], [], some ⟨[], 0, ⟨[], []⟩, 1, 0⟩, [(0, [1, 2])]⟩)

/-- The frame is in the WAV file of its session. -/
theorem capture_survives_crash_first_frame : ∃ s t, Reachable World.init (World.step samplePython) s ∧
    s.step samplePython .recovered t ∧ t.audio = [1, 2] ∧ ∀ u, Reaches (World.recoveryStep samplePython) t u → u.dirs = t.dirs := by
  obtain ⟨s, reached, done⟩ := reachable_recovered
  obtain ⟨-, -, order, again⟩ := (capture_survives_crash reached).1 _ done
  exact ⟨s, _, reached, done, order (List.pairwise_singleton _ _), again⟩

end OmiLocal.Offline
