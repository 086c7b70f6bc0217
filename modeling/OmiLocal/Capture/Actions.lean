import OmiLocal.Capture.Jobs

/-!
# Every action keeps the invariant

Calls from outside, termination at any point, recovery and delivery passes, and
from them the invariant of every run of the outbox.
-/
namespace OmiLocal.Capture
open Lib.Framing Lib.Json Lib.Transition

section Actions

variable {limits : Limits} {gone : Uuid → Prop} {parts : List Part} {p p' : Phone} {k : Nat}

theorem Inv.start_of_idle_queue (inv : Inv limits parts p) (empty : p.jobs = []) : p.stage = .start := by
  by_contra busy
  obtain ⟨job, rest, _, _, jobs, _⟩ := inv.running busy
  rw [empty] at jobs
  cases jobs

/-- A job joins the end of the queue. -/
theorem Inv.enqueue (inv : Inv limits parts p) {job : Job} (ok : JobOk p.recordings job) (open_ : p.recovery = none) :
    Inv limits parts { p with jobs := p.jobs ++ [job] } := by
  refine ⟨inv.ledger, inv.files, inv.distinct, inv.recordings, fun j r found quiet => ?_, fun job' member => ?_,
    fun busy => ?_, fun recovery here => ?_, inv.drain⟩
  · refine inv.idle j r found ?_
    by_cases start : p.stage = .start
    · exact .inl start
    · have := quiet.resolve_left start
      cases jobs : p.jobs with
      | nil => exact absurd (inv.start_of_idle_queue jobs) start
      | cons first others =>
          dsimp only at this
          rw [jobs] at this
          exact .inr this
  · rcases List.mem_append.mp member with old | new
    · exact inv.jobs job' old
    · rw [List.mem_singleton.mp new]
      exact ok
  · obtain ⟨first, rest, k, r, jobs, on, found, here⟩ := inv.running busy
    exact ⟨first, rest ++ [job], k, r, by dsimp only; rw [jobs]; rfl, on, found, here⟩
  · dsimp only at here
    rw [open_] at here
    cases here

theorem Inv.recovered (inv : Inv limits parts p) {r : Recording} (found : p.recordings[k]? = some r) :
    p.recovery = none := by
  cases h : p.recovery with
  | none => rfl
  | some recovery =>
      rw [(inv.recovery recovery h).recordings] at found
      cases found

theorem begin_step (inv : Inv limits parts p) {recordingId : Uuid} {source : Source} {codec : Codec} {serverId : Digest}
    (begun : begin p recordingId source codec serverId = some p') : Step limits gone parts p p' := by
  unfold begin at begun
  split at begun
  · rename_i guard
    obtain ⟨open_, format, new⟩ := guard
    cases begun
    have nobody : ∀ q ∈ parts, q.recordingId ≠ recordingId := fun q hq same =>
      new (same ▸ (inv.ledger.known q hq).2)
    have log : logOf p.persisted recordingId = [] := by
      rw [inv.ledger.persisted]
      exact freshOf_eq_nil nobody
    refine ⟨parts, ⟨inv.ledger.issue recordingId, inv.files, ?_, ?_, ?_, ?_, ?_, ?_, inv.drain⟩, Moves.same _ _⟩
    · rw [List.map_append, List.nodup_append]
      refine ⟨inv.distinct, List.nodup_singleton _, fun a ha b hb same => new ?_⟩
      obtain ⟨r, hr, rfl⟩ := List.mem_map.mp ha
      obtain ⟨j, here⟩ := List.mem_iff_getElem?.mp hr
      have : b = recordingId := List.mem_singleton.mp hb
      exact this ▸ same ▸ (inv.recordings j r here).known
    · intro j r found
      rw [List.getElem?_append] at found
      split at found
      · have ok := inv.recordings j r found
        exact { ok with known := List.mem_append_left _ ok.known }
      · have : r = _ := List.mem_singleton.mp (List.mem_of_getElem? found)
        subst this
        refine ⟨by simp, format, fun q hq same => absurd same (nobody q hq), fun q hq same => absurd same (nobody q hq),
          fun _ => rfl, fun _ => ?_⟩
        rw [log]
        exact LocalOpusPreroll.holds_empty
    · intro j r found quiet
      rw [List.getElem?_append] at found
      split at found
      · exact inv.idle j r found quiet
      · have : r = _ := List.mem_singleton.mp (List.mem_of_getElem? found)
        subst this
        exact .inr ⟨fun q hq same => absurd same (nobody q hq), .inl rfl⟩
    · intro job member j payload duration now isAdd
      obtain ⟨r, found, rest⟩ := inv.jobs job member j payload duration now isAdd
      exact ⟨r, by rw [List.getElem?_append_left (List.getElem?_eq_some_iff.mp found).1]; exact found, rest⟩
    · intro busy
      obtain ⟨job, rest, k, r, jobs, on, found, here⟩ := inv.running busy
      refine ⟨job, rest, k, r, jobs, on, ?_, ?_⟩
      · rw [List.getElem?_append_left (List.getElem?_eq_some_iff.mp found).1]
        exact found
      · exact here.issue recordingId
    · intro recovery here
      dsimp only at here
      rw [Option.isNone_iff_eq_none.mp open_] at here
      cases here
  · cases begun

theorem add_step (inv : Inv limits parts p) {payload : Packet} {now : DateTime}
    (added : add limits p k payload now = some p') : Step limits gone parts p p' := by
  unfold add at added
  split at added
  · cases added
  · rename_i r found
    split at added
    · cases added
    · rename_i accepted
      simp only [not_or, not_lt, gt_iff_lt] at accepted
      split at added
      · cases added
      · rename_i duration timed
        cases added
        have ok : JobOk p.recordings (.add k payload duration now) := by
          intro k' payload' duration' now' same
          cases same
          exact ⟨r, found, ⟨accepted.2.1, accepted.2.2.1⟩, timed⟩
        have next := inv.enqueue ok (inv.recovered found)
        refine ⟨parts, ⟨next.ledger, next.files, next.distinct, next.recordings, next.idle, next.jobs, next.running,
          fun recovery here => ?_, next.drain⟩, Moves.same _ _⟩
        exact absurd (here.symm.trans (inv.recovered found)) (by simp)

theorem jobOk_of_ne {recordings : List Recording} {job : Job} (other : job.payload = none) : JobOk recordings job := by
  intro k payload duration now isAdd
  rw [isAdd] at other
  cases other

theorem checkpoint_step (inv : Inv limits parts p) (asked : checkpoint p k = some p') : Step limits gone parts p p' := by
  unfold checkpoint at asked
  split at asked
  · cases asked
  · rename_i r found
    cases asked
    exact ⟨parts, inv.enqueue (jobOk_of_ne rfl) (inv.recovered found), Moves.same _ _⟩

/-- The flags that `stop` sets matter to nothing in the invariant. -/
theorem Inv.setFlags (inv : Inv limits parts p) {r : Recording} (found : p.recordings[k]? = some r)
    (closed stopping : Bool) :
    Inv limits parts (setRecording p k { r with closed := closed, stopping := stopping }) := by
  obtain ⟨bound, isR⟩ := List.getElem?_eq_some_iff.mp found
  have lookup : ∀ j : Nat, (p.recordings.set k { r with closed := closed, stopping := stopping })[j]? =
      if j = k then some { r with closed := closed, stopping := stopping } else p.recordings[j]? := by
    intro j
    rw [List.getElem?_set]
    by_cases same : j = k
    · subst same
      simp [bound]
    · rw [if_neg (Ne.symm same), if_neg same]
  have back : ∀ (j : Nat) (s : Recording), (p.recordings.set k { r with closed := closed, stopping := stopping })[j]? = some s →
      ∃ s', p.recordings[j]? = some s' ∧ (s = s' ∨ s = { s' with closed := closed, stopping := stopping }) := by
    intro j s here
    rw [lookup] at here
    by_cases same : j = k
    · rw [if_pos same] at here
      cases here
      exact ⟨r, by rw [same]; exact found, .inr rfl⟩
    · rw [if_neg same] at here
      exact ⟨s, here, .inl rfl⟩
  refine ⟨inv.ledger, inv.files, ?_, ?_, ?_, ?_, ?_, ?_, inv.drain⟩
  · have same : (p.recordings.set k { r with closed := closed, stopping := stopping }).map Recording.recordingId =
        p.recordings.map Recording.recordingId := by
      refine List.ext_getElem? fun j => ?_
      rw [List.getElem?_map, lookup, List.getElem?_map]
      by_cases here : j = k
      · rw [if_pos here, here, found]
        rfl
      · rw [if_neg here]
    exact same ▸ inv.distinct
  · intro j s here
    obtain ⟨s', old, rfl | rfl⟩ := back j s here
    · exact inv.recordings j s old
    · exact (inv.recordings j s' old).update rfl rfl rfl le_rfl rfl
  · intro j s here quiet
    obtain ⟨s', old, rfl | rfl⟩ := back j s here
    · exact inv.idle j s old quiet
    · exact (inv.idle j s' old quiet).flags closed stopping
  · intro job member j payload duration now isAdd
    obtain ⟨s, old, small, timed⟩ := inv.jobs job member j payload duration now isAdd
    simp only [setRecording, lookup]
    by_cases same : j = k
    · rw [same, found] at old
      cases old
      exact ⟨_, if_pos same, small, timed⟩
    · exact ⟨s, by rw [if_neg same]; exact old, small, timed⟩
  · intro busy
    obtain ⟨job, rest, j, s, jobs, on, old, here⟩ := inv.running busy
    simp only [setRecording, lookup]
    by_cases same : j = k
    · rw [same, found] at old
      cases old
      exact ⟨job, rest, j, _, jobs, on, if_pos same, here.flags closed stopping⟩
    · exact ⟨job, rest, j, s, jobs, on, by rw [if_neg same]; exact old, here⟩
  · intro recovery here
    rw [(inv.recovery recovery here).recordings] at found
    cases found

theorem stop_step (inv : Inv limits parts p) (asked : stop p k = some p') : Step limits gone parts p p' := by
  unfold stop at asked
  split at asked
  · cases asked
  · rename_i r found
    split at asked <;> cases asked
    · exact ⟨parts, inv, Moves.same _ _⟩
    · exact ⟨parts, (inv.setFlags found true true).enqueue (jobOk_of_ne rfl) (inv.recovered found), Moves.same _ _⟩

theorem work_step {io : WorkIo} (inv : Inv limits parts p) (worked : work limits io p = some p') :
    Step limits (fun _ => False) parts p p' := by
  unfold work at worked
  split at worked
  · cases worked
  · rename_i rest jobs
    cases worked
    have start : p.stage = .start := by
      by_contra busy
      obtain ⟨job, rest', k, r, jobs', on, -⟩ := inv.running busy
      rw [jobs] at jobs'
      cases jobs'
      cases on
    have tail : p.jobs.tail = rest := by rw [jobs]; rfl
    refine ⟨parts, ⟨inv.ledger, inv.files, inv.distinct, inv.recordings, fun j r found _ => inv.idle j r found (.inl start),
      fun job member => inv.jobs job ?_, fun busy => absurd rfl busy, fun recovery here => ?_, fun drain here => (by cases here)⟩,
      Moves.same _ _⟩
    · exact List.mem_of_mem_tail member
    · have := (inv.recovery recovery here).jobs
      rw [jobs] at this
      cases this
  · rename_i jobs
    split at worked
    · cases worked
    · rename_i found
      exact workAdd_step inv jobs found worked
  · rename_i jobs
    split at worked
    · cases worked
    · rename_i found
      exact workCheckpoint_step inv jobs found worked
  · rename_i jobs
    split at worked
    · cases worked
    · rename_i found
      exact workStop_step inv jobs found worked

/-! ## Termination and recovery -/

/-- Before the outbox is open there are only files. -/
theorem Inv.closed {parts' : List Part} (ledger : Ledger limits parts' p'.issued p'.persisted p'.begun)
    (files : FilesOk parts' p'.files) (recordings : p'.recordings = []) (jobs : p'.jobs = []) (drain : p'.drain = none)
    (start : p'.stage = .start) (recovery : ∀ recovery, p'.recovery = some recovery → RecoveryOk parts' p' recovery) :
    Inv limits parts' p' := by
  have nobody : ∀ (j : Nat) (r : Recording), p'.recordings[j]? ≠ some r := by
    intro j r
    rw [recordings]
    exact nofun
  refine ⟨ledger, files, by rw [recordings]; exact List.nodup_nil, fun j r found => absurd found (nobody j r),
    fun j r found _ => absurd found (nobody j r), ?_, fun busy => absurd start busy, recovery, ?_⟩
  · rw [jobs]
    exact fun _ h => (by cases h)
  · intro d here
    rw [drain] at here
    cases here

theorem terminate_step (inv : Inv limits parts p) : Step limits gone parts p (terminate p) := by
  refine ⟨parts, Inv.closed inv.ledger inv.files rfl rfl rfl rfl ?_, Moves.same _ _⟩
  intro recovery here
  cases here
  refine ⟨rfl, rfl, rfl, ?_, fun id member f hf same => ?_, nofun⟩
  · exact (inv.files.ids.sublist (List.filter_sublist.map _))
  · obtain ⟨f', member', rfl⟩ := List.mem_map.mp member
    obtain ⟨old, unsealed⟩ := List.mem_filter.mp member'
    rw [eq_of_file_id inv.files.ids hf old same]
    simpa using unsealed

theorem findFile_some {files : List PartFile} {id : Uuid} {f : PartFile} (found : findFile files id = some f) :
    f ∈ files ∧ f.id = id :=
  ⟨List.mem_of_find?_eq_some found, by simpa using List.find?_some found⟩

theorem recover_step {fails : Bool} (inv : Inv limits parts p) (recovered : recover fails p = some p') :
    Step limits gone parts p p' := by
  unfold recover at recovered
  split at recovered
  · cases recovered
  · rename_i rest id here
    have ok := inv.recovery _ here
    have start := inv.start_of_idle_queue ok.jobs
    obtain ⟨q, hq, qid, content, there, done⟩ := ok.cut id rfl
    cases recovered
    by_cases failed : fails = true
    · simp only [failed, if_true]
      refine ⟨parts, Inv.closed inv.ledger inv.files ok.recordings ok.jobs ok.drain start ?_, Moves.same _ _⟩
      intro recovery same
      cases same
      exact ⟨ok.recordings, ok.jobs, ok.drain, (List.nodup_cons.mp ok.nodup).2, ok.rest, nofun⟩
    · simp only [if_neg failed]
      refine ⟨parts, Inv.closed inv.ledger ?_ ok.recordings ok.jobs ok.drain start ?_, ?_⟩
      · refine inv.files.change (fun _ => rfl) (fun _ h _ => h) fun f hf same => ?_
        obtain rfl := eq_of_file_id inv.files.ids hf there same
        exact ⟨q, hq, qid, fun h => (by cases h), fun _ => done⟩
      · intro recovery same
        cases same
        refine ⟨ok.recordings, ok.jobs, ok.drain, (List.nodup_cons.mp ok.nodup).2, fun other member f hf same => ?_, nofun⟩
        obtain ⟨f', old, rfl⟩ := mem_changeFile.mp hf
        by_cases mine : f'.id = id
        · rw [if_pos mine] at same
          exact absurd (mine.symm.trans same ▸ member) (List.nodup_cons.mp ok.nodup).1
        · rw [if_neg mine] at same ⊢
          exact ok.rest other member f' old same
      · exact Moves.change (fun _ => rfl) there rfl rfl (fun _ h _ => h) (fun q h => ⟨q, h, rfl⟩)
  · rename_i here
    have ok := inv.recovery _ here
    cases recovered
    refine ⟨parts, Inv.closed inv.ledger inv.files ok.recordings ok.jobs ok.drain (inv.start_of_idle_queue ok.jobs) ?_,
      Moves.same _ _⟩
    exact fun _ same => (by cases same)
  · rename_i id rest here
    have ok := inv.recovery _ here
    have start := inv.start_of_idle_queue ok.jobs
    have nodup := List.nodup_cons.mp (show (id :: rest).Nodup from ok.nodup)
    have skipped : Step limits gone parts p { p with recovery := some ⟨rest, none⟩ } := by
      refine ⟨parts, Inv.closed inv.ledger inv.files ok.recordings ok.jobs ok.drain start ?_, Moves.same _ _⟩
      intro recovery same
      cases same
      exact ⟨ok.recordings, ok.jobs, ok.drain, nodup.2, fun other h => ok.rest other (List.mem_cons_of_mem _ h), nofun⟩
    dsimp only at recovered
    split at recovered
    · cases recovered
      exact skipped
    · rename_i f found
      obtain ⟨member, isId⟩ := findFile_some found
      split at recovered
      · cases recovered
        exact skipped
      · cases recovered
        exact skipped
      · rename_i position at_
        split at recovered
        · cases recovered
          exact skipped
        · cases recovered
          have unsealed := ok.rest id List.mem_cons_self f member isId
          obtain ⟨q, hq, qid, content, -⟩ := inv.files.held f member
          obtain ⟨before, partOk⟩ := inv.ledger.part_ok hq
          have done := recover_sealed partOk (content unsealed) at_
          refine ⟨parts, Inv.closed inv.ledger ?_ ok.recordings ok.jobs ok.drain start ?_, ?_⟩
          · refine inv.files.change (fun _ => rfl) (fun _ h _ => h) fun f' hf same => ?_
            obtain rfl := eq_of_file_id inv.files.ids hf member (same.trans isId.symm)
            refine ⟨q, hq, qid.trans isId, fun _ => done.content, fun h => ?_⟩
            rw [show f'.ready = true from h] at unsealed
            cases unsealed
          · intro recovery same
            cases same
            refine ⟨ok.recordings, ok.jobs, ok.drain, ok.nodup, fun other h f' hf same => ?_, fun id' isCut => ?_⟩
            · obtain ⟨f'', old, rfl⟩ := mem_changeFile.mp hf
              have := ok.rest other (List.mem_cons_of_mem _ h) f''
              by_cases mine : f''.id = id
              · rw [if_pos mine] at same ⊢
                exact this old same
              · rw [if_neg mine] at same ⊢
                exact this old same
            · cases isCut
              refine ⟨q, hq, qid.trans isId, f.content.take position, ?_, done⟩
              rw [show (⟨id, false, f.content.take position⟩ : PartFile) = { f with content := f.content.take position } by
                rw [← isId, ← unsealed]]
              apply mem_changeFile_of_mem member isId
          · exact Moves.change (fun _ => rfl) member isId unsealed (fun _ h _ => h) (fun q h => ⟨q, h, rfl⟩)

/-! ## Delivery -/

/-- A step that only moves the delivery pass. -/
theorem Inv.withDrain (inv : Inv limits parts p) (open_ : p.recovery = none) {drain : Option Drain}
    (ok : ∀ d, drain = some d → DrainOk parts p.files d) : Inv limits parts { p with drain := drain } := by
  refine ⟨inv.ledger, inv.files, inv.distinct, inv.recordings, inv.idle, inv.jobs, inv.running, fun recovery here => ?_, ok⟩
  exact absurd (here.symm.trans open_) (by simp)

theorem Inv.draining (inv : Inv limits parts p) {d : Drain} (draining : p.drain = some d) : p.recovery = none := by
  cases h : p.recovery with
  | none => rfl
  | some recovery =>
      rw [(inv.recovery recovery h).drain] at draining
      cases draining

theorem startDrain_step (inv : Inv limits parts p) (started : startDrain p = some p') : Step limits gone parts p p' := by
  unfold startDrain at started
  split at started
  · cases started
  · split at started
    · cases started
    · rename_i open_
      cases started
      refine ⟨parts, inv.withDrain (by simpa using open_) fun d same => ?_, Moves.same _ _⟩
      cases same
      refine ⟨fun id member => ?_, nofun⟩
      obtain ⟨f, hf, rfl⟩ := List.mem_map.mp member
      obtain ⟨old, sealed_⟩ := List.mem_filter.mp hf
      obtain ⟨q, hq, qid, -⟩ := inv.files.held f old
      refine ⟨q, hq, qid, fun f' hf' same => ?_⟩
      rw [eq_of_file_id inv.files.ids hf' old same]
      exact sealed_

theorem readPart_step {fails : Bool} (inv : Inv limits parts p) (done : readPart fails p = some p') :
    Step limits gone parts p p' := by
  unfold readPart at done
  split at done
  · rename_i id rest here
    have ok := inv.drain _ here
    have open_ := inv.draining here
    have skipped : Step limits gone parts p { p with drain := some ⟨rest, none, false⟩ } := by
      refine ⟨parts, inv.withDrain open_ fun d same => ?_, Moves.same _ _⟩
      cases same
      exact ⟨fun other h => ok.rest other (List.mem_cons_of_mem _ h), nofun⟩
    dsimp only at done
    split at done
    · cases done
      exact skipped
    · rename_i f found
      obtain ⟨member, isId⟩ := findFile_some found
      split at done
      · cases done
        exact skipped
      · split at done
        · cases done
          exact skipped
        · cases done
          refine ⟨parts, inv.withDrain open_ fun d same => ?_, Moves.same _ _⟩
          cases same
          refine ⟨fun other h => ok.rest other (List.mem_cons_of_mem _ h), fun id' body same => ?_⟩
          cases same
          obtain ⟨q, hq, qid, all⟩ := ok.rest id List.mem_cons_self
          have sealed_ := all f member isId
          obtain ⟨q', hq', qid', -, held⟩ := inv.files.held f member
          obtain rfl := inv.ledger.eq_of_id hq hq' (qid.trans (isId.symm.trans qid'.symm))
          refine ⟨q, hq, qid, held sealed_, fun f' hf' same => ?_⟩
          rw [eq_of_file_id inv.files.ids hf' member (same.trans isId.symm)]
          exact ⟨sealed_, rfl⟩
  · cases done

theorem abandon_step (inv : Inv limits parts p) (done : abandon p = some p') : Step limits gone parts p p' := by
  unfold abandon at done
  split at done
  · rename_i rest _ here
    cases done
    refine ⟨parts, inv.withDrain (inv.draining here) fun d same => ?_, Moves.same _ _⟩
    cases same
    exact ⟨(inv.drain _ here).rest, nofun⟩
  · cases done

theorem endDrain_step (inv : Inv limits parts p) (done : endDrain p = some p') : Step limits gone parts p p' := by
  unfold endDrain at done
  split at done
  · rename_i here
    cases done
    have open_ := inv.draining here
    have next : Inv limits parts { p with drain := some ⟨[], none, true⟩ } := by
      apply inv.withDrain open_
      rintro d ⟨⟩
      exact ⟨nofun, nofun⟩
    exact ⟨parts, next.enqueue (jobOk_of_ne rfl) open_, Moves.same _ _⟩
  · cases done

/-- The file that an acknowledged upload deletes. -/
def Acknowledged (sha256 : Bytes → String) (p : Phone) (a : PhoneAction) (id : Uuid) : Prop :=
  ∃ text digest rest body fields preroll start, a = .acknowledge text digest ∧
    p.drain = some ⟨rest, some (id, body), false⟩ ∧ header body = .ok (fields, preroll, start) ∧
    strField "id" fields = some text ∧ digest = sha256 body

theorem acknowledge_step {sha256 : Bytes → String} {text digest : String} (inv : Inv limits parts p)
    (done : acknowledge sha256 p text digest = some p') :
    Step limits (Acknowledged sha256 p (.acknowledge text digest)) parts p p' := by
  unfold acknowledge at done
  split at done
  · rename_i rest file body here
    have ok := inv.drain _ here
    have open_ := inv.draining here
    have passed : ∀ d, some (⟨rest, none, false⟩ : Drain) = some d → DrainOk parts p.files d := by
      intro d same
      cases same
      exact ⟨ok.rest, nofun⟩
    have skipped : Step limits (Acknowledged sha256 p (.acknowledge text digest)) parts p
        { p with drain := some ⟨rest, none, false⟩ } := ⟨parts, inv.withDrain open_ passed, Moves.same _ _⟩
    dsimp only at done
    split at done
    · cases done
      exact skipped
    · rename_i fields preroll start read
      split at done
      · rename_i agreed
        cases done
        obtain ⟨q, hq, qid, -, all⟩ := ok.current file body rfl
        have kept : ∀ f ∈ p.files, f.ready = false → f ∈ deleteFile p.files file := by
          intro f hf unsealed
          refine List.mem_filter.mpr ⟨hf, ?_⟩
          simp only [ne_eq, decide_not, Bool.not_eq_true', decide_eq_false_iff_not]
          intro same
          rw [(all f hf same).1] at unsealed
          cases unsealed
        have fewer : ∀ f ∈ deleteFile p.files file, f ∈ p.files := fun f h => (List.mem_filter.mp h).1
        have moves : Moves (Acknowledged sha256 p (.acknowledge text digest)) parts p.files parts
            (deleteFile p.files file) := by
          refine ⟨fun _ h _ => h, fun q' hq' => ?_, fun f hf => .inl (fewer f hf)⟩
          by_cases mine : q'.id = file
          · exact .inr (.inl ⟨text, digest, rest, body, fields, preroll, start, rfl, mine ▸ here, read, agreed.1, agreed.2⟩)
          · by_cases there : ∃ f ∈ p.files, f.id = q'.id
            · obtain ⟨f, hf, same⟩ := there
              refine .inl ⟨f, List.mem_filter.mpr ⟨hf, ?_⟩, same⟩
              simpa using same ▸ mine
            · exact .inr (.inr ⟨⟨q', hq', rfl⟩, fun f hf same => there ⟨f, hf, same⟩⟩)
        refine ⟨parts, ⟨inv.ledger, ⟨inv.files.ids.sublist (List.filter_sublist.map _), fun f hf =>
          inv.files.held f (fewer f hf)⟩, inv.distinct, inv.recordings, fun j r found quiet =>
          (inv.idle j r found quiet).onFiles kept, inv.jobs, fun busy => ?_, fun recovery same => ?_, fun d same => ?_⟩, moves⟩
        · obtain ⟨job, others, k, r, jobs, on, found, at_⟩ := inv.running busy
          exact ⟨job, others, k, r, jobs, on, found, at_.onFiles kept⟩
        · exact absurd (same.symm.trans open_) (by simp)
        · exact (passed d same).moves moves
      · cases done
        exact skipped
  · cases done

theorem Moves.mono {gone' : Uuid → Prop} {files : List PartFile} {parts' : List Part} {files' : List PartFile}
    (less : ∀ id, gone id → gone' id) (moves : Moves gone parts files parts' files') :
    Moves gone' parts files parts' files' := by
  refine ⟨moves.settled, fun q hq => ?_, moves.fixed⟩
  rcases moves.present q hq with there | away | old
  · exact .inl there
  · exact .inr (.inl (less _ away))
  · exact .inr (.inr old)

theorem perform_step {sha256 : Bytes → String} {a : PhoneAction} (inv : Inv limits parts p)
    (done : perform limits sha256 p a = some p') : Step limits (Acknowledged sha256 p a) parts p p' := by
  cases a with
  | begin recordingId source codec serverId => exact begin_step inv done
  | add k payload now => exact add_step inv done
  | checkpoint k => exact checkpoint_step inv done
  | stop k => exact stop_step inv done
  | work io =>
      obtain ⟨parts', next, moves⟩ := work_step inv done
      exact ⟨parts', next, moves.mono fun _ h => h.elim⟩
  | terminate =>
      cases done
      exact terminate_step inv
  | recover fails => exact recover_step inv done
  | startDrain => exact startDrain_step inv done
  | readPart fails => exact readPart_step inv done
  | abandon => exact abandon_step inv done
  | acknowledge text digest => exact acknowledge_step inv done
  | endDrain => exact endDrain_step inv done

end Actions

/-! ## Runs of the phone -/

def phoneStep (limits : Limits) (sha256 : Bytes → String) (p : Phone) (a : PhoneAction) (p' : Phone) : Prop :=
  perform limits sha256 p a = some p'

theorem newPhone_inv (limits : Limits) : Inv limits [] newPhone := by
  refine Inv.closed ⟨List.nodup_nil, nofun, List.Pairwise.nil, fun _ => rfl, fun _ => rfl, fun front q h => ?_⟩
    ⟨List.nodup_nil, nofun⟩ rfl rfl rfl rfl fun recovery same => ?_
  · have := h.length_le
    simp at this
  · cases same
    exact ⟨rfl, rfl, rfl, List.nodup_nil, nofun, nofun⟩

theorem phone_run {limits : Limits} {sha256 : Bytes → String} {p : Phone}
    (run : Reachable (· = newPhone) (phoneStep limits sha256) p) : ∃ parts, Inv limits parts p := by
  refine run.invariant (I := fun p => ∃ parts, Inv limits parts p) ?_ ?_
  · rintro p rfl
    exact ⟨[], newPhone_inv limits⟩
  · rintro p a p' ⟨parts, inv⟩ done
    obtain ⟨parts', next, -⟩ := perform_step inv done
    exact ⟨parts', next⟩

end OmiLocal.Capture
