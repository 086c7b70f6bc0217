import OmiLocal.Pipeline.Execute

/-!
# What the checkpoints keep

However many attempts on a recording are cut off and wherever: no attempt asks
for what a checkpoint holds, a checkpoint never changes, no status promises a
checkpoint that is missing, and all attempts that come to an end have one result.
-/
namespace OmiLocal.Pipeline.Stages

open Lib Lib.Resumable
open Lib.Json (Value field strField)
open Lib.Text (strip strip_strip)

/-! ## Checkpoints -/

/-- The answer that is kept for a request. -/
def Folder.kept (f : Folder) (digest : String) : Option (String × Value) := f.summaries.find? fun e => e.1 == digest

def Folder.done (f : Folder) : Stage → Bool
  | .stt => f.asr.isSome
  | .diarization => f.diarized.isSome
  | .summary => f.summary.isSome

/-- What is stored stays as it is; only the statuses move on. -/
structure Grows (f g : Folder) : Prop where
  asr : ∀ raw, f.asr = some raw → g.asr = some raw
  diarized : ∀ raw, f.diarized = some raw → g.diarized = some raw
  summary : ∀ value, f.summary = some value → g.summary = some value
  kept : ∀ digest entry, f.kept digest = some entry → g.kept digest = some entry
  audio : ∀ finished, f.audio = some finished → g.audio = some finished

theorem Grows.refl (f : Folder) : Grows f f :=
  ⟨fun _ h => h, fun _ h => h, fun _ h => h, fun _ _ h => h, fun _ h => h⟩

theorem Grows.trans {f g k : Folder} (first : Grows f g) (later : Grows g k) : Grows f k where
  asr raw held := later.asr raw (first.asr raw held)
  diarized raw held := later.diarized raw (first.diarized raw held)
  summary value held := later.summary value (first.summary value held)
  kept digest entry held := later.kept digest entry (first.kept digest entry held)
  audio finished held := later.audio finished (first.audio finished held)

theorem Grows.status (f : Folder) (pr : Processing) : Grows f { f with processing := some pr } :=
  ⟨fun _ h => h, fun _ h => h, fun _ h => h, fun _ _ h => h, fun _ h => h⟩

theorem Grows.done {f g : Folder} (grows : Grows f g) {name : Stage} (done : f.done name = true) :
    g.done name = true := by
  cases name with
  | stt =>
      obtain ⟨raw, held⟩ := Option.isSome_iff_exists.mp done
      exact Option.isSome_iff_exists.mpr ⟨raw, grows.asr raw held⟩
  | diarization =>
      obtain ⟨raw, held⟩ := Option.isSome_iff_exists.mp done
      exact Option.isSome_iff_exists.mpr ⟨raw, grows.diarized raw held⟩
  | summary =>
      obtain ⟨value, held⟩ := Option.isSome_iff_exists.mp done
      exact Option.isSome_iff_exists.mpr ⟨value, grows.summary value held⟩

/-! ## Statuses -/

/-- What the statuses promise. -/
structure Truthful (f : Folder) (pr : Processing) : Prop where
  ready : ∀ name, (pr.record name).status = .ready → f.done name = true
  silent : ∀ name, (pr.record name).status = .noSpeech → ∃ raw, f.asr = some raw ∧ raw.outcome = some "no_speech"

def StageRecord.settled (r : StageRecord) : Prop := r.status = .ready ∨ r.status = .disabled ∨ r.status = .noSpeech

/-- No stage is left to do. -/
def Settled (pr : Processing) : Prop := ∀ name, (pr.record name).settled

theorem record_mark (pr : Processing) (name other : Stage) (status : StageStatus) :
    ((pr.mark name status).record other).status = if other = name then status else (pr.record other).status := by
  cases name <;> cases other <;> rfl

theorem record_silence (pr : Processing) (name : Stage) : pr.silence.record name = (pr.record name).silence := by
  cases name <;> rfl

theorem Truthful.grown {f g : Folder} {pr : Processing} (truthful : Truthful f pr) (grows : Grows f g) :
    Truthful g pr where
  ready name ready := grows.done (truthful.ready name ready)
  silent name silent := by
    obtain ⟨raw, held, none_⟩ := truthful.silent name silent
    exact ⟨raw, grows.asr raw held, none_⟩

theorem Truthful.mark {f : Folder} {pr : Processing} (truthful : Truthful f pr) {name : Stage} {status : StageStatus}
    (ready : status = .ready → f.done name = true) (spoken : status ≠ .noSpeech) : Truthful f (pr.mark name status) where
  ready other marked := by
    rw [record_mark] at marked
    split at marked
    · rename_i same
      exact same ▸ ready marked
    · exact truthful.ready other marked
  silent other marked := by
    rw [record_mark] at marked
    split at marked
    · exact absurd marked spoken
    · exact truthful.silent other marked

theorem Truthful.begun {f : Folder} {pr : Processing} (truthful : Truthful f pr) (name : Stage) :
    Truthful f (pr.mark name .processing) :=
  truthful.mark (fun other => nomatch other) (fun other => nomatch other)

theorem Truthful.silence {f : Folder} {pr : Processing} {raw : Raw} (held : f.asr = some raw)
    (silent : raw.outcome = some "no_speech") : Truthful f pr.silence where
  ready name ready := by
    rw [record_silence, StageRecord.silence] at ready
    split at ready
    · rename_i disabled
      rw [disabled] at ready
      cases ready
    · cases ready
  silent _ _ := ⟨raw, held, silent⟩

theorem settled_silence (pr : Processing) : Settled pr.silence := by
  intro name
  rw [record_silence, StageRecord.silence]
  split
  · rename_i disabled
    exact .inr (.inl disabled)
  · exact .inr (.inr rfl)

theorem Engine.status_processing (e : Engine) (name : Stage) :
    (e.processing.record name).status = .pending ∨ (e.processing.record name).status = .disabled := by
  have each (provider : Option Chosen) :
      (stageRecord provider).status = .pending ∨ (stageRecord provider).status = .disabled := by
    cases provider with
    | none => exact .inr rfl
    | some chosen => exact .inl rfl
  cases name with
  | stt => exact each e.stt
  | diarization => exact each (e.diarization.map Diarizer.toChosen)
  | summary => exact each (e.summary.map Summarizer.toChosen)

theorem Engine.truthful (e : Engine) (f : Folder) : Truthful f e.processing where
  ready name ready := by
    rcases e.status_processing name with status | status <;> cases status.symm.trans ready
  silent name silent := by
    rcases e.status_processing name with status | status <;> cases status.symm.trans silent

/-! ## Folders -/

/-- The speakers of a transcript come from one diarization of it. -/
def Voiced (raw diarized : Raw) : Prop := diarized = raw ∨ ∃ turns speakers, raw.diarizedBy turns speakers = .ok diarized

/-- A diarization of the folder's own transcript. -/
def Folder.Voices (f : Folder) (diarized : Raw) : Prop := ∃ raw, f.asr = some raw ∧ Voiced raw diarized

/-- A kept answer gives this summary. -/
def Folder.Answers (f : Folder) (summary : Summary) : Prop :=
  ∃ digest entry, f.kept digest = some entry ∧ validateSummary entry.2 = .ok summary

theorem Grows.voices {f g : Folder} (grows : Grows f g) {diarized : Raw} (voices : f.Voices diarized) :
    g.Voices diarized := by
  obtain ⟨raw, held, voiced⟩ := voices
  exact ⟨raw, grows.asr raw held, voiced⟩

theorem Grows.answers {f g : Folder} (grows : Grows f g) {summary : Summary} (answers : f.Answers summary) :
    g.Answers summary := by
  obtain ⟨digest, entry, held, valid⟩ := answers
  exact ⟨digest, entry, grows.kept digest entry held, valid⟩

/-- What a finished result takes from the checkpoints. -/
structure Agrees (e : Engine) (f : Folder) (r : Finished) : Prop where
  processing : f.processing = some r.processing
  settled : Settled r.processing
  raw : ∃ asr, f.asr = some asr ∧
    (asr.outcome = some "no_speech" → r.raw = asr ∧ r.structured = none) ∧
    (asr.outcome ≠ some "no_speech" →
      (if e.diarization.isSome then f.diarized = some r.raw else r.raw = asr) ∧
      (if e.summary.isSome then
        ∃ value summary, f.summary = some value ∧ validateSummary value = .ok summary ∧ r.structured = some summary
      else r.structured = none))

structure Sound (e : Engine) (duration : ℚ) (f : Folder) : Prop where
  asr : ∀ raw, f.asr = some raw → validateRaw duration raw = .ok raw
  diarized : ∀ raw, f.diarized = some raw → validateRaw duration raw = .ok raw ∧ f.Voices raw
  summary : ∀ value, f.summary = some value → ∃ summary : Summary, value = summary.value ∧ f.Answers summary
  kept : ∀ entry ∈ f.summaries, ∃ summary, validateSummary entry.2 = .ok summary
  statuses : ∀ pr, f.processing = some pr → Truthful f pr
  audio : ∀ finished, f.audio = some finished → Agrees e f finished

/-- The questions whose answers a folder does not hold. -/
def Open (p : Platform) (f : Folder) : Question → Prop
  | .key .stt => False
  | .key .diarization => f.diarized = none
  | .key .summary => f.summary = none
  | .transcribe => f.asr = none
  | .localSpeakers raw => f.diarized = none ∧ f.asr = some raw
  | .remoteSpeakers _ _ raw => f.diarized = none ∧ f.asr = some raw
  | .summary reduction part => f.summary = none ∧ f.kept (requestDigest p reduction part) = none

def contract (p : Platform) (e : Engine) (duration : ℚ) : Contract Folder Question Question.Answer where
  holds := Sound e duration
  grows := Grows
  opens f question := f.audio = none ∧ Open p f question
  answers _ _ := True

/-- An attempt has come from one folder to another. -/
structure Onward (e : Engine) (duration : ℚ) (f g : Folder) : Prop where
  sound : Sound e duration g
  grows : Grows f g
  unfinished : g.audio = none

variable {p : Platform} {e : Engine} {duration : ℚ} {f g k : Folder} {pr : Processing} {α β : Type}

theorem Onward.rest (onward : Onward e duration f g) : Onward e duration g g :=
  ⟨onward.sound, Grows.refl g, onward.unfinished⟩

theorem Onward.trans (first : Onward e duration f g) (later : Onward e duration g k) : Onward e duration f k :=
  ⟨later.sound, first.grows.trans later.grows, later.unfinished⟩

theorem Onward.status (onward : Onward e duration f g) (truthful : Truthful g pr) :
    Onward e duration f { g with processing := some pr } where
  sound :=
    { asr := onward.sound.asr
      diarized := onward.sound.diarized
      summary := onward.sound.summary
      kept := onward.sound.kept
      statuses := by
        rintro pr ⟨⟩
        exact truthful.grown (Grows.status g _)
      audio := by
        intro finished held
        rw [onward.unfinished] at held
        cases held }
  grows := onward.grows.trans (Grows.status g pr)
  unfinished := onward.unfinished

/-- A checkpoint has been written. -/
theorem Onward.stored (onward : Onward e duration f g) (grows : Grows g k) (status : k.processing = g.processing)
    (unfinished : k.audio = none) (asr : ∀ raw, k.asr = some raw → validateRaw duration raw = .ok raw)
    (diarized : ∀ raw, k.diarized = some raw → validateRaw duration raw = .ok raw ∧ k.Voices raw)
    (summary : ∀ value, k.summary = some value → ∃ summary : Summary, value = summary.value ∧ k.Answers summary)
    (kept : ∀ entry ∈ k.summaries, ∃ summary, validateSummary entry.2 = .ok summary) : Onward e duration f k where
  sound :=
    { asr, diarized, summary, kept
      statuses := fun pr held => (onward.sound.statuses pr (status ▸ held)).grown grows
      audio := fun finished held => by cases unfinished.symm.trans held }
  grows := onward.grows.trans grows
  unfinished := unfinished

/-! ## Steps -/

theorem keeps_andThen {c : Contract Folder Question Question.Answer} {m : Attempt (Except String α)}
    {next : α → Attempt (Except String β)} {post : Folder → Except String α → Prop}
    {later : Folder → Except String β → Prop} (first : m.Keeps c post f)
    (failed : ∀ g error, post g (.error error) → later g (.error error))
    (rest : ∀ g a, post g (.ok a) → (next a).Keeps c later g) : (Attempt.andThen m next).Keeps c later f := by
  refine first.bind fun g result met => ?_
  cases result with
  | error error => exact failed g error met
  | ok a => exact rest g a met

theorem keeps_writeStatus {post : Folder → α → Prop} {next : Attempt α} (onward : Onward e duration f g)
    (truthful : Truthful g pr) (rest : next.Keeps (contract p e duration) post { g with processing := some pr }) :
    (writeStatus pr next).Keeps (contract p e duration) post g :=
  ⟨(onward.status truthful).sound, Grows.status g pr, rest⟩

/-- The file of a stage, among the files of a folder, and what the values for it come from. -/
structure Serves (e : Engine) (duration : ℚ) (name : Stage) (slot : Slot α) (validate : α → Except String β)
    (store : β → α) (source : Folder → α → Prop) : Prop where
  get_put : ∀ f value, slot.get (slot.put value f) = some value
  get_status : ∀ f pr, slot.get { f with processing := some pr } = slot.get f
  done : ∀ f, (slot.get f).isSome = true → f.done name = true
  again : ∀ value checked, validate value = .ok checked → validate (store checked) = .ok checked
  put : ∀ f g value checked, Onward e duration f g → slot.get g = none → source g value → validate value = .ok checked →
    Onward e duration f (slot.put (store checked) g)

/-- What a stage runs comes to its end: its checkpoint is still to be written. -/
structure Ran {γ : Type} (e : Engine) (duration : ℚ) (slot : Slot γ) (source : Folder → α → Prop) (f g : Folder)
    (value : Except String α) : Prop where
  onward : Onward e duration f g
  absent : slot.get g = none
  source : ∀ v, value = .ok v → source g v

theorem Ran.error {γ : Type} {slot : Slot γ} {source : Folder → α → Prop} {error : String} (onward : Onward e duration f g)
    (absent : slot.get g = none) : Ran e duration slot source f g (.error error) :=
  ⟨onward, absent, fun _ impossible => nomatch impossible⟩

/-- What a stage goes on with: its checkpoint, or a value for one that is not there. -/
structure Valued (e : Engine) (duration : ℚ) (slot : Slot α) (source : Folder → α → Prop) (f g : Folder)
    (value : Except String α) : Prop where
  onward : Onward e duration f g
  place : ∀ v, value = .ok v → slot.get g = some v ∨ slot.get g = none ∧ source g v

theorem keeps_readOrRun {slot : Slot α} {readable : α → Bool} {run : Attempt (Except String α)}
    {source : Folder → α → Prop} (onward : Onward e duration f g)
    (runs : slot.get g = none → run.Keeps (contract p e duration) (Ran e duration slot source f) g) :
    (readOrRun slot readable run).Keeps (contract p e duration) (Valued e duration slot source f) g := by
  unfold readOrRun
  simp only [Prog.Keeps]
  split
  · rename_i value held
    refine ⟨onward, ?_⟩
    intro v same
    split at same <;> cases same
    exact .inl held
  · rename_i absent
    refine (runs absent).mono fun k _ ran => ⟨ran.onward, ?_⟩
    exact fun v same => .inr ⟨ran.absent, ran.source v same⟩

/-- A stage comes to its end. -/
structure Staged (e : Engine) (duration : ℚ) (name : Stage) (slot : Slot α) (validate : α → Except String β) (f : Folder)
    (pr : Processing) (g : Folder) (out : Except String β × Processing) : Prop where
  onward : Onward e duration f g
  ready : ∀ checked, out.1 = .ok checked →
    out.2 = (pr.mark name .processing).mark name .ready ∧ g.processing = some out.2 ∧ Truthful g out.2 ∧
      ∃ value, slot.get g = some value ∧ validate value = .ok checked

theorem keeps_stage {name : Stage} {slot : Slot α} {readable : α → Bool} {validate : α → Except String β}
    {store : β → α} {run : Attempt (Except String α)} {source : Folder → α → Prop}
    (serves : Serves e duration name slot validate store source)
    (start : Onward e duration f f) (truthful : Truthful f pr)
    (runs : ∀ g, Onward e duration f g → slot.get g = none →
      run.Keeps (contract p e duration) (Ran e duration slot source f) g) :
    (stage name slot readable validate store run pr).Keeps (contract p e duration)
      (Staged e duration name slot validate f pr) f := by
  have begun := truthful.begun name
  unfold stage
  refine keeps_writeStatus start begun ?_
  refine (keeps_readOrRun (start.status begun) (runs _ (start.status begun))).bind ?_
  intro k value valued
  obtain ⟨onward, place⟩ := valued
  have going := begun.grown onward.grows
  have failed (error : String) :
      (writeStatus ((pr.mark name .processing).mark name .failed)
        (.done (.error error, (pr.mark name .processing).mark name .failed))).Keeps (contract p e duration)
          (Staged e duration name slot validate f pr) k := by
    have marked : Truthful k ((pr.mark name .processing).mark name .failed) :=
      going.mark (fun other => nomatch other) (fun other => nomatch other)
    exact keeps_writeStatus onward marked ⟨onward.status marked, fun _ impossible => nomatch impossible⟩
  cases value with
  | error error => exact failed error
  | ok value =>
      cases checks : validate value with
      | error error =>
          simp only [Except.bind, checks]
          exact failed error
      | ok checked =>
          simp only [Except.bind, checks, Prog.Keeps]
          -- A checkpoint that was there has been checked again and stays; a new one is written before the status.
          split
          · rename_i held
            have marked : Truthful k ((pr.mark name .processing).mark name .ready) :=
              going.mark (fun _ => serves.done k held) (fun other => nomatch other)
            refine keeps_writeStatus onward marked ⟨onward.status marked, ?_⟩
            rintro _ ⟨⟩
            refine ⟨rfl, rfl, (marked.grown (Grows.status k _)), value, ?_, checks⟩
            rw [serves.get_status]
            rcases place value rfl with same | ⟨absent, -⟩
            · exact same
            · rw [absent] at held
              cases held
          · rename_i absent
            have absent := Option.not_isSome_iff_eq_none.mp absent
            have source : source k value := by
              rcases place value rfl with same | ⟨-, source⟩
              · cases absent.symm.trans same
              · exact source
            have stored := serves.put f k value checked onward absent source checks
            have written := serves.put k k value checked onward.rest absent source checks
            have marked : Truthful (slot.put (store checked) k) ((pr.mark name .processing).mark name .ready) := by
              refine (going.grown written.grows).mark (fun _ => serves.done _ ?_) (fun other => nomatch other)
              rw [serves.get_put]
              rfl
            refine ⟨written.sound, written.grows, keeps_writeStatus stored marked ⟨stored.status marked, ?_⟩⟩
            rintro _ ⟨⟩
            refine ⟨rfl, rfl, marked.grown (Grows.status _ _), store checked, ?_, serves.again value checked checks⟩
            rw [serves.get_status, serves.get_put]

/-! ## The files of the stages -/

theorem validateRaw_eq {raw checked : Raw} (valid : validateRaw duration raw = .ok checked) : checked = raw := by
  unfold validateRaw at valid
  cases checks : validateTranscript raw.toTranscript duration with
  | error error =>
      rw [checks] at valid
      cases valid
  | ok _ =>
      rw [checks] at valid
      cases valid
      rfl

theorem asr_serves : Serves e duration .stt asrSlot (validateRaw duration) id (fun _ _ => True) where
  get_put _ _ := rfl
  get_status _ _ := rfl
  done _ held := held
  again _ checked valid := validateRaw_eq valid ▸ valid
  put f g value checked onward absent _ valid := by
    have grows : Grows g (asrSlot.put checked g) :=
      ⟨fun raw held => (by cases absent.symm.trans held), fun _ h => h, fun _ h => h, fun _ _ h => h, fun _ h => h⟩
    refine onward.stored grows rfl onward.unfinished ?_ ?_ onward.sound.summary onward.sound.kept
    · rintro raw ⟨⟩
      exact validateRaw_eq valid ▸ valid
    · exact fun raw held => (onward.sound.diarized raw held).imp_right grows.voices

theorem diarized_serves : Serves e duration .diarization diarizedSlot (validateRaw duration) id Folder.Voices where
  get_put _ _ := rfl
  get_status _ _ := rfl
  done _ held := held
  again _ checked valid := validateRaw_eq valid ▸ valid
  put f g value checked onward absent source valid := by
    have grows : Grows g (diarizedSlot.put checked g) :=
      ⟨fun _ h => h, fun raw held => (by cases absent.symm.trans held), fun _ h => h, fun _ _ h => h, fun _ h => h⟩
    refine onward.stored grows rfl onward.unfinished onward.sound.asr ?_ onward.sound.summary onward.sound.kept
    rintro raw ⟨⟩
    obtain rfl := validateRaw_eq valid
    exact ⟨valid, grows.voices source⟩

/-- A checked summary passes unchanged. -/
theorem validateSummary_again {value : Value} {summary : Summary} (valid : validateSummary value = .ok summary) :
    validateSummary summary.value = .ok summary := by
  have trimmed : strip summary.title = summary.title ∧ strip summary.overview = summary.overview := by
    unfold validateSummary at valid
    split at valid
    · split at valid
      · split at valid
        · cases valid
          exact ⟨strip_strip _, strip_strip _⟩
        · cases valid
      · cases valid
    · cases valid
  have title : strField "title" [("title", .str summary.title), ("overview", .str summary.overview)] = some summary.title := by
    simp [strField, field]
  have overview : strField "overview" [("title", .str summary.title), ("overview", .str summary.overview)] =
      some summary.overview := by
    simp [strField, field]
  unfold Summary.value validateSummary
  dsimp only
  rw [title, overview]
  dsimp only
  rw [dif_pos ⟨summary.title_some, summary.overview_some, summary.title_short, summary.overview_short⟩]
  congr 1
  cases summary
  simp only [Summary.mk.injEq]
  exact trimmed

theorem summary_serves : Serves e duration .summary summarySlot validateSummary Summary.value
    (fun f value => ∃ summary : Summary, value = summary.value ∧ f.Answers summary) where
  get_put _ _ := rfl
  get_status _ _ := rfl
  done _ held := held
  again _ _ valid := validateSummary_again valid
  put f g value checked onward absent source valid := by
    have grows : Grows g (summarySlot.put checked.value g) :=
      ⟨fun _ h => h, fun _ h => h, fun value held => (by cases absent.symm.trans held), fun _ _ h => h, fun _ h => h⟩
    refine onward.stored grows rfl onward.unfinished onward.sound.asr onward.sound.diarized ?_ onward.sound.kept
    rintro _ ⟨⟩
    obtain ⟨summary, rfl, digest, entry, held, answered⟩ := source
    obtain rfl : summary = checked := by
      have same := (validateSummary_again answered).symm.trans valid
      cases same
      rfl
    exact ⟨summary, rfl, digest, entry, grows.kept digest entry held, answered⟩

/-! ## What the stages run -/

/-- An answer is given without a change. -/
theorem keeps_ask {post : Folder → Except String α → Prop} {question : Question}
    {next : Question.Answer question → Attempt (Except String α)} (unfinished : f.audio = none)
    (opened : Open p f question) (rest : ∀ answer, (next answer).Keeps (contract p e duration) post f) :
    ((Prog.query question).bind next).Keeps (contract p e duration) post f :=
  ⟨⟨unfinished, opened⟩, fun answer _ => rest answer⟩

theorem keeps_query {question : Question} {post : Folder → Question.Answer question → Prop} (unfinished : f.audio = none)
    (opened : Open p f question) (met : ∀ answer, post f answer) :
    (Prog.query question : Prog Folder Question Question.Answer _).Keeps (contract p e duration) post f :=
  Prog.Keeps.query (c := contract p e duration) ⟨unfinished, opened⟩ fun answer _ => met answer

theorem keeps_diarize {d : Diarizer} {raw : Raw} (onward : Onward e duration f g) (absent : g.diarized = none)
    (held : g.asr = some raw) :
    (diarize e duration d raw).Keeps (contract p e duration) (Ran e duration diarizedSlot Folder.Voices f) g := by
  have fails (error : String) : Ran e duration diarizedSlot Folder.Voices f g (.error error) :=
    Ran.error onward absent
  have same : Ran e duration diarizedSlot Folder.Voices f g (.ok raw) := by
    refine ⟨onward, absent, ?_⟩
    rintro _ ⟨⟩
    exact ⟨raw, held, .inl rfl⟩
  have voiced {turns : List Turn} {speakers : Option Nat} {diarized : Raw}
      (reconciled : raw.diarizedBy turns speakers = .ok diarized) :
      Ran e duration diarizedSlot Folder.Voices f g (.ok diarized) := by
    refine ⟨onward, absent, ?_⟩
    rintro _ ⟨⟩
    exact ⟨raw, held, .inr ⟨turns, speakers, reconciled⟩⟩
  unfold diarize
  split
  · split
    · exact same
    · exact fails _
  · split
    · unfold applyDiarization
      split
      · exact same
      · refine keeps_ask onward.unfinished ⟨absent, held⟩ fun answer => ?_
        cases answer with
        | error error => exact fails error
        | ok turns =>
            dsimp only
            cases reconciled : raw.diarizedBy turns none with
            | error error => exact fails _
            | ok diarized => exact voiced reconciled
    · split
      · refine keeps_ask onward.unfinished absent fun answer => ?_
        cases answer with
        | error error => exact fails error
        | ok _ =>
            unfold remoteDiarization
            dsimp only
            split
            · exact fails _
            · refine keeps_ask onward.unfinished ⟨absent, held⟩ fun answer => ?_
              cases answer with
              | error error => exact fails _
              | ok report =>
                  dsimp only
                  split
                  · exact fails _
                  · split
                    · exact fails _
                    · rename_i reconciled
                      exact voiced reconciled
      · exact fails _

theorem kept_cons {digest other : String} {value : Value} :
    Folder.kept { f with summaries := (digest, value) :: f.summaries } other =
      if digest = other then some (digest, value) else f.kept other := by
  unfold Folder.kept
  rw [List.find?_cons]
  by_cases same : digest = other
  · simp [same]
  · rw [if_neg same, beq_eq_false_iff_ne.mpr same]

theorem Onward.keep {digest : String} {value : Value} {summary : Summary} (onward : Onward e duration f g)
    (absent : g.kept digest = none) (valid : validateSummary value = .ok summary) :
    Onward e duration f { g with summaries := (digest, value) :: g.summaries } := by
  have grows : Grows g { g with summaries := (digest, value) :: g.summaries } := by
    refine ⟨fun _ h => h, fun _ h => h, fun _ h => h, fun other entry held => ?_, fun _ h => h⟩
    rw [kept_cons, if_neg]
    · exact held
    · rintro rfl
      cases absent.symm.trans held
  refine onward.stored grows rfl onward.unfinished onward.sound.asr onward.sound.diarized ?_ ?_
  · intro value held
    obtain ⟨summary, same, answers⟩ := onward.sound.summary value held
    exact ⟨summary, same, grows.answers answers⟩
  · intro entry member
    rcases List.mem_cons.mp member with rfl | old
    · exact ⟨summary, valid⟩
    · exact onward.sound.kept entry old

/-- An answer of the provider has passed `validate_summary`. -/
theorem readAnswer_valid {body : List (String × Value)} {summary : Summary} (read : readAnswer p body = .ok summary) :
    validateSummary summary.value = .ok summary := by
  unfold readAnswer at read
  obtain ⟨choice, -, read⟩ := Fallible.bind_ok read
  dsimp only at read
  have passed {value : Value}
      (answered : ((validateSummary value).mapError fun _ => "Summary request failed; transcription retained") = .ok summary) :
      validateSummary summary.value = .ok summary := by
    cases valid : validateSummary value with
    | error error =>
        rw [valid] at answered
        cases answered
    | ok checked =>
        rw [valid] at answered
        cases answered
        exact validateSummary_again valid
  split at read
  all_goals try cases read
  all_goals
    split at read
    · split at read
      · split at read
        · exact passed read
        · cases read
      · cases read
    · cases read

theorem keeps_requestSummary (reduction : Bool) (part : List Char) (onward : Onward e duration f g)
    (absent : g.summary = none) :
    (requestSummary p reduction part).Keeps (contract p e duration) (Ran e duration summarySlot Folder.Answers f) g := by
  have fails (error : String) : Ran e duration summarySlot Folder.Answers f g (.error error) :=
    Ran.error onward absent
  unfold requestSummary
  simp only [Prog.Keeps]
  split
  · rename_i digest fields found
    exact ⟨onward, absent, fun summary valid => ⟨_, _, found, valid⟩⟩
  · exact fails _
  · rename_i missing
    refine keeps_ask onward.unfinished ⟨absent, missing⟩ fun answer => ?_
    cases answer with
    | none => exact fails _
    | some body =>
        dsimp only
        cases read : readAnswer p body with
        | error error => exact fails error
        | ok summary =>
            have valid := readAnswer_valid read
            have kept := onward.keep missing valid
            have written := onward.rest.keep missing valid
            refine ⟨written.sound, written.grows, kept, absent, ?_⟩
            rintro _ ⟨⟩
            exact ⟨_, _, kept_cons.trans (if_pos rfl), valid⟩

/-- Each of the summaries is a kept answer. -/
def Folder.AllAnswers (f : Folder) (summaries : List Summary) : Prop := ∀ summary ∈ summaries, f.Answers summary

theorem keeps_requestSummaries (reduction : Bool) (parts : List (List Char)) (onward : Onward e duration f g)
    (absent : g.summary = none) :
    (requestSummaries p reduction parts).Keeps (contract p e duration)
      (Ran e duration summarySlot Folder.AllAnswers f) g := by
  induction parts generalizing f g with
  | nil =>
      refine ⟨onward, absent, ?_⟩
      rintro _ ⟨⟩ summary member
      cases member
  | cons part rest ih =>
      refine keeps_andThen (keeps_requestSummary reduction part onward.rest absent) ?_ ?_
      · exact fun k error ran => Ran.error (onward.trans ran.onward) ran.absent
      · intro k summary ran
        refine keeps_andThen (ih ran.onward.rest ran.absent) ?_ ?_
        · exact fun l error next =>
            Ran.error (onward.trans (ran.onward.trans next.onward)) next.absent
        · intro l others next
          refine ⟨onward.trans (ran.onward.trans next.onward), next.absent, ?_⟩
          rintro _ ⟨⟩ other member
          rcases List.mem_cons.mp member with rfl | later
          · exact next.onward.grows.answers (ran.source other rfl)
          · exact next.source others rfl other later

theorem keeps_reduceSummaries (passes : Nat) (summaries : List Summary) (onward : Onward e duration f g)
    (absent : g.summary = none) (answers : g.AllAnswers summaries) :
    (reduceSummaries p passes summaries).Keeps (contract p e duration)
      (Ran e duration summarySlot Folder.AllAnswers f) g := by
  have here : Ran e duration summarySlot Folder.AllAnswers f g (.ok summaries) := by
    refine ⟨onward, absent, ?_⟩
    rintro _ ⟨⟩
    exact answers
  induction passes generalizing g summaries with
  | zero => exact here
  | succ passes ih =>
      unfold reduceSummaries
      split
      · refine keeps_andThen (keeps_requestSummaries true _ onward absent) ?_ ?_
        · exact fun k error ran => Ran.error ran.onward ran.absent
        · exact fun k fewer ran => ih fewer ran.onward ran.absent (ran.source fewer rfl) ran
      · exact here

theorem keeps_summarizeRaw (settings : SummarySettings) (raw : Raw) (onward : Onward e duration f g)
    (absent : g.summary = none) :
    (summarizeRaw p settings raw).Keeps (contract p e duration) (Ran e duration summarySlot Folder.Answers f) g := by
  unfold summarizeRaw
  split
  · exact Ran.error onward absent
  · refine keeps_andThen (keeps_requestSummaries false _ onward absent) ?_ ?_
    · exact fun k error ran => Ran.error ran.onward ran.absent
    · intro k first ran
      refine keeps_andThen (keeps_reduceSummaries _ first ran.onward ran.absent (ran.source first rfl)) ?_ ?_
      · exact fun l error next => Ran.error next.onward next.absent
      · intro l left next
        cases left with
        | nil => exact Ran.error next.onward next.absent
        | cons summary others =>
            refine ⟨next.onward, next.absent, ?_⟩
            rintro _ ⟨⟩
            exact next.source _ rfl summary List.mem_cons_self

/-! ## An attempt -/

theorem settled_mark {name other : Stage} (settled : other ≠ name → (pr.record other).settled) :
    (((pr.mark name .processing).mark name .ready).record other).settled := by
  unfold StageRecord.settled
  rw [record_mark, record_mark]
  by_cases same : other = name
  · exact .inl (if_pos same)
  · simp only [if_neg same]
    exact settled same

theorem Engine.unselected (e : Engine) :
    (e.diarization = none → (e.processing.record .diarization).settled) ∧
      (e.summary = none → (e.processing.record .summary).settled) := by
  constructor
  · intro absent
    refine .inr (.inl ?_)
    change (stageRecord (e.diarization.map Diarizer.toChosen)).status = .disabled
    rw [absent]
    rfl
  · intro absent
    refine .inr (.inl ?_)
    change (stageRecord (e.summary.map Summarizer.toChosen)).status = .disabled
    rw [absent]
    rfl

/-- How an attempt ends. -/
structure Attempted (e : Engine) (duration : ℚ) (f g : Folder) (out : Except String Finished) : Prop where
  onward : Onward e duration f g
  agrees : ∀ finished, out = .ok finished → Agrees e g finished

variable {h : Host}

theorem keeps_sttStage (start : Onward e duration f f) :
    (sttStage h duration e.processing).Keeps (contract h.platform e duration)
      (Staged e duration .stt asrSlot (validateRaw duration) f e.processing) f :=
  keeps_stage asr_serves start (e.truthful f) fun _ going absent =>
    keeps_query going.unfinished absent fun _ => ⟨going, absent, fun _ _ => trivial⟩

theorem keeps_diarizationStage (d : Diarizer) {raw : Raw} (start : Onward e duration f f) (truthful : Truthful f pr)
    (held : f.asr = some raw) :
    (diarizationStage h e duration d raw pr).Keeps (contract h.platform e duration)
      (Staged e duration .diarization diarizedSlot (validateRaw duration) f pr) f :=
  keeps_stage diarized_serves start truthful fun _ going absent => keeps_diarize going absent (going.grows.asr raw held)

theorem keeps_summaryStage (s : Summarizer) (raw : Raw) (start : Onward e duration f f) (truthful : Truthful f pr) :
    (summaryStage h s raw pr).Keeps (contract h.platform e duration)
      (Staged e duration .summary summarySlot validateSummary f pr) f := by
  refine keeps_stage summary_serves start truthful fun k going absent => ?_
  refine keeps_ask going.unfinished absent fun answer => ?_
  cases answer with
  | error error => exact Ran.error going absent
  | ok _ =>
      refine keeps_andThen (keeps_summarizeRaw s.settings raw going absent) ?_ ?_
      · exact fun l error ran => Ran.error ran.onward ran.absent
      · intro l summary ran
        refine ⟨ran.onward, ran.absent, ?_⟩
        rintro _ ⟨⟩
        exact ⟨summary, rfl, ran.source summary rfl⟩

theorem keeps_finishExecute {raw asr : Raw} (onward : Onward e duration f g) (truthful : Truthful g pr)
    (status : g.processing = some pr) (settled : ∀ name, (name = .summary → e.summary = none) → (pr.record name).settled)
    (held : g.asr = some asr) (spoken : asr.outcome ≠ some "no_speech")
    (voices : if e.diarization.isSome then g.diarized = some raw else raw = asr) :
    (finishExecute h e raw pr).Keeps (contract h.platform e duration) (Attempted e duration f) g := by
  unfold finishExecute
  split
  · rename_i absent
    refine ⟨onward, ?_⟩
    rintro _ ⟨⟩
    refine ⟨status, fun name => settled name fun _ => absent, asr, held, fun silent => absurd silent spoken, fun _ => ?_⟩
    refine ⟨voices, ?_⟩
    rw [absent]
    rfl
  · rename_i s selected
    split
    · exact ⟨onward, fun _ impossible => nomatch impossible⟩
    · refine (keeps_summaryStage s raw onward.rest truthful).bind ?_
      rintro k ⟨result, later⟩ staged
      cases result with
      | error error => exact ⟨onward.trans staged.onward, fun _ impossible => nomatch impossible⟩
      | ok summary =>
          obtain ⟨same, status, -, value, kept, valid⟩ := staged.ready summary rfl
          have grows := staged.onward.grows
          refine ⟨onward.trans staged.onward, ?_⟩
          rintro _ ⟨⟩
          refine ⟨status, fun name => ?_, asr, grows.asr asr held, fun silent => absurd silent spoken, fun _ => ⟨?_, ?_⟩⟩
          · rw [show later = _ from same]
            exact settled_mark fun other => settled name fun last => absurd last other
          · split at voices
            · rename_i several
              rw [if_pos several]
              exact grows.diarized raw voices
            · rename_i single
              rw [if_neg single]
              exact voices
          · rw [selected]
            exact ⟨value, summary, kept, valid, rfl⟩

theorem keeps_execute (start : Onward e duration f f) :
    (execute h e duration).Keeps (contract h.platform e duration) (Attempted e duration f) f := by
  unfold execute
  refine (keeps_sttStage start).bind ?_
  rintro g ⟨result, pr⟩ staged
  cases result with
  | error error => exact ⟨staged.onward, fun _ impossible => nomatch impossible⟩
  | ok raw =>
      obtain ⟨same, status, truthful, value, held, valid⟩ := staged.ready raw rfl
      obtain rfl := validateRaw_eq valid
      dsimp only at same status truthful ⊢
      split
      · rename_i silent
        have quiet : Truthful g pr.silence := Truthful.silence held silent
        refine keeps_writeStatus staged.onward quiet ⟨staged.onward.status quiet, ?_⟩
        rintro _ ⟨⟩
        exact ⟨rfl, settled_silence pr, raw, held, fun _ => ⟨rfl, rfl⟩, fun spoken => absurd silent spoken⟩
      · rename_i spoken
        split
        · rename_i absent
          refine keeps_finishExecute staged.onward truthful status (fun name last => ?_) held spoken ?_
          · rw [same]
            refine settled_mark fun other => ?_
            cases name with
            | stt => exact absurd rfl other
            | diarization => exact e.unselected.1 absent
            | summary => exact e.unselected.2 (last rfl)
          · rw [absent]
            rfl
        · rename_i d selected
          refine (keeps_diarizationStage d staged.onward.rest truthful held).bind ?_
          rintro k ⟨result, later⟩ next
          cases result with
          | error error => exact ⟨staged.onward.trans next.onward, fun _ impossible => nomatch impossible⟩
          | ok voiced =>
              obtain ⟨then_, status, truthful, value, kept, valid⟩ := next.ready voiced rfl
              obtain rfl := validateRaw_eq valid
              dsimp only at then_ status truthful ⊢
              refine keeps_finishExecute (staged.onward.trans next.onward) truthful status (fun name last => ?_)
                (next.onward.grows.asr raw held) spoken ?_
              · rw [then_, same]
                refine settled_mark fun unvoiced => settled_mark fun other => ?_
                cases name with
                | stt => exact absurd rfl other
                | diarization => exact absurd rfl unvoiced
                | summary => exact e.unselected.2 (last rfl)
              · rw [selected]
                exact kept

theorem keeps_transcribeFolder (sound : Sound e duration f) :
    (transcribeFolder h e duration).Keeps (contract h.platform e duration)
      (fun g out => ∀ finished, out = .ok finished → g.audio = some finished) f := by
  unfold transcribeFolder
  simp only [Prog.Keeps]
  split
  · rename_i finished held
    rintro _ ⟨⟩
    exact held
  · rename_i unfinished
    have attempt := keeps_execute (h := h) (e := e) ⟨sound, Grows.refl f, unfinished⟩
    refine keeps_andThen attempt (fun _ _ _ _ impossible => nomatch impossible) ?_
    intro g finished attempted
    have grows : Grows g { g with audio := some finished } :=
      ⟨fun _ held => held, fun _ held => held, fun _ held => held, fun _ _ held => held,
        fun _ held => by cases attempted.onward.unfinished.symm.trans held⟩
    refine ⟨⟨attempted.onward.sound.asr, attempted.onward.sound.diarized, attempted.onward.sound.summary,
      attempted.onward.sound.kept, ?_, ?_⟩, grows, ?_⟩
    · exact fun pr held => (attempted.onward.sound.statuses pr held).grown grows
    · rintro _ ⟨⟩
      have agrees := attempted.agrees finished rfl
      exact ⟨agrees.processing, agrees.settled, agrees.raw⟩
    · rintro _ ⟨⟩
      rfl

theorem sound_empty : Sound e duration Folder.empty where
  asr _ held := nomatch held
  diarized _ held := nomatch held
  summary _ held := nomatch held
  kept _ member := nomatch member
  statuses _ held := nomatch held
  audio _ held := nomatch held

theorem reached_kept {s : System Folder Question Question.Answer (Except String Finished)}
    (reached : Reached h e duration s) :
    Kept (contract h.platform e duration) (fun g out => ∀ finished, out = .ok finished → g.audio = some finished) s :=
  Resumable.Reached.kept Grows.refl (fun _ _ _ first later => first.trans later) (fun _ _ => trivial)
    (fun _ sound => keeps_transcribeFolder sound) sound_empty reached

/-- Whatever attempts were cut off and wherever: what a checkpoint holds is asked for no more and stays as it is, the
statuses are true, and every attempt that comes to an end has the same result, which agrees with the checkpoints. -/
theorem checkpoints_final {s : System Folder Question Question.Answer (Except String Finished)}
    (reached : Reached h e duration s) :
    Sound e duration s.store ∧
    (∀ f question, (f, question) ∈ s.asked → f.audio = none ∧ Open h.platform f question ∧ Grows f s.store) ∧
    ∀ f finished, (f, .ok finished) ∈ s.ended → s.store.audio = some finished := by
  have kept := reached_kept reached
  refine ⟨kept.holds, fun f question asked => ?_, fun f finished ended => ?_⟩
  · obtain ⟨⟨unfinished, opened⟩, grows⟩ := kept.asked _ asked
    exact ⟨unfinished, opened, grows⟩
  · obtain ⟨held, grows⟩ := kept.ended _ ended
    exact grows.audio finished (held finished rfl)

def sampleRaw : Raw := ⟨⟨none, [⟨0, 1, "Hello", [], none⟩]⟩, none⟩

def sampleEngine : Engine where
  engine := "whisperx"
  diarizationModel := "none"
  speakerModel := "community-1"
  stt := some ⟨"Local", "small"⟩
  diarization := some ⟨⟨"Voices", "community-1"⟩, false, "pyannote", some "community-1", none, none⟩
  summary := some ⟨⟨"Notes", "model"⟩, "openai-compatible", ⟨"model", "auto"⟩⟩

def sampleHost : Host := ⟨samplePlatform, fun _ => true⟩

def sampleReply : (question : Question) → question.Answer
  | .key _ => .ok ()
  | .transcribe => .ok sampleRaw
  | .localSpeakers _ => .ok [⟨0, 1, "A"⟩]
  | .remoteSpeakers .. => .error ""
  | .summary .. => some sampleAnswer

/-- An attempt that is killed once the transcript is stored. -/
def sampleKilled : List (Resumable.Event Question Question.Answer) := .start :: List.replicate 6 (.turn sampleReply) ++ [.cut]

/-- The killed attempt and the later one ask four questions in all. -/
theorem checkpoints_final_resumed :
    ∃ s f finished, Reached sampleHost sampleEngine 10 s ∧ s.asked.length = 4 ∧ (f, .ok finished) ∈ s.ended ∧
      s.store.audio = some finished ∧ Sound sampleEngine 10 s.store := by
  have outcome : ((System.steps (transcribeFolder sampleHost sampleEngine 10) 
      (sampleKilled ++ .start :: List.replicate 22 (.turn sampleReply)) ⟨Folder.empty, none, [], []⟩).map
      fun t => (t.asked.length, t.ended.map fun e => e.2.toOption.isSome)) = some (4, [true]) := by
    decide +kernel
  obtain ⟨s, run, counts⟩ := Option.map_eq_some_iff.mp outcome
  have asked : s.asked.length = 4 := congrArg Prod.fst counts
  have ended : s.ended.map (fun e => e.2.toOption.isSome) = [true] := congrArg Prod.snd counts
  have reached : Reached sampleHost sampleEngine 10 s :=
    Resumable.Reached.steps (Transition.Reachable.start rfl) run
  obtain ⟨⟨f, result⟩, single, completed⟩ := List.map_eq_singleton_iff.mp ended
  cases result with
  | error error => cases completed
  | ok finished =>
      have member : (f, Except.ok finished) ∈ s.ended := by
        rw [single]
        exact List.mem_cons_self
      have final := checkpoints_final reached
      exact ⟨s, f, finished, reached, asked, member, final.2.2 f finished member, final.1⟩

end OmiLocal.Pipeline.Stages
