import OmiLocal.Providers.Pinned

/-!
# A job keeps its engine

What a profile leaves out is filled by the settings of the day, by the pipeline
of the profile or by the defaults. None of it can come back into the profile,
with one exception: a settings file that names a `pipeline` of its own, which
the class takes for the snapshot of a job that has none.
-/
namespace OmiLocal.Providers
open Lib.Json

variable {py : Python} {rt : Runtime} {urlOk : Value → Bool} {data engine : Fields} {key : String}

/-! ## Merging and picking -/

theorem field_nil (key : String) : field key [] = none := rfl

theorem field_merge (key : String) (first second : Fields) : field key (merge first second) = (field key second).or (field key first) := by
  induction second generalizing first with
  | nil => rfl
  | cons f second ih =>
      rw [merge, List.foldl_cons, ← merge, ih, field_cons]
      by_cases same : f.1 = key
      · rw [if_pos same, ← same, field_setField]
        cases field f.1 second <;> rfl
      · rw [if_neg same, field_setField_of_ne (Ne.symm same)]
        cases field key second <;> rfl

theorem filter_pick (p : String → Bool) (names : List String) (data : Fields) :
    (pick names data).filter (fun f => p f.1) = pick (names.filter p) data := by
  induction names with
  | nil => rfl
  | cons name names ih =>
      unfold pick at ih ⊢
      rw [List.filterMap_cons, List.filter_cons]
      cases found : field name data with
      | none =>
          rw [Option.map_none]
          dsimp only
          rw [ih]
          split
          · rw [List.filterMap_cons, found, Option.map_none]
          · rfl
      | some value =>
          rw [Option.map_some]
          dsimp only
          rw [List.filter_cons, ih]
          split
          · rw [List.filterMap_cons, found, Option.map_some]
          · rfl

theorem pick_congr {names : List String} {first second : Fields} (same : ∀ name ∈ names, field name first = field name second) :
    pick names first = pick names second :=
  List.filterMap_congr fun name member => by rw [same name member]

/-! ## What completing keeps -/

/-- The fields that are written again at every load. -/
def volatile : List String := ["python", "assets_path", "runtime_revision", "speaker_python"]

def parakeetDefaults (engine : Option Value) : Fields :=
  if isText "parakeet-mlx" engine then
    [("model", .str "mlx-community/parakeet-tdt-0.6b-v3"), ("language", .str "auto"), ("device", .str "gpu")]
  else []

def whisperkitDefaults (engine : Option Value) : Fields :=
  if isText "whisperkit" engine then
    [("model", .str whisperkitModel), ("device", .str "cpuAndNeuralEngine"), ("diarization_model", .str "none")]
  else []

def serverDefaults (engine : Option Value) : Fields :=
  if isText "openai-compatible" engine then
    [("language", .str "auto"), ("device", .str "server"), ("diarization_model", .str "none")]
  else []

/-- What the class and the engine set by default. -/
def engineDefaults (engine : Option Value) : Fields :=
  merge classDefaults (merge (serverDefaults engine) (merge (whisperkitDefaults engine) (parakeetDefaults engine)))

/-- `data` stays under its completion, which may add these defaults. -/
def Adds (defaults data completed : Fields) : Prop :=
  ∀ key, key ∉ volatile → field key completed = (field key data).or (field key defaults)

theorem Adds.nothing : Adds [] data data := fun key _ => by
  cases field key data <;> rfl

theorem Adds.under (defaults data : Fields) : Adds defaults data (merge defaults data) :=
  fun key _ => field_merge key defaults data

theorem Adds.trans {first second middle completed : Fields} (adds : Adds first data middle)
    (next : Adds second middle completed) : Adds (merge second first) data completed := by
  intro key stable
  rw [next key stable, adds key stable, field_merge, Option.or_assoc]

theorem Adds.written {defaults completed : Fields} (adds : Adds defaults data completed) {written : Fields}
    (own : ∀ f ∈ written, f.1 ∈ volatile) : Adds defaults data (merge completed written) := by
  intro key stable
  have absent : field key written = none := by
    cases found : field key written with
    | none => rfl
    | some value =>
        obtain ⟨f, member, same⟩ := Option.map_eq_some_iff.mp found
        have here : f.1 = key := by simpa using List.find?_some member
        exact absurd (here ▸ own f (List.mem_reverse.mp (List.mem_of_find?_eq_some member))) stable
  rw [field_merge, absent]
  exact adds key stable

theorem managedRuntime_adds {completed : Fields} (done : managedRuntime py rt data = some completed) :
    Adds [] data completed ∨ Adds [("diarization_model", .str "none")] data completed := by
  unfold managedRuntime at done
  dsimp only at done
  split at done
  · obtain ⟨python, -, rfl⟩ := Option.map_eq_some_iff.mp done
    exact .inr ((Adds.under _ data).written (by simp [volatile]))
  · cases done
    exact .inl .nothing

theorem whisperkitRuntime_adds {completed : Fields} (done : whisperkitRuntime py rt data = some completed) :
    Adds [("model", .str whisperkitModel), ("device", .str "cpuAndNeuralEngine"), ("diarization_model", .str "none")] data
      completed := by
  have written : ∀ root, Adds _ data (merge (merge [("model", .str whisperkitModel), ("device", .str "cpuAndNeuralEngine"),
      ("diarization_model", .str "none")] data)
      [("assets_path", .str root), ("runtime_revision", .str (rt.whisperkitRevision root))]) :=
    fun root => (Adds.under _ data).written (by simp [volatile])
  unfold whisperkitRuntime at done
  dsimp only at done
  split at done
  · cases done
    exact written _
  · cases done
  · obtain ⟨root, -, done⟩ := Option.bind_eq_some_iff.mp done
    cases done
    exact written root

theorem Adds.keeps_engine {defaults completed : Fields} (adds : Adds defaults data completed)
    (free : field "engine" defaults = none) : field "engine" completed = field "engine" data := by
  rw [adds "engine" (by decide), free]
  cases field "engine" data <;> rfl

theorem parakeetStage_adds (data : Fields) : Adds (parakeetDefaults (field "engine" data)) data (parakeetStage data) := by
  unfold parakeetStage parakeetDefaults
  split
  · exact .under _ data
  · exact .nothing

theorem whisperkitStage_adds {completed : Fields} (done : whisperkitStage py rt data = some completed) :
    Adds (whisperkitDefaults (field "engine" data)) data completed := by
  unfold whisperkitStage at done
  unfold whisperkitDefaults
  split at done
  · rename_i whisperkit
    rw [if_pos whisperkit]
    exact whisperkitRuntime_adds done
  · rename_i other
    rw [if_neg other]
    cases done
    exact .nothing

theorem serverStage_adds {completed : Fields} (done : serverStage urlOk data = some completed) :
    Adds (serverDefaults (field "engine" data)) data completed := by
  unfold serverStage at done
  unfold serverDefaults
  split at done
  · rename_i server
    rw [if_pos server]
    dsimp only at done
    split at done
    · cases done
      exact .under _ data
    · cases done
  · rename_i other
    rw [if_neg other]
    cases done
    exact .nothing

theorem speakerStage_adds (data : Fields) : Adds [] data (speakerStage py rt data) := by
  unfold speakerStage
  split
  · intro key stable
    rw [field_setField_of_ne (fun same => stable (by rw [same]; decide))]
    cases field key data <;> rfl
  · exact .nothing

theorem stageDefaults_free (value : Option Value) :
    field "engine" (parakeetDefaults value) = none ∧ field "engine" (whisperkitDefaults value) = none ∧
      field "engine" (serverDefaults value) = none := by
  unfold parakeetDefaults whisperkitDefaults serverDefaults
  refine ⟨?_, ?_, ?_⟩ <;> split <;> rfl

/-- The completion of settings: what they name stays, and what they do not name is a default of the engine or of the
class. The managed runtime alone may switch the diarization off. -/
theorem complete_adds (done : complete py rt urlOk data = some engine) :
    ∃ managed, (managed = [] ∨ managed = [("diarization_model", .str "none")]) ∧
      Adds (merge (engineDefaults (field "engine" data)) managed) data engine := by
  unfold complete at done
  obtain ⟨first, managed, done⟩ := Option.bind_eq_some_iff.mp done
  obtain ⟨second, whisperkit, done⟩ := Option.bind_eq_some_iff.mp done
  obtain ⟨third, server, done⟩ := Option.bind_eq_some_iff.mp done
  obtain ⟨list, either, ready⟩ : ∃ list, (list = [] ∨ list = [("diarization_model", .str "none")]) ∧ Adds list data first := by
    rcases managedRuntime_adds managed with same | off
    · exact ⟨[], .inl rfl, same⟩
    · exact ⟨_, .inr rfl, off⟩
  refine ⟨list, either, ?_⟩
  obtain ⟨noParakeet, noWhisperkit, noServer⟩ := stageDefaults_free (field "engine" data)
  have engine₁ : field "engine" first = field "engine" data := by
    apply ready.keeps_engine
    rcases either with rfl | rfl <;> rfl
  have parakeet := parakeetStage_adds first
  rw [engine₁] at parakeet
  have engine₂ := (parakeet.keeps_engine noParakeet).trans engine₁
  have whisperkit := whisperkitStage_adds whisperkit
  rw [engine₂] at whisperkit
  have engine₃ := (whisperkit.keeps_engine noWhisperkit).trans engine₂
  have server := serverStage_adds server
  rw [engine₃] at server
  unfold attributes at done
  split at done
  · cases done
    have stages := (((ready.trans parakeet).trans whisperkit).trans server).trans (@speakerStage_adds py rt third)
    have all := stages.trans (.under classDefaults _)
    intro key stable
    rw [all key stable]
    simp only [engineDefaults, field_merge, field_nil, Option.or_assoc, Option.or_none]
  · cases done

/-! ## Profiles -/

def classFields : List String := classDefaults.map Prod.fst

theorem field_profile (key : String) (engine : Fields) :
    field key (profile py engine) = if key ∈ classFields ∧ key ∉ excluded py engine then field key engine else none := by
  unfold profile
  rw [field_pick]
  apply if_congr _ rfl rfl
  simp only [List.mem_filter, decide_eq_true_eq, classFields]

theorem mem_if (condition : Bool) (first second : List String) :
    key ∈ (if condition = true then first else second) ↔
      (condition = true ∧ key ∈ first) ∨ (condition = false ∧ key ∈ second) := by
  cases condition <;> simp

theorem engine_kept (engine : Fields) : "engine" ∉ excluded py engine := by
  simp [excluded, mem_if]

theorem excluded_pipeline (engine : Fields) :
    "pipeline" ∈ excluded py engine ↔ isNull (field "pipeline" engine) = true := by
  simp [excluded, mem_if]

theorem excluded_speakers (engine : Fields) :
    "speaker_model" ∈ excluded py engine ↔ truthy py (getAttr "speaker_model" engine) = false := by
  simp [excluded, mem_if]

theorem excluded_mode (engine : Fields) : "diarization_model" ∈ excluded py engine ↔
    isText "whisperx" (field "engine" engine) = true ∧ isText "none" (field "diarization_model" engine) = false := by
  simp [excluded, mem_if]

/-- Two engines that a job cannot tell apart. -/
structure SameJob (py : Python) (first second : Fields) : Prop where
  engine : field "engine" second = field "engine" first
  pipeline : isNull (field "pipeline" second) = isNull (field "pipeline" first)
  speakers : truthy py (getAttr "speaker_model" second) = truthy py (getAttr "speaker_model" first)
  diarization : isText "none" (field "diarization_model" second) = isText "none" (field "diarization_model" first)
  kept : ∀ key ∈ classFields, key ∉ excluded py first → key ≠ "runtime_revision" → field key second = field key first

theorem SameJob.excluded {first second : Fields} (same : SameJob py first second) (other : key ≠ "runtime_revision") :
    key ∈ excluded py second ↔ key ∈ excluded py first := by
  have revision : ∀ engine : Fields,
      key ∉ (if truthy py (getAttr "runtime_revision" engine) = true then [] else ["runtime_revision"]) := by
    intro engine
    split
    · exact List.not_mem_nil
    · simpa using other
  unfold Providers.excluded
  rw [same.engine, same.pipeline, same.speakers, same.diarization]
  simp only [List.mem_append, revision, or_false]

theorem SameJob.profile {first second : Fields} (same : SameJob py first second) :
    (profile py second).filter (fun f => f.1 ≠ "runtime_revision") =
      (profile py first).filter fun f => f.1 ≠ "runtime_revision" := by
  unfold Providers.profile
  rw [filter_pick fun key => key ≠ "runtime_revision", filter_pick fun key => key ≠ "runtime_revision",
    List.filter_filter, List.filter_filter]
  have names : (classDefaults.map Prod.fst).filter
      (fun key => decide (key ≠ "runtime_revision") && decide (key ∉ Providers.excluded py second)) =
      (classDefaults.map Prod.fst).filter
      (fun key => decide (key ≠ "runtime_revision") && decide (key ∉ Providers.excluded py first)) := by
    apply List.filter_congr
    intro key _
    by_cases revision : key = "runtime_revision"
    · rw [decide_eq_false (not_not.mpr revision), Bool.false_and, Bool.false_and]
    · rw [decide_eq_decide.mpr (not_congr (same.excluded revision))]
  rw [names]
  apply pick_congr
  intro key member
  obtain ⟨known, wanted⟩ := List.mem_filter.mp member
  obtain ⟨other, kept⟩ := Bool.and_eq_true_iff.mp wanted
  exact same.kept key known (of_decide_eq_true kept) (of_decide_eq_true other)

theorem field_filter_ne (name : String) (data : Fields) :
    field key (data.filter fun f => f.1 ≠ name) = if key = name then none else field key data := by
  induction data with
  | nil => exact (ite_self _).symm
  | cons f data ih =>
      rw [List.filter_cons]
      split
      · rename_i other
        rw [field_cons, field_cons, ih]
        split
        · rename_i same
          have here : f.1 ≠ key := fun here => of_decide_eq_true other (here.trans same)
          rw [if_neg here]
          rfl
        · rfl
      · rename_i same
        have same : f.1 = name := by simpa using same
        rw [ih, field_cons]
        split
        · rfl
        · rename_i other
          have here : f.1 ≠ key := fun here => other (here.symm.trans same)
          rw [if_neg here, Option.or_none]

/-! ## The profile of a turn -/

theorem pinned_congr {first second : Fields}
    (same : first.filter (fun f => f.1 ≠ "runtime_revision") = second.filter fun f => f.1 ≠ "runtime_revision") :
    pinned first = pinned second := by
  unfold pinned
  rw [same]

theorem field_pinned (job : Fields) (other : key ≠ "runtime_revision") :
    field key (pinned job) = (field key job).or
      (if isText "whisperx" (field "engine" job) = true ∧ key = "diarization_model" then some defaultDiarization else none) := by
  unfold pinned
  dsimp only
  have engine : "engine" ≠ "runtime_revision" := by decide
  have mode : "diarization_model" ≠ "runtime_revision" := by decide
  rw [field_filter_ne, field_filter_ne, if_neg engine, if_neg mode]
  split
  · rename_i fills
    rw [field_append, field_cons, field_nil, Option.none_or, field_filter_ne, if_neg other]
    by_cases same : key = "diarization_model"
    · rw [if_pos same.symm, if_pos ⟨fills.1, same⟩, same, Option.isNone_iff_eq_none.mp fills.2]
      rfl
    · have unfilled : ¬(isText "whisperx" (field "engine" job) = true ∧ key = "diarization_model") := fun both => same both.2
      rw [if_neg (Ne.symm same), if_neg unfilled, Option.or_none, Option.none_or]
  · rename_i kept
    rw [field_filter_ne, if_neg other]
    split
    · rename_i both
      obtain ⟨whisperx, rfl⟩ := both
      cases found : field "diarization_model" job with
      | none => exact absurd ⟨whisperx, by rw [found]; rfl⟩ kept
      | some model => rfl
    · rw [Option.or_none]

/-- A turn's profile says what the engine of the job says. -/
theorem field_pinned_profile {value : Value} (other : key ≠ "runtime_revision") (notMode : key ≠ "diarization_model")
    (found : field key (pinned (profile py engine)) = some value) : field key engine = some value := by
  rw [field_pinned _ other, if_neg (fun both => notMode both.2), Option.or_none, field_profile] at found
  split at found
  · exact found
  · cases found

theorem field_pinned_kept (known : key ∈ classFields) (kept : key ∉ excluded py engine) (other : key ≠ "runtime_revision")
    {value : Value} (found : field key engine = some value) : field key (pinned (profile py engine)) = some value := by
  rw [field_pinned _ other, field_profile, if_pos ⟨known, kept⟩, found]
  rfl

/-! ## Stages of a pipeline -/

/-- What the diarization stage of a pipeline sets itself. -/
def stageFields (py : Python) (diarization : Value) : Fields :=
  merge [("diarization_model", .str "none"), ("speaker_model", .str "")] <|
    match diarization with
    | .obj stage =>
        if truthy py ((field "embedded" stage).getD (.bool false)) then
          [("diarization_model", ((asObject (field "settings" stage)).bind (field "speaker_model")).getD .null)]
        else if isText "pyannote" (field "kind" stage) then ((field "settings" stage).bind pairsOf).getD []
        else []
    | _ => []

theorem stageFields_mode (py : Python) (diarization : Value) :
    (field "diarization_model" (stageFields py diarization)).isSome = true := by
  unfold stageFields
  rw [field_merge, Option.isSome_or, Bool.or_eq_true]
  right
  rfl

theorem diarizationStage_fields {diarization : Value} {out : Fields} (done : diarizationStage py diarization data = some out) :
    field key out = (field key (stageFields py diarization)).or (field key data) := by
  unfold diarizationStage at done
  unfold stageFields
  dsimp only at done
  split at done
  · cases done
    simp only [field_merge, field_nil, Option.none_or]
  · rename_i stage
    dsimp only
    split at done
    · rename_i embedded
      rw [if_pos embedded]
      split at done
      · obtain ⟨settings, present, done⟩ := Option.bind_eq_some_iff.mp done
        obtain ⟨model, named, done⟩ := Option.bind_eq_some_iff.mp done
        cases done
        rw [present, Option.bind_some, named, Option.getD_some, field_merge, field_cons, field_nil, Option.none_or]
        by_cases same : key = "diarization_model"
        · rw [same, field_setField, if_pos rfl]
          rfl
        · rw [field_setField_of_ne same, if_neg (Ne.symm same), field_merge, Option.none_or]
      · cases done
    · rename_i separate
      rw [if_neg separate]
      obtain ⟨kind, found, done⟩ := Option.bind_eq_some_iff.mp done
      rw [found]
      split at done
      · rename_i pyannote
        obtain ⟨settings, given, done⟩ := Option.bind_eq_some_iff.mp done
        cases done
        rw [if_pos pyannote, given, Option.getD_some, field_merge, field_merge, field_merge, Option.or_assoc]
      · rename_i foreign
        cases done
        rw [if_neg foreign, field_merge, field_merge, field_nil, Option.none_or]
  · cases done

theorem pipelineData_inv {pipeline : Value} {given : Option Fields} (done : pipelineData py pipeline given = some data) :
    ∃ base, sttData pipeline = some base ∧ ∀ key, key ≠ "credential_store" →
      field key data = (field key (stageFields py (diarizationOf pipeline))).or ((field key (given.getD [])).or (field key base)) := by
  obtain ⟨base, stt, done⟩ := Option.bind_eq_some_iff.mp done
  obtain ⟨staged, stages, done⟩ := Option.bind_eq_some_iff.mp done
  cases done
  refine ⟨base, stt, fun key other => ?_⟩
  rw [field_setField_of_ne other, diarizationStage_fields stages, field_merge]

theorem sttData_fields {pipeline : Value} {base : Fields} (done : sttData pipeline = some base) :
    (∃ kind, field "engine" base = some kind) ∧ field "pipeline" base = some pipeline := by
  obtain ⟨stages, -, done⟩ := Option.bind_eq_some_iff.mp done
  obtain ⟨stt, -, done⟩ := Option.bind_eq_some_iff.mp done
  obtain ⟨settings, -, done⟩ := Option.bind_eq_some_iff.mp done
  obtain ⟨kind, -, done⟩ := Option.bind_eq_some_iff.mp done
  cases done
  exact ⟨⟨kind, by rw [field_merge]; rfl⟩, by rw [field_merge]; rfl⟩

/-! ## What a load reads -/

/-- The `pipeline` of the settings file itself. -/
def Place.ownPipeline (place : Place) : Option Value := (asObject place.settings).bind (field "pipeline")

def Place.engineName (place : Place) : Option Value := (asObject place.settings).map (getText "engine" "whisperx")

/-- The snapshot of the selected providers is the only pipeline in sight at the admission. -/
def Place.Plain (py : Python) (place : Place) : Prop :=
  (place.registry = none → isNull place.ownPipeline = true) ∧
    ∀ pipeline, place.pipeline = some pipeline → field "pipeline" (stageFields py (diarizationOf pipeline)) = none

/-- No later settings file names a pipeline for a job of its engine that has none. -/
def Place.Quiet (place later : Place) : Prop :=
  place.registry = none → later.engineName = place.engineName → isNull later.ownPipeline = true

/-- What a load completes: the settings of the day, or those of the pipeline. -/
theorem loadPinned_completes {place : Place} {given : Option Fields} (done : loadPinned py place given = some engine) :
    ∃ pipeline data urlOk, snapshot place given = some pipeline ∧ complete py place.runtime urlOk data = some engine ∧
      ((isNull (some pipeline) = true ∧ ∃ file, asObject place.settings = some file ∧ legacyData file given = some data) ∨
        (isNull (some pipeline) = false ∧ pipelineData py pipeline given = some data)) := by
  obtain ⟨settings, read, done⟩ := Option.bind_eq_some_iff.mp done
  obtain ⟨pipeline, snapshot, done⟩ := Option.bind_eq_some_iff.mp done
  obtain ⟨data, source, done⟩ := Option.bind_eq_some_iff.mp done
  obtain ⟨completed, completes, done⟩ := Option.bind_eq_some_iff.mp done
  obtain ⟨kind, -, done⟩ := Option.bind_eq_some_iff.mp done
  split at done
  · cases done
    refine ⟨pipeline, data, _, snapshot, completes, ?_⟩
    unfold Providers.source at source
    split at source
    · rename_i null
      obtain ⟨file, object, source⟩ := Option.bind_eq_some_iff.mp source
      exact .inl ⟨null, file, by rw [read, object], source⟩
    · rename_i other
      exact .inr ⟨Bool.eq_false_iff.mpr other, source⟩
  · cases done

/-! ## Completed settings -/

theorem engineDefaults_known (value : Option Value) (known : key ∈ classFields) :
    ∃ default, field key (engineDefaults value) = some default := by
  have listed : ∀ key ∈ classFields, (field key classDefaults).isSome = true := by decide
  rw [← Option.isSome_iff_exists]
  unfold engineDefaults
  rw [field_merge, Option.isSome_or, listed key known, Bool.or_true]

/-- The defaults of the engines are about their model and their device alone. -/
theorem engineDefaults_class (value : Option Value)
    (other : key ∉ ["model", "language", "device", "diarization_model"]) :
    field key (engineDefaults value) = field key classDefaults := by
  have parakeet : field key (parakeetDefaults value) = none := by
    unfold parakeetDefaults
    split
    · simp only [List.mem_cons, List.not_mem_nil, or_false, not_or] at other
      simp only [field_cons, field_nil, Option.none_or, Ne.symm other.1, Ne.symm other.2.1, Ne.symm other.2.2.1, if_false]
    · rfl
  have whisperkit : field key (whisperkitDefaults value) = none := by
    unfold whisperkitDefaults
    split
    · simp only [List.mem_cons, List.not_mem_nil, or_false, not_or] at other
      simp only [field_cons, field_nil, Option.none_or, Ne.symm other.1, Ne.symm other.2.2.1, Ne.symm other.2.2.2, if_false]
    · rfl
  have server : field key (serverDefaults value) = none := by
    unfold serverDefaults
    split
    · simp only [List.mem_cons, List.not_mem_nil, or_false, not_or] at other
      simp only [field_cons, field_nil, Option.none_or, Ne.symm other.2.1, Ne.symm other.2.2.1, Ne.symm other.2.2.2, if_false]
    · rfl
  unfold engineDefaults
  rw [field_merge, field_merge, field_merge, parakeet, whisperkit, server, Option.or_none, Option.none_or,
    Option.none_or]

theorem complete_named (done : complete py rt urlOk data = some engine) (stable : key ∉ volatile) {value : Value}
    (named : field key data = some value) : field key engine = some value := by
  obtain ⟨managed, -, adds⟩ := complete_adds done
  rw [adds key stable, named]
  rfl

theorem complete_unnamed (done : complete py rt urlOk data = some engine) (stable : key ∉ volatile)
    (mode : key ≠ "diarization_model") (unnamed : field key data = none) :
    field key engine = field key (engineDefaults (field "engine" data)) := by
  obtain ⟨managed, either, adds⟩ := complete_adds done
  rw [adds key stable, unnamed, field_merge]
  rcases either with rfl | rfl
  · rfl
  · rw [field_cons, if_neg (Ne.symm mode)]
    rfl

theorem complete_known (done : complete py rt urlOk data = some engine) (stable : key ∉ volatile) (known : key ∈ classFields) :
    ∃ value, field key engine = some value := by
  obtain ⟨managed, -, adds⟩ := complete_adds done
  obtain ⟨default, found⟩ := engineDefaults_known (field "engine" data) known
  rw [adds key stable, field_merge, found, ← Option.isSome_iff_exists]
  simp only [Option.isSome_or, Option.isSome_some, Bool.or_true]

/-! ## Jobs of a pipeline -/

/-- The pipeline of a job settles its engine: with or without the rest of the profile, the settings are the same. -/
theorem pipeline_job {pipeline : Value} {first second : Fields} {rt rt' : Runtime} {urlOk urlOk' : Value → Bool}
    {engine engine' : Fields} (admitted : pipelineData py pipeline none = some first)
    (completed : complete py rt urlOk first = some engine)
    (again : pipelineData py pipeline (some (pinned (profile py engine))) = some second)
    (recompleted : complete py rt' urlOk' second = some engine') (stable : key ∉ volatile) (other : key ≠ "credential_store") :
    field key engine' = field key engine := by
  obtain ⟨base, stt, firstFields⟩ := pipelineData_inv admitted
  obtain ⟨base', stt', secondFields⟩ := pipelineData_inv again
  rw [stt] at stt'
  cases stt'
  obtain ⟨⟨kind, named⟩, -⟩ := sttData_fields stt
  -- The profile carries the engine, so the defaults are those of the same engine.
  have sameEngine : field "engine" second = field "engine" first := by
    rw [secondFields "engine" (by decide), firstFields "engine" (by decide)]
    cases own : field "engine" (stageFields py (diarizationOf pipeline)) with
    | some value => rw [Option.some_or, Option.some_or]
    | none =>
        have here : field "engine" first = some kind := by
          rw [firstFields "engine" (by decide), own, named, Option.none_or, Option.getD_none, field_nil, Option.none_or]
        have pinned : field "engine" (pinned (profile py engine)) = some kind :=
          field_pinned_kept (by decide) (engine_kept engine) (by decide) (complete_named completed (by decide) here)
        rw [named, Option.getD_some, Option.getD_none, pinned, field_nil, Option.none_or, Option.none_or, Option.none_or,
          Option.some_or]
  have revision : key ≠ "runtime_revision" := fun same => stable (same ▸ by decide)
  have here := firstFields key other
  have there := secondFields key other
  cases own : field key (stageFields py (diarizationOf pipeline)) with
  | some value =>
      rw [own] at here there
      rw [complete_named completed stable here, complete_named recompleted stable there]
  | none =>
      have mode : key ≠ "diarization_model" := by
        rintro rfl
        have own' := stageFields_mode py (diarizationOf pipeline)
        rw [own] at own'
        cases own'
      rw [own, Option.none_or] at here there
      cases kept : field key (pinned (profile py engine)) with
      | some value =>
          rw [Option.getD_some, kept] at there
          rw [complete_named recompleted stable there, field_pinned_profile revision mode kept]
      | none =>
          rw [Option.getD_some, kept, Option.none_or] at there
          rw [Option.getD_none, field_nil, Option.none_or] at here
          cases set : field key base with
          | some value =>
              rw [set] at here there
              rw [complete_named completed stable here, complete_named recompleted stable there]
          | none =>
              rw [set] at here there
              rw [complete_unnamed completed stable mode here, complete_unnamed recompleted stable mode there, sameEngine]

theorem excluded_runtime (known : key ∉ excluded py engine) (other : key ≠ "runtime_revision") :
    key ∉ volatile ∧ key ≠ "credential_store" := by
  unfold excluded at known
  simp only [List.mem_append, not_or] at known
  have always := known.1.1.1.1.1.1
  simp only [List.mem_cons, List.not_mem_nil, or_false, not_or] at always
  refine ⟨?_, always.2.2.2.2⟩
  simp only [volatile, List.mem_cons, List.not_mem_nil, or_false, not_or]
  exact ⟨always.1, always.2.2.1, other, always.2.2.2.1⟩

theorem SameJob.of_equal {first second : Fields}
    (same : ∀ key, key ∉ volatile → key ≠ "credential_store" → field key second = field key first) : SameJob py first second where
  engine := same "engine" (by decide) (by decide)
  pipeline := by rw [same "pipeline" (by decide) (by decide)]
  speakers := by unfold getAttr; rw [same "speaker_model" (by decide) (by decide)]
  diarization := by rw [same "diarization_model" (by decide) (by decide)]
  kept key _ kept other := same key (excluded_runtime kept other).1 (excluded_runtime kept other).2

/-! ## Jobs without a pipeline -/

/-- The settings of the day, as far as a job of the engine `name` sees them. -/
def dayField (name : String) (file : Fields) (key : String) : Option Value :=
  if isText name (some (getText "engine" "whisperx" file)) then field key file else none

theorem legacyData_fields {file job : Fields} (done : legacyData file (some job) = some data) :
    ∃ name, field "engine" job = some (.str name) ∧
      ∀ key, field key data = (field key job).or ((field key speakerDefaults).or (dayField name file key)) := by
  unfold legacyData at done
  dsimp only at done
  split at done
  · rename_i name named
    cases done
    refine ⟨name, named, fun key => ?_⟩
    rw [field_merge, field_merge]
    unfold dayField
    split <;> rfl
  · cases done

theorem pipeline_unpinned (alone : isNull (field "pipeline" engine) = true) :
    field "pipeline" (pinned (profile py engine)) = none := by
  have unfilled : "pipeline" ≠ "diarization_model" := by decide
  have left : ¬("pipeline" ∈ classFields ∧ "pipeline" ∉ excluded py engine) :=
    fun both => both.2 ((excluded_pipeline engine).mpr alone)
  rw [field_pinned _ (by decide), field_profile, if_neg left, if_neg (fun both => unfilled both.2), Option.or_none]

theorem speakers_unpinned (silent : truthy py (getAttr "speaker_model" engine) = false) :
    field "speaker_model" (pinned (profile py engine)) = none := by
  have unfilled : "speaker_model" ≠ "diarization_model" := by decide
  have left : ¬("speaker_model" ∈ classFields ∧ "speaker_model" ∉ excluded py engine) :=
    fun both => both.2 ((excluded_speakers engine).mpr silent)
  rw [field_pinned _ (by decide), field_profile, if_neg left, if_neg (fun both => unfilled both.2), Option.or_none]

theorem mode_pinned (hidden : "diarization_model" ∈ excluded py engine) :
    field "diarization_model" (pinned (profile py engine)) = some defaultDiarization := by
  obtain ⟨whisperx, -⟩ := (excluded_mode engine).mp hidden
  have unchanged : isText "whisperx" (field "engine" (profile py engine)) = true := by
    rw [field_profile, if_pos ⟨by decide, engine_kept engine⟩]
    exact whisperx
  rw [field_pinned _ (by decide), field_profile, if_neg (fun both => both.2 hidden), if_pos ⟨unchanged, rfl⟩]
  rfl

section Legacy
variable {rt rt' : Runtime} {urlOk urlOk' : Value → Bool} {first second file engine engine' : Fields}

theorem legacy_keeps (again : legacyData file (some (pinned (profile py engine))) = some second)
    (recompleted : complete py rt' urlOk' second = some engine') (stable : key ∉ volatile) {value : Value}
    (found : field key (pinned (profile py engine)) = some value) : field key engine' = some value := by
  obtain ⟨name, -, fields⟩ := legacyData_fields again
  apply complete_named recompleted stable
  rw [fields key, found, Option.some_or]

/-- What remains of the pipeline of the settings file. -/
theorem legacy_pipeline (alone : isNull (field "pipeline" engine) = true)
    (again : legacyData file (some (pinned (profile py engine))) = some second)
    (recompleted : complete py rt' urlOk' second = some engine') :
    isNull (field "pipeline" engine') = true ↔
      (field "engine" engine = some (getText "engine" "whisperx" file) → isNull (field "pipeline" file) = true) := by
  obtain ⟨name, named, fields⟩ := legacyData_fields again
  have ran : field "engine" engine = some (.str name) := field_pinned_profile (by decide) (by decide) named
  have own : field "pipeline" second = dayField name file "pipeline" := by
    rw [fields, pipeline_unpinned alone]
    rfl
  have left : isNull (field "pipeline" engine') = isNull (dayField name file "pipeline") := by
    cases set : dayField name file "pipeline" with
    | none =>
        rw [set] at own
        rw [complete_unnamed recompleted (by decide) (by decide) own, engineDefaults_class _ (by decide)]
        rfl
    | some value =>
        rw [set] at own
        rw [complete_named recompleted (by decide) own]
  rw [left, ran]
  unfold dayField
  split
  · rename_i same
    rw [isText_eq same]
    exact ⟨fun null _ => null, fun quiet => quiet rfl⟩
  · rename_i other
    refine iff_of_true rfl fun same => ?_
    rw [← Option.some.inj same] at other
    exact absurd (by simp [isText]) other

/-- A job without a pipeline keeps its engine as long as no pipeline comes from the settings. -/
theorem legacy_job (completed : complete py rt urlOk first = some engine) (alone : isNull (field "pipeline" engine) = true)
    (again : legacyData file (some (pinned (profile py engine))) = some second)
    (recompleted : complete py rt' urlOk' second = some engine') :
    (field "engine" engine = some (getText "engine" "whisperx" file) → isNull (field "pipeline" file) = true) ↔
      SameJob py engine engine' := by
  have pipeline := legacy_pipeline alone again recompleted
  constructor
  · intro quiet
    have known : ∀ key ∈ classFields, key ∉ excluded py engine → key ≠ "runtime_revision" →
        field key engine' = field key engine := by
      intro key known kept other
      have stable := (excluded_runtime kept other).1
      obtain ⟨value, found⟩ := complete_known completed stable known
      rw [found, legacy_keeps again recompleted stable (field_pinned_kept known kept other found)]
    refine ⟨?_, ?_, ?_, ?_, known⟩
    · exact known "engine" (by decide) (engine_kept engine) (by decide)
    · rw [pipeline.mpr quiet, alone]
    · by_cases speaks : truthy py (getAttr "speaker_model" engine) = true
      · have kept := mt (excluded_speakers engine).mp (by rw [speaks]; decide)
        unfold getAttr
        rw [known "speaker_model" (by decide) kept (by decide)]
      · have silent : truthy py (getAttr "speaker_model" engine) = false := Bool.eq_false_iff.mpr speaks
        obtain ⟨name, -, fields⟩ := legacyData_fields again
        have cleared : field "speaker_model" engine' = some (.str "") := by
          apply complete_named recompleted (by decide)
          rw [fields, speakers_unpinned silent]
          rfl
        rw [silent]
        unfold getAttr
        rw [cleared]
        rfl
    · by_cases hidden : "diarization_model" ∈ excluded py engine
      · obtain ⟨-, speaks⟩ := (excluded_mode engine).mp hidden
        rw [legacy_keeps again recompleted (by decide) (mode_pinned hidden), speaks]
        rfl
      · rw [known "diarization_model" (by decide) hidden (by decide)]
  · intro same
    apply pipeline.mp
    rw [same.pipeline, alone]

end Legacy

/-! ## Every turn of a job -/

/-- The profile up to the revision of the runtime that ran. -/
def revisionless (job : Fields) : Fields := job.filter fun f => f.1 ≠ "runtime_revision"

/-- One turn at a job: a load that fails leaves the profile in the job. -/
def turn (py : Python) (job : Fields) (later : Place) : Fields := (reload py later job).getD job

def turns (py : Python) (job : Fields) (laters : List Place) : Fields := laters.foldl (turn py) job

theorem isNull_unlisted (known : (field "pipeline" engine).isSome = true) :
    isNull (field "pipeline" engine) = true ↔ field "pipeline" (revisionless (profile py engine)) = none := by
  have other : "pipeline" ≠ "runtime_revision" := by decide
  have member : "pipeline" ∈ classFields := by decide
  unfold revisionless
  rw [field_filter_ne, if_neg other, field_profile, ← @excluded_pipeline py]
  by_cases hidden : "pipeline" ∈ excluded py engine
  · rw [if_neg (fun both => both.2 hidden)]
    exact iff_of_true hidden rfl
  · rw [if_pos ⟨member, hidden⟩]
    refine iff_of_false hidden fun absent => ?_
    rw [absent] at known
    cases known

/-- What an admission completes: the settings of the day without a pipeline, or the selected providers. -/
theorem admitted_source {place : Place} (plain : place.Plain py) (admitted : loadPinned py place none = some engine) :
    ∃ data urlOk, complete py place.runtime urlOk data = some engine ∧
      ((place.registry = none ∧ isNull (field "pipeline" engine) = true ∧ field "engine" engine = place.engineName) ∨
        ∃ pipeline, place.registry ≠ none ∧ isNull (some pipeline) = false ∧ field "pipeline" engine = some pipeline ∧
          pipelineData py pipeline none = some data) := by
  obtain ⟨pipeline, data, urlOk, seen, completed, source⟩ := loadPinned_completes admitted
  have seen : place.pipeline = some pipeline := seen
  refine ⟨data, urlOk, completed, ?_⟩
  rcases source with ⟨null, file, object, given⟩ | ⟨other, given⟩
  · have alone : place.registry = none := by
      cases set : place.registry with
      | none => rfl
      | some selected =>
          unfold Place.pipeline at seen
          rw [set] at seen
          cases selected with
          | none => cases seen
          | some effective =>
              cases seen
              cases null
    have own := plain.1 alone
    unfold Place.ownPipeline at own
    rw [object, Option.bind_some] at own
    have given : file = data := Option.some.inj given
    rw [given] at object own
    refine .inl ⟨alone, ?_, ?_⟩
    · cases set : field "pipeline" data with
      | none =>
          rw [complete_unnamed completed (by decide) (by decide) set, engineDefaults_class _ (by decide)]
          rfl
      | some value =>
          rw [set] at own
          rw [complete_named completed (by decide) set]
          exact own
    · unfold Place.engineName getText
      rw [object, Option.map_some]
      cases set : field "engine" data with
      | none =>
          rw [complete_unnamed completed (by decide) (by decide) set, engineDefaults_class _ (by decide)]
          rfl
      | some value => exact complete_named completed (by decide) set
  · have chosen : place.registry ≠ none := by
      intro alone
      unfold Place.pipeline at seen
      rw [alone] at seen
      cases seen
      cases other
    obtain ⟨base, stt, fields⟩ := pipelineData_inv given
    obtain ⟨-, snapshot⟩ := sttData_fields stt
    refine .inr ⟨pipeline, chosen, other, ?_, given⟩
    apply complete_named completed (by decide)
    rw [fields "pipeline" (by decide), plain.2 pipeline seen, snapshot]
    rfl

/-- A turn keeps the engine of the job exactly when no pipeline comes from its settings. -/
theorem turn_same {place later : Place} {engine' : Fields} (plain : place.Plain py)
    (admitted : loadPinned py place none = some engine)
    (reloaded : loadPinned py later (some (pinned (profile py engine))) = some engine') :
    place.Quiet later ↔ SameJob py engine engine' := by
  obtain ⟨first, _, completed, admission⟩ := admitted_source plain admitted
  obtain ⟨pipeline', second, _, seen, recompleted, source⟩ := loadPinned_completes reloaded
  have seen := Option.some.inj seen
  unfold Place.Quiet
  rcases admission with ⟨alone, null, name⟩ | ⟨pipeline, chosen, other, carried, given⟩
  · have absent : pipeline' = .null := by
      rw [← seen, pipeline_unpinned null]
      rfl
    rcases source with ⟨-, file, object, again⟩ | ⟨other, -⟩
    · rw [← legacy_job completed null again recompleted, ← name]
      unfold Place.engineName Place.ownPipeline
      rw [object, Option.bind_some, Option.map_some]
      exact ⟨fun quiet same => quiet alone same.symm, fun quiet _ same => quiet same.symm⟩
    · rw [absent] at other
      cases other
  · have kept : "pipeline" ∉ excluded py engine := by
      rw [excluded_pipeline, carried, other]
      decide
    have same : pipeline' = pipeline := by
      rw [← seen, field_pinned_kept (by decide) kept (by decide) carried]
      rfl
    rcases source with ⟨null, -⟩ | ⟨-, again⟩
    · rw [same, other] at null
      cases null
    · rw [same] at again
      refine iff_of_true (fun alone => absurd alone chosen) (SameJob.of_equal fun key stable store => ?_)
      exact pipeline_job given completed again recompleted stable store

theorem known_pipeline {place : Place} {given : Option Fields} (done : loadPinned py place given = some engine) :
    (field "pipeline" engine).isSome = true := by
  obtain ⟨_, data, _, -, completed, -⟩ := loadPinned_completes done
  have known : "pipeline" ∈ classFields := by decide
  obtain ⟨value, found⟩ := complete_known completed (by decide) known
  rw [found]
  rfl

/-- The stored profile tells whether the turn kept the engine. -/
theorem profile_same_iff {place later : Place} {engine' : Fields} (plain : place.Plain py)
    (admitted : loadPinned py place none = some engine)
    (reloaded : loadPinned py later (some (pinned (profile py engine))) = some engine') :
    revisionless (profile py engine') = revisionless (profile py engine) ↔ place.Quiet later := by
  constructor
  · intro same alone
    -- A pipeline that came in is a field of the profile.
    have pipeline : isNull (field "pipeline" engine') = isNull (field "pipeline" engine) := by
      rw [Bool.eq_iff_iff, @isNull_unlisted py _ (known_pipeline reloaded), @isNull_unlisted py _ (known_pipeline admitted),
        same]
    obtain ⟨first, _, completed, ⟨-, null, name⟩ | ⟨_, chosen, -⟩⟩ := admitted_source plain admitted
    · obtain ⟨pipeline', second, _, seen, recompleted, source⟩ := loadPinned_completes reloaded
      have seen := Option.some.inj seen
      rw [pipeline_unpinned null] at seen
      rcases source with ⟨-, file, object, again⟩ | ⟨other, -⟩
      · have left := (legacy_pipeline null again recompleted).mp (pipeline.trans null)
        unfold Place.engineName at name ⊢
        unfold Place.ownPipeline
        rw [object, Option.bind_some, Option.map_some, ← name]
        exact fun same => left same.symm
      · rw [← seen] at other
        cases other
    · exact absurd alone chosen
  · intro quiet
    exact SameJob.profile ((turn_same plain admitted reloaded).mp quiet)

theorem turn_kept {place later : Place} {job : Fields} (plain : place.Plain py)
    (admitted : loadPinned py place none = some engine) (quiet : place.Quiet later)
    (same : revisionless job = revisionless (profile py engine)) :
    revisionless (turn py job later) = revisionless (profile py engine) := by
  unfold turn reload
  rw [pinned_congr same]
  cases reloaded : loadPinned py later (some (pinned (profile py engine))) with
  | none => exact same
  | some engine' => exact (profile_same_iff plain admitted reloaded).mpr quiet

/-- A turn leaves the admitted profile as it is, up to the revision of the runtime, exactly when the settings file of the
turn names no pipeline of its own for the engine of a job that has none; and over turns of that kind it stays so. -/
theorem job_keeps_engine {place : Place} (plain : place.Plain py) (admitted : loadPinned py place none = some engine) :
    (∀ later engine', loadPinned py later (some (pinned (profile py engine))) = some engine' →
        (revisionless (profile py engine') = revisionless (profile py engine) ↔ place.Quiet later)) ∧
      ∀ laters, (∀ later ∈ laters, place.Quiet later) →
        revisionless (turns py (profile py engine) laters) = revisionless (profile py engine) := by
  refine ⟨fun later engine' reloaded => profile_same_iff plain admitted reloaded, fun laters quiet => ?_⟩
  induction laters using List.reverseRecOn with
  | nil => rfl
  | append_singleton laters later ih =>
      unfold turns at ih ⊢
      rw [List.foldl_append, List.foldl_cons, List.foldl_nil]
      exact turn_kept plain admitted (quiet later (by simp)) (ih fun earlier member => quiet earlier (by simp [member]))

/-- A machine without a registry and with these settings. -/
def settingsOnly (settings : Fields) : Place := ⟨plainRuntime, some (.obj settings), none⟩

/-- The settings of today, and those of tomorrow with an empty pipeline. -/
def parakeetOnly : Place := settingsOnly [("engine", .str "parakeet-mlx")]

def parakeetStaged : Place := settingsOnly [("engine", .str "parakeet-mlx"), ("pipeline", .obj [])]

theorem parakeetOnly_plain : parakeetOnly.Plain asciiPython :=
  ⟨fun _ => rfl, fun pipeline seen => by cases seen; rfl⟩

/-- The same settings at every turn keep the profile. -/
theorem job_keeps_engine_parakeet :
    ∃ engine, loadPinned asciiPython parakeetOnly none = some engine ∧
      revisionless (turns asciiPython (profile asciiPython engine) [parakeetOnly, parakeetOnly]) =
        revisionless (profile asciiPython engine) := by
  have loads : (loadPinned asciiPython parakeetOnly none).isSome = true := by decide +kernel
  obtain ⟨engine, admitted⟩ := Option.isSome_iff_exists.mp loads
  refine ⟨engine, admitted, (job_keeps_engine parakeetOnly_plain admitted).2 _ ?_⟩
  intro later member _ _
  obtain rfl : later = parakeetOnly := by simpa using member
  rfl

/-- A settings file that came to hold an empty pipeline puts it into the job. -/
theorem pipeline_flows_back :
    ¬ ∀ place later engine engine', loadPinned asciiPython place none = some engine →
      loadPinned asciiPython later (some (pinned (profile asciiPython engine))) = some engine' →
      revisionless (profile asciiPython engine') = revisionless (profile asciiPython engine) := by
  intro kept
  have loads : ((loadPinned asciiPython parakeetOnly none).bind fun engine =>
      loadPinned asciiPython parakeetStaged (some (pinned (profile asciiPython engine)))).isSome = true := by decide +kernel
  obtain ⟨engine', both⟩ := Option.isSome_iff_exists.mp loads
  obtain ⟨engine, admitted, reloaded⟩ := Option.bind_eq_some_iff.mp both
  have same := kept parakeetOnly parakeetStaged engine engine' admitted reloaded
  have quiet := (profile_same_iff parakeetOnly_plain admitted reloaded).mp same
  cases quiet rfl rfl

end OmiLocal.Providers
