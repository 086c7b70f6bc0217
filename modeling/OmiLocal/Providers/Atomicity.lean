import OmiLocal.Providers.Credentials

/-!
# Edits from several windows

Each window runs the locked part of an edit and, later, the `read` that gives
its answer. An edit is atomic when a raised error leaves the stored state as it
was. The file that `atomic_json` writes has no size limit while `read_json` has
one, so the closing `read` of an edit can raise after its state is stored.
-/
namespace OmiLocal.Providers
open Lib.Json Lib.Fallible

/-! ## Coherent selection -/

/-- The diarization mode that belongs to the active diarization. -/
def modeOf (diarization : Option Profile) : Option Value :=
  match diarization with
  | some p => if p.embedded then field "speaker_model" p.settings else some (.str "none")
  | none => some (.str "none")

structure Coherent (state : State) : Prop where
  listed : ∀ stage p, state.effective stage = some p → p.stage = stage ∧ ∃ q ∈ state.profiles, q.id = p.id
  supported : ∀ p, state.effective .diarization = some p → p.embedded = true →
    ∃ stt, state.effective .stt = some stt ∧ (stt.kind = .whisperx ∨ stt.kind = .parakeetMlx)
  mode : ∀ stt, state.effective .stt = some stt →
    field "diarization_model" stt.settings = modeOf (state.effective .diarization)

/-- An embedded card is Pyannote's and names its model. -/
def EmbeddedOk (p : Profile) : Prop :=
  p.embedded = true → p.stage = .diarization ∧ p.kind = .pyannote ∧ (field "speaker_model" p.settings).isSome

structure Valid (state : State) : Prop extends Coherent state where
  profiles : ∀ p ∈ state.profiles, EmbeddedOk p
  effective : ∀ stage p, state.effective stage = some p → EmbeddedOk p

variable {py : Python} {uuid : Nat → String}

theorem EmbeddedOk.withModel {p : Profile} (ok : EmbeddedOk p) (model : Value) :
    EmbeddedOk (withModel model p) := by
  intro embedded
  obtain ⟨stage, kind, named⟩ := ok embedded
  refine ⟨stage, kind, ?_⟩
  change (field "speaker_model" (setField "diarization_model" model p.settings)).isSome = true
  rw [field_setField_of_ne (by decide)]
  exact named

/-! ## The legacy import -/

theorem field_pick (name : String) (names : List String) (data : Fields) :
    field name (pick names data) = if name ∈ names then field name data else none := by
  induction names with
  | nil => rfl
  | cons first names ih =>
      unfold pick at ih ⊢
      rw [List.filterMap_cons]
      cases present : field first data with
      | none =>
          simp only [Option.map_none, ih, List.mem_cons]
          by_cases same : name = first
          · subst same
            simp [present]
          · simp [same]
      | some value =>
          simp only [Option.map_some, field_cons, ih, List.mem_cons]
          by_cases same : name = first
          · subst same
            by_cases later : name ∈ names <;> simp [later, present]
          · by_cases later : name ∈ names <;> simp [later, same, Ne.symm same]

theorem isText_eq {text : String} {value : Option Value} (h : isText text value = true) :
    value = some (.str text) := by
  unfold isText at h
  split at h
  · rw [eq_of_beq h]
  · cases h

theorem textIn_eq {options : List String} {value : Option Value} (h : textIn options value = true) :
    ∃ text ∈ options, value = some (.str text) := by
  unfold textIn at h
  split at h
  · rename_i text
    exact ⟨text, by simpa using h, rfl⟩
  · cases h

/-- What the checks leave of the diarization mode of an engine file. -/
theorem loadEngine_mode {rt : Runtime} {kind : Kind} {engine : Fields}
    (h : loadEngine py rt = some (kind, engine)) :
    (∃ text, field "diarization_model" engine = some (.str text) ∧
      (text = "none" ∨ kind = .whisperx ∨ kind = .parakeetMlx)) ∧
    (truthy py (getText "speaker_model" "" engine) = true →
      field "diarization_model" engine = some (.str "none")) := by
  obtain ⟨resolved, -, h⟩ := Option.bind_eq_some_iff.mp h
  obtain ⟨found, -, h⟩ := Option.bind_eq_some_iff.mp h
  split at h
  · rename_i checks
    cases h
    obtain ⟨general, own⟩ := checks
    simp only [generalChecks, Bool.and_eq_true, Bool.or_eq_true, Bool.not_eq_true'] at general
    obtain ⟨⟨⟨⟨⟨-, single⟩, -⟩, -⟩, -⟩, -⟩ := general
    refine ⟨?_, fun separate => ?_⟩
    · cases kind with
      | whisperx =>
          simp only [engineChecks, Bool.and_eq_true] at own
          obtain ⟨text, -, mode⟩ := textIn_eq own.2
          exact ⟨text, mode, .inr (.inl rfl)⟩
      | parakeetMlx =>
          simp only [engineChecks, Bool.and_eq_true] at own
          obtain ⟨text, -, mode⟩ := textIn_eq own.2
          exact ⟨text, mode, .inr (.inr rfl)⟩
      | whisperkit =>
          simp only [engineChecks, Bool.and_eq_true] at own
          exact ⟨"none", isText_eq own.1.1.2, .inl rfl⟩
      | openaiCompatible =>
          simp only [engineChecks, Bool.and_eq_true] at own
          exact ⟨"none", isText_eq own.2, .inl rfl⟩
      | _ => cases own
    · rcases single with absent | mode
      · rw [separate] at absent
        cases absent
      · exact isText_eq mode
  · cases h

theorem legacySpeakers_spec {engine : Fields} {text : String}
    (mode : field "diarization_model" engine = some (.str text))
    (single : truthy py (getText "speaker_model" "" engine) = true →
      field "diarization_model" engine = some (.str "none")) :
    (∀ p, legacySpeakers py engine = some p → p.stage = .diarization ∧ EmbeddedOk p ∧
      (p.embedded = true → text ≠ "none")) ∧
    modeOf (legacySpeakers py engine) = some (.str text) := by
  have value : getText "diarization_model" "none" engine = .str text := by
    unfold getText
    rw [mode]
    rfl
  unfold legacySpeakers
  split
  · rename_i separate
    have none := single separate
    rw [mode] at none
    cases none
    refine ⟨?_, rfl⟩
    rintro p h
    cases h
    exact ⟨rfl, fun h => (by cases h), fun h => (by cases h)⟩
  · split
    · rename_i none
      rw [value] at none
      cases isText_eq none
      exact ⟨fun p h => (by cases h), rfl⟩
    · rename_i other
      have named : text ≠ "none" := by
        rintro rfl
        exact other (by rw [value]; rfl)
      dsimp only
      refine ⟨?_, ?_⟩
      · rintro p h
        cases h
        refine ⟨rfl, fun _ => ⟨rfl, rfl, ?_⟩, fun _ => named⟩
        rw [field_cons]
        cases field "speaker_model" _ <;> rfl
      · simp only [modeOf, if_true, field_cons, value]
        split <;> rfl

theorem legacyLive_spec {files : Fields} {p : Profile} (h : legacyLive py files = some p) :
    p.stage = .live ∧ EmbeddedOk p := by
  unfold legacyLive at h
  split at h
  · cases h
    exact ⟨rfl, fun h => (by cases h)⟩
  · cases h

theorem legacy_valid {rt : Runtime} {state : State} (h : legacy py rt = .ok state) : Valid state := by
  unfold legacy at h
  split at h
  · cases h
  · split at h
    · cases h
    · rename_i kind engine loaded
      cases h
      obtain ⟨⟨text, mode, suits⟩, single⟩ := loadEngine_mode loaded
      obtain ⟨speakers, active⟩ := legacySpeakers_spec mode single
      have plain : EmbeddedOk (legacyStt kind engine) := fun h => (by cases h)
      refine ⟨⟨?_, ?_, ?_⟩, ?_, ?_⟩
      · intro stage p h
        dsimp only at h
        split at h
        · cases h
          exact ⟨rfl, _, List.mem_cons_self, rfl⟩
        · exact ⟨(speakers p h).1, p, by simp [h], rfl⟩
        · split at h
          · exact ⟨(legacyLive_spec h).1, p, by simp [h], rfl⟩
          · cases h
        · cases h
      · intro p h embedded
        have named := (speakers p h).2.2 embedded
        rcases suits with none | kind
        · exact absurd none named
        · exact ⟨_, rfl, kind⟩
      · intro stt h
        cases h
        change field "diarization_model" (pick engineFields engine) = modeOf (legacySpeakers py engine)
        rw [field_pick, if_pos (by decide), mode, active]
      · intro p member
        simp only [List.mem_cons, List.mem_append, Option.mem_toList] at member
        rcases member with rfl | member | member
        · exact plain
        · exact (speakers p member).2.1
        · exact (legacyLive_spec member).2
      · intro stage p h
        dsimp only at h
        split at h
        · cases h
          exact plain
        · exact (speakers p h).2.1
        · split at h
          · exact (legacyLive_spec h).2
          · cases h
        · cases h

def StoredValid (d : Disk) : Prop := ∀ state, d.providers = some state → Valid state

theorem load_valid {rt : Runtime} {d : Disk} {state : State} (stored : StoredValid d)
    (h : load py rt d = .ok state) : Valid state := by
  unfold load at h
  split at h
  · rename_i found
    split at h
    · cases h
    · cases h
      exact stored _ found
  · exact legacy_valid h

/-! ## Saving keeps the selection -/

theorem number_keeps {settings data : Fields} {key : String} {default low high : Int} {integer : Bool}
    (h : number py settings key default low high integer = .ok data) {name : String} (other : name ≠ key) :
    field name data = field name settings := by
  unfold number at h
  dsimp only at h
  split at h
  · cases h
    exact field_setField_of_ne other _ _
  · cases h

theorem pyannoteSettings_named {data result : Fields} (h : pyannoteSettings py data = .ok result) :
    (field "speaker_model" result).isSome = true := by
  unfold pyannoteSettings at h
  have named : (strField "speaker_model" data).isSome = true := by
    cases present : strField "speaker_model" data with
    | none => rw [present] at h; cases h
    | some model => rfl
  have kept : (field "speaker_model" data).isSome = true := by
    unfold strField at named
    split at named
    · rename_i found
      rw [found]
      rfl
    · cases named
  obtain ⟨model, present⟩ := Option.isSome_iff_exists.mp named
  rw [present] at h
  dsimp only at h
  split at h
  · cases h
  · split at h
    · cases h
    · obtain ⟨middle, threads, h⟩ := bind_ok h
      rw [number_keeps h (by decide), number_keeps threads (by decide)]
      exact kept

theorem validateProfile_named {models : Bool} {value : Value} {draft : Draft}
    (h : validateProfile py models value = .ok draft) (stage : draft.stage = .diarization)
    (kind : draft.kind = .pyannote) : (field "speaker_model" draft.settings).isSome = true := by
  unfold validateProfile at h
  split at h
  · dsimp only at h
    split at h
    · cases h
    · split at h
      · cases h
      · split at h
        · cases h
        · split at h
          · split at h
            · cases h
            · obtain ⟨_, _, h⟩ := bind_ok h
              obtain ⟨checked, settings, h⟩ := bind_ok h
              obtain ⟨_, _, h⟩ := bind_ok h
              cases h
              dsimp only at stage kind
              subst stage kind
              simp only [checkSettings, if_true] at settings
              exact pyannoteSettings_named settings
          · cases h
  · cases h

theorem draftOf_embedded {state : State} (valid : Valid state) {models : Bool} {body : Fields} {draft : Draft}
    {given : Option String} (h : draftOf py models body state = .ok (draft, given)) :
    draft.embedded = true → draft.stage = .diarization ∧ draft.kind = .pyannote ∧
      (field "speaker_model" draft.settings).isSome = true := by
  unfold draftOf at h
  obtain ⟨fresh, checked, h⟩ := bind_ok h
  obtain ⟨inherited, taken, h⟩ := bind_ok h
  have cleared : ∀ d : Draft, (clearKey py body d).embedded = d.embedded ∧
      (clearKey py body d).stage = d.stage ∧ (clearKey py body d).kind = d.kind ∧
      (clearKey py body d).settings = d.settings := by
    intro d
    unfold clearKey
    split <;> exact ⟨rfl, rfl, rfl, rfl⟩
  have same : draft = clearKey py body inherited := by
    split at h
    · cases h
      rfl
    · obtain ⟨_, _, h⟩ := bind_ok h
      cases h
      rfl
  subst same
  obtain ⟨embedded, stage, kind, settings⟩ := cleared inherited
  rw [embedded, stage, kind, settings]
  unfold inherit at taken
  split at taken
  · cases taken
    intro h
    rw [(validateProfile_fresh checked).2] at h
    cases h
  · rename_i previous found
    split at taken
    · cases taken
    · rename_i alike
      rw [not_or, not_not, not_not] at alike
      split at taken
      · cases taken
        intro h
        obtain ⟨stage, kind, -⟩ := valid.profiles previous (findProfile_mem found) h
        exact ⟨alike.1.symm.trans stage, alike.2.symm.trans kind,
          @validateProfile_named _ _ _ fresh checked (alike.1.symm.trans stage) (alike.2.symm.trans kind)⟩
      · cases taken

theorem putProfile_ids {profile : Profile} {profiles result : List Profile}
    (h : putProfile profile profiles = .ok result) {q : Profile} (member : q ∈ profiles) :
    ∃ r ∈ result, r.id = q.id := by
  unfold putProfile at h
  split at h
  · rename_i index found
    cases h
    obtain ⟨inside, same, -⟩ := List.findIdx?_eq_some_iff_getElem.mp found
    obtain ⟨k, bound, rfl⟩ := List.getElem_of_mem member
    by_cases here : index = k
    · subst here
      exact ⟨profile, List.mem_set inside profile, (eq_of_beq same).symm⟩
    · refine ⟨profiles[k], ?_, rfl⟩
      rw [← List.getElem_set_of_ne here profile (by rw [List.length_set]; exact bound)]
      exact List.getElem_mem _
  · split at h
    · cases h
    · cases h
      exact ⟨q, List.mem_append_left _ member, rfl⟩

theorem putProfile_mem {profile : Profile} {profiles result : List Profile}
    (h : putProfile profile profiles = .ok result) {q : Profile} (member : q ∈ result) :
    q ∈ profiles ∨ q = profile := by
  unfold putProfile at h
  split at h
  · cases h
    exact List.mem_or_eq_of_mem_set member
  · split at h
    · cases h
    · cases h
      exact (List.mem_append.mp member).imp id List.mem_singleton.mp

theorem Valid.putProfile {state : State} (valid : Valid state) {profile : Profile} (ok : EmbeddedOk profile)
    {profiles : List Profile} (h : putProfile profile state.profiles = .ok profiles) (revision : Nat) :
    Valid { state with profiles := profiles, revision := revision } := by
  refine ⟨⟨?_, valid.supported, valid.mode⟩, ?_, valid.effective⟩
  · intro stage p active
    obtain ⟨same, q, member, id⟩ := valid.listed stage p active
    obtain ⟨r, listed, id'⟩ := putProfile_ids h member
    exact ⟨same, r, listed, id'.trans id⟩
  · intro p member
    rcases putProfile_mem h member with old | rfl
    · exact valid.profiles p old
    · exact ok

/-! ## Activation -/

theorem embeddedModel_mode {diarization : Option Profile} {model : Value}
    (h : embeddedModel diarization = .ok model) : modeOf diarization = some model := by
  unfold embeddedModel at h
  unfold modeOf
  split at h
  · split at h
    · rename_i embedded
      apply (if_pos embedded).trans
      split at h
      · rename_i found
        cases h
        exact found
      · cases h
    · rename_i embedded
      cases h
      apply if_neg embedded
  · cases h
    rfl

theorem mode_withModel (model : Value) (p : Profile) :
    field "diarization_model" (withModel model p).settings = some model := field_setField _ _ _

/-- A profile that may become effective for a stage. -/
def Selectable (state : State) (stage : Stage) (p : Profile) : Prop :=
  p.stage = stage ∧ (∃ q ∈ state.profiles, q.id = p.id) ∧ EmbeddedOk p

theorem Selectable.withModel {state : State} {stage : Stage} {p : Profile} (ok : Selectable state stage p)
    (model : Value) : Selectable state stage (withModel model p) :=
  ⟨ok.1, ok.2.1, ok.2.2.withModel model⟩

theorem Valid.selectable {state : State} (valid : Valid state) {stage : Stage} {p : Profile}
    (active : state.effective stage = some p) : Selectable state stage p :=
  ⟨(valid.listed stage p active).1, (valid.listed stage p active).2, valid.effective stage p active⟩

theorem wantedProfile_selectable {state : State} (valid : Valid state) {stage : Stage} {wanted : Option Value}
    {p : Profile} (h : wantedProfile stage wanted state = some p) : Selectable state stage p := by
  obtain ⟨member, same⟩ := wantedProfile_mem h
  exact ⟨same, ⟨p, member, rfl⟩, valid.profiles p member⟩

/-- Another selection is valid if its recogniser and diarization fit each other. -/
theorem Valid.select {state : State} (valid : Valid state) {effective : Stage → Option Profile} (revision : Nat)
    (each : ∀ stage p, effective stage = some p → Selectable state stage p)
    (supported : isEmbedded (effective .diarization) = true → supportsEmbedded (effective .stt) = true)
    (mode : ∀ stt, effective .stt = some stt →
      field "diarization_model" stt.settings = modeOf (effective .diarization)) :
    Valid { state with effective := effective, revision := revision } := by
  refine ⟨⟨fun stage p active => ⟨(each stage p active).1, (each stage p active).2.1⟩, ?_, mode⟩,
    valid.profiles, fun stage p active => (each stage p active).2.2⟩
  intro p active embedded
  dsimp only at active
  rw [active] at supported
  have suits := supported embedded
  cases recogniser : effective .stt with
  | none => rw [recogniser] at suits; cases suits
  | some stt =>
      rw [recogniser] at suits
      exact ⟨stt, recogniser, by simpa [supportsEmbedded] using suits⟩

theorem supportsEmbedded_withModel (model : Value) (stt : Option Profile) :
    supportsEmbedded (stt.map (withModel model)) = supportsEmbedded stt := by
  cases stt <;> rfl

theorem Valid.supports {state : State} (valid : Valid state)
    (embedded : isEmbedded (state.effective .diarization) = true) :
    supportsEmbedded (state.effective .stt) = true := by
  cases active : state.effective .diarization with
  | none => rw [active] at embedded; cases embedded
  | some p =>
      rw [active] at embedded
      obtain ⟨stt, recogniser, kind⟩ := valid.supported p active embedded
      rw [recogniser]
      simpa [supportsEmbedded] using kind

/-- The selection that a publication stores, stage by stage. -/
theorem published_effective {stage : Stage} {selected diarization : Option Profile} {state next : State}
    (h : published stage selected diarization state = .ok next) :
    next = { state with effective := next.effective, revision := state.revision + 1 } ∧
    ((stage ≠ .stt ∧ stage ≠ .diarization ∧
        next.effective = fun other => if other = stage then selected else state.effective other) ∨
      (stage = .stt ∨ stage = .diarization) ∧ (∃ model, embeddedModel diarization = .ok model ∧
        next.effective = fun other =>
          if other = .stt then (if .stt = stage then selected else state.effective .stt).map (withModel model)
          else if other = stage then selected else state.effective other) ∨
      (stage = .stt ∨ stage = .diarization) ∧ (if .stt = stage then selected else state.effective .stt) = none ∧
        next.effective = fun other => if other = stage then selected else state.effective other) := by
  obtain ⟨middle, change, rfl⟩ := map_ok h
  unfold withEmbedded at change
  split at change
  · rename_i both
    split at change
    · rename_i stt active
      obtain ⟨model, mode, rfl⟩ := map_ok change
      refine ⟨rfl, .inr (.inl ⟨both, model, mode, ?_⟩)⟩
      simp only [setEffective] at active ⊢
      funext other
      rw [active]
      rfl
    · rename_i none
      cases change
      exact ⟨rfl, .inr (.inr ⟨both, none, rfl⟩)⟩
  · rename_i neither
    rw [not_or] at neither
    cases change
    exact ⟨rfl, .inl ⟨neither.1, neither.2, rfl⟩⟩

theorem published_valid {state next : State} (valid : Valid state) {stage : Stage} {wanted : Option Value}
    {selected diarization : Option Profile} (required : stage = .stt → isNull wanted = false)
    (chosen : selectProfile stage wanted state = .ok (selected, diarization))
    (h : published stage selected diarization state = .ok next) : Valid next := by
  obtain ⟨active, found, compatible, choice⟩ := selectProfile_ok chosen
  have selectable : ∀ p, selected = some p → Selectable state stage p := by
    intro p same
    rcases choice with ⟨-, model, -, rfl⟩ | ⟨-, rfl⟩
    · obtain ⟨q, inside, rfl⟩ := Option.map_eq_some_iff.mp same
      exact (wantedProfile_selectable valid inside).withModel model
    · exact wantedProfile_selectable valid same
  have each : ∀ other p, (if other = stage then selected else state.effective other) = some p →
      Selectable state other p := by
    intro other p same
    split at same
    · rename_i here
      rw [here]
      exact selectable p same
    · exact valid.selectable same
  obtain ⟨shape, ⟨notStt, notDiarization, effective⟩ | ⟨both, model, mode, effective⟩ |
    ⟨both, none, effective⟩⟩ := published_effective h
  · rw [shape, effective]
    refine valid.select _ each ?_ ?_
    · rw [if_neg (Ne.symm notDiarization), if_neg (Ne.symm notStt)]
      exact valid.supports
    · rw [if_neg (Ne.symm notDiarization), if_neg (Ne.symm notStt)]
      exact valid.mode
  · have recogniser : (if Stage.stt = stage then selected else state.effective .stt) = selected ∧ stage = .stt ∨
        (if Stage.stt = stage then selected else state.effective .stt) = state.effective .stt ∧
          stage = .diarization := by
      rcases both with rfl | rfl
      · exact .inl ⟨if_pos rfl, rfl⟩
      · exact .inr ⟨if_neg (by decide), rfl⟩
    have next : (if Stage.diarization = stage then selected else state.effective .diarization) = diarization := by
      rw [active, nextDiarization]
      rcases both with rfl | rfl
      · rw [if_neg (by decide), if_neg (by decide)]
      · rw [if_pos rfl, if_pos rfl]
        rcases choice with ⟨impossible, -⟩ | ⟨-, same⟩
        · cases impossible
        · exact same
    rw [shape, effective]
    refine valid.select _ ?_ ?_ ?_
    · intro other p same
      split at same
      · rename_i here
        obtain ⟨q, inside, rfl⟩ := Option.map_eq_some_iff.mp same
        rw [here]
        exact (each .stt q inside).withModel model
      · exact each other p same
    · rw [if_neg (by decide), next, if_pos rfl, supportsEmbedded_withModel]
      intro embedded
      have suits := compatible both embedded
      rw [nextStt] at suits
      rcases recogniser with ⟨same, rfl⟩ | ⟨same, rfl⟩
      · rw [same]
        rcases choice with ⟨-, model, -, rfl⟩ | ⟨impossible, -⟩
        · rw [supportsEmbedded_withModel]
          exact suits
        · exact absurd rfl impossible
      · rw [same]
        exact suits
    · intro stt same
      rw [if_pos rfl] at same
      rw [if_neg (by decide : Stage.diarization ≠ .stt), next, embeddedModel_mode mode]
      obtain ⟨q, -, rfl⟩ := Option.map_eq_some_iff.mp same
      exact mode_withModel model q
  · rcases both with rfl | rfl
    · rw [if_pos rfl] at none
      rcases choice with ⟨-, model, -, rfl⟩ | ⟨impossible, -⟩
      · rw [Option.map_eq_none_iff] at none
        rcases found with null | some
        · rw [required rfl] at null
          cases null
        · rw [none] at some
          cases some
      · exact absurd rfl impossible
    · rw [if_neg (by decide)] at none
      rcases choice with ⟨impossible, -⟩ | ⟨-, same⟩
      · cases impossible
      · rw [shape, effective]
        refine valid.select _ each ?_ ?_
        · rw [if_pos rfl, if_neg (by decide)]
          intro embedded
          have diarized : diarization = selected := by
            rw [active, nextDiarization, if_pos rfl, same]
          have suits := compatible (.inr rfl) (by rw [diarized]; exact embedded)
          rw [nextStt, if_neg (by decide)] at suits
          exact suits
        · rw [if_neg (by decide), none]
          intro stt impossible
          cases impossible

theorem Valid.remove {state : State} (valid : Valid state) {profileId : String} (revision : Nat)
    (inactive : ¬ stages.any (fun stage => (state.effective stage).any (fun p => p.id == profileId)) = true) :
    Valid { state with profiles := state.profiles.filter (fun p => p.id != profileId), revision := revision } := by
  refine ⟨⟨?_, valid.supported, valid.mode⟩, ?_, valid.effective⟩
  · intro stage p active
    obtain ⟨same, q, member, id⟩ := valid.listed stage p active
    refine ⟨same, q, List.mem_filter.mpr ⟨member, ?_⟩, id⟩
    rw [id, bne_iff_ne]
    rintro rfl
    refine inactive (List.any_eq_true.mpr ⟨stage, ?_, ?_⟩)
    · cases stage <;> decide
    · rw [active]
      simp
  · intro p member
    exact valid.profiles p (List.mem_of_mem_filter member)

/-! ## One edit -/

/-- What the locked part of an edit leaves: on an error the file as it was, or the imported
legacy file in place of no file; on success a state one revision later. -/
def LockedAtomic (py : Python) (rt : Runtime) (revision : Option Value) (before : Disk)
    (outcome : Disk × Result Unit) : Prop :=
  match outcome.2 with
  | .error _ => outcome.1.providers = before.providers ∨
      before.providers = none ∧ ∃ imported, legacy py rt = .ok imported ∧ outcome.1.providers = some imported
  | .ok _ => ∃ state next, load py rt before = .ok state ∧ revision = some (.int state.revision) ∧
      outcome.1.providers = some next ∧ next.revision = state.revision + 1

theorem writeState_atomic {rt : Runtime} {io : Io} {revision : Option Value} {before d : Disk} {state next : State}
    (loaded : load py rt before = .ok state ∧ revision = some (.int state.revision))
    (raised : next.revision = state.revision + 1) (same : d.providers = before.providers) :
    LockedAtomic py rt revision before (writeState io next d) := by
  unfold writeState
  split
  · exact ⟨state, next, loaded.1, loaded.2, rfl, raised⟩
  · exact .inl same

theorem writeState_valid {io : Io} {d : Disk} {next : State} (stored : StoredValid d) (valid : Valid next) :
    StoredValid (writeState io next d).1 := by
  unfold writeState
  split
  · intro state h
    cases h
    exact valid
  · exact stored

theorem storeKey_providers (uuid : Nat → String) (io : Io) (card : Card) (given : Option String) (d : Disk) :
    (storeKey uuid io card given d).1.providers = d.providers := by
  unfold storeKey
  split
  · rfl
  · split
    · rfl
    · split
      · rfl
      · dsimp only
        split <;> rfl

theorem save_atomic {rt : Runtime} {io : Io} {body : Fields} {d : Disk} :
    LockedAtomic py rt (field "revision" body) d (save py uuid rt io body d) ∧
      (StoredValid d → StoredValid (save py uuid rt io body d).1) := by
  have unchanged : ∀ e, LockedAtomic py rt (field "revision" body) d (d, .error e) ∧
      (StoredValid d → StoredValid d) := fun e => ⟨.inl rfl, id⟩
  unfold save
  split
  · exact unchanged _
  · rename_i state loaded
    split
    · exact unchanged _
    · rename_i draft given drafted
      have providers := storeKey_providers uuid io draft.toCard given { d with uuids := d.uuids + 1 }
      dsimp only
      split
      · rename_i after e result
        rw [result] at providers
        exact ⟨.inl providers, fun stored state h => stored state (providers ▸ h)⟩
      · rename_i after ref result
        rw [result] at providers
        have kept : StoredValid d → StoredValid after := fun stored state h => stored state (providers ▸ h)
        split
        · exact ⟨.inl providers, kept⟩
        · rename_i profiles put
          refine ⟨writeState_atomic (edit_load loaded) rfl providers, fun stored => ?_⟩
          have valid := load_valid stored (edit_load loaded).1
          refine writeState_valid (kept stored) (valid.putProfile ?_ put _)
          exact draftOf_embedded valid drafted

/-- An activation that publishes and then fails has to write the original back. -/
def Restores (io : Io) : Edit → Prop
  | .activate .publishesThenFails _ => io.restored = true
  | _ => True

theorem load_providers {rt : Runtime} {d : Disk} {state : State} (h : load py rt d = .ok state) :
    d.providers = some state ∨ d.providers = none ∧ legacy py rt = .ok state := by
  unfold load at h
  split at h
  · rename_i found
    split at h
    · cases h
    · cases h
      exact .inl found
  · rename_i missing
    exact .inr ⟨missing, h⟩

theorem activate_atomic {rt : Runtime} {io : Io} {preparation : Preparation} {body : Fields} {d : Disk}
    (restores : Restores io (.activate preparation body)) :
    LockedAtomic py rt (field "revision" body) d (activate py rt io preparation body d) ∧
      (StoredValid d → StoredValid (activate py rt io preparation body d).1) := by
  have unchanged : ∀ e, LockedAtomic py rt (field "revision" body) d (d, .error e) ∧
      (StoredValid d → StoredValid d) := fun e => ⟨.inl rfl, id⟩
  unfold activate
  dsimp only
  split
  · exact unchanged _
  · rename_i stage _
    split
    · exact unchanged _
    · rename_i required
      have some : stage = .stt → isNull (field "id" body) = false := by
        intro stt
        by_contra null
        exact required ⟨stt, by simpa using null⟩
      split
      · exact unchanged _
      · rename_i original loaded
        split
        · exact unchanged _
        · rename_i selected diarization chosen
          split
          · exact unchanged _
          · exact unchanged _
          · rename_i next published
            refine ⟨writeState_atomic (edit_load loaded) ?_ rfl, fun stored => ?_⟩
            · exact congrArg State.revision (published_effective published).1
            · exact writeState_valid stored
                (published_valid (load_valid stored (edit_load loaded).1) some chosen published)
          · rename_i next published
            split
            · exact unchanged _
            · rw [if_pos (show io.restored = true from restores)]
              refine ⟨?_, fun stored state h => ?_⟩
              · rcases load_providers (edit_load loaded).1 with found | ⟨missing, imported⟩
                · exact .inl found.symm
                · exact .inr ⟨missing, original, imported, rfl⟩
              · cases h
                exact load_valid stored (edit_load loaded).1

theorem delete_atomic {rt : Runtime} {io : Io} {profileId : String} {revision : Option Value} {d : Disk} :
    LockedAtomic py rt revision d (delete py rt io profileId revision d) ∧
      (StoredValid d → StoredValid (delete py rt io profileId revision d).1) := by
  unfold delete
  split
  · exact ⟨.inl rfl, id⟩
  · rename_i state loaded
    split
    · exact ⟨.inl rfl, id⟩
    · rename_i inactive
      split
      · exact ⟨.inl rfl, id⟩
      · exact ⟨writeState_atomic (edit_load loaded) rfl rfl, fun stored =>
          writeState_valid stored ((load_valid stored (edit_load loaded).1).remove _ inactive)⟩

theorem Edit.run_atomic (py : Python) (uuid : Nat → String) (rt : Runtime) {io : Io} (d : Disk) {edit : Edit}
    (restores : Restores io edit) :
    LockedAtomic py rt edit.revision d (edit.run py uuid rt io d) ∧
      (StoredValid d → StoredValid (edit.run py uuid rt io d).1) := by
  cases edit with
  | save body => exact save_atomic
  | activate preparation body => exact activate_atomic restores
  | delete profileId revision => exact delete_atomic

/-! ## Windows -/

/-- An edit that a window made; its result is open until its `read` has run. -/
structure Call where
  edit : Edit
  runtime : Runtime
  before : Disk
  after : Disk
  result : Option (Result Unit)

structure System where
  disk : Disk
  calls : List Call

inductive Action where
  | edit (edit : Edit) (runtime : Runtime) (io : Io)
  | read (call : Nat) (runtime : Runtime)

def pendingResult : Result Unit → Option (Result Unit)
  | .error e => some (.error e)
  | .ok _ => none

def System.step (py : Python) (uuid : Nat → String) (s : System) : Action → Option System
  | .edit edit runtime io =>
      let outcome := edit.run py uuid runtime io s.disk
      some ⟨outcome.1, s.calls ++ [⟨edit, runtime, s.disk, outcome.1, pendingResult outcome.2⟩]⟩
  | .read index runtime =>
      match s.calls[index]? with
      | some call =>
          match call.result with
          | none => some ⟨s.disk, s.calls.set index
              { call with result := some ((read py runtime s.disk).map fun _ => ()) }⟩
          | some _ => none
      | none => none

def System.start : System := ⟨emptyDisk, []⟩

/-- An edit that raises leaves the stored state; one that succeeds is the next revision
of the state it was based on. -/
def Call.Atomic (py : Python) (call : Call) : Prop :=
  match call.result with
  | none => True
  | some (.error _) => call.after.providers = call.before.providers ∨
      call.before.providers = none ∧ ∃ imported, legacy py call.runtime = .ok imported ∧
        call.after.providers = some imported
  | some (.ok _) => ∃ state next, load py call.runtime call.before = .ok state ∧
      call.edit.revision = some (.int state.revision) ∧ call.after.providers = some next ∧
      next.revision = state.revision + 1

/-- A `read` meets a file that `read_json` takes, and a rollback is written. -/
def System.Admissible (s : System) : Action → Prop
  | .edit edit _ io => Restores io edit
  | .read _ _ => ∀ state, s.disk.providers = some state → jsonSize state.json ≤ fileLimit

/-- Admissible runs of any windows from an empty directory. -/
def System.Runs (py : Python) (uuid : Nat → String) : System → Prop :=
  Lib.Transition.Reachable (· = System.start)
    (fun s action t => s.step py uuid action = some t ∧ s.Admissible action)

/-- An edit whose `read` is open has stored its state. -/
structure System.Invariant (py : Python) (s : System) : Prop where
  stored : StoredValid s.disk
  atomic : ∀ call ∈ s.calls, call.Atomic py
  open_ : ∀ call ∈ s.calls, call.result = none →
    Call.Atomic py { call with result := some (.ok ()) } ∧ s.disk.providers.isSome = true

theorem LockedAtomic.isSome {rt : Runtime} {revision : Option Value} {before : Disk}
    {outcome : Disk × Result Unit} (atomic : LockedAtomic py rt revision before outcome)
    (some : before.providers.isSome = true) : outcome.1.providers.isSome = true := by
  unfold LockedAtomic at atomic
  split at atomic
  · rcases atomic with same | ⟨missing, -⟩
    · rw [same]
      exact some
    · rw [missing] at some
      cases some
  · obtain ⟨_, next, -, -, stored, -⟩ := atomic
    rw [stored]
    rfl

/-- The record of an edit whose locked part has just run. -/
theorem LockedAtomic.call {rt : Runtime} {edit : Edit} {before : Disk} {outcome : Disk × Result Unit}
    (atomic : LockedAtomic py rt edit.revision before outcome) :
    Call.Atomic py ⟨edit, rt, before, outcome.1, pendingResult outcome.2⟩ ∧
      (pendingResult outcome.2 = none →
        Call.Atomic py ⟨edit, rt, before, outcome.1, some (.ok ())⟩ ∧ outcome.1.providers.isSome = true) := by
  obtain ⟨after, result⟩ := outcome
  cases result with
  | error e => exact ⟨atomic, fun unread => (by cases unread)⟩
  | ok done =>
      refine ⟨trivial, fun _ => ⟨atomic, ?_⟩⟩
      obtain ⟨_, next, -, -, stored, -⟩ := atomic
      rw [stored]
      rfl

theorem System.step_invariant {s t : System} {action : Action} (inv : s.Invariant py)
    (h : s.step py uuid action = some t) (admissible : s.Admissible action) : t.Invariant py := by
  cases action with
  | edit edit runtime io =>
      obtain ⟨locked, keeps⟩ := Edit.run_atomic py uuid runtime s.disk admissible
      cases h
      refine ⟨keeps inv.stored, ?_, ?_⟩
      · intro call member
        rcases List.mem_append.mp member with old | new
        · exact inv.atomic call old
        · rw [List.mem_singleton.mp new]
          exact locked.call.1
      · intro call member unread
        rcases List.mem_append.mp member with old | new
        · obtain ⟨done, some⟩ := inv.open_ call old unread
          exact ⟨done, locked.isSome some⟩
        · rw [List.mem_singleton.mp new] at unread ⊢
          exact locked.call.2 unread
  | read index runtime =>
      simp only [System.step] at h
      split at h
      · rename_i call found
        split at h
        · rename_i unread
          cases h
          obtain ⟨done, some⟩ := inv.open_ call (List.mem_of_getElem? found) unread
          obtain ⟨state, stored⟩ := Option.isSome_iff_exists.mp some
          have answered : (read py runtime s.disk).map (fun _ => ()) = .ok () := by
            unfold read load
            rw [stored]
            dsimp only
            rw [if_neg (by have := admissible state stored; omega)]
            rfl
          refine ⟨inv.stored, ?_, ?_⟩
          · intro other member
            rcases List.mem_or_eq_of_mem_set member with old | rfl
            · exact inv.atomic other old
            · rw [answered]
              exact done
          · intro other member unread
            rcases List.mem_or_eq_of_mem_set member with old | rfl
            · exact inv.open_ other old unread
            · cases unread
        · cases h
      · cases h

theorem System.run_invariant {s : System} (run : System.Runs py uuid s) : s.Invariant py := by
  refine run.invariant (I := System.Invariant py) ?_ (fun _ _ _ inv h => System.step_invariant inv h.1 h.2)
  rintro _ rfl
  exact ⟨fun _ h => (by cases h), fun _ member => (by cases member), fun _ member => (by cases member)⟩

/-- Over every run in which each closing `read` meets a file within its limit and no rollback is
lost, every edit is atomic and every stored or imported selection is coherent. -/
theorem edits_atomic_and_coherent {s : System} (run : System.Runs py uuid s) :
    (∀ call ∈ s.calls, call.Atomic py) ∧
    ∀ rt state, (s.disk.providers = some state ∨ s.disk.providers = none ∧ legacy py rt = .ok state) →
      Coherent state := by
  have inv := System.run_invariant run
  refine ⟨inv.atomic, ?_⟩
  rintro rt state (stored | ⟨-, imported⟩)
  · exact (inv.stored state stored).toCoherent
  · exact (legacy_valid imported).toCoherent

/-- The summary card once it is saved, before and after the window has its answer. -/
def savedSummary : Disk × Result Unit := save asciiPython unary plainRuntime working summaryBody emptyDisk

theorem edits_atomic_and_coherent_saved :
    ∃ s, System.Runs asciiPython unary s ∧ s.calls.map (fun call => call.result.isSome) = [true] ∧
      (∀ call ∈ s.calls, call.Atomic asciiPython) := by
  have small : ∀ state, savedSummary.1.providers = some state → jsonSize state.json ≤ fileLimit := by
    have size : savedSummary.1.providers.all (fun state => decide (jsonSize state.json ≤ fileLimit)) = true := by
      decide +kernel
    intro state h
    rw [h] at size
    simpa using size
  have done : pendingResult savedSummary.2 = none := by
    have ok : (pendingResult savedSummary.2).isNone = true := by decide +kernel
    simpa using ok
  have first : System.Runs asciiPython unary ⟨savedSummary.1,
      [⟨.save summaryBody, plainRuntime, emptyDisk, savedSummary.1, pendingResult savedSummary.2⟩]⟩ :=
    .next (a := .edit (.save summaryBody) plainRuntime working) (.start rfl) ⟨rfl, trivial⟩
  rw [done] at first
  have second := Lib.Transition.Reachable.next (a := Action.read 0 plainRuntime) first ⟨rfl, small⟩
  exact ⟨_, second, rfl, (edits_atomic_and_coherent second).1⟩

/-! ## An edit that is stored and raises -/

/-- A disabled `diarization` object of a live card may hold anything. -/
def noteSettings (text : String) : Fields :=
  [("url", .str "wss://a/asr"), ("diarization", .obj [("note", .str text)])]

def noteProfile (text : String) : Fields :=
  [("name", .str "L"), ("stage", .str "live"), ("kind", .str "external"), ("settings", .obj (noteSettings text))]

def noteBody (revision : Nat) (text : String) : Fields :=
  [("revision", .int revision), ("profile", .obj (noteProfile text))]

theorem checkSettings_note (text : String) :
    checkSettings asciiPython .live .external false (noteSettings text) = .ok (noteSettings text) := by
  have url : validateUrl asciiPython true (.str "wss://a/asr") = some "wss://a/asr" := by decide +kernel
  have address : endpoint asciiPython (noteSettings text) "url" true = .ok (noteSettings text) := by
    simp [endpoint, noteSettings, field, url, setField]
  have disabled : diarizationSettings asciiPython (noteSettings text) = .ok () := by
    simp [diarizationSettings, noteSettings, field, truthy]
  unfold checkSettings liveSettings
  simp only [address, when, bind, Except.bind, pure, Except.pure, reduceCtorEq, decide_false,
    Bool.false_eq_true, if_false]
  split
  · rw [disabled]
  · rfl

theorem textFields_note (text : String) :
    textFields asciiPython (noteSettings text) = .ok (noteSettings text) := by
  have url : Lib.Text.strip "wss://a/asr" = "wss://a/asr" := by decide +kernel
  have found : field "url" (noteSettings text) = some (.str "wss://a/asr") := by simp [noteSettings, field]
  have same : setField "url" (.str "wss://a/asr") (noteSettings text) = noteSettings text := by
    simp [noteSettings, setField]
  have short : ¬ ("wss://a/asr".toList.length > 2048 ∨ ¬ "wss://a/asr".toList.all asciiPython.isprintable) := by
    decide +kernel
  have address : textField asciiPython (noteSettings text) "url" "" false 2048 = .ok (noteSettings text) := by
    unfold textField
    rw [found]
    dsimp only [Option.getD]
    rw [if_neg short, if_neg (by simp), if_pos (by simp), url, same]
  have keys : (noteSettings text).map Prod.fst = ["url", "diarization"] := rfl
  unfold textFields
  rw [keys, List.foldlM_cons, if_neg (by decide), address]
  rfl

theorem validateProfile_note (text : String) :
    validateProfile asciiPython false (.obj (noteProfile text)) =
      .ok ⟨⟨"L", .live, .external, noteSettings text, false, none⟩, none⟩ := by
  have stage : stageOf (noteProfile text) = some .live := by
    simp [stageOf, noteProfile, strField, field, stages, Stage.name]
  have kind : kindOf .live (noteProfile text) = some .external := by
    simp [kindOf, noteProfile, strField, field, kinds, Kind.name]
  have name : strField "name" (noteProfile text) = some "L" := by simp [noteProfile, strField, field]
  have settings : field "settings" (noteProfile text) = some (.obj (noteSettings text)) := by
    simp [noteProfile, field]
  have id : profileId (noteProfile text) = .ok none := by simp [profileId, noteProfile, field]
  have bare : Lib.Text.strip "L" = "L" := by decide +kernel
  have allowed : (noteSettings text).all (fun f => f.1 ∈ allowedFields .live .external) = true := by
    simp [noteSettings, allowedFields, liveFields]
  unfold validateProfile
  simp only [stage, kind, name, settings, id, bare, allowed, checkSettings_note, textFields_note, nameLimit,
    bind, Except.bind, pure, Except.pure, Option.getD_some]
  simp

def noteCard (id text : String) (revision : Nat) : Profile :=
  ⟨⟨"L", .live, .external, noteSettings text, false, none⟩, id, some revision⟩

theorem save_note (text : String) {d : Disk} {state : State} (loaded : load asciiPython plainRuntime d = .ok state)
    (room : state.profiles.length < 64) (fresh : ∀ p ∈ state.profiles, p.id ≠ unary d.uuids) :
    save asciiPython unary plainRuntime working (noteBody state.revision text) d =
      ({ d with uuids := d.uuids + 1,
                providers := some { state with
                  profiles := state.profiles ++ [noteCard (unary d.uuids) text (state.revision + 1)],
                  revision := state.revision + 1 } }, .ok ()) := by
  have profile : field "profile" (noteBody state.revision text) = some (.obj (noteProfile text)) := by
    simp [noteBody, field]
  have revision : field "revision" (noteBody state.revision text) = some (.int state.revision) := by
    simp [noteBody, field]
  have noKey : field "api_key" (noteBody state.revision text) = none := by simp [noteBody, field]
  have noClear : field "clear_key" (noteBody state.revision text) = none := by simp [noteBody, field]
  have edited : edit asciiPython plainRuntime working (some (.int state.revision)) d = .ok state := by
    simp [edit, working, loaded, bind, Except.bind, pure, Except.pure]
  have drafted : draftOf asciiPython false (noteBody state.revision text) state =
      .ok (⟨⟨"L", .live, .external, noteSettings text, false, none⟩, none⟩, none) := by
    simp [draftOf, profile, validateProfile_note, inherit, findProfile, clearKey, noClear, noKey, truthy, bind,
      Except.bind, pure, Except.pure]
  have absent : state.profiles.findIdx? (fun p => p.id == unary d.uuids) = none := by
    rw [List.findIdx?_eq_none_iff]
    intro p member
    simpa using fresh p member
  have put : putProfile (noteCard (unary d.uuids) text (state.revision + 1)) state.profiles =
      .ok (state.profiles ++ [noteCard (unary d.uuids) text (state.revision + 1)]) := by
    unfold putProfile
    rw [show (fun p : Profile => p.id == (noteCard (unary d.uuids) text (state.revision + 1)).id) =
      (fun p => p.id == unary d.uuids) from rfl, absent]
    dsimp only
    rw [if_neg (by omega)]
  unfold save
  rw [revision, edited]
  dsimp only
  rw [drafted]
  dsimp only [storeKey, Option.getD]
  unfold noteCard at put
  rw [put]
  rfl

theorem length_le_noteCard (id text : String) (revision : Nat) :
    text.toList.length ≤ (write spaced (noteCard id text revision).json).length := by
  have note := length_write_field spaced
    (show ("note", Value.str text) ∈ [("note", Value.str text)] from List.mem_singleton.mpr rfl)
  have object : (write spaced (.obj [("note", .str text)])).length ≤ (write spaced (.obj (noteSettings text))).length :=
    length_write_field spaced (f := ("diarization", .obj [("note", .str text)])) (by simp [noteSettings])
  have card : (write spaced (.obj (noteSettings text))).length ≤
      (write spaced (noteCard id text revision).json).length :=
    length_write_field spaced (f := ("settings", .obj (noteSettings text))) (by simp [noteCard])
  have short := length_le_writeString text
  simp only [write] at note object card short ⊢
  omega

def cardSizes (state : State) : Nat := (state.profiles.map fun p => (write spaced p.json).length).sum

theorem cardSizes_le_jsonSize (state : State) : cardSizes state ≤ jsonSize state.json := by
  have cards := sum_length_write spaced (state.profiles.map Profile.json)
  have whole : (write spaced (.arr (state.profiles.map Profile.json))).length ≤ (write spaced state.json).length :=
    length_write_field spaced (f := ("profiles", .arr (state.profiles.map Profile.json))) (by simp)
  have bytes := (length_encodeUtf8 (write spaced state.json)).1
  rw [List.map_map] at cards
  unfold cardSizes jsonSize
  exact (cards.trans whole).trans bytes

/-- A note that fits the profile file of the command line. -/
def longNote : String := String.ofList (List.replicate 420000 'x')

theorem length_longNote : longNote.toList.length = 420000 := by
  have general : ∀ n, (String.ofList (List.replicate n 'x')).toList.length = n := by simp
  exact general 420000

/-- Runs without the condition on reads and rollbacks. -/
def System.AnyRun (py : Python) (uuid : Nat → String) : System → Prop :=
  Lib.Transition.Reachable (· = System.start) (fun s action t => s.step py uuid action = some t)

/-- `count` cards with a long note are stored and were read back. -/
structure Filled (count : Nat) (s : System) (state : State) : Prop where
  run : System.AnyRun asciiPython unary s
  loaded : load asciiPython plainRuntime s.disk = .ok state
  readable : count = 0 ∨ jsonSize state.json ≤ fileLimit
  revision : state.revision = count
  uuids : s.disk.uuids = count
  room : state.profiles.length = count + 2
  ids : ∀ p ∈ state.profiles, p.id = "current-stt" ∨ p.id = "current-diarization" ∨ ∃ n < count, p.id = unary n
  size : count * 420000 ≤ cardSizes state

theorem filled_start : ∃ state, Filled 0 .start state := by
  have summary : ((legacy asciiPython plainRuntime).toOption.map fun state =>
      (state.revision, state.profiles.map (fun p => p.id))) = some (0, ["current-stt", "current-diarization"]) := by
    decide +kernel
  obtain ⟨imported, loaded, ids⟩ := Option.map_eq_some_iff.mp summary
  simp only [Prod.mk.injEq] at ids
  have ok : legacy asciiPython plainRuntime = .ok imported := by
    cases h : legacy asciiPython plainRuntime with
    | error e => rw [h] at loaded; cases loaded
    | ok state => rw [h] at loaded; cases loaded; rfl
  have count := congrArg List.length ids.2
  refine ⟨imported, .start rfl, ok, .inl rfl, ids.1, rfl, by simpa using count, ?_, by simp⟩
  intro p member
  have named : p.id ∈ imported.profiles.map (fun p => p.id) := List.mem_map.mpr ⟨p, member, rfl⟩
  rw [ids.2] at named
  simp only [List.mem_cons, List.not_mem_nil, or_false] at named
  exact named.imp id .inl

theorem filled_fresh {count : Nat} {s : System} {state : State} (filled : Filled count s state) :
    ∀ p ∈ state.profiles, p.id ≠ unary s.disk.uuids := by
  intro p member same
  rw [filled.uuids] at same
  have letter : 'a' ∈ p.id.toList ∧ ∀ c ∈ p.id.toList, c = 'a' := by
    rw [same]
    simp [unary, List.mem_replicate]
  rcases filled.ids p member with name | name | ⟨n, older, name⟩
  · rw [name] at letter
    exact absurd (letter.2 'c' (by simp)) (by decide)
  · rw [name] at letter
    exact absurd (letter.2 'c' (by simp)) (by decide)
  · have := unary_injective (name.symm.trans same)
    omega

/-- Saving one more card either is read back, or is stored although its edit raised. -/
theorem filled_next (atomic : ∀ s, System.AnyRun asciiPython unary s → ∀ call ∈ s.calls, call.Atomic asciiPython)
    {count : Nat} {s : System} {state : State} (filled : Filled count s state) (few : count < 62) :
    ∃ t next, Filled (count + 1) t next := by
  have saved := save_note longNote filled.loaded (by rw [filled.room]; omega) (filled_fresh filled)
  generalize hnext : ({ state with
    profiles := state.profiles ++ [noteCard (unary s.disk.uuids) longNote (state.revision + 1)],
    revision := state.revision + 1 } : State) = next at saved
  generalize hafter : ({ s.disk with uuids := s.disk.uuids + 1, providers := some next } : Disk) = after at saved
  have providers : after.providers = some next := by rw [← hafter]
  let body := noteBody state.revision longNote
  have first : System.step asciiPython unary s (.edit (.save body) plainRuntime working) =
      some ⟨after, s.calls ++ [⟨.save body, plainRuntime, s.disk, after, none⟩]⟩ := by
    simp only [System.step, Edit.run, body, saved, pendingResult]
  have second : System.step asciiPython unary ⟨after, s.calls ++ [⟨.save body, plainRuntime, s.disk, after, none⟩]⟩
      (.read s.calls.length plainRuntime) =
      some ⟨after, s.calls ++ [⟨.save body, plainRuntime, s.disk, after,
        some ((read asciiPython plainRuntime after).map fun _ => ())⟩]⟩ := by
    simp [System.step]
  have run := (filled.run.next first).next second
  by_cases large : jsonSize next.json > fileLimit
  · exfalso
    have raised : (read asciiPython plainRuntime after).map (fun _ => ()) = unavailable := by
      simp [read, load, providers, large, unavailable, Except.map]
    have broken := atomic _ run ⟨.save body, plainRuntime, s.disk, after, _⟩
      (List.mem_append_right _ (List.mem_singleton.mpr rfl))
    rw [raised] at broken
    have later : next.revision = state.revision + 1 := by rw [← hnext]
    rcases broken with same | ⟨missing, imported, ok, same⟩
    · -- The file before held the state that was loaded.
      dsimp only at same
      rcases load_providers filled.loaded with found | ⟨missing, -⟩
      · rw [providers, found] at same
        cases same
        omega
      · rw [providers, missing] at same
        cases same
    · dsimp only at ok same missing
      rcases load_providers filled.loaded with found | ⟨-, imported'⟩
      · rw [missing] at found
        cases found
      · rw [imported'] at ok
        cases ok
        rw [providers] at same
        cases same
        omega
  · refine ⟨_, next, run, ?_, .inr (by omega), ?_, ?_, ?_, ?_, ?_⟩
    · simp [load, providers, large]
    · rw [← hnext, filled.revision]
    · rw [← hafter, filled.uuids]
    · rw [← hnext]
      simp [filled.room]
    · intro p member
      rw [← hnext] at member
      rcases List.mem_append.mp member with old | new
      · exact (filled.ids p old).imp id (fun h => h.imp id fun ⟨n, older, name⟩ => ⟨n, by omega, name⟩)
      · rw [List.mem_singleton.mp new]
        exact .inr (.inr ⟨count, by omega, by rw [← filled.uuids]; rfl⟩)
    · have note := length_le_noteCard (unary s.disk.uuids) longNote (state.revision + 1)
      have sum : cardSizes next = cardSizes state +
          (write spaced (noteCard (unary s.disk.uuids) longNote (state.revision + 1)).json).length := by
        rw [← hnext, cardSizes, List.map_append, List.sum_append, List.map_singleton, List.sum_singleton]
        rfl
      rw [length_longNote] at note
      rw [sum, Nat.succ_mul]
      exact Nat.add_le_add filled.size note

/-- Of five cards with a long note, one is stored by an edit that raises. -/
theorem save_stored_and_raised :
    ¬ ∀ s, System.AnyRun asciiPython unary s → ∀ call ∈ s.calls, call.Atomic asciiPython := by
  intro atomic
  obtain ⟨_, zero⟩ := filled_start
  obtain ⟨_, _, one⟩ := filled_next atomic zero (by decide)
  obtain ⟨_, _, two⟩ := filled_next atomic one (by decide)
  obtain ⟨_, _, three⟩ := filled_next atomic two (by decide)
  obtain ⟨_, _, four⟩ := filled_next atomic three (by decide)
  obtain ⟨_, state, five⟩ := filled_next atomic four (by decide)
  have readable : jsonSize state.json ≤ fileLimit := five.readable.resolve_left (by decide)
  have size := five.size
  have bytes := cardSizes_le_jsonSize state
  unfold fileLimit at readable
  omega

end OmiLocal.Providers
