import OmiLocal.Providers.Registry
import OmiLocal.Lib.Fallible

/-!
# Keys stay with their endpoint

Over every run of edits, a stored reference leads to a key that was supplied
for a card with the same stage, kind, scheme and network location.
-/
namespace OmiLocal.Providers
open Lib.Json Lib.Fallible

/-! ## Endpoints -/

/-- Two cards with one identity; an address that does not split is the same address. -/
def SameEndpoint (py : Python) (a b : Card) : Prop :=
  a.stage = b.stage ∧ a.kind = b.kind ∧ identity py a = identity py b ∧
    (identity py a = none → endpointField py a.settings = endpointField py b.settings)

theorem SameEndpoint.refl (py : Python) (a : Card) : SameEndpoint py a a := ⟨rfl, rfl, rfl, fun _ => rfl⟩

theorem SameEndpoint.trans {py : Python} {a b c : Card} (first : SameEndpoint py a b)
    (second : SameEndpoint py b c) : SameEndpoint py a c :=
  ⟨first.1.trans second.1, first.2.1.trans second.2.1, first.2.2.1.trans second.2.2.1,
    fun none => (first.2.2.2 none).trans (second.2.2.2 (first.2.2.1 ▸ none))⟩

theorem sameEndpoint_of_identity {py : Python} {a b : Card} {i : Identity} (ha : identity py a = some i)
    (hb : identity py b = some i) : SameEndpoint py a b := by
  have parts : ∀ {c : Card}, identity py c = some i → c.stage = i.stage ∧ c.kind = i.kind := by
    intro c h
    unfold identity at h
    split at h
    · obtain ⟨parsed, -, rfl⟩ := Option.map_eq_some_iff.mp h
      exact ⟨rfl, rfl⟩
    · cases h
  refine ⟨(parts ha).1.trans (parts hb).1.symm, (parts ha).2.trans (parts hb).2.symm, ha.trans hb.symm, ?_⟩
  intro none
  rw [ha] at none
  cases none

theorem endpointField_setField (py : Python) {key : String} (other : key ∉ ["provider_url", "base_url", "url"])
    (value : Value) (settings : Fields) :
    endpointField py (setField key value settings) = endpointField py settings := by
  simp only [List.mem_cons, List.not_mem_nil, or_false, not_or] at other
  obtain ⟨first, second, third⟩ := other
  simp only [endpointField, List.filterMap_cons, List.filterMap_nil, field_setField_of_ne (Ne.symm first),
    field_setField_of_ne (Ne.symm second), field_setField_of_ne (Ne.symm third)]

theorem sameEndpoint_withModel (py : Python) (model : Value) (p : Profile) :
    SameEndpoint py p.toCard (withModel model p).toCard := by
  have address : endpointField py (withModel model p).settings = endpointField py p.settings :=
    endpointField_setField py (by decide) model p.settings
  refine ⟨rfl, rfl, ?_, fun _ => address.symm⟩
  unfold identity
  rw [address]
  rfl

/-! ## References -/

/-- The card's reference, if any, is that of a key supplied for its endpoint. -/
def Bound (py : Python) (supplied : List Supply) (card : Card) : Prop :=
  ∀ ref, card.credentialRef = some ref →
    ∃ supply ∈ supplied, supply.ref = ref ∧ SameEndpoint py supply.card card

structure StateBound (py : Python) (supplied : List Supply) (state : State) : Prop where
  profiles : ∀ p ∈ state.profiles, Bound py supplied p.toCard
  effective : ∀ stage p, state.effective stage = some p → Bound py supplied p.toCard

/-- The references on disk, the keys behind them, and where fresh ones come from. -/
structure DiskBound (py : Python) (uuid : Nat → String) (d : Disk) : Prop where
  state : ∀ state, d.providers = some state → StateBound py d.supplied state
  keys : ∀ supply ∈ d.supplied, d.vault.find? (fun entry => entry.1 == supply.ref) = some (supply.ref, supply.key)
  issued : ∀ entry ∈ d.vault, ∃ n < d.uuids, entry.1 = uuid n

variable {py : Python} {uuid : Nat → String}

theorem Bound.mono {supplied more : List Supply} {card : Card} (bound : Bound py supplied card)
    (included : ∀ supply ∈ supplied, supply ∈ more) : Bound py more card := by
  intro ref h
  obtain ⟨supply, member, rest⟩ := bound ref h
  exact ⟨supply, included supply member, rest⟩

theorem Bound.of_none {supplied : List Supply} {card : Card} (none : card.credentialRef = none) :
    Bound py supplied card := by
  intro ref h
  rw [none] at h
  cases h

theorem Bound.withModel {supplied : List Supply} {p : Profile} (bound : Bound py supplied p.toCard)
    (model : Value) : Bound py supplied (withModel model p).toCard := by
  intro ref h
  obtain ⟨supply, member, same, endpoint⟩ := bound ref h
  exact ⟨supply, member, same, endpoint.trans (sameEndpoint_withModel py model p)⟩

theorem StateBound.mono {supplied more : List Supply} {state : State} (bound : StateBound py supplied state)
    (included : ∀ supply ∈ supplied, supply ∈ more) : StateBound py more state :=
  ⟨fun p member => (bound.profiles p member).mono included,
    fun stage p h => (bound.effective stage p h).mono included⟩

theorem legacy_bound {rt : Runtime} {state : State} (supplied : List Supply)
    (h : legacy py rt = .ok state) : StateBound py supplied state := by
  have speakers : ∀ engine p, legacySpeakers py engine = some p → p.credentialRef = none := by
    intro engine p h
    unfold legacySpeakers at h
    dsimp only at h
    split_ifs at h <;> cases h <;> rfl
  have live : ∀ files p, legacyLive py files = some p → p.credentialRef = none := by
    intro files p h
    unfold legacyLive at h
    split_ifs at h
    cases h
    rfl
  unfold legacy at h
  split at h
  · cases h
  · split at h
    · cases h
    · cases h
      refine ⟨fun p member => ?_, fun stage p h => ?_⟩
      · simp only [List.mem_cons, List.mem_append, Option.mem_toList] at member
        rcases member with rfl | member | member
        · exact Bound.of_none rfl
        · exact Bound.of_none (speakers _ p member)
        · exact Bound.of_none (live _ p member)
      · dsimp only at h
        split at h
        · cases h
          exact Bound.of_none rfl
        · exact Bound.of_none (speakers _ p h)
        · split_ifs at h
          exact Bound.of_none (live _ p h)
        · cases h

theorem load_bound {rt : Runtime} {d : Disk} {state : State} (bound : DiskBound py uuid d)
    (h : load py rt d = .ok state) : StateBound py d.supplied state := by
  unfold load at h
  split at h
  · rename_i stored found
    split_ifs at h
    · cases h
    · cases h
      exact bound.state _ found
  · exact legacy_bound _ h

theorem edit_load {rt : Runtime} {io : Io} {revision : Option Value} {d : Disk} {state : State}
    (h : edit py rt io revision d = .ok state) :
    load py rt d = .ok state ∧ revision = some (.int state.revision) := by
  unfold edit at h
  split_ifs at h
  obtain ⟨loaded, found, h⟩ := bind_ok h
  split at h
  · split_ifs at h with same
    cases h
    exact ⟨found, by rw [same]⟩
  · cases h

/-! ## Drafts -/

theorem validateProfile_fresh {models : Bool} {value : Value} {draft : Draft}
    (h : validateProfile py models value = .ok draft) :
    draft.credentialRef = none ∧ draft.embedded = false := by
  unfold validateProfile at h
  split at h
  · dsimp only at h
    split at h
    · cases h
    · split at h
      · cases h
      · split_ifs at h
        · cases h
        · split at h
          · split at h
            · cases h
            · obtain ⟨_, _, h⟩ := bind_ok h
              obtain ⟨_, _, h⟩ := bind_ok h
              obtain ⟨_, _, h⟩ := bind_ok h
              cases h
              exact ⟨rfl, rfl⟩
          · cases h
  · cases h

theorem findProfile_mem {id : Option String} {state : State} {p : Profile}
    (h : findProfile id state = some p) : p ∈ state.profiles := by
  obtain ⟨id, -, found⟩ := Option.bind_eq_some_iff.mp h
  exact List.mem_of_find?_eq_some found

/-- A draft takes over a reference only together with its endpoint. -/
theorem inherit_bound {supplied : List Supply} {state : State} (bound : StateBound py supplied state)
    {draft result : Draft} (fresh : draft.credentialRef = none) {previous : Option Profile}
    (stored : ∀ p, previous = some p → p ∈ state.profiles)
    (h : inherit py previous draft = .ok result) : Bound py supplied result.toCard := by
  unfold inherit at h
  split at h
  · cases h
    exact Bound.of_none fresh
  · rename_i p
    split_ifs at h
    · cases h
    · split at h
      · rename_i old new hold hnew
        cases h
        intro ref reference
        by_cases same : old = new
        · rw [if_pos same] at reference
          obtain ⟨supply, member, ref, endpoint⟩ := bound.profiles p (stored p rfl) ref reference
          refine ⟨supply, member, ref, endpoint.trans (sameEndpoint_of_identity hold ?_)⟩
          rw [same]
          exact hnew
        · rw [if_neg same] at reference
          cases reference
      · cases h

theorem draftOf_bound {supplied : List Supply} {state : State} (bound : StateBound py supplied state)
    {models : Bool} {body : Fields} {draft : Draft} {given : Option String}
    (h : draftOf py models body state = .ok (draft, given)) : Bound py supplied draft.toCard := by
  unfold draftOf at h
  obtain ⟨fresh, valid, h⟩ := bind_ok h
  obtain ⟨inherited, taken, h⟩ := bind_ok h
  have kept := inherit_bound bound (validateProfile_fresh valid).1 (fun p => findProfile_mem) taken
  have cleared : Bound py supplied (clearKey py body inherited).toCard := by
    unfold clearKey
    split
    · exact Bound.of_none rfl
    · exact kept
  split at h
  · cases h
    exact cleared
  · obtain ⟨given, -, h⟩ := bind_ok h
    cases h
    exact cleared

/-! ## Edits -/

theorem storeKey_bound (injective : Function.Injective uuid) (io : Io) {d : Disk} (bound : DiskBound py uuid d)
    {card : Card} (carried : Bound py d.supplied card) (given : Option String) :
    DiskBound py uuid (storeKey uuid io card given d).1 ∧
      (∀ supply ∈ d.supplied, supply ∈ (storeKey uuid io card given d).1.supplied) ∧
      ∀ ref, (storeKey uuid io card given d).2 = .ok ref →
        Bound py (storeKey uuid io card given d).1.supplied { card with credentialRef := ref } := by
  have same : DiskBound py uuid d ∧ (∀ supply ∈ d.supplied, supply ∈ d.supplied) ∧
      ∀ ref, (Except.ok card.credentialRef : Result (Option String)) = .ok ref →
        Bound py d.supplied { card with credentialRef := ref } := by
    refine ⟨bound, fun _ member => member, ?_⟩
    intro ref h
    cases h
    exact carried
  unfold storeKey
  cases given with
  | none => exact same
  | some given =>
      dsimp only
      split
      · exact same
      · split
        · exact ⟨bound, fun _ member => member, fun _ h => by cases h⟩
        · split
          · have fresh : ∀ supply ∈ d.supplied, supply.ref ≠ uuid d.uuids := by
              intro supply member h
              have stored := List.mem_of_find?_eq_some (bound.keys supply member)
              obtain ⟨n, older, name⟩ := bound.issued _ stored
              have := injective (name.symm.trans h)
              omega
            have kept : ∀ supply ∈ d.supplied,
                supply ∈ d.supplied ++ [⟨uuid d.uuids, given, card⟩] :=
              fun supply member => List.mem_append_left _ member
            refine ⟨⟨fun state h => (bound.state state h).mono kept, ?_, ?_⟩, kept, ?_⟩
            · intro supply member
              rcases List.mem_append.mp member with old | new
              · rw [List.find?_cons_of_neg (by simpa using Ne.symm (fresh supply old))]
                exact bound.keys supply old
              · rw [List.mem_singleton.mp new, List.find?_cons_of_pos (by simp)]
            · intro entry member
              rcases List.mem_cons.mp member with rfl | old
              · exact ⟨d.uuids, Nat.lt_succ_self _, rfl⟩
              · obtain ⟨n, older, name⟩ := bound.issued entry old
                exact ⟨n, Nat.lt_succ_of_lt older, name⟩
            · intro ref h
              cases h
              intro ref h
              cases h
              exact ⟨⟨uuid d.uuids, given, card⟩, List.mem_append_right _ (List.mem_singleton.mpr rfl), rfl,
                SameEndpoint.refl py card⟩
          · refine ⟨⟨bound.state, bound.keys, ?_⟩, fun _ member => member, fun _ h => by cases h⟩
            intro entry member
            obtain ⟨n, older, name⟩ := bound.issued entry member
            exact ⟨n, Nat.lt_succ_of_lt older, name⟩

theorem writeState_bound {io : Io} {d : Disk} (bound : DiskBound py uuid d) {state : State}
    (next : StateBound py d.supplied state) : DiskBound py uuid (writeState io state d).1 := by
  unfold writeState
  split
  · refine ⟨fun stored h => ?_, bound.keys, bound.issued⟩
    cases h
    exact next
  · exact bound

theorem putProfile_bound {supplied : List Supply} {profile : Profile} {profiles result : List Profile}
    (new : Bound py supplied profile.toCard) (old : ∀ p ∈ profiles, Bound py supplied p.toCard)
    (h : putProfile profile profiles = .ok result) : ∀ p ∈ result, Bound py supplied p.toCard := by
  unfold putProfile at h
  split at h
  · cases h
    intro p member
    rcases List.mem_or_eq_of_mem_set member with member | rfl
    · exact old p member
    · exact new
  · split at h
    · cases h
    · cases h
      intro p member
      rcases List.mem_append.mp member with member | member
      · exact old p member
      · rw [List.mem_singleton.mp member]
        exact new

theorem save_bound (injective : Function.Injective uuid) {rt : Runtime} {io : Io} {body : Fields} {d : Disk}
    (bound : DiskBound py uuid d) : DiskBound py uuid (save py uuid rt io body d).1 := by
  unfold save
  split
  · exact bound
  · rename_i state loaded
    have stateBound := load_bound bound (edit_load loaded).1
    split
    · exact bound
    · rename_i draft given drafted
      have carried := draftOf_bound stateBound drafted
      have drawn : DiskBound py uuid { d with uuids := d.uuids + 1 } := by
        refine ⟨bound.state, bound.keys, fun entry member => ?_⟩
        obtain ⟨n, older, name⟩ := bound.issued entry member
        exact ⟨n, Nat.lt_succ_of_lt older, name⟩
      have stored := storeKey_bound injective io drawn carried given
      dsimp only
      split
      · rename_i after e result
        rw [result] at stored
        exact stored.1
      · rename_i after ref result
        rw [result] at stored
        obtain ⟨afterBound, kept, reference⟩ := stored
        have later := stateBound.mono kept
        split
        · exact afterBound
        · rename_i profiles put
          exact writeState_bound afterBound
            ⟨putProfile_bound (reference ref rfl) later.profiles put, later.effective⟩

theorem setEffective_bound {supplied : List Supply} {state : State} (bound : StateBound py supplied state)
    (stage : Stage) {selected : Option Profile}
    (chosen : ∀ p, selected = some p → Bound py supplied p.toCard) :
    StateBound py supplied (setEffective stage selected state) := by
  refine ⟨bound.profiles, fun other p h => ?_⟩
  simp only [setEffective] at h
  split at h
  · exact chosen p h
  · exact bound.effective other p h

theorem published_bound {supplied : List Supply} {state next : State} (bound : StateBound py supplied state)
    {stage : Stage} {selected diarization : Option Profile}
    (chosen : ∀ p, selected = some p → Bound py supplied p.toCard)
    (h : published stage selected diarization state = .ok next) : StateBound py supplied next := by
  have set := setEffective_bound bound stage chosen
  obtain ⟨middle, change, rfl⟩ := map_ok h
  have middleBound : StateBound py supplied middle := by
    unfold withEmbedded at change
    split at change
    · split at change
      · rename_i stt active
        obtain ⟨model, -, rfl⟩ := map_ok change
        refine setEffective_bound set .stt ?_
        intro p h
        cases h
        exact (set.effective _ _ active).withModel model
      · cases change
        exact set
    · cases change
      exact set
  exact ⟨middleBound.profiles, middleBound.effective⟩

theorem wantedProfile_mem {stage : Stage} {wanted : Option Value} {state : State} {p : Profile}
    (h : wantedProfile stage wanted state = some p) : p ∈ state.profiles ∧ p.stage = stage := by
  unfold wantedProfile at h
  split at h
  · have found := List.find?_some h
    simp only [Bool.and_eq_true, beq_iff_eq] at found
    exact ⟨List.mem_of_find?_eq_some h, found.2⟩
  · cases h

/-- All that a successful selection has checked and chosen. -/
theorem selectProfile_ok {stage : Stage} {wanted : Option Value} {state : State}
    {selected diarization : Option Profile}
    (h : selectProfile stage wanted state = .ok (selected, diarization)) :
    diarization = nextDiarization stage wanted state ∧
    (isNull wanted = true ∨ (wantedProfile stage wanted state).isSome = true) ∧
    ((stage = .stt ∨ stage = .diarization) → isEmbedded diarization = true →
      supportsEmbedded (nextStt stage wanted state) = true) ∧
    ((stage = .stt ∧ ∃ model, embeddedModel diarization = .ok model ∧
        selected = (wantedProfile stage wanted state).map (withModel model)) ∨
      (stage ≠ .stt ∧ selected = wantedProfile stage wanted state)) := by
  unfold selectProfile at h
  dsimp only at h
  split at h
  · cases h
  · rename_i present
    split at h
    · cases h
    · rename_i compatible
      have found : isNull wanted = true ∨ (wantedProfile stage wanted state).isSome = true := by
        by_contra missing
        rw [not_or] at missing
        exact present ⟨missing.1, by simpa using missing.2⟩
      have supported : ∀ diarization, diarization = nextDiarization stage wanted state →
          (stage = .stt ∨ stage = .diarization) → isEmbedded diarization = true →
          supportsEmbedded (nextStt stage wanted state) = true := by
        rintro _ rfl both embedded
        by_contra refused
        exact compatible ⟨both, embedded, refused⟩
      split at h
      · rename_i stt
        obtain ⟨model, mode, same⟩ := map_ok h
        cases same
        exact ⟨rfl, found, supported _ rfl, .inl ⟨stt, model, mode, rfl⟩⟩
      · rename_i other
        cases h
        exact ⟨rfl, found, supported _ rfl, .inr ⟨other, rfl⟩⟩

/-- A selected profile is stored, up to the diarization mode of a recogniser. -/
theorem selectProfile_mem {stage : Stage} {wanted : Option Value} {state : State}
    {selected diarization : Option Profile} {p : Profile}
    (h : selectProfile stage wanted state = .ok (selected, diarization)) (found : selected = some p) :
    ∃ q, (q ∈ state.profiles ∧ q.stage = stage) ∧ (p = q ∨ ∃ model, p = withModel model q) := by
  obtain ⟨-, -, -, ⟨-, model, -, rfl⟩ | ⟨-, rfl⟩⟩ := selectProfile_ok h
  · obtain ⟨q, inside, rfl⟩ := Option.map_eq_some_iff.mp found
    exact ⟨q, wantedProfile_mem inside, .inr ⟨model, rfl⟩⟩
  · exact ⟨p, wantedProfile_mem found, .inl rfl⟩

theorem activate_bound {rt : Runtime} {io : Io} {preparation : Preparation} {body : Fields} {d : Disk}
    (bound : DiskBound py uuid d) : DiskBound py uuid (activate py rt io preparation body d).1 := by
  unfold activate
  dsimp only
  split
  · exact bound
  · split
    · exact bound
    · split
      · exact bound
      · rename_i original loaded
        have stateBound := load_bound bound (edit_load loaded).1
        have stored : ∀ state, StateBound py d.supplied state →
            DiskBound py uuid { d with providers := some state } := by
          intro state next
          refine ⟨fun other h => ?_, bound.keys, bound.issued⟩
          cases h
          exact next
        split
        · exact bound
        · rename_i selected diarization chosen
          have fromProfiles : ∀ p, selected = some p → Bound py d.supplied p.toCard := by
            intro p h
            obtain ⟨q, ⟨member, -⟩, rfl | ⟨model, rfl⟩⟩ := selectProfile_mem chosen h
            · exact stateBound.profiles p member
            · exact (stateBound.profiles q member).withModel model
          split
          · exact bound
          · exact bound
          · rename_i next published
            exact writeState_bound bound (published_bound stateBound fromProfiles published)
          · rename_i next published
            split
            · exact bound
            · split
              · exact stored _ stateBound
              · exact stored _ (published_bound stateBound fromProfiles published)

theorem delete_bound {rt : Runtime} {io : Io} {profileId : String} {revision : Option Value} {d : Disk}
    (bound : DiskBound py uuid d) : DiskBound py uuid (delete py rt io profileId revision d).1 := by
  unfold delete
  split
  · exact bound
  · rename_i state loaded
    have stateBound := load_bound bound (edit_load loaded).1
    split
    · exact bound
    · split
      · exact bound
      · exact writeState_bound bound
          ⟨fun p member => stateBound.profiles p (List.mem_of_mem_filter member), stateBound.effective⟩

/-! ## Runs -/

/-- Any edits, one after the other, on any machine, from an empty directory. -/
def Edited (py : Python) (uuid : Nat → String) : Disk → Prop :=
  Lib.Transition.Reachable (· = emptyDisk)
    (fun d (action : Runtime × Io × Edit) d' => (action.2.2.run py uuid action.1 action.2.1 d).1 = d')

theorem edited_bound (injective : Function.Injective uuid) {d : Disk} (run : Edited py uuid d) :
    DiskBound py uuid d := by
  refine run.invariant ?_ ?_
  · rintro _ rfl
    exact ⟨fun _ h => (by cases h), fun _ member => (by cases member), fun _ member => (by cases member)⟩
  · rintro d ⟨rt, io, edit⟩ _ bound rfl
    cases edit with
    | save body => exact save_bound injective bound
    | activate preparation body => exact activate_bound bound
    | delete profileId revision => exact delete_bound bound

/-- Scheme and network location of the address in the settings. -/
def address (py : Python) (card : Card) : Option (String × String) :=
  match endpointField py card.settings with
  | .str endpoint => (urlsplit py endpoint).map fun parsed => (parsed.scheme, parsed.netloc)
  | _ => none

def SameAddress (py : Python) (a b : Card) : Prop :=
  address py a = address py b ∧
    (address py a = none → endpointField py a.settings = endpointField py b.settings)

theorem address_eq (card : Card) :
    address py card = (identity py card).map (fun i => (i.scheme, i.netloc)) := by
  unfold address identity
  cases endpointField py card.settings with
  | str endpoint => cases h : urlsplit py endpoint <;> simp [h]
  | _ => rfl

theorem SameEndpoint.address {a b : Card} (same : SameEndpoint py a b) : SameAddress py a b := by
  refine ⟨by rw [address_eq, address_eq, same.2.2.1], fun none => same.2.2.2 ?_⟩
  rw [address_eq, Option.map_eq_none_iff] at none
  exact none

theorem key_bound {d : Disk} (bound : DiskBound py uuid d) {card : Card} (carried : Bound py d.supplied card)
    {found : String} (h : key d card = .ok found) :
    found = "" ∨ ∃ supply ∈ d.supplied, supply.key = found ∧ SameEndpoint py supply.card card := by
  unfold key at h
  split at h
  · cases h
    exact .inl rfl
  · rename_i ref reference
    obtain ⟨supply, member, rfl, endpoint⟩ := carried ref reference
    split at h
    · cases h
    · rw [bound.keys supply member] at h
      dsimp only at h
      unfold authHeaders at h
      dsimp only at h
      split at h
      · cases h
      · cases h
        exact .inr ⟨supply, member, rfl, endpoint⟩

theorem draft_bound {d : Disk} (bound : DiskBound py uuid d) {rt : Runtime} {models : Bool} {body : Fields}
    {card : Draft} {found : String} (h : draft py rt models body d = .ok (card, found)) :
    found = "" ∨ field "api_key" body = some (.str found) ∨
      ∃ supply ∈ d.supplied, supply.key = found ∧ SameEndpoint py supply.card card.toCard := by
  have given : ∀ {state : State} {result : Draft} {supplied : String},
      draftOf py models body state = .ok (result, some supplied) →
        field "api_key" body = some (.str supplied) := by
    intro state result supplied h
    unfold draftOf at h
    obtain ⟨_, -, h⟩ := bind_ok h
    obtain ⟨_, -, h⟩ := bind_ok h
    split at h
    · cases h
    · rename_i value notNull
      obtain ⟨text, checked, h⟩ := bind_ok h
      cases h
      unfold authHeaders at checked
      split at checked
      · rename_i same
        split at checked
        · cases checked
        · cases checked
          cases present : field "api_key" body with
          | none => rw [present] at same; cases same
          | some value => rw [present] at same; cases same; rfl
      · cases checked
  unfold draft at h
  obtain ⟨state, loaded, h⟩ := bind_ok h
  obtain ⟨⟨result, supplied⟩, drafted, h⟩ := bind_ok h
  have carried := draftOf_bound (load_bound bound loaded) drafted
  have looked : (do return (result, ← key d result.toCard) : Result (Draft × String)) = .ok (card, found) →
      found = "" ∨ ∃ supply ∈ d.supplied, supply.key = found ∧ SameEndpoint py supply.card card.toCard := by
    intro h
    obtain ⟨k, looked, h⟩ := bind_ok h
    cases h
    exact key_bound bound carried looked
  dsimp only at h
  split at h
  · rename_i text
    split at h
    · cases h
      exact .inr (.inl (given drafted))
    · exact (looked h).imp id .inr
  · exact (looked h).imp id .inr

/-- In every reachable registry a stored reference is that of a key supplied for the same endpoint, and
`draft` and the inherited translator pair a key only with the address it was supplied for. -/
theorem keys_stay_with_endpoint (injective : Function.Injective uuid) {d : Disk} (run : Edited py uuid d) :
    (∀ state, d.providers = some state → ∀ p, (p ∈ state.profiles ∨ ∃ stage, state.effective stage = some p) →
      ∀ ref, p.credentialRef = some ref → ∃ supply ∈ d.supplied, supply.ref = ref ∧
        SameEndpoint py supply.card p.toCard ∧
        d.vault.find? (fun entry => entry.1 == ref) = some (ref, supply.key)) ∧
    (∀ rt models body card found, draft py rt models body d = .ok (card, found) →
      found = "" ∨ field "api_key" body = some (.str found) ∨
        ∃ supply ∈ d.supplied, supply.key = found ∧ SameAddress py supply.card card.toCard) ∧
    (∀ rt state snapshot found, load py rt d = .ok state → translation state = some snapshot →
      key d snapshot.toCard = .ok found →
      found = "" ∨ ∃ supply ∈ d.supplied, supply.key = found ∧ SameAddress py supply.card snapshot.toCard) := by
  have bound := edited_bound injective run
  refine ⟨?_, ?_, ?_⟩
  · intro state stored p place ref reference
    have carried : Bound py d.supplied p.toCard := by
      rcases place with member | ⟨stage, active⟩
      · exact (bound.state state stored).profiles p member
      · exact (bound.state state stored).effective stage p active
    obtain ⟨supply, member, rfl, endpoint⟩ := carried ref reference
    exact ⟨supply, member, rfl, endpoint, bound.keys supply member⟩
  · intro rt models body card found h
    rcases draft_bound bound h with empty | given | ⟨supply, member, same, endpoint⟩
    · exact .inl empty
    · exact .inr (.inl given)
    · exact .inr (.inr ⟨supply, member, same, endpoint.address⟩)
  · intro rt state snapshot found loaded chosen looked
    have stateBound := load_bound bound loaded
    -- The inherited snapshot differs from the summary it is taken from in its stage only.
    have origin : ∃ p, Bound py d.supplied p ∧ p.credentialRef = snapshot.credentialRef ∧
        p.settings = snapshot.settings := by
      unfold translation at chosen
      split at chosen
      · rename_i p active
        cases chosen
        exact ⟨snapshot.toCard, stateBound.effective _ _ active, rfl, rfl⟩
      · split at chosen
        · rename_i p active
          split at chosen
          · cases chosen
            exact ⟨p.toCard, stateBound.effective _ _ active, rfl, rfl⟩
          · cases chosen
        · cases chosen
    obtain ⟨p, carried, reference, settings⟩ := origin
    have same : key d p = key d snapshot.toCard := by
      unfold key
      rw [reference]
    have address : SameAddress py p snapshot.toCard := by
      unfold SameAddress Providers.address
      rw [settings]
      exact ⟨rfl, fun _ => rfl⟩
    rcases key_bound bound carried (same.trans looked) with empty | ⟨supply, member, rfl, endpoint⟩
    · exact .inl empty
    · refine .inr ⟨supply, member, rfl, endpoint.address.1.trans address.1, fun none => ?_⟩
      exact (endpoint.address.2 none).trans (address.2 (endpoint.address.1 ▸ none))

/-- ASCII text without folding, and the loopback address. -/
def asciiPython : Python where
  isprintable := fun c => decide (32 ≤ c.toNat ∧ c.toNat < 127)
  lower := fun text => String.ofList (text.toList.map Char.toLower)
  nfkc := id
  ipAddress := fun text => if text = "127.0.0.1" then some ⟨4, 2130706433, false, false, false⟩ else none
  bracketedHost := fun _ => false
  float := fun _ => 0

def unary (n : Nat) : String := String.ofList (List.replicate (n + 1) 'a')

theorem unary_injective : Function.Injective unary := by
  intro m n h
  have := congrArg (fun text => text.toList.length) h
  simpa [unary] using this

def plainRuntime : Runtime where
  readable := true
  engineFile := none
  liveFile := none
  repoRoot := none
  managed := false
  managedPython := none
  managedAssets := ""
  fingerprint := ""
  expanduser := id
  whisperkitRevision := id

def working : Io := ⟨false, true, true, true⟩

/-- A summary card with a key. -/
def summaryBody : Fields :=
  [("revision", .int 0), ("api_key", .str "k"),
    ("profile", .obj [("name", .str "S"), ("stage", .str "summary"), ("kind", .str "openai-compatible"),
      ("settings", .obj [("base_url", .str "https://a/v1"), ("model", .str "m")])])]

theorem keys_stay_with_endpoint_saved :
    ∃ d, Edited asciiPython unary d ∧ (d.supplied.map (·.key)) = ["k"] ∧ d.providers.isSome = true ∧
      ∀ state, d.providers = some state → ∀ p, (p ∈ state.profiles ∨ ∃ stage, state.effective stage = some p) →
        ∀ ref, p.credentialRef = some ref → ∃ supply ∈ d.supplied, supply.ref = ref ∧
          SameEndpoint asciiPython supply.card p.toCard ∧
          d.vault.find? (fun entry => entry.1 == ref) = some (ref, supply.key) := by
  have run : Edited asciiPython unary (save asciiPython unary plainRuntime working summaryBody emptyDisk).1 :=
    .next (a := (plainRuntime, working, .save summaryBody)) (.start rfl) rfl
  exact ⟨_, run, by decide +kernel, by decide +kernel, (keys_stay_with_endpoint unary_injective run).1⟩

end OmiLocal.Providers
