import OmiLocal.Translation.Coordinator
import OmiLocal.Lib.Transition

/-!
# Stale translations

A translation in flight is fenced by the version of its segment. The fence holds as long as an
update that is not a continuation of the text in flight also advances the version.
-/
namespace OmiLocal.Translation.Cloud
open Lib Lib.Text

def Flight.units : Flight → List Queued
  | .translating units => units
  | .delivering rest => rest.map Prod.snd
  | .caching _ _ rest => rest.map Prod.snd

/-- What is queued or in flight, and may still be announced. -/
def outstanding (c : Coordinator) : List Queued := c.batchBuffer ++ c.flights.flatMap Flight.units

def versionOf (c : Coordinator) (id : String) : Option Nat := (c.segmentStates id).map SegmentState.version

def Continues (q : Queued) (text : String) : Prop := q.text.toList <+: text.toList

/-- The fence of the other segments. -/
structure Settling (id : String) (c : Coordinator) : Prop where
  counted : ∀ q ∈ outstanding c, 0 < q.version ∧ q.version ≤ c.versionCounter
  states : ∀ id v, versionOf c id = some v → v ≤ c.versionCounter
  others : ∀ q ∈ outstanding c, q.segmentId ≠ id → versionOf c q.segmentId = some q.version →
    ∃ t, c.observed q.segmentId = some t ∧ Continues q t
  ready : ∀ r ∈ c.ready, ∃ t, r.observed = some t ∧ r.source.toList <+: t.toList

/-- Work whose version is current continues to be what was observed. -/
structure Inv (c : Coordinator) : Prop where
  counted : ∀ q ∈ outstanding c, 0 < q.version ∧ q.version ≤ c.versionCounter
  states : ∀ id v, versionOf c id = some v → v ≤ c.versionCounter
  fence : ∀ q ∈ outstanding c, versionOf c q.segmentId = some q.version →
    ∃ t, c.observed q.segmentId = some t ∧ Continues q t
  ready : ∀ r ∈ c.ready, ∃ t, r.observed = some t ∧ r.source.toList <+: t.toList
  reading : ∀ u object rest conversationId, c.observing = .reading u object rest conversationId →
    c.observed u.id = some (strip u.text)

theorem inv_start : Inv start where
  counted := fun _ none => by cases none
  states := fun _ _ none => by cases none
  fence := fun _ none => by cases none
  ready := fun _ none => by cases none
  reading := fun _ _ _ _ idle => by cases idle

theorem versionOf_modify (c : Coordinator) (id : String) (object : Nat) {f : SegmentState → SegmentState}
    (keeps : ∀ s, (f s).version = s.version) (j : String) : versionOf (modify c id object f) j = versionOf c j := by
  unfold versionOf modify
  dsimp only
  split
  · rename_i same
    rw [same, Option.map_map]
    refine congrArg (fun g => (c.segmentStates id).map g) (funext fun s => ?_)
    dsimp only [Function.comp]
    split
    · exact keeps s
    · rfl
  · rfl

/-- Steps that leave versions and observations alone and add no work. -/
structure Keeps (c d : Coordinator) : Prop where
  counter : d.versionCounter = c.versionCounter
  versions : ∀ id, versionOf d id = versionOf c id
  work : ∀ q ∈ outstanding d, q ∈ outstanding c
  observed : d.observed = c.observed
  ready : d.ready = c.ready

theorem Keeps.refl (c : Coordinator) : Keeps c c := ⟨rfl, fun _ => rfl, fun _ inside => inside, rfl, rfl⟩

theorem Keeps.trans {c d e : Coordinator} (first : Keeps c d) (second : Keeps d e) : Keeps c e :=
  ⟨second.counter.trans first.counter, fun id => (second.versions id).trans (first.versions id),
    fun q inside => first.work q (second.work q inside), second.observed.trans first.observed,
    second.ready.trans first.ready⟩

theorem keeps_modify (c : Coordinator) (id : String) (object : Nat) {f : SegmentState → SegmentState}
    (keeps : ∀ s, (f s).version = s.version) : Keeps c (modify c id object f) :=
  ⟨rfl, versionOf_modify c id object keeps, fun _ inside => inside, rfl, rfl⟩

theorem Keeps.observe {c d : Coordinator} (keeps : Keeps c d) (observing : Observing) :
    Keeps c { d with observing := observing } :=
  ⟨keeps.counter, keeps.versions, keeps.work, keeps.observed, keeps.ready⟩

section Keeping
variable {c d : Coordinator} {id : String}

theorem Settling.keep (h : Settling id c) (keeps : Keeps c d) : Settling id d where
  counted := fun q inside => keeps.counter ▸ h.counted q (keeps.work q inside)
  states := fun j v current => keeps.counter ▸ h.states j v (keeps.versions j ▸ current)
  others := fun q inside other current =>
    keeps.observed ▸ h.others q (keeps.work q inside) other (keeps.versions q.segmentId ▸ current)
  ready := keeps.ready ▸ h.ready

theorem Inv.keep (h : Inv c) (keeps : Keeps c d)
    (reading : ∀ u object rest conversationId, d.observing = .reading u object rest conversationId →
      c.observing = .reading u object rest conversationId) : Inv d where
  counted := fun q inside => keeps.counter ▸ h.counted q (keeps.work q inside)
  states := fun j v current => keeps.counter ▸ h.states j v (keeps.versions j ▸ current)
  fence := fun q inside current =>
    keeps.observed ▸ h.fence q (keeps.work q inside) (keeps.versions q.segmentId ▸ current)
  ready := keeps.ready ▸ h.ready
  reading := fun u object rest conversationId now =>
    keeps.observed ▸ h.reading u object rest conversationId (reading u object rest conversationId now)

theorem Inv.settling (h : Inv c) (id : String) : Settling id c :=
  ⟨h.counted, h.states, fun q inside _ => h.fence q inside, h.ready⟩

/-- The fence of the segment that was observed makes the invariant whole again. -/
theorem Settling.inv (h : Settling id c)
    (own : ∀ q ∈ outstanding c, q.segmentId = id → versionOf c id = some q.version →
      ∃ t, c.observed id = some t ∧ Continues q t)
    (reading : ∀ u object rest conversationId, c.observing = .reading u object rest conversationId →
      c.observed u.id = some (strip u.text)) : Inv c where
  counted := h.counted
  states := h.states
  fence := fun q inside current => by
    by_cases same : q.segmentId = id
    · rw [same] at current ⊢
      exact own q inside same current
    · exact h.others q inside same current
  ready := h.ready
  reading := reading

end Keeping

/-! ## Advancing a version -/

section Advancing
variable {c : Coordinator} {id : String}

/-- The state after `modify` gave the segment a new version. -/
theorem versionOf_advance (c : Coordinator) (id : String) (object version : Nat) (j : String) :
    versionOf (modify c id object fun state => { state with version := version }) j = versionOf c j ∨
      j = id ∧ versionOf (modify c id object fun state => { state with version := version }) j = some version := by
  unfold versionOf modify
  dsimp only
  split
  · rename_i same
    rw [same]
    cases c.segmentStates id with
    | none => exact .inl rfl
    | some state =>
        by_cases owner : state.object = object
        · right
          exact ⟨rfl, by simp [owner]⟩
        · left
          simp [owner]
  · exact .inl rfl

theorem versionOf_advanced {state : SegmentState} (found : c.segmentStates id = some state) (version : Nat) :
    versionOf (modify c id state.object fun state => { state with version := version }) id = some version := by
  unfold versionOf modify
  dsimp only
  rw [if_pos rfl, found]
  simp

theorem outstanding_invalidate (c : Coordinator) (id : String) (object : Nat) {q : Queued}
    (inside : q ∈ outstanding (invalidate c id object)) : q ∈ outstanding c := by
  rcases List.mem_append.mp inside with queued | flying
  · exact List.mem_append_left _ (List.mem_filter.mp queued).1
  · exact List.mem_append_right _ flying

theorem outstanding_queueTranslation (c : Coordinator) (id : String) (object : Nat) (text conversationId : String)
    {q : Queued} (inside : q ∈ outstanding (queueTranslation c id object text conversationId)) :
    q ∈ outstanding c ∨ q = ⟨id, text, conversationId, c.versionCounter + 1⟩ := by
  rcases List.mem_append.mp inside with queued | flying
  · rcases List.mem_append.mp queued with before | last
    · exact .inl (List.mem_append_left _ before)
    · exact .inr (List.mem_singleton.mp last)
  · exact .inl (List.mem_append_right _ flying)

/-- Work that was there has an older version. -/
theorem Settling.unchanged (h : Settling id c) {object : Nat} {j : String} {q : Queued} (inside : q ∈ outstanding c)
    (current : versionOf (modify c id object fun state => { state with version := c.versionCounter + 1 }) j =
      some q.version) : versionOf c j = some q.version := by
  rcases versionOf_advance c id object (c.versionCounter + 1) j with same | ⟨_, advanced⟩
  · exact same.symm.trans current
  · have newer := Option.some.inj (advanced.symm.trans current)
    have older := (h.counted q inside).2
    omega

theorem Settling.states_advance (h : Settling id c) (object : Nat) {j : String} {v : Nat}
    (current : versionOf (modify c id object fun state => { state with version := c.versionCounter + 1 }) j = some v) :
    v ≤ c.versionCounter + 1 := by
  rcases versionOf_advance c id object (c.versionCounter + 1) j with same | ⟨_, advanced⟩
  · exact (h.states j v (same.symm.trans current)).trans (Nat.le_succ _)
  · exact (Option.some.inj (advanced.symm.trans current)).symm.le

theorem Settling.invalidate (h : Settling id c) (object : Nat) : Settling id (invalidate c id object) where
  counted := fun q inside =>
    have ⟨positive, older⟩ := h.counted q (outstanding_invalidate c id object inside)
    ⟨positive, older.trans (Nat.le_succ _)⟩
  states := fun _ _ current => h.states_advance object current
  others := fun q inside other current =>
    have before := outstanding_invalidate c id object inside
    h.others q before other (h.unchanged before current)
  ready := h.ready

theorem Settling.queueTranslation (h : Settling id c) (object : Nat) (text conversationId : String) :
    Settling id (queueTranslation c id object text conversationId) where
  counted := fun q inside => by
    rcases outstanding_queueTranslation c id object text conversationId inside with before | rfl
    · obtain ⟨positive, older⟩ := h.counted q before
      exact ⟨positive, older.trans (Nat.le_succ _)⟩
    · exact ⟨Nat.succ_pos _, le_refl _⟩
  states := fun _ _ current => h.states_advance object current
  others := fun q inside other current => by
    rcases outstanding_queueTranslation c id object text conversationId inside with before | rfl
    · exact h.others q before other (h.unchanged before current)
    · exact absurd rfl other
  ready := h.ready

end Advancing

/-! ## Observing -/

section Observing
variable {c : Coordinator}

/-- The update queues its text or invalidates the work of its segment. -/
def Update.Advances (c : Coordinator) (u : Update) : Prop :=
  ∃ state, c.segmentStates u.id = some state ∧ strip u.text ≠ "" ∧
    (state.committedText ≠ "" ∧ startsWith (strip u.text) state.committedText = false ∨
      (if state.committedText ≠ "" then restOf (strip u.text) state.committedText else strip u.text) ≠ "" ∧
        u.skipMono = false ∧ u.need = .translate)

/-- `settle` queues the text under a new version of a state that is still there, or what is in flight is continued. -/
theorem Settling.settle {u : Update} {text committed : String} {object : Nat} (h : Settling u.id c)
    (told : c.observed u.id = some text)
    (old : (∀ q ∈ outstanding c, q.segmentId = u.id → versionOf c u.id = some q.version → Continues q text) ∨
      (∃ state, c.segmentStates u.id = some state ∧ state.object = object) ∧
        (if committed ≠ "" then restOf text committed else text) ≠ "" ∧ u.skipMono = false ∧ u.need = .translate)
    (rest : List Update) (conversationId : String) : Inv (settle c u text object committed rest conversationId) := by
  have quiet {d : Coordinator} (keeps : Keeps c d)
      (continued : ∀ q ∈ outstanding c, q.segmentId = u.id → versionOf c u.id = some q.version → Continues q text)
      (idle : ∀ v object rest conversationId, d.observing ≠ .reading v object rest conversationId) : Inv d := by
    refine (h.keep keeps).inv (fun q inside same current => ?_) fun v object rest conversationId now =>
      absurd now (idle v object rest conversationId)
    rw [keeps.observed]
    exact ⟨text, told, continued q (keeps.work q inside) same (keeps.versions u.id ▸ current)⟩
  have latest := keeps_modify c u.id object (f := fun state => { state with latestText := text }) fun _ => rfl
  unfold Cloud.settle
  dsimp only
  generalize (if committed ≠ "" then restOf text committed else text) = newText at old ⊢
  split
  · rename_i empty
    refine quiet (latest.observe _) ?_ fun _ _ _ _ => by simp
    exact old.resolve_right fun advances => advances.2.1 empty
  · split
    · rename_i skipped
      have committing := latest.trans (keeps_modify _ u.id object (f := fun state => { state with committedText := text }) fun _ => rfl)
      refine quiet (committing.observe _) ?_ fun _ _ _ _ => by simp
      refine old.resolve_right fun advances => ?_
      obtain ⟨-, -, mono, need⟩ := advances
      rw [mono, need] at skipped
      simp at skipped
    · split
      · rename_i deferred
        refine quiet (latest.observe _) ?_ fun _ _ _ _ => by simp
        refine old.resolve_right fun advances => ?_
        rw [advances.2.2.2] at deferred
        cases deferred
      · have settling := h.keep latest
        have queued := settling.queueTranslation object text conversationId
        refine Inv.mk queued.counted queued.states ?_ queued.ready (fun _ _ _ _ now => by cases now)
        intro q inside current
        by_cases same : q.segmentId = u.id
        · refine ⟨text, by rw [same]; exact told, ?_⟩
          rcases outstanding_queueTranslation _ u.id object text conversationId inside with before | rfl
          · rw [same] at current
            rcases old with continued | ⟨⟨state, found, owner⟩, -⟩
            · have unchanged := settling.unchanged before current
              exact continued q (latest.work q before) same (latest.versions u.id ▸ unchanged)
            · have found' : (modify c u.id object fun state => { state with latestText := text }).segmentStates u.id =
                  some { state with latestText := text } := by
                simp [modify, found, owner]
              have advanced := versionOf_advanced found' (c.versionCounter + 1)
              rw [show ({ state with latestText := text } : SegmentState).object = object from owner] at advanced
              have newer := Option.some.inj (advanced.symm.trans current)
              have older := (h.counted q (latest.work q before)).2
              omega
          · exact List.prefix_refl _
        · exact queued.others q inside same current

theorem Inv.observed (h : Inv c) (id text : String) :
    Settling id { c with observed := Function.update c.observed id (some text) } where
  counted := h.counted
  states := h.states
  others := fun q inside other current => by
    obtain ⟨t, known, continued⟩ := h.fence q inside current
    refine ⟨t, ?_, continued⟩
    dsimp only
    rw [Function.update_of_ne other]
    exact known
  ready := h.ready

/-- A state that was just created has version 0, which no work has. -/
theorem getOrCreate_cases (c : Coordinator) (id : String) :
    (∃ state, c.segmentStates id = some state ∧ getOrCreate c id = (c, state)) ∨
      c.segmentStates id = none ∧ (getOrCreate c id).2.committedText = "" ∧
        (∀ j, versionOf (getOrCreate c id).1 j = if j = id then some 0 else versionOf c j) ∧
        getOrCreate c id = ({ c with objects := c.objects + 1, segmentStates := (getOrCreate c id).1.segmentStates },
          (getOrCreate c id).2) := by
  unfold getOrCreate
  split
  · rename_i state found
    exact .inl ⟨state, found, rfl⟩
  · rename_i missing
    refine .inr ⟨missing, rfl, fun j => ?_, rfl⟩
    unfold versionOf
    dsimp only
    rw [Function.update_apply]
    split <;> rfl

theorem Inv.updating (h : Inv c) (rest : List Update) (conversationId : String) :
    Inv { c with observing := .updating rest conversationId } :=
  h.keep ((Keeps.refl c).observe _) fun _ _ _ _ now => by cases now

theorem Inv.observeSegment (h : Inv c) {u : Update}
    (steady : u.id ≠ "" → ∀ q ∈ outstanding c, q.segmentId = u.id → versionOf c u.id = some q.version →
      Continues q (strip u.text) ∨ u.Advances c) (rest : List Update) (conversationId : String) :
    Inv (observeSegment c u rest conversationId) := by
  unfold Cloud.observeSegment
  dsimp only
  split
  · exact h.updating rest conversationId
  · rename_i named
    have observed := h.observed u.id (strip u.text)
    have told : Function.update c.observed u.id (some (strip u.text)) u.id = some (strip u.text) := Function.update_self ..
    split
    · rename_i blank
      refine (observed.keep ((Keeps.refl _).observe _)).inv (fun q inside same current => ?_) fun _ _ _ _ now => by cases now
      refine ⟨strip u.text, told, (steady named q inside same current).resolve_right ?_⟩
      rintro ⟨_, _, text, _⟩
      exact text blank
    · rename_i text
      rcases getOrCreate_cases { c with observed := Function.update c.observed u.id (some (strip u.text)) } u.id with
        ⟨state, found, existing⟩ | ⟨missing, fresh, versions, created⟩
      · rw [existing]
        dsimp only
        split
        · rename_i departs
          have settling := observed.invalidate state.object
          refine (settling.keep ((Keeps.refl _).observe _)).inv (fun q inside same current => ?_) ?_
          · have advanced := versionOf_advanced (c := { c with observed := Function.update c.observed u.id (some (strip u.text)) })
              found (c.versionCounter + 1)
            have newer := Option.some.inj (advanced.symm.trans current)
            have older := (h.counted q (outstanding_invalidate c u.id state.object inside)).2
            omega
          · intro v object later conversation now
            cases now
            exact told
        · rename_i continues
          refine observed.settle told ?_ rest conversationId
          by_cases advances : u.Advances c
          · obtain ⟨other, known, _, departs | queues⟩ := advances
            · cases found.symm.trans known
              exact absurd departs continues
            · cases found.symm.trans known
              exact .inr ⟨⟨state, found, rfl⟩, queues⟩
          · exact .inl fun q inside same current => (steady named q inside same current).resolve_right advances
      · rw [created]
        dsimp only
        rw [if_neg (by simp [fresh])]
        have settling : Settling u.id { c with
            objects := c.objects + 1
            segmentStates := (getOrCreate { c with observed := Function.update c.observed u.id (some (strip u.text)) } u.id).1.segmentStates
            observed := Function.update c.observed u.id (some (strip u.text)) } := by
          rw [created] at versions
          refine ⟨h.counted, fun j v current => ?_, fun q inside other current => ?_, h.ready⟩
          · have same := (versions j).symm.trans current
            split at same
            · cases same
              exact Nat.zero_le _
            · exact h.states j v same
          · have same := (versions q.segmentId).symm.trans current
            rw [if_neg other] at same
            exact observed.others q inside other same
        refine settling.settle told (.inl fun q inside same current => ?_) rest conversationId
        rw [created] at versions
        have zero := (versions u.id).symm.trans current
        rw [if_pos rfl] at zero
        have positive := (h.counted q inside).1
        have none := Option.some.inj zero
        omega

theorem Inv.cacheRead (h : Inv c) (cached : Option (String × String)) : Inv (cacheRead c cached) := by
  unfold Cloud.cacheRead
  split
  · rename_i u object rest conversationId reading
    have told := h.reading u object rest conversationId reading
    dsimp only
    split
    · have kept := keeps_modify c u.id object
        (f := fun state => { state with committedText := "", assembledTranslation := none, detectedLang := none }) fun _ => rfl
      refine ((h.settling u.id).keep kept).settle told (.inl fun q inside same current => ?_) rest conversationId
      obtain ⟨t, known, continued⟩ := h.fence q (kept.work q inside) (by rw [same]; exact kept.versions u.id ▸ current)
      rw [same, told] at known
      cases known
      exact continued
    · rename_i translatedText detectedLang
      split
      · have kept := keeps_modify c u.id object
          (f := fun state => { state with
            committedText := strip u.text
            assembledTranslation := some translatedText
            detectedLang := some detectedLang
            latestText := strip u.text }) fun _ => rfl
        have adopted := h.keep (kept.observe (.awaiting rest conversationId)) fun _ _ _ _ now => by cases now
        refine ⟨adopted.counted, adopted.states, adopted.fence, fun r inside => ?_, adopted.reading⟩
        rcases List.mem_append.mp inside with before | last
        · exact h.ready r before
        · rw [List.mem_singleton.mp last]
          exact ⟨strip u.text, told, List.prefix_refl _⟩
      · have invalidated := (h.settling u.id).invalidate object
        have kept := keeps_modify (invalidate c u.id object) u.id object
          (f := fun state => { state with
            committedText := strip u.text
            assembledTranslation := some translatedText
            detectedLang := some detectedLang
            latestText := strip u.text }) fun _ => rfl
        refine (invalidated.keep (kept.observe _)).inv (fun q inside same current => ?_) fun _ _ _ _ now => by cases now
        have before := outstanding_invalidate c u.id object (kept.work q inside)
        have unchanged := (h.settling u.id).unchanged before (kept.versions u.id ▸ current)
        obtain ⟨t, known, continued⟩ := h.fence q before (by rw [same]; exact unchanged)
        rw [same] at known
        exact ⟨t, known, continued⟩
  · exact h

theorem Inv.nextUpdate (h : Inv c)
    (steady : ∀ u rest conversationId, c.observing = .updating (u :: rest) conversationId → u.id ≠ "" →
      ∀ q ∈ outstanding c, q.segmentId = u.id → versionOf c u.id = some q.version →
        Continues q (strip u.text) ∨ u.Advances c) : Inv (nextUpdate c) := by
  unfold Cloud.nextUpdate
  split
  · exact h.keep ((Keeps.refl c).observe _) fun _ _ _ _ now => by cases now
  · rename_i u rest conversationId updating
    exact h.observeSegment (steady u rest conversationId updating) rest conversationId
  · exact h.updating _ _
  · exact h

theorem Inv.observe (h : Inv c) (updatedSegments : List Update) (removedIds : List String) (conversationId : String) :
    Inv (observe c updatedSegments removedIds conversationId) := by
  unfold Cloud.observe
  split
  · exact h
  · refine ⟨h.counted, fun id v current => ?_, fun q inside current => ?_, h.ready, fun _ _ _ _ now => by cases now⟩
    · unfold versionOf at current
      dsimp only at current
      split at current
      · cases current
      · exact h.states id v current
    · unfold versionOf at current
      dsimp only at current ⊢
      split at current
      · cases current
      · rename_i kept
        rw [if_neg kept]
        exact h.fence q inside current

end Observing

/-! ## Batches -/

section Batches
variable {c : Coordinator}

theorem Inv.fewer (h : Inv c) {buffer : List Queued} {flights : List Flight} {handed : List Queued}
    (fewer : ∀ q ∈ buffer ++ flights.flatMap Flight.units, q ∈ outstanding c) :
    Inv { c with batchBuffer := buffer, flights := flights, handed := handed } :=
  h.keep ⟨rfl, fun _ => rfl, fewer, rfl, rfl⟩ fun _ _ _ _ now => now

theorem mem_outstanding_of_flight {f : Flight} (flying : f ∈ c.flights) {q : Queued} (inside : q ∈ f.units) :
    q ∈ outstanding c :=
  List.mem_append_right _ (List.mem_flatMap.mpr ⟨f, flying, inside⟩)

/-- The units of the other flights were there, and those of the one that moved were its own. -/
theorem outstanding_set {i : Nat} {f g : Flight} (flying : c.flights[i]? = some f) (fewer : ∀ q ∈ g.units, q ∈ f.units) :
    ∀ q ∈ c.batchBuffer ++ (c.flights.set i g).flatMap Flight.units, q ∈ outstanding c := by
  intro q inside
  rcases List.mem_append.mp inside with queued | flown
  · exact List.mem_append_left _ queued
  · obtain ⟨flight, member, unit⟩ := List.mem_flatMap.mp flown
    rcases List.mem_or_eq_of_mem_set member with other | rfl
    · exact mem_outstanding_of_flight other unit
    · exact mem_outstanding_of_flight (List.mem_of_getElem? flying) (fewer q unit)

theorem outstanding_eraseIdx (c : Coordinator) (i : Nat) :
    ∀ q ∈ c.batchBuffer ++ (c.flights.eraseIdx i).flatMap Flight.units, q ∈ outstanding c := by
  intro q inside
  rcases List.mem_append.mp inside with queued | flown
  · exact List.mem_append_left _ queued
  · obtain ⟨flight, member, unit⟩ := List.mem_flatMap.mp flown
    exact mem_outstanding_of_flight (List.mem_of_mem_eraseIdx member) unit

theorem Inv.flushBatch (h : Inv c) : Inv (flushBatch c) := by
  unfold Cloud.flushBatch
  dsimp only
  split
  · exact h.fewer fun q inside => List.mem_append_right _ inside
  · refine h.fewer fun q inside => ?_
    rw [List.nil_append, List.flatMap_append] at inside
    rcases List.mem_append.mp inside with flown | taken
    · exact List.mem_append_right _ flown
    · rw [List.flatMap_singleton] at taken
      exact List.mem_append_left _ (List.mem_filter.mp taken).1

theorem Inv.translated (h : Inv c) (i : Nat) (outcomes : List TranslationOutcome) : Inv (translated c i outcomes) := by
  unfold Cloud.translated
  split
  · rename_i units flying
    split
    · rename_i same
      refine h.fewer (outstanding_set flying fun q inside => ?_)
      rw [Flight.units, List.map_snd_zip same.ge] at inside
      exact inside
    · exact h.fewer (outstanding_eraseIdx c i)
  · exact h

/-- What `deliver` announces has passed the fence in the same step. -/
theorem Inv.resumeBatch (h : Inv c) (inTargetLanguage : String → Bool) (i : Nat) :
    Inv (resumeBatch inTargetLanguage c i) := by
  unfold Cloud.resumeBatch
  split
  · exact h.fewer (outstanding_eraseIdx c i)
  · rename_i outcome q rest flying
    have later : ∀ p ∈ (Flight.delivering rest).units, p ∈ (Flight.delivering ((outcome, q) :: rest)).units :=
      fun p inside => List.mem_cons_of_mem _ inside
    have passed : Inv { c with flights := c.flights.set i (.delivering rest) } := h.fewer (outstanding_set flying later)
    change Inv { (deliver inTargetLanguage c outcome q rest).1 with
      flights := (deliver inTargetLanguage c outcome q rest).1.flights.set i (deliver inTargetLanguage c outcome q rest).2 }
    unfold deliver
    split
    · exact passed
    · rename_i state found
      split
      · exact passed
      · rename_i fenced
        split
        · have current : versionOf c q.segmentId = some q.version := by
            rw [versionOf, found, Option.map_some]
            by_contra stale
            exact fenced (.inl fun same => stale (by rw [same]))
          obtain ⟨t, known, continued⟩ :=
            h.fence q (mem_outstanding_of_flight (List.mem_of_getElem? flying) List.mem_cons_self) current
          have kept := keeps_modify { c with flights := c.flights.set i (.delivering rest) } q.segmentId state.object
            (f := fun state => { state with
              committedText := q.text
              assembledTranslation := some outcome.text
              detectedLang := some outcome.detectedLanguage }) fun _ => rfl
          have updated := passed.keep kept fun _ _ _ _ now => now
          refine ⟨updated.counted, updated.states, updated.fence, fun r inside => ?_, updated.reading⟩
          rcases List.mem_append.mp inside with before | last
          · exact h.ready r before
          · rw [List.mem_singleton.mp last]
            exact ⟨t, known, continued⟩
        · split
          · split
            · exact h.fewer (outstanding_set flying later)
            · exact passed.keep (keeps_modify _ q.segmentId state.object (f := fun state => { state with committedText := q.text })
                fun _ => rfl) fun _ _ _ _ now => now
          · exact passed
  · rename_i object q rest flying
    have passed : Inv { c with flights := c.flights.set i (.delivering rest) } :=
      h.fewer (outstanding_set flying fun _ inside => inside)
    exact passed.keep (keeps_modify _ q.segmentId object (f := fun state => { state with committedText := q.text })
      fun _ => rfl) fun _ _ _ _ now => now
  · exact h

theorem Inv.handleSegmentMerge (h : Inv c) {removedId : String}
    (apart : ∀ u object rest conversationId, c.observing = .reading u object rest conversationId → u.id ≠ removedId)
    (survivingId : String) : Inv (handleSegmentMerge c removedId survivingId) := by
  have dropped : Inv { c with
      segmentStates := Function.update c.segmentStates removedId none
      observed := Function.update c.observed removedId none } := by
    refine ⟨h.counted, fun id v current => ?_, fun q inside current => ?_, h.ready, fun u object rest conversationId now => ?_⟩
    · unfold versionOf at current
      dsimp only at current
      rw [Function.update_apply] at current
      split at current
      · cases current
      · exact h.states id v current
    · unfold versionOf at current
      dsimp only at current ⊢
      rw [Function.update_apply] at current ⊢
      split at current
      · cases current
      · rename_i other
        rw [if_neg other]
        exact h.fence q inside current
    · dsimp only
      rw [Function.update_of_ne (apart u object rest conversationId now)]
      exact h.reading u object rest conversationId now
  unfold Cloud.handleSegmentMerge
  dsimp only
  split
  · rename_i removed state merged survivor
    refine dropped.keep ⟨rfl, fun id => ?_, fun _ inside => inside, rfl, rfl⟩ fun _ _ _ _ now => now
    unfold versionOf
    dsimp only
    rw [Function.update_apply]
    split
    · rename_i same
      rw [same, survivor]
      rfl
    · rfl
  · exact dropped

end Batches

/-! ## Runs -/

/-- An update that does not continue what is in flight for its segment queues its text or departs from the committed
text; a merge does not remove the segment whose cached translation is being read. -/
def Action.Steady (c : Coordinator) : Action → Prop
  | .nextUpdate => ∀ u rest conversationId, c.observing = .updating (u :: rest) conversationId → u.id ≠ "" →
      ∀ q ∈ outstanding c, q.segmentId = u.id → versionOf c u.id = some q.version →
        Continues q (strip u.text) ∨ u.Advances c
  | .handleSegmentMerge removedId _ => ∀ u object rest conversationId,
      c.observing = .reading u object rest conversationId → u.id ≠ removedId
  | _ => True

theorem Inv.apply {c : Coordinator} (h : Inv c) (inTargetLanguage : String → Bool) {a : Action} (steady : a.Steady c) :
    Inv (a.apply inTargetLanguage c) := by
  cases a with
  | observe updatedSegments removedIds conversationId => exact h.observe updatedSegments removedIds conversationId
  | nextUpdate => exact h.nextUpdate steady
  | cacheRead cached => exact h.cacheRead cached
  | observeRaised => exact h.keep ((Keeps.refl c).observe _) fun _ _ _ _ now => by cases now
  | flushBatch => exact h.flushBatch
  | translated i outcomes => exact h.translated i outcomes
  | resumeBatch i => exact h.resumeBatch inTargetLanguage i
  | batchRaised i => exact h.fewer (outstanding_eraseIdx c i)
  | handleSegmentMerge removedId survivingId => exact h.handleSegmentMerge steady survivingId
  | flush => exact Inv.flushBatch ⟨h.counted, h.states, h.fence, h.ready, h.reading⟩
  | flushEnded => exact ⟨h.counted, fun _ _ none => (by cases none), fun _ _ none => (by cases none), h.ready, h.reading⟩

/-! ## Handed once -/

/-- Every queued text has its own version, whether it waits or was handed to the provider. -/
structure Once (c : Coordinator) : Prop where
  distinct : ((c.handed ++ c.batchBuffer).map Queued.version).Nodup
  counted : ∀ q ∈ c.handed ++ c.batchBuffer, q.version ≤ c.versionCounter

section HandedOnce
variable {c d : Coordinator}

theorem Once.shrink (h : Once c) (counter : c.versionCounter ≤ d.versionCounter)
    (fewer : (d.handed ++ d.batchBuffer).Sublist (c.handed ++ c.batchBuffer)) : Once d :=
  ⟨h.distinct.sublist (fewer.map _), fun q inside => (h.counted q (fewer.subset inside)).trans counter⟩

theorem Once.queueTranslation (h : Once c) (id : String) (object : Nat) (text conversationId : String) :
    Once (queueTranslation c id object text conversationId) := by
  have split : (Cloud.queueTranslation c id object text conversationId).handed ++
      (Cloud.queueTranslation c id object text conversationId).batchBuffer =
      (c.handed ++ c.batchBuffer) ++ [⟨id, text, conversationId, c.versionCounter + 1⟩] := (List.append_assoc ..).symm
  refine ⟨?_, ?_⟩
  · rw [split, List.map_append, List.nodup_append]
    refine ⟨h.distinct, List.nodup_cons.mpr ⟨List.not_mem_nil, List.nodup_nil⟩, fun v inside w last same => ?_⟩
    obtain ⟨q, member, rfl⟩ := List.mem_map.mp inside
    have older := h.counted q member
    have newer : w = c.versionCounter + 1 := List.mem_singleton.mp last
    omega
  · rw [split]
    intro q inside
    rcases List.mem_append.mp inside with before | last
    · exact (h.counted q before).trans (Nat.le_succ _)
    · rw [List.mem_singleton.mp last]
      exact le_refl _

theorem Once.invalidate (h : Once c) (id : String) (object : Nat) : Once (invalidate c id object) :=
  h.shrink (Nat.le_succ _) (List.Sublist.append_left List.filter_sublist _)

theorem Once.settle (h : Once c) (u : Update) (text : String) (object : Nat) (committed : String) (rest : List Update)
    (conversationId : String) : Once (settle c u text object committed rest conversationId) := by
  unfold Cloud.settle
  dsimp only
  generalize (if committed ≠ "" then restOf text committed else text) = newText
  split
  · exact ⟨h.distinct, h.counted⟩
  · split
    · exact ⟨h.distinct, h.counted⟩
    · split
      · exact ⟨h.distinct, h.counted⟩
      · have latest : Once (modify c u.id object fun state => { state with latestText := text }) := ⟨h.distinct, h.counted⟩
        have queued := latest.queueTranslation u.id object text conversationId
        exact ⟨queued.distinct, queued.counted⟩

theorem Once.observeSegment (h : Once c) (u : Update) (rest : List Update) (conversationId : String) :
    Once (observeSegment c u rest conversationId) := by
  unfold Cloud.observeSegment
  dsimp only
  split
  · exact ⟨h.distinct, h.counted⟩
  · split
    · exact ⟨h.distinct, h.counted⟩
    · have created : Once (getOrCreate { c with observed := Function.update c.observed u.id (some (strip u.text)) } u.id).1 := by
        unfold getOrCreate
        split <;> exact ⟨h.distinct, h.counted⟩
      split
      · have invalidated := created.invalidate u.id
          (getOrCreate { c with observed := Function.update c.observed u.id (some (strip u.text)) } u.id).2.object
        exact ⟨invalidated.distinct, invalidated.counted⟩
      · exact created.settle u _ _ _ rest conversationId

theorem Once.flushBatch (h : Once c) : Once (flushBatch c) := by
  unfold Cloud.flushBatch
  dsimp only
  split
  · exact h.shrink (le_refl _) (List.Sublist.append_left (List.nil_sublist _) _)
  · refine h.shrink (le_refl _) ?_
    dsimp only
    rw [List.append_nil]
    exact List.Sublist.append_left List.filter_sublist _

theorem Once.apply (h : Once c) (inTargetLanguage : String → Bool) (a : Action) : Once (a.apply inTargetLanguage c) := by
  have same {d : Coordinator} (counter : d.versionCounter = c.versionCounter) (handed : d.handed = c.handed)
      (buffer : d.batchBuffer = c.batchBuffer) : Once d :=
    h.shrink counter.ge (by simp [handed, buffer])
  cases a with
  | observe updatedSegments removedIds conversationId =>
      rw [Action.apply]
      unfold Cloud.observe
      split
      · exact h
      · exact same rfl rfl rfl
  | nextUpdate =>
      rw [Action.apply]
      unfold Cloud.nextUpdate
      split
      · exact same rfl rfl rfl
      · exact h.observeSegment _ _ _
      · exact same rfl rfl rfl
      · exact h
  | cacheRead cached =>
      rw [Action.apply]
      unfold Cloud.cacheRead
      split
      · rename_i u object rest conversationId _
        dsimp only
        split
        · have reset : Once (modify c u.id object fun state =>
              { state with committedText := "", assembledTranslation := none, detectedLang := none }) := same rfl rfl rfl
          exact reset.settle u _ object "" rest conversationId
        · split
          · exact same rfl rfl rfl
          · have invalidated := h.invalidate u.id object
            exact ⟨invalidated.distinct, invalidated.counted⟩
      · exact h
  | observeRaised => exact same rfl rfl rfl
  | flushBatch => exact h.flushBatch
  | translated i outcomes =>
      rw [Action.apply]
      unfold Cloud.translated
      split
      · split <;> exact same rfl rfl rfl
      · exact h
  | resumeBatch i =>
      rw [Action.apply]
      unfold Cloud.resumeBatch
      split
      · exact same rfl rfl rfl
      · rename_i outcome q rest _
        change Once { (deliver inTargetLanguage c outcome q rest).1 with
          flights := (deliver inTargetLanguage c outcome q rest).1.flights.set i (deliver inTargetLanguage c outcome q rest).2 }
        unfold deliver
        split
        · exact same rfl rfl rfl
        · split
          · exact same rfl rfl rfl
          · split
            · exact same rfl rfl rfl
            · split
              · split <;> exact same rfl rfl rfl
              · exact same rfl rfl rfl
      · exact same rfl rfl rfl
      · exact h
  | batchRaised i => exact same rfl rfl rfl
  | handleSegmentMerge removedId survivingId =>
      rw [Action.apply]
      unfold Cloud.handleSegmentMerge
      dsimp only
      split <;> exact same rfl rfl rfl
  | flush => exact Once.flushBatch (same rfl rfl rfl)
  | flushEnded => exact same rfl rfl rfl

end HandedOnce

/-- The coordinators that a run reaches, and those that a run of steady actions reaches. -/
abbrev Reached (inTargetLanguage : String → Bool) : Coordinator → Prop :=
  Transition.Reachable (· = start) fun c a d => act inTargetLanguage c a = some d

abbrev ReachedSteady (inTargetLanguage : String → Bool) : Coordinator → Prop :=
  Transition.Reachable (· = start) fun c a d => a.Steady c ∧ act inTargetLanguage c a = some d

theorem act_some {inTargetLanguage : String → Bool} {c d : Coordinator} {a : Action}
    (acted : act inTargetLanguage c a = some d) : d = a.apply inTargetLanguage c := by
  unfold act at acted
  split at acted
  · exact (Option.some.inj acted).symm
  · cases acted

/-- Each queued text is handed to the provider at most once; and in a run of steady actions what is announced was
translated from a prefix of the segment's latest text, and the segment was not removed. -/
theorem translations_not_stale (inTargetLanguage : String → Bool) :
    (∀ c, Reached inTargetLanguage c → (c.handed.map Queued.version).Nodup) ∧
      ∀ c, ReachedSteady inTargetLanguage c → ∀ r ∈ c.ready, ∃ t, r.observed = some t ∧ r.source.toList <+: t.toList := by
  constructor
  · intro c reached
    have once : Once c := by
      induction reached with
      | start initial =>
          rw [initial]
          exact ⟨List.nodup_nil, fun _ none => (by cases none)⟩
      | next _ acted ih =>
          rw [act_some acted]
          exact ih.apply inTargetLanguage _
    exact once.distinct.sublist ((List.sublist_append_left _ _).map _)
  · intro c reached
    have inv : Inv c := by
      induction reached with
      | start initial =>
          rw [initial]
          exact inv_start
      | next _ step ih =>
          rw [act_some step.2]
          exact ih.apply inTargetLanguage step.1
    exact inv.ready

/-! ## A stale translation -/

def sampleActions : List Action :=
  [.observe [⟨"s", "Hola.", false, .translate⟩] [] "c", .nextUpdate, .nextUpdate, .flushBatch,
    .observe [⟨"s", "Hello there.", false, .skip⟩] [] "c", .nextUpdate, .translated 0 [⟨.translated, "Hi.", "es"⟩],
    .resumeBatch 0]

/-- The new text is skipped, so the version stays and the translation of the old text is announced. -/
theorem stale_after_skip :
    (sampleActions.foldlM (act fun lang => decide (lang = "en")) start).map Coordinator.ready =
        some [⟨"s", "Hola.", "Hi.", "es", "c", some "Hello there."⟩] ∧
      ¬"Hola.".toList <+: "Hello there.".toList := by
  decide +kernel

end OmiLocal.Translation.Cloud
