import OmiLocal.Wals.FlashPages

/-!
# What the app's acknowledgements free

Each acknowledgement covers every page that was extracted before it. So it is
right when each frame of these pages is in a closed and registered file: a save
that fails, a registration that is skipped and the frames set aside at a session
gap are where this can be missed. In the runs without them the frames are at any
time in the batch, in the frames set aside or in one file.
-/
namespace OmiLocal.Wals.Flash
open Lib Lib.Framing Lib.Transition
open Phone (SessionLocation addExternalWal)

def Extracted.Indexed (e : Extracted) : Prop := e.page.isSome

/-- The file is closed, holds the frame and has an entry in the list of recordings. -/
def StoredIn (files : List (String × StoredFile)) (wals : Option (List Phone.Wal)) (e : Extracted) (name : String) :
    Prop :=
  ∃ file, Dict.get files name = some file ∧ file.closed = true ∧ e ∈ file.held ∧
    ∃ list, wals = some list ∧ ∃ w ∈ list, w.filePath = some name

/-- Each file's frames are the extracted ones it holds, in their order, and no frame is in two files. -/
structure InOrder (files : List (String × StoredFile)) : Prop where
  ordered : ∀ name file, Dict.get files name = some file → (file.held.map Extracted.number).Pairwise (· < ·)
  content : ∀ name file, Dict.get files name = some file → file.held ≠ [] → file.frames = file.held.map Extracted.bytes
  once : ∀ e name name' file file', Dict.get files name = some file → Dict.get files name' = some file' → e ∈ file.held →
    e ∈ file'.held → name = name'

/-- Every frame of a page up to the acknowledged one is in exactly one file, which is closed and registered. -/
structure Ack.Covers (a : Ack) : Prop where
  numbers : a.extracted.map Extracted.number = List.range a.extracted.length
  stored : ∀ e ∈ a.extracted, ∀ i, e.page = some i → i ≤ a.upToIndex → ∃ name, StoredIn a.files a.wals e name
  inOrder : InOrder a.files

namespace FlashPageSync
variable {s t : FlashPageSync}

/-- The condition of the runs. A batch with a frame of a flash page is closed under a name that no file with such a
frame has, and is registered with an id that is not taken; no frame of a flash page is set aside while the
acknowledgement behind an incremental save is sent. -/
def Action.Steady (s : FlashPageSync) : Action → Prop
  | .write microseconds now written =>
      ((∃ e ∈ s.accumulatedFrames, e.Indexed) → written = .closed) ∧
        ∀ file ∈ Dict.get s.files (fileName microseconds (s.batchMinTimestamp.getD now)), ∀ e ∈ file.held, ¬e.Indexed
  | .register _ _ =>
      (∃ e ∈ s.accumulatedFrames, e.Indexed) →
        match s.stage with
        | .register _ name timestampMs =>
            ∃ wals ∈ s.localSync, ∀ w ∈ wals, w.id ≠ (s.chunkWal name timestampMs s.accumulatedFrames.length).id
        | _ => True
  | .acknowledge _ _ => s.stage = .savedAck .incremental → ∀ e ∈ s.pendingFrames, ¬e.Indexed
  | _ => True

instance (e : Extracted) : Decidable e.Indexed := by
  unfold Extracted.Indexed
  infer_instance

instance (s : FlashPageSync) (a : Action) : Decidable (a.Steady s) := by
  unfold Action.Steady
  split
  · infer_instance
  · split <;> infer_instance
  · infer_instance
  · infer_instance

abbrev Reached : FlashPageSync → Prop := Reachable Started fun s a t => s.act a = some t

abbrev ReachedSteady : FlashPageSync → Prop := Reachable Started fun s a t => a.Steady s ∧ s.act a = some t

/-- The batch, as long as no file holds it. -/
def unwritten (s : FlashPageSync) : List Extracted :=
  match s.stage with
  | .register _ _ _ | .savedAck _ | .cancelAck | .cleanupAck | .returned _ => []
  | _ => s.accumulatedFrames

/-- Some frames are set aside only while the batch before them is saved. -/
def SettingAside (s : FlashPageSync) : Prop :=
  s.stage = .save .incremental ∨ (∃ name ts, s.stage = .register .incremental name ts) ∨ s.stage = .savedAck .incremental

/-- The drain has not returned. -/
def Going (s : FlashPageSync) : Prop := ∀ completed, s.stage ≠ .returned completed

structure FilesOk (s : FlashPageSync) : Prop where
  numbers : s.extracted.map Extracted.number = List.range s.extracted.length
  inOrder : InOrder s.files
  bounded : ∀ name file, Dict.get s.files name = some file → ∀ e ∈ file.held, e.number < s.extracted.length
  covered : ∀ a ∈ s.acks, a.Covers

/-- Frames that no file holds yet, in extraction order. -/
structure Waiting (s : FlashPageSync) (frames : List Extracted) : Prop where
  ordered : (frames.map Extracted.number).Pairwise (· < ·)
  bounded : ∀ e ∈ frames, e.number < s.extracted.length
  fresh : ∀ e ∈ frames, ∀ name file, Dict.get s.files name = some file → e ∉ file.held

/-- The batch stands in the file that is being registered. -/
def Registering (s : FlashPageSync) : Prop :=
  ∃ purpose name ts file, s.stage = .register purpose name ts ∧ Dict.get s.files name = some file ∧ file.closed = true ∧
    file.held = s.accumulatedFrames

structure BatchOk (s : FlashPageSync) : Prop where
  waiting : s.Waiting (s.unwritten ++ s.pendingFrames)
  kept : ∀ e ∈ s.extracted, e.Indexed → e ∈ s.unwritten ++ s.pendingFrames ∨
    (s.Registering ∧ e ∈ s.accumulatedFrames) ∨ ∃ name, StoredIn s.files s.localSync e name
  registering : ∀ purpose name ts, s.stage = .register purpose name ts → s.Registering
  aside : ¬s.SettingAside → s.pendingFrames = []
  diagnostic : s.stage = .diagnosticAck → s.accumulatedFrames = []

structure Inv (s : FlashPageSync) : Prop where
  files : s.FilesOk
  batch : s.Going → s.BatchOk

/-- A batch has been dealt with: what is left waiting are the frames set aside. -/
structure Settled (s : FlashPageSync) (purpose : Purpose) : Prop where
  files : s.FilesOk
  waiting : s.Waiting s.pendingFrames
  kept : ∀ e ∈ s.extracted, e.Indexed → e ∈ s.pendingFrames ∨ ∃ name, StoredIn s.files s.localSync e name
  aside : purpose ≠ .incremental → s.pendingFrames = []

theorem Waiting.nil (s : FlashPageSync) : s.Waiting [] :=
  ⟨.nil, fun _ none => absurd none List.not_mem_nil, fun _ none => absurd none List.not_mem_nil⟩

theorem Settled.quiet {purpose : Purpose} (settled : s.Settled purpose) (alone : s.pendingFrames = []) :
    ∀ e ∈ s.extracted, e.Indexed → ∃ name, StoredIn s.files s.localSync e name := by
  intro e member indexed
  rcases settled.kept e member indexed with waiting | stored
  · rw [alone] at waiting
    exact absurd waiting List.not_mem_nil
  · exact stored

theorem Settled.nextBatch {purpose : Purpose} (settled : s.Settled purpose) (now : Int) : (s.nextBatch now).Inv := by
  have same : (s.nextBatch now).unwritten ++ (s.nextBatch now).pendingFrames = s.pendingFrames := List.append_nil _
  refine ⟨⟨settled.files.numbers, settled.files.inOrder, settled.files.bounded, settled.files.covered⟩, fun _ => ?_⟩
  refine ⟨?_, fun e member indexed => ?_, fun _ _ _ other => (nomatch other), fun _ => rfl, fun other => (nomatch other)⟩
  · rw [same]
    exact ⟨settled.waiting.ordered, settled.waiting.bounded, settled.waiting.fresh⟩
  · rw [same]
    exact (settled.kept e member indexed).imp_right .inr

/-- A stage at which the batch counts as written and nothing is set aside. -/
theorem Settled.at_stage {purpose : Purpose} (settled : s.Settled purpose) (alone : s.pendingFrames = [])
    {stage : Stage} (last : stage = .savedAck .final ∨ stage = .cancelAck ∨ stage = .cleanupAck ∨
      ∃ completed, stage = .returned completed) : ({ s with stage := stage } : FlashPageSync).Inv := by
  have none : ({ s with stage := stage } : FlashPageSync).unwritten = [] := by
    rcases last with rfl | rfl | rfl | ⟨completed, rfl⟩ <;> rfl
  refine ⟨⟨settled.files.numbers, settled.files.inOrder, settled.files.bounded, settled.files.covered⟩, fun _ => ?_⟩
  refine ⟨?_, fun e member indexed => .inr (.inr (settled.quiet alone e member indexed)), ?_, fun _ => alone, ?_⟩
  · rw [none, List.nil_append]
    exact ⟨settled.waiting.ordered, settled.waiting.bounded, settled.waiting.fresh⟩
  · intro purpose name ts here
    rcases last with rfl | rfl | rfl | ⟨completed, rfl⟩ <;> cases here
  · intro here
    rcases last with rfl | rfl | rfl | ⟨completed, rfl⟩ <;> cases here

theorem Settled.cleanup {purpose : Purpose} (settled : s.Settled purpose) (alone : s.pendingFrames = []) :
    s.cleanup.Inv := by
  refine settled.at_stage alone ?_
  split
  · exact .inr (.inr (.inl rfl))
  · exact .inr (.inr (.inr ⟨false, rfl⟩))

theorem Settled.cancelled {purpose : Purpose} (settled : s.Settled purpose) (alone : s.pendingFrames = []) :
    s.cancelled.Inv := by
  have cleared : ({ s with accumulatedFrames := [] } : FlashPageSync).Settled purpose :=
    ⟨⟨settled.files.numbers, settled.files.inOrder, settled.files.bounded, settled.files.covered⟩,
      ⟨settled.waiting.ordered, settled.waiting.bounded, settled.waiting.fresh⟩, settled.kept, settled.aside⟩
  refine cleared.at_stage alone ?_
  split
  · exact .inr (.inl rfl)
  · exact .inr (.inr (.inr ⟨false, rfl⟩))

theorem Settled.afterSave {purpose : Purpose} (settled : s.Settled purpose) (saved : Bool) (now : Int) :
    (s.afterSave purpose saved now).Inv := by
  unfold FlashPageSync.afterSave
  cases purpose with
  | incremental =>
      simp only
      split
      · refine ⟨⟨settled.files.numbers, settled.files.inOrder, settled.files.bounded, settled.files.covered⟩, fun _ => ?_⟩
        exact ⟨⟨settled.waiting.ordered, settled.waiting.bounded, settled.waiting.fresh⟩,
          fun e member indexed => (settled.kept e member indexed).imp_right .inr, fun _ _ _ other => (nomatch other),
          fun other => absurd (.inr (.inr rfl)) other, fun other => (nomatch other)⟩
      · exact settled.nextBatch now
  | cancel => exact settled.cancelled (settled.aside (by decide))
  | final =>
      have alone := settled.aside (by decide)
      simp only
      split
      · exact settled.at_stage alone (.inl rfl)
      · exact settled.cleanup alone

/-! ## Acknowledgements -/

theorem BatchOk.settled {purpose : Purpose} (files : s.FilesOk) (batch : s.BatchOk) (written : s.unwritten = [])
    (unregistered : ¬s.Registering) (aside : purpose ≠ .incremental → ¬s.SettingAside) : s.Settled purpose := by
  have waiting := batch.waiting
  rw [written, List.nil_append] at waiting
  refine ⟨files, waiting, fun e member indexed => ?_, fun other => batch.aside (aside other)⟩
  have kept := batch.kept e member indexed
  rw [written, List.nil_append] at kept
  rcases kept with pending | ⟨registering, -⟩ | stored
  · exact .inl pending
  · exact absurd registering unregistered
  · exact .inr stored

theorem Settled.logAck {purpose : Purpose} (settled : s.Settled purpose) (upToIndex : Int)
    (aside : ∀ e ∈ s.pendingFrames, ¬e.Indexed) : (s.logAck upToIndex).Settled purpose := by
  refine ⟨⟨settled.files.numbers, settled.files.inOrder, settled.files.bounded, fun a member => ?_⟩,
    ⟨settled.waiting.ordered, settled.waiting.bounded, settled.waiting.fresh⟩, settled.kept, settled.aside⟩
  rcases List.mem_append.mp member with earlier | this
  · exact settled.files.covered a earlier
  · obtain rfl := List.mem_singleton.mp this
    refine ⟨settled.files.numbers, fun e extracted i page _ => ?_, settled.files.inOrder⟩
    have indexed : e.Indexed := by rw [Extracted.Indexed, page, Option.isSome_some]
    rcases settled.kept e extracted indexed with pending | stored
    · exact absurd indexed (aside e pending)
    · exact stored

theorem not_settingAside {stage : Stage} (here : s.stage = stage)
    (other : stage = .diagnosticAck ∨ stage = .savedAck .final ∨ stage = .cancelAck ∨ stage = .cleanupAck ∨
      stage = .extract ∨ stage = .check) : ¬s.SettingAside := by
  rintro (saving | ⟨name, ts, registering⟩ | saved)
  · rw [here] at saving
    subst saving
    simp at other
  · rw [here] at registering
    subst registering
    simp at other
  · rw [here] at saved
    subst saved
    simp at other

theorem not_registering {stage : Stage} (here : s.stage = stage)
    (other : ∀ purpose name ts, stage ≠ .register purpose name ts) : ¬s.Registering := by
  rintro ⟨purpose, name, ts, file, registering, -⟩
  exact other purpose name ts (here.symm.trans registering)

theorem Inv.acknowledge (inv : s.Inv) {upToIndex : Int} {sent : Bool} {now : Int}
    (steady : s.stage = .savedAck .incremental → ∀ e ∈ s.pendingFrames, ¬e.Indexed)
    (done : s.acknowledge upToIndex sent now = some t) : t.Inv := by
  unfold FlashPageSync.acknowledge at done
  have quiet : ∀ {purpose : Purpose}, s.Settled purpose → s.pendingFrames = [] →
      (s.logAck upToIndex).Settled purpose := fun settled alone =>
    settled.logAck upToIndex (by rw [alone]; exact fun _ none => absurd none List.not_mem_nil)
  simp only at done
  split at done
  · rename_i here
    cases done
    have here : s.stage = .diagnosticAck := here
    have batch := inv.batch fun _ other => (nomatch here.symm.trans other)
    have empty := batch.diagnostic here
    have aside := not_settingAside here (.inl rfl)
    have written : s.unwritten = [] := by rw [unwritten, here]; exact empty
    have settled : s.Settled .final := batch.settled inv.files written (not_registering here (by simp)) fun _ => aside
    have alone := batch.aside aside
    have logged := quiet settled alone
    refine ⟨⟨logged.files.numbers, logged.files.inOrder, logged.files.bounded, logged.files.covered⟩, fun _ => ?_⟩
    refine ⟨?_, fun e member indexed => .inr (.inr (logged.quiet alone e member indexed)), fun _ _ _ other => (nomatch other),
      fun _ => alone, fun other => (nomatch other)⟩
    change Waiting _ (s.accumulatedFrames ++ s.pendingFrames)
    rw [empty, alone]
    exact Waiting.nil _
  · rename_i here
    cases done
    have here : s.stage = .savedAck .incremental := here
    have batch := inv.batch fun _ other => (nomatch here.symm.trans other)
    have settled : s.Settled .incremental :=
      batch.settled inv.files (by rw [unwritten, here]) (not_registering here (by simp)) fun other => absurd rfl other
    exact (settled.logAck upToIndex (steady here)).nextBatch now
  · rename_i here
    cases done
    have here : s.stage = .savedAck .final := here
    have batch := inv.batch fun _ other => (nomatch here.symm.trans other)
    have aside := not_settingAside here (.inr (.inl rfl))
    have settled : s.Settled .final :=
      batch.settled inv.files (by rw [unwritten, here]) (not_registering here (by simp)) fun _ => aside
    exact (quiet settled (batch.aside aside)).cleanup (batch.aside aside)
  · rename_i here
    cases done
    have here : s.stage = .cancelAck := here
    have batch := inv.batch fun _ other => (nomatch here.symm.trans other)
    have aside := not_settingAside here (.inr (.inr (.inl rfl)))
    have settled : s.Settled .final :=
      batch.settled inv.files (by rw [unwritten, here]) (not_registering here (by simp)) fun _ => aside
    have returned := (quiet settled (batch.aside aside)).at_stage (batch.aside aside) (.inr (.inr (.inr ⟨false, rfl⟩)))
    exact ⟨⟨returned.files.numbers, returned.files.inOrder, returned.files.bounded, returned.files.covered⟩,
      fun going => absurd rfl (going false)⟩
  · rename_i here
    have here : s.stage = .cleanupAck := here
    have batch := inv.batch fun _ other => (nomatch here.symm.trans other)
    have aside := not_settingAside here (.inr (.inr (.inr (.inl rfl))))
    have settled : s.Settled .final :=
      batch.settled inv.files (by rw [unwritten, here]) (not_registering here (by simp)) fun _ => aside
    have logged := quiet settled (batch.aside aside)
    split at done
    · cases done
      exact logged.at_stage (batch.aside aside) (.inr (.inr (.inr ⟨true, rfl⟩)))
    · cases done
      exact ⟨⟨logged.files.numbers, logged.files.inOrder, logged.files.bounded, logged.files.covered⟩,
        fun going => absurd rfl (going false)⟩
  · cases done

/-! ## Saves -/

/-- What writing the first frames of the batch to a file keeps. -/
structure Wrote (s : FlashPageSync) (name : String) (file : StoredFile) : Prop where
  files : ({ s with files := Dict.put s.files name file } : FlashPageSync).FilesOk
  waiting : ({ s with files := Dict.put s.files name file } : FlashPageSync).Waiting s.pendingFrames
  stored : ∀ e : Extracted, e.Indexed → ∀ wals name', StoredIn s.files wals e name' →
    StoredIn (Dict.put s.files name file) wals e name'

theorem wrote {name : String} (kept : Nat) (closed : Bool) (files : s.FilesOk)
    (waiting : s.Waiting (s.accumulatedFrames ++ s.pendingFrames))
    (free : ∀ file, Dict.get s.files name = some file → ∀ e ∈ file.held, ¬e.Indexed) :
    s.Wrote name ⟨(s.accumulatedFrames.take kept).map Extracted.bytes, s.accumulatedFrames.take kept, closed⟩ := by
  have old : ∀ {name' file'}, name' ≠ name → Dict.get (Dict.put s.files name
      ⟨(s.accumulatedFrames.take kept).map Extracted.bytes, s.accumulatedFrames.take kept, closed⟩) name' = some file' →
      Dict.get s.files name' = some file' := fun other found => by rwa [Dict.get_put_other _ other] at found
  have ordered := waiting.ordered
  rw [List.map_append, List.pairwise_append] at ordered
  have part : ∀ e ∈ s.accumulatedFrames.take kept, e ∈ s.accumulatedFrames := fun e => List.mem_of_mem_take
  constructor
  · refine ⟨files.numbers, ⟨fun name' file' found => ?_, fun name' file' found full => ?_, ?_⟩, fun name' file' found => ?_,
      files.covered⟩
    · by_cases same : name' = name
      · subst same
        rw [Dict.get_put_self] at found
        cases found
        exact ordered.1.sublist ((List.take_sublist _ _).map _)
      · exact files.inOrder.ordered name' file' (old same found)
    · by_cases same : name' = name
      · subst same
        rw [Dict.get_put_self] at found
        cases found
        rfl
      · exact files.inOrder.content name' file' (old same found) full
    · have apart : ∀ {e name' file'}, name' ≠ name → Dict.get s.files name' = some file' → e ∈ file'.held →
          e ∉ s.accumulatedFrames.take kept := fun other found member new =>
        waiting.fresh _ (List.mem_append_left _ (part _ new)) _ _ found member
      intro e name₁ name₂ file₁ file₂ first second member₁ member₂
      by_cases same₁ : name₁ = name
      · by_cases same₂ : name₂ = name
        · rw [same₁, same₂]
        · subst same₁
          rw [Dict.get_put_self] at first
          cases first
          exact absurd member₁ (apart same₂ (old same₂ second) member₂)
      · by_cases same₂ : name₂ = name
        · subst same₂
          rw [Dict.get_put_self] at second
          cases second
          exact absurd member₂ (apart same₁ (old same₁ first) member₁)
        · exact files.inOrder.once e name₁ name₂ file₁ file₂ (old same₁ first) (old same₂ second) member₁ member₂
    · by_cases same : name' = name
      · subst same
        rw [Dict.get_put_self] at found
        cases found
        exact fun e member => waiting.bounded e (List.mem_append_left _ (part e member))
      · exact files.bounded name' file' (old same found)
  · refine ⟨ordered.2.1, fun e member => waiting.bounded e (List.mem_append_right _ member), fun e member name' file' found => ?_⟩
    by_cases same : name' = name
    · subst same
      rw [Dict.get_put_self] at found
      cases found
      intro new
      exact absurd (ordered.2.2 _ (List.mem_map_of_mem (part e new)) _ (List.mem_map_of_mem member)) (lt_irrefl _)
    · exact waiting.fresh e (List.mem_append_right _ member) name' file' (old same found)
  · rintro e indexed wals name' ⟨file', found, shut, member, registered⟩
    have other : name' ≠ name := by
      rintro rfl
      exact free file' found e member indexed
    exact ⟨file', by rw [Dict.get_put_other _ other]; exact found, shut, member, registered⟩

theorem Inv.writeBatch (inv : s.Inv) {purpose : Purpose} (here : s.stage = .save purpose) {microseconds : Nat} {now : Int}
    {written : Written} (steady : (Action.write microseconds now written).Steady s) :
    (s.writeBatch purpose microseconds now written).Inv := by
  have batch := inv.batch fun _ other => (nomatch here.symm.trans other)
  have unwritten : s.unwritten = s.accumulatedFrames := by rw [FlashPageSync.unwritten, here]
  have waiting := batch.waiting
  rw [unwritten] at waiting
  have aside : purpose ≠ .incremental → s.pendingFrames = [] := by
    intro other
    refine batch.aside ?_
    rintro (saving | ⟨name, ts, registering⟩ | saved)
    · exact other (Stage.save.inj (here.symm.trans saving))
    · exact absurd (here.symm.trans registering) (by simp)
    · exact absurd (here.symm.trans saved) (by simp)
  have kept : ∀ e ∈ s.extracted, e.Indexed →
      e ∈ s.accumulatedFrames ++ s.pendingFrames ∨ ∃ name, StoredIn s.files s.localSync e name := by
    intro e member indexed
    have kept := batch.kept e member indexed
    rw [unwritten] at kept
    rcases kept with inBatch | ⟨registering, -⟩ | stored
    · exact .inl inBatch
    · exact absurd registering (not_registering here (by simp))
    · exact .inr stored
  -- A save that fails loses no frame of a flash page.
  have lost : written ≠ .closed → ∀ e ∈ s.extracted, e.Indexed →
      e ∈ s.pendingFrames ∨ ∃ name, StoredIn s.files s.localSync e name := by
    intro failed e member indexed
    rcases kept e member indexed with inBatch | stored
    · rcases List.mem_append.mp inBatch with accumulated | pending
      · exact absurd (steady.1 ⟨e, accumulated, indexed⟩) failed
      · exact .inl pending
    · exact .inr stored
  unfold FlashPageSync.writeBatch
  cases written with
  | unopened =>
      have pending : s.Waiting s.pendingFrames := by
        have ordered := waiting.ordered
        rw [List.map_append, List.pairwise_append] at ordered
        exact ⟨ordered.2.1, fun e member => waiting.bounded e (List.mem_append_right _ member),
          fun e member => waiting.fresh e (List.mem_append_right _ member)⟩
      have settled : s.Settled purpose := ⟨inv.files, pending, lost (by simp), aside⟩
      exact settled.afterSave false now
  | torn frames =>
      have wrote := wrote frames false inv.files waiting steady.2
      have settled : ({ s with
          files := Dict.put s.files (fileName microseconds (s.batchMinTimestamp.getD now))
            ⟨(s.accumulatedFrames.take frames).map Extracted.bytes, s.accumulatedFrames.take frames, false⟩ } :
              FlashPageSync).Settled purpose := by
        refine ⟨wrote.files, wrote.waiting, fun e member indexed => ?_, aside⟩
        rcases lost (by simp) e member indexed with pending | ⟨name, stored⟩
        · exact .inl pending
        · exact .inr ⟨name, wrote.stored e indexed _ name stored⟩
      exact settled.afterSave false now
  | closed =>
      have wrote := wrote s.accumulatedFrames.length true inv.files waiting steady.2
      rw [List.take_length] at wrote
      have registering : ({ s with
          files := Dict.put s.files (fileName microseconds (s.batchMinTimestamp.getD now))
            ⟨s.accumulatedFrames.map Extracted.bytes, s.accumulatedFrames, true⟩
          stage := .register purpose (fileName microseconds (s.batchMinTimestamp.getD now)) (s.batchMinTimestamp.getD now) } :
            FlashPageSync).Registering := ⟨purpose, _, _, _, rfl, Dict.get_put_self _ _ _, rfl, rfl⟩
      refine ⟨⟨wrote.files.numbers, wrote.files.inOrder, wrote.files.bounded, wrote.files.covered⟩, fun _ => ?_⟩
      refine ⟨⟨wrote.waiting.ordered, wrote.waiting.bounded, wrote.waiting.fresh⟩, fun e member indexed => ?_,
        fun _ _ _ _ => registering, fun other => ?_, fun other => (nomatch other)⟩
      · rcases kept e member indexed with inBatch | ⟨name, stored⟩
        · rcases List.mem_append.mp inBatch with accumulated | pending
          · exact .inr (.inl ⟨registering, accumulated⟩)
          · exact .inl pending
        · exact .inr (.inr ⟨name, wrote.stored e indexed _ name stored⟩)
      · by_cases incremental : purpose = .incremental
        · subst incremental
          exact absurd (.inr (.inl ⟨_, _, rfl⟩)) other
        · exact aside incremental

theorem StoredIn.registered {files : List (String × StoredFile)} {wals : List Phone.Wal} {e : Extracted} {name : String}
    (stored : StoredIn files (some wals) e name) (session : SessionLocation) (wal : Phone.Wal) :
    StoredIn files (some (addExternalWal session wals wal)) e name := by
  obtain ⟨file, found, closed, member, list, same, w, listed, path⟩ := stored
  cases same
  exact ⟨file, found, closed, member, _, rfl, w, Phone.mem_addExternalWal listed, path⟩

theorem Inv.registerChunk (inv : s.Inv) {purpose : Purpose} {name : String} {ts : Int}
    (here : s.stage = .register purpose name ts) {listSaved : Bool} {now : Int}
    (steady : (Action.register listSaved now).Steady s) : (s.registerChunk purpose name ts listSaved now).Inv := by
  have batch := inv.batch fun _ other => (nomatch here.symm.trans other)
  have unwritten : s.unwritten = [] := by rw [FlashPageSync.unwritten, here]
  have waiting := batch.waiting
  rw [unwritten, List.nil_append] at waiting
  have steady : ∀ e ∈ s.accumulatedFrames, e.Indexed → ∃ wals, s.localSync = some wals ∧
      ∀ w ∈ wals, w.id ≠ (s.chunkWal name ts s.accumulatedFrames.length).id := by
    intro e member indexed
    have registrable := steady ⟨e, member, indexed⟩
    rw [here] at registrable
    exact registrable
  have aside : purpose ≠ .incremental → s.pendingFrames = [] := by
    intro other
    refine batch.aside ?_
    rintro (saving | ⟨name', ts', registering⟩ | saved)
    · exact absurd (here.symm.trans saving) (by simp)
    · exact other (Stage.register.inj (here.symm.trans registering)).1
    · exact absurd (here.symm.trans saved) (by simp)
  obtain ⟨purpose', name', ts', file, here', found, closed, held⟩ := batch.registering purpose name ts here
  obtain ⟨rfl, rfl, rfl⟩ := Stage.register.inj (here.symm.trans here')
  have kept : ∀ e ∈ s.extracted, e.Indexed →
      e ∈ s.pendingFrames ∨ e ∈ s.accumulatedFrames ∨ ∃ name, StoredIn s.files s.localSync e name := by
    intro e member indexed
    have kept := batch.kept e member indexed
    rw [unwritten, List.nil_append] at kept
    exact kept.imp_right fun rest => rest.imp_left And.right
  unfold FlashPageSync.registerChunk
  split
  · rename_i absent
    refine Settled.afterSave ⟨inv.files, waiting, fun e member indexed => ?_, aside⟩ true now
    rcases kept e member indexed with pending | accumulated | stored
    · exact .inl pending
    · obtain ⟨wals, present, -⟩ := steady e accumulated indexed
      exact absurd (absent.symm.trans present) (by simp)
    · exact .inr stored
  · rename_i wals present
    have settled : ({ s with
        localSync := some (addExternalWal s.sessionLocation wals (s.chunkWal name ts s.accumulatedFrames.length)) } :
          FlashPageSync).Settled purpose := by
      refine ⟨⟨inv.files.numbers, inv.files.inOrder, inv.files.bounded, inv.files.covered⟩,
        ⟨waiting.ordered, waiting.bounded, waiting.fresh⟩, fun e member indexed => ?_, aside⟩
      rcases kept e member indexed with pending | accumulated | ⟨name, stored⟩
      · exact .inl pending
      · obtain ⟨wals', present', new⟩ := steady e accumulated indexed
        cases present.symm.trans present'
        obtain ⟨w, listed, path⟩ := Phone.added_addExternalWal s.sessionLocation new
        exact .inr ⟨_, file, found, closed, by rw [held]; exact accumulated, _, rfl, w, listed, path⟩
      · rw [present] at stored
        exact .inr ⟨name, StoredIn.registered stored _ _⟩
    exact settled.afterSave _ now

/-! ## Passes -/

/-- A pass up to where it branches: what has been extracted is in the batch, set aside or stored. -/
structure Taken (s : FlashPageSync) (gap : Bool) : Prop where
  files : s.FilesOk
  waiting : s.Waiting (s.accumulatedFrames ++ s.pendingFrames)
  kept : ∀ e ∈ s.extracted, e.Indexed →
    e ∈ s.accumulatedFrames ++ s.pendingFrames ∨ ∃ name, StoredIn s.files s.localSync e name
  aside : gap = false → s.pendingFrames = []
  full : gap = true → s.accumulatedFrames ≠ []

/-- A stage of the pass at which the batch is not written yet. -/
theorem Taken.at_stage {gap : Bool} (taken : s.Taken gap) {stage : Stage}
    (here : stage = .extract ∨ stage = .check ∨ stage = .diagnosticAck ∨ ∃ purpose, stage = .save purpose)
    (alone : s.pendingFrames = [] ∨ stage = .save .incremental) (diagnostic : stage = .diagnosticAck → s.accumulatedFrames = []) :
    ({ s with stage := stage } : FlashPageSync).Inv := by
  have unwritten : ({ s with stage := stage } : FlashPageSync).unwritten = s.accumulatedFrames := by
    rcases here with rfl | rfl | rfl | ⟨purpose, rfl⟩ <;> rfl
  refine ⟨⟨taken.files.numbers, taken.files.inOrder, taken.files.bounded, taken.files.covered⟩, fun _ => ?_⟩
  refine ⟨?_, fun e member indexed => ?_, fun purpose name ts other => ?_, fun other => ?_, diagnostic⟩
  · rw [unwritten]
    exact ⟨taken.waiting.ordered, taken.waiting.bounded, taken.waiting.fresh⟩
  · rw [unwritten]
    exact (taken.kept e member indexed).imp_right .inr
  · rcases here with rfl | rfl | rfl | ⟨purpose, rfl⟩ <;> cases other
  · rcases alone with empty | rfl
    · exact empty
    · exact absurd (.inl rfl) other

theorem Taken.branch {gap : Bool} (taken : s.Taken gap) (received : Bool) (persistNow diagnosticNow : Int) :
    (s.branch received gap persistNow diagnosticNow).Inv := by
  unfold FlashPageSync.branch
  simp only
  split
  · rename_i diagnostic
    have calm : gap = false := by
      cases gap with
      | false => rfl
      | true => exact absurd diagnostic.2.1 (by simp)
    refine taken.at_stage (.inr (.inr (.inl rfl))) (.inl (taken.aside calm)) fun _ => ?_
    exact List.isEmpty_iff.mp diagnostic.2.2.1
  · split
    · exact taken.at_stage (.inr (.inr (.inr ⟨_, rfl⟩))) (.inr rfl) fun other => (nomatch other)
    · rename_i rest
      have calm : gap = false := by
        cases gap with
        | false => rfl
        | true => exact absurd ⟨by simp, by simpa using taken.full rfl⟩ rest
      exact taken.at_stage (.inr (.inl rfl)) (.inl (taken.aside calm)) fun other => (nomatch other)

theorem BatchOk.taken (files : s.FilesOk) (batch : s.BatchOk) (here : s.stage = .extract ∨ s.stage = .check) :
    s.Taken false := by
  have unwritten : s.unwritten = s.accumulatedFrames := by
    rcases here with here | here <;> rw [FlashPageSync.unwritten, here]
  have waiting := batch.waiting
  rw [unwritten] at waiting
  refine ⟨files, waiting, fun e member indexed => ?_, fun _ => ?_, fun other => (nomatch other)⟩
  · have kept := batch.kept e member indexed
    rw [unwritten] at kept
    rcases kept with inBatch | ⟨registering, -⟩ | stored
    · exact .inl inBatch
    · rcases here with here | here <;> exact absurd registering (not_registering here (by simp))
    · exact .inr stored
  · rcases here with here | here
    · exact batch.aside (not_settingAside here (by simp))
    · exact batch.aside (not_settingAside here (by simp))

theorem numbers_numbered (start : Nat) (frames : List (Option Int × Bytes)) :
    (numbered start frames).map Extracted.number = List.range' start frames.length := by
  unfold numbered
  rw [List.map_map]
  apply List.ext_getElem
  · simp
  · intro i inside inside'
    simp

/-- An extraction numbers its frames on. -/
theorem FilesOk.extracted (files : s.FilesOk) (frames : List (Option Int × Bytes)) :
    ({ s with extracted := s.extracted ++ numbered s.extracted.length frames } : FlashPageSync).FilesOk := by
  have length : (numbered s.extracted.length frames).length = frames.length := by
    rw [← List.length_map (f := Extracted.number), numbers_numbered, List.length_range']
  refine ⟨?_, files.inOrder, fun name file found e member => ?_, files.covered⟩
  · rw [List.map_append, List.length_append, files.numbers, numbers_numbered, length, List.range_eq_range',
      List.range_eq_range', ← List.range'_append_1, Nat.zero_add]
  · exact Nat.lt_of_lt_of_le (files.bounded name file found e member) (by rw [List.length_append]; exact Nat.le_add_right _ _)

theorem mem_numbered {start : Nat} {frames : List (Option Int × Bytes)} {e : Extracted} (member : e ∈ numbered start frames) :
    start ≤ e.number ∧ e.number < start + frames.length := by
  have numbers : e.number ∈ List.range' start frames.length := by
    rw [← numbers_numbered]
    exact List.mem_map_of_mem member
  exact List.mem_range'_1.mp numbers

/-- New frames wait behind the old ones. -/
theorem Waiting.extracted {frames : List Extracted} (files : s.FilesOk) (waiting : s.Waiting frames)
    (new : List (Option Int × Bytes)) :
    ({ s with extracted := s.extracted ++ numbered s.extracted.length new } : FlashPageSync).Waiting
      (frames ++ numbered s.extracted.length new) := by
  refine ⟨?_, fun e member => ?_, fun e member name file found => ?_⟩
  · rw [List.map_append, List.pairwise_append, numbers_numbered]
    refine ⟨waiting.ordered, List.pairwise_lt_range', ?_⟩
    intro a first b second
    obtain ⟨e, member, rfl⟩ := List.mem_map.mp first
    exact Nat.lt_of_lt_of_le (waiting.bounded e member) (List.mem_range'_1.mp second).1
  · have total : (s.extracted ++ numbered s.extracted.length new).length = s.extracted.length + new.length := by
      rw [List.length_append, ← @List.length_map _ _ (numbered _ _) Extracted.number, numbers_numbered, List.length_range']
    change e.number < (s.extracted ++ numbered s.extracted.length new).length
    rw [total]
    rcases List.mem_append.mp member with old | fresh
    · exact Nat.lt_of_lt_of_le (waiting.bounded e old) (Nat.le_add_right _ _)
    · exact (mem_numbered fresh).2
  · rcases List.mem_append.mp member with old | fresh
    · exact waiting.fresh e old name file found
    · intro held
      exact absurd (files.bounded name file found e held) (Nat.not_lt.mpr (mem_numbered fresh).1)

theorem sessionGap_full {timestampMs : Int} (gap : s.sessionGap timestampMs = true) : s.accumulatedFrames ≠ [] := by
  unfold sessionGap at gap
  split at gap
  · rintro empty
    rw [empty] at gap
    cases gap
  · cases gap

/-- The new frames join the batch or are set aside. -/
theorem takeFrames_taken (data : PageData) (new : List Extracted) (alone : s.pendingFrames = []) (files : s.FilesOk)
    (waiting : s.Waiting (s.accumulatedFrames ++ new))
    (kept : ∀ e ∈ s.extracted, e.Indexed →
      e ∈ s.accumulatedFrames ++ new ∨ ∃ name, StoredIn s.files s.localSync e name) :
    (s.takeFrames data new).2.Taken (s.takeFrames data new).1 := by
  unfold takeFrames
  split
  · rename_i none
    rw [List.isEmpty_iff.mp none] at waiting kept
    rw [← alone] at waiting kept
    exact ⟨files, waiting, kept, fun _ => alone, fun other => (nomatch other)⟩
  · split
    · rename_i gap
      exact ⟨⟨files.numbers, files.inOrder, files.bounded, files.covered⟩,
        ⟨waiting.ordered, waiting.bounded, waiting.fresh⟩, kept, fun other => (nomatch other), fun _ => sessionGap_full gap⟩
    · have joined : s.accumulatedFrames ++ new ++ s.pendingFrames = s.accumulatedFrames ++ new := by
        rw [alone, List.append_nil]
      refine ⟨⟨files.numbers, files.inOrder, files.bounded, files.covered⟩, ?_, fun e member indexed => ?_, fun _ => alone,
        fun other => (nomatch other)⟩
      · rw [joined]
        exact ⟨waiting.ordered, waiting.bounded, waiting.fresh⟩
      · rw [joined]
        exact kept e member indexed

theorem Inv.extract (inv : s.Inv) (here : s.stage = .extract) (raw : List Bytes × Int) (now persistNow diagnosticNow : Int) :
    (s.extract raw now persistNow diagnosticNow).Inv := by
  have batch := inv.batch fun _ other => (nomatch here.symm.trans other)
  have taken := batch.taken inv.files (.inl here)
  have alone := taken.aside rfl
  have waiting := taken.waiting
  rw [alone, List.append_nil] at waiting
  unfold FlashPageSync.extract
  split
  · have idle : ({ s with emptyExtractions := s.emptyExtractions + 1 } : FlashPageSync).Taken false :=
      ⟨⟨taken.files.numbers, taken.files.inOrder, taken.files.bounded, taken.files.covered⟩,
        ⟨taken.waiting.ordered, taken.waiting.bounded, taken.waiting.fresh⟩, taken.kept, taken.aside, taken.full⟩
    exact idle.branch false persistNow diagnosticNow
  · rename_i data _
    have files := inv.files.extracted data.opusFrames
    have waiting := waiting.extracted inv.files data.opusFrames
    have kept : ∀ e ∈ s.extracted ++ numbered s.extracted.length data.opusFrames, e.Indexed →
        e ∈ s.accumulatedFrames ++ numbered s.extracted.length data.opusFrames ∨
          ∃ name, StoredIn s.files s.localSync e name := by
      intro e member indexed
      rcases List.mem_append.mp member with old | new
      · rcases taken.kept e old indexed with inBatch | stored
        · rw [alone, List.append_nil] at inBatch
          exact .inl (List.mem_append_left _ inBatch)
        · exact .inr stored
      · exact .inl (List.mem_append_right _ new)
    have taken' : Taken _ _ := takeFrames_taken (s := s.received data (numbered s.extracted.length data.opusFrames)) data
      (numbered s.extracted.length data.opusFrames) alone ⟨files.numbers, files.inOrder, files.bounded, files.covered⟩
      ⟨waiting.ordered, waiting.bounded, waiting.fresh⟩ kept
    exact taken'.branch true persistNow diagnosticNow

theorem Inv.check (inv : s.Inv) (here : s.stage = .check) : s.check.Inv := by
  have batch := inv.batch fun _ other => (nomatch here.symm.trans other)
  have before := batch.taken inv.files (.inr here)
  unfold FlashPageSync.check
  generalize complete : (s.lastProcessedIndex.any (fun last => decide (s.endPage ≤ last)) ||
    decide (maxEmptyExtractions ≤ s.emptyExtractions)) = syncComplete
  have taken : ({ s with syncComplete := syncComplete } : FlashPageSync).Taken false :=
    ⟨⟨before.files.numbers, before.files.inOrder, before.files.bounded, before.files.covered⟩,
      ⟨before.waiting.ordered, before.waiting.bounded, before.waiting.fresh⟩, before.kept, before.aside, before.full⟩
  have alone := taken.aside rfl
  have settled : s.accumulatedFrames = [] → ({ s with syncComplete := syncComplete } : FlashPageSync).Settled .final := by
    intro empty
    have joined : s.accumulatedFrames ++ s.pendingFrames = s.pendingFrames := by rw [empty, List.nil_append]
    refine ⟨taken.files, ?_, fun e member indexed => ?_, fun _ => alone⟩
    · have waiting : Waiting _ (s.accumulatedFrames ++ s.pendingFrames) := taken.waiting
      rwa [joined] at waiting
    · have kept : e ∈ s.accumulatedFrames ++ s.pendingFrames ∨ ∃ name, StoredIn s.files s.localSync e name :=
        taken.kept e member indexed
      rwa [joined] at kept
  simp only
  split
  · split
    · rename_i empty
      exact (settled (List.isEmpty_iff.mp empty)).cancelled alone
    · exact taken.at_stage (.inr (.inr (.inr ⟨_, rfl⟩))) (.inl alone) fun other => (nomatch other)
  · split
    · split
      · rename_i empty
        exact (settled (List.isEmpty_iff.mp empty)).cleanup alone
      · exact taken.at_stage (.inr (.inr (.inr ⟨_, rfl⟩))) (.inl alone) fun other => (nomatch other)
    · exact taken.at_stage (.inl rfl) (.inl alone) fun other => (nomatch other)

/-- Other tasks touch neither the batch nor the files; they may add entries to the list of recordings. -/
theorem Inv.other (inv : s.Inv) (files : t.files = s.files) (extracted : t.extracted = s.extracted) (acks : t.acks = s.acks)
    (stage : t.stage = s.stage) (accumulated : t.accumulatedFrames = s.accumulatedFrames)
    (pending : t.pendingFrames = s.pendingFrames)
    (stored : ∀ e name, StoredIn s.files s.localSync e name → StoredIn s.files t.localSync e name) : t.Inv := by
  have unwritten : t.unwritten = s.unwritten := by
    unfold FlashPageSync.unwritten
    rw [stage, accumulated]
  refine ⟨⟨?_, ?_, ?_, ?_⟩, fun going => ?_⟩
  · rw [extracted]
    exact inv.files.numbers
  · rw [files]
    exact inv.files.inOrder
  · rw [files, extracted]
    exact inv.files.bounded
  · rw [acks]
    exact inv.files.covered
  · have batch := inv.batch (by rwa [Going, ← stage])
    have registering : s.Registering → t.Registering := by
      rintro ⟨purpose, name, ts, file, here, found, closed, held⟩
      exact ⟨purpose, name, ts, file, stage.trans here, by rwa [files], closed, by rwa [accumulated]⟩
    refine ⟨⟨?_, ?_, ?_⟩, fun e member indexed => ?_, fun purpose name ts here => ?_, fun other => ?_, fun here => ?_⟩
    · rw [unwritten, pending]
      exact batch.waiting.ordered
    · rw [unwritten, pending, extracted]
      exact batch.waiting.bounded
    · rw [unwritten, pending, files]
      exact batch.waiting.fresh
    · rw [extracted] at member
      rw [unwritten, pending, accumulated, files]
      rcases batch.kept e member indexed with waiting | ⟨here, inBatch⟩ | ⟨name, held⟩
      · exact .inl waiting
      · exact .inr (.inl ⟨registering here, inBatch⟩)
      · exact .inr (.inr ⟨name, stored e name held⟩)
    · exact registering (batch.registering purpose name ts (stage.symm.trans here))
    · rw [pending]
      refine batch.aside ?_
      rwa [SettingAside, stage] at other
    · rw [accumulated]
      exact batch.diagnostic (stage.symm.trans here)

theorem Inv.act (inv : s.Inv) {a : Action} (steady : a.Steady s) (done : s.act a = some t) : t.Inv := by
  cases a with
  | completePage page =>
      cases done
      exact inv.other rfl rfl rfl rfl rfl rfl fun _ _ stored => stored
  | changeMode isBatchMode =>
      cases done
      exact inv.other rfl rfl rfl rfl rfl rfl fun _ _ stored => stored
  | cancelSync =>
      cases done
      exact inv.other rfl rfl rfl rfl rfl rfl fun _ _ stored => stored
  | foreignWal wal =>
      cases done
      refine inv.other rfl rfl rfl rfl rfl rfl fun e name stored => ?_
      obtain ⟨file, found, closed, member, list, same, listed⟩ := stored
      change StoredIn s.files (s.localSync.map _) e name
      rw [same]
      exact StoredIn.registered ⟨file, found, closed, member, list, rfl, listed⟩ _ _
  | extract raw now persistNow diagnosticNow =>
      simp only [FlashPageSync.act] at done
      split at done
      · rename_i here
        cases done
        exact inv.extract here raw now persistNow diagnosticNow
      · cases done
  | write microseconds now written =>
      simp only [FlashPageSync.act] at done
      split at done
      · rename_i here
        cases done
        exact inv.writeBatch here steady
      · cases done
  | register listSaved now =>
      simp only [FlashPageSync.act] at done
      split at done
      · rename_i here
        cases done
        exact inv.registerChunk here steady
      · cases done
  | acknowledge sent now =>
      obtain ⟨last, -, done⟩ := Option.bind_eq_some_iff.mp done
      exact inv.acknowledge steady done
  | check =>
      simp only [FlashPageSync.act] at done
      split at done
      · rename_i here
        cases done
        exact inv.check here
      · cases done
  | throw =>
      cases done
      exact ⟨⟨inv.files.numbers, inv.files.inOrder, inv.files.bounded, inv.files.covered⟩, fun going => absurd rfl (going false)⟩

theorem Started.inv (started : s.Started) : s.Inv := by
  have older : ∀ name file, Dict.get s.files name = some file → ∀ e, e ∉ file.held := fun name file found e member => by
    rw [started.older name file found] at member
    exact absurd member List.not_mem_nil
  have unwritten : s.unwritten ++ s.pendingFrames = [] := by
    rw [FlashPageSync.unwritten, started.stage, started.accumulated, started.pending]
    rfl
  have none : ∀ e, e ∉ s.extracted := fun e member => by
    rw [started.extracted] at member
    exact absurd member List.not_mem_nil
  refine ⟨⟨by rw [started.extracted]; rfl, ⟨fun name file found => ?_, fun name file found full => ?_, ?_⟩, ?_, ?_⟩, fun _ => ?_⟩
  · rw [started.older name file found]
    exact .nil
  · exact absurd (started.older name file found) full
  · exact fun e name _ file _ found _ member => absurd member (older name file found e)
  · exact fun name file found e member => absurd member (older name file found e)
  · rw [started.acks]
    exact fun a member => absurd member List.not_mem_nil
  · refine ⟨by rw [unwritten]; exact Waiting.nil s, fun e member => absurd member (none e), fun purpose name ts here => ?_,
      fun _ => started.pending, fun _ => started.accumulated⟩
    exact absurd (started.stage.symm.trans here) (by simp)

/-- In every run in which each batch of a page is closed and registered and nothing of a page is set aside at an
acknowledgement, each acknowledgement covers only frames that are in one registered file, in their order. -/
theorem acknowledged_frames_stored (reached : ReachedSteady s) : ∀ a ∈ s.acks, a.Covers := by
  have inv : s.Inv := reached.invariant (fun _ => Started.inv) fun _ _ _ inv step => inv.act step.1 step.2
  exact inv.files.covered

/-! ## Frames set aside -/

def samplePage (index : Nat) : CompletedPage := ⟨[[UInt8.ofNat index]], 1700000000000 + 200000 * index, some index⟩

/-- The pendant holds pages 1 to 5, and nothing has been extracted. -/
def sampleSync : FlashPageSync :=
  { completedFlashPages := [], firstFlashPageTimestampMs := none, isBatchMode := true, device := "pendant", startPage := 1
    endPage := 5, storageOffset := 1, localSync := some [], sessionLocation := none, files := []
    cancelRequested := false, emptyExtractions := 0, lastProcessedIndex := none, accumulatedFrames := []
    batchMinTimestamp := none, lastSaveTime := 0, pendingFrames := [], pendingTimestamp := none, syncComplete := false
    stage := .extract, extracted := [], acks := [] }

theorem sampleSync_started : sampleSync.Started :=
  ⟨rfl, rfl, rfl, rfl, fun _ _ found => (nomatch found), rfl⟩

def sampleFile (index : Nat) : String × StoredFile :=
  (fileName 0 (1700000000000 + 200000 * index), ⟨[[UInt8.ofNat index]], [⟨0, some index, [UInt8.ofNat index]⟩], true⟩)

def sampleWal : Phone.Wal := sampleSync.chunkWal (sampleFile 1).1 1700000200000 1

def guarded (s : FlashPageSync) (a : Action) : Option FlashPageSync := if a.Steady s then s.act a else none

theorem reachedSteady_of_guarded {actions : List Action} (done : actions.foldlM guarded sampleSync = some s) :
    ReachedSteady s := by
  refine Reachable.actions (fun a _ s t step => ?_) (.start sampleSync_started) done
  unfold guarded at step
  split at step
  · rename_i steady
    exact ⟨steady, step⟩
  · cases step

/-- A page's batch is saved after 90 seconds, and its acknowledgement covers it. -/
theorem acknowledged_frames_stored_batch :
    ∃ s : FlashPageSync, s.acks = [⟨1, [⟨0, some 1, [1]⟩], [sampleFile 1], some [sampleWal]⟩] ∧ ∀ a ∈ s.acks, a.Covers := by
  have run : ([.completePage (samplePage 1), .extract ([], 0) 0 90000 0, .write 0 0 .closed, .register true 0,
      .acknowledge true 0].foldlM guarded sampleSync).map FlashPageSync.acks =
      some [⟨1, [⟨0, some 1, [1]⟩], [sampleFile 1], some [sampleWal]⟩] := by decide +kernel
  obtain ⟨s, done, acks⟩ := Option.map_eq_some_iff.mp run
  exact ⟨s, acks, acknowledged_frames_stored (reachedSteady_of_guarded done)⟩

/-- Pages 1 and 2 were recorded 200 seconds apart. The batch of page 1 is saved before that of page 2 is begun, and the
acknowledgement behind this save frees both. -/
theorem page_set_aside_acknowledged : ¬∀ s : FlashPageSync, Reached s → ∀ a ∈ s.acks, a.Covers := by
  have run : ([.completePage (samplePage 1), .extract ([], 0) 0 0 0, .check, .completePage (samplePage 2),
      .extract ([], 0) 0 0 0, .write 0 0 .closed, .register true 0, .acknowledge true 0].foldlM act sampleSync).map
        FlashPageSync.acks =
      some [⟨2, [⟨0, some 1, [1]⟩, ⟨1, some 2, [2]⟩], [sampleFile 1], some [sampleWal]⟩] := by decide +kernel
  obtain ⟨s, done, acks⟩ := Option.map_eq_some_iff.mp run
  intro covered
  have reached : Reached s := Reachable.actions (fun _ _ _ _ step => step) (.start sampleSync_started) done
  have covers := covered s reached _ (by rw [acks]; exact List.mem_singleton_self _)
  obtain ⟨name, file, found, -, held, -⟩ := covers.stored ⟨1, some 2, [2]⟩ (by decide) 2 rfl (by decide)
  have only : file = (sampleFile 1).2 := (Prod.mk.inj (List.mem_singleton.mp (Dict.get_eq_some found))).2
  rw [only] at held
  exact absurd held (by decide)

end FlashPageSync
end OmiLocal.Wals.Flash
