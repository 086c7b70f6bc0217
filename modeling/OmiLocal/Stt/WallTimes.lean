import Mathlib.Tactic.Linarith
import OmiLocal.Stt.VadGate

/-!
# Remapped times keep their order

The silence before a checkpoint is its wall time less its provider time. Over the
checkpoints neither the provider time nor the silence ever falls, whatever wall
times the session reports: a new checkpoint is clamped to the last one. Dropping
checkpoints leaves a part of the list in order, so compaction keeps this too, and a
remapped time is the provider time plus the silence before its checkpoint.
-/
namespace OmiLocal.Stt

open Lib.Bisect Lib.Transition

def Checkpoint.silence (c : Checkpoint) : ℚ := c.wallRelSec - c.dgSec

structure Checkpoint.Precedes (c d : Checkpoint) : Prop where
  dg : c.dgSec ≤ d.dgSec
  silence : c.silence ≤ d.silence

theorem Checkpoint.Precedes.refl (c : Checkpoint) : c.Precedes c := ⟨le_refl _, le_refl _⟩

namespace WallTimeMapper

/-- The calls of a session, with any wall times. -/
inductive Call where
  | audioSent (chunkDurationSec chunkWallRelSec : ℚ)
  | silenceSkipped

inductive Step : WallTimeMapper → Call → WallTimeMapper → Prop
  | sent {mapper : WallTimeMapper} {duration : ℚ} (wallRel : ℚ) (lasts : 0 ≤ duration) :
      Step mapper (.audioSent duration wallRel) (mapper.onAudioSent duration wallRel)
  | skipped {mapper : WallTimeMapper} : Step mapper .silenceSkipped mapper.onSilenceSkipped

def Reached : WallTimeMapper → Prop := Reachable (· = new) Step

structure Ordered (mapper : WallTimeMapper) : Prop where
  checkpoints : mapper.checkpoints.Pairwise Checkpoint.Precedes
  passed : ∀ c ∈ mapper.checkpoints, c.dgSec ≤ mapper.providerCursorSec

theorem compact_sublist (checkpoints : List Checkpoint) : (compact checkpoints).Sublist checkpoints := by
  unfold compact
  split
  · rename_i over_
    have later : (checkpoints.drop (checkpoints.length - (maxCheckpoints - 1))).Sublist (checkpoints.drop 1) :=
      List.drop_sublist_drop_left checkpoints (by unfold maxCheckpoints at *; omega)
    have joined := (List.Sublist.refl (checkpoints.take 1)).append later
    rwa [List.take_append_drop] at joined
  · exact List.Sublist.refl _

/-- The clamp keeps the silence of the last checkpoint. -/
theorem clampWall_precedes {mapper : WallTimeMapper} (ordered : mapper.Ordered) (wallRel : ℚ) {c : Checkpoint}
    (member : c ∈ mapper.checkpoints) : c.Precedes ⟨mapper.providerCursorSec, mapper.clampWall wallRel⟩ := by
  obtain ⟨front, last, split⟩ := (List.eq_nil_or_concat' mapper.checkpoints).resolve_left (List.ne_nil_of_mem member)
  have found : mapper.checkpoints.getLast? = some last := by rw [split, List.getLast?_concat]
  have before : c.silence ≤ last.silence := by
    have sorted := ordered.checkpoints
    rw [split] at sorted member
    rcases List.mem_append.mp member with old | same
    · exact ((List.pairwise_append.mp sorted).2.2 c old last (List.mem_singleton_self last)).silence
    · rw [List.mem_singleton.mp same]
  have clamped : mapper.minWall last ≤ mapper.clampWall wallRel := by
    unfold clampWall
    rw [found]
    exact le_max_right _ _
  refine ⟨ordered.passed c member, before.trans ?_⟩
  unfold Checkpoint.silence
  unfold minWall at clamped
  dsimp only
  linarith

theorem Ordered.onAudioSent {mapper : WallTimeMapper} (ordered : mapper.Ordered) {duration : ℚ} (lasts : 0 ≤ duration)
    (wallRel : ℚ) : (mapper.onAudioSent duration wallRel).Ordered := by
  have onward : mapper.providerCursorSec ≤ mapper.providerCursorSec + duration := le_add_of_nonneg_right lasts
  unfold WallTimeMapper.onAudioSent
  dsimp only
  by_cases sending : mapper.sending = true
  · rw [if_pos sending]
    exact ⟨ordered.checkpoints, fun c member => (ordered.passed c member).trans onward⟩
  · rw [if_neg sending]
    refine ⟨List.Pairwise.sublist (compact_sublist _) ?_, fun c member => ?_⟩
    · refine List.pairwise_append.mpr ⟨ordered.checkpoints, List.pairwise_singleton _ _, fun c old d new => ?_⟩
      rw [List.mem_singleton.mp new]
      exact clampWall_precedes ordered wallRel old
    · rcases List.mem_append.mp ((compact_sublist _).subset member) with old | new
      · exact (ordered.passed c old).trans onward
      · rw [List.mem_singleton.mp new]
        exact onward

theorem Ordered.step {mapper later : WallTimeMapper} {call : Call} (ordered : mapper.Ordered)
    (step : Step mapper call later) : later.Ordered := by
  cases step with
  | sent wallRel lasts => exact ordered.onAudioSent lasts wallRel
  | skipped => exact ⟨ordered.checkpoints, ordered.passed⟩

theorem Reached.ordered {mapper : WallTimeMapper} (reached : mapper.Reached) : mapper.Ordered := by
  refine reached.invariant ?_ fun s a t ordered step => ordered.step step
  rintro _ rfl
  exact ⟨List.Pairwise.nil, fun _ member => (by cases member)⟩

/-- The checkpoint that a provider time is measured from. -/
theorem dgToWallRel_checkpoint {mapper : WallTimeMapper} (some_ : mapper.checkpoints ≠ []) (t : ℚ) :
    ∃ inside : bisectRight (mapper.checkpoints.map (·.dgSec)) t - 1 < mapper.checkpoints.length,
      mapper.dgToWallRel t =
        t + (mapper.checkpoints.get ⟨bisectRight (mapper.checkpoints.map (·.dgSec)) t - 1, inside⟩).silence := by
  have positive := List.length_pos_iff.mpr some_
  have most := bisectRight_le_length (mapper.checkpoints.map (·.dgSec)) t
  rw [List.length_map] at most
  have inside : bisectRight (mapper.checkpoints.map (·.dgSec)) t - 1 < mapper.checkpoints.length := by omega
  refine ⟨inside, ?_⟩
  unfold dgToWallRel
  dsimp only
  rw [List.getElem?_eq_getElem inside]
  dsimp only
  unfold Checkpoint.silence
  rw [List.get_eq_getElem]
  ring

theorem Ordered.dgToWallRel {mapper : WallTimeMapper} (ordered : mapper.Ordered) {s t : ℚ} (le : s ≤ t) :
    t - s ≤ mapper.dgToWallRel t - mapper.dgToWallRel s := by
  by_cases none : mapper.checkpoints = []
  · unfold WallTimeMapper.dgToWallRel
    simp [none]
  · obtain ⟨insideS, mappedS⟩ := dgToWallRel_checkpoint none s
    obtain ⟨insideT, mappedT⟩ := dgToWallRel_checkpoint none t
    have index := bisectRight_mono (mapper.checkpoints.map (·.dgSec)) le
    have silence : (mapper.checkpoints.get ⟨_, insideS⟩).silence ≤ (mapper.checkpoints.get ⟨_, insideT⟩).silence := by
      rcases (Nat.sub_le_sub_right index 1).eq_or_lt with same | less
      · rw [show (⟨_, insideS⟩ : Fin mapper.checkpoints.length) = ⟨_, insideT⟩ from Fin.ext same]
      · exact (List.pairwise_iff_getElem.mp ordered.checkpoints _ _ insideS insideT less).silence
    rw [mappedS, mappedT]
    linarith

/-- Remapping never shortens the time between two provider times, however many checkpoints were dropped. -/
theorem remapping_monotone (mapper : WallTimeMapper) (reached : mapper.Reached) (s t : ℚ) (le : s ≤ t) :
    mapper.dgToWallRel s ≤ mapper.dgToWallRel t ∧ t - s ≤ mapper.dgToWallRel t - mapper.dgToWallRel s := by
  have apart := reached.ordered.dgToWallRel le
  exact ⟨sub_nonneg.mp ((sub_nonneg.mpr le).trans apart), apart⟩

/-- The second checkpoint reports an earlier wall time than the first. -/
theorem remapping_monotone_early_wall :
    (1 / 2 : ℚ) ≤ 2 ∧ ((((new.onAudioSent 1 5).onSilenceSkipped).onAudioSent 3 0).dgToWallRel (1 / 2) ≤
        (((new.onAudioSent 1 5).onSilenceSkipped).onAudioSent 3 0).dgToWallRel 2 ∧
      2 - 1 / 2 ≤ (((new.onAudioSent 1 5).onSilenceSkipped).onAudioSent 3 0).dgToWallRel 2 -
        (((new.onAudioSent 1 5).onSilenceSkipped).onAudioSent 3 0).dgToWallRel (1 / 2)) := by
  have reached : (((new.onAudioSent 1 5).onSilenceSkipped).onAudioSent 3 0).Reached :=
    .next (.next (.next (.start rfl) (.sent 5 (by decide))) .skipped) (.sent 0 (by decide))
  exact ⟨by decide +kernel, remapping_monotone _ reached (1 / 2) 2 (by decide +kernel)⟩

end WallTimeMapper

end OmiLocal.Stt
