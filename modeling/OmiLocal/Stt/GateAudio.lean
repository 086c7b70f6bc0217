import Mathlib.Algebra.Order.BigOperators.Group.List
import OmiLocal.Stt.GateTimes

/-!
# The audio of a gated session

The gate with its counters. A chunk is sent when it is received, or held in the
pre-roll until speech sets in, or dropped; the counters say how much of each. In a
pause the provider is flushed once: the flush that a pause still owes is a number
that each chunk lowers by what it emits.
-/
namespace OmiLocal.Stt

variable {α : Type}

structure Chunk (α : Type) where
  pcm : List α
  isSpeech : Bool
  wallTime : ℚ

structure Metered (α : Type) where
  gate : Gate α
  bytesReceived : Nat
  bytesSent : Nat
  finalizeCount : Nat
  prometheusBytesSent : Nat
  prometheusBytesSkipped : Nat

namespace Metered

def opened (mode : GateMode) : Metered α := ⟨.new mode, 0, 0, 0, 0, 0⟩

def activate (m : Metered α) : Metered α := { m with gate := m.gate.activate }

/-- `_record_prometheus_audio`: what is neither sent nor pending is skipped. -/
def recordPrometheusAudio (m : Metered α) : Metered α :=
  { m with
    prometheusBytesSent := m.bytesSent
    prometheusBytesSkipped := m.bytesReceived - m.bytesSent - (m.gate.preRoll.map List.length).sum }

variable (config : Config)

/-- `process_audio`: each branch counts the audio and the flush it returns. -/
def processAudio (m : Metered α) (c : Chunk α) : Metered α × GateOutput α :=
  let result := m.gate.processAudio config c.pcm c.isSpeech c.wallTime
  (recordPrometheusAudio
    { m with
      gate := result.1
      bytesReceived := m.bytesReceived + c.pcm.length
      bytesSent := m.bytesSent + result.2.audioToSend.length
      finalizeCount := m.finalizeCount + if result.2.shouldFinalize then 1 else 0 }, result.2)

def run (m : Metered α) : List (Chunk α) → Metered α × List (GateOutput α)
  | [] => (m, [])
  | c :: rest =>
      let first := m.processAudio config c
      let later := run first.1 rest
      (later.1, first.2 :: later.2)

/-- A session in active mode: opened in it, or switched to it after any shadow audio. -/
inductive ActiveFrom : Metered α → Prop
  | opened : ActiveFrom (opened .active)
  | activated (earlier : List (Chunk α)) : ActiveFrom ((opened .shadow).run config earlier).1.activate

end Metered

/-! ## What a chunk does in active mode -/

section Effect
variable (config : Config)

/-- The branches of `_update_state`, without times. -/
inductive Handled (gate : Gate α) (pcm : List α) : Bool → Gate α → GateOutput α → Prop
  | silent {next : Gate α} {out : GateOutput α} (before : gate.state = .silence) (after : next.state = .silence)
      (held : next.preRoll = (gate.bufferPreRoll config pcm).1) (audio : out.audioToSend = [])
      (flush : out.shouldFinalize = false) : Handled gate pcm false next out
  | onset {next : Gate α} {out : GateOutput α} (before : gate.state = .silence) (after : next.state = .speech)
      (held : next.preRoll = []) (audio : out.audioToSend = (gate.bufferPreRoll config pcm).1.flatten)
      (flush : out.shouldFinalize = false) : Handled gate pcm true next out
  | speaking {next : Gate α} {out : GateOutput α} (before : gate.state ≠ .silence) (after : next.state = .speech)
      (held : next.preRoll = gate.preRoll) (audio : out.audioToSend = pcm) (flush : out.shouldFinalize = false) :
      Handled gate pcm true next out
  | pause {next : Gate α} {out : GateOutput α} (before : gate.state = .speech) (after : next.state = .hangover)
      (held : next.preRoll = gate.preRoll) (audio : out.audioToSend = pcm) (flush : out.shouldFinalize = false)
      (due : next.hangoverFinalized = false) : Handled gate pcm false next out
  | hanging {next : Gate α} {out : GateOutput α} (before : gate.state = .hangover) (after : next.state = .hangover)
      (held : next.preRoll = gate.preRoll) (audio : out.audioToSend = pcm)
      (once : out.shouldFinalize = true → gate.hangoverFinalized = false)
      (due : next.hangoverFinalized = (gate.hangoverFinalized || out.shouldFinalize)) : Handled gate pcm false next out
  | expired {next : Gate α} {out : GateOutput α} (before : gate.state = .hangover) (after : next.state = .silence)
      (held : next.preRoll = [pcm]) (audio : out.audioToSend = []) (flush : out.shouldFinalize = !gate.hangoverFinalized) :
      Handled gate pcm false next out

theorem Gate.processAudio_handled (gate : Gate α) (active : gate.mode = .active) (pcm : List α) (isSpeech : Bool)
    (wallTime : ℚ) :
    Handled config gate pcm isSpeech (gate.processAudio config pcm isSpeech wallTime).1
        (gate.processAudio config pcm isSpeech wallTime).2 ∧
      (gate.processAudio config pcm isSpeech wallTime).1.mode = .active := by
  have state : (gate.track config pcm isSpeech wallTime).state = gate.state := rfl
  unfold Gate.processAudio
  rw [active]
  dsimp only
  unfold Gate.updateState
  cases before : gate.state with
  | silence =>
      rw [state, before]
      cases isSpeech with
      | false => exact ⟨.silent before before rfl rfl rfl, active⟩
      | true => exact ⟨.onset before rfl rfl rfl rfl, active⟩
  | speech =>
      rw [state, before]
      have loud : gate.state ≠ .silence := by rw [before]; decide
      cases isSpeech with
      | false => exact ⟨.pause before rfl rfl rfl rfl rfl, active⟩
      | true => exact ⟨.speaking loud before rfl rfl rfl, active⟩
  | hangover =>
      rw [state, before]
      have loud : gate.state ≠ .silence := by rw [before]; decide
      cases isSpeech with
      | true => exact ⟨.speaking loud rfl rfl rfl rfl, active⟩
      | false =>
          dsimp only
          unfold Gate.updateHangover
          dsimp only
          rw [if_neg Bool.false_ne_true]
          split
          · exact ⟨.expired before rfl rfl rfl rfl, active⟩
          · refine ⟨.hanging before before rfl rfl (fun now => ?_) rfl, active⟩
            exact Bool.eq_false_of_not_eq_true' (Bool.and_eq_true_iff.mp now).1

end Effect

/-! ## Where a chunk goes -/

/-- A chunk and its place in the session. -/
abbrev Tagged (α : Type) := Chunk α × Nat

/-- The session holds back the chunks `held`, and its counters agree. -/
structure Holds (m : Metered α) (held : List (Tagged α)) : Prop where
  mode : m.gate.mode = .active
  preRoll : m.gate.preRoll = held.map (·.1.pcm)
  empty : m.gate.state ≠ .silence → held = []
  bytes : m.bytesReceived = m.bytesSent + (m.gate.preRoll.map List.length).sum + m.prometheusBytesSkipped

/-- Of the chunks held back and the new ones, `sent` are sent and `kept` held back, in order. -/
structure Passes (held : List (Tagged α)) (chunks : List (Tagged α)) (audio : List α) (sent kept : List (Tagged α)) : Prop where
  order : (sent ++ kept).Sublist (held ++ chunks)
  audio : audio = sent.flatMap (·.1.pcm)
  speech : ∀ e ∈ chunks, e.1.isSpeech = true → e ∈ sent

theorem Passes.append {held first rest sent later kept kept' : List (Tagged α)} {audio more : List α}
    (passes : Passes held first audio sent kept) (then_ : Passes kept rest more later kept') :
    Passes held (first ++ rest) (audio ++ more) (sent ++ later) kept' where
  order := by
    rw [List.append_assoc, ← List.append_assoc held]
    refine ((List.Sublist.refl sent).append then_.order).trans ?_
    rw [← List.append_assoc]
    exact passes.order.append (List.Sublist.refl rest)
  audio := by rw [passes.audio, then_.audio, List.flatMap_append]
  speech := fun e member spoken => (List.mem_append.mp member).elim
    (fun old => List.mem_append_left _ (passes.speech e old spoken))
    (fun new => List.mem_append_right _ (then_.speech e new spoken))

theorem suffix_map {β γ : Type} {f : β → γ} {l : List β} {s : List γ} (suffix : s <:+ l.map f) :
    ∃ t, t <:+ l ∧ t.map f = s := by
  obtain ⟨front, split⟩ := suffix
  obtain ⟨dropped, kept, rfl, -, same⟩ := List.map_eq_append_iff.mp split.symm
  exact ⟨kept, List.suffix_append dropped kept, same⟩

theorem bufferPreRoll_held (config : Config) {gate : Gate α} {held : List (Tagged α)}
    (preRoll : gate.preRoll = held.map (·.1.pcm)) (e : Tagged α) :
    ∃ kept, kept <:+ held ∧ (kept ++ [e]).map (·.1.pcm) = (gate.bufferPreRoll config e.1.pcm).1 := by
  unfold Gate.bufferPreRoll
  have buffered : gate.preRoll ++ [e.1.pcm] = (held ++ [e]).map (·.1.pcm) := by
    rw [preRoll, List.map_append, List.map_singleton]
  have suffix := Gate.evict_suffix config (gate.preRoll ++ [e.1.pcm])
    (gate.preRollTotalMs + config.seconds e.1.pcm.length * 1000)
  have newest := Gate.evict_keeps_newest config gate.preRoll e.1.pcm
    (gate.preRollTotalMs + config.seconds e.1.pcm.length * 1000)
  rw [buffered] at suffix newest ⊢
  obtain ⟨t, part, same⟩ := suffix_map suffix
  rcases List.suffix_concat_iff.mp part with rfl | ⟨kept, rfl, older⟩
  · rw [List.map_nil] at same
    rw [← same] at newest
    exact absurd (List.suffix_nil.mp newest) (List.cons_ne_nil _ _)
  · exact ⟨kept, older, same⟩

theorem Handled.passes {config : Config} {gate next : Gate α} {out : GateOutput α} {held : List (Tagged α)} {e : Tagged α}
    (handled : Handled config gate e.1.pcm e.1.isSpeech next out) (preRoll : gate.preRoll = held.map (·.1.pcm))
    (empty : gate.state ≠ .silence → held = []) :
    ∃ sent kept, Passes held [e] out.audioToSend sent kept ∧ next.preRoll = kept.map (·.1.pcm) ∧
      (next.state ≠ .silence → kept = []) := by
  obtain ⟨kept, older, buffered⟩ := bufferPreRoll_held config preRoll e
  have order : (kept ++ [e]).Sublist (held ++ [e]) := older.sublist.append (List.Sublist.refl [e])
  have through (loud : gate.state ≠ .silence) (same : next.preRoll = gate.preRoll) (audio : out.audioToSend = e.1.pcm) :
      Passes held [e] out.audioToSend [e] [] ∧ next.preRoll = ([] : List (Tagged α)).map (·.1.pcm) := by
    refine ⟨⟨?_, ?_, fun x member _ => member⟩, ?_⟩
    · rw [empty loud]
      exact List.Sublist.refl _
    · rw [audio, List.flatMap_singleton]
    · rw [same, preRoll, empty loud]
  obtain ⟨⟨pcm, isSpeech, wallTime⟩, place⟩ := e
  cases handled with
  | silent before after held audio =>
      refine ⟨[], kept ++ [_], ⟨order, audio, ?_⟩, held.trans buffered.symm, fun loud => absurd after loud⟩
      rintro x member spoken
      rw [List.mem_singleton.mp member] at spoken
      cases spoken
  | onset before after held audio =>
      refine ⟨kept ++ [_], [], ⟨?_, ?_, fun x member _ => List.mem_append_right _ member⟩, held, fun _ => rfl⟩
      · rw [List.append_nil]
        exact order
      · rw [audio, ← buffered, List.flatMap_def]
  | speaking before after held audio =>
      exact ⟨_, [], (through before held audio).1, (through before held audio).2, fun _ => rfl⟩
  | pause before after held audio =>
      have loud : gate.state ≠ .silence := by rw [before]; decide
      exact ⟨_, [], (through loud held audio).1, (through loud held audio).2, fun _ => rfl⟩
  | hanging before after held audio =>
      have loud : gate.state ≠ .silence := by rw [before]; decide
      exact ⟨_, [], (through loud held audio).1, (through loud held audio).2, fun _ => rfl⟩
  | expired before after held audio =>
      refine ⟨[], [_], ⟨?_, audio, ?_⟩, held, fun loud => absurd after loud⟩
      · exact List.sublist_append_right _ _
      · rintro x member spoken
        rw [List.mem_singleton.mp member] at spoken
        cases spoken

theorem length_sent {sent : List (Tagged α)} :
    (sent.flatMap (·.1.pcm)).length = ((sent.map (·.1.pcm)).map List.length).sum := by
  rw [List.length_flatMap, List.map_map]
  rfl

/-- A chunk is sent, held back or skipped, and what was skipped stays so. -/
theorem Holds.processAudio (config : Config) {m : Metered α} {held : List (Tagged α)} (holds : Holds m held) (e : Tagged α) :
    ∃ sent kept, Passes held [e] (m.processAudio config e.1).2.audioToSend sent kept ∧
      Holds (m.processAudio config e.1).1 kept ∧
      m.prometheusBytesSkipped ≤ (m.processAudio config e.1).1.prometheusBytesSkipped := by
  obtain ⟨handled, mode⟩ := Gate.processAudio_handled config m.gate holds.mode e.1.pcm e.1.isSpeech e.1.wallTime
  obtain ⟨sent, kept, passes, preRoll, empty⟩ := handled.passes holds.preRoll holds.empty
  have bytes := holds.bytes
  have less : ((sent ++ kept).map fun x => x.1.pcm.length).sum ≤ ((held ++ [e]).map fun x => x.1.pcm.length).sum :=
    (passes.order.map _).sum_le_sum fun _ _ => Nat.zero_le _
  have audio := congrArg List.length passes.audio
  rw [length_sent] at audio
  rw [holds.preRoll] at bytes
  simp only [List.map_append, List.sum_append, List.map_singleton, List.sum_singleton, List.map_map,
    Function.comp_def] at less audio bytes
  have counted : (m.gate.processAudio config e.1.pcm e.1.isSpeech e.1.wallTime).1.preRoll.map List.length =
      kept.map fun x => x.1.pcm.length := by
    rw [preRoll, List.map_map]
    rfl
  refine ⟨sent, kept, passes, ⟨mode, preRoll, empty, ?_⟩, ?_⟩
  · unfold Metered.processAudio Metered.recordPrometheusAudio
    dsimp only
    rw [counted, audio]
    omega
  · unfold Metered.processAudio Metered.recordPrometheusAudio
    dsimp only
    rw [counted, audio]
    omega

theorem Holds.run (config : Config) {m : Metered α} {held : List (Tagged α)} (holds : Holds m held)
    (chunks : List (Tagged α)) :
    ∃ sent kept, Passes held chunks ((m.run config (chunks.map Prod.fst)).2.flatMap (·.audioToSend)) sent kept ∧
      Holds (m.run config (chunks.map Prod.fst)).1 kept := by
  induction chunks generalizing m held with
  | nil => exact ⟨[], held, ⟨by simp, rfl, fun _ member => (by cases member)⟩, holds⟩
  | cons e rest ih =>
      obtain ⟨sent, kept, first, holds, -⟩ := holds.processAudio config e
      obtain ⟨later, kept', others, holds⟩ := ih holds
      exact ⟨sent ++ later, kept', first.append others, holds⟩

/-! ## Shadow audio is all sent -/

structure Shadow (m : Metered α) : Prop where
  mode : m.gate.mode = .shadow
  preRoll : m.gate.preRoll = []
  sent : m.bytesReceived = m.bytesSent
  skipped : m.prometheusBytesSkipped = 0

theorem Shadow.run (config : Config) {m : Metered α} (shadow : Shadow m) (chunks : List (Chunk α)) :
    Shadow (m.run config chunks).1 := by
  induction chunks generalizing m with
  | nil => exact shadow
  | cons c rest ih =>
      refine ih ?_
      have processed : m.gate.processAudio config c.pcm c.isSpeech c.wallTime =
          (m.gate.track config c.pcm c.isSpeech c.wallTime, ⟨c.pcm, false, m.gate.state, c.isSpeech⟩) := by
        unfold Gate.processAudio
        rw [shadow.mode]
        rfl
      unfold Metered.processAudio Metered.recordPrometheusAudio
      rw [processed]
      refine ⟨shadow.mode, shadow.preRoll, ?_, ?_⟩
      · exact congrArg (· + c.pcm.length) shadow.sent
      · dsimp only
        rw [shadow.sent]
        omega

theorem Metered.ActiveFrom.holds {config : Config} {m : Metered α} (active : ActiveFrom config m) : Holds m [] := by
  cases active with
  | opened => exact ⟨rfl, rfl, fun _ => rfl, rfl⟩
  | activated earlier =>
      have shadow : Shadow ((Metered.opened .shadow : Metered α).run config earlier).1 :=
        Shadow.run config ⟨rfl, rfl, rfl, rfl⟩ earlier
      unfold Metered.activate Gate.activate
      rw [shadow.mode]
      refine ⟨rfl, rfl, fun _ => rfl, ?_⟩
      dsimp only
      rw [shadow.sent, shadow.skipped]
      rfl

/-! ## One flush for each pause -/

/-- The flushes that the gate still owes before it is silent. -/
def Gate.flushesDue (gate : Gate α) : Nat :=
  match gate.state with
  | .silence => 0
  | .speech => 1
  | .hangover => if gate.hangoverFinalized then 0 else 1

theorem Handled.flushesDue {config : Config} {gate next : Gate α} {out : GateOutput α} {pcm : List α}
    (handled : Handled config gate pcm false next out) :
    gate.flushesDue = (if out.shouldFinalize then 1 else 0) + next.flushesDue := by
  unfold Gate.flushesDue
  cases handled with
  | silent before after held audio flush => rw [before, after, flush]; rfl
  | pause before after held audio flush due => rw [before, after, flush, due]; rfl
  | hanging before after held audio once due =>
      rw [before, after, due]
      cases flush : out.shouldFinalize with
      | false => simp
      | true => simp [once flush]
  | expired before after held audio flush =>
      rw [before, after, flush]
      cases gate.hangoverFinalized <;> rfl

theorem Metered.run_flushes (config : Config) {m : Metered α} (active : m.gate.mode = .active) {quiet : List (Chunk α)}
    (silent : ∀ c ∈ quiet, c.isSpeech = false) :
    m.gate.flushesDue = (m.run config quiet).2.countP (·.shouldFinalize) + (m.run config quiet).1.gate.flushesDue := by
  induction quiet generalizing m with
  | nil => exact (Nat.zero_add _).symm
  | cons c rest ih =>
      obtain ⟨handled, mode⟩ := Gate.processAudio_handled config m.gate active c.pcm c.isSpeech c.wallTime
      rw [silent c List.mem_cons_self] at handled
      have later := ih (m := (m.processAudio config c).1) mode fun d member => silent d (List.mem_cons_of_mem c member)
      have first := handled.flushesDue
      rw [← silent c List.mem_cons_self] at first
      have together : (m.run config (c :: rest)).2.countP (·.shouldFinalize) =
          ((m.processAudio config c).1.run config rest).2.countP (·.shouldFinalize) +
            if (m.gate.processAudio config c.pcm c.isSpeech c.wallTime).2.shouldFinalize then 1 else 0 := List.countP_cons
      have last : (m.run config (c :: rest)).1 = ((m.processAudio config c).1.run config rest).1 := rfl
      rw [together, last, first, Nat.add_right_comm, ← later, Nat.add_comm]
      rfl

theorem Metered.run_bytes (config : Config) (m : Metered α) (chunks : List (Chunk α)) :
    (m.run config chunks).1.bytesReceived = m.bytesReceived + (chunks.map (·.pcm.length)).sum ∧
      (m.run config chunks).1.bytesSent = m.bytesSent + ((m.run config chunks).2.flatMap (·.audioToSend)).length ∧
      (m.run config chunks).1.finalizeCount = m.finalizeCount + (m.run config chunks).2.countP (·.shouldFinalize) := by
  induction chunks generalizing m with
  | nil => exact ⟨rfl, rfl, rfl⟩
  | cons c rest ih =>
      obtain ⟨received, sent, flushes⟩ := ih (m.processAudio config c).1
      have first : (m.processAudio config c).1.bytesReceived = m.bytesReceived + c.pcm.length ∧
          (m.processAudio config c).1.bytesSent = m.bytesSent + (m.processAudio config c).2.audioToSend.length ∧
          (m.processAudio config c).1.finalizeCount =
            m.finalizeCount + if (m.processAudio config c).2.shouldFinalize then 1 else 0 := ⟨rfl, rfl, rfl⟩
      unfold Metered.run
      dsimp only
      rw [received, sent, flushes, List.map_cons, List.sum_cons, List.flatMap_cons, List.length_append, List.countP_cons]
      exact ⟨by omega, by omega, by omega⟩

/-- Every received byte is sent once, held back or skipped, and a pause is flushed once. -/
theorem gate_conserves_audio (config : Config) (start : Metered α) (active : start.ActiveFrom config)
    (chunks : List (Chunk α)) :
    (∃ sent : List (Tagged α), sent.Sublist chunks.zipIdx ∧
      (start.run config chunks).2.flatMap (·.audioToSend) = sent.flatMap (·.1.pcm) ∧
      ∀ e ∈ chunks.zipIdx, e.1.isSpeech = true → e ∈ sent) ∧
    ((start.run config chunks).1.bytesReceived = start.bytesReceived + (chunks.map (·.pcm.length)).sum ∧
      (start.run config chunks).1.bytesSent =
        start.bytesSent + ((start.run config chunks).2.flatMap (·.audioToSend)).length ∧
      (start.run config chunks).1.bytesReceived = (start.run config chunks).1.bytesSent +
        ((start.run config chunks).1.gate.preRoll.map List.length).sum +
        (start.run config chunks).1.prometheusBytesSkipped) ∧
    (∀ c, (start.run config chunks).1.prometheusBytesSkipped ≤
      ((start.run config chunks).1.processAudio config c).1.prometheusBytesSkipped) ∧
    ((start.run config chunks).1.gate.state ≠ .silence → (start.run config chunks).1.gate.preRoll = []) ∧
    ((start.run config chunks).1.gate.state = .speech → ∀ quiet, (∀ c ∈ quiet, c.isSpeech = false) →
      ((start.run config chunks).1.run config quiet).2.countP (·.shouldFinalize) ≤ 1 ∧
      (((start.run config chunks).1.run config quiet).1.gate.state = .silence →
        ((start.run config chunks).1.run config quiet).2.countP (·.shouldFinalize) = 1)) := by
  obtain ⟨sent, kept, passes, holds⟩ := active.holds.run config chunks.zipIdx
  rw [List.zipIdx_map_fst] at passes holds
  obtain ⟨received, forwarded, -⟩ := start.run_bytes config chunks
  refine ⟨⟨sent, ?_, passes.audio, passes.speech⟩, ⟨received, forwarded, holds.bytes⟩, fun c => ?_, fun loud => ?_, ?_⟩
  · exact (List.sublist_append_left sent kept).trans passes.order
  · obtain ⟨-, -, -, -, grows⟩ := holds.processAudio config (c, 0)
    exact grows
  · rw [holds.preRoll, holds.empty loud]
    rfl
  · intro speaking quiet silent
    have due := Metered.run_flushes config holds.mode silent
    have owed : (start.run config chunks).1.gate.flushesDue = 1 := by
      unfold Gate.flushesDue
      rw [speaking]
    rw [owed] at due
    refine ⟨by omega, fun reached => ?_⟩
    have none : ((start.run config chunks).1.run config quiet).1.gate.flushesDue = 0 := by
      unfold Gate.flushesDue
      rw [reached]
    omega

theorem monoConfig_pos : 0 < 16000 := by decide

def monoConfig : Config := ⟨16000, 1, monoConfig_pos, Nat.one_pos⟩

/-- A sample before the voice, one of it and one after. -/
def sampleChunks : List (Chunk UInt8) := [⟨[0, 0], false, 5⟩, ⟨[1, 1], true, 5⟩, ⟨[2, 2], false, 5⟩]

theorem gate_conserves_audio_opened :
    (∃ sent : List (Tagged UInt8), sent.Sublist sampleChunks.zipIdx ∧
      ((Metered.opened .active).run monoConfig sampleChunks).2.flatMap (·.audioToSend) = sent.flatMap (·.1.pcm) ∧
      ∀ e ∈ sampleChunks.zipIdx, e.1.isSpeech = true → e ∈ sent) ∧
    ((Metered.opened .active).run monoConfig sampleChunks).1.bytesReceived = 0 + 6 :=
  have conserved := gate_conserves_audio monoConfig (.opened .active) .opened sampleChunks
  ⟨conserved.1, conserved.2.1.1⟩

end OmiLocal.Stt
