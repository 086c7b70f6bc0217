import OmiLocal.Lib.Suffix
import OmiLocal.Lib.Framing
import Mathlib.Tactic.NormNum

/-!
# Packet durations and the pre-roll window

`packetMicroseconds` is the phone's reading of a packet and
`serverPacketMicroseconds` the server's; both read the same table of contents byte.
`LocalOpusPreroll` is the phone's bounded decoder context.
-/
namespace OmiLocal.Capture
open Lib.Framing (Bytes)

abbrev Packet := Bytes

inductive Source where
  | omi
  | phone
  deriving DecidableEq, Repr

inductive Codec where
  | opus
  | opusFs320
  | pcm16
  deriving DecidableEq, Repr

def Source.name : Source → String
  | .omi => "omi"
  | .phone => "phone"

def Codec.name : Codec → String
  | .opus => "opus"
  | .opusFs320 => "opus_fs320"
  | .pcm16 => "pcm16"

/-- `const {'omi:opus', 'omi:opus_fs320', 'phone:pcm16'}` of `begin`. -/
def supportedFormat : Source → Codec → Bool
  | .omi, .opus => true
  | .omi, .opusFs320 => true
  | .phone, .pcm16 => true
  | _, _ => false

/-- Frame duration of a table of contents configuration, in microseconds. -/
def configMicroseconds (config : Nat) : Nat :=
  if config < 12 then [10000, 20000, 40000, 60000].getD (config % 4) 0
  else if config < 16 then [10000, 20000].getD (config % 2) 0
  else [2500, 5000, 10000, 20000].getD (config % 4) 0

/-- Frame count code of the first byte, then the count it stands for. -/
def frameCode (packet : Packet) : Nat := (packet.headD 0).toNat &&& 3

def frameCount (packet : Packet) : Nat :=
  if frameCode packet = 0 then 1
  else if frameCode packet = 3 then (packet.getD 1 0).toNat &&& 63
  else 2

def frameMicroseconds (packet : Packet) : Nat := configMicroseconds ((packet.headD 0).toNat >>> 3)

/-- `LocalAudioRecording.packetMicroseconds`. -/
def packetMicroseconds (codec : Codec) (packet : Packet) : Except String Nat :=
  match codec with
  | .pcm16 =>
      if packet.length % 2 = 1 then .error "Unaligned PCM16 packet"
      else .ok (packet.length * 1000000 / 32000)
  | _ =>
      let duration := frameMicroseconds packet
      if frameCode packet = 3 ∧ packet.length < 2 then .error "Invalid Opus frame count"
      else
        let frames := frameCount packet
        if frames = 0 ∨ frames * duration > 120000 then .error "Invalid Opus duration"
        else .ok (duration * frames)

/-- The server's reader of the same byte. -/
def serverPacketMicroseconds (packet : Packet) : Except String Nat :=
  let duration := frameMicroseconds packet
  if frameCode packet = 3 ∧ packet.length < 2 then .error "Invalid Opus frame count"
  else
    let count := frameCount packet
    if count = 0 ∨ count * duration > 120000 then .error "Invalid Opus packet duration"
    else .ok (duration * count)

theorem serverPacketMicroseconds_of_phone {codec : Codec} (opus : codec ≠ .pcm16) {packet : Packet}
    {duration : Nat} (h : packetMicroseconds codec packet = .ok duration) :
    serverPacketMicroseconds packet = .ok duration := by
  have same : packetMicroseconds codec packet = packetMicroseconds .opus packet := by
    cases codec <;> first | rfl | contradiction
  rw [same] at h
  simp only [packetMicroseconds] at h
  unfold serverPacketMicroseconds
  dsimp only
  split at h
  · cases h
  · rename_i counted
    rw [if_neg counted]
    split at h
    · cases h
    · rename_i bounded
      rw [if_neg bounded]
      exact h

theorem configMicroseconds_bounds (config : Nat) :
    2500 ≤ configMicroseconds config ∧ configMicroseconds config % 2500 = 0 := by
  have four := Nat.mod_lt config (show 0 < 4 by omega)
  have two := Nat.mod_lt config (show 0 < 2 by omega)
  unfold configMicroseconds
  split
  · generalize config % 4 = k at four
    interval_cases k <;> simp
  · split
    · generalize config % 2 = k at two
      interval_cases k <;> simp
    · generalize config % 4 = k at four
      interval_cases k <;> simp

/-- An admitted Opus packet lasts from 2.5 to 120 ms, in whole half-milliseconds. -/
theorem serverPacketMicroseconds_bounds {packet : Packet} {duration : Nat}
    (h : serverPacketMicroseconds packet = .ok duration) :
    2500 ≤ duration ∧ duration ≤ 120000 ∧ duration % 2500 = 0 := by
  unfold serverPacketMicroseconds at h
  dsimp only at h
  split at h
  · cases h
  · split at h
    · cases h
    · rename_i bounded
      simp only [Except.ok.injEq] at h
      obtain ⟨low, whole⟩ := configMicroseconds_bounds ((packet.headD 0).toNat >>> 3)
      change 2500 ≤ frameMicroseconds packet at low
      change frameMicroseconds packet % 2500 = 0 at whole
      generalize frameMicroseconds packet = unit at *
      generalize frameCount packet = frames at *
      subst h
      have positive : 1 ≤ frames := by omega
      have least : unit * 1 ≤ unit * frames := Nat.mul_le_mul_left unit positive
      rw [Nat.mul_comm frames unit] at bounded
      refine ⟨by omega, by omega, ?_⟩
      rw [Nat.mul_mod, whole, Nat.zero_mul, Nat.zero_mod]

/-! ## `LocalOpusPreroll` -/

structure LocalOpusPreroll where
  history : List (Packet × Nat)
  microseconds : Nat
  deriving DecidableEq, Repr

namespace LocalOpusPreroll

def minimumMicroseconds : Nat := 80000

def empty : LocalOpusPreroll := ⟨[], 0⟩

def packets (p : LocalOpusPreroll) : List Packet :=
  if p.microseconds < minimumMicroseconds then [] else p.history.map Prod.fst

/-- The `while` loop of `remember`: drop the oldest packet while enough remains. -/
def trim : List (Packet × Nat) → Nat → LocalOpusPreroll
  | [], us => ⟨[], us⟩
  | entry :: rest, us =>
      if minimumMicroseconds ≤ us - entry.2 then trim rest (us - entry.2) else ⟨entry :: rest, us⟩

def remember (p : LocalOpusPreroll) (payload : Packet) (us : Nat) : Except String LocalOpusPreroll :=
  if payload = [] ∨ payload.length > 4096 ∨ us < 2500 ∨ us > 120000 then
    .error "Invalid Opus decoder context packet"
  else .ok (trim (p.history ++ [(payload, us)]) (p.microseconds + us))

open Lib.Suffix

/-- The window over every packet remembered so far, with its duration. -/
def holds (p : LocalOpusPreroll) (remembered : List (Packet × Nat)) : Prop :=
  p.history = window Prod.snd minimumMicroseconds remembered ∧
    p.microseconds = total Prod.snd p.history

theorem trim_total (entries : List (Packet × Nat)) :
    trim entries (total Prod.snd entries) =
      ⟨window Prod.snd minimumMicroseconds entries,
        total Prod.snd (window Prod.snd minimumMicroseconds entries)⟩ := by
  induction entries with
  | nil => rfl
  | cons entry rest ih =>
      have left : total Prod.snd (entry :: rest) - entry.2 = total Prod.snd rest := by simp
      rw [trim, left, window]
      split
      · exact ih
      · rfl

theorem holds_empty : empty.holds [] := ⟨rfl, rfl⟩

theorem remember_holds {p next : LocalOpusPreroll} {remembered : List (Packet × Nat)}
    {payload : Packet} {us : Nat} (h : p.holds remembered)
    (ok : p.remember payload us = .ok next) : next.holds (remembered ++ [(payload, us)]) := by
  obtain ⟨history, sum⟩ := h
  unfold remember at ok
  split at ok
  · cases ok
  · simp only [Except.ok.injEq] at ok
    have whole : p.microseconds + us = total Prod.snd (p.history ++ [(payload, us)]) := by
      simp [sum]
    rw [whole, trim_total, history, window_append] at ok
    subst ok
    exact ⟨rfl, rfl⟩

/-- Either there is no context yet, or the context is the shortest suffix of the
remembered packets that lasts at least 80 ms. -/
theorem packets_spec {p : LocalOpusPreroll} {remembered : List (Packet × Nat)}
    (h : p.holds remembered) :
    p.packets = [] ∨ ∃ context, p.packets = context.map Prod.fst ∧
      Shortest Prod.snd minimumMicroseconds remembered context := by
  obtain ⟨history, sum⟩ := h
  unfold packets
  split
  · exact Or.inl rfl
  · rename_i enough
    refine Or.inr ⟨p.history, rfl, ?_⟩
    have suffix : window Prod.snd minimumMicroseconds remembered <:+ remembered := window_suffix _ _
    have kept := total_suffix_le Prod.snd suffix
    rw [history]
    rw [sum, history] at enough
    exact shortest_window (by omega)

end LocalOpusPreroll

/-- The bounds that the server asks of a pre-roll hold of every shortest suffix:
fewer than 33 packets, below 200 ms, and below 80 ms without its first packet. -/
theorem shortest_context_bounds {remembered context : List (Packet × Nat)}
    (durations : ∀ entry ∈ remembered, 2500 ≤ entry.2 ∧ entry.2 ≤ 120000)
    (shortest : Lib.Suffix.Shortest Prod.snd LocalOpusPreroll.minimumMicroseconds remembered context) :
    context.length ≤ 32 ∧ Lib.Suffix.total Prod.snd context < 200000 ∧
      Lib.Suffix.total Prod.snd context - (context.headD ([], 0)).2 < 80000 ∧ context ≠ [] := by
  obtain ⟨suffix, enough, minimal⟩ := shortest
  simp only [LocalOpusPreroll.minimumMicroseconds] at enough minimal
  cases context with
  | nil => simp at enough
  | cons entry rest =>
      have tight : Lib.Suffix.total Prod.snd rest < 80000 := by
        by_contra heavy
        have shorter := minimal rest ((List.suffix_cons entry rest).trans suffix) (by omega)
        simp at shorter
      have first := durations entry (suffix.mem (by simp))
      have least : 2500 * rest.length ≤ Lib.Suffix.total Prod.snd rest := by
        have bound : ∀ e ∈ rest, 2500 ≤ e.2 :=
          fun e he => (durations e (suffix.mem (List.mem_cons_of_mem entry he))).1
        clear suffix enough minimal tight
        induction rest with
        | nil => simp
        | cons e rest ih =>
            have := bound e (by simp)
            have := ih (fun x hx => bound x (List.mem_cons_of_mem e hx))
            simp only [List.length_cons, Lib.Suffix.total_cons]
            omega
      simp only [Lib.Suffix.total_cons, List.length_cons, List.headD_cons, ne_eq, reduceCtorEq,
        not_false_eq_true, and_true]
      omega

end OmiLocal.Capture
