import OmiLocal.Limitless.PageRoundTrip

/-!
# Fragments in any order

The engine keeps the fragments of a message under their numbers until it has as
many as the packets say. Whatever the order in which they come, only the last of
them completes the message, and the page in it is the one that was encoded.
-/
namespace OmiLocal.Limitless
open Lib.Framing (Bytes)
open Lib.Dict

/-- A fragment as the buffer keeps it. -/
def numbered (f : Bytes × Nat) : Int × Bytes := ((f.2 : Int), f.1)

theorem keys_numbered (order : List (Bytes × Nat)) : keys (order.map numbered) = order.map fun f => (f.2 : Int) := by
  rw [keys, List.map_map]
  rfl

theorem nodup_numbered {fragments : List Bytes} {order : List (Bytes × Nat)} (every : order.Perm fragments.zipIdx) :
    (keys (order.map numbered)).Nodup := by
  have seqs : (fragments.zipIdx.map Prod.snd).Nodup := by
    rw [List.zipIdx_map_snd]
    exact List.nodup_range' 
  have ordered : (order.map Prod.snd).Nodup := (every.map Prod.snd).nodup_iff.mpr seqs
  rw [keys_numbered]
  rw [show (fun f : Bytes × Nat => (f.2 : Int)) = (fun n : Nat => (n : Int)) ∘ Prod.snd from rfl, ← List.map_map]
  exact ordered.map fun _ _ => Int.ofNat.inj

theorem get_numbered {fragments : List Bytes} {order : List (Bytes × Nat)} (every : order.Perm fragments.zipIdx) {i : Nat}
    (inside : i < fragments.length) : get (order.map numbered) (i : Int) = fragments[i]? := by
  rw [List.getElem?_eq_getElem inside]
  refine get_of_mem (nodup_numbered every) (List.mem_map.mpr ⟨(fragments[i], i), ?_, rfl⟩)
  rw [every.mem_iff, List.mk_mem_zipIdx_iff_getElem?]
  exact List.getElem?_eq_getElem inside

theorem assemble_numbered {fragments : List Bytes} {order : List (Bytes × Nat)} (every : order.Perm fragments.zipIdx) :
    FlashDrain.assemble (order.map numbered) fragments.length = fragments.flatten := by
  have each : (List.range fragments.length).map (fun i : Nat => (get (order.map numbered) (i : Int)).getD []) =
      fragments := by
    refine List.ext_getElem (by rw [List.length_map, List.length_range]) fun i _ inside => ?_
    rw [List.getElem_map, List.getElem_range, get_numbered every inside, List.getElem?_eq_getElem inside, Option.getD_some]
  rw [FlashDrain.assemble, Int.toNat_natCast, List.flatMap_def, each]

namespace FlashDrain
variable {s : FlashDrain} {index : Nat} {fragments : List Bytes} {received : List (Bytes × Nat)} {f : Bytes × Nat}

/-- The buffer holds these fragments of the message, in the order in which they came. -/
def Holding (s : FlashDrain) (index : Nat) (received : List (Bytes × Nat)) : Prop :=
  (get s.fragmentBuffer (index : Int)).getD [] = received.map numbered

/-- What the packet of a fragment adds to the buffer. -/
theorem put_numbered (holding : s.Holding index received) (fresh : f.2 ∉ received.map Prod.snd) :
    put ((get s.fragmentBuffer (index : Int)).getD []) (f.2 : Int) f.1 = (received ++ [f]).map numbered := by
  have absent : (f.2 : Int) ∉ keys (received.map numbered) := by
    rw [keys_numbered, List.mem_map]
    rintro ⟨g, member, same⟩
    exact fresh (List.mem_map.mpr ⟨g, member, Int.ofNat.inj same⟩)
  rw [holding, put_new absent, List.map_append]
  rfl

/-- The packet of a fragment that is not the last to come. -/
theorem onPacket_early (holding : s.Holding index received) (fresh : f.2 ∉ received.map Prod.snd)
    (more : received.length + 1 < fragments.length) (fuel : Nat) :
    s.onPacket ⟨index, f.2, fragments.length, f.1⟩ fuel =
      some { s with fragmentBuffer := put s.fragmentBuffer index ((received ++ [f]).map numbered) } := by
  rw [onPacket]
  dsimp only
  rw [put_numbered holding fresh, if_pos]
  rw [List.length_map, List.length_append, List.length_singleton]
  omega

theorem onPacket_last (draining : s.phase = .draining) (holding : s.Holding index received)
    (every : (received ++ [f]).Perm fragments.zipIdx) {fuel : Nat} {pages : List FlashPage}
    (parsed : Kotlin.parsePendantMessage fuel fragments.flatten = some pages) :
    s.onPacket ⟨index, f.2, fragments.length, f.1⟩ fuel =
      some { s with fragmentBuffer := erase s.fragmentBuffer index, work := .pages pages } := by
  have length := every.length_eq
  have seqs := (every.map Prod.snd).nodup_iff.mpr (by rw [List.zipIdx_map_snd]; exact List.nodup_range')
  have fresh : f.2 ∉ received.map Prod.snd := by
    rw [List.map_append, List.nodup_append] at seqs
    exact fun member => seqs.2.2 _ member _ (List.mem_singleton_self _) rfl
  rw [onPacket]
  dsimp only
  rw [put_numbered holding fresh, if_neg, if_pos draining, assemble_numbered every, parsed]
  · rfl
  · rw [List.length_map, length, List.length_zipIdx]
    exact not_not_intro rfl

/-- Where the engine's packets come from, and what tells it that they are the pendant's. -/
structure Source where
  equalsIgnoreCase : String → String → Bool
  config : Config
  address : String
  serviceUuid : String
  characteristicUuid : String
  listens : equalsIgnoreCase config.deviceId address = true ∧ equalsIgnoreCase config.serviceUuid serviceUuid = true ∧
    equalsIgnoreCase config.characteristicUuid characteristicUuid = true

namespace Source
variable (src : Source)

/-- A fragment's packet, at its time. -/
def packet (index count : Nat) (now : Nat → Int) (fuel : Nat) (f : Bytes × Nat) : Action :=
  .packet src.config src.address src.serviceUuid src.characteristicUuid (bleWrapper index f.2 count f.1) (now f.2) fuel

/-- The packets one after the other. A packet is only taken when the pages of the one before are done. -/
def deliver (index count : Nat) (now : Nat → Int) (fuel : Nat) (order : List (Bytes × Nat)) (s : FlashDrain) :
    Option FlashDrain :=
  (order.map (src.packet index count now fuel)).foldlM (act · src.equalsIgnoreCase) s

theorem act_packet (draining : s.phase = .draining) (done : s.work = .pages []) {count : Nat} (index_fits : index < 2 ^ 31)
    (seq_fits : f.2 < 2 ^ 31) (count_fits : count < 2 ^ 31) (array : (bleWrapper index f.2 count f.1).length < 2 ^ 31)
    (now : Nat → Int) {fuel : Nat} (enough : 5 ≤ fuel) :
    s.act src.equalsIgnoreCase (src.packet index count now fuel f) = s.onPacket ⟨index, f.2, count, f.1⟩ fuel := by
  have parsed := Kotlin.parseBlePacket_wrapper index_fits seq_fits count_fits array enough
  rw [packet, act, if_neg (not_not_intro done), if_pos src.listens, processPacket, readStatus, if_neg (by rw [draining]; decide)]
  simp only [Option.bind_eq_bind, Option.bind_some, Option.elim_none, parsed]

end Source

/-- By induction on the packets still to come: each but the last leaves the message incomplete. -/
theorem deliver_rest (src : Source) (draining : s.phase = .draining) (done : s.work = .pages []) (index_fits : index < 2 ^ 31)
    (counted : fragments.length < 2 ^ 31) {rest : List (Bytes × Nat)} (holding : s.Holding index received)
    (every : (received ++ rest).Perm fragments.zipIdx) (last : rest ≠ [])
    (arrays : ∀ f ∈ rest, (bleWrapper index f.2 fragments.length f.1).length < 2 ^ 31) (now : Nat → Int) {fuel : Nat}
    (enough : 5 ≤ fuel) {pages : List FlashPage} (parsed : Kotlin.parsePendantMessage fuel fragments.flatten = some pages) :
    ∃ buffer, src.deliver index fragments.length now fuel rest s =
      some { s with fragmentBuffer := buffer, work := .pages pages } := by
  induction rest generalizing s received with
  | nil => exact absurd rfl last
  | cons f rest ih =>
      have member : f ∈ fragments.zipIdx := every.subset (List.mem_append_right _ List.mem_cons_self)
      have inside : f.2 < fragments.length := List.snd_lt_of_mem_zipIdx member
      have step := src.act_packet draining done index_fits (by omega) counted (arrays f List.mem_cons_self) now enough
      rw [Source.deliver, List.map_cons, List.foldlM_cons, step]
      cases rest with
      | nil =>
          rw [onPacket_last draining holding every parsed]
          exact ⟨_, rfl⟩
      | cons g rest =>
          have length := every.length_eq
          rw [List.length_zipIdx, List.length_append, List.length_cons, List.length_cons] at length
          have seqs := (every.map Prod.snd).nodup_iff.mpr (by rw [List.zipIdx_map_snd]; exact List.nodup_range')
          have fresh : f.2 ∉ received.map Prod.snd := by
            rw [List.map_append, List.nodup_append] at seqs
            exact fun member => seqs.2.2 _ member _ List.mem_cons_self rfl
          rw [onPacket_early holding fresh (by omega)]
          rw [← List.singleton_append, ← List.append_assoc] at every
          have later : Holding { s with fragmentBuffer := put s.fragmentBuffer index ((received ++ [f]).map numbered) } index
              (received ++ [f]) := by
            rw [Holding]
            dsimp only
            rw [get_put_self, Option.getD_some]
          exact ih draining done later every (List.cons_ne_nil g rest)
            (fun h member => arrays h (List.mem_cons_of_mem f member))

/-! ## A page in fragments -/

theorem length_pendantMessage (session seq index : Int) (page : Bytes) :
    5 ≤ (pendantMessage (storageBufferBytes session seq index page)).length := by
  have message := Kotlin.encodeBytesField_length 2 (by decide) (storageBufferBytes session seq index page)
  have buffer : (storageBufferBytes session seq index page).length = _ := List.length_append
  have field := Kotlin.encodeBytesField_length 6 (by decide) page
  have varint := encodeVarint_length_pos page.length
  have varint' := encodeVarint_length_pos (storageBufferBytes session seq index page).length
  have first := Kotlin.encodeIntField_length 5 (by decide) index
  have numbers : (encodeIntField 2 session ++ encodeIntField 4 seq ++ encodeIntField 5 index).length = _ := List.length_append
  rw [pendantMessage, encodeMessage]
  omega

/-- A page of the page format, cut into any fragments, read back from their packets in any order. A page that has audio
data but no frame is not surfaced: its audio may not be acknowledged away. -/
theorem page_delivered (src : Source) {s : FlashDrain} (draining : s.phase = .draining) (done : s.work = .pages [])
    {packetIndex : Nat} (packetIndex_fits : packetIndex < 2 ^ 31) (fresh : get s.fragmentBuffer (packetIndex : Int) = none)
    {session index timestampMs : Nat} (session_fits : session < 2 ^ 31) (index_fits : index < 2 ^ 31)
    (timestamp_fits : timestampMs < 2 ^ 53) (seq : Int) {wrappers : List AudioWrapper}
    (audio : ∃ w ∈ wrappers, w.audio ≠ [])
    (array : (pendantMessage (storageBufferBytes session seq index (flashPageBytes timestampMs wrappers))).length < 2 ^ 31)
    {fragments : List Bytes}
    (cut : fragments.flatten = pendantMessage (storageBufferBytes session seq index (flashPageBytes timestampMs wrappers)))
    (counted : fragments.length < 2 ^ 31) {order : List (Bytes × Nat)} (every : order.Perm fragments.zipIdx)
    (arrays : ∀ f ∈ order, (bleWrapper packetIndex f.2 fragments.length f.1).length < 2 ^ 31) (now : Nat → Int)
    {fuel : Nat} (enough : fragments.flatten.length < fuel) :
    ∃ buffer, src.deliver packetIndex fragments.length now fuel order s =
      some { s with
        fragmentBuffer := buffer
        work := .pages [⟨some index, some session, timestampMs, wrappers.flatMap AudioWrapper.frames⟩] } := by
  have framed : wrappers.flatMap AudioWrapper.frames ≠ [] := by
    obtain ⟨w, member, some_⟩ := audio
    intro none
    rw [List.flatMap_eq_nil_iff] at none
    exact some_ (List.map_eq_nil_iff.mp (none w member))
  rw [cut] at enough
  have parsed := Kotlin.parsePendantMessage_page session_fits index_fits (by omega : timestampMs < 2 ^ 63) seq framed array enough
  have long := length_pendantMessage session seq index (flashPageBytes timestampMs wrappers)
  have order_some : order ≠ [] := by
    rintro rfl
    have none : fragments = [] := List.zipIdx_eq_nil_iff.mp every.nil_eq.symm
    rw [← cut, none] at long
    exact absurd long (by decide)
  rw [← cut] at parsed
  have none : s.Holding packetIndex [] := by
    rw [Holding, fresh]
    rfl
  exact deliver_rest src draining done packetIndex_fits counted none every order_some arrays now (by omega) parsed

def sampleSource : Source :=
  ⟨(· == ·), ⟨"pendant", "service", "characteristic"⟩, "pendant", "service", "characteristic", by decide⟩

def sampleDraining : FlashDrain := { start with phase := .draining }

def sampleOpus (k : UInt8) : OpusField := ⟨15, [0xb8, 0, 0, 0, 0, 0, 0, 0, 0, k], by decide, by simp, rfl⟩

def sampleWrappers : List AudioWrapper := [⟨some 0, [sampleOpus 1, sampleOpus 2]⟩, ⟨none, []⟩, ⟨none, [sampleOpus 3]⟩]

def sampleMessage : Bytes := pendantMessage (storageBufferBytes 7 1 100 (flashPageBytes 1700000000000 sampleWrappers))

/-- Three fragments, of which the last comes first and the middle one last. -/
theorem page_delivered_sample :
    ∃ buffer, sampleSource.deliver 11 3 (fun _ => 0) 100
      [((sampleMessage.drop 10).drop 20, 2), (sampleMessage.take 10, 0), ((sampleMessage.drop 10).take 20, 1)] sampleDraining =
      some { sampleDraining with
        fragmentBuffer := buffer
        work := .pages [⟨some 100, some 7, 1700000000000, [(sampleOpus 1).frame, (sampleOpus 2).frame, (sampleOpus 3).frame]⟩] } := by
  have cut : [sampleMessage.take 10, (sampleMessage.drop 10).take 20, (sampleMessage.drop 10).drop 20].flatten =
      sampleMessage := by decide +kernel
  exact page_delivered sampleSource rfl rfl (by decide) rfl (by decide) (by decide) (by decide) 1
    ⟨_, List.mem_cons_self, List.cons_ne_nil _ _⟩ (by decide +kernel) cut (by decide) (by decide +kernel) (by decide +kernel)
    (fun _ => 0) (by decide +kernel)

def framelessMessage : Bytes := pendantMessage (storageBufferBytes 7 1 100 (flashPageBytes 1700000000000 [⟨none, []⟩]))

/-- The page of a wrapper whose audio data has no frame is dropped. -/
theorem frameless_page_dropped :
    ¬∃ buffer, sampleSource.deliver 11 1 (fun _ => 0) 100 [framelessMessage].zipIdx sampleDraining =
      some { sampleDraining with
        fragmentBuffer := buffer
        work := .pages [⟨some 100, some 7, 1700000000000, []⟩] } := by
  rintro ⟨buffer, surfaced⟩
  have dropped : (sampleSource.deliver 11 1 (fun _ => 0) 100 [framelessMessage].zipIdx sampleDraining).map FlashDrain.work =
      some (.pages []) := by decide +kernel
  rw [surfaced] at dropped
  cases dropped

end FlashDrain
end OmiLocal.Limitless
