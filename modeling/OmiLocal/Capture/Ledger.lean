import OmiLocal.Capture.Outbox

/-!
# The parts of the recordings

What the files of the outbox hold, said once for every state: a `Part` is the
header, the repeated packets, the persisted packets and the packet whose writing
has begun. A file holds its part up to some byte; a sealed one ends with a whole
packet. The `Ledger` relates all parts ever created to what was persisted.
-/
namespace OmiLocal.Capture
open Lib.Framing Lib.Json

structure Part where
  header : Header
  preroll : List Packet
  fresh : List Packet
  extra : Option Packet

namespace Part

def id (part : Part) : Uuid := part.header.id

def recordingId (part : Part) : Uuid := part.header.recordingId

/-- The bytes up to the last persisted packet. -/
def written (part : Part) : Bytes := opening part.header part.preroll ++ encodeAll be32 part.fresh

/-- Every packet of the part that can be found complete. -/
def begun (part : Part) : List Packet := part.fresh ++ part.extra.toList

end Part

/-- A file of the part, cut at any byte. -/
def Content (part : Part) (bytes : Bytes) : Prop :=
  (part.begun = [] ∧ bytes <+: opening part.header part.preroll) ∨
    ∃ tail, bytes = part.written ++ tail ∧ tail <+: encodeAll be32 part.extra.toList

/-- A file of the part that ends with a complete new packet. -/
def Sealed (part : Part) (bytes : Bytes) : Prop :=
  ∃ kept, kept <+: part.extra.toList ∧ part.fresh ++ kept ≠ [] ∧
    bytes = opening part.header part.preroll ++ encodeAll be32 (part.fresh ++ kept)

theorem Sealed.content {part : Part} {bytes : Bytes} (done : Sealed part bytes) : Content part bytes := by
  obtain ⟨kept, ⟨rest, all⟩, -, rfl⟩ := done
  refine .inr ⟨encodeAll be32 kept, by simp [Part.written], ?_⟩
  rw [← all, encodeAll_append]
  exact List.prefix_append _ _

/-- The packet's duration, where it has one. -/
def microseconds (codec : Codec) (packet : Packet) : Nat := (packetMicroseconds codec packet).toOption.getD 0

def timed (codec : Codec) (packets : List Packet) : List (Packet × Nat) :=
  packets.map fun packet => (packet, microseconds codec packet)

def audio (codec : Codec) (packets : List Packet) : Nat := (packets.map (microseconds codec)).sum

/-- What the writer guarantees of a part; `before` is what its recording had persisted when it was opened. -/
structure PartOk (limits : Limits) (before : List Packet) (part : Part) : Prop where
  version : part.header.version = 2
  format : supportedFormat part.header.source part.header.codec = true
  countable : part.header.encode.length < 2 ^ 32
  count : part.header.prerollFrames = part.preroll.length
  few : part.preroll.length ≤ 32
  packets : ∀ p ∈ part.preroll ++ part.begun, p ≠ [] ∧ p.length ≤ maxFrameBytes
  durations : ∀ p ∈ part.begun, ∃ d, packetMicroseconds part.header.codec p = .ok d
  room : part.preroll.length + part.begun.length ≤ maxPartPackets
  size : (opening part.header part.preroll ++ encodeAll be32 part.begun).length ≤ maxPartBytes ∨ part.begun.length ≤ 1
  length : audio part.header.codec part.begun ≤ limits.partMicroseconds ∨ part.begun.length ≤ 1
  context : part.preroll = [] ∨ part.header.codec ≠ .pcm16 ∧ 0 < part.header.index ∧
    (∀ p ∈ before, ∃ d, packetMicroseconds part.header.codec p = .ok d) ∧ ∃ context,
    part.preroll = context.map Prod.fst ∧ Lib.Suffix.Shortest Prod.snd LocalOpusPreroll.minimumMicroseconds
      (timed part.header.codec before) context

/-! ## Reading a part -/

section Reading

variable {limits : Limits} {before : List Packet} {part : Part}

theorem fits_of_small {p : Packet} (small : p ≠ [] ∧ p.length ≤ maxFrameBytes) : Fits be32 maxFrameBytes p := by
  refine ⟨small.1, small.2, ?_⟩
  have := small.2
  unfold maxFrameBytes at this
  change p.length < 2 ^ 32
  omega

theorem PartOk.fits (ok : PartOk limits before part) : ∀ p ∈ part.preroll ++ part.begun, Fits be32 maxFrameBytes p :=
  fun p member => fits_of_small (ok.packets p member)

/-- A scan stops at a tail that is cut off before the end of a record. -/
theorem stops {payloads : List Packet} (fits : ∀ p ∈ payloads, Fits be32 maxFrameBytes p) {tail : Bytes}
    (cut : tail = [] ∨ ∃ p ∈ payloads, tail <+: record be32 p ∧ tail.length < (record be32 p).length) :
    head be32 maxFrameBytes tail = .short ∨ head be32 maxFrameBytes tail = .torn := by
  rcases cut with rfl | ⟨p, member, front, short⟩
  · exact .inl (head_nil (by decide))
  · exact head_cut (fits p member) front short

/-- What a scan finds after the envelope, for every state of a file that has its whole header. -/
theorem scan_content (ok : PartOk limits before part) {rest : Bytes} (content : Content part (envelope part.header ++ rest))
    (fuel : Nat) (enough : rest.length ≤ fuel) :
    ∃ whole tail, scan be32 maxFrameBytes fuel rest = some (whole, tail) ∧ rest = encodeAll be32 whole ++ tail ∧
      (whole <+: part.preroll ∧ part.begun = [] ∨
        ∃ kept, kept <+: part.extra.toList ∧ whole = part.preroll ++ part.fresh ++ kept) := by
  have fits := ok.fits
  rcases content with ⟨nothing, front⟩ | ⟨tail, same, front⟩
  · have inside : rest <+: encodeAll be32 part.preroll := by
      rw [opening] at front
      exact (List.prefix_append_right_inj _).mp front
    obtain ⟨whole, tail, rfl, within, cut⟩ := prefix_encodeAll inside
    have fitsPreroll : ∀ p ∈ part.preroll, Fits be32 maxFrameBytes p := fun p h => fits p (List.mem_append_left _ h)
    refine ⟨whole, tail, scan_encodeAll (fun p h => fitsPreroll p (within.subset h)) (stops fitsPreroll cut) ?_, rfl,
      .inl ⟨within, nothing⟩⟩
    have := length_le_encodeAll be32 whole (by decide)
    rw [List.length_append] at enough
    omega
  · have restIs : rest = encodeAll be32 (part.preroll ++ part.fresh) ++ tail := by
      rw [Part.written, opening, List.append_assoc, List.append_assoc] at same
      rw [encodeAll_append, List.append_assoc]
      exact List.append_cancel_left same
    obtain ⟨kept, cut, rfl, within, torn⟩ := prefix_encodeAll front
    have fitsExtra : ∀ p ∈ part.extra.toList, Fits be32 maxFrameBytes p := fun p h =>
      fits p (List.mem_append_right _ (List.mem_append_right _ h))
    have all : rest = encodeAll be32 (part.preroll ++ part.fresh ++ kept) ++ cut := by
      rw [restIs]
      simp
    refine ⟨part.preroll ++ part.fresh ++ kept, cut, ?_, all, .inr ⟨kept, within, rfl⟩⟩
    rw [all]
    refine scan_encodeAll (fun p h => ?_) (stops fitsExtra torn) ?_
    · rcases List.mem_append.mp h with h | h
      · rcases List.mem_append.mp h with h | h
        · exact fits p (List.mem_append_left _ h)
        · exact fits p (List.mem_append_right _ (List.mem_append_left _ h))
      · exact fitsExtra p (within.subset h)
    · have := length_le_encodeAll be32 (part.preroll ++ part.fresh ++ kept) (by decide)
      rw [all, List.length_append] at enough
      omega

/-- A state of the file either lacks part of the header, or starts with all of it. -/
theorem content_envelope {bytes : Bytes} (content : Content part bytes) :
    (part.begun = [] ∧ bytes <+: envelope part.header ∧ bytes.length < (envelope part.header).length) ∨
      ∃ rest, bytes = envelope part.header ++ rest := by
  rcases content with ⟨nothing, front⟩ | ⟨tail, rfl, -⟩
  · by_cases short : bytes.length < (envelope part.header).length
    · exact .inl ⟨nothing, List.prefix_of_prefix_length_le front (List.prefix_append _ _) (by omega), short⟩
    · obtain ⟨rest, same⟩ := List.prefix_of_prefix_length_le (List.prefix_append _ _) front (by omega)
      exact .inr ⟨rest, same.symm⟩
  · exact .inr ⟨encodeAll be32 part.preroll ++ encodeAll be32 part.fresh ++ tail, by
      simp [Part.written, opening]⟩

def Part.view (part : Part) (kept : List Packet) : PartView :=
  ⟨part.header.id.text, part.header.recordingId.text, part.header.index, part.fresh ++ kept⟩

/-- A file shows the persisted packets, and the last one if it is complete. -/
theorem partView_content (ok : PartOk limits before part) {bytes : Bytes} (content : Content part bytes) :
    partView bytes = none ∧ part.begun = [] ∨
      ∃ kept, kept <+: part.extra.toList ∧ partView bytes = some (part.view kept) := by
  rcases content_envelope content with ⟨nothing, front, short⟩ | ⟨rest, rfl⟩
  · exact .inl ⟨partView_short ok.countable front short, nothing⟩
  · obtain ⟨whole, tail, scanned, -, found⟩ := scan_content ok content
      (envelope part.header ++ rest).length (by simp)
    rw [partView_envelope _ ok.countable scanned, ok.count]
    rcases found with ⟨within, nothing⟩ | ⟨kept, within, rfl⟩
    · refine .inr ⟨[], List.nil_prefix, ?_⟩
      have freshNone : part.fresh = [] := (List.append_eq_nil_iff.mp nothing).1
      rw [List.drop_of_length_le within.length_le, Part.view, freshNone]
      rfl
    · refine .inr ⟨kept, within, ?_⟩
      rw [List.append_assoc, List.drop_left]
      rfl

theorem partView_sealed (ok : PartOk limits before part) {bytes : Bytes} {kept : List Packet}
    (within : kept <+: part.extra.toList)
    (bytesAre : bytes = opening part.header part.preroll ++ encodeAll be32 (part.fresh ++ kept)) :
    partView bytes = some (part.view kept) := by
  have fits : ∀ p ∈ part.preroll ++ (part.fresh ++ kept), Fits be32 maxFrameBytes p := by
    intro p member
    refine ok.fits p ?_
    rcases List.mem_append.mp member with h | h
    · exact List.mem_append_left _ h
    · refine List.mem_append_right _ ?_
      rcases List.mem_append.mp h with h | h
      · exact List.mem_append_left _ h
      · exact List.mem_append_right _ (within.subset h)
  have whole : bytes = envelope part.header ++ encodeAll be32 (part.preroll ++ (part.fresh ++ kept)) := by
    rw [bytesAre, opening]
    simp
  have scanned : scan be32 maxFrameBytes bytes.length (encodeAll be32 (part.preroll ++ (part.fresh ++ kept))) =
      some (part.preroll ++ (part.fresh ++ kept), []) := by
    have enough : (part.preroll ++ (part.fresh ++ kept)).length ≤ bytes.length := by
      have := length_le_encodeAll be32 (part.preroll ++ (part.fresh ++ kept)) (by decide)
      have size := congrArg List.length whole
      rw [List.length_append] at size
      omega
    have := scan_encodeAll fits (.inl (head_nil (by decide))) enough
    rwa [List.append_nil] at this
  rw [whole] at scanned ⊢
  rw [partView_envelope _ ok.countable scanned, ok.count, List.drop_left]
  rfl

/-- `_recover` cuts a file so that it ends with a complete new packet. -/
theorem recover_sealed (ok : PartOk limits before part) {bytes : Bytes} (content : Content part bytes) {position : Nat}
    (found : recoverPosition bytes = .ok (some position)) : Sealed part (bytes.take position) := by
  unfold recoverPosition at found
  split at found
  · cases found
  · cases read : header bytes with
    | error e =>
        rw [read] at found
        cases found
    | ok result =>
        obtain ⟨fields, preroll, start⟩ := result
        rw [read] at found
        dsimp only [bind, Except.bind] at found
        rcases content_envelope content with ⟨-, front, short⟩ | ⟨rest, rfl⟩
        · exfalso
          obtain ⟨e, failed⟩ := header_short ok.countable front short
          rw [failed] at read
          cases read
        · obtain ⟨-, prerollIs, startIs⟩ := header_envelope ok.countable read
          rw [startIs, List.drop_left] at found
          obtain ⟨whole, tail, scanned, restIs, shape⟩ := scan_content ok content
            (envelope part.header ++ rest).length (by simp)
          rw [scanned] at found
          dsimp only at found
          split at found
          · cases found
          · rename_i more
            have positionIs : (envelope part.header ++ rest).length - tail.length = position := by
              simpa using Except.ok.inj found
            rcases shape with ⟨within, -⟩ | ⟨kept, within, rfl⟩
            · exfalso
              have := within.length_le
              rw [prerollIs, ok.count] at more
              exact more (.inr this)
            · refine ⟨kept, within, ?_, ?_⟩
              · intro none
                rw [List.append_assoc, none, List.append_nil, prerollIs, ok.count] at more
                exact more (.inr (le_refl _))
              · have cut : envelope part.header ++ rest = (opening part.header part.preroll ++
                    encodeAll be32 (part.fresh ++ kept)) ++ tail := by
                  rw [restIs, opening]
                  simp
                rw [← positionIs, cut, List.length_append, Nat.add_sub_cancel, List.take_left]

end Reading

/-! ## All parts -/

def ofRecording (parts : List Part) (recordingId : Uuid) : List Part :=
  parts.filter fun q => q.recordingId = recordingId

def freshOf (parts : List Part) (recordingId : Uuid) : List Packet :=
  (ofRecording parts recordingId).flatMap Part.fresh

def begunOf (parts : List Part) (recordingId : Uuid) : List Packet :=
  (ofRecording parts recordingId).flatMap Part.begun

/-- The packets that a log holds for a recording. -/
def logOf (entries : List (Uuid × Packet)) (recordingId : Uuid) : List Packet :=
  (entries.filter fun e => e.1 = recordingId).map Prod.snd

/-- All parts ever created, in order of creation. Only the last one of a recording can hold a packet that is not
persisted. -/
structure Ledger (limits : Limits) (parts : List Part) (issued : List Uuid) (persisted begun : List (Uuid × Packet)) :
    Prop where
  ids : (parts.map Part.id).Nodup
  known : ∀ q ∈ parts, q.id ∈ issued ∧ q.recordingId ∈ issued
  order : parts.Pairwise fun a b => a.recordingId = b.recordingId → a.header.index < b.header.index ∧ a.extra = none
  persisted : ∀ recordingId, logOf persisted recordingId = freshOf parts recordingId
  begun : ∀ recordingId, logOf begun recordingId = begunOf parts recordingId
  ok : ∀ front q, front ++ [q] <+: parts → PartOk limits (freshOf front q.recordingId) q

section Parts

variable {limits : Limits} {parts : List Part} {issued : List Uuid} {persisted begun : List (Uuid × Packet)}

theorem logOf_append (front back : List (Uuid × Packet)) (recordingId : Uuid) :
    logOf (front ++ back) recordingId = logOf front recordingId ++ logOf back recordingId := by
  simp [logOf]

theorem freshOf_append (front back : List Part) (recordingId : Uuid) :
    freshOf (front ++ back) recordingId = freshOf front recordingId ++ freshOf back recordingId := by
  simp [freshOf, ofRecording]

theorem begunOf_append (front back : List Part) (recordingId : Uuid) :
    begunOf (front ++ back) recordingId = begunOf front recordingId ++ begunOf back recordingId := by
  simp [begunOf, ofRecording]

theorem freshOf_cons (q : Part) (back : List Part) (recordingId : Uuid) : freshOf (q :: back) recordingId =
    (if q.recordingId = recordingId then q.fresh else []) ++ freshOf back recordingId := by
  by_cases mine : q.recordingId = recordingId <;> simp [freshOf, ofRecording, mine]

theorem begunOf_cons (q : Part) (back : List Part) (recordingId : Uuid) : begunOf (q :: back) recordingId =
    (if q.recordingId = recordingId then q.begun else []) ++ begunOf back recordingId := by
  by_cases mine : q.recordingId = recordingId <;> simp [begunOf, ofRecording, mine]

theorem freshOf_eq_nil {back : List Part} {recordingId : Uuid} (none : ∀ q ∈ back, q.recordingId ≠ recordingId) :
    freshOf back recordingId = [] := by
  have : ofRecording back recordingId = [] := by
    rw [ofRecording, List.filter_eq_nil_iff]
    exact fun q h => by simpa using none q h
  rw [freshOf, this]
  rfl

theorem begunOf_eq_nil {back : List Part} {recordingId : Uuid} (none : ∀ q ∈ back, q.recordingId ≠ recordingId) :
    begunOf back recordingId = [] := by
  have : ofRecording back recordingId = [] := by
    rw [ofRecording, List.filter_eq_nil_iff]
    exact fun q h => by simpa using none q h
  rw [begunOf, this]
  rfl

theorem Ledger.part_ok (ledger : Ledger limits parts issued persisted begun) {q : Part} (member : q ∈ parts) :
    ∃ before, PartOk limits before q := by
  obtain ⟨front, back, rfl⟩ := List.append_of_mem member
  exact ⟨_, ledger.ok front q ⟨back, by simp⟩⟩

theorem Ledger.eq_of_id (ledger : Ledger limits parts issued persisted begun) {q r : Part} (hq : q ∈ parts)
    (hr : r ∈ parts) (same : q.id = r.id) : q = r :=
  List.inj_on_of_nodup_map ledger.ids hq hr same

theorem Ledger.issue (ledger : Ledger limits parts issued persisted begun) (id : Uuid) :
    Ledger limits parts (issued ++ [id]) persisted begun :=
  { ledger with known := fun q h => (ledger.known q h).imp (List.mem_append_left _) (List.mem_append_left _) }

theorem Ledger.snoc (ledger : Ledger limits parts issued persisted begun) {part : Part} (nothing : part.begun = [])
    (new : ∀ q ∈ parts, q.id ≠ part.id) (known : part.id ∈ issued ∧ part.recordingId ∈ issued)
    (above : ∀ q ∈ parts, q.recordingId = part.recordingId → q.header.index < part.header.index ∧ q.extra = none)
    (ok : PartOk limits (freshOf parts part.recordingId) part) :
    Ledger limits (parts ++ [part]) issued persisted begun := by
  have freshNone : part.fresh = [] := (List.append_eq_nil_iff.mp nothing).1
  refine ⟨?_, ?_, ?_, ?_, ?_, ?_⟩
  · rw [List.map_append, List.nodup_append]
    refine ⟨ledger.ids, List.nodup_singleton _, fun a ha b hb same => ?_⟩
    obtain ⟨q, hq, rfl⟩ := List.mem_map.mp ha
    exact new q hq (same.trans (List.mem_singleton.mp hb))
  · intro q member
    rcases List.mem_append.mp member with old | last
    · exact ledger.known q old
    · rw [List.mem_singleton.mp last]
      exact known
  · rw [List.pairwise_append]
    refine ⟨ledger.order, List.pairwise_singleton _ _, fun a ha b hb => ?_⟩
    rw [List.mem_singleton.mp hb]
    exact above a ha
  · intro recordingId
    rw [ledger.persisted, freshOf_append, freshOf_cons, freshNone]
    simp [freshOf, ofRecording]
  · intro recordingId
    rw [ledger.begun, begunOf_append, begunOf_cons, nothing]
    simp [begunOf, ofRecording]
  · intro front q within
    rcases List.prefix_concat_iff.mp within with whole | inside
    · obtain ⟨rfl, last⟩ := List.append_inj' whole rfl
      rw [List.singleton_inj.mp last]
      exact ok
    · exact ledger.ok front q inside

theorem prefix_append_cases {α : Type} {l a b : List α} (h : l <+: a ++ b) :
    l <+: a ∨ ∃ t, l = a ++ t ∧ t <+: b := by
  rcases List.prefix_or_prefix_of_prefix h (List.prefix_append a b) with inside | ⟨t, rfl⟩
  · exact .inl inside
  · exact .inr ⟨t, rfl, (List.prefix_append_right_inj a).mp h⟩

/-- The last part of a recording grows: packets begun, packets persisted. -/
theorem Ledger.replace {front back : List Part} {part : Part}
    (ledger : Ledger limits (front ++ part :: back) issued persisted begun) (part' : Part)
    (persisted' begun' : List Packet) (last : ∀ q ∈ back, q.recordingId ≠ part.recordingId)
    (header : part'.header = part.header) (freshIs : part'.fresh = part.fresh ++ persisted')
    (begunIs : part'.begun = part.begun ++ begun') (ok : PartOk limits (freshOf front part.recordingId) part') :
    Ledger limits (front ++ part' :: back) issued (persisted ++ persisted'.map (part.recordingId, ·))
      (begun ++ begun'.map (part.recordingId, ·)) := by
  have idIs : part'.id = part.id := congrArg Header.id header
  have recordingIs : part'.recordingId = part.recordingId := congrArg Header.recordingId header
  have logged : ∀ (packets : List Packet) (recordingId : Uuid),
      logOf (packets.map (part.recordingId, ·)) recordingId =
        if part.recordingId = recordingId then packets else [] := by
    intro packets recordingId
    by_cases mine : part.recordingId = recordingId
    · simp [logOf, mine, List.filter_map, Function.comp_def]
    · simp [logOf, mine, List.filter_map, Function.comp_def]
  refine ⟨?_, ?_, ?_, ?_, ?_, ?_⟩
  · have := ledger.ids
    rw [List.map_append, List.map_cons] at this ⊢
    rw [idIs]
    exact this
  · intro q member
    rcases List.mem_append.mp member with old | here
    · exact ledger.known q (List.mem_append_left _ old)
    · rcases List.mem_cons.mp here with rfl | old
      · rw [idIs, recordingIs]
        exact ledger.known part (by simp)
      · exact ledger.known q (by simp [old])
  · have order := ledger.order
    rw [List.pairwise_append, List.pairwise_cons] at order ⊢
    obtain ⟨left, ⟨-, right⟩, across⟩ := order
    refine ⟨left, ⟨fun b hb same => ?_, right⟩, fun a ha b hb => ?_⟩
    · exact absurd (same.symm.trans recordingIs) (last b hb)
    · rcases List.mem_cons.mp hb with rfl | old
      · intro same
        have := across a ha part List.mem_cons_self (same.trans recordingIs)
        rw [header]
        exact this
      · exact across a ha b (List.mem_cons_of_mem _ old)
  · intro recordingId
    have before := ledger.persisted recordingId
    rw [logOf_append, before, logged, freshOf_append, freshOf_cons, freshOf_append, freshOf_cons, recordingIs, freshIs]
    by_cases mine : part.recordingId = recordingId
    · simp only [if_pos mine, freshOf_eq_nil fun q h => mine ▸ last q h, List.append_nil, List.append_assoc]
    · simp only [if_neg mine, List.append_nil]
  · intro recordingId
    have before := ledger.begun recordingId
    rw [logOf_append, before, logged, begunOf_append, begunOf_cons, begunOf_append, begunOf_cons, recordingIs, begunIs]
    by_cases mine : part.recordingId = recordingId
    · simp only [if_pos mine, begunOf_eq_nil fun q h => mine ▸ last q h, List.append_nil, List.append_assoc]
    · simp only [if_neg mine, List.append_nil]
  · intro start q within
    rcases prefix_append_cases within with inside | ⟨t, whole, rest⟩
    · exact ledger.ok start q (inside.trans (List.prefix_append _ _))
    · cases t using List.reverseRecOn with
      | nil =>
          rw [List.append_nil] at whole
          exact ledger.ok start q (by rw [whole]; exact List.prefix_append _ _)
      | append_singleton mid r =>
          rw [← List.append_assoc] at whole
          obtain ⟨rfl, same⟩ := List.append_inj' whole rfl
          obtain rfl := List.singleton_inj.mp same
          cases mid with
          | nil =>
              have : q = part' := by simpa using rest
              rw [this, recordingIs, List.append_nil]
              exact ok
          | cons first others =>
              obtain ⟨rfl, within'⟩ := List.cons_prefix_cons.mp rest
              have inBack : q ∈ back := within'.subset (by simp)
              have old := ledger.ok (front ++ part :: others) q (by
                rw [List.append_assoc, List.prefix_append_right_inj]
                exact List.cons_prefix_cons.mpr ⟨rfl, within'⟩)
              have other : ¬ part.recordingId = q.recordingId := fun h => last q inBack h.symm
              rw [freshOf_append, freshOf_cons, if_neg other] at old
              rw [freshOf_append, freshOf_cons, recordingIs, if_neg other]
              exact old

/-- The last part of a recording, where the ledger splits. -/
theorem Ledger.split (ledger : Ledger limits parts issued persisted begun) {part : Part} (member : part ∈ parts)
    (last : ∀ q ∈ parts, q.recordingId = part.recordingId → q.header.index ≤ part.header.index) :
    ∃ front back, parts = front ++ part :: back ∧ ∀ q ∈ back, q.recordingId ≠ part.recordingId := by
  obtain ⟨front, back, rfl⟩ := List.append_of_mem member
  refine ⟨front, back, rfl, fun q inBack same => ?_⟩
  have order := ledger.order
  rw [List.pairwise_append, List.pairwise_cons] at order
  have := (order.2.1.1 q inBack same.symm).1
  have := last q (by simp [inBack]) same
  omega

end Parts

end OmiLocal.Capture
