import OmiLocal.Capture.Progress
import OmiLocal.Delivery.Store

/-!
# The server takes what the phone seals

Every sealed file of every run keeps the bounds of `parse_part`,
`validate_preroll` and `decode_fresh_audio`, as long as the two values that the
phone does not bound, the part's order and the year of its clock, stay within
what the server can represent.
-/
namespace OmiLocal.Delivery
open Lib.Framing Lib.Json Lib.Transition Capture

/-! ## Decoding -/

/-- Whatever came before, the frame decodes to `size frame` bytes of whole samples. -/
def Yields (decode : Decoder) (size : Packet → Nat) (frame : Packet) : Prop :=
  ∀ seen, ∃ pcm, decode seen frame = some pcm ∧ pcm.length = size frame ∧ 0 < size frame ∧ size frame % 2 = 0

section Decoding

variable {decode : Decoder} {size : Packet → Nat} {preroll limit : Nat}

theorem decodeFrom_context {context : List Packet} (yields : ∀ frame ∈ context, Yields decode size frame)
    {seen : List Packet} (early : seen.length + context.length ≤ preroll) (pcm : Bytes) (fresh : List Packet) :
    decodeFrom decode preroll limit seen pcm (context ++ fresh) =
      decodeFrom decode preroll limit (seen ++ context) pcm fresh := by
  induction context generalizing seen with
  | nil => simp
  | cons frame context ih =>
      obtain ⟨decoded, found, length, positive, even⟩ := yields frame List.mem_cons_self seen
      have whole : ¬ (decoded = [] ∨ decoded.length % 2 = 1) := by
        rintro (rfl | odd)
        · simp at length
          omega
        · omega
      simp only [List.length_cons] at early
      rw [List.cons_append, decodeFrom, found]
      dsimp only
      rw [if_neg whole, if_pos (by omega), ih (fun f h => yields f (List.mem_cons_of_mem _ h))
        (by simp only [List.length_append, List.length_singleton]; omega)]
      simp

theorem decodeFrom_fresh {fresh : List Packet} (yields : ∀ frame ∈ fresh, Yields decode size frame)
    (seen : List Packet) (late : preroll ≤ seen.length) (pcm : Bytes)
    (room : pcm.length + (fresh.map size).sum ≤ limit) :
    ∃ out, decodeFrom decode preroll limit seen pcm fresh = .ok out ∧
      out.length = pcm.length + (fresh.map size).sum := by
  induction fresh generalizing seen pcm with
  | nil => exact ⟨pcm, rfl, rfl⟩
  | cons frame fresh ih =>
      obtain ⟨decoded, found, length, positive, even⟩ := yields frame List.mem_cons_self seen
      have whole : ¬ (decoded = [] ∨ decoded.length % 2 = 1) := by
        rintro (rfl | odd)
        · simp at length
          omega
        · omega
      simp only [List.map_cons, List.sum_cons] at room ⊢
      have longer : (pcm ++ decoded).length = pcm.length + size frame := by rw [List.length_append, length]
      rw [decodeFrom, found]
      dsimp only
      rw [if_neg whole, if_neg (by omega), if_neg (by omega)]
      obtain ⟨out, decodes, total⟩ := ih (fun f h => yields f (List.mem_cons_of_mem _ h))
        (seen ++ [frame]) (by simp only [List.length_append, List.length_singleton]; omega)
        (pcm ++ decoded) (by omega)
      exact ⟨out, decodes, by omega⟩

end Decoding

/-- The assumption on the Opus decoder: 16 samples of two bytes for each millisecond of the frame. -/
def DecodesExactly (opus : Decoder) : Prop :=
  ∀ seen frame duration, serverPacketMicroseconds frame = .ok duration →
    ∃ pcm, opus seen frame = some pcm ∧ pcm.length * 1000 = 32 * duration

/-- The decoder that `accept_part` uses for a codec. -/
def codecDecoder (opus : Decoder) : Codec → Decoder
  | .pcm16 => fun _ frame => some frame
  | _ => opus

/-- The bytes that a frame decodes to. -/
def pcmBytes (codec : Codec) (frame : Packet) : Nat :=
  match codec with
  | .pcm16 => frame.length
  | _ => 32 * microseconds codec frame / 1000

theorem pcmBytes_spec {opus : Decoder} (exact_ : DecodesExactly opus) {codec : Codec} {frame : Packet} {duration : Nat}
    (nonempty : frame ≠ []) (admitted : packetMicroseconds codec frame = .ok duration) :
    Yields (codecDecoder opus codec) (pcmBytes codec) frame ∧ pcmBytes codec frame * 125 ≤ 4 * duration + 3 := by
  have micros : microseconds codec frame = duration := by
    unfold microseconds
    rw [admitted]
    rfl
  by_cases pcm : codec = .pcm16
  · subst pcm
    unfold packetMicroseconds at admitted
    dsimp only at admitted
    have positive := List.length_pos_iff.mpr nonempty
    split at admitted
    · cases admitted
    · rename_i even
      cases admitted
      refine ⟨fun seen => ⟨frame, rfl, rfl, positive, ?_⟩, ?_⟩
      · change frame.length % 2 = 0
        omega
      · change frame.length * 125 ≤ _
        omega
  · have server := serverPacketMicroseconds_of_phone pcm admitted
    obtain ⟨least, -, whole⟩ := serverPacketMicroseconds_bounds server
    have size : pcmBytes codec frame = 32 * duration / 1000 := by
      cases codec with
      | pcm16 => contradiction
      | opus => rw [← micros]; rfl
      | opusFs320 => rw [← micros]; rfl
    have decoder : codecDecoder opus codec = opus := by
      cases codec with
      | pcm16 => contradiction
      | opus => rfl
      | opusFs320 => rfl
    rw [decoder]
    refine ⟨fun seen => ?_, by omega⟩
    obtain ⟨pcm, found, length⟩ := exact_ seen frame duration server
    exact ⟨pcm, found, by omega, by omega, by omega⟩

/-! ## The bounds of a part -/

section Parts

variable {before : List Packet} {part : Part}

theorem microseconds_le {codec : Codec} {frame : Packet} {duration : Nat} (small : frame.length ≤ maxFrameBytes)
    (admitted : packetMicroseconds codec frame = .ok duration) : duration ≤ 128000 := by
  by_cases pcm : codec = .pcm16
  · subst pcm
    unfold packetMicroseconds at admitted
    dsimp only at admitted
    split at admitted
    · cases admitted
    · cases admitted
      unfold maxFrameBytes at small
      omega
  · have := serverPacketMicroseconds_bounds (serverPacketMicroseconds_of_phone pcm admitted)
    omega

theorem part_audio (ok : PartOk defaultLimits before part) : audio part.header.codec part.begun ≤ 300000000 := by
  rcases ok.length with bounded | single
  · exact bounded
  · have packets := ok.packets
    have durations := ok.durations
    generalize part.begun = begun at *
    match begun, single with
    | [], _ => simp [audio]
    | [frame], _ =>
        obtain ⟨d, admitted⟩ := durations frame (by simp)
        have := microseconds_le (packets frame (by simp)).2 admitted
        simp only [audio, microseconds, List.map_cons, List.map_nil, List.sum_cons, List.sum_nil, admitted,
          Except.toOption, Option.getD_some]
        omega

theorem sum_pcmBytes {codec : Codec} {frames : List Packet}
    (each : ∀ frame ∈ frames, pcmBytes codec frame * 125 ≤ 4 * microseconds codec frame + 3) :
    (frames.map (pcmBytes codec)).sum * 125 ≤ 4 * audio codec frames + 3 * frames.length := by
  induction frames with
  | nil => simp
  | cons frame frames ih =>
      have first := each frame List.mem_cons_self
      have rest := ih fun f h => each f (List.mem_cons_of_mem _ h)
      simp only [audio, List.map_cons, List.sum_cons, List.length_cons] at *
      omega

theorem part_decodes {opus : Decoder} (exact_ : DecodesExactly opus) (ok : PartOk defaultLimits before part)
    {fresh : List Packet} (within : fresh <+: part.begun)
    (contextOk : ∀ frame ∈ part.preroll, ∃ d, packetMicroseconds part.header.codec frame = .ok d) :
    ∃ pcm, decodeFreshAudio (part.preroll ++ fresh) part.preroll.length (codecDecoder opus part.header.codec)
      maxPcmBytes = .ok pcm ∧ pcm.length ≤ maxPcmBytes := by
  obtain ⟨rest, all⟩ := within
  have inside : ∀ frame ∈ fresh, frame ∈ part.begun := fun frame h => all ▸ List.mem_append_left _ h
  have spec : ∀ frame ∈ fresh, Yields (codecDecoder opus part.header.codec) (pcmBytes part.header.codec) frame ∧
      pcmBytes part.header.codec frame * 125 ≤ 4 * microseconds part.header.codec frame + 3 := by
    intro frame member
    obtain ⟨d, admitted⟩ := ok.durations frame (inside frame member)
    have := pcmBytes_spec exact_ (ok.packets frame (List.mem_append_right _ (inside frame member))).1 admitted
    rw [microseconds, admitted]
    exact this
  have context : ∀ frame ∈ part.preroll,
      Yields (codecDecoder opus part.header.codec) (pcmBytes part.header.codec) frame := by
    intro frame member
    obtain ⟨d, admitted⟩ := contextOk frame member
    exact (pcmBytes_spec exact_ (ok.packets frame (List.mem_append_left _ member)).1 admitted).1
  have bytes := sum_pcmBytes fun frame h => (spec frame h).2
  have audio_ := part_audio ok
  have room := ok.room
  rw [← all] at audio_ room
  simp only [audio, List.map_append, List.sum_append, List.length_append, maxPartPackets] at audio_ room bytes
  have small : (fresh.map (pcmBytes part.header.codec)).sum ≤ maxPcmBytes := by
    unfold maxPcmBytes
    omega
  rw [decodeFreshAudio, decodeFrom_context context (by simp)]
  have late : part.preroll.length ≤ ([] ++ part.preroll).length := by simp
  have within : ([] : Bytes).length + (fresh.map (pcmBytes part.header.codec)).sum ≤ maxPcmBytes := by simpa using small
  obtain ⟨pcm, decoded, length⟩ := decodeFrom_fresh (fun frame h => (spec frame h).1) _ late [] within
  exact ⟨pcm, decoded, by simp only [List.length_nil] at length; omega⟩

/-- The context that the phone repeats is one that the server takes. -/
theorem part_context {limits : Limits} (ok : PartOk limits before part) : ContextOk part.header part.preroll := by
  rcases ok.context with none | ⟨opus, later, admitted, context, same, shortest⟩
  · exact .inl none
  · have bounds := timed_bounds opus admitted
    obtain ⟨few, total, tight, -⟩ := shortest_context_bounds (fun e h => (bounds e h).2) shortest
    exact .inr ⟨opus, later, context, same, fun e h => (bounds e (shortest.suffix.mem h)).1, few, shortest.enough,
      total, tight⟩

theorem part_context_admitted {limits : Limits} (ok : PartOk limits before part) :
    ∀ frame ∈ part.preroll, ∃ d, packetMicroseconds part.header.codec frame = .ok d := by
  intro frame member
  rcases ok.context with none | ⟨-, -, admitted, context, same, shortest⟩
  · rw [none] at member
    cases member
  · rw [same] at member
    obtain ⟨e, here, rfl⟩ := List.mem_map.mp member
    obtain ⟨packet, old, rfl⟩ := List.mem_map.mp (shortest.suffix.mem here)
    exact admitted packet old

theorem length_encodeAll_le {packets : List Packet} (small : ∀ p ∈ packets, p.length ≤ maxFrameBytes) :
    (encodeAll be32 packets).length ≤ 4100 * packets.length := by
  induction packets with
  | nil => simp
  | cons packet packets ih =>
      have first := small packet List.mem_cons_self
      have rest := ih fun p h => small p (List.mem_cons_of_mem _ h)
      have width : be32.width = 4 := rfl
      unfold maxFrameBytes at first
      rw [encodeAll_cons, List.length_append, length_record, List.length_cons, width]
      omega

/-- What the server bounds and the phone does not: the order of the part and the year of its clock. -/
def WithinServer (h : Header) : Prop := h.index ≤ 1000000000 ∧ 1 ≤ h.startedAt.year ∧ h.startedAt.year ≤ 9999

theorem part_deliverable {limits : Limits} (ok : PartOk limits before part) {fresh : List Packet}
    (within : fresh <+: part.begun) (some : fresh ≠ []) (server : WithinServer part.header) :
    Deliverable part.header part.preroll fresh := by
  obtain ⟨index, years⟩ := server
  obtain ⟨rest, all⟩ := within
  have inside : ∀ p ∈ part.preroll ++ fresh, p ∈ part.preroll ++ part.begun := by
    intro p member
    rw [← all]
    rcases List.mem_append.mp member with h | h
    · exact List.mem_append_left _ h
    · exact List.mem_append_right _ (List.mem_append_left _ h)
  have small : ∀ p ∈ part.preroll ++ fresh, p ≠ [] ∧ p.length ≤ maxFrameBytes := fun p h => ok.packets p (inside p h)
  refine ⟨ok.version, index, ok.format, years, ok.count, some, small, ?_, ?_, part_context ok⟩
  · have room := ok.room
    rw [← all] at room
    simp only [List.length_append] at room ⊢
    omega
  · rcases ok.size with bounded | single
    · rw [← all, encodeAll_append, ← List.append_assoc, List.length_append] at bounded
      omega
    · obtain ⟨-, header⟩ := length_header ok.version (by omega) (by rw [ok.count]; exact ok.few) years
      have packets := length_encodeAll_le fun p h => (small p h).2
      have few := ok.few
      rw [← all] at single
      rw [opening, List.append_assoc, ← encodeAll_append, List.length_append, length_envelope]
      simp only [List.length_append] at single packets
      unfold maxHeaderBytes at header
      unfold maxPartBytes
      omega

end Parts

/-! ## What the server does not take -/

theorem isoDate_sign {c : Char} (sign : Lib.Json.isDigit c = false) (rest : List Char) : isoDate (c :: rest) = none := by
  have none : fixedNat 4 (c :: rest) = none := by
    rw [fixedNat, if_neg]
    simp [sign]
  rw [isoDate, none]
  rfl

theorem isoDate_zero (rest : List Char) : isoDate (padded 4 0 ++ rest) = none := by
  rw [isoDate, fixedNat_padded (by omega) (by omega)]
  simp

/-- The year text of a year that `datetime` cannot hold starts with a sign or is zero. -/
theorem fromisoformat_years {t : DateTime}
    (read : fromisoformat (replaceZ (String.ofList t.toIso8601String)) ≠ none) : 1 ≤ t.year ∧ t.year ≤ 9999 := by
  have text : ∃ rest, (replaceZ (String.ofList t.toIso8601String)).toList = (yearText t.year).flatMap zOffset ++ rest := by
    change ∃ rest, (String.ofList ((String.ofList t.toIso8601String).toList.flatMap zOffset)).toList = _
    simp only [String.toList_ofList, DateTime.toIso8601String, List.flatMap_append, List.append_assoc]
    exact ⟨_, rfl⟩
  obtain ⟨rest, text⟩ := text
  have date : isoDate ((yearText t.year).flatMap zOffset ++ rest) ≠ none := by
    intro failed
    rw [fromisoformat, text, failed] at read
    exact read rfl
  by_contra outside
  refine date ?_
  rcases lt_trichotomy t.year 0 with negative | zero | positive
  · unfold yearText
    split <;> exact isoDate_sign (by decide) _
  · rw [zero, show (yearText 0).flatMap zOffset = padded 4 0 by decide]
    exact isoDate_zero rest
  · unfold yearText
    rw [if_neg (by omega), if_neg (by omega)]
    exact isoDate_sign (by decide) _

theorem checkHeader_bounds {h : Header} (checked : checkHeader python h.fields = .ok ()) : WithinServer h := by
  unfold checkHeader at checked
  simp only [h.id_field, h.recording_field, h.index_field, h.server_field, h.started_field, uuid, h.id.canonical,
    h.recordingId.canonical, h.serverId.canonical, if_true, not_true_eq_false, if_false, bind, Except.bind, pure,
    Except.pure, throw, throwThe, MonadExceptOf.throw] at checked
  split at checked
  · cases checked
  · split at checked
    · cases checked
    · rename_i index
      split at checked
      · cases checked
      · split at checked
        · cases checked
        · split at checked
          · cases checked
          · rename_i aware read
            refine ⟨by omega, fromisoformat_years ?_⟩
            rw [show fromisoformat _ = some aware from read]
            exact Option.some_ne_none aware

/-! ## Every sealed file of every run -/

/-- For every run with the default limits and every file that is sealed in it: the file holds a header, the repeated
packets and the packets that follow on what was persisted before; the repetition is empty or the shortest suffix of
80 ms of what was persisted before; its audio decodes within the limit; and `parse_part` returns exactly the written
fields and packets, if and only if the order and the year are within what the server represents. -/
theorem ready_parts_accepted {sha256 : Bytes → String} {opus : Decoder} (exact_ : DecodesExactly opus) {p : Phone}
    (run : Reachable (· = newPhone) (phoneStep defaultLimits sha256) p) {f : PartFile} (member : f ∈ p.files)
    (ready : f.ready = true) :
    ∃ (h : Header) (preroll fresh before after : List Packet), h.id = f.id ∧
      f.content = opening h preroll ++ encodeAll be32 fresh ∧
      logOf p.persisted h.recordingId = before ++ after ∧ (fresh <+: after ∨ ∃ packet, fresh = after ++ [packet]) ∧
      (preroll = [] ∨ ∃ context, preroll = context.map Prod.fst ∧
        Lib.Suffix.Shortest Prod.snd 80000 (timed h.codec before) context) ∧
      validatePreroll h.fields (preroll ++ fresh) = .ok preroll.length ∧
      (∃ pcm, decodeFreshAudio (preroll ++ fresh) preroll.length (codecDecoder opus h.codec) maxPcmBytes = .ok pcm ∧
        pcm.length ≤ maxPcmBytes) ∧
      (parsePart python f.content = .ok (h.fields, preroll ++ fresh) ↔ WithinServer h) := by
  obtain ⟨parts, inv⟩ := phone_run run
  obtain ⟨q, hq, same, -, sealed_⟩ := inv.files.held f member
  obtain ⟨kept, within, some, content⟩ := sealed_ ready
  obtain ⟨front, back, rfl⟩ := List.append_of_mem hq
  have ok := inv.ledger.ok front q ⟨back, by simp⟩
  have inside : q.fresh ++ kept <+: q.begun := (List.prefix_append_right_inj _).mpr within
  have log : logOf p.persisted q.recordingId = freshOf front q.recordingId ++ (q.fresh ++ freshOf back q.recordingId) := by
    rw [inv.ledger.persisted, freshOf_append, freshOf_cons, if_pos rfl]
  refine ⟨q.header, q.preroll, q.fresh ++ kept, freshOf front q.recordingId, q.fresh ++ freshOf back q.recordingId, same,
    content, log, ?_, ?_, validatePreroll_phone ok.version ok.count some (part_context ok),
    part_decodes exact_ ok inside (part_context_admitted ok), fun accepted => ?_, fun server => ?_⟩
  · cases kept with
    | nil =>
        left
        rw [List.append_nil]
        exact List.prefix_append _ _
    | cons packet others =>
        right
        cases extra : q.extra with
        | none =>
            rw [extra] at within
            cases List.prefix_nil.mp within
        | some last =>
            rw [extra] at within
            obtain ⟨-, none⟩ := List.cons_prefix_cons.mp within
            have later : freshOf back q.recordingId = [] := by
              refine freshOf_eq_nil fun q' hq' mine => ?_
              have order := (List.pairwise_append.mp inv.ledger.order).2.1
              have := ((List.pairwise_cons.mp order).1 q' hq' mine.symm).2
              rw [extra] at this
              cases this
            exact ⟨packet, by rw [later, List.prefix_nil.mp none, List.append_nil]⟩
  · rcases ok.context with none | ⟨-, -, -, context, isContext, shortest⟩
    · exact .inl none
    · exact .inr ⟨context, isContext, shortest⟩
  · exact checkHeader_bounds (parsePart_ok accepted).1
  · rw [content]
    exact parsePart_phone (part_deliverable ok inside some server)

/-! ## Long runs -/

def uuidFront : List Char := "00000000-0000-4000-8000-".toList

/-- Identifiers for runs of up to a billion parts and more. -/
def numberedText (n : Nat) : List Char := uuidFront ++ padded 12 n

theorem numbered_canonical {n : Nat} (small : n < 10 ^ 12) : canonicalUuid (String.ofList (numberedText n)) = true := by
  have length := length_padded (by decide) small
  have front : uuidFront.length = 24 := by decide
  have firsts : ∀ p ∈ uuidFront.zipIdx, (if p.2 = 8 ∨ p.2 = 13 ∨ p.2 = 18 ∨ p.2 = 23 then p.1 == '-' else isHex p.1) = true := by
    decide
  rw [canonicalUuid, String.toList_ofList, Bool.and_eq_true, numberedText, List.all_eq_true, List.zipIdx_append]
  refine ⟨by rw [List.length_append, front, length]; rfl, fun p member => ?_⟩
  rcases List.mem_append.mp member with h | h
  · exact firsts p h
  · obtain ⟨low, -, here⟩ := List.mem_zipIdx h
    have digit : p.1 ∈ padded 12 n := List.fst_mem_of_mem_zipIdx h
    have : Lib.Json.isDigit p.1 = true := isDigit_padded p.1 digit
    rw [front] at low
    rw [if_neg (by omega)]
    simp only [Lib.Json.isDigit, isHex, Bool.and_eq_true, Bool.or_eq_true, decide_eq_true_eq] at this ⊢
    exact .inl this

/-- Numbers beyond the width of the last group are not needed. -/
def numbered (n : Nat) : Uuid :=
  if small : n < 10 ^ 12 then ⟨String.ofList (numberedText n), numbered_canonical small⟩
  else ⟨"00000000-0000-4000-8000-000000000000", by decide⟩

theorem numbered_injective {m n : Nat} (hm : m < 10 ^ 12) (hn : n < 10 ^ 12) (same : numbered m = numbered n) : m = n := by
  rw [numbered, numbered, dif_pos hm, dif_pos hn] at same
  have texts : numberedText m = numberedText n := by
    have := congrArg (fun id : Uuid => id.text.toList) same
    simpa only [String.toList_ofList] using this
  have values := congrArg digitsValue (List.append_cancel_left texts)
  rw [digitsValue_padded, digitsValue_padded] at values
  exact values

section Runs

variable {sha256 : Bytes → String} {shelf : Shelf} {r : Recording} {id : Uuid} {now : DateTime}

/-- A packet and a checkpoint leave one sealed part. -/
theorem reaches_one_part (sha256 : Bytes → String) (between : Between r) (empty : shelf.files = []) (free : shelf.pendingBytes = 0)
    (new : id ∉ shelf.issued) (small : openingBytes (openHeader r id now) [] ≤ 5000) :
    ∃ (shelf' : Shelf) (r' : Recording), Reaches (localStep defaultLimits sha256) (shelf.phone r [] .start 0) (shelf'.phone r' [] .start 0) ∧
      Between r' ∧ r'.index = r.index + 1 ∧ shelf'.issued = shelf.issued ++ [id] ∧
      shelf'.files = [⟨id, true, opening (openHeader r id now) [] ++ encodeAll be32 [[1, 2]]⟩] := by
  let counted := countPacket (openedRecording r id now) [1, 2] 62
  let added := shelf.added r id now [1, 2]
  have recorded : Reaches (localStep defaultLimits sha256) (shelf.phone r [] .start 0) (added.phone counted [] .start 0) := by
    apply reaches_added between new (by rw [empty]; exact nofun) (by decide) rfl (by decide)
    rw [free]
    simp only [List.length_cons, List.length_nil, defaultLimits]
    omega
  have sealed_ : Reaches (localStep defaultLimits sha256) (added.phone counted [] .start 0)
      ({ added with files := sealFile added.files id }.phone { counted with handle := none, file := none } [] .start 0) :=
    reaches_sealed between.open_ between.sound rfl rfl
  refine ⟨_, _, recorded.trans sealed_, ⟨between.open_, between.sound, rfl, between.codec, between.preroll⟩, rfl, rfl, ?_⟩
  simp [added, Shelf.added, Shelf.append, empty, sealFile, changeFile, encodeAll_cons]

/-- The order of a recording's next part can become any number, one delivered part after the other. -/
theorem reaches_order (sha256 : Bytes → String) (now : DateTime) {n : Nat} (bound : n ≤ 1000000001) (serverId : Digest) (years : 1 ≤ now.year ∧ now.year ≤ 9999) :
    ∃ (shelf : Shelf) (r : Recording), Reachable (· = newPhone) (phoneStep defaultLimits sha256) (shelf.phone r [] .start 0) ∧ Between r ∧
      r.index = n ∧ shelf.files = [] ∧ shelf.pendingBytes = 0 ∧ ∀ id ∈ shelf.issued, ∃ k ≤ n, id = numbered k := by
  induction n with
  | zero =>
      have start : Reachable (· = newPhone) (phoneStep defaultLimits sha256) newPhone := .start rfl
      refine ⟨⟨[], 0, 0, [numbered 0], [], []⟩, startedRecording (numbered 0) serverId,
        start.after (reaches_phone (reaches_started (numbered 0) serverId)), startedRecording_between _ _, rfl, rfl, rfl,
        fun id member => ⟨0, le_refl 0, ?_⟩⟩
      exact List.mem_singleton.mp member
  | succ n ih =>
      obtain ⟨shelf, r, run, between, index, empty, free, known⟩ := ih (by omega)
      have new : numbered (n + 1) ∉ shelf.issued := by
        intro old
        obtain ⟨k, less, same⟩ := known _ old
        have := numbered_injective (by omega) (by omega) same
        omega
      have noContext : r.preroll.packets.length = 0 := by
        rw [between.preroll]
        rfl
      obtain ⟨positive, small⟩ := length_header (h := openHeader r (numbered (n + 1)) now) rfl
        (by change r.index < _; omega) (by change r.preroll.packets.length ≤ _; omega) years
      unfold maxHeaderBytes at small
      have opened : openingBytes (openHeader r (numbered (n + 1)) now) [] ≤ 5000 := by
        simp only [openingBytes, List.map_nil, List.sum_nil]
        omega
      obtain ⟨shelf', r', part, between', index', issued, files⟩ :=
        reaches_one_part sha256 between empty free new opened
      have read := header_written (h := openHeader r (numbered (n + 1)) now) rfl positive small
        (by change r.preroll.packets.length ≤ _; omega) (fun _ => noContext) (encodeAll be32 [] ++ encodeAll be32 [[1, 2]])
      rw [← List.append_assoc] at read
      have size : (opening (openHeader r (numbered (n + 1)) now) [] ++ encodeAll be32 [[1, 2]]).length ≤ maxPartBytes := by
        have packet : (encodeAll be32 [[1, 2]]).length = 6 := by decide
        rw [List.length_append, length_opening, packet]
        unfold maxPartBytes
        omega
      have delivered : Reaches (phoneStep defaultLimits sha256) (shelf'.phone r' [] .start 0)
          ({ shelf' with files := [], pendingBytes := 0, pendingParts := 0 }.phone r' [] .start 0) :=
        reaches_delivered files size read (Header.id_field _)
      refine ⟨_, r', (run.after (reaches_phone part)).after delivered, between', by rw [index', index], rfl, rfl,
        fun id member => ?_⟩
      rw [show ({ shelf' with files := [], pendingBytes := 0, pendingParts := 0 } : Shelf).issued = shelf'.issued from rfl,
        issued] at member
      rcases List.mem_append.mp member with old | fresh
      · obtain ⟨k, less, same⟩ := known id old
        exact ⟨k, by omega, same⟩
      · exact ⟨n + 1, le_refl _, List.mem_singleton.mp fresh⟩

theorem refused_of_outside {h : Header} (countable : h.encode.length < 2 ^ 32) (outside : ¬ WithinServer h) (rest : Bytes)
    (result : Fields × List Packet) : parsePart python (envelope h ++ rest) ≠ .ok result := by
  intro accepted
  obtain ⟨checked, read, -⟩ := parsePart_ok accepted
  obtain ⟨-, size, text, -⟩ := envelope_parts h countable rest
  rw [size, text] at read
  have same : result.1 = h.fields := (Value.obj.inj (Option.some.inj (h.loads_encode.symm.trans read))).symm
  rw [same] at checked
  exact outside (checkHeader_bounds checked)

end Runs

/-! ## Both bounds can be missed -/

def lateTime : DateTime := ⟨10000, 1, 1, 0, 0, 0, 0, 0, by decide, by decide, by decide⟩

/-- A run with a clock in the year 10000, and one with enough parts, seal a file that the server never takes. -/
theorem sealed_part_refused :
    (∃ p f, Reachable (· = newPhone) (phoneStep defaultLimits sampleEnv.sha256) p ∧ f ∈ p.files ∧ f.ready = true ∧
      (∃ h rest, f.content = envelope h ++ rest ∧ h.index = 0 ∧ h.startedAt = lateTime) ∧
      ∀ result, parsePart python f.content ≠ .ok result) ∧
    ∃ p f, Reachable (· = newPhone) (phoneStep defaultLimits sampleEnv.sha256) p ∧ f ∈ p.files ∧ f.ready = true ∧
      (∃ h rest, f.content = envelope h ++ rest ∧ h.index = 1000000001 ∧ h.startedAt = sampleTime) ∧
      ∀ result, parsePart python f.content ≠ .ok result := by
  constructor
  · have start : Reachable (· = newPhone) (phoneStep defaultLimits sampleEnv.sha256) newPhone := .start rfl
    have empty : (⟨[], 0, 0, [sampleHeader.recordingId], [], []⟩ : Shelf).files = [] := rfl
    have new : sampleHeader.id ∉ (⟨[], 0, 0, [sampleHeader.recordingId], [], []⟩ : Shelf).issued := by decide
    have small : openingBytes (openHeader (startedRecording sampleHeader.recordingId sampleHeader.serverId)
        sampleHeader.id lateTime) [] ≤ 5000 := by
      decide +kernel
    obtain ⟨shelf, r, part, -, -, -, files⟩ := reaches_one_part sampleEnv.sha256
      (startedRecording_between sampleHeader.recordingId sampleHeader.serverId) empty rfl new small
    have run := (start.after (reaches_phone (reaches_started sampleHeader.recordingId sampleHeader.serverId))).after
      (reaches_phone part)
    refine ⟨_, _, run, by rw [Shelf.phone, files]; exact List.mem_singleton_self _, rfl,
      ⟨openHeader (startedRecording sampleHeader.recordingId sampleHeader.serverId) sampleHeader.id lateTime,
        encodeAll be32 [] ++ encodeAll be32 [[1, 2]], by rw [opening, List.append_assoc], rfl, rfl⟩, ?_⟩
    · rw [opening, List.append_assoc]
      exact refused_of_outside (by decide +kernel) (fun inside => absurd inside.2.2 (by decide)) _
  · obtain ⟨shelf, r, run, between, index, empty, free, known⟩ := reaches_order sampleEnv.sha256 sampleTime
      (le_refl 1000000001) sampleHeader.serverId (by decide)
    have new : numbered 1000000002 ∉ shelf.issued := by
      intro old
      obtain ⟨k, less, same⟩ := known _ old
      have := numbered_injective (by omega) (by omega) same
      omega
    have noContext : r.preroll.packets.length = 0 := by
      rw [between.preroll]
      rfl
    obtain ⟨-, small⟩ := length_header (h := openHeader r (numbered 1000000002) sampleTime) rfl
      (by change r.index < _; omega) (by change r.preroll.packets.length ≤ _; omega)
      (by change 1 ≤ sampleTime.year ∧ sampleTime.year ≤ 9999; decide)
    unfold maxHeaderBytes at small
    have opened : openingBytes (openHeader r (numbered 1000000002) sampleTime) [] ≤ 5000 := by
      simp only [openingBytes, List.map_nil, List.sum_nil]
      omega
    obtain ⟨shelf', r', part, -, -, -, files⟩ := reaches_one_part sampleEnv.sha256 between empty free new opened
    refine ⟨_, _, run.after (reaches_phone part), by rw [Shelf.phone, files]; exact List.mem_singleton_self _, rfl,
      ⟨openHeader r (numbered 1000000002) sampleTime, encodeAll be32 [] ++ encodeAll be32 [[1, 2]],
        by rw [opening, List.append_assoc], index, rfl⟩, ?_⟩
    · rw [opening, List.append_assoc]
      refine refused_of_outside (by omega) (fun inside => ?_) _
      have : r.index ≤ 1000000000 := inside.1
      omega

/-- A decoder as the assumption wants it: silence of the right length. -/
def silence : Decoder := fun _ frame =>
  match serverPacketMicroseconds frame with
  | .error _ => none
  | .ok duration => some (List.replicate (32 * duration / 1000) 0)

theorem silence_exact : DecodesExactly silence := by
  intro seen frame duration admitted
  have := serverPacketMicroseconds_bounds admitted
  refine ⟨List.replicate (32 * duration / 1000) 0, by rw [silence, admitted], ?_⟩
  rw [List.length_replicate]
  omega

theorem ready_parts_accepted_first_part : ∃ p f, Reachable (· = newPhone) (phoneStep defaultLimits sampleEnv.sha256) p ∧
    f ∈ p.files ∧ f.ready = true ∧ ∃ result, parsePart python f.content = .ok result := by
  have start : Reachable (· = newPhone) (phoneStep defaultLimits sampleEnv.sha256) newPhone := .start rfl
  have empty : (⟨[], 0, 0, [sampleHeader.recordingId], [], []⟩ : Shelf).files = [] := rfl
  have new : sampleHeader.id ∉ (⟨[], 0, 0, [sampleHeader.recordingId], [], []⟩ : Shelf).issued := by decide
  have small : openingBytes (openHeader (startedRecording sampleHeader.recordingId sampleHeader.serverId)
      sampleHeader.id sampleTime) [] ≤ 5000 := by
    decide +kernel
  obtain ⟨shelf, r, part, -, -, -, files⟩ := reaches_one_part sampleEnv.sha256
    (startedRecording_between sampleHeader.recordingId sampleHeader.serverId) empty rfl new small
  have run := (start.after (reaches_phone (reaches_started sampleHeader.recordingId sampleHeader.serverId))).after
    (reaches_phone part)
  have member : ⟨sampleHeader.id, true, opening sampleHeader [] ++ encodeAll be32 [[1, 2]]⟩ ∈
      (shelf.phone r [] .start 0).files := by
    rw [Shelf.phone, files]
    exact List.mem_singleton_self _
  obtain ⟨h, preroll, fresh, -, -, -, content, -, -, -, -, -, accepted⟩ :=
    ready_parts_accepted silence_exact run member rfl
  refine ⟨_, _, run, member, rfl, _, accepted.mpr ?_⟩
  by_contra outside
  have starts : opening sampleHeader [] ++ encodeAll be32 [[1, 2]] =
      envelope h ++ (encodeAll be32 preroll ++ encodeAll be32 fresh) := by
    rw [← List.append_assoc]
    exact content
  have countable : h.encode.length < 2 ^ 32 := by
    have whole : (opening sampleHeader [] ++ encodeAll be32 [[1, 2]]).length < 1000 := by decide +kernel
    rw [starts, List.length_append, length_envelope] at whole
    omega
  have parsed := parsePart_phone sample_deliverable
  rw [starts] at parsed
  exact refused_of_outside countable outside _ _ parsed

end OmiLocal.Delivery
