import OmiLocal.Delivery.Part

/-!
# The phone's parts on the server

For the bytes that the journal writes, each check of `parsePart` and
`validatePreroll` follows from a bound that the phone keeps.
-/
namespace OmiLocal.Delivery
open Lib.Framing Lib.Json Capture

/-! ## Time of the header -/

theorem length_padded {width n : Nat} (positive : 0 < width) (h : n < 10 ^ width) :
    (padded width n).length = width := by
  have := length_writeNat_le positive h
  simp only [padded, List.length_append, List.length_replicate]
  omega

theorem digitsValue_padded (width n : Nat) : digitsValue (padded width n) = n := by
  have zeros : ∀ k, (List.replicate k '0').foldl (fun n c => 10 * n + (c.toNat - 48)) 0 = 0 := by
    intro k
    induction k with
    | zero => rfl
    | succ k ih => rw [List.replicate_succ', List.foldl_append, ih]; rfl
  rw [padded, digitsValue, List.foldl_append, zeros]
  exact digitsValue_writeNat n

theorem fixedNat_padded {width n : Nat} (positive : 0 < width) (h : n < 10 ^ width)
    (rest : List Char) : fixedNat width (padded width n ++ rest) = some (n, rest) := by
  have size := length_padded positive h
  have front : (padded width n ++ rest).take width = padded width n := List.take_left' size
  have back : (padded width n ++ rest).drop width = rest := List.drop_left' size
  have digits : (padded width n).all Lib.Json.isDigit = true :=
    List.all_eq_true.mpr isDigit_padded
  rw [fixedNat, front, back, if_pos ⟨size, digits⟩, digitsValue_padded]

theorem expectChar_cons (c : Char) (rest : List Char) : expectChar c (c :: rest) = some rest := by
  simp [expectChar]

def zOffset (c : Char) : List Char := if c = 'Z' then "+00:00".toList else [c]

theorem replaceZ_padded (width n : Nat) : (padded width n).flatMap zOffset = padded width n := by
  have same : ∀ cs : List Char, (∀ c ∈ cs, Lib.Json.isDigit c = true) → cs.flatMap zOffset = cs := by
    intro cs digits
    induction cs with
    | nil => rfl
    | cons c cs ih =>
        have other : c ≠ 'Z' := by
          rintro rfl
          exact absurd (digits 'Z' (by simp)) (by decide)
        rw [List.flatMap_cons, ih (fun d hd => digits d (List.mem_cons_of_mem c hd)), zOffset,
          if_neg other]
        rfl
  exact same _ isDigit_padded

/-- The text that `fromisoformat` gets for a time of the years 1 to 9999. -/
theorem replaceZ_started {t : DateTime} (years : 1 ≤ t.year ∧ t.year ≤ 9999) :
    (replaceZ (String.ofList t.toIso8601String)).toList =
      padded 4 t.year.natAbs ++ '-' :: (padded 2 t.month ++ '-' :: (padded 2 t.day ++ 'T' ::
        (padded 2 t.hour ++ ':' :: (padded 2 t.minute ++ ':' :: (padded 2 t.second ++ '.' ::
          (padded 3 t.millisecond ++ ((if t.microsecond = 0 then [] else padded 3 t.microsecond) ++
            "+00:00".toList))))))) := by
  have year : yearText t.year = padded 4 t.year.natAbs := by
    rw [yearText, if_pos (by omega), if_neg (by omega), List.nil_append]
  have micro : (if t.microsecond = 0 then [] else padded 3 t.microsecond).flatMap zOffset =
      if t.microsecond = 0 then [] else padded 3 t.microsecond := by
    split
    · rfl
    · exact replaceZ_padded 3 _
  have mark : ∀ c : Char, c ≠ 'Z' → zOffset c = [c] := fun c h => if_neg h
  change (String.ofList ((String.ofList t.toIso8601String).toList.flatMap zOffset)).toList = _
  simp only [String.toList_ofList, DateTime.toIso8601String, year, List.flatMap_append,
    replaceZ_padded, micro, List.flatMap_cons, List.flatMap_nil, List.append_nil,
    mark '-' (by decide), mark 'T' (by decide), mark ':' (by decide), mark '.' (by decide),
    List.append_assoc, List.cons_append, List.nil_append]
  rfl

theorem isoFraction_started (t : DateTime) (rest : List Char)
    (stop : ∀ c ∈ rest.head?, Lib.Json.isDigit c = false) :
    isoFraction (padded 3 t.millisecond ++
      ((if t.microsecond = 0 then [] else padded 3 t.microsecond) ++ rest)) = some rest := by
  obtain ⟨-, -, -, milli, micro⟩ := t.time_range
  have first := length_padded (by omega) (show t.millisecond < 10 ^ 3 by omega)
  by_cases zero : t.microsecond = 0
  · have none : fixedNat 6 (padded 3 t.millisecond ++ rest) = none := by
      rw [fixedNat, if_neg]
      rintro ⟨length, digits⟩
      rw [List.take_append, List.length_append, first] at length
      cases rest with
      | nil => simp at length; omega
      | cons c rest =>
          rw [List.take_append, first] at digits
          simp [stop c rfl] at digits
    simp only [zero, if_true, List.nil_append, isoFraction, none,
      fixedNat_padded (by omega) (show t.millisecond < 10 ^ 3 by omega)]
    rfl
  · have second := length_padded (by omega) (show t.microsecond < 10 ^ 3 by omega)
    have both : fixedNat 6 (padded 3 t.millisecond ++ (padded 3 t.microsecond ++ rest)) =
        some (digitsValue (padded 3 t.millisecond ++ padded 3 t.microsecond), rest) := by
      have size : (padded 3 t.millisecond ++ padded 3 t.microsecond).length = 6 := by
        rw [List.length_append, first, second]
      have digits : (padded 3 t.millisecond ++ padded 3 t.microsecond).all Lib.Json.isDigit = true := by
        rw [List.all_append, List.all_eq_true.mpr isDigit_padded, List.all_eq_true.mpr isDigit_padded]
        rfl
      rw [← List.append_assoc, fixedNat, List.take_left' size, List.drop_left' size,
        if_pos ⟨size, digits⟩]
    rw [if_neg zero, isoFraction, both]

theorem fromisoformat_started {t : DateTime} (years : 1 ≤ t.year ∧ t.year ≤ 9999) :
    fromisoformat (replaceZ (String.ofList t.toIso8601String)) = some true := by
  obtain ⟨hour, minute, second, -, -⟩ := t.time_range
  have day : t.day ≤ 31 := by
    have := t.day_range.2
    unfold daysInMonth at this
    split_ifs at this <;> omega
  have month := t.month_range
  have date : isoDate (padded 4 t.year.natAbs ++ '-' :: (padded 2 t.month ++ '-' ::
      (padded 2 t.day ++ 'T' :: (padded 2 t.hour ++ ':' :: (padded 2 t.minute ++ ':' ::
        (padded 2 t.second ++ '.' :: (padded 3 t.millisecond ++
          ((if t.microsecond = 0 then [] else padded 3 t.microsecond) ++ "+00:00".toList)))))))) =
      some ('T' :: (padded 2 t.hour ++ ':' :: (padded 2 t.minute ++ ':' ::
        (padded 2 t.second ++ '.' :: (padded 3 t.millisecond ++
          ((if t.microsecond = 0 then [] else padded 3 t.microsecond) ++ "+00:00".toList)))))) := by
    have back : ((t.year.natAbs : Nat) : Int) = t.year := by omega
    simp only [isoDate, fixedNat_padded (by omega) (show t.year.natAbs < 10 ^ 4 by omega),
      fixedNat_padded (by omega) (show t.month < 10 ^ 2 by omega),
      fixedNat_padded (by omega) (show t.day < 10 ^ 2 by omega),
      expectChar_cons, Option.bind_eq_bind, Option.bind_some, back]
    rw [if_pos ⟨by omega, month.1, month.2, t.day_range⟩]
  have clock : isoClock (padded 2 t.hour ++ ':' :: (padded 2 t.minute ++ ':' ::
      (padded 2 t.second ++ '.' :: (padded 3 t.millisecond ++
        ((if t.microsecond = 0 then [] else padded 3 t.microsecond) ++ "+00:00".toList))))) =
      some "+00:00".toList := by
    simp only [isoClock, fixedNat_padded (by omega) (show t.hour < 10 ^ 2 by omega),
      fixedNat_padded (by omega) (show t.minute < 10 ^ 2 by omega),
      fixedNat_padded (by omega) (show t.second < 10 ^ 2 by omega),
      expectChar_cons, Option.bind_eq_bind, Option.bind_some]
    rw [if_neg (by omega), if_neg (by omega), if_neg (by omega)]
    exact isoFraction_started t _ (by simp; decide)
  unfold fromisoformat
  rw [replaceZ_started years, date]
  simp only [Option.bind_eq_bind, Option.bind_some, clock]
  decide

/-! ## Size of the header -/

theorem length_started {t : DateTime} (years : 1 ≤ t.year ∧ t.year ≤ 9999) :
    t.toIso8601String.length ≤ 27 := by
  obtain ⟨hour, minute, second, milli, micro⟩ := t.time_range
  have day : t.day ≤ 31 := by
    have := t.day_range.2
    unfold daysInMonth at this
    split_ifs at this <;> omega
  have month := t.month_range
  have year : yearText t.year = padded 4 t.year.natAbs := by
    rw [yearText, if_pos (by omega), if_neg (by omega), List.nil_append]
  have last : (if t.microsecond = 0 then [] else padded 3 t.microsecond).length ≤ 3 := by
    split
    · simp
    · exact (length_padded (by omega) (by omega)).le
  have y := length_padded (by omega) (show t.year.natAbs < 10 ^ 4 by omega)
  have mo := length_padded (by omega) (show t.month < 10 ^ 2 by omega)
  have d := length_padded (by omega) (show t.day < 10 ^ 2 by omega)
  have h := length_padded (by omega) (show t.hour < 10 ^ 2 by omega)
  have mi := length_padded (by omega) (show t.minute < 10 ^ 2 by omega)
  have s := length_padded (by omega) (show t.second < 10 ^ 2 by omega)
  have ms := length_padded (by omega) (show t.millisecond < 10 ^ 3 by omega)
  simp only [DateTime.toIso8601String, year, List.length_append, List.length_cons, List.length_nil,
    y, mo, d, h, mi, s, ms]
  omega

theorem length_uuid (id : Uuid) : id.text.toList.length = 36 := by
  have canonical := id.canonical
  simp only [canonicalUuid, Bool.and_eq_true, beq_iff_eq] at canonical
  exact canonical.1

theorem length_digest (digest : Digest) : digest.text.toList.length = 64 := by
  have canonical := digest.canonical
  simp only [hexDigest, Bool.and_eq_true, beq_iff_eq] at canonical
  exact canonical.1

theorem length_writeString {s : String} (plain : ∀ c ∈ s.toList, Plain c) :
    (writeString s).length = s.toList.length + 2 := by
  simp [writeString_plain plain]

/-- A header within the server's order bound is far below its header limit. -/
theorem length_header {h : Header} (version : h.version = 2) (index : h.index < 10 ^ 10)
    (preroll : h.prerollFrames ≤ 32) (years : 1 ≤ h.startedAt.year ∧ h.startedAt.year ≤ 9999) :
    0 < h.encode.length ∧ h.encode.length ≤ maxHeaderBytes := by
  have flat := h.flat
  have plain : ∀ f ∈ h.fields, (writeString f.1).length = f.1.toList.length + 2 :=
    fun f member => length_writeString (flat f member).1
  have value : ∀ s : String, Scalar (.str s) → (writeString s).length = s.toList.length + 2 := by
    intro s scalar
    cases scalar with
    | str plain => exact length_writeString plain
  have source : h.source.name.toList.length ≤ 5 := by cases h.source <;> decide
  have codec : h.codec.name.toList.length ≤ 10 := by cases h.codec <;> decide
  have started := length_started years
  have order := length_writeNat_le (by omega) index
  have context := length_writeNat_le (by omega) (show h.prerollFrames < 10 ^ 2 by omega)
  have number : (writeNat h.version).length = 1 := by rw [version]; decide
  have bytes := length_encodeUtf8 (write compact (.obj h.fields))
  have text : 0 < (write compact (.obj h.fields)).length ∧
      (write compact (.obj h.fields)).length ≤ 400 := by
    unfold Flat at flat
    simp only [Header.fields, List.mem_cons, List.not_mem_nil, or_false, forall_eq_or_imp,
      forall_eq] at plain flat
    obtain ⟨k1, k2, k3, k4, k5, k6, k7, k8, k9⟩ := plain
    obtain ⟨-, v2, v3, -, v5, v6, v7, v8, -⟩ := flat
    simp only [Header.fields, write, writeFields, compact, writeInt, List.length_append,
      List.length_cons, List.length_nil, k1, k2, k3, k4, k5, k6, k7, k8, k9, value _ v2.2,
      value _ v3.2, value _ v5.2, value _ v6.2, value _ v7.2, value _ v8.2, length_uuid,
      length_digest, String.toList_ofList]
    simp only [String.reduceToList, List.length_cons, List.length_nil]
    omega
  unfold Header.encode maxHeaderBytes
  omega

/-! ## Packets and pre-roll -/

theorem readFrames_record {frame : Packet} (fits : Fits be32 serverFrameBytes frame) (fuel count : Nat)
    (rest : Bytes) (room : count + 1 ≤ maxFrames) :
    readFrames (fuel + 1) count (record be32 frame ++ rest) =
      (readFrames fuel (count + 1) rest).map (frame :: ·) := by
  rw [readFrames.eq_def]
  split
  · rename_i empty
    simp [record, be32, bigEndian32] at empty
  · contradiction
  · rename_i same nonempty
    cases same
    rw [head_record fits]
    dsimp only
    rw [if_neg (by omega)]

theorem readFrames_encodeAll {frames : List Packet} (fits : ∀ p ∈ frames, Fits be32 serverFrameBytes p)
    {fuel count : Nat} (enough : frames.length ≤ fuel) (room : count + frames.length ≤ maxFrames) :
    readFrames fuel count (encodeAll be32 frames) = .ok frames := by
  induction frames generalizing fuel count with
  | nil => rw [encodeAll_nil, readFrames]
  | cons frame frames ih =>
      simp only [List.length_cons] at enough room
      obtain ⟨fuel, rfl⟩ : ∃ k, fuel = k + 1 := ⟨fuel - 1, by omega⟩
      rw [encodeAll_cons, readFrames_record (fits frame (by simp)) fuel count _ (by omega),
        ih (fun p hp => fits p (List.mem_cons_of_mem frame hp)) (by omega) (by omega)]
      rfl

theorem mapM_durations {context : List (Packet × Nat)}
    (durations : ∀ e ∈ context, serverPacketMicroseconds e.1 = .ok e.2) :
    (context.map Prod.fst).mapM serverPacketMicroseconds = .ok (context.map Prod.snd) := by
  induction context with
  | nil => rfl
  | cons e context ih =>
      rw [List.map_cons, List.mapM_cons, durations e (by simp),
        ih (fun x hx => durations x (List.mem_cons_of_mem e hx))]
      rfl

/-- The context packets that the server takes: an earlier Opus suffix of 80 ms. -/
def ContextOk (h : Header) (preroll : List Packet) : Prop :=
  preroll = [] ∨ h.codec ≠ .pcm16 ∧ 0 < h.index ∧ ∃ context : List (Packet × Nat),
    preroll = context.map Prod.fst ∧ (∀ e ∈ context, serverPacketMicroseconds e.1 = .ok e.2) ∧
    context.length ≤ 32 ∧ 80000 ≤ Lib.Suffix.total Prod.snd context ∧
    Lib.Suffix.total Prod.snd context < 200000 ∧
    Lib.Suffix.total Prod.snd context - (context.headD ([], 0)).2 < 80000

theorem validatePreroll_phone {h : Header} {preroll fresh : List Packet} (version : h.version = 2)
    (count : h.prerollFrames = preroll.length) (some : fresh ≠ []) (context : ContextOk h preroll) :
    validatePreroll h.fields (preroll ++ fresh) = .ok preroll.length := by
  have two : intField "version" h.fields = Option.some 2 := by rw [h.version_field, version]; rfl
  have frames : field "preroll_frames" h.fields = Option.some (.int preroll.length) := by
    rw [h.preroll_field, count]
  have positive : 0 < fresh.length := List.length_pos_iff.mpr some
  have longer : ¬ ((preroll ++ fresh).length : Int) ≤ preroll.length := by
    rw [List.length_append]
    omega
  unfold validatePreroll
  rw [frames]
  dsimp only
  rw [if_neg (by rw [two]; simp)]
  rcases context with rfl | ⟨opus, later, context, same, durations, small, enough, total, tight⟩
  · rw [if_neg (by simp [maxPrerollFrames, some])]
    rfl
  · have codec : strField "codec" h.fields ≠ Option.some "pcm16" := by
      rw [h.codec_field]
      revert opus
      cases h.codec <;> simp [Codec.name]
    have index : intField "index" h.fields ≠ Option.some 0 := by
      rw [h.index_field]
      simp
      omega
    have length : preroll.length = context.length := by rw [same, List.length_map]
    have nonempty : 0 < context.length := by
      cases context with
      | nil => simp at enough
      | cons e context => simp
    have sum : (context.map Prod.snd).sum = Lib.Suffix.total Prod.snd context := rfl
    have first : (context.map Prod.snd).headD 0 = (context.headD ([], 0)).2 := by
      cases context <;> rfl
    have front : (preroll ++ fresh).take ((preroll.length : Int).toNat) = context.map Prod.fst := by
      simp [same]
    rw [if_neg (by unfold maxPrerollFrames; omega), if_neg (by omega), if_neg (by rw [two]; simp),
      if_neg (not_or.mpr ⟨codec, index⟩), front, mapM_durations durations]
    change (if _ then _ else _ : Except String Nat) = _
    rw [if_neg (by rw [sum, first]; omega)]
    simp

theorem validatePreroll_count {h : Header} {frames : List Packet} {preroll : Nat}
    (valid : validatePreroll h.fields frames = .ok preroll) : preroll = h.prerollFrames := by
  unfold validatePreroll at valid
  rw [h.preroll_field] at valid
  dsimp only at valid
  split at valid
  · cases valid
  · split at valid
    · cases valid
    · split at valid
      · rename_i zero
        cases valid
        omega
      · split at valid
        · cases valid
        · split at valid
          · cases valid
          · cases durations : (frames.take (h.prerollFrames : Int).toNat).mapM serverPacketMicroseconds with
            | error e =>
                rw [durations] at valid
                cases valid
            | ok found =>
                rw [durations] at valid
                simp only [bind, Except.bind] at valid
                split at valid
                · cases valid
                · cases valid
                  rfl

/-- The bounds under which the bytes of a part are accepted. -/
structure Deliverable (h : Header) (preroll fresh : List Packet) : Prop where
  version : h.version = 2
  index : h.index ≤ 1000000000
  format : supportedFormat h.source h.codec = true
  years : 1 ≤ h.startedAt.year ∧ h.startedAt.year ≤ 9999
  count : h.prerollFrames = preroll.length
  some : fresh ≠ []
  packets : ∀ p ∈ preroll ++ fresh, p ≠ [] ∧ p.length ≤ maxFrameBytes
  room : (preroll ++ fresh).length ≤ maxPartPackets
  size : (opening h preroll ++ encodeAll be32 fresh).length ≤ maxPartBytes
  context : ContextOk h preroll

theorem ContextOk.length_le {h : Header} {preroll : List Packet} (context : ContextOk h preroll) :
    preroll.length ≤ 32 := by
  rcases context with rfl | ⟨-, -, context, rfl, -, small, -⟩
  · simp
  · simpa using small

theorem checkHeader_phone {h : Header} {preroll fresh : List Packet} (ok : Deliverable h preroll fresh) :
    checkHeader python h.fields = .ok () := by
  have two : intField "version" h.fields = Option.some 2 := by rw [h.version_field, ok.version]; rfl
  have index : (0 : Int) ≤ h.index ∧ (h.index : Int) ≤ 1000000000 := by
    have := ok.index
    omega
  have pair : supportedPair h.fields = true := by
    have format := ok.format
    revert format
    unfold supportedPair
    rw [h.source_field, h.codec_field]
    cases h.source <;> cases h.codec <;> simp [supportedFormat, Source.name, Codec.name]
  have length : ¬ (h.startedAt.toIso8601String.length > 40) := by
    have := length_started ok.years
    omega
  unfold checkHeader
  simp only [two, h.id_field, h.recording_field, h.index_field, h.server_field, h.started_field,
    uuid, h.id.canonical, h.recordingId.canonical, h.serverId.canonical, pair, index, length,
    String.toList_ofList, python, fromisoformat_started ok.years]
  rfl

theorem parsePart_phone {h : Header} {preroll fresh : List Packet} (ok : Deliverable h preroll fresh) :
    parsePart python (opening h preroll ++ encodeAll be32 fresh) = .ok (h.fields, preroll ++ fresh) := by
  have preroll32 := ok.context.length_le
  obtain ⟨positive, small⟩ := length_header ok.version (by have := ok.index; omega) (by rw [ok.count]; exact preroll32) ok.years
  have size := ok.size
  have body : opening h preroll ++ encodeAll be32 fresh =
      envelope h ++ encodeAll be32 (preroll ++ fresh) := by
    simp [opening]
  rw [body] at size ⊢
  have long : (envelope h ++ encodeAll be32 (preroll ++ fresh)).length =
      12 + h.encode.length + (encodeAll be32 (preroll ++ fresh)).length := by simp
  obtain ⟨start, header, text, rest⟩ := envelope_parts h
    (by unfold maxHeaderBytes at small; omega) (encodeAll be32 (preroll ++ fresh))
  have fits : ∀ p ∈ preroll ++ fresh, Fits be32 serverFrameBytes p := by
    intro p member
    obtain ⟨nonempty, short⟩ := ok.packets p member
    unfold maxFrameBytes at short
    exact ⟨nonempty, short, by change p.length < 2 ^ 32; omega⟩
  have frames : readFrames (envelope h ++ encodeAll be32 (preroll ++ fresh)).length 0
      (encodeAll be32 (preroll ++ fresh)) = .ok (preroll ++ fresh) := by
    apply readFrames_encodeAll fits
    · have := length_le_encodeAll be32 (preroll ++ fresh) (by decide)
      omega
    · have := ok.room
      unfold maxPartPackets at this
      unfold maxFrames
      omega
  have nonempty : preroll ++ fresh ≠ [] := by simp [ok.some]
  unfold maxPartBytes at size
  unfold parsePart
  rw [if_neg (by rw [start]; simp only [maxBodyBytes, ne_eq, not_true_eq_false, or_false]; omega)]
  dsimp only
  rw [header, text, rest, if_neg (by omega)]
  simp only [python, h.loads_encode]
  have checked := checkHeader_phone ok
  simp only [python] at checked
  rw [checked, frames]
  simp only [Except.bind, bind, if_neg nonempty, validatePreroll_phone ok.version ok.count ok.some ok.context]
  rfl

end OmiLocal.Delivery
