import OmiLocal.Lib.Json
import OmiLocal.Capture.Opus

/-!
# The journal of one part

The bytes of `local_audio_outbox.dart`: magic, header length, JSON header, then
length-prefixed packets of which the first `preroll_frames` repeat earlier audio.
`header` and `recover` are the phone's own readers of such a file.
-/
namespace OmiLocal.Capture
open Lib.Framing Lib.Json

/-! ## Identifiers, digests and times -/

def isHex (c : Char) : Bool := (48 ≤ c.toNat && c.toNat ≤ 57) || (97 ≤ c.toNat && c.toNat ≤ 102)

/-- The text form 8-4-4-4-12 in lower case. `str(uuid.UUID(value)) == value` and
Dart's `Uuid().v4()` both mean this form. -/
def canonicalUuid (s : String) : Bool :=
  s.toList.length == 36 && s.toList.zipIdx.all fun p =>
    if p.2 = 8 ∨ p.2 = 13 ∨ p.2 = 18 ∨ p.2 = 23 then p.1 == '-' else isHex p.1

structure Uuid where
  text : String
  canonical : canonicalUuid text = true
  deriving DecidableEq

/-- `re.fullmatch('[0-9a-f]{64}', ..)`: a SHA-256 digest in hexadecimal. -/
def hexDigest (s : String) : Bool := s.toList.length == 64 && s.toList.all isHex

structure Digest where
  text : String
  canonical : hexDigest text = true
  deriving DecidableEq

def daysInMonth (year : Int) (month : Nat) : Nat :=
  if month = 2 then
    if year % 4 = 0 ∧ (year % 100 ≠ 0 ∨ year % 400 = 0) then 29 else 28
  else if month = 4 ∨ month = 6 ∨ month = 9 ∨ month = 11 then 30 else 31

/-- A UTC `DateTime` of Dart: a date of the proleptic calendar and a time of day. -/
structure DateTime where
  year : Int
  month : Nat
  day : Nat
  hour : Nat
  minute : Nat
  second : Nat
  millisecond : Nat
  microsecond : Nat
  month_range : 1 ≤ month ∧ month ≤ 12
  day_range : 1 ≤ day ∧ day ≤ daysInMonth year month
  time_range : hour < 24 ∧ minute < 60 ∧ second < 60 ∧ millisecond < 1000 ∧ microsecond < 1000
  deriving DecidableEq

/-- At least `width` decimal digits. -/
def padded (width n : Nat) : List Char :=
  List.replicate (width - (writeNat n).length) '0' ++ writeNat n

def yearText (year : Int) : List Char :=
  if -9999 ≤ year ∧ year ≤ 9999 then
    (if year < 0 then ['-'] else []) ++ padded 4 year.natAbs
  else (if year < 0 then ['-'] else ['+']) ++ padded 6 year.natAbs

/-- `DateTime.toIso8601String` of a UTC time; microseconds only when not zero. -/
def DateTime.toIso8601String (t : DateTime) : List Char :=
  yearText t.year ++ ['-'] ++ padded 2 t.month ++ ['-'] ++ padded 2 t.day ++ ['T'] ++
    padded 2 t.hour ++ [':'] ++ padded 2 t.minute ++ [':'] ++ padded 2 t.second ++ ['.'] ++
    padded 3 t.millisecond ++ (if t.microsecond = 0 then [] else padded 3 t.microsecond) ++ ['Z']

/-! ## Writing -/

structure Header where
  version : Nat
  id : Uuid
  recordingId : Uuid
  index : Nat
  source : Source
  codec : Codec
  startedAt : DateTime
  serverId : Digest
  prerollFrames : Nat
  deriving DecidableEq

def Header.fields (h : Header) : List (String × Value) :=
  [("version", .int h.version), ("id", .str h.id.text), ("recording_id", .str h.recordingId.text),
    ("index", .int h.index), ("source", .str h.source.name), ("codec", .str h.codec.name),
    ("started_at", .str (String.ofList h.startedAt.toIso8601String)),
    ("server_id", .str h.serverId.text), ("preroll_frames", .int h.prerollFrames)]

/-- `utf8.encode(jsonEncode(..))`. -/
def Header.encode (h : Header) : Bytes := encodeUtf8 (write compact (.obj h.fields))

def magic : Bytes := [79, 77, 73, 76, 79, 67, 49, 10]
def maxPartBytes : Nat := 16 * 1024 * 1024
def maxFrameBytes : Nat := 4096
def maxPartPackets : Nat := 60000

/-- The file up to its first packet. -/
def envelope (h : Header) : Bytes := magic ++ bigEndian32 h.encode.length ++ h.encode

/-- Everything `_open` writes: the envelope and the repeated packets. -/
def opening (h : Header) (preroll : List Packet) : Bytes := envelope h ++ encodeAll be32 preroll

/-! ## Reading on the phone -/

/-- `header['preroll_frames'] ?? 0` with the checks of `_header` on it. -/
def prerollFrames (fields : List (String × Value)) : Except String Nat :=
  let preroll : Option Int := match field "preroll_frames" fields with
    | none => some 0
    | some .null => some 0
    | some (.int n) => some n
    | some _ => none
  match preroll with
  | none => .error "Invalid local audio pre-roll"
  | some n =>
      if n < 0 ∨ n > 32 ∨ (intField "version" fields = some 1 ∧ n ≠ 0) ∨
          (intField "version" fields = some 2 ∧ (field "preroll_frames" fields).isNone) ∨
          (strField "codec" fields = some "pcm16" ∧ n ≠ 0) then
        .error "Invalid local audio pre-roll"
      else .ok n.toNat

/-- `LocalAudioOutbox._header`: the decoded fields, the pre-roll count and the
offset of the first packet. -/
def header (bytes : Bytes) : Except String (List (String × Value) × Nat × Nat) :=
  if bytes.length < 12 ∨ bytes.take 8 ≠ magic then .error "Invalid local audio journal"
  else
    let size := fromBigEndian ((bytes.drop 8).take 4)
    if size = 0 ∨ size > 4096 ∨ 12 + size > bytes.length then
      .error "Invalid local audio journal header"
    else
      match loads ((bytes.drop 12).take size) with
      | some (.obj fields) =>
          if (intField "version" fields ≠ some 1 ∧ intField "version" fields ≠ some 2) ∨
              (strField "id" fields).isNone ∨ (strField "server_id" fields).isNone then
            .error "Invalid local audio journal identity"
          else do
            let preroll ← prerollFrames fields
            return (fields, preroll, 12 + size)
      | _ => .error "Invalid local audio journal header"

/-- `_recover` up to its decision: the length to truncate to, or `none` when the
file holds decoder context alone and stays as it is. -/
def recoverPosition (bytes : Bytes) : Except String (Option Nat) :=
  if bytes.length > maxPartBytes then .error "Oversized local audio journal"
  else do
    let (_, preroll, start) ← header bytes
    match scan be32 maxFrameBytes bytes.length (bytes.drop start) with
    | none => .error "Invalid local audio packet"
    | some (packets, rest) =>
        if packets = [] ∨ packets.length ≤ preroll then return none
        else return some (bytes.length - rest.length)

/-! ## A part as its recording sees it -/

structure PartView where
  id : String
  recordingId : String
  index : Nat
  fresh : List Packet
  deriving DecidableEq, Repr

/-- The identity, the order and the fresh packets that the bytes of a part hold,
complete records only. A file without a complete header holds none. -/
def partView (bytes : Bytes) : Option PartView :=
  if bytes.length < 12 ∨ bytes.take 8 ≠ magic then none
  else
    let size := fromBigEndian ((bytes.drop 8).take 4)
    if bytes.length < 12 + size then none
    else
      match loads ((bytes.drop 12).take size) with
      | some (.obj fields) => do
          let id ← strField "id" fields
          let recording ← strField "recording_id" fields
          let index ← intField "index" fields
          let preroll ← intField "preroll_frames" fields
          let (packets, _) ← scan be32 maxFrameBytes bytes.length (bytes.drop (12 + size))
          return ⟨id, recording, index.toNat, packets.drop preroll.toNat⟩
      | _ => none

/-! ## The written header reads back -/

theorem plain_of_isHex {c : Char} (h : isHex c = true) : Plain c := by
  simp only [isHex, Bool.or_eq_true, Bool.and_eq_true, decide_eq_true_eq] at h
  refine ⟨?_, ?_, by omega⟩
  · rintro rfl; exact absurd h (by decide)
  · rintro rfl; exact absurd h (by decide)

theorem Uuid.plain (id : Uuid) : ∀ c ∈ id.text.toList, Plain c := by
  intro c member
  have canonical := id.canonical
  simp only [canonicalUuid, Bool.and_eq_true, List.all_eq_true] at canonical
  obtain ⟨i, inside, rfl⟩ := List.mem_iff_getElem.mp member
  have shape := canonical.2 (id.text.toList[i], i) (by
    rw [List.mem_zipIdx_iff_getElem?]
    simp [inside])
  dsimp only at shape
  split at shape
  · rw [beq_iff_eq] at shape
    rw [shape]
    exact ⟨by decide, by decide, by decide⟩
  · exact plain_of_isHex shape

theorem Digest.plain (digest : Digest) : ∀ c ∈ digest.text.toList, Plain c := by
  intro c member
  have canonical := digest.canonical
  simp only [hexDigest, Bool.and_eq_true, List.all_eq_true] at canonical
  exact plain_of_isHex (canonical.2 c member)

theorem isDigit_padded {width n : Nat} : ∀ c ∈ padded width n, Lib.Json.isDigit c = true := by
  intro c member
  rcases List.mem_append.mp member with zero | digit
  · rw [(List.mem_replicate.mp zero).2]
    decide
  · exact isDigit_writeNat n c digit

theorem DateTime.plain (t : DateTime) : ∀ c ∈ t.toIso8601String, Plain c := by
  have digits : ∀ width n, ∀ c ∈ padded width n, Plain c :=
    fun _ _ c member => plain_of_isDigit (isDigit_padded c member)
  have mark : ∀ c ∈ ['-', '+', 'T', ':', '.', 'Z'], Plain c := by
    simp only [List.mem_cons, List.not_mem_nil, or_false, Plain]
    rintro c (rfl | rfl | rfl | rfl | rfl | rfl) <;> decide
  have year : ∀ c ∈ yearText t.year, Plain c := by
    intro c member
    unfold yearText at member
    split at member <;> rcases List.mem_append.mp member with sign | number
    · split at sign <;> simp at sign
      subst sign
      exact mark _ (by simp)
    · exact digits _ _ c number
    · split at sign <;> simp at sign <;> subst sign <;> exact mark _ (by simp)
    · exact digits _ _ c number
  have micro : ∀ c ∈ (if t.microsecond = 0 then [] else padded 3 t.microsecond), Plain c := by
    intro c member
    split at member
    · simp at member
    · exact digits _ _ c member
  intro c member
  simp only [DateTime.toIso8601String, List.mem_append, List.mem_singleton] at member
  rcases member with ((((((((((((((h | rfl) | h) | rfl) | h) | rfl) | h) | rfl) | h) | rfl) | h) | rfl) | h) | h) | rfl)
  all_goals first
    | exact year c h
    | exact digits _ _ c h
    | exact micro c h
    | exact mark _ (by simp)

theorem Header.flat (h : Header) : Flat h.fields := by
  have source : ∀ c ∈ h.source.name.toList, Plain c := by
    cases h.source <;> simp [Source.name, Plain]
  have codec : ∀ c ∈ h.codec.name.toList, Plain c := by
    cases h.codec <;> simp [Codec.name, Plain]
  intro f member
  simp only [Header.fields, List.mem_cons, List.not_mem_nil, or_false] at member
  rcases member with rfl | rfl | rfl | rfl | rfl | rfl | rfl | rfl | rfl
  all_goals refine ⟨by simp [Plain], ?_⟩
  · exact .nat _
  · exact .str h.id.plain
  · exact .str h.recordingId.plain
  · exact .nat _
  · exact .str source
  · exact .str codec
  · exact .str (by simpa using h.startedAt.plain)
  · exact .str h.serverId.plain
  · exact .nat _

theorem Header.loads_encode (h : Header) : loads h.encode = some (.obj h.fields) :=
  loads_write (by simp [Header.fields]) h.flat

section Fields
variable (h : Header)

@[simp] theorem Header.version_field : intField "version" h.fields = some (h.version : Int) := rfl
@[simp] theorem Header.id_field : strField "id" h.fields = some h.id.text := rfl
@[simp] theorem Header.recording_field : strField "recording_id" h.fields = some h.recordingId.text := rfl
@[simp] theorem Header.index_field : intField "index" h.fields = some (h.index : Int) := rfl
@[simp] theorem Header.source_field : strField "source" h.fields = some h.source.name := rfl
@[simp] theorem Header.codec_field : strField "codec" h.fields = some h.codec.name := rfl
@[simp] theorem Header.started_field :
    strField "started_at" h.fields = some (String.ofList h.startedAt.toIso8601String) := rfl
@[simp] theorem Header.server_field : strField "server_id" h.fields = some h.serverId.text := rfl
@[simp] theorem Header.preroll_field :
    field "preroll_frames" h.fields = some (.int (h.prerollFrames : Int)) := rfl

end Fields

@[simp] theorem length_envelope (h : Header) : (envelope h).length = 12 + h.encode.length := by
  simp only [envelope, magic, bigEndian32, List.length_append, List.length_cons, List.length_nil]

/-- What the readers find at the front of a file that starts with an envelope. -/
theorem envelope_parts (h : Header) (countable : h.encode.length < 2 ^ 32) (rest : Bytes) :
    (envelope h ++ rest).take 8 = magic ∧
      fromBigEndian (((envelope h ++ rest).drop 8).take 4) = h.encode.length ∧
      ((envelope h ++ rest).drop 12).take h.encode.length = h.encode ∧
      (envelope h ++ rest).drop (12 + h.encode.length) = rest := by
  refine ⟨rfl, ?_, ?_, ?_⟩
  · exact fromBigEndian_bigEndian32 countable
  · change (h.encode ++ rest).take h.encode.length = h.encode
    simp
  · rw [← length_envelope, List.drop_left]

theorem partView_envelope (h : Header) (countable : h.encode.length < 2 ^ 32) {rest : Bytes}
    {packets : List Packet} {tail : Bytes}
    (scanned : scan be32 maxFrameBytes (envelope h ++ rest).length rest = some (packets, tail)) :
    partView (envelope h ++ rest) =
      some ⟨h.id.text, h.recordingId.text, h.index, packets.drop h.prerollFrames⟩ := by
  obtain ⟨start, size, text, body⟩ := envelope_parts h countable rest
  have long : (envelope h ++ rest).length = 12 + h.encode.length + rest.length := by simp
  have preroll : intField "preroll_frames" h.fields = some (h.prerollFrames : Int) := rfl
  unfold partView
  rw [if_neg (by simp only [start, ne_eq, not_true_eq_false, or_false]; omega)]
  simp only [size, text, body, h.loads_encode]
  rw [if_neg (by omega)]
  simp only [scanned, preroll, h.id_field, h.recording_field, h.index_field]
  rfl

theorem partView_short {h : Header} (countable : h.encode.length < 2 ^ 32) {bytes : Bytes}
    (front : bytes <+: envelope h) (cut : bytes.length < (envelope h).length) :
    partView bytes = none := by
  obtain ⟨rest, whole⟩ := front
  unfold partView
  split
  · rfl
  · rename_i enough
    have size : fromBigEndian ((bytes.drop 8).take 4) = h.encode.length := by
      have := (envelope_parts h countable []).2.1
      rw [List.append_nil, ← whole, List.drop_append_of_le_length (by omega),
        List.take_append_of_le_length (by simp; omega)] at this
      exact this
    rw [length_envelope] at cut
    simp only [size]
    rw [if_pos cut]

theorem header_short {h : Header} (countable : h.encode.length < 2 ^ 32) {bytes : Bytes}
    (front : bytes <+: envelope h) (cut : bytes.length < (envelope h).length) :
    ∃ e, header bytes = .error e := by
  obtain ⟨rest, whole⟩ := front
  unfold header
  split
  · exact ⟨_, rfl⟩
  · rename_i enough
    have size : fromBigEndian ((bytes.drop 8).take 4) = h.encode.length := by
      have := (envelope_parts h countable []).2.1
      rw [List.append_nil, ← whole, List.drop_append_of_le_length (by omega),
        List.take_append_of_le_length (by simp; omega)] at this
      exact this
    rw [length_envelope] at cut
    simp only [size]
    rw [if_pos (.inr (.inr (by omega)))]
    exact ⟨_, rfl⟩

theorem prerollFrames_fields {h : Header} {n : Nat} (ok : prerollFrames h.fields = .ok n) :
    n = h.prerollFrames := by
  unfold prerollFrames at ok
  rw [h.preroll_field] at ok
  dsimp only at ok
  split_ifs at ok with bad
  cases ok
  rfl

/-- `_header` reads every header that `_open` writes, while it stays below the limit. -/
theorem header_written {h : Header} (version : h.version = 2) (positive : 0 < h.encode.length)
    (small : h.encode.length ≤ 4096) (few : h.prerollFrames ≤ 32) (pcm : h.codec = .pcm16 → h.prerollFrames = 0)
    (rest : Bytes) : header (envelope h ++ rest) = .ok (h.fields, h.prerollFrames, 12 + h.encode.length) := by
  obtain ⟨start, size, text, -⟩ := envelope_parts h (by omega) rest
  have long : (envelope h ++ rest).length = 12 + h.encode.length + rest.length := by simp
  have two : intField "version" h.fields = some 2 := by
    rw [h.version_field, version]
    rfl
  have count : prerollFrames h.fields = .ok h.prerollFrames := by
    have opus : strField "codec" h.fields = some "pcm16" → h.prerollFrames = 0 := by
      intro named
      refine pcm ?_
      rw [h.codec_field] at named
      revert named
      cases h.codec <;> simp [Codec.name]
    unfold prerollFrames
    rw [h.preroll_field, two]
    dsimp only
    rw [if_neg]
    · rfl
    · rintro (negative | many | ⟨one, -⟩ | ⟨-, missing⟩ | ⟨named, some⟩)
      · omega
      · omega
      · cases one
      · cases missing
      · exact some (by rw [opus named]; rfl)
  unfold header
  rw [if_neg (by simp only [start, ne_eq, not_true_eq_false, or_false]; omega)]
  simp only [size, text, h.loads_encode]
  rw [if_neg (by omega), two, h.id_field, h.server_field, if_neg (by simp), count]
  rfl

theorem header_envelope {h : Header} (countable : h.encode.length < 2 ^ 32) {rest : Bytes}
    {fields : List (String × Value)} {preroll start : Nat}
    (ok : header (envelope h ++ rest) = .ok (fields, preroll, start)) :
    fields = h.fields ∧ preroll = h.prerollFrames ∧ start = (envelope h).length := by
  obtain ⟨-, size, text, -⟩ := envelope_parts h countable rest
  unfold header at ok
  split at ok
  · cases ok
  · simp only [size, text, h.loads_encode] at ok
    split at ok
    · cases ok
    · split at ok
      · cases ok
      · cases count : prerollFrames h.fields with
        | error e => rw [count] at ok; cases ok
        | ok n =>
            rw [count] at ok
            cases ok
            exact ⟨rfl, prerollFrames_fields count, (length_envelope h).symm⟩

end OmiLocal.Capture
