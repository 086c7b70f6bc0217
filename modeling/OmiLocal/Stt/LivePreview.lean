import OmiLocal.Lib.Decimal
import OmiLocal.Lib.Fallible
import OmiLocal.Lib.Text
import OmiLocal.Lib.Values
import OmiLocal.Lib.Transition

/-!
# The live preview

`PreviewSegment` turns each snapshot of the provider into the complete list of
preview rows, with a revision for every change. Times are exact; a number that is
not finite fails the checks as a text does. The digits that `\d` and `int` accept
are the language's.
-/
namespace OmiLocal.Stt

open Lib Lib.Text Lib.Values Lib.Fallible Lib.Transition

namespace Preview

/-- The value of a decimal digit of any script. -/
abbrev Digits := Char → Option Nat

structure Row where
  id : String
  text : String
  start : ℚ
  stop : ℚ
  speaker : Option String
  speakerId : Int
  isUser : Bool
  sttProvider : String
  isDraft : Bool
  translations : List (String × String)
deriving DecidableEq

structure PreviewSegment where
  id : String
  text : String
  segments : List Row
  revision : Nat
  diarization : Bool
  configuredDiarization : Bool
  provider : String
  lastSnapshot : Option Entries

def PreviewSegment.new (id : String) : PreviewSegment := ⟨id, "", [], 0, false, false, "custom-live", none⟩

/-- `re.fullmatch(r'[A-Za-z0-9._-]{1,64}', provider)` -/
def providerName (provider : String) : Bool :=
  1 ≤ provider.length && provider.length ≤ 64 &&
    provider.toList.all fun c =>
      ('A' ≤ c && c ≤ 'Z') || ('a' ≤ c && c ≤ 'z') || ('0' ≤ c && c ≤ '9') || c == '.' || c == '_' || c == '-'

def PreviewSegment.configure (s : PreviewSegment) (message : Entries) : PreviewSegment :=
  let enabled := match fetch message "diarization" with
    | .bool b => b
    | _ => false
  let provider := match fetch message "stt_provider" with
    | .str provider => if providerName provider then provider else s.provider
    | _ => s.provider
  { s with diarization := enabled, configuredDiarization := enabled, provider := provider }

/-! ## Times and speakers -/

section Rows
variable (digit : Digits)

def digitsValue (ds : List Nat) : Nat := ds.foldl (fun n d => 10 * n + d) 0

/-- `int(text)` on digits, which has a limit on their number. -/
def readInt (ds : List Nat) : Except String Nat :=
  if 4300 < ds.length then .error "Exceeds the limit (4300 digits) for integer string conversion" else .ok (digitsValue ds)

/-- One or more digits. -/
def readDigits (text : List Char) : Option (List Nat) := if text = [] then none else text.mapM digit

/-- The seconds of a clock time: two digits and perhaps a fraction. -/
def readSeconds (text : List Char) : Option ℚ :=
  match text.splitOn '.' with
  | [whole] => if whole.length = 2 then (readDigits digit whole).map fun ds => (digitsValue ds : ℚ) else none
  | [whole, fraction] =>
      if whole.length = 2 then do
        let ds ← readDigits digit whole
        let fs ← readDigits digit fraction
        return digitsValue ds + (digitsValue fs : ℚ) / 10 ^ fs.length
      else none
  | _ => none

/-- `re.fullmatch(r'\d+:\d{2}:\d{2}(?:\.\d+)?', value)` and the three fields. -/
def readClock (text : List Char) : Option (List Nat × List Nat × ℚ) :=
  match text.splitOn ':' with
  | [hours, minutes, seconds] =>
      if minutes.length = 2 then do return (← readDigits digit hours, ← readDigits digit minutes, ← readSeconds digit seconds)
      else none
  | _ => none

def invalidTimestamp : String := "Invalid preview timestamp"

def clockValue (text : String) : Except String (Option ℚ) :=
  match readClock digit text.toList with
  | none => .ok none
  | some (hours, minutes, seconds) => do
      if 60 ≤ digitsValue minutes ∨ 60 ≤ seconds then throw invalidTimestamp
      return some ((← readInt hours) * 3600 + digitsValue minutes * 60 + seconds)

/-- The number that a timestamp stands for; a boolean is none. -/
def timeNumber : Value → Except String (Option ℚ)
  | .str text => clockValue digit text
  | .int n => .ok (some n)
  | .float q => .ok (some q)
  | _ => .ok none

/-- `_time` -/
def time (value : Value) (duration : ℚ) : Except String ℚ := do
  match ← timeNumber digit value with
  | none => throw invalidTimestamp
  | some t => if t < 0 ∨ duration + 1 / 10 < t then throw invalidTimestamp else return min t duration

/-- `re.fullmatch(r'SPEAKER_\d+', value)` and the number. -/
def speakerDigits (text : String) : Option (List Nat) :=
  if "SPEAKER_".toList <+: text.toList then readDigits digit (text.toList.drop 8) else none

def speakerLabel (n : Int) : Option String × Int :=
  if 0 ≤ n ∧ n ≤ 9999 then (some ("SPEAKER_" ++ (if n < 10 then "0" else "") ++ toString n), n) else (none, -1)

/-- `_speaker`: only an enabled diarization gives labels. -/
def speaker (diarization : Bool) (value : Value) : Except String (Option String × Int) :=
  if !diarization then .ok (none, -1)
  else match value with
    | .str text =>
        match speakerDigits digit text with
        | some ds => (readInt ds).map fun n => speakerLabel n
        | none => .ok (none, -1)
    | .int n => .ok (speakerLabel n)
    | _ => .ok (none, -1)

def row (s : PreviewSegment) (key text : String) (start stop : ℚ) (label : Option String × Int)
    (translations : List (String × String)) (draft : Bool) : Row where
  id := s.id ++ "-" ++ key
  text := text
  start := start
  stop := stop
  speaker := label.1
  speakerId := label.2
  isUser := false
  sttProvider := s.provider
  isDraft := draft
  translations := translations

def translation : Value → Option (String × String)
  | .dict entries =>
      match fetch entries "lang", fetch entries "text" with
      | .str lang, .str text => if strip lang = "" ∨ strip text = "" then none else some (strip lang, strip text)
      | _, _ => none
  | _ => none

/-- `_translations`: a text or a dictionary has no dictionary among what it iterates over. -/
def translations (line : Entries) : Except String (List (String × String)) :=
  let value := fetch line "translations"
  if !value.truthy then .ok []
  else match value with
    | .list items => .ok (items.filterMap translation)
    | .str _ | .dict _ => .ok []
    | _ => .error "TypeError"

/-! ## A snapshot -/

def lineText (line : Entries) : String := ((fetch line "text").text).getD ""

def addLine (s : PreviewSegment) (audioSeconds : ℚ) (segments : List Row) (e : Entries × Nat) : Except String (List Row) := do
  let start ← time digit (fetch e.1 "start") audioSeconds
  let stop ← time digit (fetch e.1 "end") audioSeconds
  if stop < start ∨ segments.getLast?.any (fun last => decide (start < last.start)) then
    throw "Unordered preview timestamps"
  else if strip (lineText e.1) = "" then return segments
  else do
    let translations ← translations e.1
    let label ← speaker digit s.diarization (fetch e.1 "speaker")
    return segments ++ [row s ("line-" ++ toString e.2) (strip (lineText e.1)) start stop label translations false]

def spokenLines (lines : List Value) : Except String (List Entries) := do
  let lines ← lines.mapM fun line => match line with
    | .dict entries => .ok entries
    | _ => throw "Invalid preview lines"
  let lines := lines.filter fun line => !(fetch line "speaker").same (.int (-2)) && (fetch line "text").truthy
  if lines.any fun line => (fetch line "text").text.isNone then throw "Invalid preview text"
  else return lines

def pendingTexts (snapshot : Entries) : Except String (List String) :=
  ["buffer_diarization", "buffer_transcription"].mapM fun name =>
    match ((Dict.get snapshot name).getD (.str "")).text with
    | some text => .ok text
    | none => .error "Invalid preview buffer"

def joinTexts (texts : List String) : String := " ".intercalate ((texts.map strip).filter (· ≠ ""))

def withDraft (s : PreviewSegment) (audioSeconds : ℚ) (segments : List Row) (draft : String) : List Row :=
  if draft = "" then segments
  else segments ++ [row s "draft" draft ((segments.getLast?.map Row.stop).getD 0) audioSeconds (none, -1) [] true]

/-- A line without its times leaves all lines to the draft. -/
def lineRows (s : PreviewSegment) (audioSeconds : ℚ) (untimed : Bool) (lines : List Entries) : Except String (List Row) :=
  if untimed then .ok [] else lines.zipIdx.foldlM (addLine digit s audioSeconds) []

/-- The rows of a snapshot with its `lines` and a buffer. -/
def snapshotRows (s : PreviewSegment) (snapshot : Entries) (lines : List Value) (audioSeconds : ℚ) : Except String (List Row) := do
  let lines ← spokenLines lines
  let pending ← pendingTexts snapshot
  let untimed := lines.any fun line => (fetch line "start").isNone || (fetch line "end").isNone
  let segments ← lineRows digit s audioSeconds untimed lines
  return withDraft s audioSeconds segments (joinTexts (if untimed then lines.map lineText ++ pending else pending))

structure Message where
  previewId : String
  revision : Nat
  segments : List Row

/-- `update`: nothing is assigned before the last check. -/
def PreviewSegment.update (s : PreviewSegment) (snapshot : Entries) (audioSeconds : ℚ) :
    PreviewSegment × Except String (Option Message) :=
  match Dict.get snapshot "lines", Dict.get snapshot "buffer_transcription" with
  | some (.list lines), some _ =>
      match snapshotRows digit s snapshot lines audioSeconds with
      | .error e => (s, .error e)
      | .ok segments =>
          if segments = s.segments then ({ s with lastSnapshot := some snapshot }, .ok none)
          else
            ({ s with
              lastSnapshot := some snapshot
              segments := segments
              text := " ".intercalate (segments.map Row.text)
              revision := s.revision + 1 }, .ok (some ⟨s.id, s.revision + 1, segments⟩))
  | some _, some _ => (s, .error "Invalid preview lines")
  | _, _ => (s, .ok none)

end Rows

/-! ## Sessions -/

/-- The calls of a session: `toggle` is the assignment that a diarization status makes. -/
inductive Call where
  | configure (message : Entries)
  | toggle (enabled : Bool)
  | update (snapshot : Entries) (audioSeconds : ℚ)

variable (digit : Digits)

def PreviewSegment.call (s : PreviewSegment) : Call → PreviewSegment
  | .configure message => s.configure message
  | .toggle enabled => { s with diarization := enabled }
  | .update snapshot audioSeconds => (s.update digit snapshot audioSeconds).1

/-! ## Well formed rows -/

structure RowsOk (diarization : Bool) (audioSeconds : ℚ) (rows : List Row) : Prop where
  ids : (rows.map Row.id).Nodup
  starts : rows.Pairwise fun a b => a.start ≤ b.start
  bounds : ∀ r ∈ rows, 0 ≤ r.start ∧ r.start ≤ r.stop ∧ r.stop ≤ audioSeconds
  draft : ∀ r ∈ rows.dropLast, r.isDraft = false
  labels : ∀ r ∈ rows, r.speaker ≠ none ∨ r.speakerId ≠ -1 → diarization = true

variable {digit} {s : PreviewSegment} {audioSeconds : ℚ}

theorem time_bounds {value : Value} {t : ℚ} (nonneg : 0 ≤ audioSeconds) (read : time digit value audioSeconds = .ok t) :
    0 ≤ t ∧ t ≤ audioSeconds := by
  obtain ⟨number, -, checked⟩ := bind_ok read
  cases number with
  | none => cases checked
  | some n =>
      dsimp only at checked
      split at checked
      · cases checked
      · rename_i inside
        cases checked
        rw [not_or, not_lt] at inside
        exact ⟨le_min inside.1 nonneg, min_le_right _ _⟩

theorem speaker_labels {value : Value} {label : Option String × Int} {diarization : Bool}
    (read : speaker digit diarization value = .ok label) (labelled : label.1 ≠ none ∨ label.2 ≠ -1) : diarization = true := by
  unfold speaker at read
  split at read
  · cases read
    rcases labelled with none | number
    · exact absurd rfl none
    · exact absurd rfl number
  · rename_i enabled
    simpa using enabled

/-- The rows of the lines before `count`. -/
structure LinesOk (s : PreviewSegment) (audioSeconds : ℚ) (count : Nat) (rows : List Row) : Prop where
  named : ∀ r ∈ rows, ∃ i < count, r.id = s.id ++ "-" ++ ("line-" ++ toString i)
  ids : (rows.map Row.id).Nodup
  starts : rows.Pairwise fun a b => a.start ≤ b.start
  bounds : ∀ r ∈ rows, 0 ≤ r.start ∧ r.start ≤ r.stop ∧ r.stop ≤ audioSeconds
  lines : ∀ r ∈ rows, r.isDraft = false
  labels : ∀ r ∈ rows, r.speaker ≠ none ∨ r.speakerId ≠ -1 → s.diarization = true

theorem LinesOk.later {rows : List Row} {count : Nat} (ok : LinesOk s audioSeconds count rows) :
    LinesOk s audioSeconds (count + 1) rows :=
  ⟨fun r member => (ok.named r member).imp fun _ h => ⟨h.1.trans (Nat.lt_succ_self _), h.2⟩, ok.ids, ok.starts, ok.bounds,
    ok.lines, ok.labels⟩

theorem lineId_inj {i j : Nat} (same : s.id ++ "-" ++ ("line-" ++ toString i) = s.id ++ "-" ++ ("line-" ++ toString j)) :
    i = j := by
  have chars := congrArg String.toList same
  simp only [String.toList_append, List.append_cancel_left_eq] at chars
  exact Decimal.repr_injective chars

/-- All rows start no later than the last one. -/
theorem starts_le_last {rows : List Row} (sorted : rows.Pairwise fun a b => a.start ≤ b.start) {last r : Row}
    (final : rows.getLast? = some last) (member : r ∈ rows) : r.start ≤ last.start := by
  obtain ⟨front, split⟩ := List.getLast?_eq_some_iff.mp final
  rw [split] at sorted member
  rcases List.mem_append.mp member with old | same
  · exact (List.pairwise_append.mp sorted).2.2 r old last (List.mem_singleton_self last)
  · rw [List.mem_singleton.mp same]

theorem LinesOk.addLine {rows later : List Row} {e : Entries × Nat} (nonneg : 0 ≤ audioSeconds)
    (ok : LinesOk s audioSeconds e.2 rows) (added : addLine digit s audioSeconds rows e = .ok later) :
    LinesOk s audioSeconds (e.2 + 1) later := by
  obtain ⟨start, begins, added⟩ := bind_ok added
  obtain ⟨stop, ends, added⟩ := bind_ok added
  split at added
  · cases added
  · rename_i ordered
    rw [not_or, not_lt] at ordered
    split at added
    · cases added
      exact ok.later
    · obtain ⟨translations, -, added⟩ := bind_ok added
      obtain ⟨label, spoken, added⟩ := bind_ok added
      cases added
      have fresh : s.id ++ "-" ++ ("line-" ++ toString e.2) ∉ rows.map Row.id := by
        intro member
        obtain ⟨r, inside, same⟩ := List.mem_map.mp member
        obtain ⟨i, before, named⟩ := ok.named r inside
        exact absurd (lineId_inj (named.symm.trans same)) before.ne
      refine ⟨?_, ?_, ?_, ?_, ?_, ?_⟩
      · intro r member
        rcases List.mem_append.mp member with old | new
        · exact ok.later.named r old
        · exact ⟨e.2, Nat.lt_succ_self _, by rw [List.mem_singleton.mp new]; rfl⟩
      · rw [List.map_append]
        refine List.nodup_append.mpr ⟨ok.ids, List.nodup_singleton _, fun a old b new => ?_⟩
        rw [List.mem_singleton.mp new]
        rintro rfl
        exact fresh old
      · refine List.pairwise_append.mpr ⟨ok.starts, List.pairwise_singleton _ _, fun r old new single => ?_⟩
        rw [List.mem_singleton.mp single]
        cases final : rows.getLast? with
        | none =>
            rw [List.getLast?_eq_none_iff.mp final] at old
            cases old
        | some last =>
            have after : ¬ start < last.start := by
              have order := ordered.2
              rw [final] at order
              simpa using order
            exact (starts_le_last ok.starts final old).trans (not_lt.mp after)
      · intro r member
        rcases List.mem_append.mp member with old | new
        · exact ok.bounds r old
        · rw [List.mem_singleton.mp new]
          exact ⟨(time_bounds nonneg begins).1, ordered.1, (time_bounds nonneg ends).2⟩
      · intro r member
        rcases List.mem_append.mp member with old | new
        · exact ok.lines r old
        · rw [List.mem_singleton.mp new]
          rfl
      · intro r member
        rcases List.mem_append.mp member with old | new
        · exact ok.labels r old
        · rw [List.mem_singleton.mp new]
          exact speaker_labels spoken

theorem LinesOk.foldl {lines : List Entries} {count : Nat} {rows later : List Row} (nonneg : 0 ≤ audioSeconds)
    (ok : LinesOk s audioSeconds count rows)
    (done : (lines.zipIdx count).foldlM (Preview.addLine digit s audioSeconds) rows = .ok later) :
    LinesOk s audioSeconds (count + lines.length) later := by
  induction lines generalizing count rows with
  | nil =>
      cases done
      exact ok
  | cons line rest ih =>
      rw [List.zipIdx_cons, List.foldlM_cons] at done
      obtain ⟨next, first, done⟩ := bind_ok done
      rw [List.length_cons, Nat.add_comm rest.length, ← Nat.add_assoc]
      exact ih (LinesOk.addLine nonneg ok first) done

theorem LinesOk.rows {rows : List Row} {count : Nat} (ok : LinesOk s audioSeconds count rows) :
    RowsOk s.diarization audioSeconds rows :=
  ⟨ok.ids, ok.starts, ok.bounds, fun r member => ok.lines r (List.dropLast_subset _ member), ok.labels⟩

/-- The draft comes behind all lines. -/
theorem LinesOk.withDraft {rows : List Row} {count : Nat} (nonneg : 0 ≤ audioSeconds)
    (ok : LinesOk s audioSeconds count rows) (text : String) :
    RowsOk s.diarization audioSeconds (withDraft s audioSeconds rows text) := by
  unfold Preview.withDraft
  by_cases none_ : text = ""
  · rw [if_pos none_]
    exact ok.rows
  rw [if_neg none_]
  have last : ∀ r, rows.getLast? = some r → (rows.getLast?.map Row.stop).getD 0 = r.stop ∧ r ∈ rows := by
    intro r final
    rw [final]
    exact ⟨rfl, List.mem_of_getLast? final⟩
  refine ⟨?_, ?_, ?_, ?_, ?_⟩
  · rw [List.map_append]
    refine List.nodup_append.mpr ⟨ok.ids, List.nodup_singleton _, fun a old b new => ?_⟩
    rw [List.mem_singleton.mp new]
    rintro rfl
    obtain ⟨r, inside, same⟩ := List.mem_map.mp old
    obtain ⟨i, -, named⟩ := ok.named r inside
    have chars := congrArg String.toList (named.symm.trans same)
    simp only [row, String.toList_append, List.append_cancel_left_eq] at chars
    cases chars
  · refine List.pairwise_append.mpr ⟨ok.starts, List.pairwise_singleton _ _, fun r old new single => ?_⟩
    rw [List.mem_singleton.mp single]
    cases final : rows.getLast? with
    | none =>
        rw [List.getLast?_eq_none_iff.mp final] at old
        cases old
    | some final_ =>
        exact (starts_le_last ok.starts final old).trans (ok.bounds final_ (last final_ final).2).2.1
  · intro r member
    rcases List.mem_append.mp member with old | new
    · exact ok.bounds r old
    · rw [List.mem_singleton.mp new]
      refine ⟨?_, ?_, le_refl _⟩
      all_goals
        unfold row
        dsimp only
        cases final : rows.getLast? with
        | none => first | exact le_refl _ | exact nonneg
        | some final_ =>
            obtain ⟨first, between, ended⟩ := ok.bounds final_ (List.mem_of_getLast? final)
            first | exact first.trans between | exact ended
  · intro r member
    rw [List.dropLast_concat] at member
    exact ok.lines r member
  · intro r member labelled
    rcases List.mem_append.mp member with old | new
    · exact ok.labels r old labelled
    · rw [List.mem_singleton.mp new] at labelled
      rcases labelled with label | number
      · exact absurd rfl label
      · exact absurd rfl number

theorem snapshotRows_ok {snapshot : Entries} {lines : List Value} {rows : List Row} (nonneg : 0 ≤ audioSeconds)
    (done : snapshotRows digit s snapshot lines audioSeconds = .ok rows) : RowsOk s.diarization audioSeconds rows := by
  obtain ⟨spoken, -, done⟩ := bind_ok done
  obtain ⟨pending, -, done⟩ := bind_ok done
  obtain ⟨segments, built, done⟩ := bind_ok done
  have start : LinesOk s audioSeconds 0 [] :=
    ⟨fun _ member => (by cases member), List.nodup_nil, List.Pairwise.nil, fun _ member => (by cases member),
      fun _ member => (by cases member), fun _ member => (by cases member)⟩
  obtain ⟨count, ok⟩ : ∃ count, LinesOk s audioSeconds count segments := by
    unfold lineRows at built
    split at built
    · cases built
      exact ⟨0, start⟩
    · exact ⟨_, start.foldl nonneg built⟩
  cases done
  exact ok.withDraft nonneg _

/-- What an update does to the preview `s`. -/
inductive Updated (s : PreviewSegment) (audioSeconds : ℚ) : PreviewSegment × Except String (Option Message) → Prop
  | raised (error : String) : Updated s audioSeconds (s, .error error)
  | same {t : PreviewSegment} (revision : t.revision = s.revision) : Updated s audioSeconds (t, .ok none)
  | sent {t : PreviewSegment} {message : Message} (revision : message.revision = s.revision + 1)
      (kept : t.revision = message.revision ∧ t.segments = message.segments)
      (rows : RowsOk s.diarization audioSeconds message.segments) : Updated s audioSeconds (t, .ok (some message))

theorem update_updated (digit : Digits) (s : PreviewSegment) (snapshot : Entries) {audioSeconds : ℚ}
    (nonneg : 0 ≤ audioSeconds) : Updated s audioSeconds (s.update digit snapshot audioSeconds) := by
  unfold PreviewSegment.update
  split
  · split
    · exact .raised _
    · rename_i built
      split
      · exact .same rfl
      · exact .sent rfl ⟨rfl, rfl⟩ (snapshotRows_ok nonneg built)
  · exact .raised _
  · exact .same rfl

/-! ## Whole sessions -/

/-- One update of a session. -/
structure Outcome where
  before : PreviewSegment
  audioSeconds : ℚ
  after : PreviewSegment
  result : Except String (Option Message)

def Outcome.message (o : Outcome) : Option Message := o.result.toOption.join

/-- The updates of a session. -/
def outcomes (digit : Digits) (s : PreviewSegment) : List Call → List Outcome
  | [] => []
  | .update snapshot audioSeconds :: rest =>
      let (after, result) := s.update digit snapshot audioSeconds
      ⟨s, audioSeconds, after, result⟩ :: outcomes digit after rest
  | call :: rest => outcomes digit (s.call digit call) rest

/-- Audio does not have a negative length. -/
def Call.Timed : Call → Prop
  | .update _ audioSeconds => 0 ≤ audioSeconds
  | _ => True

theorem outcomes_updated (digit : Digits) (s : PreviewSegment) {calls : List Call} (timed : ∀ c ∈ calls, c.Timed) :
    ∀ o ∈ outcomes digit s calls, Updated o.before o.audioSeconds (o.after, o.result) := by
  induction calls generalizing s with
  | nil => exact fun _ member => (by cases member)
  | cons call rest ih =>
      have later : ∀ c ∈ rest, c.Timed := fun c member => timed c (List.mem_cons_of_mem call member)
      cases call with
      | configure message => exact ih (s.configure message) later
      | toggle enabled => exact ih { s with diarization := enabled } later
      | update snapshot audioSeconds =>
          intro o member
          rcases List.mem_cons.mp member with rfl | behind
          · exact update_updated digit s snapshot (timed _ List.mem_cons_self)
          · exact ih _ later o behind

/-- The messages of a session are numbered in turn. -/
theorem outcomes_revisions (digit : Digits) (s : PreviewSegment) {calls : List Call} (timed : ∀ c ∈ calls, c.Timed) :
    ((outcomes digit s calls).filterMap Outcome.message).map Message.revision =
      List.range' (s.revision + 1) ((outcomes digit s calls).filterMap Outcome.message).length := by
  induction calls generalizing s with
  | nil => rfl
  | cons call rest ih =>
      have later : ∀ c ∈ rest, c.Timed := fun c member => timed c (List.mem_cons_of_mem call member)
      cases call with
      | configure message => exact ih (s.configure message) later
      | toggle enabled => exact ih { s with diarization := enabled } later
      | update snapshot audioSeconds =>
          have updated := update_updated digit s snapshot (timed _ List.mem_cons_self)
          unfold outcomes
          revert updated
          generalize s.update digit snapshot audioSeconds = answer
          rintro (error | same | ⟨next, ⟨kept, -⟩, -⟩)
          · exact ih s later
          · rename_i t
            have rest := ih t later
            rw [same] at rest
            exact rest
          · rename_i t message
            have rest := ih t later
            rw [kept, next] at rest
            have here : (Outcome.mk s audioSeconds t (.ok (some message))).message = some message := rfl
            dsimp only
            rw [List.filterMap_cons_some here, List.map_cons, List.length_cons, List.range'_succ, rest, next]

/-- Every update of a session raises and changes nothing, or sends nothing, or sends the next revision. -/
theorem preview_snapshots_well_formed (digit : Digits) (id : String) (calls : List Call) (timed : ∀ c ∈ calls, c.Timed) :
    (∀ o ∈ outcomes digit (.new id) calls, Updated o.before o.audioSeconds (o.after, o.result)) ∧
    ((outcomes digit (.new id) calls).filterMap Outcome.message).map Message.revision =
      List.range' 1 ((outcomes digit (.new id) calls).filterMap Outcome.message).length :=
  ⟨outcomes_updated digit _ timed, outcomes_revisions digit _ timed⟩

def asciiDigit : Digits := fun c => if '0' ≤ c ∧ c ≤ '9' then some (c.toNat - 48) else none

/-- A labelled line with a draft behind it, then a line that ends before it starts. -/
def sampleCalls : List Call :=
  [.configure [("diarization", .bool true)],
    .update [("lines", .list [.dict [("text", .str "Hello."), ("start", .str "0:00:01"), ("end", .float 2), ("speaker", .int 3)]]),
      ("buffer_transcription", .str "and"), ("buffer_diarization", .str "")] 5,
    .update [("lines", .list [.dict [("text", .str "Hello."), ("start", .int 3), ("end", .int 1)]]),
      ("buffer_transcription", .str "")] 6]

theorem preview_snapshots_well_formed_sample :
    (∀ o ∈ outcomes asciiDigit (.new "p") sampleCalls, Updated o.before o.audioSeconds (o.after, o.result)) ∧
    ((outcomes asciiDigit (.new "p") sampleCalls).filterMap Outcome.message).map Message.revision =
      List.range' 1 ((outcomes asciiDigit (.new "p") sampleCalls).filterMap Outcome.message).length := by
  refine preview_snapshots_well_formed asciiDigit "p" sampleCalls fun c member => ?_
  simp only [sampleCalls, List.mem_cons, List.not_mem_nil, or_false] at member
  rcases member with rfl | rfl | rfl
  · exact trivial
  · exact (by decide : (0 : ℚ) ≤ 5)
  · exact (by decide : (0 : ℚ) ≤ 6)

end Preview

end OmiLocal.Stt
