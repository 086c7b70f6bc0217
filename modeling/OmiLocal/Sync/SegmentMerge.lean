import OmiLocal.Lib.Text
import OmiLocal.Pipeline.Summaries

/-!
# Merging synced segments into a conversation

What `process_segment` does with the transcript of a synced file once it has found the
conversation it belongs to, and `dedupe_segments_for_merge`. Times are exact rationals, a segment
carries its further fields along, and `lower` is `str.lower`.
-/
namespace OmiLocal.Sync
open Lib
open OmiLocal.Pipeline (roundHalfEven)

/-- A transcript segment; `fields` are those that the merge only carries. -/
structure MergeSegment (ε : Type) where
  start : ℚ
  finish : ℚ
  text : Option String
  fields : ε
  deriving DecidableEq

/-- A segment with its `timestamp`. -/
structure TimedSegment (ε : Type) where
  segment : MergeSegment ε
  timestamp : ℚ
  deriving DecidableEq

structure MergeConversation (ε : Type) where
  startedAt : ℚ
  finishedAt : ℚ
  transcriptSegments : List (MergeSegment ε)
  deriving DecidableEq

def mergeTextDupSlopSeconds : ℚ := 10 * 60

def mergeTextDupDurationRatio : ℚ := 1 / 4

def mergeTextDupMinChars : Nat := 20

def mergeTextDupMinWords : Nat := 4

variable {ε : Type}

section Dedupe
variable (lower : List Char → List Char)

def normalizeMergeSegmentText (text : Option String) : List Char :=
  Text.join ' ' (Text.words (lower (Text.stripChars (text.getD "").toList)))

def textEligibleForSlopDedupe (text : List Char) : Bool :=
  decide (mergeTextDupMinChars ≤ text.length) || decide (mergeTextDupMinWords ≤ (Text.words text).length)

def MergeSegment.duration (s : MergeSegment ε) : ℚ := s.finish - s.start

def segmentAbsRange (s : TimedSegment ε) : ℚ × ℚ := (s.timestamp, s.timestamp + s.segment.duration)

/-- `(round(start, 2), round(end, 2))`, in hundredths. -/
def rangeKey (range : ℚ × ℚ) : Int × Int := (roundHalfEven (range.1 * 100), roundHalfEven (range.2 * 100))

structure TextEntry where
  text : List Char
  absStart : ℚ
  duration : ℚ

def textEntry (s : TimedSegment ε) : TextEntry where
  text := normalizeMergeSegmentText lower s.segment.text
  absStart := s.timestamp
  duration := max 0 s.segment.duration

def isTextClockOffsetDuplicate (slop ratio : ℚ) (existingTextIndex : List TextEntry) (entry : TextEntry) : Bool :=
  textEligibleForSlopDedupe entry.text && existingTextIndex.any fun existing =>
    decide (existing.text = entry.text) &&
      !decide (ratio < |entry.duration - existing.duration| / max (max entry.duration existing.duration) (1 / 1000)) &&
      decide (|entry.absStart - existing.absStart| ≤ slop)

/-- The range of an incoming segment is already there, absolutely or relative to the conversation. -/
def rangePresent (conversationStartedAt : ℚ) (existing : List (TimedSegment ε)) (s : TimedSegment ε) : Bool :=
  let (absStart, absEnd) := segmentAbsRange s
  decide (rangeKey (absStart, absEnd) ∈ existing.map fun e => rangeKey (segmentAbsRange e)) ||
    decide (rangeKey (absStart - conversationStartedAt, absEnd - conversationStartedAt) ∈
      existing.map fun e => rangeKey (e.segment.start, e.segment.finish))

def dedupeSegmentsForMerge (conversationStartedAt : ℚ) (existing incoming : List (TimedSegment ε)) (slop ratio : ℚ) :
    List (TimedSegment ε) :=
  let existingTextIndex := (existing.map (textEntry lower)).filter fun entry => !entry.text.isEmpty
  let survivors := incoming.filter fun s => !rangePresent conversationStartedAt existing s
  if survivors.isEmpty || existingTextIndex.isEmpty then survivors
  else
    let textDupFlags := survivors.map fun s => isTextClockOffsetDuplicate slop ratio existingTextIndex (textEntry lower s)
    let textDupCount := (textDupFlags.filter fun flag => flag).length
    if 2 ≤ textDupCount ∨ (textDupCount = survivors.length ∧ 1 ≤ textDupCount) then
      ((survivors.zip textDupFlags).filter fun e => !e.2).map Prod.fst
    else survivors

end Dedupe

/-! ## The merge -/

/-- A segment of the synced file, and one of the conversation. -/
def incomingSegment (timestamp : ℚ) (s : MergeSegment ε) : TimedSegment ε := ⟨s, timestamp + s.start⟩

def existingSegment (startedAt : ℚ) (s : MergeSegment ε) : TimedSegment ε := ⟨s, startedAt + s.start⟩

/-- `start` and `end` relative to the conversation. -/
def relative (startedAt : ℚ) (s : TimedSegment ε) : MergeSegment ε :=
  { s.segment with
    start := s.timestamp - startedAt
    finish := s.timestamp - startedAt + s.segment.duration }

def MergeConversation.timed (c : MergeConversation ε) : List (TimedSegment ε) :=
  c.transcriptSegments.map (existingSegment c.startedAt)

variable (lower : List Char → List Char)

/-- The incoming segments that are merged. -/
def survivors (c : MergeConversation ε) (timestamp : ℚ) (incoming : List (MergeSegment ε)) : List (TimedSegment ε) :=
  dedupeSegmentsForMerge lower c.startedAt c.timed (incoming.map (incomingSegment timestamp)) mergeTextDupSlopSeconds
    mergeTextDupDurationRatio

/-- `segments[-1]['end'] if segments else 0`. -/
def lastSegmentEnd (segments : List (MergeSegment ε)) : ℚ :=
  match segments.getLast? with
  | some s => s.finish
  | none => 0

/-- The conversation as it is written; `none` is that all segments exist and nothing is. -/
def mergeSegments (c : MergeConversation ε) (timestamp : ℚ) (incoming : List (MergeSegment ε)) :
    Option (MergeConversation ε) :=
  let deduped := survivors lower c timestamp incoming
  if deduped.isEmpty then none
  else
    let sorted := (c.timed ++ deduped).mergeSort fun a b => decide (a.timestamp ≤ b.timestamp)
    let segments := sorted.map (relative c.startedAt)
    let newFinishedAt := c.startedAt + lastSegmentEnd segments
    some
      { c with
        finishedAt := if newFinishedAt < c.finishedAt then c.finishedAt else newFinishedAt
        transcriptSegments := segments }

end OmiLocal.Sync
