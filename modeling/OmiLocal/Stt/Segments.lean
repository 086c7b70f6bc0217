import Mathlib.Algebra.Order.Ring.Rat
import Mathlib.Data.List.Nodup
import OmiLocal.Lib.Text

/-!
# Combining transcript segments

`TranscriptSegment.combine_segments` joins new segments onto a transcript and
returns, with the new transcript, the segments a client has to update and the ids
it has to remove. A text is its list of characters. `CharClass` stands for the
Unicode tables behind `str.isalpha` and `str.islower`.
-/
namespace OmiLocal.Stt

open Lib.Text

abbrev Text := List Char

structure CharClass where
  isAlpha : Char → Bool
  isLower : Char → Bool

structure TranscriptSegment where
  id : String
  text : Text
  speaker : Option String
  isUser : Bool
  start : ℚ
  stop : ℚ
  speechProfileProcessed : Bool
  sttProvider : Option String
  speakerIdScope : Option String
deriving DecidableEq

def sentenceEnders : List Char := ['.', '?', '!', '。', '！', '？', '؟', '۔', '।', '॥']

def isEnder (c : Char) : Bool := sentenceEnders.contains c

def endsSentence (text : Text) : Bool := (text.getLast?.map isEnder).getD false

/-! ### Sentences -/

/-- `SENTENCE_SPLIT_RE.split`: cut after every sentence ender and skip the white space there. -/
def splitSentences : Text → Bool → Text → List Text
  | current, _, [] => [current]
  | current, skipping, c :: rest =>
    if skipping && isSpace c then splitSentences current true rest
    else if isEnder c then (current ++ [c]) :: splitSentences [] true rest
    else splitSentences (current ++ [c]) false rest

def sentenceParts (text : Text) : List Text :=
  (splitSentences [] false text).filter (fun part => !part.isEmpty)

def joinSpace (parts : List Text) : Text := List.intercalate [' '] parts

def extractLastIncompleteSentence (text : Text) : Option Text × Text :=
  let text := stripChars text
  match (sentenceParts text).getLast? with
  | none => (none, text)
  | some last =>
    if endsSentence last then (none, text)
    else (some last, stripChars (joinSpace (sentenceParts text).dropLast))

def splitFirstSentence (text : Text) : Text × Text :=
  match sentenceParts (stripChars text) with
  | [] => ([], [])
  | first :: rest => (first, stripChars (joinSpace rest))

variable (classes : CharClass)

def startsWithLowercaseCased (text : Text) : Bool :=
  match (stripChars text).find? classes.isAlpha with
  | none => false
  | some c => classes.isLower c

def isSentenceComplete (text : Text) : Bool :=
  let text := stripChars text
  !text.isEmpty && endsSentence text && !startsWithLowercaseCased classes text

def canBackwardMergeFirstSentence (first rest lastIncomplete : Text) : Bool :=
  !rest.isEmpty && !first.isEmpty && first.length < lastIncomplete.length

def canBackwardMergeSingleSentence (first lastIncomplete : Text) : Bool :=
  !first.isEmpty && !isSentenceComplete classes first && first.length < lastIncomplete.length

/-! ### Merging two neighbours -/

def sameVoice (a b : TranscriptSegment) : Bool := a.speaker == b.speaker || (a.isUser && b.isUser)

def shouldMergeSameSpeaker (a b : TranscriptSegment) : Bool :=
  sameVoice a b && a.speechProfileProcessed == b.speechProfileProcessed && decide (b.start - a.stop < 3) &&
    (decide (a.text.length < 125) || !endsSentence a.text)

def shouldMergeLowercaseContinuation (a b : TranscriptSegment) : Bool :=
  !a.text.isEmpty && !b.text.isEmpty && sameVoice a b && !endsSentence a.text &&
    startsWithLowercaseCased classes b.text && a.speechProfileProcessed == b.speechProfileProcessed

/-- `_merge` edits its arguments: `left` is the first one afterwards, whether or not it is
returned, and `right` the second one when that is returned. -/
structure Merged where
  left : TranscriptSegment
  returned : Bool
  right : Option TranscriptSegment

def absorb (a b : TranscriptSegment) : Merged :=
  ⟨{ a with text := a.text ++ ' ' :: b.text, stop := b.stop }, true, none⟩

def mergeSameVoice (a b : TranscriptSegment) : Merged :=
  if shouldMergeSameSpeaker a b then absorb a b
  else if shouldMergeLowercaseContinuation classes a b then absorb a b
  else ⟨a, true, some b⟩

/-- The move of a sentence that the change of voice cut in two. -/
def mergeAcross (a b : TranscriptSegment) : Option Merged :=
  match extractLastIncompleteSentence a.text with
  | (none, _) => none
  | (some lastIncomplete, front) =>
    let (first, rest) := splitFirstSentence b.text
    if canBackwardMergeFirstSentence first rest lastIncomplete then
      some ⟨{ a with text := stripChars (a.text ++ ' ' :: first) }, true, some { b with text := rest }⟩
    else if canBackwardMergeSingleSentence classes first lastIncomplete then
      some ⟨{ a with text := stripChars (a.text ++ ' ' :: first) }, true, none⟩
    else if lastIncomplete.length < (stripChars b.text).length then
      let moved := { b with text := stripChars (lastIncomplete ++ ' ' :: b.text) }
      if front.isEmpty then some ⟨{ a with text := [] }, false, some moved⟩
      else some ⟨{ a with text := front, stop := min a.stop b.start }, true, some moved⟩
    else none

def merge (a b : TranscriptSegment) : Merged :=
  if b.sttProvider ≠ a.sttProvider ∨ b.speakerIdScope ≠ a.speakerIdScope then ⟨a, true, some b⟩
  else if !sameVoice a b && !a.text.isEmpty && !b.text.isEmpty then
    (mergeAcross classes a b).getD (mergeSameVoice classes a b)
  else mergeSameVoice classes a b

/-! ### The join -/

structure Join where
  joined : List TranscriptSegment
  removedIds : List String
  droppedExistingTail : Bool

def shift (deltaSeconds : Int) (s : TranscriptSegment) : TranscriptSegment :=
  if 0 < deltaSeconds then { s with start := s.start + deltaSeconds, stop := s.stop + deltaSeconds } else s

/-- One turn of the loop; `tail` is the last segment of the transcript. -/
def joinOne (tail : Option TranscriptSegment) (deltaSeconds : Int) (join : Join) (new : TranscriptSegment) : Join :=
  match join.joined.getLast? with
  | none => { join with joined := join.joined ++ [shift deltaSeconds new] }
  | some last =>
    let merged := merge classes last (shift deltaSeconds new)
    let kept := join.joined.dropLast
    if !merged.returned && merged.left.text.isEmpty then
      if tail.map (·.id) = some merged.left.id then
        ⟨kept ++ merged.right.toList, join.removedIds ++ [merged.left.id], true⟩
      else { join with joined := kept ++ merged.right.toList }
    else { join with joined := kept ++ [merged.left] ++ merged.right.toList }

/-- `str.replace` of the pair `x y` by `z`. -/
def replacePair (x y z : Char) : Text → Text
  | a :: b :: rest =>
    if a = x ∧ b = y then z :: replacePair x y z rest else a :: replacePair x y z (b :: rest)
  | rest => rest

def normalizeText (text : Text) : Text :=
  replacePair ' ' '?' '?' (replacePair ' ' '.' '.' (replacePair ' ' ',' ',' (replacePair ' ' ' ' ' ' (stripChars text))))

def normalize (s : TranscriptSegment) : TranscriptSegment := { s with text := normalizeText s.text }

structure Combined where
  segments : List TranscriptSegment
  updated : List TranscriptSegment
  removedIds : List String

/-- `combine_segments`: the joined segments are the same objects in the transcript and in the answer. -/
def combineSegments (segments newSegments : List TranscriptSegment) (deltaSeconds : Int) : Combined :=
  if newSegments.isEmpty then ⟨segments, [], []⟩
  else
    let join := newSegments.foldl (joinOne classes segments.getLast? deltaSeconds) ⟨segments.getLast?.toList, [], false⟩
    let popped :=
      if join.droppedExistingTail ∨
          (segments.getLast?.map (·.id)).isSome ∧ segments.getLast?.map (·.id) = join.joined.head?.map (·.id) then
        segments.dropLast
      else segments
    ⟨(popped ++ join.joined).map normalize, join.joined.map normalize, join.removedIds⟩

end OmiLocal.Stt
