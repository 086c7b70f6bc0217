import OmiLocal.Lib.Dict
import Mathlib.Data.Rat.Defs
import Mathlib.Algebra.Order.Ring.Rat

/-!
# Merging conversations

`perform_merge_async` over the stored content of its sources and of the conversation it
creates under a fresh id. Every storage, database and processing call may raise, and a
call that raises may have taken effect, wholly or in part: `Outcomes` says which. Action
items, vectors, memories and the conversations' other fields are left out, and processing
keeps the content it is given.
-/
namespace OmiLocal.Conversations
open Lib

/-- `body` is the rest of the segment, which is copied. -/
structure Segment where
  start : ℚ
  end_ : ℚ
  body : String
  deriving DecidableEq

def Segment.shift (offset : ℚ) (s : Segment) : Segment :=
  { s with start := s.start + offset, end_ := s.end_ + offset }

structure Photo where
  id : Option String
  createdAt : Option ℚ
  body : String
  deriving DecidableEq

/-- The fields that the merge reads, its timestamps coerced to seconds. -/
structure Conversation where
  startedAt : Option ℚ
  finishedAt : Option ℚ
  deleted : Bool
  segments : List Segment
  deriving DecidableEq

abbrev Blob := List UInt8

/-- What is stored for a conversation: its document, its photos and the audio under its prefix. -/
structure Source where
  conversation : Option Conversation
  photos : List Photo
  blobs : List (String × Blob)
  deriving DecidableEq

structure Target where
  segments : Option (List Segment)
  blobs : List (String × Blob)
  deriving DecidableEq

structure World where
  sources : String → Source
  target : Target

/-! ## Outcomes of the calls -/

/-- `retract_conversation_memories` tells its caller as soon as the canonical retraction is committed. -/
inductive Retraction where
  | checkRaised
  | skipped
  | raised
  | committedRaised
  | committed
  deriving DecidableEq

def Retraction.started : Retraction → Bool
  | .skipped | .committedRaised | .committed => true
  | _ => false

def Retraction.raises : Retraction → Bool
  | .checkRaised | .raised | .committedRaised => true
  | _ => false

/-- What the deletions of one conversation leave; their exceptions are logged. -/
structure Deletion where
  photosLeft : Photo → Bool
  blobsLeft : String → Bool
  documentLeft : Bool

/-- The start time in an audio file's name, where `list_audio_chunks` accepts it. -/
structure Platform where
  timestamp : String → Option ℚ

/-! ## Raw data -/

def lastEnd : Segment → List Segment → ℚ
  | s, [] => s.end_
  | s, next :: rest => max s.end_ (lastEnd next rest)

def duration (c : Conversation) : Option ℚ :=
  match c.finishedAt, c.startedAt with
  | some finished, some started => some (finished - started)
  | _, _ => none

def gap (previous current : Conversation) : ℚ :=
  match previous.finishedAt, current.startedAt with
  | some finished, some started => max 0 (started - finished)
  | _, _ => 0

variable (p : Platform)

inductive MergeFailurePhase where
  | beforeSourceDeletion
  | sourceDeletionStarted
  deriving DecidableEq

/-- `rollbackFailed`: the rollback's retraction raised, or it left the merged document. -/
structure MergeRun where
  world : World
  phase : MergeFailurePhase
  rollbackFailed : Bool

def Source.delete (s : Source) (d : Deletion) : Source where
  conversation := if d.documentLeft then s.conversation else none
  photos := s.photos.filter d.photosLeft
  blobs := s.blobs.filter fun e => d.blobsLeft e.1

def Target.delete (t : Target) (d : Deletion) : Target where
  segments := if d.documentLeft then t.segments else none
  blobs := t.blobs.filter fun e => d.blobsLeft e.1

end OmiLocal.Conversations
