import OmiLocal.Pusher.Session
import OmiLocal.Lib.Drains

/-!
# The buffers of a listen session

The transcript segments that wait beside the audio, their flush, and the history of both buffers:
what was received, which frames were sent without an error, and where every chunk and segment is.
-/
namespace OmiLocal.Pusher
open Lib.Framing Lib.Drains

/-- The limits of `ListenPusherSessionConfig`. -/
structure BufferConfig where
  maxSegmentBufferSize : Nat
  maxAudioBufferSize : Nat
  positive : 0 < maxAudioBufferSize

/-- `append` of a `deque` with this `maxlen`. -/
def dequeAppend {α : Type} (maxlen : Nat) (queue : List α) (item : α) : List α :=
  if maxlen = 0 then []
  else if queue.length < maxlen then queue ++ [item]
  else queue.tail ++ [item]

/-- `extend`; on an empty `deque` it is `deque(items, maxlen=maxlen)`. -/
def dequeExtend {α : Type} (maxlen : Nat) (queue items : List α) : List α := items.foldl (dequeAppend maxlen) queue

/-- Where `_transcript_flush` awaits; it holds its lock unless it is idle. -/
inductive TranscriptFlush (Segment : Type) where
  | idle
  | sending (socket : Nat) (payload : Bytes) (pendingSegments : List Segment)
  deriving DecidableEq

/-- After `transcriptFlush` everything is history: the arguments of `audio_bytes_send`, the frames whose send returned,
and the chunks and segments by the number of their arrival. -/
structure ListenBuffers (Segment : Type) where
  session : Session
  segmentBuffers : List Segment
  transcriptFlush : TranscriptFlush Segment
  receivedAudio : List Bytes
  audioFrames : List Bytes
  transcriptFrames : List (List Segment)
  audio : Drain Bytes
  transcripts : Drain Segment
  deriving DecidableEq

inductive BufferAction (Segment : Type) where
  | session (a : Action)
  | transcriptSend (segments : List Segment)
  | transcriptFlush
  | transcriptSent (result : SendResult)
  deriving DecidableEq

namespace ListenBuffers
variable {Segment : Type} (cfg : BufferConfig) (dumps : List Segment → Option String → Bytes)

def start : ListenBuffers Segment where
  session := .start
  segmentBuffers := []
  transcriptFlush := .idle
  receivedAudio := []
  audioFrames := []
  transcriptFrames := []
  audio := .start
  transcripts := .start

/-! ## Transcripts -/

def transcriptSend (s : ListenBuffers Segment) (segments : List Segment) : ListenBuffers Segment :=
  { s with
    segmentBuffers := dequeExtend cfg.maxSegmentBufferSize s.segmentBuffers segments
    transcripts := segments.foldl (Drain.put (fun _ => 1) cfg.maxSegmentBufferSize) s.transcripts }

/-- `_transcript_flush` up to its send. If `json.dumps` raises, the send fails unwritten. -/
def beginTranscriptFlush (s : ListenBuffers Segment) : ListenBuffers Segment :=
  match s.session.pusherWs with
  | some socket =>
      if s.session.pusherConnected ∧ 0 < s.segmentBuffers.length then
        { s with
          transcriptFlush :=
            .sending socket (dumps s.segmentBuffers s.session.currentConversationId) s.segmentBuffers
          segmentBuffers := []
          transcripts := s.transcripts.take }
      else s
  | none => s

def restoreTranscripts (s : ListenBuffers Segment) (pendingSegments : List Segment) : ListenBuffers Segment :=
  { s with
    segmentBuffers := dequeExtend cfg.maxSegmentBufferSize [] (pendingSegments ++ s.segmentBuffers)
    transcripts := s.transcripts.fail (fun _ => 1) cfg.maxSegmentBufferSize }

def transcriptSent (s : ListenBuffers Segment) (result : SendResult) : ListenBuffers Segment :=
  match s.transcriptFlush with
  | .sending socket payload pendingSegments =>
      let ended :=
        { s with
          transcriptFlush := .idle
          session := if result.written then s.session.write ⟨socket, .transcript payload, none⟩ else s.session }
      match result with
      | .sent =>
          { ended with
            transcriptFrames := s.transcriptFrames ++ [pendingSegments]
            transcripts := s.transcripts.succeed }
      | .connectionClosed _ =>
          let restored := ended.restoreTranscripts cfg pendingSegments
          { restored with session := restored.session.markDisconnected }
      | .failed _ | .cancelled _ => ended.restoreTranscripts cfg pendingSegments
  | .idle => s

/-! ## Audio -/

/-- Where the chunks are after a step of the session to `t`. -/
def moveAudio (s : ListenBuffers Segment) (t : Session) : Action → Drain Bytes
  | .audioBytesSend audioBytes =>
      s.audio.put List.length cfg.maxAudioBufferSize (Session.lastBytes cfg.maxAudioBufferSize audioBytes)
  | .flush _ | .flushAnnounced _ _ => if t.flush matches .sending .. then s.audio.take else s.audio
  | .flushSent .sent => s.audio.succeed
  | .flushSent _ => s.audio.fail List.length cfg.maxAudioBufferSize
  | _ => s.audio

/-- The frame of a flush whose send returns. -/
def framed (s : ListenBuffers Segment) : Action → List Bytes
  | .flushSent .sent =>
      match s.session.flush with
      | .sending _ _ _ pendingChunks _ => [pendingChunks.flatten]
      | _ => []
  | _ => []

def sessionStep (s : ListenBuffers Segment) (a : Action) : ListenBuffers Segment :=
  let t := a.apply cfg.maxAudioBufferSize s.session
  { s with
    session := t
    receivedAudio := match a with | .audioBytesSend audioBytes => s.receivedAudio ++ [audioBytes] | _ => s.receivedAudio
    audioFrames := s.audioFrames ++ s.framed a
    audio := s.moveAudio cfg t a }

/-! ## Runs -/

/-- Transcript frames are sent by their flush alone. -/
def enabled (s : ListenBuffers Segment) : BufferAction Segment → Bool
  | .session (.frameSent _ (.transcript _)) => false
  | .session a => a.enabled s.session
  | .transcriptSend _ => true
  | .transcriptFlush => (s.transcriptFlush matches .idle)
  | .transcriptSent _ => (s.transcriptFlush matches .sending ..)

def apply (s : ListenBuffers Segment) : BufferAction Segment → ListenBuffers Segment
  | .session a => s.sessionStep cfg a
  | .transcriptSend segments => s.transcriptSend cfg segments
  | .transcriptFlush => s.beginTranscriptFlush dumps
  | .transcriptSent result => s.transcriptSent cfg result

def act (s : ListenBuffers Segment) (a : BufferAction Segment) : Option (ListenBuffers Segment) :=
  if s.enabled a then some (s.apply cfg dumps a) else none

end ListenBuffers
end OmiLocal.Pusher
