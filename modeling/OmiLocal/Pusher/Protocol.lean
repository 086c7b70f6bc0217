import OmiLocal.Lib.Framing
import OmiLocal.Lib.Dict

/-!
# Pusher frames and budgets

The binary frames between a listen session and its pusher, and the bounded buffers the
pusher keeps them in. Payloads of the JSON frames stay opaque. A double is its 64 bits.
-/
namespace OmiLocal.Pusher
open Lib Lib.Framing

/-! ## Frames -/

inductive Frame where
  | heartbeat
  | audio (timestamp : UInt64) (data : Bytes)
  | transcript (payload : Bytes)
  | conversation (id : String)
  | processConversation (payload : Bytes)
  | speakerSample (payload : Bytes)
  deriving DecidableEq

/-- `struct.pack("d", …)`. -/
def packDouble (t : UInt64) : Bytes := (List.range 8).map fun i => UInt8.ofNat (t.toNat / 2 ^ (8 * i))

def unpackDouble (bytes : Bytes) : UInt64 := UInt64.ofNat (fromLittleEndian bytes)

def Frame.header : Frame → Nat
  | .heartbeat => 100
  | .audio _ _ => 101
  | .transcript _ => 102
  | .conversation _ => 103
  | .processConversation _ => 104
  | .speakerSample _ => 105

def Frame.body : Frame → Bytes
  | .heartbeat => []
  | .audio timestamp data => packDouble timestamp ++ data
  | .conversation id => id.toUTF8.data.toList
  | .transcript payload | .processConversation payload | .speakerSample payload => payload

def Frame.encode (frame : Frame) : Bytes := littleEndian32 frame.header ++ frame.body

/-- `frame_header` and the first reads of each branch; `none` is a `ValueError`. -/
def readFrame (data : Bytes) : Option Frame :=
  if data.length < 4 then none
  else
    match fromLittleEndian (data.take 4) with
    | 100 => some .heartbeat
    | 101 => if data.length < 12 then none else some (.audio (unpackDouble ((data.drop 4).take 8)) (data.drop 12))
    | 102 => some (.transcript (data.drop 4))
    | 103 => (String.fromUTF8? ⟨(data.drop 4).toArray⟩).map .conversation
    | 104 => some (.processConversation (data.drop 4))
    | 105 => some (.speakerSample (data.drop 4))
    | _ => none

theorem unpackDouble_packDouble (t : UInt64) : unpackDouble (packDouble t) = t := by
  have small := t.toNat_lt
  apply UInt64.toNat_inj.mp
  rw [unpackDouble, UInt64.toNat_ofNat']
  simp only [packDouble, fromLittleEndian, List.range, List.range.loop, List.map_cons, List.map_nil, List.foldr_cons,
    List.foldr_nil, UInt8.toNat_ofNat']
  omega

theorem fromUTF8?_toUTF8 (s : String) : String.fromUTF8? s.toUTF8 = some s := by
  rw [String.toUTF8_eq_toByteArray, String.fromUTF8?, dif_pos s.isValidUTF8]
  rfl

theorem readFrame_encode (frame : Frame) : readFrame frame.encode = some frame := by
  have header (n : Nat) (small : n < 2 ^ 32) (body : Bytes) :
      fromLittleEndian ((littleEndian32 n ++ body).take 4) = n := fromLittleEndian_littleEndian32 small
  have length (n : Nat) (body : Bytes) : (littleEndian32 n ++ body).length = 4 + body.length := by
    rw [List.length_append]
    rfl
  have body (n : Nat) (body : Bytes) : (littleEndian32 n ++ body).drop 4 = body := rfl
  unfold readFrame Frame.encode
  rw [if_neg (by rw [length]; omega), header _ (by cases frame <;> simp [Frame.header])]
  cases frame with
  | audio timestamp data =>
      have double : (packDouble timestamp).length = 8 := rfl
      have rest (bytes : Bytes) : (littleEndian32 101 ++ bytes).drop 12 = bytes.drop 8 := rfl
      simp only [Frame.header, Frame.body, length, List.length_append, double, body, rest]
      rw [if_neg (by omega), List.take_left' double, List.drop_left' double, unpackDouble_packDouble]
  | conversation id =>
      simp only [Frame.header, Frame.body, body]
      rw [Array.toArray_toList]
      exact congrArg (Option.map Frame.conversation) (fromUTF8?_toUTF8 id)
  | heartbeat => rfl
  | transcript payload => simp only [Frame.header, Frame.body, body]
  | processConversation payload => simp only [Frame.header, Frame.body, body]
  | speakerSample payload => simp only [Frame.header, Frame.body, body]

/-- The conversation that a reader of the frames has last been told. -/
def announced (frames : List Frame) : Option String :=
  frames.foldl (fun known frame => match frame with | .conversation id => some id | _ => known) none

@[simp] theorem announced_nil : announced [] = none := rfl

theorem announced_append (frames : List Frame) (frame : Frame) :
    announced (frames ++ [frame]) = match frame with | .conversation id => some id | _ => announced frames := by
  rw [announced, List.foldl_append]
  rfl

/-! ## Budgets and bounded buffers -/

def privateCloudQueueMaxSize : Nat := 20

def minSampleRate : Nat := 8000

def maxSampleRate : Nat := 48000

def bufferedAudioMaxBytes : Nat := 20 * 1024 * 1024

def privateCloudPendingMaxConversations : Nat := privateCloudQueueMaxSize

structure ByteBudget where
  limit : Nat
  used : Nat
  within : used ≤ limit

def ByteBudget.reserve (b : ByteBudget) (size : Nat) : Option ByteBudget :=
  if fits : b.used + size ≤ b.limit then some { b with used := b.used + size, within := fits } else none

def ByteBudget.release (b : ByteBudget) (size : Nat) : ByteBudget :=
  { b with used := b.used - size, within := (Nat.sub_le _ _).trans b.within }

@[simp] theorem ByteBudget.release_used (b : ByteBudget) (size : Nat) : (b.release size).used = b.used - size := rfl

@[simp] theorem ByteBudget.release_limit (b : ByteBudget) (size : Nat) : (b.release size).limit = b.limit := rfl

theorem ByteBudget.reserve_some {b c : ByteBudget} {size : Nat} (done : b.reserve size = some c) :
    c.used = b.used + size ∧ c.limit = b.limit := by
  unfold reserve at done
  split at done
  · cases done
    exact ⟨rfl, rfl⟩
  · cases done

section Queues
variable {α : Type} (sizeOf : α → Nat)

def totalSize (queue : List α) : Nat := (queue.map sizeOf).sum

@[simp] theorem totalSize_nil : totalSize sizeOf [] = 0 := rfl

@[simp] theorem totalSize_cons (item : α) (queue : List α) :
    totalSize sizeOf (item :: queue) = sizeOf item + totalSize sizeOf queue := by simp [totalSize]

@[simp] theorem totalSize_append (front back : List α) :
    totalSize sizeOf (front ++ back) = totalSize sizeOf front + totalSize sizeOf back := by simp [totalSize]

/-- On a full queue the oldest item makes room. -/
def appendBounded (maxlen : Nat) (queue : List α) (item : α) (budget : ByteBudget) : List α × ByteBudget :=
  if queue.length = maxlen then (queue.tail ++ [item], budget.release (totalSize sizeOf queue.head?.toList))
  else (queue ++ [item], budget)

/-- The item's bytes are already reserved, and what leaves the queue is released. -/
theorem appendBounded_used (maxlen : Nat) (queue : List α) (item : α) {budget : ByteBudget}
    (reserved : totalSize sizeOf queue ≤ budget.used) :
    (appendBounded sizeOf maxlen queue item budget).2.used + (totalSize sizeOf queue + sizeOf item) =
      budget.used + totalSize sizeOf (appendBounded sizeOf maxlen queue item budget).1 := by
  unfold appendBounded
  split
  · cases queue with
    | nil => simp
    | cons oldest queue =>
        simp only [totalSize_cons] at reserved
        simp only [List.tail_cons, List.head?_cons, Option.toList_some, ByteBudget.release_used, totalSize_cons,
          totalSize_nil, totalSize_append]
        omega
  · simp only [totalSize_append, totalSize_cons, totalSize_nil]
    omega

@[simp] theorem appendBounded_limit (maxlen : Nat) (queue : List α) (item : α) (budget : ByteBudget) :
    (appendBounded sizeOf maxlen queue item budget).2.limit = budget.limit := by
  unfold appendBounded
  split <;> rfl

theorem appendBounded_suffix (maxlen : Nat) (queue : List α) (item : α) (budget : ByteBudget) :
    ∃ kept, kept <:+ queue ∧ (appendBounded sizeOf maxlen queue item budget).1 = kept ++ [item] := by
  unfold appendBounded
  split
  · exact ⟨queue.tail, List.tail_suffix queue, rfl⟩
  · exact ⟨queue, List.suffix_refl _, rfl⟩

end Queues

/-! ## Buffers -/

/-- The audio of one frame, with the conversation that was current when it came. -/
structure Piece where
  conversation : Option String
  timestamp : UInt64
  data : Bytes
  deriving DecidableEq

/-- The bytes of a buffer are kept as the pieces that extended it. -/
abbrev Buffer := List Piece

def Buffer.size (buffer : Buffer) : Nat := totalSize (fun piece : Piece => piece.data.length) buffer

def Buffer.bytes (buffer : Buffer) : Bytes := buffer.flatMap Piece.data

@[simp] theorem Buffer.length_bytes (buffer : Buffer) : buffer.bytes.length = buffer.size := by
  simp [Buffer.bytes, Buffer.size, totalSize]

/-- A refused piece is dropped; an empty one adds no bytes. -/
def extendBounded (buffer : Buffer) (piece : Piece) (budget : ByteBudget) : Buffer × ByteBudget :=
  match budget.reserve piece.data.length with
  | some budget => (if piece.data = [] then buffer else buffer ++ [piece], budget)
  | none => (buffer, budget)

theorem extendBounded_used (buffer : Buffer) (piece : Piece) (budget : ByteBudget) :
    (extendBounded buffer piece budget).2.used + buffer.size =
      budget.used + (extendBounded buffer piece budget).1.size := by
  unfold extendBounded
  split
  · rename_i after reservation
    rw [(ByteBudget.reserve_some reservation).1]
    split
    · rename_i empty
      simp [empty]
    · simp only [Buffer.size, totalSize_append, totalSize_cons, totalSize_nil]
      omega
  · rfl

@[simp] theorem extendBounded_limit (buffer : Buffer) (piece : Piece) (budget : ByteBudget) :
    (extendBounded buffer piece budget).2.limit = budget.limit := by
  unfold extendBounded
  split
  · rename_i after reservation
    exact (ByteBudget.reserve_some reservation).2
  · rfl

theorem extendBounded_cases (buffer : Buffer) (piece : Piece) (budget : ByteBudget) :
    (extendBounded buffer piece budget).1 = buffer ∨
      piece.data ≠ [] ∧ (extendBounded buffer piece budget).1 = buffer ++ [piece] := by
  unfold extendBounded
  split
  · split
    · exact .inl rfl
    · rename_i nonempty
      exact .inr ⟨nonempty, rfl⟩
  · exact .inl rfl

end OmiLocal.Pusher
