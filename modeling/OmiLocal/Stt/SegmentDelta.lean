import OmiLocal.Lib.Transition
import OmiLocal.Stt.Segments

/-!
# The streamed segment delta

A client that applies every answer of `combine_segments` to its own list keeps the
server's transcript, up to the white space that the server normalises in segments
it has already sent. The loop keeps the tail of the transcript, or drops it once,
and otherwise works on new segments only: that fixes the ids of what it joins.
-/
namespace OmiLocal.Stt

open Lib.Text

def ids (segments : List TranscriptSegment) : List String := segments.map (·.id)

@[simp] theorem ids_append (front back : List TranscriptSegment) : ids (front ++ back) = ids front ++ ids back :=
  List.map_append

/-- The text without its white space. -/
def words (text : Text) : Text := text.filter (fun c => !isSpace c)

/-- What the client has to agree on. -/
structure View where
  id : String
  start : ℚ
  stop : ℚ
  speaker : Option String
  words : Text
deriving DecidableEq

def TranscriptSegment.view (s : TranscriptSegment) : View := ⟨s.id, s.start, s.stop, s.speaker, words s.text⟩

def views (segments : List TranscriptSegment) : List View := segments.map (·.view)

/-! ### Normalised text -/

theorem words_dropWhile (text : Text) : words (text.dropWhile isSpace) = words text := by
  induction text with
  | nil => rfl
  | cons c rest ih =>
      rw [List.dropWhile_cons]
      split
      · rename_i space
        rw [ih]
        simp [words, space]
      · rfl

theorem words_reverse (text : Text) : words text.reverse = (words text).reverse := by
  simp [words, List.filter_reverse]

theorem words_stripChars (text : Text) : words (stripChars text) = words text := by
  rw [stripChars, words_reverse, words_dropWhile, words_reverse, List.reverse_reverse, words_dropWhile]

/-- A pair whose first character is a blank loses that blank only. -/
theorem words_replacePair (y : Char) (text : Text) : words (replacePair ' ' y y text) = words text := by
  have blank : isSpace ' ' = true := by decide
  fun_induction replacePair ' ' y y text with
  | case1 a b rest pair ih =>
      obtain ⟨rfl, rfl⟩ := pair
      simp only [words, List.filter_cons, blank] at ih ⊢
      rw [ih]
      simp
  | case2 a b rest other ih =>
      simp only [words, List.filter_cons] at ih ⊢
      rw [ih]
  | case3 => rfl

theorem view_normalize (s : TranscriptSegment) : (normalize s).view = s.view := by
  simp only [TranscriptSegment.view, normalize, normalizeText, words_replacePair, words_stripChars]

theorem views_normalize (segments : List TranscriptSegment) : views (segments.map normalize) = views segments := by
  simp [views, view_normalize]

theorem ids_normalize (segments : List TranscriptSegment) : ids (segments.map normalize) = ids segments := by
  simp [ids, normalize]

theorem ids_views (segments : List TranscriptSegment) : (views segments).map (·.id) = ids segments := by
  simp [ids, views, TranscriptSegment.view]

/-! ### Ids through a merge -/

variable {classes : CharClass}

structure Merged.Keeps (a b : TranscriptSegment) (merged : Merged) : Prop where
  left : merged.left.id = a.id
  right : ∀ s ∈ merged.right, s.id = b.id

theorem mergeSameVoice_keeps (a b : TranscriptSegment) : (mergeSameVoice classes a b).Keeps a b := by
  rw [mergeSameVoice]
  split
  · exact ⟨rfl, by simp [absorb]⟩
  · split
    · exact ⟨rfl, by simp [absorb]⟩
    · exact ⟨rfl, by simp⟩

theorem mergeAcross_keeps {a b : TranscriptSegment} {merged : Merged} (across : mergeAcross classes a b = some merged) :
    merged.Keeps a b := by
  rw [mergeAcross] at across
  split at across
  · cases across
  · simp only at across
    split at across
    · cases across
      exact ⟨rfl, by simp⟩
    · split at across
      · cases across
        exact ⟨rfl, by simp⟩
      · split at across
        · split at across <;> cases across <;> exact ⟨rfl, by simp⟩
        · cases across

theorem merge_keeps (a b : TranscriptSegment) : (merge classes a b).Keeps a b := by
  rw [merge]
  split
  · exact ⟨rfl, by simp⟩
  · split
    · cases across : mergeAcross classes a b with
      | none => exact mergeSameVoice_keeps a b
      | some merged => exact mergeAcross_keeps across
    · exact mergeSameVoice_keeps a b

theorem shift_id (deltaSeconds : Int) (s : TranscriptSegment) : (shift deltaSeconds s).id = s.id := by
  rw [shift]
  split <;> rfl

theorem Merged.Keeps.right_ids {a b : TranscriptSegment} {merged : Merged} (keeps : merged.Keeps a b) :
    (ids merged.right.toList).Sublist [b.id] := by
  cases shape : merged.right with
  | none => exact List.nil_sublist _
  | some s =>
      have same := keeps.right s shape
      simp [ids, same]

/-! ### The loop -/

def tailIds (tail : Option TranscriptSegment) : List String := (tail.map (·.id)).toList

/-- The joined ids are the tail's, unless it was dropped, and some of the new ones in order. -/
structure Joins (tail : Option TranscriptSegment) (seen : List String) (join : Join) : Prop where
  shape : ∃ fresh, fresh.Sublist seen ∧
    ids join.joined = (if join.droppedExistingTail then [] else tailIds tail) ++ fresh
  removed : join.removedIds = if join.droppedExistingTail then tailIds tail else []

section Loop

variable {tail : Option TranscriptSegment} {seen : List String} {join : Join} {new : TranscriptSegment}

theorem tailIds_length (tail : Option TranscriptSegment) : (tailIds tail).length ≤ 1 := by
  cases tail <;> simp [tailIds]

/-- The last joined segment is the tail itself or a new segment. -/
theorem Joins.last (joins : Joins tail seen join) {kept : List TranscriptSegment} {last : TranscriptSegment}
    (split : join.joined = kept ++ [last]) (apart : ∀ id ∈ tailIds tail, id ∉ seen) :
    (kept = [] ∧ join.droppedExistingTail = false ∧ tailIds tail = [last.id]) ∨
    (last.id ∉ tailIds tail ∧ ∃ fresh, (fresh ++ [last.id]).Sublist seen ∧
      ids kept = (if join.droppedExistingTail then [] else tailIds tail) ++ fresh) := by
  obtain ⟨fresh, part, shape⟩ := joins.shape
  rw [split, ids_append] at shape
  rcases List.eq_nil_or_concat fresh with rfl | ⟨front, final, rfl⟩
  · rw [List.append_nil] at shape
    have short := congrArg List.length shape
    have bound := tailIds_length tail
    split at shape
    · simp [ids] at shape
    · rename_i present
      rw [if_neg present] at short
      simp only [ids, List.length_append, List.length_map, List.length_cons, List.length_nil] at short
      have none : kept = [] := List.length_eq_zero_iff.mp (by omega)
      subst none
      exact .inl ⟨rfl, Bool.eq_false_iff.mpr present, shape.symm⟩
  · rw [List.concat_eq_append, ← List.append_assoc] at shape
    obtain ⟨same, last_eq⟩ := List.append_inj' shape rfl
    have final_eq : last.id = final := by simpa [ids] using last_eq
    rw [List.concat_eq_append, ← final_eq] at part
    refine .inr ⟨?_, front, part, same⟩
    intro member
    exact apart _ member (part.subset (by simp))

theorem joinOne_joins (joins : Joins tail seen join) (apart : ∀ id ∈ tailIds tail, id ∉ seen) (deltaSeconds : Int) :
    Joins tail (seen ++ [new.id]) (joinOne classes tail deltaSeconds join new) := by
  have grow : ∀ {front back : List String}, front.Sublist seen → back.Sublist [new.id] →
      (front ++ back).Sublist (seen ++ [new.id]) := fun left right => left.append right
  rcases List.eq_nil_or_concat join.joined with none | ⟨kept, last, split⟩
  · obtain ⟨fresh, _, shape⟩ := joins.shape
    simp only [joinOne, none, List.getLast?_nil]
    refine ⟨⟨[new.id], List.sublist_append_right _ _, ?_⟩, joins.removed⟩
    have empty := (List.append_eq_nil_iff.mp (shape.symm.trans (by rw [none]; rfl))).1
    simp only [empty]
    simp [ids, shift_id]
  · rw [List.concat_eq_append] at split
    have keeps : (merge classes last (shift deltaSeconds new)).Keeps last (shift deltaSeconds new) := merge_keeps _ _
    have right := keeps.right_ids
    rw [shift_id] at right
    simp only [joinOne, split, List.getLast?_concat, List.dropLast_concat]
    split
    · split
      · rename_i existing
        have tail_eq : last.id ∈ tailIds tail := by simp [tailIds, existing, keeps.left]
        rcases joins.last split apart with ⟨rfl, present, only⟩ | ⟨other, _⟩
        · refine ⟨⟨_, right.trans (List.sublist_append_right _ _), ?_⟩, ?_⟩
          · simp
          · simp only [joins.removed, present, keeps.left, only]
            simp
        · exact absurd tail_eq other
      · rename_i other
        have not_tail : tailIds tail ≠ [last.id] := by
          intro only
          apply other
          rw [keeps.left]
          cases tail with
          | none => simp [tailIds] at only
          | some t => simpa [tailIds] using only
        rcases joins.last split apart with ⟨_, _, only⟩ | ⟨_, fresh, part, before⟩
        · exact absurd only not_tail
        · refine ⟨⟨fresh ++ _, grow ((List.sublist_append_left _ _).trans part) right, ?_⟩, joins.removed⟩
          simp only [ids_append, before, List.append_assoc]
    · obtain ⟨fresh, part, shape⟩ := joins.shape
      refine ⟨⟨fresh ++ _, grow part right, ?_⟩, joins.removed⟩
      rw [split, ids_append] at shape
      have same : ids [(merge classes last (shift deltaSeconds new)).left] = ids [last] := by simp [ids, keeps.left]
      simp only [ids_append, same]
      rw [shape, List.append_assoc]

theorem foldl_joins (classes : CharClass) (deltaSeconds : Int) (news : List TranscriptSegment) (joins : Joins tail seen join)
    (apart : ∀ id ∈ tailIds tail, id ∉ seen ++ ids news) :
    Joins tail (seen ++ ids news) (news.foldl (joinOne classes tail deltaSeconds) join) := by
  induction news generalizing seen join with
  | nil => simpa [ids] using joins
  | cons new rest ih =>
      have next : Joins tail (seen ++ [new.id]) (joinOne classes tail deltaSeconds join new) := by
        apply joinOne_joins joins
        intro id member seen_member
        exact apart id member (List.mem_append_left _ seen_member)
      have after := ih next (by simpa [ids] using apart)
      simpa [ids] using after

end Loop

/-! ### One call -/

structure Fresh (segments news : List TranscriptSegment) : Prop where
  distinct : (ids news).Nodup
  apart : ∀ id ∈ ids segments, id ∉ ids news

/-- The joined segments take the place of the tail. -/
structure Answer (segments news : List TranscriptSegment) (combined : Combined) : Prop where
  replaced : ∃ join, Joins segments.getLast? (ids news) join ∧ combined.removedIds = join.removedIds ∧
    combined.updated = join.joined.map normalize ∧
    combined.segments = (segments.dropLast ++ join.joined).map normalize

theorem combineSegments_answer {segments news : List TranscriptSegment} (some : news ≠ []) (fresh : Fresh segments news)
    (deltaSeconds : Int) : Answer segments news (combineSegments classes segments news deltaSeconds) := by
  have start : Joins segments.getLast? [] ⟨segments.getLast?.toList, [], false⟩ := by
    refine ⟨⟨[], List.Sublist.refl [], ?_⟩, rfl⟩
    cases segments.getLast? <;> simp [ids, tailIds]
  have apart : ∀ id ∈ tailIds segments.getLast?, id ∉ [] ++ ids news := by
    intro id member
    obtain ⟨tail, final, rfl⟩ : ∃ tail, segments.getLast? = .some tail ∧ tail.id = id := by
      simpa [tailIds] using member
    exact fresh.apart _ (List.mem_map_of_mem (List.mem_of_getLast? final))
  have joins := foldl_joins classes deltaSeconds news start apart
  rw [List.nil_append] at joins
  refine ⟨_, joins, ?_⟩
  rw [combineSegments, if_neg (by simpa using some)]
  refine ⟨rfl, rfl, ?_⟩
  simp only
  split
  · rfl
  · rename_i kept
    cases final : segments.getLast? with
    | none =>
        rw [List.getLast?_eq_none_iff.mp final]
        rfl
    | some tail =>
        exfalso
        obtain ⟨rest, _, shape⟩ := joins.shape
        rw [not_or] at kept
        rw [if_neg kept.1, final] at shape
        apply kept.2
        rw [final]
        have first := congrArg List.head? shape
        simpa [ids, tailIds] using first.symm

def upsert (client : List TranscriptSegment) (s : TranscriptSegment) : List TranscriptSegment :=
  if s.id ∈ ids client then client.map (fun t => if t.id = s.id then s else t) else client ++ [s]

/-- The client deletes the removed ids, then replaces or appends each updated segment by its id. -/
def applyDelta (client : List TranscriptSegment) (combined : Combined) : List TranscriptSegment :=
  combined.updated.foldl upsert (client.filter (fun s => s.id ∉ combined.removedIds))

theorem foldl_upsert_new {client news : List TranscriptSegment} (distinct : (ids client ++ ids news).Nodup) :
    news.foldl upsert client = client ++ news := by
  induction news generalizing client with
  | nil => simp
  | cons new rest ih =>
      have absent : new.id ∉ ids client := by
        intro member
        exact (List.nodup_append.mp distinct).2.2 _ member new.id (by simp [ids]) rfl
      rw [List.foldl_cons, upsert, if_neg absent, ih]
      · simp
      · simpa [ids] using distinct

theorem upsert_last {front : List TranscriptSegment} {old new : TranscriptSegment} (same : old.id = new.id)
    (absent : new.id ∉ ids front) : upsert (front ++ [old]) new = front ++ [new] := by
  rw [upsert, if_pos (by simp [ids, same]), List.map_append]
  congr 1
  · refine (List.map_congr_left ?_).trans (List.map_id front)
    intro t member
    rw [if_neg]
    · rfl
    · intro equal
      exact absent (equal ▸ List.mem_map_of_mem member)
  · simp [same]

theorem Fresh.distinct_ids {segments news : List TranscriptSegment} (fresh : Fresh segments news)
    (distinct : (ids segments).Nodup) {join : Join} (joins : Joins segments.getLast? (ids news) join) :
    (ids segments.dropLast ++ ids join.joined).Nodup := by
  have all : (ids segments ++ ids news).Nodup := by
    refine List.nodup_append.mpr ⟨distinct, fresh.distinct, ?_⟩
    rintro id member _ new rfl
    exact fresh.apart id member new
  obtain ⟨rest, part, shape⟩ := joins.shape
  have front : (ids segments.dropLast ++ (if join.droppedExistingTail then [] else tailIds segments.getLast?)).Sublist
      (ids segments) := by
    rcases List.eq_nil_or_concat segments with rfl | ⟨front, tail, rfl⟩
    · split <;> simp [ids, tailIds]
    · split <;> simp [ids, tailIds]
  rw [shape, ← List.append_assoc]
  exact all.sublist (front.append part)

/-! ### Server and client -/

structure Replica where
  server : List TranscriptSegment
  client : List TranscriptSegment

structure Call where
  news : List TranscriptSegment
  deltaSeconds : Int

namespace Replica

def Initial (r : Replica) : Prop := r.client = r.server ∧ (ids r.server).Nodup

def call (classes : CharClass) (r : Replica) (c : Call) : Replica :=
  let combined := combineSegments classes r.server c.news c.deltaSeconds
  ⟨combined.segments, applyDelta r.client combined⟩

def Step (classes : CharClass) (r : Replica) (c : Call) (t : Replica) : Prop :=
  Fresh r.server c.news ∧ t = r.call classes c

structure InSync (r : Replica) : Prop where
  views : views r.client = views r.server
  distinct : (ids r.server).Nodup

end Replica

theorem client_tail {client front : List TranscriptSegment} {tail : TranscriptSegment}
    (same : views client = views (front ++ [tail])) :
    ∃ clientFront clientTail, client = clientFront ++ [clientTail] ∧ views clientFront = views front ∧
      clientTail.view = tail.view := by
  rcases List.eq_nil_or_concat client with rfl | ⟨clientFront, clientTail, rfl⟩
  · simp [views] at same
  · rw [List.concat_eq_append] at same ⊢
    simp only [views, List.map_append, List.map_cons, List.map_nil] at same
    obtain ⟨fronts, tails⟩ := List.append_inj' same rfl
    exact ⟨clientFront, clientTail, rfl, fronts, List.singleton_inj.mp tails⟩

theorem ids_of_views {left right : List TranscriptSegment} (same : views left = views right) : ids left = ids right := by
  rw [← ids_views, ← ids_views, same]

/-- The client ends with its old front and the joined segments. -/
theorem applyDelta_views {client segments news : List TranscriptSegment} {combined : Combined}
    (same : views client = views segments) (distinct : (ids segments).Nodup) (fresh : Fresh segments news)
    (answer : Answer segments news combined) : views (applyDelta client combined) = views combined.segments := by
  obtain ⟨join, joins, removed, updated, server⟩ := answer.replaced
  have apart := fresh.distinct_ids distinct joins
  have removed_eq := removed.trans joins.removed
  rw [server, views_normalize, applyDelta, updated]
  rcases List.eq_nil_or_concat segments with rfl | ⟨front, tail, rfl⟩
  · have none : client = [] := by simpa [views] using same
    rw [none, List.filter_nil, foldl_upsert_new]
    · simp [views, view_normalize]
    · rw [ids_normalize]
      exact apart
  · rw [List.concat_eq_append] at same distinct joins apart removed_eq ⊢
    obtain ⟨clientFront, clientTail, rfl, fronts, tails⟩ := client_tail same
    have clientIds := ids_of_views fronts
    have tailId : clientTail.id = tail.id := congrArg View.id tails
    have absent : tail.id ∉ ids clientFront := by
      rw [clientIds]
      intro member
      rw [ids_append] at distinct
      exact (List.nodup_append.mp distinct).2.2 _ member tail.id (by simp [ids]) rfl
    rw [List.dropLast_concat] at apart ⊢
    obtain ⟨rest, _, shape⟩ := joins.shape
    rw [List.getLast?_concat] at shape removed_eq
    have goal : views (clientFront ++ join.joined.map normalize) = views (front ++ join.joined) := by
      simp only [views, List.map_append] at fronts ⊢
      rw [fronts]
      congr 1
      exact views_normalize join.joined
    rw [← goal, removed_eq]
    by_cases dropped : join.droppedExistingTail
    · -- the client deletes the tail, so every joined segment is new to it
      have filtered : (clientFront ++ [clientTail]).filter
          (fun s => s.id ∉ if join.droppedExistingTail then tailIds (some tail) else []) = clientFront := by
        rw [List.filter_append, List.filter_eq_self.mpr]
        · simp [dropped, tailIds, tailId]
        · intro s member
          have other : s.id ≠ tail.id := fun equal => absent (equal ▸ List.mem_map_of_mem member)
          simp [dropped, tailIds, other]
      rw [filtered, foldl_upsert_new]
      rwa [ids_normalize, clientIds]
    · -- the first joined segment replaces the tail in place
      rw [if_neg dropped] at shape
      cases joined : join.joined with
      | nil => simp [joined, ids, tailIds] at shape
      | cons first others =>
          have first_id : first.id = tail.id := by
            rw [joined] at shape
            simpa [ids, tailIds] using congrArg List.head? shape
          have kept : (clientFront ++ [clientTail]).filter
              (fun s => s.id ∉ if join.droppedExistingTail then tailIds (some tail) else []) =
                clientFront ++ [clientTail] := by
            rw [if_neg dropped]
            simp
          rw [kept, List.map_cons, List.foldl_cons, upsert_last, foldl_upsert_new]
          · simp
          · rw [joined] at apart
            rw [ids_append, clientIds, ids_normalize]
            simpa [ids, normalize] using apart
          · exact tailId.trans first_id.symm
          · exact first_id ▸ absent

theorem Replica.InSync.step {r t : Replica} {c : Call} (sync : r.InSync) (step : r.Step classes c t) : t.InSync := by
  obtain ⟨fresh, rfl⟩ := step
  by_cases none : c.news = []
  · simpa [Replica.call, combineSegments, none, applyDelta] using sync
  · have answer : Answer r.server c.news (combineSegments classes r.server c.news c.deltaSeconds) :=
      combineSegments_answer none fresh c.deltaSeconds
    constructor
    · exact applyDelta_views sync.views sync.distinct fresh answer
    · obtain ⟨join, joins, _, _, server⟩ := answer.replaced
      rw [Replica.call, server, ids_normalize, ids_append]
      exact fresh.distinct_ids sync.distinct joins

/-- After any sequence of calls the client shows the server's transcript. -/
theorem delta_reproduces_transcript {r : Replica} (reachable : Lib.Transition.Reachable Replica.Initial (Replica.Step classes) r) :
    r.InSync := by
  apply reachable.invariant
  · rintro s ⟨same, distinct⟩
    exact ⟨by rw [same], distinct⟩
  · intro s c t sync step
    exact sync.step step

def asciiLetters : CharClass := ⟨Char.isAlpha, Char.isLower⟩

def spoken (id text : String) (speaker : String) (start stop : ℚ) : TranscriptSegment :=
  ⟨id, text.toList, some speaker, false, start, stop, true, none, none⟩

def unfinished : List TranscriptSegment := [spoken "a" "and" "SPEAKER_00" 0 1]

def continued : Call := ⟨[spoken "b" "the long story goes on." "SPEAKER_01" 1 4], 0⟩

/-- The unfinished sentence moves to the next voice and the client drops the segment it came from. -/
theorem delta_reproduces_dropped_tail :
    (combineSegments asciiLetters unfinished continued.news 0).removedIds = ["a"] ∧
      (Replica.call asciiLetters ⟨unfinished, unfinished⟩ continued).InSync := by
  refine ⟨by decide +kernel, ?_⟩
  have opened : Lib.Transition.Reachable Replica.Initial (Replica.Step asciiLetters) ⟨unfinished, unfinished⟩ :=
    .start ⟨rfl, by decide⟩
  have fresh : Fresh unfinished continued.news := ⟨by decide, by decide⟩
  exact delta_reproduces_transcript (opened.next ⟨fresh, rfl⟩)

end OmiLocal.Stt
