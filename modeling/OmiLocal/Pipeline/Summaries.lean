import Mathlib.Data.Rat.Floor
import OmiLocal.Lib.Fallible
import OmiLocal.Lib.Json
import OmiLocal.Lib.Loop
import OmiLocal.Pipeline.Transcript

/-!
# Summaries of long recordings

`summarize` cuts the transcript into chunks, asks for a summary of each and asks
again over the joined summaries until one is left. Answers are kept in a cache
under the digest of what was asked. The loops take fuel; a text is the list of its
characters.
-/
namespace OmiLocal.Pipeline
open Lib Lib.Fallible
open Lib.Text (strip stripChars isSpace strip_strip_eq_empty)
open Lib.Json (Value field strField)

def summaryChars : Nat := 12000
def summaryRevision : String := "recording-summary-v1"

/-! ## Chunks -/

/-- `text.rfind(c, 0, stop)` -/
def rfind (c : Char) (text : List Char) (stop : Nat) : Int :=
  (text.take stop).zipIdx.foldl (fun last e => if e.1 = c then (e.2 : Int) else last) (-1)

def chunkBoundary (limit : Nat) (text : List Char) : Nat :=
  let boundary := rfind '\n' text (limit + 1)
  let boundary := if boundary < (limit / 2 : Nat) then rfind ' ' text (limit + 1) else boundary
  (if boundary < (limit / 2 : Nat) then (limit : Int) else boundary).toNat

/-- One pass of the loop over the chunks so far and the text that is left. -/
def chunkPass (limit : Nat) (s : List (List Char) × List Char) :
    Option (Loop.Turn (List (List Char) × List Char) (List (List Char))) :=
  if limit < s.2.length then
    some (.again (s.1 ++ [s.2.take (chunkBoundary limit s.2)], s.2.drop (chunkBoundary limit s.2)))
  else some (.leave (if s.2 = [] then s.1 else s.1 ++ [s.2]))

def textChunks (fuel : Nat) (text : List Char) (limit : Nat) : Option (List (List Char)) :=
  Loop.run (chunkPass limit) fuel ([], text)

/-! ## Checked summaries -/

/-- What `validate_summary` returns. -/
structure Summary where
  title : String
  overview : String
  title_some : strip title ≠ ""
  overview_some : strip overview ≠ ""
  title_short : title.length ≤ 300
  overview_short : overview.length ≤ 4000

theorem length_stripChars_le (cs : List Char) : (stripChars cs).length ≤ cs.length := by
  unfold stripChars
  rw [List.length_reverse]
  refine (List.dropWhile_sublist isSpace).length_le.trans ?_
  rw [List.length_reverse]
  exact (List.dropWhile_sublist isSpace).length_le

theorem length_strip_le (s : String) : (strip s).length ≤ s.length := by
  rw [strip, ← String.length_toList, String.toList_ofList, ← String.length_toList]
  exact length_stripChars_le s.toList

def validateSummary : Value → Except String Summary
  | .obj fields =>
      match strField "title" fields, strField "overview" fields with
      | some title, some overview =>
          if h : strip title ≠ "" ∧ strip overview ≠ "" ∧ title.length ≤ 300 ∧ overview.length ≤ 4000 then
            .ok ⟨strip title, strip overview, mt (strip_strip_eq_empty title).mp h.1,
              mt (strip_strip_eq_empty overview).mp h.2.1, (length_strip_le title).trans h.2.2.1,
              (length_strip_le overview).trans h.2.2.2⟩
          else .error "Summary provider returned an invalid result"
      | _, _ => .error "Summary provider returned an invalid result"
  | _ => .error "Summary provider returned an invalid result"

/-- The checkpoint that holds a summary. -/
def Summary.value (s : Summary) : Value := .obj [("title", .str s.title), ("overview", .str s.overview)]

/-! ## Requests -/

structure Platform where
  sha256 : String → String
  /-- `json.loads`, absent where it raises. -/
  loads : List Char → Option Value

/-- The fence that some servers put around their JSON. -/
def fence : List Char := "```".toList

/-- ``re.sub(r'^```(?:json)?\s*|\s*```$', '', content.strip())`` -/
def unfence (content : List Char) : List Char :=
  let content := stripChars content
  let content :=
    if fence <+: content then
      let rest := content.drop 3
      (if ['j', 's', 'o', 'n'] <+: rest then rest.drop 4 else rest).dropWhile isSpace
    else content
  if fence <:+ content then ((content.take (content.length - 3)).reverse.dropWhile isSpace).reverse else content

/-- The first choice of a response; anything but an object has no `get`. -/
def firstChoice (body : List (String × Value)) : Except String (List (String × Value)) :=
  match field "choices" body with
  | some (.arr (.obj choice :: _)) => .ok choice
  | some (.arr (_ :: _)) => .error "AttributeError"
  | some (.str s) => if s = "" then .error "Summary request failed; transcription retained" else .error "AttributeError"
  | _ => .error "Summary request failed; transcription retained"

variable (p : Platform)

/-- The summary in a response of the provider. -/
def readAnswer (body : List (String × Value)) : Except String Summary := do
  let choice ← firstChoice body
  let failed := "Summary request failed; transcription retained"
  match field "finish_reason" choice with
  | none | some .null | some (.str "stop") =>
      match field "message" choice with
      | some (.obj message) =>
          match strField "content" message with
          | some content =>
              match p.loads (unfence content.toList) with
              | some value => (validateSummary value).mapError fun _ => failed
              | none => .error failed
          | none => .error failed
      | _ => .error failed
  | _ => .error failed

/-- The provider's response to its n-th request; `none` where the request fails. -/
abbrev Provider := Nat → Bool → List Char → Option (List (String × Value))

structure World where
  /-- The checkpoints by their digests. -/
  cache : List (String × Value)
  asked : Nat

def requestDigest (reduction : Bool) (part : List Char) : String :=
  p.sha256 (summaryRevision ++ (if reduction then "True" else "False") ++ String.ofList part)

def request (provider : Provider) (reduction : Bool) (part : List Char) (w : World) : Except String (Summary × World) :=
  match w.cache.find? (fun e => e.1 == requestDigest p reduction part) with
  | some (_, .obj fields) => (validateSummary (.obj fields)).map fun summary => (summary, w)
  | some _ => .error "Invalid processing checkpoint"
  | none =>
      match provider w.asked reduction part with
      | none => .error "Summary request failed; transcription retained"
      | some body => (readAnswer p body).map fun summary =>
          (summary, ⟨(requestDigest p reduction part, summary.value) :: w.cache, w.asked + 1⟩)

def requestAll (provider : Provider) (reduction : Bool) : List (List Char) → World → Except String (List Summary × World)
  | [], w => .ok ([], w)
  | part :: rest, w => do
      let (summary, w) ← request p provider reduction part w
      let (others, w) ← requestAll provider reduction rest w
      return (summary :: others, w)

/-! ## The reduction -/

def notesOf (summaries : List Summary) : List Char :=
  ['\n', '\n'].intercalate (summaries.map fun s => s.title.toList ++ '\n' :: s.overview.toList)

/-- One pass of `while len(summaries) > 1`. -/
def reducePass (provider : Provider) (fuel : Nat) (s : List Summary × World) :
    Option (Loop.Turn (List Summary × World) (Except String (List Summary × World))) :=
  if 1 < s.1.length then
    (textChunks fuel (notesOf s.1) summaryChars).map fun chunks =>
      match requestAll p provider true chunks s.2 with
      | .error e => .leave (.error e)
      | .ok next => .again next
  else some (.leave (.ok s))

/-- `round` to an integer, halves to even. -/
def roundHalfEven (q : ℚ) : Int :=
  let low := ⌊q⌋
  if q - low < 1 / 2 then low
  else if 1 / 2 < q - low then low + 1
  else if low % 2 = 0 then low else low + 1

/-- `f"{q:.1f}"` -/
def oneDecimal (q : ℚ) : String :=
  let tenths := (roundHalfEven (|q| * 10)).toNat
  (if q < 0 then "-" else "") ++ toString (tenths / 10) ++ "." ++ toString (tenths % 10)

def summaryLine (s : Segment) : List Char :=
  let speaker := match s.speaker with
    | some name => if name = "" then "UNKNOWN" else name
    | none => "UNKNOWN"
  ("[" ++ oneDecimal s.start ++ "] " ++ speaker ++ ": " ++ s.text).toList

structure SummarySettings where
  model : String
  language : String

/-- `re.fullmatch(r'[a-z]{2,3}|auto', language)` and a model. -/
def SummarySettings.valid (settings : SummarySettings) : Bool :=
  settings.model ≠ "" && (settings.language == "auto" ||
    (settings.language.toList.all (fun c => 'a' ≤ c && c ≤ 'z') && (settings.language.length == 2 || settings.language.length == 3)))

/-- `none`: still running with this fuel. -/
def summarize (provider : Provider) (settings : SummarySettings) (segments : List Segment) (w : World) (fuel : Nat) :
    Option (Except String (Summary × World)) :=
  if !settings.valid then some (.error "Invalid summary settings")
  else do
    let chunks ← textChunks fuel (['\n'].intercalate (segments.map summaryLine)) summaryChars
    match requestAll p provider false chunks w with
    | .error e => return .error e
    | .ok first =>
        let done ← Loop.run (reducePass p provider fuel) fuel first
        return done.bind fun s =>
          match s.1 with
          | [] => .error "No speech to summarize"
          | summary :: _ => .ok (summary, s.2)

/-! ## The chunks cover the text -/

theorem rfind_lt (c : Char) (text : List Char) (stop : Nat) : rfind c text stop < stop := by
  have bounded : ∀ (es : List (Char × Nat)) (last : Int), last < stop → (∀ e ∈ es, e.2 < stop) →
      es.foldl (fun last e => if e.1 = c then (e.2 : Int) else last) last < stop := by
    intro es
    induction es with
    | nil => exact fun last below _ => below
    | cons e rest ih =>
        intro last below each
        refine ih _ ?_ fun x member => each x (List.mem_cons_of_mem e member)
        dsimp only
        split
        · exact_mod_cast each e List.mem_cons_self
        · exact below
  rcases Nat.eq_zero_or_pos stop with rfl | positive
  · exact Int.negSucc_lt_zero 0
  · refine bounded _ _ (by omega) fun e member => ?_
    have inside := (List.mem_zipIdx' member).1
    rw [List.length_take] at inside
    omega

theorem chunkBoundary_bounds {limit : Nat} (two : 2 ≤ limit) (text : List Char) :
    0 < chunkBoundary limit text ∧ limit / 2 ≤ chunkBoundary limit text ∧ chunkBoundary limit text ≤ limit := by
  have line := rfind_lt '\n' text (limit + 1)
  have space := rfind_lt ' ' text (limit + 1)
  unfold chunkBoundary
  dsimp only
  split_ifs <;> omega

/-- What a list of chunks says about the text. -/
structure Covers (limit : Nat) (text : List Char) (chunks : List (List Char)) : Prop where
  whole : chunks.flatten = text
  pieces : ∀ c ∈ chunks, c ≠ [] ∧ c.length ≤ limit
  /-- All but the last two are half the limit long, and those two together exceed it. -/
  few : 2 ≤ chunks.length → limit / 2 * (chunks.length - 2) + limit < text.length

/-- The loop's state after some passes. -/
structure Chunking (limit : Nat) (text : List Char) (s : List (List Char) × List Char) : Prop where
  whole : s.1.flatten ++ s.2 = text
  pieces : ∀ c ∈ s.1, c ≠ [] ∧ c.length ≤ limit
  long : limit / 2 * s.1.length ≤ s.1.flatten.length
  few : s.1 ≠ [] → limit / 2 * (s.1.length - 1) + limit < text.length

theorem Chunking.pass {limit : Nat} (two : 2 ≤ limit) {text : List Char} {s : List (List Char) × List Char}
    (chunking : Chunking limit text s) :
    (∃ chunks, chunkPass limit s = some (.leave chunks) ∧ Covers limit text chunks) ∨
      ∃ t, chunkPass limit s = some (.again t) ∧ Chunking limit text t ∧ t.2.length < s.2.length := by
  obtain ⟨whole, pieces, long, few⟩ := chunking
  have total := congrArg List.length whole
  rw [List.length_append] at total
  unfold chunkPass
  by_cases more : limit < s.2.length
  · rw [if_pos more]
    obtain ⟨positive, half, most⟩ := chunkBoundary_bounds two s.2
    have cut : (s.2.take (chunkBoundary limit s.2)).length = chunkBoundary limit s.2 := by
      rw [List.length_take]
      omega
    refine .inr ⟨_, rfl, ⟨?_, ?_, ?_, fun _ => ?_⟩, ?_⟩
    · rw [List.flatten_append, List.flatten_singleton, List.append_assoc, List.take_append_drop, whole]
    · intro c member
      rcases List.mem_append.mp member with old | last
      · exact pieces c old
      · rw [List.mem_singleton.mp last]
        exact ⟨List.ne_nil_of_length_pos (by omega), by omega⟩
    · rw [List.length_append, List.length_singleton, List.flatten_append, List.flatten_singleton, List.length_append, cut,
        Nat.mul_succ]
      omega
    · rw [List.length_append, List.length_singleton, Nat.add_sub_cancel]
      omega
    · rw [List.length_drop]
      omega
  · rw [if_neg more]
    refine .inl ⟨_, rfl, ?_⟩
    split
    · rename_i empty
      rw [empty, List.append_nil] at whole
      refine ⟨whole, pieces, fun several => ?_⟩
      have enough := few (List.ne_nil_of_length_pos (by omega))
      have fewer := Nat.mul_le_mul_left (limit / 2) (show s.1.length - 2 ≤ s.1.length - 1 by omega)
      omega
    · rename_i some_
      refine ⟨by rwa [List.flatten_append, List.flatten_singleton], fun c member => ?_, fun several => ?_⟩
      · rcases List.mem_append.mp member with old | last
        · exact pieces c old
        · rw [List.mem_singleton.mp last]
          exact ⟨some_, by omega⟩
      · rw [List.length_append, List.length_singleton] at several ⊢
        exact few (List.ne_nil_of_length_pos (by omega))

theorem textChunks_covers {limit : Nat} (two : 2 ≤ limit) (text : List Char) {fuel : Nat} (enough : text.length < fuel) :
    ∃ chunks, textChunks fuel text limit = some chunks ∧ Covers limit text chunks := by
  refine Loop.run_of_measure (Chunking limit text) (fun s : List (List Char) × List Char => s.2.length) (fun s => Chunking.pass two) ?_ enough
  exact ⟨rfl, fun _ member => (by cases member), Nat.zero_le _, fun some_ => absurd rfl some_⟩

theorem Covers.ne_nil {limit : Nat} {text : List Char} {chunks : List (List Char)} (covers : Covers limit text chunks)
    (some_ : text ≠ []) : chunks ≠ [] := by
  rintro rfl
  exact some_ covers.whole.symm

/-! ## The notes are shorter than the chunks -/

theorem length_note_le (s : Summary) : (s.title.toList ++ '\n' :: s.overview.toList).length ≤ 4301 := by
  have title := s.title_short
  have overview := s.overview_short
  rw [← String.length_toList] at title overview
  rw [List.length_append, List.length_cons]
  omega

theorem length_notesOf_le {summaries : List Summary} (some_ : summaries ≠ []) :
    (notesOf summaries).length + 2 ≤ 4303 * summaries.length := by
  unfold notesOf
  induction summaries with
  | nil => exact absurd rfl some_
  | cons s rest ih =>
      have note := length_note_le s
      cases rest with
      | nil =>
          rw [List.map_singleton, List.intercalate_singleton, List.length_singleton]
          omega
      | cons t rest =>
          have later := ih (List.cons_ne_nil t rest)
          rw [List.map_cons] at later
          rw [List.map_cons, List.map_cons, List.intercalate_cons_cons, List.length_append, List.length_append,
            List.length_cons (a := s)]
          simp only [List.length_cons, List.length_nil] at later ⊢
          omega

theorem notesOf_ne_nil {summaries : List Summary} (some_ : summaries ≠ []) : notesOf summaries ≠ [] := by
  unfold notesOf
  cases summaries with
  | nil => exact absurd rfl some_
  | cons s rest => cases rest <;> simp [List.intercalate_cons_cons]

/-- At least two chunks take more than the notes of as many summaries can hold. -/
theorem Covers.fewer {summaries : List Summary} {chunks : List (List Char)}
    (covers : Covers summaryChars (notesOf summaries) chunks) (several : 1 < summaries.length) :
    chunks.length < summaries.length := by
  have short := length_notesOf_le (List.ne_nil_of_length_pos (by omega : 0 < summaries.length))
  by_contra more
  have long := covers.few (by omega)
  unfold summaryChars at long
  omega

theorem length_le_flatten {chunks : List (List Char)} (pieces : ∀ c ∈ chunks, c ≠ []) :
    chunks.length ≤ chunks.flatten.length := by
  induction chunks with
  | nil => exact Nat.zero_le _
  | cons c rest ih =>
      have first := List.length_pos_iff.mpr (pieces c List.mem_cons_self)
      have later := ih fun d member => pieces d (List.mem_cons_of_mem c member)
      rw [List.length_cons, List.flatten_cons, List.length_append]
      omega

theorem Covers.length_le {limit : Nat} {text : List Char} {chunks : List (List Char)} (covers : Covers limit text chunks) :
    chunks.length ≤ text.length := by
  rw [← covers.whole]
  exact length_le_flatten fun c member => (covers.pieces c member).1

/-! ## Answers -/

variable {p} {provider : Provider}

/-- Every answer passes `validate_summary`. -/
def Provider.Answers (p : Platform) (provider : Provider) : Prop :=
  ∀ n reduction part, ∃ body summary, provider n reduction part = some body ∧ readAnswer p body = .ok summary

/-- The checkpoints hold answers that have passed. -/
def World.Sound (w : World) : Prop :=
  ∀ e ∈ w.cache, ∃ fields summary, e.2 = .obj fields ∧ validateSummary (.obj fields) = .ok summary

theorem Summary.validates (s : Summary) : ∃ t, validateSummary s.value = .ok t := by
  unfold Summary.value validateSummary
  dsimp only
  have title : strField "title" [("title", .str s.title), ("overview", .str s.overview)] = some s.title := by
    simp [strField, field]
  have overview : strField "overview" [("title", .str s.title), ("overview", .str s.overview)] = some s.overview := by
    simp [strField, field]
  rw [title, overview]
  exact ⟨_, dif_pos ⟨s.title_some, s.overview_some, s.title_short, s.overview_short⟩⟩

theorem request_ok (answers : provider.Answers p) {w : World} (sound : w.Sound) (reduction : Bool) (part : List Char) :
    ∃ summary t, request p provider reduction part w = .ok (summary, t) ∧ t.Sound ∧ t.asked ≤ w.asked + 1 := by
  unfold request
  cases found : w.cache.find? (fun e => e.1 == requestDigest p reduction part) with
  | some e =>
      obtain ⟨fields, summary, same, valid⟩ := sound e (List.mem_of_find?_eq_some found)
      obtain ⟨digest, value⟩ := e
      cases same
      refine ⟨summary, w, ?_, sound, Nat.le_succ _⟩
      dsimp only
      rw [valid]
      rfl
  | none =>
      obtain ⟨body, summary, answered, read⟩ := answers w.asked reduction part
      refine ⟨summary, ⟨(requestDigest p reduction part, summary.value) :: w.cache, w.asked + 1⟩, ?_, ?_, le_refl _⟩
      · dsimp only
        rw [answered]
        dsimp only
        rw [read]
        rfl
      · intro e member
        rcases List.mem_cons.mp member with rfl | old
        · obtain ⟨t, valid⟩ := summary.validates
          exact ⟨_, t, rfl, valid⟩
        · exact sound e old

theorem requestAll_ok (answers : provider.Answers p) (reduction : Bool) (parts : List (List Char)) {w : World}
    (sound : w.Sound) :
    ∃ summaries t, requestAll p provider reduction parts w = .ok (summaries, t) ∧ summaries.length = parts.length ∧
      t.Sound ∧ t.asked ≤ w.asked + parts.length := by
  induction parts generalizing w with
  | nil => exact ⟨[], w, rfl, rfl, sound, le_refl _⟩
  | cons part rest ih =>
      obtain ⟨summary, v, first, sound, once⟩ := request_ok answers sound reduction part
      obtain ⟨others, t, later, length, sound, all⟩ := ih sound
      refine ⟨summary :: others, t, ok_bind first (ok_bind later rfl), ?_, sound, ?_⟩
      · rw [List.length_cons, length, List.length_cons]
      · rw [List.length_cons]
        omega

/-- A pass over several summaries leaves fewer of them. -/
theorem reducePass_again (answers : provider.Answers p) {s : List Summary × World} (sound : s.2.Sound)
    (several : 1 < s.1.length) {fuel : Nat} (enough : 4303 * s.1.length ≤ fuel) :
    ∃ t, reducePass p provider fuel s = some (.again t) ∧ 0 < t.1.length ∧ t.1.length < s.1.length ∧ t.2.Sound ∧
      t.2.asked ≤ s.2.asked + t.1.length := by
  have some_ : s.1 ≠ [] := List.ne_nil_of_length_pos (by omega)
  have short := length_notesOf_le some_
  obtain ⟨chunks, cut, covers⟩ := textChunks_covers (show 2 ≤ summaryChars by decide) (notesOf s.1)
    (show _ < fuel by omega)
  obtain ⟨summaries, w, asked, length, sound, count⟩ := requestAll_ok answers true chunks sound
  refine ⟨(summaries, w), ?_, ?_, ?_, sound, by rwa [length]⟩
  · unfold reducePass
    rw [if_pos several, cut, Option.map_some, asked]
  · rw [length]
    exact List.length_pos_iff.mpr (covers.ne_nil (notesOf_ne_nil some_))
  · rw [length]
    exact covers.fewer several

/-- The state of the reduction: `bound` is twice the number of requests it may come to. -/
structure Reducing (most bound : Nat) (s : List Summary × World) : Prop where
  sound : s.2.Sound
  some_ : 0 < s.1.length
  within : s.1.length ≤ most
  requests : 2 * s.2.asked + s.1.length * s.1.length ≤ bound + s.1.length

theorem fewer_requests {k m asked later bound : Nat} (fewer : m < k) (count : later ≤ asked + m)
    (before : 2 * asked + k * k ≤ bound + k) : 2 * later + m * m ≤ bound + m := by
  obtain ⟨d, rfl⟩ := Nat.exists_eq_add_of_lt fewer
  nlinarith [Nat.zero_le (m * d), Nat.zero_le (d * d)]

theorem Reducing.run (answers : provider.Answers p) {most bound fuel : Nat} (enough : 4303 * most < fuel)
    {s : List Summary × World} (start : Reducing most bound s) :
    ∃ r, Loop.run (reducePass p provider fuel) fuel s = some r ∧
      ∃ summary w, r = .ok ([summary], w) ∧ 2 * w.asked ≤ bound := by
  have within := start.within
  refine Loop.run_of_measure (Reducing most bound) (fun s : List Summary × World => s.1.length)
    (fun s reducing => ?_) start (by omega)
  obtain ⟨sound, some_, within, requests⟩ := reducing
  by_cases several : 1 < s.1.length
  · obtain ⟨t, pass, left, fewer, sound, count⟩ := reducePass_again answers sound several (show _ ≤ fuel by omega)
    exact .inr ⟨t, pass, ⟨sound, left, by omega, fewer_requests fewer count requests⟩, fewer⟩
  · obtain ⟨summary, single⟩ := List.length_eq_one_iff.mp (show s.1.length = 1 by omega)
    refine .inl ⟨.ok s, if_neg several, summary, s.2, ?_, ?_⟩
    · rw [← single]
    · rw [single, List.length_singleton] at requests
      omega

theorem summaryText_ne_nil {segments : List Segment} (spoken : segments ≠ []) :
    ['\n'].intercalate (segments.map summaryLine) ≠ [] := by
  have line (s : Segment) : summaryLine s ≠ [] := by
    unfold summaryLine
    intro empty
    have length := congrArg List.length empty
    simp only [String.toList_append, List.length_append, List.length_nil] at length
    have bracket : ("[".toList).length = 1 := rfl
    omega
  cases segments with
  | nil => exact absurd rfl spoken
  | cons s rest =>
      cases rest with
      | nil =>
          rw [List.map_singleton, List.intercalate_singleton]
          exact line s
      | cons t rest => simp [List.intercalate_cons_cons, line s]

/-- The chunks cover the text, each pass of the reduction leaves fewer summaries, and one is left in the end. -/
theorem summaries_reduce_to_one (p : Platform) (provider : Provider) (answers : provider.Answers p)
    (settings : SummarySettings) (valid : settings.valid = true) (segments : List Segment) (spoken : segments ≠ [])
    (w : World) (sound : w.Sound) :
    (∀ limit, 2 ≤ limit → ∀ text, ∃ fuel chunks, textChunks fuel text limit = some chunks ∧ chunks.flatten = text ∧
      ∀ c ∈ chunks, c ≠ [] ∧ c.length ≤ limit) ∧
    (∀ s : List Summary × World, s.2.Sound → 1 < s.1.length →
      ∃ fuel t, reducePass p provider fuel s = some (.again t) ∧ 0 < t.1.length ∧ t.1.length < s.1.length) ∧
    ∃ fuel chunks summary t,
      textChunks fuel (['\n'].intercalate (segments.map summaryLine)) summaryChars = some chunks ∧
      summarize p provider settings segments w fuel = some (.ok (summary, t)) ∧
      2 * t.asked ≤ 2 * w.asked + chunks.length * (chunks.length + 1) := by
  refine ⟨fun limit two text => ?_, fun s sound several => ?_, ?_⟩
  · obtain ⟨chunks, cut, covers⟩ := textChunks_covers two text (Nat.lt_succ_self text.length)
    exact ⟨_, chunks, cut, covers.whole, covers.pieces⟩
  · obtain ⟨t, pass, left, fewer, -⟩ := reducePass_again answers sound several (le_refl _)
    exact ⟨_, t, pass, left, fewer⟩
  · obtain ⟨text, same⟩ : ∃ text, text = ['\n'].intercalate (segments.map summaryLine) := ⟨_, rfl⟩
    have some_ : text ≠ [] := same ▸ summaryText_ne_nil spoken
    obtain ⟨chunks, cut, covers⟩ := textChunks_covers (show 2 ≤ summaryChars by decide) text
      (show _ < 4303 * text.length + 1 by omega)
    have count := covers.length_le
    obtain ⟨summaries, v, first, length, sound, asked⟩ := requestAll_ok answers false chunks sound
    have start : Reducing chunks.length (2 * w.asked + chunks.length * (chunks.length + 1)) (summaries, v) := by
      refine ⟨sound, ?_, length.le, ?_⟩
      · rw [length]
        exact List.length_pos_iff.mpr (covers.ne_nil some_)
      · dsimp only
        rw [length, Nat.mul_succ]
        omega
    obtain ⟨_, done, summary, t, rfl, requests⟩ := start.run answers (show _ < 4303 * text.length + 1 by omega)
    refine ⟨4303 * text.length + 1, chunks, summary, t, same ▸ cut, ?_, requests⟩
    unfold summarize
    rw [valid, ← same]
    simp only [Bool.not_true, Bool.false_eq_true, if_false, Option.bind_eq_bind, Option.pure_def]
    rw [cut, Option.bind_some, first]
    dsimp only
    rw [done]
    rfl

def sampleAnswer : List (String × Value) :=
  [("choices", .arr [.obj [("message", .obj
    [("content", .str "```json\n\x7b\"title\": \"Plan\", \"overview\": \"A call.\"\x7d\n```")])]])]

def samplePlatform : Platform := ⟨id, Json.read⟩

theorem sample_answers : Provider.Answers samplePlatform fun _ _ _ => some sampleAnswer := by
  have read : (readAnswer samplePlatform sampleAnswer).toOption.isSome = true := by decide +kernel
  intro n reduction part
  cases answered : readAnswer samplePlatform sampleAnswer with
  | error e =>
      rw [answered] at read
      cases read
  | ok summary => exact ⟨sampleAnswer, summary, rfl, answered⟩

theorem summaries_reduce_to_one_sample :
    (∀ limit, 2 ≤ limit → ∀ text, ∃ fuel chunks, textChunks fuel text limit = some chunks ∧ chunks.flatten = text ∧
      ∀ c ∈ chunks, c ≠ [] ∧ c.length ≤ limit) ∧
    (∀ s : List Summary × World, s.2.Sound → 1 < s.1.length →
      ∃ fuel t, reducePass samplePlatform (fun _ _ _ => some sampleAnswer) fuel s = some (.again t) ∧ 0 < t.1.length ∧
        t.1.length < s.1.length) ∧
    ∃ fuel chunks summary t,
      textChunks fuel (['\n'].intercalate (swappedWords.segments.map summaryLine)) summaryChars = some chunks ∧
      summarize samplePlatform (fun _ _ _ => some sampleAnswer) ⟨"model", "auto"⟩ swappedWords.segments ⟨[], 0⟩ fuel =
        some (.ok (summary, t)) ∧
      2 * t.asked ≤ 2 * 0 + chunks.length * (chunks.length + 1) :=
  summaries_reduce_to_one samplePlatform _ sample_answers ⟨"model", "auto"⟩ (by decide +kernel) swappedWords.segments
    (by decide) ⟨[], 0⟩ fun _ member => (by cases member)

end OmiLocal.Pipeline
