import OmiLocal.Lib.Json
import OmiLocal.Lib.Text
import OmiLocal.Lib.Transition

/-!
# Live translation

`LiveTranslator` as a state machine. Everything between two awaits is one step:
snapshots, language changes, the settle timer, the queued tasks and the worker,
which waits for the provider and for each of its own messages to be sent.
The history of answers and messages is kept beside the source's fields.
-/
namespace OmiLocal.Translation
open Lib.Json Lib.Text

abbrev Fields := List (String × Value)

def batchLines : Nat := 8
def batchChars : Nat := 4000
def lineChars : Nat := 2000

/-- A language code that `normalizeLanguage` lets through. -/
structure Code where
  text : String
  shape : (text.toList.length = 2 ∨ text.toList.length = 3) ∧
    text.toList.all (fun c => decide ('a' ≤ c ∧ c ≤ 'z')) = true
deriving DecidableEq

def Code.ofText (text : String) : Option Code :=
  if h : (text.toList.length = 2 ∨ text.toList.length = 3) ∧
      text.toList.all (fun c => decide ('a' ≤ c ∧ c ≤ 'z')) = true then some ⟨text, h⟩ else none

/-- The target language and, in a conversation, the language it is spoken with. -/
structure Pair where
  language : Code
  otherLanguage : Option Code
deriving DecidableEq

/-- `lower` is `str.lower`. -/
def normalizeLanguage (lower : String → String) : Value → Option Code
  | .str value => Code.ofText (lower (strip value))
  | _ => none

def normalizeLanguages (lower : String → String) (language otherLanguage : Value) : Option Pair :=
  match otherLanguage with
  | .null | .str "" => (normalizeLanguage lower language).map (⟨·, none⟩)
  | _ =>
      match normalizeLanguage lower language, normalizeLanguage lower otherLanguage with
      | some language, some other => if language = other then none else some ⟨language, some other⟩
      | _, _ => none

/-! ## Answers -/

/-- The row that is shown beside a line. -/
structure Row where
  lang : String
  text : String

def Row.json (row : Row) : Value := .obj [("lang", .str row.lang), ("text", .str row.text)]

/-- One item of an answer in a conversation between two languages. -/
def validateItem (language other : Code) : Value → Option Row
  | .obj fields => do
      let source ← strField "source_lang" fields
      if source ≠ language.text ∧ source ≠ other.text ∧ source ≠ "other" then none
      else
        let target := if source = language.text then other.text else language.text
        let lang ← strField "lang" fields
        let text ← strField "text" fields
        if lang ≠ target ∨ strip text = "" then none else some ⟨target, strip text⟩
  | _ => none

def validateText (language : Code) : Value → Option Row
  | .str text => some ⟨language.text, strip text⟩
  | _ => none

/-- `validate_answer`, with each item already as the row that the worker makes of it. -/
def validateAnswer (pair : Pair) (expected : Nat) : Value → Option (List Row)
  | .arr items =>
      if items.length ≠ expected then none
      else match pair.otherLanguage with
        | some other => items.mapM (validateItem pair.language other)
        | none => items.mapM (validateText pair.language)
  | _ => none

/-- A batch, the pair it was requested under, and the provider's answer. -/
structure Exchange where
  pair : Pair
  batch : List String
  answer : Value

/-- What an item of an answer gives, apart from surrounding white space. -/
def Says (pair : Pair) (item : Value) (row : Row) : Prop :=
  match pair.otherLanguage with
  | none => row.lang = pair.language.text ∧ ∃ text, item = .str text ∧ row.text = strip text
  | some other => (row.lang = pair.language.text ∨ row.lang = other.text) ∧
      ∃ fields text, item = .obj fields ∧ strField "lang" fields = some row.lang ∧
        strField "text" fields = some text ∧ row.text = strip text

/-- The provider answered the batch with one item a text, and `row` stands where `text` does. -/
def Exchange.Gives (exchange : Exchange) (text : String) (row : Row) : Prop :=
  exchange.batch.length ≤ batchLines ∧
    ∃ (items : List Value) (index : Nat) (item : Value), exchange.answer = .arr items ∧ items.length = exchange.batch.length ∧
      exchange.batch[index]? = some text ∧ items[index]? = some item ∧
      Says exchange.pair item row ∧ row.text ≠ ""

/-! ## The translator -/

inductive Status where
  | unconfigured
  | ready
  | failed
deriving DecidableEq

inductive Task where
  | publish
  | status (status : Status)

inductive Worker where
  | absent
  | waiting
  | requesting (pair : Pair) (batch : List String)
  | reporting (status : Status) (pair : Pair) (batch : List String)
  | publishing (pair : Pair) (batch : List String)
  | stopped

/-- The first language that is set creates the worker. -/
def Worker.started : Worker → Worker
  | .absent => .waiting
  | worker => worker

/-- A message as it left: under which pair, from which snapshot, after which answers. -/
structure Output where
  pair : Option Pair
  snapshot : Fields
  message : Fields
  exchanges : List Exchange

structure LiveTranslator where
  configured : Bool
  selected : Option Pair
  cache : String × Pair → Option (Option Row)
  pending : List String
  queued : List (String × Pair)
  reported : List Status
  last : Option Fields
  wake : Bool
  worker : Worker
  settleText : Option String
  statusTasks : List Task
  exchanges : List Exchange
  outputs : List Output

namespace LiveTranslator

def active (t : LiveTranslator) : Option Pair := if t.configured then t.selected else none

def store (key : String × Pair) (value : Option Row) (t : LiveTranslator) : LiveTranslator :=
  { t with cache := fun other => if other = key then some value else t.cache other }

def enqueue (pair : Pair) (text : String) (t : LiveTranslator) : LiveTranslator :=
  if text.toList.length > lineChars then t.store (text, pair) none
  else { t with pending := t.pending ++ [text], queued := (text, pair) :: t.queued, wake := true }

end LiveTranslator

/-- The text of a committed line; other entries of a snapshot pass unchanged. -/
def lineText : Value → Option String
  | .obj fields =>
      match field "text" fields with
      | some (.str text) => if strip text = "" then none else some (strip text)
      | _ => none
  | _ => none

def withTranslations (rows : List Row) : Value → Value
  | .obj fields => .obj (setField "translations" (.arr (rows.map Row.json)) fields)
  | line => line

def sentenceEnd (text : String) : Bool :=
  let terminal (c : Char) : Bool := c == '.' || c == '!' || c == '?' || c == '…'
  let closing (c : Char) : Bool := c == '"' || c == '»' || c == '”' || c == ')' || c == ']'
  match text.toList.reverse.dropWhile Lib.Text.isSpace with
  | c :: d :: _ => terminal c || (closing c && terminal d)
  | [c] => terminal c
  | [] => false

/-- The loop of `annotate`; the last component is the line that is still settling. -/
def annotateLines (pair : Pair) :
    List Value → LiveTranslator → Option String → LiveTranslator × List Value × Option String
  | [], t, settling => (t, [], settling)
  | line :: rest, t, settling =>
      match lineText line with
      | none =>
          let (t', rows, settling') := annotateLines pair rest t settling
          (t', line :: rows, settling')
      | some text =>
          let row := withTranslations ((t.cache (text, pair)).join.toList) line
          let (u, settling₁) :=
            if (t.cache (text, pair)).isSome ∨ (text, pair) ∈ t.queued then (t, settling)
            else if rest ≠ [] ∨ sentenceEnd text then (t.enqueue pair text, settling)
            else (t, some text)
          let (t', rows, settling') := annotateLines pair rest u settling₁
          (t', row :: rows, settling')

def annotate (t : LiveTranslator) (message : Fields) : LiveTranslator × Fields :=
  match field "lines" message with
  | some (.arr lines) =>
      match t.active with
      | none => ({ t with last := some message }, message)
      | some pair =>
          let (t', rows, settling) := annotateLines pair lines { t with last := some message } none
          ({ t' with settleText := settling }, setField "lines" (.arr rows) message)
  | _ => (t, message)

/-- `annotate` and the record of what it returned. -/
def emit (t : LiveTranslator) (message : Fields) : LiveTranslator :=
  let (t', result) := annotate t message
  { t' with outputs := t.outputs ++ [⟨t.active, message, result, t.exchanges⟩] }

def publish (t : LiveTranslator) : LiveTranslator :=
  match t.last with
  | some message => emit t message
  | none => t

def setLanguage (lower : String → String) (t : LiveTranslator) (value otherLanguage : Value) :
    LiveTranslator :=
  let selected := normalizeLanguages lower value otherLanguage
  if selected = t.selected then t
  else
    let tasks := if t.last.isSome then t.statusTasks ++ [.publish] else t.statusTasks
    let u := { t with selected := selected, pending := [], queued := [], settleText := none,
                      statusTasks := tasks }
    if selected = none then u
    else if t.configured then { u with worker := t.worker.started }
    else if .unconfigured ∈ t.reported then u
    else { u with statusTasks := tasks ++ [.status .unconfigured] }

def settled (t : LiveTranslator) (text : String) : LiveTranslator :=
  let u := { t with settleText := none }
  match t.active, t.last with
  | some pair, some message =>
      if (t.cache (text, pair)).isSome then u
      else match field "lines" message with
        | some (.arr lines) =>
            match lines.getLast? with
            | some (.obj tail) =>
                match field "text" tail with
                | some (.str line) => if strip line = text then u.enqueue pair text else u
                | _ => u
            | _ => u
        | _ => u
  | _, _ => u

/-! ## The worker -/

/-- `_take_batch`: the batch so far, its characters, and the texts still pending. -/
def takeBatch : List String → List String → Nat → List String × List String
  | batch, [], _ => (batch, [])
  | batch, text :: pending, size =>
      if batch.length ≥ batchLines then (batch, text :: pending)
      else if batch ≠ [] ∧ size + text.toList.length > batchChars then (batch, text :: pending)
      else takeBatch (batch ++ [text]) pending (size + text.toList.length)

/-- The head of `while self.pending` up to the request. -/
def nextBatch (t : LiveTranslator) : LiveTranslator :=
  if t.pending = [] then { t with worker := .waiting }
  else match t.selected with
    | none => { t with pending := [], queued := [], worker := .waiting }
    | some pair =>
        let (batch, pending) := takeBatch [] t.pending 0
        { t with pending := pending, worker := .requesting pair batch }

def discard (pair : Pair) (batch : List String) (t : LiveTranslator) : LiveTranslator :=
  { t with queued := t.queued.filter (fun key => decide (key ∉ batch.map (·, pair))) }

def finish (pair : Pair) (batch : List String) (t : LiveTranslator) : LiveTranslator :=
  nextBatch (discard pair batch t)

def report (status : Status) (pair : Pair) (batch : List String) (t : LiveTranslator) : LiveTranslator :=
  { t with reported := status :: t.reported, worker := .reporting status pair batch }

/-- The `else` branch once the status is out. -/
def afterReady (pair : Pair) (batch : List String) (t : LiveTranslator) : LiveTranslator :=
  if t.last.isSome ∧ t.selected = some pair then
    { publish t with worker := .publishing pair batch }
  else finish pair batch t

def storeRows (pair : Pair) : List (String × Row) → LiveTranslator → LiveTranslator
  | [], t => t
  | (text, row) :: rest, t =>
      storeRows pair rest (t.store (text, pair) (if row.text = "" then none else some row))

def storeFailure (pair : Pair) : List String → LiveTranslator → LiveTranslator
  | [], t => t
  | text :: rest, t => storeFailure pair rest (t.store (text, pair) none)

def answered (pair : Pair) (batch : List String) (reply : Option Value) (t : LiveTranslator) :
    LiveTranslator :=
  match reply, reply.bind (validateAnswer pair batch.length) with
  | some answer, some rows =>
      let u := storeRows pair (batch.zip rows)
        { t with exchanges := t.exchanges ++ [⟨pair, batch, answer⟩] }
      if u.selected = some pair ∧ .ready ∉ u.reported then report .ready pair batch u
      else afterReady pair batch u
  | _, _ =>
      let u := storeFailure pair batch t
      if u.selected = some pair ∧ .failed ∉ u.reported then report .failed pair batch u
      else finish pair batch u

inductive Action where
  | annotate (message : Fields)
  | setLanguage (value otherLanguage : Value)
  | settled
  | wake
  | answered (reply : Option Value)
  | sent
  | sendFailed
  | task
  | close

def step (lower : String → String) (t : LiveTranslator) : Action → Option LiveTranslator
  | .annotate message => some (emit t message)
  | .setLanguage value other => some (setLanguage lower t value other)
  | .settled => t.settleText.map (settled t)
  | .wake =>
      match t.worker with
      | .waiting => if t.wake then some (nextBatch { t with wake := false }) else none
      | _ => none
  | .answered reply =>
      match t.worker with
      | .requesting pair batch => some (answered pair batch reply t)
      | _ => none
  | .sent =>
      match t.worker with
      | .reporting .ready pair batch => some (afterReady pair batch t)
      | .reporting _ pair batch => some (finish pair batch t)
      | .publishing pair batch => some (finish pair batch t)
      | _ => none
  | .sendFailed =>
      match t.worker with
      | .reporting _ pair batch => some { discard pair batch t with worker := .stopped }
      | .publishing pair batch => some { discard pair batch t with worker := .stopped }
      | _ => none
  | .task =>
      match t.statusTasks with
      | .publish :: rest => some (publish { t with statusTasks := rest })
      | .status status :: rest =>
          some { t with statusTasks := rest,
                        reported := if status ∈ t.reported then t.reported else status :: t.reported }
      | [] => none
  | .close => some { t with settleText := none, worker := .stopped, statusTasks := [] }

def start (configured : Bool) : LiveTranslator where
  configured := configured
  selected := none
  cache := fun _ => none
  pending := []
  queued := []
  reported := []
  last := none
  wake := false
  worker := .absent
  settleText := none
  statusTasks := []
  exchanges := []
  outputs := []

/-! ## What a message may carry -/

/-- A line of the message beside the line of the snapshot at its place. -/
def LineFaithful (pair : Pair) (exchanges : List Exchange) (line row : Value) : Prop :=
  match lineText line with
  | none => row = line
  | some text => row = withTranslations [] line ∨
      ∃ translation : Row, row = withTranslations [translation] line ∧
        ∃ exchange ∈ exchanges, exchange.pair = pair ∧ exchange.Gives text translation

/-- The message is its snapshot, or, while translation is active, its snapshot
with faithful lines in the snapshot's order. -/
def Output.Faithful (output : Output) : Prop :=
  match field "lines" output.snapshot, output.pair with
  | some (.arr lines), some pair => ∃ rows, output.message = setField "lines" (.arr rows) output.snapshot ∧
      List.Forall₂ (LineFaithful pair output.exchanges) lines rows
  | _, _ => output.message = output.snapshot

def Worker.Bounded : Worker → Prop
  | .requesting _ batch => batch.length ≤ batchLines
  | _ => True

/-- Every cached row was given for its text under its pair. -/
def CacheSound (t : LiveTranslator) : Prop :=
  ∀ text pair row, t.cache (text, pair) = some (some row) →
    ∃ exchange ∈ t.exchanges, exchange.pair = pair ∧ exchange.Gives text row

structure Sound (t : LiveTranslator) : Prop where
  cache : CacheSound t
  worker : t.worker.Bounded
  outputs : ∀ output ∈ t.outputs, output.Faithful

/-- The history is the same and no row is new. -/
structure Keeps (t u : LiveTranslator) : Prop where
  cache : ∀ key row, u.cache key = some (some row) → t.cache key = some (some row)
  exchanges : u.exchanges = t.exchanges
  outputs : u.outputs = t.outputs

theorem Keeps.refl (t : LiveTranslator) : Keeps t t := ⟨fun _ _ h => h, rfl, rfl⟩

theorem Keeps.trans {t u v : LiveTranslator} (first : Keeps t u) (second : Keeps u v) : Keeps t v :=
  ⟨fun key row h => first.cache key row (second.cache key row h),
    second.exchanges.trans first.exchanges, second.outputs.trans first.outputs⟩

theorem Keeps.cacheSound {t u : LiveTranslator} (keeps : Keeps t u) (sound : CacheSound t) :
    CacheSound u := by
  intro text pair row h
  rw [keeps.exchanges]
  exact sound text pair row (keeps.cache _ _ h)

theorem Keeps.sound {t u : LiveTranslator} (keeps : Keeps t u) (bounded : u.worker.Bounded)
    (sound : Sound t) : Sound u :=
  ⟨keeps.cacheSound sound.cache, bounded, by rw [keeps.outputs]; exact sound.outputs⟩

/-! ## Steps that bring no row -/

theorem keeps_store_none (key : String × Pair) (t : LiveTranslator) : Keeps t (t.store key none) := by
  refine ⟨fun other row h => ?_, rfl, rfl⟩
  by_cases same : other = key
  · simp [LiveTranslator.store, same] at h
  · simpa [LiveTranslator.store, same] using h

theorem keeps_enqueue (pair : Pair) (text : String) (t : LiveTranslator) :
    Keeps t (t.enqueue pair text) ∧ (t.enqueue pair text).worker = t.worker := by
  unfold LiveTranslator.enqueue
  split
  · exact ⟨keeps_store_none _ t, rfl⟩
  · exact ⟨⟨fun _ _ h => h, rfl, rfl⟩, rfl⟩

theorem keeps_storeFailure (pair : Pair) (batch : List String) (t : LiveTranslator) :
    Keeps t (storeFailure pair batch t) := by
  induction batch generalizing t with
  | nil => exact Keeps.refl t
  | cons text rest ih => exact (keeps_store_none (text, pair) t).trans (ih _)

theorem takeBatch_bounded (batch pending : List String) (size : Nat) (h : batch.length ≤ batchLines) :
    (takeBatch batch pending size).1.length ≤ batchLines := by
  induction pending generalizing batch size with
  | nil => exact h
  | cons text pending ih =>
      unfold takeBatch
      split_ifs
      · exact h
      · exact h
      · refine ih _ _ ?_
        rw [List.length_append, List.length_singleton]
        omega

theorem keeps_nextBatch (t : LiveTranslator) : Keeps t (nextBatch t) ∧ (nextBatch t).worker.Bounded := by
  unfold nextBatch
  split
  · exact ⟨⟨fun _ _ h => h, rfl, rfl⟩, trivial⟩
  · split
    · exact ⟨⟨fun _ _ h => h, rfl, rfl⟩, trivial⟩
    · exact ⟨⟨fun _ _ h => h, rfl, rfl⟩, takeBatch_bounded [] _ 0 (Nat.zero_le _)⟩

theorem keeps_finish (pair : Pair) (batch : List String) (t : LiveTranslator) :
    Keeps t (finish pair batch t) ∧ (finish pair batch t).worker.Bounded := by
  obtain ⟨keeps, bounded⟩ := keeps_nextBatch (discard pair batch t)
  exact ⟨⟨keeps.cache, keeps.exchanges, keeps.outputs⟩, bounded⟩

theorem Worker.Bounded.started {worker : Worker} (bounded : worker.Bounded) : worker.started.Bounded := by
  cases worker with
  | absent => trivial
  | _ => exact bounded

theorem keeps_setLanguage (lower : String → String) (t : LiveTranslator) (value other : Value)
    (bounded : t.worker.Bounded) :
    Keeps t (setLanguage lower t value other) ∧ (setLanguage lower t value other).worker.Bounded := by
  unfold setLanguage
  dsimp only
  by_cases same : normalizeLanguages lower value other = t.selected
  · rw [if_pos same]
    exact ⟨Keeps.refl t, bounded⟩
  · rw [if_neg same]
    split
    · exact ⟨⟨fun _ _ h => h, rfl, rfl⟩, bounded⟩
    · split
      · exact ⟨⟨fun _ _ h => h, rfl, rfl⟩, bounded.started⟩
      · split <;> exact ⟨⟨fun _ _ h => h, rfl, rfl⟩, bounded⟩

theorem keeps_settled (t : LiveTranslator) (text : String) :
    Keeps t (settled t text) ∧ (settled t text).worker = t.worker := by
  have still : Keeps t { t with settleText := none } := ⟨fun _ _ h => h, rfl, rfl⟩
  unfold settled
  dsimp only
  split
  · rename_i pair message _ _
    split
    · exact ⟨still, rfl⟩
    · repeat' split
      · obtain ⟨keeps, worker⟩ := keeps_enqueue pair text { t with settleText := none }
        exact ⟨still.trans keeps, worker⟩
      all_goals exact ⟨still, rfl⟩
  · exact ⟨still, rfl⟩

/-! ## Messages -/

theorem lineFaithful_cached {t : LiveTranslator} (sound : CacheSound t) {pair : Pair} {line : Value}
    {text : String} (isText : lineText line = some text) :
    LineFaithful pair t.exchanges line
      (withTranslations ((t.cache (text, pair)).join.toList) line) := by
  rw [LineFaithful, isText]
  dsimp only
  cases cached : t.cache (text, pair) with
  | none => exact .inl rfl
  | some entry =>
      cases entry with
      | none => exact .inl rfl
      | some row => exact .inr ⟨row, rfl, sound text pair row cached⟩

theorem annotateLines_faithful (pair : Pair) (lines : List Value) {t : LiveTranslator}
    (sound : CacheSound t) (settling : Option String) :
    Keeps t (annotateLines pair lines t settling).1 ∧
      (annotateLines pair lines t settling).1.worker = t.worker ∧
      List.Forall₂ (LineFaithful pair t.exchanges) lines (annotateLines pair lines t settling).2.1 := by
  induction lines generalizing t settling with
  | nil => exact ⟨Keeps.refl t, rfl, .nil⟩
  | cons line rest ih =>
      unfold annotateLines
      split
      · rename_i other
        obtain ⟨keeps, worker, faithful⟩ := ih sound settling
        refine ⟨keeps, worker, .cons ?_ faithful⟩
        rw [LineFaithful, other]
      · rename_i text isText
        dsimp only
        -- The queue changes before the later lines are looked up, but no row is new.
        have queued : ∀ u s, (if (t.cache (text, pair)).isSome ∨ (text, pair) ∈ t.queued then (t, settling)
            else if rest ≠ [] ∨ sentenceEnd text then (t.enqueue pair text, settling)
            else (t, some text)) = (u, s) → Keeps t u ∧ u.worker = t.worker := by
          intro u s h
          split_ifs at h
          · cases h
            exact ⟨Keeps.refl t, rfl⟩
          · cases h
            exact keeps_enqueue pair text t
          · cases h
            exact ⟨Keeps.refl t, rfl⟩
        obtain ⟨first, sameWorker⟩ := queued _ _ rfl
        obtain ⟨keeps, worker, faithful⟩ := ih (first.cacheSound sound) _
        refine ⟨first.trans keeps, worker.trans sameWorker, .cons (lineFaithful_cached sound isText) ?_⟩
        rw [first.exchanges] at faithful
        exact faithful

theorem annotate_faithful {t : LiveTranslator} (sound : CacheSound t) (message : Fields) :
    Keeps t (annotate t message).1 ∧ (annotate t message).1.worker = t.worker ∧
      (⟨t.active, message, (annotate t message).2, t.exchanges⟩ : Output).Faithful := by
  unfold annotate Output.Faithful
  dsimp only
  cases found : field "lines" message with
  | none => exact ⟨Keeps.refl t, rfl, rfl⟩
  | some value =>
      cases value with
      | arr lines =>
          cases active : t.active with
          | none => exact ⟨⟨fun _ _ h => h, rfl, rfl⟩, rfl, rfl⟩
          | some pair =>
              have remembered : CacheSound { t with last := some message } := sound
              obtain ⟨keeps, worker, faithful⟩ := annotateLines_faithful pair lines remembered none
              exact ⟨⟨keeps.cache, keeps.exchanges, keeps.outputs⟩, worker, _, rfl, faithful⟩
      | _ => exact ⟨Keeps.refl t, rfl, rfl⟩

theorem sound_emit {t : LiveTranslator} (sound : Sound t) (message : Fields) : Sound (emit t message) := by
  obtain ⟨keeps, worker, faithful⟩ := annotate_faithful sound.cache message
  refine ⟨keeps.cacheSound sound.cache, ?_, ?_⟩
  · change (annotate t message).1.worker.Bounded
    rw [worker]
    exact sound.worker
  · intro output member
    rcases List.mem_append.mp member with old | new
    · exact sound.outputs output old
    · rw [List.mem_singleton.mp new]
      exact faithful

theorem sound_publish {t : LiveTranslator} (sound : Sound t) : Sound (publish t) := by
  unfold publish
  split
  · exact sound_emit sound _
  · exact sound

theorem Sound.withWorker {t : LiveTranslator} (sound : Sound t) {worker : Worker}
    (bounded : worker.Bounded) : Sound { t with worker := worker } :=
  ⟨sound.cache, bounded, sound.outputs⟩

theorem sound_afterReady {t : LiveTranslator} (sound : Sound t) (pair : Pair) (batch : List String) :
    Sound (afterReady pair batch t) := by
  unfold afterReady
  split
  · exact (sound_publish sound).withWorker trivial
  · obtain ⟨keeps, bounded⟩ := keeps_finish pair batch t
    exact keeps.sound bounded sound

/-! ## Answers reach the cache -/

theorem says_validateItem {pair : Pair} {other : Code} (conversation : pair.otherLanguage = some other)
    {item : Value} {row : Row} (h : validateItem pair.language other item = some row) :
    Says pair item row := by
  rw [Says, conversation]
  cases item with
  | obj fields =>
      cases source : strField "source_lang" fields with
      | none => simp [validateItem, source] at h
      | some source' =>
          cases lang : strField "lang" fields with
          | none => simp [validateItem, source, lang] at h
          | some lang' =>
              cases text : strField "text" fields with
              | none => simp [validateItem, source, lang, text] at h
              | some text' =>
                  simp only [validateItem, source, lang, text, Option.bind_eq_bind, Option.bind_some] at h
                  split_ifs at h with unknown toOther refused refused
                  all_goals
                    cases h
                    have own := not_or.mp refused
                    simp only [ne_eq, not_not] at own
                    refine ⟨?_, fields, text', rfl, by rw [lang, own.1], text, rfl⟩
                  · exact .inr rfl
                  · exact .inl rfl
  | _ => cases h

theorem says_validateText {pair : Pair} (single : pair.otherLanguage = none) {item : Value} {row : Row}
    (h : validateText pair.language item = some row) : Says pair item row := by
  rw [Says, single]
  cases item with
  | str text =>
      cases h
      exact ⟨rfl, text, rfl, rfl⟩
  | _ => cases h

/-- An accepted answer has one row for each text, in order, each saying its item. -/
theorem validateAnswer_spec {pair : Pair} {expected : Nat} {answer : Value} {rows : List Row}
    (h : validateAnswer pair expected answer = some rows) :
    ∃ items, answer = .arr items ∧ items.length = expected ∧ List.Forall₂ (Says pair) items rows := by
  have each : ∀ (f : Value → Option Row), (∀ item row, f item = some row → Says pair item row) →
      ∀ (items : List Value) (rows : List Row), items.mapM f = some rows →
        List.Forall₂ (Says pair) items rows := by
    intro f stated items
    induction items with
    | nil =>
        intro rows h
        cases h
        exact .nil
    | cons item items ih =>
        intro rows h
        rw [List.mapM_cons] at h
        simp only [Option.bind_eq_bind, Option.pure_def, Option.bind_eq_some_iff, Option.some.injEq] at h
        obtain ⟨row, first, rest, others, rfl⟩ := h
        exact .cons (stated item row first) (ih rest others)
  cases answer with
  | arr items =>
      simp only [validateAnswer] at h
      split_ifs at h with length
      refine ⟨items, rfl, by omega, ?_⟩
      cases conversation : pair.otherLanguage with
      | none =>
          rw [conversation] at h
          exact each _ (fun _ _ => says_validateText conversation) items rows h
      | some other =>
          rw [conversation] at h
          exact each _ (fun _ _ => says_validateItem conversation) items rows h
  | _ => cases h

theorem storeRows_cases (pair : Pair) (entries : List (String × Row)) (t : LiveTranslator)
    {key : String × Pair} {row : Row}
    (h : (storeRows pair entries t).cache key = some (some row)) :
    t.cache key = some (some row) ∨
      key.2 = pair ∧ row.text ≠ "" ∧ ∃ index : Nat, entries[index]? = some (key.1, row) := by
  induction entries generalizing t with
  | nil => exact .inl h
  | cons entry rest ih =>
      obtain ⟨text, first⟩ := entry
      rcases ih _ h with old | ⟨samePair, shown, index, found⟩
      · by_cases same : key = (text, pair)
        · subst same
          simp only [LiveTranslator.store, if_true, Option.some.injEq] at old
          split_ifs at old with blank
          cases old
          exact .inr ⟨rfl, blank, 0, rfl⟩
        · simp only [LiveTranslator.store, if_neg same] at old
          exact .inl old
      · exact .inr ⟨samePair, shown, index + 1, found⟩

theorem storeRows_frame (pair : Pair) (entries : List (String × Row)) (t : LiveTranslator) :
    (storeRows pair entries t).exchanges = t.exchanges ∧ (storeRows pair entries t).outputs = t.outputs ∧
      (storeRows pair entries t).worker = t.worker := by
  induction entries generalizing t with
  | nil => exact ⟨rfl, rfl, rfl⟩
  | cons entry rest ih => exact ih _

theorem sound_storeRows {t : LiveTranslator} (sound : Sound t) {pair : Pair} {batch : List String}
    (bounded : batch.length ≤ batchLines) {answer : Value} {rows : List Row}
    (accepted : validateAnswer pair batch.length answer = some rows) :
    Sound (storeRows pair (batch.zip rows)
      { t with exchanges := t.exchanges ++ [⟨pair, batch, answer⟩] }) := by
  obtain ⟨exchanges, outputs, worker⟩ := storeRows_frame pair (batch.zip rows)
    { t with exchanges := t.exchanges ++ [⟨pair, batch, answer⟩] }
  refine ⟨?_, by rw [worker]; exact sound.worker, by rw [outputs]; exact sound.outputs⟩
  intro text other row h
  rw [exchanges]
  rcases storeRows_cases pair _ _ h with old | ⟨samePair, shown, index, found⟩
  · obtain ⟨exchange, member, rest⟩ := sound.cache text other row old
    exact ⟨exchange, List.mem_append_left _ member, rest⟩
  · obtain ⟨items, array, length, stated⟩ := validateAnswer_spec accepted
    obtain ⟨batchAt, rowAt⟩ := List.getElem?_zip_eq_some.mp found
    have inside : index < items.length := by
      rw [stated.length_eq]
      exact (List.getElem?_eq_some_iff.mp rowAt).1
    refine ⟨⟨pair, batch, answer⟩, List.mem_append_right _ (List.mem_singleton.mpr rfl), samePair.symm,
      bounded, items, index, items[index], array, length, batchAt, List.getElem?_eq_getElem inside, ?_, shown⟩
    have paired := stated.get inside (by rw [← stated.length_eq]; exact inside)
    rw [List.getElem?_eq_some_iff] at rowAt
    obtain ⟨_, rfl⟩ := rowAt
    exact paired

theorem sound_answered {t : LiveTranslator} (sound : Sound t) {pair : Pair} {batch : List String}
    (bounded : batch.length ≤ batchLines) (reply : Option Value) :
    Sound (answered pair batch reply t) := by
  unfold answered
  split
  · rename_i answer rows accepted
    have stored := sound_storeRows sound bounded accepted
    dsimp only
    split
    · exact ⟨stored.cache, trivial, stored.outputs⟩
    · exact sound_afterReady stored pair batch
  · have failed := (keeps_storeFailure pair batch t)
    dsimp only
    split
    · exact Keeps.sound ⟨failed.cache, failed.exchanges, failed.outputs⟩ trivial sound
    · obtain ⟨keeps, done⟩ := keeps_finish pair batch (storeFailure pair batch t)
      exact (failed.trans keeps).sound done sound

/-! ## Runs -/

theorem sound_step (lower : String → String) {t u : LiveTranslator} {action : Action} (sound : Sound t)
    (h : step lower t action = some u) : Sound u := by
  cases action with
  | annotate message =>
      cases h
      exact sound_emit sound message
  | setLanguage value other =>
      cases h
      obtain ⟨keeps, bounded⟩ := keeps_setLanguage lower t value other sound.worker
      exact keeps.sound bounded sound
  | settled =>
      obtain ⟨text, -, rfl⟩ := Option.map_eq_some_iff.mp h
      obtain ⟨keeps, worker⟩ := keeps_settled t text
      exact keeps.sound (by rw [worker]; exact sound.worker) sound
  | wake =>
      simp only [step] at h
      split at h
      · split_ifs at h
        cases h
        obtain ⟨keeps, bounded⟩ := keeps_nextBatch { t with wake := false }
        exact keeps.sound bounded ⟨sound.cache, sound.worker, sound.outputs⟩
      · cases h
  | answered reply =>
      simp only [step] at h
      split at h
      · rename_i pair batch requesting
        cases h
        have bounded := sound.worker
        rw [requesting] at bounded
        exact sound_answered sound bounded reply
      · cases h
  | sent =>
      simp only [step] at h
      split at h
      · cases h
        exact sound_afterReady sound _ _
      · cases h
        exact (keeps_finish _ _ t).1.sound (keeps_finish _ _ t).2 sound
      · cases h
        exact (keeps_finish _ _ t).1.sound (keeps_finish _ _ t).2 sound
      · cases h
  | sendFailed =>
      simp only [step] at h
      split at h
      · cases h
        exact ⟨sound.cache, trivial, sound.outputs⟩
      · cases h
        exact ⟨sound.cache, trivial, sound.outputs⟩
      · cases h
  | task =>
      simp only [step] at h
      split at h
      · cases h
        exact sound_publish ⟨sound.cache, sound.worker, sound.outputs⟩
      · cases h
        exact ⟨sound.cache, sound.worker, sound.outputs⟩
      · cases h
  | close =>
      cases h
      exact ⟨sound.cache, trivial, sound.outputs⟩

/-- A run of the translator, with or without a configured provider. -/
def Runs (lower : String → String) : LiveTranslator → Prop :=
  Lib.Transition.Reachable (fun t => ∃ configured, t = start configured)
    (fun t action u => step lower t action = some u)

theorem sound_run (lower : String → String) {t : LiveTranslator} (run : Runs lower t) : Sound t := by
  refine run.invariant ?_ (fun _ _ _ sound h => sound_step lower sound h)
  rintro _ ⟨configured, rfl⟩
  refine ⟨fun text pair row h => ?_, trivial, fun output member => ?_⟩
  · cases h
  · cases member

/-- Every message of every run is its snapshot with, at most, the provider's own
translation of each line under the pair selected when the message was made. -/
theorem messages_faithful (lower : String → String) {t : LiveTranslator} (run : Runs lower t) :
    ∀ output ∈ t.outputs, output.Faithful :=
  (sound_run lower run).outputs

def runActions (lower : String → String) : LiveTranslator → List Action → Option LiveTranslator
  | t, [] => some t
  | t, action :: rest => (step lower t action).bind (runActions lower · rest)

theorem runs_of_runActions {lower : String → String} {actions : List Action} {t u : LiveTranslator}
    (run : Runs lower t) (h : runActions lower t actions = some u) : Runs lower u := by
  induction actions generalizing t with
  | nil =>
      cases h
      exact run
  | cons action rest ih =>
      obtain ⟨v, first, h⟩ := Option.bind_eq_some_iff.mp h
      exact ih (run.next first) h

/-- A line is shown, the provider answers it, and the line is published again. -/
def answeredLine : List Action :=
  [.setLanguage (.str " EN") .null, .annotate [("lines", .arr [.obj [("text", .str " Да. ")]])], .wake,
    .answered (some (.arr [.str "Yes."])), .sent]

theorem messages_faithful_answeredLine :
    ∃ t, runActions (fun text => if text = "EN" then "en" else text) (start true) answeredLine = some t ∧
      t.outputs.length = 2 ∧ ∀ output ∈ t.outputs, output.Faithful := by
  have outputs : (runActions (fun text => if text = "EN" then "en" else text) (start true)
      answeredLine).map (fun t => t.outputs.length) = some 2 := by decide +kernel
  obtain ⟨t, run, length⟩ := Option.map_eq_some_iff.mp outputs
  exact ⟨t, run, length, messages_faithful _ (runs_of_runActions (.start ⟨true, rfl⟩) run)⟩

end OmiLocal.Translation
