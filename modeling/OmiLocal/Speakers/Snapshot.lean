import OmiLocal.Lib.Bisect
import OmiLocal.Lib.Text
import OmiLocal.Lib.Values
import OmiLocal.Speakers.History

/-!
# Labelled snapshots

`labeled_snapshot`: the rows of a transcript message get the speakers of the voice turns, a
row with accepted word times is split where the voice changes, and visible rows get session
numbers. Numbers are exact; the cast of a text to a float and the test for a letter or digit
are the built-ins of the language.
-/
namespace OmiLocal.Speakers
open Lib Lib.Values Lib.Bisect

structure Builtins where
  isalnum : Char → Bool
  /-- `float(text)`: absent where it raises, and an absent number where it is not finite. -/
  float : String → Option (Option ℚ)

def natural (q : ℚ) : Option ℚ := if 0 ≤ q then some q else none

/-- The `:` separated fields of a clock time; what is not finite stays so. -/
def clock (b : Builtins) (text : String) : Option ℚ :=
  ((text.toList.splitOn ':').foldlM (fun result field =>
    (b.float (String.ofList field)).map fun value => Option.map₂ (fun x y => x * 60 + y) result value)
    (some 0)).join

def seconds (b : Builtins) : Value → Option ℚ
  | .int n => natural n
  | .float q => natural q
  | .str text => (clock b text).bind natural
  | _ => none

/-! ## The speaker of an item -/

def turnLe (a b : Turn Int) : Bool :=
  if a.start ≠ b.start then decide (a.start < b.start)
  else if a.stop ≠ b.stop then decide (a.stop < b.stop)
  else decide (a.label ≤ b.label)

def sorted (turns : List (Turn Int)) : List (Turn Int) := turns.mergeSort turnLe

/-- `max_ends`, with its last entry. -/
def maxEnds : Option ℚ → List (Turn Int) → List ℚ
  | _, [] => []
  | last, t :: rest => last.elim t.stop (max t.stop) :: maxEnds (some (last.elim t.stop (max t.stop))) rest

def shared (start stop : ℚ) (t : Turn Int) : ℚ := max 0 (min stop t.stop - max start t.start)

abbrev Votes := List (Int × ℚ)

def vote (start stop : ℚ) (votes : Votes) (t : Turn Int) : Votes :=
  if shared start stop t = 0 then votes
  else Dict.put votes t.label ((Dict.get votes t.label).getD 0 + shared start stop t)

/-- `max(votes, key=votes.get)`: the first of several greatest. -/
def favourite : Votes → Int
  | [] => -1
  | first :: rest => (rest.foldl (fun best e => if best.2 < e.2 then e else best) first).1

def speaker (b : Builtins) (turns : List (Turn Int)) (covered : ℚ) (item : Entries) : Int :=
  match seconds b (fetch item "start"), seconds b (fetch item "end") with
  | some start, some stop =>
    if stop ≤ start ∨ covered < stop then -1
    else
      favourite (((turns.take (searchLeft (turns.map Turn.start) stop)).drop
        (searchRight (maxEnds none turns) start)).foldl (vote start stop) [])
  | _, _ => -1

/-! ## Rows -/

def textOf (item : Entries) (key : String) : String := ((fetch item key).text).getD ""

/-- `''.join(w['word'] for w in words)`. -/
def spoken (words : List Entries) : List Char := words.flatMap fun word => (textOf word "word").toList

def wordEntries : Value → Option (List Entries)
  | .list items => items.mapM Value.entries
  | _ => none

def timed (b : Builtins) (word : Entries) : Option (ℚ × ℚ) := do
  let start ← seconds b (fetch word "start")
  let stop ← seconds b (fetch word "end")
  pure (start, stop)

/-- The words of a line that can be split by them. -/
def acceptedWords (b : Builtins) (line : Entries) : Option (List Entries) := do
  let words ← wordEntries (fetch line "words")
  let _ ← words.mapM fun word => (fetch word "word").text
  let times ← words.mapM (timed b)
  if times.all (fun time => decide (time.1 ≤ time.2)) ∧
      (times.zip times.tail).all (fun pair => !decide (pair.2.1 < pair.1.1)) then
    let text ← (fetch line "text").text
    if Text.stripChars (spoken words) = Text.stripChars text.toList then some words else none
  else none

/-- Zero-length punctuation. -/
def silent (b : Builtins) (word : Entries) : Bool :=
  match timed b word with
  | some (start, stop) => decide (start = stop) && !(textOf word "word").toList.any b.isalnum
  | none => false

/-- A run of words with one speaker, each of them labelled. -/
abbrev Group := Int × List Entries

def addWord (b : Builtins) (voice : Entries → Int) (groups : List Group) (word : Entries) : List Group :=
  match groups.getLast? with
  | none => [(voice word, [Dict.put word "speaker" (.int (voice word))])]
  | some last =>
    let label := if silent b word then last.1 else voice word
    let labeled := Dict.put word "speaker" (.int label)
    if last.1 ≠ label then groups ++ [(label, [labeled])] else groups.dropLast ++ [(label, last.2 ++ [labeled])]

def lastEnd (b : Builtins) (words : List Entries) : ℚ :=
  (words.filterMap fun word => (timed b word).map Prod.snd).foldl max 0

def groupRow (b : Builtins) (line : Entries) (single : Bool) (group : Group) : Entries :=
  let text := if single then fetch line "text" else .str (String.ofList (Text.stripChars (spoken group.2)))
  let row := Dict.put line "text" text
  let row := Dict.put row "start" (fetch (group.2.headD []) "start")
  let row := Dict.put row "end" (.float (lastEnd b group.2))
  let row := Dict.put row "speaker" (.int group.1)
  Dict.put row "words" (.list (group.2.map Value.dict))

def isTrue : Value → Bool
  | .bool b => b
  | _ => false

/-- The line goes the way of its words. -/
def wordy (line : Entries) : Bool :=
  !(fetch line "speaker").same (.int (-2)) && !isTrue (fetch line "is_draft") && (fetch line "words").truthy

def labelLine (b : Builtins) (voice : Entries → Int) (line : Entries) : List Entries :=
  if (fetch line "speaker").same (.int (-2)) then [line]
  else if isTrue (fetch line "is_draft") then [Dict.put line "speaker" (.int (-1))]
  else if (fetch line "words").truthy = false then [Dict.put line "speaker" (.int (voice line))]
  else
    match acceptedWords b line with
    | none => [Dict.put line "speaker" (.int (-1))]
    | some words =>
      let groups := words.foldl (addWord b voice) []
      groups.map (groupRow b line (groups.length == 1))

/-! ## Session numbers -/

abbrev Aliases := List (Int × Nat)

def numbered (aliases : Aliases) (raw : Int) : Aliases :=
  if raw ∈ Dict.keys aliases then aliases else aliases ++ [(raw, aliases.length + 1)]

/-- The acoustic speaker of a row that shows text. -/
def visible (row : Entries) : Option Int :=
  match fetch row "speaker", fetch row "text" with
  | .int raw, .str text => if raw < 0 ∨ Text.strip text = "" then none else some raw
  | _, _ => none

def renameWord (raw : Int) (number : Nat) : Value → Value
  | .dict word => .dict (if (fetch word "speaker").same (.int raw) then Dict.put word "speaker" (.int number) else word)
  | other => other

def renameRow (raw : Int) (number : Nat) (row : Entries) : Entries :=
  let row := Dict.put row "speaker" (.int number)
  match fetch row "words" with
  | .list words => Dict.put row "words" (.list (words.map (renameWord raw number)))
  | _ => row

def aliasRow (aliases : Aliases) (row : Entries) : Aliases × Entries :=
  match visible row with
  | none => (aliases, row)
  | some raw => (numbered aliases raw, renameRow raw ((Dict.get (numbered aliases raw) raw).getD 0) row)

def aliasRows (aliases : Aliases) : List Entries → Aliases × List Entries
  | [] => (aliases, [])
  | row :: rest =>
    let first := aliasRow aliases row
    let later := aliasRows first.1 rest
    (later.1, first.2 :: later.2)

/-! ## The snapshot -/

/-- The items of `message.get('lines', [])`; what cannot be iterated over raises. -/
def linesOf (message : Entries) : Option (List Value) :=
  match Dict.get message "lines" with
  | none => some []
  | some (.list items) => some items
  | some (.str text) => some (text.toList.map fun c => .str (String.singleton c))
  | some (.dict entries) => some (entries.map fun e => .str e.1)
  | some _ => none

/-- The rows before the session numbers. -/
def labeledRows (b : Builtins) (items : List Value) (turns : List (Turn Int)) (covered : ℚ) : List Entries :=
  (items.filterMap Value.entries).flatMap (labelLine b (speaker b (sorted turns) covered))

def labeledSnapshot (b : Builtins) (message : Entries) (turns : List (Turn Int)) (covered : ℚ) (status : String)
    (aliases : Option Aliases) : Option (Entries × Option Aliases) := do
  let items ← linesOf message
  let rows := labeledRows b items turns covered
  let result := match aliases with
    | none => (none, rows)
    | some aliases => (some (aliasRows aliases rows).1, (aliasRows aliases rows).2)
  pure (Dict.put (Dict.put message "lines" (.list (result.2.map Value.dict))) "diarization_status" (.str status),
    result.1)

end OmiLocal.Speakers
