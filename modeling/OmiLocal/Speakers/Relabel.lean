import OmiLocal.Speakers.Votes

/-!
# Snapshots only relabel

A line that is split by its words keeps them and its text, any other line keeps every field but
its speaker, and the session numbers follow the first visible row of each voice.
-/
namespace OmiLocal.Speakers
open Lib Lib.Values

/-- Equal dictionaries but for the speaker. -/
def SameButSpeaker (before after : Entries) : Prop := ∀ key, key ≠ "speaker" → Dict.get after key = Dict.get before key

def withoutSpeaker (word : Entries) : Entries := Dict.erase word "speaker"

def rowWords (row : Entries) : List Entries := (wordEntries (fetch row "words")).getD []

/-- A text with its white space removed. -/
def solid (text : List Char) : List Char := text.filter fun c => !Text.isSpace c

/-- The words by which a line is split, if it is. -/
def splitWords (b : Builtins) (line : Entries) : Option (List Entries) := if wordy line then acceptedWords b line else none

/-- What the rows of a line keep of it. -/
def KeepsLine (b : Builtins) (line : Entries) (rows : List Entries) : Prop :=
  match splitWords b line with
  | some words =>
    (rows.flatMap rowWords).map withoutSpeaker = words.map withoutSpeaker ∧
      (rows.flatMap fun row => solid (textOf row "text").toList) = solid (textOf line "text").toList
  | none => ∃ row, rows = [row] ∧ SameButSpeaker line row

variable {b : Builtins} {voice : Entries → Int}

@[simp] theorem fetch_put_self (e : Entries) (key : String) (v : Value) : fetch (Dict.put e key v) key = v := by
  simp [fetch]

theorem fetch_put_other (e : Entries) {key other : String} (ne : key ≠ other) (v : Value) :
    fetch (Dict.put e other v) key = fetch e key := by
  unfold fetch
  rw [Dict.get_put_other e ne]

theorem textOf_put_other (e : Entries) {key other : String} (ne : key ≠ other) (v : Value) :
    textOf (Dict.put e other v) key = textOf e key := by
  unfold textOf
  rw [fetch_put_other e ne]

theorem sameButSpeaker_put (line : Entries) (v : Value) : SameButSpeaker line (Dict.put line "speaker" v) :=
  fun _ ne => Dict.get_put_other line ne v

theorem mapM_entries_dict (words : List Entries) : (words.map Value.dict).mapM Value.entries = some words := by
  induction words with
  | nil => rfl
  | cons word rest ih => simp [List.mapM_cons, ih, Value.entries]

/-! ## Splitting a line -/

/-- The words come out of the groups as they went in, but for their speakers. -/
theorem flatMap_groups {γ : Type} (f : Entries → γ) (blind : ∀ word v, f (Dict.put word "speaker" v) = f word)
    (words : List Entries) : ((words.foldl (addWord b voice) []).flatMap Prod.snd).map f = words.map f := by
  induction words using List.reverseRecOn with
  | nil => rfl
  | append_singleton front word ih =>
      rw [List.foldl_append, List.foldl_cons, List.foldl_nil, List.map_append, ← ih]
      generalize front.foldl (addWord b voice) [] = groups
      unfold addWord
      split
      · rename_i empty
        rw [List.getLast?_eq_none_iff.mp empty]
        simp [blind]
      · rename_i last found
        obtain ⟨before, rfl⟩ : ∃ before, groups = before ++ [last] := ⟨_, (List.dropLast_append_getLast? last found).symm⟩
        dsimp only
        generalize (if silent b word = true then last.1 else voice word) = label
        split
        · simp [blind]
        · rw [List.dropLast_concat]
          simp [blind]

/-- What the row of a group keeps. -/
theorem rowWords_groupRow (line : Entries) (single : Bool) (group : Group) :
    rowWords (groupRow b line single group) = group.2 := by
  unfold rowWords groupRow
  dsimp only
  rw [fetch_put_self, wordEntries, mapM_entries_dict]
  rfl

theorem textOf_groupRow (line : Entries) (single : Bool) (group : Group) :
    textOf (groupRow b line single group) "text" =
      if single then textOf line "text" else String.ofList (Text.stripChars (spoken group.2)) := by
  unfold groupRow
  dsimp only
  rw [textOf_put_other _ (by decide), textOf_put_other _ (by decide), textOf_put_other _ (by decide),
    textOf_put_other _ (by decide), textOf, fetch_put_self]
  cases single <;> rfl

theorem solid_flatMap {α : Type} (l : List α) (f : α → List Char) :
    (l.flatMap fun x => solid (f x)) = solid (l.flatMap f) := by
  unfold solid
  rw [List.filter_flatMap]

theorem spoken_flatMap (groups : List Group) : spoken (groups.flatMap Prod.snd) = groups.flatMap fun g => spoken g.2 := by
  unfold spoken
  rw [List.flatMap_assoc]

theorem solid_of_accepted {line : Entries} {words : List Entries} (accepted : acceptedWords b line = some words) :
    solid (spoken words) = solid (textOf line "text").toList := by
  simp only [acceptedWords, Option.bind_eq_bind, Option.bind_eq_some_iff] at accepted
  obtain ⟨found, -, -, -, times, -, rest⟩ := accepted
  split at rest
  · obtain ⟨text, isText, rest⟩ := Option.bind_eq_some_iff.mp rest
    split at rest
    · rename_i same
      cases rest
      unfold solid textOf
      rw [isText, Option.getD_some, ← Text.filter_stripChars, same, Text.filter_stripChars]
    · cases rest
  · cases rest

variable (voice) in
theorem keeps_split {line : Entries} {words : List Entries} (accepted : acceptedWords b line = some words) :
    let groups := words.foldl (addWord b voice) []
    let rows := groups.map (groupRow b line (groups.length == 1))
    (rows.flatMap rowWords).map withoutSpeaker = words.map withoutSpeaker ∧
      (rows.flatMap fun row => solid (textOf row "text").toList) = solid (textOf line "text").toList := by
  intro groups rows
  constructor
  · have inner : rows.flatMap rowWords = groups.flatMap Prod.snd := by
      rw [List.flatMap_map]
      simp only [rowWords_groupRow]
    rw [inner]
    exact flatMap_groups withoutSpeaker (fun word v => Dict.erase_put_self word "speaker" v) words
  · have voiced : groups.flatMap (fun g => spoken g.2) = spoken words := by
      rw [← spoken_flatMap, spoken, List.flatMap_def, flatMap_groups, ← List.flatMap_def, ← spoken]
      intro word v
      rw [textOf_put_other _ (by decide)]
    rw [List.flatMap_map]
    simp only [textOf_groupRow]
    by_cases single : groups.length = 1
    · obtain ⟨group, only⟩ := List.length_eq_one_iff.mp single
      simp [only]
    · have several : (groups.length == 1) = false := by simpa using single
      simp only [several, Bool.false_eq_true, if_false, String.toList_ofList]
      rw [← solid_of_accepted accepted, ← voiced, ← solid_flatMap]
      exact congrArg (groups.flatMap ·) (funext fun g => Text.filter_stripChars _)

/-! ## Session numbers -/

/-- A row before and after its session number. -/
inductive Renamed : Entries → Entries → Prop
  | kept (row : Entries) : Renamed row row
  | named {row : Entries} {raw : Int} (number : Nat) : visible row = some raw → Renamed row (renameRow raw number row)

theorem aliasRow_renamed (aliases : Aliases) (row : Entries) : Renamed row (aliasRow aliases row).2 := by
  unfold aliasRow
  split
  · exact .kept row
  · rename_i raw seen
    exact .named _ seen

theorem aliasRows_renamed (aliases : Aliases) (rows : List Entries) :
    List.Forall₂ Renamed rows (aliasRows aliases rows).2 := by
  induction rows generalizing aliases with
  | nil => exact .nil
  | cons row rest ih => exact .cons (aliasRow_renamed aliases row) (ih _)

theorem Renamed.textOf {row after : Entries} (renamed : Renamed row after) : textOf after "text" = textOf row "text" := by
  cases renamed with
  | kept => rfl
  | @named raw number seen =>
      unfold renameRow
      dsimp only
      split
      · rw [textOf_put_other _ (by decide), textOf_put_other _ (by decide)]
      · rw [textOf_put_other _ (by decide)]

theorem wordEntries_rename (raw : Int) (number : Nat) (words : List Value) :
    (wordEntries (.list (words.map (renameWord raw number)))).map (List.map withoutSpeaker) =
      (wordEntries (.list words)).map (List.map withoutSpeaker) := by
  unfold wordEntries
  dsimp only
  induction words with
  | nil => rfl
  | cons word rest ih =>
      rw [List.map_cons, List.mapM_cons, List.mapM_cons]
      cases word with
      | dict word =>
          have blind : withoutSpeaker (if (fetch word "speaker").same (.int raw) then
              Dict.put word "speaker" (.int number) else word) = withoutSpeaker word := by
            split
            · exact Dict.erase_put_self word "speaker" _
            · rfl
          simp only [renameWord, Value.entries, Option.bind_eq_bind, Option.bind_some, Option.pure_def]
          cases renamed : (rest.map (renameWord raw number)).mapM Value.entries with
          | none =>
              rw [renamed] at ih
              cases plain : rest.mapM Value.entries with
              | none => rfl
              | some others =>
                  rw [plain] at ih
                  cases ih
          | some names =>
              rw [renamed] at ih
              cases plain : rest.mapM Value.entries with
              | none =>
                  rw [plain] at ih
                  cases ih
              | some others =>
                  rw [plain] at ih
                  simp only [Option.map_some, Option.some.injEq, Option.bind_some, List.map_cons] at ih ⊢
                  rw [ih, blind]
      | _ => rfl

theorem Renamed.rowWords {row after : Entries} (renamed : Renamed row after) :
    (rowWords after).map withoutSpeaker = (rowWords row).map withoutSpeaker := by
  cases renamed with
  | kept => rfl
  | @named raw number seen =>
      unfold Speakers.rowWords renameRow
      dsimp only
      rw [fetch_put_other _ (by decide)]
      split
      · rename_i words found
        have same := wordEntries_rename raw number words
        rw [fetch_put_self, found]
        cases renamed : wordEntries (.list (words.map (renameWord raw number))) <;>
          cases plain : wordEntries (.list words) <;> rw [renamed, plain] at same <;> simp_all
      · rw [fetch_put_other _ (by decide)]

/-! ## Lines that are not split -/

theorem visible_of_silence {line : Entries} (silence : (fetch line "speaker").same (.int (-2)) = true) :
    visible line = none := by
  unfold visible
  split
  · rename_i raw text isRaw _
    rw [isRaw] at silence
    have same : (-2 : ℚ) = raw := by simpa [Value.same, Value.number] using silence
    have negative : raw < 0 := by
      have : ((-2 : Int) : ℚ) = raw := by exact_mod_cast same
      have := Int.cast_injective this
      omega
    rw [if_pos (.inl negative)]
  · rfl

theorem visible_of_unknown (line : Entries) : visible (Dict.put line "speaker" (.int (-1))) = none := by
  unfold visible
  rw [fetch_put_self]
  split
  · rename_i isRaw _
    cases isRaw
    rw [if_pos (.inl (by decide))]
  · rfl

theorem Renamed.same {row after : Entries} (renamed : Renamed row after)
    (still : visible row = none ∨ (fetch row "words").truthy = false) : SameButSpeaker row after := by
  cases renamed with
  | kept => exact fun _ _ => rfl
  | @named raw number seen =>
      rcases still with hidden | wordless
      · rw [hidden] at seen
        cases seen
      · intro key ne
        unfold renameRow
        dsimp only
        rw [fetch_put_other _ (by decide)]
        split
        · rename_i words found
          rw [found] at wordless
          have none : words = [] := by simpa [Value.truthy] using wordless
          by_cases here : key = "words"
          · rw [here, Dict.get_put_self, none, List.map_nil]
            unfold fetch at found
            cases known : Dict.get row "words" with
            | none =>
                rw [known] at found
                cases found
            | some value =>
                rw [known, Option.getD_some] at found
                rw [found, none]
          · rw [Dict.get_put_other _ here, Dict.get_put_other _ ne]
        · rw [Dict.get_put_other _ ne]

variable (voice) in
theorem labelLine_other {line : Entries} (whole : splitWords b line = none) :
    ∃ row, labelLine b voice line = [row] ∧ SameButSpeaker line row ∧
      (visible row = none ∨ (fetch row "words").truthy = false) := by
  unfold labelLine
  split
  · rename_i silence
    exact ⟨line, rfl, fun _ _ => rfl, .inl (visible_of_silence silence)⟩
  · rename_i voiced
    split
    · exact ⟨_, rfl, sameButSpeaker_put line _, .inl (visible_of_unknown line)⟩
    · rename_i final
      split
      · rename_i wordless
        refine ⟨_, rfl, sameButSpeaker_put line _, .inr ?_⟩
        rw [fetch_put_other _ (by decide)]
        exact wordless
      · rename_i worded
        have taken : wordy line = true := by simp [wordy, voiced, final, worded]
        unfold splitWords at whole
        rw [if_pos taken] at whole
        rw [whole]
        exact ⟨_, rfl, sameButSpeaker_put line _, .inl (visible_of_unknown line)⟩

variable (voice) in
theorem labelLine_split {line : Entries} {words : List Entries} (split_ : splitWords b line = some words) :
    acceptedWords b line = some words ∧ labelLine b voice line =
      (words.foldl (addWord b voice) []).map (groupRow b line ((words.foldl (addWord b voice) []).length == 1)) := by
  unfold splitWords at split_
  split at split_
  · rename_i taken
    simp only [wordy, Bool.and_eq_true, Bool.not_eq_true'] at taken
    obtain ⟨⟨voiced, final⟩, worded⟩ := taken
    refine ⟨split_, ?_⟩
    unfold labelLine
    rw [if_neg (by simp [voiced]), if_neg (by simp [final]), if_neg (by simp [worded]), split_]
  · cases split_

/-! ## The whole snapshot -/

theorem keepsLine_renamed {line : Entries} {after : List Entries}
    (renamed : List.Forall₂ Renamed (labelLine b voice line) after) : KeepsLine b line after := by
  unfold KeepsLine
  cases found : splitWords b line with
  | none =>
      obtain ⟨row, single, same, still⟩ := labelLine_other voice found
      rw [single] at renamed
      obtain ⟨one, rest, first, nothing, rfl⟩ := List.forall₂_cons_left_iff.mp renamed
      rw [List.forall₂_nil_left_iff.mp nothing]
      exact ⟨one, rfl, fun key ne => (first.same still key ne).trans (same key ne)⟩
  | some words =>
      obtain ⟨accepted, rows⟩ := labelLine_split voice found
      obtain ⟨wordsKept, textKept⟩ := keeps_split voice accepted
      rw [← rows] at wordsKept textKept
      dsimp only
      rw [← wordsKept, ← textKept]
      generalize labelLine b voice line = before at renamed
      clear rows wordsKept textKept
      induction renamed with
      | nil => exact ⟨rfl, rfl⟩
      | cons first _ ih =>
          simp only [List.flatMap_cons, List.map_append]
          rw [ih.1, ih.2, first.rowWords, first.textOf]
          exact ⟨rfl, rfl⟩

theorem forall₂_flatMap {α γ δ : Type} {r : γ → δ → Prop} (f : α → List γ) (l : List α) {out : List δ}
    (related : List.Forall₂ r (l.flatMap f) out) :
    ∃ parts : List (List δ), out = parts.flatten ∧ List.Forall₂ (fun x part => List.Forall₂ r (f x) part) l parts := by
  induction l generalizing out with
  | nil => exact ⟨[], List.forall₂_nil_left_iff.mp related, .nil⟩
  | cons x rest ih =>
      rw [List.flatMap_cons] at related
      have front := List.forall₂_take (f x).length related
      have back := List.forall₂_drop (f x).length related
      rw [List.take_left] at front
      rw [List.drop_left] at back
      obtain ⟨parts, same, later⟩ := ih back
      refine ⟨out.take (f x).length :: parts, ?_, .cons front later⟩
      rw [List.flatten_cons, ← same, List.take_append_drop]

theorem numbered_rows (aliases : Aliases) (rows : List Entries) :
    (aliasRows aliases rows).1 = (rows.filterMap visible).foldl numbered aliases := by
  induction rows generalizing aliases with
  | nil => rfl
  | cons row rest ih =>
      unfold aliasRows
      dsimp only
      rw [ih]
      unfold aliasRow
      cases seen : visible row with
      | none => rw [List.filterMap_cons_none seen]
      | some raw => rw [List.filterMap_cons_some seen, List.foldl_cons]

/-- A labelled message keeps every line that is a dictionary. -/
theorem snapshot_keeps_lines {message out : Entries} {turns : List (Turn Int)} {covered : ℚ} {status : String}
    {aliases later : Option Aliases}
    (done : labeledSnapshot b message turns covered status aliases = some (out, later)) :
    ∃ items parts, linesOf message = some items ∧
      fetch out "lines" = .list ((parts.flatten).map Value.dict) ∧
      List.Forall₂ (KeepsLine b) (items.filterMap Value.entries) parts := by
  unfold labeledSnapshot at done
  obtain ⟨items, found, rest⟩ := Option.bind_eq_some_iff.mp done
  have related : ∀ rows : List Entries, List.Forall₂ Renamed (labeledRows b items turns covered) rows →
      ∃ parts : List (List Entries), rows = parts.flatten ∧
        List.Forall₂ (KeepsLine b) (items.filterMap Value.entries) parts := by
    intro rows renamed
    obtain ⟨parts, same, each⟩ := forall₂_flatMap _ _ renamed
    exact ⟨parts, same, each.imp fun _ _ => keepsLine_renamed⟩
  cases aliases with
  | none =>
      cases rest
      obtain ⟨parts, same, each⟩ := related _ (List.forall₂_same.mpr fun row _ => .kept row)
      refine ⟨items, parts, found, ?_, each⟩
      rw [← same, fetch_put_other _ (by decide), fetch_put_self]
  | some aliases =>
      cases rest
      obtain ⟨parts, same, each⟩ := related _ (aliasRows_renamed aliases _)
      refine ⟨items, parts, found, ?_, each⟩
      rw [← same, fetch_put_other _ (by decide), fetch_put_self]

/-! ## Runs of snapshots -/

structure Shot where
  message : Entries
  turns : List (Turn Int)
  covered : ℚ
  status : String

/-- The session numbers after a snapshot; one that raises has changed none. -/
def aliasesAfter (b : Builtins) (aliases : Aliases) (s : Shot) : Aliases :=
  match labeledSnapshot b s.message s.turns s.covered s.status (some aliases) with
  | some (_, some later) => later
  | _ => aliases

def aliasesOf (b : Builtins) (shots : List Shot) : Aliases := shots.foldl (aliasesAfter b) []

/-- The voices of the rows that show text, in order. -/
def shown (b : Builtins) (s : Shot) : List Int :=
  match linesOf s.message with
  | some items => (labeledRows b items s.turns s.covered).filterMap visible
  | none => []

theorem aliasesAfter_eq (aliases : Aliases) (s : Shot) :
    aliasesAfter b aliases s = (shown b s).foldl numbered aliases := by
  unfold aliasesAfter shown labeledSnapshot
  cases linesOf s.message with
  | none => rfl
  | some items => exact numbered_rows aliases _

theorem foldl_numbered_append {aliases : Aliases} {raw : Int} {number : Nat}
    (given : Dict.get aliases raw = some number) (more : List Int) :
    Dict.get (more.foldl numbered aliases) raw = some number := by
  induction more generalizing aliases with
  | nil => exact given
  | cons next rest ih =>
      refine ih ?_
      unfold numbered
      split
      · exact given
      · exact Dict.get_append_of_some given _

theorem foldl_numbered (raws : List Int) : raws.foldl numbered [] = (firstSeen raws).zipIdx 1 := by
  induction raws using List.reverseRecOn with
  | nil => rfl
  | append_singleton front raw ih =>
      have keys : Dict.keys ((firstSeen front).zipIdx 1) = firstSeen front := List.zipIdx_map_fst 1 _
      rw [List.foldl_append, List.foldl_cons, List.foldl_nil, ih, firstSeen_append, numbered, keys]
      split
      · rfl
      · rw [List.zipIdx_append, List.length_zipIdx, Nat.add_comm]
        rfl

theorem aliasesOf_eq (shots : List Shot) : aliasesOf b shots = (firstSeen (shots.flatMap (shown b))).zipIdx 1 := by
  rw [← foldl_numbered]
  unfold aliasesOf
  generalize ([] : Aliases) = aliases
  induction shots generalizing aliases with
  | nil => rfl
  | cons s rest ih => rw [List.foldl_cons, ih, List.flatMap_cons, List.foldl_append, aliasesAfter_eq]

/-- Speakers come from the votes of all turns, split lines keep their words and text, other lines
keep every field but the speaker, and session numbers are `1..n` in the order of first visible text. -/
theorem labeled_snapshot_only_relabels (b : Builtins) :
    (∀ turns covered item, speaker b (sorted turns) covered item = speakerByScan b (sorted turns) covered item) ∧
    (∀ message turns covered status aliases out later,
      labeledSnapshot b message turns covered status aliases = some (out, later) →
      ∃ items parts, linesOf message = some items ∧ fetch out "lines" = .list ((parts.flatten).map Value.dict) ∧
        List.Forall₂ (KeepsLine b) (items.filterMap Value.entries) parts) ∧
    (∀ shots, Dict.keys (aliasesOf b shots) = firstSeen (shots.flatMap (shown b)) ∧
      (aliasesOf b shots).map Prod.snd = List.range' 1 (aliasesOf b shots).length ∧
      ∀ raw other number, Dict.get (aliasesOf b shots) raw = some number →
        (Dict.get (aliasesOf b shots) other = some number → other = raw) ∧
        ∀ more, Dict.get (aliasesOf b (shots ++ more)) raw = some number) := by
  refine ⟨speaker_eq_scan b, fun _ _ _ _ _ _ _ done => snapshot_keeps_lines done, fun shots => ?_⟩
  have numbers : (aliasesOf b shots).map Prod.snd = List.range' 1 (aliasesOf b shots).length := by
    rw [aliasesOf_eq, List.zipIdx_map_snd, List.length_zipIdx]
  refine ⟨by rw [aliasesOf_eq]; exact List.zipIdx_map_fst 1 _, numbers, ?_⟩
  intro raw other number given
  constructor
  · intro shared
    have distinct : ((aliasesOf b shots).map Prod.snd).Nodup := numbers ▸ List.nodup_range'
    exact congrArg Prod.fst
      (List.inj_on_of_nodup_map distinct (Dict.get_eq_some shared) (Dict.get_eq_some given) rfl)
  · intro more
    unfold aliasesOf at *
    rw [List.foldl_append]
    generalize shots.foldl (aliasesAfter b) [] = aliases at given
    induction more generalizing aliases with
    | nil => exact given
    | cons s rest ih =>
        refine ih _ ?_
        rw [aliasesAfter_eq]
        exact foldl_numbered_append given _

/-- A built-in that knows no letters and reads no times. -/
def mute : Builtins := ⟨fun _ => false, fun _ => none⟩

/-- A line that is no dictionary is left out. -/
theorem number_line_left_out :
    ∃ message out, fetch message "lines" = .list [.int 5] ∧
      labeledSnapshot mute message [] 0 "ready" none = some (out, none) ∧ fetch out "lines" = .list [] :=
  ⟨[("lines", .list [.int 5])], _, rfl, rfl, rfl⟩

end OmiLocal.Speakers
