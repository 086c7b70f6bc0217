import Mathlib.Data.List.DropRight
import Mathlib.Data.List.TakeWhile

/-!
# Python text

White space as `str.isspace` has it, and `str.strip` and `str.split` without
arguments.
-/
namespace Lib.Text

def isSpace (c : Char) : Bool :=
  let n := c.toNat
  (9 ≤ n && n ≤ 13) || (28 ≤ n && n ≤ 32) || n == 0x85 || n == 0xA0 || n == 0x1680 ||
    (0x2000 ≤ n && n ≤ 0x200A) || n == 0x2028 || n == 0x2029 || n == 0x202F || n == 0x205F || n == 0x3000

def stripChars (cs : List Char) : List Char :=
  ((cs.dropWhile isSpace).reverse.dropWhile isSpace).reverse

def strip (s : String) : String := String.ofList (stripChars s.toList)

theorem mem_dropWhile_of_not {p : Char → Bool} {cs : List Char} {c : Char} (member : c ∈ cs)
    (not : p c = false) : c ∈ cs.dropWhile p := by
  rw [← List.takeWhile_append_dropWhile (p := p) (l := cs), List.mem_append] at member
  rcases member with front | back
  · rw [List.mem_takeWhile_imp front] at not
    cases not
  · exact back

theorem mem_stripChars {cs : List Char} {c : Char} (member : c ∈ cs) (word : isSpace c = false) :
    c ∈ stripChars cs :=
  List.mem_reverse.mpr (mem_dropWhile_of_not (List.mem_reverse.mpr (mem_dropWhile_of_not member word)) word)

theorem stripChars_subset {cs : List Char} {c : Char} (member : c ∈ stripChars cs) : c ∈ cs :=
  (List.dropWhile_sublist isSpace).subset (List.mem_reverse.mp
    ((List.dropWhile_sublist isSpace).subset (List.mem_reverse.mp member)))

theorem stripChars_eq_nil (cs : List Char) : stripChars cs = [] ↔ ∀ c ∈ cs, isSpace c = true := by
  constructor
  · intro empty c member
    by_contra word
    have kept := mem_stripChars member (Bool.not_eq_true _ ▸ word)
    rw [empty] at kept
    cases kept
  · intro spaces
    unfold stripChars
    rw [List.dropWhile_eq_nil_iff.mpr spaces]
    rfl

theorem strip_eq_empty (s : String) : strip s = "" ↔ ∀ c ∈ s.toList, isSpace c = true := by
  rw [← stripChars_eq_nil, strip, ← String.toList_inj, String.toList_ofList, String.toList_empty]

/-- Stripping twice leaves nothing exactly when stripping once does. -/
theorem strip_strip_eq_empty (s : String) : strip (strip s) = "" ↔ strip s = "" := by
  rw [strip_eq_empty, strip_eq_empty, strip, String.toList_ofList]
  constructor
  · intro spaces c member
    by_contra word
    exact word (spaces c (mem_stripChars member (Bool.not_eq_true _ ▸ word)))
  · intro spaces c member
    exact spaces c (stripChars_subset member)

theorem length_stripChars_le (cs : List Char) : (stripChars cs).length ≤ cs.length := by
  unfold stripChars
  rw [List.length_reverse]
  refine (List.dropWhile_sublist isSpace).length_le.trans ?_
  rw [List.length_reverse]
  exact (List.dropWhile_sublist isSpace).length_le

theorem stripChars_stripChars (cs : List Char) : stripChars (stripChars cs) = stripChars cs := by
  have last : stripChars cs = (cs.dropWhile isSpace).rdropWhile isSpace := rfl
  have first : (stripChars cs).dropWhile isSpace = stripChars cs := by
    cases kept : stripChars cs with
    | nil => rfl
    | cons c rest =>
        obtain ⟨tail, whole⟩ := last ▸ List.rdropWhile_prefix isSpace (cs.dropWhile isSpace)
        have word := List.head?_dropWhile_not isSpace cs
        rw [← whole, kept, List.cons_append, List.head?_cons] at word
        exact List.dropWhile_cons_of_neg (Bool.not_eq_true _ ▸ word)
  have twice : stripChars (stripChars cs) = ((stripChars cs).dropWhile isSpace).rdropWhile isSpace := rfl
  rw [twice, first, last, List.rdropWhile_idempotent]

theorem strip_strip (s : String) : strip (strip s) = strip s := by
  rw [strip, strip, String.toList_ofList, stripChars_stripChars]

theorem length_strip_le (s : String) : (strip s).length ≤ s.length := by
  rw [strip, ← String.length_toList, ← String.length_toList, String.toList_ofList]
  exact length_stripChars_le s.toList

/-- Stripping takes away white space only. -/
theorem filter_stripChars (cs : List Char) :
    (stripChars cs).filter (fun c => !isSpace c) = cs.filter (fun c => !isSpace c) := by
  have front (ds : List Char) : (ds.dropWhile isSpace).filter (fun c => !isSpace c) = ds.filter (fun c => !isSpace c) := by
    induction ds with
    | nil => rfl
    | cons d rest ih =>
        by_cases space : isSpace d = true
        · rw [List.dropWhile_cons_of_pos space, List.filter_cons_of_neg (by simp [space]), ih]
        · rw [List.dropWhile_cons_of_neg space]
  unfold stripChars
  rw [List.filter_reverse, front, List.filter_reverse, List.reverse_reverse, front]

/-! ## Words -/

/-- `str.split()`. -/
def words (cs : List Char) : List (List Char) := (cs.splitOnP isSpace).filter (fun word => !word.isEmpty)

/-- `sep.join(words)` for a separator of one character. -/
def join (sep : Char) (ws : List (List Char)) : List Char := List.intercalate [sep] ws

theorem join_singleton (sep : Char) (word : List Char) : join sep [word] = word := by simp [join]

theorem not_of_mem_splitOnP {p : Char → Bool} {cs : List Char} {word : List Char} (member : word ∈ cs.splitOnP p)
    {c : Char} (inside : c ∈ word) : p c = false ∧ c ∈ cs := by
  induction cs generalizing word with
  | nil =>
      rw [List.splitOnP_nil, List.mem_singleton] at member
      rw [member] at inside
      cases inside
  | cons d rest ih =>
      rw [List.splitOnP_cons_eq_if_modifyHead] at member
      split at member
      · rcases List.mem_cons.mp member with rfl | later
        · cases inside
        · exact ⟨(ih later inside).1, List.mem_cons_of_mem d (ih later inside).2⟩
      · rename_i letter
        cases parts : rest.splitOnP p with
        | nil => exact absurd parts (List.splitOnP_ne_nil p rest)
        | cons first others =>
            rw [parts, List.modifyHead_cons, List.mem_cons] at member
            rcases member with rfl | later
            · rcases List.mem_cons.mp inside with rfl | front
              · exact ⟨Bool.not_eq_true _ ▸ letter, List.mem_cons_self⟩
              · have found := ih (parts ▸ List.mem_cons_self) front
                exact ⟨found.1, List.mem_cons_of_mem d found.2⟩
            · have found := ih (parts ▸ List.mem_cons_of_mem first later) inside
              exact ⟨found.1, List.mem_cons_of_mem d found.2⟩

theorem mem_join {sep : Char} {ws : List (List Char)} {c : Char} (member : c ∈ join sep ws) :
    c = sep ∨ ∃ word ∈ ws, c ∈ word := by
  unfold join List.intercalate at member
  obtain ⟨piece, inside, here⟩ := List.mem_flatten.mp member
  clear member
  induction ws with
  | nil => cases inside
  | cons word rest ih =>
      cases rest with
      | nil =>
          rw [List.intersperse_singleton, List.mem_singleton] at inside
          exact .inr ⟨word, List.mem_cons_self, inside ▸ here⟩
      | cons next others =>
          rw [List.intersperse_cons_cons, List.mem_cons, List.mem_cons] at inside
          rcases inside with rfl | rfl | later
          · exact .inr ⟨piece, List.mem_cons_self, here⟩
          · exact .inl (List.mem_singleton.mp here)
          · rcases ih later with same | ⟨w, member, found⟩
            · exact .inl same
            · exact .inr ⟨w, List.mem_cons_of_mem word member, found⟩

theorem words_of_solid {cs : List Char} (solid : ∀ c ∈ cs, isSpace c = false) (some : cs ≠ []) : words cs = [cs] := by
  unfold words
  rw [List.splitOnP_eq_singleton solid]
  cases cs with
  | nil => exact absurd rfl some
  | cons c rest => rfl

theorem stripChars_of_solid {cs : List Char} (solid : ∀ c ∈ cs, isSpace c = false) : stripChars cs = cs := by
  have keeps : ∀ ds : List Char, (∀ c ∈ ds, isSpace c = false) → ds.dropWhile isSpace = ds := by
    intro ds all
    cases ds with
    | nil => rfl
    | cons c rest => rw [List.dropWhile_cons_of_neg (by rw [all c List.mem_cons_self]; exact Bool.false_ne_true)]
  unfold stripChars
  rw [keeps cs solid, keeps cs.reverse (fun c member => solid c (List.mem_reverse.mp member)), List.reverse_reverse]

theorem mem_words {cs w : List Char} (member : w ∈ words cs) : w ≠ [] ∧ ∀ c ∈ w, isSpace c = false := by
  obtain ⟨inside, some⟩ := List.mem_filter.mp member
  refine ⟨fun empty => ?_, fun c here => (not_of_mem_splitOnP inside here).1⟩
  rw [empty] at some
  cases some

/-- Words that are joined by a space are the words of the text. -/
theorem words_join {ws : List (List Char)} (solid : ∀ w ∈ ws, w ≠ [] ∧ ∀ c ∈ w, isSpace c = false) :
    words (join ' ' ws) = ws := by
  unfold join
  induction ws with
  | nil => rfl
  | cons w rest ih =>
      obtain ⟨⟨some, letters⟩, others⟩ := List.forall_mem_cons.mp solid
      cases rest with
      | nil =>
          rw [List.intercalate_singleton]
          exact words_of_solid letters some
      | cons next more =>
          have kept : (!w.isEmpty) = true := by
            cases w with
            | nil => exact absurd rfl some
            | cons c cs => rfl
          have later := ih others
          unfold words at later ⊢
          rw [List.intercalate_cons_cons, List.append_assoc, List.singleton_append,
            List.splitOnP_append_cons_of_forall_mem letters ' ' rfl, List.filter_cons_of_pos (p := fun word : List Char => !word.isEmpty) kept, later]

theorem words_join_words (cs : List Char) : words (join ' ' (words cs)) = words cs :=
  words_join fun _ => mem_words

end Lib.Text
