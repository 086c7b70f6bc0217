import Mathlib.Data.Nat.Digits.Defs
import Mathlib.Data.Nat.Digits.Lemmas

/-!
# JSON text

Values, the writer and the reader. Strings are sequences of scalar values; a
number with a fraction or an exponent keeps its text, since nothing here
computes with it. The reader takes fuel and gives `none` on text that is no
JSON document; a lone surrogate escape has no scalar value and is refused too.
-/
namespace Lib.Json

inductive Value where
  | null
  | bool (b : Bool)
  | int (n : Int)
  | real (text : String)
  | str (s : String)
  | arr (items : List Value)
  | obj (fields : List (String × Value))

/-- The last of several equal keys counts, as in a dictionary filled in order. -/
def field (key : String) (fields : List (String × Value)) : Option Value :=
  (fields.reverse.find? (fun f => f.1 == key)).map Prod.snd

def strField (key : String) (fields : List (String × Value)) : Option String :=
  match field key fields with
  | some (.str s) => some s
  | _ => none

def intField (key : String) (fields : List (String × Value)) : Option Int :=
  match field key fields with
  | some (.int n) => some n
  | _ => none

/-- Assignment: an existing key keeps its place, a new one comes last. -/
def setField (key : String) (value : Value) (fields : List (String × Value)) : List (String × Value) :=
  if fields.any (fun f => f.1 == key) then
    fields.map (fun f => if f.1 = key then (key, value) else f)
  else fields ++ [(key, value)]

theorem field_append (key : String) (front back : List (String × Value)) :
    field key (front ++ back) = (field key back).or (field key front) := by
  unfold field
  rw [List.reverse_append, List.find?_append]
  cases back.reverse.find? (fun f => f.1 == key) <;> rfl

theorem field_cons (key : String) (f : String × Value) (rest : List (String × Value)) :
    field key (f :: rest) = (field key rest).or (if f.1 = key then some f.2 else none) := by
  rw [← List.singleton_append, field_append]
  unfold field
  by_cases same : f.1 = key <;> simp [same]

theorem field_map_other {key other : String} (ne : other ≠ key) (value : Value)
    (fields : List (String × Value)) :
    field other (fields.map (fun f => if f.1 = key then (key, value) else f)) = field other fields := by
  induction fields with
  | nil => rfl
  | cons f rest ih =>
      rw [List.map_cons, field_cons, field_cons, ih]
      by_cases same : f.1 = key
      · rw [if_pos same, if_neg (fun h => ne h.symm), if_neg (fun h => ne (h.symm.trans same))]
      · rw [if_neg same]

theorem field_map_same {key : String} (value : Value) {fields : List (String × Value)}
    (some : ∃ f ∈ fields, f.1 = key) :
    field key (fields.map (fun f => if f.1 = key then (key, value) else f)) = Option.some value := by
  induction fields with
  | nil => simp at some
  | cons f rest ih =>
      rw [List.map_cons, field_cons]
      by_cases later : ∃ g ∈ rest, g.1 = key
      · rw [ih later]
        rfl
      · have missing : field key (rest.map (fun f => if f.1 = key then (key, value) else f)) = none := by
          unfold field
          rw [Option.map_eq_none_iff, List.find?_eq_none]
          intro g member
          rw [List.mem_reverse, List.mem_map] at member
          obtain ⟨g', inside, rfl⟩ := member
          have other : g'.1 ≠ key := fun h => later ⟨g', inside, h⟩
          simp [other]
        have first : f.1 = key := by
          obtain ⟨g, member, h⟩ := some
          rcases List.mem_cons.mp member with rfl | member
          · exact h
          · exact absurd ⟨g, member, h⟩ later
        rw [missing, if_pos first]
        simp

@[simp] theorem field_setField (key : String) (value : Value) (fields : List (String × Value)) :
    field key (setField key value fields) = some value := by
  unfold setField
  split
  · rename_i present
    refine field_map_same value ?_
    simpa using present
  · rw [field_append]
    simp [field]

theorem field_setField_of_ne {key other : String} (ne : other ≠ key) (value : Value)
    (fields : List (String × Value)) :
    field other (setField key value fields) = field other fields := by
  unfold setField
  split
  · exact field_map_other ne value fields
  · rw [field_append]
    have : field other [(key, value)] = none := by simp [field, Ne.symm ne]
    rw [this]
    rfl

/-! ## Writer -/

def hexDigit (n : Nat) : Char :=
  if n < 10 then Char.ofNat (48 + n) else Char.ofNat (87 + n)

def escapeChar (c : Char) : List Char :=
  if c = '"' then ['\\', '"']
  else if c = '\\' then ['\\', '\\']
  else if c = '\n' then ['\\', 'n']
  else if c = '\r' then ['\\', 'r']
  else if c = '\t' then ['\\', 't']
  else if c.toNat = 8 then ['\\', 'b']
  else if c.toNat = 12 then ['\\', 'f']
  else if c.toNat < 32 then ['\\', 'u', '0', '0', hexDigit (c.toNat / 16), hexDigit (c.toNat % 16)]
  else [c]

def writeString (s : String) : List Char := '"' :: (s.toList.flatMap escapeChar ++ ['"'])

def digitChar (d : Nat) : Char := Char.ofNat (48 + d)

def writeNat (n : Nat) : List Char :=
  if n = 0 then ['0'] else (Nat.digits 10 n).reverse.map digitChar

def writeInt : Int → List Char
  | .ofNat n => writeNat n
  | .negSucc n => '-' :: writeNat (n + 1)

/-- The two separators: after an item and after a key. -/
structure Separators where
  item : List Char
  key : List Char

def compact : Separators := ⟨[','], [':']⟩
def spaced : Separators := ⟨[',', ' '], [':', ' ']⟩

mutual
def write (sep : Separators) : Value → List Char
  | .null => "null".toList
  | .bool true => "true".toList
  | .bool false => "false".toList
  | .int n => writeInt n
  | .real text => text.toList
  | .str s => writeString s
  | .arr items => '[' :: (writeItems sep items ++ [']'])
  | .obj fields => '{' :: (writeFields sep fields ++ ['}'])

def writeItems (sep : Separators) : List Value → List Char
  | [] => []
  | [v] => write sep v
  | v :: w :: rest => write sep v ++ sep.item ++ writeItems sep (w :: rest)

def writeFields (sep : Separators) : List (String × Value) → List Char
  | [] => []
  | [(k, v)] => writeString k ++ sep.key ++ write sep v
  | (k, v) :: f :: rest =>
      writeString k ++ sep.key ++ write sep v ++ sep.item ++ writeFields sep (f :: rest)
end

/-! ## Reader -/

def isSpace (c : Char) : Bool := c == ' ' || c == '\t' || c == '\n' || c == '\r'

def skipSpace (cs : List Char) : List Char := cs.dropWhile isSpace

def isDigit (c : Char) : Bool := 48 ≤ c.toNat && c.toNat ≤ 57

def hexValue (c : Char) : Option Nat :=
  if 48 ≤ c.toNat ∧ c.toNat ≤ 57 then some (c.toNat - 48)
  else if 97 ≤ c.toNat ∧ c.toNat ≤ 102 then some (c.toNat - 87)
  else if 65 ≤ c.toNat ∧ c.toNat ≤ 70 then some (c.toNat - 55)
  else none

def hexQuad (a b c d : Char) : Option Nat := do
  let a ← hexValue a
  let b ← hexValue b
  let c ← hexValue c
  let d ← hexValue d
  return 4096 * a + 256 * b + 16 * c + d

def simpleEscape (c : Char) : Option Char :=
  if c = '"' then some '"'
  else if c = '\\' then some '\\'
  else if c = '/' then some '/'
  else if c = 'b' then some (Char.ofNat 8)
  else if c = 'f' then some (Char.ofNat 12)
  else if c = 'n' then some '\n'
  else if c = 'r' then some '\r'
  else if c = 't' then some '\t'
  else none

/-- The characters up to the closing quote, and the text after it. -/
def readString : List Char → Option (List Char × List Char)
  | [] => none
  | '"' :: rest => some ([], rest)
  | '\\' :: 'u' :: a :: b :: c :: d :: '\\' :: 'u' :: e :: f :: g :: h :: rest => do
      let hi ← hexQuad a b c d
      if 0xD800 ≤ hi ∧ hi < 0xDC00 then
        let lo ← hexQuad e f g h
        if 0xDC00 ≤ lo ∧ lo < 0xE000 then
          let (cs, out) ← readString rest
          return (Char.ofNat (0x10000 + 0x400 * (hi - 0xD800) + (lo - 0xDC00)) :: cs, out)
        else none
      else if 0xDC00 ≤ hi ∧ hi < 0xE000 then none
      else
        let (cs, out) ← readString ('\\' :: 'u' :: e :: f :: g :: h :: rest)
        return (Char.ofNat hi :: cs, out)
  | '\\' :: 'u' :: a :: b :: c :: d :: rest => do
      let n ← hexQuad a b c d
      if 0xD800 ≤ n ∧ n < 0xE000 then none
      else
        let (cs, out) ← readString rest
        return (Char.ofNat n :: cs, out)
  | '\\' :: c :: rest => do
      let c ← simpleEscape c
      let (cs, out) ← readString rest
      return (c :: cs, out)
  | c :: rest =>
      if c.toNat < 32 ∨ c = '\\' then none
      else do
        let (cs, out) ← readString rest
        return (c :: cs, out)

def digitsValue (ds : List Char) : Nat := ds.foldl (fun n c => 10 * n + (c.toNat - 48)) 0

/-- A leading zero stands alone. -/
def readDigits : List Char → Option (List Char × List Char)
  | [] => none
  | c :: rest =>
      if c = '0' then some (['0'], rest)
      else if isDigit c then some ((c :: rest).span isDigit)
      else none

def readFraction : List Char → List Char × List Char
  | '.' :: c :: rest => if isDigit c then
      let (ds, out) := (c :: rest).span isDigit
      ('.' :: ds, out) else ([], '.' :: c :: rest)
  | cs => ([], cs)

def readExponent (cs : List Char) : List Char × List Char :=
  match cs with
  | e :: rest =>
      if e = 'e' ∨ e = 'E' then
        let (sign, digits) := match rest with
          | '+' :: more => (['+'], more)
          | '-' :: more => (['-'], more)
          | more => ([], more)
        match digits.span isDigit with
        | ([], _) => ([], cs)
        | (ds, out) => (e :: (sign ++ ds), out)
      else ([], cs)
  | [] => ([], [])

def readNumber (cs : List Char) : Option (Value × List Char) := do
  let (negative, cs) := match cs with
    | '-' :: rest => (true, rest)
    | rest => (false, rest)
  let (ds, rest) ← readDigits cs
  let (fraction, rest) := readFraction rest
  let (exponent, rest) := readExponent rest
  if fraction = [] ∧ exponent = [] then
    let n : Int := digitsValue ds
    return (.int (if negative then -n else n), rest)
  else
    let sign := if negative then ['-'] else []
    return (.real (String.ofList (sign ++ ds ++ fraction ++ exponent)), rest)

mutual
def readValue : Nat → List Char → Option (Value × List Char)
  | 0, _ => none
  | fuel + 1, cs =>
      match skipSpace cs with
      | '"' :: rest => (readString rest).map fun p => (.str (String.ofList p.1), p.2)
      | '{' :: rest =>
          match skipSpace rest with
          | '}' :: rest => some (.obj [], rest)
          | rest => (readFields fuel rest).map fun p => (.obj p.1, p.2)
      | '[' :: rest =>
          match skipSpace rest with
          | ']' :: rest => some (.arr [], rest)
          | rest => (readItems fuel rest).map fun p => (.arr p.1, p.2)
      | 'n' :: 'u' :: 'l' :: 'l' :: rest => some (.null, rest)
      | 't' :: 'r' :: 'u' :: 'e' :: rest => some (.bool true, rest)
      | 'f' :: 'a' :: 'l' :: 's' :: 'e' :: rest => some (.bool false, rest)
      | rest => readNumber rest

def readItems : Nat → List Char → Option (List Value × List Char)
  | 0, _ => none
  | fuel + 1, cs => do
      let (v, rest) ← readValue fuel cs
      match skipSpace rest with
      | ',' :: rest =>
          let (vs, rest) ← readItems fuel rest
          return (v :: vs, rest)
      | ']' :: rest => return ([v], rest)
      | _ => none

def readFields : Nat → List Char → Option (List (String × Value) × List Char)
  | 0, _ => none
  | fuel + 1, cs =>
      match skipSpace cs with
      | '"' :: rest => do
          let (key, rest) ← readString rest
          match skipSpace rest with
          | ':' :: rest =>
              let (v, rest) ← readValue fuel rest
              match skipSpace rest with
              | ',' :: rest =>
                  let (fs, rest) ← readFields fuel rest
                  return ((String.ofList key, v) :: fs, rest)
              | '}' :: rest => return ([(String.ofList key, v)], rest)
              | _ => none
          | _ => none
      | _ => none
end

/-- A whole document: one value and nothing but space after it. -/
def read (cs : List Char) : Option Value :=
  match readValue (cs.length + 1) cs with
  | some (v, rest) => if skipSpace rest = [] then some v else none
  | none => none

/-! ## UTF-8 -/

def encodeUtf8 (cs : List Char) : List UInt8 := cs.flatMap String.utf8EncodeChar

def decodeUtf8 (bs : List UInt8) : Option (List Char) :=
  bs.toByteArray.utf8Decode?.map Array.toList

@[simp] theorem decodeUtf8_encodeUtf8 (cs : List Char) :
    decodeUtf8 (encodeUtf8 cs) = some cs := by
  have h : (encodeUtf8 cs).toByteArray = cs.utf8Encode := by simp [encodeUtf8, List.utf8Encode]
  simp [decodeUtf8, h]

theorem length_encodeUtf8 (cs : List Char) :
    cs.length ≤ (encodeUtf8 cs).length ∧ (encodeUtf8 cs).length ≤ 4 * cs.length := by
  induction cs with
  | nil => simp [encodeUtf8]
  | cons c cs ih =>
      have low := Char.utf8Size_pos c
      have high := Char.utf8Size_le_four c
      simp only [encodeUtf8, List.flatMap_cons, List.length_append, String.length_utf8EncodeChar,
        List.length_cons] at ih ⊢
      omega

def loads (bs : List UInt8) : Option Value := (decodeUtf8 bs).bind read

/-! ## Reading back a flat object

The objects covered are those whose keys and strings need no escape and whose
numbers are naturals. -/

def Plain (c : Char) : Prop := c ≠ '"' ∧ c ≠ '\\' ∧ 32 ≤ c.toNat

theorem plain_of_isDigit {c : Char} (h : isDigit c = true) : Plain c := by
  simp only [isDigit, Bool.and_eq_true, decide_eq_true_eq] at h
  refine ⟨?_, ?_, by omega⟩
  · rintro rfl; exact absurd h (by decide)
  · rintro rfl; exact absurd h (by decide)

theorem escapeChar_plain {c : Char} (h : Plain c) : escapeChar c = [c] := by
  obtain ⟨quote, slash, bound⟩ := h
  have newline : c ≠ '\n' := by rintro rfl; exact absurd bound (by decide)
  have ret : c ≠ '\r' := by rintro rfl; exact absurd bound (by decide)
  have tab : c ≠ '\t' := by rintro rfl; exact absurd bound (by decide)
  simp only [escapeChar, quote, slash, newline, ret, tab, if_false]
  rw [if_neg (by omega), if_neg (by omega), if_neg (by omega)]

theorem flatMap_escapeChar_plain {cs : List Char} (h : ∀ c ∈ cs, Plain c) :
    cs.flatMap escapeChar = cs := by
  induction cs with
  | nil => rfl
  | cons c cs ih =>
      rw [List.flatMap_cons, escapeChar_plain (h c (by simp)),
        ih (fun d hd => h d (List.mem_cons_of_mem c hd))]
      rfl

theorem readString_cons_plain {c : Char} (h : Plain c) (rest : List Char) :
    readString (c :: rest) = (readString rest).map fun p => (c :: p.1, p.2) := by
  obtain ⟨quote, slash, bound⟩ := h
  rw [readString.eq_def]
  split
  · contradiction
  · simp_all
  · simp_all
  · simp_all
  · simp_all
  · rename_i c' rest' _ _ _ heq
    cases heq
    rw [if_neg (by simp only [slash, or_false]; omega)]
    cases readString rest <;> rfl

theorem readString_plain {cs : List Char} (h : ∀ c ∈ cs, Plain c) (rest : List Char) :
    readString (cs ++ '"' :: rest) = some (cs, rest) := by
  induction cs with
  | nil => simp [readString]
  | cons c cs ih =>
      rw [List.cons_append, readString_cons_plain (h c (by simp)),
        ih (fun d hd => h d (List.mem_cons_of_mem c hd))]
      rfl

theorem digitChar_toNat {d : Nat} (h : d < 10) : (digitChar d).toNat = 48 + d := by
  interval_cases d <;> rfl

theorem isDigit_digitChar {d : Nat} (h : d < 10) : isDigit (digitChar d) = true := by
  simp only [isDigit, digitChar_toNat h, Bool.and_eq_true, decide_eq_true_eq]
  omega

theorem isDigit_writeNat (n : Nat) : ∀ c ∈ writeNat n, isDigit c = true := by
  intro c hc
  by_cases zero : n = 0
  · simp only [writeNat, zero, if_true, List.mem_singleton] at hc
    subst hc
    decide
  · simp only [writeNat, zero, if_false, List.mem_map, List.mem_reverse] at hc
    obtain ⟨d, hd, rfl⟩ := hc
    exact isDigit_digitChar (Nat.digits_lt_base (by omega) hd)

theorem digitsValue_map (ds : List Nat) (h : ∀ d ∈ ds, d < 10) :
    digitsValue (ds.reverse.map digitChar) = Nat.ofDigits 10 ds := by
  induction ds with
  | nil => rfl
  | cons d ds ih =>
      have rest := ih (fun e he => h e (List.mem_cons_of_mem d he))
      simp only [digitsValue] at rest
      simp only [digitsValue, List.reverse_cons, List.map_append, List.foldl_append, rest,
        List.map_cons, List.map_nil, List.foldl_cons, List.foldl_nil, Nat.ofDigits_cons,
        digitChar_toNat (h d (by simp))]
      omega

@[simp] theorem digitsValue_writeNat (n : Nat) : digitsValue (writeNat n) = n := by
  by_cases zero : n = 0
  · subst zero; rfl
  · rw [writeNat, if_neg zero, digitsValue_map _ (fun d hd => Nat.digits_lt_base (by omega) hd),
      Nat.ofDigits_digits]

theorem length_writeNat_le {n width : Nat} (positive : 0 < width) (h : n < 10 ^ width) :
    (writeNat n).length ≤ width := by
  by_cases zero : n = 0
  · simp [writeNat, zero]
    omega
  · rw [writeNat, if_neg zero, List.length_map, List.length_reverse]
    exact (Nat.digits_length_le_iff (by omega) n).mpr h

/-- A natural above zero is written without a leading zero. -/
theorem writeNat_head {n : Nat} (h : n ≠ 0) :
    ∃ c cs, writeNat n = c :: cs ∧ isDigit c = true ∧ c ≠ '0' := by
  have nonempty : Nat.digits 10 n ≠ [] := Nat.digits_ne_nil_iff_ne_zero.mpr h
  have last := Nat.getLast_digit_ne_zero 10 h
  have small : (Nat.digits 10 n).getLast nonempty < 10 :=
    Nat.digits_lt_base (by omega) (List.getLast_mem nonempty)
  obtain ⟨front, tail, split⟩ : ∃ d ds, (Nat.digits 10 n).reverse = d :: ds ∧
      d = (Nat.digits 10 n).getLast nonempty := by
    refine ⟨_, _, (List.cons_head_tail (by simpa using nonempty)).symm, ?_⟩
    simp [List.head_reverse]
  obtain ⟨split, rfl⟩ := split
  refine ⟨digitChar _, _, by rw [writeNat, if_neg h, split, List.map_cons], isDigit_digitChar small, ?_⟩
  intro same
  have := congrArg Char.toNat same
  rw [digitChar_toNat small] at this
  have zero : '0'.toNat = 48 := rfl
  omega

theorem span_isDigit {ds rest : List Char} (digits : ∀ c ∈ ds, isDigit c = true)
    (stop : ∀ c ∈ rest.head?, isDigit c = false) : (ds ++ rest).span isDigit = (ds, rest) := by
  rw [List.span_eq_takeWhile_dropWhile]
  have back : rest.takeWhile isDigit = [] ∧ rest.dropWhile isDigit = rest := by
    cases rest with
    | nil => exact ⟨rfl, rfl⟩
    | cons c rest => simp [List.takeWhile, List.dropWhile, stop c rfl]
  rw [List.takeWhile_append_of_pos digits, List.dropWhile_append_of_pos digits, back.1, back.2,
    List.append_nil]

theorem readDigits_writeNat (n : Nat) {rest : List Char}
    (stop : ∀ c ∈ rest.head?, isDigit c = false) :
    readDigits (writeNat n ++ rest) = some (writeNat n, rest) := by
  by_cases zero : n = 0
  · subst zero; rfl
  · obtain ⟨c, cs, written, digit, nonzero⟩ := writeNat_head zero
    have spanned := span_isDigit (isDigit_writeNat n) stop
    rw [written, List.cons_append] at spanned ⊢
    rw [readDigits, if_neg nonzero, if_pos digit, spanned]

/-- The text after a member's value: the next member or the end of the object. -/
def Ends (rest : List Char) : Prop := ∃ tail, rest = ',' :: tail ∨ rest = '}' :: tail

theorem readNumber_writeNat (n : Nat) {rest : List Char} (ends : Ends rest) :
    readNumber (writeNat n ++ rest) = some (.int n, rest) := by
  have stop : ∀ c ∈ rest.head?, isDigit c = false := by
    obtain ⟨tail, rfl | rfl⟩ := ends <;> simp <;> decide
  have fraction : readFraction rest = ([], rest) := by
    obtain ⟨tail, rfl | rfl⟩ := ends <;> simp [readFraction]
  have exponent : readExponent rest = ([], rest) := by
    obtain ⟨tail, rfl | rfl⟩ := ends <;> simp [readExponent]
  have unsigned : ∀ tail, writeNat n ++ rest ≠ '-' :: tail := by
    intro tail same
    have first : '-' ∈ writeNat n := by
      cases written : writeNat n with
      | nil =>
          by_cases zero : n = 0
          · simp [writeNat, zero] at written
          · obtain ⟨c, cs, other, -⟩ := writeNat_head zero
            simp [other] at written
      | cons c cs =>
          rw [written, List.cons_append] at same
          cases same
          simp
    exact absurd (isDigit_writeNat n _ first) (by decide)
  have digits := readDigits_writeNat n stop
  unfold readNumber
  split
  · rename_i negative cs heq
    split at heq
    · exact absurd (by assumption) (unsigned _)
    · cases heq
      simp [digits, fraction, exponent]

inductive Scalar : Value → Prop
  | str {s : String} : (∀ c ∈ s.toList, Plain c) → Scalar (.str s)
  | nat (n : Nat) : Scalar (.int n)

theorem skipSpace_of_head {c : Char} {s : List Char} (h : isSpace c = false) :
    skipSpace (c :: s) = c :: s := by
  simp [skipSpace, h]

theorem skipSpace_ends {rest : List Char} (ends : Ends rest) : skipSpace rest = rest := by
  obtain ⟨tail, rfl | rfl⟩ := ends <;> exact skipSpace_of_head (by decide)

theorem writeString_plain {s : String} (h : ∀ c ∈ s.toList, Plain c) :
    writeString s = '"' :: (s.toList ++ ['"']) := by
  rw [writeString, flatMap_escapeChar_plain h]

theorem writeNat_first (n : Nat) : ∃ c cs, writeNat n = c :: cs ∧ isDigit c = true := by
  by_cases zero : n = 0
  · subst zero; exact ⟨'0', [], rfl, by decide⟩
  · obtain ⟨c, cs, written, digit, -⟩ := writeNat_head zero
    exact ⟨c, cs, written, digit⟩

theorem readValue_scalar {v : Value} (scalar : Scalar v) (sep : Separators) (fuel : Nat)
    {rest : List Char} (ends : Ends rest) :
    readValue (fuel + 1) (write sep v ++ rest) = some (v, rest) := by
  cases scalar with
  | @str s plain =>
      rw [write, writeString_plain plain, readValue, List.cons_append,
        skipSpace_of_head (by decide), List.append_assoc]
      simp only [List.cons_append, List.nil_append]
      rw [readString_plain plain]
      simp
  | nat n =>
      have number := readNumber_writeNat n ends
      obtain ⟨c, cs, written, digit⟩ := writeNat_first n
      have bounds : 48 ≤ c.toNat ∧ c.toNat ≤ 57 := by simpa [isDigit] using digit
      have other : ∀ d : Char, isDigit d = false → c ≠ d := by
        rintro d hd rfl
        rw [hd] at digit
        exact Bool.noConfusion digit
      have space : isSpace c = false := by
        simp only [isSpace, Bool.or_eq_false_iff, beq_eq_false_iff_ne]
        exact ⟨⟨⟨other _ (by decide), other _ (by decide)⟩, other _ (by decide)⟩, other _ (by decide)⟩
      change readValue (fuel + 1) (writeNat n ++ rest) = _
      rw [written, List.cons_append] at number ⊢
      rw [readValue, skipSpace_of_head space]
      split
      · rename_i heq; exact absurd (List.cons.inj heq).1 (other '"' (by decide))
      · rename_i heq; exact absurd (List.cons.inj heq).1 (other '{' (by decide))
      · rename_i heq; exact absurd (List.cons.inj heq).1 (other '[' (by decide))
      · rename_i heq; exact absurd (List.cons.inj heq).1 (other 'n' (by decide))
      · rename_i heq; exact absurd (List.cons.inj heq).1 (other 't' (by decide))
      · rename_i heq; exact absurd (List.cons.inj heq).1 (other 'f' (by decide))
      · exact number

/-- Keys and values that are written without escapes, signs or nesting. -/
def Flat (fields : List (String × Value)) : Prop :=
  ∀ f ∈ fields, (∀ c ∈ f.1.toList, Plain c) ∧ Scalar f.2

theorem readFields_cons {key : String} (plain : ∀ c ∈ key.toList, Plain c) (fuel : Nat)
    (rest : List Char) :
    readFields (fuel + 1) (writeString key ++ ':' :: rest) =
      (readValue fuel rest).bind fun p =>
        match skipSpace p.2 with
        | ',' :: more => (readFields fuel more).map fun q => ((key, p.1) :: q.1, q.2)
        | '}' :: more => some ([(key, p.1)], more)
        | _ => none := by
  have quote := skipSpace_of_head (c := '"') (s := key.toList ++ '"' :: ':' :: rest) (by decide)
  have colon := skipSpace_of_head (c := ':') (s := rest) (by decide)
  rw [writeString_plain plain, List.cons_append, List.append_assoc, List.singleton_append,
    readFields, quote]
  simp only [readString_plain plain, Option.bind_eq_bind, Option.bind_some, colon,
    String.ofList_toList]
  congr 1
  funext p
  split
  · rename_i more heq
    cases readFields fuel more <;> rfl
  · rfl
  · rfl

theorem readFields_write {fields : List (String × Value)} (nonempty : fields ≠ [])
    (flat : Flat fields) (rest : List Char) (fuel : Nat) (enough : fields.length < fuel) :
    readFields fuel (writeFields compact fields ++ '}' :: rest) = some (fields, rest) := by
  induction fields generalizing fuel with
  | nil => contradiction
  | cons f fields ih =>
      obtain ⟨key, v⟩ := f
      obtain ⟨plain, scalar⟩ := flat (key, v) (by simp)
      obtain ⟨fuel, rfl⟩ : ∃ k, fuel = k + 2 := ⟨fuel - 2, by simp at enough; omega⟩
      cases fields with
      | nil =>
          have value := readValue_scalar scalar compact fuel ⟨rest, Or.inr rfl⟩
          have text : writeFields compact [(key, v)] ++ '}' :: rest =
              writeString key ++ ':' :: (write compact v ++ '}' :: rest) := by
            simp [writeFields, compact]
          rw [text, readFields_cons plain, value, Option.bind_some, skipSpace_ends ⟨rest, Or.inr rfl⟩]
          rfl
      | cons g fields =>
          have tail := ih (by simp) (fun x hx => flat x (List.mem_cons_of_mem _ hx)) (fuel + 1)
            (by simp at enough ⊢; omega)
          have value := readValue_scalar scalar compact fuel
            ⟨writeFields compact (g :: fields) ++ '}' :: rest, Or.inl rfl⟩
          have text : writeFields compact ((key, v) :: g :: fields) ++ '}' :: rest =
              writeString key ++ ':' :: (write compact v ++
                ',' :: (writeFields compact (g :: fields) ++ '}' :: rest)) := by
            simp [writeFields, compact]
          rw [text, readFields_cons plain, value, Option.bind_some, skipSpace_ends ⟨_, Or.inl rfl⟩]
          simp only [tail, Option.map_some]

theorem length_le_writeFields (sep : Separators) (fields : List (String × Value)) :
    fields.length ≤ (writeFields sep fields).length := by
  induction fields with
  | nil => simp [writeFields]
  | cons f fields ih =>
      obtain ⟨key, v⟩ := f
      cases fields with
      | nil => simp [writeFields, writeString]
      | cons g fields =>
          simp only [writeFields, writeString, List.length_append, List.length_cons] at ih ⊢
          omega

theorem read_write {fields : List (String × Value)} (nonempty : fields ≠ []) (flat : Flat fields) :
    read (write compact (.obj fields)) = some (.obj fields) := by
  have size := length_le_writeFields compact fields
  have members := readFields_write nonempty flat [] ((writeFields compact fields).length + 2)
    (by omega)
  have first : ∃ tail, writeFields compact fields ++ ['}'] = '"' :: tail := by
    match fields, nonempty with
    | [(key, v)], _ => simp [writeFields, writeString]
    | (key, v) :: g :: rest, _ => simp [writeFields, writeString]
  obtain ⟨tail, first⟩ := first
  have length : (write compact (.obj fields)).length + 1 =
      (writeFields compact fields).length + 2 + 1 := by
    simp [write]
  have value : readValue ((writeFields compact fields).length + 2 + 1) (write compact (.obj fields)) =
      some (.obj fields, []) := by
    rw [first] at members
    rw [write, readValue, skipSpace_of_head (by decide), first]
    simp only [skipSpace_of_head (c := '"') (s := tail) (by decide)]
    change (readFields _ ('"' :: tail)).map _ = _
    rw [members]
    rfl
  simp only [read, length, value]
  rfl

theorem loads_write {fields : List (String × Value)} (nonempty : fields ≠ []) (flat : Flat fields) :
    loads (encodeUtf8 (write compact (.obj fields))) = some (.obj fields) := by
  simp [loads, read_write nonempty flat]

/-! ## Size of a text -/

theorem length_le_writeString (s : String) : s.toList.length ≤ (writeString s).length := by
  have each : ∀ c, 1 ≤ (escapeChar c).length := by
    intro c
    unfold escapeChar
    split_ifs <;> simp
  have all : ∀ cs : List Char, cs.length ≤ (cs.flatMap escapeChar).length := by
    intro cs
    induction cs with
    | nil => simp
    | cons c cs ih =>
        have := each c
        rw [List.flatMap_cons, List.length_append, List.length_cons]
        omega
  have := all s.toList
  simp only [writeString, List.length_cons, List.length_append, List.length_nil]
  omega

theorem length_write_field (sep : Separators) {fields : List (String × Value)} {f : String × Value}
    (member : f ∈ fields) : (write sep f.2).length ≤ (write sep (.obj fields)).length := by
  have inside : (write sep f.2).length ≤ (writeFields sep fields).length := by
    induction fields with
    | nil => cases member
    | cons g rest ih =>
        obtain ⟨key, value⟩ := g
        cases rest with
        | nil =>
            rw [List.mem_singleton.mp member]
            simp only [writeFields, List.length_append]
            omega
        | cons next rest =>
            simp only [writeFields, List.length_append]
            rcases List.mem_cons.mp member with rfl | later
            · dsimp only
              omega
            · have := ih later
              omega
  simp only [write, List.length_cons, List.length_append]
  omega

theorem sum_length_write (sep : Separators) (items : List Value) :
    (items.map fun v => (write sep v).length).sum ≤ (write sep (.arr items)).length := by
  have inside : (items.map fun v => (write sep v).length).sum ≤ (writeItems sep items).length := by
    induction items with
    | nil => simp
    | cons w rest ih =>
        cases rest with
        | nil => simp [writeItems]
        | cons next rest =>
            rw [List.map_cons, List.sum_cons]
            simp only [writeItems, List.length_append]
            omega
  simp only [write, List.length_cons, List.length_append]
  omega

end Lib.Json
