import Mathlib.Algebra.Order.Ring.Rat
import OmiLocal.Lib.Dict

/-!
# Python values

What a JSON document holds once it has been read. A dictionary is its entries
in insertion order, with distinct keys; a float is its exact value.
-/
namespace Lib.Values

inductive Value where
  | none
  | bool (b : Bool)
  | int (n : Int)
  | float (q : ℚ)
  | str (s : String)
  | list (items : List Value)
  | dict (entries : List (String × Value))

abbrev Entries := List (String × Value)

/-- Booleans count as numbers. -/
def Value.number : Value → Option ℚ
  | .bool b => some (if b then 1 else 0)
  | .int n => some n
  | .float q => some q
  | _ => Option.none

/-- `isinstance(value, int)`, which a boolean passes. -/
def Value.integer : Value → Option Int
  | .bool b => some (if b then 1 else 0)
  | .int n => some n
  | _ => Option.none

def Value.text : Value → Option String
  | .str s => some s
  | _ => Option.none

def Value.entries : Value → Option Entries
  | .dict entries => some entries
  | _ => Option.none

def Value.truthy : Value → Bool
  | .none => false
  | .bool b => b
  | .int n => n != 0
  | .float q => q != 0
  | .str s => s != ""
  | .list items => !items.isEmpty
  | .dict entries => !entries.isEmpty

def Value.isNone : Value → Bool
  | .none => true
  | _ => false

mutual
/-- `==`: numbers by value, dictionaries whatever the order of their keys. -/
def Value.same : Value → Value → Bool
  | .none, w => w.isNone
  | .bool b, w => w.number == some (if b then 1 else 0)
  | .int n, w => w.number == some (n : ℚ)
  | .float q, w => w.number == some q
  | .str s, w => w.text == some s
  | .list items, .list others => sameItems items others
  | .list _, _ => false
  | .dict entries, .dict others => entries.length == others.length && sameEntries entries others
  | .dict _, _ => false

def sameItems : List Value → List Value → Bool
  | [], [] => true
  | v :: rest, w :: others => v.same w && sameItems rest others
  | _, _ => false

def sameEntries : Entries → Entries → Bool
  | [], _ => true
  | (key, v) :: rest, others =>
    (match Dict.get others key with
      | some w => v.same w
      | Option.none => false) && sameEntries rest others
end

/-- `entries.get(key)`. -/
def fetch (entries : Entries) (key : String) : Value := (Dict.get entries key).getD .none

/-- `entries == others`. -/
def sameDict (entries others : Entries) : Bool := entries.length == others.length && sameEntries entries others

theorem sameDict_nil (entries : Entries) : sameDict [] entries = true ↔ entries = [] := by
  cases entries <;> simp [sameDict, sameEntries]

end Lib.Values
