import Mathlib.Data.List.Basic
import Mathlib.Data.UInt
import Mathlib.Tactic.IntervalCases

/-!
# Length-prefixed records

A record is a fixed-width length followed by that many bytes. `head` classifies
the front of a byte string; a file that was cut off ends in a front that is
neither a record nor invalid, so the records before the cut are found again.
-/
namespace Lib.Framing

abbrev Bytes := List UInt8

/-- A fixed-width spelling of the lengths below `bound`. -/
structure LengthCode where
  width : Nat
  bound : Nat
  encode : Nat → Bytes
  decode : Bytes → Nat
  length_encode : ∀ n, (encode n).length = width
  decode_encode : ∀ n, n < bound → decode (encode n) = n

def bigEndian32 (n : Nat) : Bytes :=
  [UInt8.ofNat (n / 2 ^ 24), UInt8.ofNat (n / 2 ^ 16), UInt8.ofNat (n / 2 ^ 8), UInt8.ofNat n]

def fromBigEndian (bs : Bytes) : Nat := bs.foldl (fun n b => 256 * n + b.toNat) 0

theorem fromBigEndian_bigEndian32 {n : Nat} (h : n < 2 ^ 32) :
    fromBigEndian (bigEndian32 n) = n := by
  simp only [fromBigEndian, bigEndian32, List.foldl_cons, List.foldl_nil, UInt8.toNat_ofNat']
  omega

def be32 : LengthCode where
  width := 4
  bound := 2 ^ 32
  encode := bigEndian32
  decode := fromBigEndian
  length_encode := fun _ => rfl
  decode_encode := fun _ h => fromBigEndian_bigEndian32 h

def littleEndian32 (n : Nat) : Bytes :=
  [UInt8.ofNat n, UInt8.ofNat (n / 2 ^ 8), UInt8.ofNat (n / 2 ^ 16), UInt8.ofNat (n / 2 ^ 24)]

def fromLittleEndian (bs : Bytes) : Nat := bs.foldr (fun b n => b.toNat + 256 * n) 0

theorem fromLittleEndian_littleEndian32 {n : Nat} (h : n < 2 ^ 32) :
    fromLittleEndian (littleEndian32 n) = n := by
  simp only [fromLittleEndian, littleEndian32, List.foldr_cons, List.foldr_nil, UInt8.toNat_ofNat']
  omega

def le32 : LengthCode where
  width := 4
  bound := 2 ^ 32
  encode := littleEndian32
  decode := fromLittleEndian
  length_encode := fun _ => rfl
  decode_encode := fun _ h => fromLittleEndian_littleEndian32 h

inductive Head where
  | short
  | invalid
  | torn
  | record (payload rest : Bytes)
  deriving DecidableEq, Repr

def head (code : LengthCode) (limit : Nat) (bs : Bytes) : Head :=
  if bs.length < code.width then .short
  else
    let size := code.decode (bs.take code.width)
    if size = 0 ∨ limit < size then .invalid
    else if bs.length < code.width + size then .torn
    else .record ((bs.drop code.width).take size) (bs.drop (code.width + size))

def record (code : LengthCode) (payload : Bytes) : Bytes := code.encode payload.length ++ payload

def encodeAll (code : LengthCode) (payloads : List Bytes) : Bytes := payloads.flatMap (record code)

/-- The complete records at the front and the bytes after them; `none` on an
invalid length. Each record shortens the text, so `bs.length` is fuel enough. -/
def scan (code : LengthCode) (limit : Nat) : Nat → Bytes → Option (List Bytes × Bytes)
  | 0, bs => some ([], bs)
  | fuel + 1, bs =>
      match head code limit bs with
      | .short => some ([], bs)
      | .torn => some ([], bs)
      | .invalid => none
      | .record payload rest => (scan code limit fuel rest).map fun p => (payload :: p.1, p.2)

section Records
variable {code : LengthCode} {limit : Nat}

/-- A payload that can be framed: not empty, within the limit and countable. -/
def Fits (code : LengthCode) (limit : Nat) (payload : Bytes) : Prop :=
  payload ≠ [] ∧ payload.length ≤ limit ∧ payload.length < code.bound

@[simp] theorem length_record (payload : Bytes) :
    (record code payload).length = code.width + payload.length := by
  simp [record, code.length_encode]

@[simp] theorem encodeAll_nil : encodeAll code [] = [] := rfl

@[simp] theorem encodeAll_cons (payload : Bytes) (rest : List Bytes) :
    encodeAll code (payload :: rest) = record code payload ++ encodeAll code rest := rfl

@[simp] theorem encodeAll_append (front back : List Bytes) :
    encodeAll code (front ++ back) = encodeAll code front ++ encodeAll code back := by
  simp [encodeAll]

theorem take_width_record (payload rest : Bytes) :
    (record code payload ++ rest).take code.width = code.encode payload.length := by
  rw [record, List.append_assoc, List.take_append_of_le_length (by rw [code.length_encode]),
    List.take_of_length_le (by rw [code.length_encode])]

theorem head_record {payload : Bytes} (fits : Fits code limit payload) (rest : Bytes) :
    head code limit (record code payload ++ rest) = .record payload rest := by
  obtain ⟨nonempty, small, countable⟩ := fits
  have positive : payload.length ≠ 0 := by simpa using nonempty
  have drop : (record code payload ++ rest).drop code.width = payload ++ rest := by
    rw [record, List.append_assoc, List.drop_append_of_le_length (by rw [code.length_encode]),
      List.drop_of_length_le (by rw [code.length_encode]), List.nil_append]
  have size : (record code payload ++ rest).length = code.width + payload.length + rest.length := by
    simp
  rw [head, if_neg (by omega), take_width_record, code.decode_encode _ countable]
  rw [if_neg (by omega), if_neg (by omega), ← List.drop_drop, drop]
  simp

/-- A record cut off before its end is recognised as incomplete. -/
theorem head_cut {payload cut : Bytes} (fits : Fits code limit payload)
    (front : cut <+: record code payload) (proper : cut.length < (record code payload).length) :
    head code limit cut = .short ∨ head code limit cut = .torn := by
  obtain ⟨nonempty, small, countable⟩ := fits
  have positive : payload.length ≠ 0 := by simpa using nonempty
  by_cases short : cut.length < code.width
  · left
    rw [head, if_pos short]
  · right
    obtain ⟨tail, whole⟩ := front
    have prefixed : cut.take code.width = code.encode payload.length := by
      rw [← take_width_record payload [], List.append_nil, ← whole,
        List.take_append_of_le_length (by omega)]
    rw [length_record] at proper
    rw [head, if_neg short, prefixed, code.decode_encode _ countable]
    rw [if_neg (by omega), if_pos proper]

theorem scan_stop {fuel : Nat} {bs : Bytes}
    (stop : head code limit bs = .short ∨ head code limit bs = .torn) :
    scan code limit fuel bs = some ([], bs) := by
  cases fuel with
  | zero => rfl
  | succ fuel => rcases stop with h | h <;> simp [scan, h]

theorem scan_encodeAll {payloads : List Bytes} (fits : ∀ p ∈ payloads, Fits code limit p)
    {tail : Bytes} (stop : head code limit tail = .short ∨ head code limit tail = .torn)
    {fuel : Nat} (enough : payloads.length ≤ fuel) :
    scan code limit fuel (encodeAll code payloads ++ tail) = some (payloads, tail) := by
  induction payloads generalizing fuel with
  | nil => exact scan_stop stop
  | cons p payloads ih =>
      obtain ⟨fuel, rfl⟩ : ∃ k, fuel = k + 1 := ⟨fuel - 1, by simp at enough; omega⟩
      have rest := ih (fun q hq => fits q (List.mem_cons_of_mem p hq))
        (by simpa using enough)
      rw [encodeAll_cons, List.append_assoc, scan, head_record (fits p (by simp))]
      simp [rest]

/-- The records that lie completely before the cut. -/
def before (code : LengthCode) : Nat → List Bytes → List Bytes
  | _, [] => []
  | cut, p :: payloads =>
      if (record code p).length ≤ cut then p :: before code (cut - (record code p).length) payloads else []

theorem before_initial (cut : Nat) (payloads : List Bytes) : before code cut payloads <+: payloads := by
  induction payloads generalizing cut with
  | nil => exact List.nil_prefix
  | cons p payloads ih =>
      unfold before
      split
      · exact List.cons_prefix_cons.mpr ⟨rfl, ih _⟩
      · exact List.nil_prefix

/-- A cut leaves the records before it and a proper front of the next one. -/
theorem take_encodeAll (cut : Nat) (payloads : List Bytes) :
    ∃ tail, (encodeAll code payloads).take cut = encodeAll code (before code cut payloads) ++ tail ∧
      (tail = [] ∨ ∃ p ∈ payloads, tail <+: record code p ∧ tail.length < (record code p).length) := by
  induction payloads generalizing cut with
  | nil => exact ⟨[], by simp [before], .inl rfl⟩
  | cons p payloads ih =>
      rw [encodeAll_cons, before]
      split
      · rename_i complete
        obtain ⟨tail, front, cut'⟩ := ih (cut - (record code p).length)
        refine ⟨tail, ?_, cut'.imp (fun h => h) ?_⟩
        · rw [List.take_append, List.take_of_length_le complete, front, encodeAll_cons, List.append_assoc]
        · rintro ⟨q, member, h⟩
          exact ⟨q, List.mem_cons_of_mem p member, h⟩
      · rename_i inside
        have short : cut ≤ (record code p).length := by omega
        refine ⟨(record code p).take cut, ?_, .inr ⟨p, List.mem_cons_self, List.take_prefix _ _, ?_⟩⟩
        · rw [List.take_append_of_le_length short, encodeAll_nil, List.nil_append]
        · rw [List.length_take]
          omega

/-- The complete records of a cut off sequence, and the rest of the record it was cut in. -/
theorem prefix_encodeAll {bytes : Bytes} {payloads : List Bytes} (front : bytes <+: encodeAll code payloads) :
    ∃ whole tail, bytes = encodeAll code whole ++ tail ∧ whole <+: payloads ∧
      (tail = [] ∨ ∃ p ∈ payloads, tail <+: record code p ∧ tail.length < (record code p).length) := by
  obtain ⟨tail, cut, short⟩ := take_encodeAll bytes.length payloads
  exact ⟨_, tail, (List.prefix_iff_eq_take.mp front).trans cut, before_initial _ _, short⟩

theorem head_nil (wide : 0 < code.width) : head code limit [] = .short := by
  rw [head, if_pos (by simpa using wide)]

theorem length_le_encodeAll (code : LengthCode) (payloads : List Bytes) (wide : 0 < code.width) :
    payloads.length ≤ (encodeAll code payloads).length := by
  induction payloads with
  | nil => simp
  | cons p payloads ih =>
      simp only [encodeAll_cons, List.length_append, List.length_cons, length_record]
      omega

end Records
end Lib.Framing
