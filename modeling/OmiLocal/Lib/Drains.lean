import Mathlib.Data.Multiset.AddSub
import Mathlib.Algebra.Order.Group.Multiset
import Mathlib.Tactic.Abel

/-!
# A bounded buffer behind one sender

A send takes the whole queue. Entries that arrive meanwhile wait in a new one; if the send fails, its
entries go back in front. Whenever the queue outgrows its capacity, it loses its oldest entries. Entries
are numbered as they arrive, and every removal is on record with what was in flight at the time.
-/
namespace Lib.Drains

section Newest
variable {α : Type*} (weight : α → Nat) (capacity : Nat)

/-- The longest end of a queue that fits. -/
def newest : List α → List α
  | [] => []
  | entry :: queue => if ((entry :: queue).map weight).sum ≤ capacity then entry :: queue else newest queue

theorem newest_fits (queue : List α) : ((newest weight capacity queue).map weight).sum ≤ capacity := by
  induction queue with
  | nil => exact Nat.zero_le _
  | cons entry queue ih =>
      unfold newest
      split
      · assumption
      · exact ih

theorem newest_suffix (queue : List α) : newest weight capacity queue <:+ queue := by
  induction queue with
  | nil => exact List.suffix_rfl
  | cons entry queue ih =>
      unfold newest
      split
      · exact List.suffix_rfl
      · exact ih.trans (List.suffix_cons entry queue)

variable {weight capacity}

theorem newest_eq_self {queue : List α} (fits : (queue.map weight).sum ≤ capacity) :
    newest weight capacity queue = queue := by
  cases queue with
  | nil => rfl
  | cons entry queue => exact if_pos fits

/-- What is dropped before an arrival would be dropped after it. -/
theorem newest_append (queue arrived : List α) :
    newest weight capacity (newest weight capacity queue ++ arrived) = newest weight capacity (queue ++ arrived) := by
  induction queue with
  | nil => rfl
  | cons entry queue ih =>
      by_cases fits : ((entry :: queue).map weight).sum ≤ capacity
      · rw [newest_eq_self fits]
      · rw [newest, if_neg fits, ih, List.cons_append, newest, if_neg]
        rw [← List.cons_append, List.map_append, List.sum_append]
        omega

theorem newest_concat (queue : List α) {entry : α} (fits : weight entry ≤ capacity) :
    newest weight capacity (queue ++ [entry]) = newest weight (capacity - weight entry) queue ++ [entry] := by
  induction queue with
  | nil => exact if_pos (by simpa using fits)
  | cons first queue ih =>
      have size : (((first :: queue) ++ [entry]).map weight).sum = ((first :: queue).map weight).sum + weight entry := by
        rw [List.map_append, List.sum_append, List.map_singleton, List.sum_singleton]
      by_cases small : ((first :: queue).map weight).sum ≤ capacity - weight entry
      · rw [newest_eq_self small, newest_eq_self (by omega)]
      · rw [List.cons_append, newest, ← List.cons_append, if_neg (by omega), ih, newest, if_neg small]

variable (weight capacity) in
/-- The entries that `newest` drops. -/
def tooOld (queue : List α) : List α := queue.take (queue.length - (newest weight capacity queue).length)

variable (weight capacity) in
theorem tooOld_append_newest (queue : List α) : tooOld weight capacity queue ++ newest weight capacity queue = queue := by
  rw [tooOld, List.suffix_iff_eq_drop.mp (newest_suffix weight capacity queue), List.length_drop]
  have shorter := (newest_suffix weight capacity queue).length_le
  rw [show queue.length - (queue.length - (queue.length - (newest weight capacity queue).length)) =
    queue.length - (newest weight capacity queue).length by omega, List.take_append_drop]

theorem newest_map {β : Type*} (f : β → α) (queue : List β) :
    newest weight capacity (queue.map f) = (newest (fun entry => weight (f entry)) capacity queue).map f := by
  induction queue with
  | nil => rfl
  | cons entry queue ih =>
      rw [List.map_cons, newest, newest, ih, ← List.map_cons, List.map_map]
      exact (apply_ite (List.map f) _ _ _).symm

end Newest

/-! ## Unit weights -/

section Units
variable {α : Type*} {capacity : Nat}

theorem newest_unit (queue : List α) : newest (fun _ => 1) capacity queue = queue.drop (queue.length - capacity) := by
  induction queue with
  | nil => exact List.drop_nil.symm
  | cons entry queue ih =>
      have size : ((entry :: queue).map fun _ => 1).sum = queue.length + 1 := by
        rw [List.map_const', List.sum_replicate_nat, mul_one, List.length_cons]
      rw [newest, size, ih]
      split
      · rw [List.length_cons, Nat.sub_eq_zero_of_le (by assumption), List.drop_zero]
      · rw [List.length_cons, show queue.length + 1 - capacity = queue.length - capacity + 1 by omega, List.drop_succ_cons]

end Units

/-! ## The buffer -/

structure Entry (β : Type*) where
  number : Nat
  item : β
  deriving DecidableEq

/-- An entry that was dropped, how many had been sent by then, and what was in flight. -/
structure Removal (β : Type*) where
  entry : Entry β
  sent : Nat
  inFlight : List (Entry β)
  deriving DecidableEq

structure Drain (β : Type*) where
  received : List β
  sent : List (Entry β)
  inFlight : List (Entry β)
  queued : List (Entry β)
  removed : List (Removal β)
  deriving DecidableEq

namespace Drain
variable {β : Type*}

def start : Drain β := ⟨[], [], [], [], []⟩

section Operations
variable (weight : β → Nat) (capacity : Nat)

/-- A queue, without the entries that are too many. -/
def fit (b : Drain β) (queue : List (Entry β)) : Drain β :=
  { b with
    queued := newest (fun entry => weight entry.item) capacity queue
    removed := b.removed ++
      (tooOld (fun entry => weight entry.item) capacity queue).map
        fun entry => Removal.mk entry b.sent.length b.inFlight }

def put (b : Drain β) (item : β) : Drain β :=
  { b with received := b.received ++ [item] }.fit weight capacity (b.queued ++ [Entry.mk b.received.length item])

def take (b : Drain β) : Drain β := { b with inFlight := b.queued, queued := [] }

def succeed (b : Drain β) : Drain β := { b with sent := b.sent ++ b.inFlight, inFlight := [] }

def fail (b : Drain β) : Drain β := { b with inFlight := [] }.fit weight capacity (b.inFlight ++ b.queued)

end Operations

/-- Sent, in flight and queued, the entries are in the order of their arrival; none is lost but those on record, and
whatever was neither sent nor in flight when an entry was dropped is newer than it. -/
structure Fifo (b : Drain β) : Prop where
  ordered : (b.sent ++ b.inFlight ++ b.queued).Pairwise fun earlier later => earlier.number < later.number
  accounted : (b.sent ++ b.inFlight ++ b.queued ++ b.removed.map Removal.entry).Perm (b.received.mapIdx Entry.mk)
  oldest : ∀ r ∈ b.removed, ∀ entry ∈ b.sent.drop r.sent ++ b.inFlight ++ b.queued,
    r.entry.number < entry.number ∨ entry ∈ r.inFlight

theorem fifo_start : (start : Drain β).Fifo :=
  ⟨List.Pairwise.nil, List.Perm.refl _, fun _ gone => (by cases gone)⟩

section Steps
variable {b : Drain β}

theorem Fifo.number_lt (h : b.Fifo) {entry : Entry β}
    (known : entry ∈ b.sent ++ b.inFlight ++ b.queued ++ b.removed.map Removal.entry) :
    entry.number < b.received.length := by
  obtain ⟨number, small, rfl⟩ := List.mem_mapIdx.mp (h.accounted.mem_iff.mp known)
  exact small

variable (weight : β → Nat) (capacity : Nat)

theorem Fifo.fit {queue : List (Entry β)} (h : { b with queued := queue }.Fifo) : (b.fit weight capacity queue).Fifo where
  ordered := h.ordered.sublist ((newest_suffix _ _ queue).sublist.append_left _)
  accounted := by
    refine List.Perm.trans ?_ h.accounted
    have parts := tooOld_append_newest (fun entry : Entry β => weight entry.item) capacity queue
    have dropped : (b.fit weight capacity queue).removed.map Removal.entry =
        b.removed.map Removal.entry ++ tooOld (fun entry => weight entry.item) capacity queue := by
      simp only [Drain.fit, List.map_append, List.map_map, Function.comp_def, List.map_id']
    rw [dropped, ← Multiset.coe_eq_coe]
    conv_rhs => rw [← parts]
    simp only [Drain.fit, ← Multiset.coe_add]
    abel
  oldest r gone entry left := by
    have sub := (newest_suffix (fun entry : Entry β => weight entry.item) capacity queue).subset
    rcases List.mem_append.mp gone with before | now
    · refine h.oldest r before entry ?_
      rcases List.mem_append.mp left with earlier | queued
      · exact List.mem_append_left _ earlier
      · exact List.mem_append_right _ (sub queued)
    · obtain ⟨first, old, rfl⟩ := List.mem_map.mp now
      simp only [Drain.fit, List.drop_length, List.nil_append] at left
      rcases List.mem_append.mp left with flying | queued
      · exact Or.inr flying
      · have parts := tooOld_append_newest (fun entry : Entry β => weight entry.item) capacity queue
        have ordered := (List.pairwise_append.mp h.ordered).2.1
        rw [← parts] at ordered
        exact Or.inl ((List.pairwise_append.mp ordered).2.2 first old entry queued)

/-- The buffer once an entry is queued and before anything is dropped. -/
theorem Fifo.arrived (h : b.Fifo) (item : β) :
    { b with
      received := b.received ++ [item]
      queued := b.queued ++ [Entry.mk b.received.length item] }.Fifo where
  ordered := by
    rw [← List.append_assoc]
    refine List.pairwise_append.mpr ⟨h.ordered, List.pairwise_singleton _ _, fun earlier known later last => ?_⟩
    rw [List.mem_singleton.mp last]
    exact h.number_lt (List.mem_append_left _ known)
  accounted := by
    have next : (b.received ++ [item]).mapIdx Entry.mk = b.received.mapIdx Entry.mk ++ [⟨b.received.length, item⟩] :=
      List.mapIdx_concat
    rw [next]
    refine List.Perm.trans ?_ (h.accounted.append_right _)
    rw [← Multiset.coe_eq_coe]
    simp only [← Multiset.coe_add]
    abel
  oldest r gone entry left := by
    rw [← List.append_assoc] at left
    rcases List.mem_append.mp left with known | new
    · exact h.oldest r gone entry known
    · rw [List.mem_singleton.mp new]
      exact Or.inl (h.number_lt (List.mem_append_right _ (List.mem_map_of_mem gone)))

theorem Fifo.put (h : b.Fifo) (item : β) : (b.put weight capacity item).Fifo := (h.arrived item).fit weight capacity

theorem Fifo.take (h : b.Fifo) (idle : b.inFlight = []) : b.take.Fifo := by
  obtain ⟨ordered, accounted, oldest⟩ := h
  rw [idle, List.append_nil] at ordered accounted
  refine ⟨?_, ?_, fun r gone entry left => oldest r gone entry ?_⟩
  · rwa [Drain.take, List.append_nil]
  · rwa [Drain.take, List.append_nil]
  · rw [Drain.take, List.append_nil] at left
    rwa [idle, List.append_nil]

theorem Fifo.succeed (h : b.Fifo) : b.succeed.Fifo where
  ordered := by simpa only [Drain.succeed, List.append_nil] using h.ordered
  accounted := by simpa only [Drain.succeed, List.append_nil] using h.accounted
  oldest r gone entry left := by
    refine h.oldest r gone entry ?_
    simp only [Drain.succeed, List.append_nil, List.drop_append, List.mem_append] at left ⊢
    exact left.imp_left (Or.imp_right List.mem_of_mem_drop)

/-- The buffer once the entries of a failed send are back and before anything is dropped. -/
theorem Fifo.returned (h : b.Fifo) : { b with inFlight := [], queued := b.inFlight ++ b.queued }.Fifo where
  ordered := by simpa only [List.append_nil, List.append_assoc] using h.ordered
  accounted := by simpa only [List.append_nil, List.append_assoc] using h.accounted
  oldest r gone entry left := h.oldest r gone entry (by simpa only [List.append_nil, List.append_assoc] using left)

theorem Fifo.fail (h : b.Fifo) : (b.fail weight capacity).Fifo := h.returned.fit weight capacity

end Steps

/-! ## Entries of one size -/

/-- Nothing that is queued is older than what was dropped. What is in flight can be, but then the queue behind it is
full. -/
structure Latest (capacity : Nat) (b : Drain β) : Prop where
  queued : ∀ r ∈ b.removed, ∀ entry ∈ b.queued, r.entry.number < entry.number
  full : ∀ r ∈ b.removed, ∀ entry ∈ b.inFlight, r.entry.number < entry.number ∨ b.queued.length = capacity

section Units
variable {b : Drain β} {capacity : Nat}

theorem latest_start : (start : Drain β).Latest capacity := ⟨fun _ gone => (by cases gone), fun _ gone => (by cases gone)⟩

theorem length_newest_unit (queue : List β) : (newest (fun _ => 1) capacity queue).length = min queue.length capacity := by
  rw [newest_unit, List.length_drop]
  omega

theorem Latest.fit {queue : List (Entry β)} (fifo : { b with queued := queue }.Fifo)
    (kept : ∀ r ∈ b.removed, ∀ entry ∈ newest (fun _ => 1) capacity queue, r.entry.number < entry.number)
    (full : ∀ r ∈ b.removed, ∀ entry ∈ b.inFlight, r.entry.number < entry.number ∨ capacity ≤ queue.length) :
    (b.fit (fun _ => 1) capacity queue).Latest capacity where
  queued r gone entry queued := by
    rcases List.mem_append.mp gone with before | now
    · exact kept r before entry queued
    · obtain ⟨first, old, rfl⟩ := List.mem_map.mp now
      have ordered := (List.pairwise_append.mp fifo.ordered).2.1
      rw [← tooOld_append_newest (fun _ => 1) capacity queue] at ordered
      exact (List.pairwise_append.mp ordered).2.2 first old entry queued
  full r gone entry flying := by
    have length : (b.fit (fun _ => 1) capacity queue).queued.length = min queue.length capacity := length_newest_unit queue
    rcases List.mem_append.mp gone with before | now
    · exact (full r before entry flying).imp_right fun enough => length.trans (Nat.min_eq_right enough)
    · obtain ⟨first, old, -⟩ := List.mem_map.mp now
      have some_ := List.length_pos_of_mem old
      rw [tooOld, List.length_take, length_newest_unit] at some_
      exact Or.inr (length.trans (by omega))

theorem Latest.put (h : b.Latest capacity) (fifo : b.Fifo) (item : β) :
    (b.put (fun _ => 1) capacity item).Latest capacity := by
  refine Latest.fit (fifo.arrived item) (fun r gone entry queued => ?_) (fun r gone entry flying => ?_)
  · rcases List.mem_append.mp ((newest_suffix _ _ _).subset queued) with known | new
    · exact h.queued r gone entry known
    · rw [List.mem_singleton.mp new]
      exact fifo.number_lt (List.mem_append_right _ (List.mem_map_of_mem gone))
  · refine (h.full r gone entry flying).imp_right fun full => ?_
    rw [List.length_append, full]
    exact Nat.le_add_right _ _

theorem Latest.take (h : b.Latest capacity) : b.take.Latest capacity :=
  ⟨fun _ _ _ queued => (by cases queued), fun r gone entry queued => Or.inl (h.queued r gone entry queued)⟩

theorem Latest.succeed (h : b.Latest capacity) : b.succeed.Latest capacity :=
  ⟨h.queued, fun _ _ _ flying => (by cases flying)⟩

theorem Latest.fail (h : b.Latest capacity) (fifo : b.Fifo) : (b.fail (fun _ => 1) capacity).Latest capacity := by
  refine Latest.fit fifo.returned (fun r gone entry queued => ?_) (fun _ _ _ flying => (by cases flying))
  rcases List.mem_append.mp ((newest_suffix _ _ _).subset queued) with flying | known
  · rcases h.full r gone entry flying with newer | full
    · exact newer
    -- The queue behind the send is full, so nothing of the send stays.
    · refine h.queued r gone entry ?_
      rwa [newest_unit, List.length_append, full, Nat.add_sub_cancel, List.drop_left'  rfl] at queued
  · exact h.queued r gone entry known

end Units
end Drain
end Lib.Drains
