import QuantForge.Common.Types
import QuantForge.Library.Ring

/-! `common/spsc_queue.hpp` with each operation taken as one step. Full and empty
are told apart by leaving one slot unused, so at most `capacity - 1` items are
held; the ring is read as the list of the items between the two indices. -/
namespace QuantForge

open Library

/-- The `static_assert` of the template, for a capacity that has slots at all. -/
class PowerOfTwo (capacity : Nat) : Prop where
  and_sub_one : capacity &&& (capacity - 1) = 0
  ne_zero : capacity ≠ 0

structure SpscQueue (α : Type*) (capacity : Nat) where
  writePos : Nat
  readPos : Nat
  data : Nat → α
  write_lt : writePos < capacity
  read_lt : readPos < capacity

namespace SpscQueue

variable {α : Type*} {capacity : Nat}

/-- `(pos + 1) & mask_` -/
def next (capacity pos : Nat) : Nat := (pos + 1) &&& (capacity - 1)

theorem next_lt {pos : Nat} (hpos : pos < capacity) : next capacity pos < capacity := by
  have hle : next capacity pos ≤ capacity - 1 := Nat.and_le_right
  omega

theorem next_eq_mod [PowerOfTwo capacity] (pos : Nat) :
    next capacity pos = (pos + 1) % capacity := by
  obtain ⟨k, hk⟩ : capacity.isPowerOfTwo :=
    (Nat.and_sub_one_eq_zero_iff_isPowerOfTwo PowerOfTwo.ne_zero).mp PowerOfTwo.and_sub_one
  rw [next, hk, Nat.and_two_pow_sub_one_eq_mod]

def init (capacity : Nat) [PowerOfTwo capacity] (blank : α) : SpscQueue α capacity where
  writePos := 0
  readPos := 0
  data := fun _ => blank
  write_lt := Nat.pos_of_ne_zero PowerOfTwo.ne_zero
  read_lt := Nat.pos_of_ne_zero PowerOfTwo.ne_zero

def push (q : SpscQueue α capacity) (item : α) : Bool × SpscQueue α capacity :=
  let nextW := next capacity q.writePos
  if nextW = q.readPos then (false, q)
  else
    (true, { q with
      data := Function.update q.data q.writePos item
      writePos := nextW
      write_lt := next_lt q.write_lt })

def tryPop (q : SpscQueue α capacity) : Option α × SpscQueue α capacity :=
  if q.readPos = q.writePos then (none, q)
  else
    (some (q.data q.readPos), { q with
      readPos := next capacity q.readPos
      read_lt := next_lt q.read_lt })

def count (q : SpscQueue α capacity) : Nat :=
  if q.readPos ≤ q.writePos then q.writePos - q.readPos
  else q.writePos + capacity - q.readPos

def contents (q : SpscQueue α capacity) : List α :=
  Ring.segment q.data capacity q.readPos q.count

def Full (q : SpscQueue α capacity) : Prop := q.count = capacity - 1

instance (q : SpscQueue α capacity) : Decidable q.Full :=
  inferInstanceAs (Decidable (q.count = capacity - 1))

@[simp] theorem contents_length (q : SpscQueue α capacity) : q.contents.length = q.count :=
  Ring.segment_length _ _ _

@[simp] theorem contents_init [PowerOfTwo capacity] (blank : α) :
    (init capacity blank).contents = [] := rfl

theorem count_lt (q : SpscQueue α capacity) : q.count < capacity := by
  have hw := q.write_lt
  have hr := q.read_lt
  unfold count
  split <;> omega

theorem writePos_eq (q : SpscQueue α capacity) :
    q.writePos = (q.readPos + q.count) % capacity := by
  have hw := q.write_lt
  have hr := q.read_lt
  unfold count
  split
  · rw [Nat.mod_eq_of_lt (by omega)]
    omega
  · rw [show q.readPos + (q.writePos + capacity - q.readPos) = q.writePos + capacity by omega,
      Nat.add_mod_right, Nat.mod_eq_of_lt hw]

theorem tryPop_of_empty {q : SpscQueue α capacity} (hempty : q.contents = []) :
    q.tryPop = (none, q) := by
  have hzero : q.count = 0 := by rw [← q.contents_length, hempty, List.length_nil]
  have hr := q.read_lt
  rw [tryPop, if_pos]
  unfold count at hzero
  split at hzero <;> omega

variable [PowerOfTwo capacity]

private theorem next_eq_ite {pos : Nat} (hpos : pos < capacity) :
    next capacity pos = if pos + 1 = capacity then 0 else pos + 1 := by
  rw [next_eq_mod]
  split
  · rename_i hwrap
    rw [hwrap, Nat.mod_self]
  · exact Nat.mod_eq_of_lt (by omega)

theorem full_iff (q : SpscQueue α capacity) :
    q.Full ↔ next capacity q.writePos = q.readPos := by
  have hw := q.write_lt
  have hr := q.read_lt
  rw [next_eq_ite hw, Full, count]
  split <;> split <;> omega

theorem push_of_full {q : SpscQueue α capacity} (hfull : q.Full) (item : α) :
    q.push item = (false, q) := by
  rw [push, if_pos (q.full_iff.mp hfull)]

theorem push_contents {q : SpscQueue α capacity} (hroom : ¬q.Full) (item : α) :
    (q.push item).2.contents = q.contents ++ [item] := by
  have hne := mt q.full_iff.mpr hroom
  have hw := q.write_lt
  have hr := q.read_lt
  have hcount : (q.push item).2.count = q.count + 1 := by
    rw [push, if_neg hne]
    unfold Full count at hroom
    unfold count
    rw [next_eq_ite hw] at hne
    simp only [next_eq_ite hw]
    split at hne <;> split at hroom <;> split <;> split <;> omega
  have hlt : q.count < capacity := q.count_lt
  rw [contents, hcount, contents, push, if_neg hne]
  rw [← Ring.segment_push q.data hlt item, ← q.writePos_eq]

theorem tryPop_of_cons {q : SpscQueue α capacity} {item : α} {rest : List α}
    (hcons : q.contents = item :: rest) :
    q.tryPop.1 = some item ∧ q.tryPop.2.contents = rest := by
  have hlength : q.count = rest.length + 1 := by
    rw [← q.contents_length, hcons, List.length_cons]
  have hw := q.write_lt
  have hr := q.read_lt
  have hne : q.readPos ≠ q.writePos := by
    intro heq
    simp [count, heq] at hlength
  have hcount : q.tryPop.2.count = rest.length := by
    rw [tryPop, if_neg hne]
    unfold count at hlength
    unfold count
    simp only [next_eq_ite hr]
    split at hlength <;> split <;> split <;> omega
  have hsegment := hcons
  rw [contents, hlength, Ring.segment_cons, Nat.mod_eq_of_lt hr] at hsegment
  obtain ⟨hhead, htail⟩ := List.cons.inj hsegment
  constructor
  · rw [tryPop, if_neg hne, hhead]
  · rw [contents, hcount, tryPop, if_neg hne]
    change Ring.segment q.data capacity (next capacity q.readPos) rest.length = rest
    rw [next_eq_mod, Ring.segment_mod, htail]

end SpscQueue

def fillQueueCapacity : Nat := 4096

instance : PowerOfTwo fillQueueCapacity := ⟨by decide, by decide⟩

/-- From the order management system to the fill loop of the portfolio. -/
abbrev FillQueue := SpscQueue Fill fillQueueCapacity

end QuantForge
