import Mathlib.Data.List.Basic

/-! A queue of at most `bound` items as a specification: which answers it can give to a
sequence of calls. An implementation refines it when every history of its answered calls is
one of these. When a push may be refused is a parameter. -/
namespace QuantForge.Library

inductive FifoCall (α : Type*) where
  | push (item : α) (accepted : Bool)
  | pop (got : Option α)
  deriving DecidableEq

namespace FifoCall

variable {α : Type*}

def acceptedItem : FifoCall α → Option α
  | .push item true => some item
  | _ => none

def returnedItem : FifoCall α → Option α
  | .pop got => got
  | _ => none

end FifoCall

namespace Fifo

variable {α : Type*} {bound : Nat} {mayRefuse : List α → Prop}

/-- The items accepted in a history, which lists the latest call first; oldest first. -/
def accepted (calls : List (FifoCall α)) : List α :=
  (calls.filterMap FifoCall.acceptedItem).reverse

def returned (calls : List (FifoCall α)) : List α :=
  (calls.filterMap FifoCall.returnedItem).reverse

/-- The calls, the latest first, are answered by a queue of at most `bound` items that was
empty before them and holds `items` after them. -/
inductive Answers (bound : Nat) (mayRefuse : List α → Prop) :
    List (FifoCall α) → List α → Prop where
  | start : Answers bound mayRefuse [] []
  | push {calls : List (FifoCall α)} {items : List α} (item : α)
      (h : Answers bound mayRefuse calls items) (hroom : items.length < bound) :
      Answers bound mayRefuse (.push item true :: calls) (items ++ [item])
  | refuse {calls : List (FifoCall α)} {items : List α} (item : α)
      (h : Answers bound mayRefuse calls items) (hrefuse : mayRefuse items) :
      Answers bound mayRefuse (.push item false :: calls) items
  | pop {calls : List (FifoCall α)} {item : α} {items : List α}
      (h : Answers bound mayRefuse calls (item :: items)) :
      Answers bound mayRefuse (.pop (some item) :: calls) items
  | empty {calls : List (FifoCall α)} (h : Answers bound mayRefuse calls []) :
      Answers bound mayRefuse (.pop none :: calls) []

def IsFull (bound : Nat) (items : List α) : Prop := items.length = bound

@[simp] theorem accepted_push (item : α) (calls : List (FifoCall α)) :
    accepted (.push item true :: calls) = accepted calls ++ [item] := by
  simp [accepted, FifoCall.acceptedItem]

@[simp] theorem accepted_refused (item : α) (calls : List (FifoCall α)) :
    accepted (.push item false :: calls) = accepted calls := rfl

@[simp] theorem accepted_pop (got : Option α) (calls : List (FifoCall α)) :
    accepted (.pop got :: calls) = accepted calls := rfl

@[simp] theorem returned_push (item : α) (ok : Bool) (calls : List (FifoCall α)) :
    returned (.push item ok :: calls) = returned calls := rfl

@[simp] theorem returned_pop (item : α) (calls : List (FifoCall α)) :
    returned (.pop (some item) :: calls) = returned calls ++ [item] := by
  simp [returned, FifoCall.returnedItem]

@[simp] theorem returned_empty (calls : List (FifoCall α)) :
    returned (.pop none :: calls) = returned calls := rfl

theorem Answers.accepted_eq {calls : List (FifoCall α)} {items : List α}
    (h : Answers bound mayRefuse calls items) : accepted calls = returned calls ++ items := by
  induction h with
  | start => rfl
  | push item h hroom ih =>
      rw [accepted_push, returned_push, ih, List.append_assoc]
  | refuse item h hrefuse ih =>
      rw [accepted_refused, returned_push, ih]
  | pop h ih =>
      rw [accepted_pop, returned_pop, ih, List.append_assoc]
      rfl
  | empty h ih =>
      rw [accepted_pop, returned_empty, ih]

theorem Answers.length_le {calls : List (FifoCall α)} {items : List α}
    (h : Answers bound mayRefuse calls items) : items.length ≤ bound := by
  induction h with
  | start => exact Nat.zero_le bound
  | push item h hroom ih =>
      rw [List.length_append, List.length_singleton]
      omega
  | refuse item h hrefuse ih => exact ih
  | pop h ih =>
      rw [List.length_cons] at ih
      omega
  | empty h ih => exact ih

end Fifo

end QuantForge.Library
