import QuantForge.Common.Types

/-! `oms/order_state.hpp`. The compare-and-swap of a transition is one step, so it
finds the status that was checked. -/
namespace QuantForge

structure OrderStateMachine where
  status : OrderStatus := .pending
  deriving DecidableEq

namespace OrderStateMachine

def current (sm : OrderStateMachine) : OrderStatus := sm.status

def isLegal : OrderStatus → OrderStatus → Bool
  | .pending, target =>
      target = .opened || target = .rejected || target = .cancelled || target = .triggerPending
  | .triggerPending, target => target = .opened || target = .cancelled
  | .opened, target => target = .complete || target = .partlyFilled || target = .cancelled
  | .partlyFilled, target => target = .complete || target = .cancelled
  | _, _ => false

/-- `true` when the transition is legal and was applied. -/
def transition (sm : OrderStateMachine) (target : OrderStatus) : Bool × OrderStateMachine :=
  if isLegal sm.current target then (true, { status := target }) else (false, sm)

def isTerminal (sm : OrderStateMachine) : Bool :=
  sm.current = .complete || sm.current = .cancelled || sm.current = .rejected

theorem transition_of_legal {sm : OrderStateMachine} {target : OrderStatus}
    (hlegal : isLegal sm.current target = true) :
    sm.transition target = (true, { status := target }) :=
  if_pos hlegal

theorem transition_of_illegal {sm : OrderStateMachine} {target : OrderStatus}
    (hillegal : ¬isLegal sm.current target = true) : sm.transition target = (false, sm) :=
  if_neg hillegal

theorem transition_current (sm : OrderStateMachine) (target : OrderStatus) :
    (sm.transition target).2.current = if isLegal sm.current target then target
      else sm.current := by
  unfold transition
  split <;> rfl

/-- The machine ends at the target exactly when the edge is legal or it was there before. -/
theorem transition_reaches_iff (sm : OrderStateMachine) (target : OrderStatus) :
    target = (sm.transition target).2.current ↔
      isLegal sm.current target = true ∨ sm.current = target := by
  rw [transition_current]
  split
  · rename_i hlegal
    exact ⟨fun _ => .inl hlegal, fun _ => rfl⟩
  · rename_i hillegal
    exact ⟨fun heq => .inr heq.symm, fun h => (h.resolve_left hillegal).symm⟩

theorem transition_edge (sm : OrderStateMachine) (target : OrderStatus) :
    sm.current = (sm.transition target).2.current ∨
      isLegal sm.current (sm.transition target).2.current = true := by
  by_cases hlegal : isLegal sm.current target = true
  · rw [transition_of_legal hlegal]
    exact .inr hlegal
  · rw [transition_of_illegal hlegal]
    exact .inl rfl

theorem not_isLegal_of_isTerminal {sm : OrderStateMachine} (hterminal : sm.isTerminal = true)
    (target : OrderStatus) : isLegal sm.current target = false := by
  unfold isTerminal at hterminal
  generalize sm.current = status at hterminal ⊢
  cases status with
  | complete => rfl
  | cancelled => rfl
  | rejected => rfl
  | pending => simp at hterminal
  | opened => simp at hterminal
  | partlyFilled => simp at hterminal
  | triggerPending => simp at hterminal

end OrderStateMachine

end QuantForge
