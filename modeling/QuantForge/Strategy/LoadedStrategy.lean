import QuantForge.Common.Types

/-! The loaded strategies of `strategy/strategy_manager.cpp`, `dispatch_candle` and
`dispatch_fill`. -/
namespace QuantForge

inductive PluginCall where
  | onCandle (candle : Candle)
  | onOrderFill (fill : Fill)
  deriving DecidableEq

/-- `instruments` is a field of the configuration. `calls` lists the callbacks that were
called, the latest first; no operation reads it. -/
structure LoadedStrategy where
  config : StrategyConfig
  instruments : List Nat := []
  running : Bool := true
  calls : List PluginCall := []

namespace LoadedStrategy

def call (s : LoadedStrategy) (c : PluginCall) : LoadedStrategy := { s with calls := c :: s.calls }

/-- A strategy without instruments is subscribed to all of them. -/
def Subscribed (s : LoadedStrategy) (token : Nat) : Prop :=
  s.instruments = [] ∨ token ∈ s.instruments

instance (s : LoadedStrategy) (token : Nat) : Decidable (s.Subscribed token) :=
  inferInstanceAs (Decidable (_ ∨ _))

def HasId (s : LoadedStrategy) (sid : Str) : Prop :=
  strncmpEq s.config.id sid maxStrategyLen = true

instance (s : LoadedStrategy) (sid : Str) : Decidable (s.HasId sid) :=
  inferInstanceAs (Decidable (_ = _))

def fillCalls (s : LoadedStrategy) (fill : Fill) : Nat := s.calls.count (.onOrderFill fill)

theorem fillCalls_onCandle (s : LoadedStrategy) (candle : Candle) :
    (s.call (.onCandle candle)).fillCalls = s.fillCalls := by
  funext fill
  exact List.count_cons_of_ne (by simp)

theorem fillCalls_onOrderFill (s : LoadedStrategy) (fill f : Fill) :
    (s.call (.onOrderFill fill)).fillCalls f = s.fillCalls f + if fill = f then 1 else 0 := by
  simp [fillCalls, call, List.count_cons]

end LoadedStrategy

def dispatchCandle (candle : Candle) (strategies : List LoadedStrategy) : List LoadedStrategy :=
  strategies.map fun s =>
    if s.running = false then s
    else if s.Subscribed candle.instrumentToken then s.call (.onCandle candle)
    else s

/-- Only the first strategy with the id is called. -/
def dispatchFill (fill : Fill) : List LoadedStrategy → List LoadedStrategy
  | [] => []
  | s :: rest =>
      if s.HasId fill.strategyId then s.call (.onOrderFill fill) :: rest
      else s :: dispatchFill fill rest

def ownerOf (strategies : List LoadedStrategy) (sid : Str) : Option Nat :=
  strategies.findIdx? fun s => s.HasId sid

theorem ownerOf_congr {ss ss' : List LoadedStrategy}
    (h : ss.map LoadedStrategy.config = ss'.map LoadedStrategy.config) :
    ownerOf ss = ownerOf ss' := by
  funext sid
  have hmap : ∀ ss : List LoadedStrategy, ownerOf ss sid =
      (ss.map LoadedStrategy.config).findIdx? fun config =>
        strncmpEq config.id sid maxStrategyLen := by
    intro ss
    rw [List.findIdx?_map, ownerOf]
    congr 1
    funext s
    exact Bool.decide_eq_true
  rw [hmap, hmap, h]

theorem config_dispatchCandle (candle : Candle) (strategies : List LoadedStrategy) :
    (dispatchCandle candle strategies).map LoadedStrategy.config =
      strategies.map LoadedStrategy.config := by
  rw [dispatchCandle, List.map_map]
  apply List.map_congr_left
  intro s _
  rw [Function.comp_apply]
  split
  · rfl
  · split <;> rfl

theorem fillCalls_dispatchCandle (candle : Candle) (strategies : List LoadedStrategy) :
    (dispatchCandle candle strategies).map LoadedStrategy.fillCalls =
      strategies.map LoadedStrategy.fillCalls := by
  rw [dispatchCandle, List.map_map]
  apply List.map_congr_left
  intro s _
  rw [Function.comp_apply]
  split
  · rfl
  · split
    · exact s.fillCalls_onCandle candle
    · rfl

theorem config_dispatchFill (fill : Fill) (strategies : List LoadedStrategy) :
    (dispatchFill fill strategies).map LoadedStrategy.config =
      strategies.map LoadedStrategy.config := by
  induction strategies with
  | nil => rfl
  | cons s rest ih =>
      rw [dispatchFill]
      split
      · rfl
      · rw [List.map_cons, ih, List.map_cons]

theorem getElem?_dispatchFill (fill : Fill) (strategies : List LoadedStrategy) (i : Nat) :
    (dispatchFill fill strategies)[i]? = strategies[i]?.map fun s =>
      if ownerOf strategies fill.strategyId = some i then s.call (.onOrderFill fill) else s := by
  induction strategies generalizing i with
  | nil => rfl
  | cons s rest ih =>
      rw [dispatchFill, ownerOf, List.findIdx?_cons]
      by_cases hid : s.HasId fill.strategyId
      · rw [if_pos hid, if_pos (decide_eq_true hid)]
        cases i with
        | zero => rfl
        | succ i => simp
      · rw [if_neg hid, if_neg (by simpa using hid)]
        cases i with
        | zero => simp
        | succ i =>
            rw [List.getElem?_cons_succ, ih, List.getElem?_cons_succ, ownerOf]
            simp

end QuantForge
