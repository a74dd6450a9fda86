import Mathlib.Algebra.BigOperators.Group.List.Basic
import Mathlib.Algebra.Order.Group.Unbundled.Abs
import QuantForge.Common.Int32
import QuantForge.Common.Types

/-! `strategy/plugins/momentum_strategy.cpp`, with the orders that the strategy has working.
`submit_order` answers whether the order was accepted, and fills of the order may come back
while it runs. `on_candle` is declared and has no body: the price series that it would
maintain are arguments of the event that evaluates a signal. Prices are exact; where a value of
the source can be NaN it is an option, and NaN is `none`. -/
namespace QuantForge

open Library

/-- `static_cast<size_t>` of an `int`. -/
def asSize (n : Int) : Nat := (n % 2 ^ 64).toNat

/-- `static_cast<int>` of a `double`: its whole part, or the least `int` when that does not fit. -/
def truncate (q : ℚ) : Int :=
  let whole := q.num.tdiv q.den
  if Fits32 whole then whole else -2 ^ 31

structure PriceSeries where
  maxLen : Nat := 200
  data : List ℚ := []

namespace PriceSeries

def push (series : PriceSeries) (price : ℚ) : PriceSeries :=
  let data := series.data ++ [price]
  { series with data := if data.length > series.maxLen then data.tail else data }

def ready (series : PriceSeries) (n : Nat) : Bool := decide (series.data.length ≥ n)

/-- The average starts at the first of the last `period` prices. -/
def ema (series : PriceSeries) (period : Nat) : ℚ :=
  if series.data.length < period then 0
  else
    let k : ℚ := 2 / (period + 1)
    match series.data.drop (series.data.length - period) with
    | [] => 0
    | first :: rest => rest.foldl (fun val price => price * k + val * (1 - k)) first

def trueRange (series : PriceSeries) (highs lows : List ℚ) (i : Nat) : ℚ :=
  let range := highs.getD i 0 - lows.getD i 0
  if i > 0 then
    let previous := series.data.getD (i - 1) 0
    max (max range |highs.getD i 0 - previous|) |lows.getD i 0 - previous|
  else range

/-- A period of zero passes the guard, and divides zero by zero. -/
def atr (series : PriceSeries) (period : Nat) (highs lows : List ℚ) : Option ℚ :=
  if series.data.length < period + 1 ∨ highs.length < period ∨ lows.length < period then some 0
  else if period = 0 then none
  else
    some (((List.range' (series.data.length - period) period).map
      (series.trueRange highs lows)).sum / period)

end PriceSeries

structure InstrumentState where
  closes : PriceSeries := {}
  highs : List ℚ := []
  lows : List ℚ := []
  lastLtp : ℚ := 0
  entryPrice : ℚ := 0
  stopPrice : Option ℚ := some 0
  targetPrice : Option ℚ := some 0
  inPosition : Bool := false
  positionSide : Side := .buy
  positionQty : Int := 0
  lastSignalTs : Nat := 0

def Side.opposite : Side → Side
  | .buy => .sell
  | .sell => .buy

namespace InstrumentState

/-- The tag of the exit that the price triggers; the target is tested last. A comparison with NaN
is false. -/
def exitTag (st : InstrumentState) (price : ℚ) : Option Str :=
  match st.positionSide with
  | .buy =>
      if st.targetPrice.any (price ≥ ·) then some "take-profit".toList
      else if st.stopPrice.any (price ≤ ·) then some "stop-loss".toList
      else none
  | .sell =>
      if st.targetPrice.any (price ≤ ·) then some "take-profit".toList
      else if st.stopPrice.any (price ≥ ·) then some "stop-loss".toList
      else none

/-- A fill opens a position when there is none, and closes it when there is one. -/
def onOrderFill (st : InstrumentState) (fill : Fill) : InstrumentState :=
  if st.inPosition = false then
    { st with
      inPosition := true
      positionSide := fill.side
      positionQty := fill.quantity
      entryPrice := fill.price }
  else { st with inPosition := false, positionQty := 0 }

end InstrumentState

structure MomentumStrategy where
  id : Str
  states : Dict Nat InstrumentState := ∅
  emaFast : Int := 9
  emaSlow : Int := 21
  atrPeriod : Int := 14
  atrSlMultiplier : ℚ := 3 / 2
  atrTpMultiplier : ℚ := 3
  riskPct : ℚ := 1 / 100
  maxPositions : Int := 3
  minSignalStrength : ℚ := 2 / 1000
  alive : Bool := true

/-- What a signal reads from the clock and from the context: the capital, and the price of the
position that the portfolio has. -/
structure SignalContext where
  now : Nat
  entryNow : Nat
  capital : ℚ
  currentPrice : ℚ

namespace MomentumStrategy

variable (s : MomentumStrategy)

def stateOf (token : Nat) : InstrumentState := (s.states.lookup token).getD {}

/-- `states_[token]` after a change. -/
def modify (token : Nat) (f : InstrumentState → InstrumentState) : MomentumStrategy :=
  { s with states := s.states.insert token (f (s.stateOf token)) }

def updateParams (p : Dict Str ℚ) : MomentumStrategy :=
  let real := fun (key : String) (dest : ℚ) => (p.lookup key.toList).getD dest
  let int := fun (key : String) (dest : Int) => ((p.lookup key.toList).map truncate).getD dest
  { s with
    emaFast := int "ema_fast" s.emaFast
    emaSlow := int "ema_slow" s.emaSlow
    atrPeriod := int "atr_period" s.atrPeriod
    atrSlMultiplier := real "atr_sl_multiplier" s.atrSlMultiplier
    atrTpMultiplier := real "atr_tp_multiplier" s.atrTpMultiplier
    riskPct := real "risk_pct" s.riskPct
    maxPositions := int "max_positions" s.maxPositions
    minSignalStrength := real "min_signal_strength" s.minSignalStrength }

def computeQty (token : Nat) (atrValue : Option ℚ) (ctx : SignalContext) : Int :=
  if ctx.capital ≤ 0 ∨ atrValue.any (· ≤ 0) then 0
  else
    let price := if ctx.currentPrice > 0 then ctx.currentPrice else (s.stateOf token).lastLtp
    if price ≤ 0 then 0
    else
      let units := atrValue.map fun atr => ctx.capital * s.riskPct / (s.atrSlMultiplier * atr)
      max 1 ((units.map truncate).getD (-2 ^ 31))

def marketOrder (token : Nat) (side : Side) (qty : Int) (tag : Str) : OrderRequest where
  instrumentToken := token
  side := side
  orderType := .market
  product := .intraday
  quantity := qty
  signalStrength := 1
  strategyId := strncpy s.id (maxStrategyLen - 1)
  tag := strncpy tag (maxTagLen - 1)

def fastEma (token : Nat) : ℚ := (s.stateOf token).closes.ema (asSize s.emaFast)

def slowEma (token : Nat) : ℚ := (s.stateOf token).closes.ema (asSize s.emaSlow)

/-- `evaluate_signal` goes on to try an entry. The difference of the clock readings is one of
unsigned numbers. -/
def Signals (token : Nat) (ctx : SignalContext) : Prop :=
  (s.stateOf token).closes.ready (asSize (s.emaSlow + 5)) = true ∧ s.slowEma token ≠ 0 ∧
    300 * 1000000000 ≤ (ctx.now + 2 ^ 64 - (s.stateOf token).lastSignalTs) % 2 ^ 64 ∧
    (s.stateOf token).inPosition = false ∧
    |(s.fastEma token - s.slowEma token) / s.slowEma token| ≥ s.minSignalStrength

instance (token : Nat) (ctx : SignalContext) : Decidable (s.Signals token ctx) :=
  inferInstanceAs (Decidable (_ ∧ _ ∧ _ ∧ _ ∧ _))

def active : Nat := s.states.values.countP InstrumentState.inPosition

/-- The side and the quantity of the entry that `try_entry` places, and the average range that
its stops are set by. -/
def entry (token : Nat) (ctx : SignalContext) : Option (Side × Int × Option ℚ) :=
  let atrVal := (s.stateOf token).closes.atr (asSize s.atrPeriod) (s.stateOf token).highs
    (s.stateOf token).lows
  let qty := s.computeQty token atrVal ctx
  if s.active ≥ s.maxPositions then none
  else if atrVal.any (· ≤ 0) then none
  else if qty ≤ 0 then none
  else some (if s.fastEma token > s.slowEma token then .buy else .sell, qty, atrVal)

/-- The stops of an entry at the last price. -/
def arm (token : Nat) (side : Side) (atrVal : Option ℚ) (entryNow : Nat) : MomentumStrategy :=
  s.modify token fun st =>
    let sign : ℚ := if side = .buy then 1 else -1
    { st with
      stopPrice := atrVal.map fun atr => st.lastLtp - sign * (s.atrSlMultiplier * atr)
      targetPrice := atrVal.map fun atr => st.lastLtp + sign * (s.atrTpMultiplier * atr)
      entryPrice := st.lastLtp
      lastSignalTs := entryNow }

def onOrderFill (fill : Fill) : MomentumStrategy :=
  s.modify fill.instrumentToken fun st => st.onOrderFill fill

def entryTag : Side → Str
  | .buy => "momentum-long".toList
  | .sell => "momentum-short".toList

theorem stateOf_modify (token : Nat) (f : InstrumentState → InstrumentState) (t : Nat) :
    (s.modify token f).stateOf t = if t = token then f (s.stateOf token) else s.stateOf t := by
  rw [stateOf, modify]
  split
  · rename_i heq
    rw [heq, AList.lookup_insert]
    rfl
  · rename_i hne
    rw [AList.lookup_insert_ne hne]
    rfl

theorem part_modify {α : Type*} {part : InstrumentState → α} (token : Nat)
    {f : InstrumentState → InstrumentState} (h : ∀ st, part (f st) = part st) (t : Nat) :
    part ((s.modify token f).stateOf t) = part (s.stateOf t) := by
  rw [stateOf_modify]
  split
  · rename_i heq
    rw [h, heq]
  · rfl

theorem quantity_pos_of_entry {token : Nat} {ctx : SignalContext} {order : Side × Int × Option ℚ}
    (h : s.entry token ctx = some order) : 0 < order.2.1 := by
  rw [entry] at h
  split at h
  · cases h
  · split at h
    · cases h
    · split at h
      · cases h
      · rename_i hqty
        rw [← Option.some.inj h]
        exact not_le.mp hqty

end MomentumStrategy

/-- An accepted order and the part of it that is not filled. -/
structure WorkingOrder where
  req : OrderRequest
  remaining : Int

structure Execution where
  quantity : Int
  price : ℚ

/-- The answer of `submit_order`, and the executions of the order that are reported while it
runs. -/
structure SubmitReply where
  accepted : Bool
  executions : List Execution := []

/-- `fills` lists what was reported to the strategy, the latest first. -/
structure MomentumSession where
  strategy : MomentumStrategy
  working : Dict Nat WorkingOrder := ∅
  nextOrder : Nat := 0
  fills : List Fill := []

inductive MomentumEvent where
  | start (params : Dict Str ℚ)
  | tick (t : NormalizedTick) (reply : SubmitReply)
  | candle (token : Nat) (closes : PriceSeries) (highs lows : List ℚ) (ctx : SignalContext)
      (reply : SubmitReply)
  | fill (order : Nat) (execution : Execution)
  | flatten (replies : Nat → SubmitReply)
  | updateParams (params : Dict Str ℚ)

def WorkingOrder.fill (o : WorkingOrder) (x : Execution) : Fill where
  strategyId := o.req.strategyId
  instrumentToken := o.req.instrumentToken
  side := o.req.side
  quantity := x.quantity
  price := x.price

namespace MomentumSession

variable (s : MomentumSession)

def execute (order : Nat) (x : Execution) : MomentumSession :=
  match s.working.lookup order with
  | none => s
  | some o =>
      if 0 < x.quantity ∧ x.quantity ≤ o.remaining then
        { s with
          strategy := s.strategy.onOrderFill (o.fill x)
          working :=
            if x.quantity = o.remaining then s.working.erase order
            else s.working.insert order { o with remaining := o.remaining - x.quantity }
          fills := o.fill x :: s.fills }
      else s

def accept (req : OrderRequest) : MomentumSession :=
  { s with
    working := s.working.insert s.nextOrder ⟨req, req.quantity⟩
    nextOrder := s.nextOrder + 1 }

/-- `place_market`; a refusal is only logged. -/
def placeMarket (token : Nat) (side : Side) (qty : Int) (tag : Str) (reply : SubmitReply) :
    MomentumSession :=
  if reply.accepted then
    reply.executions.foldl (fun s' x => s'.execute s.nextOrder x)
      (s.accept (s.strategy.marketOrder token side qty tag))
  else s

def modify (token : Nat) (f : InstrumentState → InstrumentState) : MomentumSession :=
  { s with strategy := s.strategy.modify token f }

/-- The exit is placed and the flag is cleared, filled or not. -/
def exit (token : Nat) (tag : Str) (reply : SubmitReply) : MomentumSession :=
  let st := s.strategy.stateOf token
  (s.placeMarket token st.positionSide.opposite st.positionQty tag reply).modify token
    fun st => { st with inPosition := false }

def managePosition (token : Nat) (price : ℚ) (reply : SubmitReply) : MomentumSession :=
  if (s.strategy.stateOf token).inPosition = false then s
  else
    match (s.strategy.stateOf token).exitTag price with
    | none => s
    | some tag => s.exit token tag reply

def onTick (t : NormalizedTick) (reply : SubmitReply) : MomentumSession :=
  if s.strategy.alive = false then s
  else
    (s.modify t.instrumentToken fun st => { st with lastLtp := t.ltp }).managePosition
      t.instrumentToken t.ltp reply

def tryEntry (token : Nat) (ctx : SignalContext) (reply : SubmitReply) : MomentumSession :=
  match s.strategy.entry token ctx with
  | none => s
  | some (side, qty, atrVal) =>
      MomentumSession.placeMarket
        { s with strategy := s.strategy.arm token side atrVal ctx.entryNow }
        token side qty (MomentumStrategy.entryTag side) reply

def evaluateSignal (token : Nat) (ctx : SignalContext) (reply : SubmitReply) : MomentumSession :=
  if s.strategy.Signals token ctx then s.tryEntry token ctx reply else s

def flattenOne (replies : Nat → SubmitReply) (s : MomentumSession) (token : Nat) :
    MomentumSession :=
  if (s.strategy.stateOf token).inPosition = true then
    s.exit token "eod-flatten".toList (replies token)
  else s

def eodFlattenAll (replies : Nat → SubmitReply) : MomentumSession :=
  s.strategy.states.keys.foldl (flattenOne replies) s

/-- `on_stop` and `on_kill_signal` do the same. -/
def onStop (replies : Nat → SubmitReply) : MomentumSession :=
  MomentumSession.eodFlattenAll { s with strategy := { s.strategy with alive := false } } replies

def step (s : MomentumSession) : MomentumEvent → MomentumSession
  | .start params =>
      { s with strategy := { s.strategy with alive := true }.updateParams params }
  | .tick t reply => s.onTick t reply
  | .candle token closes highs lows ctx reply =>
      (s.modify token fun st =>
        { st with closes := closes, highs := highs, lows := lows }).evaluateSignal token ctx reply
  | .fill order execution => s.execute order execution
  | .flatten replies => s.onStop replies
  | .updateParams params => { s with strategy := s.strategy.updateParams params }

end MomentumSession

end QuantForge
