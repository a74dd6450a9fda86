import Mathlib.Data.Nat.Pairing
import QuantForge.MarketData.CandleBuilder
import QuantForge.MarketData.TickNormalizer
import QuantForge.Strategy.LoadedStrategy
import QuantForge.Strategy.StrategyManager

/-! The components as `main/main.cpp` wires them: who calls whom when a tick passes the
normalizer, when an order is filled and when a candle is complete. The publishers to Kafka
and Redis hear of the same events and change nothing. -/
namespace QuantForge

open Library

/-- `ticks` lists what the normalizer fanned out, the latest first; no operation reads it. -/
structure TradingEngine (poolSize : Nat) extends StrategyManager poolSize where
  candleBuilder : CandleBuilder := {}
  strategies : List LoadedStrategy := []
  ticks : List NormalizedTick := []

/-- A step of a call of the `submit_order` that the context of a strategy holds. -/
inductive SubmitStep where
  | getSnapshot (call : Nat) (req : OrderRequest)
  | check (call : Nat) (clock : RiskClock)
  | submit (call : Nat) (tsMs placedNs fillNs : Nat)

/-- One turn of the normalizer's loop, a step of the strategy at a position of the list, a
call that reaches the order management system from elsewhere, one turn of the fill loop, or
the `flush_all` of the shutdown. -/
inductive TradingEvent where
  | tick (t : NormalizedTick)
  | strategy (i : Nat) (s : SubmitStep)
  | call (c : OmsCall)
  | fillLoop
  | flushAll (nowNs : Nat)

/-- Every strategy numbers its own calls of `submit_order`. -/
def SubmitStep.event (i : Nat) : SubmitStep → StrategyEvent
  | .getSnapshot call req => .getSnapshot (Nat.pair i call) req
  | .check call clock => .check (Nat.pair i call) clock
  | .submit call tsMs placedNs fillNs => .submit (Nat.pair i call) tsMs placedNs fillNs

namespace TradingEngine

variable {poolSize : Nat}

def init (poolSize : Nat) (paperMode : Bool) (strategies : List LoadedStrategy) (nowNs : Nat) :
    TradingEngine poolSize where
  oms := OrderManagementSystem.init poolSize paperMode
  portfolio := PortfolioEngine.init
  risk := PreTradeRiskEngine.configure {} (strategies.map LoadedStrategy.config) nowNs
  strategies := strategies

section Step

variable (e : TradingEngine poolSize)

def fillCallback (e : TradingEngine poolSize) (fill : Fill) : TradingEngine poolSize :=
  { e with risk := e.risk.updatePrice fill.instrumentToken fill.price }

def emittedSince (before : OrderManagementSystem poolSize) : List Fill :=
  (e.oms.emitted.take (e.oms.emitted.length - before.emitted.length)).reverse

def after (m : StrategyManager poolSize) : TradingEngine poolSize :=
  let next := { e with toStrategyManager := m }
  (next.emittedSince e.oms).foldl fillCallback next

def emitCandles (built : CandleBuilder × List Candle) : TradingEngine poolSize :=
  { e with
    candleBuilder := built.1
    strategies := built.2.foldl (fun strategies candle => dispatchCandle candle strategies)
      e.strategies }

def onTick (t : NormalizedTick) : TradingEngine poolSize :=
  if TickNormalizer.validate t then
    let candled := e.emitCandles (e.candleBuilder.onTick t)
    { candled with
      risk := candled.risk.updatePrice t.instrumentToken t.ltp
      ticks := t :: candled.ticks }
  else e

def fillLoop : TradingEngine poolSize :=
  { e with toEngine := e.toEngine.fillLoop }

def step (e : TradingEngine poolSize) : TradingEvent → TradingEngine poolSize
  | .tick t => e.onTick t
  | .strategy i s =>
      match e.strategies[i]? with
      | none => e
      | some loaded => e.after (StrategyManager.step loaded.config e.toStrategyManager (s.event i))
  | .call c => e.after { e.toStrategyManager with oms := e.oms.step c }
  | .fillLoop => e.fillLoop
  | .flushAll nowNs => e.emitCandles (e.candleBuilder.flushAll nowNs)

end Step

def omsCall (e : TradingEngine poolSize) : TradingEvent → Option OmsCall
  | .strategy i (.submit call tsMs placedNs fillNs) =>
      match e.strategies[i]?, e.calls.lookup (Nat.pair i call) with
      | some _, some (.passed req) => some (.submit req tsMs placedNs fillNs)
      | _, _ => none
  | .call c => some c
  | _ => none

def CreditsFill (e : TradingEngine poolSize) (event : TradingEvent) : Prop :=
  ∃ c ∈ e.omsCall event, e.oms.CreditsFill c

variable {e : TradingEngine poolSize}

private theorem foldl_fillCallback (fills : List Fill) (e : TradingEngine poolSize) :
    ∃ risk, fills.foldl fillCallback e = { e with risk := risk } := by
  induction fills generalizing e with
  | nil => exact ⟨e.risk, rfl⟩
  | cons fill fills ih => exact ih (e.fillCallback fill)

theorem after_eq (e : TradingEngine poolSize) (m : StrategyManager poolSize) :
    ∃ risk, e.after m = { e with toStrategyManager := { m with risk := risk } } :=
  foldl_fillCallback _ { e with toStrategyManager := m }

theorem after_of_emitted_eq {m : StrategyManager poolSize} (h : m.oms.emitted = e.oms.emitted) :
    e.after m = { e with toStrategyManager := m } := by
  have hnone : emittedSince { e with toStrategyManager := m } e.oms = [] := by
    rw [emittedSince, h, Nat.sub_self]
    rfl
  rw [after, hnone]
  rfl

theorem after_of_emitted_cons {m : StrategyManager poolSize} {fill : Fill}
    (h : m.oms.emitted = fill :: e.oms.emitted) :
    e.after m = { e with
      toStrategyManager :=
        { m with risk := m.risk.updatePrice fill.instrumentToken fill.price } } := by
  have hone : emittedSince { e with toStrategyManager := m } e.oms = [fill] := by
    rw [emittedSince, h, List.length_cons, Nat.add_sub_cancel_left]
    rfl
  rw [after, hone]
  rfl

/-- The event is a step of the strategies or a call, and `m` is what it leaves before the
callbacks of the fill. -/
structure Acts (e : TradingEngine poolSize) (event : TradingEvent) (m : StrategyManager poolSize) :
    Prop where
  step : e.step event = e.after m
  oms : m.oms = (e.omsCall event).elim e.oms e.oms.step
  portfolio : m.portfolio = e.portfolio
  prices : m.risk.priceCache = e.risk.priceCache

theorem emitted_fillLoop : e.fillLoop.oms.emitted = e.oms.emitted := by
  change e.toEngine.fillLoop.oms.emitted = _
  unfold Engine.fillLoop
  split <;> rfl

theorem acts_call (e : TradingEngine poolSize) (c : OmsCall) :
    ∃ m, e.Acts (.call c) m :=
  ⟨_, rfl, rfl, rfl, rfl⟩

private theorem acts_of_idle {event : TradingEvent} (hstep : e.step event = e)
    (hcall : e.omsCall event = none) : e.Acts event e.toStrategyManager where
  step := hstep.trans (after_of_emitted_eq rfl).symm
  oms := by rw [hcall]; rfl
  portfolio := rfl
  prices := rfl

private theorem effect_submitStep {i : Nat} {loaded : LoadedStrategy}
    (hloaded : e.strategies[i]? = some loaded) (s : SubmitStep) :
    let m := StrategyManager.step loaded.config e.toStrategyManager (s.event i)
    m.oms = (e.omsCall (.strategy i s)).elim e.oms e.oms.step ∧ m.portfolio = e.portfolio ∧
      m.risk.priceCache = e.risk.priceCache := by
  cases s with
  | getSnapshot call req =>
      simp only [SubmitStep.event, StrategyManager.step, StrategyManager.getSnapshot]
      split <;> exact ⟨rfl, rfl, rfl⟩
  | check call clock =>
      simp only [SubmitStep.event, StrategyManager.step, StrategyManager.check]
      split
      · split <;> exact ⟨rfl, rfl, PreTradeRiskEngine.priceCache_check⟩
      · exact ⟨rfl, rfl, rfl⟩
  | submit call tsMs placedNs fillNs =>
      simp only [SubmitStep.event, StrategyManager.step, StrategyManager.submit, omsCall, hloaded]
      split <;> simp_all [OrderManagementSystem.step]

theorem acts_strategy (e : TradingEngine poolSize) (i : Nat) (s : SubmitStep) :
    ∃ m, e.Acts (.strategy i s) m := by
  cases hloaded : e.strategies[i]? with
  | none =>
      refine ⟨_, acts_of_idle ?_ ?_⟩
      · simp only [step, hloaded]
      · cases s <;> simp only [omsCall, hloaded]
  | some loaded =>
      obtain ⟨homs, hportfolio, hprices⟩ := effect_submitStep hloaded s
      refine ⟨_, ?_, homs, hportfolio, hprices⟩
      simp only [step, hloaded]

theorem Acts.portfolio_step {event : TradingEvent} {m : StrategyManager poolSize}
    (h : e.Acts event m) : (e.step event).portfolio = e.portfolio := by
  obtain ⟨risk, hafter⟩ := e.after_eq m
  rw [h.step, hafter]
  exact h.portfolio

theorem Acts.ticks_step {event : TradingEvent} {m : StrategyManager poolSize}
    (h : e.Acts event m) : (e.step event).ticks = e.ticks := by
  obtain ⟨risk, hafter⟩ := e.after_eq m
  rw [h.step, hafter]

theorem Acts.strategies_step {event : TradingEvent} {m : StrategyManager poolSize}
    (h : e.Acts event m) : (e.step event).strategies = e.strategies := by
  obtain ⟨risk, hafter⟩ := e.after_eq m
  rw [h.step, hafter]

theorem Acts.step_of_not_credited {event : TradingEvent} {m : StrategyManager poolSize}
    (h : e.Acts event m) (hcredits : ¬e.CreditsFill event) :
    e.step event = { e with toStrategyManager := m } ∧ m.oms.emitted = e.oms.emitted := by
  have hemitted : m.oms.emitted = e.oms.emitted := by
    rw [h.oms]
    cases hcall : e.omsCall event with
    | none => rfl
    | some c =>
        apply OrderManagementSystem.emitted_step_of_not_credited
        exact fun hc => hcredits ⟨c, hcall, hc⟩
  exact ⟨h.step.trans (after_of_emitted_eq hemitted), hemitted⟩

theorem Acts.step_of_credited {event : TradingEvent} {m : StrategyManager poolSize}
    (h : e.Acts event m) {c : OmsCall} (hcall : e.omsCall event = some c)
    (hcredits : e.oms.CreditsFill c) :
    ∃ order fill, c.Fills order fill ∧ order.strategyId = e.oms.creditedStrategy c ∧
      m.oms.emitted = fill :: e.oms.emitted ∧ e.step event = { e with
        toStrategyManager := { m with
          risk := m.risk.updatePrice fill.instrumentToken fill.price } } := by
  obtain ⟨order, fill, hfills, hstrategy, -, hemitted⟩ :=
    OrderManagementSystem.emitted_step_of_credited e.oms hcredits
  have homs : m.oms = e.oms.step c := by
    rw [h.oms, hcall]
    rfl
  rw [← homs] at hemitted
  refine ⟨order, fill, hfills, hstrategy, hemitted, ?_⟩
  exact h.step.trans (after_of_emitted_cons hemitted)

theorem acts_of_omsCall {event : TradingEvent} {c : OmsCall} (h : e.omsCall event = some c) :
    ∃ m, e.Acts event m := by
  cases event with
  | strategy i s => exact acts_strategy e i s
  | call c => exact acts_call e c
  | tick t => simp [omsCall] at h
  | fillLoop => simp [omsCall] at h
  | flushAll nowNs => simp [omsCall] at h

theorem emitted_step_of_credited {event : TradingEvent} {c : OmsCall}
    (hcall : e.omsCall event = some c) (hcredits : e.oms.CreditsFill c) :
    ∃ order fill, c.Fills order fill ∧ order.strategyId = e.oms.creditedStrategy c ∧
      (e.step event).oms.emitted = fill :: e.oms.emitted := by
  obtain ⟨m, hacts⟩ := acts_of_omsCall hcall
  obtain ⟨order, fill, hfills, hstrategy, hemitted, hstep⟩ := hacts.step_of_credited hcall hcredits
  refine ⟨order, fill, hfills, hstrategy, ?_⟩
  rw [hstep]
  exact hemitted

theorem emitted_step_of_not_credited {event : TradingEvent} (h : ¬e.CreditsFill event) :
    (e.step event).oms.emitted = e.oms.emitted := by
  have hacts : ∀ {m}, e.Acts event m → (e.step event).oms.emitted = e.oms.emitted := by
    intro m hacts
    obtain ⟨hstep, hemitted⟩ := hacts.step_of_not_credited h
    rw [hstep]
    exact hemitted
  cases event with
  | tick t =>
      change (e.onTick t).oms.emitted = _
      unfold onTick
      split <;> rfl
  | strategy i s => exact hacts (acts_strategy e i s).choose_spec
  | call c => exact hacts (acts_call e c).choose_spec
  | fillLoop => exact emitted_fillLoop
  | flushAll nowNs => rfl

end TradingEngine

end QuantForge
