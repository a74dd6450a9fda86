import Mathlib.Algebra.Order.Ring.Cast
import QuantForge.Main.PriceCache

/-! The values that the capital and the daily-loss checks read from a snapshot. They are
computed from the price of each position, which nothing writes: main wires the ticks to the
cache of the risk gate and not to the portfolio. -/
namespace QuantForge

open Library

namespace TradingEngine

variable {poolSize : Nat}

def lastLtp (e : TradingEngine poolSize) (token : Nat) : Option ℚ :=
  (e.ticks.find? fun t => t.instrumentToken = token).map NormalizedTick.ltp

def marketPrice (e : TradingEngine poolSize) (pos : Position) : ℚ :=
  (e.lastLtp pos.instrumentToken).getD 0

def marketValue (e : TradingEngine poolSize) (pos : Position) : ℚ :=
  |pos.quantity| * e.marketPrice pos

def marketPnl (e : TradingEngine poolSize) (pos : Position) : ℚ :=
  pos.realizedPnl + pos.quantity * (e.marketPrice pos - pos.avgPrice)

def positions (e : TradingEngine poolSize) : List Position := e.portfolio.snapshot.positions.values

def AllTicked (e : TradingEngine poolSize) : Prop :=
  ∀ pos ∈ e.positions, (e.lastLtp pos.instrumentToken).isSome = true

instance (e : TradingEngine poolSize) : Decidable e.AllTicked :=
  inferInstanceAs (Decidable (∀ pos ∈ e.positions, _))

structure SeesMarketValues (e : TradingEngine poolSize) : Prop where
  usedCapital : ∀ sid, e.portfolio.snapshot.strategyUsedCapital sid =
    ((e.portfolio.snapshot.strategyPositions sid).map e.marketValue).sum
  dailyPnl : ∀ sid, e.portfolio.snapshot.strategyDailyPnl sid =
    ((e.portfolio.snapshot.strategyPositions sid).map e.marketPnl).sum

def Flat (e : TradingEngine poolSize) : Prop := ∀ pos ∈ e.positions, pos.quantity = 0

instance (e : TradingEngine poolSize) : Decidable e.Flat :=
  inferInstanceAs (Decidable (∀ pos ∈ e.positions, _))

/-- No position was ever marked, and only valid ticks were fanned out. -/
structure Unmarked (e : TradingEngine poolSize) : Prop where
  prices : ∀ pos ∈ e.positions, pos.currentPrice = 0 ∧ pos.unrealizedPnl = 0
  ticks : ∀ t ∈ e.ticks, 0 < t.ltp

variable {e : TradingEngine poolSize}

private theorem mem_strategyPositions {snap : PortfolioSnapshot} {sid : Str} {pos : Position}
    (h : pos ∈ snap.strategyPositions sid) : pos ∈ snap.positions.values :=
  List.mem_of_mem_filter h

private theorem mem_own_strategyPositions {snap : PortfolioSnapshot} {pos : Position}
    (h : pos ∈ snap.positions.values) : pos ∈ snap.strategyPositions pos.strategyId := by
  apply List.mem_filter.mpr
  exact ⟨h, by simp [strncmpEq]⟩

namespace Unmarked

theorem usedCapital (h : e.Unmarked) (sid : Str) :
    e.portfolio.snapshot.strategyUsedCapital sid = 0 := by
  apply List.sum_eq_zero
  intro value hvalue
  obtain ⟨pos, hpos, rfl⟩ := List.mem_map.mp hvalue
  rw [Position.value, (h.prices pos (mem_strategyPositions hpos)).1, mul_zero]

theorem marketPrice_pos (h : e.Unmarked) {pos : Position}
    (hticked : (e.lastLtp pos.instrumentToken).isSome = true) : 0 < e.marketPrice pos := by
  obtain ⟨ltp, hltp⟩ := Option.isSome_iff_exists.mp hticked
  rw [marketPrice, hltp, Option.getD_some]
  obtain ⟨t, hfind, rfl⟩ := Option.map_eq_some_iff.mp hltp
  exact h.ticks t (List.mem_of_find?_eq_some hfind)

theorem flat_of_usedCapital (h : e.Unmarked) (hticked : e.AllTicked)
    (hused : ∀ sid, e.portfolio.snapshot.strategyUsedCapital sid =
      ((e.portfolio.snapshot.strategyPositions sid).map e.marketValue).sum) : e.Flat := by
  intro pos hpos
  have hsum := (hused pos.strategyId).symm.trans (h.usedCapital pos.strategyId)
  have hnonneg : ∀ value ∈ (e.portfolio.snapshot.strategyPositions pos.strategyId).map
      e.marketValue, 0 ≤ value := by
    intro value hvalue
    obtain ⟨p, hp, rfl⟩ := List.mem_map.mp hvalue
    have hprice := h.marketPrice_pos (hticked p (mem_strategyPositions hp))
    exact mul_nonneg (Int.cast_nonneg (abs_nonneg _)) hprice.le
  have hzero : e.marketValue pos = 0 :=
    List.all_zero_of_le_zero_le_of_sum_eq_zero hnonneg hsum
      (List.mem_map_of_mem (mem_own_strategyPositions hpos))
  have hprice := (h.marketPrice_pos (hticked pos hpos)).ne'
  simpa [marketValue, hprice] using hzero

theorem seesMarketValues_iff_flat (h : e.Unmarked) (hticked : e.AllTicked) :
    e.SeesMarketValues ↔ e.Flat := by
  constructor
  · exact fun hsees => h.flat_of_usedCapital hticked hsees.usedCapital
  · intro hflat
    constructor
    · intro sid
      rw [h.usedCapital]
      symm
      apply List.sum_eq_zero
      intro value hvalue
      obtain ⟨pos, hpos, rfl⟩ := List.mem_map.mp hvalue
      rw [marketValue, hflat pos (mem_strategyPositions hpos)]
      simp
    · intro sid
      unfold PortfolioSnapshot.strategyDailyPnl
      congr 1
      apply List.map_congr_left
      intro pos hpos
      rw [marketPnl, (h.prices pos (mem_strategyPositions hpos)).2,
        hflat pos (mem_strategyPositions hpos)]
      simp

end Unmarked

private theorem unmarked_onTick (h : e.Unmarked) (t : NormalizedTick) :
    (e.onTick t).Unmarked := by
  unfold onTick
  split
  · rename_i hvalid
    refine ⟨h.prices, List.forall_mem_cons.mpr ⟨?_, h.ticks⟩⟩
    exact TickNormalizer.ltp_pos_of_validate hvalid
  · exact h

private theorem unmarked_fillLoop (h : e.Unmarked) : e.fillLoop.Unmarked := by
  refine ⟨?_, h.ticks⟩
  change ∀ pos ∈ e.toEngine.fillLoop.portfolio.snapshot.positions.values, _
  cases hcontents : e.oms.fillQueue.contents with
  | nil =>
      rw [Engine.fillLoop_of_nil hcontents]
      exact h.prices
  | cons fill rest =>
      obtain ⟨fillQueue, -, hloop⟩ := Engine.fillLoop_of_cons hcontents
      rw [hloop]
      intro pos hpos
      obtain ⟨token, hlookup⟩ := Dict.mem_values.mp hpos
      rw [PortfolioEngine.processFill_positions, Dict.lookup_insert_eq_some] at hlookup
      obtain ⟨-, rfl⟩ | ⟨-, hold⟩ := hlookup
      · obtain ⟨hprice, hpnl⟩ := Position.applyFill_marks (e.portfolio.target fill) fill
        obtain ⟨hprice', hpnl'⟩ := Position.stamp_marks
          (e.portfolio.getPosition fill.instrumentToken) fill
        rw [hprice, hpnl, PortfolioEngine.target, hprice', hpnl', PortfolioEngine.getPosition,
          PortfolioSnapshot.getPosition]
        cases hfound : e.portfolio.snapshot.positions.lookup fill.instrumentToken with
        | none => exact ⟨rfl, rfl⟩
        | some old => exact h.prices old (Dict.mem_values.mpr ⟨_, hfound⟩)
      · exact h.prices pos (Dict.mem_values.mpr ⟨token, hold⟩)

private theorem unmarked_acts (h : e.Unmarked) {event : TradingEvent}
    {m : StrategyManager poolSize} (hacts : e.Acts event m) : (e.step event).Unmarked := by
  constructor
  · rw [positions, hacts.portfolio_step]
    exact h.prices
  · rw [hacts.ticks_step]
    exact h.ticks

theorem unmarked_step (e : TradingEngine poolSize) (event : TradingEvent) (h : e.Unmarked) :
    (e.step event).Unmarked := by
  cases event with
  | tick t => exact unmarked_onTick h t
  | strategy i s =>
      obtain ⟨m, hacts⟩ := acts_strategy e i s
      exact unmarked_acts h hacts
  | call c =>
      obtain ⟨m, hacts⟩ := acts_call e c
      exact unmarked_acts h hacts
  | fillLoop => exact unmarked_fillLoop h
  | flushAll nowNs => exact ⟨h.prices, h.ticks⟩

theorem unmarked_init (paperMode : Bool) (strategies : List LoadedStrategy) (nowNs : Nat) :
    (init poolSize paperMode strategies nowNs).Unmarked :=
  ⟨List.forall_mem_nil _, List.forall_mem_nil _⟩

/-- In every reachable state the checks see market values exactly when every position is
flat. -/
theorem market_values_seen_iff_flat (paperMode : Bool) (strategies : List LoadedStrategy)
    (nowNs : Nat) (events : List TradingEvent)
    (hticked : (Run.run step (init poolSize paperMode strategies nowNs) events).AllTicked) :
    (Run.run step (init poolSize paperMode strategies nowNs) events).SeesMarketValues ↔
      (Run.run step (init poolSize paperMode strategies nowNs) events).Flat :=
  (Run.run_invariant Unmarked unmarked_step (unmarked_init paperMode strategies nowNs)
    events).seesMarketValues_iff_flat hticked

section OpenPosition

def buyAndTick : List TradingEvent :=
  buyOne .limit 101 ++ [.fillLoop, .tick { instrumentToken := 1, ltp := 110 }]

def roundTrip : List TradingEvent :=
  buyOne .limit 101 ++ .fillLoop :: place 1 { oneShare .limit 102 with side := .sell } ++
    [.fillLoop]

theorem market_values_seen_round_trip :
    (Run.run step (init 1 true [trader] 0) roundTrip).SeesMarketValues := by
  refine (market_values_seen_iff_flat true [trader] 0 roundTrip ?_).mpr ?_
  · decide +kernel
  · decide +kernel

/-- The share at a market price of 110 counts as no used capital and no profit. -/
theorem open_position_counts_as_zero :
    let e := Run.run step (init 1 true [trader] 0) buyAndTick
    e.AllTicked ∧ e.lastLtp 1 = some 110 ∧
      (e.portfolio.getPosition 1).quantity = 1 ∧ (e.portfolio.getPosition 1).avgPrice = 101 ∧
      e.portfolio.snapshot.strategyUsedCapital ['S'] = 0 ∧
      e.portfolio.snapshot.strategyDailyPnl ['S'] = 0 ∧ ¬e.SeesMarketValues := by
  have hused : (Run.run step (init 1 true [trader] 0)
      buyAndTick).portfolio.snapshot.strategyUsedCapital ['S'] = 0 := by decide +kernel
  refine ⟨by decide +kernel, by decide +kernel, by decide +kernel, by decide +kernel, hused,
    by decide +kernel, fun h => ?_⟩
  have hsum := hused.symm.trans (h.usedCapital ['S'])
  revert hsum
  decide +kernel

end OpenPosition

end TradingEngine

end QuantForge
