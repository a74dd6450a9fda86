import Mathlib.Tactic.Linarith
import QuantForge.Risk.PreTradeRisk

/-! What `PreTradeRiskEngine::check` promises about an order: for one that reduces a position,
when it is refused, and for one that passes, what is true of it when the `int` arithmetic of the
checks is taken at its 32 bits. -/
namespace QuantForge

namespace PreTradeRiskEngine

def refusal (risk : PreTradeRiskEngine) (req : OrderRequest) (clock : RiskClock) :
    Option RiskDecision :=
  if risk.globalKillSwitch then some .rejectKillSwitch
  else if risk.isStrategyHalted req.strategyId then some .rejectKillSwitch
  else if !MarketHours.isOpen clock.utc then some .rejectMarketClosed
  else if (risk.consumeRate req.strategyId clock.nowNs).1 = false then some .rejectRateLimit
  else none

section Reducing

variable {risk : PreTradeRiskEngine} {req : OrderRequest} {scfg : StrategyConfig}
  {portfolio : PortfolioSnapshot} {clock : RiskClock}

theorem check_fst (risk : PreTradeRiskEngine) (req : OrderRequest) (scfg : StrategyConfig)
    (portfolio : PortfolioSnapshot) (clock : RiskClock) :
    (risk.check req scfg portfolio clock).1 = (risk.refusal req clock).getD
      (checkValues (risk.currentPrice req.instrumentToken) req scfg portfolio) := by
  have hcache := priceCache_consumeRate risk req.strategyId clock.nowNs
  unfold check refusal
  split
  · rfl
  split
  · rfl
  split
  · rfl
  generalize risk.consumeRate req.strategyId clock.nowNs = consumed at hcache ⊢
  obtain ⟨allowed, after⟩ := consumed
  cases allowed with
  | false => rfl
  | true =>
      dsimp only at hcache ⊢
      rw [currentPrice, hcache]
      rfl

theorem refusal_ne {decision : RiskDecision} (h : risk.refusal req clock = some decision) :
    decision = .rejectKillSwitch ∨ decision = .rejectMarketClosed ∨
      decision = .rejectRateLimit := by
  unfold refusal at h
  grind

/-- The order is on the other side than the position, and no larger. -/
structure Reduces (portfolio : PortfolioSnapshot) (req : OrderRequest) : Prop where
  side : req.side = if 0 < (portfolio.getPosition req.instrumentToken).quantity then .sell else .buy
  positive : 0 < req.quantity
  size : req.quantity ≤ |(portfolio.getPosition req.instrumentToken).quantity|

theorem Reduces.resulting (h : Reduces portfolio req) :
    |(portfolio.getPosition req.instrumentToken).quantity + req.side.signed req.quantity| =
      |(portfolio.getPosition req.instrumentToken).quantity| - req.quantity := by
  obtain ⟨hside, hpositive, hsize⟩ := h
  rw [hside]
  split <;> simp only [Side.signed] <;> grind

/-- The order, or what it leaves of the position, is worth more than its limit. -/
def SizeRefused (ltp : ℚ) (req : OrderRequest) (scfg : StrategyConfig)
    (portfolio : PortfolioSnapshot) : Prop :=
  0 < ltp ∧ (scfg.risk.maxSingleOrderValue < req.quantity * ltp ∨
    scfg.risk.maxPositionValue <
      (|(portfolio.getPosition req.instrumentToken).quantity| - req.quantity : Int) * ltp)

/-- The order is charged to the capital as if it opened a position. -/
def CapitalRefused (ltp : ℚ) (req : OrderRequest) (scfg : StrategyConfig)
    (portfolio : PortfolioSnapshot) : Prop :=
  0 < ltp ∧ scfg.risk.maxCapitalAllocation <
    portfolio.strategyUsedCapital req.strategyId + req.quantity * ltp

def PriceRefused (ltp : ℚ) (req : OrderRequest) : Prop :=
  req.orderType = .limit ∧ 0 < ltp ∧ 0 < req.limitPrice ∧ 5 / 100 < |req.limitPrice - ltp| / ltp

instance (ltp : ℚ) : Decidable (SizeRefused ltp req scfg portfolio) :=
  inferInstanceAs (Decidable (_ ∧ (_ ∨ _)))

instance (ltp : ℚ) : Decidable (CapitalRefused ltp req scfg portfolio) :=
  inferInstanceAs (Decidable (_ ∧ _))

instance (ltp : ℚ) : Decidable (PriceRefused ltp req) :=
  inferInstanceAs (Decidable (_ ∧ _ ∧ _ ∧ _))

theorem checkValues_reducing (h : Reduces portfolio req) (ltp : ℚ) :
    checkValues ltp req scfg portfolio =
      if SizeRefused ltp req scfg portfolio then .rejectPositionLimit
      else if CapitalRefused ltp req scfg portfolio then .rejectCapital
      else if PriceRefused ltp req then .rejectPriceSanity
      else if portfolio.strategyDailyPnl req.strategyId < -scfg.risk.maxDailyLoss then
        .rejectDailyLoss
      else .pass := by
  rw [checkValues, h.resulting]
  by_cases hprice : 0 < ltp
  · by_cases hvalue : scfg.risk.maxSingleOrderValue < req.quantity * ltp
    · simp [SizeRefused, hprice, hvalue]
    · simp only [SizeRefused, CapitalRefused, PriceRefused, hprice, hvalue, gt_iff_lt, true_and,
        if_false, false_or]
  · simp only [SizeRefused, CapitalRefused, PriceRefused, hprice, gt_iff_lt, false_and, and_false,
      if_false]

/-- When an order that reduces a position is refused because of sizes or of a loss. -/
theorem check_reducing_iff (h : Reduces portfolio req) :
    let ltp := risk.currentPrice req.instrumentToken
    let decision := (risk.check req scfg portfolio clock).1
    (decision = .rejectPositionLimit ↔
      risk.refusal req clock = none ∧ SizeRefused ltp req scfg portfolio) ∧
    (decision = .rejectCapital ↔
      risk.refusal req clock = none ∧ ¬SizeRefused ltp req scfg portfolio ∧
        CapitalRefused ltp req scfg portfolio) ∧
    (decision = .rejectDailyLoss ↔
      risk.refusal req clock = none ∧ ¬SizeRefused ltp req scfg portfolio ∧
        ¬CapitalRefused ltp req scfg portfolio ∧ ¬PriceRefused ltp req ∧
        portfolio.strategyDailyPnl req.strategyId < -scfg.risk.maxDailyLoss) := by
  intro ltp decision
  have hdecision : decision = (risk.refusal req clock).getD
      (checkValues ltp req scfg portfolio) := check_fst risk req scfg portfolio clock
  rw [hdecision]
  cases hrefusal : risk.refusal req clock with
  | some early =>
      obtain rfl | rfl | rfl := refusal_ne hrefusal <;> simp
  | none =>
      rw [Option.getD_none, checkValues_reducing h]
      by_cases hsize : SizeRefused ltp req scfg portfolio
      · simp [hsize]
      by_cases hcapital : CapitalRefused ltp req scfg portfolio
      · simp [hsize, hcapital]
      by_cases hinsane : PriceRefused ltp req
      · simp [hsize, hcapital, hinsane]
      by_cases hloss : portfolio.strategyDailyPnl req.strategyId < -scfg.risk.maxDailyLoss
      · simp [hsize, hcapital, hinsane, hloss]
      · simp [hsize, hcapital, hinsane, hloss]

end Reducing

section LongPosition

def longSnapshot (quantity : Int) (pnl : ℚ) : PortfolioSnapshot where
  positions := (∅ : Library.Dict Nat Position).insert 1
    { instrumentToken := 1, strategyId := ['M'], quantity := quantity, currentPrice := 200,
      unrealizedPnl := pnl }

def sellOf (quantity : Int) : OrderRequest :=
  { instrumentToken := 1, side := .sell, quantity := quantity, strategyId := ['M'] }

def checkSell (quantity held : Int) (pnl : ℚ) : RiskDecision :=
  (({} : PreTradeRiskEngine).updatePrice 1 200 |>.check (sellOf quantity) { id := ['M'] }
    (longSnapshot held pnl) ⟨⟨5, 0, 1⟩, 0⟩).1

/-- A part of a long position cannot be sold: it is worth more than one order may be, or what is
used and the sale together exceed the capital, or the position has lost too much. -/
theorem sales_of_long_refused :
    (Reduces (longSnapshot 100 0) (sellOf 60) ∧ checkSell 60 100 0 = .rejectPositionLimit) ∧
      (Reduces (longSnapshot 240 0) (sellOf 40) ∧ checkSell 40 240 0 = .rejectCapital) ∧
      Reduces (longSnapshot 100 (-6000)) (sellOf 40) ∧
        checkSell 40 100 (-6000) = .rejectDailyLoss := by
  refine ⟨⟨⟨?_, ?_, ?_⟩, ?_⟩, ⟨⟨?_, ?_, ?_⟩, ?_⟩, ⟨?_, ?_, ?_⟩, ?_⟩ <;> decide +kernel

theorem check_reducing_iff_sale :
    checkSell 40 240 0 = .rejectCapital ↔
      (({} : PreTradeRiskEngine).updatePrice 1 200).refusal (sellOf 40) ⟨⟨5, 0, 1⟩, 0⟩ = none ∧
        ¬SizeRefused 200 (sellOf 40) { id := ['M'] } (longSnapshot 240 0) ∧
        CapitalRefused 200 (sellOf 40) { id := ['M'] } (longSnapshot 240 0) := by
  have hreduces : Reduces (longSnapshot 240 0) (sellOf 40) := by
    constructor <;> decide +kernel
  exact (check_reducing_iff hreduces).2.1

end LongPosition

end PreTradeRiskEngine

end QuantForge
