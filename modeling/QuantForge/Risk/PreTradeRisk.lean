import Mathlib.Algebra.Order.Group.Unbundled.Abs
import Mathlib.Data.Finset.Basic
import QuantForge.Common.Types

/-! `risk/pre_trade_risk.hpp`, `risk/pre_trade_risk.cpp` and `risk/token_bucket.hpp`. The
clocks that `check` reads are arguments. -/
namespace QuantForge

open Library

structure TokenBucketLimiter where
  maxRate : Int
  burst : Int
  tokens : ℚ
  lastRefillNs : Nat

namespace TokenBucketLimiter

/-- The constructor; a negative `burst` stands for twice the rate. -/
def init (maxRate burst : Int) (nowNs : Nat) : TokenBucketLimiter where
  maxRate := maxRate
  burst := if burst < 0 then maxRate * 2 else burst
  tokens := if burst < 0 then maxRate * 2 else burst
  lastRefillNs := nowNs

def tryConsume (limiter : TokenBucketLimiter) (nowNs : Nat) : Bool × TokenBucketLimiter :=
  let elapsed : ℚ := ((nowNs : ℚ) - limiter.lastRefillNs) / 1000000000
  let newTokens := min (limiter.tokens + elapsed * limiter.maxRate) limiter.burst
  if newTokens ≥ 1 then
    (true, { limiter with tokens := newTokens - 1, lastRefillNs := nowNs })
  else (false, { limiter with tokens := newTokens, lastRefillNs := nowNs })

end TokenBucketLimiter

structure UtcTime where
  hour : Nat
  min : Nat
  wday : Nat

namespace MarketHours

def isOpen (utc : UtcTime) : Bool :=
  let h := (utc.hour + 5) % 24
  let m := (utc.min + 30) % 60
  let (h, m) := if m ≥ 60 then ((h + 1) % 24, m - 60) else (h, m)
  let hhmm := h * 100 + m
  if utc.wday = 0 ∨ utc.wday = 6 then false
  else decide (hhmm ≥ 915 ∧ hhmm < 1530)

end MarketHours

structure RiskClock where
  utc : UtcTime
  nowNs : Nat

structure PreTradeRiskEngine where
  globalKillSwitch : Bool := false
  haltedStrategies : Finset Str := ∅
  rateLimiters : Dict Str TokenBucketLimiter := ∅
  priceCache : Dict Nat ℚ := ∅

namespace PreTradeRiskEngine

def isStrategyHalted (risk : PreTradeRiskEngine) (id : Str) : Bool :=
  decide (id ∈ risk.haltedStrategies)

/-- `0.0` for an instrument without a tick. -/
def currentPrice (risk : PreTradeRiskEngine) (token : Nat) : ℚ :=
  (risk.priceCache.lookup token).getD 0

def updatePrice (risk : PreTradeRiskEngine) (token : Nat) (price : ℚ) : PreTradeRiskEngine :=
  { risk with priceCache := risk.priceCache.insert token price }

def engageGlobalKillSwitch (risk : PreTradeRiskEngine) : PreTradeRiskEngine :=
  { risk with globalKillSwitch := true }

def disengageGlobalKillSwitch (risk : PreTradeRiskEngine) : PreTradeRiskEngine :=
  { risk with globalKillSwitch := false }

/-- A limiter is only created for a strategy that has none. -/
def configure (risk : PreTradeRiskEngine) (strategies : List StrategyConfig) (nowNs : Nat) :
    PreTradeRiskEngine :=
  strategies.foldl (fun risk scfg =>
    if (risk.rateLimiters.lookup scfg.id).isSome then risk
    else { risk with
      rateLimiters := risk.rateLimiters.insert scfg.id
        (TokenBucketLimiter.init scfg.risk.maxOrdersPerSecond (-1) nowNs) }) risk

/-- The rate limit: `true` when there is no limiter or it has a token. -/
def consumeRate (risk : PreTradeRiskEngine) (sid : Str) (nowNs : Nat) :
    Bool × PreTradeRiskEngine :=
  match risk.rateLimiters.lookup sid with
  | none => (true, risk)
  | some limiter =>
      ((limiter.tryConsume nowNs).1,
        { risk with rateLimiters := risk.rateLimiters.insert sid (limiter.tryConsume nowNs).2 })

/-- The checks after the rate limit; those that need a price are skipped without one. -/
def checkValues (ltp : ℚ) (req : OrderRequest) (scfg : StrategyConfig)
    (portfolio : PortfolioSnapshot) : RiskDecision :=
  if ltp > 0 ∧ req.quantity * ltp > scfg.risk.maxSingleOrderValue then .rejectPositionLimit
  else if ltp > 0 ∧
      |(portfolio.getPosition req.instrumentToken).quantity + req.side.signed req.quantity| * ltp
        > scfg.risk.maxPositionValue then .rejectPositionLimit
  else if ltp > 0 ∧
      portfolio.strategyUsedCapital req.strategyId + req.quantity * ltp
        > scfg.risk.maxCapitalAllocation then .rejectCapital
  else if req.orderType = .limit ∧ ltp > 0 ∧ req.limitPrice > 0 ∧
      |req.limitPrice - ltp| / ltp > 5 / 100 then .rejectPriceSanity
  else if portfolio.strategyDailyPnl req.strategyId < -scfg.risk.maxDailyLoss then
    .rejectDailyLoss
  else .pass

def check (risk : PreTradeRiskEngine) (req : OrderRequest) (scfg : StrategyConfig)
    (portfolio : PortfolioSnapshot) (clock : RiskClock) : RiskDecision × PreTradeRiskEngine :=
  if risk.globalKillSwitch then (.rejectKillSwitch, risk)
  else if risk.isStrategyHalted req.strategyId then (.rejectKillSwitch, risk)
  else if !MarketHours.isOpen clock.utc then (.rejectMarketClosed, risk)
  else
    match risk.consumeRate req.strategyId clock.nowNs with
    | (false, risk) => (.rejectRateLimit, risk)
    | (true, risk) =>
        (checkValues (risk.currentPrice req.instrumentToken) req scfg portfolio, risk)

section Check

variable {risk : PreTradeRiskEngine} {req : OrderRequest} {scfg : StrategyConfig}
  {portfolio : PortfolioSnapshot} {clock : RiskClock}

theorem priceCache_consumeRate (risk : PreTradeRiskEngine) (sid : Str) (nowNs : Nat) :
    (risk.consumeRate sid nowNs).2.priceCache = risk.priceCache := by
  unfold consumeRate
  split <;> rfl

/-- What `check` can do: refuse an order before the rate limit, at it, or after it. -/
theorem check_cases (risk : PreTradeRiskEngine) (req : OrderRequest) (scfg : StrategyConfig)
    (portfolio : PortfolioSnapshot) (clock : RiskClock) :
    (∃ decision, decision ≠ .pass ∧ risk.check req scfg portfolio clock = (decision, risk)) ∨
    ((risk.consumeRate req.strategyId clock.nowNs).1 = false ∧
      risk.check req scfg portfolio clock =
        (.rejectRateLimit, (risk.consumeRate req.strategyId clock.nowNs).2)) ∨
    ((risk.consumeRate req.strategyId clock.nowNs).1 = true ∧
      risk.check req scfg portfolio clock =
        (checkValues (risk.currentPrice req.instrumentToken) req scfg portfolio,
          (risk.consumeRate req.strategyId clock.nowNs).2)) := by
  have hcache := priceCache_consumeRate risk req.strategyId clock.nowNs
  unfold check
  by_cases hkill : risk.globalKillSwitch = true
  · rw [if_pos hkill]
    exact .inl ⟨_, by decide, rfl⟩
  rw [if_neg hkill]
  by_cases hhalted : risk.isStrategyHalted req.strategyId = true
  · rw [if_pos hhalted]
    exact .inl ⟨_, by decide, rfl⟩
  rw [if_neg hhalted]
  by_cases hclosed : (!MarketHours.isOpen clock.utc) = true
  · rw [if_pos hclosed]
    exact .inl ⟨_, by decide, rfl⟩
  rw [if_neg hclosed]
  right
  generalize hrate : risk.consumeRate req.strategyId clock.nowNs = consumed at hcache ⊢
  obtain ⟨allowed, after⟩ := consumed
  cases allowed with
  | false => exact .inl ⟨rfl, rfl⟩
  | true =>
      refine .inr ⟨rfl, ?_⟩
      dsimp only at hcache ⊢
      rw [currentPrice, hcache]
      rfl

theorem priceCache_check :
    (risk.check req scfg portfolio clock).2.priceCache = risk.priceCache := by
  have hcache := priceCache_consumeRate risk req.strategyId clock.nowNs
  obtain ⟨_, -, heq⟩ | ⟨-, heq⟩ | ⟨-, heq⟩ :=
    check_cases risk req scfg portfolio clock
  · rw [heq]
  · rwa [heq]
  · rwa [heq]

theorem globalKillSwitch_consumeRate (risk : PreTradeRiskEngine) (sid : Str) (nowNs : Nat) :
    (risk.consumeRate sid nowNs).2.globalKillSwitch = risk.globalKillSwitch := by
  unfold consumeRate
  split <;> rfl

theorem globalKillSwitch_check :
    (risk.check req scfg portfolio clock).2.globalKillSwitch = risk.globalKillSwitch := by
  have hswitch := globalKillSwitch_consumeRate risk req.strategyId clock.nowNs
  obtain ⟨_, -, heq⟩ | ⟨-, heq⟩ | ⟨-, heq⟩ :=
    check_cases risk req scfg portfolio clock
  · rw [heq]
  · rwa [heq]
  · rwa [heq]

theorem globalKillSwitch_of_pass (hpass : (risk.check req scfg portfolio clock).1 = .pass) :
    risk.globalKillSwitch = false := by
  by_contra hengaged
  rw [check, if_pos (by simpa using hengaged)] at hpass
  simp at hpass

theorem currentPrice_updatePrice {token token' : Nat} {price price' : ℚ}
    (hcached : risk.currentPrice token = price) (hsame : token' = token → price' = price) :
    (risk.updatePrice token' price').currentPrice token = price := by
  rw [currentPrice, updatePrice]
  by_cases heq : token = token'
  · rw [← heq, AList.lookup_insert]
    exact hsame heq.symm
  · rw [AList.lookup_insert_ne heq]
    exact hcached

theorem checkValues_of_pass (hpass : (risk.check req scfg portfolio clock).1 = .pass) :
    checkValues (risk.currentPrice req.instrumentToken) req scfg portfolio = .pass := by
  obtain ⟨_, hne, heq⟩ | ⟨-, heq⟩ | ⟨-, heq⟩ :=
    check_cases risk req scfg portfolio clock
  · rw [heq] at hpass
    exact absurd hpass hne
  · rw [heq] at hpass
    exact absurd hpass (by simp)
  · rwa [heq] at hpass

/-- What the four checks that need a price demand. -/
structure WithinLimits (ltp : ℚ) (req : OrderRequest) (scfg : StrategyConfig)
    (portfolio : PortfolioSnapshot) : Prop where
  orderValue : req.quantity * ltp ≤ scfg.risk.maxSingleOrderValue
  position : |(portfolio.getPosition req.instrumentToken).quantity +
    req.side.signed req.quantity| * ltp ≤ scfg.risk.maxPositionValue
  capital : portfolio.strategyUsedCapital req.strategyId + req.quantity * ltp ≤
    scfg.risk.maxCapitalAllocation
  priceSanity : req.orderType = .limit → 0 < req.limitPrice →
    |req.limitPrice - ltp| / ltp ≤ 5 / 100

/-- With a price none of the four checks is skipped. -/
theorem withinLimits_of_pass (hpass : (risk.check req scfg portfolio clock).1 = .pass)
    (hprice : 0 < risk.currentPrice req.instrumentToken) :
    WithinLimits (risk.currentPrice req.instrumentToken) req scfg portfolio := by
  have hvalues := checkValues_of_pass hpass
  unfold checkValues at hvalues
  by_cases hvalue : req.quantity * risk.currentPrice req.instrumentToken >
      scfg.risk.maxSingleOrderValue
  · rw [if_pos ⟨hprice, hvalue⟩] at hvalues
    simp at hvalues
  rw [if_neg (fun h => hvalue h.2)] at hvalues
  by_cases hposition : |(portfolio.getPosition req.instrumentToken).quantity +
      req.side.signed req.quantity| * risk.currentPrice req.instrumentToken >
      scfg.risk.maxPositionValue
  · rw [if_pos ⟨hprice, hposition⟩] at hvalues
    simp at hvalues
  rw [if_neg (fun h => hposition h.2)] at hvalues
  by_cases hcapital : portfolio.strategyUsedCapital req.strategyId +
      req.quantity * risk.currentPrice req.instrumentToken > scfg.risk.maxCapitalAllocation
  · rw [if_pos ⟨hprice, hcapital⟩] at hvalues
    simp at hvalues
  rw [if_neg (fun h => hcapital h.2)] at hvalues
  refine ⟨not_lt.mp hvalue, not_lt.mp hposition, not_lt.mp hcapital, fun htype hlimit => ?_⟩
  by_contra hsanity
  rw [if_pos ⟨htype, hprice, hlimit, not_le.mp hsanity⟩] at hvalues
  simp at hvalues

end Check

end PreTradeRiskEngine

end QuantForge
