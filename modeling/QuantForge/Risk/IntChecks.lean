import Mathlib.Tactic.FieldSimp
import QuantForge.Common.Int32
import QuantForge.Risk.Gate

/-! The checks of `PreTradeRiskEngine::check` with the `int` arithmetic at its 32 bits: what
passes is sound in exact arithmetic only for a positive quantity, a positive limit price and
values in range. -/
namespace QuantForge

namespace PreTradeRiskEngine

section Definitions

variable (ltp : ℚ) (req : OrderRequest) (scfg : StrategyConfig) (portfolio : PortfolioSnapshot)

/-- `delta`; for a buy it is the quantity itself. -/
def delta32 : Int := wrap32 (req.side.signed req.quantity)

def newQty32 : Int :=
  wrap32 ((portfolio.getPosition req.instrumentToken).quantity + delta32 req)

def positionResults : List Int :=
  [req.side.signed req.quantity,
    (portfolio.getPosition req.instrumentToken).quantity + delta32 req,
    |newQty32 req portfolio|]

def value32 (pos : Position) : ℚ := wrap32 |pos.quantity| * pos.currentPrice

def usedCapital32 (sid : Str) : ℚ := ((portfolio.strategyPositions sid).map value32).sum

def capitalResults (sid : Str) : List Int :=
  (portfolio.strategyPositions sid).map fun pos => |pos.quantity|

/-- `checkValues` at 32 bits, and the exact results of the operations that were performed. -/
def checkValues32 : RiskDecision × List Int :=
  let position := positionResults req portfolio
  let all := position ++ capitalResults portfolio req.strategyId
  if ltp > 0 ∧ req.quantity * ltp > scfg.risk.maxSingleOrderValue then (.rejectPositionLimit, [])
  else if ltp > 0 ∧ wrap32 |newQty32 req portfolio| * ltp > scfg.risk.maxPositionValue then
    (.rejectPositionLimit, position)
  else if ltp > 0 ∧
      usedCapital32 portfolio req.strategyId + req.quantity * ltp
        > scfg.risk.maxCapitalAllocation then (.rejectCapital, all)
  else
    let performed := if ltp > 0 then all else []
    if req.orderType = .limit ∧ ltp > 0 ∧ req.limitPrice > 0 ∧
        |req.limitPrice - ltp| / ltp > 5 / 100 then (.rejectPriceSanity, performed)
    else if portfolio.strategyDailyPnl req.strategyId < -scfg.risk.maxDailyLoss then
      (.rejectDailyLoss, performed)
    else (.pass, performed)

end Definitions

def check32 (risk : PreTradeRiskEngine) (req : OrderRequest) (scfg : StrategyConfig)
    (portfolio : PortfolioSnapshot) (clock : RiskClock) : RiskDecision × List Int :=
  match risk.refusal req clock with
  | some decision => (decision, [])
  | none => checkValues32 (risk.currentPrice req.instrumentToken) req scfg portfolio

/-- The quantities are those of 32-bit fields. -/
structure Int32Values (req : OrderRequest) (portfolio : PortfolioSnapshot) : Prop where
  quantity : Fits32 req.quantity
  positions : ∀ pos ∈ portfolio.positions.values, Fits32 pos.quantity

structure NonnegLimits (limits : RiskLimits) : Prop where
  singleOrder : 0 ≤ limits.maxSingleOrderValue
  position : 0 ≤ limits.maxPositionValue
  capital : 0 ≤ limits.maxCapitalAllocation
  dailyLoss : 0 ≤ limits.maxDailyLoss
  ordersPerSecond : 0 ≤ limits.maxOrdersPerSecond

/-- What a passing order is to satisfy in exact arithmetic. -/
structure Sound (ltp : ℚ) (req : OrderRequest) (scfg : StrategyConfig)
    (portfolio : PortfolioSnapshot) (performed : List Int) : Prop where
  quantity : 1 ≤ req.quantity
  orderValue : req.quantity * ltp ≤ scfg.risk.maxSingleOrderValue
  position : |(portfolio.getPosition req.instrumentToken).quantity +
    req.side.signed req.quantity| * ltp ≤ scfg.risk.maxPositionValue
  capital : portfolio.strategyUsedCapital req.strategyId + req.quantity * ltp ≤
    scfg.risk.maxCapitalAllocation
  price : req.orderType = .limit → |req.limitPrice - ltp| ≤ 5 / 100 * ltp
  noOverflow : ∀ n ∈ performed, Fits32 n

structure InRange (req : OrderRequest) (portfolio : PortfolioSnapshot) : Prop where
  quantity : 1 ≤ req.quantity
  resulting : |(portfolio.getPosition req.instrumentToken).quantity +
    req.side.signed req.quantity| < 2 ^ 31
  held : ∀ pos ∈ portfolio.strategyPositions req.strategyId, pos.quantity ≠ -2 ^ 31
  limitPrice : req.orderType = .limit → 0 < req.limitPrice

section Sound

variable {ltp : ℚ} {req : OrderRequest} {scfg : StrategyConfig} {portfolio : PortfolioSnapshot}

theorem fits32_signed {side : Side} {quantity : Int} (hpositive : 1 ≤ quantity)
    (h : Fits32 quantity) : Fits32 (side.signed quantity) := by
  obtain ⟨hlo, hhi⟩ := h
  cases side with
  | buy => exact ⟨hlo, hhi⟩
  | sell => exact ⟨by simp only [Side.signed]; grind, by simp only [Side.signed]; grind⟩

theorem fits32_abs {n : Int} (h : Fits32 n) (hne : n ≠ -2 ^ 31) : Fits32 |n| := by
  obtain ⟨hlo, hhi⟩ := h
  refine ⟨(by norm_num : (-2 ^ 31 : Int) ≤ 0).trans (abs_nonneg n), abs_lt.mpr ⟨?_, hhi⟩⟩
  exact lt_of_le_of_ne hlo (Ne.symm hne)

theorem delta32_eq (h : InRange req portfolio) (hvalues : Int32Values req portfolio) :
    delta32 req = req.side.signed req.quantity :=
  wrap32_of_fits (fits32_signed h.quantity hvalues.quantity)

theorem newQty32_of_fits (h : Fits32 ((portfolio.getPosition req.instrumentToken).quantity +
    req.side.signed req.quantity)) : newQty32 req portfolio =
      (portfolio.getPosition req.instrumentToken).quantity + req.side.signed req.quantity := by
  rw [newQty32, delta32, wrap32_add_wrap32]
  exact wrap32_of_fits h

theorem wrap32_abs_newQty32 (h : |(portfolio.getPosition req.instrumentToken).quantity +
    req.side.signed req.quantity| < 2 ^ 31) : wrap32 |newQty32 req portfolio| =
      |(portfolio.getPosition req.instrumentToken).quantity + req.side.signed req.quantity| := by
  rw [newQty32_of_fits (fits32_of_abs_lt h)]
  exact wrap32_of_fits (fits32_of_abs_lt (by rwa [abs_abs]))

theorem newQty32_eq (h : InRange req portfolio) : newQty32 req portfolio =
    (portfolio.getPosition req.instrumentToken).quantity + req.side.signed req.quantity :=
  newQty32_of_fits (fits32_of_abs_lt h.resulting)

theorem fits32_held (h : InRange req portfolio) (hvalues : Int32Values req portfolio)
    {pos : Position} (hmem : pos ∈ portfolio.strategyPositions req.strategyId) :
    Fits32 |pos.quantity| :=
  fits32_abs (hvalues.positions pos (List.mem_of_mem_filter hmem)) (h.held pos hmem)

theorem usedCapital32_eq (h : InRange req portfolio) (hvalues : Int32Values req portfolio) :
    usedCapital32 portfolio req.strategyId = portfolio.strategyUsedCapital req.strategyId := by
  unfold usedCapital32 PortfolioSnapshot.strategyUsedCapital
  congr 1
  refine List.map_congr_left fun pos hmem => ?_
  rw [value32, wrap32_of_fits (fits32_held h hvalues hmem), Position.value]

theorem fits32_results (h : InRange req portfolio) (hvalues : Int32Values req portfolio) :
    ∀ n ∈ positionResults req portfolio ++ capitalResults portfolio req.strategyId, Fits32 n := by
  intro n hn
  obtain hn | hn := List.mem_append.mp hn
  · rw [positionResults, newQty32_eq h, delta32_eq h hvalues] at hn
    simp only [List.mem_cons, List.not_mem_nil, or_false] at hn
    obtain rfl | rfl | rfl := hn
    · exact fits32_signed h.quantity hvalues.quantity
    · exact fits32_of_abs_lt h.resulting
    · exact fits32_of_abs_lt (by rw [abs_abs]; exact h.resulting)
  · obtain ⟨pos, hmem, rfl⟩ := List.mem_map.mp hn
    exact fits32_held h hvalues hmem

/-- In range the checks at 32 bits are the exact ones. -/
theorem checkValues32_eq (h : InRange req portfolio) (hvalues : Int32Values req portfolio) :
    (checkValues32 ltp req scfg portfolio).1 = checkValues ltp req scfg portfolio := by
  unfold checkValues32 checkValues
  rw [wrap32_abs_newQty32 h.resulting, usedCapital32_eq h hvalues]
  simp only [apply_ite Prod.fst]

theorem performed_of_pass (hprice : 0 < ltp)
    (hpass : (checkValues32 ltp req scfg portfolio).1 = .pass) :
    (checkValues32 ltp req scfg portfolio).2 =
      positionResults req portfolio ++ capitalResults portfolio req.strategyId := by
  unfold checkValues32 at hpass ⊢
  grind

theorem deviation_le_iff (hprice : 0 < ltp) (limitPrice : ℚ) :
    |limitPrice - ltp| / ltp ≤ 5 / 100 ↔ |limitPrice - ltp| ≤ 5 / 100 * ltp :=
  div_le_iff₀ hprice

theorem check32_of_no_refusal {risk : PreTradeRiskEngine} {clock : RiskClock}
    (h : risk.refusal req clock = none) : check32 risk req scfg portfolio clock =
      checkValues32 (risk.currentPrice req.instrumentToken) req scfg portfolio := by
  rw [check32, h]

theorem refusal_of_pass32 {risk : PreTradeRiskEngine} {clock : RiskClock}
    (hpass : (check32 risk req scfg portfolio clock).1 = .pass) :
    risk.refusal req clock = none := by
  cases hrefusal : risk.refusal req clock with
  | none => rfl
  | some early =>
      rw [check32, hrefusal] at hpass
      obtain rfl | rfl | rfl := refusal_ne hrefusal <;> simp at hpass

/-- What passes in range is sound. -/
theorem sound_of_inRange (h : InRange req portfolio) (hvalues : Int32Values req portfolio)
    {risk : PreTradeRiskEngine} {clock : RiskClock}
    (hprice : 0 < risk.currentPrice req.instrumentToken)
    (hpass : (check32 risk req scfg portfolio clock).1 = .pass) :
    Sound (risk.currentPrice req.instrumentToken) req scfg portfolio
      (check32 risk req scfg portfolio clock).2 := by
  have hrefusal := refusal_of_pass32 hpass
  rw [check32_of_no_refusal hrefusal] at hpass ⊢
  have hexact : (risk.check req scfg portfolio clock).1 = .pass := by
    rw [check_fst, hrefusal, Option.getD_none, ← checkValues32_eq h hvalues]
    exact hpass
  have hwithin := withinLimits_of_pass hexact hprice
  refine ⟨h.quantity, hwithin.orderValue, hwithin.position, hwithin.capital, ?_, ?_⟩
  · intro htype
    exact (deviation_le_iff hprice _).mp (hwithin.priceSanity htype (h.limitPrice htype))
  · rw [performed_of_pass hprice hpass]
    exact fits32_results h hvalues

def nearPrice (req : OrderRequest) : ℚ := if 0 < req.limitPrice then req.limitPrice else 1

theorem nearPrice_pos (req : OrderRequest) : 0 < nearPrice req := by
  unfold nearPrice
  split
  · assumption
  · exact one_pos

def wideLimits (req : OrderRequest) (portfolio : PortfolioSnapshot) : RiskLimits where
  maxSingleOrderValue := |req.quantity * nearPrice req|
  maxPositionValue := 2 ^ 31 * nearPrice req
  maxCapitalAllocation :=
    |usedCapital32 portfolio req.strategyId + req.quantity * nearPrice req|
  maxDailyLoss := |portfolio.strategyDailyPnl req.strategyId|

theorem nonneg_wideLimits (req : OrderRequest) (portfolio : PortfolioSnapshot) :
    NonnegLimits (wideLimits req portfolio) where
  singleOrder := abs_nonneg _
  position := mul_nonneg (by norm_num) (nearPrice_pos req).le
  capital := abs_nonneg _
  dailyLoss := abs_nonneg _
  ordersPerSecond := by norm_num [wideLimits]

def openRisk (req : OrderRequest) : PreTradeRiskEngine :=
  ({} : PreTradeRiskEngine).updatePrice req.instrumentToken (nearPrice req)

def openClock : RiskClock := ⟨⟨5, 0, 1⟩, 0⟩

theorem currentPrice_openRisk (req : OrderRequest) :
    (openRisk req).currentPrice req.instrumentToken = nearPrice req := by
  rw [currentPrice, openRisk, updatePrice, AList.lookup_insert]
  rfl

theorem check32_openRisk (req : OrderRequest) (portfolio : PortfolioSnapshot) (id : Str) :
    (check32 (openRisk req) req ⟨id, wideLimits req portfolio⟩ portfolio openClock).1 = .pass := by
  have hrefusal : (openRisk req).refusal req openClock = none := rfl
  have hprice := nearPrice_pos req
  have hposition : (wrap32 |newQty32 req portfolio| : ℚ) * nearPrice req ≤
      2 ^ 31 * nearPrice req := by
    refine mul_le_mul_of_nonneg_right ?_ hprice.le
    exact_mod_cast (wrap32_lt _).le
  unfold check32
  rw [hrefusal]
  dsimp only
  rw [currentPrice_openRisk, checkValues32]
  rw [if_neg (fun h => not_lt.mpr (le_abs_self _) h.2), if_neg (fun h => not_lt.mpr hposition h.2),
    if_neg (fun h => not_lt.mpr (le_abs_self _) h.2), if_neg, if_neg]
  · exact not_lt.mpr (neg_abs_le _)
  · rintro ⟨-, -, hlimit, hdeviation⟩
    rw [nearPrice, if_pos hlimit, sub_self, abs_zero, zero_div] at hdeviation
    norm_num at hdeviation

theorem position_limit_of_pass32 {risk : PreTradeRiskEngine} {clock : RiskClock}
    (hpass : (check32 risk req scfg portfolio clock).1 = .pass)
    (hprice : 0 < risk.currentPrice req.instrumentToken)
    (hfits : |(portfolio.getPosition req.instrumentToken).quantity +
      req.side.signed req.quantity| < 2 ^ 31) :
    |(portfolio.getPosition req.instrumentToken).quantity + req.side.signed req.quantity| *
      risk.currentPrice req.instrumentToken ≤ scfg.risk.maxPositionValue := by
  rw [check32_of_no_refusal (refusal_of_pass32 hpass)] at hpass
  by_contra hover
  rw [← wrap32_abs_newQty32 hfits] at hover
  unfold checkValues32 at hpass
  grind

theorem inRange_of_fits (hquantity : 1 ≤ req.quantity)
    (hlimit : req.orderType = .limit → 0 < req.limitPrice)
    (hfits : ∀ n ∈ positionResults req portfolio ++ capitalResults portfolio req.strategyId,
      Fits32 n) : InRange req portfolio := by
  have hdelta : delta32 req = req.side.signed req.quantity :=
    wrap32_of_fits (hfits _ (by simp [positionResults]))
  have hsum : newQty32 req portfolio =
      (portfolio.getPosition req.instrumentToken).quantity + req.side.signed req.quantity := by
    rw [newQty32, wrap32_of_fits (hfits _ (by simp [positionResults])), hdelta]
  refine ⟨hquantity, ?_, ?_, hlimit⟩
  · have habs : Fits32 |newQty32 req portfolio| := hfits _ (by simp [positionResults])
    rw [hsum] at habs
    exact habs.2
  · intro pos hmem heq
    have hheld : Fits32 |pos.quantity| :=
      hfits _ (List.mem_append_right _ (List.mem_map_of_mem hmem))
    rw [heq] at hheld
    exact absurd hheld (by decide)

/-- For a request and a snapshot, what passes is sound under all limits, prices and clocks
exactly when they are in range. -/
theorem sound_iff_inRange (hvalues : Int32Values req portfolio) :
    (∀ (risk : PreTradeRiskEngine) (scfg : StrategyConfig) (clock : RiskClock),
      NonnegLimits scfg.risk → 0 < risk.currentPrice req.instrumentToken →
      (check32 risk req scfg portfolio clock).1 = .pass →
      Sound (risk.currentPrice req.instrumentToken) req scfg portfolio
        (check32 risk req scfg portfolio clock).2) ↔ InRange req portfolio := by
  constructor
  · intro h
    have hprice := currentPrice_openRisk req
    have hpass := check32_openRisk req portfolio req.strategyId
    have hsound := h (openRisk req) ⟨req.strategyId, wideLimits req portfolio⟩ openClock
      (nonneg_wideLimits req portfolio) (hprice ▸ nearPrice_pos req) hpass
    rw [check32_of_no_refusal rfl, hprice] at hpass hsound
    refine inRange_of_fits hsound.quantity (fun htype => ?_) ?_
    · -- Without a limit price the price is 1, and 0 or less deviates from it by more.
      by_contra hnonpos
      have hnear : nearPrice req = 1 := if_neg hnonpos
      have hdeviation := hsound.price htype
      rw [hnear, abs_le] at hdeviation
      linarith [hdeviation.1]
    · rw [← performed_of_pass (nearPrice_pos req) hpass]
      exact hsound.noOverflow
  · intro h risk scfg clock _ hprice hpass
    exact sound_of_inRange h hvalues hprice hpass

end Sound

section Orders

def heldByOther : PortfolioSnapshot where
  positions := (∅ : Library.Dict Nat Position).insert 1
    { instrumentToken := 1, strategyId := ['N'], quantity := 2147483647, currentPrice := 100 }

def buyOf (quantity : Int) (orderType : OrderType) : OrderRequest :=
  { instrumentToken := 1, quantity := quantity, orderType := orderType, strategyId := ['M'] }

def checkBuy (quantity : Int) (orderType : OrderType) (portfolio : PortfolioSnapshot) :
    RiskDecision × List Int :=
  check32 (({} : PreTradeRiskEngine).updatePrice 1 100) (buyOf quantity orderType)
    { id := ['M'] } portfolio openClock

theorem sound_iff_inRange_ten :
    (checkBuy 10 .market {}).1 = .pass ∧
      Sound 100 (buyOf 10 .market) { id := ['M'] } {} (checkBuy 10 .market {}).2 := by
  have hpass : (checkBuy 10 .market {}).1 = .pass := by decide +kernel
  have hvalues : Int32Values (buyOf 10 .market) {} :=
    ⟨by decide, fun _ hmem => absurd hmem List.not_mem_nil⟩
  have hrange : InRange (buyOf 10 .market) {} :=
    ⟨by decide, by decide, fun _ hmem => absurd hmem List.not_mem_nil, by decide⟩
  have hlimits : NonnegLimits ({ id := ['M'] } : StrategyConfig).risk :=
    ⟨by decide +kernel, by decide +kernel, by decide +kernel, by decide +kernel, by decide⟩
  have hprice : (({} : PreTradeRiskEngine).updatePrice 1 100).currentPrice 1 = 100 := rfl
  refine ⟨hpass, ?_⟩
  have hsound := (sound_iff_inRange hvalues).mpr hrange
    (({} : PreTradeRiskEngine).updatePrice 1 100) { id := ['M'] } openClock hlimits
    (hprice ▸ by decide) hpass
  exact hprice ▸ hsound

/-- An order for nothing passes; so does one that takes the position beyond 32 bits, and a limit
order without a limit price. -/
theorem unsound_orders_pass :
    ((checkBuy 0 .market {}).1 = .pass ∧
        ¬Sound 100 (buyOf 0 .market) { id := ['M'] } {} (checkBuy 0 .market {}).2) ∧
      ((checkBuy 1 .market heldByOther).1 = .pass ∧
        ¬Sound 100 (buyOf 1 .market) { id := ['M'] } heldByOther
          (checkBuy 1 .market heldByOther).2) ∧
      (checkBuy 1 .limit {}).1 = .pass ∧
        ¬Sound 100 (buyOf 1 .limit) { id := ['M'] } {} (checkBuy 1 .limit {}).2 := by
  refine ⟨⟨by decide +kernel, fun h => ?_⟩, ⟨by decide +kernel, fun h => ?_⟩,
    by decide +kernel, fun h => ?_⟩
  · exact absurd h.quantity (by decide)
  · exact absurd h.position (by decide +kernel)
  · exact absurd (h.price rfl) (by decide +kernel)

end Orders

end PreTradeRiskEngine

end QuantForge
