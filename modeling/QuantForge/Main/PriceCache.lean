import QuantForge.Main.Wiring

/-! The cached prices that the risk checks multiply with. Ticks write them and so does the
callback of every fill, and the price of a paper fill is the limit price of its order: an
order without one leaves a price of zero in the cache, and with it the checks are skipped. -/
namespace QuantForge

open Library

def OmsCall.LimitPositive : OmsCall → Prop
  | .submit req _ _ _ => 0 < req.limitPrice
  | _ => True

instance : DecidablePred OmsCall.LimitPositive
  | .submit _ _ _ _ => inferInstanceAs (Decidable (_ < _))
  | .onFill _ _ | .onOrderAck _ _ | .onReject _ _ | .placementFailed _ _ | .cancel _
  | .cancelAllOpen | .resetForEod => inferInstanceAs (Decidable True)

def TradingEvent.Paper : TradingEvent → Prop
  | .call (.onFill _ _) => False
  | _ => True

namespace TradingEngine

variable {poolSize : Nat}

def Ticked (e : TradingEngine poolSize) (token : Nat) : Prop :=
  ∃ t ∈ e.ticks, t.instrumentToken = token

/-- Fills have a price, instruments with a tick keep one, and their orders pass the gate only
within the four limits that need it. -/
structure PricesUsable (e : TradingEngine poolSize) : Prop where
  fills : ∀ fill ∈ e.oms.emitted, 0 < fill.price
  cached : ∀ token, e.Ticked token → 0 < e.risk.currentPrice token
  enforced : ∀ req scfg portfolio clock, e.Ticked req.instrumentToken →
    (e.risk.check req scfg portfolio clock).1 = .pass →
    PreTradeRiskEngine.WithinLimits (e.risk.currentPrice req.instrumentToken) req scfg portfolio

def FillsAtLimit (e : TradingEngine poolSize) (event : TradingEvent) : Prop :=
  ∀ c ∈ e.omsCall event, e.oms.CreditsFill c → c.LimitPositive

instance (e : TradingEngine poolSize) (event : TradingEvent) : Decidable (e.FillsAtLimit event) :=
  inferInstanceAs (Decidable (∀ c ∈ e.omsCall event, _))

variable {e : TradingEngine poolSize}

theorem pricesUsable_iff : e.PricesUsable ↔
    (∀ fill ∈ e.oms.emitted, 0 < fill.price) ∧
      ∀ token, e.Ticked token → 0 < e.risk.currentPrice token := by
  constructor
  · intro h
    exact ⟨h.fills, h.cached⟩
  · rintro ⟨hfills, hcached⟩
    refine ⟨hfills, hcached, fun req scfg portfolio clock hticked hpass => ?_⟩
    exact PreTradeRiskEngine.withinLimits_of_pass hpass (hcached _ hticked)

private theorem currentPrice_of_priceCache {risk risk' : PreTradeRiskEngine}
    (h : risk.priceCache = risk'.priceCache) (token : Nat) :
    risk.currentPrice token = risk'.currentPrice token := by
  rw [PreTradeRiskEngine.currentPrice, h, PreTradeRiskEngine.currentPrice]

private theorem pricesUsable_of_same {next : TradingEngine poolSize} (h : e.PricesUsable)
    (hemitted : next.oms.emitted = e.oms.emitted)
    (hprices : next.risk.priceCache = e.risk.priceCache)
    (hticked : ∀ token, next.Ticked token → e.Ticked token) : next.PricesUsable := by
  apply pricesUsable_iff.mpr
  constructor
  · rw [hemitted]
    exact h.fills
  · intro token htoken
    rw [currentPrice_of_priceCache hprices]
    exact h.cached token (hticked token htoken)

private theorem currentPrice_updatePrice_pos {risk : PreTradeRiskEngine} {token' : Nat}
    {price : ℚ} (hprice : 0 < price) {token : Nat}
    (hcached : token ≠ token' → 0 < risk.currentPrice token) :
    0 < (risk.updatePrice token' price).currentPrice token := by
  rw [PreTradeRiskEngine.currentPrice, PreTradeRiskEngine.updatePrice]
  by_cases heq : token = token'
  · rw [heq, AList.lookup_insert]
    exact hprice
  · rw [AList.lookup_insert_ne heq]
    exact hcached heq

private theorem pricesUsable_onTick (h : e.PricesUsable) (t : NormalizedTick) :
    (e.onTick t).PricesUsable := by
  unfold onTick
  split
  · rename_i hvalid
    apply pricesUsable_iff.mpr
    refine ⟨h.fills, fun token hticked => ?_⟩
    apply currentPrice_updatePrice_pos (TickNormalizer.ltp_pos_of_validate hvalid)
    intro hne
    obtain ⟨t', hmem, heq⟩ := hticked
    obtain hhead | htail := List.mem_cons.mp hmem
    · rw [hhead] at heq
      exact absurd heq.symm hne
    · exact h.cached token ⟨t', htail, heq⟩
  · exact h

private theorem price_of_paper {event : TradingEvent} (hpaper : event.Paper) {c : OmsCall}
    (hcall : e.omsCall event = some c) (hcredits : e.oms.CreditsFill c) {order : Order}
    {fill : Fill} (hfills : c.Fills order fill) : 0 < fill.price ↔ c.LimitPositive := by
  cases c with
  | submit req tsMs placedNs fillNs =>
      rw [hfills.price rfl]
      rfl
  | onFill report nowNs =>
      cases event with
      | call c =>
          obtain rfl := Option.some.inj hcall
          exact hpaper.elim
      | strategy i s =>
          cases s with
          | submit call tsMs placedNs fillNs =>
              rw [omsCall] at hcall
              split at hcall <;> simp at hcall
          | _ => simp [omsCall] at hcall
      | _ => simp [omsCall] at hcall
  | _ => exact hcredits.elim

private theorem pricesUsable_acts_iff (h : e.PricesUsable) {event : TradingEvent}
    (hpaper : event.Paper) {m : StrategyManager poolSize} (hacts : e.Acts event m) :
    (e.step event).PricesUsable ↔ e.FillsAtLimit event := by
  by_cases hcredits : e.CreditsFill event
  · obtain ⟨c, hcall, hc⟩ := hcredits
    obtain ⟨order, fill, hfills, -, hemitted, hstep⟩ := hacts.step_of_credited hcall hc
    have hlimit := price_of_paper hpaper hcall hc hfills
    have hguard : e.FillsAtLimit event ↔ 0 < fill.price := by
      rw [hlimit, FillsAtLimit, hcall]
      simp [hc]
    rw [hguard, hstep, pricesUsable_iff]
    change (∀ f ∈ m.oms.emitted, 0 < f.price) ∧ _ ↔ _
    rw [hemitted, List.forall_mem_cons]
    constructor
    · exact fun hnext => hnext.1.1
    · intro hprice
      refine ⟨⟨hprice, h.fills⟩, fun token hticked => ?_⟩
      apply currentPrice_updatePrice_pos hprice
      intro _
      rw [currentPrice_of_priceCache hacts.prices]
      exact h.cached token hticked
  · obtain ⟨hstep, hemitted⟩ := hacts.step_of_not_credited hcredits
    refine iff_of_true ?_ fun c hcall hc => absurd ⟨c, hcall, hc⟩ hcredits
    rw [hstep]
    exact pricesUsable_of_same h hemitted hacts.prices fun _ => id

private theorem fillsAtLimit_of_none {event : TradingEvent} (h : e.omsCall event = none) :
    e.FillsAtLimit event := by
  intro c hcall
  rw [h] at hcall
  exact absurd hcall (Option.not_mem_none c)

theorem pricesUsable_step_iff (h : e.PricesUsable) {event : TradingEvent}
    (hpaper : event.Paper) : (e.step event).PricesUsable ↔ e.FillsAtLimit event := by
  cases event with
  | tick t => exact iff_of_true (pricesUsable_onTick h t) (fillsAtLimit_of_none rfl)
  | strategy i s =>
      obtain ⟨m, hacts⟩ := acts_strategy e i s
      exact pricesUsable_acts_iff h hpaper hacts
  | call c =>
      obtain ⟨m, hacts⟩ := acts_call e c
      exact pricesUsable_acts_iff h hpaper hacts
  | fillLoop =>
      refine iff_of_true ?_ (fillsAtLimit_of_none rfl)
      exact pricesUsable_of_same h emitted_fillLoop rfl fun _ => id
  | flushAll nowNs =>
      refine iff_of_true ?_ (fillsAtLimit_of_none rfl)
      exact pricesUsable_of_same h rfl rfl fun _ => id

theorem pricesUsable_init (paperMode : Bool) (strategies : List LoadedStrategy) (nowNs : Nat) :
    (init poolSize paperMode strategies nowNs).PricesUsable := by
  apply pricesUsable_iff.mpr
  constructor
  · exact List.forall_mem_nil _
  · rintro token ⟨t, hmem, -⟩
    exact absurd hmem List.not_mem_nil

/-- In a paper run the prices stay usable exactly when every submitted order that is filled
has a positive limit price. -/
theorem prices_usable_iff_fills_at_limit (strategies : List LoadedStrategy) (nowNs : Nat)
    {events : List TradingEvent} (hpaper : ∀ event ∈ events, event.Paper) :
    (∀ k, (Run.run step (init poolSize true strategies nowNs) (events.take k)).PricesUsable) ↔
      Run.Along step FillsAtLimit (init poolSize true strategies nowNs) events := by
  rw [← Run.always_iff_take]
  exact Run.always_iff_along (fun _ => True) (fun _ event => event.Paper)
    (fun _ _ _ _ _ => trivial) (fun _ _ _ h hpaper => pricesUsable_step_iff h hpaper)
    (Run.along_of_forall step TradingEvent.Paper (fun _ _ h => h) _ hpaper) trivial
    (pricesUsable_init true strategies nowNs)

section MarketOrder

def trader : LoadedStrategy where
  config := { id := ['S'] }
  instruments := [1]

def oneShare (orderType : OrderType) (limitPrice : ℚ) : OrderRequest where
  instrumentToken := 1
  orderType := orderType
  quantity := 1
  limitPrice := limitPrice
  strategyId := ['S']

def place (call : Nat) (req : OrderRequest) : List TradingEvent :=
  [.strategy 0 (.getSnapshot call req), .strategy 0 (.check call ⟨⟨5, 0, 3⟩, 0⟩),
    .strategy 0 (.submit call 0 0 0)]

def buyOne (orderType : OrderType) (limitPrice : ℚ) : List TradingEvent :=
  .tick { instrumentToken := 1, ltp := 100 } :: place 0 (oneShare orderType limitPrice)

private theorem paper_buyOne (orderType : OrderType) (limitPrice : ℚ) :
    ∀ event ∈ buyOne orderType limitPrice, event.Paper := by
  simp [buyOne, place, TradingEvent.Paper]

theorem prices_usable_limit_order :
    (Run.run step (init 1 true [trader] 0) ((buyOne .limit 101).take 4)).PricesUsable := by
  refine (prices_usable_iff_fills_at_limit [trader] 0 (paper_buyOne .limit 101)).mpr ?_ 4
  decide +kernel

/-- A market order is filled at zero, the tick's price is gone, and an order for a million
passes the limits of 10000 and 50000. -/
theorem market_order_unprices_instrument :
    let e := Run.run step (init 1 true [trader] 0) (buyOne .market 0)
    (∀ event ∈ buyOne .market 0, event.Paper) ∧ e.Ticked 1 ∧ e.risk.currentPrice 1 = 0 ∧
      (e.risk.check { instrumentToken := 1, quantity := 1000000, strategyId := ['S'] }
        trader.config e.portfolio.snapshot ⟨⟨5, 0, 3⟩, 0⟩).1 = .pass ∧ ¬e.PricesUsable := by
  have hprice : (Run.run step (init 1 true [trader] 0)
      (buyOne .market 0)).risk.currentPrice 1 = 0 := by decide +kernel
  have hticked : (Run.run step (init 1 true [trader] 0) (buyOne .market 0)).Ticked 1 :=
    ⟨{ instrumentToken := 1, ltp := 100 }, by decide +kernel, rfl⟩
  refine ⟨paper_buyOne .market 0, hticked, hprice, by decide +kernel, fun h => ?_⟩
  exact absurd hprice (h.cached 1 hticked).ne'

end MarketOrder

end TradingEngine

end QuantForge
