import QuantForge.Main.FillDelivery
import QuantForge.Main.PriceCache
import QuantForge.Oms.PaperMode
import QuantForge.Portfolio.Attribution
import QuantForge.Strategy.PositionLimit

/-! What follows from a daily loss beyond the limit, in paper mode. The profit of a strategy only
changes by its own fills, so nothing brings it back above the limit: not a fall or a rise of the
market, not an order that would reduce a position, and not the reset at the end of the day. -/
namespace QuantForge

open Library OrderManagementSystem

def OrderRequest.ownedBy (req : OrderRequest) (sid : Str) : Bool :=
  strncmpEq (strncpy req.strategyId (maxStrategyLen - 1)) sid maxStrategyLen

def OrderRequest.Apart (sid : Str) (traded : Nat → Bool) (mine : Prop) [Decidable mine]
    (req : OrderRequest) : Prop :=
  if mine then req.strategyId = sid ∧ traded req.instrumentToken = true
  else req.ownedBy sid = false ∧ traded req.instrumentToken = false

instance (sid : Str) (traded : Nat → Bool) (mine : Prop) [Decidable mine] :
    DecidablePred (OrderRequest.Apart sid traded mine) := fun req => by
  unfold OrderRequest.Apart
  infer_instance

/-- The requests are as `requests` says, and the other calls of the order management system place
no orders and do not use the trade ids of paper mode. -/
def TradingEvent.Meets (requests : Nat → OrderRequest → Prop) : TradingEvent → Prop
  | .strategy j (.getSnapshot k req) => requests (Nat.pair j k) req
  | .call c => c.Foreign ∧ c.submits = false
  | _ => True

/-- The strategy at `i` trades the instruments of `traded` under `sid`, and nobody else does. -/
def TradingEvent.Apart (sid : Str) (traded : Nat → Bool) (i : Nat) : TradingEvent → Prop :=
  TradingEvent.Meets fun call req => req.Apart sid traded (call.unpair.1 = i)

instance (sid : Str) (traded : Nat → Bool) (i : Nat) :
    DecidablePred (TradingEvent.Apart sid traded i)
  | .strategy _ (.getSnapshot _ _) => inferInstanceAs (Decidable (OrderRequest.Apart ..))
  | .strategy _ (.check _ _) => isTrue trivial
  | .strategy _ (.submit ..) => isTrue trivial
  | .call _ => inferInstanceAs (Decidable (_ ∧ _))
  | .tick _ => isTrue trivial
  | .fillLoop => isTrue trivial
  | .flushAll _ => isTrue trivial

theorem OrderRequest.Apart.ownedBy {sid : Str} {traded : Nat → Bool} {mine : Prop}
    [Decidable mine] {req : OrderRequest} (hsid : strncpy sid (maxStrategyLen - 1) = sid)
    (h : req.Apart sid traded mine) : req.ownedBy sid = traded req.instrumentToken := by
  by_cases hmine : mine
  · rw [OrderRequest.Apart, if_pos hmine] at h
    rw [OrderRequest.ownedBy, h.1, hsid, h.2]
    exact beq_self_eq_true _
  · rw [OrderRequest.Apart, if_neg hmine] at h
    rw [h.1, h.2]

theorem ownedBy_paperFill (seq : Nat) (req : OrderRequest) (tsMs fillNs : Nat) (sid : Str) :
    (paperFill seq req tsMs fillNs).ownedBy sid = req.ownedBy sid := by
  rw [Fill.ownedBy, paperFill, strncpy_strncpy]
  rfl

theorem checkValues_ne_pass_of_loss {ltp : ℚ} {req : OrderRequest} {scfg : StrategyConfig}
    {portfolio : PortfolioSnapshot}
    (hloss : portfolio.strategyDailyPnl req.strategyId < -scfg.risk.maxDailyLoss) :
    PreTradeRiskEngine.checkValues ltp req scfg portfolio ≠ .pass := by
  unfold PreTradeRiskEngine.checkValues
  split_ifs <;> exact RiskDecision.noConfusion

/-- What is known of the fills, of the calls of `submit_order` that are under way and of the
portfolio, so that each follows from the others: a fill is one of a call that passed, a call passes
with the snapshot that it took, and the portfolio takes in one fill after the other. -/
structure FlowRules (fills : Fill → Prop) (calls : Nat → SubmitCall → Prop)
    (portfolio : PortfolioEngine → Prop) (requests : Nat → OrderRequest → Prop)
    (configs : Nat → StrategyConfig → Prop) : Prop where
  snapped : ∀ {call : Nat} {s : SnappedRequest} {p : PortfolioEngine}, requests call s.req →
    portfolio p → s.snapshot = p.snapshot → calls call (.snapped s)
  passed : ∀ {call : Nat} {s : SnappedRequest} {scfg : StrategyConfig} {risk : PreTradeRiskEngine}
    {clock : RiskClock}, configs call scfg → calls call (.snapped s) →
    (risk.check s.req scfg s.snapshot clock).1 = .pass → calls call (.passed s.req)
  filled : ∀ {call : Nat} {req : OrderRequest}, calls call (.passed req) →
    ∀ seq tsMs fillNs, fills (paperFill seq req tsMs fillNs)
  processed : ∀ {p : PortfolioEngine} {fill : Fill}, portfolio p → fills fill →
    portfolio (p.processFill fill)

namespace StrategyManager

variable {n : Nat} {fills : Fill → Prop} {calls : Nat → SubmitCall → Prop}
  {portfolio : PortfolioEngine → Prop} {requests : Nat → OrderRequest → Prop}
  {configs : Nat → StrategyConfig → Prop}

/-- The rules hold of all that is on its way in paper mode, and of all that was executed after
`before`. -/
structure Flows (fills : Fill → Prop) (calls : Nat → SubmitCall → Prop)
    (portfolio : PortfolioEngine → Prop) (before : List Fill) (m : StrategyManager (n + 1)) :
    Prop where
  atRest : m.oms.AtRest
  queued : ∀ fill ∈ m.oms.fillQueue.contents, fills fill
  calls : ∀ call c, m.calls.lookup call = some c → calls call c
  portfolio : portfolio m.portfolio
  executed : ∃ since, m.oms.executed = before ++ since ∧ ∀ fill ∈ since, fills fill

variable {before : List Fill} {m m' : StrategyManager (n + 1)}

theorem Flows.of_same (h : m.Flows fills calls portfolio before) (homs : m'.oms = m.oms)
    (hportfolio : m'.portfolio = m.portfolio) (hcalls : m'.calls = m.calls) :
    m'.Flows fills calls portfolio before := by
  obtain ⟨hrest, hqueued, hwaiting, hportfolio', hexecuted⟩ := h
  rw [← homs] at hrest hqueued hexecuted
  rw [← hportfolio] at hportfolio'
  rw [← hcalls] at hwaiting
  exact ⟨hrest, hqueued, hwaiting, hportfolio', hexecuted⟩

theorem flows_getSnapshot (rules : FlowRules fills calls portfolio requests configs)
    (h : m.Flows fills calls portfolio before) {call : Nat} {req : OrderRequest}
    (hreq : requests call req) : (m.getSnapshot call req).Flows fills calls portfolio before := by
  cases hlookup : m.calls.lookup call with
  | some c =>
      rw [getSnapshot, hlookup]
      exact h
  | none =>
      rw [getSnapshot_of_none hlookup]
      refine ⟨h.atRest, h.queued, fun other c hc => ?_, h.portfolio, h.executed⟩
      obtain ⟨rfl, rfl⟩ | ⟨-, hold⟩ := Dict.lookup_insert_eq_some.mp hc
      · exact rules.snapped hreq h.portfolio rfl
      · exact h.calls other c hold

theorem flows_check (rules : FlowRules fills calls portfolio requests configs)
    (h : m.Flows fills calls portfolio before) {scfg : StrategyConfig} {call : Nat}
    (hconfig : configs call scfg) (clock : RiskClock) :
    (m.check scfg call clock).Flows fills calls portfolio before := by
  cases hlookup : m.calls.lookup call with
  | none =>
      simp only [check, hlookup]
      exact h
  | some c =>
      cases c with
      | passed req =>
          simp only [check, hlookup]
          exact h
      | snapped s =>
          by_cases hpass : (m.risk.check s.req scfg s.snapshot clock).1 = .pass
          · rw [check_of_pass hlookup hpass]
            refine ⟨h.atRest, h.queued, fun other c hc => ?_, h.portfolio, h.executed⟩
            obtain ⟨rfl, rfl⟩ | ⟨-, hold⟩ := Dict.lookup_insert_eq_some.mp hc
            · exact rules.passed hconfig (h.calls other _ hlookup) hpass
            · exact h.calls other c hold
          · rw [check_of_reject hlookup hpass]
            exact ⟨h.atRest, h.queued,
              fun other c hc => h.calls other c (Dict.lookup_erase_eq_some.mp hc).2,
              h.portfolio, h.executed⟩

theorem submit_atRest {oms : OrderManagementSystem (n + 1)} (h : oms.AtRest) (req : OrderRequest)
    (tsMs placedNs fillNs : Nat) :
    (oms.submit req tsMs placedNs fillNs).2.AtRest ∧
      (oms.submit req tsMs placedNs fillNs).2.executed =
        oms.executed ++ [paperFill oms.seq req tsMs fillNs] ∧
      ∀ fill ∈ (oms.submit req tsMs placedNs fillNs).2.fillQueue.contents,
        fill ∈ oms.fillQueue.contents ∨ fill = paperFill oms.seq req tsMs fillNs := by
  obtain ⟨po, rest, hfree⟩ := freeList_of_atRest h
  have hsubmit : (oms.submit req tsMs placedNs fillNs).2 =
      oms.paperFilled po rest req tsMs placedNs fillNs :=
    congrArg Prod.snd (submit_paper req tsMs placedNs fillNs h hfree)
  rw [hsubmit, executed_paperFilled, fillQueue_paperFilled]
  refine ⟨atRest_paperFilled req tsMs placedNs fillNs h hfree, rfl, fun fill hmem => ?_⟩
  by_cases hfull : oms.fillQueue.Full
  · rw [SpscQueue.push_of_full hfull] at hmem
    exact .inl hmem
  · rw [SpscQueue.push_contents hfull] at hmem
    exact (List.mem_append.mp hmem).imp_right List.mem_singleton.mp

theorem flows_submit (rules : FlowRules fills calls portfolio requests configs)
    (h : m.Flows fills calls portfolio before) (call tsMs placedNs fillNs : Nat) :
    (m.submit call tsMs placedNs fillNs).Flows fills calls portfolio before := by
  cases hlookup : m.calls.lookup call with
  | none =>
      simp only [submit, hlookup]
      exact h
  | some c =>
      cases c with
      | snapped s =>
          simp only [submit, hlookup]
          exact h
      | passed req =>
          have hfill := rules.filled (h.calls call _ hlookup) m.oms.seq tsMs fillNs
          obtain ⟨hrest, hexecuted, hqueued⟩ := submit_atRest h.atRest req tsMs placedNs fillNs
          obtain ⟨since, hbefore, hsince⟩ := h.executed
          simp only [submit, hlookup]
          refine ⟨hrest, fun fill hmem => ?_,
            fun other c hc => h.calls other c (Dict.lookup_erase_eq_some.mp hc).2,
            h.portfolio, since ++ [paperFill m.oms.seq req tsMs fillNs], ?_, ?_⟩
          · obtain hold | rfl := hqueued fill hmem
            · exact h.queued fill hold
            · exact hfill
          · rw [hexecuted, hbefore, List.append_assoc]
          · intro fill hmem
            obtain hold | hnew := List.mem_append.mp hmem
            · exact hsince fill hold
            · exact List.mem_singleton.mp hnew ▸ hfill

theorem flows_call (h : m.Flows fills calls portfolio before) {c : OmsCall}
    (hforeign : c.Foreign) (hsubmits : c.submits = false) :
    Flows fills calls portfolio before { m with oms := m.oms.step c } := by
  have hidles := idles_step h.atRest hsubmits hforeign
  refine ⟨hidles.atRest, ?_, h.calls, h.portfolio, ?_⟩
  · rw [hidles.fillQueue]
    exact h.queued
  · rw [hidles.executed]
    exact h.executed

theorem flows_fillLoop (rules : FlowRules fills calls portfolio requests configs)
    (h : m.Flows fills calls portfolio before) :
    Flows fills calls portfolio before { m with toEngine := m.toEngine.fillLoop } := by
  cases hcontents : m.oms.fillQueue.contents with
  | nil =>
      rw [Engine.fillLoop_of_nil hcontents]
      exact h
  | cons fill rest =>
      obtain ⟨fillQueue, hrest, hloop⟩ := Engine.fillLoop_of_cons hcontents
      have hqueued := h.queued
      rw [hcontents] at hqueued
      rw [hloop]
      refine ⟨h.atRest.of_book rfl rfl rfl fun _ _ hmem => hmem, ?_, h.calls,
        rules.processed h.portfolio (hqueued fill List.mem_cons_self), h.executed⟩
      change ∀ f ∈ fillQueue.contents, _
      rw [hrest]
      exact fun f hmem => hqueued f (List.mem_cons_of_mem fill hmem)

end StrategyManager

namespace TradingEngine

open StrategyManager

variable {n : Nat} {e : TradingEngine (n + 1)} {before : List Fill}

theorem flows_step {fills : Fill → Prop} {calls : Nat → SubmitCall → Prop}
    {portfolio : PortfolioEngine → Prop} {requests : Nat → OrderRequest → Prop}
    {configs : Nat → StrategyConfig → Prop}
    (rules : FlowRules fills calls portfolio requests configs)
    (hconfigs : ∀ (j call : Nat) (loaded : LoadedStrategy), e.strategies[j]? = some loaded →
      configs (Nat.pair j call) loaded.config)
    (h : e.toStrategyManager.Flows fills calls portfolio before) {event : TradingEvent}
    (hevent : event.Meets requests) :
    (e.step event).toStrategyManager.Flows fills calls portfolio before := by
  have hafter : ∀ m : StrategyManager (n + 1), m.Flows fills calls portfolio before →
      (e.after m).toStrategyManager.Flows fills calls portfolio before := by
    intro m hm
    obtain ⟨risk, heq⟩ := e.after_eq m
    rw [heq]
    exact hm.of_same rfl rfl rfl
  cases event with
  | tick t =>
      change (e.onTick t).toStrategyManager.Flows fills calls portfolio before
      unfold onTick
      split
      · exact h.of_same rfl rfl rfl
      · exact h
  | strategy j s =>
      simp only [step]
      split
      · exact h
      · rename_i loaded hloaded
        refine hafter _ ?_
        cases s with
        | getSnapshot call req => exact flows_getSnapshot rules h hevent
        | check call clock => exact flows_check rules h (hconfigs j call loaded hloaded) clock
        | submit call tsMs placedNs fillNs => exact flows_submit rules h _ tsMs placedNs fillNs
  | call c => exact hafter _ (flows_call h hevent.1 hevent.2)
  | fillLoop => exact flows_fillLoop rules h
  | flushAll nowNs => exact h.of_same rfl rfl rfl

theorem flows_run {fills : Fill → Prop} {calls : Nat → SubmitCall → Prop}
    {portfolio : PortfolioEngine → Prop} {requests : Nat → OrderRequest → Prop}
    {configs : Nat → StrategyConfig → Prop}
    (rules : FlowRules fills calls portfolio requests configs)
    (hconfigs : ∀ (j call : Nat) (config : StrategyConfig),
      (e.strategies.map LoadedStrategy.config)[j]? = some config → configs (Nat.pair j call) config)
    (h : e.toStrategyManager.Flows fills calls portfolio before) {events : List TradingEvent}
    (hevents : ∀ event ∈ events, event.Meets requests) :
    (Run.run step e events).toStrategyManager.Flows fills calls portfolio before := by
  induction events generalizing e with
  | nil => exact h
  | cons event events ih =>
      obtain ⟨hevent, hrest⟩ := List.forall_mem_cons.mp hevents
      refine ih ?_ (flows_step rules (fun j call loaded hloaded => ?_) h hevent) hrest
      · rw [(e.sameDelivery_step event).config]
        exact hconfigs
      · exact hconfigs j call loaded.config (by rw [List.getElem?_map, hloaded]; rfl)

section Lockout

variable {sid : Str} {traded : Nat → Bool} {i : Nat}

theorem flowRules_apart (hsid : strncpy sid (maxStrategyLen - 1) = sid) :
    FlowRules (fun fill => fill.ownedBy sid = traded fill.instrumentToken)
      (fun call c => c.req.Apart sid traded (call.unpair.1 = i))
      (PortfolioEngine.Attributed sid traded)
      (fun call req => req.Apart sid traded (call.unpair.1 = i)) (fun _ _ => True) where
  snapped := fun hreq _ _ => hreq
  passed := fun _ hcall _ => hcall
  filled := fun hcall seq tsMs fillNs =>
    (ownedBy_paperFill seq _ tsMs fillNs sid).trans (hcall.ownedBy hsid)
  processed := PortfolioEngine.attributed_processFill

theorem strategyPositions_processFill {p : PortfolioEngine} (h : p.Attributed sid traded)
    {fill : Fill} (howned : fill.ownedBy sid = false)
    (htraded : traded fill.instrumentToken = false) :
    (p.processFill fill).snapshot.strategyPositions sid = p.snapshot.strategyPositions sid := by
  have hnext := PortfolioEngine.attributed_processFill h (howned.trans htraded.symm)
  rw [PortfolioEngine.strategyPositions_of_attributed hnext,
    PortfolioEngine.strategyPositions_of_attributed h, PortfolioEngine.processFill_positions,
    Dict.select_insert_neg traded _ htraded]

/-- While the strategy holds positions with such a loss, no call of it passes and no fill is its
own. -/
theorem flowRules_lost {held : List Position} {config : StrategyConfig}
    (hloss : (held.map fun pos => pos.realizedPnl + pos.unrealizedPnl).sum <
      -config.risk.maxDailyLoss) :
    FlowRules (fun fill => fill.ownedBy sid = false ∧ traded fill.instrumentToken = false)
      (fun call c => c.req.Apart sid traded (call.unpair.1 = i) ∧ (call.unpair.1 = i →
        ∃ s, c = .snapped s ∧ s.snapshot.strategyPositions sid = held))
      (fun p => p.Attributed sid traded ∧ p.snapshot.strategyPositions sid = held)
      (fun call req => req.Apart sid traded (call.unpair.1 = i))
      (fun call scfg => call.unpair.1 = i → scfg = config) where
  snapped := by
    intro call s p hreq hportfolio hsnapshot
    exact ⟨hreq, fun _ => ⟨s, rfl, hsnapshot ▸ hportfolio.2⟩⟩
  passed := by
    intro call s scfg risk clock hconfig hcall hpass
    refine ⟨hcall.1, fun hmine => ?_⟩
    obtain ⟨s', hs, hheld⟩ := hcall.2 hmine
    obtain rfl := SubmitCall.snapped.inj hs
    have hid : s.req.strategyId = sid := by
      have hapart := hcall.1
      rw [OrderRequest.Apart, if_pos hmine] at hapart
      exact hapart.1
    refine absurd (PreTradeRiskEngine.checkValues_of_pass hpass) (checkValues_ne_pass_of_loss ?_)
    rw [PortfolioSnapshot.strategyDailyPnl, hid, hheld, hconfig hmine]
    exact hloss
  filled := by
    intro call req hcall seq tsMs fillNs
    obtain ⟨hapart, hmine⟩ := hcall
    by_cases hi : call.unpair.1 = i
    · obtain ⟨s, hs, -⟩ := hmine hi
      exact SubmitCall.noConfusion hs
    · rw [OrderRequest.Apart, if_neg hi] at hapart
      exact ⟨(ownedBy_paperFill seq req tsMs fillNs sid).trans hapart.1, hapart.2⟩
  processed := by
    intro p fill hportfolio hfill
    exact ⟨PortfolioEngine.attributed_processFill hportfolio.1 (hfill.1.trans hfill.2.symm),
      (strategyPositions_processFill hportfolio.1 hfill.1 hfill.2).trans hportfolio.2⟩

def executedFor (e : TradingEngine (n + 1)) (sid : Str) : List Fill :=
  e.oms.executed.filter fun fill => fill.ownedBy sid

/-- No call of the strategy at `i` is under way, and none of its fills waits. -/
structure Waits (e : TradingEngine (n + 1)) (sid : Str) (i : Nat) : Prop where
  calls : ∀ call, call.unpair.1 = i → e.calls.lookup call = none
  queued : ∀ fill ∈ e.oms.fillQueue.contents, fill.ownedBy sid = false

/-- Once a strategy has lost more than its limit for a day, and nothing of it is on the way, no
order of it is executed any more, whatever it requests, whatever the prices and the other
strategies do and however often the day ends: it keeps the positions that it has. -/
theorem loss_lockout_final {id : Str} {strategies : List LoadedStrategy} {nowNs : Nat}
    {loaded : LoadedStrategy} (hloaded : strategies[i]? = some loaded)
    {earlier later : List TradingEvent}
    (hevents : ∀ event ∈ earlier ++ later,
      event.Apart (strncpy id (maxStrategyLen - 1)) traded i)
    (hwaits : (Run.run step (init (n + 1) true strategies nowNs) earlier).Waits
      (strncpy id (maxStrategyLen - 1)) i)
    (hloss : (Run.run step (init (n + 1) true strategies nowNs)
      earlier).portfolio.snapshot.strategyDailyPnl (strncpy id (maxStrategyLen - 1)) <
        -loaded.config.risk.maxDailyLoss) :
    let e := Run.run step (init (n + 1) true strategies nowNs) earlier
    let e' := Run.run step e later
    e'.executedFor (strncpy id (maxStrategyLen - 1)) =
        e.executedFor (strncpy id (maxStrategyLen - 1)) ∧
      e'.portfolio.snapshot.strategyPositions (strncpy id (maxStrategyLen - 1)) =
        e.portfolio.snapshot.strategyPositions (strncpy id (maxStrategyLen - 1)) := by
  intro e e'
  have hsid := strncpy_strncpy id (maxStrategyLen - 1)
  obtain ⟨hearlier, hlater⟩ := List.forall_mem_append.mp hevents
  have hconfig : (e.strategies.map LoadedStrategy.config) =
      strategies.map LoadedStrategy.config :=
    Run.run_invariant (fun e : TradingEngine (n + 1) =>
      e.strategies.map LoadedStrategy.config = strategies.map LoadedStrategy.config)
      (fun e event h => (e.sameDelivery_step event).config.trans h) rfl earlier
  have hempty : PortfolioEngine.init.Attributed (strncpy id (maxStrategyLen - 1)) traded := by
    intro token pos hlookup
    cases hlookup
  have hinit : (init (n + 1) true strategies nowNs).toStrategyManager.Flows
      (fun fill => fill.ownedBy (strncpy id (maxStrategyLen - 1)) = traded fill.instrumentToken)
      (fun call c => c.req.Apart (strncpy id (maxStrategyLen - 1)) traded (call.unpair.1 = i))
      (PortfolioEngine.Attributed (strncpy id (maxStrategyLen - 1)) traded) [] :=
    ⟨atRest_init (n + 1), List.forall_mem_nil _, fun _ _ hlookup => (by cases hlookup), hempty,
      [], rfl, List.forall_mem_nil _⟩
  have hapart := flows_run (flowRules_apart hsid) (fun _ _ _ _ => trivial) hinit hearlier
  have hrules := @flowRules_lost (strncpy id (maxStrategyLen - 1)) traded i _ _ hloss
  have hlost := flows_run hrules ?_
    ⟨hapart.atRest, fun fill hmem => ⟨hwaits.queued fill hmem,
        (hapart.queued fill hmem).symm.trans (hwaits.queued fill hmem)⟩,
      fun call c hc => ⟨hapart.calls call c hc, fun hi => by
        rw [hwaits.calls call hi] at hc
        cases hc⟩,
      ⟨hapart.portfolio, rfl⟩, [], (List.append_nil _).symm, List.forall_mem_nil _⟩ hlater
  · obtain ⟨since, hexecuted, hsince⟩ := hlost.executed
    refine ⟨?_, hlost.portfolio.2⟩
    have hnone : since.filter (fun fill => fill.ownedBy (strncpy id (maxStrategyLen - 1))) = [] :=
      List.filter_eq_nil_iff.mpr fun fill hmem => by simp [(hsince fill hmem).1]
    change e'.oms.executed.filter _ = _
    rw [hexecuted, List.filter_append, hnone, List.append_nil]
    rfl
  · intro j call config hj hi
    rw [Nat.unpair_pair] at hi
    change j = i at hi
    rw [hi, hconfig, List.getElem?_map, hloaded] at hj
    exact (Option.some.inj hj).symm

def limitOrder (side : Side) (quantity : Int) (limitPrice : ℚ) : OrderRequest where
  instrumentToken := 1
  side := side
  quantity := quantity
  limitPrice := limitPrice
  strategyId := ['S']

def ruin : List TradingEvent :=
  place 0 (limitOrder .buy 10 1000) ++ [.fillLoop] ++ place 1 (limitOrder .sell 10 400) ++
    [.fillLoop]

def nextDay : List TradingEvent :=
  .call .resetForEod :: place 2 (limitOrder .buy 1 400) ++ [.fillLoop]

theorem loss_lockout_final_nextDay :
    ((Run.run step (Run.run step (init 2 true [trader] 0) ruin) nextDay).executedFor
      ['S']).length = 2 := by
  have hlocked := @loss_lockout_final 1 (fun token => token == 1) 0 ['S'] [trader] 0 trader rfl
    ruin nextDay (by decide +kernel) ⟨?_, ?_⟩ (by decide +kernel)
  · exact (congrArg List.length hlocked.1).trans (by decide +kernel)
  · intro call _
    have hnone : (Run.run step (init 2 true [trader] 0) ruin).calls.entries = [] :=
      List.length_eq_zero_iff.mp (by decide +kernel)
    change List.dlookup call (Run.run step (init 2 true [trader] 0) ruin).calls.entries = none
    rw [hnone, List.dlookup_nil]
  · decide +kernel

end Lockout

end TradingEngine

end QuantForge
