import QuantForge.Main.PriceCache

/-! The kill switches against the calls of `submit_order` that are under way: the global switch
of the risk engine, which a check reads once at its start, and `halt_strategy`, which stops the
thread of a strategy and tells the risk engine nothing. -/
namespace QuantForge

open Library

/-- Orders reach the order management system through `submit_order` only. -/
def TradingEvent.submitsDirectly : TradingEvent → Bool
  | .call c => c.submits
  | _ => false

/-- `halted` lists the ids that `halt_strategy` returned for, the latest first; no operation
reads it. -/
structure ControlledEngine (poolSize : Nat) extends TradingEngine poolSize where
  halted : List Str := []

/-- The orders that `on_kill_signal` places are calls of the strategy before its halt. -/
inductive ControlEvent where
  | trading (event : TradingEvent) (indirect : event.submitsDirectly = false)
  | engageGlobalKillSwitch
  | disengageGlobalKillSwitch
  | haltStrategy (id : Str)

def haltFirst (id : Str) : List LoadedStrategy → List LoadedStrategy
  | [] => []
  | s :: rest =>
      if s.config.id = id then { s with running := false } :: rest else s :: haltFirst id rest

def OrderRequest.Carries (req : OrderRequest) (id : Str) : Prop :=
  strncpy req.strategyId (maxStrategyLen - 1) = strncpy id (maxStrategyLen - 1)

instance (req : OrderRequest) (id : Str) : Decidable (req.Carries id) :=
  inferInstanceAs (Decidable (_ = _))

def SubmitCall.passedReq : SubmitCall → Option OrderRequest
  | .snapped _ => none
  | .passed req => some req

variable {poolSize : Nat}

def TradingEngine.checkedReq (e : TradingEngine poolSize) : TradingEvent → Option OrderRequest
  | .strategy i (.check call _) =>
      match e.calls.lookup (Nat.pair i call) with
      | some (.snapped s) => some s.req
      | _ => none
  | _ => none

def TradingEngine.added (e : TradingEngine poolSize) (event : TradingEvent) :
    Option OrderRequest :=
  match e.omsCall event with
  | some (.submit req _ _ _) => if e.oms.pool.freeList = [] then none else some req
  | _ => none

namespace StrategyManager

variable {m : StrategyManager poolSize} {scfg : StrategyConfig} {call id : Nat}
  {req : OrderRequest}

theorem passed_getSnapshot {taken : OrderRequest}
    (h : (m.getSnapshot call taken).calls.lookup id = some (.passed req)) :
    m.calls.lookup id = some (.passed req) := by
  unfold getSnapshot at h
  split at h
  · exact h
  · obtain ⟨-, hcall⟩ | ⟨-, hold⟩ := Dict.lookup_insert_eq_some.mp h
    · exact absurd hcall SubmitCall.noConfusion
    · exact hold

theorem passed_submit {tsMs placedNs fillNs : Nat}
    (h : (m.submit call tsMs placedNs fillNs).calls.lookup id = some (.passed req)) :
    m.calls.lookup id = some (.passed req) := by
  unfold submit at h
  split at h
  · exact (Dict.lookup_erase_eq_some.mp h).2
  · exact h

theorem passed_check {clock : RiskClock}
    (h : (m.check scfg call clock).calls.lookup id = some (.passed req)) :
    m.calls.lookup id = some (.passed req) ∨
      ∃ s, m.calls.lookup call = some (.snapped s) ∧ s.req = req ∧
        m.risk.globalKillSwitch = false := by
  cases hlookup : m.calls.lookup call with
  | none =>
      simp only [check, hlookup] at h
      exact .inl h
  | some old =>
      cases old with
      | passed _ =>
          simp only [check, hlookup] at h
          exact .inl h
      | snapped s =>
          by_cases hpass : (m.risk.check s.req scfg s.snapshot clock).1 = .pass
          · rw [check_of_pass hlookup hpass] at h
            obtain ⟨-, hcall⟩ | ⟨-, hold⟩ := Dict.lookup_insert_eq_some.mp h
            · refine .inr ⟨s, rfl, (SubmitCall.passed.inj hcall).symm, ?_⟩
              exact PreTradeRiskEngine.globalKillSwitch_of_pass hpass
            · exact .inl hold
          · rw [check_of_reject hlookup hpass] at h
            exact .inl (Dict.lookup_erase_eq_some.mp h).2

end StrategyManager

namespace TradingEngine

variable {e : TradingEngine poolSize}

private theorem globalKillSwitch_foldl (fills : List Fill) (e : TradingEngine poolSize) :
    (fills.foldl fillCallback e).risk.globalKillSwitch = e.risk.globalKillSwitch := by
  induction fills generalizing e with
  | nil => rfl
  | cons fill fills ih => exact ih (e.fillCallback fill)

theorem globalKillSwitch_after (e : TradingEngine poolSize) (m : StrategyManager poolSize) :
    (e.after m).risk.globalKillSwitch = m.risk.globalKillSwitch :=
  globalKillSwitch_foldl _ _

theorem calls_after (e : TradingEngine poolSize) (m : StrategyManager poolSize) :
    (e.after m).calls = m.calls := by
  obtain ⟨risk, heq⟩ := e.after_eq m
  rw [heq]

theorem globalKillSwitch_step (e : TradingEngine poolSize) (event : TradingEvent) :
    (e.step event).risk.globalKillSwitch = e.risk.globalKillSwitch := by
  cases event with
  | tick t =>
      change (e.onTick t).risk.globalKillSwitch = _
      unfold onTick
      split <;> rfl
  | strategy i s =>
      simp only [step]
      split
      · rfl
      · rw [globalKillSwitch_after]
        cases s with
        | getSnapshot call req =>
            simp only [SubmitStep.event, StrategyManager.step, StrategyManager.getSnapshot]
            split <;> rfl
        | check call clock =>
            simp only [SubmitStep.event, StrategyManager.step, StrategyManager.check]
            split
            · split <;> exact PreTradeRiskEngine.globalKillSwitch_check
            · rfl
        | submit call tsMs placedNs fillNs =>
            simp only [SubmitStep.event, StrategyManager.step, StrategyManager.submit]
            split <;> rfl
  | call c => exact e.globalKillSwitch_after _
  | fillLoop => rfl
  | flushAll nowNs => rfl

theorem passed_step {event : TradingEvent} {id : Nat} {req : OrderRequest}
    (h : (e.step event).calls.lookup id = some (.passed req)) :
    e.calls.lookup id = some (.passed req) ∨
      ∃ i call clock s, event = .strategy i (.check call clock) ∧
        e.calls.lookup (Nat.pair i call) = some (.snapped s) ∧ s.req = req ∧
        e.risk.globalKillSwitch = false := by
  cases event with
  | tick t =>
      left
      change (e.onTick t).calls.lookup id = _ at h
      unfold onTick at h
      split at h <;> exact h
  | strategy i s =>
      simp only [step] at h
      split at h
      · exact .inl h
      · rw [calls_after] at h
        cases s with
        | getSnapshot call taken => exact .inl (StrategyManager.passed_getSnapshot h)
        | check call clock =>
            obtain hold | ⟨s, hsnapped, hreq, hoff⟩ := StrategyManager.passed_check h
            · exact .inl hold
            · exact .inr ⟨i, call, clock, s, rfl, hsnapped, hreq, hoff⟩
        | submit call tsMs placedNs fillNs => exact .inl (StrategyManager.passed_submit h)
  | call c =>
      change (e.after _).calls.lookup id = _ at h
      rw [calls_after] at h
      exact .inl h
  | fillLoop => exact .inl h
  | flushAll nowNs => exact .inl h

theorem passed_of_added {event : TradingEvent} (hindirect : event.submitsDirectly = false)
    {req : OrderRequest} (h : e.added event = some req) :
    ∃ id, e.calls.lookup id = some (.passed req) := by
  unfold added at h
  split at h
  · rename_i hcall
    split at h
    · exact absurd h (Option.some_ne_none req).symm
    · obtain rfl := Option.some.inj h
      unfold omsCall at hcall
      split at hcall
      · split at hcall
        · rename_i hpassed
          obtain rfl := (OmsCall.submit.inj (Option.some.inj hcall)).1
          exact ⟨_, hpassed⟩
        · exact absurd hcall (Option.some_ne_none _).symm
      · obtain rfl := Option.some.inj hcall
        exact absurd hindirect Bool.noConfusion
      · exact absurd hcall (Option.some_ne_none _).symm
  · exact absurd h (Option.some_ne_none req).symm

theorem book_step (e : TradingEngine poolSize) (event : TradingEvent) :
    (e.step event).oms.book = ((e.omsCall event).elim e.oms e.oms.step).book := by
  have hacts : ∀ {m}, e.Acts event m →
      (e.step event).oms.book = ((e.omsCall event).elim e.oms e.oms.step).book := by
    intro m hacts
    obtain ⟨risk, heq⟩ := e.after_eq m
    rw [hacts.step, heq, ← hacts.oms]
  cases event with
  | tick t =>
      change (e.onTick t).oms.book = _
      unfold onTick
      split <;> rfl
  | strategy i s => exact hacts (acts_strategy e i s).choose_spec
  | call c => exact hacts (acts_call e c).choose_spec
  | fillLoop =>
      change e.toEngine.fillLoop.oms.book = _
      unfold Engine.fillLoop
      split <;> rfl
  | flushAll nowNs => rfl

/-- An event that adds no order leaves nothing in `orders_` that was not there. -/
theorem orders_of_added_none {event : TradingEvent} (h : e.added event = none) {oid : Str}
    (hstored : (e.step event).oms.orders.lookup oid ≠ none) :
    e.oms.orders.lookup oid ≠ none := by
  have hkept : OrderBook.KeptByRelease fun book : OrderBook poolSize =>
      book.orders.lookup oid ≠ none → e.oms.orders.lookup oid ≠ none := by
    intro book oid' po hbook _ hafter
    obtain ⟨po', hlookup⟩ := Option.ne_none_iff_exists'.mp hafter
    exact hbook (by rw [(Dict.lookup_erase_eq_some.mp hlookup).2]; exact Option.some_ne_none _)
  change (e.step event).oms.book.orders.lookup oid ≠ none at hstored
  rw [book_step] at hstored
  unfold added at h
  cases hcall : e.omsCall event with
  | none =>
      rw [hcall] at hstored
      exact hstored
  | some c =>
      rw [hcall] at hstored h
      cases hsubmits : c.submits with
      | false => exact hkept.step (fun hold => hold) hsubmits hstored
      | true =>
          cases c with
          | submit req tsMs placedNs fillNs =>
              have hfull : e.oms.pool.freeList = [] := by
                by_contra hfree
                simp [hfree] at h
              rw [Option.elim_some, OrderManagementSystem.step,
                OrderManagementSystem.submit_of_nil _ _ _ _ _ hfull] at hstored
              exact hstored
          | _ => exact absurd hsubmits Bool.noConfusion

end TradingEngine

namespace ControlledEngine

section Definitions

variable (e : ControlledEngine poolSize)

def step (e : ControlledEngine poolSize) : ControlEvent → ControlledEngine poolSize
  | .trading event _ => { e with toTradingEngine := e.toTradingEngine.step event }
  | .engageGlobalKillSwitch => { e with risk := e.risk.engageGlobalKillSwitch }
  | .disengageGlobalKillSwitch => { e with risk := e.risk.disengageGlobalKillSwitch }
  | .haltStrategy id => { e with strategies := haltFirst id e.strategies, halted := id :: e.halted }

def added : ControlEvent → Option OrderRequest
  | .trading event _ => e.toTradingEngine.added event
  | _ => none

/-- An order is only added while the switch is off, and for a strategy that was not halted. -/
def Final (event : ControlEvent) : Prop :=
  ∀ req ∈ e.added event, e.risk.globalKillSwitch = false ∧ ∀ id ∈ e.halted, ¬req.Carries id

/-- No call is between its check and its submit when the switch is engaged, none that carries
the id when its strategy is halted, and none that carries it is checked afterwards. -/
def Quiet : ControlEvent → Prop
  | .engageGlobalKillSwitch => ∀ call ∈ e.calls.values, call.passedReq = none
  | .haltStrategy id => ∀ call ∈ e.calls.values, ∀ req ∈ call.passedReq, ¬req.Carries id
  | .trading event _ => ∀ req ∈ e.checkedReq event,
      e.risk.globalKillSwitch = true ∨ ∀ id ∈ e.halted, ¬req.Carries id
  | .disengageGlobalKillSwitch => True

instance decidableQuiet : ∀ event, Decidable (e.Quiet event)
  | .engageGlobalKillSwitch => inferInstanceAs (Decidable (∀ call ∈ e.calls.values, _))
  | .haltStrategy _ => inferInstanceAs (Decidable (∀ call ∈ e.calls.values, _))
  | .trading event _ => inferInstanceAs (Decidable (∀ req ∈ e.checkedReq event, _))
  | .disengageGlobalKillSwitch => inferInstanceAs (Decidable True)

def Settled : Prop :=
  ∀ id req, e.calls.lookup id = some (.passed req) →
    e.risk.globalKillSwitch = false ∧ ∀ id ∈ e.halted, ¬req.Carries id

end Definitions

variable {e : ControlledEngine poolSize}

theorem settled_trading (h : e.Settled) {event : TradingEvent}
    (hindirect : event.submitsDirectly = false) (hquiet : e.Quiet (.trading event hindirect)) :
    (e.step (.trading event hindirect)).Settled := by
  intro id req hpassed
  have hswitch : (e.step (.trading event hindirect)).risk.globalKillSwitch =
      e.risk.globalKillSwitch := e.toTradingEngine.globalKillSwitch_step event
  rw [hswitch]
  obtain hold | ⟨i, call, clock, s, rfl, hsnapped, rfl, hoff⟩ := TradingEngine.passed_step hpassed
  · exact h id req hold
  · refine ⟨hoff, ?_⟩
    have hchecked : e.checkedReq (.strategy i (.check call clock)) = some s.req := by
      simp only [TradingEngine.checkedReq, hsnapped]
    obtain hon | hfree := hquiet s.req hchecked
    · rw [hoff] at hon
      exact absurd hon Bool.noConfusion
    · exact hfree

theorem settled_step (h : e.Settled) (event : ControlEvent) (hquiet : e.Quiet event) :
    (e.step event).Settled := by
  cases event with
  | trading event hindirect => exact settled_trading h hindirect hquiet
  | engageGlobalKillSwitch =>
      intro id req hpassed
      have hnone := hquiet _ (Dict.mem_values.mpr ⟨id, hpassed⟩)
      exact absurd hnone (Option.some_ne_none req)
  | disengageGlobalKillSwitch => exact fun id req hpassed => ⟨rfl, (h id req hpassed).2⟩
  | haltStrategy halted =>
      intro id req hpassed
      obtain ⟨hoff, hfree⟩ := h id req hpassed
      refine ⟨hoff, List.forall_mem_cons.mpr ⟨?_, hfree⟩⟩
      exact hquiet _ (Dict.mem_values.mpr ⟨id, hpassed⟩) req rfl

theorem passed_of_added {event : ControlEvent} {req : OrderRequest}
    (h : e.added event = some req) : ∃ id, e.calls.lookup id = some (.passed req) := by
  cases event with
  | trading event hindirect => exact TradingEngine.passed_of_added hindirect h
  | _ => exact absurd h (Option.some_ne_none req).symm

theorem final_of_settled (h : e.Settled) (event : ControlEvent) : e.Final event := by
  intro req hadded
  obtain ⟨id, hpassed⟩ := passed_of_added hadded
  exact h id req hpassed

def init (poolSize : Nat) (paperMode : Bool) (strategies : List LoadedStrategy) (nowNs : Nat) :
    ControlledEngine poolSize where
  toTradingEngine := TradingEngine.init poolSize paperMode strategies nowNs

theorem settled_init (paperMode : Bool) (strategies : List LoadedStrategy) (nowNs : Nat) :
    (init poolSize paperMode strategies nowNs).Settled := by
  intro id req hpassed
  simp [init, TradingEngine.init] at hpassed

/-- In every run in which no call is overtaken by a kill switch, nothing is added after one. -/
theorem final_of_quiet (paperMode : Bool) (strategies : List LoadedStrategy) (nowNs : Nat)
    {events : List ControlEvent}
    (h : Run.Along step Quiet (init poolSize paperMode strategies nowNs) events) :
    Run.Along step Final (init poolSize paperMode strategies nowNs) events :=
  Run.along_of_along Settled
    (fun _ event hsettled hquiet => ⟨settled_step hsettled event hquiet,
      final_of_settled hsettled event⟩)
    (settled_init paperMode strategies nowNs) h

section OneOrder

open TradingEngine (trader oneShare)

def checkOne (call : Nat) : List ControlEvent :=
  [.trading (.strategy 0 (.getSnapshot call (oneShare .limit 101))) rfl,
    .trading (.strategy 0 (.check call ⟨⟨5, 0, 3⟩, 0⟩)) rfl]

def submitOne (call : Nat) : ControlEvent := .trading (.strategy 0 (.submit call 0 0 0)) rfl

theorem final_of_quiet_between_calls :
    Run.Along step Final (init 1 true [trader] 0) (checkOne 0 ++
      [submitOne 0, .haltStrategy ['T'], .engageGlobalKillSwitch, .disengageGlobalKillSwitch] ++
        checkOne 1 ++ [submitOne 1]) := by
  refine final_of_quiet true [trader] 0 ?_
  decide +kernel

/-- A call that has passed is submitted after the switch is engaged; a strategy that was halted
places an order as before. -/
theorem order_added_after_kill :
    let engaged := Run.run step (init 1 true [trader] 0) (checkOne 0 ++ [.engageGlobalKillSwitch])
    let halted := Run.run step (init 1 true [trader] 0) (.haltStrategy ['S'] :: checkOne 0)
    (engaged.risk.globalKillSwitch = true ∧
        engaged.added (submitOne 0) = some (oneShare .limit 101) ∧ ¬engaged.Final (submitOne 0)) ∧
      halted.halted = [['S']] ∧ (oneShare .limit 101).Carries ['S'] ∧
        halted.added (submitOne 0) = some (oneShare .limit 101) ∧ ¬halted.Final (submitOne 0) := by
  have hengaged : (Run.run step (init 1 true [trader] 0)
      (checkOne 0 ++ [.engageGlobalKillSwitch])).risk.globalKillSwitch = true := by
    decide +kernel
  have hadded : (Run.run step (init 1 true [trader] 0)
      (checkOne 0 ++ [.engageGlobalKillSwitch])).added (submitOne 0) =
        some (oneShare .limit 101) := by
    decide +kernel
  have hhalted : (Run.run step (init 1 true [trader] 0)
      (.haltStrategy ['S'] :: checkOne 0)).halted = [['S']] := by
    decide +kernel
  have hadded' : (Run.run step (init 1 true [trader] 0)
      (.haltStrategy ['S'] :: checkOne 0)).added (submitOne 0) = some (oneShare .limit 101) := by
    decide +kernel
  refine ⟨⟨hengaged, hadded, fun h => ?_⟩, hhalted, by decide, hadded', fun h => ?_⟩
  · exact absurd ((h _ hadded).1.symm.trans hengaged) Bool.noConfusion
  · refine (h _ hadded').2 ['S'] ?_ (by decide)
    rw [hhalted]
    exact List.mem_singleton_self _

end OneOrder

end ControlledEngine

end QuantForge
