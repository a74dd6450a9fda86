import QuantForge.Engine.FillPath
import QuantForge.Oms.Exposure
import QuantForge.Risk.PreTradeRisk

/-! `submit_order` of `strategy/strategy_manager.cpp`. It takes a snapshot of the
portfolio, checks the request against it and submits the request, and everything else
may run between these steps. -/
namespace QuantForge

open Library

/-- A request and the snapshot that it will be checked against. `missed` is what was in
flight on the instrument and side when the snapshot was taken, `since` what had passed
by then; nothing but the record of the passes reads them. -/
structure SnappedRequest where
  req : OrderRequest
  snapshot : PortfolioSnapshot
  missed : Int
  since : Int

/-- A call of `submit_order` after its first step and after its second. -/
inductive SubmitCall where
  | snapped (s : SnappedRequest)
  | passed (req : OrderRequest)

/-- A request that passed, and what its snapshot did not contain. -/
structure RiskPass where
  req : OrderRequest
  unseen : Int

/-- `passes` lists the requests that passed, the latest first; no operation reads it. -/
structure StrategyManager (poolSize : Nat) extends Engine poolSize where
  risk : PreTradeRiskEngine
  calls : Dict Nat SubmitCall := ∅
  passes : List RiskPass := []

inductive StrategyEvent where
  | getSnapshot (call : Nat) (req : OrderRequest)
  | check (call : Nat) (clock : RiskClock)
  | submit (call : Nat) (tsMs placedNs fillNs : Nat)
  | engine (event : EngineEvent)
  | updatePosition (token : Nat) (price : ℚ)
  | updatePrice (token : Nat) (price : ℚ)
  | engageGlobalKillSwitch
  | disengageGlobalKillSwitch

def SubmitCall.amountOn (token : Nat) (side : Side) : SubmitCall → Int
  | .snapped _ => 0
  | .passed req => req.amountOn token side

namespace StrategyManager

variable {poolSize : Nat}

section Exposure

variable (m : StrategyManager poolSize) (token : Nat) (side : Side)

def passedQty : Int := (m.passes.map fun pass => pass.req.amountOn token side).sum

/-- What passed and may still reach the position. -/
def inFlight : Int :=
  (m.calls.sumBy fun _ call => call.amountOn token side) + m.oms.inFlight token side

/-- The largest quantity that a passing check did not see. -/
def overlap : Int :=
  ((m.passes.filter fun pass => pass.req.instrumentToken = token).map RiskPass.unseen).foldr
    max 0

/-- What the snapshot of a request does not contain by now. -/
def unseen (s : SnappedRequest) : Int :=
  s.missed + (m.passedQty s.req.instrumentToken s.req.side - s.since)

end Exposure

section Step

variable (m : StrategyManager poolSize)

def snap (req : OrderRequest) : SnappedRequest where
  req := req
  snapshot := m.portfolio.snapshot
  missed := m.inFlight req.instrumentToken req.side
  since := m.passedQty req.instrumentToken req.side

def getSnapshot (call : Nat) (req : OrderRequest) : StrategyManager poolSize :=
  match m.calls.lookup call with
  | some _ => m
  | none => { m with calls := m.calls.insert call (.snapped (m.snap req)) }

def recordPass (call : Nat) (s : SnappedRequest) (risk : PreTradeRiskEngine) :
    StrategyManager poolSize :=
  { m with
    risk := risk
    calls := m.calls.insert call (.passed s.req)
    passes := ⟨s.req, m.unseen s⟩ :: m.passes }

def check (scfg : StrategyConfig) (call : Nat) (clock : RiskClock) : StrategyManager poolSize :=
  match m.calls.lookup call with
  | some (.snapped s) =>
      let checked := m.risk.check s.req scfg s.snapshot clock
      if checked.1 = .pass then m.recordPass call s checked.2
      else { m with risk := checked.2, calls := m.calls.erase call }
  | _ => m

def submit (call tsMs placedNs fillNs : Nat) : StrategyManager poolSize :=
  match m.calls.lookup call with
  | some (.passed req) =>
      { m with
        oms := (m.oms.submit req tsMs placedNs fillNs).2
        calls := m.calls.erase call }
  | _ => m

def step (scfg : StrategyConfig) (m : StrategyManager poolSize) :
    StrategyEvent → StrategyManager poolSize
  | .getSnapshot call req => m.getSnapshot call req
  | .check call clock => m.check scfg call clock
  | .submit call tsMs placedNs fillNs => m.submit call tsMs placedNs fillNs
  | .engine event => { m with toEngine := m.toEngine.step event }
  | .updatePosition token price => { m with portfolio := m.portfolio.updatePrice token price }
  | .updatePrice token price => { m with risk := m.risk.updatePrice token price }
  | .engageGlobalKillSwitch => { m with risk := m.risk.engageGlobalKillSwitch }
  | .disengageGlobalKillSwitch => { m with risk := m.risk.disengageGlobalKillSwitch }

end Step

section Calls

variable {m : StrategyManager poolSize} {scfg : StrategyConfig} {call : Nat}

theorem getSnapshot_of_none (hlookup : m.calls.lookup call = none) (req : OrderRequest) :
    m.getSnapshot call req =
      { m with calls := m.calls.insert call (.snapped (m.snap req)) } := by
  rw [getSnapshot, hlookup]

theorem check_of_pass {s : SnappedRequest} {clock : RiskClock}
    (hlookup : m.calls.lookup call = some (.snapped s))
    (hpass : (m.risk.check s.req scfg s.snapshot clock).1 = .pass) :
    m.check scfg call clock =
      m.recordPass call s (m.risk.check s.req scfg s.snapshot clock).2 := by
  simp only [check, hlookup]
  exact if_pos hpass

theorem check_of_reject {s : SnappedRequest} {clock : RiskClock}
    (hlookup : m.calls.lookup call = some (.snapped s))
    (hreject : (m.risk.check s.req scfg s.snapshot clock).1 ≠ .pass) :
    m.check scfg call clock =
      { m with
        risk := (m.risk.check s.req scfg s.snapshot clock).2
        calls := m.calls.erase call } := by
  simp only [check, hlookup]
  exact if_neg hreject

end Calls

end StrategyManager

end QuantForge
