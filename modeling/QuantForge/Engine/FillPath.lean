import QuantForge.Oms.SlotPartition
import QuantForge.Portfolio.PortfolioEngine

/-! From the order management system through the fill queue to the portfolio. What was
credited to orders is in the positions or still in the queue, until a fill is credited
while the queue is full: the push is refused and nobody else processes the fill. -/
namespace QuantForge

open Library

def Fill.qtyFor (fill : Fill) (token : Nat) : Int :=
  if token = fill.instrumentToken then fill.qtyDelta else 0

def creditFor (token : Nat) (credit : Order × Int) : Int :=
  if token = credit.1.instrumentToken then credit.1.side.signed credit.2 else 0

def OmsEffect.ofFill : OmsEffect → Bool
  | .credited _ _ => true
  | .pushed _ _ => true
  | .fillCallback _ => true
  | _ => false

def OmsEffect.emittedFill : OmsEffect → Option Fill
  | .fillCallback fill => some fill
  | _ => none

namespace OrderManagementSystem

variable {poolSize : Nat} (oms : OrderManagementSystem poolSize)

def creditedQty (token : Nat) : Int := (oms.credits.map (creditFor token)).sum

def queuedQty (token : Nat) : Int :=
  (oms.fillQueue.contents.map fun fill => fill.qtyFor token).sum

def fillFlow : List (Order × Int) × FillQueue := (oms.credits, oms.fillQueue)

/-- The effects of fills and the fill queue: all that a fill leaves behind outside its order. -/
def fillTrace : List OmsEffect × FillQueue :=
  (oms.trace.filter OmsEffect.ofFill, oms.fillQueue)

def emitted : List Fill := oms.trace.filterMap OmsEffect.emittedFill

def CreditsFill : OmsCall → Prop
  | .onFill report _ => oms.Admits report ∧ (oms.lookupFill report.exchangeOid).isSome = true
  | .submit req tsMs _ _ => oms.paperMode = true ∧ oms.pool.freeList ≠ [] ∧
      oms.Admits (paperReport req (orderId tsMs oms.seq))
  | _ => False

def creditedStrategy : OmsCall → Str
  | .onFill report _ =>
      match oms.lookupFill report.exchangeOid with
      | some (_, po) => (oms.slot po).order.strategyId
      | none => []
  | .submit req _ _ _ => strncpy req.strategyId (maxStrategyLen - 1)
  | _ => []

instance : DecidablePred oms.CreditsFill
  | .onFill _ _ => inferInstanceAs (Decidable (_ ∧ _))
  | .submit _ _ _ _ => inferInstanceAs (Decidable (_ ∧ _ ∧ _))
  | .onOrderAck _ _ | .onReject _ _ | .placementFailed _ _ | .cancel _ | .cancelAllOpen
  | .resetForEod => inferInstanceAs (Decidable False)

theorem credits_eq_fillTrace : oms.credits = oms.fillTrace.1.filterMap OmsEffect.creditOf := by
  rw [fillTrace, List.filterMap_filter]
  refine List.filterMap_congr fun effect _ => ?_
  cases effect <;> rfl

theorem fillFlow_eq_fillTrace :
    oms.fillFlow = (oms.fillTrace.1.filterMap OmsEffect.creditOf, oms.fillTrace.2) :=
  Prod.ext oms.credits_eq_fillTrace rfl

theorem emitted_eq_fillTrace :
    oms.emitted = oms.fillTrace.1.filterMap OmsEffect.emittedFill := by
  rw [fillTrace, List.filterMap_filter]
  refine List.filterMap_congr fun effect _ => ?_
  cases effect <;> rfl

section Flow

variable (nowNs : Nat) (report : FillReport)

theorem fillTrace_onOrderAck (exchangeOid internalOid : Str) :
    (oms.onOrderAck exchangeOid internalOid).fillTrace = oms.fillTrace := by
  unfold onOrderAck
  split <;> rfl

theorem fillTrace_onReject (exchangeOid reason : Str) :
    (oms.onReject exchangeOid reason).fillTrace = oms.fillTrace := by
  cases hlookup : oms.orders.lookup (oms.rejectTarget exchangeOid) with
  | none =>
      rw [onReject_of_none oms reason hlookup]
      rfl
  | some po =>
      rw [onReject_of_some oms reason hlookup]
      rfl

theorem fillTrace_dropOrder (oid : Str) : (oms.dropOrder oid).fillTrace = oms.fillTrace := by
  unfold dropOrder
  split <;> rfl

theorem fillTrace_cancel (oid : Str) : (oms.cancel oid).2.fillTrace = oms.fillTrace := by
  obtain heq | ⟨exchangeOid, heq⟩ := oms.cancel_eq oid
  · rw [heq]
  · rw [heq]
    rfl

theorem fillTrace_onFill_of_not_credited {report : FillReport}
    (h : ¬oms.CreditsFill (.onFill report nowNs)) :
    (oms.onFill report nowNs).fillTrace = oms.fillTrace := by
  by_cases hadmits : oms.Admits report
  · rw [onFill_of_admits oms nowNs hadmits]
    cases hfound : oms.lookupFill report.exchangeOid with
    | none =>
        rw [deliverFill_of_none _ nowNs (by exact hfound)]
        rfl
    | some found => exact absurd ⟨hadmits, by simp [hfound]⟩ h
  · rw [onFill_of_not_admits oms nowNs hadmits]
    rfl

theorem fillTrace_deliverFill {internalOid : Str} {po : Fin poolSize}
    (h : oms.lookupFill report.exchangeOid = some (internalOid, po)) :
    let fill := (oms.slot po).order.buildFill internalOid report nowNs
    (oms.deliverFill report nowNs).fillTrace =
      (.fillCallback fill :: .pushed fill (oms.fillQueue.push fill).1 ::
        .credited (oms.slot po).order report.quantity :: oms.fillTrace.1,
        (oms.fillQueue.push fill).2) := by
  refine Prod.ext ?_ (fillQueue_deliverFill oms nowNs h)
  rw [fillTrace, deliverFill_of_some oms nowNs h, trace_record, trace_pushFill, trace_applyFill,
    fillQueue_applyFill]
  split <;> rfl

theorem fillTrace_onFill_of_credited {report : FillReport}
    (h : oms.CreditsFill (.onFill report nowNs)) :
    ∃ internalOid po, oms.lookupFill report.exchangeOid = some (internalOid, po) ∧
      let fill := (oms.slot po).order.buildFill internalOid report nowNs
      (oms.onFill report nowNs).fillTrace =
        (.fillCallback fill :: .pushed fill (oms.fillQueue.push fill).1 ::
          .credited (oms.slot po).order report.quantity :: oms.fillTrace.1,
          (oms.fillQueue.push fill).2) := by
  obtain ⟨hadmits, hfound⟩ := h
  obtain ⟨⟨internalOid, po⟩, hfound⟩ := Option.isSome_iff_exists.mp hfound
  refine ⟨internalOid, po, hfound, ?_⟩
  rw [onFill_of_admits oms nowNs hadmits]
  exact fillTrace_deliverFill _ nowNs report (by exact hfound)

section Submit

variable (po : Fin poolSize) (rest : List (Fin poolSize)) (req : OrderRequest)
  (tsMs placedNs fillNs : Nat)

theorem fillTrace_paperAcked :
    (oms.paperAcked po rest req tsMs placedNs).fillTrace = oms.fillTrace :=
  fillTrace_onOrderAck _ _ _

theorem lookupFill_paperAcked :
    (oms.paperAcked po rest req tsMs placedNs).lookupFill
      (paperReport req (orderId tsMs oms.seq)).exchangeOid = some (orderId tsMs oms.seq, po) :=
  lookupFill_onOrderAck _ (paperOid (orderId tsMs oms.seq))
    (lookup_placed oms po rest req tsMs placedNs)

theorem order_paperAcked :
    ((oms.paperAcked po rest req tsMs placedNs).slot po).order =
      { Order.populate {} (orderId tsMs oms.seq) req placedNs with status := .opened } := by
  rw [paperAcked, slot_onOrderAck _ (lookup_placed oms po rest req tsMs placedNs),
    Function.update_self, slot_placed, Function.update_self]
  rfl

theorem creditsFill_paperAcked :
    (oms.paperAcked po rest req tsMs placedNs).CreditsFill
      (.onFill (paperReport req (orderId tsMs oms.seq)) fillNs) ↔
      oms.Admits (paperReport req (orderId tsMs oms.seq)) := by
  have hdedup : (oms.paperAcked po rest req tsMs placedNs).dedup = oms.dedup :=
    dedup_onOrderAck _ _ _
  have hsome : ((oms.paperAcked po rest req tsMs placedNs).lookupFill
      (paperReport req (orderId tsMs oms.seq)).exchangeOid).isSome = true :=
    congrArg Option.isSome (lookupFill_paperAcked oms po rest req tsMs placedNs)
  rw [CreditsFill, and_iff_left hsome, Admits, Admits, hdedup]

end Submit

end Flow

end OrderManagementSystem

def OmsCall.quantity : OmsCall → Int
  | .onFill report _ => report.quantity
  | .submit req _ _ _ => req.quantity
  | _ => 0

structure OmsCall.Fills (call : OmsCall) (order : Order) (fill : Fill) : Prop where
  instrument : fill.instrumentToken = order.instrumentToken
  side : fill.side = order.side
  strategy : fill.strategyId = strncpy order.strategyId (maxStrategyLen - 1)
  quantity : fill.quantity = call.quantity
  price : ∀ {req tsMs placedNs fillNs}, call = .submit req tsMs placedNs fillNs →
    fill.price = req.limitPrice

theorem OmsCall.Fills.qtyFor {call : OmsCall} {order : Order} {fill : Fill}
    (h : call.Fills order fill) (token : Nat) :
    fill.qtyFor token = creditFor token (order, call.quantity) := by
  rw [Fill.qtyFor, creditFor, Fill.qtyDelta, h.instrument, h.side, h.quantity]

theorem price_buildFill_paperReport {o : Order} {req : OrderRequest}
    (hlimit : o.limitPrice = req.limitPrice) (internalOid oid : Str) (nowNs : Nat) :
    (o.buildFill internalOid (paperReport req oid) nowNs).price = req.limitPrice := by
  rw [Order.buildFill, paperReport, hlimit]
  dsimp only
  split <;> simp_all

namespace OrderManagementSystem

variable {poolSize : Nat} (oms : OrderManagementSystem poolSize)

theorem fillTrace_step_of_not_credited {call : OmsCall} (h : ¬oms.CreditsFill call) :
    (oms.step call).fillTrace = oms.fillTrace := by
  cases call with
  | submit req tsMs placedNs fillNs =>
      cases hfree : oms.pool.freeList with
      | nil => rw [step, submit_of_nil oms req tsMs placedNs fillNs hfree]
      | cons po rest =>
          rw [step, submit_of_cons oms req tsMs placedNs fillNs hfree]
          by_cases hpaper : oms.paperMode = true
          · rw [if_pos hpaper, ← paperAcked, ← fillTrace_paperAcked oms po rest req tsMs placedNs]
            refine fillTrace_onFill_of_not_credited _ fillNs ?_
            rw [creditsFill_paperAcked]
            exact fun hadmits => h ⟨hpaper, by simp [hfree], hadmits⟩
          · rw [if_neg hpaper]
            rfl
  | onOrderAck exchangeOid internalOid => exact fillTrace_onOrderAck oms _ _
  | onFill report nowNs => exact fillTrace_onFill_of_not_credited oms nowNs h
  | onReject exchangeOid reason => exact fillTrace_onReject oms _ _
  | placementFailed oid reason =>
      exact (fillTrace_dropOrder _ oid).trans (fillTrace_onReject oms [] reason)
  | cancel oid => exact fillTrace_cancel oms oid
  | cancelAllOpen =>
      exact cancelAllOpen_induction oms (P := fun next => next.fillTrace = oms.fillTrace)
        (fun _ _ heq => heq) rfl
  | resetForEod => rfl

/-- A credited fill is recorded on its order, offered to the queue and to the callback, once
each. -/
theorem fillTrace_step_of_credited {call : OmsCall} (h : oms.CreditsFill call) :
    ∃ order fill, call.Fills order fill ∧ order.strategyId = oms.creditedStrategy call ∧
      (oms.step call).fillTrace =
        (.fillCallback fill :: .pushed fill (oms.fillQueue.push fill).1 ::
          .credited order call.quantity :: oms.fillTrace.1, (oms.fillQueue.push fill).2) := by
  cases call with
  | submit req tsMs placedNs fillNs =>
      obtain ⟨hpaper, hslot, hadmits⟩ := h
      obtain ⟨po, rest, hfree⟩ := List.exists_cons_of_ne_nil hslot
      obtain ⟨internalOid, po', hfound, htrace⟩ := fillTrace_onFill_of_credited
        (oms.paperAcked po rest req tsMs placedNs) fillNs
        ((creditsFill_paperAcked oms po rest req tsMs placedNs fillNs).mpr hadmits)
      rw [lookupFill_paperAcked] at hfound
      obtain ⟨rfl, rfl⟩ := Prod.mk.inj (Option.some.inj hfound)
      obtain ⟨-, hqueue⟩ := Prod.mk.inj (fillTrace_paperAcked oms po rest req tsMs placedNs)
      have horder := order_paperAcked oms po rest req tsMs placedNs
      refine ⟨((oms.paperAcked po rest req tsMs placedNs).slot po).order,
        ((oms.paperAcked po rest req tsMs placedNs).slot po).order.buildFill
          (orderId tsMs oms.seq) (paperReport req (orderId tsMs oms.seq)) fillNs,
        ⟨rfl, rfl, rfl, rfl, fun heq => ?_⟩, ?_, ?_⟩
      · obtain ⟨rfl, rfl, rfl, rfl⟩ := OmsCall.submit.inj heq
        exact price_buildFill_paperReport (congrArg Order.limitPrice horder) _ _ _
      · exact congrArg Order.strategyId horder
      · rw [step, submit_of_cons oms req tsMs placedNs fillNs hfree, if_pos hpaper, ← paperAcked,
          htrace, fillTrace_paperAcked, hqueue]
        rfl
  | onFill report nowNs =>
      obtain ⟨internalOid, po, hfound, htrace⟩ := fillTrace_onFill_of_credited oms nowNs h
      refine ⟨_, _, ⟨rfl, rfl, rfl, rfl, fun heq => OmsCall.noConfusion heq⟩, ?_, htrace⟩
      simp only [creditedStrategy, hfound]
  | _ => exact h.elim

theorem fillFlow_step_of_not_credited {call : OmsCall} (h : ¬oms.CreditsFill call) :
    (oms.step call).fillFlow = oms.fillFlow := by
  rw [fillFlow_eq_fillTrace, oms.fillTrace_step_of_not_credited h, ← fillFlow_eq_fillTrace]

theorem fillFlow_step_of_credited {call : OmsCall} (h : oms.CreditsFill call) :
    ∃ order fill, (oms.step call).fillFlow =
        ((order, call.quantity) :: oms.credits, (oms.fillQueue.push fill).2) ∧
      ∀ token, fill.qtyFor token = creditFor token (order, call.quantity) := by
  obtain ⟨order, fill, hfills, -, htrace⟩ := oms.fillTrace_step_of_credited h
  refine ⟨order, fill, ?_, hfills.qtyFor⟩
  rw [fillFlow_eq_fillTrace, htrace, credits_eq_fillTrace]
  rfl

theorem emitted_step_of_not_credited {call : OmsCall} (h : ¬oms.CreditsFill call) :
    (oms.step call).emitted = oms.emitted := by
  rw [emitted_eq_fillTrace, oms.fillTrace_step_of_not_credited h, ← emitted_eq_fillTrace]

theorem emitted_step_of_credited {call : OmsCall} (h : oms.CreditsFill call) :
    ∃ order fill, call.Fills order fill ∧ order.strategyId = oms.creditedStrategy call ∧
      (oms.step call).credits = (order, call.quantity) :: oms.credits ∧
      (oms.step call).emitted = fill :: oms.emitted := by
  obtain ⟨order, fill, hfills, hstrategy, htrace⟩ := oms.fillTrace_step_of_credited h
  refine ⟨order, fill, hfills, hstrategy, ?_, ?_⟩
  · rw [credits_eq_fillTrace, htrace, credits_eq_fillTrace]
    rfl
  · rw [emitted_eq_fillTrace, htrace, emitted_eq_fillTrace]
    rfl

end OrderManagementSystem

structure Engine (poolSize : Nat) where
  oms : OrderManagementSystem poolSize
  portfolio : PortfolioEngine

inductive EngineEvent where
  | call (c : OmsCall)
  | fillLoop

namespace Engine

variable {poolSize : Nat}

def fillLoop (e : Engine poolSize) : Engine poolSize :=
  match e.oms.fillQueue.tryPop with
  | (none, _) => e
  | (some fill, fillQueue) =>
      { oms := { e.oms with fillQueue := fillQueue }, portfolio := e.portfolio.processFill fill }

def step (e : Engine poolSize) : EngineEvent → Engine poolSize
  | .call c => { e with oms := e.oms.step c }
  | .fillLoop => e.fillLoop

/-- Credited is what the positions hold and what is still queued. -/
def Balanced (e : Engine poolSize) : Prop :=
  ∀ token, e.oms.creditedQty token =
    (e.portfolio.getPosition token).quantity + e.oms.queuedQty token

def HasRoom (e : Engine poolSize) : EngineEvent → Prop
  | .call c => e.oms.CreditsFill c → ¬e.oms.fillQueue.Full
  | .fillLoop => True

structure Fresh (e : Engine poolSize) : Prop where
  flat : ∀ token, (e.portfolio.getPosition token).quantity = 0
  empty : e.oms.fillQueue.contents = []
  uncredited : e.oms.credits = []

def PositiveFill : EngineEvent → Prop
  | .call (.onFill report _) => 0 < report.quantity
  | .call (.submit req _ _ _) => 0 < req.quantity
  | _ => True

theorem balanced_of_fresh {e : Engine poolSize} (h : e.Fresh) : e.Balanced := by
  intro token
  rw [OrderManagementSystem.creditedQty, OrderManagementSystem.queuedQty, h.flat, h.empty,
    h.uncredited]
  rfl

theorem fillLoop_of_nil {e : Engine poolSize} (hcontents : e.oms.fillQueue.contents = []) :
    e.fillLoop = e := by
  rw [fillLoop, SpscQueue.tryPop_of_empty hcontents]

theorem fillLoop_of_cons {e : Engine poolSize} {fill : Fill} {rest : List Fill}
    (hcontents : e.oms.fillQueue.contents = fill :: rest) :
    ∃ fillQueue : FillQueue, fillQueue.contents = rest ∧
      e.fillLoop = ⟨{ e.oms with fillQueue := fillQueue }, e.portfolio.processFill fill⟩ := by
  obtain ⟨hpop, hrest⟩ := SpscQueue.tryPop_of_cons hcontents
  refine ⟨e.oms.fillQueue.tryPop.2, hrest, ?_⟩
  rw [fillLoop, ← Prod.mk.eta (p := e.oms.fillQueue.tryPop), hpop]

theorem balanced_fillLoop {e : Engine poolSize} (h : e.Balanced) : e.fillLoop.Balanced := by
  cases hcontents : e.oms.fillQueue.contents with
  | nil => rwa [fillLoop_of_nil hcontents]
  | cons fill rest =>
      obtain ⟨fillQueue, hrest, hloop⟩ := fillLoop_of_cons hcontents
      intro token
      have hbefore := h token
      rw [OrderManagementSystem.queuedQty, hcontents, List.map_cons, List.sum_cons] at hbefore
      rw [hloop]
      change e.oms.creditedQty token = _ + (fillQueue.contents.map _).sum
      rw [hrest, hbefore, PortfolioEngine.processFill_quantity]
      change _ + (fill.qtyFor token + _) = _ + fill.qtyFor token + _
      omega

private theorem signed_ne_zero {quantity : Int} (hpos : 0 < quantity) (side : Side) :
    side.signed quantity ≠ 0 := by
  unfold Side.signed
  split <;> omega

/-- A credit keeps the balance exactly when its fill finds room in the queue. -/
theorem balanced_credit_iff {e : Engine poolSize} (h : e.Balanced) {c : OmsCall}
    (hcredits : e.oms.CreditsFill c) (hpos : 0 < c.quantity) :
    (e.step (.call c)).Balanced ↔ ¬e.oms.fillQueue.Full := by
  obtain ⟨order, fill, hflow, hqty⟩ := e.oms.fillFlow_step_of_credited hcredits
  obtain ⟨hcredited, hqueue⟩ := Prod.mk.inj hflow
  have hcreditedQty : ∀ token, (e.oms.step c).creditedQty token =
      creditFor token (order, c.quantity) + e.oms.creditedQty token := by
    intro token
    rw [OrderManagementSystem.creditedQty, hcredited, List.map_cons, List.sum_cons]
    rfl
  have hpositions : ∀ token, (e.step (.call c)).portfolio.getPosition token =
      e.portfolio.getPosition token := fun _ => rfl
  constructor
  · intro hnext hfull
    have hqueued : (e.oms.step c).queuedQty order.instrumentToken =
        e.oms.queuedQty order.instrumentToken := by
      rw [OrderManagementSystem.queuedQty, hqueue, SpscQueue.push_of_full hfull]
      rfl
    have hafter := hnext order.instrumentToken
    have hbefore := h order.instrumentToken
    rw [hpositions, show (e.step (.call c)).oms = e.oms.step c from rfl, hcreditedQty, hqueued,
      creditFor, if_pos rfl] at hafter
    have hnone : order.side.signed c.quantity = 0 := by
      dsimp only at hafter
      omega
    exact signed_ne_zero hpos order.side hnone
  · intro hroom token
    have hqueued : (e.oms.step c).queuedQty token =
        e.oms.queuedQty token + fill.qtyFor token := by
      rw [OrderManagementSystem.queuedQty, hqueue, SpscQueue.push_contents hroom,
        List.map_append, List.sum_append, List.map_singleton, List.sum_singleton]
      rfl
    have hbefore := h token
    rw [hpositions, show (e.step (.call c)).oms = e.oms.step c from rfl, hcreditedQty, hqueued,
      hqty token]
    omega

theorem quantity_pos_of_credits {e : Engine poolSize} {c : OmsCall}
    (hcredits : e.oms.CreditsFill c) (hpos : PositiveFill (.call c)) : 0 < c.quantity := by
  cases c with
  | submit req tsMs placedNs fillNs => exact hpos
  | onFill report nowNs => exact hpos
  | _ => exact hcredits.elim

theorem balanced_step_iff {e : Engine poolSize} (h : e.Balanced) {event : EngineEvent}
    (hpos : PositiveFill event) : (e.step event).Balanced ↔ e.HasRoom event := by
  cases event with
  | fillLoop => exact iff_of_true (balanced_fillLoop h) trivial
  | call c =>
      by_cases hcredits : e.oms.CreditsFill c
      · rw [balanced_credit_iff h hcredits (quantity_pos_of_credits hcredits hpos)]
        exact (imp_iff_right hcredits).symm
      · obtain ⟨hcredited, hqueue⟩ :=
          Prod.mk.inj (e.oms.fillFlow_step_of_not_credited hcredits)
        refine iff_of_true (fun token => ?_) (fun hcredits' => absurd hcredits' hcredits)
        have hbefore := h token
        rw [OrderManagementSystem.creditedQty, OrderManagementSystem.queuedQty] at hbefore ⊢
        rw [step, hcredited, hqueue]
        exact hbefore

/-- From flat positions and an empty queue, no fill is lost in a run exactly when every
fill that is credited in it finds room in the queue. -/
theorem no_fill_lost_iff {e : Engine poolSize} (hfresh : e.Fresh) {events : List EngineEvent}
    (hpos : ∀ event ∈ events, PositiveFill event) :
    (∀ k, (Run.run step e (events.take k)).Balanced) ↔ Run.Along step HasRoom e events := by
  rw [← Run.always_iff_take]
  exact Run.always_iff_along (fun _ => True) (fun _ event => PositiveFill event)
    (fun _ _ _ _ _ => trivial) (fun _ _ _ h hpos => balanced_step_iff h hpos)
    (Run.along_of_forall step PositiveFill (fun _ _ h => h) e hpos) trivial
    (balanced_of_fresh hfresh)

theorem fresh_init (poolSize : Nat) (paperMode : Bool) :
    Fresh (⟨OrderManagementSystem.init poolSize paperMode, PortfolioEngine.init⟩ :
      Engine poolSize) :=
  ⟨fun _ => rfl, rfl, rfl⟩

theorem no_fill_lost_two_fills :
    (Run.run step (⟨OrderManagementSystem.init 1 false, PortfolioEngine.init⟩ : Engine 1)
      ([.call (.submit { instrumentToken := 1, quantity := 9 } 0 0 0),
        .call (.onOrderAck ['E'] (orderId 0 0)), .call (.onFill ⟨['E'], 100, 4, ['T']⟩ 0),
        .call (.onFill ⟨['E'], 101, 5, ['U']⟩ 0), .fillLoop].take 5)).Balanced := by
  refine (no_fill_lost_iff (fresh_init 1 false) ?_).mpr ?_ 5
  · simp [PositiveFill]
  · exact ⟨fun _ => by decide +kernel, fun _ => by decide +kernel, fun _ => by decide +kernel,
      fun _ => by decide +kernel, trivial, trivial⟩

section FullQueue

def oneLot (i : Nat) : FillReport where
  exchangeOid := ['E']
  price := 100
  quantity := 1
  tradeId := 'T' :: Nat.toDigits 10 i

def burst (n : Nat) : List EngineEvent :=
  [.call (.submit { instrumentToken := 1, quantity := 5000 } 0 0 0),
    .call (.onOrderAck ['E'] (orderId 0 0))] ++
  (List.range n).map fun i => .call (.onFill (oneLot i) 0)

/-- The state after `k` one-lot fills of an order for 5000, none of them popped. -/
private structure Filling (k : Nat) (e : Engine 1) : Prop where
  balanced : e.Balanced
  lookup : e.oms.orders.lookup (orderId 0 0) = some 0
  linked : e.oms.exchangeToInternal.lookup ['E'] = some (orderId 0 0)
  quantity : (e.oms.slot 0).order.quantity = 5000
  filled : (e.oms.slot 0).order.filledQty = k
  status : (e.oms.slot 0).sm.current = .opened ∨ (e.oms.slot 0).sm.current = .partlyFilled
  unseen : ∀ i, k ≤ i → (oneLot i).tradeId ∉ e.oms.dedup.processed
  queued : e.oms.fillQueue.contents.length = k

variable {e : Engine 1} {k : Nat}

private theorem filling_lookupFill (h : Filling k e) :
    e.oms.lookupFill ['E'] = some (orderId 0 0, 0) := by
  refine (OrderManagementSystem.lookupFill_eq_some _).mpr ⟨?_, h.lookup⟩
  rw [OrderManagementSystem.resolve, h.linked]

private theorem filling_credits (h : Filling k e) :
    e.oms.CreditsFill (.onFill (oneLot k) 0) :=
  ⟨.inr (h.unseen k le_rfl), congrArg Option.isSome (filling_lookupFill h)⟩

private theorem full_iff_filling (h : Filling k e) : e.oms.fillQueue.Full ↔ k = 4095 := by
  rw [SpscQueue.Full, ← SpscQueue.contents_length, h.queued]
  rfl

private theorem applyFill_oneLot {p : PooledOrder} {fill : Fill}
    (hquantity : p.order.quantity = 5000) (hfilled : p.order.filledQty = k)
    (hfill : fill.quantity = 1) (hk : k < 4095)
    (hstatus : p.sm.current = .opened ∨ p.sm.current = .partlyFilled) :
    (p.applyFill fill).sm.current = .partlyFilled := by
  have htarget : (p.order.credit fill).fillTarget = .partlyFilled := by
    refine if_neg ?_
    change ¬p.order.filledQty + fill.quantity ≥ p.order.quantity
    omega
  change (p.sm.transition (p.order.credit fill).fillTarget).2.current = .partlyFilled
  rw [htarget, OrderStateMachine.transition_current]
  obtain hopened | hpartly := hstatus
  · rw [hopened]
    rfl
  · rw [hpartly]
    rfl

private theorem filling_step (h : Filling k e) (hk : k < 4095) :
    Filling (k + 1) (e.step (.call (.onFill (oneLot k) 0))) := by
  have hcredits := filling_credits h
  have hroom : ¬e.oms.fillQueue.Full := mt (full_iff_filling h).mp hk.ne
  have hfound := filling_lookupFill h
  have hfill := OrderManagementSystem.onFill_of_admits e.oms 0 hcredits.1
  have hdedup : (e.oms.onFill (oneLot k) 0).dedup = e.oms.markedDedup (oneLot k) := by
    rw [hfill, OrderManagementSystem.dedup_deliverFill]
  rw [OrderManagementSystem.deliverFill_of_some _ 0 (by exact hfound)] at hfill
  have hpartly : ((e.oms.slot 0).applyFill ((e.oms.slot 0).order.buildFill (orderId 0 0)
      (oneLot k) 0)).sm.current = .partlyFilled :=
    applyFill_oneLot h.quantity h.filled rfl hk h.status
  have hlive : ¬((e.oms.slot 0).applyFill
      ((e.oms.slot 0).order.buildFill (orderId 0 0) (oneLot k) 0)).sm.isTerminal = true := by
    rw [OrderStateMachine.isTerminal, hpartly]
    decide
  have hbook : (e.oms.onFill (oneLot k) 0).book = e.oms.book := by
    rw [hfill, OrderManagementSystem.book_record, OrderManagementSystem.book_pushFill,
      OrderManagementSystem.book_applyFill]
    exact if_neg hlive
  have hslot : (e.oms.onFill (oneLot k) 0).slot 0 = (e.oms.slot 0).applyFill
      ((e.oms.slot 0).order.buildFill (orderId 0 0) (oneLot k) 0) := by
    rw [hfill, OrderManagementSystem.slot_record, OrderManagementSystem.slot_pushFill,
      OrderManagementSystem.slot_applyFill, Function.update_self]
    rfl
  have hlinked : (e.oms.onFill (oneLot k) 0).exchangeToInternal = e.oms.exchangeToInternal := by
    rw [hfill]
    refine (OrderManagementSystem.exchangeToInternal_applyFill
      { e.oms with dedup := e.oms.markedDedup (oneLot k) } ['E'] (orderId 0 0) 0
      ((e.oms.slot 0).order.buildFill (orderId 0 0) (oneLot k) 0)).trans ?_
    exact if_neg hlive
  obtain ⟨order, fill, hflow, -⟩ := e.oms.fillFlow_step_of_credited hcredits
  have hqueue := congrArg Prod.snd hflow
  have hpos : PositiveFill (.call (.onFill (oneLot k) 0)) := show (0 : Int) < 1 by decide
  refine ⟨(balanced_step_iff h.balanced hpos).mpr fun _ => hroom, ?_, ?_, ?_, ?_, ?_,
    fun i hi => ?_, ?_⟩
  · exact (congrArg (fun book => book.orders.lookup (orderId 0 0)) hbook).trans h.lookup
  · exact (congrArg (fun links => links.lookup ['E']) hlinked).trans h.linked
  · exact (congrArg (fun p => p.order.quantity) hslot).trans h.quantity
  · refine (congrArg (fun p => p.order.filledQty) hslot).trans ?_
    change (e.oms.slot 0).order.filledQty + 1 = ((k + 1 : Nat) : Int)
    rw [h.filled, Nat.cast_succ]
  · exact .inr ((congrArg (fun p => p.sm.current) hslot).trans hpartly)
  · change (oneLot i).tradeId ∉ (e.oms.onFill (oneLot k) 0).dedup.processed
    rw [hdedup, OrderManagementSystem.markedDedup, if_neg (by simp [oneLot])]
    intro hmem
    obtain heq | hold := Finset.mem_insert.mp hmem
    · have hsame := toDigits_injective (List.cons.inj heq).2
      omega
    · exact h.unseen i (by omega) hold
  · change (e.oms.onFill (oneLot k) 0).fillQueue.contents.length = k + 1
    rw [show (e.oms.onFill (oneLot k) 0).fillQueue = _ from hqueue,
      SpscQueue.push_contents hroom, List.length_append, h.queued]
    rfl

private theorem filling_run (h : Filling 0 e) (hk : k ≤ 4095) :
    Filling k (Run.run step e ((List.range k).map fun i => .call (.onFill (oneLot i) 0))) := by
  induction k with
  | zero => exact h
  | succ k ih =>
      rw [List.range_succ, List.map_append, Run.run_append]
      exact filling_step (ih (by omega)) (by omega)

private theorem not_balanced_overflow (h : Filling 0 e) :
    ¬(Run.run step e ((List.range (4095 + 1)).map fun i =>
      .call (.onFill (oneLot i) 0))).Balanced := by
  have hfull := filling_run h (le_refl 4095)
  rw [List.range_succ, List.map_append, Run.run_append]
  refine mt (balanced_credit_iff hfull.balanced (filling_credits hfull) ?_).mp ?_
  · exact show (0 : Int) < 1 by decide
  · exact not_not.mpr ((full_iff_filling hfull).mpr rfl)

private theorem filling_start :
    Filling 0 (Run.run step ⟨OrderManagementSystem.init 1 false, PortfolioEngine.init⟩
      [.call (.submit { instrumentToken := 1, quantity := 5000 } 0 0 0),
        .call (.onOrderAck ['E'] (orderId 0 0))]) := by
  refine ⟨balanced_of_fresh ⟨fun _ => rfl, rfl, rfl⟩, by decide +kernel, by decide +kernel,
    by decide +kernel, by decide +kernel, by decide +kernel, fun i _ => ?_, by decide +kernel⟩
  exact Finset.notMem_empty _

private theorem positive_burst (n : Nat) : ∀ event ∈ burst n, PositiveFill event := by
  intro event hmem
  rw [burst, List.mem_append] at hmem
  obtain hmem | hmem := hmem
  · simp only [List.mem_cons, List.not_mem_nil, or_false] at hmem
    obtain rfl | rfl := hmem
    · exact show (0 : Int) < 5000 by decide
    · trivial
  · obtain ⟨i, -, rfl⟩ := List.mem_map.mp hmem
    exact show (0 : Int) < 1 by decide

/-- The order for 5000 is filled by 4096 lots before the fill loop runs: 4096 lots are
credited, 4095 are queued. -/
theorem full_queue_drops_credited_fill :
    let start : Engine 1 := ⟨OrderManagementSystem.init 1 false, PortfolioEngine.init⟩
    start.Fresh ∧ (∀ event ∈ burst (4095 + 1), PositiveFill event) ∧
      ¬(Run.run step start (burst (4095 + 1))).Balanced := by
  refine ⟨fresh_init 1 false, positive_burst _, ?_⟩
  rw [burst, Run.run_append]
  exact not_balanced_overflow filling_start

end FullQueue

end Engine

end QuantForge
