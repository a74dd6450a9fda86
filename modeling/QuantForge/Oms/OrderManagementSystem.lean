import QuantForge.Common.SpscQueue
import QuantForge.Oms.FillDeduplicator
import QuantForge.Oms.OrderPool

/-! `oms/oms.cpp`. Every section that holds `orders_mtx_` is a definition of its
own, and the public operations are composed from them. Clock readings are
arguments. `trace` lists what the operations did, the latest first; no operation
reads it. -/
namespace QuantForge

open Library

structure FillReport where
  exchangeOid : Str
  price : ℚ
  quantity : Int
  tradeId : Str
  deriving DecidableEq

inductive OmsEffect where
  | placeOrder (oid : Str) (req : OrderRequest)
  | cancelOrder (exchangeOid : Str)
  | transition (oid : Str) (before after : OrderStatus)
  | released (oid : Str) (status : OrderStatus)
  | credited (order : Order) (quantity : Int)
  | pushed (fill : Fill) (accepted : Bool)
  | fillCallback (fill : Fill)
  | rejectCallback (oid reason : Str)
  deriving DecidableEq

structure OrderManagementSystem (poolSize : Nat) where
  pool : OrderPool poolSize
  orders : Dict Str (Fin poolSize) := ∅
  exchangeToInternal : Dict Str Str := ∅
  fillQueue : FillQueue
  dedup : FillDeduplicator := {}
  seq : Nat := 0
  paperMode : Bool
  trace : List OmsEffect := []

def Order.fillTarget (o : Order) : OrderStatus :=
  if o.filledQty ≥ o.quantity then .complete else .partlyFilled

def Order.populate (o : Order) (oid : Str) (req : OrderRequest) (placedNs : Nat) : Order :=
  { o with
    orderId := strncpy oid (maxOrderIdLen - 1)
    strategyId := strncpy req.strategyId (maxStrategyLen - 1)
    tag := strncpy req.tag (maxTagLen - 1)
    instrumentToken := req.instrumentToken
    side := req.side
    orderType := req.orderType
    product := req.product
    quantity := req.quantity
    limitPrice := req.limitPrice
    triggerPrice := req.triggerPrice
    status := .pending
    placedTsNs := placedNs }

def Order.credit (o : Order) (fill : Fill) : Order :=
  { o with
    filledQty := o.filledQty + fill.quantity
    avgFillPrice := fill.price
    lastUpdateNs := fill.fillTsNs }

/-- The fill that `on_fill` builds from the record of the order. -/
def Order.buildFill (o : Order) (internalOid : Str) (report : FillReport) (nowNs : Nat) :
    Fill where
  orderId := strncpy internalOid (maxOrderIdLen - 1)
  tradeId := strncpy report.tradeId (maxOrderIdLen - 1)
  strategyId := strncpy o.strategyId (maxStrategyLen - 1)
  instrumentToken := o.instrumentToken
  side := o.side
  quantity := report.quantity
  price := if report.price > 0 then report.price else o.limitPrice
  fillTsNs := nowNs

def orderId (tsMs seq : Nat) : Str :=
  "QF-".toList ++ Nat.toDigits 10 tsMs ++ '-' :: Nat.toDigits 10 seq

def paperOid (oid : Str) : Str := "PAPER-".toList ++ oid

/-- The fill that paper mode simulates for an order. -/
def paperReport (req : OrderRequest) (oid : Str) : FillReport where
  exchangeOid := paperOid oid
  price := if req.limitPrice > 0 then req.limitPrice else 0
  quantity := req.quantity
  tradeId := "PAPER-TRD-".toList ++ oid

namespace OrderManagementSystem

variable {poolSize : Nat}

def init (poolSize : Nat) (paperMode : Bool) : OrderManagementSystem poolSize where
  pool := OrderPool.init poolSize
  fillQueue := SpscQueue.init fillQueueCapacity {}
  paperMode := paperMode

section Primitives

variable (oms : OrderManagementSystem poolSize)

def slot (po : Fin poolSize) : PooledOrder := oms.pool.pool po

def record (effect : OmsEffect) : OrderManagementSystem poolSize :=
  { oms with trace := effect :: oms.trace }

def modifySlot (po : Fin poolSize) (f : PooledOrder → PooledOrder) :
    OrderManagementSystem poolSize :=
  { oms with pool := oms.pool.modify po f }

/-- `po->sm.transition(target)`, its result ignored. -/
def transition (oid : Str) (po : Fin poolSize) (target : OrderStatus) :
    OrderManagementSystem poolSize :=
  let after := ((oms.slot po).sm.transition target).2
  (oms.modifySlot po fun p => { p with sm := after }).record
    (.transition oid (oms.slot po).sm.current after.current)

def writeStatus (po : Fin poolSize) (status : OrderStatus) : OrderManagementSystem poolSize :=
  oms.modifySlot po fun p => { p with order := { p.order with status := status } }

/-- `pool_.release(po)` and `orders_.erase(oid)`. -/
def releaseOrder (oid : Str) (po : Fin poolSize) : OrderManagementSystem poolSize :=
  ({ oms with pool := oms.pool.release po, orders := oms.orders.erase oid }).record
    (.released oid (oms.slot po).sm.current)

def linkExchange (exchangeOid internalOid : Str) : OrderManagementSystem poolSize :=
  { oms with exchangeToInternal := oms.exchangeToInternal.insert exchangeOid internalOid }

def forgetExchange (exchangeOid : Str) : OrderManagementSystem poolSize :=
  { oms with exchangeToInternal := oms.exchangeToInternal.erase exchangeOid }

end Primitives

section Sections

variable (oms : OrderManagementSystem poolSize)

def populate (po : Fin poolSize) (req : OrderRequest) (tsMs placedNs : Nat) :
    OrderManagementSystem poolSize :=
  { oms.modifySlot po fun p =>
      { p with order := p.order.populate (orderId tsMs oms.seq) req placedNs } with
    seq := oms.seq + 1 }

def storeOrder (oid : Str) (po : Fin poolSize) : OrderManagementSystem poolSize :=
  { oms with orders := oms.orders.insert oid po }

def onOrderAck (exchangeOid internalOid : Str) : OrderManagementSystem poolSize :=
  match oms.orders.lookup internalOid with
  | none => oms
  | some po =>
      ((oms.linkExchange exchangeOid internalOid).transition internalOid po .opened).writeStatus
        po .opened

/-- The internal id that `on_fill` takes an exchange id for. -/
def resolve (exchangeOid : Str) : Str :=
  match oms.exchangeToInternal.lookup exchangeOid with
  | some internalOid => internalOid
  -- Paper mode uses "PAPER-{oid}" directly.
  | none => if exchangeOid.length > 6 then exchangeOid.drop 6 else exchangeOid

/-- The first section of `on_fill`. -/
def lookupFill (exchangeOid : Str) : Option (Str × Fin poolSize) :=
  (oms.orders.lookup (oms.resolve exchangeOid)).map fun po => (oms.resolve exchangeOid, po)

def creditOrder (po : Fin poolSize) (fill : Fill) : OrderManagementSystem poolSize :=
  (oms.modifySlot po fun p => { p with order := p.order.credit fill }).record
    (.credited (oms.slot po).order fill.quantity)

def retireIfTerminal (exchangeOid internalOid : Str) (po : Fin poolSize) :
    OrderManagementSystem poolSize :=
  if (oms.slot po).sm.isTerminal then
    (oms.releaseOrder internalOid po).forgetExchange exchangeOid
  else oms

/-- The second section of `on_fill`. -/
def applyFill (exchangeOid internalOid : Str) (po : Fin poolSize) (fill : Fill) :
    OrderManagementSystem poolSize :=
  let credited := oms.creditOrder po fill
  let target := (credited.slot po).order.fillTarget
  ((credited.transition internalOid po target).writeStatus po target).retireIfTerminal
    exchangeOid internalOid po

/-- A refused push is only logged. -/
def pushFill (fill : Fill) : OrderManagementSystem poolSize :=
  ({ oms with fillQueue := (oms.fillQueue.push fill).2 }).record
    (.pushed fill (oms.fillQueue.push fill).1)

/-- `on_fill` after the deduplication guard. -/
def deliverFill (report : FillReport) (nowNs : Nat) : OrderManagementSystem poolSize :=
  match oms.lookupFill report.exchangeOid with
  | none => oms
  | some (internalOid, po) =>
      let fill := (oms.slot po).order.buildFill internalOid report nowNs
      ((oms.applyFill report.exchangeOid internalOid po fill).pushFill fill).record
        (.fillCallback fill)

def onFill (report : FillReport) (nowNs : Nat) : OrderManagementSystem poolSize :=
  if report.tradeId = [] then oms.deliverFill report nowNs
  else
    match oms.dedup.tryMark report.tradeId with
    | (false, dedup) => { oms with dedup := dedup }
    | (true, dedup) =>
        OrderManagementSystem.deliverFill { oms with dedup := dedup } report nowNs

/-- The internal id that `on_reject` takes an exchange id for. -/
def rejectTarget (exchangeOid : Str) : Str :=
  (oms.exchangeToInternal.lookup exchangeOid).getD exchangeOid

def onReject (exchangeOid reason : Str) : OrderManagementSystem poolSize :=
  let internalOid := oms.rejectTarget exchangeOid
  let rejected :=
    match oms.orders.lookup internalOid with
    | none => oms
    | some po =>
        ((oms.transition internalOid po .rejected).releaseOrder internalOid po).forgetExchange
          exchangeOid
  rejected.record (.rejectCallback internalOid reason)

/-- The section of the placement-failure callback that returns the order to the pool. -/
def dropOrder (oid : Str) : OrderManagementSystem poolSize :=
  match oms.orders.lookup oid with
  | none => oms
  | some po => oms.releaseOrder oid po

/-- The callback that `submit` hands to the execution system for a failed placement. -/
def placementFailed (oid reason : Str) : OrderManagementSystem poolSize :=
  (oms.onReject [] reason).dropOrder oid

def submit (req : OrderRequest) (tsMs placedNs fillNs : Nat) :
    Bool × OrderManagementSystem poolSize :=
  match oms.pool.acquire with
  | (none, _) => (false, oms)
  | (some po, pool) =>
      let oid := orderId tsMs oms.seq
      let placed := (populate { oms with pool := pool } po req tsMs placedNs).storeOrder oid po
      if placed.paperMode then
        (true, (placed.onOrderAck (paperOid oid) oid).onFill (paperReport req oid) fillNs)
      else (true, placed.record (.placeOrder oid req))

/-- The first exchange id found for an internal id, in the order of the map; empty when
there is none. -/
def exchangeOidOf (oid : Str) : Str :=
  match oms.exchangeToInternal.entries.find? fun e => e.2 = oid with
  | some e => e.1
  | none => []

def Cancellable (po : Fin poolSize) : Prop :=
  (oms.slot po).sm.current = .opened ∨ (oms.slot po).sm.current = .partlyFilled

instance (po : Fin poolSize) : Decidable (oms.Cancellable po) :=
  inferInstanceAs (Decidable (_ ∨ _))

def cancel (oid : Str) : Bool × OrderManagementSystem poolSize :=
  match oms.orders.lookup oid with
  | none => (false, oms)
  | some po =>
      if ¬oms.Cancellable po then (false, oms)
      else if oms.exchangeOidOf oid = [] then (false, oms)
      else (true, oms.record (.cancelOrder (oms.exchangeOidOf oid)))

/-- The ids that `cancel_all_open` collects. -/
def cancellable : List Str :=
  (oms.orders.entries.filter fun e => oms.Cancellable e.2).map Sigma.fst

def cancelAllOpen : OrderManagementSystem poolSize :=
  oms.cancellable.foldl (fun oms oid => (oms.cancel oid).2) oms

def openOrderCount : Nat :=
  oms.orders.values.countP fun po => !(oms.slot po).sm.isTerminal

def resetForEod : OrderManagementSystem poolSize := { oms with dedup := oms.dedup.reset }

end Sections

end OrderManagementSystem

/-- A call of a public operation, or of a callback that `submit` registered. -/
inductive OmsCall where
  | submit (req : OrderRequest) (tsMs placedNs fillNs : Nat)
  | onOrderAck (exchangeOid internalOid : Str)
  | onFill (report : FillReport) (nowNs : Nat)
  | onReject (exchangeOid reason : Str)
  | placementFailed (oid reason : Str)
  | cancel (oid : Str)
  | cancelAllOpen
  | resetForEod

namespace OrderManagementSystem

variable {poolSize : Nat}

def step (oms : OrderManagementSystem poolSize) : OmsCall → OrderManagementSystem poolSize
  | .submit req tsMs placedNs fillNs => (oms.submit req tsMs placedNs fillNs).2
  | .onOrderAck exchangeOid internalOid => oms.onOrderAck exchangeOid internalOid
  | .onFill report nowNs => oms.onFill report nowNs
  | .onReject exchangeOid reason => oms.onReject exchangeOid reason
  | .placementFailed oid reason => oms.placementFailed oid reason
  | .cancel oid => (oms.cancel oid).2
  | .cancelAllOpen => oms.cancelAllOpen
  | .resetForEod => oms.resetForEod

end OrderManagementSystem

end QuantForge
