import QuantForge.Oms.OrderManagementSystem

/-! What each section of the order management system changes, field by field. The
order book is the part that decides which slot belongs to whom; only taking,
storing and releasing an order change it. -/
namespace QuantForge

open Library

structure OrderBook (poolSize : Nat) where
  freeList : List (Fin poolSize)
  orders : Dict Str (Fin poolSize)
  seq : Nat

def OrderBook.release {poolSize : Nat} (book : OrderBook poolSize) (oid : Str)
    (po : Fin poolSize) : OrderBook poolSize :=
  { book with freeList := po :: book.freeList, orders := book.orders.erase oid }

def OrderBook.take {poolSize : Nat} (book : OrderBook poolSize) (rest : List (Fin poolSize)) :
    OrderBook poolSize :=
  { book with freeList := rest }

def OrderBook.issue {poolSize : Nat} (book : OrderBook poolSize) : OrderBook poolSize :=
  { book with seq := book.seq + 1 }

def OrderBook.store {poolSize : Nat} (book : OrderBook poolSize) (oid : Str)
    (po : Fin poolSize) : OrderBook poolSize :=
  { book with orders := book.orders.insert oid po }

def OmsEffect.creditOf : OmsEffect → Option (Order × Int)
  | .credited order quantity => some (order, quantity)
  | _ => none

def OmsEffect.pushOf : OmsEffect → Option Fill
  | .pushed fill _ => some fill
  | _ => none

/-- A transition and the write of its target that follows it. -/
def PooledOrder.moveTo (p : PooledOrder) (target : OrderStatus) : PooledOrder where
  order := { p.order with status := target }
  sm := (p.sm.transition target).2

def PooledOrder.applyFill (p : PooledOrder) (fill : Fill) : PooledOrder :=
  PooledOrder.moveTo { p with order := p.order.credit fill } (p.order.credit fill).fillTarget

namespace OrderManagementSystem

variable {poolSize : Nat} (oms : OrderManagementSystem poolSize)

def book : OrderBook poolSize := ⟨oms.pool.freeList, oms.orders, oms.seq⟩

def credits : List (Order × Int) := oms.trace.filterMap OmsEffect.creditOf

def pushes : List Fill := oms.trace.filterMap OmsEffect.pushOf

section Primitives

variable (oid exchangeOid : Str) (po : Fin poolSize)

@[simp] theorem book_record (effect : OmsEffect) : (oms.record effect).book = oms.book := rfl

@[simp] theorem slot_record (effect : OmsEffect) : (oms.record effect).slot = oms.slot := rfl

@[simp] theorem trace_record (effect : OmsEffect) :
    (oms.record effect).trace = effect :: oms.trace := rfl

@[simp] theorem book_modifySlot (f : PooledOrder → PooledOrder) :
    (oms.modifySlot po f).book = oms.book := rfl

@[simp] theorem slot_modifySlot (f : PooledOrder → PooledOrder) :
    (oms.modifySlot po f).slot = Function.update oms.slot po (f (oms.slot po)) := rfl

@[simp] theorem book_transition (target : OrderStatus) :
    (oms.transition oid po target).book = oms.book := rfl

@[simp] theorem slot_transition (target : OrderStatus) :
    (oms.transition oid po target).slot = Function.update oms.slot po
      { oms.slot po with sm := ((oms.slot po).sm.transition target).2 } := rfl

@[simp] theorem trace_transition (target : OrderStatus) :
    (oms.transition oid po target).trace = .transition oid (oms.slot po).sm.current
      ((oms.slot po).sm.transition target).2.current :: oms.trace := rfl

@[simp] theorem book_writeStatus (status : OrderStatus) :
    (oms.writeStatus po status).book = oms.book := rfl

@[simp] theorem slot_writeStatus (status : OrderStatus) :
    (oms.writeStatus po status).slot = Function.update oms.slot po
      { oms.slot po with order := { (oms.slot po).order with status := status } } := rfl

@[simp] theorem trace_writeStatus (status : OrderStatus) :
    (oms.writeStatus po status).trace = oms.trace := rfl

@[simp] theorem book_releaseOrder :
    (oms.releaseOrder oid po).book = oms.book.release oid po := rfl

@[simp] theorem trace_releaseOrder :
    (oms.releaseOrder oid po).trace =
      .released oid (oms.slot po).sm.current :: oms.trace := rfl

@[simp] theorem book_linkExchange : (oms.linkExchange exchangeOid oid).book = oms.book := rfl

@[simp] theorem slot_linkExchange : (oms.linkExchange exchangeOid oid).slot = oms.slot := rfl

@[simp] theorem book_forgetExchange : (oms.forgetExchange exchangeOid).book = oms.book := rfl

@[simp] theorem trace_forgetExchange : (oms.forgetExchange exchangeOid).trace = oms.trace := rfl

@[simp] theorem book_creditOrder (fill : Fill) : (oms.creditOrder po fill).book = oms.book := rfl

@[simp] theorem slot_creditOrder (fill : Fill) :
    (oms.creditOrder po fill).slot = Function.update oms.slot po
      { oms.slot po with order := (oms.slot po).order.credit fill } := rfl

@[simp] theorem trace_creditOrder (fill : Fill) :
    (oms.creditOrder po fill).trace =
      .credited (oms.slot po).order fill.quantity :: oms.trace := rfl

@[simp] theorem book_pushFill (fill : Fill) : (oms.pushFill fill).book = oms.book := rfl

@[simp] theorem slot_pushFill (fill : Fill) : (oms.pushFill fill).slot = oms.slot := rfl

@[simp] theorem trace_pushFill (fill : Fill) :
    (oms.pushFill fill).trace = .pushed fill (oms.fillQueue.push fill).1 :: oms.trace := rfl

end Primitives

section Fill

variable (exchangeOid internalOid : Str) (po : Fin poolSize) (fill : Fill)

private theorem slot_retireIfTerminal :
    (oms.retireIfTerminal exchangeOid internalOid po).slot = oms.slot := by
  unfold retireIfTerminal
  split <;> rfl

private theorem book_retireIfTerminal :
    (oms.retireIfTerminal exchangeOid internalOid po).book =
      if (oms.slot po).sm.isTerminal then oms.book.release internalOid po else oms.book := by
  unfold retireIfTerminal
  split <;> rfl

private theorem trace_retireIfTerminal :
    (oms.retireIfTerminal exchangeOid internalOid po).trace =
      (if (oms.slot po).sm.isTerminal then
        [.released internalOid (oms.slot po).sm.current] else []) ++ oms.trace := by
  unfold retireIfTerminal
  split <;> rfl

theorem slot_applyFill :
    (oms.applyFill exchangeOid internalOid po fill).slot =
      Function.update oms.slot po ((oms.slot po).applyFill fill) := by
  rw [applyFill, slot_retireIfTerminal]
  simp [PooledOrder.applyFill, PooledOrder.moveTo]

theorem book_applyFill :
    (oms.applyFill exchangeOid internalOid po fill).book =
      if ((oms.slot po).applyFill fill).sm.isTerminal then oms.book.release internalOid po
      else oms.book := by
  rw [applyFill, book_retireIfTerminal]
  simp only [slot_writeStatus, slot_transition, slot_creditOrder, Function.update_self,
    book_writeStatus, book_transition, book_creditOrder]
  rfl

theorem trace_applyFill :
    (oms.applyFill exchangeOid internalOid po fill).trace =
      (if ((oms.slot po).applyFill fill).sm.isTerminal then
        [.released internalOid ((oms.slot po).applyFill fill).sm.current] else []) ++
      .transition internalOid (oms.slot po).sm.current
        ((oms.slot po).applyFill fill).sm.current ::
      .credited (oms.slot po).order fill.quantity :: oms.trace := by
  rw [applyFill, trace_retireIfTerminal]
  simp only [slot_writeStatus, slot_transition, slot_creditOrder, Function.update_self,
    trace_writeStatus, trace_transition, trace_creditOrder]
  rfl

private theorem exchangeToInternal_retireIfTerminal :
    (oms.retireIfTerminal exchangeOid internalOid po).exchangeToInternal =
      if (oms.slot po).sm.isTerminal then oms.exchangeToInternal.erase exchangeOid
      else oms.exchangeToInternal := by
  unfold retireIfTerminal
  split <;> rfl

theorem exchangeToInternal_applyFill :
    (oms.applyFill exchangeOid internalOid po fill).exchangeToInternal =
      if ((oms.slot po).applyFill fill).sm.isTerminal then
        oms.exchangeToInternal.erase exchangeOid
      else oms.exchangeToInternal := by
  rw [applyFill, exchangeToInternal_retireIfTerminal]
  simp only [slot_writeStatus, slot_transition, slot_creditOrder, Function.update_self]
  rfl

private theorem fillQueue_retireIfTerminal :
    (oms.retireIfTerminal exchangeOid internalOid po).fillQueue = oms.fillQueue := by
  unfold retireIfTerminal
  split <;> rfl

private theorem dedup_retireIfTerminal :
    (oms.retireIfTerminal exchangeOid internalOid po).dedup = oms.dedup := by
  unfold retireIfTerminal
  split <;> rfl

@[simp] theorem fillQueue_applyFill :
    (oms.applyFill exchangeOid internalOid po fill).fillQueue = oms.fillQueue := by
  rw [applyFill, fillQueue_retireIfTerminal]
  rfl

@[simp] theorem dedup_applyFill :
    (oms.applyFill exchangeOid internalOid po fill).dedup = oms.dedup := by
  rw [applyFill, dedup_retireIfTerminal]
  rfl

@[simp] theorem dedup_pushFill : (oms.pushFill fill).dedup = oms.dedup := rfl

@[simp] theorem dedup_record (effect : OmsEffect) : (oms.record effect).dedup = oms.dedup := rfl

end Fill

section OnFill

variable (report : FillReport) (nowNs : Nat)

def Admits : Prop := report.tradeId = [] ∨ report.tradeId ∉ oms.dedup.processed

instance : Decidable (oms.Admits report) := inferInstanceAs (Decidable (_ ∨ _))

def markedDedup : FillDeduplicator :=
  if report.tradeId = [] then oms.dedup
  else { oms.dedup with processed := insert report.tradeId oms.dedup.processed }

theorem onFill_of_admits {report : FillReport} (h : oms.Admits report) :
    oms.onFill report nowNs =
      deliverFill { oms with dedup := oms.markedDedup report } report nowNs := by
  unfold onFill markedDedup
  by_cases hempty : report.tradeId = []
  · rw [if_pos hempty, if_pos hempty]
  · rw [if_neg hempty, if_neg hempty,
      FillDeduplicator.tryMark_of_notMem (h.resolve_left hempty)]

theorem onFill_of_not_admits {report : FillReport} (h : ¬oms.Admits report) :
    oms.onFill report nowNs =
      { oms with dedup := { oms.dedup with duplicates := oms.dedup.duplicates + 1 } } := by
  obtain ⟨hempty, hmem⟩ := not_or.mp h
  unfold onFill
  rw [if_neg hempty, FillDeduplicator.tryMark_of_mem (not_not.mp hmem)]

theorem lookupFill_eq_some {exchangeOid internalOid : Str} {po : Fin poolSize} :
    oms.lookupFill exchangeOid = some (internalOid, po) ↔
      internalOid = oms.resolve exchangeOid ∧ oms.orders.lookup internalOid = some po := by
  constructor
  · intro h
    obtain ⟨found, hlookup, heq⟩ := Option.map_eq_some_iff.mp h
    obtain ⟨rfl, rfl⟩ := Prod.mk.inj heq
    exact ⟨rfl, hlookup⟩
  · rintro ⟨rfl, hlookup⟩
    exact Option.map_eq_some_iff.mpr ⟨po, hlookup, rfl⟩

theorem deliverFill_of_none {report : FillReport}
    (h : oms.lookupFill report.exchangeOid = none) : oms.deliverFill report nowNs = oms := by
  rw [deliverFill, h]

theorem deliverFill_of_some {report : FillReport} {internalOid : Str} {po : Fin poolSize}
    (h : oms.lookupFill report.exchangeOid = some (internalOid, po)) :
    oms.deliverFill report nowNs =
      ((oms.applyFill report.exchangeOid internalOid po
          ((oms.slot po).order.buildFill internalOid report nowNs)).pushFill
        ((oms.slot po).order.buildFill internalOid report nowNs)).record
          (.fillCallback ((oms.slot po).order.buildFill internalOid report nowNs)) := by
  rw [deliverFill, h]

theorem credits_deliverFill {report : FillReport} {internalOid : Str} {po : Fin poolSize}
    (h : oms.lookupFill report.exchangeOid = some (internalOid, po)) :
    (oms.deliverFill report nowNs).credits =
      ((oms.slot po).order, report.quantity) :: oms.credits := by
  rw [deliverFill_of_some oms nowNs h, credits, trace_record, trace_pushFill, trace_applyFill]
  split <;> rfl

theorem pushes_deliverFill {report : FillReport} {internalOid : Str} {po : Fin poolSize}
    (h : oms.lookupFill report.exchangeOid = some (internalOid, po)) :
    (oms.deliverFill report nowNs).pushes =
      (oms.slot po).order.buildFill internalOid report nowNs :: oms.pushes := by
  rw [deliverFill_of_some oms nowNs h, pushes, trace_record, trace_pushFill, trace_applyFill]
  split <;> rfl

theorem fillQueue_deliverFill {report : FillReport} {internalOid : Str} {po : Fin poolSize}
    (h : oms.lookupFill report.exchangeOid = some (internalOid, po)) :
    (oms.deliverFill report nowNs).fillQueue =
      (oms.fillQueue.push ((oms.slot po).order.buildFill internalOid report nowNs)).2 := by
  rw [deliverFill_of_some oms nowNs h]
  change (SpscQueue.push (applyFill _ _ _ _ _).fillQueue _).2 = _
  rw [fillQueue_applyFill]

theorem dedup_deliverFill (report : FillReport) :
    (oms.deliverFill report nowNs).dedup = oms.dedup := by
  cases hfound : oms.lookupFill report.exchangeOid with
  | none => rw [deliverFill_of_none oms nowNs hfound]
  | some found => simp [deliverFill_of_some oms nowNs hfound]

end OnFill

section OnReject

variable (reason : Str)

theorem onReject_of_none {exchangeOid : Str}
    (h : oms.orders.lookup (oms.rejectTarget exchangeOid) = none) :
    oms.onReject exchangeOid reason =
      oms.record (.rejectCallback (oms.rejectTarget exchangeOid) reason) := by
  simp only [onReject, h]

theorem onReject_of_some {exchangeOid : Str} {po : Fin poolSize}
    (h : oms.orders.lookup (oms.rejectTarget exchangeOid) = some po) :
    oms.onReject exchangeOid reason =
      (((oms.transition (oms.rejectTarget exchangeOid) po .rejected).releaseOrder
          (oms.rejectTarget exchangeOid) po).forgetExchange exchangeOid).record
        (.rejectCallback (oms.rejectTarget exchangeOid) reason) := by
  simp only [onReject, h]

theorem dropOrder_of_none {oid : Str} (h : oms.orders.lookup oid = none) :
    oms.dropOrder oid = oms := by
  rw [dropOrder, h]

theorem dropOrder_of_some {oid : Str} {po : Fin poolSize} (h : oms.orders.lookup oid = some po) :
    oms.dropOrder oid = oms.releaseOrder oid po := by
  rw [dropOrder, h]

theorem dedup_onReject (exchangeOid : Str) :
    (oms.onReject exchangeOid reason).dedup = oms.dedup := by
  cases h : oms.orders.lookup (oms.rejectTarget exchangeOid) with
  | none => rw [onReject_of_none oms reason h, dedup_record]
  | some po =>
      rw [onReject_of_some oms reason h]
      rfl

theorem dedup_dropOrder (oid : Str) : (oms.dropOrder oid).dedup = oms.dedup := by
  unfold dropOrder
  split <;> rfl

end OnReject

section Ack

theorem onOrderAck_of_none {exchangeOid internalOid : Str}
    (h : oms.orders.lookup internalOid = none) :
    oms.onOrderAck exchangeOid internalOid = oms := by
  rw [onOrderAck, h]

theorem onOrderAck_of_some {exchangeOid internalOid : Str} {po : Fin poolSize}
    (h : oms.orders.lookup internalOid = some po) :
    oms.onOrderAck exchangeOid internalOid =
      ((oms.linkExchange exchangeOid internalOid).transition internalOid po .opened).writeStatus
        po .opened := by
  rw [onOrderAck, h]

theorem slot_onOrderAck {exchangeOid internalOid : Str} {po : Fin poolSize}
    (h : oms.orders.lookup internalOid = some po) :
    (oms.onOrderAck exchangeOid internalOid).slot =
      Function.update oms.slot po ((oms.slot po).moveTo .opened) := by
  rw [onOrderAck_of_some oms h]
  simp [PooledOrder.moveTo]

theorem book_onOrderAck (exchangeOid internalOid : Str) :
    (oms.onOrderAck exchangeOid internalOid).book = oms.book := by
  unfold onOrderAck
  split <;> rfl

theorem dedup_onOrderAck (exchangeOid internalOid : Str) :
    (oms.onOrderAck exchangeOid internalOid).dedup = oms.dedup := by
  unfold onOrderAck
  split <;> rfl

theorem trace_onOrderAck {exchangeOid internalOid : Str} {po : Fin poolSize}
    (h : oms.orders.lookup internalOid = some po) :
    (oms.onOrderAck exchangeOid internalOid).trace =
      .transition internalOid (oms.slot po).sm.current
        ((oms.slot po).sm.transition .opened).2.current :: oms.trace := by
  rw [onOrderAck_of_some oms h]
  rfl

theorem resolve_onOrderAck {exchangeOid internalOid : Str} {po : Fin poolSize}
    (h : oms.orders.lookup internalOid = some po) :
    (oms.onOrderAck exchangeOid internalOid).resolve exchangeOid = internalOid := by
  have hlink : (oms.onOrderAck exchangeOid internalOid).exchangeToInternal =
      oms.exchangeToInternal.insert exchangeOid internalOid := by
    rw [onOrderAck_of_some oms h]
    rfl
  rw [resolve, hlink, AList.lookup_insert]

theorem lookupFill_onOrderAck (exchangeOid : Str) {internalOid : Str} {po : Fin poolSize}
    (h : oms.orders.lookup internalOid = some po) :
    (oms.onOrderAck exchangeOid internalOid).lookupFill exchangeOid =
      some (internalOid, po) := by
  refine (lookupFill_eq_some _).mpr ⟨(resolve_onOrderAck oms h).symm, ?_⟩
  have hbook := book_onOrderAck oms exchangeOid internalOid
  rw [show (oms.onOrderAck exchangeOid internalOid).orders = oms.orders from
    congrArg OrderBook.orders hbook]
  exact h

end Ack

section Submit

variable (po : Fin poolSize) (rest : List (Fin poolSize)) (req : OrderRequest)
  (tsMs placedNs fillNs : Nat)

def placed : OrderManagementSystem poolSize :=
  (populate { oms with pool := ⟨Function.update oms.pool.pool po {}, rest⟩ } po req tsMs
    placedNs).storeOrder (orderId tsMs oms.seq) po

def paperAcked : OrderManagementSystem poolSize :=
  (oms.placed po rest req tsMs placedNs).onOrderAck (paperOid (orderId tsMs oms.seq))
    (orderId tsMs oms.seq)

theorem submit_of_nil (h : oms.pool.freeList = []) :
    oms.submit req tsMs placedNs fillNs = (false, oms) := by
  rw [submit, OrderPool.acquire_of_nil h]

theorem submit_of_cons {po : Fin poolSize} {rest : List (Fin poolSize)}
    (h : oms.pool.freeList = po :: rest) :
    oms.submit req tsMs placedNs fillNs =
      (true, if oms.paperMode then
        ((oms.placed po rest req tsMs placedNs).onOrderAck (paperOid (orderId tsMs oms.seq))
          (orderId tsMs oms.seq)).onFill (paperReport req (orderId tsMs oms.seq)) fillNs
      else
        (oms.placed po rest req tsMs placedNs).record
          (.placeOrder (orderId tsMs oms.seq) req)) := by
  rw [submit, OrderPool.acquire_of_cons h]
  by_cases hpaper : oms.paperMode = true
  · rw [if_pos hpaper]
    exact if_pos hpaper
  · rw [if_neg hpaper]
    exact if_neg hpaper

@[simp] theorem book_placed :
    (oms.placed po rest req tsMs placedNs).book =
      (oms.book.take rest).issue.store (orderId tsMs oms.seq) po := rfl

theorem lookup_placed :
    (oms.placed po rest req tsMs placedNs).orders.lookup (orderId tsMs oms.seq) = some po :=
  AList.lookup_insert _

theorem slot_placed :
    (oms.placed po rest req tsMs placedNs).slot = Function.update oms.slot po
      { order := Order.populate {} (orderId tsMs oms.seq) req placedNs } := by
  change Function.update (Function.update oms.slot po {}) po
    { Function.update oms.slot po {} po with
      order := (Function.update oms.slot po {} po).order.populate _ req placedNs } = _
  rw [Function.update_idem, Function.update_self]

end Submit

section Cancel

variable (oid : Str)

theorem cancel_eq : (oms.cancel oid).2 = oms ∨
    ∃ exchangeOid, (oms.cancel oid).2 = oms.record (.cancelOrder exchangeOid) := by
  unfold cancel
  split
  · exact .inl rfl
  · split
    · exact .inl rfl
    · split
      · exact .inl rfl
      · exact .inr ⟨_, rfl⟩

theorem book_cancel : (oms.cancel oid).2.book = oms.book := by
  obtain heq | ⟨exchangeOid, heq⟩ := oms.cancel_eq oid
  · rw [heq]
  · rw [heq, book_record]

theorem slot_cancel : (oms.cancel oid).2.slot = oms.slot := by
  obtain heq | ⟨exchangeOid, heq⟩ := oms.cancel_eq oid
  · rw [heq]
  · rw [heq, slot_record]

theorem dedup_cancel : (oms.cancel oid).2.dedup = oms.dedup := by
  obtain heq | ⟨exchangeOid, heq⟩ := oms.cancel_eq oid
  · rw [heq]
  · rw [heq, dedup_record]

theorem cancelAllOpen_induction {P : OrderManagementSystem poolSize → Prop}
    (hrecord : ∀ oms exchangeOid, P oms → P (oms.record (.cancelOrder exchangeOid)))
    (h : P oms) : P oms.cancelAllOpen := by
  unfold cancelAllOpen
  generalize oms.cancellable = oids
  induction oids generalizing oms with
  | nil => exact h
  | cons oid oids ih =>
      rw [List.foldl_cons]
      obtain heq | ⟨exchangeOid, heq⟩ := oms.cancel_eq oid
      · rw [heq]
        exact ih oms h
      · rw [heq]
        exact ih _ (hrecord oms exchangeOid h)

end Cancel

end OrderManagementSystem

def OmsCall.submits : OmsCall → Bool
  | .submit .. => true
  | _ => false

def OrderBook.KeptByRelease {poolSize : Nat} (P : OrderBook poolSize → Prop) : Prop :=
  ∀ book oid po, P book → book.orders.lookup oid = some po → P (book.release oid po)

namespace OrderBook.KeptByRelease

open OrderManagementSystem

variable {poolSize : Nat} {P : OrderBook poolSize → Prop} {oms : OrderManagementSystem poolSize}

theorem deliverFill (hP : KeptByRelease P) (h : P oms.book) (report : FillReport) (nowNs : Nat) :
    P (oms.deliverFill report nowNs).book := by
  cases hfound : oms.lookupFill report.exchangeOid with
  | none => rwa [deliverFill_of_none oms nowNs hfound]
  | some found =>
      obtain ⟨internalOid, po⟩ := found
      obtain ⟨-, hlookup⟩ := (lookupFill_eq_some oms).mp hfound
      rw [deliverFill_of_some oms nowNs hfound, book_record, book_pushFill, book_applyFill]
      split
      · exact hP _ _ _ h hlookup
      · exact h

theorem onFill (hP : KeptByRelease P) (h : P oms.book) (report : FillReport) (nowNs : Nat) :
    P (oms.onFill report nowNs).book := by
  by_cases hadmits : oms.Admits report
  · rw [onFill_of_admits oms nowNs hadmits]
    have hmarked : P (book { oms with dedup := oms.markedDedup report }) := h
    exact hP.deliverFill hmarked report nowNs
  · rwa [onFill_of_not_admits oms nowNs hadmits]

theorem onReject (hP : KeptByRelease P) (h : P oms.book) (exchangeOid reason : Str) :
    P (oms.onReject exchangeOid reason).book := by
  cases hlookup : oms.orders.lookup (oms.rejectTarget exchangeOid) with
  | none => rwa [onReject_of_none oms reason hlookup]
  | some po =>
      rw [onReject_of_some oms reason hlookup, book_record, book_forgetExchange,
        book_releaseOrder, book_transition]
      exact hP _ _ _ h hlookup

theorem dropOrder (hP : KeptByRelease P) (h : P oms.book) (oid : Str) :
    P (oms.dropOrder oid).book := by
  cases hlookup : oms.orders.lookup oid with
  | none => rwa [dropOrder_of_none oms hlookup]
  | some po =>
      rw [dropOrder_of_some oms hlookup, book_releaseOrder]
      exact hP _ _ _ h hlookup

theorem step (hP : KeptByRelease P) (h : P oms.book) {call : OmsCall}
    (hcall : call.submits = false) : P (oms.step call).book := by
  cases call with
  | submit req tsMs placedNs fillNs => exact absurd hcall Bool.noConfusion
  | onOrderAck exchangeOid internalOid =>
      change P (oms.onOrderAck exchangeOid internalOid).book
      rwa [book_onOrderAck]
  | onFill report nowNs => exact hP.onFill h report nowNs
  | onReject exchangeOid reason => exact hP.onReject h exchangeOid reason
  | placementFailed oid reason => exact hP.dropOrder (hP.onReject h [] reason) oid
  | cancel oid => rwa [OrderManagementSystem.step, book_cancel]
  | cancelAllOpen =>
      exact cancelAllOpen_induction (P := fun oms => P oms.book) oms (fun _ _ hbook => hbook) h
  | resetForEod => exact h

end OrderBook.KeptByRelease

end QuantForge
