import QuantForge.Oms.Lifecycle

/-! What orders and queued fills may still add to a position. No operation but `submit`
lets it grow, and `submit` by no more than the order that it takes. -/
namespace QuantForge

open Library

def Side.amountOn (token : Nat) (side : Side) (token' : Nat) (side' : Side) (quantity : Int) :
    Int :=
  if token' = token ∧ side' = side then quantity else 0

def OrderRequest.amountOn (req : OrderRequest) (token : Nat) (side : Side) : Int :=
  side.amountOn token req.instrumentToken req.side req.quantity

def Order.openOn (o : Order) (token : Nat) (side : Side) : Int :=
  side.amountOn token o.instrumentToken o.side (o.quantity - o.filledQty)

def Fill.amountOn (fill : Fill) (token : Nat) (side : Side) : Int :=
  side.amountOn token fill.instrumentToken fill.side fill.quantity

def PooledOrder.WithinQuantity (p : PooledOrder) : Prop := p.order.filledQty ≤ p.order.quantity

theorem Side.amountOn_nonneg {quantity : Int} (h : 0 ≤ quantity) (token token' : Nat)
    (side side' : Side) : 0 ≤ Side.amountOn token side token' side' quantity := by
  unfold Side.amountOn
  split
  · exact h
  · exact le_rfl

theorem Side.amountOn_add (token token' : Nat) (side side' : Side) (a b : Int) :
    Side.amountOn token side token' side' (a + b) =
      Side.amountOn token side token' side' a + Side.amountOn token side token' side' b := by
  unfold Side.amountOn
  split
  · rfl
  · rfl

theorem PooledOrder.WithinQuantity.openOn_nonneg {p : PooledOrder} (h : p.WithinQuantity)
    (token : Nat) (side : Side) : 0 ≤ p.order.openOn token side :=
  Side.amountOn_nonneg (sub_nonneg.mpr h) _ _ _ _

theorem PooledOrder.openOn_applyFill (p : PooledOrder) (internalOid : Str) (report : FillReport)
    (nowNs token : Nat) (side : Side) :
    (p.applyFill (p.order.buildFill internalOid report nowNs)).order.openOn token side +
        (p.order.buildFill internalOid report nowNs).amountOn token side =
      p.order.openOn token side := by
  change Side.amountOn token side p.order.instrumentToken p.order.side
      (p.order.quantity - (p.order.filledQty + report.quantity)) +
    Side.amountOn token side p.order.instrumentToken p.order.side report.quantity = _
  rw [← Side.amountOn_add, Order.openOn]
  congr 1
  omega

namespace OrderManagementSystem

variable {poolSize : Nat} {oms oms' : OrderManagementSystem poolSize}

def openQty (oms : OrderManagementSystem poolSize) (token : Nat) (side : Side) : Int :=
  oms.orders.sumBy fun _ po => (oms.slot po).order.openOn token side

def queuedOn (oms : OrderManagementSystem poolSize) (token : Nat) (side : Side) : Int :=
  (oms.fillQueue.contents.map fun fill => fill.amountOn token side).sum

def inFlight (oms : OrderManagementSystem poolSize) (token : Nat) (side : Side) : Int :=
  oms.openQty token side + oms.queuedOn token side

structure Bounded (oms : OrderManagementSystem poolSize) : Prop where
  wellFormed : oms.WellFormed
  within : oms.EachOrder PooledOrder.WithinQuantity
  queued : ∀ fill ∈ oms.fillQueue.contents, 0 ≤ fill.quantity

theorem Bounded.inFlight_nonneg (h : oms.Bounded) (token : Nat) (side : Side) :
    0 ≤ oms.inFlight token side := by
  refine add_nonneg (Dict.sumBy_nonneg fun oid po hlookup => ?_) (List.sum_nonneg fun x hx => ?_)
  · exact (h.within oid po hlookup).openOn_nonneg token side
  · obtain ⟨fill, hfill, rfl⟩ := List.mem_map.mp hx
    exact Side.amountOn_nonneg (h.queued fill hfill) _ _ _ _

theorem queued_push {queue : FillQueue} (h : ∀ fill ∈ queue.contents, 0 ≤ fill.quantity)
    {fill : Fill} (hfill : 0 ≤ fill.quantity) :
    ∀ fill' ∈ (queue.push fill).2.contents, 0 ≤ fill'.quantity := by
  by_cases hfull : queue.Full
  · rwa [SpscQueue.push_of_full hfull]
  · rw [SpscQueue.push_contents hfull, List.forall_mem_append]
    exact ⟨h, List.forall_mem_singleton.mpr hfill⟩

theorem queuedOn_push_le (queue : FillQueue) {fill : Fill} (hfill : 0 ≤ fill.quantity)
    (token : Nat) (side : Side) :
    ((queue.push fill).2.contents.map fun f => f.amountOn token side).sum ≤
      (queue.contents.map fun f => f.amountOn token side).sum + fill.amountOn token side := by
  have hnonneg : 0 ≤ fill.amountOn token side := Side.amountOn_nonneg hfill _ _ _ _
  by_cases hfull : queue.Full
  · rw [SpscQueue.push_of_full hfull]
    exact le_add_of_nonneg_right hnonneg
  · rw [SpscQueue.push_contents hfull, List.map_append, List.sum_append, List.map_singleton,
      List.sum_singleton]

section OpenQty

variable {oid : Str} {po : Fin poolSize} {p : PooledOrder}

def openWithout (oms : OrderManagementSystem poolSize) (oid : Str) (token : Nat) (side : Side) :
    Int :=
  Dict.sumBy (fun _ po => (oms.slot po).order.openOn token side) (oms.orders.erase oid)

theorem openQty_of_lookup (hlookup : oms.orders.lookup oid = some po) (token : Nat)
    (side : Side) :
    oms.openQty token side =
      (oms.slot po).order.openOn token side + oms.openWithout oid token side :=
  Dict.sumBy_of_lookup _ hlookup

private theorem openWithout_update (hpart : oms.book.Partitioned)
    (hslot : oms'.slot = Function.update oms.slot po p)
    (hlookup : oms.orders.lookup oid = some po) (token : Nat) (side : Side) :
    Dict.sumBy (fun _ po => (oms'.slot po).order.openOn token side) (oms.orders.erase oid) =
      oms.openWithout oid token side := by
  refine Dict.sumBy_congr fun oid' po' hlookup' => ?_
  obtain ⟨hoid, hheld⟩ := Dict.lookup_erase_eq_some.mp hlookup'
  have hne : po' ≠ po := by
    rintro rfl
    exact hoid (hpart.key_unique hheld hlookup)
  rw [hslot, Function.update_of_ne hne]

theorem openQty_update (hpart : oms.book.Partitioned)
    (hslot : oms'.slot = Function.update oms.slot po p) (hbook : oms'.book = oms.book)
    (hlookup : oms.orders.lookup oid = some po) (token : Nat) (side : Side) :
    oms'.openQty token side = p.order.openOn token side + oms.openWithout oid token side := by
  have horders : oms'.orders = oms.orders := congrArg OrderBook.orders hbook
  rw [openQty_of_lookup (by rw [horders]; exact hlookup), hslot, Function.update_self,
    openWithout, horders, openWithout_update hpart hslot hlookup]

theorem openQty_release (hpart : oms.book.Partitioned)
    (hslot : oms'.slot = Function.update oms.slot po p)
    (hbook : oms'.book = oms.book.release oid po)
    (hlookup : oms.orders.lookup oid = some po) (token : Nat) (side : Side) :
    oms'.openQty token side = oms.openWithout oid token side := by
  have horders : oms'.orders = oms.orders.erase oid := congrArg OrderBook.orders hbook
  rw [openQty, horders, openWithout_update hpart hslot hlookup]

theorem openQty_place {rest : List (Fin poolSize)}
    (hslot : oms'.slot = Function.update oms.slot po p)
    (hbook : oms'.book = (oms.book.take rest).issue.store oid po)
    (hfresh : oms.orders.lookup oid = none)
    (hfree : ∀ oid', oms.orders.lookup oid' ≠ some po) (token : Nat) (side : Side) :
    oms'.openQty token side = p.order.openOn token side + oms.openQty token side := by
  have horders : oms'.orders = oms.orders.insert oid po := congrArg OrderBook.orders hbook
  rw [openQty, horders, Dict.sumBy_insert, hslot, Function.update_self,
    ← Dict.sumBy_of_lookup_none _ hfresh, openQty]
  congr 1
  refine Dict.sumBy_congr fun oid' po' hlookup' => ?_
  rw [Function.update_of_ne]
  rintro rfl
  exact hfree oid' hlookup'

end OpenQty

structure Shrinks (oms oms' : OrderManagementSystem poolSize) : Prop where
  bounded : oms'.Bounded
  inFlight_le : ∀ token side, oms'.inFlight token side ≤ oms.inFlight token side

theorem Shrinks.refl (h : oms.Bounded) : oms.Shrinks oms := ⟨h, fun _ _ => le_rfl⟩

theorem Shrinks.trans {oms'' : OrderManagementSystem poolSize} (h : oms.Shrinks oms')
    (h' : oms'.Shrinks oms'') : oms.Shrinks oms'' :=
  ⟨h'.bounded, fun token side => (h'.inFlight_le token side).trans (h.inFlight_le token side)⟩

section Shrinks

variable {oid : Str} {po : Fin poolSize} {p : PooledOrder}

theorem shrinks_release (h : oms.Bounded) (hwf : oms'.WellFormed)
    (hslot : oms'.slot = Function.update oms.slot po p)
    (hbook : oms'.book = oms.book.release oid po) (hqueue : oms'.fillQueue = oms.fillQueue)
    (hlookup : oms.orders.lookup oid = some po) : oms.Shrinks oms' := by
  have hpart := h.wellFormed.partitioned
  refine ⟨⟨hwf, eachOrder_release h.within hpart hslot hbook hlookup, ?_⟩, fun token side => ?_⟩
  · rw [hqueue]
    exact h.queued
  · have hopen := (h.within oid po hlookup).openOn_nonneg token side
    rw [inFlight, inFlight, queuedOn, queuedOn, hqueue,
      openQty_release hpart hslot hbook hlookup, openQty_of_lookup hlookup]
    omega

theorem shrinks_of_eq (h : oms.Bounded) (hslot : oms'.slot = oms.slot)
    (hbook : oms'.book = oms.book) (hqueue : oms'.fillQueue = oms.fillQueue) :
    oms.Shrinks oms' := by
  have horders : oms'.orders = oms.orders := congrArg OrderBook.orders hbook
  have heach : ∀ {P : PooledOrder → Prop}, oms.EachOrder P → oms'.EachOrder P := by
    intro P hP
    rw [EachOrder, horders, hslot]
    exact hP
  refine ⟨⟨⟨hbook ▸ h.wellFormed.partitioned, heach h.wellFormed.unfinished⟩,
    heach h.within, ?_⟩, fun token side => ?_⟩
  · rw [hqueue]
    exact h.queued
  · rw [inFlight, openQty, queuedOn, horders, hslot, hqueue]
    exact le_rfl

theorem shrinks_onOrderAck (h : oms.Bounded) (exchangeOid internalOid : Str) :
    oms.Shrinks (oms.onOrderAck exchangeOid internalOid) := by
  cases hlookup : oms.orders.lookup internalOid with
  | none =>
      rw [onOrderAck_of_none oms hlookup]
      exact .refl h
  | some po =>
      have hslot : (oms.onOrderAck exchangeOid internalOid).slot = _ :=
        slot_onOrderAck oms hlookup
      have hbook := book_onOrderAck oms exchangeOid internalOid
      have hqueue : (oms.onOrderAck exchangeOid internalOid).fillQueue = oms.fillQueue := by
        rw [onOrderAck_of_some oms hlookup]
        rfl
      refine ⟨⟨wellFormed_onOrderAck h.wellFormed, ?_, ?_⟩, fun token side => ?_⟩
      · exact (eachOrder_update_iff h.within hslot hbook hlookup).mpr (h.within _ po hlookup)
      · rw [hqueue]
        exact h.queued
      · rw [inFlight, inFlight, queuedOn, queuedOn, hqueue, openQty_of_lookup hlookup,
          openQty_update h.wellFormed.partitioned hslot hbook hlookup]
        exact le_rfl

theorem shrinks_onReject (h : oms.Bounded) (exchangeOid reason : Str) :
    oms.Shrinks (oms.onReject exchangeOid reason) := by
  cases hlookup : oms.orders.lookup (oms.rejectTarget exchangeOid) with
  | none =>
      rw [onReject_of_none oms reason hlookup]
      exact shrinks_of_eq h rfl rfl rfl
  | some po =>
      have hwf := wellFormed_onReject exchangeOid reason h.wellFormed
      rw [onReject_of_some oms reason hlookup] at hwf ⊢
      exact shrinks_release h hwf rfl rfl rfl hlookup

theorem shrinks_dropOrder (h : oms.Bounded) (oid : Str) : oms.Shrinks (oms.dropOrder oid) := by
  cases hlookup : oms.orders.lookup oid with
  | none =>
      rw [dropOrder_of_none oms hlookup]
      exact .refl h
  | some po =>
      have hwf := wellFormed_dropOrder oid h.wellFormed
      rw [dropOrder_of_some oms hlookup] at hwf ⊢
      exact shrinks_release (p := oms.slot po) h hwf
        (Function.update_eq_self po oms.slot).symm rfl rfl hlookup

end Shrinks

section Fill

variable (report : FillReport) (nowNs : Nat)

def HasOpen (oms : OrderManagementSystem poolSize) (report : FillReport) : Prop :=
  0 ≤ report.quantity ∧ ∀ found ∈ oms.lookupFill report.exchangeOid,
    (oms.slot found.2).order.filledQty + report.quantity ≤ (oms.slot found.2).order.quantity

instance (oms : OrderManagementSystem poolSize) (report : FillReport) :
    Decidable (oms.HasOpen report) := inferInstanceAs (Decidable (_ ∧ _))

private theorem openQty_applyFill (h : oms.Bounded) (exchangeOid : Str)
    {internalOid : Str} {po : Fin poolSize} (hlookup : oms.orders.lookup internalOid = some po)
    (hwithin : ((oms.slot po).applyFill
      ((oms.slot po).order.buildFill internalOid report nowNs)).WithinQuantity)
    (token : Nat) (side : Side) :
    (oms.applyFill exchangeOid internalOid po
        ((oms.slot po).order.buildFill internalOid report nowNs)).openQty token side +
      ((oms.slot po).order.buildFill internalOid report nowNs).amountOn token side ≤
        oms.openQty token side := by
  have hpart := h.wellFormed.partitioned
  have htaken := (oms.slot po).openOn_applyFill internalOid report nowNs token side
  have hleft := hwithin.openOn_nonneg token side
  rw [openQty_of_lookup hlookup token side]
  generalize (oms.slot po).order.buildFill internalOid report nowNs = fill at *
  have hslot := slot_applyFill oms exchangeOid internalOid po fill
  have hbook := book_applyFill oms exchangeOid internalOid po fill
  split at hbook
  · rw [openQty_release hpart hslot hbook hlookup]
    omega
  · rw [openQty_update hpart hslot hbook hlookup]
    omega

/-- What a fill takes from the open part of its order is at most added to the queue. -/
theorem shrinks_deliverFill (h : oms.Bounded) {report : FillReport} (hopen : oms.HasOpen report) :
    oms.Shrinks (oms.deliverFill report nowNs) := by
  cases hfound : oms.lookupFill report.exchangeOid with
  | none =>
      rw [deliverFill_of_none oms nowNs hfound]
      exact .refl h
  | some found =>
      obtain ⟨internalOid, po⟩ := found
      obtain ⟨-, hlookup⟩ := (lookupFill_eq_some oms).mp hfound
      have hwithin := hopen.2 (internalOid, po) hfound
      have heach := (eachOrder_deliverFill_iff report nowNs h.within h.wellFormed.partitioned
        hfound).mpr fun _ => hwithin
      have hqueue := fillQueue_deliverFill oms nowNs hfound
      have htaken := openQty_applyFill report nowNs h report.exchangeOid hlookup hwithin
      have hrest : (oms.deliverFill report nowNs).openQty = (oms.applyFill report.exchangeOid
          internalOid po ((oms.slot po).order.buildFill internalOid report nowNs)).openQty := by
        rw [deliverFill_of_some oms nowNs hfound]
        rfl
      have hfill : 0 ≤ ((oms.slot po).order.buildFill internalOid report nowNs).quantity :=
        hopen.1
      generalize (oms.slot po).order.buildFill internalOid report nowNs = fill at *
      refine ⟨⟨wellFormed_deliverFill report nowNs h.wellFormed, heach, ?_⟩, fun token side => ?_⟩
      · rw [hqueue]
        exact queued_push h.queued hfill
      · have hopened := htaken token side
        have hpushed := queuedOn_push_le oms.fillQueue hfill token side
        rw [inFlight, inFlight, hrest, queuedOn, hqueue]
        exact (add_le_add_right hpushed _).trans (by rw [queuedOn]; omega)

theorem shrinks_onFill (h : oms.Bounded) {report : FillReport}
    (hopen : oms.Admits report → oms.HasOpen report) :
    oms.Shrinks (oms.onFill report nowNs) := by
  by_cases hadmits : oms.Admits report
  · rw [onFill_of_admits oms nowNs hadmits]
    have hmarked : oms.Shrinks { oms with dedup := oms.markedDedup report } :=
      shrinks_of_eq h rfl rfl rfl
    exact hmarked.trans (shrinks_deliverFill nowNs hmarked.bounded (hopen hadmits))
  · rw [onFill_of_not_admits oms nowNs hadmits]
    exact shrinks_of_eq h rfl rfl rfl

end Fill

section Submit

variable (req : OrderRequest) (tsMs placedNs fillNs : Nat)

private theorem placed_bounded (h : oms.Bounded) (hreq : 0 ≤ req.quantity) {po : Fin poolSize}
    {rest : List (Fin poolSize)} (hfree : oms.pool.freeList = po :: rest) :
    (oms.placed po rest req tsMs placedNs).Bounded ∧ ∀ token side,
      (oms.placed po rest req tsMs placedNs).inFlight token side =
        oms.inFlight token side + req.amountOn token side := by
  have hpart := h.wellFormed.partitioned
  have hslot := slot_placed oms po rest req tsMs placedNs
  have htop : po ∈ oms.book.freeList := by
    change po ∈ oms.pool.freeList
    rw [hfree]
    exact List.mem_cons_self ..
  have hheld : ∀ oid, oms.orders.lookup oid ≠ some po := fun oid hlookup =>
    hpart.notMem_freeList hlookup htop
  refine ⟨⟨wellFormed_placed po rest req tsMs placedNs h.wellFormed hfree,
    eachOrder_place hslot rfl h.within hreq, h.queued⟩, fun token side => ?_⟩
  rw [inFlight, openQty_place hslot rfl (hpart.lookup_fresh tsMs) hheld]
  change Side.amountOn token side req.instrumentToken req.side (req.quantity - 0) + _ +
    oms.queuedOn token side = _
  rw [sub_zero, inFlight, OrderRequest.amountOn]
  omega

private theorem hasOpen_paper (hreq : 0 ≤ req.quantity) (po : Fin poolSize)
    (rest : List (Fin poolSize)) :
    ((oms.placed po rest req tsMs placedNs).onOrderAck (paperOid (orderId tsMs oms.seq))
      (orderId tsMs oms.seq)).HasOpen (paperReport req (orderId tsMs oms.seq)) := by
  have hlookup := lookup_placed oms po rest req tsMs placedNs
  refine ⟨hreq, fun found hfound => ?_⟩
  have hacked := lookupFill_onOrderAck _ (paperOid (orderId tsMs oms.seq)) hlookup
  obtain rfl := Option.some.inj (hacked.symm.trans hfound)
  rw [slot_onOrderAck _ hlookup, Function.update_self, slot_placed, Function.update_self]
  change 0 + req.quantity ≤ req.quantity
  omega

theorem submit_bounded (h : oms.Bounded) (hreq : 0 ≤ req.quantity) :
    (oms.submit req tsMs placedNs fillNs).2.Bounded ∧ ∀ token side,
      (oms.submit req tsMs placedNs fillNs).2.inFlight token side ≤
        oms.inFlight token side + req.amountOn token side := by
  cases hfree : oms.pool.freeList with
  | nil =>
      rw [submit_of_nil oms req tsMs placedNs fillNs hfree]
      exact ⟨h, fun token side =>
        le_add_of_nonneg_right (Side.amountOn_nonneg hreq _ _ _ _)⟩
  | cons po rest =>
      obtain ⟨hplaced, hadded⟩ := placed_bounded req tsMs placedNs h hreq hfree
      rw [submit_of_cons oms req tsMs placedNs fillNs hfree]
      have hnext : (oms.placed po rest req tsMs placedNs).Shrinks
          (if oms.paperMode then
            ((oms.placed po rest req tsMs placedNs).onOrderAck (paperOid (orderId tsMs oms.seq))
              (orderId tsMs oms.seq)).onFill (paperReport req (orderId tsMs oms.seq)) fillNs
          else (oms.placed po rest req tsMs placedNs).record
            (.placeOrder (orderId tsMs oms.seq) req)) := by
        split
        · have hacked := shrinks_onOrderAck hplaced (paperOid (orderId tsMs oms.seq))
            (orderId tsMs oms.seq)
          exact hacked.trans (shrinks_onFill fillNs hacked.bounded fun _ =>
            hasOpen_paper req tsMs placedNs hreq po rest)
        · exact shrinks_of_eq hplaced rfl rfl rfl
      exact ⟨hnext.bounded, fun token side =>
        (hnext.inFlight_le token side).trans (hadded token side).le⟩

end Submit

/-- No order is submitted, and a report that is let through fits its order. -/
def Reduces (oms : OrderManagementSystem poolSize) : OmsCall → Prop
  | .submit .. => False
  | .onFill report _ => oms.Admits report → oms.HasOpen report
  | _ => True

instance (oms : OrderManagementSystem poolSize) : DecidablePred oms.Reduces
  | .submit .. => inferInstanceAs (Decidable False)
  | .onFill _ _ => inferInstanceAs (Decidable (_ → _))
  | .onOrderAck .. | .onReject .. | .placementFailed .. | .cancel .. | .cancelAllOpen
  | .resetForEod => inferInstanceAs (Decidable True)

theorem bounded_init (poolSize : Nat) (paperMode : Bool) : (init poolSize paperMode).Bounded :=
  ⟨wellFormed_init poolSize paperMode, fun _ _ hlookup => by simp [init] at hlookup,
    fun _ hfill => by simp [init] at hfill⟩

theorem shrinks_step (h : oms.Bounded) {call : OmsCall} (hcall : oms.Reduces call) :
    oms.Shrinks (oms.step call) := by
  cases call with
  | submit req tsMs placedNs fillNs => exact hcall.elim
  | onOrderAck exchangeOid internalOid => exact shrinks_onOrderAck h exchangeOid internalOid
  | onFill report nowNs => exact shrinks_onFill nowNs h hcall
  | onReject exchangeOid reason => exact shrinks_onReject h exchangeOid reason
  | placementFailed oid reason =>
      have hrejected := shrinks_onReject h [] reason
      exact hrejected.trans (shrinks_dropOrder hrejected.bounded oid)
  | cancel oid =>
      obtain heq | ⟨exchangeOid, heq⟩ := oms.cancel_eq oid
      · rw [step, heq]
        exact .refl h
      · rw [step, heq]
        exact shrinks_of_eq h rfl rfl rfl
  | cancelAllOpen =>
      exact cancelAllOpen_induction oms (P := oms.Shrinks)
        (fun _ _ hnext => hnext.trans (shrinks_of_eq hnext.bounded rfl rfl rfl)) (.refl h)
  | resetForEod => exact shrinks_of_eq h rfl rfl rfl

end OrderManagementSystem

end QuantForge
