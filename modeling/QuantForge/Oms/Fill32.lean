import QuantForge.Common.Int32
import QuantForge.Oms.LiveBook

/-! `on_fill` with `filled_qty` as the `int` that it is: the sum of the quantities wraps. It does
what the exact `on_fill` does with a report of what the wrapped sum adds, but for the fill that is
pushed and recorded. -/
namespace QuantForge

open Library

def Order.credit32 (o : Order) (fill : Fill) : Order :=
  { o.credit fill with filledQty := wrap32 (o.filledQty + fill.quantity) }

def Order.added32 (o : Order) (quantity : Int) : Int :=
  wrap32 (o.filledQty + quantity) - o.filledQty

theorem Order.credit32_eq (o : Order) (fill : Fill) :
    o.credit32 fill = o.credit { fill with quantity := o.added32 fill.quantity } := by
  have hsum : o.filledQty + o.added32 fill.quantity = wrap32 (o.filledQty + fill.quantity) :=
    add_sub_cancel _ _
  rw [credit32, credit, credit, ← hsum]

namespace OrderManagementSystem

variable {poolSize : Nat}

section Definitions

variable (oms : OrderManagementSystem poolSize)

def creditOrder32 (po : Fin poolSize) (fill : Fill) : OrderManagementSystem poolSize :=
  (oms.modifySlot po fun p => { p with order := p.order.credit32 fill }).record
    (.credited (oms.slot po).order fill.quantity)

def applyFill32 (exchangeOid internalOid : Str) (po : Fin poolSize) (fill : Fill) :
    OrderManagementSystem poolSize :=
  let credited := oms.creditOrder32 po fill
  let target := (credited.slot po).order.fillTarget
  ((credited.transition internalOid po target).writeStatus po target).retireIfTerminal
    exchangeOid internalOid po

def deliverFill32 (report : FillReport) (nowNs : Nat) : OrderManagementSystem poolSize :=
  match oms.lookupFill report.exchangeOid with
  | none => oms
  | some (internalOid, po) =>
      let fill := (oms.slot po).order.buildFill internalOid report nowNs
      ((oms.applyFill32 report.exchangeOid internalOid po fill).pushFill fill).record
        (.fillCallback fill)

def onFill32 (report : FillReport) (nowNs : Nat) : OrderManagementSystem poolSize :=
  if report.tradeId = [] then oms.deliverFill32 report nowNs
  else
    match oms.dedup.tryMark report.tradeId with
    | (false, dedup) => { oms with dedup := dedup }
    | (true, dedup) =>
        OrderManagementSystem.deliverFill32 { oms with dedup := dedup } report nowNs

/-- The fill that `submit` simulates is for the `int` of the request, on a record without fills:
its sum is in range. -/
def step32 (oms : OrderManagementSystem poolSize) : OmsCall → OrderManagementSystem poolSize
  | .onFill report nowNs => oms.onFill32 report nowNs
  | call => oms.step call

/-- The report of what the wrapped sum adds. -/
def unwrapped (report : FillReport) : FillReport :=
  { report with
    quantity := (oms.recordOf (oms.resolve report.exchangeOid)).elim report.quantity fun p =>
      p.order.added32 report.quantity }

def SameOrders (oms' : OrderManagementSystem poolSize) : Prop :=
  ∃ queue trace, oms' = { oms with fillQueue := queue, trace := trace }

end Definitions

variable {oms oms' : OrderManagementSystem poolSize}

theorem SameOrders.recordOf_eq (h : oms.SameOrders oms') : oms'.recordOf = oms.recordOf := by
  obtain ⟨queue, trace, rfl⟩ := h
  rfl

theorem SameOrders.issuing_eq (h : oms.SameOrders oms') : oms'.issuing = oms.issuing := by
  obtain ⟨queue, trace, rfl⟩ := h
  rfl

theorem SameOrders.wellFormed (h : oms.SameOrders oms') (hwf : oms.WellFormed) :
    oms'.WellFormed := by
  obtain ⟨queue, trace, rfl⟩ := h
  exact ⟨hwf.partitioned, hwf.unfinished⟩

private theorem SameOrders.retireIfTerminal (h : oms.SameOrders oms') (exchangeOid oid : Str)
    (po : Fin poolSize) :
    (oms.retireIfTerminal exchangeOid oid po).SameOrders
      (oms'.retireIfTerminal exchangeOid oid po) := by
  obtain ⟨queue, trace, rfl⟩ := h
  unfold OrderManagementSystem.retireIfTerminal
  change SameOrders _ (if (oms.slot po).sm.isTerminal = true then _ else _)
  split
  · exact ⟨queue, _, rfl⟩
  · exact ⟨queue, trace, rfl⟩

theorem sameOrders_applyFill32 (oms : OrderManagementSystem poolSize) (exchangeOid oid : Str)
    (po : Fin poolSize) (fill : Fill) :
    (oms.applyFill exchangeOid oid po
        { fill with quantity := (oms.slot po).order.added32 fill.quantity }).SameOrders
      (oms.applyFill32 exchangeOid oid po fill) := by
  have hcredit : (oms.creditOrder po
      { fill with quantity := (oms.slot po).order.added32 fill.quantity }).SameOrders
        (oms.creditOrder32 po fill) := by
    refine ⟨oms.fillQueue, (oms.creditOrder32 po fill).trace, ?_⟩
    have hslot := (oms.slot po).order.credit32_eq fill
    unfold slot at hslot ⊢
    simp only [creditOrder32, creditOrder, modifySlot, OrderPool.modify, record, hslot, slot]
  unfold applyFill applyFill32
  obtain ⟨queue, trace, heq⟩ := hcredit
  rw [heq]
  exact SameOrders.retireIfTerminal ⟨queue, _, rfl⟩ exchangeOid oid po

private theorem sameOrders_deliverFill32 (oms : OrderManagementSystem poolSize)
    (report : FillReport) (nowNs : Nat) :
    (oms.deliverFill (oms.unwrapped report) nowNs).SameOrders
      (oms.deliverFill32 report nowNs) := by
  have hid : (oms.unwrapped report).exchangeOid = report.exchangeOid := rfl
  unfold deliverFill deliverFill32
  rw [hid]
  cases hfound : oms.lookupFill report.exchangeOid with
  | none => exact ⟨oms.fillQueue, oms.trace, rfl⟩
  | some found =>
      obtain ⟨internalOid, po⟩ := found
      obtain ⟨rfl, hlookup⟩ := (lookupFill_eq_some oms).mp hfound
      have hrecord := recordOf_of_lookup hlookup
      obtain ⟨queue, trace, heq⟩ := sameOrders_applyFill32 oms report.exchangeOid
        (oms.resolve report.exchangeOid) po
        ((oms.slot po).order.buildFill (oms.resolve report.exchangeOid) report nowNs)
      have hbuild : (oms.slot po).order.buildFill (oms.resolve report.exchangeOid)
          (oms.unwrapped report) nowNs =
            { (oms.slot po).order.buildFill (oms.resolve report.exchangeOid) report nowNs with
              quantity := (oms.slot po).order.added32 report.quantity } := by
        rw [unwrapped, hrecord]
        rfl
      dsimp only
      rw [heq, hbuild]
      exact ⟨_, _, rfl⟩

/-- The wrapping `on_fill` is the exact one on the unwrapped report. -/
theorem sameOrders_onFill32 (oms : OrderManagementSystem poolSize) (report : FillReport)
    (nowNs : Nat) :
    (oms.onFill (oms.unwrapped report) nowNs).SameOrders (oms.onFill32 report nowNs) := by
  have htrade : (oms.unwrapped report).tradeId = report.tradeId := rfl
  unfold onFill onFill32
  rw [htrade]
  split
  · exact sameOrders_deliverFill32 oms report nowNs
  · cases oms.dedup.tryMark report.tradeId with
    | mk marked dedup =>
        cases marked with
        | false => exact ⟨oms.fillQueue, oms.trace, rfl⟩
        | true => exact sameOrders_deliverFill32 { oms with dedup := dedup } report nowNs

end OrderManagementSystem

end QuantForge
