import QuantForge.Oms.BookMoves

/-! What a failed placement reports. The failure callback of `submit` first rejects the empty
exchange id, and with it whatever that id leads to, and only then returns the order to the pool. -/
namespace QuantForge

open Library OrderStateMachine

def OmsEffect.rejection : OmsEffect → Option (Str × Str)
  | .rejectCallback oid reason => some (oid, reason)
  | _ => none

def OmsEffect.releaseOf (oid : Str) : OmsEffect → Option OrderStatus
  | .released oid' status => if oid' = oid then some status else none
  | _ => none

namespace OrderManagementSystem

variable {poolSize : Nat}

def rejections (oms : OrderManagementSystem poolSize) : List (Str × Str) :=
  oms.trace.filterMap OmsEffect.rejection

def releasesOf (oms : OrderManagementSystem poolSize) (oid : Str) : List OrderStatus :=
  oms.trace.filterMap (OmsEffect.releaseOf oid)

structure ReportsRejection (oms after : OrderManagementSystem poolSize) (oid reason : Str) :
    Prop where
  callback : after.rejections = (oid, reason) :: oms.rejections
  released : ∃ statuses, after.releasesOf oid = statuses ++ oms.releasesOf oid ∧
    ∀ status ∈ statuses, status = .rejected
  orders : ∀ other, other ≠ oid → after.orders.lookup other = oms.orders.lookup other
  links : ∀ e, oms.linkOf e ≠ some oid → after.linkOf e = oms.linkOf e

variable {oms : OrderManagementSystem poolSize}

theorem orderId_ne_nil (ts k : Nat) : orderId ts k ≠ [] := nofun

section Failure

variable {oid : Str}

theorem rejections_onReject (oms : OrderManagementSystem poolSize) (exchangeOid reason : Str) :
    (oms.onReject exchangeOid reason).rejections =
      (oms.rejectTarget exchangeOid, reason) :: oms.rejections := by
  cases hlookup : oms.orders.lookup (oms.rejectTarget exchangeOid) with
  | none =>
      rw [onReject_of_none oms reason hlookup]
      rfl
  | some po =>
      rw [onReject_of_some oms reason hlookup]
      rfl

theorem rejections_dropOrder (oms : OrderManagementSystem poolSize) (dropped : Str) :
    (oms.dropOrder dropped).rejections = oms.rejections := by
  unfold dropOrder
  split <;> rfl

theorem rejections_placementFailed (oms : OrderManagementSystem poolSize) (oid reason : Str) :
    (oms.placementFailed oid reason).rejections =
      (oms.rejectTarget [], reason) :: oms.rejections := by
  rw [placementFailed, rejections_dropOrder, rejections_onReject]

theorem rejectTarget_empty_iff (hne : oid ≠ []) :
    oms.rejectTarget [] = oid ↔ oms.linkOf [] = some oid := by
  unfold rejectTarget linkOf
  cases oms.exchangeToInternal.lookup [] with
  | none => exact iff_of_false hne.symm (Option.some_ne_none oid).symm
  | some linked => exact (Option.some_inj).symm

private theorem releasesOf_placementFailed (hlink : oms.linkOf [] = some oid) {p : PooledOrder}
    (hrecord : oms.recordOf oid = some p) (reason : Str) :
    (oms.placementFailed oid reason).releasesOf oid =
      (p.sm.transition .rejected).2.current :: oms.releasesOf oid := by
  have htarget : oms.rejectTarget [] = oid := rejectTarget_of_linkOf hlink
  obtain ⟨po, hlookup, rfl⟩ := recordOf_eq_some.mp hrecord
  have hfound : oms.orders.lookup (oms.rejectTarget []) = some po := htarget ▸ hlookup
  have hreject := onReject_of_some oms reason hfound
  have hgone : (oms.onReject [] reason).orders.lookup oid = none := by
    rw [hreject, htarget]
    exact AList.lookup_erase oid oms.orders
  rw [placementFailed, dropOrder_of_none _ hgone, hreject, htarget]
  simp [releasesOf, OmsEffect.releaseOf, List.filterMap_cons]

private theorem not_rejected_of_linked (h : oms.LinksAcked) (hlink : oms.linkOf [] = some oid)
    {p : PooledOrder} (hrecord : oms.recordOf oid = some p) :
    (p.sm.transition .rejected).2.current ≠ .rejected := by
  have hmoved := h.moved [] oid p hlink hrecord
  have hunfinished : p.sm.isTerminal = false := h.toLiveBook.unfinished hrecord
  rw [transition_current]
  unfold isTerminal at hunfinished
  cases hcurrent : p.sm.current with
  | pending => exact absurd hcurrent hmoved
  | rejected =>
      rw [hcurrent] at hunfinished
      contradiction
  | opened => decide
  | partlyFilled => decide
  | complete => decide
  | cancelled => decide
  | triggerPending => decide

/-- The placement failure of an order that was submitted is reported as its rejection exactly
when the order has left `orders_` and the empty exchange id leads to it. -/
theorem reportsRejection_iff (h : oms.LinksAcked) (hissued : oms.book.Issued oid) (reason : Str) :
    oms.ReportsRejection (oms.placementFailed oid reason) oid reason ↔
      oms.linkOf [] = some oid ∧ oms.recordOf oid = none := by
  have hne : oid ≠ [] := by
    obtain ⟨ts, k, -, rfl⟩ := hissued
    exact orderId_ne_nil ts k
  constructor
  · intro hreports
    have hcallback := hreports.callback
    rw [rejections_placementFailed] at hcallback
    have hlink : oms.linkOf [] = some oid :=
      (rejectTarget_empty_iff hne).mp (Prod.mk.inj (List.cons.inj hcallback).1).1
    refine ⟨hlink, ?_⟩
    cases hrecord : oms.recordOf oid with
    | none => rfl
    | some p =>
        obtain ⟨statuses, hreleased, hrejected⟩ := hreports.released
        rw [releasesOf_placementFailed hlink hrecord reason] at hreleased
        have hstatus : statuses = [(p.sm.transition .rejected).2.current] :=
          (List.append_cancel_right (hreleased : [_] ++ oms.releasesOf oid = _)).symm
        have hcurrent := hrejected _ (hstatus ▸ List.mem_singleton_self _)
        exact absurd hcurrent (not_rejected_of_linked h hlink hrecord)
  · rintro ⟨hlink, hrecord⟩
    have hlookup := recordOf_eq_none.mp hrecord
    have htarget : oms.rejectTarget [] = oid := rejectTarget_of_linkOf hlink
    rw [placementFailed, onReject_of_none oms reason (htarget ▸ hlookup),
      dropOrder_of_none _ (by exact hlookup), htarget]
    have hnone : ∀ status ∈ ([] : List OrderStatus), status = .rejected :=
      fun _ hmem => absurd hmem List.not_mem_nil
    exact ⟨rfl, ⟨[], rfl, hnone⟩, fun _ _ => rfl, fun _ _ => rfl⟩

end Failure

/-- After any calls, a live submit that got a slot, and any calls after it: the failure of its
placement is reported as its rejection exactly when the order has left `orders_` and the empty
exchange id still leads to it. -/
theorem failed_placement_reported_iff {poolSize : Nat} (before later : List OmsCall)
    (req : OrderRequest) (tsMs placedNs fillNs : Nat) (reason : Str)
    (haccepted : ((Run.run step (init poolSize false) before).submit req tsMs placedNs
      fillNs).1 = true) :
    let placing := Run.run step (init poolSize false) before
    let oid := orderId tsMs placing.seq
    let oms := Run.run step placing (.submit req tsMs placedNs fillNs :: later)
    oms.ReportsRejection (oms.placementFailed oid reason) oid reason ↔
      oms.linkOf [] = some oid ∧ oms.recordOf oid = none := by
  intro placing oid oms
  have hplacing : placing.LinksAcked :=
    Run.run_invariant LinksAcked (fun _ call h => h.step call) (linksAcked_init poolSize) before
  have hsubmitted := hplacing.step (.submit req tsMs placedNs fillNs)
  have hissued : (placing.step (.submit req tsMs placedNs fillNs)).book.Issued oid := by
    cases hfree : placing.pool.freeList with
    | nil =>
        rw [submit_of_nil placing req tsMs placedNs fillNs hfree] at haccepted
        contradiction
    | cons po rest =>
        refine ⟨tsMs, placing.seq, ?_, rfl⟩
        rw [step, submit_of_cons placing req tsMs placedNs fillNs hfree, hplacing.live]
        exact Nat.lt_succ_self placing.seq
  have hrun : oms.LinksAcked ∧ oms.book.Issued oid := by
    refine Run.run_invariant (fun oms => LinksAcked oms ∧ oms.book.Issued oid)
      (fun _ call h => ?_) ⟨hsubmitted, hissued⟩ later
    exact ⟨h.1.step call, issued_step h.1.live h.2 call⟩
  exact reportsRejection_iff hrun.1 hrun.2 reason

theorem failed_placement_reported_late :
    let calls : List OmsCall := [.submit { instrumentToken := 1, quantity := 1 } 0 0 0,
      .onOrderAck [] (orderId 0 0), .onOrderAck ['E'] (orderId 0 0), .onFill ⟨['E'], 100, 1, []⟩ 0]
    let oms := Run.run step (init 1 false) calls
    oms.ReportsRejection (oms.placementFailed (orderId 0 0) ['X']) (orderId 0 0) ['X'] := by
  intro calls oms
  refine (@failed_placement_reported_iff 1 [] calls.tail
    { instrumentToken := 1, quantity := 1 } 0 0 0 ['X'] ?_).mpr ⟨?_, ?_⟩
  · decide +kernel
  · decide +kernel
  · apply Option.isNone_iff_eq_none.mp
    decide +kernel

/-- Of a fresh order: the callback names the empty id, and the order is released while pending. -/
theorem failed_placement_names_nothing :
    let oms := ((init 1 false).submit { instrumentToken := 1, quantity := 1 } 0 0 0).2
    let after := oms.placementFailed (orderId 0 0) ['X']
    after.rejections = [([], ['X'])] ∧ after.releasesOf (orderId 0 0) = [.pending] ∧
      ¬oms.ReportsRejection after (orderId 0 0) ['X'] := by
  refine ⟨by decide +kernel, by decide +kernel, ?_⟩
  intro hreports
  have hcallback := hreports.callback
  revert hcallback
  decide +kernel

end OrderManagementSystem

end QuantForge
