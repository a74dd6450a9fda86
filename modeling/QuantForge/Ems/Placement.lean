import QuantForge.Ems.ExecutionManagementSystem
import QuantForge.Oms.Lifecycle

/-! The placement of a live order, from the request to the callbacks that `submit` hands to
`place_order`. -/
namespace QuantForge

open Library UpstoxRestClient

/-- A call of one of the callbacks that `submit` passes to `place_order`. -/
inductive PlacementCall where
  | ack (exchangeOid : Str)
  | reject (reason : Str)
  deriving DecidableEq

/-- The callbacks that the placement of an order calls. -/
def placementCalls (parse : Str → Option Json) (client : UpstoxRestClient)
    (network : HttpRequest → Exchange) (req : OrderRequest) (oid : Str) : List PlacementCall :=
  ExecutionManagementSystem.placeOrder parse client network req oid
    (some fun exchangeOid calls => calls ++ [.ack exchangeOid])
    (some fun reason calls => calls ++ [.reject reason]) []

namespace OrderManagementSystem

variable {poolSize : Nat} (oms : OrderManagementSystem poolSize)

def completePlacement (parse : Str → Option Json) (client : UpstoxRestClient)
    (network : HttpRequest → Exchange) (req : OrderRequest) (oid : Str) :
    OrderManagementSystem poolSize :=
  ExecutionManagementSystem.placeOrder parse client network req oid
    (some fun exchangeOid oms => oms.onOrderAck exchangeOid oid)
    (some fun reason oms => oms.placementFailed oid reason) oms

def LeftPending (oid : Str) : Prop :=
  ∃ po, oms.orders.lookup oid = some po ∧ (oms.slot po).order.status = .pending

end OrderManagementSystem

section Placement

variable (parse : Str → Option Json) {client : UpstoxRestClient}
  {network : HttpRequest → Exchange} {req : OrderRequest} {oid : Str}

/-- The response of a successful exchange from which no order id can be read. -/
def Unreadable (x : Exchange) : Prop := x.Succeeds ∧ readOrderId parse x.body = none

/-- What a placement of the live mode comes to: an acknowledgement, a reject, or nothing. -/
theorem placeOrder_cases (hlive : client.paperMode = false) (network : HttpRequest → Exchange)
    (req : OrderRequest) (oid : Str) :
    let x := network (client.placeOrderRequest req oid)
    (∃ exchangeOid, x.Succeeds ∧ readOrderId parse x.body = some exchangeOid ∧
      ∀ {σ : Type} (onAck onReject : Callback σ) (s : σ),
        ExecutionManagementSystem.placeOrder parse client network req oid onAck onReject s =
          onAck.call exchangeOid s) ∨
    (Unreadable parse x ∧ ∀ {σ : Type} (onAck onReject : Callback σ) (s : σ),
      ExecutionManagementSystem.placeOrder parse client network req oid onAck onReject s = s) ∨
    (¬x.Succeeds ∧ ∃ reason, ∀ {σ : Type} (onAck onReject : Callback σ) (s : σ),
      ExecutionManagementSystem.placeOrder parse client network req oid onAck onReject s =
        onReject.call reason s) := by
  intro x
  have hrequest : ∀ {σ : Type} (onSuccess onError : Callback σ) (s : σ),
      client.placeOrder network req oid onSuccess onError s =
        onResolve x onSuccess onError s := by
    intro σ onSuccess onError s
    rw [placeOrder, hlive]
    rfl
  by_cases hsucceeds : x.Succeeds
  · cases hread : readOrderId parse x.body with
    | some exchangeOid =>
        left
        refine ⟨exchangeOid, hsucceeds, rfl, fun onAck onReject s => ?_⟩
        rw [ExecutionManagementSystem.placeOrder, hrequest, onResolve_of_succeeds hsucceeds]
        simp only [Callback.call, hread]
    | none =>
        right
        left
        refine ⟨⟨hsucceeds, hread⟩, fun onAck onReject s => ?_⟩
        rw [ExecutionManagementSystem.placeOrder, hrequest, onResolve_of_succeeds hsucceeds]
        simp only [Callback.call, hread]
  · right
    right
    obtain ⟨reason, hreason⟩ := fails_onResolve hsucceeds
    refine ⟨hsucceeds, reason, fun onAck onReject s => ?_⟩
    rw [ExecutionManagementSystem.placeOrder, hrequest]
    exact hreason _ _ s

end Placement

namespace OrderManagementSystem

variable {poolSize : Nat} {oms : OrderManagementSystem poolSize} {oid : Str}

theorem not_leftPending_onOrderAck (exchangeOid : Str) :
    ¬(oms.onOrderAck exchangeOid oid).LeftPending oid := by
  rintro ⟨po, hlookup, hstatus⟩
  cases hbefore : oms.orders.lookup oid with
  | none =>
      rw [onOrderAck_of_none oms hbefore, hbefore] at hlookup
      contradiction
  | some po' =>
      have horders : (oms.onOrderAck exchangeOid oid).orders = oms.orders :=
        congrArg OrderBook.orders (book_onOrderAck oms exchangeOid oid)
      rw [horders] at hlookup
      obtain rfl : po' = po := Option.some.inj (hbefore.symm.trans hlookup)
      rw [slot_onOrderAck oms hbefore, Function.update_self] at hstatus
      contradiction

theorem lookup_placementFailed (reason : Str) :
    (oms.placementFailed oid reason).orders.lookup oid = none := by
  rw [placementFailed]
  cases hlookup : (oms.onReject [] reason).orders.lookup oid with
  | none => rwa [dropOrder_of_none _ hlookup]
  | some po =>
      rw [dropOrder_of_some _ hlookup]
      exact AList.lookup_erase oid _

/-- A live placement ends in exactly one call of exactly one callback, and does not leave its
order pending, exactly when it is not a success from which no order id can be read. -/
theorem placement_resolved_iff (parse : Str → Option Json) {client : UpstoxRestClient}
    (hlive : client.paperMode = false) (network : HttpRequest → Exchange) (req : OrderRequest)
    (hpending : oms.LeftPending oid) :
    ((placementCalls parse client network req oid).length = 1 ∧
      ¬(oms.completePlacement parse client network req oid).LeftPending oid) ↔
      ¬Unreadable parse (network (client.placeOrderRequest req oid)) := by
  unfold placementCalls completePlacement
  obtain ⟨exchangeOid, -, hread, hplace⟩ | ⟨hunreadable, hplace⟩ | ⟨hfails, reason, hplace⟩ :=
    placeOrder_cases parse hlive network req oid
  · rw [hplace, hplace]
    refine iff_of_true ⟨rfl, not_leftPending_onOrderAck exchangeOid⟩ fun hunreadable => ?_
    rw [hunreadable.2] at hread
    contradiction
  · rw [hplace, hplace]
    exact iff_of_false (fun hresolved => hresolved.2 hpending) (not_not.mpr hunreadable)
  · rw [hplace, hplace]
    refine iff_of_true ⟨rfl, ?_⟩ fun hunreadable => hfails hunreadable.1
    rintro ⟨po, hlookup, -⟩
    change (oms.placementFailed oid reason).orders.lookup oid = some po at hlookup
    rw [lookup_placementFailed] at hlookup
    contradiction

section Response

def listing (ids : List Str) : Json :=
  .object [("data".toList, .object [("order_ids".toList, .strings ids)])]

def emptyListing : Str := "\x7b\"data\":\x7b\"order_ids\":[]\x7d\x7d".toList

def oneListing : Str := "\x7b\"data\":\x7b\"order_ids\":[\"E\"]\x7d\x7d".toList

def parseListing (body : Str) : Option Json :=
  if body = emptyListing then some (listing [])
  else if body = oneListing then some (listing [['E']])
  else none

def waiting : OrderManagementSystem 1 :=
  Run.run step (init 1 false) [.submit { instrumentToken := 1, quantity := 10 } 0 0 0]

theorem placement_resolved_one_id :
    (placementCalls parseListing ⟨[], false⟩ (fun _ => { body := oneListing })
        { instrumentToken := 1, quantity := 10 } (orderId 0 0)).length = 1 ∧
      ¬(waiting.completePlacement parseListing ⟨[], false⟩ (fun _ => { body := oneListing })
        { instrumentToken := 1, quantity := 10 } (orderId 0 0)).LeftPending (orderId 0 0) := by
  refine (placement_resolved_iff parseListing rfl _ _ ⟨0, ?_, ?_⟩).mpr fun hunreadable => ?_
  · decide +kernel
  · decide +kernel
  · exact absurd hunreadable.2 (by decide +kernel)

/-- The broker answers 200 with an empty list: neither callback is called, and the order keeps
its slot. -/
theorem empty_order_ids_leave_pending :
    let oms := waiting.completePlacement parseListing ⟨[], false⟩
      (fun _ => { body := emptyListing }) { instrumentToken := 1, quantity := 10 } (orderId 0 0)
    placementCalls parseListing ⟨[], false⟩ (fun _ => { body := emptyListing })
        { instrumentToken := 1, quantity := 10 } (orderId 0 0) = [] ∧
      oms.LeftPending (orderId 0 0) ∧ oms.pool.available = 0 := by
  intro oms
  exact ⟨by decide +kernel, ⟨0, by decide +kernel, by decide +kernel⟩, by decide +kernel⟩

end Response

end OrderManagementSystem

end QuantForge
