import QuantForge.Transport.UpstoxRestClient

/-! `ems/ems.cpp`. `parse` stands for the JSON parser, `none` when it throws; an exception
while the response is read is caught and only logged. -/
namespace QuantForge

open Library UpstoxRestClient

/-- `j.at("data").at("order_ids")` of a response. -/
def readOrderIds (parse : Str → Option Json) (body : Str) : Option Json :=
  (parse body).bind fun j => (j.atKey "data".toList).bind (Json.atKey "order_ids".toList)

def readOrderId (parse : Str → Option Json) (body : Str) : Option Str :=
  (readOrderIds parse body).bind fun ids => (ids.atIndex 0).bind Json.getString

namespace ExecutionManagementSystem

variable {σ : Type} (parse : Str → Option Json) (client : UpstoxRestClient)
  (network : HttpRequest → Exchange)

def placeOrder (req : OrderRequest) (internalOid : Str) (onAck onReject : Callback σ) : σ → σ :=
  client.placeOrder network req internalOid
    (some fun body s =>
      match readOrderId parse body with
      | some exchangeOid => onAck.call exchangeOid s
      | none => s)
    (some fun err s => onReject.call err s)

/-- Neither the acknowledgement of a cancel nor its failure goes any further. -/
def cancelOrder (exchangeOid : Str) : σ → σ :=
  client.cancelOrder network exchangeOid (some fun _ s => s) (some fun _ s => s)

theorem cancelOrder_eq_self (exchangeOid : Str) (s : σ) :
    cancelOrder client network exchangeOid s = s := by
  unfold cancelOrder UpstoxRestClient.cancelOrder
  split
  · rfl
  · rw [doRequest]
    by_cases hsucceeds : (network (client.cancelOrderRequest exchangeOid)).Succeeds
    · rw [onResolve_of_succeeds hsucceeds]
      rfl
    · obtain ⟨text, htext⟩ := fails_onResolve hsucceeds
      exact htext _ _ s

end ExecutionManagementSystem

end QuantForge
