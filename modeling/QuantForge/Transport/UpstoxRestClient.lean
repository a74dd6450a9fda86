import QuantForge.Common.Types
import QuantForge.Library.Json

/-! `transport/upstox_rest_client.cpp`. What the network and the broker make of a request is
an `Exchange`, which says for each asynchronous operation how it completes. Each completion
handler of `do_request` is a definition of its own, and each operation runs its handler once.
A callback acts on a state of the caller's choice. -/
namespace QuantForge

open Library

inductive HttpVerb where
  | get
  | post
  | put
  | delete
  deriving DecidableEq

structure HttpRequest where
  host : Str
  port : Str
  verb : HttpVerb
  target : Str
  headers : List (Str × Str)
  body : Option Json := none

/-- How each stage of a request ends: an error text, or none. -/
structure Exchange where
  resolve : Option Str := none
  sniAccepted : Bool := true
  connect : Option Str := none
  handshake : Option Str := none
  write : Option Str := none
  read : Option Str := none
  status : Nat := 200
  body : Str := []

/-- Every stage ends without an error, and the status is one of success. -/
def Exchange.Succeeds (x : Exchange) : Prop :=
  x.resolve = none ∧ x.sniAccepted = true ∧ x.connect = none ∧ x.handshake = none ∧
    x.write = none ∧ x.read = none ∧ 200 ≤ x.status ∧ x.status < 300

instance (x : Exchange) : Decidable x.Succeeds :=
  inferInstanceAs (Decidable (_ ∧ _ ∧ _ ∧ _ ∧ _ ∧ _ ∧ _ ∧ _))

/-- A `std::function` that may be empty. -/
abbrev Callback (σ : Type*) := Option (Str → σ → σ)

/-- `if (cb) cb(text);` -/
def Callback.call {σ : Type*} (cb : Callback σ) (text : Str) (s : σ) : σ :=
  match cb with
  | some f => f text s
  | none => s

structure UpstoxRestClient where
  accessToken : Str
  paperMode : Bool

namespace UpstoxRestClient

def hftHost : Str := "api-hft.upstox.com".toList
def port : Str := "443".toList
def userAgent : Str := "quantforge-engine/1.0".toList

section DoRequest

variable {σ : Type*}

/-- A completion handler: an error text ends the request, no error starts the next stage. -/
def completion (label : Str) (ec : Option Str) (onError : Callback σ) (next : σ → σ) (s : σ) : σ :=
  match ec with
  | some text => onError.call (label ++ text) s
  | none => next s

variable (x : Exchange) (onSuccess onError : Callback σ)

def onResponse (s : σ) : σ :=
  if 200 ≤ x.status ∧ x.status < 300 then onSuccess.call x.body s
  else onError.call ("HTTP ".toList ++ Nat.toDigits 10 x.status ++ ": ".toList ++ x.body) s

def onRead : σ → σ :=
  completion "Read: ".toList x.read onError (onResponse x onSuccess onError)

def onWrite : σ → σ :=
  completion "Write: ".toList x.write onError (onRead x onSuccess onError)

def onHandshake : σ → σ :=
  completion "TLS: ".toList x.handshake onError (onWrite x onSuccess onError)

def onConnect : σ → σ :=
  completion "Connect: ".toList x.connect onError (onHandshake x onSuccess onError)

def setHostName (s : σ) : σ :=
  if x.sniAccepted then onConnect x onSuccess onError s
  else onError.call "SSL SNI failed".toList s

def onResolve : σ → σ :=
  completion "Resolve: ".toList x.resolve onError (setHostName x onSuccess onError)

/-- `network` says what becomes of the request that is sent. -/
def doRequest (network : HttpRequest → Exchange) (req : HttpRequest)
    (onSuccess onError : Callback σ) : σ → σ :=
  onResolve (network req) onSuccess onError

end DoRequest

def sideStr : Side → Str
  | .buy => "BUY".toList
  | .sell => "SELL".toList

def typeStr : OrderType → Str
  | .market => "MARKET".toList
  | .limit => "LIMIT".toList
  | .sl => "SL".toList
  | .slm => "SL-M".toList

def prodStr : OrderProduct → Str
  | .intraday => "I".toList
  | .delivery => "D".toList
  | .mtf => "MTF".toList

def validityStr : OrderValidity → Str
  | .ioc => "IOC".toList
  | .day => "DAY".toList

/-- The token in decimal stands for the instrument key. -/
def buildPlaceOrderBody (req : OrderRequest) (tag : Str) : Json :=
  .object [("quantity".toList, .number req.quantity),
    ("product".toList, .string (prodStr req.product)),
    ("validity".toList, .string (validityStr req.validity)),
    ("price".toList, .number req.limitPrice),
    ("tag".toList, .string (req.tag ++ '-' :: tag)),
    ("instrument_token".toList, .string (Nat.toDigits 10 req.instrumentToken)),
    ("order_type".toList, .string (typeStr req.orderType)),
    ("transaction_type".toList, .string (sideStr req.side)),
    ("disclosed_quantity".toList, .number 0),
    ("trigger_price".toList, .number req.triggerPrice),
    ("is_amo".toList, .bool req.isAmo),
    ("slice".toList, .bool req.slice)]

section Requests

variable (client : UpstoxRestClient)

def placeOrderRequest (req : OrderRequest) (internalOid : Str) : HttpRequest where
  host := hftHost
  port := port
  verb := .post
  target := "/v3/order/place".toList
  headers := [("Host".toList, hftHost), ("Content-Type".toList, "application/json".toList),
    ("User-Agent".toList, userAgent),
    ("Authorization".toList, "Bearer ".toList ++ client.accessToken)]
  body := some (buildPlaceOrderBody req internalOid)

def cancelOrderRequest (exchangeOid : Str) : HttpRequest where
  host := hftHost
  port := port
  verb := .delete
  target := "/v3/order/cancel?order_id=".toList ++ exchangeOid
  headers := [("Host".toList, hftHost), ("User-Agent".toList, userAgent),
    ("Authorization".toList, "Bearer ".toList ++ client.accessToken)]

def paperEcho (internalOid : Str) : Str :=
  "\x7b\"data\":\x7b\"order_ids\":[\"PAPER-".toList ++ internalOid ++
    "\"]\x7d,\"status\":\"success\"\x7d".toList

variable {σ : Type*} (network : HttpRequest → Exchange)

def placeOrder (req : OrderRequest) (internalOid : Str) (onSuccess onError : Callback σ)
    (s : σ) : σ :=
  if client.paperMode then onSuccess.call (paperEcho internalOid) s
  else doRequest network (client.placeOrderRequest req internalOid) onSuccess onError s

def cancelOrder (exchangeOid : Str) (onSuccess onError : Callback σ) (s : σ) : σ :=
  if client.paperMode then onSuccess.call "\x7b\x7d".toList s
  else doRequest network (client.cancelOrderRequest exchangeOid) onSuccess onError s

end Requests

section Outcome

variable {x : Exchange}

theorem onResolve_of_succeeds (h : x.Succeeds) {σ : Type*} (onSuccess onError : Callback σ)
    (s : σ) : onResolve x onSuccess onError s = onSuccess.call x.body s := by
  obtain ⟨hresolve, hsni, hconnect, hhandshake, hwrite, hread, hstatus⟩ := h
  unfold onResolve setHostName onConnect onHandshake onWrite onRead onResponse
  rw [hresolve, hconnect, hhandshake, hwrite, hread]
  simp only [completion]
  rw [if_pos hsni, if_pos hstatus]

/-- The handler calls the error callback, with one text, and nothing else. -/
def Fails (handler : ∀ {σ : Type}, Callback σ → Callback σ → σ → σ) : Prop :=
  ∃ text : Str, ∀ {σ : Type} (onSuccess onError : Callback σ) (s : σ),
    handler onSuccess onError s = onError.call text s

private theorem fails_completion (label : Str) (ec : Option Str)
    {next : ∀ {σ : Type}, Callback σ → Callback σ → σ → σ} (h : ec = none → Fails next) :
    Fails fun onSuccess onError => completion label ec onError (next onSuccess onError) := by
  cases ec with
  | some text => exact ⟨label ++ text, fun _ _ _ => rfl⟩
  | none => exact h rfl

private theorem fails_onResponse (h : ¬(200 ≤ x.status ∧ x.status < 300)) :
    Fails (onResponse x) :=
  ⟨_, fun _ _ _ => if_neg h⟩

private theorem fails_setHostName (h : x.sniAccepted = true → Fails (onConnect x)) :
    Fails (setHostName x) := by
  by_cases hsni : x.sniAccepted = true
  · obtain ⟨text, htext⟩ := h hsni
    exact ⟨text, fun onSuccess onError s => (if_pos hsni).trans (htext onSuccess onError s)⟩
  · exact ⟨_, fun _ _ _ => if_neg hsni⟩

theorem fails_onResolve (h : ¬x.Succeeds) : Fails (onResolve x) := by
  apply fails_completion
  intro hresolve
  apply fails_setHostName
  intro hsni
  apply fails_completion
  intro hconnect
  apply fails_completion
  intro hhandshake
  apply fails_completion
  intro hwrite
  apply fails_completion
  intro hread
  apply fails_onResponse
  intro hstatus
  exact h ⟨hresolve, hsni, hconnect, hhandshake, hwrite, hread, hstatus⟩

end Outcome

end UpstoxRestClient

end QuantForge
