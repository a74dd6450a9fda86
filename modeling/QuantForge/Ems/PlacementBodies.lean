import QuantForge.Oms.LiveBook
import QuantForge.Transport.UpstoxRestClient

/-! The bodies that `build_place_order_body` makes of the orders that `submit` places, read back. A
body carries eleven fields of its request. -/
namespace QuantForge

open Library

def OmsEffect.placementOf : OmsEffect → Option (Str × OrderRequest)
  | .placeOrder oid req => some (oid, req)
  | _ => none

/-- What stands before the last dash, and what stands behind it. -/
def splitDash (text : Str) : Option (Str × Str) :=
  match text.reverse.dropWhile (· != '-') with
  | [] => none
  | _ :: before => some (before.reverse, (text.reverse.takeWhile (· != '-')).reverse)

theorem splitDash_append (before : Str) {after : Str} (h : '-' ∉ after) :
    splitDash (before ++ '-' :: after) = some (before, after) := by
  have hrun : ∀ c ∈ after.reverse, (c != '-') = true := fun c hc => by
    simpa using fun heq : c = '-' => h (heq ▸ List.mem_reverse.mp hc)
  have hreverse : (before ++ '-' :: after).reverse = after.reverse ++ '-' :: before.reverse := by
    simp
  have htake : ('-' :: before.reverse).takeWhile (· != '-') = [] :=
    List.takeWhile_cons_of_neg (by simp)
  have hdrop : ('-' :: before.reverse).dropWhile (· != '-') = '-' :: before.reverse :=
    List.dropWhile_cons_of_neg (by simp)
  rw [splitDash, hreverse, List.dropWhile_append_of_pos hrun, List.takeWhile_append_of_pos hrun,
    htake, hdrop, List.append_nil, List.reverse_reverse]
  simp

/-- The tag of a request and the id of its order: the id has two dashes of its own. -/
def splitTag (text : Str) : Option (Str × Str) := do
  let last ← splitDash text
  let middle ← splitDash last.1
  let first ← splitDash middle.1
  return (first.1, first.2 ++ '-' :: (middle.2 ++ '-' :: last.2))

theorem splitTag_orderId (tag : Str) (tsMs seq : Nat) :
    splitTag (tag ++ '-' :: orderId tsMs seq) = some (tag, orderId tsMs seq) := by
  have hid : orderId tsMs seq =
      "QF".toList ++ '-' :: (Nat.toDigits 10 tsMs ++ '-' :: Nat.toDigits 10 seq) := by
    have hhead : "QF-".toList = "QF".toList ++ ['-'] := by decide
    rw [orderId, hhead]
    simp
  have htext : ((tag ++ '-' :: "QF".toList) ++ '-' :: Nat.toDigits 10 tsMs) ++
      '-' :: Nat.toDigits 10 seq =
      tag ++ '-' :: ("QF".toList ++ '-' :: (Nat.toDigits 10 tsMs ++
        '-' :: Nat.toDigits 10 seq)) := by
    simp
  have hlast := splitDash_append ((tag ++ '-' :: "QF".toList) ++ '-' :: Nat.toDigits 10 tsMs)
    (dash_notMem_toDigits seq)
  have hmiddle := splitDash_append (tag ++ '-' :: "QF".toList) (dash_notMem_toDigits tsMs)
  have hfirst : splitDash (tag ++ '-' :: "QF".toList) = some (tag, "QF".toList) :=
    splitDash_append tag (by decide)
  rw [hid, ← htext, splitTag, hlast]
  simp only [Option.bind_eq_bind, Option.bind_some, hmiddle, hfirst]
  rfl

def valueNamed {α : Type} (values : List α) (name : α → Str) (text : Str) : Option α :=
  values.find? fun value => name value = text

namespace UpstoxRestClient

def readSide : Str → Option Side := valueNamed [.buy, .sell] sideStr

def readType : Str → Option OrderType := valueNamed [.market, .limit, .sl, .slm] typeStr

def readProd : Str → Option OrderProduct := valueNamed [.intraday, .delivery, .mtf] prodStr

def readValidity : Str → Option OrderValidity := valueNamed [.day, .ioc] validityStr

theorem readSide_sideStr (side : Side) : readSide (sideStr side) = some side := by
  cases side <;> decide

theorem readType_typeStr (type : OrderType) : readType (typeStr type) = some type := by
  cases type <;> decide

theorem readProd_prodStr (product : OrderProduct) : readProd (prodStr product) = some product := by
  cases product <;> decide

theorem readValidity_validityStr (validity : OrderValidity) :
    readValidity (validityStr validity) = some validity := by
  cases validity <;> decide

def readText (body : Json) (key : Str) : Option Str := (body.atKey key).bind Json.getString

def readNumber (body : Json) (key : Str) : Option ℚ :=
  match body.atKey key with
  | some (.number value) => some value
  | _ => none

def readBool (body : Json) (key : Str) : Option Bool :=
  match body.atKey key with
  | some (.bool value) => some value
  | _ => none

def readPlaceOrderBody (body : Json) : Option (Str × OrderRequest) := do
  let tag ← splitTag (← readText body "tag".toList)
  let token ← readText body "instrument_token".toList
  let quantity ← readNumber body "quantity".toList
  return (tag.2,
    { instrumentToken := Nat.ofDigitChars 10 token 0
      side := ← readSide (← readText body "transaction_type".toList)
      orderType := ← readType (← readText body "order_type".toList)
      product := ← readProd (← readText body "product".toList)
      validity := ← readValidity (← readText body "validity".toList)
      quantity := quantity.num
      limitPrice := ← readNumber body "price".toList
      triggerPrice := ← readNumber body "trigger_price".toList
      isAmo := ← readBool body "is_amo".toList
      slice := ← readBool body "slice".toList
      tag := tag.1 })

end UpstoxRestClient

/-- The fields that a body carries; the others are left at their defaults. -/
def OrderRequest.carried (req : OrderRequest) : OrderRequest where
  instrumentToken := req.instrumentToken
  side := req.side
  orderType := req.orderType
  product := req.product
  validity := req.validity
  quantity := req.quantity
  limitPrice := req.limitPrice
  triggerPrice := req.triggerPrice
  isAmo := req.isAmo
  slice := req.slice
  tag := req.tag

namespace UpstoxRestClient

theorem readPlaceOrderBody_build (req : OrderRequest) (tsMs seq : Nat) :
    readPlaceOrderBody (buildPlaceOrderBody req (orderId tsMs seq)) =
      some (orderId tsMs seq, req.carried) := by
  have htag : readText (buildPlaceOrderBody req (orderId tsMs seq)) "tag".toList =
      some (req.tag ++ '-' :: orderId tsMs seq) := rfl
  have htoken : readText (buildPlaceOrderBody req (orderId tsMs seq)) "instrument_token".toList =
      some (Nat.toDigits 10 req.instrumentToken) := rfl
  have hquantity : readNumber (buildPlaceOrderBody req (orderId tsMs seq)) "quantity".toList =
      some (req.quantity : ℚ) := rfl
  have hside : readText (buildPlaceOrderBody req (orderId tsMs seq)) "transaction_type".toList =
      some (sideStr req.side) := rfl
  have htype : readText (buildPlaceOrderBody req (orderId tsMs seq)) "order_type".toList =
      some (typeStr req.orderType) := rfl
  have hproduct : readText (buildPlaceOrderBody req (orderId tsMs seq)) "product".toList =
      some (prodStr req.product) := rfl
  have hvalidity : readText (buildPlaceOrderBody req (orderId tsMs seq)) "validity".toList =
      some (validityStr req.validity) := rfl
  have hprice : readNumber (buildPlaceOrderBody req (orderId tsMs seq)) "price".toList =
      some req.limitPrice := rfl
  have htrigger : readNumber (buildPlaceOrderBody req (orderId tsMs seq)) "trigger_price".toList =
      some req.triggerPrice := rfl
  have hamo : readBool (buildPlaceOrderBody req (orderId tsMs seq)) "is_amo".toList =
      some req.isAmo := rfl
  have hslice : readBool (buildPlaceOrderBody req (orderId tsMs seq)) "slice".toList =
      some req.slice := rfl
  unfold readPlaceOrderBody
  simp only [htag, htoken, hquantity, hside, htype, hproduct, hvalidity, hprice, htrigger, hamo,
    hslice, Option.bind_eq_bind, Option.bind_some, splitTag_orderId, readSide_sideStr,
    readType_typeStr, readProd_prodStr, readValidity_validityStr, Nat.ofDigitChars_ten_toDigits,
    Rat.num_intCast]
  rfl

end UpstoxRestClient

namespace OrderManagementSystem

variable {poolSize : Nat} {oms : OrderManagementSystem poolSize}

def placements (oms : OrderManagementSystem poolSize) : List (Str × OrderRequest) :=
  oms.trace.filterMap OmsEffect.placementOf

def placedBy (oms : OrderManagementSystem poolSize) : OmsCall → Option (Str × OrderRequest)
  | .submit req tsMs _ _ =>
      if oms.pool.freeList = [] then none else some (orderId tsMs oms.seq, req)
  | _ => none

theorem placements_onOrderAck (exchangeOid oid : Str) :
    (oms.onOrderAck exchangeOid oid).placements = oms.placements := by
  unfold onOrderAck
  split <;> rfl

private theorem placements_applyFill (exchangeOid oid : Str) (po : Fin poolSize) (fill : Fill) :
    (oms.applyFill exchangeOid oid po fill).placements = oms.placements := by
  unfold applyFill retireIfTerminal
  dsimp only
  split <;> rfl

theorem placements_onFill (report : FillReport) (nowNs : Nat) :
    (oms.onFill report nowNs).placements = oms.placements := by
  by_cases hadmits : oms.Admits report
  · rw [onFill_of_admits oms nowNs hadmits]
    cases hfound : oms.lookupFill report.exchangeOid with
    | none =>
        rw [deliverFill_of_none _ nowNs (by exact hfound)]
        rfl
    | some found =>
        rw [deliverFill_of_some _ nowNs (by exact hfound)]
        exact placements_applyFill _ _ _ _
  · rw [onFill_of_not_admits oms nowNs hadmits]
    rfl

theorem placements_onReject (exchangeOid reason : Str) :
    (oms.onReject exchangeOid reason).placements = oms.placements := by
  cases hlookup : oms.orders.lookup (oms.rejectTarget exchangeOid) with
  | none =>
      rw [onReject_of_none oms reason hlookup]
      rfl
  | some po =>
      rw [onReject_of_some oms reason hlookup]
      rfl

theorem placements_dropOrder (oid : Str) : (oms.dropOrder oid).placements = oms.placements := by
  unfold dropOrder
  split <;> rfl

theorem placements_cancel (oid : Str) : (oms.cancel oid).2.placements = oms.placements := by
  obtain heq | ⟨exchangeOid, heq⟩ := oms.cancel_eq oid
  · rw [heq]
  · rw [heq]
    rfl

theorem placements_cancelAllOpen : oms.cancelAllOpen.placements = oms.placements :=
  cancelAllOpen_induction oms (P := fun after => after.placements = oms.placements)
    (fun _ _ heq => heq) rfl

theorem placements_step (hlive : oms.paperMode = false) (call : OmsCall) :
    (oms.step call).placements = (oms.placedBy call).toList ++ oms.placements := by
  cases call with
  | submit req tsMs placedNs fillNs =>
      cases hfree : oms.pool.freeList with
      | nil =>
          rw [step, submit_of_nil oms req tsMs placedNs fillNs hfree, placedBy, if_pos hfree]
          rfl
      | cons po rest =>
          have hne : oms.pool.freeList ≠ [] := by simp [hfree]
          rw [step, submit_of_cons oms req tsMs placedNs fillNs hfree, hlive, placedBy,
            if_neg hne]
          rfl
  | onOrderAck exchangeOid oid => exact placements_onOrderAck exchangeOid oid
  | onFill report nowNs => exact placements_onFill report nowNs
  | onReject exchangeOid reason => exact placements_onReject exchangeOid reason
  | placementFailed oid reason =>
      exact (placements_dropOrder oid).trans (placements_onReject [] reason)
  | cancel oid => exact placements_cancel oid
  | cancelAllOpen => exact placements_cancelAllOpen
  | resetForEod => rfl

structure Numbered (oms : OrderManagementSystem poolSize) : Prop where
  live : oms.paperMode = false
  issued : ∀ p ∈ oms.placements, oms.book.Issued p.1
  nodup : (oms.placements.map Prod.fst).Nodup

theorem numbered_step (h : oms.Numbered) (call : OmsCall) : (oms.step call).Numbered := by
  have hlive := issuing_step h.live call
  have hkept : ∀ p ∈ oms.placements, (oms.step call).book.Issued p.1 := fun p hp =>
    issued_step h.live (h.issued p hp) call
  have hplaced := placements_step h.live call
  cases hnew : oms.placedBy call with
  | none =>
      rw [hnew] at hplaced
      exact ⟨hlive.1, by rw [hplaced]; exact hkept, by rw [hplaced]; exact h.nodup⟩
  | some p =>
      rw [hnew] at hplaced
      cases call with
      | submit req tsMs placedNs fillNs =>
          rw [placedBy] at hnew
          split at hnew
          · cases hnew
          · rename_i hfree
            obtain rfl := Option.some.inj hnew
            obtain ⟨po, rest, hcons⟩ := List.exists_cons_of_ne_nil hfree
            have hseq : (oms.step (.submit req tsMs placedNs fillNs)).seq = oms.seq + 1 := by
              rw [step, submit_of_cons oms req tsMs placedNs fillNs hcons, h.live]
              rfl
            refine ⟨hlive.1, ?_, ?_⟩
            · rw [hplaced]
              refine List.forall_mem_cons.mpr ⟨⟨tsMs, oms.seq, ?_, rfl⟩, hkept⟩
              change oms.seq < (oms.step (.submit req tsMs placedNs fillNs)).seq
              rw [hseq]
              exact Nat.lt_succ_self _
            · rw [hplaced]
              refine List.nodup_cons.mpr ⟨fun hmem => ?_, h.nodup⟩
              obtain ⟨p, hp, heq⟩ := List.mem_map.mp hmem
              have hissued := h.issued p hp
              rw [heq] at hissued
              exact oms.book.not_issued_next tsMs hissued
      | _ => cases hnew

/-- In every live run the requests that `submit` accepts are placed once each and in their order.
Every body is read back as the fields of its request that it carries and the id of its order, and no
two bodies are the same. -/
theorem placements_identified (poolSize : Nat) (client : UpstoxRestClient) (calls : List OmsCall) :
    let oms := Run.run step (init poolSize false) calls
    oms.placements.reverse = Run.settings step placedBy (init poolSize false) calls ∧
      (∀ p ∈ oms.placements, (client.placeOrderRequest p.2 p.1).body.bind
        UpstoxRestClient.readPlaceOrderBody = some (p.1, p.2.carried)) ∧
      (oms.placements.map fun p => (client.placeOrderRequest p.2 p.1).body).Nodup := by
  intro oms
  have hstart : (init poolSize false).Numbered := ⟨rfl, List.forall_mem_nil _, List.nodup_nil⟩
  have hnumbered : oms.Numbered :=
    Run.run_invariant Numbered (fun _ call h => numbered_step h call) hstart calls
  have hread : ∀ p ∈ oms.placements, (client.placeOrderRequest p.2 p.1).body.bind
      UpstoxRestClient.readPlaceOrderBody = some (p.1, p.2.carried) := by
    intro p hp
    obtain ⟨tsMs, seq, -, hid⟩ := hnumbered.issued p hp
    rw [hid]
    exact UpstoxRestClient.readPlaceOrderBody_build p.2 tsMs seq
  refine ⟨?_, hread, ?_⟩
  · have hlog := Run.run_logged placements placedBy (fun oms => oms.paperMode = false)
      (fun _ call hlive => (issuing_step hlive call).1)
      (fun _ call hlive => placements_step hlive call) rfl calls (s := init poolSize false)
    rw [hlog, List.reverse_append, List.reverse_reverse]
    exact List.nil_append _
  · have hids : (oms.placements.map fun p => (client.placeOrderRequest p.2 p.1).body).map
        (fun body => (body.bind UpstoxRestClient.readPlaceOrderBody).map Prod.fst) =
        (oms.placements.map Prod.fst).map some := by
      rw [List.map_map, List.map_map]
      refine List.map_congr_left fun p hp => ?_
      rw [Function.comp_apply, hread p hp]
      rfl
    have hnodup := (List.nodup_map_iff (Option.some_injective _)).mpr hnumbered.nodup
    rw [← hids] at hnodup
    exact List.Nodup.of_map _ hnodup

end OrderManagementSystem

end QuantForge
