import QuantForge.Ems.Placement
import QuantForge.Oms.LiveBook

/-! A placement that the broker splits: the response lists several order ids, and only the
first of them is linked to the order. -/
namespace QuantForge

open Library

def Exchange.Lists (parse : Str → Option Json) (x : Exchange) (ids : List Str) : Prop :=
  x.Succeeds ∧ readOrderIds parse x.body = some (.strings ids)

theorem readOrderId_of_lists {parse : Str → Option Json} {x : Exchange} {ids : List Str}
    (h : x.Lists parse ids) : readOrderId parse x.body = ids.head? := by
  rw [readOrderId, h.2, Option.bind_some, Json.atIndex_strings, List.head?_eq_getElem?]

namespace OrderManagementSystem

variable {poolSize : Nat}

def Pending (oms : OrderManagementSystem poolSize) (oid : Str) : Prop :=
  ∃ p, oms.recordOf oid = some p ∧ p.sm.current = .pending

/-- A later call acknowledges neither the order again nor another one under these ids. -/
def KeepsIds (oid : Str) (ids : List Str) : OmsCall → Prop
  | .onOrderAck exchangeOid internalOid => internalOid ≠ oid ∧ exchangeOid ∉ ids
  | _ => True

def quantityUnder (id : Str) (oms : OrderManagementSystem poolSize) : OmsCall → Int
  | .onFill report _ =>
      if report.exchangeOid = id ∧ oms.Admits report then report.quantity else 0
  | _ => 0

def filledUnder (id : Str) : OrderManagementSystem poolSize → List OmsCall → Int
  | _, [] => 0
  | oms, call :: calls => oms.quantityUnder id call + filledUnder id (oms.step call) calls

def SendsCancel (oms : OrderManagementSystem poolSize) (oid id : Str) : Prop :=
  (oms.cancel oid).2.trace.count (.cancelOrder id) = oms.trace.count (.cancelOrder id) + 1

/-- While the order is in `orders_`, a fill under any of the ids is credited to it and `cancel`
reaches each id that is not filled to its share. -/
structure TracksEvery (oms : OrderManagementSystem poolSize) (oid : Str) (ids : List Str)
    (share : Str → Int) : Prop where
  credits : ∀ later, (∀ call ∈ later, KeepsIds oid ids call) → ∀ po,
    (Run.run step oms later).orders.lookup oid = some po →
    ∀ report nowNs, report.exchangeOid ∈ ids → (Run.run step oms later).Admits report →
      (((Run.run step oms later).onFill report nowNs).slot po).order.filledQty =
        ((Run.run step oms later).slot po).order.filledQty + report.quantity
  cancels : ∀ later, (∀ call ∈ later, KeepsIds oid ids call) → ∀ po,
    (Run.run step oms later).orders.lookup oid = some po →
    (Run.run step oms later).Cancellable po → ∀ id ∈ ids,
      filledUnder id oms later < share id → (Run.run step oms later).SendsCancel oid id

structure LinkedBy (oms : OrderManagementSystem poolSize) (oid id : Str) : Prop where
  wellFormed : oms.WellFormed
  live : oms.paperMode = false
  issued : oms.book.Issued oid
  link : oms.recordOf oid ≠ none → ∀ e, oms.linkOf e = some oid ↔ e = id

variable {oms : OrderManagementSystem poolSize} {oid id : Str}

/-- What a call must leave alone for the order to stay linked by the id. -/
def KeepsLink (oms after : OrderManagementSystem poolSize) (oid : Str) : Prop :=
  after.recordOf oid ≠ none → oms.recordOf oid ≠ none ∧
    ∀ e, after.linkOf e = some oid ↔ oms.linkOf e = some oid

private theorem keepsLink_of_eq {after : OrderManagementSystem poolSize}
    (h : after.recordOf = oms.recordOf ∧ after.linkOf = oms.linkOf) : oms.KeepsLink after oid := by
  intro hrecord
  rw [h.1] at hrecord
  refine ⟨hrecord, fun e => ?_⟩
  rw [h.2]

private theorem keepsLink_submit (h : oms.LinkedBy oid id) (req : OrderRequest)
    (tsMs placedNs fillNs : Nat) :
    oms.KeepsLink (oms.submit req tsMs placedNs fillNs).2 oid := by
  cases hfree : oms.pool.freeList with
  | nil =>
      rw [submit_of_nil oms req tsMs placedNs fillNs hfree]
      exact keepsLink_of_eq ⟨rfl, rfl⟩
  | cons po rest =>
      obtain ⟨hrecords, hlinks⟩ := maps_submit h.wellFormed.partitioned h.live hfree req
        tsMs placedNs fillNs
      have hnew : oid ≠ orderId tsMs oms.seq := by
        rintro rfl
        exact oms.book.not_issued_next tsMs h.issued
      intro hrecord
      rw [hrecords, Function.update_of_ne hnew] at hrecord
      refine ⟨hrecord, fun e => ?_⟩
      rw [hlinks]

private theorem keepsLink_onOrderAck (h : oms.LinkedBy oid id) {exchangeOid internalOid : Str}
    (hoid : internalOid ≠ oid) (hid : exchangeOid ≠ id) :
    oms.KeepsLink (oms.onOrderAck exchangeOid internalOid) oid := by
  cases hrecord : oms.recordOf internalOid with
  | none =>
      rw [onOrderAck_of_recordOf_none hrecord]
      exact keepsLink_of_eq ⟨rfl, rfl⟩
  | some p =>
      intro hafter
      rw [recordOf_onOrderAck h.wellFormed.partitioned hrecord,
        Function.update_of_ne hoid.symm] at hafter
      refine ⟨hafter, fun e => ?_⟩
      rw [linkOf_onOrderAck hrecord]
      apply Dict.update_eq_iff_of_ne
      · exact fun hlink => hid ((h.link hafter exchangeOid).mp hlink)
      · exact fun heq => hoid (Option.some.inj heq)

private theorem keepsLink_onFill (h : oms.LinkedBy oid id) (report : FillReport) (nowNs : Nat) :
    oms.KeepsLink (oms.onFill report nowNs) oid := by
  by_cases hdiscards : oms.Discards report
  · exact keepsLink_of_eq (maps_onFill_of_discards report nowNs hdiscards)
  · obtain ⟨hadmits, hheld⟩ := not_or.mp hdiscards
    obtain ⟨p, hrecord⟩ := Option.ne_none_iff_exists'.mp hheld
    have hrecords := recordOf_onFill report nowNs h.wellFormed.partitioned
      (not_not.mp hadmits) hrecord
    have hlinks := linkOf_onFill report nowNs (not_not.mp hadmits) hrecord
    intro hafter
    by_cases hdone : (oms.filledRecord report nowNs p).sm.isTerminal = true
    · rw [if_pos hdone] at hrecords hlinks
      rw [hrecords] at hafter
      obtain ⟨hne, hkept⟩ := Dict.update_none_ne_none.mp hafter
      refine ⟨hkept, fun e => ?_⟩
      rw [hlinks]
      apply Dict.update_eq_iff_of_ne
      · exact fun hlink => hne (resolve_of_linkOf hlink).symm
      · exact (Option.some_ne_none oid).symm
    · rw [if_neg hdone] at hrecords hlinks
      refine ⟨?_, fun e => by rw [hlinks]⟩
      by_cases heq : oid = oms.resolve report.exchangeOid
      · rw [heq, hrecord]
        exact Option.some_ne_none p
      · rwa [hrecords, Function.update_of_ne heq] at hafter

private theorem keepsLink_onReject (h : oms.WellFormed) (exchangeOid reason : Str) :
    oms.KeepsLink (oms.onReject exchangeOid reason) oid := by
  cases hrecord : oms.recordOf (oms.rejectTarget exchangeOid) with
  | none => exact keepsLink_of_eq (maps_onReject_of_none reason hrecord)
  | some p =>
      obtain ⟨hrecords, hlinks⟩ := maps_onReject_of_some reason h.partitioned hrecord
      intro hafter
      rw [hrecords] at hafter
      obtain ⟨hne, hkept⟩ := Dict.update_none_ne_none.mp hafter
      refine ⟨hkept, fun e => ?_⟩
      rw [hlinks]
      apply Dict.update_eq_iff_of_ne
      · exact fun hlink => hne (rejectTarget_of_linkOf hlink).symm
      · exact (Option.some_ne_none oid).symm

private theorem keepsLink_dropOrder (h : oms.WellFormed) (dropped : Str) :
    oms.KeepsLink (oms.dropOrder dropped) oid := by
  intro hafter
  rw [recordOf_dropOrder h.partitioned] at hafter
  refine ⟨(Dict.update_none_ne_none.mp hafter).2, fun e => ?_⟩
  rw [linkOf_dropOrder]

theorem keepsLink_step (h : oms.LinkedBy oid id) {call : OmsCall}
    (hkeeps : KeepsIds oid [id] call) :
    oms.KeepsLink (oms.step call) oid := by
  cases call with
  | submit req tsMs placedNs fillNs => exact keepsLink_submit h req tsMs placedNs fillNs
  | onOrderAck exchangeOid internalOid =>
      exact keepsLink_onOrderAck h hkeeps.1 (List.ne_of_not_mem_cons hkeeps.2)
  | onFill report nowNs => exact keepsLink_onFill h report nowNs
  | onReject exchangeOid reason => exact keepsLink_onReject h.wellFormed exchangeOid reason
  | placementFailed dropped reason =>
      intro hafter
      obtain ⟨hrejected, hdrop⟩ :=
        keepsLink_dropOrder (wellFormed_onReject [] reason h.wellFormed) dropped hafter
      obtain ⟨hheld, hreject⟩ := keepsLink_onReject h.wellFormed [] reason hrejected
      exact ⟨hheld, fun e => (hdrop e).trans (hreject e)⟩
  | cancel cancelled => exact keepsLink_of_eq maps_cancel
  | cancelAllOpen => exact keepsLink_of_eq maps_cancelAllOpen
  | resetForEod => exact keepsLink_of_eq ⟨rfl, rfl⟩

theorem linkedBy_step (h : oms.LinkedBy oid id) {call : OmsCall}
    (hkeeps : KeepsIds oid [id] call) : (oms.step call).LinkedBy oid id where
  wellFormed := wellFormed_step h.wellFormed call
  live := (issuing_step h.live call).1
  issued := issued_step h.live h.issued call
  link := by
    intro hrecord e
    obtain ⟨hheld, hlink⟩ := keepsLink_step h hkeeps hrecord
    rw [hlink, h.link hheld]

theorem linkedBy_run (h : oms.LinkedBy oid id) {calls : List OmsCall}
    (hkeeps : ∀ call ∈ calls, KeepsIds oid [id] call) :
    (Run.run step oms calls).LinkedBy oid id := by
  apply Run.run_of_forall (fun oms => LinkedBy oms oid id) ?_ h hkeeps
  intro oms call h hcall
  exact linkedBy_step h hcall

/-- Nothing links an id to the order before the order is acknowledged. -/
structure Unlinked (oms : OrderManagementSystem poolSize) (oid : Str) : Prop where
  wellFormed : oms.WellFormed
  live : oms.paperMode = false
  unlinked : ∀ e, oms.linkOf e ≠ some oid

def AcksOther (oid : Str) : OmsCall → Prop
  | .onOrderAck _ internalOid => internalOid ≠ oid
  | _ => True

private theorem unlinked_of_update {links : Str → Option Str} (h : ∀ e, links e ≠ some oid)
    {exchangeOid : Str} {target : Option Str} (htarget : target ≠ some oid) (e : Str) :
    Function.update links exchangeOid target e ≠ some oid := by
  rw [Ne, Dict.update_eq_iff_of_ne (h exchangeOid) htarget]
  exact h e

private theorem unlinked_onReject (h : oms.WellFormed) (hunlinked : ∀ e, oms.linkOf e ≠ some oid)
    (exchangeOid reason : Str) (e : Str) :
    (oms.onReject exchangeOid reason).linkOf e ≠ some oid := by
  cases hrecord : oms.recordOf (oms.rejectTarget exchangeOid) with
  | none =>
      rw [(maps_onReject_of_none reason hrecord).2]
      exact hunlinked e
  | some p =>
      rw [(maps_onReject_of_some reason h.partitioned hrecord).2]
      exact unlinked_of_update hunlinked (Option.some_ne_none oid).symm e

private theorem linkOf_step_ne (h : oms.Unlinked oid) {call : OmsCall} (hcall : AcksOther oid call)
    (e : Str) : (oms.step call).linkOf e ≠ some oid := by
  cases call with
  | submit req tsMs placedNs fillNs =>
      cases hfree : oms.pool.freeList with
      | nil =>
          rw [step, submit_of_nil oms req tsMs placedNs fillNs hfree]
          exact h.unlinked e
      | cons po rest =>
          rw [step, (maps_submit h.wellFormed.partitioned h.live hfree ..).2]
          exact h.unlinked e
  | onOrderAck exchangeOid internalOid =>
      rw [step]
      cases hrecord : oms.recordOf internalOid with
      | none =>
          rw [onOrderAck_of_recordOf_none hrecord]
          exact h.unlinked e
      | some p =>
          rw [linkOf_onOrderAck hrecord]
          exact unlinked_of_update h.unlinked (fun heq => hcall (Option.some.inj heq)) e
  | onFill report nowNs =>
      rw [step]
      by_cases hdiscards : oms.Discards report
      · rw [(maps_onFill_of_discards report nowNs hdiscards).2]
        exact h.unlinked e
      · obtain ⟨hadmits, hheld⟩ := not_or.mp hdiscards
        obtain ⟨p, hrecord⟩ := Option.ne_none_iff_exists'.mp hheld
        rw [linkOf_onFill report nowNs (not_not.mp hadmits) hrecord]
        split
        · exact unlinked_of_update h.unlinked (Option.some_ne_none oid).symm e
        · exact h.unlinked e
  | onReject exchangeOid reason =>
      exact unlinked_onReject h.wellFormed h.unlinked exchangeOid reason e
  | placementFailed dropped reason =>
      rw [step, placementFailed, linkOf_dropOrder]
      exact unlinked_onReject h.wellFormed h.unlinked [] reason e
  | cancel cancelled =>
      rw [step, maps_cancel.2]
      exact h.unlinked e
  | cancelAllOpen =>
      rw [step, maps_cancelAllOpen.2]
      exact h.unlinked e
  | resetForEod => exact h.unlinked e

theorem unlinked_run (poolSize : Nat) {calls : List OmsCall}
    (hacks : ∀ call ∈ calls, AcksOther oid call) :
    (Run.run step (init poolSize false) calls).Unlinked oid := by
  have hinit : (init poolSize false).Unlinked oid :=
    ⟨wellFormed_init poolSize false, rfl, fun _ => nofun⟩
  apply Run.run_of_forall (fun oms => Unlinked oms oid) ?_ hinit hacks
  intro oms call h hcall
  exact ⟨wellFormed_step h.wellFormed call, (issuing_step h.live call).1, linkOf_step_ne h hcall⟩

theorem linkedBy_onOrderAck (h : oms.Unlinked oid) {p : PooledOrder}
    (hrecord : oms.recordOf oid = some p) : (oms.onOrderAck id oid).LinkedBy oid id where
  wellFormed := wellFormed_onOrderAck h.wellFormed
  live := (congrArg Prod.fst (issuing_onOrderAck id oid)).trans h.live
  issued := by
    rw [book_onOrderAck]
    exact issued_of_recordOf h.wellFormed.partitioned hrecord
  link := by
    intro _ e
    rw [linkOf_onOrderAck hrecord]
    by_cases heq : e = id
    · rw [heq, Function.update_self]
      exact iff_of_true rfl rfl
    · rw [Function.update_of_ne heq]
      exact iff_of_false (h.unlinked e) heq

section Cancel

theorem exchangeOidOf_of_linkedBy (h : oms.LinkedBy oid id) (hrecord : oms.recordOf oid ≠ none) :
    oms.exchangeOidOf oid = id := by
  obtain ⟨-, hnone⟩ | hlink := exchangeOidOf_cases oms oid
  · exact absurd ((h.link hrecord id).mpr rfl) (hnone id)
  · exact (h.link hrecord _).mp hlink

private theorem count_record (oms : OrderManagementSystem poolSize) (sent id : Str) :
    (oms.record (.cancelOrder sent)).trace.count (.cancelOrder id) =
      oms.trace.count (.cancelOrder id) + if sent = id then 1 else 0 := by
  rw [trace_record, List.count_cons]
  simp only [beq_iff_eq, OmsEffect.cancelOrder.injEq]

theorem sendsCancel_iff {po : Fin poolSize} (hlookup : oms.orders.lookup oid = some po)
    (hcancellable : oms.Cancellable po) (id : Str) :
    oms.SendsCancel oid id ↔ oms.exchangeOidOf oid = id ∧ id ≠ [] := by
  unfold SendsCancel cancel
  rw [hlookup]
  dsimp only
  rw [if_neg (not_not.mpr hcancellable)]
  by_cases hempty : oms.exchangeOidOf oid = []
  · rw [if_pos hempty, hempty]
    refine iff_of_false (Nat.ne_of_lt (Nat.lt_succ_self _)) ?_
    rintro ⟨rfl, hne⟩
    exact hne rfl
  · rw [if_neg hempty, count_record, Nat.add_left_cancel_iff]
    constructor
    · intro hone
      by_cases heq : oms.exchangeOidOf oid = id
      · exact ⟨heq, heq ▸ hempty⟩
      · rw [if_neg heq] at hone
        contradiction
    · rintro ⟨heq, -⟩
      exact if_pos heq

end Cancel

theorem filledQty_onFill {report : FillReport} (hadmits : oms.Admits report) (nowNs : Nat)
    {po : Fin poolSize} (hlookup : oms.orders.lookup (oms.resolve report.exchangeOid) = some po) :
    ((oms.onFill report nowNs).slot po).order.filledQty =
      (oms.slot po).order.filledQty + report.quantity := by
  have hfound : oms.lookupFill report.exchangeOid = some (oms.resolve report.exchangeOid, po) :=
    (lookupFill_eq_some oms).mpr ⟨rfl, hlookup⟩
  rw [onFill_of_admits oms nowNs hadmits, deliverFill_of_some _ nowNs (by exact hfound),
    slot_record, slot_pushFill, slot_applyFill, Function.update_self]
  rfl

theorem tracksEvery_of_linkedBy (h : oms.LinkedBy oid id) (hne : id ≠ []) (share : Str → Int) :
    oms.TracksEvery oid [id] share where
  credits := by
    intro later hkeeps po hlookup report nowNs hid hadmits
    obtain rfl := List.mem_singleton.mp hid
    have hrun := linkedBy_run h hkeeps
    have hrecord := recordOf_of_lookup hlookup
    apply filledQty_onFill hadmits
    rwa [resolve_of_linkOf ((hrun.link (by simp [hrecord]) _).mpr rfl)]
  cancels := by
    intro later hkeeps po hlookup hcancellable id' hid _
    obtain rfl := List.mem_singleton.mp hid
    have hrun := linkedBy_run h hkeeps
    have hrecord := recordOf_of_lookup hlookup
    rw [sendsCancel_iff hlookup hcancellable]
    exact ⟨exchangeOidOf_of_linkedBy hrun (by simp [hrecord]), hne⟩

theorem completePlacement_of_lists (parse : Str → Option Json) {client : UpstoxRestClient}
    (hclient : client.paperMode = false) {network : HttpRequest → Exchange} {req : OrderRequest}
    {rest : List Str}
    (hlists : (network (client.placeOrderRequest req oid)).Lists parse (id :: rest)) :
    oms.completePlacement parse client network req oid = oms.onOrderAck id oid := by
  have hread := readOrderId_of_lists hlists
  obtain ⟨exchangeOid, -, hread', hplace⟩ | ⟨hunreadable, -⟩ | ⟨hfails, -⟩ :=
    placeOrder_cases parse hclient network req oid
  · rw [completePlacement, hplace]
    rw [hread', List.head?_cons] at hread
    rw [Option.some.inj hread]
    rfl
  · rw [hunreadable.2] at hread
    contradiction
  · exact absurd hlists.1 hfails

private theorem cancellable_onOrderAck (id : Str) {p : PooledOrder}
    (hrecord : oms.recordOf oid = some p) (hpending : p.sm.current = .pending) :
    ∃ po, (oms.onOrderAck id oid).orders.lookup oid = some po ∧
      (oms.onOrderAck id oid).Cancellable po := by
  obtain ⟨po, hlookup, rfl⟩ := recordOf_eq_some.mp hrecord
  refine ⟨po, ?_, .inl ?_⟩
  · rwa [show (oms.onOrderAck id oid).orders = oms.orders from
      congrArg OrderBook.orders (book_onOrderAck oms id oid)]
  · rw [slot_onOrderAck oms hlookup, Function.update_self]
    change ((oms.slot po).sm.transition .opened).2.current = .opened
    rw [OrderStateMachine.transition_current, hpending]
    rfl

/-- The ids of a placement are all tracked exactly when there is just one, and it is not the
empty text. -/
theorem sliced_order_tracked_iff (parse : Str → Option Json) {client : UpstoxRestClient}
    (hclient : client.paperMode = false) (network : HttpRequest → Exchange) (req : OrderRequest)
    {before : List OmsCall} (hbefore : ∀ call ∈ before, AcksOther oid call)
    (hpending : (Run.run step (init poolSize false) before).Pending oid)
    {ids : List Str} (hids : ids ≠ []) (hdistinct : ids.Nodup)
    (hlists : (network (client.placeOrderRequest req oid)).Lists parse ids)
    {share : Str → Int} (hshare : ∀ id ∈ ids, 0 < share id) :
    ((Run.run step (init poolSize false) before).completePlacement parse client network req
      oid).TracksEvery oid ids share ↔ ∃ id, ids = [id] ∧ id ≠ [] := by
  have hunlinked : (Run.run step (init poolSize false) before).Unlinked oid :=
    unlinked_run poolSize hbefore
  obtain ⟨p, hrecord, hstatus⟩ := hpending
  obtain ⟨first, rest, rfl⟩ := List.exists_cons_of_ne_nil hids
  rw [completePlacement_of_lists parse hclient hlists]
  generalize Run.run step (init poolSize false) before = oms at hunlinked hrecord ⊢
  have hlinked : (oms.onOrderAck first oid).LinkedBy oid first :=
    linkedBy_onOrderAck hunlinked hrecord
  constructor
  · intro htracks
    obtain ⟨po, hlookup, hcancellable⟩ := cancellable_onOrderAck first hrecord hstatus
    -- nothing is filled yet, so `cancel` has to reach every id at once
    have hsent : ∀ id ∈ first :: rest,
        (oms.onOrderAck first oid).exchangeOidOf oid = id ∧ id ≠ [] := by
      intro id hid
      have hcancel := htracks.cancels [] (List.forall_mem_nil _) po
      rw [Run.run_nil] at hcancel
      rw [← sendsCancel_iff hlookup hcancellable]
      exact hcancel hlookup hcancellable id hid (hshare id hid)
    refine ⟨first, ?_, (hsent first List.mem_cons_self).2⟩
    cases rest with
    | nil => rfl
    | cons second rest =>
        have hfirst := (hsent first List.mem_cons_self).1
        have hsecond := (hsent second (List.mem_cons_of_mem _ List.mem_cons_self)).1
        have hne := List.ne_of_not_mem_cons (List.nodup_cons.mp hdistinct).1
        exact absurd (hfirst.symm.trans hsecond) hne
  · rintro ⟨id, hone, hne⟩
    obtain ⟨rfl, rfl⟩ := List.cons.inj hone
    exact tracksEvery_of_linkedBy hlinked hne share

section Slices

def twoListing : Str := "\x7b\"data\":\x7b\"order_ids\":[\"E\",\"F\"]\x7d\x7d".toList

def parseSlices (body : Str) : Option Json :=
  if body = oneListing then some (listing [['E']])
  else if body = twoListing then some (listing [['E'], ['F']])
  else none

def sliced : OrderRequest := { instrumentToken := 1, quantity := 10 }

def submitSliced : List OmsCall := [.submit sliced 0 0 0]

private theorem pending_sliced :
    (Run.run step (init 1 false) submitSliced).Pending (orderId 0 0) := by
  have hlookup :
      (Run.run step (init 1 false) submitSliced).orders.lookup (orderId 0 0) = some 0 := by
    decide +kernel
  exact ⟨_, recordOf_of_lookup hlookup, by decide +kernel⟩

private theorem lists_oneListing :
    Exchange.Lists parseSlices { body := oneListing } [['E']] := by
  refine ⟨by decide, ?_⟩
  have hparse : parseSlices oneListing = some (listing [['E']]) := if_pos rfl
  rw [readOrderIds, hparse]
  rfl

private theorem acksOther_submitSliced : ∀ call ∈ submitSliced, AcksOther (orderId 0 0) call := by
  intro call hmem
  obtain rfl := List.mem_singleton.mp hmem
  trivial

theorem sliced_order_tracked_one_id :
    ((Run.run step (init 1 false) submitSliced).completePlacement parseSlices ⟨[], false⟩
      (fun _ => { body := oneListing }) sliced (orderId 0 0)).TracksEvery (orderId 0 0) [['E']]
        fun _ => 10 := by
  refine (sliced_order_tracked_iff parseSlices rfl _ sliced acksOther_submitSliced pending_sliced
    (by decide) (by decide) lists_oneListing fun _ _ => by decide).mpr ?_
  exact ⟨['E'], rfl, by decide⟩

/-- The broker splits the order in two slices of five: a fill of the second one is discarded,
and `cancel` does not reach it. -/
theorem second_slice_untracked :
    let oms := (Run.run step (init 1 false) submitSliced).completePlacement parseSlices
      ⟨[], false⟩ (fun _ => { body := twoListing }) sliced (orderId 0 0)
    ((oms.onFill ⟨['F'], 100, 5, ['T']⟩ 0).slot 0).order.filledQty = 0 ∧
      (oms.cancel (orderId 0 0)).2.trace.count (.cancelOrder ['F']) = 0 ∧
      ¬oms.TracksEvery (orderId 0 0) [['E'], ['F']] fun _ => 5 := by
  intro oms
  have hfilled : ((oms.onFill ⟨['F'], 100, 5, ['T']⟩ 0).slot 0).order.filledQty = 0 := by
    decide +kernel
  have hsent : (oms.cancel (orderId 0 0)).2.trace.count (.cancelOrder ['F']) = 0 := by
    decide +kernel
  refine ⟨hfilled, hsent, fun htracks => ?_⟩
  have hcredited := htracks.credits [] (List.forall_mem_nil _) 0
  rw [Run.run_nil] at hcredited
  have hnone := hcredited (by decide +kernel) ⟨['F'], 100, 5, ['T']⟩ 0 (by decide)
    (by decide +kernel)
  rw [hfilled] at hnone
  exact absurd hnone (by decide +kernel)

end Slices

end OrderManagementSystem

end QuantForge
