import QuantForge.Ems.ExecutionManagementSystem
import QuantForge.Oms.LiveBook

/-! The live order management system and the exchange that answers it. The exchange keeps for
each order what became of it; an order is final when it is filled, rejected or cancelled. Only
fills and rejects reach the order management system: what the exchange confirms to a cancel
ends in the execution system. -/
namespace QuantForge

open Library OrderManagementSystem

inductive ExchangeStatus where
  | placed
  | working
  | filled
  | rejected
  | cancelled
  deriving DecidableEq

/-- What the exchange knows of an order. -/
structure ExchangeOrder where
  quantity : Int
  filled : Int := 0
  exchangeOid : Option Str := none
  status : ExchangeStatus := .placed
  deriving DecidableEq

namespace ExchangeOrder

def Final (o : ExchangeOrder) : Prop :=
  o.status = .filled ∨ o.status = .rejected ∨ o.status = .cancelled

instance (o : ExchangeOrder) : Decidable o.Final := inferInstanceAs (Decidable (_ ∨ _ ∨ _))

def acknowledge (o : ExchangeOrder) (exchangeOid : Str) : ExchangeOrder :=
  { o with exchangeOid := some exchangeOid, status := .working }

def fill (o : ExchangeOrder) (quantity : Int) : ExchangeOrder :=
  { o with
    filled := o.filled + quantity
    status := if o.filled + quantity = o.quantity then .filled else .working }

def finish (o : ExchangeOrder) (status : ExchangeStatus) : ExchangeOrder :=
  { o with status := status }

structure Matches (o : ExchangeOrder) (p : PooledOrder) : Prop where
  status : o.status = .placed ∧ p.sm.current = .pending ∨ o.status = .working ∧ p.Fillable ∨
    o.status = .cancelled
  filled : p.order.filledQty = o.filled
  quantity : p.order.quantity = o.quantity

theorem Matches.pending {o : ExchangeOrder} {p : PooledOrder} (h : o.Matches p)
    (hplaced : o.status = .placed) : p.sm.current = .pending := by
  obtain ⟨-, hpending⟩ | ⟨hworking, -⟩ | hcancelled := h.status
  · exact hpending
  · rw [hplaced] at hworking
    contradiction
  · rw [hplaced] at hcancelled
    contradiction

theorem Matches.fillable {o : ExchangeOrder} {p : PooledOrder} (h : o.Matches p)
    (hworking : o.status = .working) : p.Fillable := by
  obtain ⟨hplaced, -⟩ | ⟨-, hfillable⟩ | hcancelled := h.status
  · rw [hworking] at hplaced
    contradiction
  · exact hfillable
  · rw [hworking] at hcancelled
    contradiction

end ExchangeOrder

/-- `requested` lists the orders for which `cancel` returned true. -/
structure LiveSession (poolSize : Nat) where
  oms : OrderManagementSystem poolSize
  client : UpstoxRestClient
  exchange : Dict Str ExchangeOrder := ∅
  requested : List Str := []

inductive SessionEvent where
  | submit (req : OrderRequest) (tsMs placedNs fillNs : Nat)
  | acknowledge (oid exchangeOid : Str)
  | fill (oid : Str) (report : FillReport) (nowNs : Nat)
  | redeliver (report : FillReport) (nowNs : Nat)
  | placementFails (oid reason : Str)
  | reject (oid exchangeOid reason : Str)
  | cancel (oid : Str)
  | cancelAllOpen
  | confirmCancel (oid exchangeOid : Str) (x : Exchange)
  | resetForEod

namespace LiveSession

variable {poolSize : Nat}

def init (poolSize : Nat) (client : UpstoxRestClient) : LiveSession poolSize where
  oms := OrderManagementSystem.init poolSize false
  client := client

section Step

variable (s : LiveSession poolSize)

def modifyOrder (oid : Str) (f : ExchangeOrder → ExchangeOrder) : Dict Str ExchangeOrder :=
  match s.exchange.lookup oid with
  | none => s.exchange
  | some o => s.exchange.insert oid (f o)

def step : SessionEvent → LiveSession poolSize
  | .submit req tsMs placedNs fillNs =>
      match s.oms.submit req tsMs placedNs fillNs with
      | (false, oms) => { s with oms := oms }
      | (true, oms) =>
          { s with
            oms := oms
            exchange := s.exchange.insert (orderId tsMs s.oms.seq) { quantity := req.quantity } }
  | .acknowledge oid exchangeOid =>
      { s with
        oms := s.oms.onOrderAck exchangeOid oid
        exchange := s.modifyOrder oid fun o => o.acknowledge exchangeOid }
  | .fill oid report nowNs =>
      { s with
        oms := s.oms.onFill report nowNs
        exchange := s.modifyOrder oid fun o => o.fill report.quantity }
  | .redeliver report nowNs => { s with oms := s.oms.onFill report nowNs }
  | .placementFails oid reason =>
      { s with
        oms := s.oms.placementFailed oid reason
        exchange := s.modifyOrder oid fun o => o.finish .rejected }
  | .reject oid exchangeOid reason =>
      { s with
        oms := s.oms.onReject exchangeOid reason
        exchange := s.modifyOrder oid fun o => o.finish .rejected }
  | .cancel oid =>
      { s with
        oms := (s.oms.cancel oid).2
        requested := if (s.oms.cancel oid).1 then oid :: s.requested else s.requested }
  | .cancelAllOpen =>
      { s with
        oms := s.oms.cancelAllOpen
        requested := (s.oms.cancellable.filter fun oid => (s.oms.cancel oid).1) ++ s.requested }
  | .confirmCancel oid exchangeOid x =>
      { s with
        oms := ExecutionManagementSystem.cancelOrder s.client (fun _ => x) exchangeOid s.oms
        exchange := s.modifyOrder oid fun o => o.finish .cancelled }
  | .resetForEod => { s with oms := s.oms.resetForEod }

def Knows (oid : Str) (P : ExchangeOrder → Prop) : Prop :=
  ∃ o ∈ s.exchange.lookup oid, P o

instance (oid : Str) (P : ExchangeOrder → Prop) [DecidablePred P] : Decidable (s.Knows oid P) :=
  inferInstanceAs (Decidable (∃ o ∈ s.exchange.lookup oid, P o))

/-- What an exchange does: it answers an order once, with an id of its own; it fills what
works, up to the quantity; it may deliver a fill twice; it cancels what it was asked to. -/
def Allowed : SessionEvent → Prop
  | .acknowledge oid exchangeOid =>
      s.Knows oid (fun o => o.status = .placed) ∧
        ∀ entry ∈ s.exchange.entries, entry.2.exchangeOid ≠ some exchangeOid
  | .fill oid report _ =>
      s.Knows oid (fun o => o.status = .working ∧ o.exchangeOid = some report.exchangeOid ∧
        0 < report.quantity ∧ o.filled + report.quantity ≤ o.quantity) ∧ s.oms.Admits report
  | .redeliver report _ => ¬s.oms.Admits report
  | .placementFails oid _ => s.Knows oid fun o => o.status = .placed
  | .reject oid exchangeOid _ =>
      s.Knows oid fun o => o.status = .working ∧ o.exchangeOid = some exchangeOid
  | .confirmCancel oid exchangeOid x =>
      s.Knows oid (fun o => o.status = .working ∧ o.exchangeOid = some exchangeOid) ∧
        oid ∈ s.requested ∧ x.Succeeds
  | _ => True

def AllFinal : Prop := ∀ entry ∈ s.exchange.entries, entry.2.Final

instance : Decidable s.AllFinal :=
  inferInstanceAs (Decidable (∀ entry ∈ s.exchange.entries, entry.2.Final))

structure GivenBack : Prop where
  orders : s.oms.orders.entries = []
  links : s.oms.exchangeToInternal.entries = []
  openOrderCount : s.oms.openOrderCount = 0
  available : s.oms.pool.available = poolSize

end Step

def ConfirmsCancel : SessionEvent → Prop
  | .confirmCancel _ _ _ => True
  | _ => False

instance (s : LiveSession poolSize) : ∀ event, Decidable (s.Allowed event)
  | .submit _ _ _ _ => isTrue trivial
  | .acknowledge _ _ => inferInstanceAs (Decidable (_ ∧ _))
  | .fill _ _ _ => inferInstanceAs (Decidable (_ ∧ _))
  | .redeliver _ _ => inferInstanceAs (Decidable (¬_))
  | .placementFails oid _ =>
      inferInstanceAs (Decidable (s.Knows oid fun o => o.status = .placed))
  | .reject oid e _ =>
      inferInstanceAs (Decidable (s.Knows oid fun o =>
        o.status = .working ∧ o.exchangeOid = some e))
  | .cancel _ => isTrue trivial
  | .cancelAllOpen => isTrue trivial
  | .confirmCancel _ _ _ => inferInstanceAs (Decidable (_ ∧ _))
  | .resetForEod => isTrue trivial

/-- An order that the exchange has not finished, and that an id leads to which can be used for
a cancel, has a record; a record belongs to an order that matches it. -/
def Agree : Option ExchangeOrder → Option PooledOrder → Prop
  | none, p => p = none
  | some o, some p => o.Matches p
  | some o, none => o.status = .filled ∨ o.status = .rejected ∨ o.exchangeOid = some []

def idOf (order : Str → Option ExchangeOrder) (oid : Str) : Option Str :=
  (order oid).bind ExchangeOrder.exchangeOid

/-- What an order is to the other party, whatever the other orders are. -/
structure OrderSound (requested : List Str) (oid : Str) (o : Option ExchangeOrder) : Prop where
  placed : ∀ order ∈ o, order.status = .placed → order.exchangeOid = none
  asked : oid ∈ requested → ∃ e, o.bind ExchangeOrder.exchangeOid = some e ∧ e ≠ []
  confirmed : ∀ order ∈ o, order.status = .cancelled → oid ∈ requested

structure Tallies (order : Str → Option ExchangeOrder) (record : Str → Option PooledOrder)
    (link : Str → Option Str) (requested : List Str) : Prop where
  agree : ∀ oid, Agree (order oid) (record oid)
  links : ∀ e oid, link e = some oid ↔ record oid ≠ none ∧ idOf order oid = some e
  distinct : ∀ oid oid' e, idOf order oid = some e → idOf order oid' = some e → oid = oid'
  sound : ∀ oid, OrderSound requested oid (order oid)

section Tallies

variable {order : Str → Option ExchangeOrder} {record : Str → Option PooledOrder}
  {link link' : Str → Option Str} {requested : List Str} {oid : Str}

private theorem idOf_update (o : Option ExchangeOrder) (oid' : Str) :
    idOf (Function.update order oid o) oid' =
      if oid' = oid then o.bind ExchangeOrder.exchangeOid else idOf order oid' := by
  unfold idOf
  by_cases heq : oid' = oid
  · rw [heq, Function.update_self, if_pos rfl]
  · rw [Function.update_of_ne heq, if_neg heq]

theorem Tallies.update (h : Tallies order record link requested) {o : Option ExchangeOrder}
    {p : Option PooledOrder} (hagree : Agree o p) (hsound : OrderSound requested oid o)
    (hown : ∀ e, link' e = some oid ↔ p ≠ none ∧ o.bind ExchangeOrder.exchangeOid = some e)
    (hothers : ∀ e oid', oid' ≠ oid → (link' e = some oid' ↔ link e = some oid'))
    (hnew : ∀ e oid', o.bind ExchangeOrder.exchangeOid = some e → oid' ≠ oid →
      idOf order oid' ≠ some e) :
    Tallies (Function.update order oid o) (Function.update record oid p) link' requested where
  agree := by
    intro oid'
    by_cases heq : oid' = oid
    · rw [heq, Function.update_self, Function.update_self]
      exact hagree
    · rw [Function.update_of_ne heq, Function.update_of_ne heq]
      exact h.agree oid'
  links := by
    intro e oid'
    rw [idOf_update]
    by_cases heq : oid' = oid
    · rw [heq, Function.update_self, if_pos rfl]
      exact hown e
    · rw [Function.update_of_ne heq, if_neg heq, hothers e oid' heq]
      exact h.links e oid'
  distinct := by
    intro left right e hleft hright
    rw [idOf_update] at hleft hright
    by_cases hl : left = oid
    · rw [if_pos hl] at hleft
      by_contra hne
      have hr : right ≠ oid := fun hr => hne (hl.trans hr.symm)
      rw [if_neg hr] at hright
      exact hnew e right hleft hr hright
    · rw [if_neg hl] at hleft
      by_cases hr : right = oid
      · rw [if_pos hr] at hright
        exact absurd hleft (hnew e left hright hl)
      · rw [if_neg hr] at hright
        exact h.distinct left right e hleft hright
  sound := by
    intro oid'
    by_cases heq : oid' = oid
    · rw [heq, Function.update_self]
      exact hsound
    · rw [Function.update_of_ne heq]
      exact h.sound oid'

theorem Tallies.drop (h : Tallies order record link requested) {o : Option ExchangeOrder}
    (hagree : Agree o none) (hsound : OrderSound requested oid o)
    (hid : o.bind ExchangeOrder.exchangeOid = idOf order oid)
    (hown : ∀ e, link' e ≠ some oid)
    (hothers : ∀ e oid', oid' ≠ oid → (link' e = some oid' ↔ link e = some oid')) :
    Tallies (Function.update order oid o) (Function.update record oid none) link' requested := by
  apply h.update hagree hsound
  · intro e
    exact iff_of_false (hown e) fun hnone => hnone.1 rfl
  · exact hothers
  · intro e oid' he hne hsame
    rw [hid] at he
    exact hne (h.distinct oid' oid e hsame he)

theorem Tallies.revise (h : Tallies order record link requested) {o : ExchangeOrder}
    {p : PooledOrder} (hheld : record oid ≠ none) (hagree : o.Matches p)
    (hsound : OrderSound requested oid (some o)) (hid : o.exchangeOid = idOf order oid) :
    Tallies (Function.update order oid (some o)) (Function.update record oid (some p)) link
      requested := by
  apply h.update (o := some o) (p := some p) hagree hsound
  · intro e
    rw [h.links, Option.bind_some, hid, and_iff_right hheld,
      and_iff_right (Option.some_ne_none p)]
  · intro e oid' _
    rfl
  · intro e oid' he hne hsame
    rw [Option.bind_some, hid] at he
    exact hne (h.distinct oid' oid e hsame he)

theorem Tallies.ask (h : Tallies order record link requested) {requested' : List Str}
    (hkeep : ∀ oid ∈ requested, oid ∈ requested')
    (hask : ∀ oid ∈ requested', oid ∈ requested ∨ ∃ e, idOf order oid = some e ∧ e ≠ []) :
    Tallies order record link requested' where
  agree := h.agree
  links := h.links
  distinct := h.distinct
  sound := by
    intro oid
    refine ⟨(h.sound oid).placed, fun hmem => ?_, fun o ho hstatus => ?_⟩
    · obtain hold | hnew := hask oid hmem
      · exact (h.sound oid).asked hold
      · exact hnew
    · exact hkeep oid ((h.sound oid).confirmed o ho hstatus)

theorem Tallies.link_of_held (h : Tallies order record link requested) {e : Str}
    (hheld : record oid ≠ none) (hid : idOf order oid = some e) : link e = some oid :=
  (h.links e oid).mpr ⟨hheld, hid⟩

theorem Tallies.link_ne_of_gone (h : Tallies order record link requested)
    (hgone : record oid = none) (e : Str) : link e ≠ some oid :=
  fun hlink => ((h.links e oid).mp hlink).1 hgone

end Tallies

section Sound

variable (s : LiveSession poolSize)

def order (oid : Str) : Option ExchangeOrder := s.exchange.lookup oid

structure Sound : Prop where
  wellFormed : s.oms.WellFormed
  live : s.oms.paperMode = false
  issued : ∀ oid, s.order oid ≠ none → s.oms.book.Issued oid
  tallies : Tallies s.order s.oms.recordOf s.oms.linkOf s.requested

variable {s}

theorem order_of_modifyOrder {event : SessionEvent} {oid : Str} {o : ExchangeOrder}
    (h : s.order oid = some o) {f : ExchangeOrder → ExchangeOrder}
    (hexchange : (s.step event).exchange = s.modifyOrder oid f) :
    (s.step event).order = Function.update s.order oid (some (f o)) := by
  have hlookup : s.exchange.lookup oid = some o := h
  unfold order
  rw [hexchange, modifyOrder, hlookup]
  exact Dict.lookup_insert_eq_update s.exchange oid (f o)

theorem step_submit_of_cons {po : Fin poolSize} {rest : List (Fin poolSize)}
    (hfree : s.oms.pool.freeList = po :: rest) (req : OrderRequest) (tsMs placedNs fillNs : Nat) :
    s.step (.submit req tsMs placedNs fillNs) =
      { s with
        oms := (s.oms.submit req tsMs placedNs fillNs).2
        exchange := s.exchange.insert (orderId tsMs s.oms.seq) { quantity := req.quantity } } := by
  rw [step, submit_of_cons s.oms req tsMs placedNs fillNs hfree]

theorem order_submit {po : Fin poolSize} {rest : List (Fin poolSize)}
    (hfree : s.oms.pool.freeList = po :: rest) (req : OrderRequest) (tsMs placedNs fillNs : Nat) :
    (s.step (.submit req tsMs placedNs fillNs)).order =
      Function.update s.order (orderId tsMs s.oms.seq) (some { quantity := req.quantity }) := by
  rw [step_submit_of_cons hfree]
  exact Dict.lookup_insert_eq_update s.exchange _ _

theorem order_new (h : s.Sound) (tsMs : Nat) : s.order (orderId tsMs s.oms.seq) = none := by
  by_contra hknown
  exact s.oms.book.not_issued_next tsMs (h.issued _ hknown)

theorem recordOf_of_order_none (h : s.Sound) {oid : Str} (hnone : s.order oid = none) :
    s.oms.recordOf oid = none := by
  have hagree := h.tallies.agree oid
  rwa [hnone] at hagree

theorem recordOf_empty (h : s.Sound) : s.oms.recordOf [] = none := by
  apply recordOf_of_order_none h
  by_contra hknown
  obtain ⟨ts, k, -, heq⟩ := h.issued [] hknown
  exact absurd heq (by simp [orderId])

theorem recordOf_of_unfinished (h : s.Sound) {oid : Str} {o : ExchangeOrder}
    (horder : s.order oid = some o) (hstatus : o.status ≠ .filled ∧ o.status ≠ .rejected)
    (hid : o.exchangeOid ≠ some []) : ∃ p, s.oms.recordOf oid = some p ∧ o.Matches p := by
  have hagree := h.tallies.agree oid
  rw [horder] at hagree
  cases hrecord : s.oms.recordOf oid with
  | none =>
      rw [hrecord] at hagree
      obtain hfilled | hrejected | hempty := hagree
      · exact absurd hfilled hstatus.1
      · exact absurd hrejected hstatus.2
      · exact absurd hempty hid
  | some p =>
      rw [hrecord] at hagree
      exact ⟨p, rfl, hagree⟩

/-- A working order without a record was acknowledged under the empty id, to which nothing
leads. -/
theorem gone_of_recordOf_none (h : s.Sound) {oid e : Str} {o : ExchangeOrder}
    (horder : s.order oid = some o) (hstatus : o.status = .working)
    (hid : o.exchangeOid = some e) (hgone : s.oms.recordOf oid = none) :
    e = [] ∧ s.oms.linkOf [] = none := by
  have hagree := h.tallies.agree oid
  rw [horder, hgone] at hagree
  have hempty : o.exchangeOid = some [] := by
    obtain hfilled | hrejected | hempty := hagree
    · rw [hstatus] at hfilled
      contradiction
    · rw [hstatus] at hrejected
      contradiction
    · exact hempty
  have hidOf : idOf s.order oid = some [] := by
    rw [idOf, horder]
    exact hempty
  refine ⟨Option.some.inj (hid.symm.trans hempty), ?_⟩
  cases hlink : s.oms.linkOf [] with
  | none => rfl
  | some oid' =>
      obtain ⟨hheld, hid'⟩ := (h.tallies.links [] oid').mp hlink
      rw [h.tallies.distinct oid' oid [] hid' hidOf] at hheld
      exact absurd hgone hheld

end Sound

end LiveSession

end QuantForge
