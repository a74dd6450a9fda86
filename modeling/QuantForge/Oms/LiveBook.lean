import QuantForge.Oms.Lifecycle

/-! `orders_` and `exchange_to_internal_` as partial functions: the record of each order,
whichever slot holds it, and the order that each exchange id leads to. In the live mode every
operation is an update of these two at one place. -/
namespace QuantForge.OrderManagementSystem

open Library

variable {poolSize : Nat} (oms : OrderManagementSystem poolSize)

def recordOf (oid : Str) : Option PooledOrder := (oms.orders.lookup oid).map oms.slot

def linkOf (exchangeOid : Str) : Option Str := oms.exchangeToInternal.lookup exchangeOid

section Records

variable {oms} {oms' : OrderManagementSystem poolSize} {oid : Str} {po : Fin poolSize}
  {p : PooledOrder}

theorem recordOf_eq_some : oms.recordOf oid = some p ↔
    ∃ po, oms.orders.lookup oid = some po ∧ oms.slot po = p :=
  Option.map_eq_some_iff

theorem recordOf_eq_none : oms.recordOf oid = none ↔ oms.orders.lookup oid = none :=
  Option.map_eq_none_iff

theorem recordOf_of_lookup (h : oms.orders.lookup oid = some po) :
    oms.recordOf oid = some (oms.slot po) := by
  rw [recordOf, h]
  rfl

private theorem map_slot_of_ne {found : Option (Fin poolSize)} (h : found ≠ some po)
    (slot : Fin poolSize → PooledOrder) (p : PooledOrder) :
    found.map (Function.update slot po p) = found.map slot := by
  cases found with
  | none => rfl
  | some po' =>
      have hne : po' ≠ po := fun heq => h (congrArg some heq)
      rw [Option.map_some, Function.update_of_ne hne]
      rfl

private theorem lookup_ne_of_ne (hpart : oms.book.Partitioned)
    (hlookup : oms.orders.lookup oid = some po) {oid' : Str} (hne : oid' ≠ oid) :
    oms.orders.lookup oid' ≠ some po :=
  fun hlookup' => hne (hpart.key_unique hlookup' hlookup)

theorem recordOf_update (hpart : oms.book.Partitioned) (hbook : oms'.book = oms.book)
    (hslot : oms'.slot = Function.update oms.slot po p)
    (hlookup : oms.orders.lookup oid = some po) :
    oms'.recordOf = Function.update oms.recordOf oid (some p) := by
  funext oid'
  unfold recordOf
  rw [show oms'.orders = oms.orders from congrArg OrderBook.orders hbook, hslot]
  by_cases heq : oid' = oid
  · rw [heq, Function.update_self, hlookup, Option.map_some, Function.update_self]
  · rw [Function.update_of_ne heq]
    exact map_slot_of_ne (lookup_ne_of_ne hpart hlookup heq) oms.slot p

theorem recordOf_release (hpart : oms.book.Partitioned)
    (hbook : oms'.book = oms.book.release oid po)
    (hslot : oms'.slot = Function.update oms.slot po p)
    (hlookup : oms.orders.lookup oid = some po) :
    oms'.recordOf = Function.update oms.recordOf oid none := by
  funext oid'
  unfold recordOf
  rw [show oms'.orders = oms.orders.erase oid from congrArg OrderBook.orders hbook, hslot]
  by_cases heq : oid' = oid
  · rw [heq, Function.update_self, AList.lookup_erase]
    rfl
  · rw [Function.update_of_ne heq, AList.lookup_erase_ne heq]
    exact map_slot_of_ne (lookup_ne_of_ne hpart hlookup heq) oms.slot p

theorem recordOf_place (hpart : oms.book.Partitioned) {rest : List (Fin poolSize)}
    (hfree : oms.pool.freeList = po :: rest)
    (hbook : oms'.book = (oms.book.take rest).issue.store oid po)
    (hslot : oms'.slot = Function.update oms.slot po p) :
    oms'.recordOf = Function.update oms.recordOf oid (some p) := by
  have hunheld : po ∉ oms.book.orders.values := fun hmem =>
    (OrderBook.exclusive_take hpart.toExclusive hfree).2 (List.mem_append_right _ hmem)
  funext oid'
  unfold recordOf
  rw [show oms'.orders = oms.orders.insert oid po from congrArg OrderBook.orders hbook, hslot]
  by_cases heq : oid' = oid
  · rw [heq, Function.update_self, AList.lookup_insert, Option.map_some, Function.update_self]
  · rw [Function.update_of_ne heq, AList.lookup_insert_ne heq]
    exact map_slot_of_ne (fun h => hunheld (Dict.mem_values.mpr ⟨oid', h⟩)) oms.slot p

theorem issued_of_recordOf (hpart : oms.book.Partitioned) (hrecord : oms.recordOf oid = some p) :
    oms.book.Issued oid := by
  obtain ⟨po, hlookup, -⟩ := recordOf_eq_some.mp hrecord
  exact hpart.issued oid po hlookup

end Records

section Links

variable {oms} {oms' : OrderManagementSystem poolSize}

theorem linkOf_insert {exchangeOid oid : Str}
    (h : oms'.exchangeToInternal = oms.exchangeToInternal.insert exchangeOid oid) :
    oms'.linkOf = Function.update oms.linkOf exchangeOid (some oid) := by
  unfold linkOf
  rw [h]
  exact Dict.lookup_insert_eq_update oms.exchangeToInternal exchangeOid oid

theorem linkOf_erase {exchangeOid : Str}
    (h : oms'.exchangeToInternal = oms.exchangeToInternal.erase exchangeOid) :
    oms'.linkOf = Function.update oms.linkOf exchangeOid none := by
  unfold linkOf
  rw [h]
  exact Dict.lookup_erase_eq_update oms.exchangeToInternal exchangeOid

theorem exchangeOidOf_cases (oms : OrderManagementSystem poolSize) (oid : Str) :
    oms.exchangeOidOf oid = [] ∧ (∀ e, oms.linkOf e ≠ some oid) ∨
      oms.linkOf (oms.exchangeOidOf oid) = some oid := by
  unfold exchangeOidOf
  cases hfind : oms.exchangeToInternal.entries.find? fun e => e.2 = oid with
  | none =>
      left
      refine ⟨rfl, fun e hlink => ?_⟩
      have hall := List.find?_eq_none.mp hfind ⟨e, oid⟩ (Dict.mem_of_lookup hlink)
      exact absurd (decide_eq_true rfl) hall
  | some e =>
      right
      have hvalue : e.2 = oid := by simpa using List.find?_some hfind
      apply Dict.lookup_of_mem
      rw [← hvalue]
      exact List.mem_of_find?_eq_some hfind

theorem resolve_of_linkOf {exchangeOid oid : Str} (h : oms.linkOf exchangeOid = some oid) :
    oms.resolve exchangeOid = oid := by
  unfold linkOf at h
  rw [resolve, h]

theorem rejectTarget_of_linkOf {exchangeOid oid : Str} (h : oms.linkOf exchangeOid = some oid) :
    oms.rejectTarget exchangeOid = oid := by
  unfold linkOf at h
  rw [rejectTarget, h]
  rfl

end Links

section Operations

variable {oms} {exchangeOid oid : Str} {p : PooledOrder}

theorem recordOf_onOrderAck (hpart : oms.book.Partitioned) (hrecord : oms.recordOf oid = some p) :
    (oms.onOrderAck exchangeOid oid).recordOf =
      Function.update oms.recordOf oid (some (p.moveTo .opened)) := by
  obtain ⟨po, hlookup, rfl⟩ := recordOf_eq_some.mp hrecord
  exact recordOf_update hpart (book_onOrderAck oms exchangeOid oid)
    (slot_onOrderAck oms hlookup) hlookup

theorem linkOf_onOrderAck (hrecord : oms.recordOf oid = some p) :
    (oms.onOrderAck exchangeOid oid).linkOf =
      Function.update oms.linkOf exchangeOid (some oid) := by
  obtain ⟨po, hlookup, rfl⟩ := recordOf_eq_some.mp hrecord
  apply linkOf_insert
  rw [onOrderAck_of_some oms hlookup]
  rfl

theorem onOrderAck_of_recordOf_none (hrecord : oms.recordOf oid = none) :
    oms.onOrderAck exchangeOid oid = oms :=
  onOrderAck_of_none oms (recordOf_eq_none.mp hrecord)

section Fill

variable (report : FillReport) (nowNs : Nat)

def filledRecord (oms : OrderManagementSystem poolSize) (p : PooledOrder) : PooledOrder :=
  p.applyFill (p.order.buildFill (oms.resolve report.exchangeOid) report nowNs)

def Discards (oms : OrderManagementSystem poolSize) : Prop :=
  ¬oms.Admits report ∨ oms.recordOf (oms.resolve report.exchangeOid) = none

theorem maps_onFill_of_discards (h : oms.Discards report) :
    (oms.onFill report nowNs).recordOf = oms.recordOf ∧
      (oms.onFill report nowNs).linkOf = oms.linkOf := by
  by_cases hadmits : oms.Admits report
  · have hnone : oms.lookupFill report.exchangeOid = none := by
      have hrecord := h.resolve_left (not_not.mpr hadmits)
      rw [lookupFill, recordOf_eq_none.mp hrecord]
      rfl
    rw [onFill_of_admits oms nowNs hadmits, deliverFill_of_none _ nowNs (by exact hnone)]
    exact ⟨rfl, rfl⟩
  · rw [onFill_of_not_admits oms nowNs hadmits]
    exact ⟨rfl, rfl⟩

private theorem onFill_of_recordOf (hadmits : oms.Admits report)
    (hrecord : oms.recordOf (oms.resolve report.exchangeOid) = some p) :
    ∃ po fill, oms.orders.lookup (oms.resolve report.exchangeOid) = some po ∧ oms.slot po = p ∧
      p.applyFill fill = oms.filledRecord report nowNs p ∧
      oms.onFill report nowNs = ((applyFill { oms with dedup := oms.markedDedup report }
        report.exchangeOid (oms.resolve report.exchangeOid) po fill).pushFill fill).record
          (.fillCallback fill) := by
  obtain ⟨po, hlookup, rfl⟩ := recordOf_eq_some.mp hrecord
  refine ⟨po, _, hlookup, rfl, rfl, ?_⟩
  have hfound : oms.lookupFill report.exchangeOid =
      some (oms.resolve report.exchangeOid, po) :=
    (lookupFill_eq_some oms).mpr ⟨rfl, hlookup⟩
  rw [onFill_of_admits oms nowNs hadmits, deliverFill_of_some _ nowNs (by exact hfound)]
  rfl

theorem recordOf_onFill (hpart : oms.book.Partitioned) (hadmits : oms.Admits report)
    (hrecord : oms.recordOf (oms.resolve report.exchangeOid) = some p) :
    (oms.onFill report nowNs).recordOf =
      Function.update oms.recordOf (oms.resolve report.exchangeOid)
        (if (oms.filledRecord report nowNs p).sm.isTerminal = true then none
          else some (oms.filledRecord report nowNs p)) := by
  obtain ⟨po, fill, hlookup, rfl, hfilled, heq⟩ :=
    onFill_of_recordOf report nowNs hadmits hrecord
  rw [heq, ← hfilled]
  have hslot := slot_applyFill { oms with dedup := oms.markedDedup report } report.exchangeOid
    (oms.resolve report.exchangeOid) po fill
  have hbook := book_applyFill { oms with dedup := oms.markedDedup report } report.exchangeOid
    (oms.resolve report.exchangeOid) po fill
  by_cases hdone : ((oms.slot po).applyFill fill).sm.isTerminal = true
  · rw [if_pos hdone]
    exact recordOf_release hpart (hbook.trans (if_pos hdone)) hslot hlookup
  · rw [if_neg hdone]
    exact recordOf_update hpart (hbook.trans (if_neg hdone)) hslot hlookup

theorem linkOf_onFill (hadmits : oms.Admits report)
    (hrecord : oms.recordOf (oms.resolve report.exchangeOid) = some p) :
    (oms.onFill report nowNs).linkOf =
      if (oms.filledRecord report nowNs p).sm.isTerminal = true then
        Function.update oms.linkOf report.exchangeOid none
      else oms.linkOf := by
  obtain ⟨po, fill, hlookup, rfl, hfilled, heq⟩ :=
    onFill_of_recordOf report nowNs hadmits hrecord
  rw [heq, ← hfilled]
  have hlinks := exchangeToInternal_applyFill { oms with dedup := oms.markedDedup report }
    report.exchangeOid (oms.resolve report.exchangeOid) po fill
  by_cases hdone : ((oms.slot po).applyFill fill).sm.isTerminal = true
  · rw [if_pos hdone]
    exact linkOf_erase (hlinks.trans (if_pos hdone))
  · rw [if_neg hdone]
    funext e
    exact congrArg (fun links => AList.lookup e links) (hlinks.trans (if_neg hdone))

end Fill

section Reject

variable (reason : Str)

theorem maps_onReject_of_none (hrecord : oms.recordOf (oms.rejectTarget exchangeOid) = none) :
    (oms.onReject exchangeOid reason).recordOf = oms.recordOf ∧
      (oms.onReject exchangeOid reason).linkOf = oms.linkOf := by
  rw [onReject_of_none oms reason (recordOf_eq_none.mp hrecord)]
  exact ⟨rfl, rfl⟩

theorem maps_onReject_of_some (hpart : oms.book.Partitioned)
    (hrecord : oms.recordOf (oms.rejectTarget exchangeOid) = some p) :
    (oms.onReject exchangeOid reason).recordOf =
        Function.update oms.recordOf (oms.rejectTarget exchangeOid) none ∧
      (oms.onReject exchangeOid reason).linkOf =
        Function.update oms.linkOf exchangeOid none := by
  obtain ⟨po, hlookup, rfl⟩ := recordOf_eq_some.mp hrecord
  rw [onReject_of_some oms reason hlookup]
  exact ⟨recordOf_release hpart rfl rfl hlookup, linkOf_erase rfl⟩

theorem recordOf_dropOrder (hpart : oms.book.Partitioned) :
    (oms.dropOrder oid).recordOf = Function.update oms.recordOf oid none := by
  cases hlookup : oms.orders.lookup oid with
  | none =>
      have hnone := recordOf_eq_none.mpr hlookup
      rw [dropOrder_of_none oms hlookup, ← hnone, Function.update_eq_self]
  | some po =>
      rw [dropOrder_of_some oms hlookup]
      exact recordOf_release hpart rfl (Function.update_eq_self po oms.slot).symm hlookup

theorem linkOf_dropOrder : (oms.dropOrder oid).linkOf = oms.linkOf := by
  unfold dropOrder
  split <;> rfl

end Reject

section Submit

variable {req : OrderRequest} {tsMs placedNs fillNs : Nat}

def newRecord (oms : OrderManagementSystem poolSize) (req : OrderRequest)
    (tsMs placedNs : Nat) : PooledOrder :=
  { order := Order.populate {} (orderId tsMs oms.seq) req placedNs }

theorem maps_submit (hpart : oms.book.Partitioned) (hlive : oms.paperMode = false)
    {po : Fin poolSize} {rest : List (Fin poolSize)} (hfree : oms.pool.freeList = po :: rest)
    (req : OrderRequest) (tsMs placedNs fillNs : Nat) :
    (oms.submit req tsMs placedNs fillNs).2.recordOf =
        Function.update oms.recordOf (orderId tsMs oms.seq)
          (some (oms.newRecord req tsMs placedNs)) ∧
      (oms.submit req tsMs placedNs fillNs).2.linkOf = oms.linkOf := by
  rw [submit_of_cons oms req tsMs placedNs fillNs hfree, hlive]
  exact ⟨recordOf_place hpart hfree rfl (slot_placed oms po rest req tsMs placedNs), rfl⟩

end Submit

theorem maps_cancel :
    (oms.cancel oid).2.recordOf = oms.recordOf ∧ (oms.cancel oid).2.linkOf = oms.linkOf := by
  obtain heq | ⟨exchangeOid, heq⟩ := oms.cancel_eq oid
  · rw [heq]
    exact ⟨rfl, rfl⟩
  · rw [heq]
    exact ⟨rfl, rfl⟩

theorem maps_cancelAllOpen :
    oms.cancelAllOpen.recordOf = oms.recordOf ∧ oms.cancelAllOpen.linkOf = oms.linkOf :=
  cancelAllOpen_induction oms
    (P := fun after => after.recordOf = oms.recordOf ∧ after.linkOf = oms.linkOf)
    (fun _ _ hmaps => hmaps) ⟨rfl, rfl⟩

end Operations

section Settings

variable {oms}

def issuing (oms : OrderManagementSystem poolSize) : Bool × Nat := (oms.paperMode, oms.seq)

theorem issuing_onOrderAck (exchangeOid oid : Str) :
    (oms.onOrderAck exchangeOid oid).issuing = oms.issuing := by
  unfold onOrderAck
  split <;> rfl

private theorem issuing_applyFill (exchangeOid oid : Str) (po : Fin poolSize) (fill : Fill) :
    (oms.applyFill exchangeOid oid po fill).issuing = oms.issuing := by
  unfold applyFill retireIfTerminal
  dsimp only
  split <;> rfl

theorem issuing_onFill (report : FillReport) (nowNs : Nat) :
    (oms.onFill report nowNs).issuing = oms.issuing := by
  by_cases hadmits : oms.Admits report
  · rw [onFill_of_admits oms nowNs hadmits]
    cases hfound : oms.lookupFill report.exchangeOid with
    | none =>
        rw [deliverFill_of_none _ nowNs (by exact hfound)]
        rfl
    | some found =>
        rw [deliverFill_of_some _ nowNs (by exact hfound)]
        exact issuing_applyFill _ _ _ _
  · rw [onFill_of_not_admits oms nowNs hadmits]
    rfl

theorem issuing_onReject (exchangeOid reason : Str) :
    (oms.onReject exchangeOid reason).issuing = oms.issuing := by
  cases hlookup : oms.orders.lookup (oms.rejectTarget exchangeOid) with
  | none =>
      rw [onReject_of_none oms reason hlookup]
      rfl
  | some po =>
      rw [onReject_of_some oms reason hlookup]
      rfl

theorem issuing_dropOrder (oid : Str) : (oms.dropOrder oid).issuing = oms.issuing := by
  unfold dropOrder
  split <;> rfl

theorem issuing_cancel (oid : Str) : (oms.cancel oid).2.issuing = oms.issuing := by
  obtain heq | ⟨exchangeOid, heq⟩ := oms.cancel_eq oid
  · rw [heq]
  · rw [heq]
    rfl

theorem issuing_cancelAllOpen : oms.cancelAllOpen.issuing = oms.issuing :=
  cancelAllOpen_induction oms (P := fun after => after.issuing = oms.issuing)
    (fun _ _ heq => heq) rfl

theorem issuing_step (hlive : oms.paperMode = false) (call : OmsCall) :
    (oms.step call).paperMode = false ∧ oms.seq ≤ (oms.step call).seq := by
  have hsame : ∀ {after : OrderManagementSystem poolSize}, after.issuing = oms.issuing →
      after.paperMode = false ∧ oms.seq ≤ after.seq := by
    intro after heq
    obtain ⟨hmode, hseq⟩ := Prod.mk.inj heq
    exact ⟨hmode.trans hlive, hseq.ge⟩
  cases call with
  | submit req tsMs placedNs fillNs =>
      cases hfree : oms.pool.freeList with
      | nil =>
          rw [step, submit_of_nil oms req tsMs placedNs fillNs hfree]
          exact ⟨hlive, le_rfl⟩
      | cons po rest =>
          rw [step, submit_of_cons oms req tsMs placedNs fillNs hfree, hlive]
          exact ⟨hlive, Nat.le_succ oms.seq⟩
  | onOrderAck exchangeOid oid => exact hsame (issuing_onOrderAck exchangeOid oid)
  | onFill report nowNs => exact hsame (issuing_onFill report nowNs)
  | onReject exchangeOid reason => exact hsame (issuing_onReject exchangeOid reason)
  | placementFailed oid reason =>
      exact hsame ((issuing_dropOrder oid).trans (issuing_onReject [] reason))
  | cancel oid => exact hsame (issuing_cancel oid)
  | cancelAllOpen => exact hsame issuing_cancelAllOpen
  | resetForEod => exact hsame rfl

theorem issued_step (hlive : oms.paperMode = false) {oid : Str} (h : oms.book.Issued oid)
    (call : OmsCall) : (oms.step call).book.Issued oid :=
  h.of_seq_le (issuing_step hlive call).2

end Settings

end QuantForge.OrderManagementSystem
