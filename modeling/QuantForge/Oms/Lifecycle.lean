import QuantForge.Oms.SlotPartition

/-! The state machine against the order record. No caller looks at the result of
`transition`, so the record follows the machine exactly as long as every call finds
its order in a status that the call is meant for. -/
namespace QuantForge

open Library OrderStateMachine

/-- A transition stayed put or took a legal edge; a slot went back on a terminal status. -/
def OmsEffect.Legal : OmsEffect → Prop
  | .transition _ before after => before = after ∨ isLegal before after = true
  | .released _ status => isTerminal { status := status } = true
  | _ => True

namespace PooledOrder

def Agrees (p : PooledOrder) : Prop := p.order.status = p.sm.current

def Unfinished (p : PooledOrder) : Prop := p.sm.isTerminal = false

def Fillable (p : PooledOrder) : Prop :=
  p.sm.current = .opened ∨ p.sm.current = .partlyFilled

theorem fillTarget_eq (o : Order) : o.fillTarget = .complete ∨ o.fillTarget = .partlyFilled := by
  unfold Order.fillTarget
  split
  · exact .inl rfl
  · exact .inr rfl

private theorem fill_reaches_iff {status target : OrderStatus}
    (hlive : isTerminal { status := status } = false)
    (htarget : target = .complete ∨ target = .partlyFilled) :
    isLegal status target = true ∨ status = target ↔
      status = .opened ∨ status = .partlyFilled := by
  obtain rfl | rfl := htarget <;> cases status <;> simp_all [isTerminal, isLegal, current]

theorem agrees_moveTo_iff (p : PooledOrder) (target : OrderStatus) :
    (p.moveTo target).Agrees ↔ isLegal p.sm.current target = true ∨ p.sm.current = target :=
  transition_reaches_iff p.sm target

theorem agrees_applyFill_iff {p : PooledOrder} (hlive : p.Unfinished) (fill : Fill) :
    (p.applyFill fill).Agrees ↔ p.Fillable :=
  (agrees_moveTo_iff _ _).trans (fill_reaches_iff hlive (fillTarget_eq _))

theorem fillable_of_finished {p : PooledOrder} (hlive : p.Unfinished) {fill : Fill}
    (hdone : ¬(p.applyFill fill).Unfinished) : p.Fillable := by
  rw [← agrees_applyFill_iff hlive fill]
  refine (agrees_moveTo_iff _ _).mpr (.inl ?_)
  by_contra hillegal
  apply hdone
  change (p.sm.transition _).2.isTerminal = false
  rw [transition_of_illegal hillegal]
  exact hlive

end PooledOrder

namespace OrderManagementSystem

variable {poolSize : Nat} {oms : OrderManagementSystem poolSize}

def EachOrder (oms : OrderManagementSystem poolSize) (P : PooledOrder → Prop) : Prop :=
  ∀ oid po, oms.orders.lookup oid = some po → P (oms.slot po)

section EachOrder

variable {oms' : OrderManagementSystem poolSize} {P : PooledOrder → Prop} {p : PooledOrder}
  {oid : Str} {po : Fin poolSize}

private theorem orders_of_book {book : OrderBook poolSize} (hbook : oms.book = book) :
    oms.orders = book.orders := congrArg OrderBook.orders hbook

theorem eachOrder_update_iff (h : oms.EachOrder P)
    (hslot : oms'.slot = Function.update oms.slot po p) (hbook : oms'.book = oms.book)
    (hlookup : oms.orders.lookup oid = some po) : oms'.EachOrder P ↔ P p := by
  have horders := orders_of_book hbook
  unfold EachOrder
  rw [hslot, horders]
  constructor
  · intro h'
    simpa using h' oid po hlookup
  · intro hp oid' po' hlookup'
    by_cases heq : po' = po
    · rwa [heq, Function.update_self]
    · rw [Function.update_of_ne heq]
      exact h oid' po' hlookup'

theorem eachOrder_release (h : oms.EachOrder P) (hpart : oms.book.Partitioned)
    (hslot : oms'.slot = Function.update oms.slot po p)
    (hbook : oms'.book = oms.book.release oid po)
    (hlookup : oms.orders.lookup oid = some po) : oms'.EachOrder P := by
  have horders := orders_of_book hbook
  intro oid' po' hlookup'
  rw [horders] at hlookup'
  obtain ⟨hoid, hheld⟩ := OrderBook.lookup_release hlookup'
  have hne : po' ≠ po := by
    rintro rfl
    exact hoid (hpart.key_unique hheld hlookup)
  rw [hslot, Function.update_of_ne hne]
  exact h oid' po' hheld

theorem eachOrder_place {rest : List (Fin poolSize)}
    (hslot : oms'.slot = Function.update oms.slot po p)
    (hbook : oms'.book = (oms.book.take rest).issue.store oid po) (h : oms.EachOrder P)
    (hp : P p) : oms'.EachOrder P := by
  have horders := orders_of_book hbook
  intro oid' po' hlookup'
  rw [hslot]
  by_cases hpo : po' = po
  · rwa [hpo, Function.update_self]
  · rw [Function.update_of_ne hpo]
    rw [horders] at hlookup'
    obtain ⟨-, heq⟩ | ⟨-, hlookup⟩ := OrderBook.lookup_store hlookup'
    · exact absurd heq hpo
    · exact h oid' po' hlookup

end EachOrder

structure Governed (oms : OrderManagementSystem poolSize) : Prop where
  agree : oms.EachOrder PooledOrder.Agrees
  legal : ∀ effect ∈ oms.trace, effect.Legal

structure WellFormed (oms : OrderManagementSystem poolSize) : Prop where
  partitioned : oms.book.Partitioned
  unfinished : oms.EachOrder PooledOrder.Unfinished

/-- The order that an exchange id is taken for may go to `REJECTED`. -/
def Rejectable (oms : OrderManagementSystem poolSize) (exchangeOid : Str) : Prop :=
  ∀ po, oms.orders.lookup (oms.rejectTarget exchangeOid) = some po →
    isLegal (oms.slot po).sm.current .rejected = true

/-- The call finds its order in a status that it is meant for. -/
def Orderly (oms : OrderManagementSystem poolSize) : OmsCall → Prop
  | .onOrderAck _ internalOid => ∀ po, oms.orders.lookup internalOid = some po →
      isLegal (oms.slot po).sm.current .opened = true ∨ (oms.slot po).sm.current = .opened
  | .onFill report _ => oms.Admits report →
      ∀ oid po, oms.lookupFill report.exchangeOid = some (oid, po) → (oms.slot po).Fillable
  | .onReject exchangeOid _ => oms.Rejectable exchangeOid
  | .placementFailed oid _ =>
      oms.Rejectable [] ∧ (oms.orders.lookup oid = none ∨ oms.rejectTarget [] = oid)
  | _ => True

theorem unfinished_moveTo_opened {p : PooledOrder} (h : p.Unfinished) :
    (p.moveTo .opened).Unfinished := by
  change ((p.sm.transition .opened).2).isTerminal = false
  by_cases hlegal : isLegal p.sm.current .opened = true
  · rw [transition_of_legal hlegal]
    rfl
  · rw [transition_of_illegal hlegal]
    exact h

section Ack

variable {exchangeOid internalOid : Str}

theorem wellFormed_onOrderAck (h : oms.WellFormed) :
    (oms.onOrderAck exchangeOid internalOid).WellFormed := by
  refine ⟨partitioned_onOrderAck h.partitioned _ _, ?_⟩
  cases hlookup : oms.orders.lookup internalOid with
  | none =>
      rw [onOrderAck_of_none oms hlookup]
      exact h.unfinished
  | some po =>
      exact (eachOrder_update_iff h.unfinished (slot_onOrderAck oms hlookup)
        (book_onOrderAck oms _ _) hlookup).mpr
          (unfinished_moveTo_opened (h.unfinished _ po hlookup))

theorem governed_onOrderAck_iff (h : oms.Governed) :
    (oms.onOrderAck exchangeOid internalOid).Governed ↔
      oms.Orderly (.onOrderAck exchangeOid internalOid) := by
  cases hlookup : oms.orders.lookup internalOid with
  | none =>
      rw [onOrderAck_of_none oms hlookup]
      exact ⟨fun _ po hpo => by simp [hlookup] at hpo, fun _ => h⟩
  | some po =>
      have hagree := eachOrder_update_iff h.agree (slot_onOrderAck oms hlookup)
        (book_onOrderAck oms exchangeOid _) hlookup
      rw [PooledOrder.agrees_moveTo_iff] at hagree
      constructor
      · rintro hnext po' hpo'
        cases hlookup.symm.trans hpo'
        exact hagree.mp hnext.agree
      · intro horderly
        refine ⟨hagree.mpr (horderly po hlookup), ?_⟩
        rw [trace_onOrderAck oms hlookup, List.forall_mem_cons]
        exact ⟨transition_edge _ _, h.legal⟩

end Ack

section Fill

variable (report : FillReport) (nowNs : Nat)

theorem eachOrder_deliverFill_iff {P : PooledOrder → Prop} (h : oms.EachOrder P)
    (hpart : oms.book.Partitioned) {internalOid : Str} {po : Fin poolSize}
    (hfound : oms.lookupFill report.exchangeOid = some (internalOid, po)) :
    (oms.deliverFill report nowNs).EachOrder P ↔
      (((oms.slot po).applyFill
          ((oms.slot po).order.buildFill internalOid report nowNs)).Unfinished →
        P ((oms.slot po).applyFill
          ((oms.slot po).order.buildFill internalOid report nowNs))) := by
  obtain ⟨-, hlookup⟩ := (lookupFill_eq_some oms).mp hfound
  rw [deliverFill_of_some oms nowNs hfound]
  generalize (oms.slot po).order.buildFill internalOid report nowNs = fill
  have hslot := slot_applyFill oms report.exchangeOid internalOid po fill
  have hbook := book_applyFill oms report.exchangeOid internalOid po fill
  by_cases hlive : ((oms.slot po).applyFill fill).Unfinished
  · rw [if_neg (by rw [show _ = false from hlive]; decide)] at hbook
    rw [imp_iff_right hlive]
    exact eachOrder_update_iff h hslot hbook hlookup
  · rw [if_pos (by simpa [PooledOrder.Unfinished] using hlive)] at hbook
    exact ⟨fun _ hlive' => absurd hlive' hlive,
      fun _ => eachOrder_release h hpart hslot hbook hlookup⟩

theorem wellFormed_deliverFill (h : oms.WellFormed) :
    (oms.deliverFill report nowNs).WellFormed := by
  refine ⟨keptByRelease_partitioned.deliverFill h.partitioned report nowNs, ?_⟩
  cases hfound : oms.lookupFill report.exchangeOid with
  | none =>
      rw [deliverFill_of_none oms nowNs hfound]
      exact h.unfinished
  | some found =>
      exact (eachOrder_deliverFill_iff report nowNs h.unfinished h.partitioned hfound).mpr id

theorem wellFormed_onFill (h : oms.WellFormed) : (oms.onFill report nowNs).WellFormed := by
  by_cases hadmits : oms.Admits report
  · rw [onFill_of_admits oms nowNs hadmits]
    have hmarked : WellFormed { oms with dedup := oms.markedDedup report } :=
      ⟨h.partitioned, h.unfinished⟩
    exact wellFormed_deliverFill report nowNs hmarked
  · rw [onFill_of_not_admits oms nowNs hadmits]
    exact ⟨h.partitioned, h.unfinished⟩

private theorem legal_deliverFill (h : oms.Governed) {internalOid : Str} {po : Fin poolSize}
    (hfound : oms.lookupFill report.exchangeOid = some (internalOid, po)) :
    ∀ effect ∈ (oms.deliverFill report nowNs).trace, effect.Legal := by
  rw [deliverFill_of_some oms nowNs hfound, trace_record, trace_pushFill, trace_applyFill]
  simp only [List.forall_mem_cons, List.forall_mem_append]
  refine ⟨trivial, trivial, ?_, transition_edge _ _, trivial, h.legal⟩
  split
  · rename_i hterminal
    exact List.forall_mem_singleton.mpr hterminal
  · simp

theorem governed_deliverFill_iff (h : oms.Governed) (hwf : oms.WellFormed) :
    (oms.deliverFill report nowNs).Governed ↔
      ∀ oid po, oms.lookupFill report.exchangeOid = some (oid, po) →
        (oms.slot po).Fillable := by
  cases hfound : oms.lookupFill report.exchangeOid with
  | none =>
      rw [deliverFill_of_none oms nowNs hfound]
      exact ⟨fun _ oid po hpo => by simp at hpo, fun _ => h⟩
  | some found =>
      obtain ⟨internalOid, po⟩ := found
      obtain ⟨-, hlookup⟩ := (lookupFill_eq_some oms).mp hfound
      have hlive := hwf.unfinished internalOid po hlookup
      have hagree := eachOrder_deliverFill_iff report nowNs h.agree hwf.partitioned hfound
      rw [PooledOrder.agrees_applyFill_iff hlive] at hagree
      constructor
      · rintro hnext oid po' heq
        cases heq
        by_contra hnot
        refine hnot (hagree.mp hnext.agree ?_)
        by_contra hdone
        exact hnot (PooledOrder.fillable_of_finished hlive hdone)
      · intro hfillable
        exact ⟨hagree.mpr fun _ => hfillable internalOid po rfl,
          legal_deliverFill report nowNs h hfound⟩

theorem governed_onFill_iff (h : oms.Governed) (hwf : oms.WellFormed) :
    (oms.onFill report nowNs).Governed ↔ oms.Orderly (.onFill report nowNs) := by
  by_cases hadmits : oms.Admits report
  · rw [onFill_of_admits oms nowNs hadmits]
    have hmarked : Governed { oms with dedup := oms.markedDedup report } := ⟨h.agree, h.legal⟩
    have hmarkedWf : WellFormed { oms with dedup := oms.markedDedup report } :=
      ⟨hwf.partitioned, hwf.unfinished⟩
    refine (governed_deliverFill_iff report nowNs hmarked hmarkedWf).trans ?_
    exact (imp_iff_right hadmits).symm
  · rw [onFill_of_not_admits oms nowNs hadmits]
    exact ⟨fun _ hadmits' => absurd hadmits' hadmits, fun _ => ⟨h.agree, h.legal⟩⟩

end Fill

section Reject

variable (exchangeOid reason oid : Str)

theorem eachOrder_onReject {P : PooledOrder → Prop} (h : oms.EachOrder P)
    (hpart : oms.book.Partitioned) : (oms.onReject exchangeOid reason).EachOrder P := by
  cases hlookup : oms.orders.lookup (oms.rejectTarget exchangeOid) with
  | none =>
      rw [onReject_of_none oms reason hlookup]
      exact h
  | some po =>
      rw [onReject_of_some oms reason hlookup]
      exact eachOrder_release h hpart rfl rfl hlookup

theorem wellFormed_onReject (h : oms.WellFormed) :
    (oms.onReject exchangeOid reason).WellFormed :=
  ⟨keptByRelease_partitioned.onReject h.partitioned _ _,
    eachOrder_onReject exchangeOid reason h.unfinished h.partitioned⟩

theorem governed_onReject_iff (h : oms.Governed) (hwf : oms.WellFormed) :
    (oms.onReject exchangeOid reason).Governed ↔ oms.Rejectable exchangeOid := by
  have hagree := eachOrder_onReject exchangeOid reason h.agree hwf.partitioned
  cases hlookup : oms.orders.lookup (oms.rejectTarget exchangeOid) with
  | none =>
      refine ⟨fun _ po hpo => by simp [hlookup] at hpo, fun _ => ⟨hagree, ?_⟩⟩
      rw [onReject_of_none oms reason hlookup, trace_record, List.forall_mem_cons]
      exact ⟨trivial, h.legal⟩
  | some po =>
      have hlegal : (∀ effect ∈ (oms.onReject exchangeOid reason).trace, effect.Legal) ↔
          ((oms.slot po).sm.transition .rejected).2.isTerminal = true := by
        rw [onReject_of_some oms reason hlookup]
        simp only [trace_record, trace_forgetExchange, trace_releaseOrder, slot_transition,
          Function.update_self, trace_transition, List.forall_mem_cons]
        exact ⟨fun hall => hall.2.1, fun hdone => ⟨trivial, hdone, transition_edge _ _, h.legal⟩⟩
      have hterminal : ((oms.slot po).sm.transition .rejected).2.isTerminal = true ↔
          isLegal (oms.slot po).sm.current .rejected = true := by
        by_cases hedge : isLegal (oms.slot po).sm.current .rejected = true
        · rw [transition_of_legal hedge, hedge]
          rfl
        · rw [transition_of_illegal hedge, hwf.unfinished _ po hlookup]
          simp [hedge]
      constructor
      · rintro hnext po' hpo'
        cases hlookup.symm.trans hpo'
        exact hterminal.mp (hlegal.mp hnext.legal)
      · intro hreject
        exact ⟨hagree, hlegal.mpr (hterminal.mpr (hreject po hlookup))⟩

theorem wellFormed_dropOrder (h : oms.WellFormed) : (oms.dropOrder oid).WellFormed := by
  refine ⟨keptByRelease_partitioned.dropOrder h.partitioned oid, ?_⟩
  cases hlookup : oms.orders.lookup oid with
  | none =>
      rw [dropOrder_of_none oms hlookup]
      exact h.unfinished
  | some po =>
      rw [dropOrder_of_some oms hlookup]
      exact eachOrder_release (p := oms.slot po) h.unfinished h.partitioned
        (Function.update_eq_self po oms.slot).symm rfl hlookup

theorem governed_dropOrder_iff (hwf : oms.WellFormed) :
    (oms.dropOrder oid).Governed ↔ oms.Governed ∧ oms.orders.lookup oid = none := by
  cases hlookup : oms.orders.lookup oid with
  | none => simp [dropOrder_of_none oms hlookup]
  | some po =>
      have hlive := hwf.unfinished oid po hlookup
      rw [dropOrder_of_some oms hlookup]
      constructor
      · intro hnext
        have hdone : (oms.slot po).sm.isTerminal = true := hnext.legal _ (List.mem_cons_self ..)
        exact absurd (hlive.symm.trans hdone) (by decide)
      · rintro ⟨-, hnone⟩
        simp at hnone

theorem lookup_onReject_eq_none :
    (oms.onReject exchangeOid reason).orders.lookup oid = none ↔
      oms.orders.lookup oid = none ∨ oms.rejectTarget exchangeOid = oid := by
  cases hlookup : oms.orders.lookup (oms.rejectTarget exchangeOid) with
  | none =>
      rw [onReject_of_none oms reason hlookup]
      refine ⟨.inl, ?_⟩
      rintro (hnone | rfl)
      · exact hnone
      · exact hlookup
  | some po =>
      rw [onReject_of_some oms reason hlookup]
      change (oms.orders.erase (oms.rejectTarget exchangeOid)).lookup oid = none ↔ _
      by_cases heq : oid = oms.rejectTarget exchangeOid
      · rw [heq, AList.lookup_erase]
        simp
      · rw [AList.lookup_erase_ne heq]
        simp [Ne.symm heq]

theorem wellFormed_placementFailed (h : oms.WellFormed) :
    (oms.placementFailed oid reason).WellFormed :=
  wellFormed_dropOrder oid (wellFormed_onReject [] reason h)

theorem governed_placementFailed_iff (h : oms.Governed) (hwf : oms.WellFormed) :
    (oms.placementFailed oid reason).Governed ↔ oms.Orderly (.placementFailed oid reason) := by
  rw [placementFailed, governed_dropOrder_iff oid (wellFormed_onReject [] reason hwf),
    governed_onReject_iff [] reason h hwf, lookup_onReject_eq_none]
  rfl

end Reject

section Submit

variable (po : Fin poolSize) (rest : List (Fin poolSize)) (req : OrderRequest)
  (tsMs placedNs fillNs : Nat)

theorem wellFormed_placed (h : oms.WellFormed) (hfree : oms.pool.freeList = po :: rest) :
    (oms.placed po rest req tsMs placedNs).WellFormed :=
  ⟨OrderBook.partitioned_place h.partitioned hfree tsMs,
    eachOrder_place (slot_placed oms po rest req tsMs placedNs) rfl h.unfinished rfl⟩

theorem governed_placed (h : oms.Governed) : (oms.placed po rest req tsMs placedNs).Governed :=
  ⟨eachOrder_place (slot_placed oms po rest req tsMs placedNs) rfl h.agree rfl, h.legal⟩

theorem governed_paper (h : oms.Governed) (hwf : oms.WellFormed)
    (hfree : oms.pool.freeList = po :: rest) :
    (((oms.placed po rest req tsMs placedNs).onOrderAck (paperOid (orderId tsMs oms.seq))
      (orderId tsMs oms.seq)).onFill (paperReport req (orderId tsMs oms.seq))
        fillNs).Governed := by
  have hlookup := lookup_placed oms po rest req tsMs placedNs
  have hpending : ((oms.placed po rest req tsMs placedNs).slot po).sm.current = .pending := by
    rw [slot_placed, Function.update_self]
    rfl
  have hack : ((oms.placed po rest req tsMs placedNs).onOrderAck
      (paperOid (orderId tsMs oms.seq)) (orderId tsMs oms.seq)).Governed := by
    refine (governed_onOrderAck_iff (governed_placed po rest req tsMs placedNs h)).mpr ?_
    intro po' hpo'
    cases hlookup.symm.trans hpo'
    rw [hpending]
    exact .inl rfl
  refine (governed_onFill_iff _ fillNs hack
    (wellFormed_onOrderAck (wellFormed_placed po rest req tsMs placedNs hwf hfree))).mpr ?_
  intro _ oid po' hfound
  obtain ⟨hoid, hpo'⟩ := (lookupFill_eq_some _).mp hfound
  change oid = resolve _ (paperOid (orderId tsMs oms.seq)) at hoid
  rw [resolve_onOrderAck _ hlookup] at hoid
  rw [hoid] at hpo'
  have horders := orders_of_book (book_onOrderAck (oms.placed po rest req tsMs placedNs)
    (paperOid (orderId tsMs oms.seq)) (orderId tsMs oms.seq))
  rw [horders] at hpo'
  cases hlookup.symm.trans hpo'
  rw [slot_onOrderAck _ hlookup, Function.update_self]
  left
  change ((slot _ po).sm.transition .opened).2.current = .opened
  rw [transition_current, hpending]
  rfl

theorem wellFormed_submit (h : oms.WellFormed) :
    (oms.submit req tsMs placedNs fillNs).2.WellFormed := by
  cases hfree : oms.pool.freeList with
  | nil => rwa [submit_of_nil oms req tsMs placedNs fillNs hfree]
  | cons po rest =>
      have hplaced := wellFormed_placed po rest req tsMs placedNs h hfree
      rw [submit_of_cons oms req tsMs placedNs fillNs hfree]
      dsimp only
      split
      · exact wellFormed_onFill _ _ (wellFormed_onOrderAck hplaced)
      · exact ⟨hplaced.partitioned, hplaced.unfinished⟩

theorem governed_submit (h : oms.Governed) (hwf : oms.WellFormed) :
    (oms.submit req tsMs placedNs fillNs).2.Governed := by
  cases hfree : oms.pool.freeList with
  | nil => rwa [submit_of_nil oms req tsMs placedNs fillNs hfree]
  | cons po rest =>
      have hplaced := governed_placed po rest req tsMs placedNs h
      rw [submit_of_cons oms req tsMs placedNs fillNs hfree]
      split
      · exact governed_paper po rest req tsMs placedNs fillNs h hwf hfree
      · exact ⟨hplaced.agree, List.forall_mem_cons.mpr ⟨trivial, hplaced.legal⟩⟩

end Submit

private theorem governed_record (h : oms.Governed) (exchangeOid : Str) :
    (oms.record (.cancelOrder exchangeOid)).Governed :=
  ⟨h.agree, List.forall_mem_cons.mpr ⟨trivial, h.legal⟩⟩

theorem wellFormed_step (h : oms.WellFormed) (call : OmsCall) : (oms.step call).WellFormed := by
  cases call with
  | submit req tsMs placedNs fillNs => exact wellFormed_submit req tsMs placedNs fillNs h
  | onOrderAck exchangeOid internalOid => exact wellFormed_onOrderAck h
  | onFill report nowNs => exact wellFormed_onFill report nowNs h
  | onReject exchangeOid reason => exact wellFormed_onReject exchangeOid reason h
  | placementFailed oid reason => exact wellFormed_placementFailed reason oid h
  | cancel oid =>
      obtain heq | ⟨exchangeOid, heq⟩ := oms.cancel_eq oid
      · rwa [step, heq]
      · rw [step, heq]
        exact ⟨h.partitioned, h.unfinished⟩
  | cancelAllOpen =>
      exact cancelAllOpen_induction oms (P := WellFormed)
        (fun _ _ hnext => ⟨hnext.partitioned, hnext.unfinished⟩) h
  | resetForEod => exact ⟨h.partitioned, h.unfinished⟩

/-- One call keeps the records governed exactly when it is orderly. -/
theorem governed_step_iff (h : oms.Governed) (hwf : oms.WellFormed) (call : OmsCall) :
    (oms.step call).Governed ↔ oms.Orderly call := by
  cases call with
  | submit req tsMs placedNs fillNs =>
      exact iff_of_true (governed_submit req tsMs placedNs fillNs h hwf) trivial
  | onOrderAck exchangeOid internalOid => exact governed_onOrderAck_iff h
  | onFill report nowNs => exact governed_onFill_iff report nowNs h hwf
  | onReject exchangeOid reason => exact governed_onReject_iff exchangeOid reason h hwf
  | placementFailed oid reason => exact governed_placementFailed_iff reason oid h hwf
  | cancel oid =>
      refine iff_of_true ?_ trivial
      obtain heq | ⟨exchangeOid, heq⟩ := oms.cancel_eq oid
      · rwa [step, heq]
      · rw [step, heq]
        exact governed_record h exchangeOid
  | cancelAllOpen =>
      exact iff_of_true (cancelAllOpen_induction oms (P := Governed)
        (fun _ exchangeOid hnext => governed_record hnext exchangeOid) h) trivial
  | resetForEod => exact iff_of_true ⟨h.agree, h.legal⟩ trivial

theorem wellFormed_init (poolSize : Nat) (paperMode : Bool) :
    (init poolSize paperMode).WellFormed :=
  ⟨partitioned_init poolSize paperMode, fun _ _ hlookup => by simp [init] at hlookup⟩

theorem governed_init (poolSize : Nat) (paperMode : Bool) :
    (init poolSize paperMode).Governed :=
  ⟨fun _ _ hlookup => by simp [init] at hlookup, fun _ hmem => by simp [init] at hmem⟩

/-- The state machine governs the records in every state of a run exactly when every
call of the run is orderly. -/
theorem governed_iff_orderly (paperMode : Bool) (calls : List OmsCall) :
    (∀ k, (Run.run step (init poolSize paperMode) (calls.take k)).Governed) ↔
      Run.Along step Orderly (init poolSize paperMode) calls := by
  rw [← Run.always_iff_take]
  refine Run.always_iff_along WellFormed (fun _ _ => True) (fun _ call hwf _ _ =>
    wellFormed_step hwf call) (fun _ call hwf h _ => governed_step_iff h hwf call) ?_
    (wellFormed_init poolSize paperMode) (governed_init poolSize paperMode)
  exact Run.along_of_forall step (fun _ => True) (fun _ _ _ => trivial) _ fun _ _ => trivial

/-- A second acknowledgement after a partial fill writes `OPEN` over `PARTIAL`. -/
theorem duplicate_ack_rewrites_status :
    let oid := orderId 0 0
    let oms := Run.run step (init 1 false) [
      .submit { instrumentToken := 1, quantity := 10, limitPrice := 100 } 0 0 0,
      .onOrderAck ['E'] oid,
      .onFill { exchangeOid := ['E'], price := 100, quantity := 4, tradeId := ['T'] } 0,
      .onOrderAck ['E'] oid]
    oms.orders.lookup oid = some 0 ∧ (oms.slot 0).order.status = .opened ∧
      (oms.slot 0).sm.current = .partlyFilled ∧ ¬oms.Governed := by
  intro oid oms
  have hlookup : oms.orders.lookup oid = some 0 := by decide +kernel
  have hstatus : (oms.slot 0).order.status = .opened := by decide +kernel
  have hsm : (oms.slot 0).sm.current = .partlyFilled := by decide +kernel
  refine ⟨hlookup, hstatus, hsm, fun hgoverned => ?_⟩
  have hagree := hgoverned.agree oid 0 hlookup
  rw [PooledOrder.Agrees, hstatus, hsm] at hagree
  exact absurd hagree (by decide)

end OrderManagementSystem

end QuantForge
