import QuantForge.Oms.Sections

/-! A fill that arrives before the acknowledgement of its order. `on_fill` marks the
trade id first and looks for the order second, so the redelivery of a fill that was
discarded for want of its order is taken for a duplicate. -/
namespace QuantForge

open Library

namespace OrderManagementSystem

variable {poolSize : Nat} (oms : OrderManagementSystem poolSize)

/-- Returning without a credit leaves the processed trade ids as they were. -/
def DiscardKeepsTradeIds (report : FillReport) (nowNs : Nat) : Prop :=
  (oms.onFill report nowNs).credits = oms.credits →
    (oms.onFill report nowNs).dedup.processed = oms.dedup.processed

def outcome (po : Fin poolSize) : Int × OrderStatus × Dict Str (Fin poolSize) × List Fill :=
  ((oms.slot po).order.filledQty, (oms.slot po).order.status, oms.orders, oms.pushes)

/-- A fill that comes before the acknowledgement and again after it has the outcome of
the fill that comes once, after it. -/
def RedeliveryHarmless (report : FillReport) (oid : Str) (po : Fin poolSize)
    (firstNs nowNs : Nat) : Prop :=
  oms.lookupFill report.exchangeOid = none →
    (((oms.onFill report firstNs).onOrderAck report.exchangeOid oid).onFill report
      nowNs).outcome po =
    ((oms.onOrderAck report.exchangeOid oid).onFill report nowNs).outcome po

def TradeIdSafe (report : FillReport) : Prop :=
  report.tradeId = [] ∨ report.tradeId ∈ oms.dedup.processed ∨
    (oms.lookupFill report.exchangeOid).isSome

section Ack

variable (d : FillDeduplicator) (exchangeOid internalOid : Str)

theorem onOrderAck_dedup :
    onOrderAck { oms with dedup := d } exchangeOid internalOid =
      { oms.onOrderAck exchangeOid internalOid with dedup := d } := by
  cases hlookup : oms.orders.lookup internalOid with
  | none =>
      rw [onOrderAck_of_none oms hlookup]
      exact onOrderAck_of_none { oms with dedup := d } hlookup
  | some po =>
      rw [onOrderAck_of_some oms hlookup]
      exact onOrderAck_of_some { oms with dedup := d } hlookup

end Ack

section Discard

variable {report : FillReport} (nowNs : Nat)

theorem outcome_of_not_admits (h : ¬oms.Admits report) (po : Fin poolSize) :
    (oms.onFill report nowNs).outcome po = oms.outcome po := by
  rw [onFill_of_not_admits oms nowNs h]
  rfl

theorem discardKeepsTradeIds_iff :
    oms.DiscardKeepsTradeIds report nowNs ↔ oms.TradeIdSafe report := by
  unfold DiscardKeepsTradeIds TradeIdSafe
  by_cases hadmits : oms.Admits report
  · rw [onFill_of_admits oms nowNs hadmits, dedup_deliverFill]
    cases hfound : oms.lookupFill report.exchangeOid with
    | some found =>
        have hmarked : lookupFill { oms with dedup := oms.markedDedup report }
            report.exchangeOid = some found := hfound
        have hcredits := credits_deliverFill _ nowNs hmarked
        refine iff_of_true (fun heq => ?_) (by simp)
        have hlength := congrArg List.length (hcredits.symm.trans heq)
        exact absurd hlength (Nat.succ_ne_self _)
    | none =>
        rw [deliverFill_of_none _ nowNs (by exact hfound)]
        obtain hempty | hnew := hadmits
        · simp [markedDedup, hempty]
        · by_cases hempty : report.tradeId = []
          · simp [markedDedup, hempty]
          · simp [markedDedup, hempty, hnew, credits]
  · rw [onFill_of_not_admits oms nowNs hadmits]
    obtain ⟨-, hmem⟩ := not_or.mp hadmits
    exact iff_of_true (fun _ => rfl) (.inr (.inl (not_not.mp hmem)))

theorem pushes_length_onFill_of_credited (h : oms.Admits report)
    (hfound : (oms.lookupFill report.exchangeOid).isSome) :
    (oms.onFill report nowNs).pushes.length = oms.pushes.length + 1 := by
  obtain ⟨found, hfound⟩ := Option.isSome_iff_exists.mp hfound
  have hmarked : lookupFill { oms with dedup := oms.markedDedup report } report.exchangeOid =
      some found := hfound
  rw [onFill_of_admits oms nowNs h, pushes_deliverFill _ nowNs hmarked]
  rfl

end Discard

theorem redeliveryHarmless_iff (report : FillReport) {oid : Str} {po : Fin poolSize}
    (hlookup : oms.orders.lookup oid = some po) (firstNs nowNs : Nat) :
    oms.RedeliveryHarmless report oid po firstNs nowNs ↔ oms.TradeIdSafe report := by
  unfold RedeliveryHarmless
  have hacked := lookupFill_onOrderAck oms report.exchangeOid hlookup
  have hdedup := dedup_onOrderAck oms report.exchangeOid oid
  by_cases hadmits : oms.Admits report
  · cases hfound : oms.lookupFill report.exchangeOid with
    | some found => simp [TradeIdSafe, hfound]
    | none =>
        rw [onFill_of_admits oms firstNs hadmits, deliverFill_of_none _ firstNs (by exact hfound),
          onOrderAck_dedup]
        by_cases hempty : report.tradeId = []
        · have hmarked : oms.markedDedup report =
              (oms.onOrderAck report.exchangeOid oid).dedup := by
            rw [markedDedup, if_pos hempty, hdedup]
          rw [hmarked]
          simp [TradeIdSafe, hempty]
        · have hnew := hadmits.resolve_left hempty
          have hnext : (oms.onOrderAck report.exchangeOid oid).Admits report := by
            rw [Admits, hdedup]
            exact hadmits
          refine iff_of_false (fun hsame => ?_) (by simp [TradeIdSafe, hempty, hnew, hfound])
          have hburned : ¬Admits { oms.onOrderAck report.exchangeOid oid with
              dedup := oms.markedDedup report } report := by
            simp [Admits, markedDedup, hempty]
          have hpushes := congrArg (fun result => result.2.2.2.length) (hsame rfl)
          rw [outcome_of_not_admits _ nowNs hburned] at hpushes
          refine absurd hpushes ?_
          change (oms.onOrderAck report.exchangeOid oid).pushes.length ≠
            ((oms.onOrderAck report.exchangeOid oid).onFill report nowNs).pushes.length
          rw [pushes_length_onFill_of_credited _ nowNs hnext (by simp [hacked])]
          exact (Nat.succ_ne_self _).symm
  · have hseen : ¬(oms.onOrderAck report.exchangeOid oid).Admits report := by
      rwa [Admits, hdedup]
    obtain ⟨-, hmem⟩ := not_or.mp hadmits
    refine iff_of_true (fun _ => ?_) (.inr (.inl (not_not.mp hmem)))
    rw [outcome_of_not_admits _ nowNs hseen, onFill_of_not_admits oms firstNs hadmits,
      onOrderAck_dedup, outcome_of_not_admits]
    · rfl
    · exact hadmits

/-- A discarded fill leaves its trade id usable exactly when the id was not new or the
order is found. -/
theorem discarded_fill_keeps_trade_id_iff (report : FillReport) (firstNs nowNs : Nat) :
    (oms.DiscardKeepsTradeIds report firstNs ↔ oms.TradeIdSafe report) ∧
    ∀ oid po, oms.orders.lookup oid = some po →
      (oms.RedeliveryHarmless report oid po firstNs nowNs ↔ oms.TradeIdSafe report) :=
  ⟨discardKeepsTradeIds_iff oms firstNs, fun _ _ hlookup =>
    redeliveryHarmless_iff oms report hlookup firstNs nowNs⟩

theorem discarded_fill_keeps_trade_id_waiting :
    let oms := (init 1 false).step (.submit { instrumentToken := 1, quantity := 10 } 0 0 0)
    let report := { exchangeOid := ['E'], price := 100, quantity := 4, tradeId := ['T'] }
    oms.RedeliveryHarmless report (orderId 0 0) 0 0 0 ↔ oms.TradeIdSafe report :=
  (discarded_fill_keeps_trade_id_iff _ _ 0 0).2 _ _ (by decide +kernel)

/-- The fill of four comes before the acknowledgement and again after it: nothing is
credited, while one delivery after the acknowledgement credits four. -/
theorem redelivered_fill_is_dropped :
    let oid := orderId 0 0
    let oms := (init 1 false).step (.submit { instrumentToken := 1, quantity := 10 } 0 0 0)
    let report := { exchangeOid := ['E'], price := 100, quantity := 4, tradeId := ['T'] }
    oms.orders.lookup oid = some 0 ∧ oms.lookupFill ['E'] = none ∧
      ((((oms.onFill report 0).onOrderAck ['E'] oid).onFill report 0).slot 0).order.filledQty = 0 ∧
      (((oms.onOrderAck ['E'] oid).onFill report 0).slot 0).order.filledQty = 4 ∧
      ¬oms.RedeliveryHarmless report oid 0 0 0 ∧ ¬oms.DiscardKeepsTradeIds report 0 := by
  intro oid oms report
  have hlookup : oms.orders.lookup oid = some 0 := by decide +kernel
  have hfound : oms.lookupFill ['E'] = none := by decide +kernel
  have hlate : ((((oms.onFill report 0).onOrderAck ['E'] oid).onFill report 0).slot
      0).order.filledQty = 0 := by decide +kernel
  have honce : (((oms.onOrderAck ['E'] oid).onFill report 0).slot 0).order.filledQty = 4 := by
    decide +kernel
  refine ⟨hlookup, hfound, hlate, honce, fun hharmless => ?_, fun hkeeps => ?_⟩
  · have hqty := congrArg Prod.fst (hharmless hfound)
    exact absurd (hlate.symm.trans (hqty.trans honce)) (by decide)
  · have hprocessed := hkeeps (by decide +kernel)
    exact absurd hprocessed (by decide +kernel)

end OrderManagementSystem

end QuantForge
