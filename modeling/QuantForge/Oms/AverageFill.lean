import Mathlib.Tactic.FieldSimp
import Mathlib.Tactic.Linarith
import Mathlib.Tactic.Ring
import QuantForge.Oms.Fill32

/-! `filled_qty` and `avg_fill_price` of an order against the fills that were credited to it.
The quantities are added up at 32 bits; the price is that of the last fill. -/
namespace QuantForge

open Library

def filledQuantity (fills : List Fill) : Int := (fills.map Fill.quantity).sum

def filledValue (fills : List Fill) : ℚ :=
  (fills.map fun fill => fill.price * (fill.quantity : ℚ)).sum

def weightedPrice (fills : List Fill) : ℚ := filledValue fills / filledQuantity fills

/-- The last fill was at the weighted price of those before it. -/
def AtEarlierAverage (earlier : List Fill) (fill : Fill) : Prop :=
  fill.price * filledQuantity earlier = filledValue earlier

theorem filledQuantity_pos {fills : List Fill} (hne : fills ≠ [])
    (hpos : ∀ fill ∈ fills, 0 < fill.quantity) : 0 < filledQuantity fills := by
  induction fills with
  | nil => exact absurd rfl hne
  | cons fill fills ih =>
      have hfill := hpos fill List.mem_cons_self
      rw [filledQuantity, List.map_cons, List.sum_cons]
      cases fills with
      | nil => simpa using hfill
      | cons next fills =>
          exact add_pos hfill (ih (List.cons_ne_nil _ _) fun fill hmem =>
            hpos fill (List.mem_cons_of_mem _ hmem))

theorem filledQuantity_concat (fills : List Fill) (fill : Fill) :
    filledQuantity (fills ++ [fill]) = filledQuantity fills + fill.quantity := by
  simp [filledQuantity]

theorem filledValue_concat (fills : List Fill) (fill : Fill) :
    filledValue (fills ++ [fill]) = filledValue fills + fill.price * fill.quantity := by
  simp [filledValue]

theorem price_eq_weightedPrice_iff {earlier : List Fill} {fill : Fill}
    (hpos : ∀ f ∈ earlier ++ [fill], 0 < f.quantity) :
    fill.price = weightedPrice (earlier ++ [fill]) ↔ AtEarlierAverage earlier fill := by
  have hquantity := filledQuantity_pos (by simp) hpos
  have hne : (filledQuantity (earlier ++ [fill]) : ℚ) ≠ 0 := Int.cast_ne_zero.mpr hquantity.ne'
  rw [weightedPrice, eq_div_iff hne, filledQuantity_concat, filledValue_concat, AtEarlierAverage]
  push_cast
  constructor
  · intro h
    linarith
  · intro h
    linarith

/-- The record adds up the quantities of the fills and keeps the price of the last. -/
structure PooledOrder.Reflects (p : PooledOrder) (fills : List Fill) : Prop where
  filled : p.order.filledQty = wrap32 (filledQuantity fills)
  price : p.order.avgFillPrice = (fills.getLast?.map Fill.price).getD 0

theorem PooledOrder.Reflects.moveTo {p : PooledOrder} {fills : List Fill} (h : p.Reflects fills)
    (target : OrderStatus) : (p.moveTo target).Reflects fills :=
  ⟨h.filled, h.price⟩

theorem PooledOrder.Reflects.applyFill {p : PooledOrder} {fills : List Fill}
    (h : p.Reflects fills) (fill : Fill) :
    (p.applyFill { fill with quantity := p.order.added32 fill.quantity }).Reflects
      (fills ++ [fill]) := by
  constructor
  · have hsum : p.order.filledQty + p.order.added32 fill.quantity =
        wrap32 (p.order.filledQty + fill.quantity) := add_sub_cancel _ _
    rw [filledQuantity_concat, ← wrap32_wrap32_add, ← h.filled]
    exact hsum
  · rw [List.getLast?_append, List.getLast?_singleton]
    rfl

theorem PooledOrder.isTerminal_applyFill_of_full {p : PooledOrder} {fill : Fill}
    (hopen : p.sm.current = .opened)
    (hfull : p.order.quantity ≤ p.order.filledQty + fill.quantity) :
    (p.applyFill fill).sm.isTerminal = true := by
  have htarget : (p.order.credit fill).fillTarget = .complete := if_pos hfull
  have hlegal : OrderStateMachine.isLegal p.sm.current .complete = true := by
    rw [hopen]
    rfl
  change ((p.sm.transition (p.order.credit fill).fillTarget).2).isTerminal = true
  rw [htarget, OrderStateMachine.transition_of_legal hlegal]
  rfl

namespace OrderManagementSystem

variable {poolSize : Nat}

def creditTo (oid : Str) (oms : OrderManagementSystem poolSize) : OmsCall → Option Fill
  | .onFill report nowNs =>
      if oms.Admits report ∧ oms.resolve report.exchangeOid = oid then
        (oms.recordOf oid).map fun p => p.order.buildFill oid report nowNs
      else none
  | .submit req tsMs placedNs fillNs =>
      if oms.paperMode = true ∧ oms.pool.freeList ≠ [] ∧ orderId tsMs oms.seq = oid ∧
          oms.Admits (paperReport req oid) then
        some ((oms.newRecord req tsMs placedNs).order.buildFill oid (paperReport req oid) fillNs)
      else none
  | _ => none

/-- The fills that a run from the start credits to the order, oldest first. -/
abbrev fillsOf (poolSize : Nat) (paperMode : Bool) (oid : Str) (calls : List OmsCall) :
    List Fill :=
  Run.settings step32 (creditTo oid) (init poolSize paperMode) calls

structure Ledgered (oms : OrderManagementSystem poolSize) (oid : Str) (fills : List Fill) :
    Prop where
  wellFormed : oms.WellFormed
  record : ∀ p, oms.recordOf oid = some p → p.Reflects fills
  unissued : ¬oms.book.Issued oid → fills = []

variable {oms : OrderManagementSystem poolSize} {oid : Str} {fills : List Fill}

theorem creditTo_onFill (oid : Str) (oms : OrderManagementSystem poolSize) (report : FillReport)
    (nowNs : Nat) : oms.creditTo oid (.onFill report nowNs) =
      if oms.Admits report ∧ oms.resolve report.exchangeOid = oid then
        (oms.recordOf oid).map fun p => p.order.buildFill oid report nowNs
      else none := rfl

private theorem Ledgered.of_subrecord (h : oms.Ledgered oid fills)
    {after : OrderManagementSystem poolSize} (hwf : after.WellFormed)
    (hrecord : after.recordOf oid = none ∨ after.recordOf oid = oms.recordOf oid)
    (hseq : oms.seq ≤ after.seq) : after.Ledgered oid fills := by
  refine ⟨hwf, fun p hp => ?_, fun hunissued =>
    h.unissued fun hissued => hunissued (hissued.of_seq_le hseq)⟩
  obtain hnone | hsame := hrecord
  · rw [hnone] at hp
    contradiction
  · exact h.record p (hsame ▸ hp)

private theorem update_none_cases (records : Str → Option PooledOrder) (dropped oid : Str) :
    Function.update records dropped none oid = none ∨
      Function.update records dropped none oid = records oid := by
  by_cases heq : oid = dropped
  · rw [heq, Function.update_self]
    exact Or.inl rfl
  · rw [Function.update_of_ne heq]
    exact Or.inr rfl

private theorem seq_of_issuing {after : OrderManagementSystem poolSize}
    (h : after.issuing = oms.issuing) : oms.seq ≤ after.seq :=
  (congrArg Prod.snd h).ge

private theorem ledgered_onOrderAck (h : oms.Ledgered oid fills) (exchangeOid internalOid : Str) :
    (oms.onOrderAck exchangeOid internalOid).Ledgered oid fills := by
  have hwf : (oms.onOrderAck exchangeOid internalOid).WellFormed :=
    wellFormed_onOrderAck h.wellFormed
  have hseq := seq_of_issuing (oms.issuing_onOrderAck exchangeOid internalOid)
  cases hrecord : oms.recordOf internalOid with
  | none =>
      rw [onOrderAck_of_recordOf_none hrecord]
      exact h
  | some p =>
      have hrecords : (oms.onOrderAck exchangeOid internalOid).recordOf =
          Function.update oms.recordOf internalOid (some (p.moveTo .opened)) :=
        recordOf_onOrderAck h.wellFormed.partitioned hrecord
      by_cases heq : oid = internalOid
      · subst heq
        refine ⟨hwf, fun p' hp' => ?_, fun hunissued => ?_⟩
        · rw [hrecords, Function.update_self] at hp'
          cases hp'
          exact (h.record p hrecord).moveTo .opened
        · rw [book_onOrderAck] at hunissued
          exact h.unissued hunissued
      · refine h.of_subrecord hwf (Or.inr ?_) hseq
        rw [hrecords, Function.update_of_ne heq]

private theorem ledgered_onReject (h : oms.Ledgered oid fills) (exchangeOid reason : Str) :
    (oms.onReject exchangeOid reason).Ledgered oid fills := by
  have hwf := wellFormed_onReject exchangeOid reason h.wellFormed
  have hseq := seq_of_issuing (oms.issuing_onReject exchangeOid reason)
  cases hrecord : oms.recordOf (oms.rejectTarget exchangeOid) with
  | none =>
      refine h.of_subrecord hwf (Or.inr ?_) hseq
      rw [(maps_onReject_of_none reason hrecord).1]
  | some p =>
      refine h.of_subrecord hwf ?_ hseq
      rw [(maps_onReject_of_some reason h.wellFormed.partitioned hrecord).1]
      exact update_none_cases oms.recordOf _ oid

private theorem ledgered_dropOrder (h : oms.Ledgered oid fills) (dropped : Str) :
    (oms.dropOrder dropped).Ledgered oid fills := by
  refine h.of_subrecord (wellFormed_dropOrder dropped h.wellFormed) ?_
    (seq_of_issuing (oms.issuing_dropOrder dropped))
  rw [recordOf_dropOrder h.wellFormed.partitioned]
  exact update_none_cases oms.recordOf dropped oid

private theorem ledgered_onFill32 (h : oms.Ledgered oid fills) (report : FillReport)
    (nowNs : Nat) : (oms.onFill32 report nowNs).Ledgered oid
      (fills ++ (oms.creditTo oid (.onFill report nowNs)).toList) := by
  have hsame := sameOrders_onFill32 oms report nowNs
  have hwf := hsame.wellFormed (wellFormed_onFill (oms.unwrapped report) nowNs h.wellFormed)
  have hseq := seq_of_issuing
    (hsame.issuing_eq.trans (oms.issuing_onFill (oms.unwrapped report) nowNs))
  by_cases hdiscards : oms.Discards report
  · have hcredit : oms.creditTo oid (.onFill report nowNs) = none := by
      rw [creditTo_onFill]
      by_cases hboth : oms.Admits report ∧ oms.resolve report.exchangeOid = oid
      · have hnone := hdiscards.resolve_left (not_not.mpr hboth.1)
        rw [if_pos hboth, ← hboth.2, hnone]
        rfl
      · exact if_neg hboth
    rw [hcredit, Option.toList_none, List.append_nil]
    refine h.of_subrecord hwf (Or.inr ?_) hseq
    rw [hsame.recordOf_eq, (maps_onFill_of_discards (oms.unwrapped report) nowNs hdiscards).1]
  · obtain ⟨hadmits, hheld⟩ := not_or.mp hdiscards
    obtain ⟨p, hrecord⟩ := Option.ne_none_iff_exists'.mp hheld
    have hrecords := hsame.recordOf_eq.trans (recordOf_onFill (oms.unwrapped report) nowNs
      h.wellFormed.partitioned (not_not.mp hadmits) hrecord)
    by_cases heq : oms.resolve report.exchangeOid = oid
    · have hcredit : oms.creditTo oid (.onFill report nowNs) =
          some (p.order.buildFill oid report nowNs) := by
        rw [creditTo_onFill, if_pos ⟨not_not.mp hadmits, heq⟩, ← heq, hrecord]
        rfl
      have hfilled : oms.filledRecord (oms.unwrapped report) nowNs p =
          p.applyFill { p.order.buildFill oid report nowNs with
            quantity := p.order.added32 report.quantity } := by
        rw [filledRecord, unwrapped, hrecord, ← heq]
        rfl
      change _ = Function.update oms.recordOf (oms.resolve report.exchangeOid) _ at hrecords
      rw [heq] at hrecord hrecords
      rw [hcredit]
      refine ⟨hwf, fun p' hp' => ?_, fun hunissued => absurd ?_ hunissued⟩
      · rw [hrecords, Function.update_self] at hp'
        split at hp'
        · contradiction
        · cases hp'
          rw [hfilled]
          exact (h.record p hrecord).applyFill (p.order.buildFill oid report nowNs)
      · exact (issued_of_recordOf h.wellFormed.partitioned hrecord).of_seq_le hseq
    · have hcredit : oms.creditTo oid (.onFill report nowNs) = none :=
        if_neg fun hboth => heq hboth.2
      rw [hcredit, Option.toList_none, List.append_nil]
      refine h.of_subrecord hwf (Or.inr ?_) hseq
      rw [hrecords]
      exact Function.update_of_ne (Ne.symm heq) _ _

section Paper

variable (po : Fin poolSize) (rest : List (Fin poolSize)) (req : OrderRequest)
  (tsMs placedNs fillNs : Nat)

private theorem resolve_paperAcked :
    (oms.paperAcked po rest req tsMs placedNs).resolve (paperOid (orderId tsMs oms.seq)) =
      orderId tsMs oms.seq :=
  resolve_onOrderAck _ (lookup_placed oms po rest req tsMs placedNs)

private theorem recordOf_paperAcked (h : oms.WellFormed) (hfree : oms.pool.freeList = po :: rest) :
    (oms.paperAcked po rest req tsMs placedNs).recordOf =
      Function.update oms.recordOf (orderId tsMs oms.seq)
        (some ((oms.newRecord req tsMs placedNs).moveTo .opened)) := by
  have hplaced : (oms.placed po rest req tsMs placedNs).recordOf = Function.update oms.recordOf
      (orderId tsMs oms.seq) (some (oms.newRecord req tsMs placedNs)) :=
    recordOf_place h.partitioned hfree rfl (slot_placed oms po rest req tsMs placedNs)
  have hnew : (oms.placed po rest req tsMs placedNs).recordOf (orderId tsMs oms.seq) =
      some (oms.newRecord req tsMs placedNs) := by
    rw [hplaced, Function.update_self]
  have hwf := wellFormed_placed po rest req tsMs placedNs h hfree
  rw [paperAcked, recordOf_onOrderAck hwf.partitioned hnew, hplaced, Function.update_idem]

private theorem isTerminal_paper (oms' : OrderManagementSystem poolSize) :
    (oms'.filledRecord (paperReport req (orderId tsMs oms.seq)) fillNs
      ((oms.newRecord req tsMs placedNs).moveTo .opened)).sm.isTerminal = true := by
  apply PooledOrder.isTerminal_applyFill_of_full rfl
  change req.quantity ≤ 0 + req.quantity
  omega

private theorem recordOf_paper (h : oms.WellFormed) (hfree : oms.pool.freeList = po :: rest) :
    ((oms.paperAcked po rest req tsMs placedNs).onFill (paperReport req (orderId tsMs oms.seq))
        fillNs).recordOf =
      Function.update oms.recordOf (orderId tsMs oms.seq)
        (if oms.Admits (paperReport req (orderId tsMs oms.seq)) then none
          else some ((oms.newRecord req tsMs placedNs).moveTo .opened)) := by
  have hacked := recordOf_paperAcked po rest req tsMs placedNs h hfree
  have hadmits : (oms.paperAcked po rest req tsMs placedNs).Admits
      (paperReport req (orderId tsMs oms.seq)) ↔
        oms.Admits (paperReport req (orderId tsMs oms.seq)) := by
    unfold Admits paperAcked
    rw [dedup_onOrderAck]
    rfl
  by_cases hadmit : oms.Admits (paperReport req (orderId tsMs oms.seq))
  · have hresolve : (oms.paperAcked po rest req tsMs placedNs).resolve
        (paperReport req (orderId tsMs oms.seq)).exchangeOid = orderId tsMs oms.seq :=
      resolve_paperAcked po rest req tsMs placedNs
    have hrecord : (oms.paperAcked po rest req tsMs placedNs).recordOf
        ((oms.paperAcked po rest req tsMs placedNs).resolve
          (paperReport req (orderId tsMs oms.seq)).exchangeOid) =
        some ((oms.newRecord req tsMs placedNs).moveTo .opened) := by
      rw [hresolve, hacked, Function.update_self]
    have hwf : (oms.paperAcked po rest req tsMs placedNs).WellFormed :=
      wellFormed_onOrderAck (wellFormed_placed po rest req tsMs placedNs h hfree)
    rw [recordOf_onFill _ fillNs hwf.partitioned (hadmits.mpr hadmit) hrecord, hresolve, hacked,
      if_pos (isTerminal_paper req tsMs placedNs fillNs _), if_pos hadmit, Function.update_idem]
  · rw [(maps_onFill_of_discards _ fillNs (Or.inl (mt hadmits.mp hadmit))).1, hacked,
      if_neg hadmit]

end Paper

private theorem recordOf_submit (h : oms.WellFormed) {po : Fin poolSize}
    {rest : List (Fin poolSize)} (hfree : oms.pool.freeList = po :: rest) {req : OrderRequest}
    {tsMs placedNs fillNs : Nat} :
    (oms.submit req tsMs placedNs fillNs).2.recordOf =
      Function.update oms.recordOf (orderId tsMs oms.seq)
        (if oms.paperMode = true then
          if oms.Admits (paperReport req (orderId tsMs oms.seq)) then none
          else some ((oms.newRecord req tsMs placedNs).moveTo .opened)
        else some (oms.newRecord req tsMs placedNs)) := by
  by_cases hpaper : oms.paperMode = true
  · rw [submit_of_cons oms req tsMs placedNs fillNs hfree, if_pos hpaper, if_pos hpaper]
    exact recordOf_paper po rest req tsMs placedNs fillNs h hfree
  · rw [if_neg hpaper]
    exact (maps_submit h.partitioned (Bool.eq_false_iff.mpr hpaper) hfree req tsMs placedNs
      fillNs).1

private theorem seq_lt_submit {po : Fin poolSize} {rest : List (Fin poolSize)}
    (hfree : oms.pool.freeList = po :: rest) (req : OrderRequest) (tsMs placedNs fillNs : Nat) :
    oms.seq < (oms.submit req tsMs placedNs fillNs).2.seq := by
  rw [submit_of_cons oms req tsMs placedNs fillNs hfree]
  dsimp only
  split
  · have hack : (oms.paperAcked po rest req tsMs placedNs).seq = oms.seq + 1 :=
      congrArg Prod.snd (issuing_onOrderAck _ _)
    have hfill : ((oms.paperAcked po rest req tsMs placedNs).onFill
        (paperReport req (orderId tsMs oms.seq)) fillNs).seq = oms.seq + 1 :=
      (congrArg Prod.snd (issuing_onFill _ fillNs)).trans hack
    exact (Nat.lt_succ_self oms.seq).trans_eq hfill.symm
  · exact Nat.lt_succ_self oms.seq

private theorem reflects_new (req : OrderRequest) (tsMs placedNs : Nat) :
    (oms.newRecord req tsMs placedNs).Reflects [] :=
  ⟨rfl, rfl⟩

private theorem ledgered_submit (h : oms.Ledgered oid fills) (req : OrderRequest)
    (tsMs placedNs fillNs : Nat) :
    (oms.submit req tsMs placedNs fillNs).2.Ledgered oid
      (fills ++ (oms.creditTo oid (.submit req tsMs placedNs fillNs)).toList) := by
  have hwf := wellFormed_submit req tsMs placedNs fillNs h.wellFormed
  cases hfree : oms.pool.freeList with
  | nil =>
      have hcredit : oms.creditTo oid (.submit req tsMs placedNs fillNs) = none :=
        if_neg fun hall => hall.2.1 hfree
      rw [hcredit, Option.toList_none, List.append_nil,
        submit_of_nil oms req tsMs placedNs fillNs hfree]
      exact h
  | cons po rest =>
      have hseq : oms.seq < (oms.submit req tsMs placedNs fillNs).2.seq :=
        seq_lt_submit hfree req tsMs placedNs fillNs
      by_cases heq : oid = orderId tsMs oms.seq
      · -- the id is new, so that no fill was credited under it
        have hfresh : fills = [] := h.unissued (heq ▸ oms.book.not_issued_next tsMs)
        refine ⟨hwf, fun p hp => ?_, fun hunissued => absurd ⟨tsMs, _, hseq, heq⟩ hunissued⟩
        rw [hfresh, List.nil_append]
        rw [recordOf_submit h.wellFormed hfree, heq, Function.update_self] at hp
        split at hp
        · rename_i hpaper
          split at hp
          · contradiction
          · rename_i hseen
            have hcredit : oms.creditTo oid (.submit req tsMs placedNs fillNs) = none :=
              if_neg fun hall => hseen (heq ▸ hall.2.2.2)
            rw [hcredit]
            cases hp
            exact (oms.reflects_new req tsMs placedNs).moveTo .opened
        · rename_i hlive
          have hcredit : oms.creditTo oid (.submit req tsMs placedNs fillNs) = none :=
            if_neg fun hall => hlive hall.1
          rw [hcredit]
          cases hp
          exact oms.reflects_new req tsMs placedNs
      · have hcredit : oms.creditTo oid (.submit req tsMs placedNs fillNs) = none :=
          if_neg fun hall => heq hall.2.2.1.symm
        rw [hcredit, Option.toList_none, List.append_nil]
        refine h.of_subrecord hwf (Or.inr ?_) hseq.le
        rw [recordOf_submit h.wellFormed hfree, Function.update_of_ne heq]

theorem ledgered_step32 (h : oms.Ledgered oid fills) (call : OmsCall) :
    (oms.step32 call).Ledgered oid (fills ++ (oms.creditTo oid call).toList) := by
  have hnil : ∀ {after : OrderManagementSystem poolSize}, after.Ledgered oid fills →
      after.Ledgered oid (fills ++ []) := by
    intro after hafter
    rwa [List.append_nil]
  have hmaps : ∀ {after : OrderManagementSystem poolSize}, after.WellFormed →
      after.recordOf = oms.recordOf → after.issuing = oms.issuing →
        after.Ledgered oid (fills ++ []) := by
    intro after hwf hrecord hissuing
    exact hnil (h.of_subrecord hwf (Or.inr (congrFun hrecord oid)) (seq_of_issuing hissuing))
  have hwf := wellFormed_step h.wellFormed call
  cases call with
  | submit req tsMs placedNs fillNs => exact ledgered_submit h req tsMs placedNs fillNs
  | onOrderAck exchangeOid internalOid =>
      exact hnil (ledgered_onOrderAck h exchangeOid internalOid)
  | onFill report nowNs => exact ledgered_onFill32 h report nowNs
  | onReject exchangeOid reason => exact hnil (ledgered_onReject h exchangeOid reason)
  | placementFailed dropped reason =>
      exact hnil (ledgered_dropOrder (ledgered_onReject h [] reason) dropped)
  | cancel cancelled => exact hmaps hwf maps_cancel.1 (issuing_cancel cancelled)
  | cancelAllOpen => exact hmaps hwf maps_cancelAllOpen.1 issuing_cancelAllOpen
  | resetForEod => exact hmaps hwf rfl rfl

theorem ledgered_run (poolSize : Nat) (paperMode : Bool) (oid : Str) (calls : List OmsCall) :
    (Run.run step32 (init poolSize paperMode) calls).Ledgered oid
      (fillsOf poolSize paperMode oid calls) := by
  induction calls using List.reverseRecOn with
  | nil =>
      refine ⟨wellFormed_init poolSize paperMode, fun p hp => ?_, fun _ => rfl⟩
      exact absurd hp (Option.some_ne_none p).symm
  | append_singleton calls call ih =>
      rw [fillsOf, Run.settings_append, Run.run_append]
      change (step32 _ call).Ledgered oid (fillsOf poolSize paperMode oid calls ++ (_ ++ []))
      rw [List.append_nil]
      exact ledgered_step32 ih call

/-- In every state that calls can reach, an order that is still in `orders_` has the sum of the
quantities of its fills and their weighted price exactly when the sum is in range and the last fill
was at the weighted price of those before it. -/
theorem avg_fill_price_iff {paperMode : Bool} {oid : Str} {calls : List OmsCall} {p : PooledOrder}
    (hlive : (Run.run step32 (init poolSize paperMode) calls).recordOf oid = some p)
    {earlier : List Fill} {last : Fill}
    (hfills : fillsOf poolSize paperMode oid calls = earlier ++ [last])
    (hpos : ∀ fill ∈ earlier ++ [last], 0 < fill.quantity ∧ 0 < fill.price) :
    (p.order.filledQty = filledQuantity (earlier ++ [last]) ∧
        p.order.avgFillPrice = weightedPrice (earlier ++ [last])) ↔
      filledQuantity (earlier ++ [last]) < 2 ^ 31 ∧ AtEarlierAverage earlier last := by
  have hquantities : ∀ fill ∈ earlier ++ [last], 0 < fill.quantity := fun fill hmem =>
    (hpos fill hmem).1
  have hquantity := filledQuantity_pos (by simp) hquantities
  obtain ⟨hfilled, hprice⟩ :=
    hfills ▸ (ledgered_run poolSize paperMode oid calls).record p hlive
  rw [hfilled, hprice, List.getLast?_append, List.getLast?_singleton, wrap32_eq_self_iff]
  refine and_congr ⟨And.right, fun hlt => ⟨?_, hlt⟩⟩ (price_eq_weightedPrice_iff hquantities)
  omega

def filledInTwos (prices : List ℚ) : List OmsCall :=
  .submit { instrumentToken := 1, quantity := 10 } 0 0 0 :: .onOrderAck ['E'] (orderId 0 0) ::
    prices.map fun price => .onFill ⟨['E'], price, 2, []⟩ 0

theorem avg_fill_price_at_average :
    let calls := filledInTwos [100, 110, 105]
    let fills := fillsOf 1 false (orderId 0 0) calls
    ∃ p, (Run.run step32 (init 1 false) calls).recordOf (orderId 0 0) = some p ∧
      p.order.filledQty = filledQuantity fills ∧ p.order.avgFillPrice = weightedPrice fills := by
  intro calls fills
  obtain ⟨p, hlive⟩ : ∃ p, (Run.run step32 (init 1 false) calls).recordOf (orderId 0 0) = some p :=
    Option.isSome_iff_exists.mp (by decide +kernel)
  have hne : fills ≠ [] := by decide +kernel
  have hfills := (List.dropLast_append_getLast hne).symm
  refine ⟨p, hlive, ?_⟩
  rw [hfills]
  refine (avg_fill_price_iff hlive hfills ?_).mpr ?_
  · rw [← hfills]
    decide +kernel
  · unfold AtEarlierAverage
    clear hfills
    revert hne
    decide +kernel

/-- Two at 100 and two at 110 leave the order open with an average of 110. -/
theorem avg_fill_price_is_last_price :
    let calls := filledInTwos [100, 110]
    let oms := Run.run step32 (init 1 false) calls
    let order := (oms.recordOf (orderId 0 0)).map PooledOrder.order
    let fills := fillsOf 1 false (orderId 0 0) calls
    (∀ fill ∈ fills, 0 < fill.quantity ∧ 0 < fill.price) ∧ weightedPrice fills = 105 ∧
      order.map Order.filledQty = some 4 ∧ order.map Order.avgFillPrice = some 110 := by
  decide +kernel

end OrderManagementSystem

end QuantForge
