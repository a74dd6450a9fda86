import QuantForge.Oms.SlotPartition

/-! Paper mode against what it stands for: an exchange that executes every order in full, at its
limit price, in the moment that it arrives. -/
namespace QuantForge

open Library OrderManagementSystem

def OmsEffect.callbackOf : OmsEffect → Option Fill
  | .fillCallback fill => some fill
  | _ => none

/-- An execution by an exchange that fills an order at once; the order is the `seq`-th. -/
def paperFill (seq : Nat) (req : OrderRequest) (tsMs fillNs : Nat) : Fill where
  orderId := strncpy (orderId tsMs seq) (maxOrderIdLen - 1)
  tradeId := strncpy ("PAPER-TRD-".toList ++ orderId tsMs seq) (maxOrderIdLen - 1)
  strategyId := strncpy req.strategyId (maxStrategyLen - 1)
  instrumentToken := req.instrumentToken
  side := req.side
  quantity := req.quantity
  price := req.limitPrice
  fillTsNs := fillNs

def paperFills : Nat → List OmsCall → List Fill
  | _, [] => []
  | seq, .submit req tsMs _ fillNs :: calls =>
      paperFill seq req tsMs fillNs :: paperFills (seq + 1) calls
  | seq, _ :: calls => paperFills seq calls

/-- A report from outside does not use the trade ids of paper mode. -/
def OmsCall.Foreign : OmsCall → Prop
  | .onFill report _ => ¬"PAPER-TRD-".toList <+: report.tradeId
  | _ => True

instance : DecidablePred OmsCall.Foreign
  | .onFill _ _ => inferInstanceAs (Decidable (¬_))
  | .submit .. => isTrue trivial
  | .onOrderAck _ _ => isTrue trivial
  | .onReject _ _ => isTrue trivial
  | .placementFailed _ _ => isTrue trivial
  | .cancel _ => isTrue trivial
  | .cancelAllOpen => isTrue trivial
  | .resetForEod => isTrue trivial

namespace OrderManagementSystem

variable {poolSize : Nat}

def executed (oms : OrderManagementSystem poolSize) : List Fill :=
  (oms.trace.filterMap OmsEffect.callbackOf).reverse

/-- No order is open, and nothing of the past is in the way of the next one. -/
structure AtRest (oms : OrderManagementSystem poolSize) : Prop where
  paper : oms.paperMode = true
  orders : oms.orders = ∅
  exchangeToInternal : oms.exchangeToInternal = ∅
  partitioned : oms.book.Partitioned
  marked : ∀ tsMs k, "PAPER-TRD-".toList ++ orderId tsMs k ∈ oms.dedup.processed → k < oms.seq

variable {oms : OrderManagementSystem poolSize}

namespace AtRest

theorem available (h : oms.AtRest) : oms.pool.available = poolSize := by
  have hcount := h.partitioned.count
  change oms.pool.available + oms.orders.entries.length = poolSize at hcount
  rw [h.orders] at hcount
  exact hcount

theorem lookup_eq_none (h : oms.AtRest) (oid : Str) : oms.orders.lookup oid = none := by
  rw [h.orders]
  exact AList.lookup_empty oid

theorem lookupFill_eq_none (h : oms.AtRest) (exchangeOid : Str) :
    oms.lookupFill exchangeOid = none := by
  rw [lookupFill, h.lookup_eq_none, Option.map_none]

theorem openOrderCount (h : oms.AtRest) : oms.openOrderCount = 0 := by
  rw [OrderManagementSystem.openOrderCount, h.orders]
  rfl

theorem of_book (h : oms.AtRest) {oms' : OrderManagementSystem poolSize}
    (hpaper : oms'.paperMode = oms.paperMode) (hbook : oms'.book = oms.book)
    (hlinks : oms'.exchangeToInternal = oms.exchangeToInternal)
    (hdedup : ∀ tsMs k, "PAPER-TRD-".toList ++ orderId tsMs k ∈ oms'.dedup.processed →
      "PAPER-TRD-".toList ++ orderId tsMs k ∈ oms.dedup.processed) : oms'.AtRest where
  paper := hpaper.trans h.paper
  orders := (congrArg OrderBook.orders hbook).trans h.orders
  exchangeToInternal := hlinks.trans h.exchangeToInternal
  partitioned := hbook ▸ h.partitioned
  marked := by
    intro tsMs k hmem
    rw [show oms'.seq = oms.seq from congrArg OrderBook.seq hbook]
    exact h.marked tsMs k (hdedup tsMs k hmem)

end AtRest

theorem atRest_init (poolSize : Nat) : (init poolSize true).AtRest where
  paper := rfl
  orders := rfl
  exchangeToInternal := rfl
  partitioned := partitioned_init poolSize true
  marked := by
    intro tsMs k hmem
    exact absurd hmem (Finset.notMem_empty _)

section Submit

variable {po : Fin poolSize} {rest : List (Fin poolSize)} (req : OrderRequest)
  (tsMs placedNs fillNs : Nat)

theorem slot_paperAcked (po : Fin poolSize) (rest : List (Fin poolSize)) :
    (oms.paperAcked po rest req tsMs placedNs).slot po =
      { order := { Order.populate {} (orderId tsMs oms.seq) req placedNs with status := .opened }
        sm := { status := .opened } } := by
  rw [paperAcked, slot_onOrderAck _ (lookup_placed oms po rest req tsMs placedNs),
    Function.update_self, slot_placed, Function.update_self]
  rfl

variable (oms) in
theorem buildFill_paperAcked (po : Fin poolSize) (rest : List (Fin poolSize)) :
    ((oms.paperAcked po rest req tsMs placedNs).slot po).order.buildFill (orderId tsMs oms.seq)
      (paperReport req (orderId tsMs oms.seq)) fillNs = paperFill oms.seq req tsMs fillNs := by
  rw [slot_paperAcked]
  have hprice : (if (paperReport req (orderId tsMs oms.seq)).price > 0 then
      (paperReport req (orderId tsMs oms.seq)).price else req.limitPrice) = req.limitPrice := by
    unfold paperReport
    split_ifs <;> simp_all
  simp only [Order.buildFill, Order.populate, paperFill, hprice, strncpy_strncpy]
  rfl

def paperMarked (oms : OrderManagementSystem poolSize) (po : Fin poolSize)
    (rest : List (Fin poolSize)) (req : OrderRequest) (tsMs placedNs : Nat) :
    OrderManagementSystem poolSize :=
  let acked := oms.paperAcked po rest req tsMs placedNs
  { acked with dedup := acked.markedDedup (paperReport req (orderId tsMs oms.seq)) }

theorem terminal_paperFill (po : Fin poolSize) (rest : List (Fin poolSize)) :
    (((oms.paperMarked po rest req tsMs placedNs).slot po).applyFill
      (paperFill oms.seq req tsMs fillNs)).sm.isTerminal = true := by
  rw [show (oms.paperMarked po rest req tsMs placedNs).slot =
    (oms.paperAcked po rest req tsMs placedNs).slot from rfl, slot_paperAcked]
  simp [PooledOrder.applyFill, PooledOrder.moveTo, Order.fillTarget, Order.credit, Order.populate,
    paperFill, OrderStateMachine.transition, OrderStateMachine.current,
    OrderStateMachine.isLegal, OrderStateMachine.isTerminal]

theorem dedup_paperAcked (po : Fin poolSize) (rest : List (Fin poolSize)) :
    (oms.paperAcked po rest req tsMs placedNs).dedup = oms.dedup :=
  dedup_onOrderAck _ _ _

theorem submit_paper (h : oms.AtRest) (hfree : oms.pool.freeList = po :: rest) :
    oms.submit req tsMs placedNs fillNs =
      (true, (((oms.paperMarked po rest req tsMs placedNs).applyFill
        (paperOid (orderId tsMs oms.seq)) (orderId tsMs oms.seq) po
          (paperFill oms.seq req tsMs fillNs)).pushFill
            (paperFill oms.seq req tsMs fillNs)).record
              (.fillCallback (paperFill oms.seq req tsMs fillNs))) := by
  have hadmits : (oms.paperAcked po rest req tsMs placedNs).Admits
      (paperReport req (orderId tsMs oms.seq)) := by
    refine .inr fun hmem => ?_
    rw [dedup_paperAcked] at hmem
    exact (h.marked tsMs oms.seq hmem).false
  have hfound : (oms.paperMarked po rest req tsMs placedNs).lookupFill
      (paperReport req (orderId tsMs oms.seq)).exchangeOid = some (orderId tsMs oms.seq, po) :=
    lookupFill_onOrderAck _ _ (lookup_placed oms po rest req tsMs placedNs)
  have hbuild := buildFill_paperAcked oms req tsMs placedNs fillNs po rest
  rw [submit_of_cons oms req tsMs placedNs fillNs hfree, if_pos h.paper]
  change (true, (oms.paperAcked po rest req tsMs placedNs).onFill _ _) = _
  rw [onFill_of_admits _ _ hadmits]
  change (true, (oms.paperMarked po rest req tsMs placedNs).deliverFill _ _) = _
  rw [deliverFill_of_some _ _ hfound]
  change (true, (((oms.paperMarked po rest req tsMs placedNs).applyFill _ _ po
    (((oms.paperAcked po rest req tsMs placedNs).slot po).order.buildFill _ _ _)).pushFill
    (((oms.paperAcked po rest req tsMs placedNs).slot po).order.buildFill _ _ _)).record
    (.fillCallback (((oms.paperAcked po rest req tsMs placedNs).slot po).order.buildFill _ _
      _))) = _
  rw [hbuild]
  rfl

private theorem erase_insert_empty {α β : Type*} [DecidableEq α] (a : α) (b : β) :
    ((∅ : Dict α β).insert a b).erase a = ∅ := by
  refine AList.ext ?_
  change List.kerase a (@List.kinsert α (fun _ => β) _ a b []) = []
  rw [List.kinsert_def, List.kerase_nil]
  exact List.kerase_cons_eq rfl

variable (oms po rest) in
def paperFilled : OrderManagementSystem poolSize :=
  (((oms.paperMarked po rest req tsMs placedNs).applyFill (paperOid (orderId tsMs oms.seq))
    (orderId tsMs oms.seq) po (paperFill oms.seq req tsMs fillNs)).pushFill
      (paperFill oms.seq req tsMs fillNs)).record
        (.fillCallback (paperFill oms.seq req tsMs fillNs))

theorem book_paperFilled : (oms.paperFilled po rest req tsMs placedNs fillNs).book =
    ((oms.book.take rest).issue.store (orderId tsMs oms.seq) po).release (orderId tsMs oms.seq)
      po := by
  rw [paperFilled, book_record, book_pushFill, book_applyFill,
    if_pos (terminal_paperFill req tsMs placedNs fillNs po rest)]
  exact congrArg (OrderBook.release · _ po) (book_onOrderAck _ _ _)

theorem exchangeToInternal_paperFilled :
    (oms.paperFilled po rest req tsMs placedNs fillNs).exchangeToInternal =
      (oms.exchangeToInternal.insert (paperOid (orderId tsMs oms.seq))
        (orderId tsMs oms.seq)).erase (paperOid (orderId tsMs oms.seq)) := by
  have hacked : (oms.paperMarked po rest req tsMs placedNs).exchangeToInternal =
      oms.exchangeToInternal.insert (paperOid (orderId tsMs oms.seq)) (orderId tsMs oms.seq) := by
    change (onOrderAck _ _ _).exchangeToInternal = _
    rw [onOrderAck_of_some _ (lookup_placed oms po rest req tsMs placedNs)]
    rfl
  change (applyFill _ _ _ _ _).exchangeToInternal = _
  rw [exchangeToInternal_applyFill, if_pos (terminal_paperFill req tsMs placedNs fillNs po rest),
    hacked]

theorem executed_paperFilled : (oms.paperFilled po rest req tsMs placedNs fillNs).executed =
    oms.executed ++ [paperFill oms.seq req tsMs fillNs] := by
  have hlookup := lookup_placed oms po rest req tsMs placedNs
  have hacked : (oms.paperMarked po rest req tsMs placedNs).trace.filterMap
      OmsEffect.callbackOf = oms.trace.filterMap OmsEffect.callbackOf := by
    change (onOrderAck _ _ _).trace.filterMap _ = _
    rw [trace_onOrderAck _ hlookup]
    rfl
  have hcalled : (oms.paperFilled po rest req tsMs placedNs fillNs).trace.filterMap
      OmsEffect.callbackOf =
        paperFill oms.seq req tsMs fillNs :: oms.trace.filterMap OmsEffect.callbackOf := by
    rw [paperFilled, trace_record, trace_pushFill, trace_applyFill]
    split <;> exact congrArg (_ :: ·) hacked
  rw [executed, hcalled, List.reverse_cons, executed]

theorem fillQueue_paperFilled : (oms.paperFilled po rest req tsMs placedNs fillNs).fillQueue =
    (oms.fillQueue.push (paperFill oms.seq req tsMs fillNs)).2 := by
  have hacked : (oms.paperMarked po rest req tsMs placedNs).fillQueue = oms.fillQueue := by
    change (onOrderAck _ _ _).fillQueue = _
    rw [onOrderAck_of_some _ (lookup_placed oms po rest req tsMs placedNs)]
    rfl
  change (SpscQueue.push (applyFill _ _ _ _ _).fillQueue _).2 = _
  rw [fillQueue_applyFill, hacked]

theorem paperMode_paperFilled :
    (oms.paperFilled po rest req tsMs placedNs fillNs).paperMode = oms.paperMode := by
  have hacked : (oms.paperMarked po rest req tsMs placedNs).paperMode = oms.paperMode := by
    change (onOrderAck _ _ _).paperMode = _
    rw [onOrderAck_of_some _ (lookup_placed oms po rest req tsMs placedNs)]
    rfl
  refine Eq.trans ?_ hacked
  change (retireIfTerminal _ _ _ _).paperMode = _
  unfold retireIfTerminal
  split <;> rfl

/-- An order is executed at once and leaves nothing behind but the mark of its trade id. -/
theorem atRest_paperFilled (h : oms.AtRest) (hfree : oms.pool.freeList = po :: rest) :
    (oms.paperFilled po rest req tsMs placedNs fillNs).AtRest := by
  have hpartitioned := partitioned_submit h.partitioned req tsMs placedNs fillNs
  rw [submit_paper req tsMs placedNs fillNs h hfree] at hpartitioned
  have hbook : (oms.paperFilled po rest req tsMs placedNs fillNs).book =
      ((oms.book.take rest).issue.store (orderId tsMs oms.seq) po).release (orderId tsMs oms.seq)
        po := book_paperFilled req tsMs placedNs fillNs
  have hseq : (oms.paperFilled po rest req tsMs placedNs fillNs).seq = oms.seq + 1 :=
    congrArg OrderBook.seq hbook
  have hdedup : (oms.paperFilled po rest req tsMs placedNs fillNs).dedup.processed =
      insert (paperReport req (orderId tsMs oms.seq)).tradeId oms.dedup.processed := by
    rw [paperFilled, dedup_record, dedup_pushFill, dedup_applyFill, paperMarked, markedDedup,
      dedup_paperAcked]
    rfl
  refine ⟨paperMode_paperFilled req tsMs placedNs fillNs |>.trans h.paper, ?_, ?_, hpartitioned,
    fun tsMs' k hmem => ?_⟩
  · refine (congrArg OrderBook.orders hbook).trans ?_
    change (oms.orders.insert (orderId tsMs oms.seq) po).erase (orderId tsMs oms.seq) = ∅
    rw [h.orders, erase_insert_empty]
  · rw [exchangeToInternal_paperFilled, h.exchangeToInternal, erase_insert_empty]
  · rw [hdedup] at hmem
    rw [hseq]
    obtain hnew | hold := Finset.mem_insert.mp hmem
    · have hsame := orderId_seq_injective (List.append_cancel_left hnew)
      omega
    · exact Nat.lt_succ_of_lt (h.marked tsMs' k hold)

end Submit

structure Idles (oms oms' : OrderManagementSystem poolSize) : Prop where
  atRest : oms'.AtRest
  seq : oms'.seq = oms.seq
  executed : oms'.executed = oms.executed
  fillQueue : oms'.fillQueue = oms.fillQueue

theorem idles_step (h : oms.AtRest) {call : OmsCall} (hcall : call.submits = false)
    (hforeign : call.Foreign) : oms.Idles (oms.step call) := by
  cases call with
  | submit req tsMs placedNs fillNs => cases hcall
  | onOrderAck exchangeOid internalOid =>
      rw [step, onOrderAck_of_none oms (h.lookup_eq_none internalOid)]
      exact ⟨h, rfl, rfl, rfl⟩
  | onFill report nowNs =>
      rw [step]
      by_cases hadmits : oms.Admits report
      · have hnone : lookupFill { oms with dedup := oms.markedDedup report } report.exchangeOid =
            none := h.lookupFill_eq_none report.exchangeOid
        rw [onFill_of_admits oms nowNs hadmits, deliverFill_of_none _ nowNs hnone]
        refine ⟨h.of_book rfl rfl rfl fun tsMs k hmem => ?_, rfl, rfl, rfl⟩
        change _ ∈ (oms.markedDedup report).processed at hmem
        unfold markedDedup at hmem
        split at hmem
        · exact hmem
        · obtain hnew | hold := Finset.mem_insert.mp hmem
          · exact absurd (hnew ▸ List.prefix_append _ _) hforeign
          · exact hold
      · rw [onFill_of_not_admits oms nowNs hadmits]
        exact ⟨h.of_book rfl rfl rfl fun _ _ hmem => hmem, rfl, rfl, rfl⟩
  | onReject exchangeOid reason =>
      rw [step, onReject_of_none oms reason (h.lookup_eq_none (oms.rejectTarget exchangeOid))]
      exact ⟨h.of_book rfl rfl rfl fun _ _ hmem => hmem, rfl, rfl, rfl⟩
  | placementFailed oid reason =>
      rw [step, placementFailed,
        onReject_of_none oms reason (h.lookup_eq_none (oms.rejectTarget [])),
        dropOrder_of_none (oms.record _) (h.lookup_eq_none oid)]
      exact ⟨h.of_book rfl rfl rfl fun _ _ hmem => hmem, rfl, rfl, rfl⟩
  | cancel oid =>
      rw [step, cancel, h.lookup_eq_none oid]
      exact ⟨h, rfl, rfl, rfl⟩
  | cancelAllOpen =>
      have hnone : oms.cancellable = [] := by
        rw [cancellable, h.orders]
        rfl
      rw [step, cancelAllOpen, hnone]
      exact ⟨h, rfl, rfl, rfl⟩
  | resetForEod =>
      refine ⟨h.of_book rfl rfl rfl fun tsMs k hmem => ?_, rfl, rfl, rfl⟩
      exact absurd hmem (Finset.notMem_empty _)

def offered (queue : FillQueue) (fills : List Fill) : FillQueue :=
  fills.foldl (fun queue fill => (queue.push fill).2) queue

theorem freeList_of_atRest {n : Nat} {oms : OrderManagementSystem (n + 1)} (h : oms.AtRest) :
    ∃ po rest, oms.pool.freeList = po :: rest := by
  cases hfree : oms.pool.freeList with
  | nil => simpa [OrderPool.available, hfree] using h.available
  | cons po rest => exact ⟨po, rest, rfl⟩

theorem run_atRest {n : Nat} {oms : OrderManagementSystem (n + 1)} (h : oms.AtRest)
    {calls : List OmsCall} (hcalls : ∀ call ∈ calls, call.Foreign) :
    (Run.run step oms calls).AtRest ∧
      (Run.run step oms calls).executed = oms.executed ++ paperFills oms.seq calls ∧
      (Run.run step oms calls).fillQueue = offered oms.fillQueue (paperFills oms.seq calls) := by
  induction calls generalizing oms with
  | nil => exact ⟨h, (List.append_nil _).symm, rfl⟩
  | cons call calls ih =>
      obtain ⟨hcall, hrest⟩ := List.forall_mem_cons.mp hcalls
      rw [Run.run_cons]
      cases hsubmits : call.submits with
      | false =>
          obtain ⟨hnext, hseq, hexecuted, hqueue⟩ := idles_step h hsubmits hcall
          have hfills : paperFills oms.seq (call :: calls) = paperFills oms.seq calls := by
            cases call with
            | submit => cases hsubmits
            | _ => rfl
          have hrun := ih hnext hrest
          rwa [hseq, hexecuted, hqueue, ← hfills] at hrun
      | true =>
          cases call with
          | submit req tsMs placedNs fillNs =>
              obtain ⟨po, rest, hfree⟩ := freeList_of_atRest h
              have hstep : oms.step (.submit req tsMs placedNs fillNs) =
                  oms.paperFilled po rest req tsMs placedNs fillNs :=
                congrArg Prod.snd (submit_paper req tsMs placedNs fillNs h hfree)
              have hseq : (oms.paperFilled po rest req tsMs placedNs fillNs).seq = oms.seq + 1 :=
                congrArg OrderBook.seq (book_paperFilled req tsMs placedNs fillNs)
              have hrun := ih (atRest_paperFilled req tsMs placedNs fillNs h hfree) hrest
              rw [hseq, executed_paperFilled, fillQueue_paperFilled, List.append_assoc] at hrun
              rw [hstep]
              exact hrun
          | _ => cases hsubmits

/-- In paper mode the system is an exchange that executes every order at once: whatever is
called, every order is accepted and its fill reported once, in the order of the calls, the fill
queue is offered exactly these fills, and no order stays open. -/
theorem paper_mode_executes {n : Nat} {calls : List OmsCall}
    (hcalls : ∀ call ∈ calls, call.Foreign) :
    let oms := Run.run step (init (n + 1) true) calls
    (∀ req tsMs placedNs fillNs, (oms.submit req tsMs placedNs fillNs).1 = true) ∧
      oms.executed = paperFills 0 calls ∧
      oms.fillQueue = offered (SpscQueue.init fillQueueCapacity {}) (paperFills 0 calls) ∧
      oms.orders = ∅ ∧ oms.exchangeToInternal = ∅ ∧ oms.pool.available = n + 1 ∧
      oms.openOrderCount = 0 := by
  intro oms
  obtain ⟨hrest, hexecuted, hqueue⟩ := run_atRest (atRest_init (n + 1)) hcalls
  refine ⟨fun req tsMs placedNs fillNs => ?_, hexecuted, hqueue, hrest.orders,
    hrest.exchangeToInternal, hrest.available, hrest.openOrderCount⟩
  obtain ⟨po, rest, hfree⟩ := freeList_of_atRest hrest
  rw [submit_paper req tsMs placedNs fillNs hrest hfree]

def twoPaperOrders : List OmsCall :=
  [.submit { instrumentToken := 1, quantity := 5, limitPrice := 100 } 7 0 0,
    .onFill ⟨"E1".toList, 99, 5, "T1".toList⟩ 1,
    .submit { instrumentToken := 1, side := .sell, quantity := 5, limitPrice := 101 } 7 2 2]

theorem paper_mode_executes_twoPaperOrders :
    (Run.run step (init 1 true) twoPaperOrders).executed = paperFills 0 twoPaperOrders :=
  (@paper_mode_executes 0 twoPaperOrders (by decide)).2.1

end OrderManagementSystem

end QuantForge
