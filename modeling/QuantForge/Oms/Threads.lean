import QuantForge.Library.Interleaving
import QuantForge.Oms.Sections

/-! The order management system called by several threads. One step is one section
under `orders_mtx_`, one locked phase of the deduplicator, one pool operation made
outside a section, or the unlocked work between two of these. The history, the
epoch and the `named` record of a fill are only observed. -/
namespace QuantForge

open Library OrderManagementSystem

structure Submission where
  req : OrderRequest
  tsMs : Nat
  placedNs : Nat
  fillNs : Nat

structure Delivery where
  report : FillReport
  nowNs : Nat

/-- The next step of a thread. `epoch` counts the resets before the fill was admitted,
and `named` is the record of the order as the lookup section found it. -/
inductive Phase (poolSize : Nat) where
  | idle
  | acquiring (sub : Submission)
  | populating (sub : Submission) (po : Fin poolSize)
  | storing (sub : Submission) (oid : Str) (po : Fin poolSize)
  | placing (sub : Submission) (oid : Str)
  | checking (d : Delivery)
  | marking (d : Delivery)
  | looking (d : Delivery) (epoch : Nat)
  | building (d : Delivery) (epoch : Nat) (oid : Str) (po : Fin poolSize) (named : Order)
  | updating (d : Delivery) (epoch : Nat) (oid : Str) (po : Fin poolSize) (named : Order)
      (fill : Fill)
  | pushing (d : Delivery) (epoch : Nat) (fill : Fill)
  | notifying (d : Delivery) (epoch : Nat) (fill : Fill)
  | acking (exchangeOid oid : Str)
  | rejecting (exchangeOid reason : Str)
  | failing (oid reason : Str)
  | dropping (oid : Str)
  | resetting
  | collecting
  | cancelling (oids : List Str)

inductive HistoryEntry (poolSize : Nat) where
  | tried (epoch : Nat) (tradeId : Str) (isNew : Bool)
  | credited (epoch : Nat) (tradeId : Str) (held : Bool) (named updated : Order) (fill : Fill)
  | pushed (epoch : Nat) (tradeId : Str)
  | called (epoch : Nat) (tradeId : Str)
  | released (po : Fin poolSize) (wasFree : Bool)
  deriving DecidableEq

/-- `epoch` counts the resets of the deduplicator; the latest entry is the first. -/
structure SharedOms (poolSize : Nat) where
  oms : OrderManagementSystem poolSize
  epoch : Nat := 0
  history : List (HistoryEntry poolSize) := []

inductive ThreadInput where
  | call (c : OmsCall)
  | resume

def PooledOrder.Completes (p : PooledOrder) (quantity : Int) : Prop :=
  p.sm.isTerminal = true ∨
    p.order.filledQty + quantity ≥ p.order.quantity ∧
      OrderStateMachine.isLegal p.sm.current .complete = true

instance (p : PooledOrder) (quantity : Int) : Decidable (p.Completes quantity) :=
  inferInstanceAs (Decidable (_ ∨ _ ∧ _))

namespace SharedOms

variable {poolSize : Nat} (s : SharedOms poolSize)

def put (oms : OrderManagementSystem poolSize) : SharedOms poolSize := { s with oms := oms }

def note (entry : HistoryEntry poolSize) : SharedOms poolSize :=
  { s with history := entry :: s.history }

def noteRelease (slot : Option (Fin poolSize)) : SharedOms poolSize :=
  match slot with
  | none => s
  | some po => s.note (.released po (decide (po ∈ s.oms.pool.freeList)))

theorem oms_noteRelease (slot : Option (Fin poolSize)) : (s.noteRelease slot).oms = s.oms := by
  cases slot <;> rfl

end SharedOms

namespace Phase

variable {poolSize : Nat}

/-- `on_fill` skips the deduplicator when there is no trade id. -/
def enterFill (epoch : Nat) (d : Delivery) : Phase poolSize :=
  if d.report.tradeId = [] then .looking d epoch else .checking d

def start (epoch : Nat) : OmsCall → Phase poolSize
  | .submit req tsMs placedNs fillNs => .acquiring ⟨req, tsMs, placedNs, fillNs⟩
  | .onOrderAck exchangeOid internalOid => .acking exchangeOid internalOid
  | .onFill report nowNs => enterFill epoch ⟨report, nowNs⟩
  | .onReject exchangeOid reason => .rejecting exchangeOid reason
  | .placementFailed oid reason => .failing oid reason
  | .cancel oid => .cancelling [oid]
  | .cancelAllOpen => .collecting
  | .resetForEod => .resetting

def releases (oms : OrderManagementSystem poolSize) : Phase poolSize → Option (Fin poolSize)
  | .updating _ _ _ po _ fill => if (oms.slot po).Completes fill.quantity then some po else none
  | .rejecting exchangeOid _ => oms.orders.lookup (oms.rejectTarget exchangeOid)
  | .failing _ _ => oms.orders.lookup (oms.rejectTarget [])
  | .dropping oid => oms.orders.lookup oid
  | _ => none

/-- What `on_fill` takes from the lookup to the update section: the internal id, the slot
and the record that the lookup found in it. -/
def carries : Phase poolSize → Option (Str × Fin poolSize × Order)
  | .building _ _ oid po named => some (oid, po, named)
  | .updating _ _ oid po named _ => some (oid, po, named)
  | _ => none

def act (s : SharedOms poolSize) : Phase poolSize → SharedOms poolSize × Phase poolSize
  | .idle => (s, .idle)
  | .acquiring sub =>
      match s.oms.pool.acquire with
      | (none, _) => (s, .idle)
      | (some po, pool) => (s.put { s.oms with pool := pool }, .populating sub po)
  | .populating sub po =>
      (s.put (s.oms.populate po sub.req sub.tsMs sub.placedNs),
        .storing sub (orderId sub.tsMs s.oms.seq) po)
  | .storing sub oid po => (s.put (s.oms.storeOrder oid po), .placing sub oid)
  | .placing sub oid =>
      if s.oms.paperMode then
        (s.put (s.oms.onOrderAck (paperOid oid) oid),
          enterFill s.epoch ⟨paperReport sub.req oid, sub.fillNs⟩)
      else (s.put (s.oms.record (.placeOrder oid sub.req)), .idle)
  | .checking d =>
      match s.oms.dedup.checkSeen d.report.tradeId with
      | (true, dedup) =>
          ((s.put { s.oms with dedup := dedup }).note
            (.tried s.epoch d.report.tradeId false), .idle)
      | (false, _) => (s, .marking d)
  | .marking d =>
      match s.oms.dedup.insertNew d.report.tradeId with
      | (false, dedup) =>
          ((s.put { s.oms with dedup := dedup }).note
            (.tried s.epoch d.report.tradeId false), .idle)
      | (true, dedup) =>
          ((s.put { s.oms with dedup := dedup }).note
            (.tried s.epoch d.report.tradeId true), .looking d s.epoch)
  | .looking d epoch =>
      match s.oms.lookupFill d.report.exchangeOid with
      | none => (s, .idle)
      | some (oid, po) => (s, .building d epoch oid po (s.oms.slot po).order)
  | .building d epoch oid po named =>
      (s, .updating d epoch oid po named
        ((s.oms.slot po).order.buildFill oid d.report d.nowNs))
  | .updating d epoch oid po named fill =>
      ((s.put (s.oms.applyFill d.report.exchangeOid oid po fill)).note
        (.credited epoch d.report.tradeId (decide (s.oms.orders.lookup oid = some po)) named
          (s.oms.slot po).order fill), .pushing d epoch fill)
  | .pushing d epoch fill =>
      ((s.put (s.oms.pushFill fill)).note (.pushed epoch d.report.tradeId),
        .notifying d epoch fill)
  | .notifying d epoch fill =>
      ((s.put (s.oms.record (.fillCallback fill))).note (.called epoch d.report.tradeId), .idle)
  | .acking exchangeOid oid => (s.put (s.oms.onOrderAck exchangeOid oid), .idle)
  | .rejecting exchangeOid reason => (s.put (s.oms.onReject exchangeOid reason), .idle)
  | .failing oid reason => (s.put (s.oms.onReject [] reason), .dropping oid)
  | .dropping oid => (s.put (s.oms.dropOrder oid), .idle)
  | .resetting => ({ s.put s.oms.resetForEod with epoch := s.epoch + 1 }, .idle)
  | .collecting => (s, .cancelling s.oms.cancellable)
  | .cancelling [] => (s, .idle)
  | .cancelling (oid :: oids) => (s.put (s.oms.cancel oid).2, .cancelling oids)

def next (s : SharedOms poolSize) (phase : Phase poolSize) :
    ThreadInput → SharedOms poolSize × Phase poolSize
  | .call c =>
      match phase with
      | .idle => (s, start s.epoch c)
      | busy => (s, busy)
  | .resume => phase.act (s.noteRelease (phase.releases s.oms))

inductive Finishes : SharedOms poolSize → Phase poolSize → OrderManagementSystem poolSize → Prop
    where
  | idle (s : SharedOms poolSize) : Finishes s .idle s.oms
  | resume {s s' : SharedOms poolSize} {phase phase' : Phase poolSize}
      {oms : OrderManagementSystem poolSize} (hnext : phase.next s .resume = (s', phase'))
      (h : Finishes s' phase' oms) : Finishes s phase oms

section Finishes

variable (s : SharedOms poolSize)

theorem finishes_pushing (d : Delivery) (epoch : Nat) (fill : Fill) :
    Finishes s (.pushing d epoch fill) ((s.oms.pushFill fill).record (.fillCallback fill)) :=
  .resume rfl (.resume rfl (.idle _))

theorem finishes_updating (d : Delivery) (epoch : Nat) (oid : Str) (po : Fin poolSize)
    (named : Order) (fill : Fill) :
    Finishes s (.updating d epoch oid po named fill)
      (((s.oms.applyFill d.report.exchangeOid oid po fill).pushFill fill).record
        (.fillCallback fill)) := by
  rw [← s.oms_noteRelease (releases s.oms (.updating d epoch oid po named fill))]
  exact .resume rfl (finishes_pushing _ d epoch fill)

theorem finishes_looking (d : Delivery) (epoch : Nat) :
    Finishes s (.looking d epoch) (s.oms.deliverFill d.report d.nowNs) := by
  cases hfound : s.oms.lookupFill d.report.exchangeOid with
  | none =>
      have hact : act s (.looking d epoch) = (s, .idle) := by rw [act, hfound]
      rw [deliverFill_of_none s.oms d.nowNs hfound]
      exact .resume hact (.idle s)
  | some found =>
      obtain ⟨oid, po⟩ := found
      have hact : act s (.looking d epoch) =
          (s, .building d epoch oid po (s.oms.slot po).order) := by
        rw [act, hfound]
      rw [deliverFill_of_some s.oms d.nowNs hfound]
      exact .resume hact (.resume rfl (finishes_updating s d epoch oid po _ _))

theorem finishes_enterFill (epoch : Nat) (d : Delivery) :
    Finishes s (enterFill epoch d) (s.oms.onFill d.report d.nowNs) := by
  by_cases hempty : d.report.tradeId = []
  · rw [enterFill, if_pos hempty, onFill, if_pos hempty]
    exact finishes_looking s d epoch
  · rw [enterFill, if_neg hempty]
    by_cases hseen : d.report.tradeId ∈ s.oms.dedup.processed
    · have hact := show act s (.checking d) = _ by
        rw [act, FillDeduplicator.checkSeen, if_pos hseen]
      rw [onFill_of_not_admits s.oms d.nowNs (by simp [Admits, hempty, hseen])]
      exact .resume hact (.idle _)
    · have hcheck := show act s (.checking d) = _ by
        rw [act, FillDeduplicator.checkSeen, if_neg hseen]
      have hmark := show act s (.marking d) = _ by
        rw [act, FillDeduplicator.insertNew, if_neg hseen]
      rw [onFill_of_admits s.oms d.nowNs (.inr hseen), markedDedup, if_neg hempty]
      exact .resume hcheck (.resume hmark (finishes_looking _ d s.epoch))

theorem finishes_acquiring (sub : Submission) :
    Finishes s (.acquiring sub) (s.oms.submit sub.req sub.tsMs sub.placedNs sub.fillNs).2 := by
  cases hfree : s.oms.pool.freeList with
  | nil =>
      have hact := show act s (.acquiring sub) = _ by rw [act, OrderPool.acquire_of_nil hfree]
      rw [submit_of_nil _ _ _ _ _ hfree]
      exact .resume hact (.idle s)
  | cons po rest =>
      have hact := show act s (.acquiring sub) = _ by rw [act, OrderPool.acquire_of_cons hfree]
      rw [submit_of_cons _ _ _ _ _ hfree]
      refine .resume hact (.resume rfl (.resume rfl ?_))
      by_cases hpaper : s.oms.paperMode = true
      · rw [if_pos hpaper]
        exact .resume (if_pos hpaper) (finishes_enterFill _ s.epoch _)
      · rw [if_neg hpaper]
        exact .resume (if_neg hpaper) (.idle _)

theorem finishes_dropping (oid : Str) : Finishes s (.dropping oid) (s.oms.dropOrder oid) := by
  rw [← s.oms_noteRelease (releases s.oms (.dropping oid))]
  exact .resume rfl (.idle _)

theorem finishes_cancelling (oids : List Str) :
    Finishes s (.cancelling oids) (oids.foldl (fun oms oid => (oms.cancel oid).2) s.oms) := by
  induction oids generalizing s with
  | nil => exact .resume rfl (.idle s)
  | cons oid oids ih => exact .resume rfl (ih _)

theorem finishes_start (epoch : Nat) (c : OmsCall) :
    Finishes s (start epoch c) (s.oms.step c) := by
  cases c with
  | submit req tsMs placedNs fillNs => exact finishes_acquiring s ⟨req, tsMs, placedNs, fillNs⟩
  | onOrderAck exchangeOid internalOid => exact .resume rfl (.idle _)
  | onFill report nowNs => exact finishes_enterFill s epoch ⟨report, nowNs⟩
  | onReject exchangeOid reason =>
      rw [← s.oms_noteRelease (releases s.oms (.rejecting exchangeOid reason))]
      exact .resume rfl (.idle _)
  | placementFailed oid reason =>
      rw [← s.oms_noteRelease (releases s.oms (.failing oid reason))]
      exact .resume rfl (finishes_dropping _ oid)
  | cancel oid => exact finishes_cancelling s [oid]
  | cancelAllOpen => exact .resume rfl (finishes_cancelling s _)
  | resetForEod => exact .resume rfl (.idle _)

end Finishes

end Phase

abbrev OmsThreads (Thread : Type*) (poolSize : Nat) :=
  Interleaving.State Thread (SharedOms poolSize) (Phase poolSize)

namespace OmsThreads

variable {Thread : Type*} {poolSize : Nat}

def init (Thread : Type*) (poolSize : Nat) (paperMode : Bool) : OmsThreads Thread poolSize where
  shared := { oms := OrderManagementSystem.init poolSize paperMode }
  own := fun _ => .idle

def step [DecidableEq Thread] :
    OmsThreads Thread poolSize → Thread × ThreadInput → OmsThreads Thread poolSize :=
  Interleaving.step Phase.next

variable [DecidableEq Thread]

private theorem run_of_finishes {s : SharedOms poolSize} {phase : Phase poolSize}
    {oms : OrderManagementSystem poolSize} (h : Phase.Finishes s phase oms) {t : Thread}
    {m : OmsThreads Thread poolSize} (hshared : m.shared = s) (hown : m.own t = phase) :
    ∃ k, let m' := Run.run step m (List.replicate k (t, .resume))
      m'.shared.oms = oms ∧ m'.own t = .idle ∧ ∀ other, other ≠ t → m'.own other = m.own other := by
  induction h generalizing m with
  | idle s => exact ⟨0, congrArg SharedOms.oms hshared, hown, fun _ _ => rfl⟩
  | resume hnext _ ih =>
      rw [← hshared, ← hown] at hnext
      obtain ⟨k, homs, hidle, hothers⟩ := ih (m := step m (t, .resume))
        (congrArg Prod.fst hnext)
        ((Function.update_self ..).trans (congrArg Prod.snd hnext))
      refine ⟨k + 1, homs, hidle, fun other hne => (hothers other hne).trans ?_⟩
      exact Function.update_of_ne hne ..

/-- The operations taken as single steps are the calls that run without interruption. -/
theorem step_eq_uninterrupted (m : OmsThreads Thread poolSize) {t : Thread}
    (hidle : m.own t = .idle) (c : OmsCall) :
    ∃ k, let m' := Run.run step m ((t, .call c) :: List.replicate k (t, .resume))
      m'.shared.oms = m.shared.oms.step c ∧ m'.own t = .idle ∧
        ∀ other, other ≠ t → m'.own other = m.own other := by
  have hstart : Phase.next m.shared (m.own t) (.call c) =
      (m.shared, Phase.start m.shared.epoch c) := by
    rw [hidle]
    rfl
  obtain ⟨k, homs, hback, hothers⟩ := run_of_finishes
    (Phase.finishes_start m.shared m.shared.epoch c) (m := step m (t, .call c))
    (congrArg Prod.fst hstart) ((Function.update_self ..).trans (congrArg Prod.snd hstart))
  refine ⟨k, homs, hback, fun other hne => (hothers other hne).trans ?_⟩
  exact Function.update_of_ne hne ..

end OmsThreads

end QuantForge
