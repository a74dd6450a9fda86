import QuantForge.Oms.SlotPartition
import QuantForge.Oms.Threads

/-! `on_fill` takes a slot pointer from its lookup section to its update section. The
pointer still leads to the order that was looked up as long as no other thread gives
the slot back in between. -/
namespace QuantForge

open Library OrderManagementSystem

namespace Order

def identity (o : Order) : Str × Str × Nat × Side :=
  (o.orderId, o.strategyId, o.instrumentToken, o.side)

def Fits (o : Order) : Prop := strncpy o.strategyId (maxStrategyLen - 1) = o.strategyId

theorem fits_of_identity {o o' : Order} (h : o.identity = o'.identity) (hfits : o'.Fits) :
    o.Fits := by
  have hstrategy : o.strategyId = o'.strategyId :=
    congrArg (fun identity => identity.2.1) h
  rwa [Fits, hstrategy]

end Order

def Fill.Names (fill : Fill) (o : Order) : Prop :=
  fill.strategyId = o.strategyId ∧ fill.instrumentToken = o.instrumentToken ∧ fill.side = o.side

instance (fill : Fill) (o : Order) : Decidable (fill.Names o) :=
  inferInstanceAs (Decidable (_ ∧ _ ∧ _))

theorem names_of_identity {fill : Fill} {o o' : Order} (h : o.identity = o'.identity)
    (hnames : fill.Names o) : fill.Names o' := by
  obtain ⟨-, hstrategy, htoken, hside⟩ : o.orderId = o'.orderId ∧ o.strategyId = o'.strategyId ∧
      o.instrumentToken = o'.instrumentToken ∧ o.side = o'.side := by
    simpa [Order.identity] using h
  exact ⟨hnames.1.trans hstrategy, hnames.2.1.trans htoken, hnames.2.2.trans hside⟩

namespace HistoryEntry

variable {poolSize : Nat}

/-- A credit went to the order that the lookup found, still in its slot, and its fill names
that order; a slot given back was not free. -/
def Faithful : HistoryEntry poolSize → Prop
  | .credited _ _ held named updated fill =>
      held = true ∧ updated.identity = named.identity ∧ fill.Names named
  | .released _ wasFree => wasFree = false
  | _ => True

instance : DecidablePred (@Faithful poolSize)
  | .credited _ _ _ _ _ _ => inferInstanceAs (Decidable (_ ∧ _ ∧ _))
  | .released _ _ => inferInstanceAs (Decidable (_ = _))
  | .tried _ _ _ => inferInstanceAs (Decidable True)
  | .pushed _ _ => inferInstanceAs (Decidable True)
  | .called _ _ => inferInstanceAs (Decidable True)

end HistoryEntry

theorem PooledOrder.completes_iff (p : PooledOrder) (fill : Fill) :
    p.Completes fill.quantity ↔ (p.applyFill fill).sm.isTerminal = true := by
  have hsm : (p.applyFill fill).sm = (p.sm.transition (p.order.credit fill).fillTarget).2 := rfl
  rw [hsm, Completes]
  by_cases hterminal : p.sm.isTerminal = true
  · have hstuck := OrderStateMachine.not_isLegal_of_isTerminal hterminal
      (p.order.credit fill).fillTarget
    rw [OrderStateMachine.transition_of_illegal (by simp [hstuck])]
    simp [hterminal]
  · by_cases hfull : p.order.filledQty + fill.quantity ≥ p.order.quantity
    · rw [show (p.order.credit fill).fillTarget = .complete from if_pos hfull]
      by_cases hlegal : OrderStateMachine.isLegal p.sm.current .complete = true
      · rw [OrderStateMachine.transition_of_legal hlegal]
        exact iff_of_true (.inr ⟨hfull, hlegal⟩) rfl
      · rw [OrderStateMachine.transition_of_illegal hlegal]
        simp [hterminal, hlegal]
    · rw [show (p.order.credit fill).fillTarget = .partlyFilled from if_neg hfull]
      refine iff_of_false (by simp [hterminal, hfull]) ?_
      by_cases hlegal : OrderStateMachine.isLegal p.sm.current .partlyFilled = true
      · rw [OrderStateMachine.transition_of_legal hlegal]
        decide
      · rwa [OrderStateMachine.transition_of_illegal hlegal]

namespace Phase

variable {poolSize : Nat}

def reserves : Phase poolSize → Option (Fin poolSize)
  | .populating _ po => some po
  | .storing _ _ po => some po
  | _ => none

def stores : Phase poolSize → Option Str
  | .storing _ oid _ => some oid
  | _ => none

def built : Phase poolSize → Option (Order × Fill)
  | .updating _ _ _ _ named fill => some (named, fill)
  | _ => none

structure Valid (oms : OrderManagementSystem poolSize) (phase : Phase poolSize) : Prop where
  reserved : ∀ po, phase.reserves = some po → po ∉ oms.book.freeList ++ oms.book.orders.values
  stored : ∀ oid, phase.stores = some oid →
    oms.book.Issued oid ∧ oms.book.orders.lookup oid = none
  carried : ∀ oid po named, phase.carries = some (oid, po, named) →
    oms.book.orders.lookup oid = some po ∧ (oms.slot po).order.identity = named.identity
  built : ∀ named fill, phase.built = some (named, fill) → fill.Names named

structure Apart (phase other : Phase poolSize) : Prop where
  reserves : ∀ po, phase.reserves = some po → other.reserves ≠ some po
  stores : ∀ oid, phase.stores = some oid → other.stores ≠ some oid

def LeavesPointer (s : SharedOms poolSize) (phase : Phase poolSize) :
    ThreadInput → Phase poolSize → Prop
  | .call _, _ => True
  | .resume, other => ∀ po, phase.releases s.oms = some po →
      other.carries.map (fun carried => carried.2.1) ≠ some po

instance (s : SharedOms poolSize) (phase : Phase poolSize) (input : ThreadInput)
    (other : Phase poolSize) : Decidable (phase.LeavesPointer s input other) :=
  match input with
  | .call _ => inferInstanceAs (Decidable True)
  | .resume => inferInstanceAs (Decidable (∀ _, _))

inductive SlotMove (oms : OrderManagementSystem poolSize) :
    Phase poolSize → OrderManagementSystem poolSize → Prop where
  | quiet {phase oms'} (hreleases : phase.releases oms = none) (hbook : oms'.book = oms.book)
      (hslot : ∀ po, (oms'.slot po).order.identity = (oms.slot po).order.identity) :
      SlotMove oms phase oms'
  | release {phase oms'} (oid : Str) (po : Fin poolSize)
      (hreleases : phase.releases oms = some po)
      (hlookup : oms.book.orders.lookup oid = some po)
      (hbook : oms'.book = oms.book.release oid po)
      (hslot : ∀ po, (oms'.slot po).order.identity = (oms.slot po).order.identity) :
      SlotMove oms phase oms'
  | take {oms'} (sub : Submission) (po : Fin poolSize) (rest : List (Fin poolSize))
      (hfree : oms.book.freeList = po :: rest) (hbook : oms'.book = oms.book.take rest)
      (hslot : oms'.slot = Function.update oms.slot po {}) :
      SlotMove oms (.acquiring sub) oms'
  | issue {oms'} (sub : Submission) (po : Fin poolSize) (p : PooledOrder) (hfits : p.order.Fits)
      (hbook : oms'.book = oms.book.issue) (hslot : oms'.slot = Function.update oms.slot po p) :
      SlotMove oms (.populating sub po) oms'
  | store {oms'} (sub : Submission) (oid : Str) (po : Fin poolSize)
      (hbook : oms'.book = oms.book.store oid po) (hslot : oms'.slot = oms.slot) :
      SlotMove oms (.storing sub oid po) oms'

private theorem identity_update {slot : Fin poolSize → PooledOrder} {po : Fin poolSize}
    {p : PooledOrder} (h : p.order.identity = (slot po).order.identity) (po' : Fin poolSize) :
    (Function.update slot po p po').order.identity = (slot po').order.identity := by
  by_cases heq : po' = po
  · rw [heq, Function.update_self, h]
  · rw [Function.update_of_ne heq]

section Sections

variable (oms : OrderManagementSystem poolSize)

private theorem identity_onOrderAck (exchangeOid internalOid : Str) (po : Fin poolSize) :
    ((oms.onOrderAck exchangeOid internalOid).slot po).order.identity =
      (oms.slot po).order.identity := by
  cases hlookup : oms.orders.lookup internalOid with
  | none => rw [onOrderAck_of_none oms hlookup]
  | some held =>
      rw [slot_onOrderAck oms hlookup]
      apply identity_update
      rfl

private theorem slotMove_onReject {phase : Phase poolSize} (exchangeOid reason : Str)
    (hreleases : phase.releases oms = oms.orders.lookup (oms.rejectTarget exchangeOid)) :
    SlotMove oms phase (oms.onReject exchangeOid reason) := by
  cases hlookup : oms.orders.lookup (oms.rejectTarget exchangeOid) with
  | none =>
      rw [onReject_of_none oms reason hlookup]
      exact .quiet (hreleases.trans hlookup) rfl fun _ => rfl
  | some po =>
      rw [onReject_of_some oms reason hlookup]
      exact .release _ po (hreleases.trans hlookup) hlookup rfl (identity_update rfl)

private theorem slotMove_dropOrder (oid : Str) :
    SlotMove oms (.dropping oid) (oms.dropOrder oid) := by
  cases hlookup : oms.orders.lookup oid with
  | none =>
      rw [dropOrder_of_none oms hlookup]
      exact .quiet hlookup rfl fun _ => rfl
  | some po =>
      rw [dropOrder_of_some oms hlookup]
      exact .release oid po hlookup hlookup rfl fun _ => rfl

private theorem slotMove_applyFill (d : Delivery) (epoch : Nat) {oid : Str} {po : Fin poolSize}
    (named : Order) (fill : Fill) (hlookup : oms.book.orders.lookup oid = some po) :
    SlotMove oms (.updating d epoch oid po named fill)
      (oms.applyFill d.report.exchangeOid oid po fill) := by
  have hbook := book_applyFill oms d.report.exchangeOid oid po fill
  have hslot : ∀ po', ((oms.applyFill d.report.exchangeOid oid po fill).slot po').order.identity =
      (oms.slot po').order.identity := by
    rw [slot_applyFill]
    exact identity_update rfl
  by_cases hdone : (oms.slot po).Completes fill.quantity
  · rw [if_pos ((PooledOrder.completes_iff _ _).mp hdone)] at hbook
    exact .release oid po (if_pos hdone) hlookup hbook hslot
  · rw [if_neg (mt (PooledOrder.completes_iff _ _).mpr hdone)] at hbook
    exact .quiet (if_neg hdone) hbook hslot

end Sections

private theorem fits_populate (o : Order) (oid : Str) (req : OrderRequest) (placedNs : Nat) :
    (o.populate oid req placedNs).Fits :=
  strncpy_strncpy req.strategyId _

theorem slotMove_act (s : SharedOms poolSize) {phase : Phase poolSize}
    (hvalid : phase.Valid s.oms) : SlotMove s.oms phase (phase.act s).1.oms := by
  cases phase with
  | acquiring sub =>
      cases hfree : s.oms.pool.freeList with
      | nil =>
          simp only [act, OrderPool.acquire_of_nil hfree]
          exact .quiet rfl rfl fun _ => rfl
      | cons po rest =>
          simp only [act, OrderPool.acquire_of_cons hfree]
          exact .take sub po rest hfree rfl rfl
  | populating sub po => exact .issue sub po _ (fits_populate _ _ _ _) rfl rfl
  | storing sub oid po => exact .store sub oid po rfl rfl
  | placing sub oid =>
      rw [act]
      split
      · exact .quiet rfl (book_onOrderAck s.oms _ _) (identity_onOrderAck s.oms _ _)
      · exact .quiet rfl rfl fun _ => rfl
  | checking d =>
      rw [act]
      split <;> exact .quiet rfl rfl fun _ => rfl
  | marking d =>
      rw [act]
      split <;> exact .quiet rfl rfl fun _ => rfl
  | looking d epoch =>
      rw [act]
      split <;> exact .quiet rfl rfl fun _ => rfl
  | updating d epoch oid po named fill =>
      exact slotMove_applyFill s.oms d epoch named fill (hvalid.carried oid po named rfl).1
  | acking exchangeOid oid =>
      exact .quiet rfl (book_onOrderAck s.oms _ _) (identity_onOrderAck s.oms _ _)
  | rejecting exchangeOid reason => exact slotMove_onReject s.oms exchangeOid reason rfl
  | failing oid reason => exact slotMove_onReject s.oms [] reason rfl
  | dropping oid => exact slotMove_dropOrder s.oms oid
  | cancelling oids =>
      cases oids with
      | nil => exact .quiet rfl rfl fun _ => rfl
      | cons oid oids =>
          refine .quiet rfl (book_cancel s.oms oid) fun po => ?_
          exact congrArg (fun slot => (slot po).order.identity) (slot_cancel s.oms oid)
  | _ => exact .quiet rfl rfl fun _ => rfl

section Keeps

variable {oms oms' : OrderManagementSystem poolSize} {phase other : Phase poolSize}

theorem exclusive_move (hmove : SlotMove oms phase oms') (h : oms.book.Exclusive)
    (hvalid : phase.Valid oms) : oms'.book.Exclusive := by
  cases hmove with
  | quiet _ hbook => rwa [hbook]
  | release oid po _ hlookup hbook =>
      rw [hbook]
      exact OrderBook.exclusive_release h hlookup
  | take sub po rest hfree hbook =>
      rw [hbook]
      exact (OrderBook.exclusive_take h hfree).1
  | issue sub po p _ hbook =>
      rw [hbook]
      exact OrderBook.exclusive_issue h
  | store sub oid po hbook =>
      rw [hbook]
      obtain ⟨hissued, hfresh⟩ := hvalid.stored oid rfl
      exact OrderBook.exclusive_store h (hvalid.reserved po rfl) hissued hfresh

theorem fits_move (hmove : SlotMove oms phase oms') (h : ∀ po, (oms.slot po).order.Fits)
    (po : Fin poolSize) : (oms'.slot po).order.Fits := by
  cases hmove with
  | quiet _ _ hslot => exact Order.fits_of_identity (hslot po) (h po)
  | release _ _ _ _ _ hslot => exact Order.fits_of_identity (hslot po) (h po)
  | take sub taken rest _ _ hslot =>
      rw [hslot]
      by_cases heq : po = taken
      · rw [heq, Function.update_self]
        rfl
      · rw [Function.update_of_ne heq]
        exact h po
  | issue sub taken p hfits _ hslot =>
      rw [hslot]
      by_cases heq : po = taken
      · rwa [heq, Function.update_self]
      · rw [Function.update_of_ne heq]
        exact h po
  | store sub oid taken _ hslot =>
      rw [hslot]
      exact h po

private theorem mem_values_of_lookup {oid : Str} {po : Fin poolSize}
    (h : oms.book.orders.lookup oid = some po) :
    po ∈ oms.book.freeList ++ oms.book.orders.values :=
  List.mem_append_right _ (Dict.mem_values.mpr ⟨oid, h⟩)

private theorem reserved_bystander (hmove : SlotMove oms phase oms') (hvalid : phase.Valid oms)
    (hother : other.Valid oms) (hapart : phase.Apart other) {po : Fin poolSize}
    (hreserves : other.reserves = some po) :
    po ∉ oms'.book.freeList ++ oms'.book.orders.values := by
  have hreserved := hother.reserved po hreserves
  cases hmove with
  | quiet _ hbook => rwa [hbook]
  | release oid released _ hlookup hbook =>
      rw [hbook]
      exact mt (OrderBook.release_perm hlookup).mem_iff.mp hreserved
  | take sub taken rest hfree hbook =>
      rw [hbook]
      rw [hfree] at hreserved
      exact mt (List.mem_cons_of_mem taken) hreserved
  | issue sub taken p _ hbook => rwa [hbook]
  | store sub oid stored hbook =>
      obtain ⟨-, hfresh⟩ := hvalid.stored oid rfl
      rw [hbook, (OrderBook.store_perm stored hfresh).mem_iff, List.mem_cons, not_or]
      refine ⟨?_, hreserved⟩
      rintro rfl
      exact hapart.reserves po rfl hreserves

private theorem stored_bystander (hmove : SlotMove oms phase oms') (hother : other.Valid oms)
    (hapart : phase.Apart other) {oid : Str} (hstores : other.stores = some oid) :
    oms'.book.Issued oid ∧ oms'.book.orders.lookup oid = none := by
  obtain ⟨hissued, hfresh⟩ := hother.stored oid hstores
  cases hmove with
  | quiet _ hbook =>
      rw [hbook]
      exact ⟨hissued, hfresh⟩
  | release released po _ hlookup hbook =>
      have hne : oid ≠ released := by
        rintro rfl
        simp [hlookup] at hfresh
      rw [hbook, OrderBook.release, AList.lookup_erase_ne hne]
      exact ⟨hissued, hfresh⟩
  | take sub po rest _ hbook =>
      rw [hbook]
      exact ⟨hissued, hfresh⟩
  | issue sub po p _ hbook =>
      rw [hbook]
      exact ⟨OrderBook.issued_issue hissued, hfresh⟩
  | store sub stored po hbook =>
      have hne : oid ≠ stored := by
        rintro rfl
        exact hapart.stores oid rfl hstores
      rw [hbook, OrderBook.store, AList.lookup_insert_ne hne]
      exact ⟨hissued, hfresh⟩

private theorem carried_bystander (hmove : SlotMove oms phase oms') (h : oms.book.Exclusive)
    (hvalid : phase.Valid oms) (hother : other.Valid oms)
    (hleaves : ∀ po, phase.releases oms = some po →
      other.carries.map (fun carried => carried.2.1) ≠ some po)
    {oid : Str} {po : Fin poolSize} {named : Order}
    (hcarries : other.carries = some (oid, po, named)) :
    oms'.book.orders.lookup oid = some po ∧
      (oms'.slot po).order.identity = named.identity := by
  obtain ⟨hheld, hnamed⟩ := hother.carried oid po named hcarries
  cases hmove with
  | quiet _ hbook hslot =>
      rw [hbook]
      exact ⟨hheld, (hslot po).trans hnamed⟩
  | release released slot hreleases hlookup hbook hslot =>
      have hne : oid ≠ released := by
        rintro rfl
        cases hlookup.symm.trans hheld
        exact hleaves po hreleases (by rw [hcarries]; rfl)
      rw [hbook, OrderBook.release, AList.lookup_erase_ne hne]
      exact ⟨hheld, (hslot po).trans hnamed⟩
  | take sub taken rest hfree hbook hslot =>
      have hne : po ≠ taken := by
        rintro rfl
        exact h.notMem_freeList hheld (hfree ▸ List.mem_cons_self)
      rw [hbook, hslot, Function.update_of_ne hne]
      exact ⟨hheld, hnamed⟩
  | issue sub taken p _ hbook hslot =>
      have hne : po ≠ taken := by
        rintro rfl
        exact hvalid.reserved po rfl (mem_values_of_lookup hheld)
      rw [hbook, hslot, Function.update_of_ne hne]
      exact ⟨hheld, hnamed⟩
  | store sub stored slot hbook hslot =>
      obtain ⟨-, hfresh⟩ := hvalid.stored stored rfl
      have hne : oid ≠ stored := by
        rintro rfl
        simp [hfresh] at hheld
      rw [hbook, hslot, OrderBook.store, AList.lookup_insert_ne hne]
      exact ⟨hheld, hnamed⟩

theorem valid_bystander (hmove : SlotMove oms phase oms') (h : oms.book.Exclusive)
    (hvalid : phase.Valid oms) (hother : other.Valid oms) (hapart : phase.Apart other)
    (hleaves : ∀ po, phase.releases oms = some po →
      other.carries.map (fun carried => carried.2.1) ≠ some po) : other.Valid oms' where
  reserved _ hreserves := reserved_bystander hmove hvalid hother hapart hreserves
  stored _ hstores := stored_bystander hmove hother hapart hstores
  carried _ _ _ hcarries := carried_bystander hmove h hvalid hother hleaves hcarries
  built := hother.built

end Keeps

theorem valid_of_none {oms : OrderManagementSystem poolSize} {phase : Phase poolSize}
    (hreserves : phase.reserves = none) (hstores : phase.stores = none)
    (hcarries : phase.carries = none) (hbuilt : phase.built = none) : phase.Valid oms := by
  constructor <;> simp [hreserves, hstores, hcarries, hbuilt]

theorem valid_enterFill (oms : OrderManagementSystem poolSize) (epoch : Nat) (d : Delivery) :
    (enterFill epoch d : Phase poolSize).Valid oms := by
  unfold enterFill
  split <;> exact valid_of_none rfl rfl rfl rfl

theorem valid_start (oms : OrderManagementSystem poolSize) (epoch : Nat) (c : OmsCall) :
    (start epoch c : Phase poolSize).Valid oms := by
  cases c with
  | onFill report nowNs => exact valid_enterFill oms epoch _
  | _ => exact valid_of_none rfl rfl rfl rfl

/-- The stepping thread can rely on what its step left behind. -/
theorem valid_act (s : SharedOms poolSize) {phase : Phase poolSize}
    (h : s.oms.book.Exclusive) (hfits : ∀ po, (s.oms.slot po).order.Fits)
    (hvalid : phase.Valid s.oms) : (phase.act s).2.Valid (phase.act s).1.oms := by
  cases phase with
  | acquiring sub =>
      cases hfree : s.oms.pool.freeList with
      | nil =>
          simp only [act, OrderPool.acquire_of_nil hfree]
          exact valid_of_none rfl rfl rfl rfl
      | cons po rest =>
          simp only [act, OrderPool.acquire_of_cons hfree]
          refine ⟨fun po' hreserves => ?_, by simp [stores], by simp [carries], by simp [built]⟩
          cases hreserves
          exact (OrderBook.exclusive_take h hfree).2
  | populating sub po =>
      refine ⟨fun po' hreserves => ?_, fun oid hstores => ?_, by simp [act, carries],
        by simp [act, built]⟩
      · cases hreserves
        exact hvalid.reserved po rfl
      · cases hstores
        exact ⟨⟨sub.tsMs, s.oms.seq, Nat.lt_succ_self _, rfl⟩, h.lookup_fresh sub.tsMs⟩
  | storing sub oid po => exact valid_of_none rfl rfl rfl rfl
  | placing sub oid =>
      rw [act]
      split
      · dsimp only
        exact valid_enterFill _ _ _
      · exact valid_of_none rfl rfl rfl rfl
  | checking d =>
      rw [act]
      split <;> exact valid_of_none rfl rfl rfl rfl
  | marking d =>
      rw [act]
      split <;> exact valid_of_none rfl rfl rfl rfl
  | looking d epoch =>
      rw [act]
      split
      · exact valid_of_none rfl rfl rfl rfl
      · rename_i oid po hfound
        refine ⟨by simp [reserves], by simp [stores], fun oid' po' named hcarries => ?_,
          by simp [built]⟩
        cases hcarries
        exact ⟨((lookupFill_eq_some s.oms).mp hfound).2, rfl⟩
  | building d epoch oid po named =>
      obtain ⟨hheld, hnamed⟩ := hvalid.carried oid po named rfl
      refine ⟨by simp [act, reserves], by simp [act, stores], fun oid' po' named' hcarries => ?_,
        fun named' fill hbuilt => ?_⟩
      · cases hcarries
        exact ⟨hheld, hnamed⟩
      · cases hbuilt
        exact names_of_identity hnamed ⟨hfits po, rfl, rfl⟩
  | cancelling oids => cases oids <;> exact valid_of_none rfl rfl rfl rfl
  | _ => exact valid_of_none rfl rfl rfl rfl

theorem lookup_of_releases {oms : OrderManagementSystem poolSize} {phase : Phase poolSize}
    (hvalid : phase.Valid oms) {po : Fin poolSize} (hreleases : phase.releases oms = some po) :
    ∃ oid, oms.book.orders.lookup oid = some po := by
  cases phase with
  | updating d epoch oid carried named fill =>
      rw [releases] at hreleases
      split at hreleases
      · cases hreleases
        exact ⟨oid, (hvalid.carried oid po named rfl).1⟩
      · simp at hreleases
  | rejecting exchangeOid reason => exact ⟨_, hreleases⟩
  | failing oid reason => exact ⟨_, hreleases⟩
  | dropping oid => exact ⟨oid, hreleases⟩
  | _ => simp [releases] at hreleases

theorem freeList_act (s : SharedOms poolSize) {phase : Phase poolSize} (hvalid : phase.Valid s.oms)
    (hbusy : ∀ sub, phase ≠ .acquiring sub) :
    (phase.act s).1.oms.pool.freeList =
      (phase.releases s.oms).toList ++ s.oms.pool.freeList := by
  have hmove := slotMove_act s hvalid
  generalize (phase.act s).1.oms = oms' at hmove ⊢
  cases hmove with
  | quiet hreleases hbook =>
      rw [hreleases]
      exact congrArg OrderBook.freeList hbook
  | release oid po hreleases _ hbook =>
      rw [hreleases]
      exact congrArg OrderBook.freeList hbook
  | take sub => exact absurd rfl (hbusy sub)
  | issue sub po p _ hbook => exact congrArg OrderBook.freeList hbook
  | store sub oid po hbook => exact congrArg OrderBook.freeList hbook

theorem faithful_act (s : SharedOms poolSize) {phase : Phase poolSize} (hvalid : phase.Valid s.oms)
    (h : ∀ entry ∈ s.history, entry.Faithful) :
    ∀ entry ∈ (phase.act s).1.history, entry.Faithful := by
  cases phase with
  | acquiring sub =>
      rw [act]
      split <;> exact h
  | placing sub oid =>
      rw [act]
      split <;> exact h
  | checking d =>
      rw [act]
      split
      · exact List.forall_mem_cons.mpr ⟨trivial, h⟩
      · exact h
  | marking d =>
      rw [act]
      split <;> exact List.forall_mem_cons.mpr ⟨trivial, h⟩
  | looking d epoch =>
      rw [act]
      split <;> exact h
  | updating d epoch oid po named fill =>
      obtain ⟨hheld, hnamed⟩ := hvalid.carried oid po named rfl
      exact List.forall_mem_cons.mpr
        ⟨⟨decide_eq_true hheld, hnamed, hvalid.built named fill rfl⟩, h⟩
  | pushing d epoch fill => exact List.forall_mem_cons.mpr ⟨trivial, h⟩
  | notifying d epoch fill => exact List.forall_mem_cons.mpr ⟨trivial, h⟩
  | cancelling oids => cases oids <;> exact h
  | _ => exact h

end Phase

structure SharedOms.Sound {poolSize : Nat} (s : SharedOms poolSize) : Prop where
  exclusive : s.oms.book.Exclusive
  fits : ∀ po, (s.oms.slot po).order.Fits
  faithful : ∀ entry ∈ s.history, entry.Faithful

namespace Phase

variable {poolSize : Nat}

theorem sound_noteRelease {s : SharedOms poolSize} (h : s.Sound) {phase : Phase poolSize}
    (hvalid : phase.Valid s.oms) : (s.noteRelease (phase.releases s.oms)).Sound := by
  cases hreleases : phase.releases s.oms with
  | none => exact h
  | some po =>
      obtain ⟨oid, hlookup⟩ := lookup_of_releases hvalid hreleases
      refine ⟨h.exclusive, h.fits, List.forall_mem_cons.mpr ⟨?_, h.faithful⟩⟩
      exact decide_eq_false (h.exclusive.notMem_freeList hlookup)

theorem apart_of_none {phase other : Phase poolSize} (hreserves : phase.reserves = none)
    (hstores : phase.stores = none) : phase.Apart other := by
  constructor <;> simp [hreserves, hstores]

theorem apart_enterFill (epoch : Nat) (d : Delivery) (other : Phase poolSize) :
    (enterFill epoch d).Apart other := by
  unfold enterFill
  split <;> exact apart_of_none rfl rfl

theorem apart_start (epoch : Nat) (c : OmsCall) (other : Phase poolSize) :
    (start epoch c).Apart other := by
  cases c with
  | onFill report nowNs => exact apart_enterFill epoch _ other
  | _ => exact apart_of_none rfl rfl

theorem apart_act (s : SharedOms poolSize) {phase other : Phase poolSize}
    (hother : other.Valid s.oms) (hapart : phase.Apart other) :
    (phase.act s).2.Apart other := by
  cases phase with
  | acquiring sub =>
      cases hfree : s.oms.pool.freeList with
      | nil =>
          simp only [act, OrderPool.acquire_of_nil hfree]
          exact apart_of_none rfl rfl
      | cons po rest =>
          simp only [act, OrderPool.acquire_of_cons hfree]
          refine ⟨fun po' hreserves hreserves' => ?_, by simp [stores]⟩
          cases hreserves
          have hmem : po ∈ s.oms.pool.freeList := by
            rw [hfree]
            exact List.mem_cons_self
          exact hother.reserved po hreserves' (List.mem_append_left _ hmem)
  | populating sub po =>
      refine ⟨fun po' hreserves => hapart.reserves po' hreserves, fun oid hstores hstores' => ?_⟩
      cases hstores
      exact absurd (hother.stored _ hstores').1 (OrderBook.not_issued_next _ _)
  | placing sub oid =>
      rw [act]
      split
      · dsimp only
        exact apart_enterFill _ _ other
      · exact apart_of_none rfl rfl
  | checking d =>
      rw [act]
      split <;> exact apart_of_none rfl rfl
  | marking d =>
      rw [act]
      split <;> exact apart_of_none rfl rfl
  | looking d epoch =>
      rw [act]
      split <;> exact apart_of_none rfl rfl
  | cancelling oids => cases oids <;> exact apart_of_none rfl rfl
  | _ => exact apart_of_none rfl rfl

theorem preserved_pointers :
    Interleaving.Preserved (@next poolSize) LeavesPointer SharedOms.Sound
      (fun s phase => phase.Valid s.oms) Apart where
  symm := fun _ _ h =>
    ⟨fun po h₁ h₂ => h.reserves po h₂ h₁, fun oid h₁ h₂ => h.stores oid h₂ h₁⟩
  shared := by
    intro s phase input h hvalid
    cases input with
    | call c => cases phase <;> exact h
    | resume =>
        have hnoted := sound_noteRelease h hvalid
        have hsame := s.oms_noteRelease (phase.releases s.oms)
        rw [← hsame] at hvalid
        have hmove := slotMove_act _ hvalid
        exact ⟨exclusive_move hmove hnoted.exclusive hvalid, fits_move hmove hnoted.fits,
          faithful_act _ hvalid hnoted.faithful⟩
  own := by
    intro s phase input h hvalid
    cases input with
    | call c =>
        cases phase with
        | idle => exact valid_start s.oms s.epoch c
        | _ => exact hvalid
    | resume =>
        have hnoted := sound_noteRelease h hvalid
        rw [← s.oms_noteRelease (phase.releases s.oms)] at hvalid
        exact valid_act _ hnoted.exclusive hnoted.fits hvalid
  bystander := by
    intro s phase input other h hvalid hother hapart hleaves
    cases input with
    | call c =>
        cases phase with
        | idle => exact ⟨hother, apart_start s.epoch c other⟩
        | _ => exact ⟨hother, hapart⟩
    | resume =>
        have hnoted := sound_noteRelease h hvalid
        have hsame := s.oms_noteRelease (phase.releases s.oms)
        have hnotedValid : phase.Valid (s.noteRelease (phase.releases s.oms)).oms := by
          rwa [hsame]
        have hmove := slotMove_act _ hnotedValid
        rw [hsame] at hmove
        refine ⟨valid_bystander hmove h.exclusive hvalid hother hapart hleaves, ?_⟩
        exact apart_act _ (by rwa [hsame]) hapart

end Phase

namespace OmsThreads

variable {Thread : Type*} [DecidableEq Thread] {poolSize : Nat}

/-- In a run in which no step gives back a slot whose pointer another thread carries, every
credit goes to the order that was looked up and no slot is released twice. -/
theorem fills_credit_the_order_looked_up (paperMode : Bool)
    (events : List (Thread × ThreadInput))
    (hleaves : Run.Along step (Interleaving.Guarded Phase.LeavesPointer)
      (init Thread poolSize paperMode) events) (k : Nat) :
    let s := (Run.run step (init Thread poolSize paperMode) (events.take k)).shared
    s.oms.pool.freeList.Nodup ∧ ∀ entry ∈ s.history, entry.Faithful := by
  have hstart : Interleaving.Consistent SharedOms.Sound (fun s phase => phase.Valid s.oms)
      Phase.Apart (init Thread poolSize paperMode) := by
    refine ⟨⟨(partitioned_init poolSize paperMode).toExclusive, fun _ => rfl, by simp [init]⟩,
      fun _ => Phase.valid_of_none rfl rfl rfl rfl, fun _ _ _ => Phase.apart_of_none rfl rfl⟩
  have halways := Interleaving.always_consistent Phase.preserved_pointers hstart hleaves
  have h := ((Run.always_iff_take step _ _ events).mp halways k).shared
  exact ⟨h.exclusive.nodup_freeList, h.faithful⟩

theorem fills_credit_the_order_two_threads :
    let oid := orderId 0 0
    let report := { exchangeOid := ['E'], price := 100, quantity := 10, tradeId := ['T'] }
    let events := [(true, .call (.submit { instrumentToken := 1, quantity := 10 } 0 0 0)),
      (true, .resume), (true, .resume), (true, .resume), (true, .resume),
      (true, .call (.onOrderAck ['E'] oid)), (true, .resume), (true, .call (.onFill report 0)),
      (true, .resume), (true, .resume), (true, .resume), (true, .resume), (true, .resume),
      (false, .call (.onReject ['E'] [])), (false, .resume)]
    ∀ entry ∈ (Run.run step (init Bool 1 false) (events.take 15)).shared.history,
      entry.Faithful :=
  (fills_credit_the_order_looked_up false _ (by decide +kernel) 15).2

/-- Between the two sections of a fill for the order of `A`, the order is rejected and its
slot goes to a new order of `B`: the fill is added to the order of `B`. -/
theorem stale_pointer_credits_the_next_order :
    let reqA := { instrumentToken := 1, quantity := 10, strategyId := ['A'] }
    let reqB := { instrumentToken := 2, side := .sell, quantity := 7, strategyId := ['B'] }
    let report := { exchangeOid := ['E'], price := 100, quantity := 4, tradeId := ['T'] }
    let s := (Run.run step (init Bool 1 false) [(true, .call (.submit reqA 0 0 0)),
      (true, .resume), (true, .resume), (true, .resume), (true, .resume),
      (true, .call (.onOrderAck ['E'] (orderId 0 0))), (true, .resume),
      (true, .call (.onFill report 0)), (true, .resume), (true, .resume), (true, .resume),
      (true, .resume), (false, .call (.onReject ['E'] [])), (false, .resume),
      (false, .call (.submit reqB 0 0 0)), (false, .resume), (false, .resume), (false, .resume),
      (false, .resume), (true, .resume)]).shared
    s.oms.orders.lookup (orderId 0 1) = some 0 ∧ (s.oms.slot 0).order.strategyId = ['B'] ∧
      (s.oms.slot 0).order.filledQty = 4 ∧ ¬∀ entry ∈ s.history, entry.Faithful := by
  refine ⟨?_, ?_, ?_, ?_⟩ <;> decide +kernel

end OmsThreads

end QuantForge
