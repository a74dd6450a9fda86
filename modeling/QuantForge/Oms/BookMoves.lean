import QuantForge.Oms.LiveBook

/-! What a call of the live mode can do to the records and to the links, said once. The failure
callback of `submit` makes two such moves, every other call makes one. -/
namespace QuantForge

open Library OrderStateMachine

theorem PooledOrder.current_moveTo_opened (p : PooledOrder) :
    (p.moveTo .opened).sm.current ≠ .pending := by
  change ((p.sm.transition .opened).2).current ≠ .pending
  rw [transition_current]
  split
  · decide
  · rename_i hillegal
    intro hpending
    rw [hpending] at hillegal
    exact hillegal rfl

theorem PooledOrder.current_applyFill_iff (p : PooledOrder) (f : Fill) :
    (p.applyFill f).sm.current = .pending ↔ p.sm.current = .pending := by
  change ((p.sm.transition (p.order.credit f).fillTarget).2).current = .pending ↔ _
  rw [transition_current]
  obtain htarget | htarget := PooledOrder.fillTarget_eq (p.order.credit f) <;> rw [htarget]
  · cases p.sm.current <;> decide
  · cases p.sm.current <;> decide

namespace OrderManagementSystem

variable {poolSize : Nat}

inductive BookMove (oms : OrderManagementSystem poolSize) (call : OmsCall)
    (after : OrderManagementSystem poolSize) : Prop
  | same (hrecords : after.recordOf = oms.recordOf) (hlinks : after.linkOf = oms.linkOf)
  | place (oid : Str) (p : PooledOrder) (hnew : ¬oms.book.Issued oid)
      (hpending : p.sm.current = .pending)
      (hrecords : after.recordOf = Function.update oms.recordOf oid (some p))
      (hlinks : after.linkOf = oms.linkOf)
  | acknowledge (e oid : Str) (p : PooledOrder) (hcall : call = .onOrderAck e oid)
      (hrecord : oms.recordOf oid = some p)
      (hrecords : after.recordOf = Function.update oms.recordOf oid (some (p.moveTo .opened)))
      (hlinks : after.linkOf = Function.update oms.linkOf e (some oid))
  | fill (oid : Str) (p : PooledOrder) (f : Fill) (hrecord : oms.recordOf oid = some p)
      (hrecords : after.recordOf = Function.update oms.recordOf oid (some (p.applyFill f)))
      (hlinks : after.linkOf = oms.linkOf)
  | leave (e oid : Str) (hlink : oms.linkOf e = some oid ∨ oms.linkOf e = none)
      (hrecords : after.recordOf = Function.update oms.recordOf oid none)
      (hlinks : after.linkOf = Function.update oms.linkOf e none)
  | drop (oid : Str) (hrecords : after.recordOf = Function.update oms.recordOf oid none)
      (hlinks : after.linkOf = oms.linkOf)

structure LiveBook (oms : OrderManagementSystem poolSize) : Prop where
  wellFormed : oms.WellFormed
  live : oms.paperMode = false

variable {oms : OrderManagementSystem poolSize}

theorem liveBook_init (poolSize : Nat) : (init poolSize false).LiveBook :=
  ⟨wellFormed_init poolSize false, rfl⟩

theorem LiveBook.step (h : oms.LiveBook) (call : OmsCall) : (oms.step call).LiveBook :=
  ⟨wellFormed_step h.wellFormed call, (issuing_step h.live call).1⟩

theorem LiveBook.onReject (h : oms.LiveBook) (exchangeOid reason : Str) :
    (oms.onReject exchangeOid reason).LiveBook :=
  ⟨wellFormed_onReject exchangeOid reason h.wellFormed,
    (congrArg Prod.fst (oms.issuing_onReject exchangeOid reason)).trans h.live⟩

theorem LiveBook.issued (h : oms.LiveBook) {oid : Str} {p : PooledOrder}
    (hrecord : oms.recordOf oid = some p) : oms.book.Issued oid :=
  issued_of_recordOf h.wellFormed.partitioned hrecord

theorem LiveBook.unfinished (h : oms.LiveBook) {oid : Str} {p : PooledOrder}
    (hrecord : oms.recordOf oid = some p) : p.Unfinished := by
  obtain ⟨po, hlookup, rfl⟩ := recordOf_eq_some.mp hrecord
  exact h.wellFormed.unfinished oid po hlookup

private theorem bookMove_submit (h : oms.LiveBook) (req : OrderRequest)
    (tsMs placedNs fillNs : Nat) :
    oms.BookMove (.submit req tsMs placedNs fillNs) (oms.submit req tsMs placedNs fillNs).2 := by
  cases hfree : oms.pool.freeList with
  | nil =>
      rw [submit_of_nil oms req tsMs placedNs fillNs hfree]
      exact .same rfl rfl
  | cons po rest =>
      obtain ⟨hrecords, hlinks⟩ := maps_submit h.wellFormed.partitioned h.live hfree req tsMs
        placedNs fillNs
      exact .place _ _ (oms.book.not_issued_next tsMs) rfl hrecords hlinks

private theorem bookMove_onOrderAck (h : oms.LiveBook) (exchangeOid internalOid : Str) :
    oms.BookMove (.onOrderAck exchangeOid internalOid)
      (oms.onOrderAck exchangeOid internalOid) := by
  cases hrecord : oms.recordOf internalOid with
  | none =>
      rw [onOrderAck_of_recordOf_none hrecord]
      exact .same rfl rfl
  | some p =>
      exact .acknowledge exchangeOid internalOid p rfl hrecord
        (recordOf_onOrderAck h.wellFormed.partitioned hrecord) (linkOf_onOrderAck hrecord)

private theorem bookMove_onFill (h : oms.LiveBook) (report : FillReport) (nowNs : Nat) :
    oms.BookMove (.onFill report nowNs) (oms.onFill report nowNs) := by
  by_cases hdiscards : oms.Discards report
  · obtain ⟨hrecords, hlinks⟩ := maps_onFill_of_discards report nowNs hdiscards
    exact .same hrecords hlinks
  · obtain ⟨hadmits, hheld⟩ := not_or.mp hdiscards
    obtain ⟨p, hrecord⟩ := Option.ne_none_iff_exists'.mp hheld
    have hrecords := recordOf_onFill report nowNs h.wellFormed.partitioned (not_not.mp hadmits)
      hrecord
    have hlinks := linkOf_onFill report nowNs (not_not.mp hadmits) hrecord
    by_cases hdone : (oms.filledRecord report nowNs p).sm.isTerminal = true
    · rw [if_pos hdone] at hrecords hlinks
      refine .leave report.exchangeOid _ ?_ hrecords hlinks
      cases hlink : oms.linkOf report.exchangeOid with
      | none => exact Or.inr rfl
      | some linked => exact Or.inl (congrArg some (resolve_of_linkOf hlink).symm)
    · rw [if_neg hdone] at hrecords hlinks
      exact .fill _ p _ hrecord hrecords hlinks

private theorem bookMove_onReject (h : oms.LiveBook) (call : OmsCall) (exchangeOid reason : Str) :
    oms.BookMove call (oms.onReject exchangeOid reason) := by
  cases hrecord : oms.recordOf (oms.rejectTarget exchangeOid) with
  | none =>
      obtain ⟨hrecords, hlinks⟩ := maps_onReject_of_none reason hrecord
      exact .same hrecords hlinks
  | some p =>
      obtain ⟨hrecords, hlinks⟩ := maps_onReject_of_some reason h.wellFormed.partitioned hrecord
      refine .leave exchangeOid _ ?_ hrecords hlinks
      cases hlink : oms.linkOf exchangeOid with
      | none => exact Or.inr rfl
      | some linked => exact Or.inl (congrArg some (rejectTarget_of_linkOf hlink).symm)

/-- A call makes one move, or it is a failed placement and makes two. -/
theorem bookMove_step (h : oms.LiveBook) (call : OmsCall) :
    oms.BookMove call (oms.step call) ∨
      ∃ oid reason, call = .placementFailed oid reason ∧
        oms.BookMove call (oms.onReject [] reason) ∧
        (oms.onReject [] reason).BookMove call (oms.step call) := by
  cases call with
  | submit req tsMs placedNs fillNs => exact .inl (bookMove_submit h req tsMs placedNs fillNs)
  | onOrderAck exchangeOid internalOid =>
      exact .inl (bookMove_onOrderAck h exchangeOid internalOid)
  | onFill report nowNs => exact .inl (bookMove_onFill h report nowNs)
  | onReject exchangeOid reason => exact .inl (bookMove_onReject h _ exchangeOid reason)
  | placementFailed dropped reason =>
      refine .inr ⟨dropped, reason, rfl, bookMove_onReject h _ [] reason, .drop dropped ?_ ?_⟩
      · exact recordOf_dropOrder (wellFormed_onReject [] reason h.wellFormed).partitioned
      · exact linkOf_dropOrder
  | cancel cancelled => exact .inl (.same maps_cancel.1 maps_cancel.2)
  | cancelAllOpen => exact .inl (.same maps_cancelAllOpen.1 maps_cancelAllOpen.2)
  | resetForEod => exact .inl (.same rfl rfl)

theorem step_of_moves {P : OrderManagementSystem poolSize → Prop} (h : oms.LiveBook)
    (call : OmsCall) (hP : P oms)
    (hmove : ∀ before after : OrderManagementSystem poolSize, after.LiveBook →
      before.seq ≤ after.seq → (∀ e oid, call = .onOrderAck e oid → before = oms) →
        before.BookMove call after → P before → P after) : P (oms.step call) := by
  have hseq := (issuing_step h.live call).2
  obtain hone | ⟨oid, reason, rfl, hreject, hdrop⟩ := bookMove_step h call
  · exact hmove oms _ (h.step call) hseq (fun _ _ _ => rfl) hone hP
  · have hissuing := oms.issuing_onReject [] reason
    have hmid := hmove oms _ (h.onReject [] reason) (congrArg Prod.snd hissuing).ge
      (fun _ _ => nofun) hreject hP
    refine hmove _ _ (h.step _) ?_ (fun _ _ => nofun) hdrop hmid
    exact (congrArg Prod.snd hissuing).trans_le hseq

/-- Ids that are linked were given out, and an order that one leads to was acknowledged. -/
structure LinksAcked (oms : OrderManagementSystem poolSize) : Prop extends LiveBook oms where
  issued : ∀ e oid, oms.linkOf e = some oid → oms.book.Issued oid
  moved : ∀ e oid p, oms.linkOf e = some oid → oms.recordOf oid = some p → p.sm.current ≠ .pending

theorem of_update_none {α : Type*} {f : Str → Option α} {dropped key : Str} {value : α}
    (h : Function.update f dropped none key = some value) : f key = some value := by
  by_cases heq : key = dropped
  · rw [heq, Function.update_self] at h
    contradiction
  · rwa [Function.update_of_ne heq] at h

private theorem LinksAcked.issued_move (h : oms.LinksAcked) {call : OmsCall}
    {after : OrderManagementSystem poolSize} (hmove : oms.BookMove call after) {e oid : Str}
    (hlink : after.linkOf e = some oid) : oms.book.Issued oid := by
  cases hmove with
  | same _ hlinks => exact h.issued e oid (hlinks ▸ hlink)
  | place _ _ _ _ _ hlinks => exact h.issued e oid (hlinks ▸ hlink)
  | acknowledge e' oid' p hcall hrecord _ hlinks =>
      rw [hlinks] at hlink
      by_cases heq : e = e'
      · rw [heq, Function.update_self] at hlink
        cases hlink
        exact h.toLiveBook.issued hrecord
      · rw [Function.update_of_ne heq] at hlink
        exact h.issued e oid hlink
  | fill _ _ _ _ _ hlinks => exact h.issued e oid (hlinks ▸ hlink)
  | leave _ _ _ _ hlinks => exact h.issued e oid (of_update_none (hlinks ▸ hlink))
  | drop _ _ hlinks => exact h.issued e oid (hlinks ▸ hlink)

private theorem LinksAcked.moved_move (h : oms.LinksAcked) {call : OmsCall}
    {after : OrderManagementSystem poolSize} (hmove : oms.BookMove call after) {e oid : Str}
    {p : PooledOrder} (hlink : after.linkOf e = some oid) (hp : after.recordOf oid = some p) :
    p.sm.current ≠ .pending := by
  cases hmove with
  | same hrecords hlinks => exact h.moved e oid p (hlinks ▸ hlink) (hrecords ▸ hp)
  | place new p' hnew _ hrecords hlinks =>
      -- the new id is linked by nothing yet
      have hissued := h.issued e oid (hlinks ▸ hlink)
      have hne : oid ≠ new := fun heq => hnew (heq ▸ hissued)
      rw [hrecords, Function.update_of_ne hne] at hp
      exact h.moved e oid p (hlinks ▸ hlink) hp
  | acknowledge e' oid' p' hcall hrecord hrecords hlinks =>
      rw [hrecords] at hp
      by_cases heq : oid = oid'
      · rw [heq, Function.update_self] at hp
        cases hp
        exact p'.current_moveTo_opened
      · rw [Function.update_of_ne heq] at hp
        have hne : e ≠ e' := by
          rintro rfl
          rw [hlinks, Function.update_self] at hlink
          exact heq (Option.some.inj hlink).symm
        rw [hlinks, Function.update_of_ne hne] at hlink
        exact h.moved e oid p hlink hp
  | fill oid' p' f hrecord hrecords hlinks =>
      rw [hrecords] at hp
      by_cases heq : oid = oid'
      · rw [heq, Function.update_self] at hp
        cases hp
        rw [Ne, p'.current_applyFill_iff]
        exact h.moved e oid' p' (heq ▸ hlinks ▸ hlink) hrecord
      · rw [Function.update_of_ne heq] at hp
        exact h.moved e oid p (hlinks ▸ hlink) hp
  | leave _ _ _ hrecords hlinks =>
      exact h.moved e oid p (of_update_none (hlinks ▸ hlink)) (of_update_none (hrecords ▸ hp))
  | drop _ hrecords hlinks =>
      exact h.moved e oid p (hlinks ▸ hlink) (of_update_none (hrecords ▸ hp))

theorem LinksAcked.move (h : oms.LinksAcked) {call : OmsCall}
    {after : OrderManagementSystem poolSize} (hafter : after.LiveBook) (hseq : oms.seq ≤ after.seq)
    (hmove : oms.BookMove call after) : after.LinksAcked where
  toLiveBook := hafter
  issued _ _ hlink := (h.issued_move hmove hlink).of_seq_le hseq
  moved _ _ _ hlink hp := h.moved_move hmove hlink hp

theorem LinksAcked.step (h : oms.LinksAcked) (call : OmsCall) : (oms.step call).LinksAcked :=
  step_of_moves h.toLiveBook call h fun _ _ hafter hseq _ hmove h => h.move hafter hseq hmove

theorem linksAcked_init (poolSize : Nat) : (init poolSize false).LinksAcked where
  toLiveBook := liveBook_init poolSize
  issued _ _ hlink := absurd hlink (Option.some_ne_none _).symm
  moved _ _ _ hlink := absurd hlink (Option.some_ne_none _).symm

end OrderManagementSystem

end QuantForge
