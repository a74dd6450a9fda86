import QuantForge.Oms.BookMoves

/-! `cancel_all_open` section by section: it collects the ids of the orders that are open, then
cancels them one at a time, and any other call of the system may run between two of its sections.
`requested` lists the cancel requests that it sent, by order and exchange id; no step reads it. -/
namespace QuantForge

open Library OrderStateMachine

theorem PooledOrder.Fillable.applyFill {p : PooledOrder} (h : p.Fillable) {f : Fill}
    (hunfinished : (p.applyFill f).Unfinished) : (p.applyFill f).Fillable := by
  have hcurrent : (p.applyFill f).sm.current =
      if isLegal p.sm.current (p.order.credit f).fillTarget then (p.order.credit f).fillTarget
      else p.sm.current := transition_current p.sm (p.order.credit f).fillTarget
  unfold Unfinished isTerminal at hunfinished
  unfold Fillable
  rw [hcurrent] at hunfinished ⊢
  obtain hopen | hpartly := h <;>
    obtain htarget | htarget := PooledOrder.fillTarget_eq (p.order.credit f) <;>
    simp_all [isLegal]

theorem PooledOrder.Fillable.ne_pending {p : PooledOrder} (h : p.Fillable) :
    p.sm.current ≠ .pending := by
  obtain hopen | hpartly := h
  · rw [hopen]
    decide
  · rw [hpartly]
    decide

namespace OrderManagementSystem

variable {poolSize : Nat}

def FreshAck (oms : OrderManagementSystem poolSize) : OmsCall → Prop
  | .onOrderAck e oid => e ≠ [] ∧ oms.linkOf e = none ∧ ∀ e', oms.linkOf e' ≠ some oid
  | _ => True

/-- Every acknowledged order has one exchange id, and it is not empty. -/
structure LinksOnce (oms : OrderManagementSystem poolSize) : Prop extends LinksAcked oms where
  nonempty : ∀ e oid, oms.linkOf e = some oid → e ≠ []
  once : ∀ e e' oid, oms.linkOf e = some oid → oms.linkOf e' = some oid → e = e'
  linked : ∀ oid p, oms.recordOf oid = some p → p.sm.current ≠ .pending →
    ∃ e, oms.linkOf e = some oid

variable {oms : OrderManagementSystem poolSize} {after : OrderManagementSystem poolSize}
  {call : OmsCall} {oid : Str}

private theorem linkOf_of_move (hmove : oms.BookMove call after) {e : Str}
    (hlink : after.linkOf e = some oid) : oms.linkOf e = some oid ∨ call = .onOrderAck e oid := by
  cases hmove with
  | same _ hlinks => exact .inl (hlinks ▸ hlink)
  | place _ _ _ _ _ hlinks => exact .inl (hlinks ▸ hlink)
  | acknowledge e' oid' p hcall _ _ hlinks =>
      rw [hlinks] at hlink
      by_cases heq : e = e'
      · rw [heq, Function.update_self] at hlink
        cases hlink
        exact .inr (heq ▸ hcall)
      · rw [Function.update_of_ne heq] at hlink
        exact .inl hlink
  | fill _ _ _ _ _ hlinks => exact .inl (hlinks ▸ hlink)
  | leave _ _ _ _ hlinks => exact .inl (of_update_none (hlinks ▸ hlink))
  | drop _ _ hlinks => exact .inl (hlinks ▸ hlink)

theorem linkOf_kept (hfresh : oms.FreshAck call) (hmove : oms.BookMove call after)
    (hrecord : after.recordOf oid ≠ none) {e : Str} (hlink : oms.linkOf e = some oid) :
    after.linkOf e = some oid := by
  cases hmove with
  | same _ hlinks => exact hlinks ▸ hlink
  | place _ _ _ _ _ hlinks => exact hlinks ▸ hlink
  | acknowledge e' oid' p hcall _ _ hlinks =>
      subst hcall
      have hne : e ≠ e' := by
        rintro rfl
        exact absurd (hfresh.2.1.symm.trans hlink) (Option.some_ne_none oid).symm
      rw [hlinks, Function.update_of_ne hne]
      exact hlink
  | fill _ _ _ _ _ hlinks => exact hlinks ▸ hlink
  | leave e' oid' hlinked hrecords hlinks =>
      rw [hrecords] at hrecord
      have hkept := (Dict.update_none_ne_none.mp hrecord).1
      have hne : e ≠ e' := by
        rintro rfl
        rw [hlink] at hlinked
        obtain hsame | hnone := hlinked
        · exact hkept (Option.some.inj hsame)
        · exact absurd hnone (Option.some_ne_none oid)
      rw [hlinks, Function.update_of_ne hne]
      exact hlink
  | drop _ _ hlinks => exact hlinks ▸ hlink

private theorem recordOf_of_move (hmove : oms.BookMove call after) {p : PooledOrder}
    (hrecord : after.recordOf oid = some p) (hmoved : p.sm.current ≠ .pending) :
    (∃ p', oms.recordOf oid = some p' ∧ p'.sm.current ≠ .pending) ∨
      ∃ e, after.linkOf e = some oid := by
  cases hmove with
  | same hrecords _ => exact .inl ⟨p, hrecords ▸ hrecord, hmoved⟩
  | place new p' _ hpending hrecords _ =>
      rw [hrecords] at hrecord
      by_cases heq : oid = new
      · rw [heq, Function.update_self] at hrecord
        cases hrecord
        exact absurd hpending hmoved
      · rw [Function.update_of_ne heq] at hrecord
        exact .inl ⟨p, hrecord, hmoved⟩
  | acknowledge e oid' p' _ _ hrecords hlinks =>
      rw [hrecords] at hrecord
      by_cases heq : oid = oid'
      · refine .inr ⟨e, ?_⟩
        rw [hlinks, Function.update_self, heq]
      · rw [Function.update_of_ne heq] at hrecord
        exact .inl ⟨p, hrecord, hmoved⟩
  | fill oid' p' f hrecord' hrecords _ =>
      rw [hrecords] at hrecord
      by_cases heq : oid = oid'
      · rw [heq, Function.update_self] at hrecord
        cases hrecord
        rw [Ne, p'.current_applyFill_iff] at hmoved
        exact .inl ⟨p', heq ▸ hrecord', hmoved⟩
      · rw [Function.update_of_ne heq] at hrecord
        exact .inl ⟨p, hrecord, hmoved⟩
  | leave _ _ _ hrecords _ => exact .inl ⟨p, of_update_none (hrecords ▸ hrecord), hmoved⟩
  | drop _ hrecords _ => exact .inl ⟨p, of_update_none (hrecords ▸ hrecord), hmoved⟩

private theorem LinksOnce.move (h : oms.LinksOnce) (hafter : after.LinksAcked)
    (hfresh : oms.FreshAck call) (hmove : oms.BookMove call after) : after.LinksOnce where
  toLinksAcked := hafter
  nonempty e oid hlink := by
    obtain hbefore | rfl := linkOf_of_move hmove hlink
    · exact h.nonempty e oid hbefore
    · exact hfresh.1
  once e e' oid hlink hlink' := by
    obtain hbefore | rfl := linkOf_of_move hmove hlink
    · obtain hbefore' | rfl := linkOf_of_move hmove hlink'
      · exact h.once e e' oid hbefore hbefore'
      · exact absurd hbefore (hfresh.2.2 e)
    · obtain hbefore' | heq := linkOf_of_move hmove hlink'
      · exact absurd hbefore' (hfresh.2.2 e')
      · exact (OmsCall.onOrderAck.inj heq).1
  linked oid p hrecord hmoved := by
    obtain ⟨p', hrecord', hmoved'⟩ | hlinked := recordOf_of_move hmove hrecord hmoved
    · obtain ⟨e, hlink⟩ := h.linked oid p' hrecord' hmoved'
      exact ⟨e, linkOf_kept hfresh hmove (hrecord ▸ Option.some_ne_none p) hlink⟩
    · exact hlinked

private theorem FreshAck.before {before : OrderManagementSystem poolSize}
    (h : oms.FreshAck call) (hsame : ∀ e oid, call = .onOrderAck e oid → before = oms) :
    before.FreshAck call := by
  cases call with
  | onOrderAck e oid =>
      rw [hsame e oid rfl]
      exact h
  | _ => trivial

theorem LinksOnce.step (h : oms.LinksOnce) (hfresh : oms.FreshAck call) :
    (oms.step call).LinksOnce :=
  step_of_moves h.toLiveBook call h fun _ _ hafter hseq hsame hmove h =>
    h.move (h.toLinksAcked.move hafter hseq hmove) (hfresh.before hsame) hmove

theorem linksOnce_init (poolSize : Nat) : (init poolSize false).LinksOnce where
  toLinksAcked := linksAcked_init poolSize
  nonempty _ _ hlink := absurd hlink (Option.some_ne_none _).symm
  once _ _ _ hlink := absurd hlink (Option.some_ne_none _).symm
  linked _ _ hrecord := absurd hrecord (Option.some_ne_none _).symm

theorem mem_cancellable_iff (oms : OrderManagementSystem poolSize) (oid : Str) :
    oid ∈ oms.cancellable ↔ ∃ p, oms.recordOf oid = some p ∧ p.Fillable := by
  unfold cancellable
  rw [List.mem_map]
  constructor
  · rintro ⟨⟨oid', po⟩, hmem, rfl⟩
    obtain ⟨hentry, hcancellable⟩ := List.mem_filter.mp hmem
    have hfillable : oms.Cancellable po := of_decide_eq_true hcancellable
    exact ⟨oms.slot po, recordOf_of_lookup (Dict.lookup_of_mem hentry), hfillable⟩
  · rintro ⟨p, hrecord, hfillable⟩
    obtain ⟨po, hlookup, rfl⟩ := recordOf_eq_some.mp hrecord
    have hcancellable : oms.Cancellable po := hfillable
    exact ⟨⟨oid, po⟩, List.mem_filter.mpr ⟨Dict.mem_of_lookup hlookup,
      decide_eq_true hcancellable⟩, rfl⟩

theorem cancel_of_linked {p : PooledOrder} (hrecord : oms.recordOf oid = some p)
    (hfillable : p.Fillable) (hlinked : oms.exchangeOidOf oid ≠ []) :
    oms.cancel oid = (true, oms.record (.cancelOrder (oms.exchangeOidOf oid))) := by
  obtain ⟨po, hlookup, rfl⟩ := recordOf_eq_some.mp hrecord
  have hcancellable : oms.Cancellable po := hfillable
  unfold cancel
  rw [hlookup]
  dsimp only
  rw [if_neg (not_not.mpr hcancellable), if_neg hlinked]

end OrderManagementSystem

open OrderManagementSystem

structure Sweep (poolSize : Nat) where
  oms : OrderManagementSystem poolSize
  oids : List Str
  requested : List (Str × Str) := []

inductive SweepEvent where
  | call (c : OmsCall)
  | cancelNext

namespace Sweep

variable {poolSize : Nat}

def collect (oms : OrderManagementSystem poolSize) : Sweep poolSize where
  oms := oms
  oids := oms.cancellable

def cancelNext (s : Sweep poolSize) : Sweep poolSize :=
  match s.oids with
  | [] => s
  | oid :: oids =>
      { oms := (s.oms.cancel oid).2
        oids
        requested :=
          if (s.oms.cancel oid).1 then (oid, s.oms.exchangeOidOf oid) :: s.requested
          else s.requested }

def step (s : Sweep poolSize) : SweepEvent → Sweep poolSize
  | .call c => { s with oms := s.oms.step c }
  | .cancelNext => s.cancelNext

def FreshAck (s : Sweep poolSize) : SweepEvent → Prop
  | .call c => s.oms.FreshAck c
  | .cancelNext => True

theorem oms_run_cancelNext (s : Sweep poolSize) :
    (Run.run step s (List.replicate s.oids.length .cancelNext)).oms =
      s.oids.foldl (fun oms oid => (oms.cancel oid).2) s.oms := by
  obtain ⟨oms, oids, requested⟩ := s
  induction oids generalizing oms requested with
  | nil => rfl
  | cons oid oids ih => exact ih (oms.cancel oid).2 _

theorem oms_collect_run (oms : OrderManagementSystem poolSize) :
    (Run.run step (collect oms) (List.replicate oms.cancellable.length .cancelNext)).oms =
      oms.cancelAllOpen :=
  (collect oms).oms_run_cancelNext

/-- The order was open when it was collected: it is still to be cancelled, or it was. -/
structure Collected (oid : Str) (s : Sweep poolSize) : Prop where
  links : s.oms.LinksOnce
  issued : s.oms.book.Issued oid
  served : ∀ p, s.oms.recordOf oid = some p → p.Fillable ∧
    (oid ∈ s.oids ∨ ∃ e, s.oms.linkOf e = some oid ∧ (oid, e) ∈ s.requested)

structure Overlooked (oid : Str) (s : Sweep poolSize) : Prop where
  oids : oid ∉ s.oids
  requested : ∀ e, (oid, e) ∉ s.requested

variable {oid : Str} {s : Sweep poolSize}

private theorem served_move {before after : OrderManagementSystem poolSize} {c : OmsCall}
    (h : before.LinksOnce) (hissued : before.book.Issued oid) (hafter : after.LiveBook)
    (hfresh : before.FreshAck c) (hmove : before.BookMove c after) {p : PooledOrder}
    (hrecord : after.recordOf oid = some p)
    (hfillable : ∀ p', before.recordOf oid = some p' → p'.Fillable) :
    p.Fillable ∧ before.recordOf oid ≠ none := by
  cases hmove with
  | same hrecords _ =>
      rw [hrecords] at hrecord
      exact ⟨hfillable p hrecord, hrecord ▸ Option.some_ne_none p⟩
  | place new p' hnew _ hrecords _ =>
      have hne : oid ≠ new := fun heq => hnew (heq ▸ hissued)
      rw [hrecords, Function.update_of_ne hne] at hrecord
      exact ⟨hfillable p hrecord, hrecord ▸ Option.some_ne_none p⟩
  | acknowledge e oid' p' hcall hrecord' hrecords _ =>
      subst hcall
      have hne : oid ≠ oid' := by
        rintro rfl
        obtain ⟨e', hlink⟩ := h.linked oid p' hrecord' (hfillable p' hrecord').ne_pending
        exact hfresh.2.2 e' hlink
      rw [hrecords, Function.update_of_ne hne] at hrecord
      exact ⟨hfillable p hrecord, hrecord ▸ Option.some_ne_none p⟩
  | fill oid' p' f hrecord' hrecords _ =>
      have hunfinished := hafter.unfinished hrecord
      rw [hrecords] at hrecord
      by_cases heq : oid = oid'
      · rw [heq, Function.update_self] at hrecord
        cases hrecord
        subst heq
        exact ⟨(hfillable p' hrecord').applyFill hunfinished, hrecord' ▸ Option.some_ne_none p'⟩
      · rw [Function.update_of_ne heq] at hrecord
        exact ⟨hfillable p hrecord, hrecord ▸ Option.some_ne_none p⟩
  | leave _ _ _ hrecords _ =>
      have hkept := of_update_none (hrecords ▸ hrecord)
      exact ⟨hfillable p hkept, hkept ▸ Option.some_ne_none p⟩
  | drop _ hrecords _ =>
      have hkept := of_update_none (hrecords ▸ hrecord)
      exact ⟨hfillable p hkept, hkept ▸ Option.some_ne_none p⟩

private theorem Collected.move (h : s.Collected oid) {after : OrderManagementSystem poolSize}
    {c : OmsCall} (hafter : after.LinksOnce) (hseq : s.oms.seq ≤ after.seq)
    (hfresh : s.oms.FreshAck c) (hmove : s.oms.BookMove c after) :
    Collected oid { s with oms := after } where
  links := hafter
  issued := h.issued.of_seq_le hseq
  served p hrecord := by
    obtain ⟨hfillable, hheld⟩ := served_move h.links h.issued hafter.toLiveBook hfresh hmove
      hrecord fun p' hrecord' => (h.served p' hrecord').1
    refine ⟨hfillable, ?_⟩
    obtain ⟨p', hrecord'⟩ := Option.ne_none_iff_exists'.mp hheld
    obtain hqueued | ⟨e, hlink, hrequested⟩ := (h.served p' hrecord').2
    · exact Or.inl hqueued
    · exact Or.inr ⟨e, linkOf_kept hfresh hmove (hrecord ▸ Option.some_ne_none p) hlink,
        hrequested⟩

private theorem Collected.cancelNext (h : s.Collected oid) : s.cancelNext.Collected oid := by
  unfold Sweep.cancelNext
  cases hoids : s.oids with
  | nil => exact h
  | cons next oids =>
      obtain ⟨hrecords, hlinks⟩ : (s.oms.cancel next).2.recordOf = s.oms.recordOf ∧
          (s.oms.cancel next).2.linkOf = s.oms.linkOf := maps_cancel
      have hfresh : s.oms.FreshAck (.cancel next) := trivial
      refine ⟨h.links.step hfresh, ?_, fun p hrecord => ?_⟩
      · rw [book_cancel]
        exact h.issued
      · dsimp only at hrecord ⊢
        rw [hrecords] at hrecord
        obtain ⟨hfillable, hserved⟩ := h.served p hrecord
        rw [hoids] at hserved
        refine ⟨hfillable, ?_⟩
        rw [hlinks]
        by_cases hnext : oid = next
        · -- its turn: the order has an id, and the request goes out
          subst hnext
          right
          obtain ⟨e, hlink⟩ := h.links.linked oid p hrecord hfillable.ne_pending
          have hfound : s.oms.linkOf (s.oms.exchangeOidOf oid) = some oid := by
            obtain ⟨-, hnone⟩ | hfound := exchangeOidOf_cases s.oms oid
            · exact absurd hlink (hnone e)
            · exact hfound
          rw [cancel_of_linked hrecord hfillable (h.links.nonempty _ oid hfound), if_pos rfl]
          exact ⟨_, hfound, List.mem_cons_self⟩
        · obtain hqueued | ⟨e, hlink, hrequested⟩ := hserved
          · exact Or.inl ((List.mem_cons.mp hqueued).resolve_left hnext)
          · refine Or.inr ⟨e, hlink, ?_⟩
            split
            · exact List.mem_cons_of_mem _ hrequested
            · exact hrequested

theorem Collected.step (h : s.Collected oid) {event : SweepEvent} (hfresh : s.FreshAck event) :
    (s.step event).Collected oid := by
  cases event with
  | call c =>
      refine step_of_moves (P := fun oms => Collected oid { s with oms := oms })
        h.links.toLiveBook c h fun before after hafter hseq hsame hmove h => ?_
      have hfresh' : before.FreshAck c := OrderManagementSystem.FreshAck.before hfresh hsame
      have hlinks := h.links.move (h.links.toLinksAcked.move hafter hseq hmove) hfresh' hmove
      exact h.move hlinks hseq hfresh' hmove
  | cancelNext => exact h.cancelNext

theorem Overlooked.step (h : s.Overlooked oid) (event : SweepEvent) :
    (s.step event).Overlooked oid := by
  cases event with
  | call c => exact ⟨h.oids, h.requested⟩
  | cancelNext =>
      change s.cancelNext.Overlooked oid
      unfold Sweep.cancelNext
      cases hoids : s.oids with
      | nil => exact h
      | cons next oids =>
          have hnotmem := hoids ▸ h.oids
          have hne := List.ne_of_not_mem_cons hnotmem
          refine ⟨List.not_mem_of_not_mem_cons hnotmem, fun e hmem => ?_⟩
          dsimp only at hmem
          split at hmem
          · obtain heq | hold := List.mem_cons.mp hmem
            · exact hne (Prod.mk.inj heq).1
            · exact h.requested e hold
          · exact h.requested e hmem

/-- Whatever runs before the sweep and between its sections: once every collected id has had its
turn, an order that is in `orders_` under an exchange id has had a cancel request for this id
exactly when it was open or partially filled at the collection. -/
theorem sweep_requests_iff {before : List OmsCall}
    (hbefore : Run.Along OrderManagementSystem.step OrderManagementSystem.FreshAck
      (init poolSize false) before)
    {events : List SweepEvent}
    (hevents : Run.Along step FreshAck
      (collect (Run.run OrderManagementSystem.step (init poolSize false) before)) events)
    (hdone : (Run.run step
      (collect (Run.run OrderManagementSystem.step (init poolSize false) before)) events).oids = [])
    {oid e : Str} :
    let start := Run.run OrderManagementSystem.step (init poolSize false) before
    let swept := Run.run step (collect start) events
    swept.oms.recordOf oid ≠ none → swept.oms.linkOf e = some oid →
      ((oid, e) ∈ swept.requested ↔ ∃ p, start.recordOf oid = some p ∧ p.Fillable) := by
  intro start swept hlive hlink
  have hlinks : start.LinksOnce :=
    Run.run_of_along LinksOnce (fun _ _ h hfresh => h.step hfresh) (linksOnce_init poolSize) hbefore
  rw [← mem_cancellable_iff]
  constructor
  · intro hrequested
    by_contra hoverlooked
    have hstart : (collect start).Overlooked oid := ⟨hoverlooked, fun _ => List.not_mem_nil⟩
    exact (Run.run_invariant (Overlooked oid) (fun _ event h => h.step event) hstart
      events).requested e hrequested
  · intro hcollected
    have hstart : (collect start).Collected oid := by
      obtain ⟨p, hrecord, hfillable⟩ := (mem_cancellable_iff start oid).mp hcollected
      refine ⟨hlinks, hlinks.toLiveBook.issued hrecord, fun p' hrecord' => ?_⟩
      cases hrecord.symm.trans hrecord'
      exact ⟨hfillable, Or.inl hcollected⟩
    have hswept : swept.Collected oid :=
      Run.run_of_along (Collected oid) (fun _ _ h hfresh => h.step hfresh) hstart hevents
    obtain ⟨p, hrecord⟩ := Option.ne_none_iff_exists'.mp hlive
    obtain hqueued | ⟨e', hlink', hrequested⟩ := (hswept.served p hrecord).2
    · rw [show swept.oids = [] from hdone] at hqueued
      exact absurd hqueued List.not_mem_nil
    · rwa [hswept.links.once e e' oid hlink hlink']

def placedTen : List OmsCall := [.submit { instrumentToken := 1, quantity := 10 } 0 0 0]

private theorem freshAck_placedTen :
    Run.Along OrderManagementSystem.step OrderManagementSystem.FreshAck (init 1 false)
      (placedTen ++ [.onOrderAck ['E'] (orderId 0 0)]) :=
  ⟨trivial, ⟨List.cons_ne_nil _ _, rfl, fun _ => nofun⟩, trivial⟩

theorem sweep_requests_open :
    let start := Run.run OrderManagementSystem.step (init 1 false)
      (placedTen ++ [.onOrderAck ['E'] (orderId 0 0)])
    let swept := Run.run step (collect start)
      [.call (.onFill ⟨['E'], 100, 2, []⟩ 0), .cancelNext]
    (orderId 0 0, ['E']) ∈ swept.requested := by
  intro start swept
  have hevents : Run.Along step FreshAck (collect start)
      [.call (.onFill ⟨['E'], 100, 2, []⟩ 0), .cancelNext] := ⟨trivial, trivial, trivial⟩
  refine (sweep_requests_iff freshAck_placedTen hevents ?_ ?_ ?_).mpr ?_
  · decide +kernel
  · apply Option.isSome_iff_ne_none.mp
    decide +kernel
  · decide +kernel
  · apply (mem_cancellable_iff _ _).mp
    decide +kernel

/-- The acknowledgement arrives right after the collection: the order is open at the exchange and
the sweep ends without a request for it. -/
theorem sweep_misses_late_ack :
    let start := Run.run OrderManagementSystem.step (init 1 false) placedTen
    let swept := Run.run step (collect start) [.call (.onOrderAck ['E'] (orderId 0 0))]
    Run.Along step FreshAck (collect start) [.call (.onOrderAck ['E'] (orderId 0 0))] ∧
      (start.recordOf (orderId 0 0)).isSome ∧ (swept.oms.recordOf (orderId 0 0)).isSome ∧
      swept.oms.linkOf ['E'] = some (orderId 0 0) ∧ swept.oids = [] ∧ swept.requested = [] := by
  refine ⟨⟨⟨List.cons_ne_nil _ _, rfl, fun _ => nofun⟩, trivial⟩, ?_⟩
  decide +kernel

end Sweep

end QuantForge
