import QuantForge.Ems.LiveSession

/-! What is left of orders that are final. A fill or a reject takes an order out of both maps
and gives its slot back; a confirmed cancel leaves it where it was. -/
namespace QuantForge.LiveSession

open Library OrderManagementSystem

variable {poolSize : Nat}

section Sound

variable {s : LiveSession poolSize}

section Fill

variable {p : PooledOrder} {fill : Fill}

theorem current_applyFill (h : p.Fillable) :
    (p.applyFill fill).sm.current = (p.order.credit fill).fillTarget := by
  have hlive : p.Unfinished := by
    unfold PooledOrder.Unfinished OrderStateMachine.isTerminal
    obtain hopened | hpartly := h
    · rw [hopened]
      rfl
    · rw [hpartly]
      rfl
  exact ((PooledOrder.agrees_applyFill_iff hlive fill).mpr h).symm

theorem terminal_applyFill_iff (h : p.Fillable) (fill : Fill) :
    (p.applyFill fill).sm.isTerminal = true ↔
      p.order.quantity ≤ p.order.filledQty + fill.quantity := by
  rw [OrderStateMachine.isTerminal, current_applyFill h, Order.fillTarget]
  change _ ↔ (p.order.credit fill).filledQty ≥ (p.order.credit fill).quantity
  split
  · rename_i hfull
    exact iff_of_true rfl hfull
  · rename_i hopen
    exact iff_of_false (by decide) hopen

theorem fillable_applyFill (h : p.Fillable)
    (hlive : ¬(p.applyFill fill).sm.isTerminal = true) : (p.applyFill fill).Fillable := by
  right
  rw [terminal_applyFill_iff h] at hlive
  rw [current_applyFill h, Order.fillTarget]
  exact if_neg hlive

end Fill

section Events

variable {oid : Str} {o : ExchangeOrder} {report : FillReport} {nowNs : Nat}

private theorem tallies_submit (h : s.Sound) (req : OrderRequest) (tsMs placedNs fillNs : Nat)
    {po : Fin poolSize} {rest : List (Fin poolSize)} (hfree : s.oms.pool.freeList = po :: rest) :
    Tallies (Function.update s.order (orderId tsMs s.oms.seq) (some { quantity := req.quantity }))
      (s.oms.submit req tsMs placedNs fillNs).2.recordOf
      (s.oms.submit req tsMs placedNs fillNs).2.linkOf s.requested := by
  have hnew := order_new h tsMs
  obtain ⟨hrecords, hlinks⟩ := maps_submit h.wellFormed.partitioned h.live hfree req tsMs
    placedNs fillNs
  rw [hrecords, hlinks]
  apply h.tallies.update (o := some { quantity := req.quantity })
    (p := some (s.oms.newRecord req tsMs placedNs))
  · exact ⟨.inl ⟨rfl, rfl⟩, rfl, rfl⟩
  · refine ⟨?_, fun hmem => ?_, ?_⟩
    · intro order horder _
      cases horder
      rfl
    · obtain ⟨e, he, -⟩ := (h.tallies.sound _).asked hmem
      rw [hnew] at he
      contradiction
    · intro order horder hstatus
      cases horder
      contradiction
  · intro e
    refine iff_of_false (h.tallies.link_ne_of_gone (recordOf_of_order_none h hnew) e) ?_
    rintro ⟨-, hid⟩
    contradiction
  · intro e oid' _
    rfl
  · intro e oid' hid
    contradiction

private theorem tallies_acknowledge (h : s.Sound) (horder : s.order oid = some o)
    (hplaced : o.status = .placed) {e : Str}
    (hfresh : ∀ oid', idOf s.order oid' ≠ some e) :
    Tallies (Function.update s.order oid (some (o.acknowledge e)))
      (s.oms.onOrderAck e oid).recordOf (s.oms.onOrderAck e oid).linkOf s.requested := by
  have hnone : o.exchangeOid = none := (h.tallies.sound oid).placed o horder hplaced
  obtain ⟨p, hrecord, hmatches⟩ := recordOf_of_unfinished h horder
    (by rw [hplaced]; exact ⟨by decide, by decide⟩)
    (by rw [hnone]; exact (Option.some_ne_none _).symm)
  have hpending := hmatches.pending hplaced
  rw [recordOf_onOrderAck h.wellFormed.partitioned hrecord, linkOf_onOrderAck hrecord]
  apply h.tallies.update (o := some (o.acknowledge e)) (p := some (p.moveTo .opened))
  · refine ⟨.inr (.inl ⟨rfl, .inl ?_⟩), hmatches.filled, hmatches.quantity⟩
    change (p.sm.transition .opened).2.current = .opened
    rw [OrderStateMachine.transition_current, hpending]
    rfl
  · refine ⟨?_, fun hmem => ?_, ?_⟩
    · intro order horder' hstatus
      cases horder'
      contradiction
    · obtain ⟨e', he', -⟩ := (h.tallies.sound oid).asked hmem
      rw [horder, Option.bind_some, hnone] at he'
      contradiction
    · intro order horder' hstatus
      cases horder'
      contradiction
  · intro e'
    by_cases heq : e' = e
    · rw [heq, Function.update_self]
      exact iff_of_true rfl ⟨Option.some_ne_none _, rfl⟩
    · rw [Function.update_of_ne heq]
      refine iff_of_false (fun hlink => ?_) fun hid => heq (Option.some.inj hid.2).symm
      have hid := ((h.tallies.links e' oid).mp hlink).2
      rw [idOf, horder, Option.bind_some, hnone] at hid
      contradiction
  · intro e' oid' hne
    by_cases heq : e' = e
    · rw [heq, Function.update_self]
      refine iff_of_false (fun hsame => hne (Option.some.inj hsame).symm) fun hlink => ?_
      exact hfresh oid' ((h.tallies.links e oid').mp hlink).2
    · rw [Function.update_of_ne heq]
  · intro e' oid' hid _
    obtain rfl : e = e' := Option.some.inj hid
    exact hfresh oid'

private theorem orderSound_revise (h : s.Sound) (horder : s.order oid = some o)
    (o' : ExchangeOrder) (hid : o'.exchangeOid = o.exchangeOid) (hplaced : o'.status ≠ .placed)
    (hcancelled : o'.status = .cancelled → oid ∈ s.requested) :
    OrderSound s.requested oid (some o') := by
  refine ⟨?_, fun hmem => ?_, ?_⟩
  · intro order hsame hstatus
    cases hsame
    exact absurd hstatus hplaced
  · obtain ⟨e, he, hne⟩ := (h.tallies.sound oid).asked hmem
    rw [horder, Option.bind_some] at he
    exact ⟨e, hid.trans he, hne⟩
  · intro order hsame hstatus
    cases hsame
    exact hcancelled hstatus

private theorem idOf_of_order (horder : s.order oid = some o) :
    idOf s.order oid = o.exchangeOid := by
  rw [idOf, horder]
  rfl

private theorem tallies_gone (h : s.Sound) (horder : s.order oid = some o)
    (hgone : s.oms.recordOf oid = none) {o' : ExchangeOrder}
    (hid : o'.exchangeOid = o.exchangeOid) (hagree : Agree (some o') none)
    (hsound : OrderSound s.requested oid (some o')) :
    Tallies (Function.update s.order oid (some o')) s.oms.recordOf s.oms.linkOf s.requested := by
  have hdrop : Tallies (Function.update s.order oid (some o'))
      (Function.update s.oms.recordOf oid none) s.oms.linkOf s.requested :=
    h.tallies.drop hagree hsound (by rw [idOf_of_order horder]; exact hid)
      (h.tallies.link_ne_of_gone hgone) (fun _ _ _ => Iff.rfl)
  rwa [← hgone, Function.update_eq_self] at hdrop

private theorem tallies_leave (h : s.Sound) (horder : s.order oid = some o) {e : Str}
    (hid : o.exchangeOid = some e) (hlink : s.oms.linkOf e = some oid) {o' : ExchangeOrder}
    (hid' : o'.exchangeOid = o.exchangeOid) (hagree : Agree (some o') none)
    (hsound : OrderSound s.requested oid (some o')) :
    Tallies (Function.update s.order oid (some o')) (Function.update s.oms.recordOf oid none)
      (Function.update s.oms.linkOf e none) s.requested := by
  apply h.tallies.drop hagree hsound
  · rw [idOf_of_order horder]
    exact hid'
  · intro e' hsome
    by_cases heq : e' = e
    · rw [heq, Function.update_self] at hsome
      contradiction
    · rw [Function.update_of_ne heq] at hsome
      have hother := ((h.tallies.links e' oid).mp hsome).2
      rw [idOf_of_order horder, hid] at hother
      exact heq (Option.some.inj hother).symm
  · intro e' oid' hne
    have hold : s.oms.linkOf e ≠ some oid' := by
      rw [hlink]
      exact fun hsame => hne (Option.some.inj hsame).symm
    exact Dict.update_eq_iff_of_ne hold (Option.some_ne_none oid').symm e'

private theorem discards_empty (h : s.Sound) (hreport : report.exchangeOid = [])
    (hlink : s.oms.linkOf [] = none) : s.oms.Discards report := by
  right
  have hresolve : s.oms.resolve report.exchangeOid = [] := by
    have hlookup : s.oms.exchangeToInternal.lookup [] = none := hlink
    rw [hreport, resolve, hlookup]
    rfl
  rw [hresolve]
  exact recordOf_empty h

private theorem tallies_fill (h : s.Sound) (horder : s.order oid = some o)
    (hworking : o.status = .working) (hid : o.exchangeOid = some report.exchangeOid)
    (hfits : o.filled + report.quantity ≤ o.quantity) (hadmits : s.oms.Admits report) :
    Tallies (Function.update s.order oid (some (o.fill report.quantity)))
      (s.oms.onFill report nowNs).recordOf (s.oms.onFill report nowNs).linkOf s.requested := by
  have hplaced : (o.fill report.quantity).status ≠ .placed := by
    unfold ExchangeOrder.fill
    dsimp only
    split <;> decide
  have hcancelled : (o.fill report.quantity).status ≠ .cancelled := by
    unfold ExchangeOrder.fill
    dsimp only
    split <;> decide
  have hsound := orderSound_revise h horder (o.fill report.quantity) rfl hplaced
    fun hstatus => absurd hstatus hcancelled
  cases hrecord : s.oms.recordOf oid with
  | none =>
      obtain ⟨hempty, hlink⟩ := gone_of_recordOf_none h horder hworking hid hrecord
      obtain ⟨hrecords, hlinks⟩ :=
        maps_onFill_of_discards report nowNs (discards_empty h hempty hlink)
      rw [hrecords, hlinks]
      refine tallies_gone h horder hrecord rfl (.inr (.inr ?_)) hsound
      exact hid.trans (congrArg some hempty)
  | some p =>
      have hagree := h.tallies.agree oid
      rw [horder, hrecord] at hagree
      have hfillable : p.Fillable := hagree.fillable hworking
      have hlink : s.oms.linkOf report.exchangeOid = some oid :=
        h.tallies.link_of_held (by simp [hrecord]) ((idOf_of_order horder).trans hid)
      have hresolve := resolve_of_linkOf hlink
      rw [← hresolve] at hrecord
      have hrecords := recordOf_onFill report nowNs h.wellFormed.partitioned hadmits hrecord
      have hlinks := linkOf_onFill report nowNs hadmits hrecord
      have hterminal := terminal_applyFill_iff hfillable
        (p.order.buildFill (s.oms.resolve report.exchangeOid) report nowNs)
      rw [hrecords, hlinks, hresolve]
      by_cases hdone : (s.oms.filledRecord report nowNs p).sm.isTerminal = true
      · rw [if_pos hdone, if_pos hdone]
        refine tallies_leave h horder hid hlink rfl (.inl ?_) hsound
        have hfull : p.order.quantity ≤ p.order.filledQty + report.quantity := hterminal.mp hdone
        rw [hagree.filled, hagree.quantity] at hfull
        exact if_pos (le_antisymm hfits hfull)
      · rw [if_neg hdone, if_neg hdone]
        have hopen : ¬p.order.quantity ≤ p.order.filledQty + report.quantity :=
          fun hfull => hdone (hterminal.mpr hfull)
        rw [hagree.filled, hagree.quantity] at hopen
        apply h.tallies.revise
        · rw [← hresolve, hrecord]
          exact Option.some_ne_none p
        · refine ⟨.inr (.inl ⟨if_neg fun hfull => hopen hfull.ge, ?_⟩), ?_, hagree.quantity⟩
          · exact fillable_applyFill hfillable hdone
          · change p.order.filledQty + report.quantity = o.filled + report.quantity
            rw [hagree.filled]
        · exact hsound
        · exact (idOf_of_order horder).symm

private theorem rejectTarget_empty (hlink : s.oms.linkOf [] = none) :
    s.oms.rejectTarget [] = [] := by
  have hlookup : s.oms.exchangeToInternal.lookup [] = none := hlink
  rw [rejectTarget, hlookup]
  rfl

/-- The reject that a failed placement sends under the empty id finds no order, or the one that
was acknowledged under it. -/
private theorem tallies_onReject_empty (h : s.Sound) (reason : Str) :
    Tallies s.order (s.oms.onReject [] reason).recordOf (s.oms.onReject [] reason).linkOf
      s.requested := by
  cases hlink : s.oms.linkOf [] with
  | none =>
      have hrecord : s.oms.recordOf (s.oms.rejectTarget []) = none := by
        rw [rejectTarget_empty hlink]
        exact recordOf_empty h
      obtain ⟨hrecords, hlinks⟩ := maps_onReject_of_none reason hrecord
      rw [hrecords, hlinks]
      exact h.tallies
  | some other =>
      obtain ⟨hheld, hid⟩ := (h.tallies.links [] other).mp hlink
      obtain ⟨p, hrecord⟩ := Option.ne_none_iff_exists'.mp hheld
      obtain ⟨o, horder⟩ : ∃ o, s.order other = some o := by
        cases horder : s.order other with
        | none =>
            rw [recordOf_of_order_none h horder] at hheld
            exact absurd rfl hheld
        | some o => exact ⟨o, rfl⟩
      rw [idOf_of_order horder] at hid
      have htarget := rejectTarget_of_linkOf hlink
      rw [← htarget] at hrecord
      obtain ⟨hrecords, hlinks⟩ := maps_onReject_of_some reason h.wellFormed.partitioned hrecord
      rw [hrecords, hlinks, htarget]
      have hleave := tallies_leave h horder hid hlink rfl (.inr (.inr hid))
        (horder ▸ h.tallies.sound other)
      rwa [← horder, Function.update_eq_self] at hleave

private theorem tallies_placementFails (h : s.Sound) (horder : s.order oid = some o)
    (hplaced : o.status = .placed) (reason : Str) :
    Tallies (Function.update s.order oid (some (o.finish .rejected)))
      (s.oms.placementFailed oid reason).recordOf (s.oms.placementFailed oid reason).linkOf
      s.requested := by
  have hnone : o.exchangeOid = none := (h.tallies.sound oid).placed o horder hplaced
  have hsound := orderSound_revise h horder (o.finish .rejected) rfl
    (by change ExchangeStatus.rejected ≠ _; decide) nofun
  have hrejected := tallies_onReject_empty h reason
  rw [placementFailed, linkOf_dropOrder,
    recordOf_dropOrder (wellFormed_onReject [] reason h.wellFormed).partitioned]
  apply hrejected.drop (o := some (o.finish .rejected)) (.inr (.inl rfl)) hsound
  · exact (idOf_of_order horder).symm
  · intro e hlink
    have hid := ((hrejected.links e oid).mp hlink).2
    rw [idOf_of_order horder, hnone] at hid
    contradiction
  · exact fun _ _ _ => Iff.rfl

private theorem tallies_reject (h : s.Sound) (horder : s.order oid = some o)
    (hworking : o.status = .working) {e : Str} (hid : o.exchangeOid = some e) (reason : Str) :
    Tallies (Function.update s.order oid (some (o.finish .rejected)))
      (s.oms.onReject e reason).recordOf (s.oms.onReject e reason).linkOf s.requested := by
  have hsound := orderSound_revise h horder (o.finish .rejected) rfl
    (by change ExchangeStatus.rejected ≠ _; decide) nofun
  cases hrecord : s.oms.recordOf oid with
  | none =>
      obtain ⟨rfl, hlink⟩ := gone_of_recordOf_none h horder hworking hid hrecord
      have htarget : s.oms.recordOf (s.oms.rejectTarget []) = none := by
        rw [rejectTarget_empty hlink]
        exact recordOf_empty h
      obtain ⟨hrecords, hlinks⟩ := maps_onReject_of_none reason htarget
      rw [hrecords, hlinks]
      exact tallies_gone h horder hrecord rfl (.inr (.inl rfl)) hsound
  | some p =>
      have hlink : s.oms.linkOf e = some oid :=
        h.tallies.link_of_held (by simp [hrecord]) ((idOf_of_order horder).trans hid)
      have htarget := rejectTarget_of_linkOf hlink
      rw [← htarget] at hrecord
      obtain ⟨hrecords, hlinks⟩ := maps_onReject_of_some reason h.wellFormed.partitioned hrecord
      rw [hrecords, hlinks, htarget]
      exact tallies_leave h horder hid hlink rfl (.inr (.inl rfl)) hsound

private theorem tallies_confirm (h : s.Sound) (horder : s.order oid = some o)
    (hworking : o.status = .working) (hasked : oid ∈ s.requested) :
    Tallies (Function.update s.order oid (some (o.finish .cancelled))) s.oms.recordOf
      s.oms.linkOf s.requested := by
  have hsound := orderSound_revise h horder (o.finish .cancelled) rfl
    (by change ExchangeStatus.cancelled ≠ _; decide) fun _ => hasked
  obtain ⟨e, hid, hne⟩ := (h.tallies.sound oid).asked hasked
  rw [horder, Option.bind_some] at hid
  obtain ⟨p, hrecord, hmatches⟩ := recordOf_of_unfinished h horder
    (by rw [hworking]; exact ⟨by decide, by decide⟩)
    (by rw [hid]; exact fun hempty => hne (Option.some.inj hempty))
  have hrevise := h.tallies.revise (o := o.finish .cancelled) (p := p) (by simp [hrecord])
    ⟨.inr (.inr rfl), hmatches.filled, hmatches.quantity⟩ hsound (idOf_of_order horder).symm
  rwa [← hrecord, Function.update_eq_self] at hrevise

private theorem idOf_of_cancel (h : s.Sound) (haccepted : (s.oms.cancel oid).1 = true) :
    ∃ e, idOf s.order oid = some e ∧ e ≠ [] := by
  have hne : s.oms.exchangeOidOf oid ≠ [] := by
    intro hempty
    unfold OrderManagementSystem.cancel at haccepted
    split at haccepted
    · contradiction
    · rw [if_pos hempty] at haccepted
      split at haccepted <;> contradiction
  obtain ⟨hempty, -⟩ | hlink := exchangeOidOf_cases s.oms oid
  · exact absurd hempty hne
  · exact ⟨_, ((h.tallies.links _ oid).mp hlink).2, hne⟩

theorem oms_step (s : LiveSession poolSize) (event : SessionEvent) :
    (s.step event).oms = s.oms ∨ ∃ call, (s.step event).oms = s.oms.step call := by
  cases event with
  | submit req tsMs placedNs fillNs =>
      right
      refine ⟨.submit req tsMs placedNs fillNs, ?_⟩
      rw [step]
      split <;> rename_i hsubmit <;> exact (congrArg Prod.snd hsubmit).symm
  | acknowledge oid e => exact .inr ⟨.onOrderAck e oid, rfl⟩
  | fill oid report nowNs => exact .inr ⟨.onFill report nowNs, rfl⟩
  | redeliver report nowNs => exact .inr ⟨.onFill report nowNs, rfl⟩
  | placementFails oid reason => exact .inr ⟨.placementFailed oid reason, rfl⟩
  | reject oid e reason => exact .inr ⟨.onReject e reason, rfl⟩
  | cancel oid => exact .inr ⟨.cancel oid, rfl⟩
  | cancelAllOpen => exact .inr ⟨.cancelAllOpen, rfl⟩
  | confirmCancel oid e x =>
      exact .inl (ExecutionManagementSystem.cancelOrder_eq_self s.client (fun _ => x) e s.oms)
  | resetForEod => exact .inr ⟨.resetForEod, rfl⟩

private theorem sound_of_tallies (h : s.Sound) {event : SessionEvent}
    (hkeys : ∀ oid, (s.step event).order oid ≠ none →
      s.order oid ≠ none ∨ (s.step event).oms.book.Issued oid)
    (htallies : Tallies (s.step event).order (s.step event).oms.recordOf
      (s.step event).oms.linkOf (s.step event).requested) : (s.step event).Sound := by
  obtain heq | ⟨call, heq⟩ := oms_step s event
  · refine ⟨heq ▸ h.wellFormed, heq ▸ h.live, fun oid hknown => ?_, htallies⟩
    obtain hold | hissued := hkeys oid hknown
    · rw [heq]
      exact h.issued oid hold
    · exact hissued
  · refine ⟨heq ▸ wellFormed_step h.wellFormed call, heq ▸ (issuing_step h.live call).1,
      fun oid hknown => ?_, htallies⟩
    obtain hold | hissued := hkeys oid hknown
    · rw [heq]
      exact issued_step h.live (h.issued oid hold) call
    · exact hissued

private theorem known_of_update (horder : s.order oid = some o) {o' : ExchangeOrder} {oid' : Str}
    (hknown : Function.update s.order oid (some o') oid' ≠ none) : s.order oid' ≠ none := by
  by_cases heq : oid' = oid
  · rw [heq, horder]
    exact Option.some_ne_none o
  · rwa [Function.update_of_ne heq] at hknown

private theorem sound_of_update (h : s.Sound) {event : SessionEvent} (horder : s.order oid = some o)
    {f : ExchangeOrder → ExchangeOrder}
    (hexchange : (s.step event).exchange = s.modifyOrder oid f)
    (htallies : Tallies (Function.update s.order oid (some (f o))) (s.step event).oms.recordOf
      (s.step event).oms.linkOf (s.step event).requested) : (s.step event).Sound := by
  have horder' := order_of_modifyOrder horder hexchange
  apply sound_of_tallies h
  · intro oid' hknown
    rw [horder'] at hknown
    exact .inl (known_of_update horder hknown)
  · rwa [horder']

private theorem sound_of_same (h : s.Sound) {event : SessionEvent}
    (hexchange : (s.step event).exchange = s.exchange)
    (hmaps : (s.step event).oms.recordOf = s.oms.recordOf ∧
      (s.step event).oms.linkOf = s.oms.linkOf)
    (htallies : Tallies s.order s.oms.recordOf s.oms.linkOf (s.step event).requested) :
    (s.step event).Sound := by
  have horder : (s.step event).order = s.order := by
    unfold order
    rw [hexchange]
  apply sound_of_tallies h
  · intro oid hknown
    rw [horder] at hknown
    exact .inl hknown
  · rwa [horder, hmaps.1, hmaps.2]

private theorem sound_submit (h : s.Sound) (req : OrderRequest) (tsMs placedNs fillNs : Nat) :
    (s.step (.submit req tsMs placedNs fillNs)).Sound := by
  cases hfree : s.oms.pool.freeList with
  | nil =>
      have hsame : s.step (.submit req tsMs placedNs fillNs) = s := by
        rw [step, submit_of_nil s.oms req tsMs placedNs fillNs hfree]
      rwa [hsame]
  | cons po rest =>
      have horder := order_submit hfree req tsMs placedNs fillNs
      have hstep := step_submit_of_cons hfree req tsMs placedNs fillNs
      apply sound_of_tallies h
      · intro oid hknown
        by_cases heq : oid = orderId tsMs s.oms.seq
        · right
          refine ⟨tsMs, s.oms.seq, ?_, heq⟩
          rw [hstep, submit_of_cons s.oms req tsMs placedNs fillNs hfree, h.live]
          exact Nat.lt_succ_self s.oms.seq
        · rw [horder, Function.update_of_ne heq] at hknown
          exact .inl hknown
      · rw [horder, hstep]
        exact tallies_submit h req tsMs placedNs fillNs hfree

theorem sound_step (h : s.Sound) {event : SessionEvent} (hallowed : s.Allowed event) :
    (s.step event).Sound := by
  cases event with
  | submit req tsMs placedNs fillNs => exact sound_submit h req tsMs placedNs fillNs
  | acknowledge oid e =>
      obtain ⟨⟨o, horder, hplaced⟩, hfresh⟩ := hallowed
      refine sound_of_update h horder rfl (tallies_acknowledge h horder hplaced fun oid' hid => ?_)
      obtain ⟨o', horder', hid'⟩ := Option.bind_eq_some_iff.mp hid
      exact hfresh ⟨oid', o'⟩ (Dict.mem_of_lookup horder') hid'
  | fill oid report nowNs =>
      obtain ⟨⟨o, horder, hworking, hid, -, hfits⟩, hadmits⟩ := hallowed
      exact sound_of_update h horder rfl (tallies_fill h horder hworking hid hfits hadmits)
  | redeliver report nowNs =>
      exact sound_of_same h rfl (maps_onFill_of_discards report nowNs (.inl hallowed)) h.tallies
  | placementFails oid reason =>
      obtain ⟨o, horder, hplaced⟩ := hallowed
      exact sound_of_update h horder rfl (tallies_placementFails h horder hplaced reason)
  | reject oid e reason =>
      obtain ⟨o, horder, hworking, hid⟩ := hallowed
      exact sound_of_update h horder rfl (tallies_reject h horder hworking hid reason)
  | cancel oid =>
      refine sound_of_same h rfl maps_cancel ?_
      change Tallies _ _ _ (if (s.oms.cancel oid).1 then oid :: s.requested else s.requested)
      split
      · rename_i haccepted
        apply h.tallies.ask fun oid' hmem => List.mem_cons_of_mem oid hmem
        intro oid' hmem
        obtain rfl | hold := List.mem_cons.mp hmem
        · exact .inr (idOf_of_cancel h haccepted)
        · exact .inl hold
      · exact h.tallies
  | cancelAllOpen =>
      refine sound_of_same h rfl maps_cancelAllOpen ?_
      apply h.tallies.ask fun oid' hmem => List.mem_append_right _ hmem
      intro oid' hmem
      obtain hnew | hold := List.mem_append.mp hmem
      · exact .inr (idOf_of_cancel h (List.mem_filter.mp hnew).2)
      · exact .inl hold
  | confirmCancel oid e x =>
      obtain ⟨⟨o, horder, hworking, -⟩, hasked, -⟩ := hallowed
      apply sound_of_update h horder rfl
      change Tallies _ (recordOf (ExecutionManagementSystem.cancelOrder _ _ _ _))
        (linkOf (ExecutionManagementSystem.cancelOrder _ _ _ _)) s.requested
      rw [ExecutionManagementSystem.cancelOrder_eq_self]
      exact tallies_confirm h horder hworking hasked
  | resetForEod => exact sound_of_same h rfl ⟨rfl, rfl⟩ h.tallies

end Events

theorem sound_init (poolSize : Nat) (client : UpstoxRestClient) : (init poolSize client).Sound where
  wellFormed := wellFormed_init poolSize false
  live := rfl
  issued := fun _ hknown => absurd rfl hknown
  tallies :=
    { agree := fun _ => rfl
      links := fun _ _ => iff_of_false nofun fun hheld => hheld.1 rfl
      distinct := fun _ _ _ => nofun
      sound := fun _ => ⟨nofun, nofun, nofun⟩ }

end Sound

section Cancelled

variable {s : LiveSession poolSize} {oid : Str} {o : ExchangeOrder}

def AnyCancelled (order : Str → Option ExchangeOrder) : Prop :=
  ∃ oid o, order oid = some o ∧ o.status = .cancelled

private theorem anyCancelled_update {order : Str → Option ExchangeOrder} {o' : ExchangeOrder}
    (hbefore : ∀ o, order oid = some o → o.status ≠ .cancelled) (hafter : o'.status ≠ .cancelled) :
    AnyCancelled (Function.update order oid (some o')) ↔ AnyCancelled order := by
  constructor
  · rintro ⟨oid', cancelled, horder, hstatus⟩
    by_cases heq : oid' = oid
    · rw [heq, Function.update_self] at horder
      rw [Option.some.inj horder] at hafter
      exact absurd hstatus hafter
    · rw [Function.update_of_ne heq] at horder
      exact ⟨oid', cancelled, horder, hstatus⟩
  · rintro ⟨oid', cancelled, horder, hstatus⟩
    refine ⟨oid', cancelled, ?_, hstatus⟩
    rw [Function.update_of_ne]
    · exact horder
    · rintro rfl
      exact hbefore cancelled horder hstatus

private theorem anyCancelled_of_modify {event : SessionEvent} (horder : s.order oid = some o)
    {f : ExchangeOrder → ExchangeOrder}
    (hexchange : (s.step event).exchange = s.modifyOrder oid f)
    (hbefore : o.status ≠ .cancelled) (hafter : (f o).status ≠ .cancelled) :
    AnyCancelled (s.step event).order ↔ AnyCancelled s.order := by
  rw [order_of_modifyOrder horder hexchange]
  apply anyCancelled_update _ hafter
  intro o' hsame
  rwa [← Option.some.inj (horder.symm.trans hsame)]

private theorem anyCancelled_submit (h : s.Sound) (req : OrderRequest)
    (tsMs placedNs fillNs : Nat) :
    AnyCancelled (s.step (.submit req tsMs placedNs fillNs)).order ↔ AnyCancelled s.order := by
  have hnew := order_new h tsMs
  cases hfree : s.oms.pool.freeList with
  | nil => rw [step, submit_of_nil s.oms req tsMs placedNs fillNs hfree]
  | cons po rest =>
      rw [order_submit hfree]
      apply anyCancelled_update
      · intro o' horder
        rw [hnew] at horder
        contradiction
      · change ExchangeStatus.placed ≠ .cancelled
        decide

theorem anyCancelled_step (h : s.Sound) {event : SessionEvent} (hallowed : s.Allowed event) :
    AnyCancelled (s.step event).order ↔ AnyCancelled s.order ∨ ConfirmsCancel event := by
  cases event with
  | submit req tsMs placedNs fillNs =>
      exact (anyCancelled_submit h req tsMs placedNs fillNs).trans (or_iff_left id).symm
  | acknowledge oid e =>
      obtain ⟨⟨o, horder, hplaced⟩, -⟩ := hallowed
      refine (anyCancelled_of_modify horder rfl ?_ ?_).trans (or_iff_left id).symm
      · rw [hplaced]
        decide
      · exact nofun
  | fill oid report nowNs =>
      obtain ⟨⟨o, horder, hworking, -⟩, -⟩ := hallowed
      refine (anyCancelled_of_modify horder rfl ?_ ?_).trans (or_iff_left id).symm
      · rw [hworking]
        decide
      · unfold ExchangeOrder.fill
        dsimp only
        split <;> decide
  | placementFails oid reason =>
      obtain ⟨o, horder, hplaced⟩ := hallowed
      refine (anyCancelled_of_modify horder rfl ?_ ?_).trans (or_iff_left id).symm
      · rw [hplaced]
        decide
      · exact nofun
  | reject oid e reason =>
      obtain ⟨o, horder, hworking, -⟩ := hallowed
      refine (anyCancelled_of_modify horder rfl ?_ ?_).trans (or_iff_left id).symm
      · rw [hworking]
        decide
      · exact nofun
  | confirmCancel oid e x =>
      obtain ⟨⟨o, horder, -⟩, -⟩ := hallowed
      refine iff_of_true ⟨oid, o.finish .cancelled, ?_, rfl⟩ (.inr trivial)
      rw [order_of_modifyOrder (f := fun o => o.finish .cancelled) horder rfl, Function.update_self]
  | redeliver report nowNs => exact (or_iff_left id).symm
  | cancel oid => exact (or_iff_left id).symm
  | cancelAllOpen => exact (or_iff_left id).symm
  | resetForEod => exact (or_iff_left id).symm

theorem sound_run (h : s.Sound) {events : List SessionEvent}
    (hallowed : Run.Along step Allowed s events) :
    (Run.run step s events).Sound ∧ (AnyCancelled (Run.run step s events).order ↔
      AnyCancelled s.order ∨ ∃ event ∈ events, ConfirmsCancel event) := by
  induction events generalizing s with
  | nil => simp [h]
  | cons event events ih =>
      obtain ⟨hsound, hcancelled⟩ := ih (sound_step h hallowed.1) hallowed.2
      refine ⟨hsound, hcancelled.trans ?_⟩
      rw [anyCancelled_step h hallowed.1, or_assoc]
      simp only [List.mem_cons, exists_eq_or_imp]

end Cancelled

section GivenBack

variable {s : LiveSession poolSize}

private theorem final_of_order (hfinal : s.AllFinal) {oid : Str} {o : ExchangeOrder}
    (horder : s.order oid = some o) : o.Final :=
  hfinal ⟨oid, o⟩ (Dict.mem_of_lookup horder)

private theorem anyCancelled_of_record (h : s.Sound) (hfinal : s.AllFinal) {oid : Str}
    (hheld : s.oms.recordOf oid ≠ none) : AnyCancelled s.order := by
  obtain ⟨p, hrecord⟩ := Option.ne_none_iff_exists'.mp hheld
  cases horder : s.order oid with
  | none => exact absurd (recordOf_of_order_none h horder) hheld
  | some o =>
      have hagree := h.tallies.agree oid
      rw [horder, hrecord] at hagree
      refine ⟨oid, o, horder, ?_⟩
      have hdone := final_of_order hfinal horder
      unfold ExchangeOrder.Final at hdone
      obtain ⟨hstatus, -⟩ | ⟨hstatus, -⟩ | hstatus := hagree.status
      · rw [hstatus] at hdone
        simp at hdone
      · rw [hstatus] at hdone
        simp at hdone
      · exact hstatus

theorem givenBack_iff (h : s.Sound) (hfinal : s.AllFinal) :
    s.GivenBack ↔ ¬AnyCancelled s.order := by
  constructor
  · rintro hback ⟨oid, o, horder, hstatus⟩
    have hasked := (h.tallies.sound oid).confirmed o horder hstatus
    obtain ⟨e, hid, hne⟩ := (h.tallies.sound oid).asked hasked
    rw [horder, Option.bind_some] at hid
    obtain ⟨p, hrecord, -⟩ := recordOf_of_unfinished h horder
      (by rw [hstatus]; exact ⟨by decide, by decide⟩)
      (by rw [hid]; exact fun hempty => hne (Option.some.inj hempty))
    obtain ⟨po, hlookup, -⟩ := recordOf_eq_some.mp hrecord
    have hmem := Dict.mem_of_lookup hlookup
    rw [hback.orders] at hmem
    exact List.not_mem_nil hmem
  · intro hnone
    have horders : s.oms.orders.entries = [] := by
      apply List.eq_nil_iff_forall_not_mem.mpr
      rintro ⟨oid, po⟩ hmem
      have hheld : s.oms.recordOf oid ≠ none := by
        rw [recordOf_of_lookup (Dict.lookup_of_mem hmem)]
        exact Option.some_ne_none _
      exact hnone (anyCancelled_of_record h hfinal hheld)
    have hlinks : s.oms.exchangeToInternal.entries = [] := by
      apply List.eq_nil_iff_forall_not_mem.mpr
      rintro ⟨e, oid⟩ hmem
      apply hnone
      exact anyCancelled_of_record h hfinal
        ((h.tallies.links e oid).mp (Dict.lookup_of_mem hmem)).1
    refine ⟨horders, hlinks, ?_, ?_⟩
    · unfold openOrderCount Dict.values
      rw [horders]
      rfl
    · have hcount := h.wellFormed.partitioned.count
      change s.oms.pool.freeList.length + s.oms.orders.entries.length = poolSize at hcount
      rwa [horders] at hcount

/-- When every order of a live run is final, everything is given back exactly when none of
them ended by a confirmed cancel. -/
theorem finished_orders_give_back_iff (poolSize : Nat) (client : UpstoxRestClient)
    {events : List SessionEvent} (hallowed : Run.Along step Allowed (init poolSize client) events)
    (hfinal : (Run.run step (init poolSize client) events).AllFinal) :
    (Run.run step (init poolSize client) events).GivenBack ↔
      ∀ event ∈ events, ¬ConfirmsCancel event := by
  obtain ⟨hsound, hcancelled⟩ := sound_run (sound_init poolSize client) hallowed
  rw [givenBack_iff hsound hfinal, hcancelled, not_or]
  have hnone : ¬AnyCancelled (init poolSize client).order := by
    rintro ⟨oid, o, horder, -⟩
    contradiction
  rw [and_iff_right hnone]
  simp only [not_exists, not_and]

section Runs

def restClient : UpstoxRestClient := ⟨[], false⟩

def filledAndRejected : List SessionEvent :=
  [.submit { instrumentToken := 1, quantity := 10 } 0 0 0,
    .acknowledge (orderId 0 0) ['E'],
    .fill (orderId 0 0) ⟨['E'], 100, 4, ['T']⟩ 0,
    .redeliver ⟨['E'], 100, 4, ['T']⟩ 0,
    .submit { instrumentToken := 2, quantity := 5 } 0 0 0,
    .fill (orderId 0 0) ⟨['E'], 101, 6, ['U']⟩ 0,
    .placementFails (orderId 0 1) []]

theorem finished_orders_give_back_filled_and_rejected :
    (Run.run step (init 2 restClient) filledAndRejected).GivenBack := by
  refine (finished_orders_give_back_iff 2 restClient ?_ ?_).mpr ?_
  · decide +kernel
  · decide +kernel
  · simp [filledAndRejected, ConfirmsCancel]

def cancelledAndConfirmed : List SessionEvent :=
  [.submit { instrumentToken := 1, quantity := 10 } 0 0 0,
    .acknowledge (orderId 0 0) ['E'],
    .cancel (orderId 0 0),
    .confirmCancel (orderId 0 0) ['E'] {}]

/-- The one order is final, and it still holds the one slot. -/
theorem confirmed_cancel_keeps_slot :
    let s := Run.run step (init 1 restClient) cancelledAndConfirmed
    Run.Along step Allowed (init 1 restClient) cancelledAndConfirmed ∧ s.AllFinal ∧
      s.oms.openOrderCount = 1 ∧ s.oms.pool.available = 0 ∧ ¬s.GivenBack := by
  intro s
  have hopen : s.oms.openOrderCount = 1 := by decide +kernel
  refine ⟨by decide +kernel, by decide +kernel, hopen, by decide +kernel, fun hback => ?_⟩
  rw [hback.openOrderCount] at hopen
  contradiction

end Runs

end GivenBack

end QuantForge.LiveSession
