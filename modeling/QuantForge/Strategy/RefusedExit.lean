import QuantForge.Strategy.MomentumShutdown

/-! What is left of a position whose exit `submit_order` refuses. `place_market` swallows the
answer, and the two callers clear the flag of the instrument whatever it was. -/
namespace QuantForge

open Library

/-- A tick or a flatten request, with what `submit_order` answers for each instrument. -/
inductive ExitOccasion where
  | tick (t : NormalizedTick) (reply : SubmitReply)
  | flatten (replies : Nat → SubmitReply)

namespace ExitOccasion

def event : ExitOccasion → MomentumEvent
  | .tick t reply => .tick t reply
  | .flatten replies => .flatten replies

def reply : ExitOccasion → Nat → SubmitReply
  | .tick _ reply, _ => reply
  | .flatten replies, token => replies token

end ExitOccasion

/-- The position that the strategy holds, and the prices at which it leaves it, are as before. -/
structure InstrumentState.SamePosition (st st' : InstrumentState) : Prop where
  inPosition : st'.inPosition = st.inPosition
  positionSide : st'.positionSide = st.positionSide
  positionQty : st'.positionQty = st.positionQty
  stopPrice : st'.stopPrice = st.stopPrice
  targetPrice : st'.targetPrice = st.targetPrice

namespace InstrumentState

variable {st st' : InstrumentState}

theorem samePosition_refl (st : InstrumentState) : st.SamePosition st :=
  ⟨rfl, rfl, rfl, rfl, rfl⟩

theorem SamePosition.exitTag (h : st.SamePosition st') (price : ℚ) :
    st'.exitTag price = st.exitTag price := by
  rw [InstrumentState.exitTag, h.positionSide, h.stopPrice, h.targetPrice,
    InstrumentState.exitTag]

theorem clear_of_flat (h : st.inPosition = false) : { st with inPosition := false } = st := by
  rw [← h]

end InstrumentState

namespace MomentumSession

variable (s : MomentumSession)

def exitsSent (occasion : ExitOccasion) (token : Nat) : List OrderRequest :=
  ((s.placed (.strategy occasion.event)).map Prod.snd).filter (·.instrumentToken = token)

def after (occasion : ExitOccasion) : MomentumSession := s.step occasion.event

/-- Where no exit is accepted the position stays, and an exit that was refused is sent again
when the same event comes again. -/
structure KeepsRefused (occasion : ExitOccasion) (token : Nat) : Prop where
  position : (s.strategy.stateOf token).SamePosition
    ((s.after occasion).strategy.stateOf token)
  again : (s.after occasion).exitsSent occasion token = s.exitsSent occasion token

def ExitDue (token : Nat) : ExitOccasion → Prop
  | .tick t _ => t.instrumentToken = token ∧ s.TickExits t
  | .flatten _ => (s.strategy.stateOf token).inPosition = true

variable {s}

theorem inPosition_of_exitDue {token : Nat} {occasion : ExitOccasion}
    (h : s.ExitDue token occasion) : (s.strategy.stateOf token).inPosition = true := by
  cases occasion with
  | tick t reply =>
      obtain ⟨rfl, hexits⟩ := h
      exact hexits.2.1
  | flatten replies => exact h

section Exit
variable {token t : Nat} {reply : SubmitReply}

theorem stateOf_exit_of_ne (hne : t ≠ token) (tag : Str) (reply : SubmitReply) :
    (s.exit token tag reply).strategy.stateOf t = s.strategy.stateOf t := by
  refine (MomentumStrategy.stateOf_modify _ _ _ t).trans ((if_neg hne).trans ?_)
  unfold placeMarket
  split
  · exact ((Executing.accept s (s.exitOrder token tag)).executions reply.executions).states t hne
  · rfl

theorem stateOf_exit_of_refused (hrefused : reply.accepted = false) (tag : Str) :
    (s.exit token tag reply).strategy.stateOf token =
      { s.strategy.stateOf token with inPosition := false } := by
  refine (MomentumStrategy.stateOf_modify _ _ _ token).trans ((if_pos rfl).trans ?_)
  rw [placeMarket, if_neg (by simp [hrefused])]

end Exit

section Flatten
variable {replies : Nat → SubmitReply} {token : Nat}

theorem stateOf_flattenOne_of_ne {t : Nat} (hne : t ≠ token) :
    (s.flattenOne replies token).strategy.stateOf t = s.strategy.stateOf t := by
  unfold flattenOne
  split
  · exact stateOf_exit_of_ne hne _ _
  · rfl

theorem stateOf_flattenOne_of_refused
    (hrefused : (s.strategy.stateOf token).inPosition = true → (replies token).accepted = false) :
    (s.flattenOne replies token).strategy.stateOf token =
      { s.strategy.stateOf token with inPosition := false } := by
  unfold flattenOne
  split
  · rename_i hflag
    exact stateOf_exit_of_refused (hrefused hflag) _
  · rename_i hflag
    exact (InstrumentState.clear_of_flat (by simpa using hflag)).symm

theorem stateOf_flatten_of_refused {tokens : List Nat} (hnodup : tokens.Nodup)
    (hrefused : (s.strategy.stateOf token).inPosition = true → (replies token).accepted = false) :
    (tokens.foldl (flattenOne replies) s).strategy.stateOf token =
      if token ∈ tokens then { s.strategy.stateOf token with inPosition := false }
      else s.strategy.stateOf token := by
  induction tokens generalizing s with
  | nil => rfl
  | cons first rest ih =>
      obtain ⟨hfirst, hrest⟩ := List.nodup_cons.mp hnodup
      by_cases heq : token = first
      · subst heq
        have hcleared := stateOf_flattenOne_of_refused hrefused
        have hnext := ih (s := s.flattenOne replies token) hrest fun hflag => by
          rw [hcleared] at hflag
          cases hflag
        rw [if_neg hfirst, hcleared] at hnext
        rw [if_pos List.mem_cons_self]
        exact hnext
      · have hkept : (s.flattenOne replies first).strategy.stateOf token =
            s.strategy.stateOf token := stateOf_flattenOne_of_ne heq
        have hnext := ih (s := s.flattenOne replies first) hrest (by rwa [hkept])
        rw [hkept] at hnext
        simp only [List.mem_cons, heq, false_or]
        exact hnext

theorem flat_of_unknown (hunknown : token ∉ s.strategy.states.keys) :
    (s.strategy.stateOf token).inPosition = false := by
  have hlookup : s.strategy.states.lookup token = none := AList.lookup_eq_none.mpr hunknown
  rw [MomentumStrategy.stateOf, hlookup]
  rfl

theorem stateOf_onStop_of_refused
    (hrefused : (s.strategy.stateOf token).inPosition = true → (replies token).accepted = false) :
    (s.onStop replies).strategy.stateOf token =
      { s.strategy.stateOf token with inPosition := false } := by
  let stopped : MomentumSession := { s with strategy := { s.strategy with alive := false } }
  have hstate : (s.onStop replies).strategy.stateOf token =
      if token ∈ s.strategy.states.keys then
        { s.strategy.stateOf token with inPosition := false }
      else s.strategy.stateOf token :=
    stateOf_flatten_of_refused (s := stopped) s.strategy.states.nodupKeys hrefused
  rw [hstate]
  split
  · rfl
  · rename_i hunknown
    exact (InstrumentState.clear_of_flat (flat_of_unknown hunknown)).symm

theorem exists_placedByFlatten_iff {tokens : List Nat} (hnodup : tokens.Nodup) :
    (∃ p ∈ placedByFlatten replies s tokens, p.2.instrumentToken = token) ↔
      token ∈ tokens ∧ (s.strategy.stateOf token).inPosition = true := by
  induction tokens generalizing s with
  | nil => simp [placedByFlatten]
  | cons first rest ih =>
      obtain ⟨hfirst, hrest⟩ := List.nodup_cons.mp hnodup
      have hhead : (∃ p ∈ if (s.strategy.stateOf first).inPosition = true then
            [(s, s.exitOrder first "eod-flatten".toList)] else [], p.2.instrumentToken = token) ↔
          token = first ∧ (s.strategy.stateOf token).inPosition = true := by
        split
        · rename_i hflag
          simp only [List.mem_singleton, exists_eq_left]
          constructor
          · rintro rfl
            exact ⟨rfl, hflag⟩
          · rintro ⟨rfl, -⟩
            rfl
        · rename_i hflag
          simp only [List.not_mem_nil, false_and, exists_false, false_iff]
          rintro ⟨rfl, hopen⟩
          exact hflag hopen
      simp only [placedByFlatten, List.mem_append, or_and_right, exists_or, hhead, ih hrest,
        List.mem_cons]
      refine or_congr_right (and_congr_right fun hmem => ?_)
      rw [stateOf_flattenOne_of_ne]
      rintro rfl
      exact hfirst hmem

end Flatten

section Tick
variable {t : NormalizedTick} {token : Nat}

theorem samePosition_ticked (t : NormalizedTick) (token : Nat) :
    (s.strategy.stateOf token).SamePosition ((s.ticked t).strategy.stateOf token) := by
  rw [stateOf_ticked]
  split <;> exact ⟨rfl, rfl, rfl, rfl, rfl⟩

theorem samePosition_onTick (reply : SubmitReply)
    (hkept : token = t.instrumentToken → ¬s.TickExits t) :
    (s.strategy.stateOf token).SamePosition ((s.onTick t reply).strategy.stateOf token) := by
  obtain ⟨-, -, heq | heq⟩ | ⟨tag, hexits, -, hexit⟩ := s.onTick_cases t reply
  · rw [heq]
    exact InstrumentState.samePosition_refl _
  · rw [heq]
    exact samePosition_ticked t token
  · have hne : token ≠ t.instrumentToken := fun heq => hkept heq hexits
    rw [hexit, stateOf_exit_of_ne hne]
    exact samePosition_ticked t token

theorem exists_placedByTick_iff :
    (∃ p ∈ s.placedByTick t, p.2.instrumentToken = token) ↔
      t.instrumentToken = token ∧ s.TickExits t := by
  obtain ⟨hnone, hplaced, -⟩ | ⟨tag, hexits, hplaced, -⟩ := s.onTick_cases t ⟨false, []⟩
  · simp [hplaced, hnone]
  · rw [hplaced, and_iff_left hexits]
    simp only [List.mem_singleton, exists_eq_left]
    exact Iff.rfl

theorem tickExits_of_same {s' : MomentumSession}
    (halive : s'.strategy.alive = s.strategy.alive)
    (hsame : (s.strategy.stateOf t.instrumentToken).SamePosition
      (s'.strategy.stateOf t.instrumentToken)) : s'.TickExits t ↔ s.TickExits t := by
  rw [TickExits, halive, hsame.inPosition, hsame.exitTag, TickExits]

end Tick

variable {token : Nat} {occasion : ExitOccasion}

theorem exitsSent_ne_nil_iff : s.exitsSent occasion token ≠ [] ↔ s.ExitDue token occasion := by
  have hsent : s.exitsSent occasion token ≠ [] ↔
      ∃ p ∈ s.placed (.strategy occasion.event), p.2.instrumentToken = token := by
    constructor
    · intro hsome
      obtain ⟨req, hreq⟩ := List.exists_mem_of_ne_nil _ hsome
      obtain ⟨hmem, htoken⟩ := List.mem_filter.mp hreq
      obtain ⟨p, hp, rfl⟩ := List.mem_map.mp hmem
      exact ⟨p, hp, of_decide_eq_true htoken⟩
    · rintro ⟨p, hp, htoken⟩
      exact List.ne_nil_of_mem
        (List.mem_filter.mpr ⟨List.mem_map_of_mem hp, decide_eq_true htoken⟩)
  rw [hsent]
  cases occasion with
  | tick t reply => exact exists_placedByTick_iff
  | flatten replies =>
      refine (exists_placedByFlatten_iff s.strategy.states.nodupKeys).trans
        (and_iff_right_of_imp fun hflag => ?_)
      by_contra hunknown
      exact absurd ((flat_of_unknown hunknown).symm.trans hflag) Bool.false_ne_true

theorem samePosition_of_not_due (hdue : ¬s.ExitDue token occasion) :
    (s.strategy.stateOf token).SamePosition ((s.after occasion).strategy.stateOf token) := by
  cases occasion with
  | tick t reply => exact samePosition_onTick reply fun heq hexits => hdue ⟨heq.symm, hexits⟩
  | flatten replies =>
      have hflat : (s.strategy.stateOf token).inPosition = false := by
        simpa [ExitDue] using hdue
      change (s.strategy.stateOf token).SamePosition ((s.onStop replies).strategy.stateOf token)
      rw [stateOf_onStop_of_refused fun hflag => absurd hflag hdue,
        InstrumentState.clear_of_flat hflat]
      exact InstrumentState.samePosition_refl _

theorem flag_of_refused (hdue : s.ExitDue token occasion)
    (hrefused : (occasion.reply token).accepted = false) :
    ((s.after occasion).strategy.stateOf token).inPosition = false := by
  cases occasion with
  | tick t reply =>
      obtain ⟨rfl, hexits⟩ := hdue
      have hrefused' : reply.accepted = false := hrefused
      change ((s.onTick t reply).strategy.stateOf t.instrumentToken).inPosition = false
      obtain ⟨hnone, -⟩ | ⟨tag, -, -, hexit⟩ := s.onTick_cases t reply
      · exact absurd hexits hnone
      · rw [hexit, stateOf_exit_of_refused hrefused']
  | flatten replies =>
      have hrefused' : (replies token).accepted = false := hrefused
      change ((s.onStop replies).strategy.stateOf token).inPosition = false
      rw [stateOf_onStop_of_refused fun _ => hrefused']

theorem not_due_after (hdue : ¬s.ExitDue token occasion) :
    ¬(s.after occasion).ExitDue token occasion := by
  have hsame := samePosition_of_not_due hdue
  cases occasion with
  | tick t reply =>
      rintro ⟨rfl, hexits⟩
      refine hdue ⟨rfl, (tickExits_of_same ?_ hsame).mp hexits⟩
      change (s.onTick t reply).strategy.alive = s.strategy.alive
      obtain ⟨-, -, heq | heq⟩ | ⟨tag, hdue', -⟩ := s.onTick_cases t reply
      · rw [heq]
      · rw [heq]
        rfl
      · exact absurd ⟨rfl, hdue'⟩ hdue
  | flatten replies =>
      intro hflag
      rw [ExitDue, hsame.inPosition] at hflag
      exact hdue hflag

/-- Every instrument that no exit is accepted for is left as it was, and asked to close again,
exactly when every exit that is due is accepted. -/
theorem keeps_refused_iff (s : MomentumSession) (occasion : ExitOccasion) :
    (∀ token, (s.exitsSent occasion token ≠ [] → (occasion.reply token).accepted = false) →
        s.KeepsRefused occasion token) ↔
      ∀ token, s.ExitDue token occasion → (occasion.reply token).accepted = true := by
  constructor
  · intro hkeeps token hdue
    by_contra haccepted
    have hrefused : (occasion.reply token).accepted = false := by simpa using haccepted
    have hflag := (hkeeps token fun _ => hrefused).position.inPosition
    rw [flag_of_refused hdue hrefused, inPosition_of_exitDue hdue] at hflag
    cases hflag
  · intro haccepted token hrefused
    have hdue : ¬s.ExitDue token occasion := by
      intro hdue
      have hanswer := hrefused (exitsSent_ne_nil_iff.mpr hdue)
      rw [haccepted token hdue] at hanswer
      cases hanswer
    refine ⟨samePosition_of_not_due hdue, ?_⟩
    have hbefore := not_imp_comm.mp exitsSent_ne_nil_iff.mp hdue
    have hafter := not_imp_comm.mp exitsSent_ne_nil_iff.mp (not_due_after hdue)
    rw [hbefore, hafter]

/-- The stop of a long position of 333 is hit, the risk gate refuses the exit, and the strategy
holds itself to be flat: the next tick at the same price sends nothing. -/
theorem refused_stop_loss_is_forgotten :
    let held := Run.run step (init ['M']) (enter [⟨333, 110⟩])
    let stopped : ExitOccasion := .tick { instrumentToken := 1, ltp := 106 } ⟨false, []⟩
    (held.strategy.stateOf 1).inPosition = true ∧ (held.exitsSent stopped 1).length = 1 ∧
      (stopped.reply 1).accepted = false ∧
        ((held.after stopped).strategy.stateOf 1).inPosition = false ∧
          (held.after stopped).net 1 = 333 ∧ (held.after stopped).exitsSent stopped 1 = [] ∧
            ¬held.KeepsRefused stopped 1 := by
  intro held stopped
  have hheld : (held.strategy.stateOf 1).inPosition = true := by decide +kernel
  have hcleared : ((held.after stopped).strategy.stateOf 1).inPosition = false := by decide +kernel
  refine ⟨hheld, by decide +kernel, rfl, hcleared, by decide +kernel, by decide +kernel, ?_⟩
  intro hkeeps
  have hflag := hkeeps.position.inPosition
  rw [hcleared, hheld] at hflag
  cases hflag

end MomentumSession

end QuantForge
