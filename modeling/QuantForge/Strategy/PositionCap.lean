import Mathlib.Data.Finset.Card
import QuantForge.Strategy.RefusedExit

/-! The number of instruments that the strategy holds at a time. `try_entry` counts the flags,
which are set when an entry is filled: an entry that is on its way takes no place. -/
namespace QuantForge

open Library

/-- Signals, ticks and fills; the parameters stay as they are. -/
def MomentumEvent.Trades : MomentumEvent → Prop
  | .tick _ _ | .candle _ _ _ _ _ _ | .fill _ _ => True
  | .start _ | .flatten _ | .updateParams _ => False

instance : DecidablePred MomentumEvent.Trades
  | .tick _ _ | .candle _ _ _ _ _ _ | .fill _ _ => inferInstanceAs (Decidable True)
  | .start _ | .flatten _ | .updateParams _ => inferInstanceAs (Decidable False)

def MomentumEvent.accepts : MomentumEvent → Bool
  | .tick _ reply | .candle _ _ _ _ _ reply => reply.accepted
  | .start _ | .fill _ _ | .flatten _ | .updateParams _ => false

namespace MomentumSession

variable (s : MomentumSession)

def held : Finset Nat := (s.fills.map Fill.instrumentToken).toFinset.filter (s.net · ≠ 0)

def ordered : Finset Nat := (s.working.values.map (·.req.instrumentToken)).toFinset

/-- The instruments with a position, or with an order that may open one. -/
def busy : Finset Nat := s.held ∪ s.ordered

/-- An order is accepted for an instrument that takes a place already, or there is a place left
for it. -/
def Room (cap : Int) (event : MomentumEvent) : Prop :=
  event.accepts = true → ∀ p ∈ s.placed (.strategy event),
    p.2.instrumentToken ∉ s.busy → (s.busy.card : Int) < cap

instance (cap : Int) (event : MomentumEvent) : Decidable (s.Room cap event) :=
  inferInstanceAs (Decidable (_ → ∀ p ∈ s.placed (.strategy event), _ → _))

def complete (s : MomentumSession) (fill : Nat × ℚ) : MomentumSession :=
  s.step (.fill fill.1 ⟨s.remainingOf fill.1, fill.2⟩)

/-- Whichever of the working orders are filled next, no more instruments are held than `cap`. -/
def KeepsCap (cap : Int) : Prop :=
  ∀ fills : List (Nat × ℚ), ((Run.run complete s fills).held.card : Int) ≤ cap

variable {s}

theorem mem_held {token : Nat} : token ∈ s.held ↔ s.net token ≠ 0 := by
  rw [held, Finset.mem_filter, and_iff_right_iff_imp]
  intro hnet
  rw [List.mem_toFinset]
  by_contra hnone
  refine hnet (List.sum_eq_zero fun q hq => ?_)
  obtain ⟨fill, hfill, rfl⟩ := List.mem_map.mp hq
  refine if_neg fun heq => hnone ?_
  rw [heq]
  exact List.mem_map_of_mem hfill

theorem mem_ordered {token : Nat} : token ∈ s.ordered ↔ s.Pending token := by
  rw [ordered, List.mem_toFinset, List.mem_map, Pending]
  constructor
  · rintro ⟨o, ho, htoken⟩
    obtain ⟨order, hlookup⟩ := Dict.mem_values.mp ho
    exact ⟨order, o, hlookup, htoken⟩
  · rintro ⟨order, o, hlookup, htoken⟩
    exact ⟨o, Dict.mem_values.mpr ⟨order, hlookup⟩, htoken⟩

theorem mem_busy {token : Nat} : token ∈ s.busy ↔ s.net token ≠ 0 ∨ s.Pending token := by
  rw [busy, Finset.mem_union, mem_held, mem_ordered]

theorem held_subset_busy (s : MomentumSession) : s.held ⊆ s.busy := Finset.subset_union_left

theorem busy_of_eq {s' : MomentumSession} (hworking : s'.working = s.working)
    (hfills : s'.fills = s.fills) : s'.busy = s.busy := by
  ext token
  rw [mem_busy, mem_busy, Pending, net, hworking, hfills]
  rfl

theorem busy_execute_subset (order : Nat) (x : Execution) : (s.execute order x).busy ⊆ s.busy := by
  obtain heq | ⟨o, hlookup, hfills⟩ := s.execute_cases order x
  · rw [heq]
  intro token htoken
  rw [mem_busy] at htoken ⊢
  rw [net_execute hlookup hfills] at htoken
  by_cases hown : token = o.req.instrumentToken
  · exact .inr ⟨order, o, hlookup, hown.symm⟩
  · rw [if_neg hown, add_zero] at htoken
    refine htoken.imp_right ?_
    rintro ⟨other, o', hother, htoken'⟩
    obtain ⟨o'', hold, hreq⟩ | hnew := stems_execute order x other o' hother
    · exact ⟨other, o'', hold, hreq ▸ htoken'⟩
    · cases hnew

section Place
variable {req : OrderRequest} {s' : MomentumSession}

theorem Executing.mem_busy_of_ne (h : Executing (s.accept req) s.nextOrder req s')
    (hbooked : s.Booked) {token : Nat} (hne : token ≠ req.instrumentToken) :
    token ∈ s'.busy ↔ token ∈ s.busy := by
  have hnet : s'.net token = s.net token := h.nets token hne
  have hlookup : ∀ order ≠ s.nextOrder, s'.working.lookup order = s.working.lookup order :=
    fun order hother => (h.working order hother).trans (AList.lookup_insert_ne hother)
  rw [mem_busy, mem_busy, hnet]
  refine or_congr_right ⟨?_, ?_⟩
  · rintro ⟨order, o, ho, htoken⟩
    have hother : order ≠ s.nextOrder := by
      rintro rfl
      exact hne (h.own o ho ▸ htoken.symm)
    exact ⟨order, o, hlookup order hother ▸ ho, htoken⟩
  · rintro ⟨order, o, ho, htoken⟩
    have hother := (hbooked.fresh order o ho).ne
    exact ⟨order, o, (hlookup order hother).trans ho, htoken⟩

theorem Executing.mem_busy_own (h : Executing (s.accept req) s.nextOrder req s')
    (hquantity : 0 < req.quantity) (hfree : req.instrumentToken ∉ s.busy) :
    req.instrumentToken ∈ s'.busy := by
  have hflat : s.net req.instrumentToken = 0 := by
    by_contra hnet
    exact hfree (mem_busy.mpr (Or.inl hnet))
  rw [mem_busy]
  cases hlookup : s'.working.lookup s.nextOrder with
  | some o => exact Or.inr ⟨s.nextOrder, o, hlookup, congrArg _ (h.own o hlookup)⟩
  | none =>
      left
      have hnet := h.net_of_filled hlookup
      rw [show (s.accept req).net req.instrumentToken = 0 from hflat, zero_add] at hnet
      rw [hnet]
      cases req.side <;> simp [Side.signed] <;> omega

end Place

section PlaceMarket
variable {token : Nat} {side : Side} {qty : Int} {tag : Str} {reply : SubmitReply}

theorem executing_placeMarket (haccepted : reply.accepted = true) :
    Executing (s.accept (s.strategy.marketOrder token side qty tag)) s.nextOrder
      (s.strategy.marketOrder token side qty tag) (s.placeMarket token side qty tag reply) := by
  rw [placeMarket, if_pos haccepted]
  exact (Executing.accept s _).executions reply.executions

theorem placeMarket_of_refused (hrefused : reply.accepted = false) :
    s.placeMarket token side qty tag reply = s := by
  rw [placeMarket, if_neg (by simp [hrefused])]

theorem busy_placeMarket_subset (hbooked : s.Booked) (haccepted : reply.accepted = true) :
    (s.placeMarket token side qty tag reply).busy ⊆ insert token s.busy := by
  intro t ht
  by_cases heq : t = token
  · exact heq ▸ Finset.mem_insert_self _ _
  · exact Finset.mem_insert_of_mem
      (((executing_placeMarket haccepted).mem_busy_of_ne hbooked heq).mp ht)

theorem busy_placeMarket (hbooked : s.Booked) (haccepted : reply.accepted = true)
    (hquantity : 0 < qty) (hfree : token ∉ s.busy) :
    (s.placeMarket token side qty tag reply).busy = insert token s.busy := by
  refine (busy_placeMarket_subset hbooked haccepted).antisymm fun t ht => ?_
  have hexec : Executing _ _ _ (s.placeMarket token side qty tag reply) :=
    executing_placeMarket haccepted
  by_cases heq : t = token
  · subst heq
    exact hexec.mem_busy_own hquantity hfree
  · exact (hexec.mem_busy_of_ne hbooked heq).mpr (Finset.mem_of_mem_insert_of_ne ht heq)

end PlaceMarket

structure Sized (s : MomentumSession) : Prop extends s.Booked where
  quantity : ∀ token, (s.strategy.stateOf token).inPosition = true →
    0 < (s.strategy.stateOf token).positionQty

theorem Sized.execute (h : s.Sized) (order : Nat) (x : Execution) :
    (s.execute order x).Sized := by
  refine ⟨h.toBooked.execute order x, fun token => ?_⟩
  obtain heq | ⟨o, hlookup, hfills⟩ := s.execute_cases order x
  · rw [heq]
    exact h.quantity token
  · rw [stateOf_execute hlookup hfills, InstrumentState.onOrderFill]
    split
    · split
      · exact fun _ => hfills.1
      · exact fun hflag => absurd hflag Bool.false_ne_true
    · exact h.quantity token

theorem Sized.exit (h : s.Sized) {token : Nat}
    (hflag : (s.strategy.stateOf token).inPosition = true) (tag : Str) (reply : SubmitReply) :
    (s.exit token tag reply).Sized := by
  have hbooked := h.toBooked.placeMarket (h.quantity token hflag) token
    (s.strategy.stateOf token).positionSide.opposite tag reply
  refine ⟨⟨hbooked.remaining, hbooked.fresh⟩, fun t => ?_⟩
  by_cases heq : t = token
  · rw [heq, MomentumSession.exit]
    intro hopen
    rw [MomentumSession.modify, MomentumStrategy.stateOf_modify, if_pos rfl] at hopen
    cases hopen
  · rw [stateOf_exit_of_ne heq]
    exact h.quantity t

theorem keeps_sized : Keeps Sized (fun _ _ _ => True) (fun _ => True) where
  view hs hsame := by
    refine ⟨hs.toBooked.of_sameView hsame, fun token => ?_⟩
    rw [hsame.inPosition, hsame.positionQty]
    exact hs.quantity token
  accept _ hs hquantity _ := ⟨hs.toBooked.accept hquantity, hs.quantity⟩
  execute hs _ := hs.execute _ _
  exit tag _ hs hflag _ := hs.exit hflag tag _

theorem Sized.step (h : s.Sized) (event : MomentumEvent) : (s.step event).Sized := by
  refine keeps_sized.step h ?_
  cases event with
  | tick t reply => exact fun _ _ _ => trivial
  | candle token closes highs lows ctx reply =>
      exact fun _ _ _ _ => Run.along_of_forall _ (fun _ => True) (fun _ _ _ => trivial) _
        fun _ _ => trivial
  | flatten replies =>
      refine Run.along_of_forall (MomentumSession.flattenOne replies) (fun _ => True) ?_ _
        fun _ _ => trivial
      exact fun _ _ _ _ => trivial
  | fill order x => trivial
  | start params => trivial
  | updateParams params => trivial

structure Takes (before : Finset Nat) (accepted : Bool) (token : Nat) (after : Finset Nat) :
    Prop where
  refused : accepted = false → after ⊆ before
  own : token ∈ before → after ⊆ before
  free : accepted = true → token ∉ before → after = insert token before

theorem takes_placeMarket (hbooked : s.Booked) {qty : Int} (hquantity : 0 < qty) (token : Nat)
    (side : Side) (tag : Str) (reply : SubmitReply) :
    Takes s.busy reply.accepted token (s.placeMarket token side qty tag reply).busy := by
  constructor
  · intro hrefused
    rw [placeMarket_of_refused hrefused]
  · intro hown
    cases haccepted : reply.accepted with
    | false => rw [placeMarket_of_refused haccepted]
    | true =>
        refine (busy_placeMarket_subset hbooked haccepted).trans_eq ?_
        exact Finset.insert_eq_self.mpr hown
  · exact fun haccepted hfree => busy_placeMarket hbooked haccepted hquantity hfree

theorem takes_evaluateSignal (h : s.Sized) (token : Nat) (ctx : SignalContext)
    (reply : SubmitReply) :
    (s.placedBySignal token ctx = [] ∧ (s.evaluateSignal token ctx reply).busy ⊆ s.busy) ∨
      ∃ p, s.placedBySignal token ctx = [p] ∧ Takes s.busy reply.accepted p.2.instrumentToken
        (s.evaluateSignal token ctx reply).busy := by
  unfold placedBySignal evaluateSignal tryEntry
  split
  · cases hentry : s.strategy.entry token ctx with
    | none => exact .inl ⟨rfl, subset_rfl⟩
    | some order =>
        have hquantity := s.strategy.quantity_pos_of_entry hentry
        have harmed : Booked
            { s with strategy := s.strategy.arm token order.1 order.2.2 ctx.entryNow } :=
          ⟨h.remaining, h.fresh⟩
        exact .inr ⟨_, rfl, takes_placeMarket harmed hquantity token order.1 _ reply⟩
  · exact .inl ⟨rfl, subset_rfl⟩

theorem takes_onTick (h : s.Sized) (t : NormalizedTick) (reply : SubmitReply) :
    (s.placedByTick t = [] ∧ (s.onTick t reply).busy ⊆ s.busy) ∨
      ∃ p, s.placedByTick t = [p] ∧ Takes s.busy reply.accepted p.2.instrumentToken
        (s.onTick t reply).busy := by
  obtain ⟨-, hplaced, heq | heq⟩ | ⟨tag, hexits, hplaced, hexit⟩ := s.onTick_cases t reply
  · exact .inl ⟨hplaced, by rw [heq]⟩
  · refine .inl ⟨hplaced, ?_⟩
    rw [heq]
    exact (busy_of_eq rfl rfl).subset
  · refine .inr ⟨_, hplaced, ?_⟩
    have hticked : (s.ticked t).Sized := keeps_sized.view h (s.sameView_ticked t)
    rw [hexit]
    refine takes_placeMarket hticked.toBooked ?_ t.instrumentToken _ tag reply
    exact hticked.quantity _ (((s.sameView_ticked t).inPosition _).trans hexits.2.1)

theorem takes_step (h : s.Sized) {event : MomentumEvent} (htrades : event.Trades) :
    (s.placed (.strategy event) = [] ∧ (s.step event).busy ⊆ s.busy) ∨
      ∃ p, s.placed (.strategy event) = [p] ∧
        Takes s.busy event.accepts p.2.instrumentToken (s.step event).busy := by
  cases event with
  | tick t reply => exact takes_onTick h t reply
  | candle token closes highs lows ctx reply =>
      have hseries : Sized (s.modify token fun st =>
          { st with closes := closes, highs := highs, lows := lows }) :=
        keeps_sized.view h (s.sameView_modify token (fun _ => rfl) (fun _ => rfl) fun _ => rfl)
      exact takes_evaluateSignal hseries token ctx reply
  | fill order x => exact .inl ⟨rfl, busy_execute_subset order x⟩
  | start params => cases htrades
  | flatten replies => cases htrades
  | updateParams params => cases htrades

theorem card_busy_step_iff (h : s.Sized) {cap : Int} (hcap : (s.busy.card : Int) ≤ cap)
    {event : MomentumEvent} (htrades : event.Trades) :
    ((s.step event).busy.card : Int) ≤ cap ↔ s.Room cap event := by
  have hwithin : (s.step event).busy ⊆ s.busy → ((s.step event).busy.card : Int) ≤ cap :=
    fun hsubset => le_trans (Int.ofNat_le.mpr (Finset.card_le_card hsubset)) hcap
  obtain ⟨hplaced, hsubset⟩ | ⟨p, hplaced, htakes⟩ := takes_step h htrades
  · refine iff_of_true (hwithin hsubset) fun _ p hp => ?_
    rw [hplaced] at hp
    cases hp
  · rw [Room, hplaced]
    simp only [List.mem_singleton, forall_eq]
    cases haccepts : event.accepts with
    | false => exact iff_of_true (hwithin (htakes.refused haccepts)) nofun
    | true =>
        by_cases hown : p.2.instrumentToken ∈ s.busy
        · exact iff_of_true (hwithin (htakes.own hown)) fun _ hfree => absurd hown hfree
        · rw [htakes.free haccepts hown, Finset.card_insert_of_notMem hown]
          simp only [hown, not_false_eq_true, forall_const]
          omega

theorem busy_complete_subset (s : MomentumSession) (fill : Nat × ℚ) :
    (s.complete fill).busy ⊆ s.busy := busy_execute_subset _ _

theorem complete_of_pending (hbooked : s.Booked) {token : Nat} (hflat : s.net token = 0)
    (hpending : s.Pending token) :
    ∃ fill, (s.complete fill).Booked ∧ s.busy ⊆ (s.complete fill).busy ∧
      insert token s.held ⊆ (s.complete fill).held := by
  obtain ⟨order, o, hlookup, rfl⟩ := hpending
  have hremaining : s.remainingOf order = o.remaining := by
    rw [remainingOf, hlookup]
    rfl
  have hfills : 0 < s.remainingOf order ∧ s.remainingOf order ≤ o.remaining :=
    ⟨hremaining ▸ hbooked.remaining order o hlookup, hremaining.le⟩
  have hnet : ∀ token, (s.complete (order, 0)).net token = s.net token +
      if token = o.req.instrumentToken then o.req.side.signed (s.remainingOf order) else 0 :=
    net_execute (x := ⟨s.remainingOf order, 0⟩) hlookup hfills
  have hown : (s.complete (order, 0)).net o.req.instrumentToken ≠ 0 := by
    rw [hnet, if_pos rfl, hflat, zero_add]
    have hpos := hfills.1
    cases o.req.side <;> simp [Side.signed] <;> omega
  have hother : ∀ token ≠ o.req.instrumentToken,
      (s.complete (order, 0)).net token = s.net token := by
    intro token hne
    rw [hnet, if_neg hne, add_zero]
  refine ⟨(order, 0), hbooked.execute _ _, fun token htoken => ?_, fun token htoken => ?_⟩
  · rw [mem_busy] at htoken ⊢
    by_cases heq : token = o.req.instrumentToken
    · exact .inl (heq ▸ hown)
    · rw [hother token heq]
      refine htoken.imp_right ?_
      rintro ⟨other, o', hlookup', htoken'⟩
      have hne : other ≠ order := by
        rintro rfl
        exact heq (htoken' ▸ congrArg (·.req.instrumentToken)
          (Option.some.inj (hlookup'.symm.trans hlookup)))
      refine ⟨other, o', ?_, htoken'⟩
      exact (lookup_execute (x := ⟨s.remainingOf order, 0⟩) hlookup hfills other).trans
        ((if_neg hne).trans hlookup')
  · rw [mem_held]
    by_cases heq : token = o.req.instrumentToken
    · exact heq ▸ hown
    · rw [hother token heq]
      exact mem_held.mp (Finset.mem_of_mem_insert_of_ne htoken heq)

/-- All that takes a place can come to be held. -/
theorem exists_fills_held (hbooked : s.Booked) :
    ∃ fills, s.busy ⊆ (Run.run complete s fills).held := by
  induction hmissing : (s.busy \ s.held).card using Nat.strong_induction_on generalizing s with
  | _ missing ih =>
      by_cases hall : s.busy ⊆ s.held
      · exact ⟨[], hall⟩
      · obtain ⟨token, hbusy, hfree⟩ := Finset.not_subset.mp hall
        have hflat : s.net token = 0 := not_not.mp fun hnet => hfree (mem_held.mpr hnet)
        have hpending := (mem_busy.mp hbusy).resolve_left (not_not.mpr hflat)
        obtain ⟨fill, hnext, hkept, hheld⟩ := complete_of_pending hbooked hflat hpending
        have hfewer : ((s.complete fill).busy \ (s.complete fill).held).card <
            (s.busy \ s.held).card := by
          refine Finset.card_lt_card ((Finset.ssubset_iff_of_subset ?_).mpr
            ⟨token, Finset.mem_sdiff.mpr ⟨hbusy, hfree⟩, fun hin => ?_⟩)
          · exact Finset.sdiff_subset_sdiff (s.busy_complete_subset fill)
              ((Finset.subset_insert token s.held).trans hheld)
          · exact (Finset.mem_sdiff.mp hin).2 (hheld (Finset.mem_insert_self token _))
        obtain ⟨fills, hfills⟩ := ih _ (hmissing ▸ hfewer) hnext rfl
        exact ⟨fill :: fills, hkept.trans hfills⟩

theorem keepsCap_iff (hbooked : s.Booked) {cap : Int} :
    s.KeepsCap cap ↔ (s.busy.card : Int) ≤ cap := by
  constructor
  · intro hkeeps
    obtain ⟨fills, hheld⟩ := exists_fills_held hbooked
    exact le_trans (Int.ofNat_le.mpr (Finset.card_le_card hheld)) (hkeeps fills)
  · intro hcap fills
    have hbusy : (Run.run complete s fills).busy ⊆ s.busy :=
      Run.run_invariant (fun s' : MomentumSession => s'.busy ⊆ s.busy)
        (fun s' fill h => (s'.busy_complete_subset fill).trans h) subset_rfl fills
    have hheld := (held_subset_busy (Run.run complete s fills)).trans hbusy
    exact le_trans (Int.ofNat_le.mpr (Finset.card_le_card hheld)) hcap

theorem card_le_active {tokens : Finset Nat}
    (hflags : ∀ token ∈ tokens, (s.strategy.stateOf token).inPosition = true) :
    tokens.card ≤ s.strategy.active := by
  let counted := s.strategy.states.entries.filter fun e => e.2.inPosition
  have hsubset : tokens ⊆ (counted.map Sigma.fst).toFinset := by
    intro token htoken
    have hflag := hflags token htoken
    rw [List.mem_toFinset]
    cases hlookup : s.strategy.states.lookup token with
    | none =>
        have hflat := flat_of_unknown (AList.lookup_eq_none.mp hlookup)
        exact absurd (hflat.symm.trans hflag) Bool.false_ne_true
    | some st =>
        rw [MomentumStrategy.stateOf, hlookup] at hflag
        exact List.mem_map_of_mem (List.mem_filter.mpr ⟨Dict.mem_of_lookup hlookup, hflag⟩)
  calc
    tokens.card ≤ (counted.map Sigma.fst).toFinset.card := Finset.card_le_card hsubset
    _ ≤ (counted.map Sigma.fst).length := List.toFinset_card_le _
    _ = s.strategy.active := by
      rw [List.length_map, MomentumStrategy.active, Dict.values, List.countP_map,
        List.countP_eq_length_filter]
      rfl

theorem room_of_shown (hshown : ∀ token ∈ s.busy, (s.strategy.stateOf token).inPosition = true)
    (token : Nat) (closes : PriceSeries) (highs lows : List ℚ) (ctx : SignalContext)
    (reply : SubmitReply) :
    s.Room s.strategy.maxPositions (.candle token closes highs lows ctx reply) := by
  let s' := s.modify token fun st => { st with closes := closes, highs := highs, lows := lows }
  have hactive : s.busy.card ≤ s'.strategy.active := by
    refine card_le_active fun t ht => ?_
    have hview : s.SameView s' :=
      s.sameView_modify token (fun _ => rfl) (fun _ => rfl) fun _ => rfl
    exact (hview.inPosition t).trans (hshown t ht)
  intro _ p hp _
  change p ∈ s'.placedBySignal token ctx at hp
  rw [placedBySignal, MomentumStrategy.entry] at hp
  split at hp
  · by_cases hfull : (s'.strategy.active : Int) ≥ s'.strategy.maxPositions
    · rw [if_pos hfull] at hp
      cases hp
    · exact lt_of_le_of_lt (Int.ofNat_le.mpr hactive) (not_le.mp hfull)
  · cases hp

theorem sized_init (id : Str) : (init id).Sized := ⟨booked_init id, fun _ => nofun⟩

theorem busy_le_iff_room (h : s.Sized) {cap : Int} (hcap : (s.busy.card : Int) ≤ cap)
    {events : List MomentumEvent} (htrades : ∀ event ∈ events, event.Trades) :
    Run.Always step (fun s => (s.busy.card : Int) ≤ cap) s events ↔
      Run.Along step (fun s event => s.Room cap event) s events := by
  have hok : Run.Along step (fun _ event => event.Trades) s events :=
    Run.along_of_forall step _ (fun _ _ htrades => htrades) s htrades
  refine Run.always_iff_along Sized (fun _ event => event.Trades) ?_ ?_ hok h hcap
  · exact fun _ event h _ _ => h.step event
  · exact fun s event h hcap htrades => card_busy_step_iff h hcap htrades

/-- In a run of signals, ticks and fills, whatever is filled when, no more instruments than
`max_positions_` are ever held exactly when this is not negative and every order is accepted for
an instrument that takes a place already, or with a place left. -/
theorem keepsCap_iff_room (id : Str) (params : Dict Str ℚ) {events : List MomentumEvent}
    (htrades : ∀ event ∈ events, event.Trades) :
    let started := (init id).step (.start params)
    (∀ k, (Run.run step started (events.take k)).KeepsCap started.strategy.maxPositions) ↔
      0 ≤ started.strategy.maxPositions ∧
        Run.Along step (fun s event => s.Room started.strategy.maxPositions event) started
          events := by
  intro started
  have hstarted : started.Sized := (sized_init id).step (.start params)
  have hsized : ∀ k, (Run.run step started (events.take k)).Sized := fun k =>
    Run.run_invariant Sized (fun _ event h => h.step event) hstarted (events.take k)
  have hempty : started.busy.card = 0 := rfl
  have halways : (∀ k, (Run.run step started (events.take k)).KeepsCap
      started.strategy.maxPositions) ↔
        Run.Always step (fun s => (s.busy.card : Int) ≤ started.strategy.maxPositions) started
          events := by
    rw [Run.always_iff_take]
    exact forall_congr' fun k => keepsCap_iff (hsized k).toBooked
  rw [halways]
  constructor
  · intro hkept
    have hcap := hkept.head
    refine ⟨?_, (busy_le_iff_room hstarted hcap htrades).mp hkept⟩
    rwa [hempty] at hcap
  · rintro ⟨hcap, hroom⟩
    refine (busy_le_iff_room hstarted ?_ htrades).mpr hroom
    rwa [hempty]

section Entries

def enterOn (token : Nat) : List MomentumEvent :=
  [.tick { instrumentToken := token, ltp := 110 } ⟨false, []⟩,
    .candle token { data := List.replicate 25 100 ++ [110] } (List.replicate 26 101)
      (List.replicate 26 99) ⟨300000000000, 300000000000, 100000, 0⟩ ⟨true, []⟩]

theorem keepsCap_two_entries :
    (Run.run step ((init ['M']).step (.start ∅))
      ((enterOn 1 ++ enterOn 2 ++ [MomentumEvent.fill 0 ⟨333, 110⟩]).take 5)).KeepsCap 3 := by
  refine (keepsCap_iff_room ['M'] ∅ ?_).mpr ⟨?_, ?_⟩ 5
  · decide
  · decide +kernel
  · decide +kernel

/-- Four instruments break out before the first entry is filled: each signal counts no position,
and all four entries are filled. -/
theorem four_entries_pass_cap_of_three :
    let started := (init ['M']).step (.start ∅)
    let events := enterOn 1 ++ enterOn 2 ++ enterOn 3 ++ enterOn 4 ++
      (List.range 4).map fun order => MomentumEvent.fill order ⟨333, 110⟩
    (∀ event ∈ events, event.Trades) ∧ started.strategy.maxPositions = 3 ∧
      (Run.run step started events).held.card = 4 := by
  intro started events
  refine ⟨by decide, by decide +kernel, by decide +kernel⟩

end Entries

end MomentumSession

end QuantForge
