import QuantForge.Strategy.MomentumPosition

/-! What the momentum strategy sends from a kill or a stop on, against the position that its
fills make. A stop sends an exit for every instrument whose flag is set and clears the flag; a
fill that comes back later sets it again. -/
namespace QuantForge

open Library

def exitTags : List Str := ["stop-loss".toList, "take-profit".toList, "eod-flatten".toList]

def OrderRequest.IsExit (req : OrderRequest) : Prop := req.tag ∈ exitTags

instance : DecidablePred OrderRequest.IsExit :=
  fun req => inferInstanceAs (Decidable (req.tag ∈ exitTags))

/-- The strategy's events, and the end of what remains of an order: the broker rejects or cancels
it, and `on_order_reject` only logs. -/
inductive MomentumRunEvent where
  | strategy (event : MomentumEvent)
  | dropped (order : Nat)

def MomentumRunEvent.signals : MomentumRunEvent → Bool
  | .strategy (.candle _ _ _ _ _ _) => true
  | _ => false

namespace MomentumSession

variable (s : MomentumSession)

def advance : MomentumRunEvent → MomentumSession
  | .strategy event => s.step event
  | .dropped order => { s with working := s.working.erase order }

def exitOrder (token : Nat) (tag : Str) : OrderRequest :=
  s.strategy.marketOrder token (s.strategy.stateOf token).positionSide.opposite
    (s.strategy.stateOf token).positionQty tag

def placedByFlatten (replies : Nat → SubmitReply) :
    MomentumSession → List Nat → List (MomentumSession × OrderRequest)
  | _, [] => []
  | s, token :: tokens =>
      (if (s.strategy.stateOf token).inPosition = true then
        [(s, s.exitOrder token "eod-flatten".toList)] else []) ++
        placedByFlatten replies (s.flattenOne replies token) tokens

def placedByPosition (token : Nat) (price : ℚ) : List (MomentumSession × OrderRequest) :=
  if (s.strategy.stateOf token).inPosition = false then []
  else
    match (s.strategy.stateOf token).exitTag price with
    | none => []
    | some tag => [(s, s.exitOrder token tag)]

def placedByTick (t : NormalizedTick) : List (MomentumSession × OrderRequest) :=
  if s.strategy.alive = false then []
  else
    (s.modify t.instrumentToken fun st => { st with lastLtp := t.ltp }).placedByPosition
      t.instrumentToken t.ltp

def placedBySignal (token : Nat) (ctx : SignalContext) : List (MomentumSession × OrderRequest) :=
  if s.strategy.Signals token ctx then
    match s.strategy.entry token ctx with
    | none => []
    | some (side, qty, atrVal) =>
        [({ s with strategy := s.strategy.arm token side atrVal ctx.entryNow },
          s.strategy.marketOrder token side qty (MomentumStrategy.entryTag side))]
  else []

def placed : MomentumRunEvent → List (MomentumSession × OrderRequest)
  | .strategy (.tick t _) => s.placedByTick t
  | .strategy (.candle token closes highs lows ctx _) =>
      MomentumSession.placedBySignal
        (s.modify token fun st => { st with closes := closes, highs := highs, lows := lows })
        token ctx
  | .strategy (.flatten replies) =>
      placedByFlatten replies { s with strategy := { s.strategy with alive := false } }
        s.strategy.states.keys
  | .strategy (.start _) | .strategy (.fill _ _) | .strategy (.updateParams _) | .dropped _ => []

def TickExits (t : NormalizedTick) : Prop :=
  s.strategy.alive = true ∧ (s.strategy.stateOf t.instrumentToken).inPosition = true ∧
    ((s.strategy.stateOf t.instrumentToken).exitTag t.ltp).isSome = true

def ticked (t : NormalizedTick) : MomentumSession :=
  s.modify t.instrumentToken fun st => { st with lastLtp := t.ltp }

theorem sameView_ticked (t : NormalizedTick) : s.SameView (s.ticked t) :=
  s.sameView_modify t.instrumentToken (fun _ => rfl) (fun _ => rfl) fun _ => rfl

theorem stateOf_ticked (t : NormalizedTick) (token : Nat) :
    (s.ticked t).strategy.stateOf token =
      if token = t.instrumentToken then { s.strategy.stateOf token with lastLtp := t.ltp }
      else s.strategy.stateOf token := by
  refine (s.strategy.stateOf_modify _ _ token).trans ?_
  split
  · rename_i heq
    rw [heq]
  · rfl

/-- A tick that triggers no exit at most notes the price; one that does sends this exit. -/
theorem onTick_cases (t : NormalizedTick) (reply : SubmitReply) :
    (¬s.TickExits t ∧ s.placedByTick t = [] ∧
        (s.onTick t reply = s ∨ s.onTick t reply = s.ticked t)) ∨
      ∃ tag, s.TickExits t ∧
        s.placedByTick t = [(s.ticked t, (s.ticked t).exitOrder t.instrumentToken tag)] ∧
          s.onTick t reply = (s.ticked t).exit t.instrumentToken tag reply := by
  have hstate := s.stateOf_ticked t t.instrumentToken
  rw [if_pos rfl] at hstate
  have htag : ((s.ticked t).strategy.stateOf t.instrumentToken).exitTag t.ltp =
      (s.strategy.stateOf t.instrumentToken).exitTag t.ltp := by
    rw [hstate]
    rfl
  have hflag : ((s.ticked t).strategy.stateOf t.instrumentToken).inPosition =
      (s.strategy.stateOf t.instrumentToken).inPosition := by
    rw [hstate]
  rw [onTick, placedByTick, managePosition, placedByPosition, ← ticked, htag, hflag]
  cases halive : s.strategy.alive with
  | false => exact .inl ⟨fun h => absurd (halive.symm.trans h.1) Bool.false_ne_true, rfl, .inl rfl⟩
  | true =>
      cases hopen : (s.strategy.stateOf t.instrumentToken).inPosition with
      | false =>
          exact .inl ⟨fun h => absurd (hopen.symm.trans h.2.1) Bool.false_ne_true, rfl,
            .inr rfl⟩
      | true =>
          cases hexit : (s.strategy.stateOf t.instrumentToken).exitTag t.ltp with
          | none =>
              refine .inl ⟨fun h => ?_, rfl, .inr rfl⟩
              have hsome := h.2.2
              rw [hexit] at hsome
              cases hsome
          | some tag =>
              exact .inr ⟨tag, ⟨halive, hopen, by rw [hexit]; rfl⟩, rfl, rfl⟩

section Stems
variable {s} {s' s'' : MomentumSession} {reqs reqs' : List OrderRequest}

/-- An order that works in `s'` works in `s` already, or its request is one of these. -/
def Stems (s s' : MomentumSession) (reqs : List OrderRequest) : Prop :=
  ∀ order o', s'.working.lookup order = some o' →
    (∃ o, s.working.lookup order = some o ∧ o.req = o'.req) ∨ o'.req ∈ reqs

theorem stems_of_working (h : s'.working = s.working) : Stems s s' reqs := by
  intro order o' hlookup
  rw [h] at hlookup
  exact .inl ⟨o', hlookup, rfl⟩

theorem Stems.trans (h : Stems s s' reqs) (h' : Stems s' s'' reqs') :
    Stems s s'' (reqs ++ reqs') := by
  intro order o'' hlookup
  obtain ⟨o', ho', hreq'⟩ | hnew := h' order o'' hlookup
  · obtain ⟨o, ho, hreq⟩ | hnew := h order o' ho'
    · exact .inl ⟨o, ho, hreq.trans hreq'⟩
    · exact .inr (List.mem_append_left _ (hreq' ▸ hnew))
  · exact .inr (List.mem_append_right _ hnew)

theorem stems_execute (order : Nat) (x : Execution) : Stems s (s.execute order x) [] := by
  obtain heq | ⟨o, hlookup, hfills⟩ := s.execute_cases order x
  · exact stems_of_working (congrArg working heq)
  · intro other o' hother
    rw [lookup_execute hlookup hfills] at hother
    split at hother
    · rename_i heq
      split at hother
      · cases hother
      · exact .inl ⟨o, heq ▸ hlookup, Option.some.inj hother ▸ rfl⟩
    · exact .inl ⟨o', hother, rfl⟩

theorem stems_accept (req : OrderRequest) : Stems s (s.accept req) [req] := by
  intro order o' hlookup
  obtain ⟨-, rfl⟩ | ⟨-, hold⟩ := Dict.lookup_insert_eq_some.mp hlookup
  · exact .inr (List.mem_singleton_self req)
  · exact .inl ⟨o', hold, rfl⟩

theorem stems_placeMarket (token : Nat) (side : Side) (qty : Int) (tag : Str)
    (reply : SubmitReply) : Stems s (s.placeMarket token side qty tag reply)
      [s.strategy.marketOrder token side qty tag] := by
  unfold placeMarket
  split
  · refine Run.run_invariant (fun s' => Stems s s' _) (fun s' x h => ?_) (stems_accept _)
      reply.executions
    exact (h.trans (stems_execute s.nextOrder x))
  · exact stems_of_working rfl

theorem stems_exit (token : Nat) (tag : Str) (reply : SubmitReply) :
    Stems s (s.exit token tag reply) [s.exitOrder token tag] :=
  stems_placeMarket token _ _ tag reply

theorem stems_flatten (replies : Nat → SubmitReply) (tokens : List Nat) :
    Stems s (tokens.foldl (flattenOne replies) s)
      ((placedByFlatten replies s tokens).map Prod.snd) := by
  induction tokens generalizing s with
  | nil => exact stems_of_working rfl
  | cons token tokens ih =>
      rw [placedByFlatten, List.map_append]
      refine Stems.trans ?_ ih
      unfold flattenOne
      split
      · exact stems_exit token _ _
      · exact stems_of_working rfl

theorem stems_onTick (t : NormalizedTick) (reply : SubmitReply) :
    Stems s (s.onTick t reply) ((s.placedByTick t).map Prod.snd) := by
  obtain ⟨-, -, heq | heq⟩ | ⟨tag, -, hplaced, hexit⟩ := s.onTick_cases t reply
  · exact stems_of_working (congrArg working heq)
  · rw [heq]
    exact stems_of_working rfl
  · have hticked : Stems s (s.ticked t) [] := stems_of_working rfl
    rw [hplaced, hexit]
    exact hticked.trans (stems_exit t.instrumentToken tag reply)

theorem stems_evaluateSignal (token : Nat) (ctx : SignalContext) (reply : SubmitReply) :
    Stems s (s.evaluateSignal token ctx reply) ((s.placedBySignal token ctx).map Prod.snd) := by
  unfold evaluateSignal placedBySignal tryEntry
  split
  · cases s.strategy.entry token ctx with
    | none => exact stems_of_working rfl
    | some order =>
        have harmed : Stems s
            { s with strategy := s.strategy.arm token order.1 order.2.2 ctx.entryNow } [] :=
          stems_of_working rfl
        exact harmed.trans (stems_placeMarket token order.1 order.2.1 _ reply)
  · exact stems_of_working rfl

/-- Every order that an event sets to work is one that it places. -/
theorem stems_advance (event : MomentumRunEvent) :
    Stems s (s.advance event) ((s.placed event).map Prod.snd) := by
  cases event with
  | dropped order =>
      intro other o' hlookup
      exact .inl ⟨o', (Dict.lookup_erase_eq_some.mp hlookup).2, rfl⟩
  | strategy event =>
      cases event with
      | tick t reply => exact stems_onTick t reply
      | candle token closes highs lows ctx reply => exact stems_evaluateSignal token ctx reply
      | fill order x => exact stems_execute order x
      | flatten replies => exact stems_flatten replies _
      | start params => exact stems_of_working rfl
      | updateParams params => exact stems_of_working rfl

end Stems

def unfilledExits (token : Nat) : Int :=
  s.working.sumBy fun _ o =>
    if o.req.instrumentToken = token ∧ o.req.IsExit then o.remaining else 0

/-- The order is on the side opposite to the net position and, with the exits that are not
filled, no larger than it. -/
def Reduces (req : OrderRequest) : Prop :=
  req.side.signed (s.net req.instrumentToken) < 0 ∧
    req.quantity + s.unfilledExits req.instrumentToken ≤ |s.net req.instrumentToken|

instance (req : OrderRequest) : Decidable (s.Reduces req) := inferInstanceAs (Decidable (_ ∧ _))

def OnlyReduces (event : MomentumRunEvent) : Prop := ∀ p ∈ s.placed event, p.1.Reduces p.2

instance (event : MomentumRunEvent) : Decidable (s.OnlyReduces event) :=
  inferInstanceAs (Decidable (∀ p ∈ s.placed event, p.1.Reduces p.2))

/-- An execution that is read as an opening is not against the net position that it meets, and
this position covers the exits that are still not filled. -/
def OpensRight (order : Nat) (x : Execution) : Prop :=
  ∀ o ∈ s.working.lookup order, 0 < x.quantity ∧ x.quantity ≤ o.remaining →
    (s.strategy.stateOf o.req.instrumentToken).inPosition = false →
      s.unfilledExits o.req.instrumentToken - (if o.req.IsExit then x.quantity else 0) ≤
        o.req.side.signed (s.net o.req.instrumentToken)

instance (order : Nat) (x : Execution) : Decidable (s.OpensRight order x) :=
  inferInstanceAs (Decidable (∀ o ∈ s.working.lookup order, _ → _ → _))

def OpeningsRight : MomentumRunEvent → Prop
  | .strategy event => s.Guarded OpensRight (fun _ => True) event
  | .dropped _ => True

instance : DecidablePred s.OpeningsRight
  | .strategy event => inferInstanceAs (Decidable (s.Guarded OpensRight (fun _ => True) event))
  | .dropped _ => inferInstanceAs (Decidable True)

/-- The believed position of the instrument, and the exits that are not filled with it, lie within
its net position. -/
def Covers (token : Nat) : Prop :=
  (s.strategy.stateOf token).inPosition = true →
    0 < (s.strategy.stateOf token).positionQty ∧
      (s.strategy.stateOf token).positionQty + s.unfilledExits token ≤
        (s.strategy.stateOf token).positionSide.signed (s.net token)

/-- Working orders are not filled, and their numbers are not given out again. -/
structure Booked : Prop where
  remaining : ∀ order o, s.working.lookup order = some o → 0 < o.remaining
  fresh : ∀ order o, s.working.lookup order = some o → order < s.nextOrder

structure Covered : Prop extends s.Booked where
  covers : ∀ token, s.Covers token

variable {s}

section Execute
variable {order : Nat} {o : WorkingOrder} {x : Execution}
  (hlookup : s.working.lookup order = some o)
  (hfills : 0 < x.quantity ∧ x.quantity ≤ o.remaining)

include hlookup hfills

theorem unfilledExits_execute (token : Nat) : (s.execute order x).unfilledExits token =
    s.unfilledExits token -
      if o.req.instrumentToken = token ∧ o.req.IsExit then x.quantity else 0 := by
  have hsplit := Dict.sumBy_of_lookup
    (fun _ o => if o.req.instrumentToken = token ∧ o.req.IsExit then o.remaining else 0) hlookup
  rw [execute_of_fills hlookup hfills]
  unfold unfilledExits
  rw [hsplit]
  dsimp only
  by_cases hall : x.quantity = o.remaining
  · rw [if_pos hall, hall]
    abel
  · rw [if_neg hall, Dict.sumBy_insert]
    dsimp only
    split
    · abel
    · abel

theorem booked_execute_of_fills (h : s.Booked) : (s.execute order x).Booked := by
  constructor
  · intro other o' hother
    rw [lookup_execute hlookup hfills] at hother
    split at hother
    · split at hother
      · cases hother
      · rename_i hpart
        rw [← Option.some.inj hother]
        exact Int.sub_pos.mpr (lt_of_le_of_ne hfills.2 hpart)
    · exact h.remaining other o' hother
  · exact fresh_execute hlookup hfills h.fresh

theorem covers_execute_of_ne {token : Nat} (hne : token ≠ o.req.instrumentToken)
    (h : s.Covers token) : (s.execute order x).Covers token := by
  rw [Covers, stateOf_execute hlookup hfills, if_neg hne, net_execute hlookup hfills, if_neg hne,
    unfilledExits_execute hlookup hfills, if_neg (fun hown => hne hown.1.symm), add_zero, sub_zero]
  exact h

/-- An opening is covered exactly when it opens right, a closing always is. -/
theorem covers_execute_iff (hflag : (s.strategy.stateOf o.req.instrumentToken).inPosition = false) :
    (s.execute order x).Covers o.req.instrumentToken ↔
      s.unfilledExits o.req.instrumentToken - (if o.req.IsExit then x.quantity else 0) ≤
        o.req.side.signed (s.net o.req.instrumentToken) := by
  rw [Covers, stateOf_execute hlookup hfills, if_pos rfl, net_execute hlookup hfills, if_pos rfl,
    unfilledExits_execute hlookup hfills, InstrumentState.onOrderFill, if_pos hflag]
  have hquantity := hfills.1
  simp only [WorkingOrder.fill, true_and, forall_const, Side.signed_add, Side.signed_signed]
  omega

end Execute

theorem Booked.execute (h : s.Booked) (order : Nat) (x : Execution) :
    (s.execute order x).Booked := by
  obtain heq | ⟨o, hlookup, hfills⟩ := s.execute_cases order x
  · rwa [heq]
  · exact booked_execute_of_fills hlookup hfills h

theorem Covered.execute (h : s.Covered) {order : Nat} {x : Execution}
    (hright : s.OpensRight order x) : (s.execute order x).Covered := by
  refine ⟨h.toBooked.execute order x, fun token => ?_⟩
  obtain heq | ⟨o, hlookup, hfills⟩ := s.execute_cases order x
  · rw [heq]
    exact h.covers token
  by_cases hne : token = o.req.instrumentToken
  · rw [hne]
    cases hflag : (s.strategy.stateOf o.req.instrumentToken).inPosition with
    | false =>
        exact (covers_execute_iff hlookup hfills hflag).mpr (hright o hlookup hfills hflag)
    | true =>
        intro hopen
        rw [stateOf_execute hlookup hfills, if_pos rfl, InstrumentState.onOrderFill,
          if_neg (by simp [hflag])] at hopen
        cases hopen
  · exact covers_execute_of_ne hlookup hfills hne (h.covers token)

theorem Booked.accept (h : s.Booked) {req : OrderRequest} (hquantity : 0 < req.quantity) :
    (s.accept req).Booked := by
  constructor
  · intro order o hlookup
    obtain ⟨-, rfl⟩ | ⟨-, hold⟩ := Dict.lookup_insert_eq_some.mp hlookup
    · exact hquantity
    · exact h.remaining order o hold
  · exact fresh_accept h.fresh req

theorem Booked.placeMarket (h : s.Booked) {qty : Int} (hquantity : 0 < qty) (token : Nat)
    (side : Side) (tag : Str) (reply : SubmitReply) :
    (s.placeMarket token side qty tag reply).Booked := by
  unfold MomentumSession.placeMarket
  split
  · have haccepted : (s.accept (s.strategy.marketOrder token side qty tag)).Booked :=
      h.accept hquantity
    exact Run.run_invariant Booked (fun _ x hb => hb.execute s.nextOrder x) haccepted
      reply.executions
  · exact h

theorem Booked.of_sameView (h : s.Booked) {s' : MomentumSession} (hsame : s.SameView s') :
    s'.Booked := by
  constructor
  · rw [hsame.working]
    exact h.remaining
  · rw [hsame.working, hsame.nextOrder]
    exact h.fresh

theorem Booked.lookup_nextOrder (h : s.Booked) : s.working.lookup s.nextOrder = none := by
  cases hlookup : s.working.lookup s.nextOrder with
  | none => rfl
  | some o => exact absurd (h.fresh _ o hlookup) (lt_irrefl _)

theorem Booked.covers_accept (h : s.Booked) {req : OrderRequest} {token : Nat}
    (hne : token ≠ req.instrumentToken) (hcovers : s.Covers token) :
    (s.accept req).Covers token := by
  have hexits : (s.accept req).unfilledExits token = s.unfilledExits token := by
    rw [unfilledExits, MomentumSession.accept, Dict.sumBy_insert,
      ← Dict.sumBy_of_lookup_none _ h.lookup_nextOrder, if_neg fun hown => hne hown.1.symm,
      zero_add]
    rfl
  rw [Covers, hexits]
  exact hcovers

theorem Covered.accept (h : s.Covered) {req : OrderRequest} (hquantity : 0 < req.quantity)
    (hflag : (s.strategy.stateOf req.instrumentToken).inPosition = false) :
    (s.accept req).Covered := by
  refine ⟨h.toBooked.accept hquantity, fun token => ?_⟩
  by_cases hne : token = req.instrumentToken
  · intro hopen
    rw [hne] at hopen
    exact absurd (hflag.symm.trans hopen) Bool.false_ne_true
  · exact h.covers_accept hne (h.covers token)

theorem Executing.covers {order : Nat} {req : OrderRequest} {s' : MomentumSession}
    (h : Executing s order req s') {token : Nat} (hne : token ≠ req.instrumentToken)
    (xs : List Execution) (hcovers : s'.Covers token) :
    (xs.foldl (fun s' x => s'.execute order x) s').Covers token := by
  induction xs generalizing s' with
  | nil => exact hcovers
  | cons x xs ih =>
      have hnext : (s'.execute order x).Covers token := by
        obtain heq | ⟨o, hlookup, hfills⟩ := s'.execute_cases order x
        · rwa [heq]
        · refine covers_execute_of_ne hlookup hfills ?_ hcovers
          rwa [h.own o hlookup]
      exact ih (h.execute x) hnext

theorem covered_clear {token : Nat} (hbooked : s.Booked)
    (hcovers : ∀ t ≠ token, s.Covers t) :
    (s.modify token fun st => { st with inPosition := false }).Covered := by
  refine ⟨⟨hbooked.remaining, hbooked.fresh⟩, fun t => ?_⟩
  have hstate : (s.modify token fun st => { st with inPosition := false }).strategy.stateOf t =
      if t = token then { s.strategy.stateOf token with inPosition := false }
      else s.strategy.stateOf t := s.strategy.stateOf_modify token _ t
  rw [Covers, hstate]
  split
  · intro hopen
    cases hopen
  · rename_i hne
    exact hcovers t hne

theorem Covered.exit (h : s.Covered) {token : Nat}
    (hflag : (s.strategy.stateOf token).inPosition = true) (tag : Str) (reply : SubmitReply) :
    (s.exit token tag reply).Covered := by
  have hbooked := h.toBooked.placeMarket (h.covers token hflag).1 token
    (s.strategy.stateOf token).positionSide.opposite tag reply
  refine covered_clear hbooked fun t hne => ?_
  unfold placeMarket
  split
  · exact (Executing.accept s (s.exitOrder token tag)).covers hne reply.executions
      (h.toBooked.covers_accept hne (h.covers t))
  · exact h.covers t

theorem Covered.of_sameView (h : s.Covered) {s' : MomentumSession} (hsame : s.SameView s') :
    s'.Covered := by
  have hexits : s'.unfilledExits = s.unfilledExits := by
    funext token
    rw [unfilledExits, hsame.working, unfilledExits]
  refine ⟨h.toBooked.of_sameView hsame, fun token => ?_⟩
  rw [Covers, hsame.inPosition, hsame.positionSide, hsame.positionQty, hsame.net, hexits]
  exact h.covers token

theorem keeps_covered : Keeps Covered OpensRight (fun _ => True) where
  view hs hsame := hs.of_sameView hsame
  accept _ hs hquantity hflag := hs.accept hquantity hflag
  execute hs hright := hs.execute hright
  exit tag _ hs hflag _ := hs.exit hflag tag _

theorem Booked.unfilledExits_drop_le (h : s.Booked) (order token : Nat) :
    (s.advance (.dropped order)).unfilledExits token ≤ s.unfilledExits token := by
  change Dict.sumBy _ (s.working.erase order) ≤ s.working.sumBy _
  cases hlookup : s.working.lookup order with
  | none => exact (Dict.sumBy_of_lookup_none _ hlookup).ge
  | some o =>
      rw [Dict.sumBy_of_lookup _ hlookup]
      have hremaining := h.remaining order o hlookup
      split
      · omega
      · exact (zero_add _).ge

theorem Covered.drop (h : s.Covered) (order : Nat) :
    (s.advance (.dropped order)).Covered := by
  have hkept : ∀ other o, (s.advance (.dropped order)).working.lookup other = some o →
      s.working.lookup other = some o := fun other o hlookup =>
    (Dict.lookup_erase_eq_some.mp hlookup).2
  refine ⟨⟨fun other o hlookup => h.remaining other o (hkept other o hlookup),
    fun other o hlookup => h.fresh other o (hkept other o hlookup)⟩, fun token hopen => ?_⟩
  obtain ⟨hquantity, hcovers⟩ := h.covers token hopen
  have hexits := h.unfilledExits_drop_le order token
  exact ⟨hquantity, (Int.add_le_add_left hexits _).trans hcovers⟩

theorem Covered.advance (h : s.Covered) {event : MomentumRunEvent}
    (hright : s.OpeningsRight event) : (s.advance event).Covered := by
  cases event with
  | strategy event => exact keeps_covered.step h hright
  | dropped order => exact h.drop order

theorem Booked.unfilledExits_nonneg (h : s.Booked) (token : Nat) : 0 ≤ s.unfilledExits token := by
  refine Dict.sumBy_nonneg fun order o hlookup => ?_
  split
  · exact (h.remaining order o hlookup).le
  · exact le_rfl

/-- The exit of a believed position reduces the net position exactly when this covers it. -/
theorem Booked.covers_iff_reduces (h : s.Booked) {token : Nat}
    (hflag : (s.strategy.stateOf token).inPosition = true)
    (hquantity : 0 < (s.strategy.stateOf token).positionQty) (tag : Str) :
    s.Covers token ↔ s.Reduces (s.exitOrder token tag) := by
  have hexits := h.unfilledExits_nonneg token
  have hside : s.Reduces (s.exitOrder token tag) ↔
      0 < (s.strategy.stateOf token).positionSide.signed (s.net token) ∧
        (s.strategy.stateOf token).positionQty + s.unfilledExits token ≤ |s.net token| := by
    change (s.strategy.stateOf token).positionSide.opposite.signed (s.net token) < 0 ∧ _ ↔ _
    rw [Side.signed_opposite, neg_lt_zero]
    exact Iff.rfl
  have habs : 0 < (s.strategy.stateOf token).positionSide.signed (s.net token) →
      |s.net token| = (s.strategy.stateOf token).positionSide.signed (s.net token) := by
    intro hpos
    cases hcase : (s.strategy.stateOf token).positionSide with
    | buy => exact abs_of_pos (by simpa [hcase, Side.signed] using hpos)
    | sell => exact abs_of_neg (by simpa [hcase, Side.signed] using hpos)
  rw [hside]
  constructor
  · intro hcovers
    have hbound := (hcovers hflag).2
    have hpos : 0 < (s.strategy.stateOf token).positionSide.signed (s.net token) := by omega
    exact ⟨hpos, (habs hpos).symm ▸ hbound⟩
  · rintro ⟨hpos, hbound⟩ -
    exact ⟨hquantity, habs hpos ▸ hbound⟩

theorem Covered.reduces_exitOrder (h : s.Covered) {token : Nat}
    (hflag : (s.strategy.stateOf token).inPosition = true) (tag : Str) :
    s.Reduces (s.exitOrder token tag) :=
  (h.toBooked.covers_iff_reduces hflag (h.covers token hflag).1 tag).mp (h.covers token)

theorem Covered.reduces_placedByFlatten (h : s.Covered) (replies : Nat → SubmitReply)
    (tokens : List Nat) : ∀ p ∈ placedByFlatten replies s tokens, p.1.Reduces p.2 := by
  induction tokens generalizing s with
  | nil => simp [placedByFlatten]
  | cons token tokens ih =>
      intro p hp
      rcases List.mem_append.mp hp with hfirst | hrest
      · split at hfirst
        · rename_i hflag
          rw [List.mem_singleton.mp hfirst]
          exact h.reduces_exitOrder hflag _
        · cases hfirst
      · exact ih (keeps_covered.flattenOne h fun _ => trivial) p hrest

theorem Covered.reduces_placedByTick (h : s.Covered) (t : NormalizedTick) :
    ∀ p ∈ s.placedByTick t, p.1.Reduces p.2 := by
  obtain ⟨-, hplaced, -⟩ | ⟨tag, hexits, hplaced, -⟩ := s.onTick_cases t ⟨false, []⟩
  · simp [hplaced]
  · have hticked := s.sameView_ticked t
    intro p hp
    rw [hplaced, List.mem_singleton] at hp
    rw [hp]
    exact (h.of_sameView hticked).reduces_exitOrder
      ((hticked.inPosition t.instrumentToken).trans hexits.2.1) tag

theorem Covered.onlyReduces (h : s.Covered) {event : MomentumRunEvent}
    (hevent : event.signals = false) : s.OnlyReduces event := by
  cases event with
  | dropped order => exact fun p hp => absurd hp List.not_mem_nil
  | strategy event =>
      cases event with
      | tick t reply => exact h.reduces_placedByTick t
      | candle token closes highs lows ctx reply => cases hevent
      | flatten replies =>
          have hstopped : Covered { s with strategy := { s.strategy with alive := false } } :=
            h.of_sameView (sameView_of_states rfl rfl rfl rfl)
          exact hstopped.reduces_placedByFlatten replies _
      | start params => exact fun p hp => absurd hp List.not_mem_nil
      | fill order x => exact fun p hp => absurd hp List.not_mem_nil
      | updateParams params => exact fun p hp => absurd hp List.not_mem_nil

theorem booked_init (id : Str) : (init id).Booked := by
  constructor
  · intro order o hlookup
    simp [init] at hlookup
  · intro order o hlookup
    simp [init] at hlookup

theorem covered_init (id : Str) : (init id).Covered := by
  refine ⟨booked_init id, fun token hopen => ?_⟩
  cases hopen

/-- In every run in which the fills that are read as openings open right, every order that is
placed from a kill or a stop on, until a signal is evaluated again, reduces the position. -/
theorem onlyReduces_of_openingsRight (id : Str) {before after : List MomentumRunEvent}
    {replies : Nat → SubmitReply} (hsignals : ∀ event ∈ after, event.signals = false)
    (hright : Run.Along advance OpeningsRight (init id)
      (before ++ .strategy (.flatten replies) :: after)) :
    Run.Along advance OnlyReduces (Run.run advance (init id) before)
      (.strategy (.flatten replies) :: after) := by
  obtain ⟨hbefore, hafter⟩ := Run.along_append.mp hright
  have hcovered := Run.run_of_along Covered (fun _ _ h hright => Covered.advance h hright)
    (covered_init id) hbefore
  have hquiet : Run.Along advance (fun _ event => event.signals = false)
      (Run.run advance (init id) before) (.strategy (.flatten replies) :: after) :=
    Run.along_of_forall advance _ (fun _ _ h => h) _ (List.forall_mem_cons.mpr ⟨rfl, hsignals⟩)
  exact Run.along_of_along Covered
    (fun _ _ h hguard => ⟨h.advance hguard.1, h.onlyReduces hguard.2⟩) hcovered (hafter.and hquiet)

section Stops

def entered (xs : List Execution) : List MomentumRunEvent := (enter xs).map .strategy

def stop : MomentumRunEvent := .strategy (.flatten fun _ => ⟨true, []⟩)

theorem onlyReduces_late_entry_fill :
    Run.Along advance OnlyReduces (Run.run advance (init ['M']) (entered [⟨100, 110⟩]))
      [stop, .strategy (.fill 0 ⟨233, 110⟩), stop,
        .strategy (.tick { instrumentToken := 1, ltp := 50 } ⟨true, []⟩)] := by
  refine onlyReduces_of_openingsRight ['M'] ?_ ?_
  · decide
  · decide +kernel

/-- The exit of a kill is filled, its fill is read as an opening, and the stop that follows opens
a position. -/
theorem stop_opens_after_exit_fill :
    let killed := [stop, .strategy (.fill 1 ⟨333, 106⟩)]
    (((Run.run advance (init ['M']) (entered [⟨333, 110⟩] ++ killed)).placed stop).map fun p =>
        (p.1.net 1, p.2.side, p.2.quantity)) = [(0, .buy, 333)] ∧
      ¬Run.Along advance OnlyReduces (Run.run advance (init ['M']) (entered [⟨333, 110⟩]))
        (killed ++ [stop]) := by
  decide +kernel

end Stops

end MomentumSession

end QuantForge
