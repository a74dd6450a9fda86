import QuantForge.Engine.FillPath
import QuantForge.Strategy.MomentumStrategy

/-! The position that the momentum strategy believes in, against the sum of its fills. A fill
is read as an opening or a closing by one flag, which an exit clears when it is sent. -/
namespace QuantForge

open Library

@[simp] theorem Side.signed_opposite (side : Side) (a : Int) :
    side.opposite.signed a = -side.signed a := by
  cases side with
  | buy => rfl
  | sell => exact (neg_neg a).symm

namespace InstrumentState

def Consistent (st : InstrumentState) (net : Int) : Prop :=
  if st.inPosition = true then 0 < st.positionQty ∧ net = st.positionSide.signed st.positionQty
  else net = 0

/-- The fill is what the flag takes it for: it opens from nothing, or it closes the whole
position. -/
def ReadsRight (st : InstrumentState) (net : Int) (side : Side) (quantity : Int) : Prop :=
  if st.inPosition = true then side = st.positionSide.opposite ∧ quantity = st.positionQty
  else net = 0

instance (st : InstrumentState) (net : Int) (side : Side) (quantity : Int) :
    Decidable (st.ReadsRight net side quantity) :=
  inferInstanceAs (Decidable (if st.inPosition = true then _ ∧ _ else _ = _))

variable {st : InstrumentState} {net : Int}

private theorem signed_eq_neg_iff {side side' : Side} {a b : Int} (ha : 0 < a) (hb : 0 < b) :
    side'.signed a + side.signed b = 0 ↔ side = side'.opposite ∧ b = a := by
  cases side <;> cases side' <;> simp [Side.signed, Side.opposite] <;> omega

/-- A fill keeps the belief right exactly when it is what the flag takes it for. -/
theorem consistent_onOrderFill_iff (h : st.inPosition = true → st.Consistent net) (fill : Fill)
    (hquantity : 0 < fill.quantity) :
    (st.onOrderFill fill).Consistent (net + fill.qtyDelta) ↔
      st.ReadsRight net fill.side fill.quantity := by
  cases hflag : st.inPosition with
  | false =>
      simp only [onOrderFill, Consistent, ReadsRight, hflag, Fill.qtyDelta]
      simp [hquantity]
  | true =>
      have hheld := h hflag
      simp only [Consistent, hflag, if_true] at hheld
      simp only [onOrderFill, Consistent, ReadsRight, hflag, Fill.qtyDelta, hheld.2]
      simpa using signed_eq_neg_iff hheld.1 hquantity

end InstrumentState

namespace MomentumSession

def net (s : MomentumSession) (token : Nat) : Int :=
  (s.fills.map fun fill => fill.qtyFor token).sum

def Settled (s : MomentumSession) : Prop := s.working.keys = []

instance (s : MomentumSession) : Decidable s.Settled := inferInstanceAs (Decidable (_ = _))

structure Agrees (s : MomentumSession) (token : Nat) : Prop where
  flag : (s.strategy.stateOf token).inPosition = true ↔ s.net token ≠ 0
  side : (s.strategy.stateOf token).inPosition = true →
    (s.strategy.stateOf token).positionSide = if 0 < s.net token then .buy else .sell
  quantity : (s.strategy.stateOf token).inPosition = true →
    (s.strategy.stateOf token).positionQty = |s.net token|

theorem agrees_of_consistent {s : MomentumSession} {token : Nat}
    (h : (s.strategy.stateOf token).Consistent (s.net token)) : s.Agrees token := by
  cases hflag : (s.strategy.stateOf token).inPosition with
  | false =>
      simp only [InstrumentState.Consistent, hflag] at h
      constructor <;> simp_all
  | true =>
      simp only [InstrumentState.Consistent, hflag, if_true] at h
      obtain ⟨hpos, hnet⟩ := h
      constructor
      · simp only [hflag, hnet, true_iff]
        cases (s.strategy.stateOf token).positionSide <;> simp [Side.signed] <;> omega
      · intro _
        rw [hnet]
        cases (s.strategy.stateOf token).positionSide <;> simp [Side.signed] <;> omega
      · intro _
        rw [hnet]
        cases (s.strategy.stateOf token).positionSide with
        | buy => exact (abs_of_pos hpos).symm
        | sell => exact ((abs_neg _).trans (abs_of_pos hpos)).symm

def Pending (s : MomentumSession) (token : Nat) : Prop :=
  ∃ order o, s.working.lookup order = some o ∧ o.req.instrumentToken = token

/-- Of every instrument the strategy has the right position, or it holds itself to be flat
while an order of the instrument is working. -/
structure Tracked (s : MomentumSession) : Prop where
  known : ∀ token, (s.strategy.stateOf token).Consistent (s.net token) ∨
    (s.strategy.stateOf token).inPosition = false ∧ s.Pending token
  fresh : ∀ order o, s.working.lookup order = some o → order < s.nextOrder

def ReadsRight (s : MomentumSession) (order : Nat) (x : Execution) : Prop :=
  ∀ o ∈ s.working.lookup order, 0 < x.quantity ∧ x.quantity ≤ o.remaining →
    (s.strategy.stateOf o.req.instrumentToken).ReadsRight (s.net o.req.instrumentToken)
      o.req.side x.quantity

instance (s : MomentumSession) (order : Nat) (x : Execution) : Decidable (s.ReadsRight order x) :=
  inferInstanceAs (Decidable (∀ o ∈ s.working.lookup order, _))

structure SameView (s s' : MomentumSession) : Prop where
  inPosition : ∀ token,
    (s'.strategy.stateOf token).inPosition = (s.strategy.stateOf token).inPosition
  positionSide : ∀ token,
    (s'.strategy.stateOf token).positionSide = (s.strategy.stateOf token).positionSide
  positionQty : ∀ token,
    (s'.strategy.stateOf token).positionQty = (s.strategy.stateOf token).positionQty
  working : s'.working = s.working
  nextOrder : s'.nextOrder = s.nextOrder
  fills : s'.fills = s.fills

theorem sameView_modify (s : MomentumSession) (token : Nat)
    {f : InstrumentState → InstrumentState} (hflag : ∀ st, (f st).inPosition = st.inPosition)
    (hside : ∀ st, (f st).positionSide = st.positionSide)
    (hquantity : ∀ st, (f st).positionQty = st.positionQty) : s.SameView (s.modify token f) := by
  exact ⟨s.strategy.part_modify token hflag, s.strategy.part_modify token hside,
    s.strategy.part_modify token hquantity, rfl, rfl, rfl⟩

theorem sameView_of_states {s s' : MomentumSession}
    (hstates : s'.strategy.states = s.strategy.states) (hworking : s'.working = s.working)
    (hnext : s'.nextOrder = s.nextOrder) (hfills : s'.fills = s.fills) : s.SameView s' := by
  have hstate : s'.strategy.stateOf = s.strategy.stateOf := by
    funext token
    rw [MomentumStrategy.stateOf, hstates, MomentumStrategy.stateOf]
  refine ⟨fun _ => ?_, fun _ => ?_, fun _ => ?_, hworking, hnext, hfills⟩ <;> rw [hstate]

theorem SameView.net {s s' : MomentumSession} (h : s.SameView s') : s'.net = s.net := by
  funext token
  rw [MomentumSession.net, h.fills, MomentumSession.net]

variable {s : MomentumSession}

theorem execute_of_fills {order : Nat} {o : WorkingOrder} {x : Execution}
    (hlookup : s.working.lookup order = some o)
    (hfills : 0 < x.quantity ∧ x.quantity ≤ o.remaining) :
    s.execute order x =
      { s with
        strategy := s.strategy.onOrderFill (o.fill x)
        working :=
          if x.quantity = o.remaining then s.working.erase order
          else s.working.insert order { o with remaining := o.remaining - x.quantity }
        fills := o.fill x :: s.fills } := by
  rw [execute, hlookup]
  exact if_pos hfills

theorem execute_cases (s : MomentumSession) (order : Nat) (x : Execution) :
    s.execute order x = s ∨ ∃ o, s.working.lookup order = some o ∧
      0 < x.quantity ∧ x.quantity ≤ o.remaining := by
  unfold execute
  cases hlookup : s.working.lookup order with
  | none => exact .inl rfl
  | some o =>
      by_cases hfills : 0 < x.quantity ∧ x.quantity ≤ o.remaining
      · exact .inr ⟨o, rfl, hfills⟩
      · exact .inl (if_neg hfills)

section Execute

variable {order : Nat} {o : WorkingOrder} {x : Execution}
  (hlookup : s.working.lookup order = some o)
  (hfills : 0 < x.quantity ∧ x.quantity ≤ o.remaining)

include hlookup hfills

theorem stateOf_execute (token : Nat) : (s.execute order x).strategy.stateOf token =
    if token = o.req.instrumentToken then
      (s.strategy.stateOf o.req.instrumentToken).onOrderFill (o.fill x)
    else s.strategy.stateOf token := by
  rw [execute_of_fills hlookup hfills]
  exact s.strategy.stateOf_modify _ _ token

theorem net_execute (token : Nat) : (s.execute order x).net token =
    s.net token + if token = o.req.instrumentToken then o.req.side.signed x.quantity else 0 := by
  rw [execute_of_fills hlookup hfills, net, List.map_cons, List.sum_cons, add_comm]
  rfl

theorem lookup_execute (other : Nat) : (s.execute order x).working.lookup other =
    if other = order then
      if x.quantity = o.remaining then none
      else some { o with remaining := o.remaining - x.quantity }
    else s.working.lookup other := by
  rw [execute_of_fills hlookup hfills]
  dsimp only
  by_cases heq : other = order
  · rw [if_pos heq, heq]
    split
    · exact AList.lookup_erase ..
    · exact AList.lookup_insert ..
  · rw [if_neg heq]
    split
    · exact AList.lookup_erase_ne heq
    · exact AList.lookup_insert_ne heq

theorem nextOrder_execute : (s.execute order x).nextOrder = s.nextOrder := by
  rw [execute_of_fills hlookup hfills]

theorem fresh_execute
    (h : ∀ other o', s.working.lookup other = some o' → other < s.nextOrder) (other : Nat)
    (o' : WorkingOrder) (hother : (s.execute order x).working.lookup other = some o') :
    other < (s.execute order x).nextOrder := by
  rw [nextOrder_execute hlookup hfills]
  rw [lookup_execute hlookup hfills] at hother
  split at hother
  · rename_i heq
    rw [heq]
    exact h order o hlookup
  · exact h other o' hother

end Execute

theorem fresh_accept (h : ∀ order o, s.working.lookup order = some o → order < s.nextOrder)
    (req : OrderRequest) (order : Nat) (o : WorkingOrder)
    (hlookup : (s.accept req).working.lookup order = some o) :
    order < (s.accept req).nextOrder := by
  obtain ⟨rfl, -⟩ | ⟨-, hold⟩ := Dict.lookup_insert_eq_some.mp hlookup
  · exact Nat.lt_succ_self _
  · exact Nat.lt_succ_of_lt (h order o hold)

namespace Tracked

theorem consistent_of_inPosition (h : s.Tracked) (token : Nat)
    (hflag : (s.strategy.stateOf token).inPosition = true) :
    (s.strategy.stateOf token).Consistent (s.net token) := by
  obtain hknown | ⟨hclear, -⟩ := h.known token
  · exact hknown
  · simp [hclear] at hflag

theorem execute (h : s.Tracked) {order : Nat} {x : Execution} (hright : s.ReadsRight order x) :
    (s.execute order x).Tracked := by
  obtain heq | ⟨o, hlookup, hfills⟩ := s.execute_cases order x
  · rwa [heq]
  constructor
  · intro token
    rw [stateOf_execute hlookup hfills, net_execute hlookup hfills]
    by_cases htoken : token = o.req.instrumentToken
    · rw [if_pos htoken, if_pos htoken, htoken]
      left
      have hiff := InstrumentState.consistent_onOrderFill_iff
        (h.consistent_of_inPosition o.req.instrumentToken) (o.fill x) hfills.1
      exact hiff.mpr (hright o hlookup hfills)
    · rw [if_neg htoken, if_neg htoken, add_zero]
      obtain hknown | ⟨hflag, other, o', hother, htoken'⟩ := h.known token
      · exact .inl hknown
      · refine .inr ⟨hflag, other, o', ?_, htoken'⟩
        have hne : other ≠ order := by
          rintro rfl
          rw [hlookup] at hother
          exact htoken (htoken' ▸ congrArg (fun o => o.req.instrumentToken)
            (Option.some.inj hother).symm)
        rw [lookup_execute hlookup hfills, if_neg hne, hother]
  · exact fresh_execute hlookup hfills h.fresh

theorem accept (h : s.Tracked) (req : OrderRequest) : (s.accept req).Tracked := by
  constructor
  · intro token
    obtain hknown | ⟨hflag, order, o, hlookup, htoken⟩ := h.known token
    · exact .inl hknown
    · refine .inr ⟨hflag, order, o, ?_, htoken⟩
      exact (AList.lookup_insert_ne (h.fresh order o hlookup).ne).trans hlookup
  · exact fresh_accept h.fresh req

theorem of_sameView (h : s.Tracked) {s' : MomentumSession} (hsame : s.SameView s') :
    s'.Tracked := by
  refine ⟨fun token => ?_, ?_⟩
  · rw [InstrumentState.Consistent, hsame.inPosition, hsame.positionSide, hsame.positionQty,
      hsame.net, Pending, hsame.working]
    exact h.known token
  · rw [hsame.working, hsame.nextOrder]
    exact h.fresh

end Tracked

def remainingOf (s : MomentumSession) (order : Nat) : Int :=
  ((s.working.lookup order).map WorkingOrder.remaining).getD 0

/-- How the executions of one order may leave the session: everything else is as before, and
the order has been filled by what no longer remains of it. -/
structure Executing (s : MomentumSession) (order : Nat) (req : OrderRequest)
    (s' : MomentumSession) : Prop where
  states : ∀ token ≠ req.instrumentToken, s'.strategy.stateOf token = s.strategy.stateOf token
  nets : ∀ token ≠ req.instrumentToken, s'.net token = s.net token
  working : ∀ other ≠ order, s'.working.lookup other = s.working.lookup other
  own : ∀ o, s'.working.lookup order = some o → o.req = req
  nextOrder : s'.nextOrder = s.nextOrder
  filled : s'.net req.instrumentToken + req.side.signed (s'.remainingOf order) =
    s.net req.instrumentToken + req.side.signed req.quantity

namespace Executing

variable {order : Nat} {req : OrderRequest} {s' : MomentumSession}

theorem accept (s : MomentumSession) (req : OrderRequest) :
    Executing (s.accept req) s.nextOrder req (s.accept req) := by
  have hlookup : (s.accept req).working.lookup s.nextOrder = some ⟨req, req.quantity⟩ :=
    AList.lookup_insert _
  refine ⟨fun _ _ => rfl, fun _ _ => rfl, fun _ _ => rfl, fun o ho => ?_, rfl, ?_⟩
  · rw [hlookup] at ho
    rw [← Option.some.inj ho]
  · rw [remainingOf, hlookup]
    rfl

theorem execute (h : Executing s order req s') (x : Execution) :
    Executing s order req (s'.execute order x) := by
  obtain heq | ⟨o, hlookup, hfills⟩ := s'.execute_cases order x
  · rwa [heq]
  have hreq := h.own o hlookup
  have hafter := lookup_execute hlookup hfills order
  rw [if_pos rfl] at hafter
  constructor
  · intro token htoken
    rw [stateOf_execute hlookup hfills, hreq, if_neg htoken]
    exact h.states token htoken
  · intro token htoken
    rw [net_execute hlookup hfills, hreq, if_neg htoken, add_zero]
    exact h.nets token htoken
  · intro other hother
    rw [lookup_execute hlookup hfills, if_neg hother]
    exact h.working other hother
  · intro o' ho'
    rw [hafter] at ho'
    split at ho'
    · simp at ho'
    · rw [← Option.some.inj ho']
      exact hreq
  · exact (nextOrder_execute hlookup hfills).trans h.nextOrder
  · have hbefore := h.filled
    rw [remainingOf, hlookup, Option.map_some, Option.getD_some] at hbefore
    rw [net_execute hlookup hfills, hreq, if_pos rfl, remainingOf, hafter, ← hbefore, add_assoc,
      ← Side.signed_add]
    split
    · rename_i hall
      simp [hall]
    · simp

theorem executions (h : Executing s order req s') (xs : List Execution) :
    Executing s order req (xs.foldl (fun s' x => s'.execute order x) s') := by
  induction xs generalizing s' with
  | nil => exact h
  | cons x xs ih => exact ih (h.execute x)

theorem known (h : Executing s order req s') {token : Nat} (htoken : token ≠ req.instrumentToken)
    (hown : ∀ o, s.working.lookup order = some o → o.req = req)
    (hknown : (s.strategy.stateOf token).Consistent (s.net token) ∨
      (s.strategy.stateOf token).inPosition = false ∧ s.Pending token) :
    (s'.strategy.stateOf token).Consistent (s'.net token) ∨
      (s'.strategy.stateOf token).inPosition = false ∧ s'.Pending token := by
  rw [h.states token htoken, h.nets token htoken]
  obtain hright | ⟨hflag, other, o, hlookup, ho⟩ := hknown
  · exact .inl hright
  · refine .inr ⟨hflag, other, o, ?_, ho⟩
    have hne : other ≠ order := by
      rintro rfl
      rw [hown o hlookup] at ho
      exact htoken ho.symm
    rw [h.working other hne, hlookup]

end Executing

theorem Executing.net_of_filled {order : Nat} {req : OrderRequest} {s' : MomentumSession}
    (h : Executing s order req s') (hfilled : s'.working.lookup order = none) :
    s'.net req.instrumentToken =
      s.net req.instrumentToken + req.side.signed req.quantity := by
  have htotal := h.filled
  have hnone : s'.remainingOf order = 0 := by
    rw [remainingOf, hfilled]
    rfl
  have hzero : req.side.signed 0 = 0 := by
    cases req.side <;> rfl
  rwa [hnone, hzero, add_zero] at htotal

theorem Tracked.known_after_exit (h : s.Tracked) {token : Nat}
    (hflag : (s.strategy.stateOf token).inPosition = true) {req : OrderRequest}
    (hreq : req.instrumentToken = token ∧ req.side.signed req.quantity =
      -(s.strategy.stateOf token).positionSide.signed (s.strategy.stateOf token).positionQty)
    {s' : MomentumSession} (hexec : Executing (s.accept req) s.nextOrder req s') :
    s'.net token = 0 ∨ s'.Pending token := by
  cases hlookup : s'.working.lookup s.nextOrder with
  | none =>
      left
      have hright := h.consistent_of_inPosition token hflag
      rw [InstrumentState.Consistent, if_pos hflag] at hright
      have hnet := hexec.net_of_filled hlookup
      rw [hreq.1, hreq.2] at hnet
      refine hnet.trans ?_
      change s.net token + _ = 0
      rw [hright.2, add_neg_cancel]
  | some o =>
      refine .inr ⟨s.nextOrder, o, hlookup, ?_⟩
      rw [hexec.own o hlookup]
      exact hreq.1

theorem Tracked.exit (h : s.Tracked) {token : Nat}
    (hflag : (s.strategy.stateOf token).inPosition = true) (tag : Str) {reply : SubmitReply}
    (haccepted : reply.accepted = true) : (s.exit token tag reply).Tracked := by
  let req := s.strategy.marketOrder token (s.strategy.stateOf token).positionSide.opposite
    (s.strategy.stateOf token).positionQty tag
  have hbase := h.accept req
  have hexec := (Executing.accept s req).executions reply.executions
  have hplaced : s.exit token tag reply =
      (reply.executions.foldl (fun s' x => s'.execute s.nextOrder x) (s.accept req)).modify token
        fun st => { st with inPosition := false } := by
    rw [MomentumSession.exit, placeMarket, if_pos haccepted]
  rw [hplaced]
  generalize reply.executions.foldl (fun s' x => s'.execute s.nextOrder x) (s.accept req) =
    s' at hexec
  constructor
  · intro t
    change ((s'.strategy.modify token _).stateOf t).Consistent (s'.net t) ∨
      ((s'.strategy.modify token _).stateOf t).inPosition = false ∧ s'.Pending t
    rw [MomentumStrategy.stateOf_modify]
    split
    · rename_i htoken
      subst htoken
      exact (h.known_after_exit hflag ⟨rfl, Side.signed_opposite ..⟩ hexec).imp
        (fun hflat => hflat) fun hpending => ⟨rfl, hpending⟩
    · rename_i htoken
      exact hexec.known htoken (Executing.accept s req).own (hbase.known t)
  · intro order o hlookup
    change order < s'.nextOrder
    rw [hexec.nextOrder]
    by_cases heq : order = s.nextOrder
    · rw [heq]
      exact Nat.lt_succ_self _
    · refine hbase.fresh order o ?_
      rw [← hexec.working order heq]
      exact hlookup

def AllReadRight (s : MomentumSession) (order : Nat) (xs : List Execution) : Prop :=
  Run.Along (fun s x => s.execute order x) (fun s x => s.ReadsRight order x) s xs

def EntryReadRight (s : MomentumSession) (token : Nat) (ctx : SignalContext)
    (reply : SubmitReply) : Prop :=
  ∀ order ∈ s.strategy.entry token ctx, reply.accepted = true →
    AllReadRight
      (MomentumSession.accept
        { s with strategy := s.strategy.arm token order.1 order.2.2 ctx.entryNow }
        (s.strategy.marketOrder token order.1 order.2.1 (MomentumStrategy.entryTag order.1)))
      s.nextOrder reply.executions

def ExitAccepted (s : MomentumSession) (token : Nat) (reply : SubmitReply) : Prop :=
  (s.strategy.stateOf token).inPosition = true → reply.accepted = true

/-- Every fill is what the flag takes it for, and no exit is refused. -/
def Tidy (s : MomentumSession) : MomentumEvent → Prop
  | .tick t reply => s.strategy.alive = true →
      ((s.strategy.stateOf t.instrumentToken).exitTag t.ltp).isSome = true →
      s.ExitAccepted t.instrumentToken reply
  | .candle token closes highs lows ctx reply =>
      let s' := s.modify token fun st =>
        { st with closes := closes, highs := highs, lows := lows }
      s'.strategy.Signals token ctx → s'.EntryReadRight token ctx reply
  | .fill order x => s.ReadsRight order x
  | .flatten replies =>
      Run.Along (flattenOne replies) (fun s token => s.ExitAccepted token (replies token))
        { s with strategy := { s.strategy with alive := false } } s.strategy.states.keys
  | .start _ => True
  | .updateParams _ => True

instance (s : MomentumSession) (order : Nat) (xs : List Execution) :
    Decidable (s.AllReadRight order xs) :=
  inferInstanceAs (Decidable (Run.Along _ _ _ _))

instance (s : MomentumSession) (token : Nat) (ctx : SignalContext) (reply : SubmitReply) :
    Decidable (s.EntryReadRight token ctx reply) :=
  inferInstanceAs (Decidable (∀ order ∈ s.strategy.entry token ctx, _ → AllReadRight _ _ _))

instance (s : MomentumSession) (token : Nat) (reply : SubmitReply) :
    Decidable (s.ExitAccepted token reply) :=
  inferInstanceAs (Decidable (_ → _))

instance (s : MomentumSession) : DecidablePred s.Tidy
  | .tick _ _ => inferInstanceAs (Decidable (_ → _ → _))
  | .candle _ _ _ _ _ _ => inferInstanceAs (Decidable (_ → EntryReadRight _ _ _ _))
  | .fill _ _ => inferInstanceAs (Decidable (ReadsRight _ _ _))
  | .flatten _ => inferInstanceAs (Decidable (Run.Along _ _ _ _))
  | .start _ | .updateParams _ => inferInstanceAs (Decidable True)

section Keeps
variable {inv : MomentumSession → Prop} {reads : MomentumSession → Nat → Execution → Prop}
  {exits : SubmitReply → Prop}

def Guarded (reads : MomentumSession → Nat → Execution → Prop) (exits : SubmitReply → Prop)
    (s : MomentumSession) : MomentumEvent → Prop
  | .tick t reply => s.strategy.alive = true →
      ((s.strategy.stateOf t.instrumentToken).exitTag t.ltp).isSome = true →
      (s.strategy.stateOf t.instrumentToken).inPosition = true → exits reply
  | .candle token closes highs lows ctx reply =>
      let s' := s.modify token fun st =>
        { st with closes := closes, highs := highs, lows := lows }
      s'.strategy.Signals token ctx →
        ∀ order ∈ s'.strategy.entry token ctx, reply.accepted = true →
          Run.Along (fun s x => s.execute s'.nextOrder x) (fun s x => reads s s'.nextOrder x)
            (MomentumSession.accept
              { s' with strategy := s'.strategy.arm token order.1 order.2.2 ctx.entryNow }
              (s'.strategy.marketOrder token order.1 order.2.1
                (MomentumStrategy.entryTag order.1)))
            reply.executions
  | .fill order x => reads s order x
  | .flatten replies =>
      Run.Along (flattenOne replies)
        (fun s token => (s.strategy.stateOf token).inPosition = true → exits (replies token))
        { s with strategy := { s.strategy with alive := false } } s.strategy.states.keys
  | .start _ => True
  | .updateParams _ => True

instance [∀ s order x, Decidable (reads s order x)] [DecidablePred exits] (s : MomentumSession) :
    DecidablePred (s.Guarded reads exits)
  | .tick _ _ => inferInstanceAs (Decidable (_ → _ → _ → exits _))
  | .candle _ _ _ _ _ _ =>
      inferInstanceAs (Decidable (_ → ∀ order ∈ MomentumStrategy.entry _ _ _, _ → Run.Along ..))
  | .fill _ _ => inferInstanceAs (Decidable (reads _ _ _))
  | .flatten _ => inferInstanceAs (Decidable (Run.Along ..))
  | .start _ | .updateParams _ => inferInstanceAs (Decidable True)

structure Keeps (inv : MomentumSession → Prop)
    (reads : MomentumSession → Nat → Execution → Prop) (exits : SubmitReply → Prop) : Prop where
  view : ∀ {s s'}, inv s → s.SameView s' → inv s'
  accept : ∀ {s} (req : OrderRequest), inv s → 0 < req.quantity →
    (s.strategy.stateOf req.instrumentToken).inPosition = false → inv (s.accept req)
  execute : ∀ {s order x}, inv s → reads s order x → inv (s.execute order x)
  exit : ∀ {s token} (tag : Str) {reply}, inv s →
    (s.strategy.stateOf token).inPosition = true → exits reply → inv (s.exit token tag reply)

namespace Keeps

variable (h : Keeps inv reads exits)
include h

theorem onTick (hs : inv s) {t : NormalizedTick} {reply : SubmitReply}
    (hguard : s.Guarded reads exits (.tick t reply)) : inv (s.onTick t reply) := by
  unfold MomentumSession.onTick
  split
  · exact hs
  · rename_i halive
    have hticked := h.view hs (s.sameView_modify t.instrumentToken
      (f := fun st => { st with lastLtp := t.ltp }) (fun _ => rfl) (fun _ => rfl) fun _ => rfl)
    have hstate : (s.modify t.instrumentToken fun st =>
        { st with lastLtp := t.ltp }).strategy.stateOf t.instrumentToken =
        { s.strategy.stateOf t.instrumentToken with lastLtp := t.ltp } :=
      (s.strategy.stateOf_modify _ _ _).trans (if_pos rfl)
    unfold managePosition
    split
    · exact hticked
    · rename_i hflag
      split
      · exact hticked
      · rename_i tag htag
        rw [hstate] at hflag htag
        have hflag' : (s.strategy.stateOf t.instrumentToken).inPosition = true := by
          simpa using hflag
        refine h.exit tag hticked (by rw [hstate]; exact hflag') ?_
        refine hguard (by simpa using halive) ?_ hflag'
        rw [show (s.strategy.stateOf t.instrumentToken).exitTag t.ltp = some tag from htag]
        rfl

theorem evaluateSignal (hs : inv s) {token : Nat} {ctx : SignalContext} {reply : SubmitReply}
    (hguard : s.strategy.Signals token ctx → ∀ order ∈ s.strategy.entry token ctx,
      reply.accepted = true →
        Run.Along (fun s' x => s'.execute s.nextOrder x) (fun s' x => reads s' s.nextOrder x)
          (MomentumSession.accept
            { s with strategy := s.strategy.arm token order.1 order.2.2 ctx.entryNow }
            (s.strategy.marketOrder token order.1 order.2.1
              (MomentumStrategy.entryTag order.1)))
          reply.executions) :
    inv (s.evaluateSignal token ctx reply) := by
  unfold MomentumSession.evaluateSignal
  split
  · rename_i hsignals
    unfold tryEntry
    cases hentry : s.strategy.entry token ctx with
    | none => exact hs
    | some order =>
        have hview : s.SameView
            { s with strategy := s.strategy.arm token order.1 order.2.2 ctx.entryNow } :=
          s.sameView_modify token (fun _ => rfl) (fun _ => rfl) fun _ => rfl
        have harmed := h.view hs hview
        simp only [placeMarket]
        split
        · rename_i haccepted
          have hflat : (s.strategy.stateOf token).inPosition = false := hsignals.2.2.2.1
          have haccept := h.accept
            (s.strategy.marketOrder token order.1 order.2.1 (MomentumStrategy.entryTag order.1))
            harmed (s.strategy.quantity_pos_of_entry hentry)
            ((hview.inPosition token).trans hflat)
          exact Run.run_of_along inv (fun _ _ => h.execute) haccept
            (hguard hsignals order hentry haccepted)
        · exact harmed
  · exact hs

theorem flattenOne (hs : inv s) {replies : Nat → SubmitReply} {token : Nat}
    (hexits : (s.strategy.stateOf token).inPosition = true → exits (replies token)) :
    inv (s.flattenOne replies token) := by
  unfold MomentumSession.flattenOne
  split
  · rename_i hflag
    exact h.exit _ hs hflag (hexits hflag)
  · exact hs

theorem step (hs : inv s) {event : MomentumEvent} (hguard : s.Guarded reads exits event) :
    inv (s.step event) := by
  cases event with
  | start params => exact h.view hs (sameView_of_states rfl rfl rfl rfl)
  | tick t reply => exact h.onTick hs hguard
  | candle token closes highs lows ctx reply =>
      have hseries := h.view hs (s.sameView_modify token
        (f := fun st => { st with closes := closes, highs := highs, lows := lows })
        (fun _ => rfl) (fun _ => rfl) fun _ => rfl)
      exact h.evaluateSignal hseries hguard
  | fill order x => exact h.execute hs hguard
  | flatten replies =>
      have hstopped : inv { s with strategy := { s.strategy with alive := false } } :=
        h.view hs (sameView_of_states rfl rfl rfl rfl)
      exact Run.run_of_along inv (fun _ _ hs hexits => h.flattenOne hs hexits) hstopped hguard
  | updateParams params => exact h.view hs (sameView_of_states rfl rfl rfl rfl)

end Keeps

end Keeps

theorem keeps_tracked : Keeps Tracked ReadsRight (fun reply => reply.accepted = true) where
  view hs hsame := hs.of_sameView hsame
  accept req hs _ _ := hs.accept req
  execute hs hright := hs.execute hright
  exit tag _ hs hflag haccepted := hs.exit hflag tag haccepted

theorem Tracked.step (h : s.Tracked) {event : MomentumEvent} (htidy : s.Tidy event) :
    (s.step event).Tracked := by
  refine keeps_tracked.step h ?_
  cases event <;> exact htidy

theorem Tracked.agrees (h : s.Tracked) (hsettled : s.Settled) (token : Nat) :
    s.Agrees token := by
  apply agrees_of_consistent
  obtain hright | ⟨-, order, o, hlookup, -⟩ := h.known token
  · exact hright
  · have hmem : order ∈ s.working.keys := AList.lookup_isSome.mp (by simp [hlookup])
    rw [hsettled] at hmem
    exact absurd hmem List.not_mem_nil

def init (id : Str) : MomentumSession where
  strategy := { id := id }

theorem tracked_init (id : Str) : (init id).Tracked := by
  constructor
  · exact fun token => .inl rfl
  · intro order o hlookup
    simp [init] at hlookup

/-- In every run in which every fill is what the flag takes it for and no exit is refused, the
strategy's view agrees with its fills whenever all its orders are filled and reported. -/
theorem view_agrees_of_tidy (id : Str) {events : List MomentumEvent}
    (htidy : Run.Along step Tidy (init id) events) (k : Nat) :
    (Run.run step (init id) (events.take k)).Settled → ∀ token,
      (Run.run step (init id) (events.take k)).Agrees token := by
  have htracked := Run.always_of_along Tracked (fun _ _ h htidy => Tracked.step h htidy)
    (tracked_init id) htidy
  exact ((Run.always_iff_take _ _ _ _).mp htracked k).agrees

section OneTrade

def breakout (reply : SubmitReply) : MomentumEvent :=
  .candle 1 { data := List.replicate 25 100 ++ [110] } (List.replicate 26 101)
    (List.replicate 26 99) ⟨300000000000, 300000000000, 100000, 0⟩ reply

def enter (xs : List Execution) : List MomentumEvent :=
  [.tick { instrumentToken := 1, ltp := 110 } ⟨false, []⟩, breakout ⟨true, []⟩] ++
    xs.map (.fill 0)

def stopOut (reported : List Execution) : MomentumEvent :=
  .tick { instrumentToken := 1, ltp := 106 } ⟨true, reported⟩

theorem view_agrees_exit_reported_at_once :
    ((Run.run step (init ['M']) ((enter [⟨333, 110⟩] ++ [stopOut [⟨333, 106⟩]]).take 4)).Agrees
      1) := by
  refine view_agrees_of_tidy ['M'] ?_ 4 ?_ 1
  · decide +kernel
  · decide +kernel

/-- The fill of an exit arrives after the flag is cleared, and the strategy holds itself to be
short; or the entry is filled in two parts, and it holds itself to be flat. -/
theorem filled_orders_leave_wrong_view :
    let exited := Run.run step (init ['M']) (enter [⟨333, 110⟩] ++ [stopOut [], .fill 1 ⟨333, 106⟩])
    let entered := Run.run step (init ['M']) (enter [⟨100, 110⟩, ⟨233, 110⟩])
    (exited.Settled ∧ exited.net 1 = 0 ∧ (exited.strategy.stateOf 1).inPosition = true ∧
        ¬exited.Agrees 1) ∧
      entered.Settled ∧ entered.net 1 = 333 ∧
        (entered.strategy.stateOf 1).inPosition = false ∧ ¬entered.Agrees 1 := by
  have hexited : (Run.run step (init ['M']) (enter [⟨333, 110⟩] ++
      [stopOut [], .fill 1 ⟨333, 106⟩])).net 1 = 0 ∧ ((Run.run step (init ['M'])
      (enter [⟨333, 110⟩] ++ [stopOut [], .fill 1 ⟨333, 106⟩])).strategy.stateOf 1).inPosition =
        true := by
    decide +kernel
  have hentered : (Run.run step (init ['M']) (enter [⟨100, 110⟩, ⟨233, 110⟩])).net 1 = 333 ∧
      ((Run.run step (init ['M']) (enter [⟨100, 110⟩, ⟨233, 110⟩])).strategy.stateOf
        1).inPosition = false := by
    decide +kernel
  refine ⟨⟨by decide +kernel, hexited.1, hexited.2, fun h => ?_⟩, by decide +kernel, hentered.1,
    hentered.2, fun h => ?_⟩
  · exact h.flag.mp hexited.2 hexited.1
  · have hflag := h.flag.mpr (by rw [hentered.1]; decide)
    rw [hentered.2] at hflag
    exact absurd hflag (by decide)

end OneTrade

end MomentumSession

end QuantForge
