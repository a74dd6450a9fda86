import Mathlib.Algebra.Order.Ring.Cast
import Mathlib.Data.Int.ConditionallyCompleteOrder
import QuantForge.Library.StaleGate
import QuantForge.Risk.IntChecks
import QuantForge.Strategy.StrategyManager

/-! The position limit over whole runs. The check compares a snapshot with the limit, and
nothing keeps account of what the snapshot does not contain: orders that passed and are
still on their way, and fills that are still queued. The limit is kept up to the largest
quantity that a passing check missed in this way. The check is taken with its `int` arithmetic,
in runs in which the sums of the position stay in range. -/
namespace QuantForge

open Library

theorem Side.signed_le_abs (side : Side) (a : Int) : side.signed a ≤ |a| := by
  unfold Side.signed
  split
  · exact le_abs_self a
  · exact neg_le_abs a

theorem Fill.signed_le_amountOn {fill : Fill} (h : 0 ≤ fill.quantity) (token : Nat) (side : Side) :
    side.signed (if token = fill.instrumentToken then fill.qtyDelta else 0) ≤
      fill.amountOn token side := by
  by_cases htoken : token = fill.instrumentToken
  · rw [if_pos htoken, Fill.amountOn, Side.amountOn, Fill.qtyDelta, ← htoken]
    cases hside : fill.side <;> cases side <;> simp [Side.signed] <;> omega
  · rw [if_neg htoken, Fill.amountOn, Side.amountOn, if_neg (fun hon => htoken hon.1.symm)]
    cases side <;> simp [Side.signed]

def SubmitCall.req : SubmitCall → OrderRequest
  | .snapped s => s.req
  | .passed req => req

def SubmitCall.SumFits (token : Nat) : SubmitCall → Prop
  | .snapped s => s.req.instrumentToken = token →
      |(s.snapshot.getPosition token).quantity + s.req.side.signed s.req.quantity| < 2 ^ 31
  | .passed _ => True

instance (token : Nat) : DecidablePred (SubmitCall.SumFits token)
  | .snapped _ => inferInstanceAs (Decidable (_ → _))
  | .passed _ => inferInstanceAs (Decidable True)

def positionLimit (price maxValue : ℚ) (hprice : 0 < price) : LowerSet Int where
  carrier := {quantity | quantity * price ≤ maxValue}
  lower' := by
    intro a b hle hb
    exact (mul_le_mul_of_nonneg_right (Int.cast_le.mpr hle) hprice.le).trans hb

namespace StrategyManager

variable {poolSize : Nat} {m m' : StrategyManager poolSize} {scfg : StrategyConfig}
  {token : Nat} {price : ℚ}

def check32 (m : StrategyManager poolSize) (scfg : StrategyConfig) (call : Nat)
    (clock : RiskClock) : StrategyManager poolSize :=
  match m.calls.lookup call with
  | some (.snapped s) =>
      let risk := (m.risk.check s.req scfg s.snapshot clock).2
      if (m.risk.check32 s.req scfg s.snapshot clock).1 = .pass then m.recordPass call s risk
      else { m with risk := risk, calls := m.calls.erase call }
  | _ => m

def step32 (scfg : StrategyConfig) (m : StrategyManager poolSize) :
    StrategyEvent → StrategyManager poolSize
  | .check call clock => m.check32 scfg call clock
  | event => m.step scfg event

theorem check32_of_pass {call : Nat} {s : SnappedRequest} {clock : RiskClock}
    (hlookup : m.calls.lookup call = some (.snapped s))
    (hpass : (m.risk.check32 s.req scfg s.snapshot clock).1 = .pass) :
    m.check32 scfg call clock =
      m.recordPass call s (m.risk.check s.req scfg s.snapshot clock).2 := by
  simp only [check32, hlookup]
  exact if_pos hpass

theorem check32_of_reject {call : Nat} {s : SnappedRequest} {clock : RiskClock}
    (hlookup : m.calls.lookup call = some (.snapped s))
    (hreject : (m.risk.check32 s.req scfg s.snapshot clock).1 ≠ .pass) :
    m.check32 scfg call clock =
      { m with
        risk := (m.risk.check s.req scfg s.snapshot clock).2
        calls := m.calls.erase call } := by
  simp only [check32, hlookup]
  exact if_neg hreject

/-- The position on a side and what may still reach it there. -/
def exposure (m : StrategyManager poolSize) (token : Nat) (side : Side) : Int :=
  side.signed (m.portfolio.getPosition token).quantity + m.inFlight token side

def viewOf (m : StrategyManager poolSize) (token : Nat) (side : Side) :
    SubmitCall → Option (View Int)
  | .snapped s =>
      if s.req.instrumentToken = token ∧ s.req.side = side then
        some ⟨side.signed (s.snapshot.getPosition token).quantity, m.unseen s⟩
      else none
  | .passed _ => none

theorem viewOf_eq_some {side : Side} {c : SubmitCall} {v : View Int} :
    m.viewOf token side c = some v ↔ ∃ s, c = .snapped s ∧ s.req.instrumentToken = token ∧
      s.req.side = side ∧
        v = ⟨side.signed (s.snapshot.getPosition token).quantity, m.unseen s⟩ := by
  cases c with
  | snapped s =>
      simp only [viewOf, Option.ite_none_right_eq_some, Option.some.injEq, SubmitCall.snapped.injEq,
        exists_eq_left']
      rw [and_assoc, eq_comm (a := v)]
  | passed req => simp [viewOf]

def gate (m : StrategyManager poolSize) (token : Nat) (side : Side) : Gate Nat Int where
  exposure := m.exposure token side
  views := fun call => (m.calls.lookup call).bind (m.viewOf token side)
  excess := m.overlap token

structure Limited (scfg : StrategyConfig) (token : Nat) (price : ℚ) (hprice : 0 < price)
    (m : StrategyManager poolSize) : Prop where
  bounded : m.oms.Bounded
  requested : ∀ call c, m.calls.lookup call = some c → 0 ≤ c.req.quantity
  cached : m.risk.currentPrice token = price
  sound : ∀ side, (m.gate token side).Sound (positionLimit price scfg.risk.maxPositionValue hprice)

/-- Nothing passed, nothing is in flight on the instrument, and its position is in the limit. -/
structure Idle (scfg : StrategyConfig) (token : Nat) (price : ℚ) (m : StrategyManager poolSize) :
    Prop where
  bounded : m.oms.Bounded
  settled : ∀ side, m.oms.inFlight token side = 0
  noCalls : m.calls = ∅
  noPasses : m.passes = []
  cached : m.risk.currentPrice token = price
  within : |(m.portfolio.getPosition token).quantity| * price ≤ scfg.risk.maxPositionValue

/-- Requests are for positive quantities, orders come from `submit_order` only, fills stay
within their orders, the cached price of the instrument is fixed, and no sum of its position
overflows, in a check or where a fill is processed. -/
def Allowed (token : Nat) (price : ℚ) (m : StrategyManager poolSize) : StrategyEvent → Prop
  | .getSnapshot _ req => 0 < req.quantity
  | .check call _ => ∀ c ∈ m.calls.lookup call, c.SumFits token
  | .engine (.call c) => m.oms.Reduces c
  | .engine .fillLoop => Fits32 (m.toEngine.fillLoop.portfolio.getPosition token).quantity
  | .updatePrice token' price' => token' = token → price' = price
  | _ => True

instance (m : StrategyManager poolSize) : DecidablePred (Allowed token price m)
  | .getSnapshot _ req => inferInstanceAs (Decidable (0 < req.quantity))
  | .check call _ => inferInstanceAs (Decidable (∀ c ∈ m.calls.lookup call, c.SumFits token))
  | .engine (.call c) => inferInstanceAs (Decidable (m.oms.Reduces c))
  | .engine .fillLoop => inferInstanceAs (Decidable (Fits32 _))
  | .updatePrice .. => inferInstanceAs (Decidable (_ → _))
  | .submit .. | .updatePosition .. | .engageGlobalKillSwitch | .disengageGlobalKillSwitch =>
      inferInstanceAs (Decidable True)

theorem inFlight_nonneg (h : m.oms.Bounded)
    (hrequested : ∀ call c, m.calls.lookup call = some c → 0 ≤ c.req.quantity)
    (token : Nat) (side : Side) : 0 ≤ m.inFlight token side := by
  refine add_nonneg (Dict.sumBy_nonneg fun call c hlookup => ?_) (h.inFlight_nonneg token side)
  cases c with
  | snapped s => exact le_rfl
  | passed req => exact Side.amountOn_nonneg (hrequested call _ hlookup) _ _ _ _

theorem Limited.position_le {hprice : 0 < price} (h : m.Limited scfg token price hprice) :
    |(m.portfolio.getPosition token).quantity| * price ≤
      scfg.risk.maxPositionValue + m.overlap token * price := by
  have hside : ∀ side : Side, side.signed (m.portfolio.getPosition token).quantity * price ≤
      scfg.risk.maxPositionValue + m.overlap token * price := by
    intro side
    have hfits := (h.sound side).fits
    have hflight := inFlight_nonneg h.bounded h.requested token side
    have hle : side.signed (m.portfolio.getPosition token).quantity - m.overlap token ≤
        (m.gate token side).exposure - (m.gate token side).excess :=
      sub_le_sub_right (le_add_of_nonneg_right hflight) _
    have hunder := LowerSet.lower _ hle hfits
    change ((_ - _ : Int) : ℚ) * price ≤ _ at hunder
    rw [Int.cast_sub, sub_mul] at hunder
    exact sub_le_iff_le_add.mp hunder
  obtain habs | habs := abs_choice (m.portfolio.getPosition token).quantity
  · rw [habs]
    exact hside .buy
  · rw [habs]
    exact hside .sell

section Hold

variable {hprice : 0 < price}

theorem Limited.hold (h : m.Limited scfg token price hprice) (hbounded : m'.oms.Bounded)
    (hcached : m'.risk.currentPrice token = price) (hpasses : m'.passes = m.passes)
    (hexposure : ∀ side, m'.exposure token side ≤ m.exposure token side)
    (hcalls : ∀ call c, m'.calls.lookup call = some c → m.calls.lookup call = some c ∨
      0 ≤ c.req.quantity ∧ ∀ side v, m'.viewOf token side c = some v →
        m'.exposure token side ≤ v.seen + v.unseen) :
    m'.Limited scfg token price hprice := by
  refine ⟨hbounded, fun call c hlookup => ?_, hcached, fun side => ?_⟩
  · obtain hold | ⟨hnew, -⟩ := hcalls call c hlookup
    · exact h.requested call c hold
    · exact hnew
  · have hoverlap : m'.overlap token = m.overlap token := by rw [overlap, overlap, hpasses]
    have hunseen : ∀ s, m'.unseen s = m.unseen s := fun s => by
      rw [unseen, unseen, passedQty, passedQty, hpasses]
    refine Gate.sound_hold (h.sound side) (hexposure side) hoverlap.ge fun call v hview => ?_
    obtain ⟨c, hlookup, hview⟩ := Option.bind_eq_some_iff.mp hview
    obtain hold | ⟨-, hnew⟩ := hcalls call c hlookup
    · obtain ⟨s, hc, htoken, hside, hv⟩ := viewOf_eq_some.mp hview
      rw [hunseen] at hv
      exact .inl (Option.bind_eq_some_iff.mpr
        ⟨c, hold, viewOf_eq_some.mpr ⟨s, hc, htoken, hside, hv⟩⟩)
    · exact .inr (hnew side v hview)

theorem Limited.hold_calls (h : m.Limited scfg token price hprice) (hbounded : m'.oms.Bounded)
    (hcached : m'.risk.currentPrice token = price) (hpasses : m'.passes = m.passes)
    (hcalls : m'.calls = m.calls)
    (hexposure : ∀ side, m'.exposure token side ≤ m.exposure token side) :
    m'.Limited scfg token price hprice :=
  h.hold hbounded hcached hpasses hexposure fun _ _ hlookup => .inl (hcalls ▸ hlookup)

private theorem view_snap {req : OrderRequest} {side : Side} {v : View Int}
    (hpasses : m'.passes = m.passes)
    (hview : m'.viewOf token side (.snapped (m.snap req)) = some v) :
    v.seen + v.unseen = m.exposure token side := by
  obtain ⟨s, heq, rfl, rfl, rfl⟩ := viewOf_eq_some.mp hview
  obtain rfl := SubmitCall.snapped.inj heq
  have hpassed : m'.passedQty req.instrumentToken req.side =
      m.passedQty req.instrumentToken req.side := by
    rw [passedQty, passedQty, hpasses]
  dsimp only [snap, unseen]
  rw [hpassed, sub_self, add_zero]
  rfl

theorem Limited.getSnapshot (h : m.Limited scfg token price hprice) (call : Nat)
    {req : OrderRequest} (hreq : 0 < req.quantity) :
    (m.getSnapshot call req).Limited scfg token price hprice := by
  cases hlookup : m.calls.lookup call with
  | some c => rwa [StrategyManager.getSnapshot, hlookup]
  | none =>
      rw [getSnapshot_of_none hlookup]
      have hexposure : ∀ side, exposure { m with
          calls := m.calls.insert call (.snapped (m.snap req)) } token side =
            m.exposure token side := by
        intro side
        have hsum := Dict.sumBy_of_lookup_none (fun _ c => SubmitCall.amountOn token side c)
          hlookup
        rw [exposure, exposure, inFlight, inFlight, hsum, Dict.sumBy_insert]
        exact congrArg (_ + ·) (congrArg (· + _) (zero_add _))
      refine h.hold h.bounded h.cached rfl (fun side => (hexposure side).le)
        fun call' c hlookup' => ?_
      obtain ⟨-, rfl⟩ | ⟨-, hold⟩ := Dict.lookup_insert_eq_some.mp hlookup'
      · refine .inr ⟨hreq.le, fun side v hview => ?_⟩
        exact ((hexposure side).trans (view_snap (by exact rfl) hview).symm).le
      · exact .inl hold

theorem Limited.check_reject (h : m.Limited scfg token price hprice) {call : Nat}
    {s : SnappedRequest} {clock : RiskClock} (hlookup : m.calls.lookup call = some (.snapped s))
    (hreject : (m.risk.check32 s.req scfg s.snapshot clock).1 ≠ .pass) :
    (m.check32 scfg call clock).Limited scfg token price hprice := by
  rw [check32_of_reject hlookup hreject]
  refine h.hold h.bounded ?_ rfl (fun side => ?_) fun call' c hlookup' => ?_
  · rw [PreTradeRiskEngine.currentPrice, PreTradeRiskEngine.priceCache_check]
    exact h.cached
  · have hsum := Dict.sumBy_of_lookup (fun _ c => SubmitCall.amountOn token side c) hlookup
    rw [exposure, exposure, inFlight, inFlight, hsum]
    exact (congrArg (_ + ·) (congrArg (· + _) (zero_add _))).ge
  · exact .inl (Dict.lookup_erase_eq_some.mp hlookup').2

theorem Limited.submit (h : m.Limited scfg token price hprice) (call tsMs placedNs fillNs : Nat) :
    (m.submit call tsMs placedNs fillNs).Limited scfg token price hprice := by
  unfold StrategyManager.submit
  split
  · rename_i req hlookup
    have hreq := h.requested call _ hlookup
    obtain ⟨hbounded, hadded⟩ :=
      OrderManagementSystem.submit_bounded req tsMs placedNs fillNs h.bounded hreq
    refine h.hold hbounded h.cached rfl (fun side => ?_) fun call' c hlookup' => ?_
    · have hsum := Dict.sumBy_of_lookup (fun _ c => SubmitCall.amountOn token side c) hlookup
      have hflight := hadded token side
      rw [exposure, exposure, inFlight, inFlight, hsum]
      dsimp only [SubmitCall.amountOn]
      omega
    · exact .inl (Dict.lookup_erase_eq_some.mp hlookup').2
  · exact h

theorem Limited.fillLoop (h : m.Limited scfg token price hprice) :
    Limited scfg token price hprice { m with toEngine := m.toEngine.fillLoop } := by
  cases hcontents : m.oms.fillQueue.contents with
  | nil =>
      rw [Engine.fillLoop_of_nil hcontents]
      exact h
  | cons fill rest =>
      obtain ⟨fillQueue, hrest, hloop⟩ := Engine.fillLoop_of_cons hcontents
      have hqueued := h.bounded.queued
      rw [hcontents, List.forall_mem_cons] at hqueued
      rw [hloop]
      refine h.hold_calls ⟨⟨h.bounded.wellFormed.partitioned, h.bounded.wellFormed.unfinished⟩,
        h.bounded.within, ?_⟩ h.cached rfl rfl fun side => ?_
      · rw [hrest]
        exact hqueued.2
      · have hfill := Fill.signed_le_amountOn hqueued.1 token side
        rw [exposure, exposure, inFlight, inFlight, OrderManagementSystem.inFlight,
          OrderManagementSystem.inFlight, OrderManagementSystem.queuedOn,
          OrderManagementSystem.queuedOn, hcontents, hrest, List.map_cons, List.sum_cons,
          PortfolioEngine.processFill_quantity, Side.signed_add]
        change _ + ((m.calls.sumBy fun _ c => c.amountOn token side) +
          (m.oms.openQty token side + _)) ≤ _
        omega

theorem Limited.engine (h : m.Limited scfg token price hprice) {event : EngineEvent}
    (hallowed : Allowed token price m (.engine event)) :
    Limited scfg token price hprice { m with toEngine := m.toEngine.step event } := by
  cases event with
  | fillLoop => exact h.fillLoop
  | call c =>
      have hshrinks := OrderManagementSystem.shrinks_step h.bounded hallowed
      exact h.hold_calls hshrinks.bounded h.cached rfl rfl fun side =>
        add_le_add_right (add_le_add_right (hshrinks.inFlight_le token side) _) _

end Hold

section Pass

variable {hprice : 0 < price} {call : Nat} {s : SnappedRequest} {risk : PreTradeRiskEngine}

private theorem exposure_recordPass (token : Nat) (risk : PreTradeRiskEngine)
    (hlookup : m.calls.lookup call = some (.snapped s))
    (side : Side) :
    (m.recordPass call s risk).exposure token side =
      m.exposure token side + s.req.amountOn token side := by
  have hsum := Dict.sumBy_of_lookup (fun _ c => SubmitCall.amountOn token side c) hlookup
  rw [exposure, exposure, inFlight, inFlight, hsum, recordPass, Dict.sumBy_insert]
  dsimp only [SubmitCall.amountOn]
  omega

private theorem unseen_recordPass (s' : SnappedRequest) :
    (m.recordPass call s risk).unseen s' =
      m.unseen s' + s.req.amountOn s'.req.instrumentToken s'.req.side := by
  rw [unseen, unseen, passedQty, passedQty, recordPass, List.map_cons, List.sum_cons]
  dsimp only
  omega

private theorem overlap_recordPass (token : Nat) (risk : PreTradeRiskEngine) (call : Nat)
    (m : StrategyManager poolSize) (s : SnappedRequest) :
    (m.recordPass call s risk).overlap token =
      if s.req.instrumentToken = token then max (m.unseen s) (m.overlap token)
      else m.overlap token := by
  rw [overlap, recordPass, List.filter_cons]
  dsimp only
  by_cases htoken : s.req.instrumentToken = token
  · rw [if_pos htoken, if_pos (decide_eq_true htoken)]
    rfl
  · rw [if_neg htoken, if_neg (by simpa using htoken)]
    rfl

private theorem views_recordPass {side : Side} {call' : Nat} {v : View Int}
    (hview : ((m.recordPass call s risk).gate token side).views call' = some v) :
    (m.gate token side).views call' =
      some ⟨v.seen, v.unseen - s.req.amountOn token side⟩ := by
  obtain ⟨c, hlookup, hview⟩ := Option.bind_eq_some_iff.mp hview
  obtain ⟨s', rfl, htoken, hside, rfl⟩ := viewOf_eq_some.mp hview
  obtain ⟨-, hpassed⟩ | ⟨-, hold⟩ := Dict.lookup_insert_eq_some.mp hlookup
  · simp at hpassed
  · refine Option.bind_eq_some_iff.mpr ⟨_, hold, viewOf_eq_some.mpr ⟨s', rfl, htoken, hside, ?_⟩⟩
    rw [unseen_recordPass, htoken, hside, add_sub_cancel_right]

private theorem room_of_pass {clock : RiskClock} (hcached : m.risk.currentPrice token = price)
    (htoken : s.req.instrumentToken = token)
    (hfits : (SubmitCall.snapped s).SumFits token)
    (hpass : (m.risk.check32 s.req scfg s.snapshot clock).1 = .pass) :
    s.req.side.signed (s.snapshot.getPosition token).quantity + s.req.quantity ∈
      positionLimit price scfg.risk.maxPositionValue hprice := by
  have hlimit := PreTradeRiskEngine.position_limit_of_pass32 hpass
    (by rw [htoken, hcached]; exact hprice) (by rw [htoken]; exact hfits htoken)
  rw [htoken, hcached] at hlimit
  have hsigned := s.req.side.signed_le_abs
    ((s.snapshot.getPosition token).quantity + s.req.side.signed s.req.quantity)
  rw [Side.signed_add, Side.signed_signed] at hsigned
  exact LowerSet.lower _ hsigned hlimit

theorem Limited.check_pass (h : m.Limited scfg token price hprice) {clock : RiskClock}
    (hlookup : m.calls.lookup call = some (.snapped s))
    (hfits : (SubmitCall.snapped s).SumFits token)
    (hpass : (m.risk.check32 s.req scfg s.snapshot clock).1 = .pass) :
    (m.check32 scfg call clock).Limited scfg token price hprice := by
  rw [check32_of_pass hlookup hpass]
  generalize hrisk : (m.risk.check s.req scfg s.snapshot clock).2 = risk
  have hexposure := exposure_recordPass token risk hlookup
  have hoverlap := overlap_recordPass token risk call m s
  refine ⟨h.bounded, fun call' c hlookup' => ?_, ?_, fun side => ?_⟩
  · obtain ⟨-, rfl⟩ | ⟨-, hold⟩ := Dict.lookup_insert_eq_some.mp hlookup'
    · exact h.requested call (.snapped s) hlookup
    · exact h.requested call' c hold
  · rw [recordPass, ← hrisk, PreTradeRiskEngine.currentPrice,
      PreTradeRiskEngine.priceCache_check]
    exact h.cached
  · by_cases hon : s.req.instrumentToken = token ∧ s.req.side = side
    · have hamount : s.req.amountOn token side = s.req.quantity := if_pos hon
      obtain ⟨htoken, rfl⟩ := hon
      have hview : (m.gate token s.req.side).views call =
          some ⟨s.req.side.signed (s.snapshot.getPosition token).quantity, m.unseen s⟩ :=
        Option.bind_eq_some_iff.mpr
          ⟨_, hlookup, viewOf_eq_some.mpr ⟨s, rfl, htoken, rfl, rfl⟩⟩
      refine Gate.sound_accept (h.sound s.req.side) hview ?_ (hexposure s.req.side).le ?_
        fun _ _ => views_recordPass
      · rw [hamount]
        exact room_of_pass h.cached htoken hfits hpass
      · rw [if_pos htoken] at hoverlap
        exact (le_max_left _ _).trans hoverlap.ge
    · have hamount : s.req.amountOn token side = 0 := if_neg hon
      refine Gate.sound_hold (h.sound side) ?_ ?_ fun call' v hview => ?_
      · exact ((hexposure side).trans (by rw [hamount]; exact add_zero _)).le
      · refine le_trans ?_ hoverlap.ge
        split
        · exact le_max_right _ _
        · exact le_rfl
      · have hold := views_recordPass hview
        rw [hamount, sub_zero] at hold
        exact .inl hold

end Pass

theorem Limited.step {hprice : 0 < price} (h : m.Limited scfg token price hprice)
    {event : StrategyEvent} (hallowed : Allowed token price m event) :
    (m.step32 scfg event).Limited scfg token price hprice := by
  cases event with
  | getSnapshot call req => exact h.getSnapshot call hallowed
  | check call clock =>
      cases hlookup : m.calls.lookup call with
      | none =>
          rw [step32, check32, hlookup]
          exact h
      | some c =>
          cases c with
          | passed req =>
              rw [step32, check32, hlookup]
              exact h
          | snapped s =>
              by_cases hpass : (m.risk.check32 s.req scfg s.snapshot clock).1 = .pass
              · exact h.check_pass hlookup (hallowed _ hlookup) hpass
              · exact h.check_reject hlookup hpass
  | submit call tsMs placedNs fillNs => exact h.submit call tsMs placedNs fillNs
  | engine event => exact h.engine hallowed
  | updatePosition token' price' =>
      refine h.hold_calls h.bounded h.cached rfl rfl fun side => ?_
      change side.signed ((m.portfolio.updatePrice token' price').getPosition token).quantity +
        _ ≤ _
      rw [PortfolioEngine.updatePrice_quantity]
      exact le_rfl
  | updatePrice token' price' =>
      exact h.hold_calls h.bounded (PreTradeRiskEngine.currentPrice_updatePrice h.cached hallowed)
        rfl rfl fun side => le_rfl
  | engageGlobalKillSwitch =>
      exact h.hold_calls h.bounded h.cached rfl rfl fun side => le_rfl
  | disengageGlobalKillSwitch =>
      exact h.hold_calls h.bounded h.cached rfl rfl fun side => le_rfl

theorem Idle.limited (h : m.Idle scfg token price) (hprice : 0 < price) :
    m.Limited scfg token price hprice := by
  refine ⟨h.bounded, fun call c hlookup => ?_, h.cached, fun side => ⟨?_, fun call v hview => ?_⟩⟩
  · rw [h.noCalls] at hlookup
    simp at hlookup
  · have hexposure : m.exposure token side =
        side.signed (m.portfolio.getPosition token).quantity := by
      rw [exposure, inFlight, h.noCalls, h.settled, Dict.sumBy_empty, add_zero, add_zero]
    have hoverlap : m.overlap token = 0 := by rw [overlap, h.noPasses]; rfl
    change m.exposure token side - m.overlap token ∈ _
    rw [hexposure, hoverlap, sub_zero]
    exact LowerSet.lower _ (side.signed_le_abs _) h.within
  · obtain ⟨c, hlookup, -⟩ := Option.bind_eq_some_iff.mp hview
    rw [h.noCalls] at hlookup
    simp at hlookup

section TwoBuys

def desk : StrategyConfig where
  id := ['S']
  risk := { maxSingleOrderValue := 50000 }

def opening : StrategyManager 2 where
  oms := OrderManagementSystem.init 2 false
  portfolio := PortfolioEngine.init
  risk := (({} : PreTradeRiskEngine).configure [desk] 0).updatePrice 1 100

def buy (call : Nat) : List StrategyEvent :=
  [.getSnapshot call { instrumentToken := 1, quantity := 400, strategyId := ['S'] },
    .check call ⟨⟨5, 0, 3⟩, 0⟩, .submit call 0 0 0]

def filled (seq : Nat) : List StrategyEvent :=
  [.engine (.call (.onOrderAck (Nat.toDigits 10 seq) (orderId 0 seq))),
    .engine (.call (.onFill ⟨Nat.toDigits 10 seq, 100, 400, 'T' :: Nat.toDigits 10 seq⟩ 0))]

def twoBuys : List StrategyEvent :=
  buy 0 ++ buy 1 ++ filled 0 ++ filled 1 ++ [.engine .fillLoop, .engine .fillLoop]

private theorem idle_opening : opening.Idle desk 1 100 := by
  refine ⟨OrderManagementSystem.bounded_init 2 false, fun _ => rfl, rfl, rfl, ?_, ?_⟩
  · decide +kernel
  · decide +kernel

private theorem allowed_twoBuys : Run.Along (step32 desk) (Allowed 1 100) opening twoBuys := by
  decide +kernel

end TwoBuys

end StrategyManager

end QuantForge
