import QuantForge.Main.PriceCache

/-! The fills that the strategies hear of. The order management system hands every credited
fill to main's callback, which caches its price; nobody calls `dispatch_fill`. -/
namespace QuantForge

open Library

namespace TradingEngine

variable {poolSize : Nat}

/-- The loaded strategy whose id the order carries heard of each of its credited fills once,
and nobody else did. -/
def Delivered (e : TradingEngine poolSize) : Prop :=
  ∀ i s, e.strategies[i]? = some s → ∀ fill, s.fillCalls fill =
    if ownerOf e.strategies fill.strategyId = some i then e.oms.emitted.count fill else 0

def Unowned (e : TradingEngine poolSize) (event : TradingEvent) : Prop :=
  ∀ c ∈ e.omsCall event, e.oms.CreditsFill c →
    ownerOf e.strategies (strncpy (e.oms.creditedStrategy c) (maxStrategyLen - 1)) = none

instance (e : TradingEngine poolSize) (event : TradingEvent) : Decidable (e.Unowned event) :=
  inferInstanceAs (Decidable (∀ c ∈ e.omsCall event, _))

def Untold (e : TradingEngine poolSize) : Prop := ∀ s ∈ e.strategies, s.fillCalls = fun _ => 0

variable {e : TradingEngine poolSize}

private theorem untold_iff : e.Untold ↔
    ∀ calls ∈ e.strategies.map LoadedStrategy.fillCalls, calls = fun _ => 0 := by
  rw [List.forall_mem_map]
  rfl

theorem Untold.delivered_iff (h : e.Untold) :
    e.Delivered ↔ ∀ fill ∈ e.oms.emitted, ownerOf e.strategies fill.strategyId = none := by
  constructor
  · intro hdelivered fill hmem
    cases howner : ownerOf e.strategies fill.strategyId with
    | none => rfl
    | some i =>
        obtain ⟨hlt, -⟩ := List.findIdx?_eq_some_iff_findIdx_eq.mp howner
        have hs : e.strategies[i]? = some e.strategies[i] := List.getElem?_eq_getElem hlt
        have hcalls := hdelivered i _ hs fill
        rw [if_pos howner, h _ (List.getElem_mem hlt)] at hcalls
        exact absurd hmem (List.count_eq_zero.mp hcalls.symm)
  · intro hunowned i s hs fill
    rw [h s (List.mem_of_getElem? hs)]
    by_cases howner : ownerOf e.strategies fill.strategyId = some i
    · rw [if_pos howner]
      refine (List.count_eq_zero.mpr fun hmem => ?_).symm
      rw [hunowned fill hmem] at howner
      simp at howner
    · rw [if_neg howner]

private theorem foldl_dispatchCandle (candles : List Candle) (strategies : List LoadedStrategy) :
    let told := candles.foldl (fun strategies candle => dispatchCandle candle strategies) strategies
    told.map LoadedStrategy.config = strategies.map LoadedStrategy.config ∧
      told.map LoadedStrategy.fillCalls = strategies.map LoadedStrategy.fillCalls := by
  induction candles generalizing strategies with
  | nil => exact ⟨rfl, rfl⟩
  | cons candle candles ih =>
      obtain ⟨hconfig, hcalls⟩ := ih (dispatchCandle candle strategies)
      rw [config_dispatchCandle] at hconfig
      rw [fillCalls_dispatchCandle] at hcalls
      exact ⟨hconfig, hcalls⟩

structure SameDelivery (e next : TradingEngine poolSize) : Prop where
  config : next.strategies.map LoadedStrategy.config = e.strategies.map LoadedStrategy.config
  calls : next.strategies.map LoadedStrategy.fillCalls = e.strategies.map LoadedStrategy.fillCalls

theorem SameDelivery.of_eq {next : TradingEngine poolSize}
    (h : next.strategies = e.strategies) : e.SameDelivery next :=
  ⟨congrArg _ h, congrArg _ h⟩

theorem SameDelivery.untold {next : TradingEngine poolSize} (h : e.SameDelivery next)
    (huntold : e.Untold) : next.Untold := by
  apply untold_iff.mpr
  rw [h.calls]
  exact untold_iff.mp huntold

private theorem sameDelivery_emitCandles (e : TradingEngine poolSize)
    (built : CandleBuilder × List Candle) : e.SameDelivery (e.emitCandles built) :=
  ⟨(foldl_dispatchCandle built.2 e.strategies).1, (foldl_dispatchCandle built.2 e.strategies).2⟩

theorem sameDelivery_step (e : TradingEngine poolSize) (event : TradingEvent) :
    e.SameDelivery (e.step event) := by
  cases event with
  | tick t =>
      change e.SameDelivery (e.onTick t)
      unfold onTick
      split
      · obtain ⟨hconfig, hcalls⟩ := sameDelivery_emitCandles e (e.candleBuilder.onTick t)
        exact ⟨hconfig, hcalls⟩
      · exact .of_eq rfl
  | strategy i s =>
      obtain ⟨m, hacts⟩ := acts_strategy e i s
      exact .of_eq hacts.strategies_step
  | call c =>
      obtain ⟨m, hacts⟩ := acts_call e c
      exact .of_eq hacts.strategies_step
  | fillLoop => exact .of_eq rfl
  | flushAll nowNs => exact sameDelivery_emitCandles e _

theorem delivered_step_iff (huntold : e.Untold) (h : e.Delivered) (event : TradingEvent) :
    (e.step event).Delivered ↔ e.Unowned event := by
  have hsame := e.sameDelivery_step event
  have hold := huntold.delivered_iff.mp h
  rw [(hsame.untold huntold).delivered_iff, ownerOf_congr hsame.config]
  by_cases hcredits : e.CreditsFill event
  · obtain ⟨c, hcall, hc⟩ := hcredits
    obtain ⟨order, fill, hfills, hstrategy, hemitted⟩ := emitted_step_of_credited hcall hc
    rw [hemitted, List.forall_mem_cons, hfills.strategy, hstrategy, and_iff_left hold, Unowned,
      hcall]
    simp [hc]
  · rw [emitted_step_of_not_credited hcredits]
    exact iff_of_true hold fun c hcall hc => absurd ⟨c, hcall, hc⟩ hcredits

theorem untold_init (poolSize : Nat) (paperMode : Bool) {strategies : List LoadedStrategy}
    (hnew : ∀ s ∈ strategies, s.calls = []) (nowNs : Nat) :
    (init poolSize paperMode strategies nowNs).Untold := by
  intro s hs
  funext fill
  rw [LoadedStrategy.fillCalls, hnew s hs]
  rfl

/-- From newly loaded strategies, every fill has been delivered throughout a run exactly when
no order that is filled carries the id of a loaded strategy. -/
theorem fills_delivered_iff_unowned (paperMode : Bool) {strategies : List LoadedStrategy}
    (hnew : ∀ s ∈ strategies, s.calls = []) (nowNs : Nat) (events : List TradingEvent) :
    (∀ k, (Run.run step (init poolSize paperMode strategies nowNs) (events.take k)).Delivered) ↔
      Run.Along step Unowned (init poolSize paperMode strategies nowNs) events := by
  have huntold := untold_init poolSize paperMode hnew nowNs
  rw [← Run.always_iff_take]
  refine Run.always_iff_along Untold (fun _ _ => True)
    (fun e event h _ _ => (e.sameDelivery_step event).untold h)
    (fun _ event huntold h _ => delivered_step_iff huntold h event) ?_ huntold ?_
  · exact Run.along_of_forall step (fun _ => True) (fun _ _ h => h) _ fun _ _ => trivial
  · exact huntold.delivered_iff.mpr (List.forall_mem_nil _)

/-- Had the callback dispatched the fill, every fill would be delivered. -/
theorem delivered_of_dispatchFill {next : TradingEngine poolSize} {fill : Fill}
    (h : e.Delivered) (hemitted : next.oms.emitted = fill :: e.oms.emitted)
    (hdispatched : next.strategies = dispatchFill fill e.strategies) : next.Delivered := by
  intro i s hs f
  rw [hdispatched, getElem?_dispatchFill] at hs
  obtain ⟨old, hold, rfl⟩ := Option.map_eq_some_iff.mp hs
  have hcalls := h i old hold f
  rw [hdispatched, ownerOf_congr (config_dispatchFill fill e.strategies), hemitted,
    List.count_cons]
  split
  · rename_i howner
    rw [LoadedStrategy.fillCalls_onOrderFill, hcalls]
    by_cases heq : fill = f
    · subst heq
      simp [howner]
    · simp [heq]
  · rename_i howner
    rw [hcalls]
    by_cases heq : fill = f
    · subst heq
      simp [howner]
    · simp [heq]

section OneStrategy

theorem fills_delivered_stranger :
    (Run.run step (init 1 true [{ trader with config := { id := ['T'] } }] 0)
      ((buyOne .limit 101).take 4)).Delivered := by
  refine (fills_delivered_iff_unowned true ?_ 0 (buyOne .limit 101)).mpr ?_ 4
  · decide
  · decide +kernel

/-- The order of the only strategy is filled, and it is never told. -/
theorem owner_not_told_of_fill :
    let e := Run.run step (init 1 true [trader] 0) (buyOne .limit 101)
    e.oms.emitted.map Fill.strategyId = [['S']] ∧ ownerOf e.strategies ['S'] = some 0 ∧
      e.strategies.map LoadedStrategy.calls = [[]] ∧ ¬e.Delivered := by
  have hunowned : ¬(Run.run step (init 1 true [trader] 0) (buyOne .limit 101)).oms.emitted.all
      (fun fill => ownerOf (Run.run step (init 1 true [trader] 0)
        (buyOne .limit 101)).strategies fill.strategyId = none) = true := by decide +kernel
  have huntold : (Run.run step (init 1 true [trader] 0) (buyOne .limit 101)).Untold :=
    Run.run_invariant Untold (fun e event h => (e.sameDelivery_step event).untold h)
      (untold_init 1 true (by decide) 0) _
  refine ⟨by decide +kernel, by decide +kernel, by decide +kernel, fun h => hunowned ?_⟩
  simpa using huntold.delivered_iff.mp h

end OneStrategy

end TradingEngine

end QuantForge
