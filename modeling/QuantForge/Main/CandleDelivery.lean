import QuantForge.Main.FillDelivery
import QuantForge.Main.KillSwitch

/-! The candles that the strategies hear of, from the normalizer's ticks through the builder's
callback to `on_candle`. `stop_all` clears the strategies before `flush_all` closes the last
bars. -/
namespace QuantForge

open Library

/-- `ended` lists the strategies that `stop_all` let go, with the callbacks that they heard; no
operation reads it. -/
structure StoppableEngine (poolSize : Nat) extends ControlledEngine poolSize where
  ended : List LoadedStrategy := []

/-- `stop_all` is one event: main has stopped the normalizer before. -/
inductive StoppableEvent where
  | control (event : ControlEvent)
  | stopAll

def TradingEvent.builds (builder : CandleBuilder) : TradingEvent → CandleBuilder × List Candle
  | .tick t => if TickNormalizer.validate t then builder.onTick t else (builder, [])
  | .flushAll nowNs => builder.flushAll nowNs
  | .strategy _ _ | .call _ | .fillLoop => (builder, [])

def StoppableEvent.builds (builder : CandleBuilder) : StoppableEvent → CandleBuilder × List Candle
  | .control (.trading event _) => event.builds builder
  | .control _ | .stopAll => (builder, [])

def StoppableEvent.Keeps (strategies : List LoadedStrategy) (i : Nat) : StoppableEvent → Bool
  | .control (.haltStrategy id) =>
      strategies.findIdx? (fun s => s.config.id = id) != some i
  | .control _ => true
  | .stopAll => false

namespace StoppableEngine

variable {poolSize : Nat}

def step (e : StoppableEngine poolSize) : StoppableEvent → StoppableEngine poolSize
  | .control event => { e with toControlledEngine := e.toControlledEngine.step event }
  | .stopAll => { e with strategies := [], ended := e.ended ++ e.strategies }

def init (poolSize : Nat) (paperMode : Bool) (strategies : List LoadedStrategy) (nowNs : Nat) :
    StoppableEngine poolSize where
  toControlledEngine := ControlledEngine.init poolSize paperMode strategies nowNs

def loaded (e : StoppableEngine poolSize) : List LoadedStrategy := e.ended ++ e.strategies

end StoppableEngine

def LoadedStrategy.candleCalls (s : LoadedStrategy) (candles : List Candle) : List PluginCall :=
  (candles.filter fun c => s.Subscribed c.instrumentToken).map .onCandle

theorem dispatchCandle_running {s : LoadedStrategy} (hrunning : s.running = true)
    (candle : Candle) {strategies : List LoadedStrategy} {i : Nat} (hs : strategies[i]? = some s) :
    (dispatchCandle candle strategies)[i]? =
      some { s with calls := (s.candleCalls [candle]).reverse ++ s.calls } := by
  rw [dispatchCandle, List.getElem?_map, hs, Option.map_some]
  rw [if_neg (by simp [hrunning]), LoadedStrategy.candleCalls]
  by_cases hsubscribed : s.Subscribed candle.instrumentToken
  · rw [if_pos hsubscribed, List.filter_cons_of_pos (by simpa using hsubscribed)]
    rfl
  · rw [if_neg hsubscribed, List.filter_cons_of_neg (by simpa using hsubscribed)]
    rfl

theorem dispatchCandles_running {s : LoadedStrategy} (hrunning : s.running = true)
    (candles : List Candle) {strategies : List LoadedStrategy} {i : Nat}
    (hs : strategies[i]? = some s) :
    (candles.foldl (fun strategies candle => dispatchCandle candle strategies) strategies)[i]? =
      some { s with calls := (s.candleCalls candles).reverse ++ s.calls } := by
  induction candles generalizing s strategies with
  | nil => exact hs
  | cons candle candles ih =>
      have hrest := ih (s := { s with calls := (s.candleCalls [candle]).reverse ++ s.calls })
        hrunning (dispatchCandle_running hrunning candle hs)
      have hsplit : s.candleCalls (candle :: candles) =
          s.candleCalls [candle] ++ s.candleCalls candles := by
        rw [LoadedStrategy.candleCalls, ← List.singleton_append, List.filter_append,
          List.map_append]
        rfl
      rw [hsplit, List.reverse_append, List.append_assoc]
      exact hrest

theorem dispatchCandles_stopped {s : LoadedStrategy} (hstopped : s.running = false)
    (candles : List Candle) {strategies : List LoadedStrategy} {i : Nat}
    (hs : strategies[i]? = some s) :
    (candles.foldl (fun strategies candle => dispatchCandle candle strategies) strategies)[i]? =
      some s := by
  induction candles generalizing strategies with
  | nil => exact hs
  | cons candle candles ih =>
      refine ih ?_
      change (dispatchCandle candle strategies)[i]? = some s
      rw [dispatchCandle, List.getElem?_map, hs, Option.map_some, if_pos hstopped]

theorem dispatchCandles_nil (candles : List Candle) :
    candles.foldl (fun strategies candle => dispatchCandle candle strategies) [] = [] := by
  induction candles with
  | nil => rfl
  | cons candle candles ih => exact ih

theorem getElem?_haltFirst (id : Str) (strategies : List LoadedStrategy) (i : Nat) :
    (haltFirst id strategies)[i]? = strategies[i]?.map fun s =>
      if strategies.findIdx? (fun s => s.config.id = id) = some i then { s with running := false }
      else s := by
  induction strategies generalizing i with
  | nil => rfl
  | cons s rest ih =>
      rw [haltFirst, List.findIdx?_cons]
      by_cases hid : s.config.id = id
      · rw [if_pos hid, if_pos (decide_eq_true hid)]
        cases i with
        | zero => rfl
        | succ i => simp
      · rw [if_neg hid, if_neg (by simpa using hid)]
        cases i with
        | zero => simp
        | succ i =>
            rw [List.getElem?_cons_succ, ih, List.getElem?_cons_succ]
            simp

theorem config_haltFirst (id : Str) (strategies : List LoadedStrategy) :
    (haltFirst id strategies).map LoadedStrategy.config =
      strategies.map LoadedStrategy.config := by
  induction strategies with
  | nil => rfl
  | cons s rest ih =>
      rw [haltFirst]
      split
      · rfl
      · rw [List.map_cons, ih, List.map_cons]

theorem findIdx?_of_config {strategies strategies' : List LoadedStrategy}
    (h : strategies'.map LoadedStrategy.config = strategies.map LoadedStrategy.config) (id : Str) :
    strategies'.findIdx? (fun s => s.config.id = id) =
      strategies.findIdx? fun s => s.config.id = id := by
  have hmap : ∀ ss : List LoadedStrategy, ss.findIdx? (fun s => s.config.id = id) =
      (ss.map LoadedStrategy.config).findIdx? fun config => config.id = id := by
    intro ss
    rw [List.findIdx?_map]
    rfl
  rw [hmap, hmap, h]

theorem TradingEngine.builds_step {poolSize : Nat} (e : TradingEngine poolSize)
    (event : TradingEvent) :
    (e.step event).candleBuilder = (event.builds e.candleBuilder).1 ∧
      (e.step event).strategies = (event.builds e.candleBuilder).2.foldl
        (fun strategies candle => dispatchCandle candle strategies) e.strategies := by
  cases event with
  | tick t =>
      have hbuilds : (TradingEvent.tick t).builds e.candleBuilder =
          if TickNormalizer.validate t then e.candleBuilder.onTick t
          else (e.candleBuilder, []) := rfl
      change (e.onTick t).candleBuilder = _ ∧ (e.onTick t).strategies = _
      rw [hbuilds, onTick]
      by_cases hvalid : TickNormalizer.validate t = true
      · rw [if_pos hvalid, if_pos hvalid]
        exact ⟨rfl, rfl⟩
      · rw [if_neg hvalid, if_neg hvalid]
        exact ⟨rfl, rfl⟩
  | strategy i s =>
      change (TradingEngine.step e (.strategy i s)).candleBuilder = e.candleBuilder ∧
        (TradingEngine.step e (.strategy i s)).strategies = e.strategies
      unfold TradingEngine.step
      dsimp only
      split
      · exact ⟨rfl, rfl⟩
      · rename_i loaded _
        obtain ⟨risk, hafter⟩ :=
          e.after_eq (StrategyManager.step loaded.config e.toStrategyManager (s.event i))
        rw [hafter]
        exact ⟨rfl, rfl⟩
  | call c =>
      obtain ⟨risk, hafter⟩ := e.after_eq { e.toStrategyManager with oms := e.oms.step c }
      change (e.after _).candleBuilder = e.candleBuilder ∧ (e.after _).strategies = e.strategies
      rw [hafter]
      exact ⟨rfl, rfl⟩
  | fillLoop => exact ⟨rfl, rfl⟩
  | flushAll nowNs => exact ⟨rfl, rfl⟩

namespace StoppableEngine

variable {poolSize : Nat} {e : StoppableEngine poolSize} {s : LoadedStrategy} {i : Nat}

def Ended (e : StoppableEngine poolSize) (i : Nat) (s : LoadedStrategy) : Prop :=
  (e.ended = [] ∧ e.strategies[i]? = some s ∧ s.running = false) ∨
    (e.strategies = [] ∧ e.ended[i]? = some s)

theorem loaded_of_ended (h : e.Ended i s) : e.loaded[i]? = some s := by
  unfold loaded
  rcases h with ⟨hended, hs, -⟩ | ⟨hnone, hs⟩
  · rw [hended]
    exact hs
  · rw [hnone, List.append_nil]
    exact hs

theorem ended_step (h : e.Ended i s) (event : StoppableEvent) : (e.step event).Ended i s := by
  cases event with
  | stopAll =>
      refine .inr ⟨rfl, ?_⟩
      exact loaded_of_ended h
  | control event =>
      cases event with
      | trading event indirect =>
          obtain ⟨-, hstrategies⟩ := e.toTradingEngine.builds_step event
          rcases h with ⟨hended, hs, hstopped⟩ | ⟨hnone, hs⟩
          · exact .inl ⟨hended, (congrArg (·[i]?) hstrategies).trans
              (dispatchCandles_stopped hstopped _ hs), hstopped⟩
          · refine .inr ⟨?_, hs⟩
            refine hstrategies.trans ?_
            rw [hnone]
            exact dispatchCandles_nil _
      | engageGlobalKillSwitch | disengageGlobalKillSwitch => exact h
      | haltStrategy id =>
          rcases h with ⟨hended, hs, hstopped⟩ | ⟨hnone, hs⟩
          · refine .inl ⟨hended, ?_, hstopped⟩
            change (haltFirst id e.strategies)[i]? = some s
            rw [getElem?_haltFirst, hs, Option.map_some]
            split
            · obtain ⟨config, instruments, running, calls⟩ := s
              obtain rfl : running = false := hstopped
              rfl
            · rfl
          · refine .inr ⟨?_, hs⟩
            change haltFirst id e.strategies = []
            rw [hnone]
            rfl

/-- The strategy at this position of the list runs, and the list is that of the start. -/
structure Running (strategies : List LoadedStrategy) (i : Nat) (e : StoppableEngine poolSize)
    (s : LoadedStrategy) : Prop where
  config : e.strategies.map LoadedStrategy.config = strategies.map LoadedStrategy.config
  ended : e.ended = []
  loaded : e.strategies[i]? = some s
  running : s.running = true

variable {strategies : List LoadedStrategy}

theorem running_step (h : e.Running strategies i s) {event : StoppableEvent}
    (hkeeps : event.Keeps strategies i = true) :
    (e.step event).candleBuilder = (event.builds e.candleBuilder).1 ∧
      (e.step event).Running strategies i { s with
        calls := (s.candleCalls (event.builds e.candleBuilder).2).reverse ++ s.calls } := by
  cases event with
  | stopAll => cases hkeeps
  | control event =>
      cases event with
      | trading event indirect =>
          obtain ⟨hbuilder, hstrategies⟩ := e.toTradingEngine.builds_step event
          refine ⟨hbuilder, ?_, h.ended, ?_, h.running⟩
          · exact (e.toTradingEngine.sameDelivery_step event).config.trans h.config
          · exact (congrArg (·[i]?) hstrategies).trans
              (dispatchCandles_running h.running _ h.loaded)
      | engageGlobalKillSwitch | disengageGlobalKillSwitch =>
          exact ⟨rfl, h.config, h.ended, h.loaded, h.running⟩
      | haltStrategy id =>
          refine ⟨rfl, (config_haltFirst id e.strategies).trans h.config, h.ended, ?_, h.running⟩
          change (haltFirst id e.strategies)[i]? = some s
          have hother : strategies.findIdx? (fun s => s.config.id = id) ≠ some i := by
            simpa [StoppableEvent.Keeps] using hkeeps
          rw [getElem?_haltFirst, h.loaded, Option.map_some, findIdx?_of_config h.config,
            if_neg hother]

theorem ended_of_not_keeps (h : e.Running strategies i s) {event : StoppableEvent}
    (hkeeps : event.Keeps strategies i = false) :
    ∃ s', (e.step event).Ended i s' ∧ s'.calls = s.calls := by
  cases event with
  | stopAll =>
      refine ⟨s, .inr ⟨rfl, ?_⟩, rfl⟩
      change (e.ended ++ e.strategies)[i]? = some s
      rw [h.ended]
      exact h.loaded
  | control event =>
      cases event with
      | trading _ _ | engageGlobalKillSwitch | disengageGlobalKillSwitch => cases hkeeps
      | haltStrategy id =>
          have hfirst : strategies.findIdx? (fun s => s.config.id = id) = some i := by
            simpa [StoppableEvent.Keeps] using hkeeps
          refine ⟨{ s with running := false }, .inl ⟨h.ended, ?_, rfl⟩, rfl⟩
          change (haltFirst id e.strategies)[i]? = _
          rw [getElem?_haltFirst, h.loaded, Option.map_some, findIdx?_of_config h.config,
            if_pos hfirst]

theorem ended_run (h : e.Ended i s) (events : List StoppableEvent) :
    (Run.run step e events).Ended i s :=
  Run.run_invariant (fun e : StoppableEngine poolSize => e.Ended i s)
    (fun _ event h => ended_step h event) h events

theorem calls_of_running (h : e.Running strategies i s) (events : List StoppableEvent) :
    ∃ s', (Run.run step e events).loaded[i]? = some s' ∧
      s'.calls.reverse = s.calls.reverse ++ s.candleCalls (CandleBuilder.emitAll
        StoppableEvent.builds (events.takeWhile (StoppableEvent.Keeps strategies i))
        e.candleBuilder).2 := by
  induction events generalizing e s with
  | nil =>
      refine ⟨s, ?_, (List.append_nil _).symm⟩
      change (e.ended ++ e.strategies)[i]? = some s
      rw [h.ended]
      exact h.loaded
  | cons event events ih =>
      rw [Run.run_cons]
      cases hkeeps : event.Keeps strategies i with
      | false =>
          obtain ⟨s', hended, hcalls⟩ := ended_of_not_keeps h hkeeps
          refine ⟨s', loaded_of_ended (ended_run hended events), ?_⟩
          rw [hcalls, List.takeWhile_cons_of_neg (by simp [hkeeps])]
          exact (List.append_nil _).symm
      | true =>
          obtain ⟨hbuilder, hrunning⟩ := running_step h hkeeps
          obtain ⟨s', hloaded, hcalls⟩ := ih hrunning
          refine ⟨s', hloaded, hcalls.trans ?_⟩
          rw [List.takeWhile_cons_of_pos hkeeps, hbuilder, CandleBuilder.emitAll]
          dsimp only
          rw [List.reverse_append, List.reverse_reverse, List.append_assoc]
          refine congrArg _ ?_
          rw [LoadedStrategy.candleCalls, LoadedStrategy.candleCalls,
            LoadedStrategy.candleCalls, List.filter_append, List.map_append]
          rfl

/-- In every run of the engine as `main` wires it, with strategies that start, each hears of exactly
the candles of its instruments that are built before it is halted or the manager is stopped, once
and in their order, and of nothing else; so it never hears of the bars that `flush_all` closes at
the end. -/
theorem candles_reach_subscribers (paperMode : Bool)
    (hnew : ∀ s ∈ strategies, s.calls = [] ∧ s.running = true) (nowNs : Nat)
    (events : List StoppableEvent) (hs : strategies[i]? = some s) :
    ∃ s', (Run.run step (init poolSize paperMode strategies nowNs) events).loaded[i]? = some s' ∧
      s'.calls.reverse = s.candleCalls (CandleBuilder.emitAll StoppableEvent.builds
        (events.takeWhile (StoppableEvent.Keeps strategies i)) {}).2 := by
  obtain ⟨hcalls, hrunning⟩ := hnew s (List.mem_of_getElem? hs)
  have hstart : (init poolSize paperMode strategies nowNs).Running strategies i s :=
    ⟨rfl, rfl, hs, hrunning⟩
  obtain ⟨s', hloaded, hheard⟩ := calls_of_running hstart events
  refine ⟨s', hloaded, hheard.trans ?_⟩
  rw [hcalls]
  rfl

private def onFive : LoadedStrategy where
  config := { id := ['A'] }
  instruments := [5]

private def tickAt (token second : Nat) : StoppableEvent :=
  .control (.trading (.tick { instrumentToken := token, ltp := 100, recvTsNs := second * 10 ^ 9 })
    rfl)

theorem candles_reach_subscribers_twoMinutes :
    let events := [tickAt 5 0, tickAt 6 1, tickAt 5 60, tickAt 6 61, .stopAll,
      .control (.trading (.flushAll 0) rfl)]
    (∃ s', (Run.run step (init 1 true [onFive] 0) events).loaded[0]? = some s' ∧
      s'.calls.reverse = onFive.candleCalls (CandleBuilder.emitAll StoppableEvent.builds
        (events.takeWhile (StoppableEvent.Keeps [onFive] 0)) {}).2) ∧
      (onFive.candleCalls (CandleBuilder.emitAll StoppableEvent.builds
        (events.takeWhile (StoppableEvent.Keeps [onFive] 0)) {}).2).length = 1 :=
  ⟨candles_reach_subscribers true (by decide) 0 _ rfl, by decide +kernel⟩

end StoppableEngine

end QuantForge
