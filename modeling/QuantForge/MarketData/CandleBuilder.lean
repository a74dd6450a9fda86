import QuantForge.Common.Types

/-! `market_data/candle_builder.hpp`. The candles that a call emits are its second result. -/
namespace QuantForge

open Library

structure BarState where
  instrumentToken : Nat := 0
  barStartNs : Nat := 0
  intervalSec : Nat := 0
  opened : ℚ := 0
  high : ℚ := 0
  low : ℚ := 0
  close : ℚ := 0
  volume : Nat := 0
  oi : Nat := 0
  initialized : Bool := false

/-- The key of a bar is its instrument and its interval. -/
structure CandleBuilder where
  openBars : Dict (Nat × Nat) BarState := ∅

namespace CandleBuilder

def intervals : List Nat := [60, 300, 900, 3600]

def emitCandle (bar : BarState) (closeTsNs : Nat) : Candle where
  instrumentToken := bar.instrumentToken
  openTsNs := bar.barStartNs
  closeTsNs := closeTsNs
  intervalSec := bar.intervalSec
  opened := bar.opened
  high := bar.high
  low := bar.low
  close := bar.close
  volume := bar.volume
  oi := bar.oi

def startBar (tick : NormalizedTick) (barStartNs intervalSec : Nat) : BarState where
  instrumentToken := tick.instrumentToken
  barStartNs := barStartNs
  intervalSec := intervalSec
  opened := tick.ltp
  high := tick.ltp
  low := tick.ltp
  close := tick.ltp
  volume := tick.volume
  oi := tick.oi
  initialized := true

/-- The volume of a tick is cumulative. -/
def extendBar (bar : BarState) (tick : NormalizedTick) : BarState :=
  { bar with
    high := max bar.high tick.ltp
    low := min bar.low tick.ltp
    close := tick.ltp
    volume := if tick.volume > bar.volume then tick.volume else bar.volume
    oi := tick.oi }

/-- The exchange's timestamp, rounded down to the interval. -/
def barStart (tick : NormalizedTick) (intervalSec : Nat) : Nat :=
  let ts := if tick.exchangeTsNs > 0 then tick.exchangeTsNs else tick.recvTsNs
  ts / (intervalSec * 1000000000) * (intervalSec * 1000000000)

/-- A tick of another bar closes this one, which is emitted if it has an opening price. -/
def nextBar (bar : BarState) (tick : NormalizedTick) (intervalSec : Nat) :
    BarState × List Candle :=
  if bar.initialized = false ∨ bar.barStartNs ≠ barStart tick intervalSec then
    (startBar tick (barStart tick intervalSec) intervalSec,
      if bar.initialized = true ∧ bar.opened > 0 then
        [emitCandle bar (bar.barStartNs + intervalSec * 1000000000 - 1)]
      else [])
  else (extendBar bar tick, [])

def updateBar (builder : CandleBuilder) (tick : NormalizedTick) (intervalSec : Nat) :
    CandleBuilder × List Candle :=
  let key := (tick.instrumentToken, intervalSec)
  let next := nextBar ((builder.openBars.lookup key).getD {}) tick intervalSec
  ({ openBars := builder.openBars.insert key next.1 }, next.2)

def emitAll {α : Type*} (step : CandleBuilder → α → CandleBuilder × List Candle) :
    List α → CandleBuilder → CandleBuilder × List Candle
  | [], builder => (builder, [])
  | item :: rest, builder =>
      let stepped := step builder item
      let others := emitAll step rest stepped.1
      (others.1, stepped.2 ++ others.2)

def onTick (builder : CandleBuilder) (tick : NormalizedTick) : CandleBuilder × List Candle :=
  emitAll (fun builder intervalSec => builder.updateBar tick intervalSec) intervals builder

def flushAll (builder : CandleBuilder) (nowNs : Nat) : CandleBuilder × List Candle :=
  ({ openBars := ∅ },
    (builder.openBars.values.filter fun bar => bar.opened > 0).map fun bar =>
      emitCandle bar nowNs)

def onTicks (builder : CandleBuilder) (ticks : List NormalizedTick) :
    CandleBuilder × List Candle :=
  emitAll onTick ticks builder

/-- The candles of these ticks, the bars that are open at the end closed by `flush_all`. -/
def candlesOf (ticks : List NormalizedTick) (nowNs : Nat) : List Candle :=
  let built := onTicks {} ticks
  built.2 ++ (built.1.flushAll nowNs).2

def KeyedIn (tokens : Nat → Prop) (builder : CandleBuilder) : Prop :=
  ∀ key bar, builder.openBars.lookup key = some bar →
    bar.instrumentToken = key.1 ∧ tokens key.1

theorem emitAll_invariant {α : Type*} {step : CandleBuilder → α → CandleBuilder × List Candle}
    (inv : CandleBuilder → Prop) (P : Candle → Prop) {items : List α}
    (hstep : ∀ item ∈ items, ∀ builder, inv builder →
      inv (step builder item).1 ∧ ∀ c ∈ (step builder item).2, P c)
    {builder : CandleBuilder} (h : inv builder) :
    inv (emitAll step items builder).1 ∧ ∀ c ∈ (emitAll step items builder).2, P c := by
  induction items generalizing builder with
  | nil => exact ⟨h, List.forall_mem_nil _⟩
  | cons item rest ih =>
      obtain ⟨hinv, hcandles⟩ := hstep item List.mem_cons_self builder h
      obtain ⟨hrest, hothers⟩ :=
        ih (fun other hmem => hstep other (List.mem_cons_of_mem _ hmem)) hinv
      refine ⟨hrest, fun c hc => ?_⟩
      obtain hc | hc := List.mem_append.mp hc
      · exact hcandles c hc
      · exact hothers c hc

private theorem nextBar_token {bar : BarState} {tick : NormalizedTick}
    (h : bar.initialized = true → bar.instrumentToken = tick.instrumentToken) (intervalSec : Nat) :
    (nextBar bar tick intervalSec).1.instrumentToken = tick.instrumentToken ∧
      ∀ c ∈ (nextBar bar tick intervalSec).2, c.instrumentToken = tick.instrumentToken := by
  unfold nextBar
  split
  · refine ⟨rfl, fun c hc => ?_⟩
    split at hc
    · rename_i hclosed
      rw [List.mem_singleton.mp hc]
      exact h hclosed.1
    · exact absurd hc List.not_mem_nil
  · rename_i hopen
    refine ⟨h ?_, List.forall_mem_nil _⟩
    simpa using (not_or.mp hopen).1

variable {tokens : Nat → Prop} {builder : CandleBuilder} {tick : NormalizedTick}

private theorem updateBar_keyedIn (htick : tokens tick.instrumentToken)
    (h : builder.KeyedIn tokens) (intervalSec : Nat) :
    (builder.updateBar tick intervalSec).1.KeyedIn tokens ∧
      ∀ c ∈ (builder.updateBar tick intervalSec).2, tokens c.instrumentToken := by
  have hbar : ((builder.openBars.lookup (tick.instrumentToken, intervalSec)).getD
      {}).initialized = true → ((builder.openBars.lookup
      (tick.instrumentToken, intervalSec)).getD {}).instrumentToken = tick.instrumentToken := by
    cases hlookup : builder.openBars.lookup (tick.instrumentToken, intervalSec) with
    | none => simp
    | some bar => exact fun _ => (h _ bar hlookup).1
  obtain ⟨htoken, hcandles⟩ := nextBar_token hbar intervalSec
  constructor
  · intro key bar hnext
    obtain ⟨rfl, rfl⟩ | ⟨-, hold⟩ := Dict.lookup_insert_eq_some.mp hnext
    · exact ⟨htoken, htick⟩
    · exact h key bar hold
  · intro c hc
    rw [hcandles c hc]
    exact htick

theorem onTick_keyedIn (htick : tokens tick.instrumentToken) (h : builder.KeyedIn tokens) :
    (builder.onTick tick).1.KeyedIn tokens ∧
      ∀ c ∈ (builder.onTick tick).2, tokens c.instrumentToken :=
  emitAll_invariant (KeyedIn tokens) (fun c => tokens c.instrumentToken)
    (fun intervalSec _ _ h => updateBar_keyedIn htick h intervalSec) h

theorem keyedIn_empty (tokens : Nat → Prop) : KeyedIn tokens {} := by
  intro key bar hbar
  simp at hbar

theorem token_of_mem_candlesOf (tokens : Nat → Prop) {ticks : List NormalizedTick} {nowNs : Nat}
    (hticks : ∀ t ∈ ticks, tokens t.instrumentToken) {c : Candle}
    (hc : c ∈ candlesOf ticks nowNs) : tokens c.instrumentToken := by
  have hbuilt : (onTicks {} ticks).1.KeyedIn tokens ∧
      ∀ c ∈ (onTicks {} ticks).2, tokens c.instrumentToken :=
    emitAll_invariant (KeyedIn tokens) (fun c => tokens c.instrumentToken)
      (fun t hmem _ h => onTick_keyedIn (hticks t hmem) h) (keyedIn_empty tokens)
  obtain ⟨hkeyed, hcandles⟩ := hbuilt
  obtain hc | hc := List.mem_append.mp hc
  · exact hcandles c hc
  · obtain ⟨bar, hbar, rfl⟩ := List.mem_map.mp hc
    obtain ⟨key, hlookup⟩ := Dict.mem_values.mp (List.mem_of_mem_filter hbar)
    obtain ⟨htoken, hkey⟩ := hkeyed key bar hlookup
    change tokens bar.instrumentToken
    rwa [htoken]

end CandleBuilder

end QuantForge
