import QuantForge.Library.Machine
import QuantForge.MarketData.CandleBuilder

/-! What `CandleBuilder` does for one instrument and one interval: the bars of the others change
nothing, so the candles of a key are those of a single bar that is fed with its own ticks. -/
namespace QuantForge

open Library

namespace CandleBuilder

def ofKey (token intervalSec : Nat) (c : Candle) : Bool :=
  c.instrumentToken == token && c.intervalSec == intervalSec

def ticksOf (token : Nat) (ticks : List NormalizedTick) : List NormalizedTick :=
  ticks.filter fun t => t.instrumentToken == token

def closeBar (bar : BarState) (nowNs : Nat) : List Candle :=
  if bar.opened > 0 then [emitCandle bar nowNs] else []

def barStep (intervalSec : Nat) (bar : BarState) (tick : NormalizedTick) :
    BarState × List Candle := nextBar bar tick intervalSec

def barCandles (intervalSec : Nat) (ticks : List NormalizedTick) (nowNs : Nat) : List Candle :=
  let built := Machine.emit (barStep intervalSec) ticks {}
  built.2 ++ closeBar built.1 nowNs

def Held (token intervalSec : Nat) (bar : BarState) : Prop :=
  bar.initialized = true →
    0 < bar.opened ∧ bar.instrumentToken = token ∧ bar.intervalSec = intervalSec

def Keyed (builder : CandleBuilder) : Prop :=
  ∀ key bar, builder.openBars.lookup key = some bar →
    bar.initialized = true ∧ Held key.1 key.2 bar ∧ key.2 ∈ intervals

def barOf (token intervalSec : Nat) (builder : CandleBuilder) : BarState :=
  (builder.openBars.lookup (token, intervalSec)).getD {}

theorem emitAll_eq_emit {α : Type*} (step : CandleBuilder → α → CandleBuilder × List Candle)
    (items : List α) (builder : CandleBuilder) :
    emitAll step items builder = Machine.emit step items builder := by
  induction items generalizing builder with
  | nil => rfl
  | cons a items ih => rw [emitAll, Machine.emit, ih]

section Step

variable {token intervalSec : Nat} {bar : BarState} {tick : NormalizedTick}
  {builder : CandleBuilder}

theorem held_fresh (token intervalSec : Nat) : Held token intervalSec {} :=
  fun h => absurd h (by decide)

theorem Keyed.held (h : builder.Keyed) (token intervalSec : Nat) :
    Held token intervalSec (builder.barOf token intervalSec) := by
  unfold barOf
  cases hlookup : builder.openBars.lookup (token, intervalSec) with
  | none => exact held_fresh token intervalSec
  | some bar => exact (h _ bar hlookup).2.1

theorem nextBar_held (h : Held token intervalSec bar) (htoken : tick.instrumentToken = token)
    (hltp : 0 < tick.ltp) :
    (nextBar bar tick intervalSec).1.initialized = true ∧
      Held token intervalSec (nextBar bar tick intervalSec).1 ∧
      ∀ c ∈ (nextBar bar tick intervalSec).2, ofKey token intervalSec c = true := by
  unfold nextBar
  split
  · refine ⟨rfl, fun _ => ⟨hltp, htoken, rfl⟩, fun c hc => ?_⟩
    split at hc
    · rename_i hclosed
      obtain ⟨-, hbarToken, hinterval⟩ := h hclosed.1
      rw [List.mem_singleton.mp hc]
      simp [ofKey, emitCandle, hbarToken, hinterval]
    · exact absurd hc List.not_mem_nil
  · rename_i hopen
    have hinitialized : bar.initialized = true := by simpa using (not_or.mp hopen).1
    exact ⟨hinitialized, fun _ => h hinitialized, List.forall_mem_nil _⟩

theorem barOf_updateBar (builder : CandleBuilder) (tick : NormalizedTick) (i token : Nat)
    (intervalSec : Nat) : (builder.updateBar tick i).1.barOf token intervalSec =
      if tick.instrumentToken = token ∧ i = intervalSec then
        (nextBar (builder.barOf token intervalSec) tick intervalSec).1
      else builder.barOf token intervalSec := by
  unfold updateBar
  split
  · rename_i heq
    obtain ⟨rfl, rfl⟩ := heq
    rw [barOf, AList.lookup_insert]
    rfl
  · rename_i hne
    rw [barOf, AList.lookup_insert_ne]
    · rfl
    · rintro heq
      obtain ⟨rfl, rfl⟩ := Prod.mk.inj heq
      exact hne ⟨rfl, rfl⟩

theorem Keyed.updateBar (h : builder.Keyed) (hltp : 0 < tick.ltp) {i : Nat}
    (hi : i ∈ intervals) : (builder.updateBar tick i).1.Keyed := by
  intro key bar hlookup
  obtain ⟨rfl, rfl⟩ | ⟨-, hold⟩ := Dict.lookup_insert_eq_some.mp hlookup
  · obtain ⟨hinitialized, hheld, -⟩ := nextBar_held (h.held tick.instrumentToken i) rfl hltp
    exact ⟨hinitialized, hheld, hi⟩
  · exact h key bar hold

theorem filter_updateBar (h : builder.Keyed) (hltp : 0 < tick.ltp) (i token intervalSec : Nat) :
    (builder.updateBar tick i).2.filter (ofKey token intervalSec) =
      if tick.instrumentToken = token ∧ i = intervalSec then
        (nextBar (builder.barOf token intervalSec) tick intervalSec).2
      else [] := by
  obtain ⟨-, -, hkeys⟩ := nextBar_held (h.held tick.instrumentToken i) rfl hltp
  split
  · rename_i heq
    obtain ⟨rfl, rfl⟩ := heq
    exact List.filter_eq_self.mpr hkeys
  · rename_i hne
    refine List.filter_eq_nil_iff.mpr fun c hc hkey => hne ?_
    have hown := hkeys c hc
    simp only [ofKey, Bool.and_eq_true, beq_iff_eq] at hown hkey
    exact ⟨hown.1.symm.trans hkey.1, hown.2.symm.trans hkey.2⟩

def keyStep (token intervalSec : Nat) (bar : BarState) (tick : NormalizedTick) :
    BarState × List Candle :=
  if tick.instrumentToken = token then nextBar bar tick intervalSec else (bar, [])

private theorem emit_intervals (hinterval : intervalSec ∈ intervals) (bar : BarState) :
    Machine.emit (fun bar i => if tick.instrumentToken = token ∧ i = intervalSec then
      nextBar bar tick intervalSec else (bar, [])) intervals bar =
      keyStep token intervalSec bar tick := by
  rw [Machine.emit_filter (fun i => i == intervalSec)]
  · have hone : intervals.filter (fun i => i == intervalSec) = [intervalSec] := by
      simp only [intervals, List.mem_cons, List.not_mem_nil, or_false] at hinterval
      obtain rfl | rfl | rfl | rfl := hinterval <;> rfl
    simp [hone, Machine.emit, keyStep]
  · intro bar i hother
    rw [if_neg]
    rintro ⟨-, rfl⟩
    simp at hother

theorem onTick_view (h : builder.Keyed) (hltp : 0 < tick.ltp)
    (hinterval : intervalSec ∈ intervals) (token : Nat) :
    (builder.onTick tick).1.Keyed ∧ (builder.onTick tick).1.barOf token intervalSec =
        (keyStep token intervalSec (builder.barOf token intervalSec) tick).1 ∧
      (builder.onTick tick).2.filter (ofKey token intervalSec) =
        (keyStep token intervalSec (builder.barOf token intervalSec) tick).2 := by
  rw [onTick, emitAll_eq_emit, ← emit_intervals hinterval]
  refine Machine.emit_view (barOf token intervalSec) _ Keyed (fun i hi b hb => ⟨?_, ?_, ?_⟩) h
  · exact hb.updateBar hltp hi
  · rw [barOf_updateBar]
    split <;> rfl
  · rw [filter_updateBar hb hltp]
    split <;> rfl

theorem keyed_empty : Keyed {} := by
  intro key bar hlookup
  simp at hlookup

variable {ticks : List NormalizedTick}

theorem onTicks_view (hticks : ∀ t ∈ ticks, 0 < t.ltp) (hinterval : intervalSec ∈ intervals)
    (token : Nat) :
    let built := Machine.emit (barStep intervalSec) (ticksOf token ticks) {}
    (onTicks {} ticks).1.Keyed ∧ (onTicks {} ticks).1.barOf token intervalSec = built.1 ∧
      (onTicks {} ticks).2.filter (ofKey token intervalSec) = built.2 := by
  have hown : Machine.emit (keyStep token intervalSec) ticks {} =
      Machine.emit (barStep intervalSec) (ticksOf token ticks) {} := by
    rw [Machine.emit_filter (fun t => t.instrumentToken == token) (by simp_all [keyStep])]
    refine Machine.emit_congr (fun t ht bar => if_pos ?_) _
    simpa using List.of_mem_filter ht
  rw [onTicks, emitAll_eq_emit, ← hown]
  exact Machine.emit_view (barOf token intervalSec) _ Keyed
    (fun t ht b hb => onTick_view hb (hticks t ht) hinterval token) keyed_empty

theorem filter_flushAll (h : builder.Keyed) (nowNs token intervalSec : Nat) :
    (builder.flushAll nowNs).2.filter (ofKey token intervalSec) =
      closeBar (builder.barOf token intervalSec) nowNs := by
  have hselect : builder.openBars.entries.filter (fun e =>
      ofKey token intervalSec (emitCandle e.2 nowNs) && decide (e.2.opened > 0)) =
      builder.openBars.select fun key => decide (key = (token, intervalSec)) := by
    refine List.filter_congr fun e he => ?_
    obtain ⟨hinitialized, hheld, -⟩ := h e.1 e.2 (Dict.lookup_of_mem he)
    obtain ⟨hopened, htoken, hinterval⟩ := hheld hinitialized
    rw [Bool.eq_iff_iff]
    simp [hopened, ofKey, emitCandle, htoken, hinterval, Prod.ext_iff]
  rw [Dict.select_key] at hselect
  rw [flushAll, List.filter_map, Dict.values, List.filter_filter, List.filter_map, List.map_map]
  refine (congrArg (List.map _) hselect).trans ?_
  unfold closeBar barOf
  cases hlookup : builder.openBars.lookup (token, intervalSec) with
  | none => rfl
  | some bar =>
      obtain ⟨hinitialized, hheld, -⟩ := h _ bar hlookup
      rw [Option.getD_some, if_pos (hheld hinitialized).1]
      rfl

theorem filter_candlesOf (hticks : ∀ t ∈ ticks, 0 < t.ltp) (hinterval : intervalSec ∈ intervals)
    (token nowNs : Nat) :
    (candlesOf ticks nowNs).filter (ofKey token intervalSec) =
      barCandles intervalSec (ticksOf token ticks) nowNs := by
  obtain ⟨hkeyed, hbar, hcandles⟩ := onTicks_view hticks hinterval token
  rw [candlesOf, List.filter_append, filter_flushAll hkeyed, hbar, hcandles]
  rfl

theorem onTick_interval (h : builder.Keyed) (hltp : 0 < tick.ltp) :
    (builder.onTick tick).1.Keyed ∧ ∀ c ∈ (builder.onTick tick).2, c.intervalSec ∈ intervals := by
  refine emitAll_invariant Keyed (fun c => c.intervalSec ∈ intervals) (fun i hi b hb => ?_) h
  refine ⟨hb.updateBar hltp hi, fun c hc => ?_⟩
  have hkey := (nextBar_held (hb.held tick.instrumentToken i) rfl hltp).2.2 c hc
  simp only [ofKey, Bool.and_eq_true, beq_iff_eq] at hkey
  rwa [hkey.2]

theorem interval_of_mem_candlesOf (hticks : ∀ t ∈ ticks, 0 < t.ltp) {nowNs : Nat} {c : Candle}
    (hc : c ∈ candlesOf ticks nowNs) : c.intervalSec ∈ intervals := by
  have hbuilt : (onTicks {} ticks).1.Keyed ∧
      ∀ c ∈ (onTicks {} ticks).2, c.intervalSec ∈ intervals :=
    emitAll_invariant Keyed (fun c => c.intervalSec ∈ intervals)
      (fun t ht _ hb => onTick_interval hb (hticks t ht)) keyed_empty
  obtain ⟨hkeyed, hcandles⟩ := hbuilt
  obtain hc | hc := List.mem_append.mp hc
  · exact hcandles c hc
  · obtain ⟨bar, hbar, rfl⟩ := List.mem_map.mp hc
    obtain ⟨key, hlookup⟩ := Dict.mem_values.mp (List.mem_of_mem_filter hbar)
    obtain ⟨hinitialized, hheld, hinterval⟩ := hkeyed key bar hlookup
    change bar.intervalSec ∈ intervals
    rwa [(hheld hinitialized).2.2]

end Step

end CandleBuilder

end QuantForge
