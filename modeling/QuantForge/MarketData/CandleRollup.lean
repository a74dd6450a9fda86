import QuantForge.Library.Grouping
import QuantForge.MarketData.CandleGroups

/-! The candles of one interval from those of a shorter one. The bars are built tick by tick for
each interval apart; in any order of arrival they are the runs of ticks of one bucket, and the
runs of a longer interval are runs of the shorter one's candles. -/
namespace QuantForge

open Library Grouping

structure Ohlcv where
  opened : ℚ
  high : ℚ
  low : ℚ
  close : ℚ
  volume : Nat
  oi : Nat
  deriving DecidableEq

namespace Ohlcv

/-- A bar and the one after it, as one bar. -/
def merge (a b : Ohlcv) : Ohlcv where
  opened := a.opened
  high := max a.high b.high
  low := min a.low b.low
  close := b.close
  volume := max a.volume b.volume
  oi := b.oi

theorem merge_assoc (a b c : Ohlcv) : (a.merge b).merge c = a.merge (b.merge c) := by
  simp only [merge, max_assoc, min_assoc]

end Ohlcv

def NormalizedTick.ohlcv (tick : NormalizedTick) : Ohlcv :=
  ⟨tick.ltp, tick.ltp, tick.ltp, tick.ltp, tick.volume, tick.oi⟩

def BarState.ohlcv (bar : BarState) : Ohlcv :=
  ⟨bar.opened, bar.high, bar.low, bar.close, bar.volume, bar.oi⟩

def Candle.ohlcv (c : Candle) : Ohlcv := ⟨c.opened, c.high, c.low, c.close, c.volume, c.oi⟩

namespace CandleBuilder

def bucketStart (intervalSec tsNs : Nat) : Nat :=
  tsNs / (intervalSec * 1000000000) * (intervalSec * 1000000000)

def candleOf (token intervalSec closeTsNs : Nat) (bucket : Nat × Ohlcv) : Candle where
  instrumentToken := token
  openTsNs := bucket.1
  closeTsNs := closeTsNs
  intervalSec := intervalSec
  opened := bucket.2.opened
  high := bucket.2.high
  low := bucket.2.low
  close := bucket.2.close
  volume := bucket.2.volume
  oi := bucket.2.oi

/-- All candles end with their bucket but the last, which `flush_all` closes. -/
def closeAll (token intervalSec nowNs : Nat) : List (Nat × Ohlcv) → List Candle
  | [] => []
  | [bucket] => [candleOf token intervalSec nowNs bucket]
  | bucket :: next :: rest =>
      candleOf token intervalSec (bucket.1 + intervalSec * 1000000000 - 1) bucket ::
        closeAll token intervalSec nowNs (next :: rest)

def rollUp (token intervalSec nowNs : Nat) (candles : List Candle) : List Candle :=
  closeAll token intervalSec nowNs
    (group Ohlcv.merge (candles.map fun c => (bucketStart intervalSec c.openTsNs, c.ohlcv)))

def tickGroups (intervalSec : Nat) (ticks : List NormalizedTick) : List (Nat × Ohlcv) :=
  group Ohlcv.merge (ticks.map fun t => (barStart t intervalSec, t.ohlcv))

theorem ohlcv_extendBar (bar : BarState) (tick : NormalizedTick) :
    (extendBar bar tick).ohlcv = bar.ohlcv.merge tick.ohlcv := by
  have hvolume : (if tick.volume > bar.volume then tick.volume else bar.volume) =
      max bar.volume tick.volume := by
    grind
  simp only [BarState.ohlcv, extendBar, Ohlcv.merge, NormalizedTick.ohlcv, hvolume]

section Bar

variable {token intervalSec : Nat} {bar : BarState} {ticks : List NormalizedTick}

theorem emitCandle_eq (hbar : Held token intervalSec bar) (hopened : Opened bar)
    (closeTsNs : Nat) : emitCandle bar closeTsNs =
      candleOf token intervalSec closeTsNs (bar.barStartNs, bar.ohlcv) := by
  obtain ⟨-, rfl, rfl⟩ := hbar hopened.1
  rfl

theorem emit_eq_closeAll (nowNs : Nat) (hticks : ∀ t ∈ ticks, 0 < t.ltp)
    (htoken : ∀ t ∈ ticks, t.instrumentToken = token) (hbar : Held token intervalSec bar)
    (hopened : Opened bar) :
    (Machine.emit (barStep intervalSec) ticks bar).2 ++
        closeBar (Machine.emit (barStep intervalSec) ticks bar).1 nowNs =
      closeAll token intervalSec nowNs (collect Ohlcv.merge (bar.barStartNs, bar.ohlcv)
        (ticks.map fun t => (barStart t intervalSec, t.ohlcv))) := by
  induction ticks generalizing bar with
  | nil =>
      simp only [Machine.emit, closeBar, if_pos hopened.2, List.nil_append, List.map_nil, collect,
        closeAll, emitCandle_eq hbar hopened]
  | cons tick ticks ih =>
      obtain ⟨hltp, hrest⟩ := List.forall_mem_cons.mp hticks
      obtain ⟨hown, hothers⟩ := List.forall_mem_cons.mp htoken
      by_cases hsame : bar.barStartNs = barStart tick intervalSec
      · have hheld : Held token intervalSec (extendBar bar tick) := hbar
        have hnext := ih hrest hothers hheld (hopened.extendBar tick)
        rw [ohlcv_extendBar] at hnext
        rw [List.map_cons, collect_of_eq hsame.symm]
        simp only [Machine.emit, barStep, nextBar_of_same hopened hsame]
        exact hnext
      · have hstart : Held token intervalSec
            (startBar tick (barStart tick intervalSec) intervalSec) :=
          fun _ => ⟨hltp, hown, rfl⟩
        have hnext := ih hrest hothers hstart
          (opened_startBar hltp (barStart tick intervalSec) intervalSec)
        rw [List.map_cons, collect_of_ne (Ne.symm hsame)]
        simp only [Machine.emit, barStep, nextBar_of_other hopened hsame]
        obtain ⟨b, groups, heq⟩ := collect_eq_cons Ohlcv.merge
          (barStart tick intervalSec) tick.ohlcv
          (ticks.map fun t => (barStart t intervalSec, t.ohlcv))
        change _ = closeAll token intervalSec nowNs (collect Ohlcv.merge
          (barStart tick intervalSec, tick.ohlcv) _) at hnext
        rw [heq] at hnext ⊢
        rw [closeAll, ← hnext, emitCandle_eq hbar hopened]
        rfl

/-- In any order of arrival the candles of a key are the runs of its ticks. -/
theorem barCandles_eq_closeAll (nowNs : Nat) (hticks : ∀ t ∈ ticks, 0 < t.ltp)
    (htoken : ∀ t ∈ ticks, t.instrumentToken = token) :
    barCandles intervalSec ticks nowNs =
      closeAll token intervalSec nowNs (tickGroups intervalSec ticks) := by
  cases ticks with
  | nil => rfl
  | cons tick ticks =>
      obtain ⟨hltp, hrest⟩ := List.forall_mem_cons.mp hticks
      obtain ⟨hown, hothers⟩ := List.forall_mem_cons.mp htoken
      have hheld : Held token intervalSec
          (startBar tick (barStart tick intervalSec) intervalSec) :=
        fun _ => ⟨hltp, hown, rfl⟩
      exact emit_eq_closeAll nowNs hrest hothers hheld (opened_startBar hltp _ intervalSec)

end Bar

section Rollup

variable {ticks : List NormalizedTick} {fine coarse : Nat}

theorem bucketStart_bucketStart (hfine : 0 < fine) (hdvd : fine ∣ coarse) (tsNs : Nat) :
    bucketStart coarse (bucketStart fine tsNs) = bucketStart coarse tsNs := by
  obtain ⟨k, rfl⟩ := hdvd
  have hsplit : fine * k * 1000000000 = fine * 1000000000 * k := Nat.mul_right_comm _ _ _
  rw [bucketStart, bucketStart, bucketStart, hsplit, ← Nat.div_div_eq_div_mul,
    Nat.mul_div_cancel _ (by omega), Nat.div_div_eq_div_mul]

theorem dvd_of_le_intervals (hfine : fine ∈ intervals) (hcoarse : coarse ∈ intervals)
    (hle : fine ≤ coarse) : 0 < fine ∧ fine ∣ coarse := by
  simp only [intervals, List.mem_cons, List.not_mem_nil, or_false] at hfine hcoarse
  obtain rfl | rfl | rfl | rfl := hfine <;> obtain rfl | rfl | rfl | rfl := hcoarse <;> omega

theorem bucket_closeAll (token intervalSec nowNs : Nat) (f : Nat → Nat)
    (buckets : List (Nat × Ohlcv)) :
    (closeAll token intervalSec nowNs buckets).map (fun c => (f c.openTsNs, c.ohlcv)) =
      rekey f buckets := by
  induction buckets with
  | nil => rfl
  | cons bucket rest ih =>
      cases rest with
      | nil => rfl
      | cons next rest => exact congrArg (_ :: ·) ih

/-- The candles of a longer interval are made of those of a shorter one, in any order of
arrival. -/
theorem rollUp_candlesOf (hticks : ∀ t ∈ ticks, 0 < t.ltp) (hfine : fine ∈ intervals)
    (hcoarse : coarse ∈ intervals) (hle : fine ≤ coarse) (token nowNs : Nat) :
    (candlesOf ticks nowNs).filter (ofKey token coarse) =
      rollUp token coarse nowNs ((candlesOf ticks nowNs).filter (ofKey token fine)) := by
  obtain ⟨hpos, hdvd⟩ := dvd_of_le_intervals hfine hcoarse hle
  have hown : ∀ t ∈ ticksOf token ticks, t.instrumentToken = token := by
    intro t ht
    simpa using List.of_mem_filter ht
  have hltp := pos_ticksOf hticks token
  have hcandles : ∀ i ∈ intervals, (candlesOf ticks nowNs).filter (ofKey token i) =
      closeAll token i nowNs (tickGroups i (ticksOf token ticks)) := by
    intro i hi
    rw [filter_candlesOf hticks hi, barCandles_eq_closeAll nowNs hltp hown]
  have hcoarser : rekey (bucketStart coarse)
      ((ticksOf token ticks).map fun t => (barStart t fine, t.ohlcv)) =
      (ticksOf token ticks).map fun t => (barStart t coarse, t.ohlcv) := by
    rw [rekey, List.map_map]
    refine List.map_congr_left fun t _ => ?_
    exact congrArg (·, t.ohlcv) (bucketStart_bucketStart hpos hdvd (bucketTs t))
  rw [hcandles coarse hcoarse, hcandles fine hfine, rollUp, bucket_closeAll, tickGroups,
    tickGroups, group_rekey_group Ohlcv.merge_assoc, hcoarser]

/-- A second late the volume is still 90; a minute on it is 250. -/
def lateVolume : List NormalizedTick :=
  [{ instrumentToken := 1, ltp := 100, volume := 100, exchangeTsNs := 60000000000 },
    { instrumentToken := 1, ltp := 101, volume := 90, exchangeTsNs := 59000000000 },
    { instrumentToken := 1, ltp := 102, volume := 250, exchangeTsNs := 120000000000 }]

theorem rollUp_lateTick :
    (candlesOf lateVolume 121000000000).filter (ofKey 1 3600) =
        rollUp 1 3600 121000000000 ((candlesOf lateVolume 121000000000).filter (ofKey 1 60)) ∧
      ((candlesOf lateVolume 121000000000).filter (ofKey 1 60)).map Candle.volume =
        [100, 90, 250] ∧
      ((candlesOf lateVolume 121000000000).filter (ofKey 1 3600)).map Candle.volume = [250] :=
  ⟨rollUp_candlesOf (by decide +kernel) (by decide) (by decide) (by decide) 1 121000000000,
    by decide +kernel, by decide +kernel⟩

end Rollup

end CandleBuilder

end QuantForge
