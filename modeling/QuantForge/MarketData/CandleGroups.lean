import Mathlib.Data.Finset.Sort
import Mathlib.Data.List.Destutter
import Mathlib.Order.Bounds.Basic
import Mathlib.Order.Bounds.Lattice
import QuantForge.MarketData.CandleStream

/-! The candles as a grouping of the ticks by bucket. In any order of arrival the candles of a
key are one for each run of ticks in one bucket; when the buckets never decrease these are the
groups, and only then is no bar reported twice. -/
namespace QuantForge

open Library

namespace CandleBuilder

def bucketTs (tick : NormalizedTick) : Nat :=
  if tick.exchangeTsNs > 0 then tick.exchangeTsNs else tick.recvTsNs

theorem barStart_eq (tick : NormalizedTick) (intervalSec : Nat) :
    barStart tick intervalSec =
      bucketTs tick / (intervalSec * 1000000000) * (intervalSec * 1000000000) := rfl

structure Summarises (c : Candle) (ticks : List NormalizedTick) : Prop where
  opened : ticks.head?.map NormalizedTick.ltp = some c.opened
  high : IsGreatest {x | ∃ t ∈ ticks, t.ltp = x} c.high
  low : IsLeast {x | ∃ t ∈ ticks, t.ltp = x} c.low
  close : ticks.getLast?.map NormalizedTick.ltp = some c.close
  volume : IsGreatest {v | ∃ t ∈ ticks, t.volume = v} c.volume
  oi : ticks.getLast?.map NormalizedTick.oi = some c.oi

section Bar

variable {bar : BarState} {tick : NormalizedTick} {intervalSec : Nat}
  {ticks : List NormalizedTick}

def Opened (bar : BarState) : Prop := bar.initialized = true ∧ 0 < bar.opened

theorem nextBar_of_same (h : Opened bar) (hsame : bar.barStartNs = barStart tick intervalSec) :
    nextBar bar tick intervalSec = (extendBar bar tick, []) := by
  rw [nextBar, if_neg]
  simp [h.1, hsame]

theorem nextBar_of_other (h : Opened bar) (hother : bar.barStartNs ≠ barStart tick intervalSec) :
    nextBar bar tick intervalSec = (startBar tick (barStart tick intervalSec) intervalSec,
      [emitCandle bar (bar.barStartNs + intervalSec * 1000000000 - 1)]) := by
  rw [nextBar, if_pos (.inr hother), if_pos ⟨h.1, h.2⟩]

theorem opened_startBar (hltp : 0 < tick.ltp) (start intervalSec : Nat) :
    Opened (startBar tick start intervalSec) := ⟨rfl, hltp⟩

theorem Opened.extendBar (h : Opened bar) (tick : NormalizedTick) :
    Opened (extendBar bar tick) := h

private theorem setOf_append_singleton {α β : Type*} (f : α → β) (as : List α) (a : α) :
    {x | ∃ b ∈ as ++ [a], f b = x} = insert (f a) {x | ∃ b ∈ as, f b = x} := by
  ext x
  simp only [List.mem_append, List.mem_singleton, Set.mem_ofPred_eq, Set.mem_insert_iff]
  grind

theorem summarises_startBar (tick : NormalizedTick) (start intervalSec closeTsNs : Nat) :
    Summarises (emitCandle (startBar tick start intervalSec) closeTsNs) [tick] := by
  constructor <;> simp [emitCandle, startBar, IsGreatest, IsLeast, upperBounds, lowerBounds]

theorem Summarises.extendBar {closeTsNs : Nat} (h : Summarises (emitCandle bar closeTsNs) ticks)
    (tick : NormalizedTick) (closeTsNs' : Nat) :
    Summarises (emitCandle (extendBar bar tick) closeTsNs') (ticks ++ [tick]) := by
  have hvolume : (CandleBuilder.extendBar bar tick).volume = max tick.volume bar.volume := by
    simp only [CandleBuilder.extendBar]
    grind
  refine ⟨?_, ?_, ?_, ?_, ?_, ?_⟩
  · rw [List.head?_append_of_ne_nil]
    · exact h.opened
    · rintro rfl
      simpa using h.opened
  · rw [setOf_append_singleton]
    change IsGreatest _ (max bar.high tick.ltp)
    rw [max_comm]
    exact h.high.insert tick.ltp
  · rw [setOf_append_singleton]
    change IsLeast _ (min bar.low tick.ltp)
    rw [min_comm]
    exact h.low.insert tick.ltp
  · simp [emitCandle, CandleBuilder.extendBar]
  · rw [setOf_append_singleton]
    change IsGreatest _ (CandleBuilder.extendBar bar tick).volume
    rw [hvolume]
    exact h.volume.insert tick.volume
  · simp [emitCandle, CandleBuilder.extendBar]

end Bar

section Runs

variable {bar : BarState} {tick : NormalizedTick} {ticks : List NormalizedTick}

theorem opens_emit (intervalSec : Nat) (hticks : ∀ t ∈ ticks, 0 < t.ltp) (h : Opened bar) :
    let built := Machine.emit (barStep intervalSec) ticks bar
    Opened built.1 ∧ built.2.map Candle.openTsNs ++ [built.1.barStartNs] =
      (ticks.map fun t => barStart t intervalSec).destutter' (· ≠ ·) bar.barStartNs := by
  induction ticks generalizing bar with
  | nil => exact ⟨h, rfl⟩
  | cons tick ticks ih =>
      obtain ⟨hltp, hrest⟩ := List.forall_mem_cons.mp hticks
      rw [List.map_cons]
      by_cases hsame : bar.barStartNs = barStart tick intervalSec
      · obtain ⟨hopened, hopens⟩ := ih hrest (h.extendBar tick)
        rw [List.destutter'_cons_neg _ (not_not.mpr hsame)]
        simp only [Machine.emit, barStep, nextBar_of_same h hsame]
        exact ⟨hopened, hopens⟩
      · obtain ⟨hopened, hopens⟩ :=
          ih hrest (opened_startBar hltp (barStart tick intervalSec) intervalSec)
        rw [List.destutter'_cons_pos _ hsame]
        simp only [Machine.emit, barStep, nextBar_of_other h hsame]
        exact ⟨hopened, congrArg (bar.barStartNs :: ·) hopens⟩

theorem opens_barCandles (intervalSec nowNs : Nat) (hticks : ∀ t ∈ ticks, 0 < t.ltp) :
    (barCandles intervalSec ticks nowNs).map Candle.openTsNs =
      (ticks.map fun t => barStart t intervalSec).destutter (· ≠ ·) := by
  cases ticks with
  | nil => rfl
  | cons tick ticks =>
      obtain ⟨hltp, hrest⟩ := List.forall_mem_cons.mp hticks
      obtain ⟨hopened, hopens⟩ := opens_emit intervalSec hrest
        (opened_startBar hltp (barStart tick intervalSec) intervalSec)
      rw [List.map_cons, List.destutter_cons']
      refine Eq.trans ?_ hopens
      change List.map _ (_ ++ closeBar (Machine.emit (barStep intervalSec) ticks
        (startBar tick (barStart tick intervalSec) intervalSec)).1 nowNs) = _
      rw [closeBar, if_pos hopened.2, List.map_append]
      rfl

structure Grouped (intervalSec : Nat) (ticks : List NormalizedTick)
    (built : BarState × List Candle) : Prop where
  opened : Opened built.1
  start_mem : ∃ t ∈ ticks, barStart t intervalSec = built.1.barStartNs
  latest : ∀ t ∈ ticks, barStart t intervalSec ≤ built.1.barStartNs
  current : ∀ closeTsNs, Summarises (emitCandle built.1 closeTsNs)
    (ticks.filter fun t => barStart t intervalSec = built.1.barStartNs)
  emitted : ∀ c ∈ built.2, c.openTsNs < built.1.barStartNs ∧
    Summarises c (ticks.filter fun t => barStart t intervalSec = c.openTsNs)

private theorem filter_append_other {p : NormalizedTick → Bool} (h : p tick = false) :
    (ticks ++ [tick]).filter p = ticks.filter p := by
  rw [List.filter_append, List.filter_cons_of_neg (by simp [h]), List.filter_nil,
    List.append_nil]

private theorem filter_append_same {p : NormalizedTick → Bool} (h : p tick = true) :
    (ticks ++ [tick]).filter p = ticks.filter p ++ [tick] := by
  rw [List.filter_append, List.filter_cons_of_pos h, List.filter_nil]

theorem grouped_first (hltp : 0 < tick.ltp) (intervalSec : Nat) :
    Grouped intervalSec [tick] (barStep intervalSec {} tick) where
  opened := opened_startBar hltp _ intervalSec
  start_mem := ⟨tick, List.mem_singleton_self tick, rfl⟩
  latest := by
    intro t ht
    rw [List.mem_singleton.mp ht]
    rfl
  current := by
    intro closeTsNs
    rw [List.filter_cons_of_pos (by exact decide_eq_true rfl), List.filter_nil]
    exact summarises_startBar tick _ intervalSec closeTsNs
  emitted := List.forall_mem_nil _

private theorem summarises_append_other {intervalSec : Nat} {c : Candle}
    (hc : c.openTsNs < barStart tick intervalSec)
    (h : Summarises c (ticks.filter fun t => barStart t intervalSec = c.openTsNs)) :
    Summarises c ((ticks ++ [tick]).filter fun t => barStart t intervalSec = c.openTsNs) := by
  rwa [filter_append_other (decide_eq_false hc.ne')]

section Next

variable {intervalSec : Nat} {built : BarState × List Candle}
  (h : Grouped intervalSec ticks built)
include h

theorem Grouped.next_of_same (hsame : built.1.barStartNs = barStart tick intervalSec) :
    Grouped intervalSec (ticks ++ [tick])
      ((barStep intervalSec built.1 tick).1, built.2 ++ (barStep intervalSec built.1 tick).2) := by
  rw [barStep, nextBar_of_same h.opened hsame]
  refine ⟨h.opened.extendBar tick, ?_, ?_, ?_, ?_⟩
  · exact ⟨tick, List.mem_append_right _ (List.mem_singleton_self tick), hsame.symm⟩
  · intro t ht
    obtain ht | ht := List.mem_append.mp ht
    · exact h.latest t ht
    · rw [List.mem_singleton.mp ht]
      exact hsame.ge
  · intro closeTsNs
    rw [filter_append_same (decide_eq_true hsame.symm)]
    exact (h.current closeTsNs).extendBar tick closeTsNs
  · intro c hc
    obtain ⟨hearlier, hsummary⟩ := h.emitted c (by simpa using hc)
    exact ⟨hearlier, summarises_append_other (hearlier.trans_eq hsame) hsummary⟩

theorem Grouped.next_of_later (hltp : 0 < tick.ltp)
    (hlt : built.1.barStartNs < barStart tick intervalSec) :
    Grouped intervalSec (ticks ++ [tick])
      ((barStep intervalSec built.1 tick).1, built.2 ++ (barStep intervalSec built.1 tick).2) := by
  rw [barStep, nextBar_of_other h.opened hlt.ne]
  refine ⟨opened_startBar hltp _ intervalSec, ?_, ?_, ?_, ?_⟩
  · exact ⟨tick, List.mem_append_right _ (List.mem_singleton_self tick), rfl⟩
  · intro t ht
    obtain ht | ht := List.mem_append.mp ht
    · exact (h.latest t ht).trans hlt.le
    · rw [List.mem_singleton.mp ht]
      rfl
  · -- No earlier tick is in the new bucket.
    intro closeTsNs
    have hnone : ticks.filter (fun t => barStart t intervalSec = barStart tick intervalSec) =
        [] := by
      refine List.filter_eq_nil_iff.mpr fun t ht heq => ?_
      exact absurd (of_decide_eq_true heq) ((h.latest t ht).trans_lt hlt).ne
    change Summarises _ ((ticks ++ [tick]).filter fun t =>
      barStart t intervalSec = barStart tick intervalSec)
    rw [filter_append_same (decide_eq_true rfl), hnone]
    exact summarises_startBar tick _ intervalSec closeTsNs
  · intro c hc
    obtain hc | hc := List.mem_append.mp hc
    · obtain ⟨hearlier, hsummary⟩ := h.emitted c hc
      exact ⟨hearlier.trans hlt, summarises_append_other (hearlier.trans hlt) hsummary⟩
    · rw [List.mem_singleton.mp hc]
      exact ⟨hlt, summarises_append_other hlt (h.current _)⟩

theorem Grouped.next (hltp : 0 < tick.ltp)
    (hlater : ∀ t ∈ ticks, barStart t intervalSec ≤ barStart tick intervalSec) :
    Grouped intervalSec (ticks ++ [tick])
      ((barStep intervalSec built.1 tick).1, built.2 ++ (barStep intervalSec built.1 tick).2) := by
  obtain ⟨t, ht, hstart⟩ := h.start_mem
  obtain hsame | hlt := (hstart ▸ hlater t ht).eq_or_lt
  · exact h.next_of_same hsame
  · exact h.next_of_later hltp hlt

end Next

/-- When the buckets never decrease, the bar and its candles are the groups of the ticks. -/
theorem grouped_emit {intervalSec : Nat} (hne : ticks ≠ []) (hticks : ∀ t ∈ ticks, 0 < t.ltp)
    (hmono : ticks.Pairwise fun a b => barStart a intervalSec ≤ barStart b intervalSec) :
    Grouped intervalSec ticks (Machine.emit (barStep intervalSec) ticks {}) := by
  induction ticks using List.reverseRecOn with
  | nil => exact absurd rfl hne
  | append_singleton ticks tick ih =>
      have hltp : 0 < tick.ltp := hticks tick (by simp)
      obtain ⟨hearlier, -, hlater⟩ := List.pairwise_append.mp hmono
      obtain rfl | hsome := eq_or_ne ticks []
      · exact grouped_first hltp intervalSec
      have hgrouped := ih hsome (fun t ht => hticks t (List.mem_append_left _ ht)) hearlier
      rw [Machine.emit_append]
      simpa [Machine.emit] using hgrouped.next hltp
        (fun t ht => hlater t ht tick (List.mem_singleton_self tick))

end Runs

section Groups

variable {ticks : List NormalizedTick} {intervalSec : Nat}

theorem barStart_mono {a b : NormalizedTick} (h : bucketTs a ≤ bucketTs b) (intervalSec : Nat) :
    barStart a intervalSec ≤ barStart b intervalSec := by
  rw [barStart_eq, barStart_eq]
  exact Nat.mul_le_mul_right _ (Nat.div_le_div_right h)

theorem destutter_eq_sort {l : List Nat} (h : l.Pairwise (· ≤ ·)) :
    l.destutter (· ≠ ·) = l.toFinset.sort := by
  have hsame : l.dedup.toFinset = l.toFinset := by
    ext n
    simp
  rw [h.destutter_eq_dedup, ← hsame]
  exact ((List.toFinset_sort _ l.nodup_dedup).mpr (h.sublist l.dedup_sublist)).symm

theorem pos_ticksOf (hticks : ∀ t ∈ ticks, 0 < t.ltp) (token : Nat) :
    ∀ t ∈ ticksOf token ticks, 0 < t.ltp :=
  fun t ht => hticks t (List.mem_of_mem_filter ht)

theorem opens_candlesOf (hticks : ∀ t ∈ ticks, 0 < t.ltp) (hinterval : intervalSec ∈ intervals)
    (token nowNs : Nat) :
    ((candlesOf ticks nowNs).filter (ofKey token intervalSec)).map Candle.openTsNs =
      ((ticksOf token ticks).map fun t => barStart t intervalSec).destutter (· ≠ ·) := by
  rw [filter_candlesOf hticks hinterval, opens_barCandles _ _ (pos_ticksOf hticks token)]

theorem summarises_barCandles (hticks : ∀ t ∈ ticks, 0 < t.ltp)
    (hmono : ticks.Pairwise fun a b => barStart a intervalSec ≤ barStart b intervalSec)
    (nowNs : Nat) : ∀ c ∈ barCandles intervalSec ticks nowNs,
      Summarises c (ticks.filter fun t => barStart t intervalSec = c.openTsNs) := by
  obtain rfl | hne := eq_or_ne ticks []
  · exact List.forall_mem_nil _
  have hgrouped := grouped_emit hne hticks hmono
  intro c hc
  obtain hc | hc := List.mem_append.mp hc
  · exact (hgrouped.emitted c hc).2
  · rw [closeBar, if_pos hgrouped.opened.2] at hc
    rw [List.mem_singleton.mp hc]
    exact hgrouped.current nowNs

def twoInstruments : List NormalizedTick :=
  [{ instrumentToken := 1, ltp := 100, volume := 5, exchangeTsNs := 30000000000 },
    { instrumentToken := 2, ltp := 7, recvTsNs := 40000000000 },
    { instrumentToken := 1, ltp := 98, volume := 9, exchangeTsNs := 50000000000 },
    { instrumentToken := 1, ltp := 99, volume := 9, exchangeTsNs := 61000000000 }]

end Groups

section Uniqueness

variable {ticks : List NormalizedTick} {intervalSec : Nat}

/-- No bar is reported twice, and those of a key are reported in order. -/
structure ReportedOnce (candles : List Candle) : Prop where
  once : (candles.map fun c => (c.instrumentToken, c.intervalSec, c.openTsNs)).Nodup
  increasing : ∀ token intervalSec,
    ((candles.filter (ofKey token intervalSec)).map Candle.openTsNs).Pairwise (· < ·)

/-- The order of each key's bars is all that is needed. -/
theorem reportedOnce_iff (candles : List Candle) : ReportedOnce candles ↔
    ∀ token intervalSec,
      ((candles.filter (ofKey token intervalSec)).map Candle.openTsNs).Pairwise (· < ·) := by
  refine ⟨ReportedOnce.increasing, fun h => ⟨?_, h⟩⟩
  rw [List.nodup_iff_count_le_one]
  rintro ⟨token, intervalSec, openTsNs⟩
  have hnodup : ((candles.filter (ofKey token intervalSec)).map Candle.openTsNs).Nodup :=
    (h token intervalSec).imp fun hlt => hlt.ne
  have hone := List.nodup_iff_count_le_one.mp hnodup openTsNs
  rw [List.count_eq_countP, List.countP_map, List.countP_filter] at hone
  rw [List.count_eq_countP, List.countP_map]
  refine le_trans (List.countP_mono_left fun c _ hc => ?_) hone
  simp only [Function.comp_apply, beq_iff_eq, Prod.mk.injEq] at hc
  simp [ofKey, hc]

private theorem pairwise_of_destutter' {a : Nat} {l : List Nat}
    (h : (l.destutter' (· ≠ ·) a).Pairwise (· < ·)) : (a :: l).Pairwise (· ≤ ·) := by
  induction l generalizing a with
  | nil => exact List.pairwise_singleton _ a
  | cons b l ih =>
      by_cases heq : a = b
      · rw [List.destutter'_cons_neg _ (not_not.mpr heq)] at h
        subst heq
        have hrest := ih h
        refine List.pairwise_cons.mpr ⟨?_, hrest⟩
        exact List.forall_mem_cons.mpr ⟨le_refl a, (List.pairwise_cons.mp hrest).1⟩
      · rw [List.destutter'_cons_pos _ heq] at h
        obtain ⟨hfirst, htail⟩ := List.pairwise_cons.mp h
        have hrest := ih htail
        have hab : a ≤ b := (hfirst b (List.mem_destutter' _ _ _)).le
        refine List.pairwise_cons.mpr ⟨?_, hrest⟩
        exact List.forall_mem_cons.mpr
          ⟨hab, fun c hc => hab.trans ((List.pairwise_cons.mp hrest).1 c hc)⟩

theorem pairwise_destutter_iff (l : List Nat) :
    (l.destutter (· ≠ ·)).Pairwise (· < ·) ↔ l.Pairwise (· ≤ ·) := by
  constructor
  · intro h
    cases l with
    | nil => exact List.Pairwise.nil
    | cons a l => exact pairwise_of_destutter' h
  · intro h
    rw [destutter_eq_sort h]
    exact (Finset.sortedLT_sort _).pairwise

theorem barStart_mono_of_minute {a b : NormalizedTick} (h : barStart a 60 ≤ barStart b 60)
    (hinterval : intervalSec ∈ intervals) :
    barStart a intervalSec ≤ barStart b intervalSec := by
  have hminutes : bucketTs a / 60000000000 ≤ bucketTs b / 60000000000 :=
    Nat.le_of_mul_le_mul_right h (by decide)
  have hmultiple : ∃ k, intervalSec = 60 * k := by
    simp only [intervals, List.mem_cons, List.not_mem_nil, or_false] at hinterval
    obtain rfl | rfl | rfl | rfl := hinterval
    · exact ⟨1, rfl⟩
    · exact ⟨5, rfl⟩
    · exact ⟨15, rfl⟩
    · exact ⟨60, rfl⟩
  obtain ⟨k, rfl⟩ := hmultiple
  have hbucket : ∀ t : NormalizedTick, barStart t (60 * k) =
      bucketTs t / 60000000000 / k * (60 * k * 1000000000) := by
    intro t
    rw [barStart_eq, Nat.div_div_eq_div_mul]
    congr 2
    omega
  rw [hbucket, hbucket]
  exact Nat.mul_le_mul_right _ (Nat.div_le_div_right hminutes)

/-- No bar is reported twice exactly when the minutes of no instrument's ticks decrease. -/
theorem reportedOnce_candlesOf_iff (hticks : ∀ t ∈ ticks, 0 < t.ltp) (nowNs : Nat) :
    ReportedOnce (candlesOf ticks nowNs) ↔
      ∀ token, (ticksOf token ticks).Pairwise fun a b => barStart a 60 ≤ barStart b 60 := by
  rw [reportedOnce_iff]
  constructor
  · intro h token
    have hminutes := h token 60
    rw [opens_candlesOf hticks (by decide), pairwise_destutter_iff] at hminutes
    exact List.pairwise_map.mp hminutes
  · intro h token intervalSec
    by_cases hinterval : intervalSec ∈ intervals
    · rw [opens_candlesOf hticks hinterval, pairwise_destutter_iff, List.pairwise_map]
      exact (h token).imp fun hle => barStart_mono_of_minute hle hinterval
    · have hnone : (candlesOf ticks nowNs).filter (ofKey token intervalSec) = [] := by
        refine List.filter_eq_nil_iff.mpr fun c hc hkey => hinterval ?_
        simp only [ofKey, Bool.and_eq_true, beq_iff_eq] at hkey
        exact hkey.2 ▸ interval_of_mem_candlesOf hticks hc
      rw [hnone]
      exact List.Pairwise.nil

theorem reportedOnce_twoInstruments : ReportedOnce (candlesOf twoInstruments 70000000000) := by
  have hsorted : twoInstruments.Pairwise fun a b => barStart a 60 ≤ barStart b 60 := by decide
  exact (reportedOnce_candlesOf_iff (by decide +kernel) _).mpr fun _ => hsorted.filter _

def lateTick : List NormalizedTick :=
  [{ instrumentToken := 1, ltp := 100, exchangeTsNs := 60000000000 },
    { instrumentToken := 1, ltp := 101, exchangeTsNs := 59000000000 },
    { instrumentToken := 1, ltp := 102, exchangeTsNs := 61000000000 }]

theorem lateTick_reported_twice :
    (((candlesOf lateTick 62000000000).filter (ofKey 1 60)).map Candle.openTsNs =
      [60000000000, 0, 60000000000]) ∧ ¬ReportedOnce (candlesOf lateTick 62000000000) := by
  have hopens : ((candlesOf lateTick 62000000000).filter (ofKey 1 60)).map Candle.openTsNs =
      [60000000000, 0, 60000000000] := by
    decide +kernel
  refine ⟨hopens, fun h => ?_⟩
  have hincreasing := h.increasing 1 60
  rw [hopens] at hincreasing
  exact absurd hincreasing (by decide)

end Uniqueness

end CandleBuilder

end QuantForge
