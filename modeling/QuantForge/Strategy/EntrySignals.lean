import Mathlib.Data.Rat.Floor
import QuantForge.Library.ExpAverage
import QuantForge.Library.Run
import QuantForge.Strategy.MomentumStrategy

/-! The entries of the momentum strategy: on which side they are, how far their stops are and how
large they are, and how soon one follows another. -/
namespace QuantForge

open Library

def PriceSeries.last (series : PriceSeries) (n : Nat) : List ℚ :=
  series.data.drop (series.data.length - n)

def emaWeight (period : Nat) : ℚ := 2 / (period + 1)

theorem emaWeight_pos (period : Nat) : 0 < emaWeight period := by
  unfold emaWeight
  positivity

theorem emaWeight_le_one {period : Nat} (h : 1 ≤ period) : emaWeight period ≤ 1 := by
  have hcast : (1 : ℚ) ≤ period := by exact_mod_cast h
  rw [emaWeight, div_le_one (by positivity)]
  linarith

theorem emaWeight_lt {fast slow : Nat} (h : fast < slow) : emaWeight slow < emaWeight fast := by
  have hcast : (fast : ℚ) < slow := by exact_mod_cast h
  exact div_lt_div_of_pos_left (by norm_num) (by positivity) (by linarith)

namespace PriceSeries

variable (series : PriceSeries)

theorem ema_eq_average {period : Nat} {first : ℚ} {rest : List ℚ}
    (hlast : series.last period = first :: rest) (hready : period ≤ series.data.length) :
    series.ema period = ExpAverage.average (emaWeight period) first rest := by
  rw [last] at hlast
  rw [ema, if_neg (not_lt.mpr hready)]
  simp only [hlast]
  rfl

theorem last_eq_append {fast slow : Nat} (hfast : 1 ≤ fast) (hlt : fast < slow)
    (hready : slow ≤ series.data.length) :
    ∃ oldest older first rest, series.last fast = first :: rest ∧
      series.last slow = oldest :: (older ++ first :: rest) := by
  have hlength : (series.last slow).length = slow := by
    simp only [last, List.length_drop]
    omega
  have hdrop : series.last fast = (series.last slow).drop (slow - fast) := by
    simp only [last, List.drop_drop]
    congr 1
    omega
  cases hslow : series.last slow with
  | nil => simp [hslow] at hlength; omega
  | cons oldest tail =>
      cases hfirst : series.last fast with
      | nil =>
          rw [hdrop, List.drop_eq_nil_iff] at hfirst
          omega
      | cons first rest =>
          refine ⟨oldest, tail.take (slow - fast - 1), first, rest, rfl, ?_⟩
          have hsucc : slow - fast = (slow - fast - 1) + 1 := by omega
          rw [hdrop, hslow, hsucc, List.drop_succ_cons] at hfirst
          rw [← hfirst, List.take_append_drop]

theorem isSome_atr {period : Nat} (hperiod : period ≠ 0) (highs lows : List ℚ) :
    (series.atr period highs lows).isSome = true := by
  unfold atr
  rw [if_neg hperiod]
  split <;> rfl

theorem atr_zero (highs lows : List ℚ) :
    series.atr 0 highs lows = some 0 ∨ series.atr 0 highs lows = none := by
  unfold atr
  rw [if_pos rfl]
  split
  · exact .inl rfl
  · exact .inr rfl

end PriceSeries

theorem asSize_of_nonneg {n : Int} (h0 : 0 ≤ n) (hn : n < 2 ^ 31) : asSize n = n.toNat := by
  unfold asSize
  omega

namespace MomentumStrategy

variable {s : MomentumStrategy} {token : Nat} {ctx : SignalContext}

def trendWindow (s : MomentumStrategy) (token : Nat) : List ℚ :=
  (s.stateOf token).closes.last (asSize s.emaSlow)

/-- The periods are in order, as the parameters of the strategy have them by default. -/
structure PeriodsOrdered (s : MomentumStrategy) : Prop where
  fast : 1 ≤ s.emaFast
  slow : s.emaFast < s.emaSlow
  int : s.emaSlow < 2 ^ 31 - 5

theorem ready_of_signals (hperiods : s.PeriodsOrdered) (h : s.Signals token ctx) :
    asSize s.emaSlow ≤ (s.stateOf token).closes.data.length := by
  obtain ⟨hfast, hslow, hint⟩ := hperiods
  have hready := h.1
  rw [PriceSeries.ready, decide_eq_true_eq, asSize_of_nonneg (by omega) (by omega)] at hready
  rw [asSize_of_nonneg (by omega) (by omega)]
  omega

theorem averages_of_signals (hperiods : s.PeriodsOrdered) (h : s.Signals token ctx) :
    ∃ oldest older first rest, s.trendWindow token = oldest :: (older ++ first :: rest) ∧
      s.fastEma token =
        ExpAverage.average (emaWeight (asSize s.emaFast)) first rest ∧
      s.slowEma token =
        ExpAverage.average (emaWeight (asSize s.emaSlow)) oldest (older ++ first :: rest) := by
  have hready := ready_of_signals hperiods h
  obtain ⟨hfast, hslow, hint⟩ := hperiods
  have hfastSize : asSize s.emaFast = s.emaFast.toNat := asSize_of_nonneg (by omega) (by omega)
  have hslowSize : asSize s.emaSlow = s.emaSlow.toNat := asSize_of_nonneg (by omega) (by omega)
  have hfirst : 1 ≤ asSize s.emaFast := by omega
  have hless : asSize s.emaFast < asSize s.emaSlow := by omega
  obtain ⟨oldest, older, first, rest, hshort, hlong⟩ :=
    (s.stateOf token).closes.last_eq_append hfirst hless hready
  exact ⟨oldest, older, first, rest, hlong,
    PriceSeries.ema_eq_average _ hshort (by omega), PriceSeries.ema_eq_average _ hlong hready⟩

theorem weights_of_periods (hperiods : s.PeriodsOrdered) :
    emaWeight (asSize s.emaSlow) < emaWeight (asSize s.emaFast) ∧
      emaWeight (asSize s.emaFast) ≤ 1 := by
  obtain ⟨hfast, hslow, hint⟩ := hperiods
  have hfastSize : asSize s.emaFast = s.emaFast.toNat := asSize_of_nonneg (by omega) (by omega)
  have hslowSize : asSize s.emaSlow = s.emaSlow.toNat := asSize_of_nonneg (by omega) (by omega)
  exact ⟨emaWeight_lt (by omega), emaWeight_le_one (by omega)⟩

theorem side_of_entry {order : Side × Int × Option ℚ} (h : s.entry token ctx = some order) :
    order.1 = if s.fastEma token > s.slowEma token then .buy else .sell := by
  rw [entry] at h
  split at h
  · cases h
  · split at h
    · cases h
    · split at h
      · cases h
      · rw [← Option.some.inj h]

/-- In a rising market every entry buys, in a falling one it sells, and in one that stands still
there is no entry. -/
theorem entry_follows_trend (hperiods : s.PeriodsOrdered) (hsignal : s.Signals token ctx)
    {order : Side × Int × Option ℚ} (hentry : s.entry token ctx = some order) :
    ((s.trendWindow token).Pairwise (· < ·) → order.1 = .buy) ∧
      ((s.trendWindow token).Pairwise (· > ·) → order.1 = .sell) ∧
      (0 < s.minSignalStrength → ¬∃ c, ∀ x ∈ s.trendWindow token, x = c) := by
  obtain ⟨oldest, older, first, rest, hwindow, hfast, hslow⟩ :=
    averages_of_signals hperiods hsignal
  obtain ⟨hlt, hone⟩ := weights_of_periods hperiods
  rw [side_of_entry hentry, hwindow, hfast, hslow]
  refine ⟨fun hrising => ?_, fun hfalling => ?_, fun hstrength hflat => ?_⟩
  · exact if_pos (ExpAverage.average_lt_of_rising (emaWeight_pos _) hlt hone hrising)
  · refine if_neg (not_lt.mpr (le_of_lt ?_))
    exact ExpAverage.lt_average_of_falling (emaWeight_pos _) hlt hone hfalling
  · obtain ⟨c, hflat⟩ := hflat
    obtain ⟨rfl, hrest⟩ := List.forall_mem_cons.mp hflat
    obtain ⟨-, hlast⟩ := List.forall_mem_append.mp hrest
    obtain ⟨rfl, hafter⟩ := List.forall_mem_cons.mp hlast
    have hstrong := hsignal.2.2.2.2
    rw [hfast, hslow, ExpAverage.average_const _ _ hrest, ExpAverage.average_const _ _ hafter,
      sub_self, zero_div, abs_zero] at hstrong
    exact absurd hstrong (not_le.mpr hstrength)

def risingCloses : PriceSeries where
  data := (List.range 26).map fun minute => 100 + (minute : ℚ)

def risingState : InstrumentState where
  closes := risingCloses
  highs := risingCloses.data.map fun close => close + 1
  lows := risingCloses.data.map fun close => close - 1
  lastLtp := 125

def risingMarket : MomentumStrategy where
  id := ['M']
  states := AList.singleton 1 risingState

def afterFiveMinutes : SignalContext := ⟨300000000000, 300000000001, 100000, 0⟩

theorem entry_follows_trend_risingMarket :
    ∃ order, risingMarket.entry 1 afterFiveMinutes = some order ∧ order.1 = .buy := by
  have hsome : (risingMarket.entry 1 afterFiveMinutes).isSome = true := by decide +kernel
  obtain ⟨order, hentry⟩ := Option.isSome_iff_exists.mp hsome
  have hperiods : risingMarket.PeriodsOrdered := ⟨by decide, by decide, by decide⟩
  exact ⟨order, hentry,
    (entry_follows_trend hperiods (by decide +kernel) hentry).1 (by decide +kernel)⟩

/-- The stop and the target of an entry are on the right sides of its price, and its quantity is
the largest whose loss at the stop is within the risk, but at least one. It is one as well where
the largest does not fit an `int`. -/
structure Sized (budget : ℚ) (side : Side) (qty : Int) (price stop target : ℚ) : Prop where
  long : side = .buy → stop < price ∧ price < target
  short : side = .sell → target < price ∧ price < stop
  risk : qty = 1 ∨ qty * |price - stop| ≤ budget
  largest : budget < 2 ^ 31 * |price - stop| → budget < (qty + 1) * |price - stop|
  unfit : 2 ^ 31 * |price - stop| ≤ budget → qty = 1

theorem whole_eq_floor {q : ℚ} (h : 0 ≤ q) : q.num.tdiv q.den = ⌊q⌋ := by
  rw [Int.tdiv_eq_ediv_of_nonneg (Rat.num_nonneg.mpr h), Rat.floor_def']

theorem truncate_eq_floor {q : ℚ} (h : 0 ≤ q) (hfits : q < 2 ^ 31) : truncate q = ⌊q⌋ := by
  have hfloor : ⌊q⌋ < 2 ^ 31 := Int.floor_lt.mpr (by exact_mod_cast hfits)
  have hnonneg : 0 ≤ ⌊q⌋ := Int.floor_nonneg.mpr h
  unfold truncate
  dsimp only
  rw [whole_eq_floor h]
  exact if_pos ⟨by omega, hfloor⟩

theorem truncate_of_le {q : ℚ} (h : 2 ^ 31 ≤ q) : truncate q = -2 ^ 31 := by
  have hfloor : 2 ^ 31 ≤ ⌊q⌋ := Int.le_floor.mpr (by exact_mod_cast h)
  unfold truncate
  dsimp only
  rw [whole_eq_floor (le_trans (by norm_num) h)]
  exact if_neg fun hfits => absurd hfits.2 (not_lt.mpr hfloor)

theorem truncate_nonpos {q : ℚ} (h : q ≤ 0) : truncate q ≤ 0 := by
  have hwhole : q.num.tdiv q.den ≤ 0 := by
    have hneg : 0 ≤ (-q.num).tdiv q.den :=
      Int.tdiv_nonneg (neg_nonneg.mpr (Rat.num_nonpos.mpr h)) (Int.natCast_nonneg q.den)
    rw [Int.neg_tdiv] at hneg
    exact neg_nonneg.mp hneg
  unfold truncate
  dsimp only
  split
  · exact hwhole
  · norm_num

theorem max_one_truncate (q : ℚ) :
    (max 1 (truncate q) = 1 ∨ ((max 1 (truncate q) : Int) : ℚ) ≤ q) ∧
      (q < 2 ^ 31 → q < ((max 1 (truncate q) : Int) : ℚ) + 1) ∧
        (2 ^ 31 ≤ q → max 1 (truncate q) = 1) := by
  obtain hneg | hpos := lt_or_ge q 0
  · have hone : max 1 (truncate q) = 1 := max_eq_left ((truncate_nonpos hneg.le).trans one_pos.le)
    refine ⟨.inl hone, fun _ => ?_, fun _ => hone⟩
    rw [hone]
    norm_num
    linarith
  · obtain hfits | hlarge := lt_or_ge q (2 ^ 31)
    · rw [truncate_eq_floor hpos hfits]
      refine ⟨?_, fun _ => ?_, fun hle => absurd hle (not_le.mpr hfits)⟩
      · obtain hle | hlt := le_or_gt ⌊q⌋ 1
        · exact .inl (max_eq_left hle)
        · rw [max_eq_right hlt.le]
          exact .inr (Int.floor_le q)
      · refine (Int.lt_floor_add_one q).trans_le ?_
        have hmax : (⌊q⌋ : ℚ) ≤ ((max 1 ⌊q⌋ : Int) : ℚ) := by exact_mod_cast le_max_right 1 ⌊q⌋
        linarith
    · have hone : max 1 (truncate q) = 1 := by
        rw [truncate_of_le hlarge]
        rfl
      exact ⟨.inl hone, fun hlt => absurd hlt (not_lt.mpr hlarge), fun _ => hone⟩

theorem computeQty_of_pos {atrValue : Option ℚ} (h : 0 < s.computeQty token atrValue ctx) :
    s.computeQty token atrValue ctx =
      max 1 ((atrValue.map fun atr =>
        truncate (ctx.capital * s.riskPct / (s.atrSlMultiplier * atr))).getD (-2 ^ 31)) := by
  unfold computeQty at h ⊢
  dsimp only at h ⊢
  generalize (if ctx.currentPrice > 0 then ctx.currentPrice else (s.stateOf token).lastLtp) =
    price at h ⊢
  split_ifs at h ⊢
  · exact absurd h (lt_irrefl 0)
  · exact absurd h (lt_irrefl 0)
  · rw [Option.map_map]
    rfl

theorem quantity_of_entry {order : Side × Int × Option ℚ} (h : s.entry token ctx = some order) :
    order.2.2 = (s.stateOf token).closes.atr (asSize s.atrPeriod) (s.stateOf token).highs
        (s.stateOf token).lows ∧
      ¬order.2.2.any (· ≤ 0) ∧ order.2.1 = max 1 ((order.2.2.map fun atr =>
        truncate (ctx.capital * s.riskPct / (s.atrSlMultiplier * atr))).getD (-2 ^ 31)) := by
  rw [entry] at h
  split at h
  · cases h
  · split at h
    · cases h
    · rename_i hatr
      split at h
      · cases h
      · rename_i hqty
        rw [← Option.some.inj h]
        exact ⟨rfl, hatr, computeQty_of_pos (not_le.mp hqty)⟩

theorem sized_arm (hstop : 0 < s.atrSlMultiplier) (htarget : 0 < s.atrTpMultiplier) {atr : ℚ}
    (hatr : 0 < atr) (side : Side) (entryNow : Nat) (budget : ℚ) :
    ∃ stop target, ((s.arm token side (some atr) entryNow).stateOf token).stopPrice = some stop ∧
      ((s.arm token side (some atr) entryNow).stateOf token).targetPrice = some target ∧
        Sized budget side (max 1 (truncate (budget / (s.atrSlMultiplier * atr))))
          ((s.arm token side (some atr) entryNow).stateOf token).entryPrice stop target := by
  have hloss : 0 < s.atrSlMultiplier * atr := mul_pos hstop hatr
  have hgain : 0 < s.atrTpMultiplier * atr := mul_pos htarget hatr
  obtain ⟨hrisk, hlargest, hunfit⟩ := max_one_truncate (budget / (s.atrSlMultiplier * atr))
  rw [le_div_iff₀ hloss] at hrisk
  rw [div_lt_iff₀ hloss, div_lt_iff₀ hloss] at hlargest
  rw [le_div_iff₀ hloss] at hunfit
  rw [arm, stateOf_modify, if_pos rfl]
  refine ⟨_, _, rfl, rfl, ?_⟩
  dsimp only
  generalize (s.stateOf token).lastLtp = price
  generalize max 1 (truncate (budget / (s.atrSlMultiplier * atr))) = qty at *
  have hdistance : |price - (price - (if side = .buy then 1 else -1) *
      (s.atrSlMultiplier * atr))| = s.atrSlMultiplier * atr := by
    cases side <;> simp [abs_of_pos hloss]
  refine ⟨?_, ?_, ?_, ?_, ?_⟩
  · rintro rfl
    simp [hloss, hgain]
  · rintro rfl
    simp [hloss, hgain]
  · rwa [hdistance]
  · rwa [hdistance]
  · rwa [hdistance]

/-- An entry is sized by the average range. A period of zero gives none: one unit is bought or
sold, with a stop and a target that no price triggers. -/
theorem sized_entry (hstop : 0 < s.atrSlMultiplier) (htarget : 0 < s.atrTpMultiplier)
    {order : Side × Int × Option ℚ} (hentry : s.entry token ctx = some order) :
    let st := (s.arm token order.1 order.2.2 ctx.entryNow).stateOf token
    (asSize s.atrPeriod ≠ 0 → ∃ stop target, st.stopPrice = some stop ∧
        st.targetPrice = some target ∧
          Sized (ctx.capital * s.riskPct) order.1 order.2.1 st.entryPrice stop target) ∧
      (asSize s.atrPeriod = 0 → order.2.1 = 1 ∧ ∀ price, st.exitTag price = none) := by
  obtain ⟨hatr, hpositive, hqty⟩ := quantity_of_entry hentry
  obtain ⟨side, qty, atrVal⟩ := order
  simp only at hatr hpositive hqty ⊢
  refine ⟨fun hperiod => ?_, fun hperiod => ?_⟩
  · obtain ⟨atr, hsome⟩ := Option.isSome_iff_exists.mp
      ((s.stateOf token).closes.isSome_atr hperiod (s.stateOf token).highs (s.stateOf token).lows)
    rw [hatr, hsome] at hpositive hqty ⊢
    rw [hqty]
    exact sized_arm hstop htarget (not_le.mp (by simpa using hpositive)) side _ _
  · have hnone : atrVal = none := by
      rw [hperiod] at hatr
      obtain hzero | hnone := (s.stateOf token).closes.atr_zero (s.stateOf token).highs
        (s.stateOf token).lows
      · rw [hatr, hzero] at hpositive
        exact absurd (by simp) hpositive
      · exact hatr.trans hnone
    subst hnone
    rw [arm, stateOf_modify, if_pos rfl]
    refine ⟨hqty, fun price => ?_⟩
    unfold InstrumentState.exitTag
    split <;> rfl

def rangeless : MomentumStrategy := { risingMarket with atrPeriod := 0 }

theorem sized_entry_risingMarket :
    (∃ order, risingMarket.entry 1 afterFiveMinutes = some order ∧
        ∃ stop target, Sized 1000 order.1 order.2.1 125 stop target) ∧
      ∃ order, rangeless.entry 1 afterFiveMinutes = some order ∧ order.2.1 = 1 := by
  constructor
  · have hsome : (risingMarket.entry 1 afterFiveMinutes).isSome = true := by decide +kernel
    obtain ⟨order, hentry⟩ := Option.isSome_iff_exists.mp hsome
    obtain ⟨stop, target, -, -, hsized⟩ :=
      (sized_entry (by decide +kernel) (by decide +kernel) hentry).1 (by decide)
    rw [show afterFiveMinutes.capital * risingMarket.riskPct = 1000 by decide +kernel] at hsized
    have hprice : ((risingMarket.arm 1 order.1 order.2.2 afterFiveMinutes.entryNow).stateOf
        1).entryPrice = 125 := by
      rw [arm, stateOf_modify, if_pos rfl]
      rfl
    rw [hprice] at hsized
    exact ⟨order, hentry, stop, target, hsized⟩
  · have hsome : (rangeless.entry 1 afterFiveMinutes).isSome = true := by decide +kernel
    obtain ⟨order, hentry⟩ := Option.isSome_iff_exists.mp hsome
    exact ⟨order, hentry,
      ((sized_entry (by decide +kernel) (by decide +kernel) hentry).2 (by decide)).1⟩

end MomentumStrategy

namespace MomentumSession

def cooldownNs : Nat := 300 * 1000000000

def withSeries (s : MomentumSession) (token : Nat) (closes : PriceSeries) (highs lows : List ℚ) :
    MomentumSession :=
  s.modify token fun st => { st with closes := closes, highs := highs, lows := lows }

def entryTime (token : Nat) (s : MomentumSession) : MomentumEvent → Option Nat
  | .candle t closes highs lows ctx _ =>
      let s' := s.withSeries t closes highs lows
      if t = token ∧ s'.strategy.Signals t ctx ∧ (s'.strategy.entry t ctx).isSome then
        some ctx.entryNow
      else none
  | _ => none

/-- The clock of the strategy does not run back. -/
def ClockForward (token : Nat) (s : MomentumSession) : MomentumEvent → Prop
  | .candle t _ _ _ ctx _ => t = token →
      (s.strategy.stateOf token).lastSignalTs ≤ ctx.now ∧ ctx.now ≤ ctx.entryNow ∧
        ctx.entryNow < 2 ^ 64
  | _ => True

def lastSignal (s : MomentumSession) (token : Nat) : Nat := (s.strategy.stateOf token).lastSignalTs

section LastSignal

variable {s : MomentumSession}

theorem lastSignal_modify (s : MomentumSession) (t : Nat) {f : InstrumentState → InstrumentState}
    (h : ∀ st, (f st).lastSignalTs = st.lastSignalTs) :
    (s.modify t f).lastSignal = s.lastSignal := by
  funext token
  exact s.strategy.part_modify t h token

theorem lastSignal_withSeries (s : MomentumSession) (t : Nat) (closes : PriceSeries)
    (highs lows : List ℚ) : (s.withSeries t closes highs lows).lastSignal = s.lastSignal :=
  s.lastSignal_modify t (f := fun st => { st with closes := closes, highs := highs, lows := lows })
    fun _ => rfl

theorem lastSignal_execute (s : MomentumSession) (order : Nat) (x : Execution) :
    (s.execute order x).lastSignal = s.lastSignal := by
  have hfill : ∀ (fill : Fill) (st : InstrumentState),
      (st.onOrderFill fill).lastSignalTs = st.lastSignalTs := by
    intro fill st
    unfold InstrumentState.onOrderFill
    split <;> rfl
  unfold execute
  split
  · rfl
  · split
    · funext token
      exact s.strategy.part_modify _ (hfill _) token
    · rfl

theorem lastSignal_placeMarket (s : MomentumSession) (t : Nat) (side : Side) (qty : Int) (tag : Str)
    (reply : SubmitReply) : (s.placeMarket t side qty tag reply).lastSignal = s.lastSignal := by
  unfold placeMarket
  split
  · have hfold : ∀ (xs : List Execution) (s' : MomentumSession),
        (xs.foldl (fun s' x => s'.execute s.nextOrder x) s').lastSignal = s'.lastSignal := by
      intro xs
      induction xs with
      | nil => exact fun _ => rfl
      | cons x xs ih => exact fun s' => (ih _).trans (s'.lastSignal_execute _ x)
    exact hfold _ _
  · rfl

theorem lastSignal_exit (s : MomentumSession) (t : Nat) (tag : Str) (reply : SubmitReply) :
    (s.exit t tag reply).lastSignal = s.lastSignal :=
  (lastSignal_modify _ t (by simp)).trans (s.lastSignal_placeMarket ..)

theorem lastSignal_onTick (s : MomentumSession) (t : NormalizedTick) (reply : SubmitReply) :
    (s.onTick t reply).lastSignal = s.lastSignal := by
  unfold onTick
  split
  · rfl
  · have hticked := s.lastSignal_modify t.instrumentToken
      (f := fun st => { st with lastLtp := t.ltp }) fun _ => rfl
    unfold managePosition
    split
    · exact hticked
    · split
      · exact hticked
      · exact (lastSignal_exit ..).trans hticked

theorem lastSignal_onStop (s : MomentumSession) (replies : Nat → SubmitReply) :
    (s.onStop replies).lastSignal = s.lastSignal := by
  have hfold : ∀ (tokens : List Nat) (s' : MomentumSession),
      (tokens.foldl (flattenOne replies) s').lastSignal = s'.lastSignal := by
    intro tokens
    induction tokens with
    | nil => exact fun _ => rfl
    | cons token tokens ih =>
        intro s'
        refine (ih _).trans ?_
        unfold flattenOne
        split
        · exact s'.lastSignal_exit ..
        · rfl
  exact hfold _ _

theorem lastSignal_arm (s : MomentumSession) (t : Nat) (side : Side)
    (atrVal : Option ℚ) (entryNow token : Nat) :
    lastSignal { s with strategy := s.strategy.arm t side atrVal entryNow } token =
      if t = token then entryNow else s.lastSignal token := by
  change ((s.strategy.modify t _).stateOf token).lastSignalTs = _
  rw [MomentumStrategy.stateOf_modify]
  by_cases h : token = t
  · rw [if_pos h, if_pos h.symm]
  · rw [if_neg h, if_neg (Ne.symm h)]
    rfl

theorem lastSignal_evaluateSignal (s : MomentumSession) (t : Nat) (ctx : SignalContext)
    (reply : SubmitReply) (token : Nat) : (s.evaluateSignal t ctx reply).lastSignal token =
      if t = token ∧ s.strategy.Signals t ctx ∧ (s.strategy.entry t ctx).isSome then ctx.entryNow
      else s.lastSignal token := by
  unfold evaluateSignal tryEntry
  by_cases hsignal : s.strategy.Signals t ctx
  · rw [if_pos hsignal]
    cases hentry : s.strategy.entry t ctx with
    | none => simp
    | some order =>
        obtain ⟨side, qty, atrVal⟩ := order
        have hplaced := congrFun (lastSignal_placeMarket
          { s with strategy := s.strategy.arm t side atrVal ctx.entryNow } t side qty
          (MomentumStrategy.entryTag side) reply) token
        refine hplaced.trans ((s.lastSignal_arm ..).trans ?_)
        simp [hsignal]
  · rw [if_neg hsignal, if_neg fun h => hsignal h.2.1]

theorem lastSignal_step (token : Nat) (s : MomentumSession) (event : MomentumEvent) :
    (s.step event).lastSignal token = (s.entryTime token event).getD (s.lastSignal token) := by
  cases event with
  | start params => rfl
  | tick t reply => exact congrFun (s.lastSignal_onTick t reply) token
  | candle t closes highs lows ctx reply =>
      refine (lastSignal_evaluateSignal (s.withSeries t closes highs lows) t ctx reply token).trans
        ?_
      unfold entryTime
      dsimp only
      split_ifs
      · rfl
      · exact congrFun (s.lastSignal_withSeries t closes highs lows) token
  | fill order execution => exact congrFun (s.lastSignal_execute order execution) token
  | flatten replies => exact congrFun (s.lastSignal_onStop replies) token
  | updateParams params => rfl

theorem entryTime_le {token : Nat} {event : MomentumEvent} {time : Nat}
    (hclock : s.ClockForward token event) (h : s.entryTime token event = some time) :
    s.lastSignal token + cooldownNs ≤ time := by
  cases event with
  | candle t closes highs lows ctx reply =>
      unfold entryTime at h
      dsimp only at h
      split at h
      · rename_i hentry
        obtain ⟨rfl, hsignal, -⟩ := hentry
        obtain ⟨hlast, hnow, hint⟩ := hclock rfl
        obtain rfl := Option.some.inj h
        have hcooled := hsignal.2.2.1
        have hseries : ((s.withSeries t closes highs lows).strategy.stateOf t).lastSignalTs =
            s.lastSignal t := congrFun (s.lastSignal_withSeries t closes highs lows) t
        rw [hseries] at hcooled
        change s.lastSignal t ≤ ctx.now at hlast
        unfold cooldownNs
        omega
      · cases h
  | _ => cases h

end LastSignal

/-- Whatever happens in between, two entries for one instrument are five minutes apart, as long
as the clock does not run back. -/
theorem entries_spaced (token : Nat) {s : MomentumSession} {events : List MomentumEvent}
    (hclock : Run.Along step (ClockForward token) s events) :
    (Run.settings step (entryTime token) s events).Pairwise (· + cooldownNs ≤ ·) :=
  (Run.settings_spaced (fun s => s.lastSignal token) (entryTime token) cooldownNs
    (lastSignal_step token) (fun _ _ _ hclock h => entryTime_le hclock h) hclock).2

def risingRun (times : List Nat) : List MomentumEvent :=
  times.map fun time => .candle 1 MomentumStrategy.risingCloses
    (MomentumStrategy.risingCloses.data.map (· + 1))
    (MomentumStrategy.risingCloses.data.map (· - 1)) ⟨time, time, 100000, 125⟩ ⟨true, []⟩

theorem entries_spaced_risingRun :
    (Run.settings step (entryTime 1) { strategy := { id := ['M'] } }
      (risingRun [300000000000, 500000000000, 600000000000])).Pairwise (· + cooldownNs ≤ ·) := by
  refine entries_spaced 1 ?_
  refine ⟨fun _ => ?_, fun _ => ?_, fun _ => ?_, trivial⟩ <;> decide +kernel

example : Run.settings step (entryTime 1) { strategy := { id := ['M'] } }
    (risingRun [300000000000, 500000000000, 600000000000]) = [300000000000, 600000000000] := by
  decide +kernel

end MomentumSession

end QuantForge
