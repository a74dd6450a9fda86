import Mathlib.Data.List.GetD
import QuantForge.Strategy.MomentumStrategy

/-! The loops of `PriceSeries::ema` and `PriceSeries::atr`, with reads that are checked: a read at
an index that is not smaller than the size of its deque is `none`. Sizes and periods are values of
`size_t`. -/
namespace QuantForge

namespace PriceSeries

variable (series : PriceSeries)

def readEma (period : Nat) : Option ℚ :=
  let n := series.data.length
  if n < period then some 0
  else do
    let k : ℚ := 2 / (period + 1)
    let first ← series.data[n - period]?
    let start := n - period + 1
    (List.range' start (n - start)).foldlM (fun val i => do
      let price ← series.data[i]?
      return price * k + val * (1 - k)) first

def readTrueRange (highs lows : List ℚ) (i : Nat) : Option ℚ := do
  let high ← highs[i]?
  let low ← lows[i]?
  if i > 0 then
    let previous ← series.data[i - 1]?
    return max (max (high - low) |high - previous|) |low - previous|
  else return high - low

/-- `period + 1` and `n - period` wrap around. What is read can still be NaN. -/
def readAtr (period : Nat) (highs lows : List ℚ) : Option (Option ℚ) :=
  let n := series.data.length
  if n < (period + 1) % 2 ^ 64 ∨ highs.length < period ∨ lows.length < period then some (some 0)
  else do
    let start := (n + 2 ^ 64 - period) % 2 ^ 64
    let sum ← (List.range' start (n - start)).foldlM (fun sum i => do
      return sum + (← series.readTrueRange highs lows i)) 0
    return if period = 0 then none else some (sum / period)

def RangesCovered (period : Nat) (highs lows : List ℚ) : Prop :=
  period = 0 ∨ series.data.length ≤ period ∨ highs.length < period ∨ lows.length < period ∨
    series.data.length ≤ highs.length ∧ series.data.length ≤ lows.length

/-- No read of the two loops is past the end. -/
structure ReadsInRange (emaPeriod atrPeriod : Nat) (highs lows : List ℚ) : Prop where
  ema : (series.readEma emaPeriod).isSome
  atr : (series.readAtr atrPeriod highs lows).isSome

private theorem foldlM_of_forall {α β : Type*} {f : β → α → Option β} {g : β → α → β}
    {items : List α} (h : ∀ a ∈ items, ∀ b, f b a = some (g b a)) (b : β) :
    items.foldlM f b = some (items.foldl g b) := by
  induction items generalizing b with
  | nil => rfl
  | cons a items ih =>
      rw [List.foldlM_cons, h a List.mem_cons_self]
      exact ih (fun a' ha' => h a' (List.mem_cons_of_mem _ ha')) (g b a)

private theorem foldlM_of_exists {α β : Type*} {f : β → α → Option β} {items : List α}
    (h : ∃ a ∈ items, ∀ b, f b a = none) (b : β) : items.foldlM f b = none := by
  induction items generalizing b with
  | nil => exact absurd h (by simp)
  | cons a items ih =>
      rw [List.foldlM_cons]
      cases hfirst : f b a with
      | none => rfl
      | some next =>
          obtain ⟨bad, hmem, hbad⟩ := h
          obtain rfl | hrest := List.mem_cons.mp hmem
          · rw [hbad b] at hfirst
            cases hfirst
          · exact ih ⟨bad, hrest, hbad⟩ next

private theorem drop_eq_map (prices : List ℚ) (start : Nat) :
    prices.drop start =
      (List.range' start (prices.length - start)).map fun i => prices.getD i 0 := by
  refine List.ext_getElem (by simp) fun k hk _ => ?_
  rw [List.length_drop] at hk
  simp [List.getElem?_eq_getElem (show start + k < prices.length by omega)]

variable {series}

theorem readEma_zero : series.readEma 0 = none := by
  unfold readEma
  simp

theorem readEma_of_ne_zero {period : Nat} (hperiod : period ≠ 0) :
    series.readEma period = some (series.ema period) := by
  unfold readEma ema
  dsimp only
  split
  · rfl
  · have hstart : series.data.length - period < series.data.length := by omega
    rw [List.getElem?_eq_getElem hstart, List.drop_eq_getElem_cons hstart, drop_eq_map]
    dsimp only [Option.bind_eq_bind, Option.bind_some]
    rw [List.foldl_map]
    refine foldlM_of_forall (fun i hi val => ?_) _
    have hlt : i < series.data.length := by
      have := List.mem_range'_1.mp hi
      omega
    rw [List.getElem?_eq_getElem hlt, List.getD_eq_getElem _ _ hlt]
    rfl

theorem isSome_readEma_iff (period : Nat) : (series.readEma period).isSome ↔ period ≠ 0 := by
  by_cases hperiod : period = 0
  · subst hperiod
    simp [readEma_zero]
  · simp [readEma_of_ne_zero hperiod, hperiod]

theorem readTrueRange_of_lt {highs lows : List ℚ} {i : Nat} (hdata : i < series.data.length)
    (hhighs : i < highs.length) (hlows : i < lows.length) :
    series.readTrueRange highs lows i = some (series.trueRange highs lows i) := by
  have hprevious : i - 1 < series.data.length := by omega
  unfold readTrueRange trueRange
  rw [List.getElem?_eq_getElem hhighs, List.getElem?_eq_getElem hlows,
    List.getElem?_eq_getElem hprevious, List.getD_eq_getElem _ _ hhighs,
    List.getD_eq_getElem _ _ hlows, List.getD_eq_getElem _ _ hprevious]
  dsimp only [Option.bind_eq_bind, Option.bind_some]
  split <;> rfl

theorem readTrueRange_of_short {highs lows : List ℚ} {i : Nat}
    (h : highs.length ≤ i ∨ lows.length ≤ i) : series.readTrueRange highs lows i = none := by
  unfold readTrueRange
  obtain hhighs | hlows := h
  · rw [List.getElem?_eq_none hhighs]
    rfl
  · rw [List.getElem?_eq_none hlows]
    cases highs[i]? <;> rfl

/-- A deque has fewer than `2 ^ 63` elements, so that what wraps around is not read. -/
private theorem readAtr_eq (hsize : series.data.length < 2 ^ 63) {period : Nat}
    (hperiod : period < 2 ^ 64) (highs lows : List ℚ) :
    series.readAtr period highs lows =
      if series.data.length < period + 1 ∨ highs.length < period ∨ lows.length < period then
        some (some 0)
      else
        ((List.range' (series.data.length - period) period).foldlM (fun sum i => do
          return sum + (← series.readTrueRange highs lows i)) 0).map fun sum =>
            if period = 0 then none else some (sum / (period : ℚ)) := by
  unfold readAtr
  dsimp only
  by_cases hshort : highs.length < period ∨ lows.length < period
  · rw [if_pos (Or.inr hshort), if_pos (Or.inr hshort)]
  · by_cases hready : series.data.length < period + 1
    · rw [if_pos (Or.inl hready)]
      split
      · rfl
      · have hempty : series.data.length - (series.data.length + 2 ^ 64 - period) % 2 ^ 64 = 0 := by
          omega
        have hnonzero : period ≠ 0 := by omega
        simp only [hempty, if_neg hnonzero]
        exact congrArg (some ∘ some) (zero_div _)
    · have hguard : ¬series.data.length < (period + 1) % 2 ^ 64 := by omega
      have hstart : (series.data.length + 2 ^ 64 - period) % 2 ^ 64 =
          series.data.length - period := by omega
      have hcount : series.data.length - (series.data.length - period) = period := by omega
      rw [if_neg (by tauto), if_neg (by tauto), hstart, hcount]
      exact Option.map_eq_bind.symm

theorem readAtr_of_covered (hsize : series.data.length < 2 ^ 63) {period : Nat}
    (hperiod : period < 2 ^ 64) {highs lows : List ℚ} (h : series.RangesCovered period highs lows) :
    series.readAtr period highs lows = some (series.atr period highs lows) := by
  rw [readAtr_eq hsize hperiod]
  unfold atr
  split
  · rfl
  · rename_i hguard
    rw [foldlM_of_forall (g := fun sum i => sum + series.trueRange highs lows i), List.sum_eq_foldl,
      List.foldl_map]
    · rfl
    · intro i hi sum
      have hrange := List.mem_range'_1.mp hi
      unfold RangesCovered at h
      rw [readTrueRange_of_lt (by omega) (by omega) (by omega)]
      rfl

theorem readAtr_of_not_covered (hsize : series.data.length < 2 ^ 63) {period : Nat}
    (hperiod : period < 2 ^ 64) {highs lows : List ℚ}
    (h : ¬series.RangesCovered period highs lows) :
    series.readAtr period highs lows = none := by
  unfold RangesCovered at h
  rw [readAtr_eq hsize hperiod, if_neg (by omega), foldlM_of_exists]
  · rfl
  · refine ⟨series.data.length - 1, List.mem_range'_1.mpr (by omega), fun sum => ?_⟩
    rw [readTrueRange_of_short (by omega)]
    rfl

theorem asSize_lt (n : Int) : asSize n < 2 ^ 64 := by
  unfold asSize
  omega

/-- For every series, every two deques and every value of the two periods, the reads of `ema` and
of `atr` are all in range exactly when the period of the average is not zero, and `atr` returns
early or both of its deques are at least as long as the closes. -/
theorem reads_in_range_iff (hsize : series.data.length < 2 ^ 63) (highs lows : List ℚ)
    (emaPeriod atrPeriod : Int) :
    series.ReadsInRange (asSize emaPeriod) (asSize atrPeriod) highs lows ↔
      asSize emaPeriod ≠ 0 ∧ series.RangesCovered (asSize atrPeriod) highs lows := by
  have hperiod := asSize_lt atrPeriod
  have hatr : (series.readAtr (asSize atrPeriod) highs lows).isSome ↔
      series.RangesCovered (asSize atrPeriod) highs lows := by
    by_cases hcovered : series.RangesCovered (asSize atrPeriod) highs lows
    · simp [readAtr_of_covered hsize hperiod hcovered, hcovered]
    · simp [readAtr_of_not_covered hsize hperiod hcovered, hcovered]
  constructor
  · rintro ⟨hema, hread⟩
    exact ⟨(isSome_readEma_iff _).mp hema, hatr.mp hread⟩
  · rintro ⟨hema, hcovered⟩
    exact ⟨(isSome_readEma_iff _).mpr hema, hatr.mpr hcovered⟩

theorem reads_in_range_one_length :
    let closes : PriceSeries := { data := List.replicate 26 100 }
    closes.ReadsInRange (asSize 21) (asSize 14) (List.replicate 26 101) (List.replicate 26 99) :=
  (reads_in_range_iff (by decide) _ _ 21 14).mpr ⟨by decide, by unfold RangesCovered; decide⟩

/-- A period of zero, as `update_params` stores it, reads the element after the last close; and
fourteen ranges are enough for `atr` to go on, but not for indices taken from twenty closes. -/
theorem indicators_read_past_end :
    let closes : PriceSeries := { data := List.replicate 20 100 }
    let highs : List ℚ := List.replicate 14 101
    let lows : List ℚ := List.replicate 14 99
    let loaded :=
      ({ id := [] } : MomentumStrategy).updateParams (AList.singleton "ema_fast".toList 0)
    closes.readEma (asSize loaded.emaFast) = none ∧
      closes.readAtr (asSize loaded.atrPeriod) highs lows = none ∧
        ¬closes.ReadsInRange (asSize loaded.emaFast) (asSize loaded.atrPeriod) highs lows := by
  intro closes highs lows loaded
  have hema : closes.readEma (asSize loaded.emaFast) = none := by decide +kernel
  have hatr : closes.readAtr (asSize loaded.atrPeriod) highs lows = none := by decide +kernel
  refine ⟨hema, hatr, fun h => ?_⟩
  have hsome := h.atr
  rw [hatr] at hsome
  cases hsome

end PriceSeries

end QuantForge
