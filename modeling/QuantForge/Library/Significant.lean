import Mathlib.Algebra.Order.Field.Power
import Mathlib.Algebra.Order.Round
import Mathlib.Data.Int.Log
import Mathlib.Data.Rat.Floor
import Mathlib.Tactic.FieldSimp
import Mathlib.Tactic.Linarith

/-! Decimal rounding to a number of significant digits, the last one to nearest and ties to even:
how far the result is from the value, and which values it leaves alone. -/
namespace QuantForge.Library

def roundHalfEven (q : ℚ) : Int :=
  if q - ⌊q⌋ < 1 / 2 then ⌊q⌋
  else if 1 / 2 < q - ⌊q⌋ then ⌊q⌋ + 1
  else if ⌊q⌋ % 2 = 0 then ⌊q⌋ else ⌊q⌋ + 1

theorem abs_roundHalfEven_sub_le (q : ℚ) : |(roundHalfEven q : ℚ) - q| ≤ 1 / 2 := by
  have hfloor := Int.floor_le q
  have hnext := Int.lt_floor_add_one q
  rw [abs_le, roundHalfEven]
  split
  · constructor <;> linarith
  · split
    · push_cast
      constructor <;> linarith
    · split
      · constructor <;> linarith
      · push_cast
        constructor <;> linarith

theorem roundHalfEven_intCast (n : Int) : roundHalfEven n = n := by
  rw [roundHalfEven, Int.floor_intCast, sub_self, if_pos (by norm_num)]

theorem le_roundHalfEven {n : Int} {q : ℚ} (h : n ≤ q) : n ≤ roundHalfEven q := by
  have hfloor : n ≤ ⌊q⌋ := Int.le_floor.mpr h
  rw [roundHalfEven]
  split_ifs <;> omega

theorem roundHalfEven_le {n : Int} {q : ℚ} (h : q ≤ n) : roundHalfEven q ≤ n := by
  obtain rfl | hlt := h.eq_or_lt
  · exact (roundHalfEven_intCast n).le
  · have hfloor : ⌊q⌋ < n := Int.floor_lt.mpr hlt
    rw [roundHalfEven]
    split_ifs <;> omega

structure Scientific (p : Nat) where
  significand : Nat
  exponent : Int
  low : 10 ^ p ≤ significand
  high : significand < 10 ^ (p + 1)

namespace Scientific

variable {p : Nat} {q : ℚ}

def value (s : Scientific p) : ℚ := s.significand * 10 ^ (s.exponent - p)

def scaled (p : Nat) (q : ℚ) : ℚ := q / 10 ^ (Int.log 10 q - p)

theorem scaled_mul (p : Nat) (q : ℚ) : scaled p q * 10 ^ (Int.log 10 q - p) = q :=
  div_mul_cancel₀ q (zpow_ne_zero _ (by norm_num))

theorem le_scaled (hq : 0 < q) : ((10 ^ p : Int) : ℚ) ≤ scaled p q := by
  have hlog : (10 : ℚ) ^ Int.log 10 q ≤ q := Int.zpow_log_le_self (b := 10) (by decide) hq
  rw [scaled, le_div_iff₀ (zpow_pos (by norm_num) _)]
  push_cast
  rw [← zpow_natCast, ← zpow_add₀ (by norm_num), add_sub_cancel]
  exact hlog

theorem scaled_le (q : ℚ) : scaled p q ≤ ((10 ^ (p + 1) : Int) : ℚ) := by
  have hlog : q < (10 : ℚ) ^ (Int.log 10 q + 1) := Int.lt_zpow_succ_log_self (b := 10) (by decide) q
  rw [scaled, div_le_iff₀ (zpow_pos (by norm_num) _)]
  push_cast
  rw [← zpow_natCast, ← zpow_add₀ (by norm_num)]
  refine hlog.le.trans_eq (congrArg _ ?_)
  push_cast
  ring

theorem le_significand (hq : 0 < q) : 10 ^ p ≤ (roundHalfEven (scaled p q)).toNat := by
  have hle := le_roundHalfEven (le_scaled (p := p) hq)
  have hpower : (0 : Int) ≤ 10 ^ p := by positivity
  rw [← Nat.cast_le (α := Int), Int.toNat_of_nonneg (hpower.trans hle)]
  exact_mod_cast hle

theorem significand_le (p : Nat) (q : ℚ) : (roundHalfEven (scaled p q)).toNat ≤ 10 ^ (p + 1) := by
  have := roundHalfEven_le (scaled_le (p := p) q)
  exact Int.toNat_le.mpr (by exact_mod_cast this)

/-- Rounding up can carry into one more digit. -/
def ofPos (p : Nat) (q : ℚ) (hq : 0 < q) : Scientific p :=
  if h : (roundHalfEven (scaled p q)).toNat < 10 ^ (p + 1) then
    ⟨(roundHalfEven (scaled p q)).toNat, Int.log 10 q, le_significand hq, h⟩
  else ⟨10 ^ p, Int.log 10 q + 1, le_refl _, Nat.pow_lt_pow_right (by decide) p.lt_succ_self⟩

theorem value_ofPos (p : Nat) (hq : 0 < q) :
    (ofPos p q hq).value = roundHalfEven (scaled p q) * 10 ^ (Int.log 10 q - p) := by
  have hnonneg : 0 ≤ roundHalfEven (scaled p q) :=
    (by positivity : (0 : Int) ≤ 10 ^ p).trans (le_roundHalfEven (le_scaled hq))
  have hcast : ((roundHalfEven (scaled p q)).toNat : ℚ) = roundHalfEven (scaled p q) := by
    exact_mod_cast Int.toNat_of_nonneg hnonneg
  rw [ofPos]
  split
  · rw [value, hcast]
  · rename_i hcarry
    have hfull := (significand_le p q).antisymm (not_lt.mp hcarry)
    rw [value, ← hcast, hfull]
    push_cast
    rw [← zpow_natCast, ← zpow_natCast, ← zpow_add₀ (by norm_num), ← zpow_add₀ (by norm_num)]
    congr 1
    push_cast
    ring

/-- The relative error is at most half a unit of the last digit of a significand of one. -/
theorem abs_value_sub_le (p : Nat) (hq : 0 < q) :
    |(ofPos p q hq).value - q| ≤ q / (2 * 10 ^ p) := by
  have hunit : (0 : ℚ) < 10 ^ (Int.log 10 q - p) := zpow_pos (by norm_num) _
  have hlog : (10 : ℚ) ^ Int.log 10 q ≤ q := Int.zpow_log_le_self (b := 10) (by decide) hq
  have hstep := mul_le_mul_of_nonneg_right (abs_roundHalfEven_sub_le (scaled p q)) hunit.le
  calc |(ofPos p q hq).value - q|
      = |(roundHalfEven (scaled p q) : ℚ) - scaled p q| * 10 ^ (Int.log 10 q - p) := by
        rw [value_ofPos, ← abs_of_pos hunit, ← abs_mul, abs_of_pos hunit, sub_mul, scaled_mul]
    _ ≤ 1 / 2 * 10 ^ (Int.log 10 q - p) := hstep
    _ = 10 ^ Int.log 10 q / (2 * 10 ^ p) := by
        rw [zpow_sub₀ (by norm_num), zpow_natCast]
        field_simp
    _ ≤ q / (2 * 10 ^ p) := div_le_div_of_nonneg_right hlog (by positivity)

theorem value_ofPos_eq_iff (p : Nat) (hq : 0 < q) :
    (ofPos p q hq).value = q ↔ ∃ (n : Nat) (k : Int), n < 10 ^ (p + 1) ∧ q = n * 10 ^ k := by
  constructor
  · intro heq
    exact ⟨_, _, (ofPos p q hq).high, heq.symm⟩
  · rintro ⟨n, k, hn, hval⟩
    have hbelow : q < (10 : ℚ) ^ ((p + 1 : Nat) + k) := by
      rw [hval, zpow_add₀ (by norm_num), zpow_natCast]
      exact mul_lt_mul_of_pos_right (by exact_mod_cast hn) (zpow_pos (by norm_num) _)
    have hlog : Int.log 10 q < (p + 1 : Nat) + k :=
      (Int.lt_zpow_iff_log_lt (b := 10) (by decide) hq).mp hbelow
    obtain ⟨j, hj⟩ := Int.eq_ofNat_of_zero_le (a := k - (Int.log 10 q - p)) (by omega)
    have hexponent : (j : Int) + (Int.log 10 q - p) = k := by omega
    have hscaled : scaled p q = ((n * 10 ^ j : Int) : ℚ) := by
      rw [scaled, div_eq_iff (zpow_ne_zero _ (by norm_num))]
      push_cast
      rw [mul_assoc, ← zpow_natCast, ← zpow_add₀ (by norm_num), hexponent]
      exact hval
    rw [value_ofPos, hscaled, roundHalfEven_intCast, ← hscaled, scaled_mul]

end Scientific

def significant (p : Nat) (q : ℚ) : ℚ :=
  if h : 0 < q then (Scientific.ofPos p q h).value
  else if h : 0 < -q then -(Scientific.ofPos p (-q) h).value
  else 0

variable {p : Nat} {q : ℚ}

theorem significant_of_pos (hq : 0 < q) : significant p q = (Scientific.ofPos p q hq).value :=
  dif_pos hq

@[simp] theorem significant_zero (p : Nat) : significant p 0 = 0 := by
  rw [significant, dif_neg (lt_irrefl _), dif_neg (by simp)]

@[simp] theorem significant_neg (p : Nat) (q : ℚ) : significant p (-q) = -significant p q := by
  obtain hneg | rfl | hpos := lt_trichotomy q 0
  · rw [significant_of_pos (neg_pos.mpr hneg), significant, dif_neg hneg.not_gt,
      dif_pos (neg_pos.mpr hneg), neg_neg]
  · simp
  · rw [significant_of_pos hpos, significant, dif_neg (by linarith), dif_pos (by simpa using hpos)]
    simp only [neg_neg]

theorem abs_significant_sub_le (p : Nat) (q : ℚ) : |significant p q - q| ≤ |q| / (2 * 10 ^ p) := by
  have hpositive : ∀ q : ℚ, 0 < q → |significant p q - q| ≤ |q| / (2 * 10 ^ p) := by
    intro q hq
    rw [significant_of_pos hq, abs_of_pos hq]
    exact Scientific.abs_value_sub_le p hq
  obtain hneg | rfl | hpos := lt_trichotomy q 0
  · have h := hpositive (-q) (neg_pos.mpr hneg)
    rwa [significant_neg, abs_neg, ← neg_sub', abs_neg] at h
  · simp
  · exact hpositive q hpos

theorem significant_eq_iff (p : Nat) (q : ℚ) :
    significant p q = q ↔ ∃ n k : Int, |n| < 10 ^ (p + 1) ∧ q = n * 10 ^ k := by
  have hpositive : ∀ q : ℚ, 0 < q →
      (significant p q = q ↔ ∃ n k : Int, |n| < 10 ^ (p + 1) ∧ q = n * 10 ^ k) := by
    intro q hq
    have hcast : ∀ n : Nat, |(n : Int)| < 10 ^ (p + 1) ↔ n < 10 ^ (p + 1) := fun n => by
      rw [Nat.abs_cast]
      exact_mod_cast Iff.rfl
    rw [significant_of_pos hq, Scientific.value_ofPos_eq_iff]
    constructor
    · rintro ⟨n, k, hn, hval⟩
      exact ⟨n, k, (hcast n).mpr hn, by exact_mod_cast hval⟩
    · rintro ⟨n, k, hn, hval⟩
      have hsign : 0 ≤ n := by
        by_contra hneg
        have : (n : ℚ) < 0 := Int.cast_lt_zero.mpr (not_le.mp hneg)
        have : q < 0 := hval ▸ mul_neg_of_neg_of_pos this (zpow_pos (by norm_num) _)
        linarith
      obtain ⟨j, rfl⟩ := Int.eq_ofNat_of_zero_le hsign
      exact ⟨j, k, (hcast j).mp hn, by exact_mod_cast hval⟩
  obtain hneg | rfl | hpos := lt_trichotomy q 0
  · have h := hpositive (-q) (neg_pos.mpr hneg)
    rw [significant_neg, neg_inj] at h
    rw [h]
    constructor
    · rintro ⟨n, k, hn, hval⟩
      exact ⟨-n, k, by rwa [abs_neg], by push_cast; linarith⟩
    · rintro ⟨n, k, hn, hval⟩
      exact ⟨-n, k, by rwa [abs_neg], by push_cast; linarith⟩
  · rw [significant_zero]
    exact iff_of_true rfl ⟨0, 0, by simp, by simp⟩
  · exact hpositive q hpos

end QuantForge.Library
