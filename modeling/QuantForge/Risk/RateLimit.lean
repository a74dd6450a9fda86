import Mathlib.Tactic.Ring
import QuantForge.Library.TokenBucket
import QuantForge.Risk.PreTradeRisk

/-! `risk/token_bucket.hpp` is a token bucket, and its answers are exact: a window never grants
more than the burst and the rate allow, and no call is refused without such a reason. -/
namespace QuantForge

open Library

namespace TokenBucketLimiter

def seconds (ns : Nat) : ℚ := ns / 1000000000

theorem seconds_mono : Monotone seconds := fun _ _ h =>
  div_le_div_of_nonneg_right (Nat.cast_le.mpr h) (by norm_num)

/-- The limiter as a bucket that is refilled by the second. -/
def toBucket (limiter : TokenBucketLimiter) : TokenBucket ℚ where
  rate := limiter.maxRate
  capacity := limiter.burst
  level := limiter.tokens
  last := seconds limiter.lastRefillNs

def attempts (limiter : TokenBucketLimiter) : List Nat → List (ℚ × Bool)
  | [] => []
  | nowNs :: times =>
      (seconds nowNs, (limiter.tryConsume nowNs).1) ::
        attempts (limiter.tryConsume nowNs).2 times

theorem tryConsume_toBucket (limiter : TokenBucketLimiter) (nowNs : Nat) :
    (limiter.tryConsume nowNs).1 = limiter.toBucket.grants (seconds nowNs) ∧
      (limiter.tryConsume nowNs).2.toBucket = limiter.toBucket.take (seconds nowNs) := by
  have hrefilled : limiter.toBucket.refilled (seconds nowNs) =
      min (limiter.tokens + ((nowNs : ℚ) - limiter.lastRefillNs) / 1000000000 * limiter.maxRate)
        limiter.burst := by
    simp only [TokenBucket.refilled, toBucket, seconds, sub_div]
  unfold TokenBucket.take TokenBucket.grants tryConsume
  rw [hrefilled]
  dsimp only
  generalize min (limiter.tokens + ((nowNs : ℚ) - limiter.lastRefillNs) / 1000000000 *
    limiter.maxRate) (limiter.burst : ℚ) = newTokens
  by_cases hone : 1 ≤ newTokens
  · simp [hone, toBucket]
  · simp [hone, toBucket]

theorem attempts_toBucket (limiter : TokenBucketLimiter) (times : List Nat) :
    limiter.attempts times = limiter.toBucket.attempts (times.map seconds) := by
  induction times generalizing limiter with
  | nil => rfl
  | cons nowNs times ih =>
      obtain ⟨hanswer, hnext⟩ := limiter.tryConsume_toBucket nowNs
      rw [attempts, ih, hanswer, hnext]
      rfl

section Constructed

variable {maxRate burst : Int} {nowNs : Nat}

theorem toBucket_init (hburst : 0 ≤ burst) :
    (init maxRate burst nowNs).toBucket = ⟨maxRate, burst, burst, seconds nowNs⟩ := by
  simp [init, toBucket, not_lt.mpr hburst]

/-- A window of a run grants at most the burst and what the rate allows in it; a call is only
refused when one more grant would exceed this in a window that starts at the construction or at
a call. -/
theorem attempts_exact (hrate : 0 ≤ maxRate) (hburst : 0 ≤ burst) {times : List Nat}
    (htimes : (nowNs :: times).Pairwise (· ≤ ·)) :
    let calls := (init maxRate burst nowNs).attempts times
    (∀ a b : ℚ, a ≤ b → (TokenBucket.grantedIn a b calls : ℚ) ≤ burst + maxRate * (b - a)) ∧
      ∀ earlier t later, calls = earlier ++ (t, false) :: later →
        ∃ a ∈ seconds nowNs :: (earlier.map Prod.fst ++ [t]),
          burst + maxRate * (t - a) < 1 + (TokenBucket.grantedSince a earlier : ℚ) := by
  have hsorted : (seconds nowNs :: times.map seconds).Pairwise (· ≤ ·) :=
    htimes.map seconds fun _ _ h => seconds_mono h
  rw [attempts_toBucket, toBucket_init hburst]
  have hburst' : (0 : ℚ) ≤ burst := Int.cast_nonneg hburst
  constructor
  · intro a b hwindow
    have hformed : (TokenBucket.mk (maxRate : ℚ) burst burst (seconds nowNs)).WellFormed :=
      ⟨Int.cast_nonneg hrate, hburst', le_refl _⟩
    rw [mul_comm]
    exact TokenBucket.grantedIn_le hformed hsorted hwindow
  · intro earlier t later hrefused
    have hfull : TokenBucket.Accounted ⟨(maxRate : ℚ), burst, burst, seconds nowNs⟩
        [seconds nowNs] [] := by
      refine ⟨seconds nowNs, List.mem_singleton_self _, le_refl _, ?_⟩
      simp
    obtain ⟨a, hmem, hexceeds⟩ := TokenBucket.exists_start_of_refused hfull hsorted hrefused
    refine ⟨a, by simpa using hmem, ?_⟩
    rwa [mul_comm]

theorem attempts_exact_burst_of_two :
    (TokenBucket.grantedIn 0 (1 / 10) ((init 10 2 0).attempts [0, 0, 0, 100000000]) : ℚ) ≤
        2 + 10 * (1 / 10 - 0) ∧
      ∃ a ∈ [0, 0, 0, 0], (2 : ℚ) + 10 * (0 - a) <
        1 + (TokenBucket.grantedSince a [((0 : ℚ), true), (0, true)] : ℚ) := by
  obtain ⟨hwindow, hrefused⟩ := @attempts_exact 10 2 0 (by decide) (by decide)
    [0, 0, 0, 100000000] (by decide)
  refine ⟨by simpa using hwindow 0 (1 / 10) (by norm_num), ?_⟩
  simpa [seconds] using hrefused [(0, true), (0, true)] 0 [(1 / 10, true)] (by decide +kernel)

end Constructed

end TokenBucketLimiter

end QuantForge
