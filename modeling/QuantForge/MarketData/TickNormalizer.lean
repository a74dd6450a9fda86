import Mathlib.Algebra.Order.Group.Unbundled.Abs
import QuantForge.Common.Types

/-! `validate` of `market_data/tick_normalizer.cpp`. -/
namespace QuantForge

namespace TickNormalizer

def maxPriceMovePct : ℚ := 20 / 100

/-- A move of more than a fifth from the open is forwarded, one of more than a half is not. -/
def validate (t : NormalizedTick) : Bool :=
  if t.isStale then false
  else if t.ltp ≤ 0 then false
  else if t.opened > 0 then
    let deviation := |t.ltp - t.opened| / t.opened
    if deviation > maxPriceMovePct then decide ¬(deviation > 1 / 2) else true
  else true

theorem ltp_pos_of_validate {t : NormalizedTick} (h : validate t = true) : 0 < t.ltp := by
  unfold validate at h
  split at h
  · simp at h
  · split at h
    · simp at h
    · rename_i hpos
      exact not_le.mp hpos

end TickNormalizer

end QuantForge
