import Mathlib.Algebra.Order.Monoid.Defs
import Mathlib.Algebra.Order.Group.Unbundled.Basic
import Mathlib.Order.UpperLower.CompleteLattice
import Mathlib.Tactic.Abel

/-! Admission against views that may be out of date. A caller looks at an exposure and
later adds to it, if what it saw leaves room under a limit. A view misses what it does
not contain, and the limit is exceeded by no more than an admitted view missed. -/
namespace QuantForge.Library

structure View (G : Type*) where
  seen : G
  unseen : G

structure Gate (κ G : Type*) where
  exposure : G
  views : κ → Option (View G)
  excess : G

namespace Gate

variable {κ G : Type*} [AddCommGroup G] [PartialOrder G] [IsOrderedAddMonoid G]
  {limit : LowerSet G} {g g' : Gate κ G}

/-- The exposure is under the limit but for the excess, and a view with what it misses
covers the exposure. -/
structure Sound (limit : LowerSet G) (g : Gate κ G) : Prop where
  fits : g.exposure - g.excess ∈ limit
  covered : ∀ k v, g.views k = some v → g.exposure ≤ v.seen + v.unseen

theorem sound_hold (h : Sound limit g) (hexposure : g'.exposure ≤ g.exposure)
    (hexcess : g.excess ≤ g'.excess)
    (hviews : ∀ k v, g'.views k = some v →
      g.views k = some v ∨ g'.exposure ≤ v.seen + v.unseen) : Sound limit g' := by
  refine ⟨limit.lower (sub_le_sub hexposure hexcess) h.fits, fun k v hv => ?_⟩
  obtain hold | hnew := hviews k v hv
  · exact hexposure.trans (h.covered k v hold)
  · exact hnew

theorem sound_accept (h : Sound limit g) {k : κ} {v : View G} {amount : G}
    (hview : g.views k = some v) (hroom : v.seen + amount ∈ limit)
    (hexposure : g'.exposure ≤ g.exposure + amount) (hexcess : v.unseen ≤ g'.excess)
    (hviews : ∀ k' v', g'.views k' = some v' →
      g.views k' = some ⟨v'.seen, v'.unseen - amount⟩) : Sound limit g' := by
  constructor
  · refine limit.lower ?_ hroom
    calc g'.exposure - g'.excess
        _ ≤ (v.seen + v.unseen + amount) - v.unseen :=
          sub_le_sub (hexposure.trans (add_le_add_left (h.covered k v hview) amount)) hexcess
        _ = v.seen + amount := by abel
  · intro k' v' hv'
    calc g'.exposure
        _ ≤ (v'.seen + (v'.unseen - amount)) + amount :=
          hexposure.trans (add_le_add_left (h.covered k' _ (hviews k' v' hv')) amount)
        _ = v'.seen + v'.unseen := by abel

end Gate

end QuantForge.Library
