import Mathlib.Algebra.Order.Floor.Div
import Mathlib.Data.Nat.Bitwise
import Mathlib.Data.Set.Lattice
import Mathlib.Order.CompletePartialOrder
import Mathlib.Order.Interval.Set.Basic

/-! Intervals that are handed out one after the other, each from the end of the last one or from
beyond it, and the masks that round an address. -/
namespace QuantForge.Library

/-- The half-open intervals that were handed out, the latest first. -/
structure Bump (α : Type*) where
  top : α
  spans : List (α × α) := []

namespace Bump

variable {α : Type*} [Preorder α] {b : Bump α}

def take (b : Bump α) (start stop : α) : Bump α where
  top := stop
  spans := (start, stop) :: b.spans

structure Packed (b : Bump α) : Prop where
  below : ∀ span ∈ b.spans, span.2 ≤ b.top
  apart : b.spans.Pairwise fun span span' => Disjoint (Set.Ico span.1 span.2)
    (Set.Ico span'.1 span'.2)

theorem packed_empty (top : α) : (Bump.mk top []).Packed :=
  ⟨fun _ => nofun, List.Pairwise.nil⟩

theorem Packed.take (h : b.Packed) {start stop : α} (hstart : b.top ≤ start)
    (hstop : start ≤ stop) : (b.take start stop).Packed := by
  constructor
  · intro span hspan
    obtain rfl | hold := List.mem_cons.mp hspan
    · exact le_rfl
    · exact (h.below span hold).trans (hstart.trans hstop)
  · refine List.pairwise_cons.mpr ⟨fun span hspan => ?_, h.apart⟩
    rw [Set.disjoint_left]
    intro a hnew hold
    have hlt : a < start := hold.2.trans_le ((h.below span hspan).trans hstart)
    exact hlt.not_ge hnew.1

end Bump

theorem and_mask_eq {w k x : Nat} (hk : k ≤ w) (hx : x < 2 ^ w) :
    x &&& (2 ^ w - 1 - (2 ^ k - 1)) = 2 ^ k * (x / 2 ^ k) := by
  have hpow : 2 ^ k ≤ 2 ^ w := Nat.pow_le_pow_right (by decide) hk
  have hpos : 0 < 2 ^ k := Nat.two_pow_pos k
  have hmask : 2 ^ w - 1 - (2 ^ k - 1) = 2 ^ w - ((2 ^ k - 1) + 1) := by omega
  apply Nat.eq_of_testBit_eq
  intro i
  rw [hmask, Nat.testBit_and, Nat.testBit_two_pow_sub_succ (by omega), Nat.testBit_two_pow_sub_one,
    Nat.mul_comm, Nat.testBit_mul_two_pow, Nat.testBit_div_two_pow]
  by_cases hw : i < w
  · by_cases hki : k ≤ i
    · simp [hw, hki]
    · simp [hki]
      omega
  · have hbit : x.testBit i = false :=
      Nat.testBit_lt_two_pow (hx.trans_le (Nat.pow_le_pow_right (by decide) (by omega)))
    have hki : k ≤ i := by omega
    simp [hw, hki, hbit]

end QuantForge.Library
