import Mathlib.Algebra.Order.Group.Unbundled.Abs
import Mathlib.Algebra.Order.Group.Unbundled.Int
import Mathlib.Algebra.Order.Ring.Int

/-! The 32-bit `int` of the source. Quantities are exact integers in most of the modules; where a
sum can leave the range, its value is what the operation leaves of it. -/
namespace QuantForge

/-- The value that a 32-bit operation leaves, from its exact result. -/
def wrap32 (n : Int) : Int := n.bmod (2 ^ 32)

def Fits32 (n : Int) : Prop := -2 ^ 31 ≤ n ∧ n < 2 ^ 31

instance (n : Int) : Decidable (Fits32 n) := inferInstanceAs (Decidable (_ ∧ _))

theorem wrap32_of_fits {n : Int} (h : Fits32 n) : wrap32 n = n := by
  obtain ⟨hlo, hhi⟩ := h
  exact Int.bmod_eq_of_le (by omega) (by omega)

theorem fits32_wrap32 (n : Int) : Fits32 (wrap32 n) := by
  have hlt := @Int.bmod_lt n (2 ^ 32) (by decide)
  have hle := @Int.le_bmod n (2 ^ 32) (by decide)
  unfold Fits32 wrap32
  omega

theorem wrap32_lt (n : Int) : wrap32 n < 2 ^ 31 := (fits32_wrap32 n).2

theorem wrap32_eq_self_iff {n : Int} : wrap32 n = n ↔ Fits32 n :=
  ⟨fun h => h ▸ fits32_wrap32 n, wrap32_of_fits⟩

theorem wrap32_add_wrap32 (a b : Int) : wrap32 (a + wrap32 b) = wrap32 (a + b) :=
  Int.add_bmod_bmod

theorem wrap32_wrap32_add (a b : Int) : wrap32 (wrap32 a + b) = wrap32 (a + b) :=
  Int.bmod_add_bmod

theorem fits32_of_abs_lt {n : Int} (h : |n| < 2 ^ 31) : Fits32 n :=
  ⟨(abs_lt.mp h).1.le, (abs_lt.mp h).2⟩

end QuantForge
