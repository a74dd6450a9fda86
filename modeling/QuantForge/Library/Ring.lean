import Mathlib.Data.Nat.ModEq
import Mathlib.Logic.Function.Basic

/-! A ring of `N` slots addressed by unbounded positions modulo `N`. A queue keeps
a segment of fewer than `N` positions; a broadcast ring keeps the last `N`. -/
namespace QuantForge.Library.Ring

variable {α : Type*} {N : Nat}

theorem slot_ne_of_lt {near far : Nat} (hlt : near < far) (hlap : far < near + N) :
    near % N ≠ far % N := by
  intro heq
  have hdvd : N ∣ far - near := (Nat.modEq_iff_dvd' hlt.le).mp heq
  have hle := Nat.le_of_dvd (by omega) hdvd
  omega

def segment (data : Nat → α) (N start len : Nat) : List α :=
  (List.range len).map fun i => data ((start + i) % N)

@[simp] theorem segment_length (data : Nat → α) (start len : Nat) :
    (segment data N start len).length = len := by
  simp [segment]

theorem segment_snoc (data : Nat → α) (start len : Nat) :
    segment data N start (len + 1) =
      segment data N start len ++ [data ((start + len) % N)] := by
  simp [segment, List.range_succ]

theorem segment_cons (data : Nat → α) (start len : Nat) :
    segment data N start (len + 1) =
      data (start % N) :: segment data N (start + 1) len := by
  simp only [segment, List.range_succ_eq_map, List.map_cons, List.map_map, add_zero]
  congr 1
  apply List.map_congr_left
  intro i _
  simp only [Function.comp_apply, Nat.succ_eq_add_one]
  congr 2
  omega

theorem segment_mod (data : Nat → α) (start len : Nat) :
    segment data N (start % N) len = segment data N start len := by
  apply List.map_congr_left
  intro i _
  rw [Nat.mod_add_mod]

theorem segment_update (data : Nat → α) (start : Nat) {len : Nat} (hlen : len < N) (x : α) :
    segment (Function.update data ((start + len) % N) x) N start len =
      segment data N start len := by
  apply List.map_congr_left
  intro i hi
  have hi : i < len := List.mem_range.mp hi
  rw [Function.update_of_ne (slot_ne_of_lt (by omega) (by omega))]

theorem segment_push (data : Nat → α) {start len : Nat} (hlen : len < N) (x : α) :
    segment (Function.update data ((start + len) % N) x) N start (len + 1) =
      segment data N start len ++ [x] := by
  rw [segment_snoc, segment_update data start hlen, Function.update_self]

/-- The slots hold the last `N` of the first `count` items of a stream. -/
def Holds (data : Nat → α) (N count : Nat) (stream : Nat → α) : Prop :=
  ∀ i, i < count → count ≤ i + N → data (i % N) = stream i

theorem holds_zero (data stream : Nat → α) : Holds data N 0 stream := by
  intro i hi
  omega

end QuantForge.Library.Ring
