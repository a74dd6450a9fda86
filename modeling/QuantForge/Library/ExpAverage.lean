import Mathlib.Algebra.Order.Field.Basic
import Mathlib.Tactic.Linarith
import Mathlib.Tactic.Ring

/-! Exponential averages: every value moves the average by its weight. An average stays within
its values, and on a rising series the one with the larger weight and the shorter memory is
above the other. -/
namespace QuantForge.Library.ExpAverage

variable {α : Type*} [Field α] [LinearOrder α] [IsStrictOrderedRing α]

def step (k val x : α) : α := x * k + val * (1 - k)

def average (k first : α) (rest : List α) : α := rest.foldl (step k) first

variable {k k' : α}

omit [LinearOrder α] [IsStrictOrderedRing α] in
theorem average_cons (k first x : α) (rest : List α) :
    average k first (x :: rest) = average k (step k first x) rest := rfl

omit [LinearOrder α] [IsStrictOrderedRing α] in
theorem average_append (k first : α) (left right : List α) :
    average k first (left ++ right) = average k (average k first left) right :=
  List.foldl_append

theorem step_mem {lo hi val x : α} (h0 : 0 ≤ k) (h1 : k ≤ 1) (hval : lo ≤ val ∧ val ≤ hi)
    (hx : lo ≤ x ∧ x ≤ hi) : lo ≤ step k val x ∧ step k val x ≤ hi := by
  unfold step
  constructor
  · have hxk : lo * k ≤ x * k := mul_le_mul_of_nonneg_right hx.1 h0
    have hvk : lo * (1 - k) ≤ val * (1 - k) := mul_le_mul_of_nonneg_right hval.1 (by linarith)
    linarith
  · have hxk : x * k ≤ hi * k := mul_le_mul_of_nonneg_right hx.2 h0
    have hvk : val * (1 - k) ≤ hi * (1 - k) := mul_le_mul_of_nonneg_right hval.2 (by linarith)
    linarith

theorem average_lt {hi first : α} {rest : List α} (h0 : 0 ≤ k) (h1 : k ≤ 1)
    (hfirst : first < hi) (hrest : ∀ x ∈ rest, x < hi) : average k first rest < hi := by
  induction rest generalizing first with
  | nil => exact hfirst
  | cons x rest ih =>
      obtain ⟨hx, hrest⟩ := List.forall_mem_cons.mp hrest
      have hstep := (step_mem h0 h1 ⟨min_le_left first x, le_max_left first x⟩
        ⟨min_le_right first x, le_max_right first x⟩).2
      exact ih (hstep.trans_lt (max_lt hfirst hx)) hrest

omit [LinearOrder α] [IsStrictOrderedRing α] in
theorem average_const (k c : α) {rest : List α} (h : ∀ x ∈ rest, x = c) :
    average k c rest = c := by
  induction rest with
  | nil => rfl
  | cons x rest ih =>
      obtain ⟨rfl, hrest⟩ := List.forall_mem_cons.mp h
      have hstep : step k x x = x := by
        unfold step
        ring
      rw [average_cons, hstep]
      exact ih hrest

theorem step_lt_step {u v x : α} (hk : k < k') (h1 : k' ≤ 1) (huv : u < v) (hv : v ≤ x) :
    step k u x < step k' v x := by
  have hdown : (x - v) * (1 - k') ≤ (x - u) * (1 - k') :=
    mul_le_mul_of_nonneg_right (by linarith) (by linarith)
  have hmemory : (x - u) * (1 - k') < (x - u) * (1 - k) :=
    mul_lt_mul_of_pos_left (by linarith) (by linarith)
  unfold step
  linarith

theorem average_lt_average {u v : α} {rest : List α} (h0 : 0 ≤ k) (hk : k < k') (h1 : k' ≤ 1)
    (huv : u < v) (hrising : (v :: rest).Pairwise (· ≤ ·)) :
    average k u rest < average k' v rest := by
  induction rest generalizing u v with
  | nil => exact huv
  | cons x rest ih =>
      obtain ⟨hv, hrest⟩ := List.pairwise_cons.mp hrising
      obtain ⟨hx, hlater⟩ := List.pairwise_cons.mp hrest
      have hvx : v ≤ x := hv x List.mem_cons_self
      have hbound : step k' v x ≤ x :=
        (step_mem (h0.trans hk.le) h1 ⟨le_refl v, hvx⟩ ⟨hvx, le_refl x⟩).2
      refine ih (step_lt_step hk h1 huv hvx) (List.pairwise_cons.mpr ⟨fun y hy => ?_, hlater⟩)
      exact hbound.trans (hx y hy)

theorem average_lt_of_rising {older : List α} {oldest first : α} {rest : List α} (h0 : 0 < k)
    (hk : k < k') (h1 : k' ≤ 1)
    (hrising : (oldest :: (older ++ first :: rest)).Pairwise (· < ·)) :
    average k oldest (older ++ first :: rest) < average k' first rest := by
  obtain ⟨holdest, hrest⟩ := List.pairwise_cons.mp hrising
  obtain ⟨-, hwindow, holder⟩ := List.pairwise_append.mp hrest
  have hbelow : average k oldest older < first :=
    average_lt h0.le (hk.le.trans h1) (holdest first (by simp))
      fun x hx => holder x hx first List.mem_cons_self
  have hfirst : step k (average k oldest older) first < first := by
    have hmove : 0 < (first - average k oldest older) * (1 - k) :=
      mul_pos (by linarith) (by linarith)
    unfold step
    linarith
  rw [average_append, average_cons]
  exact average_lt_average h0.le hk h1 hfirst (hwindow.imp fun hlt => hlt.le)

omit [LinearOrder α] [IsStrictOrderedRing α] in
theorem average_neg (k first : α) (rest : List α) :
    average k (-first) (rest.map (- ·)) = -average k first rest := by
  induction rest generalizing first with
  | nil => rfl
  | cons x rest ih =>
      have hstep : step k (-first) (-x) = -step k first x := by
        unfold step
        ring
      rw [List.map_cons, average_cons, hstep, ih, average_cons]

theorem lt_average_of_falling {older : List α} {oldest first : α} {rest : List α} (h0 : 0 < k)
    (hk : k < k') (h1 : k' ≤ 1)
    (hfalling : (oldest :: (older ++ first :: rest)).Pairwise (· > ·)) :
    average k' first rest < average k oldest (older ++ first :: rest) := by
  have hrising : (-oldest :: (older.map (- ·) ++ -first :: rest.map (- ·))).Pairwise (· < ·) := by
    have hmap := List.pairwise_map.mpr (hfalling.imp fun hgt => neg_lt_neg hgt)
    simpa using hmap
  have hlt := average_lt_of_rising h0 hk h1 hrising
  rw [average_neg, ← List.map_cons, ← List.map_append, average_neg] at hlt
  exact neg_lt_neg_iff.mp hlt

end QuantForge.Library.ExpAverage
