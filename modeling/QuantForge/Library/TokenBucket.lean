import Mathlib.Algebra.Order.Field.Basic
import Mathlib.Tactic.Linarith

/-! A token bucket: its level rises with time at a fixed rate up to a capacity, and a call is
granted when the level is at least one, which it takes. What a window grants is bounded from
above, and a refusal is always due to a window that is used up. -/
namespace QuantForge.Library

structure TokenBucket (K : Type*) where
  rate : K
  capacity : K
  level : K
  last : K

namespace TokenBucket

section Counts

variable {K : Type*} [LinearOrder K] {lo hi : K} {calls : List (K × Bool)}

def grantedIn (lo hi : K) (calls : List (K × Bool)) : Nat :=
  calls.countP fun c => c.2 && decide (lo ≤ c.1) && decide (c.1 ≤ hi)

def grantedSince (lo : K) (calls : List (K × Bool)) : Nat :=
  calls.countP fun c => c.2 && decide (lo ≤ c.1)

theorem grantedIn_cons (lo hi : K) (c : K × Bool) (calls : List (K × Bool)) :
    grantedIn lo hi (c :: calls) =
      grantedIn lo hi calls + if c.2 && decide (lo ≤ c.1) && decide (c.1 ≤ hi) then 1 else 0 := by
  rw [grantedIn, List.countP_cons]
  rfl

theorem grantedIn_eq_zero (h : ∀ c ∈ calls, hi < c.1) : grantedIn lo hi calls = 0 := by
  refine List.countP_eq_zero.mpr fun c hc => ?_
  simp [not_le.mpr (h c hc)]

theorem grantedSince_append_singleton (lo : K) (calls : List (K × Bool)) (c : K × Bool) :
    grantedSince lo (calls ++ [c]) =
      grantedSince lo calls + if c.2 && decide (lo ≤ c.1) then 1 else 0 := by
  rw [grantedSince, List.countP_append, List.countP_singleton]
  rfl

end Counts

variable {K : Type*} [Field K] [LinearOrder K]

section Definitions

variable (b : TokenBucket K)

def refilled (now : K) : K := min (b.level + (now - b.last) * b.rate) b.capacity

def grants (now : K) : Bool := decide (1 ≤ b.refilled now)

def take (now : K) : TokenBucket K :=
  { b with level := b.refilled now - if b.grants now then 1 else 0, last := now }

end Definitions

def attempts (b : TokenBucket K) : List K → List (K × Bool)
  | [] => []
  | now :: times => (now, b.grants now) :: attempts (b.take now) times

variable {b : TokenBucket K} {now lo hi : K} {times : List K} {calls : List (K × Bool)}

theorem map_fst_attempts (b : TokenBucket K) (times : List K) :
    (b.attempts times).map Prod.fst = times := by
  induction times generalizing b with
  | nil => rfl
  | cons now times ih => rw [attempts, List.map_cons, ih]

theorem refilled_le_capacity (b : TokenBucket K) (now : K) : b.refilled now ≤ b.capacity :=
  min_le_right _ _

theorem refilled_le (b : TokenBucket K) (now : K) :
    b.refilled now ≤ b.level + (now - b.last) * b.rate :=
  min_le_left _ _

@[simp] theorem rate_take (b : TokenBucket K) (now : K) : (b.take now).rate = b.rate := rfl

@[simp] theorem capacity_take (b : TokenBucket K) (now : K) :
    (b.take now).capacity = b.capacity := rfl

@[simp] theorem last_take (b : TokenBucket K) (now : K) : (b.take now).last = now := rfl

theorem level_take (b : TokenBucket K) (now : K) :
    (b.take now).level = b.refilled now - if b.grants now then 1 else 0 := rfl

private theorem grantedIn_attempts_eq_zero (hhi : hi < now)
    (htimes : (now :: times).Pairwise (· ≤ ·)) (b : TokenBucket K) :
    grantedIn lo hi (b.attempts (now :: times)) = 0 := by
  refine grantedIn_eq_zero fun c hc => ?_
  have hmem : c.1 ∈ now :: times := by
    rw [← b.map_fst_attempts (now :: times)]
    exact List.mem_map_of_mem hc
  obtain heq | hmem := List.mem_cons.mp hmem
  · rwa [heq]
  · exact hhi.trans_le ((List.pairwise_cons.mp htimes).1 _ hmem)

structure WellFormed (b : TokenBucket K) : Prop where
  rate : 0 ≤ b.rate
  level : 0 ≤ b.level
  capacity : b.level ≤ b.capacity

variable [IsStrictOrderedRing K]

theorem WellFormed.take (h : b.WellFormed) (hnow : b.last ≤ now) : (b.take now).WellFormed where
  rate := h.rate
  level := by
    have hrise : 0 ≤ (now - b.last) * b.rate := mul_nonneg (sub_nonneg.mpr hnow) h.rate
    have hrefilled : 0 ≤ b.refilled now :=
      le_min (add_nonneg h.level hrise) (h.level.trans h.capacity)
    rw [level_take]
    split
    · rename_i hgrants
      exact sub_nonneg.mpr (of_decide_eq_true hgrants)
    · rwa [sub_zero]
  capacity := by
    have hcapacity := b.refilled_le_capacity now
    rw [level_take, capacity_take]
    split <;> linarith

private theorem grantedIn_attempts_cons_le (lo hi : K) (times : List K)
    (hrest : (grantedIn lo hi ((b.take now).attempts times) : K) ≤
      (b.take now).level + (hi - now) * b.rate) :
    (grantedIn lo hi (b.attempts (now :: times)) : K) ≤ b.refilled now + (hi - now) * b.rate := by
  rw [attempts, grantedIn_cons]
  rw [level_take] at hrest
  push_cast
  cases hgrants : b.grants now with
  | false =>
      simp only [hgrants, Bool.false_and, Bool.false_eq_true, if_false, sub_zero] at hrest ⊢
      linarith
  | true =>
      simp only [hgrants, Bool.true_and, if_true] at hrest ⊢
      split <;> linarith

theorem grantedIn_le_level (h : b.WellFormed) (htimes : (b.last :: times).Pairwise (· ≤ ·))
    (hhi : b.last ≤ hi) :
    (grantedIn lo hi (b.attempts times) : K) ≤ b.level + (hi - b.last) * b.rate := by
  have hgain : ∀ b : TokenBucket K, b.WellFormed → b.last ≤ hi →
      0 ≤ b.level + (hi - b.last) * b.rate := fun b h hhi =>
    add_nonneg h.level (mul_nonneg (sub_nonneg.mpr hhi) h.rate)
  induction times generalizing b with
  | nil => simpa [attempts, grantedIn] using hgain b h hhi
  | cons now times ih =>
      obtain ⟨hfirst, hsorted⟩ := List.pairwise_cons.mp htimes
      have hnow : b.last ≤ now := hfirst now List.mem_cons_self
      obtain hin | hout := le_or_gt now hi
      · have hrest := grantedIn_attempts_cons_le lo hi times (ih (h.take hnow) hsorted hin)
        have hrefilled := b.refilled_le now
        linarith
      · rw [grantedIn_attempts_eq_zero hout hsorted]
        simpa using hgain b h hhi

/-- A window grants no more than the capacity and what the bucket gains in it. -/
theorem grantedIn_le (h : b.WellFormed) (htimes : (b.last :: times).Pairwise (· ≤ ·))
    (hwindow : lo ≤ hi) :
    (grantedIn lo hi (b.attempts times) : K) ≤ b.capacity + (hi - lo) * b.rate := by
  have hbound : 0 ≤ b.capacity + (hi - lo) * b.rate :=
    add_nonneg (h.level.trans h.capacity) (mul_nonneg (sub_nonneg.mpr hwindow) h.rate)
  induction times generalizing b with
  | nil => simpa [attempts, grantedIn] using hbound
  | cons now times ih =>
      obtain ⟨hfirst, hsorted⟩ := List.pairwise_cons.mp htimes
      have hnext := h.take (hfirst now List.mem_cons_self)
      obtain hbefore | hlo := lt_or_ge now lo
      · -- The call is before the window.
        rw [attempts, grantedIn_cons]
        simpa [not_le.mpr hbefore] using ih hnext hsorted hbound
      obtain hin | hout := le_or_gt now hi
      · have hrest := grantedIn_attempts_cons_le lo hi times
          (grantedIn_le_level hnext hsorted hin)
        have hcapacity := b.refilled_le_capacity now
        have hshorter : (hi - now) * b.rate ≤ (hi - lo) * b.rate :=
          mul_le_mul_of_nonneg_right (by linarith) h.rate
        linarith
      · rw [grantedIn_attempts_eq_zero hout hsorted]
        simpa using hbound

/-- Some window that starts at one of these times accounts for the level. -/
def Accounted (b : TokenBucket K) (starts : List K) (calls : List (K × Bool)) : Prop :=
  ∃ lo ∈ starts, lo ≤ b.last ∧
    b.capacity + (b.last - lo) * b.rate ≤ b.level + grantedSince lo calls

theorem Accounted.take {starts : List K} (h : b.Accounted starts calls) (hnow : b.last ≤ now) :
    (b.take now).Accounted (starts ++ [now]) (calls ++ [(now, b.grants now)]) := by
  obtain ⟨lo, hmem, hlo, hlevel⟩ := h
  obtain hfull | hfull := min_choice (b.level + (now - b.last) * b.rate) b.capacity
  · -- The bucket did not fill up: the window is the old one, longer.
    refine ⟨lo, List.mem_append_left _ hmem, hlo.trans hnow, ?_⟩
    rw [level_take, refilled, hfull, grantedSince_append_singleton]
    simp only [capacity_take, last_take, rate_take, decide_eq_true (hlo.trans hnow), Bool.and_true]
    push_cast
    linarith
  · refine ⟨now, List.mem_append_right _ (List.mem_singleton_self now), le_refl now, ?_⟩
    rw [level_take, refilled, hfull, grantedSince_append_singleton]
    simp only [capacity_take, last_take, rate_take, le_refl, decide_true, Bool.and_true]
    have hcount : (0 : K) ≤ grantedSince now calls := Nat.cast_nonneg _
    push_cast
    linarith

theorem Accounted.refused {starts : List K} (h : b.Accounted starts calls)
    (hrefused : b.grants now = false) :
    ∃ lo ∈ starts ++ [now],
      b.capacity + (now - lo) * b.rate < 1 + grantedSince lo calls := by
  obtain ⟨lo, hmem, -, hlevel⟩ := h
  have hlow : b.refilled now < 1 := not_le.mp (of_decide_eq_false hrefused)
  obtain hrises | hfull := min_lt_iff.mp hlow
  · refine ⟨lo, List.mem_append_left _ hmem, ?_⟩
    linarith
  · refine ⟨now, List.mem_append_right _ (List.mem_singleton_self now), ?_⟩
    have hcount : (0 : K) ≤ grantedSince now calls := Nat.cast_nonneg _
    linarith

/-- In every run a call is only refused when one more grant would be more than some window that
starts at an earlier call allows. -/
theorem exists_start_of_refused {starts : List K} {past earlier later : List (K × Bool)}
    (h : b.Accounted starts past) (htimes : (b.last :: times).Pairwise (· ≤ ·))
    (hrefused : b.attempts times = earlier ++ (now, false) :: later) :
    ∃ lo ∈ starts ++ earlier.map Prod.fst ++ [now],
      b.capacity + (now - lo) * b.rate < 1 + grantedSince lo (past ++ earlier) := by
  induction earlier generalizing b starts past times with
  | nil =>
      cases times with
      | nil => simp [attempts] at hrefused
      | cons first times =>
          obtain ⟨hcall, -⟩ := List.cons.inj hrefused
          obtain ⟨rfl, hgrants⟩ := Prod.mk.inj hcall
          simpa using h.refused hgrants
  | cons call earlier ih =>
      cases times with
      | nil => simp [attempts] at hrefused
      | cons first times =>
          obtain ⟨rfl, hrest⟩ := List.cons.inj hrefused
          obtain ⟨hfirst, hsorted⟩ := List.pairwise_cons.mp htimes
          have hnext := h.take (hfirst first List.mem_cons_self)
          simpa using ih hnext hsorted hrest

end TokenBucket

end QuantForge.Library
