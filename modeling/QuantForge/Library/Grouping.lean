import Mathlib.Data.List.Basic

/-! Grouping a stream by runs of equal keys, where the values of a run are merged. Grouping by
a coarser key needs no more than the groups of the finer one. -/
namespace QuantForge.Library.Grouping

variable {K K' β : Type*} [DecidableEq K] [DecidableEq K'] (merge : β → β → β)

/-- The groups of what follows, `current` being the group that is open. -/
def collect (current : K × β) : List (K × β) → List (K × β)
  | [] => [current]
  | next :: rest =>
      if next.1 = current.1 then collect (current.1, merge current.2 next.2) rest
      else current :: collect next rest

def group : List (K × β) → List (K × β)
  | [] => []
  | first :: rest => collect merge first rest

def rekey (f : K → K') (items : List (K × β)) : List (K' × β) :=
  items.map fun item => (f item.1, item.2)

variable {merge}

omit [DecidableEq K] [DecidableEq K'] in
@[simp] theorem rekey_cons (f : K → K') (k : K) (b : β) (items : List (K × β)) :
    rekey f ((k, b) :: items) = (f k, b) :: rekey f items := rfl

variable {k k' : K} {b b' : β}

theorem collect_of_eq (h : k' = k) (rest : List (K × β)) :
    collect merge (k, b) ((k', b') :: rest) = collect merge (k, merge b b') rest := if_pos h

theorem collect_of_ne (h : k' ≠ k) (rest : List (K × β)) :
    collect merge (k, b) ((k', b') :: rest) = (k, b) :: collect merge (k', b') rest := if_neg h

variable (merge) in
theorem collect_eq_cons (k : K) (b : β) (rest : List (K × β)) :
    ∃ b' groups, collect merge (k, b) rest = (k, b') :: groups := by
  induction rest generalizing b with
  | nil => exact ⟨b, [], rfl⟩
  | cons next rest ih =>
      obtain ⟨k', b'⟩ := next
      by_cases h : k' = k
      · obtain ⟨c, groups, heq⟩ := ih (merge b b')
        exact ⟨c, groups, (collect_of_eq h rest).trans heq⟩
      · exact ⟨b, collect merge (k', b') rest, collect_of_ne h rest⟩

theorem collect_rekey_of_ne {f : K → K'} {j : K'} (h : f k ≠ j) (c : β) (rest : List (K × β)) :
    collect merge (j, c) (rekey f (collect merge (k, b) rest)) =
      (j, c) :: group merge (rekey f (collect merge (k, b) rest)) := by
  obtain ⟨b', groups, heq⟩ := collect_eq_cons merge k b rest
  rw [heq, rekey_cons]
  exact collect_of_ne h _

section Coarser

variable (hassoc : ∀ a b c : β, merge (merge a b) c = merge a (merge b c))
include hassoc

private theorem collect_rekey (f : K → K') (rest : List (K × β)) :
    (∀ k b, group merge (rekey f (collect merge (k, b) rest)) =
      collect merge (f k, b) (rekey f rest)) ∧
    ∀ k b c, collect merge (f k, c) (rekey f (collect merge (k, b) rest)) =
      collect merge (f k, merge c b) (rekey f rest) := by
  induction rest with
  | nil => exact ⟨fun _ _ => rfl, fun _ _ _ => collect_of_eq rfl []⟩
  | cons next rest ih =>
      obtain ⟨ihGroup, ihCollect⟩ := ih
      obtain ⟨k', b'⟩ := next
      -- What comes after a group that is cut at `next`.
      have hcut : ∀ k c, collect merge (f k, c) (rekey f (collect merge (k', b') rest)) =
          collect merge (f k, c) (rekey f ((k', b') :: rest)) := by
        intro k c
        by_cases hsame : f k' = f k
        · rw [← hsame, ihCollect, rekey_cons, collect_of_eq rfl]
        · rw [collect_rekey_of_ne hsame, ihGroup, rekey_cons, collect_of_ne hsame]
      constructor
      · intro k b
        by_cases h : k' = k
        · rw [collect_of_eq h, ihGroup, rekey_cons, collect_of_eq (congrArg f h)]
        · rw [collect_of_ne h]
          exact hcut k b
      · intro k b c
        by_cases h : k' = k
        · rw [collect_of_eq h, ihCollect, ← hassoc, rekey_cons, collect_of_eq (congrArg f h)]
        · rw [collect_of_ne h, rekey_cons, collect_of_eq rfl]
          exact hcut k (merge c b)

/-- The groups by a coarser key are the groups of the finer groups. -/
theorem group_rekey_group (f : K → K') (items : List (K × β)) :
    group merge (rekey f (group merge items)) = group merge (rekey f items) := by
  cases items with
  | nil => rfl
  | cons first rest => exact (collect_rekey hassoc f rest).1 first.1 first.2

end Coarser

end QuantForge.Library.Grouping
