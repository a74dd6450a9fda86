import Mathlib.Data.List.TakeWhile

/-! Regular expressions of runs, options and groups, matched with backtracking: the ways to match
the beginning of a text, in the order in which they are tried. -/
namespace QuantForge.Library

inductive Regex (α : Type*) where
  | one (p : α → Bool)
  | run (p : α → Bool) (least : Nat)
  | seq (first second : Regex α)
  | opt (inner : Regex α)
  | group (n : Nat) (inner : Regex α)

namespace Regex

variable {α : Type*}

structure Way (α : Type*) where
  groups : List (Nat × List α)
  taken : List α
  rest : List α

def Way.append (w v : Way α) : Way α := ⟨w.groups ++ v.groups, w.taken ++ v.taken, v.rest⟩

/-- A text cut in two behind elements that satisfy `p`, as many as possible first. -/
def runs (p : α → Bool) : List α → List (List α × List α)
  | [] => [([], [])]
  | c :: rest =>
      (if p c then (runs p rest).map fun w => (c :: w.1, w.2) else []) ++ [([], c :: rest)]

def ways : Regex α → List α → List (Way α)
  | one p, text =>
      match text with
      | [] => []
      | c :: rest => if p c then [⟨[], [c], rest⟩] else []
  | run p least, text =>
      ((runs p text).filter fun w => least ≤ w.1.length).map fun w => ⟨[], w.1, w.2⟩
  | seq first second, text =>
      (ways first text).flatMap fun w => (ways second w.rest).map w.append
  | opt inner, text => ways inner text ++ [⟨[], [], text⟩]
  | group n inner, text =>
      (ways inner text).map fun w => { w with groups := (n, w.taken) :: w.groups }

def fullMatch (r : Regex α) (text : List α) : Option (List (Nat × List α)) :=
  ((ways r text).find? fun w => w.rest.isEmpty).map Way.groups

def groupText (groups : List (Nat × List α)) (n : Nat) : List α := (groups.lookup n).getD []

def literal [BEq α] : List α → Regex α → Regex α
  | [], r => r
  | c :: word, r => seq (one (· == c)) (literal word r)

theorem ways_one_cons (p : α → Bool) (c : α) (rest : List α) :
    ways (one p) (c :: rest) = if p c then [⟨[], [c], rest⟩] else [] := rfl

section Runs

variable {p : α → Bool}

/-- The first way is the longest one, and the others stop before an element that satisfies `p`. -/
theorem runs_eq (p : α → Bool) (text : List α) : ∃ shorter,
    runs p text = (text.takeWhile p, text.dropWhile p) :: shorter ∧
      ∀ w ∈ shorter, ∃ c rest, w.2 = c :: rest ∧ p c = true := by
  induction text with
  | nil => exact ⟨[], rfl, List.forall_mem_nil _⟩
  | cons c rest ih =>
      rw [runs]
      by_cases hc : p c = true
      · obtain ⟨shorter, hruns, hstop⟩ := ih
        refine ⟨shorter.map (fun w => (c :: w.1, w.2)) ++ [([], c :: rest)], ?_, ?_⟩
        · rw [if_pos hc, hruns, List.takeWhile_cons_of_pos hc, List.dropWhile_cons_of_pos hc]
          rfl
        · intro w hw
          obtain hw | hw := List.mem_append.mp hw
          · obtain ⟨v, hv, rfl⟩ := List.mem_map.mp hw
            exact hstop v hv
          · rw [List.mem_singleton.mp hw]
            exact ⟨c, rest, rfl, hc⟩
      · refine ⟨[], ?_, List.forall_mem_nil _⟩
        rw [if_neg hc, List.takeWhile_cons_of_neg hc, List.dropWhile_cons_of_neg hc]
        rfl

theorem ways_group_run (n least : Nat) (text : List α) : ∃ shorter,
    ways (group n (run p least)) text =
      (if least ≤ (text.takeWhile p).length then
        [⟨[(n, text.takeWhile p)], text.takeWhile p, text.dropWhile p⟩] else []) ++ shorter ∧
      ∀ w ∈ shorter, ∃ c rest, w.rest = c :: rest ∧ p c = true := by
  obtain ⟨shorter, hruns, hstop⟩ := runs_eq p text
  refine ⟨((shorter.filter fun w => least ≤ w.1.length).map fun w => ⟨[], w.1, w.2⟩).map
    fun w : Way α => { w with groups := (n, w.taken) :: w.groups }, ?_, ?_⟩
  · rw [ways, ways, hruns]
    by_cases hleast : least ≤ (text.takeWhile p).length
    · rw [List.filter_cons_of_pos (by simpa using hleast), if_pos hleast]
      rfl
    · rw [List.filter_cons_of_neg (by simpa using hleast), if_neg hleast]
      rfl
  · intro w hw
    obtain ⟨v, hv, rfl⟩ := List.mem_map.mp hw
    obtain ⟨u, hu, rfl⟩ := List.mem_map.mp hv
    exact hstop u (List.mem_filter.mp hu).1

theorem ways_run_seq {r : Regex α} (hrejects : ∀ c rest, p c = true → ways r (c :: rest) = [])
    (n least : Nat) (text : List α) :
    ways (seq (group n (run p least)) r) text =
      if least ≤ (text.takeWhile p).length then
        (ways r (text.dropWhile p)).map
          (Way.append ⟨[(n, text.takeWhile p)], text.takeWhile p, text.dropWhile p⟩)
      else [] := by
  obtain ⟨shorter, hways, hstop⟩ := ways_group_run (p := p) n least text
  have hnone : (shorter.flatMap fun w => (ways r w.rest).map w.append) = [] := by
    refine List.flatMap_eq_nil_iff.mpr fun w hw => ?_
    obtain ⟨c, rest, hrest, hc⟩ := hstop w hw
    rw [hrest, hrejects c rest hc]
    rfl
  rw [ways, hways, List.flatMap_append, hnone, List.append_nil]
  by_cases hleast : least ≤ (text.takeWhile p).length
  · rw [if_pos hleast, if_pos hleast, List.flatMap_singleton]
  · rw [if_neg hleast, if_neg hleast]
    rfl

theorem find_group_run (n least : Nat) (text : List α) :
    ((ways (group n (run p least)) text).find? fun w => w.rest.isEmpty) =
      if least ≤ text.length ∧ ∀ c ∈ text, p c = true then some ⟨[(n, text)], text, []⟩
      else none := by
  obtain ⟨shorter, hways, hstop⟩ := ways_group_run (p := p) n least text
  have hnone : (shorter.find? fun w => w.rest.isEmpty) = none := by
    refine List.find?_eq_none.mpr fun w hw => ?_
    obtain ⟨c, rest, hrest, -⟩ := hstop w hw
    simp [hrest]
  rw [hways, List.find?_append, hnone, Option.or_none]
  by_cases hall : ∀ c ∈ text, p c = true
  · rw [List.takeWhile_eq_self_iff.mpr hall, List.dropWhile_eq_nil_iff.mpr hall]
    by_cases hleast : least ≤ text.length
    · rw [if_pos hleast, if_pos ⟨hleast, hall⟩]
      rfl
    · rw [if_neg hleast, if_neg fun h => hleast h.1]
      rfl
  · have hnot : ¬(least ≤ text.length ∧ ∀ c ∈ text, p c = true) := fun h => hall h.2
    rw [if_neg hnot]
    refine List.find?_eq_none.mpr fun w hw => ?_
    split at hw
    · rw [List.mem_singleton.mp hw]
      simpa using hall
    · cases hw

end Runs

theorem ways_literal [BEq α] [LawfulBEq α] (word : List α) (r : Regex α) (text : List α) :
    ways (literal word r) (word ++ text) = (ways r text).map (Way.append ⟨[], word, text⟩) := by
  induction word with
  | nil =>
      rw [literal]
      exact (List.map_id _).symm
  | cons c word ih =>
      rw [literal, ways, List.cons_append, ways_one_cons, if_pos (beq_self_eq_true c),
        List.flatMap_singleton, ih, List.map_map]
      rfl

theorem prefix_of_literal [BEq α] [LawfulBEq α] {word : List α} {r : Regex α} {text : List α}
    (h : ways (literal word r) text ≠ []) : word <+: text := by
  induction word generalizing text with
  | nil => exact List.nil_prefix
  | cons c word ih =>
      rw [literal, ways] at h
      cases text with
      | nil => exact absurd rfl h
      | cons d rest =>
          rw [ways_one_cons] at h
          by_cases hd : (d == c) = true
          · obtain rfl := eq_of_beq hd
            rw [if_pos hd, List.flatMap_singleton] at h
            have hrest : ways (literal word r) rest ≠ [] := fun hnil => h (by rw [hnil]; rfl)
            exact List.prefix_cons_inj d |>.mpr (ih hrest)
          · rw [if_neg hd] at h
            exact absurd rfl h

theorem fullMatch_literal [BEq α] [LawfulBEq α] (word : List α) (r : Regex α) (text : List α) :
    fullMatch (literal word r) (word ++ text) = fullMatch r text := by
  rw [fullMatch, ways_literal, List.find?_map, Option.map_map]
  rfl

theorem fullMatch_opt_seq (inner r : Regex α) (text : List α) :
    fullMatch (seq (opt inner) r) text =
      (fullMatch (seq inner r) text).or (fullMatch r text) := by
  rw [fullMatch, ways, ways, List.flatMap_append, List.find?_append, Option.map_or]
  have hempty : (Way.append ⟨[], [], text⟩ : Way α → Way α) = id := rfl
  rw [List.flatMap_singleton, hempty, List.map_id]
  rfl

def field [BEq α] (n : Nat) (d : α) (least : Nat) : Regex α :=
  seq (group n (run (· != d) least)) (one (· == d))

section Field

variable [BEq α] [LawfulBEq α] {n least : Nat} {d : α} {r : Regex α}

theorem ways_field (n : Nat) (d : α) {least : Nat} {text rest : List α} (htext : d ∉ text)
    (hleast : least ≤ text.length) :
    ways (field n d least) (text ++ d :: rest) = [⟨[(n, text)], text ++ [d], rest⟩] := by
  have hrejects : ∀ c rest, (c != d) = true → ways (one (· == d)) (c :: rest) = [] := by
    intro c rest hc
    rw [ways_one_cons, if_neg (by simpa using hc)]
  have hrun : ∀ c ∈ text, (c != d) = true := fun c hc => by
    simpa using fun heq : c = d => htext (heq ▸ hc)
  have htake : (d :: rest).takeWhile (· != d) = [] := List.takeWhile_cons_of_neg (by simp)
  have hdrop : (d :: rest).dropWhile (· != d) = d :: rest := List.dropWhile_cons_of_neg (by simp)
  rw [field, ways_run_seq hrejects, List.takeWhile_append_of_pos hrun,
    List.dropWhile_append_of_pos hrun, htake, hdrop, List.append_nil, if_pos hleast,
    ways_one_cons, if_pos (beq_self_eq_true d)]
  rfl

theorem exists_field {text : List α} {w : Way α} (h : w ∈ ways (field n d least) text) :
    ∃ before rest, text = before ++ d :: rest ∧ d ∉ before ∧ least ≤ before.length := by
  have hrejects : ∀ c rest, (c != d) = true → ways (one (· == d)) (c :: rest) = [] := by
    intro c rest hc
    rw [ways_one_cons, if_neg (by simpa using hc)]
  rw [field, ways_run_seq hrejects] at h
  split at h
  · rename_i hleast
    obtain ⟨v, hv, -⟩ := List.mem_map.mp h
    have hsplit := List.takeWhile_append_dropWhile (p := (· != d)) (l := text)
    have hbefore : d ∉ text.takeWhile (· != d) := fun hmem => by
      simpa using List.mem_takeWhile_imp hmem
    cases hdrop : text.dropWhile (· != d) with
    | nil =>
        rw [hdrop] at hv
        cases hv
    | cons c rest =>
        rw [hdrop, ways_one_cons] at hv
        by_cases hc : (c == d) = true
        · obtain rfl := eq_of_beq hc
          rw [hdrop] at hsplit
          exact ⟨_, rest, hsplit.symm, hbefore, hleast⟩
        · rw [if_neg hc] at hv
          cases hv
  · cases h

theorem fullMatch_field (n : Nat) (d : α) (r : Regex α) {least : Nat} {text : List α}
    (rest : List α) (htext : d ∉ text) (hleast : least ≤ text.length) :
    fullMatch (seq (field n d least) r) (text ++ d :: rest) =
      (fullMatch r rest).map fun groups => (n, text) :: groups := by
  rw [fullMatch, ways, ways_field n d htext hleast, List.flatMap_singleton, List.find?_map,
    Option.map_map, fullMatch, Option.map_map]
  rfl

theorem fullMatch_field_eq_some {text : List α} {groups : List (Nat × List α)}
    (h : fullMatch (seq (field n d least) r) text = some groups) :
    ∃ before rest, text = before ++ d :: rest ∧ d ∉ before ∧ least ≤ before.length ∧
      ∃ others, fullMatch r rest = some others ∧ groups = (n, before) :: others := by
  have hways : ways (field n d least) text ≠ [] := by
    intro hnil
    rw [fullMatch, ways, hnil] at h
    cases h
  obtain ⟨w, hw⟩ := List.exists_mem_of_ne_nil _ hways
  obtain ⟨before, rest, rfl, hbefore, hleast⟩ := exists_field hw
  rw [fullMatch_field n d r rest hbefore hleast] at h
  obtain ⟨others, hothers, rfl⟩ := Option.map_eq_some_iff.mp h
  exact ⟨before, rest, rfl, hbefore, hleast, others, hothers, rfl⟩

end Field

theorem fullMatch_group_run (p : α → Bool) (n least : Nat) (text : List α) :
    fullMatch (group n (run p least)) text =
      if least ≤ text.length ∧ ∀ c ∈ text, p c = true then some [(n, text)] else none := by
  rw [fullMatch, find_group_run]
  split <;> rfl

end Regex

end QuantForge.Library
