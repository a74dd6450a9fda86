import Mathlib.Algebra.BigOperators.Group.List.Basic
import Mathlib.Algebra.Order.BigOperators.Group.List
import Mathlib.Data.List.AList
import Mathlib.Tactic.Abel

/-! Finite maps with distinct keys. `AList` supplies the operations; here are the
facts about the list of entries as a whole: what an insertion or an erasure does
to it, to a sum over it and to a part of it selected by key. -/
namespace QuantForge.Library

abbrev Dict (α β : Type*) := AList fun _ : α => β

namespace Dict

variable {α β γ M : Type*} [DecidableEq α]

theorem entries_perm_of_lookup {m : Dict α β} {a : α} {b : β} (h : m.lookup a = some b) :
    m.entries.Perm (⟨a, b⟩ :: (m.erase a).entries) := by
  have hmem : (⟨a, b⟩ : Sigma fun _ : α => β) ∈ m.entries :=
    (AList.mem_lookup_iff (s := m)).mp h
  have hkey : a ∈ m.entries.keys := List.mem_keys_of_mem hmem
  obtain ⟨b', left, right, -, hsplit, herase⟩ := List.exists_of_kerase hkey
  have hsame : b' = b := by
    refine m.nodupKeys.eq_of_mk_mem (a := a) ?_ hmem
    simp [hsplit]
  subst hsame
  change m.entries.Perm (⟨a, b'⟩ :: m.entries.kerase a)
  rw [hsplit, ← hsplit, herase, hsplit]
  exact List.perm_middle

theorem erase_entries_of_lookup_none {m : Dict α β} {a : α} (h : m.lookup a = none) :
    (m.erase a).entries = m.entries :=
  List.kerase_of_notMem_keys (AList.lookup_eq_none.mp h)

theorem lookup_of_mem {m : Dict α β} {a : α} {b : β}
    (h : (⟨a, b⟩ : Sigma fun _ : α => β) ∈ m.entries) : m.lookup a = some b :=
  (AList.mem_lookup_iff (s := m)).mpr h

theorem mem_of_lookup {m : Dict α β} {a : α} {b : β} (h : m.lookup a = some b) :
    (⟨a, b⟩ : Sigma fun _ : α => β) ∈ m.entries :=
  (AList.mem_lookup_iff (s := m)).mp h

theorem lookup_erase_eq_some {m : Dict α β} {a a' : α} {b : β} :
    AList.lookup a' (m.erase a) = some b ↔ a' ≠ a ∧ m.lookup a' = some b := by
  by_cases heq : a' = a
  · rw [heq, AList.lookup_erase]
    simp
  · rw [AList.lookup_erase_ne heq, and_iff_right heq]

theorem lookup_insert_eq_some {m : Dict α β} {a a' : α} {b c : β} :
    AList.lookup a' (m.insert a c) = some b ↔
      a' = a ∧ b = c ∨ a' ≠ a ∧ m.lookup a' = some b := by
  by_cases heq : a' = a
  · rw [heq, AList.lookup_insert, Option.some.injEq]
    simp [eq_comm]
  · rw [AList.lookup_insert_ne heq]
    simp [heq]

theorem lookup_insert_eq_update (m : Dict α β) (a : α) (b : β) :
    (fun a' => (m.insert a b).lookup a') = Function.update (fun a' => m.lookup a') a (some b) := by
  funext a'
  by_cases heq : a' = a
  · rw [heq, Function.update_self, AList.lookup_insert]
  · rw [Function.update_of_ne heq, AList.lookup_insert_ne heq]

theorem lookup_erase_eq_update (m : Dict α β) (a : α) :
    (fun a' => (m.erase a).lookup a') = Function.update (fun a' => m.lookup a') a none := by
  funext a'
  by_cases heq : a' = a
  · rw [heq, Function.update_self, AList.lookup_erase]
  · rw [Function.update_of_ne heq, AList.lookup_erase_ne heq]

theorem update_eq_iff_of_ne {f : α → γ} {a : α} {b c : γ} (hold : f a ≠ c) (hnew : b ≠ c)
    (a' : α) : Function.update f a b a' = c ↔ f a' = c := by
  by_cases heq : a' = a
  · rw [heq, Function.update_self]
    exact iff_of_false hnew hold
  · rw [Function.update_of_ne heq]

theorem update_none_ne_none {f : α → Option γ} {a a' : α} :
    Function.update f a none a' ≠ none ↔ a' ≠ a ∧ f a' ≠ none := by
  by_cases heq : a' = a
  · rw [heq, Function.update_self]
    simp
  · rw [Function.update_of_ne heq, and_iff_right heq]

theorem lookup_foldl_insert_of_ne {m : Dict α β} {writes : List (α × β)} {a : α}
    (h : ∀ w ∈ writes, w.1 ≠ a) :
    (writes.foldl (fun (m : Dict α β) w => m.insert w.1 w.2) m).lookup a = m.lookup a := by
  induction writes generalizing m with
  | nil => rfl
  | cons w writes ih =>
      rw [List.foldl_cons, ih fun w' hw' => h w' (List.mem_cons_of_mem _ hw'),
        AList.lookup_insert_ne (Ne.symm (h w List.mem_cons_self))]

theorem lookup_foldl_insert_of_mem {m : Dict α β} {writes : List (α × β)} {a : α} {b : β}
    (hmem : (a, b) ∈ writes) (hsame : ∀ w ∈ writes, w.1 = a → w.2 = b) :
    (writes.foldl (fun (m : Dict α β) w => m.insert w.1 w.2) m).lookup a = some b := by
  induction writes generalizing m with
  | nil => exact absurd hmem List.not_mem_nil
  | cons w writes ih =>
      have hsame' : ∀ w' ∈ writes, w'.1 = a → w'.2 = b := fun w' hw' =>
        hsame w' (List.mem_cons_of_mem _ hw')
      rw [List.foldl_cons]
      by_cases hlater : (a, b) ∈ writes
      · exact ih hlater hsame'
      · obtain rfl : (a, b) = w := (List.mem_cons.mp hmem).resolve_right hlater
        rw [lookup_foldl_insert_of_ne, AList.lookup_insert]
        intro w' hw' heq
        have hvalue := hsame' w' hw' heq
        obtain ⟨key, value⟩ := w'
        subst heq hvalue
        exact hlater hw'

def values (m : Dict α β) : List β := m.entries.map Sigma.snd

omit [DecidableEq α] in
@[simp] theorem values_length (m : Dict α β) : m.values.length = m.entries.length := by
  simp [values]

theorem mem_values {m : Dict α β} {b : β} : b ∈ m.values ↔ ∃ a, m.lookup a = some b := by
  constructor
  · intro h
    obtain ⟨⟨a, b'⟩, hmem, rfl⟩ := List.mem_map.mp h
    exact ⟨a, lookup_of_mem hmem⟩
  · rintro ⟨a, h⟩
    exact List.mem_map.mpr ⟨⟨a, b⟩, mem_of_lookup h, rfl⟩

theorem values_perm_of_lookup {m : Dict α β} {a : α} {b : β} (h : m.lookup a = some b) :
    m.values.Perm (b :: values (m.erase a)) := by
  simpa [values] using (entries_perm_of_lookup h).map Sigma.snd

theorem values_insert_of_lookup_none {m : Dict α β} {a : α} (b : β) (h : m.lookup a = none) :
    values (m.insert a b) = b :: m.values := by
  rw [values, AList.entries_insert, List.map_cons]
  exact congrArg (fun entries => b :: entries.map Sigma.snd) (erase_entries_of_lookup_none h)

theorem key_unique {m : Dict α β} (hnodup : m.values.Nodup) {a a' : α} {b : β}
    (h : m.lookup a = some b) (h' : m.lookup a' = some b) : a = a' := by
  by_contra hne
  have hleft := (values_perm_of_lookup h).nodup_iff.mp hnodup
  have hmem : b ∈ values (m.erase a) := by
    refine mem_values.mpr ⟨a', ?_⟩
    rw [AList.lookup_erase_ne (Ne.symm hne)]
    exact h'
  exact (List.nodup_cons.mp hleft).1 hmem

section Sum

variable [AddCommMonoid M]

def sumBy (f : α → β → M) (m : Dict α β) : M := (m.entries.map fun e => f e.1 e.2).sum

omit [DecidableEq α] in
@[simp] theorem sumBy_empty (f : α → β → M) : sumBy f (∅ : Dict α β) = 0 := rfl

theorem sumBy_of_lookup (f : α → β → M) {m : Dict α β} {a : α} {b : β}
    (h : m.lookup a = some b) : m.sumBy f = f a b + sumBy f (m.erase a) := by
  have hperm := (entries_perm_of_lookup h).map fun e => f e.1 e.2
  simpa [sumBy] using hperm.sum_eq

theorem sumBy_of_lookup_none (f : α → β → M) {m : Dict α β} {a : α}
    (h : m.lookup a = none) : m.sumBy f = sumBy f (m.erase a) := by
  rw [sumBy, sumBy, erase_entries_of_lookup_none h]

theorem sumBy_insert (f : α → β → M) (m : Dict α β) (a : α) (b : β) :
    sumBy f (m.insert a b) = f a b + sumBy f (m.erase a) := by
  rw [sumBy, AList.entries_insert, List.map_cons, List.sum_cons]
  rfl

theorem sumBy_insert_add_old (f : α → β → M) (m : Dict α β) (a : α) (b : β) :
    sumBy f (m.insert a b) + (m.lookup a).elim 0 (f a) = m.sumBy f + f a b := by
  cases hlookup : m.lookup a with
  | none =>
      rw [sumBy_insert, sumBy_of_lookup_none f hlookup]
      simp [add_comm]
  | some old =>
      rw [sumBy_insert, sumBy_of_lookup f hlookup]
      simp only [Option.elim_some]
      abel

theorem sumBy_congr {f g : α → β → M} {m : Dict α β}
    (h : ∀ a b, m.lookup a = some b → f a b = g a b) : m.sumBy f = m.sumBy g := by
  rw [sumBy, sumBy]
  congr 1
  apply List.map_congr_left
  intro e he
  exact h e.1 e.2 (lookup_of_mem he)

theorem sumBy_nonneg [PartialOrder M] [IsOrderedAddMonoid M] {f : α → β → M} {m : Dict α β}
    (h : ∀ a b, m.lookup a = some b → 0 ≤ f a b) : 0 ≤ m.sumBy f := by
  refine List.sum_nonneg fun x hx => ?_
  obtain ⟨e, he, rfl⟩ := List.mem_map.mp hx
  exact h e.1 e.2 (lookup_of_mem he)

end Sum

section Select

variable (p : α → Bool)

def select (m : Dict α β) : List (Sigma fun _ : α => β) := m.entries.filter fun e => p e.1

private theorem filter_kerase_pos {a : α} (ha : p a = true)
    (entries : List (Sigma fun _ : α => β)) :
    (entries.kerase a).filter (fun e => p e.1) =
      (entries.filter fun e => p e.1).kerase a := by
  induction entries with
  | nil => rfl
  | cons e entries ih =>
      by_cases heq : a = e.1
      · have hp : p e.1 = true := heq ▸ ha
        rw [List.kerase_cons_eq heq, List.filter_cons_of_pos (by exact hp), List.kerase_cons_eq heq]
      · rw [List.kerase_cons_ne heq]
        cases hp : p e.1 with
        | false => rw [List.filter_cons_of_neg (by simp [hp]),
            List.filter_cons_of_neg (by simp [hp]), ih]
        | true => rw [List.filter_cons_of_pos (by exact hp), List.filter_cons_of_pos (by exact hp),
            List.kerase_cons_ne heq, ih]

private theorem filter_kerase_neg {a : α} (ha : p a = false)
    (entries : List (Sigma fun _ : α => β)) :
    (entries.kerase a).filter (fun e => p e.1) = entries.filter fun e => p e.1 := by
  induction entries with
  | nil => rfl
  | cons e entries ih =>
      by_cases heq : a = e.1
      · have hp : p e.1 = false := heq ▸ ha
        rw [List.kerase_cons_eq heq, List.filter_cons_of_neg (by simp [hp])]
      · rw [List.kerase_cons_ne heq, List.filter_cons, List.filter_cons, ih]

theorem select_insert_pos {m : Dict α β} {a : α} (b : β) (ha : p a = true) :
    select p (m.insert a b) = (select p m).kinsert a b := by
  rw [select, AList.entries_insert, List.filter_cons_of_pos (by exact ha), filter_kerase_pos p ha]
  rfl

theorem select_insert_neg {m : Dict α β} {a : α} (b : β) (ha : p a = false) :
    select p (m.insert a b) = select p m := by
  rw [select, AList.entries_insert, List.filter_cons_of_neg (by simp [ha]),
    filter_kerase_neg p ha]
  rfl

theorem dlookup_select {m : Dict α β} {a : α} (ha : p a = true) :
    (select p m).dlookup a = m.lookup a := by
  change (m.entries.filter fun e => p e.1).dlookup a = m.entries.dlookup a
  induction m.entries with
  | nil => rfl
  | cons e entries ih =>
      by_cases heq : a = e.1
      · obtain ⟨key, value⟩ := e
        subst heq
        rw [List.filter_cons_of_pos (by exact ha), List.dlookup_cons_eq, List.dlookup_cons_eq]
      · rw [List.dlookup_cons_ne _ _ heq]
        cases hp : p e.1 with
        | false => rw [List.filter_cons_of_neg (by simp [hp]), ih]
        | true => rw [List.filter_cons_of_pos (by exact hp), List.dlookup_cons_ne _ _ heq, ih]

omit p in
theorem select_key (m : Dict α β) (a : α) :
    select (fun a' => decide (a' = a)) m = ((m.lookup a).map fun b => ⟨a, b⟩).toList := by
  cases hlookup : m.lookup a with
  | none =>
      refine List.filter_eq_nil_iff.mpr fun e he hkey => ?_
      have hstored := lookup_of_mem (m := m) (a := e.1) (b := e.2) he
      rw [of_decide_eq_true hkey, hlookup] at hstored
      simp at hstored
  | some b =>
      have hrest : (m.erase a).entries.filter (fun e => decide (e.1 = a)) = [] := by
        refine List.filter_eq_nil_iff.mpr fun e he hkey => ?_
        have hstored := lookup_of_mem (m := m.erase a) (a := e.1) (b := e.2) he
        rw [of_decide_eq_true hkey, AList.lookup_erase] at hstored
        simp at hstored
      have hperm := (entries_perm_of_lookup hlookup).filter fun e => decide (e.1 = a)
      rw [List.filter_cons_of_pos (by simp), hrest] at hperm
      exact List.perm_singleton.mp hperm

end Select

end Dict

end QuantForge.Library
