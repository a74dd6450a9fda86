import Mathlib.Data.List.Basic

/-! Machines with outputs: a step takes an input and emits a list. A machine whose visible part
is another machine emits, of what is visible, exactly what that one emits. -/
namespace QuantForge.Library.Machine

variable {σ τ α β : Type*}

def emit (step : σ → α → σ × List β) : List α → σ → σ × List β
  | [], s => (s, [])
  | a :: rest, s =>
      let next := emit step rest (step s a).1
      (next.1, (step s a).2 ++ next.2)

variable {step : σ → α → σ × List β}

theorem emit_append (left right : List α) (s : σ) :
    emit step (left ++ right) s =
      ((emit step right (emit step left s).1).1,
        (emit step left s).2 ++ (emit step right (emit step left s).1).2) := by
  induction left generalizing s with
  | nil => rfl
  | cons a left ih => simp [emit, ih]

theorem emit_congr {step' : σ → α → σ × List β} {items : List α}
    (h : ∀ a ∈ items, ∀ s, step s a = step' s a) (s : σ) :
    emit step items s = emit step' items s := by
  induction items generalizing s with
  | nil => rfl
  | cons a items ih =>
      rw [emit, emit, h a List.mem_cons_self, ih fun b hb => h b (List.mem_cons_of_mem _ hb)]

theorem emit_filter (acts : α → Bool) (hidle : ∀ s a, acts a = false → step s a = (s, []))
    (items : List α) (s : σ) : emit step items s = emit step (items.filter acts) s := by
  induction items generalizing s with
  | nil => rfl
  | cons a items ih =>
      cases hacts : acts a with
      | false =>
          rw [List.filter_cons_of_neg (by simp [hacts]), emit, hidle s a hacts, ih]
          rfl
      | true => rw [List.filter_cons_of_pos hacts, emit, emit, ih]

theorem emit_view {step' : τ → α → τ × List β} (view : σ → τ) (visible : β → Bool)
    (inv : σ → Prop) {items : List α}
    (hstep : ∀ a ∈ items, ∀ s, inv s → inv (step s a).1 ∧
      view (step s a).1 = (step' (view s) a).1 ∧
      (step s a).2.filter visible = (step' (view s) a).2)
    {s : σ} (hs : inv s) :
    inv (emit step items s).1 ∧ view (emit step items s).1 = (emit step' items (view s)).1 ∧
      (emit step items s).2.filter visible = (emit step' items (view s)).2 := by
  induction items generalizing s with
  | nil => exact ⟨hs, rfl, rfl⟩
  | cons a items ih =>
      obtain ⟨hinv, hview, hvisible⟩ := hstep a List.mem_cons_self s hs
      obtain ⟨hinv', hview', hvisible'⟩ :=
        ih (fun b hb => hstep b (List.mem_cons_of_mem _ hb)) hinv
      rw [hview] at hview' hvisible'
      refine ⟨hinv', hview', ?_⟩
      simp only [emit, List.filter_append, hvisible, hvisible']

end QuantForge.Library.Machine
