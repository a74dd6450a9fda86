import Mathlib.Data.List.Basic

/-! Runs of a deterministic step function. An invariant is proved for one step
and carried along every run here; the last lemma turns an exact one-step
condition into an exact condition on runs. -/
namespace QuantForge.Library.Run

variable {σ ε : Type*} (step : σ → ε → σ)

def run (s : σ) (events : List ε) : σ := events.foldl step s

/-- Every state of the run satisfies `P`, the first and the last included. -/
def Always (P : σ → Prop) : σ → List ε → Prop
  | s, [] => P s
  | s, e :: events => P s ∧ Always P (step s e) events

/-- Every event of the run meets `guard` in the state that it is applied to. -/
def Along (guard : σ → ε → Prop) : σ → List ε → Prop
  | _, [] => True
  | s, e :: events => guard s e ∧ Along guard (step s e) events

instance decidableAlong (guard : σ → ε → Prop) [∀ s e, Decidable (guard s e)] :
    ∀ s events, Decidable (Along step guard s events)
  | _, [] => inferInstanceAs (Decidable True)
  | s, e :: events =>
      have := decidableAlong guard (step s e) events
      inferInstanceAs (Decidable (_ ∧ _))

@[simp] theorem run_nil (s : σ) : run step s [] = s := rfl

@[simp] theorem run_cons (s : σ) (e : ε) (events : List ε) :
    run step s (e :: events) = run step (step s e) events := rfl

theorem run_append (s : σ) (left right : List ε) :
    run step s (left ++ right) = run step (run step s left) right :=
  List.foldl_append

theorem always_iff_take (P : σ → Prop) (s : σ) (events : List ε) :
    Always step P s events ↔ ∀ k, P (run step s (events.take k)) := by
  induction events generalizing s with
  | nil => simp [Always]
  | cons e events ih =>
      rw [Always, ih]
      constructor
      · rintro ⟨hs, htail⟩ k
        cases k with
        | zero => exact hs
        | succ k => exact htail k
      · intro h
        exact ⟨h 0, fun k => h (k + 1)⟩

theorem along_of_forall (ok : ε → Prop) {guard : σ → ε → Prop} (himp : ∀ s e, ok e → guard s e)
    (s : σ) {events : List ε} (h : ∀ e ∈ events, ok e) : Along step guard s events := by
  induction events generalizing s with
  | nil => trivial
  | cons e events ih =>
      exact ⟨himp s e (h e (by simp)), ih _ (fun e he => h e (by simp [he]))⟩

variable {step}

theorem along_append {guard : σ → ε → Prop} {s : σ} {left right : List ε} :
    Along step guard s (left ++ right) ↔
      Along step guard s left ∧ Along step guard (run step s left) right := by
  induction left generalizing s with
  | nil => exact (iff_of_eq (true_and _)).symm
  | cons e left ih => exact (and_congr_right fun _ => ih).trans and_assoc.symm

theorem Along.and {guard guard' : σ → ε → Prop} {s : σ} {events : List ε}
    (h : Along step guard s events) (h' : Along step guard' s events) :
    Along step (fun s e => guard s e ∧ guard' s e) s events := by
  induction events generalizing s with
  | nil => trivial
  | cons e events ih => exact ⟨⟨h.1, h'.1⟩, ih h.2 h'.2⟩

theorem run_invariant (inv : σ → Prop) (hstep : ∀ s e, inv s → inv (step s e))
    {s : σ} (hs : inv s) (events : List ε) : inv (run step s events) := by
  induction events generalizing s with
  | nil => exact hs
  | cons e events ih => exact ih (hstep s e hs)

/-- An invariant of the steps that meet `guard` holds throughout a run of such steps. -/
theorem always_of_along (inv : σ → Prop) {guard : σ → ε → Prop}
    (hstep : ∀ s e, inv s → guard s e → inv (step s e))
    {s : σ} {events : List ε} (hs : inv s) (h : Along step guard s events) :
    Always step inv s events := by
  induction events generalizing s with
  | nil => exact hs
  | cons e events ih => exact ⟨hs, ih (hstep s e hs h.1) h.2⟩

theorem along_of_along (inv : σ → Prop) {guard result : σ → ε → Prop}
    (hstep : ∀ s e, inv s → guard s e → inv (step s e) ∧ result s e)
    {s : σ} {events : List ε} (hs : inv s) (h : Along step guard s events) :
    Along step result s events := by
  induction events generalizing s with
  | nil => trivial
  | cons e events ih =>
      obtain ⟨hnext, hresult⟩ := hstep s e hs h.1
      exact ⟨hresult, ih hnext h.2⟩

theorem run_lastSet {α : Type*} (part : σ → α) (set : ε → Option α)
    (hstep : ∀ s e, part (step s e) = (set e).getD (part s)) (s : σ) (events : List ε) :
    part (run step s events) = (events.filterMap set).getLast?.getD (part s) := by
  induction events generalizing s with
  | nil => rfl
  | cons e events ih =>
      rw [run_cons, ih, hstep, List.filterMap_cons]
      cases set e with
      | none => rfl
      | some value => rw [List.getLast?_cons]; rfl

def settings {α : Type*} (step : σ → ε → σ) (set : σ → ε → Option α) : σ → List ε → List α
  | _, [] => []
  | s, e :: events => (set s e).toList ++ settings step set (step s e) events

theorem settings_append {α : Type*} (set : σ → ε → Option α) (s : σ) (left right : List ε) :
    settings step set s (left ++ right) =
      settings step set s left ++ settings step set (run step s left) right := by
  induction left generalizing s with
  | nil => rfl
  | cons e left ih =>
      rw [List.cons_append, settings, ih, settings, List.append_assoc]
      rfl

theorem run_logged {α : Type*} (log : σ → List α) (set : σ → ε → Option α) (inv : σ → Prop)
    (hinv : ∀ s e, inv s → inv (step s e))
    (hstep : ∀ s e, inv s → log (step s e) = (set s e).toList ++ log s) {s : σ} (hs : inv s)
    (events : List ε) :
    log (run step s events) = (settings step set s events).reverse ++ log s := by
  induction events generalizing s with
  | nil => rfl
  | cons e events ih =>
      rw [run_cons, ih (hinv s e hs), hstep s e hs, settings, List.reverse_append,
        List.append_assoc]
      cases set s e <;> rfl

theorem run_lastSetting {α : Type*} (part : σ → α) (set : σ → ε → Option α) (inv : σ → Prop)
    {ok : ε → Prop} (hinv : ∀ s e, inv s → ok e → inv (step s e))
    (hstep : ∀ s e, inv s → ok e → part (step s e) = (set s e).getD (part s))
    {s : σ} {events : List ε} (hs : inv s) (hok : ∀ e ∈ events, ok e) :
    part (run step s events) = (settings step set s events).getLast?.getD (part s) := by
  induction events generalizing s with
  | nil => rfl
  | cons e events ih =>
      have he : ok e := hok e (by simp)
      rw [run_cons, ih (hinv s e hs he) fun e he => hok e (by simp [he]), hstep s e hs he, settings]
      cases set s e with
      | none => rfl
      | some value =>
          rw [Option.toList_some, List.singleton_append, List.getLast?_cons]
          rfl

theorem settings_spaced (part : σ → Nat) (set : σ → ε → Option Nat) (gap : Nat)
    {guard : σ → ε → Prop} (hpart : ∀ s e, part (step s e) = (set s e).getD (part s))
    (hset : ∀ s e v, guard s e → set s e = some v → part s + gap ≤ v) {s : σ} {events : List ε}
    (h : Along step guard s events) :
    (∀ v ∈ settings step set s events, part s + gap ≤ v) ∧
      (settings step set s events).Pairwise (· + gap ≤ ·) := by
  induction events generalizing s with
  | nil => exact ⟨List.forall_mem_nil _, List.Pairwise.nil⟩
  | cons e events ih =>
      obtain ⟨hrest, hpairs⟩ := ih h.2
      rw [hpart] at hrest
      rw [settings]
      cases hvalue : set s e with
      | none =>
          rw [hvalue] at hrest
          exact ⟨hrest, hpairs⟩
      | some value =>
          rw [hvalue] at hrest
          have hfirst := hset s e value h.1 hvalue
          refine ⟨List.forall_mem_cons.mpr ⟨hfirst, fun v hv => ?_⟩,
            List.pairwise_cons.mpr ⟨hrest, hpairs⟩⟩
          have := hrest v hv
          simp only [Option.getD_some] at this
          omega

/-- Conditions that agree on every step that an invariant admits agree along every run. -/
theorem along_iff_along (inv : σ → Prop) {result guard : σ → ε → Prop}
    (hinv : ∀ s e, inv s → guard s e → inv (step s e))
    (hstep : ∀ s e, inv s → (result s e ↔ guard s e))
    {s : σ} {events : List ε} (hs : inv s) :
    Along step result s events ↔ Along step guard s events := by
  induction events generalizing s with
  | nil => exact Iff.rfl
  | cons e events ih =>
      exact (and_congr_left' (hstep s e hs)).trans
        (and_congr_right fun hguard => ih (hinv s e hs hguard))

theorem Always.imp {P Q : σ → Prop} (himp : ∀ s, P s → Q s) {s : σ} {events : List ε}
    (h : Always step P s events) : Always step Q s events := by
  induction events generalizing s with
  | nil => exact himp s h
  | cons e events ih => exact ⟨himp s h.1, ih h.2⟩

theorem Always.last {P : σ → Prop} {s : σ} {events : List ε} (h : Always step P s events) :
    P (run step s events) := by
  induction events generalizing s with
  | nil => exact h
  | cons e events ih => exact ih h.2

theorem run_of_along (inv : σ → Prop) {guard : σ → ε → Prop}
    (hstep : ∀ s e, inv s → guard s e → inv (step s e))
    {s : σ} {events : List ε} (hs : inv s) (h : Along step guard s events) :
    inv (run step s events) :=
  (always_of_along inv hstep hs h).last

theorem run_of_forall (inv : σ → Prop) {ok : ε → Prop}
    (hstep : ∀ s e, inv s → ok e → inv (step s e))
    {s : σ} {events : List ε} (hs : inv s) (h : ∀ e ∈ events, ok e) :
    inv (run step s events) :=
  run_of_along inv hstep hs (along_of_forall step ok (fun _ _ he => he) s h)

theorem Always.head {P : σ → Prop} {s : σ} {events : List ε} (h : Always step P s events) :
    P s := by
  cases events with
  | nil => exact h
  | cons _ _ => exact h.1

/-- When `guard` is exactly what one step needs to keep `P`, it is exactly what a
run needs to keep `P` in all its states. `inv` is the well-formedness that the
argument for one step relies on, `ok` what is assumed of every event. -/
theorem always_iff_along (inv : σ → Prop) (ok : σ → ε → Prop) {P : σ → Prop}
    {guard : σ → ε → Prop}
    (hinv : ∀ s e, inv s → ok s e → guard s e → inv (step s e))
    (hstep : ∀ s e, inv s → P s → ok s e → (P (step s e) ↔ guard s e))
    {s : σ} {events : List ε} (hok : Along step ok s events) (hs : inv s) (hP : P s) :
    Always step P s events ↔ Along step guard s events := by
  induction events generalizing s with
  | nil => exact ⟨fun _ => trivial, fun _ => hP⟩
  | cons e events ih =>
      have hnext := fun hguard => ih hok.2 (hinv s e hs hok.1 hguard)
      constructor
      · rintro ⟨-, htail⟩
        have hPe := htail.head
        have hguard := (hstep s e hs hP hok.1).mp hPe
        exact ⟨hguard, (hnext hguard hPe).mp htail⟩
      · rintro ⟨hguard, htail⟩
        have hPe := (hstep s e hs hP hok.1).mpr hguard
        exact ⟨hP, (hnext hguard hPe).mpr htail⟩

end QuantForge.Library.Run
