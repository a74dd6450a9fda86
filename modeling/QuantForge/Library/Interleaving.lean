import Mathlib.Data.Fintype.Defs
import Mathlib.Logic.Function.Basic
import QuantForge.Library.Run

/-! Threads that share a state. A thread takes one step at a time on the shared state
and its own; the others only see what the step leaves in the shared state. An
invariant has a part about the shared state, a part about each thread and a part
about each two threads, and it is enough to look at one step and one bystander. -/
namespace QuantForge.Library.Interleaving

structure State (Thread σ τ : Type*) where
  shared : σ
  own : Thread → τ

variable {Thread σ τ ε : Type*} [DecidableEq Thread]

/-- Thread `e.1` takes its next step, with the input `e.2`. -/
def step (next : σ → τ → ε → σ × τ) (s : State Thread σ τ) (e : Thread × ε) :
    State Thread σ τ where
  shared := (next s.shared (s.own e.1) e.2).1
  own := Function.update s.own e.1 (next s.shared (s.own e.1) e.2).2

theorem step_own_self (next : σ → τ → ε → σ × τ) (s : State Thread σ τ) (t : Thread) (input : ε) :
    (step next s (t, input)).own t = (next s.shared (s.own t) input).2 :=
  Function.update_self ..

def Guarded (ok : σ → τ → ε → τ → Prop) (s : State Thread σ τ) (e : Thread × ε) : Prop :=
  ∀ other, other ≠ e.1 → ok s.shared (s.own e.1) e.2 (s.own other)

instance decidableGuarded [Fintype Thread] (ok : σ → τ → ε → τ → Prop)
    [∀ s l e other, Decidable (ok s l e other)] (s : State Thread σ τ) (e : Thread × ε) :
    Decidable (Guarded ok s e) :=
  inferInstanceAs (Decidable (∀ other, other ≠ e.1 → _))

structure Consistent (inv : σ → Prop) (view : σ → τ → Prop) (apart : τ → τ → Prop)
    (s : State Thread σ τ) : Prop where
  shared : inv s.shared
  own : ∀ t, view s.shared (s.own t)
  pair : ∀ t t', t ≠ t' → apart (s.own t) (s.own t')

/-- What one step keeps for the thread that takes it and for a bystander. -/
structure Preserved (next : σ → τ → ε → σ × τ) (ok : σ → τ → ε → τ → Prop)
    (inv : σ → Prop) (view : σ → τ → Prop) (apart : τ → τ → Prop) : Prop where
  symm : ∀ l l', apart l l' → apart l' l
  shared : ∀ s l e, inv s → view s l → inv (next s l e).1
  own : ∀ s l e, inv s → view s l → view (next s l e).1 (next s l e).2
  bystander : ∀ s l e other, inv s → view s l → view s other → apart l other →
    ok s l e other → view (next s l e).1 other ∧ apart (next s l e).2 other

structure PreservedWhile (next : σ → τ → ε → σ × τ) (fits : σ → τ → ε → Prop)
    (ok : σ → τ → ε → τ → Prop) (inv : σ → Prop) (view : σ → τ → Prop)
    (apart : τ → τ → Prop) : Prop where
  symm : ∀ l l', apart l l' → apart l' l
  shared : ∀ s l e, inv s → view s l → fits s l e → inv (next s l e).1
  own : ∀ s l e, inv s → view s l → fits s l e → view (next s l e).1 (next s l e).2
  bystander : ∀ s l e other, inv s → view s l → view s other → apart l other →
    fits s l e → ok s l e other → view (next s l e).1 other ∧ apart (next s l e).2 other

/-- A condition on the stepping thread, and one on it and each of the others. -/
def GuardedWhile (fits : σ → τ → ε → Prop) (ok : σ → τ → ε → τ → Prop)
    (s : State Thread σ τ) (e : Thread × ε) : Prop :=
  fits s.shared (s.own e.1) e.2 ∧ Guarded ok s e

instance decidableGuardedWhile [Fintype Thread] (fits : σ → τ → ε → Prop)
    (ok : σ → τ → ε → τ → Prop) [∀ s l e, Decidable (fits s l e)]
    [∀ s l e other, Decidable (ok s l e other)] (s : State Thread σ τ) (e : Thread × ε) :
    Decidable (GuardedWhile fits ok s e) :=
  inferInstanceAs (Decidable (_ ∧ _))

variable {next : σ → τ → ε → σ × τ} {fits : σ → τ → ε → Prop} {ok : σ → τ → ε → τ → Prop}
  {inv : σ → Prop} {view : σ → τ → Prop} {apart : τ → τ → Prop}

theorem consistent_stepWhile (hkeep : PreservedWhile next fits ok inv view apart)
    {s : State Thread σ τ} (h : Consistent inv view apart s) {e : Thread × ε}
    (hok : GuardedWhile fits ok s e) : Consistent inv view apart (step next s e) := by
  obtain ⟨t, input⟩ := e
  have hfits := hok.1
  have hother : ∀ other, other ≠ t →
      view (next s.shared (s.own t) input).1 (s.own other) ∧
        apart (next s.shared (s.own t) input).2 (s.own other) := fun other hne =>
    hkeep.bystander s.shared (s.own t) input (s.own other) h.shared (h.own t) (h.own other)
      (h.pair t other hne.symm) hfits (hok.2 other hne)
  refine ⟨hkeep.shared _ _ _ h.shared (h.own t) hfits, fun u => ?_, fun u v huv => ?_⟩
  · by_cases hu : u = t
    · subst hu
      simpa [step] using hkeep.own _ _ input h.shared (h.own u) hfits
    · simpa [step, Function.update_of_ne hu] using (hother u hu).1
  · by_cases hu : u = t
    · subst hu
      simpa [step, Function.update_of_ne huv.symm] using (hother v huv.symm).2
    · by_cases hv : v = t
      · subst hv
        simpa [step, Function.update_of_ne hu] using hkeep.symm _ _ (hother u hu).2
      · simpa [step, Function.update_of_ne hu, Function.update_of_ne hv] using h.pair u v huv

theorem Preserved.preservedWhile (hkeep : Preserved next ok inv view apart) :
    PreservedWhile next (fun _ _ _ => True) ok inv view apart where
  symm := hkeep.symm
  shared := fun s l e hs hl _ => hkeep.shared s l e hs hl
  own := fun s l e hs hl _ => hkeep.own s l e hs hl
  bystander := fun s l e other hs hl hother hapart _ hok =>
    hkeep.bystander s l e other hs hl hother hapart hok

theorem consistent_step (hkeep : Preserved next ok inv view apart) {s : State Thread σ τ}
    (h : Consistent inv view apart s) {e : Thread × ε} (hok : Guarded ok s e) :
    Consistent inv view apart (step next s e) :=
  consistent_stepWhile hkeep.preservedWhile h ⟨trivial, hok⟩

section Refines

variable {σ' τ' ε' : Type*} {next' : σ' → τ' → ε' → σ' × τ'} (f : σ' → σ) (g : τ' → τ)
  (input : τ' → ε' → Option ε)

/-- A finer thread whose steps are steps of the coarser one or not seen by it. -/
structure Refines (next : σ → τ → ε → σ × τ) (next' : σ' → τ' → ε' → σ' × τ') : Prop where
  seen : ∀ s l e e', input l e = some e' →
    f (next' s l e).1 = (next (f s) (g l) e').1 ∧ g (next' s l e).2 = (next (f s) (g l) e').2
  unseen : ∀ s l e, input l e = none → f (next' s l e).1 = f s ∧ g (next' s l e).2 = g l

variable {f g input}

theorem PreservedWhile.refined (hkeep : PreservedWhile next fits ok inv view apart)
    (href : Refines f g input next next') :
    PreservedWhile next' (fun s l e => ∀ e' ∈ input l e, fits (f s) (g l) e')
      (fun s l e other => ∀ e' ∈ input l e, ok (f s) (g l) e' (g other))
      (fun s => inv (f s)) (fun s l => view (f s) (g l)) (fun l l' => apart (g l) (g l')) where
  symm := fun l l' => hkeep.symm (g l) (g l')
  shared := by
    intro s l e hinv hview hfits
    cases hinput : input l e with
    | none => rwa [(href.unseen s l e hinput).1]
    | some e' =>
        rw [(href.seen s l e e' hinput).1]
        exact hkeep.shared _ _ _ hinv hview (hfits e' hinput)
  own := by
    intro s l e hinv hview hfits
    cases hinput : input l e with
    | none => rwa [(href.unseen s l e hinput).1, (href.unseen s l e hinput).2]
    | some e' =>
        rw [(href.seen s l e e' hinput).1, (href.seen s l e e' hinput).2]
        exact hkeep.own _ _ _ hinv hview (hfits e' hinput)
  bystander := by
    intro s l e other hinv hview hother hapart hfits hok
    cases hinput : input l e with
    | none =>
        rw [(href.unseen s l e hinput).1, (href.unseen s l e hinput).2]
        exact ⟨hother, hapart⟩
    | some e' =>
        rw [(href.seen s l e e' hinput).1, (href.seen s l e e' hinput).2]
        exact hkeep.bystander _ _ _ _ hinv hview hother hapart (hfits e' hinput) (hok e' hinput)

end Refines

theorem always_consistent (hkeep : Preserved next ok inv view apart) {s : State Thread σ τ}
    (h : Consistent inv view apart s) {events : List (Thread × ε)}
    (hok : Run.Along (step next) (Guarded ok) s events) :
    Run.Always (step next) (Consistent inv view apart) s events :=
  Run.always_of_along (Consistent inv view apart)
    (fun _ _ hs he => consistent_step hkeep hs he) h hok

end QuantForge.Library.Interleaving
