import Mathlib.Data.List.Chain
import QuantForge.Library.Interleaving
import QuantForge.Oms.OrderStateMachine

/-! Any number of threads that call `transition` of one `OrderStateMachine`. The load of the
status and the compare-and-swap are steps of their own, so that other calls come between. -/
namespace QuantForge

open Library

/-- A call that returned `false`: the status that it loaded, the one that it was to set, and the
one that it found when it gave up. -/
structure RefusedTransition where
  loaded : OrderStatus
  target : OrderStatus
  found : OrderStatus
  deriving DecidableEq

/-- `path` lists the statuses held so far, the latest first. -/
structure SharedStatus where
  status : OrderStatus
  path : List OrderStatus
  applied : Nat := 0
  refused : List RefusedTransition := []
  deriving DecidableEq

/-- A thread is between two calls, or it has loaded a status from which its target is legal. -/
inductive TransitionCall where
  | idle
  | swap (loaded target : OrderStatus)
  deriving DecidableEq

namespace StateMachineThreads

open OrderStateMachine

def init (Thread : Type*) (initial : OrderStatus) :
    Interleaving.State Thread SharedStatus TransitionCall where
  shared := { status := initial, path := [initial] }
  own := fun _ => .idle

def next (s : SharedStatus) (call : TransitionCall) (input : OrderStatus) :
    SharedStatus × TransitionCall :=
  match call with
  | .idle =>
      if isLegal s.status input then (s, .swap s.status input)
      else ({ s with refused := ⟨s.status, input, s.status⟩ :: s.refused }, .idle)
  | .swap loaded target =>
      if s.status = loaded then
        ({ s with status := target, path := target :: s.path, applied := s.applied + 1 }, .idle)
      else ({ s with refused := ⟨loaded, target, s.status⟩ :: s.refused }, .idle)

/-- A legal edge leads to a status of a higher rank. -/
def rank : OrderStatus → Nat
  | .pending => 0
  | .triggerPending => 1
  | .opened => 2
  | .partlyFilled => 3
  | .complete => 4
  | .cancelled => 4
  | .rejected => 4

theorem rank_le (status : OrderStatus) : rank status ≤ 4 := by
  cases status <;> decide

theorem rank_lt_of_isLegal {status target : OrderStatus} (h : isLegal status target = true) :
    rank status < rank target := by
  cases status <;> cases target <;> first | decide | exact absurd h (by decide)

def terminal (status : OrderStatus) : Bool := isTerminal { status := status }

structure Sound (initial : OrderStatus) (s : SharedStatus) : Prop where
  current : s.path.head? = some s.status
  first : s.path.getLast? = some initial
  legal : s.path.IsChain fun later earlier => isLegal earlier later = true
  applied : s.applied + 1 = s.path.length
  refused : ∀ r ∈ s.refused, isLegal r.loaded r.target = true → rank r.loaded < rank r.found

def Behind (s : SharedStatus) : TransitionCall → Prop
  | .idle => True
  | .swap loaded target => isLegal loaded target = true ∧
      (loaded = s.status ∨ rank loaded < rank s.status)

section Steps

variable {initial : OrderStatus} {s : SharedStatus} {call : TransitionCall}

theorem sound_init (initial : OrderStatus) :
    Sound initial { status := initial, path := [initial] } where
  current := rfl
  first := rfl
  legal := List.isChain_singleton _
  applied := rfl
  refused := List.forall_mem_nil _

theorem sound_refuse (h : Sound initial s) {r : RefusedTransition}
    (hr : isLegal r.loaded r.target = true → rank r.loaded < rank r.found) :
    Sound initial { s with refused := r :: s.refused } :=
  ⟨h.current, h.first, h.legal, h.applied, List.forall_mem_cons.mpr ⟨hr, h.refused⟩⟩

theorem sound_apply (h : Sound initial s) {target : OrderStatus}
    (hlegal : isLegal s.status target = true) :
    Sound initial
      { s with status := target, path := target :: s.path, applied := s.applied + 1 } := by
  obtain ⟨hcurrent, hfirst, hchain, happlied, hrefused⟩ := h
  cases hpath : s.path with
  | nil => simp [hpath] at hcurrent
  | cons status rest =>
      rw [hpath] at hcurrent hfirst hchain happlied
      obtain rfl : status = s.status := by simpa using hcurrent
      refine ⟨rfl, ?_, hchain.cons_cons hlegal, ?_, hrefused⟩
      · rwa [List.getLast?_cons_cons]
      · simp [happlied]

theorem sound_next (h : Sound initial s) (hcall : Behind s call) (input : OrderStatus) :
    Sound initial (next s call input).1 := by
  cases call with
  | idle =>
      simp only [next]
      split
      · exact h
      · rename_i hillegal
        exact sound_refuse h fun hlegal => absurd hlegal hillegal
  | swap loaded target =>
      simp only [next]
      split
      · rename_i heq
        exact sound_apply h (heq ▸ hcall.1)
      · rename_i hne
        exact sound_refuse h fun _ => hcall.2.resolve_left (Ne.symm hne)

theorem status_swap {target : OrderStatus} (hlegal : isLegal s.status target = true)
    (input : OrderStatus) : (next s (.swap s.status target) input).1.status =
      (transition { status := s.status } target).2.current := by
  rw [transition_current]
  simp only [next, current, if_true]
  exact (if_pos hlegal).symm

theorem behind_next (s : SharedStatus) (call : TransitionCall) (input : OrderStatus) :
    Behind (next s call input).1 (next s call input).2 := by
  cases call with
  | idle =>
      simp only [next]
      split
      · rename_i hlegal
        exact ⟨hlegal, .inl rfl⟩
      · trivial
  | swap loaded target =>
      simp only [next]
      split <;> trivial

theorem behind_of_next (hcall : Behind s call) (input : OrderStatus) {other : TransitionCall}
    (hother : Behind s other) : Behind (next s call input).1 other := by
  cases other with
  | idle => trivial
  | swap loaded target =>
      refine ⟨hother.1, ?_⟩
      cases call with
      | idle =>
          simp only [next]
          split <;> exact hother.2
      | swap loaded' target' =>
          simp only [next]
          split
          · rename_i heq
            have hup : rank s.status < rank target' := rank_lt_of_isLegal (heq ▸ hcall.1)
            obtain rfl | hbelow := hother.2
            · exact .inr hup
            · exact .inr (hbelow.trans hup)
          · exact hother.2

end Steps

section Path

variable {initial : OrderStatus} {s : SharedStatus}

private theorem rank_pairwise (h : Sound initial s) :
    s.path.Pairwise fun later earlier => rank earlier < rank later :=
  (h.legal.imp fun _ _ hlegal => rank_lt_of_isLegal hlegal).pairwise

theorem length_le_of_rank {path : List OrderStatus} {bound : Nat}
    (hpath : path.Pairwise fun later earlier => rank earlier < rank later)
    (hbound : ∀ status ∈ path, rank status ≤ bound) : path.length ≤ bound + 1 := by
  induction path generalizing bound with
  | nil => exact Nat.zero_le _
  | cons status rest ih =>
      obtain ⟨hstatus, hrest⟩ := List.pairwise_cons.mp hpath
      cases rest with
      | nil => simp
      | cons other rest =>
          have hlast : 0 < rank status := (Nat.zero_le _).trans_lt (hstatus other (by simp))
          have hle := hbound status (by simp)
          have hbefore : ∀ earlier ∈ other :: rest, rank earlier ≤ rank status - 1 := by
            intro earlier hmem
            have := hstatus earlier hmem
            omega
          have hlength := ih hrest hbefore
          simp only [List.length_cons] at hlength ⊢
          omega

theorem nodup_path (h : Sound initial s) : s.path.Nodup :=
  (rank_pairwise h).imp fun hlt heq => absurd (heq ▸ hlt) (lt_irrefl _)

theorem applied_le (h : Sound initial s) : s.applied ≤ 4 := by
  have hlength := length_le_of_rank (rank_pairwise h) fun status _ => rank_le status
  have := h.applied
  omega

theorem not_terminal_of_left (h : Sound initial s) {status : OrderStatus}
    (hmem : status ∈ s.path.tail) : terminal status = false := by
  obtain ⟨later, -, hlegal⟩ : ∃ later ∈ s.path, isLegal status later = true := by
    have hchain := h.legal
    generalize s.path = path at hmem hchain
    induction path with
    | nil => simp at hmem
    | cons later rest ih =>
        cases rest with
        | nil => simp at hmem
        | cons earlier rest =>
            obtain ⟨hlegal, hrest⟩ := List.isChain_cons_cons.mp hchain
            obtain rfl | hmem := List.mem_cons.mp hmem
            · exact ⟨later, by simp, hlegal⟩
            · obtain ⟨found, hfound, hedge⟩ := ih hmem hrest
              exact ⟨found, List.mem_cons_of_mem _ hfound, hedge⟩
  by_contra hterminal
  have hterminal' := not_isLegal_of_isTerminal (Bool.eq_true_of_not_eq_false hterminal) later
  simp [current, hlegal] at hterminal'

end Path

variable {Thread : Type*} [DecidableEq Thread]

theorem preserved (initial : OrderStatus) :
    Interleaving.Preserved next (fun _ _ _ _ => True) (Sound initial) Behind
      (fun _ _ => True) where
  symm := fun _ _ h => h
  shared := fun _ _ input hinv hcall => sound_next hinv hcall input
  own := fun s call input _ _ => behind_next s call input
  bystander := fun _ _ input _ _ hcall hother _ _ => ⟨behind_of_next hcall input hother, trivial⟩

/-- However the calls interleave, the machine follows legal edges from its first status, no
status is held twice, nothing follows a terminal one, at most four calls are applied, and a call
that was legal when it loaded the status is refused only when another one has moved the machine
on. -/
theorem transitions_race (initial : OrderStatus) (events : List (Thread × OrderStatus)) :
    Run.Always (Interleaving.step next)
      (fun s => Sound initial s.shared ∧ s.shared.path.Nodup ∧ s.shared.applied ≤ 4 ∧
        ∀ status ∈ s.shared.path.tail, terminal status = false)
      (init Thread initial) events := by
  have hall : Run.Along (Interleaving.step next) (Interleaving.Guarded fun _ _ _ _ => True)
      (init Thread initial) events :=
    Run.along_of_forall _ (fun _ => True) (fun _ _ _ _ _ => trivial) _ fun _ _ => trivial
  have hinit : Interleaving.Consistent (Sound initial) Behind (fun _ _ => True)
      (init Thread initial) := ⟨sound_init initial, fun _ => trivial, fun _ _ _ => trivial⟩
  have hconsistent := Interleaving.always_consistent (preserved initial) hinit hall
  refine hconsistent.imp fun s h => ⟨h.shared, nodup_path h.shared, applied_le h.shared, ?_⟩
  exact fun status hmem => not_terminal_of_left h.shared hmem

/-- A cancellation is refused though it is legal from both statuses: a fill comes between its
two steps. -/
example : (Run.run (Interleaving.step next) (init Bool .opened)
    [(true, .cancelled), (false, .partlyFilled), (false, .pending), (true, .pending)]).shared =
      { status := .partlyFilled, path := [.partlyFilled, .opened], applied := 1,
        refused := [⟨.opened, .cancelled, .partlyFilled⟩] } := by
  decide

end StateMachineThreads

end QuantForge
