import Mathlib.Algebra.Order.Ring.Int
import Mathlib.Data.List.Induction
import Mathlib.Tactic.Common
import QuantForge.Library.Ring
import QuantForge.Library.Run

/-! `common/disruptor.hpp` with each operation taken as one step. The ring never
looks into a tick, so the tick type is a parameter; `blank` is the tick of a slot
that was never written. -/
namespace QuantForge

open Library

def bufferSize : Nat := 65536

structure Slot (Tick : Type*) where
  tick : Tick
  sequence : Int := -1

structure TickDisruptor (Tick : Type*) where
  buffer : Nat → Slot Tick
  producerSeq : Int := -1

namespace TickDisruptor

variable {Tick : Type*}

def init (blank : Tick) : TickDisruptor Tick where
  buffer := fun _ => { tick := blank }

/-- `seq & MASK` -/
def slotOf (seq : Int) : Nat := (seq % bufferSize).toNat

def claimNext (ring : TickDisruptor Tick) : Int × TickDisruptor Tick :=
  (ring.producerSeq + 1, { ring with producerSeq := ring.producerSeq + 1 })

def publish (ring : TickDisruptor Tick) (seq : Int) (tick : Tick) : TickDisruptor Tick :=
  { ring with buffer := Function.update ring.buffer (slotOf seq) ⟨tick, seq⟩ }

def push (ring : TickDisruptor Tick) (tick : Tick) : TickDisruptor Tick :=
  ring.claimNext.2.publish ring.claimNext.1 tick

/-- The tick and the advanced cursor, or `none` for `false`. -/
def tryConsume (ring : TickDisruptor Tick) (consumerSeq : Int) : Option (Tick × Int) :=
  let next := consumerSeq + 1
  let slot := ring.buffer (slotOf next)
  if slot.sequence < next then none else some (slot.tick, next)

def lag (ring : TickDisruptor Tick) (consumerSeq : Int) : Int := ring.producerSeq - consumerSeq

@[simp] theorem slotOf_natCast (seq : Nat) : slotOf (seq : Int) = seq % bufferSize := by
  unfold slotOf
  omega

theorem tryConsume_at (ring : TickDisruptor Tick) (n : Nat) :
    ring.tryConsume ((n : Int) - 1) =
      if (ring.buffer (n % bufferSize)).sequence < n then none
      else some ((ring.buffer (n % bufferSize)).tick, (n : Int)) := by
  simp [tryConsume]

/-- What the ring holds once `pushed` has been published: the last lap of it, and
no sequence number in the slots that the stream has not reached. -/
structure Published (blank : Tick) (ring : TickDisruptor Tick) (pushed : List Tick) : Prop where
  seq : ring.producerSeq = pushed.length - 1
  holds : Ring.Holds ring.buffer bufferSize pushed.length
    fun i => ⟨pushed.getD i blank, i⟩
  unwritten : ∀ i, pushed.length ≤ i → i < bufferSize → (ring.buffer i).sequence = -1

theorem published_init (blank : Tick) : Published blank (init blank) [] where
  seq := rfl
  holds := Ring.holds_zero _ _
  unwritten := fun _ _ _ => rfl

theorem published_push {blank : Tick} {ring : TickDisruptor Tick} {pushed : List Tick}
    (h : Published blank ring pushed) (tick : Tick) :
    Published blank (ring.push tick) (pushed ++ [tick]) := by
  have hseq : ring.producerSeq + 1 = (pushed.length : Nat) := by
    rw [h.seq]
    omega
  have hbuffer : (ring.push tick).buffer =
      Function.update ring.buffer (pushed.length % bufferSize) ⟨tick, pushed.length⟩ := by
    simp only [push, publish, claimNext, hseq, slotOf_natCast]
  refine ⟨?_, ?_, ?_⟩
  · simp [push, publish, claimNext, hseq]
  · rw [hbuffer, List.length_append, List.length_singleton]
    intro i hi hlap
    by_cases hlast : i = pushed.length
    · simp [hlast]
    · rw [Function.update_of_ne (Ring.slot_ne_of_lt (by omega) (by omega)),
        h.holds i (by omega) (by omega)]
      simp [List.getElem?_append_left (show i < pushed.length by omega)]
  · intro i hi hlt
    rw [List.length_append, List.length_singleton] at hi
    have hmod : pushed.length % bufferSize = pushed.length := Nat.mod_eq_of_lt (by omega)
    rw [hbuffer, hmod, Function.update_of_ne (by omega)]
    exact h.unwritten i (by omega) hlt

theorem tryConsume_all {blank : Tick} {ring : TickDisruptor Tick} {pushed : List Tick}
    (h : Published blank ring pushed) : ring.tryConsume ((pushed.length : Int) - 1) = none := by
  have hseq : (ring.buffer (pushed.length % bufferSize)).sequence < pushed.length := by
    by_cases hlap : pushed.length < bufferSize
    · rw [Nat.mod_eq_of_lt hlap, h.unwritten _ (le_refl _) hlap]
      omega
    · -- the slot still holds the tick of the previous lap
      have hslot := h.holds (pushed.length - bufferSize) (by unfold bufferSize at *; omega)
        (by omega)
      rw [← Nat.mod_eq_sub_mod (not_lt.mp hlap)] at hslot
      rw [hslot]
      unfold bufferSize at *
      simp only
      omega
  rw [tryConsume_at, if_pos hseq]

theorem tryConsume_next {blank : Tick} {ring : TickDisruptor Tick} {pushed : List Tick}
    (h : Published blank ring pushed) {n : Nat} (hn : n < pushed.length)
    (hlap : pushed.length ≤ n + bufferSize) :
    ring.tryConsume ((n : Int) - 1) = some (pushed[n], (n : Int)) := by
  have hslot := h.holds n hn hlap
  rw [tryConsume_at, hslot]
  simp [hn]

/-- A consumer that is more than a lap behind is handed, as its next tick, a tick
of a later lap. -/
theorem tryConsume_lapped {blank : Tick} {ring : TickDisruptor Tick} {pushed : List Tick}
    (h : Published blank ring pushed) {n : Nat} (hlap : n + bufferSize < pushed.length) :
    ∃ m, ∃ hm : m < pushed.length, n < m ∧
      ring.tryConsume ((n : Int) - 1) = some (pushed[m], (n : Int)) := by
  -- the last position of the stream that shares the slot of `n`
  let m := n + bufferSize * ((pushed.length - 1 - n) / bufferSize)
  have hdiv := Nat.div_add_mod (pushed.length - 1 - n) bufferSize
  have hmod : (pushed.length - 1 - n) % bufferSize < bufferSize := Nat.mod_lt _ (by decide)
  have hm : m < pushed.length := by omega
  have hlater : n < m := by omega
  have hslot := h.holds m hm (by omega)
  rw [show m % bufferSize = n % bufferSize from Nat.add_mul_mod_self_left _ _ _] at hslot
  refine ⟨m, hm, hlater, ?_⟩
  rw [tryConsume_at, hslot, if_neg]
  · simp [hm]
  · simp only [not_lt]
    exact_mod_cast hlater.le

theorem tryConsume_ne_none {blank : Tick} {ring : TickDisruptor Tick} {pushed : List Tick}
    (h : Published blank ring pushed) {n : Nat} (hn : n < pushed.length) :
    ring.tryConsume ((n : Int) - 1) ≠ none := by
  by_cases hlap : n + bufferSize < pushed.length
  · obtain ⟨m, hm, -, hconsume⟩ := tryConsume_lapped h hlap
    simp [hconsume]
  · simp [tryConsume_next h hn (not_lt.mp hlap)]

end TickDisruptor

/-- One producer, any number of consumers with cursors of their own, and the
history of what was pushed and of what each consumer received. -/
structure FanOut (Consumer Tick : Type*) where
  ring : TickDisruptor Tick
  cursor : Consumer → Int
  pushed : List Tick
  received : Consumer → List Tick

inductive FanOutEvent (Consumer Tick : Type*) where
  | push (tick : Tick)
  | tryConsume (consumer : Consumer)

namespace FanOut

variable {Consumer Tick : Type*} {blank : Tick}

def init (Consumer : Type*) (blank : Tick) : FanOut Consumer Tick where
  ring := TickDisruptor.init blank
  cursor := fun _ => -1
  pushed := []
  received := fun _ => []

/-- The `n`-th tick that a consumer received is the `n`-th pushed, and a consumer
is refused exactly when it has received them all. -/
structure Delivers (s : FanOut Consumer Tick) : Prop where
  received_prefix : ∀ c, s.received c <+: s.pushed
  refused_iff : ∀ c, s.ring.tryConsume (s.cursor c) = none ↔ s.received c = s.pushed

/-- A consumer consumes at most one lap behind the producer. -/
def WithinLap (s : FanOut Consumer Tick) : FanOutEvent Consumer Tick → Prop
  | .push _ => True
  | .tryConsume c => s.ring.lag (s.cursor c) ≤ bufferSize

/-- The cursor counts the ticks received, which are the first ones pushed. -/
structure InStep (blank : Tick) (s : FanOut Consumer Tick) : Prop where
  published : s.ring.Published blank s.pushed
  cursor_eq : ∀ c, s.cursor c = (s.received c).length - 1
  received_prefix : ∀ c, s.received c <+: s.pushed

theorem inStep_init : InStep blank (init Consumer blank) where
  published := TickDisruptor.published_init blank
  cursor_eq := fun _ => rfl
  received_prefix := fun _ => List.nil_prefix

theorem tryConsume_of_inStep {s : FanOut Consumer Tick} (h : InStep blank s) (c : Consumer)
    (hlag : s.ring.lag (s.cursor c) ≤ bufferSize) :
    s.ring.tryConsume (s.cursor c) =
      (s.pushed[(s.received c).length]?).map fun tick => (tick, ((s.received c).length : Int)) := by
  have hle := (h.received_prefix c).length_le
  rw [TickDisruptor.lag, h.published.seq, h.cursor_eq c] at hlag
  rw [h.cursor_eq c]
  by_cases hlt : (s.received c).length < s.pushed.length
  · rw [TickDisruptor.tryConsume_next h.published hlt (by omega), List.getElem?_eq_getElem hlt]
    rfl
  · have heq : (s.received c).length = s.pushed.length := by omega
    rw [heq, TickDisruptor.tryConsume_all h.published, List.getElem?_eq_none (le_refl _)]
    rfl

theorem delivers_of_inStep {s : FanOut Consumer Tick} (h : InStep blank s) : s.Delivers where
  received_prefix := h.received_prefix
  refused_iff := by
    intro c
    rw [h.cursor_eq c]
    constructor
    · intro hrefused
      by_contra hne
      refine TickDisruptor.tryConsume_ne_none h.published ?_ hrefused
      exact (h.received_prefix c).length_le.lt_of_ne
        fun heq => hne ((h.received_prefix c).eq_of_length heq)
    · intro hall
      rw [hall]
      exact TickDisruptor.tryConsume_all h.published

section Runs

variable [DecidableEq Consumer]

def step (s : FanOut Consumer Tick) : FanOutEvent Consumer Tick → FanOut Consumer Tick
  | .push tick => { s with ring := s.ring.push tick, pushed := s.pushed ++ [tick] }
  | .tryConsume c =>
      match s.ring.tryConsume (s.cursor c) with
      | none => s
      | some (tick, seq) =>
          { s with
            cursor := Function.update s.cursor c seq
            received := Function.update s.received c (s.received c ++ [tick]) }

abbrev run (s : FanOut Consumer Tick) (events : List (FanOutEvent Consumer Tick)) :
    FanOut Consumer Tick := Run.run step s events

theorem step_refused {s : FanOut Consumer Tick} {c : Consumer}
    (h : s.ring.tryConsume (s.cursor c) = none) : s.step (.tryConsume c) = s := by
  simp only [step, h]

theorem step_received {s : FanOut Consumer Tick} {c : Consumer} {tick : Tick} {seq : Int}
    (h : s.ring.tryConsume (s.cursor c) = some (tick, seq)) :
    s.step (.tryConsume c) =
      { s with
        cursor := Function.update s.cursor c seq
        received := Function.update s.received c (s.received c ++ [tick]) } := by
  simp only [step, h]

theorem step_pushed (s : FanOut Consumer Tick) (c : Consumer) :
    (s.step (.tryConsume c)).pushed = s.pushed := by
  simp only [step]
  split <;> rfl

theorem prefix_snoc_of_getElem? {left whole : List Tick} {x : Tick}
    (h : left <+: whole) (hget : whole[left.length]? = some x) : left ++ [x] <+: whole := by
  obtain ⟨rest, rfl⟩ := h
  cases rest with
  | nil => simp at hget
  | cons head rest =>
      obtain rfl : head = x := by simpa using hget
      exact ⟨rest, by simp⟩

theorem inStep_step {s : FanOut Consumer Tick} (h : InStep blank s)
    (event : FanOutEvent Consumer Tick) (hlap : s.WithinLap event) :
    InStep blank (s.step event) := by
  cases event with
  | push tick =>
      refine ⟨TickDisruptor.published_push h.published tick, h.cursor_eq, fun c => ?_⟩
      exact (h.received_prefix c).trans (List.prefix_append _ _)
  | tryConsume c =>
      have hconsume := tryConsume_of_inStep h c hlap
      cases htick : s.pushed[(s.received c).length]? with
      | none =>
          rw [htick, Option.map_none] at hconsume
          rw [step_refused hconsume]
          exact h
      | some tick =>
          rw [htick, Option.map_some] at hconsume
          rw [step_received hconsume]
          refine ⟨h.published, fun other => ?_, fun other => ?_⟩
          · by_cases heq : other = c
            · simp [heq]
            · simp [Function.update_of_ne heq, h.cursor_eq other]
          · by_cases heq : other = c
            · simp only [heq, Function.update_self]
              exact prefix_snoc_of_getElem? (h.received_prefix c) htick
            · simp only [Function.update_of_ne heq]
              exact h.received_prefix other

def FreshTick (s : FanOut Consumer Tick) : FanOutEvent Consumer Tick → Prop
  | .push tick => tick ∉ s.pushed
  | .tryConsume _ => True

theorem withinLap_of_delivers {s : FanOut Consumer Tick} (h : InStep blank s)
    (hnodup : s.pushed.Nodup) {event : FanOutEvent Consumer Tick}
    (hnext : (s.step event).Delivers) : s.WithinLap event := by
  cases event with
  | push tick => trivial
  | tryConsume c =>
      have hle := (h.received_prefix c).length_le
      by_contra hlap
      rw [WithinLap, TickDisruptor.lag, h.published.seq, h.cursor_eq c] at hlap
      obtain ⟨m, hm, hlater, hconsume⟩ := TickDisruptor.tryConsume_lapped h.published
        (show (s.received c).length + bufferSize < s.pushed.length by omega)
      rw [← h.cursor_eq c] at hconsume
      have hreceived := hnext.received_prefix c
      rw [step_received hconsume] at hreceived
      simp only [Function.update_self] at hreceived
      have hget := hreceived.getElem (i := (s.received c).length) (by simp)
      rw [List.getElem_concat_length rfl] at hget
      exact hlater.ne' ((List.getElem_inj hnodup).mp hget)

/-- As long as nobody consumes more than a lap behind, every consumer receives the
published stream; when the ticks differ, the stream is received in no other run. -/
theorem fanOut_delivers_iff (events : List (FanOutEvent Consumer Tick)) :
    (Run.Along step WithinLap (init Consumer blank) events →
      ∀ k, (run (init Consumer blank) (events.take k)).Delivers) ∧
    (Run.Along step FreshTick (init Consumer blank) events →
      (∀ k, (run (init Consumer blank) (events.take k)).Delivers) →
      Run.Along step WithinLap (init Consumer blank) events) := by
  constructor
  · intro hlap k
    have halways := Run.always_of_along (InStep blank)
      (fun _ event h hguard => inStep_step h event hguard) inStep_init hlap
    exact delivers_of_inStep ((Run.always_iff_take step _ _ _).mp halways k)
  · intro hfresh hdelivers
    refine (Run.always_iff_along (fun s => InStep blank s ∧ s.pushed.Nodup) FreshTick ?_ ?_
      hfresh ⟨inStep_init, List.nodup_nil⟩ (delivers_of_inStep inStep_init)).mp
      ((Run.always_iff_take step _ _ _).mpr hdelivers)
    · rintro s event ⟨h, hnodup⟩ htick hlap
      refine ⟨inStep_step h event hlap, ?_⟩
      cases event with
      | push tick => exact List.nodup_append.mpr ⟨hnodup, by simp, by
          rintro a ha b hb rfl
          exact htick (List.mem_singleton.mp hb ▸ ha)⟩
      | tryConsume c =>
          rw [step_pushed]
          exact hnodup
    · rintro s event ⟨h, hnodup⟩ - htick
      exact ⟨withinLap_of_delivers h hnodup,
        fun hlap => delivers_of_inStep (inStep_step h event hlap)⟩

theorem fanOut_delivers_two_consumers :
    (run (init Bool 0) ([.push 7, .tryConsume true, .push 8, .tryConsume true,
      .tryConsume false].take 5)).Delivers :=
  (fanOut_delivers_iff _).1 (by simp [Run.Along, WithinLap]; decide) 5

theorem published_pushes (Consumer : Type*) [DecidableEq Consumer] (blank : Tick)
    (ticks : List Tick) :
    let s := run (init Consumer blank) (ticks.map .push)
    s.ring.Published blank ticks ∧ s.pushed = ticks ∧ s.cursor = (fun _ => -1) ∧
      s.received = fun _ => [] := by
  induction ticks using List.reverseRecOn with
  | nil => exact ⟨TickDisruptor.published_init blank, rfl, rfl, rfl⟩
  | append_singleton ticks tick ih =>
      rw [List.map_append, List.map_singleton]
      simp only [run, Run.run_append]
      obtain ⟨hpublished, hpushed, hcursor, hreceived⟩ := ih
      exact ⟨TickDisruptor.published_push hpublished tick, congrArg (· ++ [tick]) hpushed,
        hcursor, hreceived⟩

theorem received_after_lap (blank : Tick) (ticks : List Tick)
    (hlength : ticks.length = bufferSize + 1) :
    let s := run (init Unit blank) (ticks.map .push ++ [.tryConsume ()])
    s.pushed = ticks ∧ s.received () = [ticks.getD bufferSize blank] := by
  obtain ⟨hpublished, hpushed, hcursor, hreceived⟩ := published_pushes Unit blank ticks
  have hslot := hpublished.holds bufferSize (by omega) (by rw [hlength]; decide)
  rw [Nat.mod_self] at hslot
  have hconsume := TickDisruptor.tryConsume_at
    (run (init Unit blank) (ticks.map FanOutEvent.push)).ring 0
  rw [Nat.zero_mod, hslot, if_neg (by simp)] at hconsume
  have hcursorHere : (run (init Unit blank) (ticks.map FanOutEvent.push)).cursor () =
      ((0 : Nat) : Int) - 1 := by
    rw [hcursor]
    rfl
  rw [← hcursorHere] at hconsume
  simp only [run, Run.run_append, Run.run_cons, Run.run_nil] at hconsume hreceived ⊢
  rw [step_received hconsume]
  refine ⟨hpushed, ?_⟩
  simp [hreceived]

theorem not_delivers_after_lap (blank : Tick) (ticks : List Tick)
    (hlength : ticks.length = bufferSize + 1)
    (hdiffer : ticks.getD bufferSize blank ≠ ticks.getD 0 blank) :
    ¬(run (init Unit blank) (ticks.map .push ++ [.tryConsume ()])).Delivers := by
  intro hdelivers
  obtain ⟨hpushed, hreceived⟩ := received_after_lap blank ticks hlength
  have hprefix := hdelivers.received_prefix ()
  rw [hpushed, hreceived] at hprefix
  have hget := hprefix.getElem (i := 0) (by simp)
  rw [List.getElem_singleton] at hget
  have hfirst : ticks.getD 0 blank = ticks[0] := by
    rw [List.getD_eq_getElem?_getD, List.getElem?_eq_getElem (by omega), Option.getD_some]
  rw [hfirst] at hdiffer
  exact hdiffer hget

private theorem range_getD {n k : Nat} (h : k < n) : (List.range n).getD k 0 = k := by
  simp [List.getD_eq_getElem?_getD, h]

/-- The ticks `0, 1, …, 65536` are pushed before the first consume: the consumer is
handed tick `65536` in the place of tick `0`. -/
theorem lapped_consumer_skips :
    let s := run (init Unit 0) ((List.range (bufferSize + 1)).map .push ++ [.tryConsume ()])
    s.pushed = List.range (bufferSize + 1) ∧ s.received () = [bufferSize] ∧ ¬s.Delivers := by
  have hlast := range_getD (Nat.lt_succ_self bufferSize)
  have hfirst := range_getD (Nat.succ_pos bufferSize)
  obtain ⟨hpushed, hreceived⟩ :=
    received_after_lap 0 (List.range (bufferSize + 1)) List.length_range
  refine ⟨hpushed, hreceived.trans (congrArg (fun tick => [tick]) hlast), ?_⟩
  refine not_delivers_after_lap 0 _ List.length_range ?_
  rw [hlast, hfirst]
  decide

end Runs

end FanOut

end QuantForge
