import QuantForge.Common.SpscQueue
import QuantForge.Library.BoundedFifo
import QuantForge.Library.Interleaving

/-! `common/spsc_queue.hpp` at the granularity of its loads, copies and stores, which are
sequentially consistent here. Each load of the other side's index may be out of date when it
is used. The history lists the answered calls, the latest first; no step reads it. -/
namespace QuantForge

open Library

namespace SpscQueue

variable {α : Type*} {capacity : Nat}

private theorem next_lt_capacity (q : SpscQueue α capacity) (pos : Nat) :
    next capacity pos < capacity := by
  have hle : next capacity pos ≤ capacity - 1 := Nat.and_le_right
  have hw := q.write_lt
  omega

/-- `data_[w] = item` -/
def storeSlot (q : SpscQueue α capacity) (w : Nat) (item : α) : SpscQueue α capacity :=
  { q with data := Function.update q.data w item }

/-- `write_pos_.store((w + 1) & mask_)` -/
def publishWrite (q : SpscQueue α capacity) (w : Nat) : SpscQueue α capacity :=
  { q with writePos := next capacity w, write_lt := q.next_lt_capacity w }

/-- `read_pos_.store((r + 1) & mask_)` -/
def publishRead (q : SpscQueue α capacity) (r : Nat) : SpscQueue α capacity :=
  { q with readPos := next capacity r, read_lt := q.next_lt_capacity r }

theorem push_of_room {q : SpscQueue α capacity} (hroom : next capacity q.writePos ≠ q.readPos)
    (item : α) :
    q.push item = (true, (q.storeSlot q.writePos item).publishWrite q.writePos) := by
  rw [push, if_neg hroom]
  rfl

theorem tryPop_of_held {q : SpscQueue α capacity} (hheld : q.readPos ≠ q.writePos) :
    q.tryPop = (some (q.data q.readPos), q.publishRead q.readPos) := by
  rw [tryPop, if_neg hheld]
  rfl

theorem contents_eq_nil_iff (q : SpscQueue α capacity) :
    q.contents = [] ↔ q.readPos = q.writePos := by
  rw [← List.length_eq_zero_iff, contents_length]
  have hw := q.write_lt
  have hr := q.read_lt
  unfold count
  split <;> omega

theorem contents_storeSlot (q : SpscQueue α capacity) (item : α) :
    (q.storeSlot q.writePos item).contents = q.contents := by
  have hupdate := Ring.segment_update q.data q.readPos q.count_lt item
  rw [← q.writePos_eq] at hupdate
  exact hupdate

variable [PowerOfTwo capacity]

theorem contents_publishWrite {q : SpscQueue α capacity} (hroom : ¬q.Full) :
    (q.publishWrite q.writePos).contents = q.contents ++ [q.data q.writePos] := by
  have hpush := push_contents hroom (q.data q.writePos)
  rw [push_of_room (mt q.full_iff.mpr hroom)] at hpush
  have hsame : q.storeSlot q.writePos (q.data q.writePos) = q := by
    unfold storeSlot
    rw [Function.update_eq_self]
  rwa [hsame] at hpush

theorem head_of_held {q : SpscQueue α capacity} {item : α} {rest : List α}
    (hcons : q.contents = item :: rest) :
    q.data q.readPos = item ∧ (q.publishRead q.readPos).contents = rest := by
  have hheld : q.readPos ≠ q.writePos := by
    rw [Ne, ← q.contents_eq_nil_iff, hcons]
    exact List.cons_ne_nil item rest
  obtain ⟨hhead, hrest⟩ := tryPop_of_cons hcons
  rw [tryPop_of_held hheld] at hhead hrest
  exact ⟨Option.some.inj hhead, hrest⟩

theorem not_full_publishRead {q : SpscQueue α capacity} {item : α} {rest : List α}
    (hcons : q.contents = item :: rest) : ¬(q.publishRead q.readPos).Full := by
  have hlt := q.count_lt
  have hcount : q.count = rest.length + 1 := by
    rw [← q.contents_length, hcons, List.length_cons]
  have hafter : (q.publishRead q.readPos).count = rest.length := by
    rw [← contents_length, (head_of_held hcons).2]
  rw [Full, hafter]
  omega

end SpscQueue

/-- The next step of a call of `push`, with the write index that it loaded. -/
inductive ProducerPhase (α : Type*) where
  | idle
  | loading (item : α)
  | checking (item : α) (w : Nat)
  | storing (item : α) (w : Nat)
  | publishing (item : α) (w : Nat)
  deriving DecidableEq

/-- The next step of a call of `pop` or `try_pop`, with the read index that it loaded. -/
inductive ConsumerPhase (α : Type*) where
  | idle
  | loading
  | checking (r : Nat)
  | copying (r : Nat)
  | publishing (r : Nat) (item : α)
  deriving DecidableEq

structure SharedQueue (α : Type*) (capacity : Nat) where
  queue : SpscQueue α capacity
  history : List (FifoCall α) := []

namespace SharedQueue

variable {α : Type*} {capacity : Nat} (s : SharedQueue α capacity)

def put (queue : SpscQueue α capacity) : SharedQueue α capacity := { s with queue := queue }

def answer (call : FifoCall α) : SharedQueue α capacity :=
  { s with history := call :: s.history }

end SharedQueue

section Act

variable {α : Type*} {capacity : Nat}

def ProducerPhase.act (s : SharedQueue α capacity) :
    ProducerPhase α → SharedQueue α capacity × ProducerPhase α
  | .idle => (s, .idle)
  | .loading item => (s, .checking item s.queue.writePos)
  | .checking item w =>
      if SpscQueue.next capacity w = s.queue.readPos then (s.answer (.push item false), .idle)
      else (s, .storing item w)
  | .storing item w => (s.put (s.queue.storeSlot w item), .publishing item w)
  | .publishing item w => ((s.put (s.queue.publishWrite w)).answer (.push item true), .idle)

def ConsumerPhase.act (s : SharedQueue α capacity) :
    ConsumerPhase α → SharedQueue α capacity × ConsumerPhase α
  | .idle => (s, .idle)
  | .loading => (s, .checking s.queue.readPos)
  | .checking r =>
      if r = s.queue.writePos then (s.answer (.pop none), .idle) else (s, .copying r)
  | .copying r => (s, .publishing r (s.queue.data r))
  | .publishing r item => ((s.put (s.queue.publishRead r)).answer (.pop (some item)), .idle)

end Act

inductive QueueThread (α : Type*) where
  | producer (p : ProducerPhase α)
  | consumer (c : ConsumerPhase α)
  deriving DecidableEq

inductive QueueInput (α : Type*) where
  | push (item : α)
  | pop
  | resume

namespace QueueThread

variable {α : Type*} {capacity : Nat}

def next (s : SharedQueue α capacity) :
    QueueThread α → QueueInput α → SharedQueue α capacity × QueueThread α
  | .producer .idle, .push item => (s, .producer (.loading item))
  | .producer p, .resume => ((p.act s).1, .producer (p.act s).2)
  | .consumer .idle, .pop => (s, .consumer .loading)
  | .consumer c, .resume => ((c.act s).1, .consumer (c.act s).2)
  | t, _ => (s, t)

def StoresFresh (s : SharedQueue α capacity) : QueueThread α → QueueInput α → Prop
  | .producer (.storing _ w), .resume => s.queue.writePos = w ∧ ¬s.queue.Full
  | _, _ => True

/-- Between its slot and its index a push has stored what is not published yet. -/
def Unpublished : QueueThread α → Prop
  | .producer (.publishing _ _) => True
  | _ => False

def StoresAlone (_ : SharedQueue α capacity) :
    QueueThread α → QueueInput α → QueueThread α → Prop
  | .producer (.storing _ _), .resume, other => ¬other.Unpublished
  | _, _, _ => True

def RefusesWhen (mayRefuse : List α → Prop) (s : SharedQueue α capacity) :
    QueueThread α → QueueInput α → Prop
  | .producer (.checking _ w), .resume =>
      SpscQueue.next capacity w = s.queue.readPos → mayRefuse s.queue.contents
  | _, _ => True

/-- A push that has stored its slot finds the index that it loaded, and what a pop copied or
is about to copy is the oldest item held. -/
def View (s : SharedQueue α capacity) : QueueThread α → Prop
  | .producer (.publishing item w) =>
      s.queue.writePos = w ∧ ¬s.queue.Full ∧ s.queue.data w = item
  | .consumer (.checking r) => s.queue.readPos = r
  | .consumer (.copying r) => s.queue.readPos = r ∧ s.queue.contents ≠ []
  | .consumer (.publishing r item) =>
      s.queue.readPos = r ∧ ∃ rest, s.queue.contents = item :: rest
  | _ => True

/-- One thread pops, and one push at a time has a slot that is not published. -/
def Apart : QueueThread α → QueueThread α → Prop
  | .consumer _, .consumer _ => False
  | t, t' => ¬(t.Unpublished ∧ t'.Unpublished)

def Served (mayRefuse : List α → Prop) (s : SharedQueue α capacity) : Prop :=
  Fifo.Answers (capacity - 1) mayRefuse s.history s.queue.contents

variable {mayRefuse : List α → Prop} {s : SharedQueue α capacity}

theorem apart_symm {t t' : QueueThread α} (h : t.Apart t') : t'.Apart t := by
  cases t with
  | producer p =>
      cases t' with
      | producer p' => exact fun hboth => h hboth.symm
      | consumer c' => exact fun hboth => h hboth.symm
  | consumer c =>
      cases t' with
      | producer p' => exact fun hboth => h hboth.symm
      | consumer c' => exact h

theorem apart_producer_iff {p : ProducerPhase α} {other : QueueThread α} :
    Apart (.producer p) other ↔ ¬(Unpublished (.producer p) ∧ other.Unpublished) := by
  cases other <;> rfl

theorem view_of_queue_eq {s' : SharedQueue α capacity} (hqueue : s'.queue = s.queue)
    {t : QueueThread α} (h : View s t) : View s' t := by
  unfold View at h ⊢
  rwa [hqueue]

theorem view_producer {p : ProducerPhase α} (hfresh : StoresFresh s (.producer p) .resume) :
    View (p.act s).1 (.producer (p.act s).2) := by
  cases p with
  | idle => trivial
  | loading item => trivial
  | checking item w =>
      rw [ProducerPhase.act]
      split <;> trivial
  | storing item w =>
      obtain ⟨rfl, hroom⟩ := hfresh
      exact ⟨rfl, hroom, Function.update_self ..⟩
  | publishing item w => trivial

theorem next_cases (s : SharedQueue α capacity) (t : QueueThread α) (e : QueueInput α) :
    (∃ p, t = .producer p ∧ e = .resume ∧
      next s t e = ((p.act s).1, .producer (p.act s).2)) ∨
    (∃ c, t = .consumer c ∧ e = .resume ∧
      next s t e = ((c.act s).1, .consumer (c.act s).2)) ∨
    ∃ t', next s t e = (s, t') ∧ (View s t → View s t') ∧
      ∀ other, Apart t other → Apart t' other := by
  have hstay : next s t e = (s, t) → ∃ t', next s t e = (s, t') ∧ (View s t → View s t') ∧
      ∀ other, Apart t other → Apart t' other := fun heq => ⟨t, heq, id, fun _ => id⟩
  cases e with
  | resume =>
      cases t with
      | producer p => exact .inl ⟨p, rfl, rfl, by cases p <;> rfl⟩
      | consumer c => exact .inr (.inl ⟨c, rfl, rfl, by cases c <;> rfl⟩)
  | push item =>
      right
      right
      cases t with
      | producer p =>
          cases p with
          | idle =>
              refine ⟨.producer (.loading item), rfl, id, fun other _ => ?_⟩
              exact apart_producer_iff.mpr fun hboth => hboth.1
          | _ => exact hstay rfl
      | consumer c => cases c <;> exact hstay rfl
  | pop =>
      right
      right
      cases t with
      | producer p => cases p <;> exact hstay rfl
      | consumer c =>
          cases c with
          | idle =>
              refine ⟨.consumer .loading, rfl, id, fun other hapart => ?_⟩
              cases other <;> exact hapart
          | _ => exact hstay rfl

variable [PowerOfTwo capacity]

theorem served_producer {p : ProducerPhase α} (h : Served mayRefuse s)
    (hview : View s (.producer p)) (hrefuse : RefusesWhen mayRefuse s (.producer p) .resume)
    (hfresh : StoresFresh s (.producer p) .resume) : Served mayRefuse (p.act s).1 := by
  cases p with
  | idle => exact h
  | loading item => exact h
  | checking item w =>
      rw [ProducerPhase.act]
      split
      · rename_i hfull
        exact .refuse item h (hrefuse hfull)
      · exact h
  | storing item w =>
      obtain ⟨rfl, hroom⟩ := hfresh
      unfold Served
      change Fifo.Answers _ _ _ (s.queue.storeSlot s.queue.writePos item).contents
      rw [SpscQueue.contents_storeSlot]
      exact h
  | publishing item w =>
      obtain ⟨rfl, hroom, rfl⟩ := hview
      unfold Served
      change Fifo.Answers _ _ (_ :: _) (s.queue.publishWrite s.queue.writePos).contents
      rw [SpscQueue.contents_publishWrite hroom]
      apply Fifo.Answers.push _ h
      have hlt := s.queue.count_lt
      rw [SpscQueue.Full] at hroom
      rw [SpscQueue.contents_length]
      omega

theorem served_consumer {c : ConsumerPhase α} (h : Served mayRefuse s)
    (hview : View s (.consumer c)) : Served mayRefuse (c.act s).1 := by
  cases c with
  | idle => exact h
  | loading => exact h
  | checking r =>
      rw [ConsumerPhase.act]
      split
      · rename_i hempty
        have hnil : s.queue.contents = [] := by
          rw [SpscQueue.contents_eq_nil_iff, ← hempty]
          exact hview
        unfold Served at h ⊢
        rw [hnil] at h
        change Fifo.Answers _ _ (_ :: _) s.queue.contents
        rw [hnil]
        exact .empty h
      · exact h
  | copying r => exact h
  | publishing r item =>
      obtain ⟨rfl, rest, hcons⟩ := hview
      unfold Served at h ⊢
      rw [hcons] at h
      change Fifo.Answers _ _ (_ :: _) (s.queue.publishRead s.queue.readPos).contents
      rw [(SpscQueue.head_of_held hcons).2]
      exact .pop h

theorem view_consumer {c : ConsumerPhase α} (hview : View s (.consumer c)) :
    View (c.act s).1 (.consumer (c.act s).2) := by
  cases c with
  | idle => trivial
  | loading => rfl
  | checking r =>
      rw [ConsumerPhase.act]
      split
      · trivial
      · rename_i hheld
        refine ⟨hview, fun hnil => hheld ?_⟩
        rw [← (SpscQueue.contents_eq_nil_iff s.queue).mp hnil]
        exact hview.symm
  | copying r =>
      obtain ⟨rfl, hheld⟩ := hview
      obtain ⟨item, rest, hcons⟩ := List.exists_cons_of_ne_nil hheld
      exact ⟨rfl, rest, (SpscQueue.head_of_held hcons).1 ▸ hcons⟩
  | publishing r item => trivial

theorem bystander_producer {p : ProducerPhase α} {other : QueueThread α}
    (hview : View s (.producer p)) (hother : View s other) (hapart : Apart (.producer p) other)
    (hfresh : StoresFresh s (.producer p) .resume)
    (halone : StoresAlone s (.producer p) .resume other) :
    View (p.act s).1 other ∧ Apart (.producer (p.act s).2) other := by
  rw [apart_producer_iff] at hapart ⊢
  cases p with
  | idle => exact ⟨hother, hapart⟩
  | loading item => exact ⟨hother, fun hboth => hboth.1⟩
  | checking item w =>
      rw [ProducerPhase.act]
      split
      · exact ⟨view_of_queue_eq rfl hother, fun hboth => hboth.1⟩
      · exact ⟨hother, fun hboth => hboth.1⟩
  | storing item w =>
      obtain ⟨rfl, hroom⟩ := hfresh
      refine ⟨?_, fun hboth => halone hboth.2⟩
      -- the stored slot is outside what the consumer sees
      have hcontents := s.queue.contents_storeSlot item
      cases other with
      | producer p' =>
          cases p' with
          | publishing item' w' => exact absurd trivial halone
          | _ => trivial
      | consumer c =>
          cases c with
          | copying r => exact ⟨hother.1, fun hnil => hother.2 (hcontents ▸ hnil)⟩
          | publishing r got => exact ⟨hother.1, hother.2.imp fun _ hcons => hcontents.trans hcons⟩
          | _ => exact hother
  | publishing item w =>
      obtain ⟨rfl, hroom, hdata⟩ := hview
      refine ⟨?_, fun hboth => hboth.1⟩
      have hcontents := SpscQueue.contents_publishWrite hroom
      cases other with
      | producer p' =>
          cases p' with
          | publishing item' w' => exact absurd ⟨trivial, trivial⟩ hapart
          | _ => trivial
      | consumer c =>
          cases c with
          | copying r =>
              refine ⟨hother.1, fun hnil => hother.2 ?_⟩
              exact (List.append_eq_nil_iff.mp (hcontents.symm.trans hnil)).1
          | publishing r got =>
              obtain ⟨hr, rest, hcons⟩ := hother
              exact ⟨hr, rest ++ [s.queue.data s.queue.writePos], by
                rw [← List.cons_append, ← hcons]
                exact hcontents⟩
          | _ => exact hother

theorem bystander_consumer {c : ConsumerPhase α} {other : QueueThread α}
    (hview : View s (.consumer c)) (hother : View s other)
    (hapart : Apart (.consumer c) other) :
    View (c.act s).1 other ∧ Apart (.consumer (c.act s).2) other := by
  cases other with
  | consumer c' => exact hapart.elim
  | producer p =>
      refine ⟨?_, fun hboth => hboth.1⟩
      cases c with
      | idle => exact hother
      | loading => exact hother
      | checking r =>
          rw [ConsumerPhase.act]
          split
          · exact view_of_queue_eq rfl hother
          · exact hother
      | copying r => exact hother
      | publishing r item =>
          obtain ⟨rfl, rest, hcons⟩ := hview
          cases p with
          | publishing item' w =>
              exact ⟨hother.1, SpscQueue.not_full_publishRead hcons, hother.2.2⟩
          | _ => trivial

def Fits (mayRefuse : List α → Prop) (s : SharedQueue α capacity) (t : QueueThread α)
    (e : QueueInput α) : Prop :=
  StoresFresh s t e ∧ RefusesWhen mayRefuse s t e

theorem preserved_queue (α : Type*) (capacity : Nat) [PowerOfTwo capacity]
    (mayRefuse : List α → Prop) :
    Interleaving.PreservedWhile (@next α capacity) (Fits mayRefuse)
      StoresAlone (Served mayRefuse) View Apart where
  symm := fun _ _ => apart_symm
  shared := by
    intro s t e h hview hfits
    obtain ⟨p, rfl, rfl, hnext⟩ | ⟨c, rfl, rfl, hnext⟩ | ⟨t', hnext, -, -⟩ := next_cases s t e
    · rw [hnext]
      exact served_producer h hview hfits.2 hfits.1
    · rw [hnext]
      exact served_consumer h hview
    · rw [hnext]
      exact h
  own := by
    intro s t e _ hview hfits
    obtain ⟨p, rfl, rfl, hnext⟩ | ⟨c, rfl, rfl, hnext⟩ | ⟨t', hnext, hstart, -⟩ :=
      next_cases s t e
    · rw [hnext]
      exact view_producer hfits.1
    · rw [hnext]
      exact view_consumer hview
    · rw [hnext]
      exact hstart hview
  bystander := by
    intro s t e other _ hview hother hapart hfits halone
    obtain ⟨p, rfl, rfl, hnext⟩ | ⟨c, rfl, rfl, hnext⟩ | ⟨t', hnext, -, hstart⟩ :=
      next_cases s t e
    · rw [hnext]
      exact bystander_producer hview hother hapart hfits.1 halone
    · rw [hnext]
      exact bystander_consumer hview hother hapart
    · rw [hnext]
      exact ⟨hother, hstart other hapart⟩

end QueueThread

inductive SpscSide where
  | producer
  | consumer
  deriving DecidableEq

abbrev SpscThreads (α : Type*) (capacity : Nat) :=
  Interleaving.State SpscSide (SharedQueue α capacity) (QueueThread α)

namespace SpscThreads

open QueueThread

variable {α : Type*} {capacity : Nat}

def init (capacity : Nat) [PowerOfTwo capacity] (blank : α) : SpscThreads α capacity where
  shared := { queue := SpscQueue.init capacity blank }
  own
    | .producer => .producer .idle
    | .consumer => .consumer .idle

def step : SpscThreads α capacity → SpscSide × QueueInput α → SpscThreads α capacity :=
  Interleaving.step QueueThread.next

abbrev run (m : SpscThreads α capacity) (events : List (SpscSide × QueueInput α)) :
    SpscThreads α capacity := Run.run step m events

def pushCall (item : α) : List (SpscSide × QueueInput α) :=
  [(.producer, .push item), (.producer, .resume), (.producer, .resume), (.producer, .resume),
    (.producer, .resume)]

def popCall : List (SpscSide × QueueInput α) :=
  [(.consumer, .pop), (.consumer, .resume), (.consumer, .resume), (.consumer, .resume),
    (.consumer, .resume)]

theorem run_pushCall {m : SpscThreads α capacity} (hidle : m.own .producer = .producer .idle)
    (item : α) :
    (run m (pushCall item)).shared =
      (m.shared.put (m.shared.queue.push item).2).answer
        (.push item (m.shared.queue.push item).1) := by
  by_cases hfull : SpscQueue.next capacity m.shared.queue.writePos = m.shared.queue.readPos
  · have hpush : m.shared.queue.push item = (false, m.shared.queue) := if_pos hfull
    rw [hpush]
    simp [run, pushCall, Run.run, step, Interleaving.step, hidle, QueueThread.next,
      ProducerPhase.act, hfull, SharedQueue.put]
  · rw [SpscQueue.push_of_room hfull]
    simp [run, pushCall, Run.run, step, Interleaving.step, hidle, QueueThread.next,
      ProducerPhase.act, hfull, SharedQueue.put, SharedQueue.answer, SpscQueue.storeSlot,
      SpscQueue.publishWrite]

theorem run_popCall {m : SpscThreads α capacity} (hidle : m.own .consumer = .consumer .idle) :
    (run m popCall).shared =
      (m.shared.put m.shared.queue.tryPop.2).answer (.pop m.shared.queue.tryPop.1) := by
  by_cases hempty : m.shared.queue.readPos = m.shared.queue.writePos
  · have hpop : m.shared.queue.tryPop = (none, m.shared.queue) := if_pos hempty
    rw [hpop]
    simp [run, popCall, Run.run, step, Interleaving.step, hidle, QueueThread.next,
      ConsumerPhase.act, hempty, SharedQueue.put]
  · rw [SpscQueue.tryPop_of_held hempty]
    simp [run, popCall, Run.run, step, Interleaving.step, hidle, QueueThread.next,
      ConsumerPhase.act, hempty, SharedQueue.put, SharedQueue.answer, SpscQueue.publishRead]

/-- With one producer a loaded write index stays the present one, and the room that was
found stays. -/
def Loaded (s : SharedQueue α capacity) : ProducerPhase α → Prop
  | .checking _ w => s.queue.writePos = w
  | .storing _ w => s.queue.writePos = w ∧ ¬s.queue.Full
  | _ => True

structure OneEach (m : SpscThreads α capacity) : Prop where
  producer : ∃ p, m.own .producer = .producer p ∧ Loaded m.shared p
  consumer : ∃ c, m.own .consumer = .consumer c

/-- The slot that a pop is about to copy holds the oldest item held, and no push is
about to write it. -/
def ReadsWritten (m : SpscThreads α capacity) : Prop :=
  ∀ r, m.own .consumer = .consumer (.copying r) →
    (∃ rest, m.shared.queue.contents = m.shared.queue.data r :: rest) ∧
      ∀ item, m.own .producer ≠ .producer (.storing item r)

/-- A call that nothing interrupts refuses only a full queue and finds only an empty one
empty. -/
structure AnswersWhenQuiet (m : SpscThreads α capacity) : Prop where
  push : m.own .producer = .producer .idle → ∀ item,
    (run m (pushCall item)).shared.history =
      .push item (decide (m.shared.queue.contents.length ≠ capacity - 1)) :: m.shared.history
  pop : m.own .consumer = .consumer .idle →
    (run m popCall).shared.history = .pop m.shared.queue.contents.head? :: m.shared.history

variable [PowerOfTwo capacity] {m : SpscThreads α capacity}

structure Sound (m : SpscThreads α capacity) : Prop where
  consistent : Interleaving.Consistent (Served (Fifo.IsFull (capacity - 1))) View Apart m
  oneEach : m.OneEach

theorem sound_init (capacity : Nat) [PowerOfTwo capacity] (blank : α) :
    (init capacity blank).Sound := by
  refine ⟨⟨?_, fun t => ?_, fun t t' hne => ?_⟩, ⟨.idle, rfl, trivial⟩, .idle, rfl⟩
  · exact .start
  · cases t <;> trivial
  · cases t <;> cases t' <;> simp [init, Apart, Unpublished] at hne ⊢

theorem guardedWhile_of_sound (h : m.Sound) (e : SpscSide × QueueInput α) :
    Interleaving.GuardedWhile (Fits (Fifo.IsFull (capacity - 1))) StoresAlone m e := by
  obtain ⟨p, hp, hloaded⟩ := h.oneEach.producer
  obtain ⟨c, hc⟩ := h.oneEach.consumer
  obtain ⟨side, input⟩ := e
  cases side with
  | consumer =>
      refine ⟨?_, fun other _ => ?_⟩
      · rw [hc]
        exact ⟨trivial, trivial⟩
      · rw [hc]
        trivial
  | producer =>
      constructor
      · rw [hp]
        cases p with
        | checking item w =>
            refine ⟨trivial, ?_⟩
            cases input with
            | resume =>
                intro hnext
                rw [← show m.shared.queue.writePos = w from hloaded,
                  ← m.shared.queue.full_iff] at hnext
                exact (m.shared.queue.contents_length).trans hnext
            | _ => trivial
        | storing item w =>
            cases input with
            | resume => exact ⟨hloaded, trivial⟩
            | _ => exact ⟨trivial, trivial⟩
        | _ => exact ⟨trivial, trivial⟩
      · intro other hne
        obtain rfl : other = .consumer := by
          cases other with
          | producer => exact absurd rfl hne
          | consumer => rfl
        rw [hp, hc]
        cases p with
        | storing item w =>
            cases input with
            | resume => exact id
            | _ => trivial
        | _ => trivial

private theorem loaded_producer {s : SharedQueue α capacity} {p : ProducerPhase α}
    (h : Loaded s p) : Loaded (p.act s).1 (p.act s).2 := by
  cases p with
  | checking item w =>
      rw [ProducerPhase.act]
      split
      · trivial
      · rename_i hroom
        obtain rfl : s.queue.writePos = w := h
        exact ⟨rfl, mt s.queue.full_iff.mp hroom⟩
  | loading item => rfl
  | _ => trivial

private theorem loaded_consumer {s : SharedQueue α capacity} {c : ConsumerPhase α}
    {p : ProducerPhase α} (hview : View s (.consumer c)) (h : Loaded s p) :
    Loaded (c.act s).1 p := by
  cases c with
  | publishing r item =>
      obtain ⟨rfl, rest, hcons⟩ := hview
      cases p with
      | storing item' w => exact ⟨h.1, SpscQueue.not_full_publishRead hcons⟩
      | _ => exact h
  | checking r =>
      rw [ConsumerPhase.act]
      split
      · cases p <;> exact h
      · exact h
  | _ => exact h

theorem oneEach_step (h : m.Sound) (e : SpscSide × QueueInput α) : (step m e).OneEach := by
  obtain ⟨p, hp, hloaded⟩ := h.oneEach.producer
  obtain ⟨c, hc⟩ := h.oneEach.consumer
  have hview := h.consistent.own .consumer
  rw [hc] at hview
  obtain ⟨side, input⟩ := e
  have hown := Interleaving.step_own_self QueueThread.next m side input
  cases side with
  | producer =>
      have hshared : (step m (.producer, input)).shared =
          (next m.shared (.producer p) input).1 := by
        rw [← hp]
        rfl
      rw [hp] at hown
      refine ⟨?_, c, hc⟩
      rw [step, hown, ← step, hshared]
      cases input with
      | resume => cases p <;> exact ⟨_, rfl, loaded_producer hloaded⟩
      | push item => cases p <;> exact ⟨_, rfl, hloaded⟩
      | pop => cases p <;> exact ⟨_, rfl, hloaded⟩
  | consumer =>
      have hshared : (step m (.consumer, input)).shared =
          (next m.shared (.consumer c) input).1 := by
        rw [← hc]
        rfl
      rw [hc] at hown
      constructor
      · refine ⟨p, hp, ?_⟩
        rw [hshared]
        cases input with
        | resume => cases c <;> exact loaded_consumer hview hloaded
        | push item => cases c <;> exact hloaded
        | pop => cases c <;> exact hloaded
      · rw [step, hown]
        cases input <;> cases c <;> exact ⟨_, rfl⟩

theorem sound_step (h : m.Sound) (e : SpscSide × QueueInput α) : (step m e).Sound :=
  ⟨Interleaving.consistent_stepWhile (preserved_queue α capacity _) h.consistent
    (guardedWhile_of_sound h e),
    oneEach_step h e⟩

theorem sound_run (capacity : Nat) [PowerOfTwo capacity] (blank : α)
    (events : List (SpscSide × QueueInput α)) : (run (init capacity blank) events).Sound :=
  Run.run_invariant Sound (fun _ e h => sound_step h e) (sound_init capacity blank) events

theorem readsWritten_of_sound (h : m.Sound) : m.ReadsWritten := by
  intro r hcopy
  have hview := h.consistent.own .consumer
  rw [hcopy] at hview
  obtain ⟨rfl, hheld⟩ := hview
  constructor
  · obtain ⟨item, rest, hcons⟩ := List.exists_cons_of_ne_nil hheld
    rw [(SpscQueue.head_of_held hcons).1]
    exact ⟨rest, hcons⟩
  · intro item hstore
    obtain ⟨p, hp, hloaded⟩ := h.oneEach.producer
    rw [hstore] at hp
    obtain rfl : ProducerPhase.storing item _ = p := QueueThread.producer.inj hp
    apply hheld
    rw [SpscQueue.contents_eq_nil_iff]
    exact hloaded.1.symm

theorem answersWhenQuiet (m : SpscThreads α capacity) : m.AnswersWhenQuiet := by
  constructor
  · intro hidle item
    rw [run_pushCall hidle]
    change FifoCall.push item (m.shared.queue.push item).1 :: _ = _
    rw [SpscQueue.contents_length]
    by_cases hfull : m.shared.queue.Full
    · have hanswer : decide (m.shared.queue.count ≠ capacity - 1) = false :=
        decide_eq_false (not_not.mpr hfull)
      rw [SpscQueue.push_of_full hfull, hanswer]
      rfl
    · have hanswer : decide (m.shared.queue.count ≠ capacity - 1) = true := decide_eq_true hfull
      rw [SpscQueue.push_of_room (mt m.shared.queue.full_iff.mpr hfull), hanswer]
      rfl
  · intro hidle
    rw [run_popCall hidle]
    change FifoCall.pop m.shared.queue.tryPop.1 :: _ = _
    cases hcontents : m.shared.queue.contents with
    | nil =>
        rw [SpscQueue.tryPop_of_empty hcontents]
        rfl
    | cons item rest =>
        rw [(SpscQueue.tryPop_of_cons hcontents).1]
        rfl

/-- In every interleaving the answers are those of a queue of at most `capacity - 1` items. -/
theorem spsc_refines_bounded_fifo (capacity : Nat) [PowerOfTwo capacity] (blank : α)
    (events : List (SpscSide × QueueInput α)) :
    let m := run (init capacity blank) events
    Fifo.Answers (capacity - 1) (Fifo.IsFull (capacity - 1)) m.shared.history
      m.shared.queue.contents ∧
    Fifo.accepted m.shared.history =
      Fifo.returned m.shared.history ++ m.shared.queue.contents ∧
    m.shared.queue.contents.length ≤ capacity - 1 ∧
    m.ReadsWritten ∧ m.AnswersWhenQuiet := by
  intro m
  have hsound := sound_run capacity blank events
  have hanswers : Fifo.Answers (capacity - 1) (Fifo.IsFull (capacity - 1)) m.shared.history
      m.shared.queue.contents := hsound.consistent.shared
  exact ⟨hanswers, hanswers.accepted_eq, hanswers.length_le, readsWritten_of_sound hsound,
    answersWhenQuiet m⟩

theorem spsc_refines_bounded_fifo_overlap :
    let m := run (init fillQueueCapacity 0) ([(.producer, .push 7), (.consumer, .pop),
      (.producer, .resume), (.consumer, .resume), (.producer, .resume), (.consumer, .resume),
      (.producer, .resume), (.producer, .resume)] ++ popCall)
    Fifo.accepted m.shared.history =
        Fifo.returned m.shared.history ++ m.shared.queue.contents ∧
      m.shared.history = [.pop (some 7), .push 7 true, .pop none] :=
  ⟨(spsc_refines_bounded_fifo fillQueueCapacity 0 _).2.1, by decide +kernel⟩

end SpscThreads

end QuantForge
