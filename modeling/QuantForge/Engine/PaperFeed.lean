import Mathlib.Data.Fintype.Option
import QuantForge.Common.SpscThreads
import QuantForge.Engine.FillPath
import QuantForge.Oms.Threads

/-! The fill queue with the threads that feed it. In paper mode `submit` runs `on_fill` on the
thread of the strategy, so that each strategy thread pushes, and the fill loop of the
portfolio pops. The push is taken step by step here; every other section is a step, as in
`Oms.Threads`. -/
namespace QuantForge

open Library OrderManagementSystem

structure FeedOms (poolSize : Nat) where
  shared : SharedOms poolSize
  calls : List (FifoCall Fill) := []

/-- A strategy thread between the steps of its calls, a strategy thread inside the push of
its `on_fill`, or the fill loop. -/
inductive FeedThread (poolSize : Nat) where
  | strategy (phase : Phase poolSize)
  | pushing (d : Delivery) (epoch : Nat) (fill : Fill) (p : ProducerPhase Fill)
  | portfolio (c : ConsumerPhase Fill)

inductive FeedInput where
  | call (c : OmsCall)
  | pop
  | resume

def ProducerPhase.accepts {α : Type*} : ProducerPhase α → Bool
  | .publishing _ _ => true
  | _ => false

namespace FeedOms

variable {poolSize : Nat} (s : FeedOms poolSize)

def ring : SharedQueue Fill fillQueueCapacity := ⟨s.shared.oms.fillQueue, s.calls⟩

def putRing (ring : SharedQueue Fill fillQueueCapacity) : FeedOms poolSize where
  shared := s.shared.put { s.shared.oms with fillQueue := ring.queue }
  calls := ring.history

def returnPush (d : Delivery) (epoch : Nat) (fill : Fill) (accepted : Bool) :
    FeedOms poolSize :=
  { s with
    shared := (s.shared.put (s.shared.oms.record (.pushed fill accepted))).note
      (.pushed epoch d.report.tradeId) }

end FeedOms

namespace FeedThread

variable {poolSize : Nat}

def next (s : FeedOms poolSize) :
    FeedThread poolSize → FeedInput → FeedOms poolSize × FeedThread poolSize
  | .strategy (.pushing d epoch fill), .resume => (s, .pushing d epoch fill (.loading fill))
  | .strategy phase, .resume =>
      ({ s with shared := (phase.next s.shared .resume).1 },
        .strategy (phase.next s.shared .resume).2)
  | .strategy phase, .call c =>
      ({ s with shared := (phase.next s.shared (.call c)).1 },
        .strategy (phase.next s.shared (.call c)).2)
  | .pushing d epoch fill p, .resume =>
      match p.act s.ring with
      | (ring, .idle) =>
          ((s.putRing ring).returnPush d epoch fill p.accepts, .strategy (.notifying d epoch fill))
      | (ring, p') => (s.putRing ring, .pushing d epoch fill p')
  | .portfolio .idle, .pop => (s, .portfolio .loading)
  | .portfolio c, .resume => (s.putRing (c.act s.ring).1, .portfolio (c.act s.ring).2)
  | t, _ => (s, t)

def queueThread : FeedThread poolSize → QueueThread Fill
  | .strategy _ => .producer .idle
  | .pushing _ _ _ p => .producer p
  | .portfolio c => .consumer c

def queueInput : FeedThread poolSize → FeedInput → Option (QueueInput Fill)
  | .strategy (.pushing _ _ fill), .resume => some (.push fill)
  | .pushing _ _ _ _, .resume => some .resume
  | .portfolio .idle, .pop => some .pop
  | .portfolio _, .resume => some .resume
  | _, _ => none

section Refines

private theorem fillQueue_cancel (oms : OrderManagementSystem poolSize) (oid : Str) :
    (oms.cancel oid).2.fillQueue = oms.fillQueue :=
  congrArg Prod.snd (fillTrace_cancel oms oid)

theorem fillQueue_act (s : SharedOms poolSize) {phase : Phase poolSize}
    (hphase : ∀ d epoch fill, phase ≠ .pushing d epoch fill) :
    (phase.act s).1.oms.fillQueue = s.oms.fillQueue := by
  cases phase with
  | pushing d epoch fill => exact absurd rfl (hphase d epoch fill)
  | acquiring sub =>
      rw [Phase.act]
      split <;> rfl
  | placing sub oid =>
      rw [Phase.act]
      split
      · exact congrArg Prod.snd (fillTrace_onOrderAck s.oms (paperOid oid) oid)
      · rfl
  | checking d =>
      rw [Phase.act]
      split <;> rfl
  | marking d =>
      rw [Phase.act]
      split <;> rfl
  | looking d epoch =>
      rw [Phase.act]
      split <;> rfl
  | updating d epoch oid po named fill =>
      exact fillQueue_applyFill s.oms d.report.exchangeOid oid po fill
  | acking exchangeOid oid => exact congrArg Prod.snd (fillTrace_onOrderAck s.oms exchangeOid oid)
  | rejecting exchangeOid reason =>
      exact congrArg Prod.snd (fillTrace_onReject s.oms exchangeOid reason)
  | failing oid reason => exact congrArg Prod.snd (fillTrace_onReject s.oms [] reason)
  | dropping oid => exact congrArg Prod.snd (fillTrace_dropOrder s.oms oid)
  | cancelling oids =>
      cases oids with
      | nil => rfl
      | cons oid oids => exact fillQueue_cancel s.oms oid
  | _ => rfl

theorem fillQueue_next (s : SharedOms poolSize) {phase : Phase poolSize}
    (hphase : ∀ d epoch fill, phase ≠ .pushing d epoch fill) (input : ThreadInput) :
    (phase.next s input).1.oms.fillQueue = s.oms.fillQueue := by
  cases input with
  | call c => cases phase <;> rfl
  | resume =>
      change (phase.act _).1.oms.fillQueue = _
      rw [fillQueue_act _ hphase, SharedOms.oms_noteRelease]

private theorem next_pushing (s : FeedOms poolSize) (d : Delivery) (epoch : Nat) (fill : Fill)
    (p : ProducerPhase Fill) :
    let after := next s (.pushing d epoch fill p) .resume
    after.1.ring = (p.act s.ring).1 ∧ after.2.queueThread = .producer (p.act s.ring).2 := by
  unfold next
  dsimp only
  split
  · rename_i ring hact
    rw [hact]
    exact ⟨rfl, rfl⟩
  · rename_i hact
    rw [hact]
    exact ⟨rfl, rfl⟩

private theorem next_strategy (s : FeedOms poolSize) {phase : Phase poolSize}
    (hphase : ∀ d epoch fill, phase ≠ .pushing d epoch fill) (e : FeedInput) :
    (next s (.strategy phase) e).1.ring = s.ring ∧
      (next s (.strategy phase) e).2.queueThread = .producer .idle := by
  have hring : ∀ input, FeedOms.ring
      { s with shared := (phase.next s.shared input).1 } = s.ring := by
    intro input
    unfold FeedOms.ring
    rw [fillQueue_next s.shared hphase input]
  cases e with
  | pop => cases phase <;> exact ⟨rfl, rfl⟩
  | call c =>
      rw [next]
      exact ⟨hring (.call c), rfl⟩
  | resume =>
      rw [next]
      · exact ⟨hring .resume, rfl⟩
      · exact hphase

private theorem queueInput_strategy {phase : Phase poolSize}
    (hphase : ∀ d epoch fill, phase ≠ .pushing d epoch fill) (e : FeedInput) :
    queueInput (.strategy phase) e = none := by
  cases phase with
  | pushing d epoch fill => exact absurd rfl (hphase d epoch fill)
  | _ => cases e <;> rfl

/-- To the fill queue, the threads of the engine are threads that push and one that pops. -/
theorem refines_queue (poolSize : Nat) :
    Interleaving.Refines FeedOms.ring queueThread queueInput
      (@QuantForge.QueueThread.next Fill fillQueueCapacity) (@next poolSize) where
  seen := by
    intro s t e e' hinput
    cases t with
    | strategy phase =>
        by_cases hpushing : ∃ d epoch fill, phase = .pushing d epoch fill
        · obtain ⟨d, epoch, fill, rfl⟩ := hpushing
          cases e with
          | resume =>
              obtain rfl : .push fill = e' := Option.some.inj hinput
              exact ⟨rfl, rfl⟩
          | call c => contradiction
          | pop => contradiction
        · rw [queueInput_strategy (fun d epoch fill heq => hpushing ⟨d, epoch, fill, heq⟩)]
            at hinput
          contradiction
    | pushing d epoch fill p =>
        cases e with
        | resume =>
            obtain rfl : .resume = e' := Option.some.inj hinput
            obtain ⟨hring, hthread⟩ := next_pushing s d epoch fill p
            rw [hring, hthread]
            cases p <;> exact ⟨rfl, rfl⟩
        | call c => contradiction
        | pop => contradiction
    | portfolio c =>
        cases e with
        | call c' => cases c <;> contradiction
        | pop =>
            cases c with
            | idle =>
                obtain rfl : .pop = e' := Option.some.inj hinput
                exact ⟨rfl, rfl⟩
            | _ => contradiction
        | resume =>
            have hresume : .resume = e' := by cases c <;> exact Option.some.inj hinput
            obtain rfl := hresume
            cases c <;> exact ⟨rfl, rfl⟩
  unseen := by
    intro s t e hinput
    cases t with
    | strategy phase =>
        by_cases hpushing : ∃ d epoch fill, phase = .pushing d epoch fill
        · obtain ⟨d, epoch, fill, rfl⟩ := hpushing
          cases e with
          | resume => contradiction
          | call c => exact ⟨rfl, rfl⟩
          | pop => exact ⟨rfl, rfl⟩
        · exact next_strategy s (fun d epoch fill heq => hpushing ⟨d, epoch, fill, heq⟩) e
    | pushing d epoch fill p =>
        cases e with
        | resume => contradiction
        | call c => exact ⟨rfl, rfl⟩
        | pop => exact ⟨rfl, rfl⟩
    | portfolio c =>
        cases e with
        | resume => cases c <;> contradiction
        | call c' => cases c <;> exact ⟨rfl, rfl⟩
        | pop =>
            cases c with
            | idle => contradiction
            | _ => exact ⟨rfl, rfl⟩

end Refines

def writesSlot : FeedThread poolSize → FeedInput → Option Nat
  | .pushing _ _ _ (.storing _ w), .resume => some w
  | _, _ => none

/-- Between its slot and the index a push has written what is not published yet. -/
def hasUnpublished : FeedThread poolSize → Bool
  | .pushing _ _ _ (.publishing _ _) => true
  | _ => false

def WritesFresh (s : FeedOms poolSize) (t : FeedThread poolSize) (e : FeedInput) : Prop :=
  ∀ w ∈ t.writesSlot e, s.shared.oms.fillQueue.writePos = w ∧ ¬s.shared.oms.fillQueue.Full

def WritesAlone (_ : FeedOms poolSize) (t : FeedThread poolSize) (e : FeedInput)
    (other : FeedThread poolSize) : Prop :=
  (t.writesSlot e).isSome = true → other.hasUnpublished = false

instance (s : FeedOms poolSize) (t : FeedThread poolSize) (e : FeedInput) :
    Decidable (t.WritesFresh s e) :=
  inferInstanceAs (Decidable (∀ w ∈ t.writesSlot e,
    s.shared.oms.fillQueue.writePos = w ∧ ¬s.shared.oms.fillQueue.Full))

instance (s : FeedOms poolSize) (t : FeedThread poolSize) (e : FeedInput)
    (other : FeedThread poolSize) : Decidable (t.WritesAlone s e other) :=
  inferInstanceAs (Decidable (_ → _))

theorem storesFresh_of_writesFresh {s : FeedOms poolSize} {t : FeedThread poolSize}
    {e : FeedInput} (h : t.WritesFresh s e) {e' : QueueInput Fill}
    (hinput : t.queueInput e = some e') : t.queueThread.StoresFresh s.ring e' := by
  cases t with
  | strategy phase => trivial
  | portfolio c => trivial
  | pushing d epoch fill p =>
      cases e with
      | resume =>
          obtain rfl : .resume = e' := Option.some.inj hinput
          cases p with
          | storing item w => exact h w rfl
          | _ => trivial
      | call c => contradiction
      | pop => contradiction

theorem storesAlone_of_writesAlone {s : FeedOms poolSize} {t other : FeedThread poolSize}
    {e : FeedInput} (h : t.WritesAlone s e other) {e' : QueueInput Fill}
    (hinput : t.queueInput e = some e') :
    t.queueThread.StoresAlone s.ring e' other.queueThread := by
  cases t with
  | strategy phase => trivial
  | portfolio c => trivial
  | pushing d epoch fill p =>
      cases e with
      | resume =>
          obtain rfl : .resume = e' := Option.some.inj hinput
          cases p with
          | storing item w =>
              have hother : other.hasUnpublished = false := h rfl
              intro hunpublished
              cases other with
              | strategy phase => exact hunpublished
              | portfolio c => exact hunpublished
              | pushing d' epoch' fill' p' =>
                  cases p' with
                  | publishing item' w' => contradiction
                  | _ => exact hunpublished
          | _ => trivial
      | call c => contradiction
      | pop => contradiction

end FeedThread

abbrev FeedThreads (Strategy : Type*) (poolSize : Nat) :=
  Interleaving.State (Option Strategy) (FeedOms poolSize) (FeedThread poolSize)

namespace FeedThreads

variable {Strategy : Type*} {poolSize : Nat}

def init (Strategy : Type*) (poolSize : Nat) (paperMode : Bool) :
    FeedThreads Strategy poolSize where
  shared := { shared := { oms := OrderManagementSystem.init poolSize paperMode } }
  own
    | none => .portfolio .idle
    | some _ => .strategy .idle

variable [DecidableEq Strategy]

def step : FeedThreads Strategy poolSize → Option Strategy × FeedInput →
    FeedThreads Strategy poolSize :=
  Interleaving.step FeedThread.next

abbrev run (m : FeedThreads Strategy poolSize) (events : List (Option Strategy × FeedInput)) :
    FeedThreads Strategy poolSize := Run.run step m events

theorem run_push_uninterrupted {m : FeedThreads Strategy poolSize} {t : Option Strategy}
    {d : Delivery} {epoch : Nat} {fill : Fill}
    (hown : m.own t = .strategy (.pushing d epoch fill)) :
    ∃ k, let m' := run m (List.replicate k (t, .resume))
      m'.shared.shared = ((Phase.pushing d epoch fill).act m.shared.shared).1 ∧
        m'.own t = .strategy (.notifying d epoch fill) := by
  by_cases hfull : SpscQueue.next fillQueueCapacity m.shared.shared.oms.fillQueue.writePos =
      m.shared.shared.oms.fillQueue.readPos
  · refine ⟨3, ?_⟩
    have hpush : m.shared.shared.oms.fillQueue.push fill =
        (false, m.shared.shared.oms.fillQueue) := if_pos hfull
    simp [run, Run.run, step, Interleaving.step, hown, FeedThread.next, ProducerPhase.act,
      FeedOms.ring, hfull, FeedOms.returnPush, FeedOms.putRing, Phase.act, pushFill, hpush,
      ProducerPhase.accepts, SharedQueue.answer, SharedOms.put]
  · refine ⟨5, ?_⟩
    have hpush := SpscQueue.push_of_room hfull fill
    simp [run, Run.run, step, Interleaving.step, hown, FeedThread.next, ProducerPhase.act,
      FeedOms.ring, hfull, FeedOms.returnPush, FeedOms.putRing, Phase.act, pushFill, hpush,
      ProducerPhase.accepts, SharedQueue.answer, SharedQueue.put, SharedOms.put,
      SpscQueue.publishWrite, SpscQueue.storeSlot]

/-- Each fill whose push returned true was popped once or is still in the queue, once. -/
def PoppedOnce (m : FeedThreads Strategy poolSize) : Prop :=
  Fifo.accepted m.shared.calls =
    Fifo.returned m.shared.calls ++ m.shared.shared.oms.fillQueue.contents

def WritesInTurn (m : FeedThreads Strategy poolSize) (e : Option Strategy × FeedInput) : Prop :=
  Interleaving.GuardedWhile FeedThread.WritesFresh FeedThread.WritesAlone m e

instance [Fintype Strategy] (m : FeedThreads Strategy poolSize)
    (e : Option Strategy × FeedInput) : Decidable (m.WritesInTurn e) :=
  inferInstanceAs (Decidable (Interleaving.GuardedWhile _ _ _ _))

/-- The fill queue answers as a queue does, whichever pushes it refuses. -/
def Served (m : FeedThreads Strategy poolSize) : Prop :=
  Interleaving.Consistent (fun s => QueueThread.Served (fun _ => True) s.ring)
    (fun s t => QueueThread.View s.ring t.queueThread)
    (fun t t' => t.queueThread.Apart t'.queueThread) m

theorem served_init (Strategy : Type*) [DecidableEq Strategy] (poolSize : Nat)
    (paperMode : Bool) : (init Strategy poolSize paperMode).Served := by
  refine ⟨.start, fun t => ?_, fun t t' hne => ?_⟩
  · cases t <;> trivial
  · cases t with
    | none =>
        cases t' with
        | none => exact absurd rfl hne
        | some strategy => exact fun hboth => hboth.1
    | some strategy => exact QueueThread.apart_producer_iff.mpr fun hboth => hboth.1

theorem served_step {m : FeedThreads Strategy poolSize} (h : m.Served)
    {e : Option Strategy × FeedInput} (hturn : m.WritesInTurn e) : (step m e).Served := by
  have hkeep := (QueueThread.preserved_queue Fill fillQueueCapacity fun _ => True).refined
    (FeedThread.refines_queue poolSize)
  apply Interleaving.consistent_stepWhile hkeep h
  constructor
  · intro e' hinput
    constructor
    · exact FeedThread.storesFresh_of_writesFresh hturn.1 hinput
    · unfold QueueThread.RefusesWhen
      split
      · exact fun _ => trivial
      · trivial
  · intro other hne e' hinput
    exact FeedThread.storesAlone_of_writesAlone (hturn.2 other hne) hinput

/-- In every run whose pushes write their slots in turn no accepted fill is lost, doubled or
read before it is written. -/
theorem accepted_fills_popped_once (Strategy : Type*) [DecidableEq Strategy] (poolSize : Nat)
    {events : List (Option Strategy × FeedInput)}
    (hturn : Run.Along step WritesInTurn (init Strategy poolSize true) events) :
    Run.Always step PoppedOnce (init Strategy poolSize true) events := by
  have hserved := Run.always_of_along Served (fun _ _ h he => served_step h he)
    (served_init Strategy poolSize true) hturn
  rw [Run.always_iff_take] at hserved ⊢
  intro k
  exact (hserved k).shared.accepted_eq

section Overlap

def untilPush (strategy : Bool) (token : Nat) : List (Option Bool × FeedInput) :=
  (some strategy, .call (.submit { instrumentToken := token, quantity := 1 } 0 0 0)) ::
    List.replicate 10 (some strategy, .resume)

def resumes (strategy : Bool) (n : Nat) : List (Option Bool × FeedInput) :=
  List.replicate n (some strategy, .resume)

def popAlone : List (Option Bool × FeedInput) :=
  (none, .pop) :: List.replicate 4 (none, .resume)

def inTurn : List (Option Bool × FeedInput) :=
  untilPush false 1 ++ resumes false 5 ++ untilPush true 2 ++ resumes true 5 ++ popAlone

theorem accepted_fills_popped_once_in_turn :
    (run (init Bool 2 true) inTurn).PoppedOnce ∧
      (Fifo.accepted (run (init Bool 2 true) inTurn).shared.calls).map Fill.instrumentToken =
        [1, 2] ∧
      (Fifo.returned (run (init Bool 2 true) inTurn).shared.calls).map Fill.instrumentToken =
        [1] := by
  have halways : Run.Always step PoppedOnce (init Bool 2 true) inTurn :=
    accepted_fills_popped_once Bool 2 (by decide +kernel)
  rw [Run.always_iff_take] at halways
  exact ⟨halways inTurn.length, by decide +kernel, by decide +kernel⟩

def overlapping : List (Option Bool × FeedInput) :=
  untilPush false 1 ++ untilPush true 2 ++ resumes false 1 ++ resumes true 4 ++
    resumes false 3 ++ popAlone ++ popAlone

/-- Both strategies write the same slot: both fills are accepted, and only one of them is
ever popped. -/
theorem overlapping_pushes_lose_fill :
    let m := run (init Bool 2 true) overlapping
    (Fifo.accepted m.shared.calls).map Fill.instrumentToken = [2, 1] ∧
      (Fifo.returned m.shared.calls).map Fill.instrumentToken = [1] ∧
      m.shared.shared.oms.fillQueue.contents = [] ∧ ¬m.PoppedOnce := by
  have haccepted : (Fifo.accepted (run (init Bool 2 true) overlapping).shared.calls).map
      Fill.instrumentToken = [2, 1] := by decide +kernel
  have hreturned : (Fifo.returned (run (init Bool 2 true) overlapping).shared.calls).map
      Fill.instrumentToken = [1] := by decide +kernel
  have hempty : (run (init Bool 2 true) overlapping).shared.shared.oms.fillQueue.contents = [] := by
    decide +kernel
  refine ⟨haccepted, hreturned, hempty, fun honce => ?_⟩
  rw [PoppedOnce, hempty, List.append_nil] at honce
  rw [honce, hreturned] at haccepted
  contradiction

end Overlap

end FeedThreads

end QuantForge
