import QuantForge.Common.SpscQueue
import QuantForge.Portfolio.PortfolioEngine

/-! The thread of the portfolio. `fill_loop` tests the stop flag before each pop and leaves as
soon as it finds it set; `stop` sets the flag and joins the thread. What was pushed and what was
applied are recorded, oldest first; no step reads them. -/
namespace QuantForge

open Library

/-- The next step of `fill_loop`. -/
inductive FillLoopPhase where
  | testing
  | popping
  | applying (fill : Fill)
  | exited
  deriving DecidableEq

structure FillLoop where
  queue : FillQueue
  engine : PortfolioEngine
  stop : Bool := false
  phase : FillLoopPhase := .testing
  pushed : List Fill := []
  applied : List Fill := []

inductive FillLoopEvent where
  | push (fill : Fill)
  | turn

def FillLoopPhase.held : FillLoopPhase → List Fill
  | .applying fill => [fill]
  | _ => []

def FillLoopPhase.stepsLeft : FillLoopPhase → Nat
  | .popping => 3
  | .applying _ => 2
  | .testing => 1
  | .exited => 0

namespace FillLoop

def start (queue : FillQueue) (engine : PortfolioEngine) : FillLoop where
  queue := queue
  engine := engine
  pushed := queue.contents

def push (s : FillLoop) (fill : Fill) : FillLoop :=
  match s.queue.push fill with
  | (true, queue) => { s with queue, pushed := s.pushed ++ [fill] }
  | (false, _) => s

def turn (s : FillLoop) : FillLoop :=
  match s.phase with
  | .testing => { s with phase := if s.stop then .exited else .popping }
  | .popping =>
      match s.queue.tryPop with
      | (some fill, queue) => { s with queue, phase := .applying fill }
      | (none, queue) => { s with queue, phase := .testing }
  | .applying fill =>
      { s with
        engine := s.engine.processFill fill
        phase := .testing
        applied := s.applied ++ [fill] }
  | .exited => s

def step (s : FillLoop) : FillLoopEvent → FillLoop
  | .push fill => s.push fill
  | .turn => s.turn

/-- The store of `stop`; its join returns in the phase `exited`. -/
def requestStop (s : FillLoop) : FillLoop := { s with stop := true }

/-- The loop is past its test, and its next pop takes all that is queued. -/
def LastPopEmpties (s : FillLoop) : Prop := s.phase = .popping ∧ s.queue.contents.length = 1

/-- Every fill that was pushed is applied, held or queued, in this order. -/
structure Conserved (engine : PortfolioEngine) (s : FillLoop) : Prop where
  pushed : s.pushed = s.applied ++ s.phase.held ++ s.queue.contents
  engine_eq : s.engine = engine.processFills s.applied

variable {s : FillLoop}

theorem push_of_room (hroom : ¬s.queue.Full) (fill : Fill) :
    s.push fill = { s with
      queue := (s.queue.push fill).2
      pushed := s.pushed ++ [fill] } := by
  have hpush : s.queue.push fill = (true, (s.queue.push fill).2) := by
    unfold SpscQueue.push
    dsimp only
    rw [if_neg (mt s.queue.full_iff.mpr hroom)]
  unfold push
  rw [hpush]

theorem push_of_full (hfull : s.queue.Full) (fill : Fill) : s.push fill = s := by
  unfold push
  rw [SpscQueue.push_of_full hfull]

theorem turn_testing (hphase : s.phase = .testing) :
    s.turn = { s with phase := if s.stop then .exited else .popping } := by
  unfold turn
  rw [hphase]

theorem turn_popping_nil (hphase : s.phase = .popping) (hnil : s.queue.contents = []) :
    s.turn = { s with phase := .testing } := by
  unfold turn
  rw [hphase]
  dsimp only
  rw [SpscQueue.tryPop_of_empty hnil]

theorem turn_popping_cons (hphase : s.phase = .popping) {fill : Fill} {rest : List Fill}
    (hcons : s.queue.contents = fill :: rest) :
    s.turn = { s with queue := s.queue.tryPop.2, phase := .applying fill } := by
  have hpop : s.queue.tryPop = (some fill, s.queue.tryPop.2) :=
    Prod.ext (SpscQueue.tryPop_of_cons hcons).1 rfl
  unfold turn
  rw [hphase]
  dsimp only
  rw [hpop]

theorem turn_applying {fill : Fill} (hphase : s.phase = .applying fill) :
    s.turn = { s with
      engine := s.engine.processFill fill
      phase := .testing
      applied := s.applied ++ [fill] } := by
  unfold turn
  rw [hphase]

theorem turn_exited (hphase : s.phase = .exited) : s.turn = s := by
  unfold turn
  rw [hphase]

theorem conserved_start (queue : FillQueue) (engine : PortfolioEngine) :
    (start queue engine).Conserved engine :=
  ⟨rfl, rfl⟩

theorem Conserved.push {engine : PortfolioEngine} (h : s.Conserved engine) (fill : Fill) :
    (s.push fill).Conserved engine := by
  by_cases hfull : s.queue.Full
  · rw [push_of_full hfull]
    exact h
  · rw [push_of_room hfull]
    refine ⟨?_, h.engine_eq⟩
    change s.pushed ++ [fill] = s.applied ++ s.phase.held ++ (s.queue.push fill).2.contents
    rw [SpscQueue.push_contents hfull, h.pushed, List.append_assoc _ _ [fill]]

theorem Conserved.turn {engine : PortfolioEngine} (h : s.Conserved engine) :
    s.turn.Conserved engine := by
  obtain ⟨hpushed, hengine⟩ := h
  cases hphase : s.phase with
  | testing =>
      rw [turn_testing hphase]
      refine ⟨?_, hengine⟩
      rw [hphase] at hpushed
      dsimp only
      split <;> exact hpushed
  | popping =>
      rw [hphase] at hpushed
      cases hcontents : s.queue.contents with
      | nil =>
          rw [turn_popping_nil hphase hcontents]
          exact ⟨hpushed, hengine⟩
      | cons fill rest =>
          rw [turn_popping_cons hphase hcontents]
          refine ⟨?_, hengine⟩
          change s.pushed = s.applied ++ [fill] ++ s.queue.tryPop.2.contents
          rw [(SpscQueue.tryPop_of_cons hcontents).2, hpushed, hcontents]
          simp [FillLoopPhase.held]
  | applying fill =>
      rw [turn_applying hphase]
      rw [hphase] at hpushed
      refine ⟨?_, ?_⟩
      · change s.pushed = s.applied ++ [fill] ++ [] ++ s.queue.contents
        rw [hpushed, List.append_nil]
        rfl
      · change s.engine.processFill fill = engine.processFills (s.applied ++ [fill])
        rw [hengine, PortfolioEngine.processFills, PortfolioEngine.processFills, Run.run_append]
        rfl
  | exited =>
      rw [turn_exited hphase]
      exact ⟨hpushed, hengine⟩

theorem Conserved.step {engine : PortfolioEngine} (h : s.Conserved engine)
    (event : FillLoopEvent) : (s.step event).Conserved engine := by
  cases event with
  | push fill => exact h.push fill
  | turn => exact h.turn

/-- The number of fills that a loop that finds the flag set will have applied. -/
def promised (s : FillLoop) : Nat :=
  s.applied.length + s.phase.held.length +
    if s.phase = .popping then min 1 s.queue.contents.length else 0

theorem pushed_length {engine : PortfolioEngine} (h : s.Conserved engine) :
    s.pushed.length = s.applied.length + s.phase.held.length + s.queue.contents.length := by
  rw [h.pushed, List.length_append, List.length_append]

theorem promised_push {engine : PortfolioEngine} (h : s.Conserved engine) (fill : Fill) :
    (s.push fill).promised = s.promised ∨
      s.promised = s.pushed.length ∧ s.promised ≤ (s.push fill).promised := by
  by_cases hfull : s.queue.Full
  · rw [push_of_full hfull]
    exact Or.inl rfl
  have hlength := pushed_length h
  rw [push_of_room hfull]
  unfold promised
  dsimp only
  rw [SpscQueue.push_contents hfull, List.length_append, List.length_singleton]
  split <;> omega

theorem promised_turn (hstop : s.stop = true) : s.turn.promised = s.promised := by
  cases hphase : s.phase with
  | testing =>
      rw [turn_testing hphase]
      simp [promised, hphase, hstop, FillLoopPhase.held]
  | popping =>
      cases hcontents : s.queue.contents with
      | nil =>
          rw [turn_popping_nil hphase hcontents]
          simp [promised, hphase, hcontents, FillLoopPhase.held]
      | cons fill rest =>
          rw [turn_popping_cons hphase hcontents]
          simp [promised, hphase, hcontents, FillLoopPhase.held]
  | applying fill =>
      rw [turn_applying hphase]
      simp [promised, hphase, FillLoopPhase.held]
  | exited => rw [turn_exited hphase]

theorem stop_step (s : FillLoop) (event : FillLoopEvent) : (s.step event).stop = s.stop := by
  cases event with
  | push fill =>
      change (s.push fill).stop = s.stop
      unfold push
      split <;> rfl
  | turn =>
      change s.turn.stop = s.stop
      unfold turn
      split
      · rfl
      · split <;> rfl
      · rfl
      · rfl

theorem pushed_step (s : FillLoop) (event : FillLoopEvent) :
    s.pushed <+: (s.step event).pushed := by
  cases event with
  | push fill =>
      change s.pushed <+: (s.push fill).pushed
      unfold push
      split
      · exact List.prefix_append _ _
      · exact List.prefix_rfl
  | turn =>
      change s.pushed <+: s.turn.pushed
      unfold turn
      split
      · exact List.prefix_rfl
      · split <;> exact List.prefix_rfl
      · exact List.prefix_rfl
      · exact List.prefix_rfl

structure Stopping (engine : PortfolioEngine) (owed : List Fill) (covered : Prop)
    (s : FillLoop) : Prop where
  stop : s.stop = true
  conserved : s.Conserved engine
  kept : owed <+: s.pushed
  covered_iff : owed.length ≤ s.promised ↔ covered

theorem Stopping.step {engine : PortfolioEngine} {owed : List Fill} {covered : Prop}
    (h : s.Stopping engine owed covered) (event : FillLoopEvent) :
    (s.step event).Stopping engine owed covered where
  stop := (s.stop_step event).trans h.stop
  conserved := h.conserved.step event
  kept := h.kept.trans (s.pushed_step event)
  covered_iff := by
    rw [← h.covered_iff]
    cases event with
    | push fill =>
        have hlength := h.kept.length_le
        have hpush := promised_push h.conserved fill
        change owed.length ≤ (s.push fill).promised ↔ owed.length ≤ s.promised
        omega
    | turn => exact iff_of_eq (congrArg (owed.length ≤ ·) (promised_turn h.stop))

/-- Every fill that was pushed before the flag was set is promised exactly when none is queued
or the next pop takes the last one. -/
theorem pushed_le_promised_iff {engine : PortfolioEngine} (h : s.Conserved engine) :
    s.pushed.length ≤ s.promised ↔ s.queue.contents = [] ∨ s.LastPopEmpties := by
  rw [pushed_length h, promised, ← List.length_eq_zero_iff, LastPopEmpties]
  by_cases hphase : s.phase = .popping
  · rw [if_pos hphase]
    simp only [hphase, true_and]
    omega
  · rw [if_neg hphase]
    simp only [hphase, false_and, or_false]
    omega

private theorem stepsLeft_turn (hstop : s.stop = true) :
    s.turn.phase.stepsLeft ≤ s.phase.stepsLeft - 1 := by
  cases hphase : s.phase with
  | testing => simp [turn_testing hphase, hstop, FillLoopPhase.stepsLeft]
  | popping =>
      cases hcontents : s.queue.contents with
      | nil => simp [turn_popping_nil hphase hcontents, FillLoopPhase.stepsLeft]
      | cons fill rest => simp [turn_popping_cons hphase hcontents, FillLoopPhase.stepsLeft]
  | applying fill => simp [turn_applying hphase, FillLoopPhase.stepsLeft]
  | exited => simp [turn_exited hphase, hphase, FillLoopPhase.stepsLeft]

private theorem phase_push (s : FillLoop) (fill : Fill) : (s.push fill).phase = s.phase := by
  unfold push
  split <;> rfl

def turns (events : List FillLoopEvent) : Nat :=
  events.countP fun event => event matches .turn

private theorem stepsLeft_run (hstop : s.stop = true) (events : List FillLoopEvent) :
    (Run.run step s events).phase.stepsLeft ≤ s.phase.stepsLeft - turns events := by
  induction events generalizing s with
  | nil => exact le_rfl
  | cons event events ih =>
      have hrest := ih ((s.stop_step event).trans hstop)
      rw [Run.run_cons]
      cases event with
      | push fill =>
          rw [show (s.step (.push fill)).phase = s.phase from s.phase_push fill] at hrest
          exact hrest
      | turn =>
          have hturn := stepsLeft_turn hstop
          change _ ≤ s.turn.phase.stepsLeft - turns events at hrest
          have hcount : turns (.turn :: events) = turns events + 1 := List.countP_cons_of_pos rfl
          omega

/-- `stop` returns: three turns of the loop after the flag is set, it has left. -/
theorem exited_of_turns (hstop : s.stop = true) {events : List FillLoopEvent}
    (hturns : 3 ≤ turns events) : (Run.run step s events).phase = .exited := by
  have hleft := stepsLeft_run hstop events
  have hmax : s.phase.stepsLeft ≤ 3 := by
    unfold FillLoopPhase.stepsLeft
    split <;> decide
  have hzero : (Run.run step s events).phase.stepsLeft = 0 := by omega
  revert hzero
  unfold FillLoopPhase.stepsLeft
  split <;> simp_all

/-- Whatever the queue held when the thread was started, and wherever the loop is when `stop` is
called: once `stop` has returned, the fills that were pushed before the call are the first ones
applied, each once, exactly when the queue was empty at the call or the pop that the loop was
about to make emptied it. -/
theorem stop_drains_iff (queue : FillQueue) (engine : PortfolioEngine)
    (before after : List FillLoopEvent)
    (hexited : (Run.run step (Run.run step (start queue engine) before).requestStop after).phase =
      .exited) :
    let called := Run.run step (start queue engine) before
    let returned := Run.run step called.requestStop after
    returned.engine = engine.processFills returned.applied ∧
      (called.pushed <+: returned.applied ↔
        called.queue.contents = [] ∨ called.LastPopEmpties) := by
  intro called returned
  have hcalled : called.Conserved engine :=
    Run.run_invariant _ (fun _ event h => h.step event) (conserved_start queue engine) before
  have hstopping : returned.Stopping engine called.pushed
      (called.queue.contents = [] ∨ called.LastPopEmpties) := by
    refine Run.run_invariant _ (fun _ event h => h.step event) ?_ after
    exact ⟨rfl, ⟨hcalled.pushed, hcalled.engine_eq⟩, List.prefix_rfl,
      pushed_le_promised_iff hcalled⟩
  have hphase : returned.phase = .exited := hexited
  have hpromised : returned.promised = returned.applied.length := by
    simp [promised, hphase, FillLoopPhase.held]
  have happlied : returned.applied <+: returned.pushed := by
    rw [hstopping.conserved.pushed, List.append_assoc]
    exact List.prefix_append _ _
  refine ⟨hstopping.conserved.engine_eq, ?_⟩
  rw [← hstopping.covered_iff, hpromised]
  exact ⟨List.IsPrefix.length_le, List.prefix_of_prefix_length_le hstopping.kept happlied⟩

theorem stop_drains_last_fill :
    let fill : Fill := { instrumentToken := 1, side := .buy, quantity := 10, price := 100 }
    let called := Run.run step (start (SpscQueue.init _ {}) .init) [.turn, .push fill]
    called.pushed <+: (Run.run step called.requestStop [.turn, .turn, .turn]).applied := by
  intro fill called
  refine (stop_drains_iff (SpscQueue.init _ {}) .init [.turn, .push fill] [.turn, .turn, .turn]
    ?_).2.mpr (Or.inr ⟨rfl, ?_⟩)
  · decide +kernel
  · decide +kernel

/-- Two fills are queued when the flag is set: the loop leaves at its next test, and neither
reaches a position. -/
theorem stop_leaves_backlog :
    let fills : List Fill :=
      [{ instrumentToken := 1, side := .buy, quantity := 10, price := 100 },
       { instrumentToken := 1, side := .sell, quantity := 10, price := 110 }]
    let called := Run.run step (start (SpscQueue.init _ {}) .init) (fills.map .push)
    let returned := Run.run step called.requestStop [.turn, .turn, .turn]
    returned.phase = .exited ∧ returned.applied = [] ∧
      ¬called.pushed <+: returned.applied := by
  decide +kernel

end FillLoop

end QuantForge
