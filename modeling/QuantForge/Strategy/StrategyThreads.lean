import QuantForge.Common.TickDisruptor
import QuantForge.Common.Types

/-! The threads of `strategy/strategy_manager.cpp`: `run_strategy_thread` beside the normalizer
that publishes, the main thread in `stop_all` and the callers of `halt_strategy`, each cut into its
steps. -/
namespace QuantForge

open Library

inductive ThreadPhase where
  | starting
  | testing
  | consuming
  | caching (tick : NormalizedTick)
  | ticking (tick : NormalizedTick)
  | stopping
  | ended
  deriving DecidableEq

/-- The callbacks that the thread of a strategy calls; `startFailed` is `on_start` that threw. -/
inductive ThreadCall where
  | onStart
  | startFailed
  | onTick (tick : NormalizedTick)
  | onStop
  deriving DecidableEq

/-- `calls` lists what the thread has called, the earliest first. `stops` and `kills` count the
calls of `on_stop` in `stop_all` and of `on_kill_signal` in `halt_strategy`. -/
structure StrategyThread where
  phase : ThreadPhase := .starting
  running : Bool := true
  calls : List ThreadCall := []
  stops : Nat := 0
  kills : Nat := 0
  deriving DecidableEq

namespace StrategyThread

/-- `on_stop` is called by another thread. -/
def noteStop (th : StrategyThread) : StrategyThread := { th with stops := th.stops + 1 }

def noteKill (th : StrategyThread) : StrategyThread := { th with kills := th.kills + 1 }

/-- `running.store (false)` -/
def lower (th : StrategyThread) : StrategyThread := { th with running := false }

/-- `throws` is whether `on_start` throws, and `consumed` is what `try_consume` answers. The
exceptions of the other callbacks are caught and change nothing. -/
def turn (th : StrategyThread) (throws : Bool) (consumed : Option NormalizedTick) :
    StrategyThread :=
  match th.phase with
  | .starting =>
      if throws then
        { th with calls := th.calls ++ [.startFailed], running := false, phase := .ended }
      else { th with calls := th.calls ++ [.onStart], phase := .testing }
  | .testing => { th with phase := if th.running then .consuming else .stopping }
  | .consuming =>
      match consumed with
      | none => { th with phase := .testing }
      | some tick => { th with phase := .caching tick }
  | .caching tick => { th with phase := .ticking tick }
  | .ticking tick => { th with calls := th.calls ++ [.onTick tick], phase := .testing }
  | .stopping => { th with calls := th.calls ++ [.onStop], phase := .ended }
  | .ended => th

def ticked (th : StrategyThread) : List NormalizedTick :=
  th.calls.filterMap fun
    | .onTick tick => some tick
    | _ => none

/-- What a thread that received these ticks calls until it stops. -/
def script (received : List NormalizedTick) : List ThreadCall :=
  .onStart :: received.map .onTick

/-- Where in its script a thread is, at each of its program points. -/
def Follows (th : StrategyThread) (received : List NormalizedTick) : Prop :=
  match th.phase with
  | .starting => th.calls = [] ∧ received = []
  | .caching tick | .ticking tick =>
      ∃ earlier, received = earlier ++ [tick] ∧ th.calls = script earlier
  | .ended => th.calls = [.startFailed] ∧ received = [] ∨ th.calls = script received ++ [.onStop]
  | _ => th.calls = script received

@[simp] theorem script_append (received : List NormalizedTick) (tick : NormalizedTick) :
    script (received ++ [tick]) = script received ++ [.onTick tick] := by
  simp [script]

theorem ticked_of_script {th : StrategyThread} {received : List NormalizedTick}
    (h : th.calls = script received) : th.ticked = received := by
  simp only [ticked, h, script, List.filterMap_cons, List.filterMap_map]
  exact List.filterMap_some

def receives (th : StrategyThread) (consumed : Option NormalizedTick) : List NormalizedTick :=
  if th.phase = .consuming then consumed.toList else []

theorem follows_turn {th : StrategyThread} {received : List NormalizedTick}
    (h : th.Follows received) (throws : Bool) (consumed : Option NormalizedTick) :
    (th.turn throws consumed).Follows (received ++ th.receives consumed) := by
  obtain ⟨phase, running, calls, stops, kills⟩ := th
  cases phase with
  | starting =>
      obtain ⟨rfl, rfl⟩ : calls = [] ∧ received = [] := h
      cases throws with
      | false => exact rfl
      | true => exact .inl ⟨rfl, rfl⟩
  | testing =>
      have hcalls : calls = script received := h
      have hnone : received ++ [] = received := List.append_nil _
      cases running with
      | false => exact hcalls.trans (congrArg script hnone.symm)
      | true => exact hcalls.trans (congrArg script hnone.symm)
  | consuming =>
      have hcalls : calls = script received := h
      cases consumed with
      | none => exact hcalls.trans (congrArg script (List.append_nil _).symm)
      | some tick => exact ⟨received, rfl, hcalls⟩
  | caching tick =>
      obtain ⟨earlier, rfl, hcalls⟩ := h
      exact ⟨earlier, List.append_nil _, hcalls⟩
  | ticking tick =>
      obtain ⟨earlier, rfl, hcalls⟩ := h
      have hnext : calls ++ [.onTick tick] = script (earlier ++ [tick]) := by
        rw [script_append, ← hcalls]
      exact hnext.trans (congrArg script (List.append_nil _).symm)
  | stopping =>
      have hcalls : calls = script received := h
      refine .inr ?_
      rw [show received ++ receives _ _ = received from List.append_nil _]
      exact congrArg (· ++ [.onStop]) hcalls
  | ended =>
      rw [show received ++ receives _ _ = received from List.append_nil _]
      exact h

theorem Follows.of_eq {th th' : StrategyThread} {received : List NormalizedTick}
    (h : th.Follows received) (hphase : th'.phase = th.phase) (hcalls : th'.calls = th.calls) :
    th'.Follows received := by
  rw [Follows, hphase, hcalls]
  exact h

end StrategyThread

/-- Where `stop_all` is: the strategy whose turn it is, and those that follow. -/
inductive StopPhase (Strategy : Type*) where
  | notCalled
  | stopping (strategy : Strategy) (rest : List Strategy)
  | lowering (strategy : Strategy) (rest : List Strategy)
  | joining (strategy : Strategy) (rest : List Strategy)
  | cleared

namespace StopPhase

variable {Strategy : Type*}

def enter : List Strategy → StopPhase Strategy
  | [] => .cleared
  | strategy :: rest => .stopping strategy rest

def left (loaded : List Strategy) : StopPhase Strategy → List Strategy
  | .notCalled => loaded
  | .stopping c rest | .lowering c rest | .joining c rest => c :: rest
  | .cleared => []

def uncalled (loaded : List Strategy) : StopPhase Strategy → List Strategy
  | .notCalled => loaded
  | .stopping c rest => c :: rest
  | .lowering _ rest | .joining _ rest => rest
  | .cleared => []

@[simp] theorem left_enter (loaded rest : List Strategy) : (enter rest).left loaded = rest := by
  cases rest <;> rfl

@[simp] theorem uncalled_enter (loaded rest : List Strategy) :
    (enter rest).uncalled loaded = rest := by
  cases rest <;> rfl

end StopPhase

/-- `halting` is the strategy of a `halt_strategy` that holds `mtx_` and has called
`on_kill_signal`. -/
structure StrategyThreads (Strategy : Type*) where
  loaded : List Strategy
  fan : FanOut Strategy NormalizedTick
  thread : Strategy → StrategyThread := fun _ => {}
  lastTickCache : Dict Nat NormalizedTick := ∅
  stop : StopPhase Strategy := .notCalled
  halting : Option Strategy := none

inductive StrategyThreadEvent (Strategy : Type*) where
  | push (tick : NormalizedTick)
  | turn (strategy : Strategy) (throws : Bool)
  | stopAll
  | haltStrategy (strategy : Strategy)
  | lower

namespace StrategyThreads

variable {Strategy : Type*}

def init (loaded : List Strategy) (blank : NormalizedTick) : StrategyThreads Strategy where
  loaded := loaded
  fan := FanOut.init Strategy blank

/-- `get_last_tick`; `none` is the empty tick. -/
def getLastTick (s : StrategyThreads Strategy) (token : Nat) : Option NormalizedTick :=
  s.lastTickCache.lookup token

def writes : ThreadPhase → Option NormalizedTick
  | .caching tick => some tick
  | _ => none

def cacheTick (cache : Dict Nat NormalizedTick) (phase : ThreadPhase) : Dict Nat NormalizedTick :=
  match writes phase with
  | none => cache
  | some tick => cache.insert tick.instrumentToken tick

def consumed (s : StrategyThreads Strategy) (c : Strategy) : Option NormalizedTick :=
  (s.fan.ring.tryConsume (s.fan.cursor c)).map Prod.fst

variable [DecidableEq Strategy]

def update (s : StrategyThreads Strategy) (c : Strategy) (f : StrategyThread → StrategyThread) :
    StrategyThreads Strategy :=
  { s with thread := Function.update s.thread c (f (s.thread c)) }

def stopAll (s : StrategyThreads Strategy) : StrategyThreads Strategy :=
  match s.stop with
  | .notCalled => { s with stop := StopPhase.enter s.loaded }
  | .stopping c rest =>
      { s.update c StrategyThread.noteStop with stop := .lowering c rest }
  | .lowering c rest =>
      { s.update c StrategyThread.lower with stop := .joining c rest }
  | .joining c rest =>
      if (s.thread c).phase = .ended then { s with stop := StopPhase.enter rest } else s
  | .cleared => s

def step (s : StrategyThreads Strategy) :
    StrategyThreadEvent Strategy → StrategyThreads Strategy
  | .push tick => { s with fan := s.fan.step (.push tick) }
  | .turn c throws =>
      { s.update c (fun th => th.turn throws (s.consumed c)) with
        fan := if (s.thread c).phase = .consuming then s.fan.step (.tryConsume c) else s.fan
        lastTickCache := cacheTick s.lastTickCache (s.thread c).phase }
  | .stopAll => s.stopAll
  | .haltStrategy c =>
      if s.halting = none then
        { s.update c StrategyThread.noteKill with halting := some c }
      else s
  | .lower =>
      match s.halting with
      | none => s
      | some c =>
          { s.update c StrategyThread.lower with halting := none }

section Protocol

variable {blank : NormalizedTick} {s : StrategyThreads Strategy} {c : Strategy}

@[simp] theorem thread_update_self (f : StrategyThread → StrategyThread) :
    (s.update c f).thread c = f (s.thread c) := Function.update_self _ _ _

theorem thread_update_of_ne {d : Strategy} (h : d ≠ c) (f : StrategyThread → StrategyThread) :
    (s.update c f).thread d = s.thread d := Function.update_of_ne h _ _

theorem received_tryConsume (fan : FanOut Strategy NormalizedTick) (c : Strategy) :
    (fan.step (.tryConsume c)).received =
      Function.update fan.received c
        (fan.received c ++ ((fan.ring.tryConsume (fan.cursor c)).map Prod.fst).toList) := by
  cases hconsume : fan.ring.tryConsume (fan.cursor c) with
  | none =>
      rw [FanOut.step_refused hconsume, Option.map_none, Option.toList_none, List.append_nil,
        Function.update_eq_self]
  | some answer => rw [FanOut.step_received hconsume, Option.map_some, Option.toList_some]

theorem received_turn (s : StrategyThreads Strategy) (c : Strategy) (throws : Bool) :
    (s.step (.turn c throws)).fan.received =
      Function.update s.fan.received c
        (s.fan.received c ++ (s.thread c).receives (s.consumed c)) := by
  simp only [step, StrategyThread.receives]
  split_ifs
  · exact received_tryConsume s.fan c
  · rw [List.append_nil, Function.update_eq_self]

@[simp] theorem loaded_step (s : StrategyThreads Strategy) (event : StrategyThreadEvent Strategy) :
    (s.step event).loaded = s.loaded := by
  cases event with
  | stopAll =>
      simp only [step, stopAll]
      split <;> first | rfl | (split <;> rfl)
  | haltStrategy c =>
      simp only [step]
      split <;> rfl
  | lower =>
      simp only [step]
      split <;> rfl
  | _ => rfl

/-- What holds of the threads in every state: each follows its script, and `stop_all` has called
`on_stop` of the strategies that it has come to, and joined the threads of those before. -/
structure Sound (s : StrategyThreads Strategy) : Prop where
  follows : ∀ c, (s.thread c).Follows (s.fan.received c)
  suffix : s.stop.left s.loaded <:+ s.loaded
  joined : ∀ c ∈ s.loaded, c ∉ s.stop.left s.loaded → (s.thread c).phase = .ended
  stops : ∀ c ∈ s.loaded, (s.thread c).stops = if c ∈ s.stop.uncalled s.loaded then 0 else 1

theorem sound_init (loaded : List Strategy) (blank : NormalizedTick) :
    (init loaded blank).Sound where
  follows := fun _ => ⟨rfl, rfl⟩
  suffix := List.suffix_refl _
  joined := fun _ hmem hleft => absurd hmem hleft
  stops := fun _ hmem => (if_pos hmem).symm

theorem Sound.of_same (h : s.Sound) {s' : StrategyThreads Strategy}
    (hloaded : s'.loaded = s.loaded) (hreceived : s'.fan.received = s.fan.received)
    (hphase : ∀ d, (s'.thread d).phase = (s.thread d).phase)
    (hcalls : ∀ d, (s'.thread d).calls = (s.thread d).calls)
    (hstops : ∀ d, (s'.thread d).stops = (s.thread d).stops)
    (hleft : s'.stop.left s.loaded = s.stop.left s.loaded)
    (huncalled : s'.stop.uncalled s.loaded = s.stop.uncalled s.loaded) : s'.Sound where
  follows := fun d => by
    rw [hreceived]
    exact (h.follows d).of_eq (hphase d) (hcalls d)
  suffix := by
    rw [hloaded, hleft]
    exact h.suffix
  joined := by
    rw [hloaded, hleft]
    exact fun d hd hout => (hphase d).trans (h.joined d hd hout)
  stops := by
    rw [hloaded, huncalled]
    exact fun d hd => (hstops d).trans (h.stops d hd)

theorem Sound.of_update (h : s.Sound) {s' : StrategyThreads Strategy}
    {f : StrategyThread → StrategyThread} (hthread : s'.thread = (s.update c f).thread)
    (hf : ∀ th, (f th).phase = th.phase ∧ (f th).calls = th.calls ∧ (f th).stops = th.stops)
    (hloaded : s'.loaded = s.loaded) (hreceived : s'.fan.received = s.fan.received)
    (hleft : s'.stop.left s.loaded = s.stop.left s.loaded)
    (huncalled : s'.stop.uncalled s.loaded = s.stop.uncalled s.loaded) : s'.Sound := by
  have hsame : ∀ d, (s'.thread d).phase = (s.thread d).phase ∧
      (s'.thread d).calls = (s.thread d).calls ∧ (s'.thread d).stops = (s.thread d).stops := by
    intro d
    rw [hthread]
    by_cases heq : d = c
    · rw [heq, thread_update_self]
      exact hf _
    · rw [thread_update_of_ne heq]
      exact ⟨rfl, rfl, rfl⟩
  exact h.of_same hloaded hreceived (fun d => (hsame d).1) (fun d => (hsame d).2.1)
    (fun d => (hsame d).2.2) hleft huncalled

theorem stops_turn (th : StrategyThread) (throws : Bool) (consumed : Option NormalizedTick) :
    (th.turn throws consumed).stops = th.stops := by
  unfold StrategyThread.turn
  split <;> first | rfl | (split <;> rfl)

theorem turn_of_ended {th : StrategyThread} (h : th.phase = .ended) (throws : Bool)
    (consumed : Option NormalizedTick) : th.turn throws consumed = th := by
  unfold StrategyThread.turn
  rw [h]

theorem thread_turn (s : StrategyThreads Strategy) (c : Strategy) (throws : Bool) :
    (s.step (.turn c throws)).thread =
      Function.update s.thread c ((s.thread c).turn throws (s.consumed c)) := rfl

theorem sound_turn (h : s.Sound) (c : Strategy) (throws : Bool) :
    (s.step (.turn c throws)).Sound where
  follows := by
    intro d
    rw [received_turn, thread_turn]
    by_cases heq : d = c
    · rw [heq, Function.update_self, Function.update_self]
      exact StrategyThread.follows_turn (h.follows c) throws _
    · rw [Function.update_of_ne heq, Function.update_of_ne heq]
      exact h.follows d
  suffix := h.suffix
  joined := by
    intro d hd hout
    have hended := h.joined d hd hout
    rw [thread_turn]
    by_cases heq : d = c
    · rw [heq] at hended
      rw [heq, Function.update_self, turn_of_ended hended]
      exact hended
    · rw [Function.update_of_ne heq]
      exact hended
  stops := by
    intro d hd
    refine Eq.trans ?_ (h.stops d hd)
    rw [thread_turn]
    by_cases heq : d = c
    · rw [heq, Function.update_self, stops_turn]
    · rw [Function.update_of_ne heq]

theorem sound_stopAll (h : s.Sound) (hnodup : s.loaded.Nodup) : s.stopAll.Sound := by
  unfold stopAll
  split
  · rename_i hstop
    exact h.of_same rfl rfl (fun _ => rfl) (fun _ => rfl) (fun _ => rfl)
      (by rw [hstop]; exact StopPhase.left_enter _ _)
      (by rw [hstop]; exact StopPhase.uncalled_enter _ _)
  · rename_i c rest hstop
    obtain ⟨hfollows, hsuffix, hjoined, hstops⟩ := h
    rw [hstop] at hsuffix hjoined hstops
    have hrest : c ∉ rest := (List.nodup_cons.mp (hnodup.sublist hsuffix.sublist)).1
    refine ⟨fun d => ?_, hsuffix, fun d hd hout => ?_, fun d hd => ?_⟩
    · change ((s.update c StrategyThread.noteStop).thread d).Follows _
      by_cases heq : d = c
      · rw [heq, thread_update_self]
        exact (hfollows c).of_eq rfl rfl
      · rw [thread_update_of_ne heq]
        exact hfollows d
    · have hne : d ≠ c := fun heq => hout (heq ▸ List.mem_cons_self)
      change ((s.update c StrategyThread.noteStop).thread d).phase = .ended
      rw [thread_update_of_ne hne]
      exact hjoined d hd hout
    · change ((s.update c StrategyThread.noteStop).thread d).stops = if d ∈ rest then 0 else 1
      by_cases heq : d = c
      · have hzero : (s.thread c).stops = 0 :=
          (hstops c (heq ▸ hd)).trans (if_pos List.mem_cons_self)
        rw [heq, thread_update_self, if_neg hrest, StrategyThread.noteStop, hzero]
      · rw [thread_update_of_ne heq, hstops d hd]
        exact if_congr (by simp [StopPhase.uncalled, heq]) rfl rfl
  · rename_i c rest hstop
    exact h.of_update (f := StrategyThread.lower) rfl (fun _ => ⟨rfl, rfl, rfl⟩) rfl rfl
      (by rw [hstop]; rfl) (by rw [hstop]; rfl)
  · rename_i c rest hstop
    split
    · rename_i hended
      obtain ⟨hfollows, hsuffix, hjoined, hstops⟩ := h
      rw [hstop] at hsuffix hjoined hstops
      refine ⟨hfollows, ?_, fun d hd hout => ?_, fun d hd => ?_⟩
      · rw [StopPhase.left_enter]
        exact (List.suffix_cons c rest).trans hsuffix
      · rw [StopPhase.left_enter] at hout
        by_cases heq : d = c
        · rw [heq]
          exact hended
        · exact hjoined d hd (by simp [StopPhase.left, heq, hout])
      · rw [StopPhase.uncalled_enter]
        exact hstops d hd
    · exact h
  · exact h

theorem sound_step (h : s.Sound) (hnodup : s.loaded.Nodup)
    (event : StrategyThreadEvent Strategy) : (s.step event).Sound := by
  cases event with
  | push tick => exact h.of_same rfl rfl (fun _ => rfl) (fun _ => rfl) (fun _ => rfl) rfl rfl
  | turn c throws => exact sound_turn h c throws
  | stopAll => exact sound_stopAll h hnodup
  | haltStrategy c =>
      simp only [step]
      split
      · exact h.of_update (f := StrategyThread.noteKill) rfl (fun _ => ⟨rfl, rfl, rfl⟩) rfl rfl rfl
          rfl
      · exact h
  | lower =>
      simp only [step]
      split
      · exact h
      · exact h.of_update (f := StrategyThread.lower) rfl (fun _ => ⟨rfl, rfl, rfl⟩) rfl rfl rfl rfl

/-- What the plugin sees of its thread. All received ticks are handed to `on_tick`, in their order
and once, the last of them perhaps not yet. -/
structure Protocol (s : StrategyThreads Strategy) (c : Strategy) : Prop where
  calls : (s.thread c).calls = [.startFailed] ∨
    (s.thread c).calls <+: StrategyThread.script (s.fan.received c) ++ [.onStop]
  handed : ∃ last : Option NormalizedTick,
    s.fan.received c = (s.thread c).ticked ++ last.toList
  ended : (s.thread c).phase = .ended →
    (s.thread c).calls = [.startFailed] ∧ s.fan.received c = [] ∨
      (s.thread c).calls = StrategyThread.script (s.fan.received c) ++ [.onStop]

/-- Once `stop_all` has returned, the thread of every strategy has ended, and each `on_stop` was
called once here and, unless the start failed, once by the thread itself. -/
def StoppedTwice (s : StrategyThreads Strategy) : Prop :=
  s.stop = .cleared → ∀ c ∈ s.loaded, (s.thread c).phase = .ended ∧ (s.thread c).stops = 1

omit [DecidableEq Strategy] in
theorem protocol_of_script (h : (s.thread c).calls = StrategyThread.script (s.fan.received c))
    (hphase : (s.thread c).phase ≠ .ended) : s.Protocol c where
  calls := .inr (h ▸ List.prefix_append _ _)
  handed := ⟨none, by
    rw [StrategyThread.ticked_of_script h, Option.toList_none, List.append_nil]⟩
  ended := fun hended => absurd hended hphase

omit [DecidableEq Strategy] in
theorem protocol_of_pending {earlier : List NormalizedTick} {tick : NormalizedTick}
    (hreceived : s.fan.received c = earlier ++ [tick])
    (hcalls : (s.thread c).calls = StrategyThread.script earlier)
    (hphase : (s.thread c).phase ≠ .ended) : s.Protocol c where
  calls := by
    rw [hcalls, hreceived, StrategyThread.script_append]
    exact .inr ((List.prefix_append _ _).trans (List.prefix_append _ _))
  handed := ⟨some tick, by rw [StrategyThread.ticked_of_script hcalls, hreceived]; rfl⟩
  ended := fun hended => absurd hended hphase

omit [DecidableEq Strategy] in
theorem protocol_of_follows (h : (s.thread c).Follows (s.fan.received c)) : s.Protocol c := by
  cases hphase : (s.thread c).phase with
  | starting =>
      rw [StrategyThread.Follows, hphase] at h
      refine ⟨.inr (h.1 ▸ List.nil_prefix), ⟨none, ?_⟩, by simp [hphase]⟩
      simp [StrategyThread.ticked, h.1, h.2]
  | ended =>
      rw [StrategyThread.Follows, hphase] at h
      refine ⟨h.imp And.left fun hcalls => ⟨[], by rw [hcalls, List.append_nil]⟩, ⟨none, ?_⟩,
        fun _ => h⟩
      rcases h with ⟨hcalls, hreceived⟩ | hcalls
      · simp [StrategyThread.ticked, hcalls, hreceived]
      · simp [StrategyThread.ticked, hcalls, StrategyThread.script, List.filterMap_map]
  | caching tick =>
      rw [StrategyThread.Follows, hphase] at h
      obtain ⟨earlier, hreceived, hcalls⟩ := h
      exact protocol_of_pending hreceived hcalls (by simp [hphase])
  | ticking tick =>
      rw [StrategyThread.Follows, hphase] at h
      obtain ⟨earlier, hreceived, hcalls⟩ := h
      exact protocol_of_pending hreceived hcalls (by simp [hphase])
  | _ =>
      rw [StrategyThread.Follows, hphase] at h
      exact protocol_of_script h (by simp [hphase])

theorem stoppedTwice_of_sound (h : s.Sound) : s.StoppedTwice := by
  intro hstop c hc
  have hjoined := h.joined c hc
  have hstops := h.stops c hc
  rw [hstop] at hjoined hstops
  exact ⟨hjoined List.not_mem_nil, hstops.trans (if_neg List.not_mem_nil)⟩

def WithinLap (s : StrategyThreads Strategy) : StrategyThreadEvent Strategy → Prop
  | .turn c _ => (s.thread c).phase = .consuming → s.fan.WithinLap (.tryConsume c)
  | _ => True

instance (s : StrategyThreads Strategy) : DecidablePred s.WithinLap
  | .turn _ _ => inferInstanceAs (Decidable (_ = _ → _ ≤ _))
  | .push _ => isTrue trivial
  | .stopAll => isTrue trivial
  | .haltStrategy _ => isTrue trivial
  | .lower => isTrue trivial

theorem fan_stopAll (s : StrategyThreads Strategy) : s.stopAll.fan = s.fan := by
  unfold stopAll
  split <;> first | rfl | (split <;> rfl)

theorem inStep_step (h : FanOut.InStep blank s.fan) {event : StrategyThreadEvent Strategy}
    (hlap : s.WithinLap event) : FanOut.InStep blank (s.step event).fan := by
  cases event with
  | push tick => exact FanOut.inStep_step h (.push tick) trivial
  | turn c throws =>
      simp only [step]
      split
      · rename_i hphase
        exact FanOut.inStep_step h (.tryConsume c) (hlap hphase)
      · exact h
  | stopAll => exact (fan_stopAll s).symm ▸ h
  | haltStrategy c =>
      simp only [step]
      split <;> exact h
  | lower =>
      simp only [step]
      split <;> exact h

/-- However the threads interleave, the thread of a strategy calls `on_start`, then hands on the
ticks that it received, then calls `on_stop`; they are the first ticks published when the strategy
stays within a lap; and after `stop_all` each thread has ended. -/
theorem strategy_threads_follow (loaded : List Strategy) (hnodup : loaded.Nodup)
    (blank : NormalizedTick) (events : List (StrategyThreadEvent Strategy)) :
    Run.Always step (fun s => (∀ c, s.Protocol c) ∧ s.StoppedTwice) (init loaded blank) events ∧
      (Run.Along step WithinLap (init loaded blank) events →
        Run.Always step (fun s => ∀ c, s.fan.received c <+: s.fan.pushed) (init loaded blank)
          events) := by
  constructor
  · have hall : Run.Along step (fun _ _ => True) (init loaded blank) events :=
      Run.along_of_forall _ (fun _ => True) (fun _ _ h => h) _ fun _ _ => trivial
    have hsound := Run.always_of_along (fun s => s.Sound ∧ s.loaded.Nodup)
      (fun s event h _ => ⟨sound_step h.1 h.2 event, (s.loaded_step event).symm ▸ h.2⟩)
      ⟨sound_init loaded blank, hnodup⟩ hall
    exact hsound.imp fun s h =>
      ⟨fun c => protocol_of_follows (h.1.follows c), stoppedTwice_of_sound h.1⟩
  · intro hlap
    have hstep := Run.always_of_along (fun s => FanOut.InStep blank s.fan)
      (fun _ _ h hguard => inStep_step h hguard) FanOut.inStep_init hlap
    exact hstep.imp fun s h c => h.received_prefix c

def stoppedRun : List (StrategyThreadEvent Bool) :=
  [.push { instrumentToken := 7, ltp := 100 }] ++ List.replicate 6 (.turn true false) ++
    List.replicate 3 .stopAll ++ List.replicate 3 (.turn true false) ++ List.replicate 4 .stopAll ++
    List.replicate 3 (.turn false false) ++ [.stopAll]

theorem strategy_threads_follow_stoppedRun :
    let s := Run.run step (init [true, false] { instrumentToken := 0 }) stoppedRun
    s.stop = .cleared ∧ (s.thread true).stops = 1 ∧
      (s.thread true).calls = [.onStart, .onTick { instrumentToken := 7, ltp := 100 }, .onStop] ∧
      s.fan.received true <+: s.fan.pushed := by
  obtain ⟨hfollows, hdelivers⟩ := strategy_threads_follow [true, false] (by decide)
    { instrumentToken := 0 } stoppedRun
  have hstop : (Run.run step (init [true, false] { instrumentToken := 0 }) stoppedRun).stop =
      .cleared := by rfl
  exact ⟨hstop, (hfollows.last.2 hstop true (by decide)).2, by decide +kernel,
    (hdelivers (by decide +kernel)).last true⟩

section Lowered

def remaining : ThreadPhase → Nat
  | .starting => 3
  | .testing => 2
  | .consuming => 5
  | .caching _ => 4
  | .ticking _ => 3
  | .stopping => 1
  | .ended => 0

def due : ThreadPhase → Nat
  | .consuming | .caching _ | .ticking _ => 1
  | _ => 0

def isTurnOf (c : Strategy) : StrategyThreadEvent Strategy → Bool
  | .turn d _ => d = c
  | _ => false

theorem remaining_turn {th : StrategyThread} (h : th.running = false) (throws : Bool)
    (consumed : Option NormalizedTick) :
    remaining (th.turn throws consumed).phase ≤ remaining th.phase - 1 := by
  obtain ⟨phase, running, calls, stops, kills⟩ := th
  obtain rfl : running = false := h
  cases phase with
  | starting => cases throws <;> simp [StrategyThread.turn, remaining]
  | consuming => cases consumed <;> simp [StrategyThread.turn, remaining]
  | _ => simp [StrategyThread.turn, remaining]

theorem running_turn {th : StrategyThread} (h : th.running = false) (throws : Bool)
    (consumed : Option NormalizedTick) : (th.turn throws consumed).running = false := by
  unfold StrategyThread.turn
  split <;> first | exact h | (split <;> first | exact h | rfl)

theorem due_turn {th : StrategyThread} (h : th.running = false) (throws : Bool)
    (consumed : Option NormalizedTick) :
    (th.turn throws consumed).ticked.length + due (th.turn throws consumed).phase ≤
      th.ticked.length + due th.phase := by
  obtain ⟨phase, running, calls, stops, kills⟩ := th
  obtain rfl : running = false := h
  cases phase with
  | starting => cases throws <;> simp [StrategyThread.turn, StrategyThread.ticked, due]
  | consuming => cases consumed <;> simp [StrategyThread.turn, StrategyThread.ticked, due]
  | _ => simp [StrategyThread.turn, StrategyThread.ticked, due]

theorem thread_step_of_other {event : StrategyThreadEvent Strategy}
    (h : isTurnOf c event = false) :
    ((s.step event).thread c).phase = (s.thread c).phase ∧
      ((s.step event).thread c).calls = (s.thread c).calls ∧
      ((s.thread c).running = false → ((s.step event).thread c).running = false) := by
  have hupdate : ∀ (d : Strategy) (f : StrategyThread → StrategyThread),
      (∀ th, (f th).phase = th.phase ∧ (f th).calls = th.calls ∧
        (th.running = false → (f th).running = false)) →
      ((s.update d f).thread c).phase = (s.thread c).phase ∧
        ((s.update d f).thread c).calls = (s.thread c).calls ∧
        ((s.thread c).running = false → ((s.update d f).thread c).running = false) := by
    intro d f hf
    by_cases heq : c = d
    · rw [heq, thread_update_self]
      exact hf _
    · rw [thread_update_of_ne heq]
      exact ⟨rfl, rfl, id⟩
  cases event with
  | push tick => exact ⟨rfl, rfl, id⟩
  | turn d throws =>
      have hne : c ≠ d := fun heq => by simp [isTurnOf, heq] at h
      rw [thread_turn, Function.update_of_ne hne]
      exact ⟨rfl, rfl, id⟩
  | stopAll =>
      simp only [step, stopAll]
      split
      · exact ⟨rfl, rfl, id⟩
      · exact hupdate _ StrategyThread.noteStop fun _ => ⟨rfl, rfl, id⟩
      · exact hupdate _ StrategyThread.lower fun _ => ⟨rfl, rfl, fun _ => rfl⟩
      · split <;> exact ⟨rfl, rfl, id⟩
      · exact ⟨rfl, rfl, id⟩
  | haltStrategy d =>
      simp only [step]
      split
      · exact hupdate _ StrategyThread.noteKill fun _ => ⟨rfl, rfl, id⟩
      · exact ⟨rfl, rfl, id⟩
  | lower =>
      simp only [step]
      split
      · exact ⟨rfl, rfl, id⟩
      · exact hupdate _ StrategyThread.lower fun _ => ⟨rfl, rfl, fun _ => rfl⟩

structure Winding (turns : Nat) (before after : StrategyThread) : Prop where
  running : after.running = false
  turns : remaining after.phase ≤ remaining before.phase - turns
  ticks : after.ticked.length + due after.phase ≤ before.ticked.length + due before.phase
  ended : before.phase = .ended → after.calls = before.calls

theorem winding_step (hlow : (s.thread c).running = false)
    (event : StrategyThreadEvent Strategy) :
    Winding (if isTurnOf c event then 1 else 0) (s.thread c) ((s.step event).thread c) := by
  cases hturn : isTurnOf c event with
  | false =>
      obtain ⟨hphase, hcalls, hrunning⟩ := thread_step_of_other (s := s) hturn
      refine ⟨hrunning hlow, ?_, ?_, fun _ => hcalls⟩
      · rw [hphase]
        exact le_refl _
      · rw [hphase, StrategyThread.ticked, StrategyThread.ticked, hcalls]
  | true =>
      cases event with
      | turn d throws =>
          obtain rfl : d = c := by simpa [isTurnOf] using hturn
          rw [thread_turn, Function.update_self]
          exact ⟨running_turn hlow _ _, remaining_turn hlow _ _, due_turn hlow _ _,
            fun hended => by rw [turn_of_ended hended]⟩
      | _ => simp [isTurnOf] at hturn

theorem winding_run (hlow : (s.thread c).running = false)
    (later : List (StrategyThreadEvent Strategy)) :
    Winding (later.countP (isTurnOf c)) (s.thread c) ((Run.run step s later).thread c) := by
  induction later generalizing s with
  | nil => exact ⟨hlow, le_refl _, le_refl _, fun _ => rfl⟩
  | cons event later ih =>
      have hfirst := winding_step hlow event
      have hrest := ih hfirst.running
      refine ⟨hrest.running, ?_, hrest.ticks.trans hfirst.ticks, fun hended => ?_⟩
      · have hturns := hrest.turns
        have hone := hfirst.turns
        rw [List.countP_cons]
        split at hone <;> simp_all <;> omega
      · have hzero : remaining ((s.step event).thread c).phase = 0 := by
          have := hfirst.turns
          rw [hended] at this
          exact Nat.le_zero.mp (this.trans (Nat.sub_le 0 _))
        have hstill : ((s.step event).thread c).phase = .ended := by
          cases hphase : ((s.step event).thread c).phase <;> simp_all [remaining]
        exact (hrest.ended hstill).trans (hfirst.ended hended)

/-- Once the flag of a strategy is lowered, in whatever state and whatever the other threads do, it
stays lowered, its plugin is handed at most one tick more, and the thread ends within five turns of
its own, after which it calls nothing. -/
theorem lowered_thread_ends (s : StrategyThreads Strategy) (c : Strategy)
    (hlow : (s.thread c).running = false) (later : List (StrategyThreadEvent Strategy)) :
    ((Run.run step s later).thread c).running = false ∧
      ((Run.run step s later).thread c).ticked.length ≤ (s.thread c).ticked.length + 1 ∧
      (5 ≤ later.countP (isTurnOf c) → ((Run.run step s later).thread c).phase = .ended) ∧
      ((s.thread c).phase = .ended →
        ((Run.run step s later).thread c).calls = (s.thread c).calls) := by
  obtain ⟨hrunning, hturns, hticks, hended⟩ := winding_run hlow later
  refine ⟨hrunning, ?_, fun hfive => ?_, hended⟩
  · have hdue : due (s.thread c).phase ≤ 1 := by cases (s.thread c).phase <;> simp [due]
    omega
  · have hbound : remaining (s.thread c).phase ≤ 5 := by
      cases (s.thread c).phase <;> simp [remaining]
    have hzero : remaining ((Run.run step s later).thread c).phase = 0 := by omega
    cases hphase : ((Run.run step s later).thread c).phase <;> simp_all [remaining]

theorem lowered_thread_ends_afterTest :
    let s := Run.run step (init [()] { instrumentToken := 0 })
      [.push { instrumentToken := 7, ltp := 100 }, .turn () false, .turn () false, .stopAll,
        .stopAll, .stopAll]
    let later : List (StrategyThreadEvent Unit) := List.replicate 5 (.turn () false)
    ((Run.run step s later).thread ()).phase = .ended ∧
      ((Run.run step s later).thread ()).ticked.length = 1 := by
  refine ⟨?_, by decide +kernel⟩
  exact (lowered_thread_ends _ () (by decide +kernel) _).2.2.1 (by decide)

end Lowered

section Cache

def lastOf (token : Nat) (ticks : List NormalizedTick) : Option NormalizedTick :=
  (ticks.filter fun tick => tick.instrumentToken = token).getLast?

theorem lastOf_snoc (token : Nat) (ticks : List NormalizedTick) (tick : NormalizedTick) :
    lastOf token (ticks ++ [tick]) =
      if tick.instrumentToken = token then some tick else lastOf token ticks := by
  unfold lastOf
  rw [List.filter_append]
  by_cases htoken : tick.instrumentToken = token
  · rw [if_pos htoken, List.filter_cons_of_pos (by simpa using htoken), List.filter_nil,
      List.getLast?_concat]
  · rw [if_neg htoken, List.filter_cons_of_neg (by simpa using htoken), List.filter_nil,
      List.append_nil]

def cachedBy (s : StrategyThreads Strategy) (c : Strategy) : List NormalizedTick :=
  match (s.thread c).phase with
  | .caching _ => (s.fan.received c).dropLast
  | _ => s.fan.received c

/-- The cache holds, for each instrument, the last tick that one of the threads has written; and
where it holds none, none was written. -/
structure Cached (s : StrategyThreads Strategy) : Prop where
  latest : ∀ token, ∃ c, s.getLastTick token = lastOf token (s.cachedBy c)
  missing : ∀ token, s.getLastTick token = none → ∀ c, lastOf token (s.cachedBy c) = none

omit [DecidableEq Strategy] in
theorem cached_init [Nonempty Strategy] (loaded : List Strategy) (blank : NormalizedTick) :
    (init loaded blank).Cached where
  latest := fun _ => ⟨Classical.arbitrary Strategy, rfl⟩
  missing := fun _ _ _ => rfl

theorem cachedBy_turn (h : (s.thread c).Follows (s.fan.received c)) (throws : Bool) :
    (s.step (.turn c throws)).cachedBy =
      Function.update s.cachedBy c (s.cachedBy c ++ (writes (s.thread c).phase).toList) := by
  funext d
  by_cases heq : d = c
  · subst heq
    rw [Function.update_self]
    simp only [cachedBy, received_turn, thread_turn, Function.update_self]
    rw [StrategyThread.Follows] at h
    cases hphase : (s.thread d).phase with
    | consuming =>
        rw [StrategyThread.receives, if_pos hphase]
        cases hconsumed : s.consumed d <;> simp [StrategyThread.turn, hphase, writes]
    | caching tick =>
        rw [hphase] at h
        obtain ⟨earlier, hreceived, -⟩ := h
        simp [StrategyThread.turn, StrategyThread.receives, hphase, writes, hreceived]
    | starting =>
        cases throws <;>
          simp [StrategyThread.turn, StrategyThread.receives, hphase, writes]
    | testing =>
        cases hrunning : (s.thread d).running <;>
          simp [StrategyThread.turn, StrategyThread.receives, hphase, writes, hrunning]
    | _ => simp [StrategyThread.turn, StrategyThread.receives, hphase, writes]
  · rw [Function.update_of_ne heq]
    simp only [cachedBy, received_turn, thread_turn, Function.update_of_ne heq]

theorem cached_turn (hcached : s.Cached) (h : (s.thread c).Follows (s.fan.received c))
    (throws : Bool) : (s.step (.turn c throws)).Cached := by
  have hby := cachedBy_turn h throws
  cases hwrites : writes (s.thread c).phase with
  | some tick =>
      have hlast : ∀ token, (s.step (.turn c throws)).getLastTick token =
          if tick.instrumentToken = token then some tick else s.getLastTick token := by
        intro token
        simp only [getLastTick, step, cacheTick, hwrites]
        split_ifs with htoken
        · rw [← htoken, AList.lookup_insert]
        · exact AList.lookup_insert_ne (Ne.symm htoken)
      rw [hwrites, Option.toList_some] at hby
      constructor
      · intro token
        rw [hlast]
        by_cases htoken : tick.instrumentToken = token
        · refine ⟨c, ?_⟩
          rw [if_pos htoken, hby, Function.update_self, lastOf_snoc, if_pos htoken]
        · obtain ⟨d, hd⟩ := hcached.latest token
          refine ⟨d, ?_⟩
          rw [if_neg htoken, hd, hby]
          by_cases heq : d = c
          · rw [heq, Function.update_self, lastOf_snoc, if_neg htoken]
          · rw [Function.update_of_ne heq]
      · intro token hnone d
        rw [hlast] at hnone
        by_cases htoken : tick.instrumentToken = token
        · rw [if_pos htoken] at hnone
          cases hnone
        · rw [if_neg htoken] at hnone
          rw [hby]
          by_cases heq : d = c
          · rw [heq, Function.update_self, lastOf_snoc, if_neg htoken]
            exact hcached.missing token hnone c
          · rw [Function.update_of_ne heq]
            exact hcached.missing token hnone d
  | none =>
      rw [hwrites, Option.toList_none, List.append_nil, Function.update_eq_self] at hby
      have hlast : (s.step (.turn c throws)).getLastTick = s.getLastTick := by
        funext token
        simp only [getLastTick, step, cacheTick, hwrites]
      exact ⟨fun token => hlast ▸ hby ▸ hcached.latest token,
        fun token => hlast ▸ hby ▸ hcached.missing token⟩

theorem received_of_other {event : StrategyThreadEvent Strategy}
    (h : ∀ d throws, event ≠ .turn d throws) :
    (s.step event).fan.received = s.fan.received ∧
      (s.step event).lastTickCache = s.lastTickCache := by
  cases event with
  | turn d throws => exact absurd rfl (h d throws)
  | push tick => exact ⟨rfl, rfl⟩
  | stopAll =>
      simp only [step, stopAll]
      split <;> first | exact ⟨rfl, rfl⟩ | (split <;> exact ⟨rfl, rfl⟩)
  | haltStrategy d =>
      simp only [step]
      split <;> exact ⟨rfl, rfl⟩
  | lower =>
      simp only [step]
      split <;> exact ⟨rfl, rfl⟩

theorem cached_step (hcached : s.Cached) (h : ∀ c, (s.thread c).Follows (s.fan.received c))
    (event : StrategyThreadEvent Strategy) : (s.step event).Cached := by
  by_cases hturn : ∃ d throws, event = .turn d throws
  · obtain ⟨d, throws, rfl⟩ := hturn
    exact cached_turn hcached (h d) throws
  · push Not at hturn
    obtain ⟨hreceived, hcache⟩ := received_of_other (s := s) hturn
    have hother : ∀ d, isTurnOf d event = false := by
      intro d
      cases event with
      | turn e throws => exact absurd rfl (hturn e throws)
      | _ => rfl
    have hby : (s.step event).cachedBy = s.cachedBy := by
      funext d
      rw [cachedBy, cachedBy, hreceived, (thread_step_of_other (hother d)).1]
    have hlast : (s.step event).getLastTick = s.getLastTick := by
      funext token
      rw [getLastTick, getLastTick, hcache]
    exact ⟨fun token => hlast ▸ hby ▸ hcached.latest token,
      fun token => hlast ▸ hby ▸ hcached.missing token⟩

omit [DecidableEq Strategy] in
theorem cachedBy_prefix (s : StrategyThreads Strategy) (c : Strategy) :
    s.cachedBy c <+: s.fan.received c := by
  unfold cachedBy
  split
  · exact List.dropLast_prefix _
  · exact List.prefix_refl _

/-- What `get_last_tick` answers is the last tick of the instrument among the first ticks published,
as far as one of the strategies has come: the last one published when all of them have come to the
end, and none only when none of them has met one. -/
structure Recent (s : StrategyThreads Strategy) (token : Nat) : Prop where
  upTo : ∃ c, s.cachedBy c <+: s.fan.pushed ∧
    s.getLastTick token = lastOf token (s.cachedBy c)
  missing : s.getLastTick token = none → ∀ c, lastOf token (s.cachedBy c) = none
  caughtUp : (∀ c, s.cachedBy c = s.fan.pushed) →
    s.getLastTick token = lastOf token s.fan.pushed

theorem last_tick_cache [Nonempty Strategy] (loaded : List Strategy) (hnodup : loaded.Nodup)
    (blank : NormalizedTick) (events : List (StrategyThreadEvent Strategy))
    (hlap : Run.Along step WithinLap (init loaded blank) events) :
    Run.Always step (fun s => ∀ token, s.Recent token) (init loaded blank) events := by
  have hcached := Run.always_of_along
    (fun s => (s.Sound ∧ s.loaded.Nodup) ∧ s.Cached ∧ FanOut.InStep blank s.fan)
    (fun s event h hguard =>
      ⟨⟨sound_step h.1.1 h.1.2 event, (s.loaded_step event).symm ▸ h.1.2⟩,
        cached_step h.2.1 h.1.1.follows event, inStep_step h.2.2 hguard⟩)
    ⟨⟨sound_init loaded blank, hnodup⟩, cached_init loaded blank, FanOut.inStep_init⟩ hlap
  refine hcached.imp fun s ⟨_, hcached, hstep⟩ token => ?_
  obtain ⟨c, hc⟩ := hcached.latest token
  exact ⟨⟨c, (s.cachedBy_prefix c).trans (hstep.received_prefix c), hc⟩, hcached.missing token,
    fun hall => hall c ▸ hc⟩

def twoSpeeds : List (StrategyThreadEvent Bool) :=
  [.push { instrumentToken := 7, ltp := 100 }, .push { instrumentToken := 7, ltp := 101 }] ++
    List.replicate 8 (.turn true false) ++ List.replicate 4 (.turn false false)

theorem last_tick_cache_twoSpeeds :
    (Run.run step (init [true, false] { instrumentToken := 0 }) twoSpeeds).Recent 7 :=
  (last_tick_cache [true, false] (by decide) { instrumentToken := 0 } twoSpeeds
    (by decide +kernel)).last 7

example :
    ((Run.run step (init [true, false] { instrumentToken := 0 }) (twoSpeeds.take 10)).getLastTick
      7).map NormalizedTick.ltp = some 101 ∧
    ((Run.run step (init [true, false] { instrumentToken := 0 }) twoSpeeds).getLastTick 7).map
      NormalizedTick.ltp = some 100 := by
  decide +kernel

end Cache

end Protocol

end StrategyThreads

end QuantForge
