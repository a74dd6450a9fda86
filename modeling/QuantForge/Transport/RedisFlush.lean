import QuantForge.Transport.RedisClient

/-! What `flush` reads from a server that answers every command. -/
namespace QuantForge

structure Hiredis.Waiting {World : Type} (hiredis : Hiredis World) (outstanding : World → Nat → Nat)
    (world : World) (a n : Nat) : Prop where
  err : hiredis.err world a = false
  outstanding : outstanding world a = n

/-- How hiredis behaves on a blocking context whose server answers every command. A read with no
reply outstanding ends with the read timeout. -/
structure Hiredis.Answers {World : Type} (hiredis : Hiredis World)
    (outstanding : World → Nat → Nat) : Prop where
  connected : ∀ {host port world a world'},
    hiredis.connectWithTimeout host port world = (some a, world') →
    hiredis.err world' a = false → outstanding world' a = 0
  setTimeout : ∀ {world a}, hiredis.Waiting outstanding world a 0 →
    hiredis.Waiting outstanding (hiredis.setTimeout a world) a 0
  commanded : ∀ {world a} cmd, hiredis.Waiting outstanding world a 0 →
    hiredis.Waiting outstanding (hiredis.command a cmd world) a 0
  appended : ∀ {world a n} cmd, hiredis.Waiting outstanding world a n →
    hiredis.Waiting outstanding (hiredis.appendCommand a cmd world) a (n + 1)
  replied : ∀ {world a n}, hiredis.Waiting outstanding world a (n + 1) →
    (hiredis.getReply a world).1 = true ∧
      hiredis.Waiting outstanding (hiredis.getReply a world).2 a n
  timedOut : ∀ {world a}, hiredis.Waiting outstanding world a 0 →
    (hiredis.getReply a world).1 = false ∧ hiredis.err (hiredis.getReply a world).2 a = true

namespace RedisClient

variable {World : Type} {hiredis : Hiredis World} {outstanding : World → Nat → Nat}
  {c c' : RedisClient World}

/-- The commands appended since the last step that left nothing to read. -/
def Step.queued (n : Nat) : Step → Nat
  | .call (.flush _) => 0
  | .call op => n + op.commands.length
  | .reconnect => 0

def queued (steps : List Step) : Nat := steps.foldl Step.queued 0

/-- What is asked of a flush: `n` replies are read, nothing else is asked of hiredis, and the client
keeps its context. -/
structure Drained (n : Nat) (c c' : RedisClient World) : Prop where
  ctx : c'.ctx = c.ctx
  calls : ∃ a, c.ctx = some a ∧ c'.calls = c.calls ++ List.replicate n (.replied a true)

def InStep (hiredis : Hiredis World) (outstanding : World → Nat → Nat) (n : Nat)
    (c : RedisClient World) : Prop :=
  ∀ a, c.ctx = some a → a ∈ c.live ∧ hiredis.Waiting outstanding c.world a n

theorem inStep_of_none {n : Nat} (h : c.ctx = none) : InStep hiredis outstanding n c := by
  intro a ha
  rw [h] at ha
  cases ha

theorem inStep_connect (hanswers : hiredis.Answers outstanding) (c : RedisClient World) :
    InStep hiredis outstanding 0 (connect hiredis c) := by
  unfold connect
  split
  · exact inStep_of_none rfl
  · rename_i a world hconnect
    dsimp only
    split
    · exact inStep_of_none rfl
    · rename_i herr
      have herr := Bool.eq_false_iff.mpr herr
      have hfresh : hiredis.Waiting outstanding world a 0 :=
        ⟨herr, hanswers.connected hconnect herr⟩
      have htimeout := hanswers.setTimeout hfresh
      split
      · rintro _ ⟨⟩
        exact ⟨List.mem_cons_self, htimeout⟩
      · rintro _ ⟨⟩
        exact ⟨List.mem_cons_self, hanswers.commanded _ htimeout⟩

theorem connect_calls (hiredis : Hiredis World) (c : RedisClient World) :
    ∃ ctx rest, (connect hiredis c).calls = c.calls ++ .connected ctx :: rest := by
  unfold connect
  split
  · exact ⟨none, [], rfl⟩
  · rename_i a world _
    refine ⟨some a, ?_⟩
    dsimp only
    split
    · exact ⟨[.freed a], List.append_assoc ..⟩
    · split
      · exact ⟨[.timeoutSet a], List.append_assoc ..⟩
      · refine ⟨[.timeoutSet a, .commanded a (.auth c.password)], ?_⟩
        simp [after]

theorem waiting_appendCommands (hanswers : hiredis.Answers outstanding)
    (cmds : List RedisCommand) {world : World} {a n : Nat}
    (h : hiredis.Waiting outstanding world a n) :
    hiredis.Waiting outstanding
      (cmds.foldl (fun world cmd => hiredis.appendCommand a cmd world) world) a
      (n + cmds.length) := by
  induction cmds generalizing world n with
  | nil => exact h
  | cons cmd cmds ih =>
      have hrest := ih (hanswers.appended cmd h)
      rwa [List.length_cons, Nat.add_comm cmds.length, ← Nat.add_assoc]

theorem readsEnd_of_waiting (hanswers : hiredis.Answers outstanding) {world : World} {a n : Nat}
    (h : hiredis.Waiting outstanding world a n) :
    ∃ world', hiredis.err world' a = true ∧
      ∀ fuel, hiredis.readsEnd a fuel world = if n < fuel then some (n, world') else none := by
  induction n generalizing world with
  | zero =>
      obtain ⟨hok, herr⟩ := hanswers.timedOut h
      refine ⟨_, herr, fun fuel => ?_⟩
      cases fuel with
      | zero => rfl
      | succ fuel =>
          rw [Hiredis.readsEnd]
          dsimp only
          rw [hok]
          rfl
  | succ n ih =>
      obtain ⟨hok, hnext⟩ := hanswers.replied h
      obtain ⟨world', herr, hends⟩ := ih hnext
      refine ⟨world', herr, fun fuel => ?_⟩
      cases fuel with
      | zero => rfl
      | succ fuel =>
          rw [Hiredis.readsEnd]
          dsimp only
          rw [hok, if_pos rfl, hends]
          simp only [Nat.succ_lt_succ_iff]
          split <;> rfl

theorem flush_eq (hanswers : hiredis.Answers outstanding) {a n : Nat} (hctx : c.ctx = some a)
    (h : InStep hiredis outstanding n c) :
    ∃ world, ∀ fuel, flush hiredis fuel c =
      if n < fuel then .ok (connect hiredis (freeContext hiredis (c.afterReads a n world) a))
      else .error .outOfFuel := by
  obtain ⟨hlive, hwaiting⟩ := h a hctx
  obtain ⟨world, herr, hends⟩ := readsEnd_of_waiting hanswers hwaiting
  refine ⟨world, fun fuel => ?_⟩
  rw [flush, if_neg (by simp [hctx]), flushReplies_of_live fuel hctx hlive, hends]
  by_cases hfuel : n < fuel
  · rw [if_pos hfuel, if_pos hfuel]
    dsimp only
    rw [if_pos herr]
  · rw [if_neg hfuel, if_neg hfuel]

theorem inStep_publish (hanswers : hiredis.Answers outstanding) {cmds : List RedisCommand}
    {n : Nat} (h : InStep hiredis outstanding n c) (hok : publish hiredis cmds c = .ok c') :
    InStep hiredis outstanding (n + cmds.length) c' := by
  unfold publish at hok
  split at hok
  · obtain rfl := Except.ok.inj hok
    exact inStep_of_none ‹_›
  · rename_i hctx
    obtain ⟨a, hctx⟩ := Option.ne_none_iff_exists'.mp hctx
    obtain ⟨hlive, hwaiting⟩ := h a hctx
    rw [appendCommands_of_live cmds hctx hlive] at hok
    obtain rfl := Except.ok.inj hok
    intro b hb
    obtain rfl : a = b := Option.some.inj (hctx.symm.trans hb)
    exact ⟨hlive, waiting_appendCommands hanswers cmds hwaiting⟩

theorem inStep_flush (hanswers : hiredis.Answers outstanding) {n fuel : Nat}
    (h : InStep hiredis outstanding n c) (hok : flush hiredis fuel c = .ok c') :
    InStep hiredis outstanding 0 c' := by
  cases hctx : c.ctx with
  | none =>
      rw [flush, if_pos hctx] at hok
      obtain rfl := Except.ok.inj hok
      exact inStep_of_none hctx
  | some a =>
      obtain ⟨world, hflush⟩ := flush_eq hanswers hctx h
      rw [hflush] at hok
      split at hok
      · obtain rfl := Except.ok.inj hok
        exact inStep_connect hanswers _
      · cases hok

theorem inStep_step (hanswers : hiredis.Answers outstanding) (step : Step) {n : Nat}
    (h : InStep hiredis outstanding n c) (hok : step.apply hiredis c = .ok c') :
    InStep hiredis outstanding (step.queued n) c' := by
  cases step with
  | call op =>
      cases op with
      | publishPosition | publishTick | publishRiskCounters | setKillSwitch =>
          exact inStep_publish hanswers h hok
      | flush fuel => exact inStep_flush hanswers h hok
  | reconnect =>
      obtain rfl := Except.ok.inj hok
      exact inStep_connect hanswers _

theorem inStep_run (hanswers : hiredis.Answers outstanding) {steps : List Step} {n : Nat}
    (h : InStep hiredis outstanding n c) (hok : run hiredis steps c = .ok c') :
    InStep hiredis outstanding (steps.foldl Step.queued n) c' := by
  induction steps generalizing c n with
  | nil =>
      obtain rfl := Except.ok.inj hok
      exact h
  | cons step steps ih =>
      rw [run, List.foldlM_cons] at hok
      cases hstep : step.apply hiredis c with
      | error halt =>
          rw [hstep] at hok
          cases hok
      | ok next =>
          rw [hstep] at hok
          exact ih (inStep_step hanswers step h hstep) hok

theorem inStep_create (hanswers : hiredis.Answers outstanding) {host : Str} {port : Nat}
    {password : Str} {world : World} {steps : List Step}
    (hrun : run hiredis steps (create hiredis host port password world) = .ok c) :
    InStep hiredis outstanding (queued steps) c :=
  inStep_run hanswers (inStep_connect hanswers _) hrun

theorem flush_calls (hanswers : hiredis.Answers outstanding) {a n fuel : Nat}
    (hctx : c.ctx = some a) (h : InStep hiredis outstanding n c)
    (hok : flush hiredis fuel c = .ok c') :
    ∃ ctx rest, c'.calls = c.calls ++ (List.replicate n (.replied a true) ++
      .replied a false :: .freed a :: .connected ctx :: rest) := by
  obtain ⟨world, hflush⟩ := flush_eq hanswers hctx h
  rw [hflush] at hok
  split at hok
  · obtain rfl := Except.ok.inj hok
    obtain ⟨ctx, rest, hcalls⟩ :=
      connect_calls hiredis (freeContext hiredis (c.afterReads a n world) a)
    refine ⟨ctx, rest, hcalls.trans ?_⟩
    simp [freeContext, afterReads, after]
  · cases hok

theorem not_drained_of_calls {a n : Nat} {ctx : Option Nat} {rest : List RedisCall}
    (h : c'.calls = c.calls ++ (List.replicate n (.replied a true) ++
      .replied a false :: .freed a :: .connected ctx :: rest)) : ¬Drained n c c' := by
  rintro ⟨-, b, -, hcalls⟩
  have hlength := congrArg List.length (List.append_cancel_left (h.symm.trans hcalls))
  simp at hlength

/-- A flush of a connected client returns, and it never ends with the replies that were asked for:
it goes on to wait for one more, and gives up the context. -/
theorem flush_never_drains (hanswers : hiredis.Answers outstanding) {host : Str} {port : Nat}
    {password : Str} {world : World} {steps : List Step}
    (hrun : run hiredis steps (create hiredis host port password world) = .ok c)
    (hconnected : c.isConnected = true) :
    (∃ c', flush hiredis (queued steps + 1) c = .ok c') ∧
      ∀ fuel c', flush hiredis fuel c = .ok c' →
        ¬Drained (queued steps) c c' ∧
        ∃ a ctx rest, c'.calls = c.calls ++ (List.replicate (queued steps) (.replied a true) ++
          .replied a false :: .freed a :: .connected ctx :: rest) := by
  obtain ⟨a, hctx⟩ := Option.isSome_iff_exists.mp hconnected
  have hin := inStep_create hanswers hrun
  constructor
  · obtain ⟨world, hflush⟩ := flush_eq hanswers hctx hin
    exact ⟨_, (hflush _).trans (if_pos (Nat.lt_succ_self _))⟩
  · intro fuel c' hok
    obtain ⟨ctx, rest, hcalls⟩ := flush_calls hanswers hctx hin hok
    exact ⟨not_drained_of_calls hcalls, a, ctx, rest, hcalls⟩

def answering : Hiredis (Nat × Bool) where
  connectWithTimeout _ _ _ := (some 1, (0, false))
  err world _ := world.2
  setTimeout _ world := world
  command _ _ world := world
  appendCommand _ _ world := (world.1 + 1, world.2)
  getReply _ world :=
    match world with
    | (n + 1, false) => (true, (n, false))
    | _ => (false, (0, true))
  free _ world := world

theorem answering_answers : answering.Answers fun world _ => world.1 where
  connected h _ := by
    cases h
    rfl
  setTimeout h := h
  commanded _ h := h
  appended _ h := ⟨h.err, congrArg (· + 1) h.outstanding⟩
  replied := by
    rintro ⟨n, failed⟩ a m ⟨herr, hout⟩
    obtain rfl : failed = false := herr
    obtain rfl : n = m + 1 := hout
    exact ⟨rfl, rfl, rfl⟩
  timedOut := by
    rintro ⟨n, failed⟩ a ⟨herr, hout⟩
    obtain rfl : failed = false := herr
    obtain rfl : n = 0 := hout
    exact ⟨rfl, rfl⟩

def killSwitched : RedisClient (Nat × Bool) :=
  (create answering "127.0.0.1".toList 6379 [] (0, false)).after (1, false)
    [.appended 1 (.set "kill_switch".toList (.int 1))]

theorem flush_never_drains_killSwitched :
    (∃ c', flush answering 2 killSwitched = .ok c') ∧
      ∀ fuel c', flush answering fuel killSwitched = .ok c' →
        ¬Drained 1 killSwitched c' ∧
        ∃ a ctx rest, c'.calls = killSwitched.calls ++ (List.replicate 1 (.replied a true) ++
          .replied a false :: .freed a :: .connected ctx :: rest) := by
  have hrun : run answering [.call (.setKillSwitch true)]
      (create answering "127.0.0.1".toList 6379 [] (0, false)) = .ok killSwitched := rfl
  exact flush_never_drains answering_answers hrun rfl

/-- After one command on a new connection no flush drains what was queued. -/
theorem flush_reads_past_queue :
    run answering [.call (.setKillSwitch true)]
        (create answering "127.0.0.1".toList 6379 [] (0, false)) = .ok killSwitched ∧
      killSwitched.isConnected = true ∧
      ¬∃ fuel c', flush answering fuel killSwitched = .ok c' ∧ Drained 1 killSwitched c' := by
  refine ⟨rfl, rfl, ?_⟩
  rintro ⟨fuel, c', hok, hdrained⟩
  have hin : InStep answering (fun world _ => world.1) 1 killSwitched := by
    rintro _ ⟨⟩
    exact ⟨List.mem_cons_self, rfl, rfl⟩
  obtain ⟨ctx, rest, hcalls⟩ := flush_calls answering_answers rfl hin hok
  exact not_drained_of_calls hcalls hdrained

end RedisClient

end QuantForge
