import QuantForge.Library.Interleaving
import QuantForge.Transport.RedisClient

/-! The Redis client called by several threads. One step is the unlocked test of `ctx_` or one
critical section under `mtx_`. -/
namespace QuantForge

open Library

namespace RedisClient

variable {World : Type} (hiredis : Hiredis World)

/-- A thread tests the context for an operation, or goes on with the critical section of the one
whose test it has passed. -/
inductive Input where
  | call (op : Op)
  | enter

/-- What a thread does next. It has passed the test for the operation that it holds. -/
def next : Except RedisHalt (RedisClient World) → Option Op → Input →
    Except RedisHalt (RedisClient World) × Option Op
  | .ok c, none, .call op => (.ok c, if c.ctx = none then none else some op)
  | .ok c, some op, .enter => (op.locked hiredis c, none)
  | s, l, _ => (s, l)

abbrev Threads (Thread : Type*) (World : Type) :=
  Interleaving.State Thread (Except RedisHalt (RedisClient World)) (Option Op)

/-- The operation is a flush, its reads end with an error of the context, and the attempt to
connect again fails. -/
def Op.losesContext : Op → RedisClient World → Bool
  | .flush fuel, c =>
      (c.ctx.bind fun a => (hiredis.readsEnd a fuel c.world).map fun (_, world) =>
        hiredis.err world a && hiredis.connectFails c.host c.port (hiredis.free a world)).getD false
  | _, _ => false

/-- A flush that loses the context finds the other thread outside of an operation. -/
def FindsIdle (s : Except RedisHalt (RedisClient World)) (l : Option Op) (e : Input)
    (other : Option Op) : Prop :=
  match s, l, e with
  | .ok c, some op, .enter => op.losesContext hiredis c = true → other = none
  | _, _, _ => True

def OnLiveContext (s : Except RedisHalt (RedisClient World)) : Prop := s ≠ .error .deadContext

variable {hiredis} {c c' : RedisClient World}

theorem ctx_connect (hiredis : Hiredis World) (c : RedisClient World) :
    (connect hiredis c).ctx = none ↔ hiredis.connectFails c.host c.port c.world = true := by
  unfold connect Hiredis.connectFails
  split
  · exact iff_of_true rfl rfl
  · dsimp only
    split
    · rename_i herr
      exact ⟨fun _ => herr, fun _ => rfl⟩
    · rename_i herr
      split
      · exact ⟨nofun, fun h => absurd h herr⟩
      · exact ⟨nofun, fun h => absurd h herr⟩

theorem locked_of_live (hiredis : Hiredis World) {a : Nat} (op : Op) (hctx : c.ctx = some a)
    (hlive : a ∈ c.live) :
    op.locked hiredis c = .error .outOfFuel ∨ ∃ c', op.locked hiredis c = .ok c' ∧ Live c' ∧
      (c'.ctx = none ↔ op.losesContext hiredis c = true) := by
  have hkeeps : ∀ world calls, Live (c.after world calls) ∧
      ((c.after world calls).ctx = none ↔ false = true) := by
    intro world calls
    refine ⟨fun b hb => ?_, ?_⟩
    · obtain rfl := Option.some.inj (hctx.symm.trans hb)
      exact hlive
    · exact iff_of_false (fun hnone => nomatch hctx.symm.trans hnone) nofun
  cases op with
  | publishPosition | publishTick | publishRiskCounters | setKillSwitch =>
      exact .inr ⟨_, appendCommands_of_live _ hctx hlive, hkeeps _ _⟩
  | flush fuel =>
      rw [Op.locked, flushReplies_of_live fuel hctx hlive, Op.losesContext, hctx, Option.bind_some]
      cases hiredis.readsEnd a fuel c.world with
      | none => exact .inl rfl
      | some found =>
          obtain ⟨n, world⟩ := found
          refine .inr ⟨_, rfl, ?_⟩
          rw [Option.map_some, Option.getD_some]
          dsimp only
          cases hiredis.err world a with
          | false => exact hkeeps world _
          | true => exact ⟨live_connect hiredis _, ctx_connect hiredis (freeContext hiredis _ a)⟩

theorem locked_of_none (op : Op) (hctx : c.ctx = none) (c' : RedisClient World) :
    op.locked hiredis c ≠ .ok c' := by
  have hdead : c.context = .error .deadContext := by rw [context, hctx]
  have happend : ∀ cmd cmds, appendCommands hiredis (cmd :: cmds) c ≠ .ok c' := by
    intro cmd cmds hok
    rw [appendCommands, List.foldlM_cons, appendCommand, hdead] at hok
    cases hok
  cases op with
  | publishPosition | publishTick | publishRiskCounters | setKillSwitch => exact happend _ _
  | flush fuel =>
      intro hok
      rw [Op.locked, flushReplies] at hok
      cases fuel with
      | zero => cases hok
      | succ fuel =>
          rw [drain, getReply, hdead] at hok
          cases hok

theorem next_call_enter (op : Op) (c : RedisClient World) :
    let tested := next hiredis (.ok c) none (.call op)
    (next hiredis tested.1 tested.2 .enter).1 = op.apply hiredis c := by
  rw [Op.apply_eq]
  cases hctx : c.ctx with
  | none => simp [next, hctx]
  | some a => simp [next, hctx]

theorem next_cases (hiredis : Hiredis World) (s : Except RedisHalt (RedisClient World))
    (l : Option Op) (e : Input) : next hiredis s l e = (s, l) ∨
      (∃ c op, s = .ok c ∧ c.ctx ≠ none ∧ next hiredis s l e = (s, some op)) ∨
      ∃ c op, s = .ok c ∧ l = some op ∧ e = .enter ∧
        next hiredis s l e = (op.locked hiredis c, none) := by
  unfold next
  split
  · rename_i c op
    split
    · exact .inl rfl
    · rename_i hctx
      exact .inr (.inl ⟨c, op, rfl, hctx, rfl⟩)
  · rename_i c op
    exact .inr (.inr ⟨c, op, rfl, rfl, rfl, rfl⟩)
  · exact .inl rfl

def Intact (s : Except RedisHalt (RedisClient World)) : Prop :=
  OnLiveContext s ∧ ∀ c, s = .ok c → Live c

def Tested (s : Except RedisHalt (RedisClient World)) (l : Option Op) : Prop :=
  l ≠ none → ∀ c, s = .ok c → c.ctx ≠ none

theorem locked_of_tested (op : Op) (hlive : Live c) (hctx : c.ctx ≠ none) :
    Intact (op.locked hiredis c) ∧
      (op.losesContext hiredis c = false → ∀ c', op.locked hiredis c = .ok c' → c'.ctx ≠ none) := by
  obtain ⟨a, ha⟩ := Option.ne_none_iff_exists'.mp hctx
  rcases locked_of_live hiredis op ha (hlive a ha) with hfuel | ⟨c', hok, hlive', hnone⟩
  · rw [hfuel]
    exact ⟨⟨nofun, nofun⟩, fun _ => nofun⟩
  · rw [hok]
    refine ⟨⟨nofun, ?_⟩, ?_⟩
    · rintro _ ⟨⟩
      exact hlive'
    · rintro hkeeps _ ⟨⟩ hctx'
      rw [hnone.mp hctx'] at hkeeps
      cases hkeeps

theorem preserved_context (hiredis : Hiredis World) :
    Interleaving.Preserved (next hiredis) (FindsIdle hiredis) Intact Tested fun _ _ => True where
  symm _ _ h := h
  shared := by
    intro s l e hintact htested
    rcases next_cases hiredis s l e with
      hnext | ⟨c, op, -, -, hnext⟩ | ⟨c, op, rfl, rfl, -, hnext⟩
    · rwa [hnext]
    · rwa [hnext]
    · rw [hnext]
      exact (locked_of_tested op (hintact.2 c rfl) (htested nofun c rfl)).1
  own := by
    intro s l e hintact htested
    rcases next_cases hiredis s l e with
      hnext | ⟨c, op, rfl, hctx, hnext⟩ | ⟨c, op, rfl, rfl, -, hnext⟩
    · rwa [hnext]
    · rw [hnext]
      rintro - _ ⟨⟩
      exact hctx
    · rw [hnext]
      exact fun h => absurd rfl h
  bystander := by
    intro s l e other hintact htested hother _ hidle
    refine ⟨?_, trivial⟩
    rcases next_cases hiredis s l e with
      hnext | ⟨c, op, -, -, hnext⟩ | ⟨c, op, rfl, rfl, rfl, hnext⟩
    · rwa [hnext]
    · rwa [hnext]
    · rw [hnext]
      intro hbusy
      have hkeeps : op.losesContext hiredis c = false :=
        Bool.eq_false_iff.mpr fun hloses => hbusy (hidle hloses)
      exact (locked_of_tested op (hintact.2 c rfl) (htested nofun c rfl)).2 hkeeps

section Runs

variable {Thread : Type*}

def started (hiredis : Hiredis World) (host : Str) (port : Nat) (password : Str) (world : World) :
    Threads Thread World where
  shared := .ok (create hiredis host port password world)
  own _ := none

/-- Every operation that was called has ended, if the program has not stopped. -/
structure Ended (s : Threads Thread World) : Prop where
  shared : s.shared ≠ .error .outOfFuel
  own : ∀ t, s.own t = none

abbrev Consistent (s : Threads Thread World) : Prop :=
  Interleaving.Consistent Intact Tested (fun _ _ => True) s

/-- The context is lost, and a thread that has tested it is still to enter its section. -/
def Lost (s : Threads Thread World) : Prop :=
  ∀ c, s.shared = .ok c → c.ctx = none ∧ ∃ t, s.own t ≠ none

theorem consistent_started (hiredis : Hiredis World) (host : Str) (port : Nat) (password : Str)
    (world : World) :
    Consistent (started hiredis host port password world : Threads Thread World) where
  shared := by
    refine ⟨nofun, ?_⟩
    rintro _ ⟨⟩
    exact live_connect hiredis _
  own _ := fun h => absurd rfl h
  pair _ _ _ := trivial

variable [DecidableEq Thread]

def threadStep (hiredis : Hiredis World) :
    Threads Thread World → Thread × Input → Threads Thread World :=
  Interleaving.step (next hiredis)

/-- No flush loses the context between the test and the critical section of another thread. -/
def NoneInBetween (hiredis : Hiredis World) : Threads Thread World → Thread × Input → Prop :=
  Interleaving.Guarded (FindsIdle hiredis)

variable {s : Threads Thread World} {events : List (Thread × Input)}

theorem lost_step (h : Lost s) (e : Thread × Input) : Lost (threadStep hiredis s e) := by
  obtain ⟨t, input⟩ := e
  unfold threadStep Interleaving.step
  rcases next_cases hiredis s.shared (s.own t) input with
    hnext | ⟨c, op, hshared, hctx, -⟩ | ⟨c, op, hshared, -, -, hnext⟩
  · dsimp only
    rw [hnext, Function.update_eq_self]
    exact h
  · exact absurd (h c hshared).1 hctx
  · dsimp only
    rw [hnext]
    exact fun c' hok => absurd hok (locked_of_none op (h c hshared).1 c')

theorem lost_of_not_noneInBetween (h : Consistent s) {e : Thread × Input}
    (hguard : ¬NoneInBetween hiredis s e) : Lost (threadStep hiredis s e) := by
  obtain ⟨t, input⟩ := e
  unfold NoneInBetween Interleaving.Guarded at hguard
  push Not at hguard
  obtain ⟨other, hne, hbusy⟩ := hguard
  dsimp only at hne
  unfold FindsIdle at hbusy
  split at hbusy
  · rename_i c op hshared hown hinput
    dsimp only at hown hinput
    push Not at hbusy
    obtain ⟨hloses, hother⟩ := hbusy
    have hlive := h.shared.2 c hshared
    have htested := h.own t
    rw [hown] at htested
    obtain ⟨a, hctx⟩ := Option.ne_none_iff_exists'.mp (htested nofun c hshared)
    have hnext : next hiredis s.shared (s.own t) input = (op.locked hiredis c, none) := by
      rw [hshared, hown, hinput]
      rfl
    have hstep : (threadStep hiredis s (t, input)).shared = op.locked hiredis c :=
      congrArg Prod.fst hnext
    intro c' hok
    rw [hstep] at hok
    rcases locked_of_live hiredis op hctx (hlive a hctx) with
      hfuel | ⟨next, hnext, -, hnone⟩
    · rw [hfuel] at hok
      cases hok
    · obtain rfl := Except.ok.inj (hok.symm.trans hnext)
      refine ⟨hnone.mpr hloses, other, ?_⟩
      change Function.update s.own t _ other ≠ none
      rwa [Function.update_of_ne hne]
  · exact absurd trivial hbusy

/-- A run in which a flush has taken the context of another thread does not end well. -/
theorem lost_of_not_along (h : Consistent s)
    (hguard : ¬Run.Along (threadStep hiredis) (NoneInBetween hiredis) s events) :
    Lost (Run.run (threadStep hiredis) s events) := by
  induction events generalizing s with
  | nil => exact absurd trivial hguard
  | cons e events ih =>
      by_cases he : NoneInBetween hiredis s e
      · exact ih (Interleaving.consistent_step (preserved_context hiredis) h he)
          fun hrest => hguard ⟨he, hrest⟩
      · exact Run.run_invariant Lost (fun _ e hs => lost_step hs e)
          (lost_of_not_noneInBetween h he) events

/-- Every call of hiredis is made on a live context in a run in which no flush loses the context
between the test and the critical section of another thread, and there is no other run whose
operations all end. -/
theorem commands_on_live_context (hiredis : Hiredis World) (host : Str) (port : Nat)
    (password : Str) (world : World) (events : List (Thread × Input)) :
    let s : Threads Thread World := started hiredis host port password world
    (Run.Along (threadStep hiredis) (NoneInBetween hiredis) s events →
      Run.Always (threadStep hiredis) (fun s => OnLiveContext s.shared) s events) ∧
    (Ended (Run.run (threadStep hiredis) s events) →
      OnLiveContext (Run.run (threadStep hiredis) s events).shared →
      Run.Along (threadStep hiredis) (NoneInBetween hiredis) s events) := by
  intro s
  have hstart : Consistent s := consistent_started hiredis host port password world
  constructor
  · intro hguard
    have halways := Interleaving.always_consistent (preserved_context hiredis) hstart hguard
    exact halways.imp fun _ h => h.shared.1
  · intro hended hlive
    by_contra hguard
    have hlost := lost_of_not_along hstart hguard
    cases hshared : (Run.run (threadStep hiredis) s events).shared with
    | ok c =>
        obtain ⟨-, t, ht⟩ := hlost c hshared
        exact ht (hended.own t)
    | error halt =>
        cases halt with
        | deadContext => exact hlive hshared
        | outOfFuel => exact hended.shared hshared

inductive RedisThread where
  | normalizer
  | portfolio
  deriving DecidableEq

def dropping : Hiredis Bool where
  connectWithTimeout _ _ up := if up then (some 1, up) else (none, up)
  err up _ := !up
  setTimeout _ up := up
  command _ _ up := up
  appendCommand _ _ up := up
  getReply _ _ := (false, false)
  free _ up := up

/-- The normalizer thread tests the context, the portfolio thread flushes and does not get a new
one, and the normalizer thread appends its command to null. -/
theorem tick_published_on_null : (Run.run (threadStep dropping)
    (started dropping "127.0.0.1".toList 6379 [] true : Threads RedisThread Bool)
    [(.normalizer, .call (.publishTick { instrumentToken := 26000 } {})),
      (.portfolio, .call (.flush 1)), (.portfolio, .enter), (.normalizer, .enter)]).shared =
    .error .deadContext := rfl

end Runs

end RedisClient

end QuantForge
