import QuantForge.Common.Types
import QuantForge.Library.Run

/-! `transport/redis_client.cpp`. What hiredis does is any function on a world of its own, in which
contexts are known by their addresses. A call of hiredis on a context that is null or freed stops
the program. -/
namespace QuantForge

/-- An argument of a command, by the conversion that writes it: `%s`, `%d`, `%u` or `%llu`, and
`%.4f`. -/
inductive RedisArg where
  | text (s : Str)
  | int (i : Int)
  | nat (n : Nat)
  | fixed4 (q : ℚ)
  deriving DecidableEq

inductive RedisCommand where
  | hset (key : Str) (fields : List (Str × RedisArg))
  | set (key : Str) (value : RedisArg)
  | auth (password : Str)
  deriving DecidableEq

/-- `getReply` returns whether its status is `REDIS_OK`. -/
structure Hiredis (World : Type) where
  connectWithTimeout : Str → Nat → World → Option Nat × World
  err : World → Nat → Bool
  setTimeout : Nat → World → World
  command : Nat → RedisCommand → World → World
  appendCommand : Nat → RedisCommand → World → World
  getReply : Nat → World → Bool × World
  free : Nat → World → World

def Hiredis.connectFails {World : Type} (hiredis : Hiredis World) (host : Str) (port : Nat)
    (world : World) : Bool :=
  match hiredis.connectWithTimeout host port world with
  | (none, _) => true
  | (some a, world) => hiredis.err world a

/-- How many reads of the context return `REDIS_OK` before one does not, and the world after it;
`none` if all of the given number do. -/
def Hiredis.readsEnd {World : Type} (hiredis : Hiredis World) (a : Nat) :
    Nat → World → Option (Nat × World)
  | 0, _ => none
  | fuel + 1, world =>
      let (ok, world) := hiredis.getReply a world
      if ok then (readsEnd hiredis a fuel world).map fun (n, world) => (n + 1, world)
      else some (0, world)

inductive RedisCall where
  | connected (ctx : Option Nat)
  | timeoutSet (ctx : Nat)
  | commanded (ctx : Nat) (cmd : RedisCommand)
  | appended (ctx : Nat) (cmd : RedisCommand)
  | replied (ctx : Nat) (ok : Bool)
  | freed (ctx : Nat)
  deriving DecidableEq

/-- Why an operation has not returned. -/
inductive RedisHalt where
  | deadContext
  | outOfFuel
  deriving DecidableEq

theorem RedisHalt.bind_ok {α β : Type} {x : Except RedisHalt α} {f : α → Except RedisHalt β}
    {b : β} (h : (x >>= f) = .ok b) : ∃ a, x = .ok a ∧ f a = .ok b := by
  cases x with
  | error halt => cases h
  | ok a => exact ⟨a, rfl, h⟩

/-- `live` are the contexts that are not freed, and `calls` the calls so far, oldest first. -/
structure RedisClient (World : Type) where
  ctx : Option Nat := none
  host : Str
  port : Nat
  password : Str
  world : World
  live : List Nat := []
  calls : List RedisCall := []

namespace RedisClient

variable {World : Type} (hiredis : Hiredis World)

def after (c : RedisClient World) (world : World) (calls : List RedisCall) : RedisClient World :=
  { c with world := world, calls := c.calls ++ calls }

def afterReads (c : RedisClient World) (a n : Nat) (world : World) : RedisClient World :=
  c.after world (List.replicate n (.replied a true) ++ [.replied a false])

def context (c : RedisClient World) : Except RedisHalt Nat :=
  match c.ctx with
  | some a => if a ∈ c.live then .ok a else .error .deadContext
  | none => .error .deadContext

def freeContext (c : RedisClient World) (a : Nat) : RedisClient World :=
  { c.after (hiredis.free a c.world) [.freed a] with
    ctx := none
    live := c.live.filter (· ≠ a) }

def connect (c : RedisClient World) : RedisClient World :=
  match hiredis.connectWithTimeout c.host c.port c.world with
  | (none, world) => { c.after world [.connected none] with ctx := none }
  | (some a, world) =>
      let c := { c.after world [.connected (some a)] with ctx := some a, live := a :: c.live }
      if hiredis.err world a then freeContext hiredis c a
      else
        let c := c.after (hiredis.setTimeout a world) [.timeoutSet a]
        if c.password = [] then c
        else c.after (hiredis.command a (.auth c.password) c.world)
          [.commanded a (.auth c.password)]

def create (host : Str) (port : Nat) (password : Str) (world : World) : RedisClient World :=
  connect hiredis { host := host, port := port, password := password, world := world }

def isConnected (c : RedisClient World) : Bool := c.ctx.isSome

def reconnect (c : RedisClient World) : RedisClient World :=
  connect hiredis (match c.ctx with
    | some a => freeContext hiredis c a
    | none => c)

def appendCommand (c : RedisClient World) (cmd : RedisCommand) :
    Except RedisHalt (RedisClient World) := do
  let a ← c.context
  return c.after (hiredis.appendCommand a cmd c.world) [.appended a cmd]

def getReply (c : RedisClient World) : Except RedisHalt (Bool × RedisClient World) := do
  let a ← c.context
  let (ok, world) := hiredis.getReply a c.world
  return (ok, c.after world [.replied a ok])

def positionCommands (sid : Str) (pos : Position) : List RedisCommand :=
  let key := "positions:".toList ++ sid
  let token := Nat.toDigits 10 pos.instrumentToken
  [.hset key [(token ++ ":qty".toList, .int pos.quantity)],
    .hset key [(token ++ ":avg_price".toList, .fixed4 pos.avgPrice)],
    .hset key [(token ++ ":upnl".toList, .fixed4 pos.unrealizedPnl)],
    .hset key [(token ++ ":rpnl".toList, .fixed4 pos.realizedPnl)]]

/-- `ask` is the best ask of the tick. -/
def tickCommands (tick : NormalizedTick) (ask : DepthLevel) : List RedisCommand :=
  [.hset ("ticks:".toList ++ Nat.toDigits 10 tick.instrumentToken)
    [("ltp".toList, .fixed4 tick.ltp), ("volume".toList, .nat tick.volume),
      ("bid1_price".toList, .fixed4 tick.bid.price), ("bid1_qty".toList, .nat tick.bid.qty),
      ("ask1_price".toList, .fixed4 ask.price), ("ask1_qty".toList, .nat ask.qty),
      ("ts".toList, .nat tick.recvTsNs)]]

def riskCommands (sid : Str) (dailyPnl : ℚ) (orderCount : Int) (exposure : ℚ) :
    List RedisCommand :=
  [.hset ("risk:".toList ++ sid)
    [("daily_pnl".toList, .fixed4 dailyPnl), ("order_count".toList, .int orderCount),
      ("exposure".toList, .fixed4 exposure)]]

def killSwitchCommands (engaged : Bool) : List RedisCommand :=
  [.set "kill_switch".toList (.int (if engaged then 1 else 0))]

def appendCommands (cmds : List RedisCommand) (c : RedisClient World) :
    Except RedisHalt (RedisClient World) :=
  cmds.foldlM (appendCommand hiredis) c

def publish (cmds : List RedisCommand) (c : RedisClient World) :
    Except RedisHalt (RedisClient World) :=
  if c.ctx = none then .ok c else appendCommands hiredis cmds c

def publishPosition (sid : Str) (pos : Position) :
    RedisClient World → Except RedisHalt (RedisClient World) :=
  publish hiredis (positionCommands sid pos)

def publishTick (tick : NormalizedTick) (ask : DepthLevel) :
    RedisClient World → Except RedisHalt (RedisClient World) :=
  publish hiredis (tickCommands tick ask)

def publishRiskCounters (sid : Str) (dailyPnl : ℚ) (orderCount : Int) (exposure : ℚ) :
    RedisClient World → Except RedisHalt (RedisClient World) :=
  publish hiredis (riskCommands sid dailyPnl orderCount exposure)

def setKillSwitch (engaged : Bool) : RedisClient World → Except RedisHalt (RedisClient World) :=
  publish hiredis (killSwitchCommands engaged)

def drain : Nat → RedisClient World → Except RedisHalt (RedisClient World)
  | 0, _ => .error .outOfFuel
  | fuel + 1, c => do
      let (ok, c) ← getReply hiredis c
      if ok then drain fuel c else return c

def flushReplies (fuel : Nat) (c : RedisClient World) : Except RedisHalt (RedisClient World) := do
  let c ← drain hiredis fuel c
  let a ← c.context
  if hiredis.err c.world a then return connect hiredis (freeContext hiredis c a) else return c

def flush (fuel : Nat) (c : RedisClient World) : Except RedisHalt (RedisClient World) :=
  if c.ctx = none then .ok c else flushReplies hiredis fuel c

inductive Op where
  | publishPosition (sid : Str) (pos : Position)
  | publishTick (tick : NormalizedTick) (ask : DepthLevel)
  | publishRiskCounters (sid : Str) (dailyPnl : ℚ) (orderCount : Int) (exposure : ℚ)
  | setKillSwitch (engaged : Bool)
  | flush (fuel : Nat)

def Op.apply : Op → RedisClient World → Except RedisHalt (RedisClient World)
  | .publishPosition sid pos => RedisClient.publishPosition hiredis sid pos
  | .publishTick tick ask => RedisClient.publishTick hiredis tick ask
  | .publishRiskCounters sid dailyPnl orderCount exposure =>
      RedisClient.publishRiskCounters hiredis sid dailyPnl orderCount exposure
  | .setKillSwitch engaged => RedisClient.setKillSwitch hiredis engaged
  | .flush fuel => RedisClient.flush hiredis fuel

def Op.commands : Op → List RedisCommand
  | .publishPosition sid pos => positionCommands sid pos
  | .publishTick tick ask => tickCommands tick ask
  | .publishRiskCounters sid dailyPnl orderCount exposure =>
      riskCommands sid dailyPnl orderCount exposure
  | .setKillSwitch engaged => killSwitchCommands engaged
  | .flush _ => []

def Op.locked : Op → RedisClient World → Except RedisHalt (RedisClient World)
  | .flush fuel => flushReplies hiredis fuel
  | op => appendCommands hiredis op.commands

inductive Step where
  | call (op : Op)
  | reconnect

def Step.apply : Step → RedisClient World → Except RedisHalt (RedisClient World)
  | .call op, c => op.apply hiredis c
  | .reconnect, c => .ok (RedisClient.reconnect hiredis c)

def run (steps : List Step) (c : RedisClient World) : Except RedisHalt (RedisClient World) :=
  steps.foldlM (fun c step => step.apply hiredis c) c

variable {hiredis} {c : RedisClient World} {a : Nat}

theorem Op.apply_eq (op : Op) (c : RedisClient World) :
    op.apply hiredis c = if c.ctx = none then .ok c else op.locked hiredis c := by
  cases op <;> rfl

theorem after_after (c : RedisClient World) (world world' : World) (calls calls' : List RedisCall) :
    (c.after world calls).after world' calls' = c.after world' (calls ++ calls') :=
  congrArg (fun calls => { c with world := world', calls := calls }) (List.append_assoc ..)

theorem after_nil (c : RedisClient World) : c.after c.world [] = c :=
  congrArg (fun calls => { c with calls := calls }) (List.append_nil c.calls)

theorem context_of_live (hctx : c.ctx = some a) (hlive : a ∈ c.live) : c.context = .ok a := by
  rw [context, hctx]
  exact if_pos hlive

theorem appendCommand_of_live (cmd : RedisCommand) (hctx : c.ctx = some a) (hlive : a ∈ c.live) :
    appendCommand hiredis c cmd =
      .ok (c.after (hiredis.appendCommand a cmd c.world) [.appended a cmd]) := by
  rw [appendCommand, context_of_live hctx hlive]
  rfl

theorem appendCommands_of_live (cmds : List RedisCommand) (hctx : c.ctx = some a)
    (hlive : a ∈ c.live) : appendCommands hiredis cmds c =
      .ok (c.after (cmds.foldl (fun world cmd => hiredis.appendCommand a cmd world) c.world)
        (cmds.map (.appended a))) := by
  induction cmds generalizing c with
  | nil => exact congrArg Except.ok (after_nil c).symm
  | cons cmd cmds ih =>
      have hnext := ih (c := c.after (hiredis.appendCommand a cmd c.world) [.appended a cmd])
        hctx hlive
      rw [after_after] at hnext
      rw [appendCommands, List.foldlM_cons, appendCommand_of_live cmd hctx hlive]
      exact hnext

theorem drain_of_live (fuel : Nat) (hctx : c.ctx = some a) (hlive : a ∈ c.live) :
    drain hiredis fuel c =
      match hiredis.readsEnd a fuel c.world with
      | none => .error .outOfFuel
      | some (n, world) => .ok (c.afterReads a n world) := by
  induction fuel generalizing c with
  | zero => rfl
  | succ fuel ih =>
      cases hreply : hiredis.getReply a c.world with
      | mk ok world =>
          have hread : getReply hiredis c = .ok (ok, c.after world [.replied a ok]) := by
            rw [getReply, context_of_live hctx hlive]
            change Except.ok ((hiredis.getReply a c.world).1, c.after (hiredis.getReply a c.world).2
              [.replied a (hiredis.getReply a c.world).1]) = _
            rw [hreply]
          rw [drain, hread, Hiredis.readsEnd, hreply]
          cases ok with
          | false => rfl
          | true =>
              have hrest := ih (c := c.after world [.replied a true]) hctx hlive
              have hworld : (c.after world [.replied a true]).world = world := rfl
              rw [hworld] at hrest
              change drain hiredis fuel (c.after world [.replied a true]) = _
              rw [hrest]
              dsimp only
              rw [if_pos rfl]
              cases hiredis.readsEnd a fuel world with
              | none => rfl
              | some found => exact congrArg Except.ok (after_after ..)

theorem flushReplies_of_live (fuel : Nat) (hctx : c.ctx = some a) (hlive : a ∈ c.live) :
    flushReplies hiredis fuel c =
      match hiredis.readsEnd a fuel c.world with
      | none => .error .outOfFuel
      | some (n, world) =>
          .ok (if hiredis.err world a then
            connect hiredis (freeContext hiredis (c.afterReads a n world) a)
          else c.afterReads a n world) := by
  rw [flushReplies, drain_of_live fuel hctx hlive]
  cases hiredis.readsEnd a fuel c.world with
  | none => rfl
  | some found =>
      obtain ⟨n, world⟩ := found
      have hcontext : (c.afterReads a n world).context = .ok a := context_of_live hctx hlive
      change ((c.afterReads a n world).context >>= _) = _
      rw [hcontext]
      exact (apply_ite Except.ok _ _ _).symm

def Live (c : RedisClient World) : Prop := ∀ a, c.ctx = some a → a ∈ c.live

theorem live_of_none (h : c.ctx = none) : Live c := by
  intro a ha
  rw [h] at ha
  cases ha

theorem live_connect (hiredis : Hiredis World) (c : RedisClient World) :
    Live (connect hiredis c) := by
  unfold connect
  split
  · exact live_of_none rfl
  · dsimp only
    split
    · exact live_of_none rfl
    · split
      · rintro _ ⟨⟩
        exact List.mem_cons_self
      · rintro _ ⟨⟩
        exact List.mem_cons_self

end RedisClient

end QuantForge
