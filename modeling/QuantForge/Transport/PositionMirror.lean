import QuantForge.Library.JsonText
import QuantForge.Portfolio.Attribution
import QuantForge.Transport.RedisFlush

/-! The update callback of `main/main.cpp` writes every position of the snapshot to Redis. What the
server holds of positions is always the snapshot of the last update that found a connection. -/
namespace QuantForge

open Library

structure RedisStore where
  hashes : Dict (Str × Str) RedisArg := ∅
  strings : Dict Str RedisArg := ∅

namespace RedisCommand

def writes : RedisCommand → List ((Str × Str) × RedisArg)
  | hset key fields => fields.map fun field => ((key, field.1), field.2)
  | set _ _ | auth _ => []

def execute (store : RedisStore) (cmd : RedisCommand) : RedisStore :=
  let hashes := cmd.writes.foldl (fun (m : Dict (Str × Str) RedisArg) w => m.insert w.1 w.2)
    store.hashes
  match cmd with
  | set key value => { hashes, strings := store.strings.insert key value }
  | hset _ _ | auth _ => { store with hashes }

theorem hashes_execute (store : RedisStore) (cmds : List RedisCommand) :
    (cmds.foldl execute store).hashes = (cmds.flatMap writes).foldl
      (fun (m : Dict (Str × Str) RedisArg) w => m.insert w.1 w.2) store.hashes := by
  induction cmds generalizing store with
  | nil => rfl
  | cons cmd cmds ih =>
      rw [List.foldl_cons, ih, List.flatMap_cons, List.foldl_append]
      cases cmd <;> rfl

end RedisCommand

/-- The server executes the commands of a context in their order, each before it answers it, and
nothing else changes what it holds. -/
structure Hiredis.Executes {World : Type} (hiredis : Hiredis World) (store : World → RedisStore)
    (pending : World → Nat → List RedisCommand) : Prop where
  answers : hiredis.Answers fun world a => (pending world a).length
  connected : ∀ host port world, store (hiredis.connectWithTimeout host port world).2 = store world
  setTimeout : ∀ a world, store (hiredis.setTimeout a world) = store world
  commanded : ∀ {a password world}, pending world a = [] →
    store (hiredis.command a (.auth password) world) = store world
  appended : ∀ a cmd world, store (hiredis.appendCommand a cmd world) = store world ∧
    pending (hiredis.appendCommand a cmd world) a = pending world a ++ [cmd]
  replied : ∀ {a cmd rest world}, pending world a = cmd :: rest →
    (hiredis.getReply a world).1 = true →
    store (hiredis.getReply a world).2 = cmd.execute (store world) ∧
      pending (hiredis.getReply a world).2 a = rest
  timedOut : ∀ {a world}, pending world a = [] →
    store (hiredis.getReply a world).2 = store world
  freed : ∀ a world, store (hiredis.free a world) = store world

namespace Position

def values (pos : Position) : List (Str × RedisArg) :=
  [(":qty".toList, .int pos.quantity), (":avg_price".toList, .fixed4 pos.avgPrice),
    (":upnl".toList, .fixed4 pos.unrealizedPnl), (":rpnl".toList, .fixed4 pos.realizedPnl)]

end Position

def positionField (sid : Str) (token : Nat) (suffix : Str) : Str × Str :=
  ("positions:".toList ++ sid, Nat.toDigits 10 token ++ suffix)

def positionSuffixes : List Str :=
  [":qty".toList, ":avg_price".toList, ":upnl".toList, ":rpnl".toList]

namespace PortfolioSnapshot

def shows (snap : PortfolioSnapshot) (sid : Str) (token : Nat) (suffix : Str) : Option RedisArg :=
  match snap.positions.lookup token with
  | some pos => if pos.strategyId = sid then pos.values.lookup suffix else none
  | none => none

/-- The store has the positions of the snapshot under their strategies, and no others. -/
def MirroredBy (snap : PortfolioSnapshot) (store : RedisStore) : Prop :=
  ∀ sid token, ∀ suffix ∈ positionSuffixes,
    store.hashes.lookup (positionField sid token suffix) = snap.shows sid token suffix

end PortfolioSnapshot

namespace RedisClient

variable {World : Type} (hiredis : Hiredis World)

def publishUpdate (fuel : Nat) (snap : PortfolioSnapshot) (c : RedisClient World) :
    Except RedisHalt (RedisClient World) := do
  let c ← snap.positions.values.foldlM
    (fun c pos => publishPosition hiredis pos.strategyId pos c) c
  flush hiredis fuel c

end RedisClient

/-- The portfolio and the client; `shown` is the snapshot of the last update that found a
connection, which no step reads. -/
structure PositionMirror (World : Type) where
  engine : PortfolioEngine
  client : RedisClient World
  shown : PortfolioSnapshot := {}

inductive MirrorEvent where
  | fill (fill : Fill) (fuel : Nat)
  | tick (tick : NormalizedTick) (ask : DepthLevel)
  | flush (fuel : Nat)

namespace PositionMirror

variable {World : Type}

def step (hiredis : Hiredis World) (m : PositionMirror World) :
    MirrorEvent → Except RedisHalt (PositionMirror World)
  | .fill fill fuel => do
      let engine := m.engine.processFill fill
      let client ← RedisClient.publishUpdate hiredis fuel engine.snapshot m.client
      return { engine, client, shown := if m.client.ctx = none then m.shown else engine.snapshot }
  | .tick tick ask => do
      let client ← RedisClient.publishTick hiredis tick ask m.client
      return { m with client }
  | .flush fuel => do
      let client ← RedisClient.flush hiredis fuel m.client
      return { m with client }

def run (hiredis : Hiredis World) (m : PositionMirror World) (events : List MirrorEvent) :
    Except RedisHalt (PositionMirror World) :=
  events.foldlM (step hiredis) m

end PositionMirror

section Names

theorem positionField_inj {sid sid' : Str} {token token' : Nat} {suffix suffix' : Str}
    (hsuffix : suffix ∈ positionSuffixes) (hsuffix' : suffix' ∈ positionSuffixes)
    (h : positionField sid token suffix = positionField sid' token' suffix') :
    sid = sid' ∧ token = token' ∧ suffix = suffix' := by
  have hcolon : ∀ suffix ∈ positionSuffixes, ∀ c ∈ suffix.head?, c.isDigit = false := by
    simp [positionSuffixes]
  have hdigits : ∀ token, ∀ c ∈ Nat.toDigits 10 token, c.isDigit = true := fun token c hc =>
    Nat.isDigit_of_mem_toDigits (by decide) (by decide) hc
  obtain ⟨hkey, hname⟩ := Prod.mk.inj h
  obtain ⟨htake, hdrop⟩ := Json.takeWhile_isDigit (hdigits token) (hcolon suffix hsuffix)
  obtain ⟨htake', hdrop'⟩ := Json.takeWhile_isDigit (hdigits token') (hcolon suffix' hsuffix')
  rw [hname] at htake hdrop
  have htoken : Nat.toDigits 10 token = Nat.toDigits 10 token' := htake.symm.trans htake'
  have hread := congrArg (fun digits => Nat.ofDigitChars 10 digits 0) htoken
  simp only [Nat.ofDigitChars_ten_toDigits] at hread
  exact ⟨List.append_cancel_left hkey, hread, hdrop.symm.trans hdrop'⟩

theorem writes_positionCommands (sid : Str) (pos : Position) :
    (RedisClient.positionCommands sid pos).flatMap RedisCommand.writes =
      pos.values.map fun v => (positionField sid pos.instrumentToken v.1, v.2) := rfl

theorem Position.mem_values_iff {pos : Position} {suffix : Str} {value : RedisArg} :
    (suffix, value) ∈ pos.values ↔ pos.values.lookup suffix = some value := by
  constructor
  · intro h
    simp only [values, List.mem_cons, Prod.mk.injEq, List.not_mem_nil, or_false] at h
    obtain ⟨rfl, rfl⟩ | ⟨rfl, rfl⟩ | ⟨rfl, rfl⟩ | ⟨rfl, rfl⟩ := h <;> rfl
  · intro h
    obtain ⟨before, after, hsplit, -⟩ := List.lookup_eq_some_iff.mp h
    rw [hsplit]
    exact List.mem_append_right _ List.mem_cons_self

theorem Position.suffix_of_mem_values {pos : Position} {v : Str × RedisArg} (h : v ∈ pos.values) :
    v.1 ∈ positionSuffixes :=
  List.mem_map_of_mem (f := Prod.fst) h

theorem Position.exists_value (pos : Position) {suffix : Str} (h : suffix ∈ positionSuffixes) :
    ∃ value, pos.values.lookup suffix = some value := by
  obtain ⟨v, hmem, rfl⟩ := List.mem_map.mp (show suffix ∈ pos.values.map Prod.fst from h)
  exact ⟨v.2, Position.mem_values_iff.mp hmem⟩

end Names

def RedisCommand.Foreign (cmd : RedisCommand) : Prop :=
  ∀ w ∈ cmd.writes, ∀ sid, w.1.1 ≠ "positions:".toList ++ sid

theorem foreign_tickCommands (tick : NormalizedTick) (ask : DepthLevel) :
    ∀ cmd ∈ RedisClient.tickCommands tick ask, cmd.Foreign := by
  intro cmd hcmd w hw sid
  obtain rfl := List.mem_singleton.mp hcmd
  obtain ⟨field, -, rfl⟩ := List.mem_map.mp hw
  simp

namespace PortfolioSnapshot

def Keyed (snap : PortfolioSnapshot) : Prop :=
  ∀ token pos, snap.positions.lookup token = some pos → pos.instrumentToken = token

def OwnersIn (before snap : PortfolioSnapshot) : Prop :=
  ∀ token pos, before.positions.lookup token = some pos →
    ∃ pos', snap.positions.lookup token = some pos' ∧ pos'.strategyId = pos.strategyId

theorem shows_eq_some_iff {snap : PortfolioSnapshot} {sid suffix : Str} {token : Nat}
    {value : RedisArg} : snap.shows sid token suffix = some value ↔
      ∃ pos, snap.positions.lookup token = some pos ∧ pos.strategyId = sid ∧
        pos.values.lookup suffix = some value := by
  unfold shows
  cases snap.positions.lookup token with
  | none => simp
  | some pos =>
      by_cases howner : pos.strategyId = sid <;> simp [howner]

theorem mirroredBy_foreign {snap : PortfolioSnapshot} {store : RedisStore}
    {pending : List RedisCommand} (h : snap.MirroredBy store)
    (hforeign : ∀ cmd ∈ pending, cmd.Foreign) :
    snap.MirroredBy (pending.foldl RedisCommand.execute store) := by
  intro sid token suffix hsuffix
  rw [RedisCommand.hashes_execute, Dict.lookup_foldl_insert_of_ne]
  · exact h sid token suffix hsuffix
  · intro w hw hname
    obtain ⟨cmd, hcmd, hw⟩ := List.mem_flatMap.mp hw
    exact hforeign cmd hcmd w hw sid (congrArg Prod.fst hname)

theorem mirroredBy_execute {before snap : PortfolioSnapshot} {store : RedisStore}
    {pending : List RedisCommand} (h : before.MirroredBy store) (howners : before.OwnersIn snap)
    (hkeyed : snap.Keyed) (hforeign : ∀ cmd ∈ pending, cmd.Foreign) :
    snap.MirroredBy ((pending ++ snap.positions.values.flatMap fun pos =>
      RedisClient.positionCommands pos.strategyId pos).foldl RedisCommand.execute store) := by
  intro sid token suffix hsuffix
  rw [RedisCommand.hashes_execute]
  -- A write of the field is that of the position of the token.
  have hwrites : ∀ w ∈ (pending ++ snap.positions.values.flatMap fun pos =>
      RedisClient.positionCommands pos.strategyId pos).flatMap RedisCommand.writes,
      w.1 = positionField sid token suffix → snap.shows sid token suffix = some w.2 := by
    intro w hw hname
    obtain ⟨cmd, hcmd, hw⟩ := List.mem_flatMap.mp hw
    obtain hpending | hposition := List.mem_append.mp hcmd
    · exact absurd (congrArg Prod.fst hname) (hforeign cmd hpending w hw sid)
    · obtain ⟨pos, hpos, hcmd⟩ := List.mem_flatMap.mp hposition
      have hfields : w ∈ (RedisClient.positionCommands pos.strategyId pos).flatMap
          RedisCommand.writes := List.mem_flatMap.mpr ⟨cmd, hcmd, hw⟩
      rw [writes_positionCommands] at hfields
      obtain ⟨v, hv, rfl⟩ := List.mem_map.mp hfields
      obtain ⟨howner, htoken, heq⟩ :=
        positionField_inj (Position.suffix_of_mem_values hv) hsuffix hname
      obtain ⟨key, hlookup⟩ := Dict.mem_values.mp hpos
      obtain rfl : token = key := htoken.symm.trans (hkeyed key pos hlookup)
      refine shows_eq_some_iff.mpr ⟨pos, hlookup, howner, ?_⟩
      rw [← heq]
      exact Position.mem_values_iff.mp hv
  cases hshows : snap.shows sid token suffix with
  | none =>
      rw [Dict.lookup_foldl_insert_of_ne fun w hw hname => by
        rw [hshows] at hwrites
        exact absurd (hwrites w hw hname) nofun]
      rw [h sid token suffix hsuffix]
      by_contra hshown
      obtain ⟨value, hshown⟩ := Option.ne_none_iff_exists'.mp hshown
      obtain ⟨pos, hlookup, howner, -⟩ := shows_eq_some_iff.mp hshown
      obtain ⟨pos', hlookup', howner'⟩ := howners token pos hlookup
      obtain ⟨value', hvalue⟩ := pos'.exists_value hsuffix
      have hsome := shows_eq_some_iff.mpr ⟨pos', hlookup', howner'.trans howner, hvalue⟩
      rw [hshows] at hsome
      cases hsome
  | some value =>
      rw [hshows] at hwrites
      obtain ⟨pos, hlookup, howner, hvalue⟩ := shows_eq_some_iff.mp hshows
      refine Dict.lookup_foldl_insert_of_mem ?_ fun w hw hname =>
        (Option.some.inj (hwrites w hw hname)).symm
      have hfield : (positionField sid token suffix, value) ∈
          (RedisClient.positionCommands pos.strategyId pos).flatMap RedisCommand.writes := by
        rw [writes_positionCommands]
        refine List.mem_map.mpr ⟨(suffix, value), Position.mem_values_iff.mpr hvalue, ?_⟩
        rw [howner, hkeyed token pos hlookup]
      obtain ⟨cmd, hcmd, hw⟩ := List.mem_flatMap.mp hfield
      refine List.mem_flatMap.mpr ⟨cmd, List.mem_append_right _ ?_, hw⟩
      exact List.mem_flatMap.mpr ⟨pos, Dict.mem_values.mpr ⟨token, hlookup⟩, hcmd⟩

end PortfolioSnapshot

namespace RedisClient

variable {World : Type} {hiredis : Hiredis World} {store : World → RedisStore}
  {pending : World → Nat → List RedisCommand} {c c' : RedisClient World} {a : Nat}

/-- A client that is connected has a context without an error. -/
def Sound (hiredis : Hiredis World) (c : RedisClient World) : Prop :=
  ∀ a, c.ctx = some a → a ∈ c.live ∧ hiredis.err c.world a = false

def Ready (hiredis : Hiredis World) (pending : World → Nat → List RedisCommand)
    (c : RedisClient World) : Prop :=
  ∀ a, c.ctx = some a → a ∈ c.live ∧ hiredis.err c.world a = false ∧
    ∀ cmd ∈ pending c.world a, cmd.Foreign

theorem store_freeContext (hexec : hiredis.Executes store pending) (c : RedisClient World)
    (a : Nat) : store (freeContext hiredis c a).world = store c.world :=
  hexec.freed a c.world

theorem store_connect (hexec : hiredis.Executes store pending) (c : RedisClient World) :
    store (connect hiredis c).world = store c.world := by
  have hconnected := hexec.connected c.host c.port c.world
  unfold connect
  split
  · rename_i world hconnect
    rwa [hconnect] at hconnected
  · rename_i a world hconnect
    rw [hconnect] at hconnected
    dsimp only
    split
    · exact (hexec.freed a world).trans hconnected
    · rename_i herr
      have herr := Bool.eq_false_iff.mpr herr
      have hwaiting := hexec.answers.setTimeout ⟨herr, hexec.answers.connected hconnect herr⟩
      split
      · exact (hexec.setTimeout a world).trans hconnected
      · have hnone := List.eq_nil_of_length_eq_zero hwaiting.outstanding
        exact ((hexec.commanded hnone).trans (hexec.setTimeout a world)).trans hconnected

theorem ready_of_inStep (h : InStep hiredis (fun world a => (pending world a).length) 0 c) :
    Ready hiredis pending c := by
  intro a hctx
  obtain ⟨hlive, hwaiting⟩ := h a hctx
  refine ⟨hlive, hwaiting.err, fun cmd hcmd => ?_⟩
  rw [List.eq_nil_of_length_eq_zero hwaiting.outstanding] at hcmd
  exact absurd hcmd List.not_mem_nil

theorem Ready.sound (h : Ready hiredis pending c) : Sound hiredis c := fun a hctx =>
  ⟨(h a hctx).1, (h a hctx).2.1⟩

theorem Sound.inStep (h : Sound hiredis c) (hctx : c.ctx = some a) :
    InStep hiredis (fun world a => (pending world a).length) (pending c.world a).length c := by
  intro b hb
  obtain rfl := Option.some.inj (hctx.symm.trans hb)
  obtain ⟨hlive, herr⟩ := h a hctx
  exact ⟨hlive, herr, rfl⟩

theorem pending_append (hexec : hiredis.Executes store pending) (a : Nat)
    (cmds : List RedisCommand) (world : World) :
    let world' := cmds.foldl (fun world cmd => hiredis.appendCommand a cmd world) world
    store world' = store world ∧ pending world' a = pending world a ++ cmds := by
  induction cmds generalizing world with
  | nil => exact ⟨rfl, (List.append_nil _).symm⟩
  | cons cmd cmds ih =>
      obtain ⟨hstore, hpending⟩ := hexec.appended a cmd world
      obtain ⟨hrest, hlast⟩ := ih (hiredis.appendCommand a cmd world)
      refine ⟨hrest.trans hstore, hlast.trans ?_⟩
      rw [hpending, List.append_assoc]
      rfl

theorem store_readsEnd (hexec : hiredis.Executes store pending) {fuel n : Nat}
    {world world' : World} (herr : hiredis.err world a = false)
    (hread : hiredis.readsEnd a fuel world = some (n, world')) :
    store world' = (pending world a).foldl RedisCommand.execute (store world) := by
  induction fuel generalizing world n with
  | zero => cases hread
  | succ fuel ih =>
      rw [Hiredis.readsEnd] at hread
      dsimp only at hread
      cases hwaits : pending world a with
      | nil =>
          obtain ⟨hok, -⟩ := hexec.answers.timedOut ⟨herr, congrArg List.length hwaits⟩
          rw [hok, if_neg Bool.false_ne_true, Option.some.injEq] at hread
          rw [← (Prod.mk.inj hread).2, hexec.timedOut hwaits]
          rfl
      | cons cmd rest =>
          obtain ⟨hok, hwaiting⟩ := hexec.answers.replied (n := rest.length)
            ⟨herr, congrArg List.length hwaits⟩
          obtain ⟨hstore, hrest⟩ := hexec.replied hwaits hok
          rw [hok, if_pos rfl] at hread
          obtain ⟨found, hfound, heq⟩ := Option.map_eq_some_iff.mp hread
          have hlast := ih (n := found.1) hwaiting.err
            (hfound.trans (congrArg some (Prod.ext rfl (Prod.mk.inj heq).2)))
          rw [hlast, hrest, hstore]
          rfl

/-- A flush of a connected client that returns has had all that waits executed. -/
theorem store_flush (hexec : hiredis.Executes store pending) (h : Sound hiredis c)
    (hctx : c.ctx = some a) {fuel : Nat} (hok : flush hiredis fuel c = .ok c') :
    store c'.world = (pending c.world a).foldl RedisCommand.execute (store c.world) := by
  obtain ⟨hlive, herr⟩ := h a hctx
  rw [flush, if_neg (by simp [hctx]), flushReplies_of_live fuel hctx hlive] at hok
  cases hread : hiredis.readsEnd a fuel c.world with
  | none =>
      rw [hread] at hok
      cases hok
  | some found =>
      obtain ⟨n, world⟩ := found
      have hstore := store_readsEnd hexec herr hread
      rw [hread] at hok
      obtain rfl := Except.ok.inj hok
      split
      · rw [store_connect hexec, store_freeContext hexec]
        exact hstore
      · exact hstore

theorem flush_of_none (hctx : c.ctx = none) (fuel : Nat) : flush hiredis fuel c = .ok c :=
  if_pos hctx

theorem ready_flush (hexec : hiredis.Executes store pending) (h : Sound hiredis c)
    (hctx : c.ctx = some a) {fuel : Nat} (hok : flush hiredis fuel c = .ok c') :
    Ready hiredis pending c' :=
  ready_of_inStep (inStep_flush hexec.answers (h.inStep hctx) hok)

theorem publishPositions_eq (hctx : c.ctx = some a) (hlive : a ∈ c.live)
    (positions : List Position) :
    positions.foldlM (fun c pos => publishPosition hiredis pos.strategyId pos c) c =
      appendCommands hiredis
        (positions.flatMap fun pos => positionCommands pos.strategyId pos) c := by
  induction positions generalizing c with
  | nil => rfl
  | cons pos positions ih =>
      have hfirst : publishPosition hiredis pos.strategyId pos c =
          appendCommands hiredis (positionCommands pos.strategyId pos) c :=
        if_neg (by simp [hctx])
      rw [List.foldlM_cons, hfirst, List.flatMap_cons, appendCommands, appendCommands,
        List.foldlM_append]
      have happended := @appendCommands_of_live _ hiredis c a
        (positionCommands pos.strategyId pos) hctx hlive
      rw [appendCommands] at happended
      rw [happended]
      exact ih hctx hlive

end RedisClient

theorem Position.applyFill_instrumentToken (pos : Position) (fill : Fill) :
    (pos.applyFill fill).1.instrumentToken = pos.instrumentToken := by
  unfold applyFill
  split
  · rfl
  · split <;> rfl

namespace PortfolioEngine

variable {engine : PortfolioEngine} {fill : Fill}

theorem target_of_keyed (h : engine.snapshot.Keyed) (hfill : fill.instrumentToken ≠ 0) :
    (engine.target fill).instrumentToken = fill.instrumentToken ∧
      ∀ pos, engine.snapshot.positions.lookup fill.instrumentToken = some pos →
        engine.target fill = pos := by
  unfold target getPosition PortfolioSnapshot.getPosition Position.stamp
  cases hlookup : engine.snapshot.positions.lookup fill.instrumentToken with
  | none => exact ⟨rfl, nofun⟩
  | some pos =>
      have htoken := h _ pos hlookup
      rw [Option.getD_some, if_neg (htoken ▸ hfill)]
      exact ⟨htoken, fun pos' heq => Option.some.inj heq⟩

theorem keyed_processFill (h : engine.snapshot.Keyed) (hfill : fill.instrumentToken ≠ 0) :
    (engine.processFill fill).snapshot.Keyed := by
  intro token pos hpos
  rw [processFill_positions] at hpos
  by_cases heq : token = fill.instrumentToken
  · subst heq
    rw [AList.lookup_insert] at hpos
    obtain rfl := Option.some.inj hpos
    rw [Position.applyFill_instrumentToken, (target_of_keyed h hfill).1]
  · rw [AList.lookup_insert_ne heq] at hpos
    exact h token pos hpos

theorem ownersIn_processFill (h : engine.snapshot.Keyed) (hfill : fill.instrumentToken ≠ 0)
    {before : PortfolioSnapshot} (howners : before.OwnersIn engine.snapshot) :
    before.OwnersIn (engine.processFill fill).snapshot := by
  intro token pos hpos
  obtain ⟨pos', hlookup, howner⟩ := howners token pos hpos
  rw [processFill_positions]
  by_cases heq : token = fill.instrumentToken
  · subst heq
    refine ⟨_, AList.lookup_insert _, ?_⟩
    rw [Position.applyFill_strategyId, (target_of_keyed h hfill).2 pos' hlookup]
    exact howner
  · exact ⟨pos', (AList.lookup_insert_ne heq).trans hlookup, howner⟩

end PortfolioEngine

namespace PositionMirror

variable {World : Type} {hiredis : Hiredis World} {store : World → RedisStore}
  {pending : World → Nat → List RedisCommand} {m m' : PositionMirror World}

/-- What holds between the portfolio, the client and the server. -/
structure InStep (hiredis : Hiredis World) (store : World → RedisStore)
    (pending : World → Nat → List RedisCommand) (m : PositionMirror World) : Prop where
  mirrored : m.shown.MirroredBy (store m.client.world)
  ready : RedisClient.Ready hiredis pending m.client
  keyed : m.engine.snapshot.Keyed
  owners : m.shown.OwnersIn m.engine.snapshot

def OfInstrument : MirrorEvent → Prop
  | .fill fill _ => fill.instrumentToken ≠ 0
  | .tick _ _ | .flush _ => True

instance decidableOfInstrument : DecidablePred OfInstrument
  | .fill fill _ => inferInstanceAs (Decidable (fill.instrumentToken ≠ 0))
  | .tick _ _ | .flush _ => inferInstanceAs (Decidable True)

theorem ready_publish (hexec : hiredis.Executes store pending) {c c' : RedisClient World}
    (h : RedisClient.Ready hiredis pending c) {cmds : List RedisCommand}
    (hforeign : ∀ cmd ∈ cmds, cmd.Foreign) (hok : RedisClient.publish hiredis cmds c = .ok c') :
    RedisClient.Ready hiredis pending c' ∧ store c'.world = store c.world := by
  unfold RedisClient.publish at hok
  split at hok
  · obtain rfl := Except.ok.inj hok
    exact ⟨h, rfl⟩
  · rename_i hctx
    obtain ⟨a, hctx⟩ := Option.ne_none_iff_exists'.mp hctx
    obtain ⟨hlive, herr, hpending⟩ := h a hctx
    rw [RedisClient.appendCommands_of_live cmds hctx hlive] at hok
    obtain rfl := Except.ok.inj hok
    obtain ⟨hstore, hlast⟩ := RedisClient.pending_append hexec a cmds c.world
    refine ⟨fun b hb => ?_, hstore⟩
    obtain rfl := Option.some.inj (hctx.symm.trans hb)
    have hbefore : hiredis.Waiting (fun world a => (pending world a).length) c.world a
        (pending c.world a).length := ⟨herr, rfl⟩
    have hwaiting := RedisClient.waiting_appendCommands hexec.answers cmds hbefore
    refine ⟨hlive, hwaiting.err, fun cmd hcmd => ?_⟩
    change cmd ∈ pending (cmds.foldl (fun world cmd => hiredis.appendCommand a cmd world)
      c.world) a at hcmd
    rw [hlast] at hcmd
    obtain hold | hnew := List.mem_append.mp hcmd
    · exact hpending cmd hold
    · exact hforeign cmd hnew

def updated (hiredis : Hiredis World) (snap : PortfolioSnapshot) (c : RedisClient World) (a : Nat) :
    RedisClient World :=
  let cmds := snap.positions.values.flatMap fun pos =>
    RedisClient.positionCommands pos.strategyId pos
  c.after (cmds.foldl (fun world cmd => hiredis.appendCommand a cmd world) c.world)
    (cmds.map (.appended a))

theorem update_eq {c : RedisClient World} {a : Nat} (fuel : Nat) (snap : PortfolioSnapshot)
    (hctx : c.ctx = some a) (hlive : a ∈ c.live) :
    RedisClient.publishUpdate hiredis fuel snap c =
      RedisClient.flush hiredis fuel (updated hiredis snap c a) := by
  rw [RedisClient.publishUpdate, RedisClient.publishPositions_eq hctx hlive,
    RedisClient.appendCommands_of_live _ hctx hlive]
  rfl

theorem sound_updated (hanswers : hiredis.Answers fun world a => (pending world a).length)
    {c : RedisClient World} {a : Nat} (snap : PortfolioSnapshot) (hctx : c.ctx = some a)
    (hlive : a ∈ c.live) (herr : hiredis.err c.world a = false) :
    RedisClient.Sound hiredis (updated hiredis snap c a) := by
  have hbefore : hiredis.Waiting (fun world a => (pending world a).length) c.world a
      (pending c.world a).length := ⟨herr, rfl⟩
  have hwaiting := RedisClient.waiting_appendCommands hanswers
    (snap.positions.values.flatMap fun pos => RedisClient.positionCommands pos.strategyId pos)
    hbefore
  intro b hb
  obtain rfl := Option.some.inj (hctx.symm.trans hb)
  exact ⟨hlive, hwaiting.err⟩

theorem update_connected (hexec : hiredis.Executes store pending) {c c' : RedisClient World}
    {a : Nat} (hctx : c.ctx = some a) (h : RedisClient.Ready hiredis pending c)
    {before snap : PortfolioSnapshot} (hmirrored : before.MirroredBy (store c.world))
    (howners : before.OwnersIn snap) (hkeyed : snap.Keyed) {fuel : Nat}
    (hok : RedisClient.publishUpdate hiredis fuel snap c = .ok c') :
    RedisClient.Ready hiredis pending c' ∧ snap.MirroredBy (store c'.world) := by
  obtain ⟨hlive, herr, hforeign⟩ := h a hctx
  rw [update_eq fuel snap hctx hlive] at hok
  have hsound := sound_updated hexec.answers snap hctx hlive herr
  refine ⟨RedisClient.ready_flush hexec hsound hctx hok, ?_⟩
  rw [RedisClient.store_flush hexec hsound hctx hok]
  obtain ⟨hstore, hpending⟩ := RedisClient.pending_append hexec a
    (snap.positions.values.flatMap fun pos => RedisClient.positionCommands pos.strategyId pos)
    c.world
  dsimp only [updated, RedisClient.after]
  rw [hpending, hstore]
  exact PortfolioSnapshot.mirroredBy_execute hmirrored howners hkeyed hforeign

theorem update_disconnected {c : RedisClient World} (hctx : c.ctx = none) (fuel : Nat)
    (snap : PortfolioSnapshot) : RedisClient.publishUpdate hiredis fuel snap c = .ok c := by
  have hpublish : ∀ positions : List Position, positions.foldlM
      (fun c pos => RedisClient.publishPosition hiredis pos.strategyId pos c) c = .ok c := by
    intro positions
    induction positions with
    | nil => rfl
    | cons pos positions ih =>
        have hfirst : RedisClient.publishPosition hiredis pos.strategyId pos c = .ok c :=
          if_pos hctx
        rw [List.foldlM_cons, hfirst]
        exact ih
  rw [RedisClient.publishUpdate, hpublish]
  exact RedisClient.flush_of_none hctx fuel

/-- An update returns once its flush may read as often as it needs. -/
theorem update_returns (hexec : hiredis.Executes store pending) {c : RedisClient World}
    (h : RedisClient.Sound hiredis c) (snap : PortfolioSnapshot) :
    ∃ fuel c', RedisClient.publishUpdate hiredis fuel snap c = .ok c' := by
  cases hctx : c.ctx with
  | none => exact ⟨0, c, update_disconnected hctx 0 snap⟩
  | some a =>
      obtain ⟨hlive, herr⟩ := h a hctx
      have hsound := sound_updated hexec.answers snap hctx hlive herr
      have hctx' : (updated hiredis snap c a).ctx = some a := hctx
      obtain ⟨world, hflush⟩ := RedisClient.flush_eq hexec.answers hctx' (hsound.inStep hctx')
      exact ⟨_, _, (update_eq _ snap hctx hlive).trans
        ((hflush _).trans (if_pos (Nat.lt_succ_self _)))⟩

theorem inStep_step (hexec : hiredis.Executes store pending) (h : m.InStep hiredis store pending)
    {event : MirrorEvent} (hevent : OfInstrument event) (hok : m.step hiredis event = .ok m') :
    m'.InStep hiredis store pending := by
  cases event with
  | fill fill fuel =>
      obtain ⟨client, hclient, hnext⟩ := RedisHalt.bind_ok hok
      obtain rfl := Except.ok.inj hnext
      have hkeyed := PortfolioEngine.keyed_processFill h.keyed hevent
      have howners := PortfolioEngine.ownersIn_processFill h.keyed hevent h.owners
      cases hctx : m.client.ctx with
      | none =>
          rw [update_disconnected hctx] at hclient
          obtain rfl := Except.ok.inj hclient
          simp only [if_pos]
          exact ⟨h.mirrored, h.ready, hkeyed, howners⟩
      | some a =>
          obtain ⟨hready, hmirrored⟩ := update_connected hexec hctx h.ready h.mirrored howners
            hkeyed hclient
          simp only [reduceCtorEq, if_false]
          exact ⟨hmirrored, hready, hkeyed, fun token pos hpos => ⟨pos, hpos, rfl⟩⟩
  | tick tick ask =>
      obtain ⟨client, hclient, hnext⟩ := RedisHalt.bind_ok hok
      obtain rfl := Except.ok.inj hnext
      obtain ⟨hready, hstore⟩ := ready_publish hexec h.ready (foreign_tickCommands tick ask) hclient
      exact ⟨by rw [hstore]; exact h.mirrored, hready, h.keyed, h.owners⟩
  | flush fuel =>
      obtain ⟨client, hclient, hnext⟩ := RedisHalt.bind_ok hok
      obtain rfl := Except.ok.inj hnext
      cases hctx : m.client.ctx with
      | none =>
          rw [RedisClient.flush_of_none hctx] at hclient
          obtain rfl := Except.ok.inj hclient
          exact h
      | some a =>
          have hstore := RedisClient.store_flush hexec h.ready.sound hctx hclient
          refine ⟨?_, RedisClient.ready_flush hexec h.ready.sound hctx hclient, h.keyed, h.owners⟩
          change m.shown.MirroredBy (store client.world)
          rw [hstore]
          exact PortfolioSnapshot.mirroredBy_foreign h.mirrored (h.ready a hctx).2.2

theorem inStep_run (hexec : hiredis.Executes store pending) {events : List MirrorEvent}
    (hevents : ∀ event ∈ events, OfInstrument event) (h : m.InStep hiredis store pending)
    (hok : m.run hiredis events = .ok m') : m'.InStep hiredis store pending := by
  induction events generalizing m with
  | nil =>
      obtain rfl := Except.ok.inj hok
      exact h
  | cons event events ih =>
      rw [run, List.foldlM_cons] at hok
      obtain ⟨next, hnext, hrest⟩ := RedisHalt.bind_ok hok
      exact ih (fun e he => hevents e (List.mem_cons_of_mem _ he))
        (inStep_step hexec h (hevents event List.mem_cons_self) hnext) hrest

def start (hiredis : Hiredis World) (host : Str) (port : Nat) (password : Str) (world : World) :
    PositionMirror World where
  engine := .init
  client := .create hiredis host port password world

/-- With a server that answers what waits, and whatever attempts to connect fail, it holds the
positions of the last update that found a connection, under their strategies, and no others; every
next fill returns, and if it finds a connection the server holds the positions of the portfolio
itself. -/
theorem redis_mirrors_positions (hexec : hiredis.Executes store pending) {host : Str} {port : Nat}
    {password : Str} {world : World} (hempty : (store world).hashes = ∅)
    {events : List MirrorEvent} (hevents : ∀ event ∈ events, OfInstrument event)
    (hok : (start hiredis host port password world).run hiredis events = .ok m) :
    m.shown.MirroredBy (store m.client.world) ∧
      (∀ fill, ∃ fuel m', m.step hiredis (.fill fill fuel) = .ok m') ∧
      ∀ fill fuel m', fill.instrumentToken ≠ 0 → m.client.isConnected = true →
        m.step hiredis (.fill fill fuel) = .ok m' →
        m'.engine.snapshot.MirroredBy (store m'.client.world) := by
  have hstart : (start hiredis host port password world).InStep hiredis store pending := by
    refine ⟨?_, ?_, nofun, nofun⟩
    · intro sid token suffix _
      change (store (RedisClient.connect hiredis _).world).hashes.lookup _ = none
      rw [RedisClient.store_connect hexec, hempty]
      exact AList.lookup_empty _
    · exact RedisClient.ready_of_inStep (RedisClient.inStep_connect hexec.answers _)
  have h := inStep_run hexec hevents hstart hok
  refine ⟨h.mirrored, fun fill => ?_, fun fill fuel m' hfill hconnected hstep => ?_⟩
  · obtain ⟨fuel, client, hclient⟩ :=
      update_returns hexec h.ready.sound (m.engine.processFill fill).snapshot
    refine ⟨fuel, { engine := m.engine.processFill fill, client, shown := if m.client.ctx = none
      then m.shown else (m.engine.processFill fill).snapshot }, ?_⟩
    rw [step, hclient]
    rfl
  have hevent : OfInstrument (.fill fill fuel) := hfill
  have hnext := (inStep_step hexec h hevent hstep).mirrored
  obtain ⟨client, -, heq⟩ := RedisHalt.bind_ok hstep
  obtain rfl := Except.ok.inj heq
  obtain ⟨a, hctx⟩ := Option.isSome_iff_exists.mp hconnected
  simp only [hctx, reduceCtorEq, if_false] at hnext
  exact hnext

def serving : Hiredis (RedisStore × List RedisCommand × Bool) where
  connectWithTimeout _ _ world := (some 1, (world.1, [], false))
  err world _ := world.2.2
  setTimeout _ world := world
  command _ _ world := world
  appendCommand _ cmd world := (world.1, world.2.1 ++ [cmd], world.2.2)
  getReply _ world :=
    match world with
    | (store, cmd :: rest, false) => (true, (cmd.execute store, rest, false))
    | (store, rest, _) => (false, (store, rest, true))
  free _ world := world

theorem serving_executes : serving.Executes Prod.fst fun world _ => world.2.1 where
  answers :=
    { connected := by
        rintro host port world a world' ⟨⟩ -
        rfl
      setTimeout := fun h => h
      commanded := fun _ h => h
      appended := fun cmd h => ⟨h.err, by
        have := h.outstanding
        simpa [serving] using this⟩
      replied := by
        rintro ⟨store, queue, failed⟩ a n ⟨herr, hout⟩
        obtain rfl : failed = false := herr
        cases queue with
        | nil => cases hout
        | cons cmd rest => exact ⟨rfl, rfl, Nat.succ.inj hout⟩
      timedOut := by
        rintro ⟨store, queue, failed⟩ a ⟨herr, hout⟩
        obtain rfl : failed = false := herr
        obtain rfl := List.eq_nil_of_length_eq_zero hout
        exact ⟨rfl, rfl⟩ }
  connected _ _ _ := rfl
  setTimeout _ _ := rfl
  commanded _ := rfl
  appended _ _ _ := ⟨rfl, rfl⟩
  replied := by
    rintro a cmd rest ⟨store, queue, failed⟩ hwaits hok
    obtain rfl : queue = cmd :: rest := hwaits
    cases failed with
    | false => exact ⟨rfl, rfl⟩
    | true => cases hok
  timedOut := by
    rintro a ⟨store, queue, failed⟩ hnone
    obtain rfl : queue = [] := hnone
    rfl
  freed _ _ := rfl

private def boughtTen : Fill where
  strategyId := ['a']
  instrumentToken := 5
  quantity := 10
  price := 100

private def boughtTenEvents : List MirrorEvent :=
  [.tick { instrumentToken := 5 } {}, .fill boughtTen 6]

private def boughtTenStart : PositionMirror (RedisStore × List RedisCommand × Bool) :=
  start serving "127.0.0.1".toList 6379 [] ({}, [], false)

theorem redis_mirrors_positions_boughtTen :
    ∃ m, boughtTenStart.run serving boughtTenEvents = .ok m ∧
      m.shown.MirroredBy m.client.world.1 ∧
      m.client.world.1.hashes.lookup (positionField ['a'] 5 ":qty".toList) = some (.int 10) := by
  have hheld : (boughtTenStart.run serving boughtTenEvents).toOption.bind (fun m =>
      m.client.world.1.hashes.lookup (positionField ['a'] 5 ":qty".toList)) =
        some (.int 10) := by
    decide +kernel
  cases hok : boughtTenStart.run serving boughtTenEvents with
  | error halt =>
      rw [hok] at hheld
      cases hheld
  | ok m =>
      rw [hok] at hheld
      exact ⟨m, rfl, (redis_mirrors_positions serving_executes rfl (by decide) hok).1, hheld⟩

end PositionMirror

end QuantForge
