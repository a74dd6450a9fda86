import Mathlib.Data.Int.ModEq
import QuantForge.Common.SpscQueue

/-! `subscribe`, `unsubscribe` and `decode_protobuf_frame` of `market_data/upstox_ws_handler.cpp`.
`std::hash<std::string>` and the generated parser of frames are parameters. -/
namespace QuantForge

open Library

def maxSymbolLen : Nat := 32

def tickQueueCapacity : Nat := 65536

abbrev TickQueue := SpscQueue NormalizedTick tickQueueCapacity

instance : PowerOfTwo tickQueueCapacity := ⟨by decide, by decide⟩

structure Ltpc where
  ltp : ℚ
  cp : ℚ
  ltt : Int

structure Quote where
  bidp : ℚ
  bidq : Nat

structure MarketFullFeed where
  ltpc : Ltpc
  vtt : Nat
  oi : Nat
  bidAskQuote : List Quote

structure FullFeed where
  marketFf : Option MarketFullFeed

structure FirstLevelWithGreeks where
  ltpc : Ltpc

/-- The parts of a feed entry, each of which may be missing. -/
structure FeedMsg where
  ltpc : Option Ltpc := none
  fullFeed : Option FullFeed := none
  firstLevelWithGreeks : Option FirstLevelWithGreeks := none

structure UpstoxWsHandler where
  tickQueue : TickQueue
  subscribedKeys : List Str := []
  subscribeMode : Str := "full".toList
  tokenToKey : Dict Nat Str := ∅
  msgCount : Nat := 0
  decodeErrors : Nat := 0

/-- `static_cast<int64_t>` of a 64-bit unsigned value. -/
def asInt64 (n : Nat) : Int := (n : Int).bmod (2 ^ 64)

namespace UpstoxWsHandler

def subscribe (hash : Str → Nat) (handler : UpstoxWsHandler) (keys : List Str) (mode : Str) :
    UpstoxWsHandler :=
  { handler with
    subscribedKeys := keys
    subscribeMode := mode
    tokenToKey := keys.foldl (fun map key => map.insert (hash key) key) handler.tokenToKey }

def unsubscribe (hash : Str → Nat) (handler : UpstoxWsHandler) (keys : List Str) :
    UpstoxWsHandler :=
  keys.foldl (fun handler key =>
    { handler with
      subscribedKeys := handler.subscribedKeys.filter (· ≠ key)
      tokenToKey := handler.tokenToKey.erase (hash key) }) handler

/-- What the tick takes from the entry; `none` when the entry has no data. -/
def readFeed (msg : FeedMsg) (tick : NormalizedTick) : Option NormalizedTick :=
  match msg.ltpc with
  | some ltpc =>
      some { tick with
        ltp := ltpc.ltp
        prevClose := ltpc.cp
        exchangeTsNs := (ltpc.ltt * 1000000 % 2 ^ 64).toNat }
  | none =>
      match msg.fullFeed with
      | some ff =>
          ff.marketFf.map fun mff =>
            { tick with
              ltp := mff.ltpc.ltp
              prevClose := mff.ltpc.cp
              volume := mff.vtt
              oi := mff.oi
              bid := match mff.bidAskQuote with
                | q :: _ => ⟨q.bidp, q.bidq⟩
                | [] => tick.bid }
      | none =>
          msg.firstLevelWithGreeks.map fun fl =>
            { tick with
              ltp := fl.ltpc.ltp
              prevClose := fl.ltpc.cp }

/-- A tick that is more than five seconds behind is stale. The difference of the two signed
counts wraps around. -/
def markStale (tick : NormalizedTick) : NormalizedTick :=
  if tick.exchangeTsNs > 0 then
    let latency := (asInt64 tick.recvTsNs - asInt64 tick.exchangeTsNs).bmod (2 ^ 64)
    { tick with latencyNs := latency, isStale := decide (latency > 5000000000) }
  else tick

/-- The tick of a feed entry: its token is the hash of the key. -/
def decodeFeed (hash : Str → Nat) (key : Str) (msg : FeedMsg) (recvTsNs : Nat) :
    Option NormalizedTick :=
  (readFeed msg
    { instrumentToken := hash key
      symbol := strncpy key (maxSymbolLen - 1)
      recvTsNs := recvTsNs }).map markStale

/-- A tick that finds the queue full is dropped. -/
def pushTick (handler : UpstoxWsHandler) (tick : NormalizedTick) : UpstoxWsHandler :=
  { handler with
    tickQueue := (handler.tickQueue.push tick).2
    msgCount := handler.msgCount + 1 }

def decodeProtobufFrame (hash : Str → Nat) (parse : List UInt8 → Option (List (Str × FeedMsg)))
    (handler : UpstoxWsHandler) (data : List UInt8) (recvTsNs : Nat) : UpstoxWsHandler :=
  match parse data with
  | none => { handler with decodeErrors := handler.decodeErrors + 1 }
  | some feeds =>
      (feeds.filterMap fun entry => decodeFeed hash entry.1 entry.2 recvTsNs).foldl pushTick
        handler

theorem instrumentToken_markStale (tick : NormalizedTick) :
    (markStale tick).instrumentToken = tick.instrumentToken := by
  unfold markStale
  split <;> rfl

theorem instrumentToken_readFeed {msg : FeedMsg} {tick tick' : NormalizedTick}
    (h : readFeed msg tick = some tick') : tick'.instrumentToken = tick.instrumentToken := by
  unfold readFeed at h
  split at h
  · obtain rfl := Option.some.inj h
    rfl
  · split at h
    · obtain ⟨mff, -, rfl⟩ := Option.map_eq_some_iff.mp h
      rfl
    · obtain ⟨fl, -, rfl⟩ := Option.map_eq_some_iff.mp h
      rfl

theorem instrumentToken_decodeFeed {hash : Str → Nat} {key : Str} {msg : FeedMsg} {recvTsNs : Nat}
    {tick : NormalizedTick} (h : decodeFeed hash key msg recvTsNs = some tick) :
    tick.instrumentToken = hash key := by
  obtain ⟨read, hread, rfl⟩ := Option.map_eq_some_iff.mp h
  rw [instrumentToken_markStale, instrumentToken_readFeed hread]

def DecodedFrom (hash : Str → Nat) (key : Str) (tick : NormalizedTick) : Prop :=
  ∃ msg recvTsNs, decodeFeed hash key msg recvTsNs = some tick

theorem instrumentToken_of_decodedFrom {hash : Str → Nat} {key : Str} {tick : NormalizedTick}
    (h : DecodedFrom hash key tick) : tick.instrumentToken = hash key := by
  obtain ⟨msg, recvTsNs, hdecode⟩ := h
  exact instrumentToken_decodeFeed hdecode

private theorem mem_pushTicks (ticks : List NormalizedTick) (handler : UpstoxWsHandler)
    {tick : NormalizedTick} (h : tick ∈ (ticks.foldl pushTick handler).tickQueue.contents) :
    tick ∈ handler.tickQueue.contents ∨ tick ∈ ticks := by
  induction ticks generalizing handler with
  | nil => exact .inl h
  | cons first rest ih =>
      obtain hqueued | hrest := ih (handler.pushTick first) h
      · by_cases hfull : handler.tickQueue.Full
        · rw [pushTick, SpscQueue.push_of_full hfull] at hqueued
          exact .inl hqueued
        · rw [pushTick, SpscQueue.push_contents hfull] at hqueued
          obtain hold | hnew := List.mem_append.mp hqueued
          · exact .inl hold
          · exact .inr (List.mem_cons.mpr (.inl (List.mem_singleton.mp hnew)))
      · exact .inr (List.mem_cons_of_mem _ hrest)

theorem decodedFrom_of_mem_tickQueue {hash : Str → Nat}
    {parse : List UInt8 → Option (List (Str × FeedMsg))} {handler : UpstoxWsHandler}
    {data : List UInt8} {recvTsNs : Nat} {tick : NormalizedTick}
    (h : tick ∈ (handler.decodeProtobufFrame hash parse data recvTsNs).tickQueue.contents) :
    tick ∈ handler.tickQueue.contents ∨
      ∃ feeds, parse data = some feeds ∧ ∃ entry ∈ feeds, DecodedFrom hash entry.1 tick := by
  unfold decodeProtobufFrame at h
  cases hparse : parse data with
  | none =>
      rw [hparse] at h
      exact .inl h
  | some feeds =>
      rw [hparse] at h
      obtain hold | hnew := mem_pushTicks _ handler h
      · exact .inl hold
      · obtain ⟨entry, hmem, hdecode⟩ := List.mem_filterMap.mp hnew
        exact .inr ⟨feeds, rfl, entry, hmem, entry.2, recvTsNs, hdecode⟩

private theorem lookup_foldl_insert {hash : Str → Nat} {key : Str} (keys : List Str)
    (hinj : ∀ other ∈ keys, hash other = hash key → other = key) (map : Dict Nat Str)
    (h : key ∈ keys ∨ map.lookup (hash key) = some key) :
    AList.lookup (hash key)
      (keys.foldl (fun (map : Dict Nat Str) key => map.insert (hash key) key) map) = some key := by
  induction keys generalizing map with
  | nil => simpa using h
  | cons first rest ih =>
      refine ih (fun other hmem => hinj other (List.mem_cons_of_mem _ hmem)) _ ?_
      by_cases heq : hash first = hash key
      · have hfirst := hinj first List.mem_cons_self heq
        right
        rw [hfirst, AList.lookup_insert]
      · rw [AList.lookup_insert_ne (Ne.symm heq)]
        obtain hmem | hold := h
        · obtain rfl | hrest := List.mem_cons.mp hmem
          · exact absurd rfl heq
          · exact .inl hrest
        · exact .inr hold

/-- The handler keeps a way back from the token to the key, which nothing reads. -/
theorem tokenToKey_subscribe {hash : Str → Nat} {handler : UpstoxWsHandler} {keys : List Str}
    {mode key : Str} (hinj : ∀ other ∈ keys, hash other = hash key → other = key)
    (hmem : key ∈ keys) :
    (handler.subscribe hash keys mode).tokenToKey.lookup (hash key) = some key :=
  lookup_foldl_insert keys hinj handler.tokenToKey (.inl hmem)

end UpstoxWsHandler

end QuantForge
