import Mathlib.Data.Finset.Disjoint
import Mathlib.Data.Finset.SDiff
import QuantForge.Library.Run
import QuantForge.MarketData.UpstoxWsHandler

/-! What the server streams on a connection, against what is subscribed. `subscribe` replaces the
keys that a new connection asks for, the server adds the keys of each request, and `unsubscribe`
sends nothing. -/
namespace QuantForge

open Library

structure SubscriptionRequest where
  guid : Str := "quantforge-sub".toList
  method : Str := "sub".toList
  mode : Str
  instrumentKeys : List Str

/-- The handler with its connection: the requests that are being written, and the keys that the
server streams. `wanted` are the keys subscribed so far and not unsubscribed since. -/
structure MarketFeed where
  handler : UpstoxWsHandler
  connected : Bool := false
  writes : List SubscriptionRequest := []
  streamed : Finset Str := ∅
  wanted : Finset Str := ∅

/-- `connected` is a handshake that succeeds; `written` completes the oldest write. -/
inductive FeedEvent where
  | subscribe (keys : List Str) (mode : Str)
  | unsubscribe (keys : List Str)
  | connected
  | lost
  | written

def FeedEvent.keys : FeedEvent → List Str
  | .subscribe keys _ | .unsubscribe keys => keys
  | .connected | .lost | .written => []

def SubscriptionRequest.serve (streamed : Finset Str) (request : SubscriptionRequest) :
    Finset Str :=
  if request.method = "sub".toList then streamed ∪ request.instrumentKeys.toFinset else streamed

namespace UpstoxWsHandler

variable {hash : Str → Nat}

theorem isSome_tokenToKey_subscribe (handler : UpstoxWsHandler) (keys : List Str) (mode : Str)
    (token : Nat) : ((handler.subscribe hash keys mode).tokenToKey.lookup token).isSome ↔
      (handler.tokenToKey.lookup token).isSome ∨ ∃ key ∈ keys, hash key = token := by
  change (AList.lookup token (keys.foldl _ handler.tokenToKey)).isSome ↔ _
  generalize handler.tokenToKey = map
  induction keys generalizing map with
  | nil => simp
  | cons first rest ih =>
      rw [List.foldl_cons, ih]
      by_cases heq : token = hash first
      · rw [heq, AList.lookup_insert]
        simp
      · rw [AList.lookup_insert_ne heq]
        simp [Ne.symm heq]

theorem mem_subscribedKeys_unsubscribe (handler : UpstoxWsHandler) (keys : List Str) {key : Str} :
    key ∈ (handler.unsubscribe hash keys).subscribedKeys ↔
      key ∈ handler.subscribedKeys ∧ key ∉ keys := by
  induction keys generalizing handler with
  | nil => simp [unsubscribe]
  | cons first rest ih =>
      refine (ih _).trans ?_
      simp only [List.mem_filter, decide_eq_true_eq, List.mem_cons, not_or, and_assoc]

theorem isSome_tokenToKey_unsubscribe (handler : UpstoxWsHandler) (keys : List Str) (token : Nat) :
    ((handler.unsubscribe hash keys).tokenToKey.lookup token).isSome ↔
      (handler.tokenToKey.lookup token).isSome ∧ ∀ key ∈ keys, hash key ≠ token := by
  induction keys generalizing handler with
  | nil => simp [unsubscribe]
  | cons first rest ih =>
      refine (ih _).trans ?_
      dsimp only
      by_cases heq : token = hash first
      · rw [heq, AList.lookup_erase]
        simp
      · rw [AList.lookup_erase_ne heq]
        simp [Ne.symm heq]

end UpstoxWsHandler

namespace MarketFeed

variable (hash : Str → Nat) (feed : MarketFeed)

def doSendSubscription : MarketFeed :=
  { feed with
    writes := feed.writes ++
      [{ mode := feed.handler.subscribeMode, instrumentKeys := feed.handler.subscribedKeys }] }

def subscribe (keys : List Str) (mode : Str) : MarketFeed :=
  let next := { feed with
    handler := feed.handler.subscribe hash keys mode
    wanted := feed.wanted ∪ keys.toFinset }
  if feed.connected then next.doSendSubscription else next

def unsubscribe (keys : List Str) : MarketFeed :=
  { feed with
    handler := feed.handler.unsubscribe hash keys
    wanted := feed.wanted \ keys.toFinset }

/-- The end of `do_ws_handshake`, on a connection that nothing is streamed on. -/
def connect : MarketFeed :=
  let next := { feed with connected := true, writes := [], streamed := ∅ }
  if feed.handler.subscribedKeys ≠ [] then next.doSendSubscription else next

/-- The server forgets the connection, and nothing more is written to it. -/
def lose : MarketFeed := { feed with connected := false, writes := [], streamed := ∅ }

def write : MarketFeed :=
  match feed.writes with
  | [] => feed
  | request :: rest => { feed with streamed := request.serve feed.streamed, writes := rest }

def step (feed : MarketFeed) : FeedEvent → MarketFeed
  | .subscribe keys mode => feed.subscribe hash keys mode
  | .unsubscribe keys => feed.unsubscribe hash keys
  | .connected => feed.connect
  | .lost => feed.lose
  | .written => feed.write

def init (queue : TickQueue) : MarketFeed where
  handler := { tickQueue := queue }

def settle : MarketFeed :=
  Run.run (step hash) feed (List.replicate feed.writes.length .written)

/-- On a connection the server streams the keys that are wanted, and `token_to_key_` has their
tokens. -/
structure Restored : Prop where
  streamed : feed.connected = true → feed.streamed = feed.wanted
  tokens : feed.connected = true → ∀ token,
    (feed.handler.tokenToKey.lookup token).isSome ↔ ∃ key ∈ feed.wanted, hash key = token

/-- Keys that are wanted are not unsubscribed while connected, and a connection finds all of them
in the list of the last `subscribe`. -/
def Restores (feed : MarketFeed) : FeedEvent → Prop
  | .unsubscribe keys => feed.connected = true → ∀ key ∈ keys, key ∉ feed.wanted
  | .connected => ∀ key ∈ feed.wanted, key ∈ feed.handler.subscribedKeys
  | .subscribe _ _ | .lost | .written => True

instance : DecidablePred feed.Restores
  | .unsubscribe keys => inferInstanceAs (Decidable (_ → ∀ key ∈ keys, key ∉ feed.wanted))
  | .connected => inferInstanceAs (Decidable (∀ key ∈ feed.wanted, _))
  | .subscribe _ _ | .lost | .written => inferInstanceAs (Decidable True)

def promised : Finset Str := feed.writes.foldl SubscriptionRequest.serve feed.streamed

structure Listed (keys : Set Str) : Prop where
  known : ∀ key ∈ feed.wanted, key ∈ keys
  subscribed : ∀ key ∈ feed.handler.subscribedKeys, key ∈ feed.wanted
  tokens : ∀ token,
    (feed.handler.tokenToKey.lookup token).isSome ↔ ∃ key ∈ feed.wanted, hash key = token

variable {hash feed} {keys : Set Str}

theorem settle_eq : feed.settle hash = { feed with streamed := feed.promised, writes := [] } := by
  unfold settle promised
  obtain ⟨handler, connected, writes, streamed, wanted⟩ := feed
  induction writes generalizing streamed with
  | nil => rfl
  | cons request rest ih => exact ih (request.serve streamed)

theorem promised_doSendSubscription : feed.doSendSubscription.promised =
    feed.promised ∪ feed.handler.subscribedKeys.toFinset := by
  rw [promised, doSendSubscription, List.foldl_append]
  rfl

theorem restored_settle_iff (h : feed.Listed hash keys) :
    (feed.settle hash).Restored hash ↔ (feed.connected = true → feed.promised = feed.wanted) := by
  rw [settle_eq]
  exact ⟨fun hrestored => hrestored.streamed, fun hstreamed => ⟨hstreamed, fun _ => h.tokens⟩⟩

theorem Listed.subscribe (h : feed.Listed hash keys) {list : List Str}
    (hkeys : ∀ key ∈ list, key ∈ keys) (mode : Str) :
    (feed.subscribe hash list mode).Listed hash keys := by
  have hnext : Listed hash { feed with
      handler := feed.handler.subscribe hash list mode
      wanted := feed.wanted ∪ list.toFinset } keys := by
    constructor
    · intro key hkey
      obtain hold | hnew := Finset.mem_union.mp hkey
      · exact h.known key hold
      · exact hkeys key (List.mem_toFinset.mp hnew)
    · intro key hkey
      exact Finset.mem_union_right _ (List.mem_toFinset.mpr hkey)
    · intro token
      rw [UpstoxWsHandler.isSome_tokenToKey_subscribe, h.tokens]
      simp only [Finset.mem_union, List.mem_toFinset, or_and_right, exists_or]
  unfold MarketFeed.subscribe
  split
  · exact ⟨hnext.known, hnext.subscribed, hnext.tokens⟩
  · exact hnext

theorem Listed.unsubscribe (h : feed.Listed hash keys) (hinj : Set.InjOn hash keys)
    {list : List Str} (hkeys : ∀ key ∈ list, key ∈ keys) :
    (feed.unsubscribe hash list).Listed hash keys := by
  constructor
  · exact fun key hkey => h.known key (Finset.mem_sdiff.mp hkey).1
  · intro key hkey
    obtain ⟨hold, hkept⟩ := (feed.handler.mem_subscribedKeys_unsubscribe list).mp hkey
    exact Finset.mem_sdiff.mpr ⟨h.subscribed key hold, fun hin => hkept (List.mem_toFinset.mp hin)⟩
  · intro token
    change ((feed.handler.unsubscribe hash list).tokenToKey.lookup token).isSome ↔ _
    rw [UpstoxWsHandler.isSome_tokenToKey_unsubscribe, h.tokens]
    constructor
    · rintro ⟨⟨key, hkey, rfl⟩, hkept⟩
      refine ⟨key, Finset.mem_sdiff.mpr ⟨hkey, fun hin => ?_⟩, rfl⟩
      exact hkept key (List.mem_toFinset.mp hin) rfl
    · rintro ⟨key, hkey, rfl⟩
      obtain ⟨hold, hkept⟩ := Finset.mem_sdiff.mp hkey
      refine ⟨⟨key, hold, rfl⟩, fun other hother heq => hkept (List.mem_toFinset.mpr ?_)⟩
      rwa [← hinj (hkeys other hother) (h.known key hold) heq]

theorem Listed.step (h : feed.Listed hash keys) (hinj : Set.InjOn hash keys) {event : FeedEvent}
    (hkeys : ∀ key ∈ event.keys, key ∈ keys) : (feed.step hash event).Listed hash keys := by
  cases event with
  | subscribe list mode => exact h.subscribe hkeys mode
  | unsubscribe list => exact h.unsubscribe hinj hkeys
  | connected =>
      change (feed.connect).Listed hash keys
      unfold connect
      split <;> exact ⟨h.known, h.subscribed, h.tokens⟩
  | lost => exact ⟨h.known, h.subscribed, h.tokens⟩
  | written =>
      change (feed.write).Listed hash keys
      unfold write
      split
      · exact h
      · exact ⟨h.known, h.subscribed, h.tokens⟩

@[simp] theorem subscribe_connected (hash : Str → Nat) (feed : MarketFeed) (list : List Str)
    (mode : Str) : (feed.subscribe hash list mode).connected = feed.connected := by
  unfold subscribe
  split <;> rfl

@[simp] theorem subscribe_wanted (list : List Str) (mode : Str) :
    (feed.subscribe hash list mode).wanted = feed.wanted ∪ list.toFinset := by
  unfold subscribe
  split <;> rfl

@[simp] theorem connect_connected (feed : MarketFeed) : feed.connect.connected = true := by
  unfold connect
  split <;> rfl

@[simp] theorem connect_wanted : feed.connect.wanted = feed.wanted := by
  unfold connect
  split <;> rfl

theorem promised_subscribe (list : List Str) (mode : Str) (hconnected : feed.connected = true) :
    (feed.subscribe hash list mode).promised = feed.promised ∪ list.toFinset := by
  rw [subscribe, if_pos hconnected, promised_doSendSubscription]
  rfl

theorem promised_write : feed.write.promised = feed.promised := by
  unfold write
  split
  · rfl
  · rename_i request rest hwrites
    rw [promised, promised, hwrites]
    rfl

theorem promised_connect : feed.connect.promised = feed.handler.subscribedKeys.toFinset := by
  unfold connect
  split
  · rw [promised_doSendSubscription]
    exact bot_sup_eq _
  · rename_i hempty
    rw [not_not.mp hempty]
    rfl

/-- One event keeps the promise exactly when it is one that restores. -/
theorem promised_step_iff (h : feed.Listed hash keys)
    (hpromised : feed.connected = true → feed.promised = feed.wanted) (event : FeedEvent) :
    ((feed.step hash event).connected = true →
      (feed.step hash event).promised = (feed.step hash event).wanted) ↔
        feed.Restores event := by
  cases event with
  | subscribe list mode =>
      refine iff_of_true (fun hafter => ?_) trivial
      have hconnected : feed.connected = true :=
        (subscribe_connected hash feed list mode).symm.trans hafter
      change (feed.subscribe hash list mode).promised = (feed.subscribe hash list mode).wanted
      rw [promised_subscribe list mode hconnected, subscribe_wanted, hpromised hconnected]
  | unsubscribe list =>
      refine forall_congr' fun hconnected => ?_
      change feed.promised = feed.wanted \ list.toFinset ↔ _
      rw [hpromised hconnected, eq_comm, Finset.sdiff_eq_self_iff_disjoint,
        Finset.disjoint_right]
      simp only [List.mem_toFinset]
  | connected =>
      change (feed.connect.connected = true → feed.connect.promised = feed.connect.wanted) ↔ _
      rw [promised_connect, connect_wanted]
      have hconnected := feed.connect_connected
      constructor
      · intro hall key hkey
        rw [← hall hconnected, List.mem_toFinset] at hkey
        exact hkey
      · intro hall _
        refine Finset.Subset.antisymm (fun key hkey => ?_) fun key hkey => ?_
        · exact h.subscribed key (List.mem_toFinset.mp hkey)
        · exact List.mem_toFinset.mpr (hall key hkey)
  | lost => exact iff_of_true nofun trivial
  | written =>
      refine iff_of_true ?_ trivial
      change feed.write.connected = true → feed.write.promised = feed.write.wanted
      rw [promised_write]
      unfold write
      split <;> exact hpromised

/-- Over every run of subscriptions, removals, losses and connections, whenever the handler is
connected and its writes are through, the server streams what is wanted exactly when nothing
wanted is unsubscribed while connected and every connection finds all that is wanted in the list
of the last `subscribe`. -/
theorem restored_iff_restores (hinj : Set.InjOn hash keys) (queue : TickQueue)
    {events : List FeedEvent} (hkeys : ∀ event ∈ events, ∀ key ∈ event.keys, key ∈ keys) :
    (∀ k, ((Run.run (step hash) (init queue) (events.take k)).settle hash).Restored hash) ↔
      Run.Along (step hash) Restores (init queue) events := by
  have hinit : (init queue).Listed hash keys := by
    refine ⟨fun key => nofun, fun key => nofun, fun token => ?_⟩
    simp [init]
  have hlisted : ∀ k, (Run.run (step hash) (init queue) (events.take k)).Listed hash keys := by
    intro k
    refine Run.run_of_forall (fun feed => Listed hash feed keys) ?_ hinit
      fun event hevent => hkeys event (List.mem_of_mem_take hevent)
    exact fun _ _ h hevent => h.step hinj hevent
  have hok : Run.Along (step hash) (fun _ event => ∀ key ∈ event.keys, key ∈ keys) (init queue)
      events := Run.along_of_forall _ _ (fun _ _ h => h) _ hkeys
  have halways : (∀ k,
      ((Run.run (step hash) (init queue) (events.take k)).settle hash).Restored hash) ↔
        Run.Always (step hash) (fun feed => feed.connected = true → feed.promised = feed.wanted)
          (init queue) events := by
    rw [Run.always_iff_take]
    exact forall_congr' fun k => restored_settle_iff (hlisted k)
  rw [halways]
  refine Run.always_iff_along (fun feed => Listed hash feed keys)
    (fun _ event => ∀ key ∈ event.keys, key ∈ keys) ?_ ?_ hok hinit nofun
  · exact fun _ _ h hevent _ => h.step hinj hevent
  · exact fun _ event h hpromised _ => promised_step_iff h hpromised event

section Losses

def noTicks : TickQueue := SpscQueue.init _ { instrumentToken := 0 }

theorem restored_after_loss :
    let events : List FeedEvent := [.subscribe [['A'], ['B', 'B']] "full".toList, .connected,
      .written, .lost, .connected, .written]
    ((Run.run (step List.length) (init noTicks) (events.take 6)).settle
      List.length).Restored List.length := by
  intro events
  have hinj : Set.InjOn List.length {key : Str | key ∈ [['A'], ['B', 'B']]} := by
    intro left hleft right hright heq
    simp only [Set.mem_ofPred_eq, List.mem_cons, List.not_mem_nil, or_false] at hleft hright
    obtain rfl | rfl := hleft <;> obtain rfl | rfl := hright <;> simp_all
  refine (restored_iff_restores hinj noTicks ?_).mpr ?_ 6
  · simp [events, FeedEvent.keys]
  · decide +kernel

/-- Two lists are streamed, the connection is lost, and only the second one comes back; and a key
that is unsubscribed is still streamed. -/
theorem reconnect_drops_first_list :
    let full := "full".toList
    let reconnected := Run.run (step List.length) (init noTicks)
      [.subscribe [['A']] full, .connected, .written, .subscribe [['B', 'B']] full, .written,
        .lost, .connected, .written]
    let unsubscribed := Run.run (step List.length) (init noTicks)
      [.subscribe [['A']] full, .connected, .written, .unsubscribe [['A']]]
    ((reconnected.connected = true ∧ reconnected.writes.length = 0) ∧
        reconnected.streamed = {['B', 'B']} ∧ reconnected.wanted = {['A'], ['B', 'B']}) ∧
      (unsubscribed.connected = true ∧ unsubscribed.writes.length = 0) ∧
        unsubscribed.streamed = {['A']} ∧ unsubscribed.wanted = ∅ := by
  decide +kernel

end Losses

end MarketFeed

end QuantForge
