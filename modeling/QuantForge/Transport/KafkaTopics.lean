import QuantForge.Library.Wire
import QuantForge.Transport.KafkaPublisher
import QuantForge.Transport.PortfolioMessage

/-! The publish methods of `transport/kafka_publisher.cpp` and the binary records of ticks and
fills, with the bytes of a little-endian machine. Each topic is read as what was published on it,
whatever the partitions. -/
namespace QuantForge

open Library

/-- The fields of a tick that are sent, as the machine holds them; a `double` by its bits. -/
structure PublishedTick where
  instrumentToken : UInt64
  ltp : UInt64
  volume : UInt64
  recvTsNs : UInt64
  deriving DecidableEq

/-- The fields of a fill that are sent; the arrays with all their NULs. -/
structure PublishedFill where
  orderId : Vector UInt8 maxOrderIdLen
  strategyId : Vector UInt8 maxStrategyLen
  instrumentToken : UInt64
  price : UInt64
  quantity : Int32
  side : Side
  deriving DecidableEq

def charArray (n : Nat) (text : Str) : Vector UInt8 n :=
  .ofFn fun i => UInt8.ofNat (text.getD i (Char.ofNat 0)).toNat

/-- `bits` are those of the `double` that a number is. -/
def NormalizedTick.sent (bits : ℚ → UInt64) (t : NormalizedTick) : PublishedTick where
  instrumentToken := .ofNat t.instrumentToken
  ltp := bits t.ltp
  volume := .ofNat t.volume
  recvTsNs := .ofNat t.recvTsNs

def Fill.sent (bits : ℚ → UInt64) (f : Fill) : PublishedFill where
  orderId := charArray maxOrderIdLen f.orderId
  strategyId := charArray maxStrategyLen f.strategyId
  instrumentToken := .ofNat f.instrumentToken
  price := bits f.price
  quantity := .ofInt f.quantity
  side := f.side

def Side.toByte : Side → UInt8
  | .buy => 1
  | .sell => 2

def Side.ofByte (byte : UInt8) : Option Side :=
  if byte = 1 then some .buy else if byte = 2 then some .sell else none

/-- The bytes that `memcpy` reads from a word of eight bytes, and of four. -/
def bytesOf64 (word : UInt64) : List UInt8 := littleEndian 8 word.toNat

def bytesOf32 (word : UInt32) : List UInt8 := littleEndian 4 word.toNat

namespace KafkaPublisher

def serializeTick (bits : ℚ → UInt64) (t : NormalizedTick) : List UInt8 :=
  let buf := zeros 32
  let buf := store buf 0 (bytesOf64 (.ofNat t.instrumentToken))
  let buf := store buf 8 (bytesOf64 (bits t.ltp))
  let buf := store buf 16 (bytesOf64 (.ofNat t.volume))
  store buf 24 (bytesOf64 (.ofNat t.recvTsNs))

def serializeFill (bits : ℚ → UInt64) (f : Fill) : List UInt8 :=
  let buf := zeros (32 + maxOrderIdLen + maxStrategyLen)
  let off := 0
  let buf := store buf off (charArray maxOrderIdLen f.orderId).toList
  let off := off + maxOrderIdLen
  let buf := store buf off (charArray maxStrategyLen f.strategyId).toList
  let off := off + maxStrategyLen
  let buf := store buf off (bytesOf64 (.ofNat f.instrumentToken))
  let off := off + 8
  let buf := store buf off (bytesOf64 (bits f.price))
  let off := off + 8
  let buf := store buf off (bytesOf32 (Int32.ofInt f.quantity).toUInt32)
  let off := off + 4
  store buf off [f.side.toByte]

end KafkaPublisher

section Codecs

def wordEquiv64 : UInt64 ≃ Fin (256 ^ 8) where
  toFun := UInt64.toFin
  invFun := UInt64.ofFin
  left_inv _ := rfl
  right_inv _ := rfl

def wordEquiv32 : Int32 ≃ Fin (256 ^ 4) where
  toFun word := word.toUInt32.toFin
  invFun n := ⟨UInt32.ofFin n⟩
  left_inv _ := rfl
  right_inv _ := rfl

def word64 : WireCodec UInt64 := (WireCodec.word 8).ofEquiv wordEquiv64

def word32 : WireCodec Int32 := (WireCodec.word 4).ofEquiv wordEquiv32

def sideByte : WireCodec Side := .byteOf Side.toByte Side.ofByte
  (fun side => by cases side <;> rfl) (by
    intro byte side h
    unfold Side.ofByte at h
    split at h
    · rename_i heq
      cases h
      exact heq.symm
    · split at h
      · rename_i heq
        cases h
        exact heq.symm
      · cases h)

def tickCodec : WireCodec PublishedTick :=
  (word64.prod (word64.prod (word64.prod word64))).ofEquiv
    { toFun := fun t => (t.instrumentToken, t.ltp, t.volume, t.recvTsNs)
      invFun := fun p => ⟨p.1, p.2.1, p.2.2.1, p.2.2.2⟩
      left_inv := fun _ => rfl
      right_inv := fun _ => rfl }

def fillCodec : WireCodec PublishedFill :=
  ((WireCodec.array maxOrderIdLen).prod ((WireCodec.array maxStrategyLen).prod
    (word64.prod (word64.prod (word32.prod (sideByte.prod (.padding 11))))))).ofEquiv
    { toFun := fun f =>
        (f.orderId, f.strategyId, f.instrumentToken, f.price, f.quantity, f.side, ())
      invFun := fun p => ⟨p.1, p.2.1, p.2.2.1, p.2.2.2.1, p.2.2.2.2.1, p.2.2.2.2.2.1⟩
      left_inv := fun _ => rfl
      right_inv := fun _ => rfl }

theorem length_bytesOf64 (word : UInt64) : (bytesOf64 word).length = 8 :=
  length_littleEndian word.toNat_lt

theorem length_bytesOf32 (word : UInt32) : (bytesOf32 word).length = 4 :=
  length_littleEndian word.toNat_lt

private theorem encode_tick (t : PublishedTick) :
    store (store (store (store (zeros 32) 0 (bytesOf64 t.instrumentToken)) 8 (bytesOf64 t.ltp)) 16
      (bytesOf64 t.volume)) 24 (bytesOf64 t.recvTsNs) = tickCodec.encode t := by
  have htoken := length_bytesOf64 t.instrumentToken
  have hltp := length_bytesOf64 t.ltp
  have hvolume := length_bytesOf64 t.volume
  have hts := length_bytesOf64 t.recvTsNs
  have hencode : tickCodec.encode t = bytesOf64 t.instrumentToken ++ (bytesOf64 t.ltp ++
      (bytesOf64 t.volume ++ bytesOf64 t.recvTsNs)) := rfl
  rw [store_zeros, store_fresh _ _ (by simp [htoken]), store_fresh _ _ (by simp [htoken, hltp]),
    store_fresh _ _ (by simp [htoken, hltp, hvolume]), htoken, hltp, hvolume, hts, hencode]
  simp [zeros]

private theorem encode_fill (f : PublishedFill) :
    store (store (store (store (store (store (zeros 100) 0 f.orderId.toList) 36
      f.strategyId.toList) 68 (bytesOf64 f.instrumentToken)) 76 (bytesOf64 f.price)) 84
        (bytesOf32 f.quantity.toUInt32)) 88 [f.side.toByte] = fillCodec.encode f := by
  have horder : f.orderId.toList.length = 36 := Vector.length_toList
  have hstrategy : f.strategyId.toList.length = 32 := Vector.length_toList
  have htoken := length_bytesOf64 f.instrumentToken
  have hprice := length_bytesOf64 f.price
  have hquantity := length_bytesOf32 f.quantity.toUInt32
  have hencode : fillCodec.encode f = f.orderId.toList ++ (f.strategyId.toList ++
      (bytesOf64 f.instrumentToken ++ (bytesOf64 f.price ++
        (bytesOf32 f.quantity.toUInt32 ++ ([f.side.toByte] ++ zeros 11))))) := rfl
  rw [hencode]
  generalize f.orderId.toList = orderId at *
  generalize f.strategyId.toList = strategyId at *
  rw [store_zeros, store_fresh _ _ (by simp [horder]),
    store_fresh _ _ (by simp [horder, hstrategy]),
    store_fresh _ _ (by simp [horder, hstrategy, htoken]),
    store_fresh _ _ (by simp [horder, hstrategy, htoken, hprice]),
    store_fresh _ _ (by simp [horder, hstrategy, htoken, hprice, hquantity]),
    horder, hstrategy, htoken, hprice, hquantity]
  simp

theorem serializeTick_eq (bits : ℚ → UInt64) (t : NormalizedTick) :
    KafkaPublisher.serializeTick bits t = tickCodec.encode (t.sent bits) :=
  encode_tick (t.sent bits)

theorem serializeFill_eq (bits : ℚ → UInt64) (f : Fill) :
    KafkaPublisher.serializeFill bits f = fillCodec.encode (f.sent bits) :=
  encode_fill (f.sent bits)

theorem decode_serializeTick (bits : ℚ → UInt64) (t : NormalizedTick) :
    tickCodec.decode (KafkaPublisher.serializeTick bits t) = some (t.sent bits) := by
  rw [serializeTick_eq, tickCodec.decode_encode]

theorem decode_serializeFill (bits : ℚ → UInt64) (f : Fill) :
    fillCodec.decode (KafkaPublisher.serializeFill bits f) = some (f.sent bits) := by
  rw [serializeFill_eq, fillCodec.decode_encode]

end Codecs

inductive KafkaTopic where
  | ticks
  | fills
  | portfolio
  | alerts
  deriving DecidableEq

inductive KafkaPayload where
  | bytes (bytes : List UInt8)
  | text (text : Str)
  deriving DecidableEq

def KafkaPayload.asBytes : KafkaPayload → Option (List UInt8)
  | bytes payload => some payload
  | text _ => none

def KafkaPayload.asText : KafkaPayload → Option Str
  | bytes _ => none
  | text payload => some payload

/-- `key` is empty when none is given. -/
structure KafkaMessage where
  topic : KafkaTopic
  key : List UInt8 := []
  payload : KafkaPayload

/-- `topic` says which handles were made, and `produced` what the producer was given. -/
structure KafkaPublisher where
  healthy : Bool := false
  topic : KafkaTopic → Bool
  published : Nat := 0
  produced : List KafkaMessage := []

inductive PublishCall where
  | tick (t : NormalizedTick)
  | fill (f : Fill)
  | portfolio (s : PortfolioSnapshot)
  | alert (a : RiskAlert)

namespace PublishCall

def asTick : PublishCall → Option NormalizedTick
  | .tick t => some t
  | _ => none

def asFill : PublishCall → Option Fill
  | .fill f => some f
  | _ => none

def asPortfolio : PublishCall → Option PortfolioSnapshot
  | .portfolio s => some s
  | _ => none

def asAlert : PublishCall → Option RiskAlert
  | .alert a => some a
  | _ => none

end PublishCall

namespace KafkaPublisher

def create (producer : Bool) (made : KafkaTopic → Bool) : KafkaPublisher where
  healthy := producer
  topic t := producer && made t

/-- The lower half of the token. -/
def tickKey (t : NormalizedTick) : List UInt8 :=
  bytesOf32 (UInt64.ofNat t.instrumentToken).toUInt32

/-- The strategy up to its first NUL. -/
def fillKey (f : Fill) : List UInt8 :=
  (charArray maxStrategyLen f.strategyId).toList.takeWhile (· ≠ 0)

variable (bits : ℚ → UInt64)

def publishTick (k : KafkaPublisher) (t : NormalizedTick) : KafkaPublisher :=
  if !k.healthy || !k.topic .ticks then k
  else { k with
    produced := k.produced ++ [⟨.ticks, tickKey t, .bytes (serializeTick bits t)⟩]
    published := k.published + 1 }

def publishFill (k : KafkaPublisher) (f : Fill) : KafkaPublisher :=
  if !k.healthy || !k.topic .fills then k
  else { k with
    produced := k.produced ++ [⟨.fills, fillKey f, .bytes (serializeFill bits f)⟩]
    published := k.published + 1 }

def publishPortfolio (k : KafkaPublisher) (s : PortfolioSnapshot) : KafkaPublisher :=
  if !k.healthy || !k.topic .portfolio then k
  else { k with
    produced := k.produced ++ [⟨.portfolio, [], .text (serializePortfolio s)⟩]
    published := k.published + 1 }

/-- An alert is not counted. -/
def publishAlert (k : KafkaPublisher) (a : RiskAlert) : KafkaPublisher :=
  if !k.healthy || !k.topic .alerts then k
  else { k with produced := k.produced ++ [⟨.alerts, [], .text (serializeAlert a)⟩] }

def publish (k : KafkaPublisher) : PublishCall → KafkaPublisher
  | .tick t => k.publishTick bits t
  | .fill f => k.publishFill bits f
  | .portfolio s => k.publishPortfolio s
  | .alert a => k.publishAlert a

def message : PublishCall → KafkaMessage
  | .tick t => ⟨.ticks, tickKey t, .bytes (serializeTick bits t)⟩
  | .fill f => ⟨.fills, fillKey f, .bytes (serializeFill bits f)⟩
  | .portfolio s => ⟨.portfolio, [], .text (serializePortfolio s)⟩
  | .alert a => ⟨.alerts, [], .text (serializeAlert a)⟩

def sends (k : KafkaPublisher) (topic : KafkaTopic) : Bool := k.healthy && k.topic topic

def on (k : KafkaPublisher) (topic : KafkaTopic) : List KafkaMessage :=
  k.produced.filter (·.topic = topic)

variable {bits}

theorem publish_eq (k : KafkaPublisher) (call : PublishCall) :
    k.publish bits call = if k.sends (message bits call).topic then
      { k with
        produced := k.produced ++ [message bits call]
        published := k.published + if call.asAlert.isSome then 0 else 1 } else k := by
  have hsends : ∀ topic, (!k.healthy || !k.topic topic) = !k.sends topic := fun topic =>
    (Bool.not_and _ _).symm
  cases call with
  | tick t =>
      rw [publish, publishTick, hsends]
      cases hup : k.sends .ticks <;> simp [message, hup, PublishCall.asAlert]
  | fill f =>
      rw [publish, publishFill, hsends]
      cases hup : k.sends .fills <;> simp [message, hup, PublishCall.asAlert]
  | portfolio s =>
      rw [publish, publishPortfolio, hsends]
      cases hup : k.sends .portfolio <;> simp [message, hup, PublishCall.asAlert]
  | alert a =>
      rw [publish, publishAlert, hsends]
      cases hup : k.sends .alerts <;> simp [message, hup, PublishCall.asAlert]

theorem sends_publish (k : KafkaPublisher) (call : PublishCall) :
    (k.publish bits call).sends = k.sends := by
  rw [publish_eq]
  split <;> rfl

theorem run_publish (k : KafkaPublisher) (calls : List PublishCall) :
    (Run.run (publish bits) k calls).produced =
        k.produced ++ (calls.map (message bits)).filter (fun m => k.sends m.topic) ∧
      (Run.run (publish bits) k calls).published = k.published +
        calls.countP fun call => k.sends (message bits call).topic && call.asAlert.isNone := by
  induction calls generalizing k with
  | nil => exact ⟨(List.append_nil _).symm, rfl⟩
  | cons call calls ih =>
      obtain ⟨hproduced, hpublished⟩ := ih (k.publish bits call)
      rw [sends_publish] at hproduced hpublished
      rw [Run.run_cons, hproduced, hpublished, publish_eq, List.map_cons, List.filter_cons,
        List.countP_cons]
      cases hup : k.sends (message bits call).topic with
      | false => simp
      | true =>
          refine ⟨by simp, ?_⟩
          cases call.asAlert with
          | none =>
              simp
              omega
          | some a => simp

theorem on_run (producer : Bool) (made : KafkaTopic → Bool) (calls : List PublishCall)
    (topic : KafkaTopic) :
    (Run.run (publish bits) (create producer made) calls).on topic =
      if producer && made topic then
        (calls.map (message bits)).filter (·.topic = topic) else [] := by
  have hsends : ∀ topic, (create producer made).sends topic = (producer && made topic) := by
    intro topic
    cases producer <;> rfl
  have hnew : (create producer made).produced = [] := rfl
  rw [on, (run_publish _ calls).1, hnew, List.nil_append, List.filter_filter]
  split
  · rename_i hup
    refine List.filter_congr fun m _ => ?_
    by_cases htopic : m.topic = topic
    · rw [htopic, hsends, hup, Bool.and_true]
    · rw [decide_eq_false htopic, Bool.false_and]
  · rename_i hdown
    refine List.filter_eq_nil_iff.mpr fun m _ hm => hdown ?_
    rw [Bool.and_eq_true, decide_eq_true_eq] at hm
    rw [← hsends, ← hm.1]
    exact hm.2

def HandsOver {A : Type} (bits : ℚ → UInt64) (topic : KafkaTopic) (pick : PublishCall → Option A)
    (write : A → KafkaMessage) : Prop :=
  ∀ call, ((message bits call).topic = topic ∧
      (pick call).map write = some (message bits call)) ∨
    (message bits call).topic ≠ topic ∧ pick call = none

theorem filter_message {A : Type} {pick : PublishCall → Option A} {write : A → KafkaMessage}
    {topic : KafkaTopic}
    (hpick : HandsOver bits topic pick write) (calls : List PublishCall) :
    (calls.map (message bits)).filter (·.topic = topic) = (calls.filterMap pick).map write := by
  induction calls with
  | nil => rfl
  | cons call calls ih =>
      rw [List.map_cons, List.filter_cons, List.filterMap_cons, ih]
      obtain ⟨htopic, hsome⟩ | ⟨htopic, hnone⟩ := hpick call
      · obtain ⟨a, ha, hwrite⟩ := Option.map_eq_some_iff.mp hsome
        rw [if_pos (by simpa using htopic), ha, ← hwrite]
        rfl
      · rw [if_neg (by simpa using htopic), hnone]

theorem on_run_eq {A : Type} {pick : PublishCall → Option A} {write : A → KafkaMessage}
    {topic : KafkaTopic}
    (hpick : HandsOver bits topic pick write) {producer : Bool}
    {made : KafkaTopic → Bool} (hup : (producer && made topic) = true) (calls : List PublishCall) :
    (Run.run (publish bits) (create producer made) calls).on topic =
      (calls.filterMap pick).map write := by
  rw [on_run, if_pos hup, filter_message hpick]

theorem on_run_down {topic : KafkaTopic} {producer : Bool} {made : KafkaTopic → Bool}
    (hdown : (producer && made topic) = false) (calls : List PublishCall) :
    (Run.run (publish bits) (create producer made) calls).on topic = [] := by
  rw [on_run, hdown, if_neg Bool.false_ne_true]

variable {producer : Bool} {made : KafkaTopic → Bool}

theorem portfolio_run (hup : (producer && made .portfolio) = true) (calls : List PublishCall) :
    (Run.run (publish bits) (create producer made) calls).on .portfolio =
      (calls.filterMap PublishCall.asPortfolio).map fun s =>
        ⟨.portfolio, [], .text (serializePortfolio s)⟩ :=
  on_run_eq (fun call => by cases call <;> simp [message, PublishCall.asPortfolio]) hup calls

theorem alerts_run (hup : (producer && made .alerts) = true) (calls : List PublishCall) :
    (Run.run (publish bits) (create producer made) calls).on .alerts =
      (calls.filterMap PublishCall.asAlert).map fun a =>
        ⟨.alerts, [], .text (serializeAlert a)⟩ :=
  on_run_eq (fun call => by cases call <;> simp [message, PublishCall.asAlert]) hup calls

def inPartition (k : KafkaPublisher) (topic : KafkaTopic) (partition : List UInt8 → Nat) (p : Nat) :
    List KafkaMessage :=
  (k.on topic).filter fun m => partition m.key = p

theorem inPartition_run {A B : Type} {pick : PublishCall → Option A}
    {key serialize : A → List UInt8} {decode : List UInt8 → Option B} {sent : A → B}
    {topic : KafkaTopic}
    (hpick : HandsOver bits topic pick fun a => ⟨topic, key a, .bytes (serialize a)⟩)
    (hdecode : ∀ a, decode (serialize a) = some (sent a)) (calls : List PublishCall)
    (partition : List UInt8 → Nat) (p : Nat) :
    ((Run.run (publish bits) (create producer made) calls).inPartition topic partition p).map
        (fun m => m.payload.asBytes.bind decode) =
      bif producer && made topic then
        ((calls.filterMap pick).filter fun a => partition (key a) = p).map fun a => some (sent a)
      else [] := by
  cases hup : producer && made topic with
  | false =>
      rw [inPartition, on_run_down hup]
      rfl
  | true =>
      rw [inPartition, on_run_eq hpick hup, List.filter_map, List.map_map, cond_true]
      exact List.map_congr_left fun a _ => hdecode a

/-- Each partition of a topic that is up decodes to the fields that are sent of what was published
with its keys, in the order of the calls, whatever the partitioner makes of the keys; a text arrives
as it was written, the counter leaves out the alerts, and no other bytes decode to the fields that
are sent of a tick or fill. -/
theorem topics_read (bits : ℚ → UInt64) (producer : Bool) (made : KafkaTopic → Bool)
    (calls : List PublishCall) (partition : List UInt8 → Nat) (p : Nat) :
    let k := Run.run (publish bits) (create producer made) calls
    let up := fun topic => producer && made topic
    (k.inPartition .ticks partition p).map (fun m => m.payload.asBytes.bind tickCodec.decode) =
        (bif up .ticks then
          ((calls.filterMap PublishCall.asTick).filter fun t => partition (tickKey t) = p).map
            fun t => some (t.sent bits)
        else []) ∧
      (k.inPartition .fills partition p).map (fun m => m.payload.asBytes.bind fillCodec.decode) =
        (bif up .fills then
          ((calls.filterMap PublishCall.asFill).filter fun f => partition (fillKey f) = p).map
            fun f => some (f.sent bits)
        else []) ∧
      (k.on .portfolio).map (fun m => m.payload.asText) =
        (bif up .portfolio then
          (calls.filterMap PublishCall.asPortfolio).map fun s => some (serializePortfolio s)
        else []) ∧
      (k.on .alerts).map (fun m => m.payload.asText) =
        (bif up .alerts then
          (calls.filterMap PublishCall.asAlert).map fun a => some (serializeAlert a)
        else []) ∧
      k.published = calls.countP (fun call => up (message bits call).topic && call.asAlert.isNone) ∧
      (∀ bytes t, tickCodec.decode bytes = some (t.sent bits) → serializeTick bits t = bytes) ∧
      ∀ bytes f, fillCodec.decode bytes = some (f.sent bits) → serializeFill bits f = bytes := by
  intro k up
  refine ⟨?_, ?_, ?_, ?_, ?_, fun bytes t h => ?_, fun bytes f h => ?_⟩
  · exact inPartition_run (fun call => by cases call <;> simp [message, PublishCall.asTick])
      (decode_serializeTick bits) calls partition p
  · exact inPartition_run (fun call => by cases call <;> simp [message, PublishCall.asFill])
      (decode_serializeFill bits) calls partition p
  · cases hup : up .portfolio with
    | false => rw [on_run_down hup]; rfl
    | true => rw [portfolio_run hup, List.map_map]; rfl
  · cases hup : up .alerts with
    | false => rw [on_run_down hup]; rfl
    | true => rw [alerts_run hup, List.map_map]; rfl
  · have hsends : ∀ topic, (create producer made).sends topic = up topic := by
      intro topic
      cases producer <;> rfl
    obtain ⟨-, hcounted⟩ := @run_publish bits (create producer made) calls
    simp only [hsends] at hcounted
    exact hcounted.trans (Nat.zero_add _)
  · rw [serializeTick_eq]
    exact tickCodec.encode_decode bytes _ h
  · rw [serializeFill_eq]
    exact fillCodec.encode_decode bytes _ h

end KafkaPublisher

end QuantForge
