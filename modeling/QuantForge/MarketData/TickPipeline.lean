import QuantForge.Common.TickDisruptor
import QuantForge.MarketData.CandleStream
import QuantForge.MarketData.TickNormalizer
import QuantForge.MarketData.UpstoxWsHandler

/-! The way of a tick: the handler decodes frames and queues their ticks, the loop of
`market_data/tick_normalizer.cpp` takes them out, checks them and hands them to the ring, to the
candle builder and to `kafka_fn_`, and the strategies consume the ring. Each call that one of
these threads makes is one step. -/
namespace QuantForge

open Library

namespace TickNormalizer

/-- What `validate` finds, with the counter that it then raises. -/
inductive Verdict where
  | accepted
  | stale
  | insane
  deriving DecidableEq

def verdict (t : NormalizedTick) : Verdict :=
  if t.isStale then .stale
  else if t.ltp ≤ 0 then .insane
  else if t.opened > 0 then
    let deviation := |t.ltp - t.opened| / t.opened
    if deviation > maxPriceMovePct then if deviation > 1 / 2 then .insane else .accepted
    else .accepted
  else .accepted

theorem validate_eq (t : NormalizedTick) : validate t = decide (verdict t = .accepted) := by
  simp only [validate, verdict]
  split_ifs <;> simp_all

/-- Where the thread is: before the test of the loop, before the pop, or with a tick that the
named call is made for next. -/
inductive Phase where
  | stopped
  | test
  | pop
  | validate (t : NormalizedTick)
  | push (t : NormalizedTick)
  | candles (t : NormalizedTick)
  | publish (t : NormalizedTick)
  | count (t : NormalizedTick)
  deriving DecidableEq

inductive Stage where
  | ring
  | candles
  | kafka
  | counted
  deriving DecidableEq

def Phase.pending : Phase → Stage → List NormalizedTick
  | .validate t, _ => [t].filter TickNormalizer.validate
  | .push t, _ => [t]
  | .candles _, .ring => []
  | .candles t, _ => [t]
  | .publish t, .kafka => [t]
  | .publish t, .counted => [t]
  | .count t, .counted => [t]
  | _, _ => []

def Phase.unchecked : Phase → List NormalizedTick
  | .validate t => [t]
  | _ => []

end TickNormalizer

open TickNormalizer

/-- `accepted`, `dropped`, `popped` and `bucketed` record the ticks that were queued, the number
of those that found the queue full, the ticks taken out and the ticks that the candle builder
was given. -/
structure TickPipeline (Consumer : Type*) where
  handler : UpstoxWsHandler
  fan : FanOut Consumer NormalizedTick
  arriving : List NormalizedTick := []
  phase : Phase := .stopped
  stop : Bool := false
  builder : CandleBuilder := {}
  candles : List Candle := []
  published : List NormalizedTick := []
  ticksProcessed : Nat := 0
  staleDropped : Nat := 0
  sanityRejected : Nat := 0
  accepted : List NormalizedTick := []
  dropped : Nat := 0
  popped : List NormalizedTick := []
  bucketed : List NormalizedTick := []

inductive PipelineEvent (Consumer : Type*) where
  | frame (data : List UInt8) (recvTsNs : Nat)
  | offer
  | normalize
  | consume (consumer : Consumer)
  | start
  | stop

namespace TickPipeline

variable {Consumer : Type*}

def init (Consumer : Type*) (blank : NormalizedTick) : TickPipeline Consumer where
  handler := { tickQueue := SpscQueue.init tickQueueCapacity blank }
  fan := FanOut.init Consumer blank

/-- The parser of `decode_protobuf_frame`; the next frame is read when the ticks of the last one
have been offered. -/
def frame (hash : Str → Nat) (parse : List UInt8 → Option (List (Str × FeedMsg)))
    (s : TickPipeline Consumer) (data : List UInt8) (recvTsNs : Nat) : TickPipeline Consumer :=
  match s.arriving, parse data with
  | [], none =>
      { s with handler := { s.handler with decodeErrors := s.handler.decodeErrors + 1 } }
  | [], some feeds =>
      { s with arriving := feeds.filterMap fun entry =>
          UpstoxWsHandler.decodeFeed hash entry.1 entry.2 recvTsNs }
  | _ :: _, _ => s

def offer (s : TickPipeline Consumer) : TickPipeline Consumer :=
  match s.arriving with
  | [] => s
  | t :: rest =>
      let full := s.handler.tickQueue.Full
      { s with
        handler := s.handler.pushTick t
        arriving := rest
        accepted := if full then s.accepted else s.accepted ++ [t]
        dropped := if full then s.dropped + 1 else s.dropped }

def normalize [DecidableEq Consumer] (s : TickPipeline Consumer) : TickPipeline Consumer :=
  match s.phase with
  | .stopped => s
  | .test => { s with phase := if s.stop then .stopped else .pop }
  | .pop =>
      match s.handler.tickQueue.tryPop with
      | (none, _) => { s with phase := .test }
      | (some t, queue) =>
          { s with
            handler := { s.handler with tickQueue := queue }
            popped := s.popped ++ [t]
            phase := .validate t }
  | .validate t =>
      match verdict t with
      | .accepted => { s with phase := .push t }
      | .stale => { s with staleDropped := s.staleDropped + 1, phase := .test }
      | .insane => { s with sanityRejected := s.sanityRejected + 1, phase := .test }
  | .push t => { s with fan := s.fan.step (.push t), phase := .candles t }
  | .candles t =>
      { s with
        builder := (s.builder.onTick t).1
        candles := s.candles ++ (s.builder.onTick t).2
        bucketed := s.bucketed ++ [t]
        phase := .publish t }
  | .publish t => { s with published := s.published ++ [t], phase := .count t }
  | .count _ => { s with ticksProcessed := s.ticksProcessed + 1, phase := .test }

/-- `stop` is set by another thread; `start` makes a new thread once the last one is joined. -/
def step [DecidableEq Consumer] (hash : Str → Nat)
    (parse : List UInt8 → Option (List (Str × FeedMsg))) (s : TickPipeline Consumer) :
    PipelineEvent Consumer → TickPipeline Consumer
  | .frame data recvTsNs => s.frame hash parse data recvTsNs
  | .offer => s.offer
  | .normalize => s.normalize
  | .consume c => { s with fan := s.fan.step (.tryConsume c) }
  | .start => if s.phase = .stopped then { s with stop := false, phase := .test } else s
  | .stop => { s with stop := true }

def WithinLap (s : TickPipeline Consumer) : PipelineEvent Consumer → Prop
  | .consume c => s.fan.WithinLap (.tryConsume c)
  | _ => True

instance (s : TickPipeline Consumer) : DecidablePred s.WithinLap
  | .consume _ => inferInstanceAs (Decidable (_ ≤ _))
  | .frame _ _ => isTrue trivial
  | .offer => isTrue trivial
  | .normalize => isTrue trivial
  | .start => isTrue trivial
  | .stop => isTrue trivial

def valid (s : TickPipeline Consumer) : List NormalizedTick := s.popped.filter validate

/-- Every tick is where it should be: queued or taken out; of those taken out and valid, handed
to each stage in the same order or held by the thread; counted once. -/
structure Conserved (s : TickPipeline Consumer) : Prop where
  queued : s.accepted = s.popped ++ s.handler.tickQueue.contents
  messages : s.handler.msgCount = s.accepted.length + s.dropped
  ring : s.fan.pushed ++ s.phase.pending .ring = s.valid
  bucketed : s.bucketed ++ s.phase.pending .candles = s.valid
  candles : CandleBuilder.onTicks {} s.bucketed = (s.builder, s.candles)
  published : s.published ++ s.phase.pending .kafka = s.valid
  processed : s.ticksProcessed + (s.phase.pending .counted).length = s.valid.length
  stale : s.staleDropped + s.phase.unchecked.countP (verdict · = .stale) =
    s.popped.countP (verdict · = .stale)
  insane : s.sanityRejected + s.phase.unchecked.countP (verdict · = .insane) =
    s.popped.countP (verdict · = .insane)

theorem conserved_init (blank : NormalizedTick) : (init Consumer blank).Conserved := by
  constructor <;> rfl

section Steps

variable {s : TickPipeline Consumer}

theorem frame_conserved (hash : Str → Nat) (parse : List UInt8 → Option (List (Str × FeedMsg)))
    (h : s.Conserved) (data : List UInt8) (recvTsNs : Nat) :
    (s.frame hash parse data recvTsNs).Conserved := by
  unfold frame
  split
  · exact ⟨h.queued, h.messages, h.ring, h.bucketed, h.candles, h.published, h.processed,
      h.stale, h.insane⟩
  · exact ⟨h.queued, h.messages, h.ring, h.bucketed, h.candles, h.published, h.processed,
      h.stale, h.insane⟩
  · exact h

theorem offer_conserved (h : s.Conserved) : s.offer.Conserved := by
  unfold offer
  split
  · exact h
  · rename_i t rest _
    refine ⟨?_, ?_, h.ring, h.bucketed, h.candles, h.published, h.processed, h.stale, h.insane⟩
    · by_cases hfull : s.handler.tickQueue.Full
      · simp only [UpstoxWsHandler.pushTick, SpscQueue.push_of_full hfull, if_pos hfull]
        exact h.queued
      · simp only [UpstoxWsHandler.pushTick, SpscQueue.push_contents hfull, if_neg hfull]
        rw [h.queued, List.append_assoc]
    · have hmessages := h.messages
      by_cases hfull : s.handler.tickQueue.Full
      · simp only [UpstoxWsHandler.pushTick, if_pos hfull]
        omega
      · simp only [UpstoxWsHandler.pushTick, if_neg hfull, List.length_append,
          List.length_singleton]
        omega

theorem Conserved.goOn (h : s.Conserved) {phase : Phase}
    (hpending : ∀ stage, phase.pending stage = s.phase.pending stage)
    (hunchecked : ∀ v ≠ Verdict.accepted, phase.unchecked.countP (verdict · = v) =
      s.phase.unchecked.countP (verdict · = v)) :
    Conserved { s with phase := phase } where
  queued := h.queued
  messages := h.messages
  ring := (congrArg (s.fan.pushed ++ ·) (hpending .ring)).trans h.ring
  bucketed := (congrArg (s.bucketed ++ ·) (hpending .candles)).trans h.bucketed
  candles := h.candles
  published := (congrArg (s.published ++ ·) (hpending .kafka)).trans h.published
  processed := (congrArg (s.ticksProcessed + List.length ·) (hpending .counted)).trans h.processed
  stale := (congrArg (s.staleDropped + ·) (hunchecked .stale (by decide))).trans h.stale
  insane := (congrArg (s.sanityRejected + ·) (hunchecked .insane (by decide))).trans h.insane

theorem validate_of_verdict {t : NormalizedTick} {v : Verdict} (h : verdict t = v) :
    validate t = decide (v = .accepted) := by
  rw [validate_eq, h]

variable [DecidableEq Consumer]

theorem pop_conserved (h : s.Conserved) (hphase : s.phase = .pop) : s.normalize.Conserved := by
  simp only [normalize, hphase]
  cases hcontents : s.handler.tickQueue.contents with
  | nil =>
      rw [SpscQueue.tryPop_of_empty hcontents]
      refine h.goOn (fun stage => ?_) fun v _ => ?_ <;> rw [hphase]
      · cases stage <;> rfl
      · rfl
  | cons t rest =>
      obtain ⟨htick, hrest⟩ := SpscQueue.tryPop_of_cons hcontents
      obtain ⟨hqueued, hmessages, hring, hbucketed, hcandles, hpublished, hprocessed, hstale,
        hinsane⟩ := h
      rw [hphase] at hring hbucketed hpublished hprocessed hstale hinsane
      rw [hcontents] at hqueued
      cases hpop : s.handler.tickQueue.tryPop with
      | mk got queue =>
          rw [hpop] at htick hrest
          simp only at htick hrest
          subst htick
          refine ⟨?_, hmessages, ?_, ?_, hcandles, ?_, ?_, ?_, ?_⟩
          · rw [hqueued, hrest]
            simp
          all_goals simp_all [valid, Phase.pending, Phase.unchecked]

theorem validate_conserved (h : s.Conserved) {t : NormalizedTick}
    (hphase : s.phase = .validate t) : s.normalize.Conserved := by
  simp only [normalize, hphase]
  cases hverdict : verdict t with
  | accepted =>
      have hvalid : validate t = true := validate_of_verdict hverdict
      refine h.goOn (fun stage => ?_) fun v hv => ?_ <;> rw [hphase]
      · simp [Phase.pending, hvalid]
      · simp [Phase.unchecked, hverdict, Ne.symm hv]
  | stale =>
      have hvalid : validate t = false := validate_of_verdict hverdict
      obtain ⟨hqueued, hmessages, hring, hbucketed, hcandles, hpublished, hprocessed, hstale,
        hinsane⟩ := h
      rw [hphase] at hring hbucketed hpublished hprocessed hstale hinsane
      constructor <;> simp_all [valid, Phase.pending, Phase.unchecked]
  | insane =>
      have hvalid : validate t = false := validate_of_verdict hverdict
      obtain ⟨hqueued, hmessages, hring, hbucketed, hcandles, hpublished, hprocessed, hstale,
        hinsane⟩ := h
      rw [hphase] at hring hbucketed hpublished hprocessed hstale hinsane
      constructor <;> simp_all [valid, Phase.pending, Phase.unchecked]

theorem onTicks_snoc (ticks : List NormalizedTick) (t : NormalizedTick)
    {builder : CandleBuilder} {candles : List Candle}
    (h : CandleBuilder.onTicks {} ticks = (builder, candles)) :
    CandleBuilder.onTicks {} (ticks ++ [t]) =
      ((builder.onTick t).1, candles ++ (builder.onTick t).2) := by
  rw [CandleBuilder.onTicks, CandleBuilder.emitAll_eq_emit] at h ⊢
  rw [Machine.emit_append, h]
  simp [Machine.emit]

theorem hand_conserved (h : s.Conserved) {t : NormalizedTick}
    (hphase : s.phase = .push t ∨ s.phase = .candles t ∨ s.phase = .publish t ∨
      s.phase = .count t) : s.normalize.Conserved := by
  obtain ⟨hqueued, hmessages, hring, hbucketed, hcandles, hpublished, hprocessed, hstale,
    hinsane⟩ := h
  obtain hphase | hphase | hphase | hphase := hphase <;>
    rw [hphase] at hring hbucketed hpublished hprocessed hstale hinsane <;>
    simp only [normalize, hphase]
  · exact ⟨hqueued, hmessages, (List.append_nil _).trans hring, hbucketed, hcandles, hpublished,
      hprocessed, hstale, hinsane⟩
  · exact ⟨hqueued, hmessages, hring, (List.append_nil _).trans hbucketed,
      onTicks_snoc s.bucketed t hcandles, hpublished, hprocessed, hstale, hinsane⟩
  · exact ⟨hqueued, hmessages, hring, hbucketed, hcandles, (List.append_nil _).trans hpublished,
      hprocessed, hstale, hinsane⟩
  · exact ⟨hqueued, hmessages, hring, hbucketed, hcandles, hpublished, hprocessed, hstale,
      hinsane⟩

theorem normalize_conserved (h : s.Conserved) : s.normalize.Conserved := by
  cases hphase : s.phase with
  | stopped =>
      simp only [normalize, hphase]
      exact h
  | test =>
      simp only [normalize, hphase]
      refine h.goOn (fun stage => ?_) fun v _ => ?_ <;> rw [hphase] <;> split <;> rfl
  | pop => exact pop_conserved h hphase
  | validate t => exact validate_conserved h hphase
  | push t => exact hand_conserved h (.inl hphase)
  | candles t => exact hand_conserved h (.inr (.inl hphase))
  | publish t => exact hand_conserved h (.inr (.inr (.inl hphase)))
  | count t => exact hand_conserved h (.inr (.inr (.inr hphase)))

theorem step_conserved (hash : Str → Nat) (parse : List UInt8 → Option (List (Str × FeedMsg)))
    (h : s.Conserved) (event : PipelineEvent Consumer) : (s.step hash parse event).Conserved := by
  cases event with
  | frame data recvTsNs => exact frame_conserved hash parse h data recvTsNs
  | offer => exact offer_conserved h
  | normalize => exact normalize_conserved h
  | consume c =>
      refine ⟨h.queued, h.messages, ?_, h.bucketed, h.candles, h.published, h.processed, h.stale,
        h.insane⟩
      exact (congrArg (· ++ _) (s.fan.step_pushed c)).trans h.ring
  | start =>
      simp only [step]
      split
      · rename_i hphase
        have hnext : Conserved { s with phase := .test } := by
          refine h.goOn (fun stage => ?_) fun v _ => ?_ <;> rw [hphase]
          · cases stage <;> rfl
          · rfl
        exact ⟨hnext.queued, hnext.messages, hnext.ring, hnext.bucketed, hnext.candles,
          hnext.published, hnext.processed, hnext.stale, hnext.insane⟩
      · exact h
  | stop =>
      exact ⟨h.queued, h.messages, h.ring, h.bucketed, h.candles, h.published, h.processed,
        h.stale, h.insane⟩

theorem inStep_step {blank : NormalizedTick} (hash : Str → Nat)
    (parse : List UInt8 → Option (List (Str × FeedMsg))) (h : FanOut.InStep blank s.fan)
    (event : PipelineEvent Consumer) (hlap : s.WithinLap event) :
    FanOut.InStep blank (s.step hash parse event).fan := by
  cases event with
  | frame data recvTsNs =>
      simp only [step, frame]
      split <;> exact h
  | offer =>
      simp only [step, offer]
      split <;> exact h
  | normalize =>
      simp only [step, normalize]
      split
      case h_5 t _ => exact FanOut.inStep_step h (.push t) trivial
      all_goals first | exact h | (split <;> exact h)
  | consume c => exact FanOut.inStep_step h (.tryConsume c) hlap
  | start =>
      simp only [step]
      split <;> exact h
  | stop => exact h

omit [DecidableEq Consumer] in
theorem Conserved.prefix_pushed (h : s.Conserved) :
    s.fan.pushed <+: s.accepted.filter validate := by
  have hvalid : s.valid <+: s.accepted.filter validate := by
    rw [h.queued, List.filter_append]
    exact List.prefix_append _ _
  exact (h.ring ▸ List.prefix_append _ _ : s.fan.pushed <+: s.valid).trans hvalid

end Steps

theorem handler_frame_offers [DecidableEq Consumer] (hash : Str → Nat)
    (parse : List UInt8 → Option (List (Str × FeedMsg))) (s : TickPipeline Consumer)
    (harriving : s.arriving = []) (data : List UInt8) (recvTsNs : Nat) :
    let framed := s.frame hash parse data recvTsNs
    (Run.run (step hash parse) framed (List.replicate framed.arriving.length .offer)).handler =
      s.handler.decodeProtobufFrame hash parse data recvTsNs := by
  have hoffers : ∀ (ticks : List NormalizedTick) (s : TickPipeline Consumer),
      s.arriving = ticks →
        (Run.run (step hash parse) s (List.replicate ticks.length .offer)).handler =
          ticks.foldl UpstoxWsHandler.pushTick s.handler := by
    intro ticks
    induction ticks with
    | nil => exact fun _ _ => rfl
    | cons t ticks ih =>
        intro s harriving
        have hrest : (s.step hash parse .offer).arriving = ticks := by
          simp [step, offer, harriving]
        rw [List.length_cons, List.replicate_succ, Run.run_cons, ih _ hrest]
        simp [step, offer, harriving]
  unfold frame UpstoxWsHandler.decodeProtobufFrame
  rw [harriving]
  cases parse data with
  | none => simp
  | some feeds => exact hoffers _ _ rfl

section Runs

variable [DecidableEq Consumer]

/-- In every run no tick is lost between the queue and the stages, or handed on twice or out of
order; and a strategy that stays within a lap receives the valid ticks of the queue. -/
theorem pipeline_conserves (hash : Str → Nat)
    (parse : List UInt8 → Option (List (Str × FeedMsg))) (blank : NormalizedTick)
    (events : List (PipelineEvent Consumer)) :
    Run.Always (step hash parse) Conserved (init Consumer blank) events ∧
      (Run.Along (step hash parse) WithinLap (init Consumer blank) events →
        Run.Always (step hash parse)
          (fun s => s.fan.Delivers ∧ ∀ c, s.fan.received c <+: s.accepted.filter validate)
          (init Consumer blank) events) := by
  constructor
  · have hall : Run.Along (step hash parse) (fun _ _ => True) (init Consumer blank) events :=
      Run.along_of_forall _ (fun _ => True) (fun _ _ h => h) _ fun _ _ => trivial
    exact Run.always_of_along Conserved
      (fun _ event h _ => step_conserved hash parse h event) (conserved_init blank) hall
  · intro hlap
    have halways := Run.always_of_along (fun s => s.Conserved ∧ FanOut.InStep blank s.fan)
      (fun _ event h hguard => ⟨step_conserved hash parse h.1 event,
        inStep_step hash parse h.2 event hguard⟩)
      ⟨conserved_init blank, FanOut.inStep_init⟩ hlap
    refine halways.imp fun s ⟨hconserved, hstep⟩ =>
      ⟨FanOut.delivers_of_inStep hstep, fun c => ?_⟩
    exact (hstep.received_prefix c).trans hconserved.prefix_pushed

def twoEntries : List (Str × FeedMsg) :=
  [("7".toList, { ltpc := some ⟨100, 99, 1⟩ }), ("7".toList, { ltpc := some ⟨0, 99, 1⟩ })]

def twoEntriesRun : List (PipelineEvent Unit) :=
  [.start, .frame [] 1000000, .offer, .offer] ++ List.replicate 13 .normalize ++
    [.consume (), .consume (), .stop, .normalize]

theorem pipeline_conserves_twoEntries :
    let s := Run.run (step (fun _ => 7) fun _ => some twoEntries)
      (init Unit { instrumentToken := 0 }) twoEntriesRun
    s.Conserved ∧ s.fan.received () <+: s.accepted.filter validate := by
  obtain ⟨hconserved, hdelivers⟩ := pipeline_conserves (fun _ => 7) (fun _ => some twoEntries)
    { instrumentToken := 0 } twoEntriesRun
  exact ⟨hconserved.last, (hdelivers (by decide +kernel)).last.2 ()⟩

example : (Run.run (step (fun _ => 7) fun _ => some twoEntries)
    (init Unit { instrumentToken := 0 }) twoEntriesRun).sanityRejected = 1 := by
  decide +kernel

end Runs

end TickPipeline

end QuantForge
