import QuantForge.Main.Wiring
import QuantForge.MarketData.UpstoxWsHandler
import QuantForge.Transport.UpstoxRestClient

/-! From the token of an instrument to the key that main subscribes, from the key back to the
token of its ticks, and from there to the strategies and to the key that an order names. -/
namespace QuantForge

open Library UpstoxWsHandler

def instrumentKey (token : Nat) : Str := Nat.toDigits 10 token

def instrumentKeys (strategies : List LoadedStrategy) : List Str :=
  strategies.flatMap fun s => s.instruments.map instrumentKey

/-- `dispatch_candle` hands a candle with this token to every running strategy that is
configured with `tok`. -/
def Selects (strategies : List LoadedStrategy) (tok token : Nat) : Prop :=
  ∀ candle : Candle, candle.instrumentToken = token → ∀ (i : Nat) (s : LoadedStrategy),
    strategies[i]? = some s → s.running = true → tok ∈ s.instruments →
    (dispatchCandle candle strategies)[i]? = some (s.call (.onCandle candle))

/-- The instrument configured as `tok` is recognized in its ticks, in its candles and in the
orders for it. A candle is built from the ticks of the stream that carry its token. -/
structure IdentitySurvives (hash : Str → Nat) (strategies : List LoadedStrategy) (tok : Nat) :
    Prop where
  ticks : ∀ tick, DecodedFrom hash (instrumentKey tok) tick →
    Selects strategies tok tick.instrumentToken
  candles : ∀ ticks nowNs, ∀ c ∈ CandleBuilder.candlesOf ticks nowNs,
    (∀ t ∈ ticks, t.instrumentToken = c.instrumentToken →
      DecodedFrom hash (instrumentKey tok) t) → Selects strategies tok c.instrumentToken
  orders : ∀ tick, DecodedFrom hash (instrumentKey tok) tick → ∀ (req : OrderRequest) tag,
    req.instrumentToken = tick.instrumentToken →
    (UpstoxRestClient.buildPlaceOrderBody req tag).atKey "instrument_token".toList =
      some (.string (instrumentKey tok))

theorem selects_self (strategies : List LoadedStrategy) (tok : Nat) :
    Selects strategies tok tok := by
  intro candle htoken i s hs hrunning hconfigured
  have hsubscribed : s.Subscribed candle.instrumentToken := by
    rw [htoken]
    exact .inr hconfigured
  rw [dispatchCandle, List.getElem?_map, hs, Option.map_some, if_neg (by simp [hrunning]),
    if_pos hsubscribed]

theorem exists_decodedFrom (hash : Str → Nat) (key : Str) : ∃ tick, DecodedFrom hash key tick :=
  ⟨_, { ltpc := some ⟨0, 0, 0⟩ }, 0, rfl⟩

private theorem atKey_instrumentToken (req : OrderRequest) (tag : Str) :
    (UpstoxRestClient.buildPlaceOrderBody req tag).atKey "instrument_token".toList =
      some (.string (instrumentKey req.instrumentToken)) := rfl

theorem identitySurvives_of_hash {hash : Str → Nat} {tok : Nat}
    (h : hash (instrumentKey tok) = tok) (strategies : List LoadedStrategy) :
    IdentitySurvives hash strategies tok := by
  have htick : ∀ {tick}, DecodedFrom hash (instrumentKey tok) tick →
      tick.instrumentToken = tok := fun hdecoded =>
    (instrumentToken_of_decodedFrom hdecoded).trans h
  constructor
  · intro tick hdecoded
    rw [htick hdecoded]
    exact selects_self strategies tok
  · intro ticks nowNs c hc hbuilt
    obtain ⟨t, hmem, htoken⟩ := CandleBuilder.token_of_mem_candlesOf
      (fun token => ∃ t ∈ ticks, t.instrumentToken = token)
      (fun t hmem => ⟨t, hmem, rfl⟩) hc
    rw [← htoken, htick (hbuilt t hmem htoken)]
    exact selects_self strategies tok
  · intro tick hdecoded req tag htoken
    rw [atKey_instrumentToken, htoken, htick hdecoded]

/-- The identity of the configured instruments survives exactly when the hash of every
subscribed key is the token that it was printed from. -/
theorem identity_survives_iff_hash (hash : Str → Nat) (strategies : List LoadedStrategy) :
    (∀ s ∈ strategies, ∀ tok ∈ s.instruments, IdentitySurvives hash strategies tok) ↔
      ∀ s ∈ strategies, ∀ tok ∈ s.instruments, hash (instrumentKey tok) = tok := by
  refine forall₄_congr fun s _ tok _ => ⟨fun h => ?_, fun h => identitySurvives_of_hash h _⟩
  obtain ⟨tick, hdecoded⟩ := exists_decodedFrom hash (instrumentKey tok)
  have hbody := h.orders tick hdecoded { instrumentToken := tick.instrumentToken } [] rfl
  rw [atKey_instrumentToken] at hbody
  have hdigits := Json.string.inj (Option.some.inj hbody)
  exact (instrumentToken_of_decodedFrom hdecoded).symm.trans (toDigits_injective hdigits)

theorem TradingEngine.strategies_run_ticks {poolSize : Nat} (e : TradingEngine poolSize)
    (ticks : List NormalizedTick) :
    let built := CandleBuilder.onTicks e.candleBuilder (ticks.filter TickNormalizer.validate)
    let reached := Run.run TradingEngine.step e (ticks.map .tick)
    reached.candleBuilder = built.1 ∧
      reached.strategies = built.2.foldl
        (fun strategies candle => dispatchCandle candle strategies) e.strategies := by
  induction ticks generalizing e with
  | nil => exact ⟨rfl, rfl⟩
  | cons t rest ih =>
      obtain ⟨hbuilder, hstrategies⟩ := ih (e.onTick t)
      rw [List.map_cons, Run.run_cons, show e.step (.tick t) = e.onTick t from rfl]
      by_cases hvalid : TickNormalizer.validate t = true
      · have hstep : (e.onTick t).candleBuilder = (e.candleBuilder.onTick t).1 ∧
            (e.onTick t).strategies = (e.candleBuilder.onTick t).2.foldl
              (fun strategies candle => dispatchCandle candle strategies) e.strategies := by
          rw [TradingEngine.onTick, if_pos hvalid]
          exact ⟨rfl, rfl⟩
        rw [hstep.1] at hbuilder hstrategies
        rw [hstep.2] at hstrategies
        rw [List.filter_cons_of_pos hvalid]
        refine ⟨hbuilder, hstrategies.trans ?_⟩
        exact List.foldl_append.symm
      · have hstep : e.onTick t = e := if_neg hvalid
        rw [hstep] at hbuilder hstrategies ⊢
        rw [List.filter_cons_of_neg hvalid]
        exact ⟨hbuilder, hstrategies⟩

section OtherHash

def oneInstrument : List LoadedStrategy := [{ config := { id := ['S'] }, instruments := [1] }]

private theorem not_selects_other : ¬Selects oneInstrument 1 2 := by
  intro h
  have hcalled := h ⟨2, 0, 0, 60, 1, 1, 1, 1, 0, 0⟩ rfl 0 _ rfl rfl List.mem_cons_self
  have hcalls := congrArg (Option.map LoadedStrategy.calls) hcalled
  simp [dispatchCandle, oneInstrument, LoadedStrategy.Subscribed, LoadedStrategy.call] at hcalls

/-- With a hash that gives 2 for the key of instrument 1, its candles pass by the strategy and
an order for it names instrument 2. -/
theorem hashed_key_names_other_instrument :
    let hash : Str → Nat := fun key => key.length + 1
    (∀ key ∈ instrumentKeys oneInstrument, ∀ other ∈ instrumentKeys oneInstrument,
      hash key = hash other → key = other) ∧
      (∀ tick, DecodedFrom hash (instrumentKey 1) tick → tick.instrumentToken = 2 ∧
        (UpstoxRestClient.buildPlaceOrderBody { instrumentToken := tick.instrumentToken }
          []).atKey "instrument_token".toList = some (.string ['2'])) ∧
      ¬∀ s ∈ oneInstrument, ∀ tok ∈ s.instruments,
        IdentitySurvives hash oneInstrument tok := by
  have htoken : ∀ tick, DecodedFrom (fun key => key.length + 1) (instrumentKey 1) tick →
      tick.instrumentToken = 2 := fun tick hdecoded =>
    (instrumentToken_of_decodedFrom hdecoded).trans (by decide)
  refine ⟨by decide, fun tick hdecoded => ⟨htoken tick hdecoded, ?_⟩, fun h => ?_⟩
  · rw [atKey_instrumentToken, htoken tick hdecoded]
    exact congrArg (fun key => some (Json.string key)) (by decide : instrumentKey 2 = ['2'])
  · obtain ⟨tick, hdecoded⟩ := exists_decodedFrom (fun key => key.length + 1) (instrumentKey 1)
    have hselects := (h _ List.mem_cons_self 1 List.mem_cons_self).ticks tick hdecoded
    rw [htoken tick hdecoded] at hselects
    exact not_selects_other hselects

end OtherHash

end QuantForge
