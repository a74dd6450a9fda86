import QuantForge.Library.Run
import QuantForge.Oms.OrderManagementSystem
import QuantForge.Risk.PreTradeRisk
import QuantForge.Strategy.LoadedStrategy
import QuantForge.Strategy.MomentumStrategy

/-! The id of a strategy on its way through the fixed-width fields of a request, an order and a
fill: the limiters are kept under the whole id, and `dispatch_fill` compares one character more
than was copied. -/
namespace QuantForge

open Library

theorem strncpy_of_nulFree {id : Str} (hnul : Char.ofNat 0 ∉ id) (n : Nat) :
    strncpy id n = id.take n := by
  have hself : cString id = id := by
    refine List.takeWhile_eq_self_iff.mpr fun c hc => decide_eq_true fun heq => hnul ?_
    rwa [← heq]
  rw [strncpy, hself]

theorem strncmpEq_copy_iff {id id' : Str} (hnul : Char.ofNat 0 ∉ id) (hnul' : Char.ofNat 0 ∉ id') :
    strncmpEq id' (strncpy id (maxStrategyLen - 1)) maxStrategyLen = true ↔
      id' = id.take (maxStrategyLen - 1) := by
  have hcopy : Char.ofNat 0 ∉ id.take (maxStrategyLen - 1) := fun h => hnul (List.mem_of_mem_take h)
  have hlength : (id.take (maxStrategyLen - 1)).length < maxStrategyLen :=
    (List.length_take_le _ _).trans_lt (by decide)
  rw [strncpy_of_nulFree hnul, strncmpEq, beq_iff_eq]
  change strncpy id' maxStrategyLen = strncpy _ maxStrategyLen ↔ _
  rw [strncpy_of_nulFree hnul', strncpy_of_nulFree hcopy, List.take_of_length_le hlength.le]
  constructor
  · intro heq
    have hshort : (id'.take maxStrategyLen).length < maxStrategyLen := heq ▸ hlength
    rw [List.length_take] at hshort
    rwa [List.take_of_length_le (by omega)] at heq
  · rintro rfl
    exact List.take_of_length_le hlength.le

inductive RiskCall where
  | check (req : OrderRequest) (scfg : StrategyConfig) (portfolio : PortfolioSnapshot)
      (clock : RiskClock)
  | updatePrice (token : Nat) (price : ℚ)
  | engageGlobalKillSwitch
  | disengageGlobalKillSwitch

namespace PreTradeRiskEngine

def step (risk : PreTradeRiskEngine) : RiskCall → PreTradeRiskEngine
  | .check req scfg portfolio clock => (risk.check req scfg portfolio clock).2
  | .updatePrice token price => risk.updatePrice token price
  | .engageGlobalKillSwitch => risk.engageGlobalKillSwitch
  | .disengageGlobalKillSwitch => risk.disengageGlobalKillSwitch

def LimitersOf (ids : List Str) (risk : PreTradeRiskEngine) : Prop :=
  ∀ id, (risk.rateLimiters.lookup id).isSome = true ↔ id ∈ ids

/-- The rate limit of the order is that of the id: its limiter is asked, and no other changes. -/
def Charges (risk : PreTradeRiskEngine) (req : OrderRequest) (id : Str) : Prop :=
  ∃ limiter, risk.rateLimiters.lookup id = some limiter ∧
    ∀ nowNs, risk.consumeRate req.strategyId nowNs =
      ((limiter.tryConsume nowNs).1,
        { risk with rateLimiters := risk.rateLimiters.insert id (limiter.tryConsume nowNs).2 })

variable {risk : PreTradeRiskEngine} {ids : List Str}

theorem limitersOf_configure (strategies : List StrategyConfig) (nowNs : Nat)
    (h : risk.LimitersOf ids) :
    (risk.configure strategies nowNs).LimitersOf (strategies.map StrategyConfig.id ++ ids) := by
  induction strategies generalizing risk ids with
  | nil => exact h
  | cons scfg strategies ih =>
      have hfirst : (risk.configure [scfg] nowNs).LimitersOf (scfg.id :: ids) := by
        intro id
        change (AList.lookup id (if (risk.rateLimiters.lookup scfg.id).isSome = true then risk
          else _).rateLimiters).isSome = true ↔ _
        rw [List.mem_cons]
        by_cases heq : id = scfg.id
        · subst heq
          split
          · rename_i hsome
            simp [hsome]
          · simp
        · split
          · simp [heq, h id]
          · rw [AList.lookup_insert_ne heq]
            simp [heq, h id]
      intro id
      refine (ih hfirst id).trans ?_
      simp only [List.map_cons, List.cons_append, List.mem_append, List.mem_cons]
      exact or_left_comm

theorem lookup_consumeRate_ne (risk : PreTradeRiskEngine) {sid id : Str} (hne : id ≠ sid)
    (nowNs : Nat) :
    (risk.consumeRate sid nowNs).2.rateLimiters.lookup id = risk.rateLimiters.lookup id := by
  unfold PreTradeRiskEngine.consumeRate
  cases risk.rateLimiters.lookup sid with
  | none => rfl
  | some limiter => exact AList.lookup_insert_ne hne

theorem lastRefillNs_tryConsume (limiter : TokenBucketLimiter) (nowNs : Nat) :
    (limiter.tryConsume nowNs).2.lastRefillNs = nowNs := by
  unfold TokenBucketLimiter.tryConsume
  dsimp only
  split <;> rfl

theorem LimitersOf.consumeRate (h : risk.LimitersOf ids) (sid : Str) (nowNs : Nat) :
    (risk.consumeRate sid nowNs).2.LimitersOf ids := by
  unfold PreTradeRiskEngine.consumeRate
  cases hlookup : risk.rateLimiters.lookup sid with
  | none => exact h
  | some limiter =>
      intro id
      rw [← h id]
      by_cases heq : id = sid
      · rw [heq, AList.lookup_insert, hlookup]
        exact Iff.rfl
      · rw [AList.lookup_insert_ne heq]

theorem LimitersOf.step (h : risk.LimitersOf ids) (call : RiskCall) :
    (risk.step call).LimitersOf ids := by
  cases call with
  | check req scfg portfolio clock =>
      change (risk.check req scfg portfolio clock).2.LimitersOf ids
      obtain ⟨_, -, heq⟩ | ⟨-, heq⟩ | ⟨-, heq⟩ := check_cases risk req scfg portfolio clock
      · rwa [heq]
      · rw [heq]
        exact h.consumeRate _ _
      · rw [heq]
        exact h.consumeRate _ _
  | updatePrice token price => exact h
  | engageGlobalKillSwitch => exact h
  | disengageGlobalKillSwitch => exact h

/-- With a limiter for it, an id is charged exactly for the orders that carry it whole. -/
theorem charges_iff {req : OrderRequest} {id : Str}
    (h : (risk.rateLimiters.lookup id).isSome = true) :
    risk.Charges req id ↔ req.strategyId = id := by
  obtain ⟨limiter, hlimiter⟩ := Option.isSome_iff_exists.mp h
  constructor
  · rintro ⟨limiter', hlimiter', hcharged⟩
    -- At a later time than that of its last refill the limiter is not left as it was.
    by_contra hne
    have hkept := risk.lookup_consumeRate_ne (Ne.symm hne) (limiter'.lastRefillNs + 1)
    rw [hcharged, AList.lookup_insert, hlimiter'] at hkept
    have hrefilled := lastRefillNs_tryConsume limiter' (limiter'.lastRefillNs + 1)
    rw [Option.some.inj hkept] at hrefilled
    omega
  · intro heq
    refine ⟨limiter, hlimiter, fun nowNs => ?_⟩
    rw [heq, consumeRate, hlimiter]

theorem limitersOf_run (strategies : List StrategyConfig) (nowNs : Nat) (calls : List RiskCall) :
    (Run.run step (configure {} strategies nowNs) calls).LimitersOf
      (strategies.map StrategyConfig.id) := by
  refine Run.run_invariant (LimitersOf _) (fun _ call h => h.step call) ?_ calls
  have hnone : LimitersOf [] {} := fun id => by simp
  simpa using limitersOf_configure strategies nowNs hnone

end PreTradeRiskEngine

def DispatchedTo (fill : Fill) (strategies : List LoadedStrategy) (i : Nat) : Prop :=
  ∀ j, (dispatchFill fill strategies)[j]? = strategies[j]?.map fun s =>
    if j = i then s.call (.onOrderFill fill) else s

/-- The orders of the strategy at this position are charged to its own limiter, and the fills
that are built from the records of these orders are dispatched to it. -/
structure Identified (risk : PreTradeRiskEngine) (strategies : List LoadedStrategy) (i : Nat)
    (s : LoadedStrategy) : Prop where
  charged : ∀ (strategy : MomentumStrategy) (token : Nat) (side : Side) (qty : Int) (tag : Str),
    strategy.id = s.config.id → risk.Charges (strategy.marketOrder token side qty tag) s.config.id
  dispatched : ∀ (strategy : MomentumStrategy) (token : Nat) (side : Side) (qty : Int) (tag : Str),
    strategy.id = s.config.id → ∀ (old order : Order) (oid : Str) (placedNs : Nat),
      order.strategyId =
        (old.populate oid (strategy.marketOrder token side qty tag) placedNs).strategyId →
      ∀ (internalOid : Str) (report : FillReport) (nowNs : Nat),
        DispatchedTo (order.buildFill internalOid report nowNs) strategies i

section Dispatch

variable {strategies : List LoadedStrategy} {i : Nat} {s : LoadedStrategy}

theorem dispatchedTo_iff (hs : strategies[i]? = some s) (fill : Fill) :
    DispatchedTo fill strategies i ↔ ownerOf strategies fill.strategyId = some i := by
  constructor
  · intro h
    have hi := h i
    rw [getElem?_dispatchFill, hs, Option.map_some, Option.map_some, if_pos rfl] at hi
    by_contra hother
    rw [if_neg hother] at hi
    have hcalls := congrArg (fun s : LoadedStrategy => s.calls.length) (Option.some.inj hi)
    simp [LoadedStrategy.call] at hcalls
  · intro howner j
    rw [getElem?_dispatchFill, howner]
    simp only [Option.some.injEq, eq_comm]

theorem ownerOf_copy_iff (hdistinct : (strategies.map fun s => s.config.id).Nodup)
    (hnul : ∀ s ∈ strategies, Char.ofNat 0 ∉ s.config.id) (hs : strategies[i]? = some s) :
    ownerOf strategies (strncpy s.config.id (maxStrategyLen - 1)) = some i ↔
      s.config.id.length ≤ maxStrategyLen - 1 := by
  obtain ⟨hlt, hget⟩ := List.getElem?_eq_some_iff.mp hs
  have hid : ∀ j (hj : j < strategies.length), decide (strategies[j].HasId
      (strncpy s.config.id (maxStrategyLen - 1))) = true ↔
      strategies[j].config.id = s.config.id.take (maxStrategyLen - 1) := by
    intro j hj
    rw [decide_eq_true_iff]
    exact strncmpEq_copy_iff (hnul s (List.mem_of_getElem? hs)) (hnul _ (List.getElem_mem hj))
  rw [ownerOf, List.findIdx?_eq_some_iff_getElem]
  constructor
  · rintro ⟨_, hfound, -⟩
    rw [hid, hget] at hfound
    exact List.take_eq_self_iff _ |>.mp hfound.symm
  · intro hshort
    have htake : s.config.id.take (maxStrategyLen - 1) = s.config.id :=
      List.take_of_length_le hshort
    refine ⟨hlt, (hid i hlt).mpr (by rw [hget, htake]), fun j hj hfound => ?_⟩
    have hsame := (hid j (hj.trans hlt)).mp hfound
    rw [htake, ← hget] at hsame
    refine List.nodup_iff_getElem?_ne_getElem?.mp hdistinct j i hj (by simpa using hlt) ?_
    rw [List.getElem?_map, List.getElem?_map, List.getElem?_eq_getElem hlt,
      List.getElem?_eq_getElem (hj.trans hlt), Option.map_some, Option.map_some, hsame]

/-- A strategy is identified throughout every run of the risk engine exactly when its id fits
into the fields. -/
theorem identified_iff (hdistinct : (strategies.map fun s => s.config.id).Nodup)
    (hnul : ∀ s ∈ strategies, Char.ofNat 0 ∉ s.config.id) (nowNs : Nat) (calls : List RiskCall)
    (hs : strategies[i]? = some s) :
    Identified (Run.run PreTradeRiskEngine.step
      (PreTradeRiskEngine.configure {} (strategies.map LoadedStrategy.config) nowNs) calls)
      strategies i s ↔ s.config.id.length ≤ maxStrategyLen - 1 := by
  have hnulId := hnul s (List.mem_of_getElem? hs)
  have hlimiter : ((Run.run PreTradeRiskEngine.step (PreTradeRiskEngine.configure {}
      (strategies.map LoadedStrategy.config) nowNs) calls).rateLimiters.lookup
      s.config.id).isSome = true := by
    rw [PreTradeRiskEngine.limitersOf_run, List.map_map]
    exact List.mem_map_of_mem (List.mem_of_getElem? hs)
  constructor
  · intro h
    have hcharged := h.charged { id := s.config.id } 0 .buy 1 [] rfl
    rw [PreTradeRiskEngine.charges_iff hlimiter] at hcharged
    change strncpy s.config.id (maxStrategyLen - 1) = s.config.id at hcharged
    rw [strncpy_of_nulFree hnulId] at hcharged
    exact (List.take_eq_self_iff _).mp hcharged
  · intro hshort
    constructor
    · intro strategy token side qty tag hid
      rw [PreTradeRiskEngine.charges_iff hlimiter]
      change strncpy strategy.id (maxStrategyLen - 1) = s.config.id
      rw [hid, strncpy_of_nulFree hnulId, List.take_of_length_le hshort]
    · intro strategy token side qty tag hid old order oid placedNs horder internalOid report _
      rw [dispatchedTo_iff hs]
      change ownerOf strategies (strncpy order.strategyId (maxStrategyLen - 1)) = some i
      have hcopy : order.strategyId = strncpy (strncpy s.config.id (maxStrategyLen - 1))
          (maxStrategyLen - 1) := by
        rw [horder, ← hid]
        rfl
      rw [hcopy, strncpy_strncpy, strncpy_strncpy]
      exact (ownerOf_copy_iff hdistinct hnul hs).mpr hshort

end Dispatch

section TwoStrategies

def named (length : Nat) : LoadedStrategy := { config := { id := List.replicate length 'S' } }

def configured : PreTradeRiskEngine :=
  PreTradeRiskEngine.configure {} ([named 31, named 32].map LoadedStrategy.config) 0

theorem identified_named : Identified configured [named 31, named 32] 0 (named 31) :=
  (identified_iff (by decide) (by decide) 0 [] rfl).mpr (by decide)

/-- The orders and the fills of the longer name are taken for those of the shorter one. -/
theorem long_id_taken_for_prefix :
    let order := MomentumStrategy.marketOrder { id := (named 32).config.id } 1 .buy 1 []
    order.strategyId = (named 31).config.id ∧
      ownerOf [named 31, named 32] order.strategyId = some 0 ∧
      ¬Identified configured [named 31, named 32] 1 (named 32) := by
  refine ⟨by decide, by decide, fun h => ?_⟩
  have hcharged := h.charged { id := (named 32).config.id } 1 .buy 1 [] rfl
  rw [PreTradeRiskEngine.charges_iff (by decide +kernel)] at hcharged
  exact absurd hcharged (by decide)

end TwoStrategies

end QuantForge
