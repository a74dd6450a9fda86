import Mathlib.Algebra.Order.BigOperators.Group.List
import QuantForge.Risk.RateLimit
import QuantForge.Strategy.StrategyIdentity

/-! The rate limit and the order limit of `check` together: what a strategy can place in any window
of time, whatever it requests and whatever the other strategies do. -/
namespace QuantForge

open Library

def RiskCall.time : RiskCall → Option Nat
  | .check _ _ _ clock => some clock.nowNs
  | _ => none

def valueIn (a b : ℚ) (passes : List (ℚ × ℚ)) : ℚ :=
  ((passes.filter fun pass => decide (a ≤ pass.1) && decide (pass.1 ≤ b)).map Prod.snd).sum

namespace PreTradeRiskEngine

open TokenBucketLimiter

def asks (sid : Str) (risk : PreTradeRiskEngine) : RiskCall → Option Nat
  | .check req _ _ clock =>
      if req.strategyId = sid ∧ risk.globalKillSwitch = false ∧
          risk.isStrategyHalted req.strategyId = false ∧ MarketHours.isOpen clock.utc = true then
        some clock.nowNs
      else none
  | _ => none

def passesFor (sid : Str) (risk : PreTradeRiskEngine) : RiskCall → Option (ℚ × ℚ)
  | .check req scfg portfolio clock =>
      if req.strategyId = sid ∧ (risk.check req scfg portfolio clock).1 = .pass then
        some (seconds clock.nowNs, req.quantity * risk.currentPrice req.instrumentToken)
      else none
  | _ => none

variable {risk : PreTradeRiskEngine} {sid : Str} {limiter : TokenBucketLimiter}

theorem limiter_step (hlimiter : risk.rateLimiters.lookup sid = some limiter) (call : RiskCall) :
    (risk.asks sid call = none ∧ risk.passesFor sid call = none ∧
        (risk.step call).rateLimiters.lookup sid = some limiter) ∨
      ∃ now, risk.asks sid call = some now ∧
        (risk.step call).rateLimiters.lookup sid = some (limiter.tryConsume now).2 ∧
        ∀ pass, risk.passesFor sid call = some pass →
          pass.1 = seconds now ∧ (limiter.tryConsume now).1 = true := by
  cases call with
  | check req scfg portfolio clock =>
      by_cases hsid : req.strategyId = sid
      · subst hsid
        have hrate : risk.consumeRate req.strategyId clock.nowNs =
            ((limiter.tryConsume clock.nowNs).1, { risk with
              rateLimiters :=
                risk.rateLimiters.insert req.strategyId (limiter.tryConsume clock.nowNs).2 }) := by
          rw [consumeRate, hlimiter]
        by_cases hasks : risk.globalKillSwitch = false ∧
            risk.isStrategyHalted req.strategyId = false ∧ MarketHours.isOpen clock.utc = true
        · obtain ⟨hkill, hhalted, hopen⟩ := hasks
          refine .inr ⟨clock.nowNs, if_pos ⟨rfl, hkill, hhalted, hopen⟩, ?_⟩
          cases hgranted : (limiter.tryConsume clock.nowNs).1 with
          | false =>
              rw [hgranted] at hrate
              have hcheck : risk.check req scfg portfolio clock = (.rejectRateLimit, { risk with
                  rateLimiters := risk.rateLimiters.insert req.strategyId
                    (limiter.tryConsume clock.nowNs).2 }) := by
                simp only [check, hkill, hhalted, hopen, hrate, Bool.false_eq_true, if_false,
                  Bool.not_true]
              refine ⟨?_, fun pass hpass => ?_⟩
              · rw [step, hcheck]
                exact AList.lookup_insert _
              · simp [passesFor, hcheck] at hpass
          | true =>
              rw [hgranted] at hrate
              have hafter : (risk.check req scfg portfolio clock).2 = { risk with
                  rateLimiters := risk.rateLimiters.insert req.strategyId
                    (limiter.tryConsume clock.nowNs).2 } := by
                simp only [check, hkill, hhalted, hopen, hrate, Bool.false_eq_true, if_false,
                  Bool.not_true]
              refine ⟨?_, fun pass hpass => ⟨?_, rfl⟩⟩
              · rw [step, hafter]
                exact AList.lookup_insert _
              · simp only [passesFor, Option.ite_none_right_eq_some, Option.some.injEq] at hpass
                rw [← hpass.2]
        · refine .inl ⟨if_neg fun h => hasks h.2, ?_⟩
          have hrefused : ∃ decision, decision ≠ .pass ∧
              risk.check req scfg portfolio clock = (decision, risk) := by
            by_cases hkill : risk.globalKillSwitch = true
            · exact ⟨.rejectKillSwitch, by decide, by rw [check, if_pos hkill]⟩
            by_cases hhalted : risk.isStrategyHalted req.strategyId = true
            · exact ⟨.rejectKillSwitch, by decide, by rw [check, if_neg hkill, if_pos hhalted]⟩
            have hclosed : MarketHours.isOpen clock.utc = false := by
              by_contra hopen
              exact hasks ⟨by simpa using hkill, by simpa using hhalted, by simpa using hopen⟩
            exact ⟨.rejectMarketClosed, by decide, by
              rw [check, if_neg hkill, if_neg hhalted, if_pos (by simp [hclosed])]⟩
          obtain ⟨decision, hne, hcheck⟩ := hrefused
          refine ⟨?_, ?_⟩
          · rw [passesFor, hcheck, if_neg fun h => hne h.2]
          · rw [step, hcheck]
            exact hlimiter
      · refine .inl ⟨if_neg fun h => hsid h.1, if_neg fun h => hsid h.1, ?_⟩
        obtain ⟨_, -, hcheck⟩ | ⟨-, hcheck⟩ | ⟨-, hcheck⟩ :=
          check_cases risk req scfg portfolio clock
        · rw [step, hcheck]
          exact hlimiter
        · rw [step, hcheck, risk.lookup_consumeRate_ne (Ne.symm hsid)]
          exact hlimiter
        · rw [step, hcheck, risk.lookup_consumeRate_ne (Ne.symm hsid)]
          exact hlimiter
  | _ => exact .inl ⟨rfl, rfl, hlimiter⟩

theorem countP_passes_le (a b : ℚ) (hlimiter : risk.rateLimiters.lookup sid = some limiter)
    (calls : List RiskCall) :
    (Run.settings step (passesFor sid) risk calls).countP
        (fun pass => decide (a ≤ pass.1) && decide (pass.1 ≤ b)) ≤
      TokenBucket.grantedIn a b (limiter.attempts (Run.settings step (asks sid) risk calls)) := by
  induction calls generalizing risk limiter with
  | nil => exact Nat.zero_le _
  | cons call calls ih =>
      rw [Run.settings, Run.settings]
      obtain ⟨hasks, hpasses, hnext⟩ | ⟨now, hasks, hnext, hpasses⟩ := limiter_step hlimiter call
      · rw [hasks, hpasses]
        exact ih hnext
      · rw [hasks, Option.toList_some, List.singleton_append, attempts, TokenBucket.grantedIn_cons]
        have hrest := ih hnext
        cases hpass : risk.passesFor sid call with
        | none => exact hrest.trans (Nat.le_add_right _ _)
        | some pass =>
            obtain ⟨htime, hgranted⟩ := hpasses pass hpass
            rw [Option.toList_some, List.singleton_append, List.countP_cons, hgranted, htime,
              Bool.true_and]
            exact Nat.add_le_add_right hrest _

theorem asks_sublist (sid : Str) (risk : PreTradeRiskEngine) (calls : List RiskCall) :
    (Run.settings step (asks sid) risk calls).Sublist (calls.filterMap RiskCall.time) := by
  induction calls generalizing risk with
  | nil => exact List.Sublist.refl _
  | cons call calls ih =>
      rw [Run.settings]
      cases call with
      | check req scfg portfolio clock =>
          have hrest := ih (risk.step (.check req scfg portfolio clock))
          change List.Sublist _ (clock.nowNs :: calls.filterMap RiskCall.time)
          rw [asks]
          split
          · exact hrest.cons_cons _
          · exact hrest.cons _
      | _ => exact ih _

theorem lookup_configure_of_some (strategies : List StrategyConfig) (nowNs : Nat)
    (hlimiter : risk.rateLimiters.lookup sid = some limiter) :
    (risk.configure strategies nowNs).rateLimiters.lookup sid = some limiter := by
  induction strategies generalizing risk with
  | nil => exact hlimiter
  | cons scfg strategies ih =>
      refine ih ?_
      dsimp only
      split
      · exact hlimiter
      · rename_i hnone
        refine (AList.lookup_insert_ne fun heq => hnone ?_).trans hlimiter
        rw [← heq, hlimiter]
        rfl

theorem lookup_configure {strategies : List StrategyConfig} {scfg : StrategyConfig} (nowNs : Nat)
    (hids : (strategies.map StrategyConfig.id).Nodup) (hmem : scfg ∈ strategies)
    (hnone : ∀ other ∈ strategies, risk.rateLimiters.lookup other.id = none) :
    (risk.configure strategies nowNs).rateLimiters.lookup scfg.id =
      some (init scfg.risk.maxOrdersPerSecond (-1) nowNs) := by
  induction strategies generalizing risk with
  | nil => exact absurd hmem List.not_mem_nil
  | cons first strategies ih =>
      obtain ⟨hfirst, hrest⟩ := List.nodup_cons.mp hids
      have hnew : (risk.rateLimiters.lookup first.id).isSome ≠ true := by
        rw [hnone first List.mem_cons_self]
        exact Bool.false_ne_true
      rw [configure, List.foldl_cons, if_neg hnew]
      obtain rfl | hmem := List.mem_cons.mp hmem
      · exact lookup_configure_of_some strategies nowNs (AList.lookup_insert _)
      · refine ih hrest hmem fun other hother => ?_
        have hne : other.id ≠ first.id := fun heq =>
          hfirst (heq ▸ List.mem_map_of_mem hother)
        exact (AList.lookup_insert_ne hne).trans (hnone other (List.mem_cons_of_mem _ hother))

def Priced (scfg : StrategyConfig) (risk : PreTradeRiskEngine) : RiskCall → Prop
  | .check req scfg' _ _ =>
      req.strategyId = scfg.id → scfg' = scfg ∧ 0 < risk.currentPrice req.instrumentToken
  | _ => True

theorem value_le_of_passesFor {scfg : StrategyConfig} {call : RiskCall} {pass : ℚ × ℚ}
    (hpriced : risk.Priced scfg call) (hpass : risk.passesFor scfg.id call = some pass) :
    pass.2 ≤ scfg.risk.maxSingleOrderValue := by
  cases call with
  | check req scfg' portfolio clock =>
      simp only [passesFor, Option.ite_none_right_eq_some, Option.some.injEq] at hpass
      obtain ⟨⟨hsid, hpass⟩, rfl⟩ := hpass
      obtain ⟨rfl, hprice⟩ := hpriced hsid
      exact (withinLimits_of_pass hpass hprice).orderValue
  | _ => cases hpass

theorem values_le_of_along {scfg : StrategyConfig} {calls : List RiskCall}
    (hpriced : Run.Along step (Priced scfg) risk calls) :
    ∀ pass ∈ Run.settings step (passesFor scfg.id) risk calls,
      pass.2 ≤ scfg.risk.maxSingleOrderValue := by
  induction calls generalizing risk with
  | nil => exact List.forall_mem_nil _
  | cons call calls ih =>
      intro pass hmem
      rw [Run.settings, List.mem_append, Option.mem_toList] at hmem
      obtain hpass | hlater := hmem
      · exact value_le_of_passesFor hpriced.1 hpass
      · exact ih hpriced.2 pass hlater

/-- What passes in a window is worth at most the limit of a single order for every order that the
limiter can grant: two seconds' worth of them, and the rate for the length of the window. -/
theorem order_flow_bounded {strategies : List StrategyConfig} {scfg : StrategyConfig} {nowNs : Nat}
    (hids : (strategies.map StrategyConfig.id).Nodup) (hmem : scfg ∈ strategies)
    (hrate : 0 ≤ scfg.risk.maxOrdersPerSecond) (hmax : 0 ≤ scfg.risk.maxSingleOrderValue)
    {calls : List RiskCall}
    (htimes : (nowNs :: calls.filterMap RiskCall.time).Pairwise (· ≤ ·))
    (hpriced : Run.Along step (Priced scfg) (configure {} strategies nowNs) calls)
    {a b : ℚ} (hwindow : a ≤ b) :
    valueIn a b (Run.settings step (passesFor scfg.id) (configure {} strategies nowNs) calls) ≤
      (scfg.risk.maxOrdersPerSecond * 2 + scfg.risk.maxOrdersPerSecond * (b - a)) *
        scfg.risk.maxSingleOrderValue := by
  have hlimiter : (configure {} strategies nowNs).rateLimiters.lookup scfg.id = _ :=
    lookup_configure nowNs hids hmem fun _ _ => AList.lookup_empty _
  have hbucket : (init scfg.risk.maxOrdersPerSecond (-1) nowNs).toBucket =
      ⟨scfg.risk.maxOrdersPerSecond, scfg.risk.maxOrdersPerSecond * 2,
        scfg.risk.maxOrdersPerSecond * 2, seconds nowNs⟩ := by
    simp [init, toBucket]
  have hrate' : (0 : ℚ) ≤ scfg.risk.maxOrdersPerSecond := Int.cast_nonneg hrate
  have hasked : (nowNs :: Run.settings step (asks scfg.id) (configure {} strategies nowNs)
      calls).Pairwise (· ≤ ·) := htimes.sublist ((asks_sublist _ _ _).cons_cons _)
  have hcount := countP_passes_le a b hlimiter calls
  have hgranted := TokenBucket.grantedIn_le
    (b := (⟨scfg.risk.maxOrdersPerSecond, scfg.risk.maxOrdersPerSecond * 2,
      scfg.risk.maxOrdersPerSecond * 2, seconds nowNs⟩ : TokenBucket ℚ))
    ⟨hrate', mul_nonneg hrate' zero_le_two, le_refl _⟩
    (hasked.map seconds fun _ _ h => seconds_mono h) hwindow
  rw [attempts_toBucket, hbucket] at hcount
  have horders : (((Run.settings step (passesFor scfg.id) (configure {} strategies nowNs)
      calls).countP fun pass => decide (a ≤ pass.1) && decide (pass.1 ≤ b) : Nat) : ℚ) ≤
      scfg.risk.maxOrdersPerSecond * 2 + scfg.risk.maxOrdersPerSecond * (b - a) := by
    rw [mul_comm (scfg.risk.maxOrdersPerSecond : ℚ) (b - a)]
    exact (Nat.cast_le.mpr hcount).trans hgranted
  rw [List.countP_eq_length_filter] at horders
  refine le_trans (List.sum_le_card_nsmul _ scfg.risk.maxSingleOrderValue ?_) ?_
  · intro value hvalue
    obtain ⟨pass, hpass, rfl⟩ := List.mem_map.mp hvalue
    exact values_le_of_along hpriced pass (List.mem_of_mem_filter hpass)
  · rw [List.length_map, nsmul_eq_mul]
    exact mul_le_mul_of_nonneg_right horders hmax

private def slowStrategy : StrategyConfig where
  id := ['a']
  risk := { maxOrdersPerSecond := 1 }

private def orderOfTen : OrderRequest where
  instrumentToken := 5
  quantity := 10
  strategyId := ['a']

private def checkAt (nowNs : Nat) : RiskCall :=
  .check orderOfTen slowStrategy {} ⟨⟨5, 0, 1⟩, nowNs⟩

private def fourOrders : List RiskCall :=
  [.updatePrice 5 100, checkAt 0, checkAt 0, checkAt 0, checkAt 1000000000]

theorem order_flow_bounded_fourOrders :
    let passes := Run.settings step (passesFor ['a']) (configure {} [slowStrategy] 0) fourOrders
    passes = [(0, 1000), (0, 1000), (1, 1000)] ∧
      valueIn 0 1 passes ≤ (((1 : Int) : ℚ) * 2 + ((1 : Int) : ℚ) * (1 - 0)) * 10000 := by
  have hpriced : Run.Along step (Priced slowStrategy) (configure {} [slowStrategy] 0) fourOrders :=
    ⟨trivial, fun _ => ⟨rfl, by decide +kernel⟩, fun _ => ⟨rfl, by decide +kernel⟩,
      fun _ => ⟨rfl, by decide +kernel⟩, fun _ => ⟨rfl, by decide +kernel⟩, trivial⟩
  exact ⟨by decide +kernel,
    order_flow_bounded (by decide) (List.mem_singleton_self _) (by decide) (by decide +kernel)
      (by decide) hpriced zero_le_one⟩

end PreTradeRiskEngine

end QuantForge
