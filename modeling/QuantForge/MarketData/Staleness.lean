import QuantForge.MarketData.UpstoxWsHandler

/-! The clocks that staleness is decided by. The exchange time of a tick counts from the epoch,
the time of its receipt from the start of `steady_clock`, and only one of the three shapes of an
entry hands its exchange time on. -/
namespace QuantForge

/-- The last trade of the part that the decoder reads. -/
def FeedMsg.ltpcRead (msg : FeedMsg) : Option Ltpc :=
  match msg.ltpc with
  | some ltpc => some ltpc
  | none =>
      match msg.fullFeed with
      | some ff => ff.marketFf.map MarketFullFeed.ltpc
      | none => msg.firstLevelWithGreeks.map FirstLevelWithGreeks.ltpc

/-- One moment on two clocks, each in nanoseconds that a signed count holds. -/
structure ReceiveTime where
  wallNs : Nat
  steadyNs : Nat
  wall_lt : wallNs < 2 ^ 63
  steady_lt : steadyNs < 2 ^ 63

/-- The tick has the exchange time, and is stale when the wall clock is more than five seconds
past it. -/
structure NormalizedTick.OnWallClock (tick : NormalizedTick) (ltt : Int)
    (received : ReceiveTime) : Prop where
  exchangeTs : (tick.exchangeTsNs : Int) = ltt * 1000000
  stale : tick.isStale = true ↔ ltt * 1000000 + 5000000000 < received.wallNs

namespace UpstoxWsHandler

/-- Five seconds after the exchange time are over, or it is so far ahead of the receipt that the
signed difference of the two wraps around. -/
def LateAt (exchangeNs steadyNs : Int) : Prop :=
  exchangeNs + 5000000000 < steadyNs ∨
    steadyNs + 2 ^ 63 < exchangeNs ∧ exchangeNs + 5000000000 < steadyNs + 2 ^ 64

instance (exchangeNs steadyNs : Int) : Decidable (LateAt exchangeNs steadyNs) :=
  inferInstanceAs (Decidable (_ ∨ _ ∧ _))

/-- The entry hands its exchange time on, and five seconds after this time are over on both
clocks or on neither; or there is no exchange time, and the wall clock has just started. -/
def ClocksAgree (msg : FeedMsg) (ltt : Int) (received : ReceiveTime) : Prop :=
  if msg.ltpc.isSome = true ∧ ltt ≠ 0 then
    ltt * 1000000 < 2 ^ 64 ∧
      (LateAt (ltt * 1000000) received.steadyNs ↔
        ltt * 1000000 + 5000000000 < received.wallNs)
  else ltt = 0 ∧ received.wallNs ≤ 5000000000

instance (msg : FeedMsg) (ltt : Int) (received : ReceiveTime) :
    Decidable (ClocksAgree msg ltt received) :=
  inferInstanceAs (Decidable (if msg.ltpc.isSome = true ∧ ltt ≠ 0 then _ ∧ _ else _ ∧ _))

theorem isSome_readFeed (msg : FeedMsg) (tick : NormalizedTick) :
    (readFeed msg tick).isSome = msg.ltpcRead.isSome := by
  unfold readFeed FeedMsg.ltpcRead
  cases msg.ltpc with
  | some ltpc => rfl
  | none =>
      cases msg.fullFeed with
      | some ff => simp
      | none => simp

theorem times_readFeed {msg : FeedMsg} {tick tick' : NormalizedTick}
    (h : readFeed msg tick = some tick') :
    tick'.recvTsNs = tick.recvTsNs ∧ tick'.isStale = tick.isStale ∧
      tick'.exchangeTsNs =
        (msg.ltpc.map fun ltpc => (ltpc.ltt * 1000000 % 2 ^ 64).toNat).getD tick.exchangeTsNs := by
  unfold readFeed at h
  cases hltpc : msg.ltpc with
  | some ltpc =>
      rw [hltpc] at h
      rw [← Option.some.inj h]
      exact ⟨rfl, rfl, rfl⟩
  | none =>
      rw [hltpc] at h
      cases hfull : msg.fullFeed with
      | some ff =>
          rw [hfull] at h
          obtain ⟨mff, -, rfl⟩ := Option.map_eq_some_iff.mp h
          exact ⟨rfl, rfl, rfl⟩
      | none =>
          rw [hfull] at h
          obtain ⟨fl, -, rfl⟩ := Option.map_eq_some_iff.mp h
          exact ⟨rfl, rfl, rfl⟩

theorem latency_late_iff {recvNs exchangeNs : Nat} (hrecv : recvNs < 2 ^ 63)
    (hexchange : exchangeNs < 2 ^ 64) :
    (asInt64 recvNs - asInt64 exchangeNs).bmod (2 ^ 64) > 5000000000 ↔
      LateAt exchangeNs recvNs := by
  have hexact : (asInt64 recvNs - asInt64 exchangeNs).bmod (2 ^ 64) =
      ((recvNs : Int) - exchangeNs).bmod (2 ^ 64) :=
    Int.bmod_sub_bmod.trans Int.sub_bmod_bmod
  rw [hexact, Int.bmod_def, LateAt]
  omega

section MarkStale
variable {tick : NormalizedTick} {ltt : Int} {received : ReceiveTime}

theorem onWallClock_of_zero (hzero : tick.exchangeTsNs = 0) (hfresh : tick.isStale = false) :
    (markStale tick).OnWallClock ltt received ↔ ltt = 0 ∧ received.wallNs ≤ 5000000000 := by
  have hkept : markStale tick = tick := if_neg (by omega)
  rw [hkept]
  constructor
  · rintro ⟨htime, hstale⟩
    rw [hzero] at htime
    rw [hfresh] at hstale
    have hltt : ltt = 0 := by omega
    refine ⟨hltt, not_lt.mp fun hlate => ?_⟩
    have hnever := hstale.mpr (by omega)
    cases hnever
  · rintro ⟨rfl, hearly⟩
    refine ⟨by rw [hzero]; rfl, ?_⟩
    rw [hfresh]
    refine iff_of_false Bool.false_ne_true ?_
    omega

theorem onWallClock_of_pos (hpos : 0 < tick.exchangeTsNs) (hfits : tick.exchangeTsNs < 2 ^ 64)
    (hreceived : tick.recvTsNs = received.steadyNs) :
    (markStale tick).OnWallClock ltt received ↔
      (tick.exchangeTsNs : Int) = ltt * 1000000 ∧
        (LateAt tick.exchangeTsNs received.steadyNs ↔
          ltt * 1000000 + 5000000000 < received.wallNs) := by
  have hmarked : (markStale tick).exchangeTsNs = tick.exchangeTsNs ∧
      ((markStale tick).isStale = true ↔ LateAt tick.exchangeTsNs received.steadyNs) := by
    rw [markStale, if_pos hpos, hreceived]
    refine ⟨rfl, ?_⟩
    rw [decide_eq_true_eq]
    exact latency_late_iff received.steady_lt hfits
  constructor
  · rintro ⟨htime, hstale⟩
    rw [hmarked.1] at htime
    rw [hmarked.2] at hstale
    exact ⟨htime, hstale⟩
  · rintro ⟨htime, hstale⟩
    refine ⟨?_, hmarked.2.trans hstale⟩
    rw [hmarked.1, htime]

end MarkStale

/-- For every entry that the decoder accepts and every moment of its receipt, the tick is dated
and judged by the wall clock exactly when the clocks agree on it. -/
theorem onWallClock_iff_clocksAgree (hash : Str → Nat) (key : Str) {msg : FeedMsg} {ltpc : Ltpc}
    (hread : msg.ltpcRead = some ltpc) (hltt : 0 ≤ ltpc.ltt) (received : ReceiveTime) :
    (∃ tick, decodeFeed hash key msg received.steadyNs = some tick ∧
        tick.OnWallClock ltpc.ltt received) ↔
      ClocksAgree msg ltpc.ltt received := by
  let fresh : NormalizedTick :=
    { instrumentToken := hash key
      symbol := strncpy key (maxSymbolLen - 1)
      recvTsNs := received.steadyNs }
  have hsome : (readFeed msg fresh).isSome = true := by
    rw [isSome_readFeed, hread]
    rfl
  obtain ⟨tick, htick⟩ := Option.isSome_iff_exists.mp hsome
  have hdecode : decodeFeed hash key msg received.steadyNs = some (markStale tick) := by
    change (readFeed msg fresh).map markStale = _
    rw [htick]
    rfl
  simp only [hdecode, Option.some.injEq, exists_eq_left']
  obtain ⟨hreceived, hfresh, htime⟩ := times_readFeed htick
  cases hltpc : msg.ltpc with
  | none =>
      rw [hltpc] at htime
      rw [onWallClock_of_zero htime hfresh, ClocksAgree, hltpc, if_neg (by simp)]
  | some ltpc' =>
      have hsame : ltpc' = ltpc := by
        rw [FeedMsg.ltpcRead, hltpc] at hread
        exact Option.some.inj hread
      subst hsame
      rw [hltpc, Option.map_some, Option.getD_some] at htime
      by_cases hzero : ltpc'.ltt = 0
      · rw [hzero] at htime
        rw [onWallClock_of_zero htime hfresh, ClocksAgree, if_neg (by simp [hzero])]
      · rw [ClocksAgree, if_pos (by simp [hltpc, hzero])]
        by_cases hfits : ltpc'.ltt * 1000000 < 2 ^ 64
        · have hexact : tick.exchangeTsNs = (ltpc'.ltt * 1000000).toNat := by
            rw [htime, Int.emod_eq_of_lt (by omega) hfits]
          have hdated : (tick.exchangeTsNs : Int) = ltpc'.ltt * 1000000 := by
            rw [hexact]
            exact Int.toNat_of_nonneg (by omega)
          rw [onWallClock_of_pos (by omega) (by omega) hreceived, hdated]
          exact and_congr_left' (iff_of_true rfl hfits)
        · refine iff_of_false ?_ fun hagree => hfits hagree.1
          rintro ⟨hdated, -⟩
          have hmarked : (markStale tick).exchangeTsNs = tick.exchangeTsNs := by
            unfold markStale
            split <;> rfl
          rw [hmarked, htime] at hdated
          omega

theorem onWallClock_without_offset :
    ∃ tick, decodeFeed List.length ['K'] { ltpc := some ⟨100, 99, 20000⟩ } 21000000000 = some tick ∧
      tick.OnWallClock 20000 ⟨21000000000, 21000000000, by decide, by decide⟩ := by
  have hread : FeedMsg.ltpcRead { ltpc := some ⟨100, 99, 20000⟩ } = some ⟨100, 99, 20000⟩ := rfl
  refine (onWallClock_iff_clocksAgree List.length ['K'] hread ?_ ⟨21000000000, 21000000000,
    by decide, by decide⟩).mpr ?_
  · decide
  · decide

/-- An hour after the machine was booted: a trade that is a minute old is not stale, and the full
feed of the same trade has no exchange time. -/
theorem old_trade_is_fresh_on_steady_clock :
    let traded : Ltpc := ⟨100, 99, 1700000000000⟩
    let received : ReceiveTime := ⟨1700000060000000000, 3600000000000, by decide, by decide⟩
    ∀ msg ∈ [{ ltpc := some traded }, { fullFeed := some ⟨some ⟨traded, 0, 0, []⟩⟩ : FeedMsg }],
      msg.ltpcRead = some traded ∧
        ∃ tick, decodeFeed List.length ['K'] msg received.steadyNs = some tick ∧
          tick.isStale = false ∧ ¬tick.OnWallClock traded.ltt received := by
  intro traded received msg hmsg
  have hlate : traded.ltt * 1000000 + 5000000000 < received.wallNs := by decide
  have hmissed : ∀ tick : NormalizedTick, tick.isStale = false →
      ¬tick.OnWallClock traded.ltt received := fun tick hfresh hclock =>
    Bool.false_ne_true (hfresh.symm.trans (hclock.stale.mpr hlate))
  obtain rfl | hmsg := List.mem_cons.mp hmsg
  · exact ⟨rfl, _, rfl, by decide, hmissed _ (by decide)⟩
  · obtain rfl := List.mem_singleton.mp hmsg
    exact ⟨rfl, _, rfl, by decide, hmissed _ (by decide)⟩

end UpstoxWsHandler

end QuantForge
