import Mathlib.Algebra.Order.Field.Rat
import Mathlib.Data.List.TakeWhile
import QuantForge.Library.Dict

/-! The shared records of `common/types.hpp`. Prices and money are exact
rationals, quantities exact integers, clock readings natural numbers of
nanoseconds. -/
namespace QuantForge

open Library

/-- The bytes of a `std::string`, or of a character array up to its first NUL. -/
abbrev Str := List Char

def maxOrderIdLen : Nat := 36
def maxTagLen : Nat := 32
def maxStrategyLen : Nat := 32

/-- A C string ends at its first NUL. -/
def cString (text : Str) : Str := text.takeWhile (· ≠ Char.ofNat 0)

/-- What `std::strncpy (dst, src, n)` leaves in a zeroed array longer than `n`. -/
def strncpy (src : Str) (n : Nat) : Str := (cString src).take n

theorem strncpy_strncpy (src : Str) (n : Nat) : strncpy (strncpy src n) n = strncpy src n := by
  have hself : cString (strncpy src n) = strncpy src n := by
    refine List.takeWhile_eq_self_iff.mpr fun c hc => ?_
    have hmem : c ∈ src.takeWhile (· ≠ Char.ofNat 0) := List.mem_of_mem_take hc
    exact List.mem_takeWhile_imp (p := (· ≠ Char.ofNat 0)) hmem
  rw [strncpy, hself, strncpy, List.take_take, Nat.min_self]

/-- `std::strncmp (a, b, n) == 0`. -/
def strncmpEq (a b : Str) (n : Nat) : Bool :=
  (cString a).take n == (cString b).take n

inductive Side where
  | buy
  | sell
  deriving DecidableEq, Repr

inductive OrderType where
  | market
  | limit
  | sl
  | slm
  deriving DecidableEq, Repr

inductive OrderProduct where
  | intraday
  | delivery
  | mtf
  deriving DecidableEq, Repr

inductive OrderValidity where
  | day
  | ioc
  deriving DecidableEq, Repr

/-- `OPEN` and `PARTIAL` of the source are `opened` and `partlyFilled`. -/
inductive OrderStatus where
  | pending
  | opened
  | complete
  | cancelled
  | rejected
  | partlyFilled
  | triggerPending
  deriving DecidableEq, Repr

inductive RiskDecision where
  | pass
  | rejectKillSwitch
  | rejectMarketClosed
  | rejectRateLimit
  | rejectPositionLimit
  | rejectCapital
  | rejectPriceSanity
  | rejectGreekLimit
  | rejectDailyLoss
  deriving DecidableEq, Repr

structure OrderRequest where
  instrumentToken : Nat
  side : Side := .buy
  orderType : OrderType := .market
  product : OrderProduct := .intraday
  validity : OrderValidity := .day
  quantity : Int := 0
  limitPrice : ℚ := 0
  triggerPrice : ℚ := 0
  stopLossPrice : ℚ := 0
  takeProfitPrice : ℚ := 0
  signalStrength : ℚ := 0
  isAmo : Bool := false
  slice : Bool := true
  marketProtection : Int := -1
  strategyId : Str := []
  tag : Str := []
  requestTsNs : Nat := 0
  deriving DecidableEq

structure Order where
  orderId : Str := []
  strategyId : Str := []
  tag : Str := []
  instrumentToken : Nat := 0
  side : Side := .buy
  orderType : OrderType := .market
  product : OrderProduct := .intraday
  status : OrderStatus := .pending
  quantity : Int := 0
  filledQty : Int := 0
  limitPrice : ℚ := 0
  triggerPrice : ℚ := 0
  avgFillPrice : ℚ := 0
  placedTsNs : Nat := 0
  lastUpdateNs : Nat := 0
  deriving DecidableEq

structure Fill where
  orderId : Str := []
  tradeId : Str := []
  strategyId : Str := []
  instrumentToken : Nat := 0
  side : Side := .buy
  quantity : Int := 0
  price : ℚ := 0
  fillTsNs : Nat := 0
  deriving DecidableEq

/-- `quantity` signed by `side`; negative quantities are short. -/
def Side.signed (side : Side) (quantity : Int) : Int :=
  if side = .buy then quantity else -quantity

namespace Side

@[simp] theorem signed_add (side : Side) (a b : Int) :
    side.signed (a + b) = side.signed a + side.signed b := by
  cases side with
  | buy => rfl
  | sell => exact neg_add a b

@[simp] theorem signed_signed (side : Side) (a : Int) : side.signed (side.signed a) = a := by
  cases side with
  | buy => rfl
  | sell => exact neg_neg a

end Side

structure Position where
  instrumentToken : Nat := 0
  strategyId : Str := []
  quantity : Int := 0
  avgPrice : ℚ := 0
  currentPrice : ℚ := 0
  realizedPnl : ℚ := 0
  unrealizedPnl : ℚ := 0
  deriving DecidableEq

def Position.value (pos : Position) : ℚ := |pos.quantity| * pos.currentPrice

/-- `positions` is the `std::unordered_map` from instrument token to position. -/
structure PortfolioSnapshot where
  positions : Dict Nat Position := ∅
  totalRealizedPnl : ℚ := 0
  totalUnrealizedPnl : ℚ := 0
  availableCapital : ℚ := 0
  usedMargin : ℚ := 0
  snapshotTsNs : Nat := 0

namespace PortfolioSnapshot

def getPosition (snap : PortfolioSnapshot) (token : Nat) : Position :=
  (snap.positions.lookup token).getD {}

/-- The positions that the per-strategy sums of the snapshot run over. -/
def strategyPositions (snap : PortfolioSnapshot) (sid : Str) : List Position :=
  snap.positions.values.filter fun pos =>
    strncmpEq pos.strategyId sid maxStrategyLen

def strategyDailyPnl (snap : PortfolioSnapshot) (sid : Str) : ℚ :=
  ((snap.strategyPositions sid).map fun pos => pos.realizedPnl + pos.unrealizedPnl).sum

def strategyUsedCapital (snap : PortfolioSnapshot) (sid : Str) : ℚ :=
  ((snap.strategyPositions sid).map Position.value).sum

end PortfolioSnapshot

structure RiskLimits where
  maxSingleOrderValue : ℚ := 10000
  maxPositionValue : ℚ := 50000
  maxCapitalAllocation : ℚ := 50000
  maxDailyLoss : ℚ := 5000
  maxOrdersPerSecond : Int := 10

structure StrategyConfig where
  id : Str
  risk : RiskLimits := {}

structure DepthLevel where
  price : ℚ := 0
  qty : Nat := 0
  deriving DecidableEq

/-- `bid` is the best of the five levels. -/
structure NormalizedTick where
  instrumentToken : Nat
  symbol : Str := []
  ltp : ℚ := 0
  prevClose : ℚ := 0
  opened : ℚ := 0
  volume : Nat := 0
  oi : Nat := 0
  bid : DepthLevel := {}
  exchangeTsNs : Nat := 0
  recvTsNs : Nat := 0
  latencyNs : Int := 0
  isStale : Bool := false
  deriving DecidableEq

structure Candle where
  instrumentToken : Nat
  openTsNs : Nat
  closeTsNs : Nat
  intervalSec : Nat
  opened : ℚ
  high : ℚ
  low : ℚ
  close : ℚ
  volume : Nat
  oi : Nat
  deriving DecidableEq

end QuantForge
