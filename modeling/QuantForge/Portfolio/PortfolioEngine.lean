import Mathlib.Algebra.Order.Group.Unbundled.Abs
import QuantForge.Common.Types
import QuantForge.Library.Run

/-! `portfolio/portfolio_engine.cpp`: positions keyed by instrument, updated by
the fill loop, which is their only writer. -/
namespace QuantForge

open Library

structure PortfolioEngine where
  snapshot : PortfolioSnapshot
  startingCapital : ℚ

namespace PortfolioEngine

def init : PortfolioEngine where
  snapshot := { availableCapital := 100000 }
  startingCapital := 100000

end PortfolioEngine

def Fill.qtyDelta (fill : Fill) : Int := fill.side.signed fill.quantity

def Fill.cost (fill : Fill) : ℚ := fill.qtyDelta * fill.price

namespace Position

/-- A position without a token takes the token and the strategy of the fill. -/
def stamp (pos : Position) (fill : Fill) : Position :=
  if pos.instrumentToken = 0 then
    { pos with
      instrumentToken := fill.instrumentToken
      strategyId := strncpy fill.strategyId (maxStrategyLen - 1) }
  else pos

def openFrom (pos : Position) (fill : Fill) : Position :=
  { pos with quantity := fill.qtyDelta, avgPrice := fill.price }

/-- The average price is the volume-weighted one. -/
def add (pos : Position) (fill : Fill) : Position :=
  let totalValue : ℚ := |pos.quantity| * pos.avgPrice + |fill.qtyDelta| * fill.price
  let quantity := pos.quantity + fill.qtyDelta
  { pos with
    quantity
    avgPrice := if quantity ≠ 0 then totalValue / |quantity| else 0 }

def realizedBy (pos : Position) (fill : Fill) : ℚ :=
  let closeQty : Int := min |fill.qtyDelta| |pos.quantity|
  closeQty * (if fill.side = .sell then fill.price - pos.avgPrice else pos.avgPrice - fill.price)

/-- The average price is reset when the position is flat, and only then: a fill
that carries the position through zero leaves it as it was. -/
def reduce (pos : Position) (fill : Fill) : Position :=
  let quantity := pos.quantity + fill.qtyDelta
  { pos with
    realizedPnl := pos.realizedPnl + pos.realizedBy fill
    quantity
    avgPrice := if quantity = 0 then 0 else pos.avgPrice }

def Adds (pos : Position) (fill : Fill) : Prop :=
  (0 < fill.qtyDelta ∧ 0 < pos.quantity) ∨ (fill.qtyDelta < 0 ∧ pos.quantity < 0)

instance (pos : Position) (fill : Fill) : Decidable (pos.Adds fill) := by
  unfold Adds
  infer_instance

/-- The position after the fill and the profit that the fill realizes. -/
def applyFill (pos : Position) (fill : Fill) : Position × ℚ :=
  if pos.quantity = 0 then (pos.openFrom fill, 0)
  else if pos.Adds fill then (pos.add fill, 0)
  else (pos.reduce fill, pos.realizedBy fill)

/-- Mark to market; the unrealized profit is written for open positions only. -/
def markPrice (pos : Position) (price : ℚ) : Position :=
  let pos := { pos with currentPrice := price }
  if pos.quantity ≠ 0 ∧ 0 < pos.avgPrice then
    let sign : ℚ := if 0 < pos.quantity then 1 else -1
    { pos with unrealizedPnl := sign * |pos.quantity| * (price - pos.avgPrice) }
  else pos

theorem applyFill_quantity (pos : Position) (fill : Fill) :
    (pos.applyFill fill).1.quantity = pos.quantity + fill.qtyDelta := by
  unfold applyFill
  split
  · rename_i hflat
    simp [openFrom, hflat]
  · split <;> rfl

theorem markPrice_quantity (pos : Position) (price : ℚ) :
    (pos.markPrice price).quantity = pos.quantity := by
  unfold markPrice
  dsimp only
  split <;> rfl

@[simp] theorem stamp_quantity (pos : Position) (fill : Fill) :
    (pos.stamp fill).quantity = pos.quantity := by
  unfold stamp
  split <;> rfl

@[simp] theorem stamp_avgPrice (pos : Position) (fill : Fill) :
    (pos.stamp fill).avgPrice = pos.avgPrice := by
  unfold stamp
  split <;> rfl

theorem applyFill_marks (pos : Position) (fill : Fill) :
    (pos.applyFill fill).1.currentPrice = pos.currentPrice ∧
      (pos.applyFill fill).1.unrealizedPnl = pos.unrealizedPnl := by
  unfold applyFill
  split
  · exact ⟨rfl, rfl⟩
  · split <;> exact ⟨rfl, rfl⟩

theorem stamp_marks (pos : Position) (fill : Fill) :
    (pos.stamp fill).currentPrice = pos.currentPrice ∧
      (pos.stamp fill).unrealizedPnl = pos.unrealizedPnl := by
  unfold stamp
  split <;> exact ⟨rfl, rfl⟩

end Position

namespace PortfolioEngine

def getPosition (engine : PortfolioEngine) (token : Nat) : Position :=
  engine.snapshot.getPosition token

def availableCapital (engine : PortfolioEngine) : ℚ := engine.snapshot.availableCapital

def processFill (engine : PortfolioEngine) (fill : Fill) : PortfolioEngine :=
  let snap := engine.snapshot
  let pos := ((snap.positions.lookup fill.instrumentToken).getD {}).stamp fill
  let applied := pos.applyFill fill
  let fillValue : ℚ := fill.quantity * fill.price
  { engine with
    snapshot := { snap with
      positions := snap.positions.insert fill.instrumentToken applied.1
      totalRealizedPnl := snap.totalRealizedPnl + applied.2
      availableCapital :=
        if fill.side = .buy then snap.availableCapital - fillValue
        else snap.availableCapital + fillValue
      snapshotTsNs := fill.fillTsNs } }

def updatePrice (engine : PortfolioEngine) (token : Nat) (price : ℚ) : PortfolioEngine :=
  match engine.snapshot.positions.lookup token with
  | none => engine
  | some pos =>
      let positions : Dict Nat Position :=
        engine.snapshot.positions.insert token (pos.markPrice price)
      { engine with
        snapshot := { engine.snapshot with
          positions
          totalUnrealizedPnl := positions.sumBy fun _ p => p.unrealizedPnl } }

/-- Called at start-of-day to load positions from REST. -/
def loadPositions (engine : PortfolioEngine) (positions : List Position) : PortfolioEngine :=
  { engine with
    snapshot := { engine.snapshot with
      positions := positions.foldl (fun loaded p => loaded.insert p.instrumentToken p)
        engine.snapshot.positions } }

abbrev processFills (engine : PortfolioEngine) (fills : List Fill) : PortfolioEngine :=
  Run.run processFill engine fills

def target (engine : PortfolioEngine) (fill : Fill) : Position :=
  (engine.getPosition fill.instrumentToken).stamp fill

@[simp] theorem processFill_positions (engine : PortfolioEngine) (fill : Fill) :
    (engine.processFill fill).snapshot.positions =
      engine.snapshot.positions.insert fill.instrumentToken
        ((engine.target fill).applyFill fill).1 := rfl

@[simp] theorem processFill_totalRealizedPnl (engine : PortfolioEngine) (fill : Fill) :
    (engine.processFill fill).snapshot.totalRealizedPnl =
      engine.snapshot.totalRealizedPnl + ((engine.target fill).applyFill fill).2 := rfl

@[simp] theorem processFill_startingCapital (engine : PortfolioEngine) (fill : Fill) :
    (engine.processFill fill).startingCapital = engine.startingCapital := rfl

theorem processFill_availableCapital (engine : PortfolioEngine) (fill : Fill) :
    (engine.processFill fill).availableCapital =
      engine.availableCapital - fill.qtyDelta * fill.price := by
  unfold processFill availableCapital Fill.qtyDelta Side.signed
  cases hside : fill.side with
  | buy => simp
  | sell => simp

theorem processFill_getPosition (engine : PortfolioEngine) (fill : Fill) (token : Nat) :
    (engine.processFill fill).getPosition token =
      if token = fill.instrumentToken then ((engine.target fill).applyFill fill).1
      else engine.getPosition token := by
  unfold getPosition PortfolioSnapshot.getPosition
  rw [processFill_positions]
  split
  · rename_i heq
    rw [heq, AList.lookup_insert]
    rfl
  · rename_i hne
    rw [AList.lookup_insert_ne hne]

/-- What every fill does to the signed position, in all its regimes. -/
theorem processFill_quantity (engine : PortfolioEngine) (fill : Fill) (token : Nat) :
    ((engine.processFill fill).getPosition token).quantity =
      (engine.getPosition token).quantity +
        if token = fill.instrumentToken then fill.qtyDelta else 0 := by
  rw [processFill_getPosition]
  split
  · rename_i heq
    rw [Position.applyFill_quantity, target, Position.stamp_quantity, heq]
  · rw [add_zero]

theorem processFills_availableCapital (engine : PortfolioEngine) (fills : List Fill) :
    (engine.processFills fills).availableCapital =
      engine.availableCapital - (fills.map Fill.cost).sum := by
  induction fills generalizing engine with
  | nil => exact (sub_zero _).symm
  | cons fill fills ih =>
      rw [processFills, Run.run_cons, ih, processFill_availableCapital, List.map_cons,
        List.sum_cons, sub_sub]
      rfl

theorem updatePrice_quantity (engine : PortfolioEngine) (token token' : Nat) (price : ℚ) :
    ((engine.updatePrice token price).getPosition token').quantity =
      (engine.getPosition token').quantity := by
  unfold updatePrice
  cases hlookup : engine.snapshot.positions.lookup token with
  | none => rfl
  | some pos =>
      unfold getPosition PortfolioSnapshot.getPosition
      by_cases heq : token' = token
      · rw [heq, hlookup, AList.lookup_insert]
        exact pos.markPrice_quantity price
      · rw [AList.lookup_insert_ne heq]

end PortfolioEngine

end QuantForge
