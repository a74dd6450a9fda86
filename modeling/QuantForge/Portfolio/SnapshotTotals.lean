import QuantForge.Portfolio.MarkToMarket

/-! The totals of the snapshot against the positions that they sum up. A fill adds to the
realized total what it adds to its position, a mark sums the unrealized total again, and
`load_positions` overwrites positions without a look at either. -/
namespace QuantForge

open Library

theorem Position.stamp_realizedPnl (pos : Position) (fill : Fill) :
    (pos.stamp fill).realizedPnl = pos.realizedPnl := by
  unfold stamp
  split <;> rfl

theorem Position.applyFill_realizedPnl (pos : Position) (fill : Fill) :
    (pos.applyFill fill).1.realizedPnl = pos.realizedPnl + (pos.applyFill fill).2 := by
  unfold applyFill
  split
  · exact (add_zero _).symm
  · split
    · exact (add_zero _).symm
    · rfl

theorem Position.markPrice_realizedPnl (pos : Position) (price : ℚ) :
    (pos.markPrice price).realizedPnl = pos.realizedPnl := by
  unfold markPrice
  dsimp only
  split <;> rfl

def loadedProfit : Dict Nat Position → List Position → ℚ
  | _, [] => 0
  | stored, p :: positions =>
      p.realizedPnl - (stored.lookup p.instrumentToken).elim 0 Position.realizedPnl +
        loadedProfit (stored.insert p.instrumentToken p) positions

namespace PortfolioEngine

def realizedSum (engine : PortfolioEngine) : ℚ :=
  engine.snapshot.positions.sumBy fun _ pos => pos.realizedPnl

def RealizedTotal (engine : PortfolioEngine) : Prop :=
  engine.snapshot.totalRealizedPnl = engine.realizedSum

structure TotalsAfter (engine : PortfolioEngine) (call : PortfolioCall) : Prop where
  realized : (engine.apply call).RealizedTotal
  unrealized : ∀ token price, call = .updatePrice token price →
    (engine.snapshot.positions.lookup token).isSome → (engine.apply call).UnrealizedTotal

/-- A load brings in the realized profit that it overwrites. -/
def KeepsRealized (engine : PortfolioEngine) : PortfolioCall → Prop
  | .loadPositions positions => loadedProfit engine.snapshot.positions positions = 0
  | _ => True

theorem realizedSum_processFill (engine : PortfolioEngine) (fill : Fill) :
    (engine.processFill fill).realizedSum =
      engine.realizedSum + ((engine.target fill).applyFill fill).2 := by
  have hsum := Dict.sumBy_insert_add_old (fun (_ : Nat) (pos : Position) => pos.realizedPnl)
    engine.snapshot.positions fill.instrumentToken ((engine.target fill).applyFill fill).1
  have hold : (engine.snapshot.positions.lookup fill.instrumentToken).elim 0
      (fun pos => pos.realizedPnl) = (engine.target fill).realizedPnl := by
    unfold target getPosition PortfolioSnapshot.getPosition
    rw [Position.stamp_realizedPnl]
    cases engine.snapshot.positions.lookup fill.instrumentToken with
    | none => rfl
    | some pos => rfl
  rw [hold, Position.applyFill_realizedPnl] at hsum
  rw [realizedSum, processFill_positions, realizedSum]
  linarith

theorem realizedSum_updatePrice (engine : PortfolioEngine) (token : Nat) (price : ℚ) :
    (engine.updatePrice token price).realizedSum = engine.realizedSum := by
  unfold updatePrice
  cases hlookup : engine.snapshot.positions.lookup token with
  | none => rfl
  | some pos =>
      have hsum := Dict.sumBy_insert_add_old (fun (_ : Nat) (pos : Position) => pos.realizedPnl)
        engine.snapshot.positions token (pos.markPrice price)
      rw [hlookup, Option.elim_some, pos.markPrice_realizedPnl] at hsum
      exact add_right_cancel hsum

private theorem sumBy_foldl_insert (stored : Dict Nat Position) (positions : List Position) :
    (positions.foldl (fun loaded p => loaded.insert p.instrumentToken p) stored).sumBy
        (fun _ pos => pos.realizedPnl) =
      (stored.sumBy fun _ pos => pos.realizedPnl) + loadedProfit stored positions := by
  induction positions generalizing stored with
  | nil => exact (add_zero _).symm
  | cons p positions ih =>
      have hsum := Dict.sumBy_insert_add_old (fun (_ : Nat) (pos : Position) => pos.realizedPnl)
        stored p.instrumentToken p
      rw [List.foldl_cons, ih, loadedProfit]
      linarith

theorem realizedSum_loadPositions (engine : PortfolioEngine) (positions : List Position) :
    (engine.loadPositions positions).realizedSum =
      engine.realizedSum + loadedProfit engine.snapshot.positions positions :=
  sumBy_foldl_insert engine.snapshot.positions positions

theorem loadPositions_totals (engine : PortfolioEngine) (positions : List Position) :
    (engine.loadPositions positions).snapshot.totalRealizedPnl =
        engine.snapshot.totalRealizedPnl ∧
      (engine.loadPositions positions).snapshot.totalUnrealizedPnl =
        engine.snapshot.totalUnrealizedPnl :=
  ⟨rfl, rfl⟩

theorem updatePrice_totalRealizedPnl (engine : PortfolioEngine) (token : Nat) (price : ℚ) :
    (engine.updatePrice token price).snapshot.totalRealizedPnl =
      engine.snapshot.totalRealizedPnl := by
  unfold updatePrice
  split <;> rfl

theorem realizedTotal_apply_iff {engine : PortfolioEngine} (h : engine.RealizedTotal)
    (call : PortfolioCall) : (engine.apply call).RealizedTotal ↔ engine.KeepsRealized call := by
  unfold RealizedTotal at h ⊢
  cases call with
  | processFill fill =>
      refine iff_of_true ?_ trivial
      rw [apply, realizedSum_processFill, processFill_totalRealizedPnl, h]
  | updatePrice token price =>
      refine iff_of_true ?_ trivial
      rw [apply, realizedSum_updatePrice, updatePrice_totalRealizedPnl, h]
  | loadPositions positions =>
      rw [apply, realizedSum_loadPositions, (engine.loadPositions_totals positions).1, h,
        left_eq_add]
      rfl

theorem totalsAfter_iff {engine : PortfolioEngine} (h : engine.RealizedTotal)
    (call : PortfolioCall) : engine.TotalsAfter call ↔ engine.KeepsRealized call := by
  refine ⟨fun htotals => (realizedTotal_apply_iff h call).mp htotals.realized, fun hkeeps =>
    ⟨(realizedTotal_apply_iff h call).mpr hkeeps, ?_⟩⟩
  rintro token price rfl hknown
  exact updatePrice_unrealizedTotal hknown price

/-- Over every run of the three calls, the totals are the sums of their parts after each call
exactly when every load brings in the realized profit of the records that it overwrites. -/
theorem snapshot_totals_iff (calls : List PortfolioCall) :
    Run.Along apply TotalsAfter init calls ↔ Run.Along apply KeepsRealized init calls := by
  refine Run.along_iff_along RealizedTotal (fun engine call h hkeeps => ?_)
    (fun engine call h => totalsAfter_iff h call) rfl
  exact (realizedTotal_apply_iff h call).mpr hkeeps

/-- A position comes back from the broker with the fifty that it realized: no total has them. -/
theorem loaded_profit_is_not_counted :
    let loaded : Position := { instrumentToken := 1, realizedPnl := 50 }
    ¬Run.Along apply TotalsAfter init [.loadPositions [loaded]] := by
  intro loaded
  rintro ⟨⟨hrealized, -⟩, -⟩
  revert hrealized
  unfold RealizedTotal
  decide +kernel

end PortfolioEngine

end QuantForge
