import QuantForge.Portfolio.Accounting

/-! The snapshot under the calls that write it: the price feed marks the positions, the fill
loop moves them, the start of day loads them. The two totals are kept in two ways, one added
to by every fill, one summed again by every mark. -/
namespace QuantForge

open Library

inductive PortfolioCall where
  | processFill (fill : Fill)
  | updatePrice (token : Nat) (price : ℚ)
  | loadPositions (positions : List Position)

def PortfolioCall.Traded : PortfolioCall → Prop
  | processFill fill => 0 < fill.price
  | updatePrice _ price => 0 < price
  | loadPositions _ => False

namespace Position

def Priced (pos : Position) : Prop := pos.quantity ≠ 0 → 0 < pos.avgPrice

def gainAt (pos : Position) (price : ℚ) : ℚ := pos.quantity * (price - pos.avgPrice)

theorem add_avgPrice_pos {pos : Position} {fill : Fill} (hadds : pos.Adds fill)
    (havg : 0 < pos.avgPrice) (hprice : 0 < fill.price) : 0 < (pos.add fill).avgPrice := by
  have hne : pos.quantity + fill.qtyDelta ≠ 0 := by
    rcases hadds with ⟨hd, hq⟩ | ⟨hd, hq⟩ <;> omega
  have hq : pos.quantity ≠ 0 := by
    rcases hadds with ⟨hd, hq⟩ | ⟨hd, hq⟩ <;> omega
  have hqRat : (0 : ℚ) < |(pos.quantity : ℚ)| := abs_pos.mpr (Int.cast_ne_zero.mpr hq)
  have hneRat : (0 : ℚ) < |((pos.quantity + fill.qtyDelta : Int) : ℚ)| :=
    abs_pos.mpr (Int.cast_ne_zero.mpr hne)
  have hvalue := add_pos_of_pos_of_nonneg (mul_pos hqRat havg)
    (mul_nonneg (abs_nonneg (fill.qtyDelta : ℚ)) hprice.le)
  simp only [add, hne, ne_eq, not_false_eq_true, ↓reduceIte, Int.cast_abs]
  exact div_pos hvalue hneRat

theorem Priced.applyFill {pos : Position} (h : pos.Priced) {fill : Fill}
    (hprice : 0 < fill.price) : (pos.applyFill fill).1.Priced := by
  unfold Position.applyFill
  by_cases hflat : pos.quantity = 0
  · rw [if_pos hflat]
    exact fun _ => hprice
  rw [if_neg hflat]
  by_cases hadds : pos.Adds fill
  · rw [if_pos hadds]
    exact fun _ => add_avgPrice_pos hadds (h hflat) hprice
  · rw [if_neg hadds]
    intro hopen
    change pos.quantity + fill.qtyDelta ≠ 0 at hopen
    simp only [reduce, if_neg hopen]
    exact h hflat

theorem Priced.stamp {pos : Position} (h : pos.Priced) (fill : Fill) : (pos.stamp fill).Priced := by
  unfold Priced
  rw [stamp_quantity, stamp_avgPrice]
  exact h

theorem markPrice_avgPrice (pos : Position) (price : ℚ) :
    (pos.markPrice price).avgPrice = pos.avgPrice := by
  unfold markPrice
  dsimp only
  split <;> rfl

theorem Priced.markPrice {pos : Position} (h : pos.Priced) (price : ℚ) :
    (pos.markPrice price).Priced := by
  unfold Priced
  rw [markPrice_quantity, markPrice_avgPrice]
  exact h

private theorem sign_mul_abs (quantity : Int) :
    (if 0 < quantity then (1 : ℚ) else -1) * |quantity| = quantity := by
  by_cases hpos : 0 < quantity
  · rw [if_pos hpos, abs_of_pos hpos, one_mul]
  · rw [if_neg hpos, abs_of_nonpos (not_lt.mp hpos)]
    push_cast
    ring

theorem markPrice_unrealizedPnl {pos : Position} (h : pos.Priced) (price : ℚ) :
    (pos.markPrice price).unrealizedPnl =
      if pos.quantity ≠ 0 then pos.gainAt price else pos.unrealizedPnl := by
  unfold markPrice
  by_cases hopen : pos.quantity ≠ 0
  · rw [if_pos hopen]
    simp only [and_true, hopen, h hopen, ne_eq, not_false_eq_true, ↓reduceIte]
    rw [sign_mul_abs, gainAt]
  · rw [if_neg hopen]
    simp only [hopen, false_and, ↓reduceIte]

end Position

namespace PortfolioEngine

def apply (engine : PortfolioEngine) : PortfolioCall → PortfolioEngine
  | .processFill fill => engine.processFill fill
  | .updatePrice token price => engine.updatePrice token price
  | .loadPositions positions => engine.loadPositions positions

def Priced (engine : PortfolioEngine) : Prop := ∀ token, (engine.getPosition token).Priced

theorem updatePrice_getPosition (engine : PortfolioEngine) (token token' : Nat) (price : ℚ) :
    (engine.updatePrice token price).getPosition token' =
      if token' = token ∧ (engine.snapshot.positions.lookup token).isSome then
        (engine.getPosition token).markPrice price
      else engine.getPosition token' := by
  unfold updatePrice getPosition PortfolioSnapshot.getPosition
  cases hlookup : engine.snapshot.positions.lookup token with
  | none => simp
  | some pos =>
      by_cases heq : token' = token
      · subst heq
        simp [AList.lookup_insert]
      · simp [heq, AList.lookup_insert_ne heq]

theorem priced_init : init.Priced := by
  intro token hopen
  simp [init, getPosition, PortfolioSnapshot.getPosition] at hopen

theorem priced_apply (engine : PortfolioEngine) (call : PortfolioCall) (h : engine.Priced)
    (hcall : call.Traded) : (engine.apply call).Priced := by
  cases call with
  | processFill fill =>
      intro token
      change ((engine.processFill fill).getPosition token).Priced
      rw [processFill_getPosition]
      split
      · exact ((h _).stamp fill).applyFill hcall
      · exact h token
  | updatePrice token price =>
      intro token'
      change ((engine.updatePrice token price).getPosition token').Priced
      rw [updatePrice_getPosition]
      split
      · exact (h token).markPrice price
      · exact h token'
  | loadPositions positions => exact hcall.elim

def openMark (token : Nat) (engine : PortfolioEngine) : PortfolioCall → Option ℚ
  | .updatePrice token' price =>
      if token' = token ∧ (engine.getPosition token).quantity ≠ 0 then
        some ((engine.getPosition token).gainAt price)
      else none
  | _ => none

abbrev openMarks (token : Nat) (calls : List PortfolioCall) : List ℚ :=
  Run.settings apply (openMark token) init calls

theorem apply_unrealizedPnl (token : Nat) (engine : PortfolioEngine) (call : PortfolioCall)
    (h : engine.Priced) (hcall : call.Traded) :
    ((engine.apply call).getPosition token).unrealizedPnl =
      (openMark token engine call).getD (engine.getPosition token).unrealizedPnl := by
  cases call with
  | processFill fill =>
      change ((engine.processFill fill).getPosition token).unrealizedPnl = _
      rw [processFill_getPosition]
      split
      · rename_i heq
        subst heq
        exact ((engine.target fill).applyFill_marks fill).2.trans
          ((engine.getPosition fill.instrumentToken).stamp_marks fill).2
      · rfl
  | updatePrice token' price =>
      change ((engine.updatePrice token' price).getPosition token).unrealizedPnl = _
      rw [updatePrice_getPosition, openMark]
      by_cases heq : token = token'
      · subst heq
        by_cases hknown : (engine.snapshot.positions.lookup token).isSome
        · rw [if_pos ⟨rfl, hknown⟩, Position.markPrice_unrealizedPnl (h token)]
          by_cases hopen : (engine.getPosition token).quantity ≠ 0
          · rw [if_pos hopen, if_pos ⟨rfl, hopen⟩]
            rfl
          · rw [if_neg hopen, if_neg fun hboth => hopen hboth.2]
            rfl
        · have hflat : (engine.getPosition token).quantity = 0 := by
            unfold getPosition PortfolioSnapshot.getPosition
            rw [Option.not_isSome_iff_eq_none.mp hknown]
            rfl
          rw [if_neg fun hboth => hknown hboth.2, if_neg fun hboth => hboth.2 hflat]
          rfl
      · rw [if_neg fun hboth => heq hboth.1, if_neg fun hboth => heq hboth.1.symm]
        rfl
  | loadPositions positions => exact hcall.elim

theorem unrealizedPnl_eq_lastMark {calls : List PortfolioCall}
    (hcalls : ∀ call ∈ calls, call.Traded) (token : Nat) :
    ((Run.run apply init calls).getPosition token).unrealizedPnl =
      (openMarks token calls).getLast?.getD 0 :=
  Run.run_lastSetting (fun engine => (engine.getPosition token).unrealizedPnl) (openMark token)
    Priced priced_apply (apply_unrealizedPnl token) priced_init hcalls

theorem priced_run {calls : List PortfolioCall} (hcalls : ∀ call ∈ calls, call.Traded) :
    (Run.run apply init calls).Priced :=
  Run.run_of_forall Priced priced_apply priced_init hcalls

def UnrealizedTotal (engine : PortfolioEngine) : Prop :=
  engine.snapshot.totalUnrealizedPnl =
    engine.snapshot.positions.sumBy fun _ pos => pos.unrealizedPnl

def MarkedToMarket (engine : PortfolioEngine) (token : Nat) (price : ℚ) : Prop :=
  (engine.getPosition token).unrealizedPnl = (engine.getPosition token).gainAt price ∧
    engine.UnrealizedTotal

theorem updatePrice_unrealizedTotal {engine : PortfolioEngine} {token : Nat}
    (hknown : (engine.snapshot.positions.lookup token).isSome) (price : ℚ) :
    (engine.updatePrice token price).UnrealizedTotal := by
  obtain ⟨pos, hlookup⟩ := Option.isSome_iff_exists.mp hknown
  unfold updatePrice UnrealizedTotal
  rw [hlookup]

end PortfolioEngine

end QuantForge
