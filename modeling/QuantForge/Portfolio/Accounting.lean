import Mathlib.Tactic.FieldSimp
import Mathlib.Tactic.Linarith
import Mathlib.Tactic.Ring
import QuantForge.Portfolio.PortfolioEngine

/-! The accounting identity of the portfolio: cash, plus open positions at their
average price, less realized profit, is the starting capital. Each fill is
charged with what it adds to the left side. -/
namespace QuantForge

open Library

namespace Position

def bookValue (pos : Position) : ℚ := pos.quantity * pos.avgPrice

/-- The fill opposes the position and is larger: it carries it through zero. -/
def CrossedBy (pos : Position) (fill : Fill) : Prop :=
  pos.quantity * fill.qtyDelta < 0 ∧ |pos.quantity| < |fill.qtyDelta|

instance (pos : Position) (fill : Fill) : Decidable (pos.CrossedBy fill) := by
  unfold CrossedBy
  infer_instance

def residue (pos : Position) (fill : Fill) : ℚ :=
  (pos.applyFill fill).1.bookValue - pos.bookValue - (pos.applyFill fill).2 -
    fill.qtyDelta * fill.price

theorem residue_open {pos : Position} (hflat : pos.quantity = 0) (fill : Fill) :
    pos.residue fill = 0 := by
  simp [residue, applyFill, hflat, openFrom, bookValue]

theorem add_bookValue {pos : Position} {fill : Fill} (hadds : pos.Adds fill) :
    (pos.add fill).bookValue = pos.bookValue + fill.qtyDelta * fill.price := by
  have hne : pos.quantity + fill.qtyDelta ≠ 0 := by
    rcases hadds with ⟨hd, hq⟩ | ⟨hd, hq⟩ <;> omega
  have hneRat : (pos.quantity : ℚ) + fill.qtyDelta ≠ 0 := by exact_mod_cast hne
  unfold bookValue add
  simp only [hne, ne_eq, not_false_eq_true, ↓reduceIte, Int.cast_abs, Int.cast_add]
  rcases hadds with ⟨hd, hq⟩ | ⟨hd, hq⟩
  · have hdRat : (0 : ℚ) < fill.qtyDelta := by exact_mod_cast hd
    have hqRat : (0 : ℚ) < pos.quantity := by exact_mod_cast hq
    rw [abs_of_pos hdRat, abs_of_pos hqRat, abs_of_pos (add_pos hqRat hdRat)]
    field_simp
  · have hdRat : (fill.qtyDelta : ℚ) < 0 := by exact_mod_cast hd
    have hqRat : (pos.quantity : ℚ) < 0 := by exact_mod_cast hq
    rw [abs_of_neg hdRat, abs_of_neg hqRat, abs_of_neg (add_neg hqRat hdRat)]
    field_simp
    ring

theorem residue_add {pos : Position} {fill : Fill} (hopen : pos.quantity ≠ 0)
    (hadds : pos.Adds fill) : pos.residue fill = 0 := by
  rw [residue, applyFill, if_neg hopen, if_pos hadds, add_bookValue hadds]
  ring

theorem reduce_bookValue (pos : Position) (fill : Fill) :
    (pos.reduce fill).bookValue = pos.bookValue + fill.qtyDelta * pos.avgPrice := by
  unfold bookValue reduce
  by_cases hzero : pos.quantity + fill.qtyDelta = 0
  · have hzeroRat : (pos.quantity : ℚ) + fill.qtyDelta = 0 := by exact_mod_cast hzero
    simp only [hzero, ↓reduceIte, mul_zero]
    rw [← add_mul, hzeroRat, zero_mul]
  · simp only [hzero, ↓reduceIte, Int.cast_add]
    ring

theorem realizedBy_eq {pos : Position} {fill : Fill} (hpos : 0 < fill.quantity)
    (hopposed : pos.quantity * fill.qtyDelta < 0) :
    pos.realizedBy fill =
      (if pos.CrossedBy fill then (pos.quantity : ℚ) else -fill.qtyDelta) *
        (fill.price - pos.avgPrice) := by
  have hcrossed : pos.CrossedBy fill ↔ |pos.quantity| < |fill.qtyDelta| :=
    ⟨And.right, And.intro hopposed⟩
  unfold realizedBy
  cases hside : fill.side with
  | buy =>
      have hd : fill.qtyDelta = fill.quantity := by simp [Fill.qtyDelta, Side.signed, hside]
      have hq : pos.quantity < 0 := by
        rw [hd] at hopposed
        exact neg_of_mul_neg_left hopposed hpos.le
      rw [hd, abs_of_pos hpos, abs_of_neg hq] at hcrossed ⊢
      by_cases hlt : -pos.quantity < fill.quantity
      · rw [if_pos (hcrossed.mpr hlt), min_eq_right hlt.le]
        simp
        ring
      · rw [if_neg (mt hcrossed.mp hlt), min_eq_left (not_lt.mp hlt)]
        simp
        ring
  | sell =>
      have hd : fill.qtyDelta = -fill.quantity := by simp [Fill.qtyDelta, Side.signed, hside]
      have hq : 0 < pos.quantity := by
        rw [hd] at hopposed
        nlinarith
      rw [hd, abs_neg, abs_of_pos hpos, abs_of_pos hq] at hcrossed ⊢
      by_cases hlt : pos.quantity < fill.quantity
      · rw [if_pos (hcrossed.mpr hlt), min_eq_right hlt.le]
        simp
      · rw [if_neg (mt hcrossed.mp hlt), min_eq_left (not_lt.mp hlt)]
        simp

theorem opposed_of_not_adds {pos : Position} {fill : Fill} (hpos : 0 < fill.quantity)
    (hopen : pos.quantity ≠ 0) (hadds : ¬pos.Adds fill) : pos.quantity * fill.qtyDelta < 0 := by
  have hd : fill.qtyDelta ≠ 0 := by
    unfold Fill.qtyDelta Side.signed
    split <;> omega
  unfold Adds at hadds
  rcases lt_or_gt_of_ne hopen with hq | hq <;> rcases lt_or_gt_of_ne hd with hd | hd
  · exact absurd (Or.inr ⟨hd, hq⟩) hadds
  · exact mul_neg_of_neg_of_pos hq hd
  · exact mul_neg_of_pos_of_neg hq hd
  · exact absurd (Or.inl ⟨hd, hq⟩) hadds

/-- A fill leaves the identity as it was unless it crosses zero; then the part
beyond zero is booked at the old average price instead of the price paid. -/
theorem residue_eq {pos : Position} {fill : Fill} (hpos : 0 < fill.quantity) :
    pos.residue fill =
      if pos.CrossedBy fill then
        ((pos.quantity + fill.qtyDelta : Int) : ℚ) * (pos.avgPrice - fill.price)
      else 0 := by
  by_cases hflat : pos.quantity = 0
  · rw [residue_open hflat, if_neg]
    simp [CrossedBy, hflat]
  by_cases hadds : pos.Adds fill
  · rw [residue_add hflat hadds, if_neg]
    rintro ⟨hopposed, -⟩
    rcases hadds with ⟨hd, hq⟩ | ⟨hd, hq⟩ <;> nlinarith
  have hopposed := opposed_of_not_adds hpos hflat hadds
  rw [residue, applyFill, if_neg hflat, if_neg hadds, reduce_bookValue,
    realizedBy_eq hpos hopposed]
  split
  · push_cast
    ring
  · ring

theorem residue_eq_zero_iff {pos : Position} {fill : Fill} (hpos : 0 < fill.quantity) :
    pos.residue fill = 0 ↔ (pos.CrossedBy fill → fill.price = pos.avgPrice) := by
  rw [residue_eq hpos]
  split
  · rename_i hcrossed
    have hne : pos.quantity + fill.qtyDelta ≠ 0 := by
      intro hzero
      have hneg : fill.qtyDelta = -pos.quantity := by omega
      have habs := hcrossed.2
      rw [hneg, abs_neg] at habs
      exact lt_irrefl _ habs
    have hneRat : ((pos.quantity + fill.qtyDelta : Int) : ℚ) ≠ 0 := by exact_mod_cast hne
    rw [mul_eq_zero, or_iff_right hneRat, sub_eq_zero]
    exact ⟨fun h _ => h.symm, fun h => (h hcrossed).symm⟩
  · rename_i hcrossed
    exact ⟨fun _ h => absurd h hcrossed, fun _ => rfl⟩

@[simp] theorem residue_stamp (pos : Position) (fill other : Fill) :
    (pos.stamp other).residue fill = pos.residue fill := by
  have hadds : (pos.stamp other).Adds fill ↔ pos.Adds fill := by simp [Adds]
  unfold residue applyFill bookValue
  simp only [stamp_quantity, stamp_avgPrice, hadds]
  split
  · rfl
  · split <;> simp [add, reduce, realizedBy]

end Position

namespace PortfolioEngine

def netCapital (engine : PortfolioEngine) : ℚ :=
  engine.availableCapital + (engine.snapshot.positions.sumBy fun _ pos => pos.bookValue) -
    engine.snapshot.totalRealizedPnl

/-- The accounting identity. -/
def Balanced (engine : PortfolioEngine) : Prop := engine.netCapital = engine.startingCapital

/-- The fill does not carry its position through zero, unless at the average price. -/
def NoRepricedCross (engine : PortfolioEngine) (fill : Fill) : Prop :=
  (engine.getPosition fill.instrumentToken).CrossedBy fill →
    fill.price = (engine.getPosition fill.instrumentToken).avgPrice

theorem processFill_netCapital (engine : PortfolioEngine) (fill : Fill) :
    (engine.processFill fill).netCapital =
      engine.netCapital + (engine.getPosition fill.instrumentToken).residue fill := by
  have hsum := Dict.sumBy_insert_add_old (fun (_ : Nat) (pos : Position) => pos.bookValue)
    engine.snapshot.positions fill.instrumentToken ((engine.target fill).applyFill fill).1
  have hold : (engine.snapshot.positions.lookup fill.instrumentToken).elim 0
      (fun pos => pos.bookValue) = (engine.target fill).bookValue := by
    unfold target getPosition PortfolioSnapshot.getPosition Position.bookValue
    rw [Position.stamp_quantity, Position.stamp_avgPrice]
    cases engine.snapshot.positions.lookup fill.instrumentToken with
    | none => simp
    | some pos => rfl
  rw [hold] at hsum
  have hresidue : (engine.getPosition fill.instrumentToken).residue fill =
      (engine.target fill).residue fill := (Position.residue_stamp _ _ _).symm
  rw [hresidue, netCapital, netCapital, processFill_availableCapital, processFill_positions,
    processFill_totalRealizedPnl, Position.residue]
  linarith

theorem balanced_init : init.Balanced := by
  simp [Balanced, netCapital, availableCapital, init]

theorem balanced_processFill_iff {engine : PortfolioEngine} (hbalanced : engine.Balanced)
    {fill : Fill} (hpos : 0 < fill.quantity) :
    (engine.processFill fill).Balanced ↔ engine.NoRepricedCross fill := by
  rw [Balanced, processFill_netCapital, processFill_startingCapital, hbalanced, add_eq_left]
  exact Position.residue_eq_zero_iff hpos

/-- After every fill of a run the identity holds, if and only if no fill of the
run carries a position through zero at another price than its average price. -/
theorem accounting_identity_iff (fills : List Fill) (hpos : ∀ fill ∈ fills, 0 < fill.quantity) :
    (∀ k, (processFills init (fills.take k)).Balanced) ↔
      Run.Along processFill NoRepricedCross init fills := by
  rw [← Run.always_iff_take]
  refine Run.always_iff_along (fun _ => True) (fun _ fill => 0 < fill.quantity)
    (fun _ _ _ _ _ => trivial) (fun _ _ _ hbalanced hfill => ?_) ?_ trivial balanced_init
  · exact balanced_processFill_iff hbalanced hfill
  · exact Run.along_of_forall processFill (fun fill => 0 < fill.quantity)
      (fun _ _ h => h) init hpos

theorem accounting_identity_round_trip :
    let fills : List Fill :=
      [{ instrumentToken := 1, side := .buy, quantity := 10, price := 100 },
       { instrumentToken := 1, side := .buy, quantity := 10, price := 110 },
       { instrumentToken := 1, side := .sell, quantity := 5, price := 120 },
       { instrumentToken := 1, side := .sell, quantity := 30, price := 105 }]
    (processFills init (fills.take 4)).Balanced := by
  intro fills
  refine (accounting_identity_iff fills (by decide)).mpr ⟨?_, ?_, ?_, ?_, trivial⟩ 4 <;>
    · unfold NoRepricedCross
      decide +kernel

/-- Ten bought at 100, fifteen sold at 110: the five that are short are booked at
100, and the identity is off by fifty from then on. -/
theorem crossing_fill_unbalances :
    let fills : List Fill :=
      [{ instrumentToken := 1, side := .buy, quantity := 10, price := 100 },
       { instrumentToken := 1, side := .sell, quantity := 15, price := 110 }]
    (∀ fill ∈ fills, 0 < fill.quantity ∧ 0 < fill.price) ∧
      ¬(processFills init (fills.take 2)).Balanced := by
  refine ⟨by decide +kernel, ?_⟩
  unfold Balanced
  decide +kernel

end PortfolioEngine

end QuantForge
