import QuantForge.Portfolio.PortfolioEngine

/-! Positions belong to the strategy whose fill created them. When no instrument
is shared, the positions that the risk gate reads for a strategy are those of the
run with that strategy's fills alone: the run projects entry by entry. -/
namespace QuantForge

open Library

/-- The fill's strategy id, as a position stores it, is compared as the snapshot does. -/
def Fill.ownedBy (fill : Fill) (sid : Str) : Bool :=
  strncmpEq (strncpy fill.strategyId (maxStrategyLen - 1)) sid maxStrategyLen

def Position.ownedBy (pos : Position) (sid : Str) : Bool :=
  strncmpEq pos.strategyId sid maxStrategyLen

def PortfolioSnapshot.strategyRealizedPnl (snap : PortfolioSnapshot) (sid : Str) : ℚ :=
  ((snap.strategyPositions sid).map Position.realizedPnl).sum

/-- Nobody else fills an instrument that `sid` fills. -/
def SoleTrader (sid : Str) (fills : List Fill) : Prop :=
  ∀ fill ∈ fills, ∀ other ∈ fills, fill.instrumentToken = other.instrumentToken →
    fill.ownedBy sid = other.ownedBy sid

theorem Position.applyFill_strategyId (pos : Position) (fill : Fill) :
    (pos.applyFill fill).1.strategyId = pos.strategyId := by
  unfold applyFill
  split
  · rfl
  · split <;> rfl

namespace PortfolioEngine

section Projection

variable (sid : Str) (traded : Nat → Bool)

def Attributed (engine : PortfolioEngine) : Prop :=
  ∀ token pos, engine.snapshot.positions.lookup token = some pos →
    pos.ownedBy sid = traded token

def ProjectsTo (full alone : PortfolioEngine) : Prop :=
  Dict.select traded full.snapshot.positions = alone.snapshot.positions.entries

variable {sid traded} {engine full alone : PortfolioEngine} {fill : Fill}

theorem target_ownedBy (hengine : Attributed sid traded engine)
    (hfill : fill.ownedBy sid = traded fill.instrumentToken) :
    (engine.target fill).ownedBy sid = traded fill.instrumentToken := by
  unfold target Position.stamp
  split
  · exact hfill
  · rename_i hstored
    -- only a stored position has a token already
    cases hlookup : engine.snapshot.positions.lookup fill.instrumentToken with
    | none => simp [getPosition, PortfolioSnapshot.getPosition, hlookup] at hstored
    | some pos =>
        simp only [getPosition, PortfolioSnapshot.getPosition, hlookup, Option.getD_some]
        exact hengine _ pos hlookup

theorem attributed_processFill (hengine : Attributed sid traded engine)
    (hfill : fill.ownedBy sid = traded fill.instrumentToken) :
    Attributed sid traded (engine.processFill fill) := by
  intro token pos hpos
  rw [processFill_positions] at hpos
  by_cases heq : token = fill.instrumentToken
  · subst heq
    rw [AList.lookup_insert] at hpos
    cases hpos
    rw [Position.ownedBy, Position.applyFill_strategyId]
    exact target_ownedBy hengine hfill
  · rw [AList.lookup_insert_ne heq] at hpos
    exact hengine token pos hpos

theorem projectsTo_target (hprojects : ProjectsTo traded full alone)
    (htraded : traded fill.instrumentToken = true) : full.target fill = alone.target fill := by
  have hlookup : full.snapshot.positions.lookup fill.instrumentToken =
      alone.snapshot.positions.lookup fill.instrumentToken := by
    rw [← Dict.dlookup_select traded htraded, hprojects]
    rfl
  simp only [target, getPosition, PortfolioSnapshot.getPosition, hlookup]

theorem projectsTo_own (hprojects : ProjectsTo traded full alone)
    (htraded : traded fill.instrumentToken = true) :
    ProjectsTo traded (full.processFill fill) (alone.processFill fill) := by
  rw [ProjectsTo, processFill_positions, processFill_positions,
    Dict.select_insert_pos traded _ htraded, hprojects, projectsTo_target hprojects htraded]
  rfl

theorem projectsTo_other (hprojects : ProjectsTo traded full alone)
    (htraded : traded fill.instrumentToken = false) :
    ProjectsTo traded (full.processFill fill) alone := by
  rw [ProjectsTo, processFill_positions, Dict.select_insert_neg traded _ htraded]
  exact hprojects

theorem projectsTo_processFills (fills : List Fill)
    (hfills : ∀ fill ∈ fills, fill.ownedBy sid = traded fill.instrumentToken)
    (hfull : Attributed sid traded full) (hprojects : ProjectsTo traded full alone) :
    Attributed sid traded (processFills full fills) ∧
      ProjectsTo traded (processFills full fills)
        (processFills alone (fills.filter fun fill => fill.ownedBy sid)) := by
  induction fills generalizing full alone with
  | nil => exact ⟨hfull, hprojects⟩
  | cons fill fills ih =>
      have hfill := hfills fill (by simp)
      have htail : ∀ fill ∈ fills, fill.ownedBy sid = traded fill.instrumentToken :=
        fun fill hmem => hfills fill (by simp [hmem])
      have hnext := attributed_processFill hfull hfill
      cases hown : fill.ownedBy sid with
      | true =>
          rw [List.filter_cons_of_pos (by exact hown)]
          exact ih htail hnext (projectsTo_own hprojects (hfill ▸ hown))
      | false =>
          rw [List.filter_cons_of_neg (by simp [hown])]
          exact ih htail hnext (projectsTo_other hprojects (hfill ▸ hown))

theorem strategyPositions_of_attributed (hengine : Attributed sid traded engine) :
    engine.snapshot.strategyPositions sid =
      (Dict.select traded engine.snapshot.positions).map Sigma.snd := by
  unfold PortfolioSnapshot.strategyPositions Dict.values Dict.select
  rw [List.filter_map]
  congr 1
  apply List.filter_congr
  intro entry hentry
  exact hengine entry.1 entry.2 (Dict.lookup_of_mem hentry)

theorem attributed_of_projectsTo (hfull : Attributed sid traded full)
    (hprojects : ProjectsTo traded full alone) :
    alone.snapshot.strategyPositions sid = alone.snapshot.positions.values := by
  unfold PortfolioSnapshot.strategyPositions Dict.values
  rw [List.filter_eq_self]
  intro pos hpos
  obtain ⟨entry, hentry, rfl⟩ := List.mem_map.mp hpos
  rw [← hprojects] at hentry
  obtain ⟨hmem, htraded⟩ := List.mem_filter.mp hentry
  exact (hfull entry.1 entry.2 (Dict.lookup_of_mem hmem)).trans htraded

end Projection

/-- In a run in which `sid` shares no instrument, the positions counted for `sid`,
and with them its realized profit and its used capital, are after every fill
those of the run with the fills of `sid` alone. -/
theorem strategy_accounting_isolated (sid : Str) (fills : List Fill)
    (hsole : SoleTrader sid fills) (k : Nat) :
    let full := (processFills init (fills.take k)).snapshot
    let alone := (processFills init ((fills.take k).filter fun fill => fill.ownedBy sid)).snapshot
    full.strategyPositions sid = alone.strategyPositions sid ∧
      full.strategyRealizedPnl sid = alone.strategyRealizedPnl sid ∧
      full.strategyUsedCapital sid = alone.strategyUsedCapital sid := by
  intro full alone
  let traded : Nat → Bool := fun token =>
    fills.any fun fill => fill.instrumentToken == token && fill.ownedBy sid
  have htraded : ∀ fill ∈ fills.take k, fill.ownedBy sid = traded fill.instrumentToken := by
    intro fill hfill
    have hmem := List.mem_of_mem_take hfill
    rw [Bool.eq_iff_iff, List.any_eq_true]
    constructor
    · intro hown
      exact ⟨fill, hmem, by simp [hown]⟩
    · rintro ⟨other, hother, hboth⟩
      rw [Bool.and_eq_true, beq_iff_eq] at hboth
      exact (hsole fill hmem other hother hboth.1.symm).trans hboth.2
  have hstart : Attributed sid traded init := by
    intro token pos hpos
    cases hpos
  have hsame : ProjectsTo traded init init := rfl
  obtain ⟨hfull, hprojects⟩ := projectsTo_processFills (fills.take k) htraded hstart hsame
  have hpositions : full.strategyPositions sid = alone.strategyPositions sid := by
    rw [strategyPositions_of_attributed hfull, hprojects,
      attributed_of_projectsTo hfull hprojects]
    rfl
  refine ⟨hpositions, ?_, ?_⟩
  · rw [PortfolioSnapshot.strategyRealizedPnl, hpositions]
    rfl
  · rw [PortfolioSnapshot.strategyUsedCapital, hpositions]
    rfl

theorem strategy_accounting_separate_instruments :
    let fills : List Fill :=
      [{ strategyId := ['A'], instrumentToken := 1, side := .buy, quantity := 10, price := 100 },
       { strategyId := ['B'], instrumentToken := 2, side := .sell, quantity := 10, price := 90 },
       { strategyId := ['A'], instrumentToken := 1, side := .sell, quantity := 4, price := 105 }]
    (processFills init (fills.take 3)).snapshot.strategyPositions ['A'] =
      (processFills init ((fills.take 3).filter fun fill =>
        fill.ownedBy ['A'])).snapshot.strategyPositions ['A'] := by
  intro fills
  exact (strategy_accounting_isolated ['A'] fills (by unfold SoleTrader; decide) 3).1

/-- `A` buys ten at 100; `B` sells ten of the same instrument at 90. The sale closes
the position of `A` and its loss is booked to `A`. -/
theorem shared_instrument_attributed_to_first :
    let fills : List Fill :=
      [{ strategyId := ['A'], instrumentToken := 1, side := .buy, quantity := 10, price := 100 },
       { strategyId := ['B'], instrumentToken := 1, side := .sell, quantity := 10, price := 90 }]
    let full := (processFills init fills).snapshot
    let alone := (processFills init (fills.filter fun fill => fill.ownedBy ['A'])).snapshot
    full.strategyRealizedPnl ['A'] = -100 ∧ alone.strategyRealizedPnl ['A'] = 0 ∧
      (full.strategyPositions ['A']).map Position.quantity = [0] ∧
      (alone.strategyPositions ['A']).map Position.quantity = [10] := by
  decide +kernel

end PortfolioEngine

end QuantForge
