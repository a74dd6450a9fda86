import Mathlib.Data.Finset.Card
import QuantForge.Common.Types

/-! `oms/fill_deduplicator.hpp`. The two locked phases of `try_mark` are separate
definitions, because other threads may run between them. -/
namespace QuantForge

structure FillDeduplicator where
  processed : Finset Str := ∅
  duplicates : Nat := 0

namespace FillDeduplicator

/-- The shared-lock phase: `true` when the id was already seen. -/
def checkSeen (d : FillDeduplicator) (tradeId : Str) : Bool × FillDeduplicator :=
  if tradeId ∈ d.processed then (true, { d with duplicates := d.duplicates + 1 })
  else (false, d)

/-- The exclusive-lock phase: `true` when the id is new. -/
def insertNew (d : FillDeduplicator) (tradeId : Str) : Bool × FillDeduplicator :=
  if tradeId ∈ d.processed then (false, { d with duplicates := d.duplicates + 1 })
  else (true, { d with processed := insert tradeId d.processed })

/-- `true` when the fill is new and should be processed. -/
def tryMark (d : FillDeduplicator) (tradeId : Str) : Bool × FillDeduplicator :=
  match d.checkSeen tradeId with
  | (true, d) => (false, d)
  | (false, d) => d.insertNew tradeId

def reset (_ : FillDeduplicator) : FillDeduplicator := {}

def uniqueFills (d : FillDeduplicator) : Nat := d.processed.card

theorem tryMark_of_mem {d : FillDeduplicator} {tradeId : Str} (h : tradeId ∈ d.processed) :
    d.tryMark tradeId = (false, { d with duplicates := d.duplicates + 1 }) := by
  simp [tryMark, checkSeen, h]

theorem tryMark_of_notMem {d : FillDeduplicator} {tradeId : Str} (h : tradeId ∉ d.processed) :
    d.tryMark tradeId = (true, { d with processed := insert tradeId d.processed }) := by
  simp [tryMark, checkSeen, insertNew, h]

end FillDeduplicator

end QuantForge
