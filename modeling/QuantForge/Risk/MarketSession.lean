import QuantForge.Risk.PreTradeRisk

/-! The trading session that `MarketHours` in `risk/pre_trade_risk.hpp` is to recognise, against
the fields that `is_open` computes by hand from the broken-down UTC time. -/
namespace QuantForge

/-- What `gmtime_r` reports for a Unix time; the epoch was a Thursday. -/
def gmtime (t : Nat) : UtcTime where
  hour := t / 3600 % 24
  min := t / 60 % 60
  wday := (t / 86400 + 4) % 7

namespace MarketHours

/-- IST is UTC + 5:30. -/
def ist (t : Nat) : Nat := t + 19800

def istTimeOfDay (t : Nat) : Nat := ist t % 86400

/-- 0 is Sunday, 6 is Saturday. -/
def istWeekday (t : Nat) : Nat := (ist t / 86400 + 4) % 7

def Weekday (t : Nat) : Prop := 1 ≤ istWeekday t ∧ istWeekday t ≤ 5

/-- The session, from 09:15:00 to before 15:30:00. -/
def InSession (t : Nat) : Prop :=
  Weekday t ∧ 33300 ≤ istTimeOfDay t ∧ istTimeOfDay t < 55800

/-- The quarters of an hour 09:15 and 10:00 and the half hour 16:00, where the hour that is not
carried over decides. -/
def CarryDecides (t : Nat) : Prop :=
  (33300 ≤ istTimeOfDay t ∧ istTimeOfDay t < 34200) ∨
    (36000 ≤ istTimeOfDay t ∧ istTimeOfDay t < 36900) ∨
    (57600 ≤ istTimeOfDay t ∧ istTimeOfDay t < 59400)

instance (t : Nat) : Decidable (Weekday t) := inferInstanceAs (Decidable (_ ∧ _))

instance (t : Nat) : Decidable (InSession t) := inferInstanceAs (Decidable (_ ∧ _))

/-- The carry is never taken: the minutes that it is tested on are below sixty. -/
theorem isOpen_iff (utc : UtcTime) :
    isOpen utc = true ↔ (utc.wday ≠ 0 ∧ utc.wday ≠ 6) ∧
      915 ≤ (utc.hour + 5) % 24 * 100 + (utc.min + 30) % 60 ∧
      (utc.hour + 5) % 24 * 100 + (utc.min + 30) % 60 < 1530 := by
  have hmin : ¬(utc.min + 30) % 60 ≥ 60 := not_le.mpr (Nat.mod_lt _ (by decide))
  unfold isOpen
  simp only [if_neg hmin]
  split <;> simp <;> omega

/-- In the first half of an hour the code's time of day is an hour behind. -/
theorem isOpen_gmtime_iff (t : Nat) :
    isOpen (gmtime t) = true ↔ Weekday t ∧
      if istTimeOfDay t % 3600 < 1800 then 36900 ≤ istTimeOfDay t ∧ istTimeOfDay t < 59400
      else 33300 ≤ istTimeOfDay t ∧ istTimeOfDay t < 55800 := by
  rw [isOpen_iff, Weekday, istWeekday, istTimeOfDay, ist]
  simp only [gmtime]
  split <;> omega

/-- The gate is right about a time unless it is a weekday's one of these. -/
theorem isOpen_iff_inSession_iff (t : Nat) :
    (isOpen (gmtime t) = true ↔ InSession t) ↔ ¬(Weekday t ∧ CarryDecides t) := by
  rw [isOpen_gmtime_iff, InSession, CarryDecides]
  by_cases hday : Weekday t
  · simp only [hday, true_and]
    split <;> omega
  · simp [hday]

/-- On Monday 5 January 1970 the gate is closed at 09:20 and open at 16:10. -/
theorem gate_closed_in_session :
    (InSession 359400 ∧ isOpen (gmtime 359400) = false) ∧
      ¬InSession 384000 ∧ isOpen (gmtime 384000) = true := by
  decide

end MarketHours

end QuantForge
