import Agenda.Text.Basic

/-!
Case maps. Most characters change case by a fixed distance that holds for a whole range, or for
every second character of one; the rest are listed with the characters they become.
-/

namespace Agenda.Text

/-- The code points `first`, `first + step`, ..., `last` each move by `distance`. -/
structure CaseShift where
  first : Nat
  last : Nat
  step : Nat
  distance : Int

def CaseShift.target? (s : CaseShift) (n : Nat) : Option Char :=
  if s.first ≤ n && n ≤ s.last && (n - s.first) % s.step == 0 then
    some (Char.ofNat (n + s.distance).toNat)
  else none

/-- Shifts for characters that become one other, expansions for those that become several. -/
structure CaseMap where
  shifts : List CaseShift
  expansions : List (Nat × List Nat)

def CaseMap.applyChar (m : CaseMap) (c : Char) : Text :=
  match m.expansions.lookup c.toNat with
  | some codes => codes.map Char.ofNat
  | none => [(m.shifts.findSome? (·.target? c.toNat)).getD c]

def CaseMap.apply (m : CaseMap) (t : Text) : Text := t.flatMap m.applyChar

end Agenda.Text
