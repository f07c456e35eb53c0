import Agenda.Number.Numeral

/-!
Floating-point numbers read loosely, as when a text is compared with a number: blanks around the
number do not matter, single underscores may stand between digits, and infinity and nan have
names.
-/

namespace Agenda.Binary64

/-- Drops the underscores of a text, each of which must stand between two digits; `afterDigit`
says whether a digit comes before. -/
def dropUnderscores? (afterDigit : Bool) : Text → Option Text
  | [] => some []
  | '_' :: c :: cs =>
    if afterDigit && Text.isDigit c then (dropUnderscores? true cs).map (c :: ·) else none
  | c :: cs =>
    if c = '_' then none else (dropUnderscores? (Text.isDigit c) cs).map (c :: ·)

def lowerName (t : Text) : Text := t.map Char.toLower

def readName? (t : Text) : Option Binary64 :=
  let (negative, name) := Numeral.takeSign t
  let name := lowerName name
  if name = "inf" || name = "infinity" then some (.infinite negative)
  else if name = "nan" then some .nan
  else none

def read? (t : Text) : Option Binary64 :=
  let inner := Text.dropMargins t
  match readName? inner with
  | some x => some x
  | none => do
    let digits ← dropUnderscores? false inner
    let numeral ← Numeral.read? digits
    return numeral.toBinary64

end Agenda.Binary64
