import Agenda.Number.Binary64
import Agenda.Text.Digit

/-!
Numbers as they are written: an optional sign, digits with an optional decimal point, and an
optional exponent. The digits may be those of any script.
-/

namespace Agenda

/-- The parts of a written number. `fraction` is what follows the decimal point, if there is
one. -/
structure Numeral where
  negative : Bool
  whole : Text
  fraction : Option Text
  exponent : Option (Bool × Text)
deriving DecidableEq, Repr

namespace Numeral

/-- Takes a sign from the front: whether it is a minus, and what follows. -/
def takeSign : Text → Bool × Text
  | '-' :: t => (true, t)
  | '+' :: t => (false, t)
  | t => (false, t)

def takeFraction : Text → Option Text × Text
  | '.' :: t => (some (t.takeWhile Text.isDigit), t.dropWhile Text.isDigit)
  | t => (none, t)

def readExponent? : Text → Option (Option (Bool × Text))
  | [] => some none
  | c :: t =>
    let (negative, digits) := takeSign t
    if (c = 'e' || c = 'E') && !digits.isEmpty && digits.all Text.isDigit then
      some (some (negative, digits))
    else none

def read? (t : Text) : Option Numeral :=
  let (negative, t) := takeSign t
  let whole := t.takeWhile Text.isDigit
  let (fraction, t) := takeFraction (t.dropWhile Text.isDigit)
  if whole.isEmpty && (fraction.getD []).isEmpty then none
  else (readExponent? t).map fun exponent => ⟨negative, whole, fraction, exponent⟩

def isInteger (n : Numeral) : Bool := n.fraction.isNone && n.exponent.isNone

def toInt (n : Numeral) : Int :=
  let size : Int := Text.natOfDigits n.whole
  if n.negative then -size else size

def toBinary64 (n : Numeral) : Binary64 :=
  let fraction := n.fraction.getD []
  let exponent : Int := match n.exponent with
    | none => 0
    | some (negative, digits) =>
      let size : Int := Text.natOfDigits digits
      if negative then -size else size
  .ofDecimal n.negative (Text.natOfDigits (n.whole ++ fraction)) (exponent - fraction.length)

end Numeral

end Agenda
