import Agenda.Number.Numeral
import Agenda.Number.Shortest

/-!
Numbers of field values: integers of any size, and floating-point numbers. The two kinds compare
exactly, without rounding the integer. An integer with too many digits is neither read nor written.
-/

namespace Agenda

inductive Number where
  | int (n : Int)
  | float (x : Binary64)
deriving DecidableEq, Repr

/-- An integer with more digits than the library reads and writes. -/
inductive Oversize where
  | integer
deriving DecidableEq, Repr

namespace Number

def maxDigits : Nat := 4300

/-- The number that a text spells, if it spells one. A final line feed does not matter. -/
def read? (t : Text) : Except Oversize (Option Number) :=
  match Numeral.read? (Text.dropFinalNewline t) with
  | none => .ok none
  | some numeral =>
    if numeral.isInteger then
      if maxDigits < numeral.whole.length then .error .integer
      else .ok (some (.int numeral.toInt))
    else .ok (some (.float numeral.toBinary64))

def text : Number → Text
  | .int n => Text.ofInt n
  | .float x => x.text

/-- Whether the number has a text: an integer with too many digits has none. -/
def isWritable : Number → Bool
  | .int n => (Text.ofNat n.natAbs).length ≤ maxDigits
  | .float _ => true

/-- An integer as a floating-point number that need not be in range: the exact value. -/
def exact : Number → Binary64
  | .int n => .finite (n < 0) n.natAbs 0
  | .float x => x

def order (x y : Number) : Ordering := x.exact.order y.exact

/-- Whether two numbers are equal, of whichever kind they are. -/
def same (x y : Number) : Bool := x.exact.same y.exact

/-- The nearest floating-point number; nothing if an integer is out of range. -/
def toBinary64? : Number → Option Binary64
  | .float x => some x
  | .int n =>
    match Binary64.ofInt n with
    | .infinite _ => none
    | x => some x

end Number

end Agenda
