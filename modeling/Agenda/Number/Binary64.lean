import Agenda.Text.Basic

/-!
Binary floating-point numbers of 64 bits, as exact data: a finite one is a sign, a significand
below `2 ^ 53` and a power of two. Fractions are rounded to the nearest one, a half to the even
neighbour, by integer arithmetic alone.
-/

namespace Agenda

/-- A finite number is `significand * 2 ^ exponent` with its sign. The numbers that the library
makes have an exponent of at least -1074, and a significand of at least `2 ^ 52` unless the
exponent is -1074; then equal numbers have equal data. -/
inductive Binary64 where
  | finite (negative : Bool) (significand : Nat) (exponent : Int)
  | infinite (negative : Bool)
  | nan
deriving DecidableEq, Repr

namespace Binary64

def minExponent : Int := -1074
def maxExponent : Int := 971

/-- The quotient rounded to the nearest integer, a half to the even one. -/
def roundDiv (num den : Nat) : Nat :=
  let quotient := num / den
  let twice := 2 * (num % den)
  if den < twice || (twice == den && quotient % 2 == 1) then quotient + 1 else quotient

/-- The exponent at which `num / den` has a significand of 53 bits, but not below the least. -/
def exponentFor (num den : Nat) : Int :=
  let guess : Int := (Nat.log2 num : Int) - (Nat.log2 den : Int) - 52
  let below := num * 2 ^ (-guess).toNat < den * 2 ^ guess.toNat * 2 ^ 52
  max minExponent (if below then guess - 1 else guess)

/-- The number nearest to `num / den`; infinite if that is out of range. -/
def ofRatio (negative : Bool) (num den : Nat) : Binary64 :=
  if num = 0 then .finite negative 0 minExponent
  else
    let e := exponentFor num den
    let m := roundDiv (num * 2 ^ (-e).toNat) (den * 2 ^ e.toNat)
    let (m, e) := if m = 2 ^ 53 then (2 ^ 52, e + 1) else (m, e)
    if maxExponent < e then .infinite negative else .finite negative m e

/-- The number nearest to `digits * 10 ^ exponent`. Far outside the range the answer is known
without computing the power. -/
def ofDecimal (negative : Bool) (digits : Nat) (exponent : Int) : Binary64 :=
  let magnitude : Int := (Nat.toDigits 10 digits).length + exponent
  if digits = 0 || magnitude < -330 then .finite negative 0 minExponent
  else if 310 < magnitude then .infinite negative
  else ofRatio negative (digits * 10 ^ exponent.toNat) (10 ^ (-exponent).toNat)

def ofInt (n : Int) : Binary64 := ofRatio (n < 0) n.natAbs 1

def signed (negative : Bool) (m : Nat) : Int := if negative then -(m : Int) else m

def compareScaled (m : Int) (e : Int) (n : Int) (f : Int) : Ordering :=
  compare (m * 2 ^ (e - f).toNat) (n * 2 ^ (f - e).toNat)

/-- Which of two numbers is greater. A number that is not one is neither greater nor less than
any other. -/
def order : Binary64 → Binary64 → Ordering
  | .nan, _ => .eq
  | _, .nan => .eq
  | .infinite a, .infinite b => if a = b then .eq else if a then .lt else .gt
  | .infinite a, .finite .. => if a then .lt else .gt
  | .finite .., .infinite b => if b then .gt else .lt
  | .finite a m e, .finite b n f => compareScaled (signed a m) e (signed b n) f

/-- Whether two numbers are the same; zero has no sign here, and nan is not the same as
anything. -/
def same (x y : Binary64) : Bool := x != .nan && y != .nan && order x y == .eq

end Binary64

end Agenda
