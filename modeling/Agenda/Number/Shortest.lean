import Agenda.Number.Binary64
import Agenda.Text.Basic

/-!
Floating-point numbers in the fewest decimal digits that read back as the same number, and of
those the nearest. Exponents from -4 to 15 are written positionally.
-/

namespace Agenda.Binary64

/-- The decimal exponent of `num / den`: the `k` with `10 ^ k ≤ num / den < 10 ^ (k + 1)`. -/
def decimalExponent (num den : Nat) : Int :=
  let guess : Int := (Nat.toDigits 10 num).length - (Nat.toDigits 10 den).length
  if den * 10 ^ guess.toNat ≤ num * 10 ^ (-guess).toNat then guess else guess - 1

/-- The better of the two neighbours of `num / den` on the grid of multiples of `10 ^ p`, if one
of them reads back as `x`. -/
def neighbour? (x : Binary64) (num den : Nat) (p : Int) : Option (Nat × Int) :=
  let num := num * 10 ^ (-p).toNat
  let den := den * 10 ^ p.toNat
  let below := num / den
  let above := below + 1
  let middle := compare (2 * num) ((2 * below + 1) * den)
  let belowFirst := middle == .lt || (middle == .eq && below % 2 == 0)
  let reads (n : Nat) : Bool := ofDecimal false n p == x
  let candidates := if belowFirst then [below, above] else [above, below]
  (candidates.find? reads).map (·, p)

/-- The digits and the decimal exponent of the shortest form of a positive number. -/
def shortest (significand : Nat) (exponent : Int) : Nat × Int :=
  let num := significand * 2 ^ exponent.toNat
  let den := 2 ^ (-exponent).toNat
  let k := decimalExponent num den
  let grids := (List.range 17).map fun (n : Nat) => k - n
  (grids.findSome? (neighbour? (.finite false significand exponent) num den)).getD (significand, 0)

def trimZeros (digits : Text) : Text :=
  match Text.dropEndWhile (· = '0') digits with
  | [] => ['0']
  | kept => kept

def exponentText (e : Int) : Text :=
  let digits := Text.ofNat e.natAbs
  (if e < 0 then '-' else '+') :: (List.replicate (2 - digits.length) '0' ++ digits)

/-- The digits with the decimal point after the first `point` of them, or as a power of ten
where that would take too many zeros. -/
def layOut (digits : Text) (point : Int) : Text :=
  if point ≤ -4 || 16 < point then
    let mantissa := match digits with
      | first :: second :: rest => first :: '.' :: second :: rest
      | short => short
    mantissa ++ 'e' :: exponentText (point - 1)
  else if point ≤ 0 then '0' :: '.' :: (List.replicate (-point).toNat '0' ++ digits)
  else
    let whole := point.toNat
    if digits.length ≤ whole then
      digits ++ List.replicate (whole - digits.length) '0' ++ ['.', '0']
    else digits.take whole ++ '.' :: digits.drop whole

def text : Binary64 → Text
  | .nan => "nan"
  | .infinite negative => if negative then "-inf" else "inf"
  | .finite negative significand exponent =>
    let unsigned : Text :=
      if significand = 0 then "0.0"
      else
        let (n, p) := shortest significand exponent
        let digits := Text.ofNat n
        layOut (trimZeros digits) (digits.length + p)
    if negative then '-' :: unsigned else unsigned

end Agenda.Binary64
