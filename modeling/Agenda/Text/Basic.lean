/-!
Texts. A text is a list of characters, so that every offset, length and column of the library
counts characters. This module has the whitespace class and the operations that cut and glue
texts: stripping, splitting at a character, joining, and replacing a character; the decimal digits
of integers; and classes of characters that are given by ranges of code points.
-/

namespace Agenda

/-! Powers and zero are those of the core library in every module: these instances come before the
ones that algebraic structures bring along, also for a power of two numerals. -/

@[default_instance 10001]
instance (priority := 1100) powNat : Pow Nat Nat := instPowNat

instance (priority := 1100) powInt : Pow Int Nat := instPowNat

instance (priority := 1100) zeroNat : Zero Nat := Zero.ofOfNat0

/-- A text is the list of its characters. -/
abbrev Text := List Char

/-- Whitespace in the widest sense: the ASCII controls tab to carriage return, the four
information separators, the space, and every space or line separator beyond ASCII. -/
def isBlank (c : Char) : Bool :=
  let n := c.toNat
  (0x09 ≤ n && n ≤ 0x0D) || (0x1C ≤ n && n ≤ 0x20) || n == 0x85 || n == 0xA0 || n == 0x1680 ||
    (0x2000 ≤ n && n ≤ 0x200A) || n == 0x2028 || n == 0x2029 || n == 0x202F || n == 0x205F ||
    n == 0x3000

namespace Text

instance : Coe String Text := ⟨String.toList⟩

def dropEndWhile (p : Char → Bool) (t : Text) : Text := (t.reverse.dropWhile p).reverse

def stripStart (t : Text) : Text := t.dropWhile isBlank

def stripEnd (t : Text) : Text := dropEndWhile isBlank t

def strip (t : Text) : Text := stripEnd (stripStart t)

/-- The pieces between the occurrences of `sep`: one more than there are occurrences. -/
def split (sep : Char) : Text → List Text
  | [] => [[]]
  | c :: cs =>
    if c = sep then [] :: split sep cs
    else match split sep cs with
      | [] => [[c]]
      | piece :: pieces => (c :: piece) :: pieces

def join (sep : Text) : List Text → Text
  | [] => []
  | [piece] => piece
  | piece :: pieces => piece ++ sep ++ join sep pieces

def concat (pieces : List Text) : Text := pieces.flatten

def replaceChar (c : Char) (replacement : Text) (t : Text) : Text :=
  t.flatMap fun d => if d = c then replacement else [d]

def spaces (n : Nat) : Text := List.replicate n ' '

def hasInfix (needle : Text) : Text → Bool
  | [] => needle.isEmpty
  | c :: cs => needle.isPrefixOf (c :: cs) || hasInfix needle cs

/-- Whitespace that may stand around a number: all but the information separators. -/
def isMargin (c : Char) : Bool := isBlank c && !(0x1C ≤ c.toNat && c.toNat ≤ 0x1F)

def dropMargins (t : Text) : Text := dropEndWhile isMargin (t.dropWhile isMargin)

def dropFinalNewline (t : Text) : Text :=
  if t.getLast? = some '\n' then t.dropLast else t

def ofNat (n : Nat) : Text := Nat.toDigits 10 n

def ofInt : Int → Text
  | .ofNat n => ofNat n
  | .negSucc n => '-' :: ofNat (n + 1)

/-- Compares two texts character by character, by code point; a beginning comes first. -/
def compare : Text → Text → Ordering
  | [], [] => .eq
  | [], _ :: _ => .lt
  | _ :: _, [] => .gt
  | c :: cs, d :: ds =>
    if c.toNat < d.toNat then .lt else if d.toNat < c.toNat then .gt else compare cs ds

/-- Whether `n` lies in one of the ranges, each given by its first and its last member. The
ranges are in increasing order, so the search stops at the first one that begins past `n`. -/
def inRanges (n : Nat) : List (Nat × Nat) → Bool
  | [] => false
  | (first, last) :: rest =>
    if n < first then false else if n ≤ last then true else inRanges n rest

end Text

end Agenda
