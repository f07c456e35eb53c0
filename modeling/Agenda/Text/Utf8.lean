import Agenda.Text.Basic

/-!
Texts as bytes. Reading is strict: a byte sequence that is not the shortest form of a character,
that encodes a surrogate, or that breaks off is refused.
-/

namespace Agenda.Text

def toBytes (t : Text) : List UInt8 := t.flatMap String.utf8EncodeChar

/-- What the first byte of a longer sequence says: how many bytes follow, the least and the
greatest second byte, and the leading bits of the code point. -/
def leadByte? (n : Nat) : Option (Nat × Nat × Nat × Nat) :=
  if 0xC2 ≤ n ∧ n ≤ 0xDF then some (1, 0x80, 0xBF, n - 0xC0)
  else if n = 0xE0 then some (2, 0xA0, 0xBF, 0)
  else if n = 0xED then some (2, 0x80, 0x9F, n - 0xE0)
  else if 0xE1 ≤ n ∧ n ≤ 0xEF then some (2, 0x80, 0xBF, n - 0xE0)
  else if n = 0xF0 then some (3, 0x90, 0xBF, 0)
  else if 0xF1 ≤ n ∧ n ≤ 0xF3 then some (3, 0x80, 0xBF, n - 0xF0)
  else if n = 0xF4 then some (3, 0x80, 0x8F, n - 0xF0)
  else none

/-- Reads on inside a character: `owed` bytes are to follow, the next one between `low` and
`high`, and `bits` is what is known of the code point. Between characters `owed` is zero. -/
def decodeFrom (owed low high bits : Nat) : List UInt8 → Option Text
  | [] => if owed = 0 then some [] else none
  | byte :: rest =>
    let n := byte.toNat
    match owed with
    | 0 =>
      if n < 0x80 then (decodeFrom 0 0 0 0 rest).map (Char.ofNat n :: ·)
      else match leadByte? n with
        | some (owed, low, high, bits) => decodeFrom owed low high bits rest
        | none => none
    | left + 1 =>
      if low ≤ n && n ≤ high then
        let bits := bits * 64 + n % 64
        if left = 0 then (decodeFrom 0 0 0 0 rest).map (Char.ofNat bits :: ·)
        else decodeFrom left 0x80 0xBF bits rest
      else none

def ofBytes? (bytes : List UInt8) : Option Text := decodeFrom 0 0 0 0 bytes

end Agenda.Text
