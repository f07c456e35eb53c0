import Agenda.Text.Utf8

/-!
The SHA-1 digest of a sequence of bytes, as hexadecimal digits.
-/

namespace Agenda.Digest

/-- The five words that the digest carries from block to block. -/
structure Chain where
  a : UInt32
  b : UInt32
  c : UInt32
  d : UInt32
  e : UInt32
deriving DecidableEq, Repr

def Chain.start : Chain := ⟨0x67452301, 0xEFCDAB89, 0x98BADCFE, 0x10325476, 0xC3D2E1F0⟩

def rotateLeft (n : UInt32) (x : UInt32) : UInt32 := (x <<< n) ||| (x >>> (32 - n))

/-- A number as `count` bytes, the most significant first. -/
def bigEndian (count n : Nat) : List UInt8 :=
  (List.range count).map fun i => (n / 256 ^ (count - 1 - i) % 256).toUInt8

/-- The message, a one bit, zeros up to eight bytes before a block's end, and the length in
bits. -/
def pad (message : List UInt8) : List UInt8 :=
  let length := message.length
  message ++ [0x80] ++ List.replicate ((119 - length % 64) % 64) 0 ++ bigEndian 8 (8 * length)

def pieces {α : Type} (size count : Nat) (xs : List α) : List (List α) :=
  match count with
  | 0 => []
  | n + 1 => xs.take size :: pieces size n (xs.drop size)

def wordOf (bytes : List UInt8) : UInt32 :=
  (bytes.foldl (fun (n : Nat) (byte : UInt8) => n * 256 + byte.toNat) 0).toUInt32

/-- The next word of the schedule from the words before it, the latest first. -/
def nextWord (words : List UInt32) : UInt32 :=
  rotateLeft 1 (words.getD 2 0 ^^^ words.getD 7 0 ^^^ words.getD 13 0 ^^^ words.getD 15 0)

/-- The eighty words that a block of sixteen is stretched to. -/
def schedule (block : List UInt32) : List UInt32 :=
  ((List.range 64).foldl (fun words _ => nextWord words :: words) block.reverse).reverse

/-- The function and the constant of round `i`. -/
def mix (i : Nat) (b c d : UInt32) : UInt32 :=
  if i < 20 then ((b &&& c) ||| (~~~b &&& d)) + 0x5A827999
  else if i < 40 then (b ^^^ c ^^^ d) + 0x6ED9EBA1
  else if i < 60 then ((b &&& c) ||| (b &&& d) ||| (c &&& d)) + 0x8F1BBCDC
  else (b ^^^ c ^^^ d) + 0xCA62C1D6

def Chain.round (h : Chain) (i : Nat) (word : UInt32) : Chain :=
  ⟨rotateLeft 5 h.a + mix i h.b h.c h.d + h.e + word, h.a, rotateLeft 30 h.b, h.c, h.d⟩

def Chain.rounds (h : Chain) (i : Nat) : List UInt32 → Chain
  | [] => h
  | word :: words => (h.round i word).rounds (i + 1) words

def Chain.block (h : Chain) (block : List UInt32) : Chain :=
  let r := h.rounds 0 (schedule block)
  ⟨h.a + r.a, h.b + r.b, h.c + r.c, h.d + r.d, h.e + r.e⟩

def hexWord (word : UInt32) : Text :=
  (List.range 8).map fun i => Nat.digitChar (word.toNat / 16 ^ (7 - i) % 16)

def Chain.hex (h : Chain) : Text :=
  hexWord h.a ++ hexWord h.b ++ hexWord h.c ++ hexWord h.d ++ hexWord h.e

def sha1 (message : List UInt8) : Text :=
  let padded := pad message
  let words := (pieces 4 (padded.length / 4) padded).map wordOf
  ((pieces 16 (words.length / 16) words).foldl Chain.block Chain.start).hex

end Agenda.Digest
