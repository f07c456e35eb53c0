import Agenda.Quote

/-!
The tokens of a bullet: what is left between the blanks and commas that stand outside quotes.
A token that begins with a name and a colon is a key; it takes its value from what follows the
colon or, if nothing does, from the next token. Names, of tags and of stakeholders, are made of the
characters of keys.
-/

namespace Agenda

structure Token where
  text : Text
  start : Nat
deriving DecidableEq, Repr

def isKeyStart (c : Char) : Bool := c.isAlpha || c = '_'

def isKeyChar (c : Char) : Bool := c.isAlphanum || c = '_' || c = '-'

/-- Splits a text at the colon that ends its leading key. -/
def splitKey? (t : Text) : Option (Text × Text) :=
  match t.takeWhile isKeyChar, t.dropWhile isKeyChar with
  | c :: key, ':' :: rest => if isKeyStart c then some (c :: key, rest) else none
  | _, _ => none

/-- Whether a text is a key as a whole. A final line feed does not matter. -/
def isKeyName (t : Text) : Bool :=
  match Text.dropFinalNewline t with
  | [] => false
  | c :: cs => isKeyStart c && cs.all isKeyChar

namespace Token

def stop (t : Token) : Nat := t.start + t.text.length

def quoted (t : Token) : Bool := isQuotedString t.text

/-- The key that the token begins with, and what follows the colon. -/
def key? (t : Token) : Option (Text × Text) := if t.quoted then none else splitKey? t.text

def isKey (t : Token) : Bool := t.key?.isSome

end Token

def Scan.separates (s : Scan) (c : Char) : Bool :=
  !s.escaped && s.quote.isNone && (isBlank c || c = ',')

def consToken (word : Text) (pos : Nat) (ts : List Token) : List Token :=
  if word.isEmpty then ts else ⟨word, pos⟩ :: ts

/-- Cuts a text that starts at `pos` into its first word, which may be empty, and the tokens
after it. -/
def cutTokens (s : Scan) (pos : Nat) : Text → Text × List Token
  | [] => ([], [])
  | c :: cs =>
    let (word, ts) := cutTokens (s.step c) (pos + 1) cs
    if s.separates c then ([], consToken word (pos + 1) ts) else (c :: word, ts)

def tokens (t : Text) : List Token :=
  let (word, ts) := cutTokens .start 0 t
  consToken word 0 ts

/-- A key token with its value: attached to it, in the token after it, or missing. -/
inductive Pair where
  | attached (key raw : Text) (token : Token)
  | detached (key : Text) (token value : Token)
  | lone (key : Text) (token : Token)
deriving DecidableEq, Repr

namespace Pair

def key : Pair → Text
  | .attached key _ _ => key
  | .detached key _ _ => key
  | .lone key _ => key

def raw : Pair → Text
  | .attached _ raw _ => raw
  | .detached _ _ value => value.text
  | .lone _ _ => []

def parts : Pair → List Token
  | .attached _ _ token => [token]
  | .detached _ token value => [token, value]
  | .lone _ token => [token]

end Pair

/-- Pairs the keys among the tokens with their values. The token after a bare key is its value,
whatever it looks like; a token that is neither a key nor a value is passed over. -/
def pairs : List Token → List Pair
  | [] => []
  | [t] =>
    match t.key? with
    | none => []
    | some (key, raw) => if raw.isEmpty then [.lone key t] else [.attached key raw t]
  | t :: u :: ts =>
    match t.key? with
    | none => pairs (u :: ts)
    | some (key, raw) =>
      if raw.isEmpty then .detached key t u :: pairs ts else .attached key raw t :: pairs (u :: ts)

/-! ### Names -/

/-- A proper name has letters, digits, underscores and hyphens only. A final line feed does not
matter. -/
def isName (t : Text) : Bool :=
  let body := Text.dropFinalNewline t
  !body.isEmpty && body.all isKeyChar

/-- The names between the commas of a text, stripped, without the empty ones. -/
def namesIn (t : Text) : List Text := ((Text.split ',' t).map Text.strip).filter (!·.isEmpty)

def addName (names : List Text) (name : Text) : List Text :=
  if names.contains name then names else names ++ [name]

def addNames (names added : List Text) : List Text := added.foldl addName names

end Agenda
