import Agenda.Token

/-!
Lines of a document and what they can be: blank, a bullet, a heading, a horizontal rule, a key
with a value, or other text.
-/

namespace Agenda

/-- A line is measured once: tabs become spaces, and the leading spaces are counted. -/
structure Line where
  /-- The position of the line in its document, from zero. -/
  index : Nat
  /-- The line without tabs and without final carriage returns. -/
  raw : Text
  /-- The number of leading spaces. -/
  indent : Nat
  /-- The line without surrounding whitespace. -/
  text : Text
deriving DecidableEq, Repr

/-- The level of a heading: one to six number signs after at most three spaces, then a blank and
some text. -/
def Heading.level? (t : Text) : Option Nat :=
  let body := t.dropWhile (· = ' ')
  let level := (body.takeWhile (· = '#')).length
  let rest := body.dropWhile (· = '#')
  if t.length ≤ body.length + 3 && 1 ≤ level && level ≤ 6 && (rest.head?.map isBlank).getD false &&
      !(Text.stripStart rest).isEmpty then
    some level
  else none

namespace Line

/-- Measures a line; a tab counts as `size` spaces. -/
def ofText (size index : Nat) (t : Text) : Line :=
  let expanded := t.flatMap fun c => if c = '\t' then Text.spaces size else [c]
  let raw := Text.dropEndWhile (· = '\r') expanded
  let body := raw.dropWhile (· = ' ')
  ⟨index, raw, raw.length - body.length, Text.strip body⟩

def ofTexts (size index : Nat) : List Text → List Line
  | [] => []
  | t :: ts => ofText size index t :: ofTexts size (index + 1) ts

/-- Headings and rules stand at most this many spaces from the margin. -/
def markerMargin : Nat := 3

def isBlank (l : Line) : Bool := l.text.isEmpty

/-- Three or more hyphens, asterisks or underscores and nothing else. -/
def isRule (l : Line) : Bool :=
  l.indent ≤ markerMargin && 3 ≤ l.text.length &&
    (l.text.all (· = '-') || l.text.all (· = '*') || l.text.all (· = '_'))

/-- The content of a bullet: a hyphen, then nothing, or a blank and one line of content. -/
def bullet? (l : Line) : Option Text :=
  match l.text with
  | ['-'] => some []
  | '-' :: c :: cs =>
    let content := Text.stripStart (c :: cs)
    if Agenda.isBlank c && !content.contains '\n' then some content else none
  | _ => none

def isBullet (l : Line) : Bool := l.bullet?.isSome

def content (l : Line) : Text := l.bullet?.getD []

def contentColumn (l : Line) : Nat :=
  l.indent + l.text.length - (Text.stripStart (l.text.drop 1)).length

def heading? (l : Line) : Option Nat :=
  if markerMargin < l.indent then none else Heading.level? l.text

def isHeading (l : Line) : Bool := l.heading?.isSome

/-- A key, a colon and a value, which may be empty. -/
def keyed? (l : Line) : Option (Text × Text) :=
  match splitKey? l.text with
  | none => none
  | some (key, rest) =>
    let value := Text.stripStart rest
    if value.contains '\n' then none else some (key, value)

end Line

end Agenda
