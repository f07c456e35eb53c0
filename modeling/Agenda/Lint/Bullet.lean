import Agenda.Lint.Issue
import Agenda.Fields
import Agenda.Line

/-!
The checks of one bullet's content: quotes must be closed, shorthand must come first, a title
before keys must be quoted, and every other token must be a key or the value of one.
-/

namespace Agenda.Lint

def Issue.toEnd (l : Line) (finding : Finding) (start : Nat) : Issue :=
  ⟨l.index + 1, finding, start, l.raw.length⟩

def Issue.at (l : Line) (finding : Finding) (start stop : Nat) : Issue :=
  ⟨l.index + 1, finding, start, stop⟩

/-- What a token is used for. A key comes with the value it takes. -/
inductive Use where
  | key (key raw : Text)
  | value
  | quoted
  | shorthand (kind : Shorthand.Kind)
  | bare
deriving DecidableEq, Repr

def looseUse (t : Token) : Use :=
  if t.quoted then .quoted
  else match Shorthand.read? t.text with
    | some s => .shorthand s.kind
    | none => .bare

/-- The positions, from `i` on, of the tokens that are the value of the key before them. A key with
nothing after the colon takes the next token, whatever that is. -/
def valuePositions (i : Nat) : List Token → List Nat
  | [] => []
  | [_] => []
  | t :: u :: ts =>
    match t.key? with
    | some (_, []) => (i + 1) :: valuePositions (i + 2) ts
    | _ => valuePositions (i + 1) (u :: ts)

/-- The use of a token that is no value, where `next` are the tokens after it. -/
def useBefore (next : List Token) (t : Token) : Use :=
  match t.key? with
  | some (key, raw) =>
    .key key (if raw.isEmpty then (next.head?.map (·.text)).getD [] else raw)
  | none => looseUse t

def usesAt (values : List Nat) (i : Nat) : List Token → List (Token × Use)
  | [] => []
  | t :: ts => (t, if values.contains i then .value else useBefore ts t) :: usesAt values (i + 1) ts

/-- Checks an id against those that were seen before. An empty one is no id. -/
def noteId (l : Line) (seen : List Text) (raw : Text) (start : Nat) : List Text × List Issue :=
  let id := dequote raw
  if id.isEmpty then (seen, [])
  else (addName seen id,
    if seen.contains id then [.toEnd l (.duplicateId id) start] else [])

/-- Checks what the tokens after the title are used for; `last` is the last key before them. The
result is the ids seen so far and the issues. -/
def checkUses (l : Line) (offset : Nat) (seen : List Text) (last : Option Text) :
    List (Token × Use) → List Text × List Issue
  | [] => (seen, [])
  | (t, use) :: rest =>
    let start := offset + t.start
    let stop := offset + t.stop
    let (seen, last, found) := match use with
      | .value | .quoted => (seen, last, [])
      | .key key raw =>
        let (seen, found) := if key = Key.id then noteId l seen raw start else (seen, [])
        (seen, some key, found)
      | .shorthand kind => (seen, last, [Issue.at l (.misplaced kind) start stop])
      | .bare =>
        (seen, last, match last with
          | some key => [Issue.at l (.valueAfter key t.text) start stop]
          | none =>
            if rest.any (·.1.isKey) then [Issue.at l (.valueBefore t.text) start stop] else [])
    let (seen, more) := checkUses l offset seen last rest
    (seen, found ++ more)

def isShorthand (t : Token) : Bool := (Shorthand.read? t.text).isSome

def isPriority (t : Token) : Bool := (Shorthand.read? t.text).any (·.kind = .priority)

def isPlainWord (t : Token) : Bool := !t.quoted && !t.isKey

def checkPriorities (l : Line) (offset : Nat) (lead : List Token) : List Issue :=
  match lead.getLast? with
  | some t =>
    if 1 < lead.countP isPriority then
      [.at l .severalPriorities offset (offset + t.stop)]
    else []
  | none => []

def checkTitle (l : Line) (offset : Nat) (title rest : List Token) : List Issue :=
  match title.head?, title.getLast? with
  | some first, some last =>
    if rest.any (·.isKey) then
      [.at l .unquotedTitle (offset + first.start) (offset + last.stop)]
    else []
  | _, _ => []

def checkQuotes (l : Line) (offset : Nat) (t : Text) : List Issue :=
  match unclosedQuote? t with
  | some (quote, position) => [.toEnd l (.unclosed quote) (offset + position)]
  | none => []

def checkContent (l : Line) (seen : List Text) : List Text × List Issue :=
  let content := l.content
  let offset := l.contentColumn
  let ts := tokens content
  let lead := ts.takeWhile isShorthand
  let afterLead := ts.dropWhile isShorthand
  let title := afterLead.takeWhile isPlainWord
  let rest := afterLead.dropWhile isPlainWord
  let start := ts.length - rest.length
  let uses := usesAt (valuePositions start rest) start rest
  let (seen, found) := checkUses l offset seen none uses
  (seen, checkQuotes l offset content ++ checkPriorities l offset lead ++
    checkTitle l offset title rest ++ found)

end Agenda.Lint
