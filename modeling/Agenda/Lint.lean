import Agenda.Lint.Bullet
import Agenda.Scalar
import Agenda.Section

/-!
The linter: one pass over the lines of the task section. What it keeps from line to line is the
ids seen so far, the columns of the open bullets, the bullet that the lines belong to, and the
block that is open.
-/

namespace Agenda.Lint

/-- The state of the pass. `columns` are those of the open bullets, the innermost first; `bullet`
is the column of the bullet that the lines belong to, and `block` that of the line whose block is
open. -/
structure Pass where
  seen : List Text := []
  columns : List Nat := []
  bullet : Option Nat := none
  block : Option Nat := none
deriving DecidableEq, Repr

def checkIndent (size : Nat) (l : Line) : List Issue :=
  if l.indent % size = 0 then [] else [.at l (.unevenIndent l.indent size) 0 l.indent]

def checkNesting (size : Nat) (around : List Nat) (l : Line) : List Issue :=
  match around with
  | [] => if 0 < l.indent then [.at l .orphan 0 l.indent] else []
  | column :: _ =>
    let distance := l.indent - column
    if size < distance then [.at l (.jump distance size) 0 l.indent] else []

def hasDeeper (indent : Nat) (next : List Line) : Bool :=
  match next.find? (!·.isBlank) with
  | some l => indent < l.indent
  | none => false

def hasDeeperText (indent : Nat) (next : List Line) : Bool :=
  match next.find? (!·.isBlank) with
  | some l => !l.isBullet && indent < l.indent
  | none => false

namespace Pass

/-- Checks a bullet. The bullets that stand as deep or deeper are closed, and it is opened. -/
def visitBullet (size : Nat) (p : Pass) (l : Line) : Pass × List Issue :=
  let (seen, found) :=
    if l.content.isEmpty then (p.seen, [.toEnd l .emptyBullet 0]) else checkContent l p.seen
  let around := p.columns.dropWhile (l.indent ≤ ·)
  ({ seen := seen, columns := l.indent :: around, bullet := some l.indent, block := none },
    checkIndent size l ++ found ++ checkNesting size around l)

def visitValue (p : Pass) (l : Line) (key value : Text) : Pass × List Issue :=
  let start := l.indent + (l.text.length - value.length)
  let opensQuote := (value.head?.bind Quote.ofChar?).isSome
  let quotes := if opensQuote then checkQuotes l start value else []
  let spaces :=
    if !isQuotedString value && value.any isBlank then [Issue.toEnd l (.unquotedSpaces key) start]
    else []
  let (seen, ids) := if key = Key.id then noteId l p.seen value start else (p.seen, [])
  ({ p with seen := seen }, quotes ++ spaces ++ ids)

def visitContinuation (p : Pass) (l : Line) (next : List Line) : Pass × List Issue :=
  match l.keyed? with
  | none =>
    if hasDeeperText l.indent next then
      ({ p with block := some l.indent }, [.toEnd l .blockWithoutMarker l.indent])
    else (p, [.toEnd l .strayLine l.indent])
  | some (key, value) =>
    if value = Scalar.blockMarker then
      ({ p with block := some l.indent },
        if hasDeeper l.indent next then [] else [.toEnd l (.emptyBlock key) l.indent])
    else if value.isEmpty then
      if hasDeeper l.indent next then
        ({ p with block := some l.indent }, [.toEnd l .blockWithoutMarker l.indent])
      else (p, [])
    else p.visitValue l key value

def visitOpen (size : Nat) (p : Pass) (l : Line) (next : List Line) : Pass × List Issue :=
  if l.isBullet then p.visitBullet size l
  else if l.isHeading || l.isRule || p.bullet.all (l.indent ≤ ·) then
    ({ p with bullet := none }, [])
  else p.visitContinuation l next

def visit (size : Nat) (p : Pass) (l : Line) (next : List Line) : Pass × List Issue :=
  if l.isBlank || p.block.any (· < l.indent) then (p, [])
  else visitOpen size { p with block := none } l next

def issues (size : Nat) (p : Pass) : List Line → List Issue
  | [] => []
  | l :: ls =>
    let (p, found) := p.visit size l ls
    found ++ p.issues size ls

/-- The lines on which the bullet check runs, each with the state right after it. -/
def bullets (size : Nat) (p : Pass) : List Line → List (Line × Pass)
  | [] => []
  | l :: ls =>
    let after := (p.visit size l ls).1
    let checked := !l.isBlank && !p.block.any (· < l.indent) && l.isBullet
    (if checked then [(l, after)] else []) ++ after.bullets size ls

end Pass

def run (size : Nat) (heading : Option Text) (lines : List Text) : List Issue :=
  ({} : Pass).issues size ((Section.region heading lines).lines size lines)

end Agenda.Lint
