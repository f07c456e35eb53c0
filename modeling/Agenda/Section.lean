import Agenda.Line
import Agenda.Text.Fold

/-!
The task section of a document. It starts at a heading that says the same as the one wanted,
without regard to case, and runs to the next heading of the same or a higher level. A document
without the heading is a task section as a whole. Replacing the section keeps every line outside
it; if there is no heading, the bullets are taken out and the section is put at the end.
-/

namespace Agenda.Section

/-- What a heading says: its text without surrounding whitespace and without regard to case. -/
def caption (heading : Text) : Text := Text.fold (Text.strip heading)

def isTitled (heading line : Text) : Bool :=
  (Heading.level? line).isSome && caption line == caption heading

def heading? (heading : Text) (lines : List Text) : Option Nat :=
  lines.findIdx? (isTitled heading)

def closes (level : Nat) (line : Text) : Bool :=
  match Heading.level? line with
  | some found => found ≤ level
  | none => false

/-- The level of a section heading; one that is no heading counts as level 2. -/
def levelOf (heading : Text) : Nat := (Heading.level? heading).getD 2

/-- The position of the first line after `start` that ends a section of the given level, or the
number of lines. -/
def stop (level start : Nat) (lines : List Text) : Nat :=
  let first := start + 1
  first + (lines.drop first).findIdx (closes level)

/-- The lines from `start` up to, not including, `stop`. -/
structure Region where
  start : Nat
  stop : Nat
deriving DecidableEq, Repr

/-- The lines that hold the tasks: those of the section, or all if no heading is wanted or none
is found. -/
def region (heading : Option Text) (lines : List Text) : Region :=
  let everything := ⟨0, lines.length⟩
  match heading with
  | none => everything
  | some [] => everything
  | some heading =>
    match heading? heading lines with
    | none => everything
    | some index => ⟨index + 1, stop (levelOf heading) index lines⟩

def Region.lines (size : Nat) (r : Region) (lines : List Text) : List Line :=
  Line.ofTexts size r.start ((lines.take r.stop).drop r.start)

/-- The positions of the lines that belong to bullets. A bullet owns the lines that are indented
deeper than itself, and the blank lines between them; a heading, a rule or shallower text ends
its lines. `column` is that of the bullet, and `pending` are the blank lines since its last
line. -/
def ownedFrom (column : Option Nat) (pending : List Nat) : List Line → List Nat
  | [] => []
  | l :: ls =>
    if l.isBlank then
      ownedFrom column (if column.isSome then pending ++ [l.index] else pending) ls
    else if l.isBullet then pending ++ l.index :: ownedFrom (some l.indent) [] ls
    else if l.isHeading || l.isRule || column.all (l.indent ≤ ·) then ownedFrom none [] ls
    else pending ++ l.index :: ownedFrom column [] ls

def ownedLines (size : Nat) (lines : List Text) : List Nat :=
  ownedFrom none [] (Line.ofTexts size 0 lines)

def isBlankText (t : Text) : Bool := t.all isBlank

/-- The lines whose positions are not among `dropped`. Where lines were taken out, of the blank
lines around the gap only one stays. `afterDrop` says that the line before was taken out, and
`afterBlank` that the last line that stayed is blank. -/
def remainder (dropped : List Nat) (index : Nat) (afterDrop afterBlank : Bool) :
    List Text → List Text
  | [] => []
  | line :: lines =>
    if dropped.contains index then remainder dropped (index + 1) true afterBlank lines
    else if afterDrop && afterBlank && isBlankText line then
      remainder dropped (index + 1) false afterBlank lines
    else line :: remainder dropped (index + 1) false (isBlankText line) lines

def dropBlankEnd (lines : List Text) : List Text :=
  (lines.reverse.dropWhile isBlankText).reverse

def append (size : Nat) (heading : Text) (tasks lines : List Text) : List Text :=
  let kept := dropBlankEnd (remainder (ownedLines size lines) 0 false false lines)
  let gap := if kept.isEmpty then [] else [[]]
  let final := if lines.getLast? = some [] then [[]] else []
  kept ++ gap ++ Text.strip heading :: tasks ++ final

def replace (size : Nat) (heading : Text) (tasks lines : List Text) : List Text :=
  match heading? heading lines with
  | some index =>
    lines.take (index + 1) ++ tasks ++ [[]] ++ lines.drop (stop (levelOf heading) index lines)
  | none => append size heading tasks lines

end Agenda.Section
