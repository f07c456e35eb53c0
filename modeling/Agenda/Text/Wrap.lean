import Agenda.Text.Basic

/-!
Filling a long line into lines of limited width. The line is cut into words and the gaps between
them, and lines are filled greedily. A gap is dropped at the start and at the end of a line, but
the very first line keeps the gap it starts with; a word longer than the width is broken.
-/

namespace Agenda.Text

/-- The characters that may stand for a gap: tab, line feed, vertical tab, form feed, carriage
return and space. -/
def isGap (c : Char) : Bool := c = ' ' || (0x09 ≤ c.toNat && c.toNat ≤ 0x0D)

/-- Tabs run to the next multiple of eight columns. -/
def spreadTabs (column : Nat) : Text → Text
  | [] => []
  | c :: cs =>
    if c = '\t' then
      let advance := 8 - column % 8
      spaces advance ++ spreadTabs (column + advance) cs
    else c :: spreadTabs (if c = '\n' || c = '\r' then 0 else column + 1) cs

/-- The line with its tabs expanded and every other gap character turned into a space. -/
def evenGaps (t : Text) : Text := (spreadTabs 0 t).map fun c => if isGap c then ' ' else c

def chunks : Text → List Text
  | [] => []
  | c :: cs =>
    match chunks cs with
    | (d :: ds) :: rest =>
      if isGap c = isGap d then (c :: d :: ds) :: rest else [c] :: (d :: ds) :: rest
    | rest => [c] :: rest

/-- Takes chunks from the front as long as they fit into `room` characters. -/
def takeFitting (room : Nat) : List Text → List Text × List Text
  | [] => ([], [])
  | chunk :: rest =>
    if chunk.length ≤ room then
      let (taken, left) := takeFitting (room - chunk.length) rest
      (chunk :: taken, left)
    else ([], chunk :: rest)

def isDroppable (chunk : Text) : Bool := (strip chunk).isEmpty

/-- Fills one line: the chunks on it, and those left over. A chunk that fits on no line is cut
at the end of this one. -/
def fillLine (width : Nat) (pieces : List Text) : List Text × List Text :=
  match takeFitting width pieces with
  | (taken, chunk :: rest) =>
    if width < chunk.length then
      let room := width - (taken.map List.length).sum
      (taken ++ [chunk.take room], chunk.drop room :: rest)
    else (taken, chunk :: rest)
  | (taken, []) => (taken, [])

def trimLine (line : List Text) : List Text :=
  match line.getLast? with
  | some chunk => if isDroppable chunk then line.dropLast else line
  | none => line

def skipGap : List Text → List Text
  | chunk :: rest => if isDroppable chunk then rest else chunk :: rest
  | [] => []

/-- Fills lines until no chunk is left. Each line takes at least one character, so as many lines
as there are characters are enough. `started` says whether a line was written before. -/
def fillLines (width : Nat) : Nat → Bool → List Text → List Text
  | 0, _, _ => []
  | _ + 1, _, [] => []
  | fuel + 1, started, pieces =>
    let (line, rest) := fillLine width (if started then skipGap pieces else pieces)
    match trimLine line with
    | [] => fillLines width fuel started rest
    | kept => kept.flatten :: fillLines width fuel true rest

def wrap (width : Nat) (t : Text) : List Text :=
  let line := evenGaps t
  fillLines width (line.length + 1) false (chunks line)

end Agenda.Text
