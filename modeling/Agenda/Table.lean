import Agenda.Fields
import Agenda.Text.Width

/-!
Rows shown as a table in markdown. The usual columns come first, in a fixed order, and the others
after them, in alphabetical order. Which characters are wide is a parameter of the layout. There is
no table if an integer in a cell has too many digits to be written.
-/

namespace Agenda.Table

def usualColumns : List Text :=
  ["id", "parent", "title", "priority", "stakeholders", "completed", "skipped", "due", "weight"]

def columns (rows : List Fields) : List Text :=
  let keys := rows.flatMap Fields.keys
  let others := (keys.filter fun key => !usualColumns.contains key).eraseDups
  usualColumns.filter keys.contains ++ others.mergeSort fun a b => (Text.compare a b).isLE

def checkMark : Text := ['✅']

/-- What a cell says of a value; a list shows its members with commas between them. -/
def wording : Value → Except Oversize Text
  | .names xs => .ok (Text.join ", " xs)
  | v => v.spell

/-- A cell: one line, stripped, with a backslash before each bar. A flag is a mark or nothing. -/
def cell : Value → Except Oversize Text
  | .null => .ok []
  | .flag b => .ok (if b then checkMark else [])
  | v => (wording v).map fun t =>
    Text.replaceChar '|' ['\\', '|'] (Text.strip (Text.replaceChar '\n' [' '] t))

def minWidth : Nat := 3

def columnWidth (wide : Char → Bool) (name : Text) (cells : List Text) : Nat :=
  (cells.map (Text.width wide)).foldl max (max minWidth name.length)

def padTo (wide : Char → Bool) (width : Nat) (t : Text) : Text :=
  t ++ Text.spaces (width - Text.width wide t)

def line (wide : Char → Bool) (widths : List Nat) (cells : List Text) : Text :=
  Text.concat ["| ", Text.join " | " (List.zipWith (padTo wide) widths cells), " |"]

def widths (wide : Char → Bool) (names : List Text) (cells : List (List Text)) : List Nat :=
  names.zipIdx.map fun (name, i) => columnWidth wide name (cells.map (·.getD i []))

def lines (wide : Char → Bool) (names : List Text) (cells : List (List Text)) : List Text :=
  let widths := widths wide names cells
  line wide widths names :: line wide widths (widths.map (List.replicate · '-')) ::
    cells.map (line wide widths)

def renderWith (wide : Char → Bool) (rows : List Fields) : Except Oversize Text :=
  if rows.isEmpty then .ok "No tasks found."
  else
    let names := columns rows
    (rows.mapM fun row => names.mapM fun name => cell (row.get name)).map fun cells =>
      Text.join ['\n'] (lines wide names cells)

def render (rows : List Fields) : Except Oversize Text := renderWith Text.isWide rows

end Agenda.Table
