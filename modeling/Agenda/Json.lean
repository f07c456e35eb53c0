import Agenda.Fields

/-!
JSON texts: compact ones, as they are hashed, and indented ones, as they are shown. Characters
beyond ASCII stand for themselves.
-/

namespace Agenda.Json

def escapeChar (c : Char) : Text :=
  if c = '"' then ['\\', '"']
  else if c = '\\' then ['\\', '\\']
  else if c = '\n' then ['\\', 'n']
  else if c = '\r' then ['\\', 'r']
  else if c = '\t' then ['\\', 't']
  else if c.toNat = 0x08 then ['\\', 'b']
  else if c.toNat = 0x0C then ['\\', 'f']
  else if c.toNat < 0x20 then '\\' :: 'u' :: Text.hex 4 c.toNat
  else [c]

def string (t : Text) : Text := '"' :: t.flatMap escapeChar ++ ['"']

def number : Number → Text
  | .float .nan => "NaN"
  | .float (.infinite negative) => if negative then "-Infinity" else "Infinity"
  | n => n.text

def value (list : List Text → Text) : Value → Text
  | .null => "null"
  | .text t => string t
  | .flag b => if b then "true" else "false"
  | .number n => number n
  | .names xs => list xs

def compactList (xs : List Text) : Text := '[' :: Text.join [','] (xs.map string) ++ [']']

def compactEntry (entry : Text × Value) : Text :=
  string entry.1 ++ ':' :: value compactList entry.2

def compact (fs : Fields) : Except Oversize Text :=
  if fs.all (·.2.isWritable) then
    .ok ('\x7b' :: Text.join [','] (fs.map compactEntry) ++ ['\x7d'])
  else .error .integer

/-- Members between brackets, each on a line of its own, indented one step deeper than the
closing bracket. -/
def indentedMembers (openMark closeMark : Char) (depth : Nat) (members : List Text) : Text :=
  if members.isEmpty then [openMark, closeMark]
  else
    let outer := '\n' :: Text.spaces (2 * depth)
    let inner := '\n' :: Text.spaces (2 * (depth + 1))
    openMark :: inner ++ Text.join (',' :: inner) members ++ outer ++ [closeMark]

def indentedEntry (entry : Text × Value) : Text :=
  let list xs := indentedMembers '[' ']' 2 (xs.map string)
  string entry.1 ++ ':' :: ' ' :: value list entry.2

/-- A list of field maps, indented by two spaces per level. -/
def indented (rows : List Fields) : Except Oversize Text :=
  if rows.all fun fs => fs.all (·.2.isWritable) then
    .ok (indentedMembers '[' ']' 0 (rows.map fun fs =>
      indentedMembers '\x7b' '\x7d' 1 (fs.map indentedEntry)))
  else .error .integer

end Agenda.Json
