import Agenda.Scalar
import Agenda.Task
import Agenda.Text.Wrap
import Agenda.Token

/-!
Tasks written as lines. A task is one bullet line if it can be: shorthand, the title in quotes,
then its fields, and its id last. Otherwise the fields are on lines of their own below the
bullet, and long texts are blocks.
-/

namespace Agenda

/-- How tasks are written: the spaces per level, the length above which a text is long, and the
width that the lines of a block are filled to, if they are. -/
structure Layout where
  step : Nat := 2
  longValue : Nat := 25
  wrapWidth : Option Nat := none
deriving DecidableEq, Repr

namespace Layout

/-- Whether the field stands at the front of a bullet as shorthand. Lists of names do if
`withNames` holds. -/
def isShorthand (withNames : Bool) (key : Text) (v : Value) : Bool :=
  (key = Key.completed && (v = .flag true || v = .flag false)) ||
    (key = Key.skipped && v = .flag true) ||
    (key = Key.priority && priorities.any (v = .text ·)) ||
    (withNames && Key.isList key && match v with | .names _ => true | _ => false)

def markedNames (marker : Char) : Value → List Text
  | .names xs => xs.map (marker :: ·)
  | _ => []

def shorthand (withNames : Bool) (fs : Fields) : List Text :=
  let completed : List Text := match fs.get Key.completed with
    | .flag true => ["[x]"]
    | .flag false => ["[_]"]
    | _ => []
  let skipped : List Text := if fs.get Key.skipped = .flag true then ["[-]"] else []
  let priority : List Text := match fs.get Key.priority with
    | .text t => if priorities.contains t then [t] else []
    | _ => []
  let names : List Text :=
    if withNames then
      markedNames '@' (fs.get Key.stakeholders) ++ markedNames '#' (fs.get Key.tags)
    else []
  completed ++ skipped ++ priority ++ names

/-- The fields that neither shorthand nor title nor id show. -/
def otherFields (withNames : Bool) (fs : Fields) : Fields :=
  fs.filter fun (key, v) =>
    !(key = Key.title || key = Key.id || isShorthand withNames key v)

def isUnsafeInId (c : Char) : Bool :=
  c = ' ' || c = '\t' || c = ',' || c = '"' || c = '\'' || c = '\x60' || c = '\\'

/-- An id as it is written: in quotes only if it has to be. -/
def writeId (id : Text) : Text :=
  if !id.isEmpty && !id.any isUnsafeInId then id else enquote id

def idField (t : Task) : List Text :=
  match t.id? with
  | some id => [Text.concat ["id: ", writeId id]]
  | none => []

def titleField (t : Task) : List Text :=
  match t.title? with
  | some title => [enquote title]
  | none => []

def isLong (longValue : Nat) (key : Text) (v : Value) : Bool :=
  match v with
  | .names xs => Key.isList key && !xs.all isName
  | .text t =>
    key ≠ Key.id && !Key.isList key && !Key.isFlag key && key ≠ Key.priority &&
      (t.contains '\n' || longValue < t.length)
  | _ => false

/-- Whether a task is written on more than one line: because it was, or because of a field. -/
def isMultiline (longValue : Nat) (t : Task) : Bool :=
  !t.inline || t.fields.any fun (key, v) => isLong longValue key v

def bulletLine (margin : Text) (parts : List Text) : Text :=
  Text.stripEnd (Text.concat [margin, "- ", Text.join [' '] parts])

/-- Whether a text is written as a block: it has several lines, or it is long and a block keeps
it as it is. -/
def isBlock (longValue : Nat) (t : Text) : Bool :=
  t.contains '\n' || (longValue < t.length && t == Text.strip t)

def blockTexts (wrapWidth : Option Nat) (t : Text) : List Text :=
  let lines := Text.split '\n' t
  match wrapWidth with
  | none => lines
  | some width =>
    lines.flatMap fun line => if line.length ≤ width then [line] else Text.wrap width line

def inlineField (field : Text × Value) : Except Oversize Text :=
  (Scalar.write field.2).map fun written => Text.concat [field.1, ": ", written]

def fieldLines (o : Layout) (margin : Text) (field : Text × Value) : Except Oversize (List Text) :=
  let fieldMargin := margin ++ Text.spaces o.step
  let blockMargin := fieldMargin ++ Text.spaces o.step
  let oneLine (written : Text) := [Text.concat [fieldMargin, field.1, ": ", written]]
  match field.2 with
  | .names xs => .ok (oneLine (enquote (Text.join [','] xs)))
  | .text t =>
    if isBlock o.longValue t then
      .ok (oneLine Scalar.blockMarker ++ (blockTexts o.wrapWidth t).map fun line =>
        if line.isEmpty then [] else blockMargin ++ line)
    else (Scalar.write (.text t)).map oneLine
  | v => (Scalar.write v).map oneLine

def taskLines (o : Layout) (depth : Nat) (t : Task) : Except Oversize (List Text) :=
  let margin := Text.spaces (depth * o.step)
  if isMultiline o.longValue t then
    let bullet := bulletLine margin (shorthand false t.fields ++ titleField t ++ idField t)
    ((otherFields false t.fields).mapM (o.fieldLines margin)).map fun fields =>
      bullet :: fields.flatten
  else
    ((otherFields true t.fields).mapM inlineField).map fun fields =>
      [bulletLine margin (shorthand true t.fields ++ titleField t ++ fields ++ idField t)]

def forestLines (o : Layout) (depth : Nat) : Forest Task → Except Oversize (List Text)
  | .nil => .ok []
  | .cons t children rest =>
    match o.taskLines depth t with
    | .error e => .error e
    | .ok lines =>
      match o.forestLines (depth + 1) children with
      | .error e => .error e
      | .ok below => (o.forestLines depth rest).map fun after => lines ++ below ++ after

def lines (o : Layout) (f : Forest Task) : Except Oversize (List Text) := o.forestLines 0 f

end Layout

end Agenda
