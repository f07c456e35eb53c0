import Agenda.Line
import Agenda.Scalar

/-!
What the lines of a task section say. Every line plays one role: it starts a task, sets a field,
opens a block, belongs to a block, or says nothing. A task entry is the line of a bullet with the
fields that the lines after it set.
-/

namespace Agenda

inductive Role where
  | blank
  | bullet (content : Text)
  | field (key value : Text)
  | block (key : Text)
  | blockLine
  /-- A line of a task that is neither a field nor part of a block. -/
  | stray
  /-- A line that belongs to no task. -/
  | outside
deriving DecidableEq, Repr

/-- What the reader keeps from line to line: the column of the bullet that the lines belong to,
and that of the key whose block is open. -/
structure Reader where
  bullet : Option Nat
  block : Option Nat
deriving DecidableEq, Repr

namespace Reader

def start : Reader := ⟨none, none⟩

/-- Whether the first line that is not blank is indented deeper than `indent`. -/
def isDeeper (indent : Nat) (lines : List Line) : Bool :=
  match lines.find? (!·.isBlank) with
  | some l => indent < l.indent
  | none => false

def inBlock (r : Reader) (l : Line) : Bool := r.block.any fun key => l.isBlank || key < l.indent

def inTask (r : Reader) (l : Line) : Bool :=
  !l.isHeading && !l.isRule && r.bullet.any (· < l.indent)

/-- The role of a line, of which the lines after it are known. A key with the block marker opens
a block, and so does a key without a value if deeper lines follow. -/
def role (r : Reader) (l : Line) (next : List Line) : Role :=
  if r.inBlock l then .blockLine
  else if l.isBlank then .blank
  else match l.bullet? with
    | some content => .bullet content
    | none =>
      if !r.inTask l then .outside
      else match l.keyed? with
        | none => .stray
        | some (key, value) =>
          if value = Scalar.blockMarker || (value.isEmpty && isDeeper l.indent next) then .block key
          else .field key value

def after (r : Reader) (l : Line) : Role → Reader
  | .blank => r
  | .bullet _ => ⟨some l.indent, none⟩
  | .field _ _ => ⟨r.bullet, none⟩
  | .block _ => ⟨r.bullet, some l.indent⟩
  | .blockLine => r
  | .stray => ⟨r.bullet, none⟩
  | .outside => ⟨none, none⟩

def roles (r : Reader) : List Line → List (Line × Role)
  | [] => []
  | l :: ls =>
    let role := r.role l ls
    (l, role) :: (r.after l role).roles ls

end Reader

inductive Written where
  | inline (t : Text)
  | block (t : Text)
deriving DecidableEq, Repr

/-- A bullet with the fields that the lines after it set. -/
structure Entry where
  line : Line
  content : Text
  fields : List (Text × Written)
deriving DecidableEq, Repr

namespace Entry

/-- A line of a block without the indentation of the block: up to one step past its key. -/
def blockLine (margin : Nat) (l : Line) : Text :=
  if l.isBlank then [] else Text.stripEnd (l.raw.drop (min l.indent margin))

/-- The text of a block whose key is in column `key`, without the blank lines at its end. -/
def blockText (size key : Nat) (lines : List Line) : Text :=
  let texts := lines.map (blockLine (key + size))
  Text.join ['\n'] (texts.reverse.dropWhile List.isEmpty).reverse

/-- What has been gathered from the lines after some point: the lines of a block whose key is
still to come, the fields of a task whose bullet is still to come, and the entries after it. -/
structure Gathered where
  block : List Line := []
  fields : List (Text × Written) := []
  entries : List Entry := []

def gather (size : Nat) (l : Line) (role : Role) (g : Gathered) : Gathered :=
  match role with
  | .bullet content => { entries := ⟨l, content, g.fields⟩ :: g.entries }
  | .field key value => { g with fields := (key, .inline value) :: g.fields }
  | .block key =>
    { g with block := [], fields := (key, .block (blockText size l.indent g.block)) :: g.fields }
  | .blockLine => { g with block := l :: g.block }
  | .blank | .stray | .outside => g

def ofLines (size : Nat) (lines : List Line) : List Entry :=
  ((Reader.start.roles lines).foldr (fun (l, role) => gather size l role) {}).entries

end Entry

end Agenda
