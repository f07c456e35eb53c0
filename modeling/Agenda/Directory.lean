import Agenda.Text.Quoted
import Agenda.Text.Utf8

/-!
Files. A directory is known by the paths of the files and the folders in it. Files are read as
UTF-8, and all kinds of line ends are read as line feeds.
-/

namespace Agenda

/-- A path without the parts that say nothing: `.` and empty ones. `root` is empty for a path
that starts in the directory, and the leading slashes otherwise. -/
structure Path where
  root : Text
  parts : List Text
deriving DecidableEq, Repr

namespace Path

/-- Two leading slashes are kept, any other number counts as one. -/
def rootOf (t : Text) : Text :=
  match (t.takeWhile (· = '/')).length with
  | 0 => []
  | 2 => ['/', '/']
  | _ => ['/']

def ofText (t : Text) : Path where
  root := rootOf t
  parts := (Text.split '/' t).filter fun part => !part.isEmpty && part ≠ ['.']

def text (p : Path) : Text :=
  match p.root ++ Text.join ['/'] p.parts with
  | [] => ['.']
  | t => t

def ancestors (p : Path) : List Path :=
  (List.range p.parts.length).map fun n => { p with parts := p.parts.take n }

def maxPartBytes : Nat := 255

def maxBytes : Nat := 4095

def hasLongName (p : Path) : Bool :=
  p.parts.getLast?.any fun part => maxPartBytes < (Text.toBytes part).length

/-- Whether the path leads to where it starts or further up. -/
def isUpward (p : Path) : Bool := p.parts.all (· = ['.', '.'])

end Path

inductive FileError where
  | missing (path : Path)
  | notADirectory (path : Path)
  | isADirectory (path : Path)
  | nameTooLong (path : Path)
  | notText (path : Path)
  /-- The path has a character that no file name can have. -/
  | unnameable (path : Path)
deriving DecidableEq, Repr

/-- The message of an error that the file system reports; the others have none. -/
def FileError.message : FileError → Text
  | .missing p => Text.concat ["[Errno 2] No such file or directory: ", Text.quoted p.text]
  | .notADirectory p => Text.concat ["[Errno 20] Not a directory: ", Text.quoted p.text]
  | .isADirectory p => Text.concat ["[Errno 21] Is a directory: ", Text.quoted p.text]
  | .nameTooLong p => Text.concat ["[Errno 36] File name too long: ", Text.quoted p.text]
  | .notText _ => []
  | .unnameable _ => []

abbrev Bytes := List UInt8

/-- Files by their paths, and the paths of the folders. -/
structure Directory where
  files : List (Text × Bytes) := []
  folders : List Text := []
deriving DecidableEq, Repr

namespace Directory

def get? (d : Directory) (name : Text) : Option Bytes := d.files.lookup name

def put (name : Text) (content : Bytes) : List (Text × Bytes) → List (Text × Bytes)
  | [] => [(name, content)]
  | (n, c) :: rest => if n = name then (n, content) :: rest else (n, c) :: put name content rest

def set (d : Directory) (name : Text) (content : Bytes) : Directory :=
  { d with files := put name content d.files }

inductive Place where
  | file (name : Text) (content : Bytes)
  /-- No file, but one can be made. -/
  | free (name : Text)
  | folder
  /-- A path into a folder that does not exist. -/
  | nowhere
  /-- A path into a file as if it were a folder. -/
  | throughFile
  | tooLong
  | unnameable
deriving DecidableEq, Repr

def isFolder (d : Directory) (p : Path) : Bool := p.isUpward || d.folders.contains p.text

/-- Finds what a path leads to: the first part on the way that is no folder decides. -/
def locate (d : Directory) (p : Path) : Place :=
  let name := p.text
  if name.contains '\x00' then .unnameable
  else if Path.maxBytes < (Text.toBytes name).length then .tooLong
  else match (p.ancestors ++ [p]).find? fun q => !d.isFolder q with
    | none => .folder
    | some q =>
      if q.hasLongName then .tooLong
      else match d.get? q.text with
        | some content => if q = p then .file name content else .throughFile
        | none => if q = p then .free name else .nowhere

/-- Asks whether there is something at the path. Of a path that is too long this cannot be
asked. -/
def hasPath (d : Directory) (p : Path) : Except FileError Bool :=
  match d.locate p with
  | .file _ _ | .folder => .ok true
  | .tooLong => .error (.nameTooLong p)
  | _ => .ok false

def isFile (d : Directory) (p : Path) : Except FileError Bool :=
  match d.locate p with
  | .file _ _ => .ok true
  | .tooLong => .error (.nameTooLong p)
  | _ => .ok false

def read (d : Directory) (p : Path) : Except FileError Bytes :=
  match d.locate p with
  | .file _ content => .ok content
  | .free _ | .nowhere => .error (.missing p)
  | .folder => .error (.isADirectory p)
  | .throughFile => .error (.notADirectory p)
  | .tooLong => .error (.nameTooLong p)
  | .unnameable => .error (.unnameable p)

def write (d : Directory) (p : Path) (content : Bytes) : Except FileError Directory :=
  match d.locate p with
  | .file name _ | .free name => .ok (d.set name content)
  | .nowhere => .error (.missing p)
  | .folder => .error (.isADirectory p)
  | .throughFile => .error (.notADirectory p)
  | .tooLong => .error (.nameTooLong p)
  | .unnameable => .error (.unnameable p)

/-- Every line end becomes a line feed: a carriage return with or without one after it. -/
def evenLineEnds : Text → Text
  | [] => []
  | '\r' :: '\n' :: cs => '\n' :: evenLineEnds cs
  | c :: cs => (if c = '\r' then '\n' else c) :: evenLineEnds cs

def linesOf (t : Text) : List Text := if t.isEmpty then [] else Text.split '\n' t

/-- The lines of a file. A line feed at the end gives an empty last line. -/
def linesAt (d : Directory) (p : Path) : Except FileError (List Text) :=
  match d.read p with
  | .error e => .error e
  | .ok bytes =>
    match Text.ofBytes? bytes with
    | some t => .ok (linesOf (evenLineEnds t))
    | none => .error (.notText p)

def putLines (d : Directory) (p : Path) (lines : List Text) : Except FileError Directory :=
  d.write p (Text.toBytes (Text.join ['\n'] lines))

end Directory

end Agenda
