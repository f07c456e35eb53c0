import Agenda.Entry
import Agenda.Shorthand
import Agenda.Task

/-!
From an entry to a task. A bullet starts with shorthand. What follows up to the first key is the
title: as it stands if there is no key and it does not begin with a quote, and otherwise the
first quoted string. Keys and values set fields, on the bullet and on the lines after it.
-/

namespace Agenda

namespace Fields

def names (fs : Fields) (key : Text) : List Text :=
  match fs.get key with
  | .names xs => xs
  | _ => []

/-- What a shorthand sets. The first priority counts, and a task that is done stays done. -/
def addShorthand (fs : Fields) : Shorthand → Fields
  | .priority letter => if fs.has Key.priority then fs else fs.set Key.priority (.text letter)
  | .completed done =>
    if done || !fs.has Key.completed then fs.set Key.completed (.flag done) else fs
  | .skipped => fs.set Key.skipped (.flag true)
  | .stakeholder name =>
    fs.set Key.stakeholders (.names (addName (fs.names Key.stakeholders) name))
  | .tag name => fs.set Key.tags (.names (addName (fs.names Key.tags) name))

/-- Sets a field to a value that was read. A list of names grows by the names in the value, and
an id, a title or a priority is always a text. -/
def assign (fs : Fields) (key : Text) (v : Value) : Fields :=
  if Key.isList key then fs.set key (.names (addNames (fs.names key) (namesIn v.plain)))
  else if key = Key.id || key = Key.title || key = Key.priority then fs.set key (.text v.plain)
  else fs.set key v

/-- Sets a field as it is written. An id is never taken for a number or a flag. -/
def assignWritten (fs : Fields) (key raw : Text) : Except Oversize Fields :=
  if key = Key.id then .ok (fs.assign key (.text (dequote raw)))
  else (Scalar.read raw).map (fs.assign key)

def assignAll (fs : Fields) : List (Text × Written) → Except Oversize Fields
  | [] => .ok fs
  | (key, .inline raw) :: rest =>
    match fs.assignWritten key raw with
    | .error e => .error e
    | .ok fs => fs.assignAll rest
  | (key, .block t) :: rest => (fs.assign key (.text t)).assignAll rest

end Fields

namespace Bullet

def shorthand : List Token → List Shorthand × List Token
  | [] => ([], [])
  | t :: ts =>
    match Shorthand.read? t.text with
    | none => ([], t :: ts)
    | some s =>
      let (found, rest) := shorthand ts
      (s :: found, rest)

def title? (content : Text) (rest : List Token) : Option Text :=
  let head := rest.takeWhile (!·.isKey)
  match head with
  | [] => none
  | first :: _ =>
    if head.length == rest.length && !first.quoted then
      some (Text.strip (content.drop first.start))
    else (head.find? (·.quoted)).map (dequote ·.text)

def headFields (content : Text) (ts : List Token) : Fields :=
  let (found, rest) := shorthand ts
  let fs := found.foldl Fields.addShorthand []
  match title? content rest with
  | some title => fs.set Key.title (.text title)
  | none => fs

def written (ts : List Token) : List (Text × Written) :=
  (pairs ((shorthand ts).2.dropWhile (!·.isKey))).map fun p => (p.key, .inline p.raw)

end Bullet

namespace Entry

def task (size : Nat) (e : Entry) : Except Oversize Task :=
  let ts := tokens e.content
  ((Bullet.headFields e.content ts).assignAll (Bullet.written ts ++ e.fields)).map fun fs =>
    { fields := fs
      indent := e.line.indent / size
      line := e.line.index + 1
      inline := e.fields.isEmpty }

/-- The tasks of the entries, each with the column of its bullet. -/
def tasks (size : Nat) : List Entry → Except Oversize (List (Nat × Task))
  | [] => .ok []
  | e :: es =>
    match e.task size with
    | .error err => .error err
    | .ok t => (tasks size es).map ((e.line.indent, t) :: ·)

end Entry

end Agenda
