import Agenda.Digest
import Agenda.Json
import Agenda.Task
import Agenda.Token

/-!
Computed ids. A task without an id gets one from a digest of the fields that identify it. If the
id is taken, the digest is taken again with a counter of occurrences, until it is free.
-/

namespace Agenda

structure Identity where
  title : Value
  tags : List Text
  priority : Value
  stakeholders : List Text
  due : Value
deriving DecidableEq, Repr

namespace Identity

/-- The names in a value; a text counts as the list of its characters. -/
def namesOf : Value → List Text
  | .names xs => xs
  | .text t => t.map ([·])
  | _ => []

/-- The identity that a field map gives. A missing title counts as an empty one. -/
def ofFields (fs : Fields) : Identity where
  title := if fs.has Key.title then fs.get Key.title else .text []
  tags := namesOf (fs.get Key.tags)
  priority := fs.get Key.priority
  stakeholders := namesOf (fs.get Key.stakeholders)
  due := fs.get Key.due

def toFields (i : Identity) : Fields :=
  [(Key.title, i.title), (Key.tags, .names i.tags), (Key.priority, i.priority),
    (Key.stakeholders, .names i.stakeholders), (Key.due, i.due)]

/-- The text that is hashed: the fields in alphabetical order, with the counter among them from
the first recurrence on. -/
def canonical (i : Identity) (occurrence : Nat) : Except Oversize Text :=
  let counter : Fields :=
    if occurrence = 0 then [] else [("occurrence", .number (.int occurrence))]
  Json.compact ((Key.due, i.due) :: counter ++ [(Key.priority, i.priority),
    (Key.stakeholders, .names i.stakeholders), (Key.tags, .names i.tags), (Key.title, i.title)])

def hash (i : Identity) (length occurrence : Nat) : Except Oversize Text :=
  (i.canonical occurrence).map fun t => (Digest.sha1 (Text.toBytes t)).take length

/-- The first id from an occurrence on that is not taken, among as many as `tries`. -/
def free? (i : Identity) (taken : List Text) (length : Nat) : (tries occurrence : Nat) →
    Except Oversize (Option Text)
  | 0, _ => .ok none
  | tries + 1, occurrence =>
    match i.hash length occurrence with
    | .error e => .error e
    | .ok candidate =>
      if taken.contains candidate then i.free? taken length tries (occurrence + 1)
      else .ok (some candidate)

/-- How many occurrences are tried for one task. -/
def maxTries : Nat := 2 ^ 32

end Identity

inductive ReadError where
  | oversize
  | noFreeId
deriving DecidableEq, Repr

def ReadError.ofOversize : Oversize → ReadError
  | .integer => .oversize

namespace Task

/-- The task with an id: its own, or a computed one that is not taken. -/
def withId (t : Task) (taken : List Text) (length : Nat) : Except ReadError (Task × Text) :=
  match t.id? with
  | some id => .ok (t, id)
  | none =>
    match (Identity.ofFields t.fields).free? taken length Identity.maxTries 0 with
    | .error e => .error (.ofOversize e)
    | .ok none => .error .noFreeId
    | .ok (some id) => .ok ({ t with fields := t.fields.set Key.id (.text id) }, id)

def assignIds (length : Nat) (taken : List Text) : List Task → Except ReadError (List Task)
  | [] => .ok []
  | t :: ts =>
    match t.withId taken length with
    | .error e => .error e
    | .ok (t, id) =>
      match assignIds length (addName taken id) ts with
      | .error e => .error e
      | .ok ts => .ok (t :: ts)

end Task

end Agenda
