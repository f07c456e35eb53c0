import Agenda.Identity
import Agenda.Query.Condition

/-!
Changing tasks. Assignments are checked first, and every problem is reported. An update sets
fields of the tasks it is about, a deletion takes them out with everything below them, and an
insertion adds a root at the end.
-/

namespace Agenda.Query

inductive Problem where
  | notAssignable (key : Text)
  | invalidName (key name : Text)
  | notAFlag (key : Text)
  | notAPriority (found : Text)
  | idExists (id : Text)
deriving DecidableEq, Repr

def Problem.message : Problem → Text
  | .notAssignable key => Text.concat ["Field '", key, "' cannot be assigned"]
  | .invalidName key name => Text.concat
      ["Invalid ", if key = Key.tags then "tag" else "stakeholder", " name '", name,
        "'. Names may only contain letters, numbers, hyphens, and underscores."]
  | .notAFlag key => Text.concat ["Field '", key, "' must be true or false"]
  | .notAPriority found => Text.concat
      ["Priority must be one of ", Text.join ", " priorities, ", got '", found, "'"]
  | .idExists id => Text.concat ["Id '", id, "' already exists"]

inductive ChangeError where
  | eval (e : EvalError)
  | refused (problems : List Problem)
  | noFreeId
deriving DecidableEq, Repr

/-- What an assignment sets its field to, null to remove it, and what is wrong with it. -/
def Assignment.change (a : Assignment) (v : Value) : Value × List Problem :=
  if v.isNull then (.null, [])
  else if Key.isList a.key then
    let names := namesIn a.literal.plain
    (if names.isEmpty then .null else .names names,
      (names.filter (!isName ·)).map (.invalidName a.key))
  else if Key.isFlag a.key then
    (v, match v with
      | .flag _ => []
      | _ => [.notAFlag a.key])
  else if a.key = Key.priority then
    let letter := a.literal.plain
    (.text letter, if priorities.contains letter then [] else [.notAPriority letter])
  else if a.key = Key.id || a.key = Key.title then (.text a.literal.plain, [])
  else (v, [])

/-- Whether the field may be assigned at all. The id may be given to a new task only. -/
def isAssignable (isNew : Bool) (key : Text) : Bool :=
  key ≠ Key.parent && (isNew || key ≠ Key.id)

/-- The changes that assignments ask for, after those gathered so far, and their problems. -/
def gatherChanges (isNew : Bool) (changes : Fields) :
    List Assignment → Except Oversize (Fields × List Problem)
  | [] => .ok (changes, [])
  | a :: rest =>
    match a.literal.value with
    | .error e => .error e
    | .ok v =>
      if isAssignable isNew a.key then
        let (change, problems) := a.change v
        (gatherChanges isNew (changes.set a.key change) rest).map fun (changes, more) =>
          (changes, problems ++ more)
      else
        (gatherChanges isNew changes rest).map fun (changes, more) =>
          (changes, .notAssignable a.key :: more)

def readChanges (isNew : Bool) (as : List Assignment) : Except ChangeError Fields :=
  match gatherChanges isNew [] as with
  | .error e => .error (.eval (.ofOversize e))
  | .ok (changes, []) => .ok changes
  | .ok (_, problems) => .error (.refused problems)

def applyChanges (changes fs : Fields) : Fields :=
  changes.foldl (fun fs (key, v) => if v.isNull then fs.erase key else fs.set key v) fs

/-- Makes the changes in the tasks that pass a filter. The result is the forest and how many
tasks there are. -/
def changeFrom (changes : Fields) (filter : Option Filter) :
    Forest Task → Except EvalError (Forest Task × Nat)
  | .nil => .ok (.nil, 0)
  | .cons t children rest =>
    match isMatch filter t with
    | .error e => .error e
    | .ok hit =>
      match changeFrom changes filter children with
      | .error e => .error e
      | .ok (children, inside) =>
        (changeFrom changes filter rest).map fun (rest, after) =>
          let t := if hit then { t with fields := applyChanges changes t.fields } else t
          (.cons t children rest, (if hit then 1 else 0) + inside + after)

def changeMatching (changes : Fields) (filter : Option Filter) (f : Forest Task) :
    Except EvalError (Forest Task × Nat) :=
  (changeFrom changes filter f).map fun (f, count) => (Task.link none f, count)

/-- Takes out the tasks that pass a filter, with everything below them. -/
def removeFrom (filter : Option Filter) : Forest Task → Except EvalError (Forest Task)
  | .nil => .ok .nil
  | .cons t children rest =>
    match isMatch filter t with
    | .error e => .error e
    | .ok true => removeFrom filter rest
    | .ok false =>
      match removeFrom filter children with
      | .error e => .error e
      | .ok children => (removeFrom filter rest).map (.cons t children)

def removeMatching (filter : Option Filter) (f : Forest Task) :
    Except EvalError (Forest Task × Nat) :=
  (removeFrom filter f).map fun left => (Task.link none left, f.size - left.size)

def addTask (changes : Fields) (idLength : Nat) (f : Forest Task) :
    Except ChangeError (Forest Task × Task) :=
  let linked := Task.link none f
  let taken := Task.ids linked.toList
  let new : Task := { fields := applyChanges changes [] }
  match new.id?.filter taken.contains with
  | some id => .error (.refused [.idExists id])
  | none =>
    match new.withId taken idLength with
    | .ok (new, _) => .ok (linked ++ .cons new .nil .nil, new)
    | .error .oversize => .error (.eval .oversize)
    | .error .noFreeId => .error .noFreeId

end Agenda.Query
