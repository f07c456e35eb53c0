import Agenda.Number
import Agenda.Text.Quoted

/-!
The values of task fields. Fields have no schema: a value is a text, a flag, a number or a list
of names. `null` is the value of a field that is not set.
-/

namespace Agenda

inductive Value where
  | null
  | text (t : Text)
  | flag (b : Bool)
  | number (n : Number)
  | names (xs : List Text)
deriving DecidableEq, Repr

namespace Value

instance : Inhabited Value := ⟨.null⟩

def isNull : Value → Bool
  | .null => true
  | _ => false

def isNumber : Value → Bool
  | .number _ => true
  | _ => false

def isText : Value → Bool
  | .text _ => true
  | _ => false

/-- The value as a name or a title is made of it, where texts and numbers are what matters; a
list shows its quoted members between brackets. -/
def shown : Value → Text
  | .null => "None"
  | .text t => t
  | .flag b => if b then "True" else "False"
  | .number n => n.text
  | .names xs => '[' :: Text.join ", " (xs.map Text.quoted) ++ [']']

/-- The value as it is compared with texts: flags are `true` and `false`, and a list is its
members with commas between them. -/
def plain : Value → Text
  | .flag b => if b then "true" else "false"
  | .names xs => Text.join [','] xs
  | v => v.shown

def isWritable : Value → Bool
  | .number n => n.isWritable
  | _ => true

/-- The text that a value is compared and shown by, if it has one. -/
def spell (v : Value) : Except Oversize Text :=
  if v.isWritable then .ok v.plain else .error .integer

/-- A flag counts as the number 1 or 0. -/
def number? : Value → Option Number
  | .number n => some n
  | .flag b => some (.int (if b then 1 else 0))
  | _ => none

/-- Equality of values, where numbers and flags are equal if their numbers are. -/
def same (v w : Value) : Bool :=
  match v.number?, w.number? with
  | some m, some n => m.same n
  | _, _ => v == w

end Value

end Agenda
