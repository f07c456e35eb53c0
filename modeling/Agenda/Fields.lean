import Agenda.Value

/-!
Field maps. The order of the fields is the order in which they were first set, and it shows in
everything that is written: setting a field again keeps its place, a new field goes last.
-/

namespace Agenda

/-! ### The fields that the library gives a meaning to -/
namespace Key

def id : Text := "id"
def parent : Text := "parent"
def title : Text := "title"
def priority : Text := "priority"
def completed : Text := "completed"
def skipped : Text := "skipped"
def stakeholders : Text := "stakeholders"
def tags : Text := "tags"
def due : Text := "due"

def isList (key : Text) : Bool := key = stakeholders || key = tags

def isFlag (key : Text) : Bool := key = completed || key = skipped

end Key

/-- The letters that a priority may be, the most urgent first. -/
def priorities : List Text := [['A'], ['B'], ['C'], ['D']]

abbrev Fields := List (Text × Value)

namespace Fields

/-- The value of a field, null if it is not set. -/
def get (fs : Fields) (key : Text) : Value := (fs.lookup key).getD .null

def has (fs : Fields) (key : Text) : Bool := fs.any (·.1 = key)

def keys (fs : Fields) : List Text := fs.map (·.1)

/-- Sets a field: in its place if it is there, at the end otherwise. -/
def set (key : Text) (value : Value) : Fields → Fields
  | [] => [(key, value)]
  | (k, v) :: rest => if k = key then (k, value) :: rest else (k, v) :: set key value rest

def erase (key : Text) (fs : Fields) : Fields := fs.filter (·.1 ≠ key)

def ofList (entries : List (Text × Value)) : Fields :=
  entries.foldl (fun fs (key, value) => set key value fs) []

/-- Equality of maps without regard to the order of their fields. -/
def same (fs gs : Fields) : Bool :=
  fs.length == gs.length &&
    fs.all fun (key, v) => match gs.lookup key with
      | some w => v.same w
      | none => false

end Fields

end Agenda
