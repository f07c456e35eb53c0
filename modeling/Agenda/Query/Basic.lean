import Agenda.Query.Word

/-!
Queries: selecting, updating, deleting and inserting tasks of a file.
-/

namespace Agenda

namespace Query

inductive Comparison where
  | equal
  | greater
  | less
  | contains
deriving DecidableEq, Repr

def Comparison.symbol : Comparison → Text
  | .equal => "="
  | .greater => ">"
  | .less => "<"
  | .contains => "CONTAINS"

inductive Test where
  | compare (op : Comparison) (literal : Word)
  | isNull
  | isNotNull
deriving DecidableEq, Repr

def Test.symbol : Test → Text
  | .compare op _ => op.symbol
  | .isNull => "IS NULL"
  | .isNotNull => "IS NOT NULL"

def Test.literal? : Test → Option Word
  | .compare _ literal => some literal
  | _ => none

structure Condition where
  key : Text
  test : Test
deriving DecidableEq, Repr

inductive Combinator where
  | both
  | either
deriving DecidableEq, Repr

def Combinator.keyword : Combinator → Text
  | .both => "AND"
  | .either => "OR"

inductive Filter where
  | single (c : Condition)
  | pair (left : Condition) (combinator : Combinator) (right : Condition)
deriving DecidableEq, Repr

namespace Filter

def left : Filter → Condition
  | .single c => c
  | .pair left _ _ => left

def combinator? : Filter → Option Combinator
  | .single _ => none
  | .pair _ combinator _ => some combinator

def right? : Filter → Option Condition
  | .single _ => none
  | .pair _ _ right => some right

end Filter

inductive Direction where
  | ascending
  | descending
deriving DecidableEq, Repr

def Direction.keyword : Direction → Text
  | .ascending => "ASC"
  | .descending => "DESC"

structure SortKey where
  key : Text
  direction : Direction := .ascending
deriving DecidableEq, Repr

structure Assignment where
  key : Text
  literal : Word
deriving DecidableEq, Repr

/-- What is selected, in which order and how much of it, and the file it is written to instead of
being shown. -/
structure Selection where
  columns : List Text
  file : Text
  filter : Option Filter := none
  order : List SortKey := []
  limit : Option Nat := none
  target : Option Text := none
deriving DecidableEq, Repr

end Query

inductive Query where
  | select (s : Query.Selection)
  | update (file : Text) (assignments : List Query.Assignment) (filter : Option Query.Filter)
  | delete (file : Text) (filter : Option Query.Filter)
  | insert (file : Text) (assignments : List Query.Assignment)
deriving DecidableEq, Repr

def Query.file : Query → Text
  | .select s => s.file
  | .update file _ _ => file
  | .delete file _ => file
  | .insert file _ => file

def Query.command : Query → Text
  | .select _ => "SELECT"
  | .update _ _ _ => "UPDATE"
  | .delete _ _ => "DELETE"
  | .insert _ _ => "INSERT"

end Agenda
