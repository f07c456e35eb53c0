import Agenda.Query.Change
import Agenda.Query.Select

/-!
Queries on a forest of tasks that is held in memory.
-/

namespace Agenda.Query

inductive Effect where
  | selected (count : Nat)
  | updated (changes : Fields) (count : Nat)
  | deleted (count : Nat)
  | inserted (changes : Fields) (id : Option Text)
deriving DecidableEq, Repr

/-- The forest after a query, and what the query did. A selection leaves the selected tasks. -/
def step (idLength : Nat) (q : Query) (f : Forest Task) :
    Except ChangeError (Forest Task × Effect) :=
  match q with
  | .select s => ((s.tasks f).mapError .eval).map fun ts => (rebuild ts, .selected ts.length)
  | .update _ assignments filter =>
    (readChanges false assignments).bind fun changes =>
      ((changeMatching changes filter f).mapError .eval).map fun (f, count) =>
        (f, .updated changes count)
  | .delete _ filter =>
    ((removeMatching filter f).mapError .eval).map fun (f, count) => (f, .deleted count)
  | .insert _ assignments =>
    (readChanges true assignments).bind fun changes =>
      (addTask changes idLength f).map fun (f, t) => (f, .inserted changes t.id?)

end Agenda.Query
