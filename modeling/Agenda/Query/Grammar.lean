import Agenda.Query.Basic
import Agenda.Text.Digit
import Agenda.Token

/-!
Queries read from text. Keywords may be written in any case, and clauses come in a fixed order.
-/

namespace Agenda.Query

def first (what : Text) : List Word → Except Error (Word × List Word)
  | [] => .error (.ended what)
  | w :: ws => .ok (w, ws)

def skip (keyword : Text) : List Word → Except Error (List Word)
  | [] => .error (.ended keyword)
  | w :: ws => if w.isKeyword keyword then .ok ws else .error (.expected keyword w.text)

def after? (keyword : Text) : List Word → Option (List Word)
  | [] => none
  | w :: ws => if w.isKeyword keyword then some ws else none

/-- The words up to the first that is one of the keywords, and those from there on. -/
def splitAtKeyword (keywords : List Text) (ws : List Word) : List Word × List Word :=
  ws.span fun w => !keywords.any w.isKeyword

def finish : List Word → Except Error Unit
  | [] => .ok ()
  | w :: _ => .error (.unexpected w.text)

def commaGroups : List Word → List (List Word)
  | [] => [[]]
  | w :: ws =>
    if w.isComma then [] :: commaGroups ws
    else match commaGroups ws with
      | [] => [[w]]
      | group :: groups => (w :: group) :: groups

def shown (ws : List Word) : Text := Text.join [' '] (ws.map (·.text))

def comparison? (w : Word) : Option Comparison :=
  if w.isKeyword "=" then some .equal
  else if w.isKeyword ">" then some .greater
  else if w.isKeyword "<" then some .less
  else if w.isKeyword "CONTAINS" then some .contains
  else none

/-- Reads `IS NULL` or `IS NOT NULL`; `rest` follows `IS`. -/
def readIs (all : List Word) (key : Text) (rest : List Word) : Except Error Condition :=
  match rest with
  | [w] => if w.isKeyword "NULL" then .ok ⟨key, .isNull⟩ else .error (.malformedIs (shown all))
  | [v, w] =>
    if v.isKeyword "NOT" && w.isKeyword "NULL" then .ok ⟨key, .isNotNull⟩
    else .error (.malformedIs (shown all))
  | _ => .error (.malformedIs (shown all))

def readCondition (ws : List Word) : Except Error Condition :=
  match ws with
  | key :: op :: literal :: rest =>
    if op.isKeyword "IS" then readIs ws key.text (literal :: rest)
    else if !rest.isEmpty then .error (.malformedCondition (shown ws))
    else match comparison? op with
      | some c => .ok ⟨key.text, .compare c literal⟩
      | none => .error (.unknownOperator op.text)
  | _ => .error (.malformedCondition (shown ws))

def combinator? (w : Word) : Option Combinator :=
  if w.isKeyword "AND" then some .both
  else if w.isKeyword "OR" then some .either
  else none

def readFilter (ws : List Word) : Except Error Filter :=
  if ws.isEmpty then .error .noCondition
  else if 1 < ws.countP (fun w => (combinator? w).isSome) then .error .severalCombinators
  else
    let (left, rest) := ws.span fun w => (combinator? w).isNone
    match readCondition left, rest with
    | .error e, _ => .error e
    | .ok c, [] => .ok (.single c)
    | .ok c, w :: right =>
      match combinator? w with
      | some combinator => (readCondition right).map (.pair c combinator)
      | none => .ok (.single c)

/-- Reads the rest of a query as a filter, if it starts with one. -/
def readLastFilter (ws : List Word) : Except Error (Option Filter) :=
  match after? "WHERE" ws with
  | some ws => (readFilter ws).map some
  | none => .ok none

def readAssignment (group : List Word) : Except Error Assignment :=
  match group with
  | [key, op, literal] =>
    if op.quoted || op.text ≠ ['='] then .error (.notAnAssignment (shown group))
    else if isKeyName key.text then .ok ⟨key.text, literal⟩
    else .error (.notAFieldName key.text)
  | _ => .error (.notAnAssignment (shown group))

def readAssignments (ws : List Word) : Except Error (List Assignment) :=
  if ws.isEmpty then .error .noAssignments else (commaGroups ws).mapM readAssignment

def readSortKey (group : List Word) : Except Error SortKey :=
  match group with
  | [key] => .ok ⟨key.text, .ascending⟩
  | [key, direction] =>
    if direction.isKeyword "ASC" then .ok ⟨key.text, .ascending⟩
    else if direction.isKeyword "DESC" then .ok ⟨key.text, .descending⟩
    else .error (.unknownDirection direction.text)
  | _ => .error .notASortKey

def readOrder (ws : List Word) : Except Error (List SortKey) := (commaGroups ws).mapM readSortKey

def readLimit (t : Text) : Except Error Nat :=
  if t.isEmpty || !t.all Text.isDigitLike then .error (.notALimit t)
  else if t.all Text.isDigit && t.length ≤ Number.maxDigits then .ok (Text.natOfDigits t)
  else .error .unreadableLimit

def whereClause (ws : List Word) : Except Error (Option Filter × List Word) :=
  match after? "WHERE" ws with
  | none => .ok (none, ws)
  | some ws =>
    let (own, rest) := splitAtKeyword ["ORDER", "LIMIT", "INTO"] ws
    (readFilter own).map fun filter => (some filter, rest)

def orderClause (ws : List Word) : Except Error (List SortKey × List Word) :=
  match after? "ORDER" ws with
  | none => .ok ([], ws)
  | some ws => do
    let (own, rest) := splitAtKeyword ["LIMIT", "INTO"] (← skip "BY" ws)
    return (← readOrder own, rest)

def limitClause (ws : List Word) : Except Error (Option Nat × List Word) :=
  match after? "LIMIT" ws with
  | none => .ok (none, ws)
  | some ws => do
    let (limit, rest) ← first "a LIMIT value" ws
    return (some (← readLimit limit.text), rest)

def intoClause (ws : List Word) : Except Error (Option Text × List Word) :=
  match after? "INTO" ws with
  | none => .ok (none, ws)
  | some ws => (first "a target file name" ws).map fun (target, rest) => (some target.text, rest)

def readSelect (ws : List Word) : Except Error Query := do
  let (own, ws) := splitAtKeyword ["FROM"] ws
  let columns := (own.map (·.text)).filter (· ≠ [','])
  if columns.isEmpty then throw .noColumns
  let (file, ws) ← first "a file name" (← skip "FROM" ws)
  let (filter, ws) ← whereClause ws
  let (order, ws) ← orderClause ws
  let (limit, ws) ← limitClause ws
  let (target, ws) ← intoClause ws
  finish ws
  return .select ⟨columns, file.text, filter, order, limit, target⟩

def readUpdate (ws : List Word) : Except Error Query := do
  let (file, ws) ← first "a file name" ws
  let (own, ws) := splitAtKeyword ["WHERE"] (← skip "SET" ws)
  let assignments ← readAssignments own
  return .update file.text assignments (← readLastFilter ws)

def readDelete (ws : List Word) : Except Error Query := do
  let (file, ws) ← first "a file name" (← skip "FROM" ws)
  match after? "WHERE" ws with
  | some own => return .delete file.text (some (← readFilter own))
  | none => finish ws; return .delete file.text none

def readInsert (ws : List Word) : Except Error Query := do
  let (file, ws) ← first "a file name" (← skip "INTO" ws)
  return .insert file.text (← readAssignments (← skip "SET" ws))

def ofWords (ws : List Word) : Except Error Query := do
  let (command, ws) ← first "a command" ws
  if command.isKeyword "SELECT" then readSelect ws
  else if command.isKeyword "UPDATE" then readUpdate ws
  else if command.isKeyword "DELETE" then readDelete ws
  else if command.isKeyword "INSERT" then readInsert ws
  else throw (.unknownCommand command.text)

def read (t : Text) : Except Error Query :=
  match words (Text.strip t) with
  | .error e => .error e
  | .ok ws => ofWords ws

end Agenda.Query
