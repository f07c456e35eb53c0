import Agenda.Number.Loose
import Agenda.Query.Basic
import Agenda.Task

/-!
Which tasks a query is about. A condition compares a field with a word of the query: two numbers
as numbers, and anything else as texts. Where one side is a number and the other a text that can
be read as one, their order is that of floating-point numbers.
-/

namespace Agenda.Query

inductive EvalError where
  | oversize
  /-- An integer is compared as a floating-point number and is too large for one. -/
  | outOfRange
deriving DecidableEq, Repr

def EvalError.ofOversize : Oversize → EvalError
  | .integer => .oversize

/-- The value that conditions see: the computed id and parent, and false for a flag that is not
set. -/
def testedValue (t : Task) (key : Text) : Value :=
  if key = Key.id then (t.id?.map .text).getD .null
  else if key = Key.parent then (t.parent.map .text).getD .null
  else match t.fields.get key with
    | .null => if Key.isFlag key then .flag false else .null
    | v => v

/-- The text that a word is compared by; a number is compared as it is written. -/
def comparedText (w : Word) (literal : Value) : Text :=
  if literal.isNumber then w.plain else literal.plain

def equalTo (v : Value) (w : Word) (literal : Value) : Except Oversize Bool :=
  match v, literal with
  | v, .null => .ok v.isNull
  | .null, _ => .ok false
  | .flag a, .flag b => .ok (a == b)
  | .flag _, _ => .ok false
  | _, .flag _ => .ok false
  | .number m, .number n => .ok (m.same n)
  | v, literal => v.spell.map (· == comparedText w literal)

/-- The floating-point number nearest to a value: none if it is a text that spells no number. -/
def toBinary64 : Value → Except EvalError (Option Binary64)
  | .number n =>
    match n.toBinary64? with
    | some x => .ok (some x)
    | none => .error .outOfRange
  | v => .ok (Binary64.read? v.plain)

/-- The order of a number and a text: as floating-point numbers if the text spells one, as texts
otherwise. -/
def mixedOrder (v : Value) (w : Word) (literal : Value) : Except EvalError Ordering :=
  let asTexts := Text.compare v.plain (comparedText w literal)
  match toBinary64 v with
  | .error e => .error e
  | .ok none => .ok asTexts
  | .ok (some x) =>
    match toBinary64 literal with
    | .error e => .error e
    | .ok none => .ok asTexts
    | .ok (some y) => .ok (x.order y)

/-- How a value compares with a word that stands for `literal`; nothing if the two have no
order. -/
def orderOf (v : Value) (w : Word) (literal : Value) : Except EvalError (Option Ordering) :=
  match v, literal with
  | .null, _ => .ok none
  | _, .null => .ok none
  | .names _, _ => .ok none
  | .flag a, .flag b => .ok (some (compare a.toNat b.toNat))
  | .flag _, _ => .ok none
  | _, .flag _ => .ok none
  | .number m, .number n => .ok (some (m.order n))
  | .number _, _ => (mixedOrder v w literal).map some
  | _, .number _ => (mixedOrder v w literal).map some
  | v, literal => .ok (some (Text.compare v.plain literal.plain))

/-- Whether a value contains a word that stands for `literal`: as a member of a list, or as a
part of a text. Null is contained in every text. -/
def includes (v : Value) (w : Word) (literal : Value) : Except Oversize Bool :=
  let needle := if literal.isNull then [] else comparedText w literal
  match v with
  | .names xs => .ok (xs.contains needle)
  | v => v.spell.map (Text.hasInfix needle)

def Comparison.holds (op : Comparison) (v : Value) (w : Word) : Except EvalError Bool :=
  match op with
  | .contains =>
    if v.isNull then .ok false
    else (w.value.bind (includes v w)).mapError .ofOversize
  | .equal => (w.value.bind (equalTo v w)).mapError .ofOversize
  | .greater =>
    (w.value.mapError .ofOversize).bind fun literal =>
      (orderOf v w literal).map (· == some .gt)
  | .less =>
    (w.value.mapError .ofOversize).bind fun literal =>
      (orderOf v w literal).map (· == some .lt)

/-- Whether the field counts as missing. A flag that is false does. -/
def isMissing (key : Text) (v : Value) : Bool := v.isNull || (Key.isFlag key && v = .flag false)

def Condition.holds (c : Condition) (t : Task) : Except EvalError Bool :=
  let v := testedValue t c.key
  match c.test with
  | .isNull => .ok (isMissing c.key v)
  | .isNotNull => .ok (!isMissing c.key v)
  | .compare op w => op.holds v w

/-- Whether a task passes a filter. The second condition is looked at only if it matters. -/
def Filter.holds (f : Filter) (t : Task) : Except EvalError Bool :=
  match f with
  | .single c => c.holds t
  | .pair left combinator right =>
    match left.holds t with
    | .error e => .error e
    | .ok first =>
      match combinator, first with
      | .both, false => .ok false
      | .either, true => .ok true
      | _, _ => right.holds t

/-- Whether a task is meant; without a filter every task is. -/
def isMatch (filter : Option Filter) (t : Task) : Except EvalError Bool :=
  match filter with
  | none => .ok true
  | some f => f.holds t

end Agenda.Query
