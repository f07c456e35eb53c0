import Agenda.Text.Basic

/-!
Why a text is no query.
-/

namespace Agenda.Query

inductive Error where
  | unterminated (mark : Char)
  /-- The query ended where something was expected. -/
  | ended (what : Text)
  | expected (keyword found : Text)
  | unexpected (found : Text)
  | unknownCommand (found : Text)
  | noColumns
  | notALimit (found : Text)
  /-- The limit is made of digits, but of some that have no decimal value, or of too many. -/
  | unreadableLimit
  | noAssignments
  | notAnAssignment (shown : Text)
  | notAFieldName (name : Text)
  | notASortKey
  | unknownDirection (found : Text)
  | noCondition
  | severalCombinators
  | malformedIs (shown : Text)
  | malformedCondition (shown : Text)
  | unknownOperator (found : Text)
deriving DecidableEq, Repr

def Error.message : Error → Text
  | .unterminated mark => Text.concat ["Unterminated ", [mark], " string in query"]
  | .ended what => Text.concat ["Expected ", what, " but the query ended"]
  | .expected keyword found => Text.concat ["Expected ", keyword, " but found '", found, "'"]
  | .unexpected found => Text.concat ["Unexpected token '", found, "'"]
  | .unknownCommand found => Text.concat
      ["Unknown command '", found, "'. Expected SELECT, UPDATE, DELETE or INSERT"]
  | .noColumns => "SELECT requires a field list or *"
  | .notALimit found => Text.concat ["LIMIT must be a non-negative integer, got '", found, "'"]
  | .unreadableLimit => []
  | .noAssignments => "SET requires at least one field = value assignment"
  | .notAnAssignment shown => Text.concat
      ["Invalid assignment '", shown, "'. Expected field = value"]
  | .notAFieldName name => Text.concat ["Invalid field name '", name, "'"]
  | .notASortKey => "ORDER BY expects field [ASC|DESC] items"
  | .unknownDirection found => Text.concat ["Unknown sort direction '", found, "'"]
  | .noCondition => "WHERE requires a condition"
  | .severalCombinators => "Only a single AND or OR is supported in WHERE"
  | .malformedIs shown => Text.concat ["Malformed IS condition '", shown, "'"]
  | .malformedCondition shown => Text.concat
      ["Malformed condition '", shown, "'. Expected field op value"]
  | .unknownOperator found => Text.concat ["Unknown operator '", found, "'"]

end Agenda.Query
