import Agenda.Quote
import Agenda.Fields

/-!
Values as they are written after a key. Quoted text is a text whatever it says; unquoted text is
a flag or a number if it spells one. A text that would be taken for something else, or that would
not stay one token, is written with quotes.
-/

namespace Agenda.Scalar

def read (t : Text) : Except Oversize Value :=
  if isQuotedString t then .ok (.text (dequote t))
  else if t = "true" then .ok (.flag true)
  else if t = "false" then .ok (.flag false)
  else (Number.read? t).map fun
    | some n => .number n
    | none => .text t

def blockMarker : Text := ['|']

def isUnquotable (c : Char) : Bool :=
  isBlank c || c = ',' || c = '"' || c = '\'' || c = '\x60' || c = '\\'

/-- Whether a text would not be read back as the same text without quotes. -/
def mustQuote (t : Text) : Except Oversize Bool :=
  if t.isEmpty || t == blockMarker || t.any isUnquotable || t.head? = some '#' ||
      t.head? = some '@' then .ok true
  else (read t).map fun v => !v.isText

def write : Value → Except Oversize Text
  | .flag b => .ok (if b then "true" else "false")
  | .number n => (Value.number n).spell
  | .names xs => .ok (enquote (Text.join [','] xs))
  | v => (mustQuote v.shown).map fun quote => if quote then enquote v.shown else v.shown

end Agenda.Scalar
