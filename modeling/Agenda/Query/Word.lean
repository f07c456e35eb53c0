import Agenda.Query.Error
import Agenda.Text.Upper
import Agenda.Value

/-!
The words of a query. A word is a run of characters between blanks, an operator or comma on its
own, or a quoted string. Inside quotes the quote itself is written twice or after a backslash;
any other backslash is kept for `resolveEscapes`.
-/

namespace Agenda.Query

structure Word where
  text : Text
  quoted : Bool := false
deriving DecidableEq, Repr

def escape? (c : Char) : Option Char :=
  if c = 'n' then some '\n'
  else if c = 't' then some '\t'
  else if c = 'r' then some '\r'
  else if c = '\\' then some '\\'
  else none

/-- Resolves the escapes of a text in one pass; those it does not know stay as they are. -/
def resolveEscapes : Text → Text
  | [] => []
  | [c] => [c]
  | c :: d :: cs =>
    if c = '\\' then
      match escape? d with
      | some e => e :: resolveEscapes cs
      | none => c :: d :: resolveEscapes cs
    else c :: resolveEscapes (d :: cs)

namespace Word

/-- The text in upper case; a quoted word is no keyword. -/
def keyword? (w : Word) : Option Text := if w.quoted then none else some (Text.upper w.text)

def isKeyword (w : Word) (keyword : Text) : Bool := w.keyword? = some keyword

def isComma (w : Word) : Bool := !w.quoted && w.text = [',']

def plain (w : Word) : Text := resolveEscapes w.text

/-- The text with ASCII letters in lower case; only these occur in the names of the flags. -/
def lower (w : Word) : Text := w.text.map Char.toLower

/-- The value that the word stands for. Unquoted words can be flags and null; whatever spells a
number is one, in quotes as well. -/
def value (w : Word) : Except Oversize Value :=
  if !w.quoted && w.lower = "true" then .ok (.flag true)
  else if !w.quoted && w.lower = "false" then .ok (.flag false)
  else if w.isKeyword "NULL" then .ok .null
  else (Number.read? w.text).map fun
    | some n => .number n
    | none => .text w.plain

end Word

/-- Where a scan of a query is: between words or in one, in a string, after a backslash in a
string, or after a quote that ends the string unless another one follows. -/
inductive Mode where
  | outside
  | inside (mark : Char)
  | escaped (mark : Char)
  | closing (mark : Char)
deriving DecidableEq, Repr

def consWord (text : Text) (words : List Word) : List Word :=
  if text.isEmpty then words else ⟨text, false⟩ :: words

/-- A piece of a query: the characters up to the end of the present word or string, and the words
after it. -/
abbrev Cut := Except Error (Text × List Word)

def isOperator (c : Char) : Bool := c = '=' || c = '<' || c = '>' || c = ','

/-- Reads a character outside strings; `next` reads the characters after it. -/
def cutOutside (c : Char) (next : Mode → Cut) : Cut :=
  if c = '\'' || c = '"' then
    (next (.inside c)).map fun (body, words) => ([], ⟨body, true⟩ :: words)
  else if isBlank c then (next .outside).map fun (word, words) => ([], consWord word words)
  else if isOperator c then
    (next .outside).map fun (word, words) => ([], ⟨[c], false⟩ :: consWord word words)
  else (next .outside).map fun (word, words) => (c :: word, words)

def cutWords : Text → Mode → Cut
  | [], .outside => .ok ([], [])
  | [], .closing _ => .ok ([], [])
  | [], .inside mark => .error (.unterminated mark)
  | [], .escaped mark => .error (.unterminated mark)
  | c :: cs, .outside => cutOutside c (cutWords cs)
  | c :: cs, .inside mark =>
    if c = '\\' then cutWords cs (.escaped mark)
    else if c = mark then cutWords cs (.closing mark)
    else (cutWords cs (.inside mark)).map fun (body, words) => (c :: body, words)
  | c :: cs, .escaped mark =>
    (cutWords cs (.inside mark)).map fun (body, words) =>
      (if c = mark then c :: body else '\\' :: c :: body, words)
  | c :: cs, .closing mark =>
    if c = mark then (cutWords cs (.inside mark)).map fun (body, words) => (c :: body, words)
    else (cutOutside c (cutWords cs)).map fun (word, words) => ([], consWord word words)

def words (t : Text) : Except Error (List Word) :=
  (cutWords t .outside).map fun (word, words) => consWord word words

end Agenda.Query
