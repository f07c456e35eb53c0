import Agenda.Text.Basic

/-!
Quoted strings. There are three dialects: between double quotes a backslash escapes a quote, a
backslash and the letters `n`, `t` and `r`; between single quotes only a quote and a backslash;
between backticks everything is verbatim. `enquote` picks the simplest dialect that can hold a
text, and `dequote` reads it back.
-/

namespace Agenda

inductive Quote where
  | double
  | single
  | backtick
deriving DecidableEq, Repr

namespace Quote

def mark : Quote → Char
  | .double => '"'
  | .single => '\''
  | .backtick => '\x60'

def ofChar? (c : Char) : Option Quote :=
  if c = '"' then some .double
  else if c = '\'' then some .single
  else if c = '\x60' then some .backtick
  else none

def name : Quote → Text
  | .double => "double"
  | .single => "single"
  | .backtick => "backtick"

def escape? : Quote → Char → Option Char
  | .double, '"' => some '"'
  | .double, '\\' => some '\\'
  | .double, 'n' => some '\n'
  | .double, 't' => some '\t'
  | .double, 'r' => some '\r'
  | .single, '\'' => some '\''
  | .single, '\\' => some '\\'
  | _, _ => none

/-- Resolves the escapes of a dialect. A backslash that begins no escape stands for itself. -/
def decode (q : Quote) : Text → Text
  | [] => []
  | [c] => [c]
  | c :: d :: cs =>
    if c = '\\' then
      match q.escape? d with
      | some e => e :: decode q cs
      | none => c :: decode q (d :: cs)
    else c :: decode q (d :: cs)

end Quote

/-- What a scan from the left knows before a character: whether a backslash escapes it, and the
quote that is open there. -/
structure Scan where
  escaped : Bool
  quote : Option Quote
deriving DecidableEq, Repr

namespace Scan

def start : Scan := ⟨false, none⟩

/-- The state after a character. A backslash escapes the next character, in quotes and outside;
a quote is closed by its own mark only. -/
def step (s : Scan) (c : Char) : Scan :=
  if s.escaped then ⟨false, s.quote⟩
  else if c = '\\' then ⟨true, s.quote⟩
  else match s.quote with
    | none => ⟨false, Quote.ofChar? c⟩
    | some q => if c = q.mark then ⟨false, none⟩ else ⟨false, some q⟩

/-- Scans to the end. If a quote is left open there, the result is that quote and where it was
opened; `opened` is the position of the open quote at the start and `pos` that of the text. -/
def unclosed (s : Scan) (opened pos : Nat) : Text → Option (Quote × Nat)
  | [] => s.quote.map (·, opened)
  | c :: cs => (s.step c).unclosed (if s.quote.isNone then pos else opened) (pos + 1) cs

end Scan

def unclosedQuote? (t : Text) : Option (Quote × Nat) := Scan.start.unclosed 0 0 t

def quotedBody? (t : Text) : Option (Quote × Text) :=
  match t with
  | [] => none
  | c :: rest =>
    match Quote.ofChar? c with
    | none => none
    | some q => if rest.getLast? = some c then some (q, rest.dropLast) else none

def trailingBackslashes (t : Text) : Nat := (t.reverse.takeWhile (· = '\\')).length

/-- Whether a text is a quoted string. The closing quote must not be escaped, and a string
between backticks has none inside. -/
def isQuotedString (t : Text) : Bool :=
  match quotedBody? t with
  | none => false
  | some (.backtick, body) => !body.contains '\x60'
  | some (_, body) => trailingBackslashes body % 2 == 0

/-- The text that a quoted string stands for; any other text stands for itself. -/
def dequote (t : Text) : Text :=
  match quotedBody? t with
  | some (q, body) => if isQuotedString t then q.decode body else t
  | none => t

def escapeChar (c : Char) : Text :=
  if c = '\\' then ['\\', '\\']
  else if c = '"' then ['\\', '"']
  else if c = '\n' then ['\\', 'n']
  else if c = '\r' then ['\\', 'r']
  else if c = '\t' then ['\\', 't']
  else [c]

def needsEscape (c : Char) : Bool := c = '\\' || c = '\n' || c = '\r' || c = '\t'

/-- The text as a quoted string: plainly between double quotes or else between backticks if
nothing has to be escaped there, and with escapes between double quotes otherwise. -/
def enquote (t : Text) : Text :=
  if !t.any (fun c => c = '"' || needsEscape c) then '"' :: t ++ ['"']
  else if !t.any (fun c => c = '\x60' || needsEscape c) then '\x60' :: t ++ ['\x60']
  else '"' :: t.flatMap escapeChar ++ ['"']

end Agenda
