import Agenda.Layout
import Agenda.Number
import Agenda.Text.Upper

/-!
Settings: where tasks are looked for and how they are written. They are given as raw values, by
environment variables as texts, and checked field by field; every field that is wrong is
reported.
-/

namespace Agenda

structure Settings where
  indentSize : Nat := 2
  idLength : Nat := 8
  heading : Text := "## TODO"
  longValue : Nat := 25
  wrapWidth : Option Nat := none
  logLevel : Text := "WARNING"
deriving DecidableEq, Repr

namespace Settings

inductive Raw where
  | null
  | text (t : Text)
  | int (n : Int)
  | float (x : Binary64)
  | flag (b : Bool)
  /-- A list or a map. -/
  | compound
deriving DecidableEq, Repr

inductive Field where
  | indentSize
  | idLength
  | heading
  | longValue
  | wrapWidth
  | logLevel
deriving DecidableEq, Repr

namespace Field

def all : List Field := [indentSize, idLength, heading, longValue, wrapWidth, logLevel]

def name : Field → Text
  | indentSize => "indent_size"
  | idLength => "id_length"
  | heading => "section_heading"
  | longValue => "long_value_threshold"
  | wrapWidth => "wrap_width"
  | logLevel => "log_level"

def variableName (f : Field) : Text := "TASKMD_".toList ++ Text.upper f.name

end Field

inductive Cause where
  | notAnInteger
  | notAnIntegerText
  | tooLong
  | fractional
  | notAText
  | below (least : Int)
  | above (greatest : Int)
  | notAHeading
  | unknownLevel (level : Text)
deriving DecidableEq, Repr

def Cause.kind : Cause → Text
  | .notAnInteger => "int_type"
  | .notAnIntegerText => "int_parsing"
  | .tooLong => "int_parsing_size"
  | .fractional => "int_from_float"
  | .notAText => "string_type"
  | .below _ => "greater_than_equal"
  | .above _ => "less_than_equal"
  | .notAHeading => "value_error"
  | .unknownLevel _ => "value_error"

def Cause.message : Cause → Text
  | .notAnInteger => "Input should be a valid integer"
  | .notAnIntegerText =>
    "Input should be a valid integer, unable to parse string as an integer"
  | .tooLong => "Unable to parse input string as an integer, exceeded maximum size"
  | .fractional => "Input should be a valid integer, got a number with a fractional part"
  | .notAText => "Input should be a valid string"
  | .below least => Text.concat
      ["Input should be greater than or equal to ", Text.ofInt least]
  | .above greatest => Text.concat
      ["Input should be less than or equal to ", Text.ofInt greatest]
  | .notAHeading =>
    "Value error, section heading must be a markdown heading, e.g. \"## TODO\""
  | .unknownLevel level => Text.concat ["Value error, unknown log level: ", level]

structure Problem where
  field : Field
  cause : Cause
deriving DecidableEq, Repr

/-- Drops leading zeros and the underscores among them. One is kept before a point and at the
end. -/
def dropLeadingZeros (t : Text) : Text :=
  let isPadding (c : Char) : Bool := c = '0' || c = '_'
  let rest := t.dropWhile isPadding
  if t.head? ≠ some '0' then t
  else if rest.isEmpty || rest.head? = some '.' then
    (t.takeWhile isPadding).getLast?.toList ++ rest
  else rest

/-- Drops a fraction that is zero; a point without digits after it is kept. -/
def dropZeroFraction (t : Text) : Text :=
  match t.dropWhile (· ≠ '.') with
  | _ :: c :: cs => if (c :: cs).all (· = '0') then t.takeWhile (· ≠ '.') else t
  | _ => t

/-- Drops underscores if each stands alone between two other characters. -/
def dropInnerUnderscores (t : Text) : Text :=
  let pieces := Text.split '_' t
  if pieces.all (!·.isEmpty) then Text.concat pieces else t

def plainForm (t : Text) : Text := dropInnerUnderscores (dropZeroFraction (dropLeadingZeros t))

/-- Reads ASCII digits without leading zeros, of which there may be no more than `limit`. -/
def natural (limit : Nat) (t : Text) : Except Cause Nat :=
  let digits := t.takeWhile Char.isDigit
  if t = ['0'] then .ok 0
  else if digits.isEmpty || digits.head? = some '0' then .error .notAnIntegerText
  else if limit < digits.length then .error .tooLong
  else if digits ≠ t then .error .notAnIntegerText
  else .ok (Text.natOfDigits digits)

/-- Reads an integer in its plain form. A minus sign counts as a digit towards the limit. -/
def plainInteger : Text → Except Cause Int
  | '-' :: t => (natural (Number.maxDigits - 1) t).map fun n => -n
  | t => (natural Number.maxDigits t).map fun n => n

/-- Reads an integer, with margins, a sign, leading zeros, underscores between digits and a
fraction of zeros if they are there. A minus sign may also come after leading zeros. -/
def readIntegerText (t : Text) : Except Cause Int :=
  match Text.dropMargins t with
  | '-' :: t => plainInteger ('-' :: plainForm t)
  | '+' :: '-' :: _ => .error .notAnIntegerText
  | '+' :: t => plainInteger (plainForm t)
  | t => plainInteger (plainForm t)

def wholePart? : Binary64 → Option Int
  | .finite negative m e =>
    let divisor := 2 ^ (-e).toNat
    if m % divisor = 0 then some (Binary64.signed negative (m / divisor * 2 ^ e.toNat)) else none
  | _ => none

def readInt : Raw → Except Cause Int
  | .int n => .ok n
  | .flag b => .ok (if b then 1 else 0)
  | .text t => readIntegerText t
  | .float x => (wholePart? x).elim (.error .fractional) .ok
  | .null | .compound => .error .notAnInteger

/-- An integer that is at least `least` and, if there is an upper bound, at most that. -/
def readNat (least : Nat) (greatest : Option Nat) (r : Raw) : Except Cause Nat :=
  match readInt r with
  | .error e => .error e
  | .ok n =>
    if n < least then .error (.below least)
    else match greatest with
      | some g => if g < n then .error (.above g) else .ok n.toNat
      | none => .ok n.toNat

/-- A heading must begin with a number sign; it is kept without whitespace around it. -/
def readHeading : Raw → Except Cause Text
  | .text t =>
    let heading := Text.strip t
    if heading.head? = some '#' then .ok heading else .error .notAHeading
  | _ => .error .notAText

def logLevels : List Text :=
  ["CRITICAL", "FATAL", "ERROR", "WARN", "WARNING", "INFO", "DEBUG", "NOTSET"]

def readLevel : Raw → Except Cause Text
  | .text t =>
    let level := Text.upper t
    if logLevels.contains level then .ok level else .error (.unknownLevel level)
  | _ => .error .notAText

def readWidth : Raw → Except Cause (Option Nat)
  | .null => .ok none
  | r => (readNat 10 none r).map some

def assign (s : Settings) (f : Field) (r : Raw) : Except Cause Settings :=
  match f with
  | .indentSize => (readNat 1 none r).map fun n => { s with indentSize := n }
  | .idLength => (readNat 4 (some 40) r).map fun n => { s with idLength := n }
  | .heading => (readHeading r).map fun t => { s with heading := t }
  | .longValue => (readNat 1 none r).map fun n => { s with longValue := n }
  | .wrapWidth => (readWidth r).map fun w => { s with wrapWidth := w }
  | .logLevel => (readLevel r).map fun t => { s with logLevel := t }

def check (given : Field → Option Raw) (s : Settings) : List Field → Settings × List Problem
  | [] => (s, [])
  | f :: fs =>
    match given f with
    | none => check given s fs
    | some r =>
      match s.assign f r with
      | .ok s => check given s fs
      | .error cause =>
        let (s, problems) := check given s fs
        (s, ⟨f, cause⟩ :: problems)

def ofRaw (given : Field → Option Raw) : Except (List Problem) Settings :=
  match check given {} Field.all with
  | (s, []) => .ok s
  | (_, problems) => .error problems

/-- The value of an environment variable; an empty one counts as unset. -/
def fromVariable (environment : List (Text × Text)) (f : Field) : Option Raw :=
  match environment.lookup f.variableName with
  | none | some [] => none
  | some t => some (.text t)

/-- The settings from environment variables and from values that win over them unless they are
null. -/
def ofEnvironment (environment : List (Text × Text)) (overrides : Field → Option Raw) :
    Except (List Problem) Settings :=
  ofRaw fun f =>
    match overrides f with
    | none | some .null => fromVariable environment f
    | r => r

def layout (s : Settings) : Layout := ⟨s.indentSize, s.longValue, s.wrapWidth⟩

def toFields (s : Settings) : Fields :=
  let nat (n : Nat) : Value := .number (.int n)
  [(Field.indentSize.name, nat s.indentSize), (Field.idLength.name, nat s.idLength),
    (Field.heading.name, .text s.heading), (Field.longValue.name, nat s.longValue),
    (Field.wrapWidth.name, (s.wrapWidth.map nat).getD .null),
    (Field.logLevel.name, .text s.logLevel)]

end Settings

end Agenda
