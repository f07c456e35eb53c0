import Agenda.Text.Digit

/-!
Options on a command line. A long option may be shortened as long as it stays unambiguous. A
value may follow an option as the next argument or after an equals sign, and a short option also
directly. What is attached to a short option that takes no value is a run of more short options.
A word that looks like a negative number, has a blank in it or is a lone hyphen is no option.
After a double hyphen there are no options.
-/

namespace Agenda.CommandLine

inductive Stop where
  | usage
  | help
deriving DecidableEq, Repr

/-- What an option does to the settings `σ` that are being read. An option with a value gets none
if a double hyphen stands in its place. -/
inductive Action (σ : Type) where
  | flag (set : σ → Except Stop σ)
  | value (set : Option Text → σ → Except Stop σ)

abbrev Known (σ : Type) := List (Text × Action σ)

inductive Argument (σ : Type) where
  | plain (t : Text)
  /-- An option, and the text that is attached to it. -/
  | option (short : Bool) (action : Action σ) (attached : Option Text)
  | unknown
  | separator

variable {σ : Type}

def splitEquals (t : Text) : Text × Option Text :=
  match t.dropWhile (· ≠ '=') with
  | [] => (t, none)
  | _ :: value => (t.takeWhile (· ≠ '='), some value)

def isShort : Text → Bool
  | '-' :: '-' :: _ => false
  | _ => true

/-- The options that an argument may mean, each with what is attached to it: those that a long
one shortens, or the short one that it begins with. -/
def candidates (known : Known σ) (t : Text) : List (Action σ × Option Text) :=
  if isShort t then
    (known.filter fun (spelling, _) => spelling = t.take 2).map fun (_, action) =>
      (action, some (t.drop 2))
  else
    let (stem, attached) := splitEquals t
    (known.filter fun (spelling, _) => stem.isPrefixOf spelling).map fun (_, action) =>
      (action, attached)

/-- A hyphen and digits, perhaps with a decimal point among them. -/
def isNegativeNumber (t : Text) : Bool :=
  match Text.dropFinalNewline t with
  | '-' :: body =>
    let fraction := (body.dropWhile Text.isDigit)
    (!body.isEmpty && fraction.isEmpty) ||
      match fraction with
      | '.' :: digits => !digits.isEmpty && digits.all Text.isDigit
      | _ => false
  | _ => false

/-- An argument that begins with a hyphen and is not spelled out among the known options. -/
def classifyHyphen (known : Known σ) (t : Text) : Except Stop (Argument σ) :=
  let (stem, attached) := splitEquals t
  match known.lookup stem, attached with
  | some action, some _ => .ok (.option (isShort t) action attached)
  | _, _ =>
    match candidates known t with
    | [(action, attached)] => .ok (.option (isShort t) action attached)
    | _ :: _ :: _ => .error .usage
    | [] => .ok (if isNegativeNumber t || t.contains ' ' then .plain t else .unknown)

def classify (known : Known σ) (t : Text) : Except Stop (Argument σ) :=
  match t with
  | '-' :: _ :: _ =>
    match known.lookup t with
    | some action => .ok (.option (isShort t) action none)
    | none => classifyHyphen known t
  | _ => .ok (.plain t)

/-- Classifies arguments; everything after a double hyphen is plain. -/
def classifyAll (known : Known σ) : List Text → Except Stop (List (Argument σ))
  | [] => .ok []
  | t :: ts =>
    if t = ['-', '-'] then .ok (.separator :: ts.map .plain)
    else do return (← classify known t) :: (← classifyAll known ts)

def attachedValue (t : Text) : Option Text := if t = ['-', '-'] then none else some t

/-- Short options run together, of which those before do `done`. If the last one still needs a
value, what it does with it comes second. -/
def shortRun (known : Known σ) (done : σ → Except Stop σ) :
    Text → Except Stop ((σ → Except Stop σ) × Option (Option Text → σ → Except Stop σ))
  | [] => .ok (done, none)
  | c :: rest =>
    match known.lookup ['-', c], rest with
    | none, _ => .error .usage
    | some (.flag set), rest => shortRun known (fun s => done s >>= set) rest
    | some (.value set), [] => .ok (done, some set)
    | some (.value set), t => .ok (fun s => done s >>= set (attachedValue t), none)

def nextValue : List (Argument σ) → Except Stop (Text × List (Argument σ))
  | .plain v :: rest => .ok (v, rest)
  | _ => .error .usage

/-- Does what an option says and gives back the arguments that are left; `rest` are those after
the option. A missing value is noticed before anything is done. -/
def applyOption (known : Known σ) (short : Bool) (action : Action σ) (attached : Option Text)
    (s : σ) (rest : List (Argument σ)) : Except Stop (σ × List (Argument σ)) :=
  match action, attached with
  | .flag set, none => do return (← set s, rest)
  | .value set, some t => do return (← set (attachedValue t) s, rest)
  | .value set, none => do
    let (v, rest) ← nextValue rest
    return (← set (some v) s, rest)
  | .flag set, some run =>
    if !short || run.isEmpty then .error .usage
    else do
      let (done, last) ← shortRun known set run
      match last with
      | none => return (← done s, rest)
      | some set =>
        let (v, rest) ← nextValue rest
        return (← done s >>= set (some v), rest)

def dropSeparator : List (Argument σ) → List (Argument σ)
  | .separator :: rest => rest
  | rest => rest

structure Given (σ : Type) where
  settings : σ
  operand : Option Text := none
  /-- Whether there was an argument that has no place. -/
  surplus : Bool := false

/-- Reads the arguments of a subcommand that takes an operand if `takes` holds. Each argument is
one step. -/
def readOperands (known : Known σ) (takes : Bool) :
    Nat → Given σ → List (Argument σ) → Except Stop (Given σ)
  | 0, g, _ => .ok g
  | _ + 1, g, [] => .ok g
  | steps + 1, g, .option short action attached :: rest => do
    let (settings, rest) ← applyOption known short action attached g.settings rest
    readOperands known takes steps { g with settings } rest
  | steps + 1, g, .unknown :: rest => readOperands known takes steps { g with surplus := true } rest
  | steps + 1, g, .plain t :: rest =>
    if takes && g.operand.isNone then
      readOperands known takes steps { g with operand := some t } (dropSeparator rest)
    else readOperands known takes steps { g with surplus := true } rest
  | steps + 1, g, .separator :: rest =>
    match takes && g.operand.isNone, rest with
    | true, .plain t :: rest => readOperands known takes steps { g with operand := some t } rest
    | _, rest => readOperands known takes steps { g with surplus := true } rest

/-- The settings before a subcommand, whether an argument among them has no place, and the
arguments from the subcommand on, of which there are `none` if there is no subcommand. -/
def readLeading (known : Known σ) :
    Nat → σ → Bool → List (Argument σ) → List Text → Except Stop (σ × Bool × List Text)
  | 0, s, surplus, _, raw => .ok (s, surplus, raw)
  | _ + 1, s, surplus, [], _ => .ok (s, surplus, [])
  | steps + 1, s, surplus, .option short action attached :: rest, raw => do
    let (s, left) ← applyOption known short action attached s rest
    readLeading known steps s surplus left (raw.drop (1 + rest.length - left.length))
  | steps + 1, s, _, .unknown :: rest, raw => readLeading known steps s true rest (raw.drop 1)
  | _ + 1, s, surplus, .plain _ :: _, raw => .ok (s, surplus, raw)
  | _ + 1, _, _, .separator :: _, _ => .error .usage

end Agenda.CommandLine
