import Agenda.Text.Basic

/-!
The texts that the command line shows on request.
-/

namespace Agenda.CommandLine

def usage : Text := Text.concat ["usage: todo [-h] [--indent-size INDENT_SIZE] ",
  "[--section SECTION] [-v] \x7bquery,lint,help\x7d ...\n"]

def overview : List Text :=
  ["todo - query and lint markdown task lists",
    "",
    "Usage:",
    "    todo query \"<query>\" [-o table|json]",
    "    todo lint <file>",
    "    todo help",
    "",
    "Examples:",
    "    todo query \"SELECT * FROM tasks.md\"",
    "    todo query -o json \"SELECT title, priority FROM tasks.md WHERE completed = false\"",
    "    todo query \"SELECT * FROM tasks.md ORDER BY priority ASC, due DESC LIMIT 5\"",
    "    todo query \"SELECT * FROM tasks.md ORDER BY weight DESC INTO sorted.md\"",
    "    todo query \"UPDATE tasks.md SET priority = 'A' WHERE id = 'a1b2c3d4'\"",
    "    todo query \"DELETE FROM tasks.md WHERE completed = true\"",
    "    todo query \"INSERT INTO tasks.md SET title = 'New task', stakeholders = 'Rosa, Bob'\"",
    "    todo lint tasks.md"]

def taskFormat : List Text :=
  ["Task syntax:",
    "    Tasks are markdown bullets under a \"## TODO\" heading (the whole file when",
    "    the heading is missing). Nesting is by indentation, two spaces per level.",
    "",
    "    Single-line task:",
    "      - [x] A @Alice #urgent \"Fix login bug\" due: 2025-10-01 weight: 10",
    "",
    "    Multi-line task:",
    "      - A @Alice #urgent \"Fix login bug\"",
    "        due: 2025-10-01",
    "        description: |",
    "          Users with special characters in their",
    "          passwords cannot sign in.",
    "",
    "    Prefix shorthand (only at the start of the bullet):",
    "      [x] or x     completed: true",
    "      [_]          completed: false",
    "      [-] or -     skipped: true",
    "      A-D          priority",
    "      @name        adds to stakeholders",
    "      #name        adds to tags",
    "",
    "    Values: key: value, key: \"quoted value\", key: 'single', key: `verbatim`,",
    "    and key: | followed by indented lines for multi-line text.",
    ""]

def queryFormat : List Text :=
  ["Queries:",
    "    SELECT <*|fields> FROM <file> [WHERE cond] [ORDER BY key [ASC|DESC], ...]",
    "           [LIMIT n] [INTO <file>]",
    "    UPDATE <file> SET field = value, ... [WHERE cond]",
    "    DELETE FROM <file> [WHERE cond]",
    "    INSERT INTO <file> SET field = value, ...",
    "",
    "    Conditions: field = v, field > v, field < v, field CONTAINS v,",
    "    field IS NULL, field IS NOT NULL; at most one AND or OR.",
    "    Missing values sort first. SET field = NULL removes a field.",
    ""]

def exitStatus : List Text :=
  ["Exit status:",
    "    0 on success, 1 on lint errors, missing files, or invalid queries."]

def help : Text :=
  Text.join ['\n'] (overview ++ [] :: taskFormat ++ queryFormat ++ exitStatus ++ [[], []])

end Agenda.CommandLine
