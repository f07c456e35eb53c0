import Agenda.CommandLine

/-!
The program. It takes the files that its arguments name, runs the command line on them, and puts
back those that changed.
-/

open Agenda

/-- The code with which the system refuses to read a folder as a file. -/
def isFolderCode : UInt32 := 21

def addPath (d : Directory) (p : Path) : IO Directory := do
  try
    return d.set p.text (← IO.FS.readBinFile (String.ofList p.text)).toList
  catch
    | .inappropriateType _ code _ =>
      return if code = isFolderCode then { d with folders := p.text :: d.folders } else d
    | _ => return d

/-- What is found at some paths and on the way to them. -/
def takeFiles (paths : List Path) : IO Directory :=
  (paths.flatMap fun p => p.ancestors ++ [p]).foldlM addPath {}

/-- Writes the files of `new` that `old` does not have in the same form. -/
def putBack (old new : Directory) : IO Unit :=
  for (name, content) in new.files do
    if old.get? name ≠ some content then
      IO.FS.writeBinFile (String.ofList name) ⟨content.toArray⟩

def takeEnvironment : IO (List (Text × Text)) :=
  Settings.Field.all.filterMapM fun f => do
    let value ← IO.getEnv (String.ofList f.variableName)
    return value.map fun v => (f.variableName, v.toList)

def main (args : List String) : IO UInt32 := do
  let args := args.map String.toList
  let old ← takeFiles (CommandLine.filesOf args)
  let (output, new) := CommandLine.run (← takeEnvironment) args old
  putBack old new
  IO.print (String.ofList output.stdout)
  IO.eprint (String.ofList output.stderr)
  match output.status with
  | .ok status => return status.toUInt32
  | .error _ =>
    IO.eprintln "The request cannot be carried out."
    return 1
