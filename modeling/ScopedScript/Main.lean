import ScopedScript.Command.Execute
import ScopedScript.Ron.Printer

/-!
# The program

Reads what the command may ask for, and carries its effects out.
-/

namespace ScopedScript

/-- More steps than any run that ends will take. -/
def stepLimit : Nat := Nat.pow 2 62

/-- The wording of a failed access to a file. -/
def reasonOf : IO.Error → String
  | .noFileOrDirectory .. => PathError.missing.message
  | .inappropriateType _ 20 _ => PathError.notDirectory.message
  | .inappropriateType _ 21 _ => PathError.isDirectory.message
  | .invalidArgument _ 36 _ => PathError.nameTooLong.message
  | .permissionDenied .. => "Permission denied (os error 13)"
  | e => toString e

/-- An access to a file, or the wording of its failure. -/
def attempt (access : IO α) : IO (Except String α) := do
  match ← access.toBaseIO with
  | .ok a => return .ok a
  | .error e => return .error (reasonOf e)

/-- The files that a command may read. -/
def filesOf (args : List String) : List String :=
  match Command.parse? args with
  | some c => c.action.file :: c.config.toList
  | none => []

/-- Writes the module that a command wants written; a command whose file is refused has the effects
of one that knew it. -/
def carryOut (s : Surroundings) (args : List String) : IO Effects := do
  let effects := Command.effects s stepLimit args
  match effects.written with
  | none => return effects
  | some (path, m) =>
    match ← attempt (IO.FS.writeFile path (m.write Ron.form).pretty) with
    | .ok _ => return effects
    | .error reason =>
      return Command.effects { s with refusesWrite := fun _ => some reason } stepLimit args

end ScopedScript

open ScopedScript in
def main (args : List String) : IO UInt32 := do
  let files ← (filesOf args).mapM fun (path : String) => do
    let contents ← attempt (IO.FS.readFile path)
    return (path, contents)
  let stdin ← if (filesOf args).contains "-" then (← IO.getStdin).readToEnd else pure ""
  let effects ← carryOut {
    contents path := (files.lookup path).getD (.error PathError.missing.message)
    stdin
    refusesWrite _ := none } args
  IO.print effects.stdout
  IO.eprint effects.stderr
  return (effects.status % 256).toNat.toUInt32
