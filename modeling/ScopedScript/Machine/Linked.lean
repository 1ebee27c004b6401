import ScopedScript.Machine.Builtin
import ScopedScript.Machine.Fault

/-!
# Linked modules

A module names the built-ins that it uses; linking finds each of them in a registry.
-/

namespace ScopedScript

/-- How a machine is set up. -/
structure MachineConfig where
  /-- The most frames that one task may have open. -/
  maxCallDepth : Nat
  /-- Whether to keep a log of every release of a binding. -/
  recordReleases : Bool
deriving DecidableEq, Repr

def MachineConfig.default : MachineConfig := ⟨1024, false⟩

structure Linked where
  module : Module
  /-- The built-ins that the module's names stand for, in order. -/
  builtins : Array Builtin
  config : MachineConfig

/-- Finds the built-ins of a module; the first name that is not registered is a fault. -/
def Module.link (m : Module) (r : Registry) (config : MachineConfig) : Except Fault Linked := do
  let builtins ← m.natives.mapM fun name =>
    match r.find? name with
    | some b => .ok b
    | none => .error (Fault.of (.unknownBuiltin name))
  return ⟨m, builtins, config⟩

end ScopedScript
