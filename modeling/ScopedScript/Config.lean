import ScopedScript.Machine.Linked
import ScopedScript.Ron.Parser
import ScopedScript.Ron.Shape

/-!
# Configuration

A configuration is a record in object notation; every field of it may be left out.
-/

namespace ScopedScript

structure Config where
  machine : MachineConfig
deriving DecidableEq, Repr

inductive ConfigError
  | unreadable
  /-- Not even the entry function could be called. -/
  | noCallDepth
deriving DecidableEq, Repr

def ConfigError.message : ConfigError → String
  | unreadable => "invalid config"
  | noCallDepth => "invalid config: vm.max_call_depth must be at least 1"

namespace MachineConfig

def read? (s : Shape δ) (d : δ) : Option MachineConfig := do
  let f ← s.fields? "VmConfig" ["max_call_depth", "record_releases"] d
  let maxCallDepth ← f.defaulted "max_call_depth" default.maxCallDepth s.offset?
  let recordReleases ← f.defaulted "record_releases" default.recordReleases s.bool?
  return { maxCallDepth, recordReleases }

end MachineConfig

namespace Config

def default : Config := ⟨.default⟩

def read? (s : Shape δ) (d : δ) : Option Config := do
  let f ← s.fields? "Config" ["vm"] d
  return ⟨← f.defaulted "vm" .default (MachineConfig.read? s)⟩

/-- The configuration that a text describes; it has to allow for one call. -/
def ofText (text : String) : Except ConfigError Config :=
  match (Ron.parse? text).bind fun d => read? Ron.shape d.root with
  | none => .error .unreadable
  | some config =>
    if config.machine.maxCallDepth = 0 then .error .noCallDepth else .ok config

end Config

end ScopedScript
