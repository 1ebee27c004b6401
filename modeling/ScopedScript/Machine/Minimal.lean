import ScopedScript.Machine.Standard

/-!
# Built-ins for trying things out

A set of two built-ins that do with fewer checks than the standard ones, and a built-in of any
signature that hands back its first argument.
-/

namespace ScopedScript.Builtin

/-- Writes the texts of all arguments on one line. -/
def printLine : Builtin where
  name := "print"
  params := [.any]
  ret := .void
  call m args := ⟨" ".intercalate (args.map (Value.text m)) ++ "\n", .ok .null⟩

/-- The number of characters of the first argument. -/
def firstLen : Builtin where
  name := "len"
  params := [.string]
  ret := .int
  call _ args := silent <|
    match args.head?.map Value.unboxed with
    | some (.string s) => .ok (.int (Int64.ofNat s.length))
    | _ => .error "len expects a string"

/-- Hands back its first argument as it came, or null if it gets none. -/
def echo (name : String) (params : List TypeExpr) (ret : TypeExpr) : Builtin where
  name
  params
  ret
  call _ args := silent (.ok (args.headD .null))

end ScopedScript.Builtin

namespace ScopedScript.Registry

/-- The registry of a printing and a counting built-in. -/
def minimal : Registry := empty.registerAll [Builtin.printLine, Builtin.firstLen]

end ScopedScript.Registry
