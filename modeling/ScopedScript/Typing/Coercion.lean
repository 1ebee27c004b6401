import ScopedScript.Typing.Env

/-!
# Values flowing into places

`coerce` lets a value flow into a place of some type. It makes entering and leaving `any`
explicit and reports values that do not fit.
-/

namespace ScopedScript

/-- Stands for an expression that has been reported. -/
def TExpr.poison (span : Option Span) : TExpr := .mk .null .any span

/-- What is wrong with a value of one type in a place of another, both being other than `any`. -/
def misfit? (found target : Ty) : Option TypeCause :=
  if found.isNullable && !target.isNullable then
    some (.nullSafety
      (if found = .null then .storingNull target else .storingNullable found target))
  else if found.assignableTo target then none
  else some (.mismatch target found)

namespace Check

/-- Lets a value flow into a place of type `target`. -/
def coerce (e : TExpr) (target : Ty) : Check TExpr :=
  if e.ty = target then pure e
  else
    match e.ty, target with
    | .void, _ => do
      reportMismatch target .void e.span
      return e
    | .any, _ => return .mk (.unbox e) target e.span
    | _, .any => return .mk (.box e) .any e.span
    | found, _ => do
      match misfit? found target with
      | some cause => report cause e.span
      | none => pure ()
      return e

mutual

/-- Reports the struct names of a type that are not declared. -/
def checkTypeNames (span : Option Span) : Ty → Check Unit
  | .struct name => do
    if (← structSig? name).isNone then report (.unresolved .type name) span
  | .function params ret => do
    checkTypeNamesList span params
    checkTypeNames span ret
  | .nullable inner => checkTypeNames span inner
  | .task inner => checkTypeNames span inner
  | .int | .float | .bool | .string | .void | .any | .null => pure ()

def checkTypeNamesList (span : Option Span) : List Ty → Check Unit
  | [] => pure ()
  | t :: rest => do
    checkTypeNames span t
    checkTypeNamesList span rest

end

/-- The type of an annotation, whose struct names have to be declared. -/
def resolveType (t : TypeExpr) (span : Option Span) : Check Ty := do
  let ty := Ty.ofExpr t
  checkTypeNames span ty
  return ty

def resolveReturn (t : Option TypeExpr) (span : Option Span) : Check Ty :=
  match t with
  | none => pure .void
  | some t => resolveType t span

end Check

end ScopedScript
