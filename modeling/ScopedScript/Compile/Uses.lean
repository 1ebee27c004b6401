import ScopedScript.Typing.Tree

/-!
# Uses of outer bindings

What statements do with the bindings visible before them. A name counts while it still means the
binding from outside; a declaration hides it for the statements after it in its block.
-/

namespace ScopedScript

/-- One use of an outer binding. It escapes when a lambda captures it or `return` hands it out. -/
structure Use where
  name : String
  escapes : Bool
deriving DecidableEq, Repr

/-- A use, unless the name is hidden. -/
def Use.unlessHidden (hidden : List String) (name : String) (escapes : Bool) : List Use :=
  if hidden.contains name then [] else [⟨name, escapes⟩]

/-- The binding that is returned, looking through conversions from and to `any`. -/
def returnedName? : TExpr → Option String
  | .mk (.binding name) _ _ => some name
  | .mk (.box inner) _ _ => returnedName? inner
  | .mk (.unbox inner) _ _ => returnedName? inner
  | _ => none

/-- The names that a statement declares for those after it. -/
def TStmt.declared : TStmt → List String
  | .declare name _ _ _ _ => [name]
  | _ => []

mutual

def exprUses (hidden : List String) : TExpr → List Use
  | .mk kind _ _ => kindUses hidden kind

def kindUses (hidden : List String) : TKind → List Use
  | .binding name => Use.unlessHidden hidden name false
  | .int _ | .float _ | .bool _ | .string _ | .null | .function _ | .native _ => []
  | .binary _ left right => exprUses hidden left ++ exprUses hidden right
  | .unary _ operand => exprUses hidden operand
  | .logical _ left right => exprUses hidden left ++ exprUses hidden right
  | .call _ args => exprsUses hidden args
  | .callValue callee args => exprUses hidden callee ++ exprsUses hidden args
  | .callDynamic callee args => exprUses hidden callee ++ exprsUses hidden args
  | .callMethodDynamic _ args => exprsUses hidden args
  | .field object _ _ => exprUses hidden object
  | .structInit _ values => exprsUses hidden values
  -- captures are copied when the closure is made
  | .lambda _ _ _ captures => captures.flatMap fun name => Use.unlessHidden hidden name true
  | .spawn _ args => exprsUses hidden args
  | .await inner => exprUses hidden inner
  | .box inner => exprUses hidden inner
  | .unbox inner => exprUses hidden inner
  | .cast inner => exprUses hidden inner
  | .format parts => exprsUses hidden parts

def exprsUses (hidden : List String) : List TExpr → List Use
  | [] => []
  | e :: rest => exprUses hidden e ++ exprsUses hidden rest

def stmtUses (hidden : List String) : TStmt → List Use
  | .declare _ _ _ none _ => []
  | .declare _ _ _ (some value) _ => exprUses hidden value
  | .assign target value _ =>
    exprUses hidden value ++ Use.unlessHidden hidden target.name false
  | .branch condition thenBlock elifs elseBlock _ =>
    exprUses hidden condition ++ blockUses hidden thenBlock ++ elifsUses hidden elifs ++
      elseUses hidden elseBlock
  | .loop condition body _ => exprUses hidden condition ++ blockUses hidden body
  | .block body _ => blockUses hidden body
  | .ret none _ => []
  | .ret (some value) _ =>
    (match returnedName? value with
      | some name => Use.unlessHidden hidden name true
      | none => []) ++ exprUses hidden value
  | .free name _ => Use.unlessHidden hidden name false
  | .eval expr _ => exprUses hidden expr
  | .breakLoop _ | .continueLoop _ | .collect _ | .yieldNow _ => []

/-- Uses of statements in a row; each declaration hides its name for the rest. -/
def blockUses (hidden : List String) : List TStmt → List Use
  | [] => []
  | stmt :: rest => stmtUses hidden stmt ++ blockUses (stmt.declared ++ hidden) rest

def elifsUses (hidden : List String) : List (TExpr × List TStmt) → List Use
  | [] => []
  | (condition, body) :: rest =>
    exprUses hidden condition ++ blockUses hidden body ++ elifsUses hidden rest

def elseUses (hidden : List String) : Option (List TStmt) → List Use
  | none => []
  | some body => blockUses hidden body

end

/-- Names of outer bindings that statements refer to. -/
def references (stmts : List TStmt) : List String := (blockUses [] stmts).map Use.name

/-- Names of outer bindings that escape through statements. -/
def escaping (stmts : List TStmt) : List String :=
  ((blockUses [] stmts).filter Use.escapes).map Use.name

end ScopedScript
