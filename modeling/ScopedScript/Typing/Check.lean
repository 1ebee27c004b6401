import ScopedScript.Typing.Coercion

/-!
# Checking expressions and statements

Checking turns a tree into a checked tree and goes on after every error, so that one run reports
all of them. A statement also says whether control can reach the point after it.
-/

namespace ScopedScript

namespace Check

/-- Reports a number of arguments other than the number of parameters. -/
def checkArity (callee : String) (params : List Ty) (found : Nat) (span : Option Span) :
    Check Unit :=
  if params.length = found then pure ()
  else report (.arity callee params.length found) span

/-- The signature of an async function called by its name, unless a binding hides it. -/
def asyncSig? (name : String) : Check (Option Signature) := do
  match ← peek name with
  | some _ => return none
  | none =>
    match ← functionSig? name with
    | some sig => return if sig.isAsync then some sig else none
    | none => return none

/-- The function or built-in that a callee names, unless a binding hides it. -/
def namedCallee? : Expr → Check (Option (Callee × String × Signature))
  | .name name _ => do
    match ← peek name with
    | some _ => return none
    | none =>
      match ← functionSig? name with
      | some sig => return some (.function name, name, sig)
      | none =>
        match ← nativeSig? name with
        | some sig => return some (.native name, name, sig)
        | none => return none
  | _ => return none

def checkName (name : String) (span : Option Span) : Check TExpr := do
  match ← lookup name with
  | some v =>
    match ← initState v.id with
    | .init => pure ()
    | .maybe => reportNull (.maybeUninitialized name) span
    | .uninit => reportNull (.uninitialized name) span
    return .mk (.binding name) ((← narrowedType? v.id).getD v.ty) span
  | none =>
    match ← functionSig? name with
    | some sig =>
      if sig.isAsync then reportInvalid (.asyncAsValue name) span
      return .mk (.function name) sig.toTy span
    | none =>
      match ← nativeSig? name with
      | some sig => return .mk (.native name) sig.toTy span
      | none =>
        report (.unresolved .name name) span
        return .poison span

/-- The type of an arithmetic expression by the types of its operands, neither of them
nullable. -/
def arithType (op : ArithOp) (l r : Ty) (span : Option Span) : Check Ty :=
  match l, r with
  | .any, _ => pure .any
  | _, .any => pure .any
  | .int, .int => pure .int
  | l, r =>
    if l = .float ∧ r = .float ∧ !op.isShift then pure .float
    else if l = .string ∧ r = .string ∧ op = .add then pure .string
    else if l = .string ∧ r = .int ∧ op = .mul then pure .string
    else do
      if op.isShift then reportInvalid (.shiftOperands op l r) span
      else if l.isNumeric then reportMismatch l r span
      else reportInvalid (.operands op l r) span
      return .any

/-- Whether two types can be ordered. -/
def orderable : Ty → Ty → Bool
  | .any, _ => true
  | _, .any => true
  | .int, .int => true
  | .float, .float => true
  | .string, .string => true
  | _, _ => false

/-- The type of a binary expression by the types of its operands. -/
def binaryType (op : BinaryOp) (l r : Ty) (span : Option Span) : Check Ty :=
  match op with
  | .eq | .ne => do
    if !(l.assignableTo r || r.assignableTo l) then reportMismatch l r span
    return .bool
  | .order _ => do
    if l.isNullable || r.isNullable then reportNull (.operands op l r) span
    else if !orderable l r then reportMismatch l r span
    return .bool
  | .arith a =>
    if l.isNullable || r.isNullable then do
      reportNull (.operands op l r) span
      return .any
    else arithType a l r span

/-- The type of a negation by the type of its operand. -/
def negationType (t : Ty) (span : Option Span) : Check Ty :=
  match t with
  | .int | .float | .any => pure t
  | .nullable _ | .null => do
    reportNull (.negation t) span
    return .any
  | t => do
    reportMismatch .int t span
    return .any

/-- The index and type of a field of a value. -/
def fieldType (object : Ty) (field : String) (span : Option Span) : Check (Option Nat × Ty) :=
  match object with
  | .struct name => do
    match (← structSig? name).bind fun sig => sig.field? field with
    | some (i, ty) => return (some i, ty)
    | none =>
      report (.unresolved .field (name ++ "." ++ field)) span
      return (none, .any)
  | .any => return (none, .any)
  | .nullable _ | .null => do
    reportNull (.fieldAccess field object) span
    return (none, .any)
  | t => do
    reportInvalid (.noField t field) span
    return (none, .any)

/-- The type of an awaited value. -/
def awaitedType (t : Ty) (span : Option Span) : Check Ty :=
  match t with
  | .task inner => pure inner
  | .nullable _ | .null => do
    reportNull (.awaiting t) span
    return .any
  | t => do
    reportMismatch (.task .any) t span
    return .any

def isPrimitive : Ty → Bool
  | .int | .float | .bool | .string => true
  | _ => false

/-- Whether values of a type convert to a primitive one. Structs, functions and tasks only have a
text. -/
def convertible (found target : Ty) : Bool :=
  match found with
  | .void => false
  | .int | .float | .bool | .string | .any => true
  | _ => target = .string

def castTo (value : TExpr) (target : Ty) (span : Option Span) : Check TExpr :=
  if !isPrimitive target then do
    reportInvalid (.conversionTarget target) span
    return .poison span
  else do
    if value.ty.isNullable && target != .string then
      reportNull (.conversion value.ty target) span
    else if !convertible value.ty target then
      reportInvalid (.conversion value.ty target) span
    return .mk (.cast value) target span

/-- Takes the value of a field into the slots of an initializer. -/
def initSlot (struct : String) (sig : StructSig) (field : String) (value : TExpr)
    (span : Option Span) (slots : List (Option TExpr)) : Check (List (Option TExpr)) := do
  match sig.field? field with
  | some (index, ty) =>
    match slots[index]? with
    | some (some _) =>
      reportInvalid (.fieldTwice field) span
      return slots
    | _ =>
      let value ← coerce value ty
      return slots.set index (some value)
  | none =>
    report (.unresolved .field (struct ++ "." ++ field)) span
    return slots

/-- The values of all fields in order; a missing one is reported. -/
def fillSlots (struct : String) (span : Option Span) :
    List (String × Ty) → List (Option TExpr) → Check (List TExpr)
  | (_, _) :: fields, some value :: slots => do
    return value :: (← fillSlots struct span fields slots)
  | (field, _) :: fields, none :: slots => do
    reportInvalid (.missingField field struct) span
    return .poison span :: (← fillSlots struct span fields slots)
  | _, _ => return []

/-! Statements, apart from what they contain. -/

/-- A test for null in a condition: the binding, its type when not null, and whether the test is
`!=`. -/
structure NullTest where
  id : Nat
  inner : Ty
  isNe : Bool

/-- The name that an equality compares with `null`. -/
def comparedWithNull? : Expr → Expr → Option String
  | .name name _, .null _ => some name
  | .null _, .name name _ => some name
  | _, _ => none

/-- Recognizes `x == null` and `x != null` on an immutable nullable binding. An assignment could
make a mutable one null again. -/
def nullTest? (condition : Expr) : Check (Option NullTest) :=
  match condition with
  | .binary op left right _ =>
    if op = .eq ∨ op = .ne then
      match comparedWithNull? left right with
      | some name => do
        match ← peek name with
        | some v =>
          if v.mutable then return none
          match v.ty with
          | .nullable inner => return some ⟨v.id, inner, op = .ne⟩
          | _ => return none
        | none => return none
      | none => return none
    else return none
  | _ => return none

/-- Narrows the tested binding where the test has this outcome. -/
def narrowWhere (test : Option NullTest) (isNe : Bool) : Check Unit :=
  match test with
  | some t => if t.isNe = isNe then narrow t.id t.inner else pure ()
  | none => pure ()

def requireLoop (keyword : String) (span : Option Span) : Check Unit := do
  if (← loopDepth) = 0 then reportInvalid (.outsideLoop keyword) span

def checkFree (name : String) (span : Option Span) : Check Unit := do
  match ← lookup name with
  | some v => if v.kind = .capture then reportInvalid (.freeCapture name) span
  | none => report (.unresolved .binding name) span

/-- The type of a declared binding, from its annotation or its initializer. -/
def declaredType (name : String) (stated : Option Ty) (value : Option TExpr)
    (span : Option Span) : Check Ty :=
  match stated, value with
  | some t, _ => pure t
  | none, some v =>
    match v.ty with
    | .null => do
      reportInvalid (.inferFromNull name) span
      return .any
    | .void => do
      reportMismatch .any .void (v.span.or span)
      return .any
    | t => pure t
  | none, none => do
    reportInvalid (.needsType name) span
    return .any

/-- Declares a binding; a nullable one and one of type `any` start out as null. -/
def checkDeclare (name : String) (mutable : Bool) (stated : Option Ty) (value : Option TExpr)
    (span : Option Span) : Check TStmt := do
  let ty ← declaredType name stated value span
  let value ← match value with
    | some v => some <$> coerce v ty
    | none => pure none
  let state := if value.isSome || ty.isNullable || ty = .any then InitState.init else .uninit
  declare name ty mutable .letBound state span
  return .declare name mutable ty value span

/-- The root of a chain of field accesses, and the fields from the root outward. -/
def fieldChain : Expr → Expr × List String
  | .field object field _ =>
    let (root, fields) := fieldChain object
    (root, fields ++ [field])
  | e => (e, [])

/-- A whole binding may be written when it is mutable, and an immutable local once: where it has
no value yet and no loop has begun since its declaration. -/
def checkBindingWrite (name : String) (v : Var) (span : Option Span) : Check Unit := do
  let allowed ← match v.kind with
    | .capture | .receiver => pure false
    | .param => pure v.mutable
    | .letBound => do
      let state ← initState v.id
      let depth ← loopDepth
      pure (v.mutable || (state = .uninit && v.loopDepth = depth))
  if !allowed then report (.immutable name v.declaredAt) span

/-- Follows fields through structs. Gives the indices and the type reached. -/
def fieldPath (ty : Ty) (span : Option Span) : List String → Check (List Nat × Ty)
  | [] => return ([], ty)
  | field :: rest =>
    match ty with
    | .struct struct => do
      match (← structSig? struct).bind fun sig => sig.field? field with
      | some (index, next) =>
        let (path, last) ← fieldPath next span rest
        return (index :: path, last)
      | none =>
        report (.unresolved .field (struct ++ "." ++ field)) span
        return ([], .any)
    | .nullable _ | .null => do
      reportNull (.fieldWrite field ty) span
      return ([], .any)
    | .any => do
      reportInvalid (.assignAnyField field) span
      return ([], .any)
    | t => do
      reportInvalid (.noField t field) span
      return ([], .any)

/-- A field may be written when its root is mutable and has a value on every path. -/
def checkFieldWrite (name : String) (v : Var) (fields : List String) (span : Option Span) :
    Check (List Nat × Ty) := do
  let mutable := (v.kind = .letBound || v.kind = .param) && v.mutable
  if !mutable then report (.immutable name v.declaredAt) span
  if (← initState v.id) ≠ .init then reportNull (.fieldOfUninitialized name) span
  fieldPath v.ty span fields

def checkAssign (target : Expr) (value : TExpr) (span : Option Span) : Check TStmt := do
  let (root, fields) := fieldChain target
  match root with
  | .name name rootSpan =>
    match ← lookup name with
    | none =>
      if (← functionSig? name).isSome then reportInvalid (.assignFunction name) (rootSpan.or span)
      else report (.unresolved .binding name) (rootSpan.or span)
      return .eval value span
    | some v =>
      if fields.isEmpty then
        checkBindingWrite name v span
        let value ← coerce value v.ty
        markInit v.id
        return .assign ⟨name, [], target.span⟩ value span
      else
        let (path, ty) ← checkFieldWrite name v fields span
        let value ← coerce value ty
        return .assign ⟨name, path, target.span⟩ value span
  | _ =>
    reportInvalid .assignTarget (target.span.or span)
    return .eval value span

/-- A returned value, which has to be there unless the function returns nothing. -/
def checkReturned (value : Option TExpr) (ret : Ty) (span : Option Span) :
    Check (Option TExpr) :=
  match value with
  | some v =>
    if ret = .void then do
      reportMismatch .void v.ty span
      return some v
    else some <$> coerce v ret
  | none => do
    if ret ≠ .void then reportMismatch ret .void span
    return none

/-- A condition has to be a `bool`; one of type `any` is checked when the program runs. -/
def asCondition (check : Check TExpr) : Check TExpr := do
  let e ← check
  coerce e .bool

/-- Checks in a scope of its own; what is learnt there about null ends with it. -/
def inBlock (check : Check α) : Check α := do
  enterScope
  let mark ← narrowings
  let result ← check
  setNarrowings mark
  exitScope
  return result

/-- The facts at the end of a path, when control gets there. -/
def pathEnd (falls : Bool) : Check (List InitFacts) := do
  let facts ← initFacts
  return if falls then [facts] else []

mutual

def checkExpr : Expr → Check TExpr
  | .int value span => return .mk (.int value) .int span
  | .float value span => return .mk (.float value) .float span
  | .bool value span => return .mk (.bool value) .bool span
  | .string value span => return .mk (.string value) .string span
  | .null span => return .mk .null .null span
  | .name name span => checkName name span
  | .binary op left right span => do
    let left ← checkExpr left
    let right ← checkExpr right
    let ty ← binaryType op left.ty right.ty span
    return .mk (.binary op left right) ty span
  | .unary .not operand span => do
    let operand ← checkExpr operand
    let operand ← coerce operand .bool
    return .mk (.unary .not operand) .bool span
  | .unary .neg operand span => do
    let operand ← checkExpr operand
    let ty ← negationType operand.ty span
    return .mk (.unary .neg operand) ty span
  | .logical op left right span => do
    let left ← asCondition (checkExpr left)
    let right ← asCondition (checkExpr right)
    return .mk (.logical op left right) .bool span
  | .call callee args span => do
    match ← namedCallee? callee with
    | some (target, name, sig) =>
      if sig.isAsync then reportInvalid (.asyncNotStarted name) span
      checkArity name sig.params args.length span
      let args ← checkArgs sig.params args
      return .mk (.call target args) (if sig.isAsync then .task sig.ret else sig.ret) span
    | none =>
      let callee ← checkExpr callee
      match callee.ty with
      | .function params ret =>
        checkArity "function value" params args.length span
        let args ← checkArgs params args
        return .mk (.callValue callee args) ret span
      | .any =>
        let args ← checkBoxed args
        return .mk (.callDynamic callee args) .any span
      | .nullable _ | .null =>
        reportNull (.calling callee.ty) span
        return .poison span
      | t =>
        reportInvalid (.notCallable t) span
        return .poison span
  | .methodCall object method args span => do
    let receiver ← checkExpr object
    match receiver.ty with
    | .struct struct =>
      match (← structSig? struct).bind fun sig => sig.methods.lookup method with
      | none =>
        report (.unresolved .method (struct ++ "." ++ method)) span
        return .poison span
      | some sig =>
        checkArity (struct ++ "." ++ method) sig.params args.length span
        let args ← checkArgs sig.params args
        return .mk (.call (.method struct method) (receiver :: args)) sig.ret span
    | .any =>
      let args ← checkBoxed args
      return .mk (.callMethodDynamic method (receiver :: args)) .any span
    | .nullable _ | .null =>
      reportNull (.methodCall method receiver.ty) span
      return .poison span
    | t =>
      reportInvalid (.noMethod t method) span
      return .poison span
  | .field object field span => do
    let object ← checkExpr object
    let (index, ty) ← fieldType object.ty field span
    return .mk (.field object field index) ty span
  | .structInit name fields span => do
    match ← structSig? name with
    | none =>
      checkValues fields
      report (.unresolved .struct name) span
      return .poison span
    | some sig =>
      let slots ← checkInits name sig span (List.replicate sig.fields.length none) fields
      let values ← fillSlots name span sig.fields slots
      return .mk (.structInit name values) (.struct name) span
  | .lambda params ret body span => do
    let ret ← resolveReturn ret span
    let params ← params.mapM fun p => do
      let ty ← resolveType p.type (p.span.or span)
      return TParam.mk p.name ty p.mutable p.span
    enterFunction ret false
    for p in params do
      declare p.name p.ty p.mutable .param .init p.span
    let (body, falls) ← checkStmts body
    if falls ∧ ret ≠ .void then reportInvalid (.lambdaEnds ret) span
    let captures ← exitFunction
    return .mk (.lambda params ret body captures) (.function (params.map TParam.ty) ret) span
  | .spawn call span => do
    match ← checkStart span call with
    | some (function, args, ret) => return .mk (.spawn function args) (.task ret) span
    | none =>
      let _ ← checkExpr call
      reportInvalid .spawnOfOther span
      return .poison span
  | .await task span => do
    if !(← inAsync) then reportInvalid .awaitOutsideAsync span
    let task ← match ← checkStart span task with
      | some (function, args, ret) => pure (.mk (.spawn function args) (.task ret) task.span)
      | none => checkExpr task
    let ty ← awaitedType task.ty span
    return .mk (.await task) ty span
  | .cast value type span => do
    let value ← checkExpr value
    let target ← resolveType type span
    castTo value target span
  | .format parts span => do
    let parts ← checkParts span parts
    return .mk (.format parts) .string span

/-- The call of an async function, which starts a task: its name, arguments and result. -/
def checkStart (span : Option Span) :
    Expr → Check (Option (String × List TExpr × Ty))
  | .call (.name name _) args _ => do
    match ← asyncSig? name with
    | some sig =>
      checkArity name sig.params args.length span
      let args ← checkArgs sig.params args
      return some (name, args, sig.ret)
    | none => return none
  | _ => return none

/-- Arguments flowing into parameters; those beyond the last parameter are left as they are. -/
def checkArgs (params : List Ty) : List Expr → Check (List TExpr)
  | [] => return []
  | arg :: rest => do
    let arg ← checkExpr arg
    let arg ← match params.head? with
      | some ty => coerce arg ty
      | none => pure arg
    let rest ← checkArgs params.tail rest
    return arg :: rest

/-- Arguments flowing into `any`. -/
def checkBoxed : List Expr → Check (List TExpr)
  | [] => return []
  | arg :: rest => do
    let arg ← checkExpr arg
    let arg ← coerce arg .any
    let rest ← checkBoxed rest
    return arg :: rest

/-- The parts of a formatted string, which need a value. -/
def checkParts (span : Option Span) : List Expr → Check (List TExpr)
  | [] => return []
  | part :: rest => do
    let part ← checkExpr part
    if part.ty = .void then reportInvalid .formatVoid (part.span.or span)
    let rest ← checkParts span rest
    return part :: rest

/-- The values of an initializer whose struct is not known. -/
def checkValues : List (String × Expr) → Check Unit
  | [] => return ()
  | (_, value) :: rest => do
    let _ ← checkExpr value
    checkValues rest

/-- The values of an initializer, taken into the slots of the declared fields. -/
def checkInits (struct : String) (sig : StructSig) (span : Option Span)
    (slots : List (Option TExpr)) : List (String × Expr) → Check (List (Option TExpr))
  | [] => return slots
  | (field, value) :: rest => do
    let typed ← checkExpr value
    let slots ← initSlot struct sig field typed (value.span.or span) slots
    checkInits struct sig span slots rest

/-- A statement, and whether control can reach the point after it. -/
def checkStmt : Stmt → Check (TStmt × Bool)
  | .declare name mutable type none span => do
    let stated ← match type with
      | some t => some <$> resolveType t span
      | none => pure none
    return (← checkDeclare name mutable stated none span, true)
  | .declare name mutable type (some value) span => do
    let stated ← match type with
      | some t => some <$> resolveType t span
      | none => pure none
    let value ← checkExpr value
    return (← checkDeclare name mutable stated (some value) span, true)
  | .assign target value span => do
    let value ← checkExpr value
    return (← checkAssign target value span, true)
  | .branch condition thenBlock elifs elseBlock span => do
    let test ← nullTest? condition
    let typed ← asCondition (checkExpr condition)
    let before ← initFacts
    let mark ← narrowings
    narrowWhere test true
    let (thenTyped, thenFalls) ← inBlock (checkStmts thenBlock)
    setNarrowings mark
    let thenPaths ← pathEnd thenFalls
    setInitFacts before
    -- the later branches run only where the first condition is false
    narrowWhere test false
    let (elifTyped, elifPaths) ← checkElifs elifs
    let (elseTyped, elseFalls) ← checkElse elseBlock
    let elsePaths ← pathEnd elseFalls
    setNarrowings mark
    let paths := thenPaths ++ elifPaths ++ elsePaths
    let falls := !paths.isEmpty
    mergePaths paths
    -- `if x == null` with a block that leaves makes `x` non-null from here on
    match test with
    | some t =>
      let nullLeaves := if t.isNe then elseBlock.isSome && !elseFalls else !thenFalls
      if elifs.isEmpty && nullLeaves && falls then narrow t.id t.inner
    | none => pure ()
    return (.branch typed thenTyped elifTyped elseTyped span, falls)
  | .loop condition body span => do
    let condition ← asCondition (checkExpr condition)
    let before ← initFacts
    enterLoop
    let (body, _) ← inBlock (checkStmts body)
    exitLoop
    -- the body may run no time at all
    let after ← initFacts
    mergePaths [before, after]
    return (.loop condition body span, true)
  | .block body span => do
    let (body, falls) ← inBlock (checkStmts body)
    return (.block body span, falls)
  | .ret none span => do
    let ret ← returnType
    let value ← checkReturned none ret span
    return (.ret value span, false)
  | .ret (some value) span => do
    let ret ← returnType
    let value ← checkExpr value
    let value ← checkReturned (some value) ret span
    return (.ret value span, false)
  | .breakLoop span => do
    requireLoop "break" span
    return (.breakLoop span, false)
  | .continueLoop span => do
    requireLoop "continue" span
    return (.continueLoop span, false)
  | .free name span => do
    checkFree name span
    return (.free name span, true)
  | .collect span => return (.collect span, true)
  | .yieldNow span => do
    if !(← inAsync) then reportInvalid .yieldOutsideAsync span
    return (.yieldNow span, true)
  | .eval expr span => do
    let expr ← checkExpr expr
    return (.eval expr span, true)

/-- Statements of one scope; control reaches the end when it passes all of them. -/
def checkStmts : List Stmt → Check (List TStmt × Bool)
  | [] => return ([], true)
  | stmt :: rest => do
    let (stmt, reaches) ← checkStmt stmt
    let (rest, falls) ← checkStmts rest
    return (stmt :: rest, reaches && falls)

def checkElse : Option (List Stmt) → Check (Option (List TStmt) × Bool)
  | none => return (none, true)
  | some body => do
    let (body, falls) ← inBlock (checkStmts body)
    return (some body, falls)

/-- Further branches with the facts at the end of those that fall through. -/
def checkElifs : List (Expr × List Stmt) → Check (List (TExpr × List TStmt) × List InitFacts)
  | [] => return ([], [])
  | (condition, body) :: rest => do
    let test ← nullTest? condition
    let typed ← asCondition (checkExpr condition)
    let before ← initFacts
    let mark ← narrowings
    narrowWhere test true
    let (body, falls) ← inBlock (checkStmts body)
    setNarrowings mark
    let paths ← pathEnd falls
    setInitFacts before
    let (rest, restPaths) ← checkElifs rest
    return ((typed, body) :: rest, paths ++ restPaths)

end

end Check

end ScopedScript
