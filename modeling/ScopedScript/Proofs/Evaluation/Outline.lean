import ScopedScript.Proofs.Compile.Layout

/-!
# Procedures of a program

The functions, methods and lambdas of a checked program, numbered from the tree alone: first those
with a name of their own, then the lambdas in the order in which they end. A lambda is named after
the function around it, with its number among the lambdas there.
-/

namespace ScopedScript

/-- Something that can be called. -/
structure Procedure where
  name : String
  body : Body
  /-- The number of the first lambda in the body. -/
  first : Nat

/-- What a part of a tree contributes to the numbering, read from left to right. -/
@[ext]
structure Outline where
  /-- How many lambdas stand in it, those in other lambdas aside. -/
  direct : Nat
  /-- How many lambdas stand in it, at any depth. -/
  total : Nat
  /-- The lambdas as procedures, given the name of the function around them, how many lambdas of it
  come before, and the number of the first one. -/
  procedures : String → Nat → Nat → List Procedure
  /-- The functions and lambdas that it makes values of, other lambdas aside, given the number of
  the first lambda. -/
  made : Nat → List Nat
  /-- How many of these there are. -/
  makes : Nat
  /-- The float literals. -/
  floats : List Float
  /-- How many times it starts a task, waits for one or lets others run. -/
  tasks : Nat
  length_procedures : ∀ outer before first, (procedures outer before first).length = total
  length_made : ∀ first, (made first).length = makes

namespace Outline

def empty : Outline where
  direct := 0
  total := 0
  procedures := fun _ _ _ => []
  made := fun _ => []
  makes := 0
  floats := []
  tasks := 0
  length_procedures := fun _ _ _ => rfl
  length_made := fun _ => rfl

def append (a b : Outline) : Outline where
  direct := a.direct + b.direct
  total := a.total + b.total
  procedures := fun outer before first =>
    a.procedures outer before first ++ b.procedures outer (before + a.direct) (first + a.total)
  made := fun first => a.made first ++ b.made (first + a.total)
  makes := a.makes + b.makes
  floats := a.floats ++ b.floats
  tasks := a.tasks + b.tasks
  length_procedures := fun _ _ _ => by
    rw [List.length_append, a.length_procedures, b.length_procedures]
  length_made := fun _ => by rw [List.length_append, a.length_made, b.length_made]

instance : Append Outline := ⟨append⟩

def literal (x : Float) : Outline := { empty with floats := [x] }

/-- A named function as a value. -/
def reference (id? : Option Nat) : Outline :=
  { empty with
    made := fun _ => id?.toList
    makes := id?.toList.length
    length_made := fun _ => rfl }

/-- A place where tasks matter. -/
def task : Outline := { empty with tasks := 1 }

/-- A lambda, from the outline of its statements. -/
def lambda (o : Outline) (b : Body) : Outline where
  direct := 1
  total := o.total + 1
  procedures := fun outer before first =>
    let name := outer ++ "#lambda" ++ Decimal.natText (before + 1)
    o.procedures name 0 first ++ [⟨name, b, first⟩]
  made := fun first => [first + o.total]
  makes := 1
  floats := o.floats
  tasks := o.tasks
  length_procedures := fun _ _ _ => by
    rw [List.length_append, o.length_procedures, List.length_singleton]
  length_made := fun _ => rfl

/-- The statements of a function of this name. -/
def named (o : Outline) (name : String) : Outline where
  direct := 0
  total := o.total
  procedures := fun _ _ first => o.procedures name 0 first
  made := fun _ => []
  makes := 0
  floats := o.floats
  tasks := o.tasks
  length_procedures := fun _ _ first => o.length_procedures name 0 first
  length_made := fun _ => rfl

section

variable (a b : Outline) (outer : String) (before first : Nat)

@[simp]
theorem direct_append : (a ++ b).direct = a.direct + b.direct := rfl

@[simp]
theorem total_append : (a ++ b).total = a.total + b.total := rfl

@[simp]
theorem procedures_append : (a ++ b).procedures outer before first =
    a.procedures outer before first ++ b.procedures outer (before + a.direct) (first + a.total) :=
  rfl

@[simp]
theorem made_append : (a ++ b).made first = a.made first ++ b.made (first + a.total) := rfl

@[simp]
theorem makes_append : (a ++ b).makes = a.makes + b.makes := rfl

@[simp]
theorem floats_append : (a ++ b).floats = a.floats ++ b.floats := rfl

@[simp]
theorem tasks_append : (a ++ b).tasks = a.tasks + b.tasks := rfl

@[simp]
theorem append_empty : a ++ empty = a := by
  apply Outline.ext
  case procedures => exact funext fun _ => funext fun _ => funext fun _ => List.append_nil _
  case made => exact funext fun _ => List.append_nil _
  case floats => exact List.append_nil _
  all_goals rfl

@[simp]
theorem empty_append : empty ++ a = a := by
  apply Outline.ext
  case direct | total | makes | tasks => exact Nat.zero_add _
  all_goals rfl

theorem append_assoc (c : Outline) : a ++ b ++ c = a ++ (b ++ c) := by
  apply Outline.ext
  case direct | total | makes | tasks => exact Nat.add_assoc _ _ _
  case procedures =>
    funext outer before first
    simp [Nat.add_assoc]
  case made =>
    funext first
    simp [Nat.add_assoc]
  case floats => exact List.append_assoc _ _ _

end

end Outline

section

variable (ids : Ids)

mutual

def exprOutline : TExpr → Outline
  | .mk kind _ span => kindOutline span kind

def kindOutline (span : Option Span) : TKind → Outline
  | .int _ | .bool _ | .string _ | .null | .binding _ | .native _ => .empty
  | .float value => .literal value
  | .function name => .reference (ids.functions.lookup name)
  | .binary _ left right => exprOutline left ++ exprOutline right
  | .unary _ operand => exprOutline operand
  | .logical _ left right => exprOutline left ++ exprOutline right
  | .call _ args => exprsOutline args
  | .callValue callee args => exprOutline callee ++ exprsOutline args
  | .callDynamic callee args => exprOutline callee ++ exprsOutline args
  | .callMethodDynamic _ args => exprsOutline args
  | .field object _ _ => exprOutline object
  | .structInit _ values => exprsOutline values
  | .lambda params ret body captures =>
    (stmtsOutline body).lambda ⟨params, ret, body, captures, false, span⟩
  | .spawn _ args => exprsOutline args ++ .task
  | .await task => exprOutline task ++ .task
  | .box inner => exprOutline inner
  | .unbox inner => exprOutline inner
  | .cast inner => exprOutline inner
  | .format parts => exprsOutline parts

def exprsOutline : List TExpr → Outline
  | [] => .empty
  | e :: rest => exprOutline e ++ exprsOutline rest

def stmtOutline : TStmt → Outline
  | .declare _ _ _ none _ => .empty
  | .declare _ _ _ (some value) _ => exprOutline value
  | .assign _ value _ => exprOutline value
  | .branch condition thenBlock elifs elseBlock _ =>
    exprOutline condition ++ stmtsOutline thenBlock ++ elifsOutline elifs ++ elseOutline elseBlock
  | .loop condition body _ => exprOutline condition ++ stmtsOutline body
  | .block body _ => stmtsOutline body
  | .ret none _ => .empty
  | .ret (some value) _ => exprOutline value
  | .eval value _ => exprOutline value
  | .breakLoop _ | .continueLoop _ | .free _ _ | .collect _ => .empty
  | .yieldNow _ => .task

def stmtsOutline : List TStmt → Outline
  | [] => .empty
  | s :: rest => stmtOutline s ++ stmtsOutline rest

def elifsOutline : List (TExpr × List TStmt) → Outline
  | [] => .empty
  | (condition, body) :: rest => exprOutline condition ++ stmtsOutline body ++ elifsOutline rest

def elseOutline : Option (List TStmt) → Outline
  | none => .empty
  | some body => stmtsOutline body

end

/-- The functions as procedures, given the number of the first lambda. -/
def functionProcedures (first : Nat) : List TFunction → List Procedure
  | [] => []
  | f :: rest =>
    ⟨f.name, f.toBody, first⟩ :: functionProcedures (first + (stmtsOutline ids f.body).total) rest

def functionsOutline : List TFunction → Outline
  | [] => .empty
  | f :: rest => (stmtsOutline ids f.body).named f.name ++ functionsOutline rest

end

namespace TProgram

variable (p : TProgram)

/-- All procedures, each at its number. -/
def procedures : List Procedure :=
  functionProcedures (.ofProgram p) p.functions.length p.functions ++
    (functionsOutline (.ofProgram p) p.functions).procedures "" 0 p.functions.length

/-- The float literals of a program. -/
def floats : List Float := (functionsOutline (.ofProgram p) p.functions).floats

/-- How many times a program starts a task, waits for one or lets others run. -/
def tasks : Nat := (functionsOutline (.ofProgram p) p.functions).tasks

end TProgram

theorem length_functionProcedures (ids : Ids) (first : Nat) (fs : List TFunction) :
    (functionProcedures ids first fs).length = fs.length := by
  induction fs generalizing first with
  | nil => rfl
  | cons f rest ih => exact congrArg Nat.succ (ih _)

/-! ## What procedures consist of -/

section

variable {ids : Ids} {a b : Outline} {bodies bodies' : List Body}

/-- The procedures of an outline are lambdas with these bodies, and what stands in them stands in
it. -/
def Outline.Covers (ids : Ids) (o : Outline) (bodies : List Body) : Prop :=
  ∀ outer before first, ∀ q ∈ o.procedures outer before first, q.body ∈ bodies ∧
    (stmtsOutline ids q.body.stmts).tasks ≤ o.tasks ∧
    (stmtsOutline ids q.body.stmts).floats ⊆ o.floats

theorem Outline.Covers.empty : Outline.Covers ids .empty [] := fun _ _ _ _ hq => nomatch hq

theorem Outline.Covers.append (ha : Outline.Covers ids a bodies)
    (hb : Outline.Covers ids b bodies') : Outline.Covers ids (a ++ b) (bodies ++ bodies') := by
  intro outer before first q hq
  rw [procedures_append, List.mem_append] at hq
  rw [tasks_append, floats_append, List.mem_append]
  rcases hq with hq | hq
  · obtain ⟨hbody, htasks, hfloats⟩ := ha _ _ _ q hq
    exact ⟨.inl hbody, htasks.trans (Nat.le_add_right _ _),
      List.subset_append_of_subset_left _ hfloats⟩
  · obtain ⟨hbody, htasks, hfloats⟩ := hb _ _ _ q hq
    exact ⟨.inr hbody, htasks.trans (Nat.le_add_left _ _),
      List.subset_append_of_subset_right _ hfloats⟩

/-- A place where tasks matter is no procedure. -/
theorem Outline.Covers.task (ha : Outline.Covers ids a bodies) :
    Outline.Covers ids (a ++ .task) bodies := by
  have h : Outline.Covers ids .task [] := fun _ _ _ _ hq => nomatch hq
  rw [← List.append_nil bodies]
  exact ha.append h

theorem Outline.Covers.lambda (c : Body)
    (h : Outline.Covers ids (stmtsOutline ids c.stmts) bodies) :
    Outline.Covers ids ((stmtsOutline ids c.stmts).lambda c) (bodies ++ [c]) := by
  intro outer before first q hq
  rw [Outline.lambda, List.mem_append] at hq
  rw [List.mem_append]
  rcases hq with hq | hq
  · obtain ⟨hbody, htasks, hfloats⟩ := h _ _ _ q hq
    exact ⟨.inl hbody, htasks, hfloats⟩
  · obtain rfl := List.mem_singleton.1 hq
    exact ⟨.inr (List.mem_singleton_self c), le_rfl, List.Subset.refl _⟩

mutual

theorem covers_expr : (e : TExpr) → Outline.Covers ids (exprOutline ids e) (exprBodies e)
  | .mk kind _ span => covers_kind span kind

theorem covers_kind (span : Option Span) : (k : TKind) →
    Outline.Covers ids (kindOutline ids span k) (kindBodies span k)
  | .int _ | .float _ | .bool _ | .string _ | .null | .binding _ | .function _ | .native _ =>
    fun _ _ _ _ hq => nomatch hq
  | .binary _ left right | .logical _ left right => (covers_expr left).append (covers_expr right)
  | .unary _ operand => covers_expr operand
  | .call _ args | .callMethodDynamic _ args | .structInit _ args | .format args =>
    covers_exprs args
  | .callValue callee args | .callDynamic callee args =>
    (covers_expr callee).append (covers_exprs args)
  | .field inner _ _ | .box inner | .unbox inner | .cast inner => covers_expr inner
  | .lambda params ret body captures =>
    .lambda ⟨params, ret, body, captures, false, span⟩ (covers_stmts body)
  | .spawn _ args => (covers_exprs args).task
  | .await task => (covers_expr task).task

theorem covers_exprs : (es : List TExpr) → Outline.Covers ids (exprsOutline ids es) (exprsBodies es)
  | [] => .empty
  | e :: rest => (covers_expr e).append (covers_exprs rest)

theorem covers_stmt : (s : TStmt) → Outline.Covers ids (stmtOutline ids s) (stmtBodies s)
  | .declare _ _ _ none _ | .ret none _ | .breakLoop _ | .continueLoop _ | .free _ _ | .collect _
  | .yieldNow _ => fun _ _ _ _ hq => nomatch hq
  | .declare _ _ _ (some value) _ | .assign _ value _ | .ret (some value) _ | .eval value _ =>
    covers_expr value
  | .branch condition thenBlock elifs elseBlock _ =>
    (((covers_expr condition).append (covers_stmts thenBlock)).append (covers_elifs elifs)).append
      (covers_else elseBlock)
  | .loop condition body _ => (covers_expr condition).append (covers_stmts body)
  | .block body _ => covers_stmts body

theorem covers_stmts : (ss : List TStmt) → Outline.Covers ids (stmtsOutline ids ss) (stmtsBodies ss)
  | [] => .empty
  | s :: rest => (covers_stmt s).append (covers_stmts rest)

theorem covers_elifs : (elifs : List (TExpr × List TStmt)) →
    Outline.Covers ids (elifsOutline ids elifs) (elifsBodies elifs)
  | [] => .empty
  | (condition, body) :: rest =>
    ((covers_expr condition).append (covers_stmts body)).append (covers_elifs rest)

theorem covers_else : (elseBlock : Option (List TStmt)) →
    Outline.Covers ids (elseOutline ids elseBlock) (elseBodies elseBlock)
  | none => .empty
  | some body => covers_stmts body

end

theorem covers_functions (fs : List TFunction) : Outline.Covers ids (functionsOutline ids fs)
    (fs.flatMap fun f => f.toBody :: stmtsBodies f.body) := by
  induction fs with
  | nil => exact .empty
  | cons f rest ih =>
    have hf : Outline.Covers ids ((stmtsOutline ids f.body).named f.name)
        (f.toBody :: stmtsBodies f.body) := by
      intro outer before first q hq
      obtain ⟨hbody, h⟩ := covers_stmts f.body f.name 0 first q hq
      exact ⟨List.mem_cons_of_mem _ hbody, h⟩
    exact hf.append ih

theorem mem_functionProcedures {fs : List TFunction} {first : Nat} {q : Procedure}
    (hq : q ∈ functionProcedures ids first fs) : ∃ f ∈ fs, q.name = f.name ∧ q.body = f.toBody := by
  induction fs generalizing first with
  | nil => cases hq
  | cons f rest ih =>
    rcases List.mem_cons.1 hq with rfl | hq
    · exact ⟨f, List.mem_cons_self, rfl, rfl⟩
    · obtain ⟨f', hf', h⟩ := ih hq
      exact ⟨f', List.mem_cons_of_mem _ hf', h⟩

theorem outline_function_le {fs : List TFunction} {f : TFunction} (hf : f ∈ fs) :
    (stmtsOutline ids f.body).tasks ≤ (functionsOutline ids fs).tasks ∧
      (stmtsOutline ids f.body).floats ⊆ (functionsOutline ids fs).floats := by
  induction fs with
  | nil => cases hf
  | cons g rest ih =>
    rw [functionsOutline, Outline.tasks_append, Outline.floats_append]
    rcases List.mem_cons.1 hf with rfl | hf
    · exact ⟨Nat.le_add_right _ _, List.subset_append_left _ _⟩
    · exact ⟨(ih hf).1.trans (Nat.le_add_left _ _), List.subset_append_of_subset_right _ (ih hf).2⟩

end

/-- What stands in a procedure of a program stands in the program. -/
theorem TProgram.procedure_covered {p : TProgram} {q : Procedure} (hq : q ∈ p.procedures) :
    q.body ∈ p.bodies ∧ (stmtsOutline (.ofProgram p) q.body.stmts).tasks ≤ p.tasks ∧
      (stmtsOutline (.ofProgram p) q.body.stmts).floats ⊆ p.floats := by
  rcases List.mem_append.1 hq with hq | hq
  · obtain ⟨f, hf, -, hbody⟩ := mem_functionProcedures hq
    rw [hbody]
    exact ⟨List.mem_flatMap.2 ⟨f, hf, List.mem_cons_self⟩, outline_function_le hf⟩
  · exact covers_functions p.functions _ _ _ q hq

end ScopedScript
