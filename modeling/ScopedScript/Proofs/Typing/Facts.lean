import ScopedScript.Proofs.Compile.Layout
import ScopedScript.Typing.Env

/-!
# Names and values at the places of a checked program

What the checker settles of a checked tree, read off the tree alone: every name means something at
its place, a binding that is read has a value there, and one that is written may be. Bindings are
told apart by their slots, which are numbered in the order of the declarations, so that facts about
the current path are facts about slots.
-/

namespace ScopedScript

/-! ## Declarations -/

/-- A declaration of a function, by whose position its slot is numbered. -/
structure Declaration where
  name : String
  mutable : Bool
  /-- There is no value before an assignment. -/
  deferred : Bool

def TParam.declaration (p : TParam) : Declaration := ⟨p.name, p.mutable, false⟩

/-- A declared binding has no value when it gets none and cannot be null. -/
def isDeferred (ty : Ty) (value : Option TExpr) : Bool :=
  !(value.isSome || ty.isNullable || ty = .any)

mutual

/-- The declarations in a statement, those in lambdas apart. -/
def stmtDeclarations : TStmt → List Declaration
  | .declare name mutable ty value _ => [⟨name, mutable, isDeferred ty value⟩]
  | .branch _ thenBlock elifs elseBlock _ =>
    stmtsDeclarations thenBlock ++ elifsDeclarations elifs ++ elseDeclarations elseBlock
  | .loop _ body _ => stmtsDeclarations body
  | .block body _ => stmtsDeclarations body
  | .assign _ _ _ | .ret _ _ | .breakLoop _ | .continueLoop _ | .free _ _ | .collect _ | .yieldNow _
  | .eval _ _ => []

def stmtsDeclarations : List TStmt → List Declaration
  | [] => []
  | s :: rest => stmtDeclarations s ++ stmtsDeclarations rest

def elifsDeclarations : List (TExpr × List TStmt) → List Declaration
  | [] => []
  | (_, body) :: rest => stmtsDeclarations body ++ elifsDeclarations rest

def elseDeclarations : Option (List TStmt) → List Declaration
  | none => []
  | some body => stmtsDeclarations body

end

/-- The declarations of a body in the order of their slots. -/
def Body.declarations (b : Body) : List Declaration :=
  b.params.map TParam.declaration ++ stmtsDeclarations b.stmts

/-- From slot `start` on the declarations are these. -/
def Lists (D : List Declaration) (start : Nat) (ds : List Declaration) : Prop :=
  ∀ i d, ds[i]? = some d → D[start + i]? = some d

theorem lists_append {D as bs : List Declaration} {start : Nat} :
    Lists D start (as ++ bs) ↔ Lists D start as ∧ Lists D (start + as.length) bs := by
  constructor
  · refine fun h => ⟨fun i d hi => h i d ?_, fun i d hi => ?_⟩
    · rw [List.getElem?_append_left (List.getElem?_eq_some_iff.1 hi).1, hi]
    · rw [Nat.add_assoc]
      refine h _ d ?_
      rw [List.getElem?_append_right (Nat.le_add_right _ _), Nat.add_sub_cancel_left, hi]
  · rintro ⟨ha, hb⟩ i d hi
    rcases Nat.lt_or_ge i as.length with hlt | hle
    · exact ha i d (by rwa [List.getElem?_append_left hlt] at hi)
    · rw [List.getElem?_append_right hle] at hi
      have := hb _ d hi
      rwa [Nat.add_assoc, Nat.add_sub_cancel' hle] at this

theorem lists_singleton {D : List Declaration} {start : Nat} {d : Declaration} :
    Lists D start [d] ↔ D[start]? = some d := by
  constructor
  · exact fun h => h 0 d rfl
  · intro h i e hi
    obtain ⟨hlt, he⟩ := List.getElem?_eq_some_iff.1 hi
    obtain rfl : i = 0 := by simpa using hlt
    rw [← he]
    exact h

namespace Point

/-! Every declaration takes the next slot. -/

mutual

theorem slots_stmt (P : Point) (rest : List TStmt) : (s : TStmt) →
    (P.stmt rest s).slots = P.slots + (stmtDeclarations s).length
  | .declare _ _ _ _ _ => rfl
  | .branch _ thenBlock elifs elseBlock _ => by
    rw [stmtDeclarations, List.length_append, List.length_append]
    have ht := slots_stmts P.opened thenBlock
    have hm := slots_elifBranches P.freed (P.opened.stmts thenBlock).closed elifs
    have hl := slots_elseBranch ((Point.elifBranches P.freed (P.opened.stmts thenBlock).closed
      elifs).1.withFreed P.freed) elseBlock
    have hPt : (P.opened.stmts thenBlock).closed.slots =
        P.slots + (stmtsDeclarations thenBlock).length := ht
    change (elseBranch _ elseBlock).slots = _
    rw [hl]
    change (elifBranches P.freed (P.opened.stmts thenBlock).closed elifs).1.slots + _ = _
    omega
  | .loop _ body _ => slots_stmts P.inLoop.opened body
  | .block body _ => slots_stmts P.opened body
  | .free name span => by
    change (P.free name span).slots = P.slots
    unfold free
    split
    · split <;> rfl
    · rfl
  | .assign _ _ _ | .ret _ _ | .breakLoop _ | .continueLoop _ | .collect _ | .yieldNow _
  | .eval _ _ => rfl

theorem slots_stmts (P : Point) : (ss : List TStmt) →
    (P.stmts ss).slots = P.slots + (stmtsDeclarations ss).length
  | [] => rfl
  | s :: rest => by
    rw [stmtsDeclarations, List.length_append, stmts, slots_stmts _ rest, slots_stmt P rest s,
      Nat.add_assoc]

theorem slots_elifBranches (before : Freed) (P : Point) : (elifs : List (TExpr × List TStmt)) →
    (P.elifBranches before elifs).1.slots = P.slots + (elifsDeclarations elifs).length
  | [] => rfl
  | (_, body) :: rest => by
    have hb : ((P.withFreed before).opened.stmts body).closed.slots =
      P.slots + (stmtsDeclarations body).length := slots_stmts _ body
    rw [elifsDeclarations, List.length_append, elifBranches, slots_elifBranches before _ rest, hb,
      Nat.add_assoc]

theorem slots_elseBranch (P : Point) : (elseBlock : Option (List TStmt)) →
    (P.elseBranch elseBlock).slots = P.slots + (elseDeclarations elseBlock).length
  | none => rfl
  | some body => slots_stmts P.opened body

end

end Point

/-! ## The end of statements -/

mutual

/-- Control can reach the point after the statement. -/
def TStmt.falls : TStmt → Bool
  | .branch _ thenBlock elifs elseBlock _ =>
    stmtsFall thenBlock || elifsFall elifs || elseFalls elseBlock
  | .block body _ => stmtsFall body
  | .ret _ _ | .breakLoop _ | .continueLoop _ => false
  | .declare _ _ _ _ _ | .assign _ _ _ | .loop _ _ _ | .free _ _ | .collect _ | .yieldNow _
  | .eval _ _ => true

def stmtsFall : List TStmt → Bool
  | [] => true
  | s :: rest => s.falls && stmtsFall rest

def elifsFall : List (TExpr × List TStmt) → Bool
  | [] => false
  | (_, body) :: rest => stmtsFall body || elifsFall rest

def elseFalls : Option (List TStmt) → Bool
  | none => true
  | some body => stmtsFall body

end

/-! ## Facts -/

namespace InitFacts

variable {a b : InitFacts} {id : Nat} {s : InitState}

theorem lookup_join (a b : InitFacts) (id : Nat) :
    (a.join b).lookup id = (a.lookup id).map fun s => s.join ((b.lookup id).getD .uninit) := by
  induction a with
  | nil => rfl
  | cons p rest ih =>
    obtain ⟨k, s⟩ := p
    have hcons : InitFacts.join ((k, s) :: rest) b =
      (k, s.join ((b.lookup k).getD .uninit)) :: InitFacts.join rest b := rfl
    rw [hcons, List.lookup_cons, List.lookup_cons]
    split
    · rename_i hk
      rw [beq_iff_eq.1 hk]
      rfl
    · exact ih

/-- Two paths that agree meet in what they agree on. -/
theorem lookup_join_same (ha : a.lookup id = some s) (hb : b.lookup id = some s) :
    (a.join b).lookup id = some s := by
  rw [lookup_join, ha, hb]
  exact congrArg some (if_pos rfl)

/-- After paths that meet; where there is none, as it is said. -/
def meet (paths : List InitFacts) (otherwise : InitFacts) : InitFacts :=
  match paths with
  | [] => otherwise
  | first :: rest => rest.foldl join first

end InitFacts

/-- The facts at the end of a path, when control gets there. -/
def pathFacts (falls : Bool) (F : InitFacts) : List InitFacts := if falls then [F] else []

/-- After an assignment. -/
def Point.assigned (P : Point) (F : InitFacts) (target : AssignTarget) : InitFacts :=
  match target.path, P.resolve? target.name with
  | [], some (.slot b) => (b.slot, .init) :: F
  | _, _ => F

mutual

/-- What is known after a statement. -/
def TStmt.facts (P : Point) (F : InitFacts) : TStmt → InitFacts
  | .declare _ _ ty value _ => (P.slots, if isDeferred ty value then .uninit else .init) :: F
  | .assign target _ _ => P.assigned F target
  | .branch _ thenBlock elifs elseBlock _ =>
    let afterThen := (P.opened.stmts thenBlock).closed
    let last := (Point.elifBranches P.freed afterThen elifs).1.withFreed P.freed
    let atEnd := elseFacts last F elseBlock
    .meet (pathFacts (stmtsFall thenBlock) (stmtsFacts P.opened F thenBlock) ++
      elifsFacts P.freed afterThen F elifs ++ pathFacts (elseFalls elseBlock) atEnd) atEnd
  -- the body may run no time at all
  | .loop _ body _ => F.join (stmtsFacts P.inLoop.opened F body)
  | .block body _ => stmtsFacts P.opened F body
  | .ret _ _ | .breakLoop _ | .continueLoop _ | .free _ _ | .collect _ | .yieldNow _
  | .eval _ _ => F

def stmtsFacts (P : Point) (F : InitFacts) : List TStmt → InitFacts
  | [] => F
  | s :: rest => stmtsFacts (P.stmt rest s) (s.facts P F) rest

/-- At the ends of those branches that control gets through. -/
def elifsFacts (before : Freed) (P : Point) (F : InitFacts) :
    List (TExpr × List TStmt) → List InitFacts
  | [] => []
  | (_, body) :: rest =>
    pathFacts (stmtsFall body) (stmtsFacts (P.withFreed before).opened F body) ++
      elifsFacts before ((P.withFreed before).opened.stmts body).closed F rest

def elseFacts (P : Point) (F : InitFacts) : Option (List TStmt) → InitFacts
  | none => F
  | some body => stmtsFacts P.opened F body

end

/-! ## Names -/

/-- A name that may be read: of a binding with a value, or of a capture. -/
def Point.Reads (P : Point) (F : InitFacts) (name : String) : Prop :=
  match P.resolve? name with
  | some (.slot b) => F.lookup b.slot = some .init
  | some (.capture _) => True
  | none => False

/-- An assignment that is allowed. A whole immutable binding may be written once: where it has no
value yet and no loop has begun since its declaration. -/
def Point.Writes (P : Point) (D : List Declaration) (F : InitFacts)
    (target : AssignTarget) : Prop :=
  ∃ b d, P.resolve? target.name = some (.slot b) ∧ D[b.slot]? = some d ∧
    if target.path = [] then
      d.mutable = true ∨ (F.lookup b.slot = some .uninit ∧ b.loopDepth = P.loops)
    else d.mutable = true ∧ F.lookup b.slot = some .init

/-- The function or method is one of the program. -/
def Ids.Knows (ids : Ids) : Callee → Prop
  | .function name => (ids.functions.lookup name).isSome
  | .method struct method => (ids.functions.lookup (methodSymbol struct method)).isSome
  | .native _ => True

/-- What is known when a body begins: its parameters have values. -/
def Body.facts (b : Body) : InitFacts :=
  (List.range b.params.length).reverse.map fun slot => (slot, .init)

section

variable (ids : Ids) (frees : List (String × Option Span))

mutual

/-- Every name in an expression means something, and what is read has a value. -/
def TExpr.Grounded (P : Point) (F : InitFacts) : TExpr → Prop
  | .mk kind ty _ => kind.Grounded P F ty

def TKind.Grounded (P : Point) (F : InitFacts) (ty : Ty) : TKind → Prop
  | .int _ | .float _ | .bool _ | .string _ | .null | .native _ => True
  | .binding name => P.Reads F name
  | .function name => (ids.functions.lookup name).isSome
  | .binary _ left right => left.Grounded P F ∧ right.Grounded P F
  | .unary _ operand => operand.Grounded P F
  | .logical _ left right => left.Grounded P F ∧ right.Grounded P F
  | .call callee args => ids.Knows callee ∧ ExprsGrounded P F args
  | .callValue callee args => callee.Grounded P F ∧ ExprsGrounded P F args
  | .callDynamic callee args => callee.Grounded P F ∧ ExprsGrounded P F args
  | .callMethodDynamic _ args => ExprsGrounded P F args
  | .field object _ _ => object.Grounded P F
  | .structInit name values => (ids.structs.lookup name).isSome ∧ ExprsGrounded P F values
  -- the captures are read where the lambda is made
  | .lambda params ret body captures =>
    (∀ name ∈ captures, P.Reads F name) ∧
      StmtsGrounded (.start ⟨params, ret, body, captures, false, none⟩)
        (Body.declarations ⟨params, ret, body, captures, false, none⟩)
        (Body.facts ⟨params, ret, body, captures, false, none⟩) body
  | .spawn function args => (ids.functions.lookup function).isSome ∧ ExprsGrounded P F args
  | .await task => task.Grounded P F
  | .box inner => inner.Grounded P F
  | .unbox inner => inner.Grounded P F
  | .cast inner => (castTarget? ty).isSome ∧ inner.Grounded P F
  | .format parts => ExprsGrounded P F parts

def ExprsGrounded (P : Point) (F : InitFacts) : List TExpr → Prop
  | [] => True
  | e :: rest => e.Grounded P F ∧ ExprsGrounded P F rest

/-- The names of a statement are in order: those in its expressions, and those that it writes or
frees. -/
def TStmt.Grounded (P : Point) (D : List Declaration) (F : InitFacts) : TStmt → Prop
  | .declare _ _ _ none _ => True
  | .declare _ _ _ (some value) _ => value.Grounded P F
  | .assign target value _ => value.Grounded P F ∧ P.Writes D F target
  | .branch condition thenBlock elifs elseBlock _ =>
    let afterThen := (P.opened.stmts thenBlock).closed
    let last := (Point.elifBranches P.freed afterThen elifs).1.withFreed P.freed
    condition.Grounded P F ∧ StmtsGrounded P.opened D F thenBlock ∧
      ElifsGrounded P.freed afterThen D F elifs ∧ ElseGrounded last D F elseBlock
  | .loop condition body _ => condition.Grounded P F ∧ StmtsGrounded P.inLoop.opened D F body
  | .block body _ => StmtsGrounded P.opened D F body
  | .ret none _ => True
  | .ret (some value) _ => value.Grounded P F
  | .free name span => (∃ b, P.resolve? name = some (.slot b)) ∧ (name, span) ∈ frees
  | .eval value _ => value.Grounded P F
  | .breakLoop _ | .continueLoop _ | .collect _ | .yieldNow _ => True

def StmtsGrounded (P : Point) (D : List Declaration) (F : InitFacts) : List TStmt → Prop
  | [] => True
  | s :: rest => s.Grounded P D F ∧ StmtsGrounded (P.stmt rest s) D (s.facts P F) rest

def ElifsGrounded (before : Freed) (P : Point) (D : List Declaration) (F : InitFacts) :
    List (TExpr × List TStmt) → Prop
  | [] => True
  | (condition, body) :: rest =>
    condition.Grounded (P.withFreed before) F ∧
      StmtsGrounded (P.withFreed before).opened D F body ∧
      ElifsGrounded before ((P.withFreed before).opened.stmts body).closed D F rest

def ElseGrounded (P : Point) (D : List Declaration) (F : InitFacts) : Option (List TStmt) → Prop
  | none => True
  | some body => StmtsGrounded P.opened D F body

end

def Body.Grounded (b : Body) : Prop :=
  StmtsGrounded ids frees (.start b) b.declarations b.facts b.stmts

variable {ids frees} {b : Body}

/-! The lambdas of what is in order are so too. -/

mutual

theorem TExpr.Grounded.bodies {P : Point} {F : InitFacts} :
    (e : TExpr) → e.Grounded ids frees P F → b ∈ exprBodies e → b.Grounded ids frees
  | .mk kind _ _, h, hb => TKind.Grounded.bodies kind h hb

theorem TKind.Grounded.bodies {P : Point} {F : InitFacts} {ty : Ty} {span : Option Span} :
    (k : TKind) → k.Grounded ids frees P F ty → b ∈ kindBodies span k → b.Grounded ids frees
  | .binary _ left right, h, hb | .logical _ left right, h, hb =>
    (List.mem_append.1 hb).elim (TExpr.Grounded.bodies left h.1) (TExpr.Grounded.bodies right h.2)
  | .unary _ operand, h, hb => TExpr.Grounded.bodies operand h hb
  | .call _ args, h, hb => ExprsGrounded.bodies args h.2 hb
  | .callValue callee args, h, hb | .callDynamic callee args, h, hb =>
    (List.mem_append.1 hb).elim (TExpr.Grounded.bodies callee h.1) (ExprsGrounded.bodies args h.2)
  | .callMethodDynamic _ args, h, hb => ExprsGrounded.bodies args h hb
  | .field object _ _, h, hb => TExpr.Grounded.bodies object h hb
  | .structInit _ values, h, hb => ExprsGrounded.bodies values h.2 hb
  | .lambda _ _ body _, h, hb => by
    rcases List.mem_append.1 hb with hb | hb
    · exact StmtsGrounded.bodies body h.2 hb
    · rw [List.mem_singleton.1 hb]
      exact h.2
  | .spawn _ args, h, hb => ExprsGrounded.bodies args h.2 hb
  | .await task, h, hb => TExpr.Grounded.bodies task h hb
  | .box inner, h, hb => TExpr.Grounded.bodies inner h hb
  | .unbox inner, h, hb => TExpr.Grounded.bodies inner h hb
  | .cast inner, h, hb => TExpr.Grounded.bodies inner h.2 hb
  | .format parts, h, hb => ExprsGrounded.bodies parts h hb
  | .int _, _, hb | .float _, _, hb | .bool _, _, hb | .string _, _, hb | .null, _, hb
  | .binding _, _, hb | .function _, _, hb | .native _, _, hb => nomatch hb

theorem ExprsGrounded.bodies {P : Point} {F : InitFacts} :
    (es : List TExpr) → ExprsGrounded ids frees P F es → b ∈ exprsBodies es → b.Grounded ids frees
  | [], _, hb => nomatch hb
  | e :: rest, h, hb =>
    (List.mem_append.1 hb).elim (TExpr.Grounded.bodies e h.1) (ExprsGrounded.bodies rest h.2)

theorem TStmt.Grounded.bodies {P : Point} {D : List Declaration} {F : InitFacts} : (s : TStmt) →
    s.Grounded ids frees P D F → b ∈ stmtBodies s → b.Grounded ids frees
  | .declare _ _ _ (some value) _, h, hb => TExpr.Grounded.bodies value h hb
  | .assign _ value _, h, hb => TExpr.Grounded.bodies value h.1 hb
  | .branch condition thenBlock elifs elseBlock _, h, hb => by
    obtain ⟨hc, ht, hm, hl⟩ := h
    simp only [stmtBodies, List.mem_append] at hb
    rcases hb with ((hb | hb) | hb) | hb
    · exact TExpr.Grounded.bodies condition hc hb
    · exact StmtsGrounded.bodies thenBlock ht hb
    · exact ElifsGrounded.bodies elifs hm hb
    · exact ElseGrounded.bodies elseBlock hl hb
  | .loop condition body _, h, hb =>
    (List.mem_append.1 hb).elim (TExpr.Grounded.bodies condition h.1)
      (StmtsGrounded.bodies body h.2)
  | .block body _, h, hb => StmtsGrounded.bodies body h hb
  | .ret (some value) _, h, hb => TExpr.Grounded.bodies value h hb
  | .eval value _, h, hb => TExpr.Grounded.bodies value h hb
  | .declare _ _ _ none _, _, hb | .ret none _, _, hb | .breakLoop _, _, hb | .continueLoop _, _, hb
  | .free _ _, _, hb | .collect _, _, hb | .yieldNow _, _, hb => nomatch hb

theorem StmtsGrounded.bodies {P : Point} {D : List Declaration} {F : InitFacts} :
    (ss : List TStmt) → StmtsGrounded ids frees P D F ss → b ∈ stmtsBodies ss → b.Grounded ids frees
  | [], _, hb => nomatch hb
  | s :: rest, h, hb =>
    (List.mem_append.1 hb).elim (TStmt.Grounded.bodies s h.1) (StmtsGrounded.bodies rest h.2)

theorem ElifsGrounded.bodies {before : Freed} {P : Point} {D : List Declaration} {F : InitFacts} :
    (elifs : List (TExpr × List TStmt)) → ElifsGrounded ids frees before P D F elifs →
    b ∈ elifsBodies elifs → b.Grounded ids frees
  | [], _, hb => nomatch hb
  | (condition, body) :: rest, h, hb => by
    obtain ⟨hc, hbody, hr⟩ := h
    simp only [elifsBodies, List.mem_append] at hb
    rcases hb with (hb | hb) | hb
    · exact TExpr.Grounded.bodies condition hc hb
    · exact StmtsGrounded.bodies body hbody hb
    · exact ElifsGrounded.bodies rest hr hb

theorem ElseGrounded.bodies {P : Point} {D : List Declaration} {F : InitFacts} :
    (elseBlock : Option (List TStmt)) →
    ElseGrounded ids frees P D F elseBlock → b ∈ elseBodies elseBlock → b.Grounded ids frees
  | none, _, hb => nomatch hb
  | some body, h, hb => StmtsGrounded.bodies body h hb

end

end

/-! ## The releases that a program states -/

mutual

/-- The `free` statements in an expression, which are in its lambdas, with their places. -/
def exprFrees : Expr → List (String × Option Span)
  | .int _ _ | .float _ _ | .bool _ _ | .string _ _ | .null _ | .name _ _ => []
  | .binary _ left right _ => exprFrees left ++ exprFrees right
  | .unary _ operand _ => exprFrees operand
  | .logical _ left right _ => exprFrees left ++ exprFrees right
  | .call callee args _ => exprFrees callee ++ exprsFrees args
  | .methodCall object _ args _ => exprFrees object ++ exprsFrees args
  | .field object _ _ => exprFrees object
  | .structInit _ fields _ => fieldsFrees fields
  | .lambda _ _ body _ => stmtsFrees body
  | .spawn call _ => exprFrees call
  | .await task _ => exprFrees task
  | .cast value _ _ => exprFrees value
  | .format parts _ => exprsFrees parts

def exprsFrees : List Expr → List (String × Option Span)
  | [] => []
  | e :: rest => exprFrees e ++ exprsFrees rest

def fieldsFrees : List (String × Expr) → List (String × Option Span)
  | [] => []
  | (_, value) :: rest => exprFrees value ++ fieldsFrees rest

def stmtFrees : Stmt → List (String × Option Span)
  | .declare _ _ _ none _ => []
  | .declare _ _ _ (some value) _ => exprFrees value
  | .assign target value _ => exprFrees target ++ exprFrees value
  | .branch condition thenBlock elifs elseBlock _ =>
    exprFrees condition ++ stmtsFrees thenBlock ++ elifsFrees elifs ++ elseFrees elseBlock
  | .loop condition body _ => exprFrees condition ++ stmtsFrees body
  | .block body _ => stmtsFrees body
  | .ret none _ => []
  | .ret (some value) _ => exprFrees value
  | .free name span => [(name, span)]
  | .eval expr _ => exprFrees expr
  | .breakLoop _ | .continueLoop _ | .collect _ | .yieldNow _ => []

def stmtsFrees : List Stmt → List (String × Option Span)
  | [] => []
  | s :: rest => stmtFrees s ++ stmtsFrees rest

def elifsFrees : List (Expr × List Stmt) → List (String × Option Span)
  | [] => []
  | (condition, body) :: rest => exprFrees condition ++ stmtsFrees body ++ elifsFrees rest

def elseFrees : Option (List Stmt) → List (String × Option Span)
  | none => []
  | some body => stmtsFrees body

end

def Item.frees : Item → List (String × Option Span)
  | .function d => stmtsFrees d.body
  | .struct d => d.methods.flatMap fun m => stmtsFrees m.body

/-- The `free` statements of a program, in functions, methods and lambdas. -/
def Program.frees (p : Program) : List (String × Option Span) := p.items.flatMap Item.frees

end ScopedScript
