import ScopedScript.Proofs.Typing.Tracking

/-!
# What checking leaves as it was

Whether it reports errors or not, checking an expression leaves the functions being checked with the
scopes they had, as deep in loops as they were. Errors, identities and captures are added. What is
known about null stays known, but more may be known afterwards: the statements of a lambda add to
it, and what they have added is not taken back at the end of the lambda. An expression without
lambdas adds nothing.
-/

namespace ScopedScript

/-! ## Expressions without lambdas -/

mutual

/-- There is no lambda in the expression. -/
def Expr.LambdaFree : Expr → Prop
  | .int _ _ | .float _ _ | .bool _ _ | .string _ _ | .null _ | .name _ _ => True
  | .binary _ left right _ | .logical _ left right _ => left.LambdaFree ∧ right.LambdaFree
  | .unary _ operand _ => operand.LambdaFree
  | .call callee args _ => callee.LambdaFree ∧ ExprsLambdaFree args
  | .methodCall object _ args _ => object.LambdaFree ∧ ExprsLambdaFree args
  | .field object _ _ => object.LambdaFree
  | .structInit _ fields _ => FieldsLambdaFree fields
  | .lambda _ _ _ _ => False
  | .spawn call _ => call.LambdaFree
  | .await task _ => task.LambdaFree
  | .cast value _ _ => value.LambdaFree
  | .format parts _ => ExprsLambdaFree parts

def ExprsLambdaFree : List Expr → Prop
  | [] => True
  | e :: rest => e.LambdaFree ∧ ExprsLambdaFree rest

def FieldsLambdaFree : List (String × Expr) → Prop
  | [] => True
  | (_, value) :: rest => value.LambdaFree ∧ FieldsLambdaFree rest

end

/-! ## Environments -/

/-- The second functions are the first ones, with more captures, and with declarations in the
innermost scope. -/
def Declared : List FnContext → List FnContext → Prop
  | c :: outer, c' :: outer' => c'.scopes.tail = c.scopes.tail ∧ c'.loopDepth = c.loopDepth ∧
    c.captures ⊆ c'.captures ∧ outer.Forall₂ Grown outer'
  | [], [] => True
  | _, _ => False

theorem declared_of_grown {cs cs' : List FnContext} (h : cs.Forall₂ Grown cs') :
    Declared cs cs' := by
  cases h with
  | nil => trivial
  | cons h ho => exact ⟨congrArg List.tail h.scopes, h.depth, h.captures, ho⟩

instance : Std.Refl (List.Forall₂ Grown) := ⟨grown_refl⟩

instance : IsTrans (List FnContext) (List.Forall₂ Grown) := ⟨fun _ _ _ => grown_trans⟩

instance : Std.Refl Declared := ⟨fun cs => declared_of_grown (grown_refl cs)⟩

instance : IsTrans (List FnContext) Declared where
  trans as bs cs h h' := by
    rcases as with _ | ⟨a, as⟩ <;> rcases bs with _ | ⟨b, bs⟩ <;> rcases cs with _ | ⟨c, cs⟩
    any_goals first | trivial | exact h.elim | exact h'.elim
    exact ⟨h'.1.trans h.1, h'.2.1.trans h.2.1, List.Subset.trans h.2.2.1 h'.2.2.1,
      grown_trans h.2.2.2 h'.2.2.2⟩

/-- A declaration in the innermost scope. -/
theorem declared_declare (c : FnContext) (outer : List FnContext) (name : String) (v : Var) :
    Declared (c :: outer) (c.declare name v :: outer) := by
  unfold FnContext.declare
  split
  · exact declared_of_grown (grown_refl _)
  · rename_i scope rest hscopes
    refine ⟨?_, rfl, List.Subset.refl _, grown_refl outer⟩
    rw [hscopes]
    rfl

theorem Declared.tail {cs cs' : List FnContext} (h : Declared cs cs') :
    cs.tail.Forall₂ Grown cs'.tail := by
  rcases cs with _ | ⟨c, outer⟩ <;> rcases cs' with _ | ⟨c', outer'⟩
  · exact .nil
  · exact h.elim
  · exact h.elim
  · exact h.2.2.2

theorem depths_of_grown {cs cs' : List FnContext} (h : cs.Forall₂ Grown cs') :
    cs'.map FnContext.loopDepth = cs.map FnContext.loopDepth := by
  induction h with
  | nil => rfl
  | cons h _ ih => rw [List.map_cons, List.map_cons, h.depth, ih]

theorem Declared.depths {cs cs' : List FnContext} (h : Declared cs cs') :
    cs'.map FnContext.loopDepth = cs.map FnContext.loopDepth := by
  rcases cs with _ | ⟨c, outer⟩ <;> rcases cs' with _ | ⟨c', outer'⟩
  · rfl
  · exact h.elim
  · exact h.elim
  · rw [List.map_cons, List.map_cons, h.2.1, depths_of_grown h.2.2.2]

/-- The second functions are the first ones, with more captures, and without the innermost. -/
def Left (cs cs' : List FnContext) : Prop := cs.tail.Forall₂ Grown cs'

/-- Errors and identities are added, and the functions being checked are related. -/
structure Env.Restored (K : List FnContext → List FnContext → Prop) (env env' : Env) : Prop where
  globals : env'.globals = env.globals
  contexts : K env.contexts env'.contexts
  errors : env.errors.toList <+: env'.errors.toList
  nextId : env.nextId ≤ env'.nextId

section

variable {K : List FnContext → List FnContext → Prop} {env env' env'' : Env}

theorem Env.Restored.refl [Std.Refl K] (env : Env) : env.Restored K env :=
  ⟨rfl, refl_of K _, List.prefix_refl _, Nat.le_refl _⟩

theorem Env.Restored.trans [IsTrans _ K] (h : env.Restored K env') (h' : env'.Restored K env'') :
    env.Restored K env'' :=
  ⟨h'.globals.trans h.globals, trans_of K h.contexts h'.contexts, h.errors.trans h'.errors,
    h.nextId.trans h'.nextId⟩

end

namespace Check

/-- The computation restores the environment that it starts from, and `N` stays true of what is
known about null. -/
def Restores (K : List FnContext → List FnContext → Prop) (N : List (Nat × Ty) → Prop)
    (x : Check α) : Prop :=
  ∀ env, N env.narrowed → env.Restored K (x env).2 ∧ N (x env).2.narrowed

/-- It stays true when more is known. -/
def Growing (N : List (Nat × Ty) → Prop) : Prop := ∀ known fact, N known → N (fact :: known)

section

variable {K : List FnContext → List FnContext → Prop} {N : List (Nat × Ty) → Prop}

theorem Restores.pure [Std.Refl K] {a : α} : Restores K N (Pure.pure a) :=
  fun env h => ⟨.refl env, h⟩

theorem Restores.bind [IsTrans _ K] {x : Check α} {y : α → Check β} (hx : Restores K N x)
    (hy : ∀ a, Restores K N (y a)) : Restores K N (x >>= y) := by
  intro env h
  obtain ⟨h₁, hn₁⟩ := hx env h
  obtain ⟨h₂, hn₂⟩ := hy (x env).1 (x env).2 hn₁
  exact ⟨h₁.trans h₂, hn₂⟩

/-- What holds of expressions holds of statements. -/
theorem Restores.declaring {x : Check α} (hx : Restores (List.Forall₂ Grown) N x) :
    Restores Declared N x :=
  fun env h =>
    ⟨{ (hx env h).1 with contexts := declared_of_grown (hx env h).1.contexts }, (hx env h).2⟩

theorem Reports.restores [Std.Refl K] {x : Check α} (hx : Reports x) : Restores K N x := by
  intro env h
  obtain ⟨errors, he⟩ := hx env
  rw [he]
  exact ⟨⟨rfl, refl_of K _, ⟨errors.toList, Array.toList_append.symm⟩, Nat.le_refl _⟩, h⟩

/-- A step that only reports, before others. -/
theorem Reports.first [Std.Refl K] [IsTrans _ K] {x : Check α} {y : α → Check β} (hx : Reports x)
    (hy : ∀ a, Restores K N (y a)) : Restores K N (x >>= y) := hx.restores.bind hy

theorem Restores.reported [Std.Refl K] [IsTrans _ K] {x : Check α} {cause : TypeCause}
    {span : Option Span} (hx : Restores K N x) : Restores K N (report cause span >>= fun _ => x) :=
  (reports_report _ _).first fun _ => hx

theorem Restores.reportedIf [Std.Refl K] [IsTrans _ K] {c : Prop} [Decidable c] {x : Unit → Check α}
    {cause : TypeCause} {span : Option Span} (hx : ∀ a, Restores K N (x a)) :
    Restores K N (if c then report cause span >>= x else x ()) := by
  split
  · exact (reports_report _ _).first hx
  · exact hx ()

theorem restores_setInitFacts [Std.Refl K] (facts : InitFacts) :
    Restores K N (setInitFacts facts) :=
  fun _ h => ⟨⟨rfl, refl_of K _, List.prefix_refl _, Nat.le_refl _⟩, h⟩

theorem restores_markInit [Std.Refl K] (id : Nat) : Restores K N (markInit id) :=
  fun _ h => ⟨⟨rfl, refl_of K _, List.prefix_refl _, Nat.le_refl _⟩, h⟩

theorem restores_setNarrowings [Std.Refl K] {known : List (Nat × Ty)} (hk : N known) :
    Restores K N (setNarrowings known) :=
  fun _ _ => ⟨⟨rfl, refl_of K _, List.prefix_refl _, Nat.le_refl _⟩, hk⟩

theorem restores_narrow [Std.Refl K] (hN : Growing N) (id : Nat) (ty : Ty) :
    Restores K N (narrow id ty) :=
  fun _ h => ⟨⟨rfl, refl_of K _, List.prefix_refl _, Nat.le_refl _⟩, hN _ _ h⟩

/-- What was known when this was read may be known again later. -/
theorem Restores.marked {y : List (Nat × Ty) → Check β}
    (hy : ∀ known, N known → Restores K N (y known)) : Restores K N (narrowings >>= y) :=
  fun env h => hy env.narrowed h env h

theorem restores_mergePaths [Std.Refl K] (paths : List InitFacts) :
    Restores K N (mergePaths paths) := by
  cases paths with
  | nil => exact .pure
  | cons first rest => exact restores_setInitFacts _

theorem restores_lookup (name : String) : Restores (List.Forall₂ Grown) N (lookup name) := by
  intro env h
  rw [lookup, modifyGet_eq]
  split
  · rename_i hr
    exact ⟨⟨rfl, (resolveIn_some [] hr).1, List.prefix_refl _, Nat.le_refl _⟩, h⟩
  · exact ⟨.refl env, h⟩

theorem restores_declare (name : String) (ty : Ty) (mutable : Bool) (kind : VarKind)
    (state : InitState)
    (span : Option Span) : Restores Declared N (declare name ty mutable kind state span) := by
  rintro ⟨globals, contexts, errors, init, narrowed, nextId⟩ h
  cases contexts with
  | nil => exact ⟨⟨rfl, trivial, List.prefix_refl _, Nat.le_succ _⟩, h⟩
  | cons c outer =>
    exact ⟨⟨rfl, declared_declare c outer name _, List.prefix_refl _, Nat.le_succ _⟩, h⟩

/-! Scopes, loops and functions. -/

theorem modifyContext_snd (f : FnContext → FnContext) (env : Env) :
    (modifyContext f env).2 = { env with contexts := env.contexts.modifyHead f } := by
  obtain ⟨globals, contexts, errors, init, narrowed, nextId⟩ := env
  cases contexts <;> rfl

/-- What is computed between a change of the innermost function and one that takes it back. -/
theorem Restores.between {K' : List FnContext → List FnContext → Prop} [IsTrans _ K]
    {f g : FnContext → FnContext} {x : Check α} {y : α → Check β} (hx : Restores K' N x)
    (hK : ∀ cs cs', K' (cs.modifyHead f) cs' → K cs (cs'.modifyHead g))
    (hy : ∀ a, Restores K N (y a)) :
    Restores K N (modifyContext f >>= fun _ => x >>= fun a =>
      modifyContext g >>= fun _ => y a) := by
  have hinside : Restores K N (modifyContext f >>= fun _ => x >>= fun a =>
      modifyContext g >>= fun _ => Pure.pure a) := by
    intro env h
    have hrun :
        ((modifyContext f >>= fun _ => x >>= fun a => modifyContext g >>= fun _ =>
          Pure.pure a) env).2 = (modifyContext g (x (modifyContext f env).2).2).2 := rfl
    rw [hrun, modifyContext_snd, modifyContext_snd]
    obtain ⟨hr, hn⟩ := hx { env with contexts := env.contexts.modifyHead f } h
    exact ⟨⟨hr.globals, hK _ _ hr.contexts, hr.errors, hr.nextId⟩, hn⟩
  exact hinside.bind hy

/-- What is learnt in a block ends with it. -/
theorem Restores.inBlock {x : Check α} (hx : Restores Declared N x) :
    Restores (List.Forall₂ Grown) N (inBlock x) := by
  have hback (cs cs' : List FnContext)
      (hcs : Declared (cs.modifyHead fun c => { c with scopes := [] :: c.scopes }) cs') :
      cs.Forall₂ Grown (cs'.modifyHead fun c => { c with scopes := c.scopes.tail }) := by
    rcases cs with _ | ⟨c, outer⟩ <;> rcases cs' with _ | ⟨c', outer'⟩
    · exact .nil
    · exact hcs.elim
    · exact hcs.elim
    · exact .cons ⟨hcs.1, hcs.2.1, hcs.2.2.1⟩ hcs.2.2.2
  have hinside : Restores Declared N (narrowings >>= fun mark => x >>= fun a =>
      setNarrowings mark >>= fun _ => Pure.pure a) := by
    intro env h
    obtain ⟨hr, -⟩ := hx env h
    exact ⟨⟨hr.globals, hr.contexts, hr.errors, hr.nextId⟩, h⟩
  exact hinside.between hback fun _ => .pure

theorem Restores.inLoop {x : Check α} {y : α → Check β} (hx : Restores (List.Forall₂ Grown) N x)
    (hy : ∀ a, Restores (List.Forall₂ Grown) N (y a)) :
    Restores (List.Forall₂ Grown) N (enterLoop >>= fun _ => x >>= fun a =>
      exitLoop >>= fun _ => y a) := by
  have hback (cs cs' : List FnContext)
      (hcs : (cs.modifyHead fun c => { c with loopDepth := c.loopDepth + 1 }).Forall₂ Grown cs') :
      cs.Forall₂ Grown (cs'.modifyHead fun c => { c with loopDepth := c.loopDepth - 1 }) := by
    cases cs with
    | nil =>
      cases hcs
      exact .nil
    | cons c outer =>
      cases hcs with
      | cons hc ho => exact .cons ⟨hc.scopes, congrArg (· - 1) hc.depth, hc.captures⟩ ho
  exact hx.between hback hy

/-- A function is entered, to be left. -/
theorem Restores.entered {x : Check α} {ret : Ty} {isAsync : Bool} (hx : Restores Left N x) :
    Restores (List.Forall₂ Grown) N (enterFunction ret isAsync >>= fun _ => x) := by
  intro env h
  obtain ⟨hr, hn⟩ := hx { env with contexts := ⟨ret, isAsync, [[]], 0, []⟩ :: env.contexts } h
  exact ⟨⟨hr.globals, hr.contexts, hr.errors, hr.nextId⟩, hn⟩

/-- What is checked in a function before it is left. -/
theorem Restores.inside {x : Check α} {y : α → Check β} (hx : Restores Declared N x)
    (hy : ∀ a, Restores Left N (y a)) : Restores Left N (x >>= y) := by
  intro env h
  obtain ⟨h₁, hn₁⟩ := hx env h
  obtain ⟨h₂, hn₂⟩ := hy (x env).1 (x env).2 hn₁
  exact ⟨⟨h₂.globals.trans h₁.globals, grown_trans h₁.contexts.tail h₂.contexts,
    h₁.errors.trans h₂.errors, h₁.nextId.trans h₂.nextId⟩, hn₂⟩

theorem Restores.exited {g : List String → β} :
    Restores Left N (exitFunction >>= fun captures => Pure.pure (g captures)) := by
  rintro ⟨globals, contexts, errors, init, narrowed, nextId⟩ h
  cases contexts <;> exact ⟨⟨rfl, grown_refl _, List.prefix_refl _, Nat.le_refl _⟩, h⟩

/-! ## Steps of the checker -/

theorem restores_checkName (name : String) (span : Option Span) :
    Restores (List.Forall₂ Grown) N (checkName name span) := by
  refine (restores_lookup name).bind fun v => ?_
  split
  · rename_i v
    refine reports_reads.first fun state => ?_
    have hrest : Restores (List.Forall₂ Grown) N (narrowedType? v.id >>= fun ty =>
        Pure.pure (TExpr.mk (.binding name) (ty.getD v.ty) span)) :=
          reports_reads.first fun _ => .pure
    split
    · exact hrest
    · exact .reported hrest
    · exact .reported hrest
  · refine reports_reads.first fun sig => ?_
    split
    · exact .reportedIf fun _ => .pure
    · refine reports_reads.first fun sig => ?_
      split
      · exact .pure
      · exact .reported .pure

theorem restores_narrowWhere [Std.Refl K] (hN : Growing N) (test : Option NullTest) (isNe : Bool) :
    Restores K N (narrowWhere test isNe) := by
  unfold narrowWhere
  split
  · split
    · exact restores_narrow hN _ _
    · exact .pure
  · exact .pure

theorem restores_checkFree (name : String) (span : Option Span) :
    Restores (List.Forall₂ Grown) N (checkFree name span) := by
  refine (restores_lookup name).bind fun v => ?_
  split
  · split
    · exact (reports_report _ _).restores
    · exact .pure
  · exact (reports_report _ _).restores

theorem restores_checkDeclare (name : String) (mutable : Bool) (stated : Option Ty)
    (value : Option TExpr)
    (span : Option Span) : Restores Declared N (checkDeclare name mutable stated value span) := by
  refine (reports_declaredType name stated value span).first fun ty => ?_
  have hrest (value' : Option TExpr) (state : InitState) :
      Restores Declared N (declare name ty mutable .letBound state span >>= fun _ =>
        Pure.pure (TStmt.declare name mutable ty value' span)) :=
          (restores_declare _ _ _ _ _ _).bind fun _ => .pure
  cases value with
  | none => exact hrest none _
  | some v => exact reports_coerce.map.first fun value' => hrest value' _

theorem restores_checkAssign (target : Expr) (value : TExpr) (span : Option Span) :
    Restores (List.Forall₂ Grown) N (checkAssign target value span) := by
  unfold checkAssign
  split
  split
  · refine (restores_lookup _).bind fun v => ?_
    split
    · refine reports_reads.first fun sig => ?_
      split
      · exact .reported .pure
      · exact .reported .pure
    · split
      · exact (reports_checkBindingWrite _ _ _).first fun _ => reports_coerce.first fun _ =>
          (restores_markInit _).bind fun _ => .pure
      · exact (reports_checkFieldWrite _ _ _ _).first fun _ => reports_coerce.first fun _ => .pure
  · exact .reported .pure

/-- A declaration for each parameter of a lambda. -/
theorem restores_declareEach (params : List TParam) :
    Restores Declared N (forIn params PUnit.unit fun p (_ : PUnit) => do
      declare p.name p.ty p.mutable .param .init p.span
      Pure.pure (ForInStep.yield PUnit.unit)) := by
  induction params with
  | nil => exact .pure
  | cons p rest ih =>
    rw [List.forIn_cons]
    exact (restores_declare _ _ _ _ _ _).bind fun _ => ih

theorem restores_asCondition {x : Check TExpr} (hx : Restores (List.Forall₂ Grown) N x) :
    Restores (List.Forall₂ Grown) N (asCondition x) := hx.bind fun _ => reports_coerce.restores

theorem Restores.narrowingIf [Std.Refl K] [IsTrans _ K] {c : Prop} [Decidable c]
    {x : Unit → Check α} {id : Nat} {ty : Ty} (hN : Growing N) (hx : ∀ a, Restores K N (x a)) :
    Restores K N (if c then narrow id ty >>= x else x ()) := by
  split
  · exact (restores_narrow hN _ _).bind hx
  · exact hx ()

/-! ## Expressions and statements

An expression without lambdas adds nothing to what is known about null, so for it `N` may be
anything. -/

mutual

theorem restores_expr : (e : Expr) → (h : e.LambdaFree ∨ Growing N) →
    Restores (List.Forall₂ Grown) N (checkExpr e)
  | .int _ _, _ | .float _ _, _ | .bool _ _, _ | .string _ _, _ | .null _, _ => .pure
  | .name name span, _ => restores_checkName name span
  | .binary op left right span, h =>
    (restores_expr left (h.imp_left And.left)).bind fun l =>
      (restores_expr right (h.imp_left And.right)).bind fun r =>
        (reports_binaryType op l.ty r.ty span).first fun _ => .pure
  | .unary .not operand _, h => (restores_expr operand h).bind fun _ =>
    reports_coerce.first fun _ => .pure
  | .unary .neg operand span, h =>
    (restores_expr operand h).bind fun e => (reports_negationType e.ty span).first fun _ => .pure
  | .logical _ left right _, h =>
    (restores_asCondition (restores_expr left (h.imp_left And.left))).bind fun _ =>
      (restores_asCondition (restores_expr right (h.imp_left And.right))).bind fun _ => .pure
  | .call callee args span, h => by
    refine (reports_namedCallee? callee).first fun c => ?_
    cases c with
    | some c =>
      obtain ⟨target, name, sig⟩ := c
      refine .reportedIf fun _ => (reports_checkArity _ _ _ _).first fun _ => ?_
      exact (restores_args sig.params args (h.imp_left And.right)).bind fun _ => .pure
    | none =>
      refine (restores_expr callee (h.imp_left And.left)).bind fun c => ?_
      cases c.ty with
      | function params ret =>
        refine (reports_checkArity _ _ _ _).first fun _ => ?_
        exact (restores_args params args (h.imp_left And.right)).bind fun _ => .pure
      | any => exact (restores_boxed args (h.imp_left And.right)).bind fun _ => .pure
      | _ => exact .reported .pure
  | .methodCall object method args span, h => by
    refine (restores_expr object (h.imp_left And.left)).bind fun r => ?_
    cases r.ty with
    | struct struct =>
      refine reports_reads.first fun sig => ?_
      cases sig.bind fun sig => sig.methods.lookup method with
      | none => exact .reported .pure
      | some sig =>
        refine (reports_checkArity _ _ _ _).first fun _ => ?_
        exact (restores_args sig.params args (h.imp_left And.right)).bind fun _ => .pure
    | any => exact (restores_boxed args (h.imp_left And.right)).bind fun _ => .pure
    | _ => exact .reported .pure
  | .field object field span, h =>
    (restores_expr object h).bind fun e => (reports_fieldType e.ty field span).first fun _ => .pure
  | .structInit name fields span, h => by
    refine reports_reads.first fun sig => ?_
    cases sig with
    | none => exact (restores_values fields h).bind fun _ => .reported .pure
    | some sig =>
      refine (restores_inits name sig span _ fields h).bind fun slots => ?_
      exact (reports_fillSlots name span sig.fields slots).first fun _ => .pure
  | .lambda params ret body span, h => by
    have hN : Growing N := h.resolve_left id
    refine (reports_resolveReturn ret span).first fun ret => ?_
    refine (Reports.mapM (fun p => ?_) params).first fun params => ?_
    · exact (reports_resolveType _ _).bind fun _ => .pure _
    refine Restores.entered ?_
    refine (restores_declareEach params).inside fun _ => (restores_stmts hN body).inside fun r => ?_
    dsimp only
    split
    · exact (reports_report _ _).restores.inside fun _ => .exited
    · exact .exited
  | .spawn call span, h => by
    refine (restores_start span call h).bind fun r => ?_
    split
    · exact .pure
    · exact (restores_expr call h).bind fun _ => .reported .pure
  | .await task span, h => by
    refine reports_reads.first fun inAsync => .reportedIf fun _ => ?_
    refine (restores_start span task h).bind fun r => ?_
    have hrest (t : TExpr) : Restores (List.Forall₂ Grown) N (awaitedType t.ty span >>= fun ty =>
        Pure.pure (TExpr.mk (.await t) ty span)) :=
          (reports_awaitedType t.ty span).first fun _ => .pure
    split
    · exact hrest _
    · exact (restores_expr task h).bind fun t => hrest t
  | .cast value type span, h =>
    (restores_expr value h).bind fun v => (reports_resolveType type span).first fun target =>
      (reports_castTo v target span).restores
  | .format parts span, h => (restores_parts span parts h).bind fun _ => .pure

theorem restores_start (span : Option Span) : (e : Expr) → (h : e.LambdaFree ∨ Growing N) →
    Restores (List.Forall₂ Grown) N (checkStart span e)
  | .call callee args _, h => by
    unfold checkStart
    split
    · rename_i name _ _ _ heq
      refine (reports_asyncSig? name).first fun sig => ?_
      cases heq
      split
      · exact (reports_checkArity _ _ _ _).first fun _ =>
          (restores_args _ args (h.imp_left And.right)).bind fun _ => .pure
      · exact .pure
    · exact .pure
  | .int _ _, _ | .float _ _, _ | .bool _ _, _ | .string _ _, _ | .null _, _ | .name _ _, _
  | .binary _ _ _ _, _ | .unary _ _ _, _ | .logical _ _ _ _, _ | .methodCall _ _ _ _, _
  | .field _ _ _, _ | .structInit _ _ _, _ | .lambda _ _ _ _, _ | .spawn _ _, _ | .await _ _, _
  | .cast _ _ _, _ | .format _ _, _ => .pure

theorem restores_args : (params : List Ty) → (args : List Expr) →
    (h : ExprsLambdaFree args ∨ Growing N) → Restores (List.Forall₂ Grown) N (checkArgs params args)
  | _, [], _ => .pure
  | params, arg :: rest, h => by
    refine (restores_expr arg (h.imp_left And.left)).bind fun e => ?_
    have hrest (e' : TExpr) :
        Restores (List.Forall₂ Grown) N (checkArgs params.tail rest >>= fun es =>
        Pure.pure (e' :: es)) :=
          (restores_args params.tail rest (h.imp_left And.right)).bind fun _ => .pure
    cases params.head? with
    | some ty => exact reports_coerce.first fun e' => hrest e'
    | none => exact hrest e

theorem restores_boxed : (args : List Expr) → (h : ExprsLambdaFree args ∨ Growing N) →
    Restores (List.Forall₂ Grown) N (checkBoxed args)
  | [], _ => .pure
  | arg :: rest, h =>
    (restores_expr arg (h.imp_left And.left)).bind fun _ => reports_coerce.first fun _ =>
      (restores_boxed rest (h.imp_left And.right)).bind fun _ => .pure

theorem restores_parts (span : Option Span) : (parts : List Expr) →
    (h : ExprsLambdaFree parts ∨ Growing N) →
    Restores (List.Forall₂ Grown) N (checkParts span parts)
  | [], _ => .pure
  | part :: rest, h =>
    (restores_expr part (h.imp_left And.left)).bind fun _ => .reportedIf fun _ =>
      (restores_parts span rest (h.imp_left And.right)).bind fun _ => .pure

theorem restores_values : (fields : List (String × Expr)) →
    (h : FieldsLambdaFree fields ∨ Growing N) → Restores (List.Forall₂ Grown) N (checkValues fields)
  | [], _ => .pure
  | (_, value) :: rest, h =>
    (restores_expr value (h.imp_left And.left)).bind fun _ =>
      restores_values rest (h.imp_left And.right)

theorem restores_inits (struct : String) (sig : StructSig) (span : Option Span) :
    (slots : List (Option TExpr)) → (fields : List (String × Expr)) →
    (h : FieldsLambdaFree fields ∨ Growing N) →
    Restores (List.Forall₂ Grown) N (checkInits struct sig span slots fields)
  | _, [], _ => .pure
  | slots, (field, value) :: rest, h =>
    (restores_expr value (h.imp_left And.left)).bind fun v =>
      (reports_initSlot struct sig field v _ slots).first fun slots' =>
        restores_inits struct sig span slots' rest (h.imp_left And.right)

theorem restores_stmt (hN : Growing N) : (s : Stmt) → Restores Declared N (checkStmt s)
  | .declare name mutable type none span => by
    have hrest (stated : Option Ty) : Restores Declared N (do
        return (← checkDeclare name mutable stated none span, true)) :=
      (restores_checkDeclare name mutable stated none span).bind fun _ => .pure
    cases type with
    | none => exact hrest none
    | some t => exact (reports_resolveType t span).map.first hrest
  | .declare name mutable type (some value) span => by
    have hrest (stated : Option Ty) : Restores Declared N (do
        let value ← checkExpr value
        return (← checkDeclare name mutable stated (some value) span, true)) :=
      (restores_expr value (.inr hN)).declaring.bind fun v =>
        (restores_checkDeclare name mutable stated (some v) span).bind fun _ => .pure
    cases type with
    | none => exact hrest none
    | some t => exact (reports_resolveType t span).map.first hrest
  | .assign target value span =>
    ((restores_expr value (.inr hN)).bind fun v =>
      (restores_checkAssign target v span).bind fun _ => .pure).declaring
  | .branch condition thenBlock elifs elseBlock span => by
    refine Restores.declaring ?_
    refine (reports_nullTest? condition).first fun test => ?_
    refine (restores_asCondition (restores_expr condition (.inr hN))).bind fun c => ?_
    refine reports_reads.first fun before => .marked fun mark hmark => ?_
    refine (restores_narrowWhere hN test true).bind fun _ => ?_
    refine (restores_stmts hN thenBlock).inBlock.bind fun t => ?_
    refine (restores_setNarrowings hmark).bind fun _ =>
      (reports_pathEnd t.2).first fun thenPaths => ?_
    refine (restores_setInitFacts before).bind fun _ =>
      (restores_narrowWhere hN test false).bind fun _ => ?_
    refine (restores_elifs hN elifs).bind fun m => (restores_else hN elseBlock).bind fun l => ?_
    refine (reports_pathEnd l.2).first fun elsePaths =>
      (restores_setNarrowings hmark).bind fun _ => ?_
    refine (restores_mergePaths _).bind fun _ => ?_
    cases test with
    | none => exact .pure
    | some test => exact .narrowingIf hN fun _ => .pure
  | .loop condition body span => by
    refine Restores.declaring ?_
    refine (restores_asCondition (restores_expr condition (.inr hN))).bind fun c => ?_
    refine reports_reads.first fun before => ?_
    refine (restores_stmts hN body).inBlock.inLoop fun r => ?_
    exact reports_reads.first fun after => (restores_mergePaths _).bind fun _ => .pure
  | .block body _ =>
    ((restores_stmts hN body).inBlock.bind fun _ => .pure).declaring
  | .ret none span =>
    reports_reads.first fun ret => (reports_checkReturned none ret span).first fun _ => .pure
  | .ret (some value) span => reports_reads.first fun ret =>
    (restores_expr value (.inr hN)).declaring.bind fun v =>
    (reports_checkReturned (some v) ret span).first fun _ => .pure
  | .breakLoop span | .continueLoop span => (reports_requireLoop _ span).first fun _ => .pure
  | .free name span => ((restores_checkFree name span).bind fun _ => .pure).declaring
  | .collect _ => .pure
  | .yieldNow span => reports_reads.first fun _ => .reportedIf fun _ => .pure
  | .eval expr _ => ((restores_expr expr (.inr hN)).bind fun _ => .pure).declaring

theorem restores_stmts (hN : Growing N) : (ss : List Stmt) → Restores Declared N (checkStmts ss)
  | [] => .pure
  | s :: rest => (restores_stmt hN s).bind fun _ => (restores_stmts hN rest).bind fun _ => .pure

theorem restores_else (hN : Growing N) : (elseBlock : Option (List Stmt)) →
    Restores (List.Forall₂ Grown) N (checkElse elseBlock)
  | none => .pure
  | some body => (restores_stmts hN body).inBlock.bind fun _ => .pure

theorem restores_elifs (hN : Growing N) : (elifs : List (Expr × List Stmt)) →
    Restores (List.Forall₂ Grown) N (checkElifs elifs)
  | [] => .pure
  | (condition, body) :: rest => by
    refine (reports_nullTest? condition).first fun test => ?_
    refine (restores_asCondition (restores_expr condition (.inr hN))).bind fun c => ?_
    refine reports_reads.first fun before => .marked fun mark hmark => ?_
    refine (restores_narrowWhere hN test true).bind fun _ => ?_
    refine (restores_stmts hN body).inBlock.bind fun b => ?_
    refine (restores_setNarrowings hmark).bind fun _ => (reports_pathEnd b.2).first fun paths => ?_
    exact (restores_setInitFacts before).bind fun _ => (restores_elifs hN rest).bind fun _ => .pure

end

end

/-- Checking an expression, with or without errors, leaves the functions being checked as they were
but for what they capture. What is known about null stays known, and without lambdas no more becomes
known. -/
theorem checkExpr_restores (e : Expr) (env : Env) :
    env.Restored (List.Forall₂ Grown) (checkExpr e env).2 ∧
      env.narrowed <:+ (checkExpr e env).2.narrowed ∧
        (e.LambdaFree → (checkExpr e env).2.narrowed = env.narrowed) := by
  have hgrowing : Growing (env.narrowed <:+ ·) := fun known fact h =>
    h.trans (List.suffix_cons fact known)
  obtain ⟨hr, hn⟩ := restores_expr e (.inr hgrowing) env (List.suffix_refl _)
  refine ⟨hr, hn, fun h => ?_⟩
  exact (restores_expr (N := (· = env.narrowed)) e (.inl h) env rfl).2

/-- A null test in a lambda that leaves when the binding is null: the binding counts as not null
after the lambda. -/
example : (checkExpr (.lambda [] none [.branch (.binary .eq (.name "x" none) (.null none) none)
      [.ret none none] [] none none] none)
    ⟨⟨[], [], []⟩,
      [⟨.void, false, [[("x", ⟨0, .nullable .int, false, .letBound, 0, none⟩)]], 0, []⟩],
      #[], [(0, .init)], [], 1⟩).2.narrowed = [(0, .int)] := by rfl

end Check

end ScopedScript
