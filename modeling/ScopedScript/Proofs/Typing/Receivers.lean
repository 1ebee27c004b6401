import ScopedScript.Proofs.Typing.Looped

/-!
# Receivers

A method that is called on a value of type `any` has its receiver as the first argument. The checker
builds no other trees, whether or not it reports errors.
-/

namespace ScopedScript

mutual

/-- Every call of a method of a value of type `any` has a receiver. -/
def TExpr.Received : TExpr → Prop
  | .mk kind _ _ => kind.Received

def TKind.Received : TKind → Prop
  | .int _ | .float _ | .bool _ | .string _ | .null | .binding _ | .function _ | .native _ => True
  | .binary _ left right => left.Received ∧ right.Received
  | .unary _ operand => operand.Received
  | .logical _ left right => left.Received ∧ right.Received
  | .call _ args => ExprsReceived args
  | .callValue callee args => callee.Received ∧ ExprsReceived args
  | .callDynamic callee args => callee.Received ∧ ExprsReceived args
  | .callMethodDynamic _ args => args ≠ [] ∧ ExprsReceived args
  | .field object _ _ => object.Received
  | .structInit _ values => ExprsReceived values
  | .lambda _ _ body _ => StmtsReceived body
  | .spawn _ args => ExprsReceived args
  | .await task => task.Received
  | .box inner => inner.Received
  | .unbox inner => inner.Received
  | .cast inner => inner.Received
  | .format parts => ExprsReceived parts

def ExprsReceived : List TExpr → Prop
  | [] => True
  | e :: rest => e.Received ∧ ExprsReceived rest

def TStmt.Received : TStmt → Prop
  | .declare _ _ _ none _ => True
  | .declare _ _ _ (some value) _ => value.Received
  | .assign _ value _ => value.Received
  | .branch condition thenBlock elifs elseBlock _ =>
    condition.Received ∧ StmtsReceived thenBlock ∧ ElifsReceived elifs ∧ ElseReceived elseBlock
  | .loop condition body _ => condition.Received ∧ StmtsReceived body
  | .block body _ => StmtsReceived body
  | .ret none _ => True
  | .ret (some value) _ => value.Received
  | .eval value _ => value.Received
  | .breakLoop _ | .continueLoop _ | .free _ _ | .collect _ | .yieldNow _ => True

def StmtsReceived : List TStmt → Prop
  | [] => True
  | s :: rest => s.Received ∧ StmtsReceived rest

def ElifsReceived : List (TExpr × List TStmt) → Prop
  | [] => True
  | (condition, body) :: rest => condition.Received ∧ StmtsReceived body ∧ ElifsReceived rest

def ElseReceived : Option (List TStmt) → Prop
  | none => True
  | some body => StmtsReceived body

end

/-! The bodies of the lambdas of a tree. -/

/-- The bodies call methods with receivers only. -/
def AllBodiesReceived (bodies : List Body) : Prop := ∀ b ∈ bodies, StmtsReceived b.stmts

theorem allBodiesReceived_append {as bs : List Body} (ha : AllBodiesReceived as)
    (hb : AllBodiesReceived bs) : AllBodiesReceived (as ++ bs) :=
  List.forall_mem_append.2 ⟨ha, hb⟩

mutual

theorem TExpr.Received.bodies : {e : TExpr} → e.Received → AllBodiesReceived (exprBodies e)
  | .mk kind _ _, h => TKind.Received.bodies (k := kind) h

theorem TKind.Received.bodies {span : Option Span} : {k : TKind} → k.Received →
    AllBodiesReceived (kindBodies span k)
  | .int _, _ | .float _, _ | .bool _, _ | .string _, _ | .null, _ | .binding _, _
  | .function _, _ | .native _, _ => nofun
  | .binary _ _ _, h | .logical _ _ _, h => allBodiesReceived_append h.1.bodies h.2.bodies
  | .unary _ _, h | .field _ _ _, h | .await _, h | .box _, h | .unbox _, h | .cast _, h =>
    TExpr.Received.bodies h
  | .call _ _, h | .structInit _ _, h | .spawn _ _, h | .format _, h => exprs_received_bodies h
  | .callValue _ _, h | .callDynamic _ _, h =>
    allBodiesReceived_append h.1.bodies (exprs_received_bodies h.2)
  | .callMethodDynamic _ _, h => exprs_received_bodies h.2
  | .lambda _ _ _ _, h => allBodiesReceived_append (stmts_received_bodies h) fun _ hb => by
    rw [List.mem_singleton.1 hb]
    exact h

theorem exprs_received_bodies : {es : List TExpr} → ExprsReceived es →
    AllBodiesReceived (exprsBodies es)
  | [], _ => nofun
  | _ :: _, h => allBodiesReceived_append h.1.bodies (exprs_received_bodies h.2)

theorem TStmt.Received.bodies : {s : TStmt} → s.Received → AllBodiesReceived (stmtBodies s)
  | .declare _ _ _ none _, _ | .ret none _, _ | .breakLoop _, _ | .continueLoop _, _ | .free _ _, _
  | .collect _, _ | .yieldNow _, _ => nofun
  | .declare _ _ _ (some _) _, h | .assign _ _ _, h | .ret (some _) _, h | .eval _ _, h =>
    TExpr.Received.bodies h
  | .branch _ _ _ _ _, ⟨hc, ht, hm, hl⟩ => allBodiesReceived_append (allBodiesReceived_append
      (allBodiesReceived_append hc.bodies (stmts_received_bodies ht)) (elifs_received_bodies hm))
      (else_received_bodies hl)
  | .loop _ _ _, h => allBodiesReceived_append h.1.bodies (stmts_received_bodies h.2)
  | .block _ _, h => stmts_received_bodies h

theorem stmts_received_bodies : {ss : List TStmt} → StmtsReceived ss →
    AllBodiesReceived (stmtsBodies ss)
  | [], _ => nofun
  | _ :: _, h => allBodiesReceived_append h.1.bodies (stmts_received_bodies h.2)

theorem elifs_received_bodies : {elifs : List (TExpr × List TStmt)} → ElifsReceived elifs →
    AllBodiesReceived (elifsBodies elifs)
  | [], _ => nofun
  | (_, _) :: _, ⟨hc, hb, hr⟩ => allBodiesReceived_append
      (allBodiesReceived_append hc.bodies (stmts_received_bodies hb)) (elifs_received_bodies hr)

theorem else_received_bodies : {elseBlock : Option (List TStmt)} → ElseReceived elseBlock →
    AllBodiesReceived (elseBodies elseBlock)
  | none, _ => nofun
  | some _, h => stmts_received_bodies h

end

namespace Check

/-- The value of a computation, whatever it starts from and whatever it reports. -/
def Gives (x : Check α) (Q : α → Prop) : Prop := ∀ env, Q (x env).1

variable {Q : α → Prop} {R : β → Prop}

theorem Gives.pure {a : α} (h : Q a) : Gives (Pure.pure a) Q := fun _ => h

theorem Gives.bind {x : Check α} {y : α → Check β} (hx : Gives x Q)
    (hy : ∀ a, Q a → Gives (y a) R) : Gives (x >>= y) R := fun env => hy _ (hx env) (x env).2

/-- A computation whose value does not matter. -/
theorem Gives.after {x : Check α} {y : α → Check β} (hy : ∀ a, Gives (y a) R) :
    Gives (x >>= y) R := fun env => hy _ (x env).2

theorem Gives.map {x : Check α} {g : α → β} (hx : Gives x Q) (h : ∀ a, Q a → R (g a)) :
    Gives (g <$> x) R := fun env => h _ (hx env)

theorem Gives.afterIf {c : Prop} [Decidable c] {x : Check Unit} {y : Unit → Check α}
    (hy : ∀ a, Gives (y a) Q) : Gives (if c then x >>= y else y ()) Q := by
  split
  · exact .after hy
  · exact hy ()

theorem Gives.mapM {x : α → Check β} (hx : ∀ a, Gives (x a) R) :
    (as : List α) → Gives (as.mapM x) fun bs => ∀ b ∈ bs, R b
  | [] => .pure nofun
  | a :: rest => by
    rw [List.mapM_cons]
    exact (hx a).bind fun b hb => (Gives.mapM hx rest).bind fun bs hbs =>
      .pure (List.forall_mem_cons.2 ⟨hb, hbs⟩)

/-- Each of the computations gives one of the values. -/
theorem Gives.mapM_mem {x : α → Check β} {R : α → β → Prop} (hx : ∀ a, Gives (x a) (R a)) :
    (as : List α) → Gives (as.mapM x) fun bs => ∀ a ∈ as, ∃ b ∈ bs, R a b
  | [] => .pure nofun
  | a :: rest => by
    rw [List.mapM_cons]
    refine (hx a).bind fun b hb => (Gives.mapM_mem hx rest).bind fun bs hbs => .pure ?_
    refine List.forall_mem_cons.2 ⟨⟨b, List.mem_cons_self, hb⟩, fun a ha => ?_⟩
    obtain ⟨c, hc, hR⟩ := hbs a ha
    exact ⟨c, List.mem_cons_of_mem _ hc, hR⟩

/-! The steps of the checker, apart from the trees that they go through. -/

theorem gives_coerce {e : TExpr} {target : Ty} (h : e.Received) :
    Gives (coerce e target) TExpr.Received := by
  unfold coerce
  split
  · exact .pure h
  · split
    · exact .after fun _ => .pure h
    · exact .pure h
    · exact .pure h
    · split
      · exact .after fun _ => .pure h
      · exact .pure h

theorem Gives.asCondition {x : Check TExpr} (hx : Gives x TExpr.Received) :
    Gives (asCondition x) TExpr.Received := hx.bind fun _ h => gives_coerce h

theorem Gives.inBlock {x : Check α} (hx : Gives x Q) : Gives (inBlock x) Q :=
  .after fun _ => .after fun _ => hx.bind fun _ h => .after fun _ => .after fun _ => .pure h

theorem gives_checkName (name : String) (span : Option Span) :
    Gives (checkName name span) TExpr.Received := by
  refine .after fun v => ?_
  cases v with
  | some v =>
    refine .after fun state => ?_
    cases state with
    | init => exact .after fun _ => .pure trivial
    | _ => exact .after fun _ => .after fun _ => .pure trivial
  | none =>
    refine .after fun sig => ?_
    cases sig with
    | some sig => exact .afterIf fun _ => .pure trivial
    | none =>
      refine .after fun sig => ?_
      cases sig with
      | some sig => exact .pure trivial
      | none => exact .after fun _ => .pure trivial

theorem gives_castTo {value : TExpr} (target : Ty) (span : Option Span) (h : value.Received) :
    Gives (castTo value target span) TExpr.Received := by
  unfold castTo
  split
  · exact .after fun _ => .pure trivial
  · split
    · exact .after fun _ => .pure h
    · exact .afterIf fun _ => .pure h

/-- The values that fill the slots of an initializer so far. -/
abbrev SlotsReceived (slots : List (Option TExpr)) : Prop := ∀ e, some e ∈ slots → e.Received

theorem gives_initSlot (struct : String) (sig : StructSig) (field : String) {value : TExpr}
    (span : Option Span) {slots : List (Option TExpr)} (hv : value.Received)
    (hs : SlotsReceived slots) :
    Gives (initSlot struct sig field value span slots) SlotsReceived := by
  unfold initSlot
  split
  · split
    · exact .after fun _ => .pure hs
    · refine (gives_coerce hv).bind fun v hv => .pure fun e he => ?_
      rcases List.mem_or_eq_of_mem_set he with he | he
      · exact hs e he
      · cases he
        exact hv
  · exact .after fun _ => .pure hs

theorem gives_fillSlots (struct : String) (span : Option Span) : (fields : List (String × Ty)) →
    (slots : List (Option TExpr)) → SlotsReceived slots →
    Gives (fillSlots struct span fields slots) ExprsReceived
  | (_, _) :: fields, some value :: slots, hs =>
    (gives_fillSlots struct span fields slots fun e he => hs e (List.mem_cons_of_mem _ he)).bind
      fun _ h => .pure ⟨hs value List.mem_cons_self, h⟩
  | (_, _) :: fields, none :: slots, hs =>
    .after fun _ => (gives_fillSlots struct span fields slots fun e he =>
      hs e (List.mem_cons_of_mem _ he)).bind fun _ h => .pure ⟨trivial, h⟩
  | [], _, _ => .pure trivial
  | _ :: _, [], _ => .pure trivial

/-- A value that may be missing. -/
def ValueReceived : Option TExpr → Prop
  | none => True
  | some e => e.Received

theorem gives_checkDeclare (name : String) (mutable : Bool) (stated : Option Ty)
    {v : Option TExpr} (span : Option Span) (hv : ValueReceived v) :
    Gives (checkDeclare name mutable stated v span) TStmt.Received := by
  refine .after fun ty => ?_
  have hplace (value' : Option TExpr) (state : InitState) (h : ValueReceived value') :
      Gives (declare name ty mutable .letBound state span >>= fun _ =>
        Pure.pure (.declare name mutable ty value' span)) TStmt.Received := by
    refine .after fun _ => .pure ?_
    cases value' with
    | none => trivial
    | some v => exact h
  cases v with
  | none => exact hplace none _ trivial
  | some v =>
    have hv : Gives (some <$> coerce v ty) ValueReceived := (gives_coerce hv).map fun _ h => h
    exact hv.bind fun v' hv' => hplace v' _ hv'

theorem gives_checkAssign (target : Expr) {value : TExpr} (span : Option Span)
    (h : value.Received) : Gives (checkAssign target value span) TStmt.Received := by
  unfold checkAssign
  split
  split
  · refine .after fun v => ?_
    cases v with
    | none =>
      refine .after fun sig => ?_
      split
      · exact .after fun _ => .pure h
      · exact .after fun _ => .pure h
    | some v =>
      dsimp only
      split
      · exact .after fun _ => (gives_coerce h).bind fun _ h => .after fun _ => .pure h
      · exact .after fun _ => (gives_coerce h).bind fun _ h => .pure h
  · exact .after fun _ => .pure h

theorem gives_checkReturned {v : Option TExpr} (ret : Ty) (span : Option Span)
    (h : ValueReceived v) : Gives (checkReturned v ret span) ValueReceived := by
  unfold checkReturned
  split
  · split
    · exact .after fun _ => .pure h
    · exact (gives_coerce h).map fun _ h => h
  · exact .afterIf fun _ => .pure trivial

theorem gives_returned {v : Option TExpr} (ret : Ty) (span : Option Span)
    (h : ValueReceived v) :
    Gives (do return (TStmt.ret (← checkReturned v ret span) span, false)) fun r =>
      r.1.Received := by
  refine (gives_checkReturned ret span h).bind fun v hv => .pure ?_
  cases v with
  | none => trivial
  | some v => exact hv

mutual

theorem received_expr : (e : Expr) → Gives (checkExpr e) TExpr.Received
  | .int _ _ | .float _ _ | .bool _ _ | .string _ _ | .null _ => .pure trivial
  | .name name span => gives_checkName name span
  | .binary _ left right _ =>
    (received_expr left).bind fun _ hl => (received_expr right).bind fun _ hr =>
      .after fun _ => .pure ⟨hl, hr⟩
  | .unary .not operand _ => (received_expr operand).asCondition.bind fun _ h => .pure h
  | .unary .neg operand _ => (received_expr operand).bind fun _ h => .after fun _ => .pure h
  | .logical _ left right _ =>
    (received_expr left).asCondition.bind fun _ hl =>
      (received_expr right).asCondition.bind fun _ hr => .pure ⟨hl, hr⟩
  | .call callee args _ => by
    refine .after fun c => ?_
    cases c with
    | some c =>
      obtain ⟨target, name, sig⟩ := c
      exact .afterIf fun _ => .after fun _ =>
        (received_args sig.params args).bind fun _ h => .pure h
    | none =>
      refine (received_expr callee).bind fun c hc => ?_
      cases c.ty with
      | function params ret =>
        exact .after fun _ => (received_args params args).bind fun _ h => .pure ⟨hc, h⟩
      | any => exact (received_boxed args).bind fun _ h => .pure ⟨hc, h⟩
      | _ => exact .after fun _ => .pure trivial
  | .methodCall object method args _ => by
    refine (received_expr object).bind fun r hr => ?_
    cases r.ty with
    | struct struct =>
      refine .after fun sig => ?_
      cases sig.bind fun sig => sig.methods.lookup method with
      | none => exact .after fun _ => .pure trivial
      | some sig =>
        exact .after fun _ => (received_args sig.params args).bind fun _ h => .pure ⟨hr, h⟩
    | any =>
      -- the receiver is the first argument
      exact (received_boxed args).bind fun _ h => .pure ⟨List.cons_ne_nil _ _, hr, h⟩
    | _ => exact .after fun _ => .pure trivial
  | .field object _ _ => (received_expr object).bind fun _ h => .after fun _ => .pure h
  | .structInit name fields span => by
    refine .after fun sig => ?_
    cases sig with
    | none => exact .after fun _ => .after fun _ => .pure trivial
    | some sig =>
      refine (received_inits name sig span fields fun e he => ?_).bind fun slots hs =>
        (gives_fillSlots name span sig.fields slots hs).bind fun _ h => .pure h
      cases List.eq_of_mem_replicate he
  | .lambda _ _ body _ =>
    .after fun _ => .after fun _ => .after fun _ => .after fun _ =>
      (received_stmts body).bind fun _ h => .afterIf fun _ => .after fun _ => .pure h
  | .spawn call span => by
    refine (received_start span call).bind fun s hs => ?_
    cases s with
    | some s => exact .pure (hs s rfl)
    | none => exact .after fun _ => .after fun _ => .pure trivial
  | .await task span => by
    refine .after fun _ => .afterIf fun _ => (received_start span task).bind fun s hs => ?_
    have hawait (t : TExpr) (h : t.Received) : Gives (awaitedType t.ty span >>= fun ty =>
        Pure.pure (TExpr.mk (.await t) ty span)) TExpr.Received := .after fun _ => .pure h
    cases s with
    | some s => exact hawait _ (hs s rfl)
    | none => exact (received_expr task).bind hawait
  | .cast value _ span =>
    (received_expr value).bind fun _ h => .after fun target => gives_castTo target span h
  | .format parts span => (received_parts span parts).bind fun _ h => .pure h

theorem received_start (span : Option Span) : (e : Expr) → Gives (checkStart span e) fun s =>
    ∀ r, s = some r → ExprsReceived r.2.1
  | .call (.name _ _) args _ => by
    refine .after fun sig => ?_
    cases sig with
    | some sig =>
      refine .after fun _ => (received_args sig.params args).bind fun es h => .pure fun r hr => ?_
      cases hr
      exact h
    | none => exact .pure fun r hr => nomatch hr
  | .int _ _ | .float _ _ | .bool _ _ | .string _ _ | .null _ | .name _ _ | .binary _ _ _ _
  | .unary _ _ _ | .logical _ _ _ _ | .methodCall _ _ _ _ | .field _ _ _ | .structInit _ _ _
  | .lambda _ _ _ _ | .spawn _ _ | .await _ _ | .cast _ _ _ | .format _ _
  | .call (.int _ _) _ _ | .call (.float _ _) _ _ | .call (.bool _ _) _ _ | .call (.string _ _) _ _
  | .call (.null _) _ _ | .call (.binary _ _ _ _) _ _ | .call (.unary _ _ _) _ _
  | .call (.logical _ _ _ _) _ _ | .call (.call _ _ _) _ _ | .call (.methodCall _ _ _ _) _ _
  | .call (.field _ _ _) _ _ | .call (.structInit _ _ _) _ _ | .call (.lambda _ _ _ _) _ _
  | .call (.spawn _ _) _ _ | .call (.await _ _) _ _ | .call (.cast _ _ _) _ _
  | .call (.format _ _) _ _ => .pure fun _ h => nomatch h

theorem received_args : (params : List Ty) → (args : List Expr) →
    Gives (checkArgs params args) ExprsReceived
  | _, [] => .pure trivial
  | params, arg :: rest => by
    refine (received_expr arg).bind fun e he => ?_
    cases params.head? with
    | some ty =>
      exact (gives_coerce he).bind fun _ h => (received_args params.tail rest).bind fun _ hr =>
        .pure ⟨h, hr⟩
    | none => exact (received_args params.tail rest).bind fun _ hr => .pure ⟨he, hr⟩

theorem received_boxed : (args : List Expr) → Gives (checkBoxed args) ExprsReceived
  | [] => .pure trivial
  | arg :: rest =>
    (received_expr arg).bind fun _ he => (gives_coerce he).bind fun _ h =>
      (received_boxed rest).bind fun _ hr => .pure ⟨h, hr⟩

theorem received_parts (span : Option Span) : (parts : List Expr) →
    Gives (checkParts span parts) ExprsReceived
  | [] => .pure trivial
  | part :: rest =>
    (received_expr part).bind fun _ h => .afterIf fun _ =>
      (received_parts span rest).bind fun _ hr =>
      .pure ⟨h, hr⟩

theorem received_inits (struct : String) (sig : StructSig) (span : Option Span) :
    {slots : List (Option TExpr)} → (fields : List (String × Expr)) → SlotsReceived slots →
    Gives (checkInits struct sig span slots fields) SlotsReceived
  | _, [], hs => .pure hs
  | _, (field, value) :: rest, hs =>
    (received_expr value).bind fun _ hv => (gives_initSlot struct sig field _ hv hs).bind
      fun _ h => received_inits struct sig span rest h

theorem received_stmt : (s : Stmt) → Gives (checkStmt s) fun r => r.1.Received
  | .declare name mutable none none span =>
    (gives_checkDeclare (v := none) name mutable none span trivial).bind fun _ h => .pure h
  | .declare name mutable (some _) none span => .after fun stated =>
    (gives_checkDeclare (v := none) name mutable stated span trivial).bind fun _ h => .pure h
  | .declare name mutable none (some value) span =>
    (received_expr value).bind fun _ hv =>
      (gives_checkDeclare (v := some _) name mutable none span hv).bind fun _ h => .pure h
  | .declare name mutable (some _) (some value) span => .after fun stated =>
    (received_expr value).bind fun _ hv =>
      (gives_checkDeclare (v := some _) name mutable stated span hv).bind fun _ h => .pure h
  | .assign target value span =>
    (received_expr value).bind fun _ hv =>
      (gives_checkAssign target span hv).bind fun _ h => .pure h
  | .branch condition thenBlock elifs elseBlock span => by
    refine .after fun test => (received_expr condition).asCondition.bind fun c hc => ?_
    refine .after fun _ => .after fun _ => .after fun _ => ?_
    refine (received_stmts thenBlock).inBlock.bind fun t ht => ?_
    refine .after fun _ => .after fun _ => .after fun _ => .after fun _ => ?_
    refine (received_elifs elifs).bind fun m hm => (received_else elseBlock).bind fun l hl => ?_
    refine .after fun _ => .after fun _ => .after fun _ => ?_
    cases test with
    | none => exact .pure ⟨hc, ht, hm, hl⟩
    | some test => exact .afterIf fun _ => .pure ⟨hc, ht, hm, hl⟩
  | .loop condition body _ =>
    (received_expr condition).asCondition.bind fun _ hc => .after fun _ => .after fun _ =>
      (received_stmts body).inBlock.bind fun _ hb => .after fun _ => .after fun _ => .after fun _ =>
        .pure ⟨hc, hb⟩
  | .block body _ => (received_stmts body).inBlock.bind fun _ h => .pure h
  | .ret none span => .after fun ret => gives_returned (v := none) ret span trivial
  | .ret (some value) span => .after fun ret =>
    (received_expr value).bind fun _ hv => gives_returned (v := some _) ret span hv
  | .breakLoop _ | .continueLoop _ | .free _ _ => .after fun _ => .pure trivial
  | .collect _ => .pure trivial
  | .yieldNow _ => .after fun _ => .afterIf fun _ => .pure trivial
  | .eval expr _ => (received_expr expr).bind fun _ h => .pure h

theorem received_stmts : (ss : List Stmt) → Gives (checkStmts ss) fun r => StmtsReceived r.1
  | [] => .pure trivial
  | s :: rest =>
    (received_stmt s).bind fun _ h => (received_stmts rest).bind fun _ hr => .pure ⟨h, hr⟩

theorem received_else : (elseBlock : Option (List Stmt)) →
    Gives (checkElse elseBlock) fun r => ElseReceived r.1
  | none => .pure trivial
  | some body => (received_stmts body).inBlock.bind fun _ h => .pure h

theorem received_elifs : (elifs : List (Expr × List Stmt)) →
    Gives (checkElifs elifs) fun r => ElifsReceived r.1
  | [] => .pure trivial
  | (_, body) :: rest => .after fun _ => by
    refine (received_expr _).asCondition.bind fun c hc => ?_
    refine .after fun _ => .after fun _ => .after fun _ => ?_
    refine (received_stmts body).inBlock.bind fun b hb => .after fun _ => .after fun _ => ?_
    exact .after fun _ => (received_elifs rest).bind fun _ hr => .pure ⟨hc, hb, hr⟩

end

theorem received_function (struct : Option String) (d : FunctionDecl) :
    Gives (checkFunction struct d) fun f => StmtsReceived f.body :=
  .after fun _ => .after fun _ => .after fun _ => .after fun _ =>
    (received_stmts d.body).bind fun _ h => .afterIf fun _ => .after fun _ => .pure h

theorem received_item (item : Item) :
    Gives (checkItem item) fun fs => ∀ f ∈ fs, StmtsReceived f.body := by
  cases item with
  | function d =>
    refine (received_function none d).bind fun f h => .pure fun g hg => ?_
    rw [List.mem_singleton.1 hg]
    exact h
  | struct d => exact .mapM (received_function _) _

/-! The receiver of a method is its first parameter. -/

theorem gives_declareParams (span : Option Span) (ps : List (Param × Ty)) (before : List TParam) :
    Gives (declareParams span before ps) fun all => before <+: all := by
  induction ps generalizing before with
  | nil => exact .pure (List.prefix_refl _)
  | cons p rest ih =>
    refine .afterIf fun _ => .after fun _ => fun env => ?_
    exact (List.prefix_append _ _).trans (ih _ env)

theorem gives_checkFunction (struct : String) (d : FunctionDecl) :
    Gives (checkFunction (some struct) d) fun f =>
    f.name = methodSymbol struct d.name ∧
      f.params.head? = some ⟨"self", .struct struct, false, d.span⟩ := by
  have hself : Gives (declareSelf d (some struct)) fun ps =>
      ps = [⟨"self", .struct struct, false, d.span⟩] :=
    .after fun _ => .pure rfl
  refine .after fun _ => .after fun _ => hself.bind fun receiver hr => ?_
  refine (gives_declareParams d.span _ receiver).bind fun params hp => .after fun _ =>
    .afterIf fun _ =>
    .after fun _ => .pure ⟨rfl, ?_⟩
  subst hr
  obtain ⟨rest, rfl⟩ := hp
  rfl

end Check

/-- In a program that has been checked every body calls methods with receivers only. -/
theorem Program.check_received {p : Program} {natives : List (String × Signature)} {t : TProgram}
    (h : p.check natives = .ok t) : AllBodiesReceived t.bodies := by
  have hitems : Check.Gives (Check.checkItems p) fun t =>
      ∀ f ∈ t.functions, StmtsReceived f.body := by
    refine .after fun _ => .after fun _ => ?_
    refine (Check.Gives.mapM Check.received_item p.items).bind fun fs hfs => .pure fun f hf => ?_
    obtain ⟨gs, hgs, hf⟩ := List.mem_flatten.1 hf
    exact hfs gs hgs f hf
  have hr : (if (Check.checkItems p (.ofNatives natives)).2.errors.isEmpty then
      Except.ok (Check.checkItems p (.ofNatives natives)).1
    else .error (Check.checkItems p (.ofNatives natives)).2.errors) = .ok t := h
  split at hr
  · cases hr
    intro b hb
    obtain ⟨f, hf, hb⟩ := List.mem_flatMap.1 hb
    have hbody := hitems (.ofNatives natives) f hf
    rcases List.mem_cons.1 hb with rfl | hb
    · exact hbody
    · exact stmts_received_bodies hbody b hb
  · cases hr

/-- Every method is checked as a function whose first parameter is the receiver. -/
theorem Program.check_methods {p : Program} {natives : List (String × Signature)} {t : TProgram}
    (h : p.check natives = .ok t) : ∀ s ∈ p.structs, ∀ m ∈ s.methods, ∃ f ∈ t.functions,
      f.name = methodSymbol s.name m.name ∧
        f.params.head? = some ⟨"self", .struct s.name, false, m.span⟩ := by
  have hitem (item : Item) : Check.Gives (Check.checkItem item) fun fs =>
      ∀ s, item = .struct s → ∀ m ∈ s.methods, ∃ f ∈ fs, f.name = methodSymbol s.name m.name ∧
        f.params.head? = some ⟨"self", .struct s.name, false, m.span⟩ := by
    cases item with
    | function d => exact .after fun _ => .pure nofun
    | struct d =>
      refine fun env s hs => ?_
      cases hs
      exact Check.Gives.mapM_mem (Check.gives_checkFunction d.name) d.methods env
  have hitems : Check.Gives (Check.checkItems p) fun t => ∀ s ∈ p.structs, ∀ m ∈ s.methods,
      ∃ f ∈ t.functions, f.name = methodSymbol s.name m.name ∧
        f.params.head? = some ⟨"self", .struct s.name, false, m.span⟩ := by
    refine .after fun _ => .after fun _ => ?_
    refine (Check.Gives.mapM_mem hitem p.items).bind fun fs hfs => .pure fun s hs m hm => ?_
    obtain ⟨item, hitem, hstruct⟩ := List.mem_filterMap.1 hs
    obtain ⟨gs, hgs, hmethods⟩ := hfs item hitem
    cases item with
    | function d => cases hstruct
    | struct d =>
      cases hstruct
      obtain ⟨f, hf, hspec⟩ := hmethods s rfl m hm
      exact ⟨f, List.mem_flatten.2 ⟨gs, hgs, hf⟩, hspec⟩
  rw [← (Program.check_ok h).1]
  exact hitems (.ofNatives natives)

end ScopedScript
