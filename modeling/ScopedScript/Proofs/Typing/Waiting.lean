import ScopedScript.Proofs.Typing.Waits

/-!
# Checked programs wait in async bodies only

The checker refuses `await` and `yield` elsewhere, and it refuses async functions as values and as
targets of calls. Methods are never async.
-/

namespace ScopedScript

namespace Check

mutual

theorem waits_expr : (e : Expr) →
    Abides (checkExpr e) fun g isAsync e' => e'.Waits g.Sync isAsync
  | .int _ _ | .float _ _ | .bool _ _ | .string _ _ | .null _ => .pure fun _ _ => trivial
  | .name name span => abides_checkName name span
  | .binary op left right span =>
    (waits_expr left).bind fun l => (waits_expr right).bind fun r =>
      Holds.quietly (reports_binaryType op l.ty r.ty span).quiet fun _ =>
        .pure fun _ _ hr hl => ⟨hl, hr⟩
  | .unary .not operand _ =>
    (abides_asCondition (waits_expr operand)).bind fun _ => .pure fun _ _ h => h
  | .unary .neg operand span =>
    (waits_expr operand).bind fun e => Holds.quietly (reports_negationType e.ty span).quiet fun _ =>
      .pure fun _ _ h => h
  | .logical _ left right _ =>
    (abides_asCondition (waits_expr left)).bind fun _ =>
      (abides_asCondition (waits_expr right)).bind fun _ => .pure fun _ _ hr hl => ⟨hl, hr⟩
  | .call callee args span => by
    refine (quiet_knownCallee? callee).abides.bind fun c => ?_
    cases c with
    | some c =>
      obtain ⟨target, name, sig⟩ := c
      refine .reportedIf fun _ => Holds.quietly (reports_checkArity _ _ _ _).quiet fun _ => ?_
      refine (waits_args sig.params args).bind fun _ => .pure fun g _ ha hs hc => ?_
      exact ⟨hc target name sig rfl (by simpa using hs), ha⟩
    | none =>
      refine Holds.weaken (Q := fun g isAsync e' => e'.Waits g.Sync isAsync) ?_ fun _ _ _ h _ => h
      refine (waits_expr callee).bind fun c => ?_
      have hreport {cause : TypeCause} : Abides (report cause span >>= fun _ =>
          Pure.pure (TExpr.poison span)) fun g isAsync e' =>
            c.Waits g.Sync isAsync → e'.Waits g.Sync isAsync :=
        .reported (Q := fun _ _ _ => True) (.pure fun _ _ => trivial)
      cases c.ty with
      | function params ret =>
        exact Holds.quietly (reports_checkArity _ _ _ _).quiet fun _ =>
          (waits_args params args).bind fun _ => .pure fun _ _ ha hc => ⟨hc, ha⟩
      | any => exact (waits_boxed args).bind fun _ => .pure fun _ _ ha hc => ⟨hc, ha⟩
      | _ => exact hreport
  | .methodCall object method args span => by
    refine (waits_expr object).bind fun r => ?_
    have hreport {cause : TypeCause} : Abides (report cause span >>= fun _ =>
        Pure.pure (TExpr.poison span)) fun g isAsync e' =>
          r.Waits g.Sync isAsync → e'.Waits g.Sync isAsync :=
      .reported (Q := fun _ _ _ => True) (.pure fun _ _ => trivial)
    cases r.ty with
    | struct struct =>
      refine (quiet_structSig? struct).abides.bind fun sig => ?_
      cases hm : sig.bind fun sig => sig.methods.lookup method with
      | none => exact hreport.weaken fun _ _ _ h _ => h
      | some s =>
        -- the struct is known, and so is its method
        obtain ⟨info, hinfo, hs⟩ := Option.bind_eq_some_iff.1 hm
        refine Holds.quietly (reports_checkArity _ _ _ _).quiet fun _ => ?_
        refine (waits_args s.params args).bind fun _ => .pure fun g _ ha hsig hr => ?_
        exact ⟨⟨info, hsig.symm.trans hinfo, by rw [hs]; rfl⟩, hr, ha⟩
    | any => exact (waits_boxed args).bind fun _ => .pure fun _ _ ha hr => ⟨hr, ha⟩
    | _ => exact hreport
  | .field object field span =>
    (waits_expr object).bind fun e =>
      Holds.quietly (reports_fieldType e.ty field span).quiet fun _ =>
      .pure fun _ _ h => h
  | .structInit name fields span => by
    refine Holds.quietly (quiet_structSig? name) fun sig => ?_
    cases sig with
    | none =>
      exact (waits_values fields).after fun _ =>
        .reported (Q := fun _ _ _ => True) (.pure fun _ _ => trivial)
    | some sig =>
      refine (waits_inits name sig span _ fields).bind fun slots => ?_
      refine (abides_fillSlots name span sig.fields slots).bind fun _ => .pure fun _ _ hv hs => ?_
      exact hv (hs fun e he => nomatch List.eq_of_mem_replicate he)
  | .lambda params ret body span => by
    refine Holds.quietly (reports_resolveReturn ret span).quiet fun ret => ?_
    refine Holds.quietly (quiet_mapM (fun p => ?_) params) fun params => ?_
    · exact (reports_resolveType _ _).quiet.after fun _ => .pure fun _ => trivial
    -- a lambda is not async, whatever it stands in
    refine Holds.weaken (Holds.entered (P := fun g e' => ∀ mode, e'.Waits g.Sync mode) ?_)
      fun _ mode _ h => h mode
    refine (abides_declareEach params).after fun _ => (waits_stmts body).bind fun r => ?_
    refine .reportedIf fun _ => .exited fun g mode captures _ hbody hmode _ => ?_
    subst hmode
    exact hbody
  | .spawn call span => by
    refine (waits_start span call).bind fun s => ?_
    cases s with
    | some s => exact .pure fun _ _ h => h s rfl
    | none =>
      exact (waits_expr call).after fun _ =>
        .reported (Q := fun _ _ _ => True) (.pure fun _ _ => trivial)
  | .await task span => by
    refine abides_inAsync.bind fun mode => .reportedIf fun _ => ?_
    refine (waits_start span task).bind fun s => ?_
    have hrest (t : TExpr) : Abides (awaitedType t.ty span >>= fun ty =>
        Pure.pure (TExpr.mk (.await t) ty span)) fun g isAsync e' =>
          isAsync = true → t.Waits g.Sync isAsync → e'.Waits g.Sync isAsync :=
      Holds.quietly (reports_awaitedType t.ty span).quiet fun _ => .pure fun _ _ hm h => ⟨hm, h⟩
    cases s with
    | some s =>
      exact (hrest _).weaken fun _ _ _ h hs hm hmode => h (by simpa [← hmode] using hm) (hs s rfl)
    | none =>
      exact (waits_expr task).bind fun t => (hrest t).weaken fun _ _ _ h ht _ hm hmode =>
        h (by simpa [← hmode] using hm) ht
  | .cast value type span =>
    (waits_expr value).bind fun v =>
      Holds.quietly (reports_resolveType type span).quiet fun target =>
      (quiet_castTo v target span).abides.weaken fun _ _ _ ⟨_, he⟩ hv => he ▸ hv
  | .format parts span => (waits_parts span parts).bind fun _ => .pure fun _ _ h => h

theorem waits_start (span : Option Span) : (e : Expr) →
    Abides (checkStart span e) fun g isAsync s => ∀ r, s = some r → ExprsWait g.Sync isAsync r.2.1
  | .call (.name name _) args _ => by
    refine Holds.quietly (quiet_asyncSig? name) fun sig => ?_
    cases sig with
    | some sig =>
      refine Holds.quietly (reports_checkArity _ _ _ _).quiet fun _ => ?_
      refine (waits_args sig.params args).bind fun es => .pure fun _ _ h r hr => ?_
      cases hr
      exact h
    | none => exact .pure fun _ _ r hr => nomatch hr
  | .int _ _ | .float _ _ | .bool _ _ | .string _ _ | .null _ | .name _ _ | .binary _ _ _ _
  | .unary _ _ _ | .logical _ _ _ _ | .methodCall _ _ _ _ | .field _ _ _ | .structInit _ _ _
  | .lambda _ _ _ _ | .spawn _ _ | .await _ _ | .cast _ _ _ | .format _ _
  | .call (.int _ _) _ _ | .call (.float _ _) _ _ | .call (.bool _ _) _ _ | .call (.string _ _) _ _
  | .call (.null _) _ _ | .call (.binary _ _ _ _) _ _ | .call (.unary _ _ _) _ _
  | .call (.logical _ _ _ _) _ _ | .call (.call _ _ _) _ _ | .call (.methodCall _ _ _ _) _ _
  | .call (.field _ _ _) _ _ | .call (.structInit _ _ _) _ _ | .call (.lambda _ _ _ _) _ _
  | .call (.spawn _ _) _ _ | .call (.await _ _) _ _ | .call (.cast _ _ _) _ _
  | .call (.format _ _) _ _ => .pure fun _ _ r hr => nomatch hr

theorem waits_args : (params : List Ty) → (args : List Expr) →
    Abides (checkArgs params args) fun g isAsync es => ExprsWait g.Sync isAsync es
  | _, [] => .pure fun _ _ => trivial
  | params, arg :: rest => by
    refine (waits_expr arg).bind fun e => ?_
    have hrest (e' : TExpr) : Abides (checkArgs params.tail rest >>= fun es => Pure.pure (e' :: es))
        fun g isAsync es => e'.Waits g.Sync isAsync → ExprsWait g.Sync isAsync es :=
      (waits_args params.tail rest).bind fun _ => .pure fun _ _ hs he => ⟨he, hs⟩
    cases params.head? with
    | some ty =>
      exact abides_coerce.bind fun e' => (hrest e').weaken fun _ _ _ h hc he => h (hc he)
    | none => exact hrest e

theorem waits_boxed : (args : List Expr) →
    Abides (checkBoxed args) fun g isAsync es => ExprsWait g.Sync isAsync es
  | [] => .pure fun _ _ => trivial
  | arg :: rest =>
    (waits_expr arg).bind fun _ => abides_coerce.bind fun _ => (waits_boxed rest).bind fun _ =>
      .pure fun _ _ hs hc he => ⟨hc he, hs⟩

theorem waits_parts (span : Option Span) : (parts : List Expr) →
    Abides (checkParts span parts) fun g isAsync es => ExprsWait g.Sync isAsync es
  | [] => .pure fun _ _ => trivial
  | part :: rest =>
    (waits_expr part).bind fun _ => .reportedIf fun _ => (waits_parts span rest).bind fun _ =>
      .pure fun _ _ hs _ he => ⟨he, hs⟩

theorem waits_values : (fields : List (String × Expr)) →
    Abides (checkValues fields) fun _ _ _ => True
  | [] => .pure fun _ _ => trivial
  | (_, value) :: rest => (waits_expr value).after fun _ => waits_values rest

theorem waits_inits (struct : String) (sig : StructSig) (span : Option Span)
    (slots : List (Option TExpr)) : (fields : List (String × Expr)) →
    Abides (checkInits struct sig span slots fields) fun g isAsync slots' =>
      SlotsWait g.Sync isAsync slots → SlotsWait g.Sync isAsync slots'
  | [] => .pure fun _ _ h => h
  | (field, value) :: rest =>
    (waits_expr value).bind fun v => (abides_initSlot struct sig field v _ slots).bind fun slots' =>
      (waits_inits struct sig span slots' rest).weaken fun _ _ _ h hslots hv hs => h (hslots hv hs)

theorem waits_stmt : (s : Stmt) →
    Abides (checkStmt s) fun g isAsync r => r.1.Waits g.Sync isAsync
  | .declare name mutable none none span =>
    (abides_checkDeclare name mutable none none span).bind fun _ => .pure fun _ _ h => h trivial
  | .declare name mutable (some t) none span =>
    Holds.quietly ((reports_resolveType t span).quiet.map (R := fun _ _ => True) fun _ _ h => h)
      fun ty => (abides_checkDeclare name mutable ty none span).bind fun _ =>
        .pure fun _ _ h => h trivial
  | .declare name mutable none (some value) span =>
    (waits_expr value).bind fun v =>
      (abides_checkDeclare name mutable none (some v) span).bind fun _ => .pure fun _ _ h hv => h hv
  | .declare name mutable (some t) (some value) span =>
    Holds.quietly ((reports_resolveType t span).quiet.map (R := fun _ _ => True) fun _ _ h => h)
      fun ty => (waits_expr value).bind fun v =>
        (abides_checkDeclare name mutable ty (some v) span).bind fun _ => .pure fun _ _ h hv => h hv
  | .assign target value span =>
    (waits_expr value).bind fun v => (abides_checkAssign target v span).bind fun _ =>
      .pure fun _ _ h hv => h hv
  | .branch condition thenBlock elifs elseBlock span => by
    refine Holds.quietly (reports_nullTest? condition).quiet fun test => ?_
    refine (abides_asCondition (waits_expr condition)).bind fun c => ?_
    refine Holds.quietly quiet_reads fun before => Holds.quietly quiet_reads fun mark => ?_
    refine Holds.quietly (quiet_narrowWhere test true) fun _ => ?_
    refine (abides_inBlock (waits_stmts thenBlock)).bind fun t => ?_
    refine Holds.quietly (quiet_setNarrowings mark) fun _ => (abides_pathEnd t.2).after fun _ => ?_
    refine (abides_setInitFacts before).after fun _ =>
      Holds.quietly (quiet_narrowWhere test false) fun _ => ?_
    refine (waits_elifs elifs).bind fun m => (waits_else elseBlock).bind fun l => ?_
    refine (abides_pathEnd l.2).after fun _ => Holds.quietly (quiet_setNarrowings mark) fun _ => ?_
    refine (abides_mergePaths _).after fun _ => ?_
    have hrest (narrows falls : Bool) (test : NullTest) : Abides (do
        if narrows then narrow test.id test.inner
        Pure.pure (TStmt.branch c t.1 m.1 l.1 span, falls)) fun g isAsync r =>
          ElseWaits g.Sync isAsync l.1 → ElifsWait g.Sync isAsync m.1 →
            StmtsWait g.Sync isAsync t.1 → c.Waits g.Sync isAsync → r.1.Waits g.Sync isAsync := by
      split
      · exact Holds.quietly (quiet_narrow _ _) fun _ => .pure fun _ _ hl hm ht hc =>
          ⟨hc, ht, hm, hl⟩
      · exact .pure fun _ _ hl hm ht hc => ⟨hc, ht, hm, hl⟩
    cases test with
    | none => exact .pure fun _ _ hl hm ht hc => ⟨hc, ht, hm, hl⟩
    | some test =>
      dsimp only
      split
      · exact hrest _ _ test
      · exact hrest _ _ test
  | .loop condition body span => by
    refine (abides_asCondition (waits_expr condition)).bind fun c => ?_
    refine Holds.quietly quiet_reads fun before => abides_enterLoop.after fun _ => ?_
    refine (abides_inBlock (waits_stmts body)).bind fun r => ?_
    refine abides_exitLoop.after fun _ => Holds.quietly quiet_reads fun after => ?_
    exact (abides_mergePaths _).after fun _ => .pure fun _ _ hb hc => ⟨hc, hb⟩
  | .block body _ => (abides_inBlock (waits_stmts body)).bind fun _ => .pure fun _ _ h => h
  | .ret none span =>
    Holds.quietly quiet_reads fun ret => (abides_checkReturned none ret span).weaken
      fun _ _ _ h => h trivial
  | .ret (some value) span =>
    Holds.quietly quiet_reads fun ret => (waits_expr value).bind fun v =>
      abides_checkReturned (some v) ret span
  | .breakLoop span => Holds.quietly (reports_requireLoop "break" span).quiet fun _ =>
    .pure fun _ _ => trivial
  | .continueLoop span =>
    Holds.quietly (reports_requireLoop "continue" span).quiet fun _ => .pure fun _ _ => trivial
  | .free name span => (abides_checkFree name span).after fun _ => .pure fun _ _ => trivial
  | .collect _ => .pure fun _ _ => trivial
  | .yieldNow span =>
    abides_inAsync.bind fun mode => .reportedIf fun _ => .pure fun _ _ hm hmode => by
      simpa [TStmt.Waits, ← hmode] using hm
  | .eval expr _ => (waits_expr expr).bind fun _ => .pure fun _ _ h => h

theorem waits_stmts : (ss : List Stmt) →
    Abides (checkStmts ss) fun g isAsync r => StmtsWait g.Sync isAsync r.1
  | [] => .pure fun _ _ => trivial
  | s :: rest =>
    (waits_stmt s).bind fun _ => (waits_stmts rest).bind fun _ => .pure fun _ _ hr h => ⟨h, hr⟩

theorem waits_else : (elseBlock : Option (List Stmt)) →
    Abides (checkElse elseBlock) fun g isAsync r => ElseWaits g.Sync isAsync r.1
  | none => .pure fun _ _ => trivial
  | some body => (abides_inBlock (waits_stmts body)).bind fun _ => .pure fun _ _ h => h

theorem waits_elifs : (elifs : List (Expr × List Stmt)) →
    Abides (checkElifs elifs) fun g isAsync r => ElifsWait g.Sync isAsync r.1
  | [] => .pure fun _ _ => trivial
  | (condition, body) :: rest => by
    refine Holds.quietly (reports_nullTest? condition).quiet fun test => ?_
    refine (abides_asCondition (waits_expr condition)).bind fun c => ?_
    refine Holds.quietly quiet_reads fun before => Holds.quietly quiet_reads fun mark => ?_
    refine Holds.quietly (quiet_narrowWhere test true) fun _ => ?_
    refine (abides_inBlock (waits_stmts body)).bind fun b => ?_
    refine Holds.quietly (quiet_setNarrowings mark) fun _ => (abides_pathEnd b.2).after fun _ => ?_
    refine (abides_setInitFacts before).after fun _ => ?_
    exact (waits_elifs rest).bind fun _ => .pure fun _ _ hm hb hc => ⟨hc, hb, hm⟩

end

/-! ## Functions -/

theorem abides_declareSelf (d : FunctionDecl) (struct : Option String) :
    Abides (declareSelf d struct) fun _ _ _ => True := by
  cases struct with
  | none => exact .pure fun _ _ => trivial
  | some name => exact (abides_declare _ _ _ _ _ _).after fun _ => .pure fun _ _ => trivial

theorem abides_declareParams (span : Option Span) (before : List TParam)
    (params : List (Param × Ty)) : Abides (declareParams span before params) fun _ _ _ => True := by
  induction params generalizing before with
  | nil => exact .pure fun _ _ => trivial
  | cons p rest ih =>
    exact .reportedIf fun _ =>
      ((abides_declare _ _ _ _ _ _).after fun _ => ih _).weaken fun _ _ _ h _ => h

theorem waits_function (struct : Option String) (d : FunctionDecl) :
    Abides (checkFunction struct d) fun g _ f =>
      (f.name, f.isAsync) = (d.symbol struct, d.isAsync) ∧ StmtsWait g.Sync f.isAsync f.body := by
  refine Holds.quietly (quiet_declaredSignature d struct) fun sig => Holds.entered ?_
  refine (abides_declareSelf d struct).after fun receiver => ?_
  refine (abides_declareParams d.span receiver _).after fun params => ?_
  refine (waits_stmts d.body).bind fun r => .reportedIf fun _ => ?_
  refine .exited fun g isAsync captures _ hbody hmode => ⟨by cases struct <;> rfl, ?_⟩
  subst hmode
  exact hbody

theorem abides_mapM {g : α → Check β} {Q : Globals → α → β → Prop}
    (hg : ∀ a, Abides (g a) fun names _ b => Q names a b) (as : List α) :
    Abides (as.mapM g) fun names _ bs => as.Forall₂ (Q names) bs := by
  induction as with
  | nil => exact .pure fun _ _ => .nil
  | cons a rest ih =>
    rw [List.mapM_cons]
    exact (hg a).bind fun _ => ih.bind fun _ => .pure fun _ _ hbs hb => .cons hb hbs

end Check

/-! ## Programs -/

/-- The functions that an item declares, and which of them are async. -/
def Item.modes : Item → List (String × Bool)
  | .function d => [(d.symbol none, d.isAsync)]
  | .struct d => d.methods.map fun m => (m.symbol (some d.name), m.isAsync)

/-- These functions are what they were declared as, and wait where they may. -/
def FunctionsWait (g : Globals) (modes : List (String × Bool)) (fs : List TFunction) : Prop :=
  fs.map (fun f => (f.name, f.isAsync)) = modes ∧ ∀ f ∈ fs, StmtsWait g.Sync f.isAsync f.body

theorem FunctionsWait.append {g : Globals} {modes modes' : List (String × Bool)}
    {fs fs' : List TFunction} (h : FunctionsWait g modes fs) (h' : FunctionsWait g modes' fs') :
    FunctionsWait g (modes ++ modes') (fs ++ fs') :=
  ⟨by rw [List.map_append, h.1, h'.1], List.forall_mem_append.2 ⟨h.2, h'.2⟩⟩

theorem functionsWait_flatten {g : Globals} {m : α → List (String × Bool)} {as : List α}
    {fss : List (List TFunction)} (h : as.Forall₂ (fun a => FunctionsWait g (m a)) fss) :
    FunctionsWait g (as.flatMap m) fss.flatten := by
  induction h with
  | nil => exact ⟨rfl, nofun⟩
  | cons ha _ ih => exact ha.append ih

namespace Check

theorem waits_item (item : Item) :
    Abides (checkItem item) fun g _ fs => FunctionsWait g item.modes fs := by
  have hone {g : Globals} {mode : String × Bool} {f : TFunction} (h : (f.name, f.isAsync) = mode ∧
      StmtsWait g.Sync f.isAsync f.body) : FunctionsWait g [mode] [f] :=
    ⟨congrArg (fun m => [m]) h.1, List.forall_mem_singleton.2 h.2⟩
  cases item with
  | function d => exact (waits_function none d).bind fun _ => .pure fun _ _ h => hone h
  | struct d =>
    refine (abides_mapM (waits_function (some d.name)) d.methods).weaken fun g _ fs h => ?_
    have :=
      functionsWait_flatten (m := fun f : FunctionDecl => [(f.symbol (some d.name), f.isAsync)])
      (List.forall₂_map_right_iff.2 (h.imp fun _ _ => hone))
    rwa [← List.map_eq_flatMap, ← List.flatMap_def, List.flatMap_singleton'] at this

/-- Async methods are reported. -/
theorem abides_declareMethods (d : StructDecl) (sig : StructSig) (methods : List FunctionDecl) :
    Abides (declareMethods d sig methods) fun _ _ _ => ∀ m ∈ methods, m.isAsync = false := by
  induction methods generalizing sig with
  | nil => exact .pure fun _ _ _ h => nomatch h
  | cons m rest ih =>
    have hmore (hm : ¬m.isAsync = true) (h : ∀ m ∈ rest, m.isAsync = false) :
        ∀ m' ∈ m :: rest, m'.isAsync = false := List.forall_mem_cons.2 ⟨by simpa using hm, h⟩
    unfold declareMethods
    refine .reportedIf fun _ => ?_
    split
    · exact .reported (ih sig)
    · exact Holds.quietly (quiet_resolveSignature m) fun s =>
        (ih _).weaken fun _ _ _ h hm => hmore hm h

theorem takes_declareStruct (d : StructDecl) :
    Takes (declareStruct d) fun _ _ _ => ∀ m ∈ d.methods, m.isAsync = false := by
  refine ((Quiet.takes (quiet_declareFields d _ _)).bind fun sig =>
    Takes.bind (abides_declareMethods d sig _) fun sig' =>
      takes_modify (fun e =>
        { e with globals := { e.globals with structs := (d.name, sig') :: e.globals.structs } })
        fun _ => rfl).weaken ?_
  rintro env env' _ ⟨sig, _, -, sig', _, ⟨-, -, h⟩, -⟩
  exact h

theorem takes_forM {g : α → Check PUnit} {P : α → Prop} (hg : ∀ a, Takes (g a) fun _ _ _ => P a)
    (as : List α) : Takes (as.forM g) fun _ _ _ => ∀ a ∈ as, P a := by
  induction as with
  | nil => exact (Takes.pure _).weaken fun _ _ _ _ _ h => nomatch h
  | cons a rest ih =>
    refine ((hg a).bind fun _ => ih).weaken ?_
    rintro env env' _ ⟨_, _, ha, hrest⟩
    exact List.forall_mem_cons.2 ⟨ha, hrest⟩

/-- Methods of a program that is accepted are not async. -/
theorem takes_declareItems (p : Program) :
    Takes (declareItems p) fun _ _ _ => ∀ d ∈ p.structs, ∀ m ∈ d.methods, m.isAsync = false := by
  have hany {x : Check PUnit} (hx : Declaring p x) : Takes x fun _ _ _ => True :=
    hx.weaken fun _ _ _ _ => trivial
  refine ((hany (.forM _ fun _ => declaring_structName)).bind fun _ =>
    (takes_forM takes_declareStruct _).bind fun _ =>
      hany (.forM _ fun _ => declaring_function)).weaken ?_
  rintro env env' _ ⟨_, _, -, _, _, h, -⟩
  exact h

theorem waits_items (p : Program) : Takes (checkItems p) fun env _ t => p.Declares env.globals →
    ∃ g, p.Declares g ∧ (∀ d ∈ p.structs, ∀ m ∈ d.methods, m.isAsync = false) ∧
      FunctionsWait g (p.items.flatMap Item.modes) t.functions := by
  have hdeclare : Takes (declareItems p) fun env env' _ =>
      (p.Declares env.globals → p.Declares env'.globals) ∧
        ∀ d ∈ p.structs, ∀ m ∈ d.methods, m.isAsync = false :=
    fun env he => ⟨((takes_declareItems p) env he).1, ((declaring_items p) env he).2.2,
      ((takes_declareItems p) env he).2⟩
  refine (hdeclare.bind fun _ => (Quiet.takes (quiet_structInfos p.structs)).bind fun infos =>
    Takes.bind (abides_mapM waits_item p.items) fun fss => Takes.pure _).weaken ?_
  rintro env env' _ ⟨_, mid, ⟨hd, hs⟩, infos, _, ⟨⟨n, rfl⟩, -⟩, fss, last, ⟨-, -, hw⟩,
    rfl, rfl⟩ hdecl
  exact ⟨mid.globals, hd hdecl, hs, functionsWait_flatten hw⟩

end Check

/-- The name under which a callee stands among the functions. -/
def Callee.symbol? : Callee → Option String
  | .function name => some name
  | .method struct name => some (methodSymbol struct name)
  | .native _ => none

/-- No typed function that is meant by the callee is async. -/
def TProgram.Sync (t : TProgram) (callee : Callee) : Prop :=
  ∀ f ∈ t.functions, callee.symbol? = some f.name → f.isAsync = false

section

variable {p : Program} {t : TProgram}

/-- With one function for each name, it is not async when an item declares it so. -/
theorem TProgram.sync_of_mode
    (hf : t.functions.map (fun f => (f.name, f.isAsync)) = p.items.flatMap Item.modes)
    (hnames : (t.functions.map TFunction.name).Nodup) {callee : Callee} {name : String}
    (hc : callee.symbol? = some name) (hmode : (name, false) ∈ p.items.flatMap Item.modes) :
    t.Sync callee := by
  intro f hmem hname
  rw [hc] at hname
  cases hname
  rw [← hf] at hmode
  obtain ⟨f', hmem', he⟩ := List.mem_map.1 hmode
  obtain rfl := List.inj_on_of_nodup_map hnames hmem' hmem (congrArg Prod.fst he)
  exact congrArg Prod.snd he

/-- With one function for each name, methods are not async when none is declared so. -/
theorem TProgram.sync_method (hs : ∀ d ∈ p.structs, ∀ m ∈ d.methods, m.isAsync = false)
    (hf : t.functions.map (fun f => (f.name, f.isAsync)) = p.items.flatMap Item.modes)
    (hnames : (t.functions.map TFunction.name).Nodup) {d : StructDecl} (hd : d ∈ p.structs)
    {m : FunctionDecl} (hm : m ∈ d.methods) : t.Sync (.method d.name m.name) := by
  refine TProgram.sync_of_mode hf hnames rfl ?_
  refine List.mem_flatMap.2 ⟨_, p.mem_structs hd, List.mem_map.2 ⟨m, hm, ?_⟩⟩
  rw [hs d hd m hm]
  rfl

/-- With one function for each name, what the checker took for not async is not. -/
theorem Program.Declares.sync {g : Globals} (h : p.Declares g)
    (hs : ∀ d ∈ p.structs, ∀ m ∈ d.methods, m.isAsync = false)
    (hf : t.functions.map (fun f => (f.name, f.isAsync)) = p.items.flatMap Item.modes)
    (hnames : (t.functions.map TFunction.name).Nodup) {callee : Callee} (hc : g.Sync callee) :
    t.Sync callee := by
  cases callee with
  | function name =>
    obtain ⟨sig, hl, hsync⟩ := hc
    obtain ⟨d, hd, rfl, hm⟩ := h.functions name sig hl
    refine TProgram.sync_of_mode hf hnames rfl (List.mem_flatMap.2 ⟨_, p.mem_functions hd, ?_⟩)
    rw [← hsync, ← hm]
    exact List.mem_singleton.2 rfl
  | method struct method =>
    obtain ⟨sig, hl, hmethod⟩ := hc
    obtain ⟨d, hd, rfl, m, hm, rfl⟩ := h.methods struct sig method hl hmethod
    exact TProgram.sync_method hs hf hnames hd hm
  | native name => exact fun _ _ h => nomatch h

/-- Methods of an accepted program are not async. -/
theorem Program.check_sync_method {natives : List (String × Signature)}
    (h : p.check natives = .ok t) (hnames : (t.functions.map TFunction.name).Nodup) {d : StructDecl}
    (hd : d ∈ p.structs) {m : FunctionDecl}
    (hm : m ∈ d.methods) : t.Sync (.method d.name m.name) := by
  obtain ⟨hmake, herr⟩ := Program.check_ok h
  obtain ⟨-, hitems⟩ := Check.waits_items p _ herr
  obtain ⟨g, -, hs, hmodes, -⟩ := hitems (p.declares_ofNatives natives)
  rw [hmake] at hmodes
  exact TProgram.sync_method hs hmodes hnames hd hm

end

/-- In an accepted program only async bodies wait, and async functions are neither called nor
values. -/
theorem Program.check_waits {p : Program} {natives : List (String × Signature)} {t : TProgram}
    (h : p.check natives = .ok t) (hnames : (t.functions.map TFunction.name).Nodup) :
    ∃ sync : Callee → Prop, AllBodiesWait sync t.bodies ∧ ∀ callee, sync callee →
    t.Sync callee := by
  obtain ⟨hmake, herr⟩ := Program.check_ok h
  obtain ⟨-, hitems⟩ := Check.waits_items p _ herr
  obtain ⟨g, hg, hs, hmodes, hwait⟩ := hitems (p.declares_ofNatives natives)
  rw [hmake] at hmodes hwait
  refine ⟨g.Sync, fun b hb => ?_, fun _ => hg.sync hs hmodes hnames⟩
  obtain ⟨f, hf, hb⟩ := List.mem_flatMap.1 hb
  rcases List.mem_cons.1 hb with rfl | hb
  · exact hwait f hf
  · exact stmts_wait_bodies (hwait f hf) b hb

end ScopedScript
