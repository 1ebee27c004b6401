import ScopedScript.Proofs.Typing.Loops

/-!
# Bodies of checked programs

What holds of each function and of each lambda that is checked without errors holds of every body
that a checked program is compiled from.
-/

namespace ScopedScript

/-- Each of the bodies is so. -/
abbrev AllBodies (Q : Body → Prop) (bodies : List Body) : Prop := ∀ b ∈ bodies, Q b

theorem allBodies_nil {Q : Body → Prop} : AllBodies Q [] := nofun

theorem allBodies_append {Q : Body → Prop} {as bs : List Body} :
    AllBodies Q (as ++ bs) ↔ AllBodies Q as ∧ AllBodies Q bs := List.forall_mem_append

theorem AllBodies.mono {Q : Body → Prop} {as bs : List Body} (h : AllBodies Q bs) (hs : as ⊆ bs) :
    AllBodies Q as := fun b hb => h b (hs hb)

namespace Check

/-- The lambda that the checker makes of a lambda has a body like this, whatever is in it. -/
def LambdasAre (Q : Body → Prop) : Prop :=
  ∀ params ret body span env, (checkExpr (.lambda params ret body span) env).2.errors = #[] →
    ∀ ps r ss names ty, (checkExpr (.lambda params ret body span) env).1 =
      .mk (.lambda ps r ss names) ty span → Q ⟨ps, r, ss, names, false, span⟩

/-- As `LambdasAre`, of functions. -/
def FunctionsAre (Q : Body → Prop) : Prop :=
  ∀ struct d env, (checkFunction struct d env).2.errors = #[] →
    Q (checkFunction struct d env).1.toBody

theorem steady_inAsync : Steady inAsync fun _ _ => True := steady_reads

theorem steady_structSig? (name : String) : Steady (structSig? name) fun _ _ => True := steady_reads

theorem steady_mapM {g : α → Check β} (hg : ∀ a, Steady (g a) fun _ _ => True) (as : List α) :
    Steady (as.mapM g) fun _ _ => True := by
  induction as with
  | nil => exact .pure fun _ => trivial
  | cons a rest ih =>
    rw [List.mapM_cons]
    exact (hg a).after fun _ => ih.after fun _ => .pure fun _ => trivial

/-! ## The lambdas of a tree -/

section

variable {Q : Body → Prop}

theorem bodies_asCondition {x : Check TExpr} (hx : Steady x fun _ e => AllBodies Q (exprBodies e)) :
    Steady (asCondition x) fun _ e => AllBodies Q (exprBodies e) :=
  hx.bind fun e => steady_coerce.weaken fun _ e' he h => by
    rw [he]
    exact h

mutual

theorem bodies_expr (hQ : LambdasAre Q) : (e : Expr) →
    Steady (checkExpr e) fun _ e' => AllBodies Q (exprBodies e')
  | .int _ _ | .float _ _ | .bool _ _ | .string _ _ | .null _ => .pure fun _ => allBodies_nil
  | .name name span => (steady_checkName name span).weaken fun _ e h => by
    rw [h]
    exact allBodies_nil
  | .binary op left right span =>
    (bodies_expr hQ left).bind fun l => (bodies_expr hQ right).bind fun r =>
      (reports_binaryType op l.ty r.ty span).steady.after fun _ => .pure fun _ hr hl =>
        allBodies_append.2 ⟨hl, hr⟩
  | .unary .not operand _ => (bodies_asCondition (bodies_expr hQ operand)).bind fun _ =>
    .pure fun _ h => h
  | .unary .neg operand span =>
    (bodies_expr hQ operand).bind fun e => (reports_negationType e.ty span).steady.after fun _ =>
      .pure fun _ h => h
  | .logical _ left right _ =>
    (bodies_asCondition (bodies_expr hQ left)).bind fun _ =>
      (bodies_asCondition (bodies_expr hQ right)).bind fun _ => .pure fun _ hr hl =>
        allBodies_append.2 ⟨hl, hr⟩
  | .call callee args span => by
    refine (reports_namedCallee? callee).steady.after fun c => ?_
    cases c with
    | some c =>
      obtain ⟨target, name, sig⟩ := c
      refine .reportedIf fun _ => (reports_checkArity _ _ _ _).steady.after fun _ => ?_
      exact (bodies_args hQ sig.params args).bind fun _ => .pure fun _ h => h
    | none =>
      refine (bodies_expr hQ callee).bind fun c => ?_
      cases c.ty with
      | function params ret =>
        refine (reports_checkArity _ _ _ _).steady.after fun _ => ?_
        exact (bodies_args hQ params args).bind fun _ => .pure fun _ ha hc =>
          allBodies_append.2 ⟨hc, ha⟩
      | any =>
        exact (bodies_boxed hQ args).bind fun _ => .pure fun _ ha hc => allBodies_append.2 ⟨hc, ha⟩
      | _ => exact .reported (.pure fun _ _ => allBodies_nil)
  | .methodCall object method args span => by
    refine (bodies_expr hQ object).bind fun r => ?_
    cases r.ty with
    | struct struct =>
      refine (steady_structSig? struct).after fun sig => ?_
      cases sig.bind fun sig => sig.methods.lookup method with
      | none => exact .reported (.pure fun _ _ => allBodies_nil)
      | some sig =>
        refine (reports_checkArity _ _ _ _).steady.after fun _ => ?_
        exact (bodies_args hQ sig.params args).bind fun _ => .pure fun _ ha hr =>
          allBodies_append.2 ⟨hr, ha⟩
    | any =>
      exact (bodies_boxed hQ args).bind fun _ => .pure fun _ ha hr => allBodies_append.2 ⟨hr, ha⟩
    | _ => exact .reported (.pure fun _ _ => allBodies_nil)
  | .field object field span =>
    (bodies_expr hQ object).bind fun e => (reports_fieldType e.ty field span).steady.after fun _ =>
      .pure fun _ h => h
  | .structInit name fields span => by
    refine (steady_structSig? name).after fun sig => ?_
    cases sig with
    | none => exact (bodies_values hQ fields).after fun _ =>
      .reported (.pure fun _ => allBodies_nil)
    | some sig =>
      refine (bodies_inits hQ name sig span _ fields).bind fun slots => ?_
      refine (steady_fillSlots name span sig.fields slots).bind fun values =>
        .pure fun _ hv hs => ?_
      refine AllBodies.mono (hs fun b hb => ?_) hv
      obtain ⟨v, hmem, hb⟩ := List.mem_flatMap.1 hb
      rw [List.eq_of_mem_replicate hmem] at hb
      cases hb
  | .lambda params ret body span => by
    -- what is in the body is known by induction, and the body itself by assumption
    have hinner : Steady (checkExpr (.lambda params ret body span)) fun _ e => ∃ ps r ss names ty,
        e = .mk (.lambda ps r ss names) ty span ∧ AllBodies Q (stmtsBodies ss) := by
      refine (reports_resolveReturn ret span).steady.after fun ret => ?_
      refine (steady_mapM (fun p => ?_) params).after fun params => ?_
      · exact (reports_resolveType _ _).steady.after fun _ => .pure fun _ => trivial
      refine Moves.entered ((restores_declareEach params).steady.after fun _ =>
        (bodies_stmts hQ body).bind fun r => ?_)
      exact .reportedIf fun _ => .exited fun _ captures h _ => ⟨_, _, _, _, _, rfl, h⟩
    refine (hinner.knowing (q := fun e => ∀ ps r ss names ty,
      e = .mk (.lambda ps r ss names) ty span →
      Q ⟨ps, r, ss, names, false, span⟩) (hQ params ret body span)).weaken ?_
    rintro _ _ ⟨⟨ps, r, ss, names, ty, rfl, hbodies⟩, hlambda⟩
    refine allBodies_append.2 ⟨hbodies, fun b hb => ?_⟩
    rw [List.mem_singleton.1 hb]
    exact hlambda ps r ss names ty rfl
  | .spawn call span => by
    refine (bodies_start hQ span call).bind fun s => ?_
    cases s with
    | some s => exact .pure fun _ h => h s rfl
    | none => exact (bodies_expr hQ call).after fun _ => .reported (.pure fun _ _ => allBodies_nil)
  | .await task span => by
    refine steady_inAsync.after fun _ => .reportedIf fun _ =>
      (bodies_start hQ span task).bind fun s => ?_
    have hrest (t : TExpr) : Steady (awaitedType t.ty span >>= fun ty =>
        Pure.pure (TExpr.mk (.await t) ty span)) fun _ e =>
          AllBodies Q (exprBodies t) → AllBodies Q (exprBodies e) :=
      (reports_awaitedType t.ty span).steady.after fun _ => .pure fun _ h => h
    cases s with
    | some s => exact (hrest _).weaken fun _ _ h hs => h (hs s rfl)
    | none => exact (bodies_expr hQ task).bind fun t => (hrest t).weaken fun _ _ h ht _ => h ht
  | .cast value type span =>
    (bodies_expr hQ value).bind fun v => (reports_resolveType type span).steady.after fun target =>
      (steady_castTo v target span).weaken fun _ _ h hv => hv.mono h
  | .format parts span => (bodies_parts hQ span parts).bind fun _ => .pure fun _ h => h

theorem bodies_start (hQ : LambdasAre Q) (span : Option Span) : (e : Expr) →
    Steady (checkStart span e) fun _ s => ∀ r, s = some r → AllBodies Q (exprsBodies r.2.1)
  | .call (.name name _) args _ => by
    refine (reports_asyncSig? name).steady.after fun sig => ?_
    cases sig with
    | some sig =>
      refine (reports_checkArity _ _ _ _).steady.after fun _ => ?_
      refine (bodies_args hQ sig.params args).bind fun es => .pure fun _ h r hr => ?_
      cases hr
      exact h
    | none => exact .pure fun _ r hr => nomatch hr
  | .int _ _ | .float _ _ | .bool _ _ | .string _ _ | .null _ | .name _ _ | .binary _ _ _ _
  | .unary _ _ _ | .logical _ _ _ _ | .methodCall _ _ _ _ | .field _ _ _ | .structInit _ _ _
  | .lambda _ _ _ _ | .spawn _ _ | .await _ _ | .cast _ _ _ | .format _ _
  | .call (.int _ _) _ _ | .call (.float _ _) _ _ | .call (.bool _ _) _ _ | .call (.string _ _) _ _
  | .call (.null _) _ _ | .call (.binary _ _ _ _) _ _ | .call (.unary _ _ _) _ _
  | .call (.logical _ _ _ _) _ _ | .call (.call _ _ _) _ _ | .call (.methodCall _ _ _ _) _ _
  | .call (.field _ _ _) _ _ | .call (.structInit _ _ _) _ _ | .call (.lambda _ _ _ _) _ _
  | .call (.spawn _ _) _ _ | .call (.await _ _) _ _ | .call (.cast _ _ _) _ _
  | .call (.format _ _) _ _ => .pure fun _ r hr => nomatch hr

theorem bodies_args (hQ : LambdasAre Q) : (params : List Ty) → (args : List Expr) →
    Steady (checkArgs params args) fun _ es => AllBodies Q (exprsBodies es)
  | _, [] => .pure fun _ => allBodies_nil
  | params, arg :: rest => by
    refine (bodies_expr hQ arg).bind fun e => ?_
    have hrest (e' : TExpr) : Steady (checkArgs params.tail rest >>= fun es => Pure.pure (e' :: es))
        fun _ es => AllBodies Q (exprBodies e') → AllBodies Q (exprsBodies es) :=
      (bodies_args hQ params.tail rest).bind fun _ => .pure fun _ hs he =>
        allBodies_append.2 ⟨he, hs⟩
    cases params.head? with
    | some ty =>
      exact steady_coerce.bind fun e' => (hrest e').weaken fun _ _ h he' he => h (he' ▸ he)
    | none => exact hrest e

theorem bodies_boxed (hQ : LambdasAre Q) : (args : List Expr) →
    Steady (checkBoxed args) fun _ es => AllBodies Q (exprsBodies es)
  | [] => .pure fun _ => allBodies_nil
  | arg :: rest =>
    (bodies_expr hQ arg).bind fun _ => steady_coerce.bind fun _ =>
      (bodies_boxed hQ rest).bind fun _ =>
      .pure fun _ hs he' he => allBodies_append.2 ⟨he'.symm ▸ he, hs⟩

theorem bodies_parts (hQ : LambdasAre Q) (span : Option Span) : (parts : List Expr) →
    Steady (checkParts span parts) fun _ es => AllBodies Q (exprsBodies es)
  | [] => .pure fun _ => allBodies_nil
  | part :: rest =>
    (bodies_expr hQ part).bind fun _ => .reportedIf fun _ =>
      (bodies_parts hQ span rest).bind fun _ =>
      .pure fun _ hs he => allBodies_append.2 ⟨he, hs⟩

theorem bodies_values (hQ : LambdasAre Q) : (fields : List (String × Expr)) →
    Steady (checkValues fields) fun _ _ => True
  | [] => .pure fun _ => trivial
  | (_, value) :: rest => (bodies_expr hQ value).after fun _ => bodies_values hQ rest

theorem bodies_inits (hQ : LambdasAre Q) (struct : String) (sig : StructSig) (span : Option Span)
    (slots : List (Option TExpr)) : (fields : List (String × Expr)) →
    Steady (checkInits struct sig span slots fields) fun _ slots' =>
      AllBodies Q (slots.flatMap valueBodies) → AllBodies Q (slots'.flatMap valueBodies)
  | [] => .pure fun _ h => h
  | (field, value) :: rest =>
    (bodies_expr hQ value).bind fun v =>
      (steady_initSlot struct sig field v _ slots).bind fun slots' =>
      (bodies_inits hQ struct sig span slots' rest).weaken fun _ _ h hslots hv hs =>
        h (AllBodies.mono (allBodies_append.2 ⟨hs, hv⟩) hslots)

theorem bodies_stmt (hQ : LambdasAre Q) : (s : Stmt) →
    Steady (checkStmt s) fun _ r => AllBodies Q (stmtBodies r.1)
  | .declare name mutable none none span =>
    (steady_checkDeclare name mutable none none span).bind fun _ => .pure fun _ h =>
      allBodies_nil.mono h.2
  | .declare name mutable (some t) none span =>
    ((reports_resolveType t span).steady.map (R := fun _ _ => True) fun _ _ h => h).after fun ty =>
      (steady_checkDeclare name mutable ty none span).bind fun _ => .pure fun _ h =>
        allBodies_nil.mono h.2
  | .declare name mutable none (some value) span =>
    (bodies_expr hQ value).bind fun v =>
      (steady_checkDeclare name mutable none (some v) span).bind fun _ =>
      .pure fun _ h hv => AllBodies.mono hv h.2
  | .declare name mutable (some t) (some value) span =>
    ((reports_resolveType t span).steady.map (R := fun _ _ => True) fun _ _ h => h).after fun ty =>
      (bodies_expr hQ value).bind fun v =>
        (steady_checkDeclare name mutable ty (some v) span).bind fun _ =>
        .pure fun _ h hv => AllBodies.mono hv h.2
  | .assign target value span =>
    (bodies_expr hQ value).bind fun v => (steady_checkAssign target v span).bind fun _ =>
      .pure fun _ h hv => AllBodies.mono hv h.2
  | .branch condition thenBlock elifs elseBlock span => by
    refine (reports_nullTest? condition).steady.after fun test => ?_
    refine (bodies_asCondition (bodies_expr hQ condition)).bind fun c => ?_
    refine steady_reads.after fun before => steady_reads.after fun mark => ?_
    refine (steady_narrowWhere test true).after fun _ => ?_
    refine (bodies_stmts hQ thenBlock).inBlock.bind fun t => ?_
    refine (steady_setNarrowings mark).after fun _ =>
      (reports_pathEnd t.2).steady.after fun thenPaths => ?_
    refine (restores_setInitFacts before).steady.after fun _ =>
      (steady_narrowWhere test false).after fun _ => ?_
    refine (bodies_elifs hQ elifs).bind fun m => (bodies_else hQ elseBlock).bind fun l => ?_
    refine (reports_pathEnd l.2).steady.after fun elsePaths =>
      (steady_setNarrowings mark).after fun _ => ?_
    refine (restores_mergePaths _).steady.after fun _ => ?_
    have hrest (falls : Bool) :
        Steady (Pure.pure (TStmt.branch c t.1 m.1 l.1 span, falls)) fun _ r =>
        AllBodies Q (elseBodies l.1) → AllBodies Q (elifsBodies m.1) →
          AllBodies Q (stmtsBodies t.1) →
          AllBodies Q (exprBodies c) → AllBodies Q (stmtBodies r.1) :=
      .pure fun _ hl hm ht hc =>
        allBodies_append.2 ⟨allBodies_append.2 ⟨allBodies_append.2 ⟨hc, ht⟩, hm⟩, hl⟩
    cases test with
    | none => exact hrest _
    | some test => exact .narrowingIf fun _ => hrest _
  | .loop condition body span => by
    refine (bodies_asCondition (bodies_expr hQ condition)).bind fun c =>
      steady_reads.after fun before => ?_
    refine Moves.inLoop (bodies_stmts hQ body).inBlock fun r => ?_
    refine steady_reads.after fun after => (restores_mergePaths _).steady.after fun _ =>
      .pure fun _ h hc => ?_
    obtain ⟨-, hbody⟩ := h
    exact allBodies_append.2 ⟨hc, hbody⟩
  | .block body _ => (bodies_stmts hQ body).inBlock.bind fun _ => .pure fun _ h => h
  | .ret none span =>
    steady_reads.after fun ret => (steady_returned none ret span).weaken fun _ _ h =>
    allBodies_nil.mono h.2
  | .ret (some value) span => steady_reads.after fun ret => (bodies_expr hQ value).bind fun v =>
    (steady_returned (some v) ret span).weaken fun _ _ h hv => AllBodies.mono hv h.2
  | .breakLoop span | .continueLoop span =>
    (steady_requireLoop _ span).after fun _ => .pure fun _ => allBodies_nil
  | .free name span => (restores_checkFree name span).declaring.steady.after fun _ => .pure fun _ =>
    allBodies_nil
  | .collect _ => .pure fun _ => allBodies_nil
  | .yieldNow span => steady_inAsync.after fun _ => .reportedIf fun _ => .pure fun _ =>
    allBodies_nil
  | .eval expr _ => (bodies_expr hQ expr).bind fun _ => .pure fun _ h => h

theorem bodies_stmts (hQ : LambdasAre Q) : (ss : List Stmt) →
    Steady (checkStmts ss) fun _ r => AllBodies Q (stmtsBodies r.1)
  | [] => .pure fun _ => allBodies_nil
  | s :: rest => (bodies_stmt hQ s).bind fun _ => (bodies_stmts hQ rest).bind fun _ =>
    .pure fun _ hrest hs => allBodies_append.2 ⟨hs, hrest⟩

theorem bodies_else (hQ : LambdasAre Q) : (elseBlock : Option (List Stmt)) →
    Steady (checkElse elseBlock) fun _ r => AllBodies Q (elseBodies r.1)
  | none => .pure fun _ => allBodies_nil
  | some body => (bodies_stmts hQ body).inBlock.bind fun _ => .pure fun _ h => h

theorem bodies_elifs (hQ : LambdasAre Q) : (elifs : List (Expr × List Stmt)) →
    Steady (checkElifs elifs) fun _ r => AllBodies Q (elifsBodies r.1)
  | [] => .pure fun _ => allBodies_nil
  | (condition, body) :: rest => by
    refine (reports_nullTest? condition).steady.after fun test => ?_
    refine (bodies_asCondition (bodies_expr hQ condition)).bind fun c => ?_
    refine steady_reads.after fun before => steady_reads.after fun mark => ?_
    refine (steady_narrowWhere test true).after fun _ => ?_
    refine (bodies_stmts hQ body).inBlock.bind fun b => ?_
    refine (steady_setNarrowings mark).after fun _ =>
      (reports_pathEnd b.2).steady.after fun paths => ?_
    refine (restores_setInitFacts before).steady.after fun _ =>
      (bodies_elifs hQ rest).bind fun m => ?_
    exact .pure fun _ hm hb hc => allBodies_append.2 ⟨allBodies_append.2 ⟨hc, hb⟩, hm⟩

end

end

/-! ## Programs -/

theorem steady_declareStructName (d : StructDecl) :
    Steady (declareStructName d) fun _ _ => True := by
  refine (steady_structSig? d.name).after fun sig => ?_
  split
  · exact steady_report _ _
  · exact steady_modify (fun _ => rfl) fun _ => rfl

theorem steady_resolveSignature (d : FunctionDecl) :
    Steady (resolveSignature d) fun _ _ => True := by
  refine (steady_mapM (fun p => ?_) d.params).after fun params => ?_
  · exact (reports_resolveType _ _).steady
  · exact (reports_resolveReturn _ _).steady.after fun _ => .pure fun _ => trivial

theorem steady_declareFields (d : StructDecl) (sig : StructSig) (fields : List FieldDecl) :
    Steady (declareFields d sig fields) fun _ _ => True := by
  induction fields generalizing sig with
  | nil => exact .pure fun _ => trivial
  | cons field rest ih =>
    unfold declareFields
    dsimp only
    split
    · exact .reported (ih _)
    · exact (reports_resolveType _ _).steady.after fun _ => ih _

theorem steady_declareMethods (d : StructDecl) (sig : StructSig) (methods : List FunctionDecl) :
    Steady (declareMethods d sig methods) fun _ _ => True := by
  induction methods generalizing sig with
  | nil => exact .pure fun _ => trivial
  | cons method rest ih =>
    have hrest : Steady (if (sig.methods.lookup method.name).isSome then
          reportInvalid (.duplicateMethod d.name method.name) method.span >>= fun _ =>
            declareMethods d sig rest
        else resolveSignature method >>= fun signature =>
          declareMethods d { sig with methods := sig.methods ++ [(method.name, signature)] } rest)
        fun _ _ => True := by
      split
      · exact .reported (ih _)
      · exact (steady_resolveSignature method).after fun _ => ih _
    exact .reportedIf fun _ => hrest

theorem steady_declareStruct (d : StructDecl) : Steady (declareStruct d) fun _ _ => True :=
  (steady_declareFields d _ _).after fun _ => (steady_declareMethods d _ _).after fun _ =>
    steady_modify (fun _ => rfl) fun _ => rfl

theorem steady_declareFunction (d : FunctionDecl) : Steady (declareFunction d) fun _ _ => True := by
  refine Moves.after (Q := fun _ _ => True) steady_reads fun sig => ?_
  split
  · exact steady_report _ _
  · exact (steady_resolveSignature d).after fun _ => steady_modify (fun _ => rfl) fun _ => rfl

theorem steady_forM {g : α → Check PUnit} (hg : ∀ a, Steady (g a) fun _ _ => True) (as : List α) :
    Steady (as.forM g) fun _ _ => True := by
  induction as with
  | nil => exact .pure fun _ => trivial
  | cons a rest ih => exact (hg a).after fun _ => ih

theorem steady_declareItems (p : Program) : Steady (declareItems p) fun _ _ => True :=
  (steady_forM steady_declareStructName _).after fun _ =>
    (steady_forM steady_declareStruct _).after fun _ => steady_forM steady_declareFunction _

theorem steady_declareParams (span : Option Span) (before : List TParam)
    (params : List (Param × Ty)) : Steady (declareParams span before params) fun _ _ => True := by
  induction params generalizing before with
  | nil => exact .pure fun _ => trivial
  | cons p rest ih =>
    exact .reportedIf fun _ => (restores_declare _ _ _ _ _ _).steady.after fun _ => ih _

theorem steady_declareSelf (d : FunctionDecl) (struct : Option String) :
    Steady (declareSelf d struct) fun _ _ => True := by
  cases struct with
  | none => exact .pure fun _ => trivial
  | some name => exact (restores_declare _ _ _ _ _ _).steady.after fun _ => .pure fun _ => trivial

theorem steady_declaredSignature (d : FunctionDecl) (struct : Option String) :
    Steady (declaredSignature d struct) fun _ _ => True := by
  cases struct with
  | none => exact steady_reads.after fun _ => .pure fun _ => trivial
  | some name => exact steady_reads.after fun _ => .pure fun _ => trivial

theorem steady_mapM_each {P : β → Prop} {g : α → Check β} (hg : ∀ a, Steady (g a) fun _ b => P b)
    (as : List α) : Steady (as.mapM g) fun _ bs => ∀ b ∈ bs, P b := by
  induction as with
  | nil => exact .pure fun _ => nofun
  | cons a rest ih =>
    rw [List.mapM_cons]
    exact (hg a).bind fun b => ih.bind fun bs => .pure fun _ hbs hb =>
      List.forall_mem_cons.2 ⟨hb, hbs⟩

section

variable {Q : Body → Prop}

theorem bodies_function (hQ : LambdasAre Q) (hf : FunctionsAre Q) (struct : Option String)
    (d : FunctionDecl) : Steady (checkFunction struct d) fun _ f =>
      AllBodies Q (f.toBody :: stmtsBodies f.body) := by
  have hlambdas : Steady (checkFunction struct d) fun _ f => AllBodies Q (stmtsBodies f.body) := by
    refine (steady_declaredSignature d struct).after fun sig => Moves.entered ?_
    refine (steady_declareSelf d struct).after fun receiver => ?_
    refine (steady_declareParams d.span receiver _).after fun params => ?_
    exact (bodies_stmts hQ d.body).bind fun r => .reportedIf fun _ => .exited fun _ _ h _ => h
  exact (hlambdas.knowing (hf struct d)).weaken fun _ _ h => List.forall_mem_cons.2 h.symm

theorem bodies_item (hQ : LambdasAre Q) (hf : FunctionsAre Q) (item : Item) :
    Steady (checkItem item) fun _ fs => ∀ f ∈ fs, AllBodies Q (f.toBody :: stmtsBodies f.body) := by
  cases item with
  | function d =>
    exact (bodies_function hQ hf none d).bind fun f => .pure fun _ h =>
      List.forall_mem_singleton.2 h
  | struct d => exact steady_mapM_each (bodies_function hQ hf _) _

theorem bodies_items (hQ : LambdasAre Q) (hf : FunctionsAre Q) (p : Program) :
    Steady (checkItems p) fun _ t => AllBodies Q t.bodies := by
  refine (steady_declareItems p).after fun _ => ?_
  refine (steady_mapM (fun d => ?_) p.structs).after fun structs => ?_
  · refine (steady_structSig? d.name).after fun sig => ?_
    split <;> exact .pure fun _ => trivial
  · refine (steady_mapM_each (bodies_item hQ hf) p.items).bind fun functions =>
      .pure fun _ h b hb => ?_
    obtain ⟨f, hf, hb⟩ := List.mem_flatMap.1 hb
    obtain ⟨fs, hfs, hf⟩ := List.mem_flatten.1 hf
    exact h fs hfs f hf b hb

end

/-! What is checked, of which no more is said. -/

theorem steady_checkExpr (e : Expr) : Steady (checkExpr e) fun _ _ => True :=
  (restores_expr e (.inr fun _ _ _ => trivial)).declaring.steady

theorem steady_checkCondition (e : Expr) : Steady (asCondition (checkExpr e)) fun _ _ => True :=
  (restores_asCondition (restores_expr e (.inr fun _ _ _ => trivial))).declaring.steady

theorem steady_checkItem (item : Item) : Steady (checkItem item) fun _ _ => True :=
  (bodies_item (Q := fun _ => True) (fun _ _ _ _ _ _ _ _ _ _ _ _ => trivial)
    (fun _ _ _ _ => trivial) item).weaken fun _ _ _ => trivial

end Check

/-- An accepted program has been checked without errors. -/
theorem Program.check_ok {p : Program} {natives : List (String × Signature)} {t : TProgram}
    (h : p.check natives = .ok t) :
    (Check.checkItems p (.ofNatives natives)).1 = t ∧
      (Check.checkItems p (.ofNatives natives)).2.errors = #[] := by
  let r := Check.checkItems p (.ofNatives natives)
  have hr : (if r.2.errors.isEmpty then Except.ok r.1 else .error r.2.errors) = .ok t := h
  split at hr
  · rename_i he
    exact ⟨Except.ok.inj hr, Array.isEmpty_iff.1 he⟩
  · cases hr

/-- What holds of every lambda and function holds of each body of a checked program. -/
theorem Program.check_bodies {Q : Body → Prop} {p : Program} {natives : List (String × Signature)}
    {t : TProgram} (h : p.check natives = .ok t) (hQ : Check.LambdasAre Q)
    (hf : Check.FunctionsAre Q) : AllBodies Q t.bodies := by
  obtain ⟨rfl, herr⟩ := Program.check_ok h
  exact (Check.bodies_items hQ hf p _ herr).2.2

end ScopedScript
