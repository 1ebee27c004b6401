import ScopedScript.Proofs.Typing.Bodies

/-!
# Checked programs leave only their own loops

The checker goes through the statements of a body with what it knows of loops unchanged, so every
body it accepts has each `break` and `continue` inside one of its loops.
-/

namespace ScopedScript

namespace Check

mutual

theorem looped_stmt : (s : Stmt) → Steady (checkStmt s) fun depth r => r.1.Looped (depth != 0)
  | .declare name mutable none none span =>
    (steady_checkDeclare name mutable none none span).bind fun _ => .pure fun depth h =>
      h.1 (depth != 0)
  | .declare name mutable (some t) none span =>
    ((reports_resolveType t span).steady.map (R := fun _ _ => True) fun _ _ h => h).after fun ty =>
      (steady_checkDeclare name mutable ty none span).bind fun _ => .pure fun depth h =>
        h.1 (depth != 0)
  | .declare name mutable none (some value) span =>
    (steady_checkExpr value).after fun v =>
      (steady_checkDeclare name mutable none (some v) span).bind fun _ => .pure fun depth h =>
        h.1 (depth != 0)
  | .declare name mutable (some t) (some value) span =>
    ((reports_resolveType t span).steady.map (R := fun _ _ => True) fun _ _ h => h).after fun ty =>
      (steady_checkExpr value).after fun v =>
        (steady_checkDeclare name mutable ty (some v) span).bind fun _ => .pure fun depth h =>
          h.1 (depth != 0)
  | .assign target value span =>
    (steady_checkExpr value).after fun v => (steady_checkAssign target v span).bind fun _ =>
      .pure fun depth h => h.1 (depth != 0)
  | .branch condition thenBlock elifs elseBlock span => by
    refine (reports_nullTest? condition).steady.after fun test => ?_
    refine (steady_checkCondition condition).after fun c => ?_
    refine steady_reads.after fun before => steady_reads.after fun mark => ?_
    refine (steady_narrowWhere test true).after fun _ => ?_
    refine (looped_stmts thenBlock).inBlock.bind fun t => ?_
    refine (steady_setNarrowings mark).after fun _ =>
      (reports_pathEnd t.2).steady.after fun thenPaths => ?_
    refine (restores_setInitFacts before).steady.after fun _ =>
      (steady_narrowWhere test false).after fun _ => ?_
    refine (looped_elifs elifs).bind fun m => (looped_else elseBlock).bind fun l => ?_
    refine (reports_pathEnd l.2).steady.after fun elsePaths =>
      (steady_setNarrowings mark).after fun _ => ?_
    refine (restores_mergePaths _).steady.after fun _ => ?_
    have hrest (falls : Bool) :
        Steady (Pure.pure (TStmt.branch c t.1 m.1 l.1 span, falls)) fun depth r =>
        ElseLooped (depth != 0) l.1 → ElifsLooped (depth != 0) m.1 → AllLooped (depth != 0) t.1 →
          r.1.Looped (depth != 0) :=
      .pure fun _ hl hm ht => ⟨ht, hm, hl⟩
    cases test with
    | none => exact hrest _
    | some test => exact .narrowingIf fun _ => hrest _
  | .loop condition body span => by
    refine (steady_checkCondition condition).after fun c => steady_reads.after fun before => ?_
    refine Moves.inLoop (looped_stmts body).inBlock fun r => ?_
    refine steady_reads.after fun after => (restores_mergePaths _).steady.after fun _ =>
      .pure fun _ h => ?_
    obtain ⟨d, hbody⟩ := h
    exact AllLooped.inside _ hbody
  | .block body _ => (looped_stmts body).inBlock.bind fun r => .pure fun _ h => h
  | .ret none span =>
    steady_reads.after fun ret => (steady_returned none ret span).weaken fun depth _ h =>
      h.1 (depth != 0)
  | .ret (some value) span =>
    steady_reads.after fun ret => (steady_checkExpr value).after fun v =>
      (steady_returned (some v) ret span).weaken fun depth _ h => h.1 (depth != 0)
  | .breakLoop span | .continueLoop span =>
    (steady_requireLoop _ span).bind fun _ => .pure fun _ h => bne_iff_ne.2 h
  | .free name span => (restores_checkFree name span).declaring.steady.after fun _ =>
    .pure fun _ => trivial
  | .collect _ => .pure fun _ => trivial
  | .yieldNow span => steady_inAsync.after fun _ => .reportedIf fun _ => .pure fun _ => trivial
  | .eval expr _ => (steady_checkExpr expr).after fun _ => .pure fun _ => trivial

theorem looped_stmts : (ss : List Stmt) → Steady (checkStmts ss) fun depth r =>
      AllLooped (depth != 0) r.1
  | [] => .pure fun _ => trivial
  | s :: rest =>
    (looped_stmt s).bind fun _ => (looped_stmts rest).bind fun _ =>
      .pure fun _ hrest hs => ⟨hs, hrest⟩

theorem looped_else : (elseBlock : Option (List Stmt)) → Steady (checkElse elseBlock) fun depth r =>
    ElseLooped (depth != 0) r.1
  | none => .pure fun _ => trivial
  | some body => (looped_stmts body).inBlock.bind fun _ => .pure fun _ h => h

theorem looped_elifs : (elifs : List (Expr × List Stmt)) → Steady (checkElifs elifs) fun depth r =>
    ElifsLooped (depth != 0) r.1
  | [] => .pure fun _ => trivial
  | (condition, body) :: rest => by
    refine (reports_nullTest? condition).steady.after fun test => ?_
    refine (steady_checkCondition condition).after fun c => ?_
    refine steady_reads.after fun before => steady_reads.after fun mark => ?_
    refine (steady_narrowWhere test true).after fun _ => ?_
    refine (looped_stmts body).inBlock.bind fun b => ?_
    refine (steady_setNarrowings mark).after fun _ =>
      (reports_pathEnd b.2).steady.after fun paths => ?_
    refine (restores_setInitFacts before).steady.after fun _ => ?_
    exact (looped_elifs rest).bind fun m => .pure fun _ hm hb => ⟨hb, hm⟩

end

/-! ## Bodies -/

/-- A body starts outside of all loops. -/
theorem looped_body (body : List Stmt) : Steady (checkStmts body) fun depth r =>
    depth = 0 → AllLooped false r.1 :=
  (looped_stmts body).weaken fun _ _ h hdepth => by
    subst hdepth
    exact h

theorem lambdas_looped : LambdasAre fun b => AllLooped false b.stmts := by
  intro params ret body span
  have hlambda : Steady (checkExpr (.lambda params ret body span)) fun _ e =>
      ∀ ps r ss names ty, e = .mk (.lambda ps r ss names) ty span → AllLooped false ss := by
    refine (reports_resolveReturn ret span).steady.after fun ret => ?_
    refine (steady_mapM (fun p => ?_) params).after fun params => ?_
    · exact (reports_resolveType _ _).steady.after fun _ => .pure fun _ => trivial
    refine Moves.entered ((restores_declareEach params).steady.after fun _ =>
      (looped_body body).bind fun r => ?_)
    refine .reportedIf fun _ => .exited fun _ captures hbody hdepth _ _ _ _ _ he => ?_
    cases he
    exact hbody hdepth
  exact fun env he => (hlambda env he).2.2

theorem functions_looped : FunctionsAre fun b => AllLooped false b.stmts := by
  intro struct d
  have hfunction : Steady (checkFunction struct d) fun _ f => AllLooped false f.body := by
    refine (steady_declaredSignature d struct).after fun sig => Moves.entered ?_
    refine (steady_declareSelf d struct).after fun receiver => ?_
    refine (steady_declareParams d.span receiver _).after fun params => ?_
    exact (looped_body d.body).bind fun r => .reportedIf fun _ => .exited fun _ _ h => h
  exact fun env he => (hfunction env he).2.2

end Check

/-- Every body of a checked program leaves only its own loops. -/
theorem Program.check_looped {p : Program} {natives : List (String × Signature)} {t : TProgram}
    (h : p.check natives = .ok t) : AllBodiesLooped t.bodies :=
  Program.check_bodies h Check.lambdas_looped Check.functions_looped

end ScopedScript
