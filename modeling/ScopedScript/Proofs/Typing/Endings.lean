import ScopedScript.Proofs.Typing.Checked

/-!
# Where checked bodies end

A body that has a value to give back leaves by `return` only: the checker has worked out whether
control can get past each statement, and reports a body that control can get through.
-/

namespace ScopedScript

/-- Control cannot get through a body that has a value to give back. -/
def Body.Returns (b : Body) : Prop := b.ret ≠ .void → stmtsFall b.stmts = false

namespace Check

/-- The checker knows whether control gets through statements. -/
theorem falls_stmts (body : List Stmt) :
    Steady (checkStmts body) fun _ r => r.2 = stmtsFall r.1 := by
  have hfalls : Takes (checkStmts body) (FallingAll ⟨[], []⟩ (stmtsFrees body)) :=
    fallingAll_stmts body (List.Subset.refl _)
  exact ((looped_stmts body).knowing fun env he => (hfalls env he).2.1).weaken fun _ _ h => h.2

/-- A body that nothing has been reported of at its end. -/
theorem returns_of_unreported {params : List TParam} {ret : Ty} {r : List TStmt × Bool}
    {captures : List String} {isAsync : Bool} {span : Option Span} (hr : r.2 = stmtsFall r.1)
    (h : ¬ (r.2 = true ∧ ret ≠ .void)) :
    (Body.mk params ret r.1 captures isAsync span).Returns := by
  intro hret
  rw [← hr]
  simpa [hret] using h

theorem lambdas_return : LambdasAre Body.Returns := by
  intro params ret body span
  have hlambda : Steady (checkExpr (.lambda params ret body span)) fun _ e =>
      ∀ ps r ss names ty, e = .mk (.lambda ps r ss names) ty span →
        (Body.mk ps r ss names false span).Returns := by
    refine (reports_resolveReturn ret span).steady.after fun ret => ?_
    refine (steady_mapM (fun p => ?_) params).after fun params => ?_
    · exact (reports_resolveType _ _).steady.after fun _ => .pure fun _ => trivial
    refine Moves.entered ((restores_declareEach params).steady.after fun _ =>
      (falls_stmts body).bind fun r => ?_)
    refine .unless fun _ => .exited fun _ captures hc hr _ ps ret' ss names ty he => ?_
    cases he
    exact returns_of_unreported hr hc
  exact fun env he => (hlambda env he).2.2

theorem functions_return : FunctionsAre Body.Returns := by
  intro struct d
  have hfunction : Steady (checkFunction struct d) fun _ f => f.toBody.Returns := by
    refine (steady_declaredSignature d struct).after fun sig => Moves.entered ?_
    refine (steady_declareSelf d struct).after fun receiver => ?_
    refine (steady_declareParams d.span receiver _).after fun params => ?_
    refine (falls_stmts d.body).bind fun r => ?_
    exact .unless fun _ => .exited fun _ _ hc hr _ => returns_of_unreported hr hc
  exact fun env he => (hfunction env he).2.2

end Check

/-- In an accepted program control gets through no body that has a value to give back. -/
theorem Program.check_returns {p : Program} {natives : List (String × Signature)} {t : TProgram}
    (h : p.check natives = .ok t) : ∀ b ∈ t.bodies, b.Returns :=
  Program.check_bodies h Check.lambdas_return Check.functions_return

end ScopedScript
