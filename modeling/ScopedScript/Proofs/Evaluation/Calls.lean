import ScopedScript.Proofs.Evaluation.Floats
import ScopedScript.Proofs.Evaluation.Statements

/-!
# Calls of compiled procedures

The code of a procedure carries out each call of it, for as long as the evaluation has fuel. So a
run of an entry function carries out the evaluation of it.
-/

namespace ScopedScript

open FunctionCode Evaluator

/-- What evaluation is for: programs whose functions have names of their own, that have nothing to
do with tasks, and without a literal that another one, equal to it, may stand for. -/
structure TProgram.Sequential (p : TProgram) : Prop where
  names : (p.functions.map TFunction.name).Nodup
  tasks : p.tasks = 0
  floats : ∀ x ∈ p.floats, x ≠ -0.0

/-- The code of a procedure makes values of the lambdas in it. -/
theorem Tables.Holds.carries {t : Tables} {p : TProgram} {q : Procedure} {g : FunctionCode}
    {stop last : Nat} (h : t.Holds q g) (hids : t.ids = .ofProgram p) (hp : p.Sequential)
    (hq : q ∈ p.procedures) (hs : g.Counts 0 (stmtsOutline t.ids q.body.stmts).makes stop)
    (hnull : g.HasConst stop .null q.body.span last)
    (hret : g.Ends last .ret q.body.span g.code.size) :
    g.Carries (stmtsOutline t.ids q.body.stmts) q.first 0 stop := by
  obtain ⟨-, htasks, hfloats⟩ := TProgram.procedure_covered hq
  rw [← hids] at htasks hfloats
  have hall : g.Carries (stmtsOutline t.ids q.body.stmts) q.first 0 g.code.size := by
    refine ⟨g.made_all.trans h.made, Nat.eq_zero_of_le_zero (hp.tasks ▸ htasks),
      fun x hx y hy hyx => ?_⟩
    exact Float.eq_of_beq hyx (hp.floats y (hfloats (h.floats y hy))) (hp.floats x (hfloats hx))
  exact hall.before hs.1 ((Counts.const hnull).then hret rfl)

theorem Point.captures_start (b : Body) : (start b).captures = b.captures := by
  have h₀ : Fine ⟨b.captures, [[]], [], 0, 0⟩ := ⟨by simp, nofun, nofun, by simp⟩
  exact (extends_params b.params h₀).captures

variable {w : Evaluator} {t : Tables} {o : Running}

section

variable (ht : t.Numbered w.program w.module) (hp : w.program.Sequential)
  (hlooped : AllBodiesLooped w.program.bodies) (hreceived : AllBodiesReceived w.program.bodies)

include ht hp hlooped hreceived

/-- The code of a body carries out a call, where it does so with calls that have less fuel. -/
theorem realizes_call {n : Nat} (hcall : w.Undertakes o (w.call n) n) :
    w.Undertakes o (w.call (n + 1)) (n + 1) := by
  intro c q args b stack written s hq hc hargs henter hs
  obtain ⟨g, hg, -, hholds⟩ := ht.procedure c.function q hq
  obtain rfl : c.code = g := Option.some.inj (hc.symm.trans hg)
  have hmem : q ∈ w.program.procedures := List.mem_of_getElem? hq
  have hbody := (TProgram.procedure_covered hmem).1
  have hl := hlooped q.body hbody
  obtain ⟨b', henter', hm⟩ :=
    Frame.models_enter hholds.body c.function c.captured c.base c.box hargs
  rw [henter'] at henter
  cases henter
  obtain ⟨stop, hat, hw⟩ := hholds.body
  obtain ⟨last, hnull, hret⟩ := hw.tail
  have hcounts := counts_stmts (x := none) q.body.stmts hl hat
  have hk := hholds.carries ht.ids hp hmem hcounts hnull hret
  have hcaps : c.code.captures = (Point.start q.body).captures :=
    hw.captures.trans (Point.captures_start q.body).symm
  have hactivation :
      c.activation = ⟨q.name, q.body.captures, c.captured, c.callers.length + 1⟩ := by
    rw [Seat.activation, hholds.name, hw.captures]
  have hrun := realizes_stmts ht hcall hc (x := none) (H := .start q.body)
    (Point.fine_start q.body) hcaps nofun q.body.stmts hl (hreceived q.body hbody) hat hk hm hs
  rw [call, ← hactivation]
  refine hrun.bind fun a written s ha => ?_
  cases a with
  | normal env =>
    obtain ⟨b, -, hs⟩ := ha
    obtain ⟨k, s', hgoes, hs'⟩ :=
      (realizes_const ht hcall hc hnull hs fun d _ hd =>
        Constant.toValue_of_same hd (by simp)).exists_goes
    exact .value hgoes ⟨last, b, q.body.span, hs', hret.1⟩
  | returned v => exact .pure ha
  | broken env | continued env =>
    obtain ⟨e, -, he, -⟩ := ha
    cases he

/-- Whatever the fuel, each call is carried out. -/
theorem undertakes_call (fuel : Nat) : w.Undertakes o (w.call fuel) fuel := by
  induction fuel with
  | zero => exact fun c q args b stack written s _ _ _ _ _ => .fuel (.refl s) (Nat.zero_le 0)
  | succ n ih => exact realizes_call ht hp hlooped hreceived ih

end

end ScopedScript
