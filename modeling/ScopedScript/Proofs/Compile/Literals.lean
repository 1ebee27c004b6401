import ScopedScript.Proofs.Compile.Compiled
import ScopedScript.Proofs.Evaluation.Floats
import ScopedScript.Proofs.Machine.Reactions

/-!
# Literals and the pool of constants

The constants of a function are in a pool, where a literal shares the entry of any literal before it
that is equal. Equal integers, booleans and texts are the same; equal floats are the same but for
the two zeros. So a literal is loaded as it was written, whatever literals come before and after it,
with one exception: a zero is loaded with the sign of the first zero of its function.
-/

namespace ScopedScript

namespace Constant

/-- One is the positive and the other the negative zero. -/
def OtherZero (c d : Constant) : Prop :=
  c = .float 0.0 ∧ d = .float (-0.0) ∨ c = .float (-0.0) ∧ d = .float 0.0

/-- A constant stands for no other ones than the two zeros for each other. -/
theorem eq_or_otherZero {c d : Constant} (h : d.same c = true) : d = c ∨ d.OtherZero c := by
  cases c <;> cases d <;> simp only [same, Bool.false_eq_true, beq_iff_eq] at h
  case float.float x y =>
    rcases Float.eq_or_zeros h with rfl | ⟨rfl, rfl⟩ | ⟨rfl, rfl⟩
    · exact .inl rfl
    · exact .inr (.inl ⟨rfl, rfl⟩)
    · exact .inr (.inr ⟨rfl, rfl⟩)
  case null.null => exact .inl rfl
  all_goals exact .inl (h ▸ rfl)

/-- What a literal is found as in the pool. -/
def Interned (pool : Array Constant) (c : Constant) (index : Nat) : Prop :=
  ∃ d, pool[index]? = some d ∧ (d = c ∨ d.OtherZero c)

theorem Interned.extend {pool pool' : Array Constant} {c : Constant} {i : Nat}
    (h : Interned pool c i) (hp : pool.toList <+: pool'.toList) : Interned pool' c i := by
  obtain ⟨d, hd, hsame⟩ := h
  exact ⟨d, Emitter.getElem?_of_extends hp hd, hsame⟩

/-- The literals that stand in the tree as they are. -/
def ofKind? : TKind → Option Constant
  | .int n => some (.int n)
  | .float x => some (.float x)
  | .bool b => some (.bool b)
  | .string s => some (.string s)
  | .null => some .null
  | _ => none

end Constant

open Constant

namespace Emit

/-- A literal has an entry, and those before it keep theirs. -/
theorem internConstant_spec (c : Constant) (e : Emitter) :
    Interned (internConstant c e).2.fn.constants c (internConstant c e).1 ∧
      e.fn.constants.toList <+: (internConstant c e).2.fn.constants.toList := by
  rw [internConstant, modifyGet_apply]
  cases found : e.fn.constants.findIdx? fun d => d.same c with
  | some i =>
    obtain ⟨hlt, hsame, -⟩ := Array.findIdx?_eq_some_iff_getElem.1 found
    exact ⟨⟨_, Array.getElem?_eq_getElem hlt, eq_or_otherZero hsame⟩, List.prefix_rfl⟩
  | none =>
    refine ⟨⟨c, by simp, .inl rfl⟩, ?_⟩
    simp

/-- A negative zero has no entry of its own in a function that has the positive one before it; it is
loaded as that one. -/
theorem internConstant_negZero {e : Emitter} (hzero : .float 0.0 ∈ e.fn.constants)
    (hnew : .float (-0.0) ∉ e.fn.constants) :
    (internConstant (.float (-0.0)) e).2 = e ∧
      e.fn.constants[(internConstant (.float (-0.0)) e).1]? = some (.float 0.0) := by
  have equal : same (.float 0.0) (.float (-0.0)) = true := by decide
  have unchanged : (internConstant (.float (-0.0)) e).2 = e := by
    rw [internConstant, modifyGet_apply]
    cases found : e.fn.constants.findIdx? fun d => d.same (.float (-0.0)) with
    | some i => rfl
    | none =>
      have distinct := Array.findIdx?_eq_none_iff.1 found _ hzero
      rw [equal] at distinct
      cases distinct
  obtain ⟨⟨d, hd, hsame⟩, -⟩ := internConstant_spec (.float (-0.0)) e
  rw [unchanged] at hd
  have old : d ≠ .float (-0.0) := fun h => hnew (h ▸ Array.mem_of_getElem? hd)
  obtain rfl : d = .float 0.0 := by
    rcases hsame with h | ⟨h, -⟩ | ⟨h, -⟩
    · exact absurd h old
    · exact h
    · exact absurd h old
  exact ⟨unchanged, hd⟩

/-- Each of a sequence of literals is found at its index when all of them are in the pool. -/
theorem internConstants_spec (cs : List Constant) (e : Emitter) :
    List.Forall₂ (Interned (cs.mapM internConstant e).2.fn.constants) cs
        (cs.mapM internConstant e).1 ∧
      e.fn.constants.toList <+: (cs.mapM internConstant e).2.fn.constants.toList := by
  induction cs generalizing e with
  | nil => exact ⟨.nil, List.prefix_rfl⟩
  | cons c cs ih =>
    obtain ⟨first, kept⟩ := internConstant_spec c e
    obtain ⟨later, grown⟩ := ih (internConstant c e).2
    rw [List.mapM_cons]
    exact ⟨.cons (first.extend grown) later, kept.trans grown⟩

end Emit

variable {t : Tables} {p : Linked} {f : FunctionCode} {P : Point} {start stop : Nat} {s : Running}
  {fr : Frame} {callers : List Frame}

/-- Code that has a constant at an address loads it there, up to the sign of a zero. -/
theorem FunctionCode.HasConst.loads {c : Constant} {span : Option Span}
    (h : f.HasConst start c span stop) (hs : s.task.frames = fr :: callers) :
    ∃ i d, f.Ends start i span stop ∧ (d = c ∨ d.OtherZero c) ∧
      Exec.step p f i s = .ok .goOn (s.withStack (d.toValue :: s.task.stack)) := by
  obtain ⟨k, d, hd, hsame, hi⟩ := h
  refine ⟨.const k, d, hi, hsame.elim .inl eq_or_otherZero, ?_⟩
  have value : (Instr.const k).react? p f fr.captures [] = some ("", .value d.toValue) := by
    simp only [Instr.react?, hd]
  rw [Exec.step_react hs value rfl rfl, Running.writing_empty]
  rfl

/-- Where the code of a literal stands, it loads that literal, up to the sign of a zero. -/
theorem ExprAt.loads_literal {e : TExpr} {c : Constant} (h : ExprAt t f P start e stop)
    (hc : ofKind? e.kind = some c) (hs : s.task.frames = fr :: callers) :
    ∃ i d, f.Ends start i e.span stop ∧ (d = c ∨ d.OtherZero c) ∧
      Exec.step p f i s = .ok .goOn (s.withStack (d.toValue :: s.task.stack)) := by
  obtain ⟨kind, ty, span⟩ := e
  rw [ExprAt] at h
  cases kind <;> cases hc <;> rw [KindAt] at h <;> exact h.loads hs

end ScopedScript
