import ScopedScript.Proofs.Typing.Reporting

/-!
# Steps of the checker that declare nothing

Most steps of the checker read the environment and report errors. One that reports nothing leaves
the environment as it was, apart from what it has learnt about null, and gives a value as told by
the names of the program.
-/

namespace ScopedScript

namespace Check

/-- When the computation ends without errors, only the narrowings have changed. -/
def Quiet (x : Check α) (Q : Globals → α → Prop) : Prop :=
  ∀ env : Env, (x env).2.errors = #[] →
    (∃ n, (x env).2 = { env with narrowed := n }) ∧ Q env.globals (x env).1

variable {Q : Globals → α → Prop} {R : Globals → β → Prop}

theorem Quiet.pure {a : α} (h : ∀ g, Q g a) : Quiet (Pure.pure a) Q :=
  fun env _ => ⟨⟨env.narrowed, rfl⟩, h _⟩

theorem Quiet.bind {x : Check α} {y : α → Check β} (hx : Quiet x Q)
    (hy : ∀ a, Quiet (y a) fun g b => Q g a → R g b) : Quiet (x >>= y) R := by
  intro env he
  obtain ⟨⟨m, hm⟩, hr⟩ := hy (x env).1 (x env).2 he
  have hx := hx env
  have he₁ : (x env).2.errors = #[] := by
    have : ((x >>= y) env).2 = { (x env).2 with narrowed := m } := hm
    rw [this] at he
    exact he
  obtain ⟨⟨n, hn⟩, hq⟩ := hx he₁
  have hg : (x env).2.globals = env.globals := by rw [hn]
  refine ⟨⟨m, hm.trans (by rw [hn])⟩, ?_⟩
  rw [hg] at hr
  exact hr hq

theorem Quiet.weaken {x : Check α} {Q' : Globals → α → Prop} (hx : Quiet x Q)
    (h : ∀ g a, Q g a → Q' g a) : Quiet x Q' := fun env he =>
  ⟨(hx env he).1, h _ _ (hx env he).2⟩

theorem Quiet.map {x : Check α} {f : α → β} (hx : Quiet x Q) (h : ∀ g a, Q g a → R g (f a)) :
    Quiet (f <$> x) R := fun env he => ⟨(hx env he).1, h _ _ (hx env he).2⟩

/-- A computation whose value does not matter. -/
theorem Quiet.after {x : Check α} {y : α → Check β} (hx : Quiet x Q)
    (hy : ∀ a, Quiet (y a) R) : Quiet (x >>= y) R :=
  hx.bind fun a => (hy a).weaken fun _ _ h _ => h

/-- Nothing is said of a computation that reports an error. -/
theorem quiet_report {Q : Globals → Unit → Prop} (cause : TypeCause) (span : Option Span) :
    Quiet (report cause span) Q := by
  intro env he
  have : env.errors.push ⟨cause, span⟩ = #[] := he
  simp at this

theorem Quiet.failed {Q : Globals → α → Prop} {a : α} {cause : TypeCause} {span : Option Span} :
    Quiet (report cause span >>= fun _ => Pure.pure a) Q :=
  (quiet_report (Q := fun _ _ => False) _ _).bind fun _ => .pure fun _ h => h.elim

theorem Quiet.reported {x : Check α} {cause : TypeCause} {span : Option Span} (hx : Quiet x Q) :
    Quiet (report cause span >>= fun _ => x) Q :=
  (quiet_report (Q := fun _ _ => True) _ _).after fun _ => hx

theorem Quiet.reportedIf {c : Prop} [Decidable c] {x : Unit → Check α} {cause : TypeCause}
    {span : Option Span} (hx : ∀ a, Quiet (x a) Q) :
    Quiet (if c then report cause span >>= x else x ()) Q := by
  split
  · exact (quiet_report (Q := fun _ _ => True) _ _).after hx
  · exact hx ()

/-- A reader of the environment, whatever it reads. -/
theorem quiet_reads {r : Env → α} : Quiet (do return r (← get)) fun _ _ => True :=
  fun env _ => ⟨⟨env.narrowed, rfl⟩, trivial⟩

/-- A step that only reports, and reports nothing, changes nothing. -/
theorem Reports.quiet {x : Check α} (hx : Reports x) : Quiet x fun _ _ => True := by
  intro env he
  obtain ⟨errors, h⟩ := hx env
  rw [h] at he
  obtain ⟨-, rfl⟩ := Array.append_eq_empty_iff.1 he
  exact ⟨⟨env.narrowed, by rw [h, Array.append_empty]⟩, trivial⟩

theorem quiet_mapM {g : α → Check β} (hg : ∀ a, Quiet (g a) fun _ _ => True) (as : List α) :
    Quiet (as.mapM g) fun _ _ => True := by
  induction as with
  | nil => exact .pure fun _ => trivial
  | cons a rest ih =>
    rw [List.mapM_cons]
    exact (hg a).after fun _ => ih.after fun _ => .pure fun _ => trivial

theorem quiet_structSig? (name : String) :
    Quiet (structSig? name) fun g sig => sig = g.structs.lookup name :=
  fun env _ => ⟨⟨env.narrowed, rfl⟩, rfl⟩

theorem quiet_functionSig? (name : String) :
    Quiet (functionSig? name) fun g sig => sig = g.functions.lookup name :=
  fun env _ => ⟨⟨env.narrowed, rfl⟩, rfl⟩

/-- The signature is that of a function of the program. -/
theorem quiet_asyncSig? (name : String) : Quiet (asyncSig? name) fun g sig =>
    ∀ s, sig = some s → (g.functions.lookup name).isSome := by
  have hnone : Quiet (Pure.pure none) fun g (sig : Option Signature) =>
      ∀ s, sig = some s → (g.functions.lookup name).isSome := .pure fun _ s hs => by cases hs
  refine quiet_reads.after fun v => ?_
  split
  · exact hnone
  · refine (quiet_functionSig? name).bind fun sig => ?_
    split
    · rename_i sig
      exact .pure fun g hsig s _ => by rw [← hsig]; rfl
    · exact hnone.weaken fun _ _ h _ => h

/-- What a call by name calls is a function of the program, or a built-in. -/
theorem quiet_namedCallee? (callee : Expr) : Quiet (namedCallee? callee) fun g c =>
    ∀ target name sig, c = some (target, name, sig) →
      (target = .function name ∧ (g.functions.lookup name).isSome) ∨ target = .native name := by
  have hnone : Quiet (Pure.pure none) fun g (c : Option (Callee × String × Signature)) =>
      ∀ target name sig, c = some (target, name, sig) →
        (target = .function name ∧ (g.functions.lookup name).isSome) ∨ target = .native name :=
    .pure fun _ target name sig hs => by cases hs
  unfold namedCallee?
  split
  · rename_i name _
    refine quiet_reads.after fun v => ?_
    split
    · exact hnone
    · refine (quiet_functionSig? name).bind fun sig => ?_
      split
      · refine .pure fun g hsig target name sig hs => ?_
        cases hs
        exact .inl ⟨rfl, by rw [← hsig]; rfl⟩
      · refine Quiet.weaken (?_ : Quiet _ _) fun _ _ h _ => h
        refine quiet_reads.after fun sig => ?_
        split
        · refine .pure fun g target name sig hs => ?_
          cases hs
          exact .inr rfl
        · exact hnone
  · exact hnone

/-- The second expression is the first one, perhaps entering or leaving `any`. -/
inductive Coerced (e : TExpr) : TExpr → Prop
  | same : Coerced e e
  | boxed (ty : Ty) (span : Option Span) : Coerced e (.mk (.box e) ty span)
  | unboxed (ty : Ty) (span : Option Span) : Coerced e (.mk (.unbox e) ty span)

theorem quiet_coerce {e : TExpr} {target : Ty} :
    Quiet (coerce e target) fun _ e' => Coerced e e' := by
  unfold coerce
  split
  · exact .pure fun _ => .same
  · split
    · exact .reported (.pure fun _ => .same)
    · exact .pure fun _ => .unboxed _ _
    · exact .pure fun _ => .boxed _ _
    · split
      · exact .reported (.pure fun _ => .same)
      · exact .pure fun _ => .same

/-- Only primitive types are converted to. -/
theorem quiet_castTo (value : TExpr) (target : Ty) (span : Option Span) :
    Quiet (castTo value target span) fun _ e =>
      isPrimitive target = true ∧ e = .mk (.cast value) target span := by
  unfold castTo
  split
  · exact .failed
  · rename_i hp
    have h : Quiet (Pure.pure (TExpr.mk (.cast value) target span)) fun _ e =>
        isPrimitive target = true ∧ e = .mk (.cast value) target span :=
      .pure fun _ => ⟨by simpa using hp, rfl⟩
    split
    · exact .reported h
    · exact .reportedIf fun _ => h

theorem quiet_setNarrowings (n : List (Nat × Ty)) : Quiet (setNarrowings n) fun _ _ => True :=
  fun _ _ => ⟨⟨n, rfl⟩, trivial⟩

theorem quiet_narrow (id : Nat) (ty : Ty) : Quiet (narrow id ty) fun _ _ => True :=
  fun _ _ => ⟨⟨_, rfl⟩, trivial⟩

theorem quiet_narrowWhere (test : Option NullTest) (isNe : Bool) :
    Quiet (narrowWhere test isNe) fun _ _ => True := by
  unfold narrowWhere
  split
  · split
    · exact quiet_narrow _ _
    · exact .pure fun _ => trivial
  · exact .pure fun _ => trivial

/-- A path through fields is as long as it is written. -/
theorem quiet_fieldPath (span : Option Span) : (fields : List String) → (ty : Ty) →
    Quiet (fieldPath ty span fields) fun _ r => r.1.length = fields.length
  | [], _ => .pure fun _ => rfl
  | field :: rest, ty => by
    unfold fieldPath
    split
    · refine quiet_reads.after fun sig => ?_
      split
      · refine (quiet_fieldPath span rest _).bind fun r => .pure fun _ h => ?_
        exact congrArg (· + 1) h
      · exact .failed
    all_goals exact .failed

end Check

end ScopedScript
