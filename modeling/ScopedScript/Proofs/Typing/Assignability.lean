import ScopedScript.Typing.Coercion

/-!
# What may be stored where

Types that annotations give are without `null`, and what is nullable in them is neither nullable nor
`any` without its question mark. Between such types, the type of `null` and leaving out `any`, a
value may be stored where its own type is expected or the nullable form of it, and `null` where any
nullable type is: an order. The checker lets a value flow into a place when its type is below that
of the place, where all values but those of `void` may enter and leave `any`.
-/

namespace ScopedScript

namespace Ty

variable {a b c t : Ty}

theorem isNullable_iff : t.isNullable = true ↔ t = null ∨ ∃ inner, t = nullable inner := by
  cases t <;> simp [isNullable]

theorem ne_nullable (h : t.isNullable = false) (inner : Ty) : t ≠ nullable inner :=
  fun ht => by simp [ht, isNullable] at h

/-! ## Types of annotations -/

mutual

/-- The type is without that of `null`, and each `?` in it stands behind a type that is neither
nullable nor `any`. -/
def Collapsed : Ty → Prop
  | int | float | bool | string | void | any | struct _ => True
  | null => False
  | function params ret => AllCollapsed params ∧ ret.Collapsed
  | nullable inner => inner.Collapsed ∧ inner ≠ any ∧ inner.isNullable = false
  | task inner => inner.Collapsed

def AllCollapsed : List Ty → Prop
  | [] => True
  | t :: rest => t.Collapsed ∧ AllCollapsed rest

end

theorem ofExpr_nullable_of_ne {x : TypeExpr} (hany : ofExpr x ≠ any)
    (hnull : (ofExpr x).isNullable = false) : ofExpr (.nullable x) = nullable (ofExpr x) := by
  rw [ofExpr]
  split
  · next heq => simp [heq, isNullable] at hnull
  · next heq => exact absurd heq hany
  · rfl

mutual

theorem ofExpr_collapsed : (x : TypeExpr) → (ofExpr x).Collapsed
  | .int | .float | .bool | .string | .void | .any | .named _ => trivial
  | .function params ret => ⟨ofExprs_collapsed params, ofExpr_collapsed ret⟩
  | .task inner => ofExpr_collapsed inner
  | .nullable inner => by
    have h := ofExpr_collapsed inner
    rw [ofExpr]
    split
    · next heq => rwa [heq] at h
    · trivial
    · next hnullable hany =>
      refine ⟨h, hany, Bool.eq_false_iff.2 fun hnull => ?_⟩
      obtain hnone | ⟨t, ht⟩ := isNullable_iff.1 hnull
      · rwa [hnone] at h
      · exact hnullable t ht

theorem ofExprs_collapsed : (xs : List TypeExpr) → AllCollapsed (ofExprs xs)
  | [] => trivial
  | x :: rest => ⟨ofExpr_collapsed x, ofExprs_collapsed rest⟩

end

mutual

theorem Collapsed.exists_ofExpr : {t : Ty} → t.Collapsed → ∃ x, ofExpr x = t
  | int, _ => ⟨.int, rfl⟩
  | float, _ => ⟨.float, rfl⟩
  | bool, _ => ⟨.bool, rfl⟩
  | string, _ => ⟨.string, rfl⟩
  | void, _ => ⟨.void, rfl⟩
  | any, _ => ⟨.any, rfl⟩
  | struct name, _ => ⟨.named name, rfl⟩
  | function _ _, ⟨hparams, hret⟩ =>
    have ⟨xs, hxs⟩ := hparams.exists_ofExprs
    have ⟨x, hx⟩ := hret.exists_ofExpr
    ⟨.function xs x, by rw [ofExpr, hxs, hx]⟩
  | nullable _, ⟨hinner, hany, hnull⟩ =>
    have ⟨x, hx⟩ := hinner.exists_ofExpr
    ⟨.nullable x, by rw [ofExpr_nullable_of_ne (hx ▸ hany) (hx ▸ hnull), hx]⟩
  | task inner, hinner =>
    have ⟨x, hx⟩ := Collapsed.exists_ofExpr (t := inner) hinner
    ⟨.task x, by rw [ofExpr, hx]⟩

theorem AllCollapsed.exists_ofExprs : {ts : List Ty} → AllCollapsed ts → ∃ xs, ofExprs xs = ts
  | [], _ => ⟨[], rfl⟩
  | _ :: _, ⟨ht, hrest⟩ =>
    have ⟨x, hx⟩ := ht.exists_ofExpr
    have ⟨xs, hxs⟩ := hrest.exists_ofExprs
    ⟨x :: xs, by rw [ofExprs, hx, hxs]⟩

end

theorem collapsed_iff : t.Collapsed ↔ ∃ x, ofExpr x = t :=
  ⟨Collapsed.exists_ofExpr, fun ⟨x, hx⟩ => hx ▸ ofExpr_collapsed x⟩

/-! ## The order -/

theorem any_assignableTo (b : Ty) : any.assignableTo b = true := by
  rw [assignableTo]

theorem assignableTo_any (a : Ty) : a.assignableTo any = true := by
  cases a <;> rfl

theorem null_assignableTo_nullable (b : Ty) : null.assignableTo (nullable b) = true := rfl

theorem nullable_assignableTo_nullable (a b : Ty) :
    (nullable a).assignableTo (nullable b) = a.assignableTo b := rfl

theorem assignableTo_nullable (ha : a ≠ any) (hnull : a.isNullable = false) (b : Ty) :
    a.assignableTo (nullable b) = a.assignableTo b := by
  cases a with
  | any => exact absurd rfl ha
  | null | nullable _ => simp [isNullable] at hnull
  | _ => rfl

theorem assignableTo_iff_eq (ha : a ≠ any) (hb : b ≠ any) (hnull : ∀ inner, b ≠ nullable inner) :
    a.assignableTo b = true ↔ a = b := by
  cases b with
  | any => exact absurd rfl hb
  | nullable inner => exact absurd rfl (hnull inner)
  | _ =>
    cases a with
    | any => exact absurd rfl ha
    | _ => simp [assignableTo]

/-- A place for the values of a nullable type, `any` apart, is nullable itself. -/
theorem isNullable_of_assignableTo (h : a.assignableTo b = true) (hnull : a.isNullable = true)
    (hb : b ≠ any) : b.isNullable = true := by
  cases hplain : b.isNullable with
  | true => rfl
  | false =>
    have ha : a ≠ any := fun ha => by simp [ha, isNullable] at hnull
    obtain rfl := (assignableTo_iff_eq ha hb (ne_nullable hplain)).1 h
    exact hplain.symm.trans hnull

/-- The type is known before the program runs: it is not `any`, and an annotation gives it or it is
that of `null`. -/
def Static (t : Ty) : Prop := t ≠ any ∧ (t = null ∨ ∃ x, ofExpr x = t)

namespace Static

theorem inner (h : (nullable t).Static) : t ≠ any ∧ t.isNullable = false := by
  obtain ⟨-, hnone | hcollapsed⟩ := h
  · simp at hnone
  · exact (collapsed_iff.2 hcollapsed).2

/-- A value may be stored where its type is expected or the nullable form of it, and `null` where
any nullable type is. -/
theorem assignableTo_iff (ha : a.Static) (hb : b.Static) :
    a.assignableTo b = true ↔ a = b ∨ b = nullable a ∨ a = null ∧ ∃ t, b = nullable t := by
  by_cases hnullable : ∃ t, b = nullable t
  · obtain ⟨t, rfl⟩ := hnullable
    -- the inner type is neither `any` nor nullable, so that only itself is assignable to it
    obtain ⟨hany, hplain⟩ := hb.inner
    have hne := ne_nullable hplain
    cases hnull : a.isNullable with
    | true =>
      obtain rfl | ⟨s, rfl⟩ := isNullable_iff.1 hnull
      · exact iff_of_true rfl (.inr (.inr ⟨rfl, t, rfl⟩))
      · rw [nullable_assignableTo_nullable, assignableTo_iff_eq ha.inner.1 hany hne]
        simp [hne]
    | false =>
      rw [assignableTo_nullable ha.1 hnull, assignableTo_iff_eq ha.1 hany hne]
      have hnone : a ≠ null := fun h => by simp [h, isNullable] at hnull
      simp [hnone, ne_nullable hnull, eq_comm]
  · rw [assignableTo_iff_eq ha.1 hb.1 (not_exists.1 hnullable)]
    have hne : b ≠ nullable a := not_exists.1 hnullable a
    simp [hnullable, hne]

theorem eq_or_nullable (ha : a.Static) (hb : b.Static) (h : a.assignableTo b = true) :
    a = b ∨ ∃ t, b = nullable t :=
  ((ha.assignableTo_iff hb).1 h).imp_right fun h => h.elim (fun h => ⟨a, h⟩) And.right

/-- Nothing is above a nullable type. -/
theorem eq_of_nullable_assignableTo (ha : (nullable t).Static) (hb : b.Static)
    (h : (nullable t).assignableTo b = true) : nullable t = b := by
  obtain h | rfl | ⟨h, -⟩ := (ha.assignableTo_iff hb).1 h
  · exact h
  · simpa [isNullable] using hb.inner.2
  · simp at h

theorem assignableTo_trans (ha : a.Static) (hb : b.Static) (hc : c.Static)
    (hab : a.assignableTo b = true) (hbc : b.assignableTo c = true) : a.assignableTo c = true := by
  obtain rfl | ⟨t, rfl⟩ := ha.eq_or_nullable hb hab
  · exact hbc
  · rwa [← hb.eq_of_nullable_assignableTo hc hbc]

theorem assignableTo_antisymm (ha : a.Static) (hb : b.Static) (hab : a.assignableTo b = true)
    (hba : b.assignableTo a = true) : a = b := by
  obtain h | ⟨t, rfl⟩ := ha.eq_or_nullable hb hab
  · exact h
  · exact (hb.eq_of_nullable_assignableTo ha hba).symm

end Static

end Ty

/-! ## Values flowing into places -/

theorem TExpr.ne_mk {e : TExpr} {kind : TKind} (h : sizeOf e < sizeOf kind) (t : Ty)
    (span : Option Span) : e ≠ .mk kind t span := by
  intro heq
  have hsize : sizeOf e = sizeOf (TExpr.mk kind t span) := congrArg sizeOf heq
  rw [TExpr.mk.sizeOf_spec] at hsize
  omega

theorem TExpr.ne_box (e : TExpr) (t : Ty) (span : Option Span) : e ≠ .mk (.box e) t span :=
  ne_mk (by simp) t span

theorem TExpr.ne_unbox (e : TExpr) (t : Ty) (span : Option Span) : e ≠ .mk (.unbox e) t span :=
  ne_mk (by simp) t span

theorem misfit?_eq_none_iff {found target : Ty} (h : target ≠ .any) :
    misfit? found target = none ↔ found.assignableTo target = true := by
  unfold misfit?
  split
  · next hnull =>
    rw [Bool.and_eq_true, Bool.not_eq_true'] at hnull
    -- what is refused for being nullable is not assignable either
    have hplain : ¬found.assignableTo target = true := fun hassignable => by
      rw [Ty.isNullable_of_assignableTo hassignable hnull.1 h] at hnull
      exact absurd hnull.2 nofun
    exact iff_of_false nofun hplain
  · split <;> simp [*]

namespace Check

/-- How an expression flows into a place of type `target`: what becomes of it, and what is reported.
-/
inductive Entry (e : TExpr) (target : Ty) : TExpr → Option TypeCause → Prop
  | same (h : e.ty = target) : Entry e target e none
  | void (h : e.ty = .void) (hne : target ≠ .void) :
    Entry e target e (some (.mismatch target .void))
  | unboxed (h : e.ty = .any) (hne : target ≠ .any) :
    Entry e target (.mk (.unbox e) target e.span) none
  | boxed (h : target = .any) (hany : e.ty ≠ .any) (hvoid : e.ty ≠ .void) :
    Entry e target (.mk (.box e) .any e.span) none
  | plain (hne : e.ty ≠ target) (hvoid : e.ty ≠ .void) (hany : e.ty ≠ .any)
    (htarget : target ≠ .any) : Entry e target e (misfit? e.ty target)

theorem coerce_entry (e : TExpr) (target : Ty) : ∃ e' cause, Entry e target e' cause ∧
    coerce e target = (do cause.forM fun cause => report cause e.span; return e') := by
  unfold coerce
  split
  · next h => exact ⟨e, none, .same h, rfl⟩
  · next hne =>
    split
    · next h => exact ⟨e, _, .void h (h ▸ Ne.symm hne), rfl⟩
    · next h => exact ⟨_, none, .unboxed h (h ▸ Ne.symm hne), rfl⟩
    · next hvoid hany => exact ⟨_, none, .boxed rfl hne hvoid, rfl⟩
    · next htarget hvoid hany =>
      refine ⟨e, _, .plain hne hvoid hany htarget, ?_⟩
      split
      · next h => rw [h]; rfl
      · next h => rw [h]; rfl

namespace Entry

variable {e e' : TExpr} {target : Ty} {cause : Option TypeCause}

theorem accepted_iff (h : Entry e target e' cause) :
    cause = none ↔ e.ty = target ∨ e.ty ≠ .void ∧ e.ty.assignableTo target = true := by
  cases h with
  | same h => exact iff_of_true rfl (.inl h)
  | void h hne => exact iff_of_false nofun (by simp [h, Ne.symm hne])
  | unboxed h hne => exact iff_of_true rfl (.inr (by simp [h, Ty.any_assignableTo]))
  | boxed h hany hvoid => exact iff_of_true rfl (.inr ⟨hvoid, h ▸ Ty.assignableTo_any _⟩)
  | plain hne hvoid hany htarget =>
    rw [misfit?_eq_none_iff htarget, or_iff_right hne, and_iff_right hvoid]

theorem boxes_iff (h : Entry e target e' cause) :
    e' = .mk (.box e) .any e.span ↔ target = .any ∧ e.ty ≠ .any ∧ e.ty ≠ .void := by
  cases h with
  | same h => exact iff_of_false (e.ne_box _ _) fun ⟨ht, hany, _⟩ => hany (h.trans ht)
  | void h hne => exact iff_of_false (e.ne_box _ _) fun ⟨_, _, hvoid⟩ => hvoid h
  | unboxed h hne => exact iff_of_false nofun fun ⟨ht, _, _⟩ => hne ht
  | boxed h hany hvoid => exact iff_of_true rfl ⟨h, hany, hvoid⟩
  | plain hne hvoid hany htarget => exact iff_of_false (e.ne_box _ _) fun ⟨ht, _, _⟩ => htarget ht

theorem unboxes_iff (h : Entry e target e' cause) :
    e' = .mk (.unbox e) target e.span ↔ e.ty = .any ∧ target ≠ .any := by
  cases h with
  | same h => exact iff_of_false (e.ne_unbox _ _) fun ⟨hany, ht⟩ => ht (h.symm.trans hany)
  | void h hne => exact iff_of_false (e.ne_unbox _ _) fun ⟨hany, _⟩ => by simp [h] at hany
  | unboxed h hne => exact iff_of_true rfl ⟨h, hne⟩
  | boxed h hany hvoid => exact iff_of_false nofun fun ⟨_, ht⟩ => ht h
  | plain hne hvoid hany htarget => exact iff_of_false (e.ne_unbox _ _) fun ⟨h, _⟩ => hany h

theorem same_iff (h : Entry e target e' cause) :
    e' = e ↔ ¬(target = .any ∧ e.ty ≠ .any ∧ e.ty ≠ .void) ∧ ¬(e.ty = .any ∧ target ≠ .any) := by
  rw [← h.boxes_iff, ← h.unboxes_iff]
  cases h with
  | unboxed h hne => exact iff_of_false (e.ne_unbox _ _).symm fun ⟨_, hunboxes⟩ => hunboxes rfl
  | boxed h hany hvoid => exact iff_of_false (e.ne_box _ _).symm fun ⟨hboxes, _⟩ => hboxes rfl
  | _ => exact iff_of_true rfl ⟨e.ne_box _ _, e.ne_unbox _ _⟩

end Entry

/-- Nothing is reported when nothing is wrong, and only then. -/
theorem errors_forM_report_eq_iff (cause : Option TypeCause) (span : Option Span) (env : Env) :
    (cause.forM (fun cause => report cause span) env).2.errors = env.errors ↔ cause = none := by
  cases cause with
  | none => exact iff_of_true rfl rfl
  | some cause => exact iff_of_false Array.push_ne_self nofun

theorem coerce_run (e : TExpr) (target : Ty) (env : Env) : ∃ cause,
    Entry e target (coerce e target env).1 cause ∧
      ((coerce e target env).2.errors = env.errors ↔ cause = none) := by
  obtain ⟨e', cause, hentry, heq⟩ := coerce_entry e target
  rw [heq]
  exact ⟨cause, hentry, errors_forM_report_eq_iff cause e.span env⟩

end Check

/-- The checker has nothing to say against a value in a place when the types are the same, or when
the value is not of `void` and its type is assignable to that of the place. A value other than of
`void` is put into a box where it enters `any` and taken out where it leaves it, and is left as it
is everywhere else. The types of annotations are those in which no nullable type stands around a
nullable one or `any`; with that of `null`, and without `any` itself, assignability orders them. -/
theorem Ty.coercion_follows_order :
    (∀ (e : TExpr) (target : Ty) (env : Env),
      ((Check.coerce e target env).2.errors = env.errors ↔
        e.ty = target ∨ e.ty ≠ .void ∧ e.ty.assignableTo target = true) ∧
      ((Check.coerce e target env).1 = .mk (.box e) .any e.span ↔
        target = .any ∧ e.ty ≠ .any ∧ e.ty ≠ .void) ∧
      ((Check.coerce e target env).1 = .mk (.unbox e) target e.span ↔ e.ty = .any ∧ target ≠ .any) ∧
      ((Check.coerce e target env).1 = e ↔
        ¬(target = .any ∧ e.ty ≠ .any ∧ e.ty ≠ .void) ∧ ¬(e.ty = .any ∧ target ≠ .any))) ∧
    (∀ t : Ty, (∃ x, ofExpr x = t) ↔ t.Collapsed) ∧
    (∀ a : Ty, a.Static → a.assignableTo a = true) ∧
    (∀ a b c : Ty, a.Static → b.Static → c.Static → a.assignableTo b = true →
      b.assignableTo c = true → a.assignableTo c = true) ∧
    ∀ a b : Ty, a.Static → b.Static → a.assignableTo b = true →
    b.assignableTo a = true → a = b := by
  refine ⟨fun e target env => ?coerced, fun t => collapsed_iff.symm, fun a ha => ?refl,
    ?trans, ?antisymm⟩
  case coerced =>
    obtain ⟨cause, hentry, hreported⟩ := Check.coerce_run e target env
    exact ⟨hreported.trans hentry.accepted_iff, hentry.boxes_iff, hentry.unboxes_iff,
      hentry.same_iff⟩
  case refl => exact (ha.assignableTo_iff ha).2 (.inl rfl)
  case trans => exact fun _ _ _ ha hb hc => ha.assignableTo_trans hb hc
  case antisymm => exact fun _ _ ha hb => ha.assignableTo_antisymm hb

/-- From `null` to an optional task and no way back. -/
theorem Ty.null_below_optional :
    Static null ∧ Static (nullable (task string)) ∧
    null.assignableTo (nullable (task string)) = true ∧
      (nullable (task string)).assignableTo null = false ∧
      (Check.coerce (.mk .null null none) (nullable (task string))
        ⟨⟨[], [], []⟩, [], #[], [], [], 0⟩).2.errors = #[] := by
  obtain ⟨hcoerce, hannotated, hrefl, htrans, hantisymm⟩ := coercion_follows_order
  have hnull : Static null := ⟨by simp, .inl rfl⟩
  have hoptional : Static (nullable (task string)) :=
    ⟨by simp, .inr ((hannotated _).2 (by simp [Collapsed, isNullable]))⟩
  have hbelow : null.assignableTo (nullable (task string)) = true :=
    htrans _ _ _ hnull hnull hoptional (hrefl _ hnull) (null_assignableTo_nullable _)
  refine ⟨hnull, hoptional, hbelow, ?_, (hcoerce _ _ _).1.2 (.inr ⟨by simp, hbelow⟩)⟩
  exact Bool.eq_false_iff.2 fun habove => by simpa using hantisymm _ _ hnull hoptional hbelow habove

/-- Through `any` every type is assignable to every other, but not at once. -/
example : Ty.int.assignableTo .any = true ∧ Ty.any.assignableTo .string = true ∧
    Ty.int.assignableTo .string = false := by decide

end ScopedScript
