import ScopedScript.Typing.Program

/-!
# Steps of the checker that only report

Most steps of the checker read the environment and add to the errors. Whatever they find and report,
they leave everything else as it was.
-/

namespace ScopedScript

namespace Check

/-- The computation adds errors at most. -/
def Reports (x : Check α) : Prop :=
  ∀ env, ∃ errors, (x env).2 = { env with errors := env.errors ++ errors }

theorem Reports.pure (a : α) : Reports (Pure.pure a) :=
  fun env => ⟨#[], by rw [Array.append_empty]; rfl⟩

theorem Reports.bind {x : Check α} {y : α → Check β} (hx : Reports x) (hy : ∀ a, Reports (y a)) :
    Reports (x >>= y) := by
  intro env
  obtain ⟨as, ha⟩ := hx env
  obtain ⟨bs, hb⟩ := hy (x env).1 (x env).2
  have hrun : ((x >>= y) env).2 = (y (x env).1 (x env).2).2 := rfl
  refine ⟨as ++ bs, ?_⟩
  rw [hrun, hb, ha, Array.append_assoc]

theorem Reports.map {x : Check α} {g : α → β} (hx : Reports x) : Reports (g <$> x) := hx

theorem reports_reads {r : Env → α} : Reports (do return r (← get)) :=
  fun env => ⟨#[], by rw [Array.append_empty]; rfl⟩

theorem reports_report (cause : TypeCause) (span : Option Span) : Reports (report cause span) :=
  fun _ => ⟨#[⟨cause, span⟩], rfl⟩

theorem Reports.reported {x : Check α} {cause : TypeCause} {span : Option Span} (hx : Reports x) :
    Reports (report cause span >>= fun _ => x) := (reports_report _ _).bind fun _ => hx

theorem Reports.reportedIf {c : Prop} [Decidable c] {x : Unit → Check α} {cause : TypeCause}
    {span : Option Span} (hx : ∀ a, Reports (x a)) :
    Reports (if c then report cause span >>= x else x ()) := by
  split
  · exact (reports_report _ _).bind hx
  · exact hx ()

theorem Reports.mapM {g : α → Check β} (hg : ∀ a, Reports (g a)) (as : List α) :
    Reports (as.mapM g) := by
  induction as with
  | nil => exact .pure _
  | cons a rest ih =>
    rw [List.mapM_cons]
    exact (hg a).bind fun _ => ih.bind fun _ => .pure _

/-! ## Expressions -/

theorem reports_checkArity (callee : String) (params : List Ty) (found : Nat) (span : Option Span) :
    Reports (checkArity callee params found span) := by
  unfold checkArity
  split
  · exact .pure _
  · exact reports_report _ _

theorem reports_asyncSig? (name : String) : Reports (asyncSig? name) := by
  refine reports_reads.bind fun v => ?_
  split
  · exact .pure _
  · refine reports_reads.bind fun sig => ?_
    split
    · split <;> exact .pure _
    · exact .pure _

theorem reports_namedCallee? (callee : Expr) : Reports (namedCallee? callee) := by
  unfold namedCallee?
  split
  · refine reports_reads.bind fun v => ?_
    split
    · exact .pure _
    · refine reports_reads.bind fun sig => ?_
      split
      · exact .pure _
      · refine reports_reads.bind fun sig => ?_
        split <;> exact .pure _
  · exact .pure _

theorem reports_arithType (op : ArithOp) (l r : Ty) (span : Option Span) :
    Reports (arithType op l r span) := by
  have hreport {x : Check Unit} (hx : Reports x) : Reports (x >>= fun _ => Pure.pure Ty.any) :=
    hx.bind fun _ => .pure _
  unfold arithType
  split
  · exact .pure _
  · exact .pure _
  · exact .pure _
  · split
    · exact .pure _
    · split
      · exact .pure _
      · split
        · exact .pure _
        · split
          · exact hreport (reports_report _ _)
          · split <;> exact hreport (reports_report _ _)

theorem reports_binaryType (op : BinaryOp) (l r : Ty) (span : Option Span) :
    Reports (binaryType op l r span) := by
  cases op with
  | eq => exact .reportedIf fun _ => .pure _
  | ne => exact .reportedIf fun _ => .pure _
  | order o =>
    simp only [binaryType]
    split
    · exact .reported (.pure _)
    · exact .reportedIf fun _ => .pure _
  | arith a =>
    simp only [binaryType]
    split
    · exact .reported (.pure _)
    · exact reports_arithType a l r span

theorem reports_negationType (t : Ty) (span : Option Span) : Reports (negationType t span) := by
  unfold negationType
  split
  any_goals exact .pure _
  all_goals exact .reported (.pure _)

theorem reports_fieldType (object : Ty) (field : String) (span : Option Span) :
    Reports (fieldType object field span) := by
  unfold fieldType
  split
  · refine reports_reads.bind fun sig => ?_
    split
    · exact .pure _
    · exact .reported (.pure _)
  · exact .pure _
  all_goals exact .reported (.pure _)

theorem reports_awaitedType (t : Ty) (span : Option Span) : Reports (awaitedType t span) := by
  unfold awaitedType
  split
  · exact .pure _
  all_goals exact .reported (.pure _)

theorem reports_coerce {e : TExpr} {target : Ty} : Reports (coerce e target) := by
  unfold coerce
  split
  · exact .pure _
  · split
    · exact .reported (.pure _)
    · exact .pure _
    · exact .pure _
    · split
      · exact .reported (.pure _)
      · exact .pure _

theorem reports_castTo (value : TExpr) (target : Ty) (span : Option Span) :
    Reports (castTo value target span) := by
  unfold castTo
  split
  · exact .reported (.pure _)
  · split
    · exact .reported (.pure _)
    · exact .reportedIf fun _ => .pure _

mutual

theorem reports_checkTypeNames (span : Option Span) : (t : Ty) → Reports (checkTypeNames span t)
  | .struct name => by
    unfold checkTypeNames
    refine reports_reads.bind fun sig => ?_
    split
    · exact reports_report _ _
    · exact .pure _
  | .function params ret =>
    (reports_checkTypeNamesList span params).bind fun _ => reports_checkTypeNames span ret
  | .nullable inner => reports_checkTypeNames span inner
  | .task inner => reports_checkTypeNames span inner
  | .int | .float | .bool | .string | .void | .any | .null => .pure _

theorem reports_checkTypeNamesList (span : Option Span) : (ts : List Ty) →
    Reports (checkTypeNamesList span ts)
  | [] => .pure _
  | t :: rest => (reports_checkTypeNames span t).bind fun _ => reports_checkTypeNamesList span rest

end

theorem reports_resolveType (t : TypeExpr) (span : Option Span) : Reports (resolveType t span) :=
  (reports_checkTypeNames span _).bind fun _ => .pure _

theorem reports_resolveReturn (t : Option TypeExpr) (span : Option Span) :
    Reports (resolveReturn t span) := by
  cases t with
  | none => exact .pure _
  | some t => exact reports_resolveType t span

theorem reports_initSlot (struct : String) (sig : StructSig) (field : String) (value : TExpr)
    (span : Option Span) (slots : List (Option TExpr)) :
    Reports (initSlot struct sig field value span slots) := by
  unfold initSlot
  split
  · split
    · exact .reported (.pure _)
    · exact reports_coerce.bind fun _ => .pure _
  · exact .reported (.pure _)

theorem reports_fillSlots (struct : String) (span : Option Span) : (fields : List (String × Ty)) →
    (slots : List (Option TExpr)) → Reports (fillSlots struct span fields slots)
  | (_, _) :: fields, some _ :: slots =>
    (reports_fillSlots struct span fields slots).bind fun _ => .pure _
  | (_, _) :: fields, none :: slots =>
    .reported ((reports_fillSlots struct span fields slots).bind fun _ => .pure _)
  | [], _ => .pure _
  | _ :: _, [] => .pure _

/-! ## Statements -/

theorem reports_nullTest? (condition : Expr) : Reports (nullTest? condition) := by
  unfold nullTest?
  split
  · split
    · split
      · refine reports_reads.bind fun v => ?_
        split
        · split
          · exact .pure _
          · split <;> exact .pure _
        · exact .pure _
      · exact .pure _
    · exact .pure _
  · exact .pure _

theorem reports_requireLoop (keyword : String) (span : Option Span) :
    Reports (requireLoop keyword span) := by
  refine reports_reads.bind fun depth => ?_
  split
  · exact reports_report _ _
  · exact .pure _

theorem reports_declaredType (name : String) (stated : Option Ty) (value : Option TExpr)
    (span : Option Span) : Reports (declaredType name stated value span) := by
  unfold declaredType
  split
  · exact .pure _
  · split
    · exact .reported (.pure _)
    · exact .reported (.pure _)
    · exact .pure _
  · exact .reported (.pure _)

theorem reports_checkBindingWrite (name : String) (v : Var) (span : Option Span) :
    Reports (checkBindingWrite name v span) := by
  have hrest (allowed : Bool) : Reports (if !allowed then report (.immutable name v.declaredAt) span
      else Pure.pure ()) := by
    split
    · exact reports_report _ _
    · exact .pure _
  unfold checkBindingWrite
  split
  · exact hrest false
  · exact hrest false
  · exact hrest v.mutable
  · exact reports_reads.bind fun state => reports_reads.bind fun depth => hrest _

theorem reports_fieldPath (span : Option Span) : (fields : List String) → (ty : Ty) →
    Reports (fieldPath ty span fields)
  | [], _ => .pure _
  | field :: rest, ty => by
    unfold fieldPath
    split
    · refine reports_reads.bind fun sig => ?_
      split
      · exact (reports_fieldPath span rest _).bind fun _ => .pure _
      · exact .reported (.pure _)
    all_goals exact .reported (.pure _)

theorem reports_checkFieldWrite (name : String) (v : Var) (fields : List String)
    (span : Option Span) : Reports (checkFieldWrite name v fields span) :=
  .reportedIf fun _ => reports_reads.bind fun _ => .reportedIf fun _ =>
    reports_fieldPath span fields _

theorem reports_checkReturned (value : Option TExpr) (ret : Ty) (span : Option Span) :
    Reports (checkReturned value ret span) := by
  unfold checkReturned
  split
  · split
    · exact .reported (.pure _)
    · exact reports_coerce.map
  · exact .reportedIf fun _ => .pure _

theorem reports_pathEnd (falls : Bool) : Reports (pathEnd falls) :=
  reports_reads.bind fun _ => .pure _

end Check

end ScopedScript
