import ScopedScript.Proofs.Typing.Restoring

/-!
# Leaving loops

A `break` or `continue` of a checked program stands inside a loop of its own function.
-/

namespace ScopedScript

mutual

/-- Every `break` and `continue` belongs to a loop, which may be one around the statement. -/
def TStmt.Looped (inLoop : Bool) : TStmt → Prop
  | .branch _ thenBlock elifs elseBlock _ =>
    AllLooped inLoop thenBlock ∧ ElifsLooped inLoop elifs ∧ ElseLooped inLoop elseBlock
  | .loop _ body _ => AllLooped true body
  | .block body _ => AllLooped inLoop body
  | .breakLoop _ | .continueLoop _ => inLoop = true
  | .declare _ _ _ _ _ | .assign _ _ _ | .ret _ _ | .free _ _ | .collect _ | .yieldNow _
  | .eval _ _ => True

def AllLooped (inLoop : Bool) : List TStmt → Prop
  | [] => True
  | s :: rest => s.Looped inLoop ∧ AllLooped inLoop rest

def ElifsLooped (inLoop : Bool) : List (TExpr × List TStmt) → Prop
  | [] => True
  | (_, body) :: rest => AllLooped inLoop body ∧ ElifsLooped inLoop rest

def ElseLooped (inLoop : Bool) : Option (List TStmt) → Prop
  | none => True
  | some body => AllLooped inLoop body

end

mutual

theorem TStmt.Looped.inside {inLoop : Bool} : (s : TStmt) → s.Looped inLoop → s.Looped true
  | .branch _ thenBlock elifs elseBlock _, h =>
    ⟨AllLooped.inside thenBlock h.1, ElifsLooped.inside elifs h.2.1,
      ElseLooped.inside elseBlock h.2.2⟩
  | .loop _ _ _, h => h
  | .block body _, h => AllLooped.inside body h
  | .breakLoop _, _ | .continueLoop _, _ => rfl
  | .declare _ _ _ _ _, _ | .assign _ _ _, _ | .ret _ _, _ | .free _ _, _ | .collect _, _
  | .yieldNow _, _ | .eval _ _, _ => trivial

theorem AllLooped.inside {inLoop : Bool} : (ss : List TStmt) → AllLooped inLoop ss →
    AllLooped true ss
  | [], _ => trivial
  | s :: rest, h => ⟨TStmt.Looped.inside s h.1, AllLooped.inside rest h.2⟩

theorem ElifsLooped.inside {inLoop : Bool} : (elifs : List (TExpr × List TStmt)) →
    ElifsLooped inLoop elifs → ElifsLooped true elifs
  | [], _ => trivial
  | (_, body) :: rest, h => ⟨AllLooped.inside body h.1, ElifsLooped.inside rest h.2⟩

theorem ElseLooped.inside {inLoop : Bool} : (elseBlock : Option (List TStmt)) →
    ElseLooped inLoop elseBlock → ElseLooped true elseBlock
  | none, _ => trivial
  | some body, h => AllLooped.inside body h

end

/-- The bodies leave no loop that is not their own. -/
def AllBodiesLooped (bodies : List Body) : Prop := ∀ b ∈ bodies, AllLooped false b.stmts

@[simp]
theorem allBodiesLooped_append {as bs : List Body} :
    AllBodiesLooped (as ++ bs) ↔ AllBodiesLooped as ∧ AllBodiesLooped bs :=
  List.forall_mem_append

/-- How deep in loops each of the functions being checked stands, innermost first. -/
def Env.depths (env : Env) : List Nat := env.contexts.map FnContext.loopDepth

namespace Check

/-- A computation that ends without errors started without any, and gives a value as told by how
deep in loops the function being checked stands. All functions stay as deep, up to `f`. -/
def Moves (f : List Nat → List Nat) (x : Check α) (Q : Nat → α → Prop) : Prop :=
  ∀ env : Env, (x env).2.errors = #[] →
    env.errors = #[] ∧ (x env).2.depths = f env.depths ∧ Q (env.depths.headD 0) (x env).1

/-- As `Moves`, with every function as deep in loops as before. -/
abbrev Steady (x : Check α) (Q : Nat → α → Prop) : Prop := Moves id x Q

variable {f : List Nat → List Nat} {Q : Nat → α → Prop} {R : Nat → β → Prop}

theorem Moves.pure {a : α} (h : ∀ depth, Q depth a) : Steady (Pure.pure a) Q :=
  fun _ he => ⟨he, rfl, h _⟩

theorem Moves.bind {x : Check α} {y : α → Check β} (hx : Steady x Q)
    (hy : ∀ a, Moves f (y a) fun depth b => Q depth a → R depth b) : Moves f (x >>= y) R := by
  intro env he
  obtain ⟨he₁, hd₁, hr⟩ := hy (x env).1 (x env).2 he
  obtain ⟨he₀, hd₀, hq⟩ := hx env he₁
  rw [hd₀] at hd₁ hr
  exact ⟨he₀, hd₁, hr hq⟩

theorem Moves.weaken {x : Check α} {Q' : Nat → α → Prop} (hx : Moves f x Q)
    (h : ∀ depth a, Q depth a → Q' depth a) : Moves f x Q' := by
  intro env he
  obtain ⟨he₀, hd, hq⟩ := hx env he
  exact ⟨he₀, hd, h _ _ hq⟩

theorem Moves.map {x : Check α} {g : α → β} (hx : Steady x Q)
    (h : ∀ depth a, Q depth a → R depth (g a)) : Steady (g <$> x) R := by
  intro env he
  obtain ⟨he₀, hd, hq⟩ := hx env he
  exact ⟨he₀, hd, h _ _ hq⟩

/-- With what else is known of the value. -/
theorem Moves.knowing {x : Check α} {q : α → Prop} (hx : Moves f x Q)
    (hq : ∀ env, (x env).2.errors = #[] → q (x env).1) : Moves f x fun depth a =>
      Q depth a ∧ q a := by
  intro env he
  obtain ⟨he₀, hd, h⟩ := hx env he
  exact ⟨he₀, hd, h, hq env he⟩

/-- A computation whose value does not matter. -/
theorem Moves.after {x : Check α} {y : α → Check β} (hx : Steady x Q)
    (hy : ∀ a, Moves f (y a) R) : Moves f (x >>= y) R :=
  hx.bind fun a => (hy a).weaken fun _ _ h _ => h

/-- Nothing is said of a computation that reports an error. -/
theorem steady_report {Q : Nat → Unit → Prop} (cause : TypeCause) (span : Option Span) :
    Steady (report cause span) Q := by
  intro env he
  have : env.errors.push ⟨cause, span⟩ = #[] := he
  simp at this

theorem Moves.reported {x : Check α} {cause : TypeCause} {span : Option Span} (hx : Moves f x Q) :
    Moves f (report cause span >>= fun _ => x) Q :=
  (steady_report (Q := fun _ _ => True) _ _).after fun _ => hx

theorem Moves.reportedIf {c : Prop} [Decidable c] {x : Unit → Check α} {cause : TypeCause}
    {span : Option Span} (hx : ∀ a, Moves f (x a) Q) :
    Moves f (if c then report cause span >>= x else x ()) Q := by
  split
  · exact (steady_report (Q := fun _ _ => True) _ _).after hx
  · exact hx ()

/-- Nothing is said of a computation that reports an error first. -/
theorem Moves.unless {c : Prop} [Decidable c] {x : Unit → Check α} {cause : TypeCause}
    {span : Option Span} (hx : ∀ a, Moves f (x a) fun depth b => ¬c → Q depth b) :
    Moves f (if c then report cause span >>= x else x ()) Q := by
  split
  · exact (steady_report (Q := fun _ _ => False) cause span).bind fun a =>
      (hx a).weaken fun _ _ _ h => h.elim
  · rename_i hc
    exact (hx ()).weaken fun _ _ h => h hc

theorem steady_modify {g : Env → Env} (he : ∀ env, (g env).errors = env.errors)
    (hd : ∀ env, (g env).depths = env.depths) : Steady (modify g) fun _ _ => True := by
  intro env h
  rw [← he env]
  exact ⟨h, hd env, trivial⟩

theorem steady_reads {r : Env → α} : Steady (do return r (← get)) fun _ _ => True :=
  fun _ he => ⟨he, rfl, trivial⟩

theorem Restores.steady {x : Check α} (hx : Restores Declared (fun _ => True) x) :
    Steady x fun _ _ => True := by
  intro env he
  obtain ⟨hr, -⟩ := hx env trivial
  have hnone := hr.errors
  rw [he] at hnone
  exact ⟨Array.toList_eq_nil_iff.1 (List.prefix_nil.1 hnone), hr.contexts.depths, trivial⟩

theorem Reports.steady {x : Check α} (hx : Reports x) : Steady x fun _ _ => True :=
  hx.restores.steady

theorem steady_loopDepth : Steady loopDepth fun depth a => a = depth := by
  intro env he
  refine ⟨he, rfl, ?_⟩
  change (env.contexts.head?.map FnContext.loopDepth).getD 0 = (env.contexts.map _).headD 0
  rw [List.headD_eq_head?_getD, List.head?_map]

theorem steady_modifyContext {g : FnContext → FnContext} (hg : ∀ c, (g c).loopDepth = c.loopDepth) :
    Steady (modifyContext g) fun _ _ => True := by
  refine steady_modify (fun env => ?_) fun env => ?_
  · split <;> rfl
  · unfold Env.depths
    split
    · rfl
    · rename_i c outer hc
      simp [hc, hg]

/-- A function starts outside of all loops. -/
theorem Moves.entered {x : Check α} {P : α → Prop} {ret : Ty} {isAsync : Bool}
    (hx : Moves List.tail x fun depth a => depth = 0 → P a) :
    Steady (enterFunction ret isAsync >>= fun _ => x) fun _ => P := by
  intro env he
  obtain ⟨he, hd, h⟩ := hx { env with contexts := ⟨ret, isAsync, [[]], 0, []⟩ :: env.contexts } he
  exact ⟨he, hd, h rfl⟩

theorem Moves.exited {g : List String → β} (h : ∀ depth captures, R depth (g captures)) :
    Moves List.tail (exitFunction >>= fun captures => Pure.pure (g captures)) R := by
  intro env he
  obtain ⟨globals, contexts, errors, init, narrowed, nextId⟩ := env
  cases contexts with
  | nil => exact ⟨he, rfl, h _ _⟩
  | cons c outer => exact ⟨he, rfl, h _ _⟩

/-- What is checked between entering and leaving a loop is checked at some depth. -/
theorem Moves.inLoop {x : Check α} {y : α → Check β} (hx : Steady x Q)
    (hy : ∀ a, Steady (y a) fun depth b => (∃ d, Q d a) → R depth b) :
    Steady (enterLoop >>= fun _ => x >>= fun a => exitLoop >>= fun _ => y a) R := by
  have hexit (env : Env) : (exitLoop env).2.errors = env.errors ∧
      (exitLoop env).2.depths = env.depths.modifyHead (· - 1) := by
    obtain ⟨globals, contexts, errors, init, narrowed, nextId⟩ := env
    cases contexts <;> exact ⟨rfl, rfl⟩
  have henter (env : Env) : (enterLoop env).2.errors = env.errors ∧
      (enterLoop env).2.depths = env.depths.modifyHead (· + 1) := by
    obtain ⟨globals, contexts, errors, init, narrowed, nextId⟩ := env
    cases contexts <;> exact ⟨rfl, rfl⟩
  intro env he
  have hinner := hy (x (enterLoop env).2).1 (exitLoop (x (enterLoop env).2).2).2 he
  obtain ⟨he₂, hd₂, hr⟩ := hinner
  rw [(hexit _).1] at he₂
  obtain ⟨he₁, hd₁, hq⟩ := hx _ he₂
  rw [(henter env).1] at he₁
  rw [id_eq, (henter env).2] at hd₁
  rw [(hexit _).2, hd₁] at hd₂ hr
  have hback : (env.depths.modifyHead (· + 1)).modifyHead (· - 1) = env.depths := by
    cases env.depths <;> rfl
  rw [hback] at hd₂ hr
  exact ⟨he₁, hd₂, hr ⟨_, hq⟩⟩

/-! The steps of the checker, apart from the trees that they go through. -/

theorem steady_checkName (name : String) (span : Option Span) :
    Steady (checkName name span) fun _ e => exprBodies e = [] := by
  refine (restores_lookup name).declaring.steady.after fun v => ?_
  split
  · rename_i v
    refine steady_reads.after fun state => ?_
    have hrest : Steady (narrowedType? v.id >>= fun ty =>
        Pure.pure (TExpr.mk (.binding name) (ty.getD v.ty) span)) fun _ e => exprBodies e = [] :=
      steady_reads.after fun _ => .pure fun _ => rfl
    split
    · exact hrest
    · exact .reported hrest
    · exact .reported hrest
  · refine steady_reads.after fun sig => ?_
    split
    · exact .reportedIf fun _ => .pure fun _ => rfl
    · refine steady_reads.after fun sig => ?_
      split
      · exact .pure fun _ => rfl
      · exact .reported (.pure fun _ => rfl)

/-- Boxing and unboxing keep the lambdas of a tree. -/
theorem steady_coerce {e : TExpr} {target : Ty} :
    Steady (coerce e target) fun _ e' => exprBodies e' = exprBodies e := by
  unfold coerce
  split
  · exact .pure fun _ => rfl
  · split
    · exact .reported (.pure fun _ => rfl)
    · exact .pure fun _ => rfl
    · exact .pure fun _ => rfl
    · split
      · exact .reported (.pure fun _ => rfl)
      · exact .pure fun _ => rfl

theorem steady_castTo (value : TExpr) (target : Ty) (span : Option Span) :
    Steady (castTo value target span) fun _ e => exprBodies e ⊆ exprBodies value := by
  unfold castTo
  split
  · exact .reported (.pure fun _ => List.nil_subset _)
  · split
    · exact .reported (.pure fun _ => List.Subset.refl _)
    · exact .reportedIf fun _ => .pure fun _ => List.Subset.refl _

/-! Struct initializers. -/

/-- The bodies of a value that may be missing. -/
def valueBodies : Option TExpr → List Body
  | none => []
  | some e => exprBodies e

theorem steady_initSlot (struct : String) (sig : StructSig) (field : String) (value : TExpr)
    (span : Option Span) (slots : List (Option TExpr)) :
    Steady (initSlot struct sig field value span slots) fun _ slots' =>
      slots'.flatMap valueBodies ⊆ slots.flatMap valueBodies ++ exprBodies value := by
  unfold initSlot
  split
  · split
    · exact .reported (.pure fun _ => List.subset_append_left _ _)
    · refine steady_coerce.bind fun value' => .pure fun _ hv b hb => ?_
      obtain ⟨v, hmem, hb⟩ := List.mem_flatMap.1 hb
      rcases List.mem_or_eq_of_mem_set hmem with hmem | rfl
      · exact List.mem_append_left _ (List.mem_flatMap.2 ⟨v, hmem, hb⟩)
      · exact List.mem_append_right _ (hv ▸ hb)
  · exact .reported (.pure fun _ => List.subset_append_left _ _)

theorem steady_fillSlots (struct : String) (span : Option Span) : (fields : List (String × Ty)) →
    (slots : List (Option TExpr)) → Steady (fillSlots struct span fields slots) fun _ values =>
      exprsBodies values ⊆ slots.flatMap valueBodies
  | (_, _) :: fields, some _ :: slots =>
    (steady_fillSlots struct span fields slots).bind fun _ => .pure fun _ h =>
      List.append_subset.2 ⟨List.subset_append_left _ _, List.subset_append_of_subset_right _ h⟩
  | (_, _) :: fields, none :: slots =>
    .reported ((steady_fillSlots struct span fields slots).bind fun _ => .pure fun _ h => h)
  | [], _ => .pure fun _ => List.nil_subset _
  | _ :: _, [] => .pure fun _ => List.nil_subset _

/-! Statements, apart from what they contain. -/

theorem steady_narrow (id : Nat) (ty : Ty) : Steady (narrow id ty) fun _ _ => True :=
  steady_modify (fun _ => rfl) fun _ => rfl

theorem Moves.narrowingIf {c : Prop} [Decidable c] {x : Unit → Check α} {id : Nat} {ty : Ty}
    (hx : ∀ a, Moves f (x a) Q) : Moves f (if c then narrow id ty >>= x else x ()) Q := by
  split
  · exact (steady_narrow _ _).after hx
  · exact hx ()

theorem steady_narrowWhere (test : Option NullTest) (isNe : Bool) :
    Steady (narrowWhere test isNe) fun _ _ => True := by
  unfold narrowWhere
  split
  · split
    · exact steady_narrow _ _
    · exact .pure fun _ => trivial
  · exact .pure fun _ => trivial

theorem steady_setNarrowings (n : List (Nat × Ty)) :
    Steady (setNarrowings n) fun _ _ => True := steady_modify (fun _ => rfl) fun _ => rfl

/-- Only inside a loop does this report nothing. -/
theorem steady_requireLoop (keyword : String) (span : Option Span) :
    Steady (requireLoop keyword span) fun depth _ => depth ≠ 0 := by
  refine steady_loopDepth.bind fun depth => ?_
  split
  · exact steady_report _ _
  · rename_i h
    exact .pure fun _ he => he ▸ h

/-- A statement that is not about loops, with lambdas of these values only. -/
def Contains (bodies : List Body) (s : TStmt) : Prop :=
  (∀ inLoop, s.Looped inLoop) ∧ stmtBodies s ⊆ bodies

theorem steady_checkDeclare (name : String) (mutable : Bool) (stated : Option Ty)
    (value : Option TExpr) (span : Option Span) :
    Steady (checkDeclare name mutable stated value span) fun _ s =>
      Contains (valueBodies value) s := by
  refine (reports_declaredType name stated value span).steady.after fun ty => ?_
  have hrest (value' : Option TExpr) (state : InitState) :
      Steady (declare name ty mutable .letBound state span >>= fun _ =>
        Pure.pure (.declare name mutable ty value' span)) fun _ s =>
            Contains (valueBodies value') s := by
    refine (restores_declare _ _ _ _ _ _).steady.after fun _ => .pure fun _ =>
      ⟨fun _ => trivial, ?_⟩
    cases value' <;> exact List.Subset.refl _
  cases value with
  | none => exact hrest none _
  | some v =>
    have hv : Steady (some <$> coerce v ty) fun _ value' =>
        valueBodies value' = valueBodies (some v) :=
      steady_coerce.map fun _ _ he => he
    exact hv.bind fun value' => (hrest value' _).weaken fun _ _ h hv => hv ▸ h

theorem steady_checkAssign (target : Expr) (value : TExpr) (span : Option Span) :
    Steady (checkAssign target value span) fun _ s => Contains (exprBodies value) s := by
  have heval : Steady (Pure.pure (.eval value span)) fun _ s => Contains (exprBodies value) s :=
    .pure fun _ => ⟨fun _ => trivial, List.Subset.refl _⟩
  have hassign (place : AssignTarget) (ty : Ty) (y : Check Unit)
      (hy : Steady y fun _ _ => True) : Steady (coerce value ty >>= fun value' =>
        y >>= fun _ => Pure.pure (.assign place value' span)) fun _ s =>
            Contains (exprBodies value) s :=
    steady_coerce.bind fun value' => hy.after fun _ => .pure fun _ hv =>
      ⟨fun _ => trivial, hv ▸ List.Subset.refl _⟩
  unfold checkAssign
  split
  split
  · refine (restores_lookup _).declaring.steady.after fun v => ?_
    split
    · refine steady_reads.after fun sig => ?_
      split
      · exact .reported heval
      · exact .reported heval
    · split
      · exact (reports_checkBindingWrite _ _ _).steady.after fun _ =>
          hassign _ _ _ (restores_markInit _).steady
      · exact (reports_checkFieldWrite _ _ _ _).steady.after fun _ =>
          hassign _ _ (Pure.pure ()) (.pure fun _ => trivial)
  · exact .reported heval

theorem steady_checkReturned (value : Option TExpr) (ret : Ty) (span : Option Span) :
    Steady (checkReturned value ret span) fun _ value' =>
      valueBodies value' = valueBodies value := by
  unfold checkReturned
  split
  · split
    · exact .reported (.pure fun _ => rfl)
    · exact steady_coerce.map fun _ _ he => he
  · exact .reportedIf fun _ => .pure fun _ => rfl

theorem steady_returned (value : Option TExpr) (ret : Ty) (span : Option Span) :
    Steady (do return (TStmt.ret (← checkReturned value ret span) span, false)) fun _ r =>
      Contains (valueBodies value) r.1 := by
  refine (steady_checkReturned value ret span).bind fun value' => .pure fun _ h =>
    ⟨fun _ => trivial, ?_⟩
  rw [← h]
  cases value' <;> exact List.Subset.refl _

theorem steady_enterScope : Steady enterScope fun _ _ => True := steady_modifyContext fun _ => rfl

theorem steady_exitScope : Steady exitScope fun _ _ => True := steady_modifyContext fun _ => rfl

theorem Moves.inBlock {x : Check α} (h : Steady x Q) : Steady (inBlock x) Q :=
  steady_enterScope.after fun _ => steady_reads.after fun mark =>
    h.bind fun _ => (steady_setNarrowings mark).after fun _ =>
      steady_exitScope.after fun _ => .pure fun _ hq => hq

end Check

end ScopedScript
