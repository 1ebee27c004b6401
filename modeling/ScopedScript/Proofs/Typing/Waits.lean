import ScopedScript.Proofs.Typing.Checked
import ScopedScript.Proofs.Typing.Receivers

/-!
# Where checked programs wait

`await` and `yield` of a checked program stand in bodies of async functions, and a lambda is no such
body. An async function is only ever started: it is neither called nor a value.
-/

namespace ScopedScript

mutual

/-- Only async bodies wait, and what is called or made a value is `sync`. -/
def TExpr.Waits (sync : Callee → Prop) (isAsync : Bool) : TExpr → Prop
  | .mk kind _ _ => kind.Waits sync isAsync

def TKind.Waits (sync : Callee → Prop) (isAsync : Bool) : TKind → Prop
  | .int _ | .float _ | .bool _ | .string _ | .null | .binding _ | .native _ => True
  | .function name => sync (.function name)
  | .binary _ left right => left.Waits sync isAsync ∧ right.Waits sync isAsync
  | .unary _ operand => operand.Waits sync isAsync
  | .logical _ left right => left.Waits sync isAsync ∧ right.Waits sync isAsync
  | .call callee args => sync callee ∧ ExprsWait sync isAsync args
  | .callValue callee args => callee.Waits sync isAsync ∧ ExprsWait sync isAsync args
  | .callDynamic callee args => callee.Waits sync isAsync ∧ ExprsWait sync isAsync args
  | .callMethodDynamic _ args => ExprsWait sync isAsync args
  | .field object _ _ => object.Waits sync isAsync
  | .structInit _ values => ExprsWait sync isAsync values
  | .lambda _ _ body _ => StmtsWait sync false body
  | .spawn _ args => ExprsWait sync isAsync args
  | .await task => isAsync = true ∧ task.Waits sync isAsync
  | .box inner => inner.Waits sync isAsync
  | .unbox inner => inner.Waits sync isAsync
  | .cast inner => inner.Waits sync isAsync
  | .format parts => ExprsWait sync isAsync parts

def ExprsWait (sync : Callee → Prop) (isAsync : Bool) : List TExpr → Prop
  | [] => True
  | e :: rest => e.Waits sync isAsync ∧ ExprsWait sync isAsync rest

def TStmt.Waits (sync : Callee → Prop) (isAsync : Bool) : TStmt → Prop
  | .declare _ _ _ none _ => True
  | .declare _ _ _ (some value) _ => value.Waits sync isAsync
  | .assign _ value _ => value.Waits sync isAsync
  | .branch condition thenBlock elifs elseBlock _ =>
    condition.Waits sync isAsync ∧ StmtsWait sync isAsync thenBlock ∧
      ElifsWait sync isAsync elifs ∧ ElseWaits sync isAsync elseBlock
  | .loop condition body _ => condition.Waits sync isAsync ∧ StmtsWait sync isAsync body
  | .block body _ => StmtsWait sync isAsync body
  | .ret none _ => True
  | .ret (some value) _ => value.Waits sync isAsync
  | .eval value _ => value.Waits sync isAsync
  | .yieldNow _ => isAsync = true
  | .breakLoop _ | .continueLoop _ | .free _ _ | .collect _ => True

def StmtsWait (sync : Callee → Prop) (isAsync : Bool) : List TStmt → Prop
  | [] => True
  | s :: rest => s.Waits sync isAsync ∧ StmtsWait sync isAsync rest

def ElifsWait (sync : Callee → Prop) (isAsync : Bool) : List (TExpr × List TStmt) → Prop
  | [] => True
  | (condition, body) :: rest =>
    condition.Waits sync isAsync ∧ StmtsWait sync isAsync body ∧ ElifsWait sync isAsync rest

def ElseWaits (sync : Callee → Prop) (isAsync : Bool) : Option (List TStmt) → Prop
  | none => True
  | some body => StmtsWait sync isAsync body

end

/-- Of these bodies only the async ones wait. -/
def AllBodiesWait (sync : Callee → Prop) (bodies : List Body) : Prop :=
  ∀ b ∈ bodies, StmtsWait sync b.isAsync b.stmts

section

variable {sync : Callee → Prop}

theorem allBodiesWait_append {as bs : List Body} (ha : AllBodiesWait sync as)
    (hb : AllBodiesWait sync bs) : AllBodiesWait sync (as ++ bs) :=
  List.forall_mem_append.2 ⟨ha, hb⟩

mutual

theorem TExpr.Waits.bodies {isAsync : Bool} : {e : TExpr} → e.Waits sync isAsync →
    AllBodiesWait sync (exprBodies e)
  | .mk kind _ _, h => TKind.Waits.bodies (k := kind) h

theorem TKind.Waits.bodies {isAsync : Bool} {span : Option Span} :
    {k : TKind} → k.Waits sync isAsync → AllBodiesWait sync (kindBodies span k)
  | .int _, _ | .float _, _ | .bool _, _ | .string _, _ | .null, _ | .binding _, _
  | .function _, _ | .native _, _ => nofun
  | .binary _ _ _, h | .logical _ _ _, h => allBodiesWait_append h.1.bodies h.2.bodies
  | .unary _ _, h | .field _ _ _, h | .box _, h | .unbox _, h | .cast _, h => TExpr.Waits.bodies h
  | .await _, h => h.2.bodies
  | .structInit _ _, h | .spawn _ _, h | .format _, h | .callMethodDynamic _ _, h =>
    exprs_wait_bodies h
  | .call _ _, h => exprs_wait_bodies h.2
  | .callValue _ _, h | .callDynamic _ _, h =>
    allBodiesWait_append h.1.bodies (exprs_wait_bodies h.2)
  | .lambda _ _ _ _, h =>
    allBodiesWait_append (stmts_wait_bodies (show StmtsWait sync false _ from h)) fun _ hb => by
      rw [List.mem_singleton.1 hb]
      exact h

theorem exprs_wait_bodies {isAsync : Bool} : {es : List TExpr} → ExprsWait sync isAsync es →
    AllBodiesWait sync (exprsBodies es)
  | [], _ => nofun
  | _ :: _, h => allBodiesWait_append h.1.bodies (exprs_wait_bodies h.2)

theorem TStmt.Waits.bodies {isAsync : Bool} : {s : TStmt} → s.Waits sync isAsync →
    AllBodiesWait sync (stmtBodies s)
  | .declare _ _ _ none _, _ | .ret none _, _ | .breakLoop _, _ | .continueLoop _, _ | .free _ _, _
  | .collect _, _ | .yieldNow _, _ => nofun
  | .declare _ _ _ (some _) _, h | .assign _ _ _, h | .ret (some _) _, h | .eval _ _, h =>
    TExpr.Waits.bodies h
  | .branch _ _ _ _ _, ⟨hc, ht, hm, hl⟩ => allBodiesWait_append (allBodiesWait_append
      (allBodiesWait_append hc.bodies (stmts_wait_bodies ht)) (elifs_wait_bodies hm))
      (else_waits_bodies hl)
  | .loop _ _ _, h => allBodiesWait_append h.1.bodies (stmts_wait_bodies h.2)
  | .block _ _, h => stmts_wait_bodies h

theorem stmts_wait_bodies {isAsync : Bool} : {ss : List TStmt} → StmtsWait sync isAsync ss →
    AllBodiesWait sync (stmtsBodies ss)
  | [], _ => nofun
  | _ :: _, h => allBodiesWait_append h.1.bodies (stmts_wait_bodies h.2)

theorem elifs_wait_bodies {isAsync : Bool} : {elifs : List (TExpr × List TStmt)} →
    ElifsWait sync isAsync elifs → AllBodiesWait sync (elifsBodies elifs)
  | [], _ => nofun
  | (_, _) :: _, ⟨hc, hb, hr⟩ => allBodiesWait_append
      (allBodiesWait_append hc.bodies (stmts_wait_bodies hb)) (elifs_wait_bodies hr)

theorem else_waits_bodies {isAsync : Bool} : {elseBlock : Option (List TStmt)} →
    ElseWaits sync isAsync elseBlock → AllBodiesWait sync (elseBodies elseBlock)
  | none, _ => nofun
  | some _, h => stmts_wait_bodies h

end

theorem coerced_waits {isAsync : Bool} {e e' : TExpr} (h : Check.Coerced e e')
    (he : e.Waits sync isAsync) : e'.Waits sync isAsync := by
  cases h with
  | same => exact he
  | boxed => exact he
  | unboxed => exact he

end

/-- The checker knows a function of this name that is not async, or a method; methods never are. -/
def Globals.Sync (g : Globals) : Callee → Prop
  | .function name => ∃ sig, g.functions.lookup name = some sig ∧ sig.isAsync = false
  | .method struct method =>
    ∃ sig, g.structs.lookup struct = some sig ∧ (sig.methods.lookup method).isSome
  | .native _ => True

/-- Which of the functions being checked are async, innermost first. -/
def Env.modes (env : Env) : List Bool := env.contexts.map FnContext.isAsync

namespace Check

/-- A computation that ends without errors started without any. The functions being checked stay
what they are, up to `f`, and the value is as told by the names of the program and by whether the
innermost function is async. -/
def Holds (f : List Bool → List Bool) (x : Check α) (Q : Globals → Bool → α → Prop) : Prop :=
  Takes x fun env env' a => env'.globals = env.globals ∧ env'.modes = f env.modes ∧
    Q env.globals (env.modes.headD false) a

/-- As `Holds`, where all functions are as they were. -/
abbrev Abides (x : Check α) (Q : Globals → Bool → α → Prop) : Prop := Holds id x Q

variable {f : List Bool → List Bool} {Q : Globals → Bool → α → Prop} {R : Globals → Bool → β → Prop}

theorem Holds.weaken {x : Check α} {Q' : Globals → Bool → α → Prop} (hx : Holds f x Q)
    (h : ∀ g isAsync a, Q g isAsync a → Q' g isAsync a) : Holds f x Q' :=
  Takes.weaken hx fun _ _ _ ⟨hg, hm, hq⟩ => ⟨hg, hm, h _ _ _ hq⟩

theorem Holds.pure {a : α} (h : ∀ g isAsync, Q g isAsync a) : Abides (Pure.pure a) Q :=
  (Takes.pure a).weaken fun _ _ _ ⟨hb, he⟩ => ⟨he ▸ rfl, he ▸ rfl, hb ▸ h _ _⟩

theorem Holds.bind {x : Check α} {y : α → Check β} (hx : Abides x Q)
    (hy : ∀ a, Holds f (y a) fun g isAsync b => Q g isAsync a → R g isAsync b) :
    Holds f (x >>= y) R := by
  refine (Takes.bind hx hy).weaken ?_
  rintro env env' b ⟨a, mid, ⟨hg, hm, hq⟩, hg', hm', hr⟩
  rw [hg, hm] at hr
  exact ⟨hg'.trans hg, hm'.trans (congrArg f hm), hr hq⟩

theorem Holds.map {x : Check α} {h : α → β} (hx : Abides x Q)
    (hr : ∀ g isAsync a, Q g isAsync a → R g isAsync (h a)) : Abides (h <$> x) R :=
  fun env he => ⟨(hx env he).1, (hx env he).2.1, (hx env he).2.2.1, hr _ _ _ (hx env he).2.2.2⟩

/-- A computation whose value does not matter. -/
theorem Holds.after {x : Check α} {y : α → Check β} (hx : Abides x Q) (hy : ∀ a, Holds f (y a) R) :
    Holds f (x >>= y) R :=
  hx.bind fun a => (hy a).weaken fun _ _ _ h _ => h

/-- Nothing is said of a computation that reports an error. -/
theorem Holds.reported {x : Check α} {Q' : Globals → Bool → α → Prop} {cause : TypeCause}
    {span : Option Span} (hx : Holds f x Q) : Holds f (report cause span >>= fun _ => x) Q' :=
  Takes.reported hx

theorem Holds.reportedIf {c : Prop} [Decidable c] {x : Unit → Check α} {cause : TypeCause}
    {span : Option Span} (hx : ∀ a, Holds f (x a) fun g isAsync b => ¬c → Q g isAsync b) :
    Holds f (if c then report cause span >>= x else x ()) Q :=
  (Takes.reportedIf (hx ())).weaken fun _ _ _ ⟨hc, hg, hm, hq⟩ => ⟨hg, hm, hq hc⟩

theorem Quiet.abides {x : Check α} {q : Globals → α → Prop} (hx : Quiet x q) :
    Abides x fun g _ a => q g a := by
  refine hx.takes.weaken ?_
  rintro env env' a ⟨⟨n, rfl⟩, hq⟩
  exact ⟨rfl, rfl, hq⟩

/-- A step that declares nothing, before something else. -/
theorem Holds.quietly {x : Check α} {y : α → Check β} {q : Globals → α → Prop} (hx : Quiet x q)
    (hy : ∀ a, Holds f (y a) R) : Holds f (x >>= y) R := hx.abides.after hy

theorem abides_modify {g : Env → Env} (he : ∀ env, (g env).errors = env.errors)
    (hg : ∀ env, (g env).globals = env.globals) (hm : ∀ env, (g env).modes = env.modes) :
    Abides (modify g) fun _ _ _ => True := by
  refine (takes_modify g he).weaken ?_
  rintro env env' - rfl
  exact ⟨hg env, hm env, trivial⟩

theorem abides_modifyContext {g : FnContext → FnContext} (hg : ∀ c, (g c).isAsync = c.isAsync) :
    Abides (modifyContext g) fun _ _ _ => True := by
  refine abides_modify (fun env => ?_) (fun env => ?_) fun env => ?_
  · split <;> rfl
  · split <;> rfl
  · unfold Env.modes
    split
    · rfl
    · rename_i c outer hc
      simp [hc, hg]

theorem abides_inAsync : Abides inAsync fun _ isAsync a => a = isAsync := by
  intro env he
  refine ⟨he, rfl, rfl, ?_⟩
  change (env.contexts.head?.map FnContext.isAsync).getD false = (env.contexts.map _).headD false
  rw [List.headD_eq_head?_getD, List.head?_map]

theorem abides_declare (name : String) (ty : Ty) (mutable : Bool) (kind : VarKind)
    (state : InitState) (span : Option Span) :
    Abides (declare name ty mutable kind state span) fun _ _ _ => True := by
  refine Holds.quietly quiet_reads fun depth => ?_
  refine Holds.after (Q := fun _ _ _ => True) (fun _ he => ⟨he, rfl, rfl, trivial⟩) fun e => ?_
  refine (abides_modifyContext fun c => ?_).after fun _ =>
    abides_modify (fun _ => rfl) (fun _ => rfl) fun _ => rfl
  unfold FnContext.declare
  split <;> rfl

theorem modes_resolveIn {name : String} {v : Var} {contexts contexts' : List FnContext}
    (h : resolveIn name contexts = some (v, contexts')) :
    contexts'.map FnContext.isAsync = contexts.map FnContext.isAsync := by
  induction contexts generalizing v contexts' with
  | nil => cases h
  | cons c outer ih =>
    rw [resolveIn] at h
    split at h
    · cases h
      rfl
    · obtain ⟨⟨v', outer'⟩, ho, he⟩ := Option.map_eq_some_iff.1 h
      cases he
      rw [List.map_cons, List.map_cons, ih ho]
      unfold FnContext.capture
      split <;> rfl

theorem abides_lookup (name : String) : Abides (lookup name) fun _ _ _ => True := by
  refine (takes_lookup name).weaken ?_
  rintro env env' r (⟨-, rfl⟩ | ⟨v, cs, -, hr, rfl⟩)
  · exact ⟨rfl, rfl, trivial⟩
  · exact ⟨rfl, modes_resolveIn hr, trivial⟩

/-- A function starts with what it is. -/
theorem Holds.entered {x : Check α} {P : Globals → α → Prop} {ret : Ty} {isAsync : Bool}
    (hx : Holds List.tail x fun g mode a => mode = isAsync → P g a) :
    Abides (enterFunction ret isAsync >>= fun _ => x) fun g _ a => P g a := by
  refine (Takes.bind (takes_enterFunction ret isAsync) fun _ => hx).weaken ?_
  rintro env env' a ⟨_, _, rfl, hg, hm, h⟩
  exact ⟨hg, hm, h rfl⟩

theorem Holds.exited {g : List String → β}
    (h : ∀ names isAsync captures, R names isAsync (g captures)) :
    Holds List.tail (exitFunction >>= fun captures => Pure.pure (g captures)) R := by
  intro env he
  obtain ⟨globals, contexts, errors, init, narrowed, nextId⟩ := env
  cases contexts with
  | nil => exact ⟨he, rfl, rfl, h _ _ _⟩
  | cons c outer => exact ⟨he, rfl, rfl, h _ _ _⟩

/-! The steps of the checker, apart from the trees that they go through. -/

theorem abides_coerce {e : TExpr} {target : Ty} :
    Abides (coerce e target) fun g isAsync e' =>
      e.Waits g.Sync isAsync → e'.Waits g.Sync isAsync :=
  quiet_coerce.abides.weaken fun _ _ _ h => coerced_waits h

theorem abides_asCondition {x : Check TExpr}
    (hx : Abides x fun g isAsync e => e.Waits g.Sync isAsync) :
    Abides (asCondition x) fun g isAsync e => e.Waits g.Sync isAsync :=
  hx.bind fun _ => abides_coerce

theorem abides_enterScope : Abides enterScope fun _ _ _ => True :=
  abides_modifyContext fun _ => rfl

theorem abides_exitScope : Abides exitScope fun _ _ _ => True :=
  abides_modifyContext fun _ => rfl

theorem abides_enterLoop : Abides enterLoop fun _ _ _ => True := abides_modifyContext fun _ => rfl

theorem abides_exitLoop : Abides exitLoop fun _ _ _ => True := abides_modifyContext fun _ => rfl

theorem abides_inBlock {x : Check α} (hx : Abides x Q) : Abides (inBlock x) Q := by
  refine abides_enterScope.after fun _ => Holds.quietly quiet_reads fun mark => ?_
  refine hx.bind fun a => Holds.quietly (quiet_setNarrowings mark) fun _ => ?_
  exact abides_exitScope.after fun _ => .pure fun _ _ h => h

theorem abides_mergePaths (paths : List InitFacts) :
    Abides (mergePaths paths) fun _ _ _ => True := by
  cases paths with
  | nil => exact .pure fun _ _ => trivial
  | cons first rest => exact abides_modify (fun _ => rfl) (fun _ => rfl) fun _ => rfl

theorem abides_setInitFacts (facts : InitFacts) : Abides (setInitFacts facts) fun _ _ _ => True :=
  abides_modify (fun _ => rfl) (fun _ => rfl) fun _ => rfl

theorem abides_markInit (id : Nat) : Abides (markInit id) fun _ _ _ => True :=
  abides_modify (fun _ => rfl) (fun _ => rfl) fun _ => rfl

theorem abides_pathEnd (falls : Bool) : Abides (pathEnd falls) fun _ _ _ => True :=
  Holds.quietly quiet_reads fun _ => .pure fun _ _ => trivial

/-- A function that is called by its name, or is a value, is not async. -/
theorem abides_checkName (name : String) (span : Option Span) :
    Abides (checkName name span) fun g isAsync e => e.Waits g.Sync isAsync := by
  refine (abides_lookup name).after fun v => ?_
  split
  · rename_i v
    refine Holds.quietly quiet_reads fun state => ?_
    have hrest : Abides (narrowedType? v.id >>= fun ty =>
        Pure.pure (TExpr.mk (.binding name) (ty.getD v.ty) span)) fun g isAsync e =>
        e.Waits g.Sync isAsync := Holds.quietly quiet_reads fun _ => .pure fun _ _ => trivial
    split
    · exact hrest
    · exact .reported hrest
    · exact .reported hrest
  · refine (quiet_functionSig? name).abides.bind fun sig => ?_
    split
    · rename_i sig
      exact .reportedIf fun _ => .pure fun g _ hs hg => ⟨sig, hg.symm, by simpa using hs⟩
    · refine Holds.weaken (Q := fun g isAsync e => e.Waits g.Sync isAsync) ?_ fun _ _ _ h _ => h
      refine Holds.quietly quiet_reads fun sig => ?_
      split
      · exact .pure fun _ _ => trivial
      · exact .reported (Q := fun _ _ _ => True) (.pure fun _ _ => trivial)

/-- What a call by name calls, with its signature. -/
theorem quiet_knownCallee? (callee : Expr) : Quiet (namedCallee? callee) fun g c =>
    ∀ target name sig, c = some (target, name, sig) → sig.isAsync = false → g.Sync target := by
  have hnone : Quiet (Pure.pure none) fun g (c : Option (Callee × String × Signature)) =>
      ∀ target name sig, c = some (target, name, sig) → sig.isAsync = false → g.Sync target :=
    .pure fun _ _ _ _ hc => nomatch hc
  unfold namedCallee?
  split
  · rename_i name _
    refine quiet_reads.after fun v => ?_
    split
    · exact hnone
    · refine (quiet_functionSig? name).bind fun sig => ?_
      split
      · rename_i sig
        refine .pure fun g hsig target name sig' hc hs => ?_
        cases hc
        exact ⟨sig, hsig.symm, hs⟩
      · refine Quiet.weaken (?_ : Quiet _ _) fun _ _ h _ => h
        refine quiet_reads.after fun sig => ?_
        split
        · refine .pure fun g target name sig hc _ => ?_
          cases hc
          trivial
        · exact hnone
  · exact hnone

/-- A value that may be missing. -/
def ValueWaits (sync : Callee → Prop) (isAsync : Bool) : Option TExpr → Prop
  | none => True
  | some e => e.Waits sync isAsync

/-- The values that fill the slots of an initializer so far. -/
abbrev SlotsWait (sync : Callee → Prop) (isAsync : Bool) (slots : List (Option TExpr)) : Prop :=
  ∀ e, some e ∈ slots → e.Waits sync isAsync

theorem abides_initSlot (struct : String) (sig : StructSig) (field : String) (value : TExpr)
    (span : Option Span) (slots : List (Option TExpr)) :
    Abides (initSlot struct sig field value span slots) fun g isAsync slots' =>
      value.Waits g.Sync isAsync → SlotsWait g.Sync isAsync slots →
        SlotsWait g.Sync isAsync slots' := by
  have hsame {q : Globals → Bool → List (Option TExpr) → Prop} {cause : TypeCause} :
      Abides (report cause span >>= fun _ => Pure.pure slots) q :=
    .reported (Q := fun _ _ _ => True) (.pure fun _ _ => trivial)
  unfold initSlot
  split
  · split
    · exact hsame
    · refine abides_coerce.bind fun v => .pure fun g isAsync hc hv hs e he => ?_
      rcases List.mem_or_eq_of_mem_set he with he | he
      · exact hs e he
      · cases he
        exact hc hv
  · exact hsame

theorem abides_fillSlots (struct : String) (span : Option Span) : (fields : List (String × Ty)) →
    (slots : List (Option TExpr)) → Abides (fillSlots struct span fields slots)
      fun g isAsync values =>
      SlotsWait g.Sync isAsync slots → ExprsWait g.Sync isAsync values
  | (_, _) :: fields, some value :: slots =>
    (abides_fillSlots struct span fields slots).bind fun _ => .pure fun _ _ h hs =>
      ⟨hs value List.mem_cons_self, h fun e he => hs e (List.mem_cons_of_mem _ he)⟩
  | (_, _) :: fields, none :: slots =>
    .reported (Q := fun _ _ _ => True)
      ((abides_fillSlots struct span fields slots).after fun _ => .pure fun _ _ => trivial)
  | [], _ => .pure fun _ _ _ => trivial
  | _ :: _, [] => .pure fun _ _ _ => trivial

theorem abides_checkDeclare (name : String) (mutable : Bool) (stated : Option Ty)
    (v : Option TExpr) (span : Option Span) :
    Abides (checkDeclare name mutable stated v span) fun g isAsync s =>
      ValueWaits g.Sync isAsync v → s.Waits g.Sync isAsync := by
  refine Holds.quietly (reports_declaredType name stated v span).quiet fun ty => ?_
  have hplace (value : Option TExpr) (state : InitState) :
      Abides (declare name ty mutable .letBound state span >>= fun _ =>
        Pure.pure (TStmt.declare name mutable ty value span)) fun g isAsync s =>
          ValueWaits g.Sync isAsync value → s.Waits g.Sync isAsync :=
    (abides_declare _ _ _ _ _ _).after fun _ => .pure fun _ _ h => by
      cases value with
      | none => trivial
      | some value => exact h
  cases v with
  | none => exact hplace none _
  | some v =>
    have hv : Abides (some <$> coerce v ty) fun g isAsync v' =>
        v.Waits g.Sync isAsync → ValueWaits g.Sync isAsync v' := abides_coerce.map fun _ _ _ h => h
    exact hv.bind fun v' => (hplace v' _).weaken fun _ _ _ h hc hv => h (hc hv)

theorem abides_checkAssign (target : Expr) (value : TExpr) (span : Option Span) :
    Abides (checkAssign target value span) fun g isAsync s =>
      value.Waits g.Sync isAsync → s.Waits g.Sync isAsync := by
  have hfail {q : Globals → Bool → TStmt → Prop} {cause : TypeCause} {at? : Option Span} :
      Abides (report cause at? >>= fun _ => Pure.pure (TStmt.eval value span)) q :=
    .reported (Q := fun _ _ _ => True) (.pure fun _ _ => trivial)
  unfold checkAssign
  split
  split
  · rename_i name rootSpan _
    refine (abides_lookup name).after fun v => ?_
    cases v with
    | none =>
      refine Holds.quietly (quiet_functionSig? name) fun sig => ?_
      split
      · exact hfail
      · exact hfail
    | some v =>
      dsimp only
      split
      · refine Holds.after (Q := fun _ _ _ => True) ?_ fun _ => abides_coerce.bind fun v' =>
          (abides_markInit v.id).after fun _ => .pure fun _ _ h hv => h hv
        exact (takes_checkBindingWrite _ _ _).weaken fun _ _ _ ⟨he, _⟩ => by
          subst he
          exact ⟨rfl, rfl, trivial⟩
      · refine Holds.after (Q := fun _ _ _ => True) ?_ fun r => abides_coerce.bind fun v' =>
          .pure fun _ _ h hv => h hv
        refine (takes_checkFieldWrite _ _ _ _).weaken ?_
        rintro env env' r ⟨⟨n, rfl⟩, -⟩
        exact ⟨rfl, rfl, trivial⟩
  · exact hfail

theorem abides_checkReturned (v : Option TExpr) (ret : Ty) (span : Option Span) :
    Abides (do return (TStmt.ret (← checkReturned v ret span) span, false)) fun g isAsync r =>
      ValueWaits g.Sync isAsync v → r.1.Waits g.Sync isAsync := by
  have hvalue : Abides (checkReturned v ret span) fun g isAsync v' =>
      ValueWaits g.Sync isAsync v → ValueWaits g.Sync isAsync v' := by
    unfold checkReturned
    split
    · split
      · exact .reported (Q := fun _ _ _ => True) (.pure fun _ _ => trivial)
      · exact abides_coerce.map fun _ _ _ h hv => h hv
    · exact .reportedIf fun _ => .pure fun _ _ _ h => h
  refine hvalue.bind fun v' => .pure fun g isAsync h hv => ?_
  cases v' with
  | none => trivial
  | some v' => exact h hv

theorem abides_checkFree (name : String) (span : Option Span) :
    Abides (checkFree name span) fun _ _ _ => True := by
  refine (abides_lookup name).after fun v => ?_
  split
  · split
    · exact (quiet_report _ _).abides
    · exact .pure fun _ _ => trivial
  · exact (quiet_report _ _).abides

theorem abides_declareEach (params : List TParam) :
    Abides (forIn params PUnit.unit fun p (_ : PUnit) => do
      declare p.name p.ty p.mutable .param .init p.span
      Pure.pure (ForInStep.yield PUnit.unit)) fun _ _ _ => True := by
  induction params with
  | nil => exact .pure fun _ _ => trivial
  | cons p rest ih =>
    rw [List.forIn_cons]
    exact (abides_declare _ _ _ _ _ _).after fun _ => ih

end Check

end ScopedScript
