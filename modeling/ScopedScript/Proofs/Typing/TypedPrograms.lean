import ScopedScript.Proofs.Typing.Signatures
import ScopedScript.Proofs.Typing.WellTyped

/-!
# Accepted programs follow the typing rules

Each function and method of an accepted program has the parameters and the result that its
declaration states, and a body that follows the rules.
-/

namespace ScopedScript

open Check

/-! ## Declarations -/

/-- The receiver comes before the parameters of a method. -/
def FunctionDecl.typedParams (struct : Option String) (d : FunctionDecl) : List TParam :=
  (struct.toList.map fun s => ⟨"self", .struct s, false, d.span⟩) ++
    d.params.map fun p => ⟨p.name, Ty.ofExpr p.type, p.mutable, p.span⟩

/-- The function that a declaration is checked to. -/
structure FunctionDecl.Gives (struct : Option String) (d : FunctionDecl)
    (f : TFunction) : Prop where
  name : f.name = d.symbol struct
  params : f.params = d.typedParams struct
  ret : f.ret = d.signature.ret
  isAsync : f.isAsync = d.isAsync

/-- The annotations of a declaration fit, and its body is covered by the rules. -/
structure FunctionDecl.Tame (loose : Prop) (struct : Option String) (d : FunctionDecl) : Prop where
  params : ∀ p ∈ d.params, p.type.Fits loose
  ret : ∀ t ∈ d.ret, t.Fits loose
  body : StmtsTame loose ((Visible.mk [] []).lambda ((d.typedParams struct).map TParam.name)) d.body

/-- The functions and methods of an item, each method with its struct. -/
def Item.declarations : Item → List (Option String × FunctionDecl)
  | .function d => [(none, d)]
  | .struct d => d.methods.map fun m => (some d.name, m)

structure Program.Tame (loose : Prop) (p : Program) : Prop where
  fields : ∀ d ∈ p.structs, ∀ f ∈ d.fields, f.type.Fits loose
  bodies : ∀ d ∈ p.items.flatMap Item.declarations, d.2.Tame loose d.1

variable {loose : Prop} {leaves : Ty → Prop} {g : Globals} {N : Visible} {struct : Option String}
  {d : FunctionDecl}

theorem FunctionDecl.Tame.stated (h : d.Tame loose struct) : d.signature.Stated loose :=
  ⟨List.forall_mem_map.2 fun p hp => (h.params p hp).declared, declared_returned h.ret⟩

theorem FunctionDecl.Tame.typedParams (h : d.Tame loose struct) :
    ∀ q ∈ d.typedParams struct, q.ty.Declared loose := by
  refine List.forall_mem_append.2 ⟨?_, List.forall_mem_map.2 fun p hp => (h.params p hp).declared⟩
  exact List.forall_mem_map.2 fun s _ => ⟨trivial, .inr trivial⟩

/-! ## Functions -/

/-- No function is being checked, and these names are known. -/
structure Env.Outer (g : Globals) (env : Env) : Prop where
  globals : env.globals = g
  contexts : env.contexts = []
  old : ∀ id t, env.narrowed.lookup id = some t → id < env.nextId

namespace Check

/-- A part of a program is checked, where no function is. -/
def Concludes (g : Globals) (x : Check α) (Q : α → Prop) : Prop :=
  Takes x fun env env' a => env.Outer g → env'.Outer g ∧ Q a

theorem Concludes.map {x : Check α} {f : α → β} {Q : α → Prop} {R : β → Prop} (hx : Concludes g x Q)
    (h : ∀ a, Q a → R (f a)) : Concludes g (x >>= fun a => Pure.pure (f a)) R := by
  refine (Takes.bind hx fun a => Takes.pure (f a)).weaken ?_
  rintro env env' _ ⟨a, mid, hx, rfl, rfl⟩ ho
  exact ⟨(hx ho).1, h a (hx ho).2⟩

theorem Concludes.mapM {x : α → Check β} {Q : α → β → Prop} : (as : List α) →
    (∀ a ∈ as, Concludes g (x a) (Q a)) → Concludes g (as.mapM x) (as.Forall₂ Q)
  | [], _ => (Takes.pure []).weaken fun _ _ _ ⟨hb, he⟩ ho => by
    subst hb he
    exact ⟨ho, .nil⟩
  | a :: rest, h => by
    rw [List.mapM_cons]
    refine (Takes.bind (h a List.mem_cons_self) fun b => Takes.bind (Concludes.mapM rest fun a ha =>
      h a (List.mem_cons_of_mem _ ha)) fun bs => Takes.pure (b :: bs)).weaken ?_
    rintro env env' _ ⟨b, mid, hb, bs, _, hbs, rfl, rfl⟩ ho
    obtain ⟨hoMid, hb⟩ := hb ho
    obtain ⟨ho', hbs⟩ := hbs hoMid
    exact ⟨ho', .cons hb hbs⟩

theorem shifts_declareSelf (d : FunctionDecl) (struct : Option String) :
    Shifts loose N ((struct.toList.map fun _ => "self").foldl Visible.declare N) (fun _ _ => True)
      (declareSelf d struct) fun _ Γ Γ' receiver =>
        receiver = struct.toList.map (fun s => ⟨"self", .struct s, false, d.span⟩) ∧
        Γ' = receiver.foldl (fun Γ p => Γ.declare p.name ⟨p.ty, p.mutable, false⟩) Γ := by
  cases struct with
  | none => exact .pure fun _ _ _ => ⟨rfl, rfl⟩
  | some name =>
    refine ((shifts_declare "self" (.struct name) false .receiver .init d.span).then
      fun _ => _).weaken (fun _ _ _ _ => ⟨trivial, .inr trivial⟩) ?_
    rintro _ Γ Γ' _ - ⟨-, rfl, rfl⟩
    exact ⟨rfl, rfl⟩

theorem shifts_declareParams (span : Option Span) (names : List String) (params : List (Param × Ty))
    (before : List TParam) :
    Shifts loose N (names.foldl Visible.declare N)
      (fun _ _ => params.map (fun q => q.1.name) = names ∧ ∀ q ∈ params, q.2.Declared loose)
      (declareParams span before params) fun _ Γ Γ' all => ∃ added,
        added = params.map (fun q => ⟨q.1.name, q.2, q.1.mutable, q.1.span⟩) ∧
        all = before ++ added ∧
        Γ' = added.foldl (fun Γ p => Γ.declare p.name ⟨p.ty, p.mutable, false⟩) Γ := by
  induction params generalizing N names before with
  | nil =>
    refine (Takes.pure before).weaken ?_
    rintro env _ _ ⟨rfl, rfl⟩ hc ⟨rfl, -⟩
    exact ⟨hc, .refl _, [], rfl, (List.append_nil _).symm, rfl⟩
  | cons q rest ih =>
    obtain ⟨p, ty⟩ := q
    have hfirst : Shifts loose N (N.declare p.name) _ _ _ :=
      shifts_declare p.name ty p.mutable .param .init p.span
    refine (Takes.reportedIf (c := (before.any fun q => q.name == p.name) = true)
      (x := fun _ => declare p.name ty p.mutable .param .init p.span >>= fun _ =>
        declareParams span (before ++ [⟨p.name, ty, p.mutable, p.span⟩]) rest)
      (Takes.bind hfirst fun _ => ih (N := N.declare p.name) names.tail _)).weaken ?_
    rintro env env' all ⟨-, _, mid, hp, hrest⟩ hc ⟨rfl, hd⟩
    obtain ⟨hcMid, hpass, hcontext⟩ := hp hc (hd _ List.mem_cons_self)
    obtain ⟨hc', hpass', added, rfl, rfl, hcontext'⟩ :=
      hrest hcMid ⟨rfl, fun q hq => hd q (List.mem_cons_of_mem _ hq)⟩
    rw [hcontext] at hcontext'
    exact ⟨hc', hpass.trans hpass', _, rfl, List.append_assoc .., hcontext'⟩

end Check

/-- After the start of a function that is not inside another one. -/
theorem Env.Outer.entered {env : Env} {ret : Ty} {isAsync : Bool} (h : env.Outer g)
    (hg : g.Declared loose) (hret : ret.Declared loose) :
    (env.entered ret isAsync).Coherent loose ⟨[], []⟩ ∧
      (env.entered ret isAsync).context = .start [] (fun _ => none) ret := by
  have hcontexts : (env.entered ret isAsync).contexts = [⟨ret, isAsync, [[]], 0, []⟩] :=
    congrArg (_ :: ·) h.contexts
  have hvars : varsOf (env.entered ret isAsync).contexts = [] := by rw [hcontexts]; rfl
  have hcontext : (env.entered ret isAsync).context = .start [] (fun _ => none) ret := by
    rw [Env.context, Env.scopes, hcontexts]
    rfl
  refine ⟨?_, hcontext⟩
  constructor
  case globals => exact (show env.globals = g from h.globals) ▸ hg
  case inside => exact List.cons_ne_nil _ _
  case scopes => exact List.cons_ne_nil _ _
  case distinct => rw [hvars]; exact List.nodup_nil
  case below => rw [hvars]; exact List.forall_mem_nil _
  case types => rw [hvars]; exact List.forall_mem_nil _
  case returns => rw [hcontexts]; exact List.forall_mem_singleton.2 hret
  case old => exact h.old
  case narrowed => rw [hvars]; exact List.forall_mem_nil _
  case own => rw [hcontext]; exact fun _ => iff_of_false Bool.false_ne_true List.not_mem_nil
  case outer => rw [hcontext]; exact fun _ h => (Bool.false_ne_true h).elim

/-- The signature that a function or method is known by. -/
def Globals.declared? (g : Globals) (struct : Option String) (name : String) : Option Signature :=
  match struct with
  | some s => (g.structs.lookup s).bind fun sig => sig.methods.lookup name
  | none => g.functions.lookup name

namespace Check

theorem takes_declaredSignature (d : FunctionDecl) (struct : Option String) :
    Takes (declaredSignature d struct) fun env env' sig =>
      env' = env ∧ sig = (env.globals.declared? struct d.name).getD d.signature := by
  cases struct <;> exact fun _ he => ⟨he, rfl, rfl⟩

theorem concludes_function (hl : loose → ∀ t, leaves t) (hg : g.Declared loose)
    (struct : Option String) (d : FunctionDecl) (h : d.Tame loose struct)
    (hknown : g.declared? struct d.name = some d.signature) :
    Concludes g (checkFunction struct d) fun f =>
      d.Gives struct f ∧ f.toBody.Typed g leaves fun _ => none := by
  let names := d.params.map Param.name
  let M : Visible := (struct.toList.map fun _ => "self").foldl Visible.declare ⟨[], []⟩
  have hself : Shifts loose ⟨[], []⟩ M _ _ _ := shifts_declareSelf d struct
  have hparams (sig : Signature) (receiver : List TParam) :
      Shifts loose M (names.foldl Visible.declare M) _ _ _ :=
    shifts_declareParams d.span names (d.params.zip sig.params) receiver
  have hbody : StmtsTame loose (names.foldl Visible.declare M) d.body := by
    have hbody := h.body
    rw [FunctionDecl.typedParams, List.map_append, List.map_map, List.map_map, Visible.lambda,
      List.foldl_append] at hbody
    exact hbody
  refine ((takes_declaredSignature d struct).bind fun sig =>
    (takes_enterFunction sig.ret d.isAsync).bind fun _ =>
    Takes.bind hself fun receiver => Takes.bind (hparams sig receiver) fun params =>
      Takes.bind (shifts_stmts hl d.body hbody) fun r =>
        .reportedIf (takes_exitFunction.bind fun _ => Takes.pure _)).weaken ?_
  rintro _ env' f ⟨sig, env, ⟨rfl, hsig⟩, _, _, rfl, receiver, first, hself, params, start, hparams,
    r, last, hbody, hends, _, _, ⟨-, rfl⟩, rfl, rfl⟩ ho
  obtain rfl : sig = d.signature := by
    rw [hsig, ho.globals, hknown]
    rfl
  have hzip : d.params.zip d.signature.params = d.params.map fun p => (p, Ty.ofExpr p.type) := by
    rw [FunctionDecl.signature, ← List.map_prod_left_eq_zip]
  have hadded : ((d.params.zip d.signature.params).map fun q => (q.1.name)) = names ∧
      ∀ q ∈ d.params.zip d.signature.params, q.2.Declared loose := by
    rw [hzip, List.map_map]
    exact ⟨rfl, List.forall_mem_map.2 fun p hp => (h.params p hp).declared⟩
  obtain ⟨hc, hcontext⟩ : (env.entered d.signature.ret d.isAsync).Coherent loose _ ∧ _ :=
    ho.entered hg h.stated.ret
  obtain ⟨hcFirst, hpassFirst, rfl, hfirst⟩ := hself hc trivial
  obtain ⟨hcStart, hpassStart, added, rfl, rfl, hstart⟩ := hparams hcFirst hadded
  obtain ⟨hcLast, hpassLast, hstmts, hfalls⟩ := hbody hcStart trivial
  have hpass := (hpassFirst.trans hpassStart).trans hpassLast
  have houter : last.exited.contexts = [] := by
    have htail := hpass.outer
    rw [show (env.entered d.signature.ret d.isAsync).contexts.tail = [] from ho.contexts] at htail
    exact List.forall₂_nil_left_iff.1 htail
  have hglobals : last.exited.globals = g := hpass.globals.trans ho.globals
  refine ⟨⟨hglobals, houter, hcLast.old⟩, ⟨by cases struct <;> rfl, ?_, rfl, rfl⟩,
    ⟨last.context, ?_⟩, fun hend => ?_⟩
  · rw [hzip, List.map_map]
    rfl
  · rw [hstart, hfirst, hcontext, ← List.foldl_append, (hpassFirst.trans hpassStart).globals,
      show (env.entered d.signature.ret d.isAsync).globals = g from ho.globals] at hstmts
    exact hstmts
  · exact by_contra fun hne => hends ⟨hfalls.trans hend, hne⟩

theorem concludes_item (hl : loose → ∀ t, leaves t) (hg : g.Declared loose) (item : Item)
    (h : ∀ d ∈ item.declarations, d.2.Tame loose d.1)
    (hknown : ∀ d ∈ item.declarations, g.declared? d.1 d.2.name = some d.2.signature) :
    Concludes g (checkItem item) fun fs => item.declarations.Forall₂
      (fun d f => d.2.Gives d.1 f ∧ f.toBody.Typed g leaves fun _ => none) fs := by
  cases item with
  | function d =>
    have hd : (none, d) ∈ (Item.function d).declarations := List.mem_singleton_self _
    exact (concludes_function hl hg none d (h _ hd) (hknown _ hd)).map fun f hf => .cons hf .nil
  | struct d =>
    have hmethods := Concludes.mapM (x := checkFunction (some d.name)) d.methods fun m hm =>
      have hd : (some d.name, m) ∈ (Item.struct d).declarations := List.mem_map_of_mem hm
      concludes_function hl hg (some d.name) m (h _ hd) (hknown _ hd)
    exact hmethods.weaken fun _ _ _ hfs ho => ⟨(hfs ho).1, List.forall₂_map_left_iff.2 (hfs ho).2⟩

end Check

/-! ## Programs -/

namespace Program

variable {p : Program} {natives : List (String × Signature)} {t : TProgram}

/-- Each declaration is known by what it states. -/
theorem declared?_globals (h : p.check natives = .ok t) {d : Option String × FunctionDecl}
    (hd : d ∈ p.items.flatMap Item.declarations) :
    (p.globals natives).declared? d.1 d.2.name = some d.2.signature := by
  obtain ⟨item, hitem, hd⟩ := List.mem_flatMap.1 hd
  cases item with
  | function f =>
    obtain rfl := List.mem_singleton.1 hd
    exact (lookup_function h).2 ⟨f, function_mem hitem, rfl, rfl⟩
  | struct s =>
    obtain ⟨m, hm, rfl⟩ := List.mem_map.1 hd
    have hs := (lookup_struct h).2 ⟨s, struct_mem hitem, rfl, rfl⟩
    change ((p.globals natives).structs.lookup s.name).bind _ = _
    rw [hs, Option.bind_some, StructDecl.signature]
    exact (lookup_pairs (nodup_methods h (struct_mem hitem))).2 ⟨m, hm, rfl, rfl⟩

theorem declared_globals (h : p.check natives = .ok t) (htame : p.Tame loose)
    (hnatives : ∀ name s, natives.lookup name = some s → s.Declared loose) :
    (p.globals natives).Declared loose := by
  have hfunction {d : FunctionDecl} (hd : d ∈ p.functions) : d.signature.Stated loose :=
    (htame.bodies (none, d)
      (List.mem_flatMap.2 ⟨_, p.mem_functions hd, List.mem_singleton_self _⟩)).stated
  have hmethod {d : StructDecl} (hd : d ∈ p.structs) {m : FunctionDecl} (hm : m ∈ d.methods) :
      m.signature.Stated loose :=
    (htame.bodies (some d.name, m)
      (List.mem_flatMap.2 ⟨_, p.mem_structs hd, List.mem_map_of_mem hm⟩)).stated
  constructor
  case fields =>
    intro name sig hs
    obtain ⟨d, hd, -, rfl⟩ := (lookup_struct h).1 hs
    exact List.forall_mem_map.2 fun f hf => (htame.fields d hd f hf).declared
  case methods =>
    intro name sig m s hs hm
    obtain ⟨d, hd, -, rfl⟩ := (lookup_struct h).1 hs
    obtain ⟨decl, hdecl, -, rfl⟩ := (lookup_pairs (nodup_methods h hd)).1 hm
    exact hmethod hd hdecl
  case functions =>
    intro name s hs
    obtain ⟨d, hd, -, rfl⟩ := (lookup_function h).1 hs
    exact hfunction hd
  case natives =>
    rw [natives_globals h]
    exact hnatives

/-- The functions and methods of an accepted program have the types that they are declared with, and
their bodies follow the typing rules. -/
theorem check_typed (h : p.check natives = .ok t) (htame : p.Tame loose)
    (hnatives : ∀ name s, natives.lookup name = some s → s.Declared loose)
    (hl : loose → ∀ ty, leaves ty) :
    (p.items.flatMap Item.declarations).Forall₂ (fun d f => d.2.Gives d.1 f ∧
      f.toBody.Typed (p.globals natives) leaves fun _ => none) t.functions := by
  have hitems := Check.Concludes.mapM (x := Check.checkItem) p.items fun item hi =>
    Check.concludes_item hl (declared_globals h htame hnatives) item
      (fun d hd => htame.bodies d (List.mem_flatMap.2 ⟨item, hi, hd⟩))
      fun d hd => declared?_globals h (List.mem_flatMap.2 ⟨item, hi, hd⟩)
  obtain ⟨rfl, herr⟩ := check_ok h
  obtain ⟨-, hfs⟩ := hitems _ herr
  have henv : (p.structs.mapM structInfo? (declareItems p (.ofNatives natives)).2).2 =
      (declareItems p (.ofNatives natives)).2 := structInfos_env p.structs _
  have hdistinct := distinct_of_accepted ((accepted_iff p natives).1 ⟨_, h⟩)
  have houter : (declareItems p (.ofNatives natives)).2.Outer (p.globals natives) := by
    rw [globals, declareItems_eq (g := p.named natives) hdistinct rfl]
    exact ⟨rfl, rfl, fun _ _ h => (by cases h)⟩
  rw [← henv] at houter
  exact List.rel_flatten (List.forall₂_map_left_iff.2 (hfs houter).2)

end Program

end ScopedScript
