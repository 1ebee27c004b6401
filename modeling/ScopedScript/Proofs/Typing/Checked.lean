import ScopedScript.Proofs.Compile.Modules
import ScopedScript.Proofs.Typing.Grounded
import ScopedScript.Proofs.Typing.Looped

/-!
# Checked programs are in order

When the checker comes to bodies it knows the names that the program declares, and all of them are
names of the program that it makes. So in every body of an accepted program all names are in order.
-/

namespace ScopedScript

open Check

/-! ## The names that are declared -/

/-- All that the checker knows are structs, methods and functions of the program. -/
structure Program.Declares (p : Program) (g : Globals) : Prop where
  structs : ∀ name, (g.structs.lookup name).isSome → ∃ d ∈ p.structs, d.name = name
  functions : ∀ name sig, g.functions.lookup name = some sig →
    ∃ d ∈ p.functions, d.name = name ∧ d.isAsync = sig.isAsync
  methods : ∀ struct sig method, g.structs.lookup struct = some sig →
    (sig.methods.lookup method).isSome → ∃ d ∈ p.structs, d.name = struct ∧ ∃ m ∈ d.methods,
    m.name = method

theorem isSome_lookup_cons {name k : String} {a : α} {rest : List (String × α)}
    (h : (((k, a) :: rest).lookup name).isSome) : k = name ∨ (rest.lookup name).isSome := by
  rw [List.lookup_cons] at h
  split at h
  · rename_i hk
    exact .inl (beq_iff_eq.1 hk).symm
  · exact .inr h

namespace Program.Declares

variable {p : Program} {g : Globals}

theorem struct {d : StructDecl} {sig : StructSig} (h : p.Declares g) (hd : d ∈ p.structs)
    (hs : ∀ method, (sig.methods.lookup method).isSome → ∃ m ∈ d.methods, m.name = method) :
    p.Declares { g with structs := (d.name, sig) :: g.structs } := by
  refine ⟨fun name hn => ?_, h.functions, fun struct sig' method hl hm => ?_⟩
  · rcases isSome_lookup_cons hn with rfl | hn
    · exact ⟨d, hd, rfl⟩
    · exact h.structs name hn
  · change ((d.name, sig) :: g.structs).lookup struct = some sig' at hl
    rw [List.lookup_cons] at hl
    split at hl
    · rename_i hk
      obtain rfl := Option.some.inj hl
      exact ⟨d, hd, (beq_iff_eq.1 hk).symm, hs method hm⟩
    · exact h.methods struct sig' method hl hm

theorem function {d : FunctionDecl} {sig : Signature} (h : p.Declares g) (hd : d ∈ p.functions)
    (hs : sig.isAsync = d.isAsync) :
    p.Declares { g with functions := (d.name, sig) :: g.functions } := by
  refine ⟨h.structs, fun name sig' hl => ?_, h.methods⟩
  change ((d.name, sig) :: g.functions).lookup name = some sig' at hl
  rw [List.lookup_cons] at hl
  split at hl
  · rename_i hk
    obtain rfl := Option.some.inj hl
    exact ⟨d, hd, (beq_iff_eq.1 hk).symm, hs.symm⟩
  · exact h.functions name sig' hl

end Program.Declares

namespace Check

variable {p : Program}

/-- A step that makes names of the program known. -/
def Declaring (p : Program) (x : Check α) : Prop :=
  Takes x fun env env' _ => env'.contexts = env.contexts ∧
    (p.Declares env.globals → p.Declares env'.globals)

theorem Declaring.after {x : Check α} {y : α → Check β} (hx : Declaring p x)
    (hy : ∀ a, Declaring p (y a)) : Declaring p (x >>= y) :=
  (hx.bind hy).weaken fun _ _ _ ⟨_, _, ⟨hc, hd⟩, hc', hd'⟩ => ⟨hc'.trans hc, fun h => hd' (hd h)⟩

theorem Declaring.quiet {x : Check α} {Q : Globals → α → Prop} (hx : Quiet x Q) :
    Declaring p x := by
  refine (Quiet.takes hx).weaken ?_
  rintro env env' a ⟨⟨n, rfl⟩, -⟩
  exact ⟨rfl, fun h => h⟩

theorem declaring_modify (g : Globals → Globals) (hg : ∀ g₀, p.Declares g₀ → p.Declares (g g₀)) :
    Declaring p (modify fun e => { e with globals := g e.globals }) := by
  refine (takes_modify (fun e => { e with globals := g e.globals }) fun _ => rfl).weaken ?_
  rintro env env' - rfl
  exact ⟨rfl, hg _⟩

theorem Declaring.forM {g : α → Check PUnit} (as : List α) (hg : ∀ a ∈ as, Declaring p (g a)) :
    Declaring p (as.forM g) := by
  induction as with
  | nil => exact .quiet (Quiet.pure (Q := fun _ _ => True) fun _ => trivial)
  | cons a rest ih =>
    exact (hg a List.mem_cons_self).after fun _ => ih fun b hb => hg b (List.mem_cons_of_mem _ hb)

theorem declaring_structName {d : StructDecl} (hd : d ∈ p.structs) :
    Declaring p (declareStructName d) := by
  refine (Declaring.quiet (quiet_structSig? d.name)).after fun sig => ?_
  split
  · exact .quiet (quiet_report (Q := fun _ _ => True) _ _)
  · exact declaring_modify (fun g => { g with structs := (d.name, ⟨[], []⟩) :: g.structs })
      fun _ h => h.struct hd fun _ hm => nomatch hm

/-- Declaring fields declares no methods. -/
theorem quiet_declareFields (d : StructDecl) (sig : StructSig) (fields : List FieldDecl) :
    Quiet (declareFields d sig fields) fun _ sig' => sig'.methods = sig.methods := by
  induction fields generalizing sig with
  | nil => exact .pure fun _ => rfl
  | cons field rest ih =>
    unfold declareFields
    dsimp only
    split
    · exact .reported (ih sig)
    · exact (reports_resolveType field.type _).quiet.after fun _ => ih _

theorem quiet_resolveSignature (d : FunctionDecl) :
    Quiet (resolveSignature d) fun _ sig => sig.isAsync = d.isAsync := by
  refine Quiet.after (Q := fun _ _ => True) (quiet_mapM (fun p => ?_) d.params) fun _ => ?_
  · exact (reports_resolveType _ _).quiet.weaken fun _ _ _ => trivial
  · exact (reports_resolveReturn _ _).quiet.after fun _ => .pure fun _ => rfl

/-- The methods are those of before and those of the list. -/
theorem quiet_declareMethods (d : StructDecl) (sig : StructSig) (methods : List FunctionDecl) :
    Quiet (declareMethods d sig methods) fun _ sig' =>
      ∀ method, (sig'.methods.lookup method).isSome →
      (sig.methods.lookup method).isSome ∨ ∃ m ∈ methods, m.name = method := by
  induction methods generalizing sig with
  | nil => exact .pure fun _ _ h => .inl h
  | cons m rest ih =>
    have hmore {sig' : StructSig} : (∀ method, (sig'.methods.lookup method).isSome →
        (sig.methods.lookup method).isSome ∨ m.name = method) →
        Quiet (declareMethods d sig' rest) fun _ sig'' =>
          ∀ method, (sig''.methods.lookup method).isSome →
          (sig.methods.lookup method).isSome ∨ ∃ m' ∈ m :: rest, m'.name = method := by
      refine fun hsig => (ih sig').weaken fun _ _ h method hm => ?_
      rcases h method hm with hm | ⟨m', hm', hn⟩
      · exact (hsig method hm).imp_right fun hn => ⟨m, List.mem_cons_self, hn⟩
      · exact .inr ⟨m', List.mem_cons_of_mem _ hm', hn⟩
    unfold declareMethods
    refine .reportedIf fun _ => ?_
    split
    · exact .reported (hmore fun _ h => .inl h)
    · refine (quiet_resolveSignature m).after fun s => hmore fun method h => ?_
      change ((sig.methods ++ [(m.name, s)]).lookup method).isSome at h
      rw [List.lookup_append, Option.isSome_or, Bool.or_eq_true] at h
      refine h.imp_right fun h => ?_
      exact (isSome_lookup_cons h).resolve_right (by simp)

theorem declaring_struct {d : StructDecl} (hd : d ∈ p.structs) : Declaring p (declareStruct d) := by
  refine ((Quiet.takes (quiet_declareFields d _ _)).bind fun sig =>
    (Quiet.takes (quiet_declareMethods d sig _)).bind fun sig' =>
      takes_modify (fun e =>
        { e with globals := { e.globals with structs := (d.name, sig') :: e.globals.structs } })
        fun _ => rfl).weaken ?_
  rintro env env' _ ⟨sig, _, ⟨⟨n, rfl⟩, hnone⟩, sig', _, ⟨⟨n', rfl⟩, hmethods⟩, rfl⟩
  refine ⟨rfl, fun h => h.struct hd fun method hm =>
    (hmethods method hm).resolve_left fun hold => ?_⟩
  rw [hnone] at hold
  cases hold

theorem declaring_function {d : FunctionDecl} (hd : d ∈ p.functions) :
    Declaring p (declareFunction d) := by
  refine (Declaring.quiet (quiet_functionSig? d.name)).after fun sig => ?_
  split
  · exact .quiet (quiet_report (Q := fun _ _ => True) _ _)
  · refine ((Quiet.takes (quiet_resolveSignature d)).bind fun sig => takes_modify (fun e =>
      { e with globals := { e.globals with functions := (d.name, sig) :: e.globals.functions } })
        fun _ => rfl).weaken ?_
    rintro env env' _ ⟨sig, _, ⟨⟨n, rfl⟩, hs⟩, rfl⟩
    exact ⟨rfl, fun h => h.function hd hs⟩

theorem declaring_items (p : Program) : Declaring p (declareItems p) :=
  (Declaring.forM _ fun _ => declaring_structName).after fun _ =>
    (Declaring.forM _ fun _ => declaring_struct).after fun _ => Declaring.forM _ fun _ =>
      declaring_function

end Check

/-! ## Functions -/

/-- The name of a function, or of a method of the given struct. -/
def FunctionDecl.symbol (struct : Option String) (d : FunctionDecl) : String :=
  match struct with
  | some s => methodSymbol s d.name
  | none => d.name

def Item.symbols : Item → List String
  | .function d => [d.symbol none]
  | .struct d => d.methods.map (FunctionDecl.symbol (some d.name))

section

variable (ids : Ids) (frees : List (String × Option Span))

/-- No function is being checked. -/
def Outside (env : Env) : Prop := env.contexts = [] ∧ ids.Covers env.globals

/-- Functions of these names are checked, and are in order. -/
def Finishes (names : List String) (env env' : Env) (fs : List TFunction) : Prop :=
  fs.map TFunction.name = names ∧
    (Outside ids env → Outside ids env' ∧ ∀ f ∈ fs, f.toBody.Grounded ids frees)

end

namespace Check

variable {ids : Ids} {frees : List (String × Option Span)}

theorem takes_declareSelf (ids : Ids) (d : FunctionDecl) (struct : Option String) :
    Takes (declareSelf d struct) fun env env' receiver => Enters ids receiver env env' := by
  cases struct with
  | none =>
    refine (Takes.pure _).weaken ?_
    rintro env env' _ ⟨rfl, rfl⟩
    exact enters_nil env'
  | some name =>
    refine ((enters_declare ids ⟨"self", .struct name, false, d.span⟩ .receiver d.span).bind
      fun _ => Takes.pure _).weaken ?_
    rintro env env' _ ⟨_, mid, h, rfl, rfl⟩
    exact h

theorem takes_declareParams (ids : Ids) (span : Option Span) (before : List TParam)
    (params : List (Param × Ty)) : Takes (declareParams span before params) fun env env' all =>
      ∃ added, all = before ++ added ∧ Enters ids added env env' := by
  induction params generalizing before with
  | nil =>
    refine (Takes.pure _).weaken ?_
    rintro env env' _ ⟨rfl, rfl⟩
    exact ⟨[], (List.append_nil _).symm, enters_nil env'⟩
  | cons p rest ih =>
    obtain ⟨p, ty⟩ := p
    let q : TParam := ⟨p.name, ty, p.mutable, p.span⟩
    refine (Takes.reportedIf (c := (before.any fun q => q.name == p.name) = true)
      (x := fun _ => declare p.name ty p.mutable .param .init p.span >>= fun _ =>
        declareParams span (before ++ [q]) rest)
      ((enters_declare ids q .param p.span).bind fun _ => ih (before ++ [q]))).weaken ?_
    rintro env env' all ⟨-, _, mid, h, added, rfl, h'⟩
    exact ⟨_, List.append_assoc .., h.append h'⟩

/-- A function that is not inside another one captures nothing. -/
theorem completes_first {params : List TParam} {body : List TStmt} {env env' : Env} {ret : Ty}
    {isAsync : Bool} (h : Completes ids frees params body (env.entered ret isAsync) env')
    (ho : Outside ids env) (span : Option Span) :
    Outside ids env'.exited ∧ (Body.mk params ret body [] isAsync span).Grounded ids frees := by
  have hf : (env.entered ret isAsync).Fine ids := Env.fine_first ho.2 ho.1
  have hlast := h hf
  have hcontexts : env.contexts.Forall₂ Grown env'.exited.contexts := hlast.beyond.contexts
  rw [ho.1] at hcontexts
  have hnil : env'.contexts.tail = [] := List.forall₂_nil_left_iff.1 hcontexts
  -- there is nothing around it that it could capture
  have hcaptures : env'.captures = [] := by
    refine List.eq_nil_iff_forall_not_mem.2 fun name hn => ?_
    have := hlast.fine.captured hn
    rw [hnil] at this
    exact this
  refine ⟨⟨hnil, hlast.fine.covers⟩, ?_⟩
  rw [← hcaptures]
  exact h.grounded hf span

theorem quiet_declaredSignature (d : FunctionDecl) (struct : Option String) :
    Quiet (declaredSignature d struct) fun _ _ => True := by
  cases struct with
  | none => exact (quiet_functionSig? d.name).after fun _ => .pure fun _ => trivial
  | some name => exact (quiet_structSig? name).after fun _ => .pure fun _ => trivial

theorem finishes_function (ids : Ids) (struct : Option String) (d : FunctionDecl)
    (h : stmtsFrees d.body ⊆ frees) : Takes (checkFunction struct d) fun env env' f =>
      Finishes ids frees [d.symbol struct] env env' [f] := by
  have hstmts : Takes (checkStmts d.body) (FallingAll ids frees) := fallingAll_stmts d.body h
  refine ((Quiet.takes (quiet_declaredSignature d struct)).bind fun sig =>
    (takes_enterFunction sig.ret d.isAsync).bind fun _ =>
      (takes_declareSelf ids d struct).bind fun receiver =>
      (takes_declareParams ids d.span receiver _).bind fun params => hstmts.bind fun r =>
        .reportedIf (takes_exitFunction.bind fun _ => Takes.pure _)).weaken ?_
  rintro env env' f ⟨sig, _, ⟨⟨n, rfl⟩, -⟩, _, _, rfl, receiver, mid, hself, params, last,
    ⟨added, rfl, hparams⟩, r, last', hbody, -, _, _, ⟨rfl, rfl⟩, rfl, rfl⟩
  refine ⟨by cases struct <;> rfl, fun ho => ?_⟩
  have henter := hself.append hparams
  have hall : Completes ids frees (receiver ++ added) r.1
      (Env.entered { env with narrowed := n } sig.ret d.isAsync)
      last' := fun hf => completes henter hbody hf
  obtain ⟨ho', hG⟩ := completes_first hall ho d.span
  exact ⟨ho', fun f hf => by rw [List.mem_singleton.1 hf]; exact hG⟩

theorem finishes_mapM {g : α → Check β} {names : α → List String} (h : β → List TFunction)
    (as : List α)
    (hg : ∀ a ∈ as, Takes (g a) fun env env' b => Finishes ids frees (names a) env env' (h b)) :
    Takes (as.mapM g) fun env env' bs =>
      Finishes ids frees (as.flatMap names) env env' (bs.flatMap h) := by
  induction as with
  | nil =>
    refine (Takes.pure _).weaken ?_
    rintro env env' _ ⟨rfl, rfl⟩
    exact ⟨rfl, fun ho => ⟨ho, fun _ hf => nomatch hf⟩⟩
  | cons a rest ih =>
    rw [List.mapM_cons]
    refine ((hg a List.mem_cons_self).bind fun b =>
      (ih fun a ha => hg a (List.mem_cons_of_mem _ ha)).bind fun bs => Takes.pure _).weaken ?_
    rintro env env' _ ⟨b, mid, ⟨hn, hb⟩, bs, last, ⟨hns, hbs⟩, rfl, rfl⟩
    refine ⟨?_, fun ho => ?_⟩
    · rw [List.flatMap_cons, List.map_append, hn, hns, List.flatMap_cons]
    · obtain ⟨ho', hG⟩ := hb ho
      obtain ⟨ho'', hG'⟩ := hbs ho'
      refine ⟨ho'', fun f hf => ?_⟩
      rw [List.flatMap_cons] at hf
      exact (List.mem_append.1 hf).elim (hG f) (hG' f)

theorem finishes_item (ids : Ids) (item : Item) (h : item.frees ⊆ frees) :
    Takes (checkItem item) fun env env' fs => Finishes ids frees item.symbols env env' fs := by
  cases item with
  | function d =>
    refine ((finishes_function ids none d h).bind fun f => Takes.pure _).weaken ?_
    rintro env env' _ ⟨f, _, hf, rfl, rfl⟩
    exact hf
  | struct d =>
    have hmethod (m : FunctionDecl) (hm : m ∈ d.methods) : Takes (checkFunction (some d.name) m)
        fun env env' f => Finishes ids frees [m.symbol (some d.name)] env env' [f] :=
      finishes_function ids (some d.name) m fun x hx => h (List.mem_flatMap.2 ⟨m, hm, hx⟩)
    refine (finishes_mapM (fun f => [f]) d.methods hmethod).weaken fun env env' fs hfs => ?_
    rw [List.flatMap_singleton', ← List.map_eq_flatMap] at hfs
    exact hfs

end Check

/-! ## Programs -/

theorem Program.mem_structs {p : Program} {d : StructDecl} (h : d ∈ p.structs) :
    .struct d ∈ p.items := by
  obtain ⟨item, hi, hd⟩ := List.mem_filterMap.1 h
  cases item with
  | struct d' =>
    cases hd
    exact hi
  | function d' => cases hd

theorem Program.mem_functions {p : Program} {d : FunctionDecl} (h : d ∈ p.functions) :
    .function d ∈ p.items := by
  obtain ⟨item, hi, hd⟩ := List.mem_filterMap.1 h
  cases item with
  | function d' =>
    cases hd
    exact hi
  | struct d' => cases hd

theorem isSome_lookup_numbered {names : List String} {name : String} (h : name ∈ names) :
    ((numbered names).lookup name).isSome := by
  obtain ⟨i, hi⟩ := List.mem_iff_getElem?.1 h
  rw [Option.isSome_iff_ne_none]
  intro hnone
  have := List.lookup_eq_none_iff.1 hnone (name, i)
    (List.mem_reverse.2 (List.mem_zipIdx_iff_getElem?.2 hi))
  simp at this

/-- The struct table of a program that declares its structs has all of them. -/
theorem Check.quiet_structInfos (ds : List StructDecl) : Quiet (ds.mapM structInfo?) fun g infos =>
    ∀ d ∈ ds, (g.structs.lookup d.name).isSome →
    d.name ∈ (infos.filterMap id).map StructInfo.name := by
  induction ds with
  | nil => exact .pure fun _ _ hd => nomatch hd
  | cons d rest ih =>
    rw [List.mapM_cons]
    have hinfo : Quiet (structInfo? d) fun g info =>
        (g.structs.lookup d.name).isSome → ∃ i, info = some i ∧ i.name = d.name := by
      refine (quiet_structSig? d.name).bind fun sig => ?_
      split
      · exact .pure fun g hs h => by rw [← hs] at h; cases h
      · exact .pure fun g _ _ => ⟨_, rfl, rfl⟩
    refine hinfo.bind fun info => ih.bind fun infos => .pure fun g hrest hfirst d' hd' hsome => ?_
    rcases List.mem_cons.1 hd' with rfl | hd'
    · obtain ⟨i, rfl, hi⟩ := hfirst hsome
      exact List.mem_map.2 ⟨i, List.mem_cons_self, hi⟩
    · obtain ⟨i, hi, hn⟩ := List.mem_map.1 (hrest d' hd' hsome)
      refine List.mem_map.2 ⟨i, ?_, hn⟩
      rw [List.filterMap_cons]
      split
      · exact hi
      · exact List.mem_cons_of_mem _ hi

/-- The names that a program declares are those of what is made of it. -/
theorem Program.Declares.covers {p : Program} {g : Globals} {t : TProgram} (h : p.Declares g)
    (hs : ∀ d ∈ p.structs, (g.structs.lookup d.name).isSome →
      d.name ∈ t.structs.map StructInfo.name)
    (hf : t.functions.map TFunction.name = p.items.flatMap Item.symbols) :
    (Ids.ofProgram t).Covers g := by
  constructor
  case structs =>
    intro name hn
    obtain ⟨d, hd, rfl⟩ := h.structs name hn
    exact isSome_lookup_numbered (hs d hd hn)
  case functions =>
    intro name hn
    obtain ⟨sig, hs⟩ := Option.isSome_iff_exists.1 hn
    obtain ⟨d, hd, rfl, -⟩ := h.functions name sig hs
    refine isSome_lookup_numbered (hf ▸ List.mem_flatMap.2 ⟨_, p.mem_functions hd, ?_⟩)
    exact List.mem_singleton.2 rfl
  case methods =>
    intro struct sig method hl hm
    obtain ⟨d, hd, rfl, m, hmem, rfl⟩ := h.methods struct sig method hl hm
    refine isSome_lookup_numbered (hf ▸ List.mem_flatMap.2 ⟨_, p.mem_structs hd, ?_⟩)
    exact List.mem_map.2 ⟨m, hmem, rfl⟩

/-- What is made of a program, with the names that are known when its bodies are checked. -/
structure Program.Makes (p : Program) (ids : Ids) (g : Globals) (t : TProgram) : Prop where
  declares : p.Declares g
  structs : ∀ d ∈ p.structs, (g.structs.lookup d.name).isSome →
    d.name ∈ t.structs.map StructInfo.name
  functions : t.functions.map TFunction.name = p.items.flatMap Item.symbols
  grounded : ids.Covers g → ∀ f ∈ t.functions, f.toBody.Grounded ids p.frees

theorem Check.takes_checkItems (ids : Ids) (p : Program) : Takes (checkItems p) fun env _ t =>
    env.contexts = [] → p.Declares env.globals → ∃ g, p.Makes ids g t := by
  have hitems := finishes_mapM id p.items fun item hi => finishes_item ids item
    fun x hx => List.mem_flatMap.2 ⟨item, hi, hx⟩
  refine ((declaring_items p).bind fun _ =>
    (Quiet.takes (quiet_structInfos p.structs)).bind fun infos =>
    hitems.bind fun fs => Takes.pure _).weaken ?_
  rintro env env' _ ⟨_, mid, ⟨hc, hd⟩, infos, _, ⟨⟨n, rfl⟩, hinfos⟩, fs, last, ⟨hn, hG⟩, rfl,
    rfl⟩ henv hdecl
  rw [List.flatMap_id] at hn hG
  exact ⟨mid.globals, hd hdecl, hinfos, hn, fun hcov => (hG ⟨hc.trans henv, hcov⟩).2⟩

/-- At first only built-ins are known. -/
theorem Program.declares_ofNatives (p : Program) (natives : List (String × Signature)) :
    p.Declares (Env.ofNatives natives).globals :=
  ⟨(fun _ h => nomatch h), (fun _ _ h => nomatch h), fun _ _ _ h => nomatch h⟩

/-- In the bodies of an accepted program all names are in order. -/
theorem Program.check_grounded {p : Program} {natives : List (String × Signature)} {t : TProgram}
    (h : p.check natives = .ok t) : ∀ b ∈ t.bodies, b.Grounded (.ofProgram t) p.frees := by
  obtain ⟨hmake, herr⟩ := Program.check_ok h
  obtain ⟨-, hitems⟩ := takes_checkItems (.ofProgram t) p _ herr
  obtain ⟨g, hg⟩ := hitems rfl (p.declares_ofNatives natives)
  rw [hmake] at hg
  have hfunctions := hg.grounded (hg.declares.covers hg.structs hg.functions)
  intro b hb
  obtain ⟨f, hf, hb⟩ := List.mem_flatMap.1 hb
  rcases List.mem_cons.1 hb with rfl | hb
  · exact hfunctions f hf
  · exact StmtsGrounded.bodies f.body (hfunctions f hf) hb

end ScopedScript
