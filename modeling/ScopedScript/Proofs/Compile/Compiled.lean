import ScopedScript.Proofs.Compile.Emission

/-!
# What is compiled

The code of every expression and statement is as the layout of its tree says, by induction over the
tree; and the code of a function that is compiled from the start is that of its body.
-/

namespace ScopedScript

namespace Emit

variable {ids : Ids} {named : Nat}

theorem yields_declareParams : (params : List TParam) →
    Yields ids named (declareParams params) [] fun _ _ _ P _ P' =>
      P' = params.foldl (fun P p => P.declare p.name p.span) P
  | [] => (Yields.pure ()).weaken fun _ _ _ _ _ _ _ h => h.2
  | p :: rest => by
    refine (((yields_declareBinding p.name p.span).bind fun _ => .pure ()).bind fun _ =>
      yields_declareParams rest).weaken ?_
    rintro _ _ _ P _ _ - ⟨_, _, ⟨_, _, ⟨rfl, -⟩, -, rfl⟩, rfl⟩
    rfl

/-! ## Functions -/

/-- The lines of a function, up to the end of its code. -/
def bodyLines (ids : Ids) (params : List TParam) (body : List TStmt) (span : Option Span) :
    Emit (List Line) := do
  declareParams params
  let inner ← stmts ids 0 body
  let last ← constant .null span
  return inner ++ last ++ [.of .ret span]

/-- The code of a function, from its lines and what is known at its end. -/
def codeOf (ids : Ids) (params : List TParam) (isAsync : Bool) (lines : List Line) (f : FnState) :
    FunctionCode where
  name := f.name
  arity := params.length
  slotCount := f.slotNames.size
  slotNames := f.slotNames
  paramTags := params.map fun p => ids.tagOf p.ty
  isAsync := isAsync
  captures := f.captures
  code := (lines.map Line.instr).toArray
  constants := f.constants
  spans := (lines.map Line.span).toArray

/-- What a statement list yields, to be shown by induction over the tree. -/
abbrev StmtsYield (ids : Ids) (named : Nat) (body : List TStmt) : Prop :=
  ∀ start, Yields ids named (stmts ids start body) (stmtsBodies body)
    (Codes start (fun t f x P a b => StmtsAt t f x P a body b) fun P => P.stmts body)

theorem yields_bodyLines (params : List TParam) (span : Option Span) {body : List TStmt}
    (hbody : StmtsYield ids named body) :
    Yields ids named (bodyLines ids params body span) (stmtsBodies body) fun t f L P ls P' =>
      P' = (params.foldl (fun P p => P.declare p.name p.span) P).stmts body ∧
      ∀ brk join, Placed f brk join 0 ls → ∃ stop last,
        StmtsAt t f (exits L brk) (params.foldl (fun P p => P.declare p.name p.span) P)
          0 body stop ∧ f.HasConst stop .null span last ∧ f.Ends last .ret span ls.length := by
  refine (((yields_declareParams params).bind fun _ => (hbody 0).bind fun inner =>
    (yields_constant (0 + inner.length) .null span).bind fun last => .pure _).mono
      (by simp)).weaken ?_
  rintro t f L P _ _ - ⟨_, _, rfl, inner, _, ⟨rfl, hin⟩, last, _, ⟨rfl, hlast⟩, rfl, rfl⟩
  refine ⟨rfl, fun brk join hp => ?_⟩
  rw [placed_append, placed_append] at hp
  obtain ⟨⟨hpin, hplast⟩, hpret⟩ := hp
  refine ⟨_, _, hin brk join hpin, hlast brk join hplast, ?_⟩
  rw [Nat.zero_add, List.length_append] at hpret
  rw [Nat.zero_add, List.length_append, List.length_append]
  exact ⟨hpret.1, rfl⟩

/-- A function that is compiled from the start has the code of its body. -/
theorem bodyAt_codeOf {b : Body} {name : String} {e e' : Emitter} {lines : List Line}
    (hbody : StmtsYield ids named b.stmts) (hn : named ≤ e.functions.size)
    (hfn : e.fn = .start name b.captures)
    (hrun : bodyLines ids b.params b.stmts b.span e = (lines, e')) :
    e.Grows e' ∧ (e'.errors = #[] → Emitter.Adds ids named (stmtsBodies b.stmts) e e' ∧
      ∀ t, Emitter.Backs ids named e' t →
      BodyAt t (codeOf ids b.params b.isAsync lines e'.fn) b) := by
  have h := yields_bodyLines b.params b.span hbody e hn
  rw [hrun] at h
  obtain ⟨hg, h⟩ := h
  refine ⟨hg, fun herr => ?_⟩
  obtain ⟨-, ha, h⟩ := h herr
  refine ⟨ha, fun t ht => ?_⟩
  obtain ⟨hpoint, hcode⟩ := h t (codeOf ids b.params b.isAsync lines e'.fn)
    ⟨ht, List.prefix_rfl, List.prefix_rfl, Nat.le_refl _⟩
  have hstart : e.fn.loops = [] ∧ e.fn.point = ⟨b.captures, [[]], [], 0, 0⟩ := by
    rw [hfn]
    exact ⟨rfl, rfl⟩
  rw [hstart.2] at hpoint
  rw [hstart.1, hstart.2] at hcode
  obtain ⟨stop, last, hstmts, hnull, hret⟩ := hcode _ _ (placed_all rfl rfl)
  refine ⟨stop, hstmts, ?_⟩
  constructor
  case arity => rfl
  case slots => exact congrArg Point.slots hpoint
  case tags => exact ht.ids ▸ rfl
  case isAsync => rfl
  case captures => exact hg.captures.trans (congrArg FnState.captures hfn)
  case tail =>
    refine ⟨last, hnull, ?_⟩
    simpa [codeOf] using hret
  case spans => simp [codeOf]

/-- A lambda becomes a function of its own. -/
theorem yields_lambda {b : Body} (hb : b.isAsync = false) (hbody : StmtsYield ids named b.stmts) :
    Yields ids named (do
      let outer ← enterLambda b.captures
      declareParams b.params
      let inner ← stmts ids 0 b.stmts
      exitLambda outer (← finish ids b.params inner false b.span)) (stmtsBodies b.stmts ++ [b])
      fun t _ _ P id P' => P' = P ∧ ∃ g, t.functions[id]? = some (some g) ∧ BodyAt t g b := by
  intro e hn
  let outer : FnState := { e.fn with lambdaCount := e.fn.lambdaCount + 1 }
  let e₁ : Emitter :=
    { e with
      fn := .start (outer.name ++ "#lambda" ++ Decimal.natText outer.lambdaCount) b.captures }
  cases hrun : bodyLines ids b.params b.stmts b.span e₁ with
  | mk lines e' =>
  have hr : (do
      let outer ← enterLambda b.captures
      declareParams b.params
      let inner ← stmts ids 0 b.stmts
      exitLambda outer (← finish ids b.params inner false b.span) : Emit Nat) e =
      (e'.functions.size, { e' with
        fn := outer
        functions := e'.functions.push (some (codeOf ids b.params false lines e'.fn)) }) := by
    change exitLambda outer (codeOf ids b.params false
      (bodyLines ids b.params b.stmts b.span e₁).1 (bodyLines ids b.params b.stmts b.span e₁).2.fn)
      (bodyLines ids b.params b.stmts b.span e₁).2 = _
    rw [hrun]
    rfl
  rw [hr]
  obtain ⟨hg, h⟩ := bodyAt_codeOf (e := e₁) hbody hn rfl hrun
  have hsize : e.functions.size ≤ e'.functions.size := by
    have := hg.functions.length_le
    simp only [Array.length_toList] at this
    exact this
  refine ⟨⟨hg.errors, hg.natives, ?_, List.prefix_rfl, List.prefix_rfl, rfl, rfl⟩, fun herr => ?_⟩
  · refine hg.functions.trans ?_
    simp
  obtain ⟨ha, hcode⟩ := h herr
  rw [hb] at hcode
  have hlast :
      (e'.functions.push (some (codeOf ids b.params false lines e'.fn)))[e'.functions.size]? =
      some (some (codeOf ids b.params false lines e'.fn)) := by simp
  have hback {t : Tables} (ht : Emitter.Backs ids named { e' with
      fn := outer
      functions := e'.functions.push (some (codeOf ids b.params false lines e'.fn)) } t) :
      Emitter.Backs ids named e' t := by
    refine ⟨ht.ids, ht.natives, fun i g hi hg => ht.functions i g hi ?_⟩
    exact Emitter.getElem?_of_extends (by simp) hg
  refine ⟨rfl, fun i o hi ho => ?_, fun t f hf =>
    ⟨rfl, _, hf.functions _ _ (hn.trans hsize) hlast, hcode t (hback hf.toBacks)⟩⟩
  rw [Array.getElem?_push] at ho
  split at ho
  · cases ho
    exact ⟨_, b, rfl, by simp, fun t ht => hcode t (hback ht)⟩
  · obtain ⟨g, c, hgo, hc, hl⟩ := ha i o hi ho
    exact ⟨g, c, hgo, List.mem_append_left _ hc, fun t ht => hl t (hback ht)⟩

/-! ## Expressions and statements -/

theorem yields_branch {condition : TExpr} {thenBlock : List TStmt}
    {elifs : List (TExpr × List TStmt)} {elseBlock : Option (List TStmt)} (span : Option Span)
    (hc : ∀ start, Yields ids named (expr ids start condition) (exprBodies condition)
      (Codes start (fun t f _ P a b => ExprAt t f P a condition b) id))
    (hthen : StmtsYield ids named thenBlock)
    (helifs : ∀ start before, Yields ids named (elifBranches ids start before span elifs)
      (elifsBodies elifs) fun t f L P r P' => (P', r.2) = P.elifBranches before elifs ∧
        ∀ brk join, Placed f brk join start r.1 →
          ElifsAt t f (exits L brk) before span join P start elifs (start + r.1.length))
    (helse : ∀ start, Yields ids named (elseBranch ids start span elseBlock) (elseBodies elseBlock)
      (Codes start (fun t f x P a b => ElseAt t f x P a span elseBlock b)
        fun P => P.elseBranch elseBlock))
    (start : Nat) (rest : List TStmt) :
    Yields ids named (stmt ids start rest (.branch condition thenBlock elifs elseBlock span))
      (stmtBodies (.branch condition thenBlock elifs elseBlock span))
      (Codes start (fun t f x P a b =>
        StmtAt t f x P a rest (.branch condition thenBlock elifs elseBlock span) b)
        fun P => P.stmt rest (.branch condition thenBlock elifs elseBlock span)) := by
  rw [stmt, stmtBodies]
  refine ((yields_freed.bind fun before => (hc start).bind fun c =>
    ((hthen (start + c.length + 1 + 1)).inScope span).bind fun body =>
    yields_freed.bind fun afterThen =>
    (helifs (start + c.length + 1 + body.length + 1) before).bind fun middle =>
    (yields_setFreed before).bind fun _ =>
    (helse (start + c.length + 1 + body.length + 1 + middle.1.length)).bind fun last =>
    yields_freed.bind fun afterLast => (yields_setFreed _).bind fun _ =>
      .pure _).mono (by simp)).weaken ?_
  rintro t f L P _ _ - ⟨_, _, ⟨rfl, rfl⟩, c, _, ⟨rfl, hc⟩, body, _, ⟨rfl, hbody⟩, _, _, ⟨rfl, rfl⟩,
    middle, Pm, ⟨hm, hmiddle⟩, _, _, rfl, last, _, ⟨rfl, hlast⟩, _, _, ⟨rfl, rfl⟩, _, _, rfl, rfl,
    rfl⟩
  obtain ⟨rfl, hm₂⟩ := Prod.mk.inj hm
  refine ⟨by rw [hm₂]; rfl, fun brk join hp => ?_⟩
  rw [placed_closeBranch] at hp
  simp only [placed_append, placed_cons, placed_nil, and_true, List.length_append, List.length_cons,
    List.length_nil, Nat.zero_add, ← Nat.add_assoc] at hp
  obtain ⟨⟨⟨⟨⟨hpc, hjump⟩, hpbody⟩, hleave⟩, hpmiddle⟩, hplast⟩ := hp
  have hstop : start + ((c ++ [Line.of (.jumpIfFalse (start + c.length + 1 + body.length + 1))
      condition.span] ++ body ++ [Line.leaveBranch span] ++ middle.1 ++ last).map
        (Line.closeBranch (start + c.length + 1 + body.length + 1 + middle.1.length +
          last.length))).length =
      start + c.length + 1 + body.length + 1 + middle.1.length + last.length := by
    simp only [List.length_map, List.length_append, List.length_cons, List.length_nil]
    omega
  rw [hstop]
  exact ⟨_, _, _, _, hc _ _ hpc, hjump, hbody _ _ hpbody, ⟨hleave, rfl⟩, hmiddle _ _ hpmiddle,
    hlast brk _ hplast⟩

/-- A left operand that stays on the stack when it decides, and else the right one. -/
theorem Yields.decides {bodies bodies' : List Body} {start : Nat} {S S' : Segment}
    {x : Emit (List Line)} {y : Nat → Emit (List Line)}
    (hx : Yields ids named x bodies (Codes start S id)) (jump : Nat → Instr) (span : Option Span)
    (hy : ∀ start, Yields ids named (y start) bodies' (Codes start S' id)) :
    Yields ids named (do
      let l ← x
      let r ← y (start + l.length + 3)
      return l ++ [.of .dup span, .of (jump (start + l.length + 3 + r.length)) span,
        .of .pop span] ++ r)
      (bodies ++ bodies') (Codes start (fun t f x P a b => ∃ mid, S t f x P a mid ∧
        f.Has mid .dup span ∧ f.Has (mid + 1) (jump b) span ∧ f.Has (mid + 2) .pop span ∧
        S' t f x P (mid + 3) b) id) := by
  refine ((hx.bind fun l => (hy _).bind fun r => .pure _).mono (by simp)).weaken ?_
  rintro t f L P _ _ - ⟨l, _, ⟨rfl, hl⟩, r, _, ⟨rfl, hr⟩, rfl, rfl⟩
  refine ⟨rfl, fun brk join hp => ?_⟩
  rw [placed_append, placed_append] at hp
  obtain ⟨⟨hpl, hdup, hjump, hpop, -⟩, hpr⟩ := hp
  rw [List.length_append] at hpr
  have hstop : start + (l ++ [Line.of .dup span, .of (jump (start + l.length + 3 + r.length)) span,
      .of .pop span] ++ r).length = start + l.length + 3 + r.length := by
    simp only [List.length_append, List.length_cons, List.length_nil]
    omega
  rw [hstop]
  exact ⟨start + l.length, hl brk join hpl, hdup, hjump, hpop, hr brk join hpr⟩

theorem yields_declare {start : Nat} (name : String) (span : Option Span) :
    Yields ids named (do
      let slot ← declareBinding name span
      return [.of (.declare slot) span]) []
      (Codes start (fun _ f _ P a b => DeclareAt f P a name span b) fun P =>
        P.declare name span) := by
  refine ((yields_declareBinding name span).bind fun _ => .pure _).weaken ?_
  rintro _ f _ P _ _ - ⟨_, _, ⟨rfl, rfl, hlt, hname⟩, rfl, rfl⟩
  exact ⟨rfl, fun _ _ hp => ⟨hlt, hname, hp.1, rfl⟩⟩

mutual

theorem yields_expr (start : Nat) : (e : TExpr) →
    Yields ids named (expr ids start e) (exprBodies e)
      (Codes start (fun t f _ P a b => ExprAt t f P a e b) id)
  | .mk kind ty span => yields_kind start ty span kind

theorem yields_kind (start : Nat) (ty : Ty) (span : Option Span) : (k : TKind) →
    Yields ids named (kindCode ids start ty span k) (kindBodies span k)
      (Codes start (fun t f _ P a b => KindAt t f P a ty span k b) id)
  | .int value => yields_constant start (.int value) span
  | .float value => yields_constant start (.float value) span
  | .bool value => yields_constant start (.bool value) span
  | .string value => yields_constant start (.string value) span
  | .null => yields_constant start .null span
  | .binding name => yields_load name span
  | .function name => by
    rw [kindCode]
    split
    · rename_i id hid
      exact (yields_instr (.makeClosure id 0) span).code fun _ _ _ _ _ ht h => ⟨id, ht ▸ hid, h⟩
    · exact yields_unresolved _ _ _
  | .native name => (yields_nativeId name).value fun id => yields_instr (.loadNative id) span
  | .binary op left right =>
    (yields_expr start left).append_ends (fun l => yields_expr (start + l.length) right) _ span
  | .unary op operand => (yields_expr start operand).ends _ span
  | .logical op left right => by
    have hl := yields_expr start left
    have hr (start : Nat) := yields_expr start right
    cases op with
    | and => exact hl.decides .jumpIfFalse span hr
    | or => exact hl.decides .jumpIfTrue span hr
  | .call callee args => by
    cases callee with
    | function name =>
      simp only [kindCode]
      split
      · rename_i id hid
        exact ((yields_exprs start args).ends (.call id args.length) span).code
          fun _ _ _ _ _ ht ⟨last, h⟩ => ⟨_, last, ⟨id, ht ▸ hid, rfl⟩, h⟩
      · exact yields_unresolved _ _ _
    | method struct method =>
      simp only [kindCode]
      split
      · rename_i id hid
        exact ((yields_exprs start args).ends (.call id args.length) span).code
          fun _ _ _ _ _ ht ⟨last, h⟩ => ⟨_, last, ⟨id, ht ▸ hid, rfl⟩, h⟩
      · exact yields_unresolved _ _ _
    | native name =>
      simp only [kindCode]
      exact ((yields_nativeId name).value fun id =>
        (yields_exprs start args).ends (.callNative id args.length) span).code
          fun _ _ _ _ _ _ ⟨id, hid, last, h⟩ => ⟨_, last, ⟨id, hid, rfl⟩, h⟩
  | .callValue callee args =>
    (yields_expr start callee).append_ends (fun c => yields_exprs (start + c.length) args) _ span
  | .callDynamic callee args =>
    (yields_expr start callee).append_ends (fun c => yields_exprs (start + c.length) args) _ span
  | .callMethodDynamic method args => (yields_exprs start args).ends _ span
  | .field object field index => by
    cases index with
    | some i => exact (yields_expr start object).ends (.getField i) span
    | none => exact (yields_expr start object).ends (.getFieldDynamic field) span
  | .structInit name values => by
    rw [kindCode]
    split
    · rename_i id hid
      exact ((yields_exprs start values).ends (.makeStruct id values.length) span).code
        fun _ _ _ _ _ ht ⟨last, h⟩ => ⟨id, last, ht ▸ hid, h⟩
    · exact yields_unresolved _ _ _
  | .lambda params ret body captures =>
    (((yields_lambda (b := ⟨params, ret, body, captures, false, span⟩) rfl
      fun start => yields_stmts start body).value fun id =>
        (yields_loads span captures start).ends (.makeClosure id captures.length) span).mono
          fun _ h => by simpa [kindBodies] using h).code
      fun _ _ _ _ _ _ ⟨id, ⟨g, hg, inner, hs, hw⟩, last, h⟩ => ⟨id, g, last, inner, hg, hs, hw, h⟩
  | .spawn function args => by
    rw [kindCode]
    split
    · rename_i id hid
      exact ((yields_exprs start args).ends (.spawn id args.length) span).code
        fun _ _ _ _ _ ht ⟨last, h⟩ => ⟨id, last, ht ▸ hid, h⟩
    · exact yields_unresolved _ _ _
  | .await task => (yields_expr start task).ends _ span
  | .box inner => (yields_expr start inner).ends _ span
  | .unbox inner =>
    ((yields_expr start inner).ends (.unbox (ids.tagOf ty)) span).code
      fun _ _ _ _ _ ht ⟨last, h, hlast⟩ => ⟨last, h, ht.symm ▸ hlast⟩
  | .cast inner => by
    rw [kindCode]
    cases hty : castTarget? ty with
    | some target =>
      exact ((yields_expr start inner).ends (.cast target) span).code
        fun _ _ _ _ _ _ ⟨last, h⟩ => ⟨target, last, hty, h⟩
    | none =>
      refine (((yields_expr start inner).bind fun code =>
        Yields.reported (T := fun _ _ _ _ _ _ => False) (yields_report _ span)
          fun _ => .pure code).mono (by simp [kindBodies])).weaken ?_
      rintro _ _ _ _ _ _ - ⟨_, _, _, h⟩
      exact h.elim
  | .format parts => (yields_exprs start parts).ends _ span

theorem yields_exprs (start : Nat) : (es : List TExpr) →
    Yields ids named (exprs ids start es) (exprsBodies es)
      (Codes start (fun t f _ P a b => ExprsAt t f P a es b) id)
  | [] => yields_nil
  | e :: rest => (yields_expr start e).append fun code => yields_exprs (start + code.length) rest

theorem yields_stmt (start : Nat) (rest : List TStmt) : (s : TStmt) →
    Yields ids named (stmt ids start rest s) (stmtBodies s)
      (Codes start (fun t f x P a b => StmtAt t f x P a rest s b) fun P => P.stmt rest s)
  | .declare name _ ty none span => by
    have hbox (start : Nat) :
        Yields ids named (pure (if ty = .any then [Line.of .box span] else []))
        [] (Codes start (fun _ f _ _ a b => if ty = .any then f.Ends a .box span b else b = a)
          id) := by
      split
      · exact yields_instr .box span
      · exact yields_nil
    exact ((yields_constant start .null span).append fun code => (hbox (start + code.length)).append
      fun boxed => yields_declare name span).code fun _ _ _ _ _ _ h => by
        obtain ⟨mid, hn, last, hb, hd⟩ := h
        exact ⟨mid, last, hn, hb, hd⟩
  | .declare name _ _ (some value) span =>
    ((yields_expr start value).append fun _ => yields_declare name span).mono
      fun _ h => by simpa [stmtBodies] using h
  | .assign target value span =>
    ((yields_expr start value).append fun _ => yields_store target span).mono
      fun _ h => by simpa [stmtBodies] using h
  | .branch condition thenBlock elifs elseBlock span =>
    yields_branch span (fun start => yields_expr start condition)
      (fun start => yields_stmts start thenBlock)
      (fun start before => yields_elifBranches start before span elifs)
      (fun start => yields_elseBranch start span elseBlock) start rest
  | .loop condition body span => by
    refine (((yields_expr start condition).bind fun c => (Yields.inLoop start
      ((yields_stmts (start + c.length + 1 + 1) body).inScope span)).bind fun code =>
        .pure _).mono (by simp [stmtBodies])).weaken ?_
    rintro t f L P _ _ - ⟨c, _, ⟨rfl, hc⟩, code, _, ⟨_, ⟨rfl, hcode⟩, rfl⟩, rfl, rfl⟩
    refine ⟨rfl, fun brk join hp => ?_⟩
    simp only [placed_append, placed_cons, placed_nil, and_true, List.length_append,
      List.length_cons, List.length_nil, List.length_map, Nat.zero_add, ← Nat.add_assoc,
      placed_closeLoop] at hp
    obtain ⟨⟨⟨hpc, hjump⟩, hpcode⟩, hback⟩ := hp
    have hstop : start + (c ++ [Line.of (.jumpIfFalse (start + c.length + 1 + code.length + 1))
        condition.span] ++ code.map (Line.closeLoop (start + c.length + 1 + code.length + 1)) ++
          [Line.of (.jump start) span]).length = start + c.length + 1 + code.length + 1 := by
      simp only [List.length_map, List.length_append, List.length_cons, List.length_nil]
      omega
    rw [hstop]
    exact ⟨_, _, hc _ _ hpc, hjump, hcode _ _ hpcode, hback, rfl⟩
  | .block body span => (yields_stmts (start + 1) body).inScope span
  | .ret none span => (yields_constant start .null span).ends .ret span
  | .ret (some value) span => by
    have hm (r : Option Nat) : Yields ids named (match r with
        | some slot => return [.of (.move slot) value.span, .of .ret span]
        | none => do
          let code ← expr ids start value
          return code ++ [.of .ret span]) (exprBodies value)
        (Codes start (fun t f _ P a b => match r with
          | some slot => f.Has a (.move slot) value.span ∧ f.Ends (a + 1) .ret span b
          | none => ∃ last, ExprAt t f P a value last ∧ f.Ends last .ret span b) id) := by
      cases r with
      | some slot =>
        refine ((Yields.pure _).mono (List.nil_subset _)).weaken ?_
        rintro _ _ _ _ _ _ - ⟨rfl, rfl⟩
        exact ⟨rfl, fun _ _ hp => ⟨hp.1, hp.2.1, rfl⟩⟩
      | none => exact (yields_expr start value).ends .ret span
    refine (((yields_movedSlot? value).bind hm).mono (by simp [stmtBodies])).weaken ?_
    rintro t f L P ls Q - ⟨r, _, ⟨rfl, hs, hn⟩, hQ, hcode⟩
    refine ⟨hQ, fun brk join hp => ?_⟩
    have h := hcode brk join hp
    rename_i P
    cases hb : P.moved? value with
    | some b =>
      obtain ⟨rfl, hu⟩ := hs b hb
      simp only [StmtAt, hb]
      exact ⟨hu, h⟩
    | none =>
      obtain rfl := hn hb
      simp only [StmtAt, hb]
      exact h
  | .breakLoop span => by
    refine ((yields_exitLoopScopes start span).bind fun code =>
      .pure (code ++ [Line.leaveLoop span])).weaken ?_
    rintro t f L P _ _ - ⟨code, _, ⟨rfl, hcode⟩, rfl, rfl⟩
    refine ⟨rfl, fun brk join hp => ?_⟩
    obtain ⟨hpcode, hleave, -⟩ := placed_append.1 hp
    have h := hcode brk join hpcode
    rw [List.length_append]
    cases L with
    | nil =>
      change start + code.length = start at h
      change start + (code.length + 1) = start + 1
      omega
    | cons l outer => exact ⟨start + code.length, h, hleave, rfl⟩
  | .continueLoop span =>
    ((yields_exitLoopScopes start span).append fun _ => yields_jumpToStart span).code
      fun _ _ x _ _ _ ⟨mid, hs, hj⟩ => by
        cases x with
        | none => exact hj.trans hs
        | some x => exact ⟨mid, hs, hj⟩
  | .free name span => yields_free name span
  | .collect span => yields_collect rest span
  | .yieldNow span => yields_instr .yieldNow span
  | .eval value span => (yields_expr start value).ends .pop span

theorem yields_stmts (start : Nat) : (ss : List TStmt) →
    Yields ids named (stmts ids start ss) (stmtsBodies ss)
      (Codes start (fun t f x P a b => StmtsAt t f x P a ss b) fun P => P.stmts ss)
  | [] => yields_nil
  | s :: rest => (yields_stmt start rest s).append fun code =>
    yields_stmts (start + code.length) rest

theorem yields_elifBranches (start : Nat) (before : Freed) (span : Option Span) :
    (elifs : List (TExpr × List TStmt)) →
    Yields ids named (elifBranches ids start before span elifs) (elifsBodies elifs)
      fun t f L P r P' => (P', r.2) = P.elifBranches before elifs ∧
        ∀ brk join, Placed f brk join start r.1 →
          ElifsAt t f (exits L brk) before span join P start elifs (start + r.1.length)
  | [] => (Yields.pure ([], [])).weaken fun _ _ _ _ _ _ _ h => by
    rw [h.1, h.2]
    exact ⟨rfl, fun _ _ _ => rfl⟩
  | (condition, body) :: rest => by
    refine (((yields_setFreed before).bind fun _ => (yields_expr start condition).bind fun c =>
      ((yields_stmts (start + c.length + 1 + 1) body).inScope span).bind fun code =>
      yields_freed.bind fun _ =>
      (yields_elifBranches (start + c.length + 1 + code.length + 1) before span rest).bind
        fun later => .pure _).mono (by simp [elifsBodies])).weaken ?_
    rintro t f L P _ _ - ⟨_, _, rfl, c, _, ⟨rfl, hc⟩, code, _, ⟨rfl, hcode⟩, _, _, ⟨rfl, rfl⟩,
      later, _, ⟨hl, hlater⟩, rfl, rfl⟩
    obtain ⟨rfl, hl₂⟩ := Prod.mk.inj hl
    refine ⟨by rw [hl₂]; rfl, fun brk join hp => ?_⟩
    simp only [placed_append, placed_cons, placed_nil, and_true, List.length_append,
      List.length_cons, List.length_nil, Nat.zero_add, ← Nat.add_assoc] at hp
    obtain ⟨⟨⟨⟨hpc, hjump⟩, hpcode⟩, hleave⟩, hplater⟩ := hp
    have hstop : start + (c ++ [Line.of (.jumpIfFalse (start + c.length + 1 + code.length + 1))
        condition.span] ++ code ++ [Line.leaveBranch span] ++ later.1).length =
        start + c.length + 1 + code.length + 1 + later.1.length := by
      simp only [List.length_append, List.length_cons, List.length_nil]
      omega
    rw [hstop]
    exact ⟨_, _, _, hc _ _ hpc, hjump, hcode _ _ hpcode, ⟨hleave, rfl⟩, hlater _ _ hplater⟩

theorem yields_elseBranch (start : Nat) (span : Option Span) : (elseBlock : Option (List TStmt)) →
    Yields ids named (elseBranch ids start span elseBlock) (elseBodies elseBlock)
      (Codes start (fun t f x P a b => ElseAt t f x P a span elseBlock b)
        fun P => P.elseBranch elseBlock)
  | none => yields_nil
  | some body => (yields_stmts (start + 1) body).inScope span

end

end Emit

end ScopedScript
