import ScopedScript.Proofs.Compile.BareEmission
import ScopedScript.Proofs.Compile.Modules
import ScopedScript.Proofs.Typing.Looped

/-!
# Compiling without early releases

The bare form of a program that compiles is compiled to the bare form of its module, by induction
over its trees and then function by function.
-/

namespace ScopedScript

namespace Emit

/-! ## Functions -/

/-- What a list of statements comes to, to be shown by induction over the tree. -/
abbrev StmtsThin (ids : Ids) (inside : Bool) (body : List TStmt) : Prop :=
  ∀ start, Thins inside start (stmts ids start body) fun s => stmts ids s (tstmtsBare body)

theorem thins_bodyLines {ids : Ids} (params : List TParam) (span : Option Span) {body : List TStmt}
    (hbody : StmtsThin ids false body) (e : Emitter)
    (he : (bodyLines ids params body span e).2.errors = #[]) :
    e.errors = #[] ∧ (∀ l ∈ (bodyLines ids params body span e).1, l.Fixed false) ∧
      ∀ g, g 0 = 0 → Agrees g 0 (bodyLines ids params body span e).1 →
        bodyLines ids params (tstmtsBare body) span (e.bare g) =
          (thin g (bodyLines ids params body span e).1,
            (bodyLines ids params body span e).2.bare g) := by
  have h : Thins false 0 (bodyLines ids params body span) fun s => do
      declareParams params
      let inner ← stmts ids s (tstmtsBare body)
      let last ← constant .null span
      return inner ++ last ++ [.of .ret span] :=
    .value (z := fun _ s => do
      let inner ← stmts ids s (tstmtsBare body)
      let last ← constant .null span
      return inner ++ last ++ [.of .ret span]) (follows_declareParams params) fun _ =>
        (hbody 0).append_ends (fun _ => thins_constant .null span) fun _ => rfl
  obtain ⟨he₀, hf, h⟩ := h e he
  refine ⟨he₀, hf, fun g hzero hg => ?_⟩
  have := h g hg
  rw [hzero] at this
  exact this

/-- Where the lines of a function go when it has been finished. -/
def lineAddress (ls : List Line) (k : Nat) : Nat := (ls.take k).countP Line.stays

theorem agrees_lineAddress (ls : List Line) : Agrees (lineAddress ls) 0 ls := fun k _ => by
  rw [Nat.zero_add]
  exact (Nat.zero_add _).symm

/-- The lines that stay are the bare form of the function of all lines. -/
theorem codeOf_thin {ids : Ids} (params : List TParam) (isAsync : Bool) {ls : List Line}
    (fn : FnState) (hf : ∀ l ∈ ls, l.Fixed false) :
    codeOf ids params isAsync (thin (lineAddress ls) ls) (fn.bare (lineAddress ls)) =
      (codeOf ids params isAsync ls fn).bare := by
  have haddress : (codeOf ids params isAsync ls fn).bareAddress = lineAddress ls := by
    funext k
    change ((ls.map Line.instr).take k).countP Instr.stays = (ls.take k).countP Line.stays
    rw [← List.map_take, List.countP_map]
    rfl
  have hcode : (thin (lineAddress ls) ls).map Line.instr =
      ((ls.map Line.instr).filter Instr.stays).map (Instr.retarget (lineAddress ls)) := by
    rw [thin, List.filter_map, List.map_map, List.map_map]
    exact List.map_congr_left fun l hl => Line.instr_retarget (hf l (List.mem_filter.1 hl).1)
  have hspans : (thin (lineAddress ls) ls).map Line.span =
      (((ls.map Line.instr).zip (ls.map Line.span)).filter fun l => l.1.stays).map Prod.snd := by
    rw [List.zip_map', List.filter_map, List.map_map, thin, List.map_map]
    exact List.map_congr_left fun l _ => Line.span_retarget l
  unfold FunctionCode.bare
  rw [haddress]
  simp only [codeOf, hcode, hspans, FnState.bare]

/-- A lambda becomes a function of its own, whose addresses have nothing to do with those around. -/
theorem follows_lambda {ids : Ids} (params : List TParam) (captures : List String)
    (span : Option Span) {body : List TStmt} (hbody : StmtsThin ids false body) : Follows id (do
        let outer ← enterLambda captures
        declareParams params
        let inner ← stmts ids 0 body
        exitLambda outer (← finish ids params inner false span)) (do
        let outer ← enterLambda captures
        declareParams params
        let inner ← stmts ids 0 (tstmtsBare body)
        exitLambda outer (← finish ids params inner false span)) := by
  intro e he
  let name := e.fn.name ++ "#lambda" ++ Decimal.natText (e.fn.lambdaCount + 1)
  let e₁ : Emitter := { e with fn := .start name captures }
  obtain ⟨he₀, hf, hlines⟩ := thins_bodyLines params span hbody e₁ he
  refine ⟨he₀, fun g => ?_⟩
  let ls := (bodyLines ids params body span e₁).1
  have hbare := hlines (lineAddress ls) rfl (agrees_lineAddress ls)
  have hrun : (do
        let outer ← enterLambda captures
        declareParams params
        let inner ← stmts ids 0 (tstmtsBare body)
        exitLambda outer (← finish ids params inner false span) : Emit Nat) (e.bare g) =
      exitLambda (FnState.bare g { e.fn with lambdaCount := e.fn.lambdaCount + 1 })
        (codeOf ids params false
          (bodyLines ids params (tstmtsBare body) span (e₁.bare (lineAddress ls))).1
          (bodyLines ids params (tstmtsBare body) span (e₁.bare (lineAddress ls))).2.fn)
        (bodyLines ids params (tstmtsBare body) span (e₁.bare (lineAddress ls))).2 := rfl
  rw [hrun, hbare]
  dsimp only [Emitter.bare]
  rw [codeOf_thin params false _ hf]
  refine Prod.ext ?_ ?_
  · exact Array.size_map ..
  · change ({ fn := _, functions := Array.push _ _, natives := _, errors := _ } : Emitter) =
      { fn := _, functions := (Array.push _ _).map _, natives := _, errors := _ }
    rw [Array.map_push]
    rfl

/-! ## Statements with parts -/

section

variable {ids : Ids} {inside : Bool} {start : Nat}

theorem thins_loop {condition : TExpr} {body : List TStmt} (span : Option Span)
    (hc : ∀ start, Thins inside start (expr ids start condition) fun s => expr ids s condition.bare)
    (hbody : StmtsThin ids true body) (rest rest' : List TStmt) :
    Thins inside start (stmt ids start rest (.loop condition body span))
      fun s => stmt ids s rest' (.loop condition.bare (tstmtsBare body) span) := by
  intro e he
  have hc := hc start e
  cases hcrun : expr ids start condition e with
  | mk c e₁ =>
  have hb := Thins.inLoop start ((hbody (start + c.length + 1 + 1)).inScope span) e₁
  cases hbrun : inLoop start (inScope span (stmts ids (start + c.length + 1 + 1) body)) e₁ with
  | mk b e₂ =>
  rw [hcrun] at hc
  rw [hbrun] at hb
  have hrun : stmt ids start rest (.loop condition body span) e =
      (c ++ [.of (.jumpIfFalse (start + c.length + 1 + b.length + 1)) condition.span] ++
        b.map (Line.closeLoop (start + c.length + 1 + b.length + 1)) ++ [.of (.jump start) span],
        e₂) := by
    simp only [stmt, bind_apply, pure_apply, hcrun, hbrun]
  rw [hrun] at he ⊢
  obtain ⟨he₁, hfb, hb⟩ := hb he
  obtain ⟨he₀, hfc, hc⟩ := hc he₁
  refine ⟨he₀, fun l hl => ?_, fun g hg => ?_⟩
  · simp only [List.mem_append, List.mem_singleton, List.mem_map, or_assoc] at hl
    rcases hl with hl | rfl | ⟨l, hl, rfl⟩ | rfl
    · exact hfc l hl
    · trivial
    · exact (hfb l hl).closeLoop _
    · trivial
  · obtain ⟨hg, hgback⟩ := agrees_append.1 hg
    obtain ⟨hg, hgb⟩ := agrees_append.1 hg
    obtain ⟨hgc, hgjump⟩ := agrees_append.1 hg
    rw [agrees_map fun l => Line.stays_closeLoop _ l, List.length_append, ← Nat.add_assoc] at hgb
    simp only [List.length_append, List.length_map, List.length_singleton,
      ← Nat.add_assoc] at hgback
    have hfirst : g (start + c.length + 1) = g start + (thin g c).length + 1 := by
      rw [hgjump.next rfl, hgc.stop]
    have hlast : g (start + c.length + 1 + b.length + 1) =
        g start + (thin g c).length + 1 + (thin g b).length + 1 := by
      replace hgb : Agrees g (start + c.length + 1) _ := hgb
      have := hgb.stop
      rw [hgback.next rfl, this, hfirst]
    have hb := hb g hgb
    rw [hfirst] at hb
    simp only [stmt, bind_apply, pure_apply, hc g hgc, hb, thin_append, thin_closeLoop, thin_jump,
      thin_jumpIfFalse, hlast, TExpr.span_bare]

/-- Further branches. The lines that leave the `if` are still pending. -/
abbrev ElifsThin (ids : Ids) (inside : Bool) (span : Option Span)
    (elifs : List (TExpr × List TStmt)) : Prop :=
  ∀ (start : Nat) (before : Freed) (e : Emitter),
    (elifBranches ids start before span elifs e).2.errors = #[] → e.errors = #[] ∧
      (∀ l ∈ (elifBranches ids start before span elifs e).1.1, l.FixedInBranch inside) ∧
      ∀ g, Agrees g start (elifBranches ids start before span elifs e).1.1 →
        elifBranches ids (g start) [] span (telifsBare elifs) (e.bare g) =
          ((thin g (elifBranches ids start before span elifs e).1.1, []),
            (elifBranches ids start before span elifs e).2.bare g)

theorem thins_elif {condition : TExpr} {body : List TStmt} {rest : List (TExpr × List TStmt)}
    (span : Option Span)
    (hc : ∀ start, Thins inside start (expr ids start condition) fun s => expr ids s condition.bare)
    (hbody : StmtsThin ids inside body) (hrest : ElifsThin ids inside span rest) :
    ElifsThin ids inside span ((condition, body) :: rest) := by
  intro start before e he
  have hc := hc start (setFreed before e).2
  cases hcrun : expr ids start condition (setFreed before e).2 with
  | mk c e₁ =>
  have hb := ((hbody (start + c.length + 1 + 1)).inScope span) e₁
  cases hbrun : inScope span (stmts ids (start + c.length + 1 + 1) body) e₁ with
  | mk b e₂ =>
  have hr := hrest (start + c.length + 1 + b.length + 1) before e₂
  cases hrrun : elifBranches ids (start + c.length + 1 + b.length + 1) before span rest e₂ with
  | mk r e₃ =>
  rw [hcrun] at hc
  rw [hbrun] at hb
  rw [hrrun] at hr
  have hrun : elifBranches ids start before span ((condition, body) :: rest) e =
      ((c ++ [.of (.jumpIfFalse (start + c.length + 1 + b.length + 1)) condition.span] ++ b ++
        [.leaveBranch span] ++ r.1, e₂.fn.freed.merge r.2), e₃) := by
    simp only [elifBranches, bind_apply, pure_apply, hcrun, hbrun, freed_apply, hrrun]
  rw [hrun] at he ⊢
  obtain ⟨he₂, hfr, hr⟩ := hr he
  obtain ⟨he₁, hfb, hb⟩ := hb he₂
  obtain ⟨he₀, hfc, hc⟩ := hc he₁
  refine ⟨he₀, fun l hl => ?_, fun g hg => ?_⟩
  · simp only [List.mem_append, List.mem_singleton, or_assoc] at hl
    rcases hl with hl | rfl | hl | rfl | hl
    · exact .inr (hfc l hl)
    · exact .inr trivial
    · exact .inr (hfb l hl)
    · exact .inl rfl
    · exact hfr l hl
  · obtain ⟨hg, hgr⟩ := agrees_append.1 hg
    obtain ⟨hg, hgleave⟩ := agrees_append.1 hg
    obtain ⟨hg, hgb⟩ := agrees_append.1 hg
    obtain ⟨hgc, hgjump⟩ := agrees_append.1 hg
    simp only [List.length_append, List.length_singleton, ← Nat.add_assoc] at hgr hgleave hgb
    have hfirst : g (start + c.length + 1) = g start + (thin g c).length + 1 := by
      rw [hgjump.next rfl, hgc.stop]
    have hnext : g (start + c.length + 1 + b.length + 1) =
        g start + (thin g c).length + 1 + (thin g b).length + 1 := by
      rw [hgleave.next rfl, hgb.stop, hfirst]
    have hc := hc g hgc
    have hb := hb g hgb
    have hr := hr g hgr
    rw [hfirst] at hb
    rw [hnext] at hr
    have hfree : (setFreed [] (e.bare g)).2 = (setFreed before e).2.bare g := rfl
    simp only [telifsBare, elifBranches, bind_apply, pure_apply, hfree, hc, hb, freed_apply, hr,
      thin_append, thin_leaveBranch, thin_jumpIfFalse, hnext, TExpr.span_bare]
    rfl

theorem thins_branch {condition : TExpr} {thenBlock : List TStmt}
    {elifs : List (TExpr × List TStmt)} {elseBlock : Option (List TStmt)} (span : Option Span)
    (hc : ∀ start, Thins inside start (expr ids start condition) fun s => expr ids s condition.bare)
    (hthen : StmtsThin ids inside thenBlock) (helifs : ElifsThin ids inside span elifs)
    (helse : ∀ start, Thins inside start (elseBranch ids start span elseBlock)
      fun s => elseBranch ids s span (telseBare elseBlock)) (rest rest' : List TStmt) :
    Thins inside start (stmt ids start rest (.branch condition thenBlock elifs elseBlock span))
      fun s => stmt ids s rest'
        (.branch condition.bare (tstmtsBare thenBlock) (telifsBare elifs)
          (telseBare elseBlock) span) := by
  intro e he
  have hc := hc start e
  cases hcrun : expr ids start condition e with
  | mk c e₁ =>
  have hb := ((hthen (start + c.length + 1 + 1)).inScope span) e₁
  cases hbrun : inScope span (stmts ids (start + c.length + 1 + 1) thenBlock) e₁ with
  | mk b e₂ =>
  have hm := helifs (start + c.length + 1 + b.length + 1) e.fn.freed e₂
  cases hmrun : elifBranches ids (start + c.length + 1 + b.length + 1) e.fn.freed span elifs e₂ with
  | mk m e₃ =>
  have hl := helse (start + c.length + 1 + b.length + 1 + m.1.length) (setFreed e.fn.freed e₃).2
  cases hlrun : elseBranch ids (start + c.length + 1 + b.length + 1 + m.1.length) span elseBlock
      (setFreed e.fn.freed e₃).2 with
  | mk l e₄ =>
  rw [hcrun] at hc
  rw [hbrun] at hb
  rw [hmrun] at hm
  rw [hlrun] at hl
  have hrun : stmt ids start rest (.branch condition thenBlock elifs elseBlock span) e =
      ((c ++ [Line.of (.jumpIfFalse (start + c.length + 1 + b.length + 1)) condition.span] ++ b ++
        [Line.leaveBranch span] ++ m.1 ++ l).map
          (Line.closeBranch (start + c.length + 1 + b.length + 1 + m.1.length + l.length)),
        (setFreed ((e₂.fn.freed.merge m.2).merge e₄.fn.freed) e₄).2) := by
    simp only [stmt, bind_apply, pure_apply, freed_apply, hcrun, hbrun, hmrun, hlrun]
  rw [hrun] at he ⊢
  obtain ⟨he₃, hfl, hl⟩ := hl he
  obtain ⟨he₂, hfm, hm⟩ := hm he₃
  obtain ⟨he₁, hfb, hb⟩ := hb he₂
  obtain ⟨he₀, hfc, hc⟩ := hc he₁
  refine ⟨he₀, fun _ hline => ?_, fun g hg => ?_⟩
  · obtain ⟨x, hx, rfl⟩ := List.mem_map.1 hline
    refine Line.FixedInBranch.closeBranch _ ?_
    simp only [List.mem_append, List.mem_singleton, or_assoc] at hx
    rcases hx with hx | rfl | hx | rfl | hx | hx
    · exact .inr (hfc x hx)
    · exact .inr trivial
    · exact .inr (hfb x hx)
    · exact .inl rfl
    · exact hfm x hx
    · exact .inr (hfl x hx)
  · rw [agrees_map fun l => Line.stays_closeBranch _ l] at hg
    obtain ⟨hg, hgl⟩ := agrees_append.1 hg
    obtain ⟨hg, hgm⟩ := agrees_append.1 hg
    obtain ⟨hg, hgleave⟩ := agrees_append.1 hg
    obtain ⟨hg, hgb⟩ := agrees_append.1 hg
    obtain ⟨hgc, hgjump⟩ := agrees_append.1 hg
    simp only [List.length_append, List.length_singleton, ← Nat.add_assoc] at hgl hgm hgleave hgb
    have hfirst : g (start + c.length + 1) = g start + (thin g c).length + 1 := by
      rw [hgjump.next rfl, hgc.stop]
    have hnext : g (start + c.length + 1 + b.length + 1) =
        g start + (thin g c).length + 1 + (thin g b).length + 1 := by
      rw [hgleave.next rfl, hgb.stop, hfirst]
    have helse : g (start + c.length + 1 + b.length + 1 + m.1.length) =
        g start + (thin g c).length + 1 + (thin g b).length + 1 + (thin g m.1).length := by
      rw [hgm.stop, hnext]
    have hjoin : g (start + c.length + 1 + b.length + 1 + m.1.length + l.length) =
        g start + (thin g c).length + 1 + (thin g b).length + 1 + (thin g m.1).length +
          (thin g l).length := by
      rw [hgl.stop, helse]
    have hb := hb g hgb
    have hm := hm g hgm
    have hl := hl g hgl
    rw [hfirst] at hb
    rw [hnext] at hm
    rw [helse] at hl
    have hfreed : (e.bare g).fn.freed = [] := rfl
    have hback : (setFreed [] (e₃.bare g)).2 = (setFreed e.fn.freed e₃).2.bare g := rfl
    simp only [stmt, bind_apply, pure_apply, freed_apply, hfreed, hc g hgc, hb, hm, hback, hl,
      thin_closeBranch, thin_append, thin_leaveBranch, thin_jumpIfFalse, hnext, hjoin,
      TExpr.span_bare]
    rfl

theorem exitLoopScopes_apply (span : Option Span) (e : Emitter) :
    exitLoopScopes span e = (List.replicate
      (e.fn.loops.head?.elim 0 fun l => e.fn.scopes.length - l.scopeDepth) (.of .exitScope span),
      e) := by
  obtain ⟨⟨name, captures, constants, scopes, slotNames, loops, freed, lambdas⟩, functions, natives,
    errors⟩ := e
  cases loops <;> rfl

theorem jumpToStart_apply (span : Option Span) (e : Emitter) :
    jumpToStart span e = (e.fn.loops.head?.toList.map fun l => .of (.jump l.start) span, e) := by
  obtain ⟨⟨name, captures, constants, scopes, slotNames, loops, freed, lambdas⟩, functions, natives,
    errors⟩ := e
  cases loops <;> rfl

/-- In the bare state as many scopes have been opened. -/
theorem thins_exitLoopScopes (span : Option Span) :
    Thins inside start (exitLoopScopes span) fun _ => exitLoopScopes span := by
  intro e he
  rw [exitLoopScopes_apply] at he ⊢
  refine ⟨he, fun l hl => ?_, fun g _ => ?_⟩
  · rw [(List.mem_replicate.1 hl).2]
    trivial
  · have hhead : (e.bare g).fn.loops.head? = e.fn.loops.head?.map (LoopContext.bare g) :=
      List.head?_map ..
    dsimp only
    rw [exitLoopScopes_apply, hhead, thin,
      List.filter_replicate_of_pos (show (Line.of .exitScope span).stays = true from rfl),
      List.map_replicate]
    cases e.fn.loops.head? <;> rfl

/-- A loop that is left is left by the end of its body. -/
theorem thins_leaveLoop (span : Option Span) :
    Thins true start (Pure.pure [.leaveLoop span]) fun _ => Pure.pure [.leaveLoop span] :=
  fun _ he => ⟨he, fun l hl => by
    rw [List.mem_singleton.1 hl]
    rfl, fun _ _ => rfl⟩

theorem thins_jumpToStart (span : Option Span) :
    Thins inside start (jumpToStart span) fun _ => jumpToStart span := by
  intro e he
  rw [jumpToStart_apply] at he ⊢
  refine ⟨he, fun l hl => ?_, fun g _ => ?_⟩
  · obtain ⟨l, -, rfl⟩ := List.mem_map.1 hl
    trivial
  · have hhead : (e.bare g).fn.loops.head? = e.fn.loops.head?.map (LoopContext.bare g) :=
      List.head?_map ..
    dsimp only
    rw [jumpToStart_apply, hhead]
    cases e.fn.loops.head? <;> rfl

/-- A statement of which nothing is left, before others. -/
theorem Thins.released {x : Emit (List Line)} {y : List Line → Emit (List Line)}
    {y' : Nat → Emit (List Line)}     (hx : Thins inside start x fun _ => Pure.pure [])
    (hy : ∀ ls, Thins inside (start + ls.length) (y ls) y') :
    Thins inside start (x >>= fun ls => y ls >>= fun more => Pure.pure (ls ++ more)) y' :=
  hx.append hy

end

/-! ## The whole tree -/

variable {ids : Ids}

mutual

theorem thins_expr {inside : Bool} (start : Nat) : (e : TExpr) → AllBodiesLooped (exprBodies e) →
    Thins inside start (expr ids start e) fun s => expr ids s e.bare
  | .mk kind ty span, h => thins_kind start ty span kind h

theorem thins_kind {inside : Bool} (start : Nat) (ty : Ty) (span : Option Span) : (k : TKind) →
    AllBodiesLooped (kindBodies span k) →
    Thins inside start (kindCode ids start ty span k) fun s => kindCode ids s ty span k.bare
  | .int value, _ => thins_constant (.int value) span
  | .float value, _ => thins_constant (.float value) span
  | .bool value, _ => thins_constant (.bool value) span
  | .string value, _ => thins_constant (.string value) span
  | .null, _ => thins_constant .null span
  | .binding name, _ => thins_load name span
  | .function name, _ => by
    simp only [TKind.bare, kindCode]
    split
    · exact thins_instr fun _ => rfl
    · exact thins_unresolved _ _ _
  | .native name, _ => .value (follows_nativeId name) fun _ => thins_instr fun _ => rfl
  | .binary op left right, h => by
    obtain ⟨hl, hr⟩ := allBodiesLooped_append.1 h
    simp only [TKind.bare, kindCode, TExpr.ty_bare]
    refine (thins_expr start left hl).append_ends
      (fun l => thins_expr (start + l.length) right hr) fun g => ?_
    cases op <;> rfl
  | .unary op operand, h => by
    simp only [TKind.bare, kindCode, TExpr.ty_bare]
    refine (thins_expr start operand h).ends fun g => ?_
    cases op <;> rfl
  | .logical op left right, h => by
    obtain ⟨hl, hr⟩ := allBodiesLooped_append.1 h
    have hl : Thins inside start (expr ids start left) fun s => expr ids s left.bare :=
      thins_expr start left hl
    have hr (start : Nat) : Thins inside start (expr ids start right) fun s =>
        expr ids s right.bare :=
      thins_expr start right hr
    cases op with
    | and => exact hl.decides (j := .jumpIfFalse) (fun _ => rfl) (fun _ _ => rfl) span hr
    | or => exact hl.decides (j := .jumpIfTrue) (fun _ => rfl) (fun _ _ => rfl) span hr
  | .call callee args, h => by
    have hargs : Thins inside start (exprs ids start args) fun s => exprs ids s (texprsBare args) :=
      thins_exprs start args h
    cases callee with
    | function name =>
      simp only [TKind.bare, kindCode, length_texprsBare]
      split
      · exact hargs.ends fun _ => rfl
      · exact thins_unresolved _ _ _
    | method struct method =>
      simp only [TKind.bare, kindCode, length_texprsBare]
      split
      · exact hargs.ends fun _ => rfl
      · exact thins_unresolved _ _ _
    | native name =>
      simp only [TKind.bare, kindCode, length_texprsBare]
      exact .value (follows_nativeId name) fun _ => hargs.ends fun _ => rfl
  | .callValue callee args, h => by
    obtain ⟨hc, ha⟩ := allBodiesLooped_append.1 h
    simp only [TKind.bare, kindCode, length_texprsBare]
    exact (thins_expr start callee hc).append_ends (fun c => thins_exprs (start + c.length) args ha)
      fun _ => rfl
  | .callDynamic callee args, h => by
    obtain ⟨hc, ha⟩ := allBodiesLooped_append.1 h
    simp only [TKind.bare, kindCode, length_texprsBare]
    exact (thins_expr start callee hc).append_ends (fun c => thins_exprs (start + c.length) args ha)
      fun _ => rfl
  | .callMethodDynamic method args, h => by
    simp only [TKind.bare, kindCode, length_texprsBare]
    exact (thins_exprs start args h).ends fun _ => rfl
  | .field object field index, h => by
    cases index with
    | some i => exact (thins_expr start object h).ends fun _ => rfl
    | none => exact (thins_expr start object h).ends fun _ => rfl
  | .structInit name values, h => by
    simp only [TKind.bare, kindCode, length_texprsBare]
    split
    · exact (thins_exprs start values h).ends fun _ => rfl
    · exact thins_unresolved _ _ _
  | .lambda params ret body captures, h => by
    obtain ⟨hinner, hown⟩ := allBodiesLooped_append.1 h
    have hbody := hown _ (List.mem_singleton_self _)
    exact Thins.value (z := fun id _ => do
        let code ← loads span captures
        return code ++ [.of (.makeClosure id captures.length) span])
      (follows_lambda params captures span fun start => thins_stmts start body hbody hinner)
      fun id => (thins_loads span captures start).ends (i := .makeClosure id captures.length)
        fun _ => rfl
  | .spawn function args, h => by
    simp only [TKind.bare, kindCode, length_texprsBare]
    split
    · exact (thins_exprs start args h).ends fun _ => rfl
    · exact thins_unresolved _ _ _
  | .await task, h => (thins_expr start task h).ends fun _ => rfl
  | .box inner, h => (thins_expr start inner h).ends fun _ => rfl
  | .unbox inner, h => (thins_expr start inner h).ends fun _ => rfl
  | .cast inner, h => by
    simp only [TKind.bare, kindCode]
    split
    · exact (thins_expr start inner h).ends fun _ => rfl
    · intro e he
      have : (expr ids start inner e).2.errors.push ⟨.conversion ty, span⟩ = #[] := he
      simp at this
  | .format parts, h => by
    simp only [TKind.bare, kindCode, length_texprsBare]
    exact (thins_exprs start parts h).ends fun _ => rfl

theorem thins_exprs {inside : Bool} (start : Nat) :
    (es : List TExpr) → AllBodiesLooped (exprsBodies es) →
    Thins inside start (exprs ids start es) fun s => exprs ids s (texprsBare es)
  | [], _ => thins_nil
  | e :: rest, h =>
    (thins_expr start e (allBodiesLooped_append.1 h).1).append fun code =>
      thins_exprs (start + code.length) rest (allBodiesLooped_append.1 h).2

/-- What follows a statement in its block matters to `collect` alone. -/
theorem thins_stmt {inside : Bool} (start : Nat) (rest rest' : List TStmt) :
    (s : TStmt) → s.isRelease = false → s.Looped inside → AllBodiesLooped (stmtBodies s) →
    Thins inside start (stmt ids start rest s) fun a => stmt ids a rest' s.bare
  | .declare name _ ty none span, _, _, _ => by
    have hbox (start : Nat) : Thins inside start
        (Pure.pure (if ty = .any then [Line.of .box span] else []))
        fun _ => Pure.pure (if ty = .any then [Line.of .box span] else []) := by
      split
      · exact thins_instr fun _ => rfl
      · exact thins_nil
    exact (thins_constant .null span).append fun code => (hbox (start + code.length)).append
      fun boxed => thins_declare name span
  | .declare name _ _ (some value) span, _, _, h =>
    (thins_expr start value h).append fun _ => thins_declare name span
  | .assign target value span, _, _, h =>
    (thins_expr start value h).append fun _ => thins_store target span
  | .branch condition thenBlock elifs elseBlock span, _, hl, h => by
    rw [stmtBodies] at h
    simp only [allBodiesLooped_append] at h
    obtain ⟨⟨⟨hc, ht⟩, hm⟩, he⟩ := h
    exact thins_branch span (fun start => thins_expr start condition hc)
      (fun start => thins_stmts start thenBlock hl.1 ht)
      (thins_elifs span elifs hl.2.1 hm)
      (fun start => thins_else start span elseBlock hl.2.2 he) rest rest'
  | .loop condition body span, _, hl, h =>
    thins_loop span (fun start => thins_expr start condition (allBodiesLooped_append.1 h).1)
      (fun start => thins_stmts start body hl (allBodiesLooped_append.1 h).2) rest rest'
  | .block body span, _, hl, h => (thins_stmts (start + 1) body hl h).inScope span
  | .ret none span, _, _, _ => (thins_constant .null span).ends fun _ => rfl
  | .ret (some value) span, _, _, h => by
    simp only [TStmt.bare, stmt, TExpr.span_bare]
    refine .value (follows_movedSlot? value) fun r => ?_
    cases r with
    | some slot =>
      exact fun e he => ⟨he, fun l hl => by
        simp only [pure_apply, List.mem_cons, List.not_mem_nil, or_false] at hl
        rcases hl with rfl | rfl <;> trivial, fun _ _ => rfl⟩
    | none => exact (thins_expr start value h).ends fun _ => rfl
  | .breakLoop span, _, hl, _ => by
    obtain rfl : inside = true := hl
    exact (thins_exitLoopScopes span).append fun code => thins_leaveLoop span
  | .continueLoop span, _, _, _ =>
    (thins_exitLoopScopes span).append fun code => thins_jumpToStart span
  | .yieldNow span, _, _, _ => thins_instr fun _ => rfl
  | .eval value span, _, _, h => (thins_expr start value h).ends fun _ => rfl

theorem thins_stmts {inside : Bool} (start : Nat) : (ss : List TStmt) → AllLooped inside ss →
    AllBodiesLooped (stmtsBodies ss) →
    Thins inside start (stmts ids start ss) fun s => stmts ids s (tstmtsBare ss)
  | [], _, _ => thins_nil
  | s :: rest, hl, h => by
    obtain ⟨hs, hrest⟩ := allBodiesLooped_append.1 h
    have hmore (start : Nat) := thins_stmts start rest hl.2 hrest
    rw [tstmtsBare]
    split
    · cases s with
      | free name span => exact (thins_free name span).released fun _ => hmore _
      | collect span => exact (thins_collect rest span).released fun _ => hmore _
      | _ => contradiction
    · rename_i hreleases
      exact (thins_stmt start rest (tstmtsBare rest) s
        (Bool.eq_false_iff.2 hreleases) hl.1 hs).append fun _ => hmore _

theorem thins_elifs {inside : Bool} (span : Option Span) : (elifs : List (TExpr × List TStmt)) →
    ElifsLooped inside elifs → AllBodiesLooped (elifsBodies elifs) → ElifsThin ids inside span elifs
  | [], _, _ => fun _ _ _ he => ⟨he, nofun, fun _ _ => rfl⟩
  | (condition, body) :: rest, hl, h => by
    rw [elifsBodies] at h
    simp only [allBodiesLooped_append] at h
    exact thins_elif span (fun start => thins_expr start condition h.1.1)
      (fun start => thins_stmts start body hl.1 h.1.2) (thins_elifs span rest hl.2 h.2)

theorem thins_else {inside : Bool} (start : Nat) (span : Option Span) :
    (elseBlock : Option (List TStmt)) →
    ElseLooped inside elseBlock → AllBodiesLooped (elseBodies elseBlock) →
    Thins inside start (elseBranch ids start span elseBlock)
      fun s => elseBranch ids s span (telseBare elseBlock)
  | none, _, _ => thins_nil
  | some body, hl, h => (thins_stmts (start + 1) body hl h).inScope span

end

/-! ## Programs -/

theorem place_bare (ids : Ids) (name : String) (code : FunctionCode) (e : Emitter) (g : Nat → Nat) :
    (place ids name code.bare (e.bare g)).2 = (place ids name code e).2.bare g := by
  rw [place_apply, place_apply]
  split
  · simp only [Emitter.bare, Array.map_setIfInBounds, Option.map_some]
  · rfl

/-- Each function starts afresh. -/
theorem function_bare {f : TFunction} (hf : AllBodiesLooped (f.toBody :: stmtsBodies f.body))
    {e : Emitter} (he : (function ids f e).2.errors = #[]) :
    e.errors = #[] ∧ ∀ g, ∃ g', (function ids f.bare (e.bare g)).2 =
      (function ids f e).2.bare g' := by
  obtain ⟨hown, hlambdas⟩ := List.forall_mem_cons.1 hf
  let e₁ : Emitter := { e with fn := .start f.name [] }
  let ls := (bodyLines ids f.params f.body f.span e₁).1
  rw [function_apply] at he ⊢
  have he₁ : (bodyLines ids f.params f.body f.span e₁).2.errors = #[] := by
    rw [place_apply] at he
    split at he <;> exact he
  obtain ⟨he₀, hfixed, hlines⟩ := thins_bodyLines f.params f.span
    (fun start => thins_stmts start f.body hown hlambdas) e₁ he₁
  refine ⟨he₀, fun g => ⟨lineAddress ls, ?_⟩⟩
  have hbare := hlines (lineAddress ls) rfl (agrees_lineAddress ls)
  have hrun : bodyLines ids f.params (tstmtsBare f.body) f.span
      { e.bare g with fn := .start f.name [] } =
      _ := hbare
  rw [function_apply]
  simp only [TFunction.bare, hrun]
  rw [← place_bare, ← codeOf_thin f.params f.isAsync _ hfixed]
  rfl

theorem forM_bare {ids : Ids} (fs : List TFunction)
    (hfs : ∀ f ∈ fs, AllBodiesLooped (f.toBody :: stmtsBodies f.body)) (e : Emitter)
    (he : (fs.forM (function ids) e).2.errors = #[]) :
    e.errors = #[] ∧ ∀ g, ∃ g', ((fs.map TFunction.bare).forM (function ids) (e.bare g)).2 =
      (fs.forM (function ids) e).2.bare g' := by
  induction fs generalizing e with
  | nil => exact ⟨he, fun g => ⟨g, rfl⟩⟩
  | cons f rest ih =>
    obtain ⟨hf, hrest⟩ := List.forall_mem_cons.1 hfs
    obtain ⟨he₁, ih⟩ := ih hrest (function ids f e).2 he
    obtain ⟨he₀, hfun⟩ := function_bare hf he₁
    refine ⟨he₀, fun g => ?_⟩
    obtain ⟨g₁, hg₁⟩ := hfun g
    obtain ⟨g₂, hg₂⟩ := ih g₁
    refine ⟨g₂, ?_⟩
    have hrun : ((f :: rest).map TFunction.bare).forM (function ids) (e.bare g) =
        (rest.map TFunction.bare).forM (function ids) (function ids f.bare (e.bare g)).2 := rfl
    rw [hrun, hg₁, hg₂]
    rfl

end Emit

theorem Ids.ofProgram_bare (p : TProgram) : Ids.ofProgram p.bare = .ofProgram p := by
  simp only [Ids.ofProgram, TProgram.bare, List.map_map]
  rfl

/-- What is left when all functions have been compiled. -/
def Emitter.result (p : TProgram) (e : Emitter) : Except (Array CompileError) Module :=
  if e.errors.isEmpty then
    .ok {
      functions := e.functions.filterMap id
      structs := (p.structs.map (StructInfo.layout (.ofProgram p))).toArray
      natives := e.natives
      source := p.source }
  else .error e.errors

theorem TProgram.compile_eq (p : TProgram) : p.compile =
    (p.functions.forM (Emit.function (.ofProgram p)) (.start p.functions.length)).2.result p := rfl

theorem Emitter.result_ok {p : TProgram} {e : Emitter} {m : Module} (h : e.result p = .ok m) :
    e.errors = #[] := by
  unfold result at h
  split at h
  · exact Array.isEmpty_iff.1 ‹_›
  · cases h

theorem Emitter.result_bare (p : TProgram) (e : Emitter) (g : Nat → Nat) :
    (e.bare g).result p.bare = (e.result p).map Module.bare := by
  have hfunctions : (e.functions.map (Option.map FunctionCode.bare)).filterMap id =
      (e.functions.filterMap id).map FunctionCode.bare := by
    rw [Array.filterMap_map, Array.map_filterMap]
    rfl
  unfold result
  rw [Ids.ofProgram_bare]
  simp only [bare, hfunctions]
  split <;> rfl

/-- The bare form of a program that compiles is compiled to the bare form of its module. -/
theorem TProgram.compile_bare {p : TProgram} {m : Module} (hloops : AllBodiesLooped p.bodies)
    (h : p.compile = .ok m) : p.bare.compile = .ok m.bare := by
  rw [compile_eq] at h
  obtain ⟨-, hforM⟩ := Emit.forM_bare p.functions
    (fun f hf b hb => hloops b (List.mem_flatMap.2 ⟨f, hf, hb⟩)) _ (Emitter.result_ok h)
  obtain ⟨g, hg⟩ := hforM id
  have hstart : (Emitter.start p.functions.length).bare id =
      .start (p.functions.map TFunction.bare).length := by
    simp [Emitter.start, Emitter.bare, FnState.bare, FnState.start]
  have hrun : (p.bare.functions.forM (Emit.function (.ofProgram p.bare))
      (.start p.bare.functions.length)).2 =
        (p.functions.forM (Emit.function (.ofProgram p)) (.start p.functions.length)).2.bare g := by
    rw [Ids.ofProgram_bare, ← hg, hstart]
    rfl
  rw [compile_eq, hrun, Emitter.result_bare, h]
  rfl

end ScopedScript
