import ScopedScript.Proofs.Compile.Compiled
import ScopedScript.Proofs.Evaluation.Outline

/-!
# Numbers of compiled procedures

The compiler numbers procedures as the outline of a tree does: each computation of it adds the
functions that the outline lists, in this order, and its lines make values of the functions that the
outline says.
-/

namespace ScopedScript

/-- The function that an instruction makes a value of. -/
def Instr.made? : Instr → Option Nat
  | .makeClosure id _ => some id
  | _ => none

/-- What a literal contributes. -/
def Constant.outline : Constant → Outline
  | .float x => .literal x
  | _ => .empty

/-- The functions that lines make values of, in order. -/
def madeBy (ls : List Line) : List Nat := ls.filterMap fun l => l.instr.made?

@[simp]
theorem madeBy_nil : madeBy [] = [] := rfl

@[simp]
theorem madeBy_append (ls ms : List Line) : madeBy (ls ++ ms) = madeBy ls ++ madeBy ms :=
  List.filterMap_append

@[simp]
theorem madeBy_of (i : Instr) (span : Option Span) : madeBy [.of i span] = i.made?.toList := by
  cases h : i.made? <;> simp [madeBy, Line.of, Line.instr, h]

@[simp]
theorem madeBy_leaveBranch (span : Option Span) : madeBy [.leaveBranch span] = [] := rfl

@[simp]
theorem madeBy_leaveLoop (span : Option Span) : madeBy [.leaveLoop span] = [] := rfl

@[simp]
theorem madeBy_closeLoop (target : Nat) (ls : List Line) :
    madeBy (ls.map (Line.closeLoop target)) = madeBy ls := by
  rw [madeBy, List.filterMap_map]
  congr 1
  funext ⟨step, span⟩
  cases step <;> rfl

@[simp]
theorem madeBy_closeBranch (target : Nat) (ls : List Line) :
    madeBy (ls.map (Line.closeBranch target)) = madeBy ls := by
  rw [madeBy, List.filterMap_map]
  congr 1
  funext ⟨step, span⟩
  cases step <;> rfl

/-- Instructions that make no function values. -/
theorem madeBy_map {xs : List α} {i : α → Instr} (h : ∀ x, (i x).made? = none)
    (span : Option Span) : madeBy (xs.map fun x => .of (i x) span) = [] := by
  rw [madeBy, List.filterMap_map, List.filterMap_eq_nil_iff]
  exact fun x _ => h x

theorem madeBy_replicate (n : Nat) {i : Instr} (h : i.made? = none) (span : Option Span) :
    madeBy (List.replicate n (.of i span)) = [] := by
  rw [madeBy, List.filterMap_eq_nil_iff]
  intro l hl
  rw [List.eq_of_mem_replicate hl]
  exact h

@[simp]
theorem BinaryOp.made?_instr (op : BinaryOp) (kind : OperandKind) :
    (op.instr kind).made? = none := by
  cases op <;> rfl

@[simp]
theorem UnaryOp.made?_instr (op : UnaryOp) (operand : Ty) : (op.instr operand).made? = none := by
  cases op <;> rfl

namespace Emitter

/-- The code is that of the procedure. -/
structure Implements (ids : Ids) (named : Nat) (e : Emitter) (q : Procedure)
    (g : FunctionCode) : Prop where
  name : g.name = q.name
  made : g.code.toList.filterMap Instr.made? = (stmtsOutline ids q.body.stmts).made q.first
  floats : ∀ x, .float x ∈ g.constants → x ∈ (stmtsOutline ids q.body.stmts).floats
  body : ∀ t, Backs ids named e t → BodyAt t g q.body

variable {ids : Ids} {named : Nat} {e e' e'' : Emitter} {o o' : Outline}

theorem Implements.later {q : Procedure} {g : FunctionCode} (h : Implements ids named e q g)
    (hback : ∀ t, Backs ids named e' t → Backs ids named e t) : Implements ids named e' q g :=
  ⟨h.name, h.made, h.floats, fun t ht => h.body t (hback t ht)⟩

/-- Between the two states of the compiler, what the outline lists has been added. -/
structure Follows (ids : Ids) (named : Nat) (o : Outline) (e e' : Emitter) : Prop where
  lambdaCount : e'.fn.lambdaCount = e.fn.lambdaCount + o.direct
  floats : ∀ x, .float x ∈ e'.fn.constants → .float x ∈ e.fn.constants ∨ x ∈ o.floats
  natives : e.natives.toList.Nodup → e'.natives.toList.Nodup
  functions : ∃ gs : List FunctionCode, e'.functions.toList = e.functions.toList ++ gs.map some ∧
    List.Forall₂ (Implements ids named e')
      (o.procedures e.fn.name e.fn.lambdaCount e.functions.size) gs

theorem Follows.mono (h : Follows ids named o e e') (hd : o'.direct = o.direct)
    (hf : o.floats ⊆ o'.floats) (hp : ∀ outer before first, o'.procedures outer before first =
      o.procedures outer before first) : Follows ids named o' e e' where
  lambdaCount := hd ▸ h.lambdaCount
  floats := fun x hx => (h.floats x hx).imp_right fun hx => hf hx
  natives := h.natives
  functions := by
    rw [hp]
    exact h.functions

theorem Follows.size (h : Follows ids named o e e') :
    e'.functions.size = e.functions.size + o.total := by
  obtain ⟨gs, hgs, hall⟩ := h.functions
  have hlength := hall.length_eq
  rw [o.length_procedures] at hlength
  rw [← Array.length_toList, hgs, List.length_append, List.length_map, Array.length_toList, hlength]

theorem Follows.refl (ids : Ids) (named : Nat) (e : Emitter) : Follows ids named .empty e e where
  lambdaCount := rfl
  floats := fun _ h => .inl h
  natives := id
  functions := ⟨[], (List.append_nil _).symm, .nil⟩

theorem Follows.trans (h : Follows ids named o e e') (h' : Follows ids named o' e' e'')
    (hname : e'.fn.name = e.fn.name) (hg : e'.Grows e'') : Follows ids named (o ++ o') e e'' where
  lambdaCount := by
    rw [h'.lambdaCount, h.lambdaCount, Outline.direct_append, Nat.add_assoc]
  floats := by
    intro x hx
    rw [Outline.floats_append, List.mem_append, ← or_assoc]
    exact (h'.floats x hx).imp_left (h.floats x)
  natives := fun hn => h'.natives (h.natives hn)
  functions := by
    have hsize := h.size
    obtain ⟨gs, hgs, hall⟩ := h.functions
    obtain ⟨gs', hgs', hall'⟩ := h'.functions
    refine ⟨gs ++ gs', ?_, ?_⟩
    · rw [hgs', hgs, List.append_assoc, List.map_append]
    · rw [hname, h.lambdaCount, hsize] at hall'
      rw [Outline.procedures_append]
      refine List.rel_append (hall.imp fun q g hq => hq.later fun t ht => ht.before hg) hall'

/-- What does not touch functions, literals and built-ins adds nothing. -/
theorem Follows.of_eq (hl : e'.fn.lambdaCount = e.fn.lambdaCount)
    (hc : e'.fn.constants = e.fn.constants) (hn : e'.natives = e.natives)
    (hf : e'.functions = e.functions) : Follows ids named .empty e e' where
  lambdaCount := hl
  floats := fun _ h => .inl (hc ▸ h)
  natives := fun h => hn ▸ h
  functions := ⟨[], by rw [hf, List.map_nil, List.append_nil], .nil⟩

end Emitter

open Emitter

namespace Emit

variable {ids : Ids} {named : Nat} {o o' : Outline} {R R' : Nat → α → Prop}

/-- A computation that reports nothing adds what the outline lists, and relates the number of the
first lambda to its value. -/
def Numbers (ids : Ids) (named : Nat) (x : Emit α) (o : Outline) (R : Nat → α → Prop) : Prop :=
  ∀ e : Emitter, named ≤ e.functions.size → e.Grows (x e).2 ∧ ((x e).2.errors = #[] →
    Follows ids named o e (x e).2 ∧ R e.functions.size (x e).1)

/-- The lines make values of what the outline says. -/
abbrev Lists (o : Outline) : Nat → List Line → Prop := fun first ls => madeBy ls = o.made first

theorem Numbers.weaken {x : Emit α} (h : Numbers ids named x o R)
    (hR : ∀ first a, R first a → R' first a) : Numbers ids named x o R' := by
  intro e he
  obtain ⟨hg, h⟩ := h e he
  exact ⟨hg, fun herr => ⟨(h herr).1, hR _ _ (h herr).2⟩⟩

theorem Numbers.of_eq {x : Emit α} (h : Numbers ids named x o R) (ho : o = o') :
    Numbers ids named x o' R := ho ▸ h

theorem Numbers.mono {x : Emit α} (h : Numbers ids named x o R) (hd : o'.direct = o.direct)
    (hf : o.floats ⊆ o'.floats) (hp : ∀ outer before first, o'.procedures outer before first =
      o.procedures outer before first) : Numbers ids named x o' R := by
  intro e he
  obtain ⟨hg, h⟩ := h e he
  exact ⟨hg, fun herr => ⟨(h herr).1.mono hd hf hp, (h herr).2⟩⟩

theorem Numbers.pure (a : α) : Numbers ids named (Pure.pure a) .empty fun _ b => b = a :=
  fun e _ => ⟨.refl e, fun _ => ⟨.refl ids named e, rfl⟩⟩

theorem Numbers.bind {x : Emit α} {y : α → Emit β} {S : α → Nat → β → Prop}
    (hx : Numbers ids named x o R) (hy : ∀ a, Numbers ids named (y a) o' (S a)) :
    Numbers ids named (x >>= y) (o ++ o') fun first b =>
      ∃ a, R first a ∧ S a (first + o.total) b := by
  intro e he
  obtain ⟨hgx, hx⟩ := hx e he
  have hsize : named ≤ (x e).2.functions.size := by
    have := hgx.functions.length_le
    simp only [Array.length_toList] at this
    exact Nat.le_trans he this
  obtain ⟨hgy, hy⟩ := hy (x e).1 (x e).2 hsize
  refine ⟨hgx.trans hgy, fun herr => ?_⟩
  obtain ⟨hfx, hrx⟩ := hx (hgy.errors herr)
  obtain ⟨hfy, hry⟩ := hy herr
  refine ⟨hfx.trans hfy hgx.name hgy, (x e).1, hrx, ?_⟩
  rw [← hfx.size]
  exact hry

/-- A computation that adds nothing before another one. -/
theorem Numbers.after {x : Emit α} {y : α → Emit β} {S : Nat → β → Prop}
    (hx : Numbers ids named x .empty R) (hy : ∀ a, Numbers ids named (y a) o S) :
    Numbers ids named (x >>= y) o S := by
  have h := hx.bind hy
  rw [Outline.empty_append] at h
  exact h.weaken fun _ _ ⟨_, _, h⟩ => h

/-- Nothing is said of what goes on after an error. -/
theorem Numbers.reported {y : Unit → Emit α} {cause : CompileCause} {span : Option Span}
    (hy : Numbers ids named (y ()) o' R') : Numbers ids named (report cause span >>= y) o R := by
  intro e he
  have hr : Yields ids named (report cause span) [] fun _ _ _ _ _ _ => True :=
    yields_report cause span
  have hg : e.Grows (report cause span e).2 := (hr e he).1
  have hy := (hy (report cause span e).2 he).1
  refine ⟨hg.trans hy, fun herr => ?_⟩
  have : e.errors.push ⟨cause, span⟩ = #[] := hy.errors herr
  simp at this

/-! ## Names, bindings and literals -/

/-- Reading the state. -/
theorem numbers_read (g : Emitter → α) :
    Numbers ids named (fun e => (g e, e)) .empty fun _ _ => True :=
  fun e _ => ⟨.refl e, fun _ => ⟨.refl ids named e, trivial⟩⟩

theorem numbers_get : Numbers ids named get .empty fun _ _ => True := numbers_read id

theorem numbers_resolve? (name : String) :
    Numbers ids named (resolve? name) .empty fun _ _ => True := numbers_read _

theorem numbers_freed : Numbers ids named freed .empty fun _ _ => True := numbers_read _

theorem numbers_modifyFn {g : FnState → FnState} (hc : ∀ f, (g f).constants = f.constants)
    (hs : ∀ f, (g f).slotNames = f.slotNames) (hm : ∀ f, (g f).name = f.name)
    (hn : ∀ f, (g f).captures = f.captures) (hl : ∀ f, (g f).lambdaCount = f.lambdaCount) :
    Numbers ids named (modifyFn g) .empty fun _ _ => True := by
  intro e _
  refine ⟨⟨id, List.prefix_rfl, List.prefix_rfl, ?_, ?_, hm e.fn, hn e.fn⟩, fun _ =>
    ⟨.of_eq (hl e.fn) (hc e.fn) rfl rfl, trivial⟩⟩
  · have h : (g e.fn).constants.toList = e.fn.constants.toList := congrArg _ (hc e.fn)
    exact h ▸ List.prefix_rfl
  · have h : (g e.fn).slotNames.toList = e.fn.slotNames.toList := congrArg _ (hs e.fn)
    exact h ▸ List.prefix_rfl

theorem numbers_setFreed (m : Freed) : Numbers ids named (setFreed m) .empty fun _ _ => True :=
  numbers_modifyFn (fun _ => rfl) (fun _ => rfl) (fun _ => rfl) (fun _ => rfl) fun _ => rfl

theorem numbers_markFreed (slot : Nat) (span : Option Span) :
    Numbers ids named (markFreed slot span) .empty fun _ _ => True :=
  numbers_modifyFn (fun _ => rfl) (fun _ => rfl) (fun _ => rfl) (fun _ => rfl) fun _ => rfl

theorem numbers_openScope : Numbers ids named openScope .empty fun _ _ => True :=
  numbers_modifyFn (fun _ => rfl) (fun _ => rfl) (fun _ => rfl) (fun _ => rfl) fun _ => rfl

theorem numbers_closeScope : Numbers ids named closeScope .empty fun _ _ => True :=
  numbers_modifyFn (fun _ => rfl) (fun _ => rfl) (fun _ => rfl) (fun _ => rfl) fun _ => rfl

theorem numbers_declareBinding (name : String) (span : Option Span) :
    Numbers ids named (declareBinding name span) .empty fun _ _ => True :=
  fun e he => ⟨(@yields_declareBinding ids named name span e he).1,
    fun _ => ⟨.of_eq rfl rfl rfl rfl, trivial⟩⟩

theorem numbers_checkLive (b : Binding) (span : Option Span) :
    Numbers ids named (checkLive b span) .empty fun _ _ => True := by
  refine numbers_freed.after fun m => (?_ : Numbers ids named _ _ _)
  split
  · exact .reported (.pure false)
  · exact (Numbers.pure true).weaken fun _ _ _ => trivial

theorem numbers_internConstant (c : Constant) :
    Numbers ids named (internConstant c) c.outline fun _ _ => True := by
  intro e he
  refine ⟨(@yields_internConstant ids named c e he).1, fun _ => ⟨?_, trivial⟩⟩
  have hnone : ∀ outer before first, c.outline.procedures outer before first = [] := by
    cases c <;> exact fun _ _ _ => rfl
  have hdirect : c.outline.direct = 0 := by cases c <;> rfl
  -- equal literals share one entry, so at most this one is new
  have hnew : ∀ x, .float x ∈ (internConstant c e).2.fn.constants →
      .float x ∈ e.fn.constants ∨ x ∈ c.outline.floats := by
    intro x hx
    rw [internConstant, modifyGet_apply] at hx
    split at hx
    · exact .inl hx
    · refine (Array.mem_push.1 hx).imp_right ?_
      rintro rfl
      exact List.mem_singleton.2 rfl
  have hrest : (internConstant c e).2.fn.lambdaCount = e.fn.lambdaCount ∧
      (internConstant c e).2.natives = e.natives ∧
      (internConstant c e).2.functions = e.functions := by
    rw [internConstant, modifyGet_apply]
    split <;> exact ⟨rfl, rfl, rfl⟩
  obtain ⟨hl, hn, hf⟩ := hrest
  refine ⟨by rw [hl, hdirect, Nat.add_zero], hnew, fun h => hn ▸ h, [], ?_, ?_⟩
  · rw [hf, List.map_nil, List.append_nil]
  · rw [hnone]
    exact .nil

theorem numbers_instr (i : Instr) (span : Option Span) :
    Numbers ids named (Pure.pure [.of i span]) .empty fun _ ls => madeBy ls = i.made?.toList :=
  (Numbers.pure _).weaken fun _ ls h => by rw [h, madeBy_of]

/-- A named function as a value. -/
theorem numbers_reference (id : Nat) (span : Option Span) :
    Numbers ids named (Pure.pure [.of (.makeClosure id 0) span]) (.reference (some id))
      (Lists (.reference (some id))) := by
  have h : Numbers ids named _ .empty _ := numbers_instr (.makeClosure id 0) span
  exact h.mono rfl (List.Subset.refl _) fun _ _ _ => rfl

/-- An instruction that makes no function value. -/
theorem numbers_plain {i : Instr} (h : i.made? = none) (span : Option Span) :
    Numbers ids named (Pure.pure [.of i span]) .empty (Lists .empty) :=
  (numbers_instr i span).weaken fun _ ls hls => by rw [Lists, hls, h]; rfl

theorem numbers_constant (c : Constant) (span : Option Span) :
    Numbers ids named (constant c span) c.outline (Lists c.outline) := by
  have hintern : Numbers ids named (internConstant c) c.outline fun _ _ => True :=
    numbers_internConstant c
  have h := hintern.bind fun i => numbers_plain (i := .const i) rfl span
  rw [Outline.append_empty] at h
  refine h.weaken fun first ls => ?_
  rintro ⟨_, -, h⟩
  rw [Lists, h]
  cases c <;> rfl

theorem numbers_unresolved {R : Nat → List Line → Prop} (what name : String) (span : Option Span) :
    Numbers ids named (unresolved what name span) o R :=
  .reported (numbers_constant .null span)

theorem numbers_load (name : String) (span : Option Span) :
    Numbers ids named (load name span) .empty (Lists .empty) := by
  refine (numbers_resolve? name).after fun r => (?_ : Numbers ids named _ _ _)
  split
  · exact (numbers_checkLive _ span).after fun _ => numbers_plain rfl span
  · exact numbers_plain rfl span
  · exact numbers_unresolved _ _ _

theorem Numbers.append {x : Emit (List Line)} {y : List Line → Emit (List Line)}
    (hx : Numbers ids named x o (Lists o)) (hy : ∀ ls, Numbers ids named (y ls) o' (Lists o')) :
    Numbers ids named (x >>= fun ls => y ls >>= fun more => Pure.pure (ls ++ more)) (o ++ o')
      (Lists (o ++ o')) := by
  have h := hx.bind fun ls => (hy ls).bind fun more => .pure (ls ++ more)
  rw [Outline.append_empty] at h
  refine h.weaken fun first _ => ?_
  rintro ⟨ls, hls, more, hmore, rfl⟩
  rw [Lists, madeBy_append, hls, hmore, Outline.made_append]

/-- Code, and more code that makes no function values. -/
theorem Numbers.append_plain {x : Emit (List Line)} {y : List Line → Emit (List Line)}
    (hx : Numbers ids named x o (Lists o))
    (hy : ∀ ls, Numbers ids named (y ls) .empty (Lists .empty)) :
    Numbers ids named (x >>= fun ls => y ls >>= fun more => Pure.pure (ls ++ more)) o
      (Lists o) := by
  have h := hx.append hy
  rwa [Outline.append_empty] at h

/-- Code, and one more instruction. -/
theorem Numbers.ends {x : Emit (List Line)} (hx : Numbers ids named x o (Lists o)) {i : Instr}
    (h : i.made? = none) (span : Option Span) :
    Numbers ids named (x >>= fun ls => Pure.pure (ls ++ [.of i span])) o (Lists o) :=
  hx.append_plain fun _ => numbers_plain h span

/-- Code after code, and one more instruction. -/
theorem Numbers.append_ends {x : Emit (List Line)} {y : List Line → Emit (List Line)}
    (hx : Numbers ids named x o (Lists o)) (hy : ∀ ls, Numbers ids named (y ls) o' (Lists o'))
    {i : Instr} (h : i.made? = none) (span : Option Span) :
    Numbers ids named (x >>= fun ls => y ls >>= fun more => Pure.pure (ls ++ more ++ [.of i span]))
      (o ++ o') (Lists (o ++ o')) :=
  (hx.append hy).ends h span

/-- A left operand that stays on the stack when it decides, and else the right one. -/
theorem Numbers.decides {start : Nat} {x : Emit (List Line)} {y : Nat → Emit (List Line)}
    (hx : Numbers ids named x o (Lists o)) (jump : Nat → Instr)
    (hj : ∀ target, (jump target).made? = none) (span : Option Span)
    (hy : ∀ start, Numbers ids named (y start) o' (Lists o')) :
    Numbers ids named (do
      let l ← x
      let r ← y (start + l.length + 3)
      return l ++ [.of .dup span, .of (jump (start + l.length + 3 + r.length)) span,
        .of .pop span] ++ r)
      (o ++ o') (Lists (o ++ o')) := by
  have h := hx.bind fun l => (hy (start + l.length + 3)).bind fun r => .pure (l ++ [.of .dup span,
    .of (jump (start + l.length + 3 + r.length)) span, .of .pop span] ++ r)
  rw [Outline.append_empty] at h
  refine h.weaken fun first _ => ?_
  rintro ⟨l, hl, r, hr, rfl⟩
  have hmiddle (target : Nat) :
      madeBy [.of .dup span, .of (jump target) span, .of .pop span] = [] := by
    have hnone := hj target
    simp only [madeBy, Line.of, Line.instr, List.filterMap_cons, hnone]
    rfl
  simp only [Lists, madeBy_append, hl, hr, hmiddle, List.append_nil, Outline.made_append]

/-- A place where tasks matter is no matter of numbers. -/
theorem Numbers.task {x : Emit (List Line)} (hx : Numbers ids named x o (Lists o)) :
    Numbers ids named x (o ++ .task) (Lists (o ++ .task)) := by
  have h : Numbers ids named x (o ++ .task) (Lists o) :=
    hx.mono rfl (List.subset_append_left _ _) fun _ _ _ => List.append_nil _
  exact h.weaken fun first ls hls => hls.trans (List.append_nil _).symm

theorem numbers_loads (span : Option Span) : (names : List String) →
    Numbers ids named (loads span names) .empty (Lists .empty)
  | [] => (Numbers.pure []).weaken fun _ _ h => by rw [h]; rfl
  | name :: rest => (numbers_load name span).append fun _ => numbers_loads span rest

theorem numbers_nativeId (name : String) :
    Numbers ids named (nativeId name) .empty fun _ _ => True := by
  intro e he
  refine ⟨(@yields_nativeId ids named name e he).1, fun _ => ⟨?_, trivial⟩⟩
  have hrest : (nativeId name e).2.fn = e.fn ∧ (nativeId name e).2.functions = e.functions := by
    rw [nativeId, modifyGet_apply]
    split <;> exact ⟨rfl, rfl⟩
  obtain ⟨hfn, hf⟩ := hrest
  refine ⟨by rw [hfn]; rfl, fun x hx => .inl (hfn ▸ hx), fun hnodup => ?_, [], ?_, .nil⟩
  · rw [nativeId, modifyGet_apply]
    split
    · exact hnodup
    · rename_i hnew
      rw [Array.findIdx?_eq_none_iff] at hnew
      rw [Array.toList_push, List.nodup_append]
      refine ⟨hnodup, List.nodup_singleton _, fun a ha b hb => ?_⟩
      have hne := hnew a (Array.mem_toList_iff.1 ha)
      rw [List.mem_singleton.1 hb]
      exact ne_of_beq_false hne
  · rw [hf, List.map_nil, List.append_nil]

theorem numbers_nil : Numbers ids named (Pure.pure []) .empty (Lists .empty) :=
  (Numbers.pure []).weaken fun _ _ h => by rw [h]; rfl

theorem numbers_free (name : String) (span : Option Span) :
    Numbers ids named (free name span) .empty (Lists .empty) := by
  refine (numbers_resolve? name).after fun r => (?_ : Numbers ids named _ _ _)
  split
  · rename_i b
    refine (numbers_checkLive b span).after fun live => (?_ : Numbers ids named _ _ _)
    split
    · exact numbers_nil
    · refine numbers_get.after fun e => (?_ : Numbers ids named _ _ _)
      split
      · exact .reported numbers_nil
      · exact (numbers_markFreed b.slot span).after fun _ => numbers_plain rfl span
  · exact .reported numbers_nil

theorem numbers_store (target : AssignTarget) (span : Option Span) :
    Numbers ids named (store target span) .empty (Lists .empty) := by
  refine (numbers_resolve? target.name).after fun r => (?_ : Numbers ids named _ _ _)
  split
  · rename_i b
    refine (numbers_checkLive b target.span).after fun live => (?_ : Numbers ids named _ _ _)
    split
    · exact numbers_nil
    · split
      · exact numbers_plain rfl span
      · exact numbers_plain rfl span
  · exact .reported numbers_nil

theorem numbers_collect (rest : List TStmt) (span : Option Span) :
    Numbers ids named (collect rest span) .empty (Lists .empty) := by
  refine numbers_get.after fun e => (numbers_setFreed _).after fun _ =>
    (Numbers.pure _).weaken fun _ ls h => ?_
  rw [Lists, h, madeBy_map fun _ => rfl]
  rfl

theorem numbers_exitLoopScopes (span : Option Span) :
    Numbers ids named (exitLoopScopes span) .empty (Lists .empty) := by
  refine numbers_get.after fun e => (?_ : Numbers ids named _ _ _)
  dsimp only
  split
  · exact numbers_nil
  · refine (Numbers.pure _).weaken fun _ ls h => ?_
    rw [Lists, h, madeBy_replicate _ rfl]
    rfl

theorem numbers_jumpToStart (span : Option Span) :
    Numbers ids named (jumpToStart span) .empty (Lists .empty) := by
  refine numbers_get.after fun e => (?_ : Numbers ids named _ _ _)
  split
  · exact numbers_nil
  · exact numbers_plain rfl span

theorem Numbers.inScope (span : Option Span) {x : Emit (List Line)}
    (hx : Numbers ids named x o (Lists o)) : Numbers ids named (inScope span x) o (Lists o) := by
  have h := (hx.bind fun body => numbers_closeScope.after fun _ =>
    .pure ([.of .enterScope span] ++ body ++ [.of .exitScope span]))
  rw [Outline.append_empty] at h
  refine numbers_openScope.after fun _ => h.weaken fun first _ => ?_
  rintro ⟨body, hbody, rfl⟩
  rw [Lists, madeBy_append, madeBy_append, hbody, madeBy_of, madeBy_of]
  exact List.append_nil _

theorem Numbers.inLoop {R : Nat → List Line → Prop} (start : Nat) {x : Emit (List Line)}
    (hx : Numbers ids named x o R) : Numbers ids named (inLoop start x) o R := by
  have henter : Numbers ids named
      (modifyFn fun f => { f with loops := ⟨start, f.scopes.length⟩ :: f.loops }) .empty
      fun _ _ => True :=
    numbers_modifyFn (fun _ => rfl) (fun _ => rfl) (fun _ => rfl) (fun _ => rfl) fun _ => rfl
  have h := henter.after fun _ => hx.bind fun body =>
      (numbers_modifyFn (g := fun f => { f with loops := f.loops.tail }) (fun _ => rfl)
        (fun _ => rfl) (fun _ => rfl) (fun _ => rfl) fun _ => rfl).after fun _ => .pure body
  rw [Outline.append_empty] at h
  refine h.weaken fun first _ => ?_
  rintro ⟨body, hbody, rfl⟩
  exact hbody

/-! ## Functions -/

theorem numbers_declareParams : (params : List TParam) →
    Numbers ids named (declareParams params) .empty fun _ _ => True
  | [] => (Numbers.pure ()).weaken fun _ _ _ => trivial
  | p :: rest => ((numbers_declareBinding p.name p.span).after fun _ => .pure ()).after fun _ =>
      numbers_declareParams rest

/-- What is to be shown of a statement list by induction over the tree. -/
abbrev StmtsNumber (ids : Ids) (named : Nat) (body : List TStmt) : Prop :=
  ∀ start, Numbers ids named (stmts ids start body) (stmtsOutline ids body)
    (Lists (stmtsOutline ids body))

theorem numbers_bodyLines (params : List TParam) (span : Option Span) {body : List TStmt}
    (hbody : StmtsNumber ids named body) :
    Numbers ids named (bodyLines ids params body span) (stmtsOutline ids body)
      (Lists (stmtsOutline ids body)) := by
  have h := (hbody 0).append_ends (fun _ => numbers_constant .null span) (i := .ret) rfl span
  rw [show Constant.outline .null = .empty from rfl, Outline.append_empty] at h
  exact (numbers_declareParams params).after fun _ => h

/-- A function that is compiled from the start is the procedure of its body. -/
theorem implements_codeOf {b : Body} {name : String} {e e' : Emitter} {lines : List Line}
    (hbody : StmtsNumber ids named b.stmts) (hn : named ≤ e.functions.size)
    (hfn : e.fn = .start name b.captures)
    (hrun : bodyLines ids b.params b.stmts b.span e = (lines, e')) (herr : e'.errors = #[]) :
    Follows ids named (stmtsOutline ids b.stmts) e e' ∧
      Implements ids named e' ⟨name, b, e.functions.size⟩
        (codeOf ids b.params b.isAsync lines e'.fn) := by
  have h := numbers_bodyLines b.params b.span hbody e hn
  rw [hrun] at h
  obtain ⟨hg, h⟩ := h
  obtain ⟨hf, hlists⟩ := h herr
  obtain ⟨-, hcode⟩ := bodyAt_codeOf (fun start => yields_stmts start b.stmts) hn hfn hrun
  refine ⟨hf, ?_⟩
  constructor
  case name => exact hg.name.trans (congrArg FnState.name hfn)
  case made =>
    rw [codeOf, List.filterMap_map]
    exact hlists
  case floats =>
    intro x hx
    refine (hf.floats x hx).resolve_left fun h => ?_
    rw [hfn] at h
    exact Array.not_mem_empty _ h
  case body => exact (hcode herr).2

/-- A lambda becomes a function of its own, after those in it. -/
theorem numbers_lambda {b : Body} (hb : b.isAsync = false) (hbody : StmtsNumber ids named b.stmts) :
    Numbers ids named (do
      let outer ← enterLambda b.captures
      declareParams b.params
      let inner ← stmts ids 0 b.stmts
      exitLambda outer (← finish ids b.params inner false b.span))
        ((stmtsOutline ids b.stmts).lambda b)
      fun first id => id = first + (stmtsOutline ids b.stmts).total := by
  intro e hn
  refine ⟨(@yields_lambda ids named b hb (fun start => yields_stmts start b.stmts) e hn).1, ?_⟩
  let outer : FnState := { e.fn with lambdaCount := e.fn.lambdaCount + 1 }
  let name := outer.name ++ "#lambda" ++ Decimal.natText outer.lambdaCount
  let e₁ : Emitter := { e with fn := .start name b.captures }
  cases hrun : bodyLines ids b.params b.stmts b.span e₁ with
  | mk lines e' =>
  have hr : (do
      let outer ← enterLambda b.captures
      declareParams b.params
      let inner ← stmts ids 0 b.stmts
      exitLambda outer (← finish ids b.params inner false b.span) : Emit Nat) e =
      (e'.functions.size, { e' with
        fn := outer
        functions := e'.functions.push (some (codeOf ids b.params false lines e'.fn)) }) := by
    change exitLambda outer (codeOf ids b.params false
      (bodyLines ids b.params b.stmts b.span e₁).1 (bodyLines ids b.params b.stmts b.span e₁).2.fn)
      (bodyLines ids b.params b.stmts b.span e₁).2 = _
    rw [hrun]
    rfl
  rw [hr]
  intro herr
  obtain ⟨hf, hcode⟩ := implements_codeOf (e := e₁) hbody hn rfl hrun herr
  rw [hb] at hcode
  have hback {t : Tables} (ht : Emitter.Backs ids named { e' with
      fn := outer
      functions := e'.functions.push (some (codeOf ids b.params false lines e'.fn)) } t) :
      Emitter.Backs ids named e' t := by
    refine ⟨ht.ids, ht.natives, fun i g hi hg => ht.functions i g hi ?_⟩
    exact Emitter.getElem?_of_extends (by simp) hg
  have hsize := hf.size
  obtain ⟨gs, hgs, hall⟩ := hf.functions
  refine ⟨⟨rfl, fun x hx => .inl hx, hf.natives, gs ++ [codeOf ids b.params false lines e'.fn],
    ?_, ?_⟩, hsize⟩
  · rw [Array.toList_push, hgs, List.map_append, List.append_assoc]
    rfl
  · refine List.rel_append (hall.imp fun q g hq => hq.later fun t => hback) ?_
    exact .cons (hcode.later fun t => hback) .nil

/-! ## Expressions and statements -/

theorem numbers_branch {condition : TExpr} {thenBlock : List TStmt}
    {elifs : List (TExpr × List TStmt)} {elseBlock : Option (List TStmt)} (span : Option Span)
    (hc : ∀ start, Numbers ids named (expr ids start condition) (exprOutline ids condition)
      (Lists (exprOutline ids condition)))
    (hthen : StmtsNumber ids named thenBlock)
    (helifs : ∀ start before, Numbers ids named (elifBranches ids start before span elifs)
      (elifsOutline ids elifs) fun first r => madeBy r.1 = (elifsOutline ids elifs).made first)
    (helse : ∀ start, Numbers ids named (elseBranch ids start span elseBlock)
      (elseOutline ids elseBlock) (Lists (elseOutline ids elseBlock)))
    (start : Nat) (rest : List TStmt) :
    Numbers ids named (stmt ids start rest (.branch condition thenBlock elifs elseBlock span))
      (stmtOutline ids (.branch condition thenBlock elifs elseBlock span))
      (Lists (stmtOutline ids (.branch condition thenBlock elifs elseBlock span))) := by
  rw [stmt, stmtOutline]
  refine ((numbers_freed.after fun before => (hc start).bind fun c =>
    ((hthen (start + c.length + 1 + 1)).inScope span).bind fun body =>
    numbers_freed.after fun afterThen =>
    (helifs (start + c.length + 1 + body.length + 1) before).bind fun middle =>
    (numbers_setFreed before).after fun _ =>
    (helse (start + c.length + 1 + body.length + 1 + middle.1.length)).bind fun last =>
    numbers_freed.after fun afterLast => (numbers_setFreed _).after fun _ =>
      .pure ((c ++
        [Line.of (.jumpIfFalse (start + c.length + 1 + body.length + 1)) condition.span] ++
        body ++ [Line.leaveBranch span] ++ middle.1 ++ last).map (Line.closeBranch
          (start + c.length + 1 + body.length + 1 + middle.1.length + last.length)))).of_eq
      (by simp [Outline.append_assoc])).weaken fun first _ => ?_
  rintro ⟨c, hc, body, hbody, middle, hmiddle, last, hlast, rfl⟩
  simp only [Lists, madeBy_closeBranch, madeBy_append, madeBy_of, madeBy_leaveBranch, hc,
    hbody, hmiddle, hlast, Instr.made?, Option.toList_none, List.append_nil, Outline.made_append,
    Outline.total_append, Nat.add_assoc]

theorem numbers_declare (name : String) (span : Option Span) :
    Numbers ids named (do
      let slot ← declareBinding name span
      return [.of (.declare slot) span]) .empty (Lists .empty) :=
  (numbers_declareBinding name span).after fun _ => numbers_plain rfl span

/-- A binding that is handed over makes no function value, and neither does a copy of it. -/
theorem numbers_ret {start : Nat} {value : TExpr} (span : Option Span)
    (hv : Numbers ids named (expr ids start value) (exprOutline ids value)
      (Lists (exprOutline ids value))) (rest : List TStmt) :
    Numbers ids named (stmt ids start rest (.ret (some value) span))
      (stmtOutline ids (.ret (some value) span))
      (Lists (stmtOutline ids (.ret (some value) span))) := by
  obtain ⟨kind, ty, at_⟩ := value
  cases kind with
  | binding name =>
    have hmoved : Numbers ids named (movedSlot? (.mk (.binding name) ty at_)) .empty fun _ _ =>
        True := by
      refine (numbers_resolve? name).after fun r => (?_ : Numbers ids named _ _ _)
      split
      · exact (numbers_checkLive _ at_).after fun _ => (Numbers.pure _).weaken fun _ _ _ => trivial
      · exact (Numbers.pure none).weaken fun _ _ _ => trivial
    refine hmoved.after fun r => (?_ : Numbers ids named _ .empty _)
    cases r with
    | some slot => exact (Numbers.pure _).weaken fun _ _ h => by rw [h]; rfl
    | none => exact hv.ends rfl span
  | _ => exact hv.ends rfl span

mutual

theorem numbers_expr (start : Nat) : (e : TExpr) →
    Numbers ids named (expr ids start e) (exprOutline ids e) (Lists (exprOutline ids e))
  | .mk kind ty span => numbers_kind start ty span kind

theorem numbers_kind (start : Nat) (ty : Ty) (span : Option Span) : (k : TKind) →
    Numbers ids named (kindCode ids start ty span k) (kindOutline ids span k)
      (Lists (kindOutline ids span k))
  | .int value => numbers_constant (.int value) span
  | .float value => numbers_constant (.float value) span
  | .bool value => numbers_constant (.bool value) span
  | .string value => numbers_constant (.string value) span
  | .null => numbers_constant .null span
  | .binding name => numbers_load name span
  | .function name => by
    rw [kindCode, kindOutline]
    cases ids.functions.lookup name with
    | some id =>
      exact numbers_reference id span
    | none => exact numbers_unresolved _ _ _
  | .native name => (numbers_nativeId name).after fun id => numbers_plain rfl span
  | .binary op left right =>
    (numbers_expr start left).append_ends (fun l => numbers_expr (start + l.length) right)
      (op.made?_instr _) span
  | .unary op operand => (numbers_expr start operand).ends (op.made?_instr _) span
  | .logical op left right => by
    have hl := numbers_expr start left
    have hr (start : Nat) := numbers_expr start right
    cases op with
    | and => exact hl.decides .jumpIfFalse (fun _ => rfl) span hr
    | or => exact hl.decides .jumpIfTrue (fun _ => rfl) span hr
  | .call callee args => by
    cases callee with
    | function name =>
      simp only [kindCode]
      split
      · exact (numbers_exprs start args).ends rfl span
      · exact numbers_unresolved _ _ _
    | method struct method =>
      simp only [kindCode]
      split
      · exact (numbers_exprs start args).ends rfl span
      · exact numbers_unresolved _ _ _
    | native name =>
      simp only [kindCode]
      exact (numbers_nativeId name).after fun id => (numbers_exprs start args).ends rfl span
  | .callValue callee args =>
    (numbers_expr start callee).append_ends
      (fun c => numbers_exprs (start + c.length) args) rfl span
  | .callDynamic callee args =>
    (numbers_expr start callee).append_ends
      (fun c => numbers_exprs (start + c.length) args) rfl span
  | .callMethodDynamic method args => (numbers_exprs start args).ends rfl span
  | .field object field index => by
    cases index with
    | some i => exact (numbers_expr start object).ends rfl span
    | none => exact (numbers_expr start object).ends rfl span
  | .structInit name values => by
    rw [kindCode]
    split
    · exact (numbers_exprs start values).ends rfl span
    · exact numbers_unresolved _ _ _
  | .lambda params ret body captures => by
    have h := (numbers_lambda (b := ⟨params, ret, body, captures, false, span⟩) rfl
      fun start => numbers_stmts start body).bind fun id =>
        (numbers_loads span captures).bind fun code =>
        .pure (code ++ [.of (.makeClosure id captures.length) span])
    rw [Outline.append_empty, Outline.append_empty] at h
    refine h.weaken fun first _ => ?_
    rintro ⟨_, rfl, code, hcode, rfl⟩
    simp only [Lists, madeBy_append, hcode, madeBy_of, Instr.made?]
    rfl
  | .spawn function args => by
    rw [kindCode, kindOutline]
    split
    · exact ((numbers_exprs start args).ends rfl span).task
    · exact numbers_unresolved _ _ _
  | .await task => ((numbers_expr start task).ends rfl span).task
  | .box inner => (numbers_expr start inner).ends rfl span
  | .unbox inner => (numbers_expr start inner).ends rfl span
  | .cast inner => by
    rw [kindCode]
    cases castTarget? ty with
    | some target => exact (numbers_expr start inner).ends rfl span
    | none =>
      have hrep (code : List Line) : Numbers ids named (do
          report (.conversion ty) span
          return code) .empty fun _ _ => False := .reported (.pure code)
      have h := (numbers_expr start inner).bind hrep
      rw [Outline.append_empty] at h
      exact h.weaken fun _ _ ⟨_, _, h⟩ => h.elim
  | .format parts => (numbers_exprs start parts).ends rfl span

theorem numbers_exprs (start : Nat) : (es : List TExpr) →
    Numbers ids named (exprs ids start es) (exprsOutline ids es) (Lists (exprsOutline ids es))
  | [] => numbers_nil
  | e :: rest => (numbers_expr start e).append fun code => numbers_exprs (start + code.length) rest

theorem numbers_stmt (start : Nat) (rest : List TStmt) : (s : TStmt) →
    Numbers ids named (stmt ids start rest s) (stmtOutline ids s) (Lists (stmtOutline ids s))
  | .declare name _ ty none span => by
    have hbox : Numbers ids named (pure (if ty = .any then [Line.of .box span] else [])) .empty
        (Lists .empty) := by
      split
      · exact numbers_plain rfl span
      · exact numbers_nil
    exact (numbers_constant .null span).append fun _ => hbox.append fun _ =>
      numbers_declare name span
  | .declare name _ _ (some value) span =>
    (numbers_expr start value).append_plain fun _ => numbers_declare name span
  | .assign target value span =>
    (numbers_expr start value).append_plain fun _ => numbers_store target span
  | .branch condition thenBlock elifs elseBlock span =>
    numbers_branch span (fun start => numbers_expr start condition)
      (fun start => numbers_stmts start thenBlock)
      (fun start before => numbers_elifBranches start before span elifs)
      (fun start => numbers_elseBranch start span elseBlock) start rest
  | .loop condition body span => by
    have h := (numbers_expr start condition).bind fun c => (Numbers.inLoop start
      ((numbers_stmts (start + c.length + 1 + 1) body).inScope span)).bind fun code =>
        .pure (c ++
          [Line.of (.jumpIfFalse (start + c.length + 1 + code.length + 1)) condition.span] ++
          code.map (Line.closeLoop (start + c.length + 1 + code.length + 1)) ++
          [Line.of (.jump start) span])
    rw [Outline.append_empty] at h
    refine h.weaken fun first _ => ?_
    rintro ⟨c, hc, code, hcode, rfl⟩
    simp only [Lists, madeBy_append, madeBy_closeLoop, madeBy_of, hc, hcode, Instr.made?,
      Option.toList_none, List.append_nil, stmtOutline, Outline.made_append]
  | .block body span => (numbers_stmts (start + 1) body).inScope span
  | .ret none span => (numbers_constant .null span).ends rfl span
  | .ret (some value) span => numbers_ret span (numbers_expr start value) rest
  | .breakLoop span => (numbers_exitLoopScopes span).append fun _ =>
    (Numbers.pure [Line.leaveLoop span]).weaken fun _ _ h => by rw [h]; rfl
  | .continueLoop span => (numbers_exitLoopScopes span).append fun _ => numbers_jumpToStart span
  | .free name span => numbers_free name span
  | .collect span => numbers_collect rest span
  | .yieldNow span => (numbers_plain rfl span).task
  | .eval value span => (numbers_expr start value).ends rfl span

theorem numbers_stmts (start : Nat) : (ss : List TStmt) →
    Numbers ids named (stmts ids start ss) (stmtsOutline ids ss) (Lists (stmtsOutline ids ss))
  | [] => numbers_nil
  | s :: rest => (numbers_stmt start rest s).append fun code =>
    numbers_stmts (start + code.length) rest

theorem numbers_elifBranches (start : Nat) (before : Freed) (span : Option Span) :
    (elifs : List (TExpr × List TStmt)) →
    Numbers ids named (elifBranches ids start before span elifs) (elifsOutline ids elifs)
      fun first r => madeBy r.1 = (elifsOutline ids elifs).made first
  | [] => (Numbers.pure ([], [])).weaken fun _ _ h => by rw [h]; rfl
  | (condition, body) :: rest => by
    refine (((numbers_setFreed before).after fun _ => (numbers_expr start condition).bind fun c =>
      ((numbers_stmts (start + c.length + 1 + 1) body).inScope span).bind fun code =>
      numbers_freed.bind fun after =>
      (numbers_elifBranches (start + c.length + 1 + code.length + 1) before span rest).bind
        fun later => .pure (c ++
          [Line.of (.jumpIfFalse (start + c.length + 1 + code.length + 1)) condition.span] ++
          code ++ [Line.leaveBranch span] ++ later.1, after.merge later.2)).of_eq
      (by simp [elifsOutline, Outline.append_assoc])).weaken fun first _ => ?_
    rintro ⟨c, hc, code, hcode, _, -, later, hlater, rfl⟩
    simp only [madeBy_append, madeBy_of, madeBy_leaveBranch, hc, hcode, hlater, Instr.made?,
      Option.toList_none, List.append_nil, elifsOutline, Outline.made_append, Outline.total_append,
      Nat.add_assoc]
    rfl

theorem numbers_elseBranch (start : Nat) (span : Option Span) : (elseBlock : Option (List TStmt)) →
    Numbers ids named (elseBranch ids start span elseBlock) (elseOutline ids elseBlock)
      (Lists (elseOutline ids elseBlock))
  | none => numbers_nil
  | some body => (numbers_stmts (start + 1) body).inScope span

end

end Emit

end ScopedScript
